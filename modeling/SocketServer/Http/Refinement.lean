import SocketServer.Http.Reference

/-!
# The parser agrees with the reference

For any file object, failing ones included, the parser performs on it the calls of a legal `Trace`, and unless
one of them raises it accepts exactly the bodies the reference accepts, with the reference's result and with the
reference's bytes written (`parseMultipartStream_trace`). Each field has its own lemma of this shape
(`readPath_spec`, `readFile_spec`, `skipField_spec`), and the loop composes the traces (`partLoop_spec`).

`parseMultipartStream_refines` is the case of a file object that never raises.
-/

namespace SocketServer.Http

open Search Text

variable {σ : Type}

/-! ### One field -/

def Agrees (acc : RefState) (st : ParseState σ) : Prop :=
  acc.result = st.result ∧ acc.opened.isSome = st.fhOpen

/-- The reference's account of the file grows by the calls of a trace. -/
def Grows (acc : RefState) (tr : Trace) (acc' : RefState) : Prop :=
  acc'.opened = acc.opened.or tr.opened ∧ acc'.written = acc.written ++ tr.pieces.flatten

def IsValueError (out : Except ParseError Unit) : Prop := ∃ msg, out = .error (.valueError msg)

/-- What reading a field comes to, given where the reference cuts its value and what it makes of it. -/
def FieldOutcome (cut : Option (Bytes × Bytes)) (effect : Bytes → Option RefState) (acc : RefState) (tr : Trace)
    (out : Except ParseError Unit × BodyReader × ParseState σ) : Prop :=
  match cut with
  | none => IsValueError out.1
  | some (value, rest) =>
    match effect value with
    | none => IsValueError out.1
    | some acc' => out.1 = .ok () ∧ out.2.1.rest = rest ∧ Agrees acc' out.2.2 ∧ Grows acc tr acc'

theorem FieldOutcome.error {cut : Option (Bytes × Bytes)} {effect : Bytes → Option RefState} {acc : RefState}
    {tr : Trace} {e : ParseError} {br : BodyReader} {st : ParseState σ}
    (h : FieldOutcome cut effect acc tr (.error e, br, st)) :
    (∃ msg, e = .valueError msg) ∧ (cut = none ∨ ∃ v, cut = some v ∧ effect v.1 = none) := by
  unfold FieldOutcome at h
  rcases cut with _ | ⟨value, rest⟩
  · obtain ⟨msg, hmsg⟩ := h
    exact ⟨⟨msg, Except.error.inj hmsg⟩, Or.inl rfl⟩
  dsimp only at h
  rcases heffect : effect value with _ | acc'
  · rw [heffect] at h
    obtain ⟨msg, hmsg⟩ := h
    exact ⟨⟨msg, Except.error.inj hmsg⟩, Or.inr ⟨_, rfl, heffect⟩⟩
  · rw [heffect] at h
    cases h.1

theorem FieldOutcome.ok {cut : Option (Bytes × Bytes)} {effect : Bytes → Option RefState} {acc : RefState}
    {tr : Trace} {br : BodyReader} {st : ParseState σ} (h : FieldOutcome cut effect acc tr (.ok (), br, st)) :
    ∃ value acc', cut = some (value, br.rest) ∧ effect value = some acc' ∧ Agrees acc' st ∧ Grows acc tr acc' := by
  unfold FieldOutcome at h
  rcases cut with _ | ⟨value, rest⟩
  · obtain ⟨msg, hmsg⟩ := h
    cases hmsg
  dsimp only at h
  rcases heffect : effect value with _ | acc'
  · rw [heffect] at h
    obtain ⟨msg, hmsg⟩ := h
    cases hmsg
  · rw [heffect] at h
    obtain ⟨-, rfl, hacc', hgrows⟩ := h
    exact ⟨value, acc', rfl, heffect, hacc', hgrows⟩

def noCalls : Trace := ⟨none, []⟩

theorem legal_noCalls (fhOpen : Bool) : noCalls.Legal fhOpen := ⟨nofun, fun h => absurd rfl h⟩

theorem grows_noCalls (acc : RefState) : Grows acc noCalls acc :=
  ⟨Option.or_none.symm, (List.append_nil _).symm⟩

theorem follows_noCalls (ops : FileOps σ) {ρ : Type} {s : σ} {out : Except ParseError ρ × σ} {Q : Prop}
    (hworld : out.2 = s) (h : Q) : Follows ops noCalls s out Q :=
  ⟨hworld, fun e he => by simp [noCalls, Trace.run, feed] at he, fun _ => h⟩

variable {boundary : Bytes} (ops : FileOps σ) (br : BodyReader) (st : ParseState σ)
  (acc : RefState)

theorem skipField_spec (hcr : 0x0D ∉ boundary) (hacc : Agrees acc st) :
    Follows ops noCalls st.world ((skipField (delimiter boundary) br st).1,
        (skipField (delimiter boundary) br st).2.2.world)
      (FieldOutcome (cutValue (delimiter boundary) br.rest) (fun _ => some acc) acc noCalls
        (skipField (delimiter boundary) br st)) := by
  obtain ⟨ps, hps⟩ := streamValue_spec hcr discardSink br ()
  rw [skipField, cutValue]
  rcases hout : streamValue (delimiter boundary) discardSink br () with ⟨res, br', t⟩
  rw [hout] at hps
  cases hps with
  | value j hline hflat hfeed hrest =>
    rw [discardSink_feed] at hfeed
    obtain rfl : res = .ok () := (Prod.mk.inj hfeed).1
    rw [hline]
    exact follows_noCalls ops rfl ⟨rfl, hrest rfl, hacc, grows_noCalls acc⟩
  | truncated hnone hflat hfeed =>
    rw [discardSink_feed] at hfeed
    obtain rfl : res = .error truncatedValue := (Prod.mk.inj hfeed).1
    rw [hnone]
    exact follows_noCalls ops rfl ⟨_, rfl⟩

theorem readPath_spec (hcr : 0x0D ∉ boundary) (hacc : Agrees acc st) :
    Follows ops noCalls st.world ((readPath (delimiter boundary) br st).1,
        (readPath (delimiter boundary) br st).2.2.world)
      (FieldOutcome (cutValue (delimiter boundary) br.rest) (refPath acc) acc noCalls
        (readPath (delimiter boundary) br st)) := by
  obtain ⟨ps, hps⟩ := streamValue_spec hcr (CapSink.call 4096) br ⟨[], 0⟩
  obtain ⟨hok, hover⟩ := capSink_feed ps ⟨[], 0⟩ 4096 rfl
  simp only [Nat.zero_add, List.nil_append] at hok hover
  rw [readPath, cutValue]
  rcases hout : streamValue (delimiter boundary) (CapSink.call 4096) br ⟨[], 0⟩ with ⟨res, br', sink⟩
  rw [hout] at hps
  cases hps with
  | value j hline hflat hfeed hrest =>
    rw [hline, Option.map_some, FieldOutcome, ← hflat]
    dsimp only
    rw [refPath]
    by_cases hcap : ps.flatten.length ≤ 4096
    · rw [hok hcap] at hfeed
      obtain ⟨rfl, rfl⟩ := Prod.mk.inj hfeed
      rw [if_pos hcap]
      refine follows_noCalls ops rfl ⟨rfl, hrest rfl, ⟨?_, hacc.2⟩, grows_noCalls acc⟩
      rw [hacc.1]
      rfl
    · have herr := congrArg Prod.fst hfeed
      rw [hover (by omega) (Nat.zero_le _)] at herr
      obtain rfl : res = .error (.valueError "field value too large") := herr
      rw [if_neg hcap]
      exact follows_noCalls ops rfl ⟨_, rfl⟩
  | truncated hnone hflat hfeed =>
    have herr : IsValueError res := by
      by_cases hcap : ps.flatten.length ≤ 4096
      · rw [hok hcap] at hfeed
        exact ⟨_, congrArg Prod.fst hfeed⟩
      · have hfirst := hover (by omega) (Nat.zero_le _)
        rcases hfeed' : feed (CapSink.call 4096) ps ⟨[], 0⟩ with ⟨e | ⟨⟩, sink'⟩
        · rw [hfeed'] at hfeed hfirst
          exact ⟨_, (congrArg Prod.fst hfeed).trans hfirst⟩
        · rw [hfeed'] at hfirst
          cases hfirst
    obtain ⟨msg, rfl⟩ := herr
    rw [hnone]
    exact follows_noCalls ops rfl ⟨_, rfl⟩

/-- What streaming a file comes to, given where the reference cuts its value and the pieces handed over. -/
def FileOutcome (cut : Option (Bytes × Bytes)) (result : MultipartResult) (ps : List Bytes)
    (out : Except ParseError Unit × BodyReader × ParseState σ) : Prop :=
  match cut with
  | none => IsValueError out.1
  | some (value, rest) => ps.flatten = value ∧ out.1 = .ok () ∧ out.2.1.rest = rest ∧
      out.2.2.result = { result with size := value.length, fileSeen := true } ∧ out.2.2.fhOpen = true

variable {acc} in
theorem FileOutcome.field {cut : Option (Bytes × Bytes)} {result : MultipartResult} {tr : Trace} {headers : Str}
    {out : Except ParseError Unit × BodyReader × ParseState σ} (h : FileOutcome cut result tr.pieces out)
    (hresult : { acc.result with filename := (searchFilename headers).or acc.result.filename } = result)
    (hopened : acc.opened.or (some acc.result.path) = acc.opened.or tr.opened) :
    FieldOutcome cut (fun value => some (refFile headers acc value)) acc tr out := by
  unfold FileOutcome at h
  unfold FieldOutcome
  rcases cut with _ | ⟨value, rest⟩
  · exact h
  · obtain ⟨hflat, hout, hrest, hres, hopen⟩ := h
    refine ⟨hout, hrest, ⟨?_, ?_⟩, hopened, ?_⟩
    · rw [hres, ← hresult]
      rfl
    · rw [hopen, refFile, Option.isSome_or, Option.isSome_some, Bool.or_true]
    · rw [refFile, hflat]

theorem streamFile_spec (result : MultipartResult) (w : σ) (hcr : 0x0D ∉ boundary) :
    ∃ ps, (streamFile ops (delimiter boundary) br result w).2.2.world = (feed ops.write ps w).2 ∧
      (∀ e, (feed ops.write ps w).1 = .error e →
        (streamFile ops (delimiter boundary) br result w).1 = .error e) ∧
      ((feed ops.write ps w).1 = .ok () →
        FileOutcome (cutValue (delimiter boundary) br.rest) result ps
          (streamFile ops (delimiter boundary) br result w)) := by
  obtain ⟨ps, hps⟩ := streamValue_spec hcr ops.sink br (0, w)
  obtain ⟨hres, hworld, hcount⟩ := fileSink_feed ops ps 0 w
  rw [Nat.zero_add] at hcount
  refine ⟨ps, ?_⟩
  rw [cutValue, streamFile]
  rcases hout : streamValue (delimiter boundary) ops.sink br (0, w) with ⟨res, br', n, w'⟩
  rw [hout] at hps
  cases hps with
  | value j hline hflat hfeed hrest =>
    dsimp only at hfeed hrest
    rw [← hfeed] at hres hworld hcount
    dsimp only at hres hworld hcount
    rw [hline, Option.map_some, ← hres, ← hworld]
    rw [← hres] at hcount
    rcases res with e | ⟨⟩
    · exact ⟨rfl, fun e' he => he, fun h => by cases h⟩
    · refine ⟨rfl, ?_, fun hok => ⟨hflat, rfl, hrest rfl, ?_, rfl⟩⟩
      · intro e' he
        cases he
      · dsimp only
        rw [hcount rfl, hflat]
  | truncated hnone hflat hfeed =>
    dsimp only at hfeed
    rw [hnone, Option.map_none]
    rcases hrun : feed ops.sink ps (0, w) with ⟨e | ⟨⟩, n', w''⟩
    all_goals
      rw [hrun] at hfeed hres hworld
      obtain ⟨rfl, hstate⟩ := Prod.mk.inj hfeed
      rw [← hres, ← hworld]
    · exact ⟨congrArg Prod.snd hstate, fun e' he => he, fun h => by cases h⟩
    · refine ⟨congrArg Prod.snd hstate, ?_, fun _ => ⟨_, rfl⟩⟩
      intro e' he
      cases he

theorem readFile_spec (headers : Str) (hcr : 0x0D ∉ boundary) (hacc : Agrees acc st) :
    ∃ tr : Trace, tr.Legal st.fhOpen ∧
      Follows ops tr st.world ((readFile ops (delimiter boundary) headers br st).1,
          (readFile ops (delimiter boundary) headers br st).2.2.world)
        (FieldOutcome (cutValue (delimiter boundary) br.rest) (fun value => some (refFile headers acc value)) acc tr
          (readFile ops (delimiter boundary) headers br st)) := by
  obtain ⟨hresult, hopened⟩ := hacc
  set result : MultipartResult :=
    { st.result with filename := (searchFilename headers).or st.result.filename } with hdef
  have hresult' : { acc.result with filename := (searchFilename headers).or acc.result.filename } = result := by
    rw [hdef, hresult]
  rw [readFile]
  by_cases hfh : st.fhOpen = true
  · -- a later `file` field: more writes
    obtain ⟨ps, hworld, herr, hok⟩ := streamFile_spec ops br result st.world hcr
    refine ⟨⟨none, ps⟩, ⟨nofun, fun _ => by rw [hfh]; rfl⟩, ?_⟩
    simp only [hfh, if_true, ← hdef]
    refine ⟨hworld, herr, fun hrun => (hok hrun).field hresult' ?_⟩
    obtain ⟨path, hpath⟩ := Option.isSome_iff_exists.mp (hopened.trans hfh)
    rw [hpath]
    rfl
  · -- the first `file` field: `open_file`, then writes
    rw [Bool.not_eq_true] at hfh
    simp only [hfh, Bool.false_eq_true, if_false, ← hdef]
    rcases hopen : ops.openFile result.path st.world with ⟨e | ⟨⟩, w⟩
    · refine ⟨⟨some result.path, []⟩, ⟨fun _ => rfl, fun _ => rfl⟩, ?_⟩
      simp only [Follows, Trace.run, hopen]
      refine ⟨trivial, fun e' he => he, ?_⟩
      intro he
      cases he
    · obtain ⟨ps, hworld, herr, hok⟩ := streamFile_spec ops br result w hcr
      refine ⟨⟨some result.path, ps⟩, ⟨fun _ => rfl, fun _ => rfl⟩, ?_⟩
      simp only [Follows, Trace.run, hopen]
      refine ⟨hworld, herr, fun hrun => (hok hrun).field hresult' ?_⟩
      rw [hresult]

theorem readField_spec (alnum : Char → Bool) (block : Bytes) (hcr : 0x0D ∉ boundary) (hacc : Agrees acc st) :
    ∃ tr : Trace, tr.Legal st.fhOpen ∧
      Follows ops tr st.world ((readField alnum ops (delimiter boundary) (decodeUtf8 block) br st).1,
          (readField alnum ops (delimiter boundary) (decodeUtf8 block) br st).2.2.world)
        (FieldOutcome (cutValue (delimiter boundary) br.rest) (fun value => refField alnum acc ⟨block, value⟩) acc tr
          (readField alnum ops (delimiter boundary) (decodeUtf8 block) br st)) := by
  simp only [readField, refField]
  split_ifs with hpath hfile
  · exact ⟨noCalls, legal_noCalls _, readPath_spec ops br st acc hcr hacc⟩
  · exact readFile_spec ops br st acc (decodeUtf8 block) hcr hacc
  · exact ⟨noCalls, legal_noCalls _, skipField_spec ops br st acc hcr hacc⟩

/-! ### The loop over the parts -/

/-- What the reference makes of the parts behind a delimiter. -/
def refRun (alnum : Char → Bool) (delim : Bytes) (fuel : Nat) (rest : Bytes) (acc : RefState) : Option RefState :=
  (refFields delim fuel rest).bind (·.foldlM (refField alnum) acc)

theorem refRun_field {alnum : Char → Bool} {delim rest : Bytes} {fuel : Nat} (acc : RefState)
    (hdashes : ¬ dashes <+: rest) (hcrlf : crlf <+: rest) :
    refRun alnum delim (fuel + 1) rest acc =
      (cutHeaders (rest.drop 2)).bind fun h => (cutValue delim h.2).bind fun v =>
        (refField alnum acc ⟨h.1, v.1⟩).bind fun acc => refRun alnum delim fuel v.2 acc := by
  rw [refRun, refFields, if_neg hdashes, if_pos hcrlf]
  rcases cutHeaders (rest.drop 2) with _ | ⟨block, rest⟩
  · rfl
  rcases hvalue : cutValue delim rest with _ | ⟨value, rest⟩
  · simp [hvalue]
  simp only [hvalue, Option.bind_some, Option.bind_eq_bind, refRun]
  rcases refFields delim fuel rest with _ | fields
  · cases refField alnum acc ⟨block, value⟩ <;> rfl
  · rfl

/-- A header block may be over the limit of `read_headers`, whose buffer may hold three bytes of the blank line. -/
def Oversized (blocks : List Bytes) : Prop := ∃ block ∈ blocks, 16381 < block.length

theorem Oversized.mono {blocks blocks' : List Bytes} (h : Oversized blocks) (hsub : blocks ⊆ blocks') :
    Oversized blocks' := by
  obtain ⟨block, hblock, hlen⟩ := h
  exact ⟨block, hsub hblock, hlen⟩

/-- What the loop comes to, given what the reference makes of the rest of the body and its header blocks. -/
def LoopOutcome (final : Option RefState) (blocks : List Bytes) (acc : RefState) (tr : Trace)
    (out : Except ParseError Unit × BodyReader × ParseState σ) : Prop :=
  match final with
  | none => IsValueError out.1
  | some acc' => out.1 = .ok () ∧ acc'.result = out.2.2.result ∧ Grows acc tr acc' ∨
      IsValueError out.1 ∧ Oversized blocks

theorem Grows.andThen {acc acc₁ acc₂ : RefState} {tr₁ tr₂ : Trace} (h₁ : Grows acc tr₁ acc₁)
    (h₂ : Grows acc₁ tr₂ acc₂) : Grows acc (tr₁.andThen tr₂) acc₂ := by
  obtain ⟨hopened₁, hwritten₁⟩ := h₁
  obtain ⟨hopened₂, hwritten₂⟩ := h₂
  refine ⟨?_, ?_⟩
  · rw [hopened₂, hopened₁, Option.or_assoc, Trace.andThen]
  · rw [hwritten₂, hwritten₁, List.append_assoc, Trace.andThen, List.flatten_append]

theorem LoopOutcome.after {final : Option RefState} {blocks blocks' : List Bytes} {acc acc' : RefState} {tr tr' : Trace}
    {out : Except ParseError Unit × BodyReader × ParseState σ} (h : LoopOutcome final blocks acc' tr' out)
    (hgrows : Grows acc tr acc') (hsub : blocks ⊆ blocks') : LoopOutcome final blocks' acc (tr.andThen tr') out := by
  unfold LoopOutcome at h ⊢
  rcases final with _ | final
  · exact h
  rcases h with ⟨hout, hresult, hgrows'⟩ | ⟨herror, hover⟩
  · exact Or.inl ⟨hout, hresult, hgrows.andThen hgrows'⟩
  · exact Or.inr ⟨herror, hover.mono hsub⟩

/-- The loop of `fuel` rounds agrees with the reference from any point of the body. -/
def PartLoopSpec (alnum : Char → Bool) (ops : FileOps σ) (boundary : Bytes) (fuel : Nat) : Prop :=
  ∀ (rounds : Nat) (br : BodyReader) (st : ParseState σ) (acc : RefState),
    br.rest.length < fuel → br.rest.length < rounds → Agrees acc st →
    ∃ tr : Trace, tr.Legal st.fhOpen ∧
      Follows ops tr st.world ((partLoop alnum ops (delimiter boundary) fuel br st).1,
          (partLoop alnum ops (delimiter boundary) fuel br st).2.2.world)
        (LoopOutcome (refRun alnum (delimiter boundary) rounds br.rest acc)
          (headerBlocksLoop (delimiter boundary) rounds br.rest) acc tr
          (partLoop alnum ops (delimiter boundary) fuel br st))

theorem partLoop_field {alnum : Char → Bool} {fuel rounds : Nat} {blocks : List Bytes} (hcr : 0x0D ∉ boundary)
    (hacc : Agrees acc st) (ih : PartLoopSpec alnum ops boundary fuel) (block : Bytes)
    (hfuel : br.rest.length < fuel) (hrounds : br.rest.length < rounds)
    (hblocks : ∀ value rest, cutValue (delimiter boundary) br.rest = some (value, rest) →
      headerBlocksLoop (delimiter boundary) rounds rest ⊆ blocks) :
    let out := match readField alnum ops (delimiter boundary) (decodeUtf8 block) br st with
      | (.ok (), br, st) => partLoop alnum ops (delimiter boundary) fuel br st
      | (.error e, br, st) => (.error e, br, st)
    ∃ tr : Trace, tr.Legal st.fhOpen ∧
      Follows ops tr st.world (out.1, out.2.2.world)
        (LoopOutcome ((cutValue (delimiter boundary) br.rest).bind fun v =>
          (refField alnum acc ⟨block, v.1⟩).bind fun acc => refRun alnum (delimiter boundary) rounds v.2 acc)
          blocks acc tr out) := by
  obtain ⟨tr, hlegal, hworld, herr, hok⟩ :=
    readField_spec ops br st acc alnum block hcr hacc
  rcases hout : readField alnum ops (delimiter boundary) (decodeUtf8 block) br st with ⟨e | ⟨⟩, br', st'⟩
  · -- the field is refused: the loop stops with the same error
    rw [hout] at hworld herr hok
    refine ⟨tr, hlegal, hworld, herr, fun hrun => ?_⟩
    obtain ⟨⟨msg, rfl⟩, hcut | ⟨v, hcut, heffect⟩⟩ := (hok hrun).error
    · rw [hcut]
      exact ⟨msg, rfl⟩
    · rw [hcut, Option.bind_some, heffect]
      exact ⟨msg, rfl⟩
  · rw [hout] at hworld herr hok
    dsimp only at hworld herr hok
    rcases hrun : tr.run ops st.world with ⟨e | ⟨⟩, w⟩
    · cases herr e (by rw [hrun])
    rw [hrun] at hworld hok
    obtain rfl : st'.world = w := hworld
    obtain ⟨value, acc', hcut, heffect, hacc', hgrows⟩ := (hok rfl).ok
    have hlen := cutValue_length hcut
    obtain ⟨tr', hlegal', hworld', herr', hok'⟩ := ih rounds br' st' acc' (by omega) (by omega) hacc'
    have hopen : st'.fhOpen = (st.fhOpen || tr.opened.isSome) := by
      rw [← hacc'.2, ← hacc.2, hgrows.1, Option.isSome_or]
    rw [hopen] at hlegal'
    have hthen := Trace.run_andThen ops hlegal hlegal' st.world
    rw [hrun] at hthen
    dsimp only at hthen
    rw [← hthen] at hworld' herr' hok'
    refine ⟨tr.andThen tr', hlegal.andThen hlegal', hworld', herr', fun h => ?_⟩
    rw [hcut, Option.bind_some, heffect, Option.bind_some]
    exact (hok' h).after hgrows (hblocks value br'.rest hcut)

theorem exists_noCalls {ρ : Type} {Q : Trace → Prop} {out : Except ParseError ρ × σ} {fhOpen : Bool} {w : σ}
    (hworld : out.2 = w) (h : Q noCalls) : ∃ tr : Trace, tr.Legal fhOpen ∧ Follows ops tr w out (Q tr) :=
  ⟨noCalls, legal_noCalls _, follows_noCalls ops hworld h⟩

theorem partLoop_spec (alnum : Char → Bool) (hcr : 0x0D ∉ boundary) (fuel : Nat) :
    PartLoopSpec alnum ops boundary fuel := by
  induction fuel with
  | zero => exact fun _ _ _ _ hfuel => absurd hfuel (Nat.not_lt_zero _)
  | succ fuel ih =>
    intro rounds br st acc hfuel hrounds hacc
    obtain ⟨rounds, rfl⟩ : ∃ n, rounds = n + 1 := ⟨rounds - 1, by omega⟩
    have hdashes := prefix_fill (n := 2) (p := dashes) br le_rfl
    have hcrlf := prefix_fill (n := 2) (p := crlf) br le_rfl
    have hshort := fill_buf_of_lt 2 br
    rw [partLoop]
    set br₁ := fill 2 br
    by_cases hd : dashes <+: br₁.buf
    · -- the end of the body
      have hne : br₁.buf ≠ [] := fun h => by simp [h, dashes] at hd
      rw [if_neg hne, if_pos hd, refRun, refFields, if_pos (hdashes.mp hd)]
      exact exists_noCalls ops rfl (Or.inl ⟨rfl, hacc.1, grows_noCalls acc⟩)
    by_cases hc : crlf <+: br₁.buf
    · -- one more part
      have hne : br₁.buf ≠ [] := fun h => by simp [h, crlf] at hc
      have htake : (br₁.take 2).2.rest = br.rest.drop 2 := rest_take_prefix br hc le_rfl
      rw [if_neg hne, if_neg hd, if_neg (not_not.mpr hc), refRun_field acc (mt hdashes.mpr hd) (hcrlf.mp hc)]
      rw [headerBlocksLoop, if_neg (mt hdashes.mpr hd), if_pos (hcrlf.mp hc)]
      rcases hfind : find (crlf ++ crlf) (br.rest.drop 2) with _ | i
      · obtain ⟨msg, br₂, hread⟩ := readHeaders_of_not_find (n := 16384) (htake ▸ hfind)
        rw [hread, cutHeaders, hfind]
        exact exists_noCalls ops rfl ⟨msg, rfl⟩
      have hcut : cutHeaders (br.rest.drop 2) = some ((br.rest.drop 2).take i, (br.rest.drop 2).drop (i + 4)) := by
        rw [cutHeaders, hfind, Option.map_some]
      have hin : i + 4 ≤ (br.rest.drop 2).length :=
        le_of_prefix_drop (by decide) ((find_eq_some_iff _ _ _).mp hfind).2.1
      have hblock : ((br.rest.drop 2).take i).length = i := by rw [List.length_take, min_eq_left (by omega)]
      rw [hcut]
      dsimp only [Option.bind_some]
      set block := (br.rest.drop 2).take i
      set behind := (br.rest.drop 2).drop (i + 4)
      rcases readHeaders_of_find 16384 (htake ▸ hfind) with ⟨br₂, hread, hrest₂⟩ | ⟨hlimit, msg, br₂, hread⟩
      · rw [htake] at hread hrest₂
        have hdrop : (br.rest.drop 2).length = br.rest.length - 2 := List.length_drop
        have hbehind : br₂.rest.length + 6 ≤ br.rest.length := by
          have hle := (hcrlf.mp hc).length_le
          have hlen := cutHeaders_length hcut
          rw [show crlf.length = 2 from rfl] at hle
          rw [show br₂.rest.length = behind.length from congrArg List.length hrest₂]
          omega
        rw [hread, show behind = br₂.rest from hrest₂.symm]
        apply partLoop_field ops br₂ st acc hcr hacc ih block (by omega) (by omega)
        intro value rest hvalue b hb
        rw [hvalue]
        exact List.mem_cons_of_mem _ hb
      · -- the block is refused, and over the limit
        rw [hread]
        refine exists_noCalls ops rfl ?_
        unfold LoopOutcome
        rcases ((cutValue (delimiter boundary) behind).bind fun v =>
          (refField alnum acc ⟨block, v.1⟩).bind fun acc => refRun alnum (delimiter boundary) rounds v.2 acc) with _ | r
        · exact ⟨msg, rfl⟩
        · exact Or.inr ⟨⟨msg, rfl⟩, block, List.mem_cons_self, by omega⟩
    · -- neither: malformed, or nothing left
      have hnone : refRun alnum (delimiter boundary) (rounds + 1) br.rest acc = none := by
        rw [refRun, refFields, if_neg (mt hdashes.mpr hd), if_neg (mt hcrlf.mpr hc)]
        rfl
      rw [if_neg hd, if_pos hc, hnone]
      split_ifs
      · exact exists_noCalls ops rfl ⟨_, rfl⟩
      · exact exists_noCalls ops rfl ⟨_, rfl⟩

/-! ### The parser -/

/-- What the parser comes to, given what the reference makes of the body and its header blocks. -/
def ParseOutcome (final : Option RefState) (blocks : List Bytes) (tr : Trace)
    (out : Except ParseError MultipartResult) : Prop :=
  match final with
  | none => ∃ msg, out = .error (.valueError msg)
  | some r => out = .ok r.result ∧ r.opened = tr.opened ∧ r.written = tr.pieces.flatten ∨
      (∃ msg, out = .error (.valueError msg)) ∧ Oversized blocks

theorem LoopOutcome.parsed {final : Option RefState} {blocks : List Bytes} {tr : Trace}
    {res : Except ParseError Unit} {br : BodyReader} {st : ParseState σ}
    (h : LoopOutcome final blocks RefState.init tr (res, br, st)) :
    ParseOutcome final blocks tr (res.map fun _ => st.result) := by
  have herror : IsValueError res → ∃ msg, res.map (fun _ => st.result) = .error (.valueError msg) := by
    rintro ⟨msg, rfl⟩
    exact ⟨msg, rfl⟩
  unfold LoopOutcome at h
  unfold ParseOutcome
  rcases final with _ | r
  · exact herror h
  · rcases h with ⟨hres, hresult, hopened, hwritten⟩ | ⟨hvalue, hover⟩
    · dsimp only at hres hresult
      exact Or.inl ⟨by rw [hres, hresult]; rfl, hopened, hwritten⟩
    · exact Or.inr ⟨herror hvalue, hover⟩

/-- **The calls of the parser.** Unless one of them raises, the parser agrees with the reference. -/
theorem parseMultipartStream_trace (alnum : Char → Bool) (rfile : RFile) (length : Nat) (w : σ)
    (hcr : 0x0D ∉ boundary) :
    ∃ tr : Trace, tr.Legal false ∧
      Follows ops tr w ((parseMultipartStream alnum rfile length boundary ops w).1,
          (parseMultipartStream alnum rfile length boundary ops w).2.2)
        (ParseOutcome (refParse alnum boundary (rfile.data.take length))
          (headerBlocks boundary (rfile.data.take length)) tr
          (parseMultipartStream alnum rfile length boundary ops w).1) := by
  set body := rfile.data.take length
  have hopening := prefix_fill (n := boundary.length + 4) (p := dashes ++ boundary)
    (BodyReader.init rfile length) (by simp [dashes])
  have hrest := fill_rest (boundary.length + 4) (BodyReader.init rfile length)
  rw [show (BodyReader.init rfile length).rest = body from rfl] at hopening hrest
  rw [parseMultipartStream]
  set br := fill (boundary.length + 4) (BodyReader.init rfile length)
  by_cases hopen : dashes ++ boundary <+: br.buf
  · have hlen : boundary.length + 2 ≤ (dashes ++ boundary).length := by simp [dashes]
    have htake : (br.take (boundary.length + 2)).2.rest = body.drop (boundary.length + 2) :=
      rest_take_prefix (BodyReader.init rfile length) hopen hlen
    have hbound : br.rest.length ≤ br.buf.length + br.remaining := by
      rw [BodyReader.rest, List.length_append, BodyReader.unread]
      exact Nat.add_le_add_left (List.length_take_le _ _) _
    have hshorter : (br.take (boundary.length + 2)).2.rest.length ≤ body.length := by
      rw [htake, List.length_drop]
      exact Nat.sub_le _ _
    rw [hrest] at hbound
    obtain ⟨tr, hlegal, hfollows⟩ := partLoop_spec ops alnum hcr (br.buf.length + br.remaining + 1)
      (body.length + 1) (br.take (boundary.length + 2)).2 (ParseState.init w) RefState.init (by omega) (by omega)
      ⟨rfl, rfl⟩
    refine ⟨tr, hlegal, ?_⟩
    have hparse : refParse alnum boundary body =
        refRun alnum (delimiter boundary) (body.length + 1) (br.take (boundary.length + 2)).2.rest RefState.init := by
      rw [refParse, refBody, if_pos (hopening.mp hopen), htake, refRun]
    rw [if_neg (not_not.mpr hopen), hparse, headerBlocks, if_pos (hopening.mp hopen), ← htake]
    rcases hloop : partLoop alnum ops (delimiter boundary) (br.buf.length + br.remaining + 1)
      (br.take (boundary.length + 2)).2 (ParseState.init w) with ⟨e | ⟨⟩, br', st'⟩
    all_goals
      rw [hloop] at hfollows
      obtain ⟨hworld, herr, hok⟩ := hfollows
      refine ⟨hworld, fun e' he => ?_, fun hrun => (hok hrun).parsed⟩
    · cases herr e' he
      rfl
    · cases herr e' he
  · have hnone : refParse alnum boundary body = none := by
      rw [refParse, refBody, if_neg (mt hopening.mpr hopen)]
      rfl
    rw [if_pos hopen, hnone]
    exact exists_noCalls ops rfl ⟨_, rfl⟩

theorem parse_recorder (alnum : Char → Bool) (rfile : RFile) (length : Nat) (hcr : 0x0D ∉ boundary) :
    ∃ tr : Trace, (parseMultipartStream alnum rfile length boundary recorder ⟨[], []⟩).2.2 =
        ⟨tr.opened.toList, tr.pieces.flatten⟩ ∧
      ParseOutcome (refParse alnum boundary (rfile.data.take length)) (headerBlocks boundary (rfile.data.take length)) tr
        (parseMultipartStream alnum rfile length boundary recorder ⟨[], []⟩).1 := by
  obtain ⟨tr, -, hworld, -, hok⟩ := parseMultipartStream_trace recorder alnum rfile length ⟨[], []⟩ hcr
  rw [tr.run_recorder] at hworld hok
  exact ⟨tr, hworld, hok rfl⟩

/-- **The parser refines the reference**: it raises `ValueError` on exactly the bodies the reference refuses, and
otherwise returns what the reference returns and hands over the bytes the reference hands over, whatever the cuts
of the stream. -/
theorem parseMultipartStream_refines (alnum : Char → Bool) (rfile : RFile) (length : Nat) (boundary : Bytes)
    (hcr : 0x0D ∉ boundary)
    (hblocks : ∀ block ∈ headerBlocks boundary (rfile.data.take length), block.length ≤ 16381) :
    let out := parseMultipartStream alnum rfile length boundary recorder ⟨[], []⟩
    match refParse alnum boundary (rfile.data.take length) with
    | none => ∃ msg, out.1 = .error (.valueError msg)
    | some r => out.1 = .ok r.result ∧ out.2.2 = ⟨r.opened.toList, r.written⟩ := by
  obtain ⟨tr, hworld, hout⟩ := parse_recorder alnum rfile length hcr
  unfold ParseOutcome at hout
  rcases href : refParse alnum boundary (rfile.data.take length) with _ | r
  · rw [href] at hout
    exact hout
  · rw [href] at hout
    rcases hout with ⟨hres, hopened, hwritten⟩ | ⟨-, block, hblock, hlen⟩
    · exact ⟨hres, by rw [hworld, hopened, hwritten]⟩
    · exact absurd (hblocks block hblock) (by omega)

/-- A body with one `file` field, whose value `h\r\n--Bi` looks like a delimiter line up to its last byte. -/
def oneFileBody : Bytes :=
  [0x2D, 0x2D, 0x42, 0x0D, 0x0A, 0x6E, 0x61, 0x6D, 0x65, 0x3D, 0x22, 0x66, 0x69, 0x6C, 0x65, 0x22, 0x0D, 0x0A,
    0x0D, 0x0A, 0x68, 0x0D, 0x0A, 0x2D, 0x2D, 0x42, 0x69, 0x0D, 0x0A, 0x2D, 0x2D, 0x42, 0x2D, 0x2D]

/-- The stream of that body arrives in pieces of 9, 1, 13, 3 and 1 bytes and a rest. -/
theorem parseMultipartStream_refines_oneFile :
    let out := parseMultipartStream (fun _ => false) ⟨oneFileBody, [9, 1, 13, 3, 1]⟩ 34 [0x42] recorder ⟨[], []⟩
    out.1 = .ok ⟨none, 7, none, true⟩ ∧ out.2.2 = ⟨[none], [0x68, 0x0D, 0x0A, 0x2D, 0x2D, 0x42, 0x69]⟩ := by
  have h := parseMultipartStream_refines (fun _ => false) ⟨oneFileBody, [9, 1, 13, 3, 1]⟩ 34 [0x42] (by decide)
    (by decide)
  rw [show refParse (fun _ => false) [0x42] (oneFileBody.take 34) =
    some ⟨⟨none, 7, none, true⟩, some none, [0x68, 0x0D, 0x0A, 0x2D, 0x2D, 0x42, 0x69]⟩ by decide +kernel] at h
  exact h

end SocketServer.Http
