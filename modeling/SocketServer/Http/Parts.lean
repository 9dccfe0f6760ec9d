import SocketServer.Http.Reference

/-!
# The parts of a body, and what is made of them

Where the parser cuts a body depends on the stream alone: no sink and no file object has a part in it. So the parser
is two programs, one after the other. `readParts` reads the header blocks and the pieces of the values; `receiveParts`
hands the pieces to the sinks and calls `open_file`, up to the first call that raises.

`parseMultipartStream_eq` says so for every boundary, file object and stream, `readParts_fields` that the parts are the
fields of the body, and `readParts_total` that the loops have rounds enough. Results about what the parser does with its
fields need no more than `receiveParts`.
-/

namespace SocketServer.Http

open Search Text

variable {σ τ : Type}

/-! ### Reading -/

/-- A part as it is read: the header block, the pieces of the value, and how reading the value ends. -/
structure Part where
  block : Bytes
  pieces : List Bytes
  ending : Except ParseError Unit
  deriving DecidableEq

namespace Part

def name (alnum : Char → Bool) (part : Part) : Str := fieldName alnum (decodeUtf8 part.block)

def value (part : Part) : Bytes := part.pieces.flatten

end Part

/-- A sink that keeps the pieces. -/
def collect : Sink (List Bytes) := fun b ps => (.ok (), ps ++ [b])

/-- Read the value behind a header block. -/
def readPart (delim block : Bytes) (br : BodyReader) : Part × BodyReader :=
  let out := streamValue delim collect br []
  (⟨block, out.2.2, out.1⟩, out.2.1)

/-- The parts behind a delimiter, and how reading them ends. A value that is not whole is the last. -/
def readPartsLoop (delim : Bytes) : Nat → BodyReader → List Part × Except ParseError Unit
  | 0, _ => ([], .error .outOfFuel)
  | fuel + 1, br =>
    let br := fill 2 br
    if br.buf = [] then ([], .error (.valueError "multipart body truncated(boundary)"))
    else if dashes <+: br.buf then ([], .ok ())
    else if ¬ crlf <+: br.buf then ([], .error (.valueError "multipart body malformed"))
    else
      match readHeaders (br.take 2).2 16384 with
      | (.error e, _) => ([], .error e)
      | (.ok block, br) =>
        match readPart delim block br with
        | (⟨block, pieces, .ok ()⟩, br) =>
          let (parts, ending) := readPartsLoop delim fuel br
          (⟨block, pieces, .ok ()⟩ :: parts, ending)
        | (⟨block, pieces, .error e⟩, _) => ([⟨block, pieces, .error e⟩], .error e)

/-- The parts of a body, and how reading it ends. -/
def readParts (rfile : RFile) (length : Nat) (boundary : Bytes) : List Part × Except ParseError Unit :=
  let br := fill (boundary.length + 4) (BodyReader.init rfile length)
  if ¬ dashes ++ boundary <+: br.buf then ([], .error (.valueError "multipart body malformed"))
  else readPartsLoop (delimiter boundary) (br.buf.length + br.remaining + 1) (br.take (boundary.length + 2)).2

/-! ### Receiving -/

/-- Hand the value to a sink. -/
def Part.deliver (part : Part) (sink : Sink τ) (t : τ) : Except ParseError Unit × τ :=
  match feed sink part.pieces t with
  | (.ok (), t) => (part.ending, t)
  | (.error e, t) => (.error e, t)

def receivePath (part : Part) (st : ParseState σ) : Except ParseError Unit × ParseState σ :=
  match part.deliver (CapSink.call 4096) ⟨[], 0⟩ with
  | (.ok (), sink) => (.ok (), { st with result := { st.result with path := some sink.value } })
  | (.error e, _) => (.error e, st)

/-- The value goes to the open file object. -/
def receiveContent (ops : FileOps σ) (part : Part) (result : MultipartResult) (world : σ) :
    Except ParseError Unit × ParseState σ :=
  match part.deliver ops.sink (0, world) with
  | (.ok (), n, world) => (.ok (), ⟨{ result with size := n, fileSeen := true }, true, world⟩)
  | (.error e, _, world) => (.error e, ⟨result, true, world⟩)

def receiveFile (ops : FileOps σ) (part : Part) (st : ParseState σ) : Except ParseError Unit × ParseState σ :=
  let result := { st.result with filename := (searchFilename (decodeUtf8 part.block)).or st.result.filename }
  if st.fhOpen then receiveContent ops part result st.world
  else
    match ops.openFile result.path st.world with
    | (.ok (), world) => receiveContent ops part result world
    | (.error e, world) => (.error e, ⟨result, false, world⟩)

def receivePart (alnum : Char → Bool) (ops : FileOps σ) (part : Part) (st : ParseState σ) :
    Except ParseError Unit × ParseState σ :=
  if part.name alnum = ['p', 'a', 't', 'h'] then receivePath part st
  else if part.name alnum = ['f', 'i', 'l', 'e'] then receiveFile ops part st
  else (part.ending, st)

/-- Receive the parts in turn; `ending` is how reading them ends. -/
def receiveParts (alnum : Char → Bool) (ops : FileOps σ) :
    List Part → Except ParseError Unit → ParseState σ → Except ParseError Unit × ParseState σ
  | [], ending, st => (ending, st)
  | part :: parts, ending, st =>
    match receivePart alnum ops part st with
    | (.ok (), st) => receiveParts alnum ops parts ending st
    | (.error e, st) => (.error e, st)

/-! ### Values -/

/-- A loop that feeds some sink and the same loop collecting, from one reader. -/
def Delivers (sink : Sink τ) (t : τ) (kept : List Bytes) (collected : Except ParseError Unit × BodyReader × List Bytes)
    (out : Except ParseError Unit × BodyReader × τ) : Prop :=
  ∃ ps, collected.2.2 = kept ++ ps ∧
    match feed sink ps t with
    | (.ok (), t) => out = (collected.1, collected.2.1, t)
    | (.error e, t) => out.1 = .error e ∧ out.2.2 = t

theorem Delivers.nil (sink : Sink τ) (t : τ) (kept : List Bytes) (res : Except ParseError Unit) (br : BodyReader) :
    Delivers sink t kept (res, br, kept) (res, br, t) := ⟨[], (List.append_nil kept).symm, rfl⟩

theorem Delivers.cons {sink : Sink τ} {t : τ} {kept : List Bytes} (piece : Bytes) (br : BodyReader)
    {collected : Except ParseError Unit × BodyReader × List Bytes} {next : τ → Except ParseError Unit × BodyReader × τ}
    (h : ∀ t', sink piece t = (.ok (), t') → Delivers sink t' (kept ++ [piece]) collected (next t'))
    (hkept : ∃ ps, collected.2.2 = kept ++ [piece] ++ ps) :
    Delivers sink t kept collected
      (match sink piece t with
        | (.ok (), t) => next t
        | (.error e, t) => (.error e, br, t)) := by
  rcases hsink : sink piece t with ⟨e | ⟨⟩, t'⟩
  · obtain ⟨ps, hps⟩ := hkept
    refine ⟨piece :: ps, by rw [hps, List.append_assoc]; rfl, ?_⟩
    rw [feed, hsink]
    exact ⟨rfl, rfl⟩
  · obtain ⟨ps, hps, hout⟩ := h t' hsink
    refine ⟨piece :: ps, by rw [hps, List.append_assoc]; rfl, ?_⟩
    rw [feed, hsink]
    exact hout

theorem Delivers.readMore {delim : Bytes} {sink : Sink τ} {fuel : Nat}
    (ih : ∀ (br : BodyReader) (t : τ) (kept : List Bytes),
      Delivers sink t kept (streamValueLoop delim collect fuel br kept) (streamValueLoop delim sink fuel br t))
    (br br' : BodyReader) (t : τ) (kept : List Bytes) :
    Delivers sink t kept
      (if br'.buf.length = br.buf.length then (.error truncatedValue, br', kept)
        else streamValueLoop delim collect fuel br' kept)
      (if br'.buf.length = br.buf.length then (.error truncatedValue, br', t)
        else streamValueLoop delim sink fuel br' t) := by
  split_ifs
  · exact .nil sink t kept _ _
  · exact ih br' t kept

theorem streamValueLoop_delivers (delim : Bytes) (sink : Sink τ) (fuel : Nat) (br : BodyReader) (t : τ)
    (kept : List Bytes) :
    Delivers sink t kept (streamValueLoop delim collect fuel br kept) (streamValueLoop delim sink fuel br t) := by
  induction fuel generalizing br t kept with
  | zero => exact .nil sink t kept _ _
  | succ fuel ih =>
    rw [streamValueLoop, streamValueLoop]
    rcases scan delim br.buf with idx | idx | _
    · -- a delimiter line: the last piece
      refine .cons (br.buf.take idx) br (fun t' _ => ?_) ⟨[], (List.append_nil _).symm⟩
      exact .nil sink t' _ _ _
    · -- content that looks like a delimiter
      have hnext := ih { br with buf := br.buf.drop (idx + delim.length) }
      obtain ⟨ps, hps, -⟩ := hnext t (kept ++ [br.buf.take (idx + delim.length)])
      exact .cons (br.buf.take (idx + delim.length)) br (fun t' _ => hnext t' _) ⟨ps, hps⟩
    · dsimp only
      rw [flushTail, flushTail]
      by_cases hkeep : delim.length + 1 < br.buf.length
      · rw [if_pos hkeep, if_pos hkeep]
        set k := br.buf.length - (delim.length + 1)
        have hnext := fun t kept => Delivers.readMore ih { br with buf := br.buf.drop k }
          (fill ((br.buf.drop k).length + CHUNK) { br with buf := br.buf.drop k }) t kept
        obtain ⟨ps, hps, -⟩ := hnext t (kept ++ [br.buf.take k])
        have hdelivers := Delivers.cons (t := t) (br.buf.take k) br (fun t' _ => hnext t' _) ⟨ps, hps⟩
        rcases hsink : sink (br.buf.take k) t with ⟨e | ⟨⟩, t'⟩
        all_goals
          rw [hsink] at hdelivers
          exact hdelivers
      · rw [if_neg hkeep, if_neg hkeep]
        exact Delivers.readMore ih br _ t kept

/-- **`stream_value` cuts the value where no sink can say**: any sink is handed the collected pieces. -/
theorem streamValue_deliver (delim block : Bytes) (sink : Sink τ) (br : BodyReader) (t : τ) :
    ((streamValue delim sink br t).1, (streamValue delim sink br t).2.2) =
        (readPart delim block br).1.deliver sink t ∧
      ((streamValue delim sink br t).1 = .ok () →
        (readPart delim block br).1.ending = .ok () ∧ (streamValue delim sink br t).2.1 = (readPart delim block br).2) := by
  obtain ⟨ps, hps, hout⟩ := streamValueLoop_delivers delim sink (br.buf.length + 2 * br.remaining + 1) br t []
  rw [List.nil_append] at hps
  unfold readPart Part.deliver streamValue
  dsimp only
  rw [hps]
  rcases hfeed : feed sink ps t with ⟨e | ⟨⟩, t'⟩
  · rw [hfeed] at hout
    dsimp only at hout ⊢
    refine ⟨Prod.ext hout.1 hout.2, fun hok => ?_⟩
    rw [hout.1] at hok
    cases hok
  · rw [hfeed] at hout
    dsimp only at hout ⊢
    rw [hout]
    exact ⟨rfl, fun hok => ⟨hok, rfl⟩⟩

/-! ### The parser -/

/-- Two runs that return the same, and the same reader where they return at all. -/
def Returns (out : Except ParseError Unit × BodyReader × ParseState σ) (expected : Except ParseError Unit × ParseState σ)
    (br : BodyReader) : Prop :=
  (out.1, out.2.2) = expected ∧ (out.1 = .ok () → out.2.1 = br)

theorem readField_receive (alnum : Char → Bool) (ops : FileOps σ) (delim block : Bytes) (br : BodyReader)
    (st : ParseState σ) :
    Returns (readField alnum ops delim (decodeUtf8 block) br st)
      (receivePart alnum ops (readPart delim block br).1 st) (readPart delim block br).2 := by
  unfold readField receivePart
  rw [show (readPart delim block br).1.name alnum = fieldName alnum (decodeUtf8 block) from rfl]
  have hcontent : ∀ result world, Returns (streamFile ops delim br result world)
      (receiveContent ops (readPart delim block br).1 result world) (readPart delim block br).2 := by
    intro result world
    obtain ⟨hdeliver, hreader⟩ := streamValue_deliver delim block ops.sink br (0, world)
    unfold streamFile receiveContent
    rw [← hdeliver]
    rcases hout : streamValue delim ops.sink br (0, world) with ⟨e | ⟨⟩, br', n, world'⟩
    · exact ⟨rfl, nofun⟩
    · rw [hout] at hreader
      exact ⟨rfl, fun _ => (hreader rfl).2⟩
  split_ifs
  · obtain ⟨hdeliver, hreader⟩ := streamValue_deliver delim block (CapSink.call 4096) br ⟨[], 0⟩
    unfold readPath receivePath
    rw [← hdeliver]
    rcases hout : streamValue delim (CapSink.call 4096) br ⟨[], 0⟩ with ⟨e | ⟨⟩, br', sink⟩
    · exact ⟨rfl, nofun⟩
    · rw [hout] at hreader
      exact ⟨rfl, fun _ => (hreader rfl).2⟩
  · unfold readFile receiveFile
    rw [show (readPart delim block br).1.block = block from rfl]
    dsimp only
    split_ifs
    · exact hcontent _ _
    · rcases ops.openFile st.result.path st.world with ⟨e | ⟨⟩, world⟩
      · exact ⟨rfl, nofun⟩
      · exact hcontent _ _
  · obtain ⟨hdeliver, hreader⟩ := streamValue_deliver delim block discardSink br ()
    have hskip : (readPart delim block br).1.deliver discardSink () = ((readPart delim block br).1.ending, ()) := by
      rw [Part.deliver, discardSink_feed]
    unfold skipField
    rw [hskip] at hdeliver
    rw [← (Prod.mk.inj hdeliver).1]
    rcases hout : streamValue delim discardSink br () with ⟨e | ⟨⟩, br', t⟩
    · exact ⟨rfl, nofun⟩
    · rw [hout] at hreader
      exact ⟨rfl, fun _ => (hreader rfl).2⟩

theorem receiveContent_verdict (ops : FileOps σ) (part : Part) (result : MultipartResult) (world : σ) :
    (receiveContent ops part result world).1 = (part.deliver ops.sink (0, world)).1 := by
  unfold receiveContent
  rcases part.deliver ops.sink (0, world) with ⟨e | ⟨⟩, n, world'⟩ <;> rfl

/-- Receiving a part ends as one of four things does: handing its value to the path or to the file, opening the file, or
reading the value. -/
theorem receivePart_verdict (alnum : Char → Bool) (ops : FileOps σ) (part : Part) (st : ParseState σ) :
    (receivePart alnum ops part st).1 = (part.deliver (CapSink.call 4096) ⟨[], 0⟩).1 ∨
      (∃ world, (receivePart alnum ops part st).1 = (part.deliver ops.sink (0, world)).1) ∨
      (∃ path, (receivePart alnum ops part st).1 = (ops.openFile path st.world).1 ∧
        (ops.openFile path st.world).1 ≠ .ok ()) ∨
      (receivePart alnum ops part st).1 = part.ending := by
  unfold receivePart
  split_ifs
  · left
    unfold receivePath
    rcases part.deliver (CapSink.call 4096) ⟨[], 0⟩ with ⟨e | ⟨⟩, sink⟩ <;> rfl
  · right
    unfold receiveFile
    dsimp only
    split_ifs
    · exact .inl ⟨st.world, receiveContent_verdict ..⟩
    · rcases hopen : ops.openFile st.result.path st.world with ⟨e | ⟨⟩, world⟩
      · refine .inr (.inl ⟨st.result.path, ?_⟩)
        rw [hopen]
        exact ⟨rfl, nofun⟩
      · exact .inl ⟨world, receiveContent_verdict ..⟩
  · exact .inr (.inr (.inr rfl))

theorem deliver_error {part : Part} {e : ParseError} (hpart : part.ending = .error e) (sink : Sink τ) (t : τ) :
    (part.deliver sink t).1 ≠ .ok () := by
  intro hok
  rw [Part.deliver] at hok
  rcases hfeed : feed sink part.pieces t with ⟨e' | ⟨⟩, t'⟩
  all_goals
    rw [hfeed] at hok
    dsimp only at hok
  · cases hok
  · rw [hpart] at hok
    cases hok

theorem receivePart_error (alnum : Char → Bool) (ops : FileOps σ) {part : Part} {e : ParseError}
    (hpart : part.ending = .error e) (st : ParseState σ) : (receivePart alnum ops part st).1 ≠ .ok () := by
  rcases receivePart_verdict alnum ops part st with hpath | ⟨world, hfile⟩ | ⟨path, hopen, herror⟩ | hskip
  · rw [hpath]
    exact deliver_error hpart _ _
  · rw [hfile]
    exact deliver_error hpart _ _
  · rw [hopen]
    exact herror
  · rw [hskip, hpart]
    exact nofun

theorem partLoop_receive (alnum : Char → Bool) (ops : FileOps σ) (delim : Bytes) (fuel : Nat) (br : BodyReader)
    (st : ParseState σ) :
    ((partLoop alnum ops delim fuel br st).1, (partLoop alnum ops delim fuel br st).2.2) =
      receiveParts alnum ops (readPartsLoop delim fuel br).1 (readPartsLoop delim fuel br).2 st := by
  induction fuel generalizing br st with
  | zero => rfl
  | succ fuel ih =>
    rw [partLoop, readPartsLoop]
    dsimp only
    split_ifs
    · rfl
    · rfl
    swap
    · rfl
    · rcases readHeaders ((fill 2 br).take 2).2 16384 with ⟨e | block, br'⟩
      · rfl
      dsimp only
      obtain ⟨hfield, hreader⟩ := readField_receive alnum ops delim block br' st
      have hstops : ∀ e, (readPart delim block br').1.ending = .error e →
          (receivePart alnum ops (readPart delim block br').1 st).1 ≠ .ok () :=
        fun e h => receivePart_error alnum ops h st
      rcases hpart : readPart delim block br' with ⟨⟨block', pieces, e | ⟨⟩⟩, br''⟩
      all_goals
        rw [hpart] at hfield hreader hstops
        dsimp only at hfield hreader hstops ⊢
        rw [receiveParts, ← hfield]
      · -- the value is not whole
        rcases hout : readField alnum ops delim (decodeUtf8 block) br' st with ⟨e' | ⟨⟩, br₂, st'⟩
        · rfl
        · exact absurd (by rw [← hfield, hout]) (hstops e rfl)
      · rcases hout : readField alnum ops delim (decodeUtf8 block) br' st with ⟨e' | ⟨⟩, br₂, st'⟩
        · rfl
        · rw [hout] at hreader
          obtain rfl : br₂ = br'' := hreader rfl
          exact ih br₂ st'

theorem parseMultipartStream_eq (alnum : Char → Bool) (rfile : RFile) (length : Nat) (boundary : Bytes)
    (ops : FileOps σ) (world : σ) :
    let parts := readParts rfile length boundary
    let received := receiveParts alnum ops parts.1 parts.2 (ParseState.init world)
    let out := parseMultipartStream alnum rfile length boundary ops world
    out.1 = received.1.map (fun _ => received.2.result) ∧ out.2.2 = received.2.world := by
  unfold parseMultipartStream readParts
  dsimp only
  set br := fill (boundary.length + 4) (BodyReader.init rfile length)
  split_ifs
  · have hloop := partLoop_receive alnum ops (delimiter boundary) (br.buf.length + br.remaining + 1)
      (br.take (boundary.length + 2)).2 (ParseState.init world)
    rw [← hloop]
    rcases partLoop alnum ops (delimiter boundary) (br.buf.length + br.remaining + 1)
      (br.take (boundary.length + 2)).2 (ParseState.init world) with ⟨e | ⟨⟩, br', st⟩
    · exact ⟨rfl, rfl⟩
    · exact ⟨rfl, rfl⟩
  · exact ⟨rfl, rfl⟩

theorem parseMultipartStream_accepted {alnum : Char → Bool} {rfile : RFile} {length : Nat} {boundary : Bytes}
    {ops : FileOps σ} {world : σ} {result : MultipartResult}
    (h : (parseMultipartStream alnum rfile length boundary ops world).1 = .ok result) :
    ∃ st, receiveParts alnum ops (readParts rfile length boundary).1 (readParts rfile length boundary).2
        (ParseState.init world) = (.ok (), st) ∧ st.result = result ∧
      (parseMultipartStream alnum rfile length boundary ops world).2.2 = st.world := by
  obtain ⟨hres, hworld⟩ := parseMultipartStream_eq alnum rfile length boundary ops world
  rw [h] at hres
  rcases hreceived : receiveParts alnum ops (readParts rfile length boundary).1 (readParts rfile length boundary).2
    (ParseState.init world) with ⟨e | ⟨⟩, st⟩
  all_goals rw [hreceived] at hres hworld
  · cases hres
  · exact ⟨st, rfl, (Except.ok.inj hres).symm, hworld⟩

/-! ### The fields of the body -/

/-- The part as the reference has it. -/
def Part.field (part : Part) : Field := ⟨part.block, part.value⟩

theorem feed_collect (ps kept : List Bytes) : feed collect ps kept = (.ok (), kept ++ ps) := by
  induction ps generalizing kept with
  | nil => rw [feed, List.append_nil]
  | cons p ps ih =>
    rw [feed, collect]
    dsimp only
    rw [ih, List.append_assoc, List.singleton_append]

theorem readHeaders_cutHeaders {limit : Nat} {block : Bytes} {br br' : BodyReader}
    (h : readHeaders br limit = (.ok block, br')) : cutHeaders br.rest = some (block, br'.rest) := by
  rcases hfind : find (crlf ++ crlf) br.rest with _ | i
  · obtain ⟨msg, br₁, hread⟩ := readHeaders_of_not_find (n := limit) hfind
    rw [hread] at h
    cases h
  · rcases readHeaders_of_find limit hfind with ⟨br₁, hread, hrest⟩ | ⟨-, msg, br₁, hread⟩
    all_goals
      rw [hread] at h
      cases h
    rw [cutHeaders, hfind, Option.map_some, hrest]

section fields

variable {boundary : Bytes} (hcr : 0x0D ∉ boundary)

include hcr

theorem readPart_cutValue (block : Bytes) (br : BodyReader)
    (h : (readPart (delimiter boundary) block br).1.ending = .ok ()) :
    cutValue (delimiter boundary) br.rest =
      some ((readPart (delimiter boundary) block br).1.value, (readPart (delimiter boundary) block br).2.rest) := by
  obtain ⟨ps, hps⟩ := streamValue_spec hcr collect br []
  unfold readPart at h ⊢
  dsimp only [Part.value] at h ⊢
  cases hps with
  | value j hline hflat hfeed hrest =>
    rw [feed_collect, List.nil_append] at hfeed
    rw [cutValue, hline, Option.map_some, ← hflat, ← hrest h, (Prod.mk.inj hfeed).2]
  | truncated hnone hflat hfeed =>
    rw [feed_collect] at hfeed
    rw [(Prod.mk.inj hfeed).1] at h
    cases h

theorem readPartsLoop_fields (fuel rounds : Nat) (br : BodyReader) (hrounds : br.rest.length < rounds)
    (h : (readPartsLoop (delimiter boundary) fuel br).2 = .ok ()) :
    refFields (delimiter boundary) rounds br.rest =
      some ((readPartsLoop (delimiter boundary) fuel br).1.map Part.field) := by
  induction fuel generalizing rounds br with
  | zero => cases h
  | succ fuel ih =>
    obtain ⟨rounds, rfl⟩ : ∃ n, rounds = n + 1 := ⟨rounds - 1, by omega⟩
    have hopens := prefix_fill (n := 2) (p := crlf) br le_rfl
    have hcloses := prefix_fill (n := 2) (p := dashes) br le_rfl
    rw [readPartsLoop] at h ⊢
    dsimp only at h ⊢
    split_ifs at h ⊢ with hempty hdashes hcrlf
    · rw [refFields, if_pos (hcloses.mp hdashes)]
      rfl
    · have htake := rest_take_prefix br hcrlf (show 2 ≤ crlf.length from le_rfl)
      rcases hread : readHeaders ((fill 2 br).take 2).2 16384 with ⟨e | block, br₁⟩
      all_goals
        rw [hread] at h
        dsimp only at h ⊢
      · cases h
      have hblock := readHeaders_cutHeaders hread
      have hvalue := readPart_cutValue hcr block br₁
      rcases hpart : readPart (delimiter boundary) block br₁ with ⟨⟨block', pieces, e | ⟨⟩⟩, br₂⟩
      all_goals
        rw [hpart] at h hvalue
        dsimp only at h hvalue ⊢
      · cases h
      obtain rfl : block = block' := congrArg (fun out => out.1.block) hpart
      rw [htake] at hblock
      have hlen := cutHeaders_length hblock
      have hlen' := cutValue_length (hvalue rfl)
      rw [List.length_drop] at hlen
      rw [refFields, if_neg (mt hcloses.mpr hdashes), if_pos (hopens.mp hcrlf), hblock]
      simp only [Option.bind_eq_bind, Option.bind_some, hvalue rfl, ih rounds br₂ (by omega) h]
      rfl

/-- **The parts are the fields of the body**, for a body that is read to its end. -/
theorem readParts_fields {rfile : RFile} {length : Nat} (h : (readParts rfile length boundary).2 = .ok ()) :
    refBody boundary (rfile.data.take length) = some ((readParts rfile length boundary).1.map Part.field) := by
  have hopening := prefix_fill (n := boundary.length + 4) (p := dashes ++ boundary) (BodyReader.init rfile length)
    (by simp [dashes])
  unfold readParts at h ⊢
  dsimp only at h ⊢
  split_ifs at h ⊢ with hopen
  have hlen : boundary.length + 2 ≤ (dashes ++ boundary).length := by simp [dashes]
  have htake := rest_take_prefix (BodyReader.init rfile length) hopen hlen
  have hbody : (BodyReader.init rfile length).rest = rfile.data.take length := rfl
  rw [hbody] at hopening htake
  rw [refBody, if_pos (hopening.mp hopen), ← htake]
  refine readPartsLoop_fields hcr _ _ _ ?_ h
  rw [htake, List.length_drop]
  omega

end fields

/-! ### Rounds enough -/

/-- What a reader may still hold at most: it only shrinks. -/
def BodyReader.size (br : BodyReader) : Nat := br.buf.length + br.remaining

theorem fill_size (need : Nat) (br : BodyReader) : (fill need br).size ≤ br.size := by
  obtain ⟨more, hfill⟩ := fill_spec need br
  have hremaining := hfill.remaining
  rw [BodyReader.size, BodyReader.size, hfill.buf, List.length_append]
  omega

theorem readHeadersLoop_size (limit fuel : Nat) (br : BodyReader) :
    (readHeadersLoop limit fuel br).2.size ≤ br.size := by
  induction fuel generalizing br with
  | zero => exact le_rfl
  | succ fuel ih =>
    rw [readHeadersLoop]
    rcases find (crlf ++ crlf) br.buf with _ | idx
    · dsimp only
      split_ifs
      · exact le_rfl
      · exact fill_size _ br
      · exact (ih _).trans (fill_size _ br)
    · simp only [BodyReader.size, List.length_drop]
      omega

theorem readHeaders_total (br : BodyReader) (limit : Nat) : (readHeaders br limit).1 ≠ .error .outOfFuel := by
  rcases hfind : find (crlf ++ crlf) br.rest with _ | i
  · obtain ⟨msg, br', hread⟩ := readHeaders_of_not_find (n := limit) hfind
    rw [hread]
    exact nofun
  · rcases readHeaders_of_find limit hfind with ⟨br', hread, -⟩ | ⟨-, msg, br', hread⟩
    all_goals
      rw [hread]
      exact nofun

/-- Every round shortens the buffer or moves bytes into it. -/
theorem collect_total (boundary : Bytes) (fuel : Nat) (br : BodyReader) (kept : List Bytes)
    (hfuel : br.buf.length + 2 * br.remaining < fuel) :
    let out := streamValueLoop (delimiter boundary) collect fuel br kept
    out.1 ≠ .error .outOfFuel ∧ out.2.1.size ≤ br.size := by
  induction fuel generalizing br kept with
  | zero => exact absurd hfuel (Nat.not_lt_zero _)
  | succ fuel ih =>
    have hmore : ∀ (br₁ : BodyReader) (kept : List Bytes), br₁.buf.length ≤ br.buf.length →
        br₁.remaining = br.remaining →
        let br' := fill (br₁.buf.length + CHUNK) br₁
        let out := if br'.buf.length = br₁.buf.length then (.error truncatedValue, br', kept)
          else streamValueLoop (delimiter boundary) collect fuel br' kept
        out.1 ≠ .error .outOfFuel ∧ out.2.1.size ≤ br.size := by
      intro br₁ kept hbuf hremaining
      have hsize := fill_size (br₁.buf.length + CHUNK) br₁
      have hle : br₁.size ≤ br.size := by
        rw [BodyReader.size, BodyReader.size]
        omega
      dsimp only
      split_ifs with hstuck
      · exact ⟨by rintro ⟨⟩, hsize.trans hle⟩
      · obtain ⟨hgrow, hrem⟩ := remaining_of_fill hstuck
        obtain ⟨htotal, hshrink⟩ := ih (fill (br₁.buf.length + CHUNK) br₁) kept (by omega)
        exact ⟨htotal, hshrink.trans (hsize.trans hle)⟩
    rw [streamValueLoop]
    rcases hscan : scan (delimiter boundary) br.buf with idx | idx | _
    · refine ⟨by rintro ⟨⟩, ?_⟩
      simp only [collect, BodyReader.size, List.length_drop]
      omega
    · obtain ⟨-, -, hlong⟩ := scan_eq_content hscan
      have hdelim := four_le_delimiter boundary
      have hlen : (br.buf.drop (idx + (delimiter boundary).length)).length < br.buf.length := by
        rw [List.length_drop]
        omega
      obtain ⟨htotal, hshrink⟩ := ih { br with buf := br.buf.drop (idx + (delimiter boundary).length) }
        (kept ++ [br.buf.take (idx + (delimiter boundary).length)]) (by dsimp only; omega)
      refine ⟨htotal, hshrink.trans ?_⟩
      rw [BodyReader.size, BodyReader.size]
      exact Nat.add_le_add_right hlen.le _
    · dsimp only
      rw [flushTail]
      split_ifs
      · exact hmore { br with buf := br.buf.drop _ } _ (by rw [List.length_drop]; exact Nat.sub_le _ _) rfl
      · exact hmore br kept le_rfl rfl

theorem readPartsLoop_total (boundary : Bytes) (fuel : Nat) (br : BodyReader) (hfuel : br.size < fuel) :
    (readPartsLoop (delimiter boundary) fuel br).2 ≠ .error .outOfFuel ∧
      ∀ part ∈ (readPartsLoop (delimiter boundary) fuel br).1, part.ending ≠ .error .outOfFuel := by
  induction fuel generalizing br with
  | zero => exact absurd hfuel (Nat.not_lt_zero _)
  | succ fuel ih =>
    have hfill := fill_size 2 br
    rw [readPartsLoop]
    dsimp only
    split_ifs with hempty hdashes hcrlf
    · exact ⟨nofun, nofun⟩
    · exact ⟨nofun, nofun⟩
    swap
    · exact ⟨nofun, nofun⟩
    · have htake : ((fill 2 br).take 2).2.size + 2 = (fill 2 br).size := by
        have htwo : 2 ≤ (fill 2 br).buf.length := hcrlf.length_le
        simp only [BodyReader.take, BodyReader.size, List.length_drop]
        omega
      have htotal := readHeaders_total ((fill 2 br).take 2).2 16384
      have hsize := readHeadersLoop_size 16384 (((fill 2 br).take 2).2.remaining + 1) ((fill 2 br).take 2).2
      rw [← readHeaders] at hsize
      rcases hread : readHeaders ((fill 2 br).take 2).2 16384 with ⟨e | block, br'⟩
      · rw [hread] at htotal
        exact ⟨fun h => htotal (congrArg Except.error (Except.error.inj h)), nofun⟩
      rw [hread] at hsize
      dsimp only at hsize ⊢
      obtain ⟨hvalue, hshrink⟩ := collect_total boundary (br'.buf.length + 2 * br'.remaining + 1) br' [] (by omega)
      have hending : (readPart (delimiter boundary) block br').1.ending ≠ .error .outOfFuel := hvalue
      have hrest : (readPart (delimiter boundary) block br').2.size ≤ br'.size := hshrink
      rcases hpart : readPart (delimiter boundary) block br' with ⟨⟨block', pieces, e | ⟨⟩⟩, br''⟩
      all_goals
        rw [hpart] at hending hrest
        dsimp only at hending hrest ⊢
      · refine ⟨fun h => hending (congrArg Except.error (Except.error.inj h)), fun part hmem => ?_⟩
        obtain rfl := List.mem_singleton.mp hmem
        exact hending
      · obtain ⟨htotal', hparts⟩ := ih br'' (by omega)
        refine ⟨htotal', fun part hmem => ?_⟩
        rcases List.mem_cons.mp hmem with rfl | hmem
        · exact hending
        · exact hparts part hmem

theorem readParts_total (rfile : RFile) (length : Nat) (boundary : Bytes) :
    (readParts rfile length boundary).2 ≠ .error .outOfFuel ∧
      ∀ part ∈ (readParts rfile length boundary).1, part.ending ≠ .error .outOfFuel := by
  unfold readParts
  dsimp only
  split_ifs
  · refine readPartsLoop_total boundary _ _ ?_
    simp only [BodyReader.take, BodyReader.size, List.length_drop]
    omega
  · exact ⟨nofun, nofun⟩

theorem deliver_total {sink : Sink τ} (hsink : ∀ b t, (sink b t).1 ≠ .error .outOfFuel) {part : Part}
    (hpart : part.ending ≠ .error .outOfFuel) (t : τ) : (part.deliver sink t).1 ≠ .error .outOfFuel := by
  have hfeed : ∀ ps t, (feed sink ps t).1 ≠ .error .outOfFuel := by
    intro ps
    induction ps with
    | nil => exact fun _ => nofun
    | cons p ps ih =>
      intro t
      have hfirst := hsink p t
      rw [feed]
      rcases hout : sink p t with ⟨e | ⟨⟩, t'⟩
      · rwa [hout] at hfirst
      · exact ih t'
  have hpieces := hfeed part.pieces t
  rw [Part.deliver]
  rcases hout : feed sink part.pieces t with ⟨e | ⟨⟩, t'⟩
  · rwa [hout] at hpieces
  · exact hpart

section total

variable {ops : FileOps σ} (hopen : ∀ path s, (ops.openFile path s).1 ≠ .error .outOfFuel)
  (hwrite : ∀ b s, (ops.write b s).1 ≠ .error .outOfFuel)

include hopen hwrite

theorem receivePart_total (alnum : Char → Bool) {part : Part} (hpart : part.ending ≠ .error .outOfFuel)
    (st : ParseState σ) : (receivePart alnum ops part st).1 ≠ .error .outOfFuel := by
  have hcap : ∀ b sink, (CapSink.call 4096 b sink).1 ≠ .error .outOfFuel := by
    intro b sink
    rw [CapSink.call]
    split_ifs
    all_goals
      intro h
      cases h
  have hsink : ∀ b t, (ops.sink b t).1 ≠ .error .outOfFuel := fun b t => hwrite b t.2
  rcases receivePart_verdict alnum ops part st with hpath | ⟨world, hfile⟩ | ⟨path, hopened, -⟩ | hskip
  · rw [hpath]
    exact deliver_total hcap hpart _
  · rw [hfile]
    exact deliver_total hsink hpart _
  · rw [hopened]
    exact hopen path st.world
  · rw [hskip]
    exact hpart

/-- **The parser never stops for want of rounds**, unless the file object says so. -/
theorem parseMultipartStream_total (alnum : Char → Bool) (rfile : RFile) (length : Nat) (boundary : Bytes) (world : σ) :
    (parseMultipartStream alnum rfile length boundary ops world).1 ≠ .error .outOfFuel := by
  obtain ⟨hending, hparts⟩ := readParts_total rfile length boundary
  have hreceive : ∀ parts : List Part, (∀ part ∈ parts, part.ending ≠ .error .outOfFuel) → ∀ st : ParseState σ,
      (receiveParts alnum ops parts (readParts rfile length boundary).2 st).1 ≠ .error .outOfFuel := by
    intro parts hparts
    induction parts with
    | nil => exact fun _ => hending
    | cons part parts ih =>
      intro st
      have hpart := receivePart_total hopen hwrite alnum (hparts part List.mem_cons_self) st
      rw [receiveParts]
      rcases hout : receivePart alnum ops part st with ⟨e | ⟨⟩, st'⟩
      · rwa [hout] at hpart
      · exact ih (fun p hp => hparts p (List.mem_cons_of_mem _ hp)) st'
  have hreceived := hreceive _ hparts (ParseState.init world)
  rw [(parseMultipartStream_eq alnum rfile length boundary ops world).1]
  rcases hout : (receiveParts alnum ops (readParts rfile length boundary).1 (readParts rfile length boundary).2
    (ParseState.init world)).1 with e | ⟨⟩
  · rw [hout] at hreceived
    exact fun h => hreceived (congrArg Except.error (Except.error.inj h))
  · exact nofun

end total

end SocketServer.Http
