import SocketServer.Http.Parts
import SocketServer.Http.Truncation

/-!
# What the parser holds and asks for

The readers that a run of `parse_multipart_stream` goes through: one for each call of `rfile.read`, and one for each
time the buffer is cut. The functions named `…Moments` follow the functions of the parser and list them; `Passes` says
that single moves lead through all of them to the reader that the parser leaves.

* `parseMoments_passes` : the readers listed lead from `_BodyReader(rfile, content_length)` to the reader that the
  parser leaves;
* `fillMoments_length` : `fill(need)` holds less than `need` and a chunk;
* `parseMultipartStream_bounded` : the parser returns or raises `ValueError`, it asks for no more than what is left of
  the declared length, and its buffer is bounded whatever that length is.
-/

namespace SocketServer.Http

open Search Text

variable {σ τ : Type}

/-! ### Moves -/

/-- One round of `fill`, with `chunk = self.rfile.read(n)`. -/
def BodyReader.readChunk (n : Nat) (br : BodyReader) : BodyReader :=
  match br.rfile.read n with
  | ([], rfile) => ⟨rfile, 0, br.buf⟩
  | (b :: bs, rfile) => ⟨rfile, br.remaining - (b :: bs).length, br.buf ++ b :: bs⟩

/-- `self.buf = self.buf[n:]`. -/
def BodyReader.cut (n : Nat) (br : BodyReader) : BodyReader := { br with buf := br.buf.drop n }

/-- What can happen to a reader at once. A read asks for something, and for no more than what is left. -/
inductive Move (br : BodyReader) : BodyReader → Prop
  | read (n : Nat) (hpos : 0 < n) (hleft : n ≤ br.remaining) : Move br (br.readChunk n)
  | cut (n : Nat) : Move br (br.cut n)

/-- Moves lead from a reader through all those of a list, the last of which is the second. -/
def Passes : BodyReader → List BodyReader → BodyReader → Prop
  | br, [], last => br = last
  | br, m :: ms, last => Move br m ∧ Passes m ms last

theorem Passes.append {br mid last : BodyReader} {ms ms' : List BodyReader} (h : Passes br ms mid)
    (h' : Passes mid ms' last) : Passes br (ms ++ ms') last := by
  induction ms generalizing br with
  | nil =>
    obtain rfl : br = mid := h
    exact h'
  | cons m ms ih => exact ⟨h.1, ih h.2⟩

theorem Passes.last {P : BodyReader → Prop} {br last : BodyReader} {ms : List BodyReader} (h : Passes br ms last)
    (hbr : P br) (hms : ∀ m ∈ ms, P m) : P last := by
  induction ms generalizing br with
  | nil =>
    obtain rfl : br = last := h
    exact hbr
  | cons m ms ih =>
    exact ih h.2 (hms m List.mem_cons_self) fun m' hm' => hms m' (List.mem_cons_of_mem _ hm')

theorem readChunk_spec {n : Nat} {br : BodyReader} (h : n ≤ br.remaining) :
    ∃ chunk, chunk ++ (br.readChunk n).rfile.data = br.rfile.data ∧ chunk.length ≤ n ∧
      (br.readChunk n).buf = br.buf ++ chunk ∧ (br.readChunk n).remaining + chunk.length ≤ br.remaining := by
  obtain ⟨hdata, hle, -⟩ := br.rfile.read_spec n
  rw [BodyReader.readChunk]
  rcases hread : br.rfile.read n with ⟨chunk, rfile⟩
  rw [hread] at hdata hle
  have hrem : chunk.length ≤ br.remaining := hle.trans h
  refine ⟨chunk, ?_⟩
  cases chunk with
  | nil => exact ⟨hdata, hle, (List.append_nil _).symm, Nat.zero_le _⟩
  | cons b bs => exact ⟨hdata, hle, rfl, (Nat.sub_add_cancel hrem).le⟩

/-- What was taken from the stream since a reader of `length` bytes was made, with what is left of them. -/
def Within (rfile : RFile) (length : Nat) (br : BodyReader) : Prop :=
  ∃ consumed, rfile.data = consumed ++ br.rfile.data ∧ consumed.length + br.remaining ≤ length

theorem Within.move {rfile : RFile} {length : Nat} {br br' : BodyReader} (h : Within rfile length br)
    (hmove : Move br br') : Within rfile length br' := by
  obtain ⟨consumed, hdata, hle⟩ := h
  cases hmove with
  | read n hpos hleft =>
    obtain ⟨chunk, hchunk, -, -, hrem⟩ := readChunk_spec hleft
    refine ⟨consumed ++ chunk, ?_, ?_⟩
    · rw [hdata, List.append_assoc, hchunk]
    · rw [List.length_append]
      omega
  | cut n => exact ⟨consumed, hdata, hle⟩

theorem Passes.within {rfile : RFile} {length : Nat} {br last : BodyReader} {ms : List BodyReader}
    (h : Passes br ms last) (hbr : Within rfile length br) : ∀ m ∈ ms, Within rfile length m := by
  induction ms generalizing br with
  | nil => exact nofun
  | cons m ms ih =>
    intro m' hm'
    rcases List.mem_cons.mp hm' with rfl | hm'
    · exact hbr.move h.1
    · exact ih h.2 (hbr.move h.1) m' hm'

/-! ### The readers of a run -/

/-- The readers of `fill`. -/
def fillMoments (need : Nat) : Nat → BodyReader → List BodyReader
  | 0, _ => []
  | fuel + 1, br =>
    if br.buf.length < need ∧ 0 < br.remaining then
      br.readChunk (min CHUNK br.remaining) :: fillMoments need fuel (br.readChunk (min CHUNK br.remaining))
    else []

/-- The readers of `read_headers`. -/
def headersMoments (limit : Nat) : Nat → BodyReader → List BodyReader
  | 0, _ => []
  | fuel + 1, br =>
    match find (crlf ++ crlf) br.buf with
    | some idx => [br.cut (idx + 4)]
    | none =>
      if limit < br.buf.length then []
      else
        let br' := fill (br.buf.length + 8192) br
        fillMoments (br.buf.length + 8192) br.remaining br ++
          if br'.buf.length = br.buf.length then [] else headersMoments limit fuel br'

/-- The readers of `stream_value`. -/
def valueMoments (delim : Bytes) (sink : Sink τ) : Nat → BodyReader → τ → List BodyReader
  | 0, _, _ => []
  | fuel + 1, br, t =>
    match scan delim br.buf with
    | .line idx =>
      match sink (br.buf.take idx) t with
      | (.ok (), _) => [br.cut (idx + delim.length)]
      | (.error _, _) => []
    | .content idx =>
      match sink (br.buf.take (idx + delim.length)) t with
      | (.ok (), t) => br.cut (idx + delim.length) :: valueMoments delim sink fuel (br.cut (idx + delim.length)) t
      | (.error _, _) => []
    | .undecided =>
      match flushTail (delim.length + 1) sink br t with
      | (.ok (), br, t) =>
        let br' := fill (br.buf.length + CHUNK) br
        br :: (fillMoments (br.buf.length + CHUNK) br.remaining br ++
          if br'.buf.length = br.buf.length then [] else valueMoments delim sink fuel br' t)
      | (.error _, _, _) => []

def streamMoments (delim : Bytes) (sink : Sink τ) (br : BodyReader) (t : τ) : List BodyReader :=
  valueMoments delim sink (br.buf.length + 2 * br.remaining + 1) br t

/-- The readers of one field. -/
def fieldMoments (alnum : Char → Bool) (ops : FileOps σ) (delim : Bytes) (headers : Str) (br : BodyReader)
    (st : ParseState σ) : List BodyReader :=
  if fieldName alnum headers = ['p', 'a', 't', 'h'] then streamMoments delim (CapSink.call 4096) br ⟨[], 0⟩
  else if fieldName alnum headers = ['f', 'i', 'l', 'e'] then
    if st.fhOpen then streamMoments delim ops.sink br (0, st.world)
    else
      match ops.openFile st.result.path st.world with
      | (.ok (), world) => streamMoments delim ops.sink br (0, world)
      | (.error _, _) => []
  else streamMoments delim discardSink br ()

/-- The readers of the loop over the parts. -/
def partMoments (alnum : Char → Bool) (ops : FileOps σ) (delim : Bytes) :
    Nat → BodyReader → ParseState σ → List BodyReader
  | 0, _, _ => []
  | fuel + 1, br, st =>
    let ms := fillMoments 2 br.remaining br
    let br := fill 2 br
    if br.buf = [] then ms
    else if dashes <+: br.buf then ms
    else if ¬ crlf <+: br.buf then ms
    else
      ms ++ br.cut 2 :: (headersMoments 16384 ((br.cut 2).remaining + 1) (br.cut 2) ++
        match readHeaders (br.cut 2) 16384 with
        | (.error _, _) => []
        | (.ok block, br) =>
          fieldMoments alnum ops delim (decodeUtf8 block) br st ++
            match readField alnum ops delim (decodeUtf8 block) br st with
            | (.ok (), br, st) => partMoments alnum ops delim fuel br st
            | (.error _, _, _) => [])

/-- The readers of `parse_multipart_stream`. -/
def parseMoments (alnum : Char → Bool) (rfile : RFile) (length : Nat) (boundary : Bytes) (ops : FileOps σ)
    (world : σ) : List BodyReader :=
  let start := BodyReader.init rfile length
  let br := fill (boundary.length + 4) start
  fillMoments (boundary.length + 4) start.remaining start ++
    if ¬ dashes ++ boundary <+: br.buf then []
    else
      br.cut (boundary.length + 2) ::
        partMoments alnum ops (delimiter boundary) (br.buf.length + br.remaining + 1) (br.cut (boundary.length + 2))
          (ParseState.init world)

/-! ### They are the readers of the run -/

theorem fillLoop_of_remaining {need : Nat} {br : BodyReader} (h : br.remaining = 0) (fuel : Nat) :
    fillLoop need fuel br = br := by
  cases fuel with
  | zero => rfl
  | succ fuel => rw [fillLoop, if_neg (by omega)]

theorem fillLoop_succ (need fuel : Nat) (br : BodyReader) :
    fillLoop need (fuel + 1) br =
      if br.buf.length < need ∧ 0 < br.remaining then fillLoop need fuel (br.readChunk (min CHUNK br.remaining))
      else br := by
  rw [fillLoop, BodyReader.readChunk]
  rcases br.rfile.read (min CHUNK br.remaining) with ⟨chunk, rfile⟩
  cases chunk with
  | nil =>
    dsimp only
    rw [fillLoop_of_remaining rfl]
  | cons b bs => rfl

theorem fillMoments_passes (need fuel : Nat) (br : BodyReader) :
    Passes br (fillMoments need fuel br) (fillLoop need fuel br) := by
  induction fuel generalizing br with
  | zero => exact rfl
  | succ fuel ih =>
    rw [fillMoments, fillLoop_succ]
    split_ifs with hmore
    · exact ⟨.read _ (lt_min (by decide) hmore.2) (min_le_right ..), ih _⟩
    · exact rfl

theorem fill_passes (need : Nat) (br : BodyReader) : Passes br (fillMoments need br.remaining br) (fill need br) :=
  fillMoments_passes need br.remaining br

theorem headersMoments_passes (limit fuel : Nat) (br : BodyReader) :
    Passes br (headersMoments limit fuel br) (readHeadersLoop limit fuel br).2 := by
  induction fuel generalizing br with
  | zero => exact rfl
  | succ fuel ih =>
    rw [headersMoments, readHeadersLoop]
    rcases find (crlf ++ crlf) br.buf with _ | idx
    · dsimp only
      split_ifs with hlimit hstuck
      · exact rfl
      · rw [List.append_nil]
        exact fill_passes _ br
      · exact (fill_passes _ br).append (ih _)
    · exact ⟨.cut (idx + 4), rfl⟩

theorem flushTail_ok {keep : Nat} {sink : Sink τ} {br br' : BodyReader} {t t' : τ}
    (h : flushTail keep sink br t = (.ok (), br', t')) : br'.buf.length ≤ keep ∧ ∃ n, br' = br.cut n := by
  rw [flushTail] at h
  split_ifs at h with hkeep
  · rcases hsink : sink (br.buf.take (br.buf.length - keep)) t with ⟨e | ⟨⟩, t''⟩
    all_goals rw [hsink] at h
    · cases (Prod.mk.inj h).1
    · obtain rfl := (Prod.mk.inj (Prod.mk.inj h).2).1
      refine ⟨?_, br.buf.length - keep, rfl⟩
      rw [List.length_drop]
      omega
  · obtain rfl := (Prod.mk.inj (Prod.mk.inj h).2).1
    exact ⟨Nat.le_of_not_lt hkeep, 0, rfl⟩

theorem flushTail_error {keep : Nat} {sink : Sink τ} {br br' : BodyReader} {t t' : τ} {e : ParseError}
    (h : flushTail keep sink br t = (.error e, br', t')) : br' = br ∧ ∃ b, (sink b t).1 = .error e := by
  rw [flushTail] at h
  split_ifs at h
  · rcases hsink : sink (br.buf.take (br.buf.length - keep)) t with ⟨e' | ⟨⟩, t''⟩
    all_goals rw [hsink] at h
    · obtain ⟨he, hrest⟩ := Prod.mk.inj h
      refine ⟨(Prod.mk.inj hrest).1.symm, br.buf.take (br.buf.length - keep), ?_⟩
      rw [hsink]
      exact he
    · cases (Prod.mk.inj h).1
  · cases (Prod.mk.inj h).1

theorem valueMoments_passes (delim : Bytes) (sink : Sink τ) (fuel : Nat) (br : BodyReader) (t : τ) :
    Passes br (valueMoments delim sink fuel br t) (streamValueLoop delim sink fuel br t).2.1 := by
  induction fuel generalizing br t with
  | zero => exact rfl
  | succ fuel ih =>
    rw [valueMoments, streamValueLoop]
    rcases scan delim br.buf with idx | idx | _
    · dsimp only
      rcases sink (br.buf.take idx) t with ⟨e | ⟨⟩, t'⟩
      · exact rfl
      · exact ⟨.cut (idx + delim.length), rfl⟩
    · dsimp only
      rcases sink (br.buf.take (idx + delim.length)) t with ⟨e | ⟨⟩, t'⟩
      · exact rfl
      · exact ⟨.cut (idx + delim.length), ih _ t'⟩
    · dsimp only
      rcases hflush : flushTail (delim.length + 1) sink br t with ⟨e | ⟨⟩, br', t'⟩
      · obtain ⟨rfl, -⟩ := flushTail_error hflush
        exact rfl
      · obtain ⟨-, n, rfl⟩ := flushTail_ok hflush
        refine ⟨.cut n, ?_⟩
        dsimp only
        split_ifs
        · rw [List.append_nil]
          exact fill_passes _ _
        · exact (fill_passes _ _).append (ih _ t')

theorem streamMoments_passes (delim : Bytes) (sink : Sink τ) (br : BodyReader) (t : τ) :
    Passes br (streamMoments delim sink br t) (streamValue delim sink br t).2.1 := valueMoments_passes ..

theorem streamFile_reader (ops : FileOps σ) (delim : Bytes) (br : BodyReader) (result : MultipartResult) (world : σ) :
    (streamFile ops delim br result world).2.1 = (streamValue delim ops.sink br (0, world)).2.1 := by
  rw [streamFile]
  rcases streamValue delim ops.sink br (0, world) with ⟨e | ⟨⟩, br', n, world'⟩ <;> rfl

theorem fieldMoments_passes (alnum : Char → Bool) (ops : FileOps σ) (delim : Bytes) (headers : Str) (br : BodyReader)
    (st : ParseState σ) :
    Passes br (fieldMoments alnum ops delim headers br st) (readField alnum ops delim headers br st).2.1 := by
  rw [fieldMoments, readField]
  split_ifs with hpath hfile hopen
  · have hpasses := streamMoments_passes delim (CapSink.call 4096) br ⟨[], 0⟩
    rw [readPath]
    rcases hvalue : streamValue delim (CapSink.call 4096) br ⟨[], 0⟩ with ⟨e | ⟨⟩, br', sink⟩
    all_goals
      rw [hvalue] at hpasses
      exact hpasses
  · rw [readFile, if_pos hopen, streamFile_reader]
    exact streamMoments_passes ..
  · rw [readFile, if_neg hopen]
    dsimp only
    rcases ops.openFile st.result.path st.world with ⟨e | ⟨⟩, world⟩
    · exact rfl
    · dsimp only
      rw [streamFile_reader]
      exact streamMoments_passes ..
  · have hpasses := streamMoments_passes delim discardSink br ()
    rw [skipField]
    rcases hvalue : streamValue delim discardSink br () with ⟨e | ⟨⟩, br', u⟩
    all_goals
      rw [hvalue] at hpasses
      exact hpasses

theorem partMoments_passes (alnum : Char → Bool) (ops : FileOps σ) (delim : Bytes) (fuel : Nat) (br : BodyReader)
    (st : ParseState σ) :
    Passes br (partMoments alnum ops delim fuel br st) (partLoop alnum ops delim fuel br st).2.1 := by
  induction fuel generalizing br st with
  | zero => exact rfl
  | succ fuel ih =>
    have hfill := fill_passes 2 br
    rw [partMoments, partLoop]
    split_ifs with hempty hend hcrlf
    · exact hfill
    · exact hfill
    · refine hfill.append ⟨.cut 2, ?_⟩
      have hheaders := headersMoments_passes 16384 (((fill 2 br).cut 2).remaining + 1) ((fill 2 br).cut 2)
      have htake : ((fill 2 br).take 2).2 = (fill 2 br).cut 2 := rfl
      rw [htake]
      rw [← readHeaders] at hheaders
      rcases hread : readHeaders ((fill 2 br).cut 2) 16384 with ⟨e | block, br'⟩
      all_goals rw [hread] at hheaders
      · dsimp only
        rw [List.append_nil]
        exact hheaders
      · dsimp only at hheaders ⊢
        refine hheaders.append ?_
        have hfield := fieldMoments_passes alnum ops delim (decodeUtf8 block) br' st
        rcases hvalue : readField alnum ops delim (decodeUtf8 block) br' st with ⟨e | ⟨⟩, br'', st'⟩
        all_goals rw [hvalue] at hfield
        · dsimp only
          rw [List.append_nil]
          exact hfield
        · exact hfield.append (ih br'' st')
    · exact hfill

/-- **The readers of a run** lead from the first reader to the one that the parser leaves. -/
theorem parseMoments_passes (alnum : Char → Bool) (rfile : RFile) (length : Nat) (boundary : Bytes) (ops : FileOps σ)
    (world : σ) :
    Passes (BodyReader.init rfile length) (parseMoments alnum rfile length boundary ops world)
      (parseMultipartStream alnum rfile length boundary ops world).2.1 := by
  have hfill := fill_passes (boundary.length + 4) (BodyReader.init rfile length)
  rw [parseMoments, parseMultipartStream]
  generalize fill (boundary.length + 4) (BodyReader.init rfile length) = br at hfill ⊢
  split_ifs with hstart
  · have hparts := partMoments_passes alnum ops (delimiter boundary) (br.buf.length + br.remaining + 1)
      (br.cut (boundary.length + 2)) (ParseState.init world)
    have htake : (br.take (boundary.length + 2)).2 = br.cut (boundary.length + 2) := rfl
    rw [htake]
    refine hfill.append ⟨.cut (boundary.length + 2), ?_⟩
    rcases hloop : partLoop alnum ops (delimiter boundary) (br.buf.length + br.remaining + 1)
      (br.cut (boundary.length + 2)) (ParseState.init world) with ⟨e | ⟨⟩, br', st⟩
    all_goals
      rw [hloop] at hparts
      exact hparts
  · rw [List.append_nil]
    exact hfill

/-! ### The size of the buffer -/

theorem fillMoments_length {need fuel : Nat} {br m : BodyReader} (h : m ∈ fillMoments need fuel br) :
    m.buf.length < need + CHUNK := by
  induction fuel generalizing br with
  | zero => cases h
  | succ fuel ih =>
    rw [fillMoments] at h
    split_ifs at h with hmore
    · rcases List.mem_cons.mp h with rfl | h
      · obtain ⟨chunk, -, hchunk, hbuf, -⟩ := readChunk_spec (min_le_right CHUNK br.remaining)
        have hle : chunk.length ≤ CHUNK := hchunk.trans (min_le_left ..)
        rw [hbuf, List.length_append]
        omega
      · exact ih h
    · cases h

variable {bound : Nat}

theorem cut_length_le {br : BodyReader} (h : br.buf.length ≤ bound) (n : Nat) : (br.cut n).buf.length ≤ bound := by
  have hdrop : (br.cut n).buf.length = br.buf.length - n := List.length_drop
  omega

theorem fill_length_le (need : Nat) {br : BodyReader} (hneed : need + CHUNK ≤ bound + 1)
    (h : br.buf.length ≤ bound) :
    (∀ m ∈ fillMoments need br.remaining br, m.buf.length ≤ bound) ∧ (fill need br).buf.length ≤ bound := by
  have hms : ∀ m ∈ fillMoments need br.remaining br, m.buf.length ≤ bound := by
    intro m hm
    have hlt := fillMoments_length hm
    omega
  exact ⟨hms, (fill_passes need br).last h hms⟩

theorem headersMoments_length_le (limit : Nat) (hlimit : limit + 8192 + CHUNK ≤ bound) (fuel : Nat) {br : BodyReader}
    (h : br.buf.length ≤ bound) : ∀ m ∈ headersMoments limit fuel br, m.buf.length ≤ bound := by
  induction fuel generalizing br with
  | zero => exact nofun
  | succ fuel ih =>
    rw [headersMoments]
    rcases find (crlf ++ crlf) br.buf with _ | idx
    · dsimp only
      split_ifs with hover hstuck
      · exact nofun
      · rw [List.append_nil]
        exact (fill_length_le _ (by omega) h).1
      · obtain ⟨hms, hfill⟩ := fill_length_le (br.buf.length + 8192) (by omega) h
        exact List.forall_mem_append.mpr ⟨hms, ih hfill⟩
    · exact List.forall_mem_singleton.mpr (cut_length_le h _)

theorem valueMoments_length_le {delim : Bytes} (hdelim : 2 * CHUNK + delim.length ≤ bound) (sink : Sink τ)
    (fuel : Nat) {br : BodyReader} (h : br.buf.length ≤ bound) (t : τ) :
    ∀ m ∈ valueMoments delim sink fuel br t, m.buf.length ≤ bound := by
  induction fuel generalizing br t with
  | zero => exact nofun
  | succ fuel ih =>
    rw [valueMoments]
    rcases scan delim br.buf with idx | idx | _
    · dsimp only
      rcases sink (br.buf.take idx) t with ⟨e | ⟨⟩, t'⟩
      · exact nofun
      · exact List.forall_mem_singleton.mpr (cut_length_le h _)
    · dsimp only
      rcases sink (br.buf.take (idx + delim.length)) t with ⟨e | ⟨⟩, t'⟩
      · exact nofun
      · have hcut := cut_length_le h (idx + delim.length)
        exact List.forall_mem_cons.mpr ⟨hcut, ih hcut t'⟩
    · dsimp only
      rcases hflush : flushTail (delim.length + 1) sink br t with ⟨e | ⟨⟩, br', t'⟩
      · exact nofun
      · obtain ⟨hkept, n, rfl⟩ := flushTail_ok hflush
        have hcut := cut_length_le h n
        obtain ⟨hms, hfill⟩ := fill_length_le ((br.cut n).buf.length + CHUNK) (by omega) hcut
        dsimp only
        refine List.forall_mem_cons.mpr ⟨hcut, List.forall_mem_append.mpr ⟨hms, ?_⟩⟩
        split_ifs
        · exact nofun
        · exact ih hfill t'

theorem fieldMoments_length_le {delim : Bytes} (hdelim : 2 * CHUNK + delim.length ≤ bound) (alnum : Char → Bool)
    (ops : FileOps σ) (headers : Str) {br : BodyReader} (h : br.buf.length ≤ bound) (st : ParseState σ) :
    ∀ m ∈ fieldMoments alnum ops delim headers br st, m.buf.length ≤ bound := by
  rw [fieldMoments]
  split_ifs
  · exact valueMoments_length_le hdelim _ _ h _
  · exact valueMoments_length_le hdelim _ _ h _
  · rcases ops.openFile st.result.path st.world with ⟨e | ⟨⟩, world⟩
    · exact nofun
    · exact valueMoments_length_le hdelim _ _ h _
  · exact valueMoments_length_le hdelim _ _ h _

theorem partMoments_length_le {delim : Bytes} (hdelim : 2 * CHUNK + delim.length ≤ bound) (alnum : Char → Bool)
    (ops : FileOps σ) (fuel : Nat) {br : BodyReader} (h : br.buf.length ≤ bound) (st : ParseState σ) :
    ∀ m ∈ partMoments alnum ops delim fuel br st, m.buf.length ≤ bound := by
  induction fuel generalizing br st with
  | zero => exact nofun
  | succ fuel ih =>
    have hchunk : CHUNK = 262144 := rfl
    obtain ⟨hms, hfill⟩ := fill_length_le 2 (by omega) h
    rw [partMoments]
    split_ifs
    · exact hms
    · exact hms
    · have hcut := cut_length_le hfill 2
      have hheaders := headersMoments_length_le 16384 (by omega) (((fill 2 br).cut 2).remaining + 1) hcut
      have hpasses := headersMoments_passes 16384 (((fill 2 br).cut 2).remaining + 1) ((fill 2 br).cut 2)
      have hblock : (readHeaders ((fill 2 br).cut 2) 16384).2.buf.length ≤ bound := hpasses.last hcut hheaders
      refine List.forall_mem_append.mpr ⟨hms, List.forall_mem_cons.mpr ⟨hcut, ?_⟩⟩
      refine List.forall_mem_append.mpr ⟨hheaders, ?_⟩
      rcases hread : readHeaders ((fill 2 br).cut 2) 16384 with ⟨e | block, br'⟩
      all_goals rw [hread] at hblock
      · exact nofun
      · have hfield := fieldMoments_length_le hdelim alnum ops (decodeUtf8 block) hblock st
        have hvalue := (fieldMoments_passes alnum ops delim (decodeUtf8 block) br' st).last hblock hfield
        refine List.forall_mem_append.mpr ⟨hfield, ?_⟩
        rcases hout : readField alnum ops delim (decodeUtf8 block) br' st with ⟨e | ⟨⟩, br'', st'⟩
        all_goals rw [hout] at hvalue
        · exact nofun
        · exact ih hvalue st'
    · exact hms

/-- **The buffer** never holds more than two chunks and a delimiter. -/
theorem parseMoments_length_le (alnum : Char → Bool) (rfile : RFile) (length : Nat) (boundary : Bytes)
    (ops : FileOps σ) (world : σ) :
    ∀ m ∈ parseMoments alnum rfile length boundary ops world,
      m.buf.length ≤ 2 * CHUNK + (delimiter boundary).length := by
  have hdelim := length_delimiter boundary
  have hstart : (BodyReader.init rfile length).buf.length ≤ 2 * CHUNK + (delimiter boundary).length := Nat.zero_le _
  obtain ⟨hms, hfill⟩ := fill_length_le (boundary.length + 4) (by omega) hstart
  rw [parseMoments]
  refine List.forall_mem_append.mpr ⟨hms, ?_⟩
  split_ifs
  · have hcut := cut_length_le hfill (boundary.length + 2)
    exact List.forall_mem_cons.mpr ⟨hcut, partMoments_length_le le_rfl alnum ops _ hcut _⟩
  · exact nofun

/-! ### How it ends -/

/-- What the parser raises itself. That no loop of it runs out of rounds is `parseMultipartStream_total`. -/
def ParseError.IsOwn (e : ParseError) : Prop := (∃ msg, e = .valueError msg) ∨ e = .outOfFuel

theorem readHeadersLoop_error {limit fuel : Nat} {br : BodyReader} {e : ParseError}
    (h : (readHeadersLoop limit fuel br).1 = .error e) : e.IsOwn := by
  induction fuel generalizing br with
  | zero =>
    obtain rfl := Except.error.inj h
    exact .inr rfl
  | succ fuel ih =>
    rw [readHeadersLoop] at h
    rcases hfind : find (crlf ++ crlf) br.buf with _ | idx
    all_goals rw [hfind] at h
    · dsimp only at h
      split_ifs at h
      · exact .inl ⟨_, (Except.error.inj h).symm⟩
      · exact .inl ⟨_, (Except.error.inj h).symm⟩
      · exact ih h
    · cases h

theorem streamValueLoop_error {delim : Bytes} {sink : Sink τ} {fuel : Nat} {br : BodyReader} {t : τ} {e : ParseError}
    (h : (streamValueLoop delim sink fuel br t).1 = .error e) : e.IsOwn ∨ ∃ b t, (sink b t).1 = .error e := by
  induction fuel generalizing br t with
  | zero =>
    obtain rfl := Except.error.inj h
    exact .inl (.inr rfl)
  | succ fuel ih =>
    rw [streamValueLoop] at h
    rcases hscan : scan delim br.buf with idx | idx | _
    all_goals
      rw [hscan] at h
      dsimp only at h
    · rcases hsink : sink (br.buf.take idx) t with ⟨e' | ⟨⟩, t'⟩
      all_goals rw [hsink] at h
      · exact .inr ⟨br.buf.take idx, t, (congrArg Prod.fst hsink).trans h⟩
      · cases h
    · rcases hsink : sink (br.buf.take (idx + delim.length)) t with ⟨e' | ⟨⟩, t'⟩
      all_goals rw [hsink] at h
      · exact .inr ⟨br.buf.take (idx + delim.length), t, (congrArg Prod.fst hsink).trans h⟩
      · exact ih h
    · rcases hflush : flushTail (delim.length + 1) sink br t with ⟨e' | ⟨⟩, br', t'⟩
      all_goals
        rw [hflush] at h
        dsimp only at h
      · obtain ⟨-, b, hb⟩ := flushTail_error hflush
        exact .inr ⟨b, t, hb.trans h⟩
      · split_ifs at h
        · exact .inl (.inl ⟨_, (Except.error.inj h).symm⟩)
        · exact ih h

theorem capSink_error {cap : Nat} {b : Bytes} {sink : CapSink} {e : ParseError}
    (h : (CapSink.call cap b sink).1 = .error e) : e.IsOwn := by
  rw [CapSink.call] at h
  split_ifs at h
  exact .inl ⟨_, (Except.error.inj h).symm⟩

theorem streamFile_error {ops : FileOps σ} {delim : Bytes} {br : BodyReader} {result : MultipartResult} {world : σ}
    {e : ParseError} (h : (streamFile ops delim br result world).1 = .error e) : e.IsOwn ∨ ops.Raises e := by
  rw [streamFile] at h
  rcases hvalue : streamValue delim ops.sink br (0, world) with ⟨e' | ⟨⟩, br', n, world'⟩
  all_goals rw [hvalue] at h
  · rcases streamValueLoop_error ((congrArg Prod.fst hvalue).trans h) with hown | ⟨b, t, hb⟩
    · exact .inl hown
    · exact .inr (.inr ⟨b, t.2, hb⟩)
  · cases h

theorem readField_error {alnum : Char → Bool} {ops : FileOps σ} {delim : Bytes} {headers : Str} {br : BodyReader}
    {st : ParseState σ} {e : ParseError} (h : (readField alnum ops delim headers br st).1 = .error e) :
    e.IsOwn ∨ ops.Raises e := by
  rw [readField] at h
  split_ifs at h
  · rw [readPath] at h
    rcases hvalue : streamValue delim (CapSink.call 4096) br ⟨[], 0⟩ with ⟨e' | ⟨⟩, br', sink⟩
    all_goals rw [hvalue] at h
    · rcases streamValueLoop_error ((congrArg Prod.fst hvalue).trans h) with hown | ⟨b, t, hb⟩
      · exact .inl hown
      · exact .inl (capSink_error hb)
    · cases h
  · rw [readFile] at h
    dsimp only at h
    split_ifs at h
    · exact streamFile_error h
    · rcases hopen : ops.openFile st.result.path st.world with ⟨e' | ⟨⟩, world⟩
      all_goals rw [hopen] at h
      · exact .inr (.inl ⟨_, _, (congrArg Prod.fst hopen).trans h⟩)
      · exact streamFile_error h
  · rw [skipField] at h
    rcases hvalue : streamValue delim discardSink br () with ⟨e' | ⟨⟩, br', u⟩
    all_goals rw [hvalue] at h
    · rcases streamValueLoop_error ((congrArg Prod.fst hvalue).trans h) with hown | ⟨b, t, hb⟩
      · exact .inl hown
      · cases hb
    · cases h

theorem partLoop_error {alnum : Char → Bool} {ops : FileOps σ} {delim : Bytes} {fuel : Nat} {br : BodyReader}
    {st : ParseState σ} {e : ParseError} (h : (partLoop alnum ops delim fuel br st).1 = .error e) :
    e.IsOwn ∨ ops.Raises e := by
  induction fuel generalizing br st with
  | zero =>
    obtain rfl := Except.error.inj h
    exact .inl (.inr rfl)
  | succ fuel ih =>
    rw [partLoop] at h
    split_ifs at h
    · exact .inl (.inl ⟨_, (Except.error.inj h).symm⟩)
    · rcases hread : readHeaders ((fill 2 br).take 2).2 16384 with ⟨e' | block, br'⟩
      all_goals rw [hread] at h
      · have herror := (congrArg Prod.fst hread).trans (congrArg Except.error (Except.error.inj h))
        exact .inl (readHeadersLoop_error herror)
      · dsimp only at h
        rcases hfield : readField alnum ops delim (decodeUtf8 block) br' st with ⟨e' | ⟨⟩, br'', st'⟩
        all_goals rw [hfield] at h
        · exact readField_error ((congrArg Prod.fst hfield).trans h)
        · exact ih h
    · exact .inl (.inl ⟨_, (Except.error.inj h).symm⟩)

/-- **The parser returns or raises `ValueError`**, or hands on what the file object raises. -/
theorem parseMultipartStream_ends (alnum : Char → Bool) (rfile : RFile) (length : Nat) (boundary : Bytes)
    (ops : FileOps σ) (world : σ) :
    (∃ result, (parseMultipartStream alnum rfile length boundary ops world).1 = .ok result) ∨
      (∃ msg, (parseMultipartStream alnum rfile length boundary ops world).1 = .error (.valueError msg)) ∨
      ∃ e, (parseMultipartStream alnum rfile length boundary ops world).1 = .error e ∧ ops.Raises e := by
  have hown (e : ParseError) (h : (parseMultipartStream alnum rfile length boundary ops world).1 = .error e) :
      e.IsOwn ∨ ops.Raises e := by
    rw [parseMultipartStream] at h
    split_ifs at h
    · rcases hloop : partLoop alnum ops (delimiter boundary)
        ((fill (boundary.length + 4) (BodyReader.init rfile length)).buf.length +
          (fill (boundary.length + 4) (BodyReader.init rfile length)).remaining + 1)
        ((fill (boundary.length + 4) (BodyReader.init rfile length)).take (boundary.length + 2)).2
        (ParseState.init world) with ⟨e' | ⟨⟩, br, st⟩
      all_goals rw [hloop] at h
      · exact partLoop_error ((congrArg Prod.fst hloop).trans (congrArg Except.error (Except.error.inj h)))
      · cases h
    · exact .inl (.inl ⟨_, (Except.error.inj h).symm⟩)
  rcases hout : (parseMultipartStream alnum rfile length boundary ops world).1 with e | result
  · rcases hown e hout with (⟨msg, rfl⟩ | rfl) | hraises
    · exact .inr (.inl ⟨msg, rfl⟩)
    · by_cases hraises : ops.Raises .outOfFuel
      · exact .inr (.inr ⟨_, rfl, hraises⟩)
      · rw [FileOps.Raises, not_or] at hraises
        have htotal : (parseMultipartStream alnum rfile length boundary ops world).1 ≠ .error .outOfFuel :=
          parseMultipartStream_total (fun path s h => hraises.1 ⟨path, s, h⟩) (fun b s h => hraises.2 ⟨b, s, h⟩) alnum
            rfile length boundary world
        exact absurd hout htotal
    · exact .inr (.inr ⟨e, rfl, hraises⟩)
  · exact .inl ⟨result, rfl⟩

/-- **The parser, on any stream**, whatever the boundary, the declared length and the file object: it returns or raises
`ValueError`, unless the file object raises; each of its reads asks for no more than what is left of the declared
length, so that no more than that is consumed; its buffer holds at most two chunks and a delimiter at every moment. -/
theorem parseMultipartStream_bounded (alnum : Char → Bool) (rfile : RFile) (length : Nat) (boundary : Bytes)
    (ops : FileOps σ) (world : σ) :
    ((∃ result, (parseMultipartStream alnum rfile length boundary ops world).1 = .ok result) ∨
      (∃ msg, (parseMultipartStream alnum rfile length boundary ops world).1 = .error (.valueError msg)) ∨
      ∃ e, (parseMultipartStream alnum rfile length boundary ops world).1 = .error e ∧ ops.Raises e) ∧
    Passes (BodyReader.init rfile length) (parseMoments alnum rfile length boundary ops world)
      (parseMultipartStream alnum rfile length boundary ops world).2.1 ∧
    ∀ m ∈ parseMoments alnum rfile length boundary ops world,
      (∃ consumed, rfile.data = consumed ++ m.rfile.data ∧ consumed.length + m.remaining ≤ length) ∧
        m.buf.length ≤ 2 * CHUNK + (delimiter boundary).length := by
  have hpasses := parseMoments_passes alnum rfile length boundary ops world
  have hstart : Within rfile length (BodyReader.init rfile length) := ⟨[], rfl, (Nat.zero_add _).le⟩
  refine ⟨parseMultipartStream_ends alnum rfile length boundary ops world, hpasses, fun m hm => ⟨?_, ?_⟩⟩
  · exact hpasses.within hstart m hm
  · exact parseMoments_length_le alnum rfile length boundary ops world m hm

end SocketServer.Http
