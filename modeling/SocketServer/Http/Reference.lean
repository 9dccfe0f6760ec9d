import SocketServer.Http.Multipart

/-!
# A whole-body reference for the parser

The reference sees the whole body at once. `refFields` cuts it into header blocks and values: a header block
runs to the first blank line, a value to the first delimiter line. `refField` says what a field does to the
result and to the file. There is no reading, no buffer and no chunk in it.

The file object is compared call by call: a `Trace` is what the parser does to it, one `open_file` and writes,
up to the first of them that raises.
-/

namespace SocketServer.Http

open Search Text

/-! ### The reference -/

structure Field where
  block : Bytes
  value : Bytes
  deriving DecidableEq, Repr

/-- A header block, up to the first blank line, and what is behind that line. -/
def cutHeaders (rest : Bytes) : Option (Bytes × Bytes) :=
  (find (crlf ++ crlf) rest).map fun i => (rest.take i, rest.drop (i + 4))

/-- A value, up to the first delimiter line, and what is behind the delimiter. -/
def cutValue (delim rest : Bytes) : Option (Bytes × Bytes) :=
  (firstSuffix (DelimiterLine delim) rest).map fun j => (rest.take j, rest.drop (j + delim.length))

theorem cutHeaders_eq {rest block behind : Bytes} (h : cutHeaders rest = some (block, behind)) :
    rest = block ++ (crlf ++ crlf) ++ behind := by
  obtain ⟨i, hi, heq⟩ := Option.map_eq_some_iff.mp h
  obtain ⟨rfl, rfl⟩ := Prod.mk.inj heq
  obtain ⟨tail, htail⟩ := ((find_eq_some_iff _ _ _).mp hi).2.1
  have hbehind : rest.drop (i + 4) = tail := by rw [← List.drop_drop, ← htail]; rfl
  rw [hbehind, List.append_assoc, htail, List.take_append_drop]

theorem cutValue_eq {delim rest value behind : Bytes} (h : cutValue delim rest = some (value, behind)) :
    rest = value ++ delim ++ behind := by
  obtain ⟨j, hj, heq⟩ := Option.map_eq_some_iff.mp h
  obtain ⟨rfl, rfl⟩ := Prod.mk.inj heq
  obtain ⟨tail, htail⟩ := ((firstSuffix_eq_some_iff _ _ _).mp hj).2.1.1
  have hbehind : rest.drop (j + delim.length) = tail := by rw [← List.drop_drop, ← htail, List.drop_left]
  rw [hbehind, List.append_assoc, htail, List.take_append_drop]

theorem cutHeaders_length {rest block behind : Bytes} (h : cutHeaders rest = some (block, behind)) :
    rest.length = block.length + 4 + behind.length := by
  rw [cutHeaders_eq h, List.length_append, List.length_append]
  rfl

theorem cutValue_length {delim rest value behind : Bytes} (h : cutValue delim rest = some (value, behind)) :
    rest.length = value.length + delim.length + behind.length := by
  rw [cutValue_eq h, List.length_append, List.length_append]

def refFields (delim : Bytes) : Nat → Bytes → Option (List Field)
  | 0, _ => none
  | fuel + 1, rest =>
    if dashes <+: rest then some []
    else if crlf <+: rest then do
      let (block, rest) ← cutHeaders (rest.drop 2)
      let (value, rest) ← cutValue delim rest
      let fields ← refFields delim fuel rest
      some (⟨block, value⟩ :: fields)
    else none

def refBody (boundary body : Bytes) : Option (List Field) :=
  if dashes ++ boundary <+: body then
    refFields (delimiter boundary) (body.length + 1) (body.drop (boundary.length + 2))
  else none

/-- The header blocks met before the body ends or stops being well formed. -/
def headerBlocksLoop (delim : Bytes) : Nat → Bytes → List Bytes
  | 0, _ => []
  | fuel + 1, rest =>
    if dashes <+: rest then []
    else if crlf <+: rest then
      match cutHeaders (rest.drop 2) with
      | none => []
      | some (block, rest) =>
        block :: match cutValue delim rest with
          | none => []
          | some (_, rest) => headerBlocksLoop delim fuel rest
    else []

def headerBlocks (boundary body : Bytes) : List Bytes :=
  if dashes ++ boundary <+: body then
    headerBlocksLoop (delimiter boundary) (body.length + 1) (body.drop (boundary.length + 2))
  else []

/-- What the parser has returned and done to the file so far: `opened` is the argument of `open_file`. -/
structure RefState where
  result : MultipartResult
  opened : Option (Option Str)
  written : Bytes
  deriving DecidableEq, Repr

def RefState.init : RefState := ⟨⟨none, 0, none, false⟩, none, []⟩

def refPath (acc : RefState) (value : Bytes) : Option RefState :=
  if value.length ≤ 4096 then
    some { acc with result := { acc.result with path := some (decodeUtf8 value) } }
  else none

def refFile (headers : Str) (acc : RefState) (value : Bytes) : RefState where
  result := { acc.result with
    filename := (searchFilename headers).or acc.result.filename
    size := value.length
    fileSeen := true }
  opened := acc.opened.or (some acc.result.path)
  written := acc.written ++ value

def refField (alnum : Char → Bool) (st : RefState) (field : Field) : Option RefState :=
  let headers := decodeUtf8 field.block
  if fieldName alnum headers = ['p', 'a', 't', 'h'] then refPath st field.value
  else if fieldName alnum headers = ['f', 'i', 'l', 'e'] then some (refFile headers st field.value)
  else some st

/-- The reference parser. -/
def refParse (alnum : Char → Bool) (boundary body : Bytes) : Option RefState :=
  (refBody boundary body).bind (·.foldlM (refField alnum) RefState.init)

/-! ### Runs of the file object -/

variable {σ : Type}

/-- The calls the parser makes: `open_file`, if it is still to be called, and then writes. -/
structure Trace where
  opened : Option (Option Str)
  pieces : List Bytes

/-- Perform the calls, up to the first one that raises. -/
def Trace.run (ops : FileOps σ) (tr : Trace) (s : σ) : Except ParseError Unit × σ :=
  match tr.opened with
  | none => feed ops.write tr.pieces s
  | some path =>
    match ops.openFile path s with
    | (.ok (), s) => feed ops.write tr.pieces s
    | (.error e, s) => (.error e, s)

def Trace.andThen (tr tr' : Trace) : Trace := ⟨tr.opened.or tr'.opened, tr.pieces ++ tr'.pieces⟩

/-- The file object is opened at most once, and written to while it is open; `fhOpen` says whether it was open
before the calls. -/
structure Trace.Legal (fhOpen : Bool) (tr : Trace) : Prop where
  once : tr.opened.isSome = true → fhOpen = false
  isOpen : tr.pieces ≠ [] → (fhOpen || tr.opened.isSome) = true

theorem Trace.Legal.andThen {fhOpen : Bool} {tr tr' : Trace} (h : tr.Legal fhOpen)
    (h' : tr'.Legal (fhOpen || tr.opened.isSome)) : (tr.andThen tr').Legal fhOpen := by
  refine ⟨fun hopened => ?_, fun hpieces => ?_⟩
  · rw [Trace.andThen, Option.isSome_or, Bool.or_eq_true] at hopened
    rcases hopened with hopened | hopened
    · exact h.once hopened
    · exact (Bool.or_eq_false_iff.mp (h'.once hopened)).1
  · rw [Trace.andThen, Option.isSome_or, ← Bool.or_assoc]
    by_cases hfirst : tr.pieces = []
    · exact h'.isOpen fun hlast => hpieces (by rw [Trace.andThen, hfirst, hlast]; rfl)
    · rw [h.isOpen hfirst, Bool.true_or]

theorem Trace.run_andThen (ops : FileOps σ) {fhOpen : Bool} {tr tr' : Trace} (h : tr.Legal fhOpen)
    (h' : tr'.Legal (fhOpen || tr.opened.isSome)) (s : σ) :
    (tr.andThen tr').run ops s =
      match tr.run ops s with
      | (.ok (), s) => tr'.run ops s
      | (.error e, s) => (.error e, s) := by
  obtain ⟨opened, pieces⟩ := tr
  obtain ⟨opened', pieces'⟩ := tr'
  have hwrites : (fhOpen || opened.isSome) = true → opened' = none := fun hopen =>
    Option.not_isSome_iff_eq_none.mp fun hsome => by simp [hopen] at h'; simpa using h'.once hsome
  rcases opened with _ | path
  · by_cases hpieces : pieces = []
    · rw [hpieces]
      rfl
    · obtain rfl : opened' = none := hwrites (h.isOpen hpieces)
      exact feed_append ops.write pieces pieces' s
  · obtain rfl : opened' = none := hwrites (Bool.or_true _)
    unfold Trace.run Trace.andThen
    dsimp only [Option.some_or]
    rcases ops.openFile path s with ⟨_ | ⟨⟩, s'⟩
    · rfl
    · exact feed_append ops.write pieces pieces' s'

/-- An outcome in state `s` comes from the calls of `tr`: the file object is as they leave it, what they raise
is raised, and if they raise nothing, `Q` holds. -/
def Follows {ρ : Type} (ops : FileOps σ) (tr : Trace) (s : σ) (out : Except ParseError ρ × σ) (Q : Prop) : Prop :=
  out.2 = (tr.run ops s).2 ∧ (∀ e, (tr.run ops s).1 = .error e → out.1 = .error e) ∧
    ((tr.run ops s).1 = .ok () → Q)

/-! ### The sinks -/

theorem capSink_feed (ps : List Bytes) (sink : CapSink) (cap : Nat) (hsink : sink.total = sink.parts.flatten.length) :
    (sink.total + ps.flatten.length ≤ cap →
      feed (CapSink.call cap) ps sink = (.ok (), ⟨sink.parts ++ ps, sink.total + ps.flatten.length⟩)) ∧
    (cap < sink.total + ps.flatten.length → sink.total ≤ cap →
      (feed (CapSink.call cap) ps sink).1 = .error (.valueError "field value too large")) := by
  induction ps generalizing sink with
  | nil =>
    refine ⟨fun _ => by simp [feed], fun h h' => ?_⟩
    simp only [List.flatten_nil, List.length_nil] at h
    omega
  | cons p ps ih =>
    simp only [List.flatten_cons, List.length_append]
    rw [feed, CapSink.call]
    by_cases hp : cap < sink.total + p.length
    · rw [if_pos hp]
      exact ⟨fun h => by omega, fun _ _ => rfl⟩
    · rw [if_neg hp]
      obtain ⟨hok, herr⟩ := ih ⟨sink.parts ++ [p], sink.total + p.length⟩ (by simp [hsink])
      dsimp only at hok herr ⊢
      refine ⟨fun h => ?_, fun h _ => herr (by omega) (by omega)⟩
      rw [hok (by omega), List.append_assoc, Nat.add_assoc]
      rfl

theorem capSink_parts {ps : List Bytes} {sink sink' : CapSink} {cap : Nat}
    (h : feed (CapSink.call cap) ps sink = (.ok (), sink')) : sink'.parts = sink.parts ++ ps := by
  induction ps generalizing sink with
  | nil =>
    obtain rfl : sink = sink' := (Prod.mk.inj h).2
    exact (List.append_nil _).symm
  | cons p ps ih =>
    rw [feed, CapSink.call] at h
    split_ifs at h
    · cases (Prod.mk.inj h).1
    · rw [ih h, List.append_assoc]
      rfl

theorem fileSink_feed (ops : FileOps σ) (ps : List Bytes) (n : Nat) (s : σ) :
    (feed ops.sink ps (n, s)).1 = (feed ops.write ps s).1 ∧
      (feed ops.sink ps (n, s)).2.2 = (feed ops.write ps s).2 ∧
      ((feed ops.write ps s).1 = .ok () → (feed ops.sink ps (n, s)).2.1 = n + ps.flatten.length) := by
  induction ps generalizing n s with
  | nil => exact ⟨rfl, rfl, fun _ => rfl⟩
  | cons p ps ih =>
    rw [feed, feed, FileOps.sink]
    dsimp only
    rcases ops.write p s with ⟨_ | ⟨⟩, s'⟩
    · exact ⟨rfl, rfl, fun h => by cases h⟩
    · obtain ⟨h1, h2, h3⟩ := ih (n + p.length) s'
      refine ⟨h1, h2, fun h => ?_⟩
      rw [List.flatten_cons, List.length_append, ← Nat.add_assoc]
      exact h3 h

theorem discardSink_feed (ps : List Bytes) (t : Unit) : feed discardSink ps t = (.ok (), ()) := by
  induction ps with
  | nil => rfl
  | cons p ps ih => exact ih

/-! ### A file object that keeps what it is given -/

/-- The arguments of the `open_file` calls, and the bytes written. -/
structure Recorded where
  opened : List (Option Str)
  written : Bytes
  deriving DecidableEq, Repr

/-- It never raises. -/
def recorder : FileOps Recorded where
  openFile path r := (.ok (), { r with opened := r.opened ++ [path] })
  write b r := (.ok (), { r with written := r.written ++ b })

theorem feed_recorder (ps : List Bytes) (r : Recorded) :
    feed recorder.write ps r = (.ok (), { r with written := r.written ++ ps.flatten }) := by
  induction ps generalizing r with
  | nil => simp [feed]
  | cons p ps ih =>
    rw [feed, recorder]
    exact (ih _).trans (by simp)

theorem Trace.run_recorder (tr : Trace) :
    tr.run recorder ⟨[], []⟩ = (.ok (), ⟨tr.opened.toList, tr.pieces.flatten⟩) := by
  unfold Trace.run
  cases tr.opened with
  | none => exact feed_recorder tr.pieces ⟨[], []⟩
  | some path => exact feed_recorder tr.pieces ⟨[path], []⟩

end SocketServer.Http
