import SocketServer.Http.StreamValue
import SocketServer.Lib.Text

/-!
# The multipart parser (`parse_multipart_stream` of `http_file.py`)

The parser drives the body reader over the parts of a `multipart/form-data` body and hands the content of
`file` fields to the file object of `open_file`. That file object and everything behind it is a state `σ` with
two operations (`FileOps`): both may raise, and leave the state as it then is.

Header text is matched by the two regular expressions of the source. `\b` asks which characters `\w` matches;
for characters beyond ASCII this is the table `alnum`, which every definition takes as it comes.
-/

namespace SocketServer.Http

open Search Text

/-! ### Header text -/

/-- `([^"]*)"` : the characters before the next quote. -/
def quoted : Str → Option Str
  | [] => none
  | c :: s => if c = '"' then some [] else (quoted s).map (c :: ·)

/-- `re.search(r'\bname="([^"]*)"', headers)`; `word` says whether the character before is a word character. -/
def searchName (alnum : Char → Bool) : Bool → Str → Option Str
  | _, [] => none
  | word, c :: s =>
    if !word ∧ ['n', 'a', 'm', 'e', '=', '"'] <+: c :: s then
      match quoted ((c :: s).drop 6) with
      | some value => some value
      | none => searchName alnum (isWordChar alnum c) s
    else searchName alnum (isWordChar alnum c) s

/-- `re.search(r'filename="([^"]*)"', headers)`. -/
def searchFilename : Str → Option Str
  | [] => none
  | c :: s =>
    if ['f', 'i', 'l', 'e', 'n', 'a', 'm', 'e', '=', '"'] <+: c :: s then
      match quoted ((c :: s).drop 10) with
      | some value => some value
      | none => searchFilename s
    else searchFilename s

/-- The name of a part: `m.group(1) if m else ""`. -/
def fieldName (alnum : Char → Bool) (headers : Str) : Str := (searchName alnum false headers).getD []

/-! ### Sinks -/

structure CapSink where
  parts : List Bytes
  total : Nat

/-- `_CapSink.__call__` with cap `cap`. -/
def CapSink.call (cap : Nat) : Sink CapSink := fun b sink =>
  if cap < sink.total + b.length then
    (.error (.valueError "field value too large"), { sink with total := sink.total + b.length })
  else (.ok (), ⟨sink.parts ++ [b], sink.total + b.length⟩)

def CapSink.value (sink : CapSink) : Str := decodeUtf8 sink.parts.flatten

/-- The file object of `open_file`, with all that is behind it. -/
structure FileOps (σ : Type) where
  openFile : Option Str → σ → Except ParseError Unit × σ
  write : Sink σ

variable {σ : Type}

/-- `_sink` : counts before it writes. -/
def FileOps.sink (ops : FileOps σ) : Sink (Nat × σ) := fun b t =>
  ((ops.write b t.2).1, t.1 + b.length, (ops.write b t.2).2)

def discardSink : Sink Unit := fun _ _ => (.ok (), ())

/-! ### The parser -/

structure MultipartResult where
  path : Option Str
  size : Nat
  filename : Option Str
  fileSeen : Bool
  deriving DecidableEq, Repr

/-- The local variables of the parser: what it will return, whether `fh` is set, and the file object. -/
structure ParseState (σ : Type) where
  result : MultipartResult
  fhOpen : Bool
  world : σ

def ParseState.init (world : σ) : ParseState σ := ⟨⟨none, 0, none, false⟩, false, world⟩

def readPath (delim : Bytes) (br : BodyReader) (st : ParseState σ) :
    Except ParseError Unit × BodyReader × ParseState σ :=
  match streamValue delim (CapSink.call 4096) br ⟨[], 0⟩ with
  | (.ok (), br, sink) => (.ok (), br, { st with result := { st.result with path := some sink.value } })
  | (.error e, br, _) => (.error e, br, st)

/-- The value of a `file` field, with the file object open. -/
def streamFile (ops : FileOps σ) (delim : Bytes) (br : BodyReader) (result : MultipartResult) (world : σ) :
    Except ParseError Unit × BodyReader × ParseState σ :=
  match streamValue delim ops.sink br (0, world) with
  | (.ok (), br, n, world) => (.ok (), br, ⟨{ result with size := n, fileSeen := true }, true, world⟩)
  | (.error e, br, _, world) => (.error e, br, ⟨result, true, world⟩)

/-- A `file` field: `open_file` is called for the first one only. -/
def readFile (ops : FileOps σ) (delim : Bytes) (headers : Str) (br : BodyReader) (st : ParseState σ) :
    Except ParseError Unit × BodyReader × ParseState σ :=
  let result := { st.result with filename := (searchFilename headers).or st.result.filename }
  if st.fhOpen then streamFile ops delim br result st.world
  else
    match ops.openFile result.path st.world with
    | (.ok (), world) => streamFile ops delim br result world
    | (.error e, world) => (.error e, br, ⟨result, false, world⟩)

def skipField (delim : Bytes) (br : BodyReader) (st : ParseState σ) :
    Except ParseError Unit × BodyReader × ParseState σ :=
  match streamValue delim discardSink br () with
  | (.ok (), br, _) => (.ok (), br, st)
  | (.error e, br, _) => (.error e, br, st)

/-- The value of one part. -/
def readField (alnum : Char → Bool) (ops : FileOps σ) (delim : Bytes) (headers : Str) (br : BodyReader)
    (st : ParseState σ) : Except ParseError Unit × BodyReader × ParseState σ :=
  if fieldName alnum headers = ['p', 'a', 't', 'h'] then readPath delim br st
  else if fieldName alnum headers = ['f', 'i', 'l', 'e'] then readFile ops delim headers br st
  else skipField delim br st

/-- The loop over the parts, with a bound on its rounds. -/
def partLoop (alnum : Char → Bool) (ops : FileOps σ) (delim : Bytes) :
    Nat → BodyReader → ParseState σ → Except ParseError Unit × BodyReader × ParseState σ
  | 0, br, st => (.error .outOfFuel, br, st)
  | fuel + 1, br, st =>
    let br := fill 2 br
    if br.buf = [] then (.error (.valueError "multipart body truncated(boundary)"), br, st)
    else if dashes <+: br.buf then (.ok (), br, st)
    else if ¬ crlf <+: br.buf then (.error (.valueError "multipart body malformed"), br, st)
    else
      match readHeaders (br.take 2).2 16384 with
      | (.error e, br) => (.error e, br, st)
      | (.ok block, br) =>
        match readField alnum ops delim (decodeUtf8 block) br st with
        | (.ok (), br, st) => partLoop alnum ops delim fuel br st
        | (.error e, br, st) => (.error e, br, st)

/-- `parse_multipart_stream(rfile, content_length, boundary, open_file)`. -/
def parseMultipartStream (alnum : Char → Bool) (rfile : RFile) (length : Nat) (boundary : Bytes)
    (ops : FileOps σ) (world : σ) : Except ParseError MultipartResult × BodyReader × σ :=
  let br := fill (boundary.length + 4) (BodyReader.init rfile length)
  if ¬ dashes ++ boundary <+: br.buf then (.error (.valueError "multipart body malformed"), br, world)
  else
    match partLoop alnum ops (delimiter boundary) (br.buf.length + br.remaining + 1)
        (br.take (boundary.length + 2)).2 (ParseState.init world) with
    | (.ok (), br, st) => (.ok st.result, br, st.world)
    | (.error e, br, st) => (.error e, br, st.world)

end SocketServer.Http
