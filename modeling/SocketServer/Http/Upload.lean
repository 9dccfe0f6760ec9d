import SocketServer.Http.Refinement
import SocketServer.Lib.FileSystem

/-!
# POST uploads (`FileHandler.do_POST` of `http_file.py`)

A path-first upload is written to `<dest>.part` while it arrives and renamed to its destination at the end; one
whose file comes first goes to a temporary file. Bytes pass through a buffered file object: a `write` may leave
them in the buffer, and `close` flushes the rest.

`Host` is what the operating system decides: how paths are normalised, the name of the temporary file, and which
calls raise an `OSError` although the directory tree would let them succeed.
-/

namespace SocketServer.Http

open Text

/-- A normalised path, last name first. -/
abbrev Path := List Str

/-! ### Header fields -/

/-- `int(self.headers.get("Content-Length") or 0)`. -/
def contentLength (field : Option Str) : Option Int :=
  match field with
  | none | some [] => some 0
  | some text => parseInt text

/-- One parameter of a `Content-Type`, as a boundary. -/
def boundaryParameter (part : Str) : Option Bytes :=
  let part := strip isSpace part
  if ['b', 'o', 'u', 'n', 'd', 'a', 'r', 'y', '='] <+: part then
    let b := strip (· == '"') (strip isSpace (part.drop 9))
    if b ≠ [] ∧ b.length ≤ 256 then some (encodeUtf8 b) else none
  else none

def boundaryFromContentType (contentType : Str) : Option Bytes :=
  (contentType.splitOn ';').findSome? boundaryParameter

/-! ### The operating system -/

/-- What a `write` of the file object does: how many buffered bytes go to the file, and whether it raises. -/
structure WriteOutcome where
  flushed : Nat
  raises : Bool
  deriving DecidableEq, Repr

/-- The calls whose `OSError` goes into an answer. -/
inductive SystemCall
  | write
  | mkstemp
  | makedirs (dir : Path)
  | openPart (part : Path)
  /-- `os.replace`. -/
  | replace (part dest : Path)
  /-- `shutil.move`. -/
  | move (temp dest : Path)
  deriving DecidableEq, Repr

/-- What the operating system decides during an upload. -/
structure Host where
  /-- `os.path.realpath`, `none` where it raises a `ValueError` (a NUL character). -/
  realpath : Str → Option Path
  /-- The name `tempfile.mkstemp` tries. -/
  tempPath : Path
  /-- Does `mkdir` succeed where the tree allows it? -/
  mayMake : Path → Bool
  /-- Does `open` succeed where the tree allows it? -/
  mayOpen : Path → Bool
  /-- Does `os.replace` or `shutil.move` to the path succeed where the tree allows it? -/
  mayPublish : Path → Bool
  /-- Is the path on the file system of the temporary directory? -/
  sameDevice : Path → Bool
  /-- The outcomes of the writes, one by one; past the list bytes are buffered. -/
  writes : List WriteOutcome
  /-- `none` if `close` flushes the buffer, `some k` if it raises after `k` bytes. -/
  close : Option Nat
  /-- The text of the `OSError` of a call. -/
  osError : SystemCall → String

/-! ### The upload -/

/-- A buffered file object: the inode and offset of its descriptor, and the bytes not written yet. -/
structure FileObject where
  inode : Nat
  off : Nat
  pending : Bytes
  deriving DecidableEq, Repr

/-- The file system and the dictionary `up` of `do_POST`, with the write outcomes still to come. -/
structure Upload where
  fs : FileSystem Str
  fh : Option FileObject
  part : Option Path
  temp : Option Path
  writes : List WriteOutcome

/-- `up` before the body is read. -/
def Upload.init (host : Host) (fs : FileSystem Str) : Upload := ⟨fs, none, none, none, host.writes⟩

/-- `dest + ".part"`. -/
def partPath : Path → Path
  | [] => [['.', 'p', 'a', 'r', 't']]
  | name :: up => (name ++ ['.', 'p', 'a', 'r', 't']) :: up

theorem partPath_ne (dest : Path) : partPath dest ≠ dest := by
  rcases dest with _ | ⟨name, up⟩
  · simp [partPath]
  · intro h
    have hlen := congrArg List.length (List.cons.inj h).1
    rw [List.length_append] at hlen
    simp at hlen

/-- The first `k` buffered bytes go to the file. -/
def FileObject.flush (fh : FileObject) (k : Nat) (fs : FileSystem Str) : FileObject × FileSystem Str :=
  (⟨fh.inode, fh.off + (fh.pending.take k).length, fh.pending.drop k⟩,
    fs.pwrite fh.inode fh.off (fh.pending.take k))

/-- `fh.write(b)`. -/
def Upload.write (host : Host) (b : Bytes) (up : Upload) : Except ParseError Unit × Upload :=
  match up.fh with
  | none => (.ok (), up)
  | some fh =>
    let outcome := up.writes.headD ⟨0, false⟩
    let (fh, fs) := FileObject.flush { fh with pending := fh.pending ++ b } outcome.flushed up.fs
    (if outcome.raises then .error (.osError (host.osError .write)) else .ok (),
      { up with fs := fs, fh := some fh, writes := up.writes.tail })

/-- `fh.close()` where an `OSError` is ignored. -/
def Upload.closeFile (host : Host) (up : Upload) : Upload :=
  match up.fh with
  | none => up
  | some fh => { up with fs := (fh.flush (host.close.getD fh.pending.length) up.fs).2, fh := none }

/-- A file opened for writing. -/
def openNew (host : Host) (p : Path) (fs : FileSystem Str) : Option (FileObject × FileSystem Str) :=
  (if host.mayOpen p then fs.openTrunc p else none).map fun (inode, fs) => (⟨inode, 0, []⟩, fs)

/-- `open_file` with a path: `<dest>.part` is opened. -/
def openPart (host : Host) (path : Str) (up : Upload) : Except ParseError Unit × Upload :=
  match host.realpath path with
  | none => (.error (.valueError "embedded null byte"), up)
  | some dest =>
    match FileSystem.makedirs host.mayMake dest.tail up.fs with
    | (false, fs) => (.error (.osError (host.osError (.makedirs dest.tail))), { up with fs := fs })
    | (true, fs) =>
      match openNew host (partPath dest) fs with
      | none => (.error (.osError (host.osError (.openPart (partPath dest)))), { up with fs := fs })
      | some (fh, fs) => (.ok (), { up with fs := fs, fh := some fh, part := some (partPath dest) })

/-- `open_file` without a path: `mkstemp` makes a temporary file. -/
def openTemp (host : Host) (up : Upload) : Except ParseError Unit × Upload :=
  match (if up.fs.tree host.tempPath = none then openNew host host.tempPath up.fs else none) with
  | none => (.error (.osError (host.osError .mkstemp)), up)
  | some (fh, fs) => (.ok (), { up with fs := fs, fh := some fh, temp := some host.tempPath })

def openFile (host : Host) (path : Option Str) (up : Upload) : Except ParseError Unit × Upload :=
  if up.fh.isSome then (.ok (), up)
  else
    match path with
    | none | some [] => openTemp host up
    | some path => openPart host path up

/-- The file object the parser writes to. -/
def Host.fileOps (host : Host) : FileOps Upload := ⟨openFile host, Upload.write host⟩

/-- `os.unlink` where an `OSError` is ignored. -/
def unlinkQuietly (p : Option Path) (fs : FileSystem Str) : FileSystem Str :=
  match p with
  | none => fs
  | some p => (fs.unlink p).getD fs

def discardUpload (host : Host) (up : Upload) : Upload :=
  let up := up.closeFile host
  { up with fs := unlinkQuietly up.temp (unlinkQuietly up.part up.fs), part := none, temp := none }

/-! ### The answer -/

inductive Response
  | error (code : Nat) (msg : String)
  | ok (path : Path) (size : Nat)
  /-- An exception that `do_POST` does not catch ends the request without an answer. -/
  | uncaught (exception : String)
  deriving DecidableEq, Repr

/-- A copy of `src`, which is then removed. A file is not copied to itself. -/
def copyFile (src dst : Path) (fs : FileSystem Str) : Option (FileSystem Str) :=
  if fs.tree src = fs.tree dst then none
  else
    match fs.read src, fs.openTrunc dst with
    | some content, some (inode, fs) => (fs.setContent inode content).unlink src
    | _, _ => none

/-- `shutil.move` of a file. An existing directory takes the file under its old name; where a rename fails, as to
another file system, the file is copied. -/
def moveFile (host : Host) (src dst : Path) (fs : FileSystem Str) : Option (FileSystem Str) :=
  let real := if fs.tree dst = some .dir then src.headD [] :: dst else dst
  if fs.tree dst = some .dir ∧ fs.tree real ≠ none then none
  else (if host.sameDevice real then fs.renameFile src real else none).or (copyFile src real fs)

/-- An `OSError` while `up` is published. -/
def publishFailed (host : Host) (call : SystemCall) (up : Upload) : Response × Upload :=
  (.error 500 ("write failed: " ++ host.osError call), discardUpload host up)

/-- The temporary file is moved to `dest`. -/
def publishTemp (host : Host) (dest temp : Path) (size : Nat) (up : Upload) : Response × Upload :=
  match FileSystem.makedirs host.mayMake dest.tail up.fs with
  | (false, fs) => publishFailed host (.makedirs dest.tail) { up with fs := fs }
  | (true, fs) =>
    match (if host.mayPublish dest then moveFile host temp dest fs else none) with
    | none => publishFailed host (.move temp dest) { up with fs := fs }
    | some fs => (.ok dest size, { up with fs := fs, temp := none })

/-- `os.replace(up["part"], dest)`. -/
def publishPart (host : Host) (dest part : Path) (size : Nat) (up : Upload) : Response × Upload :=
  match (if host.mayPublish dest then up.fs.renameFile part dest else none) with
  | none => publishFailed host (.replace part dest) up
  | some fs => (.ok dest size, { up with fs := fs, part := none })

/-- What the body has been parsed to is published. -/
def publish (host : Host) (result : MultipartResult) (up : Upload) : Response × Upload :=
  match result.path with
  | none | some [] => (.error 400 "multipart missing path or file field", discardUpload host up)
  | some path =>
    match host.realpath path with
    | none => (.uncaught "ValueError", up)
    | some dest =>
      match up.temp, up.part with
      | some temp, _ => publishTemp host dest temp result.size up
      | none, some part => publishPart host dest part result.size up
      | none, none => (.uncaught "TypeError", up)

/-- The body is received, parsed and published. -/
def receive (alnum : Char → Bool) (host : Host) (rfile : RFile) (length : Nat) (boundary : Bytes)
    (fs : FileSystem Str) : Response × Upload :=
  match parseMultipartStream alnum rfile length boundary host.fileOps (Upload.init host fs) with
  | (.error (.valueError msg), _, up) => (.error 400 msg, discardUpload host up)
  | (.error (.osError msg), _, up) => (.error 500 ("write failed: " ++ msg), discardUpload host up)
  | (.error .outOfFuel, _, up) => (.uncaught "", up)
  | (.ok result, _, up) => publish host result (up.closeFile host)

/-- `do_POST`: the answer, and the file system afterwards. -/
def doPost (alnum : Char → Bool) (host : Host) (lengthField typeField : Option Str) (rfile : RFile)
    (fs : FileSystem Str) : Response × FileSystem Str :=
  match contentLength lengthField with
  | none => (.error 400 "bad content-length", fs)
  | some length =>
    if length ≤ 0 then (.error 400 "empty body", fs)
    else
      match boundaryFromContentType (typeField.getD []) with
      | none => (.error 400 "multipart boundary missing", fs)
      | some boundary =>
        let out := receive alnum host rfile length.toNat boundary fs
        (out.1, out.2.fs)

end SocketServer.Http
