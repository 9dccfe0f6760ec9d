import SocketServer.Http.Cleanup
import SocketServer.Lib.NewFiles

/-!
# Uploads as file-system calls

A path-first upload is written to `<dest>.part` and renamed, a file-first upload is written to a temporary file and
moved. `pathFirst` and `fileFirst` are the two as sequences of file-system calls, without a parser and without a
buffer. `doPost_pathFirst` and `doPost_fileFirst` say that `do_POST` is one of them on a whole body, when the disk takes
the bytes.
-/

namespace SocketServer.Http

open Text FileSystem

variable {alnum : Char → Bool} {host : Host}

/-! ### Whole bodies -/

/-- The body of the request is whole, and `fields` are its `path` and `file` fields, among fields with other names. -/
def Carries (alnum : Char → Bool) (lengthField typeField : Option Str) (rfile : RFile) (fields : List (Str × Bytes)) :
    Prop :=
  ∃ (length : Nat) (boundary : Bytes), contentLength lengthField = some (length : Int) ∧ 0 < length ∧
    boundaryFromContentType (typeField.getD []) = some boundary ∧ (readParts rfile length boundary).2 = .ok () ∧
    ((readParts rfile length boundary).1.filter (Part.known alnum)).map
      (fun part => (part.name alnum, part.value)) = fields

theorem readPartsLoop_whole (delim : Bytes) (fuel : Nat) (br : BodyReader)
    (h : (readPartsLoop delim fuel br).2 = .ok ()) :
    ∀ part ∈ (readPartsLoop delim fuel br).1, part.ending = .ok () := by
  induction fuel generalizing br with
  | zero => exact List.forall_mem_nil _
  | succ fuel ih =>
    rw [readPartsLoop] at h ⊢
    dsimp only at h ⊢
    split_ifs at h ⊢
    · exact List.forall_mem_nil _
    · rcases hread : readHeaders ((fill 2 br).take 2).2 16384 with ⟨e | block, br'⟩
      all_goals rw [hread] at h
      · exact List.forall_mem_nil _
      dsimp only at h ⊢
      rcases hpart : readPart delim block br' with ⟨⟨block', pieces, e | ⟨⟩⟩, br''⟩
      all_goals rw [hpart] at h
      · cases h
      · intro part hmem
        rcases List.mem_cons.mp hmem with rfl | hmem
        · rfl
        · exact ih br'' h part hmem

theorem readParts_whole {rfile : RFile} {length : Nat} {boundary : Bytes}
    (h : (readParts rfile length boundary).2 = .ok ()) :
    ∀ part ∈ (readParts rfile length boundary).1, part.ending = .ok () := by
  unfold readParts at h ⊢
  dsimp only at h ⊢
  split_ifs at h ⊢
  exact readPartsLoop_whole _ _ _ h

theorem receiveParts_filter {σ : Type} (ops : FileOps σ) {parts : List Part}
    (h : ∀ part ∈ parts, part.ending = .ok ()) (st : ParseState σ) :
    receiveParts alnum ops parts (.ok ()) st =
      receiveParts alnum ops (parts.filter (Part.known alnum)) (.ok ()) st := by
  induction parts generalizing st with
  | nil => rfl
  | cons part parts ih =>
    have hparts := ih fun p hp => h p (List.mem_cons_of_mem _ hp)
    rw [List.filter_cons]
    split_ifs with hknown
    · rw [receiveParts, receiveParts]
      rcases receivePart alnum ops part st with ⟨e | ⟨⟩, st'⟩
      · rfl
      · exact hparts st'
    · rw [Part.known, decide_eq_true_eq, not_or] at hknown
      rw [receiveParts, receivePart, if_neg hknown.1, if_neg hknown.2, h part List.mem_cons_self]
      exact hparts st

/-- The answer when the parts have been received. -/
def answered (host : Host) : Except ParseError Unit × ParseState Upload → Response × Upload
  | (.error (.valueError msg), st) => (.error 400 msg, discardUpload host st.world)
  | (.error (.osError msg), st) => (.error 500 ("write failed: " ++ msg), discardUpload host st.world)
  | (.error .outOfFuel, st) => (.uncaught "", st.world)
  | (.ok (), st) => publish host st.result (st.world.closeFile host)

theorem receive_answered (host : Host) (rfile : RFile) (length : Nat) (boundary : Bytes) (fs : FileSystem Str) :
    receive alnum host rfile length boundary fs =
      answered host (receiveParts alnum host.fileOps (readParts rfile length boundary).1
        (readParts rfile length boundary).2 (ParseState.init (Upload.init host fs))) := by
  obtain ⟨hres, hworld⟩ := parseMultipartStream_eq alnum rfile length boundary host.fileOps (Upload.init host fs)
  unfold receive
  rcases hparse : parseMultipartStream alnum rfile length boundary host.fileOps (Upload.init host fs) with ⟨out, br, up⟩
  rw [hparse] at hres hworld
  rcases hreceived : receiveParts alnum host.fileOps (readParts rfile length boundary).1
    (readParts rfile length boundary).2 (ParseState.init (Upload.init host fs)) with ⟨e | ⟨⟩, st⟩
  all_goals
    rw [hreceived] at hres hworld
    dsimp only at hres hworld
    obtain rfl : out = _ := hres
    obtain rfl : up = st.world := hworld
  · rcases e with msg | msg | _ <;> rfl
  · rfl

/-- What `do_POST` makes of a whole body depends on its `path` and `file` fields. -/
theorem Carries.doPost {lengthField typeField : Option Str} {rfile : RFile} {fields : List (Str × Bytes)}
    (h : Carries alnum lengthField typeField rfile fields) (host : Host) (fs : FileSystem Str) :
    ∃ parts : List Part, (∀ part ∈ parts, part.ending = .ok ()) ∧
      parts.map (fun part => (part.name alnum, part.value)) = fields ∧
      Http.doPost alnum host lengthField typeField rfile fs =
        let out := answered host
          (receiveParts alnum host.fileOps parts (.ok ()) (ParseState.init (Upload.init host fs)))
        (out.1, out.2.fs) := by
  obtain ⟨length, boundary, hlength, hpos, hboundary, hending, hfields⟩ := h
  have hwhole := readParts_whole hending
  refine ⟨_, fun part hpart => hwhole part (List.mem_of_mem_filter hpart), hfields, ?_⟩
  rw [doPost_receive alnum host rfile fs hlength hpos hboundary, receive_answered, hending,
    receiveParts_filter host.fileOps hwhole]

theorem receiveParts_singleton {σ : Type} (ops : FileOps σ) (part : Part) (st : ParseState σ) :
    receiveParts alnum ops [part] (.ok ()) st = receivePart alnum ops part st := by
  rw [receiveParts]
  rcases receivePart alnum ops part st with ⟨e | ⟨⟩, st'⟩ <;> rfl

theorem Carries.doPost_two {lengthField typeField : Option Str} {rfile : RFile} {name name' : Str} {value value' : Bytes}
    (h : Carries alnum lengthField typeField rfile [(name, value), (name', value')]) (host : Host)
    (fs : FileSystem Str) :
    ∃ first second : Part, first.ending = .ok () ∧ second.ending = .ok () ∧
      first.name alnum = name ∧ first.value = value ∧ second.name alnum = name' ∧ second.value = value' ∧
      Http.doPost alnum host lengthField typeField rfile fs =
        let out := answered host
          (match receivePart alnum host.fileOps first (ParseState.init (Upload.init host fs)) with
            | (.ok (), st) => receivePart alnum host.fileOps second st
            | (.error e, st) => (.error e, st))
        (out.1, out.2.fs) := by
  obtain ⟨parts, hwhole, hparts, hanswer⟩ := h.doPost host fs
  obtain ⟨first, rest, rfl, hfirst, hrest⟩ := List.map_eq_cons_iff.mp hparts
  obtain ⟨second, rest, rfl, hsecond, hnil⟩ := List.map_eq_cons_iff.mp hrest
  obtain rfl := List.map_eq_nil_iff.mp hnil
  obtain ⟨hname, hvalue⟩ := Prod.mk.inj hfirst
  obtain ⟨hname', hvalue'⟩ := Prod.mk.inj hsecond
  refine ⟨first, second, hwhole first List.mem_cons_self, hwhole second (List.mem_cons_of_mem _ List.mem_cons_self),
    hname, hvalue, hname', hvalue', hanswer.trans ?_⟩
  rw [receiveParts]
  rcases receivePart alnum host.fileOps first (ParseState.init (Upload.init host fs)) with ⟨e | ⟨⟩, st⟩
  · rfl
  · dsimp only
    rw [receiveParts_singleton]

/-! ### Writing -/

/-- The disk takes the bytes: no write raises, and `close` flushes the buffer. -/
def Host.Quiet (host : Host) : Prop := (∀ outcome ∈ host.writes, outcome.raises = false) ∧ host.close = none

/-- The file object was opened on `inode` in `fs`, and has been handed `s` since. -/
structure Buffered (fs : FileSystem Str) (inode : Nat) (s : Bytes) (up : Upload) : Prop where
  bytes : ∃ flushed pending, flushed ++ pending = s ∧ up.fs = fs.setContent inode flushed ∧
    up.fh = some ⟨inode, flushed.length, pending⟩
  writes : ∀ outcome ∈ up.writes, outcome.raises = false

variable {fs : FileSystem Str} {inode : Nat} {s : Bytes} {up : Upload}

theorem Buffered.opened (hempty : fs.content inode = []) (hfs : up.fs = fs) (hfh : up.fh = some ⟨inode, 0, []⟩)
    (hwrites : ∀ outcome ∈ up.writes, outcome.raises = false) : Buffered fs inode [] up := by
  refine ⟨⟨[], [], rfl, ?_, hfh⟩, hwrites⟩
  rw [hfs, ← hempty, setContent_content]

theorem Buffered.write (host : Host) (h : Buffered fs inode s up) (b : Bytes) :
    ∃ up', up.write host b = (.ok (), up') ∧ Buffered fs inode (s ++ b) up' ∧ up'.part = up.part ∧
      up'.temp = up.temp := by
  obtain ⟨⟨flushed, pending, rfl, hfs, hfh⟩, hwrites⟩ := h
  have hraises : (up.writes.headD ⟨0, false⟩).raises = false := by
    rcases hlist : up.writes with _ | ⟨outcome, others⟩
    · rfl
    · exact hwrites outcome (hlist ▸ List.mem_cons_self)
  set k := (up.writes.headD ⟨0, false⟩).flushed with hk
  have hpwrite : up.fs.pwrite inode flushed.length ((pending ++ b).take k) =
      fs.setContent inode (flushed ++ (pending ++ b).take k) := by
    rw [hfs, FileSystem.pwrite, setContent_self, writeAt_end, setContent_setContent]
  refine ⟨⟨fs.setContent inode (flushed ++ (pending ++ b).take k),
    some ⟨inode, (flushed ++ (pending ++ b).take k).length, (pending ++ b).drop k⟩, up.part, up.temp,
    up.writes.tail⟩, ?_, ⟨⟨_, _, ?_, rfl, rfl⟩, fun outcome hmem => ?_⟩, rfl, rfl⟩
  · unfold Upload.write
    rw [hfh]
    dsimp only [FileObject.flush]
    rw [hraises, ← hk, hpwrite, List.length_append]
    rfl
  · rw [List.append_assoc, List.take_append_drop, List.append_assoc]
  · exact hwrites outcome (List.mem_of_mem_tail hmem)

theorem Buffered.feed (host : Host) (h : Buffered fs inode s up) (ps : List Bytes) :
    ∃ up', SocketServer.Http.feed host.fileOps.write ps up = (.ok (), up') ∧
      Buffered fs inode (s ++ ps.flatten) up' ∧ up'.part = up.part ∧ up'.temp = up.temp := by
  induction ps generalizing s up with
  | nil => exact ⟨up, rfl, by rwa [List.flatten_nil, List.append_nil], rfl, rfl⟩
  | cons b ps ih =>
    obtain ⟨up₁, hwrite, h₁, hpart₁, htemp₁⟩ := h.write host b
    obtain ⟨up₂, hfeed, h₂, hpart₂, htemp₂⟩ := ih h₁
    refine ⟨up₂, ?_, ?_, hpart₂.trans hpart₁, htemp₂.trans htemp₁⟩
    · rw [SocketServer.Http.feed, show host.fileOps.write = Upload.write host from rfl, hwrite]
      exact hfeed
    · rwa [List.flatten_cons, ← List.append_assoc]

theorem Buffered.closeFile (h : Buffered fs inode s up) (hclose : host.close = none) :
    up.closeFile host = { up with fs := fs.setContent inode s, fh := none } := by
  obtain ⟨⟨flushed, pending, rfl, hfs, hfh⟩, -⟩ := h
  unfold Upload.closeFile
  rw [hfh]
  dsimp only [FileObject.flush]
  rw [hclose, Option.getD_none, List.take_length, hfs, FileSystem.pwrite, setContent_self, writeAt_end,
    setContent_setContent]

theorem receiveContent_buffered (host : Host) {part : Part} (hpart : part.ending = .ok ()) (h : Buffered fs inode [] up)
    (result : MultipartResult) :
    ∃ up', receiveContent host.fileOps part result up =
        (.ok (), ⟨{ result with size := part.value.length, fileSeen := true }, true, up'⟩) ∧
      Buffered fs inode part.value up' ∧ up'.part = up.part ∧ up'.temp = up.temp := by
  obtain ⟨up', hfeed, hbuffered, hnames⟩ := h.feed host part.pieces
  obtain ⟨hres, hworld, hsize⟩ := fileSink_feed host.fileOps part.pieces 0 up
  refine ⟨up', ?_, hbuffered, hnames⟩
  rw [hfeed] at hres hworld hsize
  unfold receiveContent Part.deliver
  rcases hout : SocketServer.Http.feed host.fileOps.sink part.pieces (0, up) with ⟨res, n, world⟩
  rw [hout] at hres hworld hsize
  obtain rfl : res = .ok () := hres
  obtain rfl : world = up' := hworld
  obtain rfl : n = 0 + part.pieces.flatten.length := hsize rfl
  dsimp only
  rw [hpart, Nat.zero_add]
  rfl

theorem receivePath_eq {part : Part} (hpart : part.ending = .ok ()) (st : ParseState Upload) :
    receivePath part st =
      if 4096 < part.value.length then (.error (.valueError "field value too large"), st)
      else (.ok (), { st with result := { st.result with path := some (decodeUtf8 part.value) } }) := by
  obtain ⟨hok, hover⟩ := capSink_feed part.pieces ⟨[], 0⟩ 4096 rfl
  rw [Nat.zero_add] at hok hover
  unfold receivePath Part.deliver
  split_ifs with hlong
  · have herror := hover hlong (Nat.zero_le _)
    rcases hfeed : SocketServer.Http.feed (CapSink.call 4096) part.pieces ⟨[], 0⟩ with ⟨res, sink⟩
    rw [hfeed] at herror
    obtain rfl : res = _ := herror
    rfl
  · rw [hok (Nat.le_of_not_lt hlong)]
    dsimp only
    rw [hpart]
    rfl

/-! ### The two orders as system calls -/

def writeFailed (host : Host) (call : SystemCall) : Response := .error 500 ("write failed: " ++ host.osError call)

/-- The file is written to `<dest>.part`, which is renamed. -/
def renamePart (host : Host) (dest : Path) (content : Bytes) (fs : FileSystem Str) : Response × FileSystem Str :=
  match (if host.mayOpen (partPath dest) then fs.openTrunc (partPath dest) else none) with
  | none => (writeFailed host (.openPart (partPath dest)), fs)
  | some (inode, fs) =>
    let fs := fs.setContent inode content
    match (if host.mayPublish dest then fs.renameFile (partPath dest) dest else none) with
    | none => (writeFailed host (.replace (partPath dest) dest), unlinkQuietly (some (partPath dest)) fs)
    | some fs => (.ok dest content.length, fs)

def storeByPart (host : Host) (dest : Path) (content : Bytes) (fs : FileSystem Str) : Response × FileSystem Str :=
  match makedirs host.mayMake dest.tail fs with
  | (false, fs) => (writeFailed host (.makedirs dest.tail), fs)
  | (true, fs) => renamePart host dest content fs

/-- The temporary file, with its content, is moved. -/
def moveTemp (host : Host) (dest : Path) (content : Bytes) (fs : FileSystem Str) : Response × FileSystem Str :=
  match (if host.mayPublish dest then moveFile host host.tempPath dest fs else none) with
  | none => (writeFailed host (.move host.tempPath dest), unlinkQuietly (some host.tempPath) fs)
  | some fs => (.ok dest content.length, fs)

def storeByTemp (host : Host) (dest : Path) (content : Bytes) (fs : FileSystem Str) : Response × FileSystem Str :=
  match makedirs host.mayMake dest.tail fs with
  | (false, fs) => (writeFailed host (.makedirs dest.tail), unlinkQuietly (some host.tempPath) fs)
  | (true, fs) => moveTemp host dest content fs

/-- An upload with the `path` before the `file`. -/
def pathFirst (host : Host) (path content : Bytes) (fs : FileSystem Str) : Response × FileSystem Str :=
  if 4096 < path.length then (.error 400 "field value too large", fs)
  else
    match host.realpath (decodeUtf8 path) with
    | none => (.error 400 "embedded null byte", fs)
    | some dest => storeByPart host dest content fs

/-- `mkstemp` can make the temporary file. -/
def TempWorks (host : Host) (fs : FileSystem Str) : Prop :=
  fs.tree host.tempPath = none ∧ fs.tree host.tempPath.tail = some .dir ∧ host.mayOpen host.tempPath = true

instance (host : Host) (fs : FileSystem Str) : Decidable (TempWorks host fs) :=
  inferInstanceAs (Decidable (_ ∧ _ ∧ _))

/-- An upload with the `file` before the `path`. -/
def fileFirst (host : Host) (path content : Bytes) (fs : FileSystem Str) : Response × FileSystem Str :=
  if TempWorks host fs then
    let made := fs.addFile host.tempPath content
    if 4096 < path.length then (.error 400 "field value too large", unlinkQuietly (some host.tempPath) made)
    else
      match host.realpath (decodeUtf8 path) with
      | none => (.uncaught "ValueError", made)
      | some dest => storeByTemp host dest content made
  else (writeFailed host .mkstemp, fs)

theorem receiveFile_opens {σ : Type} (ops : FileOps σ) (part : Part) (result : MultipartResult) (world : σ) :
    receiveFile ops part ⟨result, false, world⟩ =
      let result := { result with filename := (searchFilename (decodeUtf8 part.block)).or result.filename }
      match ops.openFile result.path world with
      | (.ok (), world) => receiveContent ops part result world
      | (.error e, world) => (.error e, ⟨result, false, world⟩) := rfl

theorem receiveFile_store (hquiet : host.Quiet) {path : Str} (hpath : path ≠ []) {dest : Path}
    (hdest : host.realpath path = some dest) {part : Part} (hpart : part.ending = .ok ()) (fs : FileSystem Str)
    {result : MultipartResult} (hresult : result.path = some path) :
    let out := answered host (receiveFile host.fileOps part ⟨result, false, Upload.init host fs⟩)
    (out.1, out.2.fs) = storeByPart host dest part.value fs := by
  obtain ⟨hwrites, hclose⟩ := hquiet
  obtain ⟨c, cs, rfl⟩ := List.exists_cons_of_ne_nil hpath
  have hcall : host.fileOps.openFile (some (c :: cs)) (Upload.init host fs) =
      openPart host (c :: cs) (Upload.init host fs) := rfl
  unfold storeByPart renamePart
  rw [receiveFile_opens]
  dsimp only
  rw [hresult, hcall, openPart, hdest]
  dsimp only
  rw [show (Upload.init host fs).fs = fs from rfl]
  rcases makedirs host.mayMake dest.tail fs with ⟨_ | _, fs₁⟩
  · rfl
  dsimp only [openNew]
  rcases hopen : (if host.mayOpen (partPath dest) then fs₁.openTrunc (partPath dest) else none) with _ | ⟨inode, fs₂⟩
  · rfl
  have hempty : fs₂.content inode = [] := by
    split_ifs at hopen
    exact (openTrunc_spec hopen).empty
  dsimp only [Option.map_some]
  have hopened : Buffered fs₂ inode [] ⟨fs₂, some ⟨inode, 0, []⟩, some (partPath dest), none, host.writes⟩ :=
    .opened hempty rfl rfl hwrites
  obtain ⟨up, hreceive, hbuffered, hup, htemp⟩ := receiveContent_buffered host hpart hopened
    { result with filename := (searchFilename (decodeUtf8 part.block)).or result.filename }
  rw [show (Upload.init host fs).temp = none from rfl, show (Upload.init host fs).writes = host.writes from rfl,
    ← hresult, hreceive]
  dsimp only [answered]
  rw [hbuffered.closeFile hclose, publish, hresult]
  dsimp only
  rw [hdest, htemp, hup]
  dsimp only [publishPart]
  rcases (if host.mayPublish dest then (fs₂.setContent inode part.value).renameFile (partPath dest) dest else none)
    with _ | fs₃
  · rfl
  · rfl

theorem openTemp_eq (host : Host) (fs : FileSystem Str) :
    openTemp host (Upload.init host fs) =
      if TempWorks host fs then
        (.ok (), ⟨fs.create host.tempPath, some ⟨fs.next, 0, []⟩, none, some host.tempPath, host.writes⟩)
      else (.error (.osError (host.osError .mkstemp)), Upload.init host fs) := by
  unfold openTemp openNew
  rw [show (Upload.init host fs).fs = fs from rfl]
  by_cases hworks : TempWorks host fs
  · obtain ⟨habsent, hdir, hmay⟩ := hworks
    rw [if_pos habsent, if_pos hmay, openTrunc_of_absent habsent hdir, if_pos ⟨habsent, hdir, hmay⟩]
    rfl
  rw [if_neg hworks]
  by_cases habsent : fs.tree host.tempPath = none
  swap
  · rw [if_neg habsent]
  rw [if_pos habsent]
  by_cases hmay : host.mayOpen host.tempPath = true
  · have hdir : ¬ fs.tree host.tempPath.tail = some .dir := fun hdir => hworks ⟨habsent, hdir, hmay⟩
    rw [if_pos hmay, openTrunc, habsent]
    dsimp only
    rw [if_neg hdir]
    rfl
  · rw [if_neg hmay]
    rfl

theorem receivePath_store (hclose : host.close = none) {path : Bytes} (hpath : path ≠ []) {part : Part}
    (hpart : part.ending = .ok ()) (hvalue : part.value = path) {content : Bytes} {result : MultipartResult}
    (hsize : result.size = content.length) (h : Buffered (fs.create host.tempPath) fs.next content up)
    (hup : up.part = none) (htemp : up.temp = some host.tempPath) :
    let made := fs.addFile host.tempPath content
    let out := answered host (receivePath part ⟨result, true, up⟩)
    (out.1, out.2.fs) =
      if 4096 < path.length then (.error 400 "field value too large", unlinkQuietly (some host.tempPath) made)
      else
        match host.realpath (decodeUtf8 path) with
        | none => (.uncaught "ValueError", made)
        | some dest => storeByTemp host dest content made := by
  have hclosed := h.closeFile hclose
  obtain ⟨c, cs, hdecoded⟩ := List.exists_cons_of_ne_nil (mt decodeUtf8_eq_nil.mp hpath)
  dsimp only
  rw [receivePath_eq hpart, hvalue]
  split_ifs
  · dsimp only [answered]
    rw [discardUpload, hclosed, hup, htemp]
    rfl
  dsimp only [answered]
  rw [hclosed, publish, hdecoded]
  dsimp only
  rcases host.realpath (c :: cs) with _ | dest
  · rfl
  dsimp only
  rw [htemp, hup, hsize]
  dsimp only [publishTemp]
  unfold storeByTemp moveTemp
  rw [show (fs.create host.tempPath).setContent fs.next content = fs.addFile host.tempPath content from rfl]
  rcases makedirs host.mayMake dest.tail (fs.addFile host.tempPath content) with ⟨_ | _, fs₁⟩
  · rfl
  dsimp only
  rcases (if host.mayPublish dest then moveFile host host.tempPath dest fs₁ else none) with _ | fs₂
  · rfl
  · rfl

variable {lengthField typeField : Option Str} {rfile : RFile} {path content : Bytes}

theorem doPost_pathFirst (hquiet : host.Quiet) (hpath : path ≠ []) (fs : FileSystem Str)
    (h : Carries alnum lengthField typeField rfile
      [(['p', 'a', 't', 'h'], path), (['f', 'i', 'l', 'e'], content)]) :
    doPost alnum host lengthField typeField rfile fs = pathFirst host path content fs := by
  obtain ⟨pathPart, filePart, hpathPart, hfilePart, hname, rfl, hname', rfl, hanswer⟩ := h.doPost_two host fs
  have hfile : filePart.name alnum ≠ ['p', 'a', 't', 'h'] := by
    rw [hname']
    decide
  have hdecoded := mt decodeUtf8_eq_nil.mp hpath
  rw [hanswer, receivePart, if_pos hname, receivePath_eq hpathPart, pathFirst]
  split_ifs
  · rfl
  dsimp only
  rw [receivePart, if_neg hfile, if_pos hname']
  rcases hdest : host.realpath (decodeUtf8 pathPart.value) with _ | dest
  · obtain ⟨c, cs, hcons⟩ := List.exists_cons_of_ne_nil hdecoded
    have hcall : host.fileOps.openFile (some (decodeUtf8 pathPart.value)) (Upload.init host fs) =
        openPart host (decodeUtf8 pathPart.value) (Upload.init host fs) := by
      rw [hcons]
      rfl
    dsimp only [ParseState.init]
    rw [receiveFile_opens]
    dsimp only
    rw [hcall, openPart, hdest]
    rfl
  · exact receiveFile_store hquiet hdecoded hdest hfilePart fs rfl

theorem doPost_fileFirst (hquiet : host.Quiet) (hpath : path ≠ []) (fs : FileSystem Str)
    (h : Carries alnum lengthField typeField rfile
      [(['f', 'i', 'l', 'e'], content), (['p', 'a', 't', 'h'], path)]) :
    doPost alnum host lengthField typeField rfile fs = fileFirst host path content fs := by
  obtain ⟨filePart, pathPart, hfilePart, hpathPart, hname, rfl, hname', rfl, hanswer⟩ := h.doPost_two host fs
  have hfile : filePart.name alnum ≠ ['p', 'a', 't', 'h'] := by
    rw [hname]
    decide
  have hcall : host.fileOps.openFile none (Upload.init host fs) = openTemp host (Upload.init host fs) := rfl
  rw [hanswer, receivePart, if_neg hfile, if_pos hname, ParseState.init, receiveFile_opens, fileFirst]
  dsimp only
  rw [hcall, openTemp_eq]
  by_cases hworks : TempWorks host fs
  swap
  · rw [if_neg hworks, if_neg hworks]
    rfl
  have hopened : Buffered (fs.create host.tempPath) fs.next []
      ⟨fs.create host.tempPath, some ⟨fs.next, 0, []⟩, none, some host.tempPath, host.writes⟩ :=
    .opened (setContent_self fs fs.next []) rfl rfl hquiet.1
  obtain ⟨up, hreceive, hbuffered, hup, htemp⟩ := receiveContent_buffered host hfilePart hopened
    ⟨none, 0, (searchFilename (decodeUtf8 filePart.block)).or none, false⟩
  rw [if_pos hworks, if_pos hworks]
  dsimp only
  rw [hreceive]
  dsimp only
  rw [receivePart, if_pos hname']
  exact receivePath_store hquiet.2 hpath hpathPart rfl rfl hbuffered hup htemp

end SocketServer.Http
