import SocketServer.Http.Upload

/-!
# Uploads on a failing disk

While a path-first upload is received, the file `<dest>.part` followed by the buffer of the file object holds what
the parser has handed over (`Holds`), whichever writes raise. A raising write ends the upload with an error. A
raising `close` does not: its `OSError` is ignored, the bytes still buffered are gone, and the short file is
published. `doPost_ok_iff` says when an upload answered 200 holds the whole file field: exactly when the close
before it is published fails with nothing left in the buffer, or not at all.
-/

namespace SocketServer.Http

open Text

/-! ### The file and the buffer -/

/-- `part` is open on `fh`, and its file followed by the buffer is `s`. -/
structure Holds (up : Upload) (part : Path) (fh : FileObject) (s : Bytes) : Prop where
  isOpen : up.fh = some fh
  entry : up.fs.tree part = some (.file fh.inode)
  off : fh.off = (up.fs.content fh.inode).length
  bytes : up.fs.content fh.inode ++ fh.pending = s
  part : up.part = some part
  temp : up.temp = none

theorem pwrite_off {fs : FileSystem Str} {fh : FileObject} (h : fh.off = (fs.content fh.inode).length) (b : Bytes) :
    (fs.pwrite fh.inode fh.off b).content fh.inode = fs.content fh.inode ++ b := by
  rw [FileSystem.pwrite, FileSystem.setContent_self, h, FileSystem.writeAt_end]

variable {host : Host} {up up' : Upload} {part : Path} {fh : FileObject} {s : Bytes}

theorem write_holds (host : Host) (h : Holds up part fh s) (b : Bytes) :
    ∃ fh', Holds (up.write host b).2 part fh' (s ++ b) := by
  have hcontent := fun k => pwrite_off h.off ((fh.pending ++ b).take k)
  unfold Upload.write
  rw [h.isOpen]
  dsimp only [FileObject.flush]
  refine ⟨_, rfl, h.entry, ?_, ?_, h.part, h.temp⟩
  · dsimp only
    rw [hcontent, List.length_append, ← h.off]
  · dsimp only
    rw [hcontent, List.append_assoc, List.take_append_drop, ← List.append_assoc, h.bytes]

theorem feed_holds (h : Holds up part fh s) (ps : List Bytes)
    (hfeed : feed host.fileOps.write ps up = (.ok (), up')) : ∃ fh', Holds up' part fh' (s ++ ps.flatten) := by
  induction ps generalizing up fh s with
  | nil =>
    obtain rfl : up = up' := (Prod.mk.inj hfeed).2
    exact ⟨fh, by rwa [List.flatten_nil, List.append_nil]⟩
  | cons p ps ih =>
    obtain ⟨fh₁, h₁⟩ := write_holds host h p
    rw [feed, show host.fileOps.write = Upload.write host from rfl] at hfeed
    rcases hwrite : up.write host p with ⟨e | ⟨⟩, up₁⟩
    · rw [hwrite] at hfeed
      cases (Prod.mk.inj hfeed).1
    · rw [hwrite] at hfeed h₁
      rw [List.flatten_cons, ← List.append_assoc]
      exact ih h₁ hfeed

theorem openPart_calls {path : Str} (hpart : openPart host path up = (.ok (), up')) :
    ∃ dest fs₁ inode fs₂, host.realpath path = some dest ∧
      FileSystem.makedirs host.mayMake dest.tail up.fs = (true, fs₁) ∧
      fs₁.openTrunc (partPath dest) = some (inode, fs₂) ∧
      up' = { up with fs := fs₂, fh := some ⟨inode, 0, []⟩, part := some (partPath dest) } := by
  unfold openPart at hpart
  rcases hdest : host.realpath path with _ | dest
  · rw [hdest] at hpart
    cases (Prod.mk.inj hpart).1
  rw [hdest] at hpart
  dsimp only at hpart
  rcases hmake : FileSystem.makedirs host.mayMake dest.tail up.fs with ⟨_ | _, fs₁⟩
  · rw [hmake] at hpart
    cases (Prod.mk.inj hpart).1
  rw [hmake] at hpart
  dsimp only at hpart
  rcases hopen : openNew host (partPath dest) fs₁ with _ | ⟨fh, fs₂⟩
  · rw [hopen] at hpart
    cases (Prod.mk.inj hpart).1
  rw [hopen] at hpart
  obtain rfl := (Prod.mk.inj hpart).2
  obtain ⟨⟨inode, fs₂⟩, htrunc, heq⟩ := Option.map_eq_some_iff.mp hopen
  obtain ⟨rfl, rfl⟩ := Prod.mk.inj heq
  split_ifs at htrunc
  exact ⟨dest, fs₁, inode, fs₂, rfl, hmake, htrunc, rfl⟩

theorem openPart_holds {path : Str} (hpart : openPart host path up = (.ok (), up')) (htemp : up.temp = none) :
    ∃ dest fh, host.realpath path = some dest ∧ Holds up' (partPath dest) fh [] := by
  obtain ⟨dest, fs₁, inode, fs₂, hdest, -, htrunc, rfl⟩ := openPart_calls hpart
  have hopened := FileSystem.openTrunc_spec htrunc
  refine ⟨dest, ⟨inode, 0, []⟩, hdest, rfl, hopened.entry, ?_, ?_, rfl, htemp⟩
  · dsimp only
    rw [hopened.empty, List.length_nil]
  · dsimp only
    rw [hopened.empty, List.append_nil]

/-- The `close` of `up` raises with bytes left in the buffer. -/
def CloseLoses (host : Host) (up : Upload) : Prop :=
  ∃ fh k, up.fh = some fh ∧ host.close = some k ∧ k < fh.pending.length

theorem closeFile_tree (host : Host) (up : Upload) : (up.closeFile host).fs.tree = up.fs.tree := by
  unfold Upload.closeFile
  rcases up.fh with _ | fh <;> rfl

theorem closeFile_part (host : Host) (up : Upload) :
    (up.closeFile host).part = up.part ∧ (up.closeFile host).temp = up.temp := by
  unfold Upload.closeFile
  rcases up.fh with _ | fh <;> exact ⟨rfl, rfl⟩

theorem closeFile_content (h : Holds up part fh s) :
    (up.closeFile host).fs.content fh.inode = s ↔ ¬ CloseLoses host up := by
  have hclose : (up.closeFile host).fs.content fh.inode =
      up.fs.content fh.inode ++ fh.pending.take (host.close.getD fh.pending.length) := by
    unfold Upload.closeFile
    rw [h.isOpen]
    exact pwrite_off h.off _
  rw [hclose, ← h.bytes, List.append_right_inj, List.take_eq_self_iff]
  constructor
  · rintro hle ⟨fh', k, hfh, hk, hlt⟩
    rw [h.isOpen] at hfh
    cases hfh
    rw [hk, Option.getD_some] at hle
    omega
  · intro hkeeps
    rcases hk : host.close with _ | k
    · exact le_rfl
    · by_contra hlt
      exact hkeeps ⟨fh, k, h.isOpen, hk, not_le.mp hlt⟩

/-! ### Path-first uploads -/

/-- A field the parser does not skip. -/
def known (alnum : Char → Bool) (field : Field) : Bool :=
  fieldName alnum (decodeUtf8 field.block) = ['p', 'a', 't', 'h'] ∨
    fieldName alnum (decodeUtf8 field.block) = ['f', 'i', 'l', 'e']

/-- One `path` field and then one `file` field, among fields with other names. -/
def PathFirst (alnum : Char → Bool) (fields : List Field) (path file : Bytes) : Prop :=
  ∃ pathBlock fileBlock, fields.filter (known alnum) = [⟨pathBlock, path⟩, ⟨fileBlock, file⟩] ∧
    fieldName alnum (decodeUtf8 pathBlock) = ['p', 'a', 't', 'h'] ∧
    fieldName alnum (decodeUtf8 fileBlock) = ['f', 'i', 'l', 'e']

theorem foldlM_known (alnum : Char → Bool) (fields : List Field) (acc : RefState) :
    fields.foldlM (refField alnum) acc = (fields.filter (known alnum)).foldlM (refField alnum) acc := by
  induction fields generalizing acc with
  | nil => rfl
  | cons field fields ih =>
    rw [List.filter_cons]
    split_ifs with hknown
    · rw [List.foldlM_cons, List.foldlM_cons]
      rcases refField alnum acc field with _ | acc'
      · rfl
      · exact ih acc'
    · rw [known, decide_eq_true_eq, not_or] at hknown
      rw [List.foldlM_cons, refField, if_neg hknown.1, if_neg hknown.2]
      exact ih acc

variable {alnum : Char → Bool} {boundary body path file : Bytes} {fields : List Field}

theorem refParse_pathFirst (hfields : refBody boundary body = some fields) (h : PathFirst alnum fields path file) :
    ∀ r, refParse alnum boundary body = some r →
      r.result.path = some (decodeUtf8 path) ∧ r.result.size = file.length ∧
        r.opened = some (some (decodeUtf8 path)) ∧ r.written = file := by
  obtain ⟨pathBlock, fileBlock, hfilter, hpath, hfile⟩ := h
  intro r hr
  have hfile' : ¬ fieldName alnum (decodeUtf8 fileBlock) = ['p', 'a', 't', 'h'] := by
    rw [hfile]
    decide
  rw [refParse, hfields, Option.bind_some, foldlM_known, hfilter, List.foldlM_cons] at hr
  dsimp only [refField] at hr
  rw [if_pos hpath, refPath] at hr
  split_ifs at hr
  · rw [Option.bind_eq_bind, Option.bind_some, List.foldlM_cons] at hr
    dsimp only [refField] at hr
    rw [if_neg hfile', if_pos hfile] at hr
    obtain rfl := Option.some.inj hr
    exact ⟨rfl, rfl, rfl, rfl⟩
  · cases hr

theorem parse_calls (rfile : RFile) (length : Nat) (fs : FileSystem Str) (hcr : 0x0D ∉ boundary)
    (hfields : refBody boundary (rfile.data.take length) = some fields) (h : PathFirst alnum fields path file)
    {result : MultipartResult} {br : BodyReader}
    (hparse : parseMultipartStream alnum rfile length boundary host.fileOps (Upload.init host fs) =
      (.ok result, br, up)) :
    result.path = some (decodeUtf8 path) ∧ result.size = file.length ∧
      (decodeUtf8 path ≠ [] → ∃ up₁ pieces, openPart host (decodeUtf8 path) (Upload.init host fs) = (.ok (), up₁) ∧
        feed host.fileOps.write pieces up₁ = (.ok (), up) ∧ pieces.flatten = file) := by
  obtain ⟨tr, -, hworld, herr, hok⟩ :=
    parseMultipartStream_trace host.fileOps alnum rfile length (Upload.init host fs) hcr
  rw [hparse] at hworld herr hok
  dsimp only at hworld herr hok
  rcases hrun : tr.run host.fileOps (Upload.init host fs) with ⟨e | ⟨⟩, up'⟩
  · cases herr e (by rw [hrun])
  rw [hrun] at hworld hok
  obtain rfl : up = up' := hworld
  have hout := hok rfl
  unfold ParseOutcome at hout
  rcases href : refParse alnum boundary (rfile.data.take length) with _ | r
  · rw [href] at hout
    obtain ⟨msg, hmsg⟩ := hout
    cases hmsg
  rw [href] at hout
  rcases hout with ⟨hres, hopened, hwritten⟩ | ⟨⟨msg, hmsg⟩, -⟩
  swap
  · cases hmsg
  obtain rfl := Except.ok.inj hres
  obtain ⟨hpath, hsize, hopen, hfile⟩ := refParse_pathFirst hfields h r href
  refine ⟨hpath, hsize, fun hne => ?_⟩
  unfold Trace.run at hrun
  rw [← hopened, hopen] at hrun
  dsimp only at hrun
  have hcall : host.fileOps.openFile (some (decodeUtf8 path)) (Upload.init host fs) =
      openPart host (decodeUtf8 path) (Upload.init host fs) := by
    rcases hdecoded : decodeUtf8 path with _ | ⟨c, cs⟩
    · exact absurd hdecoded hne
    · rfl
  rw [hcall] at hrun
  rcases hpart : openPart host (decodeUtf8 path) (Upload.init host fs) with ⟨e | ⟨⟩, up₁⟩
  · rw [hpart] at hrun
    cases (Prod.mk.inj hrun).1
  rw [hpart] at hrun
  exact ⟨up₁, tr.pieces, rfl, hrun, by rw [← hwritten, hfile]⟩

/-- **A path-first upload that the parser accepts** is in `<dest>.part` and the buffer of its file object. -/
theorem parse_pathFirst (rfile : RFile) (length : Nat) (fs : FileSystem Str) (hcr : 0x0D ∉ boundary)
    (hfields : refBody boundary (rfile.data.take length) = some fields) (h : PathFirst alnum fields path file)
    {result : MultipartResult} {br : BodyReader}
    (hparse : parseMultipartStream alnum rfile length boundary host.fileOps (Upload.init host fs) =
      (.ok result, br, up)) :
    result.path = some (decodeUtf8 path) ∧ result.size = file.length ∧
      (decodeUtf8 path ≠ [] → ∃ dest fh, host.realpath (decodeUtf8 path) = some dest ∧
        Holds up (partPath dest) fh file) := by
  obtain ⟨hpath, hsize, hcalls⟩ := parse_calls rfile length fs hcr hfields h hparse
  refine ⟨hpath, hsize, fun hne => ?_⟩
  obtain ⟨up₁, pieces, hpart, hfeed, hflatten⟩ := hcalls hne
  obtain ⟨dest, fh, hdest, hholds⟩ := openPart_holds hpart rfl
  obtain ⟨fh', hholds'⟩ := feed_holds hholds pieces hfeed
  rw [List.nil_append, hflatten] at hholds'
  exact ⟨dest, fh', hdest, hholds'⟩

/-! ### What an answer 200 says -/

/-- Whenever the parser accepts the body and `os.replace` can then succeed, `close` loses nothing. -/
def ClosesWhole (host : Host) (out : Except ParseError MultipartResult × BodyReader × Upload) : Prop :=
  ∀ result path dest part, out.1 = .ok result → result.path = some path → path ≠ [] →
    host.realpath path = some dest → out.2.2.part = some part → host.mayPublish dest = true →
    (out.2.2.fs.renameFile part dest).isSome = true → ¬ CloseLoses host out.2.2

theorem publishPart_ok {dest part : Path} {size : Nat} {dest' : Path} {size' : Nat}
    (h : (publishPart host dest part size up).1 = .ok dest' size') :
    dest' = dest ∧ size' = size ∧ host.mayPublish dest = true ∧
      up.fs.renameFile part dest = some (publishPart host dest part size up).2.fs := by
  unfold publishPart at h ⊢
  split_ifs at h ⊢ with hmay
  · rcases hrename : up.fs.renameFile part dest with _ | fs
    · rw [hrename] at h
      cases h
    · rw [hrename] at h
      cases h
      exact ⟨rfl, rfl, hmay, rfl⟩
  · cases h

theorem publish_part {result : MultipartResult} {p : Str} {dest part : Path} (hpath : result.path = some p)
    (hne : p ≠ []) (hdest : host.realpath p = some dest) (hpart : up.part = some part) (htemp : up.temp = none) :
    publish host result up = publishPart host dest part result.size up := by
  unfold publish
  rw [hpath]
  rcases p with _ | ⟨c, cs⟩
  · exact absurd rfl hne
  · dsimp only
    rw [hdest, htemp, hpart]

/-- Publishing after `close`: the answer 200 tells the truth if and only if a `close` that `os.replace` can follow
loses nothing. -/
theorem publishPart_whole_iff {dest : Path} (h : Holds up part fh s) (size : Nat) :
    (∀ dest' size', (publishPart host dest part size (up.closeFile host)).1 = .ok dest' size' →
        (publishPart host dest part size (up.closeFile host)).2.fs.read dest' = some s ∧ size' = size) ↔
      (host.mayPublish dest = true → (up.fs.renameFile part dest).isSome = true → ¬ CloseLoses host up) := by
  have htree := closeFile_tree host up
  have hentry : (up.closeFile host).fs.tree part = some (.file fh.inode) := by rw [htree, h.entry]
  have hread : ∀ fs', (up.closeFile host).fs.renameFile part dest = some fs' →
      fs'.read dest = some ((up.closeFile host).fs.content fh.inode) := by
    intro fs' hrename
    obtain ⟨inode, hrenamed⟩ := FileSystem.renameFile_spec hrename
    have hsource := hrenamed.source
    rw [hentry] at hsource
    cases hsource
    exact hrenamed.read
  rw [← FileSystem.renameFile_isSome_congr htree]
  constructor
  · intro hok hmay hrename
    obtain ⟨fs', hfs'⟩ := Option.isSome_iff_exists.mp hrename
    have hanswer : publishPart host dest part size (up.closeFile host) =
        (.ok dest size, { up.closeFile host with fs := fs', part := none }) := by
      rw [publishPart, if_pos hmay, hfs']
    rw [hanswer] at hok
    have hfile := (hok dest size rfl).1
    rw [hread fs' hfs'] at hfile
    exact (closeFile_content h).mp (Option.some.inj hfile)
  · intro hwhole dest' size' hanswer
    obtain ⟨rfl, rfl, hmay, hrename⟩ := publishPart_ok hanswer
    refine ⟨?_, rfl⟩
    have hkeeps := hwhole hmay (by rw [hrename]; rfl)
    rw [hread _ hrename, (closeFile_content h).mpr hkeeps]

theorem publish_pathFirst (rfile : RFile) (length : Nat) (fs : FileSystem Str) (hcr : 0x0D ∉ boundary)
    (hfields : refBody boundary (rfile.data.take length) = some fields) (h : PathFirst alnum fields path file)
    {result : MultipartResult} {br : BodyReader}
    (hparse : parseMultipartStream alnum rfile length boundary host.fileOps (Upload.init host fs) =
      (.ok result, br, up)) (hne : decodeUtf8 path ≠ []) :
    ∃ dest fh, host.realpath (decodeUtf8 path) = some dest ∧ Holds up (partPath dest) fh file ∧
      publish host result (up.closeFile host) =
        publishPart host dest (partPath dest) file.length (up.closeFile host) := by
  obtain ⟨hpath, hsize, hopen⟩ := parse_pathFirst rfile length fs hcr hfields h hparse
  obtain ⟨dest, fh, hdest, hholds⟩ := hopen hne
  obtain ⟨hpart, htemp⟩ := closeFile_part host up
  refine ⟨dest, fh, hdest, hholds, ?_⟩
  rw [← hsize]
  exact publish_part hpath hne hdest (hpart.trans hholds.part) (htemp.trans hholds.temp)

theorem publish_empty {result : MultipartResult} (hpath : result.path = some []) (dest : Path) (size : Nat) :
    (publish host result up).1 ≠ .ok dest size := by
  rw [publish, hpath]
  exact fun h => by cases h

theorem publishTemp_size {host : Host} {dest temp dest' : Path} {size size' : Nat} {up : Upload}
    (h : (publishTemp host dest temp size up).1 = .ok dest' size') : size' = size := by
  unfold publishTemp at h
  split at h
  · cases h
  · split at h
    · cases h
    · cases h
      rfl

theorem publish_size {host : Host} {result : MultipartResult} {up : Upload} {dest : Path} {size : Nat}
    (h : (publish host result up).1 = .ok dest size) : size = result.size := by
  unfold publish at h
  split at h
  · cases h
  · cases h
  · split at h
    · cases h
    · split at h
      · exact publishTemp_size h
      · exact (publishPart_ok h).2.1
      · cases h

theorem receive_refused {rfile : RFile} {length : Nat} {fs : FileSystem Str} {e : ParseError} {br : BodyReader}
    (hparse : parseMultipartStream alnum rfile length boundary host.fileOps (Upload.init host fs) =
      (.error e, br, up)) (dest : Path) (size : Nat) :
    (receive alnum host rfile length boundary fs).1 ≠ .ok dest size := by
  rw [receive, hparse]
  rcases e with msg | msg | _ <;> exact fun h => by cases h

theorem receive_accepted {rfile : RFile} {length : Nat} {fs : FileSystem Str} {result : MultipartResult}
    {br : BodyReader}
    (hparse : parseMultipartStream alnum rfile length boundary host.fileOps (Upload.init host fs) =
      (.ok result, br, up)) :
    receive alnum host rfile length boundary fs = publish host result (up.closeFile host) := by
  rw [receive, hparse]

theorem doPost_receive (alnum : Char → Bool) (host : Host) {lengthField typeField : Option Str} (rfile : RFile)
    (fs : FileSystem Str) {length : Nat} (hlength : contentLength lengthField = some (length : Int))
    (hpos : 0 < length) (hboundary : boundaryFromContentType (typeField.getD []) = some boundary) :
    doPost alnum host lengthField typeField rfile fs =
      ((receive alnum host rfile length boundary fs).1, (receive alnum host rfile length boundary fs).2.fs) := by
  unfold doPost
  rw [hlength, hboundary]
  dsimp only
  rw [if_neg (by omega), Int.toNat_natCast]

theorem doPost_ok_accepted {alnum : Char → Bool} {host : Host} {lengthField typeField : Option Str} {rfile : RFile}
    {fs : FileSystem Str} {length : Nat} {boundary : Bytes} (hlength : contentLength lengthField = some (length : Int))
    (hboundary : boundaryFromContentType (typeField.getD []) = some boundary) {dest : Path} {size : Nat}
    (hok : (doPost alnum host lengthField typeField rfile fs).1 = .ok dest size) :
    ∃ result, (parseMultipartStream alnum rfile length boundary host.fileOps (Upload.init host fs)).1 = .ok result ∧
      size = result.size := by
  rcases Nat.eq_zero_or_pos length with rfl | hpos
  · rw [doPost, hlength] at hok
    cases hok
  · rw [doPost_receive alnum host rfile fs hlength hpos hboundary] at hok
    rcases hparse : parseMultipartStream alnum rfile length boundary host.fileOps (Upload.init host fs) with
      ⟨e | result, br, up⟩
    · exact absurd hok (receive_refused hparse dest size)
    · rw [receive_accepted hparse] at hok
      exact ⟨result, rfl, publish_size hok⟩

/-- **An answer 200 means that the destination holds the file field**, for a path-first upload, if and only if the
close before `os.replace` loses nothing. -/
theorem doPost_ok_iff (alnum : Char → Bool) (host : Host) (lengthField typeField : Option Str) (rfile : RFile)
    (fs : FileSystem Str) (length : Nat) (boundary path file : Bytes) (fields : List Field)
    (hlength : contentLength lengthField = some (length : Int)) (hpos : 0 < length)
    (hboundary : boundaryFromContentType (typeField.getD []) = some boundary) (hcr : 0x0D ∉ boundary)
    (hfields : refBody boundary (rfile.data.take length) = some fields) (hfirst : PathFirst alnum fields path file) :
    (∀ dest size, (doPost alnum host lengthField typeField rfile fs).1 = .ok dest size →
        (doPost alnum host lengthField typeField rfile fs).2.read dest = some file ∧ size = file.length) ↔
      ClosesWhole host
        (parseMultipartStream alnum rfile length boundary host.fileOps (Upload.init host fs)) := by
  rw [doPost_receive alnum host rfile fs hlength hpos hboundary]
  rcases hparse : parseMultipartStream alnum rfile length boundary host.fileOps (Upload.init host fs) with
    ⟨e | result, br, up⟩
  · refine ⟨fun _ result path dest part hok => ?_, fun _ dest size hok => ?_⟩
    · cases hok
    · exact absurd hok (receive_refused hparse dest size)
  rw [receive_accepted hparse]
  obtain ⟨hpath, -, -⟩ := parse_pathFirst rfile length fs hcr hfields hfirst hparse
  by_cases hne : decodeUtf8 path = []
  · rw [hne] at hpath
    refine ⟨fun _ result' path' dest part hok hpath' hne' => ?_, fun _ dest size hok => ?_⟩
    · cases hok
      exact absurd (Option.some.inj (hpath'.symm.trans hpath)) hne'
    · exact absurd hok (publish_empty hpath dest size)
  obtain ⟨dest, fh, hdest, hholds, hpublish⟩ := publish_pathFirst rfile length fs hcr hfields hfirst hparse hne
  rw [hpublish]
  refine (publishPart_whole_iff hholds file.length).trans ⟨?_, fun hwhole => ?_⟩
  · intro hwhole result' path' dest' part' hres hpath' _ hdest' hpart'
    cases hres
    obtain rfl := Option.some.inj (hpath.symm.trans hpath')
    obtain rfl := Option.some.inj (hdest.symm.trans hdest')
    obtain rfl := Option.some.inj (hholds.part.symm.trans hpart')
    exact hwhole
  · exact hwhole result _ dest (partPath dest) rfl hpath hne hdest hholds.part

/-- A `path` field `a`. -/
def pathField : Field := ⟨[0x6E, 0x61, 0x6D, 0x65, 0x3D, 0x22, 0x70, 0x61, 0x74, 0x68, 0x22], [0x61]⟩

/-- A `file` field `hi`. -/
def fileField : Field := ⟨[0x6E, 0x61, 0x6D, 0x65, 0x3D, 0x22, 0x66, 0x69, 0x6C, 0x65, 0x22], [0x68, 0x69]⟩

/-- A body with these fields and boundary `B`. -/
def pathFirstBody : Bytes :=
  [0x2D, 0x2D, 0x42] ++ crlf ++ pathField.block ++ crlf ++ crlf ++ pathField.value ++
    delimiter [0x42] ++ crlf ++ fileField.block ++ crlf ++ crlf ++ fileField.value ++ delimiter [0x42] ++ dashes

/-- A host on which only the last flush can fail. -/
def bufferingHost (close : Option Nat) : Host where
  realpath path := some [path]
  tempPath := [['t']]
  mayMake _ := true
  mayOpen _ := true
  mayPublish _ := true
  sameDevice _ := true
  writes := []
  close := close
  osError := fun _ => "No space left on device"

/-- That body, uploaded with boundary `B`. -/
def uploadHi (host : Host) : Response × FileSystem Str :=
  doPost (fun _ => false) host (some ['5', '2']) (some ['b', 'o', 'u', 'n', 'd', 'a', 'r', 'y', '=', 'B'])
    ⟨pathFirstBody, [3, 20]⟩ .empty

theorem uploadHi_stored : (uploadHi (bufferingHost none)).2.read [['a']] = some fileField.value :=
  ((doPost_ok_iff (fun _ => false) (bufferingHost none) (some ['5', '2'])
    (some ['b', 'o', 'u', 'n', 'd', 'a', 'r', 'y', '=', 'B']) ⟨pathFirstBody, [3, 20]⟩ .empty 52 [0x42]
    pathField.value fileField.value [pathField, fileField] (by decide) (by decide) (by decide) (by decide)
    (by decide +kernel) ⟨pathField.block, fileField.block, by decide +kernel, by decide +kernel, by decide +kernel⟩).mpr
    (fun _ _ _ _ _ _ _ _ _ _ _ ⟨_, _, _, hclose, _⟩ => by cases hclose) [['a']] 2 (by decide +kernel)).1

/-- The disk is full when the buffer is flushed: the answer is 200, and the file is empty. -/
theorem uploadHi_truncated :
    refBody [0x42] pathFirstBody = some [pathField, fileField] ∧
    (uploadHi (bufferingHost (some 0))).1 = .ok [['a']] 2 ∧
    (uploadHi (bufferingHost (some 0))).2.read [['a']] = some [] := by
  decide +kernel

end SocketServer.Http
