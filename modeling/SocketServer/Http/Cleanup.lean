import SocketServer.Http.Parts
import SocketServer.Http.UploadFaults

/-!
# What a failed upload leaves behind

An upload touches one name of the file system besides the directories it makes: `<dest>.part`, or the temporary
file. While the body is received, every other file keeps its entry and its bytes, and the open descriptor writes to
a new inode (`Touched`). `_discard_upload` removes the one file, so after it all files are as they were, and a
publish that is not answered 200 either discards the upload or has nothing to discard.

`doPost_refused` is for path-first bodies, cut off or malformed at any byte, and for every call that can fail.
-/

namespace SocketServer.Http

open Text

/-! ### Files that stay -/

/-- The files of `fs` are those of `fs'`, with the same bytes, but for the file at `extra`. -/
structure KeepsFiles (fs fs' : FileSystem Str) (extra : Option Path) : Prop where
  content : ∀ i < fs.next, fs'.content i = fs.content i
  entry : ∀ q, some q ≠ extra → ∀ inode, fs'.tree q = some (.file inode) ↔ fs.tree q = some (.file inode)

variable {fs fs' fs'' : FileSystem Str} {extra : Option Path} {p : Path} {inode : Nat}

theorem KeepsFiles.refl (fs : FileSystem Str) (extra : Option Path) : KeepsFiles fs fs extra :=
  ⟨fun _ _ => rfl, fun _ _ _ => Iff.rfl⟩

theorem KeepsFiles.read (h : KeepsFiles fs fs' none) (q : Path) : fs'.read q = fs.read q := by
  have hentry := h.entry q nofun
  refine Option.ext fun b => ?_
  show fs'.read q = some b ↔ fs.read q = some b
  rw [FileSystem.read_eq_some, FileSystem.read_eq_some]
  constructor
  · rintro ⟨i, hi, rfl⟩
    have hold := (hentry i).mp hi
    exact ⟨i, hold, (h.content i (fs.allocated q i hold)).symm⟩
  · rintro ⟨i, hi, rfl⟩
    exact ⟨i, (hentry i).mpr hi, h.content i (fs.allocated q i hi)⟩

theorem KeepsFiles.pwrite (h : KeepsFiles fs fs' extra) (hfresh : fs.next ≤ inode) (off : Nat) (b : Bytes) :
    KeepsFiles fs (fs'.pwrite inode off b) extra := by
  refine ⟨fun i hi => ?_, h.entry⟩
  rw [FileSystem.pwrite, FileSystem.setContent_ne _ _ (by omega)]
  exact h.content i hi

theorem keepsFiles_makedirs (allowed : Path → Bool) (dir : Path) (fs : FileSystem Str) :
    KeepsFiles fs (FileSystem.makedirs allowed dir fs).2 none ∧ (FileSystem.makedirs allowed dir fs).2.next = fs.next := by
  obtain ⟨hcontent, hnext, htree⟩ := FileSystem.makedirs_spec allowed dir fs
  exact ⟨⟨fun i _ => by rw [hcontent], fun q _ inode => htree q inode⟩, hnext⟩

theorem KeepsFiles.opened (h : KeepsFiles fs fs' none) (hnext : fs'.next = fs.next)
    (hopened : FileSystem.Opened fs' fs'' p inode) (habsent : ∀ i, fs.tree p ≠ some (.file i)) :
    KeepsFiles fs fs'' (some p) ∧ fs.next ≤ inode := by
  have hfresh : fs.next ≤ inode := by
    rcases hopened.origin with hold | ⟨-, hnew⟩
    · exact absurd ((h.entry p nofun inode).mp hold) (habsent inode)
    · omega
  refine ⟨⟨fun i hi => ?_, fun q hq i => ?_⟩, hfresh⟩
  · rw [hopened.content_ne i (by omega), h.content i hi]
  · rw [hopened.tree_ne q (fun heq => hq (congrArg some heq)), h.entry q nofun]

/-! ### An upload and its file -/

/-- Nothing has been opened: at most some directories are new. -/
structure Untouched (fs : FileSystem Str) (up : Upload) : Prop where
  files : KeepsFiles fs up.fs none
  fh : up.fh = none
  part : up.part = none
  temp : up.temp = none

/-- The upload has its file at `p`: `<dest>.part` of the path it was opened with, or the temporary file, for which
nothing else has been made. -/
structure Touched (host : Host) (fs : FileSystem Str) (path : Str) (p : Path) (inode : Nat) (up : Upload) : Prop where
  files : KeepsFiles fs up.fs (some p)
  entry : up.fs.tree p = some (.file inode)
  absent : ∀ i, fs.tree p ≠ some (.file i)
  fresh : fs.next ≤ inode
  fh : ∀ fh, up.fh = some fh → fh.inode = inode
  names : path ≠ [] ∧ (host.realpath path).isSome = true ∧ up.part = some p ∧ up.temp = none ∨
    path = [] ∧ up.part = none ∧ up.temp = some p ∧ fs.tree p = none ∧ ∀ q, q ≠ p → up.fs.tree q = fs.tree q

variable {host : Host} {path : Str} {up up' : Upload}

theorem untouched_init (host : Host) (fs : FileSystem Str) : Untouched fs (Upload.init host fs) :=
  ⟨.refl fs none, rfl, rfl, rfl⟩

theorem Touched.closeFile (h : Touched host fs path p inode up) : Touched host fs path p inode (up.closeFile host) := by
  unfold Upload.closeFile
  rcases hfh : up.fh with _ | fh
  · exact h
  · have hinode := h.fh fh hfh
    exact ⟨h.files.pwrite (hinode ▸ h.fresh) _ _, h.entry, h.absent, h.fresh, nofun, h.names⟩

theorem Untouched.closeFile (h : Untouched fs up) : Untouched fs (up.closeFile host) := by
  rwa [Upload.closeFile, h.fh]

theorem Touched.write (h : Touched host fs path p inode up) (b : Bytes) :
    Touched host fs path p inode (up.write host b).2 := by
  unfold Upload.write
  rcases hfh : up.fh with _ | fh
  · exact h
  · have hinode := h.fh fh hfh
    refine ⟨h.files.pwrite (hinode ▸ h.fresh) _ _, h.entry, h.absent, h.fresh, fun fh' hfh' => ?_, h.names⟩
    cases hfh'
    exact hinode

theorem Touched.feed (h : Touched host fs path p inode up) (ps : List Bytes) :
    Touched host fs path p inode (feed host.fileOps.write ps up).2 := by
  induction ps generalizing up with
  | nil => exact h
  | cons b ps ih =>
    have hwrite := h.write b
    rw [SocketServer.Http.feed, show host.fileOps.write = Upload.write host from rfl]
    rcases hout : up.write host b with ⟨e | ⟨⟩, up₁⟩
    all_goals rw [hout] at hwrite
    · exact hwrite
    · exact ih hwrite

theorem openFile_touched (path : Str) (hfree : path ≠ [] → ∀ dest, host.realpath path = some dest →
      ∀ i, fs.tree (partPath dest) ≠ some (.file i)) :
    match openFile host (some path) (Upload.init host fs) with
    | (.ok (), up) => ∃ p inode, Touched host fs path p inode up
    | (.error _, up) => Untouched fs up := by
  have hinit := untouched_init host fs
  have hnew : ∀ {fs₁ fs₂ : FileSystem Str} {q : Path} {fh : FileObject}, openNew host q fs₁ = some (fh, fs₂) →
      FileSystem.Opened fs₁ fs₂ q fh.inode := by
    intro fs₁ fs₂ q fh hopen
    obtain ⟨⟨i, fs₂⟩, htrunc, heq⟩ := Option.map_eq_some_iff.mp hopen
    cases heq
    split_ifs at htrunc
    exact FileSystem.openTrunc_spec htrunc
  rcases path with _ | ⟨c, cs⟩
  · -- no path: a temporary file
    rw [openFile, if_neg (by rw [hinit.fh]; decide)]
    dsimp only [openTemp]
    rcases hopen : (if (Upload.init host fs).fs.tree host.tempPath = none then
        openNew host host.tempPath (Upload.init host fs).fs else none) with _ | ⟨fh, fs₂⟩
    · exact hinit
    · split_ifs at hopen with habsent
      have hopened := hnew hopen
      have hfile : ∀ i, fs.tree host.tempPath ≠ some (.file i) := fun i hi => by
        rw [show (Upload.init host fs).fs = fs from rfl, hi] at habsent
        cases habsent
      obtain ⟨hfiles, hfresh⟩ := (KeepsFiles.refl fs none).opened rfl hopened hfile
      refine ⟨host.tempPath, fh.inode, hfiles, hopened.entry, hfile, hfresh, fun fh' hfh' => ?_,
        Or.inr ⟨rfl, rfl, rfl, habsent, hopened.tree_ne⟩⟩
      cases hfh'
      rfl
  · unfold openFile
    rw [if_neg (by rw [hinit.fh]; decide)]
    dsimp only [openPart]
    rcases hdest : host.realpath (c :: cs) with _ | dest
    · exact hinit
    obtain ⟨hfiles, hnext⟩ := keepsFiles_makedirs host.mayMake dest.tail fs
    dsimp only
    rw [show (Upload.init host fs).fs = fs from rfl]
    rcases hmake : FileSystem.makedirs host.mayMake dest.tail fs with ⟨_ | _, fs₁⟩
    all_goals rw [hmake] at hfiles hnext
    · exact ⟨hfiles, rfl, rfl, rfl⟩
    dsimp only
    rcases hopen : openNew host (partPath dest) fs₁ with _ | ⟨fh, fs₂⟩
    · exact ⟨hfiles, rfl, rfl, rfl⟩
    · have hopened := hnew hopen
      have habsent := hfree (List.cons_ne_nil c cs) dest hdest
      obtain ⟨hfiles', hfresh⟩ := hfiles.opened hnext hopened habsent
      refine ⟨partPath dest, fh.inode, hfiles', hopened.entry, habsent, hfresh, fun fh' hfh' => ?_,
        Or.inl ⟨List.cons_ne_nil c cs, by rw [hdest]; rfl, rfl, rfl⟩⟩
      cases hfh'
      rfl

/-! ### Receiving a path-first body -/

/-- A part the parser does not skip. -/
def Part.known (alnum : Char → Bool) (part : Part) : Bool :=
  part.name alnum = ['p', 'a', 't', 'h'] ∨ part.name alnum = ['f', 'i', 'l', 'e']

/-- One `path` part and then one `file` part, among parts with other names, as far as the body goes. -/
def PathThenFile (alnum : Char → Bool) (parts : List Part) (path : Str) : Prop :=
  ∃ pathPart filePart, parts.filter (Part.known alnum) <+: [pathPart, filePart] ∧
    pathPart.name alnum = ['p', 'a', 't', 'h'] ∧ filePart.name alnum = ['f', 'i', 'l', 'e'] ∧
    decodeUtf8 pathPart.value = path

/-- What the upload has done when its parts are received. -/
def Received (host : Host) (fs : FileSystem Str) (path : Str) (st : ParseState Upload) : Prop :=
  Untouched fs st.world ∨ st.result.path = some path ∧ ∃ p inode, Touched host fs path p inode st.world

variable {alnum : Char → Bool} {parts : List Part} {part : Part} {st : ParseState Upload}

/-- A property of the state in front of the first part that is not skipped holds in the end, if receiving that part
and the rest leads to it. -/
theorem receiveParts_known {σ : Type} (ops : FileOps σ) (Q : ParseState σ → Prop) {expected : List Part}
    (hparts : parts.filter (Part.known alnum) <+: expected) (ending : Except ParseError Unit) (st : ParseState σ)
    (hst : Q st) (hfirst : ∀ part others, expected = part :: others → ∀ rest,
      rest.filter (Part.known alnum) <+: others → Q (receiveParts alnum ops (part :: rest) ending st).2) :
    Q (receiveParts alnum ops parts ending st).2 := by
  induction parts with
  | nil => exact hst
  | cons part parts ih =>
    rw [List.filter_cons] at hparts
    split_ifs at hparts with hknown
    · obtain ⟨first, others, rfl⟩ : ∃ first others, expected = first :: others :=
        List.exists_cons_of_ne_nil (fun hnil => by simp [hnil] at hparts)
      obtain ⟨rfl, hrest⟩ := List.cons_prefix_cons.mp hparts
      exact hfirst part others rfl parts hrest
    · rw [Part.known, decide_eq_true_eq, not_or] at hknown
      rw [receiveParts, receivePart, if_neg hknown.1, if_neg hknown.2]
      rcases part.ending with e | ⟨⟩
      · exact hst
      · exact ih hparts

theorem receiveParts_skip {σ : Type} (ops : FileOps σ) (hparts : parts.filter (Part.known alnum) <+: [])
    (ending : Except ParseError Unit) (st : ParseState σ) : (receiveParts alnum ops parts ending st).2 = st :=
  receiveParts_known ops (· = st) hparts ending st rfl nofun

theorem receiveContent_touched (part : Part) (result : MultipartResult)
    (h : Touched host fs path p inode up) (hpath : result.path = some path) :
    Received host fs path (receiveContent host.fileOps part result up).2 := by
  have hfeed := h.feed part.pieces
  rw [← (fileSink_feed host.fileOps part.pieces 0 up).2.1] at hfeed
  unfold receiveContent Part.deliver
  rcases hout : feed host.fileOps.sink part.pieces (0, up) with ⟨e | ⟨⟩, n, up'⟩
  all_goals rw [hout] at hfeed
  · exact Or.inr ⟨hpath, p, inode, hfeed⟩
  · rcases part.ending with e | ⟨⟩
    · exact Or.inr ⟨hpath, p, inode, hfeed⟩
    · exact Or.inr ⟨hpath, p, inode, hfeed⟩

variable (hfree : ∀ dest, host.realpath path = some dest → ∀ i, fs.tree (partPath dest) ≠ some (.file i))

include hfree

theorem receiveFile_received (part : Part) (result : MultipartResult) (hpath : result.path = some path) :
    Received host fs path (receiveFile host.fileOps part ⟨result, false, Upload.init host fs⟩).2 := by
  have hopen := openFile_touched path fun _ => hfree
  unfold receiveFile
  dsimp only
  rw [if_neg (by decide), hpath, show host.fileOps.openFile = openFile host from rfl]
  rcases hout : openFile host (some path) (Upload.init host fs) with ⟨e | ⟨⟩, up⟩
  all_goals rw [hout] at hopen
  · exact Or.inl hopen
  · obtain ⟨p, inode, htouched⟩ := hopen
    exact receiveContent_touched part _ htouched rfl

theorem receiveParts_file {filePart : Part} (hfile : filePart.name alnum = ['f', 'i', 'l', 'e'])
    (hparts : parts.filter (Part.known alnum) <+: [filePart]) (ending : Except ParseError Unit)
    {result : MultipartResult} (hpath : result.path = some path) :
    Received host fs path
      (receiveParts alnum host.fileOps parts ending ⟨result, false, Upload.init host fs⟩).2 := by
  apply receiveParts_known host.fileOps (Received host fs path) hparts ending _ (Or.inl (untouched_init host fs))
  rintro part others heq rest hrest
  cases heq
  have hreceived := receiveFile_received hfree filePart result hpath
  rw [receiveParts, receivePart, hfile, if_neg (by decide), if_pos rfl]
  rcases hout : receiveFile host.fileOps filePart ⟨result, false, Upload.init host fs⟩ with ⟨e | ⟨⟩, st⟩
  all_goals rw [hout] at hreceived
  · exact hreceived
  · dsimp only
    rwa [receiveParts_skip host.fileOps hrest]

/-- **A path-first body** touches one file at most, wherever receiving it stops. -/
theorem receiveParts_pathFirst (hparts : PathThenFile alnum parts path) (ending : Except ParseError Unit) :
    Received host fs path
      (receiveParts alnum host.fileOps parts ending (ParseState.init (Upload.init host fs))).2 := by
  obtain ⟨pathPart, filePart, hfilter, hpath, hfile, hvalue⟩ := hparts
  apply receiveParts_known host.fileOps (Received host fs path) hfilter ending _ (Or.inl (untouched_init host fs))
  rintro part others heq rest hrest
  cases heq
  rw [receiveParts, receivePart, hpath, if_pos rfl, receivePath, Part.deliver]
  rcases hfeed : feed (CapSink.call 4096) pathPart.pieces ⟨[], 0⟩ with ⟨e | ⟨⟩, sink⟩
  · exact Or.inl (untouched_init host fs)
  dsimp only
  rcases pathPart.ending with e | ⟨⟩
  · exact Or.inl (untouched_init host fs)
  · have hsink : sink.value = path := by
      rw [← hvalue, CapSink.value, capSink_parts hfeed]
      rfl
    exact receiveParts_file hfree hfile hrest ending (congrArg some hsink)

omit hfree

/-! ### Cleaning up -/

theorem Touched.discard_unlink (h : Touched host fs path p inode up) :
    (up.closeFile host).fs.unlink p = some (discardUpload host up).fs := by
  have hclosed := h.closeFile
  obtain ⟨fs', hunlink⟩ : ∃ fs', (up.closeFile host).fs.unlink p = some fs' := by
    rw [FileSystem.unlink, hclosed.entry]
    exact ⟨_, rfl⟩
  rw [discardUpload, hunlink]
  rcases hclosed.names with ⟨-, -, hpart, htemp⟩ | ⟨-, hpart, htemp, -⟩
  all_goals
    dsimp only
    rw [hpart, htemp, unlinkQuietly, unlinkQuietly]
    simp only [hunlink, Option.getD_some]

theorem Touched.discard (h : Touched host fs path p inode up) : KeepsFiles fs (discardUpload host up).fs none := by
  have hclosed := h.closeFile
  obtain ⟨hgone, htree, hcontent⟩ := FileSystem.unlink_spec h.discard_unlink
  refine ⟨fun i hi => by rw [hcontent, hclosed.files.content i hi], fun q _ i => ?_⟩
  by_cases hq : q = p
  · rw [hq, hgone]
    exact iff_of_false nofun (h.absent i)
  · rw [htree q hq]
    exact hclosed.files.entry q (fun heq => hq (Option.some.inj heq)) i

theorem Untouched.discard (h : Untouched fs up) : KeepsFiles fs (discardUpload host up).fs none := by
  have hclosed : Untouched fs (up.closeFile host) := h.closeFile
  rw [discardUpload]
  dsimp only
  rw [hclosed.part, hclosed.temp]
  exact hclosed.files

theorem Received.discard (h : Received host fs path st) : KeepsFiles fs (discardUpload host st.world).fs none := by
  rcases h with huntouched | ⟨-, p, inode, htouched⟩
  · exact huntouched.discard
  · exact htouched.discard

theorem publish_refused (h : Received host fs path st)
    (hanswer : ∀ dest size, (publish host st.result (st.world.closeFile host)).1 ≠ .ok dest size) :
    KeepsFiles fs (publish host st.result (st.world.closeFile host)).2.fs none := by
  have hclosed : Received host fs path { st with world := st.world.closeFile host } := by
    rcases h with huntouched | ⟨hpath, p, inode, htouched⟩
    · exact Or.inl huntouched.closeFile
    · exact Or.inr ⟨hpath, p, inode, htouched.closeFile⟩
  have hdiscard := hclosed.discard
  dsimp only at hdiscard
  unfold publish at hanswer ⊢
  rcases hres : st.result.path with _ | _ | ⟨c, cs⟩
  · exact hdiscard
  · exact hdiscard
  rw [hres] at hanswer
  dsimp only at hanswer ⊢
  rcases hclosed with huntouched | ⟨hpath, p, inode, htouched⟩
  · rcases hdest : host.realpath (c :: cs) with _ | dest
    · exact huntouched.files
    · dsimp only
      rw [huntouched.part, huntouched.temp]
      exact huntouched.files
  · obtain rfl : c :: cs = path := Option.some.inj (hres.symm.trans hpath)
    rcases htouched.names with ⟨-, hdest, hpart, htemp⟩ | ⟨hnil, -⟩
    · obtain ⟨dest, hdest⟩ := Option.isSome_iff_exists.mp hdest
      rw [hdest] at hanswer ⊢
      dsimp only at hanswer ⊢
      rw [hpart, htemp] at hanswer ⊢
      dsimp only at hanswer ⊢
      unfold publishPart at hanswer ⊢
      split_ifs at hanswer ⊢
      · rcases hrename : (st.world.closeFile host).fs.renameFile p dest with _ | fs'
        · exact hdiscard
        · rw [hrename] at hanswer
          exact absurd rfl (hanswer dest st.result.size)
      · exact hdiscard
    · cases hnil

/-! ### The answer -/

/-- The parts of the body of a request: none if its header fields are refused. -/
def requestParts (lengthField typeField : Option Str) (rfile : RFile) : List Part :=
  match contentLength lengthField, boundaryFromContentType (typeField.getD []) with
  | some length, some boundary => if length ≤ 0 then [] else (readParts rfile length.toNat boundary).1
  | _, _ => []

theorem openFile_total (host : Host) (path : Option Str) (up : Upload) :
    (openFile host path up).1 ≠ .error .outOfFuel := by
  have htemp : (openTemp host up).1 ≠ .error .outOfFuel := by
    unfold openTemp
    split
    all_goals exact nofun
  unfold openFile
  split_ifs
  · exact nofun
  · split
    · exact htemp
    · exact htemp
    · unfold openPart
      split
      · exact nofun
      · split
        · exact nofun
        · split
          all_goals exact nofun

theorem write_total (host : Host) (b : Bytes) (up : Upload) : (up.write host b).1 ≠ .error .outOfFuel := by
  unfold Upload.write
  split
  · exact nofun
  · dsimp only
    split_ifs
    all_goals exact nofun

/-- **An upload that is not answered 200 leaves every file as it was**, for a path-first body that may break off or be
malformed at any byte, whichever calls fail: the destination, `<dest>.part` if it was not there, the temporary file. -/
theorem doPost_refused (alnum : Char → Bool) (host : Host) (lengthField typeField : Option Str) (rfile : RFile)
    (fs : FileSystem Str) (path : Str) (hfirst : PathThenFile alnum (requestParts lengthField typeField rfile) path)
    (hfree : ∀ dest, host.realpath path = some dest → ∀ i, fs.tree (partPath dest) ≠ some (.file i))
    (hanswer : ∀ dest size, (doPost alnum host lengthField typeField rfile fs).1 ≠ .ok dest size) :
    (∀ q, (doPost alnum host lengthField typeField rfile fs).2.read q = fs.read q) ∧
      ∀ dest, host.realpath path = some dest →
        (doPost alnum host lengthField typeField rfile fs).2.read (partPath dest) = none := by
  have hkeeps : KeepsFiles fs (doPost alnum host lengthField typeField rfile fs).2 none := by
    unfold requestParts at hfirst
    unfold doPost at hanswer ⊢
    rcases hlen : contentLength lengthField with _ | length
    · exact .refl fs none
    rw [hlen] at hfirst hanswer
    dsimp only at hfirst hanswer ⊢
    split_ifs at hanswer ⊢ with hlength
    · exact .refl fs none
    rcases hboundary : boundaryFromContentType (typeField.getD []) with _ | boundary
    · exact .refl fs none
    rw [hboundary] at hfirst hanswer
    dsimp only at hfirst hanswer ⊢
    rw [if_neg hlength] at hfirst
    have hreceived := receiveParts_pathFirst hfree hfirst (readParts rfile length.toNat boundary).2
    have htotal : (parseMultipartStream alnum rfile length.toNat boundary host.fileOps (Upload.init host fs)).1 ≠
        .error .outOfFuel := parseMultipartStream_total (openFile_total host) (write_total host) alnum _ _ _ _
    obtain ⟨hres, hworld⟩ := parseMultipartStream_eq alnum rfile length.toNat boundary host.fileOps
      (Upload.init host fs)
    set st := (receiveParts alnum host.fileOps (readParts rfile length.toNat boundary).1
      (readParts rfile length.toNat boundary).2 (ParseState.init (Upload.init host fs))).2
    unfold receive at hanswer ⊢
    rcases hparse : parseMultipartStream alnum rfile length.toNat boundary host.fileOps (Upload.init host fs) with
      ⟨(msg | msg | _) | result, br, up⟩
    all_goals
      rw [hparse] at hanswer hres hworld htotal
      dsimp only at hanswer hres hworld htotal ⊢
    · exact hworld ▸ hreceived.discard
    · exact hworld ▸ hreceived.discard
    · exact absurd rfl htotal
    · obtain rfl : result = st.result := by
        rcases hout : (receiveParts alnum host.fileOps (readParts rfile length.toNat boundary).1
          (readParts rfile length.toNat boundary).2 (ParseState.init (Upload.init host fs))).1 with e | ⟨⟩
        all_goals
          rw [hout] at hres
          cases hres
        rfl
      rw [hworld] at hanswer ⊢
      exact publish_refused hreceived hanswer
  refine ⟨hkeeps.read, fun dest hdest => ?_⟩
  rw [hkeeps.read]
  rcases hread : fs.read (partPath dest) with _ | b
  · rfl
  · obtain ⟨inode, hfile, -⟩ := FileSystem.read_eq_some.mp hread
    exact absurd hfile (hfree dest hdest inode)

/-- A file system with the file `[0x6F]` at `/a`. -/
def oneFile : FileSystem Str := (FileSystem.create .empty [['a']]).setContent 0 [0x6F]

/-- An upload to `/a` that breaks off behind the headers of its `file` field. -/
theorem doPost_refused_truncated :
    (doPost (fun _ => false) (bufferingHost none) (some ['5', '2']) (some ['b', 'o', 'u', 'n', 'd', 'a', 'r', 'y', '=', 'B'])
      ⟨pathFirstBody.take 46, [3, 20]⟩ oneFile).2.read [['a']] = some [0x6F] := by
  have hanswer : (doPost (fun _ => false) (bufferingHost none) (some ['5', '2'])
      (some ['b', 'o', 'u', 'n', 'd', 'a', 'r', 'y', '=', 'B']) ⟨pathFirstBody.take 46, [3, 20]⟩ oneFile).1 =
      .error 400 "multipart body truncated(value)" := by decide +kernel
  have hfirst : PathThenFile (fun _ => false) (requestParts (some ['5', '2'])
      (some ['b', 'o', 'u', 'n', 'd', 'a', 'r', 'y', '=', 'B']) ⟨pathFirstBody.take 46, [3, 20]⟩) ['a'] :=
    ⟨⟨pathField.block, [[0x61]], .ok ()⟩, ⟨fileField.block, [], .error truncatedValue⟩, by decide +kernel⟩
  refine ((doPost_refused (fun _ => false) (bufferingHost none) (some ['5', '2'])
    (some ['b', 'o', 'u', 'n', 'd', 'a', 'r', 'y', '=', 'B']) ⟨pathFirstBody.take 46, [3, 20]⟩ oneFile ['a'] hfirst
    ?_ ?_).1 [['a']]).trans (by decide +kernel)
  · rintro dest ⟨⟩ i
    exact nofun
  · rw [hanswer]
    exact fun _ _ => nofun

end SocketServer.Http
