import SocketServer.Http.Cleanup
import SocketServer.Http.RoundTrip

/-!
# What an accepted body is answered

The parser returns the last `path` field and whether there was a `file` field; `do_POST` looks at the path alone. So
an accepted body with a path and no file has nothing to publish, and `os.replace(None, dest)` raises a `TypeError`
that no clause catches; and a body whose last `path` field is empty is refused, though an earlier one named a path.
`doPost_accepted_iff` says that these are the only accepted bodies that are not answered as they should be.
-/

namespace SocketServer.Http

open Text

/-! ### The fields of a body -/

def Part.isPath (alnum : Char → Bool) (part : Part) : Bool := part.name alnum = ['p', 'a', 't', 'h']

def HasFile (alnum : Char → Bool) (parts : List Part) : Prop := ∃ part ∈ parts, part.name alnum = ['f', 'i', 'l', 'e']

/-- There is a `path` field with a value. -/
def HasPath (alnum : Char → Bool) (parts : List Part) : Prop :=
  ∃ part ∈ parts, part.isPath alnum = true ∧ part.value ≠ []

/-- The last `path` field. -/
def lastPath (alnum : Char → Bool) (parts : List Part) : Option Part := (parts.filter (Part.isPath alnum)).getLast?

/-- The last `path` field has a value. -/
def EndsInPath (alnum : Char → Bool) (parts : List Part) : Prop :=
  ∃ part, lastPath alnum parts = some part ∧ part.value ≠ []

variable {alnum : Char → Bool} {parts : List Part} {part : Part}

theorem EndsInPath.hasPath (h : EndsInPath alnum parts) : HasPath alnum parts := by
  obtain ⟨part, hlast, hvalue⟩ := h
  obtain ⟨hmem, hpath⟩ := List.mem_filter.mp (List.mem_of_getLast? hlast)
  exact ⟨part, hmem, hpath, hvalue⟩

theorem lastPath_append (parts : List Part) (part : Part) :
    lastPath alnum (parts ++ [part]) = if part.isPath alnum = true then some part else lastPath alnum parts := by
  rw [lastPath, List.filter_append]
  split_ifs with hpath
  · rw [List.filter_cons_of_pos hpath, List.filter_nil, List.getLast?_concat]
  · rw [List.filter_cons_of_neg hpath, List.filter_nil, List.append_nil, lastPath]

/-! ### Receiving an accepted body -/

variable {σ : Type} {ops : FileOps σ} {st st' : ParseState σ}

/-- A value goes to the open file object, and it is written whole. -/
structure Written (ops : FileOps σ) (part : Part) (world : σ) (path : Option Str) (st : ParseState σ) : Prop where
  writes : feed ops.write part.pieces world = (.ok (), st.world)
  isOpen : st.fhOpen = true
  path : st.result.path = path

theorem receiveContent_ok {result : MultipartResult} {world : σ} {path : Option Str}
    (h : receiveContent ops part result world = (.ok (), st')) (hpath : result.path = path) :
    Written ops part world path st' := by
  obtain ⟨hres, hworld, -⟩ := fileSink_feed ops part.pieces 0 world
  unfold receiveContent Part.deliver at h
  rcases hfeed : feed ops.sink part.pieces (0, world) with ⟨e | ⟨⟩, n, world'⟩
  all_goals rw [hfeed] at h hres hworld
  · cases (Prod.mk.inj h).1
  · rcases hend : part.ending with e | ⟨⟩
    all_goals
      rw [hend] at h
      dsimp only at h
      cases h
    exact ⟨Prod.ext hres.symm hworld.symm, rfl, hpath⟩

theorem receivePart_ok (h : receivePart alnum ops part st = (.ok (), st')) :
    (part.isPath alnum = true ∧
      st' = { st with result := { st.result with path := some (decodeUtf8 part.value) } }) ∨
    (part.isPath alnum = false ∧ part.name alnum = ['f', 'i', 'l', 'e'] ∧ st.fhOpen = true ∧
      Written ops part st.world st.result.path st') ∨
    (part.isPath alnum = false ∧ part.name alnum = ['f', 'i', 'l', 'e'] ∧ st.fhOpen = false ∧
      ∃ world, ops.openFile st.result.path st.world = (.ok (), world) ∧ Written ops part world st.result.path st') ∨
    (part.isPath alnum = false ∧ part.name alnum ≠ ['f', 'i', 'l', 'e'] ∧ st' = st) := by
  unfold receivePart at h
  split_ifs at h with hpath hfile
  · left
    unfold receivePath Part.deliver at h
    rcases hfeed : feed (CapSink.call 4096) part.pieces ⟨[], 0⟩ with ⟨e | ⟨⟩, sink⟩
    all_goals rw [hfeed] at h
    · cases (Prod.mk.inj h).1
    · rcases hend : part.ending with e | ⟨⟩
      all_goals
        rw [hend] at h
        dsimp only at h
        cases h
      refine ⟨decide_eq_true hpath, ?_⟩
      rw [CapSink.value, capSink_parts hfeed]
      rfl
  · right
    have hpath' : part.isPath alnum = false := decide_eq_false hpath
    unfold receiveFile at h
    dsimp only at h
    split_ifs at h with hopen
    · exact Or.inl ⟨hpath', hfile, hopen, receiveContent_ok h rfl⟩
    · rcases hcall : ops.openFile st.result.path st.world with ⟨e | ⟨⟩, world⟩
      all_goals rw [hcall] at h
      · cases (Prod.mk.inj h).1
      · exact Or.inr (Or.inl ⟨hpath', hfile, Bool.not_eq_true _ ▸ hopen, world, rfl, receiveContent_ok h rfl⟩)
  · exact Or.inr (Or.inr (Or.inr ⟨decide_eq_false hpath, hfile, (Prod.mk.inj h).2.symm⟩))

/-- What receiving one part keeps, receiving an accepted body keeps. -/
theorem receiveParts_ok (Q : List Part → ParseState σ → Prop) {ending : Except ParseError Unit}
    (hstep : ∀ seen part st st', Q seen st → receivePart alnum ops part st = (.ok (), st') → Q (seen ++ [part]) st')
    {seen : List Part} (hst : Q seen st) (h : receiveParts alnum ops parts ending st = (.ok (), st')) :
    Q (seen ++ parts) st' := by
  induction parts generalizing seen st with
  | nil =>
    obtain rfl := (Prod.mk.inj h).2
    rwa [List.append_nil]
  | cons part parts ih =>
    rw [receiveParts] at h
    rcases hpart : receivePart alnum ops part st with ⟨e | ⟨⟩, st₁⟩
    all_goals rw [hpart] at h
    · cases (Prod.mk.inj h).1
    · have hrest := ih (hstep seen part st st₁ hst hpart) h
      rwa [List.append_assoc, List.singleton_append] at hrest

/-! ### The upload of an accepted body -/

/-- The upload has its file: `<dest>.part`, for a path that some field gave, or a temporary file. -/
inductive Opened (alnum : Char → Bool) (host : Host) (fs : FileSystem Str) (seen : List Part) (up : Upload) : Prop
  | part (part : Path) (hpart : up.part = some part) (htemp : up.temp = none) (hpath : HasPath alnum seen)
  | temp (p : Path) (inode : Nat) (htouched : Touched host fs [] p inode up)

/-- The state of the parser in terms of the parts received. -/
structure Summary (alnum : Char → Bool) (host : Host) (fs : FileSystem Str) (seen : List Part)
    (st : ParseState Upload) : Prop where
  path : st.result.path = (lastPath alnum seen).map fun part => decodeUtf8 part.value
  closed : st.fhOpen = false → ¬ HasFile alnum seen ∧ st.world = Upload.init host fs
  opened : st.fhOpen = true → HasFile alnum seen ∧ Opened alnum host fs seen st.world

variable {host : Host} {fs : FileSystem Str} {seen : List Part} {up up' : Upload}

theorem hasFile_append : HasFile alnum (seen ++ [part]) ↔
    HasFile alnum seen ∨ part.name alnum = ['f', 'i', 'l', 'e'] := by
  simp only [HasFile, List.mem_append, List.mem_singleton, or_and_right, exists_or, exists_eq_left]

theorem HasPath.append (h : HasPath alnum seen) (part : Part) : HasPath alnum (seen ++ [part]) := by
  obtain ⟨p, hmem, hp⟩ := h
  exact ⟨p, List.mem_append_left _ hmem, hp⟩

theorem Opened.append (h : Opened alnum host fs seen up) (part : Part) : Opened alnum host fs (seen ++ [part]) up := by
  cases h with
  | part p hpart htemp hpath => exact .part p hpart htemp (hpath.append part)
  | temp p inode htouched => exact .temp p inode htouched

theorem feed_names (host : Host) (ps : List Bytes) (up : Upload) :
    (feed host.fileOps.write ps up).2.part = up.part ∧ (feed host.fileOps.write ps up).2.temp = up.temp := by
  induction ps generalizing up with
  | nil => exact ⟨rfl, rfl⟩
  | cons b ps ih =>
    have hwrite : (up.write host b).2.part = up.part ∧ (up.write host b).2.temp = up.temp := by
      unfold Upload.write
      rcases up.fh with _ | fh <;> exact ⟨rfl, rfl⟩
    rw [feed, show host.fileOps.write = Upload.write host from rfl]
    rcases hout : up.write host b with ⟨e | ⟨⟩, up₁⟩
    all_goals rw [hout] at hwrite
    · exact hwrite
    · obtain ⟨hpart, htemp⟩ := ih up₁
      exact ⟨hpart.trans hwrite.1, htemp.trans hwrite.2⟩

theorem Opened.feed (h : Opened alnum host fs seen up) {ps : List Bytes}
    (hfeed : feed host.fileOps.write ps up = (.ok (), up')) : Opened alnum host fs seen up' := by
  have hup : up' = (SocketServer.Http.feed host.fileOps.write ps up).2 := by rw [hfeed]
  obtain ⟨hpart', htemp'⟩ := feed_names host ps up
  rw [← hup] at hpart' htemp'
  cases h with
  | part p hpart htemp hpath => exact .part p (hpart'.trans hpart) (htemp'.trans htemp) hpath
  | temp p inode htouched => exact .temp p inode (hup ▸ htouched.feed ps)

/-- The path that the parser has is the last `path` field, so it is not empty if and only if that has a value. -/
theorem endsInPath_iff {path : Option Str}
    (hpath : path = (lastPath alnum seen).map fun part => decodeUtf8 part.value) :
    EndsInPath alnum seen ↔ ∃ c cs, path = some (c :: cs) := by
  constructor
  · rintro ⟨part, hlast, hvalue⟩
    obtain ⟨c, cs, hdecoded⟩ := List.exists_cons_of_ne_nil (mt decodeUtf8_eq_nil.mp hvalue)
    exact ⟨c, cs, by rw [hpath, hlast, Option.map_some, hdecoded]⟩
  · rintro ⟨c, cs, hsome⟩
    obtain ⟨part, hlast, hdecoded⟩ := Option.map_eq_some_iff.mp (hpath.symm.trans hsome)
    refine ⟨part, hlast, fun hnil => ?_⟩
    rw [decodeUtf8_eq_nil.mpr hnil] at hdecoded
    cases hdecoded

theorem openFile_opened {path : Option Str}
    (hpath : path = (lastPath alnum seen).map fun part => decodeUtf8 part.value)
    (hopen : openFile host path (Upload.init host fs) = (.ok (), up)) : Opened alnum host fs seen up := by
  have htemp : openFile host (some []) (Upload.init host fs) = (.ok (), up) → Opened alnum host fs seen up := by
    intro hopen
    have hfree : ([] : Str) ≠ [] → ∀ dest, host.realpath [] = some dest →
        ∀ i, fs.tree (partPath dest) ≠ some (.file i) := fun hne => absurd rfl hne
    have htouched := openFile_touched [] hfree
    rw [hopen] at htouched
    obtain ⟨p, inode, htouched⟩ := htouched
    exact .temp p inode htouched
  rcases hcase : path with _ | _ | ⟨c, cs⟩
  all_goals rw [hcase] at hopen
  · exact htemp hopen
  · exact htemp hopen
  · have hseen := (endsInPath_iff hpath).mpr ⟨c, cs, hcase⟩
    obtain ⟨dest, fs₁, inode, fs₂, -, -, -, rfl⟩ := openPart_calls hopen
    exact .part (partPath dest) rfl rfl hseen.hasPath

theorem Summary.step {st st' : ParseState Upload} (h : Summary alnum host fs seen st)
    (hpart : receivePart alnum host.fileOps part st = (.ok (), st')) :
    Summary alnum host fs (seen ++ [part]) st' := by
  have hfile : ∀ {world : Upload}, part.isPath alnum = false → part.name alnum = ['f', 'i', 'l', 'e'] →
      Opened alnum host fs seen world → Written host.fileOps part world st.result.path st' →
      Summary alnum host fs (seen ++ [part]) st' := by
    intro world hpath hname hopened hwritten
    refine ⟨?_, fun hclosed => ?_, fun _ => ⟨hasFile_append.mpr (Or.inr hname), ?_⟩⟩
    · rw [hwritten.path, h.path, lastPath_append, hpath]
      rfl
    · rw [hwritten.isOpen] at hclosed
      cases hclosed
    · exact (hopened.feed hwritten.writes).append part
  rcases receivePart_ok hpart with ⟨hpath, rfl⟩ | ⟨hpath, hname, hopen, hwritten⟩ |
    ⟨hpath, hname, hclosed, world, hcall, hwritten⟩ | ⟨hpath, hname, rfl⟩
  · -- a `path` field
    have hname : part.name alnum ≠ ['f', 'i', 'l', 'e'] := by
      rw [of_decide_eq_true hpath]
      decide
    refine ⟨?_, fun hclosed => ?_, fun hopen => ?_⟩
    · rw [lastPath_append, if_pos hpath, Option.map_some]
    · obtain ⟨hnone, hworld⟩ := h.closed hclosed
      exact ⟨fun hfile => (hasFile_append.mp hfile).elim hnone hname, hworld⟩
    · obtain ⟨hsome, hopened⟩ := h.opened hopen
      exact ⟨hasFile_append.mpr (Or.inl hsome), hopened.append part⟩
  · exact hfile hpath hname (h.opened hopen).2 hwritten
  · obtain ⟨-, hworld⟩ := h.closed hclosed
    rw [hworld] at hcall
    exact hfile hpath hname (openFile_opened h.path hcall) hwritten
  · -- a field that is skipped
    refine ⟨?_, fun hclosed => ?_, fun hopen => ?_⟩
    · rw [h.path, lastPath_append, hpath]
      rfl
    · obtain ⟨hnone, hworld⟩ := h.closed hclosed
      exact ⟨fun hfile => (hasFile_append.mp hfile).elim hnone hname, hworld⟩
    · obtain ⟨hsome, hopened⟩ := h.opened hopen
      exact ⟨hasFile_append.mpr (Or.inl hsome), hopened.append part⟩

theorem receiveParts_summary {ending : Except ParseError Unit} {st : ParseState Upload}
    (h : receiveParts alnum host.fileOps parts ending (ParseState.init (Upload.init host fs)) = (.ok (), st)) :
    Summary alnum host fs parts st := by
  have hinit : Summary alnum host fs [] (ParseState.init (Upload.init host fs)) :=
    ⟨rfl, fun _ => ⟨by simp [HasFile], rfl⟩, nofun⟩
  exact receiveParts_ok (Summary alnum host fs) (fun _ _ _ _ hseen hpart => hseen.step hpart) hinit h

/-! ### Publishing -/

/-- The file-system calls that publishing makes on the path succeed. -/
def PublishSucceeds (host : Host) (result : MultipartResult) (up : Upload) : Prop :=
  ∀ path, result.path = some path → path ≠ [] → ∃ dest, host.realpath path = some dest ∧
    (∀ temp, up.temp = some temp → host.mayPublish dest = true ∧
      ∃ fs, FileSystem.makedirs host.mayMake dest.tail up.fs = (true, fs) ∧
        (moveFile host temp dest fs).isSome = true) ∧
    (∀ part, up.temp = none → up.part = some part → host.mayPublish dest = true ∧
      (up.fs.renameFile part dest).isSome = true)

theorem Touched.discard_tree {p : Path} {inode : Nat} (h : Touched host fs [] p inode up) :
    (discardUpload host up).fs.tree = fs.tree := by
  obtain ⟨hnil, -⟩ | ⟨-, -, -, hbefore, htree⟩ := h.closeFile.names
  · exact absurd rfl hnil
  obtain ⟨hgone, hothers, -⟩ := FileSystem.unlink_spec h.discard_unlink
  funext q
  by_cases hq : q = p
  · rw [hq, hgone, hbefore]
  · rw [hothers q hq, htree q hq]

variable {st : ParseState Upload}

theorem publish_noPath (h : ¬ EndsInPath alnum parts) (hsummary : Summary alnum host fs parts st) (up : Upload) :
    publish host st.result up = (.error 400 "multipart missing path or file field", discardUpload host up) := by
  rw [endsInPath_iff hsummary.path, not_exists] at h
  unfold publish
  rcases hpath : st.result.path with _ | _ | ⟨c, cs⟩
  · rfl
  · rfl
  · exact absurd ⟨cs, hpath⟩ (h c)

theorem publish_file (hpath : EndsInPath alnum parts) (hfile : HasFile alnum parts)
    (hsummary : Summary alnum host fs parts st) (hcalls : PublishSucceeds host st.result (st.world.closeFile host)) :
    ∃ dest, (publish host st.result (st.world.closeFile host)).1 = .ok dest st.result.size := by
  obtain ⟨c, cs, hsome⟩ := (endsInPath_iff hsummary.path).mp hpath
  obtain ⟨dest, hdest, htemp, hpart⟩ := hcalls (c :: cs) hsome (List.cons_ne_nil c cs)
  have hopen : st.fhOpen = true := by
    by_contra hclosed
    exact (hsummary.closed (Bool.not_eq_true _ ▸ hclosed)).1 hfile
  obtain ⟨hpart', htemp'⟩ := closeFile_part host st.world
  refine ⟨dest, ?_⟩
  unfold publish
  rw [hsome]
  dsimp only
  rw [hdest]
  dsimp only
  cases (hsummary.opened hopen).2 with
  | part part hp ht _ =>
    rw [hpart', hp, htemp', ht]
    obtain ⟨hmay, hrename⟩ := hpart part (htemp'.trans ht) (hpart'.trans hp)
    obtain ⟨fs', hfs'⟩ := Option.isSome_iff_exists.mp hrename
    dsimp only
    rw [publishPart, if_pos hmay, hfs']
  | temp p inode htouched =>
    obtain ⟨hnil, -⟩ | ⟨-, -, ht, -⟩ := htouched.names
    · exact absurd rfl hnil
    obtain ⟨hmay, fs₁, hmake, hmove⟩ := htemp p (htemp'.trans ht)
    obtain ⟨fs₂, hfs₂⟩ := Option.isSome_iff_exists.mp hmove
    rw [htemp', ht]
    dsimp only
    rw [publishTemp, hmake]
    dsimp only
    rw [if_pos hmay, hfs₂]

/-- There is a path and no file: `os.replace` is called with `None`. -/
theorem publish_noFile (hpath : EndsInPath alnum parts) (hfile : ¬ HasFile alnum parts)
    (hsummary : Summary alnum host fs parts st) (hcalls : PublishSucceeds host st.result (st.world.closeFile host)) :
    (publish host st.result (st.world.closeFile host)).1 = .uncaught "TypeError" := by
  obtain ⟨c, cs, hsome⟩ := (endsInPath_iff hsummary.path).mp hpath
  obtain ⟨dest, hdest, -⟩ := hcalls (c :: cs) hsome (List.cons_ne_nil c cs)
  have hclosed : st.fhOpen = false := by
    by_contra hopen
    exact hfile (hsummary.opened (Bool.not_eq_false _ ▸ hopen)).1
  unfold publish
  rw [hsome, (hsummary.closed hclosed).2]
  dsimp only
  rw [hdest]
  rfl

theorem Summary.discard (hsummary : Summary alnum host fs parts st) (h : ¬ (HasFile alnum parts ∧ HasPath alnum parts)) :
    (discardUpload host (st.world.closeFile host)).fs.tree = fs.tree ∧
      ∀ q, (discardUpload host (st.world.closeFile host)).fs.read q = fs.read q := by
  rcases hopen : st.fhOpen
  · rw [(hsummary.closed hopen).2]
    exact ⟨rfl, fun _ => rfl⟩
  · obtain ⟨hfile, hopened⟩ := hsummary.opened hopen
    cases hopened with
    | part part _ _ hpath => exact absurd ⟨hfile, hpath⟩ h
    | temp p inode htouched => exact ⟨htouched.closeFile.discard_tree, htouched.closeFile.discard.read⟩

/-- **The answer to an accepted body**, where the calls on the path succeed: 200 if there is a path and a file, and 400
with nothing changed otherwise, if and only if a last path comes with a file, and a file with a path has a last path. -/
theorem doPost_accepted_iff (alnum : Char → Bool) (host : Host) (lengthField typeField : Option Str) (rfile : RFile)
    (fs : FileSystem Str) (length : Nat) (boundary : Bytes) (result : MultipartResult) (br : BodyReader) (up : Upload)
    (hlength : contentLength lengthField = some (length : Int)) (hpos : 0 < length)
    (hboundary : boundaryFromContentType (typeField.getD []) = some boundary)
    (haccepted : parseMultipartStream alnum rfile length boundary host.fileOps (Upload.init host fs) =
      (.ok result, br, up))
    (hcalls : PublishSucceeds host result (up.closeFile host)) :
    let parts := (readParts rfile length boundary).1
    let answer := doPost alnum host lengthField typeField rfile fs
    ((HasFile alnum parts ∧ HasPath alnum parts → ∃ dest size, answer.1 = .ok dest size) ∧
      (¬ (HasFile alnum parts ∧ HasPath alnum parts) →
        (∃ msg, answer.1 = .error 400 msg) ∧ answer.2.tree = fs.tree ∧ ∀ q, answer.2.read q = fs.read q)) ↔
    (EndsInPath alnum parts → HasFile alnum parts) ∧
      (HasFile alnum parts ∧ HasPath alnum parts → EndsInPath alnum parts) := by
  dsimp only
  rw [doPost_receive alnum host rfile fs hlength hpos hboundary, receive_accepted haccepted]
  obtain ⟨st, hreceived, rfl, hworld⟩ := parseMultipartStream_accepted (congrArg Prod.fst haccepted)
  rw [haccepted] at hworld
  obtain rfl : up = st.world := hworld
  have hsummary := receiveParts_summary hreceived
  set parts := (readParts rfile length boundary).1
  by_cases hends : EndsInPath alnum parts
  · by_cases hfile : HasFile alnum parts
    · obtain ⟨dest, hok⟩ := publish_file hends hfile hsummary hcalls
      exact iff_of_true ⟨fun _ => ⟨dest, _, hok⟩, fun h => absurd ⟨hfile, hends.hasPath⟩ h⟩
        ⟨fun _ => hfile, fun _ => hends⟩
    · -- a path without a file
      have huncaught := publish_noFile hends hfile hsummary hcalls
      refine iff_of_false (fun h => ?_) fun h => hfile (h.1 hends)
      obtain ⟨⟨msg, hmsg⟩, -⟩ := h.2 fun hboth => hfile hboth.1
      rw [huncaught] at hmsg
      cases hmsg
  · rw [publish_noPath hends hsummary]
    by_cases hboth : HasFile alnum parts ∧ HasPath alnum parts
    · -- a file and a path, and a last path that is empty
      refine iff_of_false (fun h => ?_) fun h => hends (h.2 hboth)
      obtain ⟨dest, size, hok⟩ := h.1 hboth
      cases hok
    · exact iff_of_true ⟨fun h => absurd h hboth, fun _ => ⟨⟨_, rfl⟩, hsummary.discard hboth⟩⟩
        ⟨fun h => absurd h hends, fun h => absurd h hboth⟩

/-- The parser's run on the body of `uploadHi`. -/
def parsedHi : Except ParseError MultipartResult × BodyReader × Upload :=
  parseMultipartStream (fun _ => false) ⟨pathFirstBody, [3, 20]⟩ 52 [0x42] (bufferingHost none).fileOps
    (Upload.init (bufferingHost none) .empty)

theorem doPost_accepted_hi : ∃ dest size, (uploadHi (bufferingHost none)).1 = .ok dest size := by
  have hparsed : parsedHi = (.ok ⟨some ['a'], 2, none, true⟩, parsedHi.2.1, parsedHi.2.2) :=
    Prod.ext (by decide +kernel) rfl
  have hcalls : PublishSucceeds (bufferingHost none) ⟨some ['a'], 2, none, true⟩
      (parsedHi.2.2.closeFile (bufferingHost none)) := by
    rintro path ⟨⟩ -
    refine ⟨[['a']], rfl, fun temp htemp => ?_, fun part _ hpart => ⟨rfl, ?_⟩⟩
    · rw [show (parsedHi.2.2.closeFile (bufferingHost none)).temp = none by decide +kernel] at htemp
      cases htemp
    · rw [show (parsedHi.2.2.closeFile (bufferingHost none)).part = some [['a', '.', 'p', 'a', 'r', 't']] by
        decide +kernel] at hpart
      cases hpart
      decide +kernel
  have hfile : HasFile (fun _ => false) (readParts ⟨pathFirstBody, [3, 20]⟩ 52 [0x42]).1 :=
    ⟨⟨fileField.block, [[0x68, 0x69]], .ok ()⟩, by decide +kernel⟩
  have hpath : EndsInPath (fun _ => false) (readParts ⟨pathFirstBody, [3, 20]⟩ 52 [0x42]).1 :=
    ⟨⟨pathField.block, [[0x61]], .ok ()⟩, by decide +kernel⟩
  exact ((doPost_accepted_iff (fun _ => false) (bufferingHost none) (some ['5', '2'])
    (some ['b', 'o', 'u', 'n', 'd', 'a', 'r', 'y', '=', 'B']) ⟨pathFirstBody, [3, 20]⟩ .empty 52 [0x42] _ _ _
    (by decide) (by decide) (by decide) hparsed hcalls).mpr ⟨fun _ => hfile, fun _ => hpath⟩).1 ⟨hfile, hpath.hasPath⟩

/-- The answer to a body with these fields, where no call fails. -/
def answerTo (fields : List Field) : Response :=
  (doPost (fun _ => false) (bufferingHost none) (some ['9', '9'])
    (some ['b', 'o', 'u', 'n', 'd', 'a', 'r', 'y', '=', 'B']) ⟨encodeBody [0x42] fields, []⟩ .empty).1

/-- A path without a file is not answered. A path, a file and an empty path are refused. -/
theorem doPost_accepted_pathOnly :
    (parseMultipartStream (fun _ => false) ⟨encodeBody [0x42] [pathField], []⟩ 99 [0x42] (bufferingHost none).fileOps
      (Upload.init (bufferingHost none) .empty)).1 = .ok ⟨some ['a'], 0, none, false⟩ ∧
    answerTo [pathField] = .uncaught "TypeError" ∧
    answerTo [pathField, fileField, ⟨pathField.block, []⟩] =
      .error 400 "multipart missing path or file field" := by
  decide +kernel

end SocketServer.Http
