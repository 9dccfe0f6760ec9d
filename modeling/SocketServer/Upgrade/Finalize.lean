import SocketServer.Lib.FileSystem
import SocketServer.Lib.Text
import SocketServer.Lib.Transition

/-!
# Installing a pushed version (`finalize_pushed_version` of `upgrader.py`)

A version arrives over HTTP at `versions/<v>/.staging/socket_server`; the function hashes that file, compares the
hash and renames the file to `versions/<v>/socket_server`. It opens the file to hash it and renames it by its name,
and the HTTP service may replace it at any time: `finalizeStep` interleaves the calls of one invocation with uploads.

`run_installed_iff` : when the function returns `(True, None)`, the installed file has the expected hash if and only
if the last upload between the `open` and the `os.replace`, if there is one, has it.
-/

namespace SocketServer.Upgrade

open Text

abbrev Path := List Str

/-! ### The function -/

/-- What `finalize_pushed_version` uses and does not define. -/
structure Platform where
  /-- `VERSIONS_DIR`. -/
  versionsDir : Path
  /-- The hexadecimal SHA-256 of a byte string. -/
  sha256 : Bytes → Str
  /-- `str.lower`. -/
  lower : Str → Str
  /-- The decimal digits beyond ASCII. -/
  digit : Char → Bool

variable (pf : Platform)

/-- `str(version).strip().lstrip("v")`. -/
def normalizeVersion (version : Str) : Str := (strip isSpace version).dropWhile (· == 'v')

/-- `_VERSION_RE` : two to four numbers with dots between them. -/
def isVersion (version : Str) : Bool :=
  let numbers := version.splitOn '.'
  2 ≤ numbers.length && numbers.length ≤ 4 &&
    numbers.all fun number => !number.isEmpty && number.all (isDigitChar pf.digit)

/-- `str(expected_sha256).strip().lower()`. -/
def normalizeSha (expected : Str) : Str := pf.lower (strip isSpace expected)

def binaryName : Str := ['s', 'o', 'c', 'k', 'e', 't', '_', 's', 'e', 'r', 'v', 'e', 'r']

def versionDir (version : Str) : Path := normalizeVersion version :: pf.versionsDir

def stagingDir (version : Str) : Path := ['.', 's', 't', 'a', 'g', 'i', 'n', 'g'] :: versionDir pf version

def stagingBinary (version : Str) : Path := binaryName :: stagingDir pf version

def finalBinary (version : Str) : Path := binaryName :: versionDir pf version

/-- Why a version is refused, the second component of `(False, ..)`. -/
inductive Refusal
  /-- `version 非法`. -/
  | badVersion (version : Str)
  /-- `未找到推送的升级包`. -/
  | notPushed (stagingBinary : Path)
  /-- `sha256 校验失败`, with the expected and the actual hash. -/
  | badSha (expected actual : Str)
  deriving DecidableEq, Repr

/-- Where the invocation is. -/
inductive Stage
  | start
  /-- `isfile` has seen the staging file. -/
  | found
  /-- The file is open, and `read` has been passed to the hash. -/
  | hashing (inode : Nat) (read : Bytes)
  | hashed (actual : Str)
  /-- The hashes agree. -/
  | matched
  /-- `chmod` is done. -/
  | executable
  /-- `os.replace` is done. -/
  | replaced
  | refused (reason : Refusal)
  /-- `(True, None)`. -/
  | installed
  /-- An exception. -/
  | raised
  deriving DecidableEq, Repr

/-- The staging file is open or has been hashed, and has not been renamed yet. -/
def Stage.Holding : Stage → Prop
  | .hashing _ _ | .hashed _ | .matched | .executable => True
  | _ => False

instance : DecidablePred Stage.Holding
  | .hashing _ _ | .hashed _ | .matched | .executable => isTrue trivial
  | .start | .found | .replaced | .refused _ | .installed | .raised => isFalse id

/-- The file system, the invocation, and the last upload since it has opened the staging file. -/
structure FinalizeState where
  fs : FileSystem Str
  stage : Stage
  swapped : Option Bytes

/-- A call of the invocation, or an upload that replaces the staging file. -/
inductive FinalizeAction
  | finalize
  | upload (content : Bytes)
  deriving DecidableEq, Repr

def isfile (fs : FileSystem Str) (p : Path) : Bool := (fs.read p).isSome

/-- The next call of `finalize_pushed_version(version, expected)`. -/
def finalizeCall (version expected : Str) (s : FinalizeState) : Option FinalizeState :=
  match s.stage with
  | .start =>
    if ¬ isVersion pf (normalizeVersion version) then
      some { s with stage := .refused (.badVersion (normalizeVersion version)) }
    else if ¬ isfile s.fs (stagingBinary pf version) then
      some { s with stage := .refused (.notPushed (stagingBinary pf version)) }
    else some { s with stage := .found }
  | .found =>
    match s.fs.tree (stagingBinary pf version) with
    | some (.file inode) => some { s with stage := .hashing inode [] }
    | _ => some { s with stage := .raised }
  | .hashing inode read =>
    match (((s.fs.content inode).drop read.length).take (1 <<< 20)) with
    | [] => some { s with stage := .hashed (pf.sha256 read) }
    | chunk => some { s with stage := .hashing inode (read ++ chunk) }
  | .hashed actual =>
    if actual ≠ normalizeSha pf expected then
      some { s with fs := s.fs.removeTree (stagingDir pf version), stage := .refused (.badSha expected actual) }
    else some { s with stage := .matched }
  | .matched =>
    if s.fs.tree (stagingBinary pf version) = none then some { s with stage := .raised }
    else some { s with stage := .executable }
  | .executable =>
    match s.fs.renameFile (stagingBinary pf version) (finalBinary pf version) with
    | some fs => some { s with fs := fs, stage := .replaced }
    | none => some { s with stage := .raised }
  | .replaced => some { s with fs := s.fs.removeTree (stagingDir pf version), stage := .installed }
  | .refused _ | .installed | .raised => none

/-- One step of the invocation and the uploads. -/
def finalizeStep (version expected : Str) (s : FinalizeState) : FinalizeAction → Option FinalizeState
  | .finalize => finalizeCall pf version expected s
  | .upload content =>
    (s.fs.storeFile (stagingBinary pf version) content).map fun fs =>
      { s with fs := fs, swapped := if s.stage.Holding then some content else s.swapped }

/-! ### What is installed -/

variable {pf} {version expected : Str} {s s' : FinalizeState}

/-- The staging file is the last upload since the `open`, or else has content `x`. -/
def Staged (pf : Platform) (version : Str) (s : FinalizeState) (x : Bytes) : Prop :=
  s.fs.read (stagingBinary pf version) = some (s.swapped.getD x)

/-- What is known of the staging file and, in the end, of the installed one. -/
def Tracked (pf : Platform) (version expected : Str) (s : FinalizeState) : Prop :=
  match s.stage with
  | .start | .found => s.swapped = none
  | .hashing inode read =>
    inode < s.fs.next ∧ read <+: s.fs.content inode ∧ Staged pf version s (s.fs.content inode)
  | .hashed actual => ∃ x, actual = pf.sha256 x ∧ Staged pf version s x
  | .matched | .executable => ∃ x, pf.sha256 x = normalizeSha pf expected ∧ Staged pf version s x
  | .replaced | .installed =>
    ∃ x, pf.sha256 x = normalizeSha pf expected ∧ s.fs.read (finalBinary pf version) = some (s.swapped.getD x)
  | .refused _ | .raised => True

theorem binaryName_ne : ['.', 's', 't', 'a', 'g', 'i', 'n', 'g'] ≠ binaryName := by decide

theorem not_stagingDir_suffix (pf : Platform) (version : Str) :
    ¬ stagingDir pf version <:+ finalBinary pf version := by
  intro h
  have heq := h.eq_of_length rfl
  exact binaryName_ne (List.cons.inj heq).1

theorem finalBinary_ne (pf : Platform) (version : Str) : finalBinary pf version ≠ stagingBinary pf version := by
  intro h
  have hlen := congrArg List.length h
  simp [finalBinary, stagingBinary, stagingDir] at hlen

theorem read_chunk {read s : Bytes} (h : read <+: s) :
    read ++ (s.drop read.length).take (1 <<< 20) <+: s ∧ ((s.drop read.length).take (1 <<< 20) = [] → read = s) := by
  obtain ⟨rest, rfl⟩ := h
  rw [List.drop_left]
  refine ⟨List.prefix_append_right_inj read |>.mpr (List.take_prefix _ _), fun hnil => ?_⟩
  rcases List.take_eq_nil_iff.mp hnil with hzero | hrest
  · cases hzero
  · rw [hrest, List.append_nil]

theorem upload_tracked (h : Tracked pf version expected s) {content : Bytes}
    (hstep : finalizeStep pf version expected s (.upload content) = some s') : Tracked pf version expected s' := by
  obtain ⟨fs, hstore, rfl⟩ := Option.map_eq_some_iff.mp hstep
  obtain ⟨hentry, hcontent, hnext, hinodes, htree⟩ := FileSystem.storeFile_spec hstore
  have hstaged : fs.read (stagingBinary pf version) = some content := by
    rw [FileSystem.read_of_file hentry, hcontent]
  have hfinal : ∀ b, s.fs.read (finalBinary pf version) = some b → fs.read (finalBinary pf version) = some b := by
    intro b hb
    obtain ⟨inode, hfile, rfl⟩ := FileSystem.read_eq_some.mp hb
    have hold := htree _ inode (finalBinary_ne pf version) hfile
    exact FileSystem.read_eq_some.mpr ⟨inode, hold, hinodes inode (s.fs.allocated _ _ hfile)⟩
  unfold Tracked at h ⊢
  dsimp only
  rcases hstage : s.stage with _ | _ | ⟨inode, read⟩ | actual | _ | _ | _ | reason | _ | _
  all_goals
    rw [hstage] at h
    dsimp only at h ⊢
  · exact h
  · exact h
  · obtain ⟨hlt, hprefix, -⟩ := h
    refine ⟨by omega, by rwa [hinodes inode hlt], ?_⟩
    exact hstaged
  · obtain ⟨x, hx, -⟩ := h
    exact ⟨x, hx, hstaged⟩
  · obtain ⟨x, hx, -⟩ := h
    exact ⟨x, hx, hstaged⟩
  · obtain ⟨x, hx, -⟩ := h
    exact ⟨x, hx, hstaged⟩
  · obtain ⟨x, hx, hread⟩ := h
    exact ⟨x, hx, hfinal _ hread⟩
  · obtain ⟨x, hx, hread⟩ := h
    exact ⟨x, hx, hfinal _ hread⟩

theorem finalizeCall_tracked (h : Tracked pf version expected s)
    (hstep : finalizeCall pf version expected s = some s') : Tracked pf version expected s' := by
  unfold finalizeCall at hstep
  unfold Tracked at h
  rcases hstage : s.stage with _ | _ | ⟨inode, read⟩ | actual | _ | _ | _ | reason | _ | _
  all_goals
    rw [hstage] at h hstep
    dsimp only at h hstep
  · -- the version, and the staging file
    split_ifs at hstep <;> cases hstep
    · exact h
    · trivial
    · trivial
  · -- `open`
    rcases hfile : s.fs.tree (stagingBinary pf version) with _ | _ | inode
    · rw [hfile] at hstep
      cases hstep
      trivial
    · rw [hfile] at hstep
      cases hstep
      trivial
    · rw [hfile] at hstep
      cases hstep
      refine ⟨s.fs.allocated _ _ hfile, List.nil_prefix, ?_⟩
      unfold Staged
      rw [h, Option.getD_none, FileSystem.read_of_file hfile]
  · -- reading
    obtain ⟨hlt, hprefix, hstaged⟩ := h
    obtain ⟨hmore, hend⟩ := read_chunk hprefix
    rcases hchunk : (((s.fs.content inode).drop read.length).take (1 <<< 20)) with _ | ⟨b, bs⟩
    · rw [hchunk] at hstep
      cases hstep
      exact ⟨s.fs.content inode, by rw [hend hchunk], hstaged⟩
    · rw [hchunk] at hstep hmore
      cases hstep
      exact ⟨hlt, hmore, hstaged⟩
  · -- comparing
    obtain ⟨x, rfl, hstaged⟩ := h
    split_ifs at hstep with hne
    · cases hstep
      trivial
    · cases hstep
      exact ⟨x, not_not.mp hne, hstaged⟩
  · -- `chmod`
    split_ifs at hstep
    · cases hstep
      trivial
    · cases hstep
      exact h
  · -- `os.replace`
    obtain ⟨x, hx, hstaged⟩ := h
    rcases hrename : s.fs.renameFile (stagingBinary pf version) (finalBinary pf version) with _ | fs
    · rw [hrename] at hstep
      cases hstep
      trivial
    · rw [hrename] at hstep
      cases hstep
      obtain ⟨inode, hrenamed⟩ := FileSystem.renameFile_spec hrename
      refine ⟨x, hx, ?_⟩
      rw [hrenamed.read, ← FileSystem.read_of_file hrenamed.source]
      exact hstaged
  · -- the staging directory goes
    obtain ⟨x, hx, hfinal⟩ := h
    cases hstep
    refine ⟨x, hx, ?_⟩
    rw [← hfinal]
    exact FileSystem.read_congr (FileSystem.removeTree_of_not_suffix _ (not_stagingDir_suffix pf version))
      fun _ _ => rfl
  · cases hstep
  · cases hstep
  · cases hstep

/-- Before the call. -/
def FinalizeState.init (fs : FileSystem Str) : FinalizeState := ⟨fs, .start, none⟩

/-- **What `(True, None)` says of the installed file**: in every interleaving with uploads, it has the expected hash
if and only if the last upload between the `open` and the `os.replace`, if there is one, has it. -/
theorem run_installed_iff (pf : Platform) (version expected : Str) (fs : FileSystem Str)
    {actions : List FinalizeAction} {s : FinalizeState}
    (hrun : Run (fun s action s' => finalizeStep pf version expected s action = some s') (.init fs) actions s)
    (hdone : s.stage = .installed) :
    (∃ b, s.fs.read (finalBinary pf version) = some b ∧ pf.sha256 b = normalizeSha pf expected) ↔
      ∀ b, s.swapped = some b → pf.sha256 b = normalizeSha pf expected := by
  have htracked : Tracked pf version expected s := by
    refine hrun.invariant (Tracked pf version expected) (fun s action s' h hstep => ?_) rfl
    cases action with
    | finalize => exact finalizeCall_tracked h hstep
    | upload content => exact upload_tracked h hstep
  unfold Tracked at htracked
  rw [hdone] at htracked
  obtain ⟨x, hx, hread⟩ := htracked
  rw [hread]
  constructor
  · rintro ⟨b, hb, hsha⟩ b' hb'
    rw [hb', Option.getD_some] at hb
    rwa [Option.some.inj hb]
  · intro h
    refine ⟨_, rfl, ?_⟩
    rcases hswapped : s.swapped with _ | b
    · exact hx
    · exact h b hswapped

/-- Hashes that are the byte strings themselves, and versions below the root. -/
def plainPlatform : Platform where
  versionsDir := []
  sha256 b := b.map fun c => Char.ofNat c.toNat
  lower s := s
  digit _ := false

/-- The upload `a` is found, opened, read and hashed, and then come the uploads `between`. -/
def uploads (between : List Bytes) : List FinalizeAction :=
  [.upload [0x61], .finalize, .finalize, .finalize, .finalize] ++ between.map .upload ++
    [.finalize, .finalize, .finalize, .finalize]

/-- The upload that is hashed is the one that is installed. -/
theorem run_installed_same :
    ∃ s, (uploads []).foldlM (finalizeStep plainPlatform ['1', '.', '8'] ['a']) (.init .empty) = some s ∧
      ∃ b, s.fs.read (finalBinary plainPlatform ['1', '.', '8']) = some b ∧
        plainPlatform.sha256 b = normalizeSha plainPlatform ['a'] :=
  ⟨_, rfl, (run_installed_iff plainPlatform ['1', '.', '8'] ['a'] .empty
    (run_foldlM (l := uploads []) rfl) rfl).mpr (fun _ h => by cases h)⟩

/-- `b` is uploaded after `a` has been hashed: `b` is installed. -/
theorem run_installed_swapped :
    ∃ s, Run (fun s action s' => finalizeStep plainPlatform ['1', '.', '8'] ['a'] s action = some s') (.init .empty)
        (uploads [[0x62]]) s ∧
      s.stage = .installed ∧ s.fs.read (finalBinary plainPlatform ['1', '.', '8']) = some [0x62] ∧
      plainPlatform.sha256 [0x62] ≠ normalizeSha plainPlatform ['a'] :=
  ⟨_, run_foldlM (s := FinalizeState.init .empty) (l := uploads [[0x62]]) rfl, rfl, rfl, by decide⟩

end SocketServer.Upgrade
