import Mathlib.Logic.Function.Basic
import SocketServer.Lib.Bytes

/-!
# Directories, files and inodes

A path is the list of its names, last name first, so that the parent of `name :: up` is `up`. The directory tree
leads from paths to directories and to inodes, and the content of a file belongs to its inode: a path may be
replaced or removed while an open descriptor still writes to the inode it was opened on.

The operations are the POSIX ones on regular files and directories, without symbolic links. Each of them returns
`none` where the system call fails on the tree as it is. `Opened` and `Renamed` describe the two that programs
publish files with.
-/

/-- What a path leads to. -/
inductive Entry
  | dir
  | file (inode : Nat)
  deriving DecidableEq, Repr

/-- A file system with names `ν`: the root is a directory, and inodes from `next` on are free. -/
@[ext] structure FileSystem (ν : Type) where
  tree : List ν → Option Entry
  content : Nat → Bytes
  next : Nat
  root : tree [] = some .dir
  allocated : ∀ p inode, tree p = some (.file inode) → inode < next

namespace FileSystem

variable {ν : Type}

/-- Nothing but the root. -/
def empty [DecidableEq ν] : FileSystem ν where
  tree p := if p = [] then some .dir else none
  content _ := []
  next := 0
  root := rfl
  allocated p inode h := by
    split_ifs at h
    cases h

/-- The content of the file at `p`. -/
def read (fs : FileSystem ν) (p : List ν) : Option Bytes :=
  match fs.tree p with
  | some (.file inode) => some (fs.content inode)
  | _ => none

theorem read_of_file {fs : FileSystem ν} {p : List ν} {inode : Nat} (h : fs.tree p = some (.file inode)) :
    fs.read p = some (fs.content inode) := by
  rw [read, h]

theorem read_eq_some {fs : FileSystem ν} {p : List ν} {b : Bytes} :
    fs.read p = some b ↔ ∃ inode, fs.tree p = some (.file inode) ∧ fs.content inode = b := by
  constructor
  · intro h
    unfold read at h
    rcases hp : fs.tree p with _ | _ | inode
    all_goals
      rw [hp] at h
      cases h
    exact ⟨inode, rfl, rfl⟩
  · rintro ⟨inode, hfile, rfl⟩
    exact read_of_file hfile

theorem ne_nil_of_absent {fs : FileSystem ν} {p : List ν} (h : fs.tree p = none) : p ≠ [] := by
  rintro rfl
  rw [fs.root] at h
  cases h

/-! ### Inodes -/

/-- Set the content of an inode. -/
def setContent (fs : FileSystem ν) (inode : Nat) (s : Bytes) : FileSystem ν :=
  { fs with content := Function.update fs.content inode s }

@[simp] theorem setContent_tree (fs : FileSystem ν) (inode : Nat) (s : Bytes) :
    (fs.setContent inode s).tree = fs.tree := rfl

@[simp] theorem setContent_self (fs : FileSystem ν) (inode : Nat) (s : Bytes) :
    (fs.setContent inode s).content inode = s := Function.update_self _ _ _

theorem setContent_ne (fs : FileSystem ν) {i j : Nat} (s : Bytes) (h : j ≠ i) :
    (fs.setContent i s).content j = fs.content j := Function.update_of_ne h _ _

/-- `s` after `b` has been written at offset `off`; a gap is filled with zeros. -/
def writeAt (s : Bytes) (off : Nat) (b : Bytes) : Bytes :=
  s.take off ++ List.replicate (off - s.length) 0 ++ b ++ s.drop (off + b.length)

@[simp] theorem writeAt_end (s b : Bytes) : writeAt s s.length b = s ++ b := by
  rw [writeAt, List.take_length, Nat.sub_self, List.replicate_zero, List.append_nil,
    List.drop_eq_nil_of_le (Nat.le_add_right _ _), List.append_nil]

/-- `pwrite` on an open descriptor. -/
def pwrite (fs : FileSystem ν) (inode off : Nat) (b : Bytes) : FileSystem ν :=
  fs.setContent inode (writeAt (fs.content inode) off b)

/-! ### The tree -/

variable [DecidableEq ν]

/-- Set the entry of a path other than the root. -/
def setEntry (fs : FileSystem ν) (p : List ν) (e : Option Entry)
    (he : ∀ inode, e = some (.file inode) → inode < fs.next) : FileSystem ν where
  tree := if p = [] then fs.tree else Function.update fs.tree p e
  content := fs.content
  next := fs.next
  root := by
    split_ifs with hp
    · exact fs.root
    · rw [Function.update_of_ne (Ne.symm hp), fs.root]
  allocated := by
    intro q inode hq
    split_ifs at hq with hp
    · exact fs.allocated q inode hq
    · by_cases hqp : q = p
      · rw [hqp, Function.update_self] at hq
        exact he inode hq
      · rw [Function.update_of_ne hqp] at hq
        exact fs.allocated q inode hq

theorem setEntry_self (fs : FileSystem ν) {p : List ν} (hp : p ≠ []) (e : Option Entry)
    (he : ∀ inode, e = some (.file inode) → inode < fs.next) : (fs.setEntry p e he).tree p = e := by
  rw [setEntry]
  dsimp only
  rw [if_neg hp, Function.update_self]

theorem setEntry_ne (fs : FileSystem ν) {p q : List ν} (hq : q ≠ p) (e : Option Entry)
    (he : ∀ inode, e = some (.file inode) → inode < fs.next) : (fs.setEntry p e he).tree q = fs.tree q := by
  rw [setEntry]
  dsimp only
  split_ifs
  · rfl
  · rw [Function.update_of_ne hq]

@[simp] theorem setEntry_next (fs : FileSystem ν) (p : List ν) (e : Option Entry)
    (he : ∀ inode, e = some (.file inode) → inode < fs.next) : (fs.setEntry p e he).next = fs.next := rfl

/-- A new inode, empty. -/
def reserve (fs : FileSystem ν) : FileSystem ν :=
  { fs.setContent fs.next [] with
    next := fs.next + 1
    allocated := fun q inode hq => Nat.lt_succ_of_lt (fs.allocated q inode hq) }

/-- A new empty file. -/
def create (fs : FileSystem ν) (p : List ν) : FileSystem ν :=
  fs.reserve.setEntry p (some (.file fs.next)) (by rintro _ ⟨⟩; exact Nat.lt_succ_self _)

theorem create_self (fs : FileSystem ν) {p : List ν} (hp : p ≠ []) :
    (fs.create p).tree p = some (.file fs.next) := by
  rw [create, setEntry_self _ hp]

theorem create_ne (fs : FileSystem ν) {p q : List ν} (hq : q ≠ p) : (fs.create p).tree q = fs.tree q := by
  rw [create, setEntry_ne _ hq]
  rfl

/-- The entry of `src` goes to `dst`. -/
def move (fs : FileSystem ν) (src dst : List ν) : FileSystem ν :=
  (fs.setEntry src none (by simp)).setEntry dst (fs.tree src)
    (fun inode h => by rw [setEntry_next]; exact fs.allocated src inode h)

/-- `open` for writing with truncation: the inode written to, and the new state. -/
def openTrunc (fs : FileSystem ν) (p : List ν) : Option (Nat × FileSystem ν) :=
  match fs.tree p with
  | some .dir => none
  | some (.file inode) => some (inode, fs.setContent inode [])
  | none => if fs.tree p.tail = some .dir then some (fs.next, fs.create p) else none

/-- `unlink` of a file. -/
def unlink (fs : FileSystem ν) (p : List ν) : Option (FileSystem ν) :=
  match fs.tree p with
  | some (.file _) => some (fs.setEntry p none (by simp))
  | _ => none

/-- `rename` of a file: nothing happens between two names of one inode. -/
def renameFile (fs : FileSystem ν) (src dst : List ν) : Option (FileSystem ν) :=
  match fs.tree src with
  | some (.file inode) =>
    match fs.tree dst with
    | some .dir => none
    | some (.file inode') => if inode = inode' then some fs else some (fs.move src dst)
    | none => if fs.tree dst.tail = some .dir then some (fs.move src dst) else none
  | _ => none

def mkdir (fs : FileSystem ν) (p : List ν) : Option (FileSystem ν) :=
  match fs.tree p with
  | some _ => none
  | none => if fs.tree p.tail = some .dir then some (fs.setEntry p (some .dir) (by simp)) else none

/-- `os.makedirs(p, exist_ok=True)`, where `mkdir` also fails on paths that are not `allowed`. Directories made
before a failure stay. -/
def makedirs (allowed : List ν → Bool) : List ν → FileSystem ν → Bool × FileSystem ν
  | [], fs => (true, fs)
  | name :: up, fs =>
    match (if fs.tree up = none then makedirs allowed up fs else (true, fs)) with
    | (false, fs) => (false, fs)
    | (true, fs) =>
      match (if allowed (name :: up) then fs.mkdir (name :: up) else none) with
      | some fs => (true, fs)
      | none => (fs.tree (name :: up) = some .dir, fs)

/-- `p` is atomically replaced by a new file with content `b`; missing directories are made. -/
def storeFile (fs : FileSystem ν) (p : List ν) (b : Bytes) : Option (FileSystem ν) :=
  match makedirs (fun _ => true) p.tail fs with
  | (false, _) => none
  | (true, fs) =>
    if fs.tree p = some .dir then none else some ((fs.create p).setContent fs.next b)

/-- `shutil.rmtree(d, ignore_errors=True)`. -/
def removeTree (fs : FileSystem ν) (d : List ν) : FileSystem ν where
  tree := fun p => if d <:+ p ∧ p ≠ [] then none else fs.tree p
  content := fs.content
  next := fs.next
  root := by
    rw [if_neg (fun h => h.2 rfl)]
    exact fs.root
  allocated := by
    intro p inode hp
    split_ifs at hp
    exact fs.allocated p inode hp

theorem removeTree_of_not_suffix (fs : FileSystem ν) {d p : List ν} (h : ¬ d <:+ p) :
    (fs.removeTree d).tree p = fs.tree p := if_neg fun hp => h hp.1

/-! ### What `open` and `rename` do -/

/-- `p` has been opened on `inode` with truncation, in `fs`. -/
structure Opened (fs fs' : FileSystem ν) (p : List ν) (inode : Nat) : Prop where
  entry : fs'.tree p = some (.file inode)
  empty : fs'.content inode = []
  tree_ne : ∀ q, q ≠ p → fs'.tree q = fs.tree q
  content_ne : ∀ j, j ≠ inode → fs'.content j = fs.content j
  origin : fs.tree p = some (.file inode) ∨ fs.tree p = none ∧ inode = fs.next

theorem openTrunc_spec {fs fs' : FileSystem ν} {p : List ν} {inode : Nat}
    (h : fs.openTrunc p = some (inode, fs')) : Opened fs fs' p inode := by
  unfold openTrunc at h
  rcases hp : fs.tree p with _ | _ | i
  · have hne := ne_nil_of_absent hp
    rw [hp] at h
    dsimp only at h
    split_ifs at h
    obtain ⟨rfl, rfl⟩ := Prod.mk.inj (Option.some.inj h)
    exact ⟨create_self fs hne, setContent_self fs _ _, fun q hq => create_ne fs hq,
      fun j hj => setContent_ne fs _ hj, Or.inr ⟨hp, rfl⟩⟩
  · rw [hp] at h
    cases h
  · rw [hp] at h
    obtain ⟨rfl, rfl⟩ := Prod.mk.inj (Option.some.inj h)
    exact ⟨hp, setContent_self fs _ _, fun q _ => rfl, fun j hj => setContent_ne fs _ hj, Or.inl hp⟩

theorem mkdir_cases {fs fs' : FileSystem ν} {p : List ν} (h : fs.mkdir p = some fs') :
    fs.tree p = none ∧ fs' = fs.setEntry p (some .dir) (by simp) := by
  unfold mkdir at h
  rcases hp : fs.tree p with _ | _
  all_goals rw [hp] at h
  · dsimp only at h
    split_ifs at h
    exact ⟨rfl, (Option.some.inj h).symm⟩
  · cases h

theorem mkdir_spec {fs fs' : FileSystem ν} {p : List ν} (h : fs.mkdir p = some fs') :
    fs'.content = fs.content ∧ fs'.next = fs.next ∧
      ∀ q inode, fs'.tree q = some (.file inode) ↔ fs.tree q = some (.file inode) := by
  obtain ⟨hp, rfl⟩ := mkdir_cases h
  refine ⟨rfl, rfl, fun q inode => ?_⟩
  by_cases hqp : q = p
  · rw [hqp, setEntry_self _ (ne_nil_of_absent hp), hp]
    simp
  · rw [setEntry_ne _ hqp]

theorem mkdir_dir {fs fs' : FileSystem ν} {p q : List ν} (h : fs.mkdir p = some fs') (hq : fs.tree q = some .dir) :
    fs'.tree q = some .dir := by
  obtain ⟨habsent, rfl⟩ := mkdir_cases h
  have hne : q ≠ p := by
    rintro rfl
    rw [hq] at habsent
    cases habsent
  rw [setEntry_ne _ hne, hq]

/-- What every `mkdir` of a directory on the way keeps, `makedirs` keeps. -/
theorem makedirs_induct {allowed : List ν → Bool} {P : FileSystem ν → Prop} (d : List ν)
    (hmkdir : ∀ p fs fs', p <:+ d → P fs → fs.mkdir p = some fs' → P fs') (fs : FileSystem ν) (hfs : P fs) :
    P (makedirs allowed d fs).2 := by
  induction d generalizing fs with
  | nil => exact hfs
  | cons name up ih =>
    have hup : P (if fs.tree up = none then makedirs allowed up fs else (true, fs)).2 := by
      split_ifs
      · exact ih (fun p fs fs' hp => hmkdir p fs fs' (hp.trans (List.suffix_cons name up))) fs hfs
      · exact hfs
    rw [makedirs]
    rcases hparents : (if fs.tree up = none then makedirs allowed up fs else (true, fs)) with ⟨_ | _, fs₁⟩
    all_goals rw [hparents] at hup
    · exact hup
    dsimp only at hup ⊢
    rcases hmade : (if allowed (name :: up) then fs₁.mkdir (name :: up) else none) with _ | fs₂
    · exact hup
    · split_ifs at hmade
      exact hmkdir _ fs₁ fs₂ List.suffix_rfl hup hmade

theorem makedirs_spec (allowed : List ν → Bool) (p : List ν) (fs : FileSystem ν) :
    (makedirs allowed p fs).2.content = fs.content ∧ (makedirs allowed p fs).2.next = fs.next ∧
      ∀ q inode, (makedirs allowed p fs).2.tree q = some (.file inode) ↔ fs.tree q = some (.file inode) := by
  apply makedirs_induct (P := fun fs' => fs'.content = fs.content ∧ fs'.next = fs.next ∧
    ∀ q inode, fs'.tree q = some (.file inode) ↔ fs.tree q = some (.file inode)) p
  · rintro _ fs₁ fs₂ - ⟨hcontent, hnext, htree⟩ hmade
    obtain ⟨hcontent', hnext', htree'⟩ := mkdir_spec hmade
    exact ⟨hcontent'.trans hcontent, hnext'.trans hnext, fun q inode => (htree' q inode).trans (htree q inode)⟩
  · exact ⟨rfl, rfl, fun _ _ => Iff.rfl⟩

theorem makedirs_tree_ne (allowed : List ν → Bool) {d q : List ν} (fs : FileSystem ν) (hq : ¬ q <:+ d) :
    (makedirs allowed d fs).2.tree q = fs.tree q := by
  apply makedirs_induct (P := fun fs' => fs'.tree q = fs.tree q) d
  · intro p fs₁ fs₂ hp hsame hmade
    obtain ⟨-, rfl⟩ := mkdir_cases hmade
    have hne : q ≠ p := by
      rintro rfl
      exact hq hp
    rw [setEntry_ne _ hne, hsame]
  · rfl

theorem makedirs_tail (allowed : List ν → Bool) (p : List ν) (fs : FileSystem ν) :
    (makedirs allowed p.tail fs).2.tree p = fs.tree p := by
  rcases p with _ | ⟨name, up⟩
  · rw [root, root]
  · refine makedirs_tree_ne allowed fs fun hsuffix => ?_
    have hlength := hsuffix.length_le
    rw [List.tail_cons, List.length_cons] at hlength
    omega

theorem makedirs_made {allowed : List ν → Bool} {d : List ν} {fs fs' : FileSystem ν}
    (h : makedirs allowed d fs = (true, fs')) : fs'.tree d = some .dir := by
  rcases d with _ | ⟨name, up⟩
  · exact fs'.root
  rw [makedirs] at h
  rcases hparents : (if fs.tree up = none then makedirs allowed up fs else (true, fs)) with ⟨_ | _, fs₁⟩
  all_goals rw [hparents] at h
  · cases h
  dsimp only at h
  rcases hmade : (if allowed (name :: up) then fs₁.mkdir (name :: up) else none) with _ | fs₂
  all_goals rw [hmade] at h
  · obtain ⟨hdir, rfl⟩ := Prod.mk.inj h
    exact of_decide_eq_true hdir
  · obtain rfl := (Prod.mk.inj h).2
    split_ifs at hmade
    obtain ⟨-, rfl⟩ := mkdir_cases hmade
    exact setEntry_self _ (List.cons_ne_nil name up) _ _

theorem storeFile_spec {fs fs' : FileSystem ν} {p : List ν} {b : Bytes} (h : fs.storeFile p b = some fs') :
    fs'.tree p = some (.file fs.next) ∧ fs'.content fs.next = b ∧ fs'.next = fs.next + 1 ∧
      (∀ i, i < fs.next → fs'.content i = fs.content i) ∧
      ∀ q inode, q ≠ p → fs.tree q = some (.file inode) → fs'.tree q = some (.file inode) := by
  unfold storeFile at h
  obtain ⟨hcontent, hnext, htree⟩ := makedirs_spec (fun _ => true) p.tail fs
  rcases hdirs : makedirs (fun _ => true) p.tail fs with ⟨_ | _, fs₁⟩
  · rw [hdirs] at h
    cases h
  rw [hdirs] at h hcontent hnext htree
  dsimp only at h hcontent hnext htree
  split_ifs at h with hdir
  cases h
  have hne : p ≠ [] := fun hnil => hdir (hnil ▸ fs₁.root)
  rw [← hnext]
  refine ⟨create_self fs₁ hne, setContent_self _ _ _, rfl, fun i hi => ?_, fun q inode hq hfile => ?_⟩
  · rw [setContent_ne _ _ (Nat.ne_of_lt hi), ← hcontent]
    exact setContent_ne _ _ (Nat.ne_of_lt hi)
  · rw [setContent_tree, create_ne fs₁ hq]
    exact (htree q inode).mpr hfile

/-- The file `inode` has been renamed from `src` to `dst`, in `fs`. -/
structure Renamed (fs fs' : FileSystem ν) (src dst : List ν) (inode : Nat) : Prop where
  source : fs.tree src = some (.file inode)
  entry : fs'.tree dst = some (.file inode)
  content : fs'.content = fs.content
  tree_ne : ∀ q, q ≠ src → q ≠ dst → fs'.tree q = fs.tree q

theorem renameFile_spec {fs fs' : FileSystem ν} {src dst : List ν} (h : fs.renameFile src dst = some fs') :
    ∃ inode, Renamed fs fs' src dst inode := by
  have hroot : fs.tree dst ≠ some .dir → dst ≠ [] := fun hdst hnil => hdst (hnil ▸ fs.root)
  unfold renameFile at h
  rcases hsrc : fs.tree src with _ | _ | inode
  · rw [hsrc] at h
    cases h
  · rw [hsrc] at h
    cases h
  have hmoved : dst ≠ [] → Renamed fs (fs.move src dst) src dst inode := by
    intro hne
    refine ⟨hsrc, ?_, rfl, fun q hq hq' => ?_⟩
    · rw [move, setEntry_self _ hne, hsrc]
    · rw [move, setEntry_ne _ hq', setEntry_ne _ hq]
  refine ⟨inode, ?_⟩
  rw [hsrc] at h
  rcases hdst : fs.tree dst with _ | _ | inode'
  · rw [hdst] at h
    dsimp only at h
    split_ifs at h
    cases h
    exact hmoved (hroot (by rw [hdst]; simp))
  · rw [hdst] at h
    cases h
  · rw [hdst] at h
    dsimp only at h
    split_ifs at h with hsame
    · cases h
      exact ⟨hsrc, hsame ▸ hdst, rfl, fun q _ _ => rfl⟩
    · cases h
      exact hmoved (hroot (by rw [hdst]; simp))

theorem renameFile_not_dir {fs fs' : FileSystem ν} {src dst : List ν} (h : fs.renameFile src dst = some fs') :
    fs.tree dst ≠ some .dir := by
  intro hdir
  unfold renameFile at h
  rcases hsrc : fs.tree src with _ | _ | inode
  all_goals
    rw [hsrc, hdir] at h
    cases h

/-- A file that is renamed leaves its old path, where that was not a second name of the file it replaces. -/
theorem renameFile_source {fs fs' : FileSystem ν} {src dst : List ν} (h : fs.renameFile src dst = some fs')
    (hne : src ≠ dst) (hlink : fs.tree src ≠ fs.tree dst) : fs'.tree src = none := by
  unfold renameFile at h
  rcases hsrc : fs.tree src with _ | _ | inode
  · rw [hsrc] at h
    cases h
  · rw [hsrc] at h
    cases h
  have hroot : src ≠ [] := by
    rintro rfl
    rw [fs.root] at hsrc
    cases hsrc
  have hmoved : (fs.move src dst).tree src = none := by rw [move, setEntry_ne _ hne, setEntry_self _ hroot]
  rw [hsrc] at h
  rcases hdst : fs.tree dst with _ | _ | inode'
  · rw [hdst] at h
    dsimp only at h
    split_ifs at h
    cases h
    exact hmoved
  · rw [hdst] at h
    cases h
  · rw [hdst] at h
    dsimp only at h
    rw [if_neg (fun hsame => hlink (by rw [hsrc, hdst, hsame]))] at h
    cases h
    exact hmoved

theorem renameFile_next {fs fs' : FileSystem ν} {src dst : List ν} (h : fs.renameFile src dst = some fs') :
    fs'.next = fs.next := by
  have hmoved : (fs.move src dst).next = fs.next := by rw [move, setEntry_next, setEntry_next]
  unfold renameFile at h
  split at h
  · split at h
    · cases h
    · split_ifs at h
      all_goals cases h
      · rfl
      · exact hmoved
    · split_ifs at h
      cases h
      exact hmoved
  · cases h

theorem openTrunc_next {fs fs' : FileSystem ν} {p : List ν} {inode : Nat}
    (h : fs.openTrunc p = some (inode, fs')) : fs.next ≤ fs'.next := by
  unfold openTrunc at h
  split at h
  · cases h
  · obtain ⟨-, rfl⟩ := Prod.mk.inj (Option.some.inj h)
    exact Nat.le_refl _
  · split_ifs at h
    obtain ⟨-, rfl⟩ := Prod.mk.inj (Option.some.inj h)
    exact Nat.le_succ _

theorem unlink_next {fs fs' : FileSystem ν} {p : List ν} (h : fs.unlink p = some fs') : fs'.next = fs.next := by
  unfold unlink at h
  split at h
  · cases h
    rw [setEntry_next]
  · cases h

theorem unlink_spec {fs fs' : FileSystem ν} {p : List ν} (h : fs.unlink p = some fs') :
    fs'.tree p = none ∧ (∀ q, q ≠ p → fs'.tree q = fs.tree q) ∧ fs'.content = fs.content := by
  unfold unlink at h
  rcases hp : fs.tree p with _ | _ | inode
  · rw [hp] at h
    cases h
  · rw [hp] at h
    cases h
  · rw [hp] at h
    cases h
    have hne : p ≠ [] := by
      rintro rfl
      rw [fs.root] at hp
      cases hp
    exact ⟨setEntry_self _ hne _ _, fun q hq => setEntry_ne _ hq _ _, rfl⟩

omit [DecidableEq ν] in
theorem read_congr {fs fs' : FileSystem ν} {p : List ν} (htree : fs'.tree p = fs.tree p)
    (hcontent : ∀ inode, fs.tree p = some (.file inode) → fs'.content inode = fs.content inode) :
    fs'.read p = fs.read p := by
  unfold read
  rw [htree]
  rcases hp : fs.tree p with _ | _ | inode
  · rfl
  · rfl
  · dsimp only
    rw [hcontent inode hp]

omit [DecidableEq ν] in
theorem read_congr_files {fs fs' : FileSystem ν} {p : List ν}
    (htree : ∀ inode, fs'.tree p = some (.file inode) ↔ fs.tree p = some (.file inode))
    (hcontent : ∀ inode, fs.tree p = some (.file inode) → fs'.content inode = fs.content inode) :
    fs'.read p = fs.read p := by
  apply Option.ext
  intro b
  rw [read_eq_some, read_eq_some]
  constructor
  · rintro ⟨inode, hfile, rfl⟩
    exact ⟨inode, (htree inode).mp hfile, (hcontent inode ((htree inode).mp hfile)).symm⟩
  · rintro ⟨inode, hfile, rfl⟩
    exact ⟨inode, (htree inode).mpr hfile, hcontent inode hfile⟩

omit [DecidableEq ν] in
theorem Renamed.read {fs fs' : FileSystem ν} {src dst : List ν} {inode : Nat} (h : Renamed fs fs' src dst inode) :
    fs'.read dst = some (fs.content inode) := by
  rw [read_of_file h.entry, h.content]

theorem renameFile_isSome_congr {fs fs' : FileSystem ν} (h : fs.tree = fs'.tree) (src dst : List ν) :
    (fs.renameFile src dst).isSome = (fs'.renameFile src dst).isSome := by
  unfold renameFile
  rw [h]
  rcases fs'.tree src with _ | _ | inode
  · rfl
  · rfl
  rcases fs'.tree dst with _ | _ | inode'
  · dsimp only
    split_ifs <;> rfl
  · rfl
  · dsimp only
    split_ifs <;> rfl

end FileSystem
