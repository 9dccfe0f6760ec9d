import SocketServer.Lib.Grouping
import SocketServer.Upgrade.Switch

/-!
# What installing a version may change (`finalize_pushed_version` of `upgrader.py`)

`finalize_pushed_version` takes the version from a request, joins it into paths, renames a file and removes a directory
below them. `Disk` is a file system with symbolic and hard links, and each of the system calls may fail.

* `join_version` : what passes the check of the version makes one path component, and not `current`;
* `finalizeOnDisk_confined` : nothing changes outside the directory of the version, and without `(True, None)`
  the installed file stays as it is.
-/

namespace SocketServer.Upgrade.Confinement

open Text LinkTree

/-! ### Paths and versions -/

/-- `os.path.join(a, b)`. -/
def join (a b : Str) : Str :=
  if b.head? = some '/' then b else if a = [] ∨ a.getLast? = some '/' then a ++ b else a ++ '/' :: b

/-- The components of a path. -/
def pathParts (p : Str) : List (Component Str) := (p.splitOn '/').flatMap components

/-- `_VERSION_RE.match(version)`; the `$` may stand before a newline. -/
def versionReMatch (pf : Platform) (version : Str) : Bool :=
  isVersion pf version || version.getLast? = some '\n' && isVersion pf version.dropLast

/-! ### The disk -/

/-- Entries with the inodes of the files, and what is in them. A file with two entries has a hard link. -/
structure Disk where
  tree : LinkTree Str Nat
  content : Nat → Bytes

/-- The system calls that fail, and the entries that `rmtree` does not get rid of. -/
structure Faults where
  isfile : Bool
  read : Bool
  chmod : Bool
  replace : Bool
  keeps : Path → Bool

/-- The entry that a path names, where a link at the end is not followed. -/
def lastEntry (tree : LinkTree Str Nat) (links : Nat) (p : List (Component Str)) : Option Path :=
  match p.getLast? with
  | some (.name x) => entryAt tree links p.dropLast x
  | _ => none

/-- All entries of an inode, executable. -/
def markExecutable (tree : LinkTree Str Nat) (inode : Nat) : LinkTree Str Nat := fun q =>
  match tree q with
  | some (.file i executable) => some (.file i (executable || i = inode))
  | node => node

namespace Disk

variable (s : Disk) (links : Nat)

def isfile (p : Str) : Bool := (fileAt s.tree links (pathParts p)).isSome

/-- `open` and `read`, to the end. -/
def read (p : Str) : Option Bytes := (fileAt s.tree links (pathParts p)).map fun file => s.content file.2.1

/-- `os.chmod(p, 0o755)`. -/
def chmod (p : Str) : Option Disk :=
  (fileAt s.tree links (pathParts p)).map fun file => { s with tree := markExecutable s.tree file.2.1 }

/-- Entries of one file. -/
def sameFile : Option (Node Str Nat) → Option (Node Str Nat) → Bool
  | some (.file i _), some (.file j _) => i = j
  | _, _ => false

/-- `os.replace` of an entry that is no directory. -/
def replace (src dst : Str) : Option Disk :=
  match lastEntry s.tree links (pathParts src), lastEntry s.tree links (pathParts dst) with
  | some p, some q =>
    match s.tree p with
    | none => none
    | some node =>
      if isDir s.tree p || isDir s.tree q then none
      else if sameFile (s.tree p) (s.tree q) then some s
      else some { s with tree := (s.tree.erase p).put q node }
  | _, _ => none

/-- `shutil.rmtree(p, ignore_errors=True)`, which refuses a link. -/
def rmtree (keeps : Path → Bool) (p : Str) : Disk :=
  match lastEntry s.tree links (pathParts p) with
  | some top => if isDir s.tree top then { s with tree := s.tree.without fun q => top.isSuffixOf q && !keeps q } else s
  | none => s

variable {s s' : Disk} {links : Nat}

theorem chmod_content {p : Str} (h : s.chmod links p = some s') : s'.content = s.content := by
  obtain ⟨file, -, rfl⟩ := Option.map_eq_some_iff.mp h
  rfl

theorem replace_content {src dst : Str} (h : s.replace links src dst = some s') : s'.content = s.content := by
  unfold replace at h
  split at h
  · split at h
    · cases h
    · split_ifs at h
      · cases h
        rfl
      · cases h
        rfl
  · cases h

theorem rmtree_content (s : Disk) (links : Nat) (keeps : Path → Bool) (p : Str) :
    (s.rmtree links keeps p).content = s.content := by
  unfold rmtree
  split
  · split_ifs
    · rfl
    · rfl
  · rfl

end Disk

/-! ### The function -/

/-- What `finalize_pushed_version` returns, or an exception. -/
inductive Outcome
  /-- `version 非法`. -/
  | badVersion (version : Str)
  /-- `未找到推送的升级包`. -/
  | notPushed (stagingBinary : Str)
  /-- `sha256 校验失败`, with the expected and the actual hash. -/
  | badSha (expected actual : Str)
  /-- `(True, None)`. -/
  | installed
  | raised
  deriving DecidableEq, Repr

variable (pf : Platform) (versionsDir : Str) (links : Nat)

/-- `finalize_pushed_version(version, expected)` with `VERSIONS_DIR` the path `versionsDir`. -/
def finalizeOnDisk (faults : Faults) (version expected : Str) (s : Disk) : Outcome × Disk :=
  let version := normalizeVersion version
  if !versionReMatch pf version then (.badVersion version, s)
  else
    let versionDir := join versionsDir version
    let stagingDir := join versionDir stagingName
    let stagingBinary := join stagingDir binaryName
    if faults.isfile || !s.isfile links stagingBinary then (.notPushed stagingBinary, s)
    else
      match if faults.read then none else s.read links stagingBinary with
      | none => (.raised, s)
      | some bytes =>
        let actual := pf.sha256 bytes
        if actual ≠ normalizeSha pf expected then
          (.badSha expected actual, s.rmtree links faults.keeps stagingDir)
        else
          let finalBinary := join versionDir binaryName
          match if faults.chmod then none else s.chmod links stagingBinary with
          | none => (.raised, s)
          | some ready =>
            match if faults.replace then none else ready.replace links stagingBinary finalBinary with
            | none => (.raised, ready)
            | some replaced => (.installed, replaced.rmtree links faults.keeps stagingDir)

/-! ### The statement -/

/-- The real path of `VERSIONS_DIR`. -/
def versionsAt (tree : LinkTree Str Nat) : Option Path := (walk tree links [] (pathParts versionsDir)).map Prod.fst

/-- In the real directory `d` of a version: the directory, the staging directory and the package are no symbolic links,
and the package has no hard link. -/
structure Unlinked (tree : LinkTree Str Nat) (d : Path) : Prop where
  dir : isLink tree d = false
  staging : isLink tree (stagingName :: d) = false
  package : isLink tree (binaryName :: stagingName :: d) = false
  single : ∀ inode executable, tree (binaryName :: stagingName :: d) = some (.file inode executable) →
    ∀ p executable', tree p = some (.file inode executable') → p = binaryName :: stagingName :: d

/-- What holds of a call of `finalize_pushed_version` on any disk, where `s` is the disk before and `s'` the disk
after it. -/
structure Checked (version : Str) (s : Disk) (outcome : Outcome) (s' : Disk) : Prop where
  /-- What is in the files stays, also in those whose entries come and go. -/
  content : s'.content = s.content
  /-- The version that is refused, and the one that is not: one component below `VERSIONS_DIR`, and not `current`. -/
  check : (∃ v, outcome = .badVersion v) ∧ s' = s ∨
    pathParts (join versionsDir (normalizeVersion version)) =
        pathParts versionsDir ++ [.name (normalizeVersion version)] ∧
      '/' ∉ normalizeVersion version ∧ normalizeVersion version ∉ [[], ['.'], ['.', '.'], currentName]

/-- What the call may change. -/
structure Confined (version expected : Str) (s : Disk) (outcome : Outcome) (s' : Disk) : Prop where
  /-- Nothing changes where `VERSIONS_DIR` is no directory. -/
  absent : versionsAt versionsDir links s.tree = none → s' = s
  outside : ∀ d ∈ versionsAt versionsDir links s.tree, ∀ p, ¬(normalizeVersion version :: d) <:+ p →
    s'.tree p = s.tree p
  installed : outcome = .installed → ∃ d ∈ versionsAt versionsDir links s.tree, ∃ inode executable,
    s.tree (binaryName :: stagingName :: normalizeVersion version :: d) = some (.file inode executable) ∧
      s'.tree (binaryName :: normalizeVersion version :: d) = some (.file inode true) ∧
      pf.sha256 (s'.content inode) = normalizeSha pf expected
  kept : outcome ≠ .installed → ∀ d ∈ versionsAt versionsDir links s.tree,
    s'.tree (binaryName :: normalizeVersion version :: d) = s.tree (binaryName :: normalizeVersion version :: d) ∧
      s'.tree (currentName :: d) = s.tree (currentName :: d)

/-! ### What passes the check of the version -/

theorem pathParts_append (a b : Str) : pathParts (a ++ '/' :: b) = pathParts a ++ pathParts b := by
  rw [pathParts, List.splitOn_append_cons_self, List.flatMap_append]
  rfl

theorem pathParts_join (a : Str) {b : Str} (hb : b.head? ≠ some '/') :
    pathParts (join a b) = pathParts a ++ pathParts b := by
  rw [join, if_neg hb]
  by_cases hempty : a = []
  · rw [if_pos (.inl hempty), hempty]
    rfl
  · by_cases hslash : a.getLast? = some '/'
    · rw [if_pos (.inr hslash)]
      obtain ⟨up, rfl⟩ := List.getLast?_eq_some_iff.mp hslash
      rw [List.append_assoc, List.singleton_append, pathParts_append, pathParts_append]
      show _ = pathParts up ++ [] ++ _
      rw [List.append_nil]
    · rw [if_neg (not_or.mpr ⟨hempty, hslash⟩), pathParts_append]

variable {pf} {versionsDir} {links}

theorem exists_mem_splitOn {s : Str} {c sep : Char} (hc : c ∈ s) (hne : c ≠ sep) : ∃ w ∈ s.splitOn sep, c ∈ w := by
  induction s with
  | nil => cases hc
  | cons x s ih =>
    rw [List.splitOn_cons_eq_if_modifyHead]
    by_cases hx : x = sep
    · rw [if_pos (beq_iff_eq.mpr hx)]
      rcases List.mem_cons.mp hc with rfl | hs
      · exact absurd hx hne
      · obtain ⟨w, hw, hcw⟩ := ih hs
        exact ⟨w, List.mem_cons_of_mem _ hw, hcw⟩
    · rw [if_neg (mt beq_iff_eq.mp hx)]
      obtain ⟨w, ws, hsplit⟩ := List.exists_cons_of_ne_nil (List.splitOn_ne_nil sep s)
      rw [hsplit, List.modifyHead_cons]
      rcases List.mem_cons.mp hc with rfl | hs
      · exact ⟨_, List.mem_cons_self, List.mem_cons_self⟩
      · obtain ⟨w', hw', hcw⟩ := ih hs
        rw [hsplit] at hw'
        rcases List.mem_cons.mp hw' with rfl | hrest
        · exact ⟨_, List.mem_cons_self, List.mem_cons_of_mem _ hcw⟩
        · exact ⟨w', List.mem_cons_of_mem _ hrest, hcw⟩

theorem isVersion_mem {v : Str} (h : isVersion pf v = true) {c : Char} (hc : c ∈ v) :
    c = '.' ∨ isDigitChar pf.digit c = true := by
  by_cases hdot : c = '.'
  · exact .inl hdot
  · obtain ⟨w, hw, hcw⟩ := exists_mem_splitOn hc hdot
    simp only [isVersion, Bool.and_eq_true, List.all_eq_true] at h
    exact .inr ((h.2 w hw).2 c hcw)

theorem isVersion_notMem {v : Str} (h : isVersion pf v = true) {c : Char} (hdot : c ≠ '.')
    (hdigit : isDigitChar pf.digit c = false) : c ∉ v := by
  intro hc
  rcases isVersion_mem h hc with rfl | hc
  · exact hdot rfl
  · rw [hdigit] at hc
    cases hc

theorem isVersion_ne {v : Str} (h : isVersion pf v = true) : v ∉ [[], ['.'], ['.', '.'], currentName] := by
  simp only [List.mem_cons, List.not_mem_nil, or_false, not_or]
  refine ⟨?_, ?_, ?_, ?_⟩
  · rintro rfl
    cases h
  · rintro rfl
    cases h
  · rintro rfl
    cases h
  · rintro rfl
    exact isVersion_notMem h (by decide) rfl (List.mem_cons_self : 'c' ∈ currentName)

/-- The end of what `strip` leaves is no newline, so the `$` is the end. -/
theorem versionReMatch_normalize (version : Str) :
    versionReMatch pf (normalizeVersion version) = isVersion pf (normalizeVersion version) := by
  have hlast : (normalizeVersion version).getLast? ≠ some '\n' := by
    intro h
    obtain ⟨init, hinit⟩ := List.getLast?_eq_some_iff.mp h
    obtain ⟨front, hfront⟩ := List.dropWhile_suffix (l := strip isSpace version) (· == 'v')
    have hend : (strip isSpace version).getLast? = some '\n' := by
      rw [← hfront]
      show (front ++ normalizeVersion version).getLast? = _
      rw [hinit, ← List.append_assoc, List.getLast?_concat]
    have hspace := (stripped_strip isSpace version).last '\n' hend
    cases hspace
  rw [versionReMatch, decide_eq_false hlast, Bool.false_and, Bool.or_false]

/-- **The version is one component**, below any `VERSIONS_DIR`. -/
theorem join_version {v : Str} (h : isVersion pf v = true) (versionsDir : Str) :
    pathParts (join versionsDir v) = pathParts versionsDir ++ [.name v] := by
  have hslash : '/' ∉ v := isVersion_notMem h (by decide) rfl
  have hhead : v.head? ≠ some '/' := fun hv => hslash (List.mem_of_mem_head? hv)
  have hne := isVersion_ne h
  simp only [List.mem_cons, not_or] at hne
  have hparts : pathParts v = [.name v] := by
    rw [pathParts, List.splitOn_eq_singleton hslash]
    simp [components, hne.1, hne.2.1, hne.2.2.1]
  rw [pathParts_join versionsDir hhead, hparts]

theorem stagingDir_parts {v : Str} (h : isVersion pf v = true) (versionsDir : Str) :
    pathParts (join (join versionsDir v) stagingName) =
      pathParts versionsDir ++ [.name v] ++ [.name stagingName] := by
  rw [pathParts_join _ (by decide), join_version h]
  rfl

theorem stagingBinary_parts {v : Str} (h : isVersion pf v = true) (versionsDir : Str) :
    pathParts (join (join (join versionsDir v) stagingName) binaryName) =
      pathParts versionsDir ++ [.name v] ++ [.name stagingName] ++ [.name binaryName] := by
  rw [pathParts_join _ (by decide), stagingDir_parts h]
  rfl

theorem finalBinary_parts {v : Str} (h : isVersion pf v = true) (versionsDir : Str) :
    pathParts (join (join versionsDir v) binaryName) =
      pathParts versionsDir ++ [.name v] ++ [.name binaryName] := by
  rw [pathParts_join _ (by decide), join_version h]
  rfl

/-! ### The calls -/

variable {tree : LinkTree Str Nat} {up : List (Component Str)} {v : Str} {d : Path} {inode : Nat} {executable : Bool}

theorem lastEntry_append (tree : LinkTree Str Nat) (links : Nat) (p : List (Component Str)) (x : Str) :
    lastEntry tree links (p ++ [.name x]) = entryAt tree links p x := by
  rw [lastEntry, List.getLast?_concat, List.dropLast_concat]

theorem exists_walk_of_fileAt {p q : List (Component Str)} {file : Path × Nat × Bool}
    (hfile : fileAt tree links (p ++ q) = some file) : ∃ d left, walk tree links [] p = some (d, left) := by
  rcases hwalk : walk tree links [] p with _ | ⟨d, left⟩
  · rw [fileAt, walk_append, hwalk] at hfile
    cases hfile
  · exact ⟨d, left, rfl⟩

/-- The package in the real directory `v :: d` of the version, where `up` leads to `d`. -/
structure StagedAt (tree : LinkTree Str Nat) (links : Nat) (up : List (Component Str)) (v : Str) (d : Path)
    (inode : Nat) (executable : Bool) : Prop where
  dir : tree (v :: d) = some .dir
  staging : tree (stagingName :: v :: d) = some .dir
  package : tree (binaryName :: stagingName :: v :: d) = some (.file inode executable)
  walkDir : ∃ left, walk tree links [] (up ++ [.name v]) = some (v :: d, left)
  walkStaging : ∃ left, walk tree links [] (up ++ [.name v] ++ [.name stagingName]) = some (stagingName :: v :: d, left)

/-- **The package** is where its path says, if no link leads elsewhere. -/
theorem stagedAt_of_fileAt {left : Nat} (hwalk : walk tree links [] up = some (d, left)) (h : Unlinked tree (v :: d))
    {file : Path × Nat × Bool}
    (hfile : fileAt tree links (up ++ [.name v] ++ [.name stagingName] ++ [.name binaryName]) = some file) :
    StagedAt tree links up v d file.2.1 file.2.2 := by
  obtain ⟨q, inode, executable⟩ := file
  have hnode := fileAt_eq_some hfile
  unfold fileAt at hfile
  rcases hall : walk tree links [] (up ++ [.name v] ++ [.name stagingName] ++ [.name binaryName]) with _ | ⟨q', left'⟩
  · rw [hall] at hfile
    cases hfile
  · rw [hall] at hfile
    dsimp only at hfile
    have hq : q' = q := by
      rcases hnode' : tree q' with _ | _ | _ | _
      all_goals
        rw [hnode'] at hfile
        cases hfile
      rfl
    subst hq
    have hrest : walk tree left d [.name v, .name stagingName, .name binaryName] = some (q', left') := by
      rw [List.append_assoc, List.append_assoc, walk_append, hwalk] at hall
      exact hall
    obtain ⟨-, hin⟩ := walk_of_not_link hrest h.dir
    obtain ⟨-, hin'⟩ := walk_of_not_link hin h.staging
    obtain ⟨-, hlast⟩ := walk_of_not_link hin' h.package
    rw [walk_nil] at hlast
    obtain ⟨rfl, rfl⟩ := Prod.mk.inj (Option.some.inj hlast)
    have hdir := walk_dir hin
    have hstaging := walk_dir hin'
    have hwalkDir : walk tree links [] (up ++ [.name v]) = some (v :: d, left) := by
      rw [walk_append, hwalk]
      show walk tree left d [.name v] = _
      rw [walk_entry (walk_dir hrest) hdir h.dir, walk_nil]
    refine ⟨hdir, hstaging, hnode, ⟨left, hwalkDir⟩, left, ?_⟩
    rw [walk_append, hwalkDir]
    show walk tree left (v :: d) [.name stagingName] = _
    rw [walk_entry hdir hstaging h.staging, walk_nil]

theorem markExecutable_dir {p : Path} : markExecutable tree inode p = some .dir ↔ tree p = some .dir := by
  unfold markExecutable
  rcases tree p with _ | _ | _ | _ <;> simp

theorem markExecutable_link {p : Path} {absolute : Bool} {target : List (Component Str)} :
    markExecutable tree inode p = some (.link absolute target) ↔ tree p = some (.link absolute target) := by
  unfold markExecutable
  rcases tree p with _ | _ | _ | _ <;> simp

theorem markExecutable_dirsWithin (tree : LinkTree Str Nat) (inode : Nat) :
    DirsWithin (markExecutable tree inode) tree ∧ DirsWithin tree (markExecutable tree inode) :=
  ⟨⟨fun _ => markExecutable_dir.mp, fun _ _ _ => markExecutable_link.mp⟩,
    ⟨fun _ => markExecutable_dir.mpr, fun _ _ _ => markExecutable_link.mpr⟩⟩

section

variable (h : StagedAt tree links up v d inode executable) (hun : Unlinked tree (v :: d))

include h hun

/-- `chmod` changes the package only. -/
theorem markExecutable_eq :
    markExecutable tree inode = tree.put (binaryName :: stagingName :: v :: d) (.file inode true) := by
  funext p
  by_cases hp : p = binaryName :: stagingName :: v :: d
  · rw [hp, put_self, markExecutable, h.package]
    simp
  · rw [put_of_ne hp, markExecutable]
    rcases hnode : tree p with _ | _ | ⟨i, executable'⟩ | _
    · rfl
    · rfl
    · have hne : i ≠ inode := by
        rintro rfl
        exact hp (hun.single i executable h.package p executable' hnode)
      simp [hne]
    · rfl

theorem replace_eq {content : Nat → Bytes} {src dst : Str} {replaced : Disk}
    (hsrc : pathParts src = up ++ [.name v] ++ [.name stagingName] ++ [.name binaryName])
    (hdst : pathParts dst = up ++ [.name v] ++ [.name binaryName])
    (hreplace : Disk.replace ⟨markExecutable tree inode, content⟩ links src dst = some replaced) :
    replaced.tree =
      ((markExecutable tree inode).erase (binaryName :: stagingName :: v :: d)).put (binaryName :: v :: d)
        (.file inode true) := by
  obtain ⟨left, hwalkDir⟩ := h.walkDir
  obtain ⟨left', hwalkStaging⟩ := h.walkStaging
  have hwithin := (markExecutable_dirsWithin tree inode).2
  have hp : lastEntry (markExecutable tree inode) links (pathParts src) =
      some (binaryName :: stagingName :: v :: d) := by
    rw [hsrc, lastEntry_append]
    exact entryAt_eq_some.mpr
      ⟨_, left', hwithin.walk h.staging hwalkStaging, markExecutable_dir.mpr h.staging, rfl⟩
  have hq : lastEntry (markExecutable tree inode) links (pathParts dst) = some (binaryName :: v :: d) := by
    rw [hdst, lastEntry_append]
    exact entryAt_eq_some.mpr ⟨_, left, hwithin.walk h.dir hwalkDir, markExecutable_dir.mpr h.dir, rfl⟩
  have hnode : markExecutable tree inode (binaryName :: stagingName :: v :: d) = some (.file inode true) := by
    rw [markExecutable_eq h hun, put_self]
  have hother : Disk.sameFile (some (.file inode true)) (markExecutable tree inode (binaryName :: v :: d)) = false := by
    have hne : binaryName :: v :: d ≠ binaryName :: stagingName :: v :: d := by
      intro heq
      have hlen := congrArg List.length heq
      simp at hlen
    rw [markExecutable_eq h hun, put_of_ne hne]
    rcases hold : tree (binaryName :: v :: d) with _ | _ | ⟨i, executable'⟩ | _
    · rfl
    · rfl
    · refine decide_eq_false fun heq => hne (hun.single inode executable h.package _ executable' ?_)
      rw [hold, heq]
    · rfl
  unfold Disk.replace at hreplace
  simp only [hp, hq, hnode, hother, Bool.false_eq_true, if_false] at hreplace
  split_ifs at hreplace
  obtain rfl := Option.some.inj hreplace
  rfl

end

theorem not_cons_suffix {x y : Str} (hne : x ≠ y) (d : Path) : ¬(x :: d) <:+ (y :: d) :=
  fun h => hne (List.cons.inj (h.eq_of_length rfl)).1

theorem ne_of_outside {p q : Path} (hp : ¬d <:+ p) (hq : d <:+ q) : p ≠ q := fun h => hp (h ▸ hq)

/-- `rmtree` stays in the staging directory, also when the package has gone. -/
theorem rmtree_eq (h : StagedAt tree links up v d inode executable) {s : Disk} (hs : DirsWithin s.tree tree)
    {staging : Str} (hstaging : pathParts staging = up ++ [.name v] ++ [.name stagingName]) (keeps : Path → Bool) :
    ∀ p, ¬(stagingName :: v :: d) <:+ p → (s.rmtree links keeps staging).tree p = s.tree p := by
  rw [Disk.rmtree, hstaging, lastEntry_append]
  rcases htop : entryAt s.tree links (up ++ [.name v]) stagingName with _ | top
  · simp only [htop]
    exact fun _ _ => trivial
  · obtain ⟨e, left, hwalk, hdir, rfl⟩ := entryAt_eq_some.mp htop
    obtain ⟨left', hwalk'⟩ := h.walkDir
    obtain ⟨rfl, -⟩ := walk_unique hwalk' (hs.walk hdir hwalk)
    simp only [htop]
    split_ifs
    · intro p hp
      have hsuffix : (stagingName :: v :: d).isSuffixOf p = false :=
        Bool.eq_false_iff.mpr fun hsuffix => hp (List.isSuffixOf_iff_suffix.mp hsuffix)
      simp only [without, hsuffix, Bool.false_and, Bool.false_eq_true, if_false]
    · exact fun _ _ => rfl

/-! ### The call of the function -/

variable {version expected : Str} {s s' : Disk} {outcome : Outcome}

theorem Confined.refl (hne : outcome ≠ .installed) :
    Confined pf versionsDir links version expected s outcome s where
  absent := fun _ => rfl
  outside := fun _ _ _ _ => rfl
  installed := fun heq => absurd heq hne
  kept := fun _ _ _ => ⟨rfl, rfl⟩

theorem Confined.of_outside (hv : isVersion pf (normalizeVersion version) = true)
    (hd : versionsAt versionsDir links s.tree = some d)
    (houtside : ∀ p, ¬(normalizeVersion version :: d) <:+ p → s'.tree p = s.tree p)
    (hinstalled : outcome = .installed → ∃ inode executable,
      s.tree (binaryName :: stagingName :: normalizeVersion version :: d) = some (.file inode executable) ∧
        s'.tree (binaryName :: normalizeVersion version :: d) = some (.file inode true) ∧
        pf.sha256 (s'.content inode) = normalizeSha pf expected)
    (hkept : outcome ≠ .installed →
      s'.tree (binaryName :: normalizeVersion version :: d) = s.tree (binaryName :: normalizeVersion version :: d)) :
    Confined pf versionsDir links version expected s outcome s' where
  absent := fun hnone => by
    rw [hd] at hnone
    cases hnone
  outside := fun d' hd' => by
    cases hd.symm.trans hd'
    exact houtside
  installed := fun heq => ⟨d, hd, hinstalled heq⟩
  kept := fun hne d' hd' => by
    cases hd.symm.trans hd'
    refine ⟨hkept hne, houtside _ (not_cons_suffix ?_ d)⟩
    intro heq
    have hnot := isVersion_ne hv
    rw [heq] at hnot
    exact hnot (by decide)

section

variable (hv : isVersion pf (normalizeVersion version) = true) (hd : versionsAt versionsDir links s.tree = some d)
  (h : StagedAt s.tree links (pathParts versionsDir) (normalizeVersion version) d inode executable)
  (hun : Unlinked s.tree (normalizeVersion version :: d))

include hv hd h

theorem refused_confined {staging : Str} (keeps : Path → Bool) (hne : outcome ≠ .installed)
    (hstaging : pathParts staging =
      pathParts versionsDir ++ [.name (normalizeVersion version)] ++ [.name stagingName]) :
    Confined pf versionsDir links version expected s outcome (s.rmtree links keeps staging) := by
  have htree := rmtree_eq h ⟨fun _ => id, fun _ _ _ => id⟩ hstaging keeps
  refine .of_outside hv hd (fun p hp => ?_) (fun heq => absurd heq hne) fun _ => ?_
  · exact htree p fun hin => hp ((List.suffix_cons _ _).trans hin)
  · exact htree _ (not_cons_suffix stagingName_ne _)

include hun

theorem ready_confined (hne : outcome ≠ .installed) :
    Confined pf versionsDir links version expected s outcome ⟨markExecutable s.tree inode, s.content⟩ := by
  have htree := markExecutable_eq h hun
  refine .of_outside hv hd (fun p hp => ?_) (fun heq => absurd heq hne) fun _ => ?_
  · show markExecutable s.tree inode p = _
    rw [htree, put_of_ne]
    exact ne_of_outside hp ((List.suffix_cons _ _).trans (List.suffix_cons _ _))
  · show markExecutable s.tree inode _ = _
    rw [htree, put_of_ne]
    intro heq
    have hlen := congrArg List.length heq
    simp at hlen

theorem installed_confined {staging src dst : Str} {replaced : Disk} (keeps : Path → Bool)
    (hsha : pf.sha256 (s.content inode) = normalizeSha pf expected)
    (hstaging : pathParts staging =
      pathParts versionsDir ++ [.name (normalizeVersion version)] ++ [.name stagingName])
    (hsrc : pathParts src = pathParts versionsDir ++ [.name (normalizeVersion version)] ++ [.name stagingName] ++
      [.name binaryName])
    (hdst : pathParts dst = pathParts versionsDir ++ [.name (normalizeVersion version)] ++ [.name binaryName])
    (hreplace : Disk.replace ⟨markExecutable s.tree inode, s.content⟩ links src dst = some replaced) :
    Confined pf versionsDir links version expected s .installed (replaced.rmtree links keeps staging) := by
  have hmoved := replace_eq h hun hsrc hdst hreplace
  have hwithin : DirsWithin replaced.tree s.tree := by
    rw [hmoved]
    constructor
    · intro p hp
      unfold LinkTree.put at hp
      split_ifs at hp
      · cases hp
      · exact markExecutable_dir.mp (erase_eq_some.mp hp).2
    · intro p absolute target hp
      unfold LinkTree.put at hp
      split_ifs at hp
      · cases hp
      · exact markExecutable_link.mp (erase_eq_some.mp hp).2
  have htree := rmtree_eq h hwithin hstaging keeps
  rw [hmoved] at htree
  refine .of_outside hv hd (fun p hp => ?_) (fun _ => ?_) fun hne => absurd rfl hne
  · rw [htree p fun hin => hp ((List.suffix_cons _ _).trans hin), put_of_ne, erase_of_ne, markExecutable_eq h hun,
      put_of_ne]
    · exact ne_of_outside hp ((List.suffix_cons _ _).trans (List.suffix_cons _ _))
    · exact ne_of_outside hp ((List.suffix_cons _ _).trans (List.suffix_cons _ _))
    · exact ne_of_outside hp (List.suffix_cons _ _)
  · refine ⟨inode, executable, h.package, ?_, ?_⟩
    · rw [htree _ (not_cons_suffix stagingName_ne _), put_self]
    · rw [Disk.rmtree_content, Disk.replace_content hreplace]
      exact hsha

end

/-- No call writes into a file, on a disk with any links. -/
theorem finalizeOnDisk_content (faults : Faults) :
    (finalizeOnDisk pf versionsDir links faults version expected s).2.content = s.content := by
  unfold finalizeOnDisk
  by_cases hbad : (!versionReMatch pf (normalizeVersion version)) = true
  · rw [if_pos hbad]
  rw [if_neg hbad]
  dsimp only
  split
  · rfl
  · rcases (if faults.read = true then none else s.read links _) with _ | bytes
    · rfl
    · dsimp only
      split
      · exact Disk.rmtree_content s _ _ _
      · rcases hready : (if faults.chmod = true then none else s.chmod links _) with _ | ready
        · rfl
        · have hchmod : ready.content = s.content := Disk.chmod_content (Option.ite_none_left_eq_some.mp hready).2
          dsimp only
          rcases hreplaced : (if faults.replace = true then none else ready.replace links _ _) with _ | replaced
          · exact hchmod
          · exact (Disk.rmtree_content replaced _ _ _).trans
              ((Disk.replace_content (Option.ite_none_left_eq_some.mp hreplaced).2).trans hchmod)

theorem finalizeOnDisk_checked (faults : Faults) :
    Checked versionsDir version s (finalizeOnDisk pf versionsDir links faults version expected s).1
      (finalizeOnDisk pf versionsDir links faults version expected s).2 where
  content := finalizeOnDisk_content faults
  check := by
    cases hv : isVersion pf (normalizeVersion version) with
    | false =>
      left
      simp only [finalizeOnDisk, versionReMatch_normalize, hv, Bool.not_false, if_true]
      exact ⟨⟨_, rfl⟩, trivial⟩
    | true => exact .inr ⟨join_version hv versionsDir, isVersion_notMem hv (by decide) rfl, isVersion_ne hv⟩

/-- **What installing a version may change**, whatever the request says and whichever system calls fail: the contents of
files and the check of the version on any disk, and the rest if the directories of the version and its package are no
links. -/
theorem finalizeOnDisk_confined (pf : Platform) (versionsDir : Str) (links : Nat) (faults : Faults)
    (version expected : Str) (s : Disk) :
    Checked versionsDir version s (finalizeOnDisk pf versionsDir links faults version expected s).1
        (finalizeOnDisk pf versionsDir links faults version expected s).2 ∧
      ((∀ d ∈ versionsAt versionsDir links s.tree, Unlinked s.tree (normalizeVersion version :: d)) →
        Confined pf versionsDir links version expected s
          (finalizeOnDisk pf versionsDir links faults version expected s).1
          (finalizeOnDisk pf versionsDir links faults version expected s).2) := by
  refine ⟨finalizeOnDisk_checked faults, fun h => ?_⟩
  simp only [finalizeOnDisk, versionReMatch_normalize]
  cases hv : isVersion pf (normalizeVersion version) with
  | false => exact .refl nofun
  | true =>
    have hsame (outcome : Outcome) (hne : outcome ≠ .installed) :
        Confined pf versionsDir links version expected s outcome s := .refl hne
    have hstaging := stagingDir_parts hv versionsDir
    have hbinary := stagingBinary_parts hv versionsDir
    have hfinal := finalBinary_parts hv versionsDir
    simp only [Bool.not_true, Bool.false_eq_true, if_false, Disk.isfile, Disk.read, Disk.chmod, hbinary]
    rcases hfile : fileAt s.tree links (pathParts versionsDir ++ [.name (normalizeVersion version)] ++
      [.name stagingName] ++ [.name binaryName]) with _ | file
    · simp only [hfile, Option.isSome_none, Bool.not_false, Bool.or_true, if_true]
      exact hsame _ nofun
    · -- the package is there, so `VERSIONS_DIR` is
      obtain ⟨d, left, hwalk⟩ : ∃ d left, walk s.tree links [] (pathParts versionsDir) = some (d, left) := by
        rw [List.append_assoc, List.append_assoc] at hfile
        exact exists_walk_of_fileAt hfile
      have hd : versionsAt versionsDir links s.tree = some d := by rw [versionsAt, hwalk]; rfl
      have hun := h d hd
      have hstaged := stagedAt_of_fileAt hwalk hun hfile
      simp only [hfile, Option.isSome_some, Bool.not_true, Bool.or_false, Option.map_some]
      by_cases hisfile : faults.isfile = true
      · rw [if_pos hisfile]
        exact hsame _ nofun
      rw [if_neg hisfile]
      by_cases hread : faults.read = true
      · rw [if_pos hread]
        exact hsame _ nofun
      rw [if_neg hread]
      dsimp only
      by_cases hsha : pf.sha256 (s.content file.2.1) = normalizeSha pf expected
      · rw [if_neg (not_not.mpr hsha)]
        by_cases hchmod : faults.chmod = true
        · rw [if_pos hchmod]
          exact hsame _ nofun
        rw [if_neg hchmod]
        dsimp only
        rcases hreplace : (if faults.replace = true then none else
          Disk.replace ⟨markExecutable s.tree file.2.1, s.content⟩ links
            (join (join (join versionsDir (normalizeVersion version)) stagingName) binaryName)
            (join (join versionsDir (normalizeVersion version)) binaryName)) with _ | replaced
        · exact ready_confined hv hd hstaged hun nofun
        · split_ifs at hreplace
          exact installed_confined hv hd hstaged hun faults.keeps hsha hstaging hbinary hfinal hreplace
      · rw [if_pos hsha]
        exact refused_confined hv hd hstaged faults.keeps nofun hstaging

/-! ### Disks with links and without -/

/-- The entries of a disk. -/
abbrev Layout := List (Path × Node Str Nat)

def Layout.disk (layout : Layout) : Disk := ⟨Dict.get layout, fun _ => [0x61]⟩

def versionsName : Str := ['v', 'e', 'r', 's', 'i', 'o', 'n', 's']

def dataName : Str := ['d', 'a', 't', 'a']

/-- The version 1.8. -/
def pushed : Str := ['1', '.', '8']

def pushedDir : Path := [pushed, versionsName]

/-- `/versions` and `/data`, and an older version that is `current`. -/
def common : Layout :=
  [([], .dir), ([versionsName], .dir), ([currentName, versionsName], .link false [.name ['1', '.', '7']]),
    ([['1', '.', '7'], versionsName], .dir), ([binaryName, ['1', '.', '7'], versionsName], .file 7 true)]

/-- The package is pushed. -/
def plain : Layout :=
  common ++ [(pushedDir, .dir), (stagingName :: pushedDir, .dir),
    (binaryName :: stagingName :: pushedDir, .file 0 false)]

/-- Links from the version and its files to `/data`, and the entry that each of them makes a call change. -/
def linked : List (Layout × Path) :=
  [ -- the directory of the version is a link
    (common ++ [([dataName], .dir), (pushedDir, .link true [.name dataName]), ([stagingName, dataName], .dir),
        ([binaryName, stagingName, dataName], .file 0 false)], [binaryName, dataName]),
    -- the staging directory is a link
    (common ++ [([dataName], .dir), (pushedDir, .dir), (stagingName :: pushedDir, .link true [.name dataName]),
        ([binaryName, dataName], .file 0 false)], [binaryName, dataName]),
    -- the package is a link
    (common ++ [([dataName], .file 0 false), (pushedDir, .dir), (stagingName :: pushedDir, .dir),
        (binaryName :: stagingName :: pushedDir, .link true [.name dataName])], [dataName]),
    -- the package has a hard link
    (plain ++ [([dataName], .file 0 false)], [dataName])]

def noFaults : Faults := ⟨false, false, false, false, fun _ => false⟩

/-- Installing the version 1.8 with the hash of the package. -/
def install (layout : Layout) : Outcome × Disk :=
  finalizeOnDisk plainPlatform ('/' :: versionsName) 40 noFaults pushed ['a'] layout.disk

theorem unlinked_plain : Unlinked plain.disk.tree pushedDir where
  dir := rfl
  staging := rfl
  package := rfl
  single := by
    intro inode executable hpackage p executable' hp
    cases hpackage
    have hall : ∀ entry ∈ plain, ∀ x, entry.2 = .file 0 x → entry.1 = binaryName :: stagingName :: pushedDir := by
      decide
    exact hall _ (Dict.mem_of_get hp) executable' rfl

theorem finalizeOnDisk_confined_plain :
    Confined plainPlatform ('/' :: versionsName) 40 pushed ['a'] plain.disk (install plain).1 (install plain).2 ∧
      (install plain).1 = .installed :=
  ⟨(finalizeOnDisk_confined plainPlatform ('/' :: versionsName) 40 noFaults pushed ['a'] plain.disk).2
    (fun d hd => by cases hd; exact unlinked_plain), by decide⟩

/-- A call changes what links lead to. -/
theorem install_linked :
    linked.all (fun disk => ¬pushedDir <:+ disk.2 ∧ (install disk.1).1 = .installed ∧
      (install disk.1).2.tree disk.2 ≠ disk.1.disk.tree disk.2) = true := by
  decide

end SocketServer.Upgrade.Confinement
