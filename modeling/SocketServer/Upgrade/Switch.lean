import SocketServer.Lib.Symlinks
import SocketServer.Upgrade.Finalize
import Mathlib.Data.List.Sort

/-!
# Switching versions through crashes (`upgrader.py`)

The service runs `versions/current/socket_server`, where `current` is a link to the directory of a version. Upgrades
change these entries by system calls: `finalize_pushed_version` by `chmod`, `os.replace` and `shutil.rmtree`,
`switch_to` by `os.unlink`, `os.symlink` and `os.replace`. An operation may stop after any of them, and the next one
starts from what it has left: `upgradeStep` has one step for each call, and `stop`.

A crash between `os.symlink` and `os.replace` leaves `current.tmp`, and `list_local_versions` leaves out `current`
only. `switch_version` then accepts the version `current.tmp`: its `os.unlink` removes what it is switching to.

`run_serves` : in every run in which each operation starts in a state of the kind `StartsSafe`, the service has its
executable in every state reached.
-/

namespace SocketServer.Upgrade

open Text LinkTree

variable (pf : Platform) (links : Nat)

/-! ### Paths -/

/-- The components that a name makes, as the last part of `os.path.join`. -/
def components (name : Str) : List (Component Str) :=
  if name = [] ∨ name = ['.'] then [] else if name = ['.', '.'] then [.up] else [.name name]

def versionsPath : List (Component Str) := pf.versionsDir.reverse.map .name

/-- `os.path.join(VERSIONS_DIR, version)`. -/
def versionPath (version : Str) : List (Component Str) := versionsPath pf ++ components version

def stagingName : Str := ['.', 's', 't', 'a', 'g', 'i', 'n', 'g']

def stagingPath (version : Str) : List (Component Str) := versionPath pf version ++ [.name stagingName]

def currentName : Str := ['c', 'u', 'r', 'r', 'e', 'n', 't']

/-- `current_link + ".tmp"`. -/
def tmpName : Str := currentName ++ ['.', 't', 'm', 'p']

/-! ### The operations -/

/-- What an operation has done, and which call is the next. -/
inductive Operation
  | idle
  /-- `finalize_pushed_version` : the hashes agree, and `os.chmod` is next. -/
  | matched (version : Str)
  /-- `os.replace` of the package is next. -/
  | executable (version : Str)
  /-- `shutil.rmtree(staging_dir)` is next. -/
  | cleaning (version : Str)
  /-- `shutil.rmtree` is removing the directory `top`. -/
  | removing (top : Path)
  /-- `switch_to` : the version is there, and `current.tmp` is looked at next. -/
  | checked (version : Str)
  /-- `os.symlink` is next. -/
  | linking (version : Str)
  /-- `os.replace` of `current.tmp` is next. -/
  | linked
  deriving DecidableEq, Repr

structure UpgradeState where
  files : Files Str Bytes
  operation : Operation

def UpgradeState.tree (s : UpgradeState) : LinkTree Str Bytes := Files.tree s.files

inductive UpgradeAction
  /-- `finalize_pushed_version(version, expected_sha256)`, to the comparison of the hashes. -/
  | finalize (version expected : Str)
  /-- `_restart_after_upgrade(version)`, with a version that `finalize_pushed_version` accepts. -/
  | restart (version : Str)
  /-- `switch_version(version)`, or the choice of a number. -/
  | switchVersion (version : Option Str) (choice : Nat)
  /-- The next system call. -/
  | call
  /-- `shutil.rmtree` removes an entry. -/
  | remove (p : Path)
  /-- The operation returns or raises, or the machine crashes. -/
  | stop
  deriving DecidableEq, Repr

/-- `finalize_pushed_version`, to the comparison of the hashes. -/
def finalizePushedVersion (s : UpgradeState) (version expected : Str) : UpgradeState :=
  if isVersion pf (normalizeVersion version) then
    match fileAt s.tree links (stagingPath pf (normalizeVersion version) ++ [.name binaryName]) with
    | none => s
    | some (_, content, _) =>
      if pf.sha256 content ≠ normalizeSha pf expected then
        { s with operation := .cleaning (normalizeVersion version) }
      else { s with operation := .matched (normalizeVersion version) }
  else s

def isVersionDownloaded (tree : LinkTree Str Bytes) (version : Str) : Bool :=
  (fileAt tree links (versionPath pf (normalizeVersion version) ++ [.name binaryName])).any fun file => file.2.2

/-- `switch_to`, to the check of the version. -/
def switchTo (s : UpgradeState) (version : Str) : UpgradeState :=
  if isVersionDownloaded pf links s.tree (normalizeVersion version) then
    { s with operation := .checked (normalizeVersion version) }
  else s

/-- The order of `sorted`, by the characters. -/
def nameLe (a b : Str) : Bool := !List.lex b a fun x y => decide (x.toNat < y.toNat)

/-- The names that `list_local_versions` returns. -/
def listLocalVersions (files : Files Str Bytes) : List Str :=
  match walk (Files.tree files) links [] (versionsPath pf) with
  | none => []
  | some (d, _) =>
    if isDir (Files.tree files) d then
      let names := files.keys.filterMap fun p => if p.tail = d then p.head? else none
      (names.insertionSort fun a b => nameLe a b = true).filter fun name =>
        name ≠ currentName ∧ (fileAt (Files.tree files) links (versionPath pf name ++ [.name binaryName])).isSome
    else []

/-- The version that `switch_version` switches to. -/
def chosenVersion (versions : List Str) (version : Option Str) (choice : Nat) : Option Str :=
  match version with
  | none => versions[choice]?
  | some version => if normalizeVersion version ∈ versions then some (normalizeVersion version) else none

/-- The next system call of the operation; `none` where it raises, and `stop` follows. -/
def upgradeCall (s : UpgradeState) : Option UpgradeState :=
  match s.operation with
  | .idle | .removing _ => none
  | .matched version =>
    (Files.chmod s.files links (stagingPath pf version ++ [.name binaryName])).map fun files =>
      ⟨files, .executable version⟩
  | .executable version =>
    (Files.replace s.files links (stagingPath pf version) binaryName (versionPath pf version) binaryName).map
      fun files => ⟨files, .cleaning version⟩
  | .cleaning version =>
    match entryAt s.tree links (versionPath pf version) stagingName with
    | none => none
    -- `rmtree` refuses a link
    | some top => if isDir s.tree top then some { s with operation := .removing top } else none
  | .checked version =>
    some ⟨Files.unlinkLink s.files links (versionsPath pf) tmpName, .linking version⟩
  | .linking version =>
    (Files.symlink s.files links (versionPath pf version) (versionsPath pf) tmpName).map fun files =>
      ⟨files, .linked⟩
  | .linked =>
    (Files.replace s.files links (versionsPath pf) tmpName (versionsPath pf) currentName).map fun files =>
      ⟨files, .idle⟩

/-- One step of an upgrade. -/
def upgradeStep (s : UpgradeState) : UpgradeAction → Option UpgradeState
  | .finalize version expected =>
    if s.operation = .idle then some (finalizePushedVersion pf links s version expected) else none
  | .restart version =>
    if s.operation = .idle ∧ isVersion pf (normalizeVersion version) then some (switchTo pf links s version) else none
  | .switchVersion version choice =>
    if s.operation = .idle then
      match chosenVersion (listLocalVersions pf links s.files) version choice with
      | none => some s
      | some version => some (switchTo pf links s version)
    else none
  | .call => upgradeCall pf links s
  | .remove p =>
    match s.operation with
    | .removing top =>
      -- a directory is removed when it is empty
      if top <:+ p ∧ (isDir s.tree p → s.files.keys.all fun q => q.tail ≠ p) then
        some { s with files := AList.erase p s.files }
      else none
    | _ => none
  | .stop => some { s with operation := .idle }

/-- `versions/current` resolves to a directory that holds an executable `socket_server`. -/
def Serves (tree : LinkTree Str Bytes) : Prop := Holds tree links (versionsPath pf ++ [.name currentName]) binaryName

instance (tree : LinkTree Str Bytes) : Decidable (Serves pf links tree) := inferInstanceAs (Decidable (Holds ..))

/-! ### What an operation may start from -/

/-- The entries that `shutil.rmtree(top)` removes. -/
def removable (tree : LinkTree Str Bytes) (top : Path) (p : Path) : Bool := isDir tree top && top.isSuffixOf p

/-- What `finalize_pushed_version` leaves, for the package `package` and the directory `d` of the version. -/
def remaining (tree : LinkTree Str Bytes) (package d : Path) : LinkTree Str Bytes :=
  tree.without fun p => decide (p = package) || removable tree (stagingName :: d) p

/-- The service does without the staging directory. -/
def CleanSafe (tree : LinkTree Str Bytes) (version : Str) : Prop :=
  ∀ top, entryAt tree links (versionPath pf version) stagingName = some top →
    Serves pf links (tree.without (removable tree top))

/-- The directory of the version and the service do without the package and the staging directory. The service does
without the installed file too, or the package is a file and the installed one counts as an executable file. Where
the installed file is a directory, nothing is renamed. -/
def FinalizeSafe (tree : LinkTree Str Bytes) (version : Str) (ready : Bool) : Prop :=
  ∀ d left package, walk tree links [] (versionPath pf version) = some (d, left) →
    entryAt tree links (stagingPath pf version) binaryName = some package → isDir tree (binaryName :: d) = false →
    (∃ left', walk ((remaining tree package d).erase (binaryName :: d)) links [] (versionPath pf version) =
        some (d, left')) ∧
      (Serves pf links ((remaining tree package d).erase (binaryName :: d)) ∨
        (∃ content executable, tree package = some (.file content executable) ∧
          (ready = true → executable = true)) ∧
        Serves pf links ((remaining tree package d).put (binaryName :: d) (.file [] true)))

/-- `current` and `current.tmp` in the directory `d`. -/
def isCurrent (d p : Path) : Bool := decide (p = currentName :: d) || decide (p = tmpName :: d)

/-- The version is there without `current` and `current.tmp`, and one link may lead to it. Where `current` is a
directory, nothing is renamed. -/
def LinkSafe (tree : LinkTree Str Bytes) (d : Path) (version : Str) : Prop :=
  isDir tree (currentName :: d) = true ∨
    ∃ left, walk (tree.without (isCurrent d)) links [] (versionsPath pf) = some (d, left + 1) ∧
      Holds (tree.without (isCurrent d)) left (versionPath pf version) binaryName

/-- If `current.tmp` is a link, the service does without it. If it is not there or a link, it can be linked to the
version. -/
def SwitchSafe (tree : LinkTree Str Bytes) (version : Str) : Prop :=
  ∀ d left, walk tree links [] (versionsPath pf) = some (d, left) →
    (isLink tree (tmpName :: d) = true → Serves pf links (tree.erase (tmpName :: d))) ∧
      (tree (tmpName :: d) = none ∨ isLink tree (tmpName :: d) = true → LinkSafe pf links tree d version)

/-- What the next calls of the operation rely on. -/
def Safe (tree : LinkTree Str Bytes) : Operation → Prop
  | .idle => True
  | .matched version => FinalizeSafe pf links tree version false
  | .executable version => FinalizeSafe pf links tree version true
  | .cleaning version => CleanSafe pf links tree version
  | .removing top => Serves pf links (tree.without fun p => top.isSuffixOf p)
  | .checked version => SwitchSafe pf links tree version
  | .linking version => ∀ d left, walk tree links [] (versionsPath pf) = some (d, left) →
      tree (tmpName :: d) = none → LinkSafe pf links tree d version
  | .linked => ∀ d left, walk tree links [] (versionsPath pf) = some (d, left) →
      ∃ version, tree (tmpName :: d) = some (.link true (versionPath pf version)) ∧ LinkSafe pf links tree d version

/-- The condition on the start of an operation. -/
def StartsSafe (s : UpgradeState) : UpgradeAction → Prop
  | .finalize version expected =>
    isVersion pf (normalizeVersion version) = true →
    ∀ file, fileAt s.tree links (stagingPath pf (normalizeVersion version) ++ [.name binaryName]) = some file →
      (pf.sha256 file.2.1 ≠ normalizeSha pf expected → CleanSafe pf links s.tree (normalizeVersion version)) ∧
        (pf.sha256 file.2.1 = normalizeSha pf expected →
          FinalizeSafe pf links s.tree (normalizeVersion version) false)
  | .restart version =>
    isVersionDownloaded pf links s.tree (normalizeVersion version) = true →
      SwitchSafe pf links s.tree (normalizeVersion version)
  | .switchVersion version choice =>
    ∀ name, chosenVersion (listLocalVersions pf links s.files) version choice = some name →
      isVersionDownloaded pf links s.tree (normalizeVersion name) = true →
        SwitchSafe pf links s.tree (normalizeVersion name)
  | .call | .remove _ | .stop => True

/-! ### The calls -/

variable {pf} {links} {tree tree' : LinkTree Str Bytes} {s s' : UpgradeState} {version : Str}

/-- The service, and what the operation relies on. -/
def Serving (pf : Platform) (links : Nat) (s : UpgradeState) : Prop :=
  Serves pf links s.tree ∧ Safe pf links s.tree s.operation

theorem currentName_ne : currentName ≠ tmpName := by decide

theorem stagingName_ne : stagingName ≠ binaryName := by decide

theorem cons_ne_self (x : Str) (d : Path) : d ≠ x :: d := by
  intro h
  have hlen := congrArg List.length h
  simp at hlen

theorem Serves.versions (h : Serves pf links tree) :
    ∃ d left, walk tree links [] (versionsPath pf) = some (d, left) ∧ tree d = some .dir := by
  obtain ⟨e, left, hwalk, -⟩ := h
  obtain ⟨d, left', hversions, hdir, -⟩ := walk_parent hwalk
  exact ⟨d, left', hversions, hdir⟩

/-- `current.tmp` may come and go. -/
theorem LinkSafe.congr {d : Path} (h : LinkSafe pf links tree d version)
    (hsame : ∀ p, p ≠ tmpName :: d → tree' p = tree p) : LinkSafe pf links tree' d version := by
  have hcurrent : tree' (currentName :: d) = tree (currentName :: d) :=
    hsame _ fun h => currentName_ne (List.cons.inj h).1
  have hbetter : Better (tree.without (isCurrent d)) (tree'.without (isCurrent d)) := by
    refine .of_entries fun p node hp => ?_
    obtain ⟨hgone, hnode⟩ := without_eq_some.mp hp
    refine without_eq_some.mpr ⟨hgone, ?_⟩
    rw [hsame, hnode]
    rintro rfl
    simp [isCurrent] at hgone
  rcases h with hdir | ⟨left, hwalk, hholds⟩
  · exact .inl (isDir_iff.mpr (hcurrent.trans (isDir_iff.mp hdir)))
  · exact .inr ⟨left, hbetter.walk hwalk, hbetter.holds hholds⟩

theorem unlink_serving (h : Serving pf links s) (hop : s.operation = .checked version) :
    Serving pf links ⟨Files.unlinkLink s.files links (versionsPath pf) tmpName, .linking version⟩ := by
  obtain ⟨hserves, hsafe⟩ := h
  rw [hop] at hsafe
  obtain ⟨d, left, hwalk, hdir⟩ := hserves.versions
  obtain ⟨hunlink, hlink⟩ := hsafe d left hwalk
  have hentry : entryAt s.tree links (versionsPath pf) tmpName = some (tmpName :: d) :=
    entryAt_eq_some.mpr ⟨d, left, hwalk, hdir, rfl⟩
  have htree := Files.unlinkLink_spec hentry
  unfold Serving
  show Serves pf links (Files.tree _) ∧ Safe pf links (Files.tree _) _
  rw [htree]
  split_ifs with hislink
  · refine ⟨hunlink hislink, fun d' left' hwalk' _ => ?_⟩
    obtain ⟨rfl, rfl⟩ := walk_unique hwalk ((erase_better _ _).walk hwalk')
    exact (hlink (.inr hislink)).congr fun p hp => erase_of_ne hp
  · refine ⟨hserves, fun d' left' hwalk' hnone => ?_⟩
    obtain ⟨rfl, rfl⟩ := walk_unique hwalk hwalk'
    exact hlink (.inl hnone)

theorem symlink_serving {files : Files Str Bytes} (h : Serving pf links s) (hop : s.operation = .linking version)
    (hcall : Files.symlink s.files links (versionPath pf version) (versionsPath pf) tmpName = some files) :
    Serving pf links ⟨files, .linked⟩ := by
  obtain ⟨hserves, hsafe⟩ := h
  rw [hop] at hsafe
  obtain ⟨p, hentry, hnone, htree⟩ := Files.symlink_spec hcall
  obtain ⟨d, left, hwalk, -, rfl⟩ := entryAt_eq_some.mp hentry
  have hbetter : Better s.tree (s.tree.put (tmpName :: d) (.link true (versionPath pf version))) :=
    better_put hnone _
  show Serves pf links (Files.tree files) ∧ Safe pf links (Files.tree files) .linked
  rw [htree]
  refine ⟨hbetter.holds hserves, fun d' left' hwalk' => ⟨version, ?_⟩⟩
  obtain ⟨rfl, rfl⟩ := walk_unique (hbetter.walk hwalk) hwalk'
  exact ⟨put_self _ _ _, (hsafe d left hwalk hnone).congr fun p hp => put_of_ne hp _⟩

theorem replaceLink_serving {files : Files Str Bytes} (h : Serving pf links s) (hop : s.operation = .linked)
    (hcall : Files.replace s.files links (versionsPath pf) tmpName (versionsPath pf) currentName = some files) :
    Serving pf links ⟨files, .idle⟩ := by
  obtain ⟨hserves, hsafe⟩ := h
  rw [hop] at hsafe
  obtain ⟨p, q, node, hp, hq, hnode, hnotDir, htree⟩ := Files.replace_spec hcall
  obtain ⟨d, left, hwalk, hdir, rfl⟩ := entryAt_eq_some.mp hp
  obtain ⟨d', left', hwalk', -, rfl⟩ := entryAt_eq_some.mp hq
  obtain ⟨rfl, rfl⟩ := walk_unique hwalk hwalk'
  obtain ⟨version, hlink, hcurrent | ⟨left', hversions, hholds⟩⟩ := hsafe d left hwalk
  · exact absurd hcurrent (Bool.eq_false_iff.mp hnotDir)
  · have hnode' : node = .link true (versionPath pf version) := Option.some.inj (hnode.symm.trans hlink)
    rw [hnode'] at htree
    refine ⟨?_, trivial⟩
    show Serves pf links (Files.tree files)
    rw [htree]
    -- the target does not pass through the two entries that change
    have hbetter : Better (s.tree.without (isCurrent d))
        ((s.tree.erase (tmpName :: d)).put (currentName :: d) (.link true (versionPath pf version))) := by
      refine .of_entries fun p node hp => ?_
      obtain ⟨hgone, hnode⟩ := without_eq_some.mp hp
      obtain ⟨hne, hne'⟩ := Bool.or_eq_false_iff.mp hgone
      rw [put_of_ne (of_decide_eq_false hne)]
      exact erase_eq_some.mpr ⟨of_decide_eq_false hne', hnode⟩
    refine holds_link (hbetter.walk hversions) ?_ (put_self _ _ _) (hbetter.holds hholds)
    rw [put_of_ne (cons_ne_self _ _)]
    exact erase_eq_some.mpr ⟨cons_ne_self _ _, hdir⟩

/-! ### The package -/

theorem removable_congr {top : Path} (h : isDir tree' top = isDir tree top) :
    removable tree' top = removable tree top := by
  funext p
  unfold removable
  rw [h]

theorem chmod_serving {files : Files Str Bytes} (h : Serving pf links s) (hop : s.operation = .matched version)
    (hcall : Files.chmod s.files links (stagingPath pf version ++ [.name binaryName]) = some files) :
    Serving pf links ⟨files, .executable version⟩ := by
  obtain ⟨hserves, hsafe⟩ := h
  rw [hop] at hsafe
  obtain ⟨q, content, executable, hfileAt, htree⟩ := Files.chmod_spec hcall
  have hfile : s.tree q = some (.file content executable) := fileAt_eq_some hfileAt
  have hbetter : Better s.tree (s.tree.put q (.file content true)) := better_put_file hfile content
  have hwithin : Within (s.tree.put q (.file content true)) s.tree := put_file_within hfile content true
  show Serves pf links (Files.tree files) ∧ FinalizeSafe pf links (Files.tree files) version true
  rw [htree]
  refine ⟨hbetter.holds hserves, fun d left package hwalk hentry hfinal => ?_⟩
  have hfinal' : isDir s.tree (binaryName :: d) = false := by
    rw [Bool.eq_false_iff] at hfinal ⊢
    exact fun hdir => hfinal (isDir_iff.mpr (hbetter.dir _ (isDir_iff.mp hdir)))
  obtain ⟨⟨left', hversion⟩, hcases⟩ := hsafe d left package (hwithin.walk hwalk) (hwithin.entryAt hentry) hfinal'
  -- the same entries go
  have hremaining : Better (remaining s.tree package d) (remaining (s.tree.put q (.file content true)) package d) := by
    have hdir : isDir (s.tree.put q (.file content true)) (stagingName :: d) = isDir s.tree (stagingName :: d) := by
      rw [Bool.eq_iff_iff, isDir_iff, isDir_iff]
      exact ⟨hwithin.dir _, hbetter.dir _⟩
    unfold remaining
    rw [removable_congr hdir]
    exact hbetter.without _
  refine ⟨⟨left', (hremaining.without _).walk hversion⟩, ?_⟩
  rcases hcases with hserves' | ⟨⟨content', executable', hpackage, -⟩, hserves'⟩
  · exact .inl ((hremaining.without _).holds hserves')
  · have heq := fileAt_of_entryAt (hwithin.entryAt hentry) hpackage
    obtain ⟨rfl, -⟩ := Prod.mk.inj (Option.some.inj (hfileAt.symm.trans heq))
    exact .inr ⟨⟨content, true, put_self _ _ _, fun _ => rfl⟩, (hremaining.put _ _).holds hserves'⟩

theorem not_removable (tree : LinkTree Str Bytes) (d : Path) :
    removable tree (stagingName :: d) (binaryName :: d) = false := by
  have hsuffix : ¬ stagingName :: d <:+ binaryName :: d := by
    intro h
    exact stagingName_ne (List.cons.inj (h.eq_of_length rfl)).1
  unfold removable
  rw [Bool.eq_false_iff.mpr (mt List.isSuffixOf_iff_suffix.mp hsuffix), Bool.and_false]

theorem remaining_stays {package d p : Path} {node : Node Str Bytes} (node' : Node Str Bytes)
    (hp : remaining tree package d p = some node) (hne : p ≠ binaryName :: d) :
    (((tree.erase package).put (binaryName :: d) node').without (removable tree (stagingName :: d))) p = some node := by
  obtain ⟨hgone, hnode⟩ := without_eq_some.mp hp
  obtain ⟨hpackage, hremovable⟩ := Bool.or_eq_false_iff.mp hgone
  refine without_eq_some.mpr ⟨hremovable, ?_⟩
  rw [put_of_ne hne]
  exact erase_eq_some.mpr ⟨of_decide_eq_false hpackage, hnode⟩

theorem remaining_better {package d : Path} (node : Node Str Bytes) :
    Better ((remaining tree package d).erase (binaryName :: d))
      (((tree.erase package).put (binaryName :: d) node).without (removable tree (stagingName :: d))) := by
  refine .of_entries fun p node' hp => ?_
  obtain ⟨hne, hp⟩ := erase_eq_some.mp hp
  exact remaining_stays node hp hne

theorem remaining_put_better {package d : Path} (content : Bytes) :
    Better ((remaining tree package d).put (binaryName :: d) (.file [] true))
      (((tree.erase package).put (binaryName :: d) (.file content true)).without
        (removable tree (stagingName :: d))) := by
  have hcontent : Better ((remaining tree package d).put (binaryName :: d) (.file [] true))
      ((remaining tree package d).put (binaryName :: d) (.file content true)) := by
    rw [← put_put (remaining tree package d) (binaryName :: d) (.file [] true) (.file content true)]
    exact better_put_file (put_self _ _ _) content
  refine hcontent.trans (.of_entries fun p node hp => ?_)
  by_cases hfinal : p = binaryName :: d
  · subst hfinal
    rw [put_self] at hp
    exact without_eq_some.mpr ⟨not_removable tree d, hp ▸ put_self _ _ _⟩
  · rw [put_of_ne hfinal] at hp
    exact remaining_stays _ hp hfinal

theorem replacePackage_serving {files : Files Str Bytes} (h : Serving pf links s)
    (hop : s.operation = .executable version)
    (hcall : Files.replace s.files links (stagingPath pf version) binaryName (versionPath pf version) binaryName =
      some files) : Serving pf links ⟨files, .cleaning version⟩ := by
  obtain ⟨hserves, hsafe⟩ := h
  rw [hop] at hsafe
  obtain ⟨package, q, node, hpackage, hq, hnode, hfinal, htree⟩ := Files.replace_spec hcall
  obtain ⟨d, left, hwalk, -, rfl⟩ := entryAt_eq_some.mp hq
  obtain ⟨S, -, -, -, hbinary⟩ := entryAt_eq_some.mp hpackage
  obtain ⟨⟨left', hversion⟩, hcases⟩ := hsafe d left package hwalk hpackage hfinal
  have hkept : Serves pf links ((((s.tree.erase package).put (binaryName :: d) node)).without
      (removable s.tree (stagingName :: d))) := by
    rcases hcases with hserves' | ⟨⟨content, executable, hcontent, hexecutable⟩, hserves'⟩
    · exact (remaining_better node).holds hserves'
    · have hnode' : node = .file content true := by
        rw [← hexecutable rfl]
        exact Option.some.inj (hnode.symm.trans hcontent)
      rw [hnode']
      exact (remaining_put_better content).holds hserves'
  show Serves pf links (Files.tree files) ∧ CleanSafe pf links (Files.tree files) version
  rw [htree]
  refine ⟨(without_better _ _).holds hkept, fun top htop => ?_⟩
  -- the version is still where it was
  obtain ⟨d', left'', hwalk', -, rfl⟩ := entryAt_eq_some.mp htop
  have hwalk'' := (without_better _ _).walk ((remaining_better node).walk hversion)
  obtain ⟨rfl, -⟩ := walk_unique hwalk'' hwalk'
  have hdir : isDir ((s.tree.erase package).put (binaryName :: d) node) (stagingName :: d) =
      isDir s.tree (stagingName :: d) := by
    have hhead : ∀ e : Path, stagingName :: d ≠ binaryName :: e := fun e h => stagingName_ne (List.cons.inj h).1
    unfold isDir
    rw [put_of_ne (hhead d), erase_of_ne (hbinary ▸ hhead S)]
  show Serves pf links (((s.tree.erase package).put (binaryName :: d) node).without
    (removable ((s.tree.erase package).put (binaryName :: d) node) (stagingName :: d)))
  rw [removable_congr hdir]
  exact hkept

/-! ### The staging directory -/

theorem rmtree_serving {top : Path} (h : Serving pf links s) (hop : s.operation = .cleaning version)
    (hentry : entryAt s.tree links (versionPath pf version) stagingName = some top) (hdir : isDir s.tree top = true) :
    Serving pf links { s with operation := .removing top } := by
  obtain ⟨hserves, hsafe⟩ := h
  rw [hop] at hsafe
  refine ⟨hserves, ?_⟩
  have hremovable : removable s.tree top = fun p => top.isSuffixOf p := by
    funext p
    unfold removable
    rw [hdir, Bool.true_and]
  have hkept := hsafe top hentry
  rw [hremovable] at hkept
  exact hkept

theorem remove_serving {top p : Path} (h : Serving pf links s) (hop : s.operation = .removing top) (hp : top <:+ p) :
    Serving pf links { s with files := AList.erase p s.files } := by
  obtain ⟨-, hsafe⟩ := h
  rw [hop] at hsafe
  have hbetter : Better (s.tree.without fun p => top.isSuffixOf p)
      ((s.tree.erase p).without fun p => top.isSuffixOf p) := by
    refine .of_entries fun q node hq => ?_
    obtain ⟨hkept, hnode⟩ := without_eq_some.mp hq
    refine without_eq_some.mpr ⟨hkept, erase_eq_some.mpr ⟨?_, hnode⟩⟩
    rintro rfl
    exact Bool.eq_false_iff.mp hkept (List.isSuffixOf_iff_suffix.mpr hp)
  unfold Serving
  show Serves pf links (Files.tree _) ∧ Safe pf links (Files.tree _) s.operation
  rw [hop, Files.tree_erase]
  have hkept : Serves pf links ((s.tree.erase p).without fun p => top.isSuffixOf p) := hbetter.holds hsafe
  exact ⟨(without_better _ _).holds hkept, hkept⟩

/-! ### Runs -/

theorem upgradeCall_serving (h : Serving pf links s) (hcall : upgradeCall pf links s = some s') :
    Serving pf links s' := by
  unfold upgradeCall at hcall
  rcases hop : s.operation with _ | version | version | version | top | version | version | _
  all_goals
    rw [hop] at hcall
    dsimp only at hcall
  · cases hcall
  · obtain ⟨files, hfiles, rfl⟩ := Option.map_eq_some_iff.mp hcall
    exact chmod_serving h hop hfiles
  · obtain ⟨files, hfiles, rfl⟩ := Option.map_eq_some_iff.mp hcall
    exact replacePackage_serving h hop hfiles
  · rcases hentry : entryAt s.tree links (versionPath pf version) stagingName with _ | top
    · rw [hentry] at hcall
      cases hcall
    · rw [hentry] at hcall
      dsimp only at hcall
      split_ifs at hcall with hdir
      cases hcall
      exact rmtree_serving h hop hentry hdir
  · cases hcall
  · cases hcall
    exact unlink_serving h hop
  · obtain ⟨files, hfiles, rfl⟩ := Option.map_eq_some_iff.mp hcall
    exact symlink_serving h hop hfiles
  · obtain ⟨files, hfiles, rfl⟩ := Option.map_eq_some_iff.mp hcall
    exact replaceLink_serving h hop hfiles

theorem switchTo_serving (h : Serving pf links s)
    (hsafe : isVersionDownloaded pf links s.tree (normalizeVersion version) = true →
      SwitchSafe pf links s.tree (normalizeVersion version)) : Serving pf links (switchTo pf links s version) := by
  unfold switchTo
  split_ifs with hdownloaded
  · exact ⟨h.1, hsafe hdownloaded⟩
  · exact h

theorem finalizePushedVersion_serving {expected : Str} (h : Serving pf links s)
    (hsafe : StartsSafe pf links s (.finalize version expected)) :
    Serving pf links (finalizePushedVersion pf links s version expected) := by
  unfold finalizePushedVersion
  split_ifs with hversion
  · rcases hfile : fileAt s.tree links (stagingPath pf (normalizeVersion version) ++ [.name binaryName]) with
      _ | ⟨q, content, executable⟩
    · rw [hfile]
      exact h
    · obtain ⟨hclean, hfinalize⟩ := hsafe hversion _ hfile
      rw [hfile]
      dsimp only
      split_ifs with hsha
      · exact ⟨h.1, hclean hsha⟩
      · exact ⟨h.1, hfinalize (not_not.mp hsha)⟩
  · exact h

/-- **One step** of an upgrade, safe if it starts an operation. -/
theorem upgradeStep_serving {a : UpgradeAction} (h : Serving pf links s) (hsafe : StartsSafe pf links s a)
    (hstep : upgradeStep pf links s a = some s') : Serving pf links s' := by
  unfold upgradeStep at hstep
  rcases a with ⟨version, expected⟩ | version | ⟨version, choice⟩ | _ | p | _
  all_goals dsimp only at hstep
  · split_ifs at hstep
    cases hstep
    exact finalizePushedVersion_serving h hsafe
  · split_ifs at hstep
    cases hstep
    exact switchTo_serving h hsafe
  · split_ifs at hstep
    rcases hname : chosenVersion (listLocalVersions pf links s.files) version choice with _ | name
    · rw [hname] at hstep
      cases hstep
      exact h
    · rw [hname] at hstep
      cases hstep
      exact switchTo_serving h (hsafe name hname)
  · exact upgradeCall_serving h hstep
  · rcases hop : s.operation with _ | _ | _ | _ | top | _ | _ | _
    all_goals
      rw [hop] at hstep
      dsimp only at hstep
    case removing =>
      split_ifs at hstep with hp
      cases hstep
      have hremoved := remove_serving h hop hp.1
      rwa [hop] at hremoved
    all_goals cases hstep
  · cases hstep
    exact ⟨h.1, trivial⟩

/-- **The service has its executable** in every state of a run whose operations start where they are safe. -/
theorem run_serves (pf : Platform) (links : Nat) {s s' : UpgradeState} {actions : List UpgradeAction}
    (hrun : Run (fun s a s' => StartsSafe pf links s a ∧ upgradeStep pf links s a = some s') s actions s')
    (hidle : s.operation = .idle) (hserves : Serves pf links s.tree) : Serves pf links s'.tree := by
  have hinit : Serving pf links s := by
    refine ⟨hserves, ?_⟩
    rw [hidle]
    trivial
  have hserving : Serving pf links s' :=
    hrun.invariant (Serving pf links) (fun s a s' h hstep => upgradeStep_serving h hstep.1 hstep.2) hinit
  exact hserving.1

/-- `1.7` is current, and `1.8` has been pushed or is there already. -/
def twoVersions (pushed : Bool) : Files Str Bytes :=
  List.toAList (⟨[], .dir⟩ :: ⟨[['1', '.', '7']], .dir⟩ :: ⟨[binaryName, ['1', '.', '7']], .file [0x61] true⟩ ::
    ⟨[currentName], .link true [.name ['1', '.', '7']]⟩ :: ⟨[['1', '.', '8']], .dir⟩ ::
      if pushed then [⟨[stagingName, ['1', '.', '8']], .dir⟩,
        ⟨[binaryName, stagingName, ['1', '.', '8']], .file [0x62] false⟩]
      else [⟨[binaryName, ['1', '.', '8']], .file [0x62] true⟩])

/-- `1.8` is installed but its staging directory stays, a switch to it stops before `os.replace` and is made again. -/
def switchAgain : List UpgradeAction :=
  [.finalize ['1', '.', '8'] ['b'], .call, .call, .stop, .restart ['1', '.', '8'], .call, .call, .stop,
    .restart ['1', '.', '8'], .call, .call, .call]

theorem run_serves_again :
    ∃ s, switchAgain.foldlM (upgradeStep plainPlatform 40) ⟨twoVersions true, .idle⟩ = some s ∧
      Serves plainPlatform 40 s.tree := by
  have hfinalize : StartsSafe plainPlatform 40 ⟨twoVersions true, .idle⟩ (.finalize ['1', '.', '8'] ['b']) := by
    intro _ file hfile
    obtain rfl : ([binaryName, stagingName, ['1', '.', '8']], [0x62], false) = file := Option.some.inj hfile
    refine ⟨fun hsha => absurd rfl hsha, fun _ d left package hwalk hentry _ => ?_⟩
    obtain ⟨rfl, rfl⟩ : [['1', '.', '8']] = d ∧ 40 = left := Prod.mk.inj (Option.some.inj hwalk)
    obtain rfl : [binaryName, stagingName, ['1', '.', '8']] = package := Option.some.inj hentry
    exact ⟨⟨40, rfl⟩, .inl (by decide +kernel)⟩
  refine ⟨_, rfl, run_serves plainPlatform 40 (show Run _ _ switchAgain _ from
    .cons ⟨hfinalize, rfl⟩ (.cons ⟨trivial, rfl⟩ (.cons ⟨trivial, rfl⟩ (.cons ⟨trivial, rfl⟩
      (.cons ⟨?_, rfl⟩ (.cons ⟨trivial, rfl⟩ (.cons ⟨trivial, rfl⟩ (.cons ⟨trivial, rfl⟩
        (.cons ⟨?_, rfl⟩ (.cons ⟨trivial, rfl⟩ (.cons ⟨trivial, rfl⟩ (.cons ⟨trivial, rfl⟩ (.nil _)))))))))))))
    rfl (by decide +kernel)⟩
  · intro _ d left hwalk
    obtain ⟨rfl, rfl⟩ : [] = d ∧ 40 = left := Prod.mk.inj (Option.some.inj hwalk)
    exact ⟨fun _ => by decide +kernel, fun _ => .inr ⟨39, rfl, by decide +kernel⟩⟩
  · intro _ d left hwalk
    obtain ⟨rfl, rfl⟩ : [] = d ∧ 40 = left := Prod.mk.inj (Option.some.inj hwalk)
    exact ⟨fun _ => by decide +kernel, fun _ => .inr ⟨39, rfl, by decide +kernel⟩⟩

/-- A switch to `1.8` stops before `os.replace`, and then `current.tmp` is chosen. -/
def switchAside : List UpgradeAction :=
  [.switchVersion (some ['1', '.', '8']) 0, .call, .call, .stop, .switchVersion (some tmpName) 0, .call, .call, .call]

/-- In the end `current` is a link to a `current.tmp` that is not there. -/
theorem run_serves_aside :
    ∃ s s', Run (fun s a s' => upgradeStep plainPlatform 40 s a = some s') s switchAside s' ∧ s.operation = .idle ∧
      Serves plainPlatform 40 s.tree ∧ s'.operation = .idle ∧ ¬ Serves plainPlatform 40 s'.tree :=
  ⟨⟨twoVersions false, .idle⟩, _, run_foldlM (l := switchAside) rfl, rfl, by decide +kernel, rfl, by decide +kernel⟩

end SocketServer.Upgrade
