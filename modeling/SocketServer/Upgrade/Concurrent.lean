import SocketServer.Upgrade.Confinement

/-!
# Upgrades at the same time (`upgrader.py`)

Datatype 20, `_restart_after_upgrade` of an earlier request, and `socket_server switch` on the command line run side by
side, each in the middle of its own operation, while the HTTP service writes into the staging directories: the threads
of a `Machine` share the entries, and each makes the calls of `upgradeStep`.

`Machine.run_deployed` : on a deployed machine, `current` has an executable after any interleaving and links to a
version that some thread was asked for, and what is installed stays installed. No package may be written between its
`os.chmod` and its `os.replace`, and what the command line switches to must be a version.
-/

namespace SocketServer.Upgrade

open Text LinkTree
open Confinement (isVersion_ne isVersion_notMem)

variable {ι : Type} (pf : Platform) (links : Nat)

/-! ### Threads and uploads -/

/-- The entries, and the operation of every thread. -/
structure Machine (ι : Type) where
  files : Files Str Bytes
  operation : ι → Operation

def Machine.tree (s : Machine ι) : LinkTree Str Bytes := Files.tree s.files

inductive MachineAction (ι : Type)
  /-- The thread `i` takes a step. -/
  | thread (i : ι) (a : UpgradeAction)
  /-- An upload makes the directory of the version, or `.staging` in it. -/
  | mkdir (version : Str) (staging : Bool)
  /-- An upload makes or writes a file of `.staging`, or renames its part file to it. -/
  | store (version name : Str) (content : Bytes) (executable : Bool)
  /-- An upload removes a file of `.staging`. -/
  | discard (version name : Str)
  deriving DecidableEq, Repr

/-- The real path of a directory of a version. -/
def versionAt (version : Str) : Path := version :: pf.versionsDir

def stagingAt (version : Str) : Path := stagingName :: versionAt pf version

/-- The directory that `os.makedirs` makes. -/
def uploadDir (version : Str) (staging : Bool) : Path :=
  if staging then stagingAt pf version else versionAt pf version

namespace Machine

variable [DecidableEq ι]

def step (s : Machine ι) : MachineAction ι → Option (Machine ι)
  | .thread i a =>
    (upgradeStep pf links ⟨s.files, s.operation i⟩ a).map fun t =>
      ⟨t.files, Function.update s.operation i t.operation⟩
  | .mkdir version staging =>
    if isDir s.tree (uploadDir pf version staging).tail ∧ s.tree (uploadDir pf version staging) = none then
      some { s with files := s.files.insert (uploadDir pf version staging) .dir }
    else none
  | .store version name content executable =>
    if isDir s.tree (stagingAt pf version) ∧ ¬ isDir s.tree (name :: stagingAt pf version) then
      some { s with files := s.files.insert (name :: stagingAt pf version) (.file content executable) }
    else none
  | .discard version name =>
    if isDir s.tree (name :: stagingAt pf version) then none
    else some { s with files := AList.erase (name :: stagingAt pf version) s.files }

end Machine

/-! ### What a deployed machine keeps -/

/-- The version is there, with an executable `socket_server`. -/
def Installed (tree : LinkTree Str Bytes) (version : Str) : Prop :=
  tree (versionAt pf version) = some .dir ∧
    ∃ content, tree (binaryName :: versionAt pf version) = some (.file content true)

/-- A link to an installed version that was asked for. -/
def IsTarget (wanted : Str → Prop) (tree : LinkTree Str Bytes) (node : Node Str Bytes) : Prop :=
  ∃ version, isVersion pf version = true ∧ wanted version ∧ Installed pf tree version ∧
    node = .link true (versionPath pf version)

/-- What `install.sh` sets up and an operation may leave: there are no links but `current` and `current.tmp`, and these
are links to installed versions. -/
structure Deployed (wanted : Str → Prop) (tree : LinkTree Str Bytes) : Prop where
  base : ∀ p, p <:+ pf.versionsDir → tree p = some .dir
  current : ∃ node, tree (currentName :: pf.versionsDir) = some node ∧ IsTarget pf wanted tree node
  tmp : ∀ node, tree (tmpName :: pf.versionsDir) = some node → IsTarget pf wanted tree node
  plain : ∀ p, pf.versionsDir <:+ p → isLink tree p = true → isCurrent pf.versionsDir p = true

/-- If the package of the version is there, it is an executable file. -/
def StagedExecutable (tree : LinkTree Str Bytes) (version : Str) : Prop :=
  ∀ node, tree (binaryName :: stagingAt pf version) = some node → ∃ content, node = .file content true

/-- What the next calls of an operation rely on. -/
def Ready (wanted : Str → Prop) (tree : LinkTree Str Bytes) : Operation → Prop
  | .idle | .linked => True
  | .matched version | .cleaning version => isVersion pf version = true
  | .executable version => isVersion pf version = true ∧ StagedExecutable pf tree version
  | .removing top => ∃ version, isVersion pf version = true ∧ top = stagingAt pf version
  | .checked version | .linking version =>
    isVersion pf version = true ∧ wanted version ∧ Installed pf tree version

/-- The condition on a step. -/
def Permitted (wanted : Str → Prop) (s : Machine ι) : MachineAction ι → Prop
  | .thread _ (.restart version) => wanted (normalizeVersion version)
  | .thread _ (.switchVersion version choice) =>
    ∀ name, chosenVersion (listLocalVersions pf links s.files) version choice = some name →
      isVersion pf (normalizeVersion name) = true ∧ wanted (normalizeVersion name)
  | .thread _ _ => True
  | .mkdir version _ | .discard version _ => isVersion pf version = true
  | .store version name _ executable => isVersion pf version = true ∧
      (name = binaryName → executable = false → ∀ i, s.operation i ≠ .executable version)

/-! ### Where the calls go -/

variable {pf} {links} {tree tree' : LinkTree Str Bytes} {v w : Str} {wanted busy : Str → Prop}

theorem isVersion_component (hv : isVersion pf v = true) : components v = [.name v] := by
  have hne := isVersion_ne hv
  simp only [List.mem_cons, not_or] at hne
  simp [components, hne.1, hne.2.1, hne.2.2.1]

theorem versionPath_eq (hv : isVersion pf v = true) : versionPath pf v = (versionAt pf v).reverse.map .name := by
  simp [versionPath, versionsPath, versionAt, isVersion_component hv]

theorem stagingPath_eq (hv : isVersion pf v = true) : stagingPath pf v = (stagingAt pf v).reverse.map .name := by
  simp [stagingPath, stagingAt, versionPath_eq hv]

theorem stagingBinary_eq (hv : isVersion pf v = true) :
    stagingPath pf v ++ [.name binaryName] = (binaryName :: stagingAt pf v).reverse.map .name := by
  simp [stagingPath_eq hv]

theorem finalBinary_eq (hv : isVersion pf v = true) :
    versionPath pf v ++ [.name binaryName] = (binaryName :: versionAt pf v).reverse.map .name := by
  simp [versionPath_eq hv]

/-- `current` and `current.tmp` are no versions. -/
theorem isVersion_notCurrent (hv : isVersion pf v = true) : isCurrent pf.versionsDir (versionAt pf v) = false := by
  have hc : 'c' ∉ v := isVersion_notMem hv (by decide) rfl
  refine Bool.or_eq_false_iff.mpr ⟨decide_eq_false fun h => ?_, decide_eq_false fun h => ?_⟩
  · obtain rfl := (List.cons.inj h).1
    exact hc (by decide)
  · obtain rfl := (List.cons.inj h).1
    exact hc (by decide)

theorem notCurrent_of_length {d p : Path} (h : p.length ≠ d.length + 1) : isCurrent d p = false := by
  refine Bool.or_eq_false_iff.mpr ⟨decide_eq_false ?_, decide_eq_false ?_⟩
  · rintro rfl
    exact h rfl
  · rintro rfl
    exact h rfl

theorem Deployed.plain_version (h : Deployed pf wanted tree) (hv : isVersion pf v = true) {p : Path}
    (hp : p <:+ versionAt pf v) : isLink tree p = false := by
  rw [Bool.eq_false_iff]
  intro hlink
  rcases List.suffix_cons_iff.mp hp with rfl | hp
  · have hcurrent := h.plain _ (List.suffix_cons v pf.versionsDir) hlink
    cases hcurrent.symm.trans (isVersion_notCurrent hv)
  · obtain ⟨absolute, target, hnode⟩ := isLink_iff.mp hlink
    rw [h.base p hp] at hnode
    cases hnode

theorem Deployed.plain_below (h : Deployed pf wanted tree) (hv : isVersion pf v = true) (top : List Str) {p : Path}
    (hp : p <:+ top ++ versionAt pf v) : isLink tree p = false := by
  induction top with
  | nil => exact h.plain_version hv hp
  | cons x top ih =>
    rcases List.suffix_cons_iff.mp hp with rfl | hp
    · rw [Bool.eq_false_iff]
      intro hlink
      have hbelow : pf.versionsDir <:+ x :: (top ++ versionAt pf v) :=
        ((List.suffix_cons v pf.versionsDir).trans (List.suffix_append top _)).trans (List.suffix_cons x _)
      have hcurrent := h.plain _ hbelow hlink
      have hlength : (x :: (top ++ versionAt pf v)).length ≠ pf.versionsDir.length + 1 := by
        simp [versionAt]
        omega
      rw [notCurrent_of_length hlength] at hcurrent
      cases hcurrent
    · exact ih hp

theorem Deployed.walk_versions (h : Deployed pf wanted tree) :
    walk tree links [] (versionsPath pf) = some (pf.versionsDir, links) := walk_dirs h.base

theorem Deployed.versions_entry (h : Deployed pf wanted tree) (x : Str) :
    entryAt tree links (versionsPath pf) x = some (x :: pf.versionsDir) :=
  entryAt_eq_some.mpr ⟨_, _, h.walk_versions, h.base _ (List.suffix_refl _), rfl⟩

theorem Deployed.version_entry (h : Deployed pf wanted tree) (hv : isVersion pf v = true) {x : Str} {q : Path}
    (hentry : entryAt tree links (versionPath pf v) x = some q) : q = x :: versionAt pf v := by
  obtain ⟨d, left, hwalk, -, rfl⟩ := entryAt_eq_some.mp hentry
  rw [versionPath_eq hv] at hwalk
  obtain ⟨rfl, -⟩ := Prod.mk.inj (walk_plain (fun p hp => h.plain_version hv hp) hwalk)
  rfl

theorem Deployed.staging_entry (h : Deployed pf wanted tree) (hv : isVersion pf v = true) {x : Str} {q : Path}
    (hentry : entryAt tree links (stagingPath pf v) x = some q) : q = x :: stagingAt pf v := by
  obtain ⟨d, left, hwalk, -, rfl⟩ := entryAt_eq_some.mp hentry
  rw [stagingPath_eq hv] at hwalk
  obtain ⟨rfl, -⟩ := Prod.mk.inj (walk_plain (fun p hp => h.plain_below hv [stagingName] hp) hwalk)
  rfl

theorem fileAt_walk {p : List (Component Str)} {q : Path} {content : Bytes} {executable : Bool}
    (h : fileAt tree links p = some (q, content, executable)) : ∃ left, walk tree links [] p = some (q, left) := by
  unfold fileAt at h
  rcases hwalk : walk tree links [] p with _ | ⟨q', left⟩
  · rw [hwalk] at h
    cases h
  · rw [hwalk] at h
    dsimp only at h
    split at h
    · cases h
      exact ⟨left, rfl⟩
    · cases h

theorem Deployed.staged_file (h : Deployed pf wanted tree) (hv : isVersion pf v = true) {q : Path} {content : Bytes}
    {executable : Bool}
    (hfile : fileAt tree links (stagingPath pf v ++ [.name binaryName]) = some (q, content, executable)) :
    q = binaryName :: stagingAt pf v := by
  obtain ⟨left, hwalk⟩ := fileAt_walk hfile
  rw [stagingBinary_eq hv] at hwalk
  obtain ⟨rfl, -⟩ := Prod.mk.inj
    (walk_plain (fun p hp => h.plain_below hv [binaryName, stagingName] hp) hwalk)
  rfl

theorem Deployed.final_file (h : Deployed pf wanted tree) (hv : isVersion pf v = true) {q : Path} {content : Bytes}
    {executable : Bool}
    (hfile : fileAt tree links (versionPath pf v ++ [.name binaryName]) = some (q, content, executable)) :
    q = binaryName :: versionAt pf v ∧ tree (versionAt pf v) = some .dir := by
  obtain ⟨left, hwalk⟩ := fileAt_walk hfile
  obtain ⟨d, left', hversion, hdir, -⟩ := walk_parent hwalk
  rw [finalBinary_eq hv] at hwalk
  rw [versionPath_eq hv] at hversion
  obtain ⟨rfl, -⟩ := Prod.mk.inj (walk_plain (fun p hp => h.plain_below hv [binaryName] hp) hwalk)
  obtain ⟨rfl, -⟩ := Prod.mk.inj (walk_plain (fun p hp => h.plain_version hv hp) hversion)
  exact ⟨rfl, hdir⟩

/-! ### Changes of one entry -/

/-- The entry `p` becomes `new`: what uploads and the calls do. -/
inductive Change (pf : Platform) (wanted busy : Str → Prop) (tree : LinkTree Str Bytes) :
    Path → Option (Node Str Bytes) → Prop
  /-- Below `.staging`. Where the next call is `os.replace`, the package stays executable. -/
  | staging {v : Str} {p : Path} {new : Option (Node Str Bytes)} (hv : isVersion pf v = true)
      (hp : stagingAt pf v <:+ p) (hplain : ∀ absolute target, new ≠ some (.link absolute target))
      (hbusy : ∀ w, busy w → p = binaryName :: stagingAt pf w → ∀ node, new = some node →
        ∃ content, node = .file content true) : Change pf wanted busy tree p new
  /-- The package is renamed to the executable of the version. -/
  | install {v : Str} (content : Bytes) (hv : isVersion pf v = true) :
      Change pf wanted busy tree (binaryName :: versionAt pf v) (some (.file content true))
  /-- The directory of the version is made. -/
  | make {v : Str} (hv : isVersion pf v = true) (hnone : tree (versionAt pf v) = none) :
      Change pf wanted busy tree (versionAt pf v) (some .dir)
  | tmp {new : Option (Node Str Bytes)} (hnew : ∀ node, new = some node → IsTarget pf wanted tree node) :
      Change pf wanted busy tree (tmpName :: pf.versionsDir) new
  | current {node : Node Str Bytes} (hnode : IsTarget pf wanted tree node) :
      Change pf wanted busy tree (currentName :: pf.versionsDir) (some node)

/-- What a step keeps. -/
structure Keeps (pf : Platform) (wanted busy : Str → Prop) (tree tree' : LinkTree Str Bytes) : Prop where
  deployed : Deployed pf wanted tree → Deployed pf wanted tree'
  installed : ∀ v, isVersion pf v = true → Installed pf tree v → Installed pf tree' v
  staged : ∀ v, busy v → StagedExecutable pf tree v → StagedExecutable pf tree' v

theorem Keeps.refl (tree : LinkTree Str Bytes) : Keeps pf wanted busy tree tree :=
  ⟨id, fun _ _ h => h, fun _ _ h => h⟩

theorem Keeps.trans {tree'' : LinkTree Str Bytes} (h : Keeps pf wanted busy tree tree')
    (h' : Keeps pf wanted busy tree' tree'') : Keeps pf wanted busy tree tree'' where
  deployed hdeployed := h'.deployed (h.deployed hdeployed)
  installed v hv hinstalled := h'.installed v hv (h.installed v hv hinstalled)
  staged v hbusy hstaged := h'.staged v hbusy (h.staged v hbusy hstaged)

theorem IsTarget.keeps {node : Node Str Bytes} (h : IsTarget pf wanted tree node)
    (hkeeps : Keeps pf wanted busy tree tree') : IsTarget pf wanted tree' node := by
  obtain ⟨version, hv, hwanted, hinstalled, rfl⟩ := h
  exact ⟨version, hv, hwanted, hkeeps.installed version hv hinstalled, rfl⟩

theorem IsTarget.isLink {node : Node Str Bytes} (h : IsTarget pf wanted tree node) :
    ∃ target, node = .link true target := by
  obtain ⟨version, -, -, -, rfl⟩ := h
  exact ⟨_, rfl⟩

/-- `.staging` is not on the way to the executable of a version. -/
theorem not_staging_suffix (v w : Str) : ¬ stagingAt pf v <:+ binaryName :: versionAt pf w := by
  intro h
  exact stagingName_ne (List.cons.inj (h.eq_of_length rfl)).1

section

variable {p : Path} {new : Option (Node Str Bytes)} (h : Change pf wanted busy tree p new)
  (hsame : ∀ q, q ≠ p → tree' q = tree q) (hnew : tree' p = new)

omit hnew in
theorem length_staging (hp : stagingAt pf v <:+ p) : pf.versionsDir.length + 2 ≤ p.length := hp.length_le

omit hsame hnew in
include h in
theorem Change.current_target (hp : p = currentName :: pf.versionsDir) :
    ∃ node, new = some node ∧ IsTarget pf wanted tree node := by
  have hlength := congrArg List.length hp
  rcases h with ⟨hv, hp', -, -⟩ | ⟨content, hv⟩ | ⟨hv, -⟩ | hnew | hnode
  · have := length_staging hp'
    simp only [List.length_cons] at hlength
    omega
  · simp only [versionAt, List.length_cons] at hlength
    omega
  · have hnot := isVersion_notCurrent hv
    rw [hp] at hnot
    simp [isCurrent] at hnot
  · exact absurd (List.cons.inj hp).1.symm currentName_ne
  · exact ⟨_, rfl, hnode⟩

omit hsame hnew in
include h in
theorem Change.tmp_target (hp : p = tmpName :: pf.versionsDir) {node : Node Str Bytes} (hnode : new = some node) :
    IsTarget pf wanted tree node := by
  have hlength := congrArg List.length hp
  rcases h with ⟨hv, hp', -, -⟩ | ⟨content, hv⟩ | ⟨hv, -⟩ | hnew | hnode'
  · have := length_staging hp'
    simp only [List.length_cons] at hlength
    omega
  · simp only [versionAt, List.length_cons] at hlength
    omega
  · have hnot := isVersion_notCurrent hv
    rw [hp] at hnot
    simp [isCurrent] at hnot
  · exact hnew node hnode
  · exact absurd (List.cons.inj hp).1 currentName_ne

omit hsame hnew in
include h in
theorem Change.link_current {absolute : Bool} {target : List (Component Str)}
    (hlink : new = some (.link absolute target)) : isCurrent pf.versionsDir p = true := by
  rcases h with ⟨hv, -, hplain, -⟩ | ⟨content, hv⟩ | ⟨hv, -⟩ | hnew | hnode
  · exact absurd hlink (hplain absolute target)
  · cases hlink
  · cases hlink
  · simp [isCurrent]
  · simp [isCurrent]

include h hsame hnew

/-- `VERSIONS_DIR`, the directories above it and those of the versions stay. -/
theorem Change.dir {q : Path} (hq : q.length ≤ pf.versionsDir.length + 1)
    (hcurrent : isCurrent pf.versionsDir q = false) (hdir : tree q = some .dir) : tree' q = some .dir := by
  by_cases hqp : q = p
  · subst hqp
    exfalso
    rcases h with ⟨hv, hp, -, -⟩ | ⟨content, hv⟩ | ⟨hv, hnone⟩ | hnew | hnode
    · have hlength := length_staging hp
      omega
    · simp only [versionAt, List.length_cons] at hq
      omega
    · rw [hnone] at hdir
      cases hdir
    · simp [isCurrent] at hcurrent
    · simp [isCurrent] at hcurrent
  · rw [hsame q hqp, hdir]

theorem Change.installed (hv : isVersion pf v = true) (hinstalled : Installed pf tree v) :
    Installed pf tree' v := by
  obtain ⟨hdir, content, hbinary⟩ := hinstalled
  refine ⟨h.dir hsame hnew (le_refl _) (isVersion_notCurrent hv) hdir, ?_⟩
  by_cases hqp : binaryName :: versionAt pf v = p
  · have hlength := congrArg List.length hqp
    rcases h with ⟨hw, hp, -, -⟩ | ⟨content', hw⟩ | ⟨hw, -⟩ | hnew' | hnode
    · exact absurd (hqp ▸ hp) (not_staging_suffix _ _)
    · exact ⟨content', hqp ▸ hnew⟩
    all_goals
      simp only [versionAt, List.length_cons] at hlength
      omega
  · exact ⟨content, (hsame _ hqp).trans hbinary⟩

theorem Change.staged (hbusy : busy v) (hstaged : StagedExecutable pf tree v) : StagedExecutable pf tree' v := by
  intro node hnode
  by_cases hqp : binaryName :: stagingAt pf v = p
  · rw [hqp, hnew] at hnode
    have hlength := congrArg List.length hqp
    rcases h with ⟨hw, -, -, hkept⟩ | ⟨content, hw⟩ | ⟨hw, -⟩ | hnew' | hnode'
    · exact hkept v hbusy hqp.symm node hnode
    all_goals
      simp only [versionAt, stagingAt, List.length_cons] at hlength
      omega
  · exact hstaged node ((hsame _ hqp).symm.trans hnode)

/-- Only `current` and `current.tmp` become links, and only to targets. -/
theorem Change.deployed (hdeployed : Deployed pf wanted tree) : Deployed pf wanted tree' := by
  have hkept : ∀ {node}, IsTarget pf wanted tree node → IsTarget pf wanted tree' node := by
    rintro node ⟨version, hv, hwanted, hinstalled, rfl⟩
    exact ⟨version, hv, hwanted, h.installed hsame hnew hv hinstalled, rfl⟩
  have hold : ∀ {q node}, q ≠ p → tree' q = some node → tree q = some node := fun hq hnode =>
    (hsame _ hq).symm.trans hnode
  refine ⟨fun q hq => ?_, ?_, fun node hnode => ?_, fun q hbelow hlink => ?_⟩
  · have hlength := hq.length_le
    exact h.dir hsame hnew (by omega) (notCurrent_of_length (by omega)) (hdeployed.base q hq)
  · by_cases hqp : currentName :: pf.versionsDir = p
    · obtain ⟨node, hnode, htarget⟩ := h.current_target hqp.symm
      exact ⟨node, by rw [hqp, hnew, hnode], hkept htarget⟩
    · obtain ⟨node, hnode, htarget⟩ := hdeployed.current
      exact ⟨node, (hsame _ hqp).trans hnode, hkept htarget⟩
  · by_cases hqp : tmpName :: pf.versionsDir = p
    · rw [hqp, hnew] at hnode
      exact hkept (h.tmp_target hqp.symm hnode)
    · exact hkept (hdeployed.tmp node ((hsame _ hqp).symm.trans hnode))
  · obtain ⟨absolute, target, hnode⟩ := isLink_iff.mp hlink
    by_cases hqp : q = p
    · rw [hqp, hnew] at hnode
      exact hqp ▸ h.link_current hnode
    · exact hdeployed.plain q hbelow (isLink_iff.mpr ⟨absolute, target, (hsame _ hqp).symm.trans hnode⟩)

theorem Change.keeps : Keeps pf wanted busy tree tree' where
  deployed := h.deployed hsame hnew
  installed _ hv := h.installed hsame hnew hv
  staged _ hbusy := h.staged hsame hnew hbusy

end

theorem Change.put {p : Path} {node : Node Str Bytes} (h : Change pf wanted busy tree p (some node)) :
    Keeps pf wanted busy tree (tree.put p node) :=
  h.keeps (fun _ hq => put_of_ne hq node) (put_self tree p node)

theorem Change.erase {p : Path} (h : Change pf wanted busy tree p none) : Keeps pf wanted busy tree (tree.erase p) :=
  h.keeps (fun _ hq => erase_of_ne hq) (by simp [LinkTree.erase, LinkTree.without])

/-! ### The calls -/

theorem change_unlink : Change pf wanted busy tree (tmpName :: pf.versionsDir) none := by
  refine .tmp fun node hnode => ?_
  cases hnode

theorem change_package {new : Option (Node Str Bytes)} (hv : isVersion pf v = true)
    (hnew : ∀ node, new = some node → ∃ content, node = .file content true) :
    Change pf wanted busy tree (binaryName :: stagingAt pf v) new := by
  refine .staging hv (List.suffix_cons _ _) ?_ fun _ _ _ => hnew
  rintro absolute target rfl
  obtain ⟨content, hfile⟩ := hnew _ rfl
  cases hfile

section

variable {files : Files Str Bytes} {t : UpgradeState} (hdeployed : Deployed pf wanted (Files.tree files))

include hdeployed

theorem chmod_keeps {files' : Files Str Bytes} (hv : isVersion pf v = true)
    (hcall : Files.chmod files links (stagingPath pf v ++ [.name binaryName]) = some files') :
    Keeps pf wanted busy (Files.tree files) (Files.tree files') ∧ StagedExecutable pf (Files.tree files') v := by
  obtain ⟨q, content, executable, hfile, htree⟩ := Files.chmod_spec hcall
  obtain rfl := hdeployed.staged_file hv hfile
  rw [htree]
  refine ⟨(change_package hv fun node hnode => ⟨content, (Option.some.inj hnode).symm⟩).put, fun node hnode => ?_⟩
  rw [put_self] at hnode
  exact ⟨content, (Option.some.inj hnode).symm⟩

theorem replacePackage_keeps {files' : Files Str Bytes} (hv : isVersion pf v = true)
    (hstaged : StagedExecutable pf (Files.tree files) v)
    (hcall : Files.replace files links (stagingPath pf v) binaryName (versionPath pf v) binaryName = some files') :
    Keeps pf wanted busy (Files.tree files) (Files.tree files') := by
  obtain ⟨p, q, node, hp, hq, hnode, -, htree⟩ := Files.replace_spec hcall
  obtain rfl := hdeployed.staging_entry hv hp
  obtain rfl := hdeployed.version_entry hv hq
  obtain ⟨content, rfl⟩ := hstaged node hnode
  rw [htree]
  refine (Change.erase (change_package hv fun node hnode => ?_)).trans (Change.install content hv).put
  cases hnode

theorem replacePackage_installed {files' : Files Str Bytes} (hv : isVersion pf v = true)
    (hstaged : StagedExecutable pf (Files.tree files) v)
    (hcall : Files.replace files links (stagingPath pf v) binaryName (versionPath pf v) binaryName = some files') :
    Installed pf (Files.tree files') v := by
  obtain ⟨p, q, node, hp, hq, hnode, -, htree⟩ := Files.replace_spec hcall
  obtain rfl := hdeployed.staging_entry hv hp
  obtain rfl := hdeployed.version_entry hv hq
  obtain ⟨content, rfl⟩ := hstaged node hnode
  obtain ⟨d, left, hwalk, hdir, heq⟩ := entryAt_eq_some.mp hq
  obtain rfl : versionAt pf v = d := (List.cons.inj heq).2
  rw [htree]
  refine ⟨?_, content, put_self _ _ _⟩
  rw [put_of_ne (cons_ne_self _ _), erase_of_ne, hdir]
  intro h
  have hlength := congrArg List.length h
  simp only [stagingAt, List.length_cons] at hlength
  omega

theorem unlink_keeps :
    Keeps pf wanted busy (Files.tree files)
      (Files.tree (Files.unlinkLink files links (versionsPath pf) tmpName)) := by
  rw [Files.unlinkLink_spec (hdeployed.versions_entry tmpName)]
  split_ifs
  · exact change_unlink.erase
  · exact .refl _

theorem symlink_keeps {files' : Files Str Bytes} (hv : isVersion pf v = true) (hwanted : wanted v)
    (hinstalled : Installed pf (Files.tree files) v)
    (hcall : Files.symlink files links (versionPath pf v) (versionsPath pf) tmpName = some files') :
    Keeps pf wanted busy (Files.tree files) (Files.tree files') := by
  obtain ⟨p, hp, -, htree⟩ := Files.symlink_spec hcall
  obtain rfl := Option.some.inj (hp.symm.trans (hdeployed.versions_entry tmpName))
  rw [htree]
  refine (Change.tmp fun node hnode => ?_).put
  exact ⟨v, hv, hwanted, hinstalled, (Option.some.inj hnode).symm⟩

/-- `os.replace` of `current.tmp`, which any thread may have made. -/
theorem replaceLink_keeps {files' : Files Str Bytes}
    (hcall : Files.replace files links (versionsPath pf) tmpName (versionsPath pf) currentName = some files') :
    Keeps pf wanted busy (Files.tree files) (Files.tree files') := by
  obtain ⟨p, q, node, hp, hq, hnode, -, htree⟩ := Files.replace_spec hcall
  obtain rfl := Option.some.inj (hp.symm.trans (hdeployed.versions_entry tmpName))
  obtain rfl := Option.some.inj (hq.symm.trans (hdeployed.versions_entry currentName))
  rw [htree]
  have herase : Keeps pf wanted busy (Files.tree files) ((Files.tree files).erase (tmpName :: pf.versionsDir)) :=
    change_unlink.erase
  exact herase.trans (Change.current ((hdeployed.tmp node hnode).keeps herase)).put

theorem upgradeCall_keeps {op : Operation} (hready : Ready pf wanted (Files.tree files) op)
    (hcall : upgradeCall pf links ⟨files, op⟩ = some t) :
    Keeps pf wanted busy (Files.tree files) t.tree ∧ Ready pf wanted t.tree t.operation := by
  unfold upgradeCall at hcall
  rcases op with _ | version | version | version | top | version | version | _
  all_goals dsimp only at hcall
  · cases hcall
  · obtain ⟨files', hfiles, rfl⟩ := Option.map_eq_some_iff.mp hcall
    obtain ⟨hkeeps, hstaged⟩ := chmod_keeps hdeployed hready hfiles
    exact ⟨hkeeps, hready, hstaged⟩
  · obtain ⟨files', hfiles, rfl⟩ := Option.map_eq_some_iff.mp hcall
    exact ⟨replacePackage_keeps hdeployed hready.1 hready.2 hfiles, hready.1⟩
  · rcases hentry : entryAt (UpgradeState.tree ⟨files, .cleaning version⟩) links (versionPath pf version)
      stagingName with _ | top
    · rw [hentry] at hcall
      cases hcall
    · rw [hentry] at hcall
      dsimp only at hcall
      split_ifs at hcall with hdir
      cases hcall
      exact ⟨.refl _, version, hready, hdeployed.version_entry hready hentry⟩
  · cases hcall
  · cases hcall
    have hkeeps : Keeps pf wanted busy (Files.tree files)
        (Files.tree (Files.unlinkLink files links (versionsPath pf) tmpName)) := unlink_keeps hdeployed
    exact ⟨hkeeps, hready.1, hready.2.1, hkeeps.installed version hready.1 hready.2.2⟩
  · obtain ⟨files', hfiles, rfl⟩ := Option.map_eq_some_iff.mp hcall
    exact ⟨symlink_keeps hdeployed hready.1 hready.2.1 hready.2.2 hfiles, trivial⟩
  · obtain ⟨files', hfiles, rfl⟩ := Option.map_eq_some_iff.mp hcall
    exact ⟨replaceLink_keeps hdeployed hfiles, trivial⟩

end

/-! ### The steps -/

theorem isDigitChar_isSpace (hdigit : ∀ c, pf.digit c = true → isSpace c = false) {c : Char}
    (hc : isDigitChar pf.digit c = true) : isSpace c = false := by
  unfold isDigitChar at hc
  split_ifs at hc with hascii
  · simp only [Char.isDigit, Bool.and_eq_true, decide_eq_true_eq, UInt32.le_iff_toNat_le] at hc
    have h₁ : 48 ≤ c.toNat := hc.1
    have h₂ : c.toNat ≤ 57 := hc.2
    simp [isSpace]
    omega
  · exact hdigit c hc

theorem normalize_isVersion (hdigit : ∀ c, pf.digit c = true → isSpace c = false) (hv : isVersion pf v = true) :
    normalizeVersion v = v := by
  have hspace : ∀ c ∈ v, isSpace c = false := by
    intro c hc
    rcases Confinement.isVersion_mem hv hc with rfl | hc
    · rfl
    · exact isDigitChar_isSpace hdigit hc
  have hstripped : strip isSpace v = v :=
    strip_of_stripped ⟨fun c hc => hspace c (List.mem_of_mem_head? hc), fun c hc => hspace c (List.mem_of_getLast? hc)⟩
  have hv' : 'v' ∉ v := isVersion_notMem hv (by decide) rfl
  rw [normalizeVersion, hstripped, List.dropWhile_eq_self_iff]
  intro hlength hhead
  exact hv' (by rw [← beq_iff_eq.mp hhead]; exact List.getElem_mem hlength)

theorem Deployed.downloaded (h : Deployed pf wanted tree) (hdigit : ∀ c, pf.digit c = true → isSpace c = false)
    (hv : isVersion pf v = true) (hdownloaded : isVersionDownloaded pf links tree v = true) :
    Installed pf tree v := by
  unfold isVersionDownloaded at hdownloaded
  rw [normalize_isVersion hdigit hv, Option.any_eq_true] at hdownloaded
  obtain ⟨⟨q, content, executable⟩, hfile, hexecutable⟩ := hdownloaded
  obtain ⟨rfl, hdir⟩ := h.final_file hv hfile
  obtain rfl : executable = true := hexecutable
  exact ⟨hdir, content, fileAt_eq_some hfile⟩

/-- An operation stays ready while others take steps. -/
theorem Ready.keeps {op : Operation} (h : Ready pf wanted tree op) (hkeeps : Keeps pf wanted busy tree tree')
    (hbusy : ∀ version, op = .executable version → busy version) : Ready pf wanted tree' op := by
  rcases op with _ | version | version | version | top | version | version | _
  · trivial
  · exact h
  · exact ⟨h.1, hkeeps.staged version (hbusy version rfl) h.2⟩
  · exact h
  · exact h
  · exact ⟨h.1, h.2.1, hkeeps.installed version h.1 h.2.2⟩
  · exact ⟨h.1, h.2.1, hkeeps.installed version h.1 h.2.2⟩
  · trivial

section

variable {files : Files Str Bytes} {op : Operation} {t : UpgradeState}
  (hdeployed : Deployed pf wanted (Files.tree files)) (hready : Ready pf wanted (Files.tree files) op)

include hready in
theorem finalizePushedVersion_ready (links : Nat) (version expected : Str) :
    (finalizePushedVersion pf links ⟨files, op⟩ version expected).files = files ∧
      Ready pf wanted (Files.tree files) (finalizePushedVersion pf links ⟨files, op⟩ version expected).operation := by
  unfold finalizePushedVersion
  split_ifs with hv
  · split
    · exact ⟨rfl, hready⟩
    · split_ifs
      · exact ⟨rfl, hv⟩
      · exact ⟨rfl, hv⟩
  · exact ⟨rfl, hready⟩

include hdeployed hready

theorem switchTo_ready (links : Nat) (hdigit : ∀ c, pf.digit c = true → isSpace c = false)
    (hv : isVersion pf (normalizeVersion v) = true) (hwanted : wanted (normalizeVersion v)) :
    (switchTo pf links ⟨files, op⟩ v).files = files ∧
      Ready pf wanted (Files.tree files) (switchTo pf links ⟨files, op⟩ v).operation := by
  unfold switchTo
  split_ifs with hdownloaded
  · exact ⟨rfl, hv, hwanted, hdeployed.downloaded hdigit hv hdownloaded⟩
  · exact ⟨rfl, hready⟩

omit hdeployed in
theorem remove_keeps {top p : Path} (hop : op = .removing top) (hp : top <:+ p) :
    Keeps pf wanted busy (Files.tree files) (Files.tree (AList.erase p files)) := by
  subst hop
  obtain ⟨version, hv, rfl⟩ := hready
  rw [Files.tree_erase]
  refine (Change.staging hv hp ?_ ?_).erase
  · intro absolute target h
    cases h
  · intro w _ _ node h
    cases h

theorem upgradeStep_keeps {i : ι} {a : UpgradeAction} {s : Machine ι}
    (hdigit : ∀ c, pf.digit c = true → isSpace c = false) (hfiles : s.files = files)
    (hpermitted : Permitted pf links wanted s (.thread i a))
    (hstep : upgradeStep pf links ⟨files, op⟩ a = some t) :
    Keeps pf wanted busy (Files.tree files) t.tree ∧ Ready pf wanted t.tree t.operation := by
  subst hfiles
  unfold upgradeStep at hstep
  rcases a with ⟨version, expected⟩ | version | ⟨version, choice⟩ | _ | p | _
  all_goals dsimp only at hstep
  · split_ifs at hstep
    cases hstep
    obtain ⟨hfiles, hready'⟩ := finalizePushedVersion_ready hready links version expected
    unfold UpgradeState.tree
    rw [hfiles]
    exact ⟨.refl _, hready'⟩
  · split_ifs at hstep with hidle
    cases hstep
    obtain ⟨hfiles, hready'⟩ := switchTo_ready hdeployed hready links hdigit hidle.2 hpermitted
    unfold UpgradeState.tree
    rw [hfiles]
    exact ⟨.refl _, hready'⟩
  · split_ifs at hstep
    rcases hname : chosenVersion (listLocalVersions pf links s.files) version choice with _ | name
    · rw [hname] at hstep
      cases hstep
      exact ⟨.refl _, hready⟩
    · rw [hname] at hstep
      cases hstep
      obtain ⟨hv, hwanted⟩ := hpermitted name hname
      obtain ⟨hfiles, hready'⟩ := switchTo_ready hdeployed hready links hdigit hv hwanted
      unfold UpgradeState.tree
      rw [hfiles]
      exact ⟨.refl _, hready'⟩
  · exact upgradeCall_keeps hdeployed hready hstep
  · rcases op with _ | _ | _ | _ | top | _ | _ | _
    case removing =>
      dsimp only at hstep
      split_ifs at hstep with hp
      cases hstep
      exact ⟨remove_keeps hready rfl hp.1, hready⟩
    all_goals cases hstep
  · cases hstep
    exact ⟨.refl _, trivial⟩

end

namespace Machine

/-- The machine is deployed, and every operation is ready for its next call. -/
structure Sound (pf : Platform) (wanted : Str → Prop) (s : Machine ι) : Prop where
  deployed : Deployed pf wanted s.tree
  ready : ∀ i, Ready pf wanted s.tree (s.operation i)

/-- Some thread is between its `os.chmod` and its `os.replace`. -/
def Renaming (s : Machine ι) (version : Str) : Prop := ∃ i, s.operation i = .executable version

variable {s s' : Machine ι}

theorem Sound.keeps (h : Sound pf wanted s) (hkeeps : Keeps pf wanted s.Renaming s.tree s'.tree)
    (hoperation : s'.operation = s.operation) : Sound pf wanted s' := by
  refine ⟨hkeeps.deployed h.deployed, fun i => ?_⟩
  rw [hoperation]
  exact (h.ready i).keeps hkeeps fun version hop => ⟨i, hop⟩

/-- **A step** keeps the machine sound, and every installed version. -/
theorem step_sound [DecidableEq ι] (hdigit : ∀ c, pf.digit c = true → isSpace c = false) {a : MachineAction ι}
    (h : Sound pf wanted s) (hpermitted : Permitted pf links wanted s a) (hstep : s.step pf links a = some s') :
    Sound pf wanted s' ∧ ∀ v, isVersion pf v = true → Installed pf s.tree v → Installed pf s'.tree v := by
  rcases a with ⟨i, a⟩ | ⟨version, staging⟩ | ⟨version, name, content, executable⟩ | ⟨version, name⟩
  · obtain ⟨t, ht, rfl⟩ := Option.map_eq_some_iff.mp hstep
    obtain ⟨hkeeps, hready⟩ : Keeps pf wanted s.Renaming s.tree t.tree ∧ Ready pf wanted t.tree t.operation :=
      upgradeStep_keeps h.deployed (h.ready i) hdigit rfl hpermitted ht
    refine ⟨⟨hkeeps.deployed h.deployed, fun j => ?_⟩, hkeeps.installed⟩
    by_cases hj : j = i
    · subst hj
      show Ready pf wanted t.tree (Function.update s.operation j t.operation j)
      rw [Function.update_self]
      exact hready
    · show Ready pf wanted t.tree (Function.update s.operation i t.operation j)
      rw [Function.update_of_ne hj]
      exact (h.ready j).keeps hkeeps fun version hop => ⟨j, hop⟩
  · have hv : isVersion pf version = true := hpermitted
    simp only [step] at hstep
    split_ifs at hstep with hnew
    cases hstep
    have hkeeps : Keeps pf wanted s.Renaming s.tree
        (Files.tree (s.files.insert (uploadDir pf version staging) .dir)) := by
      rw [Files.tree_insert]
      cases staging with
      | false => exact (Change.make hv hnew.2).put
      | true =>
        refine (Change.staging hv (List.suffix_refl _) ?_ ?_).put
        · intro absolute target hlink
          cases hlink
        · intro w _ hw
          have hlength := congrArg List.length hw
          simp [stagingAt, versionAt] at hlength
    exact ⟨h.keeps hkeeps rfl, hkeeps.installed⟩
  · obtain ⟨hv, hpackage⟩ := hpermitted
    simp only [step] at hstep
    split_ifs at hstep
    cases hstep
    have hkeeps : Keeps pf wanted s.Renaming s.tree
        (Files.tree (s.files.insert (name :: stagingAt pf version) (.file content executable))) := by
      rw [Files.tree_insert]
      refine (Change.staging hv (List.suffix_cons _ _) ?_ ?_).put
      · intro absolute target hlink
        cases hlink
      · rintro w ⟨i, hop⟩ hw node hnode
        obtain ⟨rfl, hstaging⟩ := List.cons.inj hw
        obtain rfl : version = w := (List.cons.inj (List.cons.inj hstaging).2).1
        cases hexecutable : executable with
        | false => exact absurd hop (hpackage rfl hexecutable i)
        | true => exact ⟨content, (Option.some.inj hnode).symm.trans (by rw [hexecutable])⟩
    exact ⟨h.keeps hkeeps rfl, hkeeps.installed⟩
  · have hv : isVersion pf version = true := hpermitted
    simp only [step] at hstep
    split_ifs at hstep
    cases hstep
    have hkeeps : Keeps pf wanted s.Renaming s.tree
        (Files.tree (AList.erase (name :: stagingAt pf version) s.files)) := by
      rw [Files.tree_erase]
      refine (Change.staging hv (List.suffix_cons _ _) ?_ ?_).erase
      · intro absolute target hlink
        cases hlink
      · intro w _ _ node hnode
        cases hnode
    exact ⟨h.keeps hkeeps rfl, hkeeps.installed⟩

end Machine

/-! ### What the service and the next upgrade find -/

theorem Deployed.version_dirs (h : Deployed pf wanted tree) (hinstalled : Installed pf tree v) :
    ∀ p, p <:+ versionAt pf v → tree p = some .dir := by
  intro p hp
  rcases List.suffix_cons_iff.mp hp with rfl | hp
  · exact hinstalled.1
  · exact h.base p hp

theorem Deployed.installed_walk (h : Deployed pf wanted tree) (hv : isVersion pf v = true)
    (hinstalled : Installed pf tree v) :
    walk tree links [] (versionPath pf v) = some (versionAt pf v, links) := by
  rw [versionPath_eq hv]
  exact walk_dirs (h.version_dirs hinstalled)

theorem Deployed.isVersionDownloaded (h : Deployed pf wanted tree)
    (hdigit : ∀ c, pf.digit c = true → isSpace c = false) (hv : isVersion pf v = true)
    (hinstalled : Installed pf tree v) : isVersionDownloaded pf links tree v = true := by
  obtain ⟨hdir, content, hbinary⟩ := hinstalled
  have hentry : entryAt tree links (versionPath pf v) binaryName = some (binaryName :: versionAt pf v) :=
    entryAt_eq_some.mpr ⟨_, _, h.installed_walk hv ⟨hdir, content, hbinary⟩, hdir, rfl⟩
  unfold Upgrade.isVersionDownloaded
  rw [normalize_isVersion hdigit hv, fileAt_of_entryAt hentry hbinary]
  rfl

theorem Deployed.serves (h : Deployed pf wanted tree) (hlinks : 0 < links) : Serves pf links tree := by
  obtain ⟨n, rfl⟩ := Nat.exists_eq_add_one.mpr hlinks
  obtain ⟨node, hcurrent, version, hv, -, hinstalled, rfl⟩ := h.current
  refine holds_link h.walk_versions (h.base _ (List.suffix_refl _)) hcurrent ?_
  obtain ⟨hdir, content, hbinary⟩ := hinstalled
  refine ⟨_, _, h.installed_walk hv ⟨hdir, content, hbinary⟩, hdir, _, n, content, ?_, hbinary⟩
  have hlink : isLink tree (binaryName :: versionAt pf version) = false := by
    unfold isLink
    rw [hbinary]
  rw [walk_entry hdir hbinary hlink, walk_nil]

/-! ### Runs -/

namespace Machine

variable [DecidableEq ι] {s s' : Machine ι} {actions : List (MachineAction ι)}

theorem run_sound (hdigit : ∀ c, pf.digit c = true → isSpace c = false)
    (hrun : Run (fun s a s' => Permitted pf links wanted s a ∧ s.step pf links a = some s') s actions s')
    (h : Sound pf wanted s) :
    Sound pf wanted s' ∧ ∀ v, isVersion pf v = true → Installed pf s.tree v → Installed pf s'.tree v := by
  induction hrun with
  | nil s => exact ⟨h, fun _ _ hinstalled => hinstalled⟩
  | cons hstep _ ih =>
    obtain ⟨hsound, hkept⟩ := step_sound hdigit h hstep.1 hstep.2
    obtain ⟨hsound', hkept'⟩ := ih hsound
    exact ⟨hsound', fun v hv hinstalled => hkept' v hv (hkept v hv hinstalled)⟩

/-- **Any interleaving of upgrades and uploads** leaves the machine deployed: `current` has its executable, and leads
to a version that was asked for, and the versions that were installed are found. -/
theorem run_deployed (pf : Platform) (links : Nat) (wanted : Str → Prop) (hlinks : 0 < links)
    (hdigit : ∀ c, pf.digit c = true → isSpace c = false)
    (hrun : Run (fun s a s' => Permitted pf links wanted s a ∧ s.step pf links a = some s') s actions s')
    (hidle : ∀ i, s.operation i = .idle) (hdeployed : Deployed pf wanted s.tree) :
    Serves pf links s'.tree ∧ Deployed pf wanted s'.tree ∧
      ∀ v, isVersion pf v = true → Installed pf s.tree v → isVersionDownloaded pf links s'.tree v = true := by
  have hready : ∀ i, Ready pf wanted s.tree (s.operation i) := by
    intro i
    rw [hidle i]
    trivial
  obtain ⟨hsound, hkept⟩ := run_sound hdigit hrun ⟨hdeployed, hready⟩
  exact ⟨hsound.deployed.serves hlinks, hsound.deployed, fun v hv hinstalled =>
    hsound.deployed.isVersionDownloaded hdigit hv (hkept v hv hinstalled)⟩

/-- **What `finalize_pushed_version` has renamed**, `_restart_after_upgrade` finds, whatever happens until then. -/
theorem run_renamed (pf : Platform) (links : Nat) (wanted : Str → Prop) {s s₁ s₂ s' : Machine ι}
    {before after : List (MachineAction ι)} {i : ι} {version : Str}
    (hdigit : ∀ c, pf.digit c = true → isSpace c = false) (hidle : ∀ i, s.operation i = .idle)
    (hdeployed : Deployed pf wanted s.tree)
    (hbefore : Run (fun s a s' => Permitted pf links wanted s a ∧ s.step pf links a = some s') s before s₁)
    (hop : s₁.operation i = .executable version) (hrename : s₁.step pf links (.thread i .call) = some s₂)
    (hafter : Run (fun s a s' => Permitted pf links wanted s a ∧ s.step pf links a = some s') s₂ after s') :
    isVersionDownloaded pf links s'.tree version = true := by
  have hready : ∀ i, Ready pf wanted s.tree (s.operation i) := by
    intro i
    rw [hidle i]
    trivial
  obtain ⟨hsound₁, -⟩ := run_sound hdigit hbefore ⟨hdeployed, hready⟩
  obtain ⟨hsound₂, -⟩ := step_sound (a := .thread i .call) hdigit hsound₁ trivial hrename
  obtain ⟨hsound', hkept⟩ := run_sound hdigit hafter hsound₂
  have hexecutable := hsound₁.ready i
  rw [hop] at hexecutable
  obtain ⟨t, hcall, rfl⟩ := Option.map_eq_some_iff.mp hrename
  rw [hop] at hcall
  obtain ⟨files', hfiles, rfl⟩ := Option.map_eq_some_iff.mp hcall
  have hinstalled := replacePackage_installed hsound₁.deployed hexecutable.1 hexecutable.2 hfiles
  exact hsound'.deployed.isVersionDownloaded hdigit hexecutable.1 (hkept version hexecutable.1 hinstalled)

end Machine

/-! ### An upgrade beside a switch -/

/-- `1.8` is uploaded again and installed, while another thread switches to `1.7`. -/
def sideBySide : List (MachineAction Bool) :=
  [.store ['1', '.', '8'] ['p'] [0x63] false, .discard ['1', '.', '8'] ['p'],
    .store ['1', '.', '8'] binaryName [0x62] false, .thread true (.finalize ['1', '.', '8'] ['b']),
    .thread false (.restart ['1', '.', '7']), .thread true .call, .thread false .call, .thread true .call,
    .thread false .call, .thread true (.stop), .thread true (.restart ['1', '.', '8']), .thread true .call,
    .thread false .stop, .thread true .call, .thread true .call]

theorem deployed_twoVersions (pushed : Bool) :
    Deployed plainPlatform (fun _ => True) (Files.tree (twoVersions pushed)) := by
  refine ⟨fun p hp => ?_, ?_, fun node hnode => ?_, fun p _ hlink => ?_⟩
  · obtain rfl := List.suffix_nil.mp hp
    cases pushed <;> rfl
  · refine ⟨.link true [.name ['1', '.', '7']], ?_, ['1', '.', '7'], by decide, trivial, ?_, rfl⟩
    · cases pushed <;> rfl
    · cases pushed
      · exact ⟨rfl, _, rfl⟩
      · exact ⟨rfl, _, rfl⟩
  · cases pushed <;> cases hnode
  · have hkeys : ∀ p ∈ (twoVersions pushed).keys, isLink (Files.tree (twoVersions pushed)) p = true →
        isCurrent [] p = true := by
      cases pushed <;> decide
    obtain ⟨absolute, target, hnode⟩ := isLink_iff.mp hlink
    exact hkeys p (AList.lookup_isSome.mp (Option.isSome_of_eq_some hnode)) hlink

def sideStart : Machine Bool := ⟨twoVersions true, fun _ => .idle⟩

theorem run_deployed_sideBySide :
    ∃ s, sideBySide.foldlM (Machine.step plainPlatform 40) sideStart = some s ∧
      Serves plainPlatform 40 s.tree ∧ isVersionDownloaded plainPlatform 40 s.tree ['1', '.', '7'] = true := by
  have hrun : Run (fun s a s' => Permitted plainPlatform 40 (fun _ => True) s a ∧ s.step plainPlatform 40 a = some s')
      sideStart sideBySide _ :=
    .cons ⟨⟨rfl, fun h => absurd h (by decide)⟩, rfl⟩ (.cons ⟨rfl, rfl⟩
      (.cons ⟨⟨rfl, fun _ _ _ h => Operation.noConfusion h⟩, rfl⟩ (.cons ⟨trivial, rfl⟩ (.cons ⟨trivial, rfl⟩
        (.cons ⟨trivial, rfl⟩ (.cons ⟨trivial, rfl⟩ (.cons ⟨trivial, rfl⟩ (.cons ⟨trivial, rfl⟩
          (.cons ⟨trivial, rfl⟩ (.cons ⟨trivial, rfl⟩ (.cons ⟨trivial, rfl⟩ (.cons ⟨trivial, rfl⟩
            (.cons ⟨trivial, rfl⟩ (.cons ⟨trivial, rfl⟩ (.nil _)))))))))))))))
  obtain ⟨hserves, -, hkept⟩ := Machine.run_deployed plainPlatform 40 (fun _ => True) (by decide)
    (fun _ h => Bool.noConfusion h) hrun (fun _ => rfl) (deployed_twoVersions true)
  exact ⟨_, rfl, hserves, hkept ['1', '.', '7'] rfl ⟨rfl, _, rfl⟩⟩

theorem run_renamed_sideBySide :
    ∃ s, sideBySide.foldlM (Machine.step plainPlatform 40) sideStart = some s ∧
      isVersionDownloaded plainPlatform 40 s.tree ['1', '.', '8'] = true := by
  have hbefore : Run (fun s a s' => Permitted plainPlatform 40 (fun _ => True) s a ∧
      s.step plainPlatform 40 a = some s') sideStart (sideBySide.take 7) _ :=
    .cons ⟨⟨rfl, fun h => absurd h (by decide)⟩, rfl⟩ (.cons ⟨rfl, rfl⟩
      (.cons ⟨⟨rfl, fun _ _ _ h => Operation.noConfusion h⟩, rfl⟩ (.cons ⟨trivial, rfl⟩ (.cons ⟨trivial, rfl⟩
        (.cons ⟨trivial, rfl⟩ (.cons ⟨trivial, rfl⟩ (.nil _)))))))
  refine ⟨_, rfl, Machine.run_renamed plainPlatform 40 (fun _ => True) (s := sideStart) (i := true)
    (fun _ h => Bool.noConfusion h) (fun _ => rfl) (deployed_twoVersions true) hbefore rfl rfl
    (show Run _ _ (sideBySide.drop 8) _ from ?_)⟩
  exact .cons ⟨trivial, rfl⟩ (.cons ⟨trivial, rfl⟩ (.cons ⟨trivial, rfl⟩ (.cons ⟨trivial, rfl⟩
    (.cons ⟨trivial, rfl⟩ (.cons ⟨trivial, rfl⟩ (.cons ⟨trivial, rfl⟩ (.nil _)))))))

end SocketServer.Upgrade
