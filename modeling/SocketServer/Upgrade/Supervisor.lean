import SocketServer.Upgrade.Concurrent
import SocketServer.Upgrade.Config

/-!
# What a restart runs (`supervisor.py`)

systemd runs the program that the unit names, as it has last read it: `switch_to` changes `current` and restarts the
service, and the unit has to name `versions/current/socket_server` for that to change anything. Units of old versions
name the directory of one version. `ensure_unit_correct` writes the unit anew when the service starts, and
`service_enable` on the command line: callers that cut the file, write it and reload systemd side by side, any of which
may fail or be killed, while upgrades go on. `systemctl enable` and `systemctl disable` reload systemd as well.

* `Host.run_restarts` : after one reload every restart runs the version that `current` links to;
* `Host.run_pinned` : before it, every restart runs the version that the old unit names.
-/

namespace SocketServer.Upgrade

open Text LinkTree
open Confinement (pathParts pathParts_append isVersion_ne isVersion_notMem)

variable {ι κ : Type} (pf : Platform) (links : Nat)

/-! ### The unit -/

/-- The text of an absolute path. -/
def pathText (p : Path) : Str := p.reverse.flatMap fun name => '/' :: name

/-- `EXPECTED_EXEC`. -/
def expectedExec : Str := pathText (binaryName :: currentName :: pf.versionsDir)

/-- `UNIT_CONTENT.format(exec_path=execPath)`. -/
def unitContent (execPath : Str) : Str :=
  "[Unit]\nDescription=socket_server TCP Service\nAfter=network.target\n\n[Service]\nType=simple\nExecStart=".toList ++
    execPath ++ " serve\nRestart=always\nRestartSec=5\n".toList ++
    "Environment=PATH=/usr/local/sbin:/usr/local/bin:/usr/sbin:/usr/bin:/sbin:/bin\n\n".toList ++
    "[Install]\nWantedBy=multi-user.target\n".toList

/-- `os.path.isfile(p) and os.access(p, os.X_OK)`. -/
def isExecutable (tree : LinkTree Str Bytes) (p : Str) : Bool :=
  (fileAt tree links (pathParts p)).any fun file => file.2.2

/-- `_find_current_binary`, where `own` is what `shutil.which` finds. -/
def findCurrentBinary (tree : LinkTree Str Bytes) (own : Option Str) : Option Str :=
  if isExecutable links tree (expectedExec pf) then some (expectedExec pf)
  else if isExecutable links tree (pathText (binaryName :: pf.versionsDir.tail)) then
    some (pathText (binaryName :: pf.versionsDir.tail))
  else own

/-! ### The callers -/

/-- Where a process is that may write the unit. -/
inductive Caller
  | idle
  /-- `ensure_unit_correct` has found `EXPECTED_EXEC`, and reads the unit next. -/
  | comparing
  /-- `_write_unit`, of `service_enable` where `enables` : `open(UNIT_PATH, "w")` is next. -/
  | opening (execPath : Str) (enables : Bool)
  /-- The file is open, and the text is written next. -/
  | writing (execPath : Str) (enables : Bool)
  /-- `systemctl daemon-reload` is next. -/
  | reloading (enables : Bool)
  /-- `systemctl enable` is next. -/
  | enabling
  deriving DecidableEq, Repr

/-- The next call is one by which systemd reads the unit. -/
def Caller.reloads : Caller → Bool
  | .reloading _ | .enabling => true
  | _ => false

/-- The upgrades, the unit and what systemd has read of it, the callers, and the program that the service runs. -/
structure Host (ι κ : Type) where
  machine : Machine ι
  unit : Option Str
  loaded : Option Str
  caller : κ → Caller
  running : Option Path

inductive HostAction (ι κ : Type)
  /-- A step of an upgrade or an upload. -/
  | upgrade (a : MachineAction ι)
  /-- `ensure_unit_correct()`, to the look at `EXPECTED_EXEC`. -/
  | ensure (k : κ)
  /-- `service_enable()`, to `_find_current_binary()`. -/
  | enable (k : κ)
  /-- `service_disable()`, which is `systemctl disable`. -/
  | disable (succeeds : Bool)
  /-- The next call of `k`, which may fail. -/
  | call (k : κ) (succeeds : Bool)
  /-- `k` is killed. -/
  | die (k : κ)
  /-- systemd starts the service. -/
  | restart
  deriving DecidableEq, Repr

namespace Host

variable (execStart : Str → Option Str) (own : Option Str) [DecidableEq ι] [DecidableEq κ]

def goto (s : Host ι κ) (k : κ) (c : Caller) : Host ι κ := { s with caller := Function.update s.caller k c }

/-- A call of `systemctl` by which systemd reads the unit, where it succeeds. -/
def systemctl (s : Host ι κ) (succeeds : Bool) : Host ι κ :=
  { s with loaded := if succeeds then s.unit else s.loaded }

/-- The next call of `k`; where it raises, `k` is done. `_write_unit` does not look at what `daemon-reload` returns. -/
def next (s : Host ι κ) (k : κ) (succeeds : Bool) : Option (Host ι κ) :=
  match s.caller k with
  | .idle => none
  | .comparing =>
    match s.unit with
    -- `FileNotFoundError`
    | none => some (s.goto k .idle)
    | some existing =>
      if succeeds ∧ strip isSpace (translateNewlines existing) ≠ strip isSpace (unitContent (expectedExec pf)) then
        some (s.goto k (.opening (expectedExec pf) false))
      else some (s.goto k .idle)
  | .opening execPath enables =>
    if succeeds then some ({ s with unit := some [] }.goto k (.writing execPath enables)) else some (s.goto k .idle)
  | .writing execPath enables =>
    if succeeds then
      let text := unitContent execPath
      some ({ s with unit := some (text ++ (s.unit.getD []).drop text.length) }.goto k (.reloading enables))
    else some (s.goto k .idle)
  | .reloading enables => some ((s.systemctl succeeds).goto k (if enables then .enabling else .idle))
  | .enabling => some ((s.systemctl succeeds).goto k .idle)

/-- One step, where `execStart` is what systemd makes of the text of a unit. -/
def step (s : Host ι κ) : HostAction ι κ → Option (Host ι κ)
  | .upgrade a => (s.machine.step pf links a).map fun machine => { s with machine := machine }
  | .ensure k =>
    if s.caller k = .idle then
      some (if isExecutable links s.machine.tree (expectedExec pf) then s.goto k .comparing else s)
    else none
  | .enable k =>
    if s.caller k = .idle then
      match findCurrentBinary pf links s.machine.tree own with
      | none => some s
      | some execPath => some (s.goto k (.opening execPath true))
    else none
  | .disable succeeds => some (s.systemctl succeeds)
  | .call k succeeds => s.next pf k succeeds
  | .die k => some (s.goto k .idle)
  | .restart =>
    some { s with running := (s.loaded.bind execStart).bind fun p =>
      ((fileAt s.machine.tree links (pathParts p)).filter fun file => file.2.2).map Prod.fst }

/-- A step in which systemd reads the unit. -/
def Reloads (s : Host ι κ) : HostAction ι κ → Prop
  | .call k succeeds => succeeds = true ∧ (s.caller k).reloads = true
  | .disable succeeds => succeeds = true
  | _ => False

/-- The condition on a step: systemd is not reloaded while the unit is empty, which another caller has cut. -/
def Permitted (wanted : Str → Prop) (s : Host ι κ) : HostAction ι κ → Prop
  | .upgrade a => Upgrade.Permitted pf links wanted s.machine a
  | a => s.Reloads a → s.unit ≠ some []

end Host

/-! ### Paths -/

theorem pathText_cons (name : Str) (p : Path) : pathText (name :: p) = pathText p ++ '/' :: name := by
  simp [pathText]

/-- Names that a path may consist of. -/
def PlainName (name : Str) : Prop := '/' ∉ name ∧ name ∉ [[], ['.'], ['.', '.']]

theorem pathParts_name {name : Str} (h : PlainName name) : pathParts name = [.name name] := by
  obtain ⟨hslash, hne⟩ := h
  simp only [List.mem_cons, List.not_mem_nil, or_false, not_or] at hne
  have hone : name.splitOn '/' = [name] := List.splitOn_eq_singleton hslash
  simp [pathParts, hone, components, hne.1, hne.2.1, hne.2.2]

theorem pathParts_pathText {p : Path} (h : ∀ name ∈ p, PlainName name) :
    pathParts (pathText p) = p.reverse.map .name := by
  induction p with
  | nil => rfl
  | cons name p ih =>
    rw [pathText_cons, pathParts_append, ih fun name hname => h name (List.mem_cons_of_mem _ hname),
      pathParts_name (h name List.mem_cons_self), List.reverse_cons, List.map_append]
    rfl

theorem plainName_binary : PlainName binaryName := ⟨by decide, by decide⟩

theorem plainName_current : PlainName currentName := ⟨by decide, by decide⟩

variable {pf} {links} {tree : LinkTree Str Bytes} {wanted : Str → Prop} {v : Str}

theorem plainName_version (hv : isVersion pf v = true) : PlainName v := by
  have hne := isVersion_ne hv
  simp only [List.mem_cons, not_or] at hne
  exact ⟨isVersion_notMem hv (by decide) rfl, by simp [hne.1, hne.2.1, hne.2.2.1]⟩

/-! ### What the paths lead to -/

theorem Deployed.installed_file (h : Deployed pf wanted tree) (hv : isVersion pf v = true)
    (hinstalled : Installed pf tree v) :
    ∃ content, fileAt tree links (versionPath pf v ++ [.name binaryName]) =
      some (binaryName :: versionAt pf v, content, true) := by
  have hwalk : walk tree links [] (versionPath pf v) = _ := h.installed_walk hv hinstalled
  obtain ⟨hdir, content, hbinary⟩ := hinstalled
  have hentry : entryAt tree links (versionPath pf v) binaryName = some (binaryName :: versionAt pf v) :=
    entryAt_eq_some.mpr ⟨_, _, hwalk, hdir, rfl⟩
  exact ⟨content, fileAt_of_entryAt hentry hbinary⟩

/-- `versions/current/socket_server` is the program of the version that `current` links to. -/
theorem Deployed.current_file (h : Deployed pf wanted tree) (hlinks : 0 < links) :
    ∃ version content, isVersion pf version = true ∧ wanted version ∧
      tree (currentName :: pf.versionsDir) = some (.link true (versionPath pf version)) ∧
      fileAt tree links (versionsPath pf ++ [.name currentName] ++ [.name binaryName]) =
        some (binaryName :: versionAt pf version, content, true) := by
  obtain ⟨n, rfl⟩ := Nat.exists_eq_add_one.mpr hlinks
  obtain ⟨node, hcurrent, version, hv, hwanted, hinstalled, rfl⟩ := h.current
  obtain ⟨content, hfile⟩ : ∃ content, fileAt tree n (versionPath pf version ++ [.name binaryName]) =
      some (binaryName :: versionAt pf version, content, true) := h.installed_file hv hinstalled
  refine ⟨version, content, hv, hwanted, hcurrent, ?_⟩
  have hwalk : walk tree (n + 1) [] (versionsPath pf ++ ([.name currentName] ++ [.name binaryName])) =
      walk tree n [] (versionPath pf version ++ [.name binaryName]) := by
    rw [walk_append, h.walk_versions]
    exact (walk_link (h.base _ (List.suffix_refl _)) hcurrent).trans rfl
  rw [List.append_assoc, fileAt, hwalk]
  exact hfile

variable (hplain : ∀ name ∈ pf.versionsDir, PlainName name)

include hplain

theorem expectedExec_parts :
    pathParts (expectedExec pf) = versionsPath pf ++ [.name currentName] ++ [.name binaryName] := by
  have hall : ∀ name ∈ binaryName :: currentName :: pf.versionsDir, PlainName name :=
    List.forall_mem_cons.mpr ⟨plainName_binary, List.forall_mem_cons.mpr ⟨plainName_current, hplain⟩⟩
  rw [expectedExec, pathParts_pathText hall, List.reverse_cons, List.reverse_cons, List.map_append, List.map_append]
  rfl

theorem binary_parts (hv : isVersion pf v = true) :
    pathParts (pathText (binaryName :: versionAt pf v)) = versionPath pf v ++ [.name binaryName] := by
  have hall : ∀ name ∈ binaryName :: versionAt pf v, PlainName name :=
    List.forall_mem_cons.mpr ⟨plainName_binary, List.forall_mem_cons.mpr ⟨plainName_version hv, hplain⟩⟩
  rw [pathParts_pathText hall, versionPath_eq hv, List.reverse_cons, List.map_append]
  rfl

/-- On a deployed machine both callers find `EXPECTED_EXEC`. -/
theorem Deployed.isExecutable (h : Deployed pf wanted tree) (hlinks : 0 < links) :
    isExecutable links tree (expectedExec pf) = true := by
  obtain ⟨version, content, -, -, -, hfile⟩ := h.current_file hlinks
  rw [Upgrade.isExecutable, expectedExec_parts hplain, hfile]
  rfl

theorem Deployed.findCurrentBinary (h : Deployed pf wanted tree) (hlinks : 0 < links) (own : Option Str) :
    findCurrentBinary pf links tree own = some (expectedExec pf) := if_pos (h.isExecutable hplain hlinks)

omit hplain

/-! ### Runs -/

/-- The unit is what `_write_unit` makes of `EXPECTED_EXEC`, or cut. -/
def Rewritten (pf : Platform) (unit : Option Str) : Prop :=
  unit = some [] ∨ unit = some (unitContent (expectedExec pf))

/-- What holds of a caller: it writes `EXPECTED_EXEC`, and has rewritten the unit once it is open. -/
def Caller.Sound (pf : Platform) (unit : Option Str) : Caller → Prop
  | .idle | .comparing => True
  | .opening execPath _ => execPath = expectedExec pf
  | .writing execPath _ => execPath = expectedExec pf ∧ Rewritten pf unit
  | .reloading _ | .enabling => Rewritten pf unit

theorem Caller.Sound.mono {unit unit' : Option Str} {c : Caller} (h : c.Sound pf unit)
    (hunit : Rewritten pf unit → Rewritten pf unit') : c.Sound pf unit' := by
  cases c with
  | idle => trivial
  | comparing => trivial
  | opening execPath enables => exact h
  | writing execPath enables => exact ⟨h.1, hunit h.2⟩
  | reloading enables => exact hunit h
  | enabling => exact hunit h

theorem Caller.Sound.rewritten {unit : Option Str} {c : Caller} (h : c.Sound pf unit) (hc : c.reloads = true) :
    Rewritten pf unit := by
  cases c with
  | reloading enables => exact h
  | enabling => exact h
  | _ => cases hc

theorem rewritten_write {unit : Option Str} (h : Rewritten pf unit) :
    some (unitContent (expectedExec pf) ++ (unit.getD []).drop (unitContent (expectedExec pf)).length) =
      some (unitContent (expectedExec pf)) := by
  rcases h with rfl | rfl
  · rw [Option.getD_some, List.drop_nil, List.append_nil]
  · rw [Option.getD_some, List.drop_length, List.append_nil]

namespace Host

variable {execStart : Str → Option Str} {own : Option Str} {s s' : Host ι κ}

structure Supervised (pf : Platform) (wanted : Str → Prop) (s : Host ι κ) : Prop where
  machine : s.machine.Sound pf wanted
  caller : ∀ k, (s.caller k).Sound pf s.unit

/-- Nothing of an upgrade and no caller is in the middle. -/
structure Quiet (s : Host ι κ) : Prop where
  operation : ∀ i, s.machine.operation i = .idle
  caller : ∀ k, s.caller k = .idle

theorem Quiet.supervised (h : Quiet s) (hdeployed : Deployed pf wanted s.machine.tree) : Supervised pf wanted s := by
  refine ⟨⟨hdeployed, fun i => ?_⟩, fun k => ?_⟩
  · rw [h.operation]
    trivial
  · rw [h.caller]
    trivial

variable [DecidableEq κ]

/-- What the next call of `k` changes. -/
structure Moves (pf : Platform) (s s' : Host ι κ) (k : κ) (succeeds : Bool) : Prop where
  machine : s'.machine = s.machine
  caller : ∃ c, s'.caller = Function.update s.caller k c ∧ c.Sound pf s'.unit
  unit : Rewritten pf s.unit → Rewritten pf s'.unit
  loaded : s'.loaded = s.loaded ∨ s.Reloads (.call k succeeds : HostAction ι κ) ∧ s'.loaded = s.unit

theorem Moves.goto {k : κ} {succeeds : Bool} {c : Caller} (hc : c.Sound pf s.unit) :
    Moves pf s (s.goto k c) k succeeds :=
  ⟨rfl, ⟨c, rfl, hc⟩, fun h => h, .inl rfl⟩

theorem Moves.supervised {k : κ} {succeeds : Bool} (h : Moves pf s s' k succeeds) (hs : Supervised pf wanted s) :
    Supervised pf wanted s' := by
  obtain ⟨c, hcaller, hc⟩ := h.caller
  refine ⟨by rw [h.machine]; exact hs.machine, fun k' => ?_⟩
  rw [hcaller]
  by_cases hk : k' = k
  · rw [hk, Function.update_self]
    exact hc
  · rw [Function.update_of_ne hk]
    exact (hs.caller k').mono h.unit

theorem Supervised.goto (hs : Supervised pf wanted s) (k : κ) {c : Caller} (hc : c.Sound pf s.unit) :
    Supervised pf wanted (s.goto k c) := by
  have hmoves : Moves pf s (s.goto k c) k true := .goto hc
  exact hmoves.supervised hs

omit [DecidableEq κ] in
theorem systemctl_loaded (succeeds : Bool) :
    (s.systemctl succeeds).loaded = s.loaded ∨ succeeds = true ∧ (s.systemctl succeeds).loaded = s.unit := by
  cases succeeds with
  | false => exact .inl rfl
  | true => exact .inr ⟨rfl, rfl⟩

theorem Moves.systemctl {k : κ} {succeeds : Bool} {c : Caller} (hk : (s.caller k).reloads = true)
    (hc : c.Sound pf s.unit) : Moves pf s ((s.systemctl succeeds).goto k c) k succeeds :=
  ⟨rfl, ⟨c, rfl, hc⟩, fun h => h, (systemctl_loaded succeeds).imp_right fun h => ⟨⟨h.1, hk⟩, h.2⟩⟩

theorem next_moves {k : κ} {succeeds : Bool} (hs : Supervised pf wanted s)
    (hstep : s.next pf k succeeds = some s') : Moves pf s s' k succeeds := by
  have hk := hs.caller k
  unfold next at hstep
  cases hcaller : s.caller k with
  | idle =>
    rw [hcaller] at hstep
    cases hstep
  | comparing =>
    rw [hcaller] at hstep
    cases hunit : s.unit with
    | none =>
      rw [hunit] at hstep
      cases hstep
      exact .goto trivial
    | some existing =>
      rw [hunit] at hstep
      dsimp only at hstep
      split_ifs at hstep
      · cases hstep
        exact .goto rfl
      · cases hstep
        exact .goto trivial
  | opening execPath enables =>
    rw [hcaller] at hstep hk
    cases succeeds with
    | false =>
      cases hstep
      exact .goto trivial
    | true =>
      cases hstep
      exact ⟨rfl, ⟨_, rfl, hk, .inl rfl⟩, fun _ => .inl rfl, .inl rfl⟩
  | writing execPath enables =>
    rw [hcaller] at hstep hk
    cases succeeds with
    | false =>
      cases hstep
      exact .goto trivial
    | true =>
      obtain ⟨rfl, hunit⟩ := hk
      cases hstep
      have hwritten : Rewritten pf (some (unitContent (expectedExec pf) ++
          (s.unit.getD []).drop (unitContent (expectedExec pf)).length)) := .inr (rewritten_write hunit)
      exact ⟨rfl, ⟨_, rfl, hwritten⟩, fun _ => hwritten, .inl rfl⟩
  | reloading enables =>
    rw [hcaller] at hstep hk
    have hreloads : (s.caller k).reloads = true := by rw [hcaller]; rfl
    cases hstep
    cases enables with
    | false => exact .systemctl hreloads trivial
    | true => exact .systemctl hreloads hk
  | enabling =>
    rw [hcaller] at hstep
    have hreloads : (s.caller k).reloads = true := by rw [hcaller]; rfl
    cases hstep
    exact .systemctl hreloads trivial

theorem next_loaded {k : κ} (hcaller : (s.caller k).reloads = true) (hstep : s.next pf k true = some s') :
    s'.loaded = s.unit := by
  unfold next at hstep
  cases hk : s.caller k with
  | reloading enables =>
    rw [hk] at hstep
    cases hstep
    rfl
  | enabling =>
    rw [hk] at hstep
    cases hstep
    rfl
  | _ =>
    rw [hk] at hcaller
    cases hcaller

/-- What a step keeps. -/
structure Keeps (pf : Platform) (wanted : Str → Prop) (s : Host ι κ) (a : HostAction ι κ) (s' : Host ι κ) : Prop where
  supervised : Supervised pf wanted s'
  installed : ∀ v, isVersion pf v = true → Installed pf s.machine.tree v → Installed pf s'.machine.tree v
  unit : Rewritten pf s.unit → Rewritten pf s'.unit
  loaded : s'.loaded = s.loaded ∨ s.Reloads a ∧ s'.loaded = s.unit

omit [DecidableEq κ] in
theorem Permitted.whole {a : HostAction ι κ} (h : s.Permitted pf links wanted a) : s.Reloads a → s.unit ≠ some [] := by
  cases a with
  | upgrade a => exact False.elim
  | _ => exact h

/-- The unit has been rewritten, and systemd has read it. -/
structure Renewed (pf : Platform) (s : Host ι κ) : Prop where
  unit : Rewritten pf s.unit
  loaded : s.loaded = some (unitContent (expectedExec pf))

omit [DecidableEq κ] in
/-- Later reloads find the unit rewritten, so that they change nothing. -/
theorem Keeps.renewed {a : HostAction ι κ} (h : Keeps pf wanted s a s') (hwhole : s.Reloads a → s.unit ≠ some [])
    (hs : Renewed pf s) : Renewed pf s' := by
  refine ⟨h.unit hs.unit, ?_⟩
  rcases h.loaded with hsame | ⟨hreloads, hread⟩
  · rw [hsame, hs.loaded]
  · rw [hread]
    exact hs.unit.resolve_left (hwhole hreloads)

variable [DecidableEq ι]

section

variable (hplain : ∀ name ∈ pf.versionsDir, PlainName name) (hlinks : 0 < links)

include hplain hlinks

theorem restart_current (hexec : execStart (unitContent (expectedExec pf)) = some (expectedExec pf))
    (hs : Supervised pf wanted s) (hloaded : s.loaded = some (unitContent (expectedExec pf)))
    (hstep : s.step pf links execStart own .restart = some s') :
    ∃ version, isVersion pf version = true ∧ wanted version ∧
      s.machine.tree (currentName :: pf.versionsDir) = some (.link true (versionPath pf version)) ∧
      s'.running = some (binaryName :: versionAt pf version) := by
  obtain ⟨version, content, hv, hwanted, hcurrent, hfile⟩ := hs.machine.deployed.current_file hlinks
  refine ⟨version, hv, hwanted, hcurrent, ?_⟩
  cases hstep
  show ((s.loaded.bind execStart).bind _) = _
  rw [hloaded, Option.bind_some, hexec, Option.bind_some, expectedExec_parts hplain, hfile]
  rfl

omit hlinks in
theorem restart_pinned {v : Str} (hv : isVersion pf v = true) (hinstalled : Installed pf s.machine.tree v)
    (hexec : s.loaded.bind execStart = some (pathText (binaryName :: versionAt pf v)))
    (hs : Supervised pf wanted s) (hstep : s.step pf links execStart own .restart = some s') :
    s'.running = some (binaryName :: versionAt pf v) := by
  obtain ⟨content, hfile⟩ : ∃ content, fileAt s.machine.tree links (versionPath pf v ++ [.name binaryName]) =
      some (binaryName :: versionAt pf v, content, true) := hs.machine.deployed.installed_file hv hinstalled
  cases hstep
  show ((s.loaded.bind execStart).bind _) = _
  rw [hexec, Option.bind_some, binary_parts hplain hv, hfile]
  rfl

variable (hdigit : ∀ c, pf.digit c = true → isSpace c = false)

include hdigit

/-- **A step** keeps the callers sound, what is installed and a rewritten unit. -/
theorem step_keeps {a : HostAction ι κ} (hs : Supervised pf wanted s) (hpermitted : s.Permitted pf links wanted a)
    (hstep : s.step pf links execStart own a = some s') : Keeps pf wanted s a s' := by
  cases a with
  | upgrade a =>
    obtain ⟨machine, hmachine, rfl⟩ := Option.map_eq_some_iff.mp hstep
    obtain ⟨hsound, hkept⟩ := Machine.step_sound hdigit hs.machine hpermitted hmachine
    exact ⟨⟨hsound, hs.caller⟩, hkept, fun h => h, .inl rfl⟩
  | ensure k =>
    simp only [step] at hstep
    split_ifs at hstep
    · cases hstep
      exact ⟨hs.goto k trivial, fun _ _ h => h, fun h => h, .inl rfl⟩
    · cases hstep
      exact ⟨hs, fun _ _ h => h, fun h => h, .inl rfl⟩
  | enable k =>
    simp only [step, hs.machine.deployed.findCurrentBinary hplain hlinks own] at hstep
    split_ifs at hstep
    cases hstep
    exact ⟨hs.goto k rfl, fun _ _ h => h, fun h => h, .inl rfl⟩
  | disable succeeds =>
    cases hstep
    exact ⟨⟨hs.machine, hs.caller⟩, fun _ _ h => h, fun h => h, systemctl_loaded succeeds⟩
  | call k succeeds =>
    have hmoves : Moves pf s s' k succeeds := next_moves hs hstep
    exact ⟨hmoves.supervised hs, fun v _ h => by rwa [hmoves.machine], hmoves.unit, hmoves.loaded⟩
  | die k =>
    cases hstep
    exact ⟨hs.goto k trivial, fun _ _ h => h, fun h => h, .inl rfl⟩
  | restart =>
    cases hstep
    exact ⟨⟨hs.machine, hs.caller⟩, fun _ _ h => h, fun h => h, .inl rfl⟩

theorem run_supervised {actions : List (HostAction ι κ)}
    (hrun : Run (fun s a s' => s.Permitted pf links wanted a ∧ s.step pf links execStart own a = some s') s actions s')
    (hs : Supervised pf wanted s) :
    Supervised pf wanted s' ∧ (Renewed pf s → Renewed pf s') := by
  refine hrun.invariant (fun t => Supervised pf wanted t ∧ (Renewed pf s → Renewed pf t)) ?_ ⟨hs, fun h => h⟩
  rintro t a t' ⟨ht, hrenewed⟩ ⟨hpermitted, hstep⟩
  have hkeeps := step_keeps hplain hlinks hdigit ht hpermitted hstep
  exact ⟨hkeeps.supervised, fun h => hkeeps.renewed (Permitted.whole hpermitted) (hrenewed h)⟩

omit hdigit in
theorem run_ensure {k : κ} {existing : Str} (hs : Supervised pf wanted s) (hidle : s.caller k = .idle)
    (hunit : s.unit = some existing)
    (hwrong : strip isSpace (translateNewlines existing) ≠ strip isSpace (unitContent (expectedExec pf))) :
    ∃ s', Run (fun s a s' => s.Permitted pf links wanted a ∧ s.step pf links execStart own a = some s') s
        [.ensure k, .call k true, .call k true, .call k true] s' ∧
      s'.caller k = .reloading false ∧ s'.unit = some (unitContent (expectedExec pf)) ∧ s'.machine = s.machine := by
  have hgoto (t : Host ι κ) (c : Caller) : (t.goto k c).caller k = c := Function.update_self ..
  let compared : Host ι κ := s.goto k .comparing
  let decided : Host ι κ := compared.goto k (.opening (expectedExec pf) false)
  let cut : Host ι κ := { decided with unit := some [] }.goto k (.writing (expectedExec pf) false)
  let text := unitContent (expectedExec pf)
  let written : Host ι κ :=
    { cut with unit := some (text ++ (cut.unit.getD []).drop text.length) }.goto k (.reloading false)
  have hensure : s.step pf links execStart own (.ensure k) = some compared := by
    simp only [step, hidle, hs.machine.deployed.isExecutable hplain hlinks, if_true]
    rfl
  have hcompare : compared.next pf k true = some decided := by
    have hsame : compared.unit = some existing := hunit
    rw [next, hgoto]
    dsimp only
    rw [hsame]
    exact if_pos (And.intro rfl hwrong)
  have hopen : decided.next pf k true = some cut := by
    rw [next, hgoto]
    rfl
  have hwrite : cut.next pf k true = some written := by
    rw [next, hgoto]
    rfl
  have hone : s.Permitted pf links wanted (.ensure k) ∧ s.step pf links execStart own (.ensure k) = some compared :=
    ⟨nofun, hensure⟩
  have hcall {t t' : Host ι κ} {c : Caller} (hcaller : t.caller k = c) (hc : c.reloads = false)
      (hnext : t.next pf k true = some t') :
      t.Permitted pf links wanted (.call k true) ∧ t.step pf links execStart own (.call k true) = some t' :=
    ⟨fun h => absurd h.2 (by rw [hcaller, hc]; decide), hnext⟩
  refine ⟨written, .cons hone (.cons (hcall (hgoto _ _) rfl hcompare) (.cons (hcall (hgoto _ _) rfl hopen)
    (.cons (hcall (hgoto _ _) rfl hwrite) (.nil _)))), hgoto _ _, rewritten_write (.inl rfl), rfl⟩

end

/-- **After one reload by a caller every restart runs the version that `current` links to**, in any interleaving of
upgrades, uploads, servers that start, calls of `enable` and `disable`, failures and kills, where systemd is not
reloaded while the unit is cut: this version is installed, and some thread was asked for it. -/
theorem run_restarts (pf : Platform) (links : Nat) (wanted : Str → Prop) (execStart : Str → Option Str)
    (own : Option Str) (hlinks : 0 < links) (hplain : ∀ name ∈ pf.versionsDir, PlainName name)
    (hdigit : ∀ c, pf.digit c = true → isSpace c = false)
    (hexec : execStart (unitContent (expectedExec pf)) = some (expectedExec pf))
    {s s₁ s₂ s₃ s₄ : Host ι κ} {before after : List (HostAction ι κ)} {k : κ} (hquiet : Quiet s)
    (hdeployed : Deployed pf wanted s.machine.tree)
    (hbefore : Run (fun s a s' => s.Permitted pf links wanted a ∧ s.step pf links execStart own a = some s') s before
      s₁)
    (hcaller : (s₁.caller k).reloads = true) (hwhole : s₁.unit ≠ some [])
    (hreload : s₁.step pf links execStart own (.call k true) = some s₂)
    (hafter : Run (fun s a s' => s.Permitted pf links wanted a ∧ s.step pf links execStart own a = some s') s₂ after
      s₃)
    (hrestart : s₃.step pf links execStart own .restart = some s₄) :
    ∃ version, isVersion pf version = true ∧ wanted version ∧
      s₃.machine.tree (currentName :: pf.versionsDir) = some (.link true (versionPath pf version)) ∧
      s₄.running = some (binaryName :: versionAt pf version) := by
  obtain ⟨hs₁, -⟩ := run_supervised hplain hlinks hdigit hbefore (hquiet.supervised hdeployed)
  have hpermitted : s₁.Permitted pf links wanted (.call k true) := fun _ => hwhole
  have hkeeps := step_keeps hplain hlinks hdigit hs₁ hpermitted hreload
  have hunit : Rewritten pf s₁.unit := (hs₁.caller k).rewritten hcaller
  have hrenewed : Renewed pf s₂ := ⟨hkeeps.unit hunit, by rw [next_loaded hcaller hreload, hunit.resolve_left hwhole]⟩
  obtain ⟨hs₃, hkept⟩ := run_supervised hplain hlinks hdigit hafter hkeeps.supervised
  exact restart_current hplain hlinks hexec hs₃ (hkept hrenewed).loaded hrestart

/-- The program in the line `ExecStart=`. -/
def execStartOf (unit : Str) : Option Str :=
  ((splitLines unit).find? fun line => "ExecStart=".toList.isPrefixOf line).map fun line =>
    (line.drop 10).takeWhile (· ≠ ' ')

/-- The unit names the directory of `1.7`. -/
def pinnedHost : Host Bool Unit :=
  let unit := unitContent (pathText [binaryName, ['1', '.', '7']])
  ⟨⟨twoVersions false, fun _ => .idle⟩, some unit, some unit, fun _ => .idle, none⟩

def switchToNew : List (MachineAction Bool) :=
  [.thread true (.restart ['1', '.', '8']), .thread true .call, .thread true .call, .thread true .call]

theorem run_switchToNew :
    ∃ m, Run (fun s a s' => Upgrade.Permitted plainPlatform 40 (fun _ => True) s a ∧
        Machine.step plainPlatform 40 s a = some s') pinnedHost.machine switchToNew m ∧
      m.tree [currentName] = some (.link true [.name ['1', '.', '8']]) :=
  ⟨_, .cons ⟨trivial, rfl⟩ (.cons ⟨trivial, rfl⟩ (.cons ⟨trivial, rfl⟩ (.cons ⟨trivial, rfl⟩ (.nil _)))), rfl⟩

theorem plainNames_plain : ∀ name ∈ plainPlatform.versionsDir, PlainName name := fun _ h => absurd h List.not_mem_nil

theorem run_upgrades (s : Host Bool Unit) {m m' : Machine Bool} {actions : List (MachineAction Bool)}
    (hrun : Run (fun s a s' => Upgrade.Permitted plainPlatform 40 (fun _ => True) s a ∧
      Machine.step plainPlatform 40 s a = some s') m actions m') :
    ∃ actions', Run (fun s a s' => (s.Permitted plainPlatform 40 (fun _ => True) a ∧ ¬ s.Reloads a) ∧
      s.step plainPlatform 40 execStartOf none a = some s') { s with machine := m } actions'
        { s with machine := m' } := by
  refine hrun.simulate (fun m => { s with machine := m }) (fun _ => True) (fun _ _ _ _ _ => trivial) ?_ trivial
  rintro t a t' - ⟨hpermitted, hstep⟩
  refine ⟨[.upgrade a], .cons ⟨⟨hpermitted, ?_⟩, ?_⟩ (.nil _)⟩
  · rintro ⟨k, ⟨⟩, -⟩
  · show (Machine.step plainPlatform 40 t a).map _ = _
    rw [hstep]
    rfl

theorem run_restarts_switch :
    ∃ s s' : Host Bool Unit, s.machine.tree [currentName] = some (.link true [.name ['1', '.', '8']]) ∧
      s.step plainPlatform 40 execStartOf none .restart = some s' ∧
      s'.running = some [binaryName, ['1', '.', '8']] := by
  have hquiet : pinnedHost.Quiet := ⟨fun _ => rfl, fun _ => rfl⟩
  have hdeployed : Deployed plainPlatform (fun _ => True) pinnedHost.machine.tree := deployed_twoVersions false
  obtain ⟨s₁, hbefore, hcaller, hunit, hmachine⟩ : ∃ s₁ : Host Bool Unit,
      Run (fun s a s' => s.Permitted plainPlatform 40 (fun _ => True) a ∧
        s.step plainPlatform 40 execStartOf none a = some s') pinnedHost
        [.ensure (), .call () true, .call () true, .call () true] s₁ ∧
      s₁.caller () = .reloading false ∧ s₁.unit = some (unitContent (expectedExec plainPlatform)) ∧
        s₁.machine = pinnedHost.machine :=
    run_ensure plainNames_plain (by decide) (hquiet.supervised hdeployed) rfl rfl (by decide +kernel)
  obtain ⟨m, hswitch, hcurrent⟩ := run_switchToNew
  rw [← hmachine] at hswitch
  have hreload : s₁.step plainPlatform 40 execStartOf none (.call () true) =
      some ({ s₁ with loaded := s₁.unit }.goto () .idle) := by
    rw [step, next, hcaller]
    rfl
  let s₂ : Host Bool Unit := { s₁ with loaded := s₁.unit }.goto () .idle
  obtain ⟨after, hafter⟩ := run_upgrades s₂ hswitch
  obtain ⟨version, hv, -, hlink, hrunning⟩ := run_restarts plainPlatform 40 (fun _ => True) execStartOf none
    (by decide) plainNames_plain (fun _ h => Bool.noConfusion h) (by decide +kernel) hquiet hdeployed hbefore
    (by rw [hcaller]; rfl) (by rw [hunit]; decide +kernel) hreload (hafter.mono fun _ _ _ h => ⟨h.1.1, h.2⟩) rfl
  refine ⟨{ s₂ with machine := m }, _, hcurrent, rfl, ?_⟩
  have hversion : [Component.name ['1', '.', '8']] = versionPath plainPlatform version := by
    have hsame := hcurrent.symm.trans hlink
    injection hsame with hsame
    injection hsame
  rw [versionPath_eq hv] at hversion
  obtain rfl : ['1', '.', '8'] = version := by simpa [versionAt, plainPlatform] using hversion
  exact hrunning

/-- **Until then every restart runs the version that the old unit names**: switches change `current`, and not what
runs. -/
theorem run_pinned (pf : Platform) (links : Nat) (wanted : Str → Prop) (execStart : Str → Option Str)
    (own : Option Str) (hlinks : 0 < links) (hplain : ∀ name ∈ pf.versionsDir, PlainName name)
    (hdigit : ∀ c, pf.digit c = true → isSpace c = false) {s s₁ s₂ : Host ι κ} {actions : List (HostAction ι κ)}
    {v : Str} (hquiet : Quiet s) (hdeployed : Deployed pf wanted s.machine.tree) (hv : isVersion pf v = true)
    (hinstalled : Installed pf s.machine.tree v)
    (hexec : s.loaded.bind execStart = some (pathText (binaryName :: versionAt pf v)))
    (hrun : Run (fun s a s' => (s.Permitted pf links wanted a ∧ ¬ s.Reloads a) ∧
      s.step pf links execStart own a = some s') s actions s₁)
    (hrestart : s₁.step pf links execStart own .restart = some s₂) :
    s₂.running = some (binaryName :: versionAt pf v) := by
  obtain ⟨hs, hinstalled', hloaded⟩ : Supervised pf wanted s₁ ∧ Installed pf s₁.machine.tree v ∧
      s₁.loaded = s.loaded := by
    refine hrun.invariant (fun t => Supervised pf wanted t ∧ Installed pf t.machine.tree v ∧ t.loaded = s.loaded) ?_
      ⟨hquiet.supervised hdeployed, hinstalled, rfl⟩
    rintro t a t' ⟨ht, htv, hsame⟩ ⟨⟨hpermitted, hno⟩, hstep⟩
    have hkeeps := step_keeps hplain hlinks hdigit ht hpermitted hstep
    refine ⟨hkeeps.supervised, hkeeps.installed v hv htv, ?_⟩
    exact (hkeeps.loaded.resolve_right fun h => hno h.1).trans hsame
  exact restart_pinned hplain hv hinstalled' (by rwa [hloaded]) hs hrestart

theorem run_pinned_switch :
    ∃ s s' : Host Bool Unit, s.machine.tree [currentName] = some (.link true [.name ['1', '.', '8']]) ∧
      s.step plainPlatform 40 execStartOf none .restart = some s' ∧
      s'.running = some [binaryName, ['1', '.', '7']] := by
  have hquiet : pinnedHost.Quiet := ⟨fun _ => rfl, fun _ => rfl⟩
  obtain ⟨m, hswitch, hcurrent⟩ := run_switchToNew
  obtain ⟨actions, hrun⟩ := run_upgrades pinnedHost hswitch
  exact ⟨_, _, hcurrent, rfl, run_pinned plainPlatform 40 (fun _ => True) execStartOf none (by decide)
    plainNames_plain (fun _ h => Bool.noConfusion h) hquiet (deployed_twoVersions false) (by decide) ⟨rfl, _, rfl⟩
    (by decide +kernel) hrun rfl⟩

end Host

end SocketServer.Upgrade
