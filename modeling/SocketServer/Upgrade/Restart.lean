import SocketServer.Upgrade.Finalize

/-!
# Who is connected when an upgrade restarts the service (datatype 20)

`_apply_pushed_upgrade` refuses a version while other clients are connected, and installs it otherwise. The reply goes
out, and a thread sleeps, points `current` at the version and restarts the service. Clients connect and finish between
any two of these steps: `Service.step` makes one step of the request, of the thread or of a connection.

* `mem_opened_iff` : which connections are open after a run;
* `restart_alone_iff` : without `force`, nobody else is connected at the restart if and only if every client that
  connected after the check has finished.
-/

namespace SocketServer.Upgrade

open Text

variable {ι : Type}

/-- The arguments of datatype 20, and the connection that sends it. -/
structure UpgradeRequest (ι : Type) where
  client : ι
  version : Str
  sha256 : Str
  force : Bool

inductive UpgradeReply
  /-- `version 参数非法`. -/
  | badVersion
  /-- `缺少或非法 sha256`. -/
  | badSha
  /-- `本机 autoupgrade=off，已拒绝升级`. -/
  | off
  /-- `升级进行中，请勿重复下发`. -/
  | upgrading
  /-- `还有 .. 个其它客户端连接，拒绝升级`. -/
  | otherClients (n : Nat)
  | failed (reason : Refusal)
  | ok (version : Str)
  deriving DecidableEq, Repr

/-- Where the request is. -/
inductive RequestStage
  /-- Not sent yet. -/
  | idle
  /-- `_upgrade_lock` is held. -/
  | locked
  /-- The clients have been counted. -/
  | checked
  /-- Refused. -/
  | refused (reply : UpgradeReply)
  /-- The reply goes out, and the thread of `_restart_after_upgrade` sleeps. -/
  | accepted (reply : UpgradeReply)
  /-- `current` points at the version. -/
  | switched
  /-- `switch_to` did not find the version. -/
  | stayed
  | restarted
  deriving DecidableEq, Repr

/-- The thread of the connection is in `do`. -/
def RequestStage.Busy : RequestStage → Prop
  | .locked | .checked => True
  | _ => False

instance : DecidablePred RequestStage.Busy
  | .locked | .checked => isTrue trivial
  | .idle | .refused _ | .accepted _ | .switched | .stayed | .restarted => isFalse id

/-- The clients have been counted, and the request was not refused. -/
def RequestStage.Passed : RequestStage → Prop
  | .checked | .accepted _ | .switched | .stayed | .restarted => True
  | _ => False

/-- `_active_clients`, the connections that were ever set up, those of them that are not finished, and the request. -/
structure Service (ι : Type) where
  activeClients : Nat
  known : List ι
  opened : List ι
  request : Option (UpgradeRequest ι)
  stage : RequestStage

inductive ServiceEvent (ι : Type)
  /-- `TrackedTCPHandler.setup`. -/
  | setup (c : ι)
  /-- `TrackedTCPHandler.finish`. -/
  | finish (c : ι)
  /-- The arguments are checked, with the switch in `config`, and the lock is tried. -/
  | request (r : UpgradeRequest ι) (autoupgrade lockFree : Bool)
  /-- `get_idle_state`. -/
  | check
  /-- `finalize_pushed_version`, and the lock is released. -/
  | finalize (refusal : Option Refusal)
  /-- `switch_to`, with what `is_version_downloaded` says. -/
  | switch (downloaded : Bool)
  /-- `service_restart`. -/
  | restart

variable (pf : Platform)

/-- 64 hexadecimal digits. -/
def isSha (sha : Str) : Bool := sha.length == 64 && sha.all fun c => ('0' ≤ c ∧ c ≤ '9') ∨ ('a' ≤ c ∧ c ≤ 'f')

/-- Why a request is refused before the clients are counted. -/
def UpgradeRequest.refusal (r : UpgradeRequest ι) (autoupgrade lockFree : Bool) : Option UpgradeReply :=
  if ¬ isVersion pf (normalizeVersion r.version) then some .badVersion
  else if ¬ isSha (normalizeSha pf r.sha256) then some .badSha
  else if ¬ autoupgrade then some .off
  else if ¬ lockFree then some .upgrading
  else none

namespace Service

def init : Service ι := ⟨0, [], [], none, .idle⟩

variable [DecidableEq ι]

/-- Every connection is set up once. -/
def setup (s : Service ι) (c : ι) : Option (Service ι) :=
  if c ∈ s.known then none
  else some { s with activeClients := s.activeClients + 1, known := c :: s.known, opened := c :: s.opened }

/-- A connection finishes when its thread is not in `do`. -/
def finish (s : Service ι) (c : ι) : Option (Service ι) :=
  if c ∈ s.opened ∧ ¬ (s.stage.Busy ∧ s.request.map (·.client) = some c) then
    some { s with
      activeClients := if 0 < s.activeClients then s.activeClients - 1 else s.activeClients
      opened := s.opened.erase c }
  else none

/-- There is one request. -/
def send (s : Service ι) (r : UpgradeRequest ι) (autoupgrade lockFree : Bool) : Option (Service ι) :=
  if r.client ∈ s.opened ∧ s.stage = .idle then
    match r.refusal pf autoupgrade lockFree with
    | some reply => some { s with request := some r, stage := .refused reply }
    | none => some { s with request := some r, stage := .locked }
  else none

omit [DecidableEq ι] in
/-- The count includes the connection of the request. -/
def check (s : Service ι) : Option (Service ι) :=
  match s.stage, s.request with
  | .locked, some r =>
    if 1 < s.activeClients ∧ r.force = false then
      some { s with stage := .refused (.otherClients (s.activeClients - 1)) }
    else some { s with stage := .checked }
  | _, _ => none

omit [DecidableEq ι] in
def finalize (s : Service ι) (refusal : Option Refusal) : Option (Service ι) :=
  match s.stage, s.request, refusal with
  | .checked, some _, some reason => some { s with stage := .refused (.failed reason) }
  | .checked, some r, none => some { s with stage := .accepted (.ok (normalizeVersion r.version)) }
  | _, _, _ => none

omit [DecidableEq ι] in
def switch (s : Service ι) (downloaded : Bool) : Option (Service ι) :=
  match s.stage with
  | .accepted _ => some { s with stage := if downloaded then .switched else .stayed }
  | _ => none

omit [DecidableEq ι] in
def restart (s : Service ι) : Option (Service ι) :=
  if s.stage = .switched then some { s with stage := .restarted } else none

def step (s : Service ι) : ServiceEvent ι → Option (Service ι)
  | .setup c => s.setup c
  | .finish c => s.finish c
  | .request r autoupgrade lockFree => s.send pf r autoupgrade lockFree
  | .check => s.check
  | .finalize refusal => s.finalize refusal
  | .switch downloaded => s.switch downloaded
  | .restart => s.restart

end Service

/-! ### What every step keeps -/

/-- `_active_clients` counts the open connections, and the request comes from one of them as long as it is in `do`. -/
structure Counted (s : Service ι) : Prop where
  count : s.activeClients = s.opened.length
  nodup : s.opened.Nodup
  known : s.opened ⊆ s.known
  sender : s.stage.Busy → ∃ r, s.request = some r ∧ r.client ∈ s.opened

theorem counted_init : Counted (.init : Service ι) where
  count := rfl
  nodup := List.nodup_nil
  known := List.nil_subset _
  sender := nofun

/-- What a step does to the connections. -/
structure Moves (s : Service ι) (e : ServiceEvent ι) (s' : Service ι) : Prop where
  known : ∀ c, c ∈ s'.known ↔ c ∈ s.known ∨ e = .setup c
  opened : ∀ c, c ∈ s'.opened ↔ (c ∈ s.opened ∨ e = .setup c) ∧ e ≠ .finish c
  fresh : ∀ c, e = .setup c → c ∉ s.known
  wasOpen : ∀ c, e = .finish c → c ∈ s.opened

/-- A request that was sent stays, and stays refused when it is. -/
def KeepsRequest (s s' : Service ι) : Prop :=
  ∀ r, s.request = some r → s.stage ≠ .idle →
    s'.request = some r ∧ s'.stage ≠ .idle ∧ ∀ reply, s.stage = .refused reply → s'.stage = .refused reply

/-- A step of the request or of the thread. -/
structure Proceeds (s s' : Service ι) : Prop where
  counted : Counted s'
  known : s'.known = s.known
  opened : s'.opened = s.opened
  keeps : KeepsRequest s s'

section

variable [DecidableEq ι] {s s' : Service ι} (h : Counted s)

omit [DecidableEq ι] in
theorem KeepsRequest.same (hrequest : s'.request = s.request) (hstage : s'.stage = s.stage) : KeepsRequest s s' :=
  fun _ hr hsent => ⟨hrequest.trans hr, hstage ▸ hsent, fun _ hrefused => hstage.trans hrefused⟩

omit [DecidableEq ι] in
theorem Proceeds.moves (hstep : Proceeds s s') {e : ServiceEvent ι} (hsetup : ∀ c, e ≠ .setup c)
    (hfinish : ∀ c, e ≠ .finish c) : Counted s' ∧ Moves s e s' ∧ KeepsRequest s s' := by
  refine ⟨hstep.counted, ⟨fun c => ?_, fun c => ?_, fun c hc => absurd hc (hsetup c),
    fun c hc => absurd hc (hfinish c)⟩, hstep.keeps⟩
  · rw [hstep.known]
    simp [hsetup c]
  · rw [hstep.opened]
    simp [hsetup c, hfinish c]

include h

omit [DecidableEq ι] in
theorem Counted.proceed {stage : RequestStage} (hidle : stage ≠ .idle) (hrefused : ∀ reply, s.stage ≠ .refused reply)
    (hsender : stage.Busy → s.stage.Busy) : Proceeds s { s with stage := stage } where
  counted := ⟨h.count, h.nodup, h.known, fun hbusy => h.sender (hsender hbusy)⟩
  known := rfl
  opened := rfl
  keeps := fun _ hr _ => ⟨hr, hidle, fun reply heq => absurd heq (hrefused reply)⟩

theorem Counted.setup {c : ι} (hstep : s.setup c = some s') :
    Counted s' ∧ Moves s (.setup c) s' ∧ KeepsRequest s s' := by
  unfold Service.setup at hstep
  split_ifs at hstep with hknown
  obtain rfl := Option.some.inj hstep
  have hopened : c ∉ s.opened := fun hc => hknown (h.known hc)
  refine ⟨⟨?_, List.nodup_cons.mpr ⟨hopened, h.nodup⟩, List.cons_subset_cons c h.known, ?_⟩, ⟨?_, ?_, ?_, nofun⟩,
    .same rfl rfl⟩
  · show s.activeClients + 1 = (c :: s.opened).length
    rw [List.length_cons, h.count]
  · intro hbusy
    obtain ⟨r, hr, hclient⟩ := h.sender hbusy
    exact ⟨r, hr, List.mem_cons_of_mem c hclient⟩
  · intro d
    simp [or_comm, eq_comm]
  · intro d
    simp [or_comm, eq_comm]
  · rintro d ⟨⟩
    exact hknown

theorem Counted.finish {c : ι} (hstep : s.finish c = some s') :
    Counted s' ∧ Moves s (.finish c) s' ∧ KeepsRequest s s' := by
  unfold Service.finish at hstep
  split_ifs at hstep with hcond hpos
  · obtain ⟨hopened, hnotSender⟩ := hcond
    obtain rfl := Option.some.inj hstep
    refine ⟨⟨?_, h.nodup.erase c, fun d hd => h.known (List.mem_of_mem_erase hd), ?_⟩, ⟨?_, ?_, nofun, ?_⟩,
      .same rfl rfl⟩
    · show s.activeClients - 1 = (s.opened.erase c).length
      rw [List.length_erase_of_mem hopened, h.count]
    · intro hbusy
      obtain ⟨r, hr, hclient⟩ := h.sender hbusy
      refine ⟨r, hr, (List.mem_erase_of_ne fun heq => hnotSender ⟨hbusy, ?_⟩).mpr hclient⟩
      rw [hr, Option.map_some, heq]
    · intro d
      simp
    · intro d
      simp [h.nodup.mem_erase_iff, and_comm, eq_comm]
    · rintro d ⟨⟩
      exact hopened
  · -- the count is positive while a connection is open
    have hlength := List.length_pos_of_mem hcond.1
    rw [← h.count] at hlength
    exact absurd hlength hpos

theorem Counted.send (pf : Platform) {r : UpgradeRequest ι} {autoupgrade lockFree : Bool}
    (hstep : s.send pf r autoupgrade lockFree = some s') : Proceeds s s' := by
  unfold Service.send at hstep
  split_ifs at hstep with hcond
  obtain ⟨hclient, hidle⟩ := hcond
  split at hstep
  all_goals
    obtain rfl := Option.some.inj hstep
    refine ⟨⟨h.count, h.nodup, h.known, ?_⟩, rfl, rfl, fun r' hr' hsent => absurd hidle hsent⟩
  · exact nofun
  · exact fun _ => ⟨r, rfl, hclient⟩

omit [DecidableEq ι] in
/-- Without `force` the check passes only if nobody else is connected. -/
theorem Counted.check (hstep : s.check = some s') :
    Proceeds s s' ∧ s'.stage ≠ .idle ∧
      ∃ r, s'.request = some r ∧
        (r.force = false → (∀ reply, s'.stage ≠ .refused reply) → s'.opened = [r.client]) := by
  unfold Service.check at hstep
  split at hstep
  · rename_i r hstage hr
    have hbusy : s.stage.Busy := by rw [hstage]; trivial
    have hrefused : ∀ reply, s.stage ≠ .refused reply := by rw [hstage]; exact nofun
    split_ifs at hstep with hcond
    all_goals obtain rfl := Option.some.inj hstep
    · exact ⟨h.proceed nofun hrefused nofun, nofun, r, hr, fun _ hnot => absurd rfl (hnot _)⟩
    · refine ⟨h.proceed nofun hrefused fun _ => hbusy, nofun, r, hr, fun hforce _ => ?_⟩
      obtain ⟨r', hr', hclient⟩ := h.sender hbusy
      obtain rfl : r = r' := Option.some.inj (hr.symm.trans hr')
      -- one connection at most, and the sender is one
      have hlength := List.length_pos_of_mem hclient
      have hone : s.opened.length = 1 := by
        have hmost : ¬ 1 < s.activeClients := fun hmore => hcond ⟨hmore, hforce⟩
        rw [h.count] at hmost
        omega
      obtain ⟨c, hc⟩ := List.length_eq_one_iff.mp hone
      show s.opened = [r.client]
      rw [hc] at hclient ⊢
      rw [List.mem_singleton.mp hclient]
  · cases hstep

omit [DecidableEq ι] in
theorem Counted.finalize {refusal : Option Refusal} (hstep : s.finalize refusal = some s') : Proceeds s s' := by
  unfold Service.finalize at hstep
  split at hstep
  · rename_i hstage _
    obtain rfl := Option.some.inj hstep
    exact h.proceed nofun (by rw [hstage]; exact nofun) nofun
  · rename_i hstage _
    obtain rfl := Option.some.inj hstep
    exact h.proceed nofun (by rw [hstage]; exact nofun) nofun
  · cases hstep

omit [DecidableEq ι] in
theorem Counted.switch {downloaded : Bool} (hstep : s.switch downloaded = some s') : Proceeds s s' := by
  unfold Service.switch at hstep
  split at hstep
  · rename_i hstage
    obtain rfl := Option.some.inj hstep
    refine h.proceed ?_ (by rw [hstage]; exact nofun) ?_
    all_goals cases downloaded <;> exact nofun
  · cases hstep

omit [DecidableEq ι] in
theorem Counted.restart (hstep : s.restart = some s') : Proceeds s s' := by
  unfold Service.restart at hstep
  split_ifs at hstep with hstage
  obtain rfl := Option.some.inj hstep
  exact h.proceed nofun (by rw [hstage]; exact nofun) nofun

theorem counted_step (pf : Platform) {e : ServiceEvent ι} (hstep : s.step pf e = some s') :
    Counted s' ∧ Moves s e s' ∧ KeepsRequest s s' := by
  cases e with
  | setup c => exact h.setup hstep
  | finish c => exact h.finish hstep
  | request r autoupgrade lockFree => exact (h.send pf hstep).moves nofun nofun
  | check => exact (h.check hstep).1.moves nofun nofun
  | finalize refusal => exact (h.finalize hstep).moves nofun nofun
  | switch downloaded => exact (h.switch hstep).moves nofun nofun
  | restart => exact (h.restart hstep).moves nofun nofun

end

theorem passed_step [DecidableEq ι] (pf : Platform) {s s' : Service ι} {e : ServiceEvent ι}
    (hstep : s.step pf e = some s') (he : e ≠ .check) (hpassed : s'.stage.Passed) : s.stage.Passed := by
  cases e with
  | setup c =>
    replace hstep : s.setup c = some s' := hstep
    unfold Service.setup at hstep
    split_ifs at hstep
    obtain rfl := Option.some.inj hstep
    exact hpassed
  | finish c =>
    replace hstep : s.finish c = some s' := hstep
    unfold Service.finish at hstep
    split_ifs at hstep
    all_goals
      obtain rfl := Option.some.inj hstep
      exact hpassed
  | request r autoupgrade lockFree =>
    replace hstep : s.send pf r autoupgrade lockFree = some s' := hstep
    unfold Service.send at hstep
    split_ifs at hstep
    split at hstep
    all_goals
      obtain rfl := Option.some.inj hstep
      exact hpassed.elim
  | check => exact absurd rfl he
  | finalize refusal =>
    replace hstep : s.finalize refusal = some s' := hstep
    unfold Service.finalize at hstep
    split at hstep
    · rename_i hstage _
      rw [hstage]
      trivial
    · rename_i hstage _
      rw [hstage]
      trivial
    · cases hstep
  | switch downloaded =>
    replace hstep : s.switch downloaded = some s' := hstep
    unfold Service.switch at hstep
    split at hstep
    · rename_i hstage
      rw [hstage]
      trivial
    · cases hstep
  | restart =>
    replace hstep : s.restart = some s' := hstep
    unfold Service.restart at hstep
    split_ifs at hstep with hstage
    rw [hstage]
    trivial

/-! ### Every run -/

section

variable (pf : Platform) [DecidableEq ι] {s s' : Service ι} {l : List (ServiceEvent ι)}

theorem check_mem_of_passed (hrun : l.foldlM (Service.step pf) .init = some s) (hpassed : s.stage.Passed) :
    .check ∈ l := by
  by_contra hnever
  have hall : ∀ e ∈ l, e ≠ .check := fun e he heq => hnever (heq ▸ he)
  have hnot : ¬ s.stage.Passed :=
    foldlM_invariant (fun s => ¬ s.stage.Passed)
      (fun _ _ _ hs he hstep hpassed => hs (passed_step pf hstep he hpassed)) hrun hall id
  exact hnot hpassed

theorem run_counted (h : Counted s) (hrun : l.foldlM (Service.step pf) s = some s') : Counted s' :=
  (run_foldlM hrun).invariant Counted (fun _ _ _ h hstep => (counted_step h pf hstep).1) h

theorem setup_notMem (h : Counted s) (hrun : l.foldlM (Service.step pf) s = some s') {c : ι} (hc : c ∈ s.known) :
    .setup c ∉ l := by
  induction l generalizing s with
  | nil => exact List.not_mem_nil
  | cons e l ih =>
    rw [List.foldlM_cons, Option.bind_eq_bind, Option.bind_eq_some_iff] at hrun
    obtain ⟨s₁, hstep, hrest⟩ := hrun
    obtain ⟨h₁, hmoves, -⟩ := counted_step h pf hstep
    rw [List.mem_cons, not_or]
    exact ⟨fun he => hmoves.fresh c he.symm hc, ih h₁ hrest ((hmoves.known c).mpr (.inl hc))⟩

/-- Open after a run are the connections that were open or were set up, and did not finish. -/
theorem mem_opened_iff (h : Counted s) (hrun : l.foldlM (Service.step pf) s = some s') (c : ι) :
    c ∈ s'.opened ↔ (c ∈ s.opened ∨ .setup c ∈ l) ∧ .finish c ∉ l := by
  induction l generalizing s with
  | nil =>
    obtain rfl : s = s' := Option.some.inj hrun
    simp
  | cons e l ih =>
    rw [List.foldlM_cons, Option.bind_eq_bind, Option.bind_eq_some_iff] at hrun
    obtain ⟨s₁, hstep, hrest⟩ := hrun
    obtain ⟨h₁, hmoves, -⟩ := counted_step h pf hstep
    rw [ih h₁ hrest, hmoves.opened, List.mem_cons, List.mem_cons, eq_comm (b := e), eq_comm (b := e)]
    by_cases hfinish : e = .finish c
    · -- it is known, and not set up again
      have hknown : c ∈ s₁.known := (hmoves.known c).mpr (.inl (h.known (hmoves.wasOpen c hfinish)))
      have hsetup := setup_notMem pf h₁ hrest hknown
      simp [hfinish, hsetup]
    · simp only [ne_eq, hfinish, not_false_eq_true, and_true, false_or, or_assoc]

theorem restarted_of_run (hrun : (l ++ [ServiceEvent.restart]).foldlM (Service.step pf) s = some s') :
    s'.stage = .restarted := by
  rw [List.foldlM_append, Option.bind_eq_bind, Option.bind_eq_some_iff] at hrun
  obtain ⟨s₁, -, hlast⟩ := hrun
  rw [List.foldlM_cons, Option.bind_eq_bind, Option.bind_eq_some_iff] at hlast
  obtain ⟨s₂, hstep, hnil⟩ := hlast
  obtain rfl : s₂ = s' := Option.some.inj hnil
  unfold Service.step Service.restart at hstep
  split_ifs at hstep
  obtain rfl := Option.some.inj hstep
  rfl

/-- A run that restarts the service was not refused, and no other request took the place of this one. -/
theorem run_restarted {r : UpgradeRequest ι} (h : Counted s) (hr : s.request = some r) (hsent : s.stage ≠ .idle)
    (hrun : l.foldlM (Service.step pf) s = some s') (hrestarted : s'.stage = .restarted) :
    s'.request = some r ∧ ∀ reply, s.stage ≠ .refused reply := by
  induction l generalizing s with
  | nil =>
    obtain rfl : s = s' := Option.some.inj hrun
    exact ⟨hr, fun reply hrefused => by rw [hrestarted] at hrefused; cases hrefused⟩
  | cons e l ih =>
    rw [List.foldlM_cons, Option.bind_eq_bind, Option.bind_eq_some_iff] at hrun
    obtain ⟨s₁, hstep, hrest⟩ := hrun
    obtain ⟨h₁, -, hkeeps⟩ := counted_step h pf hstep
    obtain ⟨hr₁, hsent₁, hrefused⟩ := hkeeps r hr hsent
    obtain ⟨hrequest, hnot⟩ := ih h₁ hr₁ hsent₁ hrest
    exact ⟨hrequest, fun reply hs => hnot reply (hrefused reply hs)⟩

/-- From the check on: nobody else is connected when the service is restarted if and only if all connections that were
set up in between are finished. -/
theorem run_alone_iff {after : List (ServiceEvent ι)} {r : UpgradeRequest ι} (h : Counted s)
    (hrun : (ServiceEvent.check :: after ++ [ServiceEvent.restart]).foldlM (Service.step pf) s = some s')
    (hr : s'.request = some r) (hforce : r.force = false) :
    (∀ c ∈ s'.opened, c = r.client) ↔ ∀ c, .setup c ∈ after → .finish c ∈ after := by
  rw [List.cons_append, List.foldlM_cons, Option.bind_eq_bind, Option.bind_eq_some_iff] at hrun
  obtain ⟨s₁, hcheck, hafter⟩ := hrun
  obtain ⟨hproceeds, hsent, r', hr', halone⟩ := h.check hcheck
  obtain ⟨hrequest, hnot⟩ := run_restarted pf hproceeds.counted hr' hsent hafter (restarted_of_run pf hafter)
  obtain rfl : r = r' := Option.some.inj (hr.symm.trans hrequest)
  have hopened := halone hforce hnot
  have hclient : .setup r.client ∉ after ++ [ServiceEvent.restart] :=
    setup_notMem pf hproceeds.counted hafter (hproceeds.counted.known (hopened ▸ List.mem_singleton_self _))
  refine ⟨fun hall c hsetup => ?_, fun hfinish c hc => ?_⟩
  · by_contra hopen
    have hmem : c ∈ s'.opened := by
      rw [mem_opened_iff pf hproceeds.counted hafter]
      exact ⟨.inr (List.mem_append_left _ hsetup), by simp [hopen]⟩
    rw [hall c hmem] at hsetup
    exact hclient (List.mem_append_left _ hsetup)
  · rw [mem_opened_iff pf hproceeds.counted hafter, hopened, List.mem_singleton] at hc
    obtain ⟨hc | hsetup, hnotFinished⟩ := hc
    · exact hc
    · have hsetup : .setup c ∈ after := by simpa using hsetup
      exact absurd (List.mem_append_left _ (hfinish c hsetup)) hnotFinished

/-- **Alone at the restart**: a run that restarts the service for a request without `force` has counted the clients, and
no other connection is open at the restart if and only if all that were set up after the count are finished. -/
theorem restart_alone_iff {r : UpgradeRequest ι}
    (hrun : (l ++ [ServiceEvent.restart]).foldlM (Service.step pf) .init = some s) (hr : s.request = some r)
    (hforce : r.force = false) :
    ServiceEvent.check ∈ l ∧ ∀ before after, l = before ++ ServiceEvent.check :: after →
      ((∀ c ∈ s.opened, c = r.client) ↔ ∀ c, .setup c ∈ after → .finish c ∈ after) := by
  constructor
  · have hpassed : s.stage.Passed := by
      rw [restarted_of_run pf hrun]
      trivial
    simpa using check_mem_of_passed pf hrun hpassed
  · rintro before after rfl
    rw [List.append_assoc, List.foldlM_append, Option.bind_eq_bind, Option.bind_eq_some_iff] at hrun
    obtain ⟨s₁, hbefore, hrest⟩ := hrun
    exact run_alone_iff pf (run_counted pf counted_init hbefore) hrest hr hforce

end

/-- A push of version 1.8 without `force`. -/
def pushRequest : UpgradeRequest Nat := ⟨0, ['1', '.', '8'], List.replicate 64 'a', false⟩

/-- Client 0 sends the push, after another client has finished. -/
def pushed : List (ServiceEvent Nat) := [.setup 0, .setup 1, .finish 1, .request pushRequest true true]

/-- Client 2 comes and goes. -/
def visited : List (ServiceEvent Nat) := [.setup 2, .finalize none, .finish 2, .switch true]

theorem restart_alone_iff_visited :
    ∃ s, (pushed ++ ServiceEvent.check :: visited ++ [ServiceEvent.restart]).foldlM (Service.step plainPlatform) .init =
      some s ∧ ((∀ c ∈ s.opened, c = pushRequest.client) ↔ ∀ c, .setup c ∈ visited → .finish c ∈ visited) := by
  have hrun : (pushed ++ ServiceEvent.check :: visited ++ [ServiceEvent.restart]).foldlM (Service.step plainPlatform)
      .init = some ⟨1, [2, 1, 0], [0], some pushRequest, .restarted⟩ := rfl
  exact ⟨_, hrun, (restart_alone_iff plainPlatform hrun rfl rfl).2 pushed visited rfl⟩

/-- Client 2 comes while the thread sleeps, and stays. -/
def cutOff : List (ServiceEvent Nat) := [.finalize none, .setup 2, .switch true]

theorem restart_cutOff :
    ∃ s, (pushed ++ ServiceEvent.check :: cutOff ++ [ServiceEvent.restart]).foldlM (Service.step plainPlatform) .init =
      some s ∧ s.request = some pushRequest ∧ pushRequest.force = false ∧ s.stage = .restarted ∧
      ¬ ∀ c ∈ s.opened, c = pushRequest.client := by
  refine ⟨_, rfl, rfl, rfl, rfl, fun hall => ?_⟩
  have htwo := hall 2 (by decide)
  cases htwo

end SocketServer.Upgrade
