import Mathlib.Tactic.SplitIfs

/-!
# Runs of a labelled transition system

A run is a list of labels with the steps they take. `Run.invariant` is the rule for what holds in every state
reached; restricting `step` to steps that meet a condition gives the same rule for the runs whose steps all
meet it. `Run.history` is the rule for what holds of a state and the labels that led there, and `Run.simulate` the one
for a system whose steps another system can take. A step function is the relation `step s a = some s'`, and its runs
are `foldlM` (`run_foldlM`); for these, `foldlM_invariant` is the rule with a condition on the labels, and
`foldlM_iff` that for the exact condition under which a property that is never regained still holds at the end.
-/

universe u v

variable {σ : Type u} {α : Type v}

/-- A run from one state to another. -/
inductive Run (step : σ → α → σ → Prop) : σ → List α → σ → Prop
  | nil (s : σ) : Run step s [] s
  | cons {s s' s'' : σ} {a : α} {l : List α} : step s a s' → Run step s' l s'' → Run step s (a :: l) s''

/-- **Invariants**: what every step preserves, every run preserves. -/
theorem Run.invariant {step : σ → α → σ → Prop} (inv : σ → Prop)
    (hstep : ∀ s a s', inv s → step s a s' → inv s') {s s' : σ} {l : List α} (h : Run step s l s')
    (hinv : inv s) : inv s' := by
  induction h with
  | nil => exact hinv
  | cons h _ ih => exact ih (hstep _ _ _ hinv h)

theorem run_foldlM {f : σ → α → Option σ} {s s' : σ} {l : List α} (h : l.foldlM f s = some s') :
    Run (fun s a s' => f s a = some s') s l s' := by
  induction l generalizing s with
  | nil =>
    obtain rfl : s = s' := Option.some.inj h
    exact .nil s
  | cons a l ih =>
    rw [List.foldlM_cons, Option.bind_eq_bind, Option.bind_eq_some_iff] at h
    obtain ⟨s₁, hstep, hrest⟩ := h
    exact .cons hstep (ih hrest)

theorem Run.mono {step step' : σ → α → σ → Prop} (hstep : ∀ s a s', step s a s' → step' s a s') {s s' : σ}
    {l : List α} (h : Run step s l s') : Run step' s l s' := by
  induction h with
  | nil s => exact .nil s
  | cons h _ ih => exact .cons (hstep _ _ _ h) ih

theorem Run.append {step : σ → α → σ → Prop} {s s' s'' : σ} {l l' : List α} (h : Run step s l s')
    (h' : Run step s' l' s'') : Run step s (l ++ l') s'' := by
  induction h with
  | nil => exact h'
  | cons h _ ih => exact .cons h (ih h')

/-- **Histories**: what every step preserves of a state and the labels that led there. -/
theorem Run.history {step : σ → α → σ → Prop} {s₀ : σ} (inv : List α → σ → Prop) (hinit : inv [] s₀)
    (hstep : ∀ l s a s', Run step s₀ l s → inv l s → step s a s' → inv (l ++ [a]) s') {s : σ} {l : List α}
    (h : Run step s₀ l s) : inv l s := by
  suffices hmore : ∀ {s s' : σ} {l : List α}, Run step s l s' → ∀ before, Run step s₀ before s → inv before s →
      inv (before ++ l) s' from hmore h [] (.nil s₀) hinit
  intro s s' l hrest
  induction hrest with
  | nil s =>
    intro before _ hinv
    rwa [List.append_nil]
  | cons h _ ih =>
    intro before hbefore hinv
    have hnext := ih (before ++ [_]) (hbefore.append (.cons h (.nil _))) (hstep _ _ _ _ hbefore hinv h)
    rwa [List.append_assoc] at hnext

/-- **Simulation**: a step is a run of another system, maybe an empty one, so a run is one. -/
theorem Run.simulate {τ : Type*} {β : Type*} {step : σ → α → σ → Prop} {step' : τ → β → τ → Prop} (f : σ → τ)
    (inv : σ → Prop) (hinv : ∀ s a s', inv s → step s a s' → inv s')
    (hstep : ∀ s a s', inv s → step s a s' → ∃ l, Run step' (f s) l (f s')) {s s' : σ} {l : List α}
    (h : Run step s l s') (hs : inv s) : ∃ l', Run step' (f s) l' (f s') := by
  induction h with
  | nil s => exact ⟨[], .nil _⟩
  | cons h _ ih =>
    obtain ⟨l₁, hfirst⟩ := hstep _ _ _ hs h
    obtain ⟨l₂, hrest⟩ := ih (hinv _ _ _ hs h)
    exact ⟨l₁ ++ l₂, hfirst.append hrest⟩

theorem run_guarded {f : σ → α → Option σ} {guard : σ → α → Prop} [∀ s a, Decidable (guard s a)] {s s' : σ}
    {l : List α} (h : l.foldlM (fun s a => if guard s a then f s a else none) s = some s') :
    Run (fun s a s' => guard s a ∧ f s a = some s') s l s' := by
  refine (run_foldlM h).mono fun s a s' hstep => ?_
  split_ifs at hstep with hguard
  exact ⟨hguard, hstep⟩

theorem foldlM_invariant {f : σ → α → Option σ} {p : α → Prop} (inv : σ → Prop)
    (hstep : ∀ s a s', inv s → p a → f s a = some s' → inv s') {s s' : σ} {l : List α}
    (h : l.foldlM f s = some s') (hl : ∀ a ∈ l, p a) (hinv : inv s) : inv s' := by
  induction l generalizing s with
  | nil =>
    obtain rfl : s = s' := Option.some.inj h
    exact hinv
  | cons a l ih =>
    obtain ⟨ha, hl⟩ := List.forall_mem_cons.mp hl
    rw [List.foldlM_cons, Option.bind_eq_bind, Option.bind_eq_some_iff] at h
    obtain ⟨s₁, hfirst, hrest⟩ := h
    exact ih hrest hl (hstep _ _ _ hinv ha hfirst)

/-- A step keeps `good` if and only if it meets a condition: then a run keeps it if and only if all its steps do. -/
theorem foldlM_iff {f : σ → α → Option σ} (inv : σ → Prop) {good : σ → Prop} {cond : σ → α → Prop}
    (hstep : ∀ s a s', inv s → f s a = some s' → inv s')
    (hgood : ∀ s a s', inv s → f s a = some s' → (good s' ↔ good s ∧ cond s a)) {s s' : σ} {l : List α}
    (h : l.foldlM f s = some s') (hinv : inv s) :
    good s' ↔ good s ∧ ∀ before a s₁, before ++ [a] <+: l → before.foldlM f s = some s₁ → cond s₁ a := by
  induction l generalizing s with
  | nil =>
    obtain rfl : s = s' := Option.some.inj h
    refine ⟨fun hs => ⟨hs, fun before a s₁ hpre => ?_⟩, And.left⟩
    simp at hpre
  | cons a l ih =>
    rw [List.foldlM_cons, Option.bind_eq_bind, Option.bind_eq_some_iff] at h
    obtain ⟨s₁, hfirst, hrest⟩ := h
    rw [ih hrest (hstep _ _ _ hinv hfirst), hgood _ _ _ hinv hfirst, and_assoc]
    refine and_congr_right fun _ => ⟨fun ⟨ha, hl⟩ before b s₂ hpre hbefore => ?_, fun hall => ⟨?_, ?_⟩⟩
    · cases before with
      | nil =>
        obtain rfl : s = s₂ := Option.some.inj hbefore
        obtain rfl : b = a := by simpa using hpre
        exact ha
      | cons c before =>
        obtain ⟨rfl, htail⟩ := List.cons_prefix_cons.mp hpre
        rw [List.foldlM_cons, Option.bind_eq_bind, hfirst, Option.bind_some] at hbefore
        exact hl before b s₂ htail hbefore
    · exact hall [] a s (by simp) rfl
    · intro before b s₂ hpre hbefore
      refine hall (a :: before) b s₂ (List.cons_prefix_cons.mpr ⟨rfl, hpre⟩) ?_
      rwa [List.foldlM_cons, Option.bind_eq_bind, hfirst, Option.bind_some]
