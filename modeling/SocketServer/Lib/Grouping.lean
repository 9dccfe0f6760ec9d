import Mathlib.Data.List.Induction
import Mathlib.Data.List.Nodup

/-!
# Grouping by a key

A loop that keeps one record for each key in a dictionary, and updates the record of the item's key at every item. The
dictionary is in insertion order, as a list of pairs.

* `get_group` : the record of a key is what the items with that key make of it, in their order;
* `values_group` : the records, in the order of the first item of each key;
* `eraseDups_insert_iff` : which items may be put in between without a change of the order of the keys.
-/

universe u v w

/-- A dictionary in insertion order. -/
abbrev Dict (κ : Type u) (α : Type v) := List (κ × α)

variable {κ : Type u} {α : Type v} {β : Type w} [DecidableEq κ]

namespace Dict

/-- `d.get(k)`. -/
def get : Dict κ α → κ → Option α
  | [], _ => none
  | (k', v) :: d, k => if k' = k then some v else get d k

/-- `d` after `d[k] = v`. -/
def put : Dict κ α → κ → α → Dict κ α
  | [], k, v => [(k, v)]
  | (k', v') :: d, k, v => if k' = k then (k, v) :: d else (k', v') :: put d k v

def keys (d : Dict κ α) : List κ := d.map Prod.fst

/-- `d.values()`. -/
def values (d : Dict κ α) : List α := d.map Prod.snd

theorem mem_of_get {d : Dict κ α} {k : κ} {v : α} (h : get d k = some v) : (k, v) ∈ d := by
  induction d with
  | nil => cases h
  | cons p d ih =>
    obtain ⟨l, x⟩ := p
    rw [get] at h
    split_ifs at h with hl
    · rw [← hl, Option.some.inj h]
      exact List.mem_cons_self
    · exact List.mem_cons_of_mem _ (ih h)

theorem get_put (d : Dict κ α) (k k' : κ) (v : α) :
    get (put d k v) k' = if k = k' then some v else get d k' := by
  induction d with
  | nil => rfl
  | cons p d ih =>
    obtain ⟨l, x⟩ := p
    by_cases hl : l = k
    · subst hl
      simp only [put, get, if_true]
      split_ifs <;> rfl
    · simp only [put, get, if_neg hl, ih]
      split_ifs with hlk hk
      · exact absurd (hlk.trans hk.symm) hl
      all_goals rfl

theorem keys_put (d : Dict κ α) (k : κ) (v : α) :
    keys (put d k v) = if k ∈ keys d then keys d else keys d ++ [k] := by
  induction d with
  | nil => rfl
  | cons p d ih =>
    obtain ⟨l, x⟩ := p
    have hcons : keys ((l, x) :: d) = l :: keys d := rfl
    by_cases hl : l = k
    · subst hl
      rw [put, if_pos rfl, hcons, if_pos List.mem_cons_self]
      rfl
    · have hput : keys (put ((l, x) :: d) k v) = l :: keys (put d k v) := by rw [put, if_neg hl]; rfl
      have hmem : k ∈ l :: keys d ↔ k ∈ keys d := by
        rw [List.mem_cons, or_iff_right (Ne.symm hl)]
      rw [hput, ih, hcons]
      simp only [hmem]
      split_ifs <;> rfl

theorem values_eq {d : Dict κ α} (h : (keys d).Nodup) : values d = (keys d).filterMap (get d) := by
  induction d with
  | nil => rfl
  | cons p d ih =>
    obtain ⟨l, x⟩ := p
    obtain ⟨hl, hd⟩ := List.nodup_cons.mp h
    have hrest : (keys d).filterMap (get ((l, x) :: d)) = (keys d).filterMap (get d) := by
      apply List.filterMap_congr
      intro k hk
      have hne : l ≠ k := fun heq => hl (heq ▸ hk)
      rw [get, if_neg hne]
    have hcons : keys ((l, x) :: d) = l :: keys d := rfl
    have hself : get ((l, x) :: d) l = some x := if_pos rfl
    rw [hcons, List.filterMap_cons_some hself, hrest, ← ih hd]
    rfl

end Dict

/-! ### The loop -/

namespace Grouping

open Dict

/-- The dictionary after the loop; `step` makes a record from the one that is there and the item. -/
def group (key : β → κ) (step : Option α → β → α) (xs : List β) : Dict κ α :=
  xs.foldl (fun d x => put d (key x) (step (get d (key x)) x)) []

/-- The record that items make on their own. -/
def record (step : Option α → β → α) (xs : List β) : Option α := xs.foldl (fun r x => some (step r x)) none

/-- The first item of each key, in their order. -/
def firsts (key : β → κ) : List β → List β
  | [] => []
  | x :: xs => x :: (firsts key xs).filter fun y => key y ≠ key x

variable (key : β → κ) (step : Option α → β → α)

theorem group_snoc (xs : List β) (x : β) :
    group key step (xs ++ [x]) = put (group key step xs) (key x) (step (get (group key step xs) (key x)) x) := by
  rw [group, List.foldl_append]
  rfl

theorem record_snoc (xs : List β) (x : β) : record step (xs ++ [x]) = some (step (record step xs) x) := by
  rw [record, List.foldl_append]
  rfl

theorem firsts_snoc (xs : List β) (x : β) :
    firsts key (xs ++ [x]) = if key x ∈ xs.map key then firsts key xs else firsts key xs ++ [x] := by
  induction xs with
  | nil => rfl
  | cons y xs ih =>
    have hmem : key x ∈ (y :: xs).map key ↔ key x = key y ∨ key x ∈ xs.map key := by
      rw [List.map_cons, List.mem_cons]
    rw [List.cons_append, firsts, ih, firsts]
    simp only [hmem]
    by_cases hxs : key x ∈ xs.map key
    · rw [if_pos hxs, if_pos (Or.inr hxs)]
    · rw [if_neg hxs, List.filter_append]
      by_cases hxy : key x = key y
      · simp [hxy]
      · simp [hxy, hxs]

theorem mem_map_firsts (xs : List β) (k : κ) : k ∈ (firsts key xs).map key ↔ k ∈ xs.map key := by
  induction xs using List.reverseRecOn with
  | nil => rfl
  | append_singleton xs x ih =>
    rw [firsts_snoc]
    split_ifs with hx
    · rw [ih, List.map_append, List.mem_append, List.map_singleton, List.mem_singleton]
      exact ⟨Or.inl, fun h => h.elim id fun hk => hk ▸ hx⟩
    · rw [List.map_append, List.mem_append, ih, List.map_append, List.mem_append]

/-- **The record of a key** is what the items with this key make of it: no other item changes it. -/
theorem get_group (xs : List β) (k : κ) :
    get (group key step xs) k = record step (xs.filter fun x => key x = k) := by
  induction xs using List.reverseRecOn with
  | nil => rfl
  | append_singleton xs x ih =>
    rw [group_snoc, get_put, List.filter_append]
    by_cases hk : key x = k
    · have hlast : [x].filter (fun y => key y = k) = [x] := by simp [hk]
      rw [if_pos hk, hk, ih, hlast, record_snoc]
    · have hlast : [x].filter (fun y => key y = k) = [] := by simp [hk]
      rw [if_neg hk, ih, hlast, List.append_nil]

theorem keys_group (xs : List β) : keys (group key step xs) = (firsts key xs).map key := by
  induction xs using List.reverseRecOn with
  | nil => rfl
  | append_singleton xs x ih =>
    rw [group_snoc, keys_put, ih, firsts_snoc]
    simp only [mem_map_firsts]
    split_ifs
    · rfl
    · rw [List.map_append, List.map_singleton]

theorem nodup_keys_group (xs : List β) : (keys (group key step xs)).Nodup := by
  induction xs using List.reverseRecOn with
  | nil => exact List.nodup_nil
  | append_singleton xs x ih =>
    rw [group_snoc, keys_put]
    split_ifs with hx
    · exact ih
    · refine List.nodup_append.mpr ⟨ih, List.nodup_singleton _, ?_⟩
      intro a ha b hb heq
      rw [heq, List.mem_singleton.mp hb] at ha
      exact hx ha

/-- **The records** in the order of the first item of each key. -/
theorem values_group (xs : List β) :
    values (group key step xs) =
      (firsts key xs).filterMap fun x => record step (xs.filter fun y => key y = key x) := by
  rw [values_eq (nodup_keys_group key step xs), keys_group, List.filterMap_map]
  apply List.filterMap_congr
  intro x _
  exact get_group key step xs (key x)

theorem pairwise_firsts (xs : List β) : (firsts key xs).Pairwise fun x y => key x ≠ key y := by
  induction xs with
  | nil => exact .nil
  | cons x xs ih =>
    refine .cons ?_ (ih.filter _)
    intro y hy
    have hne := (List.mem_filter.mp hy).2
    exact Ne.symm (of_decide_eq_true hne)

/-! ### Items replaced, and put in between -/

/-- An item may stand for another that has its key and does to a record what that does. -/
theorem group_replace {x y : β} (hkey : key x = key y) (hstep : ∀ r, step r x = step r y) (xs ys : List β) :
    group key step (xs ++ [x] ++ ys) = group key step (xs ++ [y] ++ ys) := by
  simp only [group, List.foldl_append, List.foldl_cons, List.foldl_nil, hkey, hstep]

theorem filter_eraseDups (p : κ → Bool) (ks : List κ) : (ks.filter p).eraseDups = ks.eraseDups.filter p := by
  match ks with
  | [] => rfl
  | k :: ks =>
    have hlen : (ks.filter fun l => !l == k).length < ks.length + 1 := Nat.lt_succ_of_le (List.length_filter_le _ _)
    have ih := filter_eraseDups p (ks.filter fun l => !l == k)
    rw [List.eraseDups_cons, List.filter_cons, List.filter_cons]
    cases hk : p k with
    | true =>
      simp only [if_true]
      rw [List.eraseDups_cons, ← ih, List.filter_filter, List.filter_filter]
      simp only [Bool.and_comm]
    | false =>
      simp only [Bool.false_eq_true, if_false]
      rw [← ih, List.filter_filter]
      congr 1
      apply List.filter_congr
      intro l _
      by_cases hl : l = k
      · simp [hl, hk]
      · simp [hl]
termination_by ks.length

theorem map_firsts (xs : List β) : (firsts key xs).map key = (xs.map key).eraseDups := by
  induction xs with
  | nil => rfl
  | cons x xs ih =>
    rw [firsts, List.map_cons, List.map_cons, List.eraseDups_cons, filter_eraseDups, ← ih, List.filter_map]
    congr 2
    exact List.filter_congr fun y _ => decide_not

theorem nodup_eraseDups (ks : List κ) : ks.eraseDups.Nodup := by
  have hpairwise := pairwise_firsts id ks
  have heq := map_firsts id ks
  rw [List.map_id, List.map_id] at heq
  rw [← heq]
  exact hpairwise

theorem eraseDups_append_iff (ks ls : List κ) :
    (ks ++ ls).eraseDups = ls.eraseDups ↔ ks.eraseDups <+: ls.eraseDups := by
  have happend : (ks ++ ls).eraseDups = ks.eraseDups ++ ls.eraseDups.filter fun l => !ks.elem l := by
    rw [List.eraseDups_append, List.removeAll, filter_eraseDups]
  rw [happend]
  constructor
  · intro heq
    rw [← heq]
    exact List.prefix_append _ _
  · rintro ⟨rest, hrest⟩
    have hnodup := nodup_eraseDups ls
    rw [← hrest] at hnodup ⊢
    have hfront : (ks.eraseDups.filter fun l => !ks.elem l) = [] := by
      apply List.filter_eq_nil_iff.mpr
      intro k hk
      simp [List.mem_eraseDups.mp hk]
    have hback : (rest.filter fun l => !ks.elem l) = rest := by
      apply List.filter_eq_self.mpr
      intro l hl
      have hnot : l ∉ ks := fun hmem =>
        List.disjoint_of_nodup_append hnodup (List.mem_eraseDups.mpr hmem) hl
      simp [hnot]
    rw [List.filter_append, hfront, hback, List.nil_append]

/-- **Keys put in between** change nothing exactly when those that are new are the next new ones anyway. -/
theorem eraseDups_insert_iff (ks ms ls : List κ) :
    (ks ++ ms ++ ls).eraseDups = (ks ++ ls).eraseDups ↔
      (ms.filter (· ∉ ks)).eraseDups <+: (ls.filter (· ∉ ks)).eraseDups := by
  have hremove (l : List κ) : l.removeAll ks = l.filter (· ∉ ks) := by
    apply List.filter_congr
    intro k _
    simp
  rw [List.append_assoc, List.eraseDups_append, List.eraseDups_append, List.append_cancel_left_eq, hremove, hremove,
    List.filter_append, eraseDups_append_iff]

end Grouping
