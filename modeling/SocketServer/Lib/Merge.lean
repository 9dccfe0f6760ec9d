import Mathlib.Data.List.Basic
import Mathlib.Logic.Function.Basic

/-!
# Merged sequences

A list is a merge of the sequences of several sources if its elements can be told apart by source so that those of each
source are its sequence: every element of every sequence occurs once, and each sequence keeps its order.
-/

universe u v

variable {ι : Type u} {α : Type v} [DecidableEq ι]

/-- The list `m` is a merge of the sequences `s c`. -/
def IsMerge (s : ι → List α) (m : List α) : Prop :=
  ∃ tagged : List (ι × α), tagged.map Prod.snd = m ∧
    ∀ c, (tagged.filter fun x => decide (x.1 = c)).map Prod.snd = s c

theorem IsMerge.nil : IsMerge (fun _ : ι => ([] : List α)) [] := ⟨[], rfl, fun _ => rfl⟩

theorem IsMerge.push {s : ι → List α} {m : List α} (h : IsMerge s m) (c : ι) (x : α) :
    IsMerge (Function.update s c (s c ++ [x])) (m ++ [x]) := by
  obtain ⟨tagged, rfl, hs⟩ := h
  refine ⟨tagged ++ [(c, x)], List.map_append, fun c' => ?_⟩
  rw [List.filter_append, List.map_append, hs c']
  by_cases hc : c' = c
  · subst hc
    have hself : [(c', x)].filter (fun y => decide (y.1 = c')) = [(c', x)] := by simp
    rw [Function.update_self, hself]
    rfl
  · have hother : [(c, x)].filter (fun y => decide (y.1 = c')) = [] := by simp [Ne.symm hc]
    rw [Function.update_of_ne hc, hother]
    exact List.append_nil _
