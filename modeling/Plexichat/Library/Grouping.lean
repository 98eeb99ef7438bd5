import Mathlib.Data.List.Dedup
import Mathlib.Data.List.Perm.Basic

/-! Rows grouped by a key, each group with its rows in their order. Groups are the same up to their
order where their keys are. -/
namespace Grouping

universe u v w

variable {ρ : Type u} {κ : Type v} {ν : Type w} [DecidableEq κ] [DecidableEq ν]

def groups (key : ρ → κ) (rows : List ρ) : List (κ × List ρ) :=
  (rows.map key).dedup.map fun k => (k, rows.filter fun r => key r = k)

theorem groups_nil (key : ρ → κ) : groups key [] = [] := rfl

section Pairs

variable (first : ρ → ν) (second : ρ → κ) (rows : List ρ) (n : ν)

def pairsOf : List (ν × κ) := (rows.map fun r => (first r, second r)).dedup.filter fun k => k.1 = n

theorem mem_pairsOf {k : ν × κ} :
    k ∈ pairsOf first second rows n ↔ k.1 = n ∧ ∃ r ∈ rows, first r = n ∧ second r = k.2 := by
  simp only [pairsOf, List.mem_filter, List.mem_dedup, List.mem_map, decide_eq_true_eq]
  constructor
  · rintro ⟨⟨r, row, rfl⟩, named⟩
    exact ⟨named, r, row, named, rfl⟩
  · rintro ⟨named, r, row, here, there⟩
    exact ⟨⟨r, row, Prod.ext (here.trans named.symm) there⟩, named⟩

theorem pairsOf_perm : ((pairsOf first second rows n).map Prod.snd).Perm
    ((rows.filter fun r => first r = n).map second).dedup := by
  have apart : ((pairsOf first second rows n).map Prod.snd).Nodup := by
    refine List.Nodup.map_on ?_ ((List.nodup_dedup _).filter _)
    intro k left k' right same
    have here := (mem_pairsOf first second rows n).mp left
    have there := (mem_pairsOf first second rows n).mp right
    exact Prod.ext (here.1.trans there.1.symm) same
  refine (List.perm_ext_iff_of_nodup apart (List.nodup_dedup _)).mpr fun e => ?_
  simp only [List.mem_map, List.mem_dedup, List.mem_filter, mem_pairsOf, decide_eq_true_eq]
  constructor
  · rintro ⟨k, ⟨-, r, row, here, there⟩, rfl⟩
    exact ⟨r, ⟨row, here⟩, there⟩
  · rintro ⟨r, ⟨row, here⟩, rfl⟩
    exact ⟨(n, second r), ⟨rfl, r, row, here, rfl⟩, rfl⟩

theorem groups_pair :
    (((groups (fun r => (first r, second r)) rows).filter fun g => g.1.1 = n).map
        fun g => (g.1.2, g.2)).Perm
      (groups second (rows.filter fun r => first r = n)) := by
  have listed : ((groups (fun r => (first r, second r)) rows).filter fun g => g.1.1 = n).map
      (fun g => (g.1.2, g.2)) = ((pairsOf first second rows n).map Prod.snd).map fun e =>
        (e, (rows.filter fun r => first r = n).filter fun r => second r = e) := by
    rw [groups, List.filter_map, List.map_map, List.map_map]
    apply List.map_congr_left
    intro k member
    have named := ((mem_pairsOf first second rows n).mp member).1
    simp only [Function.comp, List.filter_filter, Prod.mk.injEq, true_and]
    apply List.filter_congr
    intro r _
    rw [← Bool.decide_and, decide_eq_decide, ← named, and_comm]
    exact Prod.ext_iff
  rw [listed]
  exact (pairsOf_perm first second rows n).map _

end Pairs

end Grouping
