import Mathlib.Algebra.Order.Ring.Rat
import Mathlib.Tactic.Linarith

/-! Admissions that are paid from a credit. When the credit never exceeds a cap, grows
with time at a rate at most and pays for each admission, what is admitted in an interval
is bounded by the cap and what accrues in it. -/
namespace Meter

structure Admission where
  time : ℚ
  cost : ℚ

/-- What was admitted from `start` to `stop`, both included. -/
def spent (log : List Admission) (start stop : ℚ) : ℚ :=
  ((log.filter fun a => start ≤ a.time && a.time ≤ stop).map Admission.cost).sum

/-- The bound for every interval, and the sharper one up to now that leaves room for
the credit. -/
structure Metered (cap rate now credit : ℚ) (log : List Admission) : Prop where
  nonneg : 0 ≤ credit
  past : ∀ a ∈ log, a.time ≤ now
  since : ∀ start ≤ now, spent log start now + credit ≤ cap + rate * (now - start)
  within : ∀ start stop, start ≤ stop → spent log start stop ≤ cap + rate * (stop - start)

theorem spent_nil (start stop : ℚ) : spent [] start stop = 0 := rfl

theorem spent_cons_in (a : Admission) {start stop : ℚ} (log : List Admission)
    (after : start ≤ a.time) (before : a.time ≤ stop) :
    spent (a :: log) start stop = a.cost + spent log start stop := by
  simp [spent, after, before]

theorem spent_cons_out (a : Admission) {start stop : ℚ} (log : List Admission)
    (outside : ¬ (start ≤ a.time ∧ a.time ≤ stop)) :
    spent (a :: log) start stop = spent log start stop := by
  unfold spent
  rw [List.filter_cons_of_neg (by simpa using outside)]

theorem spent_later {log : List Admission} {now stop : ℚ} (past : ∀ a ∈ log, a.time ≤ now)
    (later : now ≤ stop) (start : ℚ) : spent log start stop = spent log start now := by
  unfold spent
  congr 2
  apply List.filter_congr
  intro a member
  have here := past a member
  simp [here, here.trans later]

theorem spent_after {log : List Admission} {now start : ℚ} (past : ∀ a ∈ log, a.time ≤ now)
    (later : now < start) (stop : ℚ) : spent log start stop = 0 := by
  unfold spent
  have empty : log.filter (fun a => start ≤ a.time && a.time ≤ stop) = [] := by
    apply List.filter_eq_nil_iff.mpr
    intro a member
    have here := (past a member).trans_lt later
    simp [not_le.mpr here]
  rw [empty]
  rfl

variable {cap rate now credit : ℚ} {log : List Admission}

theorem Metered.start (nonneg : 0 ≤ credit) (capped : credit ≤ cap) (rising : 0 ≤ rate) :
    Metered cap rate now credit [] := by
  have accrues : ∀ {start stop : ℚ}, start ≤ stop → 0 ≤ rate * (stop - start) :=
    fun h => mul_nonneg rising (sub_nonneg.mpr h)
  refine ⟨nonneg, nofun, ?_, ?_⟩
  · intro start before
    rw [spent_nil]
    linarith [accrues before]
  · intro start stop before
    rw [spent_nil]
    linarith [accrues before]

theorem Metered.lower {credit' : ℚ} (h : Metered cap rate now credit log) (nonneg : 0 ≤ credit')
    (less : credit' ≤ credit) : Metered cap rate now credit' log := by
  refine ⟨nonneg, h.past, ?_, h.within⟩
  intro start before
  linarith [h.since start before]

theorem Metered.wait {now' credit' : ℚ} (h : Metered cap rate now credit log) (later : now ≤ now')
    (nonneg : 0 ≤ credit') (capped : credit' ≤ cap) (rising : 0 ≤ rate)
    (accrued : credit' ≤ credit + rate * (now' - now)) : Metered cap rate now' credit' log := by
  refine ⟨nonneg, fun a member => (h.past a member).trans later, ?_, h.within⟩
  intro start before
  by_cases old : start ≤ now
  · rw [spent_later h.past later]
    linarith [h.since start old]
  · rw [spent_after h.past (not_le.mp old)]
    have grows := mul_nonneg rising (sub_nonneg.mpr before)
    linarith

theorem Metered.grant {credit' cost : ℚ} (h : Metered cap rate now credit log)
    (nonneg : 0 ≤ credit') (rising : 0 ≤ rate) (paid : credit' + cost ≤ credit) :
    Metered cap rate now credit' (⟨now, cost⟩ :: log) := by
  have since : ∀ start ≤ now,
      spent (⟨now, cost⟩ :: log) start now + credit' ≤ cap + rate * (now - start) := by
    intro start before
    rw [spent_cons_in ⟨now, cost⟩ log before le_rfl]
    linarith [h.since start before]
  refine ⟨nonneg, ?_, since, ?_⟩
  · intro a member
    cases List.mem_cons.mp member with
    | inl new => rw [new]
    | inr old => exact h.past a old
  · intro start stop before
    by_cases inside : start ≤ now ∧ now ≤ stop
    · have here := since start inside.1
      rw [spent_cons_in ⟨now, cost⟩ log inside.1 le_rfl, ← spent_later h.past inside.2] at here
      rw [spent_cons_in ⟨now, cost⟩ log inside.1 inside.2]
      have grows := mul_le_mul_of_nonneg_left (sub_le_sub_right inside.2 start) rising
      linarith
    · rw [spent_cons_out ⟨now, cost⟩ log inside]
      exact h.within start stop before

end Meter
