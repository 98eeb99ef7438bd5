import Plexichat.Library.Meter

/-! Limits per window. A sliding window keeps the times of what it has admitted and never holds
more of them than the limit; a fixed window counts from its start on. -/
namespace Meter

/-- What was admitted at the times that `p` marks. -/
def total (p : ℚ → Bool) (log : List Admission) : ℚ :=
  ((log.filter fun a => p a.time).map Admission.cost).sum

def charged (p : ℚ → Bool) (log : List Admission) : Nat :=
  (log.filter fun a => p a.time && decide (0 < a.cost)).length

structure AtMost (limit : Nat) (p : ℚ → Bool) (log : List Admission) : Prop where
  total : total p log ≤ limit
  charged : charged p log ≤ limit

def Whole (log : List Admission) : Prop := ∀ a ∈ log, ∃ n : Nat, a.cost = n

section Totals

variable {p q : ℚ → Bool} {a : Admission} {log : List Admission} {n : Nat} {now : ℚ}

theorem total_cons_in (marked : p a.time = true) (log : List Admission) :
    total p (a :: log) = a.cost + total p log := by
  simp [total, marked]

theorem total_cons_out (unmarked : p a.time = false) (log : List Admission) :
    total p (a :: log) = total p log := by
  simp [total, unmarked]

theorem Whole.cons (whole : Whole log) (now : ℚ) (n : Nat) : Whole (⟨now, n⟩ :: log) := by
  intro a member
  rcases List.mem_cons.mp member with rfl | old
  · exact ⟨n, rfl⟩
  · exact whole a old

theorem Whole.tail (whole : Whole (a :: log)) : Whole log :=
  fun b member => whole b (List.mem_cons_of_mem a member)

theorem Whole.cost_nonneg (whole : Whole (a :: log)) : 0 ≤ a.cost := by
  obtain ⟨n, cost⟩ := whole a List.mem_cons_self
  rw [cost]
  exact Nat.cast_nonneg n

theorem total_mono (whole : Whole log) (marks : ∀ a ∈ log, p a.time = true → q a.time = true) :
    total p log ≤ total q log := by
  induction log with
  | nil => exact le_rfl
  | cons a log ih =>
    have later := ih whole.tail fun b member => marks b (List.mem_cons_of_mem a member)
    have paid := whole.cost_nonneg
    cases first : p a.time with
    | true =>
      rw [total_cons_in first, total_cons_in (marks a List.mem_cons_self first)]
      linarith
    | false =>
      rw [total_cons_out first]
      cases second : q a.time with
      | true =>
        rw [total_cons_in second]
        linarith
      | false => rwa [total_cons_out second]

theorem total_eq_zero (none_marked : ∀ a ∈ log, p a.time = false) : total p log = 0 := by
  induction log with
  | nil => rfl
  | cons a log ih =>
    rw [total_cons_out (none_marked a List.mem_cons_self)]
    exact ih fun b member => none_marked b (List.mem_cons_of_mem a member)

theorem charged_le (whole : Whole log) (p : ℚ → Bool) : (charged p log : ℚ) ≤ total p log := by
  induction log with
  | nil => exact le_rfl
  | cons a log ih =>
    have later := ih whole.tail
    obtain ⟨n, cost⟩ := whole a List.mem_cons_self
    cases marked : p a.time with
    | false =>
      rw [total_cons_out marked]
      simpa [charged, marked] using later
    | true =>
      rw [total_cons_in marked, cost]
      cases n with
      | zero => simpa [charged, marked, cost] using later
      | succ n =>
        have one_more : charged p (a :: log) = charged p log + 1 := by
          have positive : (0 : ℚ) < n + 1 := by positivity
          simp [charged, marked, cost, positive]
        rw [one_more]
        push_cast
        have free : (0 : ℚ) ≤ n := Nat.cast_nonneg n
        linarith

theorem Whole.atMost (whole : Whole log) (limit : total p log ≤ n) : AtMost n p log :=
  ⟨limit, Nat.cast_le.mp ((charged_le whole p).trans limit)⟩

end Totals

section Sliding

/-- The times that are kept make up for all that was admitted after any moment that a window may
still begin at. -/
structure Sliding (limit : Nat) (width now : ℚ) (kept : List ℚ) (log : List Admission) : Prop where
  whole : Whole log
  past : ∀ a ∈ log, a.time ≤ now
  counted : ∀ start, now - width ≤ start →
    total (fun t => start < t) log ≤ (kept.filter fun t => start < t).length
  within : ∀ p : ℚ → Bool, (∀ x y, p x = true → p y = true → y - x < width) → total p log ≤ limit

variable {limit : Nat} {width now : ℚ} {kept : List ℚ} {log : List Admission}

theorem Sliding.start (limit : Nat) (width now : ℚ) : Sliding limit width now [] [] := by
  refine ⟨?_, ?_, ?_, ?_⟩
  · exact fun _ member => absurd member List.not_mem_nil
  · exact fun _ member => absurd member List.not_mem_nil
  · exact fun _ _ => le_rfl
  · exact fun _ _ => Nat.cast_nonneg limit

theorem Sliding.prune (h : Sliding limit width now kept log) {later : ℚ} (after : now ≤ later) :
    Sliding limit width later (kept.filter fun t => later - width < t) log := by
  refine ⟨h.whole, fun a member => (h.past a member).trans after, ?_, h.within⟩
  intro start begins
  have same : (kept.filter fun t => later - width < t).filter (fun t => start < t) =
      kept.filter fun t => start < t := by
    rw [List.filter_filter]
    apply List.filter_congr
    intro t _
    by_cases inside : start < t
    · simp [inside, begins.trans_lt inside]
    · simp [inside]
  rw [same]
  exact h.counted start (by linarith)

theorem Sliding.append (h : Sliding limit width now kept log) (more : List ℚ) :
    Sliding limit width now (kept ++ more) log := by
  refine ⟨h.whole, h.past, ?_, h.within⟩
  intro start begins
  rw [List.filter_append, List.length_append]
  push_cast
  have others : (0 : ℚ) ≤ ((more.filter fun t => start < t).length : ℚ) := Nat.cast_nonneg _
  linarith [h.counted start begins]

theorem Sliding.grant (h : Sliding limit width now kept log) {n : Nat}
    (room : kept.length + n ≤ limit) :
    Sliding limit width now (kept ++ List.replicate n now) (⟨now, n⟩ :: log) := by
  refine ⟨h.whole.cons now n, ?_, ?_, ?_⟩
  · intro a member
    rcases List.mem_cons.mp member with rfl | old
    · exact le_rfl
    · exact h.past a old
  · intro start begins
    by_cases before : start < now
    · have all : ((kept ++ List.replicate n now).filter fun t => start < t).length =
          (kept.filter fun t => start < t).length + n := by
        simp [List.filter_append, before]
      rw [all, total_cons_in (by simpa using before)]
      push_cast
      linarith [h.counted start begins]
    · rw [total_cons_out (by simpa using before)]
      exact (h.append _).counted start begins
  · intro p narrow
    cases inside : p now with
    | false =>
      rw [total_cons_out inside]
      exact h.within p narrow
    | true =>
      -- what else is marked lies in the window that ends now
      have recent : total p log ≤ total (fun t => now - width < t) log := by
        apply total_mono h.whole
        intro a _ marked
        have near := narrow a.time now marked inside
        exact decide_eq_true (by linarith)
      have few : ((kept.filter fun t => now - width < t).length : ℚ) + n ≤ limit := by
        have shorter := List.length_filter_le (fun t => decide (now - width < t)) kept
        exact_mod_cast (Nat.add_le_add_right shorter n).trans room
      rw [total_cons_in inside]
      linarith [h.counted (now - width) le_rfl]

theorem Sliding.halfOpen (h : Sliding limit width now kept log) (start : ℚ) :
    AtMost limit (fun t => start ≤ t && t < start + width) log ∧
      AtMost limit (fun t => start < t && t ≤ start + width) log := by
  constructor
  · apply h.whole.atMost
    apply h.within
    intro x y first second
    simp only [Bool.and_eq_true, decide_eq_true_eq] at first second
    linarith [first.1, second.2]
  · apply h.whole.atMost
    apply h.within
    intro x y first second
    simp only [Bool.and_eq_true, decide_eq_true_eq] at first second
    linarith [first.1, second.2]

end Sliding

section Fixed

def inWindow (width start t : ℚ) : Bool := start ≤ t && t < start + width

/-- The windows that were opened lie one after the other, and what was admitted lies in them. -/
structure Fixed (limit : Nat) (width start : ℚ) (count : Nat) (starts : List ℚ)
    (log : List Admission) : Prop where
  whole : Whole log
  last : ∀ w ∈ starts, w = start ∨ w + width ≤ start
  apart : ∀ w ∈ starts, ∀ v ∈ starts, w = v ∨ w + width ≤ v ∨ v + width ≤ w
  inside : ∀ a ∈ log, ∃ w ∈ starts, inWindow width w a.time = true
  counted : total (inWindow width start) log ≤ count
  within : ∀ w ∈ starts, total (inWindow width w) log ≤ limit

variable {limit count : Nat} {width start : ℚ} {starts : List ℚ} {log : List Admission}

theorem inWindow_iff {t : ℚ} : inWindow width start t = true ↔ start ≤ t ∧ t < start + width := by
  simp [inWindow]

theorem Fixed.unopened (limit : Nat) (width start : ℚ) : Fixed limit width start 0 [] [] := by
  refine ⟨?_, ?_, ?_, ?_, le_of_eq Nat.cast_zero.symm, ?_⟩
  all_goals exact fun _ member => absurd member List.not_mem_nil

theorem Fixed.more (h : Fixed limit width start count starts log) (n : Nat) :
    Fixed limit width start (count + n) starts log := by
  have fewer : (count : ℚ) ≤ (count + n : Nat) := Nat.cast_le.mpr (Nat.le_add_right count n)
  exact ⟨h.whole, h.last, h.apart, h.inside, h.counted.trans fewer, h.within⟩

theorem Fixed.stay (h : Fixed limit width start count starts log) (few : count ≤ limit) :
    Fixed limit width start count (start :: starts) log := by
  refine ⟨h.whole, ?_, ?_, ?_, h.counted, ?_⟩
  · intro w member
    rcases List.mem_cons.mp member with rfl | old
    · exact .inl rfl
    · exact h.last w old
  · intro w first v second
    rcases List.mem_cons.mp first with rfl | old
    · rcases List.mem_cons.mp second with rfl | old'
      · exact .inl rfl
      · rcases h.last v old' with same | before
        · exact .inl same.symm
        · exact .inr (.inr before)
    · rcases List.mem_cons.mp second with rfl | old'
      · rcases h.last w old with same | before
        · exact .inl same
        · exact .inr (.inl before)
      · exact h.apart w old v old'
  · intro a member
    obtain ⟨w, opened, here⟩ := h.inside a member
    exact ⟨w, List.mem_cons_of_mem _ opened, here⟩
  · intro w member
    rcases List.mem_cons.mp member with rfl | old
    · exact h.counted.trans (Nat.cast_le.mpr few)
    · exact h.within w old

theorem Fixed.reopen (h : Fixed limit width start count starts log) (positive : 0 < width) {next : ℚ}
    (over_now : start + width ≤ next) : Fixed limit width next 0 starts log := by
  have before : ∀ w ∈ starts, w + width ≤ next := by
    intro w member
    rcases h.last w member with rfl | earlier
    · exact over_now
    · linarith
  refine ⟨h.whole, fun w member => .inr (before w member), h.apart, h.inside, ?_, h.within⟩
  rw [total_eq_zero]
  · exact le_of_eq Nat.cast_zero.symm
  · intro a member
    obtain ⟨w, opened, here⟩ := h.inside a member
    have ends := before w opened
    have early := (inWindow_iff.mp here).2
    apply Bool.eq_false_iff.mpr
    intro late
    linarith [(inWindow_iff.mp late).1]

theorem Fixed.grant (h : Fixed limit width start count starts log) (opened : start ∈ starts)
    {now : ℚ} {n : Nat} (here : inWindow width start now = true) (room : count + n ≤ limit) :
    Fixed limit width start (count + n) starts (⟨now, n⟩ :: log) := by
  have counted : total (inWindow width start) (⟨now, n⟩ :: log) ≤ (count + n : Nat) := by
    rw [total_cons_in here]
    push_cast
    linarith [h.counted]
  refine ⟨h.whole.cons now n, h.last, h.apart, ?_, counted, ?_⟩
  · intro a member
    rcases List.mem_cons.mp member with rfl | old
    · exact ⟨start, opened, here⟩
    · exact h.inside a old
  · intro w member
    rcases h.last w member with rfl | earlier
    · exact counted.trans (Nat.cast_le.mpr room)
    · have outside : inWindow width w now = false := by
        apply Bool.eq_false_iff.mpr
        intro back
        linarith [(inWindow_iff.mp back).2, (inWindow_iff.mp here).1]
      rw [total_cons_out outside]
      exact h.within w member

end Fixed

end Meter
