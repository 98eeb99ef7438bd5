import Mathlib.Data.List.Sort

/-! Reading a query page by page: by the key of the last row, and by an offset. -/

universe u

namespace Paging

variable {ρ : Type u}

/-- Rows beyond a cursor in the order of their keys, at most `limit` of them. -/
def batch (key : ρ → Int) (rows : List ρ) (limit : Nat) (cursor : Int) : List ρ :=
  ((rows.filter fun r => cursor < key r).mergeSort fun r q => key r ≤ key q).take limit

def keyset (key : ρ → Int) (rows : List ρ) (limit : Nat) : Nat → Int → List ρ
  | 0, _ => []
  | n + 1, cursor =>
    let rows' := batch key rows limit cursor
    match rows'.getLast? with
    | none => []
    | some last => rows' ++ keyset key rows limit n (key last)

section Keyset

variable {key : ρ → Int} {rows : List ρ} {limit n : Nat} {cursor : Int} {r : ρ}

theorem mem_of_mem_batch (h : r ∈ batch key rows limit cursor) : r ∈ rows ∧ cursor < key r := by
  simpa using List.mem_mergeSort.mp (List.mem_of_mem_take h)

theorem mem_batch_or_beyond (unique : (rows.map key).Nodup) (member : r ∈ rows)
    (beyond : cursor < key r) {last : ρ}
    (ends : (batch key rows limit cursor).getLast? = some last) :
    r ∈ batch key rows limit cursor ∨ key last < key r := by
  let sorted := (rows.filter fun r => cursor < key r).mergeSort fun r q => key r ≤ key q
  have ordered : sorted.Pairwise fun r q => decide (key r ≤ key q) = true :=
    List.pairwise_mergeSort (by simpa using fun _ _ _ => Int.le_trans)
      (by simpa using fun r q => Int.le_total (key r) (key q)) _
  have there : r ∈ sorted := List.mem_mergeSort.mpr (by simpa using ⟨member, beyond⟩)
  rw [← List.take_append_drop limit sorted] at there ordered
  rcases List.mem_append.mp there with early | late
  · exact .inl early
  · have among : last ∈ batch key rows limit cursor := List.mem_of_getLast? ends
    have before := (List.pairwise_append.mp ordered).2.2 last among r late
    rcases Int.lt_or_eq_of_le (of_decide_eq_true before) with less | same
    · exact .inr less
    · have here := List.inj_on_of_nodup_map unique (mem_of_mem_batch among).1 member same
      exact .inl (here ▸ among)

theorem batch_eq_nil (positive : 0 < limit) (empty : batch key rows limit cursor = []) :
    ∀ r ∈ rows, ¬cursor < key r := by
  intro r member beyond
  rcases List.take_eq_nil_iff.mp empty with zero | none_left
  · exact absurd zero (Nat.ne_of_gt positive)
  · have there : r ∈ (rows.filter fun r => cursor < key r).mergeSort fun r q => key r ≤ key q :=
      List.mem_mergeSort.mpr (by simpa using ⟨member, beyond⟩)
    rw [none_left] at there
    cases there

theorem mem_keyset (unique : (rows.map key).Nodup) (positive : 0 < limit)
    (enough : (rows.filter fun r => cursor < key r).length < n) :
    r ∈ keyset key rows limit n cursor ↔ r ∈ rows ∧ cursor < key r := by
  induction n generalizing cursor with
  | zero => exact absurd enough (Nat.not_lt_zero _)
  | succ n ih =>
    rw [keyset]
    cases ends : (batch key rows limit cursor).getLast? with
    | none =>
      refine iff_of_false nofun ?_
      intro h
      exact batch_eq_nil positive (List.getLast?_eq_none_iff.mp ends) r h.1 h.2
    | some last =>
      obtain ⟨last_row, last_beyond⟩ := mem_of_mem_batch (List.mem_of_getLast? ends)
      have fewer : (rows.filter fun r => key last < key r).length <
          (rows.filter fun r => cursor < key r).length := by
        have within : (rows.filter fun r => key last < key r) =
            (rows.filter fun r => cursor < key r).filter fun r => key last < key r := by
          rw [List.filter_filter]
          apply List.filter_congr
          intro r _
          by_cases less : key last < key r
          · simp [less, Int.lt_trans last_beyond less]
          · simp [less]
        rw [within]
        apply List.length_filter_lt_length_iff_exists.mpr
        exact ⟨last, by simpa using ⟨last_row, last_beyond⟩, by simp⟩
      have rest : r ∈ keyset key rows limit n (key last) ↔ r ∈ rows ∧ key last < key r :=
        ih (by omega)
      show r ∈ batch key rows limit cursor ++ keyset key rows limit n (key last) ↔ _
      rw [List.mem_append, rest]
      constructor
      · intro either
        rcases either with now | ⟨member, later⟩
        · exact mem_of_mem_batch now
        · exact ⟨member, Int.lt_trans last_beyond later⟩
      · intro h
        rcases mem_batch_or_beyond unique h.1 h.2 ends with now | later
        · exact .inl now
        · exact .inr ⟨h.1, later⟩

end Keyset

def page (items : List ρ) (limit offset : Nat) : List ρ := (items.drop offset).take limit

def walk {γ : Type} (fetch : γ → Option (List ρ × Option γ)) : Nat → γ → Option (List ρ)
  | 0, _ => none
  | n + 1, cursor => do
    let (items, next) ← fetch cursor
    match next with
    | none => return items
    | some cursor => return items ++ (← walk fetch n cursor)

theorem walk_eq_of_fetch_eq {γ : Type} {fetch : γ → Option (List ρ × Option γ)} {a b : γ}
    (same : fetch a = fetch b) (n : Nat) : walk fetch n a = walk fetch n b := by
  cases n with
  | zero => rfl
  | succ n => rw [walk, walk, same]

theorem walk_eq {γ : Type} {fetch : γ → Option (List ρ × Option γ)} (code : Nat → γ)
    {items : List ρ} {limit n offset : Nat} (positive : 0 < limit)
    (serves : ∀ offset, fetch (code offset) = some (page items limit offset,
      if offset + (page items limit offset).length < items.length then
        some (code (offset + (page items limit offset).length)) else none))
    (enough : items.length - offset < n) : walk fetch n (code offset) = some (items.drop offset) := by
  induction n generalizing offset with
  | zero => exact absurd enough (Nat.not_lt_zero _)
  | succ n ih =>
    have size : (page items limit offset).length = min limit (items.length - offset) := by
      rw [page, List.length_take, List.length_drop]
    rw [walk, serves]
    by_cases more : offset + (page items limit offset).length < items.length
    · have rest : walk fetch n (code (offset + (page items limit offset).length)) =
          some (items.drop (offset + (page items limit offset).length)) := ih (by omega)
      have full : (page items limit offset).length = limit := by omega
      simp only [more, if_true, rest, Option.bind_eq_bind, Option.bind_some, pure]
      rw [full, ← List.drop_drop, page, List.take_append_drop]
    · simp only [more, if_false, Option.bind_eq_bind, Option.bind_some, pure]
      rw [page, List.take_of_length_le]
      rw [List.length_drop]
      omega

theorem page_append (items : List ρ) (m n offset : Nat) :
    page items m offset ++ page items n (offset + m) = page items (m + n) offset := by
  rw [page, page, page, List.take_add, List.drop_drop]

structure Serves {γ : Type} (fetch : Nat → Option γ → List ρ × Option γ) (items : List ρ)
    (position : Option γ → Nat) : Prop where
  start : position none = 0
  rows : ∀ n c, 0 < n → (fetch n c).1 = page items (fetch n c).1.length (position c)
  some_rows : ∀ n c, 0 < n → position c < items.length → (fetch n c).1 ≠ []
  ends : ∀ n c, 0 < n → (fetch n c).2 = none → items.length ≤ position c + (fetch n c).1.length
  onward : ∀ n c, 0 < n → ∀ t, (fetch n c).2 = some t →
    position (some t) = position c + (fetch n c).1.length

end Paging
