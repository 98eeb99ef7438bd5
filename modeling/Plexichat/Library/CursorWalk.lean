import Mathlib.Data.List.Perm.Basic
import Mathlib.Data.List.Nodup

/-! Rows in one order, read page by page with a cursor on another key: a page begins below the
key of the last row of the page before it. Cursor zero asks for the first page. -/

universe u

namespace CursorWalk

variable {ρ : Type u}

def page (key : ρ → Nat) (rows : List ρ) (limit cursor : Nat) : List ρ :=
  (rows.filter fun r => cursor = 0 || key r < cursor).take limit

inductive Walk (key : ρ → Nat) (rows : List ρ) (limit : Nat) : Nat → List ρ → Prop
  | stop {cursor : Nat} (empty : page key rows limit cursor = []) : Walk key rows limit cursor []
  | next {cursor : Nat} {r : ρ} {later : List ρ}
      (last : (page key rows limit cursor).getLast? = some r)
      (walk : Walk key rows limit (key r) later) :
      Walk key rows limit cursor (page key rows limit cursor ++ later)

def VisitsOnce (key : ρ → Nat) (rows : List ρ) (limit : Nat) : Prop :=
  ∃ visited, Walk key rows limit 0 visited ∧ visited.Perm rows

/-- The row at the end of each page, and the last one of all, has a smaller key than every row
before it and a greater one than every row after it. -/
def PagesSeparate (key : ρ → Nat) (rows : List ρ) (limit : Nat) : Prop :=
  ∀ before r after, rows = before ++ r :: after → (limit ∣ before.length + 1 ∨ after = []) →
    (∀ q ∈ before, key r < key q) ∧ ∀ q ∈ after, key q < key r

variable {key : ρ → Nat} {rows visited : List ρ} {limit cursor : Nat}

theorem page_first : page key rows limit 0 = rows.take limit := by
  simp [page]

theorem mem_page {r : ρ} (h : r ∈ page key rows limit cursor) (started : cursor ≠ 0) :
    r ∈ rows ∧ key r < cursor := by
  simpa [started] using List.mem_filter.mp (List.mem_of_mem_take h)

theorem page_of_rest {todo : List ρ}
    (rest : (rows.filter fun r => cursor = 0 || key r < cursor) = todo) :
    page key rows limit cursor = todo.take limit := by
  rw [page, rest]

theorem filter_separated {before after : List ρ} {r : ρ} (positive : key r ≠ 0)
    (above : ∀ q ∈ before, key r < key q) (below : ∀ q ∈ after, key q < key r) :
    ((before ++ r :: after).filter fun q => key r = 0 || key q < key r) = after := by
  have early : (before.filter fun q => key r = 0 || key q < key r) = [] := by
    apply List.filter_eq_nil_iff.mpr
    intro q hq
    have higher := above q hq
    simp [positive, Nat.le_of_lt higher]
  have late : (after.filter fun q => key r = 0 || key q < key r) = after := by
    apply List.filter_eq_self.mpr
    intro q hq
    simp [below q hq]
  rw [List.filter_append, early, List.filter_cons, late]
  simp [positive]

theorem walk_of_separate (positive : 0 < limit) (nonzero : ∀ r ∈ rows, key r ≠ 0)
    (separate : PagesSeparate key rows limit) {met todo : List ρ} (whole : rows = met ++ todo)
    (rest : (rows.filter fun r => cursor = 0 || key r < cursor) = todo)
    (full : limit ∣ met.length ∨ todo = []) : Walk key rows limit cursor todo := by
  induction size : todo.length using Nat.strongRecOn generalizing met todo cursor with
  | ind n ih =>
    have here : page key rows limit cursor = todo.take limit := page_of_rest rest
    rcases List.eq_nil_or_concat (todo.take limit) with empty | ends
    · have done : todo = [] := by
        rcases List.take_eq_nil_iff.mp empty with zero | none
        · exact absurd zero (Nat.ne_of_gt positive)
        · exact none
      subst done
      exact .stop (here.trans (by simp))
    · obtain ⟨front, r, pieces⟩ := ends
      rw [List.concat_eq_append] at pieces
      have parts : todo = front ++ r :: todo.drop limit := by
        have joined := List.take_append_drop limit todo
        rw [pieces, List.append_assoc] at joined
        exact joined.symm
      have split : rows = (met ++ front) ++ r :: todo.drop limit := by
        rw [whole, List.append_assoc, ← parts]
      have shape : limit ∣ met.length + front.length + 1 ∨ todo.drop limit = [] := by
        have taken := congrArg List.length pieces
        rw [List.length_take, List.length_append, List.length_singleton] at taken
        rcases Nat.lt_or_ge todo.length limit with short | long
        · exact .inr (List.drop_eq_nil_of_le (Nat.le_of_lt short))
        · rw [Nat.min_eq_left long] at taken
          left
          rw [Nat.add_assoc, ← taken]
          have many := full.resolve_right (by rintro rfl; simp at long; omega)
          exact Nat.dvd_add many (Nat.dvd_refl limit)
      have ordered := separate (met ++ front) r (todo.drop limit) split (by
        rwa [List.length_append])
      have member : r ∈ rows := by
        rw [split]
        exact List.mem_append_right _ List.mem_cons_self
      have below : (rows.filter fun q => key r = 0 || key q < key r) = todo.drop limit := by
        rw [split]
        exact filter_separated (nonzero r member) ordered.1 ordered.2
      have fewer : (todo.drop limit).length < n := by
        have taken := congrArg List.length parts
        rw [List.length_append, List.length_cons] at taken
        omega
      have onwards : Walk key rows limit (key r) (todo.drop limit) := by
        refine ih _ fewer (split.trans (by simp) : rows = (met ++ front ++ [r]) ++ _) below ?_ rfl
        simpa [Nat.add_assoc] using shape
      have last : (page key rows limit cursor).getLast? = some r := by
        rw [here, pieces, List.getLast?_concat]
      have walk := Walk.next last onwards
      rwa [here, List.take_append_drop] at walk

theorem head_mem_of_walk (walk : Walk key rows limit 0 visited) (positive : 0 < limit) {first : ρ}
    {more : List ρ} (starts : rows = first :: more) : first ∈ visited := by
  have there : first ∈ page key rows limit 0 := by
    obtain ⟨n, rfl⟩ := Nat.exists_eq_succ_of_ne_zero (Nat.ne_of_gt positive)
    rw [page_first, starts, List.take_succ_cons]
    exact List.mem_cons_self
  cases walk with
  | stop empty =>
    rw [empty] at there
    cases there
  | next last later => exact List.mem_append_left _ there

/-- A walk stays below its cursor, unless it comes back to the first row. -/
theorem walk_below (walk : Walk key rows limit cursor visited) (started : cursor ≠ 0)
    (positive : 0 < limit) :
    (∀ q ∈ visited, key q < cursor) ∨ ∀ first more, rows = first :: more → first ∈ visited := by
  induction walk with
  | stop empty => exact .inl nofun
  | @next cursor r later last walk ih =>
    have smaller := (mem_page (List.mem_of_getLast? last) started).2
    by_cases zero : key r = 0
    · rw [zero] at walk
      exact .inr fun first more starts =>
        List.mem_append_right _ (head_mem_of_walk walk positive starts)
    · cases ih zero with
      | inl below =>
        left
        intro q hq
        cases List.mem_append.mp hq with
        | inl here => exact (mem_page here started).2
        | inr there => exact Nat.lt_trans (below q there) smaller
      | inr again =>
        exact .inr fun first more starts => List.mem_append_right _ (again first more starts)

theorem page_end (unique : (rows.map key).Nodup) (positive : 0 < limit) {front rest later : List ρ}
    {r : ρ} (whole : rows = front ++ r :: rest) (walk : Walk key rows limit (key r) later)
    (perm : later.Perm rest) :
    key r ≠ 0 ∧ (∀ q ∈ front, key r < key q) ∧ ∀ q ∈ rest, key q < key r := by
  have apart : ∀ q ∈ front ++ [r], q ∉ later := by
    intro q hq met
    have distinct : (front ++ [r] ++ rest).Nodup := by
      have nodup := List.Nodup.of_map key unique
      rw [whole] at nodup
      simpa using nodup
    exact (List.nodup_append'.mp distinct).2.2 hq (perm.mem_iff.mp met)
  have first : ∃ q more, rows = q :: more ∧ q ∈ front ++ [r] := by
    cases front with
    | nil => exact ⟨r, rest, whole, by simp⟩
    | cons q front => exact ⟨q, front ++ r :: rest, whole, by simp⟩
  obtain ⟨head, more, starts, early⟩ := first
  have nonzero : key r ≠ 0 := by
    intro zero
    rw [zero] at walk
    exact apart head early (head_mem_of_walk walk positive starts)
  refine ⟨nonzero, ?_, ?_⟩
  · intro q hq
    have other : key q ≠ key r := by
      intro same
      rw [whole, List.map_append, List.map_cons] at unique
      have disjoint := (List.nodup_append'.mp unique).2.2
      exact disjoint (List.mem_map_of_mem hq) (same ▸ List.mem_cons_self)
    by_contra low
    -- the first row below the cursor is one that has been met
    have below : q ∈ front.filter fun q => key r = 0 || key q < key r := by
      refine List.mem_filter.mpr ⟨hq, ?_⟩
      simp [nonzero, Nat.lt_of_le_of_ne (Nat.le_of_not_lt low) other]
    obtain ⟨again, others, found⟩ := List.exists_cons_of_ne_nil (List.ne_nil_of_mem below)
    have listed : again ∈ front := List.mem_of_mem_filter (found ▸ List.mem_cons_self)
    have paged : again ∈ page key rows limit (key r) := by
      obtain ⟨n, rfl⟩ := Nat.exists_eq_succ_of_ne_zero (Nat.ne_of_gt positive)
      rw [page, whole, List.filter_append, found, List.cons_append, List.take_succ_cons]
      exact List.mem_cons_self
    have visited : again ∈ later := by
      cases walk with
      | stop empty =>
        rw [empty] at paged
        cases paged
      | next last walk => exact List.mem_append_left _ paged
    exact apart again (List.mem_append_left _ listed) visited
  · intro q hq
    cases walk_below walk nonzero positive with
    | inl below => exact below q (perm.mem_iff.mpr hq)
    | inr again => exact absurd (again head more starts) (apart head early)

theorem cut_cases {front rest before after : List ρ} {r q : ρ}
    (h : front ++ r :: rest = before ++ q :: after) :
    (before = front ∧ q = r ∧ after = rest) ∨
      (∃ between, rest = between ++ q :: after ∧ before = front ++ r :: between) ∨
      ∃ between, front = before ++ q :: between ∧ after = between ++ r :: rest := by
  rcases List.append_eq_append_iff.mp h with ⟨a, same, tail⟩ | ⟨c, same, tail⟩
  · cases a with
    | nil =>
      injection tail with head tail
      exact .inl ⟨by simpa using same, head.symm, tail.symm⟩
    | cons x between =>
      injection tail with head tail
      exact .inr (.inl ⟨between, tail, by rw [same, head]⟩)
  · cases c with
    | nil =>
      injection tail with head tail
      exact .inl ⟨by simpa using same.symm, head, tail⟩
    | cons x between =>
      injection tail with head tail
      exact .inr (.inr ⟨between, by rw [same, head], tail⟩)

theorem separate_of_walk (unique : (rows.map key).Nodup) (positive : 0 < limit)
    {met todo later : List ρ} (whole : rows = met ++ todo)
    (rest : (rows.filter fun r => cursor = 0 || key r < cursor) = todo)
    (full : limit ∣ met.length ∨ todo = []) (walk : Walk key rows limit cursor later)
    (perm : later.Perm todo) {before after : List ρ} {q : ρ} (cut : todo = before ++ q :: after)
    (ends : limit ∣ met.length + before.length + 1 ∨ after = []) :
    key q ≠ 0 ∧ (∀ x ∈ met ++ before, key q < key x) ∧ ∀ x ∈ after, key x < key q := by
  induction walk generalizing met todo before with
  | stop empty =>
    rw [List.nil_perm.mp perm] at cut
    simp at cut
  | @next cursor r later last walk ih =>
    have here : page key rows limit cursor = todo.take limit := page_of_rest rest
    obtain ⟨front, pieces⟩ := List.getLast?_eq_some_iff.mp last
    rw [here] at pieces perm
    have joined := List.take_append_drop limit todo
    have remaining : later.Perm (todo.drop limit) := by
      apply (List.perm_append_left_iff (todo.take limit)).mp
      rw [joined]
      exact perm
    rw [pieces, List.append_assoc] at joined
    have parts : todo = front ++ r :: todo.drop limit := joined.symm
    have split : rows = (met ++ front) ++ r :: todo.drop limit := by
      rw [whole, List.append_assoc, ← parts]
    have ended := page_end unique positive split walk remaining
    have size : front.length + 1 = min limit todo.length := by
      have taken := congrArg List.length pieces
      rwa [List.length_take, List.length_append, List.length_singleton, eq_comm] at taken
    have many : limit ∣ met.length := full.resolve_right (by rw [cut]; simp)
    rcases cut_cases (parts.symm.trans cut) with same | later_page | within
    · obtain ⟨rfl, rfl, rfl⟩ := same
      exact ended
    · obtain ⟨between, tail, rfl⟩ := later_page
      have long : front.length + 1 = limit := by
        have beyond : limit < todo.length := by
          have some_left := congrArg List.length tail
          rw [List.length_drop, List.length_append, List.length_cons] at some_left
          omega
        omega
      have onwards : rows = (met ++ front ++ [r]) ++ todo.drop limit := by simpa using split
      have below : (rows.filter fun q => key r = 0 || key q < key r) = todo.drop limit := by
        rw [split]
        exact filter_separated ended.1 ended.2.1 ended.2.2
      have whole_pages : limit ∣ (met ++ front ++ [r]).length := by
        have shape : (met ++ front ++ [r]).length = met.length + limit := by simp; omega
        rw [shape]
        exact Nat.dvd_add many (Nat.dvd_refl limit)
      have found := ih onwards below (.inl whole_pages) remaining tail (by
        simpa [Nat.add_assoc, Nat.add_comm, Nat.add_left_comm] using ends)
      simpa [List.append_assoc] using found
    · -- a row inside a page ends no page
      obtain ⟨between, rfl, rfl⟩ := within
      rcases ends with divides | none
      · have short : limit ∣ before.length + 1 := by
          rw [Nat.add_assoc] at divides
          exact (Nat.dvd_add_right many).mp divides
        have least := Nat.le_of_dvd (Nat.succ_pos _) short
        rw [List.length_append, List.length_cons] at size
        omega
      · simp at none

/-- Following the pages meets every row once if and only if each page end separates the rows in
the order of the keys. -/
theorem visitsOnce_iff (unique : (rows.map key).Nodup) :
    VisitsOnce key rows limit ↔
      rows = [] ∨ 0 < limit ∧ (∀ r ∈ rows, key r ≠ 0) ∧ PagesSeparate key rows limit := by
  have all : (rows.filter fun r => (0 : Nat) = 0 || key r < 0) = rows := by simp
  constructor
  · intro once
    obtain ⟨visited, walk, perm⟩ := once
    by_cases empty : rows = []
    · exact .inl empty
    · have positive : 0 < limit := by
        apply Nat.pos_of_ne_zero
        intro zero
        subst zero
        cases walk with
        | stop none => exact empty (List.nil_perm.mp perm)
        | next last _ => simp [page] at last
      have ends := fun before q after =>
        @separate_of_walk _ _ _ _ _ unique positive [] rows visited rfl all (.inl (by simp)) walk
          perm before after q
      refine .inr ⟨positive, ?_, ?_⟩
      · intro r hr
        obtain ⟨front, last, whole⟩ := (List.eq_nil_or_concat rows).resolve_left empty
        rw [List.concat_eq_append] at whole
        have final := ends front last [] whole (.inr rfl)
        rw [whole] at hr
        cases List.mem_append.mp hr with
        | inl early => exact Nat.ne_of_gt (Nat.lt_of_le_of_lt (Nat.zero_le _) (final.2.1 r early))
        | inr here => exact List.mem_singleton.mp here ▸ final.1
      · intro before r after cut divides
        have final := ends before r after cut (by simpa using divides)
        exact final.2
  · intro condition
    rcases condition with empty | ⟨positive, nonzero, separate⟩
    · subst empty
      exact ⟨[], .stop (by simp [page]), List.Perm.refl _⟩
    · exact ⟨rows, walk_of_separate positive nonzero separate (List.nil_append rows).symm all
        (.inl (by simp)), List.Perm.refl _⟩

end CursorWalk
