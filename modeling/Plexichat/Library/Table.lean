import Mathlib.Data.List.Nodup

/-! Tables of rows with a primary key. Uniqueness of the key is part of the
type, so inserting a second row under a key is not possible and a lookup has one
answer. An update must leave the key alone. -/

universe u v

structure Table (ρ : Type u) {κ : Type v} (key : ρ → κ) where
  rows : List ρ
  unique : (rows.map key).Nodup

namespace Table

variable {ρ : Type u} {κ : Type v} {key : ρ → κ}

def empty : Table ρ key := ⟨[], List.nodup_nil⟩

instance : Membership ρ (Table ρ key) := ⟨fun t r => r ∈ t.rows⟩

def find [DecidableEq κ] (t : Table ρ key) (k : κ) : Option ρ := t.rows.find? fun r => key r = k

/-- A row under a key in use is an integrity error. -/
def insert [DecidableEq κ] (t : Table ρ key) (r : ρ) : Option (Table ρ key) :=
  if h : key r ∈ t.rows.map key then none
  else some ⟨t.rows ++ [r], by
    rw [List.map_append]
    exact List.nodup_append'.mpr ⟨t.unique, by simp, by simpa using h⟩⟩

def update (t : Table ρ key) (p : ρ → Bool) (f : ρ → ρ) (same : ∀ r, key (f r) = key r) :
    Table ρ key :=
  ⟨t.rows.map fun r => if p r then f r else r, by
    have keys : (t.rows.map fun r => if p r then f r else r).map key = t.rows.map key := by
      rw [List.map_map]
      apply List.map_congr_left
      intro r _
      simp only [Function.comp]
      split
      · exact same r
      · rfl
    exact keys ▸ t.unique⟩

def delete (t : Table ρ key) (p : ρ → Bool) : Table ρ key :=
  ⟨t.rows.filter fun r => !p r, t.unique.sublist (List.filter_sublist.map key)⟩

/-- Rows that move to new keys one after the other, each past those that have moved and
those that have not. -/
def moveRows [DecidableEq κ] (key : ρ → κ) (f : ρ → ρ) (moved : List ρ) : List ρ → Option (List ρ)
  | [] => some moved
  | r :: rest =>
    if key (f r) ∈ (moved ++ rest).map key then none
    else moveRows key f (moved ++ [f r]) rest

theorem moveRows_eq_some [DecidableEq κ] {f : ρ → ρ} {moved rest rows : List ρ}
    (h : moveRows key f moved rest = some rows) : rows = moved ++ rest.map f := by
  induction rest generalizing moved with
  | nil =>
    cases h
    simp
  | cons r rest ih =>
    rw [moveRows] at h
    split at h
    · cases h
    · rw [ih h, List.map_cons, List.append_assoc]
      rfl

theorem moveRows_unique [DecidableEq κ] {f : ρ → ρ} {moved rest rows : List ρ}
    (unique : ((moved ++ rest).map key).Nodup) (h : moveRows key f moved rest = some rows) :
    (rows.map key).Nodup := by
  induction rest generalizing moved with
  | nil =>
    cases h
    simpa using unique
  | cons r rest ih =>
    rw [moveRows] at h
    split at h
    · cases h
    · rename_i free
      apply ih _ h
      have others : ((moved ++ rest).map key).Nodup :=
        unique.sublist (((List.sublist_cons_self r rest).append_left moved).map key)
      have moved_first : (moved ++ [f r] ++ rest).Perm (f r :: (moved ++ rest)) := by
        rw [List.append_assoc]
        exact List.perm_middle
      exact ((moved_first.map key).nodup_iff).mpr (List.nodup_cons.mpr ⟨free, others⟩)

/-- An update of the key, row by row in the order of the table. A row that meets one which has
not moved yet is an integrity error. -/
def rewrite [DecidableEq κ] (t : Table ρ key) (f : ρ → ρ) : Option (Table ρ key) :=
  match h : moveRows key f [] t.rows with
  | none => none
  | some rows => some ⟨rows, by
    have start : (([] ++ t.rows).map key).Nodup := t.unique
    exact moveRows_unique start h⟩

def insertOrIgnore [DecidableEq κ] (t : Table ρ key) (r : ρ) : Table ρ key := (t.insert r).getD t

/-- INSERT with ON CONFLICT DO UPDATE: `merge` gives the new row from the old one. -/
def upsert [DecidableEq κ] (t : Table ρ key) (r : ρ) (merge : ρ → ρ)
    (same : ∀ q, key (merge q) = key q) : Table ρ key :=
  (t.insert r).getD (t.update (fun q => key q = key r) merge same)

theorem ext_rows {t s : Table ρ key} (same : t.rows = s.rows) : t = s := by
  cases t
  cases s
  exact mk.injEq .. ▸ same

theorem mem_rows {t : Table ρ key} {r : ρ} : r ∈ t ↔ r ∈ t.rows := Iff.rfl

theorem eq_of_key {t : Table ρ key} {r q : ρ} (hr : r ∈ t) (hq : q ∈ t) (h : key r = key q) :
    r = q := List.inj_on_of_nodup_map t.unique hr hq h

variable [DecidableEq κ]

theorem find_eq_some {t : Table ρ key} {k : κ} {r : ρ} : t.find k = some r ↔ r ∈ t ∧ key r = k := by
  constructor
  · intro h
    have matches_key := List.find?_some h
    exact ⟨List.mem_of_find?_eq_some h, by simpa using matches_key⟩
  · intro h
    obtain ⟨member, rfl⟩ := h
    cases found : t.find (key r) with
    | none =>
      have absent := List.find?_eq_none.mp found r member
      simp at absent
    | some q =>
      have matches_key := List.find?_some found
      have other : q ∈ t := List.mem_of_find?_eq_some found
      exact congrArg some (eq_of_key other member (by simpa using matches_key))

theorem find_eq_none {t : Table ρ key} {k : κ} : t.find k = none ↔ ∀ r ∈ t, key r ≠ k := by
  simp [find, mem_rows]

theorem find_isSome {t : Table ρ key} {k : κ} : (t.find k).isSome ↔ ∃ r ∈ t, key r = k := by
  simp [find, mem_rows]

theorem insert_eq_some {t t' : Table ρ key} {r : ρ} (h : t.insert r = some t') :
    t.find (key r) = none ∧ t'.rows = t.rows ++ [r] := by
  unfold insert at h
  split at h
  · cases h
  · rename_i fresh
    cases h
    refine ⟨find_eq_none.mpr ?_, rfl⟩
    intro q hq same
    exact fresh (List.mem_map.mpr ⟨q, hq, same⟩)

theorem insert_of_fresh {t : Table ρ key} {r : ρ} (h : t.find (key r) = none) :
    ∃ t', t.insert r = some t' := by
  have fresh : key r ∉ t.rows.map key := by
    intro used
    obtain ⟨q, hq, same⟩ := List.mem_map.mp used
    exact find_eq_none.mp h q hq same
  exact ⟨_, dif_neg fresh⟩

theorem insert_of_used {t : Table ρ key} {r q : ρ} (h : t.find (key r) = some q) :
    t.insert r = none := by
  cases inserted : t.insert r with
  | none => rfl
  | some t' =>
    rw [(insert_eq_some inserted).1] at h
    cases h

theorem mem_insert {t t' : Table ρ key} {r q : ρ} (h : t.insert r = some t') :
    q ∈ t' ↔ q ∈ t ∨ q = r := by
  simp [mem_rows, (insert_eq_some h).2]

theorem find_insert {t t' : Table ρ key} {r : ρ} (h : t.insert r = some t') (k : κ) :
    t'.find k = if key r = k then some r else t.find k := by
  obtain ⟨fresh, rows⟩ := insert_eq_some h
  unfold find at fresh ⊢
  rw [rows, List.find?_append]
  split
  · rename_i same
    subst same
    simp [fresh]
  · rename_i apart
    simp [apart]

theorem find_inserted {t t' : Table ρ key} {r : ρ} (h : t.insert r = some t') :
    t'.find (key r) = some r := by
  rw [find_insert h, if_pos rfl]

theorem rows_insertOrIgnore {t : Table ρ key} {r : ρ} (fresh : t.find (key r) = none) :
    (t.insertOrIgnore r).rows = t.rows ++ [r] := by
  obtain ⟨t', inserted⟩ := insert_of_fresh fresh
  rw [insertOrIgnore, inserted]
  exact (insert_eq_some inserted).2

theorem find_append {t t' : Table ρ key} {r : ρ} (rows : t'.rows = t.rows ++ [r]) {k : κ}
    (other : key r ≠ k) (absent : t.find k = none) : t'.find k = none := by
  rw [find_eq_none] at absent ⊢
  intro q member
  rw [mem_rows, rows] at member
  rcases List.mem_append.mp member with old | new
  · exact absent q old
  · exact List.mem_singleton.mp new ▸ other

omit [DecidableEq κ] in
theorem mem_update {t : Table ρ key} {p : ρ → Bool} {f : ρ → ρ} {same} {q : ρ} :
    q ∈ t.update p f same ↔ ∃ r ∈ t, q = if p r then f r else r := by
  simp only [mem_rows, update, List.mem_map]
  exact exists_congr fun r => and_congr_right fun _ => eq_comm

omit [DecidableEq κ] in
theorem update_eq_iff {t : Table ρ key} {p q : ρ → Bool} {f g : ρ → ρ} {same same'} :
    t.update p f same = t.update q g same' ↔
      ∀ r ∈ t, (if p r then f r else r) = if q r then g r else r := by
  refine Iff.trans ⟨?_, ext_rows⟩ List.map_inj_left
  exact fun equal => congrArg rows equal

theorem find_update (t : Table ρ key) (p : ρ → Bool) (f : ρ → ρ) (same) (k : κ) :
    (t.update p f same).find k = (t.find k).map fun r => if p r then f r else r := by
  simp only [find, update, List.find?_map]
  congr 2
  funext r
  simp only [Function.comp]
  split
  · rw [same r]
  · rfl

theorem rewrite_eq_some {t t' : Table ρ key} {f : ρ → ρ} (h : t.rewrite f = some t') :
    t'.rows = t.rows.map f := by
  unfold rewrite at h
  split at h
  · cases h
  · rename_i rows moved
    cases h
    simpa using moveRows_eq_some moved

theorem mem_rewrite {t t' : Table ρ key} {f : ρ → ρ} (h : t.rewrite f = some t') {q : ρ} :
    q ∈ t' ↔ ∃ r ∈ t, f r = q := by
  rw [mem_rows, rewrite_eq_some h, List.mem_map]
  rfl

theorem mem_upsert_of_fresh {t : Table ρ key} {r : ρ} (fresh : t.find (key r) = none) {merge : ρ → ρ}
    {same} {q : ρ} : q ∈ t.upsert r merge same ↔ q ∈ t ∨ q = r := by
  obtain ⟨t', inserted⟩ := insert_of_fresh fresh
  rw [upsert, inserted, Option.getD_some]
  exact mem_insert inserted

theorem find_upsert (t : Table ρ key) (r : ρ) (merge : ρ → ρ) (same) (k : κ) :
    (t.upsert r merge same).find k =
      if key r = k then some (((t.find k).map merge).getD r) else t.find k := by
  unfold upsert
  cases free : t.find (key r) with
  | none =>
    obtain ⟨t', inserted⟩ := insert_of_fresh free
    rw [inserted, Option.getD_some, find_insert inserted]
    split
    · rename_i here
      rw [← here, free]
      rfl
    · rfl
  | some q =>
    rw [insert_of_used free, Option.getD_none, find_update]
    have key_q := (find_eq_some.mp free).2
    split
    · rename_i here
      rw [← here, free]
      simp [key_q]
    · rename_i apart
      cases found : t.find k with
      | none => rfl
      | some p =>
        have key_p := (find_eq_some.mp found).2
        simp [key_p, Ne.symm apart]

omit [DecidableEq κ] in
theorem mem_delete {t : Table ρ key} {p : ρ → Bool} {q : ρ} :
    q ∈ t.delete p ↔ q ∈ t ∧ p q = false := by
  simp [mem_rows, delete]

omit [DecidableEq κ] in
theorem delete_of_none {t : Table ρ key} {p : ρ → Bool} (none : ∀ r ∈ t, p r = false) :
    t.delete p = t := by
  have rows : t.rows.filter (fun r => !p r) = t.rows :=
    List.filter_eq_self.mpr fun r member => by simp [none r member]
  obtain ⟨all, unique⟩ := t
  unfold delete
  congr

theorem length_delete (t : Table ρ key) (k : κ) : (t.delete fun r => key r = k).rows.length +
    (if (t.find k).isSome then 1 else 0) = t.rows.length := by
  have split : t.rows.length = (t.rows.filter fun r => !decide (key r = k)).length +
      (t.rows.filter fun r => decide (key r = k)).length := by
    simp only [← List.countP_eq_length_filter]
    rw [List.length_eq_countP_add_countP fun r => decide (key r = k), Nat.add_comm]
    simp
  have one : (t.rows.filter fun r => decide (key r = k)).length =
      if (t.find k).isSome then 1 else 0 := by
    have counted : (t.rows.filter fun r => decide (key r = k)).length = (t.rows.map key).count k := by
      rw [← List.countP_eq_length_filter, List.count, List.countP_map]
      rfl
    rw [counted]
    split
    · rename_i there
      obtain ⟨r, member, same⟩ := find_isSome.mp there
      exact List.count_eq_one_of_mem t.unique (same ▸ List.mem_map_of_mem member)
    · rename_i absent
      apply List.count_eq_zero.mpr
      intro inside
      obtain ⟨r, member, same⟩ := List.mem_map.mp inside
      exact absent (find_isSome.mpr ⟨r, member, same⟩)
  rw [split, one]
  rfl

theorem find_delete (t : Table ρ key) (p : ρ → Bool) (k : κ) :
    (t.delete p).find k = (t.find k).filter fun r => !p r := by
  apply Option.ext
  intro r
  rw [find_eq_some, mem_delete, Option.filter_eq_some_iff, find_eq_some]
  simp only [Bool.not_eq_true']
  exact and_right_comm

end Table
