import Mathlib.Logic.Function.Basic
import Plexichat.Library.Table

/-! A memo keeps answers of a function that may change under it. It is coherent
when every answer it keeps is the present one; keys that a change may touch
have to be dropped. -/
namespace Memo

universe u v

variable {κ : Type u} {ν : Type v}

def empty : κ → Option ν := fun _ => none

def store [DecidableEq κ] (memo : κ → Option ν) (k : κ) (answer : Option ν) : κ → Option ν :=
  match answer with
  | some v => Function.update memo k (some v)
  | none => memo

def drop (memo : κ → Option ν) (p : κ → Bool) : κ → Option ν :=
  fun k => if p k then none else memo k

def Coherent (memo truth : κ → Option ν) : Prop := ∀ k v, memo k = some v → truth k = some v

theorem coherent_empty (truth : κ → Option ν) : Coherent empty truth := by
  intro k v impossible
  cases impossible

theorem coherent_store [DecidableEq κ] {memo truth : κ → Option ν} (h : Coherent memo truth)
    (k : κ) : Coherent (store memo k (truth k)) truth := by
  intro j v kept
  cases answer : truth k with
  | none =>
    rw [answer] at kept
    exact h j v kept
  | some w =>
    rw [answer] at kept
    by_cases same : j = k
    · subst same
      rw [store, Function.update_self] at kept
      exact answer.trans kept
    · rw [store, Function.update_of_ne same] at kept
      exact h j v kept

theorem drop_eq_some {memo : κ → Option ν} {p : κ → Bool} {k : κ} {v : ν} :
    drop memo p k = some v ↔ p k = false ∧ memo k = some v := by
  unfold drop
  cases p k with
  | true => simp
  | false => simp

/-- After a change, what is still kept has to be as it was. -/
theorem coherent_change {memo memo' truth truth' : κ → Option ν} (h : Coherent memo truth)
    (kept : ∀ k v, memo' k = some v → memo k = some v ∧ (truth k = some v → truth' k = some v)) :
    Coherent memo' truth' := by
  intro k v stored
  obtain ⟨before, stands⟩ := kept k v stored
  exact stands (h k v before)

theorem answer_eq {memo truth : κ → Option ν} (h : Coherent memo truth) (k : κ) :
    (memo k).or (truth k) = truth k := by
  cases e : memo k with
  | none => rfl
  | some v => exact (h k v e).symm

end Memo

/-! A bounded store of values that expire. A row that is read or written becomes the youngest; the
oldest rows leave when there are too many. A property of all rows survives what only reads, expires
or evicts. -/
namespace Lru

universe u v

variable {κ : Type u} {ν : Type v}

structure Entry (κ : Type u) (ν : Type v) where
  key : κ
  expiry : Nat
  value : ν

abbrev Store (κ : Type u) (ν : Type v) := Table (Entry κ ν) Entry.key

variable [DecidableEq κ]

def drop (c : Store κ ν) (k : κ) : Store κ ν := c.delete fun e => e.key = k

def touch (c : Store κ ν) (e : Entry κ ν) : Store κ ν :=
  ⟨(drop c e.key).rows ++ [e], by
    rw [List.map_append]
    refine List.nodup_append'.mpr ⟨(drop c e.key).unique, by simp, ?_⟩
    intro k old new
    obtain ⟨r, kept, rfl⟩ := List.mem_map.mp old
    have other := (Table.mem_delete.mp (Table.mem_rows.mpr kept)).2
    rw [List.map_singleton, List.mem_singleton] at new
    simp [new] at other⟩

def get (now : Nat) (k : κ) (c : Store κ ν) : Option ν × Store κ ν :=
  match c.find k with
  | none => (none, c)
  | some e => if e.expiry ≤ now then (none, drop c k) else (some e.value, touch c e)

def put (capacity : Nat) (e : Entry κ ν) (c : Store κ ν) : Store κ ν :=
  let rows := (touch c e).rows
  ⟨rows.drop (rows.length - capacity),
    (touch c e).unique.sublist ((List.drop_sublist _ _).map Entry.key)⟩

def Holds (P : κ → ν → Prop) (c : Store κ ν) : Prop := ∀ e ∈ c, P e.key e.value

variable {P Q : κ → ν → Prop} {c : Store κ ν} {e r : Entry κ ν} {k : κ} {v : ν} {now : Nat}

theorem mem_touch : r ∈ touch c e ↔ r ∈ c ∧ r.key ≠ e.key ∨ r = e := by
  have kept : r ∈ (drop c e.key).rows ↔ r ∈ c ∧ r.key ≠ e.key := by
    rw [← Table.mem_rows, drop, Table.mem_delete, decide_eq_false_iff_not]
  rw [Table.mem_rows, touch, List.mem_append, kept, List.mem_singleton]

omit [DecidableEq κ] in
theorem holds_empty : Holds P (Table.empty : Store κ ν) := nofun

omit [DecidableEq κ] in
theorem Holds.imp (h : Holds P c) (imp : ∀ r ∈ c, P r.key r.value → Q r.key r.value) :
    Holds Q c := fun r member => imp r member (h r member)

theorem Holds.touch (h : Holds P c) (new : P e.key e.value) : Holds P (touch c e) := by
  intro r member
  rcases mem_touch.mp member with ⟨old, -⟩ | rfl
  · exact h r old
  · exact new

theorem Holds.put (h : Holds P c) (new : P e.key e.value) (capacity : Nat) :
    Holds P (put capacity e c) := by
  intro r member
  exact h.touch new r (List.mem_of_mem_drop member)

theorem get_eq_some (h : (get now k c).1 = some v) :
    ∃ e ∈ c, e.key = k ∧ e.value = v ∧ now < e.expiry := by
  unfold get at h
  cases found : c.find k with
  | none =>
    rw [found] at h
    cases h
  | some e =>
    obtain ⟨member, key⟩ := Table.find_eq_some.mp found
    simp only [found] at h
    split at h
    · cases h
    · rename_i fresh
      exact ⟨e, member, key, Option.some.inj h, Nat.lt_of_not_le fresh⟩

theorem mem_of_mem_get (member : r ∈ (get now k c).2) : r ∈ c := by
  unfold get at member
  cases found : c.find k with
  | none =>
    rw [found] at member
    exact member
  | some e =>
    simp only [found] at member
    split at member
    · exact (Table.mem_delete.mp member).1
    · rcases mem_touch.mp member with ⟨old, -⟩ | rfl
      · exact old
      · exact (Table.find_eq_some.mp found).1

end Lru
