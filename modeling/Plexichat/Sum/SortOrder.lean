import Mathlib.Data.List.Lex
import Mathlib.Data.List.Pairwise
import Mathlib.Data.List.Sort
import Mathlib.Data.Prod.Lex
import Plexichat.Library.Checks
import Plexichat.Library.Double
import Plexichat.Sum.Protection

/-! The order that sort_range gives to the rows of its range, from the exact keys: `sort_key`,
`directed_key` and the comparison of their tuples. A row of the range is one that has a cell. -/
namespace Plexichat.Sum.SortOrder

open Checks

/-- The value of a key cell; an error of its formula and a missing cell are None. -/
inductive KeyValue where
  | blank
  | bool (b : Bool)
  | int (n : Int)
  | float (x : Double)
  | str (codes : List Nat)
  /-- Any other value, as `str` writes it. -/
  | other (codes : List Nat)

/-- What the sort has of the file and the language: the value that the resolver and the evaluator
find in a cell, none when they raise, and `str.lower`. -/
structure Reading where
  value : File → Nat → Nat → Nat → Option KeyValue
  lower : List Nat → List Nat

inductive Failure where
  | evaluation
  /-- `float(value)` -/
  | overflow
  /-- `chr` of a negative number -/
  | codePoint
  | integrity
  deriving DecidableEq

structure KeyTuple where
  group : Nat
  number : Double
  text : List Nat
  row : Nat
  deriving DecidableEq

/-- `a < b` of two tuples: the first place where they differ decides. -/
def KeyTuple.lt (a b : KeyTuple) : Bool :=
  if a.group ≠ b.group then a.group < b.group
  else if !a.number.alike b.number then a.number.lt b.number
  else if a.text ≠ b.text then a.text < b.text
  else a.row < b.row

section Keys

variable (reading : Reading) (s : SortRange) (file : File)

def sortKey (row : Nat) : Except Failure KeyTuple :=
  match reading.value file s.sheet row s.column with
  | none => .error .evaluation
  | some .blank => .ok ⟨2, .finite 0, [], row⟩
  | some (.bool b) => .ok ⟨0, .finite (if b then 1 else 0), [], row⟩
  | some (.int n) => (found (Double.ofInt n) .overflow).map fun number => ⟨0, number, [], row⟩
  | some (.float x) => .ok ⟨0, x, [], row⟩
  | some (.str []) => .ok ⟨2, .finite 0, [], row⟩
  | some (.str codes) => .ok ⟨1, .finite 0, reading.lower codes, row⟩
  | some (.other codes) => .ok ⟨1, .finite 0, reading.lower codes, row⟩

/-- `chr(0xFFFF - ord(c))` -/
def inverted (text : List Nat) : Except Failure (List Nat) :=
  if ∀ c ∈ text, c ≤ 0xFFFF then .ok (text.map (0xFFFF - ·)) else .error .codePoint

def directedKey (row : Nat) : Except Failure KeyTuple := do
  let key ← sortKey reading s file row
  if s.descending then
    if key.group = 0 then return ⟨key.group, key.number.neg, [], key.row⟩
    else if key.group = 1 then
      let text ← inverted key.text
      return ⟨key.group, .finite 0, text, key.row⟩
    else return ⟨key.group, .finite 0, [], key.row⟩
  else return key

def sortedRows : Except Failure (List Nat) := do
  let keys ← (s.rowKeys file).mapM (directedKey reading s file)
  return (keys.insertionSort fun a b => !b.lt a).map KeyTuple.row

def target (order : List Nat) : List Cell :=
  order.zipIdx.flatMap fun placed =>
    ((s.cells file).filter fun c => c.row = placed.1).map fun c =>
      { c with row := s.startRow + placed.2 }

def sortCells : Except Failure (Table Cell Cell.key) :=
  if (s.rowKeys file).length < 2 then .ok file.cells
  else do
    let order ← sortedRows reading s file
    found (insertAll (file.cells.delete s.contains) (target s file order)) .integrity

end Keys

def Ahead (a b : KeyTuple) : Prop :=
  a.number.lt b.number = true ∨ a.number.eq b.number = true ∧ a.text < b.text

def Level (a b : KeyTuple) : Prop := a.number.eq b.number = true ∧ a.text = b.text

/-- The row of `a` comes before that of `b`: numbers, texts, blanks; in a group, in the direction
of the sort; and where the keys are equal, in the order they had. -/
def Before (descending : Bool) (a b : KeyTuple) : Prop :=
  a.group < b.group ∨ a.group = b.group ∧
    ((if descending then Ahead b a else Ahead a b) ∨ Level a b ∧ a.row < b.row)

section Sorted

variable (reading : Reading) (s : SortRange) (file : File)

def Precedes (row row' : Nat) : Prop :=
  ∃ a b, sortKey reading s file row = .ok a ∧ sortKey reading s file row' = .ok b ∧
    Before s.descending a b

/-- The cells of each row are together in a row of the range, from its top and in the order. -/
def Placed (order : List Nat) (cells : Table Cell Cell.key) : Prop :=
  ∀ q, q ∈ cells ↔ (q ∈ file.cells ∧ s.contains q = false) ∨
    ∃ c ∈ file.cells, s.contains c = true ∧ ∃ offset, order[offset]? = some c.row ∧
      { c with row := s.startRow + offset } = q

def Sorts : Prop :=
  ((s.rowKeys file).length < 2 ∧ sortCells reading s file = .ok file.cells) ∨
  ∃ order cells, sortedRows reading s file = .ok order ∧ sortCells reading s file = .ok cells ∧
    order.Perm (s.rowKeys file) ∧ order.Pairwise (Precedes reading s file) ∧
    Placed s file order cells

end Sorted

def KeyValue.number : KeyValue → Option Double
  | .bool b => some (.finite (if b then 1 else 0))
  | .int n => Double.ofInt n
  | .float x => some x
  | _ => none

def KeyValue.text (lower : List Nat → List Nat) : KeyValue → Option (List Nat)
  | .str [] => none
  | .str codes => some (lower codes)
  | .other codes => some (lower codes)
  | _ => none

/-- `float(value)` does not overflow. -/
def KeyValue.fits : KeyValue → Bool
  | .int n => (Double.ofInt n).isSome
  | _ => true

/-- A key can be made of the value: an integer has a float, and the code points of a text that is
sorted downwards are in the basic plane. -/
def KeyValue.Usable (lower : List Nat → List Nat) (descending : Bool) (v : KeyValue) : Prop :=
  v.fits = true ∧
    (descending = true → ∀ text, v.text lower = some text → ∀ c ∈ text, c ≤ 0xFFFF)

/-- The tuples order two values: numbers have no NaN among them, and of two texts that are sorted
downwards neither goes on from the other. -/
def KeyValue.Comparable (lower : List Nat → List Nat) (descending : Bool) (v w : KeyValue) : Prop :=
  (∀ x y, v.number = some x → w.number = some y → x.isNan = false ∧ y.isNan = false) ∧
    (descending = true → ∀ a b, v.text lower = some a → w.text lower = some b → a <+: b → a = b)

def Sortable (reading : Reading) (s : SortRange) (file : File) : Prop :=
  (∀ row ∈ s.rowKeys file, ∃ v, reading.value file s.sheet row s.column = some v ∧
    v.Usable reading.lower s.descending) ∧
  ∀ row ∈ s.rowKeys file, ∀ row' ∈ s.rowKeys file, row ≠ row' → ∀ v w,
    reading.value file s.sheet row s.column = some v →
    reading.value file s.sheet row' s.column = some w →
      v.Comparable reading.lower s.descending w

section Tuples

variable {a b : KeyTuple}

def Clear (a b : KeyTuple) : Prop :=
  a.group = b.group → a.number.isNan = false ∧ b.number.isNan = false

def KeyTuple.place (k : KeyTuple) : Nat ×ₗ WithBot (WithTop ℚ) ×ₗ List Nat ×ₗ Nat :=
  toLex (k.group, toLex (k.number.rank, toLex (k.text, k.row)))

theorem lt_iff (clear : Clear a b) : a.lt b = true ↔ a.group < b.group ∨ a.group = b.group ∧
    (Ahead a b ∨ Level a b ∧ a.row < b.row) := by
  unfold KeyTuple.lt Ahead Level
  by_cases group : a.group = b.group
  · obtain ⟨ha, hb⟩ := clear group
    rw [Double.alike_eq ha]
    cases same : a.number.eq b.number with
    | true =>
      have rank := (Double.eq_iff_rank ha hb).mp same
      have level : a.number.lt b.number = false := by
        rw [← Bool.not_eq_true, Double.lt_iff_rank ha hb, rank]
        exact lt_irrefl _
      by_cases text : a.text = b.text
      · simp [group, level, text]
      · simp [group, level, text]
    | false => simp [group]
  · simp [group]

theorem lt_iff_place (clear : Clear a b) : a.lt b = true ↔ a.place < b.place := by
  rw [lt_iff clear]
  simp only [Ahead, Level, KeyTuple.place, Prod.Lex.lt_iff, ofLex_toLex]
  refine or_congr_right (and_congr_right fun group => ?_)
  obtain ⟨ha, hb⟩ := clear group
  rw [Double.lt_iff_rank ha hb, Double.eq_iff_rank ha hb]
  tauto

theorem lt_self : a.lt a = false := by
  have number : a.number.lt a.number = false := by
    cases a.number <;> simp [Double.lt]
  simp [KeyTuple.lt, number]

theorem sorted_of_clear {keys : List KeyTuple} (distinct : (keys.map KeyTuple.row).Nodup)
    (clear : ∀ a ∈ keys, ∀ b ∈ keys, a.row ≠ b.row → Clear a b) :
    (keys.insertionSort fun a b => !b.lt a).Pairwise fun a b => a.lt b = true := by
  have same_row : ∀ a ∈ keys, ∀ b ∈ keys, a.row = b.row → a = b := by
    intro a ha b hb row
    exact List.inj_on_of_nodup_map distinct ha hb row
  have compares : ∀ a ∈ keys, ∀ b ∈ keys, (!b.lt a) = true ↔ a.place ≤ b.place := by
    intro a ha b hb
    by_cases row : b.row = a.row
    · rw [same_row b hb a ha row]
      simp [lt_self]
    · rw [Bool.not_eq_true', ← Bool.not_eq_true, lt_iff_place (clear b hb a ha row), not_lt]
  have mapped := List.map_insertionSort _ (· ≤ ·) KeyTuple.place keys compares
  have ordered := List.pairwise_insertionSort (· ≤ ·) (keys.map KeyTuple.place)
  rw [← mapped, List.pairwise_map] at ordered
  have perm := List.perm_insertionSort (fun a b : KeyTuple => !b.lt a) keys
  have rows : (keys.insertionSort fun a b => !b.lt a).Pairwise fun a b => a.row ≠ b.row :=
    List.pairwise_map.mp ((perm.map KeyTuple.row).nodup_iff.mpr distinct)
  refine (ordered.and rows).imp_of_mem fun {a b} ha hb both => ?_
  have apart : a.place ≠ b.place := by
    intro place
    exact both.2 (congrArg (fun p => (ofLex (ofLex (ofLex p).2).2).2) place)
  exact (lt_iff_place (clear a (perm.mem_iff.mp ha) b (perm.mem_iff.mp hb) both.2)).mpr
    (lt_of_le_of_ne both.1 apart)

theorem lt_asymm_of_clear (clear : Clear a b) (before : a.lt b = true) : b.lt a = false := by
  have clear' : Clear b a := fun group => (clear group.symm).symm
  rw [← Bool.not_eq_true, lt_iff_place clear']
  exact ((lt_iff_place clear).mp before).asymm

end Tuples

section Texts

variable {m : Nat} {a b : List Nat}

/-- Complements turn the order of two texts round, except that a text still comes before those that
go on from it. -/
theorem map_complement_lt (ha : ∀ c ∈ a, c ≤ m) (hb : ∀ c ∈ b, c ≤ m) :
    a.map (m - ·) < b.map (m - ·) ↔ a ≠ b ∧ (a <+: b ∨ ¬ b <+: a ∧ b < a) := by
  induction a generalizing b with
  | nil =>
    cases b with
    | nil => simp
    | cons d b => simp
  | cons c a ih =>
    cases b with
    | nil => simp
    | cons d b =>
      rw [List.forall_mem_cons] at ha hb
      have below := ha.1
      have below' := hb.1
      by_cases same : c = d
      · subst same
        simp only [List.map_cons, List.cons_lt_cons_iff, List.cons_prefix_cons, ih ha.2 hb.2]
        simp
      · have apart : m - c ≠ m - d := by omega
        simp only [List.map_cons, List.cons_lt_cons_iff, List.cons_prefix_cons]
        simp [same, apart, Ne.symm same]
        omega

theorem not_lt_of_prefix (goes_on : a <+: b) : ¬ b < a := by
  obtain ⟨rest, rfl⟩ := goes_on
  induction a with
  | nil => simp
  | cons c a ih => simpa [List.cons_lt_cons_iff] using ih

theorem map_complement_inj (ha : ∀ c ∈ a, c ≤ m) (hb : ∀ c ∈ b, c ≤ m) :
    a.map (m - ·) = b.map (m - ·) ↔ a = b := by
  refine ⟨fun same => ?_, congrArg _⟩
  by_contra apart
  have less := mt (map_complement_lt ha hb).mpr (same ▸ lt_irrefl _)
  have more := mt (map_complement_lt hb ha).mpr (same ▸ lt_irrefl _)
  obtain below | above := lt_or_gt_of_ne apart
  · exact more ⟨Ne.symm apart, .inr ⟨fun extends_b => less ⟨apart, .inl extends_b⟩, below⟩⟩
  · exact less ⟨apart, .inr ⟨fun extends_a => more ⟨Ne.symm apart, .inl extends_a⟩, above⟩⟩

end Texts

section Directed

variable {a b k d : KeyTuple} {descending : Bool}

/-- What `sort_key` makes: a number, a text or neither. -/
def KeyTuple.Formed (k : KeyTuple) : Prop :=
  (k.group = 0 ∧ k.text = []) ∨ (k.group = 1 ∧ k.number = .finite 0) ∨
    (k.group = 2 ∧ k.number = .finite 0 ∧ k.text = [])

def KeyTuple.turned (k : KeyTuple) : KeyTuple :=
  if k.group = 0 then ⟨k.group, k.number.neg, [], k.row⟩
  else if k.group = 1 then ⟨k.group, .finite 0, k.text.map (0xFFFF - ·), k.row⟩
  else ⟨k.group, .finite 0, [], k.row⟩

def KeyTuple.directed (descending : Bool) (k : KeyTuple) : KeyTuple :=
  if descending then k.turned else k

theorem KeyTuple.Formed.number (formed : k.Formed) (other : k.group ≠ 0) :
    k.number = .finite 0 := by
  obtain ⟨group, _⟩ | ⟨_, number⟩ | ⟨_, number, _⟩ := formed
  · exact absurd group other
  · exact number
  · exact number

def KeyTuple.Invertible (descending : Bool) (k : KeyTuple) : Prop :=
  descending = true → k.group = 1 → ∀ c ∈ k.text, c ≤ 0xFFFF

def Apart (descending : Bool) (a b : KeyTuple) : Prop :=
  descending = true → a.group = 1 → b.group = 1 →
    (a.text <+: b.text → a.text = b.text) ∧ (b.text <+: a.text → b.text = a.text)

theorem KeyTuple.directed_row : (k.directed descending).row = k.row := by
  unfold KeyTuple.directed KeyTuple.turned
  split_ifs <;> rfl

theorem KeyTuple.directed_group : (k.directed descending).group = k.group := by
  unfold KeyTuple.directed KeyTuple.turned
  split_ifs <;> rfl

theorem Clear.directed (clear : Clear a b) :
    Clear (a.directed descending) (b.directed descending) := by
  intro group
  rw [KeyTuple.directed_group, KeyTuple.directed_group] at group
  obtain ⟨ha, hb⟩ := clear group
  unfold KeyTuple.directed KeyTuple.turned
  split_ifs
  all_goals simp [Double.neg_isNan, ha, hb]

theorem turned_iff (ha : a.Formed) (hb : b.Formed) (group : a.group = b.group)
    (invertible : a.Invertible true) (invertible' : b.Invertible true) :
    (Level a.turned b.turned ↔ Level a b) ∧
    (Ahead a.turned b.turned ↔ if a.group = 1 then
      a.text ≠ b.text ∧ (a.text <+: b.text ∨ ¬ b.text <+: a.text ∧ b.text < a.text)
      else Ahead b a) := by
  have zero : (Double.finite 0).eq (.finite 0) = true := by simp [Double.eq]
  have zero' : (Double.finite 0).lt (.finite 0) = false := by simp [Double.lt]
  unfold Level Ahead
  obtain ⟨ga, ta⟩ | ⟨ga, na⟩ | ⟨ga, na, ta⟩ := ha
  · obtain ⟨gb, tb⟩ | ⟨gb, _⟩ | ⟨gb, _⟩ := hb
    · simp [KeyTuple.turned, ga, gb, ta, tb, Double.neg_eq_neg, Double.neg_lt_neg]
    · omega
    · omega
  · obtain ⟨gb, _⟩ | ⟨gb, nb⟩ | ⟨gb, _⟩ := hb
    · omega
    · have inj := map_complement_inj (invertible rfl ga) (invertible' rfl gb)
      have order := map_complement_lt (invertible rfl ga) (invertible' rfl gb)
      simp [KeyTuple.turned, ga, gb, na, nb, zero, zero', inj, order]
    · omega
  · obtain ⟨gb, _⟩ | ⟨gb, _⟩ | ⟨gb, nb, tb⟩ := hb
    · omega
    · omega
    · simp [KeyTuple.turned, ga, gb, na, nb, ta, tb, zero, zero']

/-- The tuples of the direction are in the order of the sort, unless a text goes on from another. -/
theorem directed_lt_iff (ha : a.Formed) (hb : b.Formed) (clear : Clear a b)
    (invertible : a.Invertible descending) (invertible' : b.Invertible descending)
    (apart : Apart descending a b) :
    (a.directed descending).lt (b.directed descending) = true ↔ Before descending a b := by
  rw [lt_iff clear.directed]
  simp only [KeyTuple.directed_group, KeyTuple.directed_row, Before]
  refine or_congr_right (and_congr_right fun group => ?_)
  cases descending with
  | false => rfl
  | true =>
    obtain ⟨level, ahead⟩ := turned_iff ha hb group invertible invertible'
    show Ahead a.turned b.turned ∨ Level a.turned b.turned ∧ a.row < b.row ↔ _
    rw [level, ahead, if_pos rfl]
    refine or_congr_left ?_
    split
    · rename_i text
      obtain ⟨onward, onward'⟩ := apart rfl text (group ▸ text)
      have zero : a.number.eq b.number = true ∧ b.number.eq a.number = true ∧
          b.number.lt a.number = false := by
        rw [ha.number (by omega), hb.number (by omega)]
        simp [Double.eq, Double.lt]
      simp only [Ahead, zero, Bool.false_eq_true, false_or, true_and]
      constructor
      · intro down
        exact (down.2.resolve_left fun goes_on => down.1 (onward goes_on)).2
      · intro below
        have apart : a.text ≠ b.text := ne_of_gt below
        exact ⟨apart, .inr ⟨fun goes_on => apart (onward' goes_on).symm, below⟩⟩
    · rfl

theorem stays_behind (ha : a.Formed) (hb : b.Formed) (group : a.group = 1) (group' : b.group = 1)
    (invertible : a.Invertible true) (invertible' : b.Invertible true)
    (goes_on : a.text <+: b.text) (apart : a.text ≠ b.text) :
    (a.directed true).lt (b.directed true) = true ∧ ¬ Before true a b := by
  have same : a.group = b.group := group.trans group'.symm
  have clear : Clear a b := by
    intro _
    rw [ha.number (by omega), hb.number (by omega)]
    exact ⟨rfl, rfl⟩
  constructor
  · rw [lt_iff clear.directed]
    refine .inr ⟨by simpa only [KeyTuple.directed_group] using same, .inl ?_⟩
    apply (turned_iff ha hb same invertible invertible').2.mpr
    rw [if_pos group]
    exact ⟨apart, .inl goes_on⟩
  · rintro (less | ⟨_, ahead | ⟨level, _⟩⟩)
    · omega
    · rw [if_pos rfl] at ahead
      obtain lower | ⟨_, below⟩ := ahead
      · rw [ha.number (by omega), hb.number (by omega)] at lower
        simp [Double.lt] at lower
      · exact not_lt_of_prefix goes_on below
    · exact apart level.2

end Directed

section Rows

variable {reading : Reading} {s : SortRange} {file : File} {row : Nat} {k d : KeyTuple}
  {order : List Nat}

theorem fits_int {n : Int} : (KeyValue.int n).fits = true ↔ ∃ x, Double.ofInt n = some x := by
  unfold KeyValue.fits
  exact Option.isSome_iff_exists

theorem sortKey_of_value {v : KeyValue} (value : reading.value file s.sheet row s.column = some v)
    (usable : v.Usable reading.lower s.descending) :
    ∃ k, sortKey reading s file row = .ok k := by
  unfold sortKey
  rw [value]
  cases v with
  | int n =>
    obtain ⟨x, fits⟩ := fits_int.mp usable.1
    exact ⟨_, by simp only [fits, found]; rfl⟩
  | str codes => cases codes <;> exact ⟨_, rfl⟩
  | _ => exact ⟨_, rfl⟩

theorem sortKey_eq_ok (done : sortKey reading s file row = .ok k) :
    k.row = row ∧ k.Formed ∧ ∃ v, reading.value file s.sheet row s.column = some v ∧
      v.fits = true ∧ v.number = (if k.group = 0 then some k.number else none) ∧
      v.text reading.lower = if k.group = 1 then some k.text else none := by
  unfold sortKey at done
  split at done
  · cases done
  · cases done
    exact ⟨rfl, .inr (.inr ⟨rfl, rfl, rfl⟩), _, ‹_›, rfl, rfl, rfl⟩
  · cases done
    exact ⟨rfl, .inl ⟨rfl, rfl⟩, _, ‹_›, rfl, rfl, rfl⟩
  · rename_i n value
    cases fits : Double.ofInt n with
    | none =>
      rw [fits] at done
      cases done
    | some x =>
      rw [fits] at done
      cases done
      refine ⟨rfl, .inl ⟨rfl, rfl⟩, _, value, fits_int.mpr ⟨x, fits⟩, ?_, rfl⟩
      rw [KeyValue.number, fits]
      rfl
  · cases done
    exact ⟨rfl, .inl ⟨rfl, rfl⟩, _, ‹_›, rfl, rfl, rfl⟩
  · cases done
    exact ⟨rfl, .inr (.inr ⟨rfl, rfl, rfl⟩), _, ‹_›, rfl, rfl, rfl⟩
  · rename_i codes filled value
    cases done
    refine ⟨rfl, .inr (.inl ⟨rfl, rfl⟩), _, value, rfl, rfl, ?_⟩
    cases codes with
    | nil => exact absurd rfl filled
    | cons c codes => rfl
  · cases done
    exact ⟨rfl, .inr (.inl ⟨rfl, rfl⟩), _, ‹_›, rfl, rfl, rfl⟩

theorem directedKey_eq_ok : directedKey reading s file row = .ok d ↔
    ∃ k, sortKey reading s file row = .ok k ∧ k.Invertible s.descending ∧
      k.directed s.descending = d := by
  unfold directedKey
  constructor
  · intro done
    obtain ⟨k, key, done⟩ := returned_bind done
    refine ⟨k, key, ?_⟩
    cases down : s.descending with
    | false =>
      rw [down, if_neg Bool.false_ne_true] at done
      exact ⟨fun up => absurd up Bool.false_ne_true, pure_eq_ok.mp done⟩
    | true =>
      rw [down, if_pos rfl] at done
      unfold KeyTuple.directed KeyTuple.turned
      rw [if_pos rfl]
      split at done
      · rename_i number
        rw [if_pos number]
        exact ⟨fun _ text => by omega, pure_eq_ok.mp done⟩
      · rename_i other
        rw [if_neg other]
        split at done
        · rename_i text
          rw [if_pos text]
          obtain ⟨codes, inverts, done⟩ := returned_bind done
          unfold inverted at inverts
          split at inverts
          · rename_i bounded
            cases inverts
            exact ⟨fun _ _ => bounded, pure_eq_ok.mp done⟩
          · cases inverts
        · rename_i blank
          rw [if_neg blank]
          exact ⟨fun _ text => absurd text blank, pure_eq_ok.mp done⟩
  · rintro ⟨k, key, invertible, rfl⟩
    rw [key]
    unfold KeyTuple.directed KeyTuple.turned
    show (if s.descending = true then _ else _) = _
    split
    · rename_i down
      split
      · rfl
      · split
        · rename_i text
          rw [inverted, if_pos (invertible down text)]
          rfl
        · rfl
    · rfl

theorem directedKey_row (done : directedKey reading s file row = .ok d) : d.row = row := by
  obtain ⟨k, key, _, rfl⟩ := directedKey_eq_ok.mp done
  rw [KeyTuple.directed_row]
  exact (sortKey_eq_ok key).1

theorem rows_of_keys {rows : List Nat} {keys : List KeyTuple}
    (made : rows.map (directedKey reading s file) = keys.map .ok) :
    keys.map KeyTuple.row = rows := by
  induction rows generalizing keys with
  | nil => rw [List.map_eq_nil_iff.mp made.symm, List.map_nil]
  | cons row rows ih =>
    cases keys with
    | nil => cases made
    | cons d keys =>
      rw [List.map_cons, List.map_cons, List.cons.injEq] at made
      rw [List.map_cons, directedKey_row made.1, ih made.2]

theorem sortedRows_eq_ok : sortedRows reading s file = .ok order ↔ ∃ keys : List KeyTuple,
    keys.map KeyTuple.row = s.rowKeys file ∧
    (∀ d ∈ keys, directedKey reading s file d.row = .ok d) ∧
    (keys.insertionSort fun a b => !b.lt a).map KeyTuple.row = order := by
  unfold sortedRows
  constructor
  · intro done
    obtain ⟨keys, made, done⟩ := returned_bind done
    replace made := mapM_eq_ok.mp made
    refine ⟨keys, rows_of_keys made, ?_, pure_eq_ok.mp done⟩
    intro d member
    have listed : Except.ok d ∈ (s.rowKeys file).map (directedKey reading s file) :=
      made ▸ List.mem_map_of_mem member
    obtain ⟨row, _, key⟩ := List.mem_map.mp listed
    rw [directedKey_row key]
    exact key
  · rintro ⟨keys, rows, made, rfl⟩
    have returned : (s.rowKeys file).mapM (directedKey reading s file) = .ok keys := by
      rw [mapM_eq_ok, ← rows, List.map_map]
      exact List.map_congr_left made
    rw [returned]
    rfl

theorem sortedRows_perm (done : sortedRows reading s file = .ok order) :
    order.Perm (s.rowKeys file) := by
  obtain ⟨keys, rows, _, rfl⟩ := sortedRows_eq_ok.mp done
  rw [← rows]
  exact (List.perm_insertionSort _ _).map KeyTuple.row

end Rows

section Range

variable {s : SortRange} {file : File} {row : Nat} {order : List Nat}

theorem nodup_eraseDups (l : List Nat) : l.eraseDups.Nodup := by
  induction h : l.length using Nat.strong_induction_on generalizing l with
  | _ n ih =>
    cases l with
    | nil => simp
    | cons a l =>
      rw [List.eraseDups_cons, List.nodup_cons, List.mem_eraseDups]
      have shorter : (l.filter fun b => !b == a).length < n := by
        have kept := List.length_filter_le (fun b => !b == a) l
        rw [← h, List.length_cons]
        omega
      exact ⟨by simp, ih _ shorter _ rfl⟩

theorem rowKeys_nodup : (s.rowKeys file).Nodup :=
  (List.perm_insertionSort _ _).nodup_iff.mpr (nodup_eraseDups _)

theorem rowKeys_length : (s.rowKeys file).length ≤ s.endRow - s.startRow := by
  have inside : s.rowKeys file ⊆ List.range' s.startRow (s.endRow - s.startRow) := by
    intro row member
    obtain ⟨c, _, within, rfl⟩ := mem_rowKeys.mp member
    obtain ⟨_, low, high⟩ := contains_iff.mp within
    rw [List.mem_range'_1]
    omega
  have bound := (List.subperm_of_subset rowKeys_nodup inside).length_le
  rwa [List.length_range'] at bound

theorem nodup_target : ((target s file order).map Cell.key).Nodup := by
  unfold target
  rw [List.map_flatMap, List.nodup_flatMap]
  constructor
  · rintro ⟨row, offset⟩ _
    rw [List.map_map]
    have rows : ((s.cells file).filter fun c => c.row = row).Nodup :=
      ((List.Nodup.of_map _ file.cells.unique).filter _).filter _
    refine rows.map_on ?_
    intro c hc q hq same
    simp only [SortRange.cells, List.mem_filter, decide_eq_true_eq] at hc hq
    obtain ⟨sheet, column⟩ : c.sheet = q.sheet ∧ c.column = q.column := by
      simpa [Cell.key] using same
    apply Table.eq_of_key hc.1.1 hq.1.1
    simp only [Cell.key, sheet, column, hc.2, hq.2]
  · have offsets : (order.zipIdx.map Prod.snd).Nodup := by
      rw [List.zipIdx_map_snd]
      exact List.nodup_range'
    refine (List.pairwise_map.mp offsets).imp fun {a b} apart => ?_
    intro key first second
    obtain ⟨q, placed, rfl⟩ := List.mem_map.mp first
    obtain ⟨q', placed', same⟩ := List.mem_map.mp second
    obtain ⟨c, _, rfl⟩ := List.mem_map.mp placed
    obtain ⟨c', _, rfl⟩ := List.mem_map.mp placed'
    have row : s.startRow + b.2 = s.startRow + a.2 := congrArg (fun k => k.2.1) same
    omega

theorem insertAll_target (perm : order.Perm (s.rowKeys file)) : ∃ cells,
    insertAll (file.cells.delete s.contains) (target s file order) = some cells ∧
      Placed s file order cells := by
  have room : order.length ≤ s.endRow - s.startRow := perm.length_eq ▸ rowKeys_length
  have free : (((file.cells.delete s.contains).rows ++ target s file order).map Cell.key).Nodup := by
    rw [List.map_append]
    refine (file.cells.delete s.contains).unique.append nodup_target ?_
    intro key left placed
    obtain ⟨q, kept, rfl⟩ := List.mem_map.mp left
    obtain ⟨p, listed, same⟩ := List.mem_map.mp placed
    obtain ⟨c, _, inside, offset, at_offset, rfl⟩ := mem_packed.mp listed
    obtain ⟨_, outside⟩ := Table.mem_delete.mp kept
    obtain ⟨sheet, _⟩ := contains_iff.mp inside
    have bound : offset < order.length := (List.getElem?_eq_some_iff.mp at_offset).1
    have same_sheet : c.sheet = q.sheet := congrArg (fun k => k.1) same
    have same_row : s.startRow + offset = q.row := congrArg (fun k => k.2.1) same
    have covered : s.contains q = true :=
      contains_iff.mpr ⟨same_sheet.symm.trans sheet, by omega, by omega⟩
    rw [outside] at covered
    cases covered
  obtain ⟨cells, inserted⟩ := insertAll_of_nodup free
  refine ⟨cells, inserted, fun q => ?_⟩
  rw [Table.mem_rows, insertAll_rows inserted, List.mem_append]
  exact or_congr Table.mem_delete mem_packed

end Range

section Sorting

variable {reading : Reading} {s : SortRange} {file : File} {row row' : Nat} {order : List Nat}

theorem Before.clear {descending : Bool} {a b : KeyTuple} (before : Before descending a b) :
    Clear a b := by
  intro group
  by_contra nans
  replace nans : a.number.isNan = true ∨ b.number.isNan = true := by
    by_contra none
    simp only [not_or, Bool.not_eq_true] at none
    exact nans none
  have apart : ¬ (Ahead a b ∨ Ahead b a ∨ Level a b) := by
    simp [Ahead, Level, Double.lt_nan nans, Double.lt_nan nans.symm, Double.eq_nan nans,
      Double.eq_nan nans.symm]
  obtain less | ⟨_, ahead | ⟨level, _⟩⟩ := before
  · omega
  · split at ahead
    · exact apart (.inr (.inl ahead))
    · exact apart (.inl ahead)
  · exact apart (.inr (.inr level))

theorem total_of_pairwise {α : Type} {r : α → α → Prop} {l : List α} {a b : α}
    (ordered : l.Pairwise r) (ha : a ∈ l) (hb : b ∈ l) (apart : a ≠ b) : r a b ∨ r b a := by
  have : Std.Symm fun a b => r a b ∨ r b a := ⟨fun _ _ => Or.symm⟩
  exact (ordered.imp (S := fun a b => r a b ∨ r b a) Or.inl).forall ha hb apart

theorem clear_of_precedes (ordered : order.Pairwise (Precedes reading s file)) {a b : KeyTuple}
    (ha : row ∈ order) (hb : row' ∈ order) (apart : row ≠ row')
    (key : sortKey reading s file row = .ok a) (key' : sortKey reading s file row' = .ok b) :
    Clear a b := by
  obtain ⟨c, d, first, second, before⟩ | ⟨c, d, first, second, before⟩ :=
    total_of_pairwise ordered ha hb apart
  · rw [key] at first
    rw [key'] at second
    cases first
    cases second
    exact before.clear
  · rw [key'] at first
    rw [key] at second
    cases first
    cases second
    exact fun group => (before.clear group.symm).symm

theorem ascends {keys : List KeyTuple} (rows : keys.map KeyTuple.row = s.rowKeys file)
    (made : ∀ d ∈ keys, directedKey reading s file d.row = .ok d)
    (clear : ∀ row ∈ s.rowKeys file, ∀ row' ∈ s.rowKeys file, row ≠ row' → ∀ a b,
      sortKey reading s file row = .ok a → sortKey reading s file row' = .ok b → Clear a b) :
    (keys.insertionSort fun a b => !b.lt a).Pairwise fun a b => a.lt b = true := by
  apply sorted_of_clear (rows ▸ rowKeys_nodup)
  intro d hd e he apart
  obtain ⟨a, key, _, same⟩ := directedKey_eq_ok.mp (made d hd)
  obtain ⟨b, key', _, same'⟩ := directedKey_eq_ok.mp (made e he)
  have listed : d.row ∈ s.rowKeys file := rows ▸ List.mem_map_of_mem hd
  have listed' : e.row ∈ s.rowKeys file := rows ▸ List.mem_map_of_mem he
  rw [← same, ← same']
  exact (clear d.row listed e.row listed' apart a b key key').directed

theorem number_of_key {v : KeyValue} {a : KeyTuple} {x : Double}
    (number : v.number = if a.group = 0 then some a.number else none) (same : v.number = some x) :
    a.group = 0 ∧ a.number = x := by
  rw [same] at number
  split at number
  · exact ⟨‹_›, (Option.some.inj number).symm⟩
  · cases number

theorem text_of_key {v : KeyValue} {lower : List Nat → List Nat} {a : KeyTuple} {text : List Nat}
    (keyed : v.text lower = if a.group = 1 then some a.text else none)
    (same : v.text lower = some text) : a.group = 1 ∧ a.text = text := by
  rw [same] at keyed
  split at keyed
  · exact ⟨‹_›, (Option.some.inj keyed).symm⟩
  · cases keyed

theorem sortable_of_sorts (sorted : sortedRows reading s file = .ok order)
    (ordered : order.Pairwise (Precedes reading s file)) : Sortable reading s file := by
  have perm := sortedRows_perm sorted
  obtain ⟨keys, rows, made, rfl⟩ := sortedRows_eq_ok.mp sorted
  have keyed : ∀ row ∈ s.rowKeys file, ∃ d ∈ keys, d.row = row := by
    intro row listed
    exact List.mem_map.mp (rows ▸ listed)
  refine ⟨fun row listed => ?_, fun row listed row' listed' apart v w value value' => ?_⟩
  · obtain ⟨d, member, rfl⟩ := keyed row listed
    obtain ⟨a, key, invertible, _⟩ := directedKey_eq_ok.mp (made d member)
    obtain ⟨_, _, v, value, fits, _, text⟩ := sortKey_eq_ok key
    refine ⟨v, value, fits, fun down t same => ?_⟩
    obtain ⟨group, rfl⟩ := text_of_key text same
    exact invertible down group
  · obtain ⟨d, member, rfl⟩ := keyed row listed
    obtain ⟨e, member', rfl⟩ := keyed row' listed'
    obtain ⟨a, key, invertible, turned⟩ := directedKey_eq_ok.mp (made d member)
    obtain ⟨b, key', invertible', turned'⟩ := directedKey_eq_ok.mp (made e member')
    obtain ⟨_, formed, _, same, _, number, text⟩ := sortKey_eq_ok key
    obtain ⟨_, formed', _, same', _, number', text'⟩ := sortKey_eq_ok key'
    rw [value] at same
    rw [value'] at same'
    cases same
    cases same'
    have clear : ∀ row ∈ s.rowKeys file, ∀ row' ∈ s.rowKeys file, row ≠ row' → ∀ a b,
        sortKey reading s file row = .ok a → sortKey reading s file row' = .ok b → Clear a b :=
      fun row listed row' listed' apart a b key key' =>
        clear_of_precedes ordered (perm.mem_iff.mpr listed) (perm.mem_iff.mpr listed') apart key key'
    constructor
    · intro x y hx hy
      obtain ⟨group, rfl⟩ := number_of_key number hx
      obtain ⟨group', rfl⟩ := number_of_key number' hy
      exact clear d.row listed e.row listed' apart a b key key' (group.trans group'.symm)
    · intro down t t' ht ht' goes_on
      obtain ⟨group, rfl⟩ := text_of_key text ht
      obtain ⟨group', rfl⟩ := text_of_key text' ht'
      by_contra differ
      obtain ⟨first, not_before⟩ := stays_behind formed formed' group group'
        (down ▸ invertible) (down ▸ invertible') goes_on differ
      rw [down] at turned turned'
      rw [turned, turned'] at first
      have both := (ascends rows made clear).and (List.pairwise_map.mp ordered)
      have sorted_perm := List.perm_insertionSort (fun a b : KeyTuple => !b.lt a) keys
      have unlike : d ≠ e := fun same => apart (congrArg KeyTuple.row same)
      obtain ⟨_, c, f, first_key, second_key, before⟩ | ⟨second, _⟩ := total_of_pairwise both
        (sorted_perm.mem_iff.mpr member) (sorted_perm.mem_iff.mpr member') unlike
      · rw [key] at first_key
        rw [key'] at second_key
        cases first_key
        cases second_key
        exact not_before (down ▸ before)
      · have clear_keys : Clear d e := by
          rw [← turned, ← turned']
          exact (clear d.row listed e.row listed' apart a b key key').directed
        rw [lt_asymm_of_clear clear_keys first] at second
        cases second

theorem sorts_of_sortable (sortable : Sortable reading s file) : ∃ order,
    sortedRows reading s file = .ok order ∧ order.Pairwise (Precedes reading s file) := by
  obtain ⟨usable, comparable⟩ := sortable
  have keyed : ∀ row ∈ s.rowKeys file, ∃ d, directedKey reading s file row = .ok d := by
    intro row listed
    obtain ⟨v, value, fits⟩ := usable row listed
    obtain ⟨k, key⟩ := sortKey_of_value value fits
    obtain ⟨_, _, w, value', _, _, text⟩ := sortKey_eq_ok key
    rw [value] at value'
    cases value'
    refine ⟨_, directedKey_eq_ok.mpr ⟨k, key, fun down group => ?_, rfl⟩⟩
    exact fits.2 down k.text (text.trans (if_pos group))
  have compared : ∀ row ∈ s.rowKeys file, ∀ row' ∈ s.rowKeys file, row ≠ row' → ∀ a b,
      sortKey reading s file row = .ok a → sortKey reading s file row' = .ok b →
        Clear a b ∧ Apart s.descending a b := by
    intro row listed row' listed' apart a b key key'
    obtain ⟨_, formed, v, value, _, number, text⟩ := sortKey_eq_ok key
    obtain ⟨_, formed', w, value', _, number', text'⟩ := sortKey_eq_ok key'
    have forth := comparable row listed row' listed' apart v w value value'
    have back := comparable row' listed' row listed (Ne.symm apart) w v value' value
    constructor
    · intro group
      by_cases zero : a.group = 0
      · exact forth.1 _ _ (number.trans (if_pos zero)) (number'.trans (if_pos (group ▸ zero)))
      · rw [formed.number zero, formed'.number (group ▸ zero)]
        exact ⟨rfl, rfl⟩
    · intro down one one'
      have texts := text.trans (if_pos one)
      have texts' := text'.trans (if_pos one')
      exact ⟨forth.2 down _ _ texts texts', back.2 down _ _ texts' texts⟩
  obtain ⟨keys, mapped⟩ := mapM_returns keyed
  have sorted : sortedRows reading s file =
      .ok ((keys.insertionSort fun a b => !b.lt a).map KeyTuple.row) := by
    rw [sortedRows, mapped]
    rfl
  obtain ⟨keys, rows, made, order⟩ := sortedRows_eq_ok.mp sorted
  refine ⟨_, sorted, order ▸ List.pairwise_map.mpr ?_⟩
  have up := ascends rows made fun row listed row' listed' apart a b key key' =>
    (compared row listed row' listed' apart a b key key').1
  have distinct : (keys.map KeyTuple.row).Nodup := rows ▸ rowKeys_nodup
  refine up.imp_of_mem fun {d e} hd he less => ?_
  replace hd := (List.perm_insertionSort _ _).mem_iff.mp hd
  replace he := (List.perm_insertionSort _ _).mem_iff.mp he
  obtain ⟨a, key, invertible, turned⟩ := directedKey_eq_ok.mp (made d hd)
  obtain ⟨b, key', invertible', turned'⟩ := directedKey_eq_ok.mp (made e he)
  have apart : d.row ≠ e.row := by
    intro same
    rw [List.inj_on_of_nodup_map distinct hd he same, lt_self] at less
    cases less
  obtain ⟨clear, texts⟩ := compared d.row (rows ▸ List.mem_map_of_mem hd) e.row
    (rows ▸ List.mem_map_of_mem he) apart a b key key'
  rw [← turned, ← turned'] at less
  exact ⟨a, b, key, key', (directed_lt_iff (sortKey_eq_ok key).2.1 (sortKey_eq_ok key').2.1 clear
    invertible invertible' texts).mp less⟩

/-- The sort sorts, unless it raises on a key, meets a NaN or goes downwards over a text and
another that goes on from it. -/
theorem sorts_iff (reading : Reading) (s : SortRange) (file : File) :
    Sorts reading s file ↔ (s.rowKeys file).length < 2 ∨ Sortable reading s file := by
  constructor
  · rintro (⟨few, _⟩ | ⟨order, _, sorted, _, _, ordered, _⟩)
    · exact .inl few
    · exact .inr (sortable_of_sorts sorted ordered)
  · intro fine
    by_cases few : (s.rowKeys file).length < 2
    · exact .inl ⟨few, if_pos few⟩
    · obtain ⟨order, sorted, ordered⟩ := sorts_of_sortable (fine.resolve_left few)
      have perm := sortedRows_perm sorted
      obtain ⟨cells, inserted, placed⟩ := insertAll_target perm
      refine .inr ⟨order, cells, sorted, ?_, perm, ordered, placed⟩
      rw [sortCells, if_neg few, sorted]
      exact found_eq_ok.mpr inserted

end Sorting

def stringAt (row : Nat) (text : List Char) : Cell :=
  ⟨1, row, 0, .text, ['"'] ++ text ++ ['"'], none, jsonNull, 0, 0⟩

/-- Strings without escapes, and `lower` of ASCII. -/
def plain : Reading where
  value file sheet row column :=
    match file.cells.find (sheet, row, column) with
    | some c => some (.str ((c.value.drop 1).dropLast.map Char.toNat))
    | none => some .blank
  lower := List.map fun c => if 65 ≤ c ∧ c ≤ 90 then c + 32 else c

def twoTexts : File :=
  (ledger ⟨[stringAt 0 ['a'], stringAt 1 ['a', 'b']], by decide⟩ []).file

theorem longer_text_stays_behind : ¬ ∀ (reading : Reading) (s : SortRange) (file : File),
    Sorts reading s file := by
  intro law
  obtain ⟨few, _⟩ | ⟨order, _, sorted, _, _, ordered, _⟩ := law plain ⟨1, 0, 0, 2, true⟩ twoTexts
  · exact absurd few (by decide +kernel)
  · have comparable := (sortable_of_sorts sorted ordered).2 0 (by decide +kernel) 1
      (by decide +kernel) (by decide) (.str [97]) (.str [97, 98]) rfl rfl
    exact absurd (comparable.2 rfl [97] [97, 98] rfl rfl ⟨[98], rfl⟩) (by decide)

end Plexichat.Sum.SortOrder
