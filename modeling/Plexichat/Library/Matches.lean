import Mathlib.Algebra.Order.BigOperators.Group.List
import Mathlib.Algebra.Order.Group.Int
import Mathlib.Algebra.Ring.Int.Defs
import Mathlib.Data.List.Basic

/-! The matches of a pattern in a text, from left to right and none inside of another, and what
stands between them. A pattern gives the length of its match at the front of a text; an empty match
counts as none. A word is replaced everywhere in a text, or only outside of the regions that a lexer
finds there; where each replacement makes the text heavier, the weights tell how often it was
done. -/
namespace Matches

universe u

variable {α : Type u} {m : List α → Option Nat} {f : List α → List α} {fill c : α} {w r t : List α}

variable (m) in
/-- The elements outside of matches, and the matches; the number is how much of a match is still to
be passed. -/
def pieces : Nat → List α → List (α ⊕ List α)
  | _, [] => []
  | k + 1, _ :: t => pieces k t
  | 0, c :: t =>
    match m (c :: t) with
    | some (k + 1) => .inr ((c :: t).take (k + 1)) :: pieces k t
    | _ => .inl c :: pieces 0 t

theorem pieces_length_append (w r : List α) : pieces m w.length (w ++ r) = pieces m 0 r := by
  induction w with
  | nil => rfl
  | cons c w ih => exact ih

theorem pieces_of_none (none : m (c :: t) = none) :
    pieces m 0 (c :: t) = .inl c :: pieces m 0 t := by
  rw [pieces, none]

theorem pieces_of_match (found : m (w ++ r) = some w.length) (some_element : w ≠ []) :
    pieces m 0 (w ++ r) = .inr w :: pieces m 0 r := by
  cases w with
  | nil => exact absurd rfl some_element
  | cons c w =>
    rw [List.cons_append, List.length_cons] at found
    rw [List.cons_append, pieces, found]
    show Sum.inr ((c :: (w ++ r)).take (w.length + 1)) :: pieces m w.length (w ++ r) = _
    rw [pieces_length_append, List.take_succ_cons, List.take_left]

variable (m f) in
def sub (t : List α) : List α := (pieces m 0 t).flatMap (Sum.elim (fun c => [c]) f)

@[simp] theorem sub_nil : sub m f [] = [] := rfl

theorem sub_of_none (none : m (c :: t) = none) : sub m f (c :: t) = c :: sub m f t := by
  rw [sub, pieces_of_none none]
  rfl

theorem sub_of_match (found : m (w ++ r) = some w.length) (some_element : w ≠ []) :
    sub m f (w ++ r) = f w ++ sub m f r := by
  rw [sub, pieces_of_match found some_element]
  rfl

variable (m fill) in
def blank (t : List α) : List α := sub m (fun w => List.replicate w.length fill) t

@[simp] theorem blank_nil : blank m fill [] = [] := rfl

theorem blank_of_none (none : m (c :: t) = none) : blank m fill (c :: t) = c :: blank m fill t :=
  sub_of_none none

theorem blank_of_match (found : m (w ++ r) = some w.length) (some_element : w ≠ []) :
    blank m fill (w ++ r) = List.replicate w.length fill ++ blank m fill r :=
  sub_of_match found some_element

variable (m) in
def Bounded : Prop := ∀ t n, m t = some n → n ≤ t.length

theorem exists_match {k : Nat} (bounded : Bounded m) (here : m t = some (k + 1)) :
    ∃ w r, t = w ++ r ∧ w ≠ [] ∧ m (w ++ r) = some w.length := by
  have fits := bounded _ _ here
  refine ⟨t.take (k + 1), t.drop (k + 1), (List.take_append_drop _ _).symm, ?_, ?_⟩
  · intro none
    rcases List.take_eq_nil_iff.mp none with zero | empty
    · cases zero
    · rw [empty] at fits
      cases fits
  · rw [List.take_append_drop, List.length_take, Nat.min_eq_left fits, here]

theorem pieces_induction {P : List α → Prop} (bounded : Bounded m) (nil : P [])
    (other : ∀ c t, (m (c :: t) = none ∨ m (c :: t) = some 0) → P t → P (c :: t))
    (found : ∀ w r, w ≠ [] → m (w ++ r) = some w.length → P r → P (w ++ r)) (t : List α) : P t := by
  induction size : t.length using Nat.strongRecOn generalizing t with
  | ind n ih =>
    cases t with
    | nil => exact nil
    | cons c t =>
      rw [List.length_cons] at size
      cases here : m (c :: t) with
      | none => exact other c t (.inl here) (ih t.length (by omega) t rfl)
      | some k =>
        cases k with
        | zero => exact other c t (.inr here) (ih t.length (by omega) t rfl)
        | succ k =>
          obtain ⟨w, r, split, some_element, whole⟩ := exists_match bounded here
          have length := congrArg List.length split
          rw [List.length_cons, List.length_append] at length
          have longer := List.length_pos_of_ne_nil some_element
          rw [split]
          exact found w r some_element whole (ih r.length (by omega) r rfl)

theorem blank_of_zero (none : m (c :: t) = some 0) :
    blank m fill (c :: t) = c :: blank m fill t := by
  rw [blank, sub, pieces, none]
  rfl

theorem length_blank (bounded : Bounded m) (t : List α) : (blank m fill t).length = t.length := by
  induction t using pieces_induction bounded with
  | nil => rfl
  | other c t none ih =>
    rcases none with none | none
    · rw [blank_of_none none, List.length_cons, ih, List.length_cons]
    · rw [blank_of_zero none, List.length_cons, ih, List.length_cons]
  | found w r some_element found ih =>
    rw [blank_of_match found some_element, List.length_append, List.length_replicate, ih,
      List.length_append]

theorem mem_of_mem_blank (bounded : Bounded m) {x : α} (member : x ∈ blank m fill t)
    (other : x ≠ fill) : x ∈ t := by
  induction t using pieces_induction bounded with
  | nil => exact member
  | other c t none ih =>
    have same : blank m fill (c :: t) = c :: blank m fill t := by
      rcases none with none | none
      · exact blank_of_none none
      · exact blank_of_zero none
    rw [same] at member
    rcases List.mem_cons.mp member with rfl | inside
    · exact List.mem_cons_self
    · exact List.mem_cons_of_mem c (ih inside)
  | found w r some_element found ih =>
    rw [blank_of_match found some_element] at member
    rcases List.mem_append.mp member with filled | inside
    · exact absurd (List.eq_of_mem_replicate filled) other
    · exact List.mem_append_right w (ih inside)

theorem head_blank (bounded : Bounded m) (fill c : α) (t : List α) :
    (∃ t', blank m fill (c :: t) = c :: t') ∨ ∃ t', blank m fill (c :: t) = fill :: t' := by
  cases here : m (c :: t) with
  | none => exact .inl ⟨_, blank_of_none here⟩
  | some k =>
    cases k with
    | zero => exact .inl ⟨_, blank_of_zero here⟩
    | succ k =>
      obtain ⟨w, r, split, some_element, whole⟩ := exists_match bounded here
      cases w with
      | nil => exact absurd rfl some_element
      | cons d w =>
        rw [split, blank_of_match whole some_element]
        exact .inr ⟨_, rfl⟩

section Pieces

variable {a b : List α}

theorem pieces_other {c : α} {t : List α} (other : m (c :: t) = none ∨ m (c :: t) = some 0) :
    pieces m 0 (c :: t) = .inl c :: pieces m 0 t := by
  rcases other with other | other
  · exact pieces_of_none other
  · rw [pieces, other]

theorem sub_other {c : α} {t : List α} (other : m (c :: t) = none ∨ m (c :: t) = some 0) :
    sub m f (c :: t) = c :: sub m f t := by
  rw [sub, pieces_other other]
  rfl

theorem pieces_append (bounded : Bounded m) (apart : ∀ v, v ≠ [] → m (v ++ b) = m v)
    (a : List α) : pieces m 0 (a ++ b) = pieces m 0 a ++ pieces m 0 b := by
  induction a using pieces_induction bounded with
  | nil => rfl
  | other c t other ih =>
    have other' : m (c :: (t ++ b)) = none ∨ m (c :: (t ++ b)) = some 0 := by
      rwa [← apart _ (List.cons_ne_nil c t)] at other
    rw [List.cons_append, pieces_other other', ih, pieces_other other, List.cons_append]
  | found w r some_element found ih =>
    have found' := found
    rw [← apart _ (List.append_ne_nil_of_left_ne_nil some_element r), List.append_assoc] at found'
    rw [List.append_assoc, pieces_of_match found' some_element, ih,
      pieces_of_match found some_element, List.cons_append]

theorem sub_append (split : pieces m 0 (a ++ b) = pieces m 0 a ++ pieces m 0 b) :
    sub m f (a ++ b) = sub m f a ++ sub m f b := by
  rw [sub, split, List.flatMap_append]
  rfl

variable (m) in
def occurs (t : List α) : Bool := (pieces m 0 t).any Sum.isRight

theorem sub_of_not_occurs (bounded : Bounded m) (none : occurs m t = false) : sub m f t = t := by
  induction t using pieces_induction bounded with
  | nil => rfl
  | other c t other ih =>
    rw [occurs, pieces_other other] at none
    rw [sub_other other, ih none]
  | found w r some_element found ih =>
    rw [occurs, pieces_of_match found some_element] at none
    cases none

end Pieces

section Words

variable {same : α → α → Bool} {ps v a b : List α}

def begins (same : α → α → Bool) : List α → List α → Bool
  | [], _ => true
  | _ :: _, [] => false
  | p :: ps, c :: t => same p c && begins same ps t

def word (same : α → α → Bool) (ps t : List α) : Option Nat :=
  if begins same ps t then some ps.length else none

theorem length_of_begins {t : List α} (here : begins same ps t = true) : ps.length ≤ t.length := by
  induction ps generalizing t with
  | nil => exact Nat.zero_le _
  | cons p ps ih =>
    cases t with
    | nil => cases here
    | cons c t =>
      rw [begins, Bool.and_eq_true] at here
      exact Nat.succ_le_succ (ih here.2)

theorem bounded_word : Bounded (word same ps) := by
  intro t n found
  rw [word] at found
  split at found
  · rename_i here
    cases found
    exact length_of_begins here
  · cases found

theorem begins_append (stop : ∀ c ∈ b.head?, ∀ p ∈ ps, same p c = false) (v : List α) :
    begins same ps (v ++ b) = begins same ps v := by
  induction ps generalizing v with
  | nil => rfl
  | cons p ps ih =>
    cases v with
    | nil =>
      cases b with
      | nil => rfl
      | cons c b => simp [begins, stop c rfl p List.mem_cons_self]
    | cons c v =>
      rw [List.cons_append, begins, begins,
        ih fun c first p member => stop c first p (List.mem_cons_of_mem _ member)]

theorem pieces_word_of_head (stop : ∀ c ∈ b.head?, ∀ p ∈ ps, same p c = false) (a : List α) :
    pieces (word same ps) 0 (a ++ b) = pieces (word same ps) 0 a ++ pieces (word same ps) 0 b :=
  pieces_append bounded_word (fun v _ => by rw [word, word, begins_append stop]) a

theorem pieces_word_of_last {x : α} (last : a.getLast? = some x)
    (stop : ∀ p ∈ ps, same p x = false) (b : List α) :
    pieces (word same ps) 0 (a ++ b) = pieces (word same ps) 0 a ++ pieces (word same ps) 0 b := by
  obtain ⟨a, rfl⟩ := List.getLast?_eq_some_iff.mp last
  have stops : ∀ t : List α, ∀ c ∈ (x :: t).head?, ∀ p ∈ ps, same p c = false := by
    intro t c first
    cases first
    exact stop
  have single : pieces (word same ps) 0 ([x] ++ b) = .inl x :: pieces (word same ps) 0 b ∧
      pieces (word same ps) 0 [x] = [.inl x] := by
    cases ps with
    | nil => exact ⟨pieces_other (.inr rfl), pieces_other (.inr rfl)⟩
    | cons p ps =>
      have none : ∀ t, word same (p :: ps) (x :: t) = none := fun t => by
        simp [word, begins, stop p List.mem_cons_self]
      exact ⟨pieces_other (.inl (none b)), pieces_other (.inl (none []))⟩
  rw [List.append_assoc, pieces_word_of_head (b := [x] ++ b) (stops b),
    pieces_word_of_head (stops []), single.2, single.1, List.append_assoc]
  rfl

end Words

section Weights

variable {weight : α → Int}

variable (weight) in
def measure (t : List α) : Int := (t.map weight).sum

@[simp] theorem measure_nil : measure weight [] = 0 := rfl

@[simp] theorem measure_cons (c : α) (t : List α) :
    measure weight (c :: t) = weight c + measure weight t := List.sum_cons

@[simp] theorem measure_append (a b : List α) :
    measure weight (a ++ b) = measure weight a + measure weight b := by
  rw [measure, List.map_append, List.sum_append]
  rfl

theorem measure_eq_zero (light : ∀ c ∈ t, weight c = 0) : measure weight t = 0 :=
  List.sum_eq_zero fun x member => by
    obtain ⟨c, inside, rfl⟩ := List.mem_map.mp member
    exact light c inside

theorem measure_of_begins {same : α → α → Bool} {ps w r : List α}
    (alike : ∀ p ∈ ps, ∀ c, same p c = true → weight c = weight p)
    (here : begins same ps (w ++ r) = true) (length : w.length = ps.length) :
    measure weight w = measure weight ps := by
  induction ps generalizing w with
  | nil => rw [List.length_eq_zero_iff.mp length]
  | cons p ps ih =>
    cases w with
    | nil => cases length
    | cons c w =>
      rw [List.cons_append, begins, Bool.and_eq_true] at here
      rw [measure_cons, measure_cons, alike p List.mem_cons_self c here.1,
        ih (fun p member => alike p (List.mem_cons_of_mem _ member)) here.2 (Nat.succ.inj length)]

theorem measure_of_word {same : α → α → Bool} {ps w r : List α}
    (alike : ∀ p ∈ ps, ∀ c, same p c = true → weight c = weight p)
    (found : word same ps (w ++ r) = some w.length) : measure weight w = measure weight ps := by
  rw [word] at found
  split at found
  · rename_i here
    exact measure_of_begins alike here (Option.some.inj found).symm
  · cases found

variable (m f weight) in
def Raises : Prop := ∀ w r, m (w ++ r) = some w.length → measure weight w < measure weight (f w)

variable (m f weight) in
def Keeps : Prop := ∀ w r, m (w ++ r) = some w.length → measure weight w = measure weight (f w)

theorem raises_word {same : α → α → Bool} {ps v : List α}
    (alike : ∀ p ∈ ps, ∀ c, same p c = true → weight c = weight p)
    (lt : measure weight ps < measure weight v) : Raises (word same ps) (fun _ => v) weight :=
  fun _ _ found => (measure_of_word alike found).trans_lt lt

theorem keeps_word {same : α → α → Bool} {ps v : List α}
    (alike : ∀ p ∈ ps, ∀ c, same p c = true → weight c = weight p)
    (equal : measure weight ps = measure weight v) : Keeps (word same ps) (fun _ => v) weight :=
  fun _ _ found => (measure_of_word alike found).trans equal

theorem measure_sub (bounded : Bounded m) (keeps : Keeps m f weight) (t : List α) :
    measure weight (sub m f t) = measure weight t := by
  induction t using pieces_induction bounded with
  | nil => rfl
  | other c t other ih => rw [sub_other other, measure_cons, measure_cons, ih]
  | found w r some_element found ih =>
    rw [sub_of_match found some_element, measure_append, measure_append, ih, keeps w r found]

theorem measure_le_sub (bounded : Bounded m) (raises : Raises m f weight) (t : List α) :
    measure weight t ≤ measure weight (sub m f t) := by
  induction t using pieces_induction bounded with
  | nil => exact le_refl _
  | other c t other ih =>
    rw [sub_other other, measure_cons, measure_cons]
    omega
  | found w r some_element found ih =>
    have raised := raises w r found
    rw [sub_of_match found some_element, measure_append, measure_append]
    omega

theorem measure_lt_sub (bounded : Bounded m) (raises : Raises m f weight)
    (some_match : occurs m t = true) : measure weight t < measure weight (sub m f t) := by
  induction t using pieces_induction bounded with
  | nil => cases some_match
  | other c t other ih =>
    rw [occurs, pieces_other other] at some_match
    rw [sub_other other, measure_cons, measure_cons]
    have raised := ih some_match
    omega
  | found w r some_element found ih =>
    have raised := raises w r found
    have rest := measure_le_sub bounded raises r
    rw [sub_of_match found some_element, measure_append, measure_append]
    omega

theorem measure_flatMap {β : Type u} (l : List β) (F : β → List α) :
    measure weight (l.flatMap F) = (l.map fun s => measure weight (F s)).sum := by
  induction l with
  | nil => rfl
  | cons s l ih => rw [List.flatMap_cons, measure_append, ih, List.map_cons, List.sum_cons]

/-- Equal in sum, and nowhere heavier: equal everywhere. -/
theorem measure_flatMap_eq {β : Type u} {l : List β} {F G : β → List α}
    (le : ∀ s ∈ l, measure weight (F s) ≤ measure weight (G s))
    (equal : measure weight (l.flatMap F) = measure weight (l.flatMap G)) :
    ∀ s ∈ l, measure weight (F s) = measure weight (G s) := by
  rw [measure_flatMap, measure_flatMap] at equal
  by_contra different
  push Not at different
  obtain ⟨s, member, other⟩ := different
  exact absurd equal (ne_of_lt (List.sum_lt_sum _ _ le ⟨s, member, lt_of_le_of_ne (le s member) other⟩))

end Weights

section Segments

variable {n : List α → Option Nat} {weight : α → Int}

def gather : List α → List (α ⊕ List α) → List (List α ⊕ List α)
  | run, [] => [.inl run]
  | run, .inl c :: l => gather (run ++ [c]) l
  | run, .inr w :: l => .inl run :: .inr w :: gather [] l

variable (m) in
def segments (t : List α) : List (List α ⊕ List α) := gather [] (pieces m 0 t)

variable (m) in
def outside (g : List α → List α) (t : List α) : List α :=
  (segments m t).flatMap (Sum.elim g id)

variable (m) in
def Splits (g : List α → List α) : Prop := ∀ run w r, m (w ++ r) = some w.length → w ≠ [] →
  g (run ++ (w ++ r)) = g run ++ (g w ++ g r)

theorem eq_flatMap_segments {g : List α → List α} (bounded : Bounded m) (splits : Splits m g)
    (t : List α) : g t = (segments m t).flatMap (Sum.elim g g) := by
  suffices all : ∀ run, g (run ++ t) = (gather run (pieces m 0 t)).flatMap (Sum.elim g g) from all []
  induction t using pieces_induction bounded with
  | nil =>
    intro run
    simp [pieces, gather]
  | other c t other ih =>
    intro run
    rw [pieces_other other, gather, ← ih, List.append_assoc]
    rfl
  | found w r some_element found ih =>
    intro run
    rw [splits run w r found some_element, pieces_of_match found some_element, gather,
      List.flatMap_cons, List.flatMap_cons, ← ih []]
    rfl

theorem segments_flatten (bounded : Bounded m) (t : List α) :
    t = (segments m t).flatMap (Sum.elim id id) :=
  eq_flatMap_segments (g := id) bounded (fun _ _ _ _ _ => rfl) t

theorem measure_outside (bounded : Bounded m) (bounded' : Bounded n) (keeps : Keeps n f weight)
    (t : List α) : measure weight (outside m (sub n f) t) = measure weight t := by
  have flat := congrArg (measure weight) (segments_flatten bounded t)
  rw [measure_flatMap] at flat
  rw [outside, measure_flatMap, flat]
  refine congrArg List.sum (List.map_congr_left fun s _ => ?_)
  cases s with
  | inl run => exact measure_sub bounded' keeps run
  | inr w => rfl

variable (m n) in
/-- Where the word is replaced everywhere, no region holds it; where it is left, nothing else does. -/
structure Placed (everywhere : Bool) (t : List α) : Prop where
  region : everywhere = true → ∀ w, .inr w ∈ segments m t → occurs n w = false
  run : everywhere = false → ∀ run, .inl run ∈ segments m t → occurs n run = false

theorem outside_of_placed {everywhere : Bool} (bounded : Bounded m) (bounded' : Bounded n)
    (splits : Splits m (sub n f)) (placed : Placed m n everywhere t) :
    outside m (sub n f) t = if everywhere then sub n f t else t := by
  cases everywhere with
  | true =>
    rw [if_pos rfl, eq_flatMap_segments bounded splits t, outside]
    refine List.flatMap_congr fun s member => ?_
    cases s with
    | inl run => rfl
    | inr w => exact (sub_of_not_occurs bounded' (placed.region rfl w member)).symm
  | false =>
    refine Eq.trans ?_ (segments_flatten bounded t).symm
    refine List.flatMap_congr fun s member => ?_
    cases s with
    | inl run => exact sub_of_not_occurs bounded' (placed.run rfl run member)
    | inr w => rfl

theorem placed_of_measure {everywhere : Bool} (bounded : Bounded m) (bounded' : Bounded n)
    (splits : Splits m (sub n f)) (raises : Raises n f weight)
    (equal : measure weight (if everywhere then sub n f t else t) =
      measure weight (outside m (sub n f) t)) : Placed m n everywhere t := by
  have clean : ∀ u, measure weight u = measure weight (sub n f u) → occurs n u = false := by
    intro u same
    by_contra some_match
    exact absurd same (ne_of_lt (measure_lt_sub bounded' raises (Bool.not_eq_false _ ▸ some_match)))
  constructor
  · rintro rfl w member
    rw [if_pos rfl, eq_flatMap_segments bounded splits t, outside] at equal
    refine clean w (measure_flatMap_eq (fun s _ => ?_) equal.symm (.inr w) member)
    cases s with
    | inl run => exact le_refl _
    | inr w => exact measure_le_sub bounded' raises w
  · rintro rfl run member
    have whole : measure weight ((segments m t).flatMap (Sum.elim id id)) =
        measure weight ((segments m t).flatMap (Sum.elim (sub n f) id)) := by
      rw [← segments_flatten bounded t]
      exact equal
    refine clean run (measure_flatMap_eq (fun s _ => ?_) whole (.inl run) member)
    cases s with
    | inl run => exact measure_le_sub bounded' raises run
    | inr w => exact le_refl _

end Segments

end Matches
