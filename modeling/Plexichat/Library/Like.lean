import Mathlib.Data.List.Forall2
import Mathlib.Data.List.Infix

/-! LIKE of SQL. Which characters are one and the same to it, and whether a backslash escapes,
differs between databases. -/
namespace Like

structure Dialect where
  fold : Char → Char
  backslash : Bool

inductive Item where
  /-- `%` -/
  | any
  /-- `_` -/
  | one
  | char (c : Char)
  deriving DecidableEq

def item (c : Char) : Item :=
  if c = '%' then .any else if c = '_' then .one else .char c

section Patterns

variable (d : Dialect)

/-- None is the error of a pattern that ends in the escape. -/
def items : List Char → Option (List Item)
  | [] => some []
  | c :: rest =>
    if d.backslash ∧ c = '\\' then
      match rest with
      | [] => none
      | x :: rest => (items rest).map (.char x :: ·)
    else (items rest).map (item c :: ·)

def accepts : List Item → List Char → Bool
  | [], t => t.isEmpty
  | .any :: p, t => t.tails.any (accepts p)
  | .one :: p, t =>
    match t with
    | [] => false
    | _ :: t => accepts p t
  | .char x :: p, t =>
    match t with
    | [] => false
    | c :: t => d.fold x == d.fold c && accepts p t

/-- `t LIKE p` -/
def like (p t : List Char) : Bool := (items d p).any fun p => accepts d p t

end Patterns

variable {d : Dialect} {p t : List Char}

def Fits (d : Dialect) (x c : Char) : Prop := x = '_' ∨ d.fold x = d.fold c

theorem items_cons {c : Char} (other : c ≠ '\\') (rest : List Char) :
    items d (c :: rest) = (items d rest).map (item c :: ·) := by
  cases rest <;> simp [items, other]

theorem items_append (steady : '\\' ∉ p) (q : List Char) :
    items d (p ++ q) = (items d q).map (p.map item ++ ·) := by
  induction p with
  | nil => simp
  | cons c p ih =>
    have other : c ≠ '\\' := fun e => steady (e ▸ List.mem_cons_self)
    have rest := ih fun member => steady (List.mem_cons_of_mem c member)
    rw [List.cons_append, items_cons other, rest, Option.map_map]
    rfl

theorem items_eq (steady : '\\' ∉ p) : items d p = some (p.map item) := by
  simpa [items] using items_append (d := d) steady []

theorem items_percent (p : List Char) : items d ('%' :: p) = (items d p).map (.any :: ·) :=
  items_cons (by decide) p

theorem accepts_any (p : List Item) (t : List Char) :
    accepts d (.any :: p) t = true ↔ ∃ before after, t = before ++ after ∧ accepts d p after := by
  simp only [accepts, List.any_eq_true, List.mem_tails]
  constructor
  · rintro ⟨after, ⟨before, rfl⟩, rest⟩
    exact ⟨before, after, rfl, rest⟩
  · rintro ⟨before, after, rfl, rest⟩
    exact ⟨after, ⟨before, rfl⟩, rest⟩

theorem accepts_map_append (single : '%' ∉ p) (q : List Item) (t : List Char) :
    accepts d (p.map item ++ q) t = true ↔
      ∃ part after, t = part ++ after ∧ List.Forall₂ (Fits d) p part ∧ accepts d q after := by
  induction p generalizing t with
  | nil => simp
  | cons x p ih =>
    have percent : x ≠ '%' := fun e => single (e ▸ List.mem_cons_self)
    have rest := ih fun member => single (List.mem_cons_of_mem x member)
    cases t with
    | nil =>
      have refused : accepts d ((x :: p).map item ++ q) [] = false := by
        by_cases wild : x = '_' <;> simp [item, percent, wild, accepts]
      simp only [refused, Bool.false_eq_true, false_iff]
      rintro ⟨part, after, empty, fits, -⟩
      cases fits
      cases empty
    | cons c t =>
      have front : accepts d ((x :: p).map item ++ q) (c :: t) = true ↔
          Fits d x c ∧ accepts d (p.map item ++ q) t = true := by
        by_cases wild : x = '_' <;> simp [item, percent, wild, accepts, Fits]
      rw [front, rest]
      constructor
      · rintro ⟨first, part, after, rfl, fits, last⟩
        exact ⟨c :: part, after, rfl, .cons first fits, last⟩
      · rintro ⟨part, after, whole, fits, last⟩
        cases fits with
        | cons first fits =>
          cases whole
          exact ⟨first, _, after, rfl, fits, last⟩

theorem map_eq_of_fits (plain : '_' ∉ p) (fits : List.Forall₂ (Fits d) p t) :
    t.map d.fold = p.map d.fold := by
  induction fits with
  | nil => rfl
  | cons fit _ ih =>
    have same := fit.resolve_left fun e => plain (e ▸ List.mem_cons_self)
    have rest := ih fun member => plain (List.mem_cons_of_mem _ member)
    simp only [List.map_cons, same, rest]

theorem like_end (steady : '\\' ∉ p) (single : '%' ∉ p) :
    like d ('%' :: p) t = true ↔
      ∃ before part, t = before ++ part ∧ List.Forall₂ (Fits d) p part := by
  have found := fun after => accepts_map_append (d := d) single [] after
  simp only [List.append_nil, accepts, List.isEmpty_iff] at found
  simp only [like, items_percent, items_eq steady, Option.map_some, Option.any_some, accepts_any,
    found]
  constructor
  · rintro ⟨before, _, rfl, part, after, rfl, fits, rfl⟩
    exact ⟨before, part, by simp, fits⟩
  · rintro ⟨before, part, rfl, fits⟩
    exact ⟨before, part, rfl, part, [], by simp, fits, rfl⟩

theorem like_within (steady : '\\' ∉ p) (single : '%' ∉ p) :
    like d ('%' :: p ++ ['%']) t = true ↔
      ∃ before part after, t = before ++ part ++ after ∧ List.Forall₂ (Fits d) p part := by
  have last : items d ['%'] = some [.any] := by simp [items, item]
  have everything : ∀ after, accepts d [.any] after = true := fun after =>
    (accepts_any [] after).mpr ⟨after, [], by simp, rfl⟩
  simp only [like, List.cons_append, items_percent, items_append steady, last, Option.map_some,
    Option.any_some, accepts_any, accepts_map_append single, everything, and_true]
  constructor
  · rintro ⟨before, _, rfl, part, after, rfl, fits⟩
    exact ⟨before, part, after, by simp, fits⟩
  · rintro ⟨before, part, after, rfl, fits⟩
    exact ⟨before, part ++ after, by simp, part, after, rfl, fits⟩

end Like
