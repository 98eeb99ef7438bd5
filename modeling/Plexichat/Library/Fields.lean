import Mathlib.Data.List.Basic

/-! Texts joined by a separator that the texts themselves may hold. What is without it up to the next
separator can be told apart from the rest; what holds it cannot. -/
namespace Fields

universe u

variable {α : Type u} {sep : α} {a b r r' : List α}

def fields (sep : α) (parts : List (List α)) : List α := parts.flatMap (sep :: ·)

@[simp] theorem fields_nil : fields sep [] = [] := rfl

@[simp] theorem fields_cons (part : List α) (parts : List (List α)) :
    fields sep (part :: parts) = sep :: (part ++ fields sep parts) := rfl

theorem intercalate_cons (first : List α) (parts : List (List α)) :
    List.intercalate [sep] (first :: parts) = first ++ fields sep parts := by
  induction parts generalizing first with
  | nil => simp
  | cons part parts ih =>
    rw [List.intercalate_cons_cons, ih, fields_cons, List.append_assoc]
    rfl

def Ended (sep : α) (r : List α) : Prop := r = [] ∨ ∃ r', r = sep :: r'

theorem Ended.nil : Ended sep [] := .inl rfl

theorem Ended.cons (r : List α) : Ended sep (sep :: r) := .inr ⟨r, rfl⟩

theorem front_unique (left : sep ∉ a) (right : sep ∉ b) (ended : Ended sep r) (ended' : Ended sep r')
    (same : a ++ r = b ++ r') : a = b ∧ r = r' := by
  induction a generalizing b with
  | nil =>
    cases b with
    | nil => exact ⟨rfl, same⟩
    | cons y b =>
      rcases ended with rfl | ⟨r, rfl⟩
      · cases same
      · cases same
        exact absurd List.mem_cons_self right
  | cons x a ih =>
    rw [List.mem_cons, not_or] at left
    cases b with
    | nil =>
      rcases ended' with rfl | ⟨r', rfl⟩
      · cases same
      · cases same
        exact absurd rfl left.1
    | cons y b =>
      rw [List.mem_cons, not_or] at right
      obtain ⟨rfl, behind⟩ := List.cons.inj same
      obtain ⟨rfl, rests⟩ := ih left.2 right.2 behind
      exact ⟨rfl, rests⟩

end Fields
