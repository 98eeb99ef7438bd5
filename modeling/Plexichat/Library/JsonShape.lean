import Plexichat.Library.JsonRoundTrip
import Plexichat.Library.Numeral

/-! What the texts of json.dumps look like at their ends, and which texts hold a dict or a
number. -/
namespace Json

variable {F : Type}

variable [Floats F] {limit : Nat} {t : List Char} {l : List (Str × Value F Str)}

theorem scalar_ne_dict {rest : List Char} : scalar t ≠ .ok ((.dict l : Value F Str), rest) := by
  have number : ∀ minus t, unsigned minus t ≠ .ok ((.dict l : Value F Str), rest) := by
    intro minus t same
    unfold unsigned at same
    split at same
    · cases same
    · simp only at same
      split at same
      · split at same <;> cases same
      · cases same
  intro same
  unfold scalar at same
  split at same
  case h_7 | h_8 => exact number _ _ same
  all_goals cases same

theorem loads_dict (read : loads limit t = .ok (.dict l)) : ∃ rest, skip t = '{' :: rest := by
  unfold loads at read
  split at read
  · cases read
  · obtain ⟨⟨v, rest⟩, scanned, more⟩ := bind_eq_ok.mp read
    have dict : v = .dict l := by
      simp only at more
      split at more
      · exact Except.ok.inj more
      · cases more
    subst dict
    generalize skip t = u at scanned ⊢
    cases front : opening u with
    | object more =>
      unfold opening at front
      split at front
      · cases front
      · cases front
      · exact ⟨_, rfl⟩
      · cases front
    | string more =>
      rw [scan.eq_def] at scanned
      simp only [front] at scanned
      obtain ⟨s, _, same⟩ := bind_eq_ok.mp scanned
      cases same
    | array more =>
      rw [scan.eq_def] at scanned
      cases limit with
      | zero => simp [front] at scanned
      | succ n =>
        simp only [front] at scanned
        obtain ⟨items, _, same⟩ := bind_eq_ok.mp scanned
        cases same
    | scalar =>
      rw [scan_scalar front] at scanned
      exact absurd scanned scalar_ne_dict

theorem loads_ne_dict (none : '{' ∉ t) : loads limit t ≠ .ok (.dict l) := by
  intro read
  obtain ⟨rest, front⟩ := loads_dict read
  have member : '{' ∈ skip t := front ▸ List.mem_cons_self
  exact none ((List.dropWhile_sublist _).subset member)

theorem dumpsMembers_ends (written : dumpsMembers limit l = .ok t) : ∃ u, t = u ++ ['}'] := by
  induction l generalizing t with
  | nil =>
    cases written
    exact ⟨[], rfl⟩
  | cons x l ih =>
    obtain ⟨first, _, more⟩ := bind_eq_ok.mp written
    obtain ⟨rest, members, more⟩ := bind_eq_ok.mp more
    obtain ⟨u, rfl⟩ := ih members
    cases more
    exact ⟨_, (List.append_assoc _ _ _).symm⟩

theorem dumps_dict_ends (written : dumps limit (.dict l) = .ok t) :
    ∃ u, t = '{' :: u ++ ['}'] := by
  cases limit with
  | zero => cases written
  | succ limit =>
    cases l with
    | nil =>
      cases written
      exact ⟨[], rfl⟩
    | cons x l =>
      obtain ⟨first, _, more⟩ := bind_eq_ok.mp written
      obtain ⟨rest, members, more⟩ := bind_eq_ok.mp more
      obtain ⟨u, rfl⟩ := dumpsMembers_ends members
      cases more
      exact ⟨_, (List.append_assoc _ _ _).symm⟩

theorem dumps_list_front {l : List (Value F Str)} (written : dumps limit (.list l) = .ok t) :
    ∃ u, t = '[' :: u := by
  cases limit with
  | zero => cases written
  | succ limit =>
    cases l with
    | nil =>
      cases written
      exact ⟨_, rfl⟩
    | cons v l =>
      obtain ⟨first, _, more⟩ := bind_eq_ok.mp written
      obtain ⟨rest, _, more⟩ := bind_eq_ok.mp more
      cases more
      exact ⟨_, rfl⟩

def inFloat (c : Char) : Bool := c.isDigit || "NaInfity.e+-".toList.contains c

theorem inFloat_of_digits {ds : List Char} (digits : Digits ds) : ∀ c ∈ ds, inFloat c = true :=
  fun c member => by rw [inFloat, digits.2 c member, Bool.true_or]

/-- A character shows that the text is no number, and none that it is a dict. -/
theorem repr_shape [LawfulFloats F] (x : F) : (∀ c ∈ Floats.repr x, inFloat c = true) ∧
    ∃ c ∈ Floats.repr x, Numeral.isSpace c = false ∧ Numeral.isNumeric c = false := by
  rcases LawfulFloats.text x with ⟨_, text⟩ | ⟨_, text⟩ | ⟨_, text⟩ |
    ⟨_, minus, w, f, e, whole, fraction, exponent, pointed, text⟩
  · rw [text]
    exact ⟨List.all_eq_true.mp (by decide +kernel), 'N', by simp, by decide +kernel⟩
  · rw [text]
    exact ⟨List.all_eq_true.mp (by decide +kernel), 'I', by simp, by decide +kernel⟩
  · rw [text]
    exact ⟨List.all_eq_true.mp (by decide +kernel), 'I', by simp, by decide +kernel⟩
  · have digits : ∀ c ∈ w, inFloat c = true := by
      rcases whole with rfl | ⟨_, digits⟩
      · exact List.all_eq_true.mp rfl
      · exact inFloat_of_digits digits
    have sign : ∀ c ∈ if minus then ['-'] else [], inFloat c = true := by
      cases minus <;> exact List.all_eq_true.mp rfl
    rw [text]
    constructor
    · intro c member
      simp only [List.mem_append] at member
      rcases member with ((member | member) | member) | member
      · exact sign c member
      · exact digits c member
      · rcases fraction with rfl | ⟨ds, all, rfl⟩
        · cases member
        · rcases List.mem_cons.mp member with rfl | member
          · decide
          · exact inFloat_of_digits all c member
      · rcases exponent with rfl | ⟨s, ds, plus, all, rfl⟩
        · cases member
        · rcases List.mem_cons.mp member with rfl | member
          · decide
          rcases List.mem_cons.mp member with rfl | member
          · rcases plus with rfl | rfl <;> decide
          · exact inFloat_of_digits all c member
    · rcases pointed with point | mark
      · obtain ⟨ds, _, rfl⟩ := fraction.resolve_left point
        exact ⟨'.', by simp, by decide +kernel⟩
      · obtain ⟨s, ds, _, _, rfl⟩ := exponent.resolve_left mark
        exact ⟨'e', by simp, by decide +kernel⟩

end Json
