import Plexichat.Artifacts.Retention
import Plexichat.Library.JsonShape

/-! The days that the job reads of the column of a policy, against those that the manager has
read of the policy. -/
namespace Plexichat.Artifacts.Retention
open Json

variable {F : Type}

section Days

variable (host : Host F)

def textDays [Floats F] (text : List Char) : Value F Str := rawDays host (Numeral.strip text)

def Positive (v : Value F Str) (days : Int) : Prop := toInt host v = .ok days ∧ 0 < days

def Infinite (v : Value F Str) : Prop := toInt host v = .error .overflow

def Vain (v : Value F Str) : Prop := ¬Infinite host v ∧ ∀ days, ¬Positive host v days

variable {host} {v : Value F Str} {days : Int}

theorem vain_null : Vain host .null :=
  ⟨fun infinite => (by cases infinite), fun _ positive => (by cases positive.1)⟩

theorem positive_cases : (∃ days, positive host v = some (some days) ∧ Positive host v days) ∨
    (positive host v = some none ∧ Vain host v) ∨ (positive host v = none ∧ Infinite host v) := by
  unfold positive
  cases read : toInt host v with
  | ok n =>
    by_cases above : 0 < n
    · exact .inl ⟨n, by simp [above], read, above⟩
    · refine .inr (.inl ⟨by simp [above], ?_, ?_⟩)
      · exact fun infinite => by cases read.symm.trans infinite
      · intro days other
        cases read.symm.trans other.1
        exact above other.2
  | error e =>
    cases e with
    | refused =>
      refine .inr (.inl ⟨rfl, ?_, ?_⟩)
      · exact fun infinite => by cases read.symm.trans infinite
      · exact fun days other => by cases read.symm.trans other.1
    | overflow => exact .inr (.inr ⟨rfl, read⟩)

theorem positive_eq_some : positive host v = some (some days) ↔ Positive host v days := by
  constructor
  · intro same
    rcases positive_cases with ⟨other, value, holds⟩ | ⟨value, _⟩ | ⟨value, _⟩
    · cases same.symm.trans value
      exact holds
    · cases same.symm.trans value
    · cases same.symm.trans value
  · intro holds
    simp [positive, holds.1, holds.2]

theorem positive_eq_none : positive host v = none ↔ Infinite host v := by
  constructor
  · intro same
    rcases positive_cases with ⟨other, value, _⟩ | ⟨value, _⟩ | ⟨_, infinite⟩
    · cases same.symm.trans value
    · cases same.symm.trans value
    · exact infinite
  · intro infinite
    have read : toInt host v = .error .overflow := infinite
    simp [positive, read]

theorem computeExpiresAt_eq_some {createdAt : Int} {expiresAt : Option Int}
    (computed : computeExpiresAt host v createdAt = some expiresAt) :
    (∃ days, Positive host v days ∧ expiresAt = some (createdAt + days * perDay)) ∨
      (Vain host v ∧ expiresAt = none) := by
  unfold computeExpiresAt at computed
  rcases @positive_cases F host v with ⟨days, _, holds⟩ | ⟨value, vain⟩ | ⟨_, infinite⟩
  · rw [holds.1] at computed
    simp only [if_neg (Int.not_le.mpr holds.2)] at computed
    exact .inl ⟨days, holds, (Option.some.inj computed).symm⟩
  · refine .inr ⟨vain, ?_⟩
    split at computed
    · rename_i n read
      have low : n ≤ 0 := by
        by_contra above
        exact vain.2 n ⟨read, by omega⟩
      rw [if_pos low] at computed
      exact (Option.some.inj computed).symm
    · exact (Option.some.inj computed).symm
    · cases computed
  · have read : toInt host v = .error .overflow := infinite
    rw [read] at computed
    cases computed

theorem expiry_eq_none {createdAt : Int} {expiresAt : Option Int}
    (computed : computeExpiresAt host v createdAt = some expiresAt) :
    expiresAt = none ↔ Vain host v := by
  rcases computeExpiresAt_eq_some computed with ⟨days, holds, same⟩ | ⟨vain, same⟩
  · simp only [same, reduceCtorEq, false_iff]
    exact fun vain => vain.2 days holds
  · simp [same, vain]

theorem vain_iff {createdAt : Int} {expiresAt : Option Int}
    (computed : computeExpiresAt host v createdAt = some expiresAt) :
    Vain host v ↔ ∀ days, ¬Positive host v days := by
  rcases computeExpiresAt_eq_some computed with ⟨days, holds, _⟩ | ⟨vain, _⟩
  · exact ⟨fun vain => vain.2, fun none => absurd holds (none days)⟩
  · exact ⟨fun vain => vain.2, fun _ => vain⟩

theorem orElse_of_ne_null {w : Value F Str} (here : v ≠ .null) : orElse v w = v := by
  cases v with
  | null => exact absurd rfl here
  | _ => rfl

variable [Floats F] {t : List Char}

theorem textDays_eq_int {n : Int} (flat : '{' ∉ t) (read : Numeral.int t = some n) :
    textDays host t = .int n := by
  have nothing : ∀ l : List (Str × Value F Str),
      loads host.depth (Numeral.strip t) ≠ .ok (.dict l) :=
    fun _ => loads_ne_dict fun member => flat (Numeral.mem_of_mem_strip member)
  unfold textDays rawDays
  split
  · rename_i l found
    exact absurd found (nothing l)
  · rw [Numeral.int_strip read]

theorem textDays_eq_null
    (nothing : ∀ l : List (Str × Value F Str), loads host.depth (Numeral.strip t) ≠ .ok (.dict l))
    (unread : Numeral.int (Numeral.strip t) = none) : textDays host t = .null := by
  unfold textDays rawDays
  split
  · rename_i l found
    exact absurd found (nothing l)
  · rw [unread]

theorem not_mem_of_int {n : Int} (read : Numeral.int t = some n) : '{' ∉ t := by
  intro member
  rcases Numeral.int_numeric read _ member with blank | numeric
  · exact absurd blank (by decide)
  · exact absurd numeric (by decide +kernel)

theorem textDays_list {l : List (Value F Str)} (written : dumps host.depth (.list l) = .ok t) :
    textDays host t = .null := by
  obtain ⟨u, rfl⟩ := dumps_list_front written
  obtain ⟨rest, front⟩ := @Numeral.trim_cons Numeral.isSpace '[' (by decide) u
  have stripped : Numeral.strip ('[' :: u) = '[' :: rest := front
  apply textDays_eq_null
  · intro l read
    rw [stripped] at read
    obtain ⟨more, brace⟩ := loads_dict read
    cases brace
  · rw [stripped]
    exact Numeral.int_eq_none List.mem_cons_self (by decide +kernel)

theorem textDays_bool {b : Bool} (written : dumps host.depth (.bool b : Value F Str) = .ok t) :
    textDays host t = .null := by
  apply textDays_eq_null
  · intro l
    apply loads_ne_dict
    cases b <;> (cases written; decide)
  · cases b <;> (cases written; decide +kernel)

theorem dumps_of_stored {p : Value F Str} (written : stored host p = some (some t))
    (other : ∀ s, p ≠ .str s) : dumps host.depth p = .ok t := by
  unfold stored at written
  split at written
  · cases written
  · exact absurd rfl (other _)
  · split at written
    · rename_i text
      obtain rfl := Option.some.inj (Option.some.inj written)
      exact text
    · cases written

variable [LawfulFloats F]

theorem textDays_dict {l : List (Str × Value F Str)}
    (clean : (Value.dict l).all (fun s => decide (join s = s)) cleanKeys = true)
    (written : dumps host.depth (.dict l) = .ok t) : textDays host t = get l (name "days") := by
  have whole : Numeral.strip t = t := by
    obtain ⟨u, rfl⟩ := dumps_dict_ends written
    exact Numeral.trim_ends (by decide) (by decide) u
  have read : loads host.depth t = .ok (.dict l) := by
    have back : loads host.depth (t ++ []) = .ok (readBack dictOf (.dict l)) :=
      loads_dumps written (by simp)
    rwa [List.append_nil, readBack_eq clean] at back
  unfold textDays rawDays
  rw [whole, read]

theorem textDays_float (x : F) : textDays host (Floats.repr x) = .null := by
  obtain ⟨known, c, member, visible, other⟩ := repr_shape x
  apply textDays_eq_null
  · intro l
    apply loads_ne_dict
    intro brace
    exact absurd (known _ (Numeral.mem_of_mem_strip brace)) (by decide)
  · exact Numeral.int_eq_none (Numeral.mem_strip member visible)
      ⟨by rw [Numeral.isBlank, visible, Bool.false_and], other⟩

/-- What the manager reads of a policy and cannot use is of no use in its column either, unless
it is a text that is no number. -/
theorem vain_stored {p : Value F Str}
    (clean : p.all (fun s => decide (join s = s)) cleanKeys = true)
    (written : stored host p = some (some t)) (read : policyDays host p = some v)
    (vain : Vain host v) (readable : v ≠ .null ∨ ∀ s, p ≠ .str s) :
    Vain host (textDays host t) := by
  cases p with
  | null => cases written
  | bool b =>
    rw [textDays_bool (dumps_of_stored written (by simp))]
    exact vain_null
  | int n =>
    have number : Numeral.int t = some n :=
      Numeral.int_dumpsInt (dumps_of_stored written (by simp))
    rw [textDays_eq_int (not_mem_of_int number) number]
    cases read
    exact vain
  | float x =>
    cases written
    rw [textDays_float]
    exact vain_null
  | str s =>
    have explicit := readable.resolve_right fun none => none s rfl
    simp only [stored] at written
    split at written
    · rename_i text
      obtain rfl := Option.some.inj (Option.some.inj written)
      simp only [policyDays, toInt, if_pos text] at read
      split at read
      · rename_i n converted
        split at converted
        · rename_i m number
          rw [textDays_eq_int (not_mem_of_int number) number]
          cases converted
          cases read
          exact vain
        · cases converted
      · cases read
        exact absurd rfl explicit
      · cases read
    · cases written
  | list l =>
    rw [textDays_list (dumps_of_stored written (by simp))]
    exact vain_null
  | dict l =>
    rw [textDays_dict clean (dumps_of_stored written (by simp))]
    cases read
    exact vain

end Days

end Plexichat.Artifacts.Retention
