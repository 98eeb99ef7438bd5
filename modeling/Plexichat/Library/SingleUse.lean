import Plexichat.Library.Table

/-! What is good for one use: a row that a conditional UPDATE marks as used, and a key
that is claimed until a deadline. -/
namespace SingleUse

universe u v

section Rows

variable {ρ : Type u} {κ : Type v} {key : ρ → κ} (used : ρ → Bool)

def Spent (t : Table ρ key) (taken : List κ) : Prop :=
  ∀ k ∈ taken, ∀ r ∈ t, key r = k → used r = true

variable {used} {t t' : Table ρ key} {taken : List κ} {mark : ρ → ρ}
  {same : ∀ r, key (mark r) = key r} {k : κ}

theorem Spent.nil : Spent used t [] := fun _ h => absurd h List.not_mem_nil

theorem Spent.update (spent : Spent used t taken) (p : ρ → Bool) {f : ρ → ρ}
    (kept : ∀ r, key (f r) = key r) (keeps : ∀ r, used r = true → used (f r) = true) :
    Spent used (t.update p f kept) taken := by
  intro k member r there here
  obtain ⟨q, old, rfl⟩ := Table.mem_update.mp there
  by_cases touched : p q = true
  · rw [if_pos touched] at here ⊢
    exact keeps q (spent k member q old ((kept q).symm.trans here))
  · rw [if_neg touched] at here ⊢
    exact spent k member q old here

theorem Spent.delete (spent : Spent used t taken) (p : ρ → Bool) :
    Spent used (t.delete p) taken := by
  intro k member r there here
  exact spent k member r (Table.mem_delete.mp there).1 here

variable [DecidableEq κ]

/-- UPDATE where the key is `k` and the row unused; none is a row count of zero. -/
def consume (used : ρ → Bool) (mark : ρ → ρ) (same : ∀ r, key (mark r) = key r)
    (t : Table ρ key) (k : κ) : Option (Table ρ key) :=
  if (t.find k).any fun r => !used r then some (t.update (fun r => key r = k) mark same) else none

theorem Spent.fresh (spent : Spent used t taken) (h : consume used mark same t k = some t') :
    k ∉ taken := by
  intro member
  unfold SingleUse.consume at h
  split at h
  · rename_i unused
    obtain ⟨r, found, free⟩ := Option.any_eq_true _ _ |>.mp unused
    obtain ⟨there, here⟩ := Table.find_eq_some.mp found
    rw [spent k member r there here] at free
    cases free
  · cases h

theorem Spent.consume (spent : Spent used t taken) (marked : ∀ r, used (mark r) = true)
    (h : consume used mark same t k = some t') : Spent used t' (k :: taken) := by
  unfold SingleUse.consume at h
  split at h
  · cases h
    intro l member r there here
    rcases List.mem_cons.mp member with rfl | old
    · obtain ⟨q, _, rfl⟩ := Table.mem_update.mp there
      by_cases touched : key q = l
      · simpa [touched] using marked q
      · simp [touched] at here
    · exact spent.update _ same (fun r _ => marked r) l old r there here
  · cases h

end Rows

section Claims

variable {κ : Type v}

structure Claim (κ : Type v) where
  key : κ
  expiresAt : Int

abbrev Claims (κ : Type v) := Table (Claim κ) Claim.key

/-- Each use that has been granted bars its key until a time: by a claim that lives at
least as long, or the time has come. -/
def Barred (lifetime : Int → Int) (t : Claims κ) (now : Int) (granted : List (κ × Int)) : Prop :=
  ∀ e ∈ granted, (∃ c ∈ t, c.key = e.1 ∧ e.2 ≤ lifetime c.expiresAt) ∨ e.2 ≤ now

variable {lifetime : Int → Int} {t t' : Claims κ} {now now' deadline : Int}
  {granted : List (κ × Int)} {c : Claim κ}

theorem Barred.nil : Barred lifetime t now [] := fun _ h => absurd h List.not_mem_nil

theorem Barred.wait (barred : Barred lifetime t now granted) (later : now ≤ now') :
    Barred lifetime t now' granted := by
  intro e member
  exact (barred e member).imp_right fun past => Int.le_trans past later

theorem Barred.delete (barred : Barred lifetime t now granted) {p : Claim κ → Bool}
    (dead : ∀ c, p c = true → lifetime c.expiresAt ≤ now) :
    Barred lifetime (t.delete p) now granted := by
  intro e member
  rcases barred e member with ⟨c, there, same, long⟩ | past
  · cases dropped : p c with
    | true => exact .inr (Int.le_trans long (dead c dropped))
    | false => exact .inl ⟨c, Table.mem_delete.mpr ⟨there, dropped⟩, same, long⟩
  · exact .inr past

variable [DecidableEq κ]

theorem Barred.free (barred : Barred lifetime t now granted) (h : t.insert c = some t')
    (before : (c.key, deadline) ∈ granted) : deadline ≤ now := by
  rcases barred _ before with ⟨d, there, same, _⟩ | past
  · have fresh := Table.find_eq_none.mp (Table.insert_eq_some h).1 d there
    exact absurd same fresh
  · exact past

theorem Barred.insert (barred : Barred lifetime t now granted) (h : t.insert c = some t')
    (long : deadline ≤ lifetime c.expiresAt) :
    Barred lifetime t' now ((c.key, deadline) :: granted) := by
  intro e member
  rcases List.mem_cons.mp member with rfl | old
  · exact .inl ⟨c, (Table.mem_insert h).mpr (.inr rfl), rfl, long⟩
  · rcases barred e old with ⟨d, there, same, living⟩ | past
    · exact .inl ⟨d, (Table.mem_insert h).mpr (.inl there), same, living⟩
    · exact .inr past

end Claims

end SingleUse
