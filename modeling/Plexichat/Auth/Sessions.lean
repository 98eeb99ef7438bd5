import Mathlib.Data.Fintype.Fin
import Mathlib.Tactic.FinCases
import Plexichat.Library.Interleaving

/-! core/auth/managers/session.py: one session, verified through a cache and revoked. -/
namespace Plexichat.Auth
open Transition Interleaving

variable {τ η κ : Type}

structure Session (η : Type) where
  tokenHash : η
  revoked : Bool
  expiresAt : Int
  frozen : Bool

/-- The row, and the secrets with a positive result in each cache: Valkey, or the memory of each
worker. -/
structure Shared (τ η κ : Type) where
  session : Session η
  cached : κ → τ → Bool
  /-- A revoking call has begun to clear a cache. -/
  clearing : Bool
  /-- A revoking call has returned. -/
  returned : Bool
  /-- A verification that started after that has accepted a token. -/
  acceptedLate : Bool

inductive Phase (τ κ : Type) where
  | idle
  | looking (k : κ) (secret : τ) (late : Bool)
  | reading (k : κ) (secret : τ) (late : Bool)
  /-- The token is found valid. -/
  | caching (k : κ) (secret : τ) (late : Bool)
  | matching (k : κ) (secret : τ)
  /-- Before the UPDATE; `last` in logout_all, where the cache is cleared before it. -/
  | revoking (k : κ) (last : Bool)
  | listing (k : κ) (first : Bool)
  | deleting (k : κ) (first : Bool) (keys : τ → Bool)

inductive Action (τ κ : Type) where
  | verifyToken (k : κ) (secret : τ)
  | logout (k : κ) (secret : τ)
  | revokeSession (k : κ)
  | logoutAll (k : κ)
  /-- The next step, with the time, and with an extension of the session where there is one. -/
  | advance (now : Int) (extend : Option Int)
  /-- Valkey raises. -/
  | fail
  /-- An entry reaches its lifetime or is dropped. -/
  | expire (k : κ) (secret : τ)

section Code

variable [DecidableEq τ] [DecidableEq κ]

namespace Shared

variable (s : Shared τ η κ)

def accept (late : Bool) : Shared τ η κ := { s with acceptedLate := s.acceptedLate || late }

def store (k : κ) (secret : τ) (value : Bool) : Shared τ η κ :=
  { s with cached := fun c x => if c = k ∧ x = secret then value else s.cached c x }

def revoke : Shared τ η κ := { s with session := { s.session with revoked := true } }

def finish : Shared τ η κ := { s with returned := true }

def delete (k : κ) (keys : τ → Bool) : Shared τ η κ :=
  { s with cached := fun c x => s.cached c x && !(c = k && keys x) }

end Shared

variable (verifyTokenHash : τ → η → Bool) (skipCache : Bool)

def Session.verify (row : Session η) (secret : τ) (now : Int) : Bool :=
  !row.revoked && verifyTokenHash secret row.tokenHash && !row.frozen &&
    !decide (row.expiresAt < now)

def advance (s : Shared τ η κ) (now : Int) (extend : Option Int) :
    Phase τ κ → Option (Shared τ η κ × Phase τ κ)
  | .idle => none
  | .looking k secret late =>
    if s.cached k secret then some (s.accept late, .idle) else some (s, .reading k secret late)
  | .reading k secret late =>
    if s.session.verify verifyTokenHash secret now then
      let s := { s with
        session := { s.session with expiresAt := extend.getD s.session.expiresAt } }
      if skipCache then some (s.accept late, .idle) else some (s, .caching k secret late)
    else some (s, .idle)
  | .caching k secret late => some ((s.store k secret true).accept late, .idle)
  | .matching k secret =>
    some (s, if verifyTokenHash secret s.session.tokenHash then .revoking k false else .idle)
  | .revoking k last =>
    if last then some (s.revoke.finish, .idle) else some (s.revoke, .listing k false)
  | .listing k first => some ({ s with clearing := true }, .deleting k first (s.cached k))
  | .deleting k first keys =>
    if first then some (s.delete k keys, .revoking k true)
    else some ((s.delete k keys).finish, .idle)

def failed (s : Shared τ η κ) : Phase τ κ → Option (Shared τ η κ × Phase τ κ)
  | .looking k secret late => some (s, .reading k secret late)
  | .caching _ _ late => some (s.accept late, .idle)
  | .listing k first | .deleting k first _ =>
    let s := { s with clearing := true }
    if first then some (s, .revoking k true) else some (s.finish, .idle)
  | _ => none

def next (s : Shared τ η κ) (p : Phase τ κ) : Action τ κ → Option (Shared τ η κ × Phase τ κ)
  | .advance now extend => advance verifyTokenHash skipCache s now extend p
  | .fail => failed s p
  | .expire k secret => some (s.store k secret false, p)
  | .verifyToken k secret =>
    match p with
    | .idle => some (s, if skipCache then .reading k secret s.returned
        else .looking k secret s.returned)
    | _ => none
  | .logout k secret =>
    match p with
    | .idle => some (s, .matching k secret)
    | _ => none
  | .revokeSession k =>
    match p with
    | .idle => some (s, .revoking k false)
    | _ => none
  | .logoutAll k =>
    match p with
    | .idle => some (s, .listing k true)
    | _ => none

end Code

abbrev World (ι τ η κ : Type) := Interleaving.State ι (Shared τ η κ) (Phase τ κ)

variable {ι : Type}

def init (s : World ι τ η κ) : Prop :=
  s.shared.clearing = false ∧ s.shared.returned = false ∧ s.shared.acceptedLate = false ∧
    ∀ i, s.pc i = .idle

/-- A positive result is written before any revoking call begins to clear its cache. That call is
not stopped by Valkey, and no other worker holds a result in its memory. -/
def Clear (s : World ι τ η κ) (a : ι × Action τ κ) : Prop :=
  match s.pc a.1, a.2 with
  | .caching _ _ _, .advance _ _ => s.shared.clearing = false
  | .listing k _, .advance _ _ => ∀ c ≠ k, ∀ secret, s.shared.cached c secret = false
  | .listing _ _, .fail | .deleting _ _ _, .fail => False
  | _, _ => True

structure Sealed (s : Shared τ η κ) : Prop where
  closing : s.returned = true → s.clearing = true
  revoked : s.returned = true → s.session.revoked = true
  empty : s.returned = true → ∀ k secret, s.cached k secret = false
  rejected : s.acceptedLate = false

def Bound (s : Shared τ η κ) : Phase τ κ → Prop
  | .looking _ _ late | .reading _ _ late => late = true → s.returned = true
  | .caching _ _ late => late = false
  | .revoking _ last => last = true → s.clearing = true ∧ ∀ k secret, s.cached k secret = false
  | .listing _ first => first = false → s.session.revoked = true
  | .deleting k first keys => s.clearing = true ∧ (first = false → s.session.revoked = true) ∧
    ∀ c secret, s.cached c secret = true → c = k ∧ keys secret = true
  | _ => True

structure Onward (s t : Shared τ η κ) : Prop where
  clearing : s.clearing = true → t.clearing = true
  returned : s.returned = true → t.returned = true
  revoked : s.session.revoked = true → t.session.revoked = true
  cached : s.clearing = true → ∀ k secret, t.cached k secret = true → s.cached k secret = true

theorem Onward.refl (s : Shared τ η κ) : Onward s s := ⟨id, id, id, fun _ _ _ => id⟩

theorem Onward.trans {s t u : Shared τ η κ} (on : Onward s t) (more : Onward t u) : Onward s u :=
  ⟨fun h => more.clearing (on.clearing h), fun h => more.returned (on.returned h),
    fun h => more.revoked (on.revoked h), fun h k secret present =>
      on.cached h k secret (more.cached (on.clearing h) k secret present)⟩

theorem Bound.onward {s t : Shared τ η κ} {p : Phase τ κ} (bound : Bound s p) (on : Onward s t) :
    Bound t p := by
  cases p with
  | idle => trivial
  | looking k secret late => exact fun h => on.returned (bound h)
  | reading k secret late => exact fun h => on.returned (bound h)
  | caching k secret late => exact bound
  | matching k secret => trivial
  | revoking k last =>
    intro h
    obtain ⟨clearing, empty⟩ := bound h
    refine ⟨on.clearing clearing, ?_⟩
    intro c secret
    by_contra present
    have before := on.cached clearing c secret (Bool.not_eq_false _ ▸ present)
    exact absurd (before.symm.trans (empty c secret)) (by decide)
  | listing k first => exact fun h => on.revoked (bound h)
  | deleting k first keys =>
    obtain ⟨clearing, revoked, listed⟩ := bound
    refine ⟨on.clearing clearing, fun h => on.revoked (revoked h), ?_⟩
    intro c secret present
    exact listed c secret (on.cached clearing c secret present)

section Steps

variable {s : Shared τ η κ}

theorem Sealed.accept (sealed : Sealed s) {late : Bool} (early : late = false) :
    Sealed (s.accept late) := by
  refine ⟨sealed.closing, sealed.revoked, sealed.empty, ?_⟩
  show (s.acceptedLate || late) = false
  rw [sealed.rejected, early, Bool.false_or]

theorem Onward.accept (s : Shared τ η κ) (late : Bool) : Onward s (s.accept late) :=
  ⟨id, id, id, fun _ _ _ => id⟩

theorem Sealed.revoke (sealed : Sealed s) : Sealed s.revoke ∧ Onward s s.revoke :=
  ⟨⟨sealed.closing, fun _ => rfl, sealed.empty, sealed.rejected⟩, id, id, fun _ => rfl,
    fun _ _ _ => id⟩

theorem Sealed.finish (sealed : Sealed s) (clearing : s.clearing = true)
    (revoked : s.session.revoked = true) (empty : ∀ k secret, s.cached k secret = false) :
    Sealed s.finish ∧ Onward s s.finish :=
  ⟨⟨fun _ => clearing, fun _ => revoked, fun _ => empty, sealed.rejected⟩, id, fun _ => rfl, id,
    fun _ _ _ => id⟩

theorem verify_revoked (verifyTokenHash : τ → η → Bool) {row : Session η}
    (revoked : row.revoked = true) (secret : τ) (now : Int) :
    row.verify verifyTokenHash secret now = false := by
  simp [Session.verify, revoked]

variable [DecidableEq κ]

theorem Sealed.delete (sealed : Sealed s) (k : κ) (keys : τ → Bool) :
    Sealed (s.delete k keys) ∧ Onward s (s.delete k keys) := by
  refine ⟨⟨sealed.closing, sealed.revoked, ?_, sealed.rejected⟩, id, id, id, ?_⟩
  · intro returned c x
    show (s.cached c x && _) = false
    rw [sealed.empty returned c x, Bool.false_and]
  · intro _ c x present
    exact (Bool.and_eq_true_iff.mp present).1

theorem delete_listed {k : κ} {keys : τ → Bool}
    (listed : ∀ c secret, s.cached c secret = true → c = k ∧ keys secret = true) (c : κ) (x : τ) :
    (s.delete k keys).cached c x = false := by
  show (s.cached c x && !(decide (c = k) && keys x)) = false
  cases present : s.cached c x with
  | false => rfl
  | true =>
    obtain ⟨same, key⟩ := listed c x present
    simp [same, key]

variable [DecidableEq τ]

theorem Sealed.store (sealed : Sealed s) (k : κ) (secret : τ) {value : Bool}
    (early : value = true → s.clearing = false) :
    Sealed (s.store k secret value) ∧ Onward s (s.store k secret value) := by
  refine ⟨⟨sealed.closing, sealed.revoked, ?_, sealed.rejected⟩, id, id, id, ?_⟩
  · intro returned c x
    show (if c = k ∧ x = secret then value else s.cached c x) = false
    split
    · cases value with
      | false => rfl
      | true => exact absurd ((early rfl).symm.trans (sealed.closing returned)) (by decide)
    · exact sealed.empty returned c x
  · intro clearing c x present
    have there : (if c = k ∧ x = secret then value else s.cached c x) = true := present
    split at there
    · exact absurd ((early there).symm.trans clearing) (by decide)
    · exact there

variable {verifyTokenHash : τ → η → Bool} {skipCache : Bool} {p : Phase τ κ}
  {r : Shared τ η κ × Phase τ κ}

theorem advance_keeps (sealed : Sealed s) (bound : Bound s p) {now : Int} {extend : Option Int}
    (ahead : match p with
      | .caching _ _ _ => s.clearing = false
      | .listing k _ => ∀ c ≠ k, ∀ secret, s.cached c secret = false
      | _ => True)
    (moved : advance verifyTokenHash skipCache s now extend p = some r) :
    (Sealed r.1 ∧ Onward s r.1) ∧ Bound r.1 r.2 := by
  cases p with
  | idle => cases moved
  | looking k secret late =>
    simp only [advance] at moved
    split at moved
    · rename_i hit
      cases moved
      have early : late = false := by
        cases late with
        | false => rfl
        | true => exact absurd (hit.symm.trans (sealed.empty (bound rfl) k secret)) (by decide)
      exact ⟨⟨sealed.accept early, .accept s late⟩, trivial⟩
    · cases moved
      exact ⟨⟨sealed, .refl s⟩, bound⟩
  | reading k secret late =>
    simp only [advance] at moved
    split at moved
    · rename_i valid
      have early : late = false := by
        cases late with
        | false => rfl
        | true =>
          have invalid := verify_revoked verifyTokenHash (sealed.revoked (bound rfl)) secret now
          exact absurd (valid.symm.trans invalid) (by decide)
      have still : Sealed { s with
          session := { s.session with expiresAt := extend.getD s.session.expiresAt } } :=
        ⟨sealed.closing, sealed.revoked, sealed.empty, sealed.rejected⟩
      split at moved
      · cases moved
        exact ⟨⟨still.accept early, id, id, id, fun _ _ _ => id⟩, trivial⟩
      · cases moved
        exact ⟨⟨still, id, id, id, fun _ _ _ => id⟩, early⟩
    · cases moved
      exact ⟨⟨sealed, .refl s⟩, trivial⟩
  | caching k secret late =>
    cases moved
    have stored : Sealed (s.store k secret true) ∧ Onward s (s.store k secret true) :=
      sealed.store k secret fun _ => ahead
    exact ⟨⟨stored.1.accept bound, stored.2.trans (.accept _ late)⟩, trivial⟩
  | matching k secret =>
    cases moved
    refine ⟨⟨sealed, .refl s⟩, ?_⟩
    show Bound s (if _ then _ else _)
    split
    · exact fun h => absurd h (by decide)
    · trivial
  | revoking k last =>
    cases last with
    | true =>
      cases moved
      obtain ⟨clearing, empty⟩ := bound rfl
      have finished := sealed.revoke.1.finish clearing rfl empty
      exact ⟨⟨finished.1, sealed.revoke.2.trans finished.2⟩, trivial⟩
    | false =>
      cases moved
      exact ⟨sealed.revoke, fun _ => rfl⟩
  | listing k first =>
    cases moved
    refine ⟨⟨⟨fun _ => rfl, sealed.revoked, sealed.empty, sealed.rejected⟩, fun _ => rfl, id, id,
      fun _ _ _ => id⟩, rfl, bound, ?_⟩
    intro c secret present
    by_cases own : c = k
    · exact ⟨own, own ▸ present⟩
    · exact absurd (present.symm.trans (ahead c own secret)) (by decide)
  | deleting k first keys =>
    obtain ⟨clearing, revoked, listed⟩ := bound
    obtain ⟨deleted, on⟩ := sealed.delete k keys
    cases first with
    | true =>
      cases moved
      exact ⟨⟨deleted, on⟩, fun _ => ⟨clearing, delete_listed listed⟩⟩
    | false =>
      cases moved
      have finished := deleted.finish clearing (revoked rfl) (delete_listed listed)
      exact ⟨⟨finished.1, on.trans finished.2⟩, trivial⟩

omit [DecidableEq κ] [DecidableEq τ] in
theorem failed_keeps (sealed : Sealed s) (bound : Bound s p)
    (elsewhere : match p with
      | .listing _ _ | .deleting _ _ _ => False
      | _ => True)
    (moved : failed s p = some r) : (Sealed r.1 ∧ Onward s r.1) ∧ Bound r.1 r.2 := by
  cases p with
  | looking k secret late =>
    cases moved
    exact ⟨⟨sealed, .refl s⟩, bound⟩
  | caching k secret late =>
    cases moved
    exact ⟨⟨sealed.accept bound, .accept s late⟩, trivial⟩
  | listing k first => exact elsewhere.elim
  | deleting k first keys => exact elsewhere.elim
  | idle => cases moved
  | reading k secret late => cases moved
  | matching k secret => cases moved
  | revoking k last => cases moved

end Steps

section Runs

variable [DecidableEq τ] [DecidableEq κ] [DecidableEq ι] {verifyTokenHash : τ → η → Bool}
  {skipCache : Bool}

theorem sealed_throughout {s : World ι τ η κ}
    (run : Guarded (step (next verifyTokenHash skipCache)) Clear init s) :
    Holds Sealed Bound (fun _ _ => True) s := by
  refine holds_throughout ?_ ?_ run
  · rintro s ⟨_, unreturned, unaccepted, idle⟩
    have never : ∀ {P : Prop}, s.shared.returned = true → P :=
      fun h => absurd (h.symm.trans unreturned) (by decide)
    refine ⟨⟨never, never, fun h => never h, unaccepted⟩, ?_, fun _ _ _ => trivial⟩
    intro i
    rw [idle i]
    trivial
  · intro s i a r holds clear moved
    suffices kept : (Sealed r.1 ∧ Onward s.shared r.1) ∧ Bound r.1 r.2 from
      ⟨kept.1.1, kept.2, fun j _ => ⟨(holds.each j).onward kept.1.2, trivial, trivial⟩⟩
    have sealed := holds.shared
    have bound := holds.each i
    unfold Clear at clear
    generalize s.pc i = p at clear moved bound
    cases a with
    | advance now extend =>
      refine advance_keeps sealed bound ?_ moved
      cases p with
      | caching => exact clear
      | listing => exact clear
      | _ => trivial
    | fail =>
      refine failed_keeps sealed bound ?_ moved
      cases p with
      | listing => exact clear
      | deleting => exact clear
      | _ => trivial
    | expire k secret =>
      cases moved
      have stored : Sealed (s.shared.store k secret false) ∧
          Onward s.shared (s.shared.store k secret false) := sealed.store k secret fun h => by cases h
      exact ⟨stored, bound.onward stored.2⟩
    | verifyToken k secret =>
      cases p <;> cases moved
      refine ⟨⟨sealed, .refl _⟩, ?_⟩
      show Bound s.shared (if _ then _ else _)
      split <;> exact id
    | logout k secret =>
      cases p <;> cases moved
      exact ⟨⟨sealed, .refl _⟩, trivial⟩
    | revokeSession k =>
      cases p <;> cases moved
      exact ⟨⟨sealed, .refl _⟩, fun h => absurd h (by decide)⟩
    | logoutAll k =>
      cases p <;> cases moved
      exact ⟨⟨sealed, .refl _⟩, fun h => absurd h (by decide)⟩

end Runs

def small : World (Fin 2) Nat Nat Unit :=
  ⟨⟨⟨7, false, 100, false⟩, fun _ _ => false, false, false, false⟩, fun _ => .idle⟩

theorem init_small : init small := ⟨rfl, rfl, rfl, fun _ => rfl⟩

end Plexichat.Auth
