import Plexichat.Library.Table

/-! The account lock of `login` and `_handle_failed_login`: a flag with a deadline, set by
a conditional UPDATE and cleared by the next right password. The attempts of a run come one
after the other, each at one clock value; times are in milliseconds. -/
namespace Plexichat.Auth.Lockout

structure LockConfig where
  maxFailedAttempts : Option Int
  lockoutMinDistinctIps : Int
  failedLoginWindowMinutes : Int
  lockoutDurationMinutes : Int
  requireEmailVerification : Bool

/-- A row of auth_failed_logins of the account. -/
structure FailedLogin where
  ipIndex : Nat
  attempts : Int
  lastAttemptAt : Int

/-- What the attempts read and write: columns of the account's row, its failed logins, and
the time of the last cleanup. -/
structure State where
  accountLocked : Bool
  lockedUntil : Option Int
  failedLoginAttempts : Int
  frozen : Bool
  emailVerified : Bool
  totpEnabled : Bool
  failedLogins : Table FailedLogin FailedLogin.ipIndex
  lastCleanup : Int

structure Attempt where
  now : Int
  ipIndex : Option Nat
  rightPassword : Bool
  trustedDevice : Bool

inductive Outcome where
  /-- InvalidCredentialsError of the throttle, before the password is looked at. -/
  | throttled
  /-- InvalidCredentialsError after `_handle_failed_login`. -/
  | invalidCredentials
  /-- AccountLockedError of an account that awaits its deletion. -/
  | frozen
  | accountLocked
  | emailNotVerified
  | twoFactorRequired
  | success
  deriving DecidableEq

def Outcome.accepted : Outcome → Bool
  | twoFactorRequired => true
  | success => true
  | _ => false

/-- `not locked_until or locked_until > now`. -/
def inForce (lockedUntil : Option Int) (now : Int) : Bool :=
  lockedUntil.all fun u => u = 0 || now < u

section Code

variable (cfg : LockConfig)

def windowMs : Int := cfg.failedLoginWindowMinutes * 60 * 1000

def throttleLimit : Int :=
  match cfg.maxFailedAttempts with
  | none => 0
  | some threshold => if threshold = 0 then 0 else max 1 threshold * 2

def ipThrottleActive (s : State) (ipIndex : Nat) (now : Int) : Bool :=
  throttleLimit cfg ≠ 0 && (s.failedLogins.find ipIndex).any fun row =>
    now - windowMs cfg < row.lastAttemptAt && throttleLimit cfg ≤ row.attempts

def recordIp (s : State) (ipIndex : Nat) (now : Int) : State :=
  let again (row : FailedLogin) : FailedLogin :=
    { row with attempts := row.attempts + 1, lastAttemptAt := now }
  { s with failedLogins := s.failedLogins.upsert ⟨ipIndex, 1, now⟩ again fun _ => rfl }

def distinctIps (s : State) (now : Int) : Int :=
  ((s.failedLogins.rows.filter fun row => now - windowMs cfg < row.lastAttemptAt).map
    FailedLogin.ipIndex).dedup.length

def cleanup (s : State) (now : Int) : State :=
  if s.lastCleanup + 3600 * 1000 < now then
    { s with
      lastCleanup := now
      failedLogins := s.failedLogins.delete fun row => row.lastAttemptAt < now - 24 * 3600 * 1000 }
  else s

def countFailure (s : State) (a : Attempt) : State :=
  let s := { s with failedLoginAttempts := s.failedLoginAttempts + 1 }
  match a.ipIndex with
  | some ip => recordIp s ip a.now
  | none => s

/-- `should_lock`, on the counts after the failure. -/
def shouldLock (s : State) (a : Attempt) : Bool :=
  cfg.maxFailedAttempts.isSome &&
    match a.ipIndex with
    | some _ => cfg.lockoutMinDistinctIps ≤ distinctIps cfg s a.now
    | none => true

def lockUntil (now : Int) : Int := now + cfg.lockoutDurationMinutes * 60 * 1000

/-- The conditional UPDATE. -/
def lockAccount (s : State) (threshold now : Int) : State :=
  if s.accountLocked = false ∧ threshold ≤ s.failedLoginAttempts then
    { s with accountLocked := true, lockedUntil := some (lockUntil cfg now) }
  else s

def handleFailedLogin (s : State) (a : Attempt) : State :=
  let counted := countFailure s a
  let swept := if a.ipIndex.isSome then cleanup counted a.now else counted
  match cfg.maxFailedAttempts with
  | some threshold => if shouldLock cfg counted a then lockAccount cfg swept threshold a.now else swept
  | none => swept

def enter (s : State) (a : Attempt) : State × Outcome :=
  if cfg.requireEmailVerification ∧ s.emailVerified = false then (s, .emailNotVerified)
  else if s.totpEnabled ∧ a.trustedDevice = false then (s, .twoFactorRequired)
  else ({ s with failedLoginAttempts := 0, failedLogins := Table.empty }, .success)

def throttled (s : State) (a : Attempt) : Bool :=
  a.ipIndex.any fun ip => ipThrottleActive cfg s ip a.now

def login (s : State) (a : Attempt) : State × Outcome :=
  if throttled cfg s a then (s, .throttled)
  else if a.rightPassword = false then (handleFailedLogin cfg s a, .invalidCredentials)
  else if s.frozen then (s, .frozen)
  else if s.accountLocked then
    if inForce s.lockedUntil a.now then (s, .accountLocked)
    else enter cfg { s with accountLocked := false, failedLoginAttempts := 0 } a
  else enter cfg s a

def visits (s : State) : List Attempt → List (State × Attempt)
  | [] => []
  | a :: as => (s, a) :: visits (login cfg s a).1 as

def Reached (counted : State) (a : Attempt) : Prop :=
  ∃ threshold, cfg.maxFailedAttempts = some threshold ∧ threshold ≤ counted.failedLoginAttempts ∧
    shouldLock cfg counted a = true

def State.locked (s : State) (now : Int) : Prop :=
  s.accountLocked = true ∧ inForce s.lockedUntil now = true

structure Armed (s : State) (a : Attempt) : Prop where
  locks : (login cfg s a).2 = .invalidCredentials → Reached cfg (countFailure s a) a →
    (login cfg s a).1.locked a.now
  holds : (login cfg s a).2.accepted = true → ∀ u, s.lockedUntil = some u → u ≤ a.now

/-- A failure that reaches the threshold finds no flag of a lock that has run out, and a
lock that begins with it does not run out at once. -/
def Clear (s : State) (a : Attempt) : Prop :=
  throttled cfg s a = false → a.rightPassword = false → Reached cfg (countFailure s a) a →
    if s.accountLocked then inForce s.lockedUntil a.now = true
    else inForce (some (lockUntil cfg a.now)) a.now = true

end Code

section Lock

variable {cfg : LockConfig} {s t : State} {a : Attempt} {as : List Attempt}

@[simp] theorem countFailure_lock (s : State) (a : Attempt) :
    (countFailure s a).accountLocked = s.accountLocked ∧
      (countFailure s a).lockedUntil = s.lockedUntil := by
  unfold countFailure
  cases a.ipIndex with
  | none => exact ⟨rfl, rfl⟩
  | some ip => exact ⟨rfl, rfl⟩

theorem cleanup_kept (s : State) (now : Int) : (cleanup s now).accountLocked = s.accountLocked ∧
    (cleanup s now).lockedUntil = s.lockedUntil ∧
    (cleanup s now).failedLoginAttempts = s.failedLoginAttempts := by
  unfold cleanup
  split
  · exact ⟨rfl, rfl, rfl⟩
  · exact ⟨rfl, rfl, rfl⟩

theorem handleFailedLogin_lock (cfg : LockConfig) (s : State) (a : Attempt) :
    s.accountLocked = false ∧ Reached cfg (countFailure s a) a ∧
        (handleFailedLogin cfg s a).accountLocked = true ∧
        (handleFailedLogin cfg s a).lockedUntil = some (lockUntil cfg a.now) ∨
      ¬ (s.accountLocked = false ∧ Reached cfg (countFailure s a) a) ∧
        (handleFailedLogin cfg s a).accountLocked = s.accountLocked ∧
        (handleFailedLogin cfg s a).lockedUntil = s.lockedUntil := by
  let counted := countFailure s a
  let swept := if a.ipIndex.isSome then cleanup counted a.now else counted
  have kept : swept.accountLocked = s.accountLocked ∧ swept.lockedUntil = s.lockedUntil ∧
      swept.failedLoginAttempts = counted.failedLoginAttempts := by
    obtain ⟨flag, deadline⟩ := countFailure_lock s a
    by_cases from_ip : a.ipIndex.isSome = true
    · obtain ⟨flag', deadline', count⟩ := cleanup_kept counted a.now
      simp only [swept, from_ip, if_true]
      exact ⟨flag'.trans flag, deadline'.trans deadline, count⟩
    · simp only [swept, from_ip]
      exact ⟨flag, deadline, rfl⟩
  have unfolded : handleFailedLogin cfg s a =
      match cfg.maxFailedAttempts with
      | some threshold =>
        if shouldLock cfg counted a then lockAccount cfg swept threshold a.now else swept
      | none => swept := rfl
  by_cases lock : s.accountLocked = false ∧ Reached cfg counted a
  · obtain ⟨flag, threshold, configured, count, should⟩ := lock
    have taken : swept.accountLocked = false ∧ threshold ≤ swept.failedLoginAttempts := by
      rw [kept.1, kept.2.2]
      exact ⟨flag, count⟩
    have locked : handleFailedLogin cfg s a =
        { swept with accountLocked := true, lockedUntil := some (lockUntil cfg a.now) } := by
      simp only [unfolded, configured, should, if_true, lockAccount, taken, and_self]
    rw [locked]
    exact .inl ⟨flag, ⟨threshold, configured, count, should⟩, rfl, rfl⟩
  · have same : handleFailedLogin cfg s a = swept := by
      rw [unfolded]
      cases configured : cfg.maxFailedAttempts with
      | none => rfl
      | some threshold =>
        by_cases should : shouldLock cfg counted a = true
        · have passed : ¬ (swept.accountLocked = false ∧
              threshold ≤ swept.failedLoginAttempts) := by
            rw [kept.1, kept.2.2]
            intro taken
            exact lock ⟨taken.1, threshold, configured, taken.2, should⟩
          simp only [should, if_true, lockAccount, if_neg passed]
        · simp only [should, if_false, Bool.false_eq_true]
    rw [same]
    exact .inr ⟨lock, kept.1, kept.2.1⟩

theorem enter_lock (cfg : LockConfig) (s : State) (a : Attempt) :
    (enter cfg s a).1.accountLocked = s.accountLocked ∧
      (enter cfg s a).1.lockedUntil = s.lockedUntil := by
  unfold enter
  split
  · exact ⟨rfl, rfl⟩
  · split
    · exact ⟨rfl, rfl⟩
    · exact ⟨rfl, rfl⟩

def Settled (s : State) (now : Int) : Prop :=
  s.accountLocked = false → ∀ u, s.lockedUntil = some u → u ≤ now

theorem passed_of_not_inForce {lockedUntil : Option Int} {now : Int}
    (over_now : inForce lockedUntil now = false) : ∀ u, lockedUntil = some u → u ≤ now := by
  intro u deadline
  rw [deadline] at over_now
  simp only [inForce, Option.all_some, Bool.or_eq_false_iff, decide_eq_false_iff_not] at over_now
  exact Int.not_lt.mp over_now.2

theorem Settled.login (settled : Settled s a.now) : Settled (login cfg s a).1 a.now := by
  unfold Lockout.login
  split
  · exact settled
  split
  · intro unlocked
    rcases handleFailedLogin_lock cfg s a with ⟨_, _, flag, _⟩ | ⟨_, flag, deadline⟩
    · rw [flag] at unlocked
      cases unlocked
    · rw [deadline]
      exact settled (flag ▸ unlocked)
  split
  · exact settled
  split
  · cases force : inForce s.lockedUntil a.now with
    | true => exact settled
    | false =>
      intro _
      rw [if_neg Bool.false_ne_true, (enter_lock cfg _ a).2]
      exact passed_of_not_inForce force
  · intro unlocked
    rw [(enter_lock cfg s a).2]
    exact settled ((enter_lock cfg s a).1 ▸ unlocked)

theorem enter_not_invalid (cfg : LockConfig) (s : State) (a : Attempt) :
    (enter cfg s a).2 ≠ .invalidCredentials := by
  unfold enter
  split
  · exact Outcome.noConfusion
  · split
    · exact Outcome.noConfusion
    · exact Outcome.noConfusion

theorem login_invalid : (login cfg s a).2 = .invalidCredentials ↔
    throttled cfg s a = false ∧ a.rightPassword = false := by
  unfold login
  cases throttled cfg s a with
  | true => simp
  | false =>
    cases a.rightPassword with
    | false => simp
    | true =>
      simp only [Bool.false_eq_true, if_false, Bool.true_eq_false, and_false, iff_false]
      split
      · exact Outcome.noConfusion
      split
      · split
        · exact Outcome.noConfusion
        · exact enter_not_invalid cfg _ a
      · exact enter_not_invalid cfg s a

theorem login_accepted (settled : Settled s a.now) (accepted : (login cfg s a).2.accepted = true) :
    ∀ u, s.lockedUntil = some u → u ≤ a.now := by
  unfold login at accepted
  split at accepted
  · cases accepted
  split at accepted
  · cases accepted
  split at accepted
  · cases accepted
  split at accepted
  · cases force : inForce s.lockedUntil a.now with
    | true =>
      rw [force] at accepted
      cases accepted
    | false => exact passed_of_not_inForce force
  · rename_i unlocked
    exact settled (Bool.eq_false_iff.mpr unlocked)

theorem armed_iff (settled : Settled s a.now) : Armed cfg s a ↔ Clear cfg s a := by
  have after : throttled cfg s a = false → a.rightPassword = false →
      (login cfg s a).1 = handleFailedLogin cfg s a := by
    intro open_to wrong
    simp [login, open_to, wrong]
  have locks : ((login cfg s a).2 = .invalidCredentials → Reached cfg (countFailure s a) a →
      (login cfg s a).1.locked a.now) ↔ Clear cfg s a := by
    rw [login_invalid, Clear, and_imp]
    refine forall_congr' fun open_to => forall_congr' fun wrong => forall_congr' fun reached => ?_
    rw [after open_to wrong, State.locked]
    rcases handleFailedLogin_lock cfg s a with ⟨clear, _, flag, deadline⟩ | ⟨not_both, flag, deadline⟩
    · simp [clear, flag, deadline]
    · have set : s.accountLocked = true := by
        by_contra unset
        exact not_both ⟨Bool.eq_false_iff.mpr unset, reached⟩
      simp [flag, deadline, set]
  constructor
  · intro armed
    exact locks.mp armed.locks
  · intro clear
    exact ⟨locks.mpr clear, login_accepted settled⟩

abbrev InOrder (as : List Attempt) : Prop := as.Pairwise fun a b => a.now ≤ b.now

theorem settled_visits (settled : ∀ a ∈ as, Settled s a.now) (order : InOrder as) :
    ∀ x ∈ visits cfg s as, Settled x.1 x.2.now := by
  induction as generalizing s with
  | nil => exact fun x member => absurd member List.not_mem_nil
  | cons a as ih =>
    obtain ⟨later, order'⟩ := List.pairwise_cons.mp order
    intro x member
    rcases List.mem_cons.mp member with rfl | rest
    · exact settled a List.mem_cons_self
    · refine ih ?_ order' x rest
      intro b hb unlocked u deadline
      exact Int.le_trans ((settled a List.mem_cons_self).login unlocked u deadline) (later b hb)

/-- In every run of attempts on an account that starts unlocked. -/
theorem lock_exact (cfg : LockConfig) (s : State) (as : List Attempt)
    (unlocked : s.accountLocked = false ∧ s.lockedUntil = none) (order : InOrder as) :
    (∀ x ∈ visits cfg s as, Armed cfg x.1 x.2) ↔ ∀ x ∈ visits cfg s as, Clear cfg x.1 x.2 := by
  have settled : ∀ x ∈ visits cfg s as, Settled x.1 x.2.now := by
    apply settled_visits
    · intro a _ _ u deadline
      rw [unlocked.2] at deadline
      cases deadline
    · exact order
  constructor
  · intro armed x member
    exact (armed_iff (settled x member)).mp (armed x member)
  · intro clear x member
    exact (armed_iff (settled x member)).mpr (clear x member)

def wrongAt (now : Int) : Attempt := ⟨now, none, false, false⟩

theorem lock_exact_twice : (∀ x ∈ visits ⟨some 5, 2, 15, 15, false⟩
      ⟨false, none, 4, false, true, false, Table.empty, 0⟩ [wrongAt 1, wrongAt 2],
      Armed ⟨some 5, 2, 15, 15, false⟩ x.1 x.2) ↔
    ∀ x ∈ visits ⟨some 5, 2, 15, 15, false⟩
      ⟨false, none, 4, false, true, false, Table.empty, 0⟩ [wrongAt 1, wrongAt 2],
      Clear ⟨some 5, 2, 15, 15, false⟩ x.1 x.2 :=
  lock_exact _ _ _ ⟨rfl, rfl⟩ (by decide)

/-- After the fifteen minutes of a lock, a further failure locks nothing. -/
theorem lock_not_rearmed : ¬ ∀ (cfg : LockConfig) (s : State) (as : List Attempt),
    s.accountLocked = false ∧ s.lockedUntil = none → InOrder as →
    ∀ x ∈ visits cfg s as, Armed cfg x.1 x.2 := by
  intro h
  have again := h ⟨some 5, 2, 15, 15, false⟩ ⟨false, none, 4, false, true, false, Table.empty, 0⟩
    [wrongAt 1, wrongAt 1000000] ⟨rfl, rfl⟩ (by decide) _ (List.mem_of_getElem? (i := 1) rfl)
  have locked := again.locks rfl ⟨5, rfl, by decide, rfl⟩
  exact absurd locked.2 (by decide)

end Lock

end Plexichat.Auth.Lockout
