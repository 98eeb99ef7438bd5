import Mathlib.Algebra.Order.Field.Rat
import Mathlib.Tactic.Linarith

/-! ratelimit/manager.py: the check of a TOKEN_BUCKET limit with its hourly and daily limits,
over storage/memory.py and over the script of storage/valkey.py. One bucket, exact
numbers, no expiry and no eviction. -/
namespace Plexichat.RateLimit

structure Config where
  requests : Nat
  windowSeconds : ℚ
  burst : Nat
  hourlyLimit : Option Nat
  dailyLimit : Option Nat

def Config.effectiveLimit (cfg : Config) : Nat := cfg.requests + cfg.burst

def Config.refillRate (cfg : Config) : ℚ := cfg.requests / cfg.windowSeconds

/-- hourly_reset and hourly_count, or the daily pair, where the dict has them. -/
structure Window where
  reset : Option ℚ
  count : Option Nat

structure Bucket where
  tokens : Option ℚ
  lastUpdate : Option ℚ
  hourly : Window
  daily : Window

def Bucket.empty : Bucket := ⟨none, none, ⟨none, none⟩, ⟨none, none⟩⟩

structure Request where
  cost : Nat
  unixNow : ℚ
  now : ℚ

inductive Answer where
  | allowed | denied | raised
  deriving DecidableEq

/-- The count of the window that `unixNow` lies in. -/
def Window.countAt (w : Window) (period unixNow : ℚ) : Nat :=
  if w.reset.getD (unixNow + period) ≤ unixNow then 0 else w.count.getD 0

def Window.resetAt (w : Window) (period unixNow : ℚ) : ℚ :=
  if w.reset.getD (unixNow + period) ≤ unixNow then unixNow + period
  else w.reset.getD (unixNow + period)

/-- One counter; a limit of None or 0 is no limit. -/
def checkWindow (limit : Option Nat) (period : ℚ) (w : Window) (cost : Nat) (unixNow : ℚ) :
    Bool × Window :=
  match limit.filter (0 < ·) with
  | none => (true, w)
  | some n =>
    let count := w.countAt period unixNow
    if count + cost ≤ n then (true, ⟨some (w.resetAt period unixNow), some (count + cost)⟩)
    else (false, ⟨some (w.resetAt period unixNow), some count⟩)

def hour : ℚ := 3600
def day : ℚ := 86400

def checkHourlyLimit (cfg : Config) (state : Bucket) (cost : Nat) (unixNow : ℚ) : Bool × Bucket :=
  let (allowed, hourly) := checkWindow cfg.hourlyLimit hour state.hourly cost unixNow
  (allowed, { state with hourly })

def checkDailyLimit (cfg : Config) (state : Bucket) (cost : Nat) (unixNow : ℚ) : Bool × Bucket :=
  let (allowed, daily) := checkWindow cfg.dailyLimit day state.daily cost unixNow
  (allowed, { state with daily })

def rollBack (cfg : Config) (state : Bucket) (cost : Nat) : Bucket :=
  { state with tokens := some (min (cfg.effectiveLimit : ℚ) (state.tokens.getD 0 + cost)) }

/-- `_apply_secondary_limits`: whether both counters allow, and the state that is written. -/
def applySecondaryLimits (cfg : Config) (state : Bucket) (cost : Nat) (unixNow : ℚ) :
    Bool × Bucket :=
  let (hourly, state) := checkHourlyLimit cfg state cost unixNow
  if !hourly then (false, rollBack cfg state cost)
  else
    let (daily, state) := checkDailyLimit cfg state cost unixNow
    if !daily then (false, rollBack cfg state cost) else (true, state)

/-- `eval_token_bucket` of the memory storage. A denial divides by the rate. -/
def evalMemory (capacity : Nat) (refillRate : ℚ) (cost : Nat) (now : ℚ) (existing : Bucket) :
    Answer × Bucket :=
  let elapsed := now - existing.lastUpdate.getD now
  let tokens := min (capacity : ℚ) (existing.tokens.getD capacity + elapsed * refillRate)
  if (cost : ℚ) ≤ tokens then
    (.allowed, { existing with tokens := some (tokens - cost), lastUpdate := some now })
  else
    (if refillRate = 0 then .raised else .denied,
      { existing with tokens := some tokens, lastUpdate := some now })

/-- The Lua script: SET replaces the whole dict. A dict without a number makes it fail, and
a denial with rate 0 returns inf. -/
def evalValkey (capacity : Nat) (refillRate : ℚ) (cost : Nat) (now : ℚ) (bucket : Option Bucket) :
    Answer × Option Bucket :=
  let evaluate (tokens lastUpdate : ℚ) : Answer × Option Bucket :=
    let elapsed := max 0 (now - lastUpdate)
    let tokens := min (capacity : ℚ) (tokens + elapsed * refillRate)
    let store (tokens : ℚ) : Option Bucket :=
      some { Bucket.empty with tokens := some tokens, lastUpdate := some now }
    if (cost : ℚ) ≤ tokens then (.allowed, store (tokens - cost)) else (.denied, store tokens)
  match bucket with
  | none => evaluate capacity now
  | some ⟨some tokens, some lastUpdate, _, _⟩ => evaluate tokens lastUpdate
  | some bucket => (.denied, some bucket)

def Config.hasSecondary (cfg : Config) : Bool :=
  (cfg.hourlyLimit.filter (0 < ·)).isSome || (cfg.dailyLimit.filter (0 < ·)).isSome

structure Storage (σ : Type) where
  evalTokenBucket (capacity : Nat) (refillRate : ℚ) (cost : Nat) (now : ℚ) (state : σ) : Answer × σ
  updateBucket (mutate : Bucket → Bool × Bucket) (state : σ) : Bool × σ

def memoryStorage : Storage Bucket where
  evalTokenBucket := evalMemory
  updateBucket mutate state := mutate state

/-- `get_bucket(key) or {}`, mutate, `set_bucket`. -/
def valkeyStorage : Storage (Option Bucket) where
  evalTokenBucket := evalValkey
  updateBucket mutate state :=
    let (allowed, bucket) := mutate (state.getD Bucket.empty)
    (allowed, some bucket)

def checkAtomic {σ : Type} (storage : Storage σ) (cfg : Config) (state : σ) (r : Request) :
    Answer × σ :=
  if cfg.windowSeconds = 0 then (.raised, state)
  else
    match storage.evalTokenBucket cfg.effectiveLimit cfg.refillRate r.cost r.now state with
    | (.allowed, state) =>
      if cfg.hasSecondary then
        let (allowed, state) := storage.updateBucket
          (fun bucket => applySecondaryLimits cfg bucket r.cost r.unixNow) state
        (if allowed then .allowed else .denied, state)
      else (.allowed, state)
    | result => result

def answers {σ : Type} (storage : Storage σ) (cfg : Config) (state : σ) :
    List Request → List Answer
  | [] => []
  | r :: rs => (checkAtomic storage cfg state r).1 ::
      answers storage cfg (checkAtomic storage cfg state r).2 rs

def Fits (limit : Option Nat) (period : ℚ) (w : Window) (r : Request) : Prop :=
  ∀ n, limit.filter (0 < ·) = some n → w.countAt period r.unixNow + r.cost ≤ n

def Affordable (limit : Option Nat) (r : Request) : Prop :=
  ∀ n, limit.filter (0 < ·) = some n → r.cost ≤ n

def refilled (cfg : Config) (m : Bucket) (r : Request) : ℚ :=
  min (cfg.effectiveLimit : ℚ) (m.tokens.getD cfg.effectiveLimit +
    (r.now - m.lastUpdate.getD r.now) * cfg.refillRate)

/-- Where the dropped counters make no difference: a request that the bucket serves and that
each counter could afford finds room in the counters as they stand, and one that it does
not serve is refused at a positive rate. -/
def Covered (cfg : Config) (m : Bucket) (r : Request) : Prop :=
  cfg.windowSeconds = 0 ∨
    ((r.cost ≤ refilled cfg m r → Affordable cfg.hourlyLimit r → Affordable cfg.dailyLimit r →
        Fits cfg.hourlyLimit hour m.hourly r ∧ Fits cfg.dailyLimit day m.daily r) ∧
      (refilled cfg m r < r.cost → cfg.refillRate ≠ 0))

def CoveredRun (cfg : Config) : Bucket → List Request → Prop
  | _, [] => True
  | m, r :: rs => Covered cfg m r ∧ CoveredRun cfg (checkAtomic memoryStorage cfg m r).2 rs

inductive Agree : Bucket → Option Bucket → Prop
  | unused (hourly daily : Window) : Agree ⟨none, none, hourly, daily⟩ none
  | used (tokens lastUpdate : ℚ) (hourly daily hourly' daily' : Window) :
      Agree ⟨some tokens, some lastUpdate, hourly, daily⟩
        (some ⟨some tokens, some lastUpdate, hourly', daily'⟩)

section Windows

variable {limit : Option Nat} {period : ℚ} {r : Request}

theorem countAt_fresh (period unixNow : ℚ) :
    (Window.mk none none).countAt period unixNow = 0 := by
  unfold Window.countAt
  split
  · rfl
  · rfl

theorem fits_fresh : Fits limit period ⟨none, none⟩ r ↔ Affordable limit r := by
  unfold Fits Affordable
  rw [countAt_fresh]
  simp only [zero_add]

theorem affordable_of_fits {w : Window} (h : Fits limit period w r) : Affordable limit r :=
  fun n some_limit => (Nat.le_add_left _ _).trans (h n some_limit)

theorem checkWindow_allows (limit : Option Nat) (period : ℚ) (r : Request) (w : Window) :
    (checkWindow limit period w r.cost r.unixNow).1 = true ↔ Fits limit period w r := by
  unfold checkWindow Fits
  cases limit.filter (0 < ·) with
  | none => simp
  | some n =>
    by_cases room : w.countAt period r.unixNow + r.cost ≤ n
    · simp [room]
    · simp [room]

end Windows

section Checks

variable {cfg : Config} {r : Request}

theorem applySecondaryLimits_eq (cfg : Config) (r : Request) (state : Bucket) :
    ((Fits cfg.hourlyLimit hour state.hourly r ∧ Fits cfg.dailyLimit day state.daily r) ∧
      ∃ hourly daily, applySecondaryLimits cfg state r.cost r.unixNow =
        (true, { state with hourly, daily })) ∨
    (¬ (Fits cfg.hourlyLimit hour state.hourly r ∧ Fits cfg.dailyLimit day state.daily r) ∧
      ∃ hourly daily, applySecondaryLimits cfg state r.cost r.unixNow =
        (false, rollBack cfg { state with hourly, daily } r.cost)) := by
  have hourly := checkWindow_allows cfg.hourlyLimit hour r state.hourly
  have daily := checkWindow_allows cfg.dailyLimit day r state.daily
  simp only [applySecondaryLimits, checkHourlyLimit, checkDailyLimit]
  by_cases hourlyFits : Fits cfg.hourlyLimit hour state.hourly r
  · have hourlyAllows := hourly.mpr hourlyFits
    by_cases dailyFits : Fits cfg.dailyLimit day state.daily r
    · have dailyAllows := daily.mpr dailyFits
      exact .inl ⟨⟨hourlyFits, dailyFits⟩, _, _, by simp only [hourlyAllows, dailyAllows]; rfl⟩
    · have dailyDenies := Bool.eq_false_iff.mpr (mt daily.mp dailyFits)
      exact .inr ⟨fun fits => dailyFits fits.2, _, _, by
        simp only [hourlyAllows, dailyDenies]; rfl⟩
  · have hourlyDenies := Bool.eq_false_iff.mpr (mt hourly.mp hourlyFits)
    exact .inr ⟨fun fits => hourlyFits fits.1, _, _, by simp only [hourlyDenies]; rfl⟩

theorem fits_of_no_limit (plain : cfg.hasSecondary = false) (hourly daily : Window) :
    Fits cfg.hourlyLimit hour hourly r ∧ Fits cfg.dailyLimit day daily r := by
  rw [Config.hasSecondary, Bool.or_eq_false_iff] at plain
  have none_hourly := Option.not_isSome_iff_eq_none.mp (Bool.eq_false_iff.mp plain.1)
  have none_daily := Option.not_isSome_iff_eq_none.mp (Bool.eq_false_iff.mp plain.2)
  constructor
  · intro n here
    rw [none_hourly] at here
    cases here
  · intro n here
    rw [none_daily] at here
    cases here

theorem checkAtomic_served {σ : Type} (storage : Storage σ) (write : Bucket → σ) {state : σ}
    {before : Bucket} {x : ℚ} (window : cfg.windowSeconds ≠ 0)
    (served : storage.evalTokenBucket cfg.effectiveLimit cfg.refillRate r.cost r.now state =
      (.allowed, write before))
    (update : ∀ mutate, storage.updateBucket mutate (write before) =
      ((mutate before).1, write (mutate before).2))
    (balance : before.tokens = some x) :
    ((Fits cfg.hourlyLimit hour before.hourly r ∧ Fits cfg.dailyLimit day before.daily r) ∧
      ∃ hourly daily, checkAtomic storage cfg state r =
        (.allowed, write ⟨some x, before.lastUpdate, hourly, daily⟩)) ∨
    (¬ (Fits cfg.hourlyLimit hour before.hourly r ∧ Fits cfg.dailyLimit day before.daily r) ∧
      ∃ hourly daily, checkAtomic storage cfg state r = (.denied,
        write ⟨some (min (cfg.effectiveLimit : ℚ) (x + r.cost)), before.lastUpdate, hourly, daily⟩)) := by
  unfold checkAtomic
  rw [if_neg window, served]
  by_cases secondary : cfg.hasSecondary = true
  · simp only [secondary, if_true, update]
    cases applySecondaryLimits_eq cfg r before with
    | inl allows =>
      obtain ⟨fits, hourly, daily, eq⟩ := allows
      refine .inl ⟨fits, hourly, daily, ?_⟩
      rw [eq, balance]
      rfl
    | inr denies =>
      obtain ⟨full, hourly, daily, eq⟩ := denies
      refine .inr ⟨full, hourly, daily, ?_⟩
      rw [eq, rollBack, balance]
      rfl
  · have plain := Bool.eq_false_iff.mpr secondary
    refine .inl ⟨fits_of_no_limit plain _ _, before.hourly, before.daily, ?_⟩
    rw [plain, ← balance]
    rfl

theorem checkAtomic_unserved {σ : Type} (storage : Storage σ) {state state' : σ} {a : Answer}
    (window : cfg.windowSeconds ≠ 0) (not_allowed : a ≠ .allowed)
    (unserved : storage.evalTokenBucket cfg.effectiveLimit cfg.refillRate r.cost r.now state =
      (a, state')) : checkAtomic storage cfg state r = (a, state') := by
  unfold checkAtomic
  rw [if_neg window, unserved]
  cases a with
  | allowed => exact absurd rfl not_allowed
  | denied => rfl
  | raised => rfl

theorem evalMemory_served {m : Bucket} (served : r.cost ≤ refilled cfg m r) :
    evalMemory cfg.effectiveLimit cfg.refillRate r.cost r.now m = (.allowed,
      { m with tokens := some (refilled cfg m r - r.cost), lastUpdate := some r.now }) := if_pos served

theorem evalMemory_unserved {m : Bucket} (unserved : refilled cfg m r < r.cost) :
    evalMemory cfg.effectiveLimit cfg.refillRate r.cost r.now m =
      (if cfg.refillRate = 0 then .raised else .denied,
        { m with tokens := some (refilled cfg m r), lastUpdate := some r.now }) :=
  if_neg (not_le.mpr unserved)

/-- The script computes the memory storage's balance, and keeps nothing else. -/
theorem evalValkey_eq (cfg : Config) {m : Bucket} {v : Option Bucket} (agree : Agree m v)
    (past : ∀ x, m.lastUpdate = some x → x ≤ r.now) :
    evalValkey cfg.effectiveLimit cfg.refillRate r.cost r.now v =
      if r.cost ≤ refilled cfg m r then (.allowed, some { Bucket.empty with
        tokens := some (refilled cfg m r - r.cost), lastUpdate := some r.now })
      else (.denied, some { Bucket.empty with
        tokens := some (refilled cfg m r), lastUpdate := some r.now }) := by
  cases agree with
  | unused hourly daily =>
    have elapsed : max 0 (r.now - r.now) = r.now - r.now := by simp
    simp only [evalValkey, elapsed]
    rfl
  | used tokens lastUpdate hourly daily hourly' daily' =>
    have elapsed : max 0 (r.now - lastUpdate) = r.now - lastUpdate :=
      max_eq_right (sub_nonneg.mpr (past lastUpdate rfl))
    simp only [evalValkey, elapsed]
    rfl

/-- From agreeing stores a request gets the same answer exactly when it is covered, and then
the stores agree again, under the clock of the request. -/
theorem step_agrees (cfg : Config) {m : Bucket} {v : Option Bucket} (agree : Agree m v)
    (past : ∀ x, m.lastUpdate = some x → x ≤ r.now) :
    ((checkAtomic memoryStorage cfg m r).1 = (checkAtomic valkeyStorage cfg v r).1 ↔
        Covered cfg m r) ∧
      (Covered cfg m r →
        Agree (checkAtomic memoryStorage cfg m r).2 (checkAtomic valkeyStorage cfg v r).2 ∧
          ∀ x, (checkAtomic memoryStorage cfg m r).2.lastUpdate = some x → x ≤ r.now) := by
  by_cases window : cfg.windowSeconds = 0
  · have raises : ∀ {σ : Type} (storage : Storage σ) (state : σ),
        checkAtomic storage cfg state r = (.raised, state) := fun _ _ => if_pos window
    rw [raises, raises]
    exact ⟨⟨fun _ => .inl window, fun _ => rfl⟩, fun _ => ⟨agree, past⟩⟩
  have script := evalValkey_eq cfg agree past
  have now_past : ∀ x, some r.now = some x → x ≤ r.now := by
    intro x same
    cases same
    exact le_rfl
  by_cases served : r.cost ≤ refilled cfg m r
  · rw [if_pos served] at script
    have covered : Covered cfg m r ↔
        (Affordable cfg.hourlyLimit r → Affordable cfg.dailyLimit r →
          Fits cfg.hourlyLimit hour m.hourly r ∧ Fits cfg.dailyLimit day m.daily r) := by
      constructor
      · intro h
        exact (h.resolve_left window).1 served
      · intro h
        exact .inr ⟨fun _ => h, fun unserved => absurd served (not_le.mpr unserved)⟩
    rw [covered]
    have memory := checkAtomic_served memoryStorage (fun b => b) window
      (evalMemory_served served) (fun _ => rfl) rfl
    have valkey := checkAtomic_served valkeyStorage some window
      script (fun _ => rfl) rfl
    have afford : (Fits cfg.hourlyLimit hour Bucket.empty.hourly r ∧
        Fits cfg.dailyLimit day Bucket.empty.daily r) ↔
          Affordable cfg.hourlyLimit r ∧ Affordable cfg.dailyLimit r :=
      and_congr fits_fresh fits_fresh
    cases memory with
    | inl room =>
      obtain ⟨fits, hourly, daily, memory⟩ := room
      cases valkey with
      | inl room' =>
        obtain ⟨_, hourly', daily', valkey⟩ := room'
        rw [memory, valkey]
        exact ⟨⟨fun _ _ _ => fits, fun _ => rfl⟩, fun _ => ⟨.used _ _ _ _ _ _, now_past⟩⟩
      | inr full' =>
        exact absurd (afford.mpr ⟨affordable_of_fits fits.1, affordable_of_fits fits.2⟩) full'.1
    | inr full =>
      obtain ⟨crowded, hourly, daily, memory⟩ := full
      cases valkey with
      | inl room' =>
        obtain ⟨affords, hourly', daily', valkey⟩ := room'
        have affordable := afford.mp affords
        rw [memory, valkey]
        refine ⟨⟨nofun, ?_⟩, ?_⟩
        · intro covers
          exact absurd (covers affordable.1 affordable.2) crowded
        · intro covers
          exact absurd (covers affordable.1 affordable.2) crowded
      | inr full' =>
        obtain ⟨expensive, hourly', daily', valkey⟩ := full'
        rw [memory, valkey]
        refine ⟨⟨?_, fun _ => rfl⟩, fun _ => ⟨.used _ _ _ _ _ _, now_past⟩⟩
        intro _ first second
        exact absurd (afford.mpr ⟨first, second⟩) expensive
  · have unserved := not_le.mp served
    rw [if_neg served] at script
    have covered : Covered cfg m r ↔ cfg.refillRate ≠ 0 := by
      constructor
      · intro h
        exact (h.resolve_left window).2 unserved
      · intro h
        exact .inr ⟨fun enough => absurd enough served, fun _ => h⟩
    rw [covered]
    have valkey := checkAtomic_unserved valkeyStorage window (by decide) script
    by_cases still : cfg.refillRate = 0
    · have script' := evalMemory_unserved unserved
      rw [if_pos still] at script'
      have memory := checkAtomic_unserved memoryStorage window (by decide) script'
      rw [memory, valkey]
      exact ⟨⟨nofun, fun moving => absurd still moving⟩, fun moving => absurd still moving⟩
    · have script' := evalMemory_unserved unserved
      rw [if_neg still] at script'
      have memory := checkAtomic_unserved memoryStorage window (by decide) script'
      rw [memory, valkey]
      exact ⟨⟨fun _ => still, fun _ => rfl⟩, fun _ => ⟨.used _ _ _ _ _ _, now_past⟩⟩

end Checks

theorem answers_agree_from {cfg : Config} {m : Bucket} {v : Option Bucket} (agree : Agree m v)
    {rs : List Request} (past : ∀ x, m.lastUpdate = some x → ∀ r ∈ rs, x ≤ r.now)
    (ordered : (rs.map Request.now).Pairwise (· ≤ ·)) :
    answers memoryStorage cfg m rs = answers valkeyStorage cfg v rs ↔ CoveredRun cfg m rs := by
  induction rs generalizing m v with
  | nil => exact ⟨fun _ => trivial, fun _ => rfl⟩
  | cons r rs ih =>
    rw [List.map_cons, List.pairwise_cons] at ordered
    have here := step_agrees cfg agree fun x clock => past x clock r List.mem_cons_self
    simp only [answers, CoveredRun, List.cons.injEq]
    rw [here.1]
    refine and_congr_right fun covered => ?_
    obtain ⟨agree', clock'⟩ := here.2 covered
    apply ih agree' _ ordered.2
    intro x clock q member
    exact (clock' x clock).trans (ordered.1 q.now (List.mem_map_of_mem member))

/-- For requests at nondecreasing times the two storages give the same answers exactly when
no request meets a counter that the script has dropped. -/
theorem answers_agree_iff (cfg : Config) (rs : List Request)
    (ordered : (rs.map Request.now).Pairwise (· ≤ ·)) :
    answers memoryStorage cfg Bucket.empty rs = answers valkeyStorage cfg none rs ↔
      CoveredRun cfg Bucket.empty rs :=
  answers_agree_from (.unused _ _) nofun ordered

def hourly : Config := ⟨10, 1, 0, some 1, none⟩

theorem script_forgets_the_hour : ¬ ∀ (cfg : Config) (rs : List Request),
    (rs.map Request.now).Pairwise (· ≤ ·) →
      answers memoryStorage cfg Bucket.empty rs = answers valkeyStorage cfg none rs := by
  intro law
  have same := law hourly [⟨1, 0, 0⟩, ⟨1, 1, 1⟩] (by decide)
  revert same
  decide +kernel

theorem hourly_rate : hourly.refillRate ≠ 0 := by decide +kernel

/-- The first request fits, the second is over the hourly limit by its own cost. -/
theorem over_the_limit_is_the_same :
    answers memoryStorage hourly Bucket.empty [⟨1, 0, 0⟩, ⟨2, 1, 1⟩] =
      answers valkeyStorage hourly none [⟨1, 0, 0⟩, ⟨2, 1, 1⟩] := by
  refine (answers_agree_iff hourly _ (by decide)).mpr ⟨.inr ⟨?_, fun _ => hourly_rate⟩,
    .inr ⟨?_, fun _ => hourly_rate⟩, trivial⟩
  · exact fun _ hourlyFits dailyFits => ⟨fits_fresh.mpr hourlyFits, fits_fresh.mpr dailyFits⟩
  · intro _ hourlyFits
    exact absurd (hourlyFits 1 rfl) (by decide)

end Plexichat.RateLimit
