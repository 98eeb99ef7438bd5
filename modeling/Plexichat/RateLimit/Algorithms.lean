import Plexichat.RateLimit.TokenBucket

/-! ratelimit/manager.py: the four algorithms over the memory storage, each with its hourly and
daily limits, and what a check leaves of the bucket it consults. Numbers are exact. -/
namespace Plexichat.RateLimit.Algorithms

deriving instance DecidableEq for Config

inductive Algorithm where
  | slidingWindow | tokenBucket | fixedWindow | leakyBucket
  deriving DecidableEq

structure Limit extends Config where
  algorithm : Algorithm
  deriving DecidableEq

structure State extends Bucket where
  windowStart : Option ℚ
  requestCount : Option Nat
  timestamps : Option (List ℚ)
  waterLevel : Option ℚ
  lastLeak : Option ℚ

def State.empty : State := ⟨Bucket.empty, none, none, none, none, none⟩

def windowOver (limit : Limit) (s : State) (unixNow : ℚ) : Prop :=
  s.windowStart.getD unixNow + limit.windowSeconds ≤ unixNow

instance (limit : Limit) (s : State) (unixNow : ℚ) : Decidable (windowOver limit s unixNow) :=
  inferInstanceAs (Decidable (_ ≤ _))

def fixedStart (limit : Limit) (s : State) (unixNow : ℚ) : ℚ :=
  if windowOver limit s unixNow then unixNow else s.windowStart.getD unixNow

def fixedCount (limit : Limit) (s : State) (unixNow : ℚ) : Nat :=
  if windowOver limit s unixNow then 0 else s.requestCount.getD 0

def legacyFixedWindow (limit : Limit) (s : State) (cost : Nat) (unixNow : ℚ) : Bool × State :=
  let start := fixedStart limit s unixNow
  let count := fixedCount limit s unixNow
  if count + cost ≤ limit.effectiveLimit then
    (true, { s with windowStart := some start, requestCount := some (count + cost) })
  else (false, { s with windowStart := some start, requestCount := some count })

def live (limit : Limit) (s : State) (unixNow : ℚ) : List ℚ :=
  (s.timestamps.getD []).filter (unixNow - limit.windowSeconds < ·)

def legacySlidingWindow (limit : Limit) (s : State) (cost : Nat) (unixNow : ℚ) : Bool × State :=
  let timestamps := live limit s unixNow
  if timestamps.length + cost ≤ limit.effectiveLimit then
    (true, { s with timestamps := some (timestamps ++ List.replicate cost unixNow) })
  else (false, { s with timestamps := some timestamps })

def level (limit : Limit) (s : State) (unixNow : ℚ) : ℚ :=
  max 0 (s.waterLevel.getD 0 - (unixNow - s.lastLeak.getD unixNow) * limit.refillRate)

/-- It divides by the window, and by the rate when it denies. -/
def legacyLeakyBucket (limit : Limit) (s : State) (cost : Nat) (unixNow : ℚ) :
    Option (Bool × State) :=
  let water := level limit s unixNow
  if limit.windowSeconds = 0 then none
  else if water + cost ≤ limit.effectiveLimit then
    some (true, { s with waterLevel := some (water + cost), lastLeak := some unixNow })
  else if limit.refillRate = 0 then none
  else some (false, { s with waterLevel := some water, lastLeak := some unixNow })

def checkCounters (cfg : Config) (state : Bucket) (cost : Nat) (unixNow : ℚ) : Bool × Bucket :=
  let (hourly, state) := checkHourlyLimit cfg state cost unixNow
  if !hourly then (false, state) else checkDailyLimit cfg state cost unixNow

def legacyPrimary (limit : Limit) (s : State) (cost : Nat) (unixNow : ℚ) : Option (Bool × State) :=
  match limit.algorithm with
  | .fixedWindow => some (legacyFixedWindow limit s cost unixNow)
  | .leakyBucket => legacyLeakyBucket limit s cost unixNow
  | _ => some (legacySlidingWindow limit s cost unixNow)

def applyLegacyCheck (limit : Limit) (s : State) (q : Request) : Option (Bool × State) :=
  match legacyPrimary limit s q.cost q.unixNow with
  | some (true, s) =>
    let (allowed, bucket) := checkCounters limit.toConfig s.toBucket q.cost q.unixNow
    some (allowed, { s with toBucket := bucket })
  | result => result

/-- `_check_atomic`; an update that raises is not stored. -/
def checkAtomic (limit : Limit) (s : State) (q : Request) : Answer × State :=
  match limit.algorithm with
  | .tokenBucket =>
    let (answer, bucket) := RateLimit.checkAtomic memoryStorage limit.toConfig s.toBucket q
    (answer, { s with toBucket := bucket })
  | _ =>
    match applyLegacyCheck limit s q with
    | none => (.raised, s)
    | some (true, s) => (.allowed, s)
    | some (false, s) => (.denied, s)

structure Remaining where
  primary : ℚ
  hourly : Option Nat
  daily : Option Nat

def windowLeft (limit : Option Nat) (period : ℚ) (w : Window) (q : Request) : Option Nat :=
  (limit.filter (0 < ·)).map (· - w.countAt period q.unixNow)

def primaryLeft (limit : Limit) (s : State) (q : Request) : ℚ :=
  match limit.algorithm with
  | .tokenBucket => refilled limit.toConfig s.toBucket q
  | .fixedWindow => (limit.effectiveLimit - fixedCount limit s q.unixNow : Nat)
  | .slidingWindow => (limit.effectiveLimit - (live limit s q.unixNow).length : Nat)
  | .leakyBucket => limit.effectiveLimit - level limit s q.unixNow

def remaining (limit : Limit) (s : State) (q : Request) : Remaining :=
  ⟨primaryLeft limit s q, windowLeft limit.hourlyLimit hour s.hourly q,
    windowLeft limit.dailyLimit day s.daily q⟩

def Refuses (limit : Limit) (s : State) (q : Request) : Prop :=
  match limit.algorithm with
  | .tokenBucket => refilled limit.toConfig s.toBucket q < q.cost
  | .fixedWindow => limit.effectiveLimit < fixedCount limit s q.unixNow + q.cost
  | .slidingWindow => limit.effectiveLimit < (live limit s q.unixNow).length + q.cost
  | .leakyBucket => limit.effectiveLimit < level limit s q.unixNow + q.cost

def Uncounted (limit : Option Nat) (period : ℚ) (w : Window) (q : Request) : Prop :=
  limit.filter (0 < ·) = none ∨ ¬ Fits limit period w q

/-- Neither counter is raised; the daily one is not reached when the hourly one has no room. -/
def CountersUncounted (cfg : Config) (b : Bucket) (q : Request) : Prop :=
  Uncounted cfg.hourlyLimit hour b.hourly q ∧
    (¬ Fits cfg.hourlyLimit hour b.hourly q ∨ Uncounted cfg.dailyLimit day b.daily q)

def CountersFit (cfg : Config) (b : Bucket) (q : Request) : Prop :=
  Fits cfg.hourlyLimit hour b.hourly q ∧ Fits cfg.dailyLimit day b.daily q

/-- The charge of the primary limit does not show: the tokens go back, or the window has no
length. -/
def Unshown (limit : Limit) (s : State) (q : Request) : Prop :=
  match limit.algorithm with
  | .tokenBucket => ¬ CountersFit limit.toConfig s.toBucket q
  | .fixedWindow => windowOver limit s q.unixNow ∧ limit.windowSeconds ≤ 0
  | .slidingWindow => limit.windowSeconds ≤ 0
  | .leakyBucket => False

def Spared (limit : Limit) (s : State) (q : Request) : Prop :=
  q.cost = 0 ∨ Refuses limit s q ∨
    (Unshown limit s q ∧ CountersUncounted limit.toConfig s.toBucket q)

section Counters

variable {limit : Option Nat} {period : ℚ} {w : Window} {q : Request} {cfg : Config} {b : Bucket}

theorem countAt_written (w : Window) (positive : 0 < period) (unixNow : ℚ) (count : Nat) :
    (Window.mk (some (w.resetAt period unixNow)) (some count)).countAt period unixNow = count := by
  have ahead : ¬ w.resetAt period unixNow ≤ unixNow := by
    unfold Window.resetAt
    split
    · linarith
    · rename_i running
      exact running
  simp [Window.countAt, ahead]

theorem checkWindow_left (limit : Option Nat) (positive : 0 < period) (q : Request) (w : Window) :
    windowLeft limit period (checkWindow limit period w q.cost q.unixNow).2 q =
      windowLeft limit period w q ↔ q.cost = 0 ∨ Uncounted limit period w q := by
  unfold windowLeft checkWindow Uncounted Fits
  cases limit.filter (0 < ·) with
  | none => simp
  | some n =>
    by_cases room : w.countAt period q.unixNow + q.cost ≤ n
    · simp [room, countAt_written w positive]
      omega
    · simp [room, countAt_written w positive]

theorem checkCounters_eq (cfg : Config) (b : Bucket) (q : Request) :
    checkCounters cfg b q.cost q.unixNow =
      if (checkWindow cfg.hourlyLimit hour b.hourly q.cost q.unixNow).1 then
        ((checkWindow cfg.dailyLimit day b.daily q.cost q.unixNow).1,
          { b with
            hourly := (checkWindow cfg.hourlyLimit hour b.hourly q.cost q.unixNow).2
            daily := (checkWindow cfg.dailyLimit day b.daily q.cost q.unixNow).2 })
      else (false, { b with
        hourly := (checkWindow cfg.hourlyLimit hour b.hourly q.cost q.unixNow).2 }) := by
  unfold checkCounters checkHourlyLimit checkDailyLimit
  by_cases fits : (checkWindow cfg.hourlyLimit hour b.hourly q.cost q.unixNow).1 = true
  · simp [fits]
  · simp [fits]

theorem checkCounters_allows (cfg : Config) (b : Bucket) (q : Request) :
    (checkCounters cfg b q.cost q.unixNow).1 = true ↔ CountersFit cfg b q := by
  have hourly := checkWindow_allows cfg.hourlyLimit hour q b.hourly
  have daily := checkWindow_allows cfg.dailyLimit day q b.daily
  rw [checkCounters_eq]
  unfold CountersFit
  rw [← hourly, ← daily]
  split
  · rename_i fits
    simp [fits]
  · rename_i full
    simp [full]

theorem checkCounters_tokens (cfg : Config) (b : Bucket) (q : Request) :
    (checkCounters cfg b q.cost q.unixNow).2.tokens = b.tokens ∧
      (checkCounters cfg b q.cost q.unixNow).2.lastUpdate = b.lastUpdate := by
  rw [checkCounters_eq]
  split
  · exact ⟨rfl, rfl⟩
  · exact ⟨rfl, rfl⟩

theorem checkCounters_left (cfg : Config) (b : Bucket) (q : Request) :
    (windowLeft cfg.hourlyLimit hour (checkCounters cfg b q.cost q.unixNow).2.hourly q =
        windowLeft cfg.hourlyLimit hour b.hourly q ∧
      windowLeft cfg.dailyLimit day (checkCounters cfg b q.cost q.unixNow).2.daily q =
        windowLeft cfg.dailyLimit day b.daily q) ↔
      q.cost = 0 ∨ CountersUncounted cfg b q := by
  have hourly := checkWindow_allows cfg.hourlyLimit hour q b.hourly
  have hour_left := checkWindow_left cfg.hourlyLimit (show 0 < hour by decide +kernel) q b.hourly
  have day_left := checkWindow_left cfg.dailyLimit (show 0 < day by decide +kernel) q b.daily
  unfold CountersUncounted
  rw [checkCounters_eq]
  split
  · rename_i fits
    have room := hourly.mp fits
    simp only
    rw [hour_left, day_left, ← or_and_left]
    simp [room]
  · rename_i full
    have crowded := mt hourly.mpr full
    simp only
    rw [hour_left]
    simp [Uncounted, crowded]

end Counters

section TokenBucket

variable {cfg : Config} {q : Request}

theorem applySecondaryLimits_counters (cfg : Config) (b : Bucket) (q : Request) :
    applySecondaryLimits cfg b q.cost q.unixNow =
      if (checkCounters cfg b q.cost q.unixNow).1 then
        (true, (checkCounters cfg b q.cost q.unixNow).2)
      else (false, rollBack cfg (checkCounters cfg b q.cost q.unixNow).2 q.cost) := by
  unfold applySecondaryLimits checkCounters checkHourlyLimit checkDailyLimit
  by_cases hourly : (checkWindow cfg.hourlyLimit hour b.hourly q.cost q.unixNow).1 = true
  · by_cases daily : (checkWindow cfg.dailyLimit day b.daily q.cost q.unixNow).1 = true
    · simp [hourly, daily]
    · simp [hourly, daily]
  · simp [hourly]

theorem checkCounters_plain (plain : cfg.hasSecondary = false) (b : Bucket) :
    checkCounters cfg b q.cost q.unixNow = (true, b) := by
  rw [Config.hasSecondary, Bool.or_eq_false_iff] at plain
  have hourly := Option.not_isSome_iff_eq_none.mp (Bool.eq_false_iff.mp plain.1)
  have daily := Option.not_isSome_iff_eq_none.mp (Bool.eq_false_iff.mp plain.2)
  simp [checkCounters, checkHourlyLimit, checkDailyLimit, checkWindow, hourly, daily]

def spent (cfg : Config) (b : Bucket) (q : Request) : Bucket :=
  { b with tokens := some (refilled cfg b q - q.cost), lastUpdate := some q.now }

theorem checkAtomic_spent {b : Bucket} (window : cfg.windowSeconds ≠ 0)
    (served : q.cost ≤ refilled cfg b q) :
    RateLimit.checkAtomic memoryStorage cfg b q =
      if (checkCounters cfg (spent cfg b q) q.cost q.unixNow).1 then
        (.allowed, (checkCounters cfg (spent cfg b q) q.cost q.unixNow).2)
      else (.denied, rollBack cfg (checkCounters cfg (spent cfg b q) q.cost q.unixNow).2 q.cost) := by
  have evaluated : memoryStorage.evalTokenBucket cfg.effectiveLimit cfg.refillRate q.cost q.now b =
      (.allowed, spent cfg b q) := evalMemory_served served
  unfold RateLimit.checkAtomic
  rw [if_neg window, evaluated]
  cases secondary : cfg.hasSecondary with
  | true =>
    by_cases fits : (checkCounters cfg (spent cfg b q) q.cost q.unixNow).1 = true
    · simp [memoryStorage, applySecondaryLimits_counters, fits]
    · simp [memoryStorage, applySecondaryLimits_counters, fits]
  | false =>
    rw [checkCounters_plain secondary]
    rfl

theorem refilled_at {b : Bucket} {x : ℚ} (tokens : b.tokens = some x)
    (clock : b.lastUpdate = some q.now) : refilled cfg b q = min (cfg.effectiveLimit : ℚ) x := by
  simp [refilled, tokens, clock]

theorem refilled_le (cfg : Config) (b : Bucket) (q : Request) :
    refilled cfg b q ≤ cfg.effectiveLimit := min_le_left _ _

end TokenBucket

section Checks

variable {limit : Limit} {s : State} {q : Request}

theorem remaining_eq {s t : State} : remaining limit t q = remaining limit s q ↔
    primaryLeft limit t q = primaryLeft limit s q ∧
      (windowLeft limit.hourlyLimit hour t.hourly q =
          windowLeft limit.hourlyLimit hour s.hourly q ∧
        windowLeft limit.dailyLimit day t.daily q = windowLeft limit.dailyLimit day s.daily q) := by
  simp [remaining]

theorem spared_of_served (served : ¬ Refuses limit s q) : Spared limit s q ↔
    (q.cost = 0 ∨ Unshown limit s q) ∧
      (q.cost = 0 ∨ CountersUncounted limit.toConfig s.toBucket q) := by
  rw [Spared, ← or_and_left]
  simp [served]

theorem tokenBucket_left (kind : limit.algorithm = .tokenBucket)
    (answered : (checkAtomic limit s q).1 ≠ .raised) :
    remaining limit (checkAtomic limit s q).2 q = remaining limit s q ↔ Spared limit s q := by
  have check : checkAtomic limit s q =
      ((RateLimit.checkAtomic memoryStorage limit.toConfig s.toBucket q).1,
        { s with
          toBucket := (RateLimit.checkAtomic memoryStorage limit.toConfig s.toBucket q).2 }) := by
    simp only [checkAtomic, kind]
  have left : ∀ t : State, primaryLeft limit t q = refilled limit.toConfig t.toBucket q := by
    intro t
    simp only [primaryLeft, kind]
  have window : limit.windowSeconds ≠ 0 := by
    intro none_seconds
    rw [check] at answered
    exact answered (by simp [RateLimit.checkAtomic, none_seconds])
  rw [remaining_eq, left, left, check]
  by_cases served : (q.cost : ℚ) ≤ refilled limit.toConfig s.toBucket q
  · have room : ¬ Refuses limit s q := by
      simp only [Refuses, kind]
      exact not_lt.mpr served
    have counters : (windowLeft limit.hourlyLimit hour (checkCounters limit.toConfig
          (spent limit.toConfig s.toBucket q) q.cost q.unixNow).2.hourly q =
            windowLeft limit.hourlyLimit hour s.hourly q ∧
        windowLeft limit.dailyLimit day (checkCounters limit.toConfig
          (spent limit.toConfig s.toBucket q) q.cost q.unixNow).2.daily q =
            windowLeft limit.dailyLimit day s.daily q) ↔
          q.cost = 0 ∨ CountersUncounted limit.toConfig s.toBucket q :=
      checkCounters_left limit.toConfig (spent limit.toConfig s.toBucket q) q
    have allows : (checkCounters limit.toConfig (spent limit.toConfig s.toBucket q) q.cost
        q.unixNow).1 = true ↔ CountersFit limit.toConfig s.toBucket q :=
      checkCounters_allows limit.toConfig (spent limit.toConfig s.toBucket q) q
    have kept := checkCounters_tokens limit.toConfig (spent limit.toConfig s.toBucket q) q
    have low := refilled_le limit.toConfig s.toBucket q
    have unshown : Unshown limit s q ↔ ¬ CountersFit limit.toConfig s.toBucket q := by
      simp only [Unshown, kind]
    rw [spared_of_served room, unshown, ← allows, checkAtomic_spent window served]
    by_cases fits : (checkCounters limit.toConfig (spent limit.toConfig s.toBucket q) q.cost
        q.unixNow).1 = true
    · rw [if_pos fits]
      refine and_congr ?_ counters
      have nonneg : (0 : ℚ) ≤ q.cost := Nat.cast_nonneg _
      rw [refilled_at kept.1 kept.2, min_eq_right (by linarith)]
      simp [fits]
    · rw [if_neg fits]
      refine and_congr ?_ counters
      have whole : (rollBack limit.toConfig (checkCounters limit.toConfig
          (spent limit.toConfig s.toBucket q) q.cost q.unixNow).2 q.cost).tokens =
            some (refilled limit.toConfig s.toBucket q) := by
        unfold rollBack
        rw [kept.1]
        simp [spent, low]
      rw [refilled_at whole kept.2, min_eq_right low]
      simp [fits]
  · have crowded : Refuses limit s q := by
      simp only [Refuses, kind]
      exact not_le.mp served
    have denies : (if limit.refillRate = 0 then Answer.raised else Answer.denied) ≠ .allowed := by
      split
      · decide
      · decide
    have low := refilled_le limit.toConfig s.toBucket q
    rw [checkAtomic_unserved memoryStorage window denies (evalMemory_unserved (not_le.mp served)),
      refilled_at rfl rfl, min_eq_right low]
    exact ⟨fun _ => .inr (.inl crowded), fun _ => ⟨rfl, rfl, rfl⟩⟩

structure Charged (limit : Limit) (s : State) (q : Request) (allowed : Bool) (t : State) : Prop where
  bucket : t.toBucket = s.toBucket
  allows : allowed = true ↔ ¬ Refuses limit s q
  denied : allowed = false → primaryLeft limit t q = primaryLeft limit s q
  served : allowed = true →
    (primaryLeft limit t q = primaryLeft limit s q ↔ q.cost = 0 ∨ Unshown limit s q)

theorem left_after {bound count cost : Nat} (room : count + cost ≤ bound) :
    ((bound - (count + cost) : Nat) : ℚ) = ((bound - count : Nat) : ℚ) ↔ cost = 0 := by
  rw [Nat.cast_inj]
  omega

theorem fixedCount_written (limit : Limit) (s : State) (unixNow : ℚ) (count : Nat) :
    fixedCount limit { s with
      windowStart := some (fixedStart limit s unixNow), requestCount := some count } unixNow =
        if windowOver limit s unixNow ∧ limit.windowSeconds ≤ 0 then 0 else count := by
  by_cases elapsed : windowOver limit s unixNow
  · have ended : s.windowStart.getD unixNow + limit.windowSeconds ≤ unixNow := elapsed
    simp [fixedCount, fixedStart, windowOver, ended]
  · have running : ¬ s.windowStart.getD unixNow + limit.windowSeconds ≤ unixNow := elapsed
    simp [fixedCount, fixedStart, windowOver, running]

theorem fixedWindow_charged (kind : limit.algorithm = .fixedWindow) :
    Charged limit s q (legacyFixedWindow limit s q.cost q.unixNow).1
      (legacyFixedWindow limit s q.cost q.unixNow).2 := by
  have left : ∀ t, primaryLeft limit t q =
      ((limit.effectiveLimit - fixedCount limit t q.unixNow : Nat) : ℚ) := by
    intro t
    simp only [primaryLeft, kind]
  have refuses : Refuses limit s q ↔
      limit.effectiveLimit < fixedCount limit s q.unixNow + q.cost := by
    simp only [Refuses, kind]
  have unshown : Unshown limit s q ↔
      windowOver limit s q.unixNow ∧ limit.windowSeconds ≤ 0 := by
    simp only [Unshown, kind]
  have fresh : windowOver limit s q.unixNow → fixedCount limit s q.unixNow = 0 := by
    intro elapsed
    simp [fixedCount, elapsed]
  unfold legacyFixedWindow
  by_cases room : fixedCount limit s q.unixNow + q.cost ≤ limit.effectiveLimit
  · simp only [room, if_true]
    refine ⟨rfl, ?_, ?_, ?_⟩
    · simp [refuses, room]
    · intro denied
      cases denied
    · intro _
      rw [left, left, fixedCount_written, unshown]
      split
      · rename_i timeless
        simp [fresh timeless.1, timeless]
      · rename_i timed
        simp only [left_after room, timed, or_false]
  · simp only [room, if_false]
    refine ⟨rfl, ?_, ?_, ?_⟩
    · simp [refuses, not_le.mp room]
    · intro _
      rw [left, left, fixedCount_written]
      split
      · rename_i timeless
        rw [fresh timeless.1]
      · rfl
    · intro allowed
      cases allowed

theorem live_written (limit : Limit) (s : State) (unixNow : ℚ) (cost : Nat) :
    (live limit { s with
      timestamps := some (live limit s unixNow ++ List.replicate cost unixNow) } unixNow).length =
        (live limit s unixNow).length + if limit.windowSeconds ≤ 0 then 0 else cost := by
  by_cases timeless : limit.windowSeconds ≤ 0
  · have gone : ¬ unixNow - limit.windowSeconds < unixNow := by linarith
    simp [live, gone, timeless]
  · have stays : unixNow - limit.windowSeconds < unixNow := by linarith
    simp [live, stays, timeless]

theorem slidingWindow_charged (kind : limit.algorithm = .slidingWindow) :
    Charged limit s q (legacySlidingWindow limit s q.cost q.unixNow).1
      (legacySlidingWindow limit s q.cost q.unixNow).2 := by
  have left : ∀ t, primaryLeft limit t q =
      ((limit.effectiveLimit - (live limit t q.unixNow).length : Nat) : ℚ) := by
    intro t
    simp only [primaryLeft, kind]
  have refuses : Refuses limit s q ↔
      limit.effectiveLimit < (live limit s q.unixNow).length + q.cost := by
    simp only [Refuses, kind]
  have unshown : Unshown limit s q ↔ limit.windowSeconds ≤ 0 := by
    simp only [Unshown, kind]
  unfold legacySlidingWindow
  by_cases room : (live limit s q.unixNow).length + q.cost ≤ limit.effectiveLimit
  · simp only [room, if_true]
    refine ⟨rfl, ?_, ?_, ?_⟩
    · simp [refuses, room]
    · intro denied
      cases denied
    · intro _
      rw [left, left, live_written, unshown]
      split
      · rename_i timeless
        simp [timeless]
      · rename_i timed
        simp only [left_after room, timed, or_false]
  · simp only [room, if_false]
    refine ⟨rfl, ?_, ?_, ?_⟩
    · simp [refuses, not_le.mp room]
    · intro _
      have same := live_written limit s q.unixNow 0
      simp only [List.replicate_zero, List.append_nil, ite_self, add_zero] at same
      rw [left, left, same]
    · intro allowed
      cases allowed

theorem level_written (limit : Limit) (s : State) (unixNow x : ℚ) (nonneg : 0 ≤ x) :
    level limit { s with waterLevel := some x, lastLeak := some unixNow } unixNow = x := by
  simp [level, nonneg]

theorem leakyBucket_charged (kind : limit.algorithm = .leakyBucket) {allowed : Bool} {t : State}
    (checked : legacyLeakyBucket limit s q.cost q.unixNow = some (allowed, t)) :
    Charged limit s q allowed t := by
  have left : ∀ t, primaryLeft limit t q = limit.effectiveLimit - level limit t q.unixNow := by
    intro t
    simp only [primaryLeft, kind]
  have refuses : Refuses limit s q ↔
      (limit.effectiveLimit : ℚ) < level limit s q.unixNow + q.cost := by
    simp only [Refuses, kind]
  have unshown : ¬ Unshown limit s q := by
    simp [Unshown, kind]
  have nonneg : 0 ≤ level limit s q.unixNow := le_max_left _ _
  have cost_nonneg : (0 : ℚ) ≤ q.cost := Nat.cast_nonneg _
  unfold legacyLeakyBucket at checked
  simp only at checked
  split at checked
  · cases checked
  · split at checked
    · rename_i room
      cases checked
      refine ⟨rfl, ?_, ?_, ?_⟩
      · simp [refuses, room]
      · intro denied
        cases denied
      · intro _
        rw [left, left, level_written _ _ _ _ (add_nonneg nonneg cost_nonneg)]
        simp [unshown]
    · rename_i room
      split at checked
      · cases checked
      · cases checked
        refine ⟨rfl, ?_, ?_, ?_⟩
        · simp [refuses, not_le.mp room]
        · intro _
          rw [left, left, level_written _ _ _ _ nonneg]
        · intro allowed
          cases allowed

theorem legacyPrimary_charged (kind : limit.algorithm ≠ .tokenBucket) {allowed : Bool} {t : State}
    (checked : legacyPrimary limit s q.cost q.unixNow = some (allowed, t)) :
    Charged limit s q allowed t := by
  unfold legacyPrimary at checked
  cases algorithm : limit.algorithm with
  | tokenBucket => exact absurd algorithm kind
  | fixedWindow =>
    simp only [algorithm, Option.some.injEq] at checked
    have charged := fixedWindow_charged (s := s) (q := q) algorithm
    rw [checked] at charged
    exact charged
  | slidingWindow =>
    simp only [algorithm, Option.some.injEq] at checked
    have charged := slidingWindow_charged (s := s) (q := q) algorithm
    rw [checked] at charged
    exact charged
  | leakyBucket =>
    simp only [algorithm] at checked
    exact leakyBucket_charged algorithm checked

theorem primaryLeft_bucket (kind : limit.algorithm ≠ .tokenBucket) (s : State) (b : Bucket) :
    primaryLeft limit { s with toBucket := b } q = primaryLeft limit s q := by
  unfold primaryLeft
  cases algorithm : limit.algorithm with
  | tokenBucket => exact absurd algorithm kind
  | _ => rfl

theorem legacy_left (kind : limit.algorithm ≠ .tokenBucket)
    (answered : (checkAtomic limit s q).1 ≠ .raised) :
    remaining limit (checkAtomic limit s q).2 q = remaining limit s q ↔ Spared limit s q := by
  have check : checkAtomic limit s q = match applyLegacyCheck limit s q with
      | none => (.raised, s)
      | some (true, s) => (.allowed, s)
      | some (false, s) => (.denied, s) := by
    unfold checkAtomic
    cases algorithm : limit.algorithm with
    | tokenBucket => exact absurd algorithm kind
    | _ => rfl
  rw [remaining_eq]
  rw [check] at answered ⊢
  cases primary : legacyPrimary limit s q.cost q.unixNow with
  | none =>
    simp [applyLegacyCheck, primary] at answered
  | some result =>
    obtain ⟨allowed, t⟩ := result
    have charged := legacyPrimary_charged kind primary
    cases allowed with
    | false =>
      have crowded : Refuses limit s q := by
        by_contra room
        exact Bool.false_ne_true (charged.allows.mpr room)
      simp only [applyLegacyCheck, primary]
      rw [charged.denied rfl, charged.bucket]
      exact ⟨fun _ => .inr (.inl crowded), fun _ => ⟨rfl, rfl, rfl⟩⟩
    | true =>
      have counters := checkCounters_left limit.toConfig s.toBucket q
      have room := charged.allows.mp rfl
      rw [spared_of_served room]
      simp only [applyLegacyCheck, primary, charged.bucket]
      cases (checkCounters limit.toConfig s.toBucket q.cost q.unixNow).1 with
      | true =>
        simp only [primaryLeft_bucket kind]
        exact and_congr (charged.served rfl) counters
      | false =>
        simp only [primaryLeft_bucket kind]
        exact and_congr (charged.served rfl) counters

theorem checkAtomic_left (answered : (checkAtomic limit s q).1 ≠ .raised) :
    remaining limit (checkAtomic limit s q).2 q = remaining limit s q ↔ Spared limit s q := by
  by_cases kind : limit.algorithm = .tokenBucket
  · exact tokenBucket_left kind answered
  · exact legacy_left kind answered

end Checks

end Plexichat.RateLimit.Algorithms
