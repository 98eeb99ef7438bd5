import Plexichat.Library.Transition
import Plexichat.Library.Windows
import Plexichat.RateLimit.Algorithms

/-! What one bucket of the memory storage admits over time. A token bucket and a leaky bucket
admit no more than the capacity and what flows in the interval, the window algorithms no more
than the limit in a window. -/
namespace Plexichat.RateLimit.Bounds
open Meter Transition Algorithms

structure Served (σ : Type) where
  state : σ
  clock : ℚ
  log : List Admission
  /-- What the calls have stored so far. -/
  states : List σ

section Serving

variable {σ : Type} (check : σ → Request → Answer × σ) (time : Request → ℚ)

def note (time : ℚ) (cost : Nat) : Answer → List Admission → List Admission
  | .allowed, log => ⟨time, cost⟩ :: log
  | _, log => log

def serve (s : Served σ) (q : Request) : Option (Served σ) :=
  if time q < s.clock then none
  else
    let (answer, state) := check s.state q
    some ⟨state, time q, note (time q) q.cost answer s.log, state :: s.states⟩

theorem serve_eq_some {s t : Served σ} {q : Request} (next : serve check time s q = some t) :
    s.clock ≤ time q ∧ t = ⟨(check s.state q).2, time q,
      note (time q) q.cost (check s.state q).1 s.log, (check s.state q).2 :: s.states⟩ := by
  unfold serve at next
  split at next
  · cases next
  · rename_i later
    exact ⟨not_lt.mp later, (Option.some.inj next).symm⟩

end Serving

section TokenBucket

structure Flow where
  capacity : Nat
  refillRate : ℚ
  rate_nonneg : 0 ≤ refillRate

variable (flow : Flow)

def evaluate (bucket : Bucket) (q : Request) : Answer × Bucket :=
  evalMemory flow.capacity flow.refillRate q.cost q.now bucket

def Unused (s : Served Bucket) : Prop :=
  s.state.tokens = none ∧ s.state.lastUpdate = none ∧ s.log = []

inductive Filled (s : Served Bucket) : Prop
  | unused (new : Unused s)
  | used (tokens : ℚ) (balance : s.state.tokens = some tokens)
      (updated : s.state.lastUpdate = some s.clock) (capped : tokens ≤ flow.capacity)
      (metered : Metered flow.capacity flow.refillRate s.clock tokens s.log)

variable {flow} {s : Served Bucket} {q : Request}

def available (flow : Flow) (bucket : Bucket) (now : ℚ) : ℚ :=
  min (flow.capacity : ℚ) (bucket.tokens.getD flow.capacity +
    (now - bucket.lastUpdate.getD now) * flow.refillRate)

theorem evaluate_eq (flow : Flow) (bucket : Bucket) (q : Request) : evaluate flow bucket q =
    if q.cost ≤ available flow bucket q.now then (.allowed, { bucket with
      tokens := some (available flow bucket q.now - q.cost), lastUpdate := some q.now })
    else (if flow.refillRate = 0 then .raised else .denied, { bucket with
      tokens := some (available flow bucket q.now), lastUpdate := some q.now }) := rfl

theorem Filled.metered (filled : Filled flow s) (later : s.clock ≤ q.now) :
    Metered flow.capacity flow.refillRate q.now (available flow s.state q.now) s.log := by
  cases filled with
  | unused new =>
    obtain ⟨tokens, lastUpdate, log⟩ := new
    have full : available flow s.state q.now = flow.capacity := by
      simp [available, tokens, lastUpdate]
    rw [full, log]
    exact Metered.start (Nat.cast_nonneg _) le_rfl flow.rate_nonneg
  | used tokens balance updated capped metered =>
    have refilled : available flow s.state q.now =
        min (flow.capacity : ℚ) (tokens + (q.now - s.clock) * flow.refillRate) := by
      simp [available, balance, updated]
    have flowed : 0 ≤ (q.now - s.clock) * flow.refillRate :=
      mul_nonneg (sub_nonneg.mpr later) flow.rate_nonneg
    rw [refilled]
    refine metered.wait later ?_ (min_le_left _ _) flow.rate_nonneg ?_
    · exact le_min (Nat.cast_nonneg _) (add_nonneg metered.nonneg flowed)
    · rw [mul_comm flow.refillRate]
      exact min_le_right _ _

theorem serve_filled {t : Served Bucket} (filled : Filled flow s)
    (next : serve (evaluate flow) Request.now s q = some t) : Filled flow t := by
  obtain ⟨later, rfl⟩ := serve_eq_some _ _ next
  have credit := filled.metered later
  have capped : available flow s.state q.now ≤ flow.capacity := min_le_left _ _
  rw [evaluate_eq]
  split
  · rename_i served
    have paid : (0 : ℚ) ≤ q.cost := Nat.cast_nonneg _
    refine .used _ rfl rfl (by linarith) ?_
    exact credit.grant (sub_nonneg.mpr served) flow.rate_nonneg (le_of_eq (sub_add_cancel _ _))
  · refine .used _ rfl rfl capped ?_
    split
    · exact credit
    · exact credit

/-- The tokens stay between nothing and the capacity, and what is admitted in an interval stays
within the capacity and what flows in. -/
theorem token_bucket_bound (flow : Flow) {s : Served Bucket}
    (run : Reachable (serve (evaluate flow) Request.now) Unused s) :
    (∀ tokens, s.state.tokens = some tokens → 0 ≤ tokens ∧ tokens ≤ flow.capacity) ∧
      ∀ start stop, start ≤ stop →
        spent s.log start stop ≤ flow.capacity + flow.refillRate * (stop - start) := by
  have filled : Filled flow s := guarded_invariant (fun _ new => .unused new)
    (fun _ _ _ filled _ next => serve_filled filled next) run
  cases filled with
  | unused new =>
    obtain ⟨none_there, -, log⟩ := new
    constructor
    · intro tokens there
      rw [none_there] at there
      cases there
    · intro start stop ordered
      have flowed := mul_nonneg flow.rate_nonneg (sub_nonneg.mpr ordered)
      rw [log, spent_nil]
      exact add_nonneg (Nat.cast_nonneg _) flowed
  | used tokens balance updated capped metered =>
    constructor
    · intro tokens' there
      rw [balance] at there
      exact Option.some.inj there ▸ ⟨metered.nonneg, capped⟩
    · exact metered.within

theorem one_nonneg : (0 : ℚ) ≤ 1 := by decide

def oneASecond : Flow := ⟨2, 1, one_nonneg⟩

def fresh {σ : Type} (state : σ) : Served σ := ⟨state, 0, [], []⟩

def burst : List Request := [⟨1, 0, 0⟩, ⟨1, 0, 0⟩, ⟨1, 0, 0⟩, ⟨1, 1, 1⟩]

theorem token_bucket_bound_burst : ∃ s : Served Bucket, spent s.log 0 1 = 3 ∧
    spent s.log 0 1 ≤ (oneASecond.capacity : ℚ) + oneASecond.refillRate * (1 - 0) := by
  have three : (run (serve (evaluate oneASecond) Request.now) (fresh Bucket.empty) burst).any
      (fun s => spent s.log 0 1 = 3) = true := by decide +kernel
  obtain ⟨s, ends, three⟩ := (Option.any_eq_true _ _).mp three
  have reached := @reachable_of_run _ _ _ Unused _ _ burst ⟨rfl, rfl, rfl⟩ ends
  exact ⟨s, of_decide_eq_true three, (token_bucket_bound oneASecond reached).2 0 1 (by decide)⟩

end TokenBucket

section Windows

variable (limit : Limit)

def New (s : Served State) : Prop := s.state = State.empty ∧ s.log = [] ∧ s.states = []

def Served.windows (s : Served State) : List ℚ := s.states.filterMap State.windowStart

variable {limit} {s : Served State} {q : Request}

theorem checkAtomic_legacy (kind : limit.algorithm ≠ .tokenBucket) (s : State) (q : Request) :
    Algorithms.checkAtomic limit s q = match applyLegacyCheck limit s q with
      | none => (.raised, s)
      | some (true, s) => (.allowed, s)
      | some (false, s) => (.denied, s) := by
  unfold Algorithms.checkAtomic
  cases algorithm : limit.algorithm with
  | tokenBucket => exact absurd algorithm kind
  | _ => rfl

theorem checkAtomic_primary (kind : limit.algorithm ≠ .tokenBucket) {s t : State} {allowed : Bool}
    (primary : legacyPrimary limit s q.cost q.unixNow = some (allowed, t)) :
    ∃ bucket, (Algorithms.checkAtomic limit s q).2 = { t with toBucket := bucket } ∧
      ((Algorithms.checkAtomic limit s q).1 = .allowed → allowed = true) := by
  rw [checkAtomic_legacy kind, applyLegacyCheck, primary]
  cases allowed with
  | false =>
    refine ⟨t.toBucket, rfl, fun answered => ?_⟩
    cases answered
  | true =>
    refine ⟨(checkCounters limit.toConfig t.toBucket q.cost q.unixNow).2, ?_, fun _ => rfl⟩
    simp only
    cases (checkCounters limit.toConfig t.toBucket q.cost q.unixNow).1 with
    | true => rfl
    | false => rfl

theorem note_other {time : ℚ} {cost : Nat} {answer : Answer} (other : answer ≠ .allowed)
    (log : List Admission) : note time cost answer log = log := by
  cases answer with
  | allowed => exact absurd rfl other
  | denied => rfl
  | raised => rfl

section Sliding

theorem serve_sliding (kind : limit.algorithm = .slidingWindow) {t : Served State}
    (kept : Sliding limit.effectiveLimit limit.windowSeconds s.clock (s.state.timestamps.getD [])
      s.log) (next : serve (Algorithms.checkAtomic limit) Request.unixNow s q = some t) :
    Sliding limit.effectiveLimit limit.windowSeconds t.clock (t.state.timestamps.getD []) t.log := by
  obtain ⟨later, rfl⟩ := serve_eq_some _ _ next
  have other : limit.algorithm ≠ .tokenBucket := by rw [kind]; decide
  have pruned : Sliding limit.effectiveLimit limit.windowSeconds q.unixNow
      (live limit s.state q.unixNow) s.log := kept.prune later
  by_cases room : (live limit s.state q.unixNow).length + q.cost ≤ limit.effectiveLimit
  · have primary : legacyPrimary limit s.state q.cost q.unixNow = some (true, { s.state with
        timestamps := some (live limit s.state q.unixNow ++ List.replicate q.cost q.unixNow) }) := by
      simp only [legacyPrimary, kind, legacySlidingWindow, if_pos room]
    obtain ⟨bucket, stored, -⟩ := checkAtomic_primary other primary
    rw [stored]
    cases (Algorithms.checkAtomic limit s.state q).1 with
    | allowed => exact pruned.grant room
    | denied => exact pruned.append _
    | raised => exact pruned.append _
  · have primary : legacyPrimary limit s.state q.cost q.unixNow = some (false, { s.state with
        timestamps := some (live limit s.state q.unixNow) }) := by
      simp only [legacyPrimary, kind, legacySlidingWindow, if_neg room]
    obtain ⟨bucket, stored, admitted⟩ := checkAtomic_primary other primary
    rw [stored, note_other fun answered => Bool.false_ne_true (admitted answered)]
    exact pruned

end Sliding

section Fixed

inductive Counting (limit : Limit) (s : Served State) : Prop
  | new (new : New s)
  | begun (start : ℚ) (count : Nat) (opened : s.state.windowStart = some start)
      (counted : s.state.requestCount = some count) (past : start ≤ s.clock)
      (few : count ≤ limit.effectiveLimit)
      (kept : Fixed limit.effectiveLimit limit.windowSeconds start count s.windows s.log)

theorem Counting.window (counting : Counting limit s) (positive : 0 < limit.windowSeconds)
    (later : s.clock ≤ q.unixNow) :
    inWindow limit.windowSeconds (fixedStart limit s.state q.unixNow) q.unixNow = true ∧
      fixedCount limit s.state q.unixNow ≤ limit.effectiveLimit ∧
      Fixed limit.effectiveLimit limit.windowSeconds (fixedStart limit s.state q.unixNow)
        (fixedCount limit s.state q.unixNow) s.windows s.log := by
  unfold fixedStart fixedCount
  cases counting with
  | new new =>
    obtain ⟨state, log, states⟩ := new
    have none_yet : s.windows = [] := by rw [Served.windows, states]; rfl
    have running : ¬ windowOver limit State.empty q.unixNow := by
      simp [windowOver, State.empty, positive]
    rw [state, if_neg running, if_neg running, none_yet, log]
    refine ⟨inWindow_iff.mpr ⟨le_rfl, lt_add_of_pos_right _ positive⟩, Nat.zero_le _, ?_⟩
    exact Fixed.unopened _ _ _
  | begun start count opened counted past few kept =>
    simp only [opened, counted, Option.getD_some]
    have ends : windowOver limit s.state q.unixNow ↔ start + limit.windowSeconds ≤ q.unixNow := by
      simp [windowOver, opened]
    split
    · rename_i ended
      refine ⟨inWindow_iff.mpr ⟨le_rfl, lt_add_of_pos_right _ positive⟩, Nat.zero_le _, ?_⟩
      exact kept.reopen positive (ends.mp ended)
    · rename_i running
      exact ⟨inWindow_iff.mpr ⟨past.trans later, not_le.mp (mt ends.mpr running)⟩, few, kept⟩

theorem windows_cons {t : State} {start : ℚ} (opened : t.windowStart = some start) (clock : ℚ)
    (log : List Admission) (states : List State) :
    Served.windows ⟨t, clock, log, t :: states⟩ = start :: states.filterMap State.windowStart := by
  simp [Served.windows, opened]

theorem serve_counting (kind : limit.algorithm = .fixedWindow) (positive : 0 < limit.windowSeconds)
    {t : Served State} (counting : Counting limit s)
    (next : serve (Algorithms.checkAtomic limit) Request.unixNow s q = some t) :
    Counting limit t := by
  obtain ⟨later, rfl⟩ := serve_eq_some _ _ next
  have other : limit.algorithm ≠ .tokenBucket := by rw [kind]; decide
  obtain ⟨here, few, kept⟩ := counting.window positive later
  have began := (inWindow_iff.mp here).1
  have stays := kept.stay few
  by_cases room : fixedCount limit s.state q.unixNow + q.cost ≤ limit.effectiveLimit
  · have primary : legacyPrimary limit s.state q.cost q.unixNow = some (true, { s.state with
        windowStart := some (fixedStart limit s.state q.unixNow)
        requestCount := some (fixedCount limit s.state q.unixNow + q.cost) }) := by
      simp only [legacyPrimary, kind, legacyFixedWindow, if_pos room]
    obtain ⟨bucket, stored, -⟩ := checkAtomic_primary other primary
    refine .begun (fixedStart limit s.state q.unixNow) (fixedCount limit s.state q.unixNow + q.cost)
      (by rw [stored]) (by rw [stored]) began room ?_
    rw [windows_cons (by rw [stored])]
    cases (Algorithms.checkAtomic limit s.state q).1 with
    | allowed => exact stays.grant List.mem_cons_self here room
    | denied => exact stays.more _
    | raised => exact stays.more _
  · have primary : legacyPrimary limit s.state q.cost q.unixNow = some (false, { s.state with
        windowStart := some (fixedStart limit s.state q.unixNow)
        requestCount := some (fixedCount limit s.state q.unixNow) }) := by
      simp only [legacyPrimary, kind, legacyFixedWindow, if_neg room]
    obtain ⟨bucket, stored, admitted⟩ := checkAtomic_primary other primary
    refine .begun (fixedStart limit s.state q.unixNow) (fixedCount limit s.state q.unixNow)
      (by rw [stored]) (by rw [stored]) began few ?_
    rw [windows_cons (by rw [stored]), note_other fun answered => Bool.false_ne_true (admitted answered)]
    exact stays

end Fixed

section Leaky

inductive Leaking (limit : Limit) (s : Served State) : Prop
  | dry (level : s.state.waterLevel = none) (leaked : s.state.lastLeak = none) (log : s.log = [])
  | wet (water last : ℚ) (level : s.state.waterLevel = some water)
      (leaked : s.state.lastLeak = some last) (past : last ≤ s.clock) (nonneg : 0 ≤ water)
      (metered : Metered limit.effectiveLimit limit.refillRate last (limit.effectiveLimit - water)
        s.log)

theorem Leaking.metered (leaking : Leaking limit s) (rising : 0 ≤ limit.refillRate)
    (later : s.clock ≤ q.unixNow) : Metered limit.effectiveLimit limit.refillRate q.unixNow
      (limit.effectiveLimit - level limit s.state q.unixNow) s.log := by
  cases leaking with
  | dry none_there leaked log =>
    have empty : level limit s.state q.unixNow = 0 := by simp [level, none_there, leaked]
    rw [empty, log, sub_zero]
    exact Metered.start (Nat.cast_nonneg _) le_rfl rising
  | wet water last there leaked past nonneg metered =>
    have drained : level limit s.state q.unixNow =
        max 0 (water - (q.unixNow - last) * limit.refillRate) := by
      simp [level, there, leaked]
    have flowed : 0 ≤ (q.unixNow - last) * limit.refillRate :=
      mul_nonneg (sub_nonneg.mpr (past.trans later)) rising
    have free := metered.nonneg
    rw [drained]
    refine metered.wait (past.trans later) ?_ ?_ rising ?_
    · rw [sub_nonneg]
      exact max_le (Nat.cast_nonneg _) (by linarith)
    · linarith [le_max_left 0 (water - (q.unixNow - last) * limit.refillRate)]
    · linarith [le_max_right 0 (water - (q.unixNow - last) * limit.refillRate)]

theorem serve_leaking (kind : limit.algorithm = .leakyBucket) (rising : 0 ≤ limit.refillRate)
    {t : Served State} (leaking : Leaking limit s)
    (next : serve (Algorithms.checkAtomic limit) Request.unixNow s q = some t) :
    Leaking limit t := by
  obtain ⟨later, rfl⟩ := serve_eq_some _ _ next
  have other : limit.algorithm ≠ .tokenBucket := by rw [kind]; decide
  have metered := leaking.metered rising later
  have nonneg : 0 ≤ level limit s.state q.unixNow := le_max_left _ _
  have raised (none_there : legacyPrimary limit s.state q.cost q.unixNow = none) :
      Leaking limit ⟨(Algorithms.checkAtomic limit s.state q).2, q.unixNow,
        note q.unixNow q.cost (Algorithms.checkAtomic limit s.state q).1 s.log,
        (Algorithms.checkAtomic limit s.state q).2 :: s.states⟩ := by
    have same : Algorithms.checkAtomic limit s.state q = (.raised, s.state) := by
      rw [checkAtomic_legacy other, applyLegacyCheck, none_there]
    rw [same]
    cases leaking with
    | dry none_there leaked log => exact .dry none_there leaked log
    | wet water last there leaked past nonneg metered =>
      exact .wet water last there leaked (past.trans later) nonneg metered
  by_cases window : limit.windowSeconds = 0
  · exact raised (by simp only [legacyPrimary, kind, legacyLeakyBucket, if_pos window])
  by_cases room : level limit s.state q.unixNow + q.cost ≤ limit.effectiveLimit
  · have primary : legacyPrimary limit s.state q.cost q.unixNow = some (true, { s.state with
        waterLevel := some (level limit s.state q.unixNow + q.cost)
        lastLeak := some q.unixNow }) := by
      simp only [legacyPrimary, kind, legacyLeakyBucket, if_neg window, if_pos room]
    obtain ⟨bucket, stored, -⟩ := checkAtomic_primary other primary
    have cost : (0 : ℚ) ≤ q.cost := Nat.cast_nonneg _
    refine .wet (level limit s.state q.unixNow + q.cost) q.unixNow (by rw [stored]) (by rw [stored])
      le_rfl (add_nonneg nonneg cost) ?_
    have paid : limit.effectiveLimit - (level limit s.state q.unixNow + q.cost) + (q.cost : ℚ) ≤
        limit.effectiveLimit - level limit s.state q.unixNow := by linarith
    cases (Algorithms.checkAtomic limit s.state q).1 with
    | allowed => exact metered.grant (sub_nonneg.mpr room) rising paid
    | denied => exact metered.lower (sub_nonneg.mpr room) (by linarith)
    | raised => exact metered.lower (sub_nonneg.mpr room) (by linarith)
  by_cases still : limit.refillRate = 0
  · exact raised (by
      simp only [legacyPrimary, kind, legacyLeakyBucket, if_neg window, if_neg room, if_pos still])
  · have primary : legacyPrimary limit s.state q.cost q.unixNow = some (false, { s.state with
        waterLevel := some (level limit s.state q.unixNow)
        lastLeak := some q.unixNow }) := by
      simp only [legacyPrimary, kind, legacyLeakyBucket, if_neg window, if_neg room, if_neg still]
    obtain ⟨bucket, stored, admitted⟩ := checkAtomic_primary other primary
    refine .wet (level limit s.state q.unixNow) q.unixNow (by rw [stored]) (by rw [stored]) le_rfl
      nonneg ?_
    rw [note_other fun answered => Bool.false_ne_true (admitted answered)]
    exact metered

end Leaky

def EachInterval (limit : Limit) (log : List Admission) : Prop :=
  ∀ start, AtMost limit.effectiveLimit (fun t => start ≤ t && t < start + limit.windowSeconds) log ∧
    AtMost limit.effectiveLimit (fun t => start < t && t ≤ start + limit.windowSeconds) log

/-- The windows that were opened do not overlap, what was admitted lies in them, and each
holds no more than the limit. -/
structure EachWindow (limit : Limit) (windows : List ℚ) (log : List Admission) : Prop where
  apart : ∀ w ∈ windows, ∀ v ∈ windows, w = v ∨ w + limit.windowSeconds ≤ v ∨
    v + limit.windowSeconds ≤ w
  inside : ∀ a ∈ log, ∃ w ∈ windows, inWindow limit.windowSeconds w a.time = true
  within : ∀ w ∈ windows, AtMost limit.effectiveLimit (inWindow limit.windowSeconds w) log

/-- What the check admits under one key keeps the bound of its algorithm, however its calls are
spaced. -/
theorem windows_bounded (limit : Limit) (positive : 0 < limit.windowSeconds) {s : Served State}
    (run : Reachable (serve (Algorithms.checkAtomic limit) Request.unixNow) New s) :
    (limit.algorithm = .slidingWindow → EachInterval limit s.log) ∧
      (limit.algorithm = .fixedWindow → EachWindow limit s.windows s.log) ∧
      (limit.algorithm = .leakyBucket → ∀ start stop, start ≤ stop →
        spent s.log start stop ≤ limit.effectiveLimit + limit.refillRate * (stop - start)) := by
  have rising : 0 ≤ limit.refillRate := div_nonneg (Nat.cast_nonneg _) positive.le
  refine ⟨?_, ?_, ?_⟩
  · intro kind start
    have kept : Sliding limit.effectiveLimit limit.windowSeconds s.clock
        (s.state.timestamps.getD []) s.log := by
      refine guarded_invariant ?_ (fun _ _ _ kept _ next => serve_sliding kind kept next) run
      rintro s ⟨state, log, -⟩
      rw [state, log]
      exact Sliding.start _ _ _
    exact kept.halfOpen start
  · intro kind
    have counting : Counting limit s := guarded_invariant (fun _ new => .new new)
      (fun _ _ _ counting _ next => serve_counting kind positive counting next) run
    cases counting with
    | new new =>
      have none_yet : s.windows = [] := by rw [Served.windows, new.2.2]; rfl
      rw [none_yet, new.2.1]
      refine ⟨?_, ?_, ?_⟩
      all_goals exact fun _ member => absurd member List.not_mem_nil
    | begun start count opened counted past few kept =>
      exact ⟨kept.apart, kept.inside, fun w member => kept.whole.atMost (kept.within w member)⟩
  · intro kind start stop ordered
    have leaking : Leaking limit s := by
      refine guarded_invariant ?_ (fun _ _ _ kept _ next => serve_leaking kind rising kept next) run
      rintro s ⟨state, log, -⟩
      exact .dry (by rw [state]; rfl) (by rw [state]; rfl) log
    cases leaking with
    | dry level leaked log =>
      rw [log, spent_nil]
      exact add_nonneg (Nat.cast_nonneg _) (mul_nonneg rising (sub_nonneg.mpr ordered))
    | wet water last level leaked past nonneg metered => exact metered.within start stop ordered

def twoInTen (algorithm : Algorithm) : Limit := ⟨⟨2, 10, 0, none, none⟩, algorithm⟩

def refilling : List Request := [⟨1, 0, 0⟩, ⟨1, 0, 0⟩, ⟨1, 1, 1⟩, ⟨1, 10, 10⟩]

theorem windows_bounded_refilling : ∃ s : Served State, s.log.length = 3 ∧
    EachInterval (twoInTen .slidingWindow) s.log := by
  have three : (Transition.run
      (serve (Algorithms.checkAtomic (twoInTen .slidingWindow)) Request.unixNow)
      (fresh State.empty) refilling).any (fun s => s.log.length = 3) = true := by decide +kernel
  obtain ⟨s, ends, three⟩ := (Option.any_eq_true _ _).mp three
  have reached := @reachable_of_run _ _ _ New _ _ refilling ⟨rfl, rfl, rfl⟩ ends
  exact ⟨s, of_decide_eq_true three,
    (windows_bounded (twoInTen .slidingWindow) (by decide) reached).1 rfl⟩

end Windows

end Plexichat.RateLimit.Bounds
