import Mathlib.Algebra.Order.Floor.Defs
import Mathlib.Data.Rat.Floor
import Plexichat.Library.Interleaving
import Plexichat.Library.Meter

/-! storage/database.py: eval_token_bucket, one database statement at a time, for one
key. Statements commit as they are executed. The row is never deleted, so expires_at
is left out; numbers are exact. -/
namespace Plexichat.RateLimit.DatabaseStorage
open Interleaving Meter Transition

structure Limit where
  capacity : Nat
  refillRate : ℚ
  ttl : Nat
  /-- rate_limiting.fail_open_on_backend_error. -/
  failOpen : Bool
  rate_nonneg : 0 ≤ refillRate

/-- The row of ratelimit_buckets. -/
structure Row where
  tokens : Option ℚ
  lastUpdate : Option ℚ

structure Answer where
  allowed : Bool
  remaining : Int
  resetAfter : ℚ
  deriving DecidableEq

/-- A running call: the turn of the retry loop and of the compare-and-set loop. -/
structure Call where
  cost : Nat
  attempt : Nat
  turn : Nat

inductive Pc where
  | idle
  | readClock (call : Call)
  | insert (call : Call) (now : ℚ)
  | select (call : Call) (now : ℚ)
  | normalize (call : Call) (now stored : ℚ)
  | refill (call : Call) (now delta lastUpdate : ℚ)
  | reselect (call : Call) (now : ℚ)
  | spend (call : Call) (now stored : ℚ)
  | ended (answer : Answer)

structure Store where
  now : ℚ
  row : Option Row
  /-- What was admitted, and when. -/
  log : List Admission

inductive Action where
  | wait (seconds : ℚ)
  | evaluate (cost : Nat)
  | proceed
  /-- The statement raises; `locked` is an error of `_is_lock_error`. -/
  | raises (locked : Bool)

def maxAttempts : Nat := 3
def maxCasAttempts : Nat := 10

def allow (c : Store) (call : Call) (remaining : Int) : Store × Pc :=
  ({ c with log := ⟨c.now, call.cost⟩ :: c.log }, .ended ⟨true, remaining, 0⟩)

def failClosed (limit : Limit) (c : Store) (call : Call) : Store × Pc :=
  if limit.failOpen then allow c call limit.capacity else (c, .ended ⟨false, 0, 60⟩)

/-- `continue`; the last turn raises an error that is not retried. -/
def again (limit : Limit) (c : Store) (call : Call) : Store × Pc :=
  if call.turn + 1 < maxCasAttempts then (c, .readClock { call with turn := call.turn + 1 })
  else failClosed limit c call

def settle (limit : Limit) (call : Call) (now stored : ℚ) : Pc :=
  if call.cost ≤ stored then .spend call now stored
  else .ended ⟨false, Int.floor stored,
    if 0 < limit.refillRate then max 0 ((call.cost - stored) / limit.refillRate) else limit.ttl⟩

def assess (limit : Limit) (call : Call) (now stored lastUpdate : ℚ) : Pc :=
  let refilled := min (limit.capacity : ℚ) (stored + max 0 (now - lastUpdate) * limit.refillRate)
  if stored < refilled then .refill call now (refilled - stored) lastUpdate
  else settle limit call now stored

/-- `SET tokens = CASE WHEN tokens + delta > cap THEN cap ELSE tokens + delta END`. -/
def refillTokens (limit : Limit) (delta tokens : ℚ) : ℚ :=
  if (limit.capacity : ℚ) < tokens + delta then limit.capacity else tokens + delta

/-- The statement the call stands at. A comparison with NULL selects no row. -/
def proceed (limit : Limit) (c : Store) : Pc → Option (Store × Pc)
  | .idle => none
  | .ended _ => none
  | .readClock call => some (c, .insert call c.now)
  | .insert call now =>
    some ({ c with row := c.row.or (some ⟨some limit.capacity, some now⟩) }, .select call now)
  | .select call now =>
    match c.row with
    | none => some (allow c call limit.capacity)
    | some ⟨tokens, none⟩ => some (c, .normalize call now (tokens.getD limit.capacity))
    | some ⟨tokens, some lastUpdate⟩ =>
      some (c, assess limit call now (tokens.getD limit.capacity) lastUpdate)
  | .normalize call now stored =>
    let refilled := min (limit.capacity : ℚ) stored
    match c.row with
    | some ⟨_, none⟩ =>
      some ({ c with row := some ⟨some refilled, some now⟩ }, assess limit call now refilled now)
    | _ => some (again limit c call)
  | .refill call now delta lastUpdate =>
    match c.row with
    | some ⟨tokens, some last⟩ =>
      if last ≤ lastUpdate then
        some ({ c with row := some ⟨tokens.map (refillTokens limit delta), some now⟩ },
          .reselect call now)
      else some (again limit c call)
    | _ => some (again limit c call)
  | .reselect call now =>
    match c.row with
    | none => some (allow c call limit.capacity)
    -- float(None) raises
    | some ⟨none, _⟩ => some (failClosed limit c call)
    | some ⟨some stored, _⟩ => some (c, settle limit call now stored)
  | .spend call now stored =>
    match c.row with
    | some ⟨some tokens, _⟩ =>
      if (call.cost : ℚ) ≤ tokens then
        some (allow { c with row := some ⟨some (tokens - call.cost), some now⟩ } call
          (max 0 (Int.floor (stored - call.cost))))
      else some (again limit c call)
    | _ => some (again limit c call)

def Pc.call : Pc → Option Call
  | .idle => none
  | .ended _ => none
  | .readClock call => some call
  | .insert call _ => some call
  | .select call _ => some call
  | .normalize call _ _ => some call
  | .refill call _ _ _ => some call
  | .reselect call _ => some call
  | .spend call _ _ => some call

/-- An exception ends the evaluation; errors of a locked database are retried. -/
def raised (limit : Limit) (c : Store) (locked : Bool) (call : Call) : Store × Pc :=
  if locked && call.attempt + 1 < maxAttempts then
    (c, .readClock { call with attempt := call.attempt + 1, turn := 0 })
  else failClosed limit c call

def next (limit : Limit) (c : Store) (p : Pc) : Action → Option (Store × Pc)
  | .wait seconds => if 0 ≤ seconds then some ({ c with now := c.now + seconds }, p) else none
  | .evaluate cost =>
    match p with
    | .idle => some (c, .readClock ⟨cost, 0, 0⟩)
    | _ => none
  | .proceed => proceed limit c p
  | .raises locked => p.call.map (raised limit c locked)

/-- The tokens that the row stands for now. A row without clock or balance, and no row,
stand for a full bucket. -/
def credit (limit : Limit) (c : Store) : ℚ :=
  match c.row with
  | some ⟨some tokens, some last⟩ =>
    min (limit.capacity : ℚ) (tokens + limit.refillRate * (c.now - last))
  | _ => limit.capacity

structure Sound (c : Store) : Prop where
  tokens : ∀ row x, c.row = some row → row.tokens = some x → 0 ≤ x
  clock : ∀ row x, c.row = some row → row.lastUpdate = some x → x ≤ c.now

structure Inv (limit : Limit) (c : Store) : Prop where
  sound : Sound c
  metered : Metered limit.capacity limit.refillRate c.now (credit limit c) c.log

def Pc.clock : Pc → Option ℚ
  | .insert _ now => some now
  | .select _ now => some now
  | .normalize _ now _ => some now
  | .refill _ now _ _ => some now
  | .reselect _ now => some now
  | .spend _ now _ => some now
  | _ => none

def Pc.inserted : Pc → Bool
  | .select _ _ => true
  | .normalize _ _ _ => true
  | .refill _ _ _ _ => true
  | .reselect _ _ => true
  | .spend _ _ _ => true
  | _ => false

/-- What a call knows: its clock value is past, the row is there, and a refill adds at
most what has accrued since the clock value that it has read in the row. -/
structure Facts (limit : Limit) (c : Store) (p : Pc) : Prop where
  clock : ∀ x, p.clock = some x → x ≤ c.now
  row : p.inserted = true → c.row.isSome = true
  stored : ∀ call now stored, p = .normalize call now stored → 0 ≤ stored
  refill : ∀ call now delta last, p = .refill call now delta last →
    0 ≤ delta ∧ delta ≤ limit.refillRate * (now - last)

def Timely (limit : Limit) (c : Store) (p : Pc) (a : Action) : Prop :=
  limit.failOpen = false ∧ ∀ call now stored row tokens, p = .spend call now stored →
    a = .proceed → c.row = some row → row.tokens = some tokens → call.cost ≤ tokens →
      tokens + limit.refillRate * (c.now - now) ≤ limit.capacity ∧
        ∀ last, row.lastUpdate = some last → last ≤ now

def Initial {ι : Type} (s : State ι Store Pc) : Prop :=
  (∀ i, s.pc i = .idle) ∧ s.shared.log = [] ∧ Sound s.shared

section Statements

variable {limit : Limit} {c : Store}

def Pc.writes (p : Pc) (row : Option Row) : Bool :=
  match p, row with
  | .insert _ _, none => true
  | .normalize _ _ _, some ⟨_, none⟩ => true
  | .refill _ _ _ lastUpdate, some ⟨_, some last⟩ => last ≤ lastUpdate
  | .spend call _ _, some ⟨some tokens, _⟩ => (call.cost : ℚ) ≤ tokens
  | _, _ => false

inductive Executed (limit : Limit) (c : Store) : Pc → Store × Pc → Prop where
  | readClock (call : Call) : Executed limit c (.readClock call) (c, .insert call c.now)
  | insert (call : Call) (now : ℚ) : Executed limit c (.insert call now)
      ({ c with row := c.row.or (some ⟨some limit.capacity, some now⟩) }, .select call now)
  | gone {p : Pc} {call : Call} {now : ℚ} (reads : p = .select call now ∨ p = .reselect call now)
      (absent : c.row = none) : Executed limit c p (allow c call limit.capacity)
  | unclocked (call : Call) (now : ℚ) {tokens : Option ℚ} (row : c.row = some ⟨tokens, none⟩) :
      Executed limit c (.select call now) (c, .normalize call now (tokens.getD limit.capacity))
  | select (call : Call) (now : ℚ) {tokens : Option ℚ} {last : ℚ}
      (row : c.row = some ⟨tokens, some last⟩) : Executed limit c (.select call now)
        (c, assess limit call now (tokens.getD limit.capacity) last)
  | normalize (call : Call) (now stored : ℚ) {tokens : Option ℚ}
      (row : c.row = some ⟨tokens, none⟩) : Executed limit c (.normalize call now stored)
        ({ c with row := some ⟨some (min (limit.capacity : ℚ) stored), some now⟩ },
          assess limit call now (min (limit.capacity : ℚ) stored) now)
  | refill (call : Call) (now delta : ℚ) {lastUpdate last : ℚ} {tokens : Option ℚ}
      (row : c.row = some ⟨tokens, some last⟩) (behind : last ≤ lastUpdate) :
      Executed limit c (.refill call now delta lastUpdate)
        ({ c with row := some ⟨tokens.map (refillTokens limit delta), some now⟩ },
          .reselect call now)
  | unreadable (call : Call) (now : ℚ) {last : Option ℚ} (row : c.row = some ⟨none, last⟩) :
      Executed limit c (.reselect call now) (failClosed limit c call)
  | reselect (call : Call) (now : ℚ) {stored : ℚ} {last : Option ℚ}
      (row : c.row = some ⟨some stored, last⟩) :
      Executed limit c (.reselect call now) (c, settle limit call now stored)
  | spend (call : Call) (now stored : ℚ) {tokens : ℚ} {last : Option ℚ}
      (row : c.row = some ⟨some tokens, last⟩) (enough : (call.cost : ℚ) ≤ tokens) :
      Executed limit c (.spend call now stored)
        (allow { c with row := some ⟨some (tokens - call.cost), some now⟩ } call
          (max 0 (Int.floor (stored - call.cost))))
  | missed {p : Pc} {call : Call} (here : p.call = some call) (unselected : p.writes c.row = false) :
      Executed limit c p (again limit c call)

theorem executed {p : Pc} {r : Store × Pc} (h : proceed limit c p = some r) :
    Executed limit c p r := by
  cases p with
  | idle => cases h
  | ended answer => cases h
  | readClock call =>
    cases h
    exact .readClock call
  | insert call now =>
    cases h
    exact .insert call now
  | select call now =>
    simp only [proceed] at h
    split at h
    · cases h
      exact .gone (.inl rfl) ‹_›
    · cases h
      exact .unclocked call now ‹_›
    · cases h
      exact .select call now ‹_›
  | normalize call now stored =>
    simp only [proceed] at h
    split at h
    · cases h
      exact .normalize call now stored ‹_›
    · rename_i other
      cases h
      refine .missed rfl ?_
      rcases row : c.row with _ | ⟨tokens, _ | last⟩
      · rfl
      · exact absurd row (other tokens)
      · rfl
  | refill call now delta lastUpdate =>
    simp only [proceed] at h
    split at h
    · rename_i tokens last row
      split at h
      · cases h
        exact .refill call now delta row ‹_›
      · rename_i ahead
        cases h
        exact .missed rfl (by simp [Pc.writes, row, ahead])
    · rename_i other
      cases h
      refine .missed rfl ?_
      rcases row : c.row with _ | ⟨tokens, _ | last⟩
      · rfl
      · rfl
      · exact absurd row (other tokens last)
  | reselect call now =>
    simp only [proceed] at h
    split at h
    · cases h
      exact .gone (.inr rfl) ‹_›
    · cases h
      exact .unreadable call now ‹_›
    · cases h
      exact .reselect call now ‹_›
  | spend call now stored =>
    simp only [proceed] at h
    split at h
    · rename_i tokens last row
      split at h
      · cases h
        exact .spend call now stored row ‹_›
      · rename_i short
        cases h
        exact .missed rfl (by simp [Pc.writes, row, short])
    · rename_i other
      cases h
      refine .missed rfl ?_
      rcases row : c.row with _ | ⟨_ | tokens, last⟩
      · rfl
      · rfl
      · exact absurd row (other tokens last)

end Statements

section Results

variable {limit : Limit} {c : Store}

theorem credit_eq {tokens last : ℚ} (row : c.row = some ⟨some tokens, some last⟩) :
    credit limit c = min (limit.capacity : ℚ) (tokens + limit.refillRate * (c.now - last)) := by
  rw [credit, row]

theorem credit_full (h : ∀ tokens last, c.row ≠ some ⟨some tokens, some last⟩) :
    credit limit c = limit.capacity := by
  unfold credit
  split
  · rename_i tokens last row
    exact absurd row (h tokens last)
  · rfl

theorem credit_le (limit : Limit) (c : Store) : credit limit c ≤ limit.capacity := by
  unfold credit
  split
  · exact min_le_left _ _
  · exact le_rfl

theorem credit_nonneg (limit : Limit) (h : Sound c) : 0 ≤ credit limit c := by
  unfold credit
  split
  · rename_i tokens last row
    have balance := h.tokens _ _ row rfl
    have waited := sub_nonneg.mpr (h.clock _ _ row rfl)
    exact le_min (Nat.cast_nonneg _) (add_nonneg balance (mul_nonneg limit.rate_nonneg waited))
  · exact Nat.cast_nonneg _

theorem Inv.rewrite (h : Inv limit c) {row : Option Row} (sound : Sound { c with row })
    (less : credit limit { c with row } ≤ credit limit c) : Inv limit { c with row } :=
  ⟨sound, h.metered.lower (credit_nonneg limit sound) less⟩

theorem Sound.row {row : Row} (tokens : ∀ x, row.tokens = some x → 0 ≤ x)
    (clock : ∀ x, row.lastUpdate = some x → x ≤ c.now) : Sound { c with row := some row } := by
  constructor
  · intro r x here
    cases here
    exact tokens x
  · intro r x here
    cases here
    exact clock x

theorem Inv.wait (h : Inv limit c) {seconds : ℚ} (later : 0 ≤ seconds) :
    Inv limit { c with now := c.now + seconds } := by
  have sound : Sound { c with now := c.now + seconds } := by
    refine ⟨h.sound.tokens, ?_⟩
    intro row x here last
    have before := h.sound.clock row x here last
    show x ≤ c.now + seconds
    linarith
  refine ⟨sound, h.metered.wait (le_add_of_nonneg_right later) (credit_nonneg limit sound)
    (credit_le limit _) limit.rate_nonneg ?_⟩
  show credit limit { c with now := c.now + seconds } ≤
    credit limit c + limit.refillRate * (c.now + seconds - c.now)
  have accrues := mul_nonneg limit.rate_nonneg later
  rw [add_sub_cancel_left]
  by_cases known : ∃ tokens last, c.row = some ⟨some tokens, some last⟩
  · obtain ⟨tokens, last, row⟩ := known
    rw [credit_eq row, credit_eq (c := { c with now := c.now + seconds }) row, ← min_add_add_right]
    apply min_le_min
    · exact le_add_of_nonneg_right accrues
    · show tokens + limit.refillRate * (c.now + seconds - last) ≤ _
      linarith
  · have full : credit limit c = limit.capacity :=
      credit_full fun tokens last row => known ⟨tokens, last, row⟩
    rw [full]
    exact (credit_le limit _).trans (le_add_of_nonneg_right accrues)

theorem Inv.insert (h : Inv limit c) {now : ℚ} (past : now ≤ c.now) :
    Inv limit { c with row := c.row.or (some ⟨some limit.capacity, some now⟩) } := by
  cases row : c.row with
  | some r =>
    have same : { c with row := some r } = c := by rw [← row]
    rw [Option.some_or, same]
    exact h
  | none =>
    rw [Option.none_or]
    have full : credit limit c = limit.capacity :=
      credit_full fun _ _ same => nomatch row.symm.trans same
    refine h.rewrite (Sound.row ?_ ?_) ((credit_le limit _).trans full.ge)
    · intro x here
      cases here
      exact Nat.cast_nonneg _
    · intro x here
      cases here
      exact past

theorem Inv.normalize (h : Inv limit c) {now stored : ℚ} {tokens : Option ℚ} (past : now ≤ c.now)
    (nonneg : 0 ≤ stored) (row : c.row = some ⟨tokens, none⟩) :
    Inv limit { c with row := some ⟨some (min limit.capacity stored), some now⟩ } := by
  have full : credit limit c = limit.capacity :=
    credit_full fun _ _ same => nomatch row.symm.trans same
  refine h.rewrite (Sound.row ?_ ?_) ((credit_le limit _).trans full.ge)
  · intro x here
    cases here
    exact le_min (Nat.cast_nonneg _) nonneg
  · intro x here
    cases here
    exact past

theorem Inv.refill (h : Inv limit c) {now delta last lastUpdate : ℚ} {tokens : Option ℚ}
    (past : now ≤ c.now) (added : 0 ≤ delta ∧ delta ≤ limit.refillRate * (now - lastUpdate))
    (row : c.row = some ⟨tokens, some last⟩) (behind : last ≤ lastUpdate) :
    Inv limit { c with row := some ⟨tokens.map (refillTokens limit delta), some now⟩ } := by
  refine h.rewrite (Sound.row ?_ ?_) ?_
  · intro x here
    obtain ⟨y, balance, rfl⟩ := Option.map_eq_some_iff.mp here
    have nonneg := h.sound.tokens _ y row balance
    unfold refillTokens
    split
    · exact Nat.cast_nonneg _
    · exact add_nonneg nonneg added.1
  · intro x here
    cases here
    exact past
  · cases tokens with
    | none =>
      have full : credit limit c = limit.capacity :=
        credit_full fun _ _ same => nomatch row.symm.trans same
      exact (credit_le limit _).trans full.ge
    | some x =>
      have clamped : refillTokens limit delta x ≤ x + delta := by
        unfold refillTokens
        split
        · rename_i ended
          exact ended.le
        · exact le_rfl
      have aging := mul_le_mul_of_nonneg_left (sub_le_sub_left behind c.now) limit.rate_nonneg
      rw [credit_eq row, credit_eq rfl]
      apply min_le_min le_rfl
      show refillTokens limit delta x + limit.refillRate * (c.now - now) ≤
        x + limit.refillRate * (c.now - last)
      have split_time : limit.refillRate * (c.now - now) + limit.refillRate * (now - lastUpdate) =
          limit.refillRate * (c.now - lastUpdate) := by ring
      linarith [added.2]

theorem Inv.spend (h : Inv limit c) {now tokens : ℚ} {cost : Nat} {last : Option ℚ}
    (past : now ≤ c.now) (row : c.row = some ⟨some tokens, last⟩) (enough : (cost : ℚ) ≤ tokens)
    (fits : tokens + limit.refillRate * (c.now - now) ≤ limit.capacity)
    (ahead : ∀ x, last = some x → x ≤ now) :
    Inv limit { c with
      row := some ⟨some (tokens - cost), some now⟩, log := ⟨c.now, cost⟩ :: c.log } := by
  have sound : Sound { c with row := some ⟨some (tokens - cost), some now⟩ } := by
    refine Sound.row ?_ ?_
    · intro x here
      cases here
      exact sub_nonneg.mpr enough
    · intro x here
      cases here
      exact past
  have paid : credit limit { c with row := some ⟨some (tokens - cost), some now⟩ } + cost ≤
      credit limit c := by
    have spent : credit limit { c with row := some ⟨some (tokens - cost), some now⟩ } + cost ≤
        tokens + limit.refillRate * (c.now - now) := by
      have low : credit limit { c with row := some ⟨some (tokens - cost), some now⟩ } ≤
          tokens - cost + limit.refillRate * (c.now - now) := min_le_right _ _
      linarith
    cases last with
    | none =>
      have full : credit limit c = limit.capacity :=
        credit_full fun _ _ same => nomatch row.symm.trans same
      rw [full]
      exact spent.trans fits
    | some x =>
      have aging := mul_le_mul_of_nonneg_left (sub_le_sub_left (ahead x rfl) c.now)
        limit.rate_nonneg
      rw [credit_eq row]
      refine le_min (spent.trans fits) ?_
      linarith
  have nonneg := credit_nonneg limit sound
  exact ⟨⟨sound.tokens, sound.clock⟩, h.metered.grant nonneg limit.rate_nonneg paid⟩

theorem clock_of_inserted {p : Pc} (h : p.inserted = true) : ∃ x, p.clock = some x := by
  cases p with
  | select call now => exact ⟨now, rfl⟩
  | normalize call now stored => exact ⟨now, rfl⟩
  | refill call now delta last => exact ⟨now, rfl⟩
  | reselect call now => exact ⟨now, rfl⟩
  | spend call now stored => exact ⟨now, rfl⟩
  | idle => cases h
  | readClock call => cases h
  | insert call now => cases h
  | ended answer => cases h

theorem Facts.rest {p : Pc} (h : p.clock = none) : Facts limit c p := by
  refine ⟨?_, ?_, ?_, ?_⟩
  · intro x here
    rw [h] at here
    cases here
  · intro here
    obtain ⟨x, clock⟩ := clock_of_inserted here
    rw [h] at clock
    cases clock
  · intro call now stored here
    rw [here] at h
    cases h
  · intro call now delta last here
    rw [here] at h
    cases h

theorem Facts.inserted {p : Pc} {now : ℚ} (clock : p.clock = some now) (past : now ≤ c.now)
    (row : c.row.isSome = true) (plain : ∀ call now stored, p ≠ .normalize call now stored)
    (fresh : ∀ call now delta last, p ≠ .refill call now delta last) : Facts limit c p := by
  refine ⟨?_, fun _ => row, ?_, ?_⟩
  · intro x here
    cases clock.symm.trans here
    exact past
  · intro call now stored here
    exact absurd here (plain call now stored)
  · intro call now delta last here
    exact absurd here (fresh call now delta last)

theorem Facts.mono {p : Pc} {c' : Store} (h : Facts limit c p) (later : c.now ≤ c'.now)
    (row : c.row.isSome = true → c'.row.isSome = true) : Facts limit c' p :=
  ⟨fun x here => (h.clock x here).trans later, fun here => row (h.row here), h.stored, h.refill⟩

theorem settle_facts {call : Call} {now stored : ℚ} (past : now ≤ c.now)
    (row : c.row.isSome = true) : Facts limit c (settle limit call now stored) := by
  unfold settle
  split
  · exact Facts.inserted rfl past row nofun nofun
  · exact Facts.rest rfl

theorem assess_facts {call : Call} {now stored lastUpdate : ℚ} (past : now ≤ c.now)
    (row : c.row.isSome = true) : Facts limit c (assess limit call now stored lastUpdate) := by
  simp only [assess]
  split
  · rename_i grows
    refine ⟨?_, fun _ => row, nofun, ?_⟩
    · intro x here
      cases here
      exact past
    · intro call' now' delta last here
      cases here
      refine ⟨(sub_pos.mpr grows).le, ?_⟩
      have more : stored < stored + max 0 (now - lastUpdate) * limit.refillRate :=
        grows.trans_le (min_le_right _ _)
      have elapsed : max 0 (now - lastUpdate) = now - lastUpdate := by
        cases max_choice 0 (now - lastUpdate) with
        | inl none_elapsed =>
          rw [none_elapsed, zero_mul, add_zero] at more
          exact absurd more (lt_irrefl _)
        | inr some_elapsed => exact some_elapsed
      rw [elapsed]
      have capped := min_le_right (limit.capacity : ℚ)
        (stored + (now - lastUpdate) * limit.refillRate)
      linarith
  · exact settle_facts past row

structure Kept (limit : Limit) (c : Store) (r : Store × Pc) : Prop where
  inv : Inv limit r.1
  facts : Facts limit r.1 r.2
  later : c.now ≤ r.1.now
  row : c.row.isSome = true → r.1.row.isSome = true

theorem Kept.still {q : Pc} (inv : Inv limit c) (facts : Facts limit c q) : Kept limit c (c, q) :=
  ⟨inv, facts, le_rfl, fun here => here⟩

theorem failClosed_kept (inv : Inv limit c) (denies : limit.failOpen = false) (call : Call) :
    Kept limit c (failClosed limit c call) := by
  rw [failClosed, denies]
  exact Kept.still inv (Facts.rest rfl)

theorem again_kept (inv : Inv limit c) (denies : limit.failOpen = false) (call : Call) :
    Kept limit c (again limit c call) := by
  unfold again
  split
  · exact Kept.still inv (Facts.rest rfl)
  · exact failClosed_kept inv denies call

theorem proceed_kept {p : Pc} {r : Store × Pc} (inv : Inv limit c) (facts : Facts limit c p)
    (timely : Timely limit c p .proceed) (h : proceed limit c p = some r) : Kept limit c r := by
  obtain ⟨denies, fits⟩ := timely
  cases executed h with
  | readClock call =>
    refine Kept.still inv ⟨?_, nofun, nofun, nofun⟩
    intro x here
    cases here
    exact le_rfl
  | insert call now =>
    have past := facts.clock now rfl
    have there : (c.row.or (some ⟨some limit.capacity, some now⟩)).isSome = true := by simp
    exact ⟨inv.insert past, Facts.inserted rfl past there nofun nofun, le_rfl, fun _ => there⟩
  | gone reads absent =>
    have inserted : p.inserted = true := by
      rcases reads with rfl | rfl
      · rfl
      · rfl
    have there := facts.row inserted
    rw [absent] at there
    cases there
  | @unclocked call now tokens row =>
    have past := facts.clock now rfl
    refine Kept.still inv ⟨?_, fun _ => facts.row rfl, ?_, nofun⟩
    · intro x here
      cases here
      exact past
    · intro call' now' stored here
      cases here
      cases tokens with
      | none => exact Nat.cast_nonneg _
      | some x => exact inv.sound.tokens _ x row rfl
  | select call now row =>
    exact Kept.still inv (assess_facts (facts.clock now rfl) (facts.row rfl))
  | normalize call now stored row =>
    have past := facts.clock now rfl
    exact ⟨inv.normalize past (facts.stored _ _ _ rfl) row, assess_facts past rfl, le_rfl,
      fun _ => rfl⟩
  | refill call now delta row behind =>
    have past := facts.clock now rfl
    exact ⟨inv.refill past (facts.refill _ _ _ _ rfl) row behind,
      Facts.inserted rfl past rfl nofun nofun, le_rfl, fun _ => rfl⟩
  | unreadable call now row => exact failClosed_kept inv denies call
  | reselect call now row =>
    exact Kept.still inv (settle_facts (facts.clock now rfl) (facts.row rfl))
  | @spend call now stored tokens last row enough =>
    obtain ⟨room, ahead⟩ := fits call now stored _ tokens rfl rfl row rfl enough
    exact ⟨inv.spend (facts.clock now rfl) row enough room ahead, Facts.rest rfl, le_rfl,
      fun _ => rfl⟩
  | @missed _ call here unselected => exact again_kept inv denies call

theorem next_kept {p : Pc} {a : Action} {r : Store × Pc} (inv : Inv limit c)
    (facts : Facts limit c p) (timely : Timely limit c p a) (h : next limit c p a = some r) :
    Kept limit c r := by
  cases a with
  | wait seconds =>
    simp only [next] at h
    split at h
    · rename_i later
      cases h
      have onward : c.now ≤ c.now + seconds := le_add_of_nonneg_right later
      exact ⟨inv.wait later, facts.mono onward fun here => here, onward, fun here => here⟩
    · cases h
  | evaluate cost =>
    simp only [next] at h
    split at h
    · cases h
      exact Kept.still inv (Facts.rest rfl)
    · cases h
  | proceed => exact proceed_kept inv facts timely h
  | raises locked =>
    obtain ⟨call, _, rfl⟩ := Option.map_eq_some_iff.mp h
    unfold raised
    split
    · exact Kept.still inv (Facts.rest rfl)
    · exact failClosed_kept inv timely.1 call

end Results

variable {ι : Type} [DecidableEq ι] {limit : Limit}

/-- In every run that meets the guard, what the bucket admits in an interval stays within
its capacity and what accrues in the interval. -/
theorem admitted_within {s : State ι Store Pc}
    (h : Guarded (step (next limit)) (fun s a => Timely limit s.shared (s.pc a.1) a.2) Initial s)
    (start stop : ℚ) (ordered : start ≤ stop) :
    spent s.shared.log start stop ≤ limit.capacity + limit.refillRate * (stop - start) := by
  have holds : Holds (Inv limit) (Facts limit) (fun _ _ => True) s := by
    refine holds_throughout ?_ ?_ h
    · intro s initial
      obtain ⟨idle, log, sound⟩ := initial
      refine ⟨⟨sound, ?_⟩, ?_, fun _ _ _ => trivial⟩
      · rw [log]
        exact Metered.start (credit_nonneg limit sound) (credit_le limit _) limit.rate_nonneg
      · intro i
        rw [idle i]
        exact Facts.rest rfl
    · intro s i a r holds guard moved
      have kept := next_kept holds.shared (holds.each i) guard moved
      exact ⟨kept.inv, kept.facts, fun j _ =>
        ⟨(holds.each j).mono kept.later kept.row, trivial, trivial⟩⟩
  exact holds.shared.metered.within start stop ordered

def oneToken : Limit := ⟨1, 1, 86400, false, by decide⟩

def noRow : State (Fin 3) Store Pc := ⟨⟨0, none, []⟩, fun _ => .idle⟩

theorem noRow_initial : Initial noRow := ⟨fun _ => rfl, rfl, nofun, nofun⟩

def lateSpend : List (Fin 3 × Action) :=
  [(0, .evaluate 1), (0, .proceed), (0, .proceed), (0, .proceed),
    (1, .evaluate 1), (1, .proceed), (1, .proceed), (1, .proceed), (1, .proceed),
    (2, .wait 1), (2, .evaluate 1), (2, .proceed), (2, .proceed), (2, .proceed), (2, .proceed),
    (2, .proceed), (0, .proceed), (2, .proceed), (2, .proceed), (2, .proceed), (2, .proceed),
    (2, .proceed), (2, .proceed), (2, .proceed)]

theorem late_spend_admits_too_much : ¬ ∀ (limit : Limit) (s : State (Fin 3) Store Pc),
    Reachable (step (next limit)) Initial s → ∀ start stop, start ≤ stop →
      spent s.shared.log start stop ≤ limit.capacity + limit.refillRate * (stop - start) := by
  intro law
  have three : (run (step (next oneToken)) noRow lateSpend).any
      (fun s => spent s.shared.log 0 1 = 3) = true := by decide +kernel
  obtain ⟨t, ends, three⟩ := (Option.any_eq_true _ _).mp three
  have reached := reachable_of_run lateSpend noRow_initial ends
  have bound := law oneToken t reached 0 1 (by decide)
  rw [of_decide_eq_true three] at bound
  revert bound
  decide +kernel

def timely (limit : Limit) (c : Store) (p : Pc) (a : Action) : Bool :=
  !limit.failOpen &&
    match p, a, c.row with
    | .spend call now _, .proceed, some ⟨some tokens, last⟩ =>
      decide (tokens < call.cost) ||
        (decide (tokens + limit.refillRate * (c.now - now) ≤ limit.capacity) &&
          last.all fun x => decide (x ≤ now))
    | _, _, _ => true

theorem timely_of_test {limit : Limit} {c : Store} {p : Pc} {a : Action}
    (h : timely limit c p a = true) : Timely limit c p a := by
  unfold timely at h
  rw [Bool.and_eq_true, Bool.not_eq_true'] at h
  refine ⟨h.1, ?_⟩
  intro call now stored row tokens at_spend proceeds here balance enough
  obtain ⟨x, last⟩ := row
  have some_tokens : x = some tokens := balance
  rw [at_spend, proceeds, here, some_tokens] at h
  simp only [Bool.or_eq_true, Bool.and_eq_true, decide_eq_true_eq] at h
  obtain ⟨fits, ahead⟩ := h.2.resolve_left (not_lt.mpr enough)
  refine ⟨fits, ?_⟩
  intro y clock
  have some_last : last = some y := clock
  rw [some_last] at ahead
  exact of_decide_eq_true ahead

/-- A call that is served at once, and what the law says of it. -/
theorem served_at_once : ∃ s : State (Fin 3) Store Pc, spent s.shared.log 0 0 = 1 ∧
    spent s.shared.log 0 0 ≤ (oneToken.capacity : ℚ) + oneToken.refillRate * (0 - 0) := by
  let calls : List (Fin 3 × Action) :=
    [(0, .evaluate 1), (0, .proceed), (0, .proceed), (0, .proceed), (0, .proceed)]
  have one : (runGuarded (step (next oneToken))
      (fun s a => timely oneToken s.shared (s.pc a.1) a.2 = true) noRow calls).any
      (fun s => spent s.shared.log 0 0 = 1) = true := by decide +kernel
  obtain ⟨t, ends, one⟩ := (Option.any_eq_true _ _).mp one
  have tested := guarded_of_run calls noRow_initial ends
  have guarded := guarded_mono (fun _ _ => timely_of_test) tested
  exact ⟨t, of_decide_eq_true one, admitted_within guarded 0 0 le_rfl⟩

end Plexichat.RateLimit.DatabaseStorage
