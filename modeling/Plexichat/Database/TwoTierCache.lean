import Mathlib.Logic.Function.Basic
import Plexichat.Library.Transition

/-! core/database/cache: operations.py and the `cached` decorator, for one key. The workers share
Valkey, each has a memory tier of its own, and a call runs as a whole. Each value carries the number
of the call that made it. Valkey may lose its value at any time, by expiry or eviction. -/
namespace Plexichat.Database.TwoTierCache
open Transition

structure Entry (ν : Type) where
  value : Option ν
  stamp : Nat

/-- A row of `_mem_cache`, with the call that stored it. -/
structure Copy (ν : Type) where
  expiry : Nat
  entry : Entry ν
  filled : Nat

/-- What becomes of an operation on Valkey: there is no client, it raises (with its effect or
without), or it works. -/
inductive Reach where
  | down
  | fails (applied : Bool)
  | works

/-- `settled` is the last call that has written or deleted the key on Valkey and returned. -/
structure State (ω ν : Type) where
  valkey : Option (Entry ν)
  memory : ω → Option (Copy ν)
  clock : Nat
  settled : Nat

inductive Call (ν : Type) where
  | get (now : Nat) (get : Reach)
  | set (now ttl : Nat) (value : Option ν) (set : Reach)
  | delete (delete : Reach)
  /-- A call of a `@cached` function, with what the function would return. -/
  | cached (now ttl : Nat) (result : Option ν) (get set : Reach)
  /-- `invalidate_pattern` with a pattern of the key. -/
  | invalidate (keys delete : Reach)
  | valkeyLoses
  /-- Other keys push this one out of the memory tier. -/
  | memoryLoses

variable {ω ν : Type}

namespace State

variable (s : State ω ν)

def tick : State ω ν := { s with clock := s.clock + 1 }

def valkeySet (e : Entry ν) : Reach → State ω ν
  | .works => { s with valkey := some e, settled := s.clock }
  | .fails true => { s with valkey := some e }
  | _ => s

def valkeyDelete : Reach → State ω ν
  | .works => { s with valkey := none, settled := s.clock }
  | .fails true => { s with valkey := none }
  | _ => s

/-- `get_json`, where a stored null is None as well. -/
def valkeyGet : Reach → Option (Entry ν)
  | .works => s.valkey.filter fun e => e.value.isSome
  | _ => none

variable [DecidableEq ω] (w : ω)

def forget : State ω ν := { s with memory := Function.update s.memory w none }

def memCacheGet (now : Nat) : Option (Entry ν) × State ω ν :=
  match s.memory w with
  | none => (none, s)
  | some c => if now < c.expiry then (some c.entry, s) else (none, s.forget w)

def memCacheSet (now ttl : Nat) (e : Entry ν) : State ω ν :=
  { s with memory := Function.update s.memory w (some ⟨now + ttl, e, s.clock⟩) }

def cacheGet (now : Nat) (get : Reach) : Option (Entry ν) × State ω ν :=
  match s.valkeyGet get with
  | some e => (some e, s)
  | none => s.memCacheGet w now

def cacheSet (now ttl : Nat) (value : Option ν) (set : Reach) : State ω ν :=
  let e : Entry ν := ⟨value, s.clock⟩
  match set with
  | .works => s.valkeySet e .works
  | set => (s.valkeySet e set).memCacheSet w now ttl e

def cacheDelete (delete : Reach) : State ω ν := (s.valkeyDelete delete).forget w

def compute (now ttl : Nat) (result : Option ν) (set : Reach) : State ω ν :=
  let e : Entry ν := ⟨result, s.clock⟩
  (s.valkeySet e set).memCacheSet w now ttl e

def cached (now ttl : Nat) (result : Option ν) (get set : Reach) : State ω ν :=
  match get with
  | .down =>
    let (hit, s) := s.memCacheGet w now
    match hit.filter fun e => e.value.isSome with
    | some _ => s
    | none => s.compute w now ttl result .down
  | get =>
    match s.valkeyGet get with
    | some e => s.memCacheSet w now ttl e
    | none => s.compute w now ttl result set

def invalidatePattern (keys delete : Reach) : State ω ν :=
  let s := s.forget w
  match keys, s.valkey with
  | .works, some _ => s.valkeyDelete delete
  | .works, none => s.valkeyDelete .works
  | _, _ => s

def step (s : State ω ν) : ω × Call ν → Option (State ω ν)
  | (w, .get now get) => some (s.tick.cacheGet w now get).2
  | (w, .set now ttl value set) => some (s.tick.cacheSet w now ttl value set)
  | (w, .delete delete) => some (s.tick.cacheDelete w delete)
  | (w, .cached now ttl result get set) => some (s.tick.cached w now ttl result get set)
  | (w, .invalidate keys delete) => some (s.tick.invalidatePattern w keys delete)
  | (_, .valkeyLoses) => some { s with valkey := none }
  | (w, .memoryLoses) => some (s.forget w)

end State

structure Initial (s : State ω ν) : Prop where
  valkey : s.valkey = none
  memory : ∀ w, s.memory w = none
  settled : s.settled ≤ s.clock

/-- A value is returned that no call has overwritten or deleted on Valkey since it was made. -/
def Current [DecidableEq ω] (s : State ω ν) (w : ω) (now : Nat) : Prop :=
  ∀ e, (s.cacheGet w now .works).1 = some e → e.value.isSome → s.settled ≤ e.stamp

/-- Valkey has no value, and the memory tier of the worker has one from before the last call that
wrote or deleted the key on Valkey. -/
def Undercut (s : State ω ν) (w : ω) (now : Nat) : Prop :=
  s.valkeyGet .works = none ∧
    ∃ c, s.memory w = some c ∧ now < c.expiry ∧ c.entry.value.isSome ∧ c.filled < s.settled

section Coherence

variable {s s' : State ω ν} {w : ω} {e : Entry ν}

structure Dated (s : State ω ν) : Prop where
  settled : s.settled ≤ s.clock
  valkey : ∀ e, s.valkey = some e → s.settled ≤ e.stamp ∧ e.stamp ≤ s.clock
  memory : ∀ w c, s.memory w = some c → c.entry.stamp ≤ c.filled ∧ c.filled ≤ s.clock ∧
    (s.settled ≤ c.filled → s.settled ≤ c.entry.stamp)

def Begun (s : State ω ν) : Prop := ∀ w c, s.memory w = some c → c.filled < s.clock

theorem Dated.tick (h : Dated s) : Dated s.tick ∧ Begun s.tick := by
  constructor
  · constructor
    · exact Nat.le_succ_of_le h.settled
    · intro e there
      exact ⟨(h.valkey e there).1, Nat.le_succ_of_le (h.valkey e there).2⟩
    · intro w c there
      obtain ⟨older, past, kept⟩ := h.memory w c there
      exact ⟨older, Nat.le_succ_of_le past, kept⟩
  · intro w c there
    exact Nat.lt_succ_of_le (h.memory w c there).2.1

theorem Dated.settle (h : Dated s) (begun : Begun s) {v : Option (Entry ν)}
    (now : ∀ e, v = some e → e.stamp = s.clock) :
    Dated { s with valkey := v, settled := s.clock } := by
  constructor
  · exact Nat.le_refl s.clock
  · intro e there
    exact ⟨Nat.le_of_eq (now e there).symm, Nat.le_of_eq (now e there)⟩
  · intro w c there
    have before := begun w c there
    obtain ⟨older, past, -⟩ := h.memory w c there
    exact ⟨older, past, fun late => absurd before (Nat.not_lt.mpr late)⟩

theorem Dated.replace (h : Dated s) {v : Option (Entry ν)}
    (fresh : ∀ e, v = some e → s.settled ≤ e.stamp ∧ e.stamp ≤ s.clock) :
    Dated { s with valkey := v } :=
  ⟨h.settled, fresh, h.memory⟩

theorem Dated.valkeySet (h : Dated s) (begun : Begun s) (now : e.stamp = s.clock) (r : Reach) :
    Dated (s.valkeySet e r) := by
  cases r with
  | down => exact h
  | works =>
    apply h.settle begun
    intro e' same
    cases same
    exact now
  | fails applied =>
    cases applied with
    | false => exact h
    | true =>
      apply h.replace
      intro e' same
      cases same
      exact ⟨now ▸ h.settled, Nat.le_of_eq now⟩

theorem Dated.valkeyDelete (h : Dated s) (begun : Begun s) (r : Reach) :
    Dated (s.valkeyDelete r) := by
  cases r with
  | down => exact h
  | works => exact h.settle begun (by simp)
  | fails applied =>
    cases applied with
    | false => exact h
    | true => exact h.replace (by simp)

@[simp] theorem valkeySet_clock (r : Reach) : (s.valkeySet e r).clock = s.clock := by
  unfold State.valkeySet
  split <;> rfl

theorem valkeyGet_eq_some {r : Reach} (there : s.valkeyGet r = some e) :
    s.valkey = some e ∧ e.value.isSome := by
  cases r with
  | works => exact Option.filter_eq_some_iff.mp there
  | down => cases there
  | fails _ => cases there

variable [DecidableEq ω]

@[simp] theorem forget_memory (w : ω) :
    (s.forget w).memory = Function.update s.memory w none := rfl

@[simp] theorem memCacheSet_memory (w : ω) {now ttl : Nat} : (s.memCacheSet w now ttl e).memory =
    Function.update s.memory w (some ⟨now + ttl, e, s.clock⟩) := rfl

theorem Begun.forget (begun : Begun s) (w : ω) : Begun (s.forget w) := by
  intro w' c there
  by_cases own : w' = w
  · subst own
    simp at there
  · rw [forget_memory, Function.update_of_ne own] at there
    exact begun w' c there

theorem Dated.forget (h : Dated s) (w : ω) : Dated (s.forget w) := by
  constructor
  · exact h.settled
  · exact h.valkey
  · intro w' c there
    by_cases own : w' = w
    · subst own
      simp at there
    · rw [forget_memory, Function.update_of_ne own] at there
      exact h.memory w' c there

theorem Dated.memCacheSet (h : Dated s) (w : ω) {now ttl : Nat} (made : e.stamp ≤ s.clock)
    (fresh : s.settled ≤ e.stamp) : Dated (s.memCacheSet w now ttl e) := by
  constructor
  · exact h.settled
  · exact h.valkey
  · intro w' c there
    by_cases own : w' = w
    · subst own
      rw [memCacheSet_memory, Function.update_self] at there
      cases there
      exact ⟨made, Nat.le_refl _, fun _ => fresh⟩
    · rw [memCacheSet_memory, Function.update_of_ne own] at there
      exact h.memory w' c there

theorem Dated.memCacheGet (h : Dated s) (w : ω) (now : Nat) : Dated (s.memCacheGet w now).2 := by
  unfold State.memCacheGet
  split
  · exact h
  · split
    · exact h
    · exact h.forget w

theorem Begun.memCacheGet (begun : Begun s) (w : ω) (now : Nat) :
    Begun (s.memCacheGet w now).2 := by
  unfold State.memCacheGet
  split
  · exact begun
  · split
    · exact begun
    · exact begun.forget w

theorem Dated.cacheGet (h : Dated s) (w : ω) (now : Nat) (get : Reach) :
    Dated (s.cacheGet w now get).2 := by
  unfold State.cacheGet
  split
  · exact h
  · exact h.memCacheGet w now

theorem Dated.both (h : Dated s) (begun : Begun s) (w : ω) {now ttl : Nat}
    (made : e.stamp = s.clock) (set : Reach) :
    Dated ((s.valkeySet e set).memCacheSet w now ttl e) := by
  have written := h.valkeySet begun made set
  have clock : (s.valkeySet e set).clock = e.stamp := by rw [valkeySet_clock, made]
  apply written.memCacheSet w
  · exact Nat.le_of_eq clock.symm
  · exact clock ▸ written.settled

theorem Dated.cacheSet (h : Dated s) (begun : Begun s) (w : ω) (now ttl : Nat) (value : Option ν)
    (set : Reach) : Dated (s.cacheSet w now ttl value set) := by
  cases set with
  | works => exact h.valkeySet begun rfl .works
  | down => exact h.both begun w rfl .down
  | fails applied => exact h.both begun w rfl (.fails applied)

theorem Dated.lookUp (h : Dated s) (begun : Begun s) (w : ω) (now ttl : Nat) (result : Option ν)
    (get set : Reach) : Dated (match s.valkeyGet get with
      | some e => s.memCacheSet w now ttl e
      | none => s.compute w now ttl result set) := by
  split
  · rename_i e there
    have current := h.valkey e (valkeyGet_eq_some there).1
    exact h.memCacheSet w current.2 current.1
  · exact h.both begun w rfl set

theorem Dated.cached (h : Dated s) (begun : Begun s) (w : ω) (now ttl : Nat) (result : Option ν)
    (get set : Reach) : Dated (s.cached w now ttl result get set) := by
  cases get with
  | down =>
    simp only [State.cached]
    split
    · exact h.memCacheGet w now
    · exact (h.memCacheGet w now).both (begun.memCacheGet w now) w rfl .down
  | works => exact h.lookUp begun w now ttl result .works set
  | fails applied => exact h.lookUp begun w now ttl result (.fails applied) set

theorem Dated.invalidatePattern (h : Dated s) (begun : Begun s) (w : ω) (keys delete : Reach) :
    Dated (s.invalidatePattern w keys delete) := by
  have cleared := h.forget w
  simp only [State.invalidatePattern]
  split
  · exact cleared.valkeyDelete (begun.forget w) delete
  · exact cleared.valkeyDelete (begun.forget w) .works
  · exact cleared

theorem Dated.step {s' : State ω ν} {a : ω × Call ν} (h : Dated s) (next : s.step a = some s') :
    Dated s' := by
  obtain ⟨w, call⟩ := a
  obtain ⟨ticked, begun⟩ := h.tick
  cases call with
  | get now get =>
    cases next
    exact ticked.cacheGet w now get
  | set now ttl value set =>
    cases next
    exact ticked.cacheSet begun w now ttl value set
  | delete delete =>
    cases next
    exact (ticked.valkeyDelete begun delete).forget w
  | cached now ttl result get set =>
    cases next
    exact ticked.cached begun w now ttl result get set
  | invalidate keys delete =>
    cases next
    exact ticked.invalidatePattern begun w keys delete
  | valkeyLoses =>
    cases next
    exact h.replace (by simp)
  | memoryLoses =>
    cases next
    exact h.forget w

theorem dated_throughout (h : Reachable State.step Initial s) : Dated s := by
  refine guarded_invariant ?_ (fun s a t dated _ next => dated.step next) h
  intro s start
  refine ⟨start.settled, ?_, ?_⟩
  · intro e there
    simp [start.valkey] at there
  · intro w c there
    simp [start.memory w] at there

end Coherence

/-- `cache_get` returns a value that has been overwritten or deleted exactly when Valkey lacks the
key and the memory tier of the worker has a copy from before. -/
theorem cache_get_current_iff [DecidableEq ω] {s : State ω ν} (h : Reachable State.step Initial s)
    (w : ω) (now : Nat) : Current s w now ↔ ¬Undercut s w now := by
  have dated := dated_throughout h
  unfold Current Undercut State.cacheGet
  cases valkey : s.valkeyGet .works with
  | some e =>
    have current := dated.valkey e (valkeyGet_eq_some valkey).1
    simp [current.1]
  | none =>
    unfold State.memCacheGet
    cases memory : s.memory w with
    | none => simp
    | some c =>
      obtain ⟨older, -, kept⟩ := dated.memory w c memory
      have agree : s.settled ≤ c.entry.stamp ↔ s.settled ≤ c.filled :=
        ⟨fun current => Nat.le_trans current older, kept⟩
      by_cases live : now < c.expiry <;> simp [live, agree]

section Stale

def cold (ω : Type) : State ω Nat := ⟨none, fun _ => none, 0, 0⟩

theorem cold_initial (ω : Type) : Initial (cold ω) := ⟨rfl, fun _ => rfl, Nat.le_refl 0⟩

/-- One worker fills both tiers with 7 through `cached`. The other deletes the key. -/
def deletedElsewhere : List (Bool × Call Nat) :=
  [(true, .cached 0 300 (some 7) .works .works), (false, .delete .works)]

def overwritten : List (Unit × Call Nat) :=
  [((), .cached 0 300 (some 7) .works .works), ((), .set 0 1 (some 8) .works), ((), .valkeyLoses)]

theorem deletedElsewhere_reached : ∃ s, Reachable State.step Initial s ∧ s.valkey = none ∧
    s.memory true = some ⟨300, ⟨some 7, 1⟩, 1⟩ ∧ s.memory false = none ∧ s.settled = 2 :=
  ⟨_, reachable_of_run deletedElsewhere (cold_initial Bool) rfl, rfl, rfl, rfl, rfl⟩

theorem overwritten_reached : ∃ s, Reachable State.step Initial s ∧ s.valkey = none ∧
    s.memory () = some ⟨300, ⟨some 7, 1⟩, 1⟩ ∧ s.settled = 2 :=
  ⟨_, reachable_of_run overwritten (cold_initial Unit) rfl, rfl, rfl, rfl⟩

/-- The worker that deleted the key has no copy of it left. -/
theorem cache_get_current_deleter : ∃ s : State Bool Nat, s.settled = 2 ∧ Current s false 1 := by
  obtain ⟨s, reached, -, -, own, settled⟩ := deletedElsewhere_reached
  refine ⟨s, settled, (cache_get_current_iff reached false 1).mpr ?_⟩
  rintro ⟨-, c, there, -⟩
  simp [own] at there

/-- With two workers, and with one. -/
theorem cache_get_overwritten :
    (¬∀ s : State Bool Nat, Reachable State.step Initial s → ∀ w now, Current s w now) ∧
    ¬∀ s : State Unit Nat, Reachable State.step Initial s → ∀ w now, Current s w now := by
  constructor
  · intro claim
    obtain ⟨s, reached, valkey, memory, -, settled⟩ := deletedElsewhere_reached
    have found : (s.cacheGet true 1 .works).1 = some ⟨some 7, 1⟩ := by
      simp [State.cacheGet, State.valkeyGet, State.memCacheGet, valkey, memory]
    have current := claim s reached true 1 ⟨some 7, 1⟩ found rfl
    simp [settled] at current
  · intro claim
    obtain ⟨s, reached, valkey, memory, settled⟩ := overwritten_reached
    have found : (s.cacheGet () 1 .works).1 = some ⟨some 7, 1⟩ := by
      simp [State.cacheGet, State.valkeyGet, State.memCacheGet, valkey, memory]
    have current := claim s reached () 1 ⟨some 7, 1⟩ found rfl
    simp [settled] at current

end Stale

end Plexichat.Database.TwoTierCache
