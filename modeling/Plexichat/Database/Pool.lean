import Mathlib.Data.Finset.Card
import Plexichat.Library.Table
import Plexichat.Library.Transition

/-! core/database/engines/pool.py, each call under the lock of the pool. A connection is known by
its identity, and `create_conn` makes one that nobody has seen. Times are in seconds. -/
namespace Plexichat.Database.Pool
open Transition

abbrev Conn := Nat

def inTransactionAliveGraceSeconds : Int := 60

structure Config where
  minSize : Nat
  maxSize : Nat
  idleReclaimSeconds : Int

/-- A row of `_checked_out`. -/
structure Checkout (ι : Type) where
  conn : Conn
  lastUsed : Int
  owner : ι
  inTransaction : Bool
  inFlight : Bool

/-- The trackers of the pool; beside them the connections that it has closed, the callers that wait
in `get_connection`, and who was given a connection and has not returned it. -/
structure ConnectionPool (ι : Type) where
  available : List Conn
  inUse : Finset Conn
  byId : Finset Conn
  checkedOut : Table (Checkout ι) Checkout.conn
  totalCreated : Int
  fresh : Conn
  closed : List Conn
  waiting : List ι
  held : List (ι × Conn)

/-- A call of a thread. The clock, the threads alive and what `create_conn` does are given. -/
inductive Call (ι : Type) where
  | getConnection (now : Int) (alive : ι → Bool) (creates : Bool)
  /-- The wait of `get_connection` ends, by a notification or by the timeout. -/
  | woken (now : Int) (expired creates : Bool)
  | touch (conn : Conn) (now : Int) (inTransaction : Bool)
  | markInFlight (conn : Conn) (inFlight : Bool)
  | returnConnection (conn : Conn) (forceClose : Bool)
  | reapIdle (now : Int) (alive : ι → Bool) (maxIdleSeconds : Option Int)

/-- `__init__`, with `min_size` connections. -/
def ConnectionPool.init (ι : Type) (cfg : Config) : ConnectionPool ι where
  available := List.range cfg.minSize
  inUse := ∅
  byId := ∅
  checkedOut := .empty
  totalCreated := cfg.minSize
  fresh := cfg.minSize
  closed := []
  waiting := []
  held := []

/-- What `_reap_idle_unlocked` reclaims. -/
def Checkout.idle {ι : Type} [DecidableEq ι] (r : Checkout ι) (me : ι) (now threshold : Int)
    (alive : ι → Bool) : Bool :=
  !r.inFlight && r.owner ≠ me && !decide (now - r.lastUsed < threshold) &&
    !(r.inTransaction && alive r.owner &&
      decide (now - r.lastUsed < inTransactionAliveGraceSeconds))

namespace ConnectionPool

variable {ι : Type} (p : ConnectionPool ι) (cfg : Config)

def close (c : Conn) : ConnectionPool ι :=
  { p with closed := c :: p.closed, totalCreated := p.totalCreated - 1 }

def untrack (c : Conn) : ConnectionPool ι :=
  { p with
    inUse := p.inUse.erase c
    byId := p.byId.erase c
    checkedOut := p.checkedOut.delete fun r => r.conn = c }

def reclaim (c : Conn) : ConnectionPool ι :=
  if c ∈ p.byId then (p.untrack c).close c
  else { p with checkedOut := p.checkedOut.delete fun r => r.conn = c }

/-- `touch` and `mark_in_flight`. -/
def refresh (c : Conn) (f : Checkout ι → Checkout ι) (same : ∀ r, (f r).conn = r.conn) :
    ConnectionPool ι :=
  { p with checkedOut := p.checkedOut.update (fun r => r.conn = c) f same }

def returnConnection (c : Conn) (forceClose : Bool) : ConnectionPool ι :=
  let q := p.untrack c
  if c ∉ p.inUse then q
  else if forceClose then q.close c
  else if q.available.length < cfg.maxSize then { q with available := q.available ++ [c] }
  else q.close c

def exhausted : Bool := p.available.isEmpty && decide ((cfg.maxSize : Int) ≤ p.totalCreated)

variable [DecidableEq ι]

def reapIdle (me : ι) (now threshold : Int) (alive : ι → Bool) : ConnectionPool ι :=
  p.checkedOut.rows.foldl
    (fun p r => if r.idle me now threshold alive then p.reclaim r.conn else p) p

/-- `_in_use`, `_by_id` and `_checked_out` for a connection handed out. -/
def track (me : ι) (now : Int) (c : Conn) : ConnectionPool ι :=
  let row : Checkout ι := ⟨c, now, me, false, false⟩
  { p with
    inUse := insert c p.inUse
    byId := insert c p.byId
    checkedOut := p.checkedOut.upsert row (fun r => { row with conn := r.conn }) fun _ => rfl
    held := (me, c) :: p.held }

/-- The pool is not exhausted. `create_conn` may raise. -/
def take (me : ι) (now : Int) (creates : Bool) : ConnectionPool ι :=
  match p.available.getLast? with
  | some c => { p with available := p.available.dropLast }.track me now c
  | none =>
    if creates then
      { p with totalCreated := p.totalCreated + 1, fresh := p.fresh + 1 }.track me now p.fresh
    else p

def getConnection (me : ι) (now : Int) (alive : ι → Bool) (creates : Bool) : ConnectionPool ι :=
  let p := if p.exhausted cfg then p.reapIdle me now cfg.idleReclaimSeconds alive else p
  if p.exhausted cfg then { p with waiting := me :: p.waiting } else p.take me now creates

/-- A thread returns what it was given; only `Database.reap_connections` returns what others have,
and that by force. -/
def step (p : ConnectionPool ι) : ι × Call ι → Option (ConnectionPool ι)
  | (me, .getConnection now alive creates) => some (p.getConnection cfg me now alive creates)
  | (me, .woken now expired creates) =>
    if me ∈ p.waiting then
      if p.exhausted cfg then
        some (if expired then { p with waiting := p.waiting.erase me } else p)
      else some ({ p with waiting := p.waiting.erase me }.take me now creates)
    else none
  | (_, .touch c now inTransaction) =>
    some (p.refresh c (fun r => { r with lastUsed := now, inTransaction }) fun _ => rfl)
  | (_, .markInFlight c inFlight) => some (p.refresh c (fun r => { r with inFlight }) fun _ => rfl)
  | (me, .returnConnection c forceClose) =>
    if (me, c) ∈ p.held ∨ forceClose then
      some { p.returnConnection cfg c forceClose with held := p.held.erase (me, c) }
    else none
  | (me, .reapIdle now alive maxIdleSeconds) =>
    some (p.reapIdle me now (maxIdleSeconds.getD cfg.idleReclaimSeconds) alive)

end ConnectionPool

structure Consistent {ι : Type} (cfg : Config) (p : ConnectionPool ι) : Prop where
  counted : (p.available.length : Int) + p.inUse.card = p.totalCreated
  bounded : p.totalCreated ≤ cfg.maxSize
  tracked : ∀ c, (c ∈ p.inUse ↔ c ∈ p.byId) ∧ (c ∈ p.inUse ↔ ∃ r ∈ p.checkedOut, r.conn = c)
  once : p.available.Nodup
  apart : ∀ c ∈ p.available, c ∉ p.inUse
  served : ∀ c ∈ p.available, c ∉ p.closed
  /-- No two threads have a connection that serves, and none that is available. -/
  owned : ∀ i c, (i, c) ∈ p.held → c ∉ p.closed →
    c ∉ p.available ∧ ∀ j, (j, c) ∈ p.held → i = j

/-- A connection closed by a step is closed for being idle, or at the request of its caller. -/
def ClosesIdle {ι : Type} (cfg : Config) (p : ConnectionPool ι) (a : ι × Call ι)
    (c : Conn) : Prop :=
  match a.2 with
  | .getConnection now _ _ => ∃ r ∈ p.checkedOut, r.conn = c ∧ r.inFlight = false ∧
      cfg.idleReclaimSeconds ≤ now - r.lastUsed
  | .reapIdle now _ maxIdleSeconds => ∃ r ∈ p.checkedOut, r.conn = c ∧ r.inFlight = false ∧
      maxIdleSeconds.getD cfg.idleReclaimSeconds ≤ now - r.lastUsed
  | _ => False

section Invariant

variable {ι : Type} {cfg : Config} {p : ConnectionPool ι} {c : Conn}

/-- Beside what `Consistent` says: what is closed is not tracked, who has a connection is its
recorded owner, and new identities are new. -/
structure Inv (cfg : Config) (p : ConnectionPool ι) : Prop where
  consistent : Consistent cfg p
  gone : ∀ c ∈ p.closed, c ∉ p.inUse
  holder : ∀ i c, (i, c) ∈ p.held → c ∉ p.closed →
    ∃ r ∈ p.checkedOut, r.conn = c ∧ r.owner = i
  single : p.held.Nodup
  unseen : ∀ c, p.fresh ≤ c → c ∉ p.available ∧ c ∉ p.inUse ∧ c ∉ p.closed ∧ ∀ i, (i, c) ∉ p.held

theorem Inv.init (ι : Type) (sized : cfg.minSize ≤ cfg.maxSize) :
    Inv cfg (ConnectionPool.init ι cfg) where
  consistent :=
    { counted := by simp [ConnectionPool.init]
      bounded := by simpa [ConnectionPool.init] using sized
      tracked := by
        intro c
        refine ⟨Iff.rfl, iff_of_false (Finset.notMem_empty c) ?_⟩
        rintro ⟨r, member, -⟩
        cases member
      once := List.nodup_range
      apart := fun c _ => Finset.notMem_empty c
      served := fun c _ => List.not_mem_nil
      owned := nofun }
  gone := nofun
  holder := nofun
  single := List.nodup_nil
  unseen := by
    intro c late
    refine ⟨?_, Finset.notMem_empty c, List.not_mem_nil, fun _ => List.not_mem_nil⟩
    simpa [ConnectionPool.init] using late

theorem Inv.untrack_of_untracked (h : Inv cfg p) (out : c ∉ p.inUse) : p.untrack c = p := by
  obtain ⟨ids, rows⟩ := h.consistent.tracked c
  have kept : (p.checkedOut.delete fun r => r.conn = c) = p.checkedOut := by
    refine Table.delete_of_none fun r member => ?_
    have other : r.conn ≠ c := fun same => out (rows.mpr ⟨r, member, same⟩)
    simp [other]
  unfold ConnectionPool.untrack
  rw [kept, Finset.erase_eq_of_notMem out, Finset.erase_eq_of_notMem (ids.not.mp out)]

theorem mem_untrack_inUse {d : Conn} : d ∈ (p.untrack c).inUse ↔ d ≠ c ∧ d ∈ p.inUse :=
  Finset.mem_erase

theorem mem_untrack_checkedOut {r : Checkout ι} :
    r ∈ (p.untrack c).checkedOut ↔ r ∈ p.checkedOut ∧ r.conn ≠ c := by
  simp [ConnectionPool.untrack, Table.mem_delete]

theorem tracked_untrack (h : Inv cfg p) (d : Conn) :
    (d ∈ (p.untrack c).inUse ↔ d ∈ (p.untrack c).byId) ∧
      (d ∈ (p.untrack c).inUse ↔ ∃ r ∈ (p.untrack c).checkedOut, r.conn = d) := by
  obtain ⟨ids, rows⟩ := h.consistent.tracked d
  refine ⟨?_, ?_⟩
  · simp only [ConnectionPool.untrack, Finset.mem_erase, ids]
  · simp only [mem_untrack_inUse, mem_untrack_checkedOut, rows]
    constructor
    · rintro ⟨other, r, member, rfl⟩
      exact ⟨r, ⟨member, other⟩, rfl⟩
    · rintro ⟨r, ⟨member, other⟩, rfl⟩
      exact ⟨other, r, member, rfl⟩

theorem card_untrack (here : c ∈ p.inUse) : (p.untrack c).inUse.card + 1 = p.inUse.card :=
  Finset.card_erase_add_one here

theorem Inv.closed (h : Inv cfg p) (here : c ∈ p.inUse) : Inv cfg ((p.untrack c).close c) where
  consistent :=
    { counted := by
        have card := card_untrack here
        have counted := h.consistent.counted
        show (p.available.length : Int) + (p.untrack c).inUse.card = p.totalCreated - 1
        omega
      bounded := by
        have bounded := h.consistent.bounded
        show p.totalCreated - 1 ≤ cfg.maxSize
        omega
      tracked := tracked_untrack h
      once := h.consistent.once
      apart := fun d member inside => h.consistent.apart d member (mem_untrack_inUse.mp inside).2
      served := by
        intro d member
        have other : d ≠ c := fun same => h.consistent.apart d member (same ▸ here)
        simpa [ConnectionPool.close, ConnectionPool.untrack, other] using h.consistent.served d member
      owned := by
        intro i d had open_
        exact h.consistent.owned i d had fun shut => open_ (List.mem_cons_of_mem _ shut) }
  gone := by
    intro d shut inside
    obtain ⟨other, inside⟩ := mem_untrack_inUse.mp inside
    rcases List.mem_cons.mp shut with same | shut
    · exact other same
    · exact h.gone d shut inside
  holder := by
    intro i d had open_
    obtain ⟨r, member, rfl, owner⟩ := h.holder i d had fun shut => open_ (List.mem_cons_of_mem _ shut)
    have other : r.conn ≠ c := fun same => open_ (same ▸ List.mem_cons_self)
    exact ⟨r, mem_untrack_checkedOut.mpr ⟨member, other⟩, rfl, owner⟩
  single := h.single
  unseen := by
    intro d late
    obtain ⟨idle, out, open_, unheld⟩ := h.unseen d late
    have other : d ≠ c := fun same => out (same ▸ here)
    refine ⟨idle, fun inside => out (mem_untrack_inUse.mp inside).2, ?_, unheld⟩
    simpa [ConnectionPool.close, ConnectionPool.untrack, other] using open_

variable {i : ι}

theorem Inv.room (h : Inv cfg p) (here : c ∈ p.inUse) : p.available.length < cfg.maxSize := by
  have counted := h.consistent.counted
  have bounded := h.consistent.bounded
  have some_out := Finset.card_pos.mpr ⟨c, here⟩
  omega

theorem Inv.track (h : Inv cfg p) {idle : List Conn} {total : Int} {fresh : Conn} {now : Int}
    (less : ∀ d ∈ idle, d ∈ p.available) (once : idle.Nodup) (apart : c ∉ idle)
    (out : c ∉ p.inUse) (open_ : c ∉ p.closed) (unheld : ∀ j, (j, c) ∉ p.held)
    (later : p.fresh ≤ fresh) (known : c < fresh)
    (counted : (idle.length : Int) + p.inUse.card + 1 = total) (bounded : total ≤ cfg.maxSize) :
    Inv cfg ({ p with available := idle, totalCreated := total, fresh }.track i now c) := by
  have free : p.checkedOut.find c = none := by
    refine Table.find_eq_none.mpr fun r member same => ?_
    exact out ((h.consistent.tracked c).2.mpr ⟨r, member, same⟩)
  have rows : ∀ r, r ∈ ({ p with available := idle, totalCreated := total, fresh }.track i now c).checkedOut ↔
      r ∈ p.checkedOut ∨ r = ⟨c, now, i, false, false⟩ := fun r => Table.mem_upsert_of_fresh free
  refine ⟨⟨?_, bounded, ?_, once, ?_, fun d member => h.consistent.served d (less d member), ?_⟩,
    ?_, ?_, ?_, ?_⟩
  · show (idle.length : Int) + (insert c p.inUse).card = total
    rw [Finset.card_insert_of_notMem out]
    omega
  · intro d
    obtain ⟨ids, old⟩ := h.consistent.tracked d
    refine ⟨?_, ?_⟩
    · show d ∈ insert c p.inUse ↔ d ∈ insert c p.byId
      rw [Finset.mem_insert, Finset.mem_insert, ids]
    · show d ∈ insert c p.inUse ↔ _
      simp only [rows, Finset.mem_insert, old]
      constructor
      · rintro (rfl | ⟨r, member, same⟩)
        · exact ⟨_, .inr rfl, rfl⟩
        · exact ⟨r, .inl member, same⟩
      · rintro ⟨r, member | rfl, same⟩
        · exact .inr ⟨r, member, same⟩
        · exact .inl same.symm
  · intro d member inside
    rcases Finset.mem_insert.mp inside with rfl | inside
    · exact apart member
    · exact h.consistent.apart d (less d member) inside
  · intro j d had shut
    rcases List.mem_cons.mp had with same | had
    · obtain ⟨rfl, rfl⟩ := Prod.mk.inj same
      refine ⟨apart, fun k also => ?_⟩
      rcases List.mem_cons.mp also with same | also
      · exact (Prod.mk.inj same).1.symm
      · exact absurd also (unheld k)
    · obtain ⟨taken, single⟩ := h.consistent.owned j d had shut
      refine ⟨fun member => taken (less d member), fun k also => ?_⟩
      rcases List.mem_cons.mp also with same | also
      · rw [(Prod.mk.inj same).2] at had
        exact absurd had (unheld j)
      · exact single k also
  · intro d shut inside
    rcases Finset.mem_insert.mp inside with rfl | inside
    · exact open_ shut
    · exact h.gone d shut inside
  · intro j d had shut
    rcases List.mem_cons.mp had with same | had
    · obtain ⟨rfl, rfl⟩ := Prod.mk.inj same
      exact ⟨_, (rows _).mpr (.inr rfl), rfl, rfl⟩
    · obtain ⟨r, member, same, owner⟩ := h.holder j d had shut
      exact ⟨r, (rows r).mpr (.inl member), same, owner⟩
  · exact List.nodup_cons.mpr ⟨unheld i, h.single⟩
  · intro d late
    obtain ⟨idle', out', shut, unheld'⟩ := h.unseen d (Nat.le_trans later late)
    have other : d ≠ c := fun same => absurd known (Nat.not_lt_of_le (same ▸ late))
    refine ⟨fun member => idle' (less d member), ?_, shut, ?_⟩
    · intro inside
      rcases Finset.mem_insert.mp inside with same | inside
      · exact other same
      · exact out' inside
    · intro j had
      rcases List.mem_cons.mp had with same | had
      · exact other (Prod.mk.inj same).2
      · exact unheld' j had

variable [DecidableEq ι]

theorem Inv.dropped (h : Inv cfg p) (x : ι × Conn) :
    Inv cfg { p with held := p.held.erase x } where
  consistent :=
    { counted := h.consistent.counted
      bounded := h.consistent.bounded
      tracked := h.consistent.tracked
      once := h.consistent.once
      apart := h.consistent.apart
      served := h.consistent.served
      owned := by
        intro i d had open_
        obtain ⟨taken, single⟩ := h.consistent.owned i d (List.mem_of_mem_erase had) open_
        exact ⟨taken, fun j also => single j (List.mem_of_mem_erase also)⟩ }
  gone := h.gone
  holder := fun i d had => h.holder i d (List.mem_of_mem_erase had)
  single := h.single.erase x
  unseen := by
    intro d late
    obtain ⟨idle, out, open_, unheld⟩ := h.unseen d late
    exact ⟨idle, out, open_, fun i had => unheld i (List.mem_of_mem_erase had)⟩

theorem Inv.givenBack (h : Inv cfg p) (here : c ∈ p.inUse) (had : (i, c) ∈ p.held) :
    Inv cfg { p.untrack c with available := p.available ++ [c], held := p.held.erase (i, c) } where
  consistent :=
    { counted := by
        have card := card_untrack here
        have counted := h.consistent.counted
        show ((p.available ++ [c]).length : Int) + (p.untrack c).inUse.card = p.totalCreated
        rw [List.length_append, List.length_singleton]
        omega
      bounded := h.consistent.bounded
      tracked := tracked_untrack h
      once := by
        refine List.nodup_append'.mpr ⟨h.consistent.once, List.nodup_singleton c, ?_⟩
        intro d idle same
        rw [List.mem_singleton.mp same] at idle
        exact h.consistent.apart c idle here
      apart := by
        intro d member inside
        obtain ⟨other, inside⟩ := mem_untrack_inUse.mp inside
        rcases List.mem_append.mp member with idle | same
        · exact h.consistent.apart d idle inside
        · exact other (List.mem_singleton.mp same)
      served := by
        intro d member shut
        rcases List.mem_append.mp member with idle | same
        · exact h.consistent.served d idle shut
        · rw [List.mem_singleton.mp same] at shut
          exact h.gone c shut here
      owned := by
        intro j d also open_
        obtain ⟨taken, single⟩ := h.consistent.owned j d (List.mem_of_mem_erase also) open_
        refine ⟨?_, fun k more => single k (List.mem_of_mem_erase more)⟩
        intro member
        rcases List.mem_append.mp member with idle | same
        · exact taken idle
        · -- the only holder of `c` was `i`
          obtain rfl := List.mem_singleton.mp same
          rw [single i had] at also
          exact h.single.not_mem_erase also }
  gone := fun d shut inside => h.gone d shut (mem_untrack_inUse.mp inside).2
  holder := by
    intro j d also open_
    obtain ⟨r, member, rfl, owner⟩ := h.holder j d (List.mem_of_mem_erase also) open_
    refine ⟨r, mem_untrack_checkedOut.mpr ⟨member, ?_⟩, rfl, owner⟩
    rintro rfl
    obtain ⟨-, single⟩ := h.consistent.owned j _ (List.mem_of_mem_erase also) open_
    rw [single i had] at also
    exact h.single.not_mem_erase also
  single := h.single.erase _
  unseen := by
    intro d late
    obtain ⟨idle, out, open_, unheld⟩ := h.unseen d late
    refine ⟨?_, fun inside => out (mem_untrack_inUse.mp inside).2, open_,
      fun j also => unheld j (List.mem_of_mem_erase also)⟩
    intro member
    rcases List.mem_append.mp member with more | same
    · exact idle more
    · rw [List.mem_singleton.mp same] at out
      exact out here

theorem Inv.returned (h : Inv cfg p) {forceClose : Bool}
    (may : (i, c) ∈ p.held ∨ forceClose = true) :
    Inv cfg { p.returnConnection cfg c forceClose with held := p.held.erase (i, c) } := by
  unfold ConnectionPool.returnConnection
  by_cases here : c ∈ p.inUse
  · simp only [here, not_true, if_false]
    cases forceClose with
    | true => exact (h.closed here).dropped (i, c)
    | false =>
      have room : (p.untrack c).available.length < cfg.maxSize := h.room here
      simp only [Bool.false_eq_true, if_false, room, if_true]
      exact h.givenBack here (may.resolve_right Bool.false_ne_true)
  · simp only [here, not_false_eq_true, if_true]
    rw [h.untrack_of_untracked here]
    exact h.dropped (i, c)

omit [DecidableEq ι] in
theorem Inv.take (h : Inv cfg p) (sized : p.exhausted cfg = false) (now : Int) (creates : Bool) :
    Inv cfg (p.take i now creates) := by
  unfold ConnectionPool.take
  cases last : p.available.getLast? with
  | some c =>
    obtain ⟨rest, split⟩ := List.getLast?_eq_some_iff.mp last
    have once := h.consistent.once
    have counted := h.consistent.counted
    have member : c ∈ p.available := by simp [split]
    rw [split] at once counted
    obtain ⟨alone, -, apart⟩ := List.nodup_append'.mp once
    rw [List.length_append, List.length_singleton] at counted
    have known : c < p.fresh := by
      by_contra late
      exact (h.unseen c (Nat.le_of_not_lt late)).1 member
    have open_ := h.consistent.served c member
    simp only [split, List.dropLast_concat]
    exact h.track (fun d old => by simp [split, old]) alone
      (fun old => apart old (List.mem_singleton_self c)) (h.consistent.apart c member) open_
      (fun j had => (h.consistent.owned j c had open_).1 member) (Nat.le_refl _) known
      (by omega) h.consistent.bounded
  | none =>
    have empty := List.getLast?_eq_none_iff.mp last
    cases creates with
    | false => exact h
    | true =>
      obtain ⟨-, out, open_, unheld⟩ := h.unseen p.fresh (Nat.le_refl _)
      have counted := h.consistent.counted
      have below : p.totalCreated < cfg.maxSize := by
        simpa [ConnectionPool.exhausted, empty] using sized
      exact h.track (fun d old => old) h.consistent.once (by simp [empty]) out open_ unheld
        (Nat.le_succ _) (Nat.lt_succ_self _) (by omega) (by omega)

omit [DecidableEq ι] in
theorem Inv.reclaim (h : Inv cfg p) (c : Conn) : Inv cfg (p.reclaim c) := by
  unfold ConnectionPool.reclaim
  obtain ⟨ids, rows⟩ := h.consistent.tracked c
  by_cases here : c ∈ p.byId
  · rw [if_pos here]
    exact h.closed (ids.mpr here)
  · rw [if_neg here, Table.delete_of_none]
    · exact h
    · intro r member
      have other : r.conn ≠ c := fun same => here (ids.mp (rows.mpr ⟨r, member, same⟩))
      simp [other]

theorem Inv.reapIdle (h : Inv cfg p) (me : ι) (now threshold : Int) (alive : ι → Bool) :
    Inv cfg (p.reapIdle me now threshold alive) := by
  unfold ConnectionPool.reapIdle
  generalize p.checkedOut.rows = rows
  induction rows generalizing p with
  | nil => exact h
  | cons r rows ih =>
    rw [List.foldl_cons]
    split
    · exact ih (h.reclaim r.conn)
    · exact ih h

omit [DecidableEq ι] in
theorem mem_refresh {f : Checkout ι → Checkout ι} {same : ∀ r, (f r).conn = r.conn}
    {q : Checkout ι} : q ∈ (p.refresh c f same).checkedOut ↔
      ∃ r ∈ p.checkedOut, q = if r.conn = c then f r else r := by
  unfold ConnectionPool.refresh
  simpa using Table.mem_update (t := p.checkedOut) (p := fun r => r.conn = c) (f := f) (q := q)

omit [DecidableEq ι] in
theorem Inv.refresh (h : Inv cfg p) (c : Conn) {f : Checkout ι → Checkout ι}
    (same : ∀ r, (f r).conn = r.conn) (owner : ∀ r, (f r).owner = r.owner) :
    Inv cfg (p.refresh c f same) := by
  have kept : ∀ r ∈ p.checkedOut, ∃ q ∈ (p.refresh c f same).checkedOut,
      q.conn = r.conn ∧ q.owner = r.owner := by
    intro r member
    refine ⟨_, mem_refresh.mpr ⟨r, member, rfl⟩, ?_⟩
    split
    · exact ⟨same r, owner r⟩
    · exact ⟨rfl, rfl⟩
  have old : ∀ q ∈ (p.refresh c f same).checkedOut, ∃ r ∈ p.checkedOut, r.conn = q.conn := by
    intro q member
    obtain ⟨r, there, rfl⟩ := mem_refresh.mp member
    refine ⟨r, there, ?_⟩
    split
    · exact (same r).symm
    · rfl
  have tracked : ∀ d, (d ∈ p.inUse ↔ d ∈ p.byId) ∧
      (d ∈ p.inUse ↔ ∃ r ∈ (p.refresh c f same).checkedOut, r.conn = d) := by
    intro d
    obtain ⟨ids, rows⟩ := h.consistent.tracked d
    refine ⟨ids, rows.trans ⟨?_, ?_⟩⟩
    · rintro ⟨r, member, rfl⟩
      obtain ⟨q, there, conn, -⟩ := kept r member
      exact ⟨q, there, conn⟩
    · rintro ⟨q, there, rfl⟩
      exact old q there
  refine ⟨⟨h.consistent.counted, h.consistent.bounded, tracked, h.consistent.once,
    h.consistent.apart, h.consistent.served, h.consistent.owned⟩, h.gone, ?_, h.single, h.unseen⟩
  intro i d had open_
  obtain ⟨r, member, conn, who⟩ := h.holder i d had open_
  obtain ⟨q, there, conn', who'⟩ := kept r member
  exact ⟨q, there, conn'.trans conn, who'.trans who⟩

omit [DecidableEq ι] in
theorem Inv.waits (h : Inv cfg p) (waiting : List ι) : Inv cfg { p with waiting } :=
  ⟨⟨h.consistent.counted, h.consistent.bounded, h.consistent.tracked, h.consistent.once,
    h.consistent.apart, h.consistent.served, h.consistent.owned⟩, h.gone, h.holder, h.single, h.unseen⟩

theorem Inv.step {a : ι × Call ι} {p' : ConnectionPool ι} (h : Inv cfg p)
    (moved : p.step cfg a = some p') : Inv cfg p' := by
  obtain ⟨me, call⟩ := a
  cases call with
  | getConnection now alive creates =>
    obtain rfl := Option.some.inj moved
    have reaped : Inv cfg (if p.exhausted cfg then p.reapIdle me now cfg.idleReclaimSeconds alive
        else p) := by
      split
      · exact h.reapIdle me now _ alive
      · exact h
    unfold ConnectionPool.getConnection
    generalize (if p.exhausted cfg then p.reapIdle me now cfg.idleReclaimSeconds alive else p) = q
      at reaped ⊢
    simp only
    split
    · exact reaped.waits _
    · rename_i room
      exact reaped.take (by simpa using room) now creates
  | woken now expired creates =>
    simp only [ConnectionPool.step] at moved
    split at moved
    · split at moved
      · obtain rfl := Option.some.inj moved
        split
        · exact h.waits _
        · exact h
      · rename_i room
        obtain rfl := Option.some.inj moved
        have same : ({ p with waiting := p.waiting.erase me } : ConnectionPool ι).exhausted cfg =
            p.exhausted cfg := rfl
        exact (h.waits _).take (by rw [same]; simpa using room) now creates
    · cases moved
  | touch c now inTransaction =>
    obtain rfl := Option.some.inj moved
    apply h.refresh c
    exact fun _ => rfl
  | markInFlight c inFlight =>
    obtain rfl := Option.some.inj moved
    apply h.refresh c
    exact fun _ => rfl
  | returnConnection c forceClose =>
    simp only [ConnectionPool.step] at moved
    split at moved
    · rename_i may
      obtain rfl := Option.some.inj moved
      exact h.returned may
    · cases moved
  | reapIdle now alive maxIdleSeconds =>
    obtain rfl := Option.some.inj moved
    exact h.reapIdle me now _ alive

theorem closed_of_reapIdle {me : ι} {now threshold : Int} {alive : ι → Bool}
    (shut : c ∈ (p.reapIdle me now threshold alive).closed) (open_ : c ∉ p.closed) :
    ∃ r ∈ p.checkedOut, r.conn = c ∧ r.inFlight = false ∧ threshold ≤ now - r.lastUsed := by
  have general : ∀ (rows : List (Checkout ι)) (q : ConnectionPool ι),
      c ∈ (rows.foldl (fun p r => if r.idle me now threshold alive then p.reclaim r.conn else p)
        q).closed → c ∈ q.closed ∨ ∃ r ∈ rows, r.conn = c ∧ r.idle me now threshold alive = true := by
    intro rows
    induction rows with
    | nil => exact fun q shut => .inl shut
    | cons r rows ih =>
      intro q shut
      rw [List.foldl_cons] at shut
      rcases ih _ shut with shut | ⟨s, member, found⟩
      · by_cases idle : r.idle me now threshold alive = true
        · rw [if_pos idle, ConnectionPool.reclaim] at shut
          split at shut
          · rcases List.mem_cons.mp shut with same | shut
            · exact .inr ⟨r, List.mem_cons_self, same.symm, idle⟩
            · exact .inl shut
          · exact .inl shut
        · rw [if_neg idle] at shut
          exact .inl shut
      · exact .inr ⟨s, List.mem_cons_of_mem _ member, found⟩
  obtain ⟨r, member, same, idle⟩ := (general _ _ shut).resolve_left open_
  simp only [Checkout.idle, Bool.and_eq_true, Bool.not_eq_true', decide_eq_false_iff_not,
    Int.not_lt] at idle
  exact ⟨r, member, same, idle.1.1.1, idle.1.2⟩

omit [DecidableEq ι] in
@[simp] theorem closed_take (p : ConnectionPool ι) (me : ι) (now : Int) (creates : Bool) :
    (p.take me now creates).closed = p.closed := by
  unfold ConnectionPool.take
  split
  · rfl
  · split <;> rfl

theorem closed_of_step {a : ι × Call ι} {p' : ConnectionPool ι} (h : Inv cfg p)
    (moved : p.step cfg a = some p') (shut : c ∈ p'.closed) (open_ : c ∉ p.closed) :
    ClosesIdle cfg p a c ∨ ∃ i, a = (i, .returnConnection c true) := by
  obtain ⟨me, call⟩ := a
  cases call with
  | getConnection now alive creates =>
    obtain rfl := Option.some.inj moved
    left
    unfold ConnectionPool.getConnection at shut
    by_cases full : p.exhausted cfg = true
    · simp only [full, if_true] at shut
      have reaped : c ∈ (p.reapIdle me now cfg.idleReclaimSeconds alive).closed := by
        split at shut
        · exact shut
        · rwa [closed_take] at shut
      exact closed_of_reapIdle reaped open_
    · simp only [full, Bool.false_eq_true, if_false, closed_take] at shut
      exact absurd shut open_
  | woken now expired creates =>
    simp only [ConnectionPool.step] at moved
    exfalso
    split at moved
    · split at moved
      · obtain rfl := Option.some.inj moved
        split at shut <;> exact open_ shut
      · obtain rfl := Option.some.inj moved
        rw [closed_take] at shut
        exact open_ shut
    · cases moved
  | touch c now inTransaction =>
    obtain rfl := Option.some.inj moved
    exact absurd shut open_
  | markInFlight c inFlight =>
    obtain rfl := Option.some.inj moved
    exact absurd shut open_
  | returnConnection d forceClose =>
    simp only [ConnectionPool.step] at moved
    split at moved
    · obtain rfl := Option.some.inj moved
      cases forceClose with
      | true =>
        by_cases here : d ∈ p.inUse
        · simp only [ConnectionPool.returnConnection, here, not_true, if_false, if_true] at shut
          rcases List.mem_cons.mp shut with rfl | shut
          · exact .inr ⟨me, rfl⟩
          · exact absurd shut open_
        · simp only [ConnectionPool.returnConnection, here, not_false_eq_true, if_true] at shut
          exact absurd shut open_
      | false =>
        by_cases here : d ∈ p.inUse
        · have room : (p.untrack d).available.length < cfg.maxSize := h.room here
          simp only [ConnectionPool.returnConnection, here, not_true, Bool.false_eq_true, if_false,
            room, if_true] at shut
          exact absurd shut open_
        · simp only [ConnectionPool.returnConnection, here, not_false_eq_true, if_true] at shut
          exact absurd shut open_
    · cases moved
  | reapIdle now alive maxIdleSeconds =>
    obtain rfl := Option.some.inj moved
    exact .inl (closed_of_reapIdle shut open_)

end Invariant

/-- In a pool with room for its minimal size the trackers stay consistent, and only what is idle is
closed without its caller's wish. -/
theorem pool_safe {ι : Type} [DecidableEq ι] (cfg : Config) (sized : cfg.minSize ≤ cfg.maxSize)
    {p : ConnectionPool ι} (reached : Reachable (ConnectionPool.step cfg) (· = .init ι cfg) p) :
    Consistent cfg p ∧ ∀ a p', p.step cfg a = some p' → ∀ c ∈ p'.closed, c ∉ p.closed →
      ClosesIdle cfg p a c ∨ ∃ i, a = (i, .returnConnection c true) := by
  have inv : Inv cfg p := by
    refine guarded_invariant (I := Inv cfg) ?_ ?_ reached
    · rintro p rfl
      exact Inv.init ι sized
    · intro p a p' h _ moved
      exact h.step moved
  exact ⟨inv.consistent, fun a p' moved c shut open_ => closed_of_step inv moved shut open_⟩

section Runs

def small : Config := ⟨1, 2, 5⟩

def abandoned : List (Bool × Call Bool) :=
  [(true, .getConnection 0 (fun _ => true) true), (false, .reapIdle 10 (fun _ => true) none)]

theorem pool_safe_abandoned : ∃ p, run (ConnectionPool.step small) (.init Bool small) abandoned = some p ∧
    p.closed = [0] ∧ Consistent small p :=
  ⟨_, rfl, rfl, (pool_safe small (by decide) (reachable_of_run abandoned rfl rfl)).1⟩

def busy : List (Bool × Call Bool) :=
  [(true, .getConnection 0 (fun _ => true) true), (true, .markInFlight 0 true)]

/-- A minimal size above the maximal one is created all the same, and a connection that is returned
by force is closed in the middle of its statement. -/
theorem pool_breaks : ¬Consistent ⟨3, 2, 5⟩ (.init Bool ⟨3, 2, 5⟩) ∧
    ∃ p p', Reachable (ConnectionPool.step small) (· = .init Bool small) p ∧
      ConnectionPool.step small p (true, .returnConnection 0 true) = some p' ∧ 0 ∉ p.closed ∧
      0 ∈ p'.closed ∧ p.checkedOut.rows = [⟨0, 0, true, false, true⟩] := by
  constructor
  · intro consistent
    exact absurd consistent.bounded (by decide)
  · exact ⟨_, _, reachable_of_run busy rfl rfl, rfl, by decide, by decide, rfl⟩

end Runs

end Plexichat.Database.Pool
