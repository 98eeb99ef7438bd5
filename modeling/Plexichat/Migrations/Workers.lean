import Plexichat.Library.Interleaving
import Plexichat.Migrations.Manager

/-! Workers that apply and roll back migrations of one database side by side. The lock excludes them
from one another, but apply_migration reads the pending list and rollback_migration the status
before they have it. Dry runs, which write nothing, are left out. -/
namespace Plexichat.Migrations.Workers
open Transition

/-- `ups` and `downs` count the runs of up() and down() that completed: up() since the last rollback
that succeeded, down() since the last application that did. -/
structure Shared where
  tables : State
  lock : Bool
  ups : Version → Nat
  downs : Version → Nat

/-- Where a worker is. It has the lock from `batch` on. -/
inductive Phase where
  | idle
  /-- apply_migration has found it pending. -/
  | listed (m : Migration)
  | waiting (m : Migration)
  /-- rollback_migration has read that it is completed. -/
  | checked (v : Version)
  | batch
  | holding (todo : List Migration)
  | started (m : Migration) (todo : List Migration)
  | applied (m : Migration) (todo : List Migration)
  | failing (m : Migration)
  | rolling (v : Version)
  | undone (v : Version)
  | releasing

/-- The next statement. A Boolean says whether it works; where it does not, it raises and changes
nothing. -/
inductive Action where
  | apply (e : Env) (v : Version)
  | validate (e : Env)
  | rollback (e : Env) (v : Version)
  | applyAll
  | acquire
  | timeOut
  | list (e : Env)
  /-- The gate refuses, or the dependencies of the next migration of a batch are not satisfied. -/
  | refuse
  /-- The tampering guard, and the start is recorded. -/
  | start (now : Nat) (works : Bool)
  | up (works : Bool)
  | recordSuccess (works : Bool)
  | recordFailure (works : Bool)
  | down (works : Bool)
  | recordRollback (works : Bool)
  | release

def next (c : Shared) : Phase → Action → Option (Shared × Phase)
  | .idle, .apply e v =>
    match (getPendingMigrations e.python e.dir c.tables).find? fun m => m.version = v with
    | none => some (c, .idle)
    | some m => some (c, .listed m)
  | .listed m, .validate e =>
    match e.validateDependencies m c.tables.getAppliedMigrations with
    | .error _ => some (c, .idle)
    | .ok _ => some (c, .waiting m)
  | .idle, .rollback e v =>
    let completed := (c.tables.getMigrationStatus v).any fun r => r.status = .completed
    if completed && (getMigrationFiles e.dir).any fun p => p.1 = v then some (c, .checked v)
    else some (c, .idle)
  | .waiting m, .acquire => if c.lock then none else some ({ c with lock := true }, .holding [m])
  | .checked v, .acquire => if c.lock then none else some ({ c with lock := true }, .rolling v)
  | .idle, .applyAll => if c.lock then none else some ({ c with lock := true }, .batch)
  | .waiting _, .timeOut => some (c, .idle)
  | .checked _, .timeOut => some (c, .idle)
  | .batch, .list e =>
    let pending := getPendingMigrations e.python e.dir c.tables
    if Env.validateMigrationOrder (pending.map Migration.version) c.tables.getAppliedMigrations then
      some (c, .holding pending)
    else some (c, .releasing)
  | .holding (_ :: _), .refuse => some (c, .releasing)
  | .holding (m :: todo), .start now true =>
    some ({ c with tables := c.tables.recordMigrationStart now m }, .started m todo)
  | .holding (m :: _), .start _ false => some (c, .failing m)
  | .started m todo, .up true =>
    some ({ c with ups := Function.update c.ups m.version (c.ups m.version + 1) }, .applied m todo)
  | .started m _, .up false => some (c, .failing m)
  | .applied m todo, .recordSuccess true =>
    let tables := c.tables.recordMigrationSuccess m.version
    some ({ c with tables, downs := Function.update c.downs m.version 0 }, .holding todo)
  | .applied m _, .recordSuccess false => some (c, .failing m)
  | .failing m, .recordFailure true =>
    some ({ c with tables := c.tables.recordMigrationFailure m.version }, .releasing)
  | .failing _, .recordFailure false => some (c, .releasing)
  | .rolling v, .down true =>
    some ({ c with downs := Function.update c.downs v (c.downs v + 1) }, .undone v)
  | .rolling _, .down false => some (c, .releasing)
  | .undone v, .recordRollback true =>
    let tables := c.tables.recordRollback v
    some ({ c with tables, ups := Function.update c.ups v 0 }, .releasing)
  | .undone _, .recordRollback false => some (c, .releasing)
  | .holding [], .release => some ({ c with lock := false }, .idle)
  | .releasing, .release => some ({ c with lock := false }, .idle)
  | _, _ => none

variable {ι : Type} [DecidableEq ι]

abbrev System (ι : Type) := Interleaving.State ι Shared Phase

structure Initial (s : System ι) : Prop where
  lock : s.shared.lock = false
  ups : ∀ v, s.shared.ups v = 0
  downs : ∀ v, s.shared.downs v = 0
  idle : ∀ i, s.pc i = .idle

/-- The version that has waited for the lock is still to be applied, or still to be rolled back.
Each file of the directory has a version of its own. After up() and down() the record is written. -/
def Meets (c : Shared) : Phase → Action → Prop
  | .waiting m, .acquire => ¬Completed c.tables m.version
  | .checked v, .acquire => Completed c.tables v
  | _, .list e => Distinct e.dir
  | _, .recordSuccess works => works
  | _, .recordRollback works => works
  | _, _ => True

def Guard (s : System ι) (a : ι × Action) : Prop := Meets s.shared (s.pc a.1) a.2

section AtMostOnce

/-- What is not completed has not been applied since its rollback, and what is completed has not
been rolled back since its application. -/
def Quiet (c : Shared) (v : Version) : Prop :=
  (¬Completed c.tables v → c.ups v = 0) ∧ (Completed c.tables v → c.downs v = 0)

structure Once (c : Shared) : Prop where
  ups : ∀ v, c.ups v ≤ 1
  downs : ∀ v, c.downs v ≤ 1
  quiet : c.lock = false → ∀ v, Quiet c v

def Todo (c : Shared) (todo : List Migration) : Prop :=
  (∀ m ∈ todo, ¬Completed c.tables m.version) ∧ (todo.map Migration.version).Nodup

def Recorded (c : Shared) (v : Version) : Prop := (c.tables.history.find v).isSome

def Phase.holds : Phase → Bool
  | .idle | .listed _ | .waiting _ | .checked _ => false
  | _ => true

def Own (c : Shared) : Phase → Prop
  | .holding todo => (∀ v, Quiet c v) ∧ Todo c todo
  | .started m todo => (∀ v, Quiet c v) ∧ Todo c (m :: todo) ∧ Recorded c m.version
  | .applied m todo => (∀ v, v ≠ m.version → Quiet c v) ∧ Todo c (m :: todo) ∧
      Recorded c m.version
  | .failing m => (∀ v, Quiet c v) ∧ ¬Completed c.tables m.version
  | .rolling v => (∀ v, Quiet c v) ∧ Completed c.tables v
  | .undone v => ∀ u, u ≠ v → Quiet c u
  | _ => ∀ v, Quiet c v

def Placed (c : Shared) (p : Phase) : Prop := p.holds → c.lock = true ∧ Own c p

variable {c : Shared} {p : Phase} {a : Action} {r : Shared × Phase} {m : Migration} {v : Version}
  {todo : List Migration}

theorem Quiet.congr {d : Shared} (quiet : Quiet c v)
    (tables : Completed d.tables v ↔ Completed c.tables v) (ups : d.ups v = c.ups v)
    (downs : d.downs v = c.downs v) : Quiet d v := by
  unfold Quiet
  rw [tables, ups, downs]
  exact quiet

theorem completed_start {s : State} {now : Nat} {u : Version} (fresh : ¬Completed s m.version) :
    Completed (s.recordMigrationStart now m) u ↔ Completed s u := by
  rw [completed_recordMigrationStart]
  apply and_iff_right_of_imp
  intro done same
  exact fresh (same ▸ done)

theorem completed_failure {s : State} {u : Version} (fresh : ¬Completed s v) :
    Completed (s.recordMigrationFailure v) u ↔ Completed s u := by
  rw [State.recordMigrationFailure, completed_setStatus]
  by_cases same : u = v
  · simp [same, fresh]
  · simp [same]

theorem completed_success {s : State} {u : Version} (recorded : (s.history.find v).isSome) :
    Completed (s.recordMigrationSuccess v) u ↔ u = v ∨ Completed s u := by
  rw [State.recordMigrationSuccess, completed_setStatus]
  by_cases same : u = v <;> simp [same, recorded]

theorem Todo.congr {d : Shared} (fresh : Todo c todo)
    (tables : ∀ u, Completed d.tables u → Completed c.tables u) : Todo d todo :=
  ⟨fun m member done => fresh.1 m member (tables _ done), fresh.2⟩

theorem Once.update {d : Shared} (held : d.lock = true) (ups : ∀ v, d.ups v ≤ 1)
    (downs : ∀ v, d.downs v ≤ 1) : Once d :=
  ⟨ups, downs, fun free => absurd (held.symm.trans free) (by decide)⟩

theorem update_le_one {f : Version → Nat} {n : Nat} (each : ∀ v, f v ≤ 1) (new : n ≤ 1)
    (u : Version) : Function.update f v n u ≤ 1 := by
  by_cases same : u = v
  · rw [same, Function.update_self]
    exact new
  · rw [Function.update_of_ne same]
    exact each u

theorem start_keeps (once : Once c) (held : c.lock = true) (own : Own c (.holding (m :: todo)))
    {now : Nat} {d : Shared} (started : d = { c with tables := c.tables.recordMigrationStart now m }) :
    Once d ∧ Placed d (.started m todo) := by
  subst started
  obtain ⟨quiet, fresh⟩ := own
  have same : ∀ u, Completed (c.tables.recordMigrationStart now m) u ↔ Completed c.tables u :=
    fun u => completed_start (fresh.1 m List.mem_cons_self)
  refine ⟨.update held once.ups once.downs, fun _ => ⟨held, ?_, ?_, ?_⟩⟩
  · exact fun v => (quiet v).congr (same v) rfl rfl
  · exact fresh.congr fun u => (same u).mp
  · simp [Recorded, State.recordMigrationStart, Table.find_upsert]

theorem up_keeps (once : Once c) (held : c.lock = true) (own : Own c (.started m todo))
    {d : Shared}
    (done : d = { c with ups := Function.update c.ups m.version (c.ups m.version + 1) }) :
    Once d ∧ Placed d (.applied m todo) := by
  subst done
  obtain ⟨quiet, fresh, recorded⟩ := own
  have none : c.ups m.version = 0 := (quiet m.version).1 (fresh.1 m List.mem_cons_self)
  have others : ∀ v, v ≠ m.version →
      Function.update c.ups m.version (c.ups m.version + 1) v = c.ups v :=
    fun v other => Function.update_of_ne other _ _
  refine ⟨.update held ?_ once.downs, fun _ => ⟨held, ?_, fresh, recorded⟩⟩
  · exact update_le_one once.ups (by rw [none])
  · exact fun v other => (quiet v).congr Iff.rfl (others v other) rfl

theorem success_keeps (once : Once c) (held : c.lock = true) (own : Own c (.applied m todo))
    {d : Shared} (recorded : d = { c with
      tables := c.tables.recordMigrationSuccess m.version
      downs := Function.update c.downs m.version 0 }) :
    Once d ∧ Placed d (.holding todo) := by
  subst recorded
  obtain ⟨quiet, fresh, there⟩ := own
  have now_done : ∀ u, Completed (c.tables.recordMigrationSuccess m.version) u ↔
      u = m.version ∨ Completed c.tables u := fun u => completed_success there
  have others : ∀ v, v ≠ m.version → Function.update c.downs m.version 0 v = c.downs v :=
    fun v other => Function.update_of_ne other _ _
  refine ⟨.update held once.ups ?_, fun _ => ⟨held, ?_, ?_, ?_⟩⟩
  · exact update_le_one once.downs (by decide)
  · intro v
    by_cases own : v = m.version
    · subst own
      exact ⟨fun open_still => absurd ((now_done _).mpr (.inl rfl)) open_still, fun _ => by simp⟩
    · exact (quiet v own).congr ((now_done v).trans (or_iff_right own)) rfl (others v own)
  · intro m' member done
    have apart : m'.version ≠ m.version := by
      intro same
      exact (List.nodup_cons.mp fresh.2).1 (same ▸ List.mem_map_of_mem member)
    exact fresh.1 m' (List.mem_cons_of_mem m member)
      (((now_done _).mp done).resolve_left apart)
  · exact (List.nodup_cons.mp fresh.2).2

theorem failure_keeps (once : Once c) (held : c.lock = true) (own : Own c (.failing m))
    {d : Shared} (recorded : d = { c with tables := c.tables.recordMigrationFailure m.version }) :
    Once d ∧ Placed d .releasing := by
  subst recorded
  obtain ⟨quiet, fresh⟩ := own
  refine ⟨.update held once.ups once.downs, fun _ => ⟨held, ?_⟩⟩
  exact fun v => (quiet v).congr (completed_failure fresh) rfl rfl

theorem down_keeps (once : Once c) (held : c.lock = true) (own : Own c (.rolling v))
    {d : Shared} (done : d = { c with downs := Function.update c.downs v (c.downs v + 1) }) :
    Once d ∧ Placed d (.undone v) := by
  subst done
  obtain ⟨quiet, completed⟩ := own
  have none : c.downs v = 0 := (quiet v).2 completed
  have others : ∀ u, u ≠ v → Function.update c.downs v (c.downs v + 1) u = c.downs u :=
    fun u other => Function.update_of_ne other _ _
  refine ⟨.update held once.ups ?_, fun _ => ⟨held, ?_⟩⟩
  · exact update_le_one once.downs (by rw [none])
  · exact fun u other => (quiet u).congr Iff.rfl rfl (others u other)

theorem rollback_keeps (once : Once c) (held : c.lock = true) (own : Own c (.undone v))
    {d : Shared} (recorded : d = { c with
      tables := c.tables.recordRollback v, ups := Function.update c.ups v 0 }) :
    Once d ∧ Placed d .releasing := by
  subst recorded
  have others : ∀ u, u ≠ v → Function.update c.ups v 0 u = c.ups u :=
    fun u other => Function.update_of_ne other _ _
  refine ⟨.update held ?_ once.downs, fun _ => ⟨held, ?_⟩⟩
  · exact update_le_one once.ups (by decide)
  · intro u
    by_cases same : u = v
    · subst same
      exact ⟨fun _ => by simp, fun done => absurd rfl (completed_recordRollback.mp done).1⟩
    · exact (own u same).congr (completed_recordRollback.trans (and_iff_right same))
        (others u same) rfl

theorem holder_keeps (once : Once c) (held : c.lock = true) (own : Own c p) (holds : p.holds)
    (meets : Meets c p a) (moved : next c p a = some r) : Once r.1 ∧ Placed r.1 r.2 := by
  cases p with
  | idle => cases holds
  | listed m => cases holds
  | waiting m => cases holds
  | checked v => cases holds
  | batch =>
    cases a with
    | list e =>
      simp only [next] at moved
      split at moved
      · cases moved
        refine ⟨once, fun _ => ⟨held, own, ?_, pending_once meets⟩⟩
        exact fun m found => (mem_getPendingMigrations found).2.1
      · cases moved
        exact ⟨once, fun _ => ⟨held, own⟩⟩
    | _ => cases moved
  | holding todo =>
    cases todo with
    | nil =>
      cases a with
      | release =>
        cases moved
        exact ⟨⟨once.ups, once.downs, fun _ => own.1⟩, by simp [Placed, Phase.holds]⟩
      | _ => cases moved
    | cons m todo =>
      cases a with
      | refuse =>
        cases moved
        exact ⟨once, fun _ => ⟨held, own.1⟩⟩
      | start now works =>
        cases works with
        | true =>
          cases moved
          exact start_keeps once held own rfl
        | false =>
          cases moved
          exact ⟨once, fun _ => ⟨held, own.1, own.2.1 m List.mem_cons_self⟩⟩
      | _ => cases moved
  | started m todo =>
    cases a with
    | up works =>
      cases works with
      | true =>
        cases moved
        exact up_keeps once held own rfl
      | false =>
        cases moved
        exact ⟨once, fun _ => ⟨held, own.1, own.2.1.1 m List.mem_cons_self⟩⟩
    | _ => cases moved
  | applied m todo =>
    cases a with
    | recordSuccess works =>
      cases works with
      | true =>
        cases moved
        exact success_keeps once held own rfl
      | false => cases meets
    | _ => cases moved
  | failing m =>
    cases a with
    | recordFailure works =>
      cases works with
      | true =>
        cases moved
        exact failure_keeps once held own rfl
      | false =>
        cases moved
        exact ⟨once, fun _ => ⟨held, own.1⟩⟩
    | _ => cases moved
  | rolling v =>
    cases a with
    | down works =>
      cases works with
      | true =>
        cases moved
        exact down_keeps once held own rfl
      | false =>
        cases moved
        exact ⟨once, fun _ => ⟨held, own.1⟩⟩
    | _ => cases moved
  | undone v =>
    cases a with
    | recordRollback works =>
      cases works with
      | true =>
        cases moved
        exact rollback_keeps once held own rfl
      | false => cases meets
    | _ => cases moved
  | releasing =>
    cases a with
    | release =>
      cases moved
      exact ⟨⟨once.ups, once.downs, fun _ => own⟩, by simp [Placed, Phase.holds]⟩
    | _ => cases moved

theorem acquired {p' : Phase}
    (moved : (if c.lock then none else some ({ c with lock := true }, p')) = some r) :
    c.lock = false ∧ r = ({ c with lock := true }, p') := by
  split at moved
  · cases moved
  · rename_i free
    exact ⟨by simpa using free, (Option.some.inj moved).symm⟩

theorem waiter_keeps (once : Once c) (waits : p.holds = false) (meets : Meets c p a)
    (moved : next c p a = some r) :
    (r.1 = c ∧ r.2.holds = false) ∨
      (c.lock = false ∧ r.1 = { c with lock := true } ∧ Own r.1 r.2) := by
  cases p with
  | idle =>
    cases a with
    | apply e v =>
      simp only [next] at moved
      left
      split at moved <;> cases moved <;> exact ⟨rfl, rfl⟩
    | rollback e v =>
      simp only [next] at moved
      left
      split at moved <;> cases moved <;> exact ⟨rfl, rfl⟩
    | applyAll =>
      obtain ⟨free, rfl⟩ := acquired moved
      exact .inr ⟨free, rfl, once.quiet free⟩
    | _ => cases moved
  | listed m =>
    cases a with
    | validate e =>
      simp only [next] at moved
      left
      split at moved <;> cases moved <;> exact ⟨rfl, rfl⟩
    | _ => cases moved
  | waiting m =>
    cases a with
    | acquire =>
      obtain ⟨free, rfl⟩ := acquired moved
      have fresh : Todo c [m] := ⟨fun m' only => List.mem_singleton.mp only ▸ meets, by simp⟩
      exact .inr ⟨free, rfl, once.quiet free, fresh⟩
    | timeOut =>
      cases moved
      exact .inl ⟨rfl, rfl⟩
    | _ => cases moved
  | checked v =>
    cases a with
    | acquire =>
      obtain ⟨free, rfl⟩ := acquired moved
      exact .inr ⟨free, rfl, once.quiet free, meets⟩
    | timeOut =>
      cases moved
      exact .inl ⟨rfl, rfl⟩
    | _ => cases moved
  | _ => cases waits

def Apart (p q : Phase) : Prop := p.holds = false ∨ q.holds = false

theorem once_throughout {s : System ι} (h : Guarded (Interleaving.step next) Guard Initial s) :
    Interleaving.Holds Once Placed Apart s := by
  refine Interleaving.holds_throughout ?_ ?_ h
  · intro s start
    refine ⟨⟨?_, ?_, ?_⟩, ?_, ?_⟩
    · exact fun v => (start.ups v).symm ▸ Nat.zero_le 1
    · exact fun v => (start.downs v).symm ▸ Nat.zero_le 1
    · exact fun _ v => ⟨fun _ => start.ups v, fun _ => start.downs v⟩
    · intro i holds
      rw [start.idle i] at holds
      cases holds
    · intro i j _
      rw [start.idle i]
      exact .inl rfl
  · intro s i a r inv meets moved
    cases mine : (s.pc i).holds with
    | true =>
      obtain ⟨held, own⟩ := inv.each i mine
      obtain ⟨once, placed⟩ := holder_keeps inv.shared held own mine meets moved
      refine ⟨once, placed, ?_⟩
      intro j other
      have waits : (s.pc j).holds = false := by
        rcases inv.pair i j other.symm with mine' | theirs
        · exact absurd (mine.symm.trans mine') (by decide)
        · exact theirs
      exact ⟨fun holds => absurd (holds.symm.trans waits) (by decide), .inr waits, .inl waits⟩
    | false =>
      rcases waiter_keeps inv.shared mine meets moved with ⟨same, waits⟩ | ⟨free, taken, own⟩
      · rw [same]
        have idle : Placed s.shared r.2 :=
          fun holds => absurd (holds.symm.trans waits) (by decide)
        exact ⟨inv.shared, idle, fun j _ => ⟨inv.each j, .inl waits, .inr waits⟩⟩
      · have held : r.1.lock = true := by rw [taken]
        refine ⟨?_, fun _ => ⟨held, own⟩, ?_⟩
        · rw [taken]
          exact .update rfl inv.shared.ups inv.shared.downs
        · intro j _
          have waits : (s.pc j).holds = false := by
            cases theirs : (s.pc j).holds with
            | false => rfl
            | true => exact absurd ((inv.each j theirs).1.symm.trans free) (by decide)
          exact ⟨fun holds => absurd (holds.symm.trans waits) (by decide), .inr waits, .inl waits⟩

end AtMostOnce

/-- In every run that meets the condition, up() completes at most once between two rollbacks that
succeed, and down() between two applications that succeed. -/
theorem migration_at_most_once {s : System ι}
    (h : Guarded (Interleaving.step next) Guard Initial s) (v : Version) :
    s.shared.ups v ≤ 1 ∧ s.shared.downs v ≤ 1 := by
  have once := (once_throughout h).shared
  exact ⟨once.ups v, once.downs v⟩

section Twice

def base : File := ⟨"000_base.py".toList, "Base".toList⟩

def env : Env := ⟨⟨id, fun _ => none, some, id⟩, [base], none, 7⟩

def startsWith (tables : State) : System Bool :=
  ⟨⟨tables, false, fun _ => 0, fun _ => 0⟩, fun _ => .idle⟩

def unmigrated : State := ⟨.empty, .empty, none, .empty⟩

def migrated : State :=
  ⟨⟨[⟨"000".toList, base.content, .completed, 0⟩], List.nodup_singleton _⟩, .empty, none, .empty⟩

theorem startsWith_initial (tables : State) : Initial (startsWith tables) :=
  ⟨rfl, fun _ => rfl, fun _ => rfl, fun _ => rfl⟩

def applies : List (Bool × Action) :=
  [(true, .apply env "000".toList), (true, .validate env), (false, .apply env "000".toList),
    (false, .validate env), (true, .acquire), (true, .start 0 true), (true, .up true),
    (true, .recordSuccess true), (true, .release), (false, .acquire), (false, .start 0 true),
    (false, .up true)]

def rollsBack : List (Bool × Action) :=
  [(true, .rollback env "000".toList), (false, .rollback env "000".toList), (true, .acquire),
    (true, .down true), (true, .recordRollback true), (true, .release), (false, .acquire),
    (false, .down true)]

theorem migration_twice :
    (¬∀ s : System Bool, Reachable (Interleaving.step next) Initial s →
      ∀ v, s.shared.ups v ≤ 1) ∧
    ¬∀ s : System Bool, Reachable (Interleaving.step next) Initial s →
      ∀ v, s.shared.downs v ≤ 1 := by
  constructor
  · intro claim
    have reached : ∃ s : System Bool, Reachable (Interleaving.step next) Initial s ∧
        s.shared.ups "000".toList = 2 :=
      ⟨_, reachable_of_run applies (startsWith_initial unmigrated) rfl, rfl⟩
    obtain ⟨s, reached, twice⟩ := reached
    have once := claim s reached "000".toList
    rw [twice] at once
    exact absurd once (by decide)
  · intro claim
    have reached : ∃ s : System Bool, Reachable (Interleaving.step next) Initial s ∧
        s.shared.downs "000".toList = 2 :=
      ⟨_, reachable_of_run rollsBack (startsWith_initial migrated) rfl, rfl⟩
    obtain ⟨s, reached, twice⟩ := reached
    have once := claim s reached "000".toList
    rw [twice] at once
    exact absurd once (by decide)

theorem migration_at_most_once_alone : ∃ s : System Bool,
    s.shared.downs "000".toList = 1 ∧ s.shared.ups "000".toList ≤ 1 := by
  have start : Guarded (Interleaving.step next) Guard Initial (startsWith migrated) :=
    .start (startsWith_initial migrated)
  have completed : Completed migrated "000".toList := ⟨_, rfl, rfl⟩
  have read := start.step (a := (true, Action.rollback env "000".toList)) trivial rfl
  have locked := read.step (a := (true, Action.acquire)) completed rfl
  have done := locked.step (a := (true, Action.down true)) trivial rfl
  exact ⟨_, rfl, (migration_at_most_once done "000".toList).1⟩

end Twice

end Plexichat.Migrations.Workers
