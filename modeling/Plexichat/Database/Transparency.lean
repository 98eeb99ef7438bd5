import Plexichat.Database.Idle
import Plexichat.Library.Checks

/-! The query cache in front of one thread: when neither what the calls return nor what the tables
become can tell that it is there. -/
namespace Plexichat.Database

variable {π ρ τ α : Type}

section Definitions

variable (run : Statement π → Nat → Effect τ (Answer ρ)) (engine : Engine)

structure Reads (q : Statement π) : Prop where
  timeless : ∀ now now' tables, run q now tables = run q now' tables
  leaves : ∀ now tables a tables', run q now tables = .ok (a, tables') → tables' = tables

def Session.Answers (s : Session τ) (q : Statement π) (a : Answer ρ) : Prop :=
  ∀ now, run q now s.view = .ok (a, s.view)

def Session.Served (s : Session τ) : Prop :=
  match engine, (s.wake engine).connection with
  | .sqlite, some (.up none) => True
  | .sqlite, some (.up (some _)) => (s.wake engine).inTransaction = true
  | .postgres, some (.up (some w)) =>
    w.aborted = false ∧ ((s.wake engine).inTransaction = true ∨ w = .begun (s.wake engine).committed)
  | _, _ => False

def Session.Spares (s : Session τ) (now : Nat) (request : Request π) (q : Statement π) : Prop :=
  ∀ a, s.Answers run q a → (s.serve run engine now request).2.Answers run q a

namespace Cached

variable [DecidableEq π] (c : Cached π ρ τ)

def Spares (now : Nat) (request : Request π) : Prop :=
  ∀ e ∈ c.cache, Reads run e.key.statement →
    c.session.Spares run engine now request e.key.statement

/-- A fetch is answered from the cache only where it would read, and what does not empty the cache
spares what is kept. -/
def Undisturbed (m : Moment) (request : Request π) : Prop :=
  match request with
  | .execute q _ => (c.executing q).Spares run engine m.now request
  | .executeMany _ _ _ => c.Spares run engine m.now request
  | .build _ =>
    (c.session.serve run engine m.now request).1.isOk = false → c.Spares run engine m.now request
  | .fetch kind q =>
    if (c.cacheGet m.now ⟨kind, q⟩).1.isSome then Reads run q ∧ c.session.Served engine
    else (c.executing q).Spares run engine m.now request ∧
      (Reads run q → c.session.Spares run engine m.now request q)
  | _ => True

def Steady (c : Cached π ρ τ) : List (Moment × Request π) → Prop
  | [] => True
  | (m, request) :: rest =>
    c.Undisturbed run engine m request ∧ (c.serve run engine m request).2.Steady rest

def Coherent : Prop :=
  Lru.Holds (fun key value => Reads run key.statement →
    ∃ a, c.session.Answers run key.statement a ∧ key.kind.value a = value) c.cache

end Cached

end Definitions

section Reading

variable {engine : Engine} {effect : Effect τ α} {s t : Session τ} {a : α} {disk disk' : Disk τ}

def seen (disk : Disk τ) : τ :=
  match disk.2 with
  | none => disk.1
  | some w => w.tables

def Session.Working (s : Session τ) : Prop :=
  ∀ w, s.connection = some (.up (some w)) → w.aborted = false

theorem view_up {work : Option (Work τ)} (here : s.connection = some (.up work)) :
    s.view = seen (s.committed, work) := by
  unfold Session.view
  rw [here]
  cases work <;> rfl

theorem statement_ok
    (leaves : ∀ tables a tables', effect tables = .ok (a, tables') → tables' = tables)
    (ran : Command.statement engine effect disk = (.ok a, disk')) :
    effect (seen disk) = .ok (a, seen disk) ∧ seen disk' = seen disk ∧
      ((∀ w, disk.2 = some w → w.aborted = false) → ∀ w, disk'.2 = some w → w.aborted = false) := by
  have answer : ∀ tables b, effect tables = .ok b → b.1 = a → effect tables = .ok (a, tables) := by
    rintro tables ⟨b, tables'⟩ answered rfl
    rw [answered, leaves _ _ _ answered]
  obtain ⟨committed, work⟩ := disk
  cases engine with
  | sqlite =>
    cases work with
    | none =>
      cases answered : effect committed with
      | error e => simp [Command.statement, answered] at ran
      | ok b =>
        obtain ⟨same, rfl⟩ := by simpa [Command.statement, answered] using ran
        exact ⟨answer _ _ answered same, leaves _ _ _ answered, fun _ => nofun⟩
    | some w =>
      cases answered : effect w.tables with
      | error e => simp [Command.statement, answered] at ran
      | ok b =>
        obtain ⟨same, rfl⟩ := by simpa [Command.statement, answered] using ran
        refine ⟨answer _ _ answered same, leaves _ _ _ answered, ?_⟩
        intro working w' same
        cases Option.some.inj same
        exact working w rfl
  | postgres =>
    have found : (work.getD (.begun committed)).tables = seen (committed, work) := by
      cases work <;> rfl
    cases aborted : (work.getD (.begun committed)).aborted with
    | true => simp [Command.statement, aborted] at ran
    | false =>
      cases answered : effect (work.getD (.begun committed)).tables with
      | error e => simp [Command.statement, aborted, answered] at ran
      | ok b =>
        obtain ⟨same, rfl⟩ := by simpa [Command.statement, aborted, answered] using ran
        rw [found] at answered
        refine ⟨answer _ _ answered same, leaves _ _ _ answered, ?_⟩
        intro _ w' same
        cases Option.some.inj same
        rfl

theorem send_statement_ok
    (leaves : ∀ tables a tables', effect tables = .ok (a, tables') → tables' = tables)
    (sent : s.send engine (.statement engine effect) .done = (.ok a, t)) :
    effect s.view = .ok (a, s.view) ∧ t.view = s.view ∧ (s.Working → t.Working) := by
  cases here : s.connection with
  | none => simp [Session.send, here] at sent
  | some c =>
    cases c with
    | down => simp [Session.send, here] at sent
    | closed => simp [Session.send, here] at sent
    | up work =>
      cases ran : Command.statement engine effect (s.committed, work) with
      | mk r disk =>
        obtain ⟨rfl, rfl⟩ := by simpa [Session.send, here, ran] using sent
        obtain ⟨answered, same, working⟩ := statement_ok leaves ran
        rw [view_up here]
        refine ⟨answered, same ▸ view_up rfl, fun sound w open_now => working ?_ w ?_⟩
        · rintro w rfl
          exact sound w here
        · simpa using open_now

theorem Session.Working.getConn (h : s.Working) : (s.getConn quiet).2.Working := by
  unfold Session.getConn
  cases here : s.connection with
  | none => exact fun w => nofun
  | some c =>
    cases c with
    | up work =>
      intro w same
      exact h w (here.trans same)
    | down => exact fun w => nofun
    | closed => exact fun w => nofun

theorem attempt_ok
    (leaves : ∀ tables a tables', effect tables = .ok (a, tables') → tables' = tables) (n : Nat)
    (ran : s.attempt engine (.statement engine effect) (calm.attempt n) = (.ok a, t)) :
    effect s.view = .ok (a, s.view) ∧ t.view = s.view ∧ (s.Working → t.Working) := by
  simp only [Session.attempt, calm] at ran
  rw [getConn_quiet s] at ran
  obtain ⟨answered, same, working⟩ := send_statement_ok leaves ran
  rw [view_getConn] at answered same
  exact ⟨answered, same, fun sound => working sound.getConn⟩

theorem attempts_ok
    (leaves : ∀ tables a tables', effect tables = .ok (a, tables') → tables' = tables) (n : Nat)
    (ran : s.attempts engine (.statement engine effect) calm.attempt n = (.ok a, t)) :
    effect s.view = .ok (a, s.view) ∧ (s.Working → effect t.view = .ok (a, t.view) ∧ t.Working) ∨
      effect t.view = .ok (a, t.view) ∧ t.Working := by
  induction n generalizing s with
  | zero =>
    unfold Session.attempts at ran
    cases tried : s.attempt engine (.statement engine effect) (calm.attempt 0) with
    | mk r u =>
      rw [tried] at ran
      cases r with
      | error e => simp [Session.failed] at ran
      | ok b =>
        obtain ⟨rfl, rfl⟩ := by simpa using ran
        obtain ⟨answered, same, working⟩ := attempt_ok leaves 0 tried
        exact .inl ⟨answered, fun sound => ⟨same ▸ answered, working sound⟩⟩
  | succ n ih =>
    unfold Session.attempts at ran
    cases tried : s.attempt engine (.statement engine effect) (calm.attempt (n + 1)) with
    | mk r u =>
      rw [tried] at ran
      cases r with
      | error e =>
        simp only at ran
        split at ran
        · rcases ih ran with ⟨-, kept⟩ | kept
          · exact .inr (kept (by simp [Session.Working]))
          · exact .inr kept
        · simp [Session.failed] at ran
      | ok b =>
        obtain ⟨rfl, rfl⟩ := by simpa using ran
        obtain ⟨answered, same, working⟩ := attempt_ok leaves (n + 1) tried
        exact .inl ⟨answered, fun sound => ⟨same ▸ answered, working sound⟩⟩

theorem Session.Working.view_commitConn (h : s.Working) :
    (s.commitConn engine .done).2.view = s.view ∧ (s.commitConn engine .done).2.Working := by
  cases here : s.connection with
  | none => cases engine <;> simp [Session.commitConn, Session.send, here, h]
  | some c =>
    cases c with
    | down => cases engine <;> simp [Session.commitConn, Session.send, here, h]
    | closed => cases engine <;> simp [Session.commitConn, Session.send, here, h]
    | up work =>
      cases work with
      | none =>
        cases engine <;>
          simp [Session.commitConn, Session.send, Session.view, Session.Working, Command.commit, here]
      | some w =>
        have sound := h w here
        cases engine <;>
          simp [Session.commitConn, Session.send, Session.view, Session.Working, Command.commit,
            here, sound]

theorem Session.Working.view_commitStrict (h : s.Working) :
    (s.commitStrict engine calm).2.view = s.view := by
  unfold Session.commitStrict
  cases tried : s.commitConn engine calm.commit with
  | mk r u =>
    have once : u.view = s.view ∧ u.Working := by
      rw [show u = (s.commitConn engine .done).2 from (congrArg Prod.snd tried).symm]
      exact h.view_commitConn
    cases r with
    | ok _ => exact once.1
    | error e => exact once.2.view_commitConn.1.trans once.1

theorem view_releaseConn (s : Session τ) : (s.releaseConn engine).view = s.view := by
  unfold Session.releaseConn
  split
  · rename_i idle
    split
    · rfl
    · simp [Session.view, idle]
  · rfl

theorem read_ok
    (leaves : ∀ tables a tables', effect tables = .ok (a, tables') → tables' = tables)
    (releases : Bool) (ran : s.read engine releases effect calm none = (.ok a, t)) :
    effect s.view = .ok (a, s.view) ∨ effect t.view = .ok (a, t.view) := by
  unfold Session.read Session.execute Session.perform at ran
  cases tried : s.attempts engine (.statement engine effect) calm.attempt 2 with
  | mk r u =>
    rw [tried] at ran
    cases r with
    | error e => simp at ran
    | ok b =>
      simp only [Bool.true_and] at ran
      cases committed : (if !u.inTransaction then u.commitStrict engine calm else (.ok (), u)) with
      | mk r v =>
        rw [committed] at ran
        cases r with
        | error e => simp at ran
        | ok _ =>
          obtain ⟨rfl, rfl⟩ := by simpa using ran
          rcases attempts_ok leaves 2 tried with ⟨answered, -⟩ | ⟨answered, working⟩
          · exact .inl answered
          · have same : v.view = u.view := by
              split at committed
              · rw [← working.view_commitStrict, committed]
              · cases committed
                rfl
            right
            rw [view_releaseConn]
            split
            · rwa [view_releaseConn, same]
            · rwa [same]

end Reading

section Serving

variable {engine : Engine} {effect : Effect τ α} {s t : Session τ} {a : α}

theorem same_releaseConn (s : Session τ) : Same engine (s.releaseConn engine) s := by
  unfold Session.releaseConn
  split
  · rename_i idle
    split
    · rfl
    · rename_i out
      obtain ⟨rested, unflagged⟩ := by simpa using out
      obtain ⟨committed, connection, depth, inTransaction⟩ := s
      cases idle
      cases rested
      cases unflagged
      rfl
  · rfl

structure Settled (engine : Engine) (s : Session τ) : Prop where
  ready : s.getConn quiet = (.ok (), s)
  sends : ∀ {α : Type} (effect : Effect τ α) (a : α), effect s.view = .ok (a, s.view) →
    s.send engine (.statement engine effect) .done = (.ok a, s)
  commits : s.inTransaction = false →
    ∃ t, s.commitStrict engine calm = (.ok (), t) ∧ Same engine t s

theorem Session.Served.settled (served : s.Served engine) : Settled engine (s.wake engine) := by
  have ready : (s.wake engine).getConn quiet = (.ok (), s.wake engine) := getConn_wake s
  unfold Session.Served at served
  generalize s.wake engine = s at served ready
  obtain ⟨committed, connection, depth, inTransaction⟩ := s
  split at served
  · rename_i _ _ here
    cases here
    refine ⟨ready, fun effect a answered => ?_, fun _ => ⟨_, rfl, rfl⟩⟩
    simp_all [Session.send, Session.view, Command.statement]
  · rename_i _ _ w here
    cases here
    refine ⟨ready, fun effect a answered => ?_, fun unflagged => ?_⟩
    · simp_all [Session.send, Session.view, Command.statement]
    · simp_all
  · rename_i _ _ w here
    cases here
    obtain ⟨working, fresh⟩ := served
    refine ⟨ready, fun effect a answered => ?_, fun unflagged => ?_⟩
    · obtain ⟨tables, savepoints, explicit, aborted⟩ := w
      cases working
      simp_all [Session.send, Session.view, Command.statement]
    · have begun : w = .begun committed := fresh.resolve_left (by simp_all)
      subst begun
      exact ⟨_, rfl, rfl⟩
  · exact served.elim

theorem read_served (served : s.Served engine) (releases : Bool)
    (answered : effect s.view = .ok (a, s.view)) :
    (s.read engine releases effect calm none).1 = .ok a ∧
      Same engine (s.read engine releases effect calm none).2 s := by
  have ready : Alike engine (s.getConn quiet).2 ((s.wake engine).getConn quiet).2 := by
    rw [getConn_wake]
    exact alike_wake engine s
  obtain ⟨x, u, v, first, second, alike⟩ := (Alike.read ready releases effect).split
  have seen_awake : (s.wake engine).view = s.view := (alike_wake engine s).view.trans (view_getConn s)
  have settled := served.settled
  have sent := settled.sends effect a (by rw [seen_awake]; exact answered)
  have tried : (s.wake engine).attempts engine (.statement engine effect) calm.attempt 2 =
      (.ok a, s.wake engine) := by
    simp only [Session.attempts, Session.attempt, calm, settled.ready, sent]
  obtain ⟨w, committed, same⟩ : ∃ w,
      (if !(s.wake engine).inTransaction then (s.wake engine).commitStrict engine calm
        else (.ok (), s.wake engine)) = (.ok (), w) ∧ Same engine w s := by
    split
    · rename_i unflagged
      obtain ⟨w, committed, same⟩ := settled.commits (by simpa using unflagged)
      exact ⟨w, committed, same.trans (wake_wake s)⟩
    · exact ⟨_, rfl, wake_wake s⟩
  have read : ∃ v, (s.wake engine).read engine releases effect calm none = (.ok a, v) ∧
      Same engine v s := by
    unfold Session.read Session.execute Session.perform
    simp only [tried, Bool.true_and, committed]
    refine ⟨_, rfl, (same_releaseConn _).trans ?_⟩
    cases releases with
    | true => exact (same_releaseConn w).trans same
    | false => exact same
  obtain ⟨v', read, same⟩ := read
  obtain ⟨rfl, rfl⟩ := by simpa [second] using read
  rw [first]
  exact ⟨rfl, alike.wake.symm.trans same⟩

end Serving

section Transparency

variable {run : Statement π → Nat → Effect τ (Answer ρ)} {engine : Engine} {c : Cached π ρ τ}
  {request : Request π} {m : Moment} {now : Nat} {q : Statement π} {kind : Kind}

structure Follows (run : Statement π → Nat → Effect τ (Answer ρ)) (engine : Engine) (s : Session τ)
    (now : Nat) (request : Request π) (r : Outcome ρ × Cached π ρ τ) : Prop where
  outcome : r.1 = (s.serve run engine now request).1
  same : Same engine r.2.session (s.serve run engine now request).2
  coherent : r.2.Coherent run

namespace Cached

@[simp] theorem session_executing : (c.executing q).session = c.session := by
  unfold executing
  split <;> rfl

@[simp] theorem session_clear : c.clear.session = c.session := rfl

theorem coherent_clear : c.clear.Coherent run := Lru.holds_empty

theorem Coherent.executing (h : c.Coherent run) : (c.executing q).Coherent run := by
  unfold Cached.executing
  split
  · exact coherent_clear
  · exact h

theorem spares_clear : c.clear.Spares run engine now request := nofun

theorem Coherent.spared (h : c.Coherent run) (spares : c.Spares run engine now request) :
    ({ c with session := (c.session.serve run engine now request).2 } : Cached π ρ τ).Coherent run :=
  h.imp fun e member kept reads => by
    obtain ⟨a, answers, value⟩ := kept reads
    exact ⟨a, spares e member reads a answers, value⟩

theorem Coherent.pass (h : c.Coherent run) (spares : c.Spares run engine now request) :
    Follows run engine c.session now request (c.pass run engine now request) :=
  ⟨rfl, rfl, h.spared spares⟩

theorem Coherent.pass_executing (h : c.Coherent run)
    (spares : (c.executing q).Spares run engine now request) :
    Follows run engine c.session now request ((c.executing q).pass run engine now request) := by
  have follows := h.executing.pass spares
  rwa [session_executing] at follows

theorem Coherent.pass_cleared (h : c.Coherent run) (recognised : q.clearsCache = true) :
    Follows run engine c.session now request ((c.executing q).pass run engine now request) := by
  refine h.pass_executing ?_
  rw [Cached.executing, if_pos recognised]
  exact spares_clear

theorem clearsCache_insertOrIgnoreStatement {table : List Char} {columns : List (List Char)}
    {values : π} (generated : insertOrIgnoreStatement engine table columns values = .ok q) :
    q.clearsCache = true := by
  unfold insertOrIgnoreStatement at generated
  obtain ⟨safeTable, -, generated⟩ := Checks.returned_bind generated
  obtain ⟨safeColumns, -, generated⟩ := Checks.returned_bind generated
  obtain rfl := Checks.pure_eq_ok.mp generated
  exact clearsCache_insertOrIgnoreQuery safeTable safeColumns values

theorem clearsCache_upsertStatement {table : List Char} {columns conflict : List (List Char)}
    {values : π} {update : Option (List (List Char))}
    (generated : upsertStatement engine table columns values conflict update = .ok q) :
    q.clearsCache = true := by
  unfold upsertStatement at generated
  obtain ⟨safeTable, -, generated⟩ := Checks.returned_bind generated
  obtain ⟨safeColumns, -, generated⟩ := Checks.returned_bind generated
  obtain ⟨safeConflict, -, generated⟩ := Checks.returned_bind generated
  obtain ⟨safeUpdates, -, generated⟩ := Checks.returned_bind generated
  split at generated
  · exact clearsCache_insertOrIgnoreStatement generated
  · obtain rfl := Checks.pure_eq_ok.mp generated
    exact clearsCache_upsertQuery safeTable safeColumns safeConflict safeUpdates values

variable [DecidableEq π]

theorem Coherent.hit {value : Value ρ} (h : c.Coherent run)
    (hit : (c.cacheGet now ⟨kind, q⟩).1 = some value) (reads : Reads run q)
    (served : c.session.Served engine) :
    (c.session.fetchRows run engine kind q now).1 = .ok value ∧
      Same engine c.session (c.session.fetchRows run engine kind q now).2 := by
  have kept : (Lru.get now ⟨kind, q⟩ c.cache).1 = some value := (Option.filter_eq_some_iff.mp hit).1
  obtain ⟨e, member, key, rfl, -⟩ := Lru.get_eq_some kept
  obtain ⟨a, answers, value⟩ := h e member (by rwa [key])
  rw [key] at answers value
  obtain ⟨read, same⟩ := read_served served q.releases (answers now)
  refine ⟨?_, Eq.symm same⟩
  rw [← value]
  simp [Session.fetchRows, read, Except.map]

theorem Coherent.miss {value : Value ρ} {s : Session τ} {stored : Nat} (h : c.Coherent run)
    (spares : c.Spares run engine now (.fetch kind q))
    (own : Reads run q → c.session.Spares run engine now (.fetch kind q) q)
    (fetched : c.session.fetchRows run engine kind q now = (.ok value, s)) :
    (({ c with session := s } : Cached π ρ τ).cachePut stored ⟨kind, q⟩ value).Coherent run := by
  have after : (c.session.serve run engine now (.fetch kind q)).2 = s := by
    simp [Session.serve, fetched]
  have kept := h.spared spares
  rw [after] at kept
  refine Lru.Holds.put kept (fun reads => ?_) _
  cases read : c.session.read engine q.releases (run q now) calm none with
  | mk r t =>
    cases r with
    | error e => simp [Session.fetchRows, read, Except.map] at fetched
    | ok a =>
      obtain ⟨rfl, rfl⟩ := by simpa [Session.fetchRows, read, Except.map] using fetched
      have answers : t.Answers run q a := by
        rcases read_ok (reads.leaves now) q.releases read with before | now_too
        · have answers := own reads a fun later => (reads.timeless later now _).trans before
          rwa [after] at answers
        · exact fun later => (reads.timeless later now _).trans now_too
      exact ⟨a, answers, rfl⟩

theorem of_cacheGet {c' : Cached π ρ τ} {found : Option (Value ρ)} {key : Key π}
    (got : c.cacheGet now key = (found, c')) :
    c'.session = c.session ∧ ∀ e ∈ c'.cache, e ∈ c.cache := by
  obtain ⟨-, rfl⟩ := by simpa [cacheGet] using got
  exact ⟨rfl, fun e => Lru.mem_of_mem_get⟩

theorem Coherent.fetch (h : c.Coherent run)
    (undisturbed : c.Undisturbed run engine m (.fetch kind q)) :
    Follows run engine c.session m.now (.fetch kind q)
      (c.serve run engine m (.fetch kind q)) := by
  cases got : c.cacheGet m.now ⟨kind, q⟩ with
  | mk found c' =>
    obtain ⟨here, fewer⟩ := of_cacheGet got
    have kept : c'.Coherent run := fun e member => by
      rw [here]
      exact h e (fewer e member)
    cases found with
    | some value =>
      obtain ⟨reads, served⟩ := by simpa [Undisturbed, got] using undisturbed
      obtain ⟨read, same⟩ := h.hit (by rw [got]) reads served
      refine ⟨?_, ?_, ?_⟩
      · simp [Cached.serve, Cached.fetch, got, Session.serve, read, Except.map]
      · simpa [Cached.serve, Cached.fetch, got, here, Session.serve] using same
      · simpa [Cached.serve, Cached.fetch, got] using kept
    | none =>
      obtain ⟨spares, own⟩ := by simpa [Undisturbed, got] using undisturbed
      have spares' : (c'.executing q).Spares run engine m.now (.fetch kind q) := by
        intro e member
        have old : e ∈ (c.executing q).cache := by
          unfold Cached.executing at member ⊢
          by_cases recognised : q.clearsCache = true
          · rw [if_pos recognised] at member ⊢
            exact member
          · rw [if_neg recognised] at member ⊢
            exact fewer e member
        simpa [here] using spares e old
      have coherent := kept.executing.spared spares'
      cases fetched : c.session.fetchRows run engine kind q m.now with
      | mk r s =>
        have after : (c.session.serve run engine m.now (.fetch kind q)).2 = s := by
          simp [Session.serve, fetched]
        rw [session_executing, here, after] at coherent
        cases r with
        | error e =>
          simp only [Cached.serve, Cached.fetch, got, session_executing, here, fetched]
          exact ⟨by simp [Session.serve, fetched], by simp [after, Same], coherent⟩
        | ok value =>
          simp only [Cached.serve, Cached.fetch, got, session_executing, here, fetched]
          refine ⟨by simp [Session.serve, fetched], by simp [after, Same, cachePut], ?_⟩
          have missed : (c'.executing q).session.fetchRows run engine kind q m.now = (.ok value, s) := by
            rwa [session_executing, here]
          exact kept.executing.miss spares' (by simpa [here] using own) missed

theorem Coherent.serve (h : c.Coherent run) (undisturbed : c.Undisturbed run engine m request) :
    Follows run engine c.session m.now request (c.serve run engine m request) := by
  cases request with
  | execute q autoCommit => exact h.pass_executing undisturbed
  | executeMany text params autoCommit => exact h.pass undisturbed
  | insertOrIgnore table columns values =>
    cases generated : insertOrIgnoreStatement engine table columns values with
    | error e =>
      simp only [Cached.serve, generated]
      exact ⟨by simp [Session.serve, generated], by simp [Session.serve, generated, Same], h⟩
    | ok q =>
      simp only [Cached.serve, generated]
      exact h.pass_cleared (clearsCache_insertOrIgnoreStatement generated)
  | upsert table columns values conflict update =>
    cases generated : upsertStatement engine table columns values conflict update with
    | error e =>
      simp only [Cached.serve, generated]
      exact ⟨by simp [Session.serve, generated], by simp [Session.serve, generated, Same], h⟩
    | ok q =>
      simp only [Cached.serve, generated]
      exact h.pass_cleared (clearsCache_upsertStatement generated)
  | build q =>
    cases built : c.pass run engine m.now (.build q) with
    | mk outcome c' =>
      have passed : (c.session.serve run engine m.now (.build q)).1 = outcome := by
        exact congrArg Prod.fst built
      cases outcome with
      | error e =>
        have follows := h.pass (undisturbed (by rw [passed]; rfl))
        simpa only [Cached.serve, built] using follows
      | ok r =>
        simp only [Cached.serve, built]
        refine ⟨passed.symm, ?_, coherent_clear⟩
        rw [session_clear, show c' = (c.pass run engine m.now (.build q)).2 by rw [built]]
        rfl
  | beginTransaction => exact coherent_clear.pass spares_clear
  | commit => exact coherent_clear.pass spares_clear
  | rollback => exact coherent_clear.pass spares_clear
  | fetch kind q => exact h.fetch undisturbed

end Cached

variable [DecidableEq π]

theorem serveAll_follows (requests : List (Moment × Request π)) (c : Cached π ρ τ) (s : Session τ)
    (same : Same engine c.session s) (coherent : c.Coherent run)
    (steady : c.Steady run engine requests) :
    (c.serveAll run engine requests).1 = (s.serveAll run engine requests).1 ∧
      Same engine (c.serveAll run engine requests).2.session (s.serveAll run engine requests).2 := by
  induction requests generalizing c s with
  | nil => exact ⟨rfl, same⟩
  | cons first rest ih =>
    obtain ⟨m, request⟩ := first
    obtain ⟨undisturbed, later⟩ := steady
    have follows := coherent.serve undisturbed
    have alike : (c.session.serve run engine m.now request).1 = (s.serve run engine m.now request).1 ∧
        Same engine (c.session.serve run engine m.now request).2
          (s.serve run engine m.now request).2 := same.serve m.now request
    obtain ⟨outcomes, ends⟩ := ih _ _ (follows.same.trans alike.2) follows.coherent later
    refine ⟨?_, ends⟩
    simp only [Cached.serveAll, Session.serveAll, outcomes, follows.outcome, alike.1]

end Transparency

section Runs

def oneColumn (q : Statement Nat) (_ : Nat) : Effect (List Nat) (Answer Nat) := fun rows =>
  if startsWith q.upperQuery ["SELECT"] then .ok (⟨rows, 0⟩, rows)
  else .ok (⟨[q.params], 1⟩, rows ++ [q.params])

def noRows : Session (List Nat) := ⟨[], none, 0, false⟩

def selectAll : Moment × Request Nat := (⟨0, 0⟩, .fetch .all ⟨"SELECT n FROM t".toList, 0⟩)

def insertMany : Moment × Request Nat :=
  (⟨5, 5⟩, .executeMany "INSERT INTO t (n) VALUES (?)".toList [1] true)

def insertReturning : Moment × Request Nat :=
  (⟨10, 10⟩, .fetch .one ⟨"INSERT INTO t (n) VALUES (?) RETURNING n".toList, 1⟩)

end Runs

end Plexichat.Database
