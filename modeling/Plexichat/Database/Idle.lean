import Plexichat.Database.QueryCache

/-! What a thread leaves open between two requests. SQLite's connection comes from the pool with the
next command, and PostgreSQL's driver opens a transaction with it; no request can tell whether that
has happened already. -/
namespace Plexichat.Database

variable {π ρ τ α : Type}

section Waking

def Session.wake (engine : Engine) (s : Session τ) : Session τ :=
  let s := (s.getConn quiet).2
  match engine, s.connection with
  | .postgres, some (.up none) => { s with connection := some (.up (some (.begun s.committed))) }
  | _, _ => s

def Alike (engine : Engine) (s t : Session τ) : Prop :=
  t = s ∨ engine = .postgres ∧ s.connection = some (.up none) ∧
    t = { s with connection := some (.up (some (.begun s.committed))) }

def Agree (engine : Engine) (r r' : Except Error α × Session τ) : Prop :=
  r'.1 = r.1 ∧ Alike engine r.2 r'.2

def Lazy (engine : Engine) (command : Command τ α) : Prop :=
  engine = .postgres → ∀ tables, command (tables, some (.begun tables)) = command (tables, none) ∨
    ∃ r, command (tables, none) = (r, tables, none) ∧
      command (tables, some (.begun tables)) = (r, tables, some (.begun tables))

variable {engine : Engine} {s t : Session τ} {command : Command τ α}

theorem getConn_quiet (s : Session τ) : s.getConn quiet = (.ok (), (s.getConn quiet).2) := by
  unfold Session.getConn
  cases s.connection with
  | none => rfl
  | some c => cases c <;> rfl

theorem connected_getConn (s : Session τ) :
    ∃ c, (s.getConn quiet).2.connection = some c ∧ c.isClosed = false := by
  unfold Session.getConn
  cases s.connection with
  | none => exact ⟨_, rfl, rfl⟩
  | some c => cases c <;> exact ⟨_, rfl, rfl⟩

theorem getConn_connected {c : Connection τ} (here : s.connection = some c)
    (served : c.isClosed = false) : s.getConn quiet = (.ok (), s) := by
  unfold Session.getConn
  cases s
  cases here
  cases c with
  | up work => rfl
  | down => rfl
  | closed => cases served

theorem alike_wake (engine : Engine) (s : Session τ) : Alike engine (s.getConn quiet).2 (s.wake engine) := by
  unfold Session.wake
  cases engine with
  | sqlite => exact .inl rfl
  | postgres =>
    obtain ⟨c, here, served⟩ := connected_getConn s
    cases c with
    | up work =>
      cases work with
      | none =>
        simp only [here]
        exact .inr ⟨rfl, here, rfl⟩
      | some w =>
        simp only [here]
        exact .inl rfl
    | down =>
      simp only [here]
      exact .inl rfl
    | closed => cases served

theorem Alike.send (h : Alike engine s t) (idle : Lazy engine command) :
    Agree engine (s.send engine command .done) (t.send engine command .done) := by
  rcases h with rfl | ⟨rfl, here, rfl⟩
  · exact ⟨rfl, .inl rfl⟩
  · rcases idle rfl s.committed with same | ⟨r, none_open, begun⟩
    · simp only [Session.send, here, same]
      exact ⟨rfl, .inl rfl⟩
    · simp only [Session.send, here, none_open, begun]
      exact ⟨rfl, .inr ⟨rfl, rfl, rfl⟩⟩

theorem Agree.split {r r' : Except Error α × Session τ} (h : Agree engine r r') :
    ∃ x s t, r = (x, s) ∧ r' = (x, t) ∧ Alike engine s t := by
  obtain ⟨x, s⟩ := r
  obtain ⟨y, t⟩ := r'
  obtain ⟨rfl, alike⟩ := h
  exact ⟨_, s, t, rfl, rfl, alike⟩

theorem Alike.flags (h : Alike engine s t) (depth : Nat) (inTransaction : Bool) :
    Alike engine { s with depth, inTransaction } { t with depth, inTransaction } := by
  rcases h with rfl | ⟨rfl, here, rfl⟩
  · exact .inl rfl
  · exact .inr ⟨rfl, here, rfl⟩

theorem Alike.deep (h : Alike engine s t) (f : Nat → Nat) :
    Alike engine { s with depth := f s.depth } { t with depth := f t.depth } := by
  rcases h with rfl | ⟨rfl, here, rfl⟩
  · exact .inl rfl
  · exact .inr ⟨rfl, here, rfl⟩

theorem Alike.depth (h : Alike engine s t) : t.depth = s.depth := by
  rcases h with rfl | ⟨rfl, -, rfl⟩ <;> rfl

theorem Alike.inTransaction (h : Alike engine s t) : t.inTransaction = s.inTransaction := by
  rcases h with rfl | ⟨rfl, -, rfl⟩ <;> rfl

theorem Alike.wake (h : Alike engine s t) : t.wake engine = s.wake engine := by
  rcases h with rfl | ⟨rfl, here, rfl⟩
  · rfl
  · unfold Session.wake
    rw [getConn_connected here rfl, getConn_connected rfl rfl]
    simp only [here]

theorem wake_getConn (s : Session τ) : (s.getConn quiet).2.wake engine = s.wake engine := by
  obtain ⟨c, here, served⟩ := connected_getConn s
  unfold Session.wake
  rw [getConn_connected here served]

theorem getConn_wake (s : Session τ) : (s.wake engine).getConn quiet = (.ok (), s.wake engine) := by
  obtain ⟨c, here, served⟩ := connected_getConn s
  rcases alike_wake engine s with same | ⟨-, -, same⟩
  · rw [same]
    exact getConn_connected here served
  · rw [same]
    exact getConn_connected rfl rfl

@[simp] theorem wake_wake (s : Session τ) : (s.wake engine).wake engine = s.wake engine :=
  (alike_wake engine s).wake.trans (wake_getConn s)

end Waking

section LazyCommands

theorem lazy_statement (engine : Engine) (effect : Effect τ α) :
    Lazy engine (.statement engine effect) := by
  rintro rfl tables
  exact .inl rfl

theorem lazy_many (engine : Engine) (effects : List (Effect τ α)) :
    Lazy engine (.many engine effects) := by
  rintro rfl tables
  cases effects with
  | nil => exact .inr ⟨_, rfl, rfl⟩
  | cons effect effects => exact .inl rfl

theorem lazy_commit (engine : Engine) : Lazy engine (.commit engine : Command τ Unit) := by
  rintro rfl tables
  exact .inl rfl

theorem lazy_rollback (engine : Engine) : Lazy engine (.rollback engine : Command τ Unit) := by
  rintro rfl tables
  exact .inl rfl

theorem lazy_savepoint (engine : Engine) (n : Nat) :
    Lazy engine (.savepoint engine n : Command τ Unit) := by
  rintro rfl tables
  exact .inl rfl

theorem lazy_release (engine : Engine) (n : Nat) :
    Lazy engine (.release engine n : Command τ Unit) := by
  rintro rfl tables
  exact .inl rfl

theorem lazy_rollbackTo (engine : Engine) (n : Nat) :
    Lazy engine (.rollbackTo engine n : Command τ Unit) := by
  rintro rfl tables
  exact .inl rfl

end LazyCommands

section Operations

variable {engine : Engine} {s t : Session τ} {command : Command τ α}

theorem Alike.rollbackConn (h : Alike engine s t) : Agree engine s.rollbackConn t.rollbackConn := by
  rcases h with rfl | ⟨rfl, here, rfl⟩
  · exact ⟨rfl, .inl rfl⟩
  · simp only [Session.rollbackConn, here]
    exact ⟨rfl, .inl rfl⟩

theorem Alike.releaseConn (h : Alike engine s t) :
    Alike engine (s.releaseConn engine) (t.releaseConn engine) := by
  rcases h with rfl | ⟨rfl, here, rfl⟩
  · exact .inl rfl
  · exact .inr ⟨rfl, here, rfl⟩

theorem Alike.commitConn (h : Alike engine s t) :
    Agree engine (s.commitConn engine .done) (t.commitConn engine .done) := by
  have sent := h.send (lazy_commit engine)
  rcases h with rfl | ⟨rfl, here, rfl⟩
  · exact ⟨rfl, .inl rfl⟩
  · exact sent

theorem Alike.disconnect (h : Alike engine s t) :
    ({ t with connection := none } : Session τ) = { s with connection := none } := by
  rcases h with rfl | ⟨rfl, -, rfl⟩ <;> rfl

theorem Alike.failed (h : Alike engine s t) (e : Error) :
    Agree engine (s.failed engine e : Except Error α × Session τ) (t.failed engine e) := by
  rcases h with rfl | ⟨rfl, here, rfl⟩
  · exact ⟨rfl, .inl rfl⟩
  · simp only [Session.failed, Session.handleExecutionError, Session.rollbackConn, here]
    by_cases nested : 1 < s.depth
    · simp only [nested, if_true, Session.send, here]
      exact ⟨rfl, .inl rfl⟩
    · simp only [nested, if_false]
      exact ⟨rfl, .inl rfl⟩

theorem Alike.attempt (h : Alike engine (s.getConn quiet).2 (t.getConn quiet).2)
    (idle : Lazy engine command) (n : Nat) :
    Agree engine (s.attempt engine command (calm.attempt n))
      (t.attempt engine command (calm.attempt n)) := by
  have sent := h.send idle
  simp only [Session.attempt, calm]
  rw [getConn_quiet s, getConn_quiet t]
  exact sent

theorem Alike.attempts (h : Alike engine (s.getConn quiet).2 (t.getConn quiet).2)
    (idle : Lazy engine command) (n : Nat) :
    Agree engine (s.attempts engine command calm.attempt n)
      (t.attempts engine command calm.attempt n) := by
  cases n with
  | zero =>
    obtain ⟨x, u, v, first, second, alike⟩ := (Alike.attempt h idle 0).split
    unfold Session.attempts
    rw [first, second]
    cases x with
    | ok answer => exact ⟨rfl, alike⟩
    | error e => exact alike.failed e
  | succ n =>
    obtain ⟨x, u, v, first, second, alike⟩ := (Alike.attempt h idle (n + 1)).split
    unfold Session.attempts
    rw [first, second]
    cases x with
    | ok answer => exact ⟨rfl, alike⟩
    | error e =>
      simp only
      rw [alike.disconnect, alike.inTransaction]
      split
      · exact ⟨rfl, .inl rfl⟩
      · exact alike.failed e

theorem Alike.commitStrict (h : Alike engine s t) :
    Agree engine (s.commitStrict engine calm) (t.commitStrict engine calm) := by
  obtain ⟨x, u, v, first, second, alike⟩ := h.commitConn.split
  simp only [Session.commitStrict, calm, first, second]
  cases x with
  | ok _ => exact ⟨rfl, alike⟩
  | error _ => exact alike.commitConn

theorem Alike.perform (h : Alike engine (s.getConn quiet).2 (t.getConn quiet).2)
    (idle : Lazy engine command) (autoCommit releases : Bool) :
    Agree engine (s.perform engine command autoCommit releases calm)
      (t.perform engine command autoCommit releases calm) := by
  obtain ⟨x, u, v, first, second, alike⟩ := (Alike.attempts h idle 2).split
  unfold Session.perform
  rw [first, second]
  cases x with
  | error e => exact ⟨rfl, alike⟩
  | ok answer =>
    have committed : Agree engine
        (if autoCommit && !u.inTransaction then u.commitStrict engine calm else (.ok (), u))
        (if autoCommit && !v.inTransaction then v.commitStrict engine calm else (.ok (), v)) := by
      rw [alike.inTransaction]
      split
      · exact alike.commitStrict
      · exact ⟨rfl, alike⟩
    obtain ⟨y, w, z, first, second, alike⟩ := committed.split
    simp only [first, second]
    cases y with
    | error e => exact ⟨rfl, alike⟩
    | ok _ =>
      cases releases with
      | true => exact ⟨rfl, alike.releaseConn⟩
      | false => exact ⟨rfl, alike⟩

theorem Alike.read (h : Alike engine (s.getConn quiet).2 (t.getConn quiet).2) (releases : Bool)
    (effect : Effect τ α) :
    Agree engine (s.read engine releases effect calm none)
      (t.read engine releases effect calm none) := by
  obtain ⟨x, u, v, first, second, alike⟩ :=
    (Alike.perform h (lazy_statement engine effect) true releases).split
  unfold Session.read Session.execute
  rw [first, second]
  cases x with
  | error e => exact ⟨rfl, alike⟩
  | ok answer => exact ⟨rfl, alike.releaseConn⟩

theorem Alike.build (h : Alike engine (s.getConn quiet).2 (t.getConn quiet).2)
    (effect : Effect τ α) : Agree engine (s.build engine effect calm) (t.build engine effect calm) := by
  obtain ⟨x, u, v, first, second, alike⟩ := (h.send (lazy_statement engine effect)).split
  simp only [Session.build, calm]
  rw [getConn_quiet s, getConn_quiet t]
  simp only [first, second]
  cases x with
  | error e =>
    simp only [alike.inTransaction]
    split
    · exact ⟨rfl, alike⟩
    · exact ⟨rfl, alike.rollbackConn.2⟩
  | ok answer =>
    simp only [alike.inTransaction]
    split
    · exact ⟨rfl, alike⟩
    · obtain ⟨y, w, z, first, second, alike⟩ := alike.commitConn.split
      simp only [first, second]
      cases y with
      | error e => exact ⟨rfl, alike.rollbackConn.2⟩
      | ok _ => exact ⟨rfl, alike⟩

theorem Alike.beginTransaction (h : Alike engine (s.getConn quiet).2 (t.getConn quiet).2) :
    Agree engine (s.beginTransaction engine calmControl) (t.beginTransaction engine calmControl) := by
  simp only [Session.beginTransaction, calmControl]
  rw [getConn_quiet s, getConn_quiet t]
  generalize (s.getConn quiet).2 = s at h
  generalize (t.getConn quiet).2 = t at h
  by_cases outer : s.depth = 0
  · simp only [h.depth, outer, if_true]
    cases engine with
    | postgres => exact ⟨rfl, h.flags 1 true⟩
    | sqlite =>
      rcases h with rfl | ⟨impossible, -, -⟩
      · exact ⟨rfl, .inl rfl⟩
      · cases impossible
  · have sent := (h.deep (· + 1)).send (lazy_savepoint engine (s.depth + 1))
    have depth := h.depth
    simp only [outer, if_false]
    rw [if_neg (depth ▸ outer)]
    simpa only [depth] using sent

theorem Alike.commit (h : Alike engine (s.getConn quiet).2 (t.getConn quiet).2) :
    Agree engine (s.commit engine calmControl) (t.commit engine calmControl) := by
  simp only [Session.commit, calmControl]
  rw [getConn_quiet s, getConn_quiet t]
  generalize (s.getConn quiet).2 = s at h
  generalize (t.getConn quiet).2 = t at h
  simp only [h.depth]
  split
  · obtain ⟨x, u, v, first, second, alike⟩ := (h.send (lazy_release engine s.depth)).split
    rw [first, second]
    cases x with
    | ok _ => exact ⟨rfl, alike.deep (· - 1)⟩
    | error e =>
      obtain ⟨y, w, z, first, second, alike⟩ := alike.rollbackConn.split
      simp only [first, second]
      cases y with
      | error _ => exact ⟨rfl, alike⟩
      | ok _ => exact ⟨rfl, alike.flags 0 false⟩
  · split
    · obtain ⟨x, u, v, first, second, alike⟩ := (h.send (lazy_commit engine)).split
      rw [first, second]
      cases x with
      | ok _ => exact ⟨rfl, (alike.flags 0 false).releaseConn⟩
      | error e =>
        simp only
        split
        · exact ⟨rfl, alike.flags 0 false⟩
        · exact ⟨rfl, alike⟩
    · exact ⟨rfl, h⟩

theorem Alike.rollback (h : Alike engine (s.getConn quiet).2 (t.getConn quiet).2) :
    Agree engine (s.rollback engine calmControl) (t.rollback engine calmControl) := by
  simp only [Session.rollback, calmControl]
  rw [getConn_quiet s, getConn_quiet t]
  generalize (s.getConn quiet).2 = s at h
  generalize (t.getConn quiet).2 = t at h
  simp only [h.depth]
  split
  · obtain ⟨x, u, v, first, second, alike⟩ := (h.send (lazy_rollbackTo engine s.depth)).split
    rw [first, second]
    cases x with
    | ok _ => exact ⟨rfl, alike.deep (· - 1)⟩
    | error e =>
      simp only
      split
      · obtain ⟨y, w, z, first, second, alike⟩ := alike.rollbackConn.split
        simp only [first, second]
        cases y with
        | error _ => exact ⟨rfl, alike⟩
        | ok _ => exact ⟨rfl, alike.flags 0 false⟩
      · exact ⟨rfl, alike⟩
  · split
    · obtain ⟨x, u, v, first, second, alike⟩ := (h.send (lazy_rollback engine)).split
      rw [first, second]
      cases x with
      | ok _ => exact ⟨rfl, (alike.flags 0 false).releaseConn⟩
      | error e =>
        simp only
        split
        · exact ⟨rfl, alike.flags 0 false⟩
        · exact ⟨rfl, alike⟩
    · obtain ⟨y, w, z, first, second, alike⟩ := h.rollbackConn.split
      rw [first, second]
      cases y with
      | error _ => exact ⟨rfl, alike⟩
      | ok _ =>
        have depth := alike.depth
        refine ⟨rfl, ?_⟩
        simpa only [depth] using alike.flags w.depth false

end Operations

section Requests

variable {π ρ : Type} {run : Statement π → Nat → Effect τ (Answer ρ)} {engine : Engine}
  {s t : Session τ}

def Same (engine : Engine) (s t : Session τ) : Prop := s.wake engine = t.wake engine

theorem serve_wake (run : Statement π → Nat → Effect τ (Answer ρ)) (engine : Engine)
    (s : Session τ) (now : Nat) (request : Request π) :
    (s.serve run engine now request).1 = ((s.wake engine).serve run engine now request).1 ∧
      Same engine (s.serve run engine now request).2
        ((s.wake engine).serve run engine now request).2 := by
  have ready : Alike engine (s.getConn quiet).2 ((s.wake engine).getConn quiet).2 := by
    rw [getConn_wake]
    exact alike_wake engine s
  have executes : ∀ (q : Statement π) (autoCommit : Bool), Agree engine
      (s.execute engine q.releases (run q now) autoCommit calm)
      ((s.wake engine).execute engine q.releases (run q now) autoCommit calm) :=
    fun q autoCommit => Alike.perform ready (lazy_statement engine _) autoCommit _
  cases request with
  | execute q autoCommit =>
    obtain ⟨x, u, v, first, second, alike⟩ := (executes q autoCommit).split
    simp only [Session.serve, first, second]
    exact ⟨trivial, alike.wake.symm⟩
  | executeMany text params autoCommit =>
    obtain ⟨x, u, v, first, second, alike⟩ := (Alike.perform ready
      (lazy_many engine (params.map fun p => run ⟨text, p⟩ now)) autoCommit true).split
    simp only [Session.serve, Session.executeMany, first, second]
    exact ⟨trivial, alike.wake.symm⟩
  | insertOrIgnore table columns values =>
    simp only [Session.serve]
    cases insertOrIgnoreStatement engine table columns values with
    | error e => exact ⟨rfl, (wake_wake s).symm⟩
    | ok q =>
      obtain ⟨x, u, v, first, second, alike⟩ := (executes q true).split
      simp only [first, second]
      exact ⟨trivial, alike.wake.symm⟩
  | upsert table columns values conflict update =>
    simp only [Session.serve]
    cases upsertStatement engine table columns values conflict update with
    | error e => exact ⟨rfl, (wake_wake s).symm⟩
    | ok q =>
      obtain ⟨x, u, v, first, second, alike⟩ := (executes q true).split
      simp only [first, second]
      exact ⟨trivial, alike.wake.symm⟩
  | build q =>
    obtain ⟨x, u, v, first, second, alike⟩ := (Alike.build ready (run q now)).split
    simp only [Session.serve, first, second]
    exact ⟨trivial, alike.wake.symm⟩
  | beginTransaction =>
    obtain ⟨x, u, v, first, second, alike⟩ := (Alike.beginTransaction ready).split
    simp only [Session.serve, first, second]
    exact ⟨trivial, alike.wake.symm⟩
  | commit =>
    obtain ⟨x, u, v, first, second, alike⟩ := (Alike.commit ready).split
    simp only [Session.serve, first, second]
    exact ⟨trivial, alike.wake.symm⟩
  | rollback =>
    obtain ⟨x, u, v, first, second, alike⟩ := (Alike.rollback ready).split
    simp only [Session.serve, first, second]
    exact ⟨trivial, alike.wake.symm⟩
  | fetch kind q =>
    obtain ⟨x, u, v, first, second, alike⟩ := (Alike.read ready q.releases (run q now)).split
    simp only [Session.serve, Session.fetchRows, first, second]
    exact ⟨trivial, alike.wake.symm⟩

theorem Same.serve (h : Same engine s t) (now : Nat) (request : Request π) :
    (s.serve run engine now request).1 = (t.serve run engine now request).1 ∧
      Same engine (s.serve run engine now request).2 (t.serve run engine now request).2 := by
  have first := serve_wake run engine s now request
  have second := serve_wake run engine t now request
  rw [show s.wake engine = t.wake engine from h] at first
  exact ⟨first.1.trans second.1.symm, first.2.trans second.2.symm⟩

def Session.view (s : Session τ) : τ :=
  match s.connection with
  | some (.up (some w)) => w.tables
  | _ => s.committed

theorem view_getConn (s : Session τ) : (s.getConn quiet).2.view = s.view := by
  unfold Session.getConn Session.view
  cases here : s.connection with
  | none => rfl
  | some c => cases c <;> rfl

theorem committed_getConn (s : Session τ) : (s.getConn quiet).2.committed = s.committed := by
  unfold Session.getConn
  cases s.connection with
  | none => rfl
  | some c => cases c <;> rfl

theorem Alike.view (h : Alike engine s t) : t.view = s.view := by
  rcases h with rfl | ⟨-, here, rfl⟩
  · rfl
  · simp only [Session.view, here]
    rfl

theorem Alike.committed (h : Alike engine s t) : t.committed = s.committed := by
  rcases h with rfl | ⟨-, -, rfl⟩ <;> rfl

theorem Same.view (h : Same engine s t) : s.view = t.view := by
  rw [← view_getConn s, ← view_getConn t, ← (alike_wake engine s).view,
    ← (alike_wake engine t).view, show s.wake engine = t.wake engine from h]

theorem Same.committed (h : Same engine s t) : s.committed = t.committed := by
  rw [← committed_getConn s, ← committed_getConn t, ← (alike_wake engine s).committed,
    ← (alike_wake engine t).committed, show s.wake engine = t.wake engine from h]

end Requests

end Plexichat.Database
