import Plexichat.Database.Transactions

/-! A transaction of one thread: `begin_transaction`, statements and `commit`, with the connection
lost and statements failing on the way. -/
namespace Plexichat.Database
open Session

/-- What a fetch meets: an answer in the query cache, which all threads fill, or an `execute` and
perhaps an exception while the rows are read. -/
structure Fetch where
  cached : Bool
  execution : Execution
  rows : Option Error

/-- A statement of a thread, through `execute`, `fetch_one` or `fetch_all`. -/
inductive Call (π : Type) where
  | execute (q : Statement π) (autoCommit : Bool) (x : Execution)
  | fetchOne (q : Statement π) (f : Fetch)
  | fetchAll (q : Statement π) (f : Fetch)

def Call.statement {π : Type} : Call π → Statement π
  | .execute q _ _ => q
  | .fetchOne q _ => q
  | .fetchAll q _ => q

variable {π : Type} (changes : Statement π → Bool) (engine : Engine)

abbrev Log (π : Type) := List (Statement π)

def changed (q : Statement π) : Log π := if changes q then [q] else []

def append (q : Statement π) : Effect (Log π) Unit := fun log => .ok ((), log ++ changed changes q)

def Session.fetch (q : Statement π) (f : Fetch) (s : Session (Log π)) :
    Except Error Unit × Session (Log π) :=
  if f.cached then (.ok (), s)
  else s.read engine q.releases (append changes q) f.execution f.rows

def Session.call (s : Session (Log π)) : Call π → Except Error Unit × Session (Log π)
  | .execute q autoCommit x => s.execute engine q.releases (append changes q) autoCommit x
  | .fetchOne q f => s.fetch changes engine q f
  | .fetchAll q f => s.fetch changes engine q f

structure Progress (π : Type) where
  returned : Log π
  logs : List (Log π)
  session : Session (Log π)

def Session.issue (s : Session (Log π)) : List (Call π) → Progress π
  | [] => ⟨[], [], s⟩
  | call :: calls =>
    let (r, s) := s.call changes engine call
    let rest := s.issue calls
    { rest with
      returned := (if r.isOk then changed changes call.statement else []) ++ rest.returned
      logs := s.committed :: rest.logs }

/-- The statements between `begin_transaction`, which left `s`, and a commit are atomic. -/
structure Atomic (s : Session (Log π)) (calls : List (Call π)) (c : Control) : Prop where
  /-- None is persisted on its own. -/
  alone : ∀ log ∈ (s.issue changes engine calls).logs, log = s.committed
  /-- The commit persists all that returned, or nothing. -/
  whole : ∃ persisted, ((s.issue changes engine calls).session.commit engine c).2.committed =
      s.committed ++ persisted ∧
    ((s.issue changes engine calls).returned.Sublist persisted ∨ persisted = [])
  /-- If the commit returns, it has persisted all. -/
  honest : ((s.issue changes engine calls).session.commit engine c).1.isOk = true →
    ∃ persisted, ((s.issue changes engine calls).session.commit engine c).2.committed =
      s.committed ++ persisted ∧ (s.issue changes engine calls).returned.Sublist persisted

structure Session.AtRest (s : Session (Log π)) : Prop where
  depth : s.depth = 0
  adds : ∀ w, s.connection = some (.up (some w)) → s.committed <+: w.tables

/-- `_get_conn` goes on with the connection of the thread. -/
def Acquisition.Keeps (a : Acquisition) (s : Session (Log π)) : Prop :=
  a.passes = true ∧ ∀ c, s.connection = some c → (c.meets a.event).isClosed = false

def Connection.serves : Connection (Log π) → Bool
  | .up none => true
  | .up (some w) => !w.aborted
  | _ => false

/-- The connection is kept; in PostgreSQL the statement does not fail, and in SQLite it does not
roll back the transaction. -/
def Execution.Steady (x : Execution) (s : Session (Log π)) : Prop :=
  (x.attempt 2).acquisition.Keeps s ∧
    match engine with
    | .sqlite => ∀ e, (x.attempt 2).fate ≠ .fails e true
    | .postgres => (x.attempt 2).fate = .done ∧
        ∀ c, s.connection = some c → (c.meets (x.attempt 2).acquisition.event).serves = true

def Fetch.Steady (q : Statement π) (f : Fetch) (s : Session (Log π)) : Prop :=
  if f.cached then changes q = false else f.execution.Steady engine s

def Call.Steady (s : Session (Log π)) : Call π → Prop
  | .execute _ _ x => x.Steady engine s
  | .fetchOne q f => Fetch.Steady changes engine q f s
  | .fetchAll q f => Fetch.Steady changes engine q f s

/-- The connection is kept, and SQLite does not fail with the words of a missing transaction. -/
def Control.Steady (c : Control) (s : Session (Log π)) : Prop :=
  c.acquisition.Keeps s ∧ (engine = .sqlite → c.fate.error.isNoTransaction = false)

def Steady (s : Session (Log π)) (c : Control) : List (Call π) → Prop
  | [] => c.Steady engine s
  | call :: calls =>
    call.Steady changes engine s ∧ Steady (s.call changes engine call).2 c calls

/-- A connection that carries what was written since the transaction began, or is lost with it. -/
def Carries (log written : Log π) : Connection (Log π) → Prop
  | .up (some w) => ∃ more, w.tables = log ++ more ∧ written.Sublist more
  | .up none => engine = .postgres ∧ written = []
  | _ => engine = .sqlite ∨ written = []

structure Inside (log written : Log π) (s : Session (Log π)) : Prop where
  depth : s.depth = 1
  flagged : s.inTransaction = true
  same : s.committed = log
  connected : ∃ c, s.connection = some c ∧ Carries engine log written c

variable {changes engine} {s : Session (Log π)} {log written : Log π}

theorem Carries.fewer {c : Connection (Log π)} {fewer : Log π}
    (h : Carries engine log written c) (sub : fewer.Sublist written) :
    Carries engine log fewer c := by
  have still_nil : written = [] → fewer = [] := fun none_written =>
    List.sublist_nil.mp (none_written ▸ sub)
  cases c with
  | up work =>
    cases work with
    | some w =>
      obtain ⟨more, tables, kept⟩ := h
      exact ⟨more, tables, sub.trans kept⟩
    | none => exact ⟨h.1, still_nil h.2⟩
  | down => exact Or.imp_right still_nil h
  | closed => exact Or.imp_right still_nil h

theorem Inside.fewer {fewer : Log π} (h : Inside engine log written s)
    (sub : fewer.Sublist written) : Inside engine log fewer s where
  depth := h.depth
  flagged := h.flagged
  same := h.same
  connected := by
    obtain ⟨c, here, carries⟩ := h.connected
    exact ⟨c, here, carries.fewer sub⟩

theorem Inside.onward (h : Inside engine log written s) {c : Connection (Log π)} {written' : Log π}
    (carries : Carries engine log written' c) :
    Inside engine log written' { s with connection := some c } :=
  ⟨h.depth, h.flagged, h.same, c, rfl, carries⟩

theorem getConn_keeps {a : Acquisition} {c : Connection (Log π)} (here : s.connection = some c)
    (keeps : a.Keeps s) :
    s.getConn a = (.ok (), { s with connection := some (c.meets a.event) }) := by
  unfold Session.getConn
  simp [here, keeps.1, keeps.2 c here]

theorem meets_up {c : Connection (Log π)} {event : Event} {work : Option (Work (Log π))}
    (h : c.meets event = .up work) : c = .up work := by
  cases c with
  | up w =>
    cases event with
    | quiet => exact h
    | dropped => cases h
    | closed => cases h
  | down => cases event <;> cases h
  | closed => cases event <;> cases h

theorem Inside.releaseConn (h : Inside engine log written s) : s.releaseConn engine = s := by
  unfold Session.releaseConn
  split
  · simp [h.flagged]
  · rfl

theorem Inside.attempt (h : Inside engine log written s) (changes : Statement π → Bool)
    (q : Statement π) {x : Execution} (steady : x.Steady engine s) :
    match s.attempt engine (.statement engine (append changes q)) (x.attempt 2) with
    | (.ok (), t) => Inside engine log (written ++ changed changes q) t
    | (.error _, t) => engine = .sqlite ∧ Inside engine log written t := by
  obtain ⟨c, here, carries⟩ := h.connected
  obtain ⟨keeps, fate⟩ := steady
  unfold Session.attempt
  rw [getConn_keeps here keeps]
  simp only [send]
  have alive := keeps.2 c here
  cases now : c.meets (x.attempt 2).acquisition.event with
  | closed =>
    rw [now] at alive
    cases alive
  | down =>
    cases engine with
    | sqlite => exact ⟨rfl, h.onward (.inl rfl)⟩
    | postgres =>
      have serves := fate.2 c here
      rw [now] at serves
      cases serves
  | up work =>
    obtain rfl := meets_up now
    cases engine with
    | sqlite =>
      cases work with
      | none => cases carries.1
      | some w =>
        cases what : (x.attempt 2).fate with
        | done =>
          obtain ⟨more, tables, kept⟩ := carries
          refine ⟨h.depth, h.flagged, h.same, _, rfl, more ++ changed changes q, ?_, kept.append_right _⟩
          show w.tables ++ changed changes q = _
          rw [tables, List.append_assoc]
        | fails e rolledBack =>
          cases rolledBack with
          | true => exact absurd what (fate e)
          | false => exact ⟨rfl, h.onward carries⟩
        | dropped e applied =>
          refine ⟨rfl, h.depth, h.flagged, ?_, _, rfl, .inl rfl⟩
          cases applied <;> exact h.same
    | postgres =>
      obtain ⟨done, serves⟩ := fate
      have serves := serves _ here
      rw [now] at serves
      rw [done]
      cases work with
      | none =>
        refine ⟨h.depth, h.flagged, h.same, _, rfl, changed changes q, ?_, ?_⟩
        · show s.committed ++ changed changes q = _
          rw [h.same]
        · rw [carries.2]
          exact .refl _
      | some w =>
        have working : w.aborted = false := by simpa [Connection.serves] using serves
        obtain ⟨more, tables, kept⟩ := carries
        simp only [Command.statement, Option.getD_some, working]
        refine ⟨h.depth, h.flagged, h.same, _, rfl, more ++ changed changes q, ?_, kept.append_right _⟩
        show w.tables ++ changed changes q = _
        rw [tables, List.append_assoc]

/-- The errors inside a transaction are those of SQLite, which leave it open. -/
theorem Inside.attempts (h : Inside engine log written s) (changes : Statement π → Bool)
    (q : Statement π) {x : Execution} (steady : x.Steady engine s) :
    match s.attempts engine (.statement engine (append changes q)) x.attempt 2 with
    | (.ok (), t) => Inside engine log (written ++ changed changes q) t
    | (.error _, t) => Inside engine log written t := by
  have first := h.attempt changes q steady
  unfold Session.attempts
  cases result : s.attempt engine (.statement engine (append changes q)) (x.attempt 2) with
  | mk r t =>
    rw [result] at first
    cases r with
    | ok _ => exact first
    | error e =>
      obtain ⟨rfl, inside⟩ := first
      obtain ⟨c, here, _⟩ := inside.connected
      simp only [inside.flagged, Error.isRetried_true, Bool.false_eq_true, if_false,
        failed, handleExecutionError, here, if_true]
      exact inside

def Kept (changes : Statement π → Bool) (engine : Engine) (log written : Log π)
    (q : Statement π) (r : Except Error Unit × Session (Log π)) : Prop :=
  Inside engine log (written ++ if r.1.isOk then changed changes q else []) r.2

theorem Inside.execute (h : Inside engine log written s) (changes : Statement π → Bool)
    (q : Statement π) (autoCommit : Bool) {x : Execution} (steady : x.Steady engine s) :
    Kept changes engine log written q
      (s.execute engine q.releases (append changes q) autoCommit x) := by
  have tried := h.attempts changes q steady
  unfold Session.execute Session.perform
  cases result : s.attempts engine (.statement engine (append changes q)) x.attempt 2 with
  | mk r t =>
    rw [result] at tried
    cases r with
    | error e => simpa [Kept, Except.isOk, Except.toBool] using tried
    | ok _ =>
      simp only [tried.flagged, Bool.not_true, Bool.and_false, Bool.false_eq_true, if_false,
        tried.releaseConn, ite_self]
      exact tried

theorem Inside.fetch {q : Statement π} {f : Fetch} (h : Inside engine log written s)
    (steady : Fetch.Steady changes engine q f s) :
    Kept changes engine log written q (s.fetch changes engine q f) := by
  unfold Session.fetch Session.read
  unfold Fetch.Steady at steady
  split at steady
  · rename_i cached
    rw [if_pos cached]
    simpa [Kept, changed, steady] using h
  · rename_i asked
    rw [if_neg asked]
    have ran := h.execute changes q true steady
    cases result : s.execute engine q.releases (append changes q) true f.execution with
    | mk r t =>
      rw [result] at ran
      cases r with
      | error e => exact ran
      | ok _ =>
        have inside : Inside engine log (written ++ changed changes q) t := ran
        cases f.rows with
        | none =>
          simp only [inside.releaseConn]
          exact ran
        | some e => exact inside.fewer (by simp [Except.isOk, Except.toBool])

theorem Inside.call {call : Call π} (h : Inside engine log written s)
    (steady : call.Steady changes engine s) :
    Kept changes engine log written call.statement (s.call changes engine call) := by
  cases call with
  | execute q autoCommit x => exact h.execute changes q autoCommit steady
  | fetchOne q f => exact h.fetch steady
  | fetchAll q f => exact h.fetch steady

theorem Inside.issue {calls : List (Call π)} {c : Control} (h : Inside engine log written s)
    (steady : Steady changes engine s c calls) :
    (∀ now ∈ (s.issue changes engine calls).logs, now = log) ∧
      Inside engine log (written ++ (s.issue changes engine calls).returned)
        (s.issue changes engine calls).session ∧
      c.Steady engine (s.issue changes engine calls).session := by
  induction calls generalizing s written with
  | nil => exact ⟨nofun, by simpa [Session.issue] using h, steady⟩
  | cons call calls ih =>
    obtain ⟨now, later⟩ := steady
    have kept := h.call now
    obtain ⟨logs, inside, ends⟩ := ih kept later
    refine ⟨?_, ?_, ends⟩
    · intro log' member
      rcases List.mem_cons.mp member with rfl | member
      · exact kept.same
      · exact logs log' member
    · simpa only [Session.issue, List.append_assoc] using inside

theorem commit_some (log : Log π) (w : Work (Log π)) :
    Command.commit engine (log, some w) =
      if w.aborted then (.error ⟨"InterfaceError", "in failed transaction block"⟩, log, none)
      else (.ok (), w.tables, none) := by
  cases engine <;> rfl

theorem releaseConn_committed (s : Session (Log π)) :
    (s.releaseConn engine).committed = s.committed := by
  unfold Session.releaseConn
  split
  · split <;> rfl
  · rfl

theorem Inside.commit {c : Control} (h : Inside engine log written s)
    (steady : c.Steady engine s) :
    ∃ persisted, (s.commit engine c).2.committed = log ++ persisted ∧
      (written.Sublist persisted ∨ persisted = [] ∧ (s.commit engine c).1.isOk = false) := by
  obtain ⟨conn, here, carries⟩ := h.connected
  obtain ⟨keeps, words⟩ := steady
  have other : ¬(engine = .sqlite ∧ c.fate.error.isNoTransaction = true) := by
    intro both
    rw [words both.1] at both
    cases both.2
  have nothing : log = log ++ [] := (List.append_nil log).symm
  unfold Session.commit
  rw [getConn_keeps here keeps]
  simp only [h.depth, Nat.lt_irrefl, if_false, if_true, send]
  cases now : conn.meets c.acquisition.event with
  | closed =>
    simp only [if_neg other]
    exact ⟨[], h.same.trans nothing, .inr ⟨rfl, rfl⟩⟩
  | down =>
    simp only [if_neg other]
    exact ⟨[], h.same.trans nothing, .inr ⟨rfl, rfl⟩⟩
  | up work =>
    obtain rfl := meets_up now
    cases what : c.fate with
    | done =>
      cases work with
      | none =>
        obtain ⟨rfl, rfl⟩ := carries
        exact ⟨[], h.same.trans nothing, .inl (.refl _)⟩
      | some w =>
        obtain ⟨more, tables, kept⟩ := carries
        simp only [commit_some]
        cases aborted : w.aborted with
        | true =>
          have words : Error.isNoTransaction ⟨"InterfaceError", "in failed transaction block"⟩ =
              false := by decide +kernel
          simp only [if_true, words, Bool.false_eq_true, and_false, if_false]
          exact ⟨[], h.same.trans nothing, .inr ⟨rfl, rfl⟩⟩
        | false =>
          simp only [Bool.false_eq_true, if_false, releaseConn_committed, reset]
          exact ⟨more, tables, .inl kept⟩
    | fails e rolledBack =>
      rw [what] at other
      simp only [Fate.error] at other
      simp only [if_neg other]
      exact ⟨[], h.same.trans nothing, .inr ⟨rfl, rfl⟩⟩
    | dropped e applied =>
      rw [what] at other
      simp only [Fate.error] at other
      simp only [if_neg other]
      cases work with
      | none =>
        obtain ⟨rfl, rfl⟩ := carries
        refine ⟨[], ?_, .inr ⟨rfl, rfl⟩⟩
        cases applied <;> exact h.same.trans nothing
      | some w =>
        obtain ⟨more, tables, kept⟩ := carries
        simp only [commit_some, h.same]
        cases applied with
        | false => exact ⟨[], nothing, .inr ⟨rfl, rfl⟩⟩
        | true =>
          cases w.aborted with
          | true => exact ⟨[], nothing, .inr ⟨rfl, rfl⟩⟩
          | false => exact ⟨more, tables, .inl kept⟩

theorem connect_ok {refused : Option Error} {t : Session (Log π)}
    (h : s.connect refused = (.ok (), t)) :
    t.committed = s.committed ∧ (∃ c, t.connection = some c) ∧ t.AtRest := by
  cases refused with
  | some e => cases h
  | none =>
    cases h
    exact ⟨rfl, ⟨_, rfl⟩, rfl, nofun⟩

theorem getConn_ok {a : Acquisition} {t : Session (Log π)} (h : s.getConn a = (.ok (), t))
    (rest : s.AtRest) :
    t.committed = s.committed ∧ (∃ c, t.connection = some c) ∧ t.AtRest := by
  unfold Session.getConn at h
  cases here : s.connection with
  | none =>
    rw [here] at h
    exact connect_ok h
  | some c =>
    simp only [here] at h
    split at h
    · cases h
      refine ⟨rfl, ⟨_, rfl⟩, rest.depth, ?_⟩
      intro w open_work
      exact rest.adds w (here.trans (congrArg some (meets_up (Option.some.inj open_work))))
    · exact connect_ok h

theorem inside_begin {b : Control} {t : Session (Log π)} (rest : s.AtRest)
    (began : s.beginTransaction engine b = (.ok (), t)) : Inside engine s.committed [] t := by
  unfold Session.beginTransaction at began
  cases taken : s.getConn b.acquisition with
  | mk r u =>
    rw [taken] at began
    cases r with
    | error e => cases began
    | ok _ =>
      obtain ⟨same, ⟨c, here⟩, still⟩ := getConn_ok taken rest
      simp only [still.depth, if_true] at began
      cases engine with
      | postgres =>
        cases began
        refine ⟨rfl, rfl, same, c, here, ?_⟩
        cases c with
        | up work =>
          cases work with
          | none => exact ⟨rfl, rfl⟩
          | some w =>
            obtain ⟨more, tables⟩ := still.adds w here
            exact ⟨more, by rw [← tables, same], List.nil_sublist _⟩
        | down => exact .inr rfl
        | closed => exact .inr rfl
      | sqlite =>
        simp only [send, here] at began
        cases c with
        | down => cases began
        | closed => cases began
        | up work =>
          cases what : b.fate with
          | fails e rolledBack =>
            rw [what] at began
            cases began
          | dropped e applied =>
            rw [what] at began
            cases began
          | done =>
            rw [what] at began
            cases work with
            | some w => cases began
            | none =>
              cases began
              refine ⟨rfl, rfl, same, _, rfl, [], ?_, .refl _⟩
              show u.committed = _
              rw [same, List.append_nil]

/-- A transaction whose steps are all steady is atomic. -/
theorem transactions_atomic (changes : Statement π → Bool) (engine : Engine) {s t : Session (Log π)}
    {b c : Control} {calls : List (Call π)} (rest : s.AtRest)
    (began : s.beginTransaction engine b = (.ok (), t))
    (steady : Steady changes engine t c calls) :
    t.committed = s.committed ∧ Atomic changes engine t calls c := by
  have start := inside_begin rest began
  obtain ⟨logs, inside, ends⟩ := start.issue steady
  obtain ⟨persisted, log, kept⟩ := inside.commit ends
  rw [List.nil_append] at kept
  refine ⟨start.same, ?_, ?_, ?_⟩
  · intro now member
    rw [start.same]
    exact logs now member
  · rw [start.same]
    exact ⟨persisted, log, kept.imp_right And.left⟩
  · intro returned
    rw [start.same]
    rcases kept with all | ⟨-, raised⟩
    · exact ⟨persisted, log, all⟩
    · rw [raised] at returned
      cases returned

section Cases

def insertRow (n : Nat) : Statement Nat := ⟨"INSERT INTO rows (id) VALUES (?)".toList, n⟩

def smooth : Control := ⟨⟨.quiet, true, none⟩, .done⟩

def insertCall (n : Nat) (event : Event) (fate : Fate) : Call Nat :=
  .execute (insertRow n) true ⟨fun _ => ⟨⟨event, true, none⟩, fate⟩, .done, .done⟩

def atRest : Session (Log Nat) := ⟨[], some (.up none), 0, false⟩

theorem atRest_atRest : atRest.AtRest := ⟨rfl, nofun⟩

def begun (engine : Engine) : Session (Log Nat) := (atRest.beginTransaction engine smooth).2

def interrupted : Engine → List (Call Nat)
  | .sqlite => [insertCall 1 .quiet .done, insertCall 2 .closed .done]
  | .postgres => [insertCall 1 .quiet .done,
      insertCall 2 .quiet (.fails ⟨"IntegrityError", "duplicate key value"⟩ false),
      insertCall 3 .quiet .done]

theorem transactions_atomic_smooth : (begun .sqlite).committed = [] ∧
    Atomic (fun _ => true) .sqlite (begun .sqlite)
      [insertCall 1 .quiet .done, insertCall 2 .quiet .done] smooth := by
  refine transactions_atomic (s := atRest) (b := smooth) (fun _ => true) .sqlite atRest_atRest rfl ?_
  refine ⟨⟨⟨rfl, ?_⟩, nofun⟩, ⟨⟨rfl, ?_⟩, nofun⟩, ⟨rfl, ?_⟩, fun _ => by decide +kernel⟩
  · intro c here
    cases here
    rfl
  · intro c here
    cases here
    rfl
  · intro c here
    cases here
    rfl

def TransactionsAtomic (engine : Engine) : Prop :=
  ∀ (changes : Statement Nat → Bool) (s t : Session (Log Nat)) (b c : Control)
    (calls : List (Call Nat)), s.AtRest → s.beginTransaction engine b = (.ok (), t) →
      Atomic changes engine t calls c

theorem transactions_interrupted :
    ¬TransactionsAtomic .sqlite ∧ ¬TransactionsAtomic .postgres := by
  suffices fails : ∀ engine, ¬TransactionsAtomic engine from ⟨fails .sqlite, fails .postgres⟩
  intro engine claimed
  have whole := (claimed (fun _ => true) atRest (begun engine) smooth smooth (interrupted engine)
    atRest_atRest (by cases engine <;> rfl)).whole
  obtain ⟨persisted, log, kept⟩ := whole
  cases engine with
  | sqlite =>
    have log : [insertRow 2] = persisted := log
    subst log
    have kept : [insertRow 1, insertRow 2].Sublist [insertRow 2] ∨ [insertRow 2] = [] := kept
    revert kept
    decide +kernel
  | postgres =>
    have log : [insertRow 3] = persisted := log
    subst log
    have kept : [insertRow 1, insertRow 3].Sublist [insertRow 3] ∨ [insertRow 3] = [] := kept
    revert kept
    decide +kernel

end Cases

end Plexichat.Database
