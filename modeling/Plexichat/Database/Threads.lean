import Plexichat.Database.QueryCache
import Plexichat.Library.Checks
import Plexichat.Library.Interleaving

/-! core/database/core: the query cache between the threads of a process. A call is cut into its
lookup, its clearing of the cache, its statements, its commit and its storing of the answer. What a
thread has not committed is kept as its statements, and a commit applies them to the tables that are
committed by then. SQLite's statement outside a transaction is followed at once by its commit; the
runs in which it is not are runs of PostgreSQL. -/
namespace Plexichat.Database.Threads
open Transition Interleaving

variable {π ρ τ : Type}

structure Shared (π ρ τ : Type) where
  initial : τ
  history : List τ
  cache : QueryCache π ρ
  returned : Nat

inductive Call (π : Type) where
  /-- A fetch that has missed, and the last commit that had returned when it began. -/
  | fetch (kind : Kind) (q : Statement π) (since : Nat)
  /-- `execute` or `execute_many`, with the statements that are left. -/
  | write (clears autoCommit : Bool) (qs : List (Statement π))
  | build (q : Statement π)
  | beginTransaction
  | commit
  | rollback

structure Reading (π ρ : Type) where
  key : Key π
  value : Value ρ
  since : Nat
  own : List (Statement π)

inductive After (π ρ : Type) where
  | resume (c : Call π)
  | store (r : Reading π ρ)
  | clear
  | leave

inductive Stage (π ρ : Type) where
  | idle
  | clearing (c : Call π)
  | running (c : Call π)
  | committing (after : After π ρ)
  | emptying
  | storing (r : Reading π ρ)
  | returning
  | fetched (r : Reading π ρ)

/-- The statements of the open transaction, those since the innermost savepoint first; what is left
uncommitted outside a transaction; and the commit that the call has made. -/
structure Thread (π ρ : Type) where
  transaction : List (List (Statement π))
  loose : List (Statement π)
  mark : Nat
  stage : Stage π ρ

inductive Cleanup where
  | nothing | savepoint | everything

inductive Action (π : Type) where
  | start (request : Request π) (now : Nat)
  /-- The next step. Inside a transaction the database chooses the commit that a statement sees. -/
  | go (seen stored : Nat)
  | fail (cleanup : Cleanup)

variable (run : Statement π → Effect τ (Answer ρ)) (engine : Engine)

def replay (qs : List (Statement π)) (tables : τ) : τ :=
  qs.foldl (fun tables q =>
    match run q tables with
    | .ok (_, tables) => tables
    | .error _ => tables) tables

namespace Shared

variable (s : Shared π ρ τ)

def committed (k : Nat) : Option τ := (s.initial :: s.history)[k]?

def latest : τ := s.history.getLastD s.initial

def lookup [DecidableEq π] (now : Nat) (key : Key π) : Option (Value ρ) × Shared π ρ τ :=
  let (hit, cache) := Lru.get now key s.cache
  (hit.filter fun v => !v.isNone, { s with cache })

def answerTo [DecidableEq π] (now : Nat) (request : Request π) :
    Option (Key π × Value ρ) × Shared π ρ τ :=
  match request with
  | .fetch kind q =>
    let (hit, s) := s.lookup now ⟨kind, q⟩
    (hit.map fun value => (⟨kind, q⟩, value), s)
  | _ => (none, s)

def store [DecidableEq π] (stored : Nat) (r : Reading π ρ) : Shared π ρ τ :=
  { s with cache := Lru.put queryCacheMax ⟨r.key, stored + queryCacheTtl, r.value⟩ s.cache }

end Shared

def Call.clears : Call π → Bool
  | .fetch _ q _ => q.clearsCache
  | .write clears _ _ => clears
  | .build _ => false
  | _ => true

def opened (since : Nat) : Request π → Except Error (Call π)
  | .execute q autoCommit => .ok (.write q.clearsCache autoCommit [q])
  | .executeMany text params autoCommit =>
    .ok (.write false autoCommit (params.map fun p => ⟨text, p⟩))
  | .insertOrIgnore table columns values =>
    (insertOrIgnoreStatement engine table columns values).map fun q => .write q.clearsCache true [q]
  | .upsert table columns values conflict update =>
    (upsertStatement engine table columns values conflict update).map fun q =>
      .write q.clearsCache true [q]
  | .build q => .ok (.build q)
  | .beginTransaction => .ok .beginTransaction
  | .commit => .ok .commit
  | .rollback => .ok .rollback
  | .fetch kind q => .ok (.fetch kind q since)

namespace Thread

variable (t : Thread π ρ)

def own : List (Statement π) := t.loose ++ t.transaction.reverse.flatten

def add (q : Statement π) : Thread π ρ :=
  match t.transaction with
  | [] => { t with loose := t.loose ++ [q] }
  | qs :: outer => { t with transaction := (qs ++ [q]) :: outer }

def finished : Thread π ρ := { t with mark := 0, stage := .idle }

def cleaned : Cleanup → Thread π ρ
  | .nothing => t
  | .savepoint =>
    match t.transaction with
    | [] => t
    | _ :: outer => { t with transaction := [] :: outer }
  | .everything => { t with transaction := [], loose := [] }

def view (s : Shared π ρ τ) (seen : Nat) : Option τ :=
  match t.transaction with
  | [] => some (replay run t.own s.latest)
  | _ => (s.committed seen).map (replay run t.own)

def ran (onward : After π ρ) (inside : Stage π ρ) : Thread π ρ :=
  match t.transaction with
  | [] => { t with stage := .committing onward }
  | _ => { t with stage := inside }

def advance (s : Shared π ρ τ) (seen : Nat) : Call π → Option (Thread π ρ)
  | .fetch kind q since => do
    let tables ← t.view run s seen
    let (answer, _) ← (run q tables).toOption
    let r : Reading π ρ := ⟨⟨kind, q⟩, kind.value answer, since, t.own⟩
    return (t.add q).ran (.store r) (.storing r)
  | .write clears autoCommit (q :: qs) => do
    let tables ← t.view run s seen
    let _ ← (run q tables).toOption
    let onward := Call.write clears autoCommit qs
    match engine with
    | .sqlite => return (t.add q).ran (.resume onward) (.running onward)
    | .postgres => return { t.add q with stage := .running onward }
  | .write _ autoCommit [] =>
    if autoCommit then some (t.ran .leave .returning) else some { t with stage := .returning }
  | .build q => do
    let tables ← t.view run s seen
    let _ ← (run q tables).toOption
    return (t.add q).ran .clear .emptying
  | .beginTransaction => some { t with transaction := [] :: t.transaction, stage := .returning }
  | .commit =>
    match t.transaction with
    | [] => some { t with stage := .returning }
    | [_] => some { t with stage := .committing .leave }
    | inner :: qs :: outer =>
      some { t with transaction := (qs ++ inner) :: outer, stage := .returning }
  | .rollback =>
    match t.transaction with
    | [] | [_] => some { t with transaction := [], loose := [], stage := .returning }
    | _ :: outer => some { t with transaction := outer, stage := .returning }

end Thread

def After.stage : After π ρ → Stage π ρ
  | .resume c => .running c
  | .store r => .storing r
  | .clear => .emptying
  | .leave => .returning

def Shared.Answered (s : Shared π ρ τ) (k : Nat) (own : List (Statement π)) (key : Key π)
    (value : Value ρ) : Prop :=
  ∃ tables, s.committed k = some tables ∧ ∃ answer tables',
    run key.statement (replay run own tables) = .ok (answer, tables') ∧ key.kind.value answer = value

/-- Nothing older than a write that had returned, and nothing uncommitted but the thread's own. -/
def Reading.Current (s : Shared π ρ τ) (r : Reading π ρ) : Prop :=
  ∃ k, r.since ≤ k ∧ s.Answered run k r.own r.key r.value

section Steps

variable [DecidableEq π] [DecidableEq τ]

def publish (s : Shared π ρ τ) (t : Thread π ρ) (after : After π ρ) : Shared π ρ τ × Thread π ρ :=
  let tables := replay run t.own s.latest
  let t := { t with transaction := [], loose := [], stage := after.stage }
  if tables = s.latest then (s, t)
  else ({ s with history := s.history ++ [tables] }, { t with mark := s.history.length + 1 })

def next (s : Shared π ρ τ) (t : Thread π ρ) : Action π → Option (Shared π ρ τ × Thread π ρ)
  | .start request now =>
    match t.stage with
    | .idle =>
      match s.answerTo now request with
      | (some (key, value), s) => some (s, { t with stage := .fetched ⟨key, value, s.returned, t.own⟩ })
      | (none, s) =>
        match opened engine s.returned request with
        | .error _ => some (s, t)
        | .ok c => some (s, { t with stage := .clearing c })
    | _ => none
  | .go seen stored =>
    match t.stage with
    | .idle => none
    | .clearing c =>
      some (if c.clears then { s with cache := .empty } else s, { t with stage := .running c })
    | .running c => (t.advance run engine s seen c).map fun t => (s, t)
    | .committing after => some (publish run s t after)
    | .emptying => some ({ s with cache := .empty }, { t with stage := .returning })
    | .storing r => some (s.store stored r, { t with stage := .fetched r })
    | .returning => some ({ s with returned := max s.returned t.mark }, t.finished)
    | .fetched _ => some ({ s with returned := max s.returned t.mark }, t.finished)
  | .fail cleanup =>
    match t.stage with
    | .idle => none
    | _ => some (s, (t.cleaned cleanup).finished)

def Undisturbed (s : Shared π ρ τ) (t : Thread π ρ) (a : Action π) : Prop :=
  match a, t.stage with
  | .start request now, .idle =>
    -- nothing that the thread has not committed changes what the cache answers
    ∀ hit ∈ (s.answerTo now request).1, ∀ tables,
      (run hit.1.statement (replay run t.own tables)).map Prod.fst =
        (run hit.1.statement tables).map Prod.fst
  | .go seen _, .running (.fetch _ _ _) => t.transaction ≠ [] → s.committed seen = some s.latest
  | .go _ _, .committing .clear => True
  | .go _ _, .committing _ =>
    replay run t.own s.latest ≠ s.latest → ∀ e ∈ s.cache, ∃ answer tables',
      run e.key.statement (replay run t.own s.latest) = .ok (answer, tables') ∧
        e.key.kind.value answer = e.value
  | .go _ _, .storing r => s.Answered run s.history.length [] r.key r.value
  | _, _ => True

end Steps

section Soundness

variable {run : Statement π → Effect τ (Answer ρ)} {engine : Engine} {s s' : Shared π ρ τ}
  {t t' : Thread π ρ} {a : Action π} {n : Nat}

/-- Every kept answer is that of a commit from `n` on. -/
def Shared.Fresh (run : Statement π → Effect τ (Answer ρ)) (s : Shared π ρ τ) (n : Nat) : Prop :=
  Lru.Holds (fun key value => ∃ k, n ≤ k ∧ s.Answered run k [] key value) s.cache

def Call.Begun (s : Shared π ρ τ) : Call π → Prop
  | .fetch _ _ since => since ≤ s.history.length
  | _ => True

def After.Sound (run : Statement π → Effect τ (Answer ρ)) (s : Shared π ρ τ) : After π ρ → Prop
  | .resume c => c.Begun s
  | .store r => r.Current run s
  | _ => True

def Stage.Sound (run : Statement π → Effect τ (Answer ρ)) (s : Shared π ρ τ) : Stage π ρ → Prop
  | .clearing c | .running c => c.Begun s
  | .committing after => after.Sound run s
  | .storing r | .fetched r => r.Current run s
  | _ => True

structure Thread.Sound (run : Statement π → Effect τ (Answer ρ)) (s : Shared π ρ τ)
    (t : Thread π ρ) : Prop where
  marked : t.mark ≤ s.history.length
  /-- Only a write of the query builder has committed before it empties the cache. -/
  fresh : t.stage ≠ .emptying → s.Fresh run t.mark
  stage : t.stage.Sound run s

structure Shared.Sound (run : Statement π → Effect τ (Answer ρ)) (s : Shared π ρ τ) : Prop where
  returned : s.returned ≤ s.history.length
  fresh : s.Fresh run s.returned

structure Evolves (run : Statement π → Effect τ (Answer ρ)) (s s' : Shared π ρ τ) : Prop where
  initial : s'.initial = s.initial
  history : s.history <+: s'.history
  fresh : ∀ n ≤ s.history.length, s.Fresh run n → s'.Fresh run n

theorem committed_of_prefix (initial : s'.initial = s.initial) (longer : s.history <+: s'.history)
    {k : Nat} {tables : τ} (there : s.committed k = some tables) : s'.committed k = some tables := by
  obtain ⟨more, same⟩ := longer
  unfold Shared.committed at there ⊢
  rw [initial, ← same, ← List.cons_append]
  rw [List.getElem?_append_left (List.getElem?_eq_some_iff.mp there).1]
  exact there

theorem Evolves.answered (h : Evolves run s s') {k : Nat} {own : List (Statement π)} {key : Key π}
    {value : Value ρ} (answered : s.Answered run k own key value) :
    s'.Answered run k own key value := by
  obtain ⟨tables, there, answer⟩ := answered
  exact ⟨tables, committed_of_prefix h.initial h.history there, answer⟩

theorem Evolves.current (h : Evolves run s s') {r : Reading π ρ} (current : r.Current run s) :
    r.Current run s' := by
  obtain ⟨k, late, answered⟩ := current
  exact ⟨k, late, h.answered answered⟩

theorem Evolves.begun (h : Evolves run s s') {c : Call π} (begun : c.Begun s) : c.Begun s' := by
  cases c with
  | fetch kind q since => exact Nat.le_trans begun h.history.length_le
  | _ => trivial

theorem Evolves.stage (h : Evolves run s s') {stage : Stage π ρ} (sound : stage.Sound run s) :
    stage.Sound run s' := by
  cases stage with
  | clearing c => exact h.begun sound
  | running c => exact h.begun sound
  | committing after =>
    cases after with
    | resume c => exact h.begun sound
    | store r => exact h.current sound
    | clear => trivial
    | leave => trivial
  | storing r => exact h.current sound
  | fetched r => exact h.current sound
  | _ => trivial

theorem Thread.Sound.beside (h : t.Sound run s) (evolves : Evolves run s s') : t.Sound run s' where
  marked := Nat.le_trans h.marked evolves.history.length_le
  fresh := fun quiet => evolves.fresh t.mark h.marked (h.fresh quiet)
  stage := evolves.stage h.stage

theorem Evolves.refl (s : Shared π ρ τ) : Evolves run s s := ⟨rfl, List.prefix_refl _, fun _ _ h => h⟩

theorem committed_latest (s : Shared π ρ τ) : s.committed s.history.length = some s.latest := by
  unfold Shared.committed Shared.latest
  cases s.history using List.reverseRecOn <;> simp

variable [DecidableEq π]

theorem lookup_fewer {now : Nat} {key : Key π} {hit : Option (Value ρ)}
    (got : s.lookup now key = (hit, s')) :
    ∃ cache, s' = { s with cache } ∧ (∀ e ∈ cache, e ∈ s.cache) ∧
      ∀ value ∈ hit, ∃ e ∈ s.cache, e.key = key ∧ e.value = value := by
  obtain ⟨rfl, rfl⟩ := by simpa [Shared.lookup] using got
  refine ⟨_, rfl, fun e => Lru.mem_of_mem_get, ?_⟩
  intro value found
  obtain ⟨e, member, same, kept, -⟩ := Lru.get_eq_some (Option.filter_eq_some_iff.mp found).1
  exact ⟨e, member, same, kept⟩

theorem answerTo_fewer {now : Nat} {request : Request π} {hit : Option (Key π × Value ρ)}
    (got : s.answerTo now request = (hit, s')) :
    ∃ cache, s' = { s with cache } ∧ (∀ e ∈ cache, e ∈ s.cache) ∧
      ∀ found ∈ hit, ∃ e ∈ s.cache, e.key = found.1 ∧ e.value = found.2 := by
  cases request with
  | fetch kind q =>
    cases looked : s.lookup now ⟨kind, q⟩ with
    | mk value u =>
      obtain ⟨rfl, rfl⟩ := by simpa [Shared.answerTo, looked] using got
      obtain ⟨cache, same, fewer, kept⟩ := lookup_fewer looked
      refine ⟨cache, same, fewer, ?_⟩
      intro found hit
      obtain ⟨value, here, rfl⟩ := Option.mem_map.mp hit
      exact kept value here
  | _ =>
    obtain ⟨rfl, rfl⟩ := by simpa [Shared.answerTo] using got
    exact ⟨s.cache, rfl, fun _ => id, by simp⟩

omit [DecidableEq π] in
theorem evolves_fewer {cache : QueryCache π ρ} (fewer : ∀ e ∈ cache, e ∈ s.cache) (returned : Nat) :
    Evolves run s { s with cache, returned } where
  initial := rfl
  history := List.prefix_refl _
  fresh := fun _ _ fresh e member => fresh e (fewer e member)

omit [DecidableEq π] in
theorem evolves_clear : Evolves run s { s with cache := .empty } where
  initial := rfl
  history := List.prefix_refl _
  fresh := fun _ _ _ => Lru.holds_empty

theorem evolves_store {r : Reading π ρ} (current : s.Answered run s.history.length [] r.key r.value)
    (stored : Nat) : Evolves run s (s.store stored r) where
  initial := rfl
  history := List.prefix_refl _
  fresh := fun _ early fresh => Lru.Holds.put fresh ⟨s.history.length, early, current⟩ _

omit [DecidableEq π] in
theorem evolves_append (tables : τ) :
    Evolves run s { s with history := s.history ++ [tables] } where
  initial := rfl
  history := List.prefix_append _ _
  fresh := by
    intro n _ fresh
    refine fresh.imp fun e _ kept => ?_
    obtain ⟨k, late, before, found, answered⟩ := kept
    refine ⟨k, late, before, committed_of_prefix ?_ (List.prefix_append _ _) found, answered⟩
    rfl

/-- What a step makes of the shared state, of its thread and, through `Evolves`, of the others. -/
structure Steps (run : Statement π → Effect τ (Answer ρ)) (s s' : Shared π ρ τ)
    (t' : Thread π ρ) : Prop where
  evolves : Evolves run s s'
  shared : s'.Sound run
  own : t'.Sound run s'

omit [DecidableEq π] in
theorem Shared.Sound.finished (sound : s.Sound run) (t : Thread π ρ) : t.finished.Sound run s where
  marked := Nat.zero_le _
  fresh := fun _ => sound.fresh.imp fun _ _ ⟨k, _, answered⟩ => ⟨k, Nat.zero_le _, answered⟩
  stage := trivial

omit [DecidableEq π] in
theorem view_latest {seen : Nat} {tables : τ} (viewed : t.view run s seen = some tables)
    (latest : t.transaction ≠ [] → s.committed seen = some s.latest) :
    tables = replay run t.own s.latest := by
  unfold Thread.view at viewed
  split at viewed
  · exact (Option.some.inj viewed).symm
  · rename_i inside
    rw [latest fun outside => inside outside] at viewed
    exact (Option.some.inj viewed).symm

omit [DecidableEq π] in
@[simp] theorem add_mark (t : Thread π ρ) (q : Statement π) : (t.add q).mark = t.mark := by
  unfold Thread.add
  split <;> rfl

omit [DecidableEq π] in
@[simp] theorem ran_mark (t : Thread π ρ) (onward : After π ρ) (inside : Stage π ρ) :
    (t.ran onward inside).mark = t.mark := by
  unfold Thread.ran
  split <;> rfl

omit [DecidableEq π] in
theorem ran_sound {onward : After π ρ} {inside : Stage π ρ} (out : onward.Sound run s)
    (within : inside.Sound run s) : (t.ran onward inside).stage.Sound run s := by
  unfold Thread.ran
  split
  · exact out
  · exact within

theorem answered_of_map {ε α β : Type} {x : Except ε (α × β)} {a : α}
    (h : x.map Prod.fst = .ok a) : ∃ b, x = .ok (a, b) := by
  cases x with
  | error e => cases h
  | ok r =>
    cases h
    exact ⟨r.2, rfl⟩

omit [DecidableEq π] in
theorem opened_begun {request : Request π} {c : Call π} (returned : s.returned ≤ s.history.length)
    (opens : opened engine s.returned request = .ok c) : c.Begun s := by
  cases request with
  | fetch kind q =>
    cases opens
    exact returned
  | insertOrIgnore table columns values =>
    simp only [opened] at opens
    cases generated : insertOrIgnoreStatement engine table columns values <;>
      rw [generated] at opens <;> cases opens
    trivial
  | upsert table columns values conflict update =>
    simp only [opened] at opens
    cases generated : upsertStatement engine table columns values conflict update <;>
      rw [generated] at opens <;> cases opens
    trivial
  | _ =>
    cases opens
    trivial

omit [DecidableEq π] in
theorem advance_sound {c : Call π} {seen : Nat} (begun : c.Begun s)
    (latest : ∀ kind q since, c = .fetch kind q since →
      t.transaction ≠ [] → s.committed seen = some s.latest)
    (moved : t.advance run engine s seen c = some t') :
    t'.mark = t.mark ∧ t'.stage.Sound run s := by
  cases c with
  | fetch kind q since =>
    obtain ⟨tables, viewed, moved⟩ := Option.bind_eq_some_iff.mp moved
    obtain ⟨⟨answer, tables'⟩, answered, moved⟩ := Option.bind_eq_some_iff.mp moved
    obtain rfl := Option.some.inj moved
    obtain rfl := view_latest viewed (latest kind q since rfl)
    have current : (⟨⟨kind, q⟩, kind.value answer, since, t.own⟩ : Reading π ρ).Current run s :=
      ⟨s.history.length, begun, s.latest, committed_latest s, answer, tables',
        Checks.toOption_eq_some answered, rfl⟩
    exact ⟨by simp, ran_sound current current⟩
  | write clears autoCommit qs =>
    cases qs with
    | nil =>
      cases autoCommit with
      | false =>
        cases moved
        exact ⟨rfl, trivial⟩
      | true =>
        cases moved
        exact ⟨by simp, ran_sound trivial trivial⟩
    | cons q qs =>
      obtain ⟨tables, -, moved⟩ := Option.bind_eq_some_iff.mp moved
      obtain ⟨_, -, moved⟩ := Option.bind_eq_some_iff.mp moved
      cases engine with
      | sqlite =>
        cases moved
        exact ⟨by simp, ran_sound trivial trivial⟩
      | postgres =>
        cases moved
        exact ⟨add_mark t q, trivial⟩
  | build q =>
    obtain ⟨tables, -, moved⟩ := Option.bind_eq_some_iff.mp moved
    obtain ⟨_, -, moved⟩ := Option.bind_eq_some_iff.mp moved
    cases moved
    exact ⟨by simp, ran_sound trivial trivial⟩
  | beginTransaction =>
    cases moved
    exact ⟨rfl, trivial⟩
  | commit =>
    simp only [Thread.advance] at moved
    split at moved <;> cases moved <;> exact ⟨rfl, trivial⟩
  | rollback =>
    simp only [Thread.advance] at moved
    split at moved <;> cases moved <;> exact ⟨rfl, trivial⟩

omit [DecidableEq π] in
theorem Shared.Sound.evolved (h : s.Sound run) (evolves : Evolves run s s')
    (same : s'.returned = s.returned) : s'.Sound run where
  returned := by
    rw [same]
    exact Nat.le_trans h.returned evolves.history.length_le
  fresh := by
    rw [same]
    exact evolves.fresh s.returned h.returned h.fresh

omit [DecidableEq π] in
theorem Shared.Sound.returns (h : s.Sound run) (fresh : s.Fresh run t.mark)
    (marked : t.mark ≤ s.history.length) :
    Steps run s { s with returned := max s.returned t.mark } t.finished := by
  have both : s.Fresh run (max s.returned t.mark) := by
    rcases le_total s.returned t.mark with later | earlier
    · rwa [max_eq_right later]
    · rw [max_eq_left earlier]
      exact h.fresh
  have sound : ({ s with returned := max s.returned t.mark } : Shared π ρ τ).Sound run :=
    ⟨max_le h.returned marked, both⟩
  exact ⟨evolves_fewer (fun _ => id) _, sound, sound.finished t⟩

variable [DecidableEq τ]

omit [DecidableEq π] in
theorem publish_steps {after : After π ρ} (sound : s.Sound run) (own : t.Sound run s)
    (here : t.stage = .committing after)
    (quiet : after = .clear ∨ (replay run t.own s.latest ≠ s.latest → ∀ e ∈ s.cache,
      ∃ answer tables', run e.key.statement (replay run t.own s.latest) = .ok (answer, tables') ∧
        e.key.kind.value answer = e.value)) :
    Steps run s (publish run s t after).1 (publish run s t after).2 := by
  have stage := own.stage
  rw [here] at stage
  have onward : after.stage.Sound run s := by
    cases after with
    | resume c => exact stage
    | store r => exact stage
    | clear => trivial
    | leave => trivial
  by_cases changed : replay run t.own s.latest = s.latest
  · simp only [publish, changed, if_true]
    exact ⟨.refl s, sound, own.marked, fun _ => own.fresh (by simp [here]), onward⟩
  · simp only [publish, changed, if_false]
    have evolves : Evolves run s { s with history := s.history ++ [replay run t.own s.latest] } :=
      evolves_append _
    refine ⟨evolves, sound.evolved evolves rfl, ?_, ?_, evolves.stage onward⟩
    · simp
    · intro waiting e member
      rcases quiet with rfl | quiet
      · exact absurd rfl waiting
      · obtain ⟨answer, tables', answered, value⟩ := quiet changed e member
        refine ⟨s.history.length + 1, Nat.le_refl _, replay run t.own s.latest, ?_, answer, tables',
          answered, value⟩
        simp [Shared.committed]

theorem next_steps (sound : s.Sound run) (own : t.Sound run s) (undisturbed : Undisturbed run s t a)
    (moved : next run engine s t a = some (s', t')) : Steps run s s' t' := by
  cases a with
  | start request now =>
    cases here : t.stage with
    | idle =>
      cases got : s.answerTo now request with
      | mk hit u =>
        obtain ⟨cache, rfl, fewer, kept⟩ := answerTo_fewer got
        have evolves : Evolves run s { s with cache } := evolves_fewer fewer s.returned
        have onward : ∀ stage : Stage π ρ, stage.Sound run { s with cache } →
            Steps run s { s with cache } { t with stage } := fun stage held =>
          ⟨evolves, sound.evolved evolves rfl, own.marked,
            fun _ => evolves.fresh _ own.marked (own.fresh (by simp [here])), held⟩
        cases hit with
        | some found =>
          obtain ⟨key, value⟩ := found
          obtain ⟨rfl, rfl⟩ := by simpa [next, here, got] using moved
          obtain ⟨e, member, rfl, rfl⟩ := kept _ rfl
          refine onward (.fetched _) ?_
          obtain ⟨k, late, tables, found, answer, tables', answered, value⟩ := sound.fresh e member
          simp only [Undisturbed, here, got] at undisturbed
          have same := undisturbed _ rfl tables
          have plain : run e.key.statement tables = .ok (answer, tables') := answered
          rw [plain] at same
          obtain ⟨tables'', answered⟩ := answered_of_map same
          exact ⟨k, late, tables, found, answer, tables'', answered, value⟩
        | none =>
          simp only [next, here, got] at moved
          cases opens : opened engine s.returned request with
          | error _ =>
            rw [opens] at moved
            cases moved
            exact onward t.stage (by rw [here]; trivial)
          | ok c =>
            rw [opens] at moved
            cases moved
            exact onward (.clearing c) (opened_begun sound.returned opens)
    | _ => simp [next, here] at moved
  | fail cleanup =>
    simp only [next] at moved
    split at moved
    · cases moved
    · cases moved
      exact ⟨.refl s, sound, sound.finished _⟩
  | go seen stored =>
    cases here : t.stage with
    | idle => simp [next, here] at moved
    | clearing c =>
      have begun := own.stage
      rw [here] at begun
      simp only [next, here] at moved
      cases moved
      split
      · have evolves : Evolves run s { s with cache := .empty } := evolves_clear
        exact ⟨evolves, sound.evolved evolves rfl, own.marked, fun _ => Lru.holds_empty, begun⟩
      · exact ⟨.refl s, sound, own.marked, fun _ => own.fresh (by simp [here]), begun⟩
    | running c =>
      have begun := own.stage
      rw [here] at begun
      obtain ⟨u, advanced, same⟩ : ∃ u, t.advance run engine s seen c = some u ∧ (s, u) = (s', t') := by
        simpa only [next, here, Option.map_eq_some_iff] using moved
      cases same
      have latest : ∀ kind q since, c = .fetch kind q since →
          t.transaction ≠ [] → s.committed seen = some s.latest := by
        rintro kind q since rfl
        simpa [Undisturbed, here] using undisturbed
      obtain ⟨mark, stage⟩ := advance_sound begun latest advanced
      refine ⟨.refl s, sound, mark ▸ own.marked, fun _ => ?_, stage⟩
      rw [mark]
      exact own.fresh (by simp [here])
    | committing after =>
      simp only [next, here] at moved
      show Steps run s (s', t').1 (s', t').2
      rw [← Option.some.inj moved]
      refine publish_steps sound own here ?_
      cases after with
      | clear => exact .inl rfl
      | _ => exact .inr (by simpa [Undisturbed, here] using undisturbed)
    | emptying =>
      simp only [next, here] at moved
      cases moved
      have evolves : Evolves run s { s with cache := .empty } := evolves_clear
      exact ⟨evolves, sound.evolved evolves rfl, own.marked, fun _ => Lru.holds_empty, trivial⟩
    | storing r =>
      have current := own.stage
      rw [here] at current
      simp only [next, here] at moved
      cases moved
      have evolves : Evolves run s (s.store stored r) :=
        evolves_store (by simpa [Undisturbed, here] using undisturbed) stored
      exact ⟨evolves, sound.evolved evolves rfl, own.marked,
        fun _ => evolves.fresh _ own.marked (own.fresh (by simp [here])), evolves.current current⟩
    | returning =>
      simp only [next, here] at moved
      cases moved
      exact sound.returns (own.fresh (by simp [here])) own.marked
    | fetched r =>
      simp only [next, here] at moved
      cases moved
      exact sound.returns (own.fresh (by simp [here])) own.marked

end Soundness

section Currency

variable {ι : Type} [DecidableEq ι] [DecidableEq π] [DecidableEq τ]

structure Initial (s : State ι (Shared π ρ τ) (Thread π ρ)) : Prop where
  history : s.shared.history = []
  returned : s.shared.returned = 0
  cache : s.shared.cache = .empty
  idle : ∀ i, (s.pc i).stage = .idle
  unmarked : ∀ i, (s.pc i).mark = 0

end Currency

section Runs

def oneTable (q : Statement Nat) : Effect (List Nat) (Answer Nat) := fun rows =>
  if startsWith q.upperQuery ["SELECT"] then .ok (⟨rows, 0⟩, rows)
  else .ok (⟨[], 1⟩, rows ++ [q.params])

def quietStart : State Bool (Shared Nat Nat (List Nat)) (Thread Nat Nat) :=
  ⟨⟨[], [], .empty, 0⟩, fun _ => ⟨[], [], 0, .idle⟩⟩

theorem quietStart_initial : Initial quietStart :=
  ⟨rfl, rfl, rfl, fun _ => rfl, fun _ => rfl⟩

def asks (i : Bool) : Bool × Action Nat := (i, .start (.fetch .all ⟨"SELECT n FROM t".toList, 0⟩) 0)

def inserts (i : Bool) : Bool × Action Nat :=
  (i, .start (.execute ⟨"INSERT INTO t (n) VALUES (?)".toList, 1⟩ true) 0)

def goes (i : Bool) : Bool × Action Nat := (i, .go 0 0)

def slowRead : List (Bool × Action Nat) :=
  [asks true, goes true, goes true, goes true] ++
    [inserts false, goes false, goes false, goes false, goes false, goes false] ++
    [goes true, goes true, asks true]

def readInside : List (Bool × Action Nat) :=
  [(false, .start .beginTransaction 0), goes false, goes false, goes false] ++
    [inserts false, goes false, goes false, goes false, goes false] ++
    [asks false, goes false, goes false, goes false, asks true]

def selectAll : Key Nat := ⟨.all, ⟨"SELECT n FROM t".toList, 0⟩⟩

theorem not_current_of_old {s : Shared Nat Nat (List Nat)} {r : Reading Nat Nat}
    (initial : s.initial = []) (history : s.history = [[1]]) (since : r.since = 1) (own : r.own = [])
    (key : r.key = selectAll) (value : r.value = .all []) : ¬r.Current oneTable s := by
  rintro ⟨k, late, tables, there, answer, tables', answered, same⟩
  rw [since] at late
  rw [own, key] at answered
  rw [key, value] at same
  unfold Shared.committed at there
  rw [initial, history] at there
  match k, late with
  | 1, _ =>
    cases there
    cases answered
    cases same
  | k + 2, _ => cases there

theorem not_current_of_uncommitted {s : Shared Nat Nat (List Nat)} {r : Reading Nat Nat}
    (initial : s.initial = []) (history : s.history = []) (own : r.own = [])
    (key : r.key = selectAll) (value : r.value = .all [1]) : ¬r.Current oneTable s := by
  rintro ⟨k, -, tables, there, answer, tables', answered, same⟩
  rw [own, key] at answered
  rw [key, value] at same
  unfold Shared.committed at there
  rw [initial, history] at there
  match k with
  | 0 =>
    cases there
    cases answered
    cases same
  | k + 1 => cases there

def reading : Reading Nat Nat := ⟨selectAll, .all [], 0, []⟩

end Runs

end Plexichat.Database.Threads
