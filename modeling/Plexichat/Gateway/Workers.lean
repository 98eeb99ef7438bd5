import Mathlib.Logic.Function.Basic
import Plexichat.Gateway.Session
import Plexichat.Library.Transition

/-! api/websocket/session.py: one session on several workers. Each worker keeps a copy of the
session and prefers it; the Valkey store has the copy that was persisted last. Store
operations succeed and no copy has timed out. -/
namespace Plexichat.Gateway.Workers
open Transition

variable {ι κ β : Type}

structure Copy (κ β : Type) where
  session : Session β
  connectionId : Option κ

/-- `connections` are the READY connections of the session: the worker each is on, and its
number. `recorded` are the events that got a number, and `continued` the numbers from which a
resumed connection goes on, with the events recorded until then. -/
structure State (ι κ β : Type) where
  shared : Option (Session β)
  copies : ι → Option (Copy κ β)
  connections : κ → Option (ι × Nat)
  recorded : List (Payload β)
  continued : List (Nat × List (Payload β))

inductive Action (ι κ β : Type) where
  | record (c : κ) (e : β)
  | resume (w : ι) (c : κ) (sequence : Nat)

namespace State

/-- `get_session`: the worker's own copy, or else the shared one without a connection. -/
def getSession (s : State ι κ β) (w : ι) : Option (Copy κ β) :=
  match s.copies w with
  | some copy => some copy
  | none => s.shared.map fun session => ⟨session, none⟩

variable [DecidableEq ι] [DecidableEq κ]

/-- `create_session` on a worker that has accepted the connection. -/
def created (w : ι) (c : κ) : State ι κ β where
  shared := some ⟨0, []⟩
  copies := Function.update (fun _ => none) w (some ⟨⟨0, []⟩, some c⟩)
  connections := Function.update (fun _ => none) c (some (w, 0))
  recorded := []
  continued := []

def persist (s : State ι κ β) (w : ι) (copy : Copy κ β) : State ι κ β :=
  { s with
    shared := some copy.session
    copies := Function.update s.copies w (some copy) }

/-- `increment_sequence` on a connection, and `record_event` of the payload. -/
def record (max : Nat) (s : State ι κ β) (c : κ) (e : β) : Option (State ι κ β) :=
  (s.connections c).map fun (w, n) =>
    let payload : Payload β := ⟨n + 1, e⟩
    let counted : State ι κ β :=
      { s with
        connections := Function.update s.connections c (some (w, n + 1))
        recorded := s.recorded ++ [payload] }
    match s.getSession w with
    | some copy => counted.persist w { copy with session := copy.session.recordEvent max payload }
    | none => counted

def resume (s : State ι κ β) (w : ι) (c : κ) (sequence : Nat) : Option (State ι κ β) :=
  (s.getSession w).map fun copy =>
    let session := copy.session.resume sequence
    let released := match copy.connectionId with
      | some old => Function.update s.connections old none
      | none => s.connections
    let attached : State ι κ β :=
      { s with
        connections := Function.update released c (some (w, session.sequence))
        continued := (session.sequence, s.recorded) :: s.continued }
    attached.persist w ⟨session, some c⟩

def step (max : Nat) (s : State ι κ β) : Action ι κ β → Option (State ι κ β)
  | .record c e => s.record max c e
  | .resume w c sequence => s.resume w c sequence

end State

/-- No two different events have one number, and nobody goes on from a number below one that
was recorded. -/
structure Forward (s : State ι κ β) : Prop where
  distinct : s.recorded.Pairwise fun p q => p.s = q.s → p.body = q.body
  onward : ∀ r ∈ s.continued, ∀ p ∈ r.2, p.s ≤ r.1

def Sent (s : State ι κ β) : Action ι κ β → Prop
  | .record _ _ => True
  | .resume _ _ sequence => sequence ≤ highest Payload.s s.recorded

/-- A connection that numbers an event is not behind the shared session, and neither is the
copy of a worker that resumes, unless the client is ahead of it. -/
def Current (s : State ι κ β) : Action ι κ β → Prop
  | .record c _ => ∀ r ∈ s.connections c, ∀ session ∈ s.shared, session.sequence ≤ r.2
  | .resume w _ sequence => ∀ copy ∈ s.copies w, ∀ session ∈ s.shared,
      session.sequence ≤ Nat.max copy.session.sequence sequence

theorem forall_update {α γ : Type} [DecidableEq α] {f : α → Option γ} {P : γ → Prop}
    (h : ∀ x, ∀ y ∈ f x, P y) {a : α} {v : Option γ} (hv : ∀ y ∈ v, P y) :
    ∀ x, ∀ y ∈ Function.update f a v x, P y := by
  intro x
  by_cases here : x = a
  · rw [here, Function.update_self]
    exact hv
  · rw [Function.update_of_ne here]
    exact h x

instance (s : State ι κ β) (a : Action ι κ β) : Decidable (Sent s a) := by
  cases a <;> unfold Sent <;> infer_instance

instance (s : State ι κ β) (a : Action ι κ β) : Decidable (Current s a) := by
  cases a <;> unfold Current <;> infer_instance

structure Inv (s : State ι κ β) : Prop where
  shared : ∃ session, s.shared = some session ∧ session.sequence = highest Payload.s s.recorded
  copies : ∀ w, ∀ copy ∈ s.copies w, copy.session.sequence ≤ highest Payload.s s.recorded
  connections : ∀ c, ∀ r ∈ s.connections c, r.2 ≤ highest Payload.s s.recorded
  forward : Forward s

variable [DecidableEq ι] [DecidableEq κ] {max : Nat} {s t : State ι κ β}

theorem inv_created (w : ι) (c : κ) : Inv (State.created w c : State ι κ β) where
  shared := ⟨⟨0, []⟩, rfl, rfl⟩
  copies := forall_update (fun _ _ never => nomatch never) (by simp)
  connections := forall_update (fun _ _ never => nomatch never) (by simp)
  forward := ⟨.nil, fun _ never => nomatch never⟩

omit [DecidableEq ι] [DecidableEq κ] in
theorem Inv.getSession (h : Inv s) (w : ι) :
    ∃ copy, s.getSession w = some copy ∧ copy.session.sequence ≤ highest Payload.s s.recorded := by
  cases held : s.copies w with
  | some copy => exact ⟨copy, by simp [State.getSession, held], h.copies w copy held⟩
  | none =>
    obtain ⟨session, shared, top⟩ := h.shared
    exact ⟨⟨session, none⟩, by simp [State.getSession, held, shared], Nat.le_of_eq top⟩

theorem Inv.record {c : κ} {e : β} (h : Inv s) (current : Current s (.record c e))
    (next : s.record max c e = some t) : Inv t := by
  obtain ⟨⟨w, n⟩, connected, rfl⟩ := Option.map_eq_some_iff.mp next
  obtain ⟨session, shared, top⟩ := h.shared
  have number : n = highest Payload.s s.recorded :=
    Nat.le_antisymm (h.connections c _ connected) (top ▸ current _ connected session shared)
  let p : Payload β := ⟨n + 1, e⟩
  have raised : highest Payload.s (s.recorded ++ [p]) = n + 1 := by
    rw [highest_append, ← number]
    exact Nat.max_eq_right (Nat.le_succ n)
  have lower : ∀ {m}, m ≤ highest Payload.s s.recorded → m ≤ n + 1 :=
    fun le => Nat.le_succ_of_le (number ▸ le)
  have distinct : (s.recorded ++ [p]).Pairwise fun p q => p.s = q.s → p.body = q.body := by
    refine List.pairwise_append.mpr ⟨h.forward.distinct, List.pairwise_singleton _ _, ?_⟩
    intro q recorded r last same
    have low : q.s ≤ highest Payload.s s.recorded := le_highest recorded
    obtain rfl := List.mem_singleton.mp last
    have : q.s = n + 1 := same
    omega
  obtain ⟨copy, found, behind⟩ := h.getSession w
  have recorded : (copy.session.recordEvent max p).sequence = n + 1 :=
    Nat.max_eq_right (lower behind)
  simp only [found]
  refine ⟨⟨_, rfl, recorded.trans raised.symm⟩, ?_, ?_, distinct, h.forward.onward⟩
  · show ∀ v, ∀ other ∈ Function.update s.copies w _ v, _ ≤ highest Payload.s (s.recorded ++ [p])
    rw [raised]
    refine forall_update (fun v other held => lower (h.copies v other held)) ?_
    intro other same
    cases same
    exact Nat.le_of_eq recorded
  · show ∀ d, ∀ r ∈ Function.update s.connections c _ d, _ ≤ highest Payload.s (s.recorded ++ [p])
    rw [raised]
    refine forall_update (fun d r ready => lower (h.connections d r ready)) ?_
    intro r same
    cases same
    exact Nat.le_refl _

theorem Inv.resume {w : ι} {c : κ} {sequence : Nat} (h : Inv s)
    (sent : Sent s (.resume w c sequence)) (current : Current s (.resume w c sequence))
    (next : s.resume w c sequence = some t) : Inv t := by
  obtain ⟨copy, found, rfl⟩ := Option.map_eq_some_iff.mp next
  obtain ⟨session, shared, top⟩ := h.shared
  have number : (copy.session.resume sequence).sequence = highest Payload.s s.recorded := by
    show Nat.max copy.session.sequence sequence = _
    obtain ⟨same, found', behind⟩ := h.getSession w
    cases Option.some.inj (found.symm.trans found')
    refine Nat.le_antisymm (Nat.max_le.mpr ⟨behind, sent⟩) ?_
    cases held : s.copies w with
    | some own =>
      have mine : own = copy := by simpa [State.getSession, held] using found
      exact mine ▸ top ▸ current own held session shared
    | none =>
      have loaded : copy.session = session := by
        have := found
        simp only [State.getSession, held, shared, Option.map_some, Option.some.injEq] at this
        exact this ▸ rfl
      rw [loaded, top]
      exact Nat.le_max_left _ _
  refine ⟨⟨_, rfl, number⟩, ?_, ?_, h.forward.distinct, ?_⟩
  · refine forall_update h.copies ?_
    intro other same
    cases same
    exact Nat.le_of_eq number
  · refine forall_update ?_ ?_
    · cases copy.connectionId with
      | none => exact h.connections
      | some old => exact forall_update h.connections (fun _ never => nomatch never)
    · intro r same
      cases same
      exact Nat.le_of_eq number
  · intro r continued p before
    cases continued with
    | head => exact number ▸ le_highest before
    | tail _ earlier => exact h.forward.onward r earlier p before

/-- In every run in which nobody numbers an event or resumes from behind the shared session,
the numbers only go forward. -/
theorem session_sequence_forward {max : Nat} {w : ι} {c : κ} {s : State ι κ β}
    (run : Guarded (State.step max) (fun s a => Sent s a ∧ Current s a)
      (· = State.created w c) s) : Forward s := by
  have inv : Inv s := by
    refine guarded_invariant (fun s start => start ▸ inv_created w c) ?_ run
    intro s a t h ok next
    cases a with
    | record c e => exact h.record ok.2 next
    | resume w c sequence => exact h.resume ok.1 ok.2 next
  exact inv.forward

def movingRun : List (Action Bool Nat Nat) :=
  [.record 0 0, .resume true 1 1, .record 1 1, .record 1 2, .resume false 2 3, .record 2 3]

theorem session_sequence_forward_moving :
    ∃ s : State Bool Nat Nat, s.recorded.map Payload.s = [1, 2, 3, 4] ∧ Forward s := by
  let s : State Bool Nat Nat := (runGuarded (State.step MAX_REPLAY_EVENTS)
    (fun s a => Sent s a ∧ Current s a) (State.created false 0) movingRun).get rfl
  have run : Guarded (State.step MAX_REPLAY_EVENTS) (fun s a => Sent s a ∧ Current s a)
      (· = State.created false 0) s :=
    guarded_of_run (s := State.created false 0) movingRun rfl (Option.some_get _).symm
  exact ⟨s, by decide, session_sequence_forward run⟩

def numbers (actions : List (Action Bool Nat Nat)) : Option (List (Nat × Nat) × List Nat) :=
  (runGuarded (State.step MAX_REPLAY_EVENTS) Sent (State.created false 0) actions).map fun s =>
    (s.recorded.map fun p => (p.s, p.body), s.continued.map Prod.fst)

def returnRun : List (Action Bool Nat Nat) :=
  [.record 0 0, .resume true 1 1, .record 1 1, .record 1 2, .resume false 2 2, .record 2 3]

def leftBehindRun : List (Action Bool Nat Nat) :=
  [.record 0 0, .resume true 1 1, .record 1 1, .record 0 2]

theorem session_sequence_goes_back :
    (¬ ∀ s : State Bool Nat Nat, Guarded (State.step MAX_REPLAY_EVENTS) Sent
      (· = State.created false 0) s → Forward s) ∧
    numbers returnRun = some ([(1, 0), (2, 1), (3, 2), (3, 3)], [2, 1]) ∧
    numbers leftBehindRun = some ([(1, 0), (2, 1), (2, 2)], [1]) := by
  refine ⟨?_, by decide, by decide⟩
  intro law
  let s : State Bool Nat Nat := (runGuarded (State.step MAX_REPLAY_EVENTS) Sent
    (State.created false 0) returnRun).get rfl
  have run : Guarded (State.step MAX_REPLAY_EVENTS) Sent (· = State.created false 0) s :=
    guarded_of_run (s := State.created false 0) returnRun rfl (Option.some_get _).symm
  exact absurd (law s run).distinct (by decide)

end Plexichat.Gateway.Workers
