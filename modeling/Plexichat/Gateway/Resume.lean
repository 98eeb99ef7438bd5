import Plexichat.Gateway.Session
import Plexichat.Library.Transition

/-! api/websocket: one session over its connections. An event is numbered by the connection
and recorded in the session; RESUME attaches a new connection, the reply is the RESUMED frame,
and what the client missed is sent again by a loop of its own. -/
namespace Plexichat.Gateway.Resume
open Transition

variable {ε : Type}

/-- DISPATCH frames: an event of the user (READY is the first one) or the reply to RESUME. -/
inductive Frame (ε : Type) where
  | event (p : Payload ε)
  | resumed (s : Nat)
  deriving DecidableEq

def Frame.s : Frame ε → Nat
  | .event p => p.s
  | .resumed s => s

def events : List (Frame ε) → List (Payload ε)
  | [] => []
  | .event p :: fs => p :: events fs
  | .resumed _ :: fs => events fs

/-- What the message loop still has to do for RESUME: the reply is being sent, and the
events after `seq` come next; or they are being sent one by one. -/
inductive Resuming (ε : Type) where
  | announced (seq : Nat)
  | replaying (rest : List (Payload ε))
  deriving DecidableEq

/-- `connection` is the number of the last event on the READY connection registered for the
session. The socket is `online` until frames no longer reach the client; `outbox` are the
frames on their way. `dispatched` records what was to be delivered. -/
structure State (ε : Type) where
  session : Session ε
  connection : Option Nat
  online : Bool
  outbox : List (Frame ε)
  resuming : Resuming ε
  received : List (Frame ε)
  dispatched : List ε

/-- After `create_session`; READY has not been built yet. -/
def created : State ε := ⟨⟨0, []⟩, some 0, true, [], .replaying [], [], []⟩

inductive Action (ε : Type) where
  | dispatch (e : ε)
  | resume
  | startReplay
  | replayNext
  | receive
  | lose
  | cleanup
  deriving DecidableEq

namespace State

def send (s : State ε) (f : Frame ε) : List (Frame ε) :=
  if s.online then s.outbox ++ [f] else s.outbox

/-- `dispatch_event` for one user: without a registered connection there is nothing to do. -/
def dispatch (max : Nat) (s : State ε) (e : ε) : State ε :=
  match s.connection with
  | none => { s with dispatched := s.dispatched ++ [e] }
  | some n =>
    { s with
      session := s.session.recordEvent max ⟨n + 1, e⟩
      connection := some (n + 1)
      outbox := s.send (.event ⟨n + 1, e⟩)
      dispatched := s.dispatched ++ [e] }

/-- `handle_resume` with the largest `s` that the client has received. -/
def resume (s : State ε) : State ε :=
  let seq := highest Frame.s s.received
  let session := s.session.resume seq
  { s with
    session := session
    connection := some session.sequence
    online := true
    outbox := [.resumed session.sequence]
    resuming := .announced seq }

def step (max : Nat) (s : State ε) : Action ε → Option (State ε)
  | .dispatch e => some (s.dispatch max e)
  | .resume => if s.online then none else some s.resume
  | .startReplay =>
    match s.resuming with
    | .announced seq => some { s with resuming := .replaying (s.session.getReplayEvents seq) }
    | .replaying _ => none
  | .replayNext =>
    match s.resuming with
    | .replaying (p :: rest) =>
      some { s with outbox := s.send (.event p), resuming := .replaying rest }
    | _ => none
  | .receive =>
    match s.outbox with
    | f :: fs => some { s with outbox := fs, received := s.received ++ [f] }
    | [] => none
  | .lose => if s.online then some { s with online := false, outbox := [] } else none
  | .cleanup => if s.online then none else some { s with connection := none }

def CaughtUp (s : State ε) : Prop :=
  s.online = true ∧ s.outbox = [] ∧ s.resuming = .replaying []

instance (s : State ε) [DecidableEq ε] : Decidable s.CaughtUp :=
  inferInstanceAs (Decidable (_ ∧ _ ∧ _))

/-- The client has the events once each and in order: a part of them from the first on, and
all of them when it has caught up. -/
structure Complete (s : State ε) : Prop where
  increasing : (events s.received).Pairwise fun p q => p.s < q.s
  once : (events s.received).map Payload.body <+: s.dispatched
  all : s.CaughtUp → (events s.received).map Payload.body = s.dispatched

/-- At most `max` events are dispatched and not received yet. -/
def Bounded (max : Nat) (s : State ε) : Action ε → Prop
  | .dispatch _ => s.dispatched.length < (events s.received).length + max
  | _ => True

/-- An event comes when a connection is registered and no replay is under way, and the
connection is lost when the client has every recorded event up to its largest `s`. -/
def Undisturbed (s : State ε) : Action ε → Prop
  | .dispatch _ => s.connection.isSome ∧ s.resuming = .replaying []
  | .lose => ∀ p ∈ s.session.replayEvents, p.s ≤ highest Frame.s s.received → .event p ∈ s.received
  | _ => True

end State

@[simp] theorem events_append (fs gs : List (Frame ε)) :
    events (fs ++ gs) = events fs ++ events gs := by
  induction fs with
  | nil => rfl
  | cons f fs ih => cases f <;> simp [events, ih]

theorem mem_events {fs : List (Frame ε)} {p : Payload ε} : p ∈ events fs ↔ .event p ∈ fs := by
  induction fs with
  | nil => simp [events]
  | cons f fs ih => cases f <;> simp [events, ih]

namespace State

def pending (s : State ε) : List (Payload ε) :=
  match s.resuming with
  | .announced seq => s.session.getReplayEvents seq
  | .replaying rest => rest

def count (s : State ε) : Nat := (events s.received).length

def all (s : State ε) : List (Payload ε) := numbered 0 s.dispatched

instance (max : Nat) (s : State ε) (a : Action ε) : Decidable (s.Bounded max a) := by
  cases a <;> unfold Bounded <;> infer_instance

instance [DecidableEq ε] (s : State ε) (a : Action ε) : Decidable (s.Undisturbed a) := by
  cases a <;> unfold Undisturbed <;> infer_instance

structure Inv (max : Nat) (s : State ε) : Prop where
  sequence : s.session.sequence = s.dispatched.length
  buffer : s.session.replayEvents = s.all.drop (s.dispatched.length - max)
  number : ∀ n, s.connection = some n → n = s.dispatched.length
  registered : s.online = true → s.connection.isSome
  taken : events s.received = s.all.take s.count
  few : s.count ≤ s.dispatched.length
  room : s.dispatched.length ≤ s.count + max
  least : s.count ≤ highest Frame.s s.received
  most : highest Frame.s s.received ≤ s.dispatched.length
  replies : ∀ n, .resumed n ∈ s.outbox → n ≤ s.dispatched.length
  coming : s.online = true → events s.outbox ++ s.pending = s.all.drop s.count
  silent : s.online = false → s.outbox = [] ∧ highest Frame.s s.received = s.count

variable {max : Nat} {s : State ε}

theorem inv_created : Inv max (created : State ε) := by
  constructor <;> simp [created, all, count, events, highest, pending]

theorem all_length (s : State ε) : s.all.length = s.dispatched.length := numbered_length 0 _

theorem Inv.dispatch (h : s.Inv max) (e : ε) (bounded : s.Bounded max (.dispatch e))
    (undisturbed : s.Undisturbed (.dispatch e)) : (s.dispatch max e).Inv max := by
  obtain ⟨registered, idle⟩ := undisturbed
  obtain ⟨n, connected⟩ := Option.isSome_iff_exists.mp registered
  obtain rfl := h.number n connected
  let p : Payload ε := ⟨s.dispatched.length + 1, e⟩
  have result : s.dispatch max e = { s with
      session := s.session.recordEvent max p
      connection := some (s.dispatched.length + 1)
      outbox := s.send (.event p)
      dispatched := s.dispatched ++ [e] } := by
    simp only [State.dispatch, connected, p]
  have longer : (s.dispatch max e).all = s.all ++ [p] := by
    rw [result]
    simp [all, numbered_append, numbered, p]
  have few : s.count ≤ s.all.length := by simpa [all_length] using h.few
  rw [result] at longer ⊢
  constructor
  · simp [Session.recordEvent, Session.addReplayEvent, h.sequence, p]
  · exact addReplayEvent_numbered e h.buffer
  · intro m same
    simpa using (Option.some.inj same).symm
  · intro _
    rfl
  · rw [longer]
    exact h.taken.trans (List.take_append_of_le_length few).symm
  · have := h.few
    simp only [count, List.length_append] at this ⊢
    omega
  · have room := h.room
    simp only [count, State.Bounded, List.length_append, List.length_singleton] at bounded room ⊢
    omega
  · exact h.least
  · have := h.most
    simp only [List.length_append]
    omega
  · intro m reply
    have before : Frame.resumed m ∈ s.outbox := by
      cases up : s.online <;> simpa [send, up] using reply
    have := h.replies m before
    simp only [List.length_append]
    omega
  · intro up
    have up' : s.online = true := up
    have before := h.coming up'
    rw [longer]
    simp only [pending, idle, List.append_nil] at before ⊢
    simp only [send, up', if_pos, events_append, before]
    exact (List.drop_append_of_le_length few).symm
  · intro down
    have down' : s.online = false := down
    simpa [send, down', count] using h.silent down'

theorem Inv.resume (h : s.Inv max) (down : s.online = false) : s.resume.Inv max := by
  obtain ⟨_, known⟩ := h.silent down
  have number : (s.session.resume (highest Frame.s s.received)).sequence = s.dispatched.length := by
    simp [Session.resume, h.sequence, h.most]
  constructor
  · exact number
  · exact h.buffer
  · intro n same
    exact (Option.some.inj same).symm.trans number
  · intro _
    rfl
  · exact h.taken
  · exact h.few
  · exact h.room
  · exact h.least
  · exact h.most
  · intro n reply
    simp only [State.resume, List.mem_singleton, Frame.resumed.injEq] at reply
    exact Nat.le_of_eq (reply.trans number)
  · intro _
    show s.session.getReplayEvents (highest Frame.s s.received) = s.all.drop s.count
    rw [known]
    exact getReplayEvents_numbered h.buffer h.room
  · intro never
    cases never

theorem Inv.startReplay (h : s.Inv max) {seq : Nat} (announced : s.resuming = .announced seq) :
    ({ s with resuming := .replaying (s.session.getReplayEvents seq) } : State ε).Inv max := by
  refine ⟨h.sequence, h.buffer, h.number, h.registered, h.taken, h.few, h.room, h.least, h.most,
    h.replies, ?_, h.silent⟩
  intro up
  have before := h.coming up
  rw [pending, announced] at before
  exact before

theorem Inv.replayNext (h : s.Inv max) {p : Payload ε} {rest : List (Payload ε)}
    (replaying : s.resuming = .replaying (p :: rest)) :
    ({ s with outbox := s.send (.event p), resuming := .replaying rest } : State ε).Inv max := by
  refine ⟨h.sequence, h.buffer, h.number, h.registered, h.taken, h.few, h.room, h.least, h.most,
    ?_, ?_, ?_⟩
  · intro n reply
    refine h.replies n ?_
    cases up : s.online <;> simpa [send, up] using reply
  · intro up
    have up' : s.online = true := up
    have before := h.coming up'
    rw [pending, replaying] at before
    show events (s.send (.event p)) ++ rest = s.all.drop s.count
    simpa [send, up', events] using before
  · intro down
    have down' : s.online = false := down
    show s.send (.event p) = [] ∧ highest Frame.s s.received = s.count
    simpa [send, down'] using h.silent down'

theorem Inv.receive (h : s.Inv max) {f : Frame ε} {fs : List (Frame ε)} (next : s.outbox = f :: fs) :
    ({ s with outbox := fs, received := s.received ++ [f] } : State ε).Inv max := by
  have up : s.online = true := by
    by_contra down
    rw [(h.silent (by simpa using down)).1] at next
    cases next
  have coming := h.coming up
  have replies : ∀ n, Frame.resumed n ∈ fs → n ≤ s.dispatched.length :=
    fun n reply => h.replies n (next ▸ List.mem_cons_of_mem f reply)
  cases f with
  | resumed n =>
    have low : n ≤ s.dispatched.length := h.replies n (next ▸ List.mem_cons_self ..)
    have same : events (s.received ++ [.resumed n]) = events s.received := by simp [events]
    have counted : count { s with outbox := fs, received := s.received ++ [.resumed n] } = s.count :=
      congrArg List.length same
    refine ⟨h.sequence, h.buffer, h.number, h.registered, ?_, ?_, ?_, ?_, ?_, replies, ?_, ?_⟩
    · rw [counted]
      exact same.trans h.taken
    · exact counted ▸ h.few
    · exact counted ▸ h.room
    · rw [counted, highest_append]
      exact Nat.le_trans h.least (Nat.le_max_left _ _)
    · rw [highest_append]
      exact Nat.max_le.mpr ⟨h.most, low⟩
    · intro _
      rw [counted]
      rw [next] at coming
      exact coming
    · intro down
      exact absurd up (by simpa using down)
  | event p =>
    have coming : p :: (events fs ++ s.pending) = s.all.drop s.count := by
      simpa [next, events] using coming
    have here : s.count < s.all.length := by
      by_contra full
      rw [List.drop_eq_nil_of_le (Nat.le_of_not_lt full)] at coming
      cases coming
    rw [List.drop_eq_getElem_cons here] at coming
    obtain ⟨first, rest⟩ := List.cons.inj coming
    have number : p.s = s.count + 1 := by
      rw [first]
      exact (numbered_getElem here).trans (by omega)
    have counted : count { s with outbox := fs, received := s.received ++ [.event p] } =
        s.count + 1 := by simp [count, events]
    have less : s.count + 1 ≤ s.dispatched.length := all_length s ▸ here
    refine ⟨h.sequence, h.buffer, h.number, h.registered, ?_, ?_, ?_, ?_, ?_, replies, ?_, ?_⟩
    · have more : events (s.received ++ [.event p]) = s.all.take (s.count + 1) := by
        rw [List.take_succ_eq_append_getElem here, ← first, ← h.taken]
        simp [events]
      rw [counted]
      exact more
    · exact counted ▸ less
    · have := h.room
      rw [counted]
      show s.dispatched.length ≤ _
      omega
    · rw [counted, highest_append]
      exact Nat.le_trans (Nat.le_of_eq number.symm) (Nat.le_max_right _ _)
    · rw [highest_append]
      exact Nat.max_le.mpr ⟨h.most, Nat.le_trans (Nat.le_of_eq number) less⟩
    · intro _
      rw [counted]
      exact rest
    · intro down
      exact absurd up (by simpa using down)

theorem Inv.lose (h : s.Inv max) (undisturbed : s.Undisturbed .lose) :
    ({ s with online := false, outbox := [] } : State ε).Inv max := by
  refine ⟨h.sequence, h.buffer, h.number, ?_, h.taken, h.few, h.room, h.least, h.most, ?_, ?_, ?_⟩
  · intro never
    cases never
  · intro n never
    cases never
  · intro never
    cases never
  · intro _
    refine ⟨rfl, Nat.le_antisymm ?_ h.least⟩
    show highest Frame.s s.received ≤ s.count
    by_contra ahead
    -- the event after those received is recorded, and its number is up to the largest one
    have here : s.count < s.all.length := by
      have := h.most
      rw [all_length]
      omega
    have number : s.all[s.count].s = s.count + 1 := (numbered_getElem here).trans (by omega)
    have recorded : s.all[s.count] ∈ s.session.replayEvents := by
      have := h.room
      rw [h.buffer]
      have back : s.dispatched.length - max + (s.count - (s.dispatched.length - max)) = s.count := by
        omega
      refine List.mem_drop_iff_getElem.mpr ⟨s.count - (s.dispatched.length - max), ?_, ?_⟩
      · omega
      · simp only [back]
    have arrived := undisturbed _ recorded (by omega)
    have early := mem_events.mpr arrived
    rw [h.taken] at early
    have := le_of_mem_take_numbered early
    omega

theorem inv_step {t : State ε} {a : Action ε} (h : s.Inv max) (bounded : s.Bounded max a)
    (undisturbed : s.Undisturbed a) (next : s.step max a = some t) : t.Inv max := by
  cases a with
  | dispatch e =>
    cases next
    exact h.dispatch e bounded undisturbed
  | resume =>
    cases up : s.online with
    | true => simp [step, up] at next
    | false =>
      simp only [step, up, Bool.false_eq_true, if_false, Option.some.injEq] at next
      subst next
      exact h.resume up
  | startReplay =>
    simp only [step] at next
    split at next
    · rename_i seq announced
      cases next
      exact h.startReplay announced
    · cases next
  | replayNext =>
    simp only [step] at next
    split at next
    · rename_i p rest replaying
      cases next
      exact h.replayNext replaying
    · cases next
  | receive =>
    simp only [step] at next
    split at next
    · rename_i f fs outbox
      cases next
      exact h.receive outbox
    · cases next
  | lose =>
    cases up : s.online with
    | false => simp [step, up] at next
    | true =>
      simp only [step, up, if_true, Option.some.injEq] at next
      subst next
      exact h.lose undisturbed
  | cleanup =>
    simp only [step] at next
    split at next
    · cases next
    · rename_i down
      cases next
      refine ⟨h.sequence, h.buffer, ?_, ?_, h.taken, h.few, h.room, h.least, h.most, h.replies,
        h.coming, h.silent⟩
      · intro n never
        cases never
      · intro up
        exact absurd up down

theorem Inv.complete (h : s.Inv max) : s.Complete := by
  have bodies : (events s.received).map Payload.body = s.dispatched.take s.count := by
    rw [h.taken, all, List.map_take, numbered_bodies]
  refine ⟨?_, ?_, ?_⟩
  · rw [h.taken]
    exact (numbered_sorted 0 s.dispatched).sublist (List.take_sublist _ _)
  · rw [bodies]
    exact List.take_prefix _ _
  · intro ⟨up, outbox, resuming⟩
    have rest := h.coming up
    simp only [outbox, pending, resuming, events, List.append_nil] at rest
    have full : s.dispatched.length ≤ s.count := by
      have := List.drop_eq_nil_iff.mp rest.symm
      rwa [all_length] at this
    rw [bodies, List.take_of_length_le full]

/-- A client that resumes with its largest `s` loses nothing, in every run where no event
comes between a loss and the end of the replay and no loss follows the RESUMED frame before
the events up to its `s`. -/
theorem resume_loses_nothing {max : Nat} {s : State ε} (run : Guarded (State.step max)
    (fun s a => s.Bounded max a ∧ s.Undisturbed a) (· = created) s) : s.Complete := by
  have inv : s.Inv max := guarded_invariant (fun s start => start ▸ inv_created)
    (fun _ _ _ h ok next => inv_step h ok.1 ok.2 next) run
  exact inv.complete

def steadyRun : List (Action Nat) :=
  [.dispatch 0, .dispatch 1, .receive, .receive, .lose, .dispatch 2, .resume, .receive,
    .startReplay, .replayNext, .receive]

theorem resume_loses_nothing_steady :
    ∃ s : State Nat, s.CaughtUp ∧ s.dispatched = [0, 1, 2] ∧ s.Complete := by
  let s : State Nat := (runGuarded (State.step MAX_REPLAY_EVENTS)
    (fun s a => s.Bounded MAX_REPLAY_EVENTS a ∧ s.Undisturbed a) created steadyRun).get rfl
  have run : Guarded (State.step MAX_REPLAY_EVENTS)
      (fun s a => s.Bounded MAX_REPLAY_EVENTS a ∧ s.Undisturbed a) (· = created) s :=
    guarded_of_run (s := created) steadyRun rfl (Option.some_get _).symm
  exact ⟨s, by decide, by decide, resume_loses_nothing run⟩

def delivered (actions : List (Action Nat)) : Option (List Nat) :=
  (runGuarded (State.step MAX_REPLAY_EVENTS) (State.Bounded MAX_REPLAY_EVENTS) created actions).bind
    fun s => if s.CaughtUp then some ((events s.received).map Payload.body) else none

def unattachedRun : List (Action Nat) :=
  [.dispatch 0, .receive, .lose, .cleanup, .dispatch 1, .resume, .receive, .startReplay]

def lostReplayRun : List (Action Nat) :=
  [.dispatch 0, .receive, .lose, .dispatch 1, .resume, .startReplay, .receive, .lose, .resume,
    .receive, .startReplay]

def earlyEventRun : List (Action Nat) :=
  [.dispatch 0, .receive, .lose, .resume, .dispatch 1, .startReplay, .replayNext, .receive,
    .receive, .receive]

theorem resume_loses_events :
    (¬ ∀ s : State Nat, Guarded (State.step MAX_REPLAY_EVENTS) (State.Bounded MAX_REPLAY_EVENTS)
      (· = created) s → s.Complete) ∧
    delivered unattachedRun = some [0] ∧ delivered lostReplayRun = some [0] ∧
    delivered earlyEventRun = some [0, 1, 1] := by
  refine ⟨?_, by decide, by decide, by decide⟩
  intro law
  let s : State Nat := (runGuarded (State.step MAX_REPLAY_EVENTS)
    (State.Bounded MAX_REPLAY_EVENTS) created unattachedRun).get rfl
  have run : Guarded (State.step MAX_REPLAY_EVENTS) (State.Bounded MAX_REPLAY_EVENTS)
      (· = created) s := guarded_of_run (s := created) unattachedRun rfl (Option.some_get _).symm
  exact absurd ((law s run).all (by decide)) (by decide)

end State
end Plexichat.Gateway.Resume
