import Mathlib.Data.List.Nodup
import Plexichat.Library.Transition

/-! core/events: the deferred fan-out to regular subscribers, on an event loop that is replaced now
and then, and beside it in threads that run no loop. -/
namespace Plexichat.Events
open Transition

variable {ε υ κ : Type}

/-- _DISPATCH_QUEUE_MAX -/
def dispatchQueueMax : Nat := 4096

structure Subscribers (κ : Type) where
  keys : List κ
  nodup : keys.Nodup
deriving DecidableEq

/-- `number` is the position among all events dispatched, `loop` that of the loop it was
dispatched on. -/
structure Item (ε υ κ : Type) where
  number : Nat
  loop : Option Nat
  event : ε
  recipients : List υ
  subscribers : Subscribers κ
deriving DecidableEq

structure Manager (ε υ κ : Type) where
  subscribers : Subscribers κ
  queue : Option (List (Item ε υ κ))
  queueLoop : Option Nat
  droppedEvents : Nat
  consumerTask : Option Nat
  consumerStop : Bool

structure Task where
  loop : Nat
  done : Bool

/-- What the event loop runs: nothing, the loop of a consumer or of drain where it looks for an
item, or the fan-out of an item with the subscribers that are left. -/
inductive Running (ε υ κ : Type) where
  | free
  | taking (draining : Bool)
  | handing (draining : Bool) (item : Item ε υ κ) (rest : List κ)

/-- `loop` is the event loop that runs, `awaiting` are the tasks whose end a stop_consumer awaits,
and `threads` the fan-outs outside the loop. `dispatched`, `dropped` and `handed` are the history,
and `ended` says that a stop_consumer has ended and nothing was queued since. -/
structure World (ε υ κ : Type) extends Manager ε υ κ where
  loop : Nat
  tasks : List Task
  awaiting : List Nat
  running : Running ε υ κ
  threads : List (Item ε υ κ × List κ)
  dispatched : List (Item ε υ κ)
  dropped : List (Item ε υ κ)
  handed : List (Item ε υ κ × κ)
  ended : Bool

inductive Action (ε υ κ : Type) where
  | subscribe (callback : κ)
  /-- unsubscribe, or an eviction at the cap or after the idle time -/
  | unsubscribe (callback : κ)
  | dispatch (event : ε) (recipients : List υ)
  /-- dispatch in a thread that runs no loop -/
  | dispatchOutside (event : ε) (recipients : List υ)
  /-- a thread's next callback -/
  | callOutside (thread : Nat)
  | startConsumer
  | stopConsumer
  /-- A consumer's sleep ends, -/
  | tick (task : Nat)
  /-- it is cancelled there, -/
  | cancel (task : Nat)
  /-- or it has ended for who awaits it. -/
  | resume (task : Nat)
  /-- `get_nowait`, and `empty` and `get` of drain -/
  | take
  | call
  | replaceLoop

namespace Subscribers

variable [DecidableEq κ] (s : Subscribers κ) (callback : κ)

def subscribe : Subscribers κ :=
  if absent : callback ∈ s.keys then s
  else ⟨s.keys ++ [callback], List.nodup_append.mpr ⟨s.nodup, List.nodup_singleton callback, by
    intro k here j there same
    exact absent (List.mem_singleton.mp there ▸ same ▸ here)⟩⟩

def unsubscribe : Subscribers κ := ⟨s.keys.erase callback, s.nodup.erase callback⟩

end Subscribers

namespace World

variable (s : World ε υ κ)

def new : World ε υ κ :=
  ⟨⟨⟨[], .nil⟩, none, none, 0, none, false⟩, 0, [], [], .free, [], [], [], [], false⟩

def queued : List (Item ε υ κ) := s.queue.getD []

def needsQueueRecreate : Bool :=
  s.queue.isNone || s.queueLoop.isNone || s.queueLoop != some s.loop

def bind : World ε υ κ :=
  if s.needsQueueRecreate then { s with queue := some [], queueLoop := some s.loop } else s

def item (loop : Option Nat) (event : ε) (recipients : List υ) : Item ε υ κ :=
  ⟨s.dispatched.length, loop, event, recipients, s.subscribers⟩

/-- `put_nowait`, and what follows QueueFull -/
def put (item : Item ε υ κ) : World ε υ κ :=
  if dispatchQueueMax ≤ s.queued.length then
    { s with droppedEvents := s.droppedEvents + 1, dropped := s.dropped ++ [item],
             dispatched := s.dispatched ++ [item] }
  else
    { s with queue := some (s.queued ++ [item]), dispatched := s.dispatched ++ [item],
             ended := false }

def task (j : Nat) : Task := s.tasks.getD j ⟨0, true⟩

def live (j : Nat) : Bool := !(s.task j).done && (s.task j).loop == s.loop

def consumerPending : Bool := s.consumerTask.any fun j => !(s.task j).done

def finish (j : Nat) : World ε υ κ :=
  { s with tasks := s.tasks.modify j fun t => { t with done := true } }

def startConsumer : World ε υ κ :=
  if s.consumerPending then s
  else
    { s.bind with consumerStop := false, consumerTask := some s.tasks.length,
                  tasks := s.tasks ++ [⟨s.loop, false⟩] }

/-- To await a pending task of another loop raises, and nothing is drained. -/
def stopConsumer : World ε υ κ :=
  let stopped := { s with consumerTask := none, consumerStop := true }
  match s.consumerTask with
  | none => { stopped with running := .taking true }
  | some j =>
    if (s.task j).done then { stopped with running := .taking true }
    else if (s.task j).loop = s.loop then { stopped with awaiting := s.awaiting ++ [j] }
    else { stopped with ended := true }

def tick (j : Nat) : World ε υ κ :=
  if s.consumerStop then s.finish j
  else if s.queue.isNone then s
  else { s with running := .taking false }

end World

/-- start_consumer, stop_consumer and the consumers run where the loop runs nothing else. A
callback may dispatch. -/
def step [DecidableEq κ] (s : World ε υ κ) : Action ε υ κ → Option (World ε υ κ)
  | .subscribe callback => some { s with subscribers := s.subscribers.subscribe callback }
  | .unsubscribe callback => some { s with subscribers := s.subscribers.unsubscribe callback }
  | .dispatch event recipients =>
    if recipients.isEmpty then some s else some (s.bind.put (s.item (some s.loop) event recipients))
  | .dispatchOutside event recipients =>
    if recipients.isEmpty then some s
    else
      let item := s.item none event recipients
      some { s with threads := s.threads ++ [(item, item.subscribers.keys)],
                    dispatched := s.dispatched ++ [item] }
  | .callOutside thread =>
    match s.threads[thread]? with
    | some (item, callback :: rest) =>
      some { s with handed := s.handed ++ [(item, callback)],
                    threads := s.threads.set thread (item, rest) }
    | _ => none
  | .take =>
    match s.running, s.queued with
    | .taking draining, item :: queue =>
      some { s with queue := some queue,
                    running := .handing draining item item.subscribers.keys }
    | .taking draining, [] => some { s with running := .free, ended := draining || s.ended }
    | _, _ => none
  | .call =>
    match s.running with
    | .handing draining item (callback :: rest) =>
      some { s with handed := s.handed ++ [(item, callback)],
                    running := .handing draining item rest }
    | .handing draining _ [] => some { s with running := .taking draining }
    | _ => none
  | action =>
    match s.running with
    | .free =>
      match action with
      | .startConsumer => some s.startConsumer
      | .stopConsumer => some s.stopConsumer
      | .tick j => if s.live j then some (s.tick j) else none
      | .cancel j => if s.live j then some (s.finish j) else none
      | .resume j =>
        if j ∈ s.awaiting ∧ (s.task j).done then
          some { s with awaiting := s.awaiting.erase j, running := .taking true }
        else none
      | .replaceLoop => some { s with loop := s.loop + 1, awaiting := [] }
      | _ => none
    | _ => none

section Consumers

variable {s t : World ε υ κ}

def Running.Consuming : Running ε υ κ → Prop
  | .taking draining => draining = false
  | .handing draining _ _ => draining = false
  | .free => False

def World.Own (s : World ε υ κ) : Prop := s.queue.isSome ∧ s.queueLoop = some s.loop

structure Bound (s : World ε υ κ) : Prop where
  past : ∀ task ∈ s.tasks, task.loop ≤ s.loop
  live : ∀ j, s.live j → s.Own
  consuming : s.running.Consuming → s.Own

theorem World.own_iff : s.Own ↔ s.needsQueueRecreate = false := by
  unfold World.Own World.needsQueueRecreate
  cases s.queue <;> cases s.queueLoop <;> simp

theorem World.bind_own : s.bind.Own := by
  unfold World.bind
  split
  · exact ⟨rfl, rfl⟩
  · rename_i fits
    exact World.own_iff.mpr (Bool.not_eq_true _ ▸ fits)

theorem World.put_own (own : s.Own) (item : Item ε υ κ) : (s.put item).Own := by
  unfold World.put
  split
  · exact own
  · exact ⟨rfl, own.2⟩

theorem Bound.same (bound : Bound s) (tasks : t.tasks = s.tasks) (loop : t.loop = s.loop)
    (queue : s.Own → t.Own) (running : t.running.Consuming → s.running.Consuming) : Bound t := by
  refine ⟨?_, fun j live => queue (bound.live j ?_), fun on => queue (bound.consuming (running on))⟩
  · rw [tasks, loop]
    exact bound.past
  · simpa only [World.live, World.task, tasks, loop] using live

theorem Bound.finish (bound : Bound s) (j : Nat) : Bound (s.finish j) := by
  refine ⟨?_, fun i live => bound.live i ?_, bound.consuming⟩
  · intro task member
    obtain ⟨i, inside, rfl⟩ := List.mem_iff_getElem.mp member
    have there : i < s.tasks.length := by simpa only [World.finish, List.length_modify] using inside
    have past := bound.past s.tasks[i] (List.getElem_mem there)
    simp only [World.finish, List.getElem_modify]
    split <;> exact past
  · simp only [World.live, World.task, World.finish, List.getD_eq_getElem?_getD,
      List.getElem?_modify] at live ⊢
    cases here : s.tasks[i]? with
    | none => simp [here] at live
    | some task =>
      by_cases same : j = i
      · simp [here, same] at live
      · simpa [here, same] using live

theorem Bound.startConsumer (bound : Bound s) : Bound s.startConsumer := by
  unfold World.startConsumer
  split
  · exact bound
  · have own : s.bind.Own := World.bind_own
    have loop : s.bind.loop = s.loop := by
      unfold World.bind
      split <;> rfl
    refine ⟨?_, fun _ _ => own, fun _ => own⟩
    intro task member
    show task.loop ≤ s.bind.loop
    rw [loop]
    rcases List.mem_append.mp member with old | new
    · exact bound.past task old
    · exact List.mem_singleton.mp new ▸ Nat.le_refl _

theorem Bound.step [DecidableEq κ] {a : Action ε υ κ} (bound : Bound s)
    (moved : step s a = some t) : Bound t := by
  cases a with
  | subscribe | unsubscribe =>
    cases moved
    exact bound.same rfl rfl id id
  | dispatch event recipients =>
    simp only [Events.step] at moved
    split at moved
    · cases moved
      exact bound
    · cases moved
      have own := World.put_own s.bind_own (s.item (some s.loop) event recipients)
      refine ⟨?_, fun _ _ => own, fun _ => own⟩
      have past := bound.past
      unfold World.put World.bind
      split <;> split <;> exact past
  | dispatchOutside event recipients =>
    simp only [Events.step] at moved
    split at moved <;> cases moved
    · exact bound
    · exact bound.same rfl rfl id id
  | callOutside thread =>
    simp only [Events.step] at moved
    split at moved <;> cases moved
    exact bound.same rfl rfl id id
  | take =>
    simp only [Events.step] at moved
    split at moved
    · rename_i taking queued
      cases moved
      refine bound.same rfl rfl (fun own => ⟨rfl, own.2⟩) ?_
      rw [taking]
      exact id
    · cases moved
      exact bound.same rfl rfl id False.elim
    · cases moved
  | call =>
    simp only [Events.step] at moved
    split at moved
    · rename_i handing
      cases moved
      refine bound.same rfl rfl id ?_
      rw [handing]
      exact id
    · rename_i handing
      cases moved
      refine bound.same rfl rfl id ?_
      rw [handing]
      exact id
    · cases moved
  | startConsumer =>
    simp only [Events.step] at moved
    split at moved <;> cases moved
    exact bound.startConsumer
  | stopConsumer =>
    simp only [Events.step] at moved
    split at moved
    · rename_i free
      cases moved
      unfold World.stopConsumer
      split
      · exact bound.same rfl rfl id nofun
      · split
        · exact bound.same rfl rfl id nofun
        · split <;> exact bound.same rfl rfl id id
    · cases moved
  | tick j =>
    simp only [Events.step] at moved
    split at moved
    · split at moved
      · rename_i free live
        cases moved
        unfold World.tick
        split
        · exact bound.finish j
        · split
          · exact bound
          · exact ⟨bound.past, bound.live, fun _ => bound.live j live⟩
      · cases moved
    · cases moved
  | cancel j =>
    simp only [Events.step] at moved
    split at moved
    · split at moved <;> cases moved
      exact bound.finish j
    · cases moved
  | resume j =>
    simp only [Events.step] at moved
    split at moved
    · split at moved <;> cases moved
      exact bound.same rfl rfl id nofun
    · cases moved
  | replaceLoop =>
    simp only [Events.step] at moved
    split at moved
    · rename_i free
      cases moved
      refine ⟨fun task member => Nat.le_succ_of_le (bound.past task member), ?_, ?_⟩
      · intro j live
        obtain ⟨pending, here⟩ := Bool.and_eq_true_iff.mp live
        simp only [World.task, List.getD_eq_getElem?_getD] at pending here
        cases found : s.tasks[j]? with
        | none =>
          rw [found] at pending
          cases pending
        | some task =>
          rw [found] at here
          have past := bound.past task (List.mem_of_getElem? found)
          have now : task.loop = s.loop + 1 := beq_iff_eq.mp here
          omega
      · intro consuming
        rw [free] at consuming
        exact consuming.elim
    · cases moved

end Consumers

end Plexichat.Events
