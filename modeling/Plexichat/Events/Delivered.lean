import Plexichat.Events.Manager
import Plexichat.Library.Delivery
import Plexichat.Library.Transition

/-! Each event reaches every regular subscriber of its snapshot once, or is counted as dropped,
where a queue is replaced only while it is empty. -/
namespace Plexichat.Events
open Transition

variable {ε υ κ : Type}

/-- The queue is replaced only while it is empty, and stop_consumer finds no pending task of another
loop. -/
def Safe (s : World ε υ κ) : Action ε υ κ → Prop
  | .dispatch _ recipients => recipients ≠ [] → s.needsQueueRecreate → s.queued = []
  | .startConsumer => s.consumerPending = false → s.needsQueueRecreate → s.queued = []
  | .stopConsumer => ∀ j, s.consumerTask = some j → (s.task j).done ∨ (s.task j).loop = s.loop
  | _ => True

def left (f : Item ε υ κ × List κ) : List (Item ε υ κ × κ) := f.2.map (Prod.mk f.1)

def Running.due : Running ε υ κ → List (Item ε υ κ × κ)
  | .handing _ item rest => left (item, rest)
  | _ => []

abbrev keys (item : Item ε υ κ) : List κ := item.subscribers.keys

def OnLoop (item : Item ε υ κ) : Prop := item.loop.isSome

namespace World

variable {s t : World ε υ κ}

def ledger (s : World ε υ κ) : Delivery.Ledger (Item ε υ κ) κ where
  sent := s.dispatched
  counted := s.dropped
  handed := s.handed
  due := s.running.due ++ s.queued.flatMap (Delivery.pairs keys)
  aside := s.threads.flatMap left

abbrev Moves (s t : World ε υ κ) : Prop :=
  Delivery.Step keys Item.number OnLoop s.ledger t.ledger

theorem moves_same (same : t.ledger = s.ledger) : Moves s t := by
  unfold Moves
  rw [same]
  exact .rest

theorem bind_ledger (safe : s.needsQueueRecreate → s.queued = []) : s.bind.ledger = s.ledger := by
  unfold bind
  split
  · rename_i needs
    simp only [ledger, safe needs]
    rfl
  · rfl

theorem bind_dispatched : s.bind.dispatched = s.dispatched := by
  unfold bind
  split <;> rfl

theorem put_moves {item : Item ε υ κ} (fresh : item.number = s.dispatched.length)
    (lane : OnLoop item) : Moves s (s.put item) := by
  unfold put
  split
  · exact .count item fresh
  · have posted : Delivery.Step keys Item.number OnLoop s.ledger _ :=
      .post item fresh lane
    have same : s.ledger.due ++ Delivery.pairs keys item =
        s.running.due ++ (s.queued ++ [item]).flatMap (Delivery.pairs keys) := by
      rw [List.flatMap_append, List.flatMap_singleton]
      exact List.append_assoc _ _ _
    rw [same] at posted
    exact posted

theorem startConsumer_ledger
    (safe : s.consumerPending = false → s.needsQueueRecreate → s.queued = []) :
    s.startConsumer.ledger = s.ledger := by
  unfold startConsumer
  split
  · rfl
  · rename_i idle
    exact bind_ledger (safe (Bool.not_eq_true _ ▸ idle))

theorem tick_ledger {j : Nat} (free : s.running = .free) : (s.tick j).ledger = s.ledger := by
  unfold tick
  split
  · rfl
  · split
    · rfl
    · simp only [ledger, free]
      rfl

theorem stopConsumer_ledger (free : s.running = .free) : s.stopConsumer.ledger = s.ledger := by
  unfold stopConsumer
  split
  · simp only [ledger, free]
    rfl
  · split
    · simp only [ledger, free]
      rfl
    · split <;> rfl

end World

variable {s t : World ε υ κ}

structure Told (s : World ε υ κ) : Prop where
  counted : s.droppedEvents = s.dropped.length
  settled : s.ended = true → s.ledger.due = []

theorem Told.same (told : Told s) (dropped : t.droppedEvents = s.droppedEvents)
    (ledger : t.ledger = s.ledger) (ended : t.ended = s.ended) : Told t := by
  have counted : t.dropped = s.dropped := congrArg Delivery.Ledger.counted ledger
  exact ⟨by rw [dropped, counted, told.counted], by rw [ledger, ended]; exact told.settled⟩

theorem Told.put (told : Told s) (item : Item ε υ κ) : Told (s.put item) := by
  unfold World.put
  split
  · refine ⟨?_, told.settled⟩
    rw [List.length_append, ← told.counted]
    rfl
  · exact ⟨told.counted, nofun⟩

theorem Told.bind (told : Told s) (safe : s.needsQueueRecreate → s.queued = []) :
    Told s.bind := by
  refine told.same ?_ (World.bind_ledger safe) ?_ <;> unfold World.bind <;> split <;> rfl

theorem Told.startConsumer (told : Told s)
    (safe : s.consumerPending = false → s.needsQueueRecreate → s.queued = []) :
    Told s.startConsumer := by
  unfold World.startConsumer
  split
  · exact told
  · rename_i idle
    exact (told.bind (safe (Bool.not_eq_true _ ▸ idle))).same rfl rfl rfl

theorem Told.stopConsumer (told : Told s) (free : s.running = .free)
    (safe : ∀ j, s.consumerTask = some j → (s.task j).done ∨ (s.task j).loop = s.loop) :
    Told s.stopConsumer := by
  refine told.same ?_ (World.stopConsumer_ledger free) ?_
  · unfold World.stopConsumer
    split
    · rfl
    · split
      · rfl
      · split <;> rfl
  · unfold World.stopConsumer
    split
    · rfl
    · rename_i j task
      split
      · rfl
      · rename_i pending
        rw [if_pos ((safe j task).resolve_left pending)]

variable [DecidableEq κ] {a : Action ε υ κ}

theorem callOutside_moves {thread : Nat} (moved : step s (.callOutside thread) = some t) :
    s.Moves t := by
  simp only [step] at moved
  split at moved
  · rename_i item callback rest here
    cases moved
    obtain ⟨inside, there⟩ := List.getElem?_eq_some_iff.mp here
    have split : s.threads = s.threads.take thread ++ (item, callback :: rest) ::
        s.threads.drop (thread + 1) := by
      rw [← there, List.getElem_cons_drop, List.take_append_drop]
    have later := List.set_eq_take_append_cons_drop (l := s.threads) (a := (item, rest))
      (i := thread)
    rw [if_pos inside] at later
    have before : s.ledger.aside = (s.threads.take thread).flatMap left ++ (item, callback) ::
        (left (item, rest) ++ (s.threads.drop (thread + 1)).flatMap left) := by
      show s.threads.flatMap left = _
      nth_rewrite 1 [split]
      rw [List.flatMap_append, List.flatMap_cons]
      rfl
    have moves : Delivery.Step keys Item.number OnLoop s.ledger _ := .handAside _ _ _ before
    have after : (s.threads.take thread).flatMap left ++
        (left (item, rest) ++ (s.threads.drop (thread + 1)).flatMap left) =
        (s.threads.set thread (item, rest)).flatMap left := by
      rw [later, List.flatMap_append, List.flatMap_cons]
    rw [after] at moves
    exact moves
  · cases moved

theorem take_ledger (moved : step s .take = some t) : t.ledger = s.ledger := by
  simp only [step] at moved
  split at moved
  · rename_i draining item queue taking queued
    cases moved
    simp only [World.ledger, taking, queued, List.flatMap_cons]
    rfl
  · rename_i draining taking queued
    cases moved
    simp only [World.ledger, taking]
    rfl
  · cases moved

theorem call_moves (moved : step s .call = some t) : s.Moves t := by
  simp only [step] at moved
  split at moved
  · rename_i draining item callback rest handing
    cases moved
    have next : s.ledger.due = (item, callback) ::
        (left (item, rest) ++ s.queued.flatMap (Delivery.pairs keys)) := by
      simp only [World.ledger, handing]
      rfl
    exact Delivery.Step.hand _ _ next
  · rename_i draining item handing
    cases moved
    refine World.moves_same ?_
    simp only [World.ledger, handing]
    rfl
  · cases moved

theorem step_moves (safe : Safe s a) (moved : step s a = some t) : s.Moves t := by
  cases a with
  | subscribe | unsubscribe =>
    cases moved
    exact .rest
  | dispatch event recipients =>
    simp only [step] at moved
    split at moved
    · cases moved
      exact .rest
    · rename_i some
      cases moved
      have kept := World.bind_ledger (safe (mt List.isEmpty_iff.mpr some))
      show Delivery.Step _ _ _ s.ledger _
      rw [← kept]
      exact World.put_moves (congrArg List.length World.bind_dispatched.symm) rfl
  | dispatchOutside event recipients =>
    simp only [step] at moved
    split at moved
    · cases moved
      exact .rest
    · cases moved
      have opened : Delivery.Step keys Item.number OnLoop s.ledger _ :=
        .open (s.item none event recipients) rfl Bool.false_ne_true
      have same : s.ledger.aside ++ Delivery.pairs keys (s.item none event recipients) =
          (s.threads ++ [(s.item none event recipients, s.subscribers.keys)]).flatMap left := by
        rw [List.flatMap_append, List.flatMap_singleton]
        rfl
      rw [same] at opened
      exact opened
  | callOutside thread => exact callOutside_moves moved
  | take => exact World.moves_same (take_ledger moved)
  | call => exact call_moves moved
  | startConsumer =>
    simp only [step] at moved
    split at moved
    · cases moved
      exact World.moves_same (World.startConsumer_ledger safe)
    · cases moved
  | stopConsumer =>
    simp only [step] at moved
    split at moved
    · rename_i free
      cases moved
      exact World.moves_same (World.stopConsumer_ledger free)
    · cases moved
  | tick j =>
    simp only [step] at moved
    split at moved
    · rename_i free
      split at moved
      · cases moved
        exact World.moves_same (World.tick_ledger free)
      · cases moved
    · cases moved
  | cancel j =>
    simp only [step] at moved
    split at moved
    · split at moved
      · cases moved
        exact .rest
      · cases moved
    · cases moved
  | resume j =>
    simp only [step] at moved
    split at moved
    · rename_i free
      split at moved
      · cases moved
        refine World.moves_same ?_
        simp only [World.ledger, free]
        rfl
      · cases moved
    · cases moved
  | replaceLoop =>
    simp only [step] at moved
    split at moved
    · cases moved
      exact .rest
    · cases moved

theorem Told.step (told : Told s) (safe : Safe s a) (moved : step s a = some t) : Told t := by
  cases a with
  | subscribe | unsubscribe =>
    cases moved
    exact told.same rfl rfl rfl
  | dispatch event recipients =>
    simp only [Events.step] at moved
    split at moved
    · cases moved
      exact told
    · rename_i some
      cases moved
      exact (told.bind (safe (mt List.isEmpty_iff.mpr some))).put _
  | dispatchOutside event recipients =>
    simp only [Events.step] at moved
    split at moved <;> cases moved <;> exact ⟨told.counted, told.settled⟩
  | callOutside thread =>
    simp only [Events.step] at moved
    split at moved <;> cases moved
    exact ⟨told.counted, told.settled⟩
  | take =>
    have ledger := take_ledger moved
    simp only [Events.step] at moved
    split at moved
    · cases moved
      exact told.same rfl ledger rfl
    · rename_i draining taking queued
      cases moved
      refine ⟨told.counted, fun _ => ?_⟩
      show s.queued.flatMap _ = []
      rw [queued]
      rfl
    · cases moved
  | call =>
    simp only [Events.step] at moved
    split at moved
    · rename_i draining item callback rest handing
      cases moved
      refine ⟨told.counted, fun ended => ?_⟩
      have none := told.settled ended
      simp only [World.ledger, handing] at none
      cases none
    · rename_i draining item handing
      cases moved
      refine ⟨told.counted, fun ended => ?_⟩
      have none := told.settled ended
      simp only [World.ledger, handing] at none
      exact none
    · cases moved
  | startConsumer =>
    simp only [Events.step] at moved
    split at moved <;> cases moved
    exact told.startConsumer safe
  | stopConsumer =>
    simp only [Events.step] at moved
    split at moved
    · rename_i free
      cases moved
      exact told.stopConsumer free safe
    · cases moved
  | tick j =>
    simp only [Events.step] at moved
    split at moved
    · rename_i free
      split at moved
      · cases moved
        refine told.same ?_ (World.tick_ledger free) ?_ <;> unfold World.tick <;> split <;>
          (try split) <;> rfl
      · cases moved
    · cases moved
  | cancel j =>
    simp only [Events.step] at moved
    split at moved
    · split at moved <;> cases moved
      exact told.same rfl rfl rfl
    · cases moved
  | resume j =>
    simp only [Events.step] at moved
    split at moved
    · rename_i free
      split at moved <;> cases moved
      refine ⟨told.counted, fun ended => ?_⟩
      have none := told.settled ended
      simp only [World.ledger, free] at none
      exact none
    · cases moved
  | replaceLoop =>
    simp only [Events.step] at moved
    split at moved <;> cases moved
    exact told.same rfl rfl rfl

/-- Each event is counted as dropped and handed to nobody, or handed to each subscriber of its
snapshot once and to nobody else, and those of a loop come in order. -/
structure Delivered [DecidableEq ε] [DecidableEq υ] (s : World ε υ κ) : Prop where
  counted : s.droppedEvents = s.dropped.length ∧ s.dropped.Nodup
  once : ∀ item ∈ s.dispatched, ∀ k, s.handed.count (item, k) =
    if item ∉ s.dropped ∧ k ∈ item.subscribers.keys then 1 else 0
  ordered : s.handed.Pairwise fun p q => p.2 = q.2 → p.1.loop.isSome → p.1.loop = q.1.loop →
    p.1.number < q.1.number

theorem events_delivered [DecidableEq ε] [DecidableEq υ]
    (run : Guarded step Safe (· = World.new) s) (ended : s.ended = true)
    (outside : ∀ f ∈ s.threads, f.2 = []) : Delivered s := by
  have distinct (item : Item ε υ κ) : (keys item).Nodup := item.subscribers.nodup
  have invariant : Delivery.Sound keys Item.number OnLoop s.ledger ∧ Told s := by
    refine guarded_invariant (I := fun s => Delivery.Sound keys Item.number OnLoop s.ledger ∧
      Told s) ?_ ?_ run
    · rintro _ rfl
      exact ⟨.empty, rfl, fun _ => rfl⟩
    · intro s a t kept safe moved
      exact ⟨kept.1.step distinct (step_moves safe moved), kept.2.step safe moved⟩
  obtain ⟨sound, told⟩ := invariant
  have due := told.settled ended
  have aside : s.ledger.aside = [] := by
    refine List.flatMap_eq_nil_iff.mpr fun f member => ?_
    rw [left, outside f member]
    rfl
  refine ⟨⟨told.counted, sound.sent_nodup.sublist sound.part⟩, ?_, ?_⟩
  · intro item sent k
    exact sound.outcome distinct due aside item sent k
  · have ordered := sound.ordered
    rw [due, List.append_nil] at ordered
    refine ordered.imp ?_
    intro p q before same first loops
    have second : q.1.loop.isSome := by
      rw [← loops]
      exact first
    exact before same first second

section Reload

abbrev Callbacks := World String Nat Nat

def reload : List (Action String Nat Nat) :=
  [.subscribe 7, .startConsumer, .dispatch "first" [1], .cancel 0, .replaceLoop, .startConsumer,
    .dispatch "second" [1], .stopConsumer, .tick 1, .resume 1, .take, .call, .call, .take]

def pending : List (Action String Nat Nat) :=
  [.subscribe 7, .startConsumer, .replaceLoop, .dispatch "first" [1], .stopConsumer]

theorem events_lost :
    (∃ s : Callbacks, Reachable step (· = World.new) s ∧ s.ended = true ∧ s.threads = [] ∧
      s.dispatched.map Item.number = [0, 1] ∧
      s.handed.map (fun p => (p.1.number, p.2)) = [(1, 7)] ∧ s.droppedEvents = 0) ∧
    ∃ s : Callbacks, Reachable step (· = World.new) s ∧ s.ended = true ∧ s.threads = [] ∧
      s.dispatched.map (fun item => (item.number, item.subscribers.keys)) = [(0, [7])] ∧
      s.handed = [] ∧ s.droppedEvents = 0 :=
  ⟨⟨_, reachable_of_run reload rfl rfl, rfl, rfl, rfl, rfl, rfl⟩,
    ⟨_, reachable_of_run pending rfl rfl, rfl, rfl, rfl, rfl, rfl⟩⟩

theorem events_delivered_shutdown : ∃ s : Callbacks,
    s.handed.map (fun p => (p.1.event, p.2)) = [("first", 7)] ∧ Delivered s := by
  have new : Guarded step Safe (· = World.new) (World.new : Callbacks) := .start rfl
  have subscribed := new.step (a := Action.subscribe 7) trivial rfl
  have started := subscribed.step (a := Action.startConsumer) (fun _ _ => rfl) rfl
  have dispatched := started.step (a := Action.dispatch "first" [1]) (fun _ _ => rfl) rfl
  have stopping := dispatched.step (a := Action.stopConsumer) (by
    intro j task
    cases task
    exact .inr rfl) rfl
  have finished := stopping.step (a := Action.tick 0) trivial rfl
  have draining := finished.step (a := Action.resume 0) trivial rfl
  have taken := draining.step (a := Action.take) trivial rfl
  have called := taken.step (a := Action.call) trivial rfl
  have handed := called.step (a := Action.call) trivial rfl
  have ended := handed.step (a := Action.take) trivial rfl
  exact ⟨_, rfl, events_delivered ended rfl (fun _ => nofun)⟩

end Reload

end Plexichat.Events
