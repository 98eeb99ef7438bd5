import Mathlib.Data.List.Basic
import Mathlib.Data.List.TakeDrop

/-! api/websocket/session.py: a resumable session, with the number of its last event and the
bounded buffer of the events to replay. -/
namespace Plexichat.Gateway

/-- The `s` of a DISPATCH frame and what it carries. -/
structure Payload (β : Type) where
  s : Nat
  body : β
  deriving DecidableEq

structure Session (β : Type) where
  sequence : Nat
  replayEvents : List (Payload β)
  deriving DecidableEq

def MAX_REPLAY_EVENTS : Nat := 100

variable {β : Type}

namespace Session

def addReplayEvent (max : Nat) (session : Session β) (event : Payload β) : Session β :=
  let appended := session.replayEvents ++ [event]
  { session with
    replayEvents := if max < appended.length then appended.drop 1 else appended }

def getReplayEvents (session : Session β) (after : Nat) : List (Payload β) :=
  session.replayEvents.filter fun e => after < e.s

/-- `record_event` on the session it finds -/
def recordEvent (max : Nat) (session : Session β) (event : Payload β) : Session β :=
  let added := session.addReplayEvent max event
  { added with sequence := Nat.max added.sequence event.s }

/-- What `resume_session` does to the number. -/
def resume (session : Session β) (sequence : Nat) : Session β :=
  { session with sequence := Nat.max session.sequence sequence }

end Session

def highest {α : Type} (number : α → Nat) : List α → Nat
  | [] => 0
  | a :: as => Nat.max (number a) (highest number as)

@[simp] theorem highest_append {α : Type} (number : α → Nat) (as : List α) (a : α) :
    highest number (as ++ [a]) = Nat.max (highest number as) (number a) := by
  induction as with
  | nil => simp [highest]
  | cons b as ih => simp [highest, ih, Nat.max_assoc]

theorem le_highest {α : Type} {number : α → Nat} {as : List α} {a : α} (h : a ∈ as) :
    number a ≤ highest number as := by
  induction as with
  | nil => cases h
  | cons b as ih =>
    cases h with
    | head => exact Nat.le_max_left _ _
    | tail _ later => exact Nat.le_trans (ih later) (Nat.le_max_right _ _)

/-- Payloads numbered from `n + 1` on. -/
def numbered (n : Nat) : List β → List (Payload β)
  | [] => []
  | e :: es => ⟨n + 1, e⟩ :: numbered (n + 1) es

@[simp] theorem numbered_nil (n : Nat) : numbered n ([] : List β) = [] := rfl

@[simp] theorem numbered_length (n : Nat) (es : List β) : (numbered n es).length = es.length := by
  induction es generalizing n with
  | nil => rfl
  | cons e es ih => simp [numbered, ih]

@[simp] theorem numbered_bodies (n : Nat) (es : List β) :
    (numbered n es).map Payload.body = es := by
  induction es generalizing n with
  | nil => rfl
  | cons e es ih => simp [numbered, ih]

theorem numbered_append (n : Nat) (es fs : List β) :
    numbered n (es ++ fs) = numbered n es ++ numbered (n + es.length) fs := by
  induction es generalizing n with
  | nil => rfl
  | cons e es ih => simp [numbered, ih, Nat.add_assoc, Nat.add_comm 1]

theorem numbered_drop (n k : Nat) (es : List β) :
    (numbered n es).drop k = numbered (n + k) (es.drop k) := by
  induction k generalizing n es with
  | zero => rfl
  | succ k ih =>
    cases es with
    | nil => rfl
    | cons e es => simpa [numbered, Nat.add_assoc, Nat.add_comm 1] using ih (n + 1) es

theorem lt_of_mem_numbered {n : Nat} {es : List β} {p : Payload β} (h : p ∈ numbered n es) :
    n < p.s ∧ p.s ≤ n + es.length := by
  induction es generalizing n with
  | nil => cases h
  | cons e es ih =>
    cases h with
    | head => exact ⟨Nat.lt_succ_self n, by simp⟩
    | tail _ later =>
      have bounds := ih later
      simp only [List.length_cons]
      omega

theorem numbered_getElem {n i : Nat} {es : List β} (h : i < (numbered n es).length) :
    (numbered n es)[i].s = n + i + 1 := by
  induction es generalizing n i with
  | nil => cases h
  | cons e es ih =>
    cases i with
    | zero => rfl
    | succ i =>
      have later : i < (numbered (n + 1) es).length := Nat.lt_of_succ_lt_succ h
      have number := ih later
      simp only [numbered, List.getElem_cons_succ]
      omega

theorem le_of_mem_take_numbered {n k : Nat} {es : List β} {p : Payload β}
    (h : p ∈ (numbered n es).take k) : p.s ≤ n + k := by
  obtain ⟨i, less, rfl⟩ := List.mem_iff_getElem.mp h
  rw [List.getElem_take, numbered_getElem]
  rw [List.length_take] at less
  omega

theorem numbered_sorted (n : Nat) (es : List β) :
    (numbered n es).Pairwise fun p q => p.s < q.s := by
  induction es generalizing n with
  | nil => exact .nil
  | cons e es ih => exact .cons (fun q later => (lt_of_mem_numbered later).1) (ih (n + 1))

theorem filter_numbered {n k : Nat} (le : n ≤ k) (es : List β) :
    ((numbered n es).filter fun p => k < p.s) = (numbered n es).drop (k - n) := by
  induction es generalizing n with
  | nil => simp
  | cons e es ih =>
    rcases Nat.lt_or_eq_of_le le with less | rfl
    · have head : ¬ k < n + 1 := by omega
      have later : k - n = k - (n + 1) + 1 := by omega
      simp [numbered, head, later, ih less]
    · have all : ∀ p ∈ numbered n (e :: es), decide (n < p.s) = true :=
        fun p h => decide_eq_true (lt_of_mem_numbered h).1
      rw [List.filter_eq_self.mpr all, Nat.sub_self, List.drop_zero]

theorem addReplayEvent_numbered {max : Nat} {es : List β} {session : Session β} (e : β)
    (h : session.replayEvents = (numbered 0 es).drop (es.length - max)) :
    (session.addReplayEvent max ⟨es.length + 1, e⟩).replayEvents =
      (numbered 0 (es ++ [e])).drop ((es ++ [e]).length - max) := by
  have all : numbered 0 (es ++ [e]) = numbered 0 es ++ [⟨es.length + 1, e⟩] := by
    simp [numbered_append, numbered]
  have kept : es.length - max ≤ (numbered 0 es).length := by simp
  simp only [Session.addReplayEvent, h, all, List.length_append, List.length_drop,
    numbered_length, List.length_cons, List.length_nil]
  split
  · have one : es.length + (0 + 1) - max = es.length - max + 1 := by omega
    rw [one, ← List.drop_drop, List.drop_append_of_le_length kept]
  · have none' : es.length - max = 0 := by omega
    have none'' : es.length + (0 + 1) - max = 0 := by omega
    rw [none', none'', List.drop_zero, List.drop_zero]

theorem getReplayEvents_numbered {max k : Nat} {es : List β} {session : Session β}
    (h : session.replayEvents = (numbered 0 es).drop (es.length - max))
    (room : es.length ≤ k + max) : session.getReplayEvents k = (numbered 0 es).drop k := by
  have inside : es.length - max ≤ k := by omega
  have onward : es.length - max + (k - (es.length - max)) = k := Nat.add_sub_of_le inside
  rw [Session.getReplayEvents, h, numbered_drop, Nat.zero_add, filter_numbered inside,
    numbered_drop, List.drop_drop, onward, numbered_drop, Nat.zero_add]

end Plexichat.Gateway
