import Plexichat.Library.Interleaving

/-! mark_read of services/message_status.py for one user in one conversation, one
statement at a time. The target is compared with the marker read at the start; the UPDATE
that stores it looks at neither. -/
namespace Plexichat.Messaging.ReadMarkers
open Interleaving Transition

/-- The marker columns of a row of msg_participants. -/
structure Row where
  lastReadMessageId : Option Nat
  lastReadAt : Option Nat

abbrev Store := Option Row

inductive Pc where
  | idle
  | reading (upToMessageId : Option Nat)
  | choosing (upToMessageId : Option Nat) (lastReadId : Nat)
  | marking (targetMsgId : Nat)
  | returned (targetMsgId : Option Nat)
  | raised

inductive Action where
  | markRead (upToMessageId : Option Nat)
  | getParticipant (isParticipant : Bool)
  /-- `get_max_id_in_conversation` gives this id. -/
  | choose (maxId : Option Nat)
  | updateLastRead (now : Nat)
  /-- A setting, a receipt or a cache cannot be read or written. -/
  | fails

/-- `participant.last_read_message_id or 0`. -/
def marker (c : Store) : Nat := (c.bind Row.lastReadMessageId).getD 0

/-- Zero and None both ask for the newest message. -/
def target (upToMessageId maxId : Option Nat) : Option Nat :=
  (upToMessageId.filter (0 < ·)).or maxId

def choose (upToMessageId maxId : Option Nat) (lastReadId : Nat) : Pc :=
  match target upToMessageId maxId with
  | none => .returned none
  | some targetMsgId =>
    if targetMsgId ≤ lastReadId then .returned (some targetMsgId) else .marking targetMsgId

def next (c : Store) : Pc → Action → Option (Store × Pc)
  | .idle, .markRead upToMessageId => some (c, .reading upToMessageId)
  | .reading upToMessageId, .getParticipant isParticipant =>
    if c.isSome || isParticipant then some (c, .choosing upToMessageId (marker c))
    else some (c, .raised)
  | .choosing upToMessageId lastReadId, .choose maxId =>
    some (c, choose upToMessageId maxId lastReadId)
  | .marking targetMsgId, .updateLastRead now =>
    some (c.map fun _ => ⟨some targetMsgId, some now⟩, .returned (some targetMsgId))
  | .marking _, .fails => some (c, .raised)
  | _, _ => none

variable {ι : Type}

def Initial (s : State ι Store Pc) : Prop := ∀ i, s.pc i = .idle

def NeverRegresses (s : State ι Store Pc) : Prop :=
  ∀ i targetMsgId, s.pc i = .returned (some targetMsgId) → targetMsgId ≤ marker s.shared

/-- The UPDATE finds a row, and no marker above its own target. -/
def Forward (c : Store) : Pc → Action → Bool
  | .marking targetMsgId, .updateLastRead _ => c.isSome && marker c ≤ targetMsgId
  | _, _ => true

def Pc.floor : Pc → Nat
  | .choosing _ lastReadId => lastReadId
  | .returned (some targetMsgId) => targetMsgId
  | _ => 0

theorem floor_choose (upToMessageId maxId : Option Nat) (lastReadId : Nat) :
    (choose upToMessageId maxId lastReadId).floor ≤ lastReadId := by
  unfold choose
  split
  · exact Nat.zero_le _
  · split
    · rename_i low
      exact low
    · exact Nat.zero_le _

theorem next_floor {c : Store} {p : Pc} {a : Action} {r : Store × Pc} (low : p.floor ≤ marker c)
    (ok : Forward c p a = true) (moved : next c p a = some r) :
    marker c ≤ marker r.1 ∧ r.2.floor ≤ marker r.1 := by
  unfold next at moved
  split at moved
  · cases moved
    exact ⟨le_rfl, Nat.zero_le _⟩
  · split at moved
    · cases moved
      exact ⟨le_rfl, le_rfl⟩
    · cases moved
      exact ⟨le_rfl, Nat.zero_le _⟩
  · cases moved
    exact ⟨le_rfl, (floor_choose _ _ _).trans low⟩
  · rename_i targetMsgId now
    cases moved
    simp only [Forward, Bool.and_eq_true, decide_eq_true_eq] at ok
    obtain ⟨row, rfl⟩ := Option.isSome_iff_exists.mp ok.1
    exact ⟨ok.2, le_rfl⟩
  · cases moved
    exact ⟨le_rfl, Nat.zero_le _⟩
  · cases moved

variable [DecidableEq ι]

/-- While no UPDATE meets a marker above its target, or no row, the marker never falls behind a
call that returned. -/
theorem markers_never_regress {s : State ι Store Pc}
    (h : Guarded (step next) (fun s a => Forward s.shared (s.pc a.1) a.2 = true) Initial s) :
    NeverRegresses s := by
  have holds : Holds (fun _ => True) (fun c p => p.floor ≤ marker c) (fun _ _ => True) s := by
    refine holds_throughout ?_ ?_ h
    · intro s idle
      refine ⟨trivial, ?_, fun _ _ _ => trivial⟩
      intro i
      rw [idle i]
      exact Nat.zero_le _
    · intro s i a r holds ok moved
      obtain ⟨grows, own⟩ := next_floor (holds.each i) ok moved
      exact ⟨trivial, own, fun j _ => ⟨(holds.each j).trans grows, trivial, trivial⟩⟩
  intro i targetMsgId returned
  have low := holds.each i
  rw [returned] at low
  exact low

def unread : State Bool Store Pc := ⟨some ⟨none, none⟩, fun _ => .idle⟩

def reads (i : Bool) (targetMsgId : Nat) : List (Bool × Action) :=
  [(i, .markRead (some targetMsgId)), (i, .getParticipant true), (i, .choose none)]

def marks (i : Bool) (now : Nat) : List (Bool × Action) := [(i, .updateLastRead now)]

/-- Two devices: the one that saw less writes last. -/
theorem late_device_turns_marker_back : ¬ ∀ s : State Bool Store Pc,
    Reachable (step next) Initial s → NeverRegresses s := by
  intro law
  let calls := reads true 5 ++ reads false 3 ++ marks true 0 ++ marks false 1
  let s := (run (step next) unread calls).get rfl
  have reached : Reachable (step next) Initial s :=
    reachable_of_run (s := unread) calls (fun _ => rfl) (Option.some_get _).symm
  exact absurd (law s reached true 5 rfl) (by decide)

/-- In the other order the marker ends at the larger target. -/
theorem marker_keeps_larger_target : ∃ s : State Bool Store Pc,
    s.pc false = .returned (some 3) ∧ marker s.shared = 5 ∧ NeverRegresses s := by
  let calls := reads true 5 ++ reads false 3 ++ marks false 0 ++ marks true 1
  let s := (runGuarded (step next) (fun s a => Forward s.shared (s.pc a.1) a.2 = true)
    unread calls).get rfl
  have reached : Guarded (step next) (fun s a => Forward s.shared (s.pc a.1) a.2 = true)
      Initial s := guarded_of_run (s := unread) calls (fun _ => rfl) (Option.some_get _).symm
  exact ⟨s, rfl, rfl, markers_never_regress reached⟩

end Plexichat.Messaging.ReadMarkers
