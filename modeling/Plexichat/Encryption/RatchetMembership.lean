import Plexichat.Encryption.RatchetIntervals

/-! Messages and the intervals they name: send and edit of services/message/send.py and
edit_delete.py, the rotation after a send, and the hard delete with its split. A row keeps the
interval id it was inserted with, whatever becomes of the interval's end. -/
namespace Plexichat.Encryption.RatchetMembership
open Transition
open Ratchet hiding step Action Initial

inductive Action where
  /-- Sent through the ratchet; `saved` says whether the INSERT is committed. -/
  | send (messageId : Nat) (plaintext : Bytes) (now : Nat) (nonce : Nonce) (draw : Draw)
      (saved : Bool)
  /-- A system message, or one sent without a licence for the ratchet. -/
  | sendOther (messageId : Nat)
  | rotateIfDue (lastMessageId now : Nat) (draw : Draw)
  | edit (messageId : Nat) (plaintext : Bytes) (now : Nat) (nonce : Nonce) (draw : Draw)
  | hardDelete (messageId now : Nat) (draw : Draw)
  | softDelete (messageId : Nat)
  | rotateKeyring (newKey : Key)

section Calls

variable (aead : Aead) (kdf : Kdf) (cfg : Config) (conversationOf : Nat → Nat)

def insertMessage (s : State) (messageId : Nat) (ratchetIntervalId : Option Nat) : State :=
  { s with messages := s.messages ++ [⟨messageId, ratchetIntervalId, false⟩] }

/-- The id in the result of `encrypt` is that of the interval it ensured. -/
def send (s : State) (messageId : Nat) (plaintext : Bytes) (now : Nat) (nonce : Nonce)
    (draw : Draw) (saved : Bool) : State :=
  let c := conversationOf messageId
  match encrypt aead kdf s c messageId plaintext now nonce draw,
      (ensureInterval aead s c messageId now draw).2 with
  | (t, some _), some interval =>
    if saved then insertMessage t messageId (some interval.intervalId) else t
  | (t, _), _ => t

def removeMessage (s : State) (messageId : Nat) : State :=
  { s with messages := s.messages.filter fun m => m.id ≠ messageId }

def stored (s : State) (messageId : Nat) : Bool := s.messages.any fun m => m.id = messageId

/-- Without a row the call raises. The row keeps its interval id through an edit. -/
def step (s : State) : Action → Option State
  | .send messageId plaintext now nonce draw saved =>
    some (send aead kdf conversationOf s messageId plaintext now nonce draw saved)
  | .sendOther messageId => some (insertMessage s messageId none)
  | .rotateIfDue lastMessageId now draw =>
    some (rotateIfDue aead cfg s (conversationOf lastMessageId) lastMessageId now draw).1
  | .edit messageId plaintext now nonce draw =>
    if stored s messageId then
      some (encrypt aead kdf s (conversationOf messageId) messageId plaintext now nonce draw).1
    else none
  | .hardDelete messageId now draw =>
    if stored s messageId then
      some (splitOnDelete aead cfg (removeMessage s messageId) (conversationOf messageId) messageId
        now draw).1
    else none
  | .softDelete messageId => some { s with
      messages := s.messages.map fun m => if m.id = messageId then { m with deleted := true } else m }
  | .rotateKeyring newKey => some { s with ring := s.ring.rotate newKey }

def Membership (s : State) : Prop :=
  ∀ m ∈ s.messages, ∀ id, m.ratchetIntervalId = some id →
    ∃ interval, getById aead s id = some interval ∧ interval.contains m.id = true

def Below (s : State) (conversationId stop : Nat) : Prop :=
  ∀ r ∈ s.intervals.rows, isOpen conversationId r = true →
    ∀ m ∈ s.messages, m.ratchetIntervalId = some r.intervalId → m.id < stop

/-- Whether `encrypt` finds no active interval for the message. -/
def outside (s : State) (conversationId messageId : Nat) : Bool :=
  (getActive aead s conversationId).all fun active => !active.contains messageId

def ClosesAbove (s : State) : Action → Prop
  | .send messageId .. | .edit messageId .. =>
    outside aead s (conversationOf messageId) messageId = true →
      Below s (conversationOf messageId) messageId
  | .rotateIfDue lastMessageId now _ =>
    (getActive aead s (conversationOf lastMessageId)).any (fun active => due cfg s active now) =
      true → Below s (conversationOf lastMessageId) (lastMessageId + 1)
  | .hardDelete messageId _ _ =>
    cfg.splitOnDelete = true → outside aead s (conversationOf messageId) messageId = false →
      Below (removeMessage s messageId) (conversationOf messageId) (messageId + 1)
  | .sendOther _ | .softDelete _ | .rotateKeyring _ => True

end Calls

def Initial (s : State) : Prop := s.messages = []

/-- Rows keep their start, and open ones of the conversation may end at `stop`. -/
structure Cut (conversationId stop : Nat) (may : Prop) (s t : State) : Prop where
  messages : t.messages = s.messages
  rows : ∀ id r, s.intervals.find id = some r → ∃ q, t.intervals.find id = some q ∧
    q.conversationId = r.conversationId ∧ q.startMessageId = r.startMessageId ∧
    (q.endMessageId = r.endMessageId ∨
      may ∧ isOpen conversationId r = true ∧ q.endMessageId = some stop)

section Cuts

variable {aead : Aead} {kdf : Kdf} {cfg : Config} {c stop : Nat} {may : Prop} {s t w : State}

theorem Cut.same (messages : t.messages = s.messages) (intervals : t.intervals = s.intervals) :
    Cut c stop may s t := by
  refine ⟨messages, ?_⟩
  intro id r found
  exact ⟨r, intervals ▸ found, rfl, rfl, Or.inl rfl⟩

theorem Cut.trans (h : Cut c stop may s t) (k : Cut c stop may t w) : Cut c stop may s w := by
  refine ⟨k.messages.trans h.messages, ?_⟩
  intro id r found
  obtain ⟨q, foundQ, convQ, startQ, endQ⟩ := h.rows id r found
  obtain ⟨p, foundP, convP, startP, endP⟩ := k.rows id q foundQ
  refine ⟨p, foundP, convP.trans convQ, startP.trans startQ, ?_⟩
  rcases endQ with same | ⟨allowed, opened, cut⟩
  · rcases endP with again | ⟨allowed, opened, cut⟩
    · exact Or.inl (again.trans same)
    · refine Or.inr ⟨allowed, ?_, cut⟩
      rw [isOpen, ← convQ, ← same]
      exact opened
  · rcases endP with again | ⟨-, opened', -⟩
    · exact Or.inr ⟨allowed, opened, again.trans cut⟩
    · simp [isOpen, cut] at opened'

theorem Membership.cut (h : Membership aead s) (cut : Cut c stop may s t)
    (below : may → Below s c stop) : Membership aead t := by
  intro m mem id names
  rw [cut.messages] at mem
  obtain ⟨interval, found, inside⟩ := h m mem id names
  obtain ⟨r, row, rfl⟩ := Option.map_eq_some_iff.mp found
  obtain ⟨q, row', conversation, start, stops⟩ := cut.rows id r row
  refine ⟨rowToInterval aead t.ring q, by rw [getById, row']; rfl, ?_⟩
  have within := (IntervalRow.contains_iff r m.id).mp inside
  apply (IntervalRow.contains_iff q m.id).mpr
  refine ⟨start ▸ within.1, ?_⟩
  rcases stops with same | ⟨allowed, opened, cut⟩
  · rw [same]
    exact within.2
  · intro e ends
    cases cut.symm.trans ends
    obtain ⟨here, key⟩ := Table.find_eq_some.mp row
    exact below allowed r here opened m mem (key ▸ names)

theorem cut_touch (s : State) (id now : Nat) : Cut c stop may s (touch s id now) := by
  refine ⟨rfl, ?_⟩
  intro k r found
  refine ⟨_, (find_touch s id now k).trans (congrArg _ found), ?_⟩
  simp only
  split
  · exact ⟨rfl, rfl, Or.inl rfl⟩
  · exact ⟨rfl, rfl, Or.inl rfl⟩

theorem cut_closeActive (s : State) (c stop now : Nat) :
    Cut c stop True s (closeActive s c stop now) := by
  unfold closeActive
  split
  · rename_i active selected
    obtain ⟨here, conversation, opened⟩ := activeRow_some selected
    refine ⟨rfl, ?_⟩
    intro k r found
    refine ⟨_, (find_closeRow s active.intervalId stop now k).trans (congrArg _ found), ?_⟩
    simp only
    split
    · rename_i hit
      have same : r = active := Table.eq_of_key (Table.find_eq_some.mp found).1 here hit.1
      refine ⟨rfl, rfl, Or.inr ⟨trivial, ?_, rfl⟩⟩
      simp [isOpen, same, conversation, opened]
    · exact ⟨rfl, rfl, Or.inl rfl⟩
  · exact Cut.same rfl rfl

theorem cut_create (aead : Aead) (s : State) (c start now : Nat) (draw : Draw) :
    Cut c start True s (create aead s c start now draw).1 ∧
      ∀ i, (create aead s c start now draw).2 = some i →
        ∃ r, (create aead s c start now draw).1.intervals.find i.intervalId = some r ∧
          r.startMessageId = start ∧ r.endMessageId = none := by
  have closed := cut_closeActive s c start now
  unfold create
  simp only
  split
  · exact ⟨closed.trans (Cut.same rfl rfl), fun _ h => by cases h⟩
  · split
    · exact ⟨closed.trans (Cut.same rfl rfl), fun _ h => by cases h⟩
    · rename_i t inserted
      have find := Table.find_insert inserted
      refine ⟨closed.trans ⟨rfl, ?_⟩, ?_⟩
      · intro id r found
        have other : draw.newId ≠ id := by
          rintro rfl
          rw [(Table.insert_eq_some inserted).1] at found
          cases found
        exact ⟨r, (find id).trans ((if_neg other).trans found), rfl, rfl, Or.inl rfl⟩
      · intro i made
        cases made
        exact ⟨_, (find draw.newId).trans (if_pos rfl), rfl, rfl⟩

theorem Cut.when (h : Cut c stop True s t) (allowed : may) : Cut c stop may s t := by
  refine ⟨h.messages, ?_⟩
  intro id r found
  obtain ⟨q, row, conversation, start, stops⟩ := h.rows id r found
  exact ⟨q, row, conversation, start, stops.imp_right fun cut => ⟨allowed, cut.2⟩⟩

theorem cut_ensureInterval (aead : Aead) (s : State) (c m now : Nat) (draw : Draw) :
    Cut c m (outside aead s c m = true) s (ensureInterval aead s c m now draw).1 ∧
      ∀ i, (ensureInterval aead s c m now draw).2 = some i →
        ∃ r, (ensureInterval aead s c m now draw).1.intervals.find i.intervalId = some r ∧
          r.contains m = true := by
  have created : outside aead s c m = true →
      Cut c m (outside aead s c m = true) s (create aead s c m now draw).1 ∧
        ∀ i, (create aead s c m now draw).2 = some i →
          ∃ r, (create aead s c m now draw).1.intervals.find i.intervalId = some r ∧
            r.contains m = true := by
    intro alone
    obtain ⟨cut, made⟩ := cut_create aead s c m now draw
    refine ⟨cut.when alone, ?_⟩
    intro i result
    obtain ⟨r, found, start, opened⟩ := made i result
    refine ⟨r, found, (IntervalRow.contains_iff r m).mpr ⟨by omega, ?_⟩⟩
    intro e ends
    rw [opened] at ends
    cases ends
  unfold ensureInterval
  split
  · rename_i active found
    split
    · rename_i inside
      refine ⟨Cut.same rfl rfl, ?_⟩
      intro i result
      cases result
      obtain ⟨row, selected, rfl⟩ := getActive_row found
      exact ⟨row, Table.find_eq_some.mpr ⟨(activeRow_some selected).1, rfl⟩, inside⟩
    · rename_i past
      apply created
      simpa [outside, found] using past
  · rename_i nothing
    apply created
    simp [outside, nothing]

theorem cut_encrypt (aead : Aead) (kdf : Kdf) (s : State) (c m now : Nat) (plaintext : Bytes)
    (nonce : Nonce) (draw : Draw) : Cut c m (outside aead s c m = true) s
        (encrypt aead kdf s c m plaintext now nonce draw).1 ∧
      ∀ text i, (encrypt aead kdf s c m plaintext now nonce draw).2 = some text →
        (ensureInterval aead s c m now draw).2 = some i →
        ∃ r, (encrypt aead kdf s c m plaintext now nonce draw).1.intervals.find i.intervalId =
          some r ∧ r.contains m = true := by
  obtain ⟨cut, made⟩ := cut_ensureInterval aead s c m now draw
  unfold encrypt
  split
  · rename_i t failed
    rw [failed] at cut
    refine ⟨cut, ?_⟩
    intro text i result
    cases result
  · rename_i t interval ensured
    rw [ensured] at cut made
    split
    · refine ⟨cut, ?_⟩
      intro text i result
      cases result
    · refine ⟨cut.trans (cut_touch ..), ?_⟩
      intro text i _ same
      rw [ensured] at same
      cases same
      obtain ⟨r, found, inside⟩ := made interval rfl
      refine ⟨_, (find_touch ..).trans (congrArg _ found), ?_⟩
      simp only
      split
      · exact inside
      · exact inside

theorem cut_rotateIfDue (s : State) (c last now : Nat) (draw : Draw) :
    Cut c (last + 1)
      ((getActive aead s c).any (fun active => due cfg s active now) = true) s
      (rotateIfDue aead cfg s c last now draw).1 := by
  unfold rotateIfDue
  split
  · exact Cut.same rfl rfl
  · rename_i active found
    split
    · rename_i overdue
      apply (cut_create aead s c (last + 1) now draw).1.when
      simpa [found] using overdue
    · exact Cut.same rfl rfl

theorem cut_splitOnDelete (s : State) (c deleted now : Nat) (draw : Draw) :
    Cut c (deleted + 1) (cfg.splitOnDelete = true ∧ outside aead s c deleted = false) s
      (splitOnDelete aead cfg s c deleted now draw).1 := by
  unfold splitOnDelete
  split
  · rename_i enabled
    split
    · exact Cut.same rfl rfl
    · rename_i active found
      split
      · rename_i inside
        apply Cut.when
        · exact (cut_closeActive s c (deleted + 1) now).trans (cut_create aead _ c _ now draw).1
        · exact ⟨enabled, by simpa [outside, found] using inside⟩
      · exact Cut.same rfl rfl
  · exact Cut.same rfl rfl

end Cuts

section Steps

variable {aead : Aead} {kdf : Kdf} {cfg : Config} {conversationOf : Nat → Nat} {s t : State}

theorem Membership.insertMessage (h : Membership aead s) {messageId : Nat} {id : Option Nat}
    (there : ∀ k, id = some k → ∃ r, s.intervals.find k = some r ∧ r.contains messageId = true) :
    Membership aead (insertMessage s messageId id) := by
  intro m mem k names
  rcases List.mem_append.mp mem with before | new
  · exact h m before k names
  · cases List.mem_singleton.mp new
    obtain ⟨r, found, inside⟩ := there k names
    exact ⟨rowToInterval aead s.ring r, congrArg (Option.map _) found, inside⟩

theorem Membership.removeMessage (h : Membership aead s) (messageId : Nat) :
    Membership aead (removeMessage s messageId) :=
  fun m mem => h m (List.mem_filter.mp mem).1

theorem Membership.of_ring (h : Membership aead s) (ring : Ring) :
    Membership aead { s with ring } := by
  intro m mem k names
  obtain ⟨interval, found, inside⟩ := h m mem k names
  obtain ⟨r, row, rfl⟩ := Option.map_eq_some_iff.mp found
  exact ⟨rowToInterval aead ring r, congrArg (Option.map _) row, inside⟩

theorem Membership.send (h : Membership aead s) {messageId now : Nat} {plaintext : Bytes}
    {nonce : Nonce} {draw : Draw} {saved : Bool}
    (ok : outside aead s (conversationOf messageId) messageId = true →
      Below s (conversationOf messageId) messageId) :
    Membership aead (send aead kdf conversationOf s messageId plaintext now nonce draw saved) := by
  obtain ⟨cut, made⟩ := cut_encrypt aead kdf s (conversationOf messageId) messageId now
    plaintext nonce draw
  have kept := h.cut cut ok
  unfold RatchetMembership.send
  simp only
  split
  · rename_i t text interval encrypted ensured
    rw [encrypted] at kept made
    split
    · apply kept.insertMessage
      intro k names
      cases names
      exact made text interval rfl ensured
    · exact kept
  · rename_i t result encrypted failed
    rw [encrypted] at kept
    exact kept

theorem step_membership {a : Action} (h : Membership aead s)
    (ok : ClosesAbove aead cfg conversationOf s a)
    (moved : step aead kdf cfg conversationOf s a = some t) : Membership aead t := by
  cases a with
  | send messageId plaintext now nonce draw saved =>
    cases moved
    exact h.send ok
  | sendOther messageId =>
    cases moved
    apply h.insertMessage
    intro k names
    cases names
  | rotateIfDue last now draw =>
    cases moved
    exact h.cut (cut_rotateIfDue ..) ok
  | edit messageId plaintext now nonce draw =>
    simp only [step] at moved
    split at moved
    · cases moved
      exact h.cut (cut_encrypt ..).1 ok
    · cases moved
  | hardDelete messageId now draw =>
    simp only [step] at moved
    split at moved
    · cases moved
      exact (h.removeMessage messageId).cut (cut_splitOnDelete ..) fun both => ok both.1 both.2
    · cases moved
  | softDelete messageId =>
    cases moved
    intro m mem k names
    obtain ⟨n, there, rfl⟩ := List.mem_map.mp mem
    split at names
    · rename_i here
      rw [if_pos here]
      exact h n there k names
    · rename_i other
      rw [if_neg other]
      exact h n there k names
  | rotateKeyring newKey =>
    cases moved
    exact h.of_ring _

/-- While every open interval is closed above the messages that name it, they lie in it. -/
theorem messages_stay_in_intervals
    (h : Guarded (step aead kdf cfg conversationOf) (ClosesAbove aead cfg conversationOf)
      Initial s) : Membership aead s := by
  refine guarded_invariant ?_ (fun _ _ _ kept ok moved => step_membership kept ok moved) h
  intro s first m mem
  rw [first] at mem
  cases mem

end Steps

instance (s : State) (c stop : Nat) : Decidable (Below s c stop) :=
  inferInstanceAs (Decidable (∀ r ∈ s.intervals.rows, isOpen c r = true → ∀ m ∈ s.messages,
    m.ratchetIntervalId = some r.intervalId → m.id < stop))

instance (aead : Aead) (cfg : Config) (conversationOf : Nat → Nat) (s : State) :
    (a : Action) → Decidable (ClosesAbove aead cfg conversationOf s a)
  | .send messageId .. | .edit messageId .. =>
    inferInstanceAs (Decidable (outside aead s (conversationOf messageId) messageId = true →
      Below s (conversationOf messageId) messageId))
  | .rotateIfDue lastMessageId now _ => inferInstanceAs (Decidable
      ((getActive aead s (conversationOf lastMessageId)).any (fun active => due cfg s active now) =
        true → Below s (conversationOf lastMessageId) (lastMessageId + 1)))
  | .hardDelete messageId _ _ => inferInstanceAs (Decidable (cfg.splitOnDelete = true →
      outside aead s (conversationOf messageId) messageId = false →
        Below (removeMessage s messageId) (conversationOf messageId) (messageId + 1)))
  | .sendOther _ | .softDelete _ | .rotateKeyring _ => isTrue trivial

def sends (messageId : Nat) : Action :=
  .send messageId [104, 105] 0 (sampleNonce 5) (sampleDraw messageId) true

/-- The older of two messages is deleted: the interval ends below the newer one. -/
theorem delete_of_older_message_cuts : ¬ ∀ s : State,
    Reachable (step shiftAead sampleKdf defaultConfig fun _ => 1) Initial s →
      Membership shiftAead s := by
  intro law
  let calls := [sends 10, sends 11, .hardDelete 10 1 (sampleDraw 2)]
  let s : State :=
    (run (step shiftAead sampleKdf defaultConfig fun _ => 1) noIntervals calls).get (by decide +kernel)
  have reached : Reachable (step shiftAead sampleKdf defaultConfig fun _ => 1) Initial s :=
    reachable_of_run (s := noIntervals) calls rfl (Option.some_get _).symm
  have newer : ∃ m ∈ s.messages, m.id = 11 ∧ m.ratchetIntervalId = some 10 := by decide +kernel
  obtain ⟨m, mem, eleven, names⟩ := newer
  obtain ⟨interval, found, inside⟩ := law s reached m mem 10 names
  have ended : (getById shiftAead s 10).any (fun i => i.contains 11) = false := by decide +kernel
  rw [found, Option.any_some, ← eleven, inside] at ended
  cases ended

/-- The newest message may go, and the next one names the new interval. -/
theorem delete_of_newest_message_keeps : ∃ s : State,
    s.messages.map MessageRow.ratchetIntervalId = [some 10, some 2] ∧ Membership shiftAead s := by
  let calls := [sends 10, sends 11, .hardDelete 11 1 (sampleDraw 2), sends 12]
  let s : State := (runGuarded (step shiftAead sampleKdf defaultConfig fun _ => 1)
    (ClosesAbove shiftAead defaultConfig fun _ => 1) noIntervals calls).get (by decide +kernel)
  exact ⟨s, by decide +kernel, messages_stay_in_intervals
    (guarded_of_run (s := noIntervals) calls rfl (Option.some_get _).symm)⟩

end Plexichat.Encryption.RatchetMembership
