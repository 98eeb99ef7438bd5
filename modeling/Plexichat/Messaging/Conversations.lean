import Mathlib.Data.List.Sort
import Plexichat.Library.Table

/-! The tables of conversations, participants and DM pairs, with the statements of
repositories/conversation.py and repositories/participant.py on them. -/
namespace Plexichat.Messaging

inductive ConversationType where
  | dm | group | notes | thread
  deriving DecidableEq

inductive ParticipantRole where
  | owner | admin | member
  deriving DecidableEq

structure ConversationRow where
  id : Nat
  conversationType : ConversationType
  ownerId : Option Nat
  maxParticipants : Int
  deleted : Bool
  deriving DecidableEq

structure ParticipantRow where
  conversationId : Nat
  userId : Nat
  role : ParticipantRole
  joinedAt : Nat
  deriving DecidableEq

def ParticipantRow.key (p : ParticipantRow) : Nat × Nat := (p.conversationId, p.userId)

/-- A row of msg_dm_lookup, the smaller user first. -/
structure DmLookup where
  user1Id : Nat
  user2Id : Nat
  conversationId : Nat
  deriving DecidableEq

def DmLookup.key (l : DmLookup) : Nat × Nat := (l.user1Id, l.user2Id)

/-- Participants belong to rows of msg_conversations: the foreign key is part of the type. -/
structure Conversations where
  conversations : Table ConversationRow ConversationRow.id
  participants : Table ParticipantRow ParticipantRow.key
  dmLookup : Table DmLookup DmLookup.key
  known : ∀ p ∈ participants, (conversations.find p.conversationId).isSome

namespace Conversations

def empty : Conversations := ⟨Table.empty, Table.empty, Table.empty, fun _ mem => nomatch mem⟩

def seats (db : Conversations) (conversationId : Nat) : List ParticipantRow :=
  db.participants.rows.filter fun p => p.conversationId = conversationId

def participantCount (db : Conversations) (conversationId : Nat) : Nat :=
  (db.seats conversationId).length

/-- `get_by_id` sees no deleted conversation. -/
def getById (db : Conversations) (conversationId : Nat) : Option ConversationRow :=
  (db.conversations.find conversationId).filter fun c => !c.deleted

def getParticipant (db : Conversations) (conversationId userId : Nat) : Option ParticipantRow :=
  db.participants.find (conversationId, userId)

def create (db : Conversations) (row : ConversationRow) : Option Conversations :=
  match h : db.conversations.insert row with
  | none => none
  | some conversations => some { db with
      conversations
      known := by
        intro p mem
        rw [Table.find_insert h]
        split
        · rfl
        · exact db.known p mem }

/-- `INSERT OR IGNORE` of a participant; an unknown conversation is an integrity error. -/
def createParticipant (db : Conversations) (row : ParticipantRow) : Option Conversations :=
  if h : (db.conversations.find row.conversationId).isSome then
    some { db with
      participants := db.participants.insertOrIgnore row
      known := by
        intro p mem
        unfold Table.insertOrIgnore at mem
        cases inserted : db.participants.insert row with
        | none =>
          rw [inserted] at mem
          exact db.known p mem
        | some participants =>
          rw [inserted] at mem
          rcases (Table.mem_insert inserted).mp mem with before | rfl
          · exact db.known p before
          · exact h }
  else none

def deleteParticipant (db : Conversations) (conversationId userId : Nat) : Conversations :=
  { db with
    participants := db.participants.delete fun p =>
      p.conversationId = conversationId && p.userId = userId
    known := fun p mem => db.known p (Table.mem_delete.mp mem).1 }

def setRole (role : ParticipantRole) (p : ParticipantRow) : ParticipantRow := { p with role }

def updateRole (db : Conversations) (conversationId userId : Nat) (role : ParticipantRole) :
    Conversations :=
  { db with
    participants := db.participants.update
      (fun p => p.conversationId = conversationId && p.userId = userId) (setRole role) fun _ => rfl
    known := by
      intro p mem
      obtain ⟨q, member, rfl⟩ := Table.mem_update.mp mem
      split
      · exact db.known q member
      · exact db.known q member }

def updateConversation (db : Conversations) (conversationId : Nat)
    (f : ConversationRow → ConversationRow) (same : ∀ c, (f c).id = c.id) : Conversations :=
  { db with
    conversations := db.conversations.update (fun c => c.id = conversationId) f same
    known := by
      intro p mem
      rw [Table.find_update, Option.isSome_map]
      exact db.known p mem }

def updateOwner (db : Conversations) (conversationId newOwnerId : Nat) : Conversations :=
  db.updateConversation conversationId (fun c => { c with ownerId := some newOwnerId }) fun _ => rfl

def softDelete (db : Conversations) (conversationId : Nat) : Conversations :=
  db.updateConversation conversationId (fun c => { c with deleted := true }) fun _ => rfl

def nextOwnerFirst (p q : ParticipantRow) : Bool :=
  let rank (p : ParticipantRow) : Nat := if p.role = .admin then 0 else 1
  rank p < rank q || rank p = rank q && p.joinedAt ≤ q.joinedAt

def findNextOwner (db : Conversations) (conversationId excludeUserId : Nat) : Option Nat :=
  ((((db.seats conversationId).filter fun p => p.userId ≠ excludeUserId).insertionSort
    fun p q => nextOwnerFirst p q).head?).map ParticipantRow.userId

def pair (user1Id user2Id : Nat) : Nat × Nat := (min user1Id user2Id, max user1Id user2Id)

def getDmLookup (db : Conversations) (user1Id user2Id : Nat) : Option Nat :=
  (db.dmLookup.find (pair user1Id user2Id)).map DmLookup.conversationId

/-- The UNIQUE pair makes a second INSERT an integrity error. -/
def createDmLookup (db : Conversations) (user1Id user2Id conversationId : Nat) :
    Option Conversations :=
  (db.dmLookup.insert ⟨min user1Id user2Id, max user1Id user2Id, conversationId⟩).map
    fun dmLookup => { db with dmLookup }

def deleteDmLookup (db : Conversations) (conversationId : Nat) : Conversations :=
  { db with dmLookup := db.dmLookup.delete fun l => l.conversationId = conversationId }

section Lemmas

variable {db db' : Conversations} {conversationId userId : Nat}

theorem mem_seats {p : ParticipantRow} : p ∈ db.seats conversationId ↔
    p ∈ db.participants ∧ p.conversationId = conversationId := by
  simp [seats, Table.mem_rows]

theorem seats_nodup (db : Conversations) (conversationId : Nat) :
    ((db.seats conversationId).map ParticipantRow.userId).Nodup := by
  have keys : ((db.seats conversationId).map ParticipantRow.key).Nodup :=
    db.participants.unique.sublist (List.filter_sublist.map _)
  have pairs : (db.seats conversationId).map ParticipantRow.key =
      ((db.seats conversationId).map ParticipantRow.userId).map fun u => (conversationId, u) := by
    rw [List.map_map]
    apply List.map_congr_left
    intro p mem
    simp [ParticipantRow.key, (mem_seats.mp mem).2]
  rw [pairs] at keys
  exact keys.of_map _

theorem getParticipant_eq_some {p : ParticipantRow} :
    db.getParticipant conversationId userId = some p ↔
      p ∈ db.seats conversationId ∧ p.userId = userId := by
  rw [getParticipant, Table.find_eq_some, mem_seats, and_assoc]
  simp [ParticipantRow.key]

theorem getParticipant_eq_none : db.getParticipant conversationId userId = none ↔
    userId ∉ (db.seats conversationId).map ParticipantRow.userId := by
  rw [Option.eq_none_iff_forall_ne_some, List.mem_map]
  simp only [ne_eq, getParticipant_eq_some, not_exists]

theorem seats_eq_nil (h : db.conversations.find conversationId = none) :
    db.seats conversationId = [] := by
  apply List.eq_nil_iff_forall_not_mem.mpr
  intro p mem
  have there := db.known p (mem_seats.mp mem).1
  rw [(mem_seats.mp mem).2, h] at there
  cases there

theorem create_eq_some {row : ConversationRow} (h : db.create row = some db') :
    db.conversations.find row.id = none ∧ db'.participants = db.participants ∧
      db'.dmLookup = db.dmLookup ∧
      ∀ k, db'.conversations.find k = if row.id = k then some row else db.conversations.find k := by
  unfold create at h
  split at h
  · cases h
  · rename_i conversations inserted
    cases h
    exact ⟨(Table.insert_eq_some inserted).1, rfl, rfl, Table.find_insert inserted⟩

theorem createParticipant_eq_some {row : ParticipantRow}
    (h : db.createParticipant row = some db') :
    db'.conversations = db.conversations ∧ db'.dmLookup = db.dmLookup ∧
      (db.getParticipant row.conversationId row.userId = none →
        db'.participants.rows = db.participants.rows ++ [row]) := by
  unfold createParticipant at h
  split at h
  · cases h
    refine ⟨rfl, rfl, ?_⟩
    intro absent
    obtain ⟨participants, inserted⟩ := Table.insert_of_fresh (r := row) absent
    have rows := (Table.insert_eq_some inserted).2
    simpa [Table.insertOrIgnore, inserted] using rows
  · cases h

theorem createParticipant_of_known {row : ParticipantRow}
    (there : (db.conversations.find row.conversationId).isSome) :
    ∃ db', db.createParticipant row = some db' := ⟨_, dif_pos there⟩

theorem seats_append {row : ParticipantRow}
    (rows : db'.participants.rows = db.participants.rows ++ [row]) (c : Nat) :
    db'.seats c = db.seats c ++ if row.conversationId = c then [row] else [] := by
  rw [seats, rows, List.filter_append]
  split
  · rename_i here
    simp [seats, here]
  · rename_i elsewhere
    simp [seats, elsewhere]

theorem seats_deleteParticipant (db : Conversations) (conversationId userId c : Nat) :
    (db.deleteParticipant conversationId userId).seats c =
      if c = conversationId then (db.seats c).filter fun p => p.userId ≠ userId else db.seats c := by
  simp only [seats, deleteParticipant, Table.delete, List.filter_filter]
  split
  · rename_i here
    apply List.filter_congr
    intro p _
    by_cases member : p.conversationId = c
    · simp [member, here]
    · simp [member]
  · rename_i elsewhere
    apply List.filter_congr
    intro p _
    by_cases member : p.conversationId = c
    · simp [member, elsewhere]
    · simp [member]

theorem seats_updateRole (db : Conversations) (conversationId userId : Nat)
    (role : ParticipantRole) (c : Nat) : (db.updateRole conversationId userId role).seats c =
      if c = conversationId then
        (db.seats c).map fun p => if p.userId = userId then setRole role p else p
      else db.seats c := by
  have moved : (db.updateRole conversationId userId role).seats c = (db.seats c).map fun p =>
      if p.conversationId = conversationId && p.userId = userId then setRole role p else p := by
    simp only [seats, updateRole, Table.update, List.filter_map]
    congr 1
    apply List.filter_congr
    intro p _
    simp only [Function.comp]
    split
    · rfl
    · rfl
  rw [moved]
  split
  · rename_i here
    apply List.map_congr_left
    intro p mem
    simp [(mem_seats.mp mem).2, here]
  · rename_i elsewhere
    refine (List.map_congr_left ?_).trans (List.map_id _)
    intro p mem
    simp [(mem_seats.mp mem).2, elsewhere]

theorem find_updateConversation (db : Conversations) (conversationId : Nat)
    (f : ConversationRow → ConversationRow) (same : ∀ c, (f c).id = c.id) (c : Nat) :
    (db.updateConversation conversationId f same).conversations.find c =
      if c = conversationId then (db.conversations.find c).map f else db.conversations.find c := by
  rw [updateConversation, Table.find_update]
  cases found : db.conversations.find c with
  | none => simp
  | some row =>
    have key := (Table.find_eq_some.mp found).2
    by_cases here : c = conversationId
    · simp [key, here]
    · simp [key, here]

theorem findNextOwner_eq_some {excludeUserId newOwner : Nat}
    (h : db.findNextOwner conversationId excludeUserId = some newOwner) :
    newOwner ≠ excludeUserId ∧ newOwner ∈ (db.seats conversationId).map ParticipantRow.userId := by
  unfold findNextOwner at h
  obtain ⟨p, first, rfl⟩ := Option.map_eq_some_iff.mp h
  have mem := (List.mem_insertionSort _).mp (List.mem_of_head? first)
  obtain ⟨member, other⟩ := List.mem_filter.mp mem
  exact ⟨of_decide_eq_true other, List.mem_map_of_mem member⟩

end Lemmas

end Conversations

end Plexichat.Messaging
