import Mathlib.Data.List.Sort
import Plexichat.Library.Grouping
import Plexichat.Library.Table

/-! core/reactions: the reactions of one message, and those of many messages in one query, which asks
other tables who may see a message. -/
namespace Plexichat.Reactions.Batch

open Grouping

structure Message where
  id : Nat
  conversationId : Nat
  deleted : Bool

/-- The metadata of a conversation as it reads back; a dictionary may have no server_id. -/
inductive Metadata where
  | absent | unreadable | other
  | dict (serverId : Option Nat)

structure Conversation where
  id : Nat
  metadata : Metadata

structure Participant where
  conversationId : Nat
  userId : Nat

/-- srv_channels -/
structure Channel where
  serverId : Nat
  conversationId : Option Nat

/-- srv_members -/
structure Member where
  serverId : Nat
  userId : Nat

structure Reaction where
  messageId : Nat
  userId : Nat
  emoji : List Char
  isCustom : Bool
  customEmojiId : Option Nat
  createdAt : Nat

structure CustomEmoji where
  id : Nat
  url : List Char

structure Block where
  blockerId : Nat
  blockedId : Nat

structure Db where
  messages : Table Message Message.id
  conversations : Table Conversation Conversation.id
  participants : List Participant
  channels : List Channel
  members : List Member
  reactions : List Reaction
  customEmoji : Table CustomEmoji CustomEmoji.id
  /-- rel_blocked -/
  blocks : List Block
  /-- `get_blocked_user_ids` of the relationships, which keeps its answers for a while; none without
  the module. -/
  relationships : Option (Nat → List Nat)

structure Kind where
  emoji : List Char
  isCustom : Bool
  customEmojiId : Option Nat
  url : Option (List Char)
  deriving DecidableEq

structure Count where
  kind : Kind
  count : Nat
  me : Bool
  /-- MIN(created_at), which the entries are in the order of -/
  firstAt : Option Nat
  deriving DecidableEq

/-- The columns of a group: COUNT(*), whether one of the rows is the viewer's, and the first. -/
def countOf (viewer : Nat) (g : Kind × List Reaction) : Count :=
  ⟨g.1, g.2.length, g.2.any fun r => r.userId = viewer, (g.2.map Reaction.createdAt).min?⟩

def ordered (counts : List Count) : List Count :=
  counts.insertionSort fun a b => a.firstAt.getD 0 ≤ b.firstAt.getD 0

namespace Db

variable (db : Db) (viewer : Nat)

def getMessage (messageId : Nat) : Option Message :=
  (db.messages.find messageId).filter fun m => !m.deleted

def isMember (serverId : Nat) : Bool :=
  db.members.any fun m => m.serverId = serverId ∧ m.userId = viewer

def inConversation (conversationId : Nat) : Bool :=
  db.participants.any fun p => p.conversationId = conversationId ∧ p.userId = viewer

def isParticipant (conversationId : Nat) : Bool :=
  if db.inConversation viewer conversationId then true
  else match (db.conversations.find conversationId).map Conversation.metadata with
    | some (.dict (some serverId)) => if serverId ≠ 0 then db.isMember viewer serverId else false
    | _ => false

/-- `_get_blocked_user_ids` -/
def blockedUserIds : List Nat :=
  match db.relationships with
  | none => []
  | some blockedBy =>
    if viewer = 0 then []
    else blockedBy viewer ++
      (db.blocks.filter fun b => b.blockedId = viewer).map Block.blockerId

/-- The LEFT JOIN with the custom emoji. -/
def kind (r : Reaction) : Kind :=
  ⟨r.emoji, r.isCustom, r.customEmojiId,
    (r.customEmojiId.bind db.customEmoji.find).map CustomEmoji.url⟩

def unblocked : List Reaction :=
  db.reactions.filter fun r => !(db.blockedUserIds viewer).contains r.userId

/-- `get_reactions`; none is MessageNotFoundError. -/
def getReactions (messageId : Nat) : Option (List Count) :=
  match db.getMessage messageId with
  | none => none
  | some m =>
    if db.isParticipant viewer m.conversationId then
      let rows := (db.unblocked viewer).filter fun r => r.messageId = messageId
      some ((ordered ((groups db.kind rows).map (countOf viewer))).filter fun c => 0 < c.count)
    else none

def joined (messageId : Nat) : Bool :=
  db.messages.rows.any fun m => m.id = messageId &&
    (db.inConversation viewer m.conversationId ||
      db.channels.any fun c => c.conversationId = some m.conversationId &&
        db.isMember viewer c.serverId)

/-- The entry of a message in the answer of `get_reactions_batch`. -/
def getReactionsBatch (messageIds : List Nat) (messageId : Nat) : List Count :=
  let rows := (db.unblocked viewer).filter fun r =>
    messageIds.contains r.messageId && db.joined viewer r.messageId
  let answer := (groups (fun r => (r.messageId, db.kind r)) rows).filter fun g => g.1.1 = messageId
  (ordered (answer.map fun g => countOf viewer (g.1.2, g.2))).filter fun c => 0 < c.count

/-- The batch answers for the message as the single call does, up to the order of entries that began
together, and is empty where that raises. -/
def Agrees (messageIds : List Nat) (messageId : Nat) : Prop :=
  match db.getReactions viewer messageId with
  | some counts => (db.getReactionsBatch viewer messageIds messageId).Perm counts
  | none => db.getReactionsBatch viewer messageIds messageId = []

/-- The viewer may see the message: it is not deleted, and the viewer is in its conversation or in the
server that the metadata of the conversation names. -/
def Readable (messageId : Nat) : Prop :=
  ∃ m ∈ db.messages, m.id = messageId ∧ m.deleted = false ∧
    db.isParticipant viewer m.conversationId

def Joined (messageId : Nat) : Prop :=
  ∃ m ∈ db.messages, m.id = messageId ∧ (db.inConversation viewer m.conversationId ∨
    ∃ c ∈ db.channels, c.conversationId = some m.conversationId ∧ db.isMember viewer c.serverId)

def Reacted (messageId : Nat) : Prop := ∃ r ∈ db.unblocked viewer, r.messageId = messageId

end Db

section Groups

variable {db : Db} {viewer : Nat} {messageId : Nat} {messageIds : List Nat}

def listed (db : Db) (viewer : Nat) (rows : List Reaction) : List Count :=
  ((groups db.kind rows).map (countOf viewer)).filter fun c => 0 < c.count

theorem listed_eq_nil {rows : List Reaction} : listed db viewer rows = [] ↔ rows = [] := by
  refine ⟨fun empty => ?_, fun empty => empty ▸ rfl⟩
  by_contra filled
  obtain ⟨r, row⟩ := List.exists_mem_of_ne_nil rows filled
  have counted : r ∈ rows.filter fun q => db.kind q = db.kind r :=
    List.mem_filter.mpr ⟨row, decide_eq_true rfl⟩
  have grouped : (db.kind r, rows.filter fun q => db.kind q = db.kind r) ∈ groups db.kind rows :=
    List.mem_map_of_mem (List.mem_dedup.mpr (List.mem_map_of_mem row))
  have entry : countOf viewer (db.kind r, rows.filter fun q => db.kind q = db.kind r) ∈
      listed db viewer rows :=
    List.mem_filter.mpr ⟨List.mem_map_of_mem grouped,
      decide_eq_true (List.length_pos_of_mem counted)⟩
  rw [empty] at entry
  cases entry

theorem ordered_perm (counts : List Count) : (ordered counts).Perm counts :=
  List.perm_insertionSort _ counts

theorem joined_iff : db.joined viewer messageId ↔ db.Joined viewer messageId := by
  simp [Db.joined, Db.Joined, Table.mem_rows]

def rowsOf (db : Db) (viewer messageId : Nat) : List Reaction :=
  (db.unblocked viewer).filter fun r => r.messageId = messageId

theorem rowsOf_eq_nil : rowsOf db viewer messageId = [] ↔ ¬db.Reacted viewer messageId := by
  simp [rowsOf, Db.Reacted, List.filter_eq_nil_iff]

theorem getReactions_of_readable (readable : db.Readable viewer messageId) :
    ∃ counts, db.getReactions viewer messageId = some counts ∧
      counts.Perm (listed db viewer (rowsOf db viewer messageId)) := by
  obtain ⟨m, member, rfl, kept, inside⟩ := readable
  have found : db.getMessage m.id = some m := by
    rw [Db.getMessage, Table.find_eq_some.mpr ⟨member, rfl⟩]
    simp [kept]
  refine ⟨_, by rw [Db.getReactions, found]; exact if_pos inside, ?_⟩
  exact (ordered_perm _).filter _

theorem getReactions_of_not_readable (hidden : ¬db.Readable viewer messageId) :
    db.getReactions viewer messageId = none := by
  rw [Db.getReactions]
  split
  · rfl
  · rename_i m found
    obtain ⟨read, kept⟩ := Option.filter_eq_some_iff.mp found
    obtain ⟨member, named⟩ := Table.find_eq_some.mp read
    refine if_neg fun inside => hidden ⟨m, member, named, ?_, inside⟩
    simpa using kept

theorem getReactionsBatch_perm (asked : messageId ∈ messageIds) :
    (db.getReactionsBatch viewer messageIds messageId).Perm
      (listed db viewer (if db.joined viewer messageId then rowsOf db viewer messageId else [])) := by
  have rows : (((db.unblocked viewer).filter fun r =>
      messageIds.contains r.messageId && db.joined viewer r.messageId).filter fun r =>
        r.messageId = messageId) =
      if db.joined viewer messageId then rowsOf db viewer messageId else [] := by
    rw [List.filter_filter]
    split
    · rename_i shown
      apply List.filter_congr
      intro r _
      by_cases named : r.messageId = messageId
      · simp [named, shown, asked]
      · simp [named]
    · rename_i hidden
      rw [List.filter_eq_nil_iff]
      intro r _
      by_cases named : r.messageId = messageId
      · simp [named, hidden]
      · simp [named]
  have entries := (groups_pair Reaction.messageId db.kind ((db.unblocked viewer).filter fun r =>
    messageIds.contains r.messageId && db.joined viewer r.messageId) messageId).map (countOf viewer)
  rw [rows, List.map_map] at entries
  exact ((ordered_perm _).trans entries).filter _

theorem agrees_iff (asked : messageId ∈ messageIds) : db.Agrees viewer messageIds messageId ↔
    (db.Reacted viewer messageId →
      (db.Joined viewer messageId ↔ db.Readable viewer messageId)) := by
  have batch : (db.getReactionsBatch viewer messageIds messageId).Perm _ :=
    getReactionsBatch_perm asked
  rw [← joined_iff]
  by_cases readable : db.Readable viewer messageId
  · obtain ⟨counts, answered, single⟩ := getReactions_of_readable readable
    simp only [Db.Agrees, answered, readable, iff_true]
    by_cases shown : db.joined viewer messageId
    · rw [if_pos shown] at batch
      exact iff_of_true (batch.trans single.symm) fun _ => shown
    · rw [if_neg shown] at batch
      have both : (db.getReactionsBatch viewer messageIds messageId).Perm counts ↔
          (listed db viewer []).Perm (listed db viewer (rowsOf db viewer messageId)) :=
        ⟨fun same => batch.symm.trans (same.trans single),
          fun same => batch.trans (same.trans single.symm)⟩
      rw [both, listed_eq_nil.mpr rfl, List.nil_perm, listed_eq_nil, rowsOf_eq_nil]
      exact forall_congr' fun _ => ⟨False.elim, fun wrong => shown wrong⟩
  · simp only [Db.Agrees, getReactions_of_not_readable readable, readable, iff_false]
    have empty : db.getReactionsBatch viewer messageIds messageId = [] ↔
        (if db.joined viewer messageId then rowsOf db viewer messageId else []) = [] := by
      have nothing (rows : List Reaction) : listed db viewer rows = [] ↔ rows = [] := listed_eq_nil
      rw [← nothing, ← List.perm_nil, ← List.perm_nil]
      exact ⟨batch.symm.trans, batch.trans⟩
    rw [empty]
    by_cases shown : db.joined viewer messageId
    · simp [shown, rowsOf_eq_nil]
    · simp [shown]

end Groups

/-- The batch agrees with the single calls where, for each message that has a reaction to show, its
tables show the message exactly where the viewer may see it. -/
theorem batch_agrees_iff {db : Db} {viewer : Nat} {messageIds : List Nat} :
    (∀ m ∈ messageIds, db.Agrees viewer messageIds m) ↔
      ∀ m ∈ messageIds, db.Reacted viewer m → (db.Joined viewer m ↔ db.Readable viewer m) :=
  forall₂_congr fun _ asked => agrees_iff asked

section Threads

def threadDb (deleted : Bool) : Db where
  messages := ⟨[⟨5, 9, deleted⟩], List.nodup_singleton _⟩
  conversations := ⟨[⟨9, .dict (some 1)⟩], List.nodup_singleton _⟩
  participants := [⟨9, 3⟩]
  channels := [⟨1, some 8⟩]
  members := [⟨1, 2⟩, ⟨1, 3⟩]
  reactions := [⟨5, 2, "+1".toList, false, none, 100⟩]
  customEmoji := .empty
  blocks := []
  relationships := none

/-- A member of the server, who has reacted in the thread, and a participant after the message is
deleted. -/
theorem batch_agrees_iff_thread :
    (¬(threadDb false).Agrees 2 [5] 5 ∧ ((threadDb false).getReactions 2 5).isSome ∧
      (threadDb false).getReactionsBatch 2 [5] 5 = []) ∧
    ¬(threadDb true).Agrees 3 [5] 5 ∧ (threadDb true).getReactions 3 5 = none ∧
      (threadDb true).getReactionsBatch 3 [5] 5 ≠ [] := by
  have thread : (threadDb false).getReactionsBatch 2 [5] 5 = [] ∧
      (threadDb false).getReactions 2 5 =
        some [⟨⟨"+1".toList, false, none, none⟩, 1, true, some 100⟩] := by decide
  have removed : (threadDb true).getReactions 3 5 = none ∧
      (threadDb true).getReactionsBatch 3 [5] 5 ≠ [] := by decide
  refine ⟨⟨?_, by rw [thread.2]; rfl, thread.1⟩, ?_, removed⟩
  · intro agrees
    rw [Db.Agrees, thread.2, thread.1] at agrees
    exact absurd agrees.symm.eq_nil (by simp)
  · intro agrees
    rw [Db.Agrees, removed.1] at agrees
    exact removed.2 agrees

end Threads

end Plexichat.Reactions.Batch
