import Plexichat.Library.Script

/-! core/erasure.py: what an account leaves behind is deleted; and is_participant of
messaging/services/participant.py, over the tables. -/
namespace Plexichat.Erasure
open Script

structure Server where
  id : Nat
  ownerId : Nat
  deriving DecidableEq

structure Channel where
  id : Nat
  serverId : Nat
  conversationId : Option Nat
  deriving DecidableEq

structure Member where
  serverId : Nat
  userId : Nat
  deriving DecidableEq

/-- With the server_id of its metadata; 0 is none. -/
structure Conversation where
  id : Nat
  serverId : Option Nat
  deriving DecidableEq

structure Participant where
  conversationId : Nat
  userId : Nat
  deriving DecidableEq

structure Message where
  id : Nat
  conversationId : Nat
  authorId : Nat
  deriving DecidableEq

structure Thread where
  id : Nat
  ownerId : Nat
  conversationId : Option Nat
  deriving DecidableEq

structure ThreadMember where
  threadId : Nat
  userId : Nat
  deriving DecidableEq

/-- The tables that decide; an optional one that is missing is empty. -/
structure Database where
  users : List Nat
  servers : List Server
  channels : List Channel
  members : List Member
  conversations : List Conversation
  participants : List Participant
  messages : List Message
  threads : List Thread
  threadMembers : List ThreadMember

/-- Tables from which rows are deleted and that nothing here reads, less the optional ones. -/
inductive Elsewhere where
  | memberRoles
  | channelOverrides
  | invites
  | bans
  | categories
  | auditLog
  | scheduledEvents
  | welcomeScreens
  | onboardingSteps
  | onboardingProgress
  | templates
  | roles
  | messageStatus
  | pinned
  | attachments
  | media

/-- A DELETE, with the key of its condition. -/
inductive Statement where
  | membersOfServer (serverId : Nat)
  | channelsOfServer (serverId : Nat)
  | server (id : Nat)
  | threadMembersOfConversation (conversationId : Nat)
  | threadsOfConversation (conversationId : Nat)
  | messages (conversationId : Nat)
  | participants (conversationId : Nat)
  | conversation (id : Nat)
  | participantsOfUser (userId : Nat)
  | threadMembersOfUser (userId : Nat)
  | threadMembers (threadId : Nat)
  | thread (id : Nat)
  | elsewhere (t : Elsewhere) (key : Nat)

def Statement.optional : Statement → Bool
  | .threadMembersOfConversation _ | .threadsOfConversation _ | .threadMembersOfUser _
  | .threadMembers _ | .thread _ => true
  | _ => false

def Statement.apply (db : Database) : Statement → Database
  | .membersOfServer sid => { db with members := db.members.filter (·.serverId ≠ sid) }
  | .channelsOfServer sid => { db with channels := db.channels.filter (·.serverId ≠ sid) }
  | .server sid => { db with servers := db.servers.filter (·.id ≠ sid) }
  | .threadMembersOfConversation cid => { db with
      threadMembers := db.threadMembers.filter fun r =>
        !db.threads.any fun t => t.conversationId = some cid && t.id = r.threadId }
  | .threadsOfConversation cid =>
    { db with threads := db.threads.filter (·.conversationId ≠ some cid) }
  | .messages cid => { db with messages := db.messages.filter (·.conversationId ≠ cid) }
  | .participants cid =>
    { db with participants := db.participants.filter (·.conversationId ≠ cid) }
  | .conversation cid => { db with conversations := db.conversations.filter (·.id ≠ cid) }
  | .participantsOfUser uid => { db with participants := db.participants.filter (·.userId ≠ uid) }
  | .threadMembersOfUser uid =>
    { db with threadMembers := db.threadMembers.filter (·.userId ≠ uid) }
  | .threadMembers tid => { db with threadMembers := db.threadMembers.filter (·.threadId ≠ tid) }
  | .thread tid => { db with threads := db.threads.filter (·.id ≠ tid) }
  | .elsewhere _ _ => db

namespace Database

variable (db : Database)

def hasOtherParticipants (conversationId userId : Nat) : Bool :=
  db.participants.any fun p => p.conversationId = conversationId && p.userId ≠ userId

/-- The query of purge_orphaned_conversations. -/
def orphanedConversations : List Nat :=
  (db.conversations.filter fun k => !(db.participants.any fun p => p.conversationId = k.id) &&
    !(db.threads.any fun t => t.conversationId = some k.id)).map Conversation.id

/-- The server of the metadata, else that of a channel with the conversation or with its id. -/
def serverOf (conversationId : Nat) : Option Nat :=
  ((db.conversations.find? (·.id = conversationId)).bind Conversation.serverId).or
    ((db.channels.find? fun c => c.conversationId = some conversationId || c.id = conversationId).map
      Channel.serverId)

def isParticipant (conversationId userId : Nat) : Bool :=
  db.participants.contains ⟨conversationId, userId⟩ ||
    (db.serverOf conversationId).any fun sid => db.members.contains ⟨sid, userId⟩

end Database

section Code

-- Whether a statement is refused, by a foreign key or otherwise.
variable (refuses : Statement → Database → Bool)

def execute (st : Statement) : Script Database PUnit :=
  statement (fun db => !st.optional && refuses st db) fun db => st.apply db

def deleteConversation (cid : Nat) : Script Database PUnit :=
  forEach (execute refuses)
    [.elsewhere .messageStatus cid, .elsewhere .pinned cid, .elsewhere .attachments cid,
      .threadMembersOfConversation cid, .threadsOfConversation cid, .messages cid,
      .participants cid, .conversation cid]

def purgeServerRecursive (sid : Nat) : Script Database PUnit := do
  forEach (execute refuses)
    [.elsewhere .memberRoles sid, .membersOfServer sid, .elsewhere .channelOverrides sid,
      .elsewhere .invites sid, .elsewhere .bans sid, .elsewhere .categories sid,
      .elsewhere .auditLog sid, .elsewhere .scheduledEvents sid, .elsewhere .welcomeScreens sid,
      .elsewhere .onboardingSteps sid, .elsewhere .onboardingProgress sid,
      .elsewhere .templates sid]
  let conversationIds ← read fun db : Database =>
    (db.channels.filter (·.serverId = sid)).filterMap Channel.conversationId
  forEach (deleteConversation refuses) conversationIds
  forEach (execute refuses) [.channelsOfServer sid, .elsewhere .roles sid, .server sid]

def purgeOwnedServers (uid : Nat) : Script Database (List Nat) := do
  let ids ← read fun db : Database => (db.servers.filter (·.ownerId = uid)).map Server.id
  forEach (purgeServerRecursive refuses) ids
  return ids

def purgeLeft (uid : Nat) (removed : List Nat) : List Nat → Script Database (List Nat)
  | [] => return removed
  | cid :: conversationIds => do
    let stays ← read fun db : Database =>
      removed.contains cid || db.hasOtherParticipants cid uid
    if stays then purgeLeft uid removed conversationIds
    else do
      deleteConversation refuses cid
      purgeLeft uid (removed ++ [cid]) conversationIds

def purgeUserConversations (uid : Nat) : Script Database (List Nat) := do
  let conversationIds ← read fun db : Database =>
    (db.participants.filter (·.userId = uid)).map Participant.conversationId
  let ownedThreads ← read fun db : Database =>
    (db.threads.filter (·.ownerId = uid)).map Thread.id
  let ownedThreadConversations ← read fun db : Database =>
    (db.threads.filter (·.ownerId = uid)).filterMap Thread.conversationId
  forEach (execute refuses) [.participantsOfUser uid, .threadMembersOfUser uid]
  forEach (fun tid => forEach (execute refuses) [.threadMembers tid, .thread tid]) ownedThreads
  forEach (deleteConversation refuses) ownedThreadConversations
  purgeLeft refuses uid ownedThreadConversations conversationIds

def purgeOrphanedConversations : Script Database (List Nat) := do
  let ids ← read Database.orphanedConversations
  forEach (deleteConversation refuses) ids
  return ids

def purgeUserMedia (uid : Nat) : Script Database PUnit :=
  forEach (execute refuses) [.elsewhere .attachments uid, .elsewhere .media uid]

def eraseUserResidue (uid : Nat) : Script Database (List Nat × List Nat) := do
  let servers ← purgeOwnedServers refuses uid
  let conversations ← purgeUserConversations refuses uid
  purgeUserMedia refuses uid
  return (servers, conversations)

end Code

end Plexichat.Erasure
