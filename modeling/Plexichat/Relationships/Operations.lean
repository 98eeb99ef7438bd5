import Plexichat.Library.Checks
import Plexichat.Library.Interleaving
import Plexichat.Library.Table

/-! core/relationships/manager: friend requests, friendships and blocks. A call goes on by one
statement outside a transaction or by one whole transaction. Users are not deleted meanwhile, and
`_user_exists` answers what auth_users holds. -/
namespace Plexichat.Relationships
open Checks

inductive ErrorName where
  | userNotFound | selfRelationship | friendRequestNotFound | friendRequestExists | alreadyFriends
  | notFriends | userBlocked | alreadyBlocked | notBlocked | cannotBlockSelf | permissionDenied
  | relationshipValidation | integrity
  deriving DecidableEq

/-- A UserBlockedError also says who has blocked whom. -/
structure RelationshipError where
  name : ErrorName
  message : String
  blockedBy : Option (Nat × Nat) := none
  deriving DecidableEq

inductive FriendRequestStatus where
  | pending | accepted | declined | cancelled
  deriving DecidableEq

structure FriendRequest where
  id : Nat
  senderId : Nat
  recipientId : Nat
  status : FriendRequestStatus
  message : Option String
  createdAt : Nat
  updatedAt : Nat
  deriving DecidableEq

structure Friend where
  id : Nat
  userId : Nat
  friendId : Nat
  createdAt : Nat
  deriving DecidableEq

structure BlockedUser where
  id : Nat
  blockerId : Nat
  blockedId : Nat
  reason : Option String
  createdAt : Nat
  deriving DecidableEq

structure Store where
  users : Nat → Bool
  /-- `_generate_id` never gives an id twice. -/
  nextId : Nat
  friends : Table Friend fun f => (f.userId, f.friendId)
  friendRequests : Table FriendRequest FriendRequest.id
  blocked : Table BlockedUser fun b => (b.blockerId, b.blockedId)

/-- The arguments of `send_friend_request`. -/
structure Send where
  senderId : Nat
  recipientId : Nat
  message : Option String

/-- The arguments of `block_user`. -/
structure Block where
  blockerId : Nat
  blockedId : Nat
  reason : Option String

def maxFriendRequestMessageLength : Nat := 256

def friendRequestResendCooldownSeconds : Nat := 60

abbrev Outcome := Except RelationshipError

def uniqueFailed (columns : String) : RelationshipError :=
  ⟨.integrity, "UNIQUE constraint failed: " ++ columns, none⟩

def foreignKeyFailed : RelationshipError := ⟨.integrity, "FOREIGN KEY constraint failed", none⟩

def alreadyProcessed : RelationshipError :=
  ⟨.friendRequestNotFound, "Friend request not found or already processed", none⟩

namespace Store

def isBlocked (c : Store) (blockerId blockedId : Nat) : Bool :=
  (c.blocked.find (blockerId, blockedId)).isSome

def areFriends (c : Store) (userId otherId : Nat) : Bool :=
  (c.friends.find (userId, otherId)).isSome

def sent (senderId recipientId : Nat) (q : FriendRequest) : Bool :=
  q.senderId = senderId && q.recipientId = recipientId

def getPendingRequest (c : Store) (senderId recipientId : Nat) : Option FriendRequest :=
  c.friendRequests.rows.find? fun q => sent senderId recipientId q && q.status = .pending

def pendingById (c : Store) (requestId : Nat) : Option FriendRequest :=
  (c.friendRequests.find requestId).filter fun q => q.status = .pending

/-- UPDATE of the status where the status is 'pending'. -/
def settle (c : Store) (now : Nat) (p : FriendRequest → Bool) (status : FriendRequestStatus) :
    Store :=
  { c with
    friendRequests := c.friendRequests.update (fun q => p q && q.status = .pending)
      (fun q => { q with status, updatedAt := now }) fun _ => rfl }

/-- The statement of `settle` for one id, which must have found its row. -/
def settleOne (c : Store) (now requestId : Nat) (status : FriendRequestStatus) : Outcome Store := do
  ensure ((c.pendingById requestId).isSome = true) alreadyProcessed
  return c.settle now (fun q => q.id = requestId) status

def deleteFriends (c : Store) (userId friendId : Nat) : Store :=
  { c with friends := c.friends.delete fun f => f.userId = userId && f.friendId = friendId }

def insertFriend (c : Store) (now userId friendId : Nat) : Outcome Store := do
  ensure (c.users userId = true ∧ c.users friendId = true) foreignKeyFailed
  return { c with
    nextId := c.nextId + 1
    friends := c.friends.insertOrIgnore ⟨c.nextId, userId, friendId, now⟩ }

def cooling (c : Store) (now senderId recipientId : Nat) : Bool :=
  let recent := ((c.friendRequests.rows.filter fun q => sent senderId recipientId q &&
    (q.status = .declined || q.status = .cancelled)).map FriendRequest.updatedAt).max?
  recent.any fun last => now < last + friendRequestResendCooldownSeconds * 1000

def insertRequest (c : Store) (q : FriendRequest) : Outcome Store := do
  ensure (c.friendRequests.rows.any (sent q.senderId q.recipientId) = false)
    (uniqueFailed "rel_friend_requests.sender_id, rel_friend_requests.recipient_id")
  ensure (c.users q.senderId = true ∧ c.users q.recipientId = true) foreignKeyFailed
  let friendRequests ← found (c.friendRequests.insert q) (uniqueFailed "rel_friend_requests.id")
  return { c with friendRequests }

/-- The transaction of `send_friend_request`. -/
def createRequest (c : Store) (now : Nat) (r : Send) : Outcome Store := do
  ensure (c.cooling now r.senderId r.recipientId = false) ⟨.relationshipValidation,
    "Please wait before sending another friend request to this user", none⟩
  let friendRequests := c.friendRequests.delete fun q =>
    sent r.senderId r.recipientId q && q.status ≠ .pending
  insertRequest { c with friendRequests, nextId := c.nextId + 1 }
    ⟨c.nextId, r.senderId, r.recipientId, .pending, r.message, now, now⟩

/-- The transaction of `accept_friend_request`, for the row that was read before. -/
def acceptRequest (c : Store) (now : Nat) (row : FriendRequest) : Outcome Store := do
  ensure (c.isBlocked row.senderId row.recipientId = false ∧
    c.isBlocked row.recipientId row.senderId = false) ⟨.userBlocked,
      "Cannot accept a friend request involving a block", some (row.senderId, row.recipientId)⟩
  let settled ← c.settleOne now row.id .accepted
  let first ← settled.insertFriend now row.senderId row.recipientId
  first.insertFriend now row.recipientId row.senderId

/-- The transaction of `remove_friend`, and the two statements of it in `block_user`. -/
def deleteFriendship (c : Store) (userId friendId : Nat) : Store :=
  (c.deleteFriends userId friendId).deleteFriends friendId userId

def unfriend (c : Store) (userId friendId : Nat) : Store :=
  if c.areFriends userId friendId then c.deleteFriendship userId friendId else c

/-- The transaction of `block_user`. -/
def createBlock (c : Store) (now : Nat) (b : Block) : Outcome Store := do
  ensure (c.users b.blockerId = true ∧ c.users b.blockedId = true) foreignKeyFailed
  let blocked ← found (c.blocked.insert ⟨c.nextId, b.blockerId, b.blockedId, b.reason, now⟩)
    (uniqueFailed "rel_blocked.blocker_id, rel_blocked.blocked_id")
  let inserted := { c with blocked, nextId := c.nextId + 1 }
  return (inserted.unfriend b.blockerId b.blockedId).settle now
    (fun q => sent b.blockerId b.blockedId q || sent b.blockedId b.blockerId q) .declined

/-- The transaction of `unblock_user`. -/
def deleteBlock (c : Store) (blockerId blockedId : Nat) : Store :=
  { c with blocked := c.blocked.delete fun b => b.blockerId = blockerId && b.blockedId = blockedId }

end Store

/-- `accept_friend_request`, `decline_friend_request` and `cancel_friend_request` read the pending
request and check the caller in the same way. -/
inductive Reply where
  | accept | decline | cancel
  deriving DecidableEq

namespace Reply

def party (row : FriendRequest) : Reply → Nat
  | accept => row.recipientId
  | decline => row.recipientId
  | cancel => row.senderId

def denied : Reply → String
  | accept => "Cannot accept a friend request not sent to you"
  | decline => "Cannot decline a friend request not sent to you"
  | cancel => "Cannot cancel a friend request you did not send"

def missing : Reply → String
  | accept => "Friend request not found after acceptance"
  | decline => "Friend request not found after decline"
  | cancel => "Friend request not found after cancellation"

/-- The SELECT that the three start with, and the check of the caller. -/
def read (reply : Reply) (c : Store) (userId requestId : Nat) : Outcome FriendRequest := do
  let row ← found (c.pendingById requestId) alreadyProcessed
  ensure (reply.party row = userId) ⟨.permissionDenied, reply.denied, none⟩
  return row

def write (c : Store) (now : Nat) (row : FriendRequest) : Reply → Outcome Store
  | accept => c.acceptRequest now row
  | decline => c.settleOne now row.id .declined
  | cancel => c.settleOne now row.id .cancelled

end Reply

/-- The next statement of `send_friend_request`. -/
inductive SendStage where
  | blocked | blockedBy | friends | pending | reverse | create | recover

inductive Answer where
  | request (q : FriendRequest)
  | block (b : BlockedUser)
  | done
  deriving DecidableEq

inductive Pc where
  | idle
  | sending (r : Send) (stage : SendStage)
  | reading (reply : Reply) (userId requestId : Nat)
  | writing (reply : Reply) (row : FriendRequest)
  | fetching (requestId : Nat) (missing : String)
  | checkingBlock (b : Block)
  | blocking (b : Block)
  | fetchingBlock (blockId : Nat)
  | checkingUnblock (blockerId blockedId : Nat)
  | unblocking (blockerId blockedId : Nat)
  | checkingFriend (userId friendId : Nat)
  | removing (userId friendId : Nat)
  | ended (result : Outcome Answer)

def Pc.resting : Pc → Bool
  | .idle => true
  | .ended _ => true
  | _ => false

inductive Action where
  | sendFriendRequest (r : Send)
  | reply (reply : Reply) (userId requestId : Nat)
  | blockUser (b : Block)
  | unblockUser (blockerId blockedId : Nat)
  | removeFriend (userId friendId : Nat)
  /-- The next statement or transaction, with what the clock says. -/
  | proceed (now : Nat)

def raise (name : ErrorName) (message : String) : Pc := .ended (.error ⟨name, message, none⟩)

def userNotFound (userId : Nat) : String := s!"User {userId} not found"

def messageTooLong : String :=
  s!"Friend request message exceeds maximum length of {maxFriendRequestMessageLength} characters"

/-- What `send_friend_request` checks of its arguments. -/
def validateSend (c : Store) (r : Send) : Outcome Unit := do
  ensure (r.senderId ≠ r.recipientId)
    ⟨.selfRelationship, "Cannot create relationship with yourself", none⟩
  ensure (c.users r.senderId = true) ⟨.userNotFound, userNotFound r.senderId, none⟩
  ensure (c.users r.recipientId = true) ⟨.userNotFound, userNotFound r.recipientId, none⟩
  ensure ((r.message.all fun m => m.length ≤ maxFriendRequestMessageLength) = true)
    ⟨.relationshipValidation, messageTooLong, none⟩

/-- What `block_user` checks of its arguments. -/
def validateBlock (c : Store) (b : Block) : Outcome Unit := do
  ensure (b.blockerId ≠ b.blockedId) ⟨.cannotBlockSelf, "Cannot block yourself", none⟩
  ensure (c.users b.blockedId = true) ⟨.userNotFound, userNotFound b.blockedId, none⟩

def goOn {α : Type} (onward : α → Pc) : Outcome α → Pc
  | .ok a => onward a
  | .error e => .ended (.error e)

def start (c : Store) : Action → Option Pc
  | .sendFriendRequest r => some (goOn (fun _ => .sending r .blocked) (validateSend c r))
  | .reply reply userId requestId => some (.reading reply userId requestId)
  | .blockUser b => some (goOn (fun _ => .checkingBlock b) (validateBlock c b))
  | .unblockUser blockerId blockedId => some (.checkingUnblock blockerId blockedId)
  | .removeFriend userId friendId =>
    some (if userId = friendId then raise .selfRelationship "Cannot unfriend yourself"
    else .checkingFriend userId friendId)
  | .proceed _ => none

def sendNext (c : Store) (now : Nat) (r : Send) : SendStage → Store × Pc
  | .blocked =>
    -- a block must look like a user who is not there
    (c, if c.isBlocked r.senderId r.recipientId then
      .ended (.error ⟨.userBlocked, userNotFound r.recipientId, some (r.senderId, r.recipientId)⟩)
    else .sending r .blockedBy)
  | .blockedBy =>
    (c, if c.isBlocked r.recipientId r.senderId then
      .ended (.error ⟨.userBlocked, userNotFound r.recipientId, some (r.recipientId, r.senderId)⟩)
    else .sending r .friends)
  | .friends =>
    (c, if c.areFriends r.senderId r.recipientId then
      raise .alreadyFriends "You are already friends with this user"
    else .sending r .pending)
  | .pending =>
    (c, if (c.getPendingRequest r.senderId r.recipientId).isSome then
      raise .friendRequestExists "Friend request already sent"
    else .sending r .reverse)
  | .reverse =>
    (c, match c.getPendingRequest r.recipientId r.senderId with
      | some q => .reading .accept r.senderId q.id
      | none => .sending r .create)
  | .create =>
    match c.createRequest now r with
    | .ok after => (after, .fetching c.nextId "Friend request not found after creation")
    -- only the texts of integrity errors speak of a constraint
    | .error e => (c, if e.name = .integrity then .sending r .recover else .ended (.error e))
  | .recover =>
    (c, match c.getPendingRequest r.recipientId r.senderId with
      | some q => .reading .accept r.senderId q.id
      | none => raise .friendRequestExists "Friend request already exists")

def proceed (c : Store) (now : Nat) : Pc → Option (Store × Pc)
  | .idle => none
  | .sending r stage => some (sendNext c now r stage)
  | .reading reply userId requestId =>
    some (c, goOn (.writing reply) (reply.read c userId requestId))
  | .writing reply row =>
    match reply.write c now row with
    | .ok after => some (after, .fetching row.id reply.missing)
    | .error e => some (c, .ended (.error e))
  | .fetching requestId missing =>
    some (c, match c.friendRequests.find requestId with
      | some q => .ended (.ok (.request q))
      | none => raise .friendRequestNotFound missing)
  | .checkingBlock b =>
    some (c, if c.isBlocked b.blockerId b.blockedId then
      raise .alreadyBlocked "User is already blocked"
    else .blocking b)
  | .blocking b =>
    match c.createBlock now b with
    | .ok after => some (after, .fetchingBlock c.nextId)
    | .error e => some (c, .ended (.error e))
  | .fetchingBlock blockId =>
    some (c, match c.blocked.rows.find? fun b => b.id = blockId with
      | some b => .ended (.ok (.block b))
      | none => raise .relationshipValidation "Block record not found after creation")
  | .checkingUnblock blockerId blockedId =>
    some (c, if c.isBlocked blockerId blockedId then .unblocking blockerId blockedId
    else raise .notBlocked "User is not blocked")
  | .unblocking blockerId blockedId =>
    some (c.deleteBlock blockerId blockedId, .ended (.ok .done))
  | .checkingFriend userId friendId =>
    some (c, if c.areFriends userId friendId then .removing userId friendId
    else raise .notFriends "You are not friends with this user")
  | .removing userId friendId => some (c.deleteFriendship userId friendId, .ended (.ok .done))
  | .ended _ => none

def next (c : Store) (pc : Pc) (a : Action) : Option (Store × Pc) :=
  match pc, a with
  | pc, .proceed now => proceed c now pc
  | .idle, a => (start c a).map fun pc => (c, pc)
  | _, _ => none

end Plexichat.Relationships
