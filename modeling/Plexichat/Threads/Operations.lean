import Plexichat.Library.Interleaving
import Plexichat.Library.Table

/-! core/threads: members, messages and slowmode of one thread. The calls run side by side and a
statement is a step. Whether a call is permitted is given with it; the last-send times are one cache
whose values may expire at any time. Times are in milliseconds. -/
namespace Plexichat.Threads
open Transition

variable {ι υ : Type}

/-- thread_members of the thread -/
structure Member (υ : Type) where
  user : υ
  joinedAt : Nat

/-- thread_messages of the thread -/
structure Link (υ : Type) where
  id : Nat
  message : Nat
  user : υ
  createdAt : Nat

/-- `lastSent` are the cached times of `thread_last_msg`. `sent` are the times of the messages sent
so far, newest first, whatever has become of them. -/
structure Shared (υ : Type) where
  clock : Nat
  members : Table (Member υ) Member.user
  links : Table (Link υ) Link.id
  memberCount : Nat
  messageCount : Nat
  lastMessageAt : Option Nat
  lastSent : υ → Option Nat
  sent : υ → List Nat

structure Thread (υ : Type) where
  interval : Nat
  manages : υ → Bool

/-- Where a call is. `sends` says that the call is `send_message`, which goes on after it has joined
the thread. -/
inductive Phase (υ : Type) where
  | idle
  | inserting (u : υ) (sends : Bool)
  | deleting (u : υ)
  /-- The member rows have changed and are to be counted. -/
  | changed (u : υ) (sends : Bool)
  | counted (u : υ) (n : Nat) (sends : Bool)
  | joined (u : υ)
  | sending (u : υ)
  /-- check_slowmode has read the interval and the clock. -/
  | checking (u : υ) (now : Nat)
  | uncached (u : υ) (now : Nat)
  | found (u : υ) (now last : Nat)
  | allowed (u : υ) (now : Nat)
  | stamped (u : υ) (now : Nat)
  | linked (u : υ) (now : Nat)
  | counts (u : υ)
  | recording (u : υ) (now : Nat)
  /-- `hits` of the links were there when the call deleted them. -/
  | unlinking (ids : List Nat) (hits : Nat)
  | removed (hits : Nat)
  | recounting

inductive Action (υ : Type) where
  | tick (ms : Nat)
  | expire (u : υ)
  | joinThread (u : υ) (permitted : Bool)
  | addMember (u target : υ) (permitted : Bool)
  | leaveThread (u : υ) (permitted : Bool)
  | removeMember (u target : υ) (permitted : Bool)
  | sendMessage (u : υ) (permitted : Bool)
  | removeMessage (u : υ) (message : Nat)
  | unlinkDeletedMessage (message : Nat)
  | insertMember
  | deleteMember
  | countMembers
  | writeMemberCount
  | getMember
  | checkSlowmode
  | readCache
  | readLinks
  | compare
  | takeTime
  /-- The thread is archived, or messaging refuses the message. -/
  | refuse
  /-- Messaging has sent the message, and the link is inserted. -/
  | insertLink (id message : Nat)
  | addMessage
  | recordMessageSent
  | deleteLink
  | decrement
  | readLastMessageAt

namespace Shared

variable (c : Shared υ)

def newest (links : List (Link υ)) : Option Nat := (links.map Link.createdAt).max?

variable [DecidableEq υ]

def isMember (u : υ) : Bool := (c.members.find u).isSome

/-- `MAX(created_at)` of the user's links, or 0. -/
def lastLinked (u : υ) : Nat := (newest (c.links.rows.filter fun l => l.user = u)).getD 0

/-- `cache_set` of the last-send time -/
def setLastSent (u : υ) (now : Nat) : Shared υ :=
  { c with lastSent := Function.update c.lastSent u (some now) }

end Shared

variable [DecidableEq υ]

def next (thread : Thread υ) (c : Shared υ) : Phase υ → Action υ → Option (Shared υ × Phase υ)
  | p, .tick ms => some ({ c with clock := c.clock + ms }, p)
  | p, .expire u => some ({ c with lastSent := Function.update c.lastSent u none }, p)
  | .idle, .joinThread u permitted =>
    if permitted && !c.isMember u then some (c, .inserting u false) else some (c, .idle)
  | .idle, .addMember u target permitted =>
    if permitted && c.isMember u && !c.isMember target then some (c, .inserting target false)
    else some (c, .idle)
  | .idle, .leaveThread u permitted =>
    if permitted && c.isMember u then some (c, .deleting u) else some (c, .idle)
  | .idle, .removeMember u target permitted =>
    if c.isMember target && permitted && (u = target || thread.manages u) then
      some (c, .deleting target)
    else some (c, .idle)
  | .idle, .sendMessage u permitted =>
    if permitted then
      if c.isMember u then some (c, .sending u) else some (c, .inserting u true)
    else some (c, .idle)
  | .inserting u sends, .insertMember =>
    -- A row that is there already is an IntegrityError.
    match c.members.insert ⟨u, c.clock⟩ with
    | none => some (c, .idle)
    | some members => some ({ c with members }, .changed u sends)
  | .deleting u, .deleteMember =>
    some ({ c with members := c.members.delete fun m => m.user = u }, .changed u false)
  | .changed u sends, .countMembers => some (c, .counted u c.members.rows.length sends)
  | .counted u n sends, .writeMemberCount =>
    some ({ c with memberCount := n }, if sends then .joined u else .idle)
  | .joined u, .getMember => if c.isMember u then some (c, .sending u) else some (c, .idle)
  | .sending u, .checkSlowmode =>
    if thread.manages u || thread.interval = 0 then some (c, .allowed u c.clock)
    else some (c, .checking u c.clock)
  | .checking u now, .readCache =>
    match c.lastSent u with
    | none => some (c, .uncached u now)
    | some last => some (c, .found u now last)
  | .uncached u now, .readLinks => some (c, .found u now (c.lastLinked u))
  | .found u now last, .compare =>
    if last + thread.interval ≤ now then some (c.setLastSent u now, .allowed u now)
    else some (c, .idle)
  | .allowed u _, .takeTime => some (c, .stamped u c.clock)
  | .allowed _ _, .refuse => some (c, .idle)
  | .stamped _ _, .refuse => some (c, .idle)
  | .stamped u now, .insertLink id message =>
    match c.links.insert ⟨id, message, u, now⟩ with
    | none => some (c, .idle)
    | some links =>
      let sent := Function.update c.sent u (now :: c.sent u)
      some ({ c with links, sent }, .linked u now)
  | .linked u now, .addMessage =>
    some ({ c with messageCount := c.messageCount + 1, lastMessageAt := some now }, .counts u)
  | .counts u, .takeTime => some (c, .recording u c.clock)
  -- Recording is best effort.
  | .counts _, .refuse => some (c, .idle)
  | .recording u now, .recordMessageSent => some (c.setLastSent u now, .idle)
  | .idle, .removeMessage u message =>
    match c.links.rows.find? fun l => l.message = message with
    | none => some (c, .idle)
    | some l =>
      if l.user = u || thread.manages u then some (c, .unlinking [l.id] 0) else some (c, .idle)
  | .idle, .unlinkDeletedMessage message =>
    match (c.links.rows.filter fun l => l.message = message).map Link.id with
    | [] => some (c, .idle)
    | id :: ids => some (c, .unlinking (id :: ids) 0)
  | .unlinking (id :: ids) hits, .deleteLink =>
    let hits := if (c.links.find id).isSome then hits + 1 else hits
    let links := c.links.delete fun l => l.id = id
    some ({ c with links }, if ids.isEmpty then .removed hits else .unlinking ids hits)
  | .removed _, .decrement => some ({ c with messageCount := c.messageCount - 1 }, .recounting)
  | .recounting, .readLastMessageAt =>
    some ({ c with lastMessageAt := Shared.newest c.links.rows }, .idle)
  | _, _ => none

end Plexichat.Threads
