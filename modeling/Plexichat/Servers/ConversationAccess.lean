import Plexichat.Servers.Operations

/-! Who may read the conversation of a channel: is_participant of
messaging/services/participant.py, over the tables of both packages and the cache of each
worker, after an operation that ends a membership. Messaging is configured and raises
nothing. -/
namespace Plexichat.Servers.ConversationAccess
open Checks

/-- A row of srv_channels. A conversation_id of NULL or 0 is none. -/
structure Channel where
  id : Nat
  serverId : Nat
  conversationId : Option Nat
  deleted : Bool

/-- The workers `ω` share the tables and Valkey; each has a local cache besides. What
a cache answers has not expired. -/
structure World (ω : Type) where
  db : Database
  channels : Table Channel Channel.id
  /-- The server_id in the metadata of a conversation. -/
  metadata : Nat → Option Nat
  /-- msg_participants, by conversation_id and user_id. -/
  participants : Table (Nat × Nat) id
  cache : ω → Nat × Nat → Option Bool
  valkey : Nat × Nat → Option Bool
  wired : ∀ c ∈ channels, ∀ k, c.conversationId = some k → metadata k = some c.serverId

inductive Ending where
  | leave (userId serverId : Nat)
  | kick (userId serverId memberUserId : Nat)
  | ban (userId serverId memberUserId deleteMessageDays : Nat)
  | purge (userId : Nat)

def Ending.subject : Ending → Nat
  | .leave userId _ => userId
  | .kick _ _ memberUserId => memberUserId
  | .ban _ _ memberUserId _ => memberUserId
  | .purge userId => userId

namespace World

variable {ω : Type}

/-- `create_channel` once its checks have passed: the conversation is created with the
channel, and the creator is its first participant. -/
def createChannel (w : World ω) (userId serverId channelId conversationId : Nat) :
    Option (World ω) :=
  if fresh : ∀ c ∈ w.channels.rows, c.conversationId ≠ some conversationId then
    match inserted : w.channels.insert ⟨channelId, serverId, some conversationId, false⟩ with
    | none => none
    | some channels => some { w with
      channels
      metadata := Function.update w.metadata conversationId (some serverId)
      participants := (w.participants.insert (conversationId, userId)).getD w.participants
      wired := by
        intro c member k here
        cases (Table.mem_insert inserted).mp member with
        | inl old =>
          have other : k ≠ conversationId := fun same => fresh c old (same ▸ here)
          rw [Function.update_of_ne other]
          exact w.wired c old k here
        | inr new =>
          cases new
          cases here
          rw [Function.update_self] }
  else none

def HasConversation (w : World ω) (serverId k : Nat) : Prop :=
  ∃ c ∈ w.channels, c.serverId = serverId ∧ c.conversationId = some k

/-- `SELECT conversation_id FROM srv_channels WHERE server_id = ? AND deleted = 0`. -/
def conversations (w : World ω) (serverId : Nat) : List Nat :=
  (w.channels.rows.filter fun c => c.serverId = serverId && !c.deleted).filterMap
    Channel.conversationId

/-- `_cache_get` in worker `q`. -/
def cached (w : World ω) (q : ω) (key : Nat × Nat) : Option Bool := (w.cache q key).or (w.valkey key)

def serverOf (w : World ω) (k : Nat) : Option Nat :=
  (w.metadata k).or
    ((w.channels.rows.find? fun c => c.conversationId = some k || c.id = k).map Channel.serverId)

def participates (w : World ω) (k userId : Nat) : Bool :=
  (w.participants.find (k, userId)).isSome ||
    (w.serverOf k).any fun serverId => w.db.isMember serverId userId

def isParticipant (w : World ω) (q : ω) (k userId : Nat) : Bool :=
  (w.cached q (k, userId)).getD (w.participates k userId)

variable [DecidableEq ω]

def removeFrom (w : World ω) (p : ω) (userId : Nat) (ks : List Nat) : World ω :=
  { w with
    participants := w.participants.delete fun a => a.2 = userId && ks.contains a.1
    cache := fun q key =>
      if q = p && (key.2 = userId && ks.contains key.1) then none else w.cache q key
    valkey := fun key => if key.2 = userId && ks.contains key.1 then none else w.valkey key }

def perform (rd : Reader) (p : ω) (w : World ω) : Ending → Outcome (World ω)
  | .leave userId serverId => do
    let db ← removeMember rd w.db userId serverId
    return { w with db }.removeFrom p userId (w.conversations serverId)
  | .kick userId serverId memberUserId => do
    let db ← kickMember rd w.db userId serverId memberUserId
    return { w with db }.removeFrom p memberUserId (w.conversations serverId)
  | .ban userId serverId memberUserId deleteMessageDays => do
    let db ← banMember rd w.db userId serverId memberUserId deleteMessageDays
    return { w with db }
  | .purge userId => .ok { w with db := purgeTemporaryMembers w.db userId }

end World

def Ending.swept {ω : Type} (w : World ω) : Ending → List Nat
  | .leave _ serverId => w.conversations serverId
  | .kick _ serverId _ => w.conversations serverId
  | .ban _ _ _ _ => []
  | .purge _ => []

/-- What opens the conversation to the user at worker `q`, once he is no member: a cached
True, or a row that no cached answer hides. Removal by `p` leaves the other workers' caches. -/
def Lingers {ω : Type} (w : World ω) (p q : ω) (e : Ending) (k : Nat) : Prop :=
  if k ∈ e.swept w then q ≠ p ∧ w.cache q (k, e.subject) = some true
  else w.cached q (k, e.subject) = some true ∨
    (w.cached q (k, e.subject) = none ∧ (k, e.subject) ∈ w.participants)

section Results

variable {ω : Type}

theorem serverOf_eq {w : World ω} {serverId k : Nat} (h : w.HasConversation serverId k) :
    w.serverOf k = some serverId := by
  obtain ⟨c, member, rfl, here⟩ := h
  rw [World.serverOf, w.wired c member k here]
  rfl

theorem isParticipant_eq {w : World ω} {serverId k userId : Nat}
    (h : w.HasConversation serverId k) (gone : w.db.isMember serverId userId = false) (q : ω) :
    w.isParticipant q k userId = true ↔ w.cached q (k, userId) = some true ∨
      (w.cached q (k, userId) = none ∧ (k, userId) ∈ w.participants) := by
  have row : w.participates k userId = (w.participants.find (k, userId)).isSome := by
    rw [World.participates, serverOf_eq h, Option.any_some, gone, Bool.or_false]
  rw [World.isParticipant, row]
  cases w.cached q (k, userId) with
  | none =>
    rw [Option.getD_none, Table.find_isSome]
    simp
  | some answer => simp

structure Effect (w w' : World ω) (p : ω) (e : Ending) : Prop where
  channels : w'.channels = w.channels
  rows : ∀ k, (k, e.subject) ∈ w'.participants ↔ (k, e.subject) ∈ w.participants ∧ k ∉ e.swept w
  elsewhere : ∀ q k, k ∉ e.swept w → w'.cached q (k, e.subject) = w.cached q (k, e.subject)
  others : ∀ q k, k ∈ e.swept w → q ≠ p → w'.cached q (k, e.subject) = w.cache q (k, e.subject)
  own : ∀ k, k ∈ e.swept w → w'.cached p (k, e.subject) = none

variable [DecidableEq ω]

theorem removeFrom_effect (w : World ω) (db : Database) (p : ω) {e : Ending} {ks : List Nat}
    (swept : e.swept w = ks) :
    Effect w ({ w with db }.removeFrom p e.subject ks) p e := by
  subst swept
  refine ⟨rfl, ?_, ?_, ?_, ?_⟩
  · intro k
    unfold World.removeFrom
    rw [Table.mem_delete]
    simp
  · intro q k outside
    simp [World.cached, World.removeFrom, outside]
  · intro q k inside other
    simp [World.cached, World.removeFrom, inside, other]
  · intro k inside
    simp [World.cached, World.removeFrom, inside]

omit [DecidableEq ω] in
theorem tables_effect (w : World ω) (db : Database) (p : ω) {e : Ending} (swept : e.swept w = []) :
    Effect w { w with db } p e := by
  refine ⟨rfl, ?_, fun _ _ _ => rfl, ?_, ?_⟩
  · intro k
    simp [swept]
  · intro q k inside
    rw [swept] at inside
    cases inside
  · intro k inside
    rw [swept] at inside
    cases inside

theorem perform_effect {w w' : World ω} {p : ω} {rd : Reader} {e : Ending}
    (performed : w.perform rd p e = .ok w') : Effect w w' p e := by
  cases e with
  | leave userId serverId =>
    obtain ⟨db, _, rest⟩ := returned_bind performed
    cases rest
    exact removeFrom_effect (e := .leave userId serverId) w db p rfl
  | kick userId serverId memberUserId =>
    obtain ⟨db, _, rest⟩ := returned_bind performed
    cases rest
    exact removeFrom_effect (e := .kick userId serverId memberUserId) w db p rfl
  | ban userId serverId memberUserId deleteMessageDays =>
    obtain ⟨db, _, rest⟩ := returned_bind performed
    cases rest
    exact tables_effect w db p rfl
  | purge userId =>
    cases performed
    exact tables_effect w _ p rfl

/-- Once the call has ended the membership, a conversation of the server is open to the
user at a worker exactly when something lingers there. -/
theorem open_iff_lingers {w w' : World ω} {p : ω} {e : Ending} {serverId : Nat}
    (effect : Effect w w' p e) (ended : w'.db.isMember serverId e.subject = false) (q : ω) {k : Nat}
    (here : w.HasConversation serverId k) :
    w'.isParticipant q k e.subject = true ↔ Lingers w p q e k := by
  have here' : w'.HasConversation serverId k := by
    obtain ⟨c, member, conversation⟩ := here
    exact ⟨c, effect.channels ▸ member, conversation⟩
  rw [isParticipant_eq here' ended, effect.rows, Lingers]
  by_cases swept : k ∈ e.swept w
  · rw [if_pos swept]
    by_cases own : q = p
    · subst own
      simp [effect.own k swept, swept]
    · simp [effect.others q k swept own, swept, own]
  · simp [effect.elsewhere q k swept, swept]

end Results

def noChannel : World Unit where
  db :=
    { Database.empty with
      servers := ⟨[⟨100, "s", 7, false⟩], by decide⟩
      members := ⟨[plainMember 1 100 7 none false, plainMember 2 100 8 none false], by decide⟩ }
  channels := Table.empty
  metadata := fun _ => none
  participants := Table.empty
  cache := fun _ _ => none
  valkey := fun _ => none
  wired := nofun

def oneChannel : World Unit :=
  { (noChannel.createChannel 7 100 103 500).get (by decide) with
    participants := ⟨[(500, 7), (500, 8)], by decide⟩ }

theorem oneChannel_conversation : oneChannel.HasConversation 100 500 :=
  ⟨⟨103, 100, some 500, false⟩, List.mem_singleton.mpr rfl, rfl, rfl⟩

end Plexichat.Servers.ConversationAccess
