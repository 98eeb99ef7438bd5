import Plexichat.Library.Interleaving
import Plexichat.Messaging.Groups

/-! create_dm of services/conversation.py, one statement at a time, called side by side by the two
users of a pair. The UNIQUE pair of msg_dm_lookup decides which conversation the calls return; who
loses leaves his own conversation behind. -/
namespace Plexichat.Messaging.DirectMessages
open Interleaving Transition
open Groups (getConversation addSeat)

structure Store where
  db : Conversations
  cache : Option Nat

inductive Stage where
  | idle
  | cached (shouldCreate : Bool)
  | querying (shouldCreate : Bool)
  | checking (shouldCreate : Bool) (existingId : Nat)
  | creating
  | seating (convId : Nat) (userIds : List Nat)
  | recovering
  | adopting (existingId : Nat)
  | fetching (convId : Nat)
  | returned (convId : Nat)
  /-- The recipient takes no messages, or nothing is to be created. -/
  | refused
  | failed
  deriving DecidableEq

structure Call where
  userId : Nat
  recipientId : Nat
  stage : Stage

def Call.to (call : Call) (stage : Stage) : Call := { call with stage }

/-- `valkey` says whether Valkey is there, and still holds what it was given. -/
inductive Action where
  | createDm (accepted shouldCreate : Bool)
  | cacheGet (valkey : Bool)
  | getDmLookup (valkey : Bool)
  | getConversation
  | create (convId : Nat)
  | addParticipant (now : Nat)
  | createDmLookup (valkey : Bool)

/-- A DM belongs to no server: `is_participant` is what the table says. -/
def fetch (c : Store) (call : Call) (convId : Nat) : Option ConversationRow :=
  getConversation c.db (c.db.getParticipant convId call.userId).isSome convId

def remember (c : Store) (valkey : Bool) (convId : Nat) : Store :=
  if valkey then { c with cache := some convId } else c

def createOr (shouldCreate : Bool) : Stage := if shouldCreate then .creating else .refused

def found (missing : Stage) : Option ConversationRow → Stage
  | none => missing
  | some conv => .returned conv.id

def next (c : Store) (call : Call) (a : Action) : Option (Store × Call) :=
  match call.stage, a with
  | .idle, .createDm accepted shouldCreate =>
    some (c, call.to
      (if call.userId ≠ call.recipientId && accepted then .cached shouldCreate else .refused))
  | .cached shouldCreate, .cacheGet valkey =>
    match c.cache.filter fun id => valkey && id ≠ 0 with
    | some existingId => some (c, call.to (.checking shouldCreate existingId))
    | none => some (c, call.to (.querying shouldCreate))
  | .querying shouldCreate, .getDmLookup valkey =>
    match (c.db.getDmLookup call.userId call.recipientId).filter (· ≠ 0) with
    | some existingId =>
      some (remember c valkey existingId, call.to (.checking shouldCreate existingId))
    | none => some (c, call.to (createOr shouldCreate))
  | .checking shouldCreate existingId, .getConversation =>
    some (c, call.to (found (createOr shouldCreate) (fetch c call existingId)))
  | .creating, .create convId =>
    -- an id is positive, and generated once
    if convId = 0 then none
    else (c.db.create ⟨convId, .dm, none, 2, false⟩).map fun db =>
      ({ c with db }, call.to (.seating convId [call.userId, call.recipientId]))
  | .seating convId (userId :: userIds), .addParticipant now =>
    match addSeat c.db ⟨convId, userId, .member, now⟩ with
    | (.error _, db) => some ({ c with db }, call.to .failed)
    | (.ok _, db) => some ({ c with db }, call.to (.seating convId userIds))
  | .seating convId [], .createDmLookup valkey =>
    match c.db.createDmLookup call.userId call.recipientId convId with
    | none => some (c, call.to .recovering)
    | some db => some (remember { c with db } valkey convId, call.to (.fetching convId))
  | .recovering, .getDmLookup valkey =>
    match c.db.getDmLookup call.userId call.recipientId with
    | none => some (c, call.to .failed)
    | some existingId => some (remember c (valkey && existingId ≠ 0) existingId,
        call.to (.adopting existingId))
  | .adopting existingId, .getConversation =>
    some (c, call.to (found .failed (fetch c call existingId)))
  | .fetching convId, .getConversation =>
    some (c, call.to (found .failed (fetch c call convId)))
  | _, _ => none

def Between (db : Conversations) (a b convId : Nat) : Prop :=
  (∃ conv, db.getById convId = some conv ∧ conv.conversationType = .dm) ∧
    (db.getParticipant convId a).isSome ∧ (db.getParticipant convId b).isSome

/-- `get_user_conversations`, whose order and pages are left out. -/
def userConversations (db : Conversations) (userId : Nat) : List ConversationRow :=
  (db.participants.rows.filter fun p => p.userId = userId).filterMap fun p =>
    db.getById p.conversationId

def listed (db : Conversations) (a b userId : Nat) : List Nat :=
  ((userConversations db userId).filter fun conv => conv.conversationType = .dm &&
    (db.getParticipant conv.id a).isSome && (db.getParticipant conv.id b).isSome).map
      ConversationRow.id

def Call.of (a b : Nat) (call : Call) : Prop :=
  call.userId = a ∧ call.recipientId = b ∨ call.userId = b ∧ call.recipientId = a

def Stage.holds : Stage → Option Nat
  | .seating convId _ => some convId
  | _ => none

structure Consistent (a b : Nat) (c : Store) : Prop where
  registered : ∀ id, c.db.getDmLookup a b = some id → id ≠ 0 ∧ Between c.db a b id
  cached : ∀ id, c.cache = some id → c.db.getDmLookup a b = some id

variable {ι : Type}

structure Initial (a b : Nat) (s : State ι Store Call) : Prop where
  apart : a ≠ b
  consistent : Consistent a b s.shared
  known : ∀ id, Between s.shared.db a b id → s.shared.db.getDmLookup a b = some id
  idle : ∀ i, (s.pc i).of a b ∧ (s.pc i).stage = .idle

/-- No call fails; once all have returned, they have returned one conversation, and it is the only
DM of the pair that either user finds in his list. -/
def OneDm (a b : Nat) (s : State ι Store Call) : Prop :=
  (∀ i, (s.pc i).stage ≠ .failed) ∧
    ((∀ i, ∃ id, (s.pc i).stage = .returned id) → ∀ i id, (s.pc i).stage = .returned id →
      (∀ j, (s.pc j).stage = .returned id) ∧
        ∀ userId, userId = a ∨ userId = b → listed s.shared.db a b userId = [id])

/-- A conversation is created only for a pair that has registered none, while no other call holds
one that it has not registered. -/
def Alone (a b : Nat) (s : State ι Store Call) (move : ι × Action) : Prop :=
  match move.2 with
  | .create _ => s.shared.db.getDmLookup a b = none ∧
      ∀ j, j ≠ move.1 → (s.pc j).stage.holds = none
  | _ => True

section Pair

variable {db db' : Conversations} {a b convId userId : Nat}

theorem getDmLookup_comm (db : Conversations) (a b : Nat) :
    db.getDmLookup a b = db.getDmLookup b a := by
  rw [Conversations.getDmLookup, Conversations.getDmLookup, Conversations.pair,
    Conversations.pair, min_comm, max_comm]

theorem getDmLookup_of {call : Call} (of : call.of a b) (db : Conversations) :
    db.getDmLookup call.userId call.recipientId = db.getDmLookup a b := by
  rcases of with ⟨user, recipient⟩ | ⟨user, recipient⟩
  · rw [user, recipient]
  · rw [user, recipient, getDmLookup_comm]

theorem createDmLookup_eq_none (h : db.createDmLookup a b convId = none) :
    ∃ id, db.getDmLookup a b = some id := by
  rw [Conversations.createDmLookup, Option.map_eq_none_iff] at h
  cases used : db.dmLookup.find (Conversations.pair a b) with
  | none =>
    obtain ⟨t, inserted⟩ := Table.insert_of_fresh
      (r := (⟨min a b, max a b, convId⟩ : DmLookup)) used
    rw [inserted] at h
    cases h
  | some l => exact ⟨l.conversationId, by rw [Conversations.getDmLookup, used]; rfl⟩

theorem createDmLookup_eq_some (h : db.createDmLookup a b convId = some db') :
    db'.conversations = db.conversations ∧ db'.participants = db.participants ∧
      db.getDmLookup a b = none ∧ db'.getDmLookup a b = some convId := by
  obtain ⟨t, inserted, rfl⟩ := Option.map_eq_some_iff.mp h
  refine ⟨rfl, rfl, ?_, ?_⟩
  · rw [Conversations.getDmLookup, Option.map_eq_none_iff]
    exact (Table.insert_eq_some inserted).1
  · exact congrArg (Option.map DmLookup.conversationId) (Table.find_inserted inserted)

structure Grows (a b : Nat) (held : Option Nat) (db db' : Conversations) : Prop where
  rows : ∀ id conv, db.getById id = some conv → db'.getById id = some conv
  others : ∀ id, held ≠ some id → ∀ u, db'.getParticipant id u = db.getParticipant id u
  seats : ∀ id u, (db.getParticipant id u).isSome → (db'.getParticipant id u).isSome
  old : ∀ id, Between db' a b id → Between db a b id ∨ held = some id

theorem Grows.between {held : Option Nat} (g : Grows a b held db db')
    (h : Between db a b convId) : Between db' a b convId := by
  obtain ⟨⟨conv, live, dm⟩, first, second⟩ := h
  exact ⟨⟨conv, g.rows _ _ live, dm⟩, g.seats _ _ first, g.seats _ _ second⟩

theorem Grows.same {held : Option Nat} (conversations : db'.conversations = db.conversations)
    (participants : db'.participants = db.participants) :
    Grows a b held db db' := by
  have getById : ∀ id, db'.getById id = db.getById id := by
    intro id
    rw [Conversations.getById, Conversations.getById, conversations]
  have getParticipant : ∀ id u, db'.getParticipant id u = db.getParticipant id u := by
    intro id u
    rw [Conversations.getParticipant, Conversations.getParticipant, participants]
  refine ⟨?_, ?_, ?_, ?_⟩
  · intro id conv live
    rw [getById, live]
  · intro id _ u
    rw [getParticipant]
  · intro id u there
    rw [getParticipant]
    exact there
  · intro id between
    left
    unfold Between at between ⊢
    rw [← getById, ← getParticipant, ← getParticipant]
    exact between

theorem Grows.create {row : ConversationRow} {held : Option Nat} (h : db.create row = some db') :
    Grows a b held db db' := by
  obtain ⟨fresh, participants, -, find⟩ := Conversations.create_eq_some h
  have getParticipant : ∀ id u, db'.getParticipant id u = db.getParticipant id u := by
    intro id u
    rw [Conversations.getParticipant, Conversations.getParticipant, participants]
  have getById : ∀ id, row.id ≠ id → db'.getById id = db.getById id := by
    intro id other
    rw [Conversations.getById, find, if_neg other]
    rfl
  refine ⟨?_, ?_, ?_, ?_⟩
  · intro id conv live
    have other : row.id ≠ id := by
      rintro rfl
      rw [Conversations.getById, fresh] at live
      cases live
    rw [getById id other, live]
  · intro id _ u
    rw [getParticipant]
  · intro id u there
    rw [getParticipant]
    exact there
  · intro id between
    left
    obtain ⟨⟨conv, live, dm⟩, first, second⟩ := between
    rw [getParticipant] at first second
    have other : row.id ≠ id := by
      rintro rfl
      obtain ⟨p, seated⟩ := Option.isSome_iff_exists.mp first
      have mem := (Conversations.getParticipant_eq_some.mp seated).1
      rw [Conversations.seats_eq_nil fresh] at mem
      cases mem
    exact ⟨⟨conv, (getById id other) ▸ live, dm⟩, first, second⟩

theorem getParticipant_append {row : ParticipantRow}
    (rows : db'.participants.rows = db.participants.rows ++ [row])
    (free : db.getParticipant row.conversationId row.userId = none) (id u : Nat) :
    db'.getParticipant id u =
      if row.conversationId = id ∧ row.userId = u then some row else db.getParticipant id u := by
  have keys : db'.getParticipant id u =
      (db.getParticipant id u).or (if row.key = (id, u) then some row else none) := by
    rw [Conversations.getParticipant, Table.find, rows, List.find?_append]
    simp [Conversations.getParticipant, Table.find]
  simp only [keys, ParticipantRow.key, Prod.mk.injEq]
  split
  · rename_i here
    rw [← here.1, ← here.2, free]
    rfl
  · simp

theorem Grows.addSeat {row : ParticipantRow} (h : db.createParticipant row = some db')
    (free : db.getParticipant row.conversationId row.userId = none) :
    Grows a b (some row.conversationId) db db' := by
  obtain ⟨conversations, -, appended⟩ := Conversations.createParticipant_eq_some h
  have getById : ∀ id, db'.getById id = db.getById id := by
    intro id
    rw [Conversations.getById, Conversations.getById, conversations]
  have getParticipant := getParticipant_append (appended free) free
  have others : ∀ id, some row.conversationId ≠ some id → ∀ u,
      db'.getParticipant id u = db.getParticipant id u := by
    intro id other u
    rw [getParticipant, if_neg]
    rintro ⟨rfl, -⟩
    exact other rfl
  refine ⟨?_, others, ?_, ?_⟩
  · intro id conv live
    rw [getById, live]
  · intro id u there
    rw [getParticipant]
    split
    · rfl
    · exact there
  · intro id between
    by_cases here : some row.conversationId = some id
    · exact Or.inr here
    · left
      unfold Between at between ⊢
      rw [← getById, ← others id here, ← others id here]
      exact between

end Pair

def Fits (a b : Nat) (db : Conversations) (call : Call) : Prop :=
  match call.stage with
  | .checking _ id | .adopting id | .fetching id | .returned id => db.getDmLookup a b = some id
  | .recovering => ∃ id, db.getDmLookup a b = some id
  | .seating convId userIds => convId ≠ 0 ∧
      (∃ conv, db.getById convId = some conv ∧ conv.conversationType = .dm) ∧
      ∃ seated, seated ++ userIds = [call.userId, call.recipientId] ∧
        (∀ u ∈ seated, (db.getParticipant convId u).isSome) ∧
        ∀ u ∈ userIds, db.getParticipant convId u = none
  | .failed => False
  | _ => True

structure Moves (a b : Nat) (c : Store) (call : Call) (r : Store × Call) : Prop where
  of : r.2.of a b
  grows : Grows a b call.stage.holds c.db r.1.db
  consistent : Consistent a b r.1
  fits : Fits a b r.1.db r.2
  /-- What it holds is what it held, or new. -/
  fresh : ∀ id, r.2.stage.holds = some id → call.stage.holds = some id ∨ c.db.getById id = none
  /-- It holds something new only where it creates it. -/
  creating : r.2.stage.holds ≠ none → call.stage = .creating ∨ call.stage.holds = r.2.stage.holds
  lookup : r.1.db.getDmLookup a b = c.db.getDmLookup a b ∨
    c.db.getDmLookup a b = none ∧ r.1.db.getDmLookup a b = call.stage.holds ∧
      r.2.stage.holds = none
  /-- It lets go of what it held when the pair has registered a conversation. -/
  lets : ∀ id, call.stage.holds = some id → r.2.stage.holds = none →
    r.1.db.getDmLookup a b = some id ∨ c.db.getDmLookup a b ≠ none

section Statements

variable {a b : Nat} {c c' : Store} {call : Call}

theorem remember_db (c : Store) (valkey : Bool) (id : Nat) : (remember c valkey id).db = c.db := by
  unfold remember
  split
  · rfl
  · rfl

theorem Consistent.remember (known : Consistent a b c) {id : Nat}
    (registered : c.db.getDmLookup a b = some id) (valkey : Bool) :
    Consistent a b (remember c valkey id) := by
  unfold DirectMessages.remember
  split
  · refine ⟨known.registered, ?_⟩
    intro id' cached
    cases cached
    exact registered
  · exact known

theorem Consistent.grows (known : Consistent a b c) {held : Option Nat} {db : Conversations}
    (grows : Grows a b held c.db db) (lookup : db.getDmLookup a b = c.db.getDmLookup a b) :
    Consistent a b { c with db } := by
  refine ⟨?_, ?_⟩
  · intro id registered
    obtain ⟨positive, between⟩ := known.registered id (lookup ▸ registered)
    exact ⟨positive, grows.between between⟩
  · intro id cached
    exact lookup.trans (known.cached id cached)

theorem Moves.look {stage : Stage} (of : call.of a b) (same : c'.db = c.db)
    (known : Consistent a b c') (before : call.stage.holds = none) (after : stage.holds = none)
    (fits : Fits a b c'.db (call.to stage)) : Moves a b c call (c', call.to stage) where
  of := of
  grows := by
    rw [same]
    exact Grows.same rfl rfl
  consistent := known
  fits := fits
  fresh := by
    intro id holds
    rw [Call.to, after] at holds
    cases holds
  creating := by
    intro holds
    exact absurd after holds
  lookup := Or.inl (by rw [same])
  lets := by
    intro id holds
    rw [before] at holds
    cases holds

theorem fetch_between (of : call.of a b) {id : Nat} (between : Between c.db a b id)
    (missing : Stage) : found missing (fetch c call id) = .returned id := by
  obtain ⟨⟨conv, live, -⟩, first, second⟩ := between
  have member : (c.db.getParticipant id call.userId).isSome := by
    rcases of with ⟨user, -⟩ | ⟨user, -⟩
    · rw [user]
      exact first
    · rw [user]
      exact second
  have key := (Table.find_eq_some.mp (Option.filter_eq_some_iff.mp live).1).2
  rw [fetch, getConversation, if_pos member, live, found, key]

theorem holds_createOr (shouldCreate : Bool) : (createOr shouldCreate).holds = none := by
  cases shouldCreate
  · rfl
  · rfl

theorem fits_createOr (db : Conversations) (call : Call) (shouldCreate : Bool) :
    Fits a b db (call.to (createOr shouldCreate)) := by
  cases shouldCreate
  · trivial
  · trivial

theorem create_moves (of : call.of a b) (known : Consistent a b c) (creating : call.stage = .creating)
    {convId : Nat} (positive : convId ≠ 0) {db : Conversations}
    (created : c.db.create ⟨convId, .dm, none, 2, false⟩ = some db) :
    Moves a b c call
      ({ c with db }, call.to (.seating convId [call.userId, call.recipientId])) := by
  have idle : call.stage.holds = none := by
    rw [creating]
    rfl
  have grows : Grows a b none c.db db := Grows.create created
  obtain ⟨fresh, participants, lookup, find⟩ := Conversations.create_eq_some created
  have row := find convId
  rw [if_pos rfl] at row
  have same : db.getDmLookup a b = c.db.getDmLookup a b := by
    rw [Conversations.getDmLookup, lookup]
    rfl
  have fits : Fits a b db (call.to (.seating convId [call.userId, call.recipientId])) := by
    refine ⟨positive, ⟨⟨convId, .dm, none, 2, false⟩, ?_, rfl⟩, [], rfl, ?_, ?_⟩
    · rw [Conversations.getById, row]
      rfl
    · intro u mem
      cases mem
    · intro u _
      have free : c.db.getParticipant convId u = none := by
        rw [Conversations.getParticipant_eq_none, Conversations.seats_eq_nil fresh]
        exact List.not_mem_nil
      rw [Conversations.getParticipant, participants]
      exact free
  refine ⟨of, idle ▸ grows, known.grows grows same, fits, ?_, fun _ => Or.inl creating,
    Or.inl same, ?_⟩
  · intro id holds
    cases holds
    right
    rw [Conversations.getById, fresh]
    rfl
  · intro id holds
    rw [idle] at holds
    cases holds

theorem seat_moves (apart : a ≠ b) (of : call.of a b) (known : Consistent a b c)
    {convId u now : Nat} {userIds : List Nat}
    (fits : Fits a b c.db (call.to (.seating convId (u :: userIds)))) {db : Conversations}
    (created : c.db.createParticipant ⟨convId, u, .member, now⟩ = some db) :
    Moves a b c (call.to (.seating convId (u :: userIds)))
      ({ c with db }, call.to (.seating convId userIds)) := by
  obtain ⟨positive, ⟨conv, live, dm⟩, seated, order, there, free⟩ := fits
  have absent : c.db.getParticipant convId u = none := free u (List.mem_cons_self ..)
  have grows : Grows a b (some convId) c.db db := Grows.addSeat created absent
  obtain ⟨-, lookup, appended⟩ := Conversations.createParticipant_eq_some created
  have getParticipant := getParticipant_append (appended absent) absent convId
  have users : (seated ++ u :: userIds).Nodup := by
    rw [order]
    rcases of with ⟨user, recipient⟩ | ⟨user, recipient⟩
    · simp [Call.to, user, recipient, apart]
    · simp [Call.to, user, recipient, apart.symm]
  have later : u ∉ userIds := (List.nodup_cons.mp (List.nodup_append.mp users).2.1).1
  have same : db.getDmLookup a b = c.db.getDmLookup a b := by
    rw [Conversations.getDmLookup, lookup]
    rfl
  refine ⟨of, grows, known.grows grows same,
    ⟨positive, ⟨conv, grows.rows _ _ live, dm⟩, seated ++ [u], ?_, ?_, ?_⟩,
    fun _ => Or.inl, fun _ => Or.inr rfl, Or.inl same, ?_⟩
  · rw [List.append_assoc]
    exact order
  · intro v mem
    rcases List.mem_append.mp mem with before | now
    · exact grows.seats _ _ (there v before)
    · cases List.mem_singleton.mp now
      rw [getParticipant, if_pos ⟨rfl, rfl⟩]
      rfl
  · intro v mem
    have other : u ≠ v := by
      rintro rfl
      exact later mem
    rw [getParticipant, if_neg fun here => other here.2]
    exact free v (List.mem_cons_of_mem _ mem)
  · intro id _ lets
    cases lets

theorem register_moves (of : call.of a b) (known : Consistent a b c) {convId : Nat}
    (fits : Fits a b c.db (call.to (.seating convId []))) {db : Conversations}
    (h : c.db.createDmLookup call.userId call.recipientId convId = some db) (valkey : Bool) :
    Moves a b c (call.to (.seating convId []))
      (remember { c with db } valkey convId, call.to (.fetching convId)) := by
  obtain ⟨positive, live, seated, order, there, -⟩ := fits
  obtain ⟨conversations, participants, unregistered, registered⟩ := createDmLookup_eq_some h
  rw [getDmLookup_of of] at unregistered registered
  have grows : Grows a b (some convId) c.db db := Grows.same conversations participants
  have between : Between c.db a b convId := by
    rw [List.append_nil] at order
    rw [order] at there
    have user := there call.userId (List.mem_cons_self ..)
    have recipient := there call.recipientId (by simp [Call.to])
    rcases of with ⟨one, two⟩ | ⟨one, two⟩
    · rw [one] at user
      rw [two] at recipient
      exact ⟨live, user, recipient⟩
    · rw [one] at user
      rw [two] at recipient
      exact ⟨live, recipient, user⟩
  have consistent : Consistent a b { c with db } := by
    refine ⟨?_, ?_⟩
    · intro id here
      cases registered.symm.trans here
      exact ⟨positive, grows.between between⟩
    · intro id cached
      rw [known.cached id cached] at unregistered
      cases unregistered
  have same := remember_db { c with db } valkey convId
  have lookup : (remember { c with db } valkey convId).db.getDmLookup a b = some convId := by
    rw [same]
    exact registered
  refine ⟨of, ?_, consistent.remember registered valkey, lookup, ?_, ?_,
    Or.inr ⟨unregistered, lookup, rfl⟩, ?_⟩
  · rw [same]
    exact grows
  · intro id holds
    cases holds
  · intro holds
    exact absurd rfl holds
  · intro id holds _
    cases holds
    exact Or.inl lookup

theorem next_moves (apart : a ≠ b) (of : call.of a b) (known : Consistent a b c)
    (fits : Fits a b c.db call) {act : Action} {r : Store × Call}
    (moved : next c call act = some r) : Moves a b c call r := by
  obtain ⟨userId, recipientId, stage⟩ := call
  simp only [next] at moved
  split at moved
  · rename_i accepted shouldCreate
    cases moved
    refine Moves.look of rfl known rfl ?_ ?_
    · split
      · rfl
      · rfl
    · split
      · trivial
      · trivial
  -- the cache
  · rename_i shouldCreate valkey
    split at moved
    · rename_i existingId hit
      cases moved
      have registered := known.cached _ (Option.filter_eq_some_iff.mp hit).1
      exact Moves.look of rfl known rfl rfl registered
    · cases moved
      exact Moves.look of rfl known rfl rfl trivial
  -- the lookup
  · rename_i shouldCreate valkey
    split at moved
    · rename_i existingId hit
      cases moved
      have registered := (Option.filter_eq_some_iff.mp hit).1
      rw [getDmLookup_of of] at registered
      have same := remember_db c valkey existingId
      refine Moves.look of same (known.remember registered valkey) rfl rfl ?_
      show Conversations.getDmLookup _ a b = some existingId
      rw [same, registered]
    · cases moved
      exact Moves.look of rfl known rfl (holds_createOr _) (fits_createOr ..)
  -- the registered conversation is found
  · rename_i shouldCreate existingId
    cases moved
    have there := fetch_between of (known.registered existingId fits).2 (createOr shouldCreate)
    rw [there]
    exact Moves.look of rfl known rfl rfl fits
  -- the INSERT of a conversation
  · rename_i convId
    split at moved
    · cases moved
    · rename_i positive
      obtain ⟨db, created, moved⟩ := Option.map_eq_some_iff.mp moved
      cases moved
      exact create_moves of known rfl positive created
  -- a participant
  · rename_i convId u userIds now
    obtain ⟨-, ⟨conv, live, -⟩, seated, -, -, free⟩ := id fits
    have absent := free u (List.mem_cons_self ..)
    have known_row : (c.db.conversations.find convId).isSome := by
      rw [(Option.filter_eq_some_iff.mp live).1]
      rfl
    obtain ⟨db, created⟩ : ∃ db, c.db.createParticipant ⟨convId, u, .member, now⟩ = some db :=
      Conversations.createParticipant_of_known known_row
    simp only [addSeat, absent, created, Option.isSome_none, Bool.false_eq_true, if_false] at moved
    cases moved
    exact seat_moves apart of known fits created
  -- the lookup's INSERT
  · rename_i convId valkey
    split at moved
    · rename_i taken
      cases moved
      have registered := createDmLookup_eq_none taken
      rw [getDmLookup_of of] at registered
      refine ⟨of, Grows.same rfl rfl, known, registered, ?_, ?_, Or.inl rfl, ?_⟩
      · intro id holds
        cases holds
      · intro holds
        exact absurd rfl holds
      · intro id _ _
        right
        obtain ⟨other, registered⟩ := registered
        simp [registered]
    · rename_i db registered
      cases moved
      exact register_moves of known fits registered valkey
  -- the winner's conversation
  · rename_i valkey
    obtain ⟨id, registered⟩ := fits
    rw [getDmLookup_of of, registered] at moved
    cases moved
    have same := remember_db c (valkey && decide (id ≠ 0)) id
    refine Moves.look of same (known.remember registered _) rfl rfl ?_
    show Conversations.getDmLookup _ a b = some id
    rw [same, registered]
  · rename_i existingId
    cases moved
    rw [fetch_between of (known.registered existingId fits).2 .failed]
    exact Moves.look of rfl known rfl rfl fits
  · rename_i convId
    cases moved
    rw [fetch_between of (known.registered convId fits).2 .failed]
    exact Moves.look of rfl known rfl rfl fits
  · cases moved

theorem Moves.keeps_lookup {r : Store × Call} (m : Moves a b c call r) {id : Nat}
    (h : c.db.getDmLookup a b = some id) : r.1.db.getDmLookup a b = some id := by
  rcases m.lookup with same | ⟨unregistered, -⟩
  · rw [same, h]
  · rw [h] at unregistered
    cases unregistered

theorem Moves.keeps_fits {r : Store × Call} (m : Moves a b c call r) {other : Call}
    (fits : Fits a b c.db other)
    (apart : ∀ id, other.stage.holds = some id → call.stage.holds ≠ some id) :
    Fits a b r.1.db other := by
  obtain ⟨userId, recipientId, stage⟩ := other
  cases stage with
  | seating convId userIds =>
    obtain ⟨positive, ⟨conv, live, dm⟩, seated, order, there, free⟩ := fits
    have elsewhere := m.grows.others convId (apart convId rfl)
    refine ⟨positive, ⟨conv, m.grows.rows _ _ live, dm⟩, seated, order, ?_, ?_⟩
    · intro u mem
      rw [elsewhere]
      exact there u mem
    · intro u mem
      rw [elsewhere]
      exact free u mem
  | recovering =>
    obtain ⟨id, registered⟩ := fits
    exact ⟨id, m.keeps_lookup registered⟩
  | checking _ id => exact m.keeps_lookup fits
  | adopting id => exact m.keeps_lookup fits
  | fetching id => exact m.keeps_lookup fits
  | returned id => exact m.keeps_lookup fits
  | failed => exact fits
  | idle | cached | querying | creating | refused => trivial

end Statements

section Runs

variable {a b : Nat} [DecidableEq ι] {s : State ι Store Call}

structure Inv (a b : Nat) (s : State ι Store Call) : Prop where
  apart : a ≠ b
  consistent : Consistent a b s.shared
  each : ∀ i, (s.pc i).of a b ∧ Fits a b s.shared.db (s.pc i)
  pair : ∀ i j, i ≠ j → ∀ id, (s.pc i).stage.holds = some id → (s.pc j).stage.holds ≠ some id

omit [DecidableEq ι] in
theorem Initial.inv (h : Initial a b s) : Inv a b s := by
  have stage : ∀ i, (s.pc i).stage = .idle := fun i => (h.idle i).2
  refine ⟨h.apart, h.consistent, ?_, ?_⟩
  · intro i
    refine ⟨(h.idle i).1, ?_⟩
    unfold Fits
    rw [stage i]
    trivial
  · intro i j _ id holds
    rw [stage i] at holds
    cases holds

omit [DecidableEq ι] in
theorem Inv.moves (inv : Inv a b s) {i : ι} {act : Action} {r : Store × Call}
    (moved : next s.shared (s.pc i) act = some r) : Moves a b s.shared (s.pc i) r :=
  next_moves inv.apart (inv.each i).1 inv.consistent (inv.each i).2 moved

theorem fits_held {db : Conversations} {call : Call} (fits : Fits a b db call) {id : Nat}
    (holds : call.stage.holds = some id) : db.getById id ≠ none := by
  obtain ⟨userId, recipientId, stage⟩ := call
  cases stage with
  | seating convId userIds =>
    cases holds
    obtain ⟨-, ⟨conv, live, -⟩, -⟩ := fits
    rw [live]
    exact Option.some_ne_none conv
  | _ => cases holds

theorem Inv.after (inv : Inv a b s) {i : ι} {r : Store × Call}
    (m : Moves a b s.shared (s.pc i) r) : Inv a b (s.after i r) := by
  have elsewhere : ∀ j, j ≠ i → ∀ id, (s.pc j).stage.holds = some id →
      r.2.stage.holds ≠ some id := by
    intro j other id holds mine
    rcases m.fresh id mine with before | fresh
    · exact inv.pair j i other id holds before
    · exact fits_held (inv.each j).2 holds fresh
  refine ⟨inv.apart, m.consistent, ?_, ?_⟩
  · intro j
    show _ ∧ Fits a b r.1.db _
    by_cases here : j = i
    · rw [here, after_self]
      exact ⟨m.of, m.fits⟩
    · rw [after_other s here]
      exact ⟨(inv.each j).1, m.keeps_fits (inv.each j).2 (inv.pair j i here)⟩
  · intro j k apart id holds
    by_cases here : j = i
    · have there : k ≠ i := fun same => apart (here.trans same.symm)
      rw [here, after_self] at holds
      rw [after_other s there]
      exact fun same => elsewhere k there id same holds
    · rw [after_other s here] at holds
      by_cases there : k = i
      · rw [there, after_self]
        exact elsewhere j here id holds
      · rw [after_other s there]
        exact inv.pair j k apart id holds

omit [DecidableEq ι] in
theorem Inv.agree (inv : Inv a b s) {i j : ι} {id other : Nat}
    (one : (s.pc i).stage = .returned id) (two : (s.pc j).stage = .returned other) :
    id = other := by
  have first := (inv.each i).2
  have second := (inv.each j).2
  unfold Fits at first second
  rw [one] at first
  rw [two] at second
  exact Option.some.inj (first.symm.trans second)

structure Sole (a b : Nat) (s : State ι Store Call) : Prop where
  known : ∀ id, Between s.shared.db a b id →
    s.shared.db.getDmLookup a b = some id ∨ ∃ i, (s.pc i).stage.holds = some id
  alone : ∀ i id, (s.pc i).stage.holds = some id →
    s.shared.db.getDmLookup a b = none ∧ ∀ j, j ≠ i → (s.pc j).stage.holds = none

omit [DecidableEq ι] in
theorem Initial.sole (h : Initial a b s) : Sole a b s := by
  refine ⟨fun id between => Or.inl (h.known id between), ?_⟩
  intro i id holds
  rw [(h.idle i).2] at holds
  cases holds

theorem Sole.after (sole : Sole a b s) {i : ι} {r : Store × Call}
    (m : Moves a b s.shared (s.pc i) r)
    (ok : (s.pc i).stage = .creating → s.shared.db.getDmLookup a b = none ∧
      ∀ j, j ≠ i → (s.pc j).stage.holds = none) : Sole a b (s.after i r) := by
  have held : ∀ id, (s.pc i).stage.holds = some id → r.1.db.getDmLookup a b = some id ∨
      ∃ j, ((s.after i r).pc j).stage.holds = some id := by
    intro id holds
    by_cases lets : r.2.stage.holds = none
    · rcases m.lets id holds lets with registered | other
      · exact Or.inl registered
      · exact absurd (sole.alone i id holds).1 other
    · rcases m.creating lets with creates | same
      · rw [creates] at holds
        cases holds
      · exact Or.inr ⟨i, by rw [after_self, ← same, holds]⟩
  have mine : r.2.stage.holds ≠ none → s.shared.db.getDmLookup a b = none ∧
      ∀ j, j ≠ i → (s.pc j).stage.holds = none := by
    intro holds
    rcases m.creating holds with creates | same
    · exact ok creates
    · obtain ⟨id, there⟩ := Option.ne_none_iff_exists'.mp holds
      exact sole.alone i id (same.trans there)
  refine ⟨?_, ?_⟩
  · intro id between
    rcases m.grows.old id between with before | holds
    · rcases sole.known id before with registered | ⟨j, holds⟩
      · exact Or.inl (m.keeps_lookup registered)
      · by_cases here : j = i
        · exact held id (here ▸ holds)
        · exact Or.inr ⟨j, by rw [after_other s here, holds]⟩
    · exact held id holds
  · intro j id holds
    show r.1.db.getDmLookup a b = none ∧ _
    by_cases here : j = i
    · rw [here, after_self] at holds
      have still : r.2.stage.holds ≠ none := by
        rw [holds]
        exact Option.some_ne_none id
      obtain ⟨unregistered, others⟩ := mine still
      refine ⟨?_, ?_⟩
      · rcases m.lookup with same | ⟨-, -, lets⟩
        · rw [same, unregistered]
        · exact absurd lets still
      · intro k other
        rw [here] at other
        rw [after_other s other, others k other]
    · rw [after_other s here] at holds
      obtain ⟨unregistered, others⟩ := sole.alone j id holds
      have free := others i (Ne.symm here)
      refine ⟨?_, ?_⟩
      · rcases m.lookup with same | ⟨-, now, -⟩
        · rw [same, unregistered]
        · rw [now, free]
      · intro k other
        by_cases there : k = i
        · rw [there, after_self]
          by_contra still
          have none := (mine still).2 j here
          rw [holds] at none
          cases none
        · rw [after_other s there, others k other]

theorem next_creating {c : Store} {call : Call} {act : Action} {r : Store × Call}
    (creates : call.stage = .creating) (moved : next c call act = some r) :
    ∃ id, act = .create id := by
  unfold next at moved
  rw [creates] at moved
  cases act with
  | create convId => exact ⟨convId, rfl⟩
  | _ => cases moved

theorem guarded_inv (h : Guarded (step next) (Alone a b) (Initial a b) s) :
    Inv a b s ∧ Sole a b s := by
  have first : ∀ s : State ι Store Call, Initial a b s → Inv a b s ∧ Sole a b s :=
    fun _ first => ⟨first.inv, first.sole⟩
  refine guarded_invariant first ?_ h
  intro s move t holds ok moved
  obtain ⟨r, statement, rfl⟩ := step_eq_some.mp moved
  have m := holds.1.moves statement
  refine ⟨holds.1.after m, holds.2.after m ?_⟩
  intro creates
  obtain ⟨id, act⟩ := next_creating creates statement
  unfold Alone at ok
  rw [act] at ok
  exact ok

end Runs

section Lists

variable {db : Conversations} {a b userId id : Nat}

theorem getById_id {conv : ConversationRow} (h : db.getById id = some conv) : conv.id = id :=
  (Table.find_eq_some.mp (Option.filter_eq_some_iff.mp h).1).2

theorem mem_listed (h : userId = a ∨ userId = b) :
    id ∈ listed db a b userId ↔ Between db a b id := by
  simp only [listed, userConversations, List.mem_map, List.mem_filter, List.mem_filterMap,
    Bool.and_eq_true, decide_eq_true_eq]
  constructor
  · rintro ⟨conv, ⟨⟨p, -, live⟩, ⟨dm, first⟩, second⟩, rfl⟩
    exact ⟨⟨conv, (getById_id live) ▸ live, dm⟩, first, second⟩
  · rintro ⟨⟨conv, live, dm⟩, first, second⟩
    have member : (db.getParticipant id userId).isSome := by
      rcases h with here | here
      · rw [here]
        exact first
      · rw [here]
        exact second
    obtain ⟨p, seated⟩ := Option.isSome_iff_exists.mp member
    obtain ⟨mem, user⟩ := Conversations.getParticipant_eq_some.mp seated
    obtain ⟨row, conversation⟩ := Conversations.mem_seats.mp mem
    have key := getById_id live
    exact ⟨conv, ⟨⟨p, ⟨row, user⟩, by rw [conversation, live]⟩, ⟨dm, key ▸ first⟩, key ▸ second⟩,
      key⟩

theorem found_sublist (db : Conversations) (seats : List ParticipantRow) :
    ((seats.filterMap fun p => db.getById p.conversationId).map ConversationRow.id).Sublist
      (seats.map ParticipantRow.conversationId) := by
  induction seats with
  | nil => exact List.Sublist.slnil
  | cons p rest ih =>
    cases live : db.getById p.conversationId with
    | none =>
      simp only [List.filterMap_cons, live]
      exact ih.cons _
    | some conv =>
      simp only [List.filterMap_cons, live, List.map_cons, getById_id live]
      exact ih.cons_cons _

theorem listed_nodup (db : Conversations) (a b userId : Nat) : (listed db a b userId).Nodup := by
  have keys : ((db.participants.rows.filter fun p => p.userId = userId).map
      ParticipantRow.key).Nodup :=
    db.participants.unique.sublist (List.filter_sublist.map _)
  have users : (db.participants.rows.filter fun p => p.userId = userId).map ParticipantRow.key =
      ((db.participants.rows.filter fun p => p.userId = userId).map
        ParticipantRow.conversationId).map fun id => (id, userId) := by
    rw [List.map_map]
    apply List.map_congr_left
    intro p mem
    simpa [ParticipantRow.key] using (List.mem_filter.mp mem).2
  rw [users] at keys
  exact (keys.of_map _).sublist ((List.filter_sublist.map _).trans (found_sublist db _))

theorem listed_eq_singleton (h : userId = a ∨ userId = b) (between : Between db a b id)
    (only : ∀ other, Between db a b other → other = id) : listed db a b userId = [id] := by
  apply List.perm_singleton.mp
  apply (List.perm_ext_iff_of_nodup (listed_nodup db a b userId) (List.nodup_singleton id)).mpr
  intro other
  rw [mem_listed h, List.mem_singleton]
  constructor
  · exact only other
  · rintro rfl
    exact between

end Lists

variable [DecidableEq ι]

/-- While no call creates a conversation beside another, all return one, the only one listed. -/
theorem one_dm_for_the_pair {a b : Nat} {s : State ι Store Call}
    (h : Guarded (step next) (Alone a b) (Initial a b) s) : OneDm a b s := by
  obtain ⟨inv, sole⟩ := guarded_inv h
  refine ⟨?_, ?_⟩
  · intro i failed
    have fits := (inv.each i).2
    unfold Fits at fits
    rw [failed] at fits
    exact fits
  · intro done i id returned
    have registered := (inv.each i).2
    unfold Fits at registered
    rw [returned] at registered
    refine ⟨?_, ?_⟩
    · intro j
      obtain ⟨other, there⟩ := done j
      rw [there, inv.agree there returned]
    · intro userId member
      apply listed_eq_singleton member (inv.consistent.registered id registered).2
      intro other between
      rcases sole.known other between with here | ⟨j, holds⟩
      · exact Option.some.inj (here.symm.trans registered)
      · rw [(sole.alone j other holds).1] at registered
        cases registered

def strangers : State Bool Store Call :=
  ⟨⟨.empty, none⟩, fun i => if i then ⟨1, 2, .idle⟩ else ⟨2, 1, .idle⟩⟩

theorem strangers_initial : Initial 1 2 strangers := by
  refine ⟨by decide, ⟨?_, ?_⟩, ?_, ?_⟩
  · intro id registered
    cases registered
  · intro id cached
    cases cached
  · rintro id ⟨⟨conv, live, -⟩, -⟩
    cases live
  · intro i
    cases i
    · exact ⟨Or.inr ⟨rfl, rfl⟩, rfl⟩
    · exact ⟨Or.inl ⟨rfl, rfl⟩, rfl⟩

def looks (i : Bool) : List (Bool × Action) :=
  [(i, .createDm true true), (i, .cacheGet true), (i, .getDmLookup true)]

def creates (i : Bool) (convId : Nat) : List (Bool × Action) :=
  [(i, .create convId), (i, .addParticipant 0), (i, .addParticipant 0), (i, .createDmLookup true)]

/-- Both look before either creates: the loser returns the winner's conversation, and both users
see two. -/
theorem orphan_stays_listed : ¬ ∀ s : State Bool Store Call,
    Reachable (step next) (Initial 1 2) s → OneDm 1 2 s := by
  intro law
  let calls := looks true ++ looks false ++ creates true 10 ++ creates false 11 ++
    [(true, .getConversation), (false, .getDmLookup true), (false, .getConversation)]
  let s := (run (step next) strangers calls).get rfl
  have reached : Reachable (step next) (Initial 1 2) s :=
    reachable_of_run (s := strangers) calls strangers_initial (Option.some_get _).symm
  have returned : ∀ i, (s.pc i).stage = .returned 10 := by decide
  have listed := ((law s reached).2 (fun i => ⟨10, returned i⟩) true 10 rfl).2 1 (Or.inl rfl)
  exact absurd listed (by decide)

instance {a b : Nat} (s : State Bool Store Call) :
    (move : Bool × Action) → Decidable (Alone a b s move)
  | (i, .create _) => inferInstanceAs (Decidable (s.shared.db.getDmLookup a b = none ∧
      ∀ j, j ≠ i → (s.pc j).stage.holds = none))
  | (_, .createDm _ _) | (_, .cacheGet _) | (_, .getDmLookup _) | (_, .getConversation)
  | (_, .addParticipant _) | (_, .createDmLookup _) => isTrue trivial

/-- Who looks after the other has registered returns that conversation. -/
theorem later_call_returns_first : ∃ s : State Bool Store Call,
    (∀ i, (s.pc i).stage = .returned 10) ∧ OneDm 1 2 s := by
  let calls := looks true ++ creates true 10 ++ [(true, .getConversation)] ++
    [(false, .createDm true true), (false, .cacheGet true), (false, .getConversation)]
  let s := (runGuarded (step next) (Alone 1 2) strangers calls).get rfl
  have reached : Guarded (step next) (Alone 1 2) (Initial 1 2) s :=
    guarded_of_run (s := strangers) calls strangers_initial (Option.some_get _).symm
  exact ⟨s, by decide, one_dm_for_the_pair reached⟩

end Plexichat.Messaging.DirectMessages
