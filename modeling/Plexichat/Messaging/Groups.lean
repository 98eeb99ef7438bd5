import Mathlib.Data.List.Dedup
import Plexichat.Library.Transition
import Plexichat.Messaging.Conversations

/-! Group conversations of services/conversation.py and manager.py. The owner is stored twice,
in the conversation and in a participant's role; a refused operation may leave what it wrote
before it raised. -/
namespace Plexichat.Messaging.Groups
open Transition

inductive Refusal where
  | conversationNotFound | conversationAccessDenied | conversationType | invalidRecipient
  | participantLimit | participantExists | participantNotFound | invalidContent | integrity
  deriving DecidableEq

abbrev Result (α : Type) := Except Refusal α × Conversations

def refuse {α : Type} (r : Refusal) (db : Conversations) : Result α := (.error r, db)

/-- What `is_participant` answers is given: a cache and the servers have a say in it. -/
def getConversation (db : Conversations) (isParticipant : Bool) (conversationId : Nat) :
    Option ConversationRow := if isParticipant then db.getById conversationId else none

/-- `add_participant` of services/participant.py. -/
def addSeat (db : Conversations) (row : ParticipantRow) : Result Unit :=
  if (db.getParticipant row.conversationId row.userId).isSome then refuse .participantExists db
  else match db.createParticipant row with
    | none => refuse .integrity db
    | some db => (.ok (), db)

def addSeats (db : Conversations) (conversationId ownerId now : Nat) : List Nat → Result Unit
  | [] => (.ok (), db)
  | userId :: rest =>
    match addSeat db ⟨conversationId, userId, if userId = ownerId then .owner else .member, now⟩ with
    | (.error r, db) => refuse r db
    | (.ok _, db) => addSeats db conversationId ownerId now rest

structure GroupRequest where
  ownerId : Nat
  participantIds : List Nat
  maxParticipants : Option Int
  /-- The name passes its checks and the content filter. -/
  validName : Bool

structure Creation where
  maxGroupParticipants : Int
  userExists : Nat → Bool
  conversationId : Nat
  now : Nat
  isParticipant : Bool

def createGroup (db : Conversations) (r : GroupRequest) (env : Creation) : Result Nat :=
  let maxParts := r.maxParticipants.getD env.maxGroupParticipants
  let participants := (r.ownerId :: r.participantIds).dedup
  if !r.validName then refuse .invalidContent db
  else if maxParts < 1 then refuse .participantLimit db
  else if maxParts < participants.length then refuse .participantLimit db
  else if !participants.all env.userExists then refuse .invalidRecipient db
  else match db.create ⟨env.conversationId, .group, some r.ownerId, maxParts, false⟩ with
    | none => refuse .integrity db
    | some db =>
      match addSeats db env.conversationId r.ownerId env.now participants with
      | (.error e, db) => refuse e db
      | (.ok _, db) =>
        match getConversation db env.isParticipant env.conversationId with
        | none => refuse .conversationNotFound db
        | some conv => (.ok conv.id, db)

def manages (p : ParticipantRow) : Bool := p.role = .owner || p.role = .admin

def addParticipant (db : Conversations) (isParticipant userExists : Bool) (now : Nat)
    (userId conversationId participantId : Nat) (role : ParticipantRole) : Result Unit :=
  match getConversation db isParticipant conversationId with
  | none => refuse .conversationNotFound db
  | some conv =>
    if conv.conversationType = .dm then refuse .conversationType db
    else if !(db.getParticipant conversationId userId).any manages then
      refuse .conversationAccessDenied db
    else if !userExists then refuse .invalidRecipient db
    else if conv.maxParticipants ≤ db.participantCount conversationId then
      refuse .participantLimit db
    else if role = .owner then refuse .conversationAccessDenied db
    else addSeat db ⟨conversationId, participantId, role, now⟩

def removeParticipant (db : Conversations) (isParticipant : Bool)
    (userId conversationId participantId : Nat) : Result Unit :=
  match getConversation db isParticipant conversationId with
  | none => refuse .conversationNotFound db
  | some conv =>
    if conv.conversationType = .dm then refuse .conversationType db
    else match db.getParticipant conversationId userId,
        db.getParticipant conversationId participantId with
      | none, _ => refuse .conversationAccessDenied db
      | some _, none => refuse .participantNotFound db
      | some actor, some target =>
        let allowed := match actor.role with
          | .owner => participantId ≠ userId
          | .admin => !manages target
          | .member => false
        if !allowed then refuse .conversationAccessDenied db
        else (.ok (), db.deleteParticipant conversationId participantId)

def updateParticipantRole (db : Conversations) (isParticipant : Bool)
    (userId conversationId participantId : Nat) (role : ParticipantRole) : Result Unit :=
  match getConversation db isParticipant conversationId with
  | none => refuse .conversationNotFound db
  | some conv =>
    if conv.conversationType = .dm then refuse .conversationType db
    else match db.getParticipant conversationId userId,
        db.getParticipant conversationId participantId with
      | none, _ => refuse .conversationAccessDenied db
      | some _, none => refuse .participantNotFound db
      | some actor, some _ =>
        if actor.role ≠ .owner then refuse .conversationAccessDenied db
        else if userId = participantId then refuse .conversationAccessDenied db
        else if role = .owner then refuse .conversationAccessDenied db
        else (.ok (), db.updateRole conversationId participantId role)

/-- The name is checked, and not modelled further. -/
def updateConversation (db : Conversations) (isParticipant validName : Bool)
    (userId conversationId : Nat) (maxParticipants : Option Int) : Result Unit :=
  match getConversation db isParticipant conversationId with
  | none => refuse .conversationNotFound db
  | some conv =>
    if conv.conversationType = .dm then refuse .conversationType db
    else if !(db.getParticipant conversationId userId).any manages then
      refuse .conversationAccessDenied db
    else if !validName then refuse .invalidContent db
    else match maxParticipants with
      | none => (.ok (), db)
      | some n =>
        if n < db.participantCount conversationId then refuse .participantLimit db
        else (.ok (), db.updateConversation conversationId
          (fun c => { c with maxParticipants := n }) fun _ => rfl)

def deleteConversation (db : Conversations) (isParticipant : Bool)
    (userId conversationId : Nat) : Result Unit :=
  match getConversation db isParticipant conversationId with
  | none => refuse .conversationNotFound db
  | some conv =>
    if conv.conversationType = .group ∧ conv.ownerId ≠ some userId then
      refuse .conversationAccessDenied db
    else
      let db := db.softDelete conversationId
      (.ok (), if conv.conversationType = .dm then db.deleteDmLookup conversationId else db)

/-- `isParticipantLater` is the answer when the leaving deletes the conversation. -/
def leaveConversation (db : Conversations) (isParticipant isParticipantLater : Bool)
    (userId conversationId : Nat) : Result Unit :=
  match getConversation db isParticipant conversationId with
  | none => refuse .conversationNotFound db
  | some conv =>
    if conv.conversationType = .dm then deleteConversation db isParticipantLater userId conversationId
    else match db.getParticipant conversationId userId with
      | none => refuse .conversationAccessDenied db
      | some participant =>
        let remove (db : Conversations) : Result Unit :=
          let db := db.deleteParticipant conversationId userId
          if db.seats conversationId = [] then
            deleteConversation db isParticipantLater userId conversationId
          else (.ok (), db)
        if participant.role = .owner then
          -- a user id of zero is no successor
          match (db.findNextOwner conversationId userId).filter (· ≠ 0) with
          | some newOwner => remove ((db.updateRole conversationId newOwner .owner).updateOwner
              conversationId newOwner)
          | none => deleteConversation db isParticipantLater userId conversationId
        else remove db

inductive Operation where
  | createGroup (r : GroupRequest) (env : Creation)
  | addParticipant (isParticipant userExists : Bool) (now userId conversationId participantId : Nat)
      (role : ParticipantRole)
  | removeParticipant (isParticipant : Bool) (userId conversationId participantId : Nat)
  | updateParticipantRole (isParticipant : Bool) (userId conversationId participantId : Nat)
      (role : ParticipantRole)
  | updateConversation (isParticipant validName : Bool) (userId conversationId : Nat)
      (maxParticipants : Option Int)
  | deleteConversation (isParticipant : Bool) (userId conversationId : Nat)
  | leaveConversation (isParticipant isParticipantLater : Bool) (userId conversationId : Nat)

def perform (db : Conversations) : Operation → Conversations
  | .createGroup r env => (createGroup db r env).2
  | .addParticipant isParticipant userExists now userId conversationId participantId role =>
    (addParticipant db isParticipant userExists now userId conversationId participantId role).2
  | .removeParticipant isParticipant userId conversationId participantId =>
    (removeParticipant db isParticipant userId conversationId participantId).2
  | .updateParticipantRole isParticipant userId conversationId participantId role =>
    (updateParticipantRole db isParticipant userId conversationId participantId role).2
  | .updateConversation isParticipant validName userId conversationId maxParticipants =>
    (updateConversation db isParticipant validName userId conversationId maxParticipants).2
  | .deleteConversation isParticipant userId conversationId =>
    (deleteConversation db isParticipant userId conversationId).2
  | .leaveConversation isParticipant isParticipantLater userId conversationId =>
    (leaveConversation db isParticipant isParticipantLater userId conversationId).2

def step (db : Conversations) (op : Operation) : Option Conversations := some (perform db op)

/-- `create_group` has returned this conversation and left these tables. -/
def Created (conversationId : Nat) (db : Conversations) : Prop :=
  ∃ before r env, createGroup before r env = (.ok conversationId, db)

def owners (seats : List ParticipantRow) : List Nat :=
  (seats.filter fun p => p.role = .owner).map ParticipantRow.userId

structure Owned (conv : ConversationRow) (seats : List ParticipantRow) : Prop where
  owner : ∃ ownerId, conv.ownerId = some ownerId ∧ owners seats = [ownerId]
  room : (seats.length : Int) ≤ conv.maxParticipants

def GroupInvariant (db : Conversations) (conversationId : Nat) : Prop :=
  ∀ conv, db.getById conversationId = some conv → Owned conv (db.seats conversationId)

section Seats

variable {conv : ConversationRow} {seats : List ParticipantRow} {userId newOwner : Nat}

theorem mem_owners : userId ∈ owners seats ↔ ∃ p ∈ seats, p.userId = userId ∧ p.role = .owner := by
  simp only [owners, List.mem_map, List.mem_filter, decide_eq_true_eq]
  constructor
  · rintro ⟨p, ⟨mem, role⟩, same⟩
    exact ⟨p, mem, same, role⟩
  · rintro ⟨p, mem, same, role⟩
    exact ⟨p, ⟨mem, role⟩, same⟩

theorem Owned.role_iff (h : Owned conv seats) (unique : (seats.map ParticipantRow.userId).Nodup)
    {p : ParticipantRow} (mem : p ∈ seats) : p.role = .owner ↔ conv.ownerId = some p.userId := by
  obtain ⟨ownerId, owner, only⟩ := h.owner
  rw [owner]
  constructor
  · intro role
    have listed : p.userId ∈ owners seats := mem_owners.mpr ⟨p, mem, rfl, role⟩
    rw [only] at listed
    rw [List.mem_singleton.mp listed]
  · intro same
    have listed : ownerId ∈ owners seats := by
      rw [only]
      exact List.mem_singleton_self _
    obtain ⟨q, member, user, role⟩ := mem_owners.mp listed
    have here : p = q :=
      List.inj_on_of_nodup_map unique mem member ((Option.some.inj same).symm.trans user.symm)
    exact here ▸ role

theorem Owned.add (h : Owned conv seats) {p : ParticipantRow} (role : p.role ≠ .owner)
    (free : (seats.length : Int) < conv.maxParticipants) : Owned conv (seats ++ [p]) := by
  obtain ⟨ownerId, owner, only⟩ := h.owner
  refine ⟨⟨ownerId, owner, ?_⟩, ?_⟩
  · simpa [owners, role] using only
  · simp
    omega

theorem owners_filter (seats : List ParticipantRow) (userId : Nat) :
    owners (seats.filter fun p => p.userId ≠ userId) =
      (owners seats).filter fun u => u ≠ userId := by
  simp only [owners, List.filter_map, List.filter_filter]
  congr 1
  apply List.filter_congr
  intro p _
  simp [Bool.and_comm]

theorem Owned.remove (h : Owned conv seats) (other : conv.ownerId ≠ some userId) :
    Owned conv (seats.filter fun p => p.userId ≠ userId) := by
  obtain ⟨ownerId, owner, only⟩ := h.owner
  refine ⟨⟨ownerId, owner, ?_⟩, ?_⟩
  · have kept : ownerId ≠ userId := by
      rintro rfl
      exact other owner
    rw [owners_filter, only]
    simp [kept]
  · have fewer := List.length_filter_le (fun p : ParticipantRow => p.userId ≠ userId) seats
    have room := h.room
    omega

theorem owners_setRole (seats : List ParticipantRow) (userId : Nat) (role : ParticipantRole) :
    owners (seats.map fun p => if p.userId = userId then Conversations.setRole role p else p) =
      (seats.filter fun p => if p.userId = userId then role = .owner else p.role = .owner).map
        ParticipantRow.userId := by
  simp only [owners, List.filter_map, List.map_map]
  have users : (ParticipantRow.userId ∘ fun p =>
      if p.userId = userId then Conversations.setRole role p else p) = ParticipantRow.userId := by
    funext p
    simp only [Function.comp]
    split
    · rfl
    · rfl
  rw [users]
  congr 1
  apply List.filter_congr
  intro p _
  simp only [Function.comp]
  split
  · rfl
  · rfl

theorem Owned.setRole (h : Owned conv seats) (unique : (seats.map ParticipantRow.userId).Nodup)
    {role : ParticipantRole} (plain : role ≠ .owner) (other : conv.ownerId ≠ some userId) :
    Owned conv
      (seats.map fun p => if p.userId = userId then Conversations.setRole role p else p) := by
  obtain ⟨ownerId, owner, only⟩ := h.owner
  refine ⟨⟨ownerId, owner, ?_⟩, ?_⟩
  · rw [owners_setRole, ← only, owners]
    congr 1
    apply List.filter_congr
    intro p mem
    split
    · rename_i same
      have member : p.role ≠ .owner := by
        intro role
        exact other (same ▸ (h.role_iff unique mem).mp role)
      simp [plain, member]
    · rfl
  · simpa using h.room

theorem Owned.transfer (h : Owned conv seats) (unique : (seats.map ParticipantRow.userId).Nodup)
    (leaves : conv.ownerId = some userId) (other : newOwner ≠ userId)
    (there : newOwner ∈ seats.map ParticipantRow.userId) :
    Owned { conv with ownerId := some newOwner }
      ((seats.map fun p => if p.userId = newOwner then Conversations.setRole .owner p else p).filter
        fun p => p.userId ≠ userId) := by
  refine ⟨⟨newOwner, rfl, ?_⟩, ?_⟩
  · have left : owners ((seats.map fun p =>
        if p.userId = newOwner then Conversations.setRole .owner p else p).filter
          fun p => p.userId ≠ userId) =
        (seats.map ParticipantRow.userId).filter fun u => u = newOwner := by
      rw [owners_filter, owners_setRole, List.filter_map, List.filter_map, List.filter_filter]
      congr 1
      apply List.filter_congr
      intro p mem
      have role := h.role_iff unique mem
      rw [leaves, Option.some.injEq] at role
      simp only [Function.comp]
      by_cases successor : p.userId = newOwner
      · simp [successor, other]
      · by_cases owner : p.role = .owner
        · simp [(role.mp owner).symm, other.symm]
        · simp [successor, owner]
    rw [left, List.filter_eq, List.count_eq_one_of_mem unique there]
    rfl
  · have fewer := List.length_filter_le (fun p : ParticipantRow => p.userId ≠ userId)
      (seats.map fun p => if p.userId = newOwner then Conversations.setRole .owner p else p)
    have room := h.room
    rw [List.length_map] at fewer
    show ((List.length _ : Nat) : Int) ≤ conv.maxParticipants
    omega

theorem Owned.created {conversationId ownerId now : Nat} {userIds : List Nat}
    (fresh : userIds.Nodup) (there : ownerId ∈ userIds)
    (room : (userIds.length : Int) ≤ conv.maxParticipants) (owner : conv.ownerId = some ownerId) :
    Owned conv (userIds.map fun u =>
      ⟨conversationId, u, if u = ownerId then .owner else .member, now⟩) := by
  refine ⟨⟨ownerId, owner, ?_⟩, ?_⟩
  · have one : userIds.filter (fun u => u = ownerId) = [ownerId] := by
      rw [List.filter_eq, List.count_eq_one_of_mem fresh there]
      rfl
    rw [owners, List.filter_map, List.map_map, ← one]
    refine (List.map_congr_left ?_).trans ((List.map_id _).trans ?_)
    · intro u _
      rfl
    · apply List.filter_congr
      intro u _
      by_cases here : u = ownerId
      · simp [here]
      · simp [here]
  · simpa using room

end Seats

section Tables

variable {db db' : Conversations} {c d userId : Nat}

structure Inv (c : Nat) (db : Conversations) : Prop where
  there : (db.conversations.find c).isSome
  owned : GroupInvariant db c

theorem Inv.same (inv : Inv c db) (row : db'.conversations.find c = db.conversations.find c)
    (seats : db'.seats c = db.seats c) : Inv c db' := by
  refine ⟨row ▸ inv.there, ?_⟩
  intro conv live
  rw [seats]
  apply inv.owned conv
  rw [← live, Conversations.getById, Conversations.getById, row]

theorem Inv.role_iff (inv : Inv c db) {conv : ConversationRow} (live : db.getById c = some conv)
    {p : ParticipantRow} (found : db.getParticipant c userId = some p) :
    p.role = .owner ↔ conv.ownerId = some userId := by
  obtain ⟨mem, rfl⟩ := Conversations.getParticipant_eq_some.mp found
  exact (inv.owned conv live).role_iff (db.seats_nodup c) mem

theorem Inv.create (inv : Inv c db) {row : ConversationRow} (h : db.create row = some db') :
    Inv c db' := by
  obtain ⟨fresh, participants, -, find⟩ := Conversations.create_eq_some h
  have elsewhere : row.id ≠ c := by
    rintro rfl
    have there := inv.there
    rw [fresh] at there
    cases there
  refine inv.same ?_ ?_
  · rw [find, if_neg elsewhere]
  · rw [Conversations.seats, participants, Conversations.seats]

theorem Inv.addSeat (inv : Inv c db) {row : ParticipantRow}
    (ok : row.conversationId = c → ∀ conv, db.getById c = some conv →
      row.role ≠ .owner ∧ (db.participantCount c : Int) < conv.maxParticipants) :
    Inv c (addSeat db row).2 := by
  unfold Groups.addSeat
  split
  · exact inv
  · rename_i absent
    split
    · exact inv
    · rename_i db' created
      obtain ⟨conversations, -, rows⟩ := Conversations.createParticipant_eq_some created
      have appended := Conversations.seats_append (rows (by simpa using absent)) c
      by_cases here : row.conversationId = c
      · rw [if_pos here] at appended
        refine ⟨conversations ▸ inv.there, ?_⟩
        intro conv live
        have before : db.getById c = some conv := by
          rw [← live, Conversations.getById, Conversations.getById, conversations]
        obtain ⟨role, free⟩ := ok here conv before
        show Owned conv (db'.seats c)
        rw [appended]
        exact (inv.owned conv before).add role free
      · rw [if_neg here, List.append_nil] at appended
        exact inv.same (by rw [conversations]) appended

theorem Inv.addSeats (inv : Inv c db) (elsewhere : d ≠ c) (ownerId now : Nat) (userIds : List Nat) :
    Inv c (addSeats db d ownerId now userIds).2 := by
  induction userIds generalizing db with
  | nil => exact inv
  | cons userId rest ih =>
    have added : Inv c (Groups.addSeat db
        ⟨d, userId, if userId = ownerId then .owner else .member, now⟩).2 :=
      inv.addSeat fun here => absurd here elsewhere
    simp only [Groups.addSeats]
    split
    · rename_i r db' failed
      rw [failed] at added
      exact added
    · rename_i u db' done
      rw [done] at added
      exact ih added

theorem Inv.deleteParticipant (inv : Inv c db)
    (ok : d = c → ∀ conv, db.getById c = some conv → conv.ownerId ≠ some userId) :
    Inv c (db.deleteParticipant d userId) := by
  have seats := db.seats_deleteParticipant d userId c
  by_cases here : c = d
  · rw [if_pos here] at seats
    refine ⟨inv.there, ?_⟩
    intro conv live
    rw [seats]
    exact (inv.owned conv live).remove (ok here.symm conv live)
  · rw [if_neg here] at seats
    exact inv.same rfl seats

theorem Inv.updateRole (inv : Inv c db) {role : ParticipantRole} (plain : role ≠ .owner)
    (ok : d = c → ∀ conv, db.getById c = some conv → conv.ownerId ≠ some userId) :
    Inv c (db.updateRole d userId role) := by
  have seats := db.seats_updateRole d userId role c
  by_cases here : c = d
  · rw [if_pos here] at seats
    refine ⟨inv.there, ?_⟩
    intro conv live
    rw [seats]
    exact (inv.owned conv live).setRole (db.seats_nodup c) plain (ok here.symm conv live)
  · rw [if_neg here] at seats
    exact inv.same rfl seats

theorem Inv.updateConversation (inv : Inv c db) {f : ConversationRow → ConversationRow}
    {same : ∀ conv, (f conv).id = conv.id}
    (ok : d = c → ∀ conv, db.conversations.find c = some conv → (f conv).deleted = false →
      Owned (f conv) (db.seats c)) : Inv c (db.updateConversation d f same) := by
  have find := db.find_updateConversation d f same c
  by_cases here : c = d
  · rw [if_pos here] at find
    refine ⟨?_, ?_⟩
    · rw [find, Option.isSome_map]
      exact inv.there
    · intro conv live
      rw [Conversations.getById, find] at live
      obtain ⟨updated, undeleted⟩ := Option.filter_eq_some_iff.mp live
      obtain ⟨before, found, rfl⟩ := Option.map_eq_some_iff.mp updated
      exact ok here.symm before found (by simpa using undeleted)
  · rw [if_neg here] at find
    exact inv.same find rfl

theorem Inv.updateMax (inv : Inv c db) {n : Int}
    (ok : d = c → (db.participantCount c : Int) ≤ n) :
    Inv c (db.updateConversation d (fun conv => { conv with maxParticipants := n })
      fun _ => rfl) := by
  refine inv.updateConversation ?_
  intro here conv found undeleted
  have live : db.getById c = some conv := by
    rw [Conversations.getById, found]
    simpa using undeleted
  exact ⟨(inv.owned conv live).owner, ok here⟩

theorem Inv.softDelete (inv : Inv c db) (d : Nat) : Inv c (db.softDelete d) := by
  refine inv.updateConversation ?_
  intro _ _ _ undeleted
  cases undeleted

theorem Inv.transfer (inv : Inv c db) {newOwner : Nat} (ok : d = c → ∀ conv,
      db.getById c = some conv → conv.ownerId = some userId ∧ newOwner ≠ userId ∧
        newOwner ∈ (db.seats c).map ParticipantRow.userId) :
    Inv c (((db.updateRole d newOwner .owner).updateOwner d newOwner).deleteParticipant d
      userId) := by
  let promoted := db.updateRole d newOwner .owner
  have find := promoted.find_updateConversation d
    (fun conv => { conv with ownerId := some newOwner }) (fun _ => rfl) c
  have seats := (promoted.updateOwner d newOwner).seats_deleteParticipant d userId c
  have roles := db.seats_updateRole d newOwner .owner c
  by_cases here : c = d
  · rw [if_pos here] at find seats roles
    refine ⟨?_, ?_⟩
    · show ((promoted.updateOwner d newOwner).conversations.find c).isSome
      rw [Conversations.updateOwner, find, Option.isSome_map]
      exact inv.there
    · intro conv live
      obtain ⟨updated, undeleted⟩ := Option.filter_eq_some_iff.mp live
      obtain ⟨before, found, rfl⟩ := Option.map_eq_some_iff.mp (find.symm.trans updated)
      have alive : db.getById c = some before := by
        rw [Conversations.getById]
        exact Option.filter_eq_some_iff.mpr ⟨found, undeleted⟩
      obtain ⟨leaves, other, there⟩ := ok here.symm before alive
      rw [seats]
      show Owned _ ((promoted.seats c).filter fun p => p.userId ≠ userId)
      rw [roles]
      exact (inv.owned before alive).transfer (db.seats_nodup c) leaves other there
  · rw [if_neg here] at find seats roles
    exact inv.same find (seats.trans roles)

theorem Inv.deleteConversation (inv : Inv c db) (isParticipant : Bool) (userId d : Nat) :
    Inv c (deleteConversation db isParticipant userId d).2 := by
  unfold Groups.deleteConversation
  split
  · exact inv
  · split
    · exact inv
    · have deleted := inv.softDelete d
      split
      · exact deleted.same rfl rfl
      · exact deleted

theorem getConversation_eq_some {isParticipant : Bool} {conv : ConversationRow}
    (h : getConversation db isParticipant d = some conv) : db.getById d = some conv := by
  unfold getConversation at h
  split at h
  · exact h
  · cases h

theorem Inv.not_owner (inv : Inv c db) {p : ParticipantRow} (here : d = c)
    (found : db.getParticipant d userId = some p) (role : p.role ≠ .owner) :
    ∀ conv, db.getById c = some conv → conv.ownerId ≠ some userId := by
  intro conv live owner
  rw [here] at found
  exact role ((inv.role_iff live found).mpr owner)

theorem addParticipant_inv (inv : Inv c db) (isParticipant userExists : Bool)
    (now userId d participantId : Nat) (role : ParticipantRole) :
    Inv c (addParticipant db isParticipant userExists now userId d participantId role).2 := by
  unfold addParticipant
  split
  · exact inv
  · rename_i conv found
    have live := getConversation_eq_some found
    split
    · exact inv
    · split
      · exact inv
      · split
        · exact inv
        · split
          · exact inv
          · rename_i room
            split
            · exact inv
            · rename_i plain
              apply inv.addSeat
              intro here conv' live'
              cases here
              cases live.symm.trans live'
              exact ⟨plain, Int.not_le.mp room⟩

theorem removeParticipant_inv (inv : Inv c db) (isParticipant : Bool)
    (userId d participantId : Nat) :
    Inv c (removeParticipant db isParticipant userId d participantId).2 := by
  unfold removeParticipant
  split
  · exact inv
  · rename_i conv found
    have live := getConversation_eq_some found
    split
    · exact inv
    · split
      · exact inv
      · exact inv
      · rename_i actor target isActor isTarget
        have removed : (d = c → ∀ conv, db.getById c = some conv →
            conv.ownerId ≠ some participantId) →
            Inv c (db.deleteParticipant d participantId) := inv.deleteParticipant
        cases role : actor.role with
        | owner =>
          simp only
          split
          · exact inv
          · rename_i allowed
            apply removed
            intro here conv' live' owner
            cases here
            have mine := (inv.role_iff live' isActor).mp role
            have same : userId = participantId := Option.some.inj (mine.symm.trans owner)
            simp [same] at allowed
        | admin =>
          simp only
          split
          · exact inv
          · rename_i allowed
            apply removed
            intro here
            apply inv.not_owner here isTarget
            intro targetRole
            simp [manages, targetRole] at allowed
        | member =>
          simp only
          exact inv

theorem updateParticipantRole_inv (inv : Inv c db) (isParticipant : Bool)
    (userId d participantId : Nat) (role : ParticipantRole) :
    Inv c (updateParticipantRole db isParticipant userId d participantId role).2 := by
  unfold updateParticipantRole
  split
  · exact inv
  · split
    · exact inv
    · split
      · exact inv
      · exact inv
      · rename_i actor target isActor isTarget
        split
        · exact inv
        · rename_i isOwner
          split
          · exact inv
          · rename_i other
            split
            · exact inv
            · rename_i plain
              apply inv.updateRole plain
              intro here conv live owner
              cases here
              have mine := (inv.role_iff live isActor).mp (not_not.mp isOwner)
              exact other (Option.some.inj (mine.symm.trans owner))

theorem updateConversation_inv (inv : Inv c db) (isParticipant validName : Bool)
    (userId d : Nat) (maxParticipants : Option Int) :
    Inv c (updateConversation db isParticipant validName userId d maxParticipants).2 := by
  unfold updateConversation
  split
  · exact inv
  · split
    · exact inv
    · split
      · exact inv
      · split
        · exact inv
        · split
          · exact inv
          · split
            · exact inv
            · rename_i room
              apply inv.updateMax
              intro here
              cases here
              exact Int.not_lt.mp room

theorem leaveConversation_inv (inv : Inv c db) (isParticipant isParticipantLater : Bool)
    (userId d : Nat) :
    Inv c (leaveConversation db isParticipant isParticipantLater userId d).2 := by
  unfold leaveConversation
  split
  · exact inv
  · split
    · exact inv.deleteConversation _ _ _
    · split
      · exact inv
      · rename_i p found
        have removed : ∀ {db' : Conversations}, Inv c (db'.deleteParticipant d userId) →
            Inv c (if (db'.deleteParticipant d userId).seats d = [] then
              deleteConversation (db'.deleteParticipant d userId) isParticipantLater userId d
            else (.ok (), db'.deleteParticipant d userId)).2 := by
          intro db' after
          split
          · exact after.deleteConversation _ _ _
          · exact after
        simp only
        split
        · rename_i isOwner
          split
          · rename_i newOwner successor
            obtain ⟨next, -⟩ := Option.filter_eq_some_iff.mp successor
            obtain ⟨other, there⟩ := Conversations.findNextOwner_eq_some next
            apply removed
            apply inv.transfer
            intro here conv live
            cases here
            exact ⟨(inv.role_iff live found).mp isOwner, other, there⟩
          · exact inv.deleteConversation _ _ _
        · rename_i plain
          apply removed
          exact inv.deleteParticipant fun here => inv.not_owner here found plain

theorem createGroup_inv (inv : Inv c db) (r : GroupRequest) (env : Creation) :
    Inv c (createGroup db r env).2 := by
  unfold createGroup
  simp only
  split
  · exact inv
  · split
    · exact inv
    · split
      · exact inv
      · split
        · exact inv
        · split
          · exact inv
          · rename_i db₁ created
            have elsewhere : env.conversationId ≠ c := by
              intro here
              have fresh := (Conversations.create_eq_some created).1
              have there := inv.there
              rw [← here, fresh] at there
              cases there
            have seated := (inv.create created).addSeats elsewhere r.ownerId env.now
              (r.ownerId :: r.participantIds).dedup
            split
            · rename_i db₂ failed
              rw [failed] at seated
              exact seated
            · rename_i db₂ done
              rw [done] at seated
              split
              · exact seated
              · exact seated

theorem step_inv (inv : Inv c db) {op : Operation} (h : step db op = some db') : Inv c db' := by
  cases h
  cases op with
  | createGroup r env => exact createGroup_inv inv r env
  | addParticipant isParticipant userExists now userId d participantId role =>
    exact addParticipant_inv inv isParticipant userExists now userId d participantId role
  | removeParticipant isParticipant userId d participantId =>
    exact removeParticipant_inv inv isParticipant userId d participantId
  | updateParticipantRole isParticipant userId d participantId role =>
    exact updateParticipantRole_inv inv isParticipant userId d participantId role
  | updateConversation isParticipant validName userId d maxParticipants =>
    exact updateConversation_inv inv isParticipant validName userId d maxParticipants
  | deleteConversation isParticipant userId d =>
    exact inv.deleteConversation isParticipant userId d
  | leaveConversation isParticipant isParticipantLater userId d =>
    exact leaveConversation_inv inv isParticipant isParticipantLater userId d

theorem addSeats_seats {ownerId now : Nat} {userIds : List Nat} (fresh : userIds.Nodup)
    (absent : ∀ u ∈ userIds, u ∉ (db.seats c).map ParticipantRow.userId)
    (h : addSeats db c ownerId now userIds = (.ok (), db')) :
    db'.conversations = db.conversations ∧ db'.seats c = db.seats c ++
      userIds.map fun u => ⟨c, u, if u = ownerId then .owner else .member, now⟩ := by
  induction userIds generalizing db with
  | nil =>
    cases h
    simp
  | cons u rest ih =>
    simp only [Groups.addSeats, Groups.addSeat] at h
    have free : db.getParticipant c u = none :=
      Conversations.getParticipant_eq_none.mpr (absent u (List.mem_cons_self ..))
    rw [free] at h
    cases created : db.createParticipant
        ⟨c, u, if u = ownerId then .owner else .member, now⟩ with
    | none => simp [created, refuse] at h
    | some db₁ =>
      simp only [created, Option.isSome_none, Bool.false_eq_true, if_false] at h
      obtain ⟨conversations, -, rows⟩ := Conversations.createParticipant_eq_some created
      have seats := Conversations.seats_append (rows free) c
      rw [if_pos rfl] at seats
      obtain ⟨notHere, rest'⟩ := List.nodup_cons.mp fresh
      have later : ∀ v ∈ rest, v ∉ (db₁.seats c).map ParticipantRow.userId := by
        intro v mem
        have before := absent v (List.mem_cons_of_mem _ mem)
        have other : v ≠ u := by
          rintro rfl
          exact notHere mem
        rw [seats, List.map_append, List.mem_append]
        simpa [other] using before
      obtain ⟨same, all⟩ := ih rest' later h
      refine ⟨same.trans conversations, ?_⟩
      rw [all, seats]
      simp

theorem created_inv (h : Created c db) : Inv c db := by
  obtain ⟨before, r, env, h⟩ := h
  unfold createGroup at h
  simp only at h
  split at h
  · cases h
  · split at h
    · cases h
    · split at h
      · cases h
      · rename_i room
        split at h
        · cases h
        · split at h
          · cases h
          · rename_i db₁ created
            split at h
            · cases h
            · rename_i db₂ added
              split at h
              · cases h
              · rename_i conv found
                cases h
                have fresh := (List.nodup_dedup (r.ownerId :: r.participantIds))
                obtain ⟨unknown, participants, -, find⟩ := Conversations.create_eq_some created
                have none : db₁.seats env.conversationId = [] := by
                  rw [Conversations.seats, participants]
                  exact Conversations.seats_eq_nil unknown
                obtain ⟨same, seats⟩ := addSeats_seats fresh (by simp [none]) added
                rw [none, List.nil_append] at seats
                have row := find env.conversationId
                rw [if_pos rfl, ← same] at row
                have live := getConversation_eq_some found
                have here : conv.id = env.conversationId :=
                  (Table.find_eq_some.mp (Option.filter_eq_some_iff.mp live).1).2
                rw [here]
                refine ⟨by simp [row], ?_⟩
                intro conv' live'
                rw [Conversations.getById, row] at live'
                cases (Option.filter_eq_some_iff.mp live').1
                rw [seats]
                exact Owned.created fresh (by simp) (Int.not_lt.mp room) rfl

theorem reachable_inv (h : Transition.Reachable step (Created c) db) : Inv c db :=
  guarded_invariant (fun _ => created_inv) (fun _ _ _ inv _ next => step_inv inv next) h

end Tables

/-- The owner is one, is a participant, and there is room, until the group is deleted. -/
theorem group_invariant {db : Conversations} {conversationId : Nat}
    (h : Reachable step (Created conversationId) db) : GroupInvariant db conversationId :=
  (reachable_inv h).owned

def founding : Creation := ⟨100, fun _ => true, 10, 5, true⟩

def founded : Conversations := (createGroup .empty ⟨1, [2, 3], none, true⟩ founding).2

theorem founded_created : Created 10 founded :=
  ⟨.empty, ⟨1, [2, 3], none, true⟩, founding, rfl⟩

theorem ownership_passes_on :
    (perform founded (.leaveConversation true true 1 10)).getById 10 =
        some ⟨10, .group, some 2, 100, false⟩ ∧
      GroupInvariant (perform founded (.leaveConversation true true 1 10)) 10 :=
  ⟨by decide, group_invariant (.step (.start founded_created) trivial rfl)⟩

end Plexichat.Messaging.Groups
