import Plexichat.Library.JsonText
import Plexichat.Encryption.RatchetIntervals
import Plexichat.Messaging.Conversations
import Plexichat.Messaging.Edit
import Plexichat.Servers.ConversationAccess

/-! delete_message and delete_messages_bulk of services/message/edit_delete.py over the tables
of messages and intervals. The search index, the caches, the thread links and the broadcast
of a split are left out. -/
namespace Plexichat.Messaging.BulkDelete
open Encryption Json
open Servers.ConversationAccess (Channel)

/-- The columns of msg_messages that a deletion reads or writes. -/
structure StoredMessage extends Messaging.MessageRow where
  id : Nat
  conversationId : Nat
  deletedAt : Option Nat
  replyToId : Option Nat
  ratchetIntervalId : Option Nat
  metadata : Option Text

/-- The columns of msg_conversations that follow the messages. -/
structure ConversationRecord where
  id : Nat
  updatedAt : Nat
  lastMessageId : Option Nat
  lastMessageAt : Option Nat
  metadata : Option Text

structure Records where
  messages : Table StoredMessage StoredMessage.id
  conversations : Table ConversationRecord ConversationRecord.id
  participants : Table ParticipantRow ParticipantRow.key
  channels : Table Channel Channel.id
  /-- The message ids in notif_notifications, whose foreign key has no action. -/
  notified : List Nat

structure State extends Records where
  intervals : Ratchet.Intervals
  ring : Ring

structure Service (F : Type) where
  aead : Aead
  ratchetManager : Option Ratchet.Config
  licensed : Bool
  /-- `has_permission` where the servers package is set up; none is an exception. -/
  servers : Option (Nat → Nat → String → Nat → Option Bool)
  isZero : F → Bool
  /-- How deep json goes. -/
  depth : Nat

/-- A call of either function, with what `_get_timestamp` answers. -/
structure Request where
  userId : Nat
  hardDelete : Bool
  now : Nat

inductive DeleteError where
  | messageNotFound
  | accessDenied
  | invalidContent (message : String)
  | integrity
  | metadata

def State.ratchet (s : State) : Ratchet.State :=
  ⟨s.intervals, s.messages.rows.map fun m => ⟨m.id, m.ratchetIntervalId, m.deleted⟩, s.ring⟩

variable {F : Type}

section Permission

variable (svc : Service F) (r : Records)

def Records.getChannelByConversation (conversationId : Nat) : Option Channel :=
  r.channels.rows.find? fun c => c.conversationId = some conversationId && !c.deleted

def Records.getChannelConversationId (channelId : Nat) : Option Nat :=
  ((r.channels.find channelId).filter fun c => !c.deleted).bind Channel.conversationId

def isServerMessageModerator (userId conversationId : Nat) : Bool :=
  match svc.servers, r.getChannelByConversation conversationId with
  | some hasPermission, some info =>
    (hasPermission userId info.serverId "messages.manage" info.id).getD false
  | _, _ => false

def resolveChannelConversationScope (channelId : Nat) : List Nat :=
  match svc.servers with
  | none => [channelId]
  | some _ => channelId :: ((r.getChannelConversationId channelId).filter (· ≠ 0)).toList

def canDelete (userId : Nat) (row : StoredMessage) : Bool :=
  row.authorId = userId ||
    (r.participants.find (row.conversationId, userId)).any
      (fun p => p.role = .owner || p.role = .admin) ||
    isServerMessageModerator svc r userId row.conversationId

end Permission

section Repository

variable [Floats F] (svc : Service F) (r : Records)

/-- `bool(v)` is false; a dict counts by its items. -/
def falsy : Value F Str → Bool
  | .null => true
  | .bool b => !b
  | .int n => n = 0
  | .float x => svc.isZero x
  | .str s => s.isEmpty
  | .list l => l.isEmpty
  | .dict l => l.isEmpty

/-- The marks of a soft deletion are put into this dict; none is a value without `update`. -/
def existingMetadata (metadata : Option Text) : Option (List (Str × Value F Str)) :=
  match metadata.filter (· ≠ []) with
  | none => some []
  | some t =>
    match loads svc.depth t with
    | .error _ => some []
    | .ok (.dict l) => some l
    | .ok v => if falsy svc v then some [] else none

def key (s : String) : Str := s.toList.map .char

def deletionMarks (deletedAt : Nat) : List (Str × Value F Str) :=
  [(key "deleted_by_user", .bool true), (key "deleted_by", .null),
    (key "deleted_at", .int deletedAt)]

def markedMetadata (deletedAt : Nat) (metadata : Option Text) : Option Text := do
  let existing ← existingMetadata svc metadata
  (dumps svc.depth (.dict ((deletionMarks deletedAt).foldl setItem existing))).toOption

/-- The UPDATE of `soft_delete`. -/
def StoredMessage.blank (deletedAt : Nat) (metadata : Text) (m : StoredMessage) : StoredMessage :=
  { m with
    deleted := true
    deletedAt := some deletedAt
    content := []
    contentEncrypted := none
    contentIndex := none
    metadata := some metadata
    updatedAt := deletedAt }

/-- none is an exception. -/
def Records.softDelete (messageId deletedAt : Nat) : Option Records :=
  (markedMetadata svc deletedAt
    ((r.messages.find messageId).bind StoredMessage.metadata)).map fun metadata =>
      { r with
        messages := r.messages.update (fun m => m.id = messageId) (.blank deletedAt metadata)
          fun _ => rfl }

def StoredMessage.unlink (m : StoredMessage) : StoredMessage := { m with replyToId := none }

/-- none is the integrity error of a message that a notification refers to. -/
def Records.hardDelete (messageId : Nat) : Option Records :=
  if messageId ∈ r.notified then none
  else some
    { r with
      messages := (r.messages.delete fun m => m.id = messageId).update
        (fun m => m.replyToId = some messageId) .unlink fun _ => rfl }

end Repository

section Calls

variable [Floats F] (svc : Service F) (req : Request)

/-- `split_on_delete` after a hard deletion; what it raises is caught. -/
def State.splitOnDelete (s : State) (conversationId messageId : Nat) (draw : Ratchet.Draw) : State :=
  match svc.ratchetManager with
  | none => s
  | some manager =>
    if svc.licensed then
      let split := (Ratchet.splitOnDelete svc.aead manager s.ratchet conversationId messageId
        req.now draw).1
      { s with intervals := split.intervals, ring := split.ring }
    else s

def deleteMessage (s : State) (messageId : Nat) (draw : Ratchet.Draw) :
    State × Except DeleteError Unit :=
  match s.messages.find messageId with
  | none => (s, .error .messageNotFound)
  | some row =>
    if !canDelete svc s.toRecords req.userId row then (s, .error .accessDenied)
    else if req.hardDelete then
      match s.toRecords.hardDelete messageId with
      | none => (s, .error .integrity)
      | some r =>
        (({ s with toRecords := r } : State).splitOnDelete svc req row.conversationId messageId draw,
          .ok ())
    else
      match s.toRecords.softDelete svc messageId req.now with
      | none => (s, .error .metadata)
      | some r => ({ s with toRecords := r }, .ok ())

def bulkDeleteMaxIds : Nat := 100

structure BulkResult where
  successCount : Nat
  deletedIds : List Nat
  failedCount : Nat
  failedIds : List Nat

structure Progress where
  state : State
  deletedIds : List Nat
  failedIds : List Nat

def Progress.fail (p : Progress) (messageId : Nat) : Progress :=
  { p with failedIds := p.failedIds ++ [messageId] }

def inScope (scope : Option (List Nat)) (conversationId : Nat) : Bool :=
  scope.all fun ids => ids.contains conversationId

def deleteNext (scope : Option (List Nat)) (p : Progress) (messageId : Nat) : Progress :=
  match p.state.messages.find messageId with
  | none => p.fail messageId
  | some row =>
    if !inScope scope row.conversationId then p.fail messageId
    else if !canDelete svc p.state.toRecords req.userId row then p.fail messageId
    else
      match
        if req.hardDelete then p.state.toRecords.hardDelete messageId
        else p.state.toRecords.softDelete svc messageId req.now with
      | none => p.fail messageId
      | some r =>
        { p with state := { p.state with toRecords := r }, deletedIds := p.deletedIds ++ [messageId] }

def bulkScope (r : Records) (conversationId : Option Nat) : Option (List Nat) :=
  conversationId.map (resolveChannelConversationScope svc r)

def deleteMessagesBulk (s : State) (messageIds : List Nat) (conversationId : Option Nat) :
    Except DeleteError (State × BulkResult) :=
  if bulkDeleteMaxIds < messageIds.length then
    .error (.invalidContent
      ("Cannot bulk-delete more than " ++ toString bulkDeleteMaxIds ++ " messages"))
  else
    let p := messageIds.foldl (deleteNext svc req (bulkScope svc s.toRecords conversationId))
      ⟨s, [], []⟩
    .ok (p.state, ⟨p.deletedIds.length, p.deletedIds, p.failedIds.length, p.failedIds⟩)

def eligible (scope : Option (List Nat)) (r : Records) (messageId : Nat) : Bool :=
  (r.messages.find messageId).any fun row =>
    inScope scope row.conversationId && canDelete svc r req.userId row

/-- `delete_message` on one id after the other, each with its own draw; a call that raises
leaves the state as it is. -/
def deleteEach (draws : Nat → Ratchet.Draw) (s : State) (messageIds : List Nat) : State :=
  messageIds.foldl (fun s messageId => (deleteMessage svc req s messageId (draws messageId)).1) s

/-- `split_on_delete` has an interval to split. -/
def cuts (s : State) (conversationId messageId : Nat) : Bool :=
  svc.licensed && svc.ratchetManager.any Ratchet.Config.splitOnDelete &&
    (Ratchet.getActive svc.aead s.ratchet conversationId).any (·.contains messageId)

/-- Nothing keeps the message in its table, and its deletion splits the interval it lies in. -/
def splits (s : State) (messageId : Nat) : Bool :=
  !s.notified.contains messageId &&
    (s.messages.find messageId).any fun row => cuts svc s row.conversationId messageId

end Calls

structure SameRecords (s t : State) : Prop where
  messages : s.messages = t.messages
  conversations : s.conversations = t.conversations
  intervals : s.intervals = t.intervals

def placed (t : Table StoredMessage StoredMessage.id) (messageId : Nat) : Option (Nat × Nat) :=
  (t.find messageId).map fun m => (m.conversationId, m.authorId)

def Records.origin (r : Records) : Nat → Option (Nat × Nat) := placed r.messages

variable [Floats F]

def purged (svc : Service F) (req : Request) (r : Records) (messageId : Nat) : Records :=
  ((r.messages.find messageId).bind fun row =>
    if canDelete svc r req.userId row then
      if req.hardDelete then r.hardDelete messageId else r.softDelete svc messageId req.now
    else none).getD r

structure Frame (r q : Records) : Prop where
  conversations : q.conversations = r.conversations
  participants : q.participants = r.participants
  channels : q.channels = r.channels
  notified : q.notified = r.notified
  origin : ∀ messageId, q.origin messageId = r.origin messageId ∨ q.origin messageId = none

variable {svc : Service F} {req : Request} {scope : Option (List Nat)} {r q : Records} {s : State}
  {messageId : Nat}

omit [Floats F] in
theorem Frame.refl (r : Records) : Frame r r := ⟨rfl, rfl, rfl, rfl, fun _ => .inl rfl⟩

omit [Floats F] in
theorem Frame.trans {p : Records} (h : Frame r q) (k : Frame q p) : Frame r p := by
  refine ⟨k.conversations.trans h.conversations, k.participants.trans h.participants,
    k.channels.trans h.channels, k.notified.trans h.notified, ?_⟩
  intro id
  cases k.origin id with
  | inl same => exact same ▸ h.origin id
  | inr gone => exact .inr gone

omit [Floats F] in
theorem eligible_congr (participants : q.participants = r.participants)
    (channels : q.channels = r.channels) (origin : q.origin messageId = r.origin messageId) :
    eligible svc req scope q messageId = eligible svc req scope r messageId := by
  unfold Records.origin placed at origin
  unfold eligible canDelete isServerMessageModerator Records.getChannelByConversation
  rw [participants, channels]
  cases old : r.messages.find messageId with
  | none =>
    rw [old, Option.map_none, Option.map_eq_none_iff] at origin
    rw [origin]
  | some m =>
    rw [old, Option.map_some, Option.map_eq_some_iff] at origin
    obtain ⟨n, now, same⟩ := origin
    rw [Prod.mk.injEq] at same
    rw [now, Option.any_some, Option.any_some, same.1, same.2]

omit [Floats F] in
theorem origin_of_eligible (may : eligible svc req scope r messageId = true) :
    r.origin messageId ≠ none := by
  intro gone
  rw [Records.origin, placed, Option.map_eq_none_iff] at gone
  rw [eligible, gone] at may
  cases may

theorem purged_of_absent (absent : r.origin messageId = none) :
    purged svc req r messageId = r := by
  rw [Records.origin, placed, Option.map_eq_none_iff] at absent
  rw [purged, absent]
  rfl

omit [Floats F] in
theorem placed_update (t : Table StoredMessage StoredMessage.id) (p : StoredMessage → Bool)
    (f : StoredMessage → StoredMessage) (same : ∀ m, (f m).id = m.id)
    (kept : ∀ m, ((f m).conversationId, (f m).authorId) = (m.conversationId, m.authorId)) :
    placed (t.update p f same) = placed t := by
  funext x
  rw [placed, placed, Table.find_update, Option.map_map]
  congr 1
  funext m
  rw [Function.comp]
  split
  · exact kept m
  · rfl

omit [Floats F] in
theorem placed_delete (t : Table StoredMessage StoredMessage.id) (messageId x : Nat) :
    placed (t.delete fun m => m.id = messageId) x =
      if x = messageId then none else placed t x := by
  rw [placed, placed, Table.find_delete]
  cases found : t.find x with
  | none => simp
  | some m =>
    have named : m.id = x := (Table.find_eq_some.mp found).2
    simp only [Option.filter, named, Option.map_some]
    split <;> simp_all

theorem softDelete_eq_some {now : Nat} (blanked : r.softDelete svc messageId now = some q) :
    ∃ t, q = { r with messages := t } ∧ ∀ x, placed t x = r.origin x := by
  obtain ⟨metadata, -, rfl⟩ := Option.map_eq_some_iff.mp blanked
  refine ⟨_, rfl, fun x => congrFun (placed_update r.messages _ (.blank now metadata) ?_ ?_) x⟩
  · exact fun _ => rfl
  · exact fun _ => rfl

omit [Floats F] in
theorem hardDelete_eq_some (gone : r.hardDelete messageId = some q) :
    messageId ∉ r.notified ∧ ∃ t, q = { r with messages := t } ∧
      ∀ x, placed t x = if x = messageId then none else r.origin x := by
  unfold Records.hardDelete at gone
  split at gone
  · cases gone
  · rename_i free
    cases gone
    refine ⟨free, _, rfl, ?_⟩
    intro x
    have unlinked := placed_update (r.messages.delete fun m => m.id = messageId)
      (fun m => m.replyToId = some messageId) .unlink (fun _ => rfl) fun _ => rfl
    exact (congrFun unlinked x).trans (placed_delete r.messages messageId x)

theorem frame_purged (svc : Service F) (req : Request) (r : Records) (messageId : Nat) :
    Frame r (purged svc req r messageId) ∧
      ∀ x ≠ messageId, (purged svc req r messageId).origin x = r.origin x := by
  unfold purged
  cases after : (r.messages.find messageId).bind fun row =>
      if canDelete svc r req.userId row then
        if req.hardDelete then r.hardDelete messageId else r.softDelete svc messageId req.now
      else none with
  | none => exact ⟨Frame.refl r, fun _ _ => rfl⟩
  | some q =>
    obtain ⟨row, -, allowed⟩ := Option.bind_eq_some_iff.mp after
    split at allowed
    · split at allowed
      · obtain ⟨-, t, rfl, others⟩ := hardDelete_eq_some allowed
        refine ⟨⟨rfl, rfl, rfl, rfl, ?_⟩, fun x other => (others x).trans (if_neg other)⟩
        intro x
        by_cases same : x = messageId
        · exact .inr ((others x).trans (if_pos same))
        · exact .inl ((others x).trans (if_neg same))
      · obtain ⟨t, rfl, all⟩ := softDelete_eq_some allowed
        exact ⟨⟨rfl, rfl, rfl, rfl, fun x => .inl (all x)⟩, fun x _ => all x⟩
    · cases allowed

omit [Floats F] in
theorem Frame.eligible (frame : Frame r q) :
    eligible svc req scope q messageId = true ↔
      eligible svc req scope r messageId = true ∧ q.origin messageId ≠ none := by
  cases frame.origin messageId with
  | inl same =>
    have equal : BulkDelete.eligible svc req scope q messageId =
        BulkDelete.eligible svc req scope r messageId :=
      eligible_congr frame.participants frame.channels same
    rw [equal, same]
    exact (and_iff_left_of_imp origin_of_eligible).symm
  | inr gone =>
    constructor
    · intro may
      exact absurd gone (origin_of_eligible may)
    · intro held
      exact absurd gone held.2

theorem deleteNext_state (scope : Option (List Nat)) (p : Progress) (messageId : Nat) :
    (deleteNext svc req scope p messageId).state =
      if eligible svc req scope p.state.toRecords messageId then
        { p.state with toRecords := purged svc req p.state.toRecords messageId }
      else p.state := by
  unfold deleteNext eligible purged
  cases found : p.state.messages.find messageId with
  | none => rfl
  | some row =>
    simp only [Option.any_some, Option.bind_some, Bool.and_eq_true]
    cases inside : inScope scope row.conversationId with
    | false => simp [Progress.fail]
    | true =>
      cases may : canDelete svc p.state.toRecords req.userId row with
      | false => simp [Progress.fail]
      | true =>
        simp only [Bool.not_true, Bool.false_eq_true, if_false, if_true, and_self]
        split
        · rename_i refused
          rw [refused]
          rfl
        · rename_i after
          rw [after]
          rfl

omit [Floats F] in
theorem splitOnDelete_records (s : State) (c m : Nat) (draw : Ratchet.Draw) :
    (s.splitOnDelete svc req c m draw).toRecords = s.toRecords := by
  unfold State.splitOnDelete
  split
  · rfl
  · split <;> rfl

theorem deleteMessage_records (s : State) (messageId : Nat) (draw : Ratchet.Draw) :
    (deleteMessage svc req s messageId draw).1.toRecords =
      purged svc req s.toRecords messageId := by
  unfold deleteMessage purged
  cases found : s.messages.find messageId with
  | none => rfl
  | some row =>
    simp only [Option.bind_some]
    cases may : canDelete svc s.toRecords req.userId row with
    | false => simp
    | true =>
      simp only [Bool.not_true, Bool.false_eq_true, if_false, if_true]
      split
      · split
        · rename_i refused
          rw [refused]
          rfl
        · rename_i after
          rw [after, splitOnDelete_records]
          rfl
      · split
        · rename_i refused
          rw [refused]
          rfl
        · rename_i after
          rw [after]
          rfl

theorem deleteNext_frame (svc : Service F) (req : Request) (scope : Option (List Nat)) {p : Progress}
    (frame : Frame r p.state.toRecords) (messageId : Nat) :
    (deleteNext svc req scope p messageId).state =
      { p.state with
        toRecords :=
          if eligible svc req scope r messageId then purged svc req p.state.toRecords messageId
          else p.state.toRecords } := by
  rw [deleteNext_state]
  split
  · rename_i may
    rw [if_pos (frame.eligible.mp may).1]
  · rename_i refused
    split
    · rename_i may
      have gone : p.state.toRecords.origin messageId = none := by
        by_contra present
        exact refused (frame.eligible.mpr ⟨may, present⟩)
      rw [purged_of_absent gone]
    · rfl

/-- A bulk deletion treats the records as the calls on the eligible ids do. -/
theorem bulk_run (svc : Service F) (req : Request) (scope : Option (List Nat)) {p : Progress}
    (frame : Frame r p.state.toRecords) (ids : List Nat) :
    (ids.foldl (deleteNext svc req scope) p).state =
      { p.state with
        toRecords :=
          (ids.filter (eligible svc req scope r)).foldl (purged svc req) p.state.toRecords } := by
  induction ids generalizing p with
  | nil => rfl
  | cons id ids ih =>
    have first := deleteNext_frame svc req scope frame id
    have after : Frame r (deleteNext svc req scope p id).state.toRecords := by
      rw [first]
      simp only
      split
      · exact frame.trans (frame_purged svc req p.state.toRecords id).1
      · exact frame
    rw [List.foldl_cons, ih after, first, List.filter_cons]
    split <;> rfl

theorem deleteEach_records (draws : Nat → Ratchet.Draw) (s : State) (ids : List Nat) :
    (deleteEach svc req draws s ids).toRecords = ids.foldl (purged svc req) s.toRecords := by
  induction ids generalizing s with
  | nil => rfl
  | cons id ids ih =>
    refine (ih _).trans ?_
    rw [deleteMessage_records, List.foldl_cons]

omit [Floats F] in
theorem splitOnDelete_of_not_cuts {c m : Nat} (whole : cuts svc s c m = false)
    (draw : Ratchet.Draw) : s.splitOnDelete svc req c m draw = s := by
  unfold State.splitOnDelete
  split
  · rfl
  · rename_i manager managed
    split
    · rename_i licensed
      rw [Ratchet.splitOnDelete_eq_self req.now draw]
      · rfl
      · intro splits active found
        rw [cuts, licensed, managed, Option.any_some, splits, found] at whole
        exact whole
    · rfl

def Ended (s t : State) : Prop :=
  ∃ k, (∃ r, s.intervals.find k = some r ∧ r.endMessageId = none) ∧ Ratchet.Shut t.ratchet k

theorem Ended.ne {s t : State} (h : Ended s t) : t.intervals ≠ s.intervals := by
  intro same
  obtain ⟨k, ⟨r, found, unended⟩, q, later, ended⟩ := h
  have both : s.intervals.find k = some q := same ▸ later
  rw [found] at both
  cases both
  exact ended unended

omit [Floats F] in
theorem splitOnDelete_of_cuts {c m : Nat} (cut : cuts svc s c m = true) (draw : Ratchet.Draw) :
    Ended s (s.splitOnDelete svc req c m draw) := by
  simp only [cuts, Bool.and_eq_true, Option.any_eq_true] at cut
  obtain ⟨⟨licensed, manager, managed, splits⟩, active, found, inside⟩ := cut
  have shut := Ratchet.splitOnDelete_shuts splits found inside req.now draw
  refine ⟨active.intervalId, shut.1, ?_⟩
  rw [State.splitOnDelete, managed]
  simp only [licensed, if_true]
  exact shut.2

omit [Floats F] in
theorem splitOnDelete_shut {k : Nat} (shut : Ratchet.Shut s.ratchet k) (c m : Nat)
    (draw : Ratchet.Draw) : Ratchet.Shut (s.splitOnDelete svc req c m draw).ratchet k := by
  unfold State.splitOnDelete
  split
  · exact shut
  · split
    · exact shut.splitOnDelete c m req.now draw
    · exact shut

theorem deleteMessage_of_whole (whole : req.hardDelete = true → splits svc s messageId = false)
    (draw : Ratchet.Draw) : (deleteMessage svc req s messageId draw).1 =
      { s with toRecords := purged svc req s.toRecords messageId } := by
  have records : (deleteMessage svc req s messageId draw).1.toRecords =
      purged svc req s.toRecords messageId := deleteMessage_records s messageId draw
  suffices kept : (deleteMessage svc req s messageId draw).1.intervals = s.intervals ∧
      (deleteMessage svc req s messageId draw).1.ring = s.ring by
    rw [← records, ← kept.1, ← kept.2]
  unfold deleteMessage
  split
  · exact ⟨rfl, rfl⟩
  · rename_i row found
    split
    · exact ⟨rfl, rfl⟩
    · split
      · rename_i hard
        split
        · exact ⟨rfl, rfl⟩
        · rename_i r gone
          have free : s.notified.contains messageId = false := by
            simpa using (hardDelete_eq_some gone).1
          have uncut : cuts svc s row.conversationId messageId = false := by
            have uncut := whole hard
            rw [splits, free, found] at uncut
            exact uncut
          rw [splitOnDelete_of_not_cuts (s := ⟨r, s.intervals, s.ring⟩) uncut draw]
          exact ⟨rfl, rfl⟩
      · split <;> exact ⟨rfl, rfl⟩

theorem deleteMessage_of_splits (hard : req.hardDelete = true)
    (may : eligible svc req scope s.toRecords messageId = true)
    (split : splits svc s messageId = true) (draw : Ratchet.Draw) :
    Ended s (deleteMessage svc req s messageId draw).1 := by
  simp only [splits, Bool.and_eq_true, Bool.not_eq_true', Option.any_eq_true] at split
  obtain ⟨free, row, found, cut⟩ := split
  have known : messageId ∉ s.notified := by simpa using free
  rw [eligible, found, Option.any_some, Bool.and_eq_true] at may
  obtain ⟨r, gone⟩ : ∃ r, s.toRecords.hardDelete messageId = some r := ⟨_, if_neg known⟩
  unfold deleteMessage
  rw [found]
  simp only [may.2, Bool.not_true, Bool.false_eq_true, if_false, hard, if_true, gone]
  exact splitOnDelete_of_cuts (s := ⟨r, s.intervals, s.ring⟩) cut draw

theorem deleteMessage_shut {k : Nat} (shut : Ratchet.Shut s.ratchet k) (messageId : Nat)
    (draw : Ratchet.Draw) : Ratchet.Shut (deleteMessage svc req s messageId draw).1.ratchet k := by
  unfold deleteMessage
  split
  · exact shut
  · split
    · exact shut
    · split
      · split
        · exact shut
        · rename_i row _ _ _ _ r _
          exact splitOnDelete_shut (s := ⟨r, s.intervals, s.ring⟩) shut row.conversationId _ draw
      · split <;> exact shut

theorem deleteEach_shut {k : Nat} (draws : Nat → Ratchet.Draw) (ids : List Nat)
    (shut : Ratchet.Shut s.ratchet k) :
    Ratchet.Shut (deleteEach svc req draws s ids).ratchet k := by
  induction ids generalizing s with
  | nil => exact shut
  | cons id ids ih => exact ih (deleteMessage_shut shut id (draws id))

omit [Floats F] in
theorem splits_of_frame {r : Records} (frame : Frame s.toRecords r) (messageId : Nat) :
    splits svc { s with toRecords := r } messageId =
      (splits svc s messageId && (r.origin messageId).isSome) := by
  have placed_any : ∀ q : Records, (q.messages.find messageId).any
      (fun row => cuts svc s row.conversationId messageId) =
        (q.origin messageId).any fun o => cuts svc s o.1 messageId := by
    intro q
    rw [Records.origin, placed, Option.any_map]
  have whole : splits svc { s with toRecords := r } messageId =
      (!s.notified.contains messageId && (r.origin messageId).any fun o => cuts svc s o.1 messageId) := by
    rw [← placed_any, ← frame.notified]
    rfl
  rw [whole, splits, placed_any]
  cases frame.origin messageId with
  | inl same =>
    rw [same]
    cases s.toRecords.origin messageId <;> simp
  | inr gone => simp [gone]

theorem splits_of_purged {x : Nat} (other : x ≠ messageId) :
    splits svc { s with toRecords := purged svc req s.toRecords messageId } x = splits svc s x := by
  obtain ⟨frame, others⟩ := frame_purged svc req s.toRecords messageId
  rw [splits_of_frame frame, others x other]
  cases present : s.toRecords.origin x with
  | some o => simp
  | none =>
    rw [Records.origin, placed, Option.map_eq_none_iff] at present
    simp [splits, present]

theorem deleteEach_of_whole (draws : Nat → Ratchet.Draw) (ids : List Nat)
    (whole : req.hardDelete = true → ∀ id ∈ ids, splits svc s id = false) :
    deleteEach svc req draws s ids =
      { s with toRecords := ids.foldl (purged svc req) s.toRecords } := by
  induction ids generalizing s with
  | nil => rfl
  | cons id ids ih =>
    have first := deleteMessage_of_whole (fun hard => whole hard id List.mem_cons_self) (draws id)
    have frame := (frame_purged svc req s.toRecords id).1
    refine (congrArg (deleteEach svc req draws · ids) first).trans (ih ?_)
    intro hard x member
    rw [splits_of_frame frame, whole hard x (List.mem_cons_of_mem id member), Bool.false_and]

theorem deleteEach_of_splits (hard : req.hardDelete = true) (draws : Nat → Ratchet.Draw)
    (ids : List Nat) {id : Nat} (member : id ∈ ids) (cut : splits svc s id = true)
    (may : ∀ x ∈ ids, splits svc s x = true → eligible svc req scope s.toRecords x = true) :
    Ended s (deleteEach svc req draws s ids) := by
  induction ids generalizing s with
  | nil => cases member
  | cons x ids ih =>
    cases first : splits svc s x with
    | true =>
      obtain ⟨k, unended, shut⟩ := deleteMessage_of_splits hard (may x List.mem_cons_self first) first
        (draws x)
      exact ⟨k, unended, deleteEach_shut draws ids shut⟩
    | false =>
      have other : id ≠ x := by
        rintro rfl
        rw [cut] at first
        cases first
      have rest : id ∈ ids := (List.mem_cons.mp member).resolve_left other
      have frame := (frame_purged svc req s.toRecords x).1
      have quiet : (deleteMessage svc req s x (draws x)).1 =
          { s with toRecords := purged svc req s.toRecords x } :=
        deleteMessage_of_whole (fun _ => first) (draws x)
      have ended := ih (s := { s with toRecords := purged svc req s.toRecords x }) rest
        ((splits_of_purged other).trans cut) ?_
      · exact (congrArg (deleteEach svc req draws · ids) quiet).symm ▸ ended
      · intro y later splitting
        rw [splits_of_frame frame, Bool.and_eq_true] at splitting
        exact frame.eligible.mpr ⟨may y (List.mem_cons_of_mem x later) splitting.1,
          Option.isSome_iff_ne_none.mp splitting.2⟩

theorem deleteEach_intervals_iff (hard : req.hardDelete = true) (draws : Nat → Ratchet.Draw)
    (ids : List Nat) (may : ∀ id ∈ ids, eligible svc req scope s.toRecords id = true) :
    (deleteEach svc req draws s ids).intervals = s.intervals ↔
      ∀ id ∈ ids, splits svc s id = false := by
  constructor
  · intro same id member
    by_contra cut
    exact (deleteEach_of_splits hard draws ids member (by simpa using cut)
      fun x there _ => may x there).ne same
  · intro whole
    rw [deleteEach_of_whole draws ids fun _ => whole]

theorem deleteMessagesBulk_of_le (svc : Service F) (req : Request) (s : State) {ids : List Nat}
    (few : ¬ bulkDeleteMaxIds < ids.length) (conversationId : Option Nat)
    (draws : Nat → Ratchet.Draw) :
    ∃ result, deleteMessagesBulk svc req s ids conversationId = .ok
      ({ s with
        toRecords := (deleteEach svc req draws s (ids.filter
          (eligible svc req (bulkScope svc s.toRecords conversationId) s.toRecords))).toRecords },
        result) := by
  have bulk := bulk_run svc req (bulkScope svc s.toRecords conversationId) (p := ⟨s, [], []⟩)
    (Frame.refl s.toRecords) ids
  rw [deleteMessagesBulk, if_neg few, deleteEach_records]
  exact ⟨_, congrArg (fun t => Except.ok (t, _)) bulk⟩

/-- More than 100 ids are refused. Otherwise the bulk deletion leaves the messages, the
conversations and the intervals as the calls on the eligible ids do if and only if it is soft
or none of these calls has an interval to split. -/
theorem bulk_matches_calls_iff (svc : Service F) (req : Request) (s : State) (ids : List Nat)
    (conversationId : Option Nat) (draws : Nat → Ratchet.Draw) :
    let may := eligible svc req (bulkScope svc s.toRecords conversationId) s.toRecords
    if bulkDeleteMaxIds < ids.length then
      deleteMessagesBulk svc req s ids conversationId =
        .error (.invalidContent "Cannot bulk-delete more than 100 messages")
    else ∃ t result, deleteMessagesBulk svc req s ids conversationId = .ok (t, result) ∧
      (SameRecords t (deleteEach svc req draws s (ids.filter may)) ↔
        req.hardDelete = false ∨ ∀ id ∈ ids, may id = true → splits svc s id = false) := by
  intro may
  split
  · rename_i many
    exact if_pos many
  · rename_i few
    obtain ⟨result, bulk⟩ := deleteMessagesBulk_of_le svc req s few conversationId draws
    refine ⟨_, result, bulk, ?_⟩
    have same_iff : SameRecords
        { s with toRecords := (deleteEach svc req draws s (ids.filter may)).toRecords }
        (deleteEach svc req draws s (ids.filter may)) ↔
          (deleteEach svc req draws s (ids.filter may)).intervals = s.intervals :=
      ⟨fun same => same.intervals.symm, fun same => ⟨rfl, rfl, same.symm⟩⟩
    rw [same_iff]
    cases hard : req.hardDelete with
    | false =>
      rw [deleteEach_of_whole draws _ fun h => absurd (hard.symm.trans h) Bool.false_ne_true]
      simp
    | true =>
      rw [deleteEach_intervals_iff hard draws _ fun _ member => (List.mem_filter.mp member).2]
      simp only [List.mem_filter, and_imp, Bool.true_eq_false, false_or]
      exact Iff.rfl

section Runs

def sampleMessage (messageId : Nat) : StoredMessage where
  authorId := 5
  deleted := false
  createdAt := 0
  content := ['h', 'i']
  contentEncrypted := none
  contentIndex := none
  updatedAt := 0
  edited := false
  editedAt := none
  id := messageId
  conversationId := 1
  deletedAt := none
  replyToId := none
  ratchetIntervalId := some 1
  metadata := none

def sampleService : Service Special where
  aead := shiftAead
  ratchetManager := some Ratchet.defaultConfig
  licensed := true
  servers := none
  isZero _ := false
  depth := 10

def sampleRatchet : Ratchet.State :=
  (Ratchet.encrypt shiftAead Ratchet.sampleKdf Ratchet.noIntervals 1 10 [104, 105] 0
    (sampleNonce 5) (Ratchet.sampleDraw 1)).1

def sampleState : State where
  messages := ⟨[sampleMessage 10, sampleMessage 20], by decide⟩
  conversations := ⟨[⟨1, 0, some 20, some 0, none⟩], by decide⟩
  participants := ⟨[⟨1, 5, .member, 0⟩], by decide⟩
  channels := Table.empty
  notified := []
  intervals := sampleRatchet.intervals
  ring := sampleRatchet.ring

/-- A message is deleted for good, in bulk, and its interval goes on. -/
theorem bulk_leaves_interval_open : ∃ t result,
    deleteMessagesBulk sampleService ⟨5, true, 7⟩ sampleState [10] none = .ok (t, result) ∧
      ¬ SameRecords t (deleteEach sampleService ⟨5, true, 7⟩ Ratchet.sampleDraw sampleState
        ([10].filter (eligible sampleService ⟨5, true, 7⟩ none sampleState.toRecords))) := by
  refine ⟨_, _, rfl, ?_⟩
  intro same
  have lengths := congrArg (fun t => t.rows.length) same.intervals
  exact absurd lengths (by decide +kernel)

end Runs

end Plexichat.Messaging.BulkDelete
