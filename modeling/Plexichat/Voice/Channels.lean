import Plexichat.Library.Table

/-! core/voice/manager: joining a voice channel, leaving it and moving to another, one call at a time.
What the call manager raises is logged there. -/
namespace Plexichat.Voice

structure ServerChannel where
  id : Nat
  serverId : Nat
  channelType : List Char
  deleted : Bool

/-- voice_states -/
structure VoiceState where
  userId : Nat
  channelId : Nat
  serverId : Nat
  selfMute : Bool
  selfDeaf : Bool
  serverMute : Bool
  serverDeaf : Bool
  suppress : Bool
  streaming : Bool
  video : Bool
  joinedAt : Nat
  lastActivity : Nat

structure ChannelSettings where
  channelId : Nat
  userLimit : Int

structure SpeakerRequest where
  id : Nat
  userId : Nat
  channelId : Nat
  requestedAt : Nat

/-- voice_calls -/
structure VoiceCall where
  id : Nat
  channelId : Nat
  startedAt : Nat
  endedAt : Option Nat

structure Tables where
  channels : Table ServerChannel ServerChannel.id
  settings : Table ChannelSettings ChannelSettings.channelId
  states : Table VoiceState VoiceState.userId
  requests : Table SpeakerRequest SpeakerRequest.id
  calls : Table VoiceCall VoiceCall.id

inductive Error where
  | userNotFound (userId : Nat)
  | channelNotFound (channelId : Nat)
  | channelType (actual : List Char)
  | permissionDenied (permission : List Char)
  | userAlreadyInChannel (channelId : Nat)
  | channelFull (limit current : Int)
  | userNotInChannel (userId : Nat)

structure Env where
  userExists : Nat → Bool
  /-- `has_permission` of the servers, where there is a servers module -/
  hasPermission : Option (Nat → Nat → List Char → Option Nat → Bool)
  /-- A call manager is attached and its statements go through. -/
  callManager : Bool
  now : Nat
  newCallId : Nat
  /-- Others take what room there is between the count and the INSERT. -/
  crowded : Bool

def Env.checkPermission (e : Env) (userId serverId : Nat) (permission : List Char)
    (channelId : Option Nat) : Bool :=
  match e.hasPermission with
  | none => false
  | some hasPermission => hasPermission userId serverId permission channelId

abbrev Result (α : Type) := Except Error α × Tables

namespace Tables

variable (e : Env) (t : Tables)

def getServerChannel (channelId : Nat) : Option ServerChannel :=
  if e.hasPermission.isSome then (t.channels.find channelId).filter fun c => !c.deleted else none

def getChannelUserCount (channelId : Nat) : Nat :=
  (t.states.rows.filter fun s => s.channelId = channelId).length

/-- `_get_channel_settings`, of which only the limit is read -/
def userLimit (channelId : Nat) : Int :=
  ((t.settings.find channelId).map ChannelSettings.userLimit).getD 0

/-- `get_active_by_channel` -/
def activeCall (channelId : Nat) : Option VoiceCall :=
  (t.calls.rows.filter fun c => c.channelId = channelId ∧ c.endedAt = none).foldl
    (fun best c => if best.all fun b => b.startedAt < c.startedAt then some c else best) none

def endCall (now : Nat) (callId : Nat) : Tables :=
  let close (c : VoiceCall) : VoiceCall := { c with endedAt := some now }
  { t with calls := t.calls.update (fun c => c.id = callId) close fun _ => rfl }

def onMemberLeft (channelId : Nat) : Tables :=
  if e.callManager then
    match t.activeCall channelId with
    | none => t
    | some call => if t.getChannelUserCount channelId = 0 then t.endCall e.now call.id else t
  else t

def onMemberJoined (channelId : Nat) : Tables :=
  if e.callManager then
    match t.activeCall channelId with
    | some _ => t
    | none => { t with calls := t.calls.insertOrIgnore ⟨e.newCallId, channelId, e.now, none⟩ }
  else t

def withoutUser (userId : Nat) : Tables :=
  { t with
    requests := t.requests.delete fun r => r.userId = userId
    states := t.states.delete fun s => s.userId = userId }

def leaveChannel (userId : Nat) : Result Unit :=
  match t.states.find userId with
  | none => (.error (.userNotInChannel userId), t)
  | some state => (.ok (), (t.withoutUser userId).onMemberLeft e state.channelId)

def enter (userId : Nat) (channel : ServerChannel) : Result VoiceState :=
  let state : VoiceState := ⟨userId, channel.id, channel.serverId, false, false, false, false,
    channel.channelType = "stage".toList, false, false, e.now, e.now⟩
  (.ok state,
    ({ t with states := t.states.insertOrIgnore state } : Tables).onMemberJoined e channel.id)

/-- The capacity checks of `join_channel` and what comes behind them. -/
def joinWithin (userId : Nat) (channel : ServerChannel) : Result VoiceState :=
  let limit := t.userLimit channel.id
  let count := t.getChannelUserCount channel.id
  if 0 < limit then
    if limit ≤ count then
      if e.checkPermission userId channel.serverId "voice.move_members".toList none then
        t.enter e userId channel
      else (.error (.channelFull limit count), t)
    else if e.crowded then (.error (.channelFull limit limit), t)
    else t.enter e userId channel
  else t.enter e userId channel

def joinChannel (userId channelId : Nat) : Result VoiceState :=
  if !e.userExists userId then (.error (.userNotFound userId), t)
  else match t.getServerChannel e channelId with
    | none => (.error (.channelNotFound channelId), t)
    | some channel =>
      if channel.channelType ≠ "voice".toList ∧ channel.channelType ≠ "stage".toList then
        (.error (.channelType channel.channelType), t)
      else if !e.checkPermission userId channel.serverId "voice.connect".toList (some channelId) then
        (.error (.permissionDenied "voice.connect".toList), t)
      else match t.states.find userId with
        | none => t.joinWithin e userId channel
        | some existing =>
          if existing.channelId = channelId then (.error (.userAlreadyInChannel channelId), t)
          else match t.leaveChannel e userId with
            | (.error error, t) => (.error error, t)
            | (.ok _, t) => t.joinWithin e userId channel

def moveToChannel (userId channelId : Nat) : Result VoiceState :=
  match t.states.find userId with
  | none => t.joinChannel e userId channelId
  | some _ =>
    match t.leaveChannel e userId with
    | (.error error, t) => (.error error, t)
    | (.ok _, t) => t.joinChannel e userId channelId

end Tables

inductive Request where
  | join (userId channelId : Nat)
  | move (userId channelId : Nat)

namespace Request

def userId : Request → Nat
  | join userId _ => userId
  | move userId _ => userId

def channelId : Request → Nat
  | join _ channelId => channelId
  | move _ channelId => channelId

def run (e : Env) (t : Tables) : Request → Result VoiceState
  | join userId channelId => t.joinChannel e userId channelId
  | move userId channelId => t.moveToChannel e userId channelId

end Request

structure Unchanged (userId : Nat) (t t' : Tables) : Prop where
  state : t'.states.find userId = t.states.find userId
  requests : t'.requests = t.requests
  calls : (t'.calls.rows.filter fun c => c.endedAt = none) =
    t.calls.rows.filter fun c => c.endedAt = none

def Connects (e : Env) (t : Tables) (userId channelId : Nat) (channel : ServerChannel) : Prop :=
  e.userExists userId ∧ t.getServerChannel e channelId = some channel ∧
    (channel.channelType = "voice".toList ∨ channel.channelType = "stage".toList) ∧
    e.checkPermission userId channel.serverId "voice.connect".toList (some channelId)

/-- The channel has no limit, or takes one more beside those who are in it, or is full and the user
may override the limit. -/
def Roomy (e : Env) (t : Tables) (userId : Nat) (channel : ServerChannel) : Prop :=
  let others := (t.states.rows.filter fun s => s.channelId = channel.id ∧ s.userId ≠ userId).length
  t.userLimit channel.id ≤ 0 ∨ (others < t.userLimit channel.id ∧ e.crowded = false) ∨
    t.userLimit channel.id ≤ others ∧
      e.checkPermission userId channel.serverId "voice.move_members".toList none

def Admits (e : Env) (t : Tables) (userId channelId : Nat) : Prop :=
  ∃ channel, Connects e t userId channelId channel ∧ Roomy e t userId channel

def Safe (e : Env) (t : Tables) : Request → Prop
  | .join userId channelId => ∀ row, t.states.find userId = some row → row.channelId ≠ channelId →
      ∀ channel, Connects e t userId channelId channel → Roomy e t userId channel
  | .move userId channelId => ∀ row, t.states.find userId = some row → Admits e t userId channelId

section Leaving

variable {e : Env} {t : Tables} {userId channelId : Nat}

theorem onMemberLeft_fields (t : Tables) (channelId : Nat) :
    (t.onMemberLeft e channelId).channels = t.channels ∧
      (t.onMemberLeft e channelId).settings = t.settings ∧
      (t.onMemberLeft e channelId).states = t.states := by
  unfold Tables.onMemberLeft
  split
  · split
    · exact ⟨rfl, rfl, rfl⟩
    · split
      · exact ⟨rfl, rfl, rfl⟩
      · exact ⟨rfl, rfl, rfl⟩
  · exact ⟨rfl, rfl, rfl⟩

theorem leaveChannel_eq (e : Env) {row : VoiceState} (found : t.states.find userId = some row) :
    ∃ t', t.leaveChannel e userId = (.ok (), t') ∧ t'.channels = t.channels ∧
      t'.settings = t.settings ∧ t'.states = t.states.delete fun s => s.userId = userId := by
  refine ⟨(t.withoutUser userId).onMemberLeft e row.channelId, ?_, onMemberLeft_fields _ _⟩
  rw [Tables.leaveChannel, found]

theorem roomy_congr {t' : Tables} {channel : ServerChannel} (settings : t'.settings = t.settings)
    (others : (t'.states.rows.filter fun s => s.channelId = channel.id ∧ s.userId ≠ userId) =
      t.states.rows.filter fun s => s.channelId = channel.id ∧ s.userId ≠ userId) :
    Roomy e t' userId channel ↔ Roomy e t userId channel := by
  simp only [Roomy, Tables.userLimit, settings, others]

theorem others_delete : ((t.states.delete fun s => s.userId = userId).rows.filter
    fun s => s.channelId = channelId ∧ s.userId ≠ userId) =
      t.states.rows.filter fun s => s.channelId = channelId ∧ s.userId ≠ userId := by
  rw [Table.delete, List.filter_filter]
  apply List.filter_congr
  intro s _
  by_cases own : s.userId = userId
  · simp [own]
  · simp [own]

theorem count_eq_others (free : t.states.find userId = none) :
    t.getChannelUserCount channelId =
      (t.states.rows.filter fun s => s.channelId = channelId ∧ s.userId ≠ userId).length := by
  rw [Tables.getChannelUserCount]
  congr 1
  apply List.filter_congr
  intro s member
  have other : s.userId ≠ userId := Table.find_eq_none.mp free s member
  simp [other]

end Leaving

section Joining

variable {e : Env} {t : Tables} {userId channelId : Nat} {channel : ServerChannel}

theorem joinWithin_eq (e : Env) (channel : ServerChannel) (free : t.states.find userId = none) :
    (Roomy e t userId channel → ∃ state t', t.joinWithin e userId channel = (.ok state, t')) ∧
      (¬Roomy e t userId channel → ∃ x, t.joinWithin e userId channel = (.error x, t)) := by
  have count : t.getChannelUserCount channel.id = _ := count_eq_others free
  simp only [Tables.joinWithin, Roomy, ← count]
  by_cases bounded : 0 < t.userLimit channel.id
  · simp only [bounded, if_true, Int.not_le.mpr bounded, false_or]
    by_cases full : t.userLimit channel.id ≤ t.getChannelUserCount channel.id
    · simp only [full, if_true, Int.not_lt.mpr full, false_and, false_or, true_and]
      by_cases override : e.checkPermission userId channel.serverId "voice.move_members".toList none
      · exact ⟨fun _ => ⟨_, _, if_pos override⟩, fun refused => absurd override refused⟩
      · exact ⟨fun admitted => absurd admitted override, fun _ => ⟨_, if_neg override⟩⟩
    · simp only [full, if_false, Int.not_le.mp full, true_and, false_and, or_false]
      by_cases crowded : e.crowded
      · simp [crowded]
      · simp [crowded, Tables.enter]
  · simp [bounded, Int.not_lt.mp bounded, Tables.enter]

theorem joinChannel_eq (e : Env) (t : Tables) (userId channelId : Nat) : (∃ x, t.joinChannel e userId channelId = (.error x, t) ∧
      ∀ channel, ¬Connects e t userId channelId channel) ∨
    ∃ channel, Connects e t userId channelId channel ∧ t.joinChannel e userId channelId =
      match t.states.find userId with
      | none => t.joinWithin e userId channel
      | some existing =>
        if existing.channelId = channelId then (.error (.userAlreadyInChannel channelId), t)
        else match t.leaveChannel e userId with
          | (.error error, t) => (.error error, t)
          | (.ok _, t) => t.joinWithin e userId channel := by
  unfold Tables.joinChannel
  by_cases known : e.userExists userId
  · rw [if_neg (by simp [known])]
    cases found : t.getServerChannel e channelId with
    | none =>
      refine .inl ⟨_, rfl, ?_⟩
      rintro channel ⟨-, other, -⟩
      rw [found] at other
      cases other
    | some channel =>
      by_cases voice : channel.channelType ≠ "voice".toList ∧ channel.channelType ≠ "stage".toList
      · refine .inl ⟨_, if_pos voice, ?_⟩
        rintro channel' ⟨-, other, kind, -⟩
        rw [found] at other
        cases other
        exact kind.elim voice.1 voice.2
      · dsimp only
        rw [if_neg voice]
        have kind : channel.channelType = "voice".toList ∨ channel.channelType = "stage".toList := by
          by_contra neither
          exact voice (not_or.mp neither)
        by_cases permitted : e.checkPermission userId channel.serverId "voice.connect".toList
            (some channelId)
        · have granted : ¬(!e.checkPermission userId channel.serverId "voice.connect".toList
              (some channelId)) = true := by
            rw [permitted]
            exact Bool.false_ne_true
          rw [if_neg granted]
          exact .inr ⟨channel, ⟨known, found, kind, permitted⟩, rfl⟩
        · refine .inl ⟨_, if_pos ((Bool.not_eq_true' _).mpr (Bool.not_eq_true _ ▸ permitted)), ?_⟩
          rintro channel' ⟨-, other, -, granted⟩
          rw [found] at other
          cases other
          exact permitted granted
  · exact .inl ⟨_, if_pos (by simp [known]), fun channel connects => known connects.1⟩

theorem joinChannel_of_free (e : Env) (channelId : Nat) (free : t.states.find userId = none) :
    (Admits e t userId channelId → ∃ state t', t.joinChannel e userId channelId = (.ok state, t')) ∧
      (¬Admits e t userId channelId → ∃ x, t.joinChannel e userId channelId = (.error x, t)) := by
  rcases joinChannel_eq e t userId channelId with
    ⟨x, refused, barred⟩ | ⟨channel, connects, joined⟩
  · exact ⟨fun ⟨channel, connects, _⟩ => absurd connects (barred channel), fun _ => ⟨x, refused⟩⟩
  · rw [free] at joined
    have only : Admits e t userId channelId ↔ Roomy e t userId channel := by
      refine ⟨?_, fun roomy => ⟨channel, connects, roomy⟩⟩
      rintro ⟨channel', connects', roomy⟩
      have same : channel' = channel :=
        Option.some.inj (connects'.2.1.symm.trans connects.2.1)
      exact same ▸ roomy
    rw [only, joined]
    exact joinWithin_eq e channel free

end Joining

section Requests

variable {e : Env} {t t' : Tables} {userId channelId : Nat}

theorem Unchanged.refl : Unchanged userId t t := ⟨rfl, rfl, rfl⟩

theorem not_unchanged {row : VoiceState} (found : t.states.find userId = some row)
    (free : t'.states.find userId = none) : ¬Unchanged userId t t' := by
  intro unchanged
  have same := unchanged.state
  rw [found, free] at same
  cases same

theorem free_of_left (left : t'.states = t.states.delete fun s => s.userId = userId) :
    t'.states.find userId = none := by
  rw [left, Table.find_delete]
  cases found : t.states.find userId with
  | none => rfl
  | some row => simp [(Table.find_eq_some.mp found).2]

theorem admits_left (channels : t'.channels = t.channels) (settings : t'.settings = t.settings)
    (left : t'.states = t.states.delete fun s => s.userId = userId) :
    Admits e t' userId channelId ↔ Admits e t userId channelId := by
  refine exists_congr fun channel => and_congr ?_ ?_
  · simp only [Connects, Tables.getServerChannel, channels]
  · exact roomy_congr settings (left ▸ others_delete)

theorem unchanged_of_free (free : t.states.find userId = none) {x : Error}
    (failed : t.joinChannel e userId channelId = (.error x, t')) : Unchanged userId t t' := by
  have outcome := joinChannel_of_free e channelId free
  by_cases admitted : Admits e t userId channelId
  · obtain ⟨state, t'', joined⟩ := outcome.1 admitted
    rw [joined] at failed
    cases failed
  · obtain ⟨y, refused⟩ := outcome.2 admitted
    rw [refused] at failed
    cases failed
    exact .refl

theorem join_unchanged_iff :
    (∀ x t', t.joinChannel e userId channelId = (.error x, t') → Unchanged userId t t') ↔
      Safe e t (.join userId channelId) := by
  rcases joinChannel_eq e t userId channelId with
    ⟨x, refused, barred⟩ | ⟨channel, connects, joined⟩
  · refine iff_of_true ?_ fun _ _ _ channel connects => absurd connects (barred channel)
    intro y t' failed
    rw [refused] at failed
    cases failed
    exact .refl
  · have only : Safe e t (.join userId channelId) ↔
        ∀ row, t.states.find userId = some row → row.channelId ≠ channelId →
          Roomy e t userId channel := by
      refine forall₃_congr fun row _ _ => ⟨fun roomy => roomy channel connects, ?_⟩
      intro roomy channel' connects'
      exact Option.some.inj (connects.2.1.symm.trans connects'.2.1) ▸ roomy
    rw [only]
    cases found : t.states.find userId with
    | none =>
      refine iff_of_true (fun _ _ => unchanged_of_free found) ?_
      intro row other
      cases other
    | some row =>
      obtain ⟨t₁, left, channels, settings, states⟩ := leaveChannel_eq e found
      have free := free_of_left states
      rw [found] at joined
      dsimp only at joined
      by_cases same : row.channelId = channelId
      · rw [if_pos same] at joined
        refine iff_of_true ?_ ?_
        · intro y t' failed
          rw [joined] at failed
          cases failed
          exact .refl
        · intro row' other apart
          cases other
          exact absurd same apart
      · rw [if_neg same, left] at joined
        have enters := joinWithin_eq e channel free
        rw [roomy_congr settings (states ▸ others_delete)] at enters
        constructor
        · intro unchanged row' _ _
          by_contra full
          obtain ⟨y, refused⟩ := enters.2 full
          exact not_unchanged found free (unchanged y t₁ (joined.trans refused))
        · intro roomy y t' failed
          obtain ⟨state, t'', entered⟩ := enters.1 (roomy row rfl same)
          have both := entered.symm.trans (joined.symm.trans failed)
          cases both

theorem move_unchanged_iff :
    (∀ x t', t.moveToChannel e userId channelId = (.error x, t') → Unchanged userId t t') ↔
      Safe e t (.move userId channelId) := by
  rw [Tables.moveToChannel]
  cases found : t.states.find userId with
  | none =>
    refine iff_of_true (fun _ _ => unchanged_of_free found) ?_
    intro row other
    rw [found] at other
    cases other
  | some row =>
    obtain ⟨t₁, left, channels, settings, states⟩ := leaveChannel_eq e found
    have free := free_of_left states
    have outcome := joinChannel_of_free e channelId free
    rw [admits_left channels settings states] at outcome
    rw [left]
    constructor
    · intro unchanged row' _
      by_contra refuses
      obtain ⟨x, refused⟩ := outcome.2 refuses
      exact not_unchanged found free (unchanged x t₁ refused)
    · intro admitted x t' failed
      obtain ⟨state, t'', joined⟩ := outcome.1 (admitted row found)
      have both := joined.symm.trans failed
      cases both

end Requests

/-- A call that fails has changed nothing exactly where it fails before the user leaves: where the
user is in no other channel, or is let in. -/
theorem unchanged_iff {e : Env} {t : Tables} {r : Request} :
    (∀ x t', r.run e t = (.error x, t') → Unchanged r.userId t t') ↔ Safe e t r := by
  cases r with
  | join userId channelId => exact join_unchanged_iff
  | move userId channelId => exact move_unchanged_iff

section Lounge

def lounge (id : Nat) : ServerChannel := ⟨id, 1, "voice".toList, false⟩

def seated (userId channelId : Nat) : VoiceState :=
  ⟨userId, channelId, 1, false, false, false, false, false, false, false, 100, 100⟩

theorem lounges_unique : ([lounge 1, lounge 2].map ServerChannel.id).Nodup := by decide

theorem seats_unique : ([seated 7 1, seated 8 2].map VoiceState.userId).Nodup := by decide

def evening : Tables where
  channels := ⟨[lounge 1, lounge 2], lounges_unique⟩
  settings := ⟨[⟨2, 1⟩], List.nodup_singleton _⟩
  states := ⟨[seated 7 1, seated 8 2], seats_unique⟩
  requests := ⟨[⟨1, 7, 1, 150⟩], List.nodup_singleton _⟩
  calls := ⟨[⟨1, 1, 100, none⟩], List.nodup_singleton _⟩

def members : Env where
  userExists := fun _ => true
  hasPermission := some fun _ _ permission _ => permission = "voice.connect".toList
  callManager := true
  now := 200
  newCallId := 2
  crowded := false

/-- A join of a full channel and a move to a channel that is not there. -/
theorem unchanged_iff_left :
    (∃ x t', (Request.join 7 2).run members evening = (.error x, t') ∧ ¬Unchanged 7 evening t' ∧
      t'.states.find 7 = none ∧ t'.requests.rows = [] ∧
      (t'.calls.rows.filter fun c => c.endedAt = none) = []) ∧
    ∃ x t', (Request.move 7 3).run members evening = (.error x, t') ∧ ¬Unchanged 7 evening t' ∧
      t'.states.find 7 = none ∧ t'.requests.rows = [] ∧
      (t'.calls.rows.filter fun c => c.endedAt = none) = [] := by
  have here : evening.states.find 7 = some (seated 7 1) := rfl
  exact ⟨⟨_, _, rfl, not_unchanged here rfl, rfl, rfl, rfl⟩,
    ⟨_, _, rfl, not_unchanged here rfl, rfl, rfl, rfl⟩⟩

end Lounge

end Plexichat.Voice
