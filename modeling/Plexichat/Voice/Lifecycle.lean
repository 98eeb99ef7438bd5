import Plexichat.Library.Transition
import Plexichat.Voice.Channels

/-! core/voice/manager: a moderator moves a member or disconnects one, and members who have been
away too long are put into the AFK channel. What runs of all these calls keep: the call of a channel
lasts as long as somebody is in it, and no channel holds more than its limit. -/
namespace Plexichat.Voice
open Transition

/-- voice_server_settings -/
structure ServerSettings where
  serverId : Nat
  afkChannelId : Option Nat
  afkTimeout : Nat

abbrev ServerTable := Table ServerSettings ServerSettings.serverId

def getServerSettings (servers : ServerTable) (serverId : Nat) : ServerSettings :=
  (servers.find serverId).getD ⟨serverId, none, 300⟩

inductive ModerationError where
  | channel (error : Error)
  | accessDenied

namespace Tables

variable (e : Env) (t : Tables)

/-- A member's row after the UPDATE of `move_member`. -/
def moveRow (channelId : Nat) (channel : ServerChannel) (s : VoiceState) : VoiceState :=
  { s with
    channelId := channelId
    serverId := channel.serverId
    suppress := channel.channelType = "stage".toList
    lastActivity := e.now }

theorem moveRow_userId (channelId : Nat) (channel : ServerChannel) (s : VoiceState) :
    (moveRow e channelId channel s).userId = s.userId := rfl

/-- The two statements of `move_member`. -/
def moveState (channelId : Nat) (channel : ServerChannel) (state : VoiceState) : Tables :=
  { t with
    requests := t.requests.delete fun r => r.userId = state.userId ∧ r.channelId = state.channelId
    states := t.states.update (fun s => s.userId = state.userId) (moveRow e channelId channel)
      (moveRow_userId e channelId channel) }

def moveMember (moderatorId targetUserId channelId : Nat) : Result VoiceState :=
  match t.getServerChannel e channelId with
  | none => (.error (.channelNotFound channelId), t)
  | some channel =>
    if channel.channelType ≠ "voice".toList ∧ channel.channelType ≠ "stage".toList then
      (.error (.channelType channel.channelType), t)
    else if !e.checkPermission moderatorId channel.serverId "voice.move_members".toList none then
      (.error (.permissionDenied "voice.move_members".toList), t)
    else match t.states.find targetUserId with
      | none => (.error (.userNotInChannel targetUserId), t)
      | some state =>
        let limit := t.userLimit channelId
        let count := t.getChannelUserCount channelId
        if !e.checkPermission targetUserId channel.serverId "voice.connect".toList
            (some channelId) then (.error (.permissionDenied "voice.connect".toList), t)
        else if 0 < limit ∧ state.channelId ≠ channelId ∧ limit ≤ count then
          (.error (.channelFull limit count), t)
        else
          let moved := t.moveState e channelId channel state
          (.ok (moveRow e channelId channel state), if state.channelId = channelId then moved
            else (moved.onMemberLeft e state.channelId).onMemberJoined e channelId)

def disconnectMember (moderatorId targetUserId serverId : Nat) :
    Except ModerationError Unit × Tables :=
  if !e.checkPermission moderatorId serverId "voice.move_members".toList none then
    (.error (.channel (.permissionDenied "voice.move_members".toList)), t)
  else match t.states.find targetUserId with
    | none => (.error (.channel (.userNotInChannel targetUserId)), t)
    | some state =>
      if state.serverId ≠ serverId then (.error .accessDenied, t)
      else (.ok (), (t.withoutUser targetUserId).onMemberLeft e state.channelId)

/-- `check_afk_timeout`, which tells no call manager -/
def checkAfkTimeout (servers : ServerTable) (userId : Nat) : Option VoiceState × Tables :=
  match t.states.find userId with
  | none => (none, t)
  | some state =>
    let settings := getServerSettings servers state.serverId
    match settings.afkChannelId.filter (· ≠ 0) with
    | none => (none, t)
    | some afkChannelId =>
      if state.channelId = afkChannelId then (none, t)
      else if state.lastActivity + settings.afkTimeout * 1000 ≤ e.now then
        let away : VoiceState := ⟨userId, afkChannelId, state.serverId, false, false, false, false,
          true, false, false, e.now, e.now⟩
        let left := t.withoutUser userId
        (some away, { left with states := left.states.insertOrIgnore away })
      else (none, t)

end Tables

inductive Call where
  | request (request : Request)
  | leave (userId : Nat)
  | moveMember (moderatorId targetUserId channelId : Nat)
  | disconnectMember (moderatorId targetUserId serverId : Nat)
  | checkAfkTimeout (servers : ServerTable) (userId : Nat)

def Call.run (e : Env) (t : Tables) : Call → Tables
  | request r => (r.run e t).2
  | leave userId => (t.leaveChannel e userId).2
  | moveMember moderatorId targetUserId channelId =>
    (t.moveMember e moderatorId targetUserId channelId).2
  | disconnectMember moderatorId targetUserId serverId =>
    (t.disconnectMember e moderatorId targetUserId serverId).2
  | checkAfkTimeout servers userId => (t.checkAfkTimeout e servers userId).2

def step (t : Tables) (a : Env × Call) : Option Tables := some (a.2.run a.1 t)

def Tables.others (t : Tables) (userId channelId : Nat) : Nat :=
  (t.states.rows.filter fun s => s.channelId = channelId ∧ s.userId ≠ userId).length

def Tables.activeCalls (t : Tables) (channelId : Nat) : Nat :=
  (t.calls.rows.filter fun c => c.channelId = channelId ∧ c.endedAt = none).length

/-- A channel has one call that has not ended while somebody is in it, and none while nobody is. -/
def CallsFollow (t : Tables) : Prop :=
  ∀ channelId, t.activeCalls channelId = if t.getChannelUserCount channelId = 0 then 0 else 1

def WithinLimits (t : Tables) : Prop :=
  ∀ channelId, 0 < t.userLimit channelId → t.getChannelUserCount channelId ≤ t.userLimit channelId

/-- Whom the call puts into an AFK channel leaves somebody behind and meets somebody there. -/
def Accompanied (e : Env) (t : Tables) : Call → Prop
  | .checkAfkTimeout servers userId => ∀ row away, t.states.find userId = some row →
      (t.checkAfkTimeout e servers userId).1 = some away →
        t.others userId row.channelId ≠ 0 ∧ t.getChannelUserCount away.channelId ≠ 0
  | _ => True

def Limited (e : Env) (t : Tables) : Call → Prop
  | .request r => ∀ serverId,
      e.checkPermission r.userId serverId "voice.move_members".toList none = false
  | .checkAfkTimeout servers userId => ∀ away,
      (t.checkAfkTimeout e servers userId).1 = some away →
        t.userLimit away.channelId ≤ 0 ∨
          t.getChannelUserCount away.channelId < t.userLimit away.channelId
  | _ => True

section Counting

variable {e : Env} {t : Tables} {userId : Nat} {row : VoiceState} {channel : ServerChannel}

theorem count_of_found (found : t.states.find userId = some row) (channelId : Nat) :
    t.getChannelUserCount channelId =
      t.others userId channelId + if row.channelId = channelId then 1 else 0 := by
  let inside := t.states.delete fun s => s.channelId ≠ channelId
  have all : inside.rows = t.states.rows.filter fun s => s.channelId = channelId := by
    simp [inside, Table.delete]
  have others : (inside.delete fun s => s.userId = userId).rows =
      t.states.rows.filter fun s => s.channelId = channelId ∧ s.userId ≠ userId := by
    rw [Table.delete]
    simp only [all, List.filter_filter]
    exact List.filter_congr fun s _ => by simp [Bool.and_comm]
  have here : (inside.find userId).isSome = decide (row.channelId = channelId) := by
    rw [Table.find_delete, found]
    by_cases same : row.channelId = channelId <;> simp [same]
  have total := inside.length_delete userId
  rw [others, here, all] at total
  simpa [Tables.getChannelUserCount, Tables.others] using total.symm

theorem joined_fields (t : Tables) (channelId : Nat) :
    (t.onMemberJoined e channelId).settings = t.settings ∧
      (t.onMemberJoined e channelId).states = t.states := by
  unfold Tables.onMemberJoined
  split
  · split <;> exact ⟨rfl, rfl⟩
  · exact ⟨rfl, rfl⟩

theorem count_withoutUser (t : Tables) (userId channelId : Nat) :
    (t.withoutUser userId).getChannelUserCount channelId = t.others userId channelId :=
  (count_eq_others (free_of_left (t := t) rfl)).trans (congrArg List.length others_delete)

theorem count_left (t : Tables) (left channelId : Nat) :
    (t.onMemberLeft e left).getChannelUserCount channelId = t.getChannelUserCount channelId := by
  rw [Tables.getChannelUserCount, (onMemberLeft_fields t left).2.2, Tables.getChannelUserCount]

theorem count_joined (t : Tables) (joined channelId : Nat) :
    (t.onMemberJoined e joined).getChannelUserCount channelId = t.getChannelUserCount channelId := by
  rw [Tables.getChannelUserCount, (joined_fields t joined).2, Tables.getChannelUserCount]

theorem count_inserted (free : t.states.find userId = none) {state : VoiceState}
    (own : state.userId = userId) (channelId : Nat) :
    ({ t with states := t.states.insertOrIgnore state } : Tables).getChannelUserCount channelId =
      t.getChannelUserCount channelId + if state.channelId = channelId then 1 else 0 := by
  rw [Tables.getChannelUserCount]
  dsimp only
  rw [Table.rows_insertOrIgnore (own ▸ free), List.filter_append, List.length_append,
    Tables.getChannelUserCount]
  by_cases same : state.channelId = channelId <;> simp [same]

theorem count_moveState (found : t.states.find userId = some row) (joined channelId : Nat) :
    (t.moveState e joined channel row).getChannelUserCount channelId =
      t.others userId channelId + if joined = channelId then 1 else 0 := by
  obtain rfl : row.userId = userId := (Table.find_eq_some.mp found).2
  have states : (t.moveState e joined channel row).states = t.states.update
      (fun s => s.userId = row.userId) (Tables.moveRow e joined channel)
      (Tables.moveRow_userId e joined channel) := rfl
  have there : (t.moveState e joined channel row).states.find row.userId =
      some (Tables.moveRow e joined channel row) := by
    rw [states, Table.find_update, found, Option.map_some, if_pos (decide_eq_true rfl)]
  have moved : (Tables.moveRow e joined channel row).channelId = joined := rfl
  rw [count_of_found there, Tables.others, states, moved]
  simp only [Table.update, List.filter_map, List.length_map]
  congr 2
  apply List.filter_congr
  intro s _
  by_cases own : s.userId = row.userId
  · simp [own, Tables.moveRow]
  · simp [own]

theorem activeCall_cases (t : Tables) (channelId : Nat) :
    t.activeCall channelId = none ∧ t.activeCalls channelId = 0 ∨
      ∃ call ∈ t.calls, t.activeCall channelId = some call ∧ call.channelId = channelId ∧
        call.endedAt = none := by
  have newest : ∀ (l : List VoiceCall) (best : Option VoiceCall),
      (l.foldl (fun best c => if best.all fun b => b.startedAt < c.startedAt then some c else best)
        best = none ∧ best = none ∧ l = []) ∨
      ∃ call, l.foldl (fun best c => if best.all fun b => b.startedAt < c.startedAt then some c
        else best) best = some call ∧ (best = some call ∨ call ∈ l) := by
    intro l
    induction l with
    | nil => intro best; cases best <;> simp
    | cons c l ih =>
      intro best
      simp only [List.foldl_cons]
      split
      · obtain ⟨-, impossible, -⟩ | ⟨call, last, first | inside⟩ := ih (some c)
        · cases impossible
        · exact .inr ⟨call, last, .inr (by cases first; exact List.mem_cons_self)⟩
        · exact .inr ⟨call, last, .inr (List.mem_cons_of_mem _ inside)⟩
      · rename_i earlier
        obtain ⟨-, none, -⟩ | ⟨call, last, first | inside⟩ := ih best
        · simp [none] at earlier
        · exact .inr ⟨call, last, .inl first⟩
        · exact .inr ⟨call, last, .inr (List.mem_cons_of_mem _ inside)⟩
  obtain ⟨none, -, empty⟩ | ⟨call, found, impossible | inside⟩ := newest
    (t.calls.rows.filter fun c => c.channelId = channelId ∧ c.endedAt = none) none
  · exact .inl ⟨none, by rw [Tables.activeCalls, empty, List.length_nil]⟩
  · cases impossible
  · obtain ⟨member, active⟩ := List.mem_filter.mp inside
    obtain ⟨same, going⟩ := of_decide_eq_true active
    exact .inr ⟨call, member, found, same, going⟩

/-- The call is the only one of its channel that has not ended, and the only one under its number. -/
theorem activeCalls_endCall {call : VoiceCall} (member : call ∈ t.calls)
    (going : call.endedAt = none) (one : t.activeCalls call.channelId ≤ 1) (now channelId : Nat) :
    (t.endCall now call.id).activeCalls channelId =
      if channelId = call.channelId then 0 else t.activeCalls channelId := by
  have ended : (t.endCall now call.id).activeCalls channelId =
      (t.calls.rows.filter fun c =>
        (c.channelId = channelId ∧ c.endedAt = none) ∧ c.id ≠ call.id).length := by
    rw [Tables.activeCalls, Tables.endCall, Table.update, List.filter_map, List.length_map]
    congr 1
    apply List.filter_congr
    intro c _
    by_cases own : c.id = call.id <;> simp [own]
  rw [ended]
  split
  · rename_i same
    subst same
    have listed : call ∈ t.calls.rows.filter fun c =>
        c.channelId = call.channelId ∧ c.endedAt = none :=
      List.mem_filter.mpr ⟨member, decide_eq_true ⟨rfl, going⟩⟩
    obtain ⟨x, single⟩ :=
      List.length_eq_one_iff.mp (Nat.le_antisymm one (List.length_pos_of_mem listed))
    rw [List.length_eq_zero_iff, List.filter_eq_nil_iff]
    intro c inside alive
    obtain ⟨active, other⟩ := of_decide_eq_true alive
    have also : c ∈ t.calls.rows.filter fun c =>
        c.channelId = call.channelId ∧ c.endedAt = none :=
      List.mem_filter.mpr ⟨inside, decide_eq_true active⟩
    rw [single, List.mem_singleton] at listed also
    exact other (congrArg VoiceCall.id (also.trans listed.symm))
  · rename_i other
    rw [Tables.activeCalls]
    congr 1
    apply List.filter_congr
    intro c inside
    have apart : c.channelId = channelId → c.id ≠ call.id := fun there same =>
      other (there ▸ congrArg VoiceCall.channelId (Table.eq_of_key inside member same))
    by_cases there : c.channelId = channelId
    · simp [there, apart there]
    · simp [there]

theorem activeCalls_left (manager : e.callManager = true) {left : Nat}
    (one : t.activeCalls left ≤ 1) (channelId : Nat) :
    (t.onMemberLeft e left).activeCalls channelId =
      if channelId = left ∧ t.getChannelUserCount left = 0 then 0 else t.activeCalls channelId := by
  rw [Tables.onMemberLeft, if_pos manager]
  obtain ⟨absent, no_call⟩ | ⟨call, member, found, rfl, going⟩ := activeCall_cases t left
  · simp only [absent]
    split
    · rename_i both
      rw [both.1, no_call]
    · rfl
  simp only [found]
  by_cases empty : t.getChannelUserCount call.channelId = 0
  · simp only [empty, and_true, if_true]
    exact activeCalls_endCall member going one e.now channelId
  · simp [empty]

theorem activeCalls_joined (manager : e.callManager = true)
    (fresh : t.calls.find e.newCallId = none) (joined channelId : Nat) :
    (t.onMemberJoined e joined).activeCalls channelId =
      if channelId = joined ∧ t.activeCalls joined = 0 then 1 else t.activeCalls channelId := by
  rw [Tables.onMemberJoined, if_pos manager]
  obtain ⟨absent, no_call⟩ | ⟨call, member, found, here, going⟩ := activeCall_cases t joined
  · have rows : (t.calls.insertOrIgnore ⟨e.newCallId, joined, e.now, none⟩).rows =
        t.calls.rows ++ [⟨e.newCallId, joined, e.now, none⟩] := Table.rows_insertOrIgnore fresh
    simp only [absent]
    rw [Tables.activeCalls, rows, List.filter_append, List.length_append, ← Tables.activeCalls]
    by_cases same : channelId = joined
    · subst same
      simp [no_call]
    · simp [same, Ne.symm same]
  · have some_call : t.activeCalls joined ≠ 0 := Nat.ne_of_gt
      (List.length_pos_of_mem (List.mem_filter.mpr ⟨member, decide_eq_true ⟨here, going⟩⟩))
    simp [found, some_call]

end Counting

section Requests

variable {e : Env} {t : Tables} {userId : Nat}

def Fits (e : Env) (t : Tables) (userId : Nat) (channel : ServerChannel) : Prop :=
  t.userLimit channel.id ≤ 0 ∨ t.getChannelUserCount channel.id < t.userLimit channel.id ∨
    e.checkPermission userId channel.serverId "voice.move_members".toList none = true

theorem joinWithin_cases (e : Env) (t : Tables) (userId : Nat) (channel : ServerChannel) :
    (t.joinWithin e userId channel).2 = t ∨
      t.joinWithin e userId channel = t.enter e userId channel ∧ Fits e t userId channel := by
  unfold Tables.joinWithin Fits
  dsimp only
  by_cases bounded : 0 < t.userLimit channel.id
  · rw [if_pos bounded]
    by_cases full : t.userLimit channel.id ≤ t.getChannelUserCount channel.id
    · rw [if_pos full]
      by_cases override : e.checkPermission userId channel.serverId "voice.move_members".toList none
      · exact .inr ⟨if_pos override, .inr (.inr override)⟩
      · exact .inl (by rw [if_neg override])
    · rw [if_neg full]
      by_cases crowded : e.crowded
      · exact .inl (by rw [if_pos crowded])
      · exact .inr ⟨if_neg crowded, .inr (.inl (Int.not_le.mp full))⟩
  · exact .inr ⟨if_neg bounded, .inl (Int.not_lt.mp bounded)⟩

theorem leaveChannel_keeps {P : Tables → Prop} (start : P t)
    (left : ∀ row, t.states.find userId = some row →
      P ((t.withoutUser userId).onMemberLeft e row.channelId)) : P (t.leaveChannel e userId).2 := by
  unfold Tables.leaveChannel
  cases found : t.states.find userId with
  | none => exact start
  | some row => exact left row found

theorem disconnectMember_keeps {P : Tables → Prop} {moderatorId serverId : Nat} (start : P t)
    (left : ∀ row, t.states.find userId = some row →
      P ((t.withoutUser userId).onMemberLeft e row.channelId)) :
    P (t.disconnectMember e moderatorId userId serverId).2 := by
  unfold Tables.disconnectMember
  split
  · exact start
  · cases found : t.states.find userId with
    | none => exact start
    | some row =>
      dsimp only
      split
      · exact start
      · exact left row found

/-- What a user's leaving keeps, and entering then turns into `I`, is `I` after each request. -/
theorem request_keeps {P I : Tables → Prop} {r : Request} (kept : ∀ t, P t → I t)
    (left : ∀ t row, P t → t.states.find r.userId = some row →
      P ((t.withoutUser r.userId).onMemberLeft e row.channelId))
    (entered : ∀ t channel, P t → t.states.find r.userId = none → Fits e t r.userId channel →
      I (t.enter e r.userId channel).2) (start : P t) : I (r.run e t).2 := by
  have within : ∀ t channel, P t → t.states.find r.userId = none →
      I (t.joinWithin e r.userId channel).2 := by
    intro t channel holds free
    rcases joinWithin_cases e t r.userId channel with same | ⟨enters, fits⟩
    · rw [same]
      exact kept t holds
    · rw [enters]
      exact entered t channel holds free fits
  have leaves : ∀ (t : Tables) row, t.states.find r.userId = some row →
      t.leaveChannel e r.userId = (.ok (), (t.withoutUser r.userId).onMemberLeft e row.channelId) ∧
        ((t.withoutUser r.userId).onMemberLeft e row.channelId).states.find r.userId = none := by
    intro t row found
    refine ⟨by rw [Tables.leaveChannel, found], ?_⟩
    rw [(onMemberLeft_fields _ _).2.2]
    exact free_of_left (t := t) rfl
  have join : ∀ t channelId, P t → I (t.joinChannel e r.userId channelId).2 := by
    intro t channelId holds
    rcases joinChannel_eq e t r.userId channelId with ⟨x, refused, -⟩ | ⟨channel, -, joined⟩
    · rw [refused]
      exact kept t holds
    · rw [joined]
      cases found : t.states.find r.userId with
      | none => exact within t channel holds found
      | some row =>
        obtain ⟨gone, free⟩ := leaves t row found
        dsimp only
        split
        · exact kept t holds
        · rw [gone]
          exact within _ channel (left t row holds found) free
  cases r with
  | join userId channelId => exact join t channelId start
  | move userId channelId =>
    rw [Request.run, Tables.moveToChannel]
    cases found : t.states.find userId with
    | none => exact join t channelId start
    | some row =>
      have gone : t.leaveChannel e userId = _ := (leaves t row found).1
      rw [gone]
      exact join _ channelId (left t row start found)

theorem moveMember_cases (e : Env) (t : Tables) (moderatorId targetUserId channelId : Nat) :
    (t.moveMember e moderatorId targetUserId channelId).2 = t ∨
      ∃ row moved, t.states.find targetUserId = some row ∧ moved.calls = t.calls ∧
        moved.settings = t.settings ∧
        (∀ c, moved.getChannelUserCount c =
          t.others targetUserId c + if channelId = c then 1 else 0) ∧
        (row.channelId = channelId ∨ t.userLimit channelId ≤ 0 ∨
          t.getChannelUserCount channelId < t.userLimit channelId) ∧
        (t.moveMember e moderatorId targetUserId channelId).2 =
          if row.channelId = channelId then moved
          else (moved.onMemberLeft e row.channelId).onMemberJoined e channelId := by
  unfold Tables.moveMember
  split
  · exact .inl rfl
  rename_i channel _
  split
  · exact .inl rfl
  split
  · exact .inl rfl
  split
  · exact .inl rfl
  rename_i row found
  dsimp only
  split
  · exact .inl rfl
  split
  · exact .inl rfl
  rename_i full
  refine .inr ⟨row, t.moveState e channelId channel row, found, rfl, rfl,
    count_moveState found channelId, ?_, rfl⟩
  by_contra none_of
  obtain ⟨apart, bounded, above⟩ := not_or.mp none_of |>.imp_right not_or.mp
  exact full ⟨Int.not_le.mp bounded, apart, Int.not_lt.mp above⟩

theorem checkAfkTimeout_cases (e : Env) (t : Tables) (servers : ServerTable) (userId : Nat) :
    t.checkAfkTimeout e servers userId = (none, t) ∨
      ∃ row away t', t.checkAfkTimeout e servers userId = (some away, t') ∧
        t.states.find userId = some row ∧ row.channelId ≠ away.channelId ∧ t'.calls = t.calls ∧
        t'.settings = t.settings ∧ ∀ c, t'.getChannelUserCount c =
          t.others userId c + if away.channelId = c then 1 else 0 := by
  unfold Tables.checkAfkTimeout
  split
  · exact .inl rfl
  rename_i row found
  dsimp only
  split
  · exact .inl rfl
  split
  · exact .inl rfl
  rename_i apart
  split
  · refine .inr ⟨row, _, _, rfl, found, apart, rfl, rfl, fun c => ?_⟩
    rw [← count_withoutUser]
    exact count_inserted (free_of_left (t := t) rfl) rfl c
  · exact .inl rfl

end Requests

section Follow

variable {e : Env} {t : Tables} {userId : Nat} {row : VoiceState} {channel : ServerChannel}

theorem CallsFollow.le (follow : CallsFollow t) (channelId : Nat) : t.activeCalls channelId ≤ 1 := by
  rw [follow channelId]
  split <;> omega

theorem fresh_left {k : Nat} (fresh : t.calls.find k = none) (left : Nat) :
    (t.onMemberLeft e left).calls.find k = none := by
  unfold Tables.onMemberLeft
  split
  · split
    · exact fresh
    · split
      · rw [Tables.endCall, Table.find_update, fresh, Option.map_none]
      · exact fresh
  · exact fresh

theorem left_follows (manager : e.callManager = true) (follow : CallsFollow t)
    (found : t.states.find userId = some row) :
    CallsFollow ((t.withoutUser userId).onMemberLeft e row.channelId) := by
  intro channelId
  have same : ∀ c, (t.withoutUser userId).activeCalls c = t.activeCalls c := fun _ => rfl
  have one : (t.withoutUser userId).activeCalls row.channelId ≤ 1 := follow.le row.channelId
  rw [activeCalls_left manager one, count_left, count_withoutUser, count_withoutUser, same,
    follow channelId, count_of_found found channelId]
  by_cases here : channelId = row.channelId
  · subst here
    by_cases alone : t.others userId row.channelId = 0 <;> simp [alone]
  · simp [here, Ne.symm here]

theorem entered_follows (manager : e.callManager = true) (fresh : t.calls.find e.newCallId = none)
    (follow : CallsFollow t) (free : t.states.find userId = none) :
    CallsFollow (t.enter e userId channel).2 := by
  intro channelId
  have active : (t.enter e userId channel).2.activeCalls channelId =
      if channelId = channel.id ∧ t.activeCalls channel.id = 0 then 1 else t.activeCalls channelId :=
    activeCalls_joined manager (by exact fresh) channel.id channelId
  rw [active, Tables.enter, count_joined, count_inserted free rfl, follow channelId,
    follow channel.id]
  by_cases here : channelId = channel.id
  · subst here
    by_cases empty : t.getChannelUserCount channel.id = 0 <;> simp [empty]
  · simp [here, Ne.symm here]

theorem moved_follows (manager : e.callManager = true) (fresh : t.calls.find e.newCallId = none)
    (follow : CallsFollow t) (moderatorId targetUserId channelId : Nat) :
    CallsFollow (t.moveMember e moderatorId targetUserId channelId).2 := by
  obtain same | ⟨row, moved, found, calls, -, count, -, result⟩ :=
    moveMember_cases e t moderatorId targetUserId channelId
  · rw [same]
    exact follow
  have active : ∀ c, moved.activeCalls c = t.activeCalls c := fun c => by
    rw [Tables.activeCalls, calls, Tables.activeCalls]
  rw [result]
  intro c
  by_cases stays : row.channelId = channelId
  · rw [if_pos stays, active, count, ← stays, ← count_of_found found c]
    exact follow c
  · have one : moved.activeCalls row.channelId ≤ 1 := active row.channelId ▸ follow.le row.channelId
    rw [if_neg stays, activeCalls_joined manager (fresh_left (calls ▸ fresh) _), count_joined,
      count_left, activeCalls_left manager one, activeCalls_left manager one, count, count, active,
      active, follow c, follow channelId, count_of_found found c, count_of_found found channelId]
    by_cases old : c = row.channelId
    · subst old
      by_cases alone : t.others targetUserId row.channelId = 0 <;> simp [alone, stays, Ne.symm stays]
    · by_cases new : c = channelId
      · subst new
        by_cases empty : t.others targetUserId c = 0 <;> simp [empty, stays, Ne.symm stays]
      · simp [old, new, Ne.symm old, Ne.symm new]

/-- A call that finds a working call manager keeps the calls with the members exactly when it takes
nobody alone into an AFK channel. -/
theorem follows_iff (manager : e.callManager = true) (fresh : t.calls.find e.newCallId = none)
    (follow : CallsFollow t) (c : Call) : CallsFollow (c.run e t) ↔ Accompanied e t c := by
  cases c with
  | request r =>
    refine iff_of_true ?_ trivial
    exact request_keeps (P := fun t => CallsFollow t ∧ t.calls.find e.newCallId = none)
      (fun _ holds => holds.1)
      (fun _ _ holds found => ⟨left_follows manager holds.1 found, fresh_left (by exact holds.2) _⟩)
      (fun _ _ holds free _ => entered_follows manager holds.2 holds.1 free) ⟨follow, fresh⟩
  | leave userId =>
    exact iff_of_true (leaveChannel_keeps follow fun _ => left_follows manager follow) trivial
  | moveMember moderatorId targetUserId channelId =>
    exact iff_of_true (moved_follows manager fresh follow moderatorId targetUserId channelId)
      trivial
  | disconnectMember moderatorId targetUserId serverId =>
    exact iff_of_true (disconnectMember_keeps follow fun _ => left_follows manager follow) trivial
  | checkAfkTimeout servers userId =>
    simp only [Call.run, Accompanied]
    obtain nothing | ⟨row, away, t', put, found, apart, calls, -, count⟩ :=
      checkAfkTimeout_cases e t servers userId
    · rw [nothing]
      exact iff_of_true follow fun _ _ _ none => by cases none
    · have active : ∀ c, t'.activeCalls c = t.activeCalls c := fun c => by
        rw [Tables.activeCalls, calls, Tables.activeCalls]
      have before := fun c => (follow c).symm.trans (active c).symm
      have counted := fun c => count_of_found found c
      rw [put]
      constructor
      · intro after row' away' found' put'
        cases found.symm.trans found'
        cases put'
        have old := after row.channelId
        have new := after away.channelId
        rw [← before, counted, count, if_pos rfl, if_neg apart.symm] at old
        rw [← before, count, if_pos rfl] at new
        constructor
        · intro alone
          simp [alone] at old
        · intro empty
          simp [empty] at new
      · intro accompanied c
        obtain ⟨others, some_there⟩ := accompanied row away found rfl
        rw [← before, count, counted]
        rw [counted, if_neg apart, Nat.add_zero] at some_there
        by_cases old : row.channelId = c
        · subst old
          simp [others, apart.symm]
        · by_cases new : away.channelId = c
          · subst new
            simp [old, some_there]
          · simp [old, new]

/-- In a run of such calls a channel has one call that has not ended while somebody is in it, and
none while nobody is. -/
theorem calls_follow (run : Guarded step (fun t a => a.1.callManager = true ∧
    t.calls.find a.1.newCallId = none ∧ Accompanied a.1 t a.2) CallsFollow t) : CallsFollow t := by
  refine guarded_invariant (fun _ follow => follow) ?_ run
  rintro s ⟨e, c⟩ s' follow ⟨manager, fresh, accompanied⟩ next
  cases next
  exact (follows_iff manager fresh follow c).mpr accompanied

def phoneBox : Tables :=
  { evening with states := ⟨[seated 7 1], List.nodup_singleton _⟩ }

theorem phoneBox_follows : CallsFollow phoneBox := by
  intro channelId
  by_cases here : 1 = channelId
  · subst here
    rfl
  · simp [Tables.activeCalls, Tables.getChannelUserCount, phoneBox, evening, seated, here]

/-- The user hangs up. -/
theorem calls_follow_hang_up : CallsFollow ((Call.leave 7).run members phoneBox) :=
  calls_follow (.step (a := (members, .leave 7)) (.start phoneBox_follows) ⟨rfl, rfl, trivial⟩ rfl)

end Follow

section Limits

variable {e : Env} {t t' : Tables}

theorem WithinLimits.change (within : WithinLimits t) (settings : t'.settings = t.settings)
    (count : ∀ c, t'.getChannelUserCount c ≤ t.getChannelUserCount c ∨ t.userLimit c ≤ 0 ∨
      t'.getChannelUserCount c ≤ t.userLimit c) : WithinLimits t' := by
  intro channelId bounded
  have limit : t'.userLimit channelId = t.userLimit channelId := by
    rw [Tables.userLimit, settings, Tables.userLimit]
  rw [limit] at bounded ⊢
  have before := within channelId bounded
  have after := count channelId
  omega

theorem left_within (within : WithinLimits t) {userId : Nat} {row : VoiceState}
    (found : t.states.find userId = some row) :
    WithinLimits ((t.withoutUser userId).onMemberLeft e row.channelId) := by
  refine within.change (onMemberLeft_fields _ _).2.1 fun c => .inl ?_
  rw [count_left, count_withoutUser, count_of_found found c]
  exact Nat.le_add_right ..

theorem limited_run (within : WithinLimits t) (c : Call) (limited : Limited e t c) :
    WithinLimits (c.run e t) := by
  cases c with
  | request r =>
    refine request_keeps (P := WithinLimits) (fun _ within => within)
      (fun _ _ within found => left_within within found) ?_ within
    intro t channel within free fits
    refine within.change (joined_fields _ _).1 fun c => ?_
    rw [Tables.enter, count_joined, count_inserted free rfl]
    split
    · rename_i here
      subst here
      rcases fits with unlimited | room | override
      · exact .inr (.inl unlimited)
      · exact .inr (.inr (by push_cast; omega))
      · rw [limited] at override
        cases override
    · exact .inl (Nat.le_refl _)
  | leave userId => exact leaveChannel_keeps within fun _ => left_within within
  | moveMember moderatorId targetUserId channelId =>
    simp only [Call.run]
    obtain same | ⟨row, moved, found, -, settings, count, room, result⟩ :=
      moveMember_cases e t moderatorId targetUserId channelId
    · rw [same]
      exact within
    · have fits : WithinLimits moved := within.change settings fun c => by
        rw [count, count_of_found found c]
        by_cases here : channelId = c
        · subst here
          rcases room with stays | unlimited | room
          · exact .inl (by simp [stays])
          · exact .inr (.inl unlimited)
          · rw [count_of_found found] at room
            simp only [if_true]
            omega
        · exact .inl (by simp [here])
      rw [result]
      split
      · exact fits
      · exact fits.change ((joined_fields _ _).1.trans (onMemberLeft_fields _ _).2.1) fun c =>
          .inl (Nat.le_of_eq (by rw [count_joined, count_left]))
  | disconnectMember moderatorId targetUserId serverId =>
    exact disconnectMember_keeps within fun _ => left_within within
  | checkAfkTimeout servers userId =>
    simp only [Call.run]
    obtain nothing | ⟨row, away, t', put, found, apart, -, settings, count⟩ :=
      checkAfkTimeout_cases e t servers userId
    · rw [nothing]
      exact within
    · have room := limited away (by rw [put])
      rw [put]
      refine within.change settings fun c => ?_
      rw [count, count_of_found found c]
      by_cases here : away.channelId = c
      · subst here
        rw [count_of_found found, if_neg apart] at room
        simp only [apart, if_false, if_true]
        omega
      · exact .inl (by simp [here])

/-- No channel comes to hold more than its limit in a run in which nobody overrides it. -/
theorem within_limits (run : Guarded step (fun t a => Limited a.1 t a.2) WithinLimits t) :
    WithinLimits t := by
  refine guarded_invariant (fun _ within => within) ?_ run
  rintro s ⟨e, c⟩ s' within limited next
  cases next
  exact limited_run within c limited

/-- A join of a channel of one seat that is taken. -/
theorem within_limits_full : WithinLimits ((Call.request (.join 7 2)).run members evening) := by
  have within : WithinLimits evening := by
    intro channelId bounded
    by_cases here : 2 = channelId
    · subst here
      decide
    · simp [Tables.userLimit, evening, Table.find, here] at bounded
  exact within_limits (.step (a := (members, .request (.join 7 2))) (.start within)
    (fun _ => rfl) rfl)

end Limits

end Plexichat.Voice
