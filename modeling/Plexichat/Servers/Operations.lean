import Plexichat.Servers.Members
import Plexichat.Servers.Resolution

/-! All operations behind one step function, and what a successful one does to
the tables. -/
namespace Plexichat.Servers
open Checks

inductive Operation where
  | createServer (ids : ServerIds) (ownerId : Nat) (name : String)
  | deleteServer (userId serverId : Nat)
  | transferOwnership (userId serverId newOwnerId : Nat)
  | addMember (memberId serverId userId : Nat) (inviterId : Option Nat) (temporary : Bool)
  | useInvite (memberId userId : Nat) (code : String)
  | kickMember (userId serverId memberUserId : Nat)
  | banMember (userId serverId memberUserId deleteMessageDays : Nat)
  | unbanMember (userId serverId bannedUserId : Nat)
  | removeMember (userId serverId : Nat)
  | purgeTemporaryMembers (userId : Nat)
  | updateMember (userId serverId memberUserId : Nat) (changes : MemberChanges)
  | issueInvite (invite : InviteRow)
  | deleteInvite (userId : Nat) (code : String)
  | createRole (roleId userId serverId : Nat) (name : String) (permissions : Option PermissionDict)
  | updateRole (userId roleId : Nat) (changes : RoleChanges)
  | deleteRole (userId roleId : Nat)
  | moveRole (userId roleId : Nat) (position : Int)
  | assignRole (userId serverId memberUserId roleId : Nat)
  | removeRole (userId serverId memberUserId roleId : Nat)
  | setChannelOverride (userId channelId : Nat) (targetType : String) (targetId : Nat)
      (allow deny : Option PermissionDict)
  | deleteChannelOverride (userId channelId : Nat) (targetType : String) (targetId : Nat)

def perform (cfg : Config) (rd : Reader) (now : Nat) (db : Database) : Operation → Outcome Database
  | .createServer ids ownerId name => createServer cfg db ids ownerId name
  | .deleteServer userId serverId => deleteServer db userId serverId
  | .transferOwnership userId serverId newOwnerId => transferOwnership db userId serverId newOwnerId
  | .addMember memberId serverId userId inviterId temporary =>
    addMember rd db memberId serverId userId inviterId temporary
  | .useInvite memberId userId code => useInvite rd db now memberId userId code
  | .kickMember userId serverId memberUserId => kickMember rd db userId serverId memberUserId
  | .banMember userId serverId memberUserId deleteMessageDays =>
    banMember rd db userId serverId memberUserId deleteMessageDays
  | .unbanMember userId serverId bannedUserId => unbanMember rd db userId serverId bannedUserId
  | .removeMember userId serverId => removeMember rd db userId serverId
  | .purgeTemporaryMembers userId => .ok (purgeTemporaryMembers db userId)
  | .updateMember userId serverId memberUserId changes =>
    updateMember rd db userId serverId memberUserId changes
  | .issueInvite invite => issueInvite db invite
  | .deleteInvite userId code => deleteInvite rd db userId code
  | .createRole roleId userId serverId name permissions =>
    createRole cfg rd db roleId userId serverId name permissions
  | .updateRole userId roleId changes => updateRole cfg rd db userId roleId changes
  | .deleteRole userId roleId => deleteRole rd db userId roleId
  | .moveRole userId roleId position => moveRole rd db userId roleId position
  | .assignRole userId serverId memberUserId roleId =>
    assignRole rd db userId serverId memberUserId roleId
  | .removeRole userId serverId memberUserId roleId =>
    removeRole rd db userId serverId memberUserId roleId
  | .setChannelOverride userId channelId targetType targetId allow deny =>
    setChannelOverride rd db userId channelId targetType targetId allow deny
  | .deleteChannelOverride userId channelId targetType targetId =>
    deleteChannelOverride rd db userId channelId targetType targetId

def Database.expel (db : Database) (m : MemberRow) : Database :=
  (db.deleteMemberRoles m.id).deleteMember m.serverId m.userId

def everyoneRole (ids : ServerIds) : RoleRow :=
  { id := ids.role, serverId := ids.server, name := "@everyone",
    permissions := defaultEveryonePermissions, position := 0, isDefault := true, deleted := false }

theorem memberRow_eq_some {db : Database} {serverId userId : Nat} {m : MemberRow}
    (h : db.memberRow serverId userId = some m) :
    m ∈ db.members ∧ m.serverId = serverId ∧ m.userId = userId := by
  have key := List.find?_some h
  simp only [Bool.and_eq_true, decide_eq_true_eq] at key
  exact ⟨List.mem_of_find?_eq_some h, key⟩

theorem liveServer_eq_some {db : Database} {serverId : Nat} {s : ServerRow} :
    db.liveServer serverId = some s ↔ s ∈ db.servers ∧ s.id = serverId ∧ s.deleted = false := by
  unfold Database.liveServer
  rw [Option.filter_eq_some_iff, Table.find_eq_some, Bool.not_eq_true', and_assoc]

theorem getServer_eq_some {db : Database} {serverId userId : Nat} {s : ServerRow}
    (h : db.getServer serverId userId = some s) :
    db.isMember serverId userId = true ∧ db.liveServer serverId = some s := by
  unfold Database.getServer at h
  split at h
  · rename_i member
    exact ⟨member, h⟩
  · cases h

theorem getMember_eq_some {db : Database} {serverId userId : Nat} {member : Member}
    (h : db.getMember serverId userId = some member) :
    ∃ m, db.memberRow serverId userId = some m ∧ m.toMember = member := Option.map_eq_some_iff.mp h

/-- One successful operation other than the purge, as a change of the tables. The
facts it has checked come along. -/
inductive Change (db : Database) : Database → Prop where
  | serverCreated (ids : ServerIds) (ownerId : Nat) (name : String)
      {servers roles members memberRoles channels}
      (hs : db.servers.insert ⟨ids.server, name, ownerId, false⟩ = some servers)
      (hr : db.roles.insert (everyoneRole ids) = some roles)
      (hm : db.members.insert (plainMember ids.member ids.server ownerId none false) = some members)
      (ha : db.memberRoles.insert ⟨ids.member, ids.role⟩ = some memberRoles)
      (hc : db.channels.insert ⟨ids.channel, ids.server, false⟩ = some channels) :
      Change db { db with servers, roles, members, memberRoles, channels }
  | serverDeleted (serverId : Nat) :
      Change db (db.updateServer serverId fun s => { s with deleted := true })
  | transferred (serverId newOwnerId : Nat) (member : db.isMember serverId newOwnerId = true) :
      Change db (db.updateServer serverId fun s => { s with ownerId := newOwnerId })
  | joined (m : MemberRow) {members memberRoles invites}
      (banned : db.isBanned m.serverId m.userId = false)
      (live : (db.liveServer m.serverId).isSome = true)
      (fresh : db.isMember m.serverId m.userId = false)
      (hm : db.members.insert m = some members)
      (ha : memberRoles = db.memberRoles ∨ ∃ r, db.defaultRole m.serverId = some r ∧
        db.memberRoles.insert ⟨m.id, r.id⟩ = some memberRoles) :
      Change db { db with members, memberRoles, invites }
  | expelled (m : MemberRow) (s : ServerRow)
      (member : db.memberRow m.serverId m.userId = some m)
      (live : db.liveServer m.serverId = some s) (other : s.ownerId ≠ m.userId) :
      Change db (db.expel m)
  | bannedMember (m : MemberRow) (s : ServerRow) (ban : BanRow) {bans}
      (member : db.memberRow m.serverId m.userId = some m)
      (live : db.liveServer m.serverId = some s) (other : s.ownerId ≠ m.userId)
      (key : ban.key = (m.serverId, m.userId)) (hb : db.bans.insert ban = some bans) :
      Change db { db.expel m with bans }
  | bannedOutsider (ban : BanRow) (s : ServerRow) {bans}
      (outsider : db.isMember ban.serverId ban.userId = false)
      (live : db.liveServer ban.serverId = some s) (hb : db.bans.insert ban = some bans) :
      Change db { db with bans }
  | unbanned (p : BanRow → Bool) : Change db { db with bans := db.bans.delete p }
  | memberUpdated (serverId userId : Nat) (changes : MemberChanges) :
      Change db (db.updateMembers (fun m => m.serverId = serverId && m.userId = userId)
        changes.apply)
  | invitesChanged (invites) : Change db { db with invites }
  | roleCreated (r : RoleRow) {roles} (hr : db.roles.insert r = some roles) :
      Change db { db with roles }
  | roleUpdated (roleId : Nat) (f : RoleRow → RoleRow)
      (same : ∀ r, (f r).serverId = r.serverId) : Change db (db.updateRoleRow roleId f)
  | roleDeleted (roleId : Nat) :
      Change db ((db.updateRoleRow roleId fun r => { r with deleted := true }).deleteAssignments
        fun a => a.roleId = roleId)
  | assigned (m : MemberRow) (r : RoleRow) {memberRoles}
      (member : m ∈ db.members) (role : r ∈ db.roles) (server : r.serverId = m.serverId)
      (ha : db.memberRoles.insert ⟨m.id, r.id⟩ = some memberRoles) :
      Change db { db with memberRoles }
  | unassigned (p : MemberRole → Bool) : Change db (db.deleteAssignments p)
  | overridesChanged (overrides) : Change db { db with overrides }
  | unchanged : Change db db

section Results

variable {cfg : Config} {rd : Reader} {db db' : Database}

theorem createServer_ok {ids : ServerIds} {ownerId : Nat} {name : String}
    (h : createServer cfg db ids ownerId name = .ok db') :
    ∃ valid servers roles members memberRoles channels,
      db.servers.insert ⟨ids.server, valid, ownerId, false⟩ = some servers ∧
      db.roles.insert (everyoneRole ids) = some roles ∧
      db.members.insert (plainMember ids.member ids.server ownerId none false) = some members ∧
      db.memberRoles.insert ⟨ids.member, ids.role⟩ = some memberRoles ∧
      db.channels.insert ⟨ids.channel, ids.server, false⟩ = some channels ∧
      db' = { db with servers, roles, members, memberRoles, channels } := by
  obtain ⟨valid, _, h⟩ := returned_bind h
  simp only [ensure_bind_eq_ok] at h
  obtain ⟨_, h⟩ := h
  obtain ⟨db₁, h₁, h⟩ := returned_bind h
  obtain ⟨db₂, h₂, h⟩ := returned_bind h
  obtain ⟨db₃, h₃, h⟩ := returned_bind h
  obtain ⟨db₄, h₄, h⟩ := returned_bind h
  simp only [Database.insertServer, found_bind_eq_ok, pure_eq_ok] at h₁
  obtain ⟨servers, hs, rfl⟩ := h₁
  simp only [Database.insertRole, found_bind_eq_ok, pure_eq_ok] at h₂
  obtain ⟨roles, hr, rfl⟩ := h₂
  simp only [Database.insertMember, found_bind_eq_ok, pure_eq_ok] at h₃
  obtain ⟨members, hm, rfl⟩ := h₃
  simp only [Database.insertMemberRole, found_bind_eq_ok, pure_eq_ok] at h₄
  obtain ⟨memberRoles, ha, rfl⟩ := h₄
  simp only [Database.insertChannel, found_bind_eq_ok, pure_eq_ok] at h
  obtain ⟨channels, hc, rfl⟩ := h
  exact ⟨valid, servers, roles, members, memberRoles, channels, hs, hr, hm, ha, hc, rfl⟩

theorem createServer_change {ids : ServerIds} {ownerId : Nat} {name : String}
    (h : createServer cfg db ids ownerId name = .ok db') : Change db db' := by
  obtain ⟨valid, _, _, _, _, _, hs, hr, hm, ha, hc, rfl⟩ := createServer_ok h
  exact .serverCreated ids ownerId valid hs hr hm ha hc

theorem deleteServer_change {userId serverId : Nat} (h : deleteServer db userId serverId = .ok db') :
    Change db db' := by
  simp only [deleteServer, found_bind_eq_ok, ensure_bind_eq_ok, pure_eq_ok] at h
  obtain ⟨_, _, _, rfl⟩ := h
  exact .serverDeleted serverId

theorem transferOwnership_ok {userId serverId newOwnerId : Nat}
    (h : transferOwnership db userId serverId newOwnerId = .ok db') :
    db.ownerOf serverId = some userId ∧ db.isMember serverId newOwnerId = true ∧
      db' = db.updateServer serverId fun s => { s with ownerId := newOwnerId } := by
  simp only [transferOwnership, found_bind_eq_ok, ensure_bind_eq_ok, pure_eq_ok] at h
  obtain ⟨server, seen, rfl, member, rfl⟩ := h
  refine ⟨?_, member, rfl⟩
  rw [Database.ownerOf, (getServer_eq_some seen).2]
  rfl

structure Joined (db db' : Database) (m : MemberRow) : Prop where
  banned : db.isBanned m.serverId m.userId = false
  live : (db.liveServer m.serverId).isSome = true
  fresh : db.isMember m.serverId m.userId = false
  rows : ∃ members memberRoles invites, db.members.insert m = some members ∧
    (memberRoles = db.memberRoles ∨ ∃ r, db.defaultRole m.serverId = some r ∧
      db.memberRoles.insert ⟨m.id, r.id⟩ = some memberRoles) ∧
    db' = { db with members, memberRoles, invites }

theorem addMember_ok {invites} {memberId serverId userId : Nat} {inviterId : Option Nat}
    {temporary : Bool}
    (h : addMember rd { db with invites } memberId serverId userId inviterId temporary = .ok db') :
    Joined db db' (plainMember memberId serverId userId inviterId temporary) := by
  simp only [addMember, ensure_bind_eq_ok] at h
  obtain ⟨banned, _, live, fresh, h⟩ := h
  obtain ⟨joined, h₁, h⟩ := returned_bind h
  simp only [Database.insertMember, found_bind_eq_ok, pure_eq_ok] at h₁
  obtain ⟨members, hm, rfl⟩ := h₁
  refine ⟨banned, live, fresh, members, ?_⟩
  split at h
  · rename_i role everyone
    simp only [Database.insertMemberRole, found_bind_eq_ok, pure_eq_ok] at h
    obtain ⟨memberRoles, ha, rfl⟩ := h
    exact ⟨memberRoles, invites, hm, .inr ⟨role, everyone, ha⟩, rfl⟩
  · simp only [pure_eq_ok] at h
    subst h
    exact ⟨db.memberRoles, invites, hm, .inl rfl, rfl⟩

theorem useInvite_ok {now memberId userId : Nat} {code : String}
    (h : useInvite rd db now memberId userId code = .ok db') :
    ∃ invite, db.invites.find code = some invite ∧ Joined db db'
      (plainMember memberId invite.serverId userId (some invite.inviterId) invite.temporary) := by
  simp only [useInvite, found_bind_eq_ok, ensure_bind_eq_ok, Option.filter_eq_some_iff] at h
  obtain ⟨invite, ⟨found, _⟩, _, _, joined⟩ := h
  exact ⟨invite, found, addMember_ok joined⟩

theorem Joined.change {m : MemberRow} (h : Joined db db' m) : Change db db' := by
  obtain ⟨members, memberRoles, invites, hm, ha, rfl⟩ := h.rows
  exact .joined m h.banned h.live h.fresh hm ha

structure Expellable (db : Database) (serverId userId : Nat) (m : MemberRow) (s : ServerRow) :
    Prop where
  row : db.memberRow serverId userId = some m
  live : db.liveServer serverId = some s
  other : s.ownerId ≠ userId

theorem Expellable.change {serverId userId : Nat} {m : MemberRow} {s : ServerRow}
    (h : Expellable db serverId userId m s) : Change db (db.expel m) := by
  obtain ⟨_, rfl, rfl⟩ := memberRow_eq_some h.row
  exact .expelled m s h.row h.live h.other

theorem kickMember_ok (truth : rd.member = db.getMember) {userId serverId memberUserId : Nat}
    (h : kickMember rd db userId serverId memberUserId = .ok db') :
    ∃ m s, Expellable db serverId memberUserId m s ∧ db' = db.expel m := by
  simp only [kickMember, found_bind_eq_ok, ensure_bind_eq_ok, Reader.requirePermission,
    pure_eq_ok, truth] at h
  obtain ⟨server, seen, other, member, found, _, _, rfl⟩ := h
  obtain ⟨m, row, rfl⟩ := getMember_eq_some found
  refine ⟨m, server, ⟨row, (getServer_eq_some seen).2, other⟩, ?_⟩
  obtain ⟨_, rfl, rfl⟩ := memberRow_eq_some row
  rfl

theorem removeMember_ok (truth : rd.member = db.getMember) {userId serverId : Nat}
    (h : removeMember rd db userId serverId = .ok db') :
    ∃ m s, Expellable db serverId userId m s ∧ db' = db.expel m := by
  simp only [removeMember, found_bind_eq_ok, ensure_bind_eq_ok, pure_eq_ok, truth] at h
  obtain ⟨server, seen, other, member, found, rfl⟩ := h
  obtain ⟨m, row, rfl⟩ := getMember_eq_some found
  refine ⟨m, server, ⟨row, (getServer_eq_some seen).2, other⟩, ?_⟩
  obtain ⟨_, rfl, rfl⟩ := memberRow_eq_some row
  rfl

theorem banMember_ok (truth : rd.member = db.getMember)
    {userId serverId memberUserId deleteMessageDays : Nat}
    (h : banMember rd db userId serverId memberUserId deleteMessageDays = .ok db') :
    ∃ bans, db.bans.insert ⟨serverId, memberUserId, userId⟩ = some bans ∧
      ((∃ m s, Expellable db serverId memberUserId m s ∧ db' = { db.expel m with bans }) ∨
        (db.isMember serverId memberUserId = false ∧ (∃ s, db.liveServer serverId = some s) ∧
          db' = { db with bans })) := by
  simp only [banMember, found_bind_eq_ok, ensure_bind_eq_ok, Reader.requirePermission, truth] at h
  obtain ⟨server, seen, _, other, _, _, h⟩ := h
  have live := (getServer_eq_some seen).2
  split at h
  · rename_i member found
    simp only [ensure_bind_eq_ok, Database.insertBan, found_bind_eq_ok, pure_eq_ok] at h
    obtain ⟨_, bans, hb, rfl⟩ := h
    obtain ⟨m, row, rfl⟩ := getMember_eq_some found
    refine ⟨bans, hb, .inl ⟨m, server, ⟨row, live, other⟩, ?_⟩⟩
    obtain ⟨_, rfl, rfl⟩ := memberRow_eq_some row
    rfl
  · rename_i absent
    simp only [Database.insertBan, found_bind_eq_ok, pure_eq_ok] at h
    obtain ⟨bans, hb, rfl⟩ := h
    refine ⟨bans, hb, .inr ⟨?_, ⟨server, live⟩, rfl⟩⟩
    unfold Database.isMember
    rw [Option.map_eq_none_iff.mp absent]
    rfl

theorem unbanMember_ok {userId serverId bannedUserId : Nat}
    (h : unbanMember rd db userId serverId bannedUserId = .ok db') :
    ∃ p, db' = { db with bans := db.bans.delete p } := by
  simp only [unbanMember, ensure_bind_eq_ok, Reader.requirePermission, pure_eq_ok] at h
  obtain ⟨_, _, _, _, rfl⟩ := h
  exact ⟨_, rfl⟩

theorem updateMember_eq {userId serverId memberUserId : Nat} {changes : MemberChanges}
    (h : updateMember rd db userId serverId memberUserId changes = .ok db') :
    db' = db.updateMembers (fun m => m.serverId = serverId && m.userId = memberUserId)
      changes.apply := by
  simp only [updateMember, found_bind_eq_ok] at h
  obtain ⟨_, _, h⟩ := h
  obtain ⟨_, _, h⟩ := returned_bind h
  split at h
  · obtain ⟨_, _, h⟩ := returned_bind h
    obtain ⟨_, _, h⟩ := returned_bind h
    obtain ⟨_, _, h⟩ := returned_bind h
    obtain ⟨_, _, h⟩ := returned_bind h
    exact (pure_eq_ok.mp h).symm
  · obtain ⟨_, _, h⟩ := returned_bind h
    obtain ⟨_, _, h⟩ := returned_bind h
    obtain ⟨_, _, h⟩ := returned_bind h
    exact (pure_eq_ok.mp h).symm

theorem issueInvite_ok {invite : InviteRow} (h : issueInvite db invite = .ok db') :
    ∃ invites, db' = { db with invites } := by
  simp only [issueInvite, found_bind_eq_ok, pure_eq_ok] at h
  obtain ⟨invites, _, rfl⟩ := h
  exact ⟨invites, rfl⟩

theorem deleteInvite_ok {userId : Nat} {code : String}
    (h : deleteInvite rd db userId code = .ok db') : ∃ invites, db' = { db with invites } := by
  simp only [deleteInvite, found_bind_eq_ok] at h
  obtain ⟨_, _, h⟩ := h
  split at h
  · simp only [found_bind_eq_ok] at h
    obtain ⟨_, _, h⟩ := h
    obtain ⟨_, _, h⟩ := returned_bind h
    exact ⟨_, (pure_eq_ok.mp h).symm⟩
  · exact ⟨_, (pure_eq_ok.mp h).symm⟩

theorem grantable_of_ok {editor : Permissions} {requested : PermissionDict} {x : PUnit}
    (h : checkPermissionsGrantable editor requested = .ok x) {p : String}
    (asked : PermissionDict.has requested p = true) : editor.has p = true := by
  have entry := (forM_eq_ok.mp h) (p, true) (has_iff_mem.mp asked)
  exact ensure_eq_ok.mp entry rfl

theorem createRole_ok {roleId userId serverId : Nat} {name : String}
    {permissions : Option PermissionDict}
    (h : createRole cfg rd db roleId userId serverId name permissions = .ok db') :
    ∃ r roles, r.id = roleId ∧ r.serverId = serverId ∧ db.roles.insert r = some roles ∧
      db' = { db with roles } := by
  simp only [createRole, Reader.requirePermission, ensure_bind_eq_ok] at h
  obtain ⟨_, h⟩ := h
  obtain ⟨_, _, h⟩ := returned_bind h
  obtain ⟨_, _, h⟩ := returned_bind h
  obtain ⟨_, _, h⟩ := returned_bind h
  simp only [ensure_bind_eq_ok, Database.insertRole, found_bind_eq_ok, pure_eq_ok] at h
  obtain ⟨_, roles, hr, rfl⟩ := h
  exact ⟨_, roles, rfl, rfl, hr, rfl⟩

theorem getRole_eq_some {roleId userId : Nat} {role : RoleRow}
    (h : db.getRole roleId userId = some role) :
    role ∈ db.roles ∧ role.id = roleId ∧ role.deleted = false := by
  obtain ⟨found, live⟩ := Option.filter_eq_some_iff.mp h
  simp only [Bool.and_eq_true, Bool.not_eq_true'] at live
  exact ⟨(Table.find_eq_some.mp found).1, (Table.find_eq_some.mp found).2, live.1⟩

theorem updateRole_ok {userId roleId : Nat} {changes : RoleChanges}
    (h : updateRole cfg rd db userId roleId changes = .ok db') :
    ∃ role name, db.getRole roleId userId = some role ∧
      (∀ d, changes.permissions = some d → ∀ p, PermissionDict.has d p = true →
        (rd.permissions userId role.serverId 0).has p = true) ∧
      (changes.name = none → name = none) ∧
      db' = db.updateRoleRow roleId (changes.apply name) := by
  simp only [updateRole, found_bind_eq_ok, Reader.requirePermission, ensure_bind_eq_ok] at h
  obtain ⟨role, seen, _, _, h⟩ := h
  obtain ⟨_, granted, h⟩ := returned_bind h
  obtain ⟨_, _, h⟩ := returned_bind h
  obtain ⟨name, named, h⟩ := returned_bind h
  refine ⟨role, name, seen, ?_, ?_, (pure_eq_ok.mp h).symm⟩
  · intro d given p asked
    rw [given, checkNewPermissions] at granted
    obtain ⟨_, _, grantable⟩ := returned_bind granted
    exact grantable_of_ok grantable asked
  · intro unnamed
    rw [unnamed, checkNewName] at named
    exact (Except.ok.inj named).symm

theorem deleteRole_ok {userId roleId : Nat} (h : deleteRole rd db userId roleId = .ok db') :
    ∃ role, db.getRole roleId userId = some role ∧
      db' = (db.updateRoleRow roleId fun r => { r with deleted := true }).deleteAssignments
        fun a => a.roleId = roleId := by
  simp only [deleteRole, found_bind_eq_ok, Reader.requirePermission, ensure_bind_eq_ok,
    pure_eq_ok] at h
  obtain ⟨role, seen, _, _, _, rfl⟩ := h
  exact ⟨role, seen, rfl⟩

theorem moveRole_ok {userId roleId : Nat} {position : Int}
    (h : moveRole rd db userId roleId position = .ok db') :
    ∃ role, db.getRole roleId userId = some role ∧
      db' = db.updateRoleRow roleId fun r => { r with position } := by
  simp only [moveRole, found_bind_eq_ok, Reader.requirePermission, ensure_bind_eq_ok,
    pure_eq_ok] at h
  obtain ⟨role, seen, _, _, _, _, rfl⟩ := h
  exact ⟨role, seen, rfl⟩

theorem assignRole_ok {userId serverId memberUserId roleId : Nat}
    (h : assignRole rd db userId serverId memberUserId roleId = .ok db') :
    ∃ role member, db.getRole roleId userId = some role ∧ role.serverId = serverId ∧
      rd.member serverId memberUserId = some member ∧
      (∀ p, PermissionDict.has role.permissions p = true →
        (rd.permissions userId serverId 0).has p = true) ∧
      ((∃ a, db.memberRoles.find ⟨member.id, roleId⟩ = some a) ∧ db' = db ∨
        ∃ memberRoles, db.memberRoles.insert ⟨member.id, roleId⟩ = some memberRoles ∧
          db' = { db with memberRoles }) := by
  simp only [assignRole, found_bind_eq_ok, Reader.requirePermission, ensure_bind_eq_ok,
    Option.filter_eq_some_iff, decide_eq_true_eq] at h
  obtain ⟨_, role, ⟨seen, server⟩, member, found, _, h⟩ := h
  obtain ⟨_, _, h⟩ := returned_bind h
  obtain ⟨_, grantable, h⟩ := returned_bind h
  refine ⟨role, member, seen, server, found, fun p => grantable_of_ok grantable, ?_⟩
  split at h
  · rename_i held
    exact .inl ⟨Option.isSome_iff_exists.mp held, (pure_eq_ok.mp h).symm⟩
  · simp only [Database.insertMemberRole, found_bind_eq_ok, pure_eq_ok] at h
    obtain ⟨memberRoles, ha, rfl⟩ := h
    exact .inr ⟨memberRoles, ha, rfl⟩

theorem removeRole_ok {userId serverId memberUserId roleId : Nat}
    (h : removeRole rd db userId serverId memberUserId roleId = .ok db') :
    ∃ member, rd.member serverId memberUserId = some member ∧
      db' = db.deleteAssignments fun a => a.memberId = member.id && a.roleId = roleId := by
  simp only [removeRole, found_bind_eq_ok, Reader.requirePermission, ensure_bind_eq_ok,
    pure_eq_ok] at h
  obtain ⟨_, _, _, _, member, found, _, rfl⟩ := h
  exact ⟨member, found, rfl⟩

theorem setChannelOverride_ok {userId channelId : Nat} {targetType : String} {targetId : Nat}
    {allow deny : Option PermissionDict}
    (h : setChannelOverride rd db userId channelId targetType targetId allow deny = .ok db') :
    ∃ channel overrides, rd.getChannel db channelId userId = some channel ∧
      db' = { db with overrides } ∧ ∀ key, overrides.find key =
        if key = (channelId, targetType, targetId) then
          some ⟨channelId, targetType, targetId, allow.getD Table.empty, deny.getD Table.empty⟩
        else db.overrides.find key := by
  simp only [setChannelOverride, found_bind_eq_ok, Reader.requirePermission,
    ensure_bind_eq_ok] at h
  obtain ⟨channel, seen, _, h⟩ := h
  split at h
  · rename_i existing
    obtain ⟨o, stored⟩ := Option.isSome_iff_exists.mp existing
    have stored' : db.overrides.find (channelId, targetType, targetId) = some o := stored
    have key := (Table.find_eq_some.mp stored').2
    simp only [pure_eq_ok] at h
    subst h
    refine ⟨channel, _, seen, rfl, ?_⟩
    intro k
    rw [Table.find_update]
    by_cases same : k = (channelId, targetType, targetId)
    · subst same
      rw [stored', if_pos rfl, Option.map_some, if_pos (decide_eq_true key)]
      obtain ⟨_, _, _, _, _⟩ := o
      simp only [OverrideRow.key, Prod.mk.injEq] at key
      obtain ⟨rfl, rfl, rfl⟩ := key
      rfl
    · rw [if_neg same]
      cases e : db.overrides.find k with
      | none => rfl
      | some q =>
        have apart : q.key ≠ (channelId, targetType, targetId) :=
          (Table.find_eq_some.mp e).2.trans_ne same
        rw [Option.map_some, if_neg (by simpa using apart)]
  · simp only [Database.insertOverride, found_bind_eq_ok, pure_eq_ok] at h
    obtain ⟨overrides, inserted, rfl⟩ := h
    refine ⟨channel, overrides, seen, rfl, ?_⟩
    intro k
    rw [Table.find_insert inserted]
    simp only [OverrideRow.key, eq_comm]

theorem deleteChannelOverride_ok {userId channelId : Nat} {targetType : String} {targetId : Nat}
    (h : deleteChannelOverride rd db userId channelId targetType targetId = .ok db') :
    ∃ channel overrides, rd.getChannel db channelId userId = some channel ∧
      db' = { db with overrides } ∧ ∀ key, overrides.find key =
        if key = (channelId, targetType, targetId) then none else db.overrides.find key := by
  simp only [deleteChannelOverride, found_bind_eq_ok, Reader.requirePermission,
    ensure_bind_eq_ok, pure_eq_ok] at h
  obtain ⟨channel, seen, _, rfl⟩ := h
  refine ⟨channel, _, seen, rfl, ?_⟩
  intro k
  rw [Table.find_delete]
  by_cases same : k = (channelId, targetType, targetId)
  · rw [if_pos same]
    apply Option.filter_eq_none_iff.mpr
    intro o stored
    simp [(Table.find_eq_some.mp stored).2, same]
  · rw [if_neg same]
    cases e : db.overrides.find k with
    | none => rfl
    | some o =>
      have key := (Table.find_eq_some.mp e).2
      simp [Option.filter, key, same]

end Results

theorem perform_change {cfg : Config} {rd : Reader} {now : Nat} {db db' : Database}
    {op : Operation} (truth : rd.member = db.getMember)
    (h : perform cfg rd now db op = .ok db') :
    Change db db' ∨ ∃ userId, op = .purgeTemporaryMembers userId ∧
      db' = purgeTemporaryMembers db userId := by
  cases op with
  | createServer ids ownerId name => exact .inl (createServer_change h)
  | deleteServer userId serverId => exact .inl (deleteServer_change h)
  | transferOwnership userId serverId newOwnerId =>
    obtain ⟨_, member, rfl⟩ := transferOwnership_ok h
    exact .inl (.transferred serverId newOwnerId member)
  | addMember memberId serverId userId inviterId temporary =>
    exact .inl (addMember_ok h).change
  | useInvite memberId userId code =>
    obtain ⟨_, _, joined⟩ := useInvite_ok h
    exact .inl joined.change
  | kickMember userId serverId memberUserId =>
    obtain ⟨m, s, expellable, rfl⟩ := kickMember_ok truth h
    exact .inl expellable.change
  | banMember userId serverId memberUserId deleteMessageDays =>
    obtain ⟨bans, hb, result⟩ := banMember_ok truth h
    cases result with
    | inl expelled =>
      obtain ⟨m, s, expellable, rfl⟩ := expelled
      obtain ⟨_, rfl, rfl⟩ := memberRow_eq_some expellable.row
      exact .inl (.bannedMember m s _ expellable.row expellable.live expellable.other rfl hb)
    | inr outside =>
      obtain ⟨outsider, ⟨s, live⟩, rfl⟩ := outside
      exact .inl (.bannedOutsider _ s outsider live hb)
  | unbanMember userId serverId bannedUserId =>
    obtain ⟨p, rfl⟩ := unbanMember_ok h
    exact .inl (.unbanned p)
  | removeMember userId serverId =>
    obtain ⟨m, s, expellable, rfl⟩ := removeMember_ok truth h
    exact .inl expellable.change
  | purgeTemporaryMembers userId => exact .inr ⟨userId, rfl, (Except.ok.inj h).symm⟩
  | updateMember userId serverId memberUserId changes =>
    rw [updateMember_eq h]
    exact .inl (.memberUpdated serverId memberUserId changes)
  | issueInvite invite =>
    obtain ⟨invites, rfl⟩ := issueInvite_ok h
    exact .inl (.invitesChanged invites)
  | deleteInvite userId code =>
    obtain ⟨invites, rfl⟩ := deleteInvite_ok h
    exact .inl (.invitesChanged invites)
  | createRole roleId userId serverId name permissions =>
    obtain ⟨r, roles, _, _, hr, rfl⟩ := createRole_ok h
    exact .inl (.roleCreated r hr)
  | updateRole userId roleId changes =>
    obtain ⟨_, _, _, _, _, rfl⟩ := updateRole_ok h
    exact .inl (.roleUpdated roleId _ fun _ => rfl)
  | deleteRole userId roleId =>
    obtain ⟨_, _, rfl⟩ := deleteRole_ok h
    exact .inl (.roleDeleted roleId)
  | moveRole userId roleId position =>
    obtain ⟨_, _, rfl⟩ := moveRole_ok h
    exact .inl (.roleUpdated roleId _ fun _ => rfl)
  | assignRole userId serverId memberUserId roleId =>
    obtain ⟨role, member, seen, server, found, _, result⟩ := assignRole_ok h
    cases result with
    | inl held => exact .inl (held.2 ▸ .unchanged)
    | inr inserted =>
      obtain ⟨memberRoles, ha, rfl⟩ := inserted
      rw [truth] at found
      obtain ⟨m, row, rfl⟩ := getMember_eq_some found
      obtain ⟨present, there, _⟩ := memberRow_eq_some row
      obtain ⟨known, rfl, _⟩ := getRole_eq_some seen
      exact .inl (.assigned m role present known (server.trans there.symm) ha)
  | removeRole userId serverId memberUserId roleId =>
    obtain ⟨_, _, rfl⟩ := removeRole_ok h
    exact .inl (.unassigned _)
  | setChannelOverride userId channelId targetType targetId allow deny =>
    obtain ⟨_, overrides, _, rfl, _⟩ := setChannelOverride_ok h
    exact .inl (.overridesChanged overrides)
  | deleteChannelOverride userId channelId targetType targetId =>
    obtain ⟨_, overrides, _, rfl, _⟩ := deleteChannelOverride_ok h
    exact .inl (.overridesChanged overrides)

end Plexichat.Servers
