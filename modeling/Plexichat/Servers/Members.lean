import Plexichat.Servers.Roles

/-! handlers/member_handler.py, manager/member_ops.py and the ownership half of
manager/server_ops.py. Conversations, audit log and automod are left out. -/
namespace Plexichat.Servers
open Checks

def defaultEveryonePermissions : PermissionDict where
  rows := ["channels.view", "messages.send", "messages.read", "messages.embed_links",
    "messages.attach_files", "messages.add_reactions", "voice.connect", "voice.speak",
    "invites.create", "messages.export_transcript", "events.view", "threads.create_public",
    "artifact.view", "artifact.create", "artifact.edit", "artifact.delete"].map fun p => (p, true)
  unique := by decide

def validateServerName (cfg : Config) (name : String) : Outcome String := do
  ensure (strip name ≠ "") ⟨.invalidServerName, "Server name cannot be empty"⟩
  ensure (cfg.serverNameMinLength ≤ (strip name).length)
    ⟨.invalidServerName,
      "Server name must be at least " ++ toString cfg.serverNameMinLength ++ " characters"⟩
  ensure ((strip name).length ≤ cfg.serverNameMaxLength)
    ⟨.invalidServerName,
      "Server name too long (max " ++ toString cfg.serverNameMaxLength ++ " characters)"⟩
  return strip name

/-- Deleted servers count towards the cap as well. -/
def Database.ownedServers (db : Database) (ownerId : Nat) : Nat :=
  (db.servers.rows.filter fun s => s.ownerId = ownerId).length

structure ServerIds where
  server : Nat
  role : Nat
  member : Nat
  channel : Nat

def plainMember (id serverId userId : Nat) (inviterId : Option Nat) (isTemporary : Bool) : MemberRow :=
  { id, serverId, userId, nickname := none, muted := false, deafened := false, inviterId,
    timeoutUntil := none, timeoutReason := none, isTemporary }

def createServer (cfg : Config) (db : Database) (ids : ServerIds) (ownerId : Nat) (name : String) :
    Outcome Database := do
  let name ← validateServerName cfg name
  ensure (∀ cap, cfg.serverCap = some cap → db.ownedServers ownerId < cap)
    ⟨.serverLimitReached, "Server limit reached: you may create at most " ++
      toString (cfg.serverCap.getD 0) ++ " servers."⟩
  let db ← db.insertServer ⟨ids.server, name, ownerId, false⟩
  let db ← db.insertRole
    { id := ids.role, serverId := ids.server, name := "@everyone",
      permissions := defaultEveryonePermissions, position := 0, isDefault := true, deleted := false }
  let db ← db.insertMember (plainMember ids.member ids.server ownerId none false)
  let db ← db.insertMemberRole ⟨ids.member, ids.role⟩
  db.insertChannel ⟨ids.channel, ids.server, false⟩

/-- `SELECT id FROM srv_roles WHERE server_id = ? AND is_default = 1`. -/
def Database.defaultRole (db : Database) (serverId : Nat) : Option RoleRow :=
  db.roles.rows.find? fun r => r.serverId = serverId && r.isDefault

def addMember (rd : Reader) (db : Database) (memberId serverId userId : Nat)
    (inviterId : Option Nat) (temporary : Bool) : Outcome Database := do
  ensure (db.isBanned serverId userId = false) ⟨.userBanned, "User is banned from this server"⟩
  ensure (rd.member serverId userId = none)
    ⟨.memberExists, "User is already a member of this server"⟩
  ensure ((db.liveServer serverId).isSome = true) ⟨.serverNotFound, "Server not found"⟩
  ensure (db.isMember serverId userId = false)
    ⟨.integrity, "UNIQUE constraint failed: srv_members.server_id, srv_members.user_id"⟩
  let joined ← db.insertMember (plainMember memberId serverId userId inviterId temporary)
  match db.defaultRole serverId with
  | some role => joined.insertMemberRole ⟨memberId, role.id⟩
  | none => return joined

theorem code_kept (f : Nat → Nat) (i : InviteRow) :
    ({ i with uses := f i.uses } : InviteRow).code = i.code := rfl

namespace Database

/-- `UPDATE srv_invites SET uses = .. WHERE code = ?`. -/
def updateUses (db : Database) (code : String) (f : Nat → Nat) : Database :=
  { db with
    invites := db.invites.update (fun i => i.code = code) (fun i => { i with uses := f i.uses })
      (code_kept f) }

end Database

/-- The conditional UPDATE finds the row that was just checked. When the join is
refused the use is given back, see `uses_given_back`. -/
def useInvite (rd : Reader) (db : Database) (now memberId userId : Nat) (code : String) :
    Outcome Database := do
  let invite ← found ((db.invites.find code).filter fun i => !i.revoked)
    ⟨.inviteNotFound, "Invite not found"⟩
  ensure (∀ t, invite.expiresAt = some t → now < t) ⟨.inviteExpired, "Invite has expired"⟩
  ensure (0 < invite.maxUses → invite.uses < invite.maxUses)
    ⟨.inviteMaxUses, "Invite has reached maximum uses"⟩
  addMember rd (db.updateUses code (· + 1)) memberId invite.serverId userId
    (some invite.inviterId) invite.temporary

def kickMember (rd : Reader) (db : Database) (userId serverId memberUserId : Nat) :
    Outcome Database := do
  let server ← found (db.getServer serverId userId)
    ⟨.permissionDenied, "Not a member of this server"⟩
  ensure (server.ownerId ≠ memberUserId) ⟨.cannotModifyOwner, "Cannot kick the server owner"⟩
  let member ← found (rd.member serverId memberUserId) ⟨.memberNotFound, "Member not found"⟩
  rd.requirePermission userId serverId "members.kick" 0
  ensure (canManageMember (rd.roleRows db serverId userId) (rd.roleRows db serverId memberUserId)
      (server.ownerId = userId) false = true)
    ⟨.roleHierarchy, "Cannot kick a member with equal or higher role"⟩
  return (db.deleteMemberRoles member.id).deleteMember serverId memberUserId

def banMember (rd : Reader) (db : Database) (userId serverId memberUserId deleteMessageDays : Nat) :
    Outcome Database := do
  let server ← found (db.getServer serverId userId)
    ⟨.permissionDenied, "Not a member of this server"⟩
  ensure (deleteMessageDays = 0) ⟨.banPurgeNotSupported,
    "delete_message_days (message purge on ban) is not supported; pass 0"⟩
  ensure (server.ownerId ≠ memberUserId) ⟨.cannotModifyOwner, "Cannot ban the server owner"⟩
  rd.requirePermission userId serverId "members.ban" 0
  ensure (db.isBanned serverId memberUserId = false) ⟨.banExists, "User is already banned"⟩
  match rd.member serverId memberUserId with
  | some member => do
    ensure (canManageMember (rd.roleRows db serverId userId)
        (rd.roleRows db serverId memberUserId) (server.ownerId = userId) false = true)
      ⟨.roleHierarchy, "Cannot ban a member with equal or higher role"⟩
    ((db.deleteMemberRoles member.id).deleteMember serverId memberUserId).insertBan
      ⟨serverId, memberUserId, userId⟩
  | none => db.insertBan ⟨serverId, memberUserId, userId⟩

def unbanMember (rd : Reader) (db : Database) (userId serverId bannedUserId : Nat) :
    Outcome Database := do
  rd.requirePermission userId serverId "members.ban" 0
  let server := db.getServer serverId userId
  let targetIsOwner := server.any fun s => s.ownerId = bannedUserId
  ensure (targetIsOwner = false) ⟨.cannotModifyOwner, "Cannot unban the server owner"⟩
  ensure (canManageMember (rd.roleRows db serverId userId) (rd.roleRows db serverId bannedUserId)
      (server.any fun s => s.ownerId = userId) targetIsOwner = true)
    ⟨.roleHierarchy, "Cannot unban a member with equal or higher role"⟩
  ensure (db.isBanned serverId bannedUserId = true)
    ⟨.banNotFound, "User is not banned from this server"⟩
  return { db with bans := db.bans.delete fun b => b.key = (serverId, bannedUserId) }

def removeMember (rd : Reader) (db : Database) (userId serverId : Nat) : Outcome Database := do
  let server ← found (db.getServer serverId userId) ⟨.serverNotFound, "Server not found"⟩
  ensure (server.ownerId ≠ userId) ⟨.ownerCannotLeave,
    "Owner cannot leave. Transfer ownership first or delete the server."⟩
  let member ← found (rd.member serverId userId) ⟨.memberNotFound, "Not a member of this server"⟩
  return (db.deleteMemberRoles member.id).deleteMember serverId userId

namespace Database

def earned (db : Database) (memberId : Nat) : Bool :=
  db.memberRoles.rows.any fun a =>
    a.memberId = memberId && (db.roles.find a.roleId).any fun r => !r.isDefault

theorem member_id_kept (f : MemberRow → MemberRow) (m : MemberRow) :
    ({ f m with id := m.id } : MemberRow).id = m.id := rfl

def updateMembers (db : Database) (p : MemberRow → Bool) (f : MemberRow → MemberRow) : Database :=
  { db with members := db.members.update p (fun m => { f m with id := m.id }) (member_id_kept f) }

/-- One turn of the loop in `purge_temporary_members`. -/
def purgeRow (db : Database) (m : MemberRow) : Database :=
  if db.earned m.id then
    db.updateMembers (fun n => n.id = m.id) fun n => { n with isTemporary := false }
  else
    { db.deleteMemberRoles m.id with members := db.members.delete fun n => n.id = m.id }

def temporaryRows (db : Database) (userId : Nat) : List MemberRow :=
  db.members.rows.filter fun m => m.userId = userId && m.isTemporary

end Database

def purgeTemporaryMembers (db : Database) (userId : Nat) : Database :=
  (db.temporaryRows userId).foldl Database.purgeRow db

theorem server_id_kept (f : ServerRow → ServerRow) (s : ServerRow) :
    ({ f s with id := s.id } : ServerRow).id = s.id := rfl

def Database.updateServer (db : Database) (serverId : Nat) (f : ServerRow → ServerRow) : Database :=
  { db with
    servers := db.servers.update (fun s => s.id = serverId) (fun s => { f s with id := s.id })
      (server_id_kept f) }

def transferOwnership (db : Database) (userId serverId newOwnerId : Nat) : Outcome Database := do
  let server ← found (db.getServer serverId userId) ⟨.serverNotFound, "Server not found"⟩
  ensure (server.ownerId = userId)
    ⟨.serverAccessDenied, "Only the owner can transfer ownership"⟩
  ensure (db.isMember serverId newOwnerId = true)
    ⟨.memberNotFound, "New owner must be a member of the server"⟩
  return db.updateServer serverId fun s => { s with ownerId := newOwnerId }

def deleteServer (db : Database) (userId serverId : Nat) : Outcome Database := do
  let server ← found (db.getServer serverId userId) ⟨.serverNotFound, "Server not found"⟩
  ensure (server.ownerId = userId)
    ⟨.serverAccessDenied, "Only the owner can delete the server"⟩
  return db.updateServer serverId fun s => { s with deleted := true }

/-- The optional arguments of `update_member`. -/
structure MemberChanges where
  nickname : Option String
  muted : Option Bool
  deafened : Option Bool
  timeoutUntil : Option Nat
  timeoutReason : Option String

namespace MemberChanges

def any (c : MemberChanges) : Bool :=
  c.nickname.isSome || c.muted.isSome || c.deafened.isSome || c.timeoutUntil.isSome ||
    c.timeoutReason.isSome

/-- An empty nickname is stored as NULL. -/
def apply (c : MemberChanges) (m : MemberRow) : MemberRow :=
  { m with
    nickname :=
      match c.nickname with
      | some name => if name = "" then none else some name
      | none => m.nickname
    muted := c.muted.getD m.muted
    deafened := c.deafened.getD m.deafened
    timeoutUntil := c.timeoutUntil.or m.timeoutUntil
    timeoutReason := c.timeoutReason.or m.timeoutReason }

end MemberChanges

/-- Another member is moderated by someone ranked above, the system user 0 apart. -/
def checkModerator (rd : Reader) (db : Database) (userId serverId memberUserId : Nat) :
    Outcome PUnit := do
  let server ← found (db.getServer serverId userId)
    ⟨.permissionDenied, "Not a member of this server"⟩
  ensure (server.ownerId ≠ memberUserId)
    ⟨.cannotModifyOwner, "Cannot moderate the server owner"⟩
  ensure (canManageMember (rd.roleRows db serverId userId) (rd.roleRows db serverId memberUserId)
      (server.ownerId = userId) false = true)
    ⟨.roleHierarchy, "Cannot moderate a member with equal or higher role"⟩

/-- `rd.require_permission`, when the argument that needs it is given. -/
def Reader.requireWhen (rd : Reader) (given : Bool) (userId serverId : Nat) (permission : String) :
    Outcome PUnit :=
  if given then rd.requirePermission userId serverId permission 0 else .ok ⟨⟩

def updateMember (rd : Reader) (db : Database) (userId serverId memberUserId : Nat)
    (changes : MemberChanges) : Outcome Database := do
  let _ ← found (rd.member serverId memberUserId) ⟨.memberNotFound, "Member not found"⟩
  rd.requireWhen (changes.nickname.isSome && userId != memberUserId) userId serverId
    "members.manage_nicknames"
  if userId ≠ memberUserId ∧ userId ≠ 0 ∧ changes.any = true then
    checkModerator rd db userId serverId memberUserId
  rd.requireWhen changes.muted.isSome userId serverId "voice.mute_members"
  rd.requireWhen changes.deafened.isSome userId serverId "voice.deafen_members"
  rd.requireWhen ((changes.timeoutUntil.isSome || changes.timeoutReason.isSome) && userId != 0)
    userId serverId "members.manage_roles"
  return db.updateMembers (fun m => m.serverId = serverId && m.userId = memberUserId) changes.apply

def issueInvite (db : Database) (invite : InviteRow) : Outcome Database := do
  let invites ← found (db.invites.insert invite)
    ⟨.integrity, "UNIQUE constraint failed: srv_invites.code"⟩
  return { db with invites }

theorem revoked_code_kept (i : InviteRow) :
    ({ i with revoked := true } : InviteRow).code = i.code := rfl

def deleteInvite (rd : Reader) (db : Database) (userId : Nat) (code : String) : Outcome Database := do
  let invite ← found ((db.invites.find code).filter fun i => !i.revoked)
    ⟨.inviteNotFound, "Invite not found"⟩
  if invite.inviterId ≠ userId then
    let server ← found (db.getServer invite.serverId userId) ⟨.serverNotFound, "Server not found"⟩
    rd.requireWhen (server.ownerId != userId) userId invite.serverId "invites.manage"
  return { db with
    invites := db.invites.update (fun i => i.code = code && !i.revoked)
      (fun i => { i with revoked := true }) revoked_code_kept }

end Plexichat.Servers
