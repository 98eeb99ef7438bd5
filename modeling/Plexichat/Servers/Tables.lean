import Plexichat.Library.Checks
import Plexichat.Library.Table

/-! The srv_ tables and the queries that the handlers of core/servers share. A
JSON column of permissions is a table of its own, from names to booleans. -/
namespace Plexichat.Servers

abbrev PermissionDict := Table (String × Bool) Prod.fst

structure ServerRow where
  id : Nat
  name : String
  ownerId : Nat
  deleted : Bool

structure RoleRow where
  id : Nat
  serverId : Nat
  name : String
  permissions : PermissionDict
  position : Int
  isDefault : Bool
  deleted : Bool

structure MemberRow where
  id : Nat
  serverId : Nat
  userId : Nat
  nickname : Option String
  muted : Bool
  deafened : Bool
  inviterId : Option Nat
  timeoutUntil : Option Nat
  timeoutReason : Option String
  isTemporary : Bool

/-- A row of srv_member_roles. -/
structure MemberRole where
  memberId : Nat
  roleId : Nat
  deriving DecidableEq

structure ChannelRow where
  id : Nat
  serverId : Nat
  deleted : Bool

structure OverrideRow where
  channelId : Nat
  targetType : String
  targetId : Nat
  allow : PermissionDict
  deny : PermissionDict

def OverrideRow.key (o : OverrideRow) : Nat × String × Nat := (o.channelId, o.targetType, o.targetId)

structure InviteRow where
  code : String
  serverId : Nat
  inviterId : Nat
  maxUses : Nat
  uses : Nat
  temporary : Bool
  expiresAt : Option Nat
  revoked : Bool

structure BanRow where
  serverId : Nat
  userId : Nat
  bannedBy : Nat

def BanRow.key (b : BanRow) : Nat × Nat := (b.serverId, b.userId)

structure Database where
  servers : Table ServerRow ServerRow.id
  roles : Table RoleRow RoleRow.id
  members : Table MemberRow MemberRow.id
  memberRoles : Table MemberRole id
  channels : Table ChannelRow ChannelRow.id
  overrides : Table OverrideRow OverrideRow.key
  invites : Table InviteRow InviteRow.code
  bans : Table BanRow BanRow.key

/-- The exceptions of exceptions.py that the modelled operations raise. -/
inductive ErrorName where
  | serverNotFound | serverAccessDenied | channelNotFound | roleNotFound | roleHierarchy
  | defaultRole | memberNotFound | memberExists | inviteNotFound | inviteExpired | inviteMaxUses
  | banExists | banNotFound | userBanned | invalidServerName | serverLimitReached
  | invalidRoleName | permissionDenied | ownerCannotLeave | cannotModifyOwner
  | invalidPermissionKey | banPurgeNotSupported | integrity
  deriving DecidableEq

structure ServerError where
  name : ErrorName
  message : String

abbrev Outcome := Except ServerError

structure Member where
  id : Nat
  timeoutUntil : Option Nat
  deriving DecidableEq

def MemberRow.toMember (m : MemberRow) : Member := ⟨m.id, m.timeoutUntil⟩

namespace Database

def empty : Database :=
  ⟨Table.empty, Table.empty, Table.empty, Table.empty, Table.empty, Table.empty, Table.empty,
    Table.empty⟩

/-- `SELECT * FROM srv_servers WHERE id = ? AND deleted = 0`. -/
def liveServer (db : Database) (serverId : Nat) : Option ServerRow :=
  (db.servers.find serverId).filter fun s => !s.deleted

def ownerOf (db : Database) (serverId : Nat) : Option Nat :=
  (db.liveServer serverId).map ServerRow.ownerId

/-- `SELECT * FROM srv_members WHERE server_id = ? AND user_id = ?`. -/
def memberRow (db : Database) (serverId userId : Nat) : Option MemberRow :=
  db.members.rows.find? fun m => m.serverId = serverId && m.userId = userId

def isMember (db : Database) (serverId userId : Nat) : Bool := (db.memberRow serverId userId).isSome

/-- `get_member` without its cache. -/
def getMember (db : Database) (serverId userId : Nat) : Option Member :=
  (db.memberRow serverId userId).map MemberRow.toMember

/-- `get_server`: only members see a server. -/
def getServer (db : Database) (serverId userId : Nat) : Option ServerRow :=
  if db.isMember serverId userId then db.liveServer serverId else none

/-- `server is not None and server.owner_id == user_id`. -/
def seesOwnServer (db : Database) (serverId userId : Nat) : Bool :=
  (db.getServer serverId userId).any fun s => s.ownerId = userId

def isBanned (db : Database) (serverId userId : Nat) : Bool :=
  (db.bans.find (serverId, userId)).isSome

def rolesOf (db : Database) (memberId : Nat) : List RoleRow :=
  (db.memberRoles.rows.filter fun a => a.memberId = memberId).filterMap fun a =>
    (db.roles.find a.roleId).filter fun r => !r.deleted

def getRole (db : Database) (roleId userId : Nat) : Option RoleRow :=
  (db.roles.find roleId).filter fun r => !r.deleted && db.isMember r.serverId userId

def override (db : Database) (channelId : Nat) (targetType : String) (targetId : Nat) :
    Option OverrideRow := db.overrides.find (channelId, targetType, targetId)

/-- An INSERT that violates a key of the table raises. -/
def insertMember (db : Database) (row : MemberRow) : Outcome Database := do
  let members ← Checks.found (db.members.insert row)
    ⟨.integrity, "UNIQUE constraint failed: srv_members.id"⟩
  return { db with members }

def insertMemberRole (db : Database) (row : MemberRole) : Outcome Database := do
  let memberRoles ← Checks.found (db.memberRoles.insert row)
    ⟨.integrity, "UNIQUE constraint failed: srv_member_roles.member_id, srv_member_roles.role_id"⟩
  return { db with memberRoles }

def insertRole (db : Database) (row : RoleRow) : Outcome Database := do
  let roles ← Checks.found (db.roles.insert row)
    ⟨.integrity, "UNIQUE constraint failed: srv_roles.id"⟩
  return { db with roles }

def insertServer (db : Database) (row : ServerRow) : Outcome Database := do
  let servers ← Checks.found (db.servers.insert row)
    ⟨.integrity, "UNIQUE constraint failed: srv_servers.id"⟩
  return { db with servers }

def insertChannel (db : Database) (row : ChannelRow) : Outcome Database := do
  let channels ← Checks.found (db.channels.insert row)
    ⟨.integrity, "UNIQUE constraint failed: srv_channels.id"⟩
  return { db with channels }

def insertBan (db : Database) (row : BanRow) : Outcome Database := do
  let bans ← Checks.found (db.bans.insert row)
    ⟨.integrity, "UNIQUE constraint failed: srv_bans.server_id, srv_bans.user_id"⟩
  return { db with bans }

def deleteMemberRoles (db : Database) (memberId : Nat) : Database :=
  { db with memberRoles := db.memberRoles.delete fun a => a.memberId = memberId }

def deleteMember (db : Database) (serverId userId : Nat) : Database :=
  { db with members := db.members.delete fun m => m.serverId = serverId && m.userId = userId }

end Database

end Plexichat.Servers
