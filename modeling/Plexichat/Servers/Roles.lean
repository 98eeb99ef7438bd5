import Plexichat.Servers.Permissions

/-! handlers/role_handler.py: the operations on roles, role assignments and
channel overrides. Colour and display flags of a role are left out. -/
namespace Plexichat.Servers
open Checks

structure Config where
  serverNameMinLength : Nat
  serverNameMaxLength : Nat
  /-- The enforced cap on owned servers, from the licence or the configuration. -/
  serverCap : Option Nat
  roleNameMaxLength : Nat
  maxRolesPerServer : Nat

def defaultConfig : Config := ⟨2, 100, none, 100, 250⟩

/-- The white space that `str.strip` removes. -/
def isWhitespace (c : Char) : Bool :=
  c ∈ ['\t', '\n', '\x0b', '\x0c', '\r', '\x1c', '\x1d', '\x1e', '\x1f', ' ', '\x85', '\xa0',
    '\u1680', '\u2028', '\u2029', '\u202f', '\u205f', '\u3000'] || ('\u2000' ≤ c && c ≤ '\u200a')

def strip (s : String) : String :=
  String.ofList ((s.toList.dropWhile isWhitespace).reverse.dropWhile isWhitespace).reverse

def validateRoleName (cfg : Config) (name : String) : Outcome String := do
  ensure (strip name ≠ "") ⟨.invalidRoleName, "Role name cannot be empty"⟩
  ensure ((strip name).length ≤ cfg.roleNameMaxLength)
    ⟨.invalidRoleName, "Role name cannot exceed " ++ toString cfg.roleNameMaxLength ++ " characters"⟩
  return strip name

namespace Database

def liveRoles (db : Database) (serverId : Nat) : List RoleRow :=
  db.roles.rows.filter fun r => r.serverId = serverId && !r.deleted

def nextPosition (db : Database) (serverId : Nat) : Int := highestRolePosition (db.liveRoles serverId) + 1

theorem id_rewritten (f : RoleRow → RoleRow) (r : RoleRow) : ({ f r with id := r.id } : RoleRow).id = r.id :=
  rfl

def updateRoleRow (db : Database) (roleId : Nat) (f : RoleRow → RoleRow) : Database :=
  { db with
    roles := db.roles.update (fun r => r.id = roleId) (fun r => { f r with id := r.id })
      (id_rewritten f) }

def deleteAssignments (db : Database) (p : MemberRole → Bool) : Database :=
  { db with memberRoles := db.memberRoles.delete p }

def insertOverride (db : Database) (row : OverrideRow) : Outcome Database := do
  let overrides ← found (db.overrides.insert row)
    ⟨.integrity, "UNIQUE constraint failed: srv_channel_overrides.channel_id, " ++
      "srv_channel_overrides.target_type, srv_channel_overrides.target_id"⟩
  return { db with overrides }

theorem key_rewritten (allow deny : PermissionDict) (o : OverrideRow) :
    ({ o with allow, deny } : OverrideRow).key = o.key := rfl

def updateOverride (db : Database) (key : Nat × String × Nat) (allow deny : PermissionDict) :
    Database :=
  { db with
    overrides := db.overrides.update (fun o => o.key = key) (fun o => { o with allow, deny })
      (key_rewritten allow deny) }

def deleteOverride (db : Database) (key : Nat × String × Nat) : Database :=
  { db with overrides := db.overrides.delete fun o => o.key = key }

end Database

/-- The position a new role gets: below the creator's highest role, unless the
creator owns the server or has no role above zero. -/
def newRolePosition (rd : Reader) (db : Database) (userId serverId : Nat) : Int :=
  let position := db.nextPosition serverId
  let userHighest := highestRolePosition (rd.roleRows db serverId userId)
  if db.seesOwnServer serverId userId = false ∧ 0 < userHighest ∧ userHighest ≤ position then
    userHighest - 1
  else position

def createRole (cfg : Config) (rd : Reader) (db : Database) (roleId userId serverId : Nat)
    (name : String) (permissions : Option PermissionDict) : Outcome Database := do
  rd.requirePermission userId serverId "roles.manage" 0
  let name ← validateRoleName cfg name
  validatePermissionDict (permissions.getD Table.empty)
  checkPermissionsGrantable (rd.permissions userId serverId 0) (permissions.getD Table.empty)
  ensure ((db.liveRoles serverId).length < cfg.maxRolesPerServer)
    ⟨.serverLimitReached, "Server has reached the maximum of " ++ toString cfg.maxRolesPerServer ++ " roles"⟩
  db.insertRole
    { id := roleId, serverId, name, permissions := permissions.getD Table.empty,
      position := newRolePosition rd db userId serverId, isDefault := false, deleted := false }

/-- The optional arguments of `update_role`. -/
structure RoleChanges where
  name : Option String
  permissions : Option PermissionDict
  position : Option Int

def RoleChanges.apply (c : RoleChanges) (name : Option String) (r : RoleRow) : RoleRow :=
  { r with
    name := name.getD r.name
    permissions := c.permissions.getD r.permissions
    position := c.position.getD r.position }

/-- There is something to write; the position a role already has is no change. -/
def RoleChanges.any (c : RoleChanges) (role : RoleRow) : Bool :=
  c.name.isSome || c.permissions.isSome || c.position.any (· != role.position)

def checkNewPermissions (editor : Permissions) : Option PermissionDict → Outcome PUnit
  | none => .ok ⟨⟩
  | some permissions => do
    validatePermissionDict permissions
    checkPermissionsGrantable editor permissions

def checkNewPosition (role : RoleRow) (userRoles : List RoleRow) (isOwner : Bool) :
    Option Int → Outcome PUnit
  | none => .ok ⟨⟩
  | some position => do
    ensure (position ≠ role.position → role.isDefault = false)
      ⟨.defaultRole, "Cannot move the default role"⟩
    ensure (position ≠ role.position → isOwner ∨ position < highestRolePosition userRoles)
      ⟨.roleHierarchy, "Cannot move a role to or above your highest role"⟩

def checkNewName (cfg : Config) (role : RoleRow) : Option String → Outcome (Option String)
  | none => .ok none
  | some name => do
    ensure (role.isDefault = false) ⟨.defaultRole, "Cannot rename the default role"⟩
    let name ← validateRoleName cfg name
    return some name

def updateRole (cfg : Config) (rd : Reader) (db : Database) (userId roleId : Nat)
    (changes : RoleChanges) : Outcome Database := do
  let role ← found (db.getRole roleId userId) ⟨.roleNotFound, "Role not found"⟩
  rd.requirePermission userId role.serverId "roles.manage" 0
  let userRoles := rd.roleRows db role.serverId userId
  let isOwner := db.seesOwnServer role.serverId userId
  ensure (canManageRole userRoles role.position isOwner = true)
    ⟨.roleHierarchy, "Cannot modify a role at or above your highest role"⟩
  checkNewPermissions (rd.permissions userId role.serverId 0) changes.permissions
  checkNewPosition role userRoles isOwner changes.position
  let name ← checkNewName cfg role changes.name
  return db.updateRoleRow roleId (changes.apply name)

def deleteRole (rd : Reader) (db : Database) (userId roleId : Nat) : Outcome Database := do
  let role ← found (db.getRole roleId userId) ⟨.roleNotFound, "Role not found"⟩
  rd.requirePermission userId role.serverId "roles.manage" 0
  ensure (role.isDefault = false) ⟨.defaultRole, "Cannot delete the default role"⟩
  ensure (canManageRole (rd.roleRows db role.serverId userId) role.position
      (db.seesOwnServer role.serverId userId) = true)
    ⟨.roleHierarchy, "Cannot delete a role at or above your highest role"⟩
  let marked := db.updateRoleRow roleId fun r => { r with deleted := true }
  return marked.deleteAssignments fun a => a.roleId = roleId

def moveRole (rd : Reader) (db : Database) (userId roleId : Nat) (position : Int) :
    Outcome Database := do
  let role ← found (db.getRole roleId userId) ⟨.roleNotFound, "Role not found"⟩
  rd.requirePermission userId role.serverId "roles.manage" 0
  ensure (role.isDefault = false) ⟨.defaultRole, "Cannot move the default role"⟩
  let userRoles := rd.roleRows db role.serverId userId
  let isOwner := db.seesOwnServer role.serverId userId
  ensure (canManageRole userRoles role.position isOwner = true)
    ⟨.roleHierarchy, "Cannot move a role at or above your highest role"⟩
  ensure (isOwner ∨ position < highestRolePosition userRoles)
    ⟨.roleHierarchy, "Cannot move role above your highest role"⟩
  return db.updateRoleRow roleId fun r => { r with position }

def assignRole (rd : Reader) (db : Database) (userId serverId memberUserId roleId : Nat) :
    Outcome Database := do
  rd.requirePermission userId serverId "members.manage_roles" 0
  let role ← found ((db.getRole roleId userId).filter fun r => r.serverId = serverId)
    ⟨.roleNotFound, "Role not found"⟩
  let member ← found (rd.member serverId memberUserId) ⟨.memberNotFound, "Member not found"⟩
  ensure (canManageRole (rd.roleRows db serverId userId) role.position
      (db.seesOwnServer serverId userId) = true)
    ⟨.roleHierarchy, "Cannot assign a role at or above your highest role"⟩
  validatePermissionDict role.permissions
  checkPermissionsGrantable (rd.permissions userId serverId 0) role.permissions
  if (db.memberRoles.find ⟨member.id, roleId⟩).isSome then return db
  else db.insertMemberRole ⟨member.id, roleId⟩

def removeRole (rd : Reader) (db : Database) (userId serverId memberUserId roleId : Nat) :
    Outcome Database := do
  rd.requirePermission userId serverId "members.manage_roles" 0
  let role ← found ((db.getRole roleId userId).filter fun r => r.serverId = serverId)
    ⟨.roleNotFound, "Role not found"⟩
  ensure (role.isDefault = false) ⟨.defaultRole, "Cannot remove the default role"⟩
  let member ← found (rd.member serverId memberUserId) ⟨.memberNotFound, "Member not found"⟩
  ensure (canManageRole (rd.roleRows db serverId userId) role.position
      (db.seesOwnServer serverId userId) = true)
    ⟨.roleHierarchy, "Cannot remove a role at or above your highest role"⟩
  return db.deleteAssignments fun a => a.memberId = member.id && a.roleId = roleId

def setChannelOverride (rd : Reader) (db : Database) (userId channelId : Nat)
    (targetType : String) (targetId : Nat) (allow deny : Option PermissionDict) :
    Outcome Database := do
  let channel ← found (rd.getChannel db channelId userId) ⟨.channelNotFound, "Channel not found"⟩
  rd.requirePermission userId channel.serverId "channels.manage" channelId
  if (db.override channelId targetType targetId).isSome then
    return db.updateOverride (channelId, targetType, targetId) (allow.getD Table.empty)
      (deny.getD Table.empty)
  else
    db.insertOverride ⟨channelId, targetType, targetId, allow.getD Table.empty,
      deny.getD Table.empty⟩

def deleteChannelOverride (rd : Reader) (db : Database) (userId channelId : Nat)
    (targetType : String) (targetId : Nat) : Outcome Database := do
  let channel ← found (rd.getChannel db channelId userId) ⟨.channelNotFound, "Channel not found"⟩
  rd.requirePermission userId channel.serverId "channels.manage" channelId
  return db.deleteOverride (channelId, targetType, targetId)

end Plexichat.Servers
