import Mathlib.Logic.Function.Basic
import Plexichat.Library.Layers
import Plexichat.Servers.Tables

/-! permission_utils.py and the uncached part of `get_permissions`: base
permissions, channel overrides in the order of role positions, the timeout. A
missing key of a resolved dict refuses as False does. -/
namespace Plexichat.Servers
open Layers

def serverPermissions : List String :=
  ["server.manage", "server.view_audit_log", "channels.manage", "channels.view", "roles.manage",
   "members.kick", "members.ban", "bans.view", "members.manage_nicknames", "members.manage_roles",
   "invites.create", "invites.manage", "emojis.manage", "webhooks.manage", "messages.send",
   "messages.read", "messages.manage", "messages.embed_links", "messages.attach_files",
   "messages.mention_everyone", "messages.add_reactions", "messages.use_external_emojis",
   "messages.bypass_slowmode", "voice.connect", "voice.speak", "voice.mute_members",
   "voice.deafen_members", "voice.move_members", "events.manage", "events.view",
   "threads.manage", "threads.create_public", "threads.create_private", "templates.manage",
   "onboarding.manage", "server.automod", "messages.export_transcript", "artifact.view",
   "artifact.create", "artifact.edit", "artifact.delete", "artifact.manage_retention",
   "administrator"]

/-- `restricted_perms` of a member who is timed out. -/
def restrictedPermissions : List String :=
  ["messages.send", "messages.add_reactions", "voice.speak", "voice.connect",
   "messages.attach_files", "messages.embed_links"]

abbrev Permissions := String → Option Bool

/-- The truth of `permissions.get(p)`. -/
def Permissions.has (perms : Permissions) (p : String) : Bool := (perms p).getD false

def allPermissions : Permissions := fun p => if p ∈ serverPermissions then some true else none

/-- The truth of `d.get(p)`. -/
def PermissionDict.has (d : PermissionDict) (p : String) : Bool := (d.find p).any Prod.snd

/-- `for perm, value in d.items(): if value: result[perm] = v`. -/
def writeAll (v : Bool) (d : PermissionDict) (result : Permissions) : Permissions :=
  d.rows.foldl (fun result e => if e.2 then Function.update result e.1 (some v) else result) result

/-- The loop of `calculate_base_permissions`. -/
def collect (result : Permissions) : List RoleRow → Permissions
  | [] => result
  | role :: roles =>
    if PermissionDict.has role.permissions "administrator" then allPermissions
    else collect (writeAll true role.permissions result) roles

def calculateBasePermissions (roles : List RoleRow) (isOwner : Bool) : Permissions :=
  if isOwner then allPermissions else collect (fun _ => none) roles

def applyOverride (result : Permissions) (o : OverrideRow) : Permissions :=
  writeAll true o.allow (writeAll false o.deny result)

def applyChannelOverrides (base : Permissions) (roleOverrides : List OverrideRow)
    (memberOverride : Option OverrideRow) : Permissions :=
  if base.has "administrator" then allPermissions
  else
    let result := roleOverrides.foldl applyOverride base
    match memberOverride with
    | some o => applyOverride result o
    | none => result

/-- The wildcard key that also grants `permission`: `parts[0]` followed by `.*`. -/
def wildcard (permission : String) : Option String :=
  if '.' ∈ permission.toList then
    some (String.ofList (permission.toList.takeWhile (· ≠ '.') ++ ['.', '*']))
  else none

/-- `has_permission` of permission_utils. -/
def checkPermission (perms : Permissions) (permission : String) : Bool :=
  perms.has "administrator" || perms.has permission ||
    (wildcard permission).any perms.has || perms.has "*"

def validatePermissionDict (permissions : PermissionDict) : Outcome PUnit :=
  permissions.rows.forM fun e =>
    if e.1 = "*" ∨ ['.', '*'].isSuffixOf e.1.toList then
      .error ⟨.invalidPermissionKey, "Wildcard permissions are not allowed: " ++ e.1⟩
    else Checks.ensure (e.1 ∈ serverPermissions)
      ⟨.invalidPermissionKey, "Unknown permission: " ++ e.1⟩

def checkPermissionsGrantable (editor : Permissions) (requested : PermissionDict) : Outcome PUnit :=
  requested.rows.forM fun e =>
    Checks.ensure (e.2 = true → editor.has e.1 = true)
      ⟨.permissionDenied, "Cannot grant a permission you do not possess: " ++ e.1⟩

def highestRolePosition (roles : List RoleRow) : Int :=
  ((roles.map RoleRow.position).max?).getD 0

def canManageRole (userRoles : List RoleRow) (targetPosition : Int) (isOwner : Bool) : Bool :=
  isOwner || targetPosition < highestRolePosition userRoles

def canManageMember (userRoles targetRoles : List RoleRow) (isOwner targetIsOwner : Bool) : Bool :=
  !targetIsOwner && (isOwner || highestRolePosition targetRoles < highestRolePosition userRoles)

/-- `role_positions.get(target_id, 0)`. -/
def rolePosition (roles : List RoleRow) (targetId : Nat) : Int :=
  ((roles.find? fun r => r.id = targetId).map RoleRow.position).getD 0

def roleOverrides (db : Database) (roles : List RoleRow) (channelId : Nat) : List OverrideRow :=
  byRank (fun o => rolePosition roles o.targetId)
    (roles.filterMap fun r => db.override channelId "role" r.id)

/-- `timeout_until` lies in the future; zero and None are no timeout. -/
def Member.timedOut (m : Member) (now : Nat) : Bool := m.timeoutUntil.any (now < ·)

def restrict (result : Permissions) : Permissions :=
  fun p => if p ∈ restrictedPermissions then some false else result p

/-- `_get_member_role_rows` of a member that `get_member` has answered. -/
def memberRoleRows (db : Database) (member : Option Member) : List RoleRow :=
  match member with
  | some m => db.rolesOf m.id
  | none => []

/-- Steps 3 and 4 of `get_permissions`, from the owner and the member that their
own caches answered. Channel zero is the server itself. -/
def calculatePermissions (db : Database) (now : Nat) (ownerId : Nat) (member : Option Member)
    (userId channelId : Nat) : Permissions :=
  let isOwner : Bool := ownerId = userId
  let roles := memberRoleRows db member
  let base := calculateBasePermissions roles isOwner
  match member with
  | none => if channelId ≠ 0 ∧ isOwner = false then fun _ => none else base
  | some m =>
    let result :=
      if channelId ≠ 0 then
        applyChannelOverrides base (roleOverrides db roles channelId)
          (db.override channelId "member" userId)
      else base
    if m.timedOut now then restrict result else result

/-- `get_permissions` with no cache in front of it. -/
def Database.getPermissions (db : Database) (now userId serverId channelId : Nat) : Permissions :=
  match db.ownerOf serverId with
  | none => fun _ => none
  | some ownerId =>
    calculatePermissions db now ownerId (db.getMember serverId userId) userId channelId

/-- What the operations learn through the cached functions: `get_member`,
`get_permissions` and `has_permission`. -/
structure Reader where
  member (serverId userId : Nat) : Option Member
  permissions (userId serverId channelId : Nat) : Permissions
  hasPermission (userId serverId : Nat) (permission : String) (channelId : Nat) : Bool

def Database.reader (db : Database) (now : Nat) : Reader where
  member := db.getMember
  permissions := db.getPermissions now
  hasPermission userId serverId permission channelId :=
    checkPermission (db.getPermissions now userId serverId channelId) permission

def Reader.requirePermission (rd : Reader) (userId serverId : Nat) (permission : String)
    (channelId : Nat) : Outcome PUnit :=
  Checks.ensure (rd.hasPermission userId serverId permission channelId = true)
    ⟨.permissionDenied, "Missing required permission: " ++ permission⟩

def Reader.roleRows (rd : Reader) (db : Database) (serverId userId : Nat) : List RoleRow :=
  memberRoleRows db (rd.member serverId userId)

/-- `get_channel`: a channel is seen by members with channels.view in it. -/
def Reader.getChannel (rd : Reader) (db : Database) (channelId userId : Nat) : Option ChannelRow :=
  (db.channels.find channelId).filter fun c => !c.deleted && db.isMember c.serverId userId &&
    rd.hasPermission userId c.serverId "channels.view" channelId

end Plexichat.Servers
