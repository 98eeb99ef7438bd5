import Mathlib.Data.List.Infix
import Plexichat.Library.Caches
import Plexichat.Servers.Consistency

/-! The caches in front of `get_permissions`: two tiers of resolved permissions,
the owner of a server and the row of a member. Expiry of entries is left out, so
an entry lives until an invalidation drops it. -/
namespace Plexichat.Servers.PermissionCache

/-- User, server and channel, as in `perms:{user}:{server}:{channel}`. -/
structure Key where
  userId : Nat
  serverId : Nat
  channelId : Nat
  deriving DecidableEq

structure World where
  db : Database
  now : Nat
  /-- Whether the shared cache server is up. -/
  valkey : Bool
  /-- `srv_permission:perms:{user}:{server}:{channel}`. -/
  prefixed : Key → Option Permissions
  /-- `perms:{user}:{server}:{channel}`. -/
  bare : Key → Option Permissions
  /-- `srv_owner:{server}`. -/
  owner : Nat → Option Nat
  /-- `member_data:int:{server}:int:{user}`. -/
  memberData : Nat × Nat → Option Member
  /-- `has_perm:..` of a user, a server, a permission and a channel. -/
  hasPerm : Key × String → Option Bool

/-- What `get_permissions` finds in the tables and keeps; an unknown server and a
channel asked for by an outsider are answered without keeping the answer. -/
def resolved (db : Database) (now : Nat) (k : Key) : Option Permissions :=
  match db.ownerOf k.serverId with
  | none => none
  | some ownerId =>
    if k.channelId ≠ 0 ∧ db.getMember k.serverId k.userId = none ∧ ownerId ≠ k.userId then none
    else some (calculatePermissions db now ownerId (db.getMember k.serverId k.userId) k.userId
      k.channelId)

namespace World

def getMember (w : World) (serverId userId : Nat) : Option Member :=
  (w.memberData (serverId, userId)).or (w.db.getMember serverId userId)

def rememberMember (w : World) (serverId userId : Nat) : World :=
  { w with memberData := Memo.store w.memberData (serverId, userId) (w.getMember serverId userId) }

def ownerOf (w : World) (serverId : Nat) : Option Nat :=
  (w.owner serverId).or (w.db.ownerOf serverId)

def calculate (w : World) (k : Key) : Option Permissions :=
  match w.ownerOf k.serverId with
  | none => none
  | some ownerId =>
    if k.channelId ≠ 0 ∧ w.getMember k.serverId k.userId = none ∧ ownerId ≠ k.userId then none
    else some (calculatePermissions w.db w.now ownerId (w.getMember k.serverId k.userId) k.userId
      k.channelId)

def shared (w : World) (k : Key) : Option Permissions := if w.valkey then w.bare k else none

/-- The answer of `get_permissions`: the first tier that knows the key. -/
def answer (w : World) (k : Key) : Option Permissions :=
  ((w.prefixed k).or (w.shared k)).or (w.calculate k)

def getPermissions (w : World) (userId serverId channelId : Nat) : Permissions :=
  (w.answer ⟨userId, serverId, channelId⟩).getD fun _ => none

def promote (w : World) (k : Key) : World :=
  { w with prefixed := Memo.store w.prefixed k (w.shared k) }

def fill (w : World) (k : Key) : World :=
  { w with
    owner := Memo.store w.owner k.serverId (w.ownerOf k.serverId)
    memberData :=
      if (w.ownerOf k.serverId).isSome then
        Memo.store w.memberData (k.serverId, k.userId) (w.getMember k.serverId k.userId)
      else w.memberData
    prefixed := Memo.store w.prefixed k (w.calculate k)
    bare := if w.valkey then Memo.store w.bare k (w.calculate k) else w.bare }

def readPermissions (w : World) (k : Key) : World :=
  if (w.prefixed k).isSome then w
  else if (w.shared k).isSome then w.promote k
  else w.fill k

/-- `has_permission` behind its cache. -/
def hasPermission (w : World) (k : Key) (permission : String) : Bool :=
  (w.hasPerm (k, permission)).getD
    (checkPermission (w.getPermissions k.userId k.serverId k.channelId) permission)

def readHasPermission (w : World) (k : Key) (permission : String) : World :=
  { w.readPermissions k with
    hasPerm := Memo.store w.hasPerm (k, permission) (some (w.hasPermission k permission)) }

/-- The operations ask the cached functions. What these keep on the way is the
effect of reads, which are steps of their own here. -/
def reader (w : World) : Reader where
  member := w.getMember
  permissions := w.getPermissions
  hasPermission userId serverId permission channelId :=
    w.hasPermission ⟨userId, serverId, channelId⟩ permission

/-- The glob `member_data:*{user}*`: the digits occur anywhere in the key. -/
def mentions (userId : Nat) (k : Nat × Nat) : Bool :=
  (toString userId).toList <:+: ("int:" ++ toString k.1 ++ ":int:" ++ toString k.2).toList

def dropMemberData (w : World) (userId : Nat) : World :=
  { w with memberData := Memo.drop w.memberData (mentions userId) }

def invalidatePermissions (w : World) (serverId userId : Nat) : World :=
  { w with
    bare := Memo.drop w.bare fun k => k.userId = userId && k.serverId = serverId
    prefixed := Memo.drop w.prefixed fun k => k.userId = userId && k.serverId = serverId
    hasPerm := Memo.empty }

def invalidateServer (w : World) (serverId : Nat) : World :=
  { w with
    bare := Memo.drop w.bare fun k => k.serverId = serverId
    prefixed := Memo.drop w.prefixed fun k => k.serverId = serverId
    hasPerm := Memo.empty }

def invalidateOwner (w : World) (serverId : Nat) : World :=
  { w with owner := Memo.drop w.owner fun s => s = serverId }

def invalidateMember (w : World) (serverId userId : Nat) : World :=
  (w.dropMemberData userId).invalidatePermissions serverId userId

/-- The invalidation of `assign_role` and `remove_role`. -/
def invalidateAssignment (w : World) (serverId userId : Nat) : World :=
  { w.dropMemberData userId with
    prefixed := Memo.empty
    bare := Memo.drop w.bare fun k => k.userId = userId && k.serverId = serverId
    hasPerm := Memo.empty }

def invalidateOverride (w : World) (serverId channelId : Nat) (targetType : String)
    (targetId : Nat) : World :=
  { w with
    prefixed := Memo.empty
    bare :=
      if targetType = "member" then
        Memo.drop w.bare fun k => k.userId = targetId && k.serverId = serverId
      else Memo.drop w.bare fun k => k.serverId = serverId && k.channelId = channelId
    hasPerm := Memo.empty }

def purgeRow (w : World) (m : MemberRow) : World :=
  if w.db.earned m.id then { w with db := w.db.purgeRow m }
  else World.invalidateMember { w with db := w.db.purgeRow m } m.serverId m.userId

/-- What an operation that has succeeded on the tables drops from the caches. -/
def invalidate (w : World) : Operation → World
  | .transferOwnership userId serverId newOwnerId =>
    ((w.invalidateOwner serverId).invalidatePermissions serverId userId).invalidatePermissions
      serverId newOwnerId
  | .addMember _ serverId userId _ _ => w.invalidateMember serverId userId
  | .useInvite _ userId code =>
    match w.db.invites.find code with
    | some invite => w.invalidateMember invite.serverId userId
    | none => w
  | .kickMember _ serverId memberUserId => w.invalidateMember serverId memberUserId
  | .banMember _ serverId memberUserId _ => w.invalidateMember serverId memberUserId
  | .removeMember userId serverId => w.invalidateMember serverId userId
  | .updateMember _ serverId memberUserId _ =>
    (w.dropMemberData memberUserId).invalidatePermissions serverId memberUserId
  | .updateRole _ roleId changes =>
    match w.db.roles.find roleId with
    | some role => if changes.any role then w.invalidateServer role.serverId else w
    | none => w
  | .deleteRole _ roleId =>
    match w.db.roles.find roleId with
    | some role => w.invalidateServer role.serverId
    | none => w
  | .assignRole _ serverId memberUserId roleId =>
    -- a role that is already held returns early
    if (w.getMember serverId memberUserId).any fun m =>
        (w.db.memberRoles.find ⟨m.id, roleId⟩).isSome then w
    else w.invalidateAssignment serverId memberUserId
  | .removeRole _ serverId memberUserId _ => w.invalidateAssignment serverId memberUserId
  | .setChannelOverride _ channelId targetType targetId _ _ =>
    match w.db.channels.find channelId with
    | some channel => w.invalidateOverride channel.serverId channelId targetType targetId
    | none => w
  | .deleteChannelOverride _ channelId targetType targetId =>
    match w.db.channels.find channelId with
    | some channel => w.invalidateOverride channel.serverId channelId targetType targetId
    | none => w
  -- the rest writes no cache, `move_role` and `delete_server` among them
  | _ => w

/-- A refused operation raises and leaves everything as it is. -/
def mutate (cfg : Config) (w : World) (op : Operation) : World :=
  match op with
  | .purgeTemporaryMembers userId => (w.db.temporaryRows userId).foldl purgeRow w
  | op =>
    match perform cfg w.reader w.now w.db op with
    | .ok db => { w.invalidate op with db }
    | .error _ => w

end World

inductive Action where
  | getMember (serverId userId : Nat)
  | getPermissions (k : Key)
  | hasPermission (k : Key) (permission : String)
  | mutate (op : Operation)
  | tick (seconds : Nat)

def step (cfg : Config) (w : World) : Action → Option World
  | .getMember serverId userId => some (w.rememberMember serverId userId)
  | .getPermissions k => some (w.readPermissions k)
  | .hasPermission k permission => some (w.readHasPermission k permission)
  | .mutate op => some (w.mutate cfg op)
  | .tick seconds => some { w with now := w.now + seconds }

structure Fresh (w : World) : Prop where
  tables : Consistent w.db
  prefixed : w.prefixed = Memo.empty
  bare : w.bare = Memo.empty
  owner : w.owner = Memo.empty
  memberData : w.memberData = Memo.empty
  hasPerm : w.hasPerm = Memo.empty

end Plexichat.Servers.PermissionCache
