import Plexichat.Library.Checks
import Plexichat.Library.Forest
import Plexichat.Library.Paging
import Plexichat.Library.Table
import Plexichat.Library.Text

/-! core/suite/stash: who may do what with an item (stash_manager_base.py), and the items that a
user is shown (stash_manager_items.py). The servers module is there and answers from srv_members.
Of an item only what these functions decide on is kept, and the reference to its bytes; the grants
that `get_item` lists for those who may see them are left out. -/
namespace Plexichat.Stash
open Checks

/-- The CHECK on scope and server_id: a server-scoped item has a server, a personal one has not. -/
inductive Scope where
  | personal
  | server (serverId : Nat)
  deriving DecidableEq

structure Item where
  id : Nat
  ownerId : Nat
  scope : Scope
  collectionId : Option Nat
  mediaObjectId : Option String
  pinned : Bool
  deleted : Bool
  updatedAt : Nat
  deriving DecidableEq

structure Collection where
  id : Nat
  parentId : Option Nat
  deriving DecidableEq

structure Grant where
  itemId : Nat
  subjectType : String
  subjectId : Nat
  permissions : List String
  expiresAt : Option Nat
  revokedAt : Option Nat
  deriving DecidableEq

structure CollectionGrant where
  collectionId : Nat
  subjectId : Nat
  permissions : List String
  expiresAt : Option Nat
  revokedAt : Option Nat
  deriving DecidableEq

structure Store where
  items : Table Item Item.id
  collections : Table Collection Collection.id
  grants : Table Grant fun g => (g.itemId, g.subjectType, g.subjectId)
  collectionGrants : Table CollectionGrant fun g => (g.collectionId, g.subjectId)
  /-- srv_members: the server and the user. -/
  members : List (Nat × Nat)
  /-- What `_can_administer_server` answers for a user and a server. -/
  administers : Nat → Nat → Bool

inductive ErrorName where
  | validation | permission | notFound
  deriving DecidableEq

structure StashError where
  name : ErrorName
  message : String
  deriving DecidableEq

abbrev Outcome := Except StashError

def stashPermissions : List String :=
  ["view_metadata", "preview", "download", "edit", "move", "share", "delete", "manage_versions"]

def mutations : List String := ["edit", "manage_versions", "move", "share", "delete"]

def Item.serverId (item : Item) : Option Nat :=
  match item.scope with
  | .personal => none
  | .server serverId => some serverId

/-- `revoked_at IS NULL AND (expires_at IS NULL OR expires_at > now)`. -/
def active (now : Nat) (expiresAt revokedAt : Option Nat) : Bool :=
  revokedAt.isNone && expiresAt.all fun t => now < t

/-- The rule of `_grant_permissions` and `_collection_granted` on a set of permissions. -/
def allows (permissions : List String) (permission : String) : Bool :=
  permission ∈ permissions || "*" ∈ permissions ||
    (permission ∈ ["view_metadata", "preview"] && mutations.any (· ∈ permissions))

namespace Store

def isMember (c : Store) (userId serverId : Nat) : Bool := (serverId, userId) ∈ c.members

def grantPermissions (c : Store) (now itemId userId : Nat) (permission : String) : Bool :=
  match (c.grants.find (itemId, "user", userId)).filter fun g => g.revokedAt.isNone with
  | none => false
  | some row => !row.expiresAt.any (· ≤ now) && allows row.permissions permission

def parentOf (c : Store) (collectionId : Nat) : Option Nat :=
  (c.collections.find collectionId).bind Collection.parentId

def collectionIds (c : Store) : List Nat := c.collections.rows.map Collection.id

def collectionAncestors (c : Store) (collectionId : Nat) : List Nat :=
  Forest.ancestors c.parentOf c.collectionIds collectionId

def collectionDescendants (c : Store) (collectionId : Nat) : List Nat :=
  Forest.descendants c.parentOf c.collectionIds collectionId

def collectionPermissions (c : Store) (now userId collectionId : Nat) : List String :=
  match (c.collectionGrants.find (collectionId, userId)).filter fun g => g.revokedAt.isNone with
  | none => []
  | some row => if row.expiresAt.any (· ≤ now) then [] else row.permissions

def collectionGrantPermissions (c : Store) (now : Nat) (item : Item) (userId : Nat) :
    List String :=
  match item.collectionId with
  | none => []
  | some collectionId =>
    (c.collectionAncestors collectionId).flatMap (c.collectionPermissions now userId)

def collectionGranted (c : Store) (now : Nat) (item : Item) (userId : Nat) (permission : String) :
    Bool :=
  allows (c.collectionGrantPermissions now item userId) permission

def notAuthorized : StashError := ⟨.permission, "Not authorized to access this Stash item"⟩

def authorize (c : Store) (now : Nat) (item : Item) (userId : Nat) (permission : String)
    (mutation : Bool) : Outcome Unit := do
  ensure (permission ∈ stashPermissions) ⟨.validation, "Unknown Stash permission"⟩
  let owner : Bool := item.ownerId = userId
  let granted := c.grantPermissions now item.id userId permission
  let inherited := c.collectionGranted now item userId permission
  match item.scope with
  | .personal => ensure ((owner || granted || inherited) = true) notAuthorized
  | .server serverId =>
    ensure (c.isMember userId serverId = true) notAuthorized
    if mutation then
      ensure ((owner || c.administers userId serverId || granted || inherited) = true) notAuthorized
    else if permission ∈ ["preview", "download"] then
      ensure ((owner || c.administers userId serverId || granted) = true) notAuthorized
    else return ()

def project (item : Item) (includeStorage : Bool) : Item :=
  { item with mediaObjectId := if includeStorage then item.mediaObjectId else none }

def canExposeStorage (c : Store) (now : Nat) (item : Item) (userId : Nat) : Bool :=
  item.ownerId = userId || item.serverId.any (c.administers userId) ||
    ["edit", "preview", "download"].any (c.grantPermissions now item.id userId)

def canExposeStorageBatch (c : Store) (now : Nat) (item : Item) (userId : Nat) : Bool :=
  item.ownerId = userId || (c.grants.rows.any fun g =>
    g.subjectType = "user" && g.subjectId = userId && g.itemId = item.id &&
      active now g.expiresAt g.revokedAt && ("*" ∈ g.permissions ||
        ["edit", "preview", "download"].any (· ∈ g.permissions))) ||
    item.serverId.any (c.administers userId)

def getItem (c : Store) (now userId itemId : Nat) : Outcome Item := do
  let row ← found ((c.items.find itemId).filter fun item => !item.deleted)
    ⟨.notFound, "Stash item not found"⟩
  c.authorize now row userId "view_metadata" false
  return project row (c.canExposeStorage now row userId)

def activeGrants (c : Store) (now userId : Nat) : List Grant :=
  c.grants.rows.filter fun g => g.subjectType = "user" && g.subjectId = userId &&
    active now g.expiresAt g.revokedAt

/-- The item ids of the grants that name view_metadata or everything, read in batches of 500. -/
def grantedItemIds (c : Store) (now userId : Nat) : List Nat :=
  let rows := Paging.keyset (fun g : Grant => (g.itemId : Int)) (c.activeGrants now userId) 500
    ((c.activeGrants now userId).length + 1) (-1)
  (rows.filter fun g => "view_metadata" ∈ g.permissions || "*" ∈ g.permissions).map Grant.itemId

def visibleCollections (c : Store) (now userId : Nat) : List Nat :=
  (c.collectionGrants.rows.filter fun g =>
    g.subjectId = userId && active now g.expiresAt g.revokedAt).flatMap
      fun g => c.collectionDescendants g.collectionId

def collectionGrantedItemIds (c : Store) (now userId : Nat) : List Nat :=
  (c.items.rows.filter fun item => !item.deleted &&
    item.collectionId.any (· ∈ c.visibleCollections now userId)).map Item.id

/-- The WHERE clause of the listing without filters. -/
def visible (c : Store) (now userId : Nat) (item : Item) : Bool :=
  !item.deleted && (item.ownerId = userId || item.serverId.any (c.isMember userId) ||
    item.id ∈ c.grantedItemIds now userId ++ c.collectionGrantedItemIds now userId)

/-- ORDER BY pinned DESC, updated_at DESC. -/
def listedBefore (a b : Item) : Bool :=
  (a.pinned && !b.pinned) || (a.pinned == b.pinned && b.updatedAt ≤ a.updatedAt)

def listing (c : Store) (now userId : Nat) : List Item :=
  ((c.items.rows.filter (c.visible now userId)).mergeSort listedBefore).map fun item =>
    project item (c.canExposeStorageBatch now item userId)

def queryItemPage (c : Store) (now userId limit offset : Nat) : List Item × Nat :=
  (Paging.page (c.listing now userId) limit offset, (c.listing now userId).length)

def invalidCursor : StashError := ⟨.validation, "Invalid pagination cursor"⟩

def resolveListOffset (cursor : Option (List Char)) : Outcome Nat :=
  match cursor with
  | none => .ok 0
  | some text => do
    let resolved ← found (Text.int text) invalidCursor
    ensure (0 ≤ resolved) invalidCursor
    return resolved.toNat

def listItemsPage (c : Store) (now userId : Nat) (limit : Int) (cursor : Option (List Char)) :
    Outcome (List Item × Nat × Option (List Char)) := do
  let limit := (max 1 (min limit 100)).toNat
  let offset ← resolveListOffset cursor
  let (items, total) := c.queryItemPage now userId limit offset
  let nextCursor := if offset + items.length < total then
    some (Text.decimal (offset + items.length)) else none
  return (items, total, nextCursor)

/-- `list_items_page` from the first page to the last. -/
def walkPages (c : Store) (now userId : Nat) (limit : Int) (fuel : Nat) : Option (List Item) :=
  Paging.walk (fun cursor => match c.listItemsPage now userId limit cursor with
    | .ok (items, _, next) => some (items, next.map some)
    | .error _ => none) fuel none

end Store

end Plexichat.Stash
