import Mathlib.Data.List.Forall2
import Mathlib.Data.List.Pairwise
import Plexichat.Servers.Hierarchy

/-! manager/template_ops.py with the calls of handlers/channel_handler.py that it makes: a
server recorded as a template, and a new server built from one. Topics and the flags of
channels and roles are left out. -/
namespace Plexichat.Servers.Templates
open Checks Layers

inductive ChannelType where
  | text | voice | announcement | stage
  deriving DecidableEq

structure CategoryRow where
  id : Nat
  serverId : Nat
  name : String
  position : Int

/-- The further columns of a row of srv_channels. -/
structure ChannelInfo where
  id : Nat
  serverId : Nat
  name : String
  channelType : ChannelType
  categoryId : Option Nat
  position : Int

structure CategoryEntry where
  name : String
  position : Int

structure ChannelEntry where
  name : String
  channelType : ChannelType
  categoryPosition : Option Int
  position : Int

structure RoleEntry where
  name : String
  permissions : PermissionDict
  position : Int

structure TemplateData where
  channels : List ChannelEntry
  categories : List CategoryEntry
  roles : List RoleEntry

/-- A row of srv_templates with its row of srv_template_data. -/
structure TemplateRow where
  code : String
  name : String
  creatorId : Nat
  isPublic : Bool
  usageCount : Nat
  data : Option TemplateData

structure TemplateConfig where
  maxTemplatesPerUser : Nat
  maxChannelsInTemplate : Nat
  maxRolesInTemplate : Nat
  channelNameMaxLength : Nat

def defaultTemplateConfig : TemplateConfig := ⟨25, 100, 50, 100⟩

structure Store where
  db : Database
  categories : Table CategoryRow CategoryRow.id
  channelInfo : Table ChannelInfo ChannelInfo.id
  templates : Table TemplateRow TemplateRow.code

inductive FaultName where
  | templateNotFound | template | invalidChannelName | categoryNotFound | integrity
  deriving DecidableEq

inductive Fault where
  | server (e : ServerError)
  | raised (name : FaultName) (message : String)

abbrev Result := Except Fault

def ofServer {α : Type} : Outcome α → Result α
  | .ok a => .ok a
  | .error e => .error (.server e)

/-! The snapshot. -/

def recordedRoles (cfg : TemplateConfig) (db : Database) (serverId : Nat) : List RoleRow :=
  (byRank (fun r => -r.position) ((db.liveRoles serverId).filter fun r => !r.isDefault)).take
    cfg.maxRolesInTemplate

def RoleEntry.ofRow (r : RoleRow) : RoleEntry := ⟨r.name, r.permissions, r.position⟩

namespace Store

def serverCategories (s : Store) (serverId : Nat) : List CategoryRow :=
  byRank CategoryRow.position (s.categories.rows.filter fun c => c.serverId = serverId)

def liveChannels (s : Store) (serverId : Nat) : List ChannelInfo :=
  byRank ChannelInfo.position (s.channelInfo.rows.filter fun c =>
    c.serverId = serverId && (s.db.channels.find c.id).any fun row => !row.deleted)

end Store

def getCategoryPosition (categoryId : Option Nat) (rows : List CategoryRow) : Option Int :=
  (categoryId.filter (· ≠ 0)).bind fun id =>
    (rows.find? fun c => c.id = id).map CategoryRow.position

def snapshotServer (cfg : TemplateConfig) (s : Store) (serverId : Nat) : TemplateData where
  categories := (s.serverCategories serverId).map fun c => ⟨c.name, c.position⟩
  channels := ((s.liveChannels serverId).take cfg.maxChannelsInTemplate).map fun c =>
    ⟨c.name, c.channelType, getCategoryPosition c.categoryId (s.serverCategories serverId),
      c.position⟩
  roles := (recordedRoles cfg s.db serverId).map RoleEntry.ofRow

def createTemplate (cfg : TemplateConfig) (s : Store) (now : Nat) (code : String)
    (userId serverId : Nat) (name : String) : Result Store := do
  let _ ← ofServer (found (s.db.getServer serverId userId) ⟨.serverNotFound, "Server not found"⟩)
  ofServer ((s.db.reader now).requirePermission userId serverId "templates.manage" 0)
  ensure (strip name ≠ "") (.raised .template "Template name cannot be empty")
  ensure ((strip name).length ≤ 100) (.raised .template "Template name cannot exceed 100 characters")
  ensure ((s.templates.rows.filter fun t => t.creatorId = userId).length < cfg.maxTemplatesPerUser)
    (.raised .template ("Maximum templates (" ++ toString cfg.maxTemplatesPerUser ++ ") reached"))
  let templates ← found (s.templates.insert
      ⟨code, strip name, userId, false, 0, some (snapshotServer cfg s serverId)⟩)
    (.raised .integrity "UNIQUE constraint failed: srv_templates.code")
  return { s with templates }

/-! The names of channels. -/

/-- `name.lower()` as the substitution after it reads it: two letters outside ASCII have a
lower case that begins inside. -/
def lowerLetter (c : Char) : List Char :=
  if c = '\u212a' then ['k'] else if c = '\u0130' then ['i', '\u0307'] else [c.toLower]

/-- `re.sub(r"[...]+", sub, text)`. -/
def collapse (p : Char → Bool) (sub : Char) : Bool → List Char → List Char
  | _, [] => []
  | inRun, c :: cs =>
    if p c then
      if inRun then collapse p sub true cs else sub :: collapse p sub true cs
    else c :: collapse p sub false cs

def stripHyphens (cs : List Char) : List Char :=
  ((cs.dropWhile (· = '-')).reverse.dropWhile (· = '-')).reverse

def hyphenated (name : String) : String :=
  let kept : Char → Bool := fun c => ('a' ≤ c && c ≤ 'z') || ('0' ≤ c && c ≤ '9')
  String.ofList (stripHyphens (collapse (!kept ·) '-' false (name.toList.flatMap lowerLetter)))

def printable (name : String) : String :=
  strip (String.ofList ((collapse isWhitespace ' ' false name.toList).filter
    fun c => ' ' ≤ c && c ≤ '~'))

def channelName (t : ChannelType) (name : String) : String :=
  match t with
  | .text => hyphenated (strip name)
  | .announcement => hyphenated (strip name)
  | .voice => printable (strip name)
  | .stage => printable (strip name)

def validateChannelName (cfg : TemplateConfig) (t : ChannelType) (name : String) :
    Result String := do
  ensure (strip name ≠ "") (.raised .invalidChannelName "Channel name cannot be empty")
  ensure (t = .text ∨ t = .announcement → channelName t name ≠ "")
    (.raised .invalidChannelName "Channel name must contain alphanumeric characters")
  ensure ((channelName t name).length ≤ cfg.channelNameMaxLength)
    (.raised .invalidChannelName
      ("Channel name cannot exceed " ++ toString cfg.channelNameMaxLength ++ " characters"))
  return channelName t name

/-- `COALESCE(MAX(position), -1) + 1`. -/
def nextIn (positions : List Int) : Int := (positions.max?).getD (-1) + 1

def createCategory (s : Store) (now id userId serverId : Nat) (name : String) : Result Store := do
  ofServer ((s.db.reader now).requirePermission userId serverId "channels.manage" 0)
  ensure (strip name ≠ "") (.raised .invalidChannelName "Category name cannot be empty")
  let position := nextIn ((s.serverCategories serverId).map CategoryRow.position)
  let categories ← found (s.categories.insert ⟨id, serverId, strip name, position⟩)
    (.raised .integrity "UNIQUE constraint failed: srv_categories.id")
  return { s with categories }

def createChannel (cfg : TemplateConfig) (s : Store) (now id userId serverId : Nat) (name : String)
    (t : ChannelType) (categoryId : Option Nat) : Result Store := do
  let _ ← ofServer (found (s.db.getServer serverId userId) ⟨.serverNotFound, "Server not found"⟩)
  ofServer ((s.db.reader now).requirePermission userId serverId "channels.manage" 0)
  let name ← validateChannelName cfg t name
  let inServer : Nat → Bool := fun c => (s.categories.find c).any fun row => row.serverId = serverId
  ensure ((categoryId.filter (· ≠ 0)).all inServer = true)
    (.raised .categoryNotFound "Category not found")
  let position := nextIn
    ((s.channelInfo.rows.filter fun c => c.serverId = serverId).map ChannelInfo.position)
  let db ← ofServer (s.db.insertChannel ⟨id, serverId, false⟩)
  let channelInfo ← found (s.channelInfo.insert ⟨id, serverId, name, t, categoryId, position⟩)
    (.raised .integrity "UNIQUE constraint failed: srv_channels.id")
  return { s with db, channelInfo }

/-! A new server from a template. -/

/-- What `_generate_id` returns during one call. -/
structure NewIds where
  server : ServerIds
  category : Nat → Nat
  channel : Nat → Nat
  role : Nat → Nat

/-- `get_template` with a user: a template that is not public is its creator's only. -/
def Store.getTemplate (s : Store) (code : String) (userId : Nat) : Option TemplateRow :=
  (s.templates.find code).filter fun t => t.isPublic || userId = 0 || t.creatorId = userId

/-- `category_map` after the categories, the latest entry first. -/
def createCategories (now : Nat) (ids : NewIds) (userId : Nat) :
    Nat → List CategoryEntry → List (Int × Nat) → Store → Result (Store × List (Int × Nat))
  | _, [], map, s => .ok (s, map)
  | i, e :: entries, map, s => do
    let s ← createCategory s now (ids.category i) userId ids.server.server e.name
    createCategories now ids userId (i + 1) entries ((e.position, ids.category i) :: map) s

def createChannels (cfg : TemplateConfig) (now : Nat) (ids : NewIds) (userId : Nat)
    (map : List (Int × Nat)) : Nat → List ChannelEntry → Store → Result Store
  | _, [], s => .ok s
  | i, e :: entries, s => do
    let categoryId := e.categoryPosition.bind fun p => map.lookup p
    let s ← createChannel cfg s now (ids.channel i) userId ids.server.server e.name e.channelType
      categoryId
    createChannels cfg now ids userId map (i + 1) entries s

def createRoles (cfg : Config) (now : Nat) (ids : NewIds) (userId : Nat) :
    Nat → List RoleEntry → Database → Outcome Database
  | _, [], db => .ok db
  | i, e :: entries, db => do
    let db ← createRole cfg (db.reader now) db (ids.role i) userId ids.server.server e.name
      (some e.permissions)
    createRoles cfg now ids userId (i + 1) entries db

theorem code_kept (f : TemplateRow → TemplateRow) (t : TemplateRow) :
    ({ f t with code := t.code } : TemplateRow).code = t.code := rfl

def countUsage (t : TemplateRow) : TemplateRow := { t with usageCount := t.usageCount + 1 }

/-- The server of `create_server` and the channel that comes with it. -/
def openServer (cfg : Config) (s : Store) (ids : ServerIds) (userId : Nat) (name : String) :
    Result Store := do
  let db ← ofServer (createServer cfg s.db ids userId name)
  let channelInfo ← found (s.channelInfo.insert ⟨ids.channel, ids.server, "general", .text, none, 0⟩)
    (.raised .integrity "UNIQUE constraint failed: srv_channels.id")
  return { s with db, channelInfo }

def applyTemplate (cfg : Config) (tcfg : TemplateConfig) (s : Store) (now : Nat) (ids : NewIds)
    (userId : Nat) (code serverName : String) : Result Store := do
  let template ← found (s.getTemplate code userId) (.raised .templateNotFound "Template not found")
  let data ← found template.data (.raised .template "Template data not found")
  let s ← openServer cfg s ids.server userId serverName
  let (s, map) ← createCategories now ids userId 0 (byRank CategoryEntry.position data.categories)
    [] s
  let s ← createChannels tcfg now ids userId map 0 (byRank ChannelEntry.position data.channels) s
  -- `sorted(..., reverse=True)` keeps equal positions in their order
  let db ← ofServer (createRoles cfg now ids userId 0 (byRank (fun e => -e.position) data.roles) s.db)
  let templates := s.templates.update (fun t => t.code = code)
    (fun t => { countUsage t with code := t.code }) (code_kept countUsage)
  return { s with db, templates }

def createdRoles (s : Store) (ids : NewIds) (n : Nat) : List RoleRow :=
  (List.range n).filterMap fun i => s.db.roles.find (ids.role i)

/-! What the two calls promise. -/

structure Copied (serverId : Nat) (r c : RoleRow) : Prop where
  server : c.serverId = serverId
  custom : c.isDefault = false
  live : c.deleted = false
  name : c.name = strip r.name
  permissions : c.permissions = r.permissions

def SameOrder (pairs : List (RoleRow × RoleRow)) : Prop :=
  ∀ p ∈ pairs, ∀ q ∈ pairs, p.1.position < q.1.position ↔ p.2.position < q.2.position

def KeepsAbove (pairs : List (RoleRow × RoleRow)) : Prop :=
  ∀ p ∈ pairs, ∀ q ∈ pairs, p.1.position < q.1.position → p.2.position < q.2.position

section Order

variable {pairs : List (RoleRow × RoleRow)}

def Inverted (pairs : List (RoleRow × RoleRow)) : Prop :=
  pairs.Pairwise fun p q => q.1.position ≤ p.1.position ∧ p.2.position < q.2.position

theorem Inverted.sameOrder_iff (inverted : Inverted pairs) :
    SameOrder pairs ↔ pairs.length ≤ 1 := by
  constructor
  · intro same
    cases pairs with
    | nil => exact Nat.zero_le 1
    | cons p rest =>
      cases rest with
      | nil => exact le_rfl
      | cons q rest =>
        obtain ⟨high, low⟩ := List.rel_of_pairwise_cons inverted List.mem_cons_self
        have up := (same p List.mem_cons_self q (List.mem_cons_of_mem _ List.mem_cons_self)).mpr low
        exact absurd up high.not_gt
  · intro short p hp q hq
    cases pairs with
    | nil => cases hp
    | cons first rest =>
      have alone : rest = [] :=
        List.length_eq_zero_iff.mp (Nat.le_zero.mp (Nat.succ_le_succ_iff.mp short))
      subst alone
      rw [List.mem_singleton.mp hp, List.mem_singleton.mp hq]
      exact iff_of_false (lt_irrefl _) (lt_irrefl _)

theorem Inverted.keepsAbove_iff (inverted : Inverted pairs) :
    KeepsAbove pairs ↔ ∀ p ∈ pairs, ∀ q ∈ pairs, p.1.position = q.1.position := by
  constructor
  · intro keeps
    have level : pairs.Pairwise fun p q => p.1.position = q.1.position := by
      refine inverted.imp_of_mem ?_
      intro p q hp hq apart
      rcases apart.1.lt_or_eq with below | same
      · exact absurd (keeps q hq p hp below) apart.2.not_gt
      · exact same.symm
    let Level (p q : RoleRow × RoleRow) : Prop := p.1.position = q.1.position
    have : Std.Symm Level := ⟨fun _ _ => Eq.symm⟩
    intro p hp q hq
    exact List.Pairwise.forall_of_forall (R := Level) (fun _ _ => rfl) level hp hq
  · intro level p hp q hq below
    exact absurd (level p hp q hq) below.ne

theorem inverted_zip {recorded created : List RoleRow}
    (down : recorded.Pairwise fun r q => q.position ≤ r.position)
    (up : created.Pairwise fun r q => r.position < q.position) : Inverted (recorded.zip created) := by
  induction down generalizing created with
  | nil => exact List.Pairwise.nil
  | @cons r rest below _ ih =>
    cases up with
    | nil => exact List.Pairwise.nil
    | @cons c later above rising =>
      refine List.Pairwise.cons ?_ (ih rising)
      intro pair hp
      have sides := List.of_mem_zip hp
      exact ⟨below _ sides.1, above _ sides.2⟩

theorem recordedRoles_sorted (cfg : TemplateConfig) (db : Database) (serverId : Nat) :
    (recordedRoles cfg db serverId).Pairwise fun r q => q.position ≤ r.position := by
  have sorted := byRank_sorted (fun r : RoleRow => -r.position)
    ((db.liveRoles serverId).filter fun r => !r.isDefault)
  exact (sorted.imp fun below => Int.neg_le_neg_iff.mp below).sublist (List.take_sublist _ _)

theorem sorted_entries (cfg : TemplateConfig) (db : Database) (serverId : Nat) :
    byRank (fun e => -e.position) ((recordedRoles cfg db serverId).map RoleEntry.ofRow) =
      (recordedRoles cfg db serverId).map RoleEntry.ofRow := by
  apply List.Pairwise.insertionSort_eq
  apply List.pairwise_map.mpr
  exact (recordedRoles_sorted cfg db serverId).imp fun below => Int.neg_le_neg below

end Order

section Roles

variable {cfg : Config} {now userId : Nat} {ids : NewIds} {db db' : Database}

structure Made (serverId : Nat) (e : RoleEntry) (r : RoleRow) : Prop where
  server : r.serverId = serverId
  custom : r.isDefault = false
  live : r.deleted = false
  name : r.name = strip e.name
  permissions : r.permissions = e.permissions

theorem nextPosition_insertRole {serverId : Nat} {r : RoleRow} {roles}
    (inserted : db.roles.insert r = some roles) (server : r.serverId = serverId)
    (live : r.deleted = false) (position : r.position = db.nextPosition serverId) :
    ({ db with roles } : Database).nextPosition serverId = r.position + 1 := by
  have rows : ({ db with roles } : Database).liveRoles serverId = db.liveRoles serverId ++ [r] := by
    unfold Database.liveRoles
    rw [(Table.insert_eq_some inserted).2, List.filter_append]
    simp [server, live]
  have top : highestRolePosition (db.liveRoles serverId ++ [r]) = r.position := by
    apply le_antisymm
    · have filled : db.liveRoles serverId ++ [r] ≠ [] := by simp
      obtain ⟨q, hq, highest⟩ := highest_mem filled
      rw [← highest]
      cases List.mem_append.mp hq with
      | inl old =>
        rw [position]
        exact (position_le_highest old).trans (Int.le_add_one le_rfl)
      | inr new => rw [List.mem_singleton.mp new]
    · exact position_le_highest (List.mem_append_right _ (List.mem_singleton.mpr rfl))
  rw [Database.nextPosition, rows, top]

theorem newRolePosition_owner {serverId : Nat} (owner : db.seesOwnServer serverId userId = true) :
    newRolePosition (db.reader now) db userId serverId = db.nextPosition serverId := by
  unfold newRolePosition
  simp [owner]

theorem createRoles_ok {entries : List RoleEntry} {i : Nat}
    (owner : db.seesOwnServer ids.server.server userId = true)
    (h : createRoles cfg now ids userId i entries db = .ok db') :
    ∃ rows : List RoleRow, db'.roles.rows = db.roles.rows ++ rows ∧
      List.Forall₂ (Made ids.server.server) entries rows ∧
      rows.Pairwise (fun r q => r.position < q.position) ∧
      (∀ r ∈ rows, db.nextPosition ids.server.server ≤ r.position) ∧
      rows.map RoleRow.id = (List.range' i entries.length).map ids.role := by
  induction entries generalizing i db with
  | nil =>
    cases h
    exact ⟨[], (List.append_nil _).symm, .nil, .nil, by simp, rfl⟩
  | cons e entries ih =>
    obtain ⟨first, made, rest⟩ := returned_bind h
    obtain ⟨_, roles, inserted, rfl⟩ := createRole_row made
    rw [newRolePosition_owner owner] at inserted
    obtain ⟨rows, appended, built, rising, above, named⟩ := ih (by exact owner) rest
    have next := nextPosition_insertRole inserted rfl rfl rfl
    let row : RoleRow :=
      { id := ids.role i, serverId := ids.server.server, name := strip e.name,
        permissions := e.permissions, position := db.nextPosition ids.server.server,
        isDefault := false, deleted := false }
    refine ⟨row :: rows, ?_, .cons ⟨rfl, rfl, rfl, rfl, rfl⟩ built, .cons ?_ rising, ?_, ?_⟩
    · rw [appended, (Table.insert_eq_some inserted).2, List.append_assoc]
      rfl
    · intro q hq
      have later := above q hq
      rw [next] at later
      exact later
    · intro q hq
      cases List.mem_cons.mp hq with
      | inl here => rw [here]
      | inr later =>
        have higher := above q later
        rw [next] at higher
        exact (Int.le_add_one le_rfl).trans higher
    · rw [List.map_cons, named, List.length_cons, List.range'_succ, List.map_cons]

end Roles

section Calls

variable {cfg : Config} {tcfg : TemplateConfig} {s t : Store} {now userId : Nat} {ids : NewIds}

theorem ofServer_eq_ok {α : Type} {x : Outcome α} {a : α} : ofServer x = .ok a ↔ x = .ok a := by
  cases x with
  | ok b => simp [ofServer]
  | error e => simp [ofServer]

structure Framed (s t : Store) : Prop where
  servers : t.db.servers = s.db.servers
  members : t.db.members = s.db.members
  templates : t.templates = s.templates

theorem Framed.refl (s : Store) : Framed s s := ⟨rfl, rfl, rfl⟩

theorem Framed.trans {u : Store} (first : Framed s t) (second : Framed t u) : Framed s u :=
  ⟨second.servers.trans first.servers, second.members.trans first.members,
    second.templates.trans first.templates⟩

theorem seesOwnServer_congr {db db' : Database} (servers : db'.servers = db.servers)
    (members : db'.members = db.members) (serverId : Nat) :
    db'.seesOwnServer serverId userId = db.seesOwnServer serverId userId := by
  unfold Database.seesOwnServer Database.getServer Database.isMember Database.memberRow
    Database.liveServer
  rw [servers, members]

theorem createCategory_framed {id serverId : Nat} {name : String}
    (h : createCategory s now id userId serverId name = .ok t) : Framed s t := by
  obtain ⟨_, _, h⟩ := returned_bind h
  simp only [ensure_bind_eq_ok, found_bind_eq_ok, pure_eq_ok] at h
  obtain ⟨_, _, _, rfl⟩ := h
  exact ⟨rfl, rfl, rfl⟩

theorem createCategories_framed {entries : List CategoryEntry} {i : Nat} {map map' : List (Int × Nat)}
    (h : createCategories now ids userId i entries map s = .ok (t, map')) : Framed s t := by
  induction entries generalizing i map s with
  | nil =>
    cases h
    exact Framed.refl _
  | cons e entries ih =>
    obtain ⟨_, first, rest⟩ := returned_bind h
    exact (createCategory_framed first).trans (ih rest)

theorem createChannel_framed {id serverId : Nat} {name : String} {type : ChannelType}
    {categoryId : Option Nat}
    (h : createChannel tcfg s now id userId serverId name type categoryId = .ok t) :
    Framed s t := by
  obtain ⟨_, _, h⟩ := returned_bind h
  obtain ⟨_, _, h⟩ := returned_bind h
  obtain ⟨_, _, h⟩ := returned_bind h
  simp only [ensure_bind_eq_ok] at h
  obtain ⟨_, h⟩ := h
  obtain ⟨db, inserted, h⟩ := returned_bind h
  simp only [found_bind_eq_ok, pure_eq_ok] at h
  obtain ⟨_, _, rfl⟩ := h
  simp only [ofServer_eq_ok, Database.insertChannel, found_bind_eq_ok, pure_eq_ok] at inserted
  obtain ⟨_, _, rfl⟩ := inserted
  exact ⟨rfl, rfl, rfl⟩

theorem createChannels_framed {map : List (Int × Nat)} {entries : List ChannelEntry} {i : Nat}
    (h : createChannels tcfg now ids userId map i entries s = .ok t) : Framed s t := by
  induction entries generalizing i s with
  | nil =>
    cases h
    exact Framed.refl _
  | cons e entries ih =>
    obtain ⟨_, first, rest⟩ := returned_bind h
    exact (createChannel_framed first).trans (ih rest)

theorem openServer_owned {name : String} {server : ServerIds}
    (h : openServer cfg s server userId name = .ok t) :
    t.db.seesOwnServer server.server userId = true := by
  obtain ⟨db, created, h⟩ := returned_bind h
  simp only [found_bind_eq_ok, pure_eq_ok] at h
  obtain ⟨_, _, rfl⟩ := h
  obtain ⟨valid, servers, roles, members, memberRoles, channels, hs, _, hm, _, _, rfl⟩ :=
    createServer_ok (ofServer_eq_ok.mp created)
  have member : ({ s.db with servers, roles, members, memberRoles, channels } :
      Database).isMember server.server userId = true :=
    Ownership.isMember_iff.mpr ⟨_, (Table.mem_insert hm).mpr (.inr rfl), rfl, rfl⟩
  have live : ({ s.db with servers, roles, members, memberRoles, channels } :
      Database).liveServer server.server = some ⟨server.server, valid, userId, false⟩ :=
    liveServer_eq_some.mpr ⟨(Table.mem_insert hs).mpr (.inr rfl), rfl, rfl⟩
  unfold Database.seesOwnServer Database.getServer
  rw [if_pos member, live]
  simp

def Store.templateData (s : Store) (code : String) : Option TemplateData :=
  (s.templates.find code).bind TemplateRow.data

theorem createTemplate_data {code name : String} {serverId : Nat}
    (h : createTemplate tcfg s now code userId serverId name = .ok t) :
    t.templateData code = some (snapshotServer tcfg s serverId) := by
  obtain ⟨_, _, h⟩ := returned_bind h
  obtain ⟨_, _, h⟩ := returned_bind h
  simp only [ensure_bind_eq_ok, found_bind_eq_ok, pure_eq_ok] at h
  obtain ⟨_, _, _, templates, inserted, rfl⟩ := h
  rw [Store.templateData]
  simp only [Table.find_inserted inserted, Option.bind_some]

theorem applyTemplate_roles {code name : String} {data : TemplateData}
    (stored : s.templateData code = some data)
    (h : applyTemplate cfg tcfg s now ids userId code name = .ok t) :
    ∃ db, db.seesOwnServer ids.server.server userId = true ∧
      createRoles cfg now ids userId 0 (byRank (fun e => -e.position) data.roles) db = .ok t.db := by
  simp only [applyTemplate, found_bind_eq_ok] at h
  obtain ⟨template, seen, data', there, h⟩ := h
  have same : data' = data := by
    have found := (Option.filter_eq_some_iff.mp seen).1
    rw [Store.templateData, found, Option.bind_some, there] at stored
    exact Option.some.inj stored
  subst same
  obtain ⟨s₁, opened, h⟩ := returned_bind h
  obtain ⟨⟨s₂, map⟩, sorted, h⟩ := returned_bind h
  obtain ⟨s₃, filled, h⟩ := returned_bind h
  obtain ⟨db, made, h⟩ := returned_bind h
  have frame := (createCategories_framed sorted).trans (createChannels_framed filled)
  refine ⟨s₃.db, ?_, ?_⟩
  · rw [seesOwnServer_congr frame.servers frame.members]
    exact openServer_owned opened
  · rw [ofServer_eq_ok.mp made, ← pure_eq_ok.mp h]

theorem createdRoles_eq {rows old : List RoleRow} (appended : t.db.roles.rows = old ++ rows)
    (named : rows.map RoleRow.id = (List.range' 0 rows.length).map ids.role) :
    createdRoles t ids rows.length = rows := by
  have looked : createdRoles t ids rows.length = (rows.map RoleRow.id).filterMap t.db.roles.find := by
    rw [named, List.filterMap_map, createdRoles, List.range_eq_range']
    rfl
  have back : ∀ r ∈ rows, t.db.roles.find r.id = some r := by
    intro r hr
    apply Table.find_eq_some.mpr
    refine ⟨?_, rfl⟩
    rw [Table.mem_rows, appended]
    exact List.mem_append_right _ hr
  rw [looked, List.filterMap_map]
  exact (List.filterMap_congr back).trans List.filterMap_some

/-- A template is recorded from highest to lowest and rebuilt in that order from position one
on: every role comes out, and the order is turned around. -/
theorem template_order_iff {s₁ s₂ s₃ : Store} {now' userId' serverId : Nat}
    {code name serverName : String}
    (recorded : createTemplate tcfg s now code userId serverId name = .ok s₁)
    (kept : s₂.templateData code = s₁.templateData code)
    (applied : applyTemplate cfg tcfg s₂ now' ids userId' code serverName = .ok s₃) :
    let old := recordedRoles tcfg s.db serverId
    let new := createdRoles s₃ ids old.length
    List.Forall₂ (Copied ids.server.server) old new ∧
      (SameOrder (old.zip new) ↔ old.length ≤ 1) ∧
      (KeepsAbove (old.zip new) ↔ ∀ r ∈ old, ∀ q ∈ old, r.position = q.position) := by
  obtain ⟨db, owner, made⟩ := applyTemplate_roles (kept.trans (createTemplate_data recorded)) applied
  rw [snapshotServer, sorted_entries] at made
  obtain ⟨rows, appended, built, rising, _, named⟩ := createRoles_ok owner made
  have size : rows.length = (recordedRoles tcfg s.db serverId).length := by
    rw [← built.length_eq, List.length_map]
  rw [List.length_map, ← size] at named
  simp only [← size, createdRoles_eq appended named]
  have inverted := inverted_zip (recordedRoles_sorted tcfg s.db serverId) rising
  refine ⟨?_, ?_, ?_⟩
  · exact (List.forall₂_map_left_iff.mp built).imp fun r c m =>
      ⟨m.server, m.custom, m.live, m.name, m.permissions⟩
  · rw [inverted.sameOrder_iff, List.length_zip, size, Nat.min_self]
  · rw [inverted.keepsAbove_iff]
    have firsts : ((recordedRoles tcfg s.db serverId).zip rows).map Prod.fst =
        recordedRoles tcfg s.db serverId := List.map_fst_zip size.ge
    constructor
    · intro level r hr q hq
      rw [← firsts] at hr hq
      obtain ⟨p, hp, rfl⟩ := List.mem_map.mp hr
      obtain ⟨p', hp', rfl⟩ := List.mem_map.mp hq
      exact level p hp p' hp'
    · intro level p hp p' hp'
      exact level _ (List.of_mem_zip hp).1 _ (List.of_mem_zip hp').1

end Calls

instance (pairs : List (RoleRow × RoleRow)) : Decidable (SameOrder pairs) :=
  inferInstanceAs (Decidable (∀ p ∈ pairs, ∀ q ∈ pairs, _))

def guild (names : List (Nat × String)) : Option Database :=
  Transition.run (Ownership.step defaultConfig) Database.empty
    ((1, .createServer (Ownership.ids 100) 7 "guild") ::
      names.map fun r => (2, .createRole r.1 7 100 r.2 none))

def twoRoles : Store where
  db := (guild [(301, "moderator"), (302, "admin")]).get (by decide)
  categories := Table.empty
  channelInfo := Table.empty
  templates := Table.empty

def freshIds : NewIds := ⟨Ownership.ids 500, fun i => 600 + i, fun i => 700 + i, fun i => 800 + i⟩

def stored {ε α : Type} (x : Except ε α) (ok : x.isOk = true) : α :=
  match x with
  | .ok a => a
  | .error _ => nomatch ok

theorem eq_stored {ε α : Type} {x : Except ε α} (ok : x.isOk = true) : x = .ok (stored x ok) := by
  cases x with
  | ok a => rfl
  | error e => cases ok

def recordTwo : Result Store :=
  createTemplate defaultTemplateConfig twoRoles 5 "abcdefgh" 7 100 "copy"

theorem recordTwo_ok : recordTwo.isOk = true := by decide +kernel

def rebuildTwo : Result Store :=
  applyTemplate defaultConfig defaultTemplateConfig (stored recordTwo recordTwo_ok) 6 freshIds 7
    "abcdefgh" "second guild"

theorem rebuildTwo_ok : rebuildTwo.isOk = true := by decide +kernel

/-- The admin role above the moderators comes out below them. -/
theorem template_inverts_roles : ¬ ∀ cfg tcfg (s s₁ s₂ s₃ : Store) now now' (ids : NewIds)
    userId userId' serverId code name serverName,
    createTemplate tcfg s now code userId serverId name = .ok s₁ →
    s₂.templateData code = s₁.templateData code →
    applyTemplate cfg tcfg s₂ now' ids userId' code serverName = .ok s₃ →
    SameOrder ((recordedRoles tcfg s.db serverId).zip
      (createdRoles s₃ ids (recordedRoles tcfg s.db serverId).length)) := by
  intro law
  have same := law defaultConfig defaultTemplateConfig twoRoles _ _ _ 5 6 freshIds 7 7 100
    "abcdefgh" "copy" "second guild" (eq_stored recordTwo_ok) rfl (eq_stored rebuildTwo_ok)
  revert same
  decide +kernel

/-- With two roles in the template the order is lost. -/
theorem template_order_iff_two :
    ¬ SameOrder ((recordedRoles defaultTemplateConfig twoRoles.db 100).zip
      (createdRoles (stored rebuildTwo rebuildTwo_ok) freshIds
        (recordedRoles defaultTemplateConfig twoRoles.db 100).length)) := by
  have orders := template_order_iff (eq_stored recordTwo_ok) rfl (eq_stored rebuildTwo_ok)
  rw [orders.2.1]
  decide +kernel

end Plexichat.Servers.Templates
