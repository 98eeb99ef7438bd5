import Plexichat.Servers.Escalation

/-! Where a member who does not own the server can put a role. A call that names a role
compares its old and its new position with the member's highest role; a new role is put
below that role only when it stands above position zero. -/
namespace Plexichat.Servers
open Checks Ownership

inductive RankCall where
  | createRole (roleId serverId : Nat) (name : String) (permissions : Option PermissionDict)
  | updateRole (roleId : Nat) (changes : RoleChanges)
  | moveRole (roleId : Nat) (position : Int)

namespace RankCall

def operation (actor : Nat) : RankCall → Operation
  | createRole roleId serverId name permissions => .createRole roleId actor serverId name permissions
  | updateRole roleId changes => .updateRole actor roleId changes
  | moveRole roleId position => .moveRole actor roleId position

def run (cfg : Config) (db : Database) (now actor : Nat) (call : RankCall) : Outcome Database :=
  perform cfg (db.reader now) now db (call.operation actor)

def role : RankCall → Nat
  | createRole roleId _ _ _ => roleId
  | updateRole roleId _ => roleId
  | moveRole roleId _ => roleId

def server (db : Database) : RankCall → Option Nat
  | createRole _ serverId _ _ => some serverId
  | updateRole roleId _ => (db.roles.find roleId).map RoleRow.serverId
  | moveRole roleId _ => (db.roles.find roleId).map RoleRow.serverId

def creates : RankCall → Bool
  | createRole _ _ _ _ => true
  | _ => false

end RankCall

/-- `get_highest_role_position(_get_member_role_rows(server_id, user_id))`. -/
def Database.highestOf (db : Database) (serverId userId : Nat) : Int :=
  highestRolePosition (memberRoleRows db (db.getMember serverId userId))

/-- The role ends below the actor's highest role, and the roles from there on up are the
rows they were. -/
structure HierarchyKept (db db' : Database) (serverId actor roleId : Nat) : Prop where
  below : ∃ r ∈ db'.roles, r.id = roleId ∧ r.serverId = serverId ∧
    r.position < db'.highestOf serverId actor
  unmoved : db'.highestOf serverId actor = db.highestOf serverId actor
  untouched : ∀ r ∈ db.roles, db.highestOf serverId actor ≤ r.position → r ∈ db'.roles

section Highest

variable {roles : List RoleRow}

theorem position_le_highest {r : RoleRow} (hr : r ∈ roles) :
    r.position ≤ highestRolePosition roles := by
  have listed : r.position ∈ roles.map RoleRow.position := List.mem_map_of_mem hr
  unfold highestRolePosition
  cases top : (roles.map RoleRow.position).max? with
  | none =>
    rw [List.max?_eq_none_iff.mp top] at listed
    cases listed
  | some highest => exact (List.max?_eq_some_iff.mp top).2 _ listed

theorem highest_mem (nonempty : roles ≠ []) : ∃ r ∈ roles, r.position = highestRolePosition roles := by
  unfold highestRolePosition
  cases top : (roles.map RoleRow.position).max? with
  | none => exact absurd (List.map_eq_nil_iff.mp (List.max?_eq_none_iff.mp top)) nonempty
  | some highest => exact List.mem_map.mp (List.max?_eq_some_iff.mp top).1

theorem highest_map {f : RoleRow → RoleRow}
    (moved : ∀ r ∈ roles, f r = r ∨ r.position < highestRolePosition roles ∧
      (f r).position < highestRolePosition roles) :
    highestRolePosition (roles.map f) = highestRolePosition roles := by
  by_cases empty : roles = []
  · rw [empty, List.map_nil]
  · have upper : ∀ r ∈ roles, (f r).position ≤ highestRolePosition roles := by
      intro r hr
      cases moved r hr with
      | inl same =>
        rw [same]
        exact position_le_highest hr
      | inr low => exact low.2.le
    obtain ⟨top, there, highest⟩ := highest_mem empty
    have stays : f top = top := by
      cases moved top there with
      | inl same => exact same
      | inr low => exact absurd highest low.1.ne
    apply le_antisymm
    · have filled : roles.map f ≠ [] := by simpa using empty
      obtain ⟨q, hq, position⟩ := highest_mem filled
      obtain ⟨r, hr, rfl⟩ := List.mem_map.mp hq
      exact position ▸ upper r hr
    · rw [← highest, ← congrArg RoleRow.position stays]
      exact position_le_highest (List.mem_map_of_mem there)

end Highest

theorem mem_updateRoleRow {db : Database} {roleId : Nat} {f : RoleRow → RoleRow} {q : RoleRow} :
    q ∈ (db.updateRoleRow roleId f).roles ↔ ∃ r ∈ db.roles, q = r.rewritten f roleId := by
  simp only [Database.updateRoleRow, Table.mem_update, decide_eq_true_eq, RoleRow.rewritten]

structure IsEveryone (serverId : Nat) (r : RoleRow) : Prop where
  server : r.serverId = serverId
  isDefault : r.isDefault = true
  live : r.deleted = false
  position : r.position = 0

def Everyone (db : Database) : Prop := ∀ s ∈ db.servers, ∃ r ∈ db.roles, IsEveryone s.id r

namespace Everyone

variable {cfg : Config} {rd : Reader} {db db' : Database} {now serverId : Nat}

theorem of_updateRoleRow {roleId : Nat} {f : RoleRow → RoleRow} {r : RoleRow} (hr : r ∈ db.roles)
    (everyone : IsEveryone serverId r)
    (keep : r.id = roleId → IsEveryone serverId { f r with id := r.id }) :
    ∃ q ∈ (db.updateRoleRow roleId f).roles, IsEveryone serverId q := by
  refine ⟨_, mem_updateRoleRow.mpr ⟨r, hr, rfl⟩, ?_⟩
  unfold RoleRow.rewritten
  split
  · rename_i named
    exact keep named
  · exact everyone

theorem of_getRole {roleId userId : Nat} {f : RoleRow → RoleRow} {role r : RoleRow}
    (seen : db.getRole roleId userId = some role) (hr : r ∈ db.roles) (everyone : IsEveryone serverId r)
    (keep : IsEveryone serverId role → IsEveryone serverId { f role with id := role.id }) :
    ∃ q ∈ (db.updateRoleRow roleId f).roles, IsEveryone serverId q := by
  apply of_updateRoleRow hr everyone
  intro named
  obtain ⟨known, id, _⟩ := getRole_eq_some seen
  obtain rfl : r = role := Table.eq_of_key hr known (named.trans id.symm)
  exact keep everyone

theorem updateRole {userId roleId : Nat} {changes : RoleChanges}
    (h : Servers.updateRole cfg rd db userId roleId changes = .ok db') {r : RoleRow}
    (hr : r ∈ db.roles) (everyone : IsEveryone serverId r) :
    ∃ q ∈ db'.roles, IsEveryone serverId q := by
  simp only [Servers.updateRole, found_bind_eq_ok, Reader.requirePermission, ensure_bind_eq_ok] at h
  obtain ⟨role, seen, _, _, h⟩ := h
  obtain ⟨_, _, h⟩ := returned_bind h
  obtain ⟨_, checked, h⟩ := returned_bind h
  obtain ⟨name, _, h⟩ := returned_bind h
  rw [← pure_eq_ok.mp h]
  apply of_getRole seen hr everyone
  intro here
  refine ⟨here.server, here.isDefault, here.live, ?_⟩
  cases position : changes.position with
  | none => simpa only [RoleChanges.apply, position, Option.getD_none] using here.position
  | some p =>
    rw [position] at checked
    simp only [checkNewPosition, ensure_bind_eq_ok, here.isDefault] at checked
    have same : p = role.position := by simpa using checked.1
    simpa only [RoleChanges.apply, position, Option.getD_some, same] using here.position

theorem deleteRole {userId roleId : Nat} (h : Servers.deleteRole rd db userId roleId = .ok db')
    {r : RoleRow} (hr : r ∈ db.roles) (everyone : IsEveryone serverId r) :
    ∃ q ∈ db'.roles, IsEveryone serverId q := by
  simp only [Servers.deleteRole, found_bind_eq_ok, Reader.requirePermission, ensure_bind_eq_ok,
    pure_eq_ok] at h
  obtain ⟨role, seen, _, custom, _, rfl⟩ := h
  apply of_getRole (f := fun r => { r with deleted := true }) seen hr everyone
  intro here
  rw [here.isDefault] at custom
  cases custom

theorem moveRole {userId roleId : Nat} {position : Int}
    (h : Servers.moveRole rd db userId roleId position = .ok db') {r : RoleRow}
    (hr : r ∈ db.roles) (everyone : IsEveryone serverId r) :
    ∃ q ∈ db'.roles, IsEveryone serverId q := by
  simp only [Servers.moveRole, found_bind_eq_ok, Reader.requirePermission, ensure_bind_eq_ok,
    pure_eq_ok] at h
  obtain ⟨role, seen, _, custom, _, _, rfl⟩ := h
  apply of_getRole seen hr everyone
  intro here
  rw [here.isDefault] at custom
  cases custom

theorem roles_purgeRows (db : Database) (rows : List MemberRow) :
    (rows.foldl Database.purgeRow db).roles = db.roles := by
  induction rows generalizing db with
  | nil => rfl
  | cons m rows ih =>
    rw [List.foldl_cons, ih]
    unfold Database.purgeRow
    split
    · rfl
    · rfl

theorem kept {op : Operation} (h : Servers.perform cfg (db.reader now) now db op = .ok db')
    {r : RoleRow} (hr : r ∈ db.roles) (everyone : IsEveryone serverId r) :
    ∃ q ∈ db'.roles, IsEveryone serverId q := by
  have of_same : db'.roles = db.roles → ∃ q ∈ db'.roles, IsEveryone serverId q :=
    fun same => ⟨r, same ▸ hr, everyone⟩
  cases op with
  | createServer ids ownerId name =>
    obtain ⟨_, _, _, _, _, _, _, inserted, _, _, _, rfl⟩ := createServer_ok h
    exact ⟨r, (Table.mem_insert inserted).mpr (.inl hr), everyone⟩
  | deleteServer userId target =>
    simp only [Servers.perform, Servers.deleteServer, found_bind_eq_ok, ensure_bind_eq_ok,
      pure_eq_ok] at h
    obtain ⟨_, _, _, rfl⟩ := h
    exact of_same rfl
  | transferOwnership userId target newOwnerId =>
    obtain ⟨_, _, rfl⟩ := transferOwnership_ok h
    exact of_same rfl
  | addMember memberId target userId inviterId temporary =>
    obtain ⟨_, _, _, _, _, rfl⟩ := (addMember_ok h).rows
    exact of_same rfl
  | useInvite memberId userId code =>
    obtain ⟨_, _, joined⟩ := useInvite_ok h
    obtain ⟨_, _, _, _, _, rfl⟩ := joined.rows
    exact of_same rfl
  | kickMember userId target memberUserId =>
    obtain ⟨_, _, _, rfl⟩ := kickMember_ok rfl h
    exact of_same rfl
  | banMember userId target memberUserId deleteMessageDays =>
    obtain ⟨_, _, result⟩ := banMember_ok rfl h
    cases result with
    | inl expelled =>
      obtain ⟨_, _, _, rfl⟩ := expelled
      exact of_same rfl
    | inr outside =>
      obtain ⟨_, _, rfl⟩ := outside
      exact of_same rfl
  | unbanMember userId target bannedUserId =>
    obtain ⟨_, rfl⟩ := unbanMember_ok h
    exact of_same rfl
  | removeMember userId target =>
    obtain ⟨_, _, _, rfl⟩ := removeMember_ok rfl h
    exact of_same rfl
  | purgeTemporaryMembers userId =>
    rw [← Except.ok.inj h]
    exact ⟨r, (roles_purgeRows db _).symm ▸ hr, everyone⟩
  | updateMember userId target memberUserId changes =>
    rw [updateMember_eq h]
    exact ⟨r, hr, everyone⟩
  | issueInvite invite =>
    obtain ⟨_, rfl⟩ := issueInvite_ok h
    exact of_same rfl
  | deleteInvite userId code =>
    obtain ⟨_, rfl⟩ := deleteInvite_ok h
    exact of_same rfl
  | createRole roleId userId target name permissions =>
    obtain ⟨_, _, _, _, inserted, rfl⟩ := createRole_ok h
    exact ⟨r, (Table.mem_insert inserted).mpr (.inl hr), everyone⟩
  | updateRole userId roleId changes => exact updateRole h hr everyone
  | deleteRole userId roleId => exact deleteRole h hr everyone
  | moveRole userId roleId position => exact moveRole h hr everyone
  | assignRole userId target memberUserId roleId =>
    obtain ⟨_, _, _, _, _, _, result⟩ := assignRole_ok h
    cases result with
    | inl held => exact of_same (held.2 ▸ rfl)
    | inr inserted =>
      obtain ⟨_, _, rfl⟩ := inserted
      exact of_same rfl
  | removeRole userId target memberUserId roleId =>
    obtain ⟨_, _, rfl⟩ := removeRole_ok h
    exact of_same rfl
  | setChannelOverride userId channelId targetType targetId allow deny =>
    obtain ⟨_, _, _, rfl, _⟩ := setChannelOverride_ok h
    exact of_same rfl
  | deleteChannelOverride userId channelId targetType targetId =>
    obtain ⟨_, _, _, rfl, _⟩ := deleteChannelOverride_ok h
    exact of_same rfl

theorem mem_updateServer {f : ServerRow → ServerRow} {s : ServerRow}
    (h : s ∈ (db.updateServer serverId f).servers) : ∃ t ∈ db.servers, t.id = s.id := by
  simp only [Database.updateServer, Table.mem_update] at h
  obtain ⟨t, ht, rfl⟩ := h
  refine ⟨t, ht, ?_⟩
  split
  · rfl
  · rfl

theorem served (change : Change db db') {s : ServerRow} (hs : s ∈ db'.servers) :
    (∃ t ∈ db.servers, t.id = s.id) ∨ ∃ r ∈ db'.roles, IsEveryone s.id r := by
  cases change with
  | serverCreated ids ownerId name inserted hr hm ha hc =>
    cases (Table.mem_insert inserted).mp hs with
    | inl old => exact .inl ⟨s, old, rfl⟩
    | inr new =>
      subst new
      exact .inr ⟨everyoneRole ids, (Table.mem_insert hr).mpr (.inr rfl), rfl, rfl, rfl, rfl⟩
  | serverDeleted target => exact .inl (mem_updateServer hs)
  | transferred target newOwnerId member => exact .inl (mem_updateServer hs)
  | _ => exact .inl ⟨s, hs, rfl⟩

theorem perform {op : Operation} (everyone : Everyone db)
    (h : Servers.perform cfg (db.reader now) now db op = .ok db') : Everyone db' := by
  intro s hs
  have origin : (∃ t ∈ db.servers, t.id = s.id) ∨ ∃ r ∈ db'.roles, IsEveryone s.id r := by
    cases perform_change rfl h with
    | inl change => exact served change hs
    | inr purge =>
      obtain ⟨userId, _, rfl⟩ := purge
      rw [purgeTemporaryMembers, (purgeRows_frame db _).1] at hs
      exact .inl ⟨s, hs, rfl⟩
  cases origin with
  | inl old =>
    obtain ⟨t, ht, id⟩ := old
    obtain ⟨r, hr, here⟩ := everyone t ht
    exact kept h hr (id ▸ here)
  | inr new => exact new

theorem of_reachable (h : Transition.Reachable (step cfg) (· = Database.empty) db) :
    Everyone db := by
  apply Transition.guarded_invariant _ _ h
  · intro db first s hs
    subst first
    cases hs
  · intro db ⟨now, op⟩ db' everyone _ next
    simp only [step] at next
    split at next
    · rename_i result returned
      cases next
      exact everyone.perform returned
    · cases next
      exact everyone

theorem nextPosition_pos (everyone : Everyone db) {ownerId : Nat}
    (owner : db.ownerOf serverId = some ownerId) : 0 < db.nextPosition serverId := by
  obtain ⟨s, live, _⟩ := Option.map_eq_some_iff.mp owner
  obtain ⟨hs, rfl, _⟩ := liveServer_eq_some.mp live
  obtain ⟨r, hr, here⟩ := everyone s hs
  have listed : r ∈ db.liveRoles s.id := by
    refine List.mem_filter.mpr ⟨hr, ?_⟩
    simp [here.server, here.live]
  have above := position_le_highest listed
  rw [here.position] at above
  exact Int.lt_add_one_of_le above

end Everyone

section Calls

variable {cfg : Config} {db db' : Database} {now actor serverId roleId : Nat}

theorem roleRows_highest (db : Database) (now serverId userId : Nat) :
    highestRolePosition ((db.reader now).roleRows db serverId userId) =
      db.highestOf serverId userId := rfl

theorem owned_of_required {rd : Reader} {permission : String} (answers : rd = db.reader now)
    (h : rd.hasPermission actor serverId permission 0 = true) :
    ∃ ownerId, db.ownerOf serverId = some ownerId := by
  subst answers
  cases owner : db.ownerOf serverId with
  | none =>
    simp only [Database.reader, Database.getPermissions, owner, checkPermission,
      Permissions.has] at h
    cases named : wildcard permission with
    | none => simp [named] at h
    | some w => simp [named, Permissions.has] at h
  | some ownerId => exact ⟨ownerId, rfl⟩

theorem not_seesOwnServer (other : db.ownerOf serverId ≠ some actor) :
    db.seesOwnServer serverId actor = false := by
  apply Bool.eq_false_iff.mpr
  intro sees
  obtain ⟨s, seen, owner⟩ := (Option.any_eq_true _ _).mp sees
  apply other
  rw [Database.ownerOf, (getServer_eq_some seen).2, Option.map_some, of_decide_eq_true owner]

theorem createRole_row {name : String} {permissions : Option PermissionDict}
    (h : createRole cfg (db.reader now) db roleId actor serverId name permissions = .ok db') :
    (∃ ownerId, db.ownerOf serverId = some ownerId) ∧ ∃ roles, db.roles.insert
        { id := roleId, serverId, name := strip name, permissions := permissions.getD Table.empty,
          position := newRolePosition (db.reader now) db actor serverId, isDefault := false,
          deleted := false } = some roles ∧
      db' = { db with roles } := by
  simp only [createRole, Reader.requirePermission, ensure_bind_eq_ok] at h
  obtain ⟨granted, h⟩ := h
  obtain ⟨valid, named, h⟩ := returned_bind h
  obtain ⟨_, _, h⟩ := returned_bind h
  obtain ⟨_, _, h⟩ := returned_bind h
  simp only [ensure_bind_eq_ok, Database.insertRole, found_bind_eq_ok, pure_eq_ok] at h
  obtain ⟨_, roles, inserted, rfl⟩ := h
  simp only [validateRoleName, ensure_bind_eq_ok, pure_eq_ok] at named
  obtain ⟨_, _, rfl⟩ := named
  exact ⟨owned_of_required rfl granted, roles, inserted, rfl⟩

structure Lowered (db db' : Database) (serverId actor roleId : Nat) (role : RoleRow)
    (f : RoleRow → RoleRow) : Prop where
  known : role ∈ db.roles
  named : role.id = roleId
  home : role.serverId = serverId
  before : role.position < db.highestOf serverId actor
  after : (f role).position < db.highestOf serverId actor
  server : ∀ r, (f r).serverId = r.serverId
  live : ∀ r, (f r).deleted = r.deleted
  result : db' = db.updateRoleRow roleId f

theorem below_of_canManage {userRoles : List RoleRow} {position : Int}
    (h : canManageRole userRoles position false = true) :
    position < highestRolePosition userRoles := by
  simpa [canManageRole] using h

theorem updateRole_lowered {changes : RoleChanges} (other : db.ownerOf serverId ≠ some actor)
    (server : (db.roles.find roleId).map RoleRow.serverId = some serverId)
    (h : updateRole cfg (db.reader now) db actor roleId changes = .ok db') :
    ∃ role f, Lowered db db' serverId actor roleId role f := by
  simp only [updateRole, found_bind_eq_ok, Reader.requirePermission, ensure_bind_eq_ok] at h
  obtain ⟨role, seen, _, manages, h⟩ := h
  obtain ⟨_, _, h⟩ := returned_bind h
  obtain ⟨_, checked, h⟩ := returned_bind h
  obtain ⟨name, _, h⟩ := returned_bind h
  obtain ⟨known, named, _⟩ := getRole_eq_some seen
  rw [Table.find_eq_some.mpr ⟨known, named⟩, Option.map_some, Option.some_inj] at server
  subst server
  rw [not_seesOwnServer other] at manages checked
  have before : role.position < db.highestOf role.serverId actor := below_of_canManage manages
  refine ⟨role, changes.apply name, known, named, rfl, before, ?_, fun _ => rfl, fun _ => rfl,
    (pure_eq_ok.mp h).symm⟩
  cases position : changes.position with
  | none => simpa only [RoleChanges.apply, position, Option.getD_none] using before
  | some p =>
    rw [position] at checked
    simp only [checkNewPosition, ensure_bind_eq_ok, ensure_eq_ok, Bool.false_eq_true,
      false_or] at checked
    simp only [RoleChanges.apply, position, Option.getD_some]
    by_cases same : p = role.position
    · exact same ▸ before
    · exact checked.2 same

theorem moveRole_lowered {position : Int} (other : db.ownerOf serverId ≠ some actor)
    (server : (db.roles.find roleId).map RoleRow.serverId = some serverId)
    (h : moveRole (db.reader now) db actor roleId position = .ok db') :
    ∃ role f, Lowered db db' serverId actor roleId role f := by
  simp only [moveRole, found_bind_eq_ok, Reader.requirePermission, ensure_bind_eq_ok,
    pure_eq_ok] at h
  obtain ⟨role, seen, _, _, manages, below, rfl⟩ := h
  obtain ⟨known, named, _⟩ := getRole_eq_some seen
  rw [Table.find_eq_some.mpr ⟨known, named⟩, Option.map_some, Option.some_inj] at server
  subst server
  rw [not_seesOwnServer other] at manages below
  exact ⟨role, fun r => { r with position }, known, named, rfl, below_of_canManage manages,
    below.resolve_left Bool.false_ne_true, fun _ => rfl, fun _ => rfl, rfl⟩

theorem mem_rolesOf {memberId : Nat} {r : RoleRow} (hr : r ∈ db.rolesOf memberId) :
    r ∈ db.roles := by
  obtain ⟨a, _, joined⟩ := List.mem_filterMap.mp hr
  exact (Table.find_eq_some.mp (Option.filter_eq_some_iff.mp joined).1).1

theorem Lowered.highest {role : RoleRow} {f : RoleRow → RoleRow}
    (low : Lowered db db' serverId actor roleId role f) :
    db'.highestOf serverId actor = db.highestOf serverId actor := by
  have same : db'.getMember serverId actor = db.getMember serverId actor := by
    rw [low.result]
    rfl
  have before := low.before
  have after := low.after
  unfold Database.highestOf at before after ⊢
  rw [same]
  cases row : db.getMember serverId actor with
  | none => rfl
  | some m =>
    rw [row] at before after
    simp only [memberRoleRows] at before after ⊢
    rw [low.result, rolesOf_updateRoleRow low.live]
    apply highest_map
    intro r hr
    unfold RoleRow.rewritten
    by_cases named : r.id = roleId
    · obtain rfl : r = role := Table.eq_of_key (mem_rolesOf hr) low.known
        (named.trans low.named.symm)
      rw [if_pos named]
      exact .inr ⟨before, after⟩
    · rw [if_neg named]
      exact .inl rfl

theorem Lowered.kept {role : RoleRow} {f : RoleRow → RoleRow}
    (low : Lowered db db' serverId actor roleId role f) :
    HierarchyKept db db' serverId actor roleId := by
  have highest := low.highest
  refine ⟨?_, highest, ?_⟩
  · rw [highest, low.result]
    refine ⟨role.rewritten f roleId, mem_updateRoleRow.mpr ⟨role, low.known, rfl⟩, ?_⟩
    unfold RoleRow.rewritten
    rw [if_pos low.named]
    exact ⟨low.named, (low.server role).trans low.home, low.after⟩
  · intro r hr above
    have apart : r.id ≠ roleId := by
      intro named
      obtain rfl : r = role := Table.eq_of_key hr low.known (named.trans low.named.symm)
      exact absurd low.before above.not_gt
    rw [low.result]
    refine mem_updateRoleRow.mpr ⟨r, hr, ?_⟩
    rw [RoleRow.rewritten, if_neg apart]

theorem newRolePosition_lt_iff (other : db.ownerOf serverId ≠ some actor)
    (free : 0 < db.nextPosition serverId) :
    newRolePosition (db.reader now) db actor serverId < db.highestOf serverId actor ↔
      0 < db.highestOf serverId actor := by
  unfold newRolePosition
  simp only [not_seesOwnServer other, true_and, roleRows_highest]
  split
  · rename_i clamped
    omega
  · rename_i unclamped
    omega

theorem highestOf_insertRole (ok : Consistent db) {r : RoleRow} {roles}
    (inserted : db.roles.insert r = some roles) (serverId userId : Nat) :
    ({ db with roles } : Database).highestOf serverId userId = db.highestOf serverId userId := by
  have same : ({ db with roles } : Database).getMember serverId userId =
      db.getMember serverId userId := rfl
  unfold Database.highestOf
  rw [same]
  cases db.getMember serverId userId with
  | none => rfl
  | some m => simp only [memberRoleRows, rolesOf_insertRole ok inserted]

theorem createRole_kept_iff (ok : Consistent db) (everyone : Everyone db)
    (other : db.ownerOf serverId ≠ some actor) {name : String}
    {permissions : Option PermissionDict}
    (h : createRole cfg (db.reader now) db roleId actor serverId name permissions = .ok db') :
    HierarchyKept db db' serverId actor roleId ↔ 0 < db.highestOf serverId actor := by
  obtain ⟨⟨ownerId, owner⟩, roles, inserted, rfl⟩ := createRole_row h
  have highest := highestOf_insertRole ok inserted serverId actor
  have placed : newRolePosition (db.reader now) db actor serverId < db.highestOf serverId actor ↔
      0 < db.highestOf serverId actor :=
    newRolePosition_lt_iff other (everyone.nextPosition_pos owner)
  constructor
  · intro kept
    obtain ⟨q, hq, id, _, below⟩ := kept.below
    obtain rfl := Table.eq_of_key hq ((Table.mem_insert inserted).mpr (.inr rfl)) id
    rw [highest] at below
    exact placed.mp below
  · intro above
    refine ⟨⟨_, (Table.mem_insert inserted).mpr (.inr rfl), rfl, rfl, ?_⟩, highest, ?_⟩
    · rw [highest]
      exact placed.mpr above
    · intro q hq _
      exact (Table.mem_insert inserted).mpr (.inl hq)

/-- A call by anyone but the owner keeps the hierarchy, unless it creates a role for a member
who holds none above position zero. -/
theorem hierarchy_kept_iff {call : RankCall}
    (reached : Transition.Reachable (step cfg) (· = Database.empty) db)
    (other : db.ownerOf serverId ≠ some actor) (server : call.server db = some serverId)
    (h : call.run cfg db now actor = .ok db') :
    HierarchyKept db db' serverId actor call.role ↔
      (call.creates = true → 0 < db.highestOf serverId actor) := by
  have existing : ∀ roleId role f, Lowered db db' serverId actor roleId role f →
      (HierarchyKept db db' serverId actor roleId ↔
        (false = true → 0 < db.highestOf serverId actor)) :=
    fun _ _ _ low => iff_of_true low.kept nofun
  cases call with
  | createRole roleId target name permissions =>
    cases server
    have created := createRole_kept_iff (Consistent.of_reachable reached)
      (Everyone.of_reachable reached) other h
    exact created.trans ⟨fun above _ => above, fun above => above rfl⟩
  | updateRole roleId changes =>
    obtain ⟨role, f, low⟩ := updateRole_lowered other server h
    exact existing roleId role f low
  | moveRole roleId position =>
    obtain ⟨role, f, low⟩ := moveRole_lowered other server h
    exact existing roleId role f low

end Calls

def openRoles : List (Nat × Operation) :=
  [(1, .createServer (Ownership.ids 100) 7 "guild"),
    (2, .updateRole 7 101 ⟨none, some (sampleDict ["roles.manage"] (by decide)), none⟩),
    (3, .addMember 200 100 8 none false)]

def openServer : Database :=
  (Transition.run (step defaultConfig) Database.empty openRoles).get (by decide)

theorem openServer_reachable :
    Transition.Reachable (step defaultConfig) (· = Database.empty) openServer :=
  Transition.reachable_of_run _ rfl (Option.some_get _).symm

/-- The role that user 8 creates stands at position one, above all that user 8 holds. -/
theorem new_role_above_default : ¬ ∀ cfg db db' now actor serverId (call : RankCall),
    Transition.Reachable (step cfg) (· = Database.empty) db →
    db.ownerOf serverId ≠ some actor → call.server db = some serverId →
    call.run cfg db now actor = .ok db' → HierarchyKept db db' serverId actor call.role := by
  intro law
  let call : RankCall := .createRole 300 100 "boss" none
  have run : (call.run defaultConfig openServer 5 8).isOk = true := by decide +kernel
  have placed : ∀ r ∈ (returned _ run).roles.rows, r.id = 300 →
      ¬ r.position < (returned _ run).highestOf 100 8 := by decide +kernel +revert
  have kept := law defaultConfig openServer (returned _ run) 5 8 100 call openServer_reachable
    (by decide +kernel) rfl (eq_returned run)
  obtain ⟨r, hr, named, _, below⟩ := kept.below
  exact placed r hr named below

/-- A moderator at position one creates a role below himself. -/
theorem hierarchy_kept_moderator : ∃ db', HierarchyKept moderated db' 100 8 301 := by
  let call : RankCall := .createRole 301 100 "helper" none
  have run : (call.run defaultConfig moderated 5 8).isOk = true := by decide
  have target : call.server moderated = some 100 := rfl
  have reached : Transition.Reachable (step defaultConfig) (· = Database.empty) moderated :=
    Transition.reachable_of_run _ rfl (Option.some_get _).symm
  have kept := hierarchy_kept_iff reached (by decide) target (eq_returned run)
  exact ⟨returned _ run, kept.mpr (by decide)⟩

end Plexichat.Servers
