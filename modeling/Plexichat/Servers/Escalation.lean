import Plexichat.Servers.Consistency

/-! Which permissions a successful role or override call hands out that its actor
does not hold. The grant check covers the permissions of the role itself; channel
overrides and the order of the roles are outside it. -/
namespace Plexichat.Servers
open Layers Checks

inductive RoleCall where
  | createRole (roleId serverId : Nat) (name : String) (permissions : Option PermissionDict)
  | updateRole (roleId : Nat) (changes : RoleChanges)
  | assignRole (serverId memberUserId roleId : Nat)
  | setChannelOverride (channelId : Nat) (targetType : String) (targetId : Nat)
      (allow deny : Option PermissionDict)

namespace RoleCall

def operation (actor : Nat) : RoleCall → Operation
  | createRole roleId serverId name permissions => .createRole roleId actor serverId name permissions
  | updateRole roleId changes => .updateRole actor roleId changes
  | assignRole serverId memberUserId roleId => .assignRole actor serverId memberUserId roleId
  | setChannelOverride channelId targetType targetId allow deny =>
    .setChannelOverride actor channelId targetType targetId allow deny

def run (cfg : Config) (db : Database) (now actor : Nat) (call : RoleCall) : Outcome Database :=
  perform cfg (db.reader now) now db (call.operation actor)

def server (db : Database) : RoleCall → Option Nat
  | createRole _ serverId _ _ => some serverId
  | updateRole roleId _ => (db.roles.find roleId).map RoleRow.serverId
  | assignRole serverId _ _ => some serverId
  | setChannelOverride channelId _ _ _ _ => (db.channels.find channelId).map ChannelRow.serverId

end RoleCall

def granted (db : Database) (now userId serverId channelId : Nat) (p : String) : Bool :=
  (db.getPermissions now userId serverId channelId).has p

/-- The actor has `p` in the server or in the channel, wildcards counted. -/
def Held (db : Database) (now actor serverId channelId : Nat) (p : String) : Prop :=
  checkPermission (db.getPermissions now actor serverId 0) p = true ∨
    checkPermission (db.getPermissions now actor serverId channelId) p = true

def NoEscalation (db db' : Database) (now actor serverId : Nat) : Prop :=
  ∀ userId channelId p, p ∈ serverPermissions → granted db now userId serverId channelId p = false →
    granted db' now userId serverId channelId p = true → Held db now actor serverId channelId p

/-- The member is subject to the layers for `p`: neither owner nor administrator, and not
timed out of it. -/
structure Exposed (db : Database) (now serverId userId : Nat) (p : String) (m : MemberRow) : Prop
    where
  row : db.memberRow serverId userId = some m
  bound : ∃ ownerId, db.ownerOf serverId = some ownerId ∧
    unrestricted ownerId userId (db.rolesOf m.id) = false
  active : suspended m.toMember now p = false

def Database.roleDecisions (db : Database) (channelId : Nat) (p : String) (roles : List RoleRow) :
    List (Option Bool) := roles.map fun r => db.roleDecision channelId p r.id

def RoleChanges.rank (changes : RoleChanges) (roleId : Nat) (r : RoleRow) : Int :=
  if r.id = roleId then changes.position.getD r.position else r.position

def Database.decisionAbove (db : Database) (channelId : Nat) (p : String) (roles : List RoleRow)
    (rank : RoleRow → Int) (roleId : Nat) : Option Bool :=
  decision (db.roleDecisions channelId p (above (fun r => r.id = roleId) (byRank rank roles)))

/-- The call turns `p` on for a member who is exposed to it. Everything is read in the
tables before the call. -/
def RoleCall.Raises (db : Database) (m : MemberRow) (channelId : Nat) (p : String) :
    RoleCall → Prop
  | .createRole _ _ _ _ => False
  -- the move carries the role's allow past a deny, or its deny below an allow
  | .updateRole roleId changes =>
    channelId ≠ 0 ∧ (∃ r ∈ db.rolesOf m.id, r.id = roleId) ∧
    db.memberDecision channelId p m.userId = none ∧
    let before := db.decisionAbove channelId p (db.rolesOf m.id) RoleRow.position roleId
    let after := db.decisionAbove channelId p (db.rolesOf m.id) (changes.rank roleId) roleId
    (db.roleDecision channelId p roleId = some true ∧ before = some false ∧ after = none) ∨
      (db.roleDecision channelId p roleId = some false ∧ before = none ∧ after = some true)
  -- the override that the channel has for the role allows, and nothing above it decides
  | .assignRole _ memberUserId roleId =>
    channelId ≠ 0 ∧ m.userId = memberUserId ∧ ⟨m.id, roleId⟩ ∉ db.memberRoles.rows ∧
    db.memberDecision channelId p m.userId = none ∧ ∃ role ∈ db.roles, role.id = roleId ∧
    let ranked := byRank RoleRow.position (db.rolesOf m.id)
    decision (db.roleDecisions channelId p (ranked.filter (role.position < ·.position))) = none ∧
      Lifts none (db.roleDecision channelId p roleId)
        (resolve (grantedByRoles (db.rolesOf m.id) p)
          (db.roleDecisions channelId p (ranked.filter (·.position ≤ role.position))))
  -- the new override lifts the value below it, and nothing above it decides
  | .setChannelOverride target targetType targetId allow deny =>
    channelId ≠ 0 ∧ channelId = target ∧
    let ranked := byRank RoleRow.position (db.rolesOf m.id)
    let base := grantedByRoles (db.rolesOf m.id) p
    let new := OverrideRow.decide
      ⟨target, targetType, targetId, allow.getD Table.empty, deny.getD Table.empty⟩ p
    (targetType = "member" ∧ targetId = m.userId ∧
      Lifts (db.memberDecision channelId p m.userId) new
        (resolve base (db.roleDecisions channelId p ranked))) ∨
    (targetType = "role" ∧ (∃ r ∈ db.rolesOf m.id, r.id = targetId) ∧
      db.memberDecision channelId p m.userId = none ∧
      db.decisionAbove channelId p (db.rolesOf m.id) RoleRow.position targetId = none ∧
      Lifts (db.roleDecision channelId p targetId) new
        (resolve base (db.roleDecisions channelId p
          (below (fun r => r.id = targetId) ranked))))

section Gain

variable {db db' : Database} {now serverId userId channelId : Nat} {p : String}

theorem granted_of_row {ownerId : Nat} {m : MemberRow} (vocabulary : p ∈ serverPermissions)
    (owner : db.ownerOf serverId = some ownerId) (row : db.memberRow serverId userId = some m) :
    granted db now userId serverId channelId p =
      (!suspended m.toMember now p && (unrestricted ownerId userId (db.rolesOf m.id) ||
        resolve (grantedByRoles (db.rolesOf m.id) p)
          (db.layers (db.rolesOf m.id) userId channelId p))) := by
  unfold granted Database.getPermissions Database.getMember
  rw [owner, row]
  exact calculatePermissions_has vocabulary

theorem getPermissions_of_outsider (servers : db'.servers = db.servers)
    (members : db'.members = db.members) (outsider : db.memberRow serverId userId = none) :
    db'.getPermissions now userId serverId channelId =
      db.getPermissions now userId serverId channelId := by
  have outsider' : db'.memberRow serverId userId = none := by
    unfold Database.memberRow
    rw [members]
    exact outsider
  unfold Database.getPermissions Database.getMember Database.ownerOf Database.liveServer
  rw [servers, outsider, outsider']
  rfl

theorem gain_iff (vocabulary : p ∈ serverPermissions) (servers : db'.servers = db.servers)
    (members : db'.members = db.members)
    (plain : ∀ memberId, isAdministrator (db.rolesOf memberId) = false →
      isAdministrator (db'.rolesOf memberId) = false) :
    (granted db now userId serverId channelId p = false ∧
      granted db' now userId serverId channelId p = true) ↔
    ∃ m, Exposed db now serverId userId p m ∧
      resolve (grantedByRoles (db.rolesOf m.id) p)
        (db.layers (db.rolesOf m.id) userId channelId p) = false ∧
      resolve (grantedByRoles (db'.rolesOf m.id) p)
        (db'.layers (db'.rolesOf m.id) userId channelId p) = true := by
  have ownerOf : db'.ownerOf serverId = db.ownerOf serverId := by
    unfold Database.ownerOf Database.liveServer
    rw [servers]
  have memberRow : db'.memberRow serverId userId = db.memberRow serverId userId := by
    unfold Database.memberRow
    rw [members]
  constructor
  · intro gain
    cases row : db.memberRow serverId userId with
    | none =>
      unfold granted at gain
      rw [getPermissions_of_outsider servers members row, gain.1] at gain
      cases gain.2
    | some m =>
      cases owner : db.ownerOf serverId with
      | none =>
        unfold granted Database.getPermissions at gain
        rw [ownerOf, owner] at gain
        cases gain.2
      | some ownerId =>
        rw [granted_of_row vocabulary owner row,
          granted_of_row vocabulary (ownerOf.trans owner) (memberRow.trans row)] at gain
        simp only [Bool.and_eq_true, Bool.not_eq_true', Bool.and_eq_false_iff,
          Bool.not_eq_false'] at gain
        obtain ⟨before, active, after⟩ := gain
        obtain ⟨free, low⟩ := Bool.or_eq_false_iff.mp
          (before.resolve_left (by rw [active]; decide))
        have exposed : Exposed db now serverId userId p m := ⟨row, ⟨ownerId, owner, free⟩, active⟩
        have bound : unrestricted ownerId userId (db'.rolesOf m.id) = false := by
          obtain ⟨other, weak⟩ := Bool.or_eq_false_iff.mp free
          exact Bool.or_eq_false_iff.mpr ⟨other, plain m.id weak⟩
        rw [bound, Bool.false_or] at after
        exact ⟨m, exposed, low, after⟩
  · intro h
    obtain ⟨m, exposed, low, high⟩ := h
    obtain ⟨ownerId, owner, free⟩ := exposed.bound
    rw [granted_of_row vocabulary owner exposed.row,
      granted_of_row vocabulary (ownerOf.trans owner) (memberRow.trans exposed.row), exposed.active,
      free, low, high]
    exact ⟨rfl, by simp⟩

theorem layers_eq (roles : List RoleRow) (channel : channelId ≠ 0) :
    db.layers roles userId channelId p =
      db.roleDecisions channelId p (byRank RoleRow.position roles) ++
        [db.memberDecision channelId p userId] := if_neg channel

theorem topped_iff {a b : Bool} (d : Option Bool) :
    (d.getD a = false ∧ d.getD b = true) ↔ d = none ∧ a = false ∧ b = true := by
  cases d with
  | none => simp
  | some v => simp

theorem ranked_split {roles : List RoleRow} (unique : (roles.map RoleRow.id).Nodup) {r : RoleRow}
    (hr : r ∈ roles) (rank : RoleRow → Int) :
    byRank rank roles = below (fun q => q.id = r.id) (byRank rank roles) ++
      r :: above (fun q => q.id = r.id) (byRank rank roles) := by
  apply split_at (mem_byRank.mpr hr)
  intro q hq
  rw [decide_eq_true_eq]
  constructor
  · intro same
    exact List.inj_on_of_nodup_map unique (mem_byRank.mp hq) hr same
  · intro same
    exact congrArg RoleRow.id same

end Gain

theorem rolesOf_insertRole {db : Database} (ok : Consistent db) {r : RoleRow} {roles}
    (inserted : db.roles.insert r = some roles) (memberId : Nat) :
    ({ db with roles } : Database).rolesOf memberId = db.rolesOf memberId := by
  have unused := Table.find_eq_none.mp (Table.insert_eq_some inserted).1
  unfold Database.rolesOf
  apply List.filterMap_congr
  intro a ha
  have apart : r.id ≠ a.roleId := by
    intro same
    obtain ⟨q, hq, id⟩ := ok.assignedRole a (List.mem_filter.mp ha).1
    exact unused q hq (id.trans same.symm)
  rw [Table.find_insert inserted, if_neg apart]

def RoleRow.rewritten (f : RoleRow → RoleRow) (roleId : Nat) (r : RoleRow) : RoleRow :=
  if r.id = roleId then { f r with id := r.id } else r

theorem rewritten_id (f : RoleRow → RoleRow) (roleId : Nat) (r : RoleRow) :
    (r.rewritten f roleId).id = r.id := by
  unfold RoleRow.rewritten
  split
  · rfl
  · rfl

theorem rolesOf_updateRoleRow {db : Database} {roleId : Nat} {f : RoleRow → RoleRow}
    (live : ∀ r, (f r).deleted = r.deleted) (memberId : Nat) :
    (db.updateRoleRow roleId f).rolesOf memberId =
      (db.rolesOf memberId).map (RoleRow.rewritten f roleId) := by
  unfold Database.rolesOf Database.updateRoleRow
  rw [List.map_filterMap]
  apply List.filterMap_congr
  intro a _
  simp only [Table.find_update]
  cases db.roles.find a.roleId with
  | none => rfl
  | some r =>
    have kept : (r.rewritten f roleId).deleted = r.deleted := by
      unfold RoleRow.rewritten
      split
      · exact live r
      · rfl
    have same : (if decide (r.id = roleId) = true then { f r with id := r.id } else r) =
        r.rewritten f roleId := by
      simp only [decide_eq_true_eq, RoleRow.rewritten]
    simp only [Option.map_some, same, Option.filter_some, kept]
    cases r.deleted with
    | true => rfl
    | false => rfl

theorem rolesOf_assign {db : Database} {m : Nat} {r : RoleRow} {memberRoles}
    (role : r ∈ db.roles) (live : r.deleted = false)
    (inserted : db.memberRoles.insert ⟨m, r.id⟩ = some memberRoles) (memberId : Nat) :
    ({ db with memberRoles } : Database).rolesOf memberId =
      if memberId = m then db.rolesOf memberId ++ [r] else db.rolesOf memberId := by
  have found : db.roles.find r.id = some r := Table.find_eq_some.mpr ⟨role, rfl⟩
  unfold Database.rolesOf
  simp only [(Table.insert_eq_some inserted).2, List.filter_append, List.filterMap_append]
  by_cases here : memberId = m
  · subst here
    simp only [decide_true, List.filter_cons_of_pos, List.filter_nil, List.filterMap_cons, found,
      Option.filter_some, live, Bool.not_false, if_true, List.filterMap_nil]
  · simp [here, Ne.symm here]

section Ranks

variable {roles : List RoleRow} {r : RoleRow}

theorem around_apart (unique : (roles.map RoleRow.id).Nodup) (hr : r ∈ roles)
    (rank : RoleRow → Int) :
    ∀ q ∈ below (fun q => q.id = r.id) (byRank rank roles) ++
      above (fun q => q.id = r.id) (byRank rank roles), q.id ≠ r.id := by
  have distinct : ((byRank rank roles).map RoleRow.id).Nodup :=
    ((List.perm_insertionSort _ roles).map RoleRow.id).nodup_iff.mpr unique
  rw [ranked_split unique hr rank] at distinct
  simp only [List.map_append, List.map_cons] at distinct
  have apart := (List.nodup_cons.mp (List.nodup_middle.mp distinct)).1
  rw [← List.map_append] at apart
  intro q hq same
  have listed := List.mem_map_of_mem (f := RoleRow.id) hq
  rw [same] at listed
  exact apart listed

theorem others_keep_order (unique : (roles.map RoleRow.id).Nodup) (hr : r ∈ roles)
    (changes : RoleChanges) :
    below (fun q => q.id = r.id) (byRank RoleRow.position roles) ++
        above (fun q => q.id = r.id) (byRank RoleRow.position roles) =
      below (fun q => q.id = r.id) (byRank (changes.rank r.id) roles) ++
        above (fun q => q.id = r.id) (byRank (changes.rank r.id) roles) := by
  have without : ∀ rank : RoleRow → Int,
      (byRank rank roles).filter (fun q => q.id ≠ r.id) =
        below (fun q => q.id = r.id) (byRank rank roles) ++
          above (fun q => q.id = r.id) (byRank rank roles) := by
    intro rank
    have others := around_apart unique hr rank
    conv => lhs; rw [ranked_split unique hr rank]
    rw [List.filter_append, List.filter_cons]
    simp only [ne_eq, not_true_eq_false, decide_false, Bool.false_eq_true, if_false]
    rw [← List.filter_append]
    exact List.filter_eq_self.mpr fun q hq => decide_eq_true (others q hq)
  rw [← without, ← without, ← byRank_filter, ← byRank_filter]
  apply byRank_congr
  intro q hq
  have apart : q.id ≠ r.id := of_decide_eq_true (List.mem_filter.mp hq).2
  rw [RoleChanges.rank, if_neg apart]

end Ranks

section Calls

variable {cfg : Config} {db db' : Database} {now actor serverId userId channelId : Nat} {p : String}

theorem held_of_has (h : (db.getPermissions now actor serverId 0).has p = true) :
    Held db now actor serverId channelId p := by
  left
  unfold checkPermission
  rw [h, Bool.or_true]
  rfl

theorem unheld_of_asked {d : PermissionDict}
    (grantable : ∀ q, PermissionDict.has d q = true →
      (db.getPermissions now actor serverId 0).has q = true)
    (unheld : ¬ Held db now actor serverId channelId p) : PermissionDict.has d p = false := by
  apply Bool.eq_false_iff.mpr
  intro asked
  exact unheld (held_of_has (grantable p asked))

theorem plain_of_asked {d : PermissionDict}
    (notAdministrator : (db.getPermissions now actor serverId 0).has "administrator" = false)
    (grantable : ∀ q, PermissionDict.has d q = true →
      (db.getPermissions now actor serverId 0).has q = true) :
    PermissionDict.has d "administrator" = false := by
  apply Bool.eq_false_iff.mpr
  intro asked
  rw [grantable _ asked] at notAdministrator
  cases notAdministrator

theorem grantedByRoles_rewritten {roles : List RoleRow} {roleId : Nat} {changes : RoleChanges}
    {name : Option String} {q : String}
    (refused : ∀ d, changes.permissions = some d → PermissionDict.has d q = false)
    (h : grantedByRoles (roles.map (RoleRow.rewritten (changes.apply name) roleId)) q = true) :
    grantedByRoles roles q = true := by
  unfold grantedByRoles at h ⊢
  rw [List.any_map] at h
  obtain ⟨r, hr, granted⟩ := List.any_eq_true.mp h
  refine List.any_eq_true.mpr ⟨r, hr, ?_⟩
  simp only [Function.comp, RoleRow.rewritten] at granted
  split at granted
  · simp only [RoleChanges.apply] at granted
    cases asked : changes.permissions with
    | none =>
      rw [asked] at granted
      exact granted
    | some d =>
      rw [asked, Option.getD_some, refused d asked] at granted
      cases granted
  · exact granted

theorem roleDecisions_rewritten {roles : List RoleRow} {roleId : Nat} {changes : RoleChanges}
    {name : Option String} :
    db.roleDecisions channelId p
        (byRank RoleRow.position (roles.map (RoleRow.rewritten (changes.apply name) roleId))) =
      db.roleDecisions channelId p (byRank (changes.rank roleId) roles) := by
  have ranks : (fun r : RoleRow => (r.rewritten (changes.apply name) roleId).position) =
      changes.rank roleId := by
    funext r
    unfold RoleRow.rewritten RoleChanges.rank RoleChanges.apply
    split
    · rfl
    · rfl
  rw [byRank_map, ranks]
  unfold Database.roleDecisions
  rw [List.map_map]
  apply List.map_congr_left
  intro r _
  rw [Function.comp, rewritten_id]

/-- What a call changes for the members who are exposed to it is what `Raises` says. -/
structure Traced (db db' : Database) (now actor serverId : Nat) (call : RoleCall) : Prop where
  servers : db'.servers = db.servers
  members : db'.members = db.members
  plain : ∀ memberId, isAdministrator (db.rolesOf memberId) = false →
    isAdministrator (db'.rolesOf memberId) = false
  effect : ∀ m channelId p, db.memberRow serverId m.userId = some m →
    ¬ Held db now actor serverId channelId p →
    ((resolve (grantedByRoles (db.rolesOf m.id) p)
        (db.layers (db.rolesOf m.id) m.userId channelId p) = false ∧
      resolve (grantedByRoles (db'.rolesOf m.id) p)
        (db'.layers (db'.rolesOf m.id) m.userId channelId p) = true) ↔
      call.Raises db m channelId p)

theorem createRole_traced {roleId : Nat} {name : String} {permissions : Option PermissionDict}
    (ok : Consistent db)
    (h : createRole cfg (db.reader now) db roleId actor serverId name permissions = .ok db') :
    Traced db db' now actor serverId (.createRole roleId serverId name permissions) := by
  obtain ⟨r, roles, _, _, inserted, rfl⟩ := createRole_ok h
  refine ⟨rfl, rfl, ?_, ?_⟩
  · intro memberId weak
    rw [rolesOf_insertRole ok inserted]
    exact weak
  · intro m channelId p _ _
    rw [rolesOf_insertRole ok inserted]
    constructor
    · intro h
      have low := h.1
      rw [show db.layers (db.rolesOf m.id) m.userId channelId p =
        ({ db with roles } : Database).layers (db.rolesOf m.id) m.userId channelId p from rfl,
        h.2] at low
      cases low
    · exact False.elim

theorem updateRole_traced {roleId : Nat} {changes : RoleChanges}
    (notAdministrator : (db.getPermissions now actor serverId 0).has "administrator" = false)
    (home : (db.roles.find roleId).map RoleRow.serverId = some serverId)
    (h : updateRole cfg (db.reader now) db actor roleId changes = .ok db') :
    Traced db db' now actor serverId (.updateRole roleId changes) := by
  obtain ⟨role, name, seen, grantable, _, rfl⟩ := updateRole_ok h
  obtain ⟨known, id, _⟩ := getRole_eq_some seen
  rw [Table.find_eq_some.mpr ⟨known, id⟩, Option.map_some, Option.some.injEq] at home
  rw [home] at grantable
  have roles : ∀ memberId, (db.updateRoleRow roleId (changes.apply name)).rolesOf memberId =
      (db.rolesOf memberId).map (RoleRow.rewritten (changes.apply name) roleId) :=
    fun memberId => rolesOf_updateRoleRow (f := changes.apply name) (fun _ => rfl) memberId
  refine ⟨rfl, rfl, ?_, ?_⟩
  · intro memberId weak
    rw [roles]
    apply Bool.eq_false_iff.mpr
    intro strong
    have before := grantedByRoles_rewritten
      (fun d asked => plain_of_asked notAdministrator (grantable d asked)) strong
    have weak' : grantedByRoles (db.rolesOf memberId) "administrator" = false := weak
    rw [before] at weak'
    cases weak'
  · intro m channelId p _ unheld
    rw [roles]
    have lowered : grantedByRoles
        ((db.rolesOf m.id).map (RoleRow.rewritten (changes.apply name) roleId)) p = true →
        grantedByRoles (db.rolesOf m.id) p = true :=
      grantedByRoles_rewritten fun d asked => unheld_of_asked (grantable d asked) unheld
    by_cases channel : channelId = 0
    · constructor
      · intro h
        rw [channel] at h
        have low : grantedByRoles (db.rolesOf m.id) p = false := h.1
        rw [lowered h.2] at low
        cases low
      · intro raises
        exact absurd channel raises.1
    · rw [layers_eq _ channel, layers_eq _ channel, resolve_concat, resolve_concat]
      have sameMember : (db.updateRoleRow roleId (changes.apply name)).memberDecision channelId p
          m.userId = db.memberDecision channelId p m.userId := rfl
      have sameRoles : (db.updateRoleRow roleId (changes.apply name)).roleDecisions channelId p =
          db.roleDecisions channelId p := rfl
      rw [sameMember, sameRoles, topped_iff, roleDecisions_rewritten]
      by_cases held : ∃ r ∈ db.rolesOf m.id, r.id = roleId
      · obtain ⟨r, hr, rfl⟩ := held
        have unique := rolesOf_ids db m.id
        have others := congrArg (db.roleDecisions channelId p) (others_keep_order unique hr changes)
        simp only [Database.roleDecisions, List.map_append] at others
        have moved := moved_iff lowered (db.roleDecision channelId p r.id) others
        rw [ranked_split unique hr RoleRow.position, ranked_split unique hr (changes.rank r.id)]
        simp only [Database.roleDecisions, List.map_append, List.map_cons, moved, RoleCall.Raises,
          Database.decisionAbove]
        constructor
        · intro h
          exact ⟨channel, ⟨r, hr, rfl⟩, h⟩
        · intro h
          exact h.2.2
      · constructor
        · intro h
          have unmoved : byRank (changes.rank roleId) (db.rolesOf m.id) =
              byRank RoleRow.position (db.rolesOf m.id) := by
            apply byRank_congr
            intro r hr
            rw [RoleChanges.rank, if_neg fun same => held ⟨r, hr, same⟩]
          obtain ⟨_, low, high⟩ := h
          rw [unmoved] at high
          rw [resolve_mono lowered high] at low
          cases low
        · intro raises
          exact absurd raises.2.1 held

theorem grantedByRoles_append {roles : List RoleRow} {r : RoleRow} {q : String}
    (refused : PermissionDict.has r.permissions q = false) :
    grantedByRoles (roles ++ [r]) q = grantedByRoles roles q := by
  simp [grantedByRoles, refused]

theorem assignRole_traced {memberUserId roleId : Nat}
    (notAdministrator : (db.getPermissions now actor serverId 0).has "administrator" = false)
    (h : assignRole (db.reader now) db actor serverId memberUserId roleId = .ok db') :
    Traced db db' now actor serverId (.assignRole serverId memberUserId roleId) := by
  obtain ⟨role, member, seen, _, found, grantable, result⟩ := assignRole_ok h
  obtain ⟨known, rfl, live⟩ := getRole_eq_some seen
  obtain ⟨target, row, rfl⟩ := getMember_eq_some found
  obtain ⟨present, _, rfl⟩ := memberRow_eq_some row
  have only : ∀ m : MemberRow, db.memberRow serverId m.userId = some m →
      m.userId = target.userId → m = target := by
    intro m own same
    rw [same, row] at own
    exact (Option.some.inj own).symm
  cases result with
  | inl unchanged =>
    obtain ⟨⟨a, assigned⟩, rfl⟩ := unchanged
    obtain ⟨listed, rfl⟩ := Table.find_eq_some.mp assigned
    refine ⟨rfl, rfl, fun _ weak => weak, ?_⟩
    intro m channelId p own _
    constructor
    · intro h
      rw [h.1] at h
      cases h.2
    · intro raises
      obtain ⟨_, same, fresh, _⟩ := raises
      exact absurd (only m own same ▸ listed) fresh
  | inr inserted =>
    obtain ⟨memberRoles, inserted, rfl⟩ := inserted
    have roles : ∀ memberId, ({ db with memberRoles } : Database).rolesOf memberId =
        if memberId = target.id then db.rolesOf memberId ++ [role] else db.rolesOf memberId :=
      fun memberId => rolesOf_assign known live inserted memberId
    refine ⟨rfl, rfl, ?_, ?_⟩
    · intro memberId weak
      rw [roles]
      split
      · exact (grantedByRoles_append (plain_of_asked notAdministrator grantable)).trans weak
      · exact weak
    · intro m channelId p own unheld
      rw [roles]
      have sameDecisions : ({ db with memberRoles } : Database).roleDecisions channelId p =
          db.roleDecisions channelId p := rfl
      have sameMember : ({ db with memberRoles } : Database).memberDecision channelId p m.userId =
          db.memberDecision channelId p m.userId := rfl
      by_cases here : m.id = target.id
      · have same : m = target := Table.eq_of_key (memberRow_eq_some own).1 present here
        subst same
        rw [if_pos rfl, grantedByRoles_append (unheld_of_asked grantable unheld)]
        by_cases channel : channelId = 0
        · constructor
          · intro h
            simp only [Database.layers, if_pos channel] at h
            rw [h.1] at h
            cases h.2
          · intro raises
            exact absurd channel raises.1
        · rw [layers_eq _ channel, layers_eq _ channel, resolve_concat, resolve_concat,
            sameDecisions, sameMember, topped_iff, byRank_append_singleton]
          have parts := congrArg (db.roleDecisions channelId p)
            (byRank_parts RoleRow.position (db.rolesOf m.id) role.position)
          rw [← parts]
          simp only [Database.roleDecisions, List.map_append, List.map_cons]
          rw [← resolve_insert_none, lifts_iff]
          have fresh : (⟨m.id, role.id⟩ : MemberRole) ∉ db.memberRoles.rows := by
            intro listed
            exact Table.find_eq_none.mp (Table.insert_eq_some inserted).1 _ listed rfl
          constructor
          · intro h
            exact ⟨channel, rfl, fresh, h.1, role, known, rfl, h.2⟩
          · intro raises
            obtain ⟨_, _, _, silent, r, hr, id, rest⟩ := raises
            have sameRole : r = role := Table.eq_of_key hr known id
            exact ⟨silent, sameRole ▸ rest⟩
      · rw [if_neg here]
        constructor
        · intro h
          have low := h.1
          rw [show db.layers (db.rolesOf m.id) m.userId channelId p =
            ({ db with memberRoles } : Database).layers (db.rolesOf m.id) m.userId channelId p
            from rfl, h.2] at low
          cases low
        · intro raises
          exact absurd (congrArg MemberRow.id (only m own raises.2.1)) here

theorem not_lifted_same {base : Bool} {layers layers' : List (Option Bool)}
    (same : layers = layers') : ¬ (resolve base layers = false ∧ resolve base layers' = true) := by
  intro h
  rw [same, h.2] at h
  cases h.1

theorem setChannelOverride_traced {target : Nat} {targetType : String} {targetId : Nat}
    {allow deny : Option PermissionDict}
    (h : setChannelOverride (db.reader now) db actor target targetType targetId allow deny =
      .ok db') :
    Traced db db' now actor serverId
      (.setChannelOverride target targetType targetId allow deny) := by
  obtain ⟨_, overrides, _, rfl, stored⟩ := setChannelOverride_ok h
  refine ⟨rfl, rfl, fun _ weak => weak, ?_⟩
  intro m channelId p _ _
  let after : Database := { db with overrides }
  let new := OverrideRow.decide
    ⟨target, targetType, targetId, allow.getD Table.empty, deny.getD Table.empty⟩ p
  have roles : after.rolesOf m.id = db.rolesOf m.id := rfl
  -- an override under another key reads as before
  have roleSame : ∀ r, ¬ (channelId = target ∧ "role" = targetType ∧ r = targetId) →
      after.roleDecision channelId p r = db.roleDecision channelId p r := by
    intro r apart
    unfold Database.roleDecision Database.override
    rw [stored, if_neg (by simpa only [Prod.mk.injEq] using apart)]
  have memberSame : ¬ (channelId = target ∧ "member" = targetType ∧ m.userId = targetId) →
      after.memberDecision channelId p m.userId = db.memberDecision channelId p m.userId := by
    intro apart
    unfold Database.memberDecision Database.override
    rw [stored, if_neg (by simpa only [Prod.mk.injEq] using apart)]
  by_cases channel : channelId = 0
  · constructor
    · intro h
      exact absurd h (not_lifted_same (by simp only [Database.layers, if_pos channel]))
    · intro raises
      exact absurd channel raises.1
  · by_cases here : channelId = target
    · subst here
      rw [layers_eq _ channel, layers_eq _ channel]
      by_cases own : targetType = "member" ∧ targetId = m.userId
      · obtain ⟨rfl, rfl⟩ := own
        have decisions : ∀ xs, after.roleDecisions channelId p xs = db.roleDecisions channelId p xs :=
          fun xs => List.map_congr_left fun r _ => roleSame r.id fun h => absurd h.2.1 (by decide)
        have fresh : after.memberDecision channelId p m.userId = new := by
          unfold Database.memberDecision Database.override
          rw [stored, if_pos rfl]
          rfl
        rw [decisions, fresh, resolve_concat, resolve_concat]
        constructor
        · intro h
          exact ⟨channel, rfl, .inl ⟨rfl, rfl, h⟩⟩
        · intro raises
          cases raises.2.2 with
          | inl lifted => exact lifted.2.2
          | inr role => exact absurd role.1 (by decide)
      · rw [memberSame fun h => own ⟨h.2.1.symm, h.2.2.symm⟩]
        by_cases held : targetType = "role" ∧ ∃ r ∈ db.rolesOf m.id, r.id = targetId
        · obtain ⟨rfl, r, hr, rfl⟩ := held
          have others := around_apart (rolesOf_ids db m.id) hr RoleRow.position
          have decisions : ∀ xs : List RoleRow, (∀ q ∈ xs, q.id ≠ r.id) →
              after.roleDecisions channelId p xs = db.roleDecisions channelId p xs :=
            fun xs apart => List.map_congr_left fun q hq => roleSame q.id fun h => apart q hq h.2.2
          have fresh : after.roleDecision channelId p r.id = new := by
            unfold Database.roleDecision Database.override
            rw [stored, if_pos rfl]
            rfl
          have lower := decisions (below (fun q => q.id = r.id)
            (byRank RoleRow.position (db.rolesOf m.id)))
            fun q hq => others q (List.mem_append_left _ hq)
          have upper := decisions (above (fun q => q.id = r.id)
            (byRank RoleRow.position (db.rolesOf m.id)))
            fun q hq => others q (List.mem_append_right _ hq)
          unfold Database.roleDecisions at lower upper
          rw [roles, resolve_concat, resolve_concat, topped_iff,
            ranked_split (rolesOf_ids db m.id) hr RoleRow.position]
          simp only [Database.roleDecisions, List.map_append, List.map_cons]
          rw [lower, upper, fresh, lifts_iff]
          constructor
          · intro h
            exact ⟨channel, rfl, .inr ⟨rfl, ⟨r, hr, rfl⟩, h⟩⟩
          · intro raises
            cases raises.2.2 with
            | inl member => exact absurd member.1 (by decide)
            | inr lifted => exact lifted.2.2
        · have same : after.roleDecisions channelId p
              (byRank RoleRow.position (db.rolesOf m.id)) =
              db.roleDecisions channelId p (byRank RoleRow.position (db.rolesOf m.id)) := by
            apply List.map_congr_left
            intro r hr
            exact roleSame r.id fun h => held ⟨h.2.1.symm, r, mem_byRank.mp hr, h.2.2⟩
          constructor
          · intro h
            exact absurd h (not_lifted_same (congrArg (· ++ _) same.symm))
          · intro raises
            cases raises.2.2 with
            | inl member => exact absurd ⟨member.1, member.2.1⟩ own
            | inr role => exact absurd ⟨role.1, role.2.1⟩ held
    · constructor
      · intro h
        have same : db.layers (db.rolesOf m.id) m.userId channelId p =
            after.layers (db.rolesOf m.id) m.userId channelId p := by
          rw [layers_eq _ channel, layers_eq _ channel, memberSame fun h => here h.1]
          congr 1
          exact (List.map_congr_left fun r _ => roleSame r.id fun h => here h.1).symm
        exact absurd h (not_lifted_same same)
      · intro raises
        exact absurd raises.2.1 here

theorem call_traced {call : RoleCall} (ok : Consistent db)
    (notAdministrator : (db.getPermissions now actor serverId 0).has "administrator" = false)
    (server : call.server db = some serverId) (h : call.run cfg db now actor = .ok db') :
    Traced db db' now actor serverId call := by
  cases call with
  | createRole roleId target name permissions =>
    cases server
    exact createRole_traced ok h
  | updateRole roleId changes => exact updateRole_traced notAdministrator server h
  | assignRole target memberUserId roleId =>
    cases server
    exact assignRole_traced notAdministrator h
  | setChannelOverride target targetType targetId allow deny => exact setChannelOverride_traced h

end Calls

def sampleDict (names : List String) (unique : names.Nodup) : PermissionDict :=
  ⟨names.map fun p => (p, true), by rwa [List.map_map, Function.comp_def, List.map_id']⟩

def moderated : Database :=
  (Transition.run (Ownership.step defaultConfig) Database.empty
    [(1, .createServer (Ownership.ids 100) 7 "guild"), (2, .addMember 200 100 8 none false),
      (3, .createRole 300 7 100 "moderator"
        (some (sampleDict ["roles.manage", "channels.manage"] (by decide)))),
      (4, .assignRole 7 100 8 300)]).get (by decide)

theorem moderated_consistent : Consistent moderated :=
  Consistent.of_reachable (Transition.reachable_of_run _ rfl (Option.some_get _).symm)

def returned (x : Outcome Database) (ok : x.isOk = true) : Database :=
  match x with
  | .ok db => db
  | .error _ => nomatch ok

theorem eq_returned {x : Outcome Database} (ok : x.isOk = true) : x = .ok (returned x ok) := by
  cases x with
  | ok db => rfl
  | error e => cases ok

end Plexichat.Servers
