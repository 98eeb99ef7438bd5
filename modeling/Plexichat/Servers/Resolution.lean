import Plexichat.Servers.Permissions

/-! The permissions of a member as layered decisions: the roles give the base,
then the override of each role in rank order, then the member's own override. -/
namespace Plexichat.Servers
open Layers

theorem has_iff_mem {d : PermissionDict} {p : String} :
    PermissionDict.has d p = true ↔ (p, true) ∈ d.rows := by
  unfold PermissionDict.has
  rw [Option.any_eq_true]
  constructor
  · intro h
    obtain ⟨e, found, truthy⟩ := h
    obtain ⟨member, key⟩ := Table.find_eq_some.mp found
    obtain ⟨q, v⟩ := e
    cases key
    cases truthy
    exact member
  · intro h
    exact ⟨(p, true), Table.find_eq_some.mpr ⟨h, rfl⟩, rfl⟩

theorem writeAll_apply (v : Bool) (d : PermissionDict) (result : Permissions) (p : String) :
    writeAll v d result p = if PermissionDict.has d p then some v else result p := by
  have entries : ∀ (rows : List (String × Bool)) (result : Permissions),
      rows.foldl (fun result e => if e.2 then Function.update result e.1 (some v) else result)
        result p = if (p, true) ∈ rows then some v else result p := by
    intro rows
    induction rows with
    | nil => intro result; rfl
    | cons e rows ih =>
      intro result
      obtain ⟨q, w⟩ := e
      rw [List.foldl_cons, ih]
      by_cases later : (p, true) ∈ rows
      · simp [later]
      · cases w with
        | false => simp [later]
        | true =>
          by_cases same : p = q
          · subst same
            simp [later]
          · simp [later, same]
  rw [writeAll, entries]
  simp only [has_iff_mem]

def OverrideRow.decide (o : OverrideRow) (p : String) : Option Bool :=
  if PermissionDict.has o.allow p then some true
  else if PermissionDict.has o.deny p then some false
  else none

theorem applyOverride_apply (result : Permissions) (o : OverrideRow) (p : String) :
    applyOverride result o p = (o.decide p).or (result p) := by
  unfold applyOverride OverrideRow.decide
  rw [writeAll_apply, writeAll_apply]
  split
  · rfl
  · split
    · rfl
    · rfl

theorem foldl_applyOverride (overrides : List OverrideRow) (base : Permissions) (p : String) :
    overrides.foldl applyOverride base p =
      (decision (overrides.map fun o => o.decide p)).or (base p) := by
  induction overrides generalizing base with
  | nil => rfl
  | cons o overrides ih =>
    rw [List.foldl_cons, ih, applyOverride_apply, List.map_cons, decision_cons, Option.or_assoc]

def isAdministrator (roles : List RoleRow) : Bool :=
  roles.any fun r => PermissionDict.has r.permissions "administrator"

def grantedByRoles (roles : List RoleRow) (p : String) : Bool :=
  roles.any fun r => PermissionDict.has r.permissions p

theorem collect_of_administrator {roles : List RoleRow} (h : isAdministrator roles = true)
    (result : Permissions) : collect result roles = allPermissions := by
  induction roles generalizing result with
  | nil => cases h
  | cons r roles ih =>
    unfold collect
    split
    · rfl
    · rename_i plain
      apply ih
      simpa [isAdministrator, plain] using h

theorem collect_apply {roles : List RoleRow} (h : isAdministrator roles = false)
    (result : Permissions) (p : String) :
    collect result roles p = if grantedByRoles roles p then some true else result p := by
  induction roles generalizing result with
  | nil => rfl
  | cons r roles ih =>
    simp only [isAdministrator, List.any_cons, Bool.or_eq_false_iff] at h
    rw [collect, if_neg (Bool.eq_false_iff.mp h.1), ih h.2, writeAll_apply]
    by_cases later : grantedByRoles roles p = true
    · simp [grantedByRoles] at later ⊢
      simp [later]
    · by_cases here : PermissionDict.has r.permissions p = true
      · simp [grantedByRoles, here]
      · simp [grantedByRoles, here]

theorem not_has_administrator {roles : List RoleRow} (h : isAdministrator roles = false) :
    grantedByRoles roles "administrator" = false := h

theorem rolesOf_ids (db : Database) (memberId : Nat) :
    ((db.rolesOf memberId).map RoleRow.id).Nodup := by
  have distinct : (db.memberRoles.rows.filter fun a => a.memberId = memberId).Nodup := by
    have unique := db.memberRoles.unique
    rw [List.map_id] at unique
    exact unique.filter _
  unfold Database.rolesOf
  apply List.pairwise_map.mpr
  apply List.pairwise_filterMap.mpr
  apply distinct.imp_of_mem
  intro a b ha hb apart r hr q hq same
  have rowA := (Table.find_eq_some.mp (Option.filter_eq_some_iff.mp hr).1).2
  have rowB := (Table.find_eq_some.mp (Option.filter_eq_some_iff.mp hq).1).2
  have memberA := of_decide_eq_true (List.mem_filter.mp ha).2
  have memberB := of_decide_eq_true (List.mem_filter.mp hb).2
  apply apart
  cases a
  cases b
  simp only at rowA rowB memberA memberB
  rw [memberA, memberB, ← rowA, ← rowB, same]

theorem rolePosition_of_mem {roles : List RoleRow} (unique : (roles.map RoleRow.id).Nodup)
    {r : RoleRow} (h : r ∈ roles) : rolePosition roles r.id = r.position := by
  unfold rolePosition
  cases e : roles.find? fun q => q.id = r.id with
  | none =>
    have absent := List.find?_eq_none.mp e r h
    simp at absent
  | some q =>
    have key := List.find?_some e
    have same : q = r :=
      List.inj_on_of_nodup_map unique (List.mem_of_find?_eq_some e) h (of_decide_eq_true key)
    rw [same]
    rfl

def Database.roleDecision (db : Database) (channelId : Nat) (p : String) (roleId : Nat) :
    Option Bool := (db.override channelId "role" roleId).bind fun o => o.decide p

def Database.memberDecision (db : Database) (channelId : Nat) (p : String) (userId : Nat) :
    Option Bool := (db.override channelId "member" userId).bind fun o => o.decide p

theorem override_target {db : Database} {channelId : Nat} {targetType : String} {targetId : Nat}
    {o : OverrideRow} (h : db.override channelId targetType targetId = some o) :
    o.targetId = targetId := by
  have key := (Table.find_eq_some.mp h).2
  simp only [OverrideRow.key, Prod.mk.injEq] at key
  exact key.2.2

theorem decision_roleOverrides (db : Database) {roles : List RoleRow}
    (unique : (roles.map RoleRow.id).Nodup) (channelId : Nat) (p : String) :
    decision ((roleOverrides db roles channelId).map fun o => o.decide p) =
      decision ((byRank RoleRow.position roles).map fun r =>
        db.roleDecision channelId p r.id) := by
  have moved : roleOverrides db roles channelId =
      (byRank RoleRow.position roles).filterMap fun r => db.override channelId "role" r.id := by
    have byTarget : byRank RoleRow.position roles = byRank (fun r => rolePosition roles r.id) roles := by
      apply byRank_congr
      intro r hr
      exact (rolePosition_of_mem unique hr).symm
    rw [byTarget]
    apply byRank_filterMap
    intro r o ho
    rw [override_target ho]
  rw [moved, decision_filterMap]
  rfl

def Database.layers (db : Database) (roles : List RoleRow) (userId channelId : Nat) (p : String) :
    List (Option Bool) :=
  if channelId = 0 then []
  else (byRank RoleRow.position roles).map (fun r => db.roleDecision channelId p r.id) ++
    [db.memberDecision channelId p userId]

def roleGrant (roles : List RoleRow) (p : String) : Option Bool :=
  if grantedByRoles roles p then some true else none

@[simp] theorem roleGrant_getD (roles : List RoleRow) (p : String) :
    (roleGrant roles p).getD false = grantedByRoles roles p := by
  unfold roleGrant
  cases grantedByRoles roles p with
  | true => rfl
  | false => rfl

theorem applyChannelOverrides_apply (db : Database) {roles : List RoleRow}
    (unique : (roles.map RoleRow.id).Nodup) (plain : isAdministrator roles = false)
    {userId channelId : Nat} (channel : channelId ≠ 0) (p : String) :
    applyChannelOverrides (collect (fun _ => none) roles) (roleOverrides db roles channelId)
      (db.override channelId "member" userId) p =
      (decision (db.layers roles userId channelId p)).or (roleGrant roles p) := by
  have base : ∀ q, collect (fun _ => none) roles q = roleGrant roles q :=
    fun q => collect_apply plain _ q
  have no_administrator : (collect (fun _ => none) roles).has "administrator" = false := by
    rw [Permissions.has, base, roleGrant_getD]
    exact not_has_administrator plain
  unfold applyChannelOverrides Database.layers
  rw [if_neg (Bool.eq_false_iff.mp no_administrator), if_neg channel, decision_append,
    ← decision_roleOverrides db unique]
  have rest := foldl_applyOverride (roleOverrides db roles channelId) (collect (fun _ => none) roles) p
  rw [base] at rest
  simp only [decision_cons, decision_nil, Option.none_or, Database.memberDecision]
  cases own : db.override channelId "member" userId with
  | none => simp only [rest, Option.bind_none, Option.none_or]
  | some o =>
    simp only [applyOverride_apply, rest, Option.bind_some]
    rw [Option.or_assoc]

theorem allPermissions_has {p : String} : allPermissions.has p = decide (p ∈ serverPermissions) := by
  unfold allPermissions Permissions.has
  by_cases h : p ∈ serverPermissions
  · simp [h]
  · simp [h]

def suspended (m : Member) (now : Nat) (p : String) : Bool :=
  m.timedOut now && decide (p ∈ restrictedPermissions)

def unrestricted (ownerId userId : Nat) (roles : List RoleRow) : Bool :=
  ownerId = userId || isAdministrator roles

theorem base_of_unrestricted {ownerId userId : Nat} {roles : List RoleRow}
    (h : unrestricted ownerId userId roles = true) :
    calculateBasePermissions roles (ownerId = userId) = allPermissions := by
  unfold calculateBasePermissions
  split
  · rfl
  · rename_i apart
    apply collect_of_administrator
    simpa [unrestricted, apart] using h

theorem calculatePermissions_apply {db : Database} {now ownerId userId channelId : Nat} {m : Member}
    {p : String} :
    calculatePermissions db now ownerId (some m) userId channelId p =
      if suspended m now p then some false
      else if unrestricted ownerId userId (db.rolesOf m.id) then allPermissions p
      else (decision (db.layers (db.rolesOf m.id) userId channelId p)).or
        (roleGrant (db.rolesOf m.id) p) := by
  have final : ∀ perms : Permissions, (if m.timedOut now then restrict perms else perms) p =
      if suspended m now p then some false else perms p := by
    intro perms
    unfold suspended restrict
    cases m.timedOut now with
    | true => simp
    | false => rfl
  unfold calculatePermissions
  simp only [memberRoleRows, final]
  congr 1
  cases free : unrestricted ownerId userId (db.rolesOf m.id) with
  | true =>
    rw [base_of_unrestricted free]
    have bypass : applyChannelOverrides allPermissions
        (roleOverrides db (db.rolesOf m.id) channelId) (db.override channelId "member" userId) =
        allPermissions := if_pos (by rw [allPermissions_has]; decide)
    rw [bypass, ite_self, if_pos rfl]
  | false =>
    obtain ⟨apart, plain⟩ := Bool.or_eq_false_iff.mp free
    have base : calculateBasePermissions (db.rolesOf m.id) (ownerId = userId) =
        collect (fun _ => none) (db.rolesOf m.id) := if_neg (Bool.eq_false_iff.mp apart)
    rw [base, if_neg Bool.false_ne_true]
    by_cases channel : channelId = 0
    · simp only [channel, ne_eq, not_true_eq_false, if_false, Database.layers, if_true,
        decision_nil, Option.none_or]
      exact collect_apply plain _ p
    · rw [if_pos channel, applyChannelOverrides_apply db (rolesOf_ids db m.id) plain channel]

theorem calculatePermissions_has {db : Database} {now ownerId userId channelId : Nat} {m : Member}
    {p : String} (vocabulary : p ∈ serverPermissions) :
    (calculatePermissions db now ownerId (some m) userId channelId).has p =
      (!suspended m now p && (unrestricted ownerId userId (db.rolesOf m.id) ||
        resolve (grantedByRoles (db.rolesOf m.id) p)
          (db.layers (db.rolesOf m.id) userId channelId p))) := by
  rw [Permissions.has, calculatePermissions_apply]
  cases suspended m now p with
  | true => rfl
  | false =>
    cases unrestricted ownerId userId (db.rolesOf m.id) with
    | true => simp [allPermissions, vocabulary]
    | false =>
      rw [resolve_eq, ← roleGrant_getD]
      cases decision (db.layers (db.rolesOf m.id) userId channelId p) with
      | none => rfl
      | some v => rfl

end Plexichat.Servers
