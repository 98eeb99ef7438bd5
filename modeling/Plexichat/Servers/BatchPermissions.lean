import Plexichat.Servers.Resolution

/-! `get_permissions_batch`: the overrides of several channels over the permissions in
the server, against `get_permissions` asked channel by channel. -/
namespace Plexichat.Servers
open Layers

def overrideRows (db : Database) (roles : List RoleRow) (userId : Nat) (channelIds : List Nat) :
    List OverrideRow :=
  channelIds.flatMap fun c => (db.override c "member" userId).toList ++
    roles.filterMap fun r => db.override c "role" r.id

/-- `channel_overrides[cid]`, lowest position first. -/
def channelOverrides (roles : List RoleRow) (rows : List OverrideRow) (channelId : Nat) :
    List OverrideRow :=
  byRank (fun o => rolePosition roles o.targetId)
    (rows.filter fun o => o.channelId = channelId && o.targetType ≠ "member")

/-- `member_overrides.get(cid)`; a later row replaces an earlier one. -/
def memberOverride (rows : List OverrideRow) (channelId : Nat) : Option OverrideRow :=
  (rows.filter fun o => o.channelId = channelId && o.targetType = "member").getLast?

def Reader.getPermissionsBatch (rd : Reader) (db : Database) (userId serverId : Nat)
    (channelIds : List Nat) : Nat → Option Permissions :=
  let base := rd.permissions userId serverId 0
  let roles := rd.roleRows db serverId userId
  let rows := overrideRows db roles userId channelIds
  fun c =>
    if c ∈ channelIds then
      if base.has "administrator" then some base
      else some (applyChannelOverrides base (channelOverrides roles rows c) (memberOverride rows c))
    else none

section Collected

variable {db : Database} {roles : List RoleRow} {userId c : Nat} {channelIds : List Nat} {p : String}

theorem override_fields {targetType : String} {targetId : Nat} {o : OverrideRow}
    (h : db.override c targetType targetId = some o) : o.channelId = c ∧ o.targetType = targetType := by
  have key := (Table.find_eq_some.mp h).2
  simp only [OverrideRow.key, Prod.mk.injEq] at key
  exact ⟨key.1, key.2.1⟩

theorem filter_fields {rows : List OverrideRow} {d : Nat} {targetType : String}
    (fields : ∀ o ∈ rows, o.channelId = d ∧ o.targetType = targetType) (q : String → Bool) :
    rows.filter (fun o => o.channelId = c && q o.targetType) =
      if d = c ∧ q targetType = true then rows else [] := by
  split
  · rename_i both
    apply List.filter_eq_self.mpr
    intro o member
    rw [(fields o member).1, (fields o member).2, both.1, both.2]
    simp
  · rename_i apart
    apply List.filter_eq_nil_iff.mpr
    intro o member
    rw [(fields o member).1, (fields o member).2]
    simpa using apart

theorem memberRows_fields (d : Nat) : ∀ o ∈ (db.override d "member" userId).toList,
    o.channelId = d ∧ o.targetType = "member" :=
  fun _ member => override_fields (Option.mem_toList.mp member)

theorem roleRows_fields (d : Nat) : ∀ o ∈ roles.filterMap fun r => db.override d "role" r.id,
    o.channelId = d ∧ o.targetType = "role" := by
  intro o member
  obtain ⟨r, _, found⟩ := List.mem_filterMap.mp member
  exact override_fields found

theorem filter_roleRows (d : Nat) :
    ((db.override d "member" userId).toList ++ roles.filterMap fun r =>
        db.override d "role" r.id).filter (fun o => o.channelId = c && o.targetType ≠ "member") =
      if d = c then roles.filterMap fun r => db.override c "role" r.id else [] := by
  rw [List.filter_append, filter_fields (memberRows_fields d) fun t => t ≠ "member",
    filter_fields (roleRows_fields d) fun t => t ≠ "member"]
  by_cases here : d = c
  · subst here
    simp
  · simp [here]

theorem filter_memberRows (d : Nat) :
    ((db.override d "member" userId).toList ++ roles.filterMap fun r =>
        db.override d "role" r.id).filter (fun o => o.channelId = c && o.targetType = "member") =
      if d = c then (db.override c "member" userId).toList else [] := by
  rw [List.filter_append, filter_fields (memberRows_fields d) fun t => t = "member",
    filter_fields (roleRows_fields d) fun t => t = "member"]
  by_cases here : d = c
  · subst here
    simp
  · simp [here]

theorem memberOverride_rows (asked : c ∈ channelIds) :
    memberOverride (overrideRows db roles userId channelIds) c = db.override c "member" userId := by
  unfold memberOverride overrideRows
  rw [List.filter_flatMap]
  simp only [filter_memberRows]
  induction channelIds with
  | nil => cases asked
  | cons d channelIds ih =>
    rw [List.flatMap_cons, List.getLast?_append]
    by_cases later : c ∈ channelIds
    · rw [ih later]
      split
      · cases db.override c "member" userId with
        | none => rfl
        | some o => rfl
      · simp
    · have here : d = c := ((List.mem_cons.mp asked).resolve_right later).symm
      have nothing : (channelIds.flatMap fun e =>
          if e = c then (db.override c "member" userId).toList else []) = [] := by
        apply List.flatMap_eq_nil_iff.mpr
        intro e member
        apply if_neg
        intro same
        exact later (same ▸ member)
      rw [nothing, if_pos here]
      cases db.override c "member" userId with
      | none => rfl
      | some o => rfl

theorem decision_channelOverrides (asked : c ∈ channelIds) :
    decision ((channelOverrides roles (overrideRows db roles userId channelIds) c).map
        fun o => o.decide p) =
      decision ((roleOverrides db roles c).map fun o => o.decide p) := by
  unfold channelOverrides overrideRows
  rw [List.filter_flatMap]
  simp only [filter_roleRows]
  induction channelIds with
  | nil => cases asked
  | cons d channelIds ih =>
    rw [List.flatMap_cons]
    by_cases later : c ∈ channelIds
    · rw [← ih later]
      apply decision_byRank_append
      intro o member
      split at member
      · exact List.mem_flatMap.mpr ⟨c, later, by rwa [if_pos rfl]⟩
      · cases member
    · have here : d = c := ((List.mem_cons.mp asked).resolve_right later).symm
      have nothing : (channelIds.flatMap fun e =>
          if e = c then roles.filterMap fun r => db.override c "role" r.id else []) = [] := by
        apply List.flatMap_eq_nil_iff.mpr
        intro e member
        apply if_neg
        intro same
        exact later (same ▸ member)
      rw [nothing, if_pos here, List.append_nil]
      rfl

end Collected

def Database.channelDecision (db : Database) (roles : List RoleRow) (userId channelId : Nat)
    (p : String) : Option Bool :=
  (db.memberDecision channelId p userId).or
    (decision ((byRank RoleRow.position roles).map fun r => db.roleDecision channelId p r.id))

theorem layers_of_channel (db : Database) (roles : List RoleRow) (userId : Nat) {channelId : Nat}
    (channel : channelId ≠ 0) (p : String) :
    decision (db.layers roles userId channelId p) = db.channelDecision roles userId channelId p := by
  unfold Database.layers Database.channelDecision
  rw [if_neg channel, decision_append]
  simp

theorem memberRoleRows_ids (db : Database) (member : Option Member) :
    ((memberRoleRows db member).map RoleRow.id).Nodup := by
  cases member with
  | none => exact List.nodup_nil
  | some m => exact rolesOf_ids db m.id

section Batch

variable {db : Database} {now userId serverId c ownerId : Nat} {channelIds : List Nat} {p : String}

theorem batch_apply (asked : c ∈ channelIds) :
    (db.reader now).getPermissionsBatch db userId serverId channelIds c =
      some fun p =>
        if (db.getPermissions now userId serverId 0).has "administrator" then
          db.getPermissions now userId serverId 0 p
        else
          (db.channelDecision (memberRoleRows db (db.getMember serverId userId)) userId c p).or
            (db.getPermissions now userId serverId 0 p) := by
  simp only [Reader.getPermissionsBatch, Database.reader, Reader.roleRows, if_pos asked]
  by_cases administrator : (db.getPermissions now userId serverId 0).has "administrator" = true
  · simp only [administrator, if_true]
  · rw [Bool.not_eq_true] at administrator
    simp only [administrator, Bool.false_eq_true, if_false, Option.some.injEq]
    funext p
    simp only [applyChannelOverrides, administrator, Bool.false_eq_true, if_false,
      memberOverride_rows asked]
    have roles := foldl_applyOverride (channelOverrides (memberRoleRows db (db.getMember serverId userId))
      (overrideRows db (memberRoleRows db (db.getMember serverId userId)) userId channelIds) c)
      (db.getPermissions now userId serverId 0) p
    rw [decision_channelOverrides asked, decision_roleOverrides db (memberRoleRows_ids db _)] at roles
    unfold Database.channelDecision Database.memberDecision
    cases own : db.override c "member" userId with
    | none => simpa using roles
    | some o => simp only [applyOverride_apply, roles, Option.bind_some, Option.or_assoc]

/-- The overrides of a channel change nothing that `get_permissions` holds them off from:
the suspension of a member, outsiders, and servers that are gone. -/
def Harmless (db : Database) (now userId serverId channelId : Nat) : Prop :=
  match db.ownerOf serverId, db.getMember serverId userId with
  | some ownerId, some m =>
    unrestricted ownerId userId (db.rolesOf m.id) = true ∨
      ∀ p v, db.channelDecision (db.rolesOf m.id) userId channelId p = some v →
        if channelId = 0 then
          (if suspended m now p then some false else roleGrant (db.rolesOf m.id) p) = some v
        else ¬ (v = true ∧ suspended m now p = true)
  | some ownerId, none => ownerId = userId ∨ ∀ p, db.channelDecision [] userId channelId p = none
  | none, member =>
    ∀ p, db.channelDecision (memberRoleRows db member) userId channelId p = none

theorem or_eq_right {d v : Option Bool} : d.or v = v ↔ ∀ w, d = some w → v = some w := by
  cases d with
  | none => simp
  | some w => simp [eq_comm]

theorem harmless_iff (asked : c ∈ channelIds) :
    (db.reader now).getPermissionsBatch db userId serverId channelIds c =
        some (db.getPermissions now userId serverId c) ↔
      Harmless db now userId serverId c := by
  rw [batch_apply asked, Option.some.injEq, funext_iff]
  unfold Harmless Database.getPermissions
  cases owner : db.ownerOf serverId with
  | none => simp [Permissions.has]
  | some ownerId =>
    cases seat : db.getMember serverId userId with
    | none =>
      by_cases owns : ownerId = userId
      · subst owns
        have same : ∀ channelId, calculatePermissions db now ownerId none ownerId channelId =
            allPermissions := by
          intro channelId
          simp [calculatePermissions, calculateBasePermissions]
        have all : allPermissions.has "administrator" = true := by
          rw [allPermissions_has]
          decide
        simp [same, all]
      · simp [calculatePermissions, memberRoleRows, calculateBasePermissions, collect, owns,
          Permissions.has]
    | some m =>
      have administrator : (calculatePermissions db now ownerId (some m) userId 0).has
          "administrator" = unrestricted ownerId userId (db.rolesOf m.id) := by
        rw [calculatePermissions_has (by decide)]
        have kept : suspended m now "administrator" = false := by
          simp [suspended, restrictedPermissions]
        rw [kept, Database.layers, if_pos rfl, resolve_nil, unrestricted, isAdministrator,
          grantedByRoles]
        simp
      simp only [administrator, memberRoleRows, calculatePermissions_apply]
      cases free : unrestricted ownerId userId (db.rolesOf m.id) with
      | true => simp
      | false =>
        simp only [Bool.false_eq_true, if_false, false_or]
        apply forall_congr'
        intro p
        have server : decision (db.layers (db.rolesOf m.id) userId 0 p) = none := by
          rw [Database.layers, if_pos rfl, decision_nil]
        by_cases channel : c = 0
        · subst channel
          simp only [server, Option.none_or, if_true]
          exact or_eq_right
        · simp only [server, Option.none_or, if_neg channel, layers_of_channel db _ userId channel]
          cases active : suspended m now p with
          | true =>
            rw [if_pos rfl, if_pos rfl, or_eq_right]
            simp [eq_comm]
          | false => simp

theorem batch_exact (db : Database) (now userId serverId : Nat) (channelIds : List Nat) :
    (∀ c ∈ channelIds, (db.reader now).getPermissionsBatch db userId serverId channelIds c =
        some (db.getPermissions now userId serverId c)) ↔
      ∀ c ∈ channelIds, Harmless db now userId serverId c := by
  constructor
  · intro h c asked
    exact (harmless_iff asked).mp (h c asked)
  · intro h c asked
    exact (harmless_iff asked).mpr (h c asked)

/-- Member 2 of server 1 is timed out until 100, and channel 5 allows them to send. -/
theorem batch_differs : ¬ ∀ (db : Database) (now userId serverId : Nat) (channelIds : List Nat),
    ∀ c ∈ channelIds, (db.reader now).getPermissionsBatch db userId serverId channelIds c =
      some (db.getPermissions now userId serverId c) := by
  intro h
  let db : Database :=
    { Database.empty with
      servers := ⟨[⟨1, "server", 9, false⟩], by decide⟩
      members := ⟨[⟨3, 1, 2, none, false, false, none, some 100, none, false⟩], by decide⟩
      overrides := ⟨[⟨5, "member", 2, ⟨[("messages.send", true)], by decide⟩, Table.empty⟩],
        by decide⟩ }
  have same := h db 50 2 1 [5] 5 (by decide)
  have sends := congrArg (Option.map fun perms => perms "messages.send") same
  revert sends
  decide +kernel

end Batch

end Plexichat.Servers
