import Plexichat.Servers.Escalation
import Plexichat.Servers.PermissionCache

/-! What a resolved answer depends on: the owner, the membership row, the roles of
the member and the overrides that meet them. A write elsewhere leaves it alone. -/
namespace Plexichat.Servers.PermissionCache
open Layers Consistent

def Stands (db db' : Database) (now : Nat) (k : Key) : Prop :=
  ∀ v, resolved db now k = some v → resolved db' now k = some v

section Answer

variable {db db' : Database} {now now' : Nat} {k : Key}

theorem calculatePermissions_owner {ownerId ownerId' : Nat} {member : Option Member}
    {userId channelId : Nat} (same : ownerId' = userId ↔ ownerId = userId) :
    calculatePermissions db now ownerId' member userId channelId =
      calculatePermissions db now ownerId member userId channelId := by
  unfold calculatePermissions
  simp only [same]

theorem calculatePermissions_congr {ownerId userId channelId : Nat} {m : Member}
    (administrator : isAdministrator (db'.rolesOf m.id) = isAdministrator (db.rolesOf m.id))
    (time : m.timedOut now' = m.timedOut now)
    (bound : unrestricted ownerId userId (db.rolesOf m.id) = false → ∀ p,
      suspended m now p = false →
      decision (db'.layers (db'.rolesOf m.id) userId channelId p) =
        decision (db.layers (db.rolesOf m.id) userId channelId p) ∧
      roleGrant (db'.rolesOf m.id) p = roleGrant (db.rolesOf m.id) p) :
    calculatePermissions db' now' ownerId (some m) userId channelId =
      calculatePermissions db now ownerId (some m) userId channelId := by
  have free : unrestricted ownerId userId (db'.rolesOf m.id) =
      unrestricted ownerId userId (db.rolesOf m.id) := by
    unfold unrestricted
    rw [administrator]
  funext p
  have timed : suspended m now' p = suspended m now p := by
    unfold suspended
    rw [time]
  rw [calculatePermissions_apply, calculatePermissions_apply, free, timed]
  cases active : suspended m now p with
  | true => rfl
  | false =>
    cases bypass : unrestricted ownerId userId (db.rolesOf m.id) with
    | true => rfl
    | false => rw [(bound bypass p active).1, (bound bypass p active).2]

theorem layers_congr {roles : List RoleRow} {userId channelId : Nat} {p : String}
    (own : db'.override channelId "member" userId = db.override channelId "member" userId)
    (others : ∀ r ∈ roles, db'.override channelId "role" r.id = db.override channelId "role" r.id) :
    db'.layers roles userId channelId p = db.layers roles userId channelId p := by
  unfold Database.layers Database.memberDecision
  rw [own]
  split
  · rfl
  · congr 1
    apply List.map_congr_left
    intro r hr
    unfold Database.roleDecision
    rw [others r (mem_byRank.mp hr)]

theorem ownerOf_of_resolved {v : Permissions} (h : resolved db now k = some v) :
    ∃ ownerId, db.ownerOf k.serverId = some ownerId := by
  unfold resolved at h
  split at h
  · cases h
  · rename_i ownerId owner
    exact ⟨ownerId, owner⟩

theorem resolved_congr {ownerId ownerId' : Nat} (owner : db.ownerOf k.serverId = some ownerId)
    (owner' : db'.ownerOf k.serverId = some ownerId')
    (same : ownerId' = k.userId ↔ ownerId = k.userId)
    (member : db'.getMember k.serverId k.userId = db.getMember k.serverId k.userId)
    (value : ∀ m, db.getMember k.serverId k.userId = some m →
      calculatePermissions db' now' ownerId (some m) k.userId k.channelId =
        calculatePermissions db now ownerId (some m) k.userId k.channelId) :
    resolved db' now' k = resolved db now k := by
  unfold resolved
  rw [owner, owner', member]
  simp only [calculatePermissions_owner same, ne_eq, same]
  cases seat : db.getMember k.serverId k.userId with
  | none => rfl
  | some m => rw [value m seat]

theorem stands_of_frame
    (owner : ∀ o, db.ownerOf k.serverId = some o →
      ∃ o', db'.ownerOf k.serverId = some o' ∧ (o' = k.userId ↔ o = k.userId))
    (member : ∀ o, db.ownerOf k.serverId = some o →
      db'.getMember k.serverId k.userId = db.getMember k.serverId k.userId)
    (roles : ∀ m, db.memberRow k.serverId k.userId = some m → db'.rolesOf m.id = db.rolesOf m.id)
    (overrides : ∀ m o, db.memberRow k.serverId k.userId = some m →
      db.ownerOf k.serverId = some o → unrestricted o k.userId (db.rolesOf m.id) = false →
      db'.override k.channelId "member" k.userId = db.override k.channelId "member" k.userId ∧
        ∀ r ∈ db.rolesOf m.id,
          db'.override k.channelId "role" r.id = db.override k.channelId "role" r.id) :
    Stands db db' now k := by
  intro v h
  obtain ⟨o, known⟩ := ownerOf_of_resolved h
  obtain ⟨o', known', same⟩ := owner o known
  rw [resolved_congr known known' same (member o known) ?_]
  · exact h
  intro member seat
  obtain ⟨m, row, rfl⟩ := getMember_eq_some seat
  have kept := roles m row
  apply calculatePermissions_congr
  · exact congrArg isAdministrator kept
  · rfl
  · intro bound p active
    obtain ⟨own, others⟩ := overrides m o row known bound
    have rolesOf : db'.rolesOf m.toMember.id = db.rolesOf m.toMember.id := kept
    rw [rolesOf]
    exact ⟨congrArg decision (layers_congr own others), rfl⟩

end Answer

section Rows

variable {db db' : Database}

theorem memberRow_iff (ok : Consistent db) {serverId userId : Nat} {m : MemberRow} :
    db.memberRow serverId userId = some m ↔
      m ∈ db.members ∧ m.serverId = serverId ∧ m.userId = userId := by
  constructor
  · exact memberRow_eq_some
  · intro h
    obtain ⟨present, rfl, rfl⟩ := h
    exact ok.memberRow_of_mem present

theorem memberRow_congr (ok : Consistent db) (ok' : Consistent db') {serverId userId : Nat}
    (same : ∀ m, m.serverId = serverId → m.userId = userId → (m ∈ db'.members ↔ m ∈ db.members)) :
    db'.memberRow serverId userId = db.memberRow serverId userId := by
  apply Option.ext
  intro m
  rw [memberRow_iff ok, memberRow_iff ok']
  constructor
  · intro h
    exact ⟨(same m h.2.1 h.2.2).mp h.1, h.2⟩
  · intro h
    exact ⟨(same m h.2.1 h.2.2).mpr h.1, h.2⟩

theorem getMember_congr {serverId userId : Nat}
    (same : db'.memberRow serverId userId = db.memberRow serverId userId) :
    db'.getMember serverId userId = db.getMember serverId userId := by
  unfold Database.getMember
  rw [same]

theorem rolesOf_congr {memberId : Nat}
    (assignments : db'.memberRoles.rows.filter (fun a => a.memberId = memberId) =
      db.memberRoles.rows.filter fun a => a.memberId = memberId)
    (roles : ∀ a ∈ db.memberRoles, a.memberId = memberId →
      db'.roles.find a.roleId = db.roles.find a.roleId) :
    db'.rolesOf memberId = db.rolesOf memberId := by
  unfold Database.rolesOf
  rw [assignments]
  apply List.filterMap_congr
  intro a ha
  obtain ⟨listed, member⟩ := List.mem_filter.mp ha
  rw [roles a listed (of_decide_eq_true member)]

theorem assignments_insert {memberId : Nat} {a : MemberRole} {memberRoles}
    (inserted : db.memberRoles.insert a = some memberRoles) (other : a.memberId ≠ memberId) :
    memberRoles.rows.filter (fun a => a.memberId = memberId) =
      db.memberRoles.rows.filter fun a => a.memberId = memberId := by
  rw [(Table.insert_eq_some inserted).2, List.filter_append]
  simp [other]

theorem assignments_delete {memberId : Nat} {p : MemberRole → Bool}
    (others : ∀ a : MemberRole, a.memberId = memberId → p a = false) :
    (db.memberRoles.delete p).rows.filter (fun a => a.memberId = memberId) =
      db.memberRoles.rows.filter fun a => a.memberId = memberId := by
  unfold Table.delete
  rw [List.filter_filter]
  apply List.filter_congr
  intro a _
  by_cases here : a.memberId = memberId
  · simp [here, others a here]
  · simp [here]

theorem rolesOf_updateRoleRow_other {memberId roleId : Nat} {f : RoleRow → RoleRow}
    (others : ⟨memberId, roleId⟩ ∉ db.memberRoles) :
    (db.updateRoleRow roleId f).rolesOf memberId = db.rolesOf memberId := by
  refine rolesOf_congr rfl ?_
  intro a ha member
  unfold Database.updateRoleRow
  rw [Table.find_update]
  cases found : db.roles.find a.roleId with
  | none => rfl
  | some r =>
    have apart : r.id ≠ roleId := by
      intro same
      obtain ⟨_, assigned⟩ := a
      have role := (Table.find_eq_some.mp found).2
      simp only at role member
      rw [← same, role, ← member] at others
      exact others ha
    simp [apart]

theorem ownerOf_congr (servers : db'.servers = db.servers) (serverId : Nat) :
    db'.ownerOf serverId = db.ownerOf serverId := by
  unfold Database.ownerOf Database.liveServer
  rw [servers]

theorem ownerOf_updateServer (db : Database) (serverId newOwner s : Nat) :
    (db.updateServer serverId fun s => { s with ownerId := newOwner }).ownerOf s =
      if s = serverId then (db.ownerOf s).map fun _ => newOwner else db.ownerOf s := by
  unfold Database.ownerOf Database.liveServer Database.updateServer
  rw [Table.find_update]
  cases found : db.servers.find s with
  | none => simp
  | some row =>
    obtain ⟨_, same⟩ := Table.find_eq_some.mp found
    subst same
    by_cases here : row.id = serverId
    · cases alive : row.deleted with
      | true => simp [here, alive, Option.filter]
      | false => simp [here, alive, Option.filter]
    · simp [here]

theorem getMember_of_members (members : db'.members = db.members) (serverId userId : Nat) :
    db'.getMember serverId userId = db.getMember serverId userId := by
  unfold Database.getMember Database.memberRow
  rw [members]

structure SeatWrite (db db' : Database) (serverId userId : Nat) : Prop where
  owner : ∀ s, db'.ownerOf s = db.ownerOf s
  member : ∀ s u, ¬ (s = serverId ∧ u = userId) → db'.getMember s u = db.getMember s u
  stands : ∀ now k, ¬ (k.serverId = serverId ∧ k.userId = userId) → Stands db db' now k

theorem SeatWrite.of_tables (ok : Consistent db) (ok' : Consistent db') {serverId userId : Nat}
    (servers : db'.servers = db.servers) (overrides : db'.overrides = db.overrides)
    (members : ∀ m, ¬ (m.serverId = serverId ∧ m.userId = userId) →
      (m ∈ db'.members ↔ m ∈ db.members))
    (roles : ∀ m ∈ db.members, ¬ (m.serverId = serverId ∧ m.userId = userId) →
      db'.rolesOf m.id = db.rolesOf m.id) : SeatWrite db db' serverId userId := by
  have owner := ownerOf_congr servers
  have member : ∀ s u, ¬ (s = serverId ∧ u = userId) → db'.getMember s u = db.getMember s u := by
    intro s u apart
    apply getMember_congr
    apply memberRow_congr ok ok'
    intro m server user
    exact members m fun here => apart ⟨server.symm.trans here.1, user.symm.trans here.2⟩
  refine ⟨owner, member, ?_⟩
  intro now k apart
  apply stands_of_frame
  · intro o known
    exact ⟨o, (owner k.serverId).trans known, Iff.rfl⟩
  · intro o _
    exact member k.serverId k.userId apart
  · intro m row
    obtain ⟨present, server, user⟩ := memberRow_eq_some row
    exact roles m present fun here => apart ⟨server.symm.trans here.1, user.symm.trans here.2⟩
  · intro m o _ _ _
    unfold Database.override
    rw [overrides]
    exact ⟨rfl, fun _ _ => rfl⟩

end Rows

section Seats

variable {db db' : Database}

theorem Joined.seatWrite (ok : Consistent db) {m : MemberRow} (joined : Joined db db' m) :
    SeatWrite db db' m.serverId m.userId := by
  have ok' := ok.change joined.change
  obtain ⟨members, memberRoles, invites, hm, ha, rfl⟩ := joined.rows
  apply SeatWrite.of_tables ok ok' rfl rfl
  · intro n apart
    rw [show (n ∈ members ↔ _) from Table.mem_insert hm]
    constructor
    · intro h
      cases h with
      | inl before => exact before
      | inr new => exact absurd ⟨congrArg MemberRow.serverId new, congrArg MemberRow.userId new⟩ apart
    · exact .inl
  · intro n hn _
    have other : m.id ≠ n.id :=
      fun same => Table.find_eq_none.mp (Table.insert_eq_some hm).1 n hn same.symm
    refine rolesOf_congr ?_ fun _ _ _ => rfl
    cases ha with
    | inl none => rw [none]
    | inr everyone =>
      obtain ⟨r, _, inserted⟩ := everyone
      exact assignments_insert inserted other

theorem seatWrite_of_bans {bans} (ok : Consistent db) (serverId userId : Nat) :
    SeatWrite db { db with bans } serverId userId := by
  have ok' : Consistent { db with bans } := ok.of_frame rfl rfl rfl rfl
  exact SeatWrite.of_tables ok ok' rfl rfl (fun _ _ => Iff.rfl) fun _ _ _ => rfl

theorem expel_seatWrite {bans} (ok : Consistent db) {m : MemberRow} (hm : m ∈ db.members) :
    SeatWrite db { db.expel m with bans } m.serverId m.userId := by
  have ok' : Consistent { db.expel m with bans } := (ok.expel hm).of_frame rfl rfl rfl rfl
  apply SeatWrite.of_tables ok ok' rfl rfl
  · intro n apart
    rw [show (n ∈ (db.expel m).members ↔ _) from Ownership.mem_expel]
    exact and_iff_left apart
  · intro n hn apart
    refine rolesOf_congr (assignments_delete ?_) fun _ _ _ => rfl
    intro a member
    apply decide_eq_false
    intro same
    have here := Table.eq_of_key hn hm (member.symm.trans same)
    exact apart ⟨congrArg MemberRow.serverId here, congrArg MemberRow.userId here⟩

theorem updateMembers_seatWrite (ok : Consistent db) {serverId userId : Nat}
    {p : MemberRow → Bool} {f : MemberRow → MemberRow}
    (same : ∀ m, (f m).serverId = m.serverId ∧ (f m).userId = m.userId)
    (seat : ∀ m ∈ db.members, p m = true → m.serverId = serverId ∧ m.userId = userId) :
    SeatWrite db (db.updateMembers p f) serverId userId := by
  apply SeatWrite.of_tables ok (ok.of_updateMembers same) rfl rfl
  · intro n apart
    rw [Ownership.mem_updateMembers]
    constructor
    · intro h
      obtain ⟨m, hm, rfl⟩ := h
      by_cases written : p m = true
      · rw [if_pos written] at apart
        have kept := same m
        have here := seat m hm written
        exact absurd ⟨kept.1.trans here.1, kept.2.trans here.2⟩ apart
      · rwa [if_neg written]
    · intro hn
      have untouched : ¬ p n = true := fun written => apart (seat n hn written)
      exact ⟨n, hn, (if_neg untouched).symm⟩
  · intro n _ _
    rfl

theorem purgeRow_seatWrite (ok : Consistent db) {m : MemberRow} (plain : db.earned m.id = false)
    (seat : ∀ n ∈ db.members, n.id = m.id → n.serverId = m.serverId ∧ n.userId = m.userId) :
    SeatWrite db (db.purgeRow m) m.serverId m.userId := by
  have ok' := ok.purgeRow m
  unfold Database.purgeRow at ok' ⊢
  rw [if_neg (Bool.eq_false_iff.mp plain)] at ok' ⊢
  apply SeatWrite.of_tables ok ok' rfl rfl
  · intro n apart
    simp only [Table.mem_delete, decide_eq_false_iff_not]
    exact and_iff_left_of_imp fun hn same => apart (seat n hn same)
  · intro n hn apart
    refine rolesOf_congr (assignments_delete ?_) fun _ _ _ => rfl
    intro a member
    apply decide_eq_false
    intro same
    exact apart (seat n hn (member.symm.trans same))

theorem memberRow_updateMembers {p : MemberRow → Bool} {f : MemberRow → MemberRow}
    (same : ∀ m, (f m).serverId = m.serverId ∧ (f m).userId = m.userId) (serverId userId : Nat) :
    (db.updateMembers p f).memberRow serverId userId =
      (db.memberRow serverId userId).map fun m => if p m then { f m with id := m.id } else m := by
  unfold Database.memberRow Database.updateMembers Table.update
  rw [List.find?_map]
  congr 2
  funext m
  simp only [Function.comp]
  split
  · rw [(same m).1, (same m).2]
  · rfl

theorem purgeRow_earned {m : MemberRow} (earned : db.earned m.id = true) :
    (∀ s u, (db.purgeRow m).getMember s u = db.getMember s u) ∧
      ∀ now k, Stands db (db.purgeRow m) now k := by
  have member : ∀ s u, (db.purgeRow m).getMember s u = db.getMember s u := by
    intro s u
    unfold Database.getMember Database.purgeRow
    rw [if_pos earned, memberRow_updateMembers (f := fun n => { n with isTemporary := false })
      fun _ => ⟨rfl, rfl⟩, Option.map_map]
    congr 1
    funext n
    simp only [Function.comp]
    split
    · rfl
    · rfl
  refine ⟨member, ?_⟩
  intro now k
  unfold Database.purgeRow at member ⊢
  rw [if_pos earned] at member ⊢
  apply stands_of_frame
  · intro o known
    exact ⟨o, known, Iff.rfl⟩
  · intro o _
    exact member k.serverId k.userId
  · intro n _
    rfl
  · intro n o _ _ _
    exact ⟨rfl, fun _ _ => rfl⟩

theorem assigned_seatWrite (ok : Consistent db) {m : MemberRow} {r : RoleRow} {memberRoles}
    (member : m ∈ db.members) (role : r ∈ db.roles) (server : r.serverId = m.serverId)
    (inserted : db.memberRoles.insert ⟨m.id, r.id⟩ = some memberRoles) :
    SeatWrite db { db with memberRoles } m.serverId m.userId := by
  apply SeatWrite.of_tables ok (ok.insertAssignment member role server inserted) rfl rfl
  · intro n _
    exact Iff.rfl
  · intro n hn apart
    refine rolesOf_congr (assignments_insert inserted ?_) fun _ _ _ => rfl
    intro same
    have here := Table.eq_of_key member hn same
    exact apart ⟨congrArg MemberRow.serverId here.symm, congrArg MemberRow.userId here.symm⟩

theorem unassigned_seatWrite (ok : Consistent db) {m : MemberRow} (member : m ∈ db.members)
    {p : MemberRole → Bool} (own : ∀ a, p a = true → a.memberId = m.id) :
    SeatWrite db (db.deleteAssignments p) m.serverId m.userId := by
  apply SeatWrite.of_tables ok (ok.deleteAssignments p) rfl rfl
  · intro n _
    exact Iff.rfl
  · intro n hn apart
    refine rolesOf_congr (assignments_delete ?_) fun _ _ _ => rfl
    intro a assigned
    apply Bool.eq_false_iff.mpr
    intro deleted
    have here := Table.eq_of_key hn member (assigned.symm.trans (own a deleted))
    exact apart ⟨congrArg MemberRow.serverId here, congrArg MemberRow.userId here⟩

end Seats

section Writes

variable {db : Database} {now : Nat} {k : Key}

theorem unassigned_elsewhere (ok : Consistent db) {m : MemberRow} {role : RoleRow}
    (member : m ∈ db.members) (known : role ∈ db.roles) (elsewhere : m.serverId ≠ role.serverId) :
    ⟨m.id, role.id⟩ ∉ db.memberRoles := by
  intro assigned
  exact elsewhere (ok.sameServer _ assigned m member role known rfl rfl).symm

theorem stands_of_roles {db' : Database} (servers : db'.servers = db.servers)
    (members : db'.members = db.members) (overrides : db'.overrides = db.overrides)
    (roles : ∀ m, db.memberRow k.serverId k.userId = some m →
      db'.rolesOf m.id = db.rolesOf m.id) : Stands db db' now k := by
  apply stands_of_frame
  · intro o known
    exact ⟨o, (ownerOf_congr servers k.serverId).trans known, Iff.rfl⟩
  · intro o _
    exact getMember_of_members members k.serverId k.userId
  · exact roles
  · intro m o _ _ _
    unfold Database.override
    rw [overrides]
    exact ⟨rfl, fun _ _ => rfl⟩

theorem stands_of_other_role (ok : Consistent db) {role : RoleRow} {f : RoleRow → RoleRow}
    (known : role ∈ db.roles) (elsewhere : k.serverId ≠ role.serverId) :
    Stands db (db.updateRoleRow role.id f) now k := by
  refine stands_of_roles rfl rfl rfl ?_
  intro m row
  obtain ⟨member, server, _⟩ := memberRow_eq_some row
  apply rolesOf_updateRoleRow_other
  exact unassigned_elsewhere ok member known (server ▸ elsewhere)

theorem stands_of_deleted_role (ok : Consistent db) {role : RoleRow} {f : RoleRow → RoleRow}
    (known : role ∈ db.roles) (elsewhere : k.serverId ≠ role.serverId) :
    Stands db ((db.updateRoleRow role.id f).deleteAssignments fun a => a.roleId = role.id) now k := by
  refine stands_of_roles rfl rfl rfl ?_
  intro m row
  obtain ⟨member, server, _⟩ := memberRow_eq_some row
  have others := unassigned_elsewhere ok member known (server ▸ elsewhere)
  rw [← rolesOf_updateRoleRow_other (f := f) others]
  refine rolesOf_congr ?_ fun _ _ _ => rfl
  unfold Database.deleteAssignments Table.delete
  rw [List.filter_filter]
  apply List.filter_congr
  intro a listed
  by_cases here : a.memberId = m.id
  · have apart : a.roleId ≠ role.id := by
      intro same
      obtain ⟨_, _⟩ := a
      simp only at here same
      subst here same
      exact others listed
    simp [here, apart]
  · simp [here]

theorem stands_of_insertRole (ok : Consistent db) {r : RoleRow} {roles}
    (inserted : db.roles.insert r = some roles) : Stands db { db with roles } now k := by
  refine stands_of_roles rfl rfl rfl ?_
  intro m _
  exact rolesOf_insertRole ok inserted m.id

theorem stands_of_overrides {overrides} {channelId : Nat} {targetType : String} {targetId : Nat}
    (others : ∀ key, key ≠ (channelId, targetType, targetId) →
      overrides.find key = db.overrides.find key)
    (unconcerned : k.channelId = channelId → ∀ m o, db.memberRow k.serverId k.userId = some m →
      db.ownerOf k.serverId = some o → unrestricted o k.userId (db.rolesOf m.id) = false →
      ¬ (targetType = "member" ∧ targetId = k.userId) ∧
        ¬ (targetType = "role" ∧ ∃ r ∈ db.rolesOf m.id, r.id = targetId)) :
    Stands db { db with overrides } now k := by
  apply stands_of_frame
  · intro o known
    exact ⟨o, known, Iff.rfl⟩
  · intro o _
    rfl
  · intro m _
    rfl
  · intro m o row known bound
    constructor
    · apply others
      intro same
      simp only [Prod.mk.injEq] at same
      exact (unconcerned same.1 m o row known bound).1 ⟨same.2.1.symm, same.2.2.symm⟩
    · intro r hr
      apply others
      intro same
      simp only [Prod.mk.injEq] at same
      exact (unconcerned same.1 m o row known bound).2 ⟨same.2.1.symm, r, hr, same.2.2⟩

theorem stands_of_transfer {serverId oldOwner newOwner : Nat}
    (owner : db.ownerOf serverId = some oldOwner)
    (apart : ¬ (k.serverId = serverId ∧ (k.userId = oldOwner ∨ k.userId = newOwner))) :
    Stands db (db.updateServer serverId fun s => { s with ownerId := newOwner }) now k := by
  apply stands_of_frame
  · intro o known
    rw [ownerOf_updateServer]
    by_cases here : k.serverId = serverId
    · rw [here, owner] at known
      cases known
      rw [if_pos here, here, owner]
      refine ⟨newOwner, rfl, ?_⟩
      constructor
      · intro new
        exact absurd ⟨here, .inr new.symm⟩ apart
      · intro old
        exact absurd ⟨here, .inl old.symm⟩ apart
    · rw [if_neg here, known]
      exact ⟨o, rfl, Iff.rfl⟩
  · intro o _
    rfl
  · intro m _
    rfl
  · intro m o _ _ _
    exact ⟨rfl, fun _ _ => rfl⟩

theorem ownerOf_deleteServer (db : Database) {serverId s : Nat} (other : s ≠ serverId) :
    (db.updateServer serverId fun s => { s with deleted := true }).ownerOf s = db.ownerOf s := by
  unfold Database.ownerOf Database.liveServer Database.updateServer
  rw [Table.find_update]
  cases found : db.servers.find s with
  | none => rfl
  | some row =>
    have apart : row.id ≠ serverId := by
      rw [(Table.find_eq_some.mp found).2]
      exact other
    simp [apart]

theorem stands_of_deleteServer {serverId : Nat} (other : k.serverId ≠ serverId) :
    Stands db (db.updateServer serverId fun s => { s with deleted := true }) now k := by
  apply stands_of_frame
  · intro o known
    exact ⟨o, (ownerOf_deleteServer db other).trans known, Iff.rfl⟩
  · intro o _
    rfl
  · intro m _
    rfl
  · intro m o _ _ _
    exact ⟨rfl, fun _ _ => rfl⟩

structure Founded (db db' : Database) (ids : ServerIds) : Prop where
  fresh : ∀ s ∈ db.servers, s.id ≠ ids.server
  owner : ∀ s, s ≠ ids.server → db'.ownerOf s = db.ownerOf s
  member : ∀ s u, s ≠ ids.server → db'.memberRow s u = db.memberRow s u
  roles : ∀ m ∈ db.members, db'.rolesOf m.id = db.rolesOf m.id
  overrides : db'.overrides = db.overrides

theorem founded_of_createServer (ok : Consistent db) {cfg : Config} {ids : ServerIds}
    {ownerId : Nat} {name : String} {db' : Database}
    (h : createServer cfg db ids ownerId name = .ok db') : Founded db db' ids := by
  have ok' := ok.change (createServer_change h)
  obtain ⟨valid, servers, roles, members, memberRoles, channels, hs, hr, hm, ha, _, rfl⟩ :=
    createServer_ok h
  refine ⟨Table.find_eq_none.mp (Table.insert_eq_some hs).1, ?_, ?_, ?_, rfl⟩
  · intro s other
    unfold Database.ownerOf Database.liveServer
    rw [Table.find_insert hs, if_neg (Ne.symm other)]
  · intro s u other
    apply memberRow_congr ok ok'
    intro n server _
    rw [show (n ∈ members ↔ _) from Table.mem_insert hm]
    constructor
    · intro h
      cases h with
      | inl before => exact before
      | inr new => exact absurd (server.symm.trans (congrArg MemberRow.serverId new)) other
    · exact .inl
  · intro m hm'
    apply rolesOf_congr
    · apply assignments_insert ha
      intro same
      exact Table.find_eq_none.mp (Table.insert_eq_some hm).1 m hm' same.symm
    · intro a assigned _
      obtain ⟨r, known, id⟩ := ok.assignedRole a assigned
      have apart : (everyoneRole ids).id ≠ a.roleId := by
        intro same
        exact Table.find_eq_none.mp (Table.insert_eq_some hr).1 r known (id.trans same.symm)
      rw [Table.find_insert hr, if_neg apart]

theorem Founded.elsewhere {db' : Database} {ids : ServerIds} (founded : Founded db db' ids)
    {s o : Nat} (known : db.ownerOf s = some o) : s ≠ ids.server := by
  obtain ⟨row, live, _⟩ := Option.map_eq_some_iff.mp known
  obtain ⟨present, id, _⟩ := liveServer_eq_some.mp live
  exact id ▸ founded.fresh row present

theorem Founded.stands {db' : Database} {ids : ServerIds} (founded : Founded db db' ids) :
    Stands db db' now k := by
  apply stands_of_frame
  · intro o known
    exact ⟨o, (founded.owner k.serverId (founded.elsewhere known)).trans known, Iff.rfl⟩
  · intro o known
    exact getMember_congr (founded.member k.serverId k.userId (founded.elsewhere known))
  · intro m row
    exact founded.roles m (memberRow_eq_some row).1
  · intro m o _ _ _
    unfold Database.override
    rw [founded.overrides]
    exact ⟨rfl, fun _ _ => rfl⟩

/-- `move_role`, as a case of `update_role`. -/
def repositioned (position : Int) : RoleChanges := ⟨none, none, some position⟩

theorem any_rewritten {roles : List RoleRow} {roleId : Nat} {position : Int} {p : String} :
    grantedByRoles (roles.map (RoleRow.rewritten ((repositioned position).apply none) roleId)) p =
      grantedByRoles roles p := by
  unfold grantedByRoles
  rw [List.any_map]
  congr 1
  funext r
  simp only [Function.comp, RoleRow.rewritten]
  split
  · rfl
  · rfl

theorem silent_in_any_order (roles : List RoleRow) (rank rank' : RoleRow → Int)
    (channelId : Nat) (p : String) :
    decision (db.roleDecisions channelId p (byRank rank roles)) = none ↔
      decision (db.roleDecisions channelId p (byRank rank' roles)) = none := by
  simp only [decision_eq_none, Database.roleDecisions, List.mem_map, mem_byRank]

theorem or_right_cancel {a b g : Option Bool} (silent : a = none ↔ b = none) :
    a.or g = b.or g ↔ a = b := by
  cases a with
  | none => simp [silent.mp rfl]
  | some v =>
    cases b with
    | none => cases silent.mpr rfl
    | some w => simp

theorem resolved_move_iff {roleId : Nat} {position : Int} {ownerId : Nat} {m : MemberRow}
    (owner : db.ownerOf k.serverId = some ownerId)
    (row : db.memberRow k.serverId k.userId = some m) :
    resolved (db.updateRoleRow roleId ((repositioned position).apply none)) now k =
        resolved db now k ↔
      (k.channelId ≠ 0 → ∀ p, Exposed db now k.serverId k.userId p m →
        db.memberDecision k.channelId p k.userId = none →
        decision (db.roleDecisions k.channelId p
            (byRank ((repositioned position).rank roleId) (db.rolesOf m.id))) =
          decision (db.roleDecisions k.channelId p
            (byRank RoleRow.position (db.rolesOf m.id)))) := by
  let db' := db.updateRoleRow roleId ((repositioned position).apply none)
  have seat : db.getMember k.serverId k.userId = some m.toMember := by
    unfold Database.getMember
    rw [row]
    rfl
  have roles : db'.rolesOf m.toMember.id =
      (db.rolesOf m.id).map (RoleRow.rewritten ((repositioned position).apply none) roleId) :=
    rolesOf_updateRoleRow (f := (repositioned position).apply none) (fun _ => rfl) m.id
  have grants : ∀ p, grantedByRoles (db'.rolesOf m.toMember.id) p =
      grantedByRoles (db.rolesOf m.id) p := by
    intro p
    rw [roles, any_rewritten]
  have above : ∀ p, k.channelId ≠ 0 → db'.layers (db'.rolesOf m.toMember.id) k.userId k.channelId p =
      db.roleDecisions k.channelId p
        (byRank ((repositioned position).rank roleId) (db.rolesOf m.id)) ++
        [db.memberDecision k.channelId p k.userId] := by
    intro p channel
    rw [layers_eq _ channel, roles]
    exact congrArg (· ++ _) roleDecisions_rewritten
  have unfolded : resolved db' now k = resolved db now k ↔
      calculatePermissions db' now ownerId (some m.toMember) k.userId k.channelId =
        calculatePermissions db now ownerId (some m.toMember) k.userId k.channelId := by
    have owner' : db'.ownerOf k.serverId = some ownerId := owner
    have seat' : db'.getMember k.serverId k.userId = some m.toMember := seat
    unfold resolved
    rw [owner, owner', seat, seat']
    simp
  rw [unfolded]
  constructor
  · intro same channel p exposed silent
    obtain ⟨o, known, bound⟩ := exposed.bound
    cases known.symm.trans owner
    have bound' : unrestricted ownerId k.userId (db'.rolesOf m.toMember.id) = false := by
      unfold unrestricted isAdministrator at bound ⊢
      exact (congrArg _ (grants "administrator")).trans bound
    have bound₀ : unrestricted ownerId k.userId (db.rolesOf m.toMember.id) = false := bound
    have at_p := congrFun same p
    rw [calculatePermissions_apply, calculatePermissions_apply, exposed.active, bound', bound₀,
      above p channel, layers_eq _ channel, decision_append, decision_append, silent] at at_p
    simp only [Bool.false_eq_true, if_false, decision_cons, decision_nil, Option.none_or,
      roleGrant, grants] at at_p
    exact (or_right_cancel (silent_in_any_order _ _ _ _ _)).mp at_p
  · intro undisturbed
    apply calculatePermissions_congr
    · exact grants "administrator"
    · rfl
    · intro bound p active
      refine ⟨?_, ?_⟩
      · by_cases channel : k.channelId = 0
        · unfold Database.layers
          rw [if_pos channel, if_pos channel]
        · rw [above p channel, layers_eq _ channel, decision_append, decision_append]
          cases silent : db.memberDecision k.channelId p k.userId with
          | some v => rfl
          | none =>
            simp only [decision_cons, decision_nil, Option.none_or]
            exact undisturbed channel p ⟨row, ⟨ownerId, owner, bound⟩, active⟩ silent
      · unfold roleGrant
        rw [grants]
        rfl

theorem stands_of_move {roleId : Nat} {position : Int}
    (undisturbed : ∀ m, db.memberRow k.serverId k.userId = some m →
      k.channelId ≠ 0 → ∀ p, Exposed db now k.serverId k.userId p m →
        db.memberDecision k.channelId p k.userId = none →
        decision (db.roleDecisions k.channelId p
            (byRank ((repositioned position).rank roleId) (db.rolesOf m.id))) =
          decision (db.roleDecisions k.channelId p
            (byRank RoleRow.position (db.rolesOf m.id)))) :
    Stands db (db.updateRoleRow roleId ((repositioned position).apply none)) now k := by
  intro v h
  obtain ⟨ownerId, owner⟩ := ownerOf_of_resolved h
  cases row : db.memberRow k.serverId k.userId with
  | some m => exact ((resolved_move_iff owner row).mpr (undisturbed m row)).trans h
  | none =>
    have owner' : (db.updateRoleRow roleId ((repositioned position).apply none)).ownerOf
        k.serverId = some ownerId := owner
    rw [resolved_congr owner owner' Iff.rfl rfl ?_]
    · exact h
    · intro m seat
      unfold Database.getMember at seat
      rw [row] at seat
      cases seat

end Writes

end Plexichat.Servers.PermissionCache
