import Plexichat.Servers.Ownership

/-! The keys that join the tables: seats are unique, every assignment joins a
member with a role of the same server. The schema promises the first part, the
operations the second. -/
namespace Plexichat.Servers
open Ownership

structure Consistent (db : Database) : Prop where
  home : ∀ m ∈ db.members, ∃ s ∈ db.servers, s.id = m.serverId
  seats : ∀ m ∈ db.members, ∀ n ∈ db.members, m.serverId = n.serverId → m.userId = n.userId → m = n
  assignedMember : ∀ a ∈ db.memberRoles, ∃ m ∈ db.members, m.id = a.memberId
  assignedRole : ∀ a ∈ db.memberRoles, ∃ r ∈ db.roles, r.id = a.roleId
  sameServer : ∀ a ∈ db.memberRoles, ∀ m ∈ db.members, ∀ r ∈ db.roles, m.id = a.memberId →
    r.id = a.roleId → r.serverId = m.serverId

namespace Consistent

variable {db : Database}

theorem empty : Consistent Database.empty := by
  refine ⟨?_, ?_, ?_, ?_, ?_⟩
  all_goals
    intro x hx
    cases hx

theorem memberRow_of_mem (ok : Consistent db) {m : MemberRow} (hm : m ∈ db.members) :
    db.memberRow m.serverId m.userId = some m := by
  have present : db.isMember m.serverId m.userId = true := isMember_iff.mpr ⟨m, hm, rfl, rfl⟩
  obtain ⟨n, row⟩ := Option.isSome_iff_exists.mp present
  obtain ⟨hn, server, user⟩ := memberRow_eq_some row
  rw [row, ok.seats n hn m hm server user]

theorem of_updateMembers (ok : Consistent db) {p : MemberRow → Bool} {f : MemberRow → MemberRow}
    (same : ∀ m, (f m).serverId = m.serverId ∧ (f m).userId = m.userId) :
    Consistent (db.updateMembers p f) := by
  refine ⟨?_, ?_, ?_, ok.assignedRole, ?_⟩
  · intro n hn
    obtain ⟨m, hm, seat⟩ := updateMembers_old same hn
    rw [seat.2.1]
    exact ok.home m hm
  · intro n hn q hq server user
    obtain ⟨m, hm, rfl⟩ := mem_updateMembers.mp hn
    obtain ⟨k, hk, rfl⟩ := mem_updateMembers.mp hq
    have keeps : ∀ r : MemberRow, (if p r then { f r with id := r.id } else r).serverId =
        r.serverId ∧ (if p r then { f r with id := r.id } else r).userId = r.userId := by
      intro r
      split
      · exact same r
      · exact ⟨rfl, rfl⟩
    rw [(keeps m).1, (keeps k).1] at server
    rw [(keeps m).2, (keeps k).2] at user
    rw [ok.seats m hm k hk server user]
  · intro a ha
    obtain ⟨m, hm, id⟩ := ok.assignedMember a ha
    obtain ⟨n, hn, seat⟩ := updateMembers_stay same hm
    exact ⟨n, hn, seat.1.trans id⟩
  · intro a ha n hn r hr member role
    obtain ⟨m, hm, seat⟩ := updateMembers_old same hn
    rw [seat.2.1]
    exact ok.sameServer a ha m hm r hr (seat.1.symm.trans member) role

theorem of_removed {db' : Database} (ok : Consistent db) {m : MemberRow}
    (servers : db'.servers = db.servers) (roles : db'.roles = db.roles)
    (members : ∀ n, n ∈ db'.members ↔ n ∈ db.members ∧ n ≠ m)
    (assignments : ∀ a, a ∈ db'.memberRoles ↔ a ∈ db.memberRoles ∧ a.memberId ≠ m.id) :
    Consistent db' := by
  refine ⟨?_, ?_, ?_, ?_, ?_⟩
  · intro n hn
    rw [servers]
    exact ok.home n ((members n).mp hn).1
  · intro n hn k hk
    exact ok.seats n ((members n).mp hn).1 k ((members k).mp hk).1
  · intro a ha
    obtain ⟨before, other⟩ := (assignments a).mp ha
    obtain ⟨n, hn, id⟩ := ok.assignedMember a before
    refine ⟨n, (members n).mpr ⟨hn, ?_⟩, id⟩
    intro same
    exact other (same ▸ id.symm)
  · intro a ha
    rw [roles]
    exact ok.assignedRole a ((assignments a).mp ha).1
  · intro a ha n hn r hr
    rw [roles] at hr
    exact ok.sameServer a ((assignments a).mp ha).1 n ((members n).mp hn).1 r hr

theorem mem_deleteMemberRoles {memberId : Nat} {a : MemberRole} :
    a ∈ (db.deleteMemberRoles memberId).memberRoles ↔
      a ∈ db.memberRoles ∧ a.memberId ≠ memberId := by
  simp only [Database.deleteMemberRoles, Table.mem_delete, decide_eq_false_iff_not, ne_eq]

theorem mem_expel_iff (ok : Consistent db) {m n : MemberRow} (hm : m ∈ db.members) :
    n ∈ (db.expel m).members ↔ n ∈ db.members ∧ n ≠ m := by
  rw [mem_expel]
  refine and_congr_right fun hn => not_congr ?_
  constructor
  · intro h
    exact ok.seats n hn m hm h.1 h.2
  · intro h
    exact h ▸ ⟨rfl, rfl⟩

theorem expel (ok : Consistent db) {m : MemberRow} (hm : m ∈ db.members) :
    Consistent (db.expel m) :=
  ok.of_removed (m := m) rfl rfl (fun _ => ok.mem_expel_iff hm) fun _ => mem_deleteMemberRoles

theorem purgeRow (ok : Consistent db) (m : MemberRow) : Consistent (db.purgeRow m) := by
  unfold Database.purgeRow
  split
  · exact ok.of_updateMembers fun _ => ⟨rfl, rfl⟩
  · by_cases known : ∃ n ∈ db.members, n.id = m.id
    · obtain ⟨n, hn, id⟩ := known
      refine ok.of_removed (m := n) rfl rfl ?_ ?_
      · intro k
        simp only [Table.mem_delete, decide_eq_false_iff_not]
        refine and_congr_right fun hk => not_congr ?_
        constructor
        · intro same
          exact Table.eq_of_key hk hn (same.trans id.symm)
        · intro same
          exact same ▸ id
      · intro a
        rw [id]
        exact mem_deleteMemberRoles
    · have nobody : ∀ k ∈ db.members, k.id ≠ m.id := fun k hk same => known ⟨k, hk, same⟩
      refine ⟨?_, ?_, ?_, ?_, ?_⟩
      · intro k hk
        exact ok.home k (Table.mem_delete.mp hk).1
      · intro k hk q hq
        exact ok.seats k (Table.mem_delete.mp hk).1 q (Table.mem_delete.mp hq).1
      · intro a ha
        obtain ⟨k, hk, id⟩ := ok.assignedMember a (mem_deleteMemberRoles.mp ha).1
        exact ⟨k, Table.mem_delete.mpr ⟨hk, by simpa using nobody k hk⟩, id⟩
      · intro a ha
        exact ok.assignedRole a (mem_deleteMemberRoles.mp ha).1
      · intro a ha k hk r hr
        exact ok.sameServer a (mem_deleteMemberRoles.mp ha).1 k (Table.mem_delete.mp hk).1 r hr

theorem purge (ok : Consistent db) (userId : Nat) : Consistent (purgeTemporaryMembers db userId) := by
  unfold purgeTemporaryMembers
  generalize db.temporaryRows userId = rows
  induction rows generalizing db with
  | nil => exact ok
  | cons m rows ih => exact ih (ok.purgeRow m)

theorem mem_updateRoleRow {roleId : Nat} {f : RoleRow → RoleRow} {r : RoleRow} :
    r ∈ (db.updateRoleRow roleId f).roles ↔
      ∃ q ∈ db.roles, r = if q.id = roleId then { f q with id := q.id } else q := by
  simp only [Database.updateRoleRow, Table.mem_update, decide_eq_true_eq]

theorem updateRoleRow (ok : Consistent db) {roleId : Nat} {f : RoleRow → RoleRow}
    (same : ∀ r, (f r).serverId = r.serverId) : Consistent (db.updateRoleRow roleId f) := by
  have keeps : ∀ q : RoleRow, (if q.id = roleId then { f q with id := q.id } else q).id = q.id ∧
      (if q.id = roleId then { f q with id := q.id } else q).serverId = q.serverId := by
    intro q
    split
    · exact ⟨rfl, same q⟩
    · exact ⟨rfl, rfl⟩
  refine ⟨ok.home, ok.seats, ok.assignedMember, ?_, ?_⟩
  · intro a ha
    obtain ⟨r, hr, id⟩ := ok.assignedRole a ha
    exact ⟨_, mem_updateRoleRow.mpr ⟨r, hr, rfl⟩, (keeps r).1.trans id⟩
  · intro a ha m hm r hr member role
    obtain ⟨q, hq, rfl⟩ := mem_updateRoleRow.mp hr
    rw [(keeps q).2]
    exact ok.sameServer a ha m hm q hq member ((keeps q).1.symm.trans role)

theorem deleteAssignments (ok : Consistent db) (p : MemberRole → Bool) :
    Consistent (db.deleteAssignments p) := by
  refine ⟨ok.home, ok.seats, ?_, ?_, ?_⟩
  · intro a ha
    exact ok.assignedMember a (Table.mem_delete.mp ha).1
  · intro a ha
    exact ok.assignedRole a (Table.mem_delete.mp ha).1
  · intro a ha
    exact ok.sameServer a (Table.mem_delete.mp ha).1

theorem insertMember (ok : Consistent db) {m : MemberRow} {members}
    (home : ∃ s ∈ db.servers, s.id = m.serverId)
    (fresh : db.isMember m.serverId m.userId = false)
    (hm : db.members.insert m = some members) : Consistent { db with members } := by
  have unused := Table.find_eq_none.mp (Table.insert_eq_some hm).1
  have outsider : ∀ n ∈ db.members, n.serverId = m.serverId → n.userId ≠ m.userId := by
    intro n hn server user
    rw [isMember_iff.mpr ⟨n, hn, server, user⟩] at fresh
    cases fresh
  refine ⟨?_, ?_, ?_, ok.assignedRole, ?_⟩
  · intro n hn
    cases (Table.mem_insert hm).mp hn with
    | inl before => exact ok.home n before
    | inr new => exact new ▸ home
  · intro n hn k hk server user
    cases (Table.mem_insert hm).mp hn with
    | inl before =>
      cases (Table.mem_insert hm).mp hk with
      | inl before' => exact ok.seats n before k before' server user
      | inr new =>
        subst new
        exact absurd user (outsider n before server)
    | inr new =>
      cases (Table.mem_insert hm).mp hk with
      | inl before' =>
        subst new
        exact absurd user.symm (outsider k before' server.symm)
      | inr new' => exact new.trans new'.symm
  · intro a ha
    obtain ⟨n, hn, id⟩ := ok.assignedMember a ha
    exact ⟨n, (Table.mem_insert hm).mpr (.inl hn), id⟩
  · intro a ha n hn r hr member role
    cases (Table.mem_insert hm).mp hn with
    | inl before => exact ok.sameServer a ha n before r hr member role
    | inr new =>
      subst new
      obtain ⟨k, hk, id⟩ := ok.assignedMember a ha
      exact absurd (id.trans member.symm) (unused k hk)

theorem insertRole (ok : Consistent db) {r : RoleRow} {roles}
    (hr : db.roles.insert r = some roles) : Consistent { db with roles } := by
  have unused := Table.find_eq_none.mp (Table.insert_eq_some hr).1
  refine ⟨ok.home, ok.seats, ok.assignedMember, ?_, ?_⟩
  · intro a ha
    obtain ⟨q, hq, id⟩ := ok.assignedRole a ha
    exact ⟨q, (Table.mem_insert hr).mpr (.inl hq), id⟩
  · intro a ha m hm q hq member role
    cases (Table.mem_insert hr).mp hq with
    | inl before => exact ok.sameServer a ha m hm q before member role
    | inr new =>
      subst new
      obtain ⟨k, hk, id⟩ := ok.assignedRole a ha
      exact absurd (id.trans role.symm) (unused k hk)

theorem insertAssignment (ok : Consistent db) {m : MemberRow} {r : RoleRow} {memberRoles}
    (member : m ∈ db.members) (role : r ∈ db.roles) (server : r.serverId = m.serverId)
    (ha : db.memberRoles.insert ⟨m.id, r.id⟩ = some memberRoles) :
    Consistent { db with memberRoles } := by
  refine ⟨ok.home, ok.seats, ?_, ?_, ?_⟩
  · intro a h
    cases (Table.mem_insert ha).mp h with
    | inl before => exact ok.assignedMember a before
    | inr new => exact ⟨m, member, new ▸ rfl⟩
  · intro a h
    cases (Table.mem_insert ha).mp h with
    | inl before => exact ok.assignedRole a before
    | inr new => exact ⟨r, role, new ▸ rfl⟩
  · intro a h n hn q hq memberId roleId
    cases (Table.mem_insert ha).mp h with
    | inl before => exact ok.sameServer a before n hn q hq memberId roleId
    | inr new =>
      subst new
      have sameMember : n = m := Table.eq_of_key hn member memberId
      have sameRole : q = r := Table.eq_of_key hq role roleId
      rw [sameMember, sameRole]
      exact server

theorem insertServer (ok : Consistent db) {s : ServerRow} {servers}
    (hs : db.servers.insert s = some servers) : Consistent { db with servers } := by
  refine ⟨?_, ok.seats, ok.assignedMember, ok.assignedRole, ok.sameServer⟩
  intro m hm
  obtain ⟨q, hq, id⟩ := ok.home m hm
  exact ⟨q, (Table.mem_insert hs).mpr (.inl hq), id⟩

theorem of_updateServer (ok : Consistent db) (serverId : Nat) (f : ServerRow → ServerRow) :
    Consistent (db.updateServer serverId f) := by
  refine ⟨?_, ok.seats, ok.assignedMember, ok.assignedRole, ok.sameServer⟩
  intro m hm
  obtain ⟨s, hs, id⟩ := ok.home m hm
  refine ⟨_, mem_updateServer.mpr ⟨s, hs, rfl⟩, ?_⟩
  split
  · exact id
  · exact id

theorem of_frame {db' : Database} (ok : Consistent db) (servers : db'.servers = db.servers)
    (roles : db'.roles = db.roles) (members : db'.members = db.members)
    (memberRoles : db'.memberRoles = db.memberRoles) : Consistent db' := by
  cases db'
  simp only at servers roles members memberRoles
  subst servers roles members memberRoles
  exact ⟨ok.home, ok.seats, ok.assignedMember, ok.assignedRole, ok.sameServer⟩

theorem change {db' : Database} (ok : Consistent db) (h : Change db db') : Consistent db' := by
  cases h with
  | serverCreated ids ownerId name hs hr hm ha hc =>
    have fresh := Table.find_eq_none.mp (Table.insert_eq_some hs).1
    have opened := (ok.insertServer hs).insertRole hr
    have nobody : db.isMember ids.server ownerId = false := by
      apply Bool.eq_false_iff.mpr
      intro member
      obtain ⟨m, hm, server, _⟩ := isMember_iff.mp member
      obtain ⟨s, hs, id⟩ := ok.home m hm
      exact fresh s hs (id.trans server)
    have joined := opened.insertMember (m := plainMember ids.member ids.server ownerId none false)
      ⟨_, (Table.mem_insert hs).mpr (.inr rfl), rfl⟩ nobody hm
    have assigned := joined.insertAssignment (r := everyoneRole ids)
      ((Table.mem_insert hm).mpr (.inr rfl)) ((Table.mem_insert hr).mpr (.inr rfl)) rfl ha
    exact assigned.of_frame rfl rfl rfl rfl
  | serverDeleted serverId => exact ok.of_updateServer _ _
  | transferred serverId newOwnerId member => exact ok.of_updateServer _ _
  | joined m banned live fresh hm ha =>
    obtain ⟨s, alive⟩ := Option.isSome_iff_exists.mp live
    obtain ⟨hs, id, _⟩ := liveServer_eq_some.mp alive
    have joined := ok.insertMember ⟨s, hs, id⟩ fresh hm
    cases ha with
    | inl none => exact joined.of_frame rfl rfl rfl none
    | inr everyone =>
      obtain ⟨r, default, inserted⟩ := everyone
      have place := List.find?_some default
      simp only [Bool.and_eq_true, decide_eq_true_eq] at place
      have assigned := joined.insertAssignment ((Table.mem_insert hm).mpr (.inr rfl))
        (List.mem_of_find?_eq_some default) place.1 inserted
      exact assigned.of_frame rfl rfl rfl rfl
  | expelled m s member live other => exact ok.expel (memberRow_eq_some member).1
  | bannedMember m s ban member live other key hb =>
    exact (ok.expel (memberRow_eq_some member).1).of_frame rfl rfl rfl rfl
  | bannedOutsider ban s outsider live hb => exact ok.of_frame rfl rfl rfl rfl
  | unbanned p => exact ok.of_frame rfl rfl rfl rfl
  | memberUpdated serverId userId changes => exact ok.of_updateMembers fun _ => ⟨rfl, rfl⟩
  | invitesChanged invites => exact ok.of_frame rfl rfl rfl rfl
  | roleCreated r hr => exact ok.insertRole hr
  | roleUpdated roleId f same => exact ok.updateRoleRow same
  | roleDeleted roleId =>
    exact (ok.updateRoleRow (f := fun r => { r with deleted := true })
      fun _ => rfl).deleteAssignments _
  | assigned m r member role server ha => exact ok.insertAssignment member role server ha
  | unassigned p => exact ok.deleteAssignments p
  | overridesChanged overrides => exact ok.of_frame rfl rfl rfl rfl
  | unchanged => exact ok

theorem perform {cfg : Config} {rd : Reader} {now : Nat} {db' : Database} {op : Operation}
    (ok : Consistent db) (truth : rd.member = db.getMember)
    (h : Servers.perform cfg rd now db op = .ok db') : Consistent db' := by
  cases perform_change truth h with
  | inl change => exact ok.change change
  | inr purge =>
    obtain ⟨userId, _, rfl⟩ := purge
    exact ok.purge userId

theorem of_reachable {cfg : Config} (h : Transition.Reachable (step cfg) (· = Database.empty) db) :
    Consistent db := by
  apply Transition.guarded_invariant (fun _ first => first ▸ empty) _ h
  intro db ⟨now, op⟩ db' ok _ next
  simp only [step] at next
  split at next
  · rename_i result returned
    cases next
    exact ok.perform rfl returned
  · cases next
    exact ok

end Consistent

namespace Ownership

open Transition
open Consistent

theorem purgeRow_earned {db : Database} {m : MemberRow} {memberId : Nat}
    (plain : db.earned memberId = false) : (db.purgeRow m).earned memberId = false := by
  unfold Database.purgeRow
  split
  · exact plain
  · by_cases same : memberId = m.id
    · subst same
      apply List.any_eq_false.mpr
      intro a ha
      have other := (mem_deleteMemberRoles.mp ha).2
      simp [other]
    · exact (earned_deleteMemberRoles same).trans plain

theorem purgeRows_gone {db : Database} {rows : List MemberRow} {memberId : Nat}
    (plain : db.earned memberId = false)
    (listed : (∃ m ∈ rows, m.id = memberId) ∨ ∀ n ∈ db.members, n.id ≠ memberId) :
    ∀ n ∈ (rows.foldl Database.purgeRow db).members, n.id ≠ memberId := by
  induction rows generalizing db with
  | nil =>
    cases listed with
    | inl listed =>
      obtain ⟨_, impossible, _⟩ := listed
      cases impossible
    | inr gone => exact gone
  | cons m rows ih =>
    apply ih (purgeRow_earned plain)
    have stays_gone : (∀ n ∈ db.members, n.id ≠ memberId) →
        ∀ n ∈ (db.purgeRow m).members, n.id ≠ memberId := by
      intro gone n hn
      obtain ⟨k, hk, seat⟩ := purgeRow_old hn
      rw [seat.1]
      exact gone k hk
    cases listed with
    | inl listed =>
      obtain ⟨q, hq, id⟩ := listed
      cases List.mem_cons.mp hq with
      | inl here =>
        subst here
        subst id
        exact .inr fun n hn => ((mem_purgeRow_plain plain).mp hn).2
      | inr later => exact .inl ⟨q, later, id⟩
    | inr gone => exact .inr (stays_gone gone)

/-- The guard asks for no more than the purge needs. -/
theorem purge_ownerSafe_iff {cfg : Config} {db : Database}
    (h : Guarded (step cfg) Guard (· = Database.empty) db) (userId : Nat) :
    OwnerSafe (purgeTemporaryMembers db userId) ↔ OwnsPermanently db userId := by
  have inv : Inv db := guarded_invariant (fun _ first => first ▸ inv_empty)
    (fun _ _ _ inv ok next => step_inv inv ok next) h
  have ok : Consistent db := .of_reachable (guarded_mono (fun _ _ _ => trivial) h)
  constructor
  · intro safe s hs live owner m hm server
    by_contra unearned
    have gone := purgeRows_gone (Bool.eq_false_iff.mpr unearned) (.inl ⟨m, hm, rfl⟩)
    have frame := purgeRows_frame db (db.temporaryRows userId)
    obtain ⟨n, hn, place, user⟩ := safe.member s (frame.1 ▸ hs) live
    obtain ⟨k, hk, seat⟩ := purgeRows_old hn
    have listed := List.mem_filter.mp hm
    simp only [Bool.and_eq_true, decide_eq_true_eq] at listed
    have same : k = m := by
      apply ok.seats k hk m listed.1
      · rw [← seat.2.1, place, server]
      · rw [← seat.2.2, user, owner, listed.2.1]
    exact gone n hn (seat.1.trans (congrArg MemberRow.id same))
  · intro permanent
    exact (inv.purge permanent).ownerSafe

/-- A temporary owner without a role is purged, and a temporary member who owns nothing may
be. -/
theorem purge_ownerSafe_handover : ∃ db : Database,
    ¬ OwnerSafe (purgeTemporaryMembers db 8) ∧ OwnerSafe (purgeTemporaryMembers db 9) := by
  let calls : List (Nat × Operation) :=
    [(1, .createServer (ids 100) 7 "guild"), (2, .addMember 200 100 8 (some 7) true),
      (3, .addMember 300 100 9 (some 7) true), (4, .transferOwnership 7 100 8)]
  let db := (runGuarded (step defaultConfig) Guard Database.empty calls).get (by decide)
  have reached : Guarded (step defaultConfig) Guard (· = Database.empty) db :=
    guarded_of_run (s := Database.empty) calls rfl (Option.some_get _).symm
  exact ⟨db, fun safe => absurd ((purge_ownerSafe_iff reached 8).mp safe) (by decide),
    (purge_ownerSafe_iff reached 9).mpr (by decide)⟩

end Ownership

end Plexichat.Servers
