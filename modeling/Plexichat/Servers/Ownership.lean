import Plexichat.Library.Transition
import Plexichat.Servers.Operations

/-! The owner of a live server stays a member of it, and nobody bans the owner,
along every run of the operations. Every operation but the purge of temporary
members looks at the owner first. -/
namespace Plexichat.Servers.Ownership
open Transition

/-- An operation at its time. A refused one raises and leaves the tables as they are. -/
def step (cfg : Config) (db : Database) : Nat × Operation → Option Database
  | (now, op) =>
    match perform cfg (db.reader now) now db op with
    | .ok db' => some db'
    | .error _ => some db

structure OwnerSafe (db : Database) : Prop where
  member : ∀ s ∈ db.servers, s.deleted = false → ∃ m ∈ db.members, m.serverId = s.id ∧
    m.userId = s.ownerId
  unbanned : ∀ s ∈ db.servers, s.deleted = false → ∀ b ∈ db.bans, b.key ≠ (s.id, s.ownerId)

/-- The purge leaves every owner alone: a temporary membership in a server that the
user owns has earned a role. -/
def OwnsPermanently (db : Database) (userId : Nat) : Prop :=
  ∀ s ∈ db.servers.rows, s.deleted = false → s.ownerId = userId → ∀ m ∈ db.temporaryRows userId,
    m.serverId = s.id → db.earned m.id = true

def purgedUser : Operation → Option Nat
  | .purgeTemporaryMembers userId => some userId
  | _ => none

def Guard (db : Database) (a : Nat × Operation) : Prop :=
  ∀ userId ∈ purgedUser a.2, OwnsPermanently db userId

instance (db : Database) (userId : Nat) : Decidable (OwnsPermanently db userId) :=
  inferInstanceAs (Decidable (∀ s ∈ db.servers.rows, _))

instance (db : Database) (a : Nat × Operation) : Decidable (Guard db a) :=
  inferInstanceAs (Decidable (∀ userId ∈ purgedUser a.2, OwnsPermanently db userId))

structure Inv (db : Database) : Prop where
  owner : ∀ s ∈ db.servers, s.deleted = false → ∃ m ∈ db.members, m.serverId = s.id ∧
    m.userId = s.ownerId
  apart : ∀ m ∈ db.members, ∀ b ∈ db.bans, b.key ≠ (m.serverId, m.userId)
  known : ∀ b ∈ db.bans, ∃ s ∈ db.servers, s.id = b.serverId

theorem Inv.ownerSafe {db : Database} (inv : Inv db) : OwnerSafe db := by
  refine ⟨inv.owner, ?_⟩
  intro s hs live b hb same
  obtain ⟨m, hm, server, user⟩ := inv.owner s hs live
  exact inv.apart m hm b hb (by rw [same, server, user])

theorem inv_empty : Inv Database.empty := by
  refine ⟨?_, ?_, ?_⟩
  · intro s hs
    cases hs
  · intro m hm
    cases hm
  · intro b hb
    cases hb

def SameSeat (m n : MemberRow) : Prop := m.id = n.id ∧ m.serverId = n.serverId ∧ m.userId = n.userId

theorem Inv.of_members {db db' : Database} (inv : Inv db) (servers : db'.servers = db.servers)
    (bans : db'.bans = db.bans)
    (stay : ∀ s ∈ db.servers, s.deleted = false → ∀ m ∈ db.members, m.serverId = s.id →
      m.userId = s.ownerId → ∃ n ∈ db'.members, SameSeat n m)
    (old : ∀ n ∈ db'.members, ∃ m ∈ db.members, SameSeat n m) : Inv db' := by
  refine ⟨?_, ?_, ?_⟩
  · intro s hs live
    rw [servers] at hs
    obtain ⟨m, hm, server, user⟩ := inv.owner s hs live
    obtain ⟨n, hn, same⟩ := stay s hs live m hm server user
    exact ⟨n, hn, same.2.1.trans server, same.2.2.trans user⟩
  · intro n hn b hb
    rw [bans] at hb
    obtain ⟨m, hm, same⟩ := old n hn
    rw [same.2.1, same.2.2]
    exact inv.apart m hm b hb
  · rw [servers, bans]
    exact inv.known

theorem mem_updateMembers {db : Database} {p : MemberRow → Bool} {f : MemberRow → MemberRow}
    {n : MemberRow} : n ∈ (db.updateMembers p f).members ↔
      ∃ m ∈ db.members, n = if p m then { f m with id := m.id } else m := by
  simp only [Database.updateMembers, Table.mem_update]

theorem updateMembers_stay {db : Database} {p : MemberRow → Bool} {f : MemberRow → MemberRow}
    (same : ∀ m, (f m).serverId = m.serverId ∧ (f m).userId = m.userId) {m : MemberRow}
    (hm : m ∈ db.members) : ∃ n ∈ (db.updateMembers p f).members, SameSeat n m := by
  refine ⟨_, mem_updateMembers.mpr ⟨m, hm, rfl⟩, ?_⟩
  split
  · exact ⟨rfl, same m⟩
  · exact ⟨rfl, rfl, rfl⟩

theorem updateMembers_old {db : Database} {p : MemberRow → Bool} {f : MemberRow → MemberRow}
    (same : ∀ m, (f m).serverId = m.serverId ∧ (f m).userId = m.userId) {n : MemberRow}
    (hn : n ∈ (db.updateMembers p f).members) : ∃ m ∈ db.members, SameSeat n m := by
  obtain ⟨m, hm, rfl⟩ := mem_updateMembers.mp hn
  refine ⟨m, hm, ?_⟩
  split
  · exact ⟨rfl, same m⟩
  · exact ⟨rfl, rfl, rfl⟩

theorem mem_expel {db : Database} {m n : MemberRow} :
    n ∈ (db.expel m).members ↔
      n ∈ db.members ∧ ¬ (n.serverId = m.serverId ∧ n.userId = m.userId) := by
  unfold Database.expel Database.deleteMember Database.deleteMemberRoles
  simp only [Table.mem_delete, Bool.and_eq_false_iff, decide_eq_false_iff_not, not_and_or]

theorem Inv.expel {db : Database} (inv : Inv db) {m : MemberRow} {s : ServerRow}
    (live : db.liveServer m.serverId = some s) (other : s.ownerId ≠ m.userId) :
    Inv (db.expel m) := by
  obtain ⟨hs, id, _⟩ := liveServer_eq_some.mp live
  refine inv.of_members rfl rfl ?_ fun n hn => ⟨n, (mem_expel.mp hn).1, rfl, rfl, rfl⟩
  intro q hq _ n hn server user
  refine ⟨n, mem_expel.mpr ⟨hn, ?_⟩, rfl, rfl, rfl⟩
  intro leaver
  have same : q = s := Table.eq_of_key hq hs (by rw [id, ← leaver.1, server])
  exact other (by rw [← same, ← user, leaver.2])

theorem Inv.ban {db : Database} (inv : Inv db) {ban : BanRow} {s : ServerRow} {bans}
    (outsider : ∀ m ∈ db.members, ban.key ≠ (m.serverId, m.userId))
    (live : db.liveServer ban.serverId = some s) (inserted : db.bans.insert ban = some bans) :
    Inv { db with bans } := by
  refine ⟨inv.owner, ?_, ?_⟩
  · intro m hm b hb
    cases (Table.mem_insert inserted).mp hb with
    | inl before => exact inv.apart m hm b before
    | inr now => exact now ▸ outsider m hm
  · intro b hb
    cases (Table.mem_insert inserted).mp hb with
    | inl before => exact inv.known b before
    | inr now =>
      obtain ⟨hs, id, _⟩ := liveServer_eq_some.mp live
      exact ⟨s, hs, now ▸ id⟩

theorem mem_updateServer {db : Database} {serverId : Nat} {f : ServerRow → ServerRow}
    {s : ServerRow} : s ∈ (db.updateServer serverId f).servers ↔
      ∃ q ∈ db.servers, s = if q.id = serverId then { f q with id := q.id } else q := by
  simp only [Database.updateServer, Table.mem_update, decide_eq_true_eq]

theorem Inv.updateServer {db : Database} (inv : Inv db) {serverId : Nat}
    {f : ServerRow → ServerRow}
    (safe : ∀ s ∈ db.servers, s.id = serverId → (f s).deleted = false → s.deleted = false →
      ∃ m ∈ db.members, m.serverId = serverId ∧ m.userId = (f s).ownerId)
    (revived : ∀ s, (f s).deleted = false → s.deleted = false) :
    Inv (db.updateServer serverId f) := by
  refine ⟨?_, inv.apart, ?_⟩
  · intro s hs live
    obtain ⟨q, hq, rfl⟩ := mem_updateServer.mp hs
    by_cases here : q.id = serverId
    · rw [if_pos here] at live ⊢
      exact here ▸ safe q hq here live (revived q live)
    · rw [if_neg here] at live ⊢
      exact inv.owner q hq live
  · intro b hb
    obtain ⟨s, hs, id⟩ := inv.known b hb
    refine ⟨_, mem_updateServer.mpr ⟨s, hs, rfl⟩, ?_⟩
    split
    · exact id
    · exact id

theorem isMember_iff {db : Database} {serverId userId : Nat} :
    db.isMember serverId userId = true ↔
      ∃ m ∈ db.members, m.serverId = serverId ∧ m.userId = userId := by
  unfold Database.isMember Database.memberRow
  rw [List.find?_isSome]
  simp only [Bool.and_eq_true, decide_eq_true_eq]
  rfl

theorem Inv.serverCreated {db : Database} (inv : Inv db) {s : ServerRow} {m : MemberRow}
    {servers members} (seat : m.serverId = s.id ∧ m.userId = s.ownerId)
    (hs : db.servers.insert s = some servers) (hm : db.members.insert m = some members)
    (roles memberRoles channels) :
    Inv { db with servers, roles, members, memberRoles, channels } := by
  have fresh := Table.find_eq_none.mp (Table.insert_eq_some hs).1
  refine ⟨?_, ?_, ?_⟩
  · intro q hq live
    cases (Table.mem_insert hs).mp hq with
    | inl before =>
      obtain ⟨n, hn, place⟩ := inv.owner q before live
      exact ⟨n, (Table.mem_insert hm).mpr (.inl hn), place⟩
    | inr new =>
      subst new
      exact ⟨m, (Table.mem_insert hm).mpr (.inr rfl), seat⟩
  · intro n hn b hb
    cases (Table.mem_insert hm).mp hn with
    | inl before => exact inv.apart n before b hb
    | inr new =>
      subst new
      intro same
      obtain ⟨q, hq, id⟩ := inv.known b hb
      simp only [BanRow.key, Prod.mk.injEq] at same
      exact fresh q hq (by rw [id, same.1, seat.1])
  · intro b hb
    obtain ⟨q, hq, id⟩ := inv.known b hb
    exact ⟨q, (Table.mem_insert hs).mpr (.inl hq), id⟩

theorem Inv.joined {db : Database} (inv : Inv db) {m : MemberRow} {members}
    (banned : db.isBanned m.serverId m.userId = false)
    (hm : db.members.insert m = some members) (memberRoles invites) :
    Inv { db with members, memberRoles, invites } := by
  refine ⟨?_, ?_, inv.known⟩
  · intro s hs live
    obtain ⟨n, hn, place⟩ := inv.owner s hs live
    exact ⟨n, (Table.mem_insert hm).mpr (.inl hn), place⟩
  · intro n hn b hb
    cases (Table.mem_insert hm).mp hn with
    | inl before => exact inv.apart n before b hb
    | inr new =>
      subst new
      intro same
      unfold Database.isBanned at banned
      rw [Table.find_eq_some.mpr ⟨hb, same⟩] at banned
      cases banned

section Purge

variable {db : Database}

theorem mem_purgeRow_plain {m n : MemberRow} (plain : db.earned m.id = false) :
    n ∈ (db.purgeRow m).members ↔ n ∈ db.members ∧ n.id ≠ m.id := by
  unfold Database.purgeRow
  rw [if_neg (Bool.eq_false_iff.mp plain)]
  simp only [Table.mem_delete, decide_eq_false_iff_not, ne_eq]

theorem earned_deleteMemberRoles {memberId otherId : Nat} (apart : otherId ≠ memberId) :
    (db.deleteMemberRoles memberId).earned otherId = db.earned otherId := by
  unfold Database.earned Database.deleteMemberRoles Table.delete
  simp only [List.any_filter]
  congr 1
  funext a
  by_cases mine : a.memberId = otherId
  · simp [mine, apart]
  · simp [mine]

theorem purgeRow_stay {m n : MemberRow} (hn : n ∈ db.members)
    (kept : n.id = m.id → db.earned n.id = true) :
    (∃ n' ∈ (db.purgeRow m).members, SameSeat n' n) ∧
      (db.purgeRow m).earned n.id = db.earned n.id := by
  cases e : db.earned m.id with
  | true =>
    unfold Database.purgeRow
    rw [if_pos e]
    exact ⟨updateMembers_stay (f := fun n => { n with isTemporary := false })
      (fun _ => ⟨rfl, rfl⟩) hn, rfl⟩
  | false =>
    have apart : n.id ≠ m.id := by
      intro same
      have := kept same
      rw [same, e] at this
      cases this
    refine ⟨⟨n, (mem_purgeRow_plain e).mpr ⟨hn, apart⟩, rfl, rfl, rfl⟩, ?_⟩
    unfold Database.purgeRow
    rw [if_neg (Bool.eq_false_iff.mp e)]
    exact earned_deleteMemberRoles apart

theorem purgeRow_old {m n : MemberRow} (hn : n ∈ (db.purgeRow m).members) :
    ∃ n' ∈ db.members, SameSeat n n' := by
  cases e : db.earned m.id with
  | true =>
    unfold Database.purgeRow at hn
    rw [if_pos e] at hn
    exact updateMembers_old (f := fun n => { n with isTemporary := false }) (fun _ => ⟨rfl, rfl⟩) hn
  | false => exact ⟨n, ((mem_purgeRow_plain e).mp hn).1, rfl, rfl, rfl⟩

theorem SameSeat.trans {m n q : MemberRow} (h : SameSeat m n) (k : SameSeat n q) : SameSeat m q :=
  ⟨h.1.trans k.1, h.2.1.trans k.2.1, h.2.2.trans k.2.2⟩

theorem purgeRows_stay {rows : List MemberRow} {n : MemberRow} (hn : n ∈ db.members)
    (kept : (∃ m ∈ rows, m.id = n.id) → db.earned n.id = true) :
    ∃ n' ∈ (rows.foldl Database.purgeRow db).members, SameSeat n' n := by
  induction rows generalizing db n with
  | nil => exact ⟨n, hn, rfl, rfl, rfl⟩
  | cons m rows ih =>
    obtain ⟨⟨n₁, hn₁, same⟩, earned⟩ :=
      purgeRow_stay (m := m) hn fun here => kept ⟨m, List.mem_cons_self, here.symm⟩
    have later : (∃ q ∈ rows, q.id = n₁.id) → (db.purgeRow m).earned n₁.id = true := by
      intro h
      obtain ⟨q, hq, id⟩ := h
      rw [same.1, earned]
      exact kept ⟨q, List.mem_cons_of_mem m hq, id.trans same.1⟩
    obtain ⟨n₂, hn₂, same₂⟩ := ih hn₁ later
    exact ⟨n₂, hn₂, same₂.trans same⟩

theorem purgeRows_old {rows : List MemberRow} {n : MemberRow}
    (hn : n ∈ (rows.foldl Database.purgeRow db).members) : ∃ n' ∈ db.members, SameSeat n n' := by
  induction rows generalizing db with
  | nil => exact ⟨n, hn, rfl, rfl, rfl⟩
  | cons m rows ih =>
    obtain ⟨n₁, hn₁, same₁⟩ := ih hn
    obtain ⟨n₂, hn₂, same₂⟩ := purgeRow_old hn₁
    exact ⟨n₂, hn₂, same₁.trans same₂⟩

theorem purgeRow_frame (db : Database) (m : MemberRow) : (db.purgeRow m).servers = db.servers ∧
    (db.purgeRow m).bans = db.bans := by
  unfold Database.purgeRow
  split
  · exact ⟨rfl, rfl⟩
  · exact ⟨rfl, rfl⟩

theorem purgeRows_frame (db : Database) (rows : List MemberRow) :
    (rows.foldl Database.purgeRow db).servers = db.servers ∧
      (rows.foldl Database.purgeRow db).bans = db.bans := by
  induction rows generalizing db with
  | nil => exact ⟨rfl, rfl⟩
  | cons m rows ih =>
    have first := purgeRow_frame db m
    have rest := ih (db.purgeRow m)
    exact ⟨rest.1.trans first.1, rest.2.trans first.2⟩

theorem Inv.purge (inv : Inv db) {userId : Nat} (ok : OwnsPermanently db userId) :
    Inv (purgeTemporaryMembers db userId) := by
  have frame := purgeRows_frame db (db.temporaryRows userId)
  refine inv.of_members frame.1 frame.2 ?_ fun n hn => purgeRows_old hn
  intro s hs live n hn server user
  apply purgeRows_stay hn
  intro h
  obtain ⟨m, hm, id⟩ := h
  have listed := List.mem_filter.mp hm
  simp only [Bool.and_eq_true, decide_eq_true_eq] at listed
  have same : m = n := Table.eq_of_key listed.1 hn id
  exact id ▸ ok s hs live (by rw [← user, ← same, listed.2.1]) m hm (same ▸ server)

end Purge

theorem Inv.change {db db' : Database} (inv : Inv db) (h : Change db db') : Inv db' := by
  cases h with
  | serverCreated ids ownerId name hs hr hm ha hc =>
    exact inv.serverCreated ⟨rfl, rfl⟩ hs hm _ _ _
  | serverDeleted serverId =>
    apply inv.updateServer
    · intro s _ _ live
      cases live
    · intro s live
      cases live
  | transferred serverId newOwnerId member =>
    apply inv.updateServer
    · intro s _ _ _ _
      exact isMember_iff.mp member
    · exact fun _ live => live
  | joined m banned live fresh hm ha => exact inv.joined banned hm _ _
  | expelled m s member live other => exact inv.expel live other
  | bannedMember m s ban member live other key hb =>
    have server : ban.serverId = m.serverId := congrArg Prod.fst key
    apply (inv.expel live other).ban (s := s) _ (server ▸ live) hb
    intro n hn same
    rw [key] at same
    simp only [Prod.mk.injEq] at same
    exact (mem_expel.mp hn).2 ⟨same.1.symm, same.2.symm⟩
  | bannedOutsider ban s outsider live hb =>
    apply inv.ban _ live hb
    intro m hm same
    simp only [BanRow.key, Prod.mk.injEq] at same
    rw [isMember_iff.mpr ⟨m, hm, same.1.symm, same.2.symm⟩] at outsider
    cases outsider
  | unbanned p =>
    refine ⟨inv.owner, ?_, ?_⟩
    · intro m hm b hb
      exact inv.apart m hm b (Table.mem_delete.mp hb).1
    · intro b hb
      exact inv.known b (Table.mem_delete.mp hb).1
  | memberUpdated serverId userId changes =>
    have seats : ∀ m, (changes.apply m).serverId = m.serverId ∧
        (changes.apply m).userId = m.userId := fun _ => ⟨rfl, rfl⟩
    refine inv.of_members rfl rfl ?_ fun n hn => updateMembers_old seats hn
    intro _ _ _ m hm _ _
    exact updateMembers_stay seats hm
  | invitesChanged invites => exact ⟨inv.owner, inv.apart, inv.known⟩
  | roleCreated r hr => exact ⟨inv.owner, inv.apart, inv.known⟩
  | roleUpdated roleId f same => exact ⟨inv.owner, inv.apart, inv.known⟩
  | roleDeleted roleId => exact ⟨inv.owner, inv.apart, inv.known⟩
  | assigned m r member role server ha => exact ⟨inv.owner, inv.apart, inv.known⟩
  | unassigned p => exact ⟨inv.owner, inv.apart, inv.known⟩
  | overridesChanged overrides => exact ⟨inv.owner, inv.apart, inv.known⟩
  | unchanged => exact inv

theorem step_inv {cfg : Config} {db db' : Database} {a : Nat × Operation} (inv : Inv db)
    (ok : Guard db a) (next : step cfg db a = some db') : Inv db' := by
  obtain ⟨now, op⟩ := a
  simp only [step] at next
  split at next
  · rename_i result returned
    cases next
    cases perform_change rfl returned with
    | inl change => exact inv.change change
    | inr purge =>
      obtain ⟨userId, rfl, rfl⟩ := purge
      exact inv.purge (ok userId rfl)
  · cases next
    exact inv

def ids (n : Nat) : ServerIds := ⟨n, n + 1, n + 2, n + 3⟩

def handover : List (Nat × Operation) :=
  [(1, .createServer (ids 100) 7 "guild"), (2, .addMember 200 100 8 (some 7) true),
    (3, .transferOwnership 7 100 8), (4, .purgeTemporaryMembers 8)]

/-- The purge deletes the membership of the new owner. -/
theorem purge_expels_owner : ¬ ∀ cfg db,
    Reachable (step cfg) (· = Database.empty) db → OwnerSafe db := by
  intro law
  let db := (run (step defaultConfig) Database.empty handover).get (by decide)
  have reached : Reachable (step defaultConfig) (· = Database.empty) db :=
    reachable_of_run (s := Database.empty) handover rfl (Option.some_get _).symm
  have guild : (⟨100, "guild", 8, false⟩ : ServerRow) ∈ db.servers.rows :=
    List.mem_cons_self
  obtain ⟨m, hm, _, user⟩ := (law defaultConfig db reached).member _ guild rfl
  have gone : ∀ m ∈ db.members.rows, m.userId ≠ 8 := by decide
  exact gone m hm user

/-- When no purge meets a user who owns a server by a temporary membership without
an earned role, the owner of every live server is a member and not banned. -/
theorem owner_stays_member {cfg : Config} {db : Database}
    (h : Guarded (step cfg) Guard (· = Database.empty) db) : OwnerSafe db := by
  have inv : Inv db := guarded_invariant (fun _ first => first ▸ inv_empty)
    (fun _ _ _ inv ok next => step_inv inv ok next) h
  exact inv.ownerSafe

/-- User 8 earns a role before becoming the owner, and the purge makes the membership
permanent. -/
theorem earned_owner_stays : ∃ db, (db.memberRow 100 8).isSome ∧ OwnerSafe db := by
  let calls : List (Nat × Operation) :=
    [(1, .createServer (ids 100) 7 "guild"), (2, .addMember 200 100 8 (some 7) true),
      (3, .createRole 300 7 100 "helper" none), (4, .assignRole 7 100 8 300),
      (5, .transferOwnership 7 100 8), (6, .purgeTemporaryMembers 8)]
  let db := (runGuarded (step defaultConfig) Guard Database.empty calls).get (by decide)
  have reached : Guarded (step defaultConfig) Guard (· = Database.empty) db :=
    guarded_of_run (s := Database.empty) calls rfl (Option.some_get _).symm
  exact ⟨db, by decide, owner_stays_member reached⟩

end Plexichat.Servers.Ownership
