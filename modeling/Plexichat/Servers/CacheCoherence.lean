import Plexichat.Servers.Views

/-! Every answer the caches keep is the present one, along the runs whose steps do
not move what a kept answer depends on behind its back. The operations drop what
they touch, `move_role` apart. -/
namespace Plexichat.Servers.PermissionCache
open Transition Layers Consistent

def World.Keeps (w : World) (k : Key) : Prop := w.prefixed k ≠ none ∨ w.bare k ≠ none

def World.Accepts (cfg : Config) (w : World) (op : Operation) : Prop :=
  ∃ db, perform cfg w.reader w.now w.db op = .ok db

/-- The move leaves the decision of the roles to every member with a kept answer for a
channel who listens to them. -/
def Undisturbed (w : World) (roleId : Nat) (position : Int) : Prop :=
  ∀ k, w.Keeps k → k.channelId ≠ 0 → ∀ p m, Exposed w.db w.now k.serverId k.userId p m →
    w.db.memberDecision k.channelId p k.userId = none →
    decision (w.db.roleDecisions k.channelId p
        (byRank ((repositioned position).rank roleId) (w.db.rolesOf m.id))) =
      decision (w.db.roleDecisions k.channelId p (byRank RoleRow.position (w.db.rolesOf m.id)))

/-- The bare tier keeps no answer under a foreign server for someone whom the override
of the channel concerns. -/
def NoStray (w : World) (channelId : Nat) (targetType : String) (targetId : Nat) : Prop :=
  ∀ channel, w.db.channels.find channelId = some channel → ∀ k, w.bare k ≠ none →
    k.channelId = channelId → k.serverId ≠ channel.serverId → ∀ m o,
    w.db.memberRow k.serverId k.userId = some m → w.db.ownerOf k.serverId = some o →
    unrestricted o k.userId (w.db.rolesOf m.id) = false →
    ¬ (targetType = "member" ∧ targetId = k.userId) ∧
      ¬ (targetType = "role" ∧ ∃ r ∈ w.db.rolesOf m.id, r.id = targetId)

def Punctual (w : World) (seconds : Nat) : Prop :=
  ∀ k, w.Keeps k → ∀ m, w.db.getMember k.serverId k.userId = some m →
    m.timedOut (w.now + seconds) = m.timedOut w.now

def Forgotten (w : World) (serverId : Nat) : Prop :=
  w.owner serverId = none ∧ ∀ k, k.serverId = serverId → ¬ w.Keeps k

def Guard (cfg : Config) (w : World) : Action → Prop
  | .tick seconds => Punctual w seconds
  | .mutate (.moveRole userId roleId position) =>
    w.Accepts cfg (.moveRole userId roleId position) → Undisturbed w roleId position
  | .mutate (.setChannelOverride userId channelId targetType targetId allow deny) =>
    w.Accepts cfg (.setChannelOverride userId channelId targetType targetId allow deny) →
      NoStray w channelId targetType targetId
  | .mutate (.deleteChannelOverride userId channelId targetType targetId) =>
    w.Accepts cfg (.deleteChannelOverride userId channelId targetType targetId) →
      NoStray w channelId targetType targetId
  | .mutate (.deleteServer userId serverId) =>
    w.Accepts cfg (.deleteServer userId serverId) → Forgotten w serverId
  | _ => True

structure Coherent (w : World) : Prop where
  tables : Consistent w.db
  prefixed : Memo.Coherent w.prefixed (resolved w.db w.now)
  bare : Memo.Coherent w.bare (resolved w.db w.now)
  owner : Memo.Coherent w.owner w.db.ownerOf
  memberData : Memo.Coherent w.memberData fun k => w.db.getMember k.1 k.2

namespace Coherent

variable {w : World}

theorem getMember (coh : Coherent w) : w.getMember = w.db.getMember := by
  funext serverId userId
  exact Memo.answer_eq coh.memberData (serverId, userId)

theorem ownerOf (coh : Coherent w) : w.ownerOf = w.db.ownerOf := by
  funext serverId
  exact Memo.answer_eq coh.owner serverId

theorem calculate (coh : Coherent w) : w.calculate = resolved w.db w.now := by
  funext k
  unfold World.calculate resolved
  rw [coh.getMember, coh.ownerOf]

theorem shared (coh : Coherent w) : Memo.Coherent w.shared (resolved w.db w.now) := by
  intro k v stored
  unfold World.shared at stored
  split at stored
  · exact coh.bare k v stored
  · cases stored

theorem answer (coh : Coherent w) : w.answer = resolved w.db w.now := by
  funext k
  unfold World.answer
  rw [coh.calculate, Option.or_assoc, Memo.answer_eq coh.shared k, Memo.answer_eq coh.prefixed k]

theorem resolved_getD (db : Database) (now : Nat) (k : Key) :
    (resolved db now k).getD (fun _ => none) =
      db.getPermissions now k.userId k.serverId k.channelId := by
  unfold resolved Database.getPermissions
  cases db.ownerOf k.serverId with
  | none => rfl
  | some ownerId =>
    by_cases refused : k.channelId ≠ 0 ∧ db.getMember k.serverId k.userId = none ∧
        ownerId ≠ k.userId
    · simp only [if_pos refused]
      obtain ⟨channel, outsider, apart⟩ := refused
      rw [outsider]
      unfold calculatePermissions
      simp [channel, apart]
    · simp only [if_neg refused]
      rfl

theorem getPermissions (coh : Coherent w) (userId serverId channelId : Nat) :
    w.getPermissions userId serverId channelId =
      w.db.getPermissions w.now userId serverId channelId := by
  unfold World.getPermissions
  rw [coh.answer]
  exact resolved_getD w.db w.now ⟨userId, serverId, channelId⟩

theorem fresh (start : Fresh w) : Coherent w := by
  refine ⟨start.tables, ?_, ?_, ?_, ?_⟩
  · rw [start.prefixed]
    exact Memo.coherent_empty _
  · rw [start.bare]
    exact Memo.coherent_empty _
  · rw [start.owner]
    exact Memo.coherent_empty _
  · rw [start.memberData]
    exact Memo.coherent_empty _

theorem rememberMember (coh : Coherent w) (serverId userId : Nat) :
    Coherent (w.rememberMember serverId userId) := by
  refine ⟨coh.tables, coh.prefixed, coh.bare, coh.owner, ?_⟩
  unfold World.rememberMember
  rw [coh.getMember]
  exact Memo.coherent_store coh.memberData (serverId, userId)

theorem promote (coh : Coherent w) (k : Key) : Coherent (w.promote k) := by
  refine ⟨coh.tables, ?_, coh.bare, coh.owner, coh.memberData⟩
  unfold World.promote
  cases known : w.shared k with
  | none => exact coh.prefixed
  | some v =>
    have kept := Memo.coherent_store coh.prefixed k
    rwa [coh.shared k v known] at kept

theorem fill (coh : Coherent w) (k : Key) : Coherent (w.fill k) := by
  have kept := Memo.coherent_store coh.prefixed k
  have kept' := Memo.coherent_store coh.bare k
  unfold World.fill
  rw [coh.calculate, coh.getMember, coh.ownerOf]
  refine ⟨coh.tables, kept, ?_, Memo.coherent_store coh.owner k.serverId, ?_⟩
  · cases w.valkey with
    | true => exact kept'
    | false => exact coh.bare
  · dsimp only
    split
    · exact Memo.coherent_store coh.memberData (k.serverId, k.userId)
    · exact coh.memberData

theorem readPermissions (coh : Coherent w) (k : Key) : Coherent (w.readPermissions k) := by
  unfold World.readPermissions
  split
  · exact coh
  · split
    · exact coh.promote k
    · exact coh.fill k

theorem readHasPermission (coh : Coherent w) (k : Key) (permission : String) :
    Coherent (w.readHasPermission k permission) := by
  have read := coh.readPermissions k
  exact ⟨read.tables, read.prefixed, read.bare, read.owner, read.memberData⟩

theorem write (coh : Coherent w) (w' : World) (time : w'.now = w.now) (tables : Consistent w'.db)
    (owner : ∀ s o, w'.owner s = some o → w.owner s = some o ∧
      (w.db.ownerOf s = some o → w'.db.ownerOf s = some o))
    (memberData : ∀ k m, w'.memberData k = some m → w.memberData k = some m ∧
      (w.db.getMember k.1 k.2 = some m → w'.db.getMember k.1 k.2 = some m))
    (prefixed : ∀ k v, w'.prefixed k = some v →
      w.prefixed k = some v ∧ Stands w.db w'.db w.now k)
    (bare : ∀ k v, w'.bare k = some v → w.bare k = some v ∧ Stands w.db w'.db w.now k) :
    Coherent w' := by
  refine ⟨tables, ?_, ?_, Memo.coherent_change coh.owner owner,
    Memo.coherent_change coh.memberData memberData⟩
  · rw [time]
    apply Memo.coherent_change coh.prefixed
    intro k v stored
    exact ⟨(prefixed k v stored).1, (prefixed k v stored).2 v⟩
  · rw [time]
    apply Memo.coherent_change coh.bare
    intro k v stored
    exact ⟨(bare k v stored).1, (bare k v stored).2 v⟩

theorem mentions_self (serverId userId : Nat) : World.mentions userId (serverId, userId) = true := by
  unfold World.mentions
  rw [decide_eq_true_eq, String.toList_append]
  exact (List.suffix_append _ _).isInfix

theorem user_of_not_mentions {userId : Nat} {k : Nat × Nat} (h : World.mentions userId k = false) :
    k.2 ≠ userId := by
  intro same
  obtain ⟨serverId, _⟩ := k
  simp only at same
  subst same
  rw [mentions_self] at h
  cases h

theorem invalidateMember (coh : Coherent w) {db : Database} {serverId userId : Nat}
    (tables : Consistent db) (seat : SeatWrite w.db db serverId userId) :
    Coherent { w.invalidateMember serverId userId with db } := by
  unfold World.invalidateMember World.invalidatePermissions World.dropMemberData
  refine coh.write _ rfl tables ?_ ?_ ?_ ?_
  · intro s o stored
    refine ⟨stored, ?_⟩
    rw [seat.owner s]
    exact id
  · intro k m stored
    obtain ⟨kept, before⟩ := Memo.drop_eq_some.mp stored
    refine ⟨before, ?_⟩
    rw [seat.member k.1 k.2 fun here => user_of_not_mentions kept here.2]
    exact id
  all_goals
    intro k v stored
    simp only [Memo.drop_eq_some, Bool.and_eq_false_iff, decide_eq_false_iff_not] at stored
    exact ⟨stored.2, seat.stands w.now k fun here => stored.1.elim (· here.2) (· here.1)⟩

theorem invalidateServer (coh : Coherent w) {db : Database} {serverId : Nat}
    (tables : Consistent db) (servers : db.servers = w.db.servers)
    (members : db.members = w.db.members)
    (stands : ∀ k, k.serverId ≠ serverId → Stands w.db db w.now k) :
    Coherent { w.invalidateServer serverId with db } := by
  refine coh.write { w.invalidateServer serverId with db } rfl tables ?_ ?_ ?_ ?_
  · intro s o stored
    exact ⟨stored, ownerOf_congr servers s ▸ id⟩
  · intro k m stored
    exact ⟨stored, getMember_of_members members k.1 k.2 ▸ id⟩
  all_goals
    intro k v stored
    simp only [World.invalidateServer, Memo.drop_eq_some, decide_eq_false_iff_not] at stored
    exact ⟨stored.2, stands k stored.1⟩

theorem invalidateAssignment (coh : Coherent w) {db : Database} {serverId userId : Nat}
    (tables : Consistent db) (members : db.members = w.db.members)
    (seat : SeatWrite w.db db serverId userId) :
    Coherent { w.invalidateAssignment serverId userId with db } := by
  unfold World.invalidateAssignment World.dropMemberData
  refine coh.write _ rfl tables ?_ ?_ ?_ ?_
  · intro s o stored
    refine ⟨stored, ?_⟩
    rw [seat.owner s]
    exact id
  · intro k m stored
    exact ⟨(Memo.drop_eq_some.mp stored).2, getMember_of_members members k.1 k.2 ▸ id⟩
  · intro k v stored
    cases stored
  · intro k v stored
    simp only [Memo.drop_eq_some, Bool.and_eq_false_iff, decide_eq_false_iff_not] at stored
    exact ⟨stored.2, seat.stands w.now k fun here => stored.1.elim (· here.2) (· here.1)⟩

theorem invalidateOverride (coh : Coherent w) {overrides} {serverId channelId : Nat}
    {targetType : String} {targetId : Nat}
    (stands : ∀ k, w.bare k ≠ none →
      (targetType = "member" → ¬ (k.userId = targetId ∧ k.serverId = serverId)) →
      (targetType ≠ "member" → ¬ (k.serverId = serverId ∧ k.channelId = channelId)) →
      Stands w.db { w.db with overrides } w.now k) :
    Coherent { w.invalidateOverride serverId channelId targetType targetId with
      db := { w.db with overrides } } := by
  refine coh.write { w.invalidateOverride serverId channelId targetType targetId with
    db := { w.db with overrides } } rfl (coh.tables.of_frame rfl rfl rfl rfl) ?_ ?_ ?_ ?_
  · intro s o stored
    exact ⟨stored, id⟩
  · intro k m stored
    exact ⟨stored, id⟩
  · intro k v stored
    cases stored
  · intro k v stored
    have known : w.bare k = some v := by
      simp only [World.invalidateOverride] at stored
      split at stored
      · exact (Memo.drop_eq_some.mp stored).2
      · exact (Memo.drop_eq_some.mp stored).2
    refine ⟨known, stands k (by simp [known]) ?_ ?_⟩
    · intro type
      simp only [World.invalidateOverride, if_pos type, Memo.drop_eq_some, Bool.and_eq_false_iff,
        decide_eq_false_iff_not] at stored
      exact fun here => stored.1.elim (· here.1) (· here.2)
    · intro type
      simp only [World.invalidateOverride, if_neg type, Memo.drop_eq_some, Bool.and_eq_false_iff,
        decide_eq_false_iff_not] at stored
      exact fun here => stored.1.elim (· here.1) (· here.2)

theorem unwritten (coh : Coherent w) {db : Database} (tables : Consistent db)
    (owner : ∀ s o, w.owner s = some o → w.db.ownerOf s = some o → db.ownerOf s = some o)
    (member : ∀ s u m, w.db.getMember s u = some m → db.getMember s u = some m)
    (stands : ∀ k, w.Keeps k → Stands w.db db w.now k) : Coherent { w with db } := by
  refine coh.write { w with db } rfl tables ?_ ?_ ?_ ?_
  · intro s o stored
    exact ⟨stored, owner s o stored⟩
  · intro k m stored
    exact ⟨stored, member k.1 k.2 m⟩
  · intro k v stored
    have known : w.prefixed k = some v := stored
    exact ⟨known, stands k (.inl (by simp [known]))⟩
  · intro k v stored
    have known : w.bare k = some v := stored
    exact ⟨known, stands k (.inr (by simp [known]))⟩

theorem unseen (coh : Coherent w) {db : Database} (tables : Consistent db)
    (servers : db.servers = w.db.servers) (members : db.members = w.db.members)
    (roles : db.roles = w.db.roles) (memberRoles : db.memberRoles = w.db.memberRoles)
    (overrides : db.overrides = w.db.overrides) : Coherent { w with db } := by
  apply coh.unwritten tables
  · intro s o _ known
    exact (ownerOf_congr servers s).trans known
  · intro s u m known
    exact (getMember_of_members members s u).trans known
  · intro k _
    refine stands_of_roles servers members overrides ?_
    intro m _
    unfold Database.rolesOf
    rw [roles, memberRoles]

theorem purgeRow (coh : Coherent w) {m : MemberRow}
    (seat : ∀ n ∈ w.db.members, n.id = m.id → n.serverId = m.serverId ∧ n.userId = m.userId) :
    Coherent (w.purgeRow m) := by
  unfold World.purgeRow
  have tables := coh.tables.purgeRow m
  split
  · rename_i earned
    obtain ⟨member, stands⟩ := purgeRow_earned earned
    apply coh.unwritten tables
    · intro s o _ known
      exact (ownerOf_congr (Ownership.purgeRow_frame w.db m).1 s).trans known
    · intro s u n known
      exact (member s u).trans known
    · intro k _
      exact stands w.now k
  · rename_i plain
    exact coh.invalidateMember tables
      (purgeRow_seatWrite coh.tables (Bool.eq_false_iff.mpr plain) seat)

theorem purge (coh : Coherent w) {rows : List MemberRow}
    (seats : ∀ m ∈ rows, ∀ n ∈ w.db.members, n.id = m.id →
      n.serverId = m.serverId ∧ n.userId = m.userId) : Coherent (rows.foldl World.purgeRow w) := by
  induction rows generalizing w with
  | nil => exact coh
  | cons m rows ih =>
    apply ih (coh.purgeRow (seats m List.mem_cons_self))
    intro q hq n hn id
    have same : (w.purgeRow m).db = w.db.purgeRow m := by
      unfold World.purgeRow
      split
      · rfl
      · rfl
    rw [same] at hn
    obtain ⟨k, hk, seat⟩ := Ownership.purgeRow_old hn
    have here := seats q (List.mem_cons_of_mem m hq) k hk (seat.1.symm.trans id)
    exact ⟨seat.2.1.trans here.1, seat.2.2.trans here.2⟩

theorem punctual (coh : Coherent w) {seconds : Nat} (guard : Punctual w seconds) :
    Coherent { w with now := w.now + seconds } := by
  have still : ∀ k v, w.Keeps k → resolved w.db w.now k = some v →
      resolved w.db (w.now + seconds) k = some v := by
    intro k v kept known
    obtain ⟨o, owner⟩ := ownerOf_of_resolved known
    rw [resolved_congr owner owner Iff.rfl rfl ?_]
    · exact known
    · intro m seat
      exact calculatePermissions_congr rfl (guard k kept m seat) fun _ _ _ => ⟨rfl, rfl⟩
  refine ⟨coh.tables, ?_, ?_, coh.owner, coh.memberData⟩
  · intro k v stored
    have known : w.prefixed k = some v := stored
    exact still k v (.inl (by simp [known])) (coh.prefixed k v known)
  · intro k v stored
    have known : w.bare k = some v := stored
    exact still k v (.inr (by simp [known])) (coh.bare k v known)

theorem stray (coh : Coherent w) {channelId : Nat} {targetType : String} {targetId : Nat}
    {channel : ChannelRow} {overrides} (found : w.db.channels.find channelId = some channel)
    (others : ∀ key, key ≠ (channelId, targetType, targetId) →
      overrides.find key = w.db.overrides.find key)
    (guard : NoStray w channelId targetType targetId) :
    Coherent { w.invalidateOverride channel.serverId channelId targetType targetId with
      db := { w.db with overrides } } := by
  apply coh.invalidateOverride
  intro k kept ofMember ofRole
  apply stands_of_overrides others
  intro here m o row owner bound
  by_cases home : k.serverId = channel.serverId
  · constructor
    · intro concerned
      exact ofMember concerned.1 ⟨concerned.2.symm, home⟩
    · intro concerned
      exact ofRole (by rw [concerned.1]; decide) ⟨home, here⟩
  · exact guard channel found k kept here home m o row owner bound

theorem getChannel_found {rd : Reader} {db : Database} {channelId userId : Nat}
    {channel : ChannelRow} (h : rd.getChannel db channelId userId = some channel) :
    db.channels.find channelId = some channel := (Option.filter_eq_some_iff.mp h).1

theorem updateRoleRow_same {db : Database} {role : RoleRow} {f : RoleRow → RoleRow}
    (known : role ∈ db.roles) (same : f role = role) : db.updateRoleRow role.id f = db := by
  have rows : (db.roles.update (fun r => r.id = role.id) (fun r => { f r with id := r.id })
      (Database.id_rewritten f)) = db.roles := by
    have fixed : ∀ r ∈ db.roles.rows,
        (if decide (r.id = role.id) = true then { f r with id := r.id } else r) = r := by
      intro r hr
      split
      · rename_i here
        cases Table.eq_of_key hr known (of_decide_eq_true here)
        rw [same]
      · rfl
    unfold Table.update
    congr 1
    exact (List.map_congr_left fixed).trans (List.map_id' _)
  unfold Database.updateRoleRow
  rw [rows]

theorem apply_of_not_any {changes : RoleChanges} {role : RoleRow} {name : Option String}
    (nothing : ¬ changes.any role = true) (named : changes.name = none → name = none) :
    changes.apply name role = role := by
  simp only [RoleChanges.any, Bool.or_eq_true, not_or, Bool.not_eq_true, Option.isSome_eq_false_iff,
    Option.isNone_iff_eq_none] at nothing
  obtain ⟨⟨unnamed, unchanged⟩, unmoved⟩ := nothing
  unfold RoleChanges.apply
  rw [named unnamed, unchanged]
  cases asked : changes.position with
  | none => rfl
  | some position =>
    simp only [asked, Option.any_some, bne_eq_false_iff_eq] at unmoved
    rw [unmoved]
    rfl

theorem written (coh : Coherent w) {cfg : Config} {op : Operation}
    (guard : Guard cfg w (.mutate op)) (single : ∀ userId, op ≠ .purgeTemporaryMembers userId)
    {db : Database} (h : perform cfg w.reader w.now w.db op = .ok db) :
    Coherent { w.invalidate op with db } := by
  have truth : w.reader.member = w.db.getMember := coh.getMember
  have tables := coh.tables.perform truth h
  cases op with
  | createServer ids ownerId name =>
    have founded := founded_of_createServer coh.tables h
    apply coh.unwritten tables
    · intro s o _ known
      exact (founded.owner s (founded.elsewhere known)).trans known
    · intro s u member known
      obtain ⟨m, row, _⟩ := getMember_eq_some known
      obtain ⟨home, hs, id⟩ := coh.tables.home m (memberRow_eq_some row).1
      have elsewhere : s ≠ ids.server := by
        rw [← (memberRow_eq_some row).2.1, ← id]
        exact founded.fresh home hs
      exact (getMember_congr (founded.member s u elsewhere)).trans known
    · intro k _
      exact founded.stands
  | deleteServer userId serverId =>
    have forgotten := guard ⟨db, h⟩
    simp only [perform, deleteServer, Checks.found_bind_eq_ok, Checks.ensure_bind_eq_ok,
      Checks.pure_eq_ok] at h
    obtain ⟨_, _, _, rfl⟩ := h
    apply coh.unwritten tables
    · intro s o kept known
      have other : s ≠ serverId := by
        rintro rfl
        rw [forgotten.1] at kept
        cases kept
      exact (ownerOf_deleteServer w.db other).trans known
    · intro s u member known
      exact known
    · intro k kept
      exact stands_of_deleteServer fun here => forgotten.2 k here kept
  | transferOwnership userId serverId newOwnerId =>
    obtain ⟨owner, _, rfl⟩ := transferOwnership_ok h
    refine coh.write { w.invalidate (.transferOwnership userId serverId newOwnerId) with
      db := _ } rfl tables ?_ ?_ ?_ ?_
    · intro s o stored
      simp only [World.invalidate, World.invalidatePermissions, World.invalidateOwner,
        Memo.drop_eq_some, decide_eq_false_iff_not] at stored
      refine ⟨stored.2, ?_⟩
      rw [ownerOf_updateServer, if_neg stored.1]
      exact id
    · intro k m stored
      exact ⟨stored, id⟩
    all_goals
      intro k v stored
      simp only [World.invalidate, World.invalidatePermissions, World.invalidateOwner,
        Memo.drop_eq_some, Bool.and_eq_false_iff, decide_eq_false_iff_not] at stored
      obtain ⟨new, old, before⟩ := stored
      refine ⟨before, stands_of_transfer owner ?_⟩
      rintro ⟨here, rfl | rfl⟩
      · exact old.elim (fun h => h rfl) (fun h => h here)
      · exact new.elim (fun h => h rfl) (fun h => h here)
  | addMember memberId serverId userId inviterId temporary =>
    exact coh.invalidateMember tables (Joined.seatWrite coh.tables (addMember_ok h))
  | useInvite memberId userId code =>
    obtain ⟨invite, found, joined⟩ := useInvite_ok h
    simp only [World.invalidate, found]
    exact coh.invalidateMember tables (Joined.seatWrite coh.tables joined)
  | kickMember userId serverId memberUserId =>
    obtain ⟨m, s, expellable, rfl⟩ := kickMember_ok truth h
    obtain ⟨present, rfl, rfl⟩ := memberRow_eq_some expellable.row
    exact coh.invalidateMember tables (expel_seatWrite coh.tables present)
  | banMember userId serverId memberUserId deleteMessageDays =>
    obtain ⟨bans, _, result⟩ := banMember_ok truth h
    cases result with
    | inl expelled =>
      obtain ⟨m, s, expellable, rfl⟩ := expelled
      obtain ⟨present, rfl, rfl⟩ := memberRow_eq_some expellable.row
      exact coh.invalidateMember tables (expel_seatWrite coh.tables present)
    | inr outside =>
      obtain ⟨_, _, rfl⟩ := outside
      exact coh.invalidateMember tables (seatWrite_of_bans coh.tables serverId memberUserId)
  | unbanMember userId serverId bannedUserId =>
    obtain ⟨p, rfl⟩ := unbanMember_ok h
    exact coh.unseen tables rfl rfl rfl rfl rfl
  | removeMember userId serverId =>
    obtain ⟨m, s, expellable, rfl⟩ := removeMember_ok truth h
    obtain ⟨present, rfl, rfl⟩ := memberRow_eq_some expellable.row
    exact coh.invalidateMember tables (expel_seatWrite coh.tables present)
  | purgeTemporaryMembers userId => exact absurd rfl (single userId)
  | updateMember userId serverId memberUserId changes =>
    obtain rfl := updateMember_eq h
    refine coh.invalidateMember tables (updateMembers_seatWrite coh.tables (fun _ => ⟨rfl, rfl⟩) ?_)
    intro m _ written
    simpa using written
  | issueInvite invite =>
    obtain ⟨invites, rfl⟩ := issueInvite_ok h
    exact coh.unseen tables rfl rfl rfl rfl rfl
  | deleteInvite userId code =>
    obtain ⟨invites, rfl⟩ := deleteInvite_ok h
    exact coh.unseen tables rfl rfl rfl rfl rfl
  | createRole roleId userId serverId name permissions =>
    obtain ⟨r, roles, _, _, inserted, rfl⟩ := createRole_ok h
    exact coh.unwritten tables (fun _ _ _ known => known) (fun _ _ _ known => known)
      fun k _ => stands_of_insertRole coh.tables inserted
  | updateRole userId roleId changes =>
    obtain ⟨role, name, seen, _, named, rfl⟩ := updateRole_ok h
    obtain ⟨known, rfl, _⟩ := getRole_eq_some seen
    simp only [World.invalidate, Table.find_eq_some.mpr ⟨known, rfl⟩]
    split
    · exact coh.invalidateServer tables rfl rfl fun k elsewhere =>
        stands_of_other_role coh.tables known elsewhere
    · rename_i nothing
      rw [updateRoleRow_same known (apply_of_not_any nothing named)]
      exact coh
  | deleteRole userId roleId =>
    obtain ⟨role, seen, rfl⟩ := deleteRole_ok h
    obtain ⟨known, rfl, _⟩ := getRole_eq_some seen
    simp only [World.invalidate, Table.find_eq_some.mpr ⟨known, rfl⟩]
    exact coh.invalidateServer tables rfl rfl fun k elsewhere =>
      stands_of_deleted_role coh.tables known elsewhere
  | moveRole userId roleId position =>
    have undisturbed := guard ⟨db, h⟩
    obtain ⟨_, _, rfl⟩ := moveRole_ok h
    apply coh.unwritten tables
    · intro s o _ known
      exact known
    · intro s u m known
      exact known
    · intro k kept
      exact stands_of_move fun m row channel p exposed silent =>
        undisturbed k kept channel p m exposed silent
  | assignRole userId serverId memberUserId roleId =>
    obtain ⟨role, member, seen, server, found, _, result⟩ := assignRole_ok h
    have known : w.getMember serverId memberUserId = some member := found
    simp only [World.invalidate, known, Option.any_some]
    cases result with
    | inl held =>
      obtain ⟨⟨a, ha⟩, rfl⟩ := held
      simp only [ha, Option.isSome_some, if_true]
      exact coh
    | inr inserted =>
      obtain ⟨memberRoles, inserted, rfl⟩ := inserted
      have unheld : w.db.memberRoles.find ⟨member.id, roleId⟩ = none :=
        (Table.insert_eq_some inserted).1
      simp only [unheld, Option.isSome_none, Bool.false_eq_true, if_false]
      rw [truth] at found
      obtain ⟨m, row, rfl⟩ := getMember_eq_some found
      obtain ⟨present, rfl, rfl⟩ := memberRow_eq_some row
      obtain ⟨there, rfl, _⟩ := getRole_eq_some seen
      exact coh.invalidateAssignment tables rfl
        (assigned_seatWrite coh.tables present there server inserted)
  | removeRole userId serverId memberUserId roleId =>
    obtain ⟨member, found, rfl⟩ := removeRole_ok h
    rw [truth] at found
    obtain ⟨m, row, rfl⟩ := getMember_eq_some found
    obtain ⟨present, rfl, rfl⟩ := memberRow_eq_some row
    refine coh.invalidateAssignment tables rfl (unassigned_seatWrite coh.tables present ?_)
    intro a deleted
    simp only [Bool.and_eq_true, decide_eq_true_eq] at deleted
    exact deleted.1
  | setChannelOverride userId channelId targetType targetId allow deny =>
    have strayless := guard ⟨db, h⟩
    obtain ⟨channel, overrides, seen, rfl, stored⟩ := setChannelOverride_ok h
    have found := getChannel_found seen
    simp only [World.invalidate, found]
    exact coh.stray found (fun key other => (stored key).trans (if_neg other)) strayless
  | deleteChannelOverride userId channelId targetType targetId =>
    have strayless := guard ⟨db, h⟩
    obtain ⟨channel, overrides, seen, rfl, stored⟩ := deleteChannelOverride_ok h
    have found := getChannel_found seen
    simp only [World.invalidate, found]
    exact coh.stray found (fun key other => (stored key).trans (if_neg other)) strayless

theorem mutate (coh : Coherent w) {cfg : Config} {op : Operation}
    (guard : Guard cfg w (.mutate op)) : Coherent (w.mutate cfg op) := by
  unfold World.mutate
  split
  · rename_i userId
    apply coh.purge
    intro m listed n hn id
    have hm : m ∈ w.db.members := (List.mem_filter.mp listed).1
    cases Table.eq_of_key hn hm id
    exact ⟨rfl, rfl⟩
  · rename_i single
    split
    · rename_i db h
      exact coh.written guard (fun userId same => single userId same) h
    · exact coh

theorem of_guarded {cfg : Config} (h : Guarded (step cfg) (Guard cfg) Fresh w) : Coherent w := by
  apply guarded_invariant (fun _ start => fresh start) _ h
  intro w action w' coh ok next
  cases action with
  | getMember serverId userId =>
    cases Option.some.inj next
    exact coh.rememberMember serverId userId
  | getPermissions k =>
    cases Option.some.inj next
    exact coh.readPermissions k
  | hasPermission k permission =>
    cases Option.some.inj next
    exact coh.readHasPermission k permission
  | mutate op =>
    cases Option.some.inj next
    exact coh.mutate ok
  | tick seconds =>
    cases Option.some.inj next
    exact coh.punctual ok

end Coherent

/-- Along such a run, the cached answer is the one the tables give now. -/
theorem cached_permissions_are_current {cfg : Config} {w : World}
    (h : Guarded (step cfg) (Guard cfg) Fresh w) (userId serverId channelId : Nat) :
    w.getPermissions userId serverId channelId =
      w.db.getPermissions w.now userId serverId channelId :=
  (Coherent.of_guarded h).getPermissions userId serverId channelId

def contradicting : Database :=
  (Transition.run (Ownership.step defaultConfig) Database.empty
    [(1, .createServer (Ownership.ids 100) 7 "guild"), (2, .addMember 200 100 8 none false),
      (3, .createRole 300 7 100 "low" none), (4, .createRole 301 7 100 "high" none),
      (5, .assignRole 7 100 8 300), (6, .assignRole 7 100 8 301),
      (7, .setChannelOverride 7 103 "role" 300 none
        (some (sampleDict ["messages.manage"] (by decide)))),
      (8, .setChannelOverride 7 103 "role" 301
        (some (sampleDict ["messages.manage"] (by decide))) none)]).get (by decide)

theorem contradicting_consistent : Consistent contradicting :=
  Consistent.of_reachable (reachable_of_run _ rfl (Option.some_get _).symm)

def coldStart : World :=
  ⟨contradicting, 9, false, Memo.empty, Memo.empty, Memo.empty, Memo.empty, Memo.empty⟩

theorem coldStart_fresh : Fresh coldStart where
  tables := contradicting_consistent
  prefixed := rfl
  bare := rfl
  owner := rfl
  memberData := rfl
  hasPerm := rfl

def reordered : World :=
  (coldStart.readPermissions ⟨8, 100, 103⟩).mutate defaultConfig (.moveRole 7 300 9)

/-- The kept answer outlives the move that revokes it: `move_role` drops nothing. -/
theorem moved_role_keeps_permission : ¬ ∀ cfg w, Reachable (step cfg) Fresh w →
    ∀ userId serverId channelId, w.getPermissions userId serverId channelId =
      w.db.getPermissions w.now userId serverId channelId := by
  intro law
  have read : Reachable (step defaultConfig) Fresh (coldStart.readPermissions ⟨8, 100, 103⟩) :=
    .step (a := .getPermissions ⟨8, 100, 103⟩) (.start coldStart_fresh) trivial rfl
  have reached : Reachable (step defaultConfig) Fresh reordered :=
    .step (a := .mutate (.moveRole 7 300 9)) read trivial rfl
  have same := congrFun (law defaultConfig reordered reached 8 100 103) "messages.manage"
  have kept : reordered.getPermissions 8 100 103 "messages.manage" = some true := by decide
  have present : reordered.db.getPermissions reordered.now 8 100 103 "messages.manage" =
      some false := by decide
  rw [kept, present] at same
  cases same

def dismissed : World :=
  (coldStart.readPermissions ⟨8, 100, 103⟩).mutate defaultConfig (.removeRole 7 100 8 301)

theorem removed_role_takes_permission : dismissed.getPermissions 8 100 103 =
    dismissed.db.getPermissions dismissed.now 8 100 103 := by
  have read : Guarded (step defaultConfig) (Guard defaultConfig) Fresh
      (coldStart.readPermissions ⟨8, 100, 103⟩) :=
    .step (a := .getPermissions ⟨8, 100, 103⟩) (.start coldStart_fresh) trivial rfl
  have run : Guarded (step defaultConfig) (Guard defaultConfig) Fresh dismissed :=
    .step (a := .mutate (.removeRole 7 100 8 301)) read trivial rfl
  exact cached_permissions_are_current run 8 100 103

end Plexichat.Servers.PermissionCache
