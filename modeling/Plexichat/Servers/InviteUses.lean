import Plexichat.Servers.Joins

/-! The uses of an invite count the calls that hold one, and a call that leaves a
membership behind holds one. -/
namespace Plexichat.Servers.Joins
open Checks Interleaving Transition

def Pc.held (code : String) : Pc → Nat
  | .joining j _ => if j.via = some code then 1 else 0
  | .givingBack given _ _ => if given = code then 1 else 0
  | .ended via _ (.ok _) => if via = some code then 1 else 0
  | _ => 0

def Pc.succeeded (code : String) : Pc → Bool
  | .ended via _ (.ok _) => via = some code
  | _ => false

def Pc.via : Pc → Option String
  | .joining j _ => j.via
  | .givingBack code _ _ => some code
  | .ended via _ _ => via
  | _ => none

def Pc.memberId : Pc → Option Nat
  | .joining _ (.defaultRole memberId) => some memberId
  | .joining _ (.grant memberId _) => some memberId
  | .joining _ (.result memberId) => some memberId
  | .givingBack _ memberId _ => memberId
  | .ended _ memberId _ => memberId
  | _ => none

def entered (c : Store) (code : String) (p : Pc) : Bool :=
  p.via = some code && (p.memberId.bind c.db.members.find).isSome

/-- The invite's row, with `n` uses more than at the start. -/
def Counted (invite : InviteRow) (c : Store) (n : Nat) : Prop :=
  ∃ row, c.db.invites.find invite.code = some row ∧ row.maxUses = invite.maxUses ∧
    row.uses = invite.uses + n ∧ n ≤ invite.maxUses - invite.uses

section Uses

variable {invite : InviteRow}

theorem held_fails (j : Join) (stage : JoinStage) (memberId : Option Nat) (e : Raised)
    (code : String) : (j.fails memberId e).held code = (Pc.joining j stage).held code := by
  cases via : j.via with
  | none => simp [Join.fails, Pc.held, via]
  | some given => simp [Join.fails, Pc.held, via]

theorem Counted.congr {c c' : Store} {n m : Nat} (h : Counted invite c n)
    (invites : c'.db.invites = c.db.invites) (same : m = n) : Counted invite c' m := by
  obtain ⟨row, found, rest⟩ := h
  refine ⟨row, ?_, same ▸ rest⟩
  rw [invites]
  exact found

theorem Counted.revoke {c : Store} {n : Nat} (h : Counted invite c n) (code : String) :
    Counted invite { c with db := revoke c.db code } n := by
  obtain ⟨row, found, counts⟩ := h
  refine ⟨if row.code = code && !row.revoked then { row with revoked := true } else row, ?_, ?_⟩
  · simp only [Joins.revoke, Table.find_update, found, Option.map_some]
  · split
    · exact counts
    · exact counts

theorem find_updateUses (db : Database) (code : String) (f : Nat → Nat) (k : String) :
    (db.updateUses code f).invites.find k = (db.invites.find k).map fun i =>
      if i.code = code then { i with uses := f i.uses } else i := by
  simp only [Database.updateUses, Table.find_update, decide_eq_true_eq]

theorem Counted.updateUses {c : Store} {n m : Nat} {code : String} {f : Nat → Nat}
    (h : Counted invite c n) (other : code ≠ invite.code → m = n)
    (own : code = invite.code → f (invite.uses + n) = invite.uses + m ∧
      m ≤ invite.maxUses - invite.uses) :
    Counted invite { c with db := c.db.updateUses code f } m := by
  obtain ⟨row, found, limit, uses, bound⟩ := h
  have key : row.code = invite.code := (Table.find_eq_some.mp found).2
  by_cases same : code = invite.code
  · obtain ⟨moved, bound'⟩ := own same
    refine ⟨{ row with uses := f row.uses }, ?_, limit, (congrArg f uses).trans moved, bound'⟩
    rw [find_updateUses, found, Option.map_some, if_pos (key.trans same.symm)]
  · refine ⟨row, ?_, limit, (other same).symm ▸ uses, (other same).symm ▸ bound⟩
    rw [find_updateUses, found, Option.map_some, if_neg (fun here => same (here.symm.trans key))]

theorem Counted.claim {c : Store} {userId now n : Nat} {taken : InviteRow}
    (limited : 0 < invite.maxUses) (h : Counted invite c n) :
    Counted invite (claimUse c userId now taken).1
      (n + (claimUse c userId now taken).2.held invite.code) := by
  unfold claimUse
  split
  · rename_i free
    refine h.updateUses ?_ ?_
    · intro other
      simp [Pc.held, other]
    · intro same
      obtain ⟨row, found, limit, uses, bound⟩ := h
      rw [same, found] at free
      simp only [Option.any_some, claimable, Bool.and_eq_true, Bool.or_eq_true,
        decide_eq_true_eq] at free
      have room : row.uses < row.maxUses := by
        cases free.2 with
        | inl unlimited => omega
        | inr room => exact room
      simp only [Pc.held, same, if_true]
      omega
  · exact h.congr rfl rfl

theorem Counted.giveBack {c : Store} {n : Nat} {code : String} {memberId : Option Nat} {e : Raised}
    (h : Counted invite c (n + (Pc.givingBack code memberId e).held invite.code)) :
    Counted invite { c with db := giveBack c.db code } n := by
  refine h.updateUses ?_ ?_
  · intro other
    simp [Pc.held, other]
  · intro same
    obtain ⟨_, _, _, _, bound⟩ := h
    simp only [Pc.held, same, if_true] at bound ⊢
    constructor
    · split
      · omega
      · omega
    · omega

theorem joinNext_held (c : Store) (cached : Option Member) (j : Join) (stage : JoinStage)
    (code : String) :
    (joinNext c cached j stage).1.db.invites = c.db.invites ∧
      (joinNext c cached j stage).2.held code = (Pc.joining j stage).held code := by
  have ended : ∀ memberId, (Pc.ended j.via memberId (.ok ⟨⟩)).held code =
      (Pc.joining j stage).held code := fun _ => rfl
  cases stage with
  | checkBan =>
    refine ⟨rfl, ?_⟩
    simp only [joinNext]
    split
    · exact held_fails j _ _ _ code
    · rfl
  | getMember =>
    refine ⟨rfl, ?_⟩
    simp only [joinNext]
    split
    · exact held_fails j _ _ _ code
    · rfl
  | checkServer =>
    refine ⟨rfl, ?_⟩
    simp only [joinNext]
    split
    · rfl
    · exact held_fails j _ _ _ code
  | insert =>
    simp only [joinNext]
    split
    · refine ⟨rfl, ?_⟩
      show Pc.held code (ite _ _ _) = _
      split
      · rfl
      · exact held_fails j _ _ _ code
    · split
      · rename_i db inserted
        obtain ⟨members, _, rfl⟩ := insertMember_ok inserted
        exact ⟨rfl, rfl⟩
      · exact ⟨rfl, held_fails j _ _ _ code⟩
  | duplicate =>
    refine ⟨rfl, ?_⟩
    simp only [joinNext]
    split
    · exact ended none
    · exact held_fails j _ _ _ code
  | defaultRole memberId =>
    refine ⟨rfl, ?_⟩
    simp only [joinNext]
    split
    · rfl
    · rfl
  | grant memberId roleId =>
    simp only [joinNext]
    split
    · rename_i db granted
      obtain ⟨memberRoles, _, rfl⟩ := grantRole_ok granted
      exact ⟨rfl, rfl⟩
    · exact ⟨rfl, held_fails j _ _ _ code⟩
  | result memberId =>
    refine ⟨rfl, ?_⟩
    simp only [joinNext]
    split
    · exact ended (some memberId)
    · exact held_fails j _ _ _ code

theorem banNext_held (c : Store) (cached : Option Member) (rd : Reader) (b : BanCall)
    (stage : BanStage) (code : String) :
    (banNext c cached rd b stage).1.db.invites = c.db.invites ∧
      (banNext c cached rd b stage).2.held code = 0 := by
  cases stage with
  | checkBan =>
    refine ⟨rfl, ?_⟩
    simp only [banNext]
    split
    · rfl
    · rfl
  | getMember =>
    refine ⟨rfl, ?_⟩
    simp only [banNext]
    split
    · rfl
    · rfl
  | rank member =>
    refine ⟨rfl, ?_⟩
    simp only [banNext]
    split
    · rfl
    · rfl
  | deleteRoles member => exact ⟨rfl, rfl⟩
  | deleteMember =>
    simp only [banNext]
    split
    · exact ⟨rfl, rfl⟩
    · exact ⟨rfl, rfl⟩
  | insert =>
    simp only [banNext]
    split
    · rename_i db inserted
      obtain ⟨bans, _, rfl⟩ := insertBan_ok inserted
      exact ⟨rfl, rfl⟩
    · exact ⟨rfl, rfl⟩

theorem start_held {c : Store} {a : Action} {p : Pc} (h : start c a = some p) (code : String) :
    p.held code = 0 := by
  cases a with
  | useInvite userId code =>
    cases Option.some.inj h
    unfold openInvite
    split
    · rfl
    · rfl
  | addMember serverId userId inviterId temporary =>
    cases Option.some.inj h
    rfl
  | banMember userId serverId memberUserId deleteMessageDays =>
    cases Option.some.inj h
    rfl
  | tick ms => cases h
  | revoke code => cases h
  | proceed cached rd => cases h

theorem next_counted (limited : 0 < invite.maxUses) {c : Store} {p : Pc} {a : Action}
    {r : Store × Pc} {n : Nat} (h : Counted invite c (n + p.held invite.code))
    (moved : next c p a = some r) : Counted invite r.1 (n + r.2.held invite.code) := by
  unfold next at moved
  split at moved
  · cases Option.some.inj moved
    exact h
  · cases Option.some.inj moved
    exact h.revoke _
  · rename_i cached rd
    cases p with
    | invited userId taken =>
      cases Option.some.inj moved
      refine h.congr rfl (congrArg (n + ·) ?_)
      simp only [checkInvite]
      split
      · rfl
      · split
        · rfl
        · rfl
    | claiming userId now taken =>
      cases Option.some.inj moved
      exact Counted.claim limited h
    | refused now code =>
      cases Option.some.inj moved
      exact h
    | joining j stage =>
      cases Option.some.inj moved
      obtain ⟨invites, held⟩ := joinNext_held c cached j stage invite.code
      exact h.congr invites (congrArg (n + ·) held)
    | givingBack code memberId e =>
      cases Option.some.inj moved
      exact h.giveBack
    | authorising userId serverId memberUserId deleteMessageDays =>
      cases Option.some.inj moved
      refine h.congr rfl (congrArg (n + ·) ?_)
      split
      · rfl
      · rfl
    | banning b stage =>
      cases Option.some.inj moved
      obtain ⟨invites, held⟩ := banNext_held c cached rd b stage invite.code
      exact h.congr invites (congrArg (n + ·) held)
    | idle => cases moved
    | ended via memberId result => cases moved
  · split at moved
    · obtain ⟨q, first, rfl⟩ := Option.map_eq_some_iff.mp moved
      exact h.congr rfl (congrArg (n + ·) (start_held first invite.code))
    · cases moved

end Uses

/-- The row that a running `add_member` has inserted. -/
def Pc.entry : Pc → Option (Join × Nat)
  | .joining j (.defaultRole memberId) => some (j, memberId)
  | .joining j (.grant memberId _) => some (j, memberId)
  | .joining j (.result memberId) => some (j, memberId)
  | _ => none

def Pc.left : Pc → Option Nat
  | .givingBack _ memberId _ => memberId
  | .ended _ memberId (.error _) => memberId
  | _ => none

def Pc.ungranted : Pc → Option Nat
  | .joining _ (.defaultRole memberId) => some memberId
  | .joining _ (.grant memberId _) => some memberId
  | _ => none

structure Fresh (c : Store) : Prop where
  members : ∀ m ∈ c.db.members, m.id < c.nextId
  memberRoles : ∀ a ∈ c.db.memberRoles, a.memberId < c.nextId

structure Facts (c : Store) (p : Pc) : Prop where
  below : ∀ m, p.memberId = some m → m < c.nextId
  mine : ∀ j m q, p.entry = some (j, m) → c.db.members.find m = some q →
    q.serverId = j.serverId ∧ q.userId = j.userId
  ungranted : ∀ m, p.ungranted = some m → ∀ a ∈ c.db.memberRoles, a.memberId ≠ m
  role : ∀ j m r, p = .joining j (.grant m r) → (c.db.roles.find r).isSome = true
  left : ∀ m, p.left = some m → c.db.members.find m = none

def Apart (p q : Pc) : Prop := ∀ m, p.memberId = some m → q.memberId ≠ some m

structure Change (c c' : Store) (granted : Option Nat) : Prop where
  nextId : c.nextId ≤ c'.nextId
  members : ∀ m q, m < c.nextId → c'.db.members.find m = some q → c.db.members.find m = some q
  memberRoles : ∀ a ∈ c'.db.memberRoles, a ∈ c.db.memberRoles ∨ granted = some a.memberId
  roles : c'.db.roles = c.db.roles

section Entries

variable {c : Store} {p : Pc}

theorem memberId_of_entry {j : Join} {m : Nat} (h : p.entry = some (j, m)) :
    p.memberId = some m := by
  unfold Pc.entry at h
  split at h
  · cases h
    rfl
  · cases h
    rfl
  · cases h
    rfl
  · cases h

theorem memberId_of_left {m : Nat} (h : p.left = some m) : p.memberId = some m := by
  unfold Pc.left at h
  split at h
  · exact h
  · exact h
  · cases h

theorem entry_of_ungranted {m : Nat} (h : p.ungranted = some m) : ∃ j, p.entry = some (j, m) := by
  unfold Pc.ungranted at h
  split at h
  · cases h
    exact ⟨_, rfl⟩
  · cases h
    exact ⟨_, rfl⟩
  · cases h

theorem memberId_of_ungranted {m : Nat} (h : p.ungranted = some m) : p.memberId = some m := by
  obtain ⟨j, there⟩ := entry_of_ungranted h
  exact memberId_of_entry there

theorem Facts.past (below : ∀ m, p.memberId = some m → m < c.nextId) (entry : p.entry = none)
    (left : ∀ m, p.left = some m → c.db.members.find m = none) : Facts c p := by
  refine ⟨below, ?_, ?_, ?_, left⟩
  · intro j m q here
    rw [entry] at here
    cases here
  · intro m here
    obtain ⟨j, there⟩ := entry_of_ungranted here
    rw [entry] at there
    cases there
  · intro j m r here
    rw [here] at entry
    cases entry

theorem Facts.checks {j : Join} {m : Nat} (below : m < c.nextId)
    (mine : ∀ q, c.db.members.find m = some q → q.serverId = j.serverId ∧ q.userId = j.userId) :
    Facts c (.joining j (.result m)) := by
  refine ⟨?_, ?_, ?_, ?_, ?_⟩
  · intro k here
    cases here
    exact below
  · intro j' k q here
    cases here
    exact mine q
  · intro k here
    cases here
  · intro j' k r here
    cases here
  · intro k here
    cases here

theorem Facts.bare (h : p.memberId = none) : Facts c p := by
  refine Facts.past ?_ ?_ ?_
  · intro m here
    rw [h] at here
    cases here
  · refine Option.eq_none_iff_forall_not_mem.mpr ?_
    rintro ⟨j, m⟩ here
    rw [memberId_of_entry here] at h
    cases h
  · intro m here
    rw [memberId_of_left here] at h
    cases h

theorem memberId_fails (j : Join) (memberId : Option Nat) (e : Raised) :
    (j.fails memberId e).memberId = memberId := by
  unfold Join.fails
  split
  · rfl
  · rfl

theorem Facts.fails {j : Join} {m : Nat} {e : Raised} (below : m < c.nextId)
    (gone : c.db.members.find m = none) : Facts c (j.fails (some m) e) := by
  have only : ∀ k, (j.fails (some m) e).memberId = some k → m = k := by
    intro k here
    rw [memberId_fails] at here
    exact Option.some.inj here
  refine Facts.past (fun k here => only k here ▸ below) ?_
    fun k here => only k (memberId_of_left here) ▸ gone
  unfold Join.fails
  split
  · rfl
  · rfl

theorem Facts.disturbed {c' : Store} {granted : Option Nat} (h : Facts c p)
    (change : Change c c' granted) (other : ∀ m, granted = some m → p.memberId ≠ some m) :
    Facts c' p := by
  refine ⟨?_, ?_, ?_, ?_, ?_⟩
  · intro m here
    exact (h.below m here).trans_le change.nextId
  · intro j m q here found
    have old := h.below m (memberId_of_entry here)
    exact h.mine j m q here (change.members m q old found)
  · intro m here a member
    cases change.memberRoles a member with
    | inl before => exact h.ungranted m here a before
    | inr now =>
      intro same
      exact other _ now (same ▸ memberId_of_ungranted here)
  · intro j m r here
    rw [change.roles]
    exact h.role j m r here
  · intro m here
    have old := h.below m (memberId_of_left here)
    cases found : c'.db.members.find m with
    | none => rfl
    | some q => exact (change.members m q old found).symm.trans (h.left m here)

theorem Change.shrunk {db : Database} (members : ∀ m ∈ db.members, m ∈ c.db.members)
    (memberRoles : ∀ a ∈ db.memberRoles, a ∈ c.db.memberRoles) (roles : db.roles = c.db.roles) :
    Change c { c with db } none := by
  refine ⟨le_rfl, ?_, fun a here => .inl (memberRoles a here), roles⟩
  intro m q _ found
  obtain ⟨here, key⟩ := Table.find_eq_some.mp found
  exact Table.find_eq_some.mpr ⟨members q here, key⟩

theorem Fresh.shrunk {db : Database} (h : Fresh c) (members : ∀ m ∈ db.members, m ∈ c.db.members)
    (memberRoles : ∀ a ∈ db.memberRoles, a ∈ c.db.memberRoles) : Fresh { c with db } :=
  ⟨fun m here => h.members m (members m here), fun a here => h.memberRoles a (memberRoles a here)⟩

structure Kept (c : Store) (p : Pc) (r : Store × Pc) : Prop where
  change : ∃ granted, Change c r.1 granted ∧ ∀ m, granted = some m → p.memberId = some m
  fresh : Fresh r.1
  facts : Facts r.1 r.2
  memberId : ∀ m, r.2.memberId = some m → p.memberId = some m ∨ m = c.nextId

theorem Kept.shrunk {db : Database} {q : Pc} (fresh : Fresh c) (facts : Facts { c with db } q)
    (members : ∀ m ∈ db.members, m ∈ c.db.members)
    (memberRoles : ∀ a ∈ db.memberRoles, a ∈ c.db.memberRoles) (roles : db.roles = c.db.roles)
    (same : ∀ m, q.memberId = some m → p.memberId = some m) : Kept c p ({ c with db }, q) :=
  ⟨⟨none, Change.shrunk members memberRoles roles, nofun⟩, fresh.shrunk members memberRoles, facts,
    fun m here => .inl (same m here)⟩

theorem Kept.read {q : Pc} (fresh : Fresh c) (facts : Facts c q)
    (same : ∀ m, q.memberId = some m → p.memberId = some m) : Kept c p (c, q) :=
  Kept.shrunk fresh facts (fun _ here => here) (fun _ here => here) rfl same

theorem Kept.freed {db : Database} {q : Pc} (fresh : Fresh c) (h : q.memberId = none)
    (members : ∀ m ∈ db.members, m ∈ c.db.members)
    (memberRoles : ∀ a ∈ db.memberRoles, a ∈ c.db.memberRoles) (roles : db.roles = c.db.roles) :
    Kept c p ({ c with db }, q) := by
  refine Kept.shrunk fresh (Facts.bare h) members memberRoles roles ?_
  intro m here
  rw [h] at here
  cases here

theorem Kept.bare {q : Pc} (fresh : Fresh c) (h : q.memberId = none) : Kept c p (c, q) :=
  Kept.freed fresh h (fun _ here => here) (fun _ here => here) rfl

theorem Kept.insert {j : Join} {db : Database} {m : MemberRow} (fresh : Fresh c)
    (id : m.id = c.nextId) (serverId : m.serverId = j.serverId) (userId : m.userId = j.userId)
    (executed : c.db.insertMember m = .ok db) :
    Kept c (.joining j .insert)
      ({ c with db, nextId := c.nextId + 1 }, .joining j (.defaultRole c.nextId)) := by
  obtain ⟨members, inserted, rfl⟩ := insertMember_ok executed
  have find := Table.find_insert inserted
  refine ⟨⟨none, ⟨Nat.le_succ _, ?_, fun a here => .inl here, rfl⟩, nofun⟩, ⟨?_, ?_⟩,
    ⟨?_, ?_, ?_, ?_, ?_⟩, ?_⟩
  · intro k q below found
    have other : m.id ≠ k := fun same => absurd below (by omega)
    rw [← found]
    exact ((find k).trans (if_neg other)).symm
  · intro q here
    cases (Table.mem_insert inserted).mp here with
    | inl old => exact (fresh.members q old).trans (Nat.lt_succ_self _)
    | inr new => exact (new ▸ id).trans_lt (Nat.lt_succ_self _)
  · intro a here
    exact (fresh.memberRoles a here).trans (Nat.lt_succ_self _)
  · intro k here
    cases here
    exact Nat.lt_succ_self _
  · intro j' k q here found
    cases here
    have same := (find c.nextId).trans (if_pos id)
    cases found.symm.trans same
    exact ⟨serverId, userId⟩
  · intro k here a member
    cases here
    exact (fresh.memberRoles a member).ne
  · intro j' k r here
    cases here
  · intro k here
    cases here
  · intro k here
    cases here
    exact .inr rfl

theorem Kept.grant {j : Join} {m roleId : Nat} {db : Database} (fresh : Fresh c)
    (facts : Facts c (.joining j (.grant m roleId)))
    (granted : grantRole c.db ⟨m, roleId⟩ = .ok db) :
    Kept c (.joining j (.grant m roleId)) ({ c with db }, .joining j (.result m)) := by
  obtain ⟨memberRoles, inserted, rfl⟩ := grantRole_ok granted
  have added := fun a => Table.mem_insert (q := a) inserted
  refine ⟨⟨some m, ⟨le_rfl, fun _ _ _ found => found, ?_, rfl⟩, ?_⟩, ⟨fresh.members, ?_⟩,
    Facts.checks (facts.below m rfl) fun q => facts.mine j m q rfl, ?_⟩
  · intro a here
    cases (added a).mp here with
    | inl old => exact .inl old
    | inr new => exact .inr (by rw [new])
  · intro k here
    cases here
    rfl
  · intro a here
    cases (added a).mp here with
    | inl old => exact fresh.memberRoles a old
    | inr new => exact new ▸ facts.below m rfl
  · intro k here
    exact .inl here

theorem Facts.grant_refused {j : Join} {m roleId : Nat} {e : ServerError}
    (facts : Facts c (.joining j (.grant m roleId)))
    (refused : grantRole c.db ⟨m, roleId⟩ = .error e) : c.db.members.find m = none := by
  cases grantRole_error refused with
  | inl member => exact member
  | inr rest =>
    cases rest with
    | inl role =>
      have there := facts.role j m roleId rfl
      rw [role] at there
      cases there
    | inr twice =>
      obtain ⟨a, member, same⟩ := Table.find_isSome.mp twice
      exact absurd (congrArg MemberRole.memberId same) (facts.ungranted m rfl a member)

theorem Facts.unseen {j : Join} {m : Nat} (facts : Facts c (.joining j (.result m)))
    {cached : Option Member} (absent : lookup c.db cached j.serverId j.userId = none) :
    c.db.members.find m = none := by
  cases found : c.db.members.find m with
  | none => rfl
  | some q =>
    obtain ⟨serverId, userId⟩ := facts.mine j m q rfl found
    have here : c.db.isMember j.serverId j.userId = true :=
      isMember_iff.mpr ⟨q, (Table.find_eq_some.mp found).1, serverId, userId⟩
    rw [lookup_eq_none absent] at here
    cases here

theorem joinNext_kept (fresh : Fresh c) {j : Join} {stage : JoinStage}
    (facts : Facts c (.joining j stage)) (cached : Option Member) :
    Kept c (.joining j stage) (joinNext c cached j stage) := by
  cases stage with
  | checkBan =>
    apply Kept.bare fresh
    split
    · exact memberId_fails j _ _
    · rfl
  | getMember =>
    apply Kept.bare fresh
    split
    · exact memberId_fails j _ _
    · rfl
  | checkServer =>
    apply Kept.bare fresh
    split
    · rfl
    · exact memberId_fails j _ _
  | insert =>
    simp only [joinNext]
    split
    · apply Kept.bare fresh
      split
      · rfl
      · exact memberId_fails j _ _
    · split
      · rename_i db inserted
        exact Kept.insert fresh rfl rfl rfl inserted
      · exact Kept.bare fresh (memberId_fails j _ _)
  | duplicate =>
    apply Kept.bare fresh
    split
    · rfl
    · exact memberId_fails j _ _
  | defaultRole m =>
    simp only [joinNext]
    split
    · rename_i role found
      refine Kept.read fresh ⟨facts.below, ?_, ?_, ?_, ?_⟩ fun k here => here
      · intro j' k q here
        cases here
        exact facts.mine j m q rfl
      · intro k here
        exact facts.ungranted k here
      · intro j' k r here
        cases here
        exact Table.find_isSome.mpr ⟨role, List.mem_of_find?_eq_some found, rfl⟩
      · intro k here
        cases here
    · exact Kept.read fresh (Facts.checks (facts.below m rfl) fun q => facts.mine j m q rfl)
        fun k here => here
  | grant m roleId =>
    simp only [joinNext]
    split
    · rename_i db granted
      exact Kept.grant fresh facts granted
    · rename_i e refused
      refine Kept.read fresh (Facts.fails (facts.below m rfl) (facts.grant_refused refused)) ?_
      intro k here
      rw [memberId_fails] at here
      exact here
  | result m =>
    simp only [joinNext]
    split
    · refine Kept.read fresh (Facts.past facts.below rfl ?_) fun k here => here
      intro k here
      cases here
    · rename_i absent
      have gone := facts.unseen (Option.not_isSome_iff_eq_none.mp absent)
      refine Kept.read fresh (Facts.fails (facts.below m rfl) gone) ?_
      intro k here
      rw [memberId_fails] at here
      exact here

theorem banNext_kept (fresh : Fresh c) (cached : Option Member) (rd : Reader) (b : BanCall)
    (stage : BanStage) : Kept c (.banning b stage) (banNext c cached rd b stage) := by
  cases stage with
  | checkBan =>
    apply Kept.bare fresh
    split
    · rfl
    · rfl
  | getMember =>
    apply Kept.bare fresh
    split
    · rfl
    · rfl
  | rank member =>
    apply Kept.bare fresh
    split
    · rfl
    · rfl
  | deleteRoles member =>
    exact Kept.freed fresh rfl (fun _ here => here)
      (fun _ here => (Table.mem_delete.mp here).1) rfl
  | deleteMember =>
    simp only [banNext]
    split
    · exact Kept.bare fresh rfl
    · exact Kept.freed fresh rfl (fun _ here => (Table.mem_delete.mp here).1)
        (fun _ here => here) rfl
  | insert =>
    simp only [banNext]
    split
    · rename_i db inserted
      obtain ⟨bans, _, rfl⟩ := insertBan_ok inserted
      exact Kept.freed fresh rfl (fun _ here => here) (fun _ here => here) rfl
    · exact Kept.bare fresh rfl

theorem start_memberId {a : Action} (h : start c a = some p) : p.memberId = none := by
  cases a with
  | useInvite userId code =>
    cases Option.some.inj h
    unfold openInvite
    split
    · rfl
    · rfl
  | addMember serverId userId inviterId temporary =>
    cases Option.some.inj h
    rfl
  | banMember userId serverId memberUserId deleteMessageDays =>
    cases Option.some.inj h
    rfl
  | tick ms => cases h
  | revoke code => cases h
  | proceed cached rd => cases h

theorem next_kept {a : Action} {r : Store × Pc} (fresh : Fresh c) (facts : Facts c p)
    (moved : next c p a = some r) : Kept c p r := by
  -- what the other actions leave alone
  have elsewhere : ∀ {c' : Store}, c'.nextId = c.nextId → c'.db.members = c.db.members →
      c'.db.memberRoles = c.db.memberRoles → c'.db.roles = c.db.roles → Kept c p (c', p) := by
    intro c' nextId members memberRoles roles
    have change : Change c c' none := by
      refine ⟨nextId.ge, ?_, ?_, roles⟩
      · intro m q _ found
        rw [← members]
        exact found
      · intro a here
        rw [← memberRoles]
        exact .inl here
    have nothing : ∀ {q : Nat → Prop} (m : Nat), none = some m → q m := by
      intro q m here
      cases here
    refine ⟨⟨none, change, nothing⟩, ⟨?_, ?_⟩, facts.disturbed change nothing,
      fun m here => .inl here⟩
    · intro m here
      rw [nextId]
      exact fresh.members m (members ▸ here)
    · intro a here
      rw [nextId]
      exact fresh.memberRoles a (memberRoles ▸ here)
  unfold next at moved
  split at moved
  · cases Option.some.inj moved
    exact elsewhere rfl rfl rfl rfl
  · cases Option.some.inj moved
    exact elsewhere rfl rfl rfl rfl
  · rename_i cached rd
    cases p with
    | invited userId taken =>
      cases Option.some.inj moved
      apply Kept.bare fresh
      unfold checkInvite
      split
      · rfl
      · split
        · rfl
        · rfl
    | claiming userId now taken =>
      cases Option.some.inj moved
      unfold claimUse
      split
      · exact Kept.freed fresh rfl (fun _ here => here) (fun _ here => here) rfl
      · exact Kept.bare fresh rfl
    | refused now code =>
      cases Option.some.inj moved
      exact Kept.bare fresh rfl
    | joining j stage =>
      cases Option.some.inj moved
      exact joinNext_kept fresh facts cached
    | givingBack code memberId e =>
      cases Option.some.inj moved
      exact Kept.shrunk fresh (Facts.past facts.below rfl facts.left)
        (fun _ here => here) (fun _ here => here) rfl fun m here => here
    | authorising userId serverId memberUserId deleteMessageDays =>
      cases Option.some.inj moved
      apply Kept.bare fresh
      split
      · rfl
      · rfl
    | banning b stage =>
      cases Option.some.inj moved
      exact banNext_kept fresh cached rd b stage
    | idle => cases moved
    | ended via memberId result => cases moved
  · split at moved
    · obtain ⟨q, first, rfl⟩ := Option.map_eq_some_iff.mp moved
      exact Kept.bare fresh (start_memberId first)
    · cases moved

end Entries

variable {ι : Type} [DecidableEq ι]

theorem facts_throughout {s t : State ι Store Pc} (idle : Idle s) (fresh : Fresh s.shared)
    (h : Reachable (step next) (· = s) t) : Holds Fresh Facts Apart t := by
  refine holds_throughout ?_ ?_ h
  · intro t same
    subst same
    refine ⟨fresh, fun i => Facts.bare (by rw [idle i]; rfl), ?_⟩
    intro i j _ m here
    rw [idle i] at here
    cases here
  · intro s i a r holds _ moved
    have kept := next_kept holds.shared (holds.each i) moved
    obtain ⟨granted, change, own⟩ := kept.change
    refine ⟨kept.fresh, kept.facts, ?_⟩
    intro j other
    have apart : ∀ m, r.2.memberId = some m → (s.pc j).memberId ≠ some m := by
      intro m here
      cases kept.memberId m here with
      | inl before => exact holds.pair i j other.symm m before
      | inr new =>
        intro same
        exact absurd ((holds.each j).below m same) (by omega)
    refine ⟨(holds.each j).disturbed change ?_, apart, ?_⟩
    · intro m grants
      exact holds.pair i j other.symm m (own m grants)
    · intro m here same
      exact apart m same here

theorem entered_le_held {c : Store} {p : Pc} (facts : Facts c p) (code : String) :
    (if entered c code p then 1 else 0) ≤ p.held code := by
  split
  · rename_i inside
    simp only [entered, Bool.and_eq_true, decide_eq_true_eq] at inside
    obtain ⟨via, row⟩ := inside
    cases p with
    | joining j stage =>
      have here : j.via = some code := via
      simp [Pc.held, here]
    | givingBack given memberId e =>
      cases via
      simp [Pc.held]
    | ended via' memberId result =>
      have here : via' = some code := via
      cases result with
      | ok x => simp [Pc.held, here]
      | error e =>
        cases memberId with
        | none => cases row
        | some m =>
          have gone := facts.left m rfl
          simp [Pc.memberId, gone] at row
    | idle => cases via
    | invited userId taken => cases via
    | claiming userId now taken => cases via
    | refused now given => cases via
    | authorising userId serverId memberUserId deleteMessageDays => cases via
    | banning b stage => cases via
  · exact Nat.zero_le _

theorem held_of_resting {p : Pc} (h : p.resting = true) (code : String) :
    p.held code = if p.succeeded code then 1 else 0 := by
  unfold Pc.resting at h
  split at h
  · rfl
  · rename_i via memberId result
    cases result with
    | ok x => simp [Pc.held, Pc.succeeded]
    | error e => rfl
  · cases h

variable [Fintype ι]

theorem counted_throughout {invite : InviteRow} (limited : 0 < invite.maxUses)
    {s t : State ι Store Pc} (idle : Idle s)
    (found : s.shared.db.invites.find invite.code = some invite)
    (h : Reachable (step next) (· = s) t) :
    Counted invite t.shared (tally (Pc.held invite.code) t) := by
  refine tally_invariant (J := Counted invite) ?_ (fun c p a r n => next_counted limited) h
  intro t same
  subst same
  have none_held : tally (Pc.held invite.code) t = 0 := by
    apply Finset.sum_eq_zero
    intro i _
    rw [idle i]
    rfl
  rw [none_held]
  exact ⟨invite, found, rfl, rfl, Nat.zero_le _⟩

/-- Over every interleaving the memberships that calls have made through the invite stay
within the uses it had left, and once no call is running the counter has gone up by the
calls that returned. -/
theorem uses_within_limit {invite : InviteRow} (limited : 0 < invite.maxUses)
    {s t : State ι Store Pc} (idle : Idle s) (fresh : Fresh s.shared)
    (found : s.shared.db.invites.find invite.code = some invite)
    (h : Reachable (step next) (· = s) t) :
    (Finset.univ.filter fun i => entered t.shared invite.code (t.pc i)).card ≤
        invite.maxUses - invite.uses ∧
      ((∀ i, (t.pc i).resting = true) → ∃ row,
        t.shared.db.invites.find invite.code = some row ∧ row.uses = invite.uses +
          (Finset.univ.filter fun i => (t.pc i).succeeded invite.code).card) := by
  obtain ⟨row, found', _, uses, bound⟩ := counted_throughout limited idle found h
  have facts := (facts_throughout idle fresh h).each
  constructor
  · rw [Finset.card_filter]
    exact (Finset.sum_le_sum fun i _ => entered_le_held (facts i) invite.code).trans bound
  · intro finished
    refine ⟨row, found', uses.trans (congrArg (invite.uses + ·) ?_)⟩
    rw [Finset.card_filter]
    apply Finset.sum_congr rfl
    intro i _
    exact held_of_resting (finished i) invite.code

/-- Users 8 and 9 read the invite before either takes its one use, and one of them joins. -/
theorem one_use_one_member : ∃ t : State Bool Store Pc, (∀ i, (t.pc i).resting = true) ∧
    (Finset.univ.filter fun i => entered t.shared "in" (t.pc i)).card ≤ 1 - 0 ∧
      ∃ row, t.shared.db.invites.find "in" = some row ∧ row.uses = 0 +
        (Finset.univ.filter fun i => (t.pc i).succeeded "in").card := by
  let calls : List (Bool × Action) :=
    [(true, .useInvite 8 "in"), (false, .useInvite 9 "in"), proceeds true, proceeds false,
      proceeds true, proceeds false, proceeds true, proceeds true, proceeds true, proceeds true,
      proceeds true, proceeds true, proceeds true, proceeds false]
  have ends : (run (step next) twoCalls calls).any (fun t =>
      decide (∀ i, (t.pc i).resting = true)) = true := by decide
  obtain ⟨t, reached, finished⟩ := (Option.any_eq_true _ _).mp ends
  have finished := of_decide_eq_true finished
  have fresh : Fresh twoCalls.shared := by
    constructor
    · intro m here
      cases List.mem_singleton.mp here
      decide
    · intro a here
      cases here
  have limited : 0 < (⟨"in", 100, 7, 1, 0, false, none, false⟩ : InviteRow).maxUses := by decide
  have law := uses_within_limit limited (fun _ => rfl) fresh (by rfl)
    (reachable_of_run calls rfl reached)
  exact ⟨t, finished, law.1, law.2 finished⟩

end Plexichat.Servers.Joins
