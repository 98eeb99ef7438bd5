import Plexichat.Servers.Joins

/-! A ban row and a membership row of one user in one server exclude each other as
long as nobody joins between the statements of a ban. -/
namespace Plexichat.Servers.Joins
open Checks Interleaving Transition

def Pc.closing : Pc → Option (Nat × Nat)
  | .banning b .insert => some (b.serverId, b.memberUserId)
  | _ => none

def Excluded (db : Database) : Prop :=
  ∀ serverId userId, db.isBanned serverId userId = true → db.isMember serverId userId = false

@[simp] theorem closing_fails (j : Join) (memberId : Option Nat) (e : Raised) :
    (j.fails memberId e).closing = none := by
  unfold Join.fails
  split
  · rfl
  · rfl

theorem isBanned_congr {db db' : Database} (bans : db'.bans = db.bans) (serverId userId : Nat) :
    db'.isBanned serverId userId = db.isBanned serverId userId := by
  rw [Database.isBanned, bans]
  rfl

theorem isMember_congr {db db' : Database} (members : db'.members = db.members)
    (serverId userId : Nat) : db'.isMember serverId userId = db.isMember serverId userId := by
  rw [Database.isMember, Database.memberRow, members]
  rfl

theorem isMember_of_insert {db db' : Database} {m : MemberRow} (h : db.insertMember m = .ok db')
    {serverId userId : Nat} (member : db'.isMember serverId userId = true) :
    db.isMember serverId userId = true ∨ (serverId, userId) = (m.serverId, m.userId) := by
  obtain ⟨members, inserted, rfl⟩ := insertMember_ok h
  obtain ⟨q, found, rfl, rfl⟩ := isMember_iff.mp member
  cases (Table.mem_insert inserted).mp found with
  | inl old => exact .inl (isMember_iff.mpr ⟨q, old, rfl, rfl⟩)
  | inr new => exact .inr (by rw [new])

theorem isMember_of_delete {db : Database} {s u serverId userId : Nat}
    (member : (db.deleteMember s u).isMember serverId userId = true) :
    db.isMember serverId userId = true ∧ (serverId, userId) ≠ (s, u) := by
  obtain ⟨q, found, rfl, rfl⟩ := isMember_iff.mp member
  obtain ⟨old, kept⟩ := Table.mem_delete.mp found
  refine ⟨isMember_iff.mpr ⟨q, old, rfl, rfl⟩, ?_⟩
  intro same
  cases same
  simp at kept

theorem isBanned_of_insert {db db' : Database} {b : BanRow} (h : db.insertBan b = .ok db')
    {serverId userId : Nat} (banned : db'.isBanned serverId userId = true) :
    db.isBanned serverId userId = true ∨ b.key = (serverId, userId) := by
  obtain ⟨bans, inserted, rfl⟩ := insertBan_ok h
  unfold Database.isBanned at banned
  rw [Table.find_insert inserted] at banned
  split at banned
  · rename_i same
    exact .inr same
  · exact .inl banned

inductive Moved (c : Store) (p : Pc) (a : Action) (r : Store × Pc) : Prop where
  | other (bans : r.1.db.bans = c.db.bans)
      (members : ∀ s u, r.1.db.isMember s u = true → c.db.isMember s u = true)
      (closing : ∀ k, r.2.closing = some k → p.closing = some k ∨ r.1.db.isMember k.1 k.2 = false)
  | joined (j : Join) (cached : Option Member) (rd : Reader) (at_insert : p = .joining j .insert)
      (proceeds : a = .proceed cached rd) (bans : r.1.db.bans = c.db.bans)
      (members : ∀ s u, r.1.db.isMember s u = true →
        c.db.isMember s u = true ∨ (s, u) = (j.serverId, j.userId))
      (closing : r.2.closing = none)
  | banned (k : Nat × Nat) (at_insert : p.closing = some k)
      (members : r.1.db.members = c.db.members)
      (bans : ∀ s u, r.1.db.isBanned s u = true → c.db.isBanned s u = true ∨ k = (s, u))
      (closing : r.2.closing = none)

theorem Moved.quiet {c : Store} {p : Pc} {a : Action} {r : Store × Pc}
    (bans : r.1.db.bans = c.db.bans) (members : r.1.db.members = c.db.members)
    (closing : ∀ k, r.2.closing = some k → p.closing = some k) : Moved c p a r := by
  refine .other bans ?_ fun k here => .inl (closing k here)
  intro s u member
  exact (isMember_congr members s u) ▸ member

theorem Moved.idle {c : Store} {p : Pc} {a : Action} {r : Store × Pc}
    (bans : r.1.db.bans = c.db.bans) (members : r.1.db.members = c.db.members)
    (closing : r.2.closing = none) : Moved c p a r := by
  refine Moved.quiet bans members ?_
  intro k here
  rw [closing] at here
  cases here

theorem Moved.still {c : Store} {p : Pc} {a : Action} {q : Pc} (closing : q.closing = none) :
    Moved c p a (c, q) :=
  Moved.idle rfl rfl closing

theorem joinNext_moved (c : Store) (cached : Option Member) (rd : Reader) (j : Join)
    (stage : JoinStage) :
    Moved c (.joining j stage) (.proceed cached rd) (joinNext c cached j stage) := by
  cases stage with
  | checkBan =>
    apply Moved.still
    split
    · exact closing_fails j none _
    · rfl
  | getMember =>
    apply Moved.still
    split
    · exact closing_fails j none _
    · rfl
  | checkServer =>
    apply Moved.still
    split
    · rfl
    · exact closing_fails j none _
  | insert =>
    simp only [joinNext]
    split
    · apply Moved.still
      split
      · rfl
      · exact closing_fails j none _
    · split
      · rename_i db inserted
        have bans : db.bans = c.db.bans := by
          obtain ⟨members, _, rfl⟩ := insertMember_ok inserted
          rfl
        exact .joined j cached rd rfl rfl bans (fun s u => isMember_of_insert inserted) rfl
      · exact Moved.still (closing_fails j none _)
  | duplicate =>
    apply Moved.still
    split
    · rfl
    · exact closing_fails j none _
  | defaultRole memberId =>
    apply Moved.still
    split
    · rfl
    · rfl
  | grant memberId roleId =>
    simp only [joinNext]
    split
    · rename_i db granted
      obtain ⟨memberRoles, _, rfl⟩ := grantRole_ok granted
      exact Moved.idle rfl rfl rfl
    · exact Moved.still (closing_fails j _ _)
  | result memberId =>
    apply Moved.still
    split
    · rfl
    · exact closing_fails j _ _

theorem banNext_moved (c : Store) (cached : Option Member) (rd : Reader) (b : BanCall)
    (stage : BanStage) (a : Action) :
    Moved c (.banning b stage) a (banNext c cached rd b stage) := by
  cases stage with
  | checkBan =>
    apply Moved.still
    split
    · rfl
    · rfl
  | getMember =>
    simp only [banNext]
    split
    · exact Moved.still rfl
    · rename_i absent
      refine .other rfl (fun _ _ member => member) ?_
      intro k here
      cases here
      exact .inr (lookup_eq_none absent)
  | rank member =>
    apply Moved.still
    split
    · rfl
    · rfl
  | deleteRoles member => exact Moved.idle rfl rfl rfl
  | deleteMember =>
    simp only [banNext]
    split
    · exact Moved.still rfl
    · refine .other rfl (fun s u member => (isMember_of_delete member).1) ?_
      intro k here
      cases here
      refine .inr (Bool.eq_false_iff.mpr ?_)
      intro member
      exact (isMember_of_delete member).2 rfl
  | insert =>
    simp only [banNext]
    split
    · rename_i db inserted
      have members : db.members = c.db.members := by
        obtain ⟨bans, _, rfl⟩ := insertBan_ok inserted
        rfl
      refine .banned (b.serverId, b.memberUserId) rfl members ?_ rfl
      intro s u
      exact isBanned_of_insert inserted
    · exact Moved.still rfl

theorem next_moved {c : Store} {p : Pc} {a : Action} {r : Store × Pc} (h : next c p a = some r) :
    Moved c p a r := by
  have begun : ∀ {q : Pc}, start c a = some q → q.closing = none := by
    intro q begun
    cases a with
    | useInvite userId code =>
      cases Option.some.inj begun
      unfold openInvite
      split
      · rfl
      · rfl
    | addMember serverId userId inviterId temporary =>
      cases Option.some.inj begun
      rfl
    | banMember userId serverId memberUserId deleteMessageDays =>
      cases Option.some.inj begun
      rfl
    | tick ms => cases begun
    | revoke code => cases begun
    | proceed cached rd => cases begun
  unfold next at h
  split at h
  · cases Option.some.inj h
    exact Moved.quiet rfl rfl (fun k here => here)
  · cases Option.some.inj h
    exact Moved.quiet rfl rfl (fun k here => here)
  · rename_i cached rd
    cases p with
    | invited userId invite =>
      cases Option.some.inj h
      apply Moved.still
      unfold checkInvite
      split
      · rfl
      · split
        · rfl
        · rfl
    | claiming userId now invite =>
      cases Option.some.inj h
      unfold claimUse
      split
      · exact Moved.idle rfl rfl rfl
      · exact Moved.still rfl
    | refused now code =>
      cases Option.some.inj h
      exact Moved.still rfl
    | joining j stage =>
      cases Option.some.inj h
      exact joinNext_moved c cached rd j stage
    | givingBack code memberId e =>
      cases Option.some.inj h
      exact Moved.idle rfl rfl rfl
    | authorising userId serverId memberUserId deleteMessageDays =>
      cases Option.some.inj h
      apply Moved.still
      split
      · rfl
      · rfl
    | banning b stage =>
      cases Option.some.inj h
      exact banNext_moved c cached rd b stage _
    | idle => cases h
    | ended via memberId result => cases h
  · split at h
    · obtain ⟨q, first, rfl⟩ := Option.map_eq_some_iff.mp h
      exact Moved.still (begun first)
    · cases h

variable {ι : Type} [DecidableEq ι]

/-- A membership row is inserted when the user has no ban row and no ban of the user has
found him absent, or deleted his row, without having inserted its own. -/
def Unopposed (s : State ι Store Pc) (a : ι × Action) : Prop :=
  ∀ j cached rd, s.pc a.1 = .joining j .insert → a.2 = .proceed cached rd →
    s.shared.db.isBanned j.serverId j.userId = false ∧
      ∀ k, (s.pc k).closing ≠ some (j.serverId, j.userId)

def Unmixed (s : State ι Store Pc) : Prop := Idle s ∧ Excluded s.shared.db

def Closed (c : Store) (p : Pc) : Prop :=
  ∀ k, p.closing = some k → c.db.isMember k.1 k.2 = false

omit [DecidableEq ι] in
theorem next_excluded {s : State ι Store Pc} {i : ι} {a : Action} {r : Store × Pc}
    (excluded : Excluded s.shared.db) (closed : ∀ k, Closed s.shared (s.pc k))
    (guard : Unopposed s (i, a)) (h : next s.shared (s.pc i) a = some r) :
    Excluded r.1.db ∧ Closed r.1 r.2 ∧ ∀ k, k ≠ i → Closed r.1 (s.pc k) := by
  -- whoever is absent stays so, unless the statement inserts the row
  have absent : ∀ {k : Nat × Nat}, s.shared.db.isMember k.1 k.2 = false →
      (r.1.db.isMember k.1 k.2 = true → s.shared.db.isMember k.1 k.2 = true) →
      r.1.db.isMember k.1 k.2 = false := by
    intro k before back
    refine Bool.eq_false_iff.mpr ?_
    intro member
    rw [back member] at before
    cases before
  cases next_moved h with
  | other bans members closing =>
    refine ⟨?_, ?_, ?_⟩
    · intro serverId userId banned
      rw [isBanned_congr bans] at banned
      exact absent (k := (serverId, userId)) (excluded serverId userId banned) (members _ _)
    · intro k here
      cases closing k here with
      | inl before => exact absent (closed i k before) (members _ _)
      | inr gone => exact gone
    · intro j _ k here
      exact absent (closed j k here) (members _ _)
  | joined j cached rd at_insert proceeds bans members closing =>
    obtain ⟨allowed, free⟩ := guard j cached rd at_insert proceeds
    have apart : ∀ {k : Nat × Nat}, k ≠ (j.serverId, j.userId) →
        r.1.db.isMember k.1 k.2 = true → s.shared.db.isMember k.1 k.2 = true := by
      intro k other member
      exact (members k.1 k.2 member).resolve_right other
    refine ⟨?_, ?_, ?_⟩
    · intro serverId userId banned
      rw [isBanned_congr bans] at banned
      refine absent (k := (serverId, userId)) (excluded serverId userId banned) (apart ?_)
      intro same
      cases same
      rw [allowed] at banned
      cases banned
    · intro k here
      rw [closing] at here
      cases here
    · intro q _ k here
      refine absent (closed q k here) (apart ?_)
      intro same
      exact free q (same ▸ here)
  | banned k at_insert members bans closing =>
    have same : ∀ k : Nat × Nat, r.1.db.isMember k.1 k.2 = s.shared.db.isMember k.1 k.2 :=
      fun k => isMember_congr members k.1 k.2
    refine ⟨?_, ?_, ?_⟩
    · intro serverId userId banned
      rw [same (serverId, userId)]
      cases bans serverId userId banned with
      | inl before => exact excluded serverId userId before
      | inr now =>
        cases now
        exact closed i _ at_insert
    · intro k here
      rw [closing] at here
      cases here
    · intro j _ k here
      rw [same k]
      exact closed j k here

/-- In every run that meets the guard nobody is banned and a member. -/
theorem ban_excludes_membership {s : State ι Store Pc}
    (h : Guarded (step next) Unopposed Unmixed s) : Excluded s.shared.db := by
  have holds : Holds (fun c : Store => Excluded c.db) Closed (fun _ _ => True) s := by
    refine holds_throughout ?_ ?_ h
    · intro s initial
      refine ⟨initial.2, ?_, fun _ _ _ => trivial⟩
      intro i k here
      rw [initial.1 i] at here
      cases here
    · intro s i a r holds guard moved
      obtain ⟨excluded, own, others⟩ := next_excluded holds.shared holds.each guard moved
      exact ⟨excluded, own, fun j other => ⟨others j other, trivial, trivial⟩⟩
  exact holds.shared

theorem twoCalls_unmixed : Unmixed twoCalls := by
  refine ⟨fun _ => rfl, ?_⟩
  intro serverId userId banned
  cases banned

def joinDuringBan : List (Bool × Action) :=
  [(true, .addMember 100 8 none false), proceeds true, proceeds true, proceeds true,
    (false, .banMember 7 100 8 0), proceeds false, proceeds false, proceeds false, proceeds false,
    proceeds true, proceeds true, proceeds true, proceeds true]

theorem join_overtakes_ban : ¬ ∀ s : State Bool Store Pc, Reachable (step next) Unmixed s →
    (∀ i, (s.pc i).resting = true) → Excluded s.shared.db := by
  intro law
  have both : (run (step next) twoCalls joinDuringBan).any (fun s =>
      decide (∀ i, (s.pc i).resting = true) && s.shared.db.isBanned 100 8 &&
        s.shared.db.isMember 100 8) = true := by decide
  obtain ⟨t, ends, both⟩ := (Option.any_eq_true _ _).mp both
  simp only [Bool.and_eq_true, decide_eq_true_eq] at both
  obtain ⟨⟨finished, banned⟩, member⟩ := both
  have reached := reachable_of_run joinDuringBan twoCalls_unmixed ends
  rw [law t reached finished 100 8 banned] at member
  cases member

def unopposed (s : State Bool Store Pc) (a : Bool × Action) : Bool :=
  match s.pc a.1, a.2 with
  | .joining j .insert, .proceed _ _ => !s.shared.db.isBanned j.serverId j.userId &&
      decide (∀ k, (s.pc k).closing ≠ some (j.serverId, j.userId))
  | _, _ => true

theorem unopposed_of_test {s : State Bool Store Pc} {a : Bool × Action}
    (h : unopposed s a = true) : Unopposed s a := by
  intro j cached rd at_insert proceeds
  rw [unopposed, at_insert, proceeds, Bool.and_eq_true, Bool.not_eq_true', decide_eq_true_eq] at h
  exact h

/-- The user joins, is banned, and is refused when he comes back. -/
theorem ban_keeps_out : ∃ s : State Bool Store Pc,
    s.shared.db.isBanned 100 8 = true ∧ Excluded s.shared.db := by
  let calls : List (Bool × Action) :=
    [(true, .addMember 100 8 none false), proceeds true, proceeds true, proceeds true, proceeds true,
      proceeds true, proceeds true, proceeds true,
      (false, .banMember 7 100 8 0), proceeds false, proceeds false, proceeds false, proceeds false,
      proceeds false, proceeds false, proceeds false]
  have banned : (runGuarded (step next) (fun s a => unopposed s a = true) twoCalls calls).any
      (fun s => s.shared.db.isBanned 100 8) = true := by decide
  obtain ⟨t, ends, banned⟩ := (Option.any_eq_true _ _).mp banned
  have tested := guarded_of_run calls twoCalls_unmixed ends
  have guarded := guarded_mono (fun _ _ => unopposed_of_test) tested
  exact ⟨t, banned, ban_excludes_membership guarded⟩

end Plexichat.Servers.Joins
