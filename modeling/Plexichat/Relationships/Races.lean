import Mathlib.Data.Fintype.Option
import Plexichat.Relationships.Consistency

/-! Calls of several users side by side. `send_friend_request` inserts on what it has read before
its transaction, and does not look again. -/
namespace Plexichat.Relationships
open Checks Interleaving Transition

variable {ι : Type} {c c' : Store} {pc pc' : Pc} {a : Action}

inductive Transaction (c : Store) : Pc → Action → Store → Prop
  | create {r : Send} {now : Nat} {c' : Store} (h : c.createRequest now r = .ok c') :
    Transaction c (.sending r .create) (.proceed now) c'
  | write {reply : Reply} {row : FriendRequest} {now : Nat} {c' : Store}
    (h : reply.write c now row = .ok c') : Transaction c (.writing reply row) (.proceed now) c'
  | block {b : Block} {now : Nat} {c' : Store} (h : c.createBlock now b = .ok c') :
    Transaction c (.blocking b) (.proceed now) c'
  | unblock {x y now : Nat} : Transaction c (.unblocking x y) (.proceed now) (c.deleteBlock x y)
  | remove {x y now : Nat} : Transaction c (.removing x y) (.proceed now) (c.deleteFriendship x y)

def Pc.Known (c : Store) : Pc → Prop
  | .sending r _ => r.senderId ≠ r.recipientId ∧ c.users r.senderId = true ∧
      c.users r.recipientId = true
  | .writing _ row => row.id < c.nextId ∧ ∀ q ∈ c.friendRequests, q.id = row.id →
      q.senderId = row.senderId ∧ q.recipientId = row.recipientId
  | _ => True

def Store.Fresh (c : Store) : Prop := ∀ q ∈ c.friendRequests, q.id < c.nextId

theorem Store.Keeps.fresh (keeps : c.Keeps c') (fresh : c.Fresh) : c'.Fresh := by
  intro q' member
  rcases keeps.rows q' member with ⟨q, old, id_eq, -⟩ | ⟨-, below⟩
  · exact id_eq ▸ Nat.lt_of_lt_of_le (fresh q old) keeps.nextId
  · exact below

theorem Store.Keeps.known (keeps : c.Keeps c') (known : pc.Known c) : pc.Known c' := by
  cases pc with
  | sending r stage =>
    rw [Pc.Known, keeps.users]
    exact known
  | writing reply row =>
    refine ⟨Nat.lt_of_lt_of_le known.1 keeps.nextId, ?_⟩
    intro q' member same
    rcases keeps.rows q' member with ⟨q, old, id_eq, sender, recipient⟩ | ⟨above, -⟩
    · rw [← sender, ← recipient]
      exact known.2 q old (id_eq.trans same)
    · exact absurd known.1 (Nat.not_lt_of_le (same ▸ above))
  | _ => trivial

theorem known_goOn {α : Type} {onward : α → Pc} {x : Outcome α}
    (known : ∀ v, x = .ok v → (onward v).Known c) : (goOn onward x).Known c := by
  cases x with
  | error e => trivial
  | ok v => exact known v rfl

theorem known_read (fresh : c.Fresh) {reply : Reply} {userId requestId : Nat} :
    (goOn (.writing reply) (reply.read c userId requestId)).Known c := by
  apply known_goOn
  intro row returned
  simp only [Reply.read, found_bind_eq_ok, ensure_bind_eq_ok, pure_eq_ok] at returned
  obtain ⟨_, found, -, rfl⟩ := returned
  obtain ⟨member, -, -⟩ := Store.pendingById_eq_some.mp found
  refine ⟨fresh _ member, ?_⟩
  intro q there same
  rw [Table.eq_of_key there member same]
  exact ⟨rfl, rfl⟩

theorem known_start (started : start c a = some pc) : pc.Known c := by
  cases a with
  | sendFriendRequest r =>
    cases started
    apply known_goOn
    intro _ valid
    simp only [validateSend, ensure_bind_eq_ok] at valid
    exact ⟨valid.1, valid.2.1, valid.2.2.1⟩
  | reply reply userId requestId =>
    cases started
    trivial
  | blockUser b =>
    cases started
    exact known_goOn fun _ _ => trivial
  | unblockUser x y =>
    cases started
    trivial
  | removeFriend x y =>
    cases started
    split <;> trivial
  | proceed now => cases started

theorem sendNext_cases {r : Send} {stage : SendStage} {now : Nat}
    (known : (Pc.sending r stage).Known c) (h : sendNext c now r stage = (c', pc')) :
    (Transaction c (.sending r stage) (.proceed now) c' ∧ ∀ d, pc'.Known d) ∨
      c' = c ∧ pc'.Known c := by
  cases stage with
  | create =>
    simp only [sendNext] at h
    split at h
    · rename_i after created
      cases h
      exact .inl ⟨.create created, fun _ => trivial⟩
    · cases h
      refine .inr ⟨rfl, ?_⟩
      split
      · exact known
      · trivial
  | reverse | recover =>
    cases h
    refine .inr ⟨rfl, ?_⟩
    split <;> trivial
  | blocked | blockedBy | friends | pending =>
    cases h
    refine .inr ⟨rfl, ?_⟩
    split
    · trivial
    · exact known

theorem proceed_cases {now : Nat} (fresh : c.Fresh) (known : pc.Known c)
    (h : proceed c now pc = some (c', pc')) :
    (Transaction c pc (.proceed now) c' ∧ ∀ d, pc'.Known d) ∨ c' = c ∧ pc'.Known c := by
  cases pc with
  | idle | ended _ => cases h
  | sending r stage => exact sendNext_cases known (Option.some.inj h)
  | reading reply userId requestId =>
    cases h
    exact .inr ⟨rfl, known_read fresh⟩
  | writing reply row =>
    simp only [proceed] at h
    split at h
    · rename_i after written
      cases h
      exact .inl ⟨.write written, fun _ => trivial⟩
    · cases h
      exact .inr ⟨rfl, trivial⟩
  | blocking b =>
    simp only [proceed] at h
    split at h
    · rename_i after blocked
      cases h
      exact .inl ⟨.block blocked, fun _ => trivial⟩
    · cases h
      exact .inr ⟨rfl, trivial⟩
  | unblocking x y =>
    cases h
    exact .inl ⟨.unblock, fun _ => trivial⟩
  | removing x y =>
    cases h
    exact .inl ⟨.remove, fun _ => trivial⟩
  | fetching _ _ | fetchingBlock _ | checkingBlock _ | checkingUnblock _ _ | checkingFriend _ _ =>
    cases h
    refine .inr ⟨rfl, ?_⟩
    split <;> trivial

theorem next_idle (c : Store) (a : Action) :
    next c .idle a = (start c a).map fun pc => (c, pc) := by
  cases a <;> rfl

theorem next_cases (fresh : c.Fresh) (known : pc.Known c) (h : next c pc a = some (c', pc')) :
    (Transaction c pc a c' ∧ ∀ d, pc'.Known d) ∨ c' = c ∧ pc'.Known c := by
  by_cases idle : pc = .idle
  · subst idle
    rw [next_idle] at h
    obtain ⟨started, begins, same⟩ := Option.map_eq_some_iff.mp h
    cases same
    exact .inr ⟨rfl, known_start begins⟩
  · cases a with
    | proceed now => exact proceed_cases fresh known h
    | _ => cases pc <;> first | exact absurd rfl idle | cases h

theorem Transaction.keeps (h : Transaction c pc a c') : c.Keeps c' := by
  cases h with
  | create created => exact Store.createRequest_keeps created
  | @write reply row now _ written =>
    cases reply with
    | accept => exact (Store.acceptRequest_eq_ok written).2.2.2.1
    | decline =>
      rw [(Store.settleOne_eq_ok written).2]
      exact Store.settle_keeps
    | cancel =>
      rw [(Store.settleOne_eq_ok written).2]
      exact Store.settle_keeps
  | block blocked => exact Store.createBlock_keeps blocked
  | unblock => exact .of_rows rfl (Nat.le_refl _) fun q member => ⟨q, member, rfl, rfl, rfl⟩
  | remove => exact .of_rows rfl (Nat.le_refl _) fun q member => ⟨q, member, rfl, rfl, rfl⟩

theorem Transaction.consistent_iff (h : Transaction c pc a c') (before : c.Consistent)
    (known : pc.Known c) : c'.Consistent ↔ ∀ r, pc = .sending r .create → c.Uncontested r := by
  cases h with
  | @create r now _ created =>
    rw [Store.createRequest_consistent_iff created before known.1]
    constructor
    · intro clear r' same
      cases same
      exact clear
    · exact fun clear => clear r rfl
  | @write reply row now _ written =>
    refine iff_of_true ?_ (by simp)
    cases reply with
    | accept => exact Store.acceptRequest_consistent written before known.2
    | decline =>
      rw [(Store.settleOne_eq_ok written).2]
      exact Store.settle_consistent before (by decide)
    | cancel =>
      rw [(Store.settleOne_eq_ok written).2]
      exact Store.settle_consistent before (by decide)
  | block blocked => exact iff_of_true (Store.createBlock_consistent blocked before) (by simp)
  | unblock => exact iff_of_true (Store.deleteBlock_consistent before) (by simp)
  | remove => exact iff_of_true (Store.deleteFriendship_consistent before) (by simp)

structure Initial (s : State ι Store Pc) : Prop where
  consistent : s.shared.Consistent
  fresh : s.shared.Fresh
  idle : ∀ i, s.pc i = .idle

def Clear (s : State ι Store Pc) (move : ι × Action) : Prop :=
  match s.pc move.1, move.2 with
  | .sending r .create, .proceed now =>
    s.shared.cooling now r.senderId r.recipientId = false →
      s.shared.getPendingRequest r.senderId r.recipientId = none → s.shared.Uncontested r
  | _, _ => True

theorem clear_iff (s : State ι Store Pc) (move : ι × Action) : Clear s move ↔
    ∀ r now, s.pc move.1 = .sending r .create → move.2 = .proceed now →
      s.shared.cooling now r.senderId r.recipientId = false →
        s.shared.getPendingRequest r.senderId r.recipientId = none → s.shared.Uncontested r := by
  unfold Clear
  split
  · rename_i r now at_create proceeds
    simp [at_create, proceeds]
  · rename_i elsewhere
    refine iff_of_true trivial ?_
    intro r now at_create proceeds
    exact absurd proceeds (elsewhere r now at_create)

theorem Transaction.of_create {r : Send} (h : Transaction c (.sending r .create) a c') :
    ∃ now, a = .proceed now ∧ c.createRequest now r = .ok c' := by
  cases h with
  | create created => exact ⟨_, rfl, created⟩

theorem createRequest_checks {r : Send} {now : Nat} (h : c.createRequest now r = .ok c') :
    c.cooling now r.senderId r.recipientId = false ∧
      c.getPendingRequest r.senderId r.recipientId = none :=
  ⟨(ensure_bind_eq_ok.mp h).1,
    Store.getPendingRequest_eq_none.mpr (Store.createRequest_eq_ok h).1⟩

theorem step_consistent_iff {s : State ι Store Pc} {i : ι} {r : Store × Pc}
    (before : s.shared.Consistent) (fresh : s.shared.Fresh) (known : (s.pc i).Known s.shared)
    (moved : next s.shared (s.pc i) a = some r) : r.1.Consistent ↔ Clear s (i, a) := by
  rw [clear_iff]
  rcases next_cases fresh known moved with ⟨transaction, -⟩ | ⟨same, -⟩
  · rw [transaction.consistent_iff before known]
    constructor
    · exact fun clear r _ at_create _ _ _ => clear r at_create
    · intro clear r at_create
      rw [at_create] at transaction
      obtain ⟨now, proceeds, created⟩ := transaction.of_create
      obtain ⟨rested, quiet⟩ := createRequest_checks created
      exact clear r now at_create proceeds rested quiet
  · refine iff_of_true (same.symm ▸ before) ?_
    intro send now at_create proceeds rested quiet
    rw [at_create] at known moved
    obtain ⟨c', created⟩ := Store.createRequest_commits fresh known.2 rested quiet
    have committed : next s.shared (.sending send .create) (.proceed now) =
        some (c', .fetching s.shared.nextId "Friend request not found after creation") := by
      simp only [next, proceed, sendNext, created]
    have later := (Store.createRequest_eq_ok created).2.2.2.2.1
    have here : r.1 = c' := by
      rw [show a = .proceed now from proceeds, committed] at moved
      cases moved
      rfl
    rw [← here, same] at later
    exact absurd later (Nat.lt_irrefl _)

variable [DecidableEq ι]

theorem clear_invariant {s : State ι Store Pc} (h : Guarded (step next) Clear Initial s) :
    Holds (fun c => c.Consistent ∧ c.Fresh) (fun c pc => pc.Known c) (fun _ _ => True) s := by
  refine holds_throughout ?_ ?_ h
  · intro s first
    refine ⟨⟨first.consistent, first.fresh⟩, ?_, fun _ _ _ => trivial⟩
    intro i
    rw [first.idle i]
    trivial
  · intro s i a r holds clear moved
    obtain ⟨consistent, fresh⟩ := holds.shared
    have after := (step_consistent_iff consistent fresh (holds.each i) moved).mpr clear
    rcases next_cases fresh (holds.each i) moved with ⟨transaction, known⟩ | ⟨same, known⟩
    · have keeps := transaction.keeps
      exact ⟨⟨after, keeps.fresh fresh⟩, known _,
        fun j _ => ⟨keeps.known (holds.each j), trivial, trivial⟩⟩
    · rw [same] at after ⊢
      exact ⟨⟨after, fresh⟩, known, fun j _ => ⟨holds.each j, trivial, trivial⟩⟩

/-- While every request is uncontested when it is inserted, all states are consistent; the first
one that is contested leaves an inconsistent state. -/
theorem relationships_consistent {s : State ι Store Pc}
    (h : Guarded (step next) Clear Initial s) : s.shared.Consistent ∧
      ∀ move t, step next s move = some t → (t.shared.Consistent ↔ Clear s move) := by
  have holds := clear_invariant h
  refine ⟨holds.shared.1, ?_⟩
  intro move t moved
  obtain ⟨r, local_step, rfl⟩ := step_eq_some.mp moved
  exact step_consistent_iff holds.shared.1 holds.shared.2 (holds.each move.1) local_step

instance (s : State ι Store Pc) (move : ι × Action) : Decidable (Clear s move) := by
  unfold Clear Store.Uncontested
  split <;> infer_instance

def strangers : State (Option Bool) Store Pc :=
  ⟨⟨fun _ => true, 1, .empty, .empty, .empty⟩, fun _ => .idle⟩

theorem strangers_initial : Initial strangers where
  consistent := by
    constructor
    · intro a b befriended
      cases befriended
    · intro a b blocks
      cases blocks
    · intro a b p q none_pending
      cases none_pending.1
    · intro a b q befriended
      cases befriended
  fresh _ never := nomatch never
  idle _ := rfl

def proceeds (i : Option Bool) (statements : Nat) : List (Option Bool × Action) :=
  List.replicate statements (i, .proceed 0)

def sends (i : Option Bool) (a b : Nat) : List (Option Bool × Action) :=
  (i, .sendFriendRequest ⟨a, b, none⟩) :: proceeds i 5

def blockDuringSend : List (Option Bool × Action) :=
  sends none 1 2 ++ [(some true, .blockUser ⟨2, 1, none⟩)] ++ proceeds (some true) 3 ++
    proceeds none 2

def mutualSends : List (Option Bool × Action) :=
  sends none 1 2 ++ sends (some true) 2 1 ++ proceeds none 2 ++ proceeds (some true) 2

def acceptDuringSend : List (Option Bool × Action) :=
  sends none 1 2 ++ sends (some true) 2 1 ++ proceeds (some true) 2 ++
    [(some false, .reply .accept 1 1)] ++ proceeds (some false) 3 ++ proceeds none 2

def Quiescent (s : State ι Store Pc) : Prop :=
  Reachable (step next) Initial s ∧ ∀ i, (s.pc i).resting = true

theorem quiescent_of_run (calls : List (Option Bool × Action)) (p : Store → Bool)
    (h : (run (step next) strangers calls).any (fun s =>
      decide (∀ i, (s.pc i).resting = true) && p s.shared) = true) :
    ∃ s : State (Option Bool) Store Pc, Quiescent s ∧ p s.shared = true := by
  obtain ⟨s, ends, both⟩ := (Option.any_eq_true _ _).mp h
  simp only [Bool.and_eq_true, decide_eq_true_eq] at both
  exact ⟨s, ⟨reachable_of_run calls strangers_initial ends, both.1⟩, both.2⟩

theorem relationships_contested :
    (¬∀ s : State (Option Bool) Store Pc, Quiescent s → ∀ a b,
      s.shared.isBlocked a b = true → s.shared.Apart a b) ∧
    (¬∀ s : State (Option Bool) Store Pc, Quiescent s → ∀ a b p q,
      s.shared.Pending a b p → s.shared.Pending a b q → p = q) ∧
    ¬∀ s : State (Option Bool) Store Pc, Quiescent s → ∀ a b q,
      s.shared.areFriends a b = true → ¬s.shared.Pending a b q := by
  refine ⟨?_, ?_, ?_⟩
  · intro law
    obtain ⟨s, quiet, facts⟩ := quiescent_of_run blockDuringSend
      (fun c => c.isBlocked 2 1 && (c.getPendingRequest 1 2).isSome) (by decide +kernel)
    obtain ⟨blocks, asked⟩ := Bool.and_eq_true_iff.mp facts
    obtain ⟨q, found⟩ := Option.isSome_iff_exists.mp asked
    exact (law s quiet 2 1 blocks).2.2 q (Store.pending_of_get found).1.swap
  · intro law
    obtain ⟨s, quiet, facts⟩ := quiescent_of_run mutualSends
      (fun c => (c.getPendingRequest 1 2).isSome && (c.getPendingRequest 2 1).isSome)
      (by decide +kernel)
    obtain ⟨forth, back⟩ := Bool.and_eq_true_iff.mp facts
    obtain ⟨p, asked⟩ := Option.isSome_iff_exists.mp forth
    obtain ⟨q, asked_back⟩ := Option.isSome_iff_exists.mp back
    obtain ⟨first, sender⟩ := Store.pending_of_get asked
    obtain ⟨second, other⟩ := Store.pending_of_get asked_back
    rw [law s quiet 1 2 p q first second.swap, other] at sender
    cases sender
  · intro law
    obtain ⟨s, quiet, facts⟩ := quiescent_of_run acceptDuringSend
      (fun c => c.areFriends 1 2 && (c.getPendingRequest 1 2).isSome) (by decide +kernel)
    obtain ⟨befriended, asked⟩ := Bool.and_eq_true_iff.mp facts
    obtain ⟨q, found⟩ := Option.isSome_iff_exists.mp asked
    exact law s quiet 1 2 q befriended (Store.pending_of_get found).1

/-- User 1 asks, user 2 accepts, and later blocks him. -/
theorem relationships_consistent_blocked : ∃ s : State (Option Bool) Store Pc,
    s.shared.isBlocked 2 1 = true ∧ s.shared.Consistent ∧
      ∀ move t, step next s move = some t → (t.shared.Consistent ↔ Clear s move) := by
  let calls : List (Option Bool × Action) :=
    sends none 1 2 ++ proceeds none 2 ++ [(some true, .reply .accept 2 1)] ++
      proceeds (some true) 3 ++ [(some false, .blockUser ⟨2, 1, none⟩)] ++ proceeds (some false) 3
  have blocked : (runGuarded (step next) Clear strangers calls).any
      (fun s => s.shared.isBlocked 2 1) = true := by decide +kernel
  obtain ⟨s, ends, blocked⟩ := (Option.any_eq_true _ _).mp blocked
  exact ⟨s, blocked, relationships_consistent (guarded_of_run calls strangers_initial ends)⟩

end Plexichat.Relationships
