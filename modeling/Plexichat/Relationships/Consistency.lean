import Plexichat.Relationships.Operations

/-! What the tables of a pair of users say about each other, and which transactions keep it.
`accept_friend_request` looks for blocks once more in its transaction. -/
namespace Plexichat.Relationships
open Checks

namespace Store

def Pair (x y a b : Nat) : Prop := a = x ∧ b = y ∨ a = y ∧ b = x

def Pending (c : Store) (a b : Nat) (q : FriendRequest) : Prop :=
  q ∈ c.friendRequests ∧ q.status = .pending ∧ Pair q.senderId q.recipientId a b

def Apart (c : Store) (a b : Nat) : Prop :=
  c.areFriends a b = false ∧ c.areFriends b a = false ∧ ∀ q, ¬c.Pending a b q

structure Consistent (c : Store) : Prop where
  symmetric : ∀ a b, c.areFriends a b = true → c.areFriends b a = true
  blocked : ∀ a b, c.isBlocked a b = true → c.Apart a b
  single : ∀ a b p q, c.Pending a b p → c.Pending a b q → p = q
  settled : ∀ a b q, c.areFriends a b = true → ¬c.Pending a b q

/-- What `send_friend_request` has checked before its transaction. -/
def Uncontested (c : Store) (r : Send) : Prop :=
  c.isBlocked r.senderId r.recipientId = false ∧ c.isBlocked r.recipientId r.senderId = false ∧
    c.areFriends r.senderId r.recipientId = false ∧
      c.getPendingRequest r.recipientId r.senderId = none

structure Keeps (c c' : Store) : Prop where
  users : c'.users = c.users
  nextId : c.nextId ≤ c'.nextId
  rows : ∀ q' ∈ c'.friendRequests, (∃ q ∈ c.friendRequests, q.id = q'.id ∧
    q.senderId = q'.senderId ∧ q.recipientId = q'.recipientId) ∨
      c.nextId ≤ q'.id ∧ q'.id < c'.nextId

variable {c c' : Store} {a b now x y : Nat} {p : FriendRequest → Bool} {q row : FriendRequest}
  {status : FriendRequestStatus} {r : Send}

theorem Pair.swap (h : Pair x y a b) : Pair x y b a := by
  rcases h with ⟨first, second⟩ | ⟨first, second⟩
  · exact .inr ⟨second, first⟩
  · exact .inl ⟨second, first⟩

theorem Pending.swap (h : c.Pending a b q) : c.Pending b a q := ⟨h.1, h.2.1, h.2.2.swap⟩

theorem Pair.pending (h : Pair x y a b) : c.Pending a b q ↔ c.Pending x y q := by
  rcases h with ⟨rfl, rfl⟩ | ⟨rfl, rfl⟩
  · exact Iff.rfl
  · exact ⟨Pending.swap, Pending.swap⟩

theorem sent_iff : sent a b q = true ↔ q.senderId = a ∧ q.recipientId = b := by
  simp [sent]

theorem getPendingRequest_eq_none :
    c.getPendingRequest a b = none ↔
      ∀ q ∈ c.friendRequests, sent a b q = true → q.status ≠ .pending := by
  simp [getPendingRequest, Table.mem_rows]

theorem pending_of_get (h : c.getPendingRequest a b = some q) :
    c.Pending a b q ∧ q.senderId = a := by
  have open_ := List.find?_some h
  simp only [Bool.and_eq_true, sent_iff, decide_eq_true_eq] at open_
  obtain ⟨⟨sender, recipient⟩, pending⟩ := open_
  exact ⟨⟨List.mem_of_find?_eq_some h, pending, .inl ⟨sender.symm, recipient.symm⟩⟩, sender⟩

theorem pendingById_eq_some {id : Nat} :
    c.pendingById id = some q ↔ q ∈ c.friendRequests ∧ q.id = id ∧ q.status = .pending := by
  rw [pendingById, Option.filter_eq_some_iff, Table.find_eq_some, and_assoc]
  simp

theorem Keeps.of_rows (users : c'.users = c.users) (nextId : c.nextId ≤ c'.nextId)
    (rows : ∀ q' ∈ c'.friendRequests, ∃ q ∈ c.friendRequests, q.id = q'.id ∧
      q.senderId = q'.senderId ∧ q.recipientId = q'.recipientId) : c.Keeps c' :=
  ⟨users, nextId, fun q' member => .inl (rows q' member)⟩

theorem Consistent.shrink (h : c.Consistent)
    (symmetric : ∀ a b, c'.areFriends a b = true → c'.areFriends b a = true)
    (friends : ∀ a b, c'.areFriends a b = true → c.areFriends a b = true)
    (blocked : ∀ a b, c'.isBlocked a b = true → c.isBlocked a b = true ∨ c'.Apart a b)
    (pending : ∀ a b q, c'.Pending a b q → c.Pending a b q) : c'.Consistent where
  symmetric := symmetric
  blocked a b blocks := by
    rcases blocked a b blocks with before | apart
    · obtain ⟨forth, back, quiet⟩ := h.blocked a b before
      refine ⟨?_, ?_, fun q still => quiet q (pending a b q still)⟩
      · exact Bool.eq_false_iff.mpr fun still => by simp [friends a b still] at forth
      · exact Bool.eq_false_iff.mpr fun still => by simp [friends b a still] at back
    · exact apart
  single a b p q hp hq := h.single a b p q (pending a b p hp) (pending a b q hq)
  settled a b q still hq := h.settled a b q (friends a b still) (pending a b q hq)

section Statements

theorem areFriends_deleteFriends : (c.deleteFriends x y).areFriends a b = true ↔
    c.areFriends a b = true ∧ ¬(x = a ∧ y = b) := by
  simp only [areFriends, deleteFriends, Table.find_isSome, Table.mem_delete, Prod.mk.injEq]
  constructor
  · intro h
    obtain ⟨f, ⟨member, kept⟩, here⟩ := h
    refine ⟨⟨f, member, here⟩, ?_⟩
    intro same
    simp [here, same] at kept
  · intro h
    obtain ⟨⟨f, member, rfl, rfl⟩, other⟩ := h
    have elsewhere : ¬(f.userId = x ∧ f.friendId = y) :=
      fun same => other ⟨same.1.symm, same.2.symm⟩
    exact ⟨f, ⟨member, by simpa using elsewhere⟩, rfl, rfl⟩

@[simp] theorem areFriends_settle :
    (c.settle now p status).areFriends a b = c.areFriends a b := rfl

@[simp] theorem isBlocked_settle :
    (c.settle now p status).isBlocked a b = c.isBlocked a b := rfl

theorem mem_settle : q ∈ (c.settle now p status).friendRequests ↔ ∃ old ∈ c.friendRequests,
    q = if p old && old.status = .pending then { old with status, updatedAt := now } else old := by
  rw [settle, Table.mem_update]

theorem pending_settle (moved : status ≠ .pending)
    (h : (c.settle now p status).Pending a b q) : c.Pending a b q ∧ p q = false := by
  obtain ⟨member, open_, parties⟩ := h
  obtain ⟨old, there, rfl⟩ := mem_settle.mp member
  split at open_
  · exact absurd open_ moved
  · rename_i untouched
    rw [if_neg untouched] at parties ⊢
    exact ⟨⟨there, open_, parties⟩, by simpa [open_] using untouched⟩

theorem settle_keeps : c.Keeps (c.settle now p status) := by
  refine .of_rows rfl (Nat.le_refl _) ?_
  intro q' member
  obtain ⟨q, there, rfl⟩ := mem_settle.mp member
  refine ⟨q, there, ?_⟩
  split <;> exact ⟨rfl, rfl, rfl⟩

theorem settleOne_eq_ok {id : Nat} (h : c.settleOne now id status = .ok c') :
    (∃ q, c.pendingById id = some q) ∧ c' = c.settle now (fun q => q.id = id) status := by
  simp only [settleOne, ensure_bind_eq_ok, pure_eq_ok] at h
  exact ⟨Option.isSome_iff_exists.mp h.1, h.2.symm⟩

theorem insertFriend_eq_ok (h : c.insertFriend now x y = .ok c') :
    c'.users = c.users ∧ c'.friendRequests = c.friendRequests ∧ c'.blocked = c.blocked ∧
      c.nextId ≤ c'.nextId ∧
        ∀ a b, c'.areFriends a b = true ↔ c.areFriends a b = true ∨ x = a ∧ y = b := by
  simp only [insertFriend, ensure_bind_eq_ok, pure_eq_ok] at h
  obtain ⟨-, rfl⟩ := h
  refine ⟨rfl, rfl, rfl, Nat.le_succ _, ?_⟩
  intro a b
  simp only [areFriends, Table.insertOrIgnore]
  cases found : c.friends.find (x, y) with
  | none =>
    obtain ⟨t, inserted⟩ := Table.insert_of_fresh (r := (⟨c.nextId, x, y, now⟩ : Friend)) found
    rw [inserted, Option.getD_some, Table.find_insert inserted]
    by_cases here : x = a ∧ y = b
    · simp [here]
    · simp [here]
  | some f =>
    have used := Table.insert_of_used (r := (⟨c.nextId, x, y, now⟩ : Friend)) found
    rw [used, Option.getD_none]
    constructor
    · exact fun friends => .inl friends
    · rintro (friends | ⟨rfl, rfl⟩)
      · exact friends
      · exact Option.isSome_iff_exists.mpr ⟨f, found⟩

end Statements

section Transactions

theorem createRequest_eq_ok (h : c.createRequest now r = .ok c') :
    (∀ q ∈ c.friendRequests, sent r.senderId r.recipientId q = true → q.status ≠ .pending) ∧
      c'.users = c.users ∧ c'.friends = c.friends ∧ c'.blocked = c.blocked ∧
        c.nextId < c'.nextId ∧ ∀ q, q ∈ c'.friendRequests ↔
          (q ∈ c.friendRequests ∧ sent r.senderId r.recipientId q = false) ∨
            q = ⟨c.nextId, r.senderId, r.recipientId, .pending, r.message, now, now⟩ := by
  simp only [createRequest, insertRequest, ensure_bind_eq_ok, found_bind_eq_ok, pure_eq_ok] at h
  obtain ⟨-, unique, -, t, inserted, rfl⟩ := h
  have alone : ∀ q ∈ c.friendRequests, sent r.senderId r.recipientId q = true →
      q.status ≠ .pending := by
    intro q member same open_
    have kept : q ∈ c.friendRequests.delete fun q =>
        sent r.senderId r.recipientId q && q.status ≠ .pending :=
      Table.mem_delete.mpr ⟨member, by simp [open_]⟩
    have used := List.any_eq_false.mp unique q kept
    exact used same
  refine ⟨alone, rfl, rfl, rfl, Nat.lt_succ_self _, ?_⟩
  intro q
  rw [Table.mem_insert inserted, Table.mem_delete]
  apply or_congr_left
  apply and_congr_right
  intro member
  constructor
  · intro kept
    by_contra same
    have same : sent r.senderId r.recipientId q = true := by simpa using same
    simp [same, alone q member same] at kept
  · intro other
    simp [other]

theorem createRequest_keeps (h : c.createRequest now r = .ok c') : c.Keeps c' := by
  obtain ⟨-, users, -, -, later, rows⟩ := createRequest_eq_ok h
  refine ⟨users, Nat.le_of_lt later, ?_⟩
  intro q' member
  rcases (rows q').mp member with ⟨before, -⟩ | rfl
  · exact .inl ⟨q', before, rfl, rfl, rfl⟩
  · exact .inr ⟨Nat.le_refl _, later⟩

theorem createRequest_pending (h : c.createRequest now r = .ok c') :
    c'.Pending a b q ↔ c.Pending a b q ∨ Pair r.senderId r.recipientId a b ∧
      q = ⟨c.nextId, r.senderId, r.recipientId, .pending, r.message, now, now⟩ := by
  obtain ⟨alone, -, -, -, -, rows⟩ := createRequest_eq_ok h
  constructor
  · intro pending
    rcases (rows q).mp pending.1 with ⟨before, -⟩ | rfl
    · exact .inl ⟨before, pending.2⟩
    · exact .inr ⟨pending.2.2, rfl⟩
  · intro either
    rcases either with ⟨before, open_, parties⟩ | ⟨parties, rfl⟩
    · refine ⟨(rows q).mpr (.inl ⟨before, ?_⟩), open_, parties⟩
      by_contra same
      exact alone q before (by simpa using same) open_
    · exact ⟨(rows _).mpr (.inr rfl), rfl, parties⟩

/-- The cooldown and a pending request are all that keeps the transaction from committing. -/
theorem createRequest_commits (fresh : ∀ q ∈ c.friendRequests, q.id < c.nextId)
    (users : c.users r.senderId = true ∧ c.users r.recipientId = true)
    (rested : c.cooling now r.senderId r.recipientId = false)
    (quiet : c.getPendingRequest r.senderId r.recipientId = none) :
    ∃ c', c.createRequest now r = .ok c' := by
  let rest := c.friendRequests.delete fun q =>
    sent r.senderId r.recipientId q && q.status ≠ .pending
  let new : FriendRequest :=
    ⟨c.nextId, r.senderId, r.recipientId, .pending, r.message, now, now⟩
  have unique : rest.rows.any (sent r.senderId r.recipientId) = false := by
    rw [List.any_eq_false]
    intro q kept same
    obtain ⟨member, apart⟩ := Table.mem_delete.mp (Table.mem_rows.mpr kept)
    simp [same, getPendingRequest_eq_none.mp quiet q member same] at apart
  have unused : rest.find new.id = none := by
    rw [Table.find_eq_none]
    intro q kept same
    have below := fresh q (Table.mem_delete.mp kept).1
    exact Nat.lt_irrefl _ (same ▸ below)
  obtain ⟨t, inserted⟩ := Table.insert_of_fresh unused
  refine ⟨{ c with nextId := c.nextId + 1, friendRequests := t }, ?_⟩
  simp only [createRequest, insertRequest, ensure_bind_eq_ok, found_bind_eq_ok, pure_eq_ok]
  exact ⟨rested, unique, users, t, inserted, rfl⟩

theorem createRequest_consistent_iff (h : c.createRequest now r = .ok c') (before : c.Consistent)
    (other : r.senderId ≠ r.recipientId) : c'.Consistent ↔ c.Uncontested r := by
  obtain ⟨alone, -, friends, blocked, -, -⟩ := createRequest_eq_ok h
  have new : c'.Pending r.senderId r.recipientId
      ⟨c.nextId, r.senderId, r.recipientId, .pending, r.message, now, now⟩ :=
    (createRequest_pending h).mpr (.inr ⟨.inl ⟨rfl, rfl⟩, rfl⟩)
  have areFriends : ∀ a b, c'.areFriends a b = c.areFriends a b := by
    intro a b
    rw [Store.areFriends, friends, Store.areFriends]
  have isBlocked : ∀ a b, c'.isBlocked a b = c.isBlocked a b := by
    intro a b
    rw [Store.isBlocked, blocked, Store.isBlocked]
  constructor
  · intro after
    refine ⟨?_, ?_, ?_, ?_⟩
    · by_contra blocks
      rw [Bool.not_eq_false, ← isBlocked] at blocks
      exact (after.blocked _ _ blocks).2.2 _ new
    · by_contra blocks
      rw [Bool.not_eq_false, ← isBlocked] at blocks
      exact (after.blocked _ _ blocks).2.2 _ new.swap
    · by_contra befriended
      rw [Bool.not_eq_false, ← areFriends] at befriended
      exact after.settled _ _ _ befriended new
    · rw [getPendingRequest_eq_none]
      intro q member reverse open_
      have crossing : c'.Pending r.senderId r.recipientId q := by
        obtain ⟨sender, recipient⟩ := sent_iff.mp reverse
        exact (createRequest_pending h).mpr
          (.inl ⟨member, open_, .inr ⟨recipient.symm, sender.symm⟩⟩)
      have same := after.single _ _ _ _ crossing new
      subst same
      exact other (sent_iff.mp reverse).1
  · intro clear
    obtain ⟨forth, back, strangers, quiet⟩ := clear
    have unfriended : c.areFriends r.recipientId r.senderId = false := by
      by_contra befriended
      have both := before.symmetric _ _ (by simpa using befriended)
      simp [strangers] at both
    have unasked : ∀ q, ¬c.Pending r.senderId r.recipientId q := by
      intro q pending
      obtain ⟨member, open_, ⟨sender, recipient⟩ | ⟨recipient, sender⟩⟩ := pending
      · exact alone q member (sent_iff.mpr ⟨sender.symm, recipient.symm⟩) open_
      · exact getPendingRequest_eq_none.mp quiet q member
          (sent_iff.mpr ⟨sender.symm, recipient.symm⟩) open_
    refine ⟨?_, ?_, ?_, ?_⟩
    · intro a b befriended
      rw [areFriends] at befriended ⊢
      exact before.symmetric a b befriended
    · intro a b blocks
      rw [isBlocked] at blocks
      obtain ⟨one, two, none_pending⟩ := before.blocked a b blocks
      refine ⟨by rw [areFriends, one], by rw [areFriends, two], ?_⟩
      intro q pending
      rcases (createRequest_pending h).mp pending with old | ⟨⟨rfl, rfl⟩ | ⟨rfl, rfl⟩, -⟩
      · exact none_pending q old
      · simp [forth] at blocks
      · simp [back] at blocks
    · intro a b p q first second
      rcases (createRequest_pending h).mp first with old | ⟨pair, rfl⟩
      · rcases (createRequest_pending h).mp second with older | ⟨pair, -⟩
        · exact before.single a b p q old older
        · exact absurd (pair.pending.mp old) (unasked p)
      · rcases (createRequest_pending h).mp second with old | ⟨-, rfl⟩
        · exact absurd (pair.pending.mp old) (unasked q)
        · rfl
    · intro a b q befriended pending
      rw [areFriends] at befriended
      rcases (createRequest_pending h).mp pending with old | ⟨⟨rfl, rfl⟩ | ⟨rfl, rfl⟩, -⟩
      · exact before.settled a b q befriended old
      · simp [strangers] at befriended
      · simp [unfriended] at befriended

theorem acceptRequest_eq_ok (h : c.acceptRequest now row = .ok c') :
    c.isBlocked row.senderId row.recipientId = false ∧
    c.isBlocked row.recipientId row.senderId = false ∧
    (∃ q, c.pendingById row.id = some q) ∧ c.Keeps c' ∧ c'.blocked = c.blocked ∧
    (∀ a b, c'.areFriends a b = true ↔
      c.areFriends a b = true ∨ Pair row.senderId row.recipientId a b) ∧
    ∀ a b q, c'.Pending a b q → c.Pending a b q ∧ q.id ≠ row.id := by
  obtain ⟨⟨free, free_back⟩, later⟩ := ensure_bind_eq_ok.mp h
  obtain ⟨settled, one, later⟩ := returned_bind later
  obtain ⟨first, forth, back⟩ := returned_bind later
  obtain ⟨held, rfl⟩ := settleOne_eq_ok one
  obtain ⟨users, rows, blocks, ids, friends⟩ := insertFriend_eq_ok forth
  obtain ⟨users', rows', blocks', ids', friends'⟩ := insertFriend_eq_ok back
  refine ⟨free, free_back, held, ?_, blocks'.trans blocks, ?_, ?_⟩
  · refine ⟨users'.trans users, Nat.le_trans ids ids', ?_⟩
    intro q' member
    rw [rows', rows] at member
    rcases settle_keeps.rows q' member with kept | ⟨above, below⟩
    · exact .inl kept
    · exact absurd above (Nat.not_le_of_lt below)
  · intro a b
    rw [friends', friends, areFriends_settle, or_assoc]
    simp only [Pair, eq_comm]
  · intro a b q pending
    have settled : (c.settle now (fun q => q.id = row.id) .accepted).Pending a b q := by
      obtain ⟨member, rest⟩ := pending
      rw [rows', rows] at member
      exact ⟨member, rest⟩
    obtain ⟨old, other⟩ := pending_settle (by decide) settled
    exact ⟨old, by simpa using other⟩

theorem acceptRequest_consistent (h : c.acceptRequest now row = .ok c') (before : c.Consistent)
    (known : ∀ q ∈ c.friendRequests, q.id = row.id →
      q.senderId = row.senderId ∧ q.recipientId = row.recipientId) : c'.Consistent := by
  obtain ⟨free, free_back, ⟨held, found⟩, -, blocks, friends, pending⟩ := acceptRequest_eq_ok h
  obtain ⟨member, held_id, open_⟩ := pendingById_eq_some.mp found
  obtain ⟨sender, recipient⟩ := known held member held_id
  have asked : c.Pending row.senderId row.recipientId held :=
    ⟨member, open_, .inl ⟨sender.symm, recipient.symm⟩⟩
  have isBlocked : ∀ a b, c'.isBlocked a b = c.isBlocked a b := by
    intro a b
    rw [Store.isBlocked, blocks, Store.isBlocked]
  have answered : ∀ q, ¬c'.Pending row.senderId row.recipientId q := by
    intro q still
    obtain ⟨old, other⟩ := pending _ _ q still
    exact other (before.single _ _ q held old asked ▸ held_id)
  refine ⟨?_, ?_, ?_, ?_⟩
  · intro a b befriended
    rw [friends] at befriended ⊢
    rcases befriended with old | new
    · exact .inl (before.symmetric a b old)
    · exact .inr new.swap
  · intro a b blocked
    rw [isBlocked] at blocked
    obtain ⟨forth, back, quiet⟩ := before.blocked a b blocked
    have elsewhere : ¬Pair row.senderId row.recipientId a b := by
      rintro (⟨rfl, rfl⟩ | ⟨rfl, rfl⟩)
      · simp [free] at blocked
      · simp [free_back] at blocked
    have strangers : ∀ x y, c.areFriends x y = false → ¬Pair row.senderId row.recipientId x y →
        c'.areFriends x y = false := by
      intro x y old other
      by_contra befriended
      rcases (friends x y).mp (by simpa using befriended) with still | pair
      · simp [old] at still
      · exact other pair
    exact ⟨strangers a b forth elsewhere, strangers b a back fun pair => elsewhere pair.swap,
      fun q still => quiet q (pending a b q still).1⟩
  · intro a b p q first second
    exact before.single a b p q (pending a b p first).1 (pending a b q second).1
  · intro a b q befriended still
    rcases (friends a b).mp befriended with old | pair
    · exact before.settled a b q old (pending a b q still).1
    · exact answered q (pair.pending.mp still)

theorem areFriends_deleteFriendship : (c.deleteFriendship x y).areFriends a b = true ↔
    c.areFriends a b = true ∧ ¬Pair x y a b := by
  rw [deleteFriendship, areFriends_deleteFriends, areFriends_deleteFriends, and_assoc, Pair]
  apply and_congr_right
  intro _
  rw [← not_or, not_iff_not]
  simp only [eq_comm]

theorem deleteFriendship_consistent (before : c.Consistent) :
    (c.deleteFriendship x y).Consistent := by
  refine before.shrink ?_ ?_ (fun a b blocks => .inl blocks) fun a b q pending => pending
  · intro a b befriended
    rw [areFriends_deleteFriendship] at befriended ⊢
    exact ⟨before.symmetric a b befriended.1, fun pair => befriended.2 pair.swap⟩
  · intro a b befriended
    exact (areFriends_deleteFriendship.mp befriended).1

theorem settle_consistent (before : c.Consistent) (moved : status ≠ .pending) :
    (c.settle now p status).Consistent :=
  before.shrink before.symmetric (fun _ _ befriended => befriended)
    (fun _ _ blocks => .inl blocks) fun _ _ _ pending => (pending_settle moved pending).1

theorem deleteBlock_consistent (before : c.Consistent) : (c.deleteBlock x y).Consistent := by
  refine before.shrink before.symmetric (fun _ _ befriended => befriended) ?_
    fun _ _ _ pending => pending
  intro a b blocks
  obtain ⟨row, remains, here⟩ := Table.find_isSome.mp blocks
  exact .inl (Table.find_isSome.mpr ⟨row, (Table.mem_delete.mp remains).1, here⟩)

theorem areFriends_unfriend
    (symmetric : ∀ a b, c.areFriends a b = true → c.areFriends b a = true) :
    (c.unfriend x y).areFriends a b = true ↔ c.areFriends a b = true ∧ ¬Pair x y a b := by
  unfold unfriend
  split
  · exact areFriends_deleteFriendship
  · rename_i strangers
    refine ⟨fun befriended => ⟨befriended, ?_⟩, And.left⟩
    rintro (⟨rfl, rfl⟩ | ⟨rfl, rfl⟩)
    · exact strangers befriended
    · exact strangers (symmetric _ _ befriended)

theorem unfriend_rest (c : Store) (x y : Nat) : (c.unfriend x y).friendRequests = c.friendRequests ∧
    (c.unfriend x y).blocked = c.blocked ∧ (c.unfriend x y).nextId = c.nextId ∧
      (c.unfriend x y).users = c.users := by
  unfold unfriend
  split <;> exact ⟨rfl, rfl, rfl, rfl⟩

theorem createBlock_eq_ok {b : Block} (h : c.createBlock now b = .ok c') : ∃ blocked,
    c.blocked.insert ⟨c.nextId, b.blockerId, b.blockedId, b.reason, now⟩ = some blocked ∧
      c' = ({ c with blocked, nextId := c.nextId + 1 }.unfriend b.blockerId b.blockedId).settle now
        (fun q => sent b.blockerId b.blockedId q || sent b.blockedId b.blockerId q) .declined := by
  simp only [createBlock, ensure_bind_eq_ok, found_bind_eq_ok, pure_eq_ok] at h
  obtain ⟨-, blocked, inserted, rfl⟩ := h
  exact ⟨blocked, inserted, rfl⟩

theorem createBlock_keeps {b : Block} (h : c.createBlock now b = .ok c') : c.Keeps c' := by
  obtain ⟨blocked, -, rfl⟩ := createBlock_eq_ok h
  obtain ⟨rows, -, ids, users⟩ :=
    unfriend_rest { c with blocked, nextId := c.nextId + 1 } b.blockerId b.blockedId
  refine .of_rows users (Nat.le_of_lt (Nat.lt_of_lt_of_eq (Nat.lt_succ_self _) ids.symm)) ?_
  intro q' member
  rcases settle_keeps.rows q' member with kept | ⟨above, below⟩
  · rwa [rows] at kept
  · exact absurd above (Nat.not_le_of_lt below)

theorem createBlock_consistent {b : Block} (h : c.createBlock now b = .ok c')
    (before : c.Consistent) : c'.Consistent := by
  obtain ⟨blocked, inserted, rfl⟩ := createBlock_eq_ok h
  let blocking : Store := { c with blocked, nextId := c.nextId + 1 }
  have rows : (blocking.unfriend b.blockerId b.blockedId).friendRequests = c.friendRequests :=
    (unfriend_rest blocking b.blockerId b.blockedId).1
  have blocks : (blocking.unfriend b.blockerId b.blockedId).blocked = blocked :=
    (unfriend_rest blocking b.blockerId b.blockedId).2.1
  have friends : ∀ x y, (blocking.unfriend b.blockerId b.blockedId).areFriends x y = true ↔
      c.areFriends x y = true ∧ ¬Pair b.blockerId b.blockedId x y :=
    fun _ _ => areFriends_unfriend before.symmetric
  have declined : ∀ x y q, ((blocking.unfriend b.blockerId b.blockedId).settle now (fun q =>
      sent b.blockerId b.blockedId q || sent b.blockedId b.blockerId q) .declined).Pending x y q →
      c.Pending x y q ∧ ¬Pair b.blockerId b.blockedId x y := by
    intro x y q still
    obtain ⟨⟨member, open_, parties⟩, apart⟩ := pending_settle (by decide) still
    rw [rows] at member
    refine ⟨⟨member, open_, parties⟩, fun pair => ?_⟩
    obtain ⟨-, -, both⟩ := pair.pending.mp ⟨member, open_, parties⟩
    rcases both with ⟨sender, recipient⟩ | ⟨recipient, sender⟩
    · simp [sent, sender, recipient] at apart
    · simp [sent, sender, recipient] at apart
  refine before.shrink ?_ (fun x y befriended => ((friends x y).mp befriended).1) ?_
    fun x y q still => (declined x y q still).1
  · intro x y befriended
    rw [areFriends_settle, friends] at befriended ⊢
    exact ⟨before.symmetric x y befriended.1, fun pair => befriended.2 pair.swap⟩
  · intro x y blocked_now
    rw [isBlocked_settle, isBlocked, blocks, Table.find_insert inserted] at blocked_now
    split at blocked_now
    · rename_i here
      have pair : Pair b.blockerId b.blockedId x y :=
        .inl ⟨(congrArg Prod.fst here).symm, (congrArg Prod.snd here).symm⟩
      have strangers : ∀ u v, Pair b.blockerId b.blockedId u v →
          (blocking.unfriend b.blockerId b.blockedId).areFriends u v = false := by
        intro u v same
        by_contra befriended
        exact ((friends u v).mp (by simpa using befriended)).2 same
      exact .inr ⟨strangers x y pair, strangers y x pair.swap,
        fun q still => (declined x y q still).2 pair⟩
    · exact .inl blocked_now

end Transactions

end Store

end Plexichat.Relationships
