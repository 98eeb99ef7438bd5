import Plexichat.Library.CursorWalk
import Plexichat.Library.Layers
import Plexichat.Messaging.Conversations

/-! get_conversations: the pages come in the order of activity, and the cursor is an id. -/
namespace Plexichat.Messaging.ConversationPages
open Layers

/-- The columns of msg_conversations that the list of a user reads. -/
structure ActivityRow where
  id : Nat
  conversationType : ConversationType
  createdAt : Nat
  lastMessageAt : Option Nat
  deleted : Bool
  deriving DecidableEq

structure Inbox where
  conversations : Table ActivityRow ActivityRow.id
  participants : Table ParticipantRow ParticipantRow.key

/-- `COALESCE(c.last_message_at, c.created_at)`. -/
def ActivityRow.activity (c : ActivityRow) : Nat := c.lastMessageAt.getD c.createdAt

def listed (db : Inbox) (userId : Nat) (conversationType : Option ConversationType) :
    List ActivityRow :=
  db.conversations.rows.filter fun c =>
    (db.participants.find (c.id, userId)).isSome && !c.deleted &&
      conversationType.all (· = c.conversationType)

def newestFirst (rows : List ActivityRow) : List ActivityRow :=
  byRank (fun c => -(c.activity : Int)) rows

/-- `get_user_conversations`; a cursor of zero is no cursor. -/
def getUserConversations (db : Inbox) (userId limit : Nat) (beforeId : Option Nat)
    (conversationType : Option ConversationType) : List ActivityRow :=
  (newestFirst ((listed db userId conversationType).filter fun c =>
    (beforeId.filter (· ≠ 0)).all (c.id < ·))).take limit

/-- `max(0, min(limit, 100))`. -/
def pageSize (limit : Int) : Nat := (max 0 (min limit 100)).toNat

def getConversations (db : Inbox) (userId : Nat) (limit : Int) (beforeId : Option Nat)
    (conversationType : Option ConversationType) : List ActivityRow :=
  getUserConversations db userId (pageSize limit) beforeId conversationType

inductive Follows (db : Inbox) (userId : Nat) (limit : Int)
    (conversationType : Option ConversationType) : Option Nat → List ActivityRow → Prop
  | stop {before : Option Nat}
      (empty : getConversations db userId limit before conversationType = []) :
      Follows db userId limit conversationType before []
  | next {before : Option Nat} {c : ActivityRow} {later : List ActivityRow}
      (last : (getConversations db userId limit before conversationType).getLast? = some c)
      (more : Follows db userId limit conversationType (some c.id) later) :
      Follows db userId limit conversationType before
        (getConversations db userId limit before conversationType ++ later)

def SeesEachOnce (db : Inbox) (userId : Nat) (limit : Int)
    (conversationType : Option ConversationType) : Prop :=
  ∃ seen, Follows db userId limit conversationType none seen ∧
    seen.Perm (listed db userId conversationType)

variable {db : Inbox} {userId : Nat} {limit : Int} {type : Option ConversationType}

theorem getConversations_eq_page (before : Option Nat) :
    getConversations db userId limit before type =
      CursorWalk.page ActivityRow.id (newestFirst (listed db userId type)) (pageSize limit)
        (before.getD 0) := by
  unfold getConversations getUserConversations newestFirst CursorWalk.page
  rw [byRank_filter]
  congr 2
  funext c
  cases before with
  | none => rfl
  | some b =>
    by_cases zero : b = 0
    · simp [zero]
    · simp [zero, Option.filter]

theorem follows_iff_walk {before : Option Nat} {seen : List ActivityRow} :
    Follows db userId limit type before seen ↔
      CursorWalk.Walk ActivityRow.id (newestFirst (listed db userId type)) (pageSize limit)
        (before.getD 0) seen := by
  constructor
  · intro follows
    induction follows with
    | stop empty =>
      rw [getConversations_eq_page] at empty
      exact .stop empty
    | next last _ ih =>
      rw [getConversations_eq_page] at last ⊢
      exact .next last ih
  · intro walk
    generalize cursor : before.getD 0 = b at walk
    induction walk generalizing before with
    | stop empty =>
      subst cursor
      exact .stop (getConversations_eq_page before ▸ empty)
    | next last _ ih =>
      subst cursor
      rw [← getConversations_eq_page] at last ⊢
      exact .next last (ih rfl)

theorem listed_unique (db : Inbox) (userId : Nat) (type : Option ConversationType) :
    ((newestFirst (listed db userId type)).map ActivityRow.id).Nodup := by
  have kept : ((listed db userId type).map ActivityRow.id).Nodup :=
    db.conversations.unique.sublist (List.filter_sublist.map _)
  exact (((List.perm_insertionSort _ (listed db userId type)).map _).nodup_iff).mpr kept

/-- Every conversation is seen once if and only if, in the order of activity, the end of each
page has a smaller id than what came before it and a greater one than what comes after. -/
theorem pages_complete_iff :
    SeesEachOnce db userId limit type ↔ listed db userId type = [] ∨
      0 < limit ∧ (∀ c ∈ listed db userId type, c.id ≠ 0) ∧
        CursorWalk.PagesSeparate ActivityRow.id (newestFirst (listed db userId type))
          (pageSize limit) := by
  have sorted : (newestFirst (listed db userId type)).Perm (listed db userId type) :=
    List.perm_insertionSort _ _
  have once : SeesEachOnce db userId limit type ↔ CursorWalk.VisitsOnce ActivityRow.id
      (newestFirst (listed db userId type)) (pageSize limit) := by
    refine exists_congr fun seen => and_congr follows_iff_walk ?_
    exact ⟨fun all => all.trans sorted.symm, fun all => all.trans sorted⟩
  rw [once, CursorWalk.visitsOnce_iff (listed_unique db userId type)]
  have positive : 0 < pageSize limit ↔ 0 < limit := by
    unfold pageSize
    omega
  have nonzero : (∀ c ∈ newestFirst (listed db userId type), c.id ≠ 0) ↔
      ∀ c ∈ listed db userId type, c.id ≠ 0 := by simp [newestFirst]
  have empty : newestFirst (listed db userId type) = [] ↔ listed db userId type = [] := by
    rw [← List.length_eq_zero_iff, sorted.length_eq, List.length_eq_zero_iff]
  rw [positive, nonzero, empty]

def inboxOf (rows : List (Nat × Nat)) (unique : (rows.map Prod.fst).Nodup) : Inbox where
  conversations := ⟨rows.map fun r => ⟨r.1, .group, 0, some r.2, false⟩, by
    rw [List.map_map]
    exact unique⟩
  participants := ⟨rows.map fun r => ⟨r.1, 3, .member, 0⟩, by
    have keys : (rows.map fun r => ((r.1, 3) : Nat × Nat)) = (rows.map Prod.fst).map (·, 3) := by
      rw [List.map_map]
      rfl
    rw [List.map_map]
    exact keys ▸ unique.map fun _ _ same => congrArg Prod.fst same⟩

def revived : Inbox := inboxOf [(1, 20), (2, 10)] (by decide)

/-- Page one ends with conversation 1, and nothing has a smaller id. -/
theorem quiet_conversation_never_listed : ¬ ∀ db userId limit type,
    SeesEachOnce db userId limit type := by
  intro law
  obtain ⟨seen, follows, perm⟩ := law revived 3 1 none
  have first : getConversations revived 3 1 none none = [⟨1, .group, 0, some 20, false⟩] := by decide
  have second : getConversations revived 3 1 (some 1) none = [] := by decide
  have size := perm.length_eq
  cases follows with
  | stop empty =>
    rw [first] at empty
    cases empty
  | next last more =>
    rw [first, List.getLast?_singleton, Option.some_inj] at last
    subst last
    cases more with
    | stop _ =>
      rw [first] at size
      exact absurd size (by decide)
    | next last _ =>
      have more : (getConversations revived 3 1 (some 1) none).getLast? = some _ := last
      rw [second] at more
      cases more

end Plexichat.Messaging.ConversationPages
