import Mathlib.Data.List.Dedup
import Plexichat.Library.Table
import Plexichat.Library.Transition

/-! notifications: the rows of notif_notifications and the counters of notif_unread. -/
namespace Plexichat.Notifications
open Transition

section Code

/-- What the notifications of a message have in common. -/
structure Post where
  messageId : Nat
  conversationId : Nat
  serverId : Option Nat
  channelId : Option Nat
  threadId : Option Nat

structure Notification extends Post where
  id : Nat
  userId : Nat
  read : Bool

structure Unread where
  userId : Nat
  conversationId : Nat
  unreadCount : Nat
  mentionCount : Nat

def Unread.key (r : Unread) : Nat × Nat := (r.userId, r.conversationId)

structure Database where
  notifications : Table Notification Notification.id
  unread : Table Unread Unread.key

def Database.empty : Database := ⟨Table.empty, Table.empty⟩

def Database.notified (db : Database) (messageId userId : Nat) : Bool :=
  db.notifications.rows.any fun n => n.userId == userId && n.messageId == messageId

/-- INSERT OR IGNORE under UNIQUE(user_id, message_id) and the key. -/
def Database.insertNotification (db : Database) (n : Notification) : Database :=
  if db.notified n.messageId n.userId then db
  else { db with notifications := db.notifications.insertOrIgnore n }

def Unread.count (amount : Nat) (r : Unread) : Unread :=
  { r with unreadCount := r.unreadCount + 1, mentionCount := r.mentionCount + amount }

theorem Unread.count_key (amount : Nat) (r : Unread) : (r.count amount).key = r.key := rfl

def Database.updateUnreadCount (db : Database) (conv : Nat) (isMention : Bool) (userId : Nat) :
    Database :=
  let amount := if isMention then 1 else 0
  let unread := db.unread.upsert ⟨userId, conv, 1, amount⟩ (Unread.count amount)
    (Unread.count_key amount)
  { db with unread }

def Unread.uncount (amount : Nat) (r : Unread) : Unread :=
  { r with unreadCount := r.unreadCount - amount, mentionCount := r.mentionCount - amount }

theorem Unread.uncount_key (amount : Nat) (r : Unread) : (r.uncount amount).key = r.key := rfl

/-- `_decrement_mention_count` and `_decrement_unread_count` -/
def Database.decrement (db : Database) (userId conv amount : Nat) : Database :=
  let unread := db.unread.update (fun r => r.key = (userId, conv)) (Unread.uncount amount)
    (Unread.uncount_key amount)
  { db with unread }

/-- The ids that are generated, with their users. The lookup of those who have a notification of
the message finds nobody when it raises. -/
def createNotificationsBulk (db : Database) (post : Post) (looked : Bool)
    (users : List (Nat × Nat)) : Database :=
  let users := users.filter fun x => !(looked && db.notified post.messageId x.2)
  let inserted := users.foldl (fun db x => db.insertNotification ⟨post, x.1, x.2, false⟩) db
  (users.map Prod.snd).foldl (·.updateUnreadCount post.conversationId true) inserted

/-- An alert to a moderator: `_create_notification`, and the counters if the row is there. -/
def alert (db : Database) (post : Post) (notifId userId : Nat) : Database :=
  let inserted := db.insertNotification ⟨post, notifId, userId, false⟩
  if (inserted.notifications.find notifId).isSome then
    inserted.updateUnreadCount post.conversationId true userId
  else inserted

def Notification.seen (n : Notification) : Notification := { n with read := true }

theorem Notification.seen_id (n : Notification) : n.seen.id = n.id := rfl

def Database.setRead (db : Database) (p : Notification → Bool) : Database :=
  let notifications := db.notifications.update (fun n => p n && !n.read) Notification.seen
    Notification.seen_id
  { db with notifications }

/-- None is NotificationNotFoundError. -/
def markNotificationRead (db : Database) (userId id : Nat) : Option Database :=
  (db.notifications.find id).bind fun n =>
    if n.userId ≠ userId then none
    else if n.read then some db
    else some ((db.setRead (·.id = id)).decrement userId n.conversationId 1)

def Unread.clear (r : Unread) : Unread := { r with unreadCount := 0, mentionCount := 0 }

theorem Unread.clear_key (r : Unread) : r.clear.key = r.key := rfl

def markAllRead (db : Database) (userId : Nat) : Database :=
  let unread := db.unread.update (·.userId = userId) Unread.clear Unread.clear_key
  { db.setRead (·.userId == userId) with unread }

/-- The statements of mark_channel_read and its like: the unread rows by conversation, then the
update, then the counters. -/
def markRead (db : Database) (userId : Nat) (p : Notification → Bool) : Database :=
  let marked := db.notifications.rows.filter fun n => n.userId == userId && p n && !n.read
  (marked.map (·.conversationId)).dedup.foldl
    (fun db conv => db.decrement userId conv (marked.countP (·.conversationId = conv)))
    (db.setRead fun n => n.userId == userId && p n)

def markChannelRead (db : Database) (userId channelId : Nat) : Database :=
  markRead db userId (·.channelId == some channelId)

def markServerRead (db : Database) (userId serverId : Nat) : Database :=
  markRead db userId (·.serverId == some serverId)

def markThreadRead (db : Database) (userId threadId : Nat) : Database :=
  markRead db userId (·.threadId == some threadId)

def deleteNotification (db : Database) (userId id : Nat) : Option Database :=
  (db.notifications.find id).bind fun n =>
    if n.userId ≠ userId then none
    else
      let counted := if n.read then db else db.decrement userId n.conversationId 1
      some { counted with notifications := counted.notifications.delete (·.id = id) }

/-- The entry of a conversation -/
def getUnreadCounts (db : Database) (userId conv : Nat) : Option (Nat × Nat) :=
  (db.unread.find (userId, conv)).bind fun r =>
    if 0 < r.unreadCount ∨ 0 < r.mentionCount then some (r.unreadCount, r.mentionCount) else none

inductive Action where
  | create (post : Post) (looked : Bool) (users : List (Nat × Nat))
  | alert (post : Post) (notifId userId : Nat)
  | readOne (userId id : Nat)
  | readAll (userId : Nat)
  | readChannel (userId channelId : Nat)
  | readServer (userId serverId : Nat)
  | readThread (userId threadId : Nat)
  | delete (userId id : Nat)

/-- None is an exception before anything is written. -/
def step (db : Database) : Action → Option Database
  | .create post looked users => some (createNotificationsBulk db post looked users)
  | .alert post notifId userId => some (alert db post notifId userId)
  | .readOne userId id => markNotificationRead db userId id
  | .readAll userId => some (markAllRead db userId)
  | .readChannel userId channelId => some (markChannelRead db userId channelId)
  | .readServer userId serverId => some (markServerRead db userId serverId)
  | .readThread userId threadId => some (markThreadRead db userId threadId)
  | .delete userId id => deleteNotification db userId id

end Code

section Counting

def unreadAt (userId conv : Nat) (n : Notification) : Bool :=
  n.userId == userId && n.conversationId == conv && !n.read

def Database.unreadRows (db : Database) (userId conv : Nat) : Nat :=
  db.notifications.rows.countP (unreadAt userId conv)

/-- Both counters of the conversation stand at `k`; without a row they stand at 0. -/
def Database.Shows (db : Database) (userId conv k : Nat) : Prop :=
  ((db.unread.find (userId, conv)).map fun r => (r.unreadCount, r.mentionCount)).getD (0, 0) = (k, k)

/-- The counters are the numbers of unread rows. -/
def Exact (db : Database) : Prop :=
  ∀ userId conv, db.Shows userId conv (db.unreadRows userId conv)

/-- New ids, for different users; either they are looked up, or nobody has a notification. -/
def Sound (db : Database) : Action → Prop
  | .create post looked users => (users.map Prod.fst).Nodup ∧ (users.map Prod.snd).Nodup ∧
    (∀ x ∈ users, db.notifications.find x.1 = none) ∧
    (looked = true ∨ ∀ x ∈ users, db.notified post.messageId x.2 = false)
  | .alert _ notifId _ => db.notifications.find notifId = none
  | _ => True

variable {db : Database} {userId conv k : Nat}

theorem shows_none (absent : db.unread.find (userId, conv) = none) :
    db.Shows userId conv k ↔ 0 = k := by
  simp [Database.Shows, absent]

theorem shows_some {r : Unread} (found : db.unread.find (userId, conv) = some r) :
    db.Shows userId conv k ↔ r.unreadCount = k ∧ r.mentionCount = k := by
  simp [Database.Shows, found]

theorem Database.Shows.written (shows : db.Shows userId conv k) {k' : Nat} {p : Unread → Bool}
    {f : Unread → Unread} {same : ∀ r, (f r).key = r.key} (zero : k = 0 → k' = 0)
    (acts : ∀ r : Unread, r.key = (userId, conv) → r.unreadCount = k → r.mentionCount = k →
      (if p r then f r else r).unreadCount = k' ∧ (if p r then f r else r).mentionCount = k') :
    ({ db with unread := db.unread.update p f same } : Database).Shows userId conv k' := by
  cases found : db.unread.find (userId, conv) with
  | none =>
    have absent : (db.unread.update p f same).find (userId, conv) = none := by
      rw [Table.find_update, found, Option.map_none]
    exact (shows_none absent).mpr (zero ((shows_none found).mp shows).symm).symm
  | some r =>
    have there : (db.unread.update p f same).find (userId, conv) = some (if p r then f r else r) := by
      rw [Table.find_update, found, Option.map_some]
    obtain ⟨unread, mention⟩ := (shows_some found).mp shows
    exact (shows_some there).mpr (acts r (Table.find_eq_some.mp found).2 unread mention)

theorem Database.Shows.decrement (shows : db.Shows userId conv k) (user c amount : Nat) :
    (db.decrement user c amount).Shows userId conv
      (if user = userId ∧ c = conv then k - amount else k) := by
  refine shows.written (by rintro rfl; simp) fun r key unread mention => ?_
  by_cases same : user = userId ∧ c = conv
  · simp [key, same, Unread.uncount, unread, mention]
  · have apart : ¬(userId = user ∧ conv = c) := by omega
    simp [key, same, apart, unread, mention]

theorem Database.Shows.clear (shows : db.Shows userId conv k) (user : Nat) :
    (markAllRead db user).Shows userId conv (if user = userId then 0 else k) := by
  have marked : (db.setRead (·.userId == user)).Shows userId conv k := shows
  refine marked.written (by rintro rfl; simp) fun r key unread mention => ?_
  have here : r.userId = userId := congrArg Prod.fst key
  by_cases same : user = userId
  · simp [here, same, Unread.clear]
  · simp [here, Ne.symm same, same, unread, mention]

theorem Database.Shows.update (shows : db.Shows userId conv k) (user c : Nat) :
    (db.updateUnreadCount c true user).Shows userId conv
      (if user = userId ∧ c = conv then k + 1 else k) := by
  unfold Shows at shows ⊢
  simp only [updateUnreadCount, Table.find_upsert, Unread.key, Prod.mk.injEq, if_true]
  by_cases same : user = userId ∧ c = conv
  · rw [if_pos same, if_pos same]
    cases found : db.unread.find (userId, conv) with
    | none =>
      obtain rfl := (shows_none found).mp shows
      rfl
    | some r =>
      obtain ⟨rfl, mention⟩ := (shows_some found).mp shows
      simp [Unread.count, mention]
  · rw [if_neg same, if_neg same]
    exact shows

theorem foldl_keeps {α β γ : Type} (f : β → γ) {g : β → α → β} (keeps : ∀ b a, f (g b a) = f b)
    (l : List α) (b : β) : f (l.foldl g b) = f b := by
  induction l generalizing b with
  | nil => rfl
  | cons a l ih => exact (ih _).trans (keeps b a)

theorem Database.Shows.decrements {user : Nat} {amount : Nat → Nat} {convs : List Nat}
    (distinct : convs.Nodup) (shows : db.Shows userId conv k) :
    (convs.foldl (fun db c => db.decrement user c (amount c)) db).Shows userId conv
      (if user = userId ∧ conv ∈ convs then k - amount conv else k) := by
  induction convs generalizing db k with
  | nil => simpa using shows
  | cons c convs ih =>
    obtain ⟨apart, distinct⟩ := List.nodup_cons.mp distinct
    have after := ih distinct (shows.decrement user c (amount c))
    rw [List.foldl_cons]
    by_cases first : c = conv
    · subst first
      simpa [apart] using after
    · simpa [first, Ne.symm first] using after

theorem Database.Shows.updates (shows : db.Shows userId conv k) (c : Nat) (users : List Nat) :
    (users.foldl (·.updateUnreadCount c true) db).Shows userId conv
      (k + if c = conv then users.count userId else 0) := by
  induction users generalizing db k with
  | nil => simpa using shows
  | cons user users ih =>
    rw [List.foldl_cons]
    convert ih (shows.update user c) using 1
    rw [List.count_cons]
    simp only [beq_iff_eq]
    split_ifs <;> omega

theorem countP_without {α : Type} (p q : α → Bool) (l : List α) :
    l.countP p = l.countP (fun a => p a && q a) + l.countP fun a => p a && !q a := by
  rw [List.countP_eq_countP_filter_add l p q, List.countP_filter, List.countP_filter]

theorem unreadRows_setRead (db : Database) (p : Notification → Bool) (userId conv : Nat) :
    db.unreadRows userId conv =
    db.notifications.rows.countP (fun n => unreadAt userId conv n && p n) +
      (db.setRead p).unreadRows userId conv := by
  have after : (db.setRead p).unreadRows userId conv =
      db.notifications.rows.countP fun n => unreadAt userId conv n && !p n := by
    simp only [Database.unreadRows, Database.setRead, Table.update, List.countP_map]
    refine List.countP_congr fun n _ => ?_
    cases marked : p n <;> cases read : n.read <;>
      simp [unreadAt, Notification.seen, marked, read]
  rw [after]
  exact countP_without _ p _

theorem countP_id {id : Nat} {n : Notification} (found : db.notifications.find id = some n)
    (q : Notification → Bool) :
    db.notifications.rows.countP (fun m => q m && m.id = id) = if q n then 1 else 0 := by
  obtain ⟨member, rfl⟩ := Table.find_eq_some.mp found
  have once : (db.notifications.rows.map Notification.id).count n.id = 1 :=
    List.count_eq_one_of_mem db.notifications.unique (List.mem_map_of_mem member)
  rw [List.count, List.countP_map] at once
  split
  · rename_i holds
    rw [← once]
    refine List.countP_congr fun m inside => ?_
    simp only [Function.comp, Bool.and_eq_true, decide_eq_true_eq, beq_iff_eq, and_iff_right_iff_imp]
    exact fun same => Table.eq_of_key inside member same ▸ holds
  · rename_i fails
    refine List.countP_eq_zero.mpr fun m inside both => fails ?_
    simp only [Bool.and_eq_true, decide_eq_true_eq] at both
    exact Table.eq_of_key inside member both.2 ▸ both.1

end Counting

section Steps

variable {db db' : Database}

theorem countP_marked (user userId conv : Nat) (p : Notification → Bool) (l : List Notification) :
    l.countP (fun n => unreadAt userId conv n && (n.userId == user && p n)) =
      if user = userId then
        (l.filter fun n => n.userId == user && p n && !n.read).countP (·.conversationId = conv)
      else 0 := by
  split
  · rename_i same
    subst same
    rw [List.countP_filter]
    refine List.countP_congr fun n _ => ?_
    simp only [unreadAt, Bool.and_eq_true, beq_iff_eq, decide_eq_true_eq]
    tauto
  · rename_i other
    refine List.countP_eq_zero.mpr fun n _ both => other ?_
    simp only [unreadAt, Bool.and_eq_true, beq_iff_eq] at both
    exact both.2.1.symm.trans both.1.1.1

theorem Exact.markRead (exact : Exact db) (user : Nat) (p : Notification → Bool) :
    Exact (markRead db user p) := by
  intro userId conv
  generalize listed : (db.notifications.rows.filter fun n => n.userId == user && p n && !n.read) =
    marked
  have after : (Notifications.markRead db user p).Shows userId conv
      (if user = userId ∧ conv ∈ (marked.map (·.conversationId)).dedup then
        db.unreadRows userId conv - marked.countP (·.conversationId = conv)
      else db.unreadRows userId conv) := by
    subst listed
    exact Database.Shows.decrements (List.nodup_dedup _) (exact userId conv)
  have rows : (Notifications.markRead db user p).notifications =
      (db.setRead fun n => n.userId == user && p n).notifications := by
    unfold Notifications.markRead
    apply foldl_keeps
    intros
    rfl
  have split := unreadRows_setRead db (fun n => n.userId == user && p n) userId conv
  rw [countP_marked, listed] at split
  rw [Database.unreadRows, rows]
  convert after using 1
  change (db.setRead fun n => n.userId == user && p n).unreadRows userId conv = _
  split_ifs with both
  · rw [if_pos both.1] at split
    omega
  · by_cases same : user = userId
    · have none : marked.countP (·.conversationId = conv) = 0 :=
        List.countP_eq_zero.mpr fun n member here => both
          ⟨same, List.mem_dedup.mpr (of_decide_eq_true here ▸ List.mem_map_of_mem member)⟩
      rw [if_pos same, none] at split
      omega
    · rw [if_neg same] at split
      omega

theorem Exact.markAllRead (exact : Exact db) (user : Nat) : Exact (markAllRead db user) := by
  intro userId conv
  convert (exact userId conv).clear user using 1
  have split := unreadRows_setRead db (·.userId == user) userId conv
  change (db.setRead fun n => n.userId == user).unreadRows userId conv = _
  split_ifs with same
  · have all : db.unreadRows userId conv = db.notifications.rows.countP fun n =>
        unreadAt userId conv n && n.userId == user := by
      refine List.countP_congr fun n _ => ?_
      simp only [unreadAt, same, Bool.and_eq_true]
      tauto
    omega
  · have none : db.notifications.rows.countP (fun n =>
        unreadAt userId conv n && n.userId == user) = 0 := by
      refine List.countP_eq_zero.mpr fun n _ both => same ?_
      simp only [unreadAt, Bool.and_eq_true, beq_iff_eq] at both
      exact both.2.symm.trans both.1.1.1
    omega

theorem unreadAt_iff {n : Notification} (unread : n.read = false) {userId conv : Nat} :
    unreadAt userId conv n = true ↔ n.userId = userId ∧ n.conversationId = conv := by
  simp [unreadAt, unread]

theorem Exact.markNotificationRead (exact : Exact db) {user id : Nat}
    (marked : markNotificationRead db user id = some db') : Exact db' := by
  obtain ⟨n, found, rest⟩ := Option.bind_eq_some_iff.mp marked
  split_ifs at rest with other seen
  · exact Option.some.inj rest ▸ exact
  obtain rfl := Option.some.inj rest
  obtain rfl := not_not.mp other
  intro userId conv
  have split := unreadRows_setRead db (·.id = id) userId conv
  simp only [countP_id found, unreadAt_iff (Bool.eq_false_iff.mpr seen)] at split
  have after := (exact userId conv).decrement n.userId n.conversationId 1
  change (db.decrement n.userId n.conversationId 1).Shows userId conv
    ((db.setRead (·.id = id)).unreadRows userId conv)
  convert after using 1
  split_ifs at split ⊢ <;> omega

theorem Exact.deleteNotification (exact : Exact db) {user id : Nat}
    (deleted : deleteNotification db user id = some db') : Exact db' := by
  obtain ⟨n, found, rest⟩ := Option.bind_eq_some_iff.mp deleted
  have split (userId conv : Nat) :
      db.unreadRows userId conv = (if unreadAt userId conv n then 1 else 0) +
        (db.notifications.delete (·.id = id)).rows.countP (unreadAt userId conv) := by
    rw [← countP_id found, Table.delete, List.countP_filter]
    exact countP_without (unreadAt userId conv) (·.id = id) _
  split_ifs at rest with other seen
  · obtain rfl := Option.some.inj rest
    intro userId conv
    have skipped : unreadAt userId conv n = false := by simp [unreadAt, seen]
    have before := exact userId conv
    rw [split, skipped, if_neg Bool.false_ne_true, Nat.zero_add] at before
    exact before
  · obtain rfl := Option.some.inj rest
    obtain rfl := not_not.mp other
    intro userId conv
    have gone := split userId conv
    simp only [unreadAt_iff (Bool.eq_false_iff.mpr seen)] at gone
    have after := (exact userId conv).decrement n.userId n.conversationId 1
    change (db.decrement n.userId n.conversationId 1).Shows userId conv
      ((db.notifications.delete (·.id = id)).rows.countP (unreadAt userId conv))
    convert after using 1
    split_ifs at gone ⊢ <;> omega

theorem insertNotification_rows {n : Notification} (fresh : db.notifications.find n.id = none)
    (new : db.notified n.messageId n.userId = false) :
    (db.insertNotification n).notifications.rows = db.notifications.rows ++ [n] := by
  unfold Database.insertNotification
  rw [if_neg (Bool.eq_false_iff.mp new)]
  exact Table.rows_insertOrIgnore fresh

theorem insertNotification_unread (n : Notification) :
    (db.insertNotification n).unread = db.unread := by
  unfold Database.insertNotification
  split <;> rfl

theorem unreadRows_insert {post : Post} {id user userId conv : Nat}
    (fresh : db.notifications.find id = none) (new : db.notified post.messageId user = false) :
    (db.insertNotification ⟨post, id, user, false⟩).unreadRows userId conv =
      db.unreadRows userId conv + if user = userId ∧ post.conversationId = conv then 1 else 0 := by
  have rows := insertNotification_rows (n := ⟨post, id, user, false⟩) fresh new
  rw [Database.unreadRows, rows, List.countP_append, List.countP_singleton]
  simp [Database.unreadRows, unreadAt]

/-- By induction on the users: each has a row more, and nobody else. -/
theorem unreadRows_inserts (post : Post) {users : List (Nat × Nat)}
    (ids : (users.map Prod.fst).Nodup) (distinct : (users.map Prod.snd).Nodup)
    (fresh : ∀ x ∈ users, db.notifications.find x.1 = none)
    (new : ∀ x ∈ users, db.notified post.messageId x.2 = false) (userId conv : Nat) :
    (users.foldl (fun db x => db.insertNotification ⟨post, x.1, x.2, false⟩) db).unreadRows
        userId conv = db.unreadRows userId conv +
      if post.conversationId = conv then (users.map Prod.snd).count userId else 0 := by
  induction users generalizing db with
  | nil => simp
  | cons x users ih =>
    rw [List.map_cons, List.nodup_cons] at ids distinct
    rw [List.forall_mem_cons] at fresh new
    have rows := insertNotification_rows (n := ⟨post, x.1, x.2, false⟩) fresh.1 new.1
    rw [List.foldl_cons, ih ids.2 distinct.2]
    · rw [unreadRows_insert fresh.1 new.1, List.map_cons, List.count_cons]
      by_cases here : post.conversationId = conv
      · simp only [here, and_true, if_true, beq_iff_eq]
        omega
      · simp only [here, and_false, if_false, Nat.add_zero]
    · intro y member
      have other : x.1 ≠ y.1 := fun same => ids.1 (same ▸ List.mem_map_of_mem member)
      exact Table.find_append rows other (fresh.2 y member)
    · intro y member
      have other : x.2 ≠ y.2 := fun same => distinct.1 (same ▸ List.mem_map_of_mem member)
      have before := new.2 y member
      unfold Database.notified at before ⊢
      rw [rows, List.any_append, before]
      simp [other]

theorem Exact.create (exact : Exact db) {post : Post} {looked : Bool} {users : List (Nat × Nat)}
    (sound : Sound db (.create post looked users)) :
    Exact (createNotificationsBulk db post looked users) := by
  obtain ⟨ids, distinct, fresh, found⟩ := sound
  have part : (users.filter fun x => !(looked && db.notified post.messageId x.2)).Sublist users :=
    List.filter_sublist
  have new : ∀ x ∈ users.filter fun x => !(looked && db.notified post.messageId x.2),
      db.notified post.messageId x.2 = false := by
    intro x member
    obtain ⟨member, kept⟩ := List.mem_filter.mp member
    rcases found with rfl | absent
    · simpa using kept
    · exact absent x member
  unfold createNotificationsBulk
  generalize (users.filter fun x => !(looked && db.notified post.messageId x.2)) = kept at part new
  intro userId conv
  have rows := unreadRows_inserts post (ids.sublist (part.map _)) (distinct.sublist (part.map _))
    (fun x member => fresh x (part.subset member)) new userId conv
  have unread : (kept.foldl (fun db x => db.insertNotification ⟨post, x.1, x.2, false⟩) db).unread =
      db.unread := foldl_keeps Database.unread (fun _ _ => insertNotification_unread _) _ _
  have before := exact userId conv
  unfold Database.Shows at before
  rw [← unread] at before
  have after := Database.Shows.updates before post.conversationId (kept.map Prod.snd)
  rw [← rows] at after
  have same := foldl_keeps (g := (·.updateUnreadCount post.conversationId true))
    Database.notifications (fun _ _ => rfl) (kept.map Prod.snd)
  rw [Database.unreadRows, ← same] at after
  exact after

theorem Exact.alert (exact : Exact db) {post : Post} {id user : Nat}
    (fresh : db.notifications.find id = none) : Exact (alert db post id user) := by
  intro userId conv
  unfold Notifications.alert
  by_cases old : db.notified post.messageId user = true
  · have same : db.insertNotification ⟨post, id, user, false⟩ = db := if_pos old
    simp only [same, fresh, Option.isSome_none, Bool.false_eq_true, if_false]
    exact exact userId conv
  · have new := Bool.eq_false_iff.mpr old
    have there : ((db.insertNotification ⟨post, id, user, false⟩).notifications.find id).isSome := by
      rw [Table.find_isSome]
      refine ⟨⟨post, id, user, false⟩, ?_, rfl⟩
      rw [Table.mem_rows, insertNotification_rows fresh new]
      simp
    have before : (db.insertNotification ⟨post, id, user, false⟩).Shows userId conv
        (db.unreadRows userId conv) := by
      unfold Database.Shows
      rw [insertNotification_unread]
      exact exact userId conv
    rw [if_pos there]
    convert before.update user post.conversationId using 1
    refine (unreadRows_insert fresh new).trans ?_
    split <;> rfl

end Steps

section Main

variable {db : Database}

theorem step_exact {a : Action} {db' : Database} (exact : Exact db) (sound : Sound db a)
    (next : step db a = some db') : Exact db' := by
  cases a with
  | create post looked users => exact Option.some.inj next ▸ exact.create sound
  | alert post id userId => exact Option.some.inj next ▸ exact.alert sound
  | readOne userId id => exact exact.markNotificationRead next
  | readAll userId => exact Option.some.inj next ▸ exact.markAllRead userId
  | readChannel userId channelId => exact Option.some.inj next ▸ exact.markRead userId _
  | readServer userId serverId => exact Option.some.inj next ▸ exact.markRead userId _
  | readThread userId threadId => exact Option.some.inj next ▸ exact.markRead userId _
  | delete userId id => exact exact.deleteNotification next

/-- Whatever is notified, read and deleted, one call after the other. -/
theorem unread_badges (run : Guarded step Sound (· = Database.empty) db) (userId conv : Nat) :
    getUnreadCounts db userId conv =
      if db.unreadRows userId conv = 0 then none
      else some (db.unreadRows userId conv, db.unreadRows userId conv) := by
  have exact : Exact db := guarded_invariant (fun _ first => first ▸ fun _ _ => rfl)
    (fun _ _ _ exact sound next => step_exact exact sound next) run
  unfold getUnreadCounts
  cases found : db.unread.find (userId, conv) with
  | none =>
    rw [← (shows_none found).mp (exact userId conv)]
    rfl
  | some r =>
    obtain ⟨unread, mention⟩ := (shows_some found).mp (exact userId conv)
    simp only [Option.bind_some, unread, mention, or_self]
    by_cases read : db.unreadRows userId conv = 0
    · simp [read]
    · rw [if_pos (Nat.pos_of_ne_zero read), if_neg read]

instance (db : Database) : (a : Action) → Decidable (Sound db a)
  | .create post looked users => inferInstanceAs (Decidable ((users.map Prod.fst).Nodup ∧
    (users.map Prod.snd).Nodup ∧ (∀ x ∈ users, db.notifications.find x.1 = none) ∧
    (looked = true ∨ ∀ x ∈ users, db.notified post.messageId x.2 = false)))
  | .alert _ notifId _ => inferInstanceAs (Decidable (db.notifications.find notifId = none))
  | .readOne .. | .readAll _ | .readChannel .. | .readServer .. | .readThread .. | .delete .. =>
    isTrue trivial

def inChannel (messageId : Nat) : Post := ⟨messageId, 10, some 5, some 9, none⟩

/-- Two messages, the first of them twice, and one of the notifications is read. -/
theorem unread_badges_twice : ∃ db, getUnreadCounts db 2 10 = some (1, 1) ∧
    getUnreadCounts db 3 10 = some (1, 1) ∧ getUnreadCounts db 4 10 = none := by
  let calls : List Action := [.create (inChannel 70) true [(100, 2), (101, 3)],
    .create (inChannel 70) true [(102, 2)], .create (inChannel 71) true [(103, 2)], .readOne 2 103]
  let db := (runGuarded step Sound Database.empty calls).get (by decide)
  have reached : Guarded step Sound (· = Database.empty) db :=
    guarded_of_run (s := Database.empty) calls rfl (Option.some_get _).symm
  exact ⟨db, (unread_badges reached 2 10).trans (by decide),
    (unread_badges reached 3 10).trans (by decide), (unread_badges reached 4 10).trans (by decide)⟩

/-- Were those who have a notification not found, the second time would count. -/
example : (run step Database.empty [.create (inChannel 70) true [(100, 2)],
    .create (inChannel 70) false [(101, 2)]]).map
      (fun db => (getUnreadCounts db 2 10, db.unreadRows 2 10)) = some (some (2, 2), 1) := by
  decide

end Main

end Plexichat.Notifications
