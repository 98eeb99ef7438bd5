import Plexichat.Erasure.Erase

/-! What an erasure may delete of the messages of others, and what it has to delete. -/
namespace Plexichat.Erasure
open Script

/-- By is_participant, or by a row of thread_members. -/
def Access (db : Database) (conversationId userId : Nat) : Prop :=
  db.isParticipant conversationId userId = true ∨
    ∃ t ∈ db.threads, t.conversationId = some conversationId ∧ ⟨t.id, userId⟩ ∈ db.threadMembers

section Laws

variable (db : Database) (uid cid : Nat)

def OfOwnChannel : Prop := ∃ s ∈ db.servers, s.ownerId = uid ∧
  ∃ c ∈ db.channels, c.serverId = s.id ∧ c.conversationId = some cid

def InOwnServer : Prop :=
  OfOwnChannel db uid cid ∨ ∃ s ∈ db.servers, s.ownerId = uid ∧ db.serverOf cid = some s.id

def InOwnThread : Prop := ∃ t ∈ db.threads, t.ownerId = uid ∧ t.conversationId = some cid

def NoOther : Prop := ∀ v ∈ db.users, v ≠ uid → ¬ Access db cid v

def Fair : Prop := InOwnServer db uid cid ∨ InOwnThread db uid cid ∨ NoOther db uid cid

def OnlyParticipant : Prop := ⟨cid, uid⟩ ∈ db.participants ∧
  ∀ p ∈ db.participants, p.conversationId = cid → p.userId = uid

def Reached : Prop :=
  OfOwnChannel db uid cid ∨ InOwnThread db uid cid ∨ OnlyParticipant db uid cid

def Orphaned : Prop := (∃ k ∈ db.conversations, k.id = cid) ∧
  (∀ p ∈ db.participants, p.conversationId ≠ cid) ∧ ∀ t ∈ db.threads, t.conversationId ≠ some cid

def SparesOthers (db' : Database) : Prop := ∀ m ∈ db.messages, m ∉ db'.messages →
  m.authorId ≠ uid → Fair db uid m.conversationId

structure LeavesNothing (db' : Database) : Prop where
  servers : ∀ s ∈ db'.servers, s.ownerId ≠ uid
  participants : ∀ p ∈ db'.participants, p.userId ≠ uid
  threadMembers : ∀ r ∈ db'.threadMembers, r.userId ≠ uid
  conversations : ∀ k ∈ db.conversations, Access db k.id uid → NoOther db uid k.id →
    ∀ k' ∈ db'.conversations, k'.id ≠ k.id

/-- The tables decide as the deletions assume: nobody else gets at what the user alone
participates in, nor at what nobody participates in; and what the user alone gets at is found. -/
structure Counted : Prop where
  alone : ∀ m ∈ db.messages, m.authorId ≠ uid → OnlyParticipant db uid m.conversationId →
    Fair db uid m.conversationId
  orphans : ∀ m ∈ db.messages, m.authorId ≠ uid → Orphaned db m.conversationId →
    Fair db uid m.conversationId
  found : ∀ k ∈ db.conversations, Access db k.id uid → NoOther db uid k.id → Reached db uid k.id

end Laws

/-- From `db₀`, rows have gone only, and those of others only with a conversation of `C`. -/
structure Erases (C : Nat → Prop) (uid : Nat) (db₀ db : Database) : Prop where
  messages : ∀ m ∈ db₀.messages, m ∈ db.messages ∨ C m.conversationId
  conversations : ∀ k ∈ db₀.conversations, k ∈ db.conversations ∨ C k.id
  others : ∀ p ∈ db₀.participants, p.userId ≠ uid → p ∈ db.participants ∨ C p.conversationId
  servers : db.servers ⊆ db₀.servers
  channels : db.channels ⊆ db₀.channels
  participants : db.participants ⊆ db₀.participants
  threads : db.threads ⊆ db₀.threads

def Allowed (C : Nat → Prop) (uid : Nat) : Statement → Prop
  | .messages cid | .participants cid | .conversation cid => C cid
  | .participantsOfUser v => v = uid
  | _ => True

def Gone (db : Database) (cid : Nat) : Prop :=
  (∀ k ∈ db.conversations, k.id ≠ cid) ∧ ∀ m ∈ db.messages, m.conversationId ≠ cid

def Refused (refuses : Statement → Database → Bool) : Prop := ∃ st db, refuses st db = true

abbrev Stopped (refuses : Statement → Database → Bool) (C : Nat → Prop) (uid : Nat)
    (db₀ db : Database) : Prop := Erases C uid db₀ db ∧ Refused refuses

section Statements

variable {C : Nat → Prop} {uid : Nat} {db₀ db : Database}

theorem kept_or {α : Type} {l m : List α} {D : α → Prop} {q : α → Bool}
    (h : ∀ a ∈ l, a ∈ m ∨ D a) (dropped : ∀ a, q a = false → D a) :
    ∀ a ∈ l, a ∈ m.filter q ∨ D a := by
  intro a ha
  rcases h a ha with kept | gone
  · cases keep : q a with
    | true => exact .inl (List.mem_filter.mpr ⟨kept, keep⟩)
    | false => exact .inr (dropped a keep)
  · exact .inr gone

theorem filter_subset_trans {α : Type} {l m : List α} (q : α → Bool) (h : m ⊆ l) :
    m.filter q ⊆ l := fun _ ha => h (List.mem_filter.mp ha).1

theorem Erases.refl (C : Nat → Prop) (uid : Nat) (db : Database) : Erases C uid db db :=
  ⟨fun _ => .inl, fun _ => .inl, fun _ h _ => .inl h, fun _ => id, fun _ => id, fun _ => id,
    fun _ => id⟩

theorem Erases.apply (erases : Erases C uid db₀ db) (st : Statement)
    (allowed : Allowed C uid st) : Erases C uid db₀ (st.apply db) := by
  cases st with
  | membersOfServer sid => exact { erases with }
  | channelsOfServer sid =>
    exact { erases with channels := filter_subset_trans _ erases.channels }
  | server sid => exact { erases with servers := filter_subset_trans _ erases.servers }
  | threadMembersOfConversation cid => exact { erases with }
  | threadsOfConversation cid =>
    exact { erases with threads := filter_subset_trans _ erases.threads }
  | messages cid =>
    refine { erases with messages := kept_or erases.messages fun m gone => ?_ }
    have same : m.conversationId = cid := by simpa using gone
    exact same ▸ allowed
  | participants cid =>
    refine { erases with
      participants := filter_subset_trans _ erases.participants
      others := ?_ }
    intro p hp other
    rcases erases.others p hp other with kept | gone
    · by_cases same : p.conversationId = cid
      · exact .inr (same ▸ allowed)
      · exact .inl (List.mem_filter.mpr ⟨kept, by simpa using same⟩)
    · exact .inr gone
  | conversation cid =>
    refine { erases with conversations := kept_or erases.conversations fun k gone => ?_ }
    have same : k.id = cid := by simpa using gone
    exact same ▸ allowed
  | participantsOfUser v =>
    refine { erases with
      participants := filter_subset_trans _ erases.participants
      others := ?_ }
    intro p hp other
    have differs : p.userId ≠ v := fun same => other (same.trans allowed)
    exact (erases.others p hp other).imp_left fun kept =>
      List.mem_filter.mpr ⟨kept, by simpa using differs⟩
  | threadMembersOfUser v => exact { erases with }
  | threadMembers tid => exact { erases with }
  | thread tid => exact { erases with threads := filter_subset_trans _ erases.threads }
  | elsewhere t key => exact erases

theorem Gone.apply {cid : Nat} (gone : Gone db cid) (st : Statement) : Gone (st.apply db) cid := by
  cases st with
  | messages c => exact ⟨gone.1, fun m h => gone.2 m (List.mem_filter.mp h).1⟩
  | conversation c => exact ⟨fun k h => gone.1 k (List.mem_filter.mp h).1, gone.2⟩
  | _ => exact gone

end Statements

/-- With the servers and the conversations that have been deleted; no other row of a channel, a
thread or a participant has gone. -/
structure Progress (db₀ : Database) (purged deleted : List Nat) (db : Database) : Prop where
  servers : ∀ s ∈ db.servers, s.id ∉ purged
  purged : ∀ c ∈ db₀.channels, c.serverId ∈ purged → ∀ k, c.conversationId = some k → k ∈ deleted
  gone : ∀ k ∈ deleted, Gone db k
  channels : ∀ c ∈ db₀.channels, ∀ k, c.conversationId = some k → c ∈ db.channels ∨ k ∈ deleted
  threads : ∀ t ∈ db₀.threads, ∀ k, t.conversationId = some k → t ∈ db.threads ∨ k ∈ deleted
  participants : ∀ p ∈ db₀.participants, p ∈ db.participants ∨ p.conversationId ∈ deleted

structure Settled (uid : Nat) (purged deleted : List Nat) (db : Database) : Prop where
  servers : ∀ s ∈ db.servers, s.id ∉ purged
  gone : ∀ k ∈ deleted, Gone db k
  participants : ∀ p ∈ db.participants, p.userId ≠ uid
  threadMembers : ∀ r ∈ db.threadMembers, r.userId ≠ uid

section Scripts

variable {refuses : Statement → Database → Bool} {C : Nat → Prop} {uid : Nat} {db₀ : Database}
  {purged deleted : List Nat}

theorem refused_stop {I : Database → Prop} {st : Statement}
    (erases : ∀ db, I db → Erases C uid db₀ db) (db : Database) (h : I db)
    (refused : (!st.optional && refuses st db) = true) : Stopped refuses C uid db₀ db :=
  ⟨erases db h, st, db, (Bool.and_eq_true_iff.mp refused).2⟩

theorem executes {I : Database → Prop} {sts : List Statement}
    (erases : ∀ db, I db → Erases C uid db₀ db)
    (keeps : ∀ st ∈ sts, ∀ db, I db → I (st.apply db)) :
    Triple I (forEach (execute refuses) sts) (fun _ => I)
      (Stopped refuses C uid db₀) := by
  exact triple_forEach_keeps fun st listed =>
    triple_statement (keeps st listed) (refused_stop erases)

def Database.dropped (db : Database) (cid : Nat) : Database :=
  [.elsewhere .messageStatus cid, .elsewhere .pinned cid, .elsewhere .attachments cid,
    .threadMembersOfConversation cid, .threadsOfConversation cid, .messages cid,
    .participants cid, .conversation cid].foldl Statement.apply db

theorem dropped_eq (db : Database) (cid : Nat) : db.dropped cid =
    { db with
      threadMembers := db.threadMembers.filter fun r =>
        !db.threads.any fun t => t.conversationId = some cid && t.id = r.threadId
      threads := db.threads.filter (·.conversationId ≠ some cid)
      messages := db.messages.filter (·.conversationId ≠ cid)
      participants := db.participants.filter (·.conversationId ≠ cid)
      conversations := db.conversations.filter (·.id ≠ cid) } := by
  simp only [Database.dropped, List.foldl_cons, List.foldl_nil, Statement.apply]

theorem deleteConversation_spec {cid : Nat} (reached : C cid) {I J : Database → Prop}
    (erases : ∀ db, I db → Erases C uid db₀ db) (drops : ∀ db, I db → J (db.dropped cid)) :
    Triple I (deleteConversation refuses cid) (fun _ => J)
      (Stopped refuses C uid db₀) := by
  intro db start
  have steps : Triple (fun d => Erases C uid db₀ d ∧ d = [].foldl Statement.apply db)
      (deleteConversation refuses cid)
      (fun _ d => Erases C uid db₀ d ∧ d = db.dropped cid)
      (Stopped refuses C uid db₀) := by
    refine triple_forEach
      (fun had d => Erases C uid db₀ d ∧ d = had.foldl Statement.apply db) [] _ ?_
    intro had st listed
    refine triple_statement ?_ ?_
    · rintro d ⟨kept, rfl⟩
      refine ⟨kept.apply st ?_, by rw [List.foldl_append]; rfl⟩
      simp only [List.mem_cons, List.not_mem_nil, or_false] at listed
      rcases listed with rfl | rfl | rfl | rfl | rfl | rfl | rfl | rfl
      · trivial
      · trivial
      · trivial
      · trivial
      · trivial
      · exact reached
      · exact reached
      · exact reached
    · exact refused_stop fun d h => h.1
  refine (steps.returns ?_) db ⟨erases db start, rfl⟩
  rintro _ d ⟨_, rfl⟩
  exact drops db start

theorem Erases.dropped {db : Database} {cid : Nat} (erases : Erases C uid db₀ db)
    (reached : C cid) : Erases C uid db₀ (db.dropped cid) := by
  have threads := erases.apply (.threadsOfConversation cid) trivial
  have messages := threads.apply (.messages cid) reached
  have participants := messages.apply (.participants cid) reached
  have conversation := participants.apply (.conversation cid) reached
  exact { conversation with }

theorem gone_dropped (db : Database) (cid : Nat) : Gone (db.dropped cid) cid := by
  rw [dropped_eq]
  refine ⟨?_, ?_⟩
  · intro k h
    simpa using (List.mem_filter.mp h).2
  · intro m h
    simpa using (List.mem_filter.mp h).2

theorem Gone.dropped {db : Database} {k : Nat} (gone : Gone db k) (cid : Nat) :
    Gone (db.dropped cid) k := by
  rw [dropped_eq]
  exact ⟨fun c h => gone.1 c (List.mem_filter.mp h).1,
    fun m h => gone.2 m (List.mem_filter.mp h).1⟩

theorem gone_append {db : Database} {cid : Nat} (gone : ∀ k ∈ deleted, Gone db k) :
    ∀ k ∈ deleted ++ [cid], Gone (db.dropped cid) k := by
  intro k listed
  rcases List.mem_append.mp listed with before | now
  · exact (gone k before).dropped cid
  · exact List.mem_singleton.mp now ▸ gone_dropped db cid

theorem Progress.dropped {db : Database} (progress : Progress db₀ purged deleted db)
    (cid : Nat) : Progress db₀ purged (deleted ++ [cid]) (db.dropped cid) := by
  have emptied : ∀ k ∈ deleted ++ [cid], Gone (db.dropped cid) k := gone_append progress.gone
  rw [dropped_eq] at emptied ⊢
  refine ⟨progress.servers, ?_, emptied, ?_, ?_, ?_⟩
  · intro c hc listed k here
    exact List.mem_append_left _ (progress.purged c hc listed k here)
  · intro c hc k here
    exact (progress.channels c hc k here).imp_right (List.mem_append_left _)
  · intro t ht k here
    rcases progress.threads t ht k here with kept | gone
    · by_cases same : k = cid
      · exact .inr (List.mem_append_right _ (List.mem_singleton.mpr same))
      · refine .inl (List.mem_filter.mpr ⟨kept, ?_⟩)
        simpa [here] using same
    · exact .inr (List.mem_append_left _ gone)
  · intro p hp
    rcases progress.participants p hp with kept | gone
    · by_cases same : p.conversationId = cid
      · exact .inr (List.mem_append_right _ (List.mem_singleton.mpr same))
      · exact .inl (List.mem_filter.mpr ⟨kept, by simpa using same⟩)
    · exact .inr (List.mem_append_left _ gone)

theorem Settled.dropped {db : Database} (settled : Settled uid purged deleted db) (cid : Nat) :
    Settled uid purged (deleted ++ [cid]) (db.dropped cid) := by
  have emptied : ∀ k ∈ deleted ++ [cid], Gone (db.dropped cid) k := gone_append settled.gone
  rw [dropped_eq] at emptied ⊢
  exact ⟨settled.servers, emptied, fun p h => settled.participants p (List.mem_filter.mp h).1,
    fun r h => settled.threadMembers r (List.mem_filter.mp h).1⟩

theorem Settled.apply {db : Database} (settled : Settled uid purged deleted db)
    (st : Statement) : Settled uid purged deleted (st.apply db) := by
  have gone : ∀ k ∈ deleted, Gone (st.apply db) k := fun k h => (settled.gone k h).apply st
  cases st with
  | server sid =>
    exact { settled with servers := fun s h => settled.servers s (List.mem_filter.mp h).1 }
  | participants cid =>
    exact { settled with
      participants := fun p h => settled.participants p (List.mem_filter.mp h).1 }
  | participantsOfUser v =>
    exact { settled with
      participants := fun p h => settled.participants p (List.mem_filter.mp h).1 }
  | threadMembersOfConversation cid =>
    exact { settled with
      threadMembers := fun r h => settled.threadMembers r (List.mem_filter.mp h).1 }
  | threadMembersOfUser v =>
    exact { settled with
      threadMembers := fun r h => settled.threadMembers r (List.mem_filter.mp h).1 }
  | threadMembers tid =>
    exact { settled with
      threadMembers := fun r h => settled.threadMembers r (List.mem_filter.mp h).1 }
  | _ => exact ⟨settled.servers, gone, settled.participants, settled.threadMembers⟩

theorem deletes {P : List Nat → Database → Prop} {ids : List Nat} (reached : ∀ c ∈ ids, C c)
    (drops : ∀ deleted db c, P deleted db → P (deleted ++ [c]) (db.dropped c)) :
    Triple (fun db => Erases C uid db₀ db ∧ P deleted db) (forEach (deleteConversation refuses) ids)
      (fun _ db => Erases C uid db₀ db ∧ P (deleted ++ ids) db)
      (Stopped refuses C uid db₀) := by
  refine (triple_forEach (fun had db => Erases C uid db₀ db ∧ P (deleted ++ had) db) [] ids
    ?_).before ?_
  · intro had c listed
    refine deleteConversation_spec (reached c listed) (fun db h => h.1) ?_
    rintro db ⟨erases, h⟩
    exact ⟨erases.dropped (reached c listed), List.append_assoc deleted had [c] ▸ drops _ db c h⟩
  · intro db h
    rwa [List.append_nil]

theorem Progress.channelsOfServer {db : Database} {sid : Nat}
    (progress : Progress db₀ purged deleted db)
    (all : ∀ c ∈ db₀.channels, c.serverId = sid → ∀ k, c.conversationId = some k → k ∈ deleted) :
    Progress db₀ purged deleted ((Statement.channelsOfServer sid).apply db) := by
  refine { progress with channels := ?_ }
  intro c hc k here
  by_cases own : c.serverId = sid
  · exact .inr (all c hc own k here)
  · exact (progress.channels c hc k here).imp_left fun kept =>
      List.mem_filter.mpr ⟨kept, by simpa using own⟩

theorem Progress.server {db : Database} {sid : Nat} (progress : Progress db₀ purged deleted db)
    (all : ∀ c ∈ db₀.channels, c.serverId = sid → ∀ k, c.conversationId = some k → k ∈ deleted) :
    Progress db₀ (purged ++ [sid]) deleted ((Statement.server sid).apply db) := by
  refine { progress with servers := ?_, purged := ?_ }
  · intro s h listed
    obtain ⟨kept, other⟩ := List.mem_filter.mp h
    rcases List.mem_append.mp listed with before | now
    · exact progress.servers s kept before
    · exact of_decide_eq_true other (List.mem_singleton.mp now)
  · intro c hc listed k here
    rcases List.mem_append.mp listed with before | now
    · exact progress.purged c hc before k here
    · exact all c hc (List.mem_singleton.mp now) k here

theorem purgeServerRecursive_spec {sid : Nat}
    (reached : ∀ c ∈ db₀.channels, c.serverId = sid → ∀ k, c.conversationId = some k → C k) :
    Triple (fun db => Erases C uid db₀ db ∧ ∃ deleted, Progress db₀ purged deleted db)
      (purgeServerRecursive refuses sid)
      (fun _ db => Erases C uid db₀ db ∧ ∃ deleted, Progress db₀ (purged ++ [sid]) deleted db)
      (Stopped refuses C uid db₀) := by
  refine Triple.bind (executes (fun db h => h.1) ?_) fun _ => ?_
  · rintro st listed db ⟨erases, deleted, progress⟩
    simp only [List.mem_cons, List.not_mem_nil, or_false] at listed
    rcases listed with rfl | rfl | rfl | rfl | rfl | rfl | rfl | rfl | rfl | rfl | rfl | rfl
    all_goals exact ⟨erases.apply _ trivial, deleted, { progress with }⟩
  -- which conversations are read, and that these are all that are left of the server
  refine Triple.via (fun ids db => ∃ deleted, (∀ k ∈ ids, C k) ∧
    (∀ c ∈ db₀.channels, c.serverId = sid → ∀ k, c.conversationId = some k → k ∈ deleted ++ ids) ∧
    Erases C uid db₀ db ∧ Progress db₀ purged deleted db) (triple_read ?_) fun ids => ?_
  · rintro db ⟨erases, deleted, progress⟩
    refine ⟨deleted, ?_, ?_, erases, progress⟩
    · intro k listed
      obtain ⟨c, hc, here⟩ := List.mem_filterMap.mp listed
      obtain ⟨stored, own⟩ := List.mem_filter.mp hc
      exact reached c (erases.channels stored) (of_decide_eq_true own) k here
    · intro c hc own k here
      rcases progress.channels c hc k here with kept | gone
      · refine List.mem_append_right _ (List.mem_filterMap.mpr ⟨c, ?_, here⟩)
        exact List.mem_filter.mpr ⟨kept, decide_eq_true own⟩
      · exact List.mem_append_left _ gone
  rintro db ⟨deleted, within, all, erases, progress⟩
  have last : Triple (fun db => Erases C uid db₀ db ∧ Progress db₀ purged (deleted ++ ids) db)
      (forEach (execute refuses) [.channelsOfServer sid, .elsewhere .roles sid, .server sid])
      (fun _ db => Erases C uid db₀ db ∧ ∃ deleted, Progress db₀ (purged ++ [sid]) deleted db)
      (Stopped refuses C uid db₀) := by
    have stop : ∀ st db, Erases C uid db₀ db ∧ Progress db₀ purged (deleted ++ ids) db →
        (!st.optional && refuses st db) = true → Stopped refuses C uid db₀ db :=
      fun st => refused_stop fun _ h => h.1
    refine Triple.bind (triple_statement (fun db h => ?_) (stop _)) fun _ =>
      Triple.bind (triple_statement (fun _ h => h) (stop _)) fun _ =>
        Triple.bind (triple_statement (fun db h => ?_) (stop _)) fun _ => triple_pure fun _ h => h
    · exact ⟨h.1.apply _ trivial, h.2.channelsOfServer all⟩
    · exact ⟨h.1.apply _ trivial, _, h.2.server all⟩
  exact ((deletes (P := Progress db₀ purged) within fun _ _ c h => h.dropped c).bind
    fun _ => last) db ⟨erases, progress⟩

theorem purgeOwnedServers_spec (reached : ∀ k, OfOwnChannel db₀ uid k → C k) :
    Triple (· = db₀) (purgeOwnedServers refuses uid)
      (fun ids db => (∀ s ∈ db₀.servers, s.ownerId = uid → s.id ∈ ids) ∧ Erases C uid db₀ db ∧
        ∃ deleted, Progress db₀ ids deleted db)
      (Stopped refuses C uid db₀) := by
  have first : ∃ deleted, Progress db₀ [] deleted db₀ :=
    ⟨[], fun _ _ => List.not_mem_nil, fun _ _ h => absurd h List.not_mem_nil,
      fun _ h => absurd h List.not_mem_nil, fun _ h _ _ => .inl h, fun _ h _ _ => .inl h,
      fun _ h => .inl h⟩
  refine Triple.via (fun ids db => ids = (db₀.servers.filter (·.ownerId = uid)).map
    Server.id ∧ Erases C uid db₀ db ∧ ∃ deleted, Progress db₀ [] deleted db)
    (triple_read ?_) fun ids => ?_
  · rintro db rfl
    exact ⟨rfl, .refl C uid db, first⟩
  rintro db ⟨rfl, start⟩
  refine (Triple.bind (triple_forEach
    (fun had db => Erases C uid db₀ db ∧ ∃ deleted, Progress db₀ had deleted db) [] _ ?_)
    fun _ => triple_pure ?_) db start
  · intro had sid listed
    obtain ⟨s, hs, rfl⟩ := List.mem_map.mp listed
    obtain ⟨stored, own⟩ := List.mem_filter.mp hs
    refine purgeServerRecursive_spec fun c hc of k here => reached k ?_
    exact ⟨s, stored, of_decide_eq_true own, c, hc, of, here⟩
  · intro d h
    refine ⟨?_, h⟩
    intro s stored own
    exact List.mem_map.mpr ⟨s, List.mem_filter.mpr ⟨stored, decide_eq_true own⟩, rfl⟩

/-- What is left of the user's conversations goes, but for those with another participant. -/
theorem purgeLeft_spec (reached : ∀ k, OnlyParticipant db₀ uid k → C k) {ids : List Nat}
    (listed : ∀ k ∈ ids, ⟨k, uid⟩ ∈ db₀.participants) {removed : List Nat}
    (before : removed ⊆ deleted) :
    Triple (fun db => Erases C uid db₀ db ∧ Settled uid purged deleted db)
      (purgeLeft refuses uid removed ids)
      (fun _ db => Erases C uid db₀ db ∧ ∃ all, deleted ⊆ all ∧
        (∀ k ∈ ids, OnlyParticipant db₀ uid k → k ∈ all) ∧ Settled uid purged all db)
      (Stopped refuses C uid db₀) := by
  induction ids generalizing removed deleted with
  | nil =>
    refine triple_pure fun db h => ⟨h.1, deleted, List.Subset.refl _, ?_, h.2⟩
    exact fun k h => absurd h List.not_mem_nil
  | cons cid ids ih =>
    have rest : ∀ k ∈ ids, ⟨k, uid⟩ ∈ db₀.participants :=
      fun k h => listed k (List.mem_cons_of_mem cid h)
    refine Triple.via (fun stays db =>
      (stays = (removed.contains cid || db.hasOtherParticipants cid uid)) ∧
        Erases C uid db₀ db ∧ Settled uid purged deleted db) (triple_read ?_) fun stays => ?_
    · exact fun db h => ⟨rfl, h⟩
    rintro db ⟨decided, erases, settled⟩
    cases stays with
    | true =>
      refine (ih rest before).returns ?_ db ⟨erases, settled⟩
      rintro _ d ⟨kept, all, subset, found, last⟩
      refine ⟨kept, all, subset, ?_, last⟩
      intro k here only
      rcases List.mem_cons.mp here with rfl | later
      · rcases Bool.or_eq_true_iff.mp decided.symm with had | other
        · exact subset (before (List.contains_iff_mem.mp had))
        · obtain ⟨p, hp, matched⟩ := List.any_eq_true.mp other
          simp only [Bool.and_eq_true, decide_eq_true_eq] at matched
          exact absurd (only.2 p (erases.participants hp) matched.1) matched.2
      · exact found k later only
    | false =>
      obtain ⟨_, alone⟩ := Bool.or_eq_false_iff.mp decided.symm
      have reach : C cid := by
        by_cases open_to : C cid
        · exact open_to
        · refine reached cid ⟨listed cid List.mem_cons_self, ?_⟩
          intro p hp same
          by_cases own : p.userId = uid
          · exact own
          · rcases erases.others p hp own with kept | gone
            · have met := List.any_eq_false.mp alone p kept
              simp [same, own] at met
            · exact absurd (same ▸ gone) open_to
      refine (Triple.bind (deleteConversation_spec reach
        (I := fun db => Erases C uid db₀ db ∧ Settled uid purged deleted db)
        (J := fun db => Erases C uid db₀ db ∧ Settled uid purged (deleted ++ [cid]) db)
        (fun _ h => h.1) ?_) fun _ => ?_) db ⟨erases, settled⟩
      · exact fun d h => ⟨h.1.dropped reach, h.2.dropped cid⟩
      · have onward : removed ++ [cid] ⊆ deleted ++ [cid] :=
          List.append_subset.mpr ⟨fun k h => List.mem_append_left _ (before h),
            List.subset_append_right _ _⟩
        refine (ih rest onward).returns ?_
        rintro _ d ⟨kept, all, subset, found, last⟩
        refine ⟨kept, all, fun k h => subset (List.mem_append_left _ h), ?_, last⟩
        intro k here only
        rcases List.mem_cons.mp here with rfl | later
        · exact subset (List.mem_append_right _ (List.mem_singleton.mpr rfl))
        · exact found k later only

theorem detaches : Triple (fun db => Erases C uid db₀ db ∧ Progress db₀ purged deleted db)
    (forEach (execute refuses) [.participantsOfUser uid, .threadMembersOfUser uid])
    (fun _ db => Erases C uid db₀ db ∧ Settled uid purged deleted db)
    (Stopped refuses C uid db₀) := by
  let half (db : Database) : Prop := Erases C uid db₀ db ∧ (∀ s ∈ db.servers, s.id ∉ purged) ∧
    (∀ k ∈ deleted, Gone db k) ∧ ∀ p ∈ db.participants, p.userId ≠ uid
  refine Triple.via (fun _ => half)
    (triple_statement (fun db h => ?_) (refused_stop fun _ h => h.1)) fun _ => Triple.bind
      (triple_statement (fun db h => ?_) (refused_stop fun _ h => h.1)) fun _ =>
        triple_pure fun _ h => h
  · refine ⟨h.1.apply _ rfl, h.2.servers, h.2.gone, ?_⟩
    intro p kept
    exact of_decide_eq_true (List.mem_filter.mp kept).2
  · obtain ⟨erases, servers, gone, participants⟩ := h
    refine ⟨erases.apply _ trivial, servers, gone, participants, ?_⟩
    intro r kept
    exact of_decide_eq_true (List.mem_filter.mp kept).2

theorem purgeUserConversations_spec (reached : ∀ k, Reached db₀ uid k → C k) :
    Triple (fun db => Erases C uid db₀ db ∧ ∃ deleted, Progress db₀ purged deleted db)
      (purgeUserConversations refuses uid)
      (fun _ db => Erases C uid db₀ db ∧ ∃ all, Settled uid purged all db ∧
        (∀ c ∈ db₀.channels, c.serverId ∈ purged → ∀ k, c.conversationId = some k → k ∈ all) ∧
        ∀ k, InOwnThread db₀ uid k ∨ OnlyParticipant db₀ uid k → k ∈ all)
      (Stopped refuses C uid db₀) := by
  rintro db ⟨erases, deleted, progress⟩
  -- what the three queries find, and what they miss
  let ids := (db.participants.filter (·.userId = uid)).map Participant.conversationId
  let containers := (db.threads.filter (·.ownerId = uid)).filterMap Thread.conversationId
  have taking : ∀ k ∈ ids, ⟨k, uid⟩ ∈ db₀.participants := by
    intro k listed
    obtain ⟨p, hp, rfl⟩ := List.mem_map.mp listed
    obtain ⟨stored, own⟩ := List.mem_filter.mp hp
    have same : p.userId = uid := of_decide_eq_true own
    exact erases.participants (same ▸ stored)
  have taken : ∀ k, OnlyParticipant db₀ uid k → k ∈ deleted ∨ k ∈ ids := by
    intro k only
    rcases progress.participants _ only.1 with kept | gone
    · exact .inr (List.mem_map.mpr ⟨_, List.mem_filter.mpr ⟨kept, decide_eq_true rfl⟩, rfl⟩)
    · exact .inl gone
  have holding : ∀ k ∈ containers, C k := by
    intro k listed
    obtain ⟨t, ht, here⟩ := List.mem_filterMap.mp listed
    obtain ⟨stored, own⟩ := List.mem_filter.mp ht
    exact reached k (.inr (.inl ⟨t, erases.threads stored, of_decide_eq_true own, here⟩))
  have held : ∀ k, InOwnThread db₀ uid k → k ∈ deleted ∨ k ∈ containers := by
    rintro k ⟨t, ht, own, here⟩
    rcases progress.threads t ht k here with kept | gone
    · refine .inr (List.mem_filterMap.mpr ⟨t, List.mem_filter.mpr ⟨kept, ?_⟩, here⟩)
      exact decide_eq_true own
    · exact .inl gone
  have threads : Triple (fun db => Erases C uid db₀ db ∧ Settled uid purged deleted db)
      (forEach (fun tid => forEach (execute refuses) [.threadMembers tid, .thread tid])
        ((db.threads.filter (·.ownerId = uid)).map Thread.id))
      (fun _ db => Erases C uid db₀ db ∧ Settled uid purged deleted db)
      (Stopped refuses C uid db₀) := by
    refine triple_forEach_keeps fun tid _ => executes (fun _ h => h.1) ?_
    intro st listed d h
    simp only [List.mem_cons, List.not_mem_nil, or_false] at listed
    rcases listed with rfl | rfl
    · exact ⟨h.1.apply _ trivial, h.2.apply _⟩
    · exact ⟨h.1.apply _ trivial, h.2.apply _⟩
  refine (detaches.bind fun _ => threads.bind fun _ =>
    (deletes (P := Settled uid purged) holding fun _ _ c h => h.dropped c).bind fun _ =>
      (purgeLeft_spec (fun k only => reached k (.inr (.inr only))) taking
        (List.subset_append_right deleted containers)).returns ?_) db ⟨erases, progress⟩
  rintro _ d ⟨last, all, subset, found, settled⟩
  have earlier : ∀ k ∈ deleted, k ∈ all := fun k h => subset (List.mem_append_left _ h)
  refine ⟨last, all, settled, ?_, ?_⟩
  · intro c hc listed k here
    exact earlier k (progress.purged c hc listed k here)
  · rintro k (thread | only)
    · rcases held k thread with gone | listed
      · exact earlier k gone
      · exact subset (List.mem_append_right _ listed)
    · rcases taken k only with gone | listed
      · exact earlier k gone
      · exact found k listed only

theorem eraseUserResidue_spec (refuses : Statement → Database → Bool) (uid : Nat)
    (db₀ : Database) :
    Triple (· = db₀) (eraseUserResidue refuses uid)
      (fun _ db => Erases (Reached db₀ uid) uid db₀ db ∧ ∃ purged all, Settled uid purged all db ∧
        (∀ s ∈ db₀.servers, s.ownerId = uid → s.id ∈ purged) ∧ ∀ k, Reached db₀ uid k → k ∈ all)
      (Stopped refuses (Reached db₀ uid) uid db₀) := by
  refine Triple.bind (purgeOwnedServers_spec fun k own => .inl own) fun purged => ?_
  rintro db ⟨owned, start⟩
  have last : ∀ conversations : List Nat, Triple (fun db => Erases (Reached db₀ uid) uid db₀ db ∧
      ∃ all, Settled uid purged all db ∧ ∀ k, Reached db₀ uid k → k ∈ all)
      (purgeUserMedia refuses uid >>= fun _ => pure (purged, conversations))
      (fun _ db => Erases (Reached db₀ uid) uid db₀ db ∧ ∃ purged all, Settled uid purged all db ∧
        (∀ s ∈ db₀.servers, s.ownerId = uid → s.id ∈ purged) ∧ ∀ k, Reached db₀ uid k → k ∈ all)
      (Stopped refuses (Reached db₀ uid) uid db₀) := by
    intro conversations
    refine Triple.bind (executes (fun _ h => h.1) ?_) fun _ => triple_pure ?_
    · intro st listed d h
      simp only [List.mem_cons, List.not_mem_nil, or_false] at listed
      rcases listed with rfl | rfl
      · exact h
      · exact h
    · rintro d ⟨erases, all, settled, found⟩
      exact ⟨erases, purged, all, settled, owned, found⟩
  refine (Triple.bind ((purgeUserConversations_spec fun k h => h).returns ?_) last) db start
  rintro _ d ⟨erases, all, settled, channels, found⟩
  refine ⟨erases, all, settled, ?_⟩
  rintro k (⟨s, stored, own, c, hc, of, here⟩ | rest)
  · exact channels c hc (of ▸ owned s stored own) k here
  · exact found k rest

theorem purgeOrphanedConversations_spec (refuses : Statement → Database → Bool) (uid : Nat)
    (db₀ : Database) :
    Triple (· = db₀) (purgeOrphanedConversations refuses)
      (fun _ db => Erases (Orphaned db₀) uid db₀ db ∧ ∀ k, Orphaned db₀ k → Gone db k)
      (Stopped refuses (Orphaned db₀) uid db₀) := by
  have orphans : ∀ k, k ∈ db₀.orphanedConversations ↔ Orphaned db₀ k := by
    intro k
    simp only [Database.orphanedConversations, List.mem_map, List.mem_filter, Bool.and_eq_true,
      Bool.not_eq_true', List.any_eq_false, decide_eq_true_eq, Orphaned]
    constructor
    · rintro ⟨c, ⟨stored, participants, threads⟩, rfl⟩
      exact ⟨⟨c, stored, rfl⟩, participants, threads⟩
    · rintro ⟨⟨c, stored, rfl⟩, participants, threads⟩
      exact ⟨c, ⟨stored, participants, threads⟩, rfl⟩
  refine Triple.via (fun ids db => ids = db₀.orphanedConversations ∧
    Erases (Orphaned db₀) uid db₀ db ∧ ∀ k ∈ [], Gone db k) (triple_read ?_) fun ids => ?_
  · rintro db rfl
    exact ⟨rfl, .refl _ uid db, fun k h => absurd h List.not_mem_nil⟩
  rintro db ⟨rfl, start⟩
  refine (Triple.bind (deletes (P := fun deleted db => ∀ k ∈ deleted, Gone db k)
    (fun k h => (orphans k).mp h) fun _ _ _ gone => gone_append gone) fun _ => triple_pure ?_)
    db start
  rintro d ⟨erases, gone⟩
  exact ⟨erases, fun k orphaned => gone k ((orphans k).mpr orphaned)⟩

end Scripts

section Results

variable {refuses : Statement → Database → Bool} {uid : Nat} {db : Database}

theorem Erases.spares {C : Nat → Prop} {db' : Database} (erases : Erases C uid db db')
    (fair : ∀ m ∈ db.messages, m.authorId ≠ uid → C m.conversationId →
      Fair db uid m.conversationId) : SparesOthers db uid db' := by
  intro m stored deleted other
  rcases erases.messages m stored with kept | reached
  · exact absurd kept deleted
  · exact fair m stored other reached

theorem Counted.reached (counted : Counted db uid) : ∀ m ∈ db.messages, m.authorId ≠ uid →
    Reached db uid m.conversationId → Fair db uid m.conversationId := by
  rintro m stored other (own | thread | only)
  · exact .inl (.inl own)
  · exact .inr (.inl thread)
  · exact counted.alone m stored other only

def Exact (refuses : Statement → Database → Bool) (db : Database) (uid : Nat) : Prop :=
  SparesOthers db uid (eraseUserResidue refuses uid db).2 ∧
    SparesOthers db uid (purgeOrphanedConversations refuses db).2 ∧
    ((eraseUserResidue refuses uid db).1.isSome →
      LeavesNothing db uid (eraseUserResidue refuses uid db).2)

theorem exact_of_counted (counted : Counted db uid) : Exact refuses db uid := by
  have whole := eraseUserResidue_spec refuses uid db
  have orphans := purgeOrphanedConversations_spec refuses uid db
  refine ⟨?_, ?_, ?_⟩
  · have erases := (whole.weaken (fun _ h => h) (fun _ _ h => h.1) fun _ h => h.1).state rfl
    exact erases.spares counted.reached
  · have erases := (orphans.weaken (fun _ h => h) (fun _ _ h => h.1) fun _ h => h.1).state rfl
    exact erases.spares counted.orphans
  · intro returned
    obtain ⟨result, here⟩ := Option.isSome_iff_exists.mp returned
    obtain ⟨erases, purged, all, settled, owned, found⟩ := whole.result rfl here
    refine ⟨?_, settled.participants, settled.threadMembers, ?_⟩
    · intro s kept own
      exact settled.servers s kept (owned s (erases.servers kept) own)
    · intro k stored access alone
      exact (settled.gone k.id (found k.id (counted.found k stored access alone))).1

theorem counted_of_exact (exact_throughout : ∀ refuses, Exact refuses db uid) :
    Counted db uid := by
  have calm : ¬ Refused fun _ _ => false := fun ⟨_, _, refused⟩ => by cases refused
  obtain ⟨spares, spares_orphans, leaves⟩ := exact_throughout fun _ _ => false
  obtain ⟨result, returned, erases, purged, all, settled, _, found⟩ :=
    (eraseUserResidue_spec (fun _ _ => false) uid db).total (fun _ h => calm h.2) rfl
  obtain ⟨_, _, _, gone⟩ :=
    (purgeOrphanedConversations_spec (fun _ _ => false) uid db).total (fun _ h => calm h.2) rfl
  refine ⟨?_, ?_, ?_⟩
  · intro m stored other only
    refine spares m stored ?_ other
    intro kept
    exact (settled.gone m.conversationId (found _ (.inr (.inr only)))).2 m kept rfl
  · intro m stored other orphaned
    exact spares_orphans m stored (fun kept => (gone _ orphaned).2 m kept rfl) other
  · intro k stored access alone
    have complete := leaves (Option.isSome_iff_exists.mpr ⟨result, returned⟩)
    rcases erases.conversations k stored with kept | reached
    · exact absurd rfl (complete.conversations k stored access alone k kept)
    · exact reached

/-- The deletions spare others and leave nothing, whatever statement is refused, exactly where the
tables count as they assume. -/
theorem erasure_exact (db : Database) (uid : Nat) :
    (∀ refuses, Exact refuses db uid) ↔ Counted db uid :=
  ⟨counted_of_exact, fun counted _ => exact_of_counted counted⟩

instance (cid v : Nat) : Decidable (Access db cid v) := inferInstanceAs (Decidable (_ ∨ _))

instance (cid : Nat) : Decidable (OfOwnChannel db uid cid) :=
  inferInstanceAs (Decidable (∃ s ∈ db.servers, _ ∧ ∃ c ∈ db.channels, _ ∧ _))

instance (cid : Nat) : Decidable (Fair db uid cid) :=
  inferInstanceAs (Decidable ((_ ∨ ∃ s ∈ db.servers, _ ∧ _) ∨ (∃ t ∈ db.threads, _ ∧ _) ∨
    ∀ v ∈ db.users, _ → ¬ Access db cid v))

instance (db' : Database) : Decidable (SparesOthers db uid db') :=
  inferInstanceAs (Decidable (∀ m ∈ db.messages, _ → _ → Fair db uid m.conversationId))

def sample : Database where
  users := [1, 2]
  servers := [⟨10, 2⟩]
  channels := [⟨20, 10, some 30⟩, ⟨21, 10, some 31⟩]
  members := [⟨10, 1⟩, ⟨10, 2⟩]
  conversations := [⟨30, some 10⟩, ⟨31, some 10⟩, ⟨32, none⟩]
  participants := [⟨30, 1⟩]
  messages := [⟨100, 30, 2⟩, ⟨101, 31, 2⟩]
  threads := [⟨40, 2, some 32⟩]
  threadMembers := [⟨40, 1⟩]

/-- The messages of 2 are deleted from both channels, and the conversation that only 1 gets at is
left. -/
theorem erasure_inexact :
    ¬ SparesOthers sample 1 (eraseUserResidue (fun _ _ => false) 1 sample).2 ∧
    ¬ SparesOthers sample 1 (purgeOrphanedConversations (fun _ _ => false) sample).2 ∧
    (eraseUserResidue (fun _ _ => false) 1 sample).1.isSome = true ∧
    ¬ LeavesNothing sample 1 (eraseUserResidue (fun _ _ => false) 1 sample).2 := by
  refine ⟨by decide, by decide, by decide, ?_⟩
  intro leaves
  have alone : NoOther sample 1 32 := by
    show ∀ v ∈ sample.users, v ≠ 1 → ¬ Access sample 32 v
    decide
  have gone := leaves.conversations ⟨32, none⟩ (by decide) (by decide) alone ⟨32, none⟩ (by decide)
  exact gone rfl

end Results

end Plexichat.Erasure
