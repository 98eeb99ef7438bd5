import Plexichat.Library.Transition
import Plexichat.Encryption.Ratchet

/-! The intervals of a conversation as a partition of message ids. An interval is
opened wherever the caller's message id says, so the partition survives exactly
the calls whose ids do not lie below what is already covered. -/
namespace Plexichat.Encryption.Ratchet
open Transition

structure Partitioned (t : Intervals) : Prop where
  ordered : ∀ r ∈ t, ∀ e ∈ r.endMessageId, r.startMessageId ≤ e
  disjoint : ∀ r ∈ t, ∀ q ∈ t, r.conversationId = q.conversationId →
    r.intervalId ≠ q.intervalId → ∀ m, ¬ (r.contains m = true ∧ q.contains m = true)
  single : ∀ r ∈ t, ∀ q ∈ t, r.conversationId = q.conversationId →
    r.endMessageId = none → q.endMessageId = none → r.intervalId = q.intervalId

/-- An interval may open at `start`: nothing the conversation covers lies above. -/
def CanOpen (s : State) (conversationId start : Nat) : Prop :=
  match activeRow s conversationId with
  | some active => active.startMessageId ≤ start
  | none => ∀ r ∈ s.intervals.rows, r.conversationId = conversationId →
      ∀ e ∈ r.endMessageId, r.startMessageId < e → e ≤ start

theorem inRange_iff (start : Nat) (stop : Option Nat) (m : Nat) :
    inRange start stop m = true ↔ start ≤ m ∧ ∀ e ∈ stop, m < e := by
  unfold inRange
  cases stop with
  | none => simp
  | some e =>
    simp only [Bool.if_false_left, Bool.and_eq_true, Bool.not_eq_true', decide_eq_false_iff_not,
      decide_eq_true_eq, Option.mem_some_iff, forall_eq', Nat.not_lt]

theorem IntervalRow.contains_iff (r : IntervalRow) (m : Nat) :
    r.contains m = true ↔ r.startMessageId ≤ m ∧ ∀ e ∈ r.endMessageId, m < e :=
  inRange_iff r.startMessageId r.endMessageId m

theorem activeRow_some {s : State} {c : Nat} {r : IntervalRow} (h : activeRow s c = some r) :
    r ∈ s.intervals ∧ r.conversationId = c ∧ r.endMessageId = none := by
  have member := List.mem_filter.mp (List.argmax_mem h)
  have opened := member.2
  simp only [isOpen, Bool.and_eq_true, decide_eq_true_eq] at opened
  exact ⟨member.1, opened⟩

theorem activeRow_none {s : State} {c : Nat} (h : activeRow s c = none) :
    ∀ r ∈ s.intervals, r.conversationId = c → r.endMessageId ≠ none := by
  intro r hr same opened
  have empty := List.argmax_eq_none.mp h
  have kept : r ∈ s.intervals.rows.filter (isOpen c) :=
    List.mem_filter.mpr ⟨hr, by simp [isOpen, same, opened]⟩
  simp [empty] at kept

theorem Partitioned.narrow {t t' : Intervals} (h : Partitioned t) {g : IntervalRow → IntervalRow}
    (rows : ∀ r' ∈ t', ∃ r ∈ t, r' = g r) (ident : ∀ r, (g r).intervalId = r.intervalId)
    (conv : ∀ r, (g r).conversationId = r.conversationId)
    (begins : ∀ r, (g r).startMessageId = r.startMessageId)
    (ends : ∀ r ∈ t, (g r).endMessageId = r.endMessageId ∨
      r.endMessageId = none ∧ ∀ e ∈ (g r).endMessageId, r.startMessageId ≤ e) :
    Partitioned t' := by
  have inside : ∀ r ∈ t, ∀ m, (g r).contains m = true → r.contains m = true := by
    intro r hr m hm
    rw [IntervalRow.contains_iff] at hm ⊢
    refine ⟨begins r ▸ hm.1, ?_⟩
    cases ends r hr with
    | inl kept => exact kept ▸ hm.2
    | inr cut => simp [cut.1]
  have still_open : ∀ r ∈ t, (g r).endMessageId = none → r.endMessageId = none := by
    intro r hr opened
    cases ends r hr with
    | inl kept => exact kept ▸ opened
    | inr cut => exact cut.1
  constructor
  · intro r' hr' e he
    obtain ⟨r, hr, rfl⟩ := rows r' hr'
    rw [begins]
    cases ends r hr with
    | inl kept => exact h.ordered r hr e (kept ▸ he)
    | inr cut => exact cut.2 e he
  · intro r' hr' q' hq' shared apart m both
    obtain ⟨r, hr, rfl⟩ := rows r' hr'
    obtain ⟨q, hq, rfl⟩ := rows q' hq'
    rw [conv, conv] at shared
    rw [ident, ident] at apart
    exact h.disjoint r hr q hq shared apart m ⟨inside r hr m both.1, inside q hq m both.2⟩
  · intro r' hr' q' hq' shared openR openQ
    obtain ⟨r, hr, rfl⟩ := rows r' hr'
    obtain ⟨q, hq, rfl⟩ := rows q' hq'
    rw [conv, conv] at shared
    rw [ident, ident]
    exact h.single r hr q hq shared (still_open r hr openR) (still_open q hq openQ)

theorem Partitioned.touch {s : State} (h : Partitioned s.intervals) (intervalId now : Nat) :
    Partitioned (touch s intervalId now).intervals := by
  apply h.narrow (g := fun r => if r.intervalId = intervalId then touched now r else r)
  · exact fun r' hr' => mem_touch.mp hr'
  · intro r
    split <;> rfl
  · intro r
    split <;> rfl
  · intro r
    split <;> rfl
  · intro r _
    split <;> exact .inl rfl

theorem Partitioned.closeActive {s : State} (h : Partitioned s.intervals) {c stop : Nat} (now : Nat)
    (after : ∀ a ∈ activeRow s c, a.startMessageId ≤ stop) :
    Partitioned (closeActive s c stop now).intervals := by
  unfold Ratchet.closeActive
  split
  · rename_i active found
    apply h.narrow (g := fun r => if r.intervalId = active.intervalId ∧ r.endMessageId = none then
      closed stop now r else r)
    · exact fun r' hr' => mem_closeRow.mp hr'
    · intro r
      split <;> rfl
    · intro r
      split <;> rfl
    · intro r
      split <;> rfl
    · intro r hr
      split
      · rename_i hit
        have same : r = active := Table.eq_of_key hr (activeRow_some found).1 hit.1
        refine .inr ⟨hit.2, ?_⟩
        intro e he
        cases he
        exact same ▸ after active found
      · exact .inl rfl
  · exact h

theorem Partitioned.insert {t t' : Intervals} (h : Partitioned t) {row : IntervalRow}
    (opened : row.endMessageId = none) (inserted : t.insert row = some t')
    (below : ∀ r ∈ t, r.conversationId = row.conversationId →
      r.endMessageId ≠ none ∧ ∀ m, r.contains m = true → m < row.startMessageId) :
    Partitioned t' := by
  have starts : ∀ m, row.contains m = true → row.startMessageId ≤ m := by
    intro m hm
    exact ((IntervalRow.contains_iff row m).mp hm).1
  constructor
  · intro r hr e he
    cases (Table.mem_insert inserted).mp hr with
    | inl old => exact h.ordered r old e he
    | inr new => simp [new, opened] at he
  · intro r hr q hq shared apart m both
    cases (Table.mem_insert inserted).mp hr with
    | inl oldR =>
      cases (Table.mem_insert inserted).mp hq with
      | inl oldQ => exact h.disjoint r oldR q oldQ shared apart m both
      | inr newQ =>
        subst newQ
        exact absurd (starts m both.2) (Nat.not_le_of_lt ((below r oldR shared).2 m both.1))
    | inr newR =>
      subst newR
      cases (Table.mem_insert inserted).mp hq with
      | inl oldQ =>
        exact absurd (starts m both.1) (Nat.not_le_of_lt ((below q oldQ shared.symm).2 m both.2))
      | inr newQ => exact apart (congrArg _ newQ.symm)
  · intro r hr q hq shared openR openQ
    cases (Table.mem_insert inserted).mp hr with
    | inl oldR =>
      cases (Table.mem_insert inserted).mp hq with
      | inl oldQ => exact h.single r oldR q oldQ shared openR openQ
      | inr newQ => exact absurd openR (below r oldR (newQ ▸ shared)).1
    | inr newR =>
      cases (Table.mem_insert inserted).mp hq with
      | inl oldQ => exact absurd openQ (below q oldQ (newR ▸ shared.symm)).1
      | inr newQ => rw [newR, newQ]

theorem closed_below {s : State} (h : Partitioned s.intervals) {c start : Nat} (now : Nat)
    (room : CanOpen s c start) :
    ∀ r ∈ (closeActive s c start now).intervals, r.conversationId = c →
      r.endMessageId ≠ none ∧ ∀ m, r.contains m = true → m < start := by
  intro r' hr' shared
  unfold closeActive at hr'
  split at hr'
  · rename_i active found
    obtain ⟨here, conversation, opened⟩ := activeRow_some found
    have lower : active.startMessageId ≤ start := by simpa [CanOpen, found] using room
    obtain ⟨r, hr, rfl⟩ := mem_closeRow.mp hr'
    by_cases hit : r.intervalId = active.intervalId
    · have same : r = active := Table.eq_of_key hr here hit
      have cut : r.intervalId = active.intervalId ∧ r.endMessageId = none := ⟨hit, same ▸ opened⟩
      rw [if_pos cut]
      refine ⟨by simp [closed], fun m hm => ?_⟩
      exact ((IntervalRow.contains_iff _ m).mp hm).2 start rfl
    · -- another row of the conversation is closed, and disjoint from the active one
      rw [if_neg fun cut => hit cut.1] at shared ⊢
      have closed : r.endMessageId ≠ none := fun opened' =>
        hit (h.single r hr active here (shared.trans conversation.symm) opened' opened)
      refine ⟨closed, fun m hm => ?_⟩
      have outside := h.disjoint r hr active here (shared.trans conversation.symm) hit m
      have below : ¬ active.startMessageId ≤ m := fun above =>
        outside ⟨hm, (IntervalRow.contains_iff active m).mpr ⟨above, by simp [opened]⟩⟩
      omega
  · rename_i nothing
    have closed := activeRow_none nothing r' hr' shared
    refine ⟨closed, fun m hm => ?_⟩
    have limits : ∀ r ∈ s.intervals.rows, r.conversationId = c →
        ∀ e ∈ r.endMessageId, r.startMessageId < e → e ≤ start := by
      simpa [CanOpen, nothing] using room
    obtain ⟨begins, ends⟩ := (IntervalRow.contains_iff r' m).mp hm
    obtain ⟨e, he⟩ := Option.ne_none_iff_exists'.mp closed
    have within : m < e := ends e he
    have limit := limits r' hr' shared e he (Nat.lt_of_le_of_lt begins within)
    omega

theorem CanOpen.active_le {s : State} {c start : Nat} (room : CanOpen s c start) :
    ∀ a ∈ activeRow s c, a.startMessageId ≤ start := by
  intro a ha
  simpa [CanOpen, Option.mem_def.mp ha] using room

variable {aead : Aead} {kdf : Kdf} {cfg : Config}

theorem create_cases (aead : Aead) (s : State) (c start now : Nat) (draw : Draw) :
    ((create aead s c start now draw).2 = none ∧
      (create aead s c start now draw).1.intervals = (closeActive s c start now).intervals) ∨
    ∃ row, row.conversationId = c ∧ row.startMessageId = start ∧ row.endMessageId = none ∧
      (closeActive s c start now).intervals.insert row =
        some (create aead s c start now draw).1.intervals := by
  unfold create
  simp only
  split
  · exact .inl ⟨rfl, rfl⟩
  · split
    · exact .inl ⟨rfl, rfl⟩
    · rename_i inserted
      exact .inr ⟨_, rfl, rfl, rfl, inserted⟩

theorem Partitioned.create {s : State} (h : Partitioned s.intervals) {c start : Nat} (now : Nat)
    (draw : Draw) (room : CanOpen s c start) :
    Partitioned (create aead s c start now draw).1.intervals := by
  have closed := h.closeActive now room.active_le
  cases create_cases aead s c start now draw with
  | inl failed => exact failed.2 ▸ closed
  | inr added =>
    obtain ⟨row, rfl, rfl, opened, inserted⟩ := added
    exact closed.insert opened inserted (closed_below h now room)

theorem meets_open {r row : IntervalRow} {e : Nat} (ended : e ∈ r.endMessageId)
    (nonempty : r.startMessageId < e) (opened : row.endMessageId = none)
    (overlap : row.startMessageId < e) :
    ∃ m, r.contains m = true ∧ row.contains m = true := by
  refine ⟨max r.startMessageId row.startMessageId, ?_, ?_⟩
  · rw [IntervalRow.contains_iff, Option.mem_def.mp ended]
    exact ⟨Nat.le_max_left _ _, fun e' he' => by cases he'; omega⟩
  · rw [IntervalRow.contains_iff, opened]
    exact ⟨Nat.le_max_right _ _, fun e' he' => by cases he'⟩

def InOrder (aead : Aead) (cfg : Config) (s : State) : Action → Prop
  | .encrypt conversationId messageId _ _ _ _ => CanOpen s conversationId messageId
  | .rotateIfDue conversationId lastMessageId now _ =>
    ∀ active ∈ getActive aead s conversationId, due cfg s active now = true →
      CanOpen s conversationId (lastMessageId + 1)
  | .closeActive conversationId endMessageId _ =>
    ∀ active ∈ activeRow s conversationId, active.startMessageId ≤ endMessageId
  | _ => True

theorem getActive_row {s : State} {c : Nat} {i : RatchetInterval}
    (h : getActive aead s c = some i) :
    ∃ row, activeRow s c = some row ∧ i = rowToInterval aead s.ring row := by
  obtain ⟨row, found, rfl⟩ := Option.map_eq_some_iff.mp h
  exact ⟨row, found, rfl⟩

def Shut (s : State) (intervalId : Nat) : Prop :=
  ∃ r, s.intervals.find intervalId = some r ∧ r.endMessageId ≠ none

theorem Shut.closeActive {s : State} {id : Nat} (h : Shut s id) (c stop now : Nat) :
    Shut (closeActive s c stop now) id := by
  obtain ⟨r, found, ended⟩ := h
  unfold Ratchet.closeActive
  split
  · refine ⟨_, (find_closeRow ..).trans (congrArg _ found), ?_⟩
    simpa only [ended, and_false, if_false] using ended
  · exact ⟨r, found, ended⟩

theorem Shut.create {s : State} {id : Nat} (h : Shut s id) (c start now : Nat) (draw : Draw) :
    Shut (create aead s c start now draw).1 id := by
  obtain ⟨r, found, ended⟩ := h.closeActive c start now
  cases create_cases aead s c start now draw with
  | inl failed => exact ⟨r, failed.2 ▸ found, ended⟩
  | inr added =>
    obtain ⟨row, -, -, -, inserted⟩ := added
    have other : row.intervalId ≠ id := by
      intro same
      have free := (Table.insert_eq_some inserted).1
      rw [same, found] at free
      cases free
    exact ⟨r, (Table.find_insert inserted id).trans ((if_neg other).trans found), ended⟩

theorem Shut.splitOnDelete {s : State} {id : Nat} (h : Shut s id) (c deleted now : Nat)
    (draw : Draw) : Shut (splitOnDelete aead cfg s c deleted now draw).1 id := by
  unfold Ratchet.splitOnDelete
  split
  · split
    · exact h
    · split
      · exact (h.closeActive c (deleted + 1) now).create c (deleted + 1) now draw
      · exact h
  · exact h

theorem splitOnDelete_eq_self {s : State} {c deleted : Nat} (now : Nat) (draw : Draw)
    (outside : cfg.splitOnDelete = true → ∀ i ∈ getActive aead s c, i.contains deleted = false) :
    splitOnDelete aead cfg s c deleted now draw = (s, none) := by
  unfold splitOnDelete
  split
  · rename_i splits
    split
    · rfl
    · rename_i active found
      rw [outside splits active found]
      rfl
  · rfl

theorem splitOnDelete_shuts {s : State} {c deleted : Nat} {active : RatchetInterval}
    (splits : cfg.splitOnDelete = true) (found : getActive aead s c = some active)
    (inside : active.contains deleted = true) (now : Nat) (draw : Draw) :
    (∃ r, s.intervals.find active.intervalId = some r ∧ r.endMessageId = none) ∧
      Shut (splitOnDelete aead cfg s c deleted now draw).1 active.intervalId := by
  obtain ⟨row, selected, rfl⟩ := getActive_row found
  obtain ⟨here, -, unended⟩ := activeRow_some selected
  have known : s.intervals.find row.intervalId = some row := Table.find_eq_some.mpr ⟨here, rfl⟩
  have ended : Shut (closeActive s c (deleted + 1) now) row.intervalId := by
    unfold closeActive
    rw [selected]
    refine ⟨_, (find_closeRow ..).trans (congrArg _ known), ?_⟩
    simp [unended, closed]
  refine ⟨⟨row, known, unended⟩, ?_⟩
  unfold splitOnDelete
  rw [if_pos splits, found]
  simp only [inside, if_true]
  exact ended.create c (deleted + 1) now draw

theorem Partitioned.encrypt {s : State} (h : Partitioned s.intervals) {c m now : Nat}
    {plaintext : Bytes} {nonce : Nonce} {draw : Draw} (room : CanOpen s c m) :
    Partitioned (encrypt aead kdf s c m plaintext now nonce draw).1.intervals := by
  have ensured : Partitioned (ensureInterval aead s c m now draw).1.intervals := by
    unfold ensureInterval
    split
    · split
      · exact h
      · exact h.create now draw room
    · exact h.create now draw room
  unfold Ratchet.encrypt
  split
  · rename_i s' e
    simpa only [e] using ensured
  · rename_i s' interval e
    have kept : Partitioned s'.intervals := by simpa only [e] using ensured
    split
    · exact kept
    · exact kept.touch _ now

theorem Partitioned.splitOnDelete {s : State} (h : Partitioned s.intervals) (c deleted now : Nat)
    (draw : Draw) : Partitioned (splitOnDelete aead cfg s c deleted now draw).1.intervals := by
  unfold Ratchet.splitOnDelete
  split
  · split
    · exact h
    · rename_i active found
      split
      · rename_i holds
        obtain ⟨row, here, rfl⟩ := getActive_row found
        obtain ⟨begins, -⟩ := (IntervalRow.contains_iff row deleted).mp holds
        have room : CanOpen s c (deleted + 1) := by
          simp only [CanOpen, here]
          omega
        have cut := h.closeActive now room.active_le
        have below := closed_below h now room
        apply cut.create now draw
        have nothing : activeRow (Ratchet.closeActive s c (deleted + 1) now) c = none := by
          cases e : activeRow (Ratchet.closeActive s c (deleted + 1) now) c with
          | none => rfl
          | some row' =>
            obtain ⟨there, shared, opened⟩ := activeRow_some e
            exact absurd opened (below row' there shared).1
        simp only [CanOpen, nothing]
        intro r hr shared e he nonempty
        have last : r.contains (e - 1) = true := by
          rw [IntervalRow.contains_iff, Option.mem_def.mp he]
          simp only [Option.mem_some_iff, forall_eq']
          omega
        have := (below r hr shared).2 (e - 1) last
        omega
      · exact h
  · exact h

theorem step_keeps_partition {s t : State} {a : Action} (h : Partitioned s.intervals)
    (ok : InOrder aead cfg s a) (next : step aead kdf cfg s a = some t) :
    Partitioned t.intervals := by
  cases a with
  | encrypt c m plaintext now nonce draw =>
    cases next
    exact h.encrypt ok
  | rotateIfDue c last now draw =>
    cases next
    unfold rotateIfDue
    split
    · exact h
    · rename_i active found
      split
      · exact h.create now draw (ok active found ‹_›)
      · exact h
  | splitOnDelete c deleted now draw =>
    cases next
    exact h.splitOnDelete c deleted now draw
  | closeActive c stop now =>
    cases next
    exact h.closeActive now ok
  | touch intervalId now =>
    cases next
    exact h.touch intervalId now
  | messages rows =>
    cases next
    exact h
  | rotateKeyring newKey =>
    cases next
    exact h

def Initial (s : State) : Prop := s.intervals.rows = []

theorem initial_partitioned {s : State} (h : Initial s) : Partitioned s.intervals := by
  have none : ∀ r ∈ s.intervals, False := by
    intro r hr
    rw [Table.mem_rows, h] at hr
    exact absurd hr List.not_mem_nil
  exact ⟨fun r hr => (none r hr).elim, fun r hr => (none r hr).elim, fun r hr => (none r hr).elim⟩

instance (s : State) (c start : Nat) : Decidable (CanOpen s c start) :=
  match h : activeRow s c with
  | some active => decidable_of_iff (active.startMessageId ≤ start) (by simp only [CanOpen, h])
  | none => decidable_of_iff (∀ r ∈ s.intervals.rows, r.conversationId = c →
      ∀ e ∈ r.endMessageId, r.startMessageId < e → e ≤ start) (by simp only [CanOpen, h])

instance (s : State) : (a : Action) → Decidable (InOrder aead cfg s a)
  | .encrypt c m _ _ _ _ => inferInstanceAs (Decidable (CanOpen s c m))
  | .rotateIfDue c last now _ =>
    inferInstanceAs (Decidable (∀ active ∈ getActive aead s c, due cfg s active now = true →
      CanOpen s c (last + 1)))
  | .closeActive c stop _ =>
    inferInstanceAs (Decidable (∀ active ∈ activeRow s c, active.startMessageId ≤ stop))
  | .splitOnDelete .. | .touch .. | .messages _ | .rotateKeyring _ => isTrue trivial

def defaultConfig : Config := ⟨1000, 86400, true⟩

def sampleDraw (n : Nat) : Draw := ⟨sampleKey 7, n, sampleKey 9, sampleNonce 0⟩

def sampleKdf : Kdf := fun _ _ _ => sampleKey 1

def noIntervals : State := ⟨Table.empty, [], .empty⟩

def editAfterRotation : List Action :=
  [.encrypt 1 10 [104, 105] 0 (sampleNonce 5) (sampleDraw 1),
    .rotateIfDue 1 20 86400000 (sampleDraw 2),
    .encrypt 1 10 [104, 111] 86400001 (sampleNonce 5) (sampleDraw 3)]

/-- The edit inverts the interval that began at message 21. -/
theorem edit_after_rotation_inverts : ¬ ∀ s : State,
    Reachable (step shiftAead sampleKdf defaultConfig) Initial s → Partitioned s.intervals := by
  intro law
  let s : State :=
    (run (step shiftAead sampleKdf defaultConfig) noIntervals editAfterRotation).get rfl
  have reached : Reachable (step shiftAead sampleKdf defaultConfig) Initial s :=
    reachable_of_run (s := noIntervals) editAfterRotation rfl (Option.some_get _).symm
  have inverted : ∃ r ∈ s.intervals.rows, ∃ e ∈ r.endMessageId, e < r.startMessageId := by decide
  obtain ⟨r, hr, e, he, below⟩ := inverted
  exact absurd ((law s reached).ordered r hr e he) (Nat.not_le_of_lt below)

/-- While no call names an id below the ids its conversation already covers, the
intervals stay well-formed and disjoint with at most one open. -/
theorem intervals_stay_partitioned {s : State}
    (h : Guarded (step aead kdf cfg) (InOrder aead cfg) Initial s) : Partitioned s.intervals :=
  guarded_invariant (fun _ => initial_partitioned)
    (fun _ _ _ kept ok next => step_keeps_partition kept ok next) h

/-- New messages, a rotation and a split in order leave three intervals. -/
theorem ordered_run_partitioned : ∃ s : State, s.intervals.rows.length = 3 ∧
    Partitioned s.intervals := by
  let calls : List Action :=
    [.encrypt 1 10 [104, 105] 0 (sampleNonce 5) (sampleDraw 1),
      .rotateIfDue 1 20 86400000 (sampleDraw 2), .splitOnDelete 1 30 86400001 (sampleDraw 3)]
  let s : State := (runGuarded (step shiftAead sampleKdf defaultConfig)
    (InOrder shiftAead defaultConfig) noIntervals calls).get (by decide)
  exact ⟨s, by decide, intervals_stay_partitioned
    (guarded_of_run (s := noIntervals) calls rfl (Option.some_get _).symm)⟩

end Plexichat.Encryption.Ratchet
