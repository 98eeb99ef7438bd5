import Mathlib.Data.List.Forall2
import Plexichat.Artifacts.OpLog

/-! The log has what was appended, in its order, and a replay gives it back. -/
namespace Plexichat.Artifacts.OpLog
open Transition Interleaving Json

variable {F : Type} [Floats F] {depth : Nat}

section Payload

variable {v : Value F Str}

variable [LawfulFloats F]

/-- Data that is encodable is read back from its text; a string must be no text of other data. -/
theorem jsonLoads_jsonDumps {data : List Char}
    (distinct : v.all (fun _ => true) (fun ks => decide ks.Nodup) = true)
    (text : encodable v = true) (written : jsonDumps depth v = .ok (some data))
    (plain : ∀ s, v = .str s →
      (loads depth (characters s) : Except Error (Value F Str)) = .error .value) :
    jsonLoads depth data = some v := by
  have read : dumps depth v = .ok data → jsonLoads depth data = some v := by
    intro dumped
    have loaded := loads_dumps dumped (fun c (member : c ∈ []) => absurd member List.not_mem_nil)
    rw [List.append_nil, readBack_eq (clean_of_encodable distinct text)] at loaded
    rw [jsonLoads, loaded]
  have mapped : (dumps depth v).map some = .ok (some data) → dumps depth v = .ok data := by
    intro h
    cases dumped : dumps depth v with
    | error e =>
      rw [dumped] at h
      cases h
    | ok t =>
      rw [dumped] at h
      cases h
      rfl
  cases v with
  | null => cases written
  | bool b => exact read (mapped written)
  | int n => exact read (mapped written)
  | float x => exact read (mapped written)
  | str s =>
    cases written
    rw [jsonLoads, plain s rfl]
    exact congrArg some (congrArg Value.str (map_characters text))
  | list l => exact read (mapped written)
  | dict l => exact read (mapped written)

end Payload

def Returned.persisted (c : Returned F) : Bool :=
  match c.result with
  | .seq _ => true
  | _ => false

def Returned.replayed (c : Returned F) : Option (ReplayedOp F) :=
  match c.result with
  | .seq n => some ⟨n, c.op.opType, c.op.actorId, c.now, c.op.data.value⟩
  | _ => none

def ops (calls : List (Returned F)) : List (ReplayedOp F) := calls.filterMap Returned.replayed

structure Stored (depth : Nat) (row : OpRow) (c : Returned F) : Prop where
  result : c.result = .seq row.seq
  opType : row.opType = c.op.opType
  actorId : row.actorId = c.op.actorId
  createdAt : row.createdAt = c.now
  data : jsonDumps depth c.op.data.value = .ok (some row.data)

structure Logged (depth : Nat) (s : Shared F) : Prop where
  stored : List.Forall₂ (Stored depth) s.rows (s.calls.filter Returned.persisted)
  numbered : s.rows.map OpRow.seq = List.range' 1 s.rows.length
  replayable : s.rows.map (replay depth) = (ops s.calls).map some

structure Ready (depth : Nat) (op : Op F) (dataJson : Option (List Char)) : Prop where
  written : jsonDumps depth op.data.value = .ok dataJson
  read : ∀ t, dataJson = some t → jsonLoads depth t = some op.data.value

def Tracked (depth : Nat) (s : Shared F) : Phase F → Prop
  | .idle => True
  | .fetching op dataJson _ _ => Ready depth op dataJson
  | .inserting op dataJson _ _ seq =>
    Ready depth op dataJson ∧ 1 ≤ seq ∧ seq ≤ s.rows.length + 1
  | .replaying received => received = (ops s.calls).take received.length

section Pages

variable {rows : List OpRow} {first n k : Nat}

omit [Floats F] in
theorem foldl_max_range' (n : Nat) : (List.range' 1 n).foldl max 0 = n := by
  induction n with
  | zero => rfl
  | succ n ih =>
    rw [List.range'_concat, List.foldl_append, ih]
    show max n (1 + 1 * n) = n + 1
    omega

theorem nextSeq_eq (numbered : rows.map OpRow.seq = List.range' 1 n) : nextSeq rows = n + 1 := by
  rw [nextSeq, numbered, foldl_max_range']

theorem filter_eq_drop (numbered : rows.map OpRow.seq = List.range' first n) (below : first ≤ k + 1) :
    (rows.filter fun r => (k : Int) < r.seq) = rows.drop (k + 1 - first) := by
  induction rows generalizing first n with
  | nil => simp
  | cons r rows ih =>
    cases n with
    | zero => cases numbered
    | succ n =>
      rw [List.map_cons, List.range'_succ] at numbered
      obtain ⟨here, there⟩ := List.cons.inj numbered
      by_cases last : first = k + 1
      · have all : ∀ q ∈ rows, (k : Int) < q.seq := by
          intro q member
          have among : q.seq ∈ List.range' (first + 1) n :=
            there ▸ List.mem_map_of_mem (f := OpRow.seq) member
          have low := (List.mem_range'_1.mp among).1
          omega
        have kept : (rows.filter fun r => (k : Int) < r.seq) = rows :=
          List.filter_eq_self.mpr fun q member => decide_eq_true (all q member)
        rw [List.filter_cons_of_pos (by simp; omega), kept, last, Nat.sub_self, List.drop_zero]
      · rw [List.filter_cons_of_neg (by simp; omega), ih there (by omega)]
        have shift : k + 1 - first = k + 1 - (first + 1) + 1 := by omega
        rw [shift, List.drop_succ_cons]

theorem sorted_rows (numbered : rows.map OpRow.seq = List.range' first n) :
    rows.Pairwise fun r q => decide ((r.seq : Int) ≤ q.seq) = true := by
  have ordered : (rows.map OpRow.seq).Pairwise (· < ·) := numbered ▸ List.pairwise_lt_range'
  refine (List.pairwise_map.mp ordered).imp ?_
  intro r q less
  exact decide_eq_true (by omega)

theorem batch_take (numbered : rows.map OpRow.seq = List.range' 1 n) (known limit : Nat) :
    Paging.batch (fun r => (r.seq : Int)) (rows.take known) limit k =
      ((rows.take known).drop k).take limit := by
  have front : (rows.take known).map OpRow.seq = List.range' 1 (min known n) := by
    rw [List.map_take, numbered]
    rcases Nat.le_total n known with all | some_left
    · rw [List.take_range'_of_length_le all, Nat.min_eq_right all]
    · rw [List.take_range'_of_length_ge some_left, Nat.min_eq_left some_left]
  have beyond := filter_eq_drop (k := k) front (by omega)
  rw [Nat.add_sub_cancel] at beyond
  rw [Paging.batch, beyond, List.mergeSort_of_pairwise]
  exact (sorted_rows front).sublist (List.drop_sublist k _)

end Pages

section Steps

variable {s : Shared F} {op : Op F} {now : Nat}

theorem Logged.answer (logged : Logged depth s) {result : Result} (other : ∀ n, result ≠ .seq n) :
    Logged depth (s.answer op now result) := by
  have dropped : (s.answer op now result).calls.filter Returned.persisted =
      s.calls.filter Returned.persisted := by
    cases result with
    | seq n => exact absurd rfl (other n)
    | none => simp [Shared.answer, Returned.persisted]
    | raised => simp [Shared.answer, Returned.persisted]
  have same : ops (s.answer op now result).calls = ops s.calls := by
    cases result with
    | seq n => exact absurd rfl (other n)
    | none => simp [Shared.answer, ops, Returned.replayed]
    | raised => simp [Shared.answer, ops, Returned.replayed]
  constructor
  case stored => rw [dropped]; exact logged.stored
  case numbered => exact logged.numbered
  case replayable => rw [same]; exact logged.replayable

theorem Logged.insert (logged : Logged depth s) {data : List Char}
    (ready : Ready depth op (some data)) {seq : Nat} (next : seq = s.rows.length + 1) :
    Logged depth { s.answer op now (.seq seq) with
      rows := s.rows ++ [⟨seq, op.opType, op.actorId, data, now⟩] } := by
  constructor
  case stored =>
    show List.Forall₂ _ _ ((s.calls ++ [_]).filter Returned.persisted)
    rw [List.filter_append]
    exact List.rel_append logged.stored (.cons ⟨rfl, rfl, rfl, rfl, ready.written⟩ .nil)
  case numbered =>
    show (s.rows ++ [_]).map OpRow.seq = List.range' 1 (s.rows ++ [_]).length
    rw [List.map_append, logged.numbered, List.length_append, List.length_singleton,
      List.range'_concat, next]
    simp [Nat.add_comm]
  case replayable =>
    show (s.rows ++ [_]).map (replay depth) = (ops (s.calls ++ [_])).map some
    rw [List.map_append, logged.replayable, ops, ops, List.filterMap_append, List.map_append]
    congr 1
    show [replay depth _] = [some _]
    rw [replay, ready.read data rfl]
    rfl

theorem Tracked.mono {t : Shared F} {p : Phase F} (tracked : Tracked depth s p)
    (rows : s.rows.length ≤ t.rows.length) (calls : ops s.calls <+: ops t.calls) :
    Tracked depth t p := by
  cases p with
  | idle => trivial
  | fetching op dataJson now attempts => exact tracked
  | inserting op dataJson now attempts seq =>
    exact ⟨tracked.1, tracked.2.1, Nat.le_trans tracked.2.2 (Nat.succ_le_succ rows)⟩
  | replaying received =>
    have fits : received.length ≤ (ops s.calls).length := by
      have same := congrArg List.length tracked
      rw [List.length_take] at same
      omega
    obtain ⟨more, whole⟩ := calls
    show received = (ops t.calls).take received.length
    rw [← whole, List.take_append_of_le_length fits]
    exact tracked

omit [Floats F] in
theorem ops_answer (s : Shared F) (op : Op F) (now : Nat) (result : Result) :
    ops s.calls <+: ops (s.answer op now result).calls := by
  show ops s.calls <+: ops (s.calls ++ [_])
  rw [ops, ops, List.filterMap_append]
  exact List.prefix_append _ _

theorem ready_of_check [LawfulFloats F] {found : Bool} {dataJson : Option (List Char)}
    (passed : check depth op found = .accepted dataJson)
    (plain : ∀ t, op.data.value = .str t →
      (loads depth (characters t) : Except Error (Value F Str)) = .error .value) :
    Ready depth op dataJson := by
  unfold check at passed
  split at passed
  · cases passed
  · split at passed
    · cases passed
    · cases passed
    · split at passed
      · cases passed
      · rename_i fits
        rw [Bool.or_eq_true, not_or, Bool.not_eq_true', Bool.not_eq_false] at fits
        split at passed
        · cases passed
        · split at passed
          · cases passed
          · rename_i dumped
            cases passed
            constructor
            case written => exact dumped
            case read =>
              rintro t rfl
              exact jsonLoads_jsonDumps op.data.distinct fits.1 dumped plain

theorem seq_ops (logged : Logged depth s) :
    (ops s.calls).map ReplayedOp.seq = List.range' 1 s.rows.length := by
  have same : ∀ {rows : List OpRow} {l : List (ReplayedOp F)},
      rows.map (replay depth) = l.map some → l.map ReplayedOp.seq = rows.map OpRow.seq := by
    intro rows
    induction rows with
    | nil =>
      intro l h
      rw [List.map_eq_nil_iff.mp h.symm]
      rfl
    | cons row rows ih =>
      intro l h
      cases l with
      | nil => cases h
      | cons o l =>
        obtain ⟨here, there⟩ := List.cons.inj h
        obtain ⟨op, -, rfl⟩ := Option.map_eq_some_iff.mp here
        rw [List.map_cons, List.map_cons, ih there]
  rw [same logged.replayable, logged.numbered]

theorem lastSeq_eq (logged : Logged depth s) {received : List (ReplayedOp F)}
    (tracked : received = (ops s.calls).take received.length) :
    lastSeq received = received.length := by
  have fits : received.length ≤ s.rows.length := by
    have seqs := congrArg List.length (seq_ops logged)
    rw [List.length_map, List.length_range'] at seqs
    have taken := congrArg List.length tracked
    rw [List.length_take] at taken
    omega
  have seqs : received.map ReplayedOp.seq = List.range' 1 received.length := by
    have front := congrArg (List.map ReplayedOp.seq) tracked
    rwa [List.map_take, seq_ops logged, List.take_range'_of_length_ge fits] at front
  unfold lastSeq
  cases ends : received.getLast? with
  | none =>
    rw [List.getLast?_eq_none_iff.mp ends]
    rfl
  | some o =>
    have last := congrArg List.getLast? seqs
    rw [List.getLast?_map, ends, List.getLast?_range'] at last
    split at last
    · cases last
    · have seq : o.seq = 1 + received.length - 1 := Option.some.inj last
      show (o.seq : Int) = received.length
      omega

omit [Floats F] in
theorem filterMap_of_map {α β : Type} {f : α → Option β} {l : List α} {l' : List β}
    (all : l.map f = l'.map some) : l.filterMap f = l' := by
  have same := congrArg (List.filterMap id) all
  simpa [List.filterMap_map] using same

theorem listArtifactOps_eq (logged : Logged depth s) {received : List (ReplayedOp F)}
    (tracked : received = (ops s.calls).take received.length) (limit : Int) (known : Nat) :
    listArtifactOps depth (s.rows.take known) (lastSeq received) limit =
      (((ops s.calls).take known).drop received.length).take (max 1 (min limit 2000)).toNat := by
  have cursor : max 0 (received.length : Int) = (received.length : Nat) := by omega
  rw [lastSeq_eq logged tracked, listArtifactOps, cursor, batch_take logged.numbered]
  have mapped := congrArg (fun l => ((l.take known).drop received.length).take
    (max 1 (min limit 2000)).toNat) logged.replayable
  simp only [← List.map_take, ← List.map_drop] at mapped
  exact filterMap_of_map mapped

theorem tracked_page (logged : Logged depth s) {received : List (ReplayedOp F)}
    (tracked : received = (ops s.calls).take received.length) (limit : Int) (known : Nat) :
    Tracked depth s (.replaying (received ++
      listArtifactOps depth (s.rows.take known) (lastSeq received) limit)) := by
  rw [listArtifactOps_eq logged tracked, List.drop_take, List.take_take]
  generalize min (max 1 (min limit 2000)).toNat (known - received.length) = m
  show _ = (ops s.calls).take _
  rw [List.length_append, List.length_take, List.take_add, ← tracked]
  congr 1
  refine List.take_eq_take_iff.mpr ?_
  omega

end Steps

variable {ι : Type} [DecidableEq ι]

theorem logged_throughout [LawfulFloats F] {s : World ι F}
    (run : Guarded (step (next depth)) (Faithful depth) init s) :
    Holds (Logged depth) (Tracked depth) (fun _ _ => True) s := by
  refine holds_throughout ?_ ?_ run
  · rintro s ⟨no_rows, no_calls, idle⟩
    refine ⟨⟨?_, ?_, ?_⟩, ?_, fun _ _ _ => trivial⟩
    · rw [no_rows, no_calls]
      exact .nil
    · rw [no_rows]
      rfl
    · rw [no_rows, no_calls]
      rfl
    · intro i
      rw [idle i]
      trivial
  · intro s i a r holds faithful moved
    have logged := holds.shared
    have mine := holds.each i
    suffices kept : Logged depth r.1 ∧ Tracked depth r.1 r.2 ∧
        s.shared.rows.length ≤ r.1.rows.length ∧ ops s.shared.calls <+: ops r.1.calls from
      ⟨kept.1, kept.2.1, fun j _ =>
        ⟨(holds.each j).mono kept.2.2.1 kept.2.2.2, trivial, trivial⟩⟩
    have answered : ∀ op now result, (∀ n, result ≠ .seq n) →
        Logged depth (s.shared.answer op now result) ∧ Tracked depth (s.shared.answer op now result)
          .idle ∧ s.shared.rows.length ≤ (s.shared.answer op now result).rows.length ∧
          ops s.shared.calls <+: ops (s.shared.answer op now result).calls :=
      fun op now result other => ⟨logged.answer other, trivial, Nat.le_refl _, ops_answer _ _ _ _⟩
    generalize s.pc i = p at moved mine
    cases p with
    | idle =>
      cases a with
      | append op found now =>
        cases passed : check depth op found with
        | refused =>
          rw [next, passed] at moved
          cases moved
          exact answered _ _ _ fun n h => by cases h
        | raised =>
          rw [next, passed] at moved
          cases moved
          exact answered _ _ _ fun n h => by cases h
        | accepted dataJson =>
          rw [next, passed] at moved
          cases moved
          exact ⟨logged, ready_of_check passed faithful, Nat.le_refl _, List.prefix_refl _⟩
      | join =>
        cases moved
        exact ⟨logged, rfl, Nat.le_refl _, List.prefix_refl _⟩
      | fetch => cases moved
      | fetchFails => cases moved
      | insert error => cases moved
      | page limit known => cases moved
    | fetching op dataJson now attempts =>
      cases a with
      | fetch =>
        cases attempts with
        | zero =>
          cases moved
          exact answered _ _ _ fun n h => by cases h
        | succ attempts =>
          cases moved
          have next := nextSeq_eq logged.numbered
          refine ⟨logged, ⟨mine, ?_, ?_⟩, Nat.le_refl _, List.prefix_refl _⟩
          · rw [next]
            exact Nat.succ_pos _
          · rw [next]
      | fetchFails =>
        cases moved
        exact answered _ _ _ fun n h => by cases h
      | append op found now => cases moved
      | join => cases moved
      | insert error => cases moved
      | page limit known => cases moved
    | inserting op dataJson now attempts seq =>
      obtain ⟨ready, low, high⟩ := mine
      cases a with
      | insert error =>
        cases error with
        | some error =>
          cases error with
          | retried =>
            cases moved
            exact ⟨logged, ready, Nat.le_refl _, List.prefix_refl _⟩
          | other =>
            cases moved
            exact answered _ _ _ fun n h => by cases h
        | none =>
          cases dataJson with
          | none =>
            cases moved
            exact answered _ _ _ fun n h => by cases h
          | some data =>
            simp only [next] at moved
            split at moved
            · cases moved
              exact ⟨logged, ready, Nat.le_refl _, List.prefix_refl _⟩
            · rename_i fresh
              cases moved
              have beyond : seq = s.shared.rows.length + 1 := by
                rw [logged.numbered, List.contains_iff_mem, List.mem_range'_1] at fresh
                omega
              refine ⟨logged.insert ready beyond, trivial, ?_, ops_answer _ _ _ _⟩
              show _ ≤ (s.shared.rows ++ [_]).length
              rw [List.length_append]
              exact Nat.le_add_right _ _
      | append op found now => cases moved
      | join => cases moved
      | fetch => cases moved
      | fetchFails => cases moved
      | page limit known => cases moved
    | replaying received =>
      cases a with
      | page limit known =>
        cases moved
        exact ⟨logged, tracked_page logged mine limit known, Nat.le_refl _, List.prefix_refl _⟩
      | append op found now => cases moved
      | join => cases moved
      | fetch => cases moved
      | fetchFails => cases moved
      | insert error => cases moved

/-- In a run that appends no text of other data as a string, there is a row for each call that
returned a number and none for another, the numbers are 1 to N, and a client has received the
first ops, with their data; all of them, once a page of the rows is empty. -/
theorem replay_exact [LawfulFloats F] (s : World ι F)
    (run : Guarded (step (next depth)) (Faithful depth) init s) :
    List.Forall₂ (Stored depth) s.shared.rows (s.shared.calls.filter Returned.persisted) ∧
      s.shared.rows.map OpRow.seq = List.range' 1 s.shared.rows.length ∧
      ∀ i received, s.pc i = .replaying received →
        received = (ops s.shared.calls).take received.length ∧
        ∀ limit, (listArtifactOps depth s.shared.rows (lastSeq received) limit :
          List (ReplayedOp F)) = [] → received = ops s.shared.calls := by
  have holds := logged_throughout run
  have logged := holds.shared
  refine ⟨logged.stored, logged.numbered, ?_⟩
  intro i received here
  have tracked : Tracked depth s.shared (.replaying received) := here ▸ holds.each i
  refine ⟨tracked, ?_⟩
  intro limit none_left
  have page := listArtifactOps_eq logged tracked limit s.shared.rows.length
  have seqs := congrArg List.length (seq_ops logged)
  rw [List.length_map, List.length_range'] at seqs
  rw [List.take_length, none_left, ← seqs, List.take_length] at page
  have rest : (ops s.shared.calls).drop received.length = [] := by
    rcases List.take_eq_nil_iff.mp page.symm with zero | rest
    · omega
    · exact rest
  have all : (ops s.shared.calls).take received.length = ops s.shared.calls :=
    List.take_of_length_le (List.drop_eq_nil_iff.mp rest)
  exact tracked.trans all

def unused : World (Fin 2) Special := ⟨⟨[], []⟩, fun _ => .idle⟩

theorem replay_exact_edit : ∃ s : World (Fin 2) Special, s.shared.calls.length = 1 ∧
    s.shared.rows.map OpRow.seq = [1] := by
  have start : Guarded (step (next 8)) (Faithful 8) init unused := .start ⟨rfl, rfl, fun _ => rfl⟩
  have appends := start.step (a := (0, Action.append
    ⟨"edit", some 7, .dict [([.char 'd'], .str [.char 'h', .char 'i'])], rfl⟩ true 5))
    (by exact fun s h => by cases h) rfl
  have fetched := appends.step (a := (0, Action.fetch)) (by trivial) rfl
  have inserted := fetched.step (a := (0, Action.insert none)) (by trivial) rfl
  exact ⟨_, rfl, (replay_exact _ inserted).2.1⟩

/-- The string 5 comes back as a number. -/
theorem replay_differs : ∃ s : World (Fin 2) Special, Reachable (step (next 8)) init s ∧
    ∃ received, s.pc 1 = .replaying received ∧
      received.map ReplayedOp.op = [.int 5] ∧
      (ops s.shared.calls).map ReplayedOp.op = [.str [.char '5']] := by
  have start : init unused := ⟨rfl, rfl, fun _ => rfl⟩
  have run : Reachable (step (next 8)) init _ := reachable_of_run [(0, Action.append
    ⟨"edit", some 7, .str [.char '5'], rfl⟩ true 5), (0, .fetch), (0, .insert none), (1, .join),
    (1, .page 500 1)] start rfl
  let row : OpRow := ⟨1, "edit", some 7, ['5'], 5⟩
  have page := batch_take (n := 1) (k := 0) (show [row].map OpRow.seq = List.range' 1 1 from rfl) 1 500
  have received := congrArg (List.filterMap (replay (F := Special) 8)) page
  exact ⟨_, run, _, rfl, congrArg (List.map ReplayedOp.op) received, rfl⟩

end Plexichat.Artifacts.OpLog
