import Mathlib.Data.List.Permutation
import Plexichat.RateLimit.DatabaseStorage
import Plexichat.RateLimit.TokenBucket

/-! update_bucket as the database storage inherits it, beside eval_token_bucket, one database
statement at a time, for one key. acquire_lock hands everyone the same token, so nothing
keeps another call out between the SELECT and the upsert. -/
namespace Plexichat.RateLimit.Updates
open DatabaseStorage (Row Call refillTokens settle assess again failClosed executed)
open Meter Transition

structure BucketRow (D : Type) where
  columns : Row
  data : Option D

/-- The dict that mutate_fn works on: a key may be missing, or hold None. -/
structure BucketState (D : Type) where
  tokens : Option (Option ℚ)
  lastUpdate : Option (Option ℚ)
  data : D
  deriving DecidableEq

abbrev MutateFn (D : Type) := BucketState D → Option (BucketState D)

structure Store (D : Type) where
  now : ℚ
  row : Option (BucketRow D)
  /-- What eval_token_bucket admitted. -/
  log : List Admission

inductive Pc (D : Type) where
  | idle
  | evaluating (cost : Nat) (p : DatabaseStorage.Pc)
  | acquiring (f : MutateFn D)
  | cleaning (f : MutateFn D)
  | selecting (f : MutateFn D)
  | mutating (f : MutateFn D) (state : BucketState D)
  | upserting (f : MutateFn D) (state : BucketState D) (now : ℚ) (row : BucketRow D)
  | updated (f : MutateFn D)
  | raised

inductive Action (D : Type) where
  | wait (seconds : ℚ)
  /-- A DELETE of expired or surplus rows that a call for another key executes. -/
  | evict
  | evaluate (cost : Nat)
  | updateBucket (f : MutateFn D)
  | proceed (expired : Bool)
  | raises (locked : Bool)

inductive Event (D : Type) where
  | deleted
  | inserted (now : ℚ)
  | normalized (now : ℚ)
  | accrued (delta now : ℚ)
  | spent (cost : Nat) (now : ℚ)
  | free
  | updated (f : MutateFn D) (now : ℚ)

section Statements

variable {D : Type}

/-- The row of `set_bucket`; float(None) raises. -/
def setBucket (now : ℚ) (state : BucketState D) : Option (BucketRow D) :=
  match state.tokens.getD (some 0), state.lastUpdate.getD (some now) with
  | some tokens, some lastUpdate => some ⟨⟨some tokens, some lastUpdate⟩, some state.data⟩
  | _, _ => none

def Store.columns (c : Store D) : DatabaseStorage.Store := ⟨c.now, c.row.map (·.columns), c.log⟩

def Store.write (c : Store D) (d : DatabaseStorage.Store) : Store D :=
  ⟨d.now, d.row.map fun columns => ⟨columns, c.row.bind (·.data)⟩, d.log⟩

def admitted : DatabaseStorage.Pc → Bool
  | .ended answer => answer.allowed
  | _ => false

/-- What a statement of eval_token_bucket commits, when it ends in `q`. -/
def committed (row : Option Row) (p q : DatabaseStorage.Pc) : Option (Event D) :=
  let other : Option (Event D) := if admitted q then some .free else none
  match p, row with
  | .insert _ now, none => some (.inserted now)
  | .normalize _ now _, some ⟨_, none⟩ => some (.normalized now)
  | .refill _ now delta lastUpdate, some ⟨_, some last⟩ =>
    if last ≤ lastUpdate then some (.accrued delta now) else other
  | .spend call now _, some ⟨some tokens, _⟩ =>
    if (call.cost : ℚ) ≤ tokens then some (.spent call.cost now) else other
  | _, _ => other

def evaluated (c : Store D) (cost : Nat) (p : DatabaseStorage.Pc)
    (r : DatabaseStorage.Store × DatabaseStorage.Pc) : Store D × Pc D × Option (Event D) :=
  (c.write r.1, .evaluating cost r.2, committed c.columns.row p r.2)

def Event.isCall : Event D → Bool
  | .spent _ _ | .free | .updated _ _ => true
  | _ => false

def Pc.completed : Pc D → Bool
  | .evaluating _ p => admitted p
  | .updated _ => true
  | _ => false

def Action.isStatement : Action D → Bool
  | .proceed _ => true
  | _ => false

def Pc.read : Pc D → Option (BucketState D)
  | .upserting _ state _ _ => some state
  | _ => none

def Pc.Did : Pc D → Event D → Prop
  | .evaluating cost p, .spent cost' _ => admitted p = true ∧ cost' = cost
  | .evaluating _ p, .free => admitted p = true
  | .updated f, .updated f' _ => f' = f
  | _, _ => False

structure State (ι D : Type) where
  store : Store D
  pc : ι → Pc D
  /-- The committed statements with their callers, the oldest first. -/
  journal : List (ι × Event D)

variable {ι : Type}

def callers (journal : List (ι × Event D)) : List ι :=
  (journal.filter (·.2.isCall)).map (·.1)

def State.after [DecidableEq ι] (s : State ι D) (i : ι) (r : Store D × Pc D × Option (Event D)) :
    State ι D :=
  ⟨r.1, Function.update s.pc i r.2.1, s.journal ++ r.2.2.toList.map (i, ·)⟩

def Initial (first : Option (BucketRow D)) (s : State ι D) : Prop :=
  s.store.row = first ∧ s.journal = [] ∧ ∀ i, s.pc i = .idle

end Statements

section Calls

variable {D : Type} [EmptyCollection D]

/-- `get_bucket(key) or {}`. -/
def getBucket : Option (BucketRow D) → BucketState D
  | none => ⟨none, none, ∅⟩
  | some row => ⟨some row.columns.tokens, some row.columns.lastUpdate, row.data.getD ∅⟩

def readModifyWrite (f : MutateFn D) (now : ℚ) (row : Option (BucketRow D)) :
    Option (BucketRow D) := (f (getBucket row)).bind (setBucket now)

def proceed (limit : DatabaseStorage.Limit) (c : Store D) (expired : Bool) :
    Pc D → Option (Store D × Pc D × Option (Event D))
  | .evaluating cost p => (DatabaseStorage.proceed limit c.columns p).map (evaluated c cost p)
  -- acquire_lock gives its one token to every caller
  | .acquiring f => some (c, .cleaning f, none)
  | .cleaning f =>
    if expired then some ({ c with row := none }, .selecting f, some .deleted)
    else some (c, .selecting f, none)
  | .selecting f => some (c, .mutating f (getBucket c.row), none)
  | .mutating f state =>
    match (f state).bind (setBucket c.now) with
    | some row => some (c, .upserting f state c.now row, none)
    | none => some (c, .raised, none)
  | .upserting f _ now row => some ({ c with row := some row }, .updated f, some (.updated f now))
  | _ => none

def next (limit : DatabaseStorage.Limit) (c : Store D) (p : Pc D) :
    Action D → Option (Store D × Pc D × Option (Event D))
  | .wait seconds => if 0 ≤ seconds then some ({ c with now := c.now + seconds }, p, none) else none
  | .evict => some ({ c with row := none }, p, some .deleted)
  | .evaluate cost =>
    match p with
    | .idle => some (c, .evaluating cost (.readClock ⟨cost, 0, 0⟩), none)
    | _ => none
  | .updateBucket f =>
    match p with
    | .idle => some (c, .acquiring f, none)
    | _ => none
  | .proceed expired => proceed limit c expired p
  | .raises locked =>
    match p with
    | .evaluating cost q => q.call.map fun call =>
      evaluated c cost .idle (DatabaseStorage.raised limit c.columns locked call)
    | .cleaning _ | .selecting _ | .upserting .. => some (c, .raised, none)
    | _ => none

def serial (limit : DatabaseStorage.Limit) (row : Option (BucketRow D)) :
    Event D → Option (Option (BucketRow D))
  | .deleted => some none
  | .inserted now => if row.isNone then some (some ⟨⟨some limit.capacity, some now⟩, none⟩) else none
  | .normalized now =>
    match row with
    | some ⟨⟨tokens, none⟩, data⟩ =>
      some (some ⟨⟨some (min limit.capacity (tokens.getD limit.capacity)), some now⟩, data⟩)
    | _ => none
  | .accrued delta now =>
    match row with
    | some ⟨⟨tokens, some _⟩, data⟩ =>
      if 0 < delta then some (some ⟨⟨tokens.map (refillTokens limit delta), some now⟩, data⟩)
      else none
    | _ => none
  | .spent cost now =>
    match row with
    | some ⟨⟨some tokens, _⟩, data⟩ =>
      if (cost : ℚ) ≤ tokens then some (some ⟨⟨some (tokens - cost), some now⟩, data⟩) else none
    | _ => none
  | .free => some row
  | .updated f now => (readModifyWrite f now row).map some

variable {ι : Type}

/-- The committed statements, in some order one after the other, give the row; each completed
update and each admission is one of them. -/
structure LosesNothing (limit : DatabaseStorage.Limit) (first : Option (BucketRow D))
    (s : State ι D) : Prop where
  serial : ∃ order : List (ι × Event D), order.Perm s.journal ∧
    run (serial limit) first (order.map (·.2)) = some s.store.row
  once : (callers s.journal).Nodup
  completed : ∀ i, (s.pc i).completed = true → i ∈ callers s.journal
  own : ∀ i e, (i, e) ∈ s.journal → e.isCall = true → (s.pc i).Did e

def Unchanged (c : Store D) (p : Pc D) (a : Action D) : Prop :=
  a.isStatement = true → ∀ state ∈ p.read, getBucket c.row = state

instance [DecidableEq D] (c : Store D) (p : Pc D) (a : Action D) : Decidable (Unchanged c p a) :=
  inferInstanceAs (Decidable (_ → _))

variable [DecidableEq ι]

def step (limit : DatabaseStorage.Limit) (s : State ι D) (a : ι × Action D) : Option (State ι D) :=
  (next limit s.store (s.pc a.1) a.2).map (s.after a.1)

end Calls

section Evaluation

variable {D : Type} {limit : DatabaseStorage.Limit} {c : Store D} {cost : Nat} {call : Call}

/-- A balance that is about to be normalized is the one that was read, as long as the row has
no clock; a refill is about to add something. -/
def Ready (limit : DatabaseStorage.Limit) (row : Option Row) : DatabaseStorage.Pc → Prop
  | .normalize _ _ stored => ∀ tokens, row = some ⟨tokens, none⟩ → stored = tokens.getD limit.capacity
  | .refill _ _ delta _ => 0 < delta
  | _ => True

theorem admitted_of_call {p : DatabaseStorage.Pc} (running : p.call = some call) :
    admitted p = false := by
  cases p with
  | ended answer => cases running
  | _ => rfl

structure Onward (limit : DatabaseStorage.Limit) (call : Call) (q : DatabaseStorage.Pc) : Prop where
  cost : ∀ call', q.call = some call' → call'.cost = call.cost
  ready : ∀ row, Ready limit row q

theorem Onward.same {q : DatabaseStorage.Pc} (here : q.call = some call)
    (ready : ∀ row, Ready limit row q) : Onward limit call q := by
  refine ⟨?_, ready⟩
  intro call' there
  cases here.symm.trans there
  rfl

theorem Onward.ended (limit : DatabaseStorage.Limit) (call : Call) (answer : DatabaseStorage.Answer) :
    Onward limit call (.ended answer) := by
  refine ⟨?_, fun _ => trivial⟩
  intro call' there
  cases there

theorem settle_onward (limit : DatabaseStorage.Limit) (call : Call) (now stored : ℚ) :
    Onward limit call (settle limit call now stored) ∧
      admitted (settle limit call now stored) = false := by
  unfold settle
  split
  · exact ⟨.same rfl fun _ => trivial, rfl⟩
  · exact ⟨.ended limit call _, rfl⟩

theorem assess_onward (limit : DatabaseStorage.Limit) (call : Call) (now stored lastUpdate : ℚ) :
    Onward limit call (assess limit call now stored lastUpdate) ∧
      admitted (assess limit call now stored lastUpdate) = false := by
  simp only [assess]
  split
  · rename_i grows
    exact ⟨.same rfl fun _ => sub_pos.mpr grows, rfl⟩
  · exact settle_onward limit call now stored

theorem failClosed_onward (limit : DatabaseStorage.Limit) (d : DatabaseStorage.Store)
    (call : Call) : (failClosed limit d call).1.row = d.row ∧
      Onward limit call (failClosed limit d call).2 := by
  unfold failClosed
  split
  · exact ⟨rfl, .ended limit call _⟩
  · exact ⟨rfl, .ended limit call _⟩

theorem again_onward (limit : DatabaseStorage.Limit) (d : DatabaseStorage.Store) (call : Call) :
    (again limit d call).1.row = d.row ∧ Onward limit call (again limit d call).2 := by
  unfold again
  split
  · refine ⟨rfl, ?_, fun _ => trivial⟩
    intro call' there
    cases there
    rfl
  · exact failClosed_onward limit d call

theorem raised_onward (limit : DatabaseStorage.Limit) (d : DatabaseStorage.Store) (locked : Bool)
    (call : Call) : (DatabaseStorage.raised limit d locked call).1.row = d.row ∧
      Onward limit call (DatabaseStorage.raised limit d locked call).2 := by
  unfold DatabaseStorage.raised
  split
  · refine ⟨rfl, ?_, fun _ => trivial⟩
    intro call' there
    cases there
    rfl
  · exact failClosed_onward limit d call

theorem Onward.onto {q : DatabaseStorage.Pc} (h : Onward limit call q) {p : DatabaseStorage.Pc}
    (here : p.call = some call) (row : Option Row) : ∃ call, p.call = some call ∧
      (∀ call', q.call = some call' → call'.cost = call.cost) ∧ Ready limit row q :=
  ⟨call, here, h.cost, h.ready row⟩

theorem proceed_onward {d : DatabaseStorage.Store} {p : DatabaseStorage.Pc}
    {r : DatabaseStorage.Store × DatabaseStorage.Pc}
    (moved : DatabaseStorage.proceed limit d p = some r) : ∃ call, p.call = some call ∧
      (∀ call', r.2.call = some call' → call'.cost = call.cost) ∧ Ready limit r.1.row r.2 := by
  cases executed moved with
  | readClock call =>
    refine (Onward.same rfl ?_).onto rfl _
    exact fun _ => trivial
  | insert call now =>
    refine (Onward.same rfl ?_).onto rfl _
    exact fun _ => trivial
  | @gone _ call _ reads absent =>
    have here : p.call = some call := by
      rcases reads with rfl | rfl
      · rfl
      · rfl
    exact (Onward.ended limit call _).onto here _
  | unclocked call now row =>
    refine ⟨call, rfl, ?_, ?_⟩
    · intro call' there
      cases there
      rfl
    · intro tokens' row'
      cases row.symm.trans row'
      rfl
  | select call now row => exact (assess_onward limit call now _ _).1.onto rfl _
  | normalize call now stored row => exact (assess_onward limit call now _ _).1.onto rfl _
  | refill call now delta row behind =>
    refine (Onward.same rfl ?_).onto rfl _
    exact fun _ => trivial
  | unreadable call now row => exact (failClosed_onward limit d call).2.onto rfl _
  | reselect call now row => exact (settle_onward limit call now _).1.onto rfl _
  | spend call now stored row enough => exact (Onward.ended limit call _).onto rfl _
  | @missed _ call here unselected => exact (again_onward limit d call).2.onto here _

def Quiet (p q : Pc D) : Prop := q = p ∨ (p.completed = false ∧ q.completed = false)

def Accounted [EmptyCollection D] (limit : DatabaseStorage.Limit) (row : Option (BucketRow D))
    (p : Pc D) (r : Store D × Pc D × Option (Event D)) : Prop :=
  match r.2.2 with
  | none => r.1.row = row ∧ Quiet p r.2.1
  | some e => serial limit row e = some r.1.row ∧
    if e.isCall then p.completed = false ∧ r.2.1.completed = true ∧ r.2.1.Did e else Quiet p r.2.1

theorem write_same {d : DatabaseStorage.Store} (same : d.row = c.columns.row) :
    (c.write d).row = c.row := by
  cases row : c.row with
  | none => simp [Store.write, same, Store.columns, row]
  | some bucket => simp [Store.write, same, Store.columns, row]

variable [EmptyCollection D]

theorem Accounted.changes {row : Option (BucketRow D)} {p : Pc D}
    {r : Store D × Pc D × Option (Event D)} {e : Event D} (noted : r.2.2 = some e)
    (plain : e.isCall = false) (applied : serial limit row e = some r.1.row)
    (quiet : Quiet p r.2.1) : Accounted limit row p r := by
  unfold Accounted
  rw [noted]
  refine ⟨applied, ?_⟩
  rw [plain]
  exact quiet

theorem Accounted.completes {row : Option (BucketRow D)} {p : Pc D}
    {r : Store D × Pc D × Option (Event D)} {e : Event D} (noted : r.2.2 = some e)
    (call : e.isCall = true) (applied : serial limit row e = some r.1.row)
    (running : p.completed = false) (completed : r.2.1.completed = true) (did : r.2.1.Did e) :
    Accounted limit row p r := by
  unfold Accounted
  rw [noted]
  refine ⟨applied, ?_⟩
  rw [if_pos call]
  exact ⟨running, completed, did⟩

theorem Accounted.nothing {row : Option (BucketRow D)} {p : Pc D}
    {r : Store D × Pc D × Option (Event D)} (noted : r.2.2 = none) (same : r.1.row = row)
    (quiet : Quiet p r.2.1) : Accounted limit row p r := by
  unfold Accounted
  rw [noted]
  exact ⟨same, quiet⟩

omit [EmptyCollection D] in
theorem committed_of_unwritten {row : Option Row} {p : DatabaseStorage.Pc}
    (unwritten : p.writes row = false) (q : DatabaseStorage.Pc) :
    committed (D := D) row p q = if admitted q then some .free else none := by
  cases p with
  | insert call now =>
    cases row with
    | none => cases unwritten
    | some columns => rfl
  | normalize call now stored =>
    rcases row with _ | ⟨tokens, _ | last⟩
    · rfl
    · cases unwritten
    · rfl
  | refill call now delta lastUpdate =>
    rcases row with _ | ⟨tokens, _ | last⟩
    · rfl
    · rfl
    · have ahead : ¬ last ≤ lastUpdate := of_decide_eq_false unwritten
      simp [committed, ahead]
  | spend call now stored =>
    rcases row with _ | ⟨_ | tokens, last⟩
    · rfl
    · rfl
    · have short : ¬ (call.cost : ℚ) ≤ tokens := of_decide_eq_false unwritten
      simp [committed, short]
  | _ => rfl

theorem Accounted.other {p q : DatabaseStorage.Pc}
    {r : DatabaseStorage.Store × DatabaseStorage.Pc}
    (running : admitted p = false) (same : r.1.row = c.columns.row)
    (unwritten : q.writes c.columns.row = false) :
    Accounted limit c.row (.evaluating cost p) (evaluated c cost q r) := by
  have noted := committed_of_unwritten (D := D) unwritten r.2
  have row := write_same same
  cases e : admitted r.2 with
  | true =>
    rw [e, if_pos rfl] at noted
    exact .completes noted rfl (congrArg some row.symm) running e e
  | false =>
    rw [e, if_neg Bool.false_ne_true] at noted
    exact .nothing noted row (.inr ⟨running, e⟩)

omit [EmptyCollection D] in
theorem row_of_columns {columns : Row} (h : c.columns.row = some columns) :
    ∃ data, c.row = some ⟨columns, data⟩ := by
  obtain ⟨bucket, row, rfl⟩ := Option.map_eq_some_iff.mp h
  exact ⟨bucket.data, row⟩

theorem proceed_accounted {p : DatabaseStorage.Pc}
    {r : DatabaseStorage.Store × DatabaseStorage.Pc}
    (own : ∀ call, p.call = some call → call.cost = cost) (ready : Ready limit c.columns.row p)
    (moved : DatabaseStorage.proceed limit c.columns p = some r) :
    Accounted limit c.row (.evaluating cost p) (evaluated c cost p r) := by
  cases executed moved with
  | readClock call => exact .other rfl rfl rfl
  | insert call now =>
    cases row : c.row with
    | none =>
      simp [Accounted, evaluated, committed, Store.columns, Store.write, row, serial, Event.isCall,
        Quiet, Pc.completed, admitted]
    | some bucket =>
      rw [← row]
      refine .other rfl ?_ ?_
      · simp [Store.columns, row]
      · simp [DatabaseStorage.Pc.writes, Store.columns, row]
  | gone reads absent =>
    rcases reads with rfl | rfl
    · exact .other rfl rfl rfl
    · exact .other rfl rfl rfl
  | unclocked call now row => exact .other rfl rfl rfl
  | select call now row => exact .other rfl rfl rfl
  | @normalize call now stored tokens columns =>
    obtain ⟨data, row⟩ := row_of_columns columns
    have goes_on := (assess_onward limit call now (min (limit.capacity : ℚ) stored) now).2
    have as_read := ready tokens columns
    refine .changes (e := .normalized now) ?_ rfl ?_ (.inr ⟨rfl, goes_on⟩)
    · simp [evaluated, committed, columns]
    · simp [serial, evaluated, Store.write, row, as_read]
  | refill call now delta columns behind =>
    obtain ⟨data, row⟩ := row_of_columns columns
    have adds : 0 < delta := ready
    refine .changes (e := .accrued delta now) ?_ rfl ?_ (.inr ⟨rfl, rfl⟩)
    · simp [evaluated, committed, columns, behind]
    · simp [serial, evaluated, Store.write, row, adds]
  | unreadable call now row => exact .other rfl (failClosed_onward limit c.columns call).1 rfl
  | reselect call now row => exact .other rfl rfl rfl
  | spend call now stored columns enough =>
    obtain ⟨data, row⟩ := row_of_columns columns
    refine .completes (e := .spent call.cost now) ?_ rfl ?_ rfl rfl ⟨rfl, own call rfl⟩
    · simp [evaluated, committed, columns, enough]
    · simp [serial, evaluated, Store.write, row, enough, DatabaseStorage.allow]
  | @missed _ call here unselected =>
    exact .other (admitted_of_call here) (again_onward limit c.columns call).1 unselected

end Evaluation

section Runs

variable {D : Type} [EmptyCollection D] {limit : DatabaseStorage.Limit} {c : Store D}

def Facts (limit : DatabaseStorage.Limit) (row : Option (BucketRow D)) : Pc D → Prop
  | .evaluating cost p =>
    (∀ call, p.call = some call → call.cost = cost) ∧ Ready limit (row.map (·.columns)) p
  | .upserting f state now written => (f state).bind (setBucket now) = some written
  | _ => True

theorem serial_clocked {row row' : Option (BucketRow D)} {e : Event D}
    (h : serial limit row e = some row') :
    row' = row ∨ ∀ tokens, row'.map (·.columns) ≠ some ⟨tokens, none⟩ := by
  cases e with
  | deleted =>
    cases h
    exact .inr fun _ none_row => nomatch none_row
  | inserted now =>
    simp only [serial] at h
    split at h
    · cases h
      exact .inr fun _ same => nomatch same
    · cases h
  | normalized now =>
    simp only [serial] at h
    split at h
    · cases h
      exact .inr fun _ same => nomatch same
    · cases h
  | accrued delta now =>
    simp only [serial] at h
    split at h
    · split at h
      · cases h
        exact .inr fun _ same => nomatch same
      · cases h
    · cases h
  | spent cost now =>
    simp only [serial] at h
    split at h
    · split at h
      · cases h
        exact .inr fun _ same => nomatch same
      · cases h
    · cases h
  | free =>
    cases h
    exact .inl rfl
  | updated f now =>
    obtain ⟨written, whole, rfl⟩ := Option.map_eq_some_iff.mp h
    obtain ⟨state, -, stored⟩ := Option.bind_eq_some_iff.mp whole
    unfold setBucket at stored
    split at stored
    · cases stored
      exact .inr fun _ same => nomatch same
    · cases stored

omit [EmptyCollection D] in
theorem Facts.other {q : Pc D} {row row' : Option (BucketRow D)} (facts : Facts limit row q)
    (moved : row' = row ∨ ∀ tokens, row'.map (·.columns) ≠ some ⟨tokens, none⟩) :
    Facts limit row' q := by
  rcases moved with rfl | clocked
  · exact facts
  · cases q with
    | evaluating cost p =>
      refine ⟨facts.1, ?_⟩
      cases p with
      | normalize call now stored => exact fun tokens unclocked => absurd unclocked (clocked tokens)
      | refill call now delta lastUpdate => exact facts.2
      | _ => trivial
    | _ => exact facts

theorem Accounted.clocked {p : Pc D} {row : Option (BucketRow D)}
    {r : Store D × Pc D × Option (Event D)} (h : Accounted limit row p r) :
    r.1.row = row ∨ ∀ tokens, r.1.row.map (·.columns) ≠ some ⟨tokens, none⟩ := by
  unfold Accounted at h
  split at h
  · exact .inl h.1
  · exact serial_clocked h.1

theorem next_accounted {p : Pc D} {a : Action D} {r : Store D × Pc D × Option (Event D)}
    (facts : Facts limit c.row p) (ok : Unchanged c p a) (moved : next limit c p a = some r) :
    Accounted limit c.row p r := by
  cases a with
  | wait seconds =>
    simp only [next] at moved
    split at moved
    · cases moved
      exact .nothing rfl rfl (.inl rfl)
    · cases moved
  | evict =>
    cases moved
    exact .changes rfl rfl rfl (.inl rfl)
  | evaluate cost =>
    simp only [next] at moved
    split at moved
    · cases moved
      exact .nothing rfl rfl (.inr ⟨rfl, rfl⟩)
    · cases moved
  | updateBucket f =>
    simp only [next] at moved
    split at moved
    · cases moved
      exact .nothing rfl rfl (.inr ⟨rfl, rfl⟩)
    · cases moved
  | raises locked =>
    simp only [next] at moved
    split at moved
    · rename_i cost q
      obtain ⟨call, running, rfl⟩ := Option.map_eq_some_iff.mp moved
      exact .other (admitted_of_call running) (raised_onward limit c.columns locked call).1 rfl
    · cases moved
      exact .nothing rfl rfl (.inr ⟨rfl, rfl⟩)
    · cases moved
      exact .nothing rfl rfl (.inr ⟨rfl, rfl⟩)
    · cases moved
      exact .nothing rfl rfl (.inr ⟨rfl, rfl⟩)
    · cases moved
  | proceed expired =>
    simp only [next] at moved
    unfold proceed at moved
    split at moved
    · rename_i cost q
      obtain ⟨d, executed, rfl⟩ := Option.map_eq_some_iff.mp moved
      exact proceed_accounted facts.1 facts.2 executed
    · cases moved
      exact .nothing rfl rfl (.inr ⟨rfl, rfl⟩)
    · split at moved
      · cases moved
        exact .changes rfl rfl rfl (.inr ⟨rfl, rfl⟩)
      · cases moved
        exact .nothing rfl rfl (.inr ⟨rfl, rfl⟩)
    · cases moved
      exact .nothing rfl rfl (.inr ⟨rfl, rfl⟩)
    · split at moved
      · cases moved
        exact .nothing rfl rfl (.inr ⟨rfl, rfl⟩)
      · cases moved
        exact .nothing rfl rfl (.inr ⟨rfl, rfl⟩)
    · rename_i f state now written
      cases moved
      have read : getBucket c.row = state := ok rfl state rfl
      have whole : readModifyWrite f now c.row = some written := by
        unfold readModifyWrite
        rw [read]
        exact facts
      refine .completes (e := .updated f now) rfl rfl ?_ rfl rfl rfl
      rw [serial, whole]
      rfl
    · cases moved

theorem next_facts {p : Pc D} {a : Action D} {r : Store D × Pc D × Option (Event D)}
    (facts : Facts limit c.row p) (ok : Unchanged c p a) (moved : next limit c p a = some r) :
    Facts limit r.1.row r.2.1 := by
  have clocked := (next_accounted facts ok moved).clocked
  cases a with
  | wait seconds =>
    simp only [next] at moved
    split at moved
    · cases moved
      exact facts
    · cases moved
  | evict =>
    cases moved
    exact facts.other clocked
  | evaluate cost =>
    simp only [next] at moved
    split at moved
    · cases moved
      refine ⟨?_, trivial⟩
      intro call here
      cases here
      rfl
    · cases moved
  | updateBucket f =>
    simp only [next] at moved
    split at moved
    · cases moved
      trivial
    · cases moved
  | raises locked =>
    simp only [next] at moved
    split at moved
    · rename_i cost q
      obtain ⟨call, running, rfl⟩ := Option.map_eq_some_iff.mp moved
      have onward := (raised_onward limit c.columns locked call).2
      refine ⟨?_, onward.ready _⟩
      intro call' here
      exact (onward.cost call' here).trans (facts.1 call running)
    · cases moved
      trivial
    · cases moved
      trivial
    · cases moved
      trivial
    · cases moved
  | proceed expired =>
    simp only [next] at moved
    unfold proceed at moved
    split at moved
    · rename_i cost q
      obtain ⟨d, executed, rfl⟩ := Option.map_eq_some_iff.mp moved
      obtain ⟨call, running, same, ready⟩ := proceed_onward executed
      refine ⟨?_, ?_⟩
      · intro call' here
        exact (same call' here).trans (facts.1 call running)
      · have columns : (c.write d.1).row.map (·.columns) = d.1.row := by
          cases row : d.1.row with
          | none => simp [Store.write, row]
          | some written => simp [Store.write, row]
        show Ready limit ((c.write d.1).row.map (·.columns)) d.2
        rw [columns]
        exact ready
    · cases moved
      trivial
    · split at moved
      · cases moved
        trivial
      · cases moved
        trivial
    · cases moved
      trivial
    · split at moved
      · rename_i written
        cases moved
        exact written
      · cases moved
        trivial
    · cases moved
      trivial
    · cases moved

variable {ι : Type}

structure Inv (limit : DatabaseStorage.Limit) (first : Option (BucketRow D)) (s : State ι D) :
    Prop where
  serial : run (serial limit) first (s.journal.map (·.2)) = some s.store.row
  once : (callers s.journal).Nodup
  completed : ∀ i, (s.pc i).completed = true → i ∈ callers s.journal
  own : ∀ i e, (i, e) ∈ s.journal → e.isCall = true → (s.pc i).completed = true ∧ (s.pc i).Did e
  facts : ∀ i, Facts limit s.store.row (s.pc i)

theorem Inv.losesNothing {first : Option (BucketRow D)} {s : State ι D} (inv : Inv limit first s) :
    LosesNothing limit first s :=
  ⟨⟨s.journal, .refl _, inv.serial⟩, inv.once, inv.completed,
    fun i e there call => (inv.own i e there call).2⟩

omit [EmptyCollection D] in
theorem mem_callers {journal : List (ι × Event D)} {i : ι} :
    i ∈ callers journal ↔ ∃ e, (i, e) ∈ journal ∧ e.isCall = true := by
  simp [callers]

omit [EmptyCollection D] in
theorem callers_append (journal : List (ι × Event D)) (i : ι) (e : Event D) :
    callers (journal ++ [(i, e)]) = callers journal ++ if e.isCall then [i] else [] := by
  cases call : e.isCall with
  | true => simp [callers, call]
  | false => simp [callers, call]

theorem Inv.own_quiet {first : Option (BucketRow D)} {s : State ι D} (inv : Inv limit first s)
    {i : ι} {q : Pc D} (quiet : Quiet (s.pc i) q) {e : Event D} (there : (i, e) ∈ s.journal)
    (call : e.isCall = true) : q.completed = true ∧ q.Did e := by
  have before := inv.own i e there call
  rcases quiet with rfl | running
  · exact before
  · rw [running.1] at before
    exact absurd before.1 Bool.false_ne_true

theorem Inv.not_mem {first : Option (BucketRow D)} {s : State ι D} (inv : Inv limit first s)
    {i : ι} (running : (s.pc i).completed = false) : i ∉ callers s.journal := by
  intro there
  obtain ⟨e, there, call⟩ := mem_callers.mp there
  rw [(inv.own i e there call).1] at running
  cases running

theorem Inv.completed_quiet {first : Option (BucketRow D)} {s : State ι D}
    (inv : Inv limit first s) {i : ι} {q : Pc D} (quiet : Quiet (s.pc i) q)
    (done : q.completed = true) : i ∈ callers s.journal := by
  rcases quiet with rfl | running
  · exact inv.completed i done
  · rw [running.2] at done
    cases done

variable [DecidableEq ι]

omit [EmptyCollection D] in
theorem after_pc (s : State ι D) (i j : ι) (r : Store D × Pc D × Option (Event D)) :
    (s.after i r).pc j = if j = i then r.2.1 else s.pc j := Function.update_apply ..

theorem Inv.quietly {first : Option (BucketRow D)} {s t : State ι D} (inv : Inv limit first s)
    {i : ι} {q : Pc D} (quiet : Quiet (s.pc i) q) (pc : ∀ j, t.pc j = if j = i then q else s.pc j)
    (serial : run (Updates.serial limit) first (t.journal.map (·.2)) = some t.store.row)
    (same : callers t.journal = callers s.journal)
    (old : ∀ j e, (j, e) ∈ t.journal → e.isCall = true → (j, e) ∈ s.journal)
    (facts : ∀ j, Facts limit t.store.row (t.pc j)) : Inv limit first t := by
  refine ⟨serial, same ▸ inv.once, ?_, ?_, facts⟩
  · intro j
    rw [pc, same]
    split
    · rename_i here
      rw [here]
      exact inv.completed_quiet quiet
    · exact inv.completed j
  · intro j e there call
    have before := old j e there call
    rw [pc]
    split
    · rename_i here
      rw [here] at before
      exact inv.own_quiet quiet before call
    · exact inv.own j e before call

theorem Inv.completing {first : Option (BucketRow D)} {s t : State ι D} (inv : Inv limit first s)
    {i : ι} {q : Pc D} {e : Event D} (call : e.isCall = true)
    (running : (s.pc i).completed = false) (done : q.completed = true) (did : q.Did e)
    (pc : ∀ j, t.pc j = if j = i then q else s.pc j) (journal : t.journal = s.journal ++ [(i, e)])
    (serial : run (Updates.serial limit) first (t.journal.map (·.2)) = some t.store.row)
    (facts : ∀ j, Facts limit t.store.row (t.pc j)) : Inv limit first t := by
  have absent := inv.not_mem running
  have grown : callers t.journal = callers s.journal ++ [i] := by
    rw [journal, callers_append, call, if_pos rfl]
  refine ⟨serial, ?_, ?_, ?_, facts⟩
  · rw [grown]
    refine List.nodup_append.mpr ⟨inv.once, List.nodup_singleton i, ?_⟩
    intro j there k here same
    cases List.mem_singleton.mp here
    exact absent (same ▸ there)
  · intro j
    rw [pc, grown]
    split
    · rename_i here
      rw [here]
      exact fun _ => List.mem_append_right _ (List.mem_singleton_self i)
    · exact fun done => List.mem_append_left _ (inv.completed j done)
  · intro j e' there call'
    rw [journal] at there
    rw [pc]
    rcases List.mem_append.mp there with before | new
    · split
      · rename_i here
        rw [here] at before
        exact absurd (mem_callers.mpr ⟨e', before, call'⟩) absent
      · exact inv.own j e' before call'
    · cases List.mem_singleton.mp new
      rw [if_pos rfl]
      exact ⟨done, did⟩

theorem Inv.after {first : Option (BucketRow D)} {s : State ι D} (inv : Inv limit first s) {i : ι}
    {r : Store D × Pc D × Option (Event D)} (accounted : Accounted limit s.store.row (s.pc i) r)
    (own : Facts limit r.1.row r.2.1) : Inv limit first (s.after i r) := by
  have facts : ∀ j, Facts limit r.1.row ((s.after i r).pc j) := by
    intro j
    rw [after_pc]
    split
    · exact own
    · exact (inv.facts j).other accounted.clocked
  obtain ⟨c, q, noted⟩ := r
  cases noted with
  | none =>
    obtain ⟨row, quiet⟩ := accounted
    have journal : (s.after i (c, q, none)).journal = s.journal := List.append_nil _
    refine inv.quietly quiet (after_pc s i · _) ?_ (congrArg callers journal) ?_ facts
    · rw [journal]
      exact inv.serial.trans (congrArg some row.symm)
    · intro j e there _
      rwa [journal] at there
  | some e =>
    obtain ⟨applied, outcome⟩ := accounted
    have journal : (s.after i (c, q, some e)).journal = s.journal ++ [(i, e)] := rfl
    have serial_run : run (Updates.serial limit) first ((s.after i (c, q, some e)).journal.map (·.2)) =
        some c.row := by
      rw [journal, List.map_append, run_append, inv.serial]
      simpa using applied
    cases call : e.isCall with
    | true =>
      rw [call, if_pos rfl] at outcome
      obtain ⟨running, done, did⟩ := outcome
      exact inv.completing call running done did (after_pc s i · _) journal serial_run facts
    | false =>
      rw [call, if_neg Bool.false_ne_true] at outcome
      refine inv.quietly outcome (after_pc s i · _) serial_run ?_ ?_ facts
      · rw [journal, callers_append, call, if_neg Bool.false_ne_true, List.append_nil]
      · intro j e' there call'
        rcases List.mem_append.mp there with before | new
        · exact before
        · cases List.mem_singleton.mp new
          rw [call] at call'
          cases call'

/-- While every upsert finds the bucket as its call read it, each completed call is in the row,
whole and once. -/
theorem updates_lose_nothing {first : Option (BucketRow D)} {s : State ι D}
    (h : Guarded (step limit) (fun s a => Unchanged s.store (s.pc a.1) a.2) (Initial first) s) :
    LosesNothing limit first s := by
  have start : ∀ s : State ι D, Initial first s → Inv limit first s := by
    intro s ⟨row, journal, idle⟩
    refine ⟨?_, ?_, ?_, ?_, ?_⟩
    · rw [journal, row]
      rfl
    · rw [journal]
      exact List.nodup_nil
    · intro i done
      rw [idle i] at done
      cases done
    · intro i e there
      rw [journal] at there
      cases there
    · intro i
      rw [idle i]
      trivial
  have inv : Inv limit first s := by
    refine guarded_invariant start ?_ h
    intro s a t inv ok moved
    obtain ⟨r, executed, rfl⟩ := Option.map_eq_some_iff.mp moved
    exact inv.after (next_accounted (inv.facts a.1) ok executed)
      (next_facts (inv.facts a.1) ok executed)
  exact inv.losesNothing

end Runs

deriving instance DecidableEq for Window

structure Counters where
  hourly : Window
  daily : Window
  deriving DecidableEq

instance : EmptyCollection Counters := ⟨⟨⟨none, none⟩, ⟨none, none⟩⟩⟩

/-- The manager's mutation; a balance of None raises in it or in the write. -/
def secondaryLimits (cfg : Config) (cost : Nat) (unixNow : ℚ) : MutateFn Counters := fun state =>
  if state.tokens = some none then none
  else
    let bucket := (applySecondaryLimits cfg ⟨state.tokens.join, state.lastUpdate.join,
      state.data.hourly, state.data.daily⟩ cost unixNow).2
    some { state with tokens := bucket.tokens.map some, data := ⟨bucket.hourly, bucket.daily⟩ }

def tenAnHour : Config := ⟨5, 1, 0, some 10, none⟩

def five : DatabaseStorage.Limit := ⟨5, 5, 86400, false, by decide +kernel⟩

def stored (count : Nat) : BucketRow Counters :=
  ⟨⟨some 5, some 0⟩, some ⟨⟨some 3600, some count⟩, ⟨none, none⟩⟩⟩

def counting : State Bool Counters := ⟨⟨0, some (stored 0), []⟩, fun _ => .idle, []⟩

def countOne : MutateFn Counters := secondaryLimits tenAnHour 1 0

def reads (i : Bool) : List (Bool × Action Counters) :=
  [(i, .updateBucket countOne), (i, .proceed false), (i, .proceed false), (i, .proceed false),
    (i, .proceed false)]

def writes (i : Bool) : List (Bool × Action Counters) := [(i, .proceed false)]

/-- Two requests are counted as one. -/
theorem overlapping_updates_lose_one : ¬ ∀ (first : Option (BucketRow Counters))
    (s : State Bool Counters), Reachable (step five) (Initial first) s →
      LosesNothing five first s := by
  intro law
  let calls := reads true ++ reads false ++ writes true ++ writes false
  let s : State Bool Counters := (run (step five) counting calls).get (by decide +kernel)
  have reached : Reachable (step five) (Initial (some (stored 0))) s :=
    reachable_of_run (s := counting) calls ⟨rfl, rfl, fun _ => rfl⟩ (Option.some_get _).symm
  obtain ⟨order, perm, serial_run⟩ := (law _ s reached).serial
  have journal : s.journal = [(true, .updated countOne 0), (false, .updated countOne 0)] := rfl
  have two : order.map (·.2) = [.updated countOne 0, .updated countOne 0] := by
    rcases List.perm_pair.mp (journal ▸ perm) with rfl | rfl
    · rfl
    · rfl
  rw [two] at serial_run
  have once : s.store.row = some (stored 1) := rfl
  have twice : run (serial five) (some (stored 0)) [.updated countOne 0, .updated countOne 0] =
      some (some (stored 2)) := rfl
  rw [twice, once] at serial_run
  cases serial_run

/-- One after the other they are both counted. -/
theorem updates_in_turn_count_both : ∃ s : State Bool Counters, s.store.row = some (stored 2) ∧
    LosesNothing five (some (stored 0)) s := by
  let calls := reads true ++ writes true ++ reads false ++ writes false
  let s : State Bool Counters := (runGuarded (step five)
    (fun s a => Unchanged s.store (s.pc a.1) a.2) counting calls).get (by decide +kernel)
  have reached : Guarded (step five) (fun s a => Unchanged s.store (s.pc a.1) a.2)
      (Initial (some (stored 0))) s :=
    guarded_of_run (s := counting) calls ⟨rfl, rfl, fun _ => rfl⟩ (Option.some_get _).symm
  exact ⟨s, rfl, updates_lose_nothing reached⟩

end Plexichat.RateLimit.Updates
