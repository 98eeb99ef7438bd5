import Plexichat.Library.Bits
import Plexichat.Library.Numeral

/-! The generator of ids: milliseconds since its epoch, the node, and a sequence number for the
ids of one millisecond, packed into one integer. -/
namespace Plexichat.Encryption.Snowflake

inductive Error where
  | worker (id : Int)
  | datacenter (id : Int)
  | clockMovedBackwards
  | invalidId
  | notNumeric
  deriving DecidableEq, Repr

/-- A generator's settings as `__init__` leaves them. -/
structure Node where
  epoch : Int
  datacenterId : Nat
  workerId : Nat
  datacenter_le : datacenterId ≤ 31
  worker_le : workerId ≤ 31

/-- `__init__`; the two ids are derived from the machine before the check where none is given. -/
def Node.init (workerId datacenterId : Int) (epochTimestamp : Option Int) : Except Error Node :=
  if worker : 0 ≤ workerId ∧ workerId ≤ 31 then
    if datacenter : 0 ≤ datacenterId ∧ datacenterId ≤ 31 then
      .ok {
        epoch := if epochTimestamp.getD 0 = 0 then 1704067200000 else epochTimestamp.getD 0
        datacenterId := datacenterId.toNat
        workerId := workerId.toNat
        datacenter_le := Int.toNat_le.mpr datacenter.2
        worker_le := Int.toNat_le.mpr worker.2 }
    else .error (.datacenter datacenterId)
  else .error (.worker workerId)

/-- What `generate` keeps between calls. -/
structure Generator where
  sequence : Nat := 0
  lastTimestamp : Int := -1
  deriving DecidableEq, Repr

def pack (node : Node) (timestamp : Int) (sequence : Nat) : Int :=
  Int.lor (Int.lor (Int.lor ((timestamp - node.epoch) <<< (22 : Nat)) ((node.datacenterId : Int) <<< (17 : Nat)))
    ((node.workerId : Int) <<< (12 : Nat))) sequence

/-- The loop that waits for a later millisecond; none is a call that still waits when the
readings end. -/
def nextMillisecond (last : Int) : List Int → Option (Int × List Int)
  | [] => none
  | timestamp :: readings =>
    if timestamp ≤ last then nextMillisecond last readings else some (timestamp, readings)

abbrev Outcome := Except Error Int × Generator

def issue (node : Node) (timestamp : Int) (sequence : Nat) : Outcome :=
  (.ok (pack node timestamp sequence), ⟨sequence, timestamp⟩)

/-- `generate` on the readings of the clock from now on; with the outcome, the readings left. -/
def generate (node : Node) (g : Generator) : List Int → Option (Outcome × List Int)
  | [] => none
  | timestamp :: readings =>
    if timestamp < g.lastTimestamp then some ((.error .clockMovedBackwards, g), readings)
    else if timestamp = g.lastTimestamp then
      let sequence := (g.sequence + 1) &&& 0xFFF
      if sequence = 0 then
        (nextMillisecond g.lastTimestamp readings).map fun (timestamp, readings) =>
          (issue node timestamp sequence, readings)
      else some (issue node timestamp sequence, readings)
    else some (issue node timestamp 0, readings)

/-- The next `n` calls, one after another under the lock. -/
def calls (node : Node) : Nat → Generator → List Int → Option (List Outcome × List Int)
  | 0, _, readings => some ([], readings)
  | n + 1, g, readings => do
    let (outcome, readings) ← generate node g readings
    let (outcomes, readings) ← calls node n outcome.2 readings
    return (outcome :: outcomes, readings)

structure Parts where
  timestamp : Int
  datacenterId : Int
  workerId : Int
  sequence : Int
  deriving DecidableEq, Repr

inductive SnowflakeId where
  | bool (b : Bool)
  | int (n : Int)
  | str (t : List Char)

def parts (node : Node) (id : Int) : Parts where
  timestamp := (id >>> (22 : Nat)) + node.epoch
  datacenterId := Int.land (id >>> (17 : Nat)) 0x1F
  workerId := Int.land (id >>> (12 : Nat)) 0x1F
  sequence := Int.land id 0xFFF

def parse (node : Node) : SnowflakeId → Except Error Parts
  | .bool _ => .error .invalidId
  | .int n => .ok (parts node n)
  | .str t =>
    match Numeral.int t with
    | none => .error .notNumeric
    | some n => .ok (parts node n)

def Outcome.id (outcome : Outcome) : Option Int := outcome.1.toOption

/-- A clock that passes each of its readings at last, however it repeats them or steps back. -/
def Advances (clock : Nat → Int) : Prop := ∀ i, ∃ j, i < j ∧ clock i < clock j

theorem pack_eq (node : Node) (timestamp : Int) {sequence : Nat} (fits : sequence < 4096) :
    pack node timestamp sequence = (timestamp - node.epoch) * 4194304 +
      node.datacenterId * 131072 + node.workerId * 4096 + sequence := by
  have datacenter := node.datacenter_le
  have worker := node.worker_le
  have field (n : Int) {m : Nat} (j k : Nat) (below : m < 2 ^ j) :
      Int.lor (n <<< (j + k)) ((m : Int) <<< k) = (n * 2 ^ j + m) <<< k := by
    have shifted : ((m : Int) <<< k) = ((m * 2 ^ k : Nat) : Int) := by
      rw [Int.shiftLeft_eq]
      push_cast
      rfl
    rw [shifted, Bits.lor_shiftLeft n (by rw [pow_add]; gcongr), Int.shiftLeft_eq]
    push_cast
    ring
  rw [pack, field _ 5 17 (by omega), field _ 5 12 (by omega), Bits.lor_shiftLeft _ fits]
  ring

theorem pack_lt (node : Node) {t u : Int} {m n : Nat} (m_fits : m < 4096) (n_fits : n < 4096)
    (later : t < u ∨ t = u ∧ m < n) : pack node t m < pack node u n := by
  rw [pack_eq node t m_fits, pack_eq node u n_fits]
  omega

theorem parts_pack (node : Node) (timestamp : Int) {sequence : Nat} (fits : sequence < 4096) :
    parts node (pack node timestamp sequence) =
      ⟨timestamp, node.datacenterId, node.workerId, sequence⟩ := by
  have datacenter := node.datacenter_le
  have worker := node.worker_le
  have five (n : Int) : Int.land n 0x1F = n % 32 := Bits.land_mask n 5
  have twelve (n : Int) : Int.land n 0xFFF = n % 4096 := Bits.land_mask n 12
  simp only [parts, five, twelve, Int.shiftRight_eq_div_pow, pack_eq node timestamp fits,
    Parts.mk.injEq]
  omega

theorem nextMillisecond_spec {last timestamp : Int} {readings rest : List Int}
    (found : nextMillisecond last readings = some (timestamp, rest)) :
    last < timestamp ∧ timestamp ∈ readings ∧ rest <:+ readings := by
  induction readings with
  | nil => simp [nextMillisecond] at found
  | cons first readings ih =>
    rw [nextMillisecond] at found
    split at found
    · obtain ⟨after, member, suffix⟩ := ih found
      exact ⟨after, List.mem_cons_of_mem _ member, suffix.trans (List.suffix_cons _ _)⟩
    · rename_i after
      obtain ⟨rfl, rfl⟩ := Prod.mk.injEq .. ▸ Option.some.inj found
      exact ⟨not_le.mp after, List.mem_cons_self, List.suffix_cons _ _⟩

theorem generate_cases {node : Node} {g : Generator} (fits : g.sequence < 4096)
    {readings rest : List Int} {outcome : Outcome}
    (ran : generate node g readings = some (outcome, rest)) : rest <:+ readings ∧
      (outcome = (.error .clockMovedBackwards, g) ∨
        ∃ timestamp ∈ readings, ∃ sequence < 4096, outcome = issue node timestamp sequence ∧
          (g.lastTimestamp < timestamp ∨ g.lastTimestamp = timestamp ∧ g.sequence < sequence)) := by
  cases readings with
  | nil => simp [generate] at ran
  | cons timestamp readings =>
    have tail : readings <:+ timestamp :: readings := List.suffix_cons _ _
    simp only [generate] at ran
    split at ran
    · obtain ⟨rfl, rfl⟩ := Prod.mk.injEq .. ▸ Option.some.inj ran
      exact ⟨tail, .inl rfl⟩
    rename_i forward
    split at ran
    · rename_i same
      split at ran
      · -- the sequence is used up and the call waits for a later millisecond
        rename_i wrapped
        obtain ⟨⟨next, left⟩, found, ran⟩ := Option.map_eq_some_iff.mp ran
        obtain ⟨rfl, rfl⟩ := Prod.mk.injEq .. ▸ ran
        obtain ⟨after, member, suffix⟩ := nextMillisecond_spec found
        exact ⟨suffix.trans tail, .inr ⟨next, List.mem_cons_of_mem _ member, _,
          by rw [wrapped]; omega, rfl, .inl after⟩⟩
      · rename_i left
        obtain ⟨rfl, rfl⟩ := Prod.mk.injEq .. ▸ Option.some.inj ran
        have masked : (g.sequence + 1) &&& 0xFFF = (g.sequence + 1) % 4096 :=
          Nat.and_two_pow_sub_one_eq_mod _ 12
        exact ⟨tail, .inr ⟨timestamp, List.mem_cons_self, _, by omega, rfl,
          .inr ⟨same.symm, by omega⟩⟩⟩
    · rename_i other
      obtain ⟨rfl, rfl⟩ := Prod.mk.injEq .. ▸ Option.some.inj ran
      exact ⟨tail, .inr ⟨timestamp, List.mem_cons_self, 0, by omega, rfl, .inl (by omega)⟩⟩

/-- What an outcome says, where `readings` are those the call could see. -/
def Built (node : Node) (readings : List Int) (outcome : Outcome) : Prop :=
  outcome.1 = .error .clockMovedBackwards ∨ ∃ id, outcome.1 = .ok id ∧
    outcome.2.lastTimestamp ∈ readings ∧ ∀ spelling,
      (spelling = .int id ∨ ∃ t, Json.dumpsInt id = .ok t ∧ spelling = .str t) →
        parse node spelling = .ok ⟨outcome.2.lastTimestamp, node.datacenterId, node.workerId,
          outcome.2.sequence⟩

theorem built_issue (node : Node) {timestamp : Int} {readings : List Int} {sequence : Nat}
    (fits : sequence < 4096) (member : timestamp ∈ readings) :
    Built node readings (issue node timestamp sequence) := by
  refine .inr ⟨pack node timestamp sequence, rfl, member, ?_⟩
  rintro spelling (rfl | ⟨t, written, rfl⟩)
  · simp only [parse, parts_pack node timestamp fits, issue]
  · simp only [parse, Numeral.int_dumpsInt written, parts_pack node timestamp fits, issue]

theorem Built.mono {node : Node} {some_readings readings : List Int} {outcome : Outcome}
    (built : Built node some_readings outcome) (sub : some_readings ⊆ readings) :
    Built node readings outcome := by
  rcases built with raised | ⟨id, returned, member, parsed⟩
  · exact .inl raised
  · exact .inr ⟨id, returned, sub member, parsed⟩

/-- By induction on the number of calls: the ids of a run lie above whatever the generator could
have issued before it. -/
theorem calls_spec {node : Node} {n : Nat} {g : Generator} (fits : g.sequence < 4096)
    {readings rest : List Int} {outcomes : List Outcome}
    (ran : calls node n g readings = some (outcomes, rest)) :
    (∀ id ∈ outcomes.filterMap Outcome.id, pack node g.lastTimestamp g.sequence < id) ∧
      (outcomes.filterMap Outcome.id).Pairwise (· < ·) ∧ ∀ o ∈ outcomes, Built node readings o := by
  induction n generalizing g readings outcomes with
  | zero =>
    obtain ⟨rfl, rfl⟩ := Prod.mk.injEq .. ▸ Option.some.inj ran
    simp
  | succ n ih =>
    simp only [calls, Option.bind_eq_bind, Option.bind_eq_some_iff, Prod.exists] at ran
    obtain ⟨first, middle, seen, one, later, left, many, result⟩ := ran
    obtain ⟨rfl, rfl⟩ := Prod.mk.injEq .. ▸ Option.some.inj result
    obtain ⟨suffix, raised | ⟨timestamp, member, sequence, small, issued, above⟩⟩ :=
      generate_cases fits one
    · obtain ⟨rfl, rfl⟩ := Prod.mk.injEq .. ▸ raised
      obtain ⟨higher, ordered, built⟩ := ih fits many
      refine ⟨higher, ordered, ?_⟩
      rintro o (_ | ⟨_, earlier⟩)
      · exact .inl rfl
      · exact (built o earlier).mono suffix.subset
    · obtain ⟨rfl, rfl⟩ := Prod.mk.injEq .. ▸ issued
      obtain ⟨higher, ordered, built⟩ := ih small many
      have step : pack node g.lastTimestamp g.sequence < pack node timestamp sequence :=
        pack_lt node fits small above
      have ids : ((.ok (pack node timestamp sequence), ⟨sequence, timestamp⟩) :: later).filterMap
          Outcome.id = pack node timestamp sequence :: later.filterMap Outcome.id := rfl
      rw [ids]
      refine ⟨?_, List.pairwise_cons.mpr ⟨higher, ordered⟩, ?_⟩
      · rintro id (_ | ⟨_, earlier⟩)
        · exact step
        · exact step.trans (higher id earlier)
      · rintro o (_ | ⟨_, earlier⟩)
        · exact built_issue node small member
        · exact (built o earlier).mono suffix.subset

section Nodes

variable {node node' : Node} {n n' : Nat} {readings readings' rest rest' : List Int}
  {outcomes outcomes' : List Outcome} {worker worker' datacenter datacenter' : Int}
  {epoch epoch' : Option Int}

theorem init_eq_ok (made : Node.init worker datacenter epoch = .ok node) :
    (node.workerId : Int) = worker ∧ (node.datacenterId : Int) = datacenter := by
  unfold Node.init at made
  split at made
  · rename_i worker_fits
    split at made
    · rename_i datacenter_fits
      cases made
      exact ⟨Int.toNat_of_nonneg worker_fits.1, Int.toNat_of_nonneg datacenter_fits.1⟩
    · cases made
  · cases made

theorem fields_of_issued (ran : calls node n {} readings = some (outcomes, rest)) {id : Int}
    (issued : id ∈ outcomes.filterMap Outcome.id) :
    Int.land (id >>> (17 : Nat)) 0x1F = node.datacenterId ∧
      Int.land (id >>> (12 : Nat)) 0x1F = node.workerId := by
  obtain ⟨outcome, member, own⟩ := List.mem_filterMap.mp issued
  rcases (calls_spec (g := {}) (by decide) ran).2.2 outcome member with
    raised | ⟨id', returned, -, parsed⟩
  · rw [Outcome.id, raised] at own
    cases own
  · rw [Outcome.id, returned] at own
    cases own
    have read := Except.ok.inj (parsed _ (.inl rfl))
    exact ⟨congrArg Parts.datacenterId read, congrArg Parts.workerId read⟩

/-- Generators of different nodes never issue the same id, whatever their clocks and epochs. -/
theorem nodes_apart (made : Node.init worker datacenter epoch = .ok node)
    (made' : Node.init worker' datacenter' epoch' = .ok node')
    (apart : worker ≠ worker' ∨ datacenter ≠ datacenter')
    (ran : calls node n {} readings = some (outcomes, rest))
    (ran' : calls node' n' {} readings' = some (outcomes', rest')) :
    ∀ id ∈ outcomes.filterMap Outcome.id, id ∉ outcomes'.filterMap Outcome.id := by
  intro id issued issued'
  obtain ⟨datacenters, workers⟩ := fields_of_issued ran issued
  obtain ⟨datacenters', workers'⟩ := fields_of_issued ran' issued'
  obtain ⟨rfl, rfl⟩ := init_eq_ok made
  obtain ⟨rfl, rfl⟩ := init_eq_ok made'
  exact apart.elim (· (workers.symm.trans workers')) (· (datacenters.symm.trans datacenters'))

/-- Workers 0 and 1 in the same millisecond. -/
theorem nodes_apart_neighbours : ∃ node node' outcomes outcomes',
    Node.init 0 0 none = .ok node ∧ Node.init 1 0 none = .ok node' ∧
      calls node 1 {} [1800000000000] = some (outcomes, []) ∧
      calls node' 1 {} [1800000000000] = some (outcomes', []) ∧
      ∀ id ∈ outcomes.filterMap Outcome.id, id ∉ outcomes'.filterMap Outcome.id := by
  obtain ⟨node, made⟩ : ∃ node, Node.init 0 0 none = .ok node := ⟨_, rfl⟩
  obtain ⟨node', made'⟩ : ∃ node, Node.init 1 0 none = .ok node := ⟨_, rfl⟩
  have one (node : Node) : ∃ outcomes, calls node 1 {} [1800000000000] = some (outcomes, []) :=
    ⟨_, rfl⟩
  obtain ⟨outcomes, ran⟩ := one node
  obtain ⟨outcomes', ran'⟩ := one node'
  exact ⟨node, node', outcomes, outcomes', made, made', ran, ran',
    nodes_apart made made' (.inl Int.zero_ne_one) ran ran'⟩

end Nodes

section Waiting

variable {node : Node} {clock : Nat → Int}

/-- The `n` readings from the one at `i` on. -/
def window (clock : Nat → Int) (i n : Nat) : List Int := (List.range' i n).map clock

theorem window_append (clock : Nat → Int) (i m n : Nat) :
    window clock i (m + n) = window clock i m ++ window clock (i + m) n := by
  rw [window, window, window, ← List.map_append, List.range'_append_1]

theorem nextMillisecond_window {last : Int} {i : Nat} (d : Nat) (after : last < clock (i + d)) :
    ∃ n timestamp, ∀ later,
      nextMillisecond last (window clock i n ++ later) = some (timestamp, later) := by
  induction d generalizing i with
  | zero => exact ⟨1, clock i, fun later => if_neg (not_le.mpr after)⟩
  | succ d ih =>
    by_cases waits : clock i ≤ last
    · obtain ⟨n, timestamp, found⟩ := ih (i := i + 1) (by rwa [Nat.add_right_comm])
      refine ⟨1 + n, timestamp, fun later => ?_⟩
      rw [window_append, List.append_assoc]
      exact (if_pos waits).trans (found later)
    · exact ⟨1, clock i, fun later => if_neg waits⟩

theorem generate_window (node : Node) (advances : Advances clock) (g : Generator) (i : Nat) :
    ∃ n outcome, ∀ later,
      generate node g (window clock i n ++ later) = some (outcome, later) := by
  have head (later : List Int) : window clock i 1 ++ later = clock i :: later := rfl
  by_cases wraps : clock i = g.lastTimestamp ∧ (g.sequence + 1) &&& 0xFFF = 0
  · obtain ⟨j, from_here, after⟩ := advances i
    rw [wraps.1, ← Nat.add_sub_cancel' (show i + 1 ≤ j from from_here)] at after
    obtain ⟨n, timestamp, found⟩ := nextMillisecond_window (j - (i + 1)) after
    refine ⟨1 + n, issue node timestamp 0, fun later => ?_⟩
    rw [window_append, List.append_assoc, head, generate, if_neg wraps.1.not_lt, if_pos wraps.1,
      if_pos wraps.2, found, wraps.2]
    rfl
  · simp only [not_and] at wraps
    rcases lt_trichotomy (clock i) g.lastTimestamp with back | same | forward
    · refine ⟨1, (.error .clockMovedBackwards, g), fun later => ?_⟩
      rw [head, generate, if_pos back]
    · refine ⟨1, issue node (clock i) ((g.sequence + 1) &&& 0xFFF), fun later => ?_⟩
      rw [head, generate, if_neg same.not_lt, if_pos same, if_neg (wraps same)]
    · refine ⟨1, issue node (clock i) 0, fun later => ?_⟩
      rw [head, generate, if_neg forward.not_gt, if_neg forward.ne']

theorem calls_window (node : Node) (advances : Advances clock) (n : Nat) (g : Generator) (i : Nat) :
    ∃ m outcomes, ∀ later,
      calls node n g (window clock i m ++ later) = some (outcomes, later) := by
  induction n generalizing g i with
  | zero => exact ⟨0, [], fun later => rfl⟩
  | succ n ih =>
    obtain ⟨first, outcome, one⟩ := generate_window node advances g i
    obtain ⟨m, outcomes, many⟩ := ih outcome.2 (i + first)
    refine ⟨first + m, outcome :: outcomes, fun later => ?_⟩
    rw [window_append, List.append_assoc, calls, one]
    simp [many]

end Waiting

/-- In every run of calls from a new generator each call raises or returns an id above all the
earlier ones, which parses to what it was built from, the timestamp being a reading of the clock;
and every call comes back on a clock that advances at last. -/
theorem generate_increases (node : Node) :
    (∀ n readings outcomes rest, calls node n {} readings = some (outcomes, rest) →
      (outcomes.filterMap Outcome.id).Pairwise (· < ·) ∧ ∀ o ∈ outcomes, Built node readings o) ∧
    ∀ clock, Advances clock → ∀ n, ∃ m, (calls node n {} (window clock 0 m)).isSome := by
  constructor
  · intro n readings outcomes rest ran
    exact (calls_spec (g := {}) (by decide) ran).2
  · intro clock advances n
    obtain ⟨m, outcomes, returned⟩ := calls_window node advances n {} 0
    refine ⟨m, ?_⟩
    have whole := returned []
    rw [List.append_nil] at whole
    rw [whole]
    rfl

end Plexichat.Encryption.Snowflake
