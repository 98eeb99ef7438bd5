import Plexichat.Library.Interleaving
import Plexichat.Library.Table
import Mathlib.Data.Rat.Defs
import Mathlib.Algebra.Order.Ring.Rat
import Mathlib.Tactic.Linarith

/-! manager/reputation.py: the scores that violations lower and decay restores, statement by
statement, beside the ledger that the statements are meant to keep. Scores are exact numbers. -/
namespace Plexichat.Automod

open Transition

structure ServerId where
  val : Nat
  positive : 0 < val
  deriving DecidableEq

theorem ServerId.ext {s s' : ServerId} (same : s.val = s'.val) : s = s' := by
  cases s
  cases s'
  cases same
  rfl

inductive Severity where
  | low | medium | high | critical
  deriving DecidableEq

/-- automod_reputation -/
structure Reputation where
  userId : Nat
  serverId : ServerId
  score : ℚ
  violationCount : Nat
  lastViolationAt : Option Nat
  /-- A parameter in the wrong place puts a rate here. -/
  lastDecayAt : ℚ
  createdAt : Nat
  updatedAt : ℚ
  deriving DecidableEq

def Reputation.key (r : Reputation) : Nat × ServerId := (r.userId, r.serverId)

abbrev Scores := Table Reputation Reputation.key

structure DecayConfig where
  /-- reputation_decay_rate -/
  rate : ℚ
  /-- reputation_decay_interval, in seconds -/
  interval : Nat

def penalty : Severity → ℚ
  | .low => 5
  | .medium => 10
  | .high => 20
  | .critical => 40

/-- SET score = ? of a violation -/
def Reputation.punished (now : Nat) (score : ℚ) (r : Reputation) : Reputation :=
  { r with
    score := score
    violationCount := r.violationCount + 1
    lastViolationAt := some now
    updatedAt := now }

/-- SET score = MIN(100, score + ?) -/
def Reputation.lifted (score lastDecay updated : ℚ) (r : Reputation) : Reputation :=
  { r with
    score := min 100 (r.score + score)
    lastDecayAt := lastDecay
    updatedAt := updated }

theorem key_punished (now : Nat) (score : ℚ) (r : Reputation) :
    (r.punished now score).key = r.key := rfl

theorem key_lifted (score lastDecay updated : ℚ) (r : Reputation) :
    (r.lifted score lastDecay updated).key = r.key := rfl

def penalize (now : Nat) (k : Nat × ServerId) (score : ℚ) (t : Scores) : Scores :=
  t.update (fun r => r.key = k) (Reputation.punished now score) (key_punished now score)

def firstViolation (now : Nat) (k : Nat × ServerId) (severity : Severity) : Reputation :=
  ⟨k.1, k.2, 100 - penalty severity, 1, some now, now, now, now⟩

/-- The write of `_update_reputation`, for the score that was read. A first violation inserts, and a
row that is there by then is an integrity error. -/
def writePenalty (now : Nat) (k : Nat × ServerId) (severity : Severity) (read : Option ℚ)
    (t : Scores) : Scores :=
  match read with
  | some score => penalize now k (max 0 (score - penalty severity)) t
  | none => t.insertOrIgnore (firstViolation now k severity)

/-- The UPDATE of `decay_reputation` with its parameters in order; `perServer` has the condition on the
server behind WHERE. -/
def decayRows (perServer : Bool) (params : List ℚ) (t : Scores) : Scores :=
  match perServer, params with
  | false, [score, lastDecay, updated, cutoff] =>
    t.update (fun r => r.lastDecayAt < cutoff ∧ r.score < 100)
      (Reputation.lifted score lastDecay updated) (key_lifted score lastDecay updated)
  | true, [score, lastDecay, updated, server, cutoff] =>
    t.update (fun r => r.serverId.val = server ∧ r.lastDecayAt < cutoff ∧ r.score < 100)
      (Reputation.lifted score lastDecay updated) (key_lifted score lastDecay updated)
  | _, _ => t

def DecayConfig.cutoff (cfg : DecayConfig) (now : Nat) : ℚ := now - cfg.interval * 1000

def decayParams (cfg : DecayConfig) (now : Nat) : List ℚ := [cfg.rate, now, now, cfg.cutoff now]

/-- `decay_reputation`: the parameter for the server is inserted at the front. -/
def decayReputation (cfg : DecayConfig) (now : Nat) (server : Option ServerId) (t : Scores) :
    Scores :=
  match server with
  | none => decayRows false (decayParams cfg now) t
  | some s => decayRows true ((s.val : ℚ) :: decayParams cfg now) t

/-! What a violation and a decay are for. -/

/-- A violation lowers the score that the row has, down to 0. -/
def penalized (now : Nat) (k : Nat × ServerId) (severity : Severity) (t : Scores) : Scores :=
  writePenalty now k severity ((t.find k).map Reputation.score) t

def Due (cfg : DecayConfig) (now : Nat) (r : Reputation) : Prop :=
  r.lastDecayAt < cfg.cutoff now ∧ r.score < 100

instance (cfg : DecayConfig) (now : Nat) (r : Reputation) : Decidable (Due cfg now r) :=
  inferInstanceAs (Decidable (_ ∧ _))

def restored (cfg : DecayConfig) (now : Nat) (server : Option ServerId) (t : Scores) : Scores :=
  t.update (fun r => (∀ s ∈ server, r.serverId = s) ∧ Due cfg now r)
    (Reputation.lifted cfg.rate now now) (key_lifted cfg.rate now now)

/-! Calls side by side. -/

structure Books where
  stored : Scores
  ledger : Scores

inductive Call where
  | idle
  | writing (now : Nat) (k : Nat × ServerId) (severity : Severity) (read : Option ℚ)

inductive Statement where
  | read (now : Nat) (k : Nat × ServerId) (severity : Severity)
  | write
  | decay (now : Nat) (server : Option ServerId)

def next (cfg : DecayConfig) (b : Books) : Call → Statement → Option (Books × Call)
  | .idle, .read now k severity =>
    some (b, .writing now k severity ((b.stored.find k).map Reputation.score))
  | .writing now k severity read, .write =>
    some (⟨writePenalty now k severity read b.stored, penalized now k severity b.ledger⟩, .idle)
  | .idle, .decay now server =>
    some (⟨decayReputation cfg now server b.stored, restored cfg now server b.ledger⟩, .idle)
  | _, _ => none

abbrev Server := Interleaving.State Nat Books Call

def InRange (t : Scores) : Prop := ∀ r ∈ t, 0 ≤ r.score ∧ r.score ≤ 100

structure Kept (s : Server) : Prop where
  same : s.shared.stored = s.shared.ledger
  range : InRange s.shared.stored

def Opening (s : Server) : Prop := Kept s ∧ ∀ i, s.pc i = .idle

def Current (k : Nat × ServerId) (severity : Severity) (t : Scores) : Option ℚ → Prop
  | none => t.find k = none
  | some read => ∃ r, t.find k = some r ∧
      max 0 (read - penalty severity) = max 0 (r.score - penalty severity)

/-- A decay of all rows lifts them; one of a server has nothing to do, and neither has the server
whose id is the time. -/
def Decays (cfg : DecayConfig) (now : Nat) (t : Scores) : Option ServerId → Prop
  | none => ∀ r ∈ t, Due cfg now r → 0 ≤ r.score + cfg.rate
  | some s => (∀ r ∈ t, Due cfg now r → r.serverId ≠ s ∧ r.serverId.val ≠ now) ∨
      s.val = now ∧ cfg.rate = now

def Meets (cfg : DecayConfig) (s : Server) (a : Nat × Statement) : Prop :=
  match s.pc a.1, a.2 with
  | .writing _ k severity read, .write => Current k severity s.shared.stored read
  | _, .decay now server => Decays cfg now s.shared.stored server
  | _, _ => True

section Penalties

variable {t : Scores} {k : Nat × ServerId} {severity : Severity} {now : Nat}

theorem penalty_range (severity : Severity) : 0 ≤ penalty severity ∧ penalty severity ≤ 100 := by
  cases severity <;> norm_num [penalty]

theorem find_penalize (score : ℚ) :
    (penalize now k score t).find k = (t.find k).map (Reputation.punished now score) := by
  unfold penalize
  rw [Table.find_update]
  cases found : t.find k with
  | none => rfl
  | some r => simp [(Table.find_eq_some.mp found).2]

theorem penalize_inj {r : Reputation} (found : t.find k = some r) {x y : ℚ} :
    penalize now k x t = penalize now k y t ↔ x = y := by
  refine ⟨fun same => ?_, fun same => same ▸ rfl⟩
  have left : (penalize now k x t).find k = _ := find_penalize x
  rw [same, find_penalize, found] at left
  simpa [Reputation.punished] using left.symm

theorem writePenalty_iff (read : Option ℚ) :
    writePenalty now k severity read t = penalized now k severity t ↔
      Current k severity t read := by
  unfold penalized
  cases found : t.find k with
  | none =>
    cases read with
    | none => simp [Current, found]
    | some score =>
      refine iff_of_false ?_ (by simp [Current, found])
      intro same
      obtain ⟨t', inserted⟩ := Table.insert_of_fresh (r := firstViolation now k severity) found
      have there := Table.find_inserted inserted
      have missing : (penalize now k (max 0 (score - penalty severity)) t).find k = none := by
        rw [find_penalize, found]
        rfl
      simp only [writePenalty, Option.map_none, Table.insertOrIgnore, inserted,
        Option.getD_some] at same
      rw [same] at missing
      exact absurd (missing.symm.trans there) (by simp)
  | some r =>
    cases read with
    | none =>
      refine iff_of_false ?_ (by simp [Current, found])
      intro same
      have used : t.insert (firstViolation now k severity) = none := Table.insert_of_used found
      simp only [writePenalty, Option.map_some, Table.insertOrIgnore, used,
        Option.getD_none] at same
      have punished : t.find k = some (r.punished now (max 0 (r.score - penalty severity))) := by
        rw [same, find_penalize, found]
        rfl
      rw [found] at punished
      have count := congrArg Reputation.violationCount (Option.some.inj punished)
      simp [Reputation.punished] at count
    | some score =>
      have same : penalize now k (max 0 (score - penalty severity)) t =
        penalize now k (max 0 (r.score - penalty severity)) t ↔ _ := penalize_inj found
      simpa [Current, found, writePenalty] using same

theorem penalized_inRange (range : InRange t) : InRange (penalized now k severity t) := by
  obtain ⟨least, most⟩ := penalty_range severity
  intro q member
  unfold penalized at member
  cases found : t.find k with
  | none =>
    obtain ⟨t', inserted⟩ := Table.insert_of_fresh (r := firstViolation now k severity) found
    simp only [found, writePenalty, Option.map_none, Table.insertOrIgnore, inserted,
      Option.getD_some] at member
    rcases (Table.mem_insert inserted).mp member with old | rfl
    · exact range q old
    · exact ⟨sub_nonneg.mpr most, sub_le_self 100 least⟩
  | some r =>
    have bounds := range r (Table.find_eq_some.mp found).1
    simp only [found, writePenalty, Option.map_some] at member
    unfold penalize at member
    rw [Table.mem_update] at member
    obtain ⟨p, row, rfl⟩ := member
    split
    · refine ⟨le_max_left _ _, max_le (by norm_num) ?_⟩
      exact le_trans (sub_le_self _ least) bounds.2
    · exact range p row

end Penalties

section Decay

variable {t : Scores} {r : Reputation} {cfg : DecayConfig} {now : Nat}

theorem decayReputation_all : decayReputation cfg now none t = restored cfg now none t := by
  unfold decayReputation decayRows decayParams restored
  rw [Table.update_eq_iff]
  intro r _
  simp [Due]

theorem Due.before (due : Due cfg now r) : r.lastDecayAt < now := by
  have positive : (0 : ℚ) ≤ cfg.interval * 1000 := by positivity
  have early := due.1
  unfold DecayConfig.cutoff at early
  linarith

theorem decayReputation_server (s : ServerId) :
    decayReputation cfg now (some s) t = t.update (fun r => r.serverId.val = now ∧ Due cfg now r)
      (Reputation.lifted s.val cfg.rate now) (key_lifted s.val cfg.rate now) := by
  unfold decayReputation decayRows decayParams
  rw [Table.update_eq_iff]
  intro r _
  have alike : ((r.serverId.val : ℚ) = now ∧ r.lastDecayAt < cfg.cutoff now ∧ r.score < 100) ↔
      (r.serverId.val = now ∧ Due cfg now r) := and_congr_left' Nat.cast_inj
  rw [decide_eq_decide.mpr alike]

theorem lifted_ne (due : Due cfg now r) (s : ServerId) : r.lifted s.val cfg.rate now ≠ r := by
  intro same
  have positive : (0 : ℚ) < s.val := by exact_mod_cast s.positive
  have score : min 100 (r.score + s.val) = r.score := congrArg Reputation.score same
  have above : r.score < min 100 (r.score + s.val) := lt_min due.2 (by linarith)
  exact above.ne score.symm

theorem decay_row_iff (s : ServerId) (r : Reputation) :
    (if r.serverId.val = now ∧ Due cfg now r then r.lifted s.val cfg.rate now else r) =
      (if r.serverId = s ∧ Due cfg now r then r.lifted cfg.rate now now else r) ↔
    (Due cfg now r → r.serverId ≠ s ∧ r.serverId.val ≠ now) ∨ s.val = now ∧ cfg.rate = now := by
  by_cases due : Due cfg now r
  · by_cases own : r.serverId = s
    · by_cases here : s.val = now
      · -- the server whose id is the time: the rate is where the time belongs
        have at_now : r.serverId.val = now := own ▸ here
        simp only [own, here, due, and_self, if_true, true_and, not_true_eq_false, ne_eq,
          true_implies, false_or]
        constructor
        · exact fun same => congrArg Reputation.lastDecayAt same
        · exact fun rate => by rw [rate]
      · have apart : r.serverId.val ≠ now := own ▸ here
        simp only [own, here, due, and_true, if_false, if_true, true_implies, false_and, or_false,
          ne_eq, not_true_eq_false, iff_false]
        intro same
        have decayed : r.lastDecayAt = now := congrArg Reputation.lastDecayAt same
        exact due.before.ne decayed
    · by_cases here : r.serverId.val = now
      · have apart : s.val ≠ now := by
          intro same
          exact own (ServerId.ext (here.trans same.symm))
        simp only [own, here, apart, due, and_self, and_true, if_false, if_true, true_implies,
          false_and, or_false, ne_eq, not_true_eq_false, and_false, iff_false]
        exact lifted_ne due s
      · simp [own, here]
  · simp [due]

theorem forall_mem_or_const {p : Reputation → Prop} {q : Prop} :
    (∀ r ∈ t, p r ∨ q) ↔ (∀ r ∈ t, p r) ∨ q := by
  by_cases always : q
  · simp [always]
  · simp [always]

theorem restored_inRange {server : Option ServerId} (range : InRange t)
    (lifts : ∀ r ∈ t, (∀ s ∈ server, r.serverId = s) → Due cfg now r → 0 ≤ r.score + cfg.rate) :
    InRange (restored cfg now server t) := by
  intro q member
  unfold restored at member
  rw [Table.mem_update] at member
  obtain ⟨r, row, rfl⟩ := member
  split
  · rename_i chosen
    obtain ⟨own, due⟩ := of_decide_eq_true chosen
    exact ⟨le_min (by norm_num) (lifts r row own due), min_le_left _ _⟩
  · exact range r row

theorem decayReputation_iff (server : Option ServerId) (range : InRange t) :
    decayReputation cfg now server t = restored cfg now server t ∧
      InRange (restored cfg now server t) ↔ Decays cfg now t server := by
  cases server with
  | none =>
    refine ⟨?_, fun lifts => ⟨decayReputation_all, restored_inRange range fun r row _ => lifts r row⟩⟩
    rintro ⟨-, inside⟩ r row due
    have member : r.lifted cfg.rate now now ∈ restored cfg now none t := by
      unfold restored
      rw [Table.mem_update]
      exact ⟨r, row, by simp [due]⟩
    exact (le_min_iff.mp (inside _ member).1).2
  | some s =>
    have rows : decayReputation cfg now (some s) t = restored cfg now (some s) t ↔
        Decays cfg now t (some s) := by
      rw [decayReputation_server, restored, Table.update_eq_iff, Decays, ← forall_mem_or_const]
      refine forall₂_congr fun r _ => ?_
      rw [← decay_row_iff]
      simp
    refine ⟨fun both => rows.mp both.1, fun decays => ⟨rows.mpr decays, ?_⟩⟩
    refine restored_inRange range ?_
    intro r row own due
    rcases decays with nothing | ⟨-, rate⟩
    · exact absurd (own s rfl) (nothing r row due).1
    · have positive : (0 : ℚ) ≤ now := by positivity
      have lower := (range r row).1
      rw [rate]
      linarith

end Decay

theorem kept_after {s : Server} {i : Nat} {b : Books} {call : Call} :
    Kept (s.after i (b, call)) ↔ b.stored = b.ledger ∧ InRange b.ledger := by
  constructor
  · exact fun kept => ⟨kept.same, kept.same ▸ kept.range⟩
  · exact fun both => ⟨both.1, both.1 ▸ both.2⟩

theorem kept_step {cfg : DecayConfig} {s s' : Server} (kept : Kept s) {a : Nat × Statement}
    (moved : Interleaving.step (next cfg) s a = some s') : Kept s' ↔ Meets cfg s a := by
  obtain ⟨result, taken, rfl⟩ := Interleaving.step_eq_some.mp moved
  clear moved
  unfold Meets
  unfold next at taken
  split at taken
  · rename_i now k severity call action
    cases taken
    simp only [call, action, iff_true]
    exact ⟨kept.same, kept.range⟩
  · rename_i now k severity read call action
    cases taken
    simp only [call, action]
    rw [kept_after, ← kept.same, ← writePenalty_iff]
    exact and_iff_left (penalized_inRange kept.range)
  · rename_i now server call action
    cases taken
    simp only [call, action]
    rw [kept_after, ← kept.same]
    exact decayReputation_iff server kept.range
  · cases taken

/-- As long as every violation finds at its write what it has read, and no decay of one server has
anything to do, the table is the ledger; and the first statement that is not so breaks it. -/
theorem bookkeeping_iff {cfg : DecayConfig} {s : Server}
    (reached : Guarded (Interleaving.step (next cfg)) (Meets cfg) Opening s) :
    Kept s ∧ ∀ a s', Interleaving.step (next cfg) s a = some s' → (Kept s' ↔ Meets cfg s a) := by
  have kept : Kept s := by
    refine guarded_invariant (fun _ opening => opening.1) ?_ reached
    exact fun s a s' kept meets moved => (kept_step kept moved).mpr meets
  exact ⟨kept, fun a s' moved => kept_step kept moved⟩

section Runs

def shop : ServerId := ⟨1, Nat.one_pos⟩

def daily : DecayConfig := ⟨1, 86400⟩

def half : Reputation := ⟨7, shop, 50, 3, some 0, 0, 0, 0⟩

def halfBooks (t : Scores) : Server := ⟨⟨t, t⟩, fun _ => .idle⟩

def halves : Scores := ⟨[half], List.nodup_singleton _⟩

theorem halves_opening : Opening (halfBooks halves) := by
  refine ⟨⟨rfl, ?_⟩, fun _ => rfl⟩
  intro r member
  rw [List.mem_singleton.mp member]
  exact ⟨by norm_num [half], by norm_num [half]⟩

/-- One violation after the other. -/
theorem bookkeeping_iff_halves : ∃ s,
    Guarded (Interleaving.step (next daily)) (Meets daily) Opening s ∧ Kept s ∧
      (∀ a s', Interleaving.step (next daily) s a = some s' → (Kept s' ↔ Meets daily s a)) ∧
      s.shared.stored.rows.map Reputation.score = [45] := by
  have reached : Guarded (Interleaving.step (next daily)) (Meets daily) Opening _ :=
    .step (a := (0, .write)) (.step (a := (0, .read 5 (7, shop) .low)) (.start halves_opening)
      trivial rfl) ⟨half, rfl, rfl⟩ rfl
  refine ⟨_, reached, (bookkeeping_iff reached).1, (bookkeeping_iff reached).2, ?_⟩
  decide +kernel

theorem not_kept {s : Server} {x y : List ℚ}
    (stored : s.shared.stored.rows.map Reputation.score = x)
    (ledger : s.shared.ledger.rows.map Reputation.score = y) (apart : x ≠ y) : ¬Kept s := by
  intro kept
  rw [kept.same, ledger] at stored
  exact apart stored.symm

/-- Two violations that both read the score before one of them writes, and a decay of one server
that has a row to restore. -/
theorem bookkeeping_iff_lost :
    (∃ s, Reachable (Interleaving.step (next daily)) Opening s ∧ ¬Kept s ∧
      s.shared.stored.rows.map Reputation.score = [45] ∧
      s.shared.ledger.rows.map Reputation.score = [40]) ∧
    ∃ s, Reachable (Interleaving.step (next daily)) Opening s ∧ ¬Kept s ∧
      s.shared.stored.rows.map Reputation.score = [50] ∧
      s.shared.ledger.rows.map Reputation.score = [51] := by
  constructor
  · have reached : Reachable (Interleaving.step (next daily)) Opening _ :=
      reachable_of_run [(0, .read 5 (7, shop) .low), (1, .read 5 (7, shop) .low), (0, .write),
        (1, .write)] halves_opening rfl
    exact ⟨_, reached, not_kept rfl rfl (by decide +kernel), by decide +kernel, by decide +kernel⟩
  · have reached : Reachable (Interleaving.step (next daily)) Opening _ :=
      reachable_of_run [(0, .decay 86400001 (some shop))] halves_opening rfl
    exact ⟨_, reached, not_kept rfl rfl (by decide +kernel), by decide +kernel, by decide +kernel⟩

end Runs

end Plexichat.Automod
