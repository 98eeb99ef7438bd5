import Plexichat.Library.Transition
import Plexichat.Migrations.Manager
import Mathlib.Order.Interval.Finset.Nat

/-! The uptime sessions of tracker.py: every server process starts one over the shared database, and
the gate for irreversible migrations adds them up. Processes that run side by side credit the same
seconds more than once. -/
namespace Plexichat.Migrations

open Transition

structure Tracker where
  process : Nat
  /-- _start_time -/
  startTime : Nat
  /-- _current_uptime_session_id -/
  session : Option Nat

structure Cluster where
  now : Nat
  history : Table Row Row.version
  uptime : Table Session Session.id
  tokens : Table Token Token.hash
  /-- AUTOINCREMENT -/
  nextId : Nat
  /-- _session_registry -/
  registry : Nat → Option Nat
  trackers : List Tracker

inductive ClusterStep where
  | tick (seconds : Nat)
  | construct (process : Nat)
  | startSession (tracker : Nat)
  | updateUptime (tracker : Nat)
  | record (m : Migration)
  | setStatus (v : Version) (status : Status)

namespace Cluster

variable (c : Cluster)

def view (session : Option Nat) : State := ⟨c.history, c.uptime, session, c.tokens⟩

/-- `MigrationTracker.__init__` -/
def construct (process : Nat) : Cluster :=
  { c with trackers := c.trackers ++ [⟨process, c.now, none⟩] }

def setSession (tracker id : Nat) : Cluster :=
  { c with trackers := c.trackers.modify tracker fun t => { t with session := some id } }

def startUptimeSession (tracker : Nat) (t : Tracker) : Option Cluster :=
  match c.registry t.process with
  | some existing => some (c.setSession tracker existing)
  | none => (c.uptime.insert ⟨c.nextId, c.now, 0⟩).map fun uptime =>
    { c.setSession tracker c.nextId with
      uptime := uptime
      nextId := c.nextId + 1
      registry := fun p => if p = t.process then some c.nextId else c.registry p }

def credit (id elapsed : Nat) : Cluster :=
  let spend (r : Session) : Session := { r with uptimeSeconds := elapsed }
  { c with uptime := c.uptime.update (fun r => r.id = id) spend fun _ => rfl }

def updateUptime (t : Tracker) : Cluster :=
  match t.session with
  | none => c
  | some id => c.credit id (c.now - t.startTime)

/-- A start keeps the applied time of a version that the history has. -/
def withHistory (s : State) : Cluster := { c with history := s.history }

def step : ClusterStep → Option Cluster
  | .tick seconds => some { c with now := c.now + seconds }
  | .construct process => some (c.construct process)
  | .startSession k => c.trackers[k]?.bind fun t => c.startUptimeSession k t
  | .updateUptime k => c.trackers[k]?.map c.updateUptime
  | .record m => some (c.withHistory ((c.view none).recordMigrationStart c.now m))
  | .setStatus v status => some (c.withHistory ((c.view none).setStatus v status))

def Initial : Prop :=
  c.uptime = .empty ∧ c.trackers = [] ∧ ∀ r ∈ c.history, r.appliedAt ≤ c.now

def Uncredited (id start stop : Nat) : Prop :=
  ∀ r ∈ c.uptime, r.id ≠ id →
    Disjoint (Finset.Ico start stop) (Finset.Ico r.startTime (r.startTime + r.uptimeSeconds))

def sessionOf (t : Tracker) : Option Session := t.session.bind c.uptime.find

/-- The tracker was not made before its session, and the seconds that it writes are credited to no
other session. -/
def Fits (t : Tracker) : Prop :=
  ∀ r, c.sessionOf t = some r → r.startTime ≤ t.startTime ∧
    c.Uncredited r.id r.startTime (r.startTime + (c.now - t.startTime))

def Apart : ClusterStep → Prop
  | .updateUptime k => ∀ t, c.trackers[k]? = some t → c.Fits t
  | _ => True

def Alone (t : Tracker) : Prop :=
  ∀ r, c.sessionOf t = some r → c.Uncredited r.id r.startTime c.now

end Cluster

def Session.seconds (r : Session) : Finset Nat :=
  Finset.Ico r.startTime (r.startTime + r.uptimeSeconds)

structure Credited (c : Cluster) : Prop where
  applied : ∀ r ∈ c.history, r.appliedAt ≤ c.now
  past : ∀ r ∈ c.uptime, r.startTime + r.uptimeSeconds ≤ c.now
  once : ∀ r ∈ c.uptime, ∀ q ∈ c.uptime, r.id ≠ q.id → Disjoint r.seconds q.seconds

section Sums

theorem sum_card_le {parts : List (Finset Nat)} {whole : Finset Nat}
    (apart : parts.Pairwise Disjoint) (inside : ∀ p ∈ parts, p ⊆ whole) :
    (parts.map Finset.card).sum ≤ whole.card := by
  induction parts generalizing whole with
  | nil => exact Nat.zero_le _
  | cons p parts ih =>
    obtain ⟨first, apart⟩ := List.pairwise_cons.mp apart
    have within : p ⊆ whole := inside p List.mem_cons_self
    have rest : ∀ q ∈ parts, q ⊆ whole \ p := by
      intro q member
      exact Finset.subset_sdiff.mpr
        ⟨inside q (List.mem_cons_of_mem p member), (first q member).symm⟩
    have left := ih apart rest
    rw [Finset.card_sdiff_of_subset within] at left
    have part := Finset.card_le_card within
    rw [List.map_cons, List.sum_cons]
    omega

variable {c : Cluster}

theorem card_seconds (r : Session) : r.seconds.card = r.uptimeSeconds := by
  rw [Session.seconds, Nat.card_Ico, Nat.add_sub_cancel_left]

theorem counted_le (credited : Credited c) {since : Nat} {live : Finset Nat}
    (inside : live ⊆ Finset.Ico since c.now)
    (apart : ∀ r ∈ c.uptime, Disjoint live r.seconds) :
    ((c.uptime.rows.filter fun r => since ≤ r.startTime).map Session.uptimeSeconds).sum + live.card
      ≤ c.now - since := by
  have ids : c.uptime.rows.Pairwise fun r q => r.id ≠ q.id := List.pairwise_map.mp c.uptime.unique
  have disjoint : c.uptime.rows.Pairwise fun r q => Disjoint r.seconds q.seconds :=
    ids.imp_of_mem fun left right other => credited.once _ left _ right other
  have counted : (((live :: (c.uptime.rows.filter fun r => since ≤ r.startTime).map
      Session.seconds).map Finset.card).sum) ≤ (Finset.Ico since c.now).card := by
    refine sum_card_le (List.pairwise_cons.mpr ⟨?_, ?_⟩) ?_
    · intro p member
      obtain ⟨r, kept, rfl⟩ := List.mem_map.mp member
      exact apart r (List.mem_of_mem_filter kept)
    · exact List.pairwise_map.mpr (disjoint.sublist List.filter_sublist)
    · intro p member
      rcases List.mem_cons.mp member with rfl | member
      · exact inside
      · obtain ⟨r, kept, rfl⟩ := List.mem_map.mp member
        obtain ⟨row, late⟩ := List.mem_filter.mp kept
        exact Finset.Ico_subset_Ico (of_decide_eq_true late) (credited.past r row)
  rw [List.map_cons, List.sum_cons, List.map_map, Nat.card_Ico] at counted
  have lengths : Finset.card ∘ Session.seconds = Session.uptimeSeconds := funext card_seconds
  rw [lengths] at counted
  omega

theorem uptimeFrom_le (credited : Credited c) {t : Tracker} (alone : c.Alone t) {since : Nat}
    (past : since ≤ c.now) : (c.view t.session).uptimeFrom c.now since + since ≤ c.now := by
  have bounded (live : Finset Nat) (inside : live ⊆ Finset.Ico since c.now)
      (apart : ∀ r ∈ c.uptime, Disjoint live r.seconds)
      (counts : (c.view t.session).sessionContribution c.now since ≤ live.card) :
      (c.view t.session).uptimeFrom c.now since + since ≤ c.now := by
    have counted := counted_le credited inside apart
    have total : (c.view t.session).uptimeFrom c.now since =
      ((c.uptime.rows.filter fun r => since ≤ r.startTime).map Session.uptimeSeconds).sum +
        (c.view t.session).sessionContribution c.now since := rfl
    omega
  cases found : c.sessionOf t with
  | none =>
    refine bounded ∅ (Finset.empty_subset _) (fun r _ => Finset.disjoint_empty_left _) ?_
    unfold State.sessionContribution
    rw [show (c.view t.session).session.bind (c.view t.session).uptime.find = none from found]
    exact Nat.zero_le _
  | some row =>
    have member : row ∈ c.uptime := by
      obtain ⟨id, -, read⟩ := Option.bind_eq_some_iff.mp found
      exact (Table.find_eq_some.mp read).1
    have ended := credited.past row member
    by_cases early : row.startTime < since
    · refine bounded ∅ (Finset.empty_subset _) (fun r _ => Finset.disjoint_empty_left _) ?_
      unfold State.sessionContribution
      rw [show (c.view t.session).session.bind (c.view t.session).uptime.find = some row from found]
      simp [early]
    · -- what the open session adds begins where its stored seconds end
      refine bounded (Finset.Ico (row.startTime + row.uptimeSeconds) c.now) ?_ ?_ ?_
      · exact Finset.Ico_subset_Ico (by omega) le_rfl
      · intro r other
        by_cases same : r.id = row.id
        · rw [Table.eq_of_key other member same]
          exact (Finset.Ico_disjoint_Ico_consecutive _ _ _).symm
        · exact (alone row found r other same).mono_left
            (Finset.Ico_subset_Ico (Nat.le_add_right _ _) le_rfl)
      · unfold State.sessionContribution
        rw [show (c.view t.session).session.bind (c.view t.session).uptime.find = some row
          from found, Nat.card_Ico]
        simp only [early, if_false]
        omega

end Sums

section Steps

variable {c c' : Cluster}

theorem mem_credit {id elapsed : Nat} {q : Session} (member : q ∈ (c.credit id elapsed).uptime) :
    ∃ r ∈ c.uptime, q.id = r.id ∧ q.startTime = r.startTime ∧
      q.uptimeSeconds = if r.id = id then elapsed else r.uptimeSeconds := by
  unfold Cluster.credit at member
  dsimp only at member
  rw [Table.mem_update] at member
  obtain ⟨r, row, rfl⟩ := member
  refine ⟨r, row, ?_⟩
  by_cases same : r.id = id
  · simp [same]
  · simp [same]

theorem credited_credit (credited : Credited c) {id elapsed : Nat}
    (fits : ∀ r, c.uptime.find id = some r → r.startTime + elapsed ≤ c.now ∧
      c.Uncredited r.id r.startTime (r.startTime + elapsed)) : Credited (c.credit id elapsed) := by
  refine ⟨credited.applied, ?_, ?_⟩
  · intro q member
    obtain ⟨r, row, -, start, written⟩ := mem_credit member
    rw [start, written]
    split
    · rename_i same
      exact (fits r (Table.find_eq_some.mpr ⟨row, same⟩)).1
    · exact credited.past r row
  · intro q member q' member' other
    obtain ⟨r, row, name, start, written⟩ := mem_credit member
    obtain ⟨r', row', name', start', written'⟩ := mem_credit member'
    rw [name, name'] at other
    rw [Session.seconds, Session.seconds, start, start', written, written']
    by_cases same : r.id = id
    · have apart : r'.id ≠ id := fun same' => other (same.trans same'.symm)
      rw [if_pos same, if_neg apart]
      exact (fits r (Table.find_eq_some.mpr ⟨row, same⟩)).2 r' row' other.symm
    · rw [if_neg same]
      by_cases same' : r'.id = id
      · rw [if_pos same']
        exact ((fits r' (Table.find_eq_some.mpr ⟨row', same'⟩)).2 r row other).symm
      · rw [if_neg same']
        exact credited.once r row r' row' other

theorem Credited.of_tables (credited : Credited c) (now : c'.now = c.now)
    (history : c'.history = c.history) (uptime : c'.uptime = c.uptime) : Credited c' := by
  refine ⟨?_, ?_, ?_⟩
  · rw [now, history]
    exact credited.applied
  · rw [now, uptime]
    exact credited.past
  · rw [uptime]
    exact credited.once

theorem credited_history (credited : Credited c) {s : State}
    (applied : ∀ r ∈ s.history, r.appliedAt ≤ c.now) : Credited (c.withHistory s) :=
  ⟨applied, credited.past, credited.once⟩

theorem credited_startUptimeSession (credited : Credited c) {k : Nat} {t : Tracker}
    (next : c.startUptimeSession k t = some c') : Credited c' := by
  unfold Cluster.startUptimeSession at next
  split at next
  · cases next
    exact credited.of_tables rfl rfl rfl
  · obtain ⟨uptime, inserted, rfl⟩ := Option.map_eq_some_iff.mp next
    have none (live : Finset Nat) : Disjoint live (Session.seconds ⟨c.nextId, c.now, 0⟩) := by
      rw [Session.seconds, Nat.add_zero, Finset.Ico_self]
      exact Finset.disjoint_empty_right live
    refine ⟨credited.applied, ?_, ?_⟩
    · intro r member
      rcases (Table.mem_insert inserted).mp member with old | rfl
      · exact credited.past r old
      · exact le_rfl
    · intro r member q member' other
      rcases (Table.mem_insert inserted).mp member with old | rfl
      · rcases (Table.mem_insert inserted).mp member' with old' | rfl
        · exact credited.once r old q old' other
        · exact none _
      · exact (none _).symm

theorem credited_step (credited : Credited c) {a : ClusterStep} (apart : c.Apart a)
    (next : c.step a = some c') : Credited c' := by
  cases a with
  | tick seconds =>
    cases next
    refine ⟨?_, ?_, credited.once⟩
    · exact fun r member => Nat.le_add_right_of_le (credited.applied r member)
    · exact fun r member => Nat.le_add_right_of_le (credited.past r member)
  | construct process =>
    cases next
    exact credited.of_tables rfl rfl rfl
  | startSession k =>
    obtain ⟨t, -, started⟩ := Option.bind_eq_some_iff.mp next
    exact credited_startUptimeSession credited started
  | updateUptime k =>
    obtain ⟨t, known, rfl⟩ := Option.map_eq_some_iff.mp next
    unfold Cluster.updateUptime
    split
    · exact credited
    · rename_i id current
      refine credited_credit credited ?_
      intro r found
      have own : c.sessionOf t = some r := by
        rw [Cluster.sessionOf, current]
        exact found
      obtain ⟨made, free⟩ := apart t known r own
      have past := credited.past r (Table.find_eq_some.mp found).1
      exact ⟨by omega, free⟩
  | record m =>
    cases next
    refine credited_history credited ?_
    intro r member
    have found := Table.find_eq_some.mpr ⟨member, rfl⟩
    unfold State.recordMigrationStart at found
    dsimp only [Cluster.view] at found
    rw [Table.find_upsert] at found
    split at found
    · cases old : c.history.find r.version with
      | none =>
        rw [old] at found
        cases found
        exact le_rfl
      | some q =>
        rw [old] at found
        cases found
        exact credited.applied q (Table.find_eq_some.mp old).1
    · exact credited.applied r (Table.find_eq_some.mp found).1
  | setStatus v status =>
    cases next
    refine credited_history credited ?_
    intro r member
    unfold State.setStatus at member
    dsimp only [Cluster.view] at member
    rw [Table.mem_update] at member
    obtain ⟨q, row, rfl⟩ := member
    have past := credited.applied q row
    split <;> exact past

theorem credited_initial (initial : c.Initial) : Credited c := by
  obtain ⟨none, -, applied⟩ := initial
  have empty : ∀ r, r ∉ c.uptime := by
    intro r member
    rw [none] at member
    cases member
  exact ⟨applied, fun r member => absurd member (empty r), fun r member => absurd member (empty r)⟩

end Steps

section Workers

def initialRow : Row := ⟨"000".toList, [], .completed, 0⟩

def shared : Cluster where
  now := 0
  history := ⟨[initialRow], List.nodup_singleton _⟩
  uptime := .empty
  tokens := .empty
  nextId := 1
  registry := fun _ => none
  trackers := []

theorem shared_initial : shared.Initial := by
  refine ⟨rfl, rfl, ?_⟩
  intro r member
  rw [List.mem_singleton.mp member]
  exact le_rfl

end Workers

end Plexichat.Migrations
