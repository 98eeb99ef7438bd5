import Plexichat.Recording.Manager

/-! The tasks of a recording, where a queued restart finds no other start: there is one start at a
time and one stop, and the sets of RecordingManager say which. -/
namespace Plexichat.Recording
open Transition

variable {ι υ : Type}

abbrev World (ι υ : Type) := Interleaving.State ι (Shared υ) (Phase υ)

structure Initial (s : World ι υ) : Prop where
  manager : s.shared.manager = ⟨false, false, false, false, false, false⟩
  idle : ∀ i, s.pc i = .idle

namespace Phase

def Ahead : Phase υ → Prop
  | .task (.asked _) | .task .allowed | .task .started => True
  | _ => False

def isStart : Phase υ → Bool
  | .task t =>
    match t with
    | .starting | .asking | .asked _ | .allowed | .started | .registered | .duplicate
    | .clearing => true
    | _ => false
  | _ => false

def isStop : Phase υ → Bool
  | .task .stopping | .task .unmarking | .task .popped | .task .stopped => true
  | _ => false

def isLate : Phase υ → Bool
  | .task .registered => true
  | p => p.isStop

def expects : Phase υ → Option Bool
  | .task .registered | .task .stopping => some true
  | p => if p.isStart || p.isStop then some false else none

end Phase

def Unrecorded (s : World ι υ) : Prop := s.shared.manager.active = false ∧ ∀ i, ¬(s.pc i).Ahead

/-- A request to stop is dropped only where no start is ahead. The join of a member who has not
consented is taken for a known one, and a consent is withdrawn beside a member who has not
consented, only where nothing is recorded. A queued restart finds no other start. -/
def Guard (s : World ι υ) (a : ι × Action υ) : Prop :=
  match s.pc a.1 with
  | .requestingStop => s.shared.manager.stopping = true → ∀ i, ¬(s.pc i).Ahead
  | .updated x new consented =>
    new = false → x ∈ s.shared.call.roster → x ∉ consented → Unrecorded s
  | .removed x before => x ∈ s.shared.call.roster → x ∈ before →
      (∃ y ∈ s.shared.call.roster, y ∉ before) → Unrecorded s
  | .task .restart => s.shared.manager.active = false ∧ s.shared.manager.starting = false
  | _ => True

section Tasks

theorem absent {P : Prop} (is : false = true) : P := (Bool.false_ne_true is).elim

variable {m : Manager} {p q : Phase υ}

structure Own (m : Manager) (p : Phase υ) : Prop where
  start : p.isStart = true → m.starting = true
  stop : p.isStop = true → m.stopping = true
  active : ∀ b, p.expects = some b → m.active = b

def Apart (p q : Phase υ) : Prop :=
  ¬(p.isStart = true ∧ q.isStart = true) ∧ ¬(p.isLate = true ∧ q.isLate = true)

theorem Apart.symm (apart : Apart p q) : Apart q p := ⟨mt And.symm apart.1, mt And.symm apart.2⟩

theorem late_of_stop (stop : p.isStop = true) : p.isLate = true := by
  unfold Phase.isLate
  split
  · rfl
  · exact stop

theorem kind_of_late (late : p.isLate = true) : p.isStart = true ∨ p.isStop = true := by
  unfold Phase.isLate at late
  split at late
  · exact .inl rfl
  · exact .inr late

theorem late_of_expects (expects : p.expects = some true) : p.isLate = true := by
  unfold Phase.expects at expects
  split at expects
  · rfl
  · rfl
  · split at expects <;> cases expects

theorem kind_of_expects (expects : p.expects = some false) :
    p.isStart = true ∨ p.isStop = true := by
  unfold Phase.expects at expects
  split at expects
  · cases expects
  · cases expects
  · split at expects
    · rename_i either
      exact Bool.or_eq_true_iff.mp either
    · cases expects

theorem Own.change {n : Manager} (own : Own m p) (start : p.isStart = true → n.starting = m.starting)
    (stop : p.isStop = true → n.stopping = m.stopping)
    (active : p.expects ≠ none → n.active = m.active) : Own n p := by
  refine ⟨fun is => ?_, fun is => ?_, fun b expects => ?_⟩
  · rw [start is, own.start is]
  · rw [stop is, own.stop is]
  · rw [active (expects ▸ Option.some_ne_none b), own.active b expects]

def Keeps (m : Manager) (p : Phase υ) (r : Manager × Phase υ) : Prop :=
  Own r.1 r.2 ∧ ∀ q, Own m q → Apart p q → Own r.1 q ∧ Apart r.2 q

structure Quiet (p : Phase υ) : Prop where
  start : p.isStart = false
  late : p.isLate = false
  active : p.expects = none

theorem Keeps.quiet {n : Manager} (quiet : Quiet q)
    (others : ∀ o : Phase υ, Own m o → Apart p o → Own n o) : Keeps m p (n, q) := by
  refine ⟨⟨fun is => ?_, fun is => ?_, fun b expects => ?_⟩, fun o own apart =>
    ⟨others o own apart, fun both => ?_, fun both => ?_⟩⟩
  · exact absurd is (quiet.start ▸ Bool.false_ne_true)
  · exact absurd (late_of_stop is) (quiet.late ▸ Bool.false_ne_true)
  · exact absurd (quiet.active.symm.trans expects) (Option.some_ne_none b).symm
  · exact absurd both.1 (quiet.start ▸ Bool.false_ne_true)
  · exact absurd both.1 (quiet.late ▸ Bool.false_ne_true)

theorem quiet_ite {P : Prop} [Decidable P] (yes : Quiet p) (no : Quiet q) :
    Quiet (if P then p else q) := by
  split
  · exact yes
  · exact no

theorem Keeps.onward {n : Manager} (own : Own m p) (starting : n.starting = m.starting)
    (stopping : n.stopping = m.stopping) (active : n.active = m.active)
    (start : q.isStart = p.isStart) (stop : q.isStop = p.isStop) (late : q.isLate = p.isLate)
    (expects : q.expects = p.expects) : Keeps m p (n, q) := by
  have same (o : Phase υ) (other : Own m o) : Own n o :=
    other.change (fun _ => starting) (fun _ => stopping) fun _ => active
  refine ⟨?_, fun o other apart => ⟨same o other, ?_⟩⟩
  · have kept := same p own
    exact ⟨start ▸ kept.start, stop ▸ kept.stop, expects ▸ kept.active⟩
  · exact ⟨start ▸ apart.1, late ▸ apart.2⟩

theorem keeps_start (unrecorded : m.active = false) (free : m.starting = false) :
    Keeps m p ({ m with starting := true }, .task .starting) := by
  have idle (q : Phase υ) (other : Own m q) : q.isStart ≠ true := fun is =>
    absurd (other.start is) (free ▸ Bool.false_ne_true)
  refine ⟨⟨fun _ => rfl, absent, fun b expects => ?_⟩, fun q other _ => ⟨?_, ?_⟩⟩
  · cases expects
    exact unrecorded
  · exact other.change (fun is => absurd is (idle q other)) (fun _ => rfl) fun _ => rfl
  · exact ⟨fun both => idle q other both.2, fun both => Bool.false_ne_true both.1⟩

theorem startCallRecording_keeps {force : Bool} :
    Keeps m p (m.startCallRecording force) := by
  unfold Manager.startCallRecording
  split
  · exact .quiet ⟨rfl, rfl, rfl⟩ fun q other _ =>
      other.change (fun _ => rfl) (fun _ => rfl) fun _ => rfl
  · split
    · exact .quiet ⟨rfl, rfl, rfl⟩ fun q other _ => other
    · rename_i free
      obtain ⟨unrecorded, unstarted⟩ := Bool.or_eq_false_iff.mp (Bool.not_eq_true _ ▸ free)
      exact keeps_start unrecorded unstarted

theorem stopCallRecording_keeps : Keeps m p m.stopCallRecording := by
  unfold Manager.stopCallRecording
  split
  · exact .quiet ⟨rfl, rfl, rfl⟩ fun q other _ => other
  · rename_i unstopped
    split
    · exact .quiet ⟨rfl, rfl, rfl⟩ fun q other _ =>
        other.change (fun _ => rfl) (fun _ => rfl) fun _ => rfl
    · rename_i unstarted
      split
      · rename_i active
        have idle (q : Phase υ) (other : Own m q) : q.isStop ≠ true := fun is =>
          unstopped (other.stop is)
        refine ⟨⟨absent, fun _ => rfl, fun b expects => ?_⟩, fun q other _ => ⟨?_, ?_⟩⟩
        · cases expects
          exact active
        · exact other.change (fun _ => rfl) (fun is => absurd is (idle q other)) fun _ => rfl
        · refine ⟨fun both => Bool.false_ne_true both.1, fun both => ?_⟩
          rcases kind_of_late both.2 with start | stop
          · exact unstarted (other.start start)
          · exact idle q other stop
      · exact .quiet ⟨rfl, rfl, rfl⟩ fun q other _ => other

variable [DecidableEq υ] {c : Call υ} {t : Task υ}

theorem run_keeps (own : Own m (.task t))
    (alone : t = .restart → m.active = false ∧ m.starting = false) :
    Keeps m (.task t) (m.run c t) := by
  cases t with
  | starting =>
    have none : m.active = false := own.active _ rfl
    simp only [Manager.run, none]
    exact .onward own rfl rfl rfl rfl rfl rfl rfl
  | asking => exact .onward own rfl rfl rfl rfl rfl rfl rfl
  | asked consented =>
    simp only [Manager.run]
    split <;> exact .onward own rfl rfl rfl rfl rfl rfl rfl
  | allowed => exact .onward own rfl rfl rfl rfl rfl rfl rfl
  | started =>
    simp only [Manager.run]
    split
    · exact .onward own rfl rfl rfl rfl rfl rfl rfl
    · rename_i free
      obtain ⟨-, unstopped⟩ := Bool.or_eq_false_iff.mp (Bool.not_eq_true _ ▸ free)
      -- Nobody else expects the recording not to be registered: that is a start or a stop.
      have idle (q : Phase υ) (other : Own m q) : q.isStop = false :=
        Bool.eq_false_iff.mpr fun is => absurd (other.stop is) (unstopped ▸ Bool.false_ne_true)
      refine ⟨⟨fun _ => own.start rfl, absent, fun b expects => ?_⟩, fun q other apart => ⟨?_, ?_⟩⟩
      · cases expects
        rfl
      · refine ⟨other.start, other.stop, fun b expects => ?_⟩
        cases b with
        | true => rfl
        | false =>
          rcases kind_of_expects expects with start | stop
          · exact absurd ⟨rfl, start⟩ apart.1
          · exact absurd stop (idle q other ▸ Bool.false_ne_true)
      · refine ⟨apart.1, fun both => ?_⟩
        rcases kind_of_late both.2 with start | stop
        · exact apart.1 ⟨rfl, start⟩
        · exact absurd stop (idle q other ▸ Bool.false_ne_true)
  | registered =>
    have others (n : Manager) (q : Phase υ) (other : Own m q)
        (apart : Apart (.task .registered) q) (active : n.active = m.active) : Own n q :=
      other.change (fun is => absurd ⟨rfl, is⟩ apart.1)
        (fun is => absurd ⟨rfl, late_of_stop is⟩ apart.2) fun _ => active
    have active : m.active = true := own.active _ rfl
    simp only [Manager.run]
    split
    · refine ⟨⟨absent, fun _ => rfl, fun b expects => ?_⟩, fun q other apart =>
        ⟨others _ q other apart rfl, fun both => Bool.false_ne_true both.1, apart.2⟩⟩
      cases expects
      exact active
    · exact .quiet ⟨rfl, rfl, rfl⟩ fun q other apart => others _ q other apart rfl
  | duplicate => exact .onward own rfl rfl rfl rfl rfl rfl rfl
  | clearing =>
    refine .quiet ⟨rfl, rfl, rfl⟩ fun q other apart => ?_
    exact other.change (fun is => absurd ⟨rfl, is⟩ apart.1) (fun _ => rfl) fun _ => rfl
  | stopping =>
    have active : m.active = true := own.active _ rfl
    simp only [Manager.run, active]
    refine ⟨⟨absent, fun _ => own.stop rfl, fun b expects => ?_⟩, fun q other apart => ⟨?_, ?_⟩⟩
    · cases expects
      rfl
    · refine ⟨other.start, other.stop, fun b expects => ?_⟩
      cases b with
      | true => exact absurd ⟨rfl, late_of_expects expects⟩ apart.2
      | false => rfl
    · exact ⟨fun both => Bool.false_ne_true both.1, apart.2⟩
  | unmarking =>
    refine .quiet ⟨rfl, rfl, rfl⟩ fun q other apart => ?_
    exact other.change (fun _ => rfl) (fun is => absurd ⟨rfl, late_of_stop is⟩ apart.2) fun _ => rfl
  | popped => exact .onward own rfl rfl rfl rfl rfl rfl rfl
  | stopped =>
    have others (q : Phase υ) (other : Own m q) (apart : Apart (.task .stopped) q) :
        Own { m with stopping := false } q :=
      other.change (fun _ => rfl) (fun is => absurd ⟨rfl, late_of_stop is⟩ apart.2) fun _ => rfl
    simp only [Manager.run]
    split <;> exact .quiet ⟨rfl, rfl, rfl⟩ others
  | restarting => exact .onward own rfl rfl rfl rfl rfl rfl rfl
  | restart => exact keeps_start (alone rfl).1 (alone rfl).2

end Tasks

section Runs

variable [DecidableEq ι] [DecidableEq υ] {m : Manager} {s : Shared υ} {p : Phase υ}
  {r : Shared υ × Phase υ} {w : World ι υ}

omit [DecidableEq ι] in
theorem moved_keeps (own : Own s.manager p)
    (alone : p = .task .restart → s.manager.active = false ∧ s.manager.starting = false)
    (moved : Moved s p r) : Keeps s.manager p (r.1.manager, r.2) := by
  have quiet {q : Phase υ} (quiet : Quiet q) : Keeps s.manager p (s.manager, q) :=
    .quiet quiet fun _ other _ => other
  cases moved with
  | join | leave | consent | revoke | known | left | adding | removing => exact quiet ⟨rfl, rfl, rfl⟩
  | joined x =>
    unfold Call.addParticipant
    split <;> exact quiet ⟨rfl, rfl, rfl⟩
  | updated | consenting | revoking | added | removed =>
    exact quiet (quiet_ite ⟨rfl, rfl, rfl⟩ ⟨rfl, rfl, rfl⟩)
  | start _ _ _ _ begins =>
    subst begins
    exact startCallRecording_keeps
  | stop _ _ _ ends =>
    subst ends
    exact stopCallRecording_keeps
  | task t => exact run_keeps own fun restart => alone (congrArg Phase.task restart)
  | fail => exact .onward own rfl rfl rfl rfl rfl rfl rfl

abbrev Kept (w : World ι υ) : Prop :=
  Interleaving.Holds (fun _ => True) (fun s p => Own s.manager p) Apart w

theorem kept_throughout (run : Guarded (Interleaving.step next) Guard Initial w) : Kept w := by
  refine Interleaving.holds_throughout ?_ ?_ run
  · intro w initial
    refine ⟨trivial, fun i => ?_, fun i j _ => ?_⟩
    · rw [initial.idle i]
      exact ⟨absent, absent, fun b is => absurd is (Option.some_ne_none b).symm⟩
    · rw [initial.idle i, initial.idle j]
      exact ⟨fun both => absent both.1, fun both => absent both.1⟩
  · intro w i a r holds guard step
    have alone (restart : w.pc i = .task .restart) :
        w.shared.manager.active = false ∧ w.shared.manager.starting = false := by
      simpa only [Guard, restart] using guard
    obtain ⟨own, others⟩ := moved_keeps (holds.each i) alone (moved_of_next step)
    refine ⟨trivial, own, fun j other => ?_⟩
    obtain ⟨kept, apart⟩ := others (w.pc j) (holds.each j) (holds.pair i j other.symm)
    exact ⟨kept, apart, apart.symm⟩

end Runs

end Plexichat.Recording
