import Mathlib.Tactic.FinCases
import Plexichat.Recording.Tasks

/-! Nobody is recorded without consent: each member who has not consented is one whose join or
withdrawal is still to ask for a stop, or a stop is on its way, unless nothing is being recorded. -/
namespace Plexichat.Recording
open Transition

variable {ι υ : Type}

namespace Phase

/-- A start with the consent of `x`, or one that does not look at the consents again. -/
def Records (x : υ) : Phase υ → Prop
  | .task (.asked consented) => x ∈ consented
  | .task .allowed | .task .started => True
  | _ => False

/-- A call that is to ask for a stop because of `x`. -/
def Covers (x : υ) : Phase υ → Prop
  | .joined y | .known y _ => y = x
  | .updated y _ consented => y = x ∧ x ∉ consented
  | .removed y before => y = x ∧ x ∈ before
  | .requestingStop => True
  | _ => False

def isStopping : Phase υ → Bool
  | .task .stopping => true
  | _ => false

/-- A task that is to register what the SFU records, or to stop it. -/
def Unsettled : Phase υ → Prop
  | .task .started | .task .duplicate | .task .popped => True
  | _ => False

theorem Records.ahead {x : υ} {p : Phase υ} (records : p.Records x) : p.Ahead := by
  cases p with
  | task t =>
    cases t with
    | asked | allowed | started => trivial
    | _ => exact records.elim
  | _ => exact records.elim

theorem Ahead.start {p : Phase υ} (ahead : p.Ahead) : p.isStart = true ∧ p.expects = some false := by
  cases p with
  | task t =>
    cases t with
    | asked | allowed | started => exact ⟨rfl, rfl⟩
    | _ => exact ahead.elim
  | _ => exact ahead.elim

end Phase

variable {w : World ι υ}

/-- `x` is recorded, or may be soon. -/
def Hot (w : World ι υ) (x : υ) : Prop :=
  w.shared.manager.active = true ∨ ∃ i, (w.pc i).Records x

def Assured (w : World ι υ) : Prop :=
  w.shared.manager.pendingStop = true ∨ ∃ i, w.pc i = .task .stopping

def Watched (w : World ι υ) : Prop :=
  ∀ x ∈ w.shared.call.roster, x ∉ w.shared.call.consented → Hot w x →
    Assured w ∨ ∃ i, (w.pc i).Covers x

structure Found (w : World ι υ) : Prop where
  starting : w.shared.manager.starting = true → ∃ i, (w.pc i).isStart = true
  pending : w.shared.manager.pendingStop = true → ∃ i, (w.pc i).isStart = true
  stopping : w.shared.manager.stopping = true → ∃ i, (w.pc i).isStop = true

def Registered (w : World ι υ) : Prop :=
  w.shared.manager.recording = true →
    w.shared.manager.active = true ∨ ∃ i, (w.pc i).Unsettled

section Flags

theorem startCallRecording_same (m : Manager) (force : Bool) (r : Manager × Phase υ)
    (begins : m.startCallRecording force = r) : r.1.recording = m.recording ∧
      r.1.active = m.active ∧ r.1.pendingStop = m.pendingStop ∧
      (r.2 = .idle ∨ r.2 = .task .starting) := by
  subst begins
  unfold Manager.startCallRecording
  split
  · exact ⟨rfl, rfl, rfl, .inl rfl⟩
  · split
    · exact ⟨rfl, rfl, rfl, .inl rfl⟩
    · exact ⟨rfl, rfl, rfl, .inr rfl⟩

theorem stopCallRecording_same (m : Manager) (r : Manager × Phase υ)
    (ends : m.stopCallRecording = r) : r.1.recording = m.recording ∧ r.1.active = m.active := by
  subst ends
  unfold Manager.stopCallRecording
  split
  · exact ⟨rfl, rfl⟩
  · split
    · exact ⟨rfl, rfl⟩
    · split <;> exact ⟨rfl, rfl⟩

variable [DecidableEq υ] {s : Shared υ} {p : Phase υ} {r : Shared υ × Phase υ}

structure Flags (m : Manager) (p : Phase υ) (n : Manager) (q : Phase υ) : Prop where
  start : p.isStart = true → q.isStart = true ∨ (n.starting = false ∧ n.pendingStop = false)
  starting : n.starting = true → m.starting = true ∨ q.isStart = true
  pending : n.pendingStop = true → m.pendingStop = true ∨ m.starting = true
  stop : p.isStop = true → q.isStop = true ∨ n.stopping = false
  stopping : n.stopping = true → m.stopping = true ∨ q.isStop = true

theorem moved_flags (own : Own s.manager p) (moved : Moved s p r) :
    Flags s.manager p r.1.manager r.2 := by
  cases moved with
  | start _ asks force r begins =>
    subst begins
    have none : ¬p.isStart = true ∧ ¬p.isStop = true := by
      rcases asks with rfl | ⟨_, rfl⟩ <;> exact ⟨absent, absent⟩
    unfold Manager.startCallRecording
    refine ⟨fun is => absurd is none.1, ?_, ?_, fun is => absurd is none.2, ?_⟩ <;> split <;>
      (try split) <;> first | exact .inl | exact fun _ => .inr rfl
  | stop _ asks r ends =>
    subst ends
    have none : ¬p.isStart = true ∧ ¬p.isStop = true := by
      rcases asks with rfl | rfl <;> exact ⟨absent, absent⟩
    unfold Manager.stopCallRecording
    refine ⟨fun is => absurd is none.1, ?_, ?_, fun is => absurd is none.2, ?_⟩ <;> split <;>
      (try split) <;> (try split) <;> first | exact .inl | exact fun _ => .inr rfl | skip
    · rename_i starting
      exact fun _ => .inr starting
  | task t =>
    cases t with
    | starting =>
      have inactive : s.manager.active = false := own.active _ rfl
      simp only [Manager.run, inactive]
      exact ⟨fun _ => .inl rfl, .inl, .inl, absent, .inl⟩
    | asked | started =>
      simp only [Manager.run]
      split <;> exact ⟨fun _ => .inl rfl, .inl, .inl, absent, .inl⟩
    | registered =>
      simp only [Manager.run]
      split
      · exact ⟨fun _ => .inr ⟨rfl, rfl⟩, absent, absent, absent, fun _ => .inr rfl⟩
      · rename_i unasked
        exact ⟨fun _ => .inr ⟨rfl, Bool.not_eq_true _ ▸ unasked⟩, absent, .inl, absent, .inl⟩
    | clearing => exact ⟨fun _ => .inr ⟨rfl, rfl⟩, absent, absent, absent, .inl⟩
    | stopping =>
      simp only [Manager.run]
      split <;> exact ⟨absent, .inl, .inl, fun _ => .inl rfl, .inl⟩
    | unmarking | stopped => exact ⟨absent, .inl, .inl, fun _ => .inr rfl, absent⟩
    | restart => exact ⟨absent, fun _ => .inr rfl, .inl, absent, .inl⟩
    | popped => exact ⟨absent, .inl, .inl, fun _ => .inl rfl, .inl⟩
    | restarting => exact ⟨absent, .inl, .inl, absent, .inl⟩
    | _ => exact ⟨fun _ => .inl rfl, .inl, .inl, absent, .inl⟩
  | fail => exact ⟨fun _ => .inl rfl, .inl, .inl, absent, .inl⟩
  | _ => exact ⟨absent, .inl, .inl, absent, .inl⟩

theorem moved_unsettled (moved : Moved s p r) (recording : r.1.manager.recording = true) :
    (r.1.manager.active = true ∨ r.2.Unsettled) ∨ s.manager.recording = true ∧
      (s.manager.active = true → r.1.manager.active = true) ∧ ¬p.Unsettled := by
  cases moved with
  | start _ asks force r begins =>
    obtain ⟨same, active, -, -⟩ := startCallRecording_same _ _ _ begins
    refine .inr ⟨same ▸ recording, fun on => active.trans on, ?_⟩
    rcases asks with rfl | ⟨_, rfl⟩ <;> exact id
  | stop _ asks r ends =>
    obtain ⟨same, active⟩ := stopCallRecording_same _ _ ends
    refine .inr ⟨same ▸ recording, fun on => active.trans on, ?_⟩
    rcases asks with rfl | rfl <;> exact id
  | task t =>
    cases t with
    | started =>
      simp only [Manager.run]
      split
      · exact .inl (.inr trivial)
      · exact .inl (.inl rfl)
    | allowed => exact .inl (.inr trivial)
    | duplicate | popped => cases recording
    | stopping =>
      simp only [Manager.run] at recording ⊢
      split at recording
      · rename_i active
        rw [if_pos active]
        exact .inl (.inr trivial)
      · rename_i inactive
        rw [if_neg inactive]
        exact .inr ⟨recording, id, id⟩
    | starting | asked | registered =>
      simp only [Manager.run] at recording ⊢
      split at recording <;> split <;> exact .inr ⟨recording, id, id⟩
    | _ => exact .inr ⟨recording, id, id⟩
  | _ => exact .inr ⟨recording, id, id⟩

end Flags

section Runs

variable [DecidableEq ι] {i : ι} {r : Shared υ × Phase υ}

theorem Found.step (found : Found w) (flags : Flags w.shared.manager (w.pc i) r.1.manager r.2) :
    Found (w.after i r) := by
  have start (kept : ∃ j, (w.pc j).isStart = true)
      (on : r.1.manager.starting = true ∨ r.1.manager.pendingStop = true) :
      ∃ j, ((w.after i r).pc j).isStart = true := by
    refine Interleaving.exists_after (K := fun p : Phase υ => p.isStart = true) kept fun is => ?_
    rcases flags.start is with still | ⟨unstarted, unasked⟩
    · exact still
    · rcases on with starting | pending
      · exact absurd starting (unstarted ▸ Bool.false_ne_true)
      · exact absurd pending (unasked ▸ Bool.false_ne_true)
  refine ⟨fun on => ?_, fun on => ?_, fun on => ?_⟩
  · rcases flags.starting on with before | new
    · exact start (found.starting before) (.inl on)
    · exact ⟨i, (Interleaving.after_self w i r).symm ▸ new⟩
  · rcases flags.pending on with before | starting
    · exact start (found.pending before) (.inr on)
    · exact start (found.starting starting) (.inr on)
  · rcases flags.stopping on with before | new
    · refine Interleaving.exists_after (K := fun p : Phase υ => p.isStop = true) (found.stopping before) ?_
      intro is
      rcases flags.stop is with still | unmarked
      · exact still
      · exact absurd on (unmarked ▸ Bool.false_ne_true)
    · exact ⟨i, (Interleaving.after_self w i r).symm ▸ new⟩

variable [DecidableEq υ]

theorem Registered.step (registered : Registered w) (moved : Moved w.shared (w.pc i) r) :
    Registered (w.after i r) := by
  intro recording
  rcases moved_unsettled moved recording with (active | new) | ⟨before, active, settled⟩
  · exact .inl active
  · exact .inr ⟨i, (Interleaving.after_self w i r).symm ▸ new⟩
  · rcases registered before with old | there
    · exact .inl (active old)
    · exact .inr (Interleaving.exists_after there fun is => absurd is settled)

/-- The step leaves what is watched of `x`. -/
structure Passes (w : World ι υ) (i : ι) (r : Shared υ × Phase υ) (x : υ) : Prop where
  member : x ∈ w.shared.call.roster
  unconsented : x ∉ w.shared.call.consented
  active : r.1.manager.active = true → Hot w x
  records : r.2.Records x → Hot w x
  pending : w.shared.manager.pendingStop = true → r.1.manager.pendingStop = true
  unstopped : (w.pc i).isStopping = false
  uncovered : ¬(w.pc i).Covers x

omit [DecidableEq υ] in
theorem Watched.after (watched : Watched w)
    (each : ∀ x ∈ r.1.call.roster, x ∉ r.1.call.consented → Hot (w.after i r) x →
      r.2.Covers x ∨ Assured (w.after i r) ∨ Passes w i r x) : Watched (w.after i r) := by
  intro x member unconsented hot
  rcases each x member unconsented hot with covers | assured | passes
  · exact .inr ⟨i, (Interleaving.after_self w i r).symm ▸ covers⟩
  · exact .inl assured
  · have before : Hot w x := by
      rcases hot with active | records
      · exact passes.active active
      · rcases Interleaving.exists_before (K := Phase.Records x) records with own | other
        · exact passes.records own
        · exact .inr other
    rcases watched x passes.member passes.unconsented before with (pending | stopping) | covered
    · exact .inl (.inl (passes.pending pending))
    · refine .inl (.inr (Interleaving.exists_after (K := fun p => p = Phase.task .stopping) stopping
        fun is => ?_))
      have unstopped := passes.unstopped
      rw [is] at unstopped
      cases unstopped
    · exact .inr (Interleaving.exists_after (K := Phase.Covers x) covered
        fun is => absurd is passes.uncovered)

omit [DecidableEq υ] in
theorem cold_after {x : υ} (inactive : r.1.manager.active = false) (own : ¬r.2.Records x)
    (others : ∀ j, j ≠ i → ¬(w.pc j).Ahead) : ¬Hot (w.after i r) x := by
  rintro (active | ⟨j, records⟩)
  · exact Bool.false_ne_true (inactive.symm.trans active)
  · by_cases same : j = i
    · rw [same, Interleaving.after_self] at records
      exact own records
    · rw [Interleaving.after_other w same] at records
      exact others j same records.ahead

variable {x : υ} {p : Phase υ}

omit [DecidableEq ι] [DecidableEq υ] in
theorem passes_of (here : w.pc i = p) (member : x ∈ w.shared.call.roster)
    (unconsented : x ∉ w.shared.call.consented) (active : r.1.manager.active = w.shared.manager.active)
    (pending : w.shared.manager.pendingStop = true → r.1.manager.pendingStop = true)
    (records : r.2.Records x → p.Records x) (unstopped : p.isStopping = false)
    (uncovered : ¬p.Covers x) : Passes w i r x := by
  subst here
  exact ⟨member, unconsented, fun on => .inl (active.symm.trans on),
    fun is => .inr ⟨i, records is⟩, pending, unstopped, uncovered⟩

omit [DecidableEq ι] [DecidableEq υ] in
theorem stopping_of_active {m : Manager} (own : Own m p) (stop : p.isStop = true)
    (active : m.active = true) : p = .task .stopping := by
  cases p with
  | task t =>
    cases t with
    | stopping => rfl
    | unmarking | popped | stopped =>
      exact absurd (own.active _ rfl) (active ▸ Bool.false_ne_true.symm)
    | _ => cases stop
  | _ => cases stop

omit [DecidableEq υ] in
theorem stop_watched (kept : Kept w) (found : Found w)
    (asks : p = .idle ∨ p = .requestingStop) (here : w.pc i = p)
    (ahead : p = .requestingStop → w.shared.manager.stopping = true → ∀ j, ¬(w.pc j).Ahead)
    (m : Manager × Phase υ) (ends : w.shared.manager.stopCallRecording = m)
    (member : x ∈ w.shared.call.roster) (unconsented : x ∉ w.shared.call.consented)
    (hot : Hot (w.after i (⟨w.shared.call, m.1⟩, m.2)) x) :
    Assured (w.after i (⟨w.shared.call, m.1⟩, m.2)) ∨ Passes w i (⟨w.shared.call, m.1⟩, m.2) x := by
  unfold Manager.stopCallRecording at ends
  split at ends
  · rename_i stopping
    subst ends
    rcases asks with rfl | rfl
    · exact .inr (passes_of here member unconsented rfl id id rfl id)
    · -- The stop under way is the one that takes the recording out of _active.
      left
      by_cases active : w.shared.manager.active = true
      · obtain ⟨j, stop⟩ := found.stopping stopping
        have there : w.pc j = .task .stopping := stopping_of_active (kept.each j) stop active
        have other : j ≠ i := by
          rintro rfl
          cases here.symm.trans there
        exact .inr ⟨j, (Interleaving.after_other w other _).trans there⟩
      · exact absurd hot (cold_after (Bool.not_eq_true _ ▸ active) id fun j _ =>
          ahead rfl stopping j)
  · split at ends
    · subst ends
      exact .inl (.inl rfl)
    · rename_i unstarted
      split at ends
      · subst ends
        exact .inl (.inr ⟨i, Interleaving.after_self w i _⟩)
      · rename_i inactive
        subst ends
        refine absurd hot (cold_after (Bool.not_eq_true _ ▸ inactive) id fun j _ is => ?_)
        exact unstarted ((kept.each j).start is.start.1)

theorem task_watched (kept : Kept w) {t : Task υ} (here : w.pc i = .task t)
    (member : x ∈ w.shared.call.roster) (unconsented : x ∉ w.shared.call.consented)
    (hot : Hot (w.after i (⟨w.shared.call, (w.shared.manager.run w.shared.call t).1⟩,
      (w.shared.manager.run w.shared.call t).2)) x) :
    Assured (w.after i (⟨w.shared.call, (w.shared.manager.run w.shared.call t).1⟩,
      (w.shared.manager.run w.shared.call t).2)) ∨
    Passes w i (⟨w.shared.call, (w.shared.manager.run w.shared.call t).1⟩,
      (w.shared.manager.run w.shared.call t).2) x := by
  have own : Own w.shared.manager (.task t) := here ▸ kept.each i
  have alone (start : (Phase.task t).isStart = true) (j : ι) (other : j ≠ i) : ¬(w.pc j).Ahead := by
    intro is
    exact (kept.pair i j other.symm).1 ⟨here ▸ start, is.start.1⟩
  cases t with
  | starting =>
    right
    simp only [Manager.run]
    split <;> exact passes_of here member unconsented rfl id False.elim rfl id
  | asking =>
    exact .inr (passes_of here member unconsented rfl id (fun is => unconsented is) rfl id)
  | asked consented =>
    right
    simp only [Manager.run]
    split
    · exact passes_of here member unconsented rfl id False.elim rfl id
    · rename_i all
      refine passes_of here member unconsented rfl id (fun _ => ?_) rfl id
      have complete := (Bool.or_eq_false_iff.mp (Bool.not_eq_true _ ▸ all)).2
      simp only [Bool.not_eq_eq_eq_not, Bool.not_false, List.all_eq_true, decide_eq_true_eq]
        at complete
      exact complete x member
  | allowed => exact .inr (passes_of here member unconsented rfl id id rfl id)
  | started =>
    right
    simp only [Manager.run]
    split
    · exact passes_of here member unconsented rfl id False.elim rfl id
    · exact ⟨member, unconsented, fun _ => .inr ⟨i, here ▸ trivial⟩, False.elim, id, here ▸ rfl,
        here ▸ id⟩
  | registered =>
    simp only [Manager.run]
    split
    · exact .inl (.inr ⟨i, Interleaving.after_self w i _⟩)
    · exact .inr (passes_of here member unconsented rfl id False.elim rfl id)
  | duplicate => exact .inr (passes_of here member unconsented rfl id False.elim rfl id)
  | clearing => exact absurd hot (cold_after (own.active _ rfl) id (alone rfl))
  | stopping =>
    have active : w.shared.manager.active = true := own.active _ rfl
    simp only [Manager.run, active] at hot ⊢
    refine absurd hot (cold_after rfl id fun j _ is => ?_)
    exact Bool.false_ne_true (((kept.each j).active _ is.start.2).symm.trans active)
  | unmarking => exact .inr (passes_of here member unconsented rfl id False.elim rfl id)
  | popped => exact .inr (passes_of here member unconsented rfl id False.elim rfl id)
  | stopped =>
    right
    simp only [Manager.run]
    split <;> exact passes_of here member unconsented rfl id False.elim rfl id
  | restarting => exact .inr (passes_of here member unconsented rfl id False.elim rfl id)
  | restart => exact .inr (passes_of here member unconsented rfl id False.elim rfl id)

omit [DecidableEq ι] in
theorem not_all_of_mem {roster consented : List υ} (member : x ∈ roster) (lacks : x ∉ consented) :
    (!roster.all (· ∈ consented)) = true := by
  rw [Bool.not_eq_true', List.all_eq_false]
  exact ⟨x, member, fun has => lacks (of_decide_eq_true has)⟩

theorem Watched.step {a : Action υ} (kept : Kept w) (found : Found w) (watched : Watched w)
    (guard : Guard w (i, a)) (step : next w.shared (w.pc i) a = some r) :
    Watched (w.after i r) := by
  refine watched.after fun x member unconsented hot => ?_
  have moved := moved_of_next step
  unfold Guard at guard
  generalize here : w.pc i = p at moved guard
  -- A call of VoiceCallManager leaves the tasks as they are.
  have call {q : Phase υ} {c : Call υ} (before : x ∈ w.shared.call.roster)
      (lacks : x ∉ w.shared.call.consented) (records : ¬q.Records x) (covers : ¬p.Covers x)
      (unstopped : p.isStopping = false) : Passes w i (⟨c, w.shared.manager⟩, q) x :=
    passes_of here before lacks rfl id (fun is => absurd is records) unstopped covers
  cases moved with
  | join y =>
    rcases List.mem_insert_iff.mp member with rfl | before
    · exact .inl rfl
    · exact .inr (.inr (call before unconsented id id rfl))
  | leave y => exact .inr (.inr (call (List.mem_filter.mp member).1 unconsented id id rfl))
  | consent | revoke => exact .inr (.inr (call member unconsented id id rfl))
  | joined y =>
    by_cases inside : y ∈ w.shared.call.roster
    · simp only [Call.addParticipant, if_pos inside] at member unconsented ⊢
      by_cases same : y = x
      · exact .inl same
      · exact .inr (.inr (call member unconsented id same rfl))
    · simp only [Call.addParticipant, if_neg inside] at member unconsented ⊢
      exact .inr (.inr (call member unconsented id (fun same => inside (same ▸ member)) rfl))
  | known y new =>
    by_cases same : y = x
    · exact .inl ⟨same, unconsented⟩
    · exact .inr (.inr (call member unconsented id same rfl))
  | updated y new consented =>
    by_cases asks : (new && !w.shared.call.roster.all (· ∈ consented)) = true
    · simp only [if_pos asks]
      exact .inl trivial
    · simp only [if_neg asks] at hot ⊢
      by_cases mine : y = x ∧ x ∉ consented
      · obtain ⟨rfl, lacks⟩ := mine
        have known : new = false := by
          by_contra fresh
          refine asks (Bool.and_eq_true_iff.mpr ⟨Bool.not_eq_false _ ▸ fresh, ?_⟩)
          exact not_all_of_mem member lacks
        have cold := guard known member lacks
        exact absurd hot (cold_after cold.1 id fun j _ => cold.2 j)
      · exact .inr (.inr (call member unconsented id mine rfl))
  | left => exact .inr (.inr (call member unconsented id id rfl))
  | consenting | revoking =>
    refine .inr (.inr (call member unconsented ?_ id rfl))
    split <;> exact id
  | adding y consented more =>
    exact .inr (.inr (call member (fun is => unconsented (more is)) id id rfl))
  | added y before =>
    refine .inr (.inr (call member unconsented ?_ id rfl))
    unfold Call.consentAdded
    dsimp only
    split <;> split <;> exact id
  | removing y =>
    by_cases had : x ∈ w.shared.call.consented
    · have same : y = x := by
        by_contra apart
        exact unconsented (List.mem_filter.mpr ⟨had, decide_eq_true (Ne.symm apart)⟩)
      exact .inl ⟨same, had⟩
    · exact .inr (.inr (call member had id id rfl))
  | removed y before =>
    by_cases asks : (w.shared.call.roster.all (· ∈ before) &&
        !w.shared.call.roster.all (· ∈ before.filter (· ≠ y))) = true
    · simp only [Call.consentRemoved, if_pos asks]
      exact .inl trivial
    · simp only [Call.consentRemoved, if_neg asks] at hot ⊢
      by_cases mine : y = x ∧ x ∈ before
      · obtain ⟨rfl, had⟩ := mine
        have incomplete : ∃ z ∈ w.shared.call.roster, z ∉ before := by
          by_contra all
          refine asks (Bool.and_eq_true_iff.mpr ⟨?_, not_all_of_mem member ?_⟩)
          · exact List.all_eq_true.mpr fun z here => decide_eq_true <| by
              by_contra lacks
              exact all ⟨z, here, lacks⟩
          · exact fun kept => of_decide_eq_true (List.mem_filter.mp kept).2 rfl
        have cold := guard member had incomplete
        exact absurd hot (cold_after cold.1 id fun j _ => cold.2 j)
      · exact .inr (.inr (call member unconsented id mine rfl))
  | start _ asks force m begins =>
    obtain ⟨-, active, pending, phase⟩ := startCallRecording_same _ _ _ begins
    refine .inr (.inr (passes_of here member unconsented active (fun on => pending.trans on) ?_ ?_
      ?_))
    · rcases phase with idle | starting
      · rw [idle]
        exact False.elim
      · rw [starting]
        exact False.elim
    · rcases asks with rfl | ⟨_, rfl⟩ <;> rfl
    · rcases asks with rfl | ⟨_, rfl⟩ <;> exact id
  | stop _ asks m ends =>
    refine .inr (stop_watched kept found asks here ?_ m ends member unconsented hot)
    rintro rfl
    exact guard
  | task t => exact .inr (task_watched kept here member unconsented hot)
  | fail => exact .inr (.inr (passes_of here member unconsented rfl id False.elim rfl id))

theorem registered_throughout (run : Reachable (Interleaving.step next) Initial w) :
    Registered w := by
  refine guarded_invariant ?_ ?_ run
  · intro w initial recording
    rw [initial.manager] at recording
    cases recording
  · intro w a t registered _ moved
    obtain ⟨r, step, rfl⟩ := Interleaving.step_eq_some.mp moved
    exact registered.step (moved_of_next step)

theorem watched_throughout (run : Guarded (Interleaving.step next) Guard Initial w) :
    Found w ∧ Watched w := by
  induction run with
  | start initial =>
    have flags := initial.manager
    refine ⟨⟨fun on => ?_, fun on => ?_, fun on => ?_⟩, fun x _ _ hot => ?_⟩
    · rw [flags] at on
      cases on
    · rw [flags] at on
      cases on
    · rw [flags] at on
      cases on
    · rcases hot with active | ⟨i, records⟩
      · rw [flags] at active
        cases active
      · rw [initial.idle i] at records
        exact records.elim
  | step before guard moved ih =>
    have kept := kept_throughout before
    obtain ⟨r, step, rfl⟩ := Interleaving.step_eq_some.mp moved
    exact ⟨ih.1.step (moved_flags (kept.each _) (moved_of_next step)),
      ih.2.step kept ih.1 guard step⟩

/-- Where nothing is in progress, what the SFU records is in _active, and every member has
consented. -/
theorem recording_consent (run : Guarded (Interleaving.step next) Guard Initial w)
    (quiet : ∀ i, w.pc i = .idle) (recording : w.shared.manager.recording = true) :
    (∀ x ∈ w.shared.call.roster, x ∈ w.shared.call.consented) ∧
      w.shared.manager.active = true := by
  have active : w.shared.manager.active = true := by
    have reached : Reachable (Interleaving.step next) Initial w :=
      guarded_mono (fun _ _ _ => trivial) run
    rcases registered_throughout reached recording with active | ⟨i, unsettled⟩
    · exact active
    · rw [quiet i] at unsettled
      exact unsettled.elim
  refine ⟨fun x member => ?_, active⟩
  obtain ⟨found, watched⟩ := watched_throughout run
  by_contra unconsented
  rcases watched x member unconsented (.inl active) with (pending | ⟨i, stopping⟩) | ⟨i, covers⟩
  · obtain ⟨i, start⟩ := found.pending pending
    rw [quiet i] at start
    cases start
  · cases (quiet i).symm.trans stopping
  · rw [quiet i] at covers
    exact covers.elim

end Runs

section Races

abbrev Calls := World (Fin 4) Nat

def channel (roster consented : List Nat) : Calls :=
  ⟨⟨⟨roster, consented, none⟩, ⟨false, false, false, false, false, false⟩⟩, fun _ => .idle⟩

def advances (i : Fin 4) (n : Nat) : List (Fin 4 × Action Nat) := List.replicate n (i, .advance)

def record : List (Fin 4 × Action Nat) := (0, .startCallRecording false) :: advances 0 6

def withdrawnTwice : List (Fin 4 × Action Nat) :=
  record ++ (1, .removeConsent 1) :: advances 1 5 ++ (2, .addConsent 1) :: advances 2 7 ++
    (3, .removeConsent 1) :: advances 3 4 ++ advances 1 2 ++ advances 2 3

def joinedTogether : List (Fin 4 × Action Nat) :=
  record ++ [(1, .join 2), (2, .join 3)] ++ advances 2 3 ++ (3, .join 4) :: advances 1 3 ++
    advances 3 3

def withdrawnBeside : List (Fin 4 × Action Nat) :=
  record ++ [(1, .join 3)] ++ (2, .removeConsent 2) :: advances 2 3 ++ (3, .leave 3) ::
    advances 3 1 ++ advances 1 1

def restartedTwice : List (Fin 4 × Action Nat) :=
  record ++ [(1, .stopCallRecording), (2, .startCallRecording true)] ++ advances 1 4 ++
    (2, .startCallRecording false) :: advances 2 6 ++ advances 1 1 ++
    (3, .removeConsent 1) :: advances 3 4 ++ advances 1 1

def Exposed (w : Calls) (x : Nat) : Prop :=
  (∀ i, w.pc i = .idle) ∧ w.shared.manager.recording = true ∧ x ∈ w.shared.call.roster ∧
    x ∉ w.shared.call.consented

theorem recording_exposed :
    (∃ w : Calls, Reachable (Interleaving.step next) Initial w ∧ Exposed w 1) ∧
    (∃ w : Calls, Reachable (Interleaving.step next) Initial w ∧ Exposed w 4) ∧
    (∃ w : Calls, Reachable (Interleaving.step next) Initial w ∧ Exposed w 2) ∧
    ∃ w : Calls, Reachable (Interleaving.step next) Initial w ∧ Exposed w 1 := by
  have initial (roster consented : List Nat) : Initial (channel roster consented) :=
    ⟨rfl, fun _ => rfl⟩
  refine ⟨⟨_, reachable_of_run withdrawnTwice (initial [1] [1]) rfl, ?_⟩,
    ⟨_, reachable_of_run joinedTogether (initial [1] [1, 2, 3]) rfl, ?_⟩,
    ⟨_, reachable_of_run withdrawnBeside (initial [1, 2] [1, 2]) rfl, ?_⟩,
    ⟨_, reachable_of_run restartedTwice (initial [1] [1]) rfl, ?_⟩⟩
  all_goals
    refine ⟨fun i => ?_, rfl, by decide, by decide⟩
    fin_cases i <;> rfl

theorem recording_consent_alone : ∃ w : Calls, w.shared.manager.recording = true ∧
    ∀ x ∈ w.shared.call.roster, x ∈ w.shared.call.consented := by
  have begun : Guarded (Interleaving.step next) Guard Initial (channel [1] [1]) :=
    .start ⟨rfl, fun _ => rfl⟩
  have starting := begun.step (a := (0, Action.startCallRecording false)) trivial rfl
  have asking := starting.step (a := (0, Action.advance)) trivial rfl
  have asked := asking.step (a := (0, Action.advance)) trivial rfl
  have allowed := asked.step (a := (0, Action.advance)) trivial rfl
  have started := allowed.step (a := (0, Action.advance)) trivial rfl
  have registered := started.step (a := (0, Action.advance)) trivial rfl
  have running := registered.step (a := (0, Action.advance)) trivial rfl
  refine ⟨_, rfl, (recording_consent running ?_ rfl).1⟩
  intro i
  fin_cases i <;> rfl

end Races

end Plexichat.Recording
