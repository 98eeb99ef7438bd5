import Mathlib.Data.List.Basic
import Plexichat.Library.Interleaving

/-! core/artifacts: the recording of one call whose consent is required. Who is in its channel, who
has consented, and what RecordingManager keeps of it. -/
namespace Plexichat.Recording

variable {υ : Type}

/-- The members of the channel in voice_states, `consented_participants` of the call, and what
VoiceCallManager has seen of the members. -/
structure Call (υ : Type) where
  roster : List υ
  consented : List υ
  participants : Option (List υ)

/-- Whether the call is in each of the sets of RecordingManager, and whether the SFU records its
room. -/
structure Manager where
  active : Bool
  starting : Bool
  stopping : Bool
  pendingStop : Bool
  pendingRestart : Bool
  recording : Bool

structure Shared (υ : Type) where
  call : Call υ
  manager : Manager

inductive Task (υ : Type) where
  | starting
  | asking
  /-- The consents are read, and the members are not. -/
  | asked (consented : List υ)
  | allowed
  /-- The SFU records. -/
  | started
  | registered
  /-- The SFU is to be stopped again. -/
  | duplicate
  | clearing
  | stopping
  | unmarking
  /-- The SFU is to be stopped. -/
  | popped
  | stopped
  | restarting
  | restart

/-- Where a call of VoiceCallManager is, and then the task that it has scheduled. -/
inductive Phase (υ : Type) where
  | idle
  /-- The row is in voice_states, -/
  | joined (x : υ)
  /-- the members are read, and whether `x` is a new one, -/
  | known (x : υ) (new : Bool)
  /-- and the call is updated and its consents are read. -/
  | updated (x : υ) (new : Bool) (consented : List υ)
  | left (x : υ)
  | consenting (x : υ)
  | adding (x : υ)
  | added (x : υ) (before : List υ)
  | revoking (x : υ)
  | removing (x : υ)
  | removed (x : υ) (before : List υ)
  | requestingStop
  | requestingStart (forceRestart : Bool)
  | task (t : Task υ)

inductive Action (υ : Type) where
  | join (x : υ)
  | leave (x : υ)
  | addConsent (x : υ)
  | removeConsent (x : υ)
  | startCallRecording (forceRestart : Bool)
  | stopCallRecording
  | advance
  /-- The output directory cannot be made. -/
  | fail

namespace Manager

variable (m : Manager)

def startCallRecording (forceRestart : Bool) : Manager × Phase υ :=
  if forceRestart && (m.active || m.starting) then ({ m with pendingRestart := true }, .idle)
  else if m.active || m.starting then (m, .idle)
  else ({ m with starting := true }, .task .starting)

def stopCallRecording : Manager × Phase υ :=
  if m.stopping then (m, .idle)
  else if m.starting then ({ m with pendingStop := true }, .idle)
  else if m.active then ({ m with stopping := true }, .task .stopping)
  else (m, .idle)

variable [DecidableEq υ]

/-- The next step of a task, each under _state_lock or a call of the SFU or a read. -/
def run (c : Call υ) : Task υ → Manager × Phase υ
  | .starting =>
    if m.active then ({ m with starting := false }, .idle) else (m, .task .asking)
  | .asking => (m, .task (.asked c.consented))
  | .asked consented =>
    if c.roster.isEmpty || !c.roster.all (· ∈ consented) then (m, .task .clearing)
    else (m, .task .allowed)
  | .allowed => ({ m with recording := true }, .task .started)
  | .started =>
    if m.active || m.stopping then (m, .task .duplicate)
    else ({ m with active := true }, .task .registered)
  | .registered =>
    let m := { m with starting := false, pendingRestart := false }
    if m.pendingStop then ({ m with pendingStop := false, stopping := true }, .task .stopping)
    else (m, .idle)
  | .duplicate => ({ m with recording := false }, .task .clearing)
  | .clearing =>
    ({ m with starting := false, pendingStop := false, pendingRestart := false }, .idle)
  | .stopping =>
    if m.active then ({ m with active := false }, .task .popped) else (m, .task .unmarking)
  | .unmarking => ({ m with stopping := false }, .idle)
  | .popped => ({ m with recording := false }, .task .stopped)
  | .stopped =>
    ({ m with stopping := false }, if m.pendingRestart then .task .restarting else .idle)
  | .restarting => ({ m with pendingRestart := false }, .task .restart)
  | .restart => ({ m with starting := true }, .task .starting)

end Manager

namespace Call

variable [DecidableEq υ] (c : Call υ)

def previous (x : υ) : List υ :=
  match c.participants with
  | none => c.roster.filter (· ≠ x)
  | some ids => ids.filter (· ∈ c.roster)

def addParticipant (x : υ) : Call υ × Phase υ :=
  if x ∈ c.roster then
    ({ c with participants := some c.roster }, .known x (x ∉ c.previous x))
  else (c, .idle)

/-- What follows the commit of add_consent. -/
def consentAdded (x : υ) (before : List υ) : Phase υ :=
  let after := if x ∈ before then before else before ++ [x]
  let wasComplete := c.roster.all (· ∈ before)
  if c.roster.all (· ∈ after) && (!wasComplete || x ∉ before) then
    .requestingStart !wasComplete
  else .idle

def consentRemoved (x : υ) (before : List υ) : Phase υ :=
  if c.roster.all (· ∈ before) && !c.roster.all (· ∈ before.filter (· ≠ x)) then .requestingStop
  else .idle

def run : Phase υ → Call υ × Phase υ
  | .joined x => c.addParticipant x
  | .known x new => (c, .updated x new c.consented)
  | .updated _ new consented =>
    (c, if new && !c.roster.all (· ∈ consented) then .requestingStop else .idle)
  | .left x => ({ c with participants := c.participants.map (·.filter (· ≠ x)) }, .idle)
  | .consenting x => (c, if x ∈ c.roster then .adding x else .idle)
  | .adding x =>
    ({ c with consented := if x ∈ c.consented then c.consented else c.consented ++ [x] },
      .added x c.consented)
  | .added x before => (c, c.consentAdded x before)
  | .revoking x => (c, if x ∈ c.roster then .removing x else .idle)
  | .removing x =>
    ({ c with consented := c.consented.filter (· ≠ x) }, .removed x c.consented)
  | .removed x before => (c, c.consentRemoved x before)
  | p => (c, p)

end Call

variable [DecidableEq υ]

def next (s : Shared υ) (p : Phase υ) : Action υ → Option (Shared υ × Phase υ)
  | .advance =>
    match p with
    | .idle => none
    | .requestingStart force =>
      let r := s.manager.startCallRecording force
      some (⟨s.call, r.1⟩, r.2)
    | .requestingStop =>
      let r := s.manager.stopCallRecording
      some (⟨s.call, r.1⟩, r.2)
    | .task t =>
      let r := s.manager.run s.call t
      some (⟨s.call, r.1⟩, r.2)
    | p =>
      let r := s.call.run p
      some (⟨r.1, s.manager⟩, r.2)
  | .fail =>
    match p with
    | .task .allowed => some (s, .task .clearing)
    | _ => none
  | action =>
    match p with
    | .idle =>
      match action with
      | .join x =>
        some (⟨{ s.call with roster := s.call.roster.insert x }, s.manager⟩, .joined x)
      | .leave x =>
        some (⟨{ s.call with roster := s.call.roster.filter (· ≠ x) }, s.manager⟩, .left x)
      | .addConsent x => some (s, .consenting x)
      | .removeConsent x => some (s, .revoking x)
      | .startCallRecording force =>
        let r := s.manager.startCallRecording force
        some (⟨s.call, r.1⟩, r.2)
      | .stopCallRecording =>
        let r := s.manager.stopCallRecording
        some (⟨s.call, r.1⟩, r.2)
      | _ => none
    | _ => none

inductive Moved (s : Shared υ) : Phase υ → Shared υ × Phase υ → Prop
  | join (x : υ) : Moved s .idle
    (⟨{ s.call with roster := s.call.roster.insert x }, s.manager⟩, .joined x)
  | leave (x : υ) : Moved s .idle
    (⟨{ s.call with roster := s.call.roster.filter (· ≠ x) }, s.manager⟩, .left x)
  | consent (x : υ) : Moved s .idle (s, .consenting x)
  | revoke (x : υ) : Moved s .idle (s, .revoking x)
  | joined (x : υ) : Moved s (.joined x)
    (⟨(s.call.addParticipant x).1, s.manager⟩, (s.call.addParticipant x).2)
  | known (x : υ) (new : Bool) : Moved s (.known x new) (s, .updated x new s.call.consented)
  | updated (x : υ) (new : Bool) (consented : List υ) : Moved s (.updated x new consented)
    (s, if new && !s.call.roster.all (· ∈ consented) then .requestingStop else .idle)
  | left (x : υ) : Moved s (.left x)
    (⟨{ s.call with participants := s.call.participants.map (·.filter (· ≠ x)) }, s.manager⟩, .idle)
  | consenting (x : υ) : Moved s (.consenting x)
    (s, if x ∈ s.call.roster then .adding x else .idle)
  | adding (x : υ) (consented : List υ) (more : s.call.consented ⊆ consented) : Moved s (.adding x)
    (⟨{ s.call with consented }, s.manager⟩, .added x s.call.consented)
  | added (x : υ) (before : List υ) : Moved s (.added x before) (s, s.call.consentAdded x before)
  | revoking (x : υ) : Moved s (.revoking x)
    (s, if x ∈ s.call.roster then .removing x else .idle)
  | removing (x : υ) : Moved s (.removing x)
    (⟨{ s.call with consented := s.call.consented.filter (· ≠ x) }, s.manager⟩,
      .removed x s.call.consented)
  | removed (x : υ) (before : List υ) : Moved s (.removed x before)
    (s, s.call.consentRemoved x before)
  | start (p : Phase υ) (asks : p = .idle ∨ ∃ force, p = .requestingStart force) (force : Bool)
    (r : Manager × Phase υ) (begins : s.manager.startCallRecording force = r) :
    Moved s p (⟨s.call, r.1⟩, r.2)
  | stop (p : Phase υ) (asks : p = .idle ∨ p = .requestingStop) (r : Manager × Phase υ)
    (ends : s.manager.stopCallRecording = r) : Moved s p (⟨s.call, r.1⟩, r.2)
  | task (t : Task υ) : Moved s (.task t)
    (⟨s.call, (s.manager.run s.call t).1⟩, (s.manager.run s.call t).2)
  | fail : Moved s (.task .allowed) (s, .task .clearing)

theorem moved_of_next {s : Shared υ} {p : Phase υ} {a : Action υ} {r : Shared υ × Phase υ}
    (step : next s p a = some r) : Moved s p r := by
  cases a with
  | advance =>
    cases p with
    | idle => cases step
    | joined x =>
      cases step
      exact .joined x
    | known x new =>
      cases step
      exact .known x new
    | updated x new consented =>
      cases step
      exact .updated x new consented
    | left x =>
      cases step
      exact .left x
    | consenting x =>
      cases step
      exact .consenting x
    | adding x =>
      cases step
      refine .adding x _ ?_
      split
      · exact List.Subset.refl _
      · exact List.subset_append_left _ _
    | added x before =>
      cases step
      exact .added x before
    | revoking x =>
      cases step
      exact .revoking x
    | removing x =>
      cases step
      exact .removing x
    | removed x before =>
      cases step
      exact .removed x before
    | requestingStop =>
      cases step
      exact .stop _ (.inr rfl) _ rfl
    | requestingStart force =>
      cases step
      exact .start _ (.inr ⟨force, rfl⟩) force _ rfl
    | task t =>
      cases step
      exact .task t
  | fail =>
    simp only [next] at step
    split at step
    · cases step
      exact .fail
    · cases step
  | join x =>
    simp only [next] at step
    split at step <;> cases step
    exact .join x
  | leave x =>
    simp only [next] at step
    split at step <;> cases step
    exact .leave x
  | addConsent x =>
    simp only [next] at step
    split at step <;> cases step
    exact .consent x
  | removeConsent x =>
    simp only [next] at step
    split at step <;> cases step
    exact .revoke x
  | startCallRecording force =>
    simp only [next] at step
    split at step <;> cases step
    exact .start _ (.inl rfl) force _ rfl
  | stopCallRecording =>
    simp only [next] at step
    split at step <;> cases step
    exact .stop _ (.inl rfl) _ rfl

end Plexichat.Recording
