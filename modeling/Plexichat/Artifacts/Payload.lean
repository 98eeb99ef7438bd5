import Mathlib.Data.Fintype.Fin
import Mathlib.Data.List.Dedup
import Mathlib.Tactic.FinCases
import Plexichat.Library.Interleaving

/-! core/artifacts: the payload of one artifact, updated with an expected revision
(repository.py) and patched without one by voice_calls.py and recording.py. -/
namespace Plexichat.Artifacts
open Transition Interleaving

variable {ρ φ β : Type}

structure Payload (ρ φ β : Type) where
  participantIds : List Nat
  participantCount : Nat
  recordingRef : Option ρ
  recordingFileId : Option φ
  recordingUrls : List ρ
  recordingFileIds : List φ
  rest : β
  deriving DecidableEq

/-- The keyword arguments of _update_artifact_payload. -/
structure Fields (ρ φ : Type) where
  recordingRef : Option ρ
  recordingFileId : Option φ
  recordingUrls : Option (List ρ)
  recordingFileIds : Option (List φ)

def appendNew {α : Type} [DecidableEq α] (l : List α) (x : Option α) : List α :=
  match x with
  | none => l
  | some x => if x ∈ l then l else l ++ [x]

def insertPrevious {α : Type} [DecidableEq α] (l : List α) (x : Option α) : List α :=
  match x with
  | none => l
  | some x => if x ∈ l then l else x :: l

namespace Payload

variable [DecidableEq ρ] [DecidableEq φ] (p : Payload ρ φ β)

def mergeParticipantRoster (ids : List Nat) : Payload ρ φ β :=
  let roster := ((p.participantIds ++ ids).dedup).mergeSort (· ≤ ·)
  { p with
    participantIds := roster, participantCount := max p.participantCount roster.length }

def updateFields (fields : Fields ρ φ) : Payload ρ φ β :=
  let fields := match fields.recordingRef with
    | none => fields
    -- the lists that are passed give way to the accumulated ones
    | some ref => { fields with
        recordingUrls := some (appendNew (insertPrevious p.recordingUrls p.recordingRef) (some ref))
        recordingFileIds := some (appendNew (insertPrevious p.recordingFileIds p.recordingFileId)
          fields.recordingFileId) }
  { p with
    recordingRef := fields.recordingRef
    recordingFileId := fields.recordingFileId
    recordingUrls := fields.recordingUrls.getD p.recordingUrls
    recordingFileIds := fields.recordingFileIds.getD p.recordingFileIds }

end Payload

inductive Entry (ρ φ : Type) where
  | participant (id : Nat)
  | url (u : ρ)
  | file (f : φ)
  deriving DecidableEq

def Payload.Has (p : Payload ρ φ β) : Entry ρ φ → Prop
  | .participant id => id ∈ p.participantIds
  | .url u => p.recordingRef = some u ∨ u ∈ p.recordingUrls
  | .file f => p.recordingFileId = some f ∨ f ∈ p.recordingFileIds

inductive Work (ρ φ : Type) where
  | roster (ids : List Nat)
  | recording (fields : Fields ρ φ)
  | optimistic

def Work.entries : Work ρ φ → List (Entry ρ φ)
  | .roster ids => ids.map .participant
  | .recording fields =>
    (fields.recordingRef.toList ++ fields.recordingUrls.getD []).map .url ++
      (fields.recordingFileId.toList ++ fields.recordingFileIds.getD []).map .file
  | .optimistic => []

inductive Phase (ρ φ β : Type) where
  | idle
  | fetched (w : Work ρ φ) (payload : Payload ρ φ β) (rev : Nat)

structure Success (ρ φ β : Type) where
  expected : Nat
  read : Payload ρ φ β
  replaced : Payload ρ φ β

/-- The row; the optimistic updates that have succeeded; and what was patched in, less what such an
update has read and left out. -/
structure Shared (ρ φ β : Type) where
  payload : Payload ρ φ β
  rev : Nat
  successes : List (Success ρ φ β)
  owed : List (Entry ρ φ)

inductive Action (ρ φ β : Type) where
  | mergeParticipantRoster (ids : List Nat)
  | updateArtifactPayload (fields : Fields ρ φ)
  | updateArtifact
  /-- The UPDATE of an optimistic caller, with its payload, -/
  | write (payload : Payload ρ φ β)
  /-- that of a patch, -/
  | patch
  /-- or an error before it. -/
  | fail

variable [DecidableEq ρ] [DecidableEq φ]

instance (p : Payload ρ φ β) (e : Entry ρ φ) : Decidable (p.Has e) := by
  cases e <;> (unfold Payload.Has; infer_instance)

namespace Shared

variable (s : Shared ρ φ β)

def patch (w : Work ρ φ) (payload : Payload ρ φ β) : Shared ρ φ β :=
  { s with payload, owed := s.owed ++ w.entries }

/-- `UPDATE … SET payload = ?, rev = rev + 1 WHERE rev = ?`. -/
def update (read payload : Payload ρ φ β) (expected : Nat) : Shared ρ φ β :=
  if s.rev = expected then
    { payload, rev := s.rev + 1, successes := s.successes ++ [⟨expected, read, s.payload⟩],
      owed := s.owed.filter fun e => !decide (read.Has e) || decide (payload.Has e) }
  else s

end Shared

def next (s : Shared ρ φ β) (p : Phase ρ φ β) (a : Action ρ φ β) :
    Option (Shared ρ φ β × Phase ρ φ β) :=
  match p, a with
  | .idle, .mergeParticipantRoster ids =>
    some (s, if ids.isEmpty then .idle else .fetched (.roster ids) s.payload s.rev)
  | .idle, .updateArtifactPayload fields => some (s, .fetched (.recording fields) s.payload s.rev)
  | .idle, .updateArtifact => some (s, .fetched .optimistic s.payload s.rev)
  | .fetched (.roster ids) read _, .patch =>
    some (s.patch (.roster ids) (read.mergeParticipantRoster ids), .idle)
  | .fetched (.recording fields) read _, .patch =>
    some (s.patch (.recording fields) (read.updateFields fields), .idle)
  | .fetched .optimistic read rev, .write payload => some (s.update read payload rev, .idle)
  | .fetched _ _ _, .fail => some (s, .idle)
  | _, _ => none

abbrev World (ι ρ φ β : Type) := Interleaving.State ι (Shared ρ φ β) (Phase ρ φ β)

variable {ι : Type}

def init (s : World ι ρ φ β) : Prop :=
  s.shared.successes = [] ∧ s.shared.owed = [] ∧ ∀ i, s.pc i = .idle

def Pending (rev : Nat) : Phase ρ φ β → Prop
  | .idle => False
  | .fetched .optimistic _ read => read = rev
  | .fetched _ _ _ => True

/-- The write of a patch that changes the payload lands while no other call that may still land
has read the row, and an optimistic one while no patch has. A recording has a reference, and
passes no other one and no other file. -/
def Apart (s : World ι ρ φ β) (a : ι × Action ρ φ β) : Prop :=
  match s.pc a.1, a.2 with
  | .fetched (.roster ids) read _, .patch => read.mergeParticipantRoster ids = s.shared.payload ∨
    ∀ j ≠ a.1, ¬Pending s.shared.rev (s.pc j)
  | .fetched (.recording fields) read _, .patch => (read.updateFields fields = s.shared.payload ∨
      ∀ j ≠ a.1, ¬Pending s.shared.rev (s.pc j)) ∧
    fields.recordingRef ≠ none ∧
    (∀ u ∈ fields.recordingUrls.getD [], fields.recordingRef = some u) ∧
    ∀ f ∈ fields.recordingFileIds.getD [], fields.recordingFileId = some f
  | .fetched .optimistic _ rev, .write _ => s.shared.rev = rev →
    ∀ j ≠ a.1, ¬Pending (s.shared.rev + 1) (s.pc j)
  | _, _ => True

end Plexichat.Artifacts
