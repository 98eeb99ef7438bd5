import Plexichat.Messaging.Edit

/-! The revision token of one message through the operations that write its row. An edit
stamps a time above every earlier one; the other writers stamp the clock, or nothing. -/
namespace Plexichat.Messaging
open Transition

namespace MessageRow

/-- `update_content` of repositories/message.py. -/
def updateContent (content : Text) (contentIndex : Option Text) (updatedAt : Nat)
    (markEdited : Bool) (r : MessageRow) : MessageRow :=
  r.rewrite content contentIndex (r.nextRevision updatedAt) (r.content ≠ content && markEdited)

def updateMetadata (updatedAt : Nat) (r : MessageRow) : MessageRow := { r with updatedAt }

def softDelete (deletedAt : Nat) (r : MessageRow) : MessageRow :=
  { r with
    deleted := true
    content := []
    contentEncrypted := none
    contentIndex := none
    updatedAt := deletedAt }

def deletedUserText : Text := "[This message was sent by a deleted user]".toList

/-- The purge of auth/reaper.py writes the content and no time. -/
def anonymize (r : MessageRow) : MessageRow := { r with content := deletedUserText }

/-- `edited_at or updated_at` takes the second. -/
def neverEdited (r : MessageRow) : Bool := r.editedAt.getD 0 = 0

end MessageRow

namespace Revisions

inductive Operation where
  | editMessage (call : Edit.Call) (participant : Bool) (filtered : Edit.Filtered) (stored : Text)
  | updateMessageMetadata (userId : Nat)
  | archiveMessage (canArchive : Bool)
  | updateTranscription
  | automodRemoveMessage
  | deleteMessage (canDelete : Bool)
  | purgeAuthor

abbrev Statement := MessageRow → MessageRow

def editMessage (cfg : Edit.Config) (call : Edit.Call) (participant : Bool)
    (filtered : Edit.Filtered) (stored : Text) (now : Nat) (row : MessageRow) : List Statement :=
  match Edit.checkRow row call participant with
  | .checked contentIndex =>
    match Edit.prepare cfg contentIndex filtered stored now with
    | some (.prepared content contentIndex now) => [.updateContent content contentIndex now true]
    | _ => []
  | _ => []

def statements (cfg : Edit.Config) (row : MessageRow) (now : Nat) : Operation → List Statement
  | .editMessage call participant filtered stored =>
    editMessage cfg call participant filtered stored now row
  | .updateMessageMetadata userId =>
    if row.deleted || row.authorId ≠ userId then [] else [.updateMetadata now]
  | .archiveMessage canArchive => if canArchive then [.updateMetadata now] else []
  | .updateTranscription => if row.deleted then [] else [.updateMetadata now]
  | .automodRemoveMessage => [.updateContent [] (some []) now false, .updateMetadata now]
  | .deleteMessage canDelete => if canDelete then [.softDelete now] else []
  | .purgeAuthor => [.anonymize]

structure Entry where
  rewritten : Bool
  token : Nat

structure State where
  row : MessageRow
  clock : Nat
  log : List Entry

def State.execute (s : State) (f : Statement) : State :=
  { s with
    row := f s.row
    log := ⟨(f s.row).content ≠ s.row.content, (f s.row).revision⟩ :: s.log }

def step (cfg : Edit.Config) (s : State) (a : Operation × Nat) : Option State :=
  if a.2 < s.clock then none
  else some ((statements cfg s.row a.2 a.1).foldl State.execute { s with clock := a.2 })

def Initial (s : State) : Prop := s.log = [⟨false, s.row.revision⟩]

def StrictlyMonotone (s : State) : Prop :=
  s.log.Pairwise fun newer older =>
    older.token ≤ newer.token ∧ (newer.rewritten = true → older.token < newer.token)

def Advances (row : MessageRow) (now : Nat) : Operation → Bool
  | .editMessage .. => true
  | .updateMessageMetadata userId =>
    row.deleted || row.authorId ≠ userId || !row.neverEdited || row.updatedAt ≤ now
  | .archiveMessage canArchive => !canArchive || !row.neverEdited || row.updatedAt ≤ now
  | .updateTranscription => row.deleted || !row.neverEdited || row.updatedAt ≤ now
  | .automodRemoveMessage => if row.neverEdited then row.updatedAt < now else row.content = []
  | .deleteMessage canDelete =>
    !canDelete ||
      if row.neverEdited then row.updatedAt < now || row.content = [] && row.updatedAt = now
      else row.content = []
  | .purgeAuthor => row.content = MessageRow.deletedUserText

def Lawful (r t : MessageRow) : Prop :=
  r.revision ≤ t.revision ∧ (t.content ≠ r.content → r.revision < t.revision)

def AllLawful : MessageRow → List Statement → Prop
  | _, [] => True
  | r, f :: fs => Lawful r (f r) ∧ AllLawful (f r) fs

theorem revision_of_neverEdited {r : MessageRow} (h : r.neverEdited = true) :
    r.revision = r.updatedAt := by
  simp only [MessageRow.neverEdited, decide_eq_true_eq] at h
  unfold MessageRow.revision
  split
  · rename_i n edited
    simp [edited] at h
  · rfl

theorem revision_of_edited {r : MessageRow} (h : r.neverEdited = false) :
    r.revision = r.editedAt.getD 0 := by
  simp only [MessageRow.neverEdited, decide_eq_false_iff_not] at h
  unfold MessageRow.revision
  split
  · rename_i n edited
    simp [edited]
  · rename_i unset
    cases e : r.editedAt with
    | none => simp [e] at h
    | some n =>
      cases n with
      | zero => simp [e] at h
      | succ n => exact absurd e (unset n)

theorem lawful_of_same_editedAt {r t : MessageRow} (same : t.editedAt = r.editedAt) :
    Lawful r t ↔ if r.neverEdited then
      r.updatedAt < t.updatedAt ∨ t.content = r.content ∧ r.updatedAt = t.updatedAt
      else t.content = r.content := by
  have also : t.neverEdited = r.neverEdited := by
    unfold MessageRow.neverEdited
    rw [same]
  unfold Lawful
  cases e : r.neverEdited with
  | true =>
    rw [revision_of_neverEdited e, revision_of_neverEdited (also.trans e)]
    simp only [if_true]
    by_cases content : t.content = r.content
    · simp [content]
      omega
    · simp [content]
      omega
  | false =>
    rw [revision_of_edited e, revision_of_edited (also.trans e), same]
    simp

theorem updateContent_lawful (r : MessageRow) (content : Text) (contentIndex : Option Text)
    (now : Nat) : Lawful r (r.updateContent content contentIndex now true) := by
  have later := Edit.prior_lt_next r now
  have low := Edit.revision_le_prior r
  by_cases same : r.content = content
  · have kept : (r.updateContent content contentIndex now true).editedAt = r.editedAt := by
      simp [MessageRow.updateContent, MessageRow.rewrite, same]
    refine (lawful_of_same_editedAt kept).mpr ?_
    split
    · rename_i unset
      rw [revision_of_neverEdited unset] at low
      left
      show r.updatedAt < r.nextRevision now
      omega
    · exact same.symm
  · have stamped : (r.updateContent content contentIndex now true).revision =
        r.nextRevision now := by
      apply Edit.revision_rewrite (Nat.zero_lt_of_lt later)
      simp [same]
    unfold Lawful
    omega

theorem updateMetadata_lawful_iff (r : MessageRow) (now : Nat) :
    Lawful r (r.updateMetadata now) ↔ (!r.neverEdited || r.updatedAt ≤ now) = true := by
  have kept : (r.updateMetadata now).editedAt = r.editedAt := rfl
  rw [lawful_of_same_editedAt kept]
  cases r.neverEdited with
  | true =>
    simp [MessageRow.updateMetadata]
    omega
  | false => simp [MessageRow.updateMetadata]

theorem softDelete_lawful_iff (r : MessageRow) (now : Nat) : Lawful r (r.softDelete now) ↔
    (if r.neverEdited then r.updatedAt < now || r.content = [] && r.updatedAt = now
      else r.content = []) = true := by
  have kept : (r.softDelete now).editedAt = r.editedAt := rfl
  have blank : [] = r.content ↔ r.content = [] := eq_comm
  rw [lawful_of_same_editedAt kept]
  cases r.neverEdited with
  | true => simp [MessageRow.softDelete, blank]
  | false => simp [MessageRow.softDelete, blank]

theorem anonymize_lawful_iff (r : MessageRow) :
    Lawful r r.anonymize ↔ r.content = MessageRow.deletedUserText := by
  have kept : r.anonymize.editedAt = r.editedAt := rfl
  have stamped : r.anonymize.updatedAt = r.updatedAt := rfl
  have content : r.anonymize.content = MessageRow.deletedUserText := rfl
  rw [lawful_of_same_editedAt kept, stamped, content]
  cases r.neverEdited with
  | true =>
    simp only [Nat.lt_irrefl, and_true, false_or, if_true]
    exact eq_comm
  | false =>
    simp only [Bool.false_eq_true, if_false]
    exact eq_comm

theorem automodRemove_lawful_iff (r : MessageRow) (now : Nat) :
    AllLawful r [.updateContent [] (some []) now false, .updateMetadata now] ↔
      (if r.neverEdited then decide (r.updatedAt < now) else decide (r.content = [])) = true := by
  have kept : (r.updateContent [] (some []) now false).editedAt = r.editedAt := by
    simp [MessageRow.updateContent, MessageRow.rewrite]
  have again : (r.updateContent [] (some []) now false).neverEdited = r.neverEdited := by
    unfold MessageRow.neverEdited
    rw [kept]
  have stamped : (r.updateContent [] (some []) now false).updatedAt = r.nextRevision now := rfl
  have content : (r.updateContent [] (some []) now false).content = [] := rfl
  simp only [AllLawful, and_true]
  rw [lawful_of_same_editedAt kept, updateMetadata_lawful_iff, again, stamped, content]
  cases e : r.neverEdited with
  | true =>
    have prior : r.priorRevision = r.updatedAt := by
      simp only [MessageRow.neverEdited, decide_eq_true_eq] at e
      simp [MessageRow.priorRevision, e]
    simp only [if_true, Bool.not_true, Bool.false_or, decide_eq_true_eq]
    unfold MessageRow.nextRevision
    rw [prior]
    split
    · omega
    · simp
      omega
  | false => simp [eq_comm]

theorem advances_iff (cfg : Edit.Config) (row : MessageRow) (now : Nat) (op : Operation) :
    Advances row now op = true ↔ AllLawful row (statements cfg row now op) := by
  cases op with
  | editMessage call participant filtered stored =>
    simp only [Advances, statements, editMessage, true_iff]
    split
    · split
      · exact ⟨updateContent_lawful _ _ _ _, trivial⟩
      · trivial
    · trivial
  | updateMessageMetadata userId =>
    simp only [Advances, statements]
    cases row.deleted || decide (row.authorId ≠ userId) with
    | true => simp [AllLawful]
    | false => simp [AllLawful, updateMetadata_lawful_iff]
  | archiveMessage canArchive =>
    cases canArchive with
    | true => simp [Advances, statements, AllLawful, updateMetadata_lawful_iff]
    | false => simp [Advances, statements, AllLawful]
  | updateTranscription =>
    simp only [Advances, statements]
    cases row.deleted with
    | true => simp [AllLawful]
    | false => simp [AllLawful, updateMetadata_lawful_iff]
  | automodRemoveMessage => exact (automodRemove_lawful_iff row now).symm
  | deleteMessage canDelete =>
    cases canDelete with
    | true =>
      simp only [Advances, statements, AllLawful, and_true, if_true, Bool.not_true, Bool.false_or]
      exact (softDelete_lawful_iff row now).symm
    | false => simp [Advances, statements, AllLawful]
  | purgeAuthor =>
    simp only [Advances, statements, AllLawful, and_true, decide_eq_true_eq]
    exact (anonymize_lawful_iff row).symm

structure Inv (s : State) : Prop where
  law : StrictlyMonotone s
  newest : ∃ rewritten earlier, s.log = ⟨rewritten, s.row.revision⟩ :: earlier

theorem Inv.token_le {s : State} (inv : Inv s) {e : Entry} (mem : e ∈ s.log) :
    e.token ≤ s.row.revision := by
  obtain ⟨rewritten, earlier, log⟩ := inv.newest
  have law := inv.law
  unfold StrictlyMonotone at law
  rw [log] at law mem
  rcases List.mem_cons.mp mem with rfl | older
  · exact Nat.le_refl _
  · exact ((List.pairwise_cons.mp law).1 e older).1

theorem Inv.execute {s : State} (inv : Inv s) {f : Statement} (lawful : Lawful s.row (f s.row)) :
    Inv (s.execute f) := by
  refine ⟨List.pairwise_cons.mpr ⟨?_, inv.law⟩, _, _, rfl⟩
  intro e mem
  have low := inv.token_le mem
  refine ⟨Nat.le_trans low lawful.1, ?_⟩
  intro rewritten
  have grows := lawful.2 (of_decide_eq_true rewritten)
  exact Nat.lt_of_le_of_lt low grows

theorem Inv.executeAll {fs : List Statement} {s : State} (inv : Inv s)
    (lawful : AllLawful s.row fs) : Inv (fs.foldl State.execute s) := by
  induction fs generalizing s with
  | nil => exact inv
  | cons f fs ih => exact ih (inv.execute lawful.1) lawful.2

theorem step_inv {cfg : Edit.Config} {s t : State} {a : Operation × Nat} (inv : Inv s)
    (ok : Advances s.row a.2 a.1 = true) (moved : step cfg s a = some t) : Inv t := by
  unfold step at moved
  split at moved
  · cases moved
  · cases moved
    have same : Inv { s with clock := a.2 } := ⟨inv.law, inv.newest⟩
    exact same.executeAll ((advances_iff cfg s.row a.2 a.1).mp ok)

/-- While every operation meets its condition, each rewrite moves the token above all earlier
ones and nothing moves it down. -/
theorem token_strictly_monotone {cfg : Edit.Config} {s : State}
    (h : Guarded (step cfg) (fun s a => Advances s.row a.2 a.1 = true) Initial s) :
    StrictlyMonotone s := by
  have first : ∀ s, Initial s → Inv s := by
    intro s start
    refine ⟨?_, _, _, start⟩
    unfold StrictlyMonotone
    rw [start]
    exact List.pairwise_singleton _ _
  have inv : Inv s := guarded_invariant first (fun _ _ _ inv ok moved => step_inv inv ok moved) h
  exact inv.law

def created : State := ⟨Edit.sampleRow, 5, [⟨false, 5⟩]⟩

def authorEdits (content : Text) : Operation :=
  .editMessage ⟨1, content, none⟩ true (.sanitized content) content

/-- The removal of an edited message leaves the token of the edit. -/
theorem removal_keeps_edit_token : ¬ ∀ s : State,
    Reachable (step Edit.sampleConfig) Initial s → StrictlyMonotone s := by
  intro law
  let ops : List (Operation × Nat) := [(authorEdits ['b'], 6), (.automodRemoveMessage, 9)]
  let s : State := (run (step Edit.sampleConfig) created ops).get rfl
  have reached : Reachable (step Edit.sampleConfig) Initial s :=
    reachable_of_run (s := created) ops rfl (Option.some_get _).symm
  have newest := (List.pairwise_cons.mp (List.Pairwise.of_cons (law s reached))).1
  exact absurd ((newest ⟨true, 6⟩ (List.mem_cons_self ..)).2 rfl) (by decide)

/-- Two edits of one millisecond with a metadata update after them. -/
theorem edits_move_token : ∃ s : State, s.row.revision = 7 ∧ s.log.length = 4 ∧
    StrictlyMonotone s := by
  let ops : List (Operation × Nat) :=
    [(authorEdits ['b'], 6), (authorEdits ['c'], 6), (.updateMessageMetadata 1, 6)]
  let s : State := (runGuarded (step Edit.sampleConfig)
    (fun s a => Advances s.row a.2 a.1 = true) created ops).get rfl
  have reached : Guarded (step Edit.sampleConfig) (fun s a => Advances s.row a.2 a.1 = true)
      Initial s := guarded_of_run (s := created) ops rfl (Option.some_get _).symm
  exact ⟨s, rfl, rfl, token_strictly_monotone reached⟩

end Revisions

end Plexichat.Messaging
