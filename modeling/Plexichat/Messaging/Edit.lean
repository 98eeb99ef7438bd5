import Mathlib.Logic.Function.Basic
import Plexichat.Library.Transition

/-! edit_message of services/message/edit_delete.py, one database statement at a
time. The revision token is compared with the row read at the start, and the
row is rewritten later by an UPDATE that does not look at the token again. -/
namespace Plexichat.Messaging
open Transition

abbrev Text := List Char

/-- The columns of msg_messages an edit reads or writes. -/
structure MessageRow where
  authorId : Nat
  deleted : Bool
  createdAt : Nat
  content : Text
  contentEncrypted : Option Text
  contentIndex : Option Text
  updatedAt : Nat
  edited : Bool
  editedAt : Option Nat

namespace MessageRow

/-- `edited_at or updated_at`; zero counts as missing. -/
def revision (r : MessageRow) : Nat :=
  match r.editedAt with
  | some (n + 1) => n + 1
  | _ => r.updatedAt

def priorRevision (r : MessageRow) : Nat := max r.updatedAt (r.editedAt.getD 0)

/-- The timestamp `update_content` writes, above every earlier revision. -/
def nextRevision (existing : MessageRow) (updatedAt : Nat) : Nat :=
  if updatedAt ≤ existing.priorRevision then existing.priorRevision + 1 else updatedAt

def rewrite (content : Text) (contentIndex : Option Text) (updatedAt : Nat) (raiseEdited : Bool)
    (r : MessageRow) : MessageRow :=
  { r with
    content
    contentEncrypted := if raiseEdited then none else r.contentEncrypted
    contentIndex
    updatedAt
    edited := r.edited || raiseEdited
    editedAt := if raiseEdited then some updatedAt else r.editedAt }

end MessageRow

namespace Edit

inductive Refusal where
  | messageNotFound | accessDenied | editWindowExpired | invalidContent
  deriving DecidableEq

inductive Outcome where
  | success
  | conflict (expected actual : Nat)
  | refused (r : Refusal)
  deriving DecidableEq

structure Call where
  userId : Nat
  content : Text
  expectedEditedAt : Option Nat

inductive Pc where
  | start
  | checked (contentIndex : Option Text)
  | prepared (content : Text) (contentIndex : Text) (now : Nat)
  | compared (content : Text) (contentIndex : Text) (updatedAt : Nat) (raiseEdited : Bool)
  | written
  | unchanged
  | finished (o : Outcome)

inductive Filtered where
  | windowExpired
  | invalid
  | sanitized (content : Text)

inductive Action (ι : Type) where
  | read (i : ι) (participant : Bool)
  | prepare (i : ι) (filtered : Filtered) (stored : Text) (now : Nat)
  | compare (i : ι)
  | write (i : ι)
  | reload (i : ι) (found : Bool)

structure System (ι : Type) where
  row : MessageRow
  call : ι → Call
  pc : ι → Pc
  /-- The call has executed its UPDATE. -/
  wrote : ι → Bool

structure Config where
  encryptMessages : Bool
  blindIndex : Text → Text

def checkRow (row : MessageRow) (call : Call) (participant : Bool) : Pc :=
  if row.deleted || !participant then .finished (.refused .messageNotFound)
  else if row.authorId ≠ call.userId then .finished (.refused .accessDenied)
  else match call.expectedEditedAt with
    | some expected =>
      if expected ≠ row.revision then .finished (.conflict expected row.revision)
      else .checked row.contentIndex
    | none => .checked row.contentIndex

def prepare (cfg : Config) (contentIndex : Option Text) (filtered : Filtered) (stored : Text)
    (now : Nat) : Option Pc :=
  match filtered with
  | .windowExpired => some (.finished (.refused .editWindowExpired))
  | .invalid => some (.finished (.refused .invalidContent))
  | .sanitized content =>
    if contentIndex = some (cfg.blindIndex content) then some .unchanged
    else if cfg.encryptMessages = false ∧ stored ≠ content then none
    else some (.prepared stored (cfg.blindIndex content) now)

variable {ι : Type} [DecidableEq ι]

def System.goto (s : System ι) (i : ι) (p : Pc) : System ι :=
  { s with pc := Function.update s.pc i p }

def step (cfg : Config) (s : System ι) : Action ι → Option (System ι)
  | .read i participant =>
    match s.pc i with
    | .start => some (s.goto i (checkRow s.row (s.call i) participant))
    | _ => none
  | .prepare i filtered stored now =>
    match s.pc i with
    | .checked index => (prepare cfg index filtered stored now).map (s.goto i)
    | _ => none
  | .compare i =>
    match s.pc i with
    | .prepared content index now =>
      some (s.goto i (.compared content index (s.row.nextRevision now)
        (decide (s.row.content ≠ content))))
    | _ => none
  | .write i =>
    match s.pc i with
    | .compared content index updatedAt raiseEdited =>
      some { s.goto i .written with
        row := s.row.rewrite content (some index) updatedAt raiseEdited
        wrote := Function.update s.wrote i true }
    | _ => none
  | .reload i found =>
    match s.pc i with
    | .written | .unchanged =>
      some (s.goto i (.finished (if found then .success else .refused .messageNotFound)))
    | _ => none

def Initial (token : Nat) (s : System ι) : Prop :=
  ∀ i, (s.call i).expectedEditedAt = some token ∧ s.pc i = .start ∧ s.wrote i = false

/-- One winner: the others end in a conflict, unless another check refuses them,
and leave the stored content alone. -/
structure OneWins (s : System ι) : Prop where
  single : ∀ i j, s.pc i = .finished .success → s.pc j = .finished .success → i = j
  loser : ∀ i j, s.pc i = .finished .success → j ≠ i → s.wrote j = false ∧
    ∀ o, s.pc j = .finished o → (∃ expected actual, o = .conflict expected actual) ∨
      ∃ r, o = .refused r
  conflict : ∀ i expected actual, s.pc i = .finished (.conflict expected actual) →
    s.wrote i = false

def Pc.editing : Pc → Bool
  | .checked _ | .prepared .. | .compared .. => true
  | _ => false

def noop (cfg : Config) : Pc → Filtered → Bool
  | .checked index, .sanitized content => index = some (cfg.blindIndex content)
  | _, _ => false

def stays (row : MessageRow) : Pc → Bool
  | .prepared content _ _ => row.content = content && row.editedAt.getD 0 ≠ 0
  | _ => false

def Serial (cfg : Config) (s : System ι) : Action ι → Prop
  | .read i _ => ∀ j, j ≠ i → (s.pc j).editing = false
  | .prepare i filtered _ _ => noop cfg (s.pc i) filtered = false
  | .compare i => stays s.row (s.pc i) = false
  | _ => True

theorem revision_le_prior (r : MessageRow) : r.revision ≤ r.priorRevision := by
  unfold MessageRow.revision MessageRow.priorRevision
  split
  · rename_i n h
    simp only [h, Option.getD_some]
    omega
  · exact Nat.le_max_left _ _

theorem prior_lt_next (r : MessageRow) (now : Nat) : r.priorRevision < r.nextRevision now := by
  unfold MessageRow.nextRevision
  split
  · exact Nat.lt_succ_self _
  · omega

theorem revision_rewrite {r : MessageRow} {content : Text} {index : Option Text}
    {updatedAt : Nat} {raiseEdited : Bool} (positive : 0 < updatedAt)
    (moves : raiseEdited = true ∨ r.editedAt.getD 0 = 0) :
    (r.rewrite content index updatedAt raiseEdited).revision = updatedAt := by
  obtain ⟨n, rfl⟩ := Nat.exists_eq_succ_of_ne_zero (Nat.ne_of_gt positive)
  cases raiseEdited with
  | true => rfl
  | false =>
    have unset : r.editedAt.getD 0 = 0 := moves.resolve_left (by decide)
    simp only [MessageRow.rewrite, MessageRow.revision, Bool.false_eq_true, if_false]
    split
    · rename_i m h
      simp [h] at unset
    · rfl

def Local (token : Nat) (row : MessageRow) (wrote : Bool) : Pc → Prop
  | .start => wrote = false
  | .checked _ | .prepared .. => wrote = false ∧ row.revision = token
  | .compared _ _ updatedAt raiseEdited => wrote = false ∧ row.revision = token ∧
      token < updatedAt ∧ (raiseEdited = true ∨ row.editedAt.getD 0 = 0)
  | .written => wrote = true
  | .unchanged => False
  | .finished .success => wrote = true
  | .finished (.conflict ..) => wrote = false
  | .finished (.refused _) => True

structure Inv (token : Nat) (s : System ι) : Prop where
  expected : ∀ i, (s.call i).expectedEditedAt = some token
  here : ∀ i, Local token s.row (s.wrote i) (s.pc i)
  alone : ∀ i j, (s.pc i).editing = true → (s.pc j).editing = true → i = j
  moved : ∀ i, s.wrote i = true → token < s.row.revision
  writer : ∀ i j, s.wrote i = true → s.wrote j = true → i = j

omit [DecidableEq ι] in
theorem initial_inv {token : Nat} {s : System ι} (h : Initial token s) : Inv token s := by
  refine ⟨fun i => (h i).1, ?_, ?_, ?_, ?_⟩
  · intro i
    rw [(h i).2.1]
    exact (h i).2.2
  · intro i j hi
    simp [(h i).2.1, Pc.editing] at hi
  · intro i hi
    simp [(h i).2.2] at hi
  · intro i j hi
    simp [(h i).2.2] at hi

theorem Inv.goto {token : Nat} {s : System ι} (inv : Inv token s) {i : ι} {p : Pc}
    (here : Local token s.row (s.wrote i) p)
    (alone : p.editing = true → ∀ j, j ≠ i → (s.pc j).editing = false) :
    Inv token (s.goto i p) := by
  refine ⟨inv.expected, ?_, ?_, inv.moved, inv.writer⟩
  · intro j
    by_cases same : j = i
    · subst same
      simpa [System.goto] using here
    · simpa [System.goto, same] using inv.here j
  · intro j k hj hk
    by_cases sameJ : j = i
    · by_cases sameK : k = i
      · exact sameJ.trans sameK.symm
      · subst sameJ
        simp only [System.goto, Function.update_self, Function.update_of_ne sameK] at hj hk
        simp [alone hj k sameK] at hk
    · by_cases sameK : k = i
      · subst sameK
        simp only [System.goto, Function.update_self, Function.update_of_ne sameJ] at hj hk
        simp [alone hk j sameJ] at hj
      · simp only [System.goto, Function.update_of_ne sameJ, Function.update_of_ne sameK] at hj hk
        exact inv.alone j k hj hk

omit [DecidableEq ι] in
theorem Inv.others {token : Nat} {s : System ι} (inv : Inv token s) {i : ι}
    (editing : (s.pc i).editing = true) : ∀ j, j ≠ i → (s.pc j).editing = false := by
  intro j apart
  apply Bool.eq_false_iff.mpr
  exact fun hj => apart (inv.alone j i hj editing)

omit [DecidableEq ι] in
theorem Inv.revision_of_editing {token : Nat} {s : System ι} (inv : Inv token s) {i : ι}
    (editing : (s.pc i).editing = true) : s.wrote i = false ∧ s.row.revision = token := by
  have here := inv.here i
  cases e : s.pc i with
  | checked index => rw [e] at here; exact here
  | prepared content index now => rw [e] at here; exact here
  | compared content index updatedAt raiseEdited => rw [e] at here; exact ⟨here.1, here.2.1⟩
  | start => simp [e, Pc.editing] at editing
  | written => simp [e, Pc.editing] at editing
  | unchanged => simp [e, Pc.editing] at editing
  | finished o => simp [e, Pc.editing] at editing

theorem checkRow_local {token : Nat} {row : MessageRow} {call : Call} {participant : Bool}
    (expected : call.expectedEditedAt = some token) :
    Local token row false (checkRow row call participant) := by
  unfold checkRow
  split
  · trivial
  · split
    · trivial
    · rw [expected]
      simp only
      split
      · rfl
      · rename_i same
        exact ⟨rfl, (not_not.mp same).symm⟩

theorem Inv.write {token : Nat} {s : System ι} (inv : Inv token s) {i : ι} {content index : Text}
    {updatedAt : Nat} {raiseEdited : Bool}
    (compared : s.pc i = .compared content index updatedAt raiseEdited) :
    Inv token { s.goto i .written with
      row := s.row.rewrite content (some index) updatedAt raiseEdited
      wrote := Function.update s.wrote i true } := by
  have editing : (s.pc i).editing = true := by rw [compared]; rfl
  have others := inv.others editing
  have here := inv.here i
  rw [compared] at here
  obtain ⟨-, same, later, moves⟩ := here
  have untouched : ∀ j, s.wrote j = false := by
    intro j
    apply Bool.eq_false_iff.mpr
    intro hj
    have := inv.moved j hj
    omega
  have revision : (s.row.rewrite content (some index) updatedAt raiseEdited).revision = updatedAt :=
    revision_rewrite (Nat.zero_lt_of_lt later) moves
  refine ⟨inv.expected, ?_, ?_, ?_, ?_⟩
  · intro j
    by_cases apart : j = i
    · subst apart
      simp [System.goto, Local]
    · have idle := others j apart
      have before := inv.here j
      simp only [System.goto, Function.update_of_ne apart]
      cases e : s.pc j with
      | checked index => simp [e, Pc.editing] at idle
      | prepared content index now => simp [e, Pc.editing] at idle
      | compared content index updatedAt raiseEdited => simp [e, Pc.editing] at idle
      | start => rw [e] at before; exact before
      | written => rw [e] at before; exact before
      | unchanged => rw [e] at before; exact before
      | finished o => rw [e] at before; cases o <;> exact before
  · intro j k hj hk
    by_cases apartJ : j = i
    · subst apartJ
      simp [System.goto, Pc.editing] at hj
    · simp [System.goto, Function.update_of_ne apartJ, others j apartJ] at hj
  · intro j _
    exact Nat.lt_of_lt_of_eq later revision.symm
  · intro j k hj hk
    by_cases apartJ : j = i
    · by_cases apartK : k = i
      · exact apartJ.trans apartK.symm
      · simp [Function.update_of_ne apartK, untouched k] at hk
    · simp [Function.update_of_ne apartJ, untouched j] at hj

theorem step_inv {cfg : Config} {token : Nat} {s t : System ι} {a : Action ι} (inv : Inv token s)
    (ok : Serial cfg s a) (next : step cfg s a = some t) : Inv token t := by
  cases a with
  | read i participant =>
    simp only [step] at next
    split at next
    · rename_i start
      cases next
      have here := inv.here i
      rw [start] at here
      have untouched : s.wrote i = false := here
      exact inv.goto (untouched ▸ checkRow_local (inv.expected i)) fun _ => ok
    · cases next
  | prepare i filtered stored now =>
    simp only [step] at next
    split at next
    · rename_i index checked
      have editing : (s.pc i).editing = true := by rw [checked]; rfl
      obtain ⟨p, prepared, rfl⟩ := Option.map_eq_some_iff.mp next
      apply inv.goto _ fun _ => inv.others editing
      unfold prepare at prepared
      split at prepared
      · cases prepared
        trivial
      · cases prepared
        trivial
      · rename_i content
        split at prepared
        · rename_i same
          simp [Serial, noop, checked, same] at ok
        · split at prepared
          · cases prepared
          · cases prepared
            exact inv.revision_of_editing editing
    · cases next
  | compare i =>
    simp only [step] at next
    split at next
    · rename_i content index now prepared
      cases next
      have editing : (s.pc i).editing = true := by rw [prepared]; rfl
      obtain ⟨untouched, same⟩ := inv.revision_of_editing editing
      apply inv.goto _ fun _ => inv.others editing
      refine ⟨untouched, same, ?_, ?_⟩
      · have le := revision_le_prior s.row
        have lt := prior_lt_next s.row now
        omega
      · by_cases unset : s.row.editedAt.getD 0 = 0
        · exact .inr unset
        · simp only [Serial, stays, prepared, ne_eq, unset, not_false_eq_true, decide_true,
            Bool.and_true, decide_eq_false_iff_not] at ok
          exact .inl (decide_eq_true ok)
    · cases next
  | write i =>
    simp only [step] at next
    split at next
    · rename_i content index updatedAt raiseEdited compared
      cases next
      exact inv.write compared
    · cases next
  | reload i found =>
    simp only [step] at next
    have here := inv.here i
    split at next
    · rename_i written
      cases next
      rw [written] at here
      apply inv.goto
      · cases found with
        | true => exact here
        | false => trivial
      · intro h
        cases h
    · rename_i unchanged
      rw [unchanged] at here
      exact here.elim
    · cases next

omit [DecidableEq ι] in
theorem oneWins_of_inv {token : Nat} {s : System ι} (inv : Inv token s) : OneWins s := by
  have wrote : ∀ i, s.pc i = .finished .success → s.wrote i = true := by
    intro i success
    have here := inv.here i
    rw [success] at here
    exact here
  have single : ∀ i j, s.pc i = .finished .success → s.pc j = .finished .success → i = j :=
    fun i j hi hj => inv.writer i j (wrote i hi) (wrote j hj)
  refine ⟨single, ?_, ?_⟩
  · intro i j success apart
    constructor
    · apply Bool.eq_false_iff.mpr
      exact fun hj => apart (inv.writer j i hj (wrote i success))
    · intro o finished
      cases o with
      | success => exact absurd (single j i finished success) apart
      | conflict expected actual => exact .inl ⟨expected, actual, rfl⟩
      | refused r => exact .inr ⟨r, rfl⟩
  · intro i expected actual finished
    have here := inv.here i
    rw [finished] at here
    exact here

def sampleRow : MessageRow := ⟨1, false, 0, ['a'], none, some ['a'], 5, false, none⟩

def sampleConfig : Config := ⟨false, id⟩

def twoTabs : System Bool :=
  ⟨sampleRow, fun i => ⟨1, if i then ['b'] else ['c'], some 5⟩, fun _ => .start, fun _ => false⟩

def editing (i : ι) (content : Text) (now : Nat) : List (Action ι) :=
  [.read i true, .prepare i (.sanitized content) content now, .compare i, .write i,
    .reload i true]

instance (cfg : Config) (s : System Bool) : (a : Action Bool) → Decidable (Serial cfg s a)
  | .read i _ => inferInstanceAs (Decidable (∀ j, j ≠ i → (s.pc j).editing = false))
  | .prepare i filtered _ _ => inferInstanceAs (Decidable (noop cfg (s.pc i) filtered = false))
  | .compare i => inferInstanceAs (Decidable (stays s.row (s.pc i) = false))
  | .write _ | .reload .. => isTrue trivial

end Edit

end Plexichat.Messaging
