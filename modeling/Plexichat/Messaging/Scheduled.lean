import Mathlib.Logic.Function.Basic
import Plexichat.Library.Table
import Plexichat.Library.Transition

/-! services/scheduled.py, one database statement at a time. A pass reads the due
rows once and hands them to send one after the other; neither the pass nor a
cancellation looks at the status again before its UPDATE. Attachments and the
timestamps of a row are left out. -/
namespace Plexichat.Messaging.Scheduled
open Transition

inductive Status where
  | pending | dispatched | cancelled | failed
  deriving DecidableEq

/-- A row of msg_scheduled. -/
structure ScheduledRow where
  id : Nat
  conversationId : Nat
  authorId : Nat
  content : String
  scheduledAt : Nat
  status : Status
  messageId : Option Nat

/-- What `send_message` gives back: a message, with its id or without, or an exception. -/
inductive Sent where
  | message (id : Option Nat)
  | raised

inductive Pc where
  | idle
  | creating (row : ScheduledRow)
  | cancelling (id : Nat)
  | passing (due : List ScheduledRow)
  | sent (row : ScheduledRow) (result : Sent) (due : List ScheduledRow)

inductive Event where
  | handed (id : Nat)
  /-- `cancel_scheduled_message` returns True. -/
  | cancelled (id : Nat)
  deriving DecidableEq

structure System (ι : Type) where
  now : Nat
  rows : Table ScheduledRow ScheduledRow.id
  pc : ι → Pc
  /-- Newest first. -/
  log : List Event

inductive Action (ι : Type) where
  | tick (ms : Nat)
  | create (i : ι) (userId conversationId : Nat) (content : String) (scheduledAt id : Nat)
      (participant : Bool)
  | insert (i : ι)
  | cancel (i : ι) (id userId : Nat)
  | markCancelled (i : ι)
  | getDue (i : ι)
  | send (i : ι) (result : Sent)
  | mark (i : ι)

def maxScheduledPerUser : Nat := 50
def minScheduleAheadMs : Nat := 60000
def maxScheduleAheadMs : Nat := 7 * 24 * 3600 * 1000

theorem id_kept (status : Status) (messageId : Option Nat) (r : ScheduledRow) :
    ({ r with status, messageId := messageId.or r.messageId } : ScheduledRow).id = r.id := rfl

/-- `UPDATE msg_scheduled SET status = .. WHERE id = ?`, with the message id when it is given. -/
def setStatus (rows : Table ScheduledRow ScheduledRow.id) (id : Nat) (status : Status)
    (messageId : Option Nat) : Table ScheduledRow ScheduledRow.id :=
  rows.update (fun r => r.id = id)
    (fun r => { r with status, messageId := messageId.or r.messageId }) (id_kept status messageId)

section Steps

variable {ι : Type} [DecidableEq ι]

def System.goto (s : System ι) (i : ι) (p : Pc) : System ι :=
  { s with pc := Function.update s.pc i p }

/-- The checks of `create_scheduled_message`; a refused call raises and is over. -/
def createChecked (s : System ι) (userId scheduledAt : Nat) (participant : Bool) : Bool :=
  s.now + minScheduleAheadMs ≤ scheduledAt && scheduledAt ≤ s.now + maxScheduleAheadMs &&
    (s.rows.rows.filter fun r => r.authorId = userId && r.status = .pending).length <
      maxScheduledPerUser && participant

def cancelChecked (s : System ι) (id userId : Nat) : Bool :=
  (s.rows.find id).any fun r => r.authorId = userId && r.status = .pending

def due (s : System ι) : List ScheduledRow :=
  s.rows.rows.filter fun r => r.status = .pending && r.scheduledAt ≤ s.now

def step (s : System ι) : Action ι → Option (System ι)
  | .tick ms => some { s with now := s.now + ms }
  | .create i userId conversationId content scheduledAt id participant =>
    match s.pc i with
    | .idle =>
      if createChecked s userId scheduledAt participant then
        some (s.goto i (.creating
          ⟨id, conversationId, userId, content, scheduledAt, .pending, none⟩))
      else some s
    | _ => none
  | .insert i =>
    match s.pc i with
    | .creating row => (s.rows.insert row).map fun rows => { s.goto i .idle with rows }
    | _ => none
  | .cancel i id userId =>
    match s.pc i with
    | .idle => if cancelChecked s id userId then some (s.goto i (.cancelling id)) else some s
    | _ => none
  | .markCancelled i =>
    match s.pc i with
    | .cancelling id =>
      some { s.goto i .idle with
        rows := setStatus s.rows id .cancelled none
        log := .cancelled id :: s.log }
    | _ => none
  | .getDue i =>
    match s.pc i with
    | .idle => some (s.goto i (.passing (due s)))
    | _ => none
  | .send i result =>
    match s.pc i with
    | .passing (row :: rest) =>
      some { s.goto i (.sent row result rest) with log := .handed row.id :: s.log }
    | _ => none
  | .mark i =>
    match s.pc i with
    | .sent row (.message (some messageId)) rest =>
      some { s.goto i (.passing rest) with
        rows := setStatus s.rows row.id .dispatched (some messageId) }
    -- without an id there is nothing to mark
    | .sent _ (.message none) rest => some (s.goto i (.passing rest))
    | .sent row .raised rest =>
      some { s.goto i (.passing rest) with rows := setStatus s.rows row.id .failed none }
    | _ => none

end Steps

def Lawful : List Event → Prop
  | [] => True
  | .handed id :: log => .handed id ∉ log ∧ .cancelled id ∉ log ∧ Lawful log
  | .cancelled _ :: log => Lawful log

def Cancelled (rows : Table ScheduledRow ScheduledRow.id) (id : Nat) : Prop :=
  ∃ r, rows.find id = some r ∧ r.status = .cancelled

variable {ι : Type}

def Initial (s : System ι) : Prop := (∀ i, s.pc i = .idle) ∧ s.log = []

def Pc.flight : Pc → Option Nat
  | .sent row _ _ => some row.id
  | _ => none

/-- A row is handed over while it is pending and in nobody else's hands, gets an id from
send, and is not cancelled between send and mark. -/
def Guard (s : System ι) : Action ι → Prop
  | .send i result => result ≠ .message none ∧ ∀ row rest, s.pc i = .passing (row :: rest) →
      (∃ r, s.rows.find row.id = some r ∧ r.status = .pending) ∧
        ∀ j, (s.pc j).flight ≠ some row.id
  | .markCancelled i => ∀ id, s.pc i = .cancelling id → ∀ j, (s.pc j).flight ≠ some id
  | _ => True

theorem find_setStatus (rows : Table ScheduledRow ScheduledRow.id) (id : Nat) (status : Status)
    (messageId : Option Nat) (k : Nat) :
    (setStatus rows id status messageId).find k = (rows.find k).map fun r =>
      if r.id = id then { r with status, messageId := messageId.or r.messageId } else r := by
  unfold setStatus
  rw [Table.find_update]
  simp only [decide_eq_true_eq]

theorem find_setStatus_other {rows : Table ScheduledRow ScheduledRow.id} {id k : Nat}
    (other : k ≠ id) (status : Status) (messageId : Option Nat) :
    (setStatus rows id status messageId).find k = rows.find k := by
  rw [find_setStatus]
  cases found : rows.find k with
  | none => rfl
  | some r =>
    have apart : r.id ≠ id := (Table.find_eq_some.mp found).2.trans_ne other
    rw [Option.map_some, if_neg apart]

theorem find_setStatus_self {rows : Table ScheduledRow ScheduledRow.id} {id : Nat}
    {r : ScheduledRow} (found : rows.find id = some r) (status : Status) (messageId : Option Nat) :
    ∃ q, (setStatus rows id status messageId).find id = some q ∧ q.status = status := by
  rw [find_setStatus, found]
  refine ⟨_, rfl, ?_⟩
  simp only [(Table.find_eq_some.mp found).2, if_true]

structure Inv (s : System ι) : Prop where
  known : ∀ i id, s.pc i = .cancelling id → ∃ r, s.rows.find id = some r
  flying : ∀ i id, (s.pc i).flight = some id → ∃ r, s.rows.find id = some r ∧ r.status = .pending
  named : ∀ i row rest, s.pc i ≠ .sent row (.message none) rest
  alone : ∀ i j id, (s.pc i).flight = some id → (s.pc j).flight = some id → i = j
  handed : ∀ id, .handed id ∈ s.log →
    (∃ r, s.rows.find id = some r ∧ r.status ≠ .pending) ∨ ∃ i, (s.pc i).flight = some id
  cancelled : ∀ id, .cancelled id ∈ s.log → Cancelled s.rows id
  lawful : Lawful s.log

theorem initial_inv {s : System ι} (h : Initial s) : Inv s := by
  obtain ⟨idle, log⟩ := h
  refine ⟨?_, ?_, ?_, ?_, ?_, ?_, ?_⟩
  · intro i id pc
    rw [idle] at pc
    cases pc
  · intro i id flight
    rw [idle] at flight
    cases flight
  · intro i row rest pc
    rw [idle] at pc
    cases pc
  · intro i j id flight
    rw [idle] at flight
    cases flight
  · intro id handed
    rw [log] at handed
    cases handed
  · intro id cancelled
    rw [log] at cancelled
    cases cancelled
  · rw [log]
    trivial

variable [DecidableEq ι]

theorem pc_goto (s : System ι) (i j : ι) (p : Pc) :
    (s.goto i p).pc j = if j = i then p else s.pc j := Function.update_apply s.pc i p j

theorem named_goto {s : System ι} (inv : Inv s) {i : ι} {p : Pc}
    (named : ∀ row rest, p ≠ .sent row (.message none) rest) (j : ι) (row : ScheduledRow)
    (rest : List ScheduledRow) : (s.goto i p).pc j ≠ .sent row (.message none) rest := by
  rw [pc_goto]
  split
  · exact named row rest
  · exact inv.named j row rest

theorem named_of_grounded {p : Pc} (grounded : p.flight = none) (row : ScheduledRow)
    (rest : List ScheduledRow) : p ≠ .sent row (.message none) rest := by
  intro same
  rw [same] at grounded
  cases grounded

theorem flight_goto {s : System ι} {i : ι} {p : Pc} (grounded : p.flight = none) {j : ι} {id : Nat}
    (h : ((s.goto i p).pc j).flight = some id) : (s.pc j).flight = some id ∧ j ≠ i := by
  rw [pc_goto] at h
  split at h
  · rw [grounded] at h
    cases h
  · rename_i other
    exact ⟨h, other⟩

theorem Inv.goto {s : System ι} (inv : Inv s) {i : ι} {p : Pc}
    {rows : Table ScheduledRow ScheduledRow.id}
    (kept : ∀ id r, s.rows.find id = some r → rows.find id = some r)
    (before : (s.pc i).flight = none) (grounded : p.flight = none)
    (target : ∀ id, p = .cancelling id → ∃ r, rows.find id = some r) :
    Inv { s.goto i p with rows } := by
  refine ⟨?_, ?_, named_goto inv (named_of_grounded grounded), ?_, ?_, ?_, inv.lawful⟩
  · intro j id pc
    have moved : (s.goto i p).pc j = .cancelling id := pc
    rw [pc_goto] at moved
    split at moved
    · exact target id moved
    · obtain ⟨r, found⟩ := inv.known j id moved
      exact ⟨r, kept id r found⟩
  · intro j id flight
    obtain ⟨r, found, pending⟩ := inv.flying j id (flight_goto grounded flight).1
    exact ⟨r, kept id r found, pending⟩
  · intro j k id hj hk
    exact inv.alone j k id (flight_goto grounded hj).1 (flight_goto grounded hk).1
  · intro id handed
    cases inv.handed id handed with
    | inl settled =>
      obtain ⟨r, found, ended⟩ := settled
      exact .inl ⟨r, kept id r found, ended⟩
    | inr flying =>
      obtain ⟨j, flight⟩ := flying
      have other : j ≠ i := by
        intro same
        rw [same, before] at flight
        cases flight
      refine .inr ⟨j, ?_⟩
      show ((s.goto i p).pc j).flight = some id
      rw [pc_goto, if_neg other]
      exact flight
  · intro id cancelled
    obtain ⟨r, found, status⟩ := inv.cancelled id cancelled
    exact ⟨r, kept id r found, status⟩

theorem Inv.send {s : System ι} (inv : Inv s) {i : ι} {result : Sent} {row : ScheduledRow}
    {rest : List ScheduledRow} (named : result ≠ .message none)
    (pc : s.pc i = .passing (row :: rest))
    (pending : ∃ r, s.rows.find row.id = some r ∧ r.status = .pending)
    (free : ∀ j, (s.pc j).flight ≠ some row.id) :
    Inv { s.goto i (.sent row result rest) with log := .handed row.id :: s.log } := by
  obtain ⟨r, found, status⟩ := pending
  have flights : ∀ j id, ((s.goto i (.sent row result rest)).pc j).flight = some id →
      (j = i ∧ id = row.id) ∨ (j ≠ i ∧ (s.pc j).flight = some id) := by
    intro j id h
    rw [pc_goto] at h
    split at h
    · rename_i same
      exact .inl ⟨same, (Option.some.inj h).symm⟩
    · rename_i other
      exact .inr ⟨other, h⟩
  have self : ((s.goto i (.sent row result rest)).pc i).flight = some row.id := by
    rw [pc_goto, if_pos rfl]
    rfl
  refine ⟨?_, ?_, named_goto inv ?_, ?_, ?_, ?_, ?_⟩
  · intro j id moved
    have moved : (s.goto i (.sent row result rest)).pc j = .cancelling id := moved
    rw [pc_goto] at moved
    split at moved
    · cases moved
    · exact inv.known j id moved
  · intro j id flight
    cases flights j id flight with
    | inl here =>
      obtain ⟨_, rfl⟩ := here
      exact ⟨r, found, status⟩
    | inr there => exact inv.flying j id there.2
  · intro q qs same
    cases same
    exact named rfl
  · intro j k id hj hk
    cases flights j id hj with
    | inl here =>
      cases flights k id hk with
      | inl here' => exact here.1.trans here'.1.symm
      | inr there => exact absurd (here.2 ▸ there.2) (free k)
    | inr there =>
      cases flights k id hk with
      | inl here => exact absurd (here.2 ▸ there.2) (free j)
      | inr there' => exact inv.alone j k id there.2 there'.2
  · intro id handed
    cases List.mem_cons.mp handed with
    | inl now =>
      cases now
      exact .inr ⟨i, self⟩
    | inr earlier =>
      cases inv.handed id earlier with
      | inl settled => exact .inl settled
      | inr flying =>
        obtain ⟨j, flight⟩ := flying
        have other : j ≠ i := by
          intro same
          rw [same, pc] at flight
          cases flight
        refine .inr ⟨j, ?_⟩
        show ((s.goto i (.sent row result rest)).pc j).flight = some id
        rw [pc_goto, if_neg other]
        exact flight
  · intro id cancelled
    cases List.mem_cons.mp cancelled with
    | inl impossible => cases impossible
    | inr earlier => exact inv.cancelled id earlier
  · refine ⟨?_, ?_, inv.lawful⟩
    · intro earlier
      cases inv.handed row.id earlier with
      | inl settled =>
        obtain ⟨q, found', ended⟩ := settled
        cases found.symm.trans found'
        exact ended status
      | inr flying =>
        obtain ⟨j, flight⟩ := flying
        exact free j flight
    · intro earlier
      obtain ⟨q, found', cancelled⟩ := inv.cancelled row.id earlier
      cases found.symm.trans found'
      rw [status] at cancelled
      cases cancelled

theorem Inv.setStatus {s : System ι} (inv : Inv s) {i : ι} {p : Pc} {id : Nat} {status : Status}
    {messageId : Option Nat} (grounded : p.flight = none) (idle : ∀ k, p ≠ .cancelling k)
    (ended : status ≠ .pending) (found : ∃ r, s.rows.find id = some r)
    (mine : ∀ j, (s.pc j).flight = some id → j = i)
    (only : ∀ k, (s.pc i).flight = some k → k = id)
    (kept : Cancelled s.rows id → status = .cancelled) :
    Inv { s.goto i p with rows := setStatus s.rows id status messageId } := by
  obtain ⟨r, found⟩ := found
  obtain ⟨q, written, statusQ⟩ := find_setStatus_self found status messageId
  refine ⟨?_, ?_, named_goto inv (named_of_grounded grounded), ?_, ?_, ?_, inv.lawful⟩
  · intro j k pc
    have moved : (s.goto i p).pc j = .cancelling k := pc
    rw [pc_goto] at moved
    split at moved
    · exact absurd moved (idle k)
    · obtain ⟨r', found'⟩ := inv.known j k moved
      by_cases same : k = id
      · exact ⟨q, same ▸ written⟩
      · exact ⟨r', (find_setStatus_other same status messageId).trans found'⟩
  · intro j k flight
    obtain ⟨flight', other⟩ := flight_goto grounded flight
    have apart : k ≠ id := by
      intro same
      exact other (mine j (same ▸ flight'))
    obtain ⟨r', found', pending⟩ := inv.flying j k flight'
    exact ⟨r', (find_setStatus_other apart status messageId).trans found', pending⟩
  · intro j k id' hj hk
    exact inv.alone j k id' (flight_goto grounded hj).1 (flight_goto grounded hk).1
  · intro k handed
    by_cases same : k = id
    · exact .inl ⟨q, same ▸ written, statusQ ▸ ended⟩
    · cases inv.handed k handed with
      | inl settled =>
        obtain ⟨r', found', ended'⟩ := settled
        exact .inl ⟨r', (find_setStatus_other same status messageId).trans found', ended'⟩
      | inr flying =>
        obtain ⟨j, flight⟩ := flying
        have other : j ≠ i := by
          intro here
          exact same (only k (here ▸ flight))
        refine .inr ⟨j, ?_⟩
        show ((s.goto i p).pc j).flight = some k
        rw [pc_goto, if_neg other]
        exact flight
  · intro k cancelled
    have before := inv.cancelled k cancelled
    by_cases same : k = id
    · subst same
      exact ⟨q, written, statusQ.trans (kept before)⟩
    · obtain ⟨r', found', status'⟩ := before
      exact ⟨r', (find_setStatus_other same status messageId).trans found', status'⟩

omit [DecidableEq ι] in
theorem Inv.logCancelled {s : System ι} (inv : Inv s) {id : Nat} (cancelled : Cancelled s.rows id) :
    Inv { s with log := .cancelled id :: s.log } := by
  refine ⟨inv.known, inv.flying, inv.named, inv.alone, ?_, ?_, inv.lawful⟩
  · intro k handed
    cases List.mem_cons.mp handed with
    | inl impossible => cases impossible
    | inr earlier => exact inv.handed k earlier
  · intro k logged
    cases List.mem_cons.mp logged with
    | inl now =>
      cases now
      exact cancelled
    | inr earlier => exact inv.cancelled k earlier

def StillCancelled (s t : System ι) : Prop := ∀ id, Cancelled s.rows id → Cancelled t.rows id

theorem stillCancelled_of_setStatus {rows : Table ScheduledRow ScheduledRow.id} {id k : Nat}
    {status : Status} {messageId : Option Nat} (kept : Cancelled rows id → status = .cancelled)
    (before : Cancelled rows k) : Cancelled (setStatus rows id status messageId) k := by
  obtain ⟨r, found, cancelled⟩ := before
  by_cases same : k = id
  · subst same
    obtain ⟨q, written, status'⟩ := find_setStatus_self found status messageId
    exact ⟨q, written, status'.trans (kept ⟨r, found, cancelled⟩)⟩
  · exact ⟨r, (find_setStatus_other same status messageId).trans found, cancelled⟩

theorem step_lawful {s t : System ι} {a : Action ι} (inv : Inv s) (guard : Guard s a)
    (next : step s a = some t) : Inv t ∧ StillCancelled s t := by
  cases a with
  | tick ms =>
    cases Option.some.inj next
    exact ⟨⟨inv.known, inv.flying, inv.named, inv.alone, inv.handed, inv.cancelled, inv.lawful⟩,
      fun _ h => h⟩
  | create i userId conversationId content scheduledAt id participant =>
    simp only [step] at next
    split at next
    · rename_i idle
      split at next
      · cases Option.some.inj next
        refine ⟨inv.goto (fun _ _ found => found) (by rw [idle]; rfl) rfl ?_, fun _ h => h⟩
        intro k impossible
        cases impossible
      · cases Option.some.inj next
        exact ⟨inv, fun _ h => h⟩
    · cases next
  | insert i =>
    simp only [step] at next
    split at next
    · rename_i row creating
      obtain ⟨rows, inserted, rfl⟩ := Option.map_eq_some_iff.mp next
      have kept : ∀ k r, s.rows.find k = some r → rows.find k = some r := by
        intro k r found
        have apart : row.id ≠ k := by
          intro same
          rw [← same, (Table.insert_eq_some inserted).1] at found
          cases found
        rw [Table.find_insert inserted, if_neg apart]
        exact found
      refine ⟨inv.goto kept (by rw [creating]; rfl) rfl ?_, ?_⟩
      · intro k impossible
        cases impossible
      · intro k before
        obtain ⟨r, found, cancelled⟩ := before
        exact ⟨r, kept k r found, cancelled⟩
    · cases next
  | cancel i id userId =>
    simp only [step] at next
    split at next
    · rename_i idle
      split at next
      · rename_i checked
        cases Option.some.inj next
        obtain ⟨r, found, _⟩ := (Option.any_eq_true _ _).mp checked
        refine ⟨inv.goto (fun _ _ found => found) (by rw [idle]; rfl) rfl ?_, fun _ h => h⟩
        intro k target
        cases target
        exact ⟨r, found⟩
      · cases Option.some.inj next
        exact ⟨inv, fun _ h => h⟩
    · cases next
  | markCancelled i =>
    simp only [step] at next
    split at next
    · rename_i id cancelling
      cases Option.some.inj next
      obtain ⟨r, found⟩ := inv.known i id cancelling
      have marked : Inv { s.goto i .idle with rows := setStatus s.rows id .cancelled none } := by
        apply inv.setStatus rfl (by simp) (by decide) ⟨r, found⟩
        · intro j flight
          exact absurd flight (guard id cancelling j)
        · intro k flight
          rw [cancelling] at flight
          cases flight
        · exact fun _ => rfl
      exact ⟨marked.logCancelled (find_setStatus_self found .cancelled none), fun k before =>
        stillCancelled_of_setStatus (fun _ => rfl) before⟩
    · cases next
  | getDue i =>
    simp only [step] at next
    split at next
    · rename_i idle
      cases Option.some.inj next
      refine ⟨inv.goto (fun _ _ found => found) (by rw [idle]; rfl) rfl ?_, fun _ h => h⟩
      intro k impossible
      cases impossible
    · cases next
  | send i result =>
    simp only [step] at next
    split at next
    · rename_i row rest passing
      cases Option.some.inj next
      obtain ⟨pending, free⟩ := guard.2 row rest passing
      exact ⟨inv.send guard.1 passing pending free, fun _ h => h⟩
    · cases next
  | mark i =>
    have settled : ∀ {row : ScheduledRow} {result rest} (status : Status) (messageId : Option Nat),
        status ≠ .pending → s.pc i = .sent row result rest →
        Inv { s.goto i (.passing rest) with rows := setStatus s.rows row.id status messageId } ∧
          StillCancelled s
            { s.goto i (.passing rest) with rows := setStatus s.rows row.id status messageId } := by
      intro row result rest status messageId ended sent
      have flight : (s.pc i).flight = some row.id := by rw [sent]; rfl
      obtain ⟨r, found, pending⟩ := inv.flying i row.id flight
      have kept : Cancelled s.rows row.id → status = .cancelled := by
        intro cancelled
        obtain ⟨q, found', cancelled⟩ := cancelled
        cases found.symm.trans found'
        rw [pending] at cancelled
        cases cancelled
      refine ⟨inv.setStatus rfl (by simp) ended ⟨r, found⟩ ?_ ?_ kept, fun k before =>
        stillCancelled_of_setStatus kept before⟩
      · intro j flight'
        exact inv.alone j i row.id flight' flight
      · intro k flight'
        exact Option.some.inj (flight'.symm.trans flight)
    simp only [step] at next
    split at next
    · rename_i row messageId rest sent
      cases Option.some.inj next
      exact settled .dispatched (some messageId) (by decide) sent
    · rename_i row rest sent
      exact absurd sent (inv.named i row rest)
    · rename_i row rest sent
      cases Option.some.inj next
      exact settled .failed none (by decide) sent
    · cases next

/-- Along every run whose steps meet the guard, each row is handed to send at most once and
not after its cancellation, and a cancelled row stays cancelled. -/
theorem sends_once_and_cancels_for_good {s t : System ι} (h : Guarded step Guard Initial s)
    (onward : Guarded step Guard (· = s) t) : Lawful t.log ∧ StillCancelled s t := by
  have here : Inv s := by
    apply guarded_invariant (fun _ => initial_inv) _ h
    intro s a t inv guard next
    exact (step_lawful inv guard next).1
  have moved := guarded_relation (I := Inv) (R := StillCancelled) (fun _ _ h => h)
    (fun _ _ _ first second k h => second k (first k h))
    (fun _ _ _ inv guard next => step_lawful inv guard next) here onward
  exact ⟨moved.1.lawful, moved.2⟩

def oneDue : System Bool where
  now := 100
  rows := ⟨[⟨1, 5, 7, "hello", 60, .pending, none⟩], by decide⟩
  pc := fun _ => .idle
  log := []

theorem two_passes_send_twice : ¬ ∀ s t : System Bool, Reachable step Initial s →
    Reachable step (· = s) t → Lawful t.log ∧ StillCancelled s t := by
  intro law
  let passes : List (Action Bool) :=
    [.getDue true, .getDue false, .send true (.message (some 10)), .send false (.message (some 11))]
  have ends : (run step oneDue passes).isSome = true := by decide
  have onward : Reachable step (· = oneDue) ((run step oneDue passes).get ends) :=
    reachable_of_run passes rfl (Option.some_get ends).symm
  have lawful := (law oneDue _ (.start ⟨fun _ => rfl, rfl⟩) onward).1
  exact lawful.1 (List.mem_cons_self)

/-- The message is cancelled, and the pass that comes later finds nothing to send. -/
theorem cancelled_message_rests : ∃ t : System Bool, t.log = [.cancelled 1] ∧ Lawful t.log ∧
    StillCancelled oneDue t := by
  have start : Guarded step Guard Initial oneDue := .start ⟨fun _ => rfl, rfl⟩
  have asked : Guarded step Guard (· = oneDue) (oneDue.goto true (.cancelling 1)) :=
    .step (a := .cancel true 1 7) (.start rfl) trivial rfl
  have free : Guard (oneDue.goto true (.cancelling 1)) (.markCancelled true) := by
    intro id _ j
    cases j with
    | true => exact nofun
    | false => exact nofun
  have cancelled := Guarded.step (a := Action.markCancelled true) asked free rfl
  have passed := Guarded.step (a := Action.getDue false) cancelled trivial rfl
  exact ⟨_, rfl, sends_once_and_cancels_for_good start passed⟩

end Plexichat.Messaging.Scheduled
