import Mathlib.Data.Fintype.Fin
import Mathlib.Tactic.FinCases
import Plexichat.Library.Interleaving
import Plexichat.Media.Chunked

/-! Chunk uploads of one session that run side by side. -/
namespace Plexichat.Media.ChunkProgress
open Transition Interleaving

/-- The clock in milliseconds, the session, and the index and length of every chunk whose upload
was reported as a success. -/
structure Shared where
  clock : Nat
  upload : Upload
  reported : List (Nat × Nat)

inductive Phase where
  | idle
  | recording (index length now retries : Nat)
  /-- The row is read. -/
  | fetched (index length now retries : Nat) (read : UploadSession)

inductive Action where
  | tick
  /-- The checks and the temp file. -/
  | «begin» (c : Call)
  | advance

variable (sha256 : Bytes → List Char)

def next (s : Shared) (p : Phase) : Action → Option (Shared × Phase)
  | .tick => some ({ s with clock := s.clock + 1 }, p)
  | .begin c =>
    match p with
    | .idle =>
      if c.request.now = s.clock then
        match c.store sha256 s.upload with
        | .refused t _ => some ({ s with upload := t }, .idle)
        | .stored file index length =>
          some ({ s with upload := ⟨s.upload.session, file⟩ },
            .recording index length s.clock maxRetries)
      else none
    | _ => none
  | .advance =>
    match p with
    | .idle => none
    -- the call reports a conflict
    | .recording _ _ _ 0 => some (s, .idle)
    | .recording index length now (retries + 1) =>
      some (s, .fetched index length now retries s.upload.session)
    | .fetched index length now retries read =>
      match s.upload.session.update read index length now with
      | some t => some ({ s with
          upload := ⟨t, s.upload.file⟩, reported := s.reported ++ [(index, length)] }, .idle)
      | none => some (s, .recording index length now retries)

abbrev World (ι : Type) := Interleaving.State ι Shared Phase

variable {ι : Type}

def init (s : World ι) : Prop :=
  (∃ config userId totalSize now, createSession config userId totalSize now = some s.shared.upload) ∧
    s.shared.reported = [] ∧ ∀ i, s.pc i = .idle

/-- The time that lands in `updated_at` is not what another call has read there. -/
def Apart (s : World ι) (a : ι × Action) : Prop :=
  match a.2, s.pc a.1 with
  | .advance, .fetched _ _ now _ read => s.shared.upload.session.updatedAt = read.updatedAt →
    ∀ j ≠ a.1, ∀ index length late retries other,
      s.pc j = .fetched index length late retries other → other.updatedAt ≠ now
  | _, _ => True

def lengthOf (reported : List (Nat × Nat)) (index : Nat) : Nat :=
  ((reported.find? (·.1 = index)).map (·.2)).getD 0

structure Shared.Exact (s : Shared) : Prop where
  indexes : ∀ index, index ∈ s.upload.session.received ↔ ∃ length, (index, length) ∈ s.reported
  bytes : s.upload.session.uploadedBytes =
    ∑ index ∈ s.upload.session.received, lengthOf s.reported index

def Current (s : Shared) : Phase → Prop
  | .fetched _ _ _ _ read => read.updatedAt = s.upload.session.updatedAt →
    read.receivedChunks = s.upload.session.receivedChunks ∧
      read.uploadedBytes = s.upload.session.uploadedBytes
  | _ => True

theorem lengthOf_append {reported : List (Nat × Nat)} {index length : Nat} {j : Nat}
    (known : ∃ l, (j, l) ∈ reported) :
    lengthOf (reported ++ [(index, length)]) j = lengthOf reported j := by
  have found : (reported.find? (·.1 = j)).isSome := by
    obtain ⟨l, member⟩ := known
    exact List.find?_isSome.mpr ⟨(j, l), member, decide_eq_true rfl⟩
  rw [lengthOf, List.find?_append, Option.or_of_isSome found, lengthOf]

theorem lengthOf_new {reported : List (Nat × Nat)} {index length : Nat}
    (unknown : ¬∃ l, (index, l) ∈ reported) :
    lengthOf (reported ++ [(index, length)]) index = length := by
  have missing : reported.find? (·.1 = index) = none := by
    refine List.find?_eq_none.mpr ?_
    intro p member here
    exact unknown ⟨p.2, (of_decide_eq_true here) ▸ member⟩
  simp [lengthOf, List.find?_append, missing]

theorem Shared.Exact.record {s : Shared} (exact : s.Exact) {read t : UploadSession}
    {index length now : Nat} (received : read.receivedChunks = s.upload.session.receivedChunks)
    (bytes : read.uploadedBytes = s.upload.session.uploadedBytes)
    (lands : s.upload.session.update read index length now = some t) :
    Shared.Exact { s with
      upload := ⟨t, s.upload.file⟩, reported := s.reported ++ [(index, length)] } := by
  have same : read.received = s.upload.session.received := by
    simp only [UploadSession.received, received]
  unfold UploadSession.update at lands
  split at lands
  case isFalse => cases lands
  cases lands
  constructor
  case indexes =>
    intro j
    show j ∈ insert index read.received ↔ _
    rw [same, Finset.mem_insert, exact.indexes]
    constructor
    · rintro (rfl | ⟨l, member⟩)
      · exact ⟨length, List.mem_append_right _ (List.mem_singleton.mpr rfl)⟩
      · exact ⟨l, List.mem_append_left _ member⟩
    · rintro ⟨l, member⟩
      rcases List.mem_append.mp member with old | new
      · exact .inr ⟨l, old⟩
      · cases List.mem_singleton.mp new
        exact .inl rfl
  case bytes =>
    show (if index ∈ read.received then read.uploadedBytes else read.uploadedBytes + length) =
      ∑ j ∈ insert index read.received, lengthOf (s.reported ++ [(index, length)]) j
    have old : ∑ j ∈ s.upload.session.received, lengthOf (s.reported ++ [(index, length)]) j =
        s.upload.session.uploadedBytes := by
      rw [exact.bytes]
      refine Finset.sum_congr rfl ?_
      intro j member
      exact lengthOf_append ((exact.indexes j).mp member)
    rw [same, bytes]
    by_cases known : index ∈ s.upload.session.received
    · rw [if_pos known, Finset.insert_eq_of_mem known, old]
    · rw [if_neg known, Finset.sum_insert known, old,
        lengthOf_new ((exact.indexes index).not.mp known), Nat.add_comm]

section Refused

variable {sha256}

theorem screen_keeps {s session : UploadSession} {r : Request} {result : ChunkUploadResult}
    (error : s.screen r = .error (session, result)) :
    session = s ∨ session = { s with status := .expired } := by
  unfold UploadSession.screen at error
  split at error
  · cases error
    exact .inl rfl
  split at error
  · cases error
    exact .inr rfl
  split at error
  · cases error
    exact .inl rfl
  · cases error

theorem store_refused {s t : Upload} {c : Call} {result : ChunkUploadResult}
    (refused : c.store sha256 s = .refused t result) :
    t.session = s.session ∨ t.session = { s.session with status := .expired } := by
  cases c with
  | chunk r chunkData =>
    simp only [Call.store, Upload.storeChunk] at refused
    split at refused
    · rename_i error
      cases refused
      exact screen_keeps error
    · split at refused
      · cases refused
        exact .inl rfl
      split at refused
      · cases refused
        exact .inl rfl
      split at refused
      · cases refused
        exact .inl rfl
      · cases refused
  | stream r reads =>
    simp only [Call.store, Upload.storeStream] at refused
    split at refused
    · rename_i error
      cases refused
      exact screen_keeps error
    · split at refused
      · cases refused
        exact .inl rfl
      · cases refused
        exact .inl rfl
      · cases refused
        exact .inl rfl
      · split at refused
        · cases refused
          exact .inl rfl
        · cases refused

end Refused

theorem Shared.Exact.same {s t : Shared} (exact : s.Exact) (reported : t.reported = s.reported)
    (received : t.upload.session.receivedChunks = s.upload.session.receivedChunks)
    (bytes : t.upload.session.uploadedBytes = s.upload.session.uploadedBytes) : t.Exact := by
  have same : t.upload.session.received = s.upload.session.received := by
    simp only [UploadSession.received, received]
  constructor
  case indexes => simpa only [same, reported] using exact.indexes
  case bytes => simpa only [same, reported, bytes] using exact.bytes

theorem Current.same {s t : Shared} {p : Phase} (current : Current s p)
    (received : t.upload.session.receivedChunks = s.upload.session.receivedChunks)
    (bytes : t.upload.session.uploadedBytes = s.upload.session.uploadedBytes)
    (time : t.upload.session.updatedAt = s.upload.session.updatedAt) : Current t p := by
  cases p with
  | idle => trivial
  | recording => trivial
  | fetched index length now retries read =>
    intro same
    rw [received, bytes]
    exact current (same.trans time)

variable {sha256}

inductive Moved (s : Shared) : Phase → Action → Shared × Phase → Prop
  | kept (p q : Phase) (a : Action) (t : Shared) (reported : t.reported = s.reported)
    (received : t.upload.session.receivedChunks = s.upload.session.receivedChunks)
    (bytes : t.upload.session.uploadedBytes = s.upload.session.uploadedBytes)
    (time : t.upload.session.updatedAt = s.upload.session.updatedAt)
    (knows : Current s p → Current t q) : Moved s p a (t, q)
  | recorded (index length now retries : Nat) (read t : UploadSession)
    (lands : s.upload.session.update read index length now = some t) :
    Moved s (.fetched index length now retries read) .advance ({ s with
      upload := ⟨t, s.upload.file⟩, reported := s.reported ++ [(index, length)] }, .idle)

theorem moved_of_next {s : Shared} {p : Phase} {a : Action} {r : Shared × Phase}
    (step : next sha256 s p a = some r) : Moved s p a r := by
  cases a with
  | tick =>
    cases step
    exact .kept p p _ _ rfl rfl rfl rfl fun current => current.same rfl rfl rfl
  | «begin» c =>
    simp only [next] at step
    split at step
    case h_2 => cases step
    split at step
    case isFalse => cases step
    split at step
    · rename_i t result refused
      cases step
      rcases store_refused refused with same | same
      · exact .kept .idle .idle _ _ rfl (by rw [same]) (by rw [same]) (by rw [same]) fun _ => trivial
      · exact .kept .idle .idle _ _ rfl (by rw [same]) (by rw [same]) (by rw [same]) fun _ => trivial
    · cases step
      exact .kept .idle _ _ _ rfl rfl rfl rfl fun _ => trivial
  | advance =>
    cases p with
    | idle => cases step
    | recording index length now retries =>
      cases retries with
      | zero =>
        cases step
        exact .kept _ .idle _ s rfl rfl rfl rfl fun _ => trivial
      | succ retries =>
        cases step
        exact .kept _ _ _ s rfl rfl rfl rfl fun _ _ => ⟨rfl, rfl⟩
    | fetched index length now retries read =>
      simp only [next] at step
      split at step
      · rename_i t lands
        cases step
        exact .recorded index length now retries read t lands
      · cases step
        exact .kept _ _ _ s rfl rfl rfl rfl fun _ => trivial

theorem update_time {s read t : UploadSession} {index length now : Nat}
    (lands : s.update read index length now = some t) :
    s.updatedAt = read.updatedAt ∧ t.updatedAt = now := by
  unfold UploadSession.update at lands
  split at lands
  · rename_i token
    cases lands
    exact ⟨token, rfl⟩
  · cases lands

variable [DecidableEq ι]

theorem exact_throughout {s : World ι} (run : Guarded (step (next sha256)) Apart init s) :
    Holds Shared.Exact Current (fun _ _ => True) s := by
  refine holds_throughout ?_ ?_ run
  · rintro s ⟨⟨config, userId, totalSize, now, created⟩, unreported, idle⟩
    have unsent := (fresh_of_createSession created).unsent
    have empty : s.shared.upload.session.received = ∅ := by
      simp only [UploadSession.received, unsent, Option.getD_none]
    refine ⟨⟨?_, ?_⟩, ?_, fun _ _ _ => trivial⟩
    · simp [empty, unreported]
    · rw [empty, Finset.sum_empty]
      exact (fresh_of_createSession created).zero
    · intro i
      rw [idle i]
      trivial
  · intro s i a r holds apart next
    have moved := moved_of_next next
    generalize own : s.pc i = p at moved
    have mine := own ▸ holds.each i
    cases moved with
    | kept _ q _ t reported received bytes time knows =>
      refine ⟨holds.shared.same reported received bytes, knows mine, ?_⟩
      intro j other
      exact ⟨(holds.each j).same received bytes time, trivial, trivial⟩
    | recorded index length now retries read t lands =>
      obtain ⟨token, late⟩ := update_time lands
      obtain ⟨received, bytes⟩ := mine token.symm
      refine ⟨holds.shared.record received bytes lands, trivial, ?_⟩
      intro j other
      refine ⟨?_, trivial, trivial⟩
      generalize theirs : s.pc j = q
      cases q with
      | idle => trivial
      | recording => trivial
      | fetched index' length' now' retries' read' =>
        -- the time that is written is none that the other call has read
        intro same
        unfold Apart at apart
        rw [own] at apart
        exact absurd (same.trans late) (apart token j other _ _ _ _ _ theirs)

variable (sha256) in
/-- In a run in which no time lands that another call has read, no chunk that was reported is
lost, and the bytes add up. -/
theorem progress_exact (s : World ι) (run : Guarded (step (next sha256)) Apart init s) :
    (∀ p ∈ s.shared.reported, p.1 ∈ s.shared.upload.session.received) ∧
      s.shared.upload.session.uploadedBytes =
        ∑ index ∈ s.shared.upload.session.received, lengthOf s.shared.reported index := by
  have exact := (exact_throughout run).shared
  refine ⟨?_, exact.bytes⟩
  intro p member
  exact (exact.indexes p.1).mpr ⟨p.2, member⟩

def twoChunks : Upload := ⟨⟨1, 3, 2, 2, 0, 0, .pending, 0, 3600000, none⟩, [0, 0, 0]⟩

def first : World (Fin 2) := ⟨⟨0, twoChunks, []⟩, fun _ => .idle⟩

theorem init_first : init first := ⟨⟨⟨2, 10, 3600⟩, 1, 3, 0, rfl⟩, rfl, fun _ => rfl⟩

def chunk (index now : Nat) (chunkData : Bytes) : Call :=
  .chunk ⟨1, index, none, now, none⟩ chunkData

omit [DecidableEq ι] in
theorem apart_alone {s : World ι} {i : ι} (a : Action) (alone : ∀ j ≠ i, s.pc j = .idle) :
    Apart s (i, a) := by
  unfold Apart
  split
  · intro _ j other index length late retries read theirs
    rw [alone j other] at theirs
    cases theirs
  · trivial

theorem progress_exact_two : ∃ s : World (Fin 2), s.shared.reported = [(0, 2), (1, 1)] ∧
    0 ∈ s.shared.upload.session.received ∧ s.shared.upload.session.uploadedBytes = 3 := by
  have zero : ∀ {s : World (Fin 2)}, s.pc 1 = .idle → ∀ j ≠ 0, s.pc j = .idle := by
    intro s idle j other
    fin_cases j
    · exact absurd rfl other
    · exact idle
  have one : ∀ {s : World (Fin 2)}, s.pc 0 = .idle → ∀ j ≠ 1, s.pc j = .idle := by
    intro s idle j other
    fin_cases j
    · exact idle
    · exact absurd rfl other
  have exact := progress_exact (fun _ => []) _
    (.step (a := (1, .advance)) (.step (a := (1, .advance))
      (.step (a := (1, .begin (chunk 1 2 [9]))) (.step (a := (0, .tick))
        (.step (a := (0, .advance)) (.step (a := (0, .advance))
          (.step (a := (0, .begin (chunk 0 1 [7, 8]))) (.step (a := (0, .tick))
            (.start init_first) (apart_alone _ (zero rfl)) rfl) (apart_alone _ (zero rfl)) rfl)
          (apart_alone _ (zero rfl)) rfl) (apart_alone _ (zero rfl)) rfl)
        (apart_alone _ (zero rfl)) rfl) (apart_alone _ (one rfl)) rfl)
      (apart_alone _ (one rfl)) rfl) (apart_alone _ (one rfl)) rfl)
  exact ⟨_, rfl, exact.1 (0, 2) (.head _), exact.2⟩

/-- Two chunks of one millisecond, of which one is lost. -/
theorem progress_lost : ∃ s : World (Fin 2), Reachable (step (next fun _ => [])) init s ∧
    (∀ i, s.pc i = .idle) ∧ s.shared.reported = [(0, 2), (1, 1)] ∧
    s.shared.upload.session.receivedChunks = some {1} ∧
    s.shared.upload.session.uploadedBytes = 1 := by
  refine ⟨_, reachable_of_run [(0, .begin (chunk 0 0 [7, 8])), (1, .begin (chunk 1 0 [9])),
    (0, .advance), (1, .advance), (0, .advance), (1, .advance)] init_first rfl, ?_, rfl, rfl, rfl⟩
  intro i
  fin_cases i <;> rfl

end Plexichat.Media.ChunkProgress
