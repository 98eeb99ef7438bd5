import Mathlib.Data.Finset.Range
import Plexichat.Library.Transition
import Plexichat.Media.Chunked

/-! The temp file of an upload session after any calls, one at a time. -/
namespace Plexichat.Media
open Transition

def contents : List (Except String Bytes) → Bytes
  | [] | .error _ :: _ => []
  | .ok chunk :: reads => if chunk.isEmpty then [] else chunk ++ contents reads

def Call.data : Call → Bytes
  | chunk _ chunkData => chunkData
  | stream _ reads => contents reads

/-- A call that passes the checks before its first byte has the whole chunk and no error on the
way, or it fails before that byte. -/
def Call.Whole (sha256 : Bytes → List Char) (s : UploadSession) (c : Call) : Prop :=
  match s.screen c.request with
  | .error _ => True
  | .ok index =>
    match c with
    | chunk r chunkData =>
      mismatch sha256 r.checksum chunkData = true ∨ s.maxLen index < chunkData.length ∨
        (∃ e, r.disk = some (0, e)) ∨ chunkData.length = s.maxLen index ∧ r.disk = none
    | stream r reads =>
      match r.disk, Upload.readStream (s.maxLen index) [] reads with
      | none, (written, .ended) => written.length = s.maxLen index ∧
        mismatch sha256 r.checksum written = false
      | none, (written, _) => written = []
      | some (n, _), (written, _) => written.take n = []

structure World where
  upload : Upload
  last : Nat → Option Bytes

namespace World

def start (s : Upload) : World := ⟨s, fun _ => none⟩

variable (sha256 : Bytes → List Char)

def after (w : World) (c : Call) : World :=
  let (upload, result) := c.run sha256 w.upload
  ⟨upload, if result.success then Function.update w.last c.request.index.toNat (some c.data)
    else w.last⟩

def step (w : World) (c : Call) : Option World := some (w.after sha256 c)

def Assembled (w : World) : Prop :=
  w.upload.file = (List.range w.upload.session.totalChunks).flatMap (fun i => (w.last i).getD []) ∧
    ∀ i < w.upload.session.totalChunks, ∃ d, w.last i = some d ∧
      d.length = w.upload.session.maxLen i

end World

def SameProgress (s t : Upload) : Prop :=
  t.file = s.file ∧ t.session.receivedChunks = s.session.receivedChunks ∧
    t.session.uploadedChunks = s.session.uploadedChunks ∧
    t.session.uploadedBytes = s.session.uploadedBytes

section Calls

variable {sha256 : Bytes → List Char}

theorem readStream_ended {maxLen : Nat} {reads : List (Except String Bytes)} {sofar written : Bytes}
    (h : Upload.readStream maxLen sofar reads = (written, .ended)) :
    written = sofar ++ contents reads := by
  induction reads generalizing sofar with
  | nil =>
    cases h
    exact (List.append_nil _).symm
  | cons read reads ih =>
    cases read with
    | error e => cases h
    | ok chunk =>
      simp only [Upload.readStream] at h
      simp only [contents]
      split at h
      · cases h
        rw [if_pos (by assumption), List.append_nil]
      · rw [if_neg (by assumption), ← List.append_assoc]
        split at h
        · cases h
        · exact ih h

theorem recordChunkProgress_self (s : UploadSession) (index length now : Nat) :
    UploadSession.recordChunkProgress index length now maxRetries s =
      (s.merge index length now,
        some ((s.merge index length now).uploadedChunks,
          (s.merge index length now).uploadedBytes,
          decide ((s.merge index length now).status = .completed))) := by
  have lands : s.update s index length now = some (s.merge index length now) := if_pos rfl
  show UploadSession.recordChunkProgress index length now (4 + 1) s = _
  simp only [UploadSession.recordChunkProgress, lands]

inductive Outcome (s : Upload) (c : Call) : Upload × ChunkUploadResult → Prop
  | refused (session : UploadSession) (result : ChunkUploadResult)
    (same : session = s.session ∨ session = { s.session with status := .expired })
    (failed : result.success = false) (incomplete : result.isComplete = false) :
    Outcome s c (⟨session, s.file⟩, result)
  | recorded (index : Nat) (here : c.request.index.toNat = index)
    (below : index < s.session.totalChunks) (whole : c.data.length = s.session.maxLen index)
    (now : Nat) (result : ChunkUploadResult) (succeeds : result.success = true)
    (reports : result.isComplete =
      decide ((s.session.merge index c.data.length now).status = .completed)) :
    Outcome s c (⟨s.session.merge index c.data.length now, s.write index c.data⟩, result)

theorem screen_ok {s : UploadSession} {r : Request} {index : Nat} (ok : s.screen r = .ok index) :
    r.index.toNat = index ∧ index < s.totalChunks := by
  unfold UploadSession.screen at ok
  split at ok
  · cases ok
  split at ok
  · cases ok
  split at ok
  · cases ok
  · cases ok
    refine ⟨rfl, ?_⟩
    omega

theorem screen_error {s session : UploadSession} {r : Request} {result : ChunkUploadResult}
    (error : s.screen r = .error (session, result)) :
    (session = s ∨ session = { s with status := .expired }) ∧ result.success = false ∧
      result.isComplete = false := by
  unfold UploadSession.screen at error
  split at error
  · cases error
    exact ⟨.inl rfl, rfl, rfl⟩
  split at error
  · cases error
    exact ⟨.inr rfl, rfl, rfl⟩
  split at error
  · cases error
    exact ⟨.inl rfl, rfl, rfl⟩
  · cases error

theorem outcome_of_stored {s : Upload} {c : Call} {index : Nat}
    (ok : s.session.screen c.request = .ok index) (whole : c.data.length = s.session.maxLen index) :
    Outcome s c (s.record c.request.now (.stored (s.write index c.data) index c.data.length)) := by
  obtain ⟨here, below⟩ := screen_ok ok
  simp only [Upload.record, recordChunkProgress_self]
  exact .recorded index here below whole c.request.now _ rfl rfl

theorem outcome_of_refused {s : Upload} {c : Call} {file : Bytes} {result : ChunkUploadResult}
    (kept : file = s.file) (failed : result.success = false)
    (incomplete : result.isComplete = false) :
    Outcome s c (s.record c.request.now (.refused ⟨s.session, file⟩ result)) := by
  subst kept
  exact .refused s.session result (.inl rfl) failed incomplete

theorem write_nothing {s : Upload} {index : Nat}
    (inside : index * s.session.chunkSize ≤ s.file.length) {data : Bytes} (nothing : data = []) : s.write index data = s.file := by
  subst nothing
  exact Slice.write_nil 0 inside

theorem outcome_of_whole {s : Upload} {c : Call}
    (inside : ∀ i < s.session.totalChunks, i * s.session.chunkSize ≤ s.file.length)
    (whole : c.Whole sha256 s.session) : Outcome s c (c.run sha256 s) := by
  unfold Call.Whole at whole
  split at whole
  · rename_i refusal error
    obtain ⟨same, failed, incomplete⟩ := screen_error error
    have run : c.run sha256 s = (⟨refusal.1, s.file⟩, refusal.2) := by
      cases c with
      | chunk r chunkData =>
        have ok : s.session.screen r = .error refusal := error
        simp only [Call.run, Upload.uploadChunk, Upload.storeChunk, ok, Upload.record]
      | stream r reads =>
        have ok : s.session.screen r = .error refusal := error
        simp only [Call.run, Upload.uploadChunkStream, Upload.storeStream, ok, Upload.record]
    rw [run]
    exact .refused refusal.1 refusal.2 same failed incomplete
  rename_i index ok
  have room := inside index (screen_ok ok).2
  cases c with
  | chunk r chunkData =>
    have admitted : s.session.screen r = .ok index := ok
    simp only [Call.run, Upload.uploadChunk, Upload.storeChunk, admitted]
    split
    · exact outcome_of_refused rfl rfl rfl
    rename_i fits
    split
    · exact outcome_of_refused rfl rfl rfl
    rename_i small
    rcases whole with wrong | long | ⟨e, raises⟩ | ⟨full, quiet⟩
    · exact absurd wrong fits
    · exact absurd long small
    · rw [raises]
      exact outcome_of_refused (write_nothing room (List.take_zero ..)) rfl rfl
    · rw [quiet]
      exact outcome_of_stored ok full
  | stream r reads =>
    have admitted : s.session.screen r = .ok index := ok
    simp only [Call.run, Upload.uploadChunkStream, Upload.storeStream, admitted]
    simp only at whole
    generalize stream : Upload.readStream (s.session.maxLen index) [] reads = read at whole ⊢
    obtain ⟨written, ending⟩ := read
    cases disk : r.disk with
    | some failure =>
      rw [disk] at whole
      exact outcome_of_refused (write_nothing room whole) rfl rfl
    | none =>
      rw [disk] at whole
      cases ending with
      | raised e => exact outcome_of_refused (write_nothing room whole) rfl rfl
      | exceeded => exact outcome_of_refused (write_nothing room whole) rfl rfl
      | ended =>
        obtain ⟨full, fits⟩ := whole
        have all : written = contents reads := readStream_ended stream
        subst all
        simp only [fits]
        exact outcome_of_stored ok full

end Calls

structure World.Sound (w : World) : Prop where
  sized : w.upload.file.length = w.upload.session.totalSize
  enough : w.upload.session.totalSize ≤
    w.upload.session.totalChunks * w.upload.session.chunkSize
  inside : ∀ i < w.upload.session.totalChunks,
    i * w.upload.session.chunkSize ≤ w.upload.file.length
  holds : ∀ i d, w.last i = some d → i < w.upload.session.totalChunks ∧
    d.length = w.upload.session.maxLen i ∧
    Slice.piece w.upload.session.chunkSize w.upload.file i = d
  received : ∀ i, i ∈ w.upload.session.received ↔ ∃ d, w.last i = some d
  count : w.upload.session.uploadedChunks = w.upload.session.received.card
  complete : w.upload.session.status = .completed →
    w.upload.session.totalChunks ≤ w.upload.session.received.card

variable {sha256 : Bytes → List Char} {w : World} {c : Call}

theorem World.Sound.start {s : Upload} (fresh : Fresh s) : (World.start s).Sound := by
  have empty : s.session.received = ∅ := by
    simp only [UploadSession.received, fresh.unsent, Option.getD_none]
  constructor
  case sized => exact fresh.sized
  case enough => exact fresh.enough
  case inside =>
    intro i below
    exact fresh.sized ▸ (fresh.inside i below).le
  case holds =>
    intro i d found
    cases found
  case received =>
    intro i
    simp only [World.start, empty, Finset.notMem_empty, reduceCtorEq, exists_false]
  case count =>
    show s.session.uploadedChunks = s.session.received.card
    rw [fresh.none, empty, Finset.card_empty]
  case complete => exact fun h => absurd h fresh.open_

theorem World.Sound.recorded (sound : w.Sound) {index now : Nat} {d : Bytes}
    (below : index < w.upload.session.totalChunks)
    (whole : d.length = w.upload.session.maxLen index) :
    (World.mk ⟨w.upload.session.merge index d.length now, w.upload.write index d⟩
      (Function.update w.last index (some d))).Sound := by
  have room : index * w.upload.session.chunkSize + d.length ≤ w.upload.file.length := by
    rw [whole, UploadSession.maxLen, ← sound.sized]
    exact Slice.room_le (sound.inside index below)
  have length : (w.upload.write index d).length = w.upload.file.length := Slice.length_write room
  have narrow : d.length ≤ w.upload.session.chunkSize := by
    rw [whole]
    exact Nat.min_le_left _ _
  constructor
  case sized => exact length.trans sound.sized
  case enough => exact sound.enough
  case inside =>
    intro i small
    exact length.symm ▸ sound.inside i small
  case holds =>
    intro i e found
    by_cases here : i = index
    · subst here
      have same : d = e := by simpa only [Function.update_self, Option.some.injEq] using found
      subst same
      have full : d.length = Slice.room w.upload.session.chunkSize w.upload.file.length i :=
        whole.trans (sound.sized.symm ▸ rfl)
      exact ⟨below, whole, Slice.piece_write (sound.inside i below) full⟩
    · have old : w.last i = some e := by simpa only [Function.update_of_ne here] using found
      obtain ⟨small, full, piece⟩ := sound.holds i e old
      exact ⟨small, full, (Slice.piece_write_ne here narrow room).trans piece⟩
  case received =>
    intro i
    show i ∈ insert index w.upload.session.received ↔ _
    rw [Finset.mem_insert, sound.received]
    by_cases here : i = index
    · subst here
      simp only [true_or, Function.update_self, true_iff]
      exact ⟨d, rfl⟩
    · simp only [here, false_or, Function.update_of_ne here]
  case count => rfl
  case complete =>
    intro complete
    by_contra few
    have status : (w.upload.session.merge index d.length now).status = .inProgress := if_neg few
    exact absurd (complete.symm.trans status) (by decide)

theorem World.Sound.step (sound : w.Sound) (whole : c.Whole sha256 w.upload.session) :
    (w.after sha256 c).Sound := by
  have outcome := outcome_of_whole sound.inside whole
  unfold World.after
  generalize c.run sha256 w.upload = result at outcome
  cases outcome with
  | refused session result same failed incomplete =>
    simp only [failed]
    rcases same with rfl | rfl
    · exact sound
    · exact ⟨sound.sized, sound.enough, sound.inside, sound.holds, sound.received, sound.count,
        fun h => by cases h⟩
  | recorded index here below full now result succeeds reports =>
    simp only [succeeds, here]
    exact sound.recorded below full

theorem World.Sound.assembled (sound : w.Sound)
    (complete : w.upload.session.status = .completed) : w.Assembled := by
  have within : w.upload.session.received ⊆ Finset.range w.upload.session.totalChunks := by
    intro i member
    obtain ⟨d, found⟩ := (sound.received i).mp member
    exact Finset.mem_range.mpr (sound.holds i d found).1
  have all : w.upload.session.received = Finset.range w.upload.session.totalChunks := by
    refine Finset.eq_of_subset_of_card_le within ?_
    rw [Finset.card_range]
    exact sound.complete complete
  have each : ∀ i < w.upload.session.totalChunks, ∃ d, w.last i = some d := by
    intro i below
    exact (sound.received i).mp (all ▸ Finset.mem_range.mpr below)
  constructor
  · have pieces := Slice.pieces (sound.sized ▸ sound.enough)
    refine pieces.symm.trans (List.flatMap_congr ?_)
    intro i member
    obtain ⟨d, found⟩ := each i (List.mem_range.mp member)
    rw [found, Option.getD_some]
    exact (sound.holds i d found).2.2
  · intro i below
    obtain ⟨d, found⟩ := each i below
    exact ⟨d, found, (sound.holds i d found).2.1⟩

/-- What the run of whole calls keeps of every upload session. -/
theorem chunk_integrity (sha256 : Bytes → List Char) (config : Config) (userId now : Nat)
    (totalSize : Int) (s : Upload) (created : createSession config userId totalSize now = some s)
    (w : World) (run : Guarded (World.step sha256)
      (fun w c => c.Whole sha256 w.upload.session) (· = World.start s) w) :
    (∀ c : Call, c.Whole sha256 w.upload.session → (c.run sha256 w.upload).2.success = false →
      SameProgress w.upload (c.run sha256 w.upload).1) ∧
    (∀ c : Call, c.Whole sha256 w.upload.session → (c.run sha256 w.upload).2.isComplete = true →
      (w.after sha256 c).Assembled) ∧
    ∀ cap user file, w.upload.completeSession cap user = some file → w.upload.file = file ∧
      w.Assembled := by
  have sound : w.Sound := by
    refine guarded_invariant (I := World.Sound) ?_ ?_ run
    · rintro w rfl
      exact .start (fresh_of_createSession created)
    · intro w c t sound whole next
      cases next
      exact sound.step whole
  refine ⟨?_, ?_, ?_⟩
  · intro c whole failed
    have outcome := outcome_of_whole sound.inside whole
    generalize c.run sha256 w.upload = result at outcome failed
    cases outcome with
    | refused session result same _ _ =>
      rcases same with rfl | rfl
      · exact ⟨rfl, rfl, rfl, rfl⟩
      · exact ⟨rfl, rfl, rfl, rfl⟩
    | recorded index here below full now result succeeds reports =>
      exact absurd (failed.symm.trans succeeds) (by decide)
  · intro c whole reported
    refine (sound.step whole).assembled ?_
    have outcome := outcome_of_whole sound.inside whole
    unfold World.after
    generalize c.run sha256 w.upload = result at outcome reported
    cases outcome with
    | refused session result same _ incomplete =>
      exact absurd (reported.symm.trans incomplete) (by decide)
    | recorded index here below full now result succeeds reports =>
      exact of_decide_eq_true (reports.symm.trans reported)
  · intro cap user file returned
    unfold Upload.completeSession at returned
    split at returned
    · cases returned
    split at returned
    · cases returned
    rename_i complete
    split at returned
    · cases returned
    · cases returned
      exact ⟨(List.take_of_length_le sound.sized.le).symm, sound.assembled (not_not.mp complete)⟩

theorem chunk_integrity_two_chunks : ∃ s w, createSession ⟨2, 10, 3600⟩ 1 3 0 = some s ∧
    run (World.step fun _ => []) (World.start s) [.chunk ⟨1, 1, none, 5, none⟩ [9],
      .stream ⟨1, 0, none, 6, none⟩ [.ok [7], .ok [8]]] = some w ∧
    w.upload.completeSession 100 1 = some [7, 8, 9] ∧ w.Assembled := by
  refine ⟨_, _, rfl, rfl, rfl, ?_⟩
  refine ((chunk_integrity (fun _ => []) ⟨2, 10, 3600⟩ 1 0 3 _ rfl _ ?_).2.2 100 1 [7, 8, 9] rfl).2
  refine .step (a := .stream ⟨1, 0, none, 6, none⟩ [.ok [7], .ok [8]])
    (.step (a := .chunk ⟨1, 1, none, 5, none⟩ [9]) (.start rfl) ?_ rfl) ?_ rfl
  · exact .inr (.inr (.inr ⟨rfl, rfl⟩))
  · exact ⟨rfl, rfl⟩

/-- A short chunk is taken, and a stream that fails has written. -/
theorem chunk_integrity_fails : ∃ s w, createSession ⟨2, 10, 3600⟩ 1 3 0 = some s ∧
    run (World.step fun _ => []) (World.start s) [.chunk ⟨1, 0, none, 5, none⟩ [7],
      .chunk ⟨1, 1, none, 6, none⟩ [9]] = some w ∧
    w.upload.completeSession 100 1 = some [7, 0, 9] ∧ ¬w.Assembled ∧
    ∃ c : Call, (c.run (fun _ => []) w.upload).2.success = false ∧
      (c.run (fun _ => []) w.upload).1.file = [5, 6, 9] := by
  refine ⟨_, _, rfl, rfl, rfl, ?_, .stream ⟨1, 0, none, 7, none⟩ [.ok [5, 6], .error "reset"],
    rfl, rfl⟩
  rintro ⟨made, -⟩
  exact absurd made (by decide)

end Plexichat.Media
