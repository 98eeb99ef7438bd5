import Mathlib.Data.Finset.Card
import Plexichat.Library.Slice
import Plexichat.Library.Text

/-! core/media/chunked.py: one upload session, its row in media_upload_sessions and its temp file. -/
namespace Plexichat.Media

abbrev Bytes := List UInt8

inductive UploadSessionStatus where
  | pending | inProgress | completed | failed | expired
  deriving DecidableEq

/-- The columns that an upload reads or writes. `received_chunks` is the JSON text of a set, and
none is NULL. Times are in milliseconds. -/
structure UploadSession where
  userId : Nat
  totalSize : Nat
  chunkSize : Nat
  totalChunks : Nat
  uploadedChunks : Nat
  uploadedBytes : Nat
  status : UploadSessionStatus
  updatedAt : Nat
  expiresAt : Nat
  receivedChunks : Option (Finset Nat)
  deriving DecidableEq

structure Upload where
  session : UploadSession
  file : Bytes
  deriving DecidableEq

structure Config where
  chunkSize : Nat
  maxChunks : Nat
  sessionTimeout : Nat

def createSession (config : Config) (userId : Nat) (totalSize : Int) (now : Nat) : Option Upload :=
  if totalSize ≤ 0 then none
  -- ZeroDivisionError
  else if config.chunkSize = 0 then none
  else
    let size := totalSize.toNat
    let totalChunks := (size + config.chunkSize - 1) / config.chunkSize
    if totalChunks > config.maxChunks then none
    else
      let session : UploadSession :=
        { userId, totalSize := size, chunkSize := config.chunkSize, totalChunks,
          uploadedChunks := 0, uploadedBytes := 0, status := .pending, updatedAt := now,
          expiresAt := now + config.sessionTimeout * 1000, receivedChunks := none }
      some ⟨session, List.replicate size 0⟩

section Create

variable {config : Config} {userId now : Nat} {totalSize : Int} {s : Upload}

structure Fresh (s : Upload) : Prop where
  sized : s.file.length = s.session.totalSize
  enough : s.session.totalSize ≤ s.session.totalChunks * s.session.chunkSize
  inside : ∀ i < s.session.totalChunks, i * s.session.chunkSize < s.session.totalSize
  some : 0 < s.session.totalChunks
  unsent : s.session.receivedChunks = none
  none : s.session.uploadedChunks = 0
  zero : s.session.uploadedBytes = 0
  open_ : s.session.status ≠ .completed

theorem fresh_of_createSession (created : createSession config userId totalSize now = .some s) :
    Fresh s := by
  unfold createSession at created
  split at created
  · cases created
  rename_i positive
  split at created
  · cases created
  rename_i width
  simp only at created
  split at created <;> cases created
  have size : 0 < totalSize.toNat := by omega
  have wide : 0 < config.chunkSize := Nat.pos_of_ne_zero width
  have upper := Nat.div_add_mod (totalSize.toNat + config.chunkSize - 1) config.chunkSize
  have small := Nat.mod_lt (totalSize.toNat + config.chunkSize - 1) wide
  rw [Nat.mul_comm] at upper
  constructor
  case sized => exact List.length_replicate
  case enough =>
    show totalSize.toNat ≤ (totalSize.toNat + config.chunkSize - 1) / config.chunkSize *
      config.chunkSize
    omega
  case inside =>
    intro i below
    show i * config.chunkSize < totalSize.toNat
    have ahead : (i + 1) * config.chunkSize ≤
        (totalSize.toNat + config.chunkSize - 1) / config.chunkSize * config.chunkSize :=
      Nat.mul_le_mul_right _ below
    rw [Nat.add_mul, Nat.one_mul] at ahead
    omega
  case some => exact Nat.div_pos (by omega) wide
  case unsent => rfl
  case none => rfl
  case zero => rfl
  case open_ => exact fun h => by cases h

end Create

structure ChunkUploadResult where
  success : Bool
  uploadedChunks : Nat
  totalChunks : Nat
  isComplete : Bool
  error : Option String

/-- What comes with a chunk, what the clock says, and after how many bytes the temp file raises. -/
structure Request where
  userId : Nat
  index : Int
  checksum : Option (List Char)
  now : Nat
  disk : Option (Nat × String)

namespace UploadSession

variable (s : UploadSession)

def received : Finset Nat := s.receivedChunks.getD ∅

def maxLen (index : Nat) : Nat := Slice.room s.chunkSize s.totalSize index

def refuse (error : String) : ChunkUploadResult :=
  ⟨false, s.uploadedChunks, s.totalChunks, false, some error⟩

def screen (r : Request) : Except (UploadSession × ChunkUploadResult) Nat :=
  if r.userId ≠ s.userId then .error (s, ⟨false, 0, 0, false, some "Session not found"⟩)
  else if r.now > s.expiresAt then
    .error ({ s with status := .expired }, s.refuse "Session expired")
  else if r.index < 0 ∨ r.index ≥ s.totalChunks then
    .error (s, s.refuse s!"Invalid chunk index: {r.index}")
  else .ok r.index.toNat

/-- The columns that _record_chunk_progress writes, from the row that it has read. -/
def merge (index length now : Nat) : UploadSession :=
  let received := insert index s.received
  { s with
    uploadedChunks := received.card
    uploadedBytes := if index ∈ s.received then s.uploadedBytes else s.uploadedBytes + length
    status := if s.totalChunks ≤ received.card then .completed else .inProgress
    receivedChunks := some received
    updatedAt := now }

/-- The UPDATE, guarded by the `updated_at` that was read; none is a row count of zero. -/
def update (read : UploadSession) (index length now : Nat) : Option UploadSession :=
  if s.updatedAt = read.updatedAt then
    let new := read.merge index length now
    some { s with
      uploadedChunks := new.uploadedChunks, uploadedBytes := new.uploadedBytes,
      status := new.status, receivedChunks := new.receivedChunks, updatedAt := new.updatedAt }
  else none

def recordChunkProgress (index length now : Nat) :
    Nat → UploadSession → UploadSession × Option (Nat × Nat × Bool)
  | 0, s => (s, none)
  | retries + 1, s =>
    match s.update s index length now with
    | some t => (t, some (t.uploadedChunks, t.uploadedBytes, t.status = .completed))
    | none => recordChunkProgress index length now retries s

end UploadSession

def maxRetries : Nat := 5

section Calls

variable (sha256 : Bytes → List Char)

def mismatch (checksum : Option (List Char)) (data : Bytes) : Bool :=
  match checksum with
  | none | some [] => false
  | some expected => sha256 data != (Text.strip expected).map Char.toLower

inductive Stored where
  | refused (s : Upload) (result : ChunkUploadResult)
  | stored (file : Bytes) (index length : Nat)

namespace Upload

variable (s : Upload)

def write (index : Nat) (data : Bytes) : Bytes :=
  Slice.write 0 s.file (index * s.session.chunkSize) data

def storeChunk (r : Request) (chunkData : Bytes) : Stored :=
  match s.session.screen r with
  | .error (session, result) => .refused ⟨session, s.file⟩ result
  | .ok index =>
    let maxLen := s.session.maxLen index
    if mismatch sha256 r.checksum chunkData then
      .refused s (s.session.refuse "Checksum mismatch")
    else if chunkData.length > maxLen then
      .refused s (s.session.refuse
        s!"Chunk size {chunkData.length} exceeds maximum of {maxLen} bytes")
    else
      match r.disk with
      | some (n, e) => .refused ⟨s.session, s.write index (chunkData.take n)⟩
        { s.session.refuse s!"Write failed: {e}" with uploadedChunks := s.session.received.card }
      | none => .stored (s.write index chunkData) index chunkData.length

inductive Ending where
  | ended
  | exceeded
  | raised (e : String)

/-- The loop over `chunk_stream.read(65536)`, with what has been written. -/
def readStream (maxLen : Nat) : Bytes → List (Except String Bytes) → Bytes × Ending
  | written, [] => (written, .ended)
  | written, .error e :: _ => (written, .raised e)
  | written, .ok chunk :: reads =>
    if chunk.isEmpty then (written, .ended)
    else if written.length + chunk.length > maxLen then (written, .exceeded)
    else readStream maxLen (written ++ chunk) reads

def storeStream (r : Request) (reads : List (Except String Bytes)) : Stored :=
  match s.session.screen r with
  | .error (session, result) => .refused ⟨session, s.file⟩ result
  | .ok index =>
    let maxLen := s.session.maxLen index
    let (written, ending) := readStream maxLen [] reads
    match r.disk, ending with
    | some (n, e), _ => .refused ⟨s.session, s.write index (written.take n)⟩
      (s.session.refuse s!"Write failed: {e}")
    | none, .raised e => .refused ⟨s.session, s.write index written⟩
      (s.session.refuse s!"Write failed: {e}")
    | none, .exceeded => .refused ⟨s.session, s.write index written⟩
      (s.session.refuse s!"Chunk exceeds maximum of {maxLen} bytes")
    | none, .ended =>
      if mismatch sha256 r.checksum written then
        .refused ⟨s.session, s.write index written⟩ (s.session.refuse "Checksum mismatch")
      else .stored (s.write index written) index written.length

def record (now : Nat) : Stored → Upload × ChunkUploadResult
  | .refused t result => (t, result)
  | .stored file index length =>
    match UploadSession.recordChunkProgress index length now maxRetries s.session with
    | (session, none) =>
      (⟨session, file⟩, s.session.refuse "Concurrent update conflict; retry the chunk")
    | (session, some (uploadedChunks, _, isComplete)) =>
      (⟨session, file⟩, ⟨true, uploadedChunks, s.session.totalChunks, isComplete, none⟩)

def uploadChunk (r : Request) (chunkData : Bytes) : Upload × ChunkUploadResult :=
  s.record r.now (s.storeChunk sha256 r chunkData)

def uploadChunkStream (r : Request) (reads : List (Except String Bytes)) :
    Upload × ChunkUploadResult :=
  s.record r.now (s.storeStream sha256 r reads)

def completeSession (cap userId : Nat) : Option Bytes :=
  if userId ≠ s.session.userId then none
  else if s.session.status ≠ .completed then none
  else if s.session.totalSize > cap then none
  else some (s.file.take s.session.totalSize)

end Upload

inductive Call where
  | chunk (r : Request) (chunkData : Bytes)
  | stream (r : Request) (reads : List (Except String Bytes))

namespace Call

def request : Call → Request
  | chunk r _ => r
  | stream r _ => r

def store (s : Upload) : Call → Stored
  | chunk r chunkData => s.storeChunk sha256 r chunkData
  | stream r reads => s.storeStream sha256 r reads

def run (s : Upload) : Call → Upload × ChunkUploadResult
  | chunk r chunkData => s.uploadChunk sha256 r chunkData
  | stream r reads => s.uploadChunkStream sha256 r reads

end Call

end Calls

end Plexichat.Media
