import Plexichat.Library.Checks
import Plexichat.Library.Wire

/-! The container of a workbook file (container.py): a header of 16 bytes, the payload, compressed
or as it is, and the SHA-256 of the payload before compression. -/
namespace Plexichat.Sum.Container
open Checks

abbrev Bytes := List UInt8

def magic : Bytes := [0x50, 0x58, 0x53, 0x4D]

def headerSize : Nat := 16
def checksumSize : Nat := 32
def containerVersion : UInt8 := 1

def compressNone : Nat := 0
def compressZstd : Nat := 1

def flagWal : UInt8 := 1

def maxDecompressedSize : Nat := 64 * 1024 * 1024

inductive Error where
  | tooShort
  | invalidMagic (found : Bytes)
  | unsupportedVersion (version : UInt8)
  | unknownCompression (mode : Nat)
  | exceedsLimit (total limit : Nat)
  | invalidZstandard (message : String)
  | checksumMismatch
  | walTooShort
  | overflow
  deriving DecidableEq, Repr

inductive Stream where
  | finished
  | broken (message : String)
  | chunk (bytes : Bytes) (rest : Stream)

def Stream.contents : Stream → Option Bytes
  | finished => some []
  | broken _ => none
  | chunk bytes rest => if bytes = [] then some [] else rest.contents.map (bytes ++ ·)

structure Codec where
  compress : Bytes → Bytes
  reader : Bytes → Stream
  sha256 : Bytes → Bytes
  length_sha256 : ∀ payload, (sha256 payload).length = checksumSize

/-- What is taken for granted of the two: decompression inverts compression, and no other payload
has the digest of this one. -/
structure Codec.Trusted (c : Codec) (payload : Bytes) : Prop where
  inverts : ∀ bytes, (c.reader (c.compress bytes)).contents = some bytes
  separates : ∀ other, c.sha256 other = c.sha256 payload → other = payload

/-- The loop of `decompress_zstd`; an empty chunk ends it. -/
def readChunks (maxOutputSize total : Nat) : Stream → Except Error Bytes
  | .finished => .ok []
  | .broken message => .error (.invalidZstandard message)
  | .chunk bytes rest =>
    if bytes = [] then .ok []
    else do
      ensure (total + bytes.length ≤ maxOutputSize)
        (.exceedsLimit (total + bytes.length) maxOutputSize)
      let parts ← readChunks maxOutputSize (total + bytes.length) rest
      return bytes ++ parts

def decompressZstd (c : Codec) (data : Bytes) : Except Error Bytes :=
  readChunks maxDecompressedSize 0 (c.reader data)

/-- `if wal_bytes`: an empty image counts as none. -/
def kept (wal : Option Bytes) : Option Bytes := wal.filter fun bytes => !bytes.isEmpty

def payload (db : Bytes) (wal : Option Bytes) : Except Error Bytes :=
  match kept wal with
  | none => .ok db
  | some bytes => do
    let dbLen ← found (Wire.pack 4 db.length) .overflow
    return dbLen ++ db ++ bytes

def header (compression flags : UInt8) : Bytes :=
  magic ++ [containerVersion, compression, flags] ++ List.replicate 9 0

def encodeContainer (c : Codec) (db : Bytes) (wal : Option Bytes) (compression : Nat) :
    Except Error Bytes := do
  let payload ← payload db wal
  let flags := if (kept wal).isSome then flagWal else 0
  if compression = compressZstd then
    return header 1 flags ++ c.compress payload ++ c.sha256 payload
  else if compression = compressNone then
    return header 0 flags ++ payload ++ c.sha256 payload
  else .error (.unknownCompression compression)

structure Metadata where
  version : UInt8
  compression : UInt8
  flags : UInt8
  hasWal : Bool
  uncompressedSize : Nat
  compressedSize : Nat
  deriving DecidableEq, Repr

def storedChecksum (data : Bytes) : Bytes := data.drop (data.length - checksumSize)

def compressedBody (data : Bytes) : Bytes :=
  (data.take (data.length - checksumSize)).drop headerSize

def hasWal (data : Bytes) : Bool := data.getD 6 0 &&& flagWal ≠ 0

/-- The payload as the compression byte says. -/
def payloadOf (c : Codec) (data : Bytes) : Except Error Bytes :=
  if (data.getD 5 0).toNat = compressZstd then decompressZstd c (compressedBody data)
  else if (data.getD 5 0).toNat = compressNone then .ok (compressedBody data)
  else .error (.unknownCompression (data.getD 5 0).toNat)

def splitPayload (wal : Bool) (payload : Bytes) : Except Error (Bytes × Option Bytes) :=
  if wal then do
    ensure (4 ≤ payload.length) .walTooShort
    let dbLen := Wire.unpack (payload.take 4)
    return ((payload.drop 4).take dbLen, some (payload.drop (4 + dbLen)))
  else .ok (payload, none)

def metadataOf (data payload : Bytes) : Metadata where
  version := data.getD 4 0
  compression := data.getD 5 0
  flags := data.getD 6 0
  hasWal := hasWal data
  uncompressedSize := payload.length
  compressedSize := (compressedBody data).length

def decodeContainer (c : Codec) (data : Bytes) :
    Except Error ((Bytes × Option Bytes) × Metadata) := do
  ensure (headerSize + checksumSize ≤ data.length) .tooShort
  ensure (data.take 4 = magic) (.invalidMagic (data.take 4))
  ensure (data.getD 4 0 = containerVersion) (.unsupportedVersion (data.getD 4 0))
  let payload ← payloadOf c data
  ensure (c.sha256 payload = storedChecksum data) .checksumMismatch
  let images ← splitPayload (hasWal data) payload
  return (images, metadataOf data payload)

section RoundTrip

variable {c : Codec} {db : Bytes} {wal : Option Bytes}

theorem readChunks_contents {limit total : Nat} {s : Stream} {bytes : Bytes}
    (whole : s.contents = some bytes) (fits : total + bytes.length ≤ limit) :
    readChunks limit total s = .ok bytes := by
  induction s generalizing total bytes with
  | finished =>
    cases whole
    rfl
  | broken => cases whole
  | chunk first rest ih =>
    rw [Stream.contents] at whole
    rw [readChunks]
    split at whole
    · rename_i ended
      cases whole
      rw [if_pos ended]
    · rename_i more
      obtain ⟨parts, rest_whole, rfl⟩ := Option.map_eq_some_iff.mp whole
      rw [List.length_append] at fits
      rw [if_neg more]
      refine ensure_bind_eq_ok.mpr ⟨by omega, ?_⟩
      rw [ih rest_whole (by omega)]
      rfl

theorem splitPayload_payload {p : Bytes} (stored : payload db wal = .ok p) :
    splitPayload (kept wal).isSome p = .ok (db, kept wal) := by
  unfold payload at stored
  cases image : kept wal with
  | none =>
    rw [image] at stored
    cases stored
    rfl
  | some bytes =>
    rw [image] at stored
    obtain ⟨dbLen, packed, result⟩ := found_bind_eq_ok.mp stored
    cases result
    have four := Wire.length_pack packed
    have first : (dbLen ++ db ++ bytes).take 4 = dbLen := by
      rw [List.append_assoc, List.take_left' four]
    have rest : (dbLen ++ db ++ bytes).drop 4 = db ++ bytes := by
      rw [List.append_assoc, List.drop_left' four]
    have last : (dbLen ++ db ++ bytes).drop (4 + db.length) = bytes :=
      List.drop_left' (by rw [List.length_append, four])
    refine ensure_bind_eq_ok.mpr ⟨by simp only [List.length_append]; omega, ?_⟩
    rw [first, rest, Wire.unpack_pack packed]
    simp only [last, List.take_left' rfl]
    rfl

theorem decodeContainer_ok {data : Bytes} {images : Bytes × Option Bytes} {metadata : Metadata}
    (returned : decodeContainer c data = .ok (images, metadata)) : ∃ p, payloadOf c data = .ok p ∧
      c.sha256 p = storedChecksum data ∧ splitPayload (hasWal data) p = .ok images := by
  simp only [decodeContainer, ensure_bind_eq_ok] at returned
  obtain ⟨-, -, -, returned⟩ := returned
  obtain ⟨p, read, returned⟩ := returned_bind returned
  obtain ⟨digest, returned⟩ := ensure_bind_eq_ok.mp returned
  obtain ⟨split, separated, result⟩ := returned_bind returned
  cases result
  exact ⟨p, read, digest, separated⟩

/-- The fields of what `encode_container` writes. -/
structure Frame (data : Bytes) (compression flags : UInt8) (body checksum : Bytes) : Prop where
  long : headerSize + checksumSize ≤ data.length
  magic : data.take 4 = magic
  version : data.getD 4 0 = containerVersion
  compression : data.getD 5 0 = compression
  flags : data.getD 6 0 = flags
  body : compressedBody data = body
  checksum : storedChecksum data = checksum

theorem frame (compression flags : UInt8) (body : Bytes) {checksum : Bytes}
    (width : checksum.length = checksumSize) :
    Frame (header compression flags ++ body ++ checksum) compression flags body checksum := by
  have sixteen : (header compression flags).length = headerSize := rfl
  have cut : (header compression flags ++ body ++ checksum).length - checksumSize =
      (header compression flags ++ body).length := by
    simp only [List.length_append, width, Nat.add_sub_cancel]
  refine ⟨?_, rfl, rfl, rfl, rfl, ?_, ?_⟩
  · simp only [List.length_append, sixteen, width]
    omega
  · rw [compressedBody, cut, List.take_left' rfl, List.drop_left' sixteen]
  · rw [storedChecksum, cut, List.drop_left' rfl]

theorem encodeContainer_spec {p : Bytes} (trusted : c.Trusted p) {mode : Nat}
    (known : mode = compressNone ∨ mode = compressZstd) (stored : payload db wal = .ok p)
    (within : p.length ≤ maxDecompressedSize) :
    ∃ container compression body, encodeContainer c db wal mode = .ok container ∧
      Frame container compression (if (kept wal).isSome then flagWal else 0) body (c.sha256 p) ∧
        payloadOf c container = .ok p := by
  rcases known with rfl | rfl
  · refine ⟨_, 0, p, ?_, frame 0 _ p (c.length_sha256 p), ?_⟩
    · rw [encodeContainer, stored]
      rfl
    · obtain ⟨-, -, -, byte, -, body, -⟩ := frame 0 (if (kept wal).isSome then flagWal else 0) p
        (c.length_sha256 p)
      rw [payloadOf, byte, body]
      rfl
  · refine ⟨_, 1, c.compress p, ?_, frame 1 _ (c.compress p) (c.length_sha256 p), ?_⟩
    · rw [encodeContainer, stored]
      rfl
    · obtain ⟨-, -, -, byte, -, body, -⟩ := frame 1 (if (kept wal).isSome then flagWal else 0)
        (c.compress p) (c.length_sha256 p)
      rw [payloadOf, byte, body]
      exact readChunks_contents (trusted.inverts p) (by omega)

end RoundTrip

/-- A container decodes to what it was made from, an empty WAL being none; and a byte string that
decodes to anything else has another WAL bit, or another footer, which is the digest of another
payload that it carries. -/
theorem container_round_trip (c : Codec) (db : Bytes) (wal : Option Bytes) {mode : Nat} {p : Bytes}
    (trusted : c.Trusted p) (known : mode = compressNone ∨ mode = compressZstd)
    (stored : payload db wal = .ok p) (within : p.length ≤ maxDecompressedSize) :
    ∃ container, encodeContainer c db wal mode = .ok container ∧
      decodeContainer c container = .ok ((db, kept wal), metadataOf container p) ∧
        ∀ data images metadata, decodeContainer c data = .ok (images, metadata) →
          images = (db, kept wal) ∨ hasWal data ≠ hasWal container ∨
            storedChecksum data ≠ storedChecksum container ∧
              ∃ q, q ≠ p ∧ payloadOf c data = .ok q ∧ storedChecksum data = c.sha256 q := by
  obtain ⟨container, compression, body, encoded, fields, carried⟩ :=
    encodeContainer_spec trusted known stored within
  have bit : hasWal container = (kept wal).isSome := by
    rw [hasWal, fields.flags]
    cases (kept wal).isSome <;> decide
  refine ⟨container, encoded, ?_, ?_⟩
  · refine ensure_bind_eq_ok.mpr ⟨fields.long, ensure_bind_eq_ok.mpr ⟨fields.magic, ?_⟩⟩
    refine ensure_bind_eq_ok.mpr ⟨fields.version, ?_⟩
    rw [carried]
    refine ensure_bind_eq_ok.mpr ⟨fields.checksum.symm, ?_⟩
    rw [bit, splitPayload_payload stored]
    rfl
  · intro data images metadata returned
    obtain ⟨q, read, digest, split⟩ := decodeContainer_ok returned
    by_cases same : q = p
    · subst same
      by_cases bits : hasWal data = hasWal container
      · rw [bits, bit, splitPayload_payload stored] at split
        exact .inl (Except.ok.inj split).symm
      · exact .inr (.inl bits)
    · refine .inr (.inr ⟨fun equal => same (trusted.separates q ?_), q, same, read, digest.symm⟩)
      rw [digest, equal, fields.checksum]

/-- One database image, one WAL image and what `encode_container` stores of them. -/
def sample : Bytes := [0, 0, 0, 2, 0x64, 0x62, 0x77]

def sampleDigest : Bytes :=
  [0x2d, 0xdb, 0x38, 0x6d, 0xe5, 0xf0, 0x7a, 0xee, 0xb1, 0x57, 0xce, 0xee, 0xf9, 0x7c, 0xaf, 0x0e,
    0xd3, 0xc3, 0xa8, 0xdc, 0x90, 0x42, 0x3c, 0x35, 0xca, 0x06, 0xb1, 0x7a, 0xa6, 0xe2, 0x0d, 0x5d]

def emptyDigest : Bytes :=
  [0xe3, 0xb0, 0xc4, 0x42, 0x98, 0xfc, 0x1c, 0x14, 0x9a, 0xfb, 0xf4, 0xc8, 0x99, 0x6f, 0xb9, 0x24,
    0x27, 0xae, 0x41, 0xe4, 0x64, 0x9b, 0x93, 0x4c, 0xa4, 0x95, 0x99, 0x1b, 0x78, 0x52, 0xb8, 0x55]

def sampleCodec : Codec where
  compress := id
  reader bytes := .chunk bytes .finished
  sha256 bytes := if bytes = sample then sampleDigest else emptyDigest
  length_sha256 := by
    intro bytes
    split <;> rfl

theorem sampleCodec_trusted : sampleCodec.Trusted sample where
  inverts := by
    intro bytes
    by_cases nothing : bytes = [] <;> simp [sampleCodec, Stream.contents, nothing]
  separates := by
    intro other equal
    by_contra differs
    simp only [sampleCodec, differs, if_false, if_true] at equal
    exact absurd equal (by decide)

theorem sample_round_trip : ∃ container,
    encodeContainer sampleCodec [0x64, 0x62] (some [0x77]) compressNone = .ok container ∧
      decodeContainer sampleCodec container =
        .ok (([0x64, 0x62], some [0x77]), ⟨1, 0, 1, true, 7, 7⟩) := by
  obtain ⟨container, encoded, decoded, -⟩ := container_round_trip sampleCodec [0x64, 0x62]
    (some [0x77]) sampleCodec_trusted (.inl rfl) rfl (by decide)
  cases encoded
  exact ⟨_, rfl, decoded⟩

/-- An empty WAL image does not come back. With the WAL bit turned off, the bytes of a container
decode to another database image; and so does the container of another one. -/
theorem container_not_faithful :
    (¬∀ (c : Codec) (db : Bytes) (wal : Option Bytes) (mode : Nat) (p container : Bytes),
      c.Trusted p → payload db wal = .ok p → p.length ≤ maxDecompressedSize →
        encodeContainer c db wal mode = .ok container →
          (decodeContainer c container).map Prod.fst = .ok (db, wal)) ∧
    (¬∀ (c : Codec) (db : Bytes) (wal : Option Bytes) (mode : Nat) (p container : Bytes),
      c.Trusted p → payload db wal = .ok p → p.length ≤ maxDecompressedSize →
        encodeContainer c db wal mode = .ok container →
          ∀ data, data ≠ container → storedChecksum data = storedChecksum container →
            ∀ images, (decodeContainer c data).map Prod.fst = .ok images → images = (db, wal)) ∧
    ¬∀ (c : Codec) (db : Bytes) (wal : Option Bytes) (mode : Nat) (p container : Bytes),
      c.Trusted p → payload db wal = .ok p → p.length ≤ maxDecompressedSize →
        encodeContainer c db wal mode = .ok container →
          ∀ data, data ≠ container → hasWal data = hasWal container →
            ∀ images, (decodeContainer c data).map Prod.fst = .ok images → images = (db, wal) := by
  refine ⟨fun claimed => ?_, fun claimed => ?_, fun claimed => ?_⟩
  · have same := claimed sampleCodec sample (some []) compressNone sample
      (header 0 0 ++ sample ++ sampleDigest) sampleCodec_trusted rfl (by decide) rfl
    exact absurd (Except.ok.inj same) (by decide)
  · have same := claimed sampleCodec [0x64, 0x62] (some [0x77]) compressNone sample
      (header 0 flagWal ++ sample ++ sampleDigest) sampleCodec_trusted rfl (by decide) rfl
      (header 0 0 ++ sample ++ sampleDigest) (by decide) rfl (sample, none) rfl
    exact absurd same (by decide)
  · have same := claimed sampleCodec sample none compressNone sample
      (header 0 0 ++ sample ++ sampleDigest) sampleCodec_trusted rfl (by decide) rfl
      (header 0 0 ++ emptyDigest) (by decide) rfl ([], none) rfl
    exact absurd same (by decide)

end Plexichat.Sum.Container
