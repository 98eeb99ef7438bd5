import Plexichat.Library.Wire
import Plexichat.Encryption.Cipher

/-! The stream format of file_encryption.py: a header with the wrapped key of the file, then the
chunks, each sealed by itself under its index. Decryption reads the legacy header too. -/
namespace Plexichat.Encryption.FileFormat
open Wire

def fileMagic : Bytes := [0x50, 0x58, 0x45, 0x4e, 0x43]

def streamMagic : Bytes := [0x50, 0x58, 0x53, 0x54, 0x52]

def fileVersion : Nat := 2

def nonceSize : Nat := 12

/-- One call of `AESGCM(key).encrypt(nonce, data, aad)`. -/
structure Sealing where
  key : Bytes
  nonce : Bytes
  data : Bytes
  aad : Bytes
  deriving DecidableEq

structure Gcm where
  made : Sealing → Prop
  encrypt : Sealing → Bytes
  decrypt : (key nonce ciphertext aad : Bytes) → Option Bytes
  decrypt_iff : ∀ key nonce ciphertext aad data, decrypt key nonce ciphertext aad = some data ↔
    made ⟨key, nonce, data, aad⟩ ∧ ciphertext = encrypt ⟨key, nonce, data, aad⟩

/-- The constructor of AESGCM raises for a key of another length. -/
def aesgcm (key : Bytes) : Option Bytes :=
  if key.length = 16 ∨ key.length = 24 ∨ key.length = 32 then some key else none

def chunkAad (aad : Option Bytes) (chunkIndex : Nat) : Option Bytes := do
  let index ← pack 8 chunkIndex
  if (aad.getD []).isEmpty then pure index else pure (aad.getD [] ++ index)

section Encrypting

structure Upload where
  data : Bytes
  fileSize : Nat
  chunkSize : Nat
  aad : Option Bytes
  dek : Key
  wrapNonce : Nonce
  chunkNonce : Nat → Nonce

def sealChunks (u : Upload) : (fuel chunkIndex : Nat) → (input : Bytes) → Option (List Sealing)
  | 0, _, _ => some []
  | fuel + 1, chunkIndex, input =>
    let chunk := input.take u.chunkSize
    if chunk = [] then some []
    else do
      let aad ← chunkAad u.aad chunkIndex
      let rest ← sealChunks u fuel (chunkIndex + 1) (input.drop u.chunkSize)
      pure (⟨u.dek.val, (u.chunkNonce chunkIndex).val, chunk, aad⟩ :: rest)

variable (gcm : Gcm) (ring : Ring)

def frame (s : Sealing) : Option Bytes := do
  let size ← pack 4 (gcm.encrypt s).length
  pure (s.nonce ++ size ++ gcm.encrypt s)

def frames : List Sealing → Option Bytes
  | [] => some []
  | s :: rest => do
    let first ← frame gcm s
    let others ← frames rest
    pure (first ++ others)

def encryptStream (u : Upload) : Option (Sealing × List Sealing × Bytes) := do
  let (version, kek) ← ring.getKey none
  let wrapping : Sealing := ⟨kek.val, u.wrapNonce.val, u.dek.val, []⟩
  let wrappedKey := u.wrapNonce.val ++ gcm.encrypt wrapping
  let formatVersion ← pack 1 fileVersion
  let keyVersion ← pack 4 version
  let wrappedKeyLen ← pack 2 wrappedKey.length
  let fileSize ← pack 8 u.fileSize
  let chunkSize ← pack 4 u.chunkSize
  -- every chunk takes at least one byte of the input
  let sealings ← sealChunks u u.data.length 0 u.data
  let body ← frames gcm sealings
  pure (wrapping, sealings, streamMagic ++ formatVersion ++ keyVersion ++ wrappedKeyLen ++
    wrappedKey ++ fileSize ++ chunkSize ++ body)

end Encrypting

section Headers

structure EncryptedFileHeader where
  version : Nat
  keyVersion : Nat
  wrappedKey : Bytes
  nonce : Bytes
  originalSize : Nat
  checksum : List Char
  isStream : Bool

def slice (data : Bytes) (start size : Nat) : Bytes := (data.drop start).take size

/-- The size of a chunk by which a legacy stream is told from a legacy file. -/
def isChunkSize (field : Bytes) : Bool :=
  decide (unpack field ∈ [262144, 524288, 1048576])

def deserializeHeader (data : Bytes) : Option (EncryptedFileHeader × Nat) :=
  let magic := data.take 5
  let wrappedKeyLen := unpack (slice data 10 2)
  let offset := 12 + wrappedKeyLen
  if data.length < 12 then none
  else if magic ≠ fileMagic ∧ magic ≠ streamMagic then none
  else if data.length < offset then none
  else
    let header (nonce : Bytes) (originalSize : Nat) (checksum : List Char) (isStream : Bool) :
        EncryptedFileHeader :=
      ⟨unpack (slice data 5 1), unpack (slice data 6 4), slice data 12 wrappedKeyLen, nonce,
        originalSize, checksum, isStream⟩
    if magic = streamMagic ∨ 12 ≤ data.length - offset ∧ isChunkSize (slice data (offset + 8) 4)
    then
      if data.length < offset + 12 then none
      else some (header [] (unpack (slice data offset 8)) [] true, offset + 12)
    else if data.length < offset + 84 then none
    else if (slice data (offset + 20) 64).all (· < 128) then
      some (header (slice data offset nonceSize) (unpack (slice data (offset + 12) 8))
        ((slice data (offset + 20) 64).map fun byte => Char.ofNat byte.toNat) false, offset + 84)
    else none

/-- What is read and what is left; nothing is read at the end, and a short read is EOFError. -/
def readExactly (n : Nat) (stream : Bytes) : Option (Bytes × Bytes) :=
  if n ≤ stream.length then some (stream.take n, stream.drop n)
  else if stream = [] then some ([], [])
  else none

def deserializeHeaderFromStream (stream : Bytes) : Option (EncryptedFileHeader × Bytes) := do
  let (fixed, stream) ← readExactly 12 stream
  if fixed = [] then none
  else
    let (wrappedKey, stream) ← readExactly (unpack (slice fixed 10 2)) stream
    if fixed.take 5 = streamMagic then
      let (rem, stream) ← readExactly 12 stream
      let (header, _) ← deserializeHeader (fixed ++ wrappedKey ++ rem)
      pure (header, stream)
    else
      let (remStart, stream) ← readExactly 12 stream
      if remStart = [] then none
      else if isChunkSize (slice remStart 8 4) then
        let (header, _) ← deserializeHeader (fixed ++ wrappedKey ++ remStart)
        pure (header, stream)
      else
        let (remEnd, stream) ← readExactly 72 stream
        let (header, _) ← deserializeHeader (fixed ++ wrappedKey ++ remStart ++ remEnd)
        pure (header, stream)

end Headers

section Decrypting

variable (gcm : Gcm) (ring : Ring)

def unwrapKey (wrappedKey : Bytes) (kekVersion : Nat) : Option Bytes := do
  let (_, kek) ← ring.getKey (some kekVersion)
  gcm.decrypt kek.val (wrappedKey.take nonceSize) (wrappedKey.drop nonceSize) []

inductive Next where
  | chunk (data rest : Bytes)
  | stop
  | invalidTag

def nextChunk (dek : Bytes) (aad : Option Bytes) (chunkIndex : Nat) (stream : Bytes) : Next :=
  match readExactly nonceSize stream with
  | none => .stop
  | some (chunkNonce, stream) =>
    if chunkNonce = [] then .stop
    else match readExactly 4 stream with
      | none => .stop
      | some (lenBytes, stream) =>
        if lenBytes = [] then .stop
        else match readExactly (unpack lenBytes) stream with
          | none => .stop
          | some (encryptedChunk, stream) =>
            if encryptedChunk.length < unpack lenBytes then .stop
            else match chunkAad aad chunkIndex with
              | none => .stop
              | some chunkAad =>
                match gcm.decrypt dek chunkNonce encryptedChunk chunkAad with
                | none => .invalidTag
                | some chunk => .chunk chunk stream

/-- The chunks that are yielded, or none for an exception at any point. -/
def decryptChunks (dek : Bytes) (aad : Option Bytes) (originalSize : Nat) :
    (fuel totalDecrypted chunkIndex : Nat) → (stream : Bytes) → Option (List Bytes)
  | 0, totalDecrypted, _, _ => if totalDecrypted < originalSize then none else some []
  | fuel + 1, totalDecrypted, chunkIndex, stream =>
    if totalDecrypted < originalSize then
      match nextChunk gcm dek aad chunkIndex stream with
      | .chunk chunk rest => (decryptChunks dek aad originalSize fuel
          (totalDecrypted + chunk.length) (chunkIndex + 1) rest).map (chunk :: ·)
      | .stop => none
      | .invalidTag => none
    else some []

def decryptStreamGenerator (aad : Option Bytes) (input : Bytes) : Option (List Bytes) := do
  let (header, stream) ← deserializeHeaderFromStream input
  let dek ← unwrapKey gcm ring header.wrappedKey header.keyVersion
  let dek ← aesgcm dek
  -- every round takes at least one byte of the stream
  decryptChunks gcm dek aad header.originalSize stream.length 0 0 stream

def decryptStream (aad : Option Bytes) (input : Bytes) : Option Bytes :=
  (decryptStreamGenerator gcm ring aad input).map List.flatten

end Decrypting

section Reading

theorem readExactly_append {n : Nat} {front : Bytes} (exact : front.length = n) (rest : Bytes) :
    readExactly n (front ++ rest) = some (front, rest) := by
  subst exact
  simp [readExactly]

theorem readExactly_some {n : Nat} {stream front rest : Bytes}
    (h : readExactly n stream = some (front, rest)) :
    stream = front ++ rest ∧ (front = [] ∨ front.length = n) := by
  unfold readExactly at h
  split at h
  · rename_i enough
    cases h
    exact ⟨(List.take_append_drop n stream).symm, Or.inr (List.length_take_of_le enough)⟩
  · split at h
    · rename_i ended
      cases h
      exact ⟨ended, Or.inl rfl⟩
    · cases h

theorem chunkAad_injective {aad : Option Bytes} {i j : Nat} {a : Bytes}
    (first : chunkAad aad i = some a) (second : chunkAad aad j = some a) : i = j := by
  simp only [chunkAad, Option.bind_eq_bind, Option.bind_eq_some_iff] at first second
  obtain ⟨x, packed, hx⟩ := first
  obtain ⟨y, packed', hy⟩ := second
  have same : x = y := by
    split at hx
    · rw [if_pos ‹_›] at hy
      exact (Option.some.inj hx).trans (Option.some.inj hy).symm
    · rw [if_neg ‹_›] at hy
      exact List.append_cancel_left ((Option.some.inj hx).trans (Option.some.inj hy).symm)
  rw [← unpack_pack packed, ← unpack_pack packed', same]

theorem nextChunk_iff {gcm : Gcm} {dek : Bytes} {aad : Option Bytes} {i : Nat}
    {stream chunk rest : Bytes} :
    nextChunk gcm dek aad i stream = .chunk chunk rest ↔
      ∃ nonce size ciphertext bound, stream = nonce ++ (size ++ (ciphertext ++ rest)) ∧
        nonce.length = nonceSize ∧ pack 4 ciphertext.length = some size ∧
        chunkAad aad i = some bound ∧ gcm.decrypt dek nonce ciphertext bound = some chunk := by
  constructor
  · intro h
    unfold nextChunk at h
    split at h
    · cases h
    rename_i nonce stream₁ read
    obtain ⟨rfl, whole⟩ := readExactly_some read
    split at h
    · cases h
    rename_i some_nonce
    split at h
    · cases h
    rename_i size stream₂ read
    obtain ⟨rfl, whole'⟩ := readExactly_some read
    split at h
    · cases h
    rename_i some_size
    split at h
    · cases h
    rename_i ciphertext stream₃ read
    obtain ⟨rfl, whole''⟩ := readExactly_some read
    split at h
    · cases h
    rename_i long
    split at h
    · cases h
    rename_i bound index
    split at h
    · cases h
    rename_i data opened
    cases h
    have length : ciphertext.length = unpack size := by
      rcases whole'' with rfl | exact
      · simp only [List.length_nil, Nat.not_lt] at long ⊢
        omega
      · exact exact
    exact ⟨nonce, size, ciphertext, bound, rfl, whole.resolve_left some_nonce,
      length ▸ pack_unpack (whole'.resolve_left some_size), index, opened⟩
  · rintro ⟨nonce, size, ciphertext, bound, rfl, whole, packed, index, opened⟩
    have some_nonce : nonce ≠ [] := by
      rintro rfl
      cases whole
    have some_size : size ≠ [] := by
      rintro rfl
      cases length_pack packed
    simp only [nextChunk, readExactly_append whole, readExactly_append (length_pack packed),
      if_neg some_nonce, if_neg some_size, unpack_pack packed, readExactly_append rfl,
      Nat.lt_irrefl, if_false, index, opened]

theorem nextChunk_shorter {gcm : Gcm} {dek : Bytes} {aad : Option Bytes} {i : Nat}
    {stream chunk rest : Bytes} (next : nextChunk gcm dek aad i stream = .chunk chunk rest) :
    rest.length < stream.length := by
  obtain ⟨nonce, size, ciphertext, -, rfl, whole, -⟩ := nextChunk_iff.mp next
  simp only [List.length_append, whole, nonceSize]
  omega

variable {gcm : Gcm} {dek : Bytes} {aad : Option Bytes} {size fuel total i : Nat} {stream : Bytes}

theorem decryptChunks_done (done : size ≤ total) :
    decryptChunks gcm dek aad size fuel total i stream = some [] := by
  cases fuel with
  | zero => rw [decryptChunks, if_neg (Nat.not_lt.mpr done)]
  | succ fuel => rw [decryptChunks, if_neg (Nat.not_lt.mpr done)]

theorem decryptChunks_more (enough : stream.length ≤ fuel) (more : total < size)
    {output : List Bytes} :
    decryptChunks gcm dek aad size fuel total i stream = some output ↔
      ∃ chunk rest others, nextChunk gcm dek aad i stream = .chunk chunk rest ∧
        decryptChunks gcm dek aad size (fuel - 1) (total + chunk.length) (i + 1) rest =
          some others ∧ output = chunk :: others := by
  constructor
  · intro h
    cases fuel with
    | zero => simp [decryptChunks, more] at h
    | succ fuel =>
      rw [decryptChunks, if_pos more] at h
      split at h
      · rename_i chunk rest next
        obtain ⟨others, later, rfl⟩ := Option.map_eq_some_iff.mp h
        exact ⟨chunk, rest, others, next, later, rfl⟩
      · cases h
      · cases h
  · rintro ⟨chunk, rest, others, next, later, rfl⟩
    have shorter := nextChunk_shorter next
    obtain ⟨fuel, rfl⟩ := Nat.exists_eq_add_one.mpr (Nat.lt_of_lt_of_le (Nat.zero_lt_of_lt shorter)
      enough)
    rw [decryptChunks, if_pos more, next]
    simp only [Nat.add_sub_cancel] at later
    simp [later]

end Reading

theorem slice_middle {start size : Nat} {data : Bytes} (front middle : Bytes)
    (starts : front ++ middle <+: data) (first : front.length = start)
    (sized : middle.length = size) : slice data start size = middle := by
  obtain ⟨rest, rfl⟩ := starts
  rw [slice, List.append_assoc, List.drop_left' first, List.take_left' sized]

end Plexichat.Encryption.FileFormat
