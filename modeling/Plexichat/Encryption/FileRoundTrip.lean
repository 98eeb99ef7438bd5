import Plexichat.Encryption.FileIntegrity
import Plexichat.Encryption.HeaderCodec
import Plexichat.Encryption.MessageEncryptor

/-! A file that was encrypted as a stream is decrypted again, from the stream and from the whole
blob, whatever else has been sealed under its key. -/
namespace Plexichat.Encryption.FileFormat
open Wire

/-- `decrypt_from_blob`: a blob with a stream header is read as a stream. -/
def decryptFromBlob (gcm : Gcm) (ring : Ring) (aad : Option Bytes) (blob : Bytes) :
    Option Bytes := do
  let (header, headerSize) ← deserializeHeader blob
  if header.isStream then decryptStream gcm ring aad blob
  else
    let dek ← unwrapKey gcm ring header.wrappedKey header.keyVersion
    let dek ← aesgcm dek
    gcm.decrypt dek header.nonce (blob.drop headerSize) (aad.getD [])

def wholeFile (data : Bytes) (chunkSize : Nat) (aad : Option Bytes) (dek : Key) (wrapNonce : Nonce)
    (chunkNonce : Nat → Nonce) : Upload :=
  ⟨data, data.length, chunkSize, aad, dek, wrapNonce, chunkNonce⟩

/-- `CHUNK_SIZE`, which encrypt_to_blob uses. -/
def defaultChunkSize : Nat := 262144

/-- `encrypt_to_blob`, with what is sealed on the way. -/
def encryptToBlob (gcm : Gcm) (ring : Ring) (data : Bytes) (aad : Option Bytes) (dek : Key)
    (wrapNonce : Nonce) (chunkNonce : Nat → Nonce) : Option (Sealing × List Sealing × Bytes) :=
  encryptStream gcm ring (wholeFile data defaultChunkSize aad dek wrapNonce chunkNonce)

section Chunks

variable {gcm : Gcm} {dek : Bytes} {aad : Option Bytes}

/-- The chunks are sealed under their indexes from `first` on. -/
def Indexed (dek : Bytes) (aad : Option Bytes) (first : Nat) (sealings : List Sealing) : Prop :=
  ∀ i s, sealings[i]? = some s → s.key = dek ∧ s.nonce.length = nonceSize ∧
    chunkAad aad (first + i) = some s.aad ∧ s.data ≠ []

theorem Indexed.tail {first : Nat} {s : Sealing} {sealings : List Sealing}
    (indexed : Indexed dek aad first (s :: sealings)) : Indexed dek aad (first + 1) sealings := by
  intro i t there
  have found := indexed (i + 1) t there
  rwa [show first + (i + 1) = first + 1 + i by omega] at found

theorem nextChunk_frame {first : Nat} {s : Sealing} (made : gcm.made s) (key : s.key = dek)
    (nonce : s.nonce.length = nonceSize) (index : chunkAad aad first = some s.aad) {front : Bytes}
    (framed : frame gcm s = some front) (rest : Bytes) :
    nextChunk gcm dek aad first (front ++ rest) = .chunk s.data rest := by
  simp only [frame, Option.bind_eq_bind, Option.bind_eq_some_iff, Option.pure_def,
    Option.some.injEq] at framed
  obtain ⟨size, packed, rfl⟩ := framed
  have opened : gcm.decrypt dek s.nonce (gcm.encrypt s) s.aad = some s.data := by
    rw [← key]
    exact (gcm.decrypt_iff _ _ _ _ _).mpr ⟨made, rfl⟩
  exact nextChunk_iff.mpr ⟨s.nonce, size, gcm.encrypt s, s.aad, by simp, nonce, packed, index, opened⟩

theorem decryptChunks_frames {sealings : List Sealing} (made : ∀ s ∈ sealings, gcm.made s)
    {first fuel total size : Nat} (indexed : Indexed dek aad first sealings) {body : Bytes}
    (framed : frames gcm sealings = some body) (enough : body.length ≤ fuel)
    (sized : total + (sealings.map Sealing.data).flatten.length = size) :
    decryptChunks gcm dek aad size fuel total first body = some (sealings.map Sealing.data) := by
  induction sealings generalizing first fuel total body with
  | nil => exact decryptChunks_done (Nat.le_of_eq sized.symm)
  | cons s sealings ih =>
    obtain ⟨front, others, first_frame, later, rfl⟩ := frames_cons.mp framed
    obtain ⟨key, nonce, index, some_data⟩ := indexed 0 s rfl
    have next := nextChunk_frame (made s List.mem_cons_self) key nonce index first_frame others
    have shorter := nextChunk_shorter next
    have positive := List.length_pos_iff.mpr some_data
    rw [List.map_cons, List.flatten_cons, List.length_append] at sized
    refine (decryptChunks_more enough (by omega)).mpr
      ⟨s.data, others, sealings.map Sealing.data, next, ?_, rfl⟩
    exact ih (fun t member => made t (List.mem_cons_of_mem s member)) indexed.tail later (by omega)
      (by omega)

end Chunks

section Files

variable {gcm : Gcm} {ring ring' : Ring} {u : Upload} {wrapping : Sealing} {sealings : List Sealing}
  {blob : Bytes}

theorem stream_opened (later : ring.Extends ring') (encrypted : encryptStream gcm ring u = some (wrapping, sealings, blob))
    (made : gcm.made wrapping) : ∃ header size body, deserializeHeader blob = some (header, size) ∧
      deserializeHeaderFromStream blob = some (header, body) ∧ header.isStream = true ∧
      header.originalSize = u.fileSize ∧
      unwrapKey gcm ring' header.wrappedKey header.keyVersion = some u.dek.val ∧
      frames gcm sealings = some body := by
  obtain ⟨header, front, body, shape, original, written, framed, wrapped, ⟨kek, current, rfl⟩, rfl⟩ :=
    encryptStream_front encrypted
  obtain ⟨parsed, streamed⟩ := current_readsBack shape written body
  refine ⟨header, front.length, body, parsed, streamed, shape.format, original, ?_, framed⟩
  have found := Ring.getKey_of_binds (later _ _ (Ring.binds_of_getKey current).2)
  have opened := (gcm.decrypt_iff kek.val u.wrapNonce.val _ [] u.dek.val).mpr ⟨made, rfl⟩
  simp [unwrapKey, found, wrapped, nonceSize, take_nonce, drop_nonce, opened]

theorem decryptFromBlob_eq (later : ring.Extends ring')
    (encrypted : encryptStream gcm ring u = some (wrapping, sealings, blob))
    (made : gcm.made wrapping) :
    decryptFromBlob gcm ring' u.aad blob = decryptStream gcm ring' u.aad blob := by
  obtain ⟨header, size, -, parsed, -, format, -⟩ := stream_opened later encrypted made
  simp [decryptFromBlob, parsed, format]

theorem decryptStream_eq (later : ring.Extends ring')
    (encrypted : encryptStream gcm ring u = some (wrapping, sealings, blob))
    (made : gcm.made wrapping) : ∃ body, frames gcm sealings = some body ∧
      decryptStream gcm ring' u.aad blob =
        (decryptChunks gcm u.dek.val u.aad u.fileSize body.length 0 0 body).map List.flatten := by
  obtain ⟨header, -, body, -, streamed, -, original, unwrapped, framed⟩ :=
    stream_opened later encrypted made
  refine ⟨body, framed, ?_⟩
  simp [decryptStream, decryptStreamGenerator, streamed, unwrapped, aesgcm, u.dek.property, original]

end Files

section RoundTrip

variable {gcm : Gcm} {ring ring' : Ring} {data : Bytes} {chunkSize : Nat} {aad : Option Bytes} {dek : Key}
  {wrapNonce : Nonce} {chunkNonce : Nat → Nonce} {wrapping : Sealing} {sealings : List Sealing}
  {blob : Bytes}

theorem sealChunks_whole {u : Upload} (cut : 0 < u.chunkSize ∨ u.data = [])
    (chunks : sealChunks u u.data.length 0 u.data = some sealings) :
    (sealings.map Sealing.data).flatten = u.data := by
  have all := sealChunks_take chunks le_rfl (sealings.length + u.data.length)
  rw [List.take_of_length_le (Nat.le_add_right ..)] at all
  rw [all]
  apply List.take_of_length_le
  rcases cut with positive | empty
  · exact (Nat.le_add_left ..).trans (Nat.le_mul_of_pos_right _ positive)
  · simp [empty]

theorem reads_back_later (later : ring.Extends ring')
    (encrypted : encryptStream gcm ring (wholeFile data chunkSize aad dek wrapNonce chunkNonce) =
      some (wrapping, sealings, blob)) (made : ∀ s ∈ wrapping :: sealings, gcm.made s)
    (cut : 0 < chunkSize ∨ data = []) :
    decryptStream gcm ring' aad blob = some data ∧ decryptFromBlob gcm ring' aad blob = some data := by
  have opened := made wrapping List.mem_cons_self
  have chunks := sealChunks_of_encryptStream encrypted
  obtain ⟨body, framed, streamed⟩ := decryptStream_eq later encrypted opened
  have buffered := decryptFromBlob_eq later encrypted opened
  have whole := sealChunks_whole (u := wholeFile data chunkSize aad dek wrapNonce chunkNonce) cut
    chunks
  simp only [wholeFile] at streamed buffered chunks whole
  have indexed : Indexed dek.val aad 0 sealings := fun i s there => sealChunks_get chunks there
  have sized : 0 + (sealings.map Sealing.data).flatten.length = data.length := by
    rw [whole, Nat.zero_add]
  have looped := decryptChunks_frames (fun s member => made s (List.mem_cons_of_mem _ member))
    indexed framed le_rfl sized
  rw [buffered, and_self, streamed, looped, Option.map_some, whole]

theorem reads_back
    (encrypted : encryptStream gcm ring (wholeFile data chunkSize aad dek wrapNonce chunkNonce) =
      some (wrapping, sealings, blob)) (made : ∀ s ∈ wrapping :: sealings, gcm.made s)
    (cut : 0 < chunkSize ∨ data = []) :
    decryptStream gcm ring aad blob = some data ∧ decryptFromBlob gcm ring aad blob = some data :=
  reads_back_later (Ring.Extends.refl ring) encrypted made cut

theorem empty_chunks_lost
    (encrypted : encryptStream gcm ring (wholeFile data 0 aad dek wrapNonce chunkNonce) =
      some (wrapping, sealings, blob)) (made : gcm.made wrapping) (some_data : data ≠ []) :
    decryptStream gcm ring aad blob = none := by
  have chunks := sealChunks_of_encryptStream encrypted
  obtain ⟨body, framed, streamed⟩ := decryptStream_eq (Ring.Extends.refl ring) encrypted made
  simp only [wholeFile] at streamed chunks
  have positive := List.length_pos_iff.mpr some_data
  have nothing : sealings = [] := by
    obtain ⟨n, long⟩ := Nat.exists_eq_add_one.mpr positive
    rw [long, sealChunks, List.take_zero, if_pos rfl] at chunks
    exact (Option.some.inj chunks).symm
  rw [nothing] at framed
  cases framed
  rw [streamed]
  simp [decryptChunks, positive]

/-- Both decryptors give the bytes of the file back, unless it was cut into chunks of no length. -/
theorem file_round_trip_iff
    (encrypted : encryptStream gcm ring (wholeFile data chunkSize aad dek wrapNonce chunkNonce) =
      some (wrapping, sealings, blob)) (made : ∀ s ∈ wrapping :: sealings, gcm.made s) :
    (decryptStream gcm ring aad blob = some data ∧ decryptFromBlob gcm ring aad blob = some data) ↔
      0 < chunkSize ∨ data = [] := by
  constructor
  · rintro ⟨back, -⟩
    by_contra cut
    obtain ⟨none_long, some_data⟩ := not_or.mp cut
    obtain rfl := Nat.eq_zero_of_not_pos none_long
    rw [empty_chunks_lost encrypted (made wrapping List.mem_cons_self) some_data] at back
    cases back
  · exact reads_back encrypted made

/-- A blob of encrypt_to_blob is read back under the keyring that any calls leave, however often it
is rotated, and whatever else is sealed. -/
theorem blob_survives_keyring_calls
    (encrypted : encryptToBlob gcm ring data aad dek wrapNonce chunkNonce =
      some (wrapping, sealings, blob)) (made : ∀ s ∈ wrapping :: sealings, gcm.made s)
    (calls : Transition.Reachable keyringStep (· = ring) ring') :
    decryptStream gcm ring' aad blob = some data ∧ decryptFromBlob gcm ring' aad blob = some data :=
  reads_back_later (reachable_extends calls) encrypted made (.inl (by decide))

end RoundTrip

section Samples

def noChunks : Upload :=
  wholeFile [7] 0 none (sampleKey 1) (sampleNonce 0) fun i => sampleNonce (UInt8.ofNat i)

def noChunksBlob : Bytes :=
  ((encryptStream sampleGcm fileRing noChunks).map fun made => made.2.2).getD []

/-- The byte is not written, and neither decryptor reads the blob. -/
theorem zero_chunk_size_loses_the_file : ¬ ∀ (gcm : Gcm) (ring : Ring) (data : Bytes)
    (chunkSize : Nat) (aad : Option Bytes) (dek : Key) (wrapNonce : Nonce) (chunkNonce : Nat → Nonce)
    (wrapping : Sealing) (sealings : List Sealing) (blob : Bytes),
    encryptStream gcm ring (wholeFile data chunkSize aad dek wrapNonce chunkNonce) =
      some (wrapping, sealings, blob) → (∀ s ∈ wrapping :: sealings, gcm.made s) →
    decryptStream gcm ring aad blob = some data ∧
      decryptFromBlob gcm ring aad blob = some data := by
  intro law
  have encrypted : encryptStream sampleGcm fileRing noChunks = some (wrapping, [], noChunksBlob) := by
    decide +kernel
  have made : ∀ s ∈ [wrapping], sampleGcm.made s :=
    fun s member => List.mem_cons.mpr (.inl (List.mem_singleton.mp member))
  have lost := empty_chunks_lost encrypted (made wrapping List.mem_cons_self) (by decide)
  rw [(law _ _ _ _ _ _ _ _ _ _ _ encrypted made).1] at lost
  cases lost

/-- Two chunks of one byte come back through both. -/
theorem file_round_trip_two_chunks : decryptStream sampleGcm fileRing none sampleBlob = some [7, 8] ∧
    decryptFromBlob sampleGcm fileRing none sampleBlob = some [7, 8] := by
  have encrypted : encryptStream sampleGcm fileRing (wholeFile [7, 8] 1 none (sampleKey 1)
      (sampleNonce 0) fun i => sampleNonce (UInt8.ofNat i)) =
        some (wrapping, chunkSealings, sampleBlob) := encryptStream_sample
  exact (file_round_trip_iff encrypted fun _ member => member).mpr (.inl (by decide))

def oneByteBlob : Bytes :=
  ((encryptToBlob sampleGcm fileRing [7] none (sampleKey 1) (sampleNonce 0) fun _ =>
    sampleNonce 0).map fun made => made.2.2).getD []

/-- A byte that was sealed before a rotation. -/
theorem blob_survives_rotation :
    decryptStream sampleGcm (fileRing.rotate (sampleKey 2)) none oneByteBlob = some [7] ∧
      decryptFromBlob sampleGcm (fileRing.rotate (sampleKey 2)) none oneByteBlob = some [7] := by
  have encrypted : encryptToBlob sampleGcm fileRing [7] none (sampleKey 1) (sampleNonce 0)
      (fun _ => sampleNonce 0) = some (wrapping, chunkSealings.take 1, oneByteBlob) := by
    decide +kernel
  refine blob_survives_keyring_calls encrypted ?_
    (.step (a := .rotate (sampleKey 2)) (.start rfl) trivial rfl)
  exact fun s member => List.mem_cons.mpr ((List.mem_cons.mp member).imp_right List.mem_of_mem_take)

end Samples

end Plexichat.Encryption.FileFormat
