import Plexichat.Encryption.FileFormat

/-! What decrypt_stream makes of bytes that were altered. Every chunk is bound to its file and its
index, and a short stream is refused; the size in the header, however, is bound to nothing, and
the loop ends where the header says. -/
namespace Plexichat.Encryption.FileFormat
open Wire

def needed : (size : Nat) → List Sealing → Option (List Sealing)
  | 0, _ => some []
  | _ + 1, [] => none
  | n + 1, s :: rest => (needed (n + 1 - s.data.length) rest).map (s :: ·)

structure Sealed (gcm : Gcm) (u : Upload) (wrapping : Sealing) (sealings : List Sealing) : Prop where
  made : ∀ s ∈ wrapping :: sealings, gcm.made s
  only : ∀ s, gcm.made s → s.key = u.dek.val ∨ (∃ i, chunkAad u.aad i = some s.aad) → s ∈ sealings

/-- The header has a key that can be unwrapped, and the body starts with the chunks of the file
up to the size in the header. -/
def Reads (gcm : Gcm) (ring : Ring) (u : Upload) (sealings : List Sealing) (input : Bytes)
    (taken : List Sealing) : Prop :=
  ∃ header body dek, deserializeHeaderFromStream input = some (header, body) ∧
    (unwrapKey gcm ring header.wrappedKey header.keyVersion).bind aesgcm = some dek ∧
    needed header.originalSize sealings = some taken ∧ (taken = [] ∨ dek = u.dek.val) ∧
    ∃ head, frames gcm taken = some head ∧ head <+: body

def Cut (gcm : Gcm) (ring : Ring) (u : Upload) (sealings : List Sealing) (input : Bytes) : Prop :=
  ∃ taken, Reads gcm ring u sealings input taken ∧ taken.length * u.chunkSize < u.data.length

section Chunks

theorem sealChunks_get {u : Upload} {fuel first : Nat} {input : Bytes} {sealings : List Sealing}
    (h : sealChunks u fuel first input = some sealings) {i : Nat} {s : Sealing}
    (there : sealings[i]? = some s) :
    s.key = u.dek.val ∧ s.nonce.length = nonceSize ∧ chunkAad u.aad (first + i) = some s.aad ∧
      s.data ≠ [] := by
  induction fuel generalizing first input sealings i with
  | zero =>
    cases h
    cases there
  | succ fuel ih =>
    simp only [sealChunks] at h
    split at h
    · cases h
      cases there
    · rename_i more
      simp only [Option.bind_eq_bind, Option.bind_eq_some_iff] at h
      obtain ⟨aad, bound, rest, later, result⟩ := h
      cases result
      cases i with
      | zero =>
        cases there
        exact ⟨rfl, (u.chunkNonce first).property, bound, more⟩
      | succ i =>
        have found := ih later there
        rwa [show first + 1 + i = first + (i + 1) by omega] at found

theorem sealChunks_take {u : Upload} {fuel first : Nat} {input : Bytes} {sealings : List Sealing}
    (h : sealChunks u fuel first input = some sealings) (enough : input.length ≤ fuel) (k : Nat) :
    ((sealings.take k).map Sealing.data).flatten = input.take (k * u.chunkSize) := by
  induction fuel generalizing first input sealings k with
  | zero =>
    cases h
    have empty : input = [] := List.eq_nil_of_length_eq_zero (Nat.le_zero.mp enough)
    simp [empty]
  | succ fuel ih =>
    simp only [sealChunks] at h
    split at h
    · rename_i ended
      cases h
      rcases List.take_eq_nil_iff.mp ended with none | empty
      · simp [none]
      · simp [empty]
    · rename_i more
      simp only [Option.bind_eq_bind, Option.bind_eq_some_iff] at h
      obtain ⟨aad, -, rest, later, result⟩ := h
      cases result
      cases k with
      | zero => simp
      | succ k =>
        have shorter : (input.drop u.chunkSize).length ≤ fuel := by
          have := List.length_pos_iff.mpr more
          rw [List.length_take] at this
          rw [List.length_drop]
          omega
        rw [List.take_succ_cons, List.map_cons, List.flatten_cons, ih later shorter k,
          Nat.succ_mul, Nat.add_comm, List.take_add]

theorem needed_prefix {size : Nat} {sealings taken : List Sealing}
    (h : needed size sealings = some taken) : taken = sealings.take taken.length := by
  induction sealings generalizing size taken with
  | nil =>
    cases size with
    | zero => cases h; rfl
    | succ n => cases h
  | cons s rest ih =>
    cases size with
    | zero => cases h; rfl
    | succ n =>
      obtain ⟨others, later, rfl⟩ := Option.map_eq_some_iff.mp h
      rw [List.length_cons, List.take_succ_cons, ← ih later]

theorem needed_more {size : Nat} (more : 0 < size) {sealings taken : List Sealing} :
    needed size sealings = some taken ↔ ∃ s rest others, sealings = s :: rest ∧
      needed (size - s.data.length) rest = some others ∧ taken = s :: others := by
  obtain ⟨n, rfl⟩ := Nat.exists_eq_add_one.mpr more
  cases sealings with
  | nil => simp [needed]
  | cons s rest =>
    simp only [needed, Option.map_eq_some_iff, List.cons.injEq]
    constructor
    · rintro ⟨others, later, rfl⟩
      exact ⟨s, rest, others, ⟨rfl, rfl⟩, later, rfl⟩
    · rintro ⟨s, rest, others, ⟨rfl, rfl⟩, later, rfl⟩
      exact ⟨others, later, rfl⟩

theorem frames_cons {gcm : Gcm} {s : Sealing} {rest : List Sealing} {head : Bytes} :
    frames gcm (s :: rest) = some head ↔ ∃ first others, frame gcm s = some first ∧
      frames gcm rest = some others ∧ head = first ++ others := by
  simp only [frames, Option.bind_eq_bind, Option.bind_eq_some_iff, Option.pure_def,
    Option.some.injEq]
  constructor
  · rintro ⟨first, framed, others, later, rfl⟩
    exact ⟨first, others, framed, later, rfl⟩
  · rintro ⟨first, others, framed, later, rfl⟩
    exact ⟨first, framed, others, later, rfl⟩

end Chunks

section Loop

variable {gcm : Gcm} {u : Upload} {wrapping : Sealing} {sealings : List Sealing}
  (h : sealChunks u u.data.length 0 u.data = some sealings)
  (sealed : Sealed gcm u wrapping sealings)
include h sealed

theorem decrypt_chunk {i : Nat} {aad : Bytes} (bound : chunkAad u.aad i = some aad)
    (dek nonce ciphertext data : Bytes) :
    gcm.decrypt dek nonce ciphertext aad = some data ↔ dek = u.dek.val ∧
      ∃ s, sealings[i]? = some s ∧ nonce = s.nonce ∧ ciphertext = gcm.encrypt s ∧
        data = s.data := by
  rw [gcm.decrypt_iff]
  constructor
  · rintro ⟨made, rfl⟩
    obtain ⟨j, found⟩ := List.mem_iff_getElem?.mp (sealed.only _ made (Or.inr ⟨i, bound⟩))
    obtain ⟨key, -, index, -⟩ := sealChunks_get h found
    have same : i = j := by
      rw [Nat.zero_add] at index
      exact chunkAad_injective bound index
    subst same
    exact ⟨key, _, found, rfl, rfl, rfl⟩
  · rintro ⟨rfl, s, found, rfl, rfl, rfl⟩
    obtain ⟨key, -, index, -⟩ := sealChunks_get h found
    rw [Nat.zero_add, bound] at index
    have same : (⟨u.dek.val, s.nonce, s.data, aad⟩ : Sealing) = s := by
      rw [← key, Option.some.inj index]
    rw [same]
    exact ⟨sealed.made s (List.mem_cons_of_mem _ (List.mem_of_getElem? found)), rfl⟩

theorem nextChunk_sealed (dek : Bytes) (i : Nat) (stream chunk rest : Bytes) :
    nextChunk gcm dek u.aad i stream = .chunk chunk rest ↔ dek = u.dek.val ∧
      ∃ s, sealings[i]? = some s ∧ chunk = s.data ∧
        ∃ front, frame gcm s = some front ∧ stream = front ++ rest := by
  rw [nextChunk_iff]
  constructor
  · rintro ⟨nonce, size, ciphertext, bound, rfl, -, packed, index, opened⟩
    obtain ⟨rfl, s, found, rfl, rfl, rfl⟩ := (decrypt_chunk h sealed index ..).mp opened
    refine ⟨rfl, s, found, rfl, s.nonce ++ size ++ gcm.encrypt s, ?_, ?_⟩
    · simp [frame, packed]
    · simp
  · rintro ⟨rfl, s, found, rfl, front, framed, rfl⟩
    obtain ⟨-, whole, index, -⟩ := sealChunks_get h found
    rw [Nat.zero_add] at index
    simp only [frame, Option.bind_eq_bind, Option.bind_eq_some_iff] at framed
    obtain ⟨size, packed, result⟩ := framed
    cases result
    refine ⟨s.nonce, size, gcm.encrypt s, s.aad, by simp, whole, packed, index, ?_⟩
    exact (decrypt_chunk h sealed index ..).mpr ⟨rfl, s, found, rfl, rfl, rfl⟩

theorem decryptChunks_iff (dek : Bytes) (size : Nat) {fuel : Nat} (total i : Nat) {stream : Bytes}
    (enough : stream.length ≤ fuel) (output : List Bytes) :
    decryptChunks gcm dek u.aad size fuel total i stream = some output ↔
      ∃ taken, needed (size - total) (sealings.drop i) = some taken ∧
        (taken = [] ∨ dek = u.dek.val) ∧
        (∃ head, frames gcm taken = some head ∧ head <+: stream) ∧
        output = taken.map Sealing.data := by
  induction bytes : stream.length using Nat.strong_induction_on
    generalizing fuel total i stream output with
  | _ n ih =>
    rcases Nat.lt_or_ge total size with more | done
    · have left : 0 < size - total := Nat.sub_pos_of_lt more
      rw [decryptChunks_more enough more]
      constructor
      · rintro ⟨chunk, rest, others, next, later, rfl⟩
        have shorter := nextChunk_shorter next
        obtain ⟨own, s, found, rfl, front, framed, rfl⟩ := (nextChunk_sealed h sealed ..).mp next
        obtain ⟨taken, reached, -, ⟨tail, framed', head⟩, rfl⟩ :=
          (ih _ (bytes ▸ shorter) _ _ (by omega) others rfl).mp later
        refine ⟨s :: taken, (needed_more left).mpr ⟨s, sealings.drop (i + 1), taken, ?_, ?_, rfl⟩,
          Or.inr own, ⟨front ++ tail, frames_cons.mpr ⟨front, tail, framed, framed', rfl⟩, ?_⟩, rfl⟩
        · obtain ⟨inside, rfl⟩ := List.getElem?_eq_some_iff.mp found
          exact List.drop_eq_getElem_cons inside
        · rwa [Nat.sub_sub]
        · exact (List.prefix_append_right_inj front).mpr head
      · rintro ⟨taken, reached, own, ⟨head, whole, start⟩, rfl⟩
        obtain ⟨s, rest, others, split, later, rfl⟩ := (needed_more left).mp reached
        obtain ⟨front, tail, first, framed, rfl⟩ := frames_cons.mp whole
        have own := own.resolve_left (List.cons_ne_nil _ _)
        obtain ⟨left, rfl⟩ := start
        have found : sealings[i]? = some s := by
          rw [← List.head?_drop, split, List.head?_cons]
        have next := (nextChunk_sealed h sealed dek i (front ++ tail ++ left) s.data
          (tail ++ left)).mpr ⟨own, s, found, rfl, front, first, List.append_assoc ..⟩
        have shorter := nextChunk_shorter next
        refine ⟨s.data, tail ++ left, _, next, ?_, rfl⟩
        refine (ih _ (bytes ▸ shorter) _ _ (by omega) _ rfl).mpr ⟨others, ?_, Or.inr own,
          ⟨tail, framed, List.prefix_append ..⟩, rfl⟩
        rw [← Nat.sub_sub, ← List.drop_drop, split]
        exact later
    · rw [decryptChunks_done done, Nat.sub_eq_zero_of_le done]
      simp only [needed, Option.some.injEq]
      constructor
      · rintro rfl
        exact ⟨[], rfl, Or.inl rfl, ⟨[], rfl, List.nil_prefix⟩, rfl⟩
      · rintro ⟨taken, rfl, -, -, rfl⟩
        rfl

theorem decryptStream_iff (ring : Ring) (input output : Bytes) :
    decryptStream gcm ring u.aad input = some output ↔
      ∃ taken, Reads gcm ring u sealings input taken ∧
        output = (taken.map Sealing.data).flatten := by
  simp only [decryptStream, decryptStreamGenerator, Option.map_eq_some_iff, Option.bind_eq_bind,
    Option.bind_eq_some_iff]
  constructor
  · rintro ⟨chunks, ⟨⟨header, body⟩, parsed, wrapped, opened, dek, key, looped⟩, rfl⟩
    obtain ⟨taken, reached, own, start, rfl⟩ :=
      (decryptChunks_iff h sealed dek header.originalSize 0 0 le_rfl chunks).mp looped
    refine ⟨taken, ⟨header, body, dek, parsed, ?_, reached, own, start⟩, rfl⟩
    rw [opened, Option.bind_some, key]
  · rintro ⟨taken, ⟨header, body, dek, parsed, unwrapped, reached, own, start⟩, rfl⟩
    obtain ⟨wrapped, opened, key⟩ := Option.bind_eq_some_iff.mp unwrapped
    refine ⟨_, ⟨(header, body), parsed, wrapped, opened, dek, key, ?_⟩, rfl⟩
    exact (decryptChunks_iff h sealed dek header.originalSize 0 0 le_rfl _).mpr
      ⟨taken, reached, own, start, rfl⟩

omit sealed in
theorem Reads.output {ring : Ring} {input : Bytes} {taken : List Sealing}
    (reads : Reads gcm ring u sealings input taken) :
    (taken.map Sealing.data).flatten = u.data.take (taken.length * u.chunkSize) := by
  obtain ⟨header, body, dek, -, -, reached, -⟩ := reads
  rw [← sealChunks_take h le_rfl taken.length, ← needed_prefix reached]

end Loop

section Files

variable {gcm : Gcm} {ring : Ring} {u : Upload} {wrapping : Sealing} {sealings : List Sealing}
  {blob : Bytes} (encrypted : encryptStream gcm ring u = some (wrapping, sealings, blob))
  (sealed : Sealed gcm u wrapping sealings)
include encrypted

theorem sealChunks_of_encryptStream : sealChunks u u.data.length 0 u.data = some sealings := by
  simp only [encryptStream, Option.bind_eq_bind, Option.bind_eq_some_iff, Option.pure_def,
    Option.some.injEq, Prod.mk.injEq] at encrypted
  obtain ⟨-, -, -, -, -, -, -, -, -, -, -, -, sealings, chunks, -, -, -, rfl, -⟩ := encrypted
  exact chunks

include sealed

/-- Bytes that are no cut of the file are refused, or decrypt to the file. -/
theorem altered_file_raises_or_agrees (ring' : Ring) (altered : Bytes) :
    decryptStream gcm ring' u.aad altered = none ∨
        decryptStream gcm ring' u.aad altered = some u.data ↔
      ¬ Cut gcm ring' u sealings altered := by
  have chunks := sealChunks_of_encryptStream encrypted
  constructor
  · rintro answer ⟨taken, reads, early⟩
    have result := (decryptStream_iff chunks sealed ring' altered _).mpr ⟨taken, reads, rfl⟩
    rw [reads.output chunks] at result
    rcases answer with none | agrees
    · rw [result] at none
      cases none
    · rw [result] at agrees
      have same := congrArg List.length (Option.some.inj agrees)
      rw [List.length_take] at same
      omega
  · intro whole
    cases result : decryptStream gcm ring' u.aad altered with
    | none => exact Or.inl rfl
    | some output =>
      obtain ⟨taken, reads, rfl⟩ := (decryptStream_iff chunks sealed ring' altered _).mp result
      have all : u.data.length ≤ taken.length * u.chunkSize := by
        by_contra early
        exact whole ⟨taken, reads, Nat.lt_of_not_le early⟩
      rw [reads.output chunks, List.take_of_length_le all]
      exact Or.inr rfl

end Files

section Witnesses

/-- AES-GCM as it has sealed these so far; the tag says nothing, what was sealed is looked up. -/
def gcmAfter (log : List Sealing) : Gcm where
  made := (· ∈ log)
  encrypt := fun s => s.data ++ List.replicate 16 0
  decrypt := fun key nonce ciphertext aad => (log.find? fun s => s.key = key ∧ s.nonce = nonce ∧
    s.aad = aad ∧ ciphertext = s.data ++ List.replicate 16 0).map Sealing.data
  decrypt_iff := by
    intro key nonce ciphertext aad data
    rw [Option.map_eq_some_iff]
    constructor
    · rintro ⟨s, found, rfl⟩
      have same := List.find?_some found
      simp only [decide_eq_true_eq] at same
      obtain ⟨rfl, rfl, rfl, rfl⟩ := same
      exact ⟨List.mem_of_find?_eq_some found, rfl⟩
    · rintro ⟨made, rfl⟩
      have found : (log.find? fun s => s.key = key ∧ s.nonce = nonce ∧ s.aad = aad ∧
          data ++ List.replicate 16 0 = s.data ++ List.replicate 16 0).isSome := by
        rw [List.find?_isSome]
        exact ⟨_, made, by simp⟩
      obtain ⟨s, found⟩ := Option.isSome_iff_exists.mp found
      have same := List.find?_some found
      simp only [decide_eq_true_eq] at same
      exact ⟨s, found, (List.append_cancel_right same.2.2.2).symm⟩

def twoChunks : Upload where
  data := [7, 8]
  fileSize := 2
  chunkSize := 1
  aad := none
  dek := sampleKey 1
  wrapNonce := sampleNonce 0
  chunkNonce := fun i => sampleNonce (UInt8.ofNat i)

def fileRing : Ring := Ring.empty.ensureKey (sampleKey 0)

def wrapping : Sealing := ⟨(sampleKey 0).val, (sampleNonce 0).val, (sampleKey 1).val, []⟩

def chunkSealings : List Sealing :=
  [⟨(sampleKey 1).val, (sampleNonce 0).val, [7], [0, 0, 0, 0, 0, 0, 0, 0]⟩,
    ⟨(sampleKey 1).val, (sampleNonce 1).val, [8], [0, 0, 0, 0, 0, 0, 0, 1]⟩]

def sampleGcm : Gcm := gcmAfter (wrapping :: chunkSealings)

def sampleBlob : Bytes :=
  ((encryptStream sampleGcm fileRing twoChunks).map fun made => made.2.2).getD []

def resized (size : UInt8) : Bytes :=
  sampleBlob.take 72 ++ [0, 0, 0, 0, 0, 0, 0, size] ++ sampleBlob.drop 80

theorem encryptStream_sample : encryptStream sampleGcm fileRing twoChunks =
    some (wrapping, chunkSealings, sampleBlob) := by decide +kernel

theorem sealed_sample : Sealed sampleGcm twoChunks wrapping chunkSealings where
  made := fun s there => there
  only := by
    intro s made own
    rcases List.mem_cons.mp made with rfl | chunk
    · rcases own with key | ⟨i, bound⟩
      · revert key
        decide
      · simp only [chunkAad, Option.bind_eq_bind, Option.bind_eq_some_iff] at bound
        obtain ⟨index, packed, result⟩ := bound
        cases result
        cases length_pack packed
    · exact chunk

/-- A header with the size 1 cuts the second chunk off. -/
theorem smaller_size_cuts_the_file :
    ¬ ∀ (gcm : Gcm) (ring : Ring) (u : Upload) (wrapping : Sealing) (sealings : List Sealing)
      (blob : Bytes), u.fileSize = u.data.length →
      encryptStream gcm ring u = some (wrapping, sealings, blob) → Sealed gcm u wrapping sealings →
      ∀ altered, altered ≠ blob → decryptStream gcm ring u.aad altered = none ∨
        decryptStream gcm ring u.aad altered = some u.data := by
  intro law
  have different : resized 1 ≠ sampleBlob := by decide +kernel
  have answer := law sampleGcm fileRing twoChunks wrapping chunkSealings sampleBlob rfl
    encryptStream_sample sealed_sample (resized 1) different
  have short : decryptStream sampleGcm fileRing none (resized 1) = some [7] := by decide +kernel
  rw [show twoChunks.aad = none from rfl, short] at answer
  revert answer
  decide

/-- The two bytes are read back whole, and with the size 1 they are not. -/
theorem smaller_size_is_a_cut :
    ¬ Cut sampleGcm fileRing twoChunks chunkSealings sampleBlob ∧
      Cut sampleGcm fileRing twoChunks chunkSealings (resized 1) := by
  have law := altered_file_raises_or_agrees encryptStream_sample sealed_sample fileRing
  constructor
  · exact (law sampleBlob).mp (Or.inr (by decide +kernel))
  · by_contra whole
    have short : decryptStream sampleGcm fileRing twoChunks.aad (resized 1) = some [7] := by
      decide +kernel
    rcases (law (resized 1)).mpr whole with none | agrees
    · rw [short] at none
      cases none
    · rw [short] at agrees
      revert agrees
      decide

end Witnesses

end Plexichat.Encryption.FileFormat
