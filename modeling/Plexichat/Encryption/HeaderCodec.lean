import Plexichat.Encryption.FileFormat

/-! The header codec of file_encryption.py. Headers are written in the legacy layout by
serialize_header and in the current layout at the front of a stream; two readers take either. -/
namespace Plexichat.Encryption.FileFormat
open Wire

/-- `str.encode("ascii")`. -/
def encodeAscii (text : List Char) : Option Bytes :=
  if text.all (·.toNat < 128) then some (text.map fun c => UInt8.ofNat c.toNat) else none

def fixedPart (magic : Bytes) (header : EncryptedFileHeader) : Option Bytes := do
  let version ← pack 1 header.version
  let keyVersion ← pack 4 header.keyVersion
  let wrappedKeyLen ← pack 2 header.wrappedKey.length
  pure (magic ++ version ++ keyVersion ++ wrappedKeyLen)

def serializeHeader (header : EncryptedFileHeader) : Option Bytes := do
  let fixed ← fixedPart fileMagic header
  let originalSize ← pack 8 header.originalSize
  let checksum ← encodeAscii header.checksum
  pure (fixed ++ header.wrappedKey ++ (header.nonce ++ originalSize ++ checksum))

def streamHeader (header : EncryptedFileHeader) (chunkSize : Nat) : Option Bytes := do
  let fixed ← fixedPart streamMagic header
  let fileSize ← pack 8 header.originalSize
  let chunkSize ← pack 4 chunkSize
  pure (fixed ++ header.wrappedKey ++ (fileSize ++ chunkSize))

/-- The `encrypt` of FileEncryptor with the header it returns. -/
def encrypt (gcm : Gcm) (ring : Ring) (sha256 : Bytes → List Char) (data : Bytes)
    (aad : Option Bytes) (dek : Key) (wrapNonce nonce : Nonce) :
    Option (Bytes × EncryptedFileHeader) := do
  if data = [] then none
  else
    let (version, kek) ← ring.getKey none
    let wrappedKey := wrapNonce.val ++ gcm.encrypt ⟨kek.val, wrapNonce.val, dek.val, []⟩
    pure (gcm.encrypt ⟨dek.val, nonce.val, data, aad.getD []⟩,
      ⟨fileVersion, version, wrappedKey, nonce.val, data.length, sha256 data, false⟩)

structure Legacy (header : EncryptedFileHeader) : Prop where
  nonce : header.nonce.length = nonceSize
  checksum : header.checksum.length = 64
  format : header.isStream = false

structure Current (header : EncryptedFileHeader) : Prop where
  nonce : header.nonce = []
  checksum : header.checksum = []
  format : header.isStream = true

inductive Written (header : EncryptedFileHeader) (bytes : Bytes) : Prop
  | legacy (shape : Legacy header) (written : serializeHeader header = some bytes)
  | current (shape : Current header) (chunkSize : Nat)
      (written : streamHeader header chunkSize = some bytes)

def ReadsBack (header : EncryptedFileHeader) (bytes : Bytes) : Prop :=
  ∀ rest, deserializeHeader (bytes ++ rest) = some (header, bytes.length) ∧
    deserializeHeaderFromStream (bytes ++ rest) = some (header, rest)

section Tails

def headerOf (fixed wrappedKey nonce : Bytes) (originalSize : Nat) (checksum : List Char)
    (isStream : Bool) : EncryptedFileHeader :=
  ⟨unpack (slice fixed 5 1), unpack (slice fixed 6 4), wrappedKey, nonce, originalSize, checksum,
    isStream⟩

def readTail (fixed wrappedKey tail : Bytes) : Option (EncryptedFileHeader × Nat) :=
  if fixed.take 5 ≠ fileMagic ∧ fixed.take 5 ≠ streamMagic then none
  else if fixed.take 5 = streamMagic ∨ 12 ≤ tail.length ∧ isChunkSize (slice tail 8 4) then
    if tail.length < 12 then none
    else some (headerOf fixed wrappedKey [] (unpack (slice tail 0 8)) [] true,
      12 + wrappedKey.length + 12)
  else if tail.length < 84 then none
  else if (slice tail 20 64).all (· < 128) then
    some (headerOf fixed wrappedKey (slice tail 0 nonceSize) (unpack (slice tail 12 8))
      ((slice tail 20 64).map fun byte => Char.ofNat byte.toNat) false,
      12 + wrappedKey.length + 84)
  else none

variable {fixed wrappedKey tail : Bytes}

theorem slice_append_left {start size : Nat} {front : Bytes} (inside : start + size ≤ front.length)
    (rest : Bytes) : slice (front ++ rest) start size = slice front start size := by
  rw [slice, slice, List.drop_append_of_le_length (by omega), List.take_append_of_le_length]
  rw [List.length_drop]
  omega

theorem slice_append_right {start size : Nat} {front : Bytes} (rest : Bytes) :
    slice (front ++ rest) (front.length + start) size = slice rest start size := by
  rw [slice, slice, List.drop_append, List.drop_eq_nil_of_le (by omega), List.nil_append,
    Nat.add_sub_cancel_left]

theorem deserializeHeader_eq (twelve : fixed.length = 12)
    (key : wrappedKey.length = unpack (slice fixed 10 2)) (tail : Bytes) :
    deserializeHeader (fixed ++ wrappedKey ++ tail) = readTail fixed wrappedKey tail := by
  have front : (fixed ++ wrappedKey).length = 12 + wrappedKey.length := by
    rw [List.length_append, twelve]
  have whole : (fixed ++ wrappedKey ++ tail).length = 12 + wrappedKey.length + tail.length := by
    rw [List.length_append, front]
  have inFixed : ∀ start size, start + size ≤ 12 →
      slice (fixed ++ wrappedKey ++ tail) start size = slice fixed start size := by
    intro start size inside
    rw [List.append_assoc, slice_append_left (by omega)]
  have inTail : ∀ start size,
      slice (fixed ++ wrappedKey ++ tail) (12 + wrappedKey.length + start) size =
        slice tail start size := by
    intro start size
    rw [← front, slice_append_right]
  have magic : (fixed ++ wrappedKey ++ tail).take 5 = fixed.take 5 := by
    rw [List.append_assoc, List.take_append_of_le_length (by omega)]
  have wrapped : slice (fixed ++ wrappedKey ++ tail) 12 wrappedKey.length = wrappedKey :=
    slice_middle fixed wrappedKey (List.prefix_append _ _) twelve rfl
  have start := inTail 0 8
  rw [Nat.add_zero] at start
  have nonce := inTail 0 nonceSize
  rw [Nat.add_zero] at nonce
  have long : ¬ (12 + wrappedKey.length + tail.length < 12) := by omega
  have keyed : ¬ (12 + wrappedKey.length + tail.length < 12 + wrappedKey.length) := by omega
  have left : 12 + wrappedKey.length + tail.length - (12 + wrappedKey.length) = tail.length := by
    omega
  unfold deserializeHeader readTail headerOf
  simp only [inFixed 10 2 (by omega), inFixed 5 1 (by omega), inFixed 6 4 (by omega), ← key, magic,
    whole, wrapped, inTail 8 4, inTail 20 64, inTail 12 8, start, nonce, if_neg long, if_neg keyed,
    left, Nat.add_lt_add_iff_left]

abbrev Guessed (fixed tail : Bytes) : Prop :=
  fixed.take 5 = streamMagic ∨ 12 ≤ tail.length ∧ isChunkSize (slice tail 8 4) = true

theorem readTail_short (short : tail.length < 12) : readTail fixed wrappedKey tail = none := by
  unfold readTail
  split
  · rfl
  · split
    · rfl
    · rw [if_pos (by omega)]

theorem readTail_guessed (guessed : Guessed fixed tail) {header : EncryptedFileHeader} {size : Nat}
    (read : readTail fixed wrappedKey tail = some (header, size)) :
    size = 12 + wrappedKey.length + 12 ∧ header.isStream = true := by
  unfold readTail at read
  split at read
  · cases read
  · split at read
    · cases read
    · cases read
      exact ⟨rfl, rfl⟩

theorem readTail_unguessed (plain : ¬ Guessed fixed tail) {header : EncryptedFileHeader}
    {size : Nat} (read : readTail fixed wrappedKey tail = some (header, size)) :
    size = 12 + wrappedKey.length + 84 ∧ 84 ≤ tail.length := by
  unfold readTail at read
  split at read
  · cases read
  · split at read
    · cases read
    · split at read
      · cases read
        exact ⟨rfl, by omega⟩
      · cases read

theorem readTail_append (enough : 12 ≤ tail.length)
    (all : Guessed fixed tail ∨ 84 ≤ tail.length) (rest : Bytes) :
    readTail fixed wrappedKey (tail ++ rest) = readTail fixed wrappedKey tail := by
  have longer : tail.length ≤ (tail ++ rest).length := by simp
  have field : slice (tail ++ rest) 8 4 = slice tail 8 4 := slice_append_left enough rest
  have size : slice (tail ++ rest) 0 8 = slice tail 0 8 := slice_append_left (by omega) rest
  unfold readTail
  rw [field, size]
  split
  · rfl
  · by_cases guessed : Guessed fixed tail
    · have still : fixed.take 5 = streamMagic ∨
          12 ≤ (tail ++ rest).length ∧ isChunkSize (slice tail 8 4) = true :=
        guessed.imp_right fun chunk => ⟨enough.trans longer, chunk.2⟩
      rw [if_pos still, if_pos guessed, if_neg (by omega), if_neg (by omega)]
    · have long := all.resolve_left guessed
      have still : ¬ (fixed.take 5 = streamMagic ∨
          12 ≤ (tail ++ rest).length ∧ isChunkSize (slice tail 8 4) = true) :=
        fun other => guessed (other.imp_right fun chunk => ⟨enough, chunk.2⟩)
      have nonce : slice (tail ++ rest) 0 nonceSize = slice tail 0 nonceSize :=
        slice_append_left enough rest
      have original : slice (tail ++ rest) 12 8 = slice tail 12 8 := slice_append_left (by omega) rest
      have checksum : slice (tail ++ rest) 20 64 = slice tail 20 64 := slice_append_left long rest
      have long' : ¬ (tail ++ rest).length < 84 := by omega
      rw [if_neg still, if_neg guessed, if_neg long', if_neg (Nat.not_lt.mpr long), nonce, original,
        checksum]

end Tails

section Agreement

theorem readExactly_short {n : Nat} {stream front rest : Bytes} (short : stream.length < n)
    (read : readExactly n stream = some (front, rest)) : front = [] ∧ rest = [] := by
  unfold readExactly at read
  rw [if_neg (by omega)] at read
  split at read
  · cases read
    exact ⟨rfl, rfl⟩
  · cases read

theorem readTail_rest {fixed wrappedKey front : Bytes} (twelve : fixed.length = 12)
    (enough : 12 ≤ front.length) (all : Guessed fixed front ∨ 84 ≤ front.length)
    (whole : ∀ header size, readTail fixed wrappedKey front = some (header, size) →
      size = 12 + wrappedKey.length + front.length) (rest : Bytes) :
    (readTail fixed wrappedKey front).bind (fun read => pure (read.1, rest)) =
      (readTail fixed wrappedKey (front ++ rest)).map fun read =>
        (read.1, (fixed ++ (wrappedKey ++ (front ++ rest))).drop read.2) := by
  rw [readTail_append enough all]
  cases read : readTail fixed wrappedKey front with
  | none => rfl
  | some found =>
    obtain ⟨header, size⟩ := found
    have length : size = (fixed ++ (wrappedKey ++ front)).length := by
      rw [whole header size read, List.length_append, List.length_append, twelve, Nat.add_assoc]
    have text : fixed ++ (wrappedKey ++ (front ++ rest)) = fixed ++ (wrappedKey ++ front) ++ rest := by
      simp only [List.append_assoc]
    have left : (fixed ++ (wrappedKey ++ (front ++ rest))).drop size = rest := by
      rw [text, length, List.drop_left]
    simp [left]

theorem deserializeHeader_short {data : Bytes} (short : data.length < 12 + unpack (slice data 10 2)) :
    deserializeHeader data = none := by
  simp only [deserializeHeader, if_pos short, ite_self]

theorem deserializeHeaderFromStream_eq (input : Bytes) : deserializeHeaderFromStream input =
    (deserializeHeader input).map fun read => (read.1, input.drop read.2) := by
  by_cases short : input.length < 12
  · have nothing : deserializeHeader input = none := deserializeHeader_short (by omega)
    rw [nothing, deserializeHeaderFromStream]
    cases first : readExactly 12 input with
    | none => rfl
    | some read =>
      obtain ⟨fixed, rest⟩ := read
      obtain ⟨rfl, rfl⟩ := readExactly_short short first
      rfl
  obtain ⟨fixed, stream, rfl, twelve⟩ : ∃ fixed stream, input = fixed ++ stream ∧
      fixed.length = 12 :=
    ⟨input.take 12, input.drop 12, (List.take_append_drop 12 input).symm,
      List.length_take_of_le (by omega)⟩
  have some_fixed : fixed ≠ [] := by
    rintro rfl
    cases twelve
  have field : slice (fixed ++ stream) 10 2 = slice fixed 10 2 := slice_append_left (by omega) stream
  by_cases cut : stream.length < unpack (slice fixed 10 2)
  · have nothing : deserializeHeader (fixed ++ stream) = none := by
      apply deserializeHeader_short
      rw [field, List.length_append]
      omega
    have alone : deserializeHeader fixed = none := deserializeHeader_short (by omega)
    rw [nothing]
    simp only [deserializeHeaderFromStream, readExactly_append twelve, Option.bind_eq_bind,
      Option.bind_some, if_neg some_fixed]
    cases next : readExactly (unpack (slice fixed 10 2)) stream with
    | none => rfl
    | some read =>
      obtain ⟨wrappedKey, rest⟩ := read
      obtain ⟨rfl, rfl⟩ := readExactly_short cut next
      simp [readExactly, alone]
  obtain ⟨wrappedKey, tail, rfl, key⟩ : ∃ wrappedKey tail, stream = wrappedKey ++ tail ∧
      wrappedKey.length = unpack (slice fixed 10 2) :=
    ⟨stream.take _, stream.drop _, (List.take_append_drop _ stream).symm,
      List.length_take_of_le (by omega)⟩
  have parse : ∀ t, deserializeHeader (fixed ++ (wrappedKey ++ t)) = readTail fixed wrappedKey t := by
    intro t
    rw [← List.append_assoc]
    exact deserializeHeader_eq twelve key t
  simp only [deserializeHeaderFromStream, readExactly_append twelve, readExactly_append key,
    Option.bind_eq_bind, Option.bind_some, if_neg some_fixed, List.append_assoc, parse]
  by_cases short : tail.length < 12
  · rw [readTail_short short]
    cases next : readExactly 12 tail with
    | none => split <;> rfl
    | some read =>
      obtain ⟨rem, rest⟩ := read
      obtain ⟨rfl, rfl⟩ := readExactly_short short next
      have nothing : readTail fixed wrappedKey [] = none := readTail_short (by decide)
      simp [nothing]
  obtain ⟨rem, tail, rfl, sized⟩ : ∃ rem rest, tail = rem ++ rest ∧ rem.length = 12 :=
    ⟨tail.take 12, tail.drop 12, (List.take_append_drop 12 tail).symm,
      List.length_take_of_le (by omega)⟩
  have some_rem : rem ≠ [] := by
    rintro rfl
    cases sized
  have guess (guessed : Guessed fixed rem) :
      (readTail fixed wrappedKey rem).bind (fun read => pure (read.1, tail)) =
        (readTail fixed wrappedKey (rem ++ tail)).map fun read =>
          (read.1, (fixed ++ (wrappedKey ++ (rem ++ tail))).drop read.2) := by
    refine readTail_rest twelve (by omega) (.inl guessed) ?_ tail
    intro header size read
    rw [sized]
    exact (readTail_guessed guessed read).1
  rw [readExactly_append sized]
  split
  · rename_i stream
    exact guess (.inl stream)
  · rename_i legacy
    simp only [Option.bind_some, if_neg some_rem]
    split
    · rename_i chunk
      exact guess (.inr ⟨by omega, chunk⟩)
    · rename_i nonce
      have still : ∀ t, ¬ Guessed fixed (rem ++ t) := by
        intro t guessed
        rw [Guessed, slice_append_left (by omega)] at guessed
        exact guessed.elim legacy fun chunk => nonce chunk.2
      have nothing : ∀ t, t.length < 72 → readTail fixed wrappedKey (rem ++ t) = none := by
        intro t cut
        cases read : readTail fixed wrappedKey (rem ++ t) with
        | none => rfl
        | some found =>
          have long := (readTail_unguessed (still t) read).2
          rw [List.length_append] at long
          omega
      by_cases cut : tail.length < 72
      · rw [nothing tail cut]
        cases next : readExactly 72 tail with
        | none => rfl
        | some read =>
          obtain ⟨remEnd, rest⟩ := read
          obtain ⟨rfl, rfl⟩ := readExactly_short cut next
          simp only [Option.bind_some, nothing [] (by decide)]
          rfl
      · obtain ⟨remEnd, rest, rfl, long⟩ : ∃ remEnd rest, tail = remEnd ++ rest ∧
            remEnd.length = 72 :=
          ⟨tail.take 72, tail.drop 72, (List.take_append_drop 72 tail).symm,
            List.length_take_of_le (by omega)⟩
        have eighty_four : (rem ++ remEnd).length = 84 := by
          rw [List.length_append, sized, long]
        have whole : ∀ header size, readTail fixed wrappedKey (rem ++ remEnd) = some (header, size) →
            size = 12 + wrappedKey.length + (rem ++ remEnd).length := by
          intro header size read
          rw [eighty_four]
          exact (readTail_unguessed (still remEnd) read).1
        have finish := readTail_rest twelve (by omega) (.inr (by omega)) whole rest
        simp only [List.append_assoc] at finish
        rw [readExactly_append long]
        exact finish

end Agreement

section RoundTrip

variable {header : EncryptedFileHeader} {bytes : Bytes}

structure Fixed (magic : Bytes) (header : EncryptedFileHeader) (fixed : Bytes) : Prop where
  twelve : fixed.length = 12
  magic : fixed.take 5 = magic
  version : unpack (slice fixed 5 1) = header.version
  keyVersion : unpack (slice fixed 6 4) = header.keyVersion
  key : header.wrappedKey.length = unpack (slice fixed 10 2)

theorem fixedPart_eq_some {magic fixed : Bytes} (five : magic.length = 5)
    (written : fixedPart magic header = some fixed) : Fixed magic header fixed := by
  simp only [fixedPart, Option.bind_eq_bind, Option.bind_eq_some_iff, Option.pure_def,
    Option.some.injEq] at written
  obtain ⟨version, h₁, keyVersion, h₂, len, h₃, rfl⟩ := written
  have one := length_pack h₁
  have four := length_pack h₂
  have two := length_pack h₃
  refine ⟨by simp [five, one, four, two], ?_, ?_, ?_, ?_⟩
  · rw [List.append_assoc, List.append_assoc, List.take_left' five]
  · rw [slice_middle magic version (by simp) five one, unpack_pack h₁]
  · rw [slice_middle (magic ++ version) keyVersion (by simp) (by simp [five, one]) four,
      unpack_pack h₂]
  · rw [slice_middle (magic ++ version ++ keyVersion) len (by simp) (by simp [five, one, four]) two,
      unpack_pack h₃]

theorem Fixed.headerOf {magic fixed : Bytes} (reads : Fixed magic header fixed)
    (nonce : Bytes) (originalSize : Nat) (checksum : List Char) (isStream : Bool) :
    headerOf fixed header.wrappedKey nonce originalSize checksum isStream =
      ⟨header.version, header.keyVersion, header.wrappedKey, nonce, originalSize, checksum,
        isStream⟩ := by
  rw [FileFormat.headerOf, reads.version, reads.keyVersion]

theorem decode_encodeAscii {text : List Char} {encoded : Bytes}
    (written : encodeAscii text = some encoded) : encoded.length = text.length ∧
      encoded.all (· < 128) = true ∧ (encoded.map fun byte => Char.ofNat byte.toNat) = text := by
  unfold encodeAscii at written
  split at written
  · rename_i ascii
    cases written
    have small : ∀ c ∈ text, c.toNat < 128 := by
      intro c member
      exact of_decide_eq_true (List.all_eq_true.mp ascii c member)
    have same : ∀ c ∈ text, (UInt8.ofNat c.toNat).toNat = c.toNat := by
      intro c member
      have := small c member
      simp only [UInt8.toNat_ofNat']
      omega
    refine ⟨List.length_map _, ?_, ?_⟩
    · rw [List.all_map, List.all_eq_true]
      intro c member
      have less : UInt8.ofNat c.toNat < 128 := by
        rw [UInt8.lt_iff_toNat_lt, same c member]
        exact small c member
      exact decide_eq_true less
    · rw [List.map_map]
      conv_rhs => rw [← List.map_id text]
      apply List.map_congr_left
      intro c member
      show Char.ofNat (UInt8.ofNat c.toNat).toNat = c
      rw [same c member, Char.ofNat_toNat]
  · cases written

theorem Fixed.readsBack {magic fixed tail : Bytes} (reads : Fixed magic header fixed)
    (enough : 12 ≤ tail.length) (all : Guessed fixed tail ∨ 84 ≤ tail.length)
    (read : readTail fixed header.wrappedKey tail =
      some (header, (fixed ++ header.wrappedKey ++ tail).length)) :
    ReadsBack header (fixed ++ header.wrappedKey ++ tail) := by
  intro rest
  have parsed : deserializeHeader (fixed ++ header.wrappedKey ++ tail ++ rest) =
      some (header, (fixed ++ header.wrappedKey ++ tail).length) := by
    rw [List.append_assoc, deserializeHeader_eq reads.twelve reads.key, readTail_append enough all,
      read]
  refine ⟨parsed, ?_⟩
  rw [deserializeHeaderFromStream_eq, parsed, Option.map_some, List.drop_left]

theorem legacy_readsBack (shape : Legacy header) (written : serializeHeader header = some bytes) :
    ReadsBack header bytes ↔ isChunkSize (header.nonce.drop 8) = false := by
  simp only [serializeHeader, Option.bind_eq_bind, Option.bind_eq_some_iff, Option.pure_def,
    Option.some.injEq] at written
  obtain ⟨fixed, h₁, size, h₂, checksum, h₃, rfl⟩ := written
  have reads := fixedPart_eq_some rfl h₁
  have eight := length_pack h₂
  obtain ⟨length, ascii, decoded⟩ := decode_encodeAscii h₃
  rw [shape.checksum] at length
  have twelve : header.nonce.length = 12 := shape.nonce
  have eighty_four : (header.nonce ++ size ++ checksum).length = 84 := by
    simp [twelve, eight, length]
  have last : slice (header.nonce ++ size ++ checksum) 8 4 = header.nonce.drop 8 := by
    rw [List.append_assoc, slice_append_left (by omega), slice,
      List.take_of_length_le (by simp [twelve])]
  have magic : ¬ fixed.take 5 = streamMagic := by rw [reads.magic]; decide
  constructor
  · intro back
    apply Bool.eq_false_iff.mpr
    intro chunk
    have guessed : Guessed fixed (header.nonce ++ size ++ checksum) :=
      .inr ⟨by omega, by rw [last, chunk]⟩
    have parsed := (back []).1
    rw [List.append_nil, deserializeHeader_eq reads.twelve reads.key] at parsed
    exact Bool.false_ne_true (shape.format.symm.trans (readTail_guessed guessed parsed).2)
  · intro nonce
    apply reads.readsBack (by omega) (.inr (by omega))
    have plain : ¬ Guessed fixed (header.nonce ++ size ++ checksum) := by
      rintro (stream | ⟨-, chunk⟩)
      · exact magic stream
      · rw [last, nonce] at chunk
        cases chunk
    have first : slice (header.nonce ++ size ++ checksum) 0 nonceSize = header.nonce :=
      slice_middle [] header.nonce (by simp) rfl shape.nonce
    have second : slice (header.nonce ++ size ++ checksum) 12 8 = size :=
      slice_middle header.nonce size (by simp) twelve eight
    have third : slice (header.nonce ++ size ++ checksum) 20 64 = checksum :=
      slice_middle (header.nonce ++ size) checksum (by simp) (by simp [twelve, eight]) length
    have whole : (fixed ++ header.wrappedKey ++ (header.nonce ++ size ++ checksum)).length =
        12 + header.wrappedKey.length + 84 := by
      rw [List.length_append, List.length_append, reads.twelve, eighty_four]
    have same : (⟨header.version, header.keyVersion, header.wrappedKey, header.nonce,
        header.originalSize, header.checksum, false⟩ : EncryptedFileHeader) = header := by
      rw [← shape.format]
    rw [readTail, if_neg (fun other => other.1 reads.magic), if_neg plain, if_neg (by omega), first,
      second, third, if_pos ascii, decoded, unpack_pack h₂, reads.headerOf, same, whole]

theorem current_readsBack (shape : Current header) {chunkSize : Nat}
    (written : streamHeader header chunkSize = some bytes) : ReadsBack header bytes := by
  simp only [streamHeader, Option.bind_eq_bind, Option.bind_eq_some_iff, Option.pure_def,
    Option.some.injEq] at written
  obtain ⟨fixed, h₁, size, h₂, chunk, h₃, rfl⟩ := written
  have reads := fixedPart_eq_some rfl h₁
  have eight := length_pack h₂
  have four := length_pack h₃
  have twelve : (size ++ chunk).length = 12 := by simp [eight, four]
  have guessed : Guessed fixed (size ++ chunk) := .inl reads.magic
  apply reads.readsBack (by omega) (.inl guessed)
  have first : slice (size ++ chunk) 0 8 = size := slice_middle [] size (by simp) rfl eight
  have whole : (fixed ++ header.wrappedKey ++ (size ++ chunk)).length =
      12 + header.wrappedKey.length + 12 := by
    rw [List.length_append, List.length_append, reads.twelve, twelve]
  have same : (⟨header.version, header.keyVersion, header.wrappedKey, [], header.originalSize, [],
      true⟩ : EncryptedFileHeader) = header := by
    rw [← shape.nonce, ← shape.checksum, ← shape.format]
  rw [readTail, if_neg (fun other => other.2 reads.magic), if_pos guessed, if_neg (by omega), first,
    unpack_pack h₂, reads.headerOf, same, whole]

/-- A header in the current layout is read back; one in the legacy layout unless the last four
bytes of its nonce are the size of a chunk. -/
theorem header_reads_back_iff (written : Written header bytes) :
    ReadsBack header bytes ↔ header.isStream = true ∨ isChunkSize (header.nonce.drop 8) = false := by
  cases written with
  | legacy shape written =>
    rw [legacy_readsBack shape written, shape.format]
    simp
  | current shape chunkSize written =>
    exact ⟨fun _ => .inl shape.format, fun _ => current_readsBack shape written⟩

end RoundTrip

section Writers

theorem encrypt_legacy {gcm : Gcm} {ring : Ring} {sha256 : Bytes → List Char} {data : Bytes}
    {aad : Option Bytes} {dek : Key} {wrapNonce nonce : Nonce} {ciphertext : Bytes}
    {header : EncryptedFileHeader} (hex : (sha256 data).length = 64)
    (sealed : encrypt gcm ring sha256 data aad dek wrapNonce nonce = some (ciphertext, header)) :
    Legacy header ∧ header.nonce = nonce.val := by
  unfold encrypt at sealed
  split at sealed
  · cases sealed
  · simp only [Option.bind_eq_bind, Option.bind_eq_some_iff, Option.pure_def, Option.some.injEq,
      Prod.mk.injEq] at sealed
    obtain ⟨-, -, -, rfl⟩ := sealed
    exact ⟨⟨nonce.property, hex, rfl⟩, rfl⟩

theorem encryptStream_front {gcm : Gcm} {ring : Ring} {u : Upload} {wrapping : Sealing}
    {sealings : List Sealing} {blob : Bytes}
    (encrypted : encryptStream gcm ring u = some (wrapping, sealings, blob)) :
    ∃ header front body, Current header ∧ header.originalSize = u.fileSize ∧
      streamHeader header u.chunkSize = some front ∧ frames gcm sealings = some body ∧
      header.wrappedKey = u.wrapNonce.val ++ gcm.encrypt wrapping ∧
      (∃ kek, ring.getKey none = some (header.keyVersion, kek) ∧
        wrapping = ⟨kek.val, u.wrapNonce.val, u.dek.val, []⟩) ∧ blob = front ++ body := by
  simp only [encryptStream, Option.bind_eq_bind, Option.bind_eq_some_iff, Option.pure_def,
    Option.some.injEq, Prod.mk.injEq] at encrypted
  obtain ⟨⟨version, kek⟩, current, formatVersion, h₁, keyVersion, h₂, wrappedKeyLen, h₃, fileSize,
    h₄, chunkSize, h₅, sealings, -, body, framed, rfl, rfl, rfl⟩ := encrypted
  refine ⟨⟨fileVersion, version, u.wrapNonce.val ++ gcm.encrypt _, [], u.fileSize, [], true⟩,
    _, body, ⟨rfl, rfl, rfl⟩, rfl, ?_, framed, rfl, ⟨kek, current, rfl⟩, rfl⟩
  simp only at h₂ h₃
  simp [-List.length_append, streamHeader, fixedPart, h₁, h₂, h₃, h₄, h₅]

end Writers

section Samples

def sampleHeader (last : Bytes) : EncryptedFileHeader :=
  ⟨2, 1, List.replicate 60 1, List.replicate 8 7 ++ last, 5, List.replicate 64 'a', false⟩

def headerBytes (last : Bytes) : Bytes := (serializeHeader (sampleHeader last)).getD []

/-- A nonce that ends in 0x00040000 passes for the size of a chunk. -/
theorem nonce_taken_for_chunk_size : ¬ ∀ (header : EncryptedFileHeader) (bytes : Bytes),
    Written header bytes → ReadsBack header bytes := by
  intro law
  have shape : Legacy (sampleHeader [0, 4, 0, 0]) := ⟨rfl, rfl, rfl⟩
  have written : serializeHeader (sampleHeader [0, 4, 0, 0]) = some (headerBytes [0, 4, 0, 0]) := by
    decide +kernel
  have nonce := (legacy_readsBack shape written).mp (law _ _ (.legacy shape written))
  revert nonce
  decide +kernel

theorem header_reads_back_iff_plain :
    ReadsBack (sampleHeader [1, 2, 3, 4]) (headerBytes [1, 2, 3, 4]) :=
  (header_reads_back_iff (.legacy ⟨rfl, rfl, rfl⟩ (by decide +kernel))).mpr (.inr (by decide +kernel))

end Samples

end Plexichat.Encryption.FileFormat
