import Plexichat.Library.Transition
import Plexichat.Encryption.Ratchet

/-! Messages at rest: the plain encryptor of core/message_encryptor.py, the
dispatch of decrypt_message, and the content column as row_to_model reads it. -/
namespace Plexichat.Encryption
open Transition

/-- `str(message_id).encode() if message_id else None`. -/
def messageAad (messageId : Option Nat) : Option Bytes :=
  match messageId with
  | some (n + 1) => some (Text.utf8 (Text.decimal (n + 1)))
  | _ => none

namespace MessageEncryptor

def encryptMessage (aead : Aead) (fresh : Key) (nonce : Nonce) (ring : Ring)
    (content : List Char) (messageId : Option Nat) : Ring × Option (List Char) :=
  let (ring, current) := currentKey fresh ring
  (ring, current.map fun (version, key) =>
    envelope version nonce (aead.encrypt key nonce (Text.utf8 content) (messageAad messageId)))

/-- Text without the prefix is legacy plain text; none is ValueError. -/
def decryptMessage (aead : Aead) (ring : Ring) (encrypted : List Char) (messageId : Option Nat) :
    Option (List Char) :=
  if encPrefix.isPrefixOf encrypted then do
    let (key, combined) ← openEnvelope ring encrypted
    let plaintext ← aead.decrypt key (combined.take 12) (combined.drop 12) (messageAad messageId)
    Text.utf8Decode plaintext
  else some encrypted

def isEncrypted (content : List Char) : Bool := encPrefix.isPrefixOf content

end MessageEncryptor

/-- `decrypt_data` of core/crypto.py without a key and a context. -/
def decryptData (aead : Aead) (ring : Ring) (encrypted : List Char) : Option (List Char) :=
  if encrypted = [] then some []
  else if encPrefix.isPrefixOf encrypted then do
    let (key, combined) ← openEnvelope ring encrypted
    if combined.length < 28 then none
    else do
      let plaintext ← aead.decrypt key (combined.take 12) (combined.drop 12) none
      Text.utf8Decode plaintext
  else none

structure Reader where
  aead : Aead
  kdf : Kdf
  licensed : Bool
  messageRing : Ring
  systemRing : Ring
  ratchetManager : Option Ratchet.State

def Reader.decryptMessage (reader : Reader) (encrypted : List Char) (messageId : Option Nat)
    (conversationId : Option Nat) : Option (List Char) :=
  if Ratchet.wirePrefix.isPrefixOf encrypted then
    match conversationId, messageId, reader.ratchetManager with
    | some conversation, some message, some manager =>
      match Ratchet.decrypt reader.aead reader.kdf manager conversation message encrypted with
      | .ok plaintext => Text.utf8Decode plaintext
      | .error _ => none
    | _, _, _ => none
  else MessageEncryptor.decryptMessage reader.aead reader.messageRing encrypted messageId

/-- The columns of msg_messages that make up the content of a message. -/
structure StoredMessage where
  id : Nat
  conversationId : Nat
  content : List Char
  contentEncrypted : Option (List Char)

def unsupported : List Char := "[unsupported encryption version]".toList

def decryptionFailed : List Char := "[decryption failed]".toList

/-- The content `row_to_model` gives the model. -/
def Reader.rowContent (reader : Reader) (row : StoredMessage) : List Char :=
  if MessageEncryptor.isEncrypted row.content then
    if Ratchet.wirePrefix.isPrefixOf row.content then
      if reader.licensed then
        (reader.decryptMessage row.content (some row.id) (some row.conversationId)).getD
          decryptionFailed
      else unsupported
    else (reader.decryptMessage row.content (some row.id) none).getD decryptionFailed
  else
    match row.contentEncrypted with
    | some legacy =>
      if legacy ≠ [] ∧ row.content = "[encrypted]".toList then
        (decryptData reader.aead reader.systemRing legacy).getD decryptionFailed
      else row.content
    | none => row.content

/-- What a reader shows in place of an envelope it takes for a ratchet envelope. -/
def Reader.placeholder (reader : Reader) : List Char :=
  if reader.licensed then decryptionFailed else unsupported

inductive KeyringCall where
  | getKey (fresh : Key)
  | rotate (newKey : Key)
  | addPepper (id : List Char) (secret : Key)

def keyringStep (r : Ring) : KeyringCall → Option Ring
  | .getKey fresh => some (r.ensureKey fresh)
  | .rotate newKey => some (r.rotate newKey)
  | .addPepper id secret => some (r.addPepper id secret)

def Usable (r : Ring) : Prop := r.noKeys = true ∨ ∃ k, r.Binds r.currentVersion k

theorem keyringStep_extends {r r' : Ring} {c : KeyringCall} (h : keyringStep r c = some r') :
    r.Extends r' := by
  cases c with
  | getKey fresh => cases h; exact Ring.extends_ensureKey r fresh
  | rotate newKey => cases h; exact Ring.extends_rotate r newKey
  | addPepper id secret => cases h; exact fun _ _ bound => bound

theorem ensureKey_current {r : Ring} (h : Usable r) (fresh : Key) :
    ∃ k, (r.ensureKey fresh).Binds (r.ensureKey fresh).currentVersion k := by
  unfold Ring.ensureKey
  split
  · rename_i none
    exact ⟨fresh, AList.lookup_insert r.keys⟩
  · rename_i some
    exact h.resolve_left some

theorem keyringStep_usable {r r' : Ring} {c : KeyringCall} (usable : Usable r)
    (h : keyringStep r c = some r') : Usable r' := by
  cases c with
  | getKey fresh => cases h; exact .inr (ensureKey_current usable fresh)
  | rotate newKey => cases h; exact .inr ⟨newKey, r.rotate_binds newKey⟩
  | addPepper id secret => cases h; exact usable

theorem reachable_usable {r : Ring} (h : Reachable keyringStep (· = Ring.empty) r) : Usable r :=
  guarded_invariant (fun _ e => e ▸ .inl rfl)
    (fun _ _ _ usable _ next => keyringStep_usable usable next) h

theorem reachable_extends {r r' : Ring} (h : Reachable keyringStep (· = r) r') : r.Extends r' := by
  have both : True ∧ r.Extends r' :=
    guarded_relation (I := fun _ => True) Ring.Extends.refl (fun _ _ _ => Ring.Extends.trans)
      (fun _ _ _ _ _ next => ⟨trivial, keyringStep_extends next⟩) trivial h
  exact both.2

theorem wirePrefix_isPrefixOf_envelope (version : Nat) (nonce : Nonce) (ciphertext : Bytes) :
    Ratchet.wirePrefix.isPrefixOf (envelope version nonce ciphertext) = true ↔ version = 3 := by
  rw [List.isPrefixOf_iff_prefix]
  constructor
  · intro h
    obtain ⟨rest, same⟩ := h
    have tails : '3' :: ':' :: rest =
        Text.decimal version ++ ':' :: Base64.encode (nonce.val ++ ciphertext) := by
      simpa [Ratchet.wirePrefix, envelope, encPrefix] using same
    have heads := congrArg (Text.split ':' 1) tails
    rw [Text.split_append (colon_not_mem_decimal version)] at heads
    have three : Text.decimal 3 = Text.decimal version := (List.cons.inj heads).1
    exact (Text.decimal_injective three).symm
  · rintro rfl
    exact ⟨Base64.encode (nonce.val ++ ciphertext), rfl⟩

namespace MessageEncryptor

theorem encryptMessage_spec (aead : Aead) (fresh : Key) (nonce : Nonce) {ring : Ring}
    (usable : Usable ring) (content : List Char) (messageId : Option Nat) :
    ∃ key, (ring.ensureKey fresh).Binds (ring.ensureKey fresh).currentVersion key ∧
      encryptMessage aead fresh nonce ring content messageId =
        (ring.ensureKey fresh, some (envelope (ring.ensureKey fresh).currentVersion nonce
          (aead.encrypt key nonce (Text.utf8 content) (messageAad messageId)))) := by
  obtain ⟨key, bound⟩ := ensureKey_current usable fresh
  have found : (ring.ensureKey fresh).getKey none =
      some ((ring.ensureKey fresh).currentVersion, key) :=
    congrArg (Option.map fun k => ((ring.ensureKey fresh).currentVersion, k)) bound
  refine ⟨key, bound, ?_⟩
  simp only [encryptMessage, currentKey, found, Option.map_some]

theorem decryptMessage_envelope (aead : Aead) {ring : Ring} {version : Nat} {key : Key}
    (bound : ring.Binds version key) (nonce : Nonce) (content : List Char)
    (messageId : Option Nat) :
    decryptMessage aead ring (envelope version nonce
      (aead.encrypt key nonce (Text.utf8 content) (messageAad messageId))) messageId =
      some content := by
  simp only [decryptMessage, encPrefix_isPrefixOf_envelope, if_true, openEnvelope_envelope bound,
    Option.bind_eq_bind, Option.bind_some, take_nonce, drop_nonce, aead.decrypt_encrypt,
    Text.utf8Decode_utf8]

end MessageEncryptor

theorem ratchet_refuses (aead : Aead) (kdf : Kdf) (s : Ratchet.State) (c m : Nat) (nonce : Nonce)
    (ciphertext : Bytes) :
    Ratchet.decrypt aead kdf s c m (envelope 3 nonce ciphertext) = .error .malformed := by
  have starts := (wirePrefix_isPrefixOf_envelope 3 nonce ciphertext).mpr rfl
  have tail : (envelope 3 nonce ciphertext).drop Ratchet.wirePrefix.length =
      Base64.encode (nonce.val ++ ciphertext) := rfl
  simp only [Ratchet.decrypt, starts, if_true, tail,
    Text.split_of_not_mem (Base64.colon_not_mem_encode _)]

theorem rowContent_of_version_three (reader : Reader) (id conversationId : Nat) (nonce : Nonce)
    (ciphertext : Bytes) (legacy : Option (List Char)) :
    reader.rowContent ⟨id, conversationId, envelope 3 nonce ciphertext, legacy⟩ =
      reader.placeholder := by
  have starts := (wirePrefix_isPrefixOf_envelope 3 nonce ciphertext).mpr rfl
  have failed : reader.decryptMessage (envelope 3 nonce ciphertext) (some id)
      (some conversationId) = none := by
    unfold Reader.decryptMessage
    rw [if_pos starts]
    cases reader.ratchetManager with
    | none => rfl
    | some manager => simp only [ratchet_refuses]
  simp only [Reader.rowContent, MessageEncryptor.isEncrypted, encPrefix_isPrefixOf_envelope,
    if_true, starts, failed, Option.getD_none, Reader.placeholder]

theorem rowContent_of_other_version (reader : Reader) {version : Nat} (other : version ≠ 3)
    {key : Key} (bound : reader.messageRing.Binds version key) (id conversationId : Nat)
    (nonce : Nonce) (content : List Char) (legacy : Option (List Char)) :
    reader.rowContent ⟨id, conversationId, envelope version nonce (reader.aead.encrypt key nonce
      (Text.utf8 content) (messageAad (some id))), legacy⟩ = content := by
  have plain : ∀ ciphertext, Ratchet.wirePrefix.isPrefixOf (envelope version nonce ciphertext) =
      false := by
    intro ciphertext
    have iff := wirePrefix_isPrefixOf_envelope version nonce ciphertext
    exact Bool.eq_false_iff.mpr fun h => other (iff.mp h)
  simp only [Reader.rowContent, Reader.decryptMessage, MessageEncryptor.isEncrypted,
    encPrefix_isPrefixOf_envelope, plain, if_true, Bool.false_eq_true, if_false,
    MessageEncryptor.decryptMessage_envelope reader.aead bound, Option.getD_some]

def rotatedRing : Nat → Ring
  | 0 => Ring.empty.ensureKey (sampleKey 0)
  | n + 1 => (rotatedRing n).rotate (sampleKey 1)

theorem reachable_rotatedRing (n : Nat) : Reachable keyringStep (· = Ring.empty) (rotatedRing n) := by
  induction n with
  | zero => exact .step (a := .getKey (sampleKey 0)) (.start rfl) trivial rfl
  | succ n ih => exact .step (a := .rotate (sampleKey 1)) ih trivial rfl

def freeTier (ring : Ring) : Reader :=
  ⟨shiftAead, fun _ _ _ => sampleKey 2, false, ring, Ring.empty, none⟩

/-- After two rotations the text hi is stored as ENC:3: and read as a placeholder. -/
theorem second_rotation_hides_messages : ¬ ∀ (reader : Reader) (ring : Ring) (fresh : Key)
    (nonce : Nonce) (content : List Char) (id conversationId : Nat) (legacy : Option (List Char)),
    Reachable keyringStep (· = Ring.empty) ring →
    Reachable keyringStep
      (· = (MessageEncryptor.encryptMessage reader.aead fresh nonce ring content (some id)).1)
      reader.messageRing →
    ∀ stored,
      (MessageEncryptor.encryptMessage reader.aead fresh nonce ring content (some id)).2 =
        some stored → reader.rowContent ⟨id, conversationId, stored, legacy⟩ = content := by
  intro law
  obtain ⟨key, -, made⟩ := MessageEncryptor.encryptMessage_spec shiftAead (sampleKey 3)
    (sampleNonce 0) (reachable_usable (reachable_rotatedRing 2)) ['h', 'i'] (some 7)
  have same := law (freeTier (rotatedRing 2)) (rotatedRing 2) (sampleKey 3) (sampleNonce 0)
    ['h', 'i'] 7 1 none (reachable_rotatedRing 2)
    (.start (congrArg Prod.fst made).symm) _ (congrArg Prod.snd made)
  have hidden := rowContent_of_version_three (freeTier (rotatedRing 2)) 7 1 (sampleNonce 0)
    (shiftAead.encrypt key (sampleNonce 0) (Text.utf8 ['h', 'i']) (messageAad (some 7))) none
  exact absurd (hidden.symm.trans same) (by decide)

/-- A message is read back as it was written if and only if it was not written under
version three of the keyring, whose envelopes start like the ratchet's. -/
theorem message_reads_back_iff (reader : Reader) {ring : Ring} (fresh : Key) (nonce : Nonce)
    (content : List Char) (id conversationId : Nat) (legacy : Option (List Char))
    (reached : Reachable keyringStep (· = Ring.empty) ring)
    (later : Reachable keyringStep
      (· = (MessageEncryptor.encryptMessage reader.aead fresh nonce ring content (some id)).1)
      reader.messageRing) :
    ∃ stored, (MessageEncryptor.encryptMessage reader.aead fresh nonce ring content (some id)).2 =
      some stored ∧ (reader.rowContent ⟨id, conversationId, stored, legacy⟩ = content ↔
        (ring.ensureKey fresh).currentVersion ≠ 3 ∨ content = reader.placeholder) := by
  obtain ⟨key, bound, made⟩ := MessageEncryptor.encryptMessage_spec reader.aead fresh nonce
    (reachable_usable reached) content (some id)
  rw [made] at later ⊢
  refine ⟨_, rfl, ?_⟩
  have still : reader.messageRing.Binds (ring.ensureKey fresh).currentVersion key :=
    reachable_extends later _ _ bound
  by_cases three : (ring.ensureKey fresh).currentVersion = 3
  · rw [three, rowContent_of_version_three]
    constructor
    · exact fun same => .inr same.symm
    · intro same
      exact (same.resolve_left fun other => other rfl).symm
  · rw [rowContent_of_other_version reader three still]
    exact ⟨fun _ => .inl three, fun _ => rfl⟩

/-- A message written under version two is read back after the next rotation. -/
theorem second_version_reads_back : ∃ stored,
    (MessageEncryptor.encryptMessage shiftAead (sampleKey 3) (sampleNonce 0) (rotatedRing 1)
      ['h', 'i'] (some 7)).2 = some stored ∧
    (freeTier (rotatedRing 2)).rowContent ⟨7, 1, stored, none⟩ = ['h', 'i'] := by
  obtain ⟨stored, made, iff⟩ := message_reads_back_iff (freeTier (rotatedRing 2)) (sampleKey 3)
    (sampleNonce 0) ['h', 'i'] 7 1 none (reachable_rotatedRing 1)
    (.step (a := .rotate (sampleKey 1)) (.start rfl) trivial rfl)
  exact ⟨stored, made, iff.mpr (.inl (by decide))⟩

end Plexichat.Encryption
