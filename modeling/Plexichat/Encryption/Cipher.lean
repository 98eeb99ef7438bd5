import Mathlib.Data.UInt
import Plexichat.Library.Base64
import Plexichat.Encryption.Keyring

/-! AES-GCM and HKDF are parameters. An envelope is the text ENC:, a version, a
colon and the base64 of nonce and ciphertext; the keyring wraps small secrets in
one and the message encryptor stores messages in one. -/
namespace Plexichat.Encryption

/-- `os.urandom(12)`. -/
abbrev Nonce := { n : Bytes // n.length = 12 }

def sampleNonce (n : UInt8) : Nonce := ⟨List.replicate 12 n, List.length_replicate⟩

/-- `AESGCM(key).encrypt(nonce, data, aad)` and its inverse under one key, nonce
and associated data; decryption raises InvalidTag as none. -/
structure Aead where
  encrypt : Key → Nonce → Bytes → Option Bytes → Bytes
  decrypt : Key → Bytes → Bytes → Option Bytes → Option Bytes
  decrypt_encrypt : ∀ k n m a, decrypt k n.val (encrypt k n m a) a = some m
  length_encrypt : ∀ k n m a, (encrypt k n m a).length = m.length + 16

/-- `derive_key(ikm, salt=salt, info=info, length=32)` of a non-empty key. -/
abbrev Kdf := Bytes → Bytes → Bytes → Key

def encPrefix : List Char := ['E', 'N', 'C', ':']

/-- `f"ENC:{version}:{b64encode(nonce + ciphertext)}"`. -/
def envelope (version : Nat) (nonce : Nonce) (ciphertext : Bytes) : List Char :=
  encPrefix ++ Text.decimal version ++ ':' :: Base64.encode (nonce.val ++ ciphertext)

/-- The key and the bytes an envelope names; none is any exception on the way. -/
def openEnvelope (ring : Ring) (t : List Char) : Option (Key × Bytes) :=
  match Text.split ':' 2 t with
  | [_, versionText, data] => do
    let version ← Text.int versionText
    let found ← if version < 0 then none else ring.getKey (some version.toNat)
    let blob ← Base64.decode data
    pure (found.2, blob)
  | _ => none

theorem encPrefix_isPrefixOf_envelope (version : Nat) (nonce : Nonce) (ciphertext : Bytes) :
    encPrefix.isPrefixOf (envelope version nonce ciphertext) = true := by
  simp [encPrefix, envelope]

theorem envelope_eq (version : Nat) (nonce : Nonce) (ciphertext : Bytes) :
    envelope version nonce ciphertext = ['E', 'N', 'C'] ++ ':' :: (Text.decimal version ++
      ':' :: Base64.encode (nonce.val ++ ciphertext)) := by
  simp [envelope, encPrefix]

theorem colon_not_mem_decimal (n : Nat) : ':' ∉ Text.decimal n :=
  Text.not_mem_decimal (by decide) n

theorem openEnvelope_envelope {ring : Ring} {version : Nat} {key : Key}
    (bound : ring.Binds version key) (nonce : Nonce) (ciphertext : Bytes) :
    openEnvelope ring (envelope version nonce ciphertext) =
      some (key, nonce.val ++ ciphertext) := by
  have parts : Text.split ':' 2 (envelope version nonce ciphertext) =
      [['E', 'N', 'C'], Text.decimal version, Base64.encode (nonce.val ++ ciphertext)] := by
    rw [envelope_eq, Text.split_append (by decide), Text.split_append (colon_not_mem_decimal _),
      Text.split]
  have found : ring.getKey (some version) = some (version, key) := Ring.getKey_of_binds bound
  have sign : ¬ (version : Int) < 0 := Int.not_lt.mpr (Int.natCast_nonneg version)
  simp only [openEnvelope, parts, Text.int_decimal, Option.bind_eq_bind, Option.bind_some,
    if_neg sign, Int.toNat_natCast, found, Base64.decode_encode, Option.pure_def]

def currentKey (fresh : Key) (ring : Ring) : Ring × Option (Nat × Key) :=
  (ring.ensureKey fresh, (ring.ensureKey fresh).getKey none)

def wrap (aead : Aead) (fresh : Key) (nonce : Nonce) (ring : Ring) (raw : Bytes) :
    Ring × Option (List Char) :=
  let (ring, current) := currentKey fresh ring
  (ring, current.map fun (version, key) => envelope version nonce (aead.encrypt key nonce raw none))

/-- `Keyring.unwrap`; a wrapped value exists only under a ring that has keys. -/
def unwrap (aead : Aead) (ring : Ring) (wrapped : List Char) : Option Bytes :=
  if encPrefix.isPrefixOf wrapped then do
    let (key, blob) ← openEnvelope ring wrapped
    aead.decrypt key (blob.take 12) (blob.drop 12) none
  else none

theorem take_nonce (nonce : Nonce) (rest : Bytes) : (nonce.val ++ rest).take 12 = nonce.val :=
  List.take_left' nonce.property

theorem drop_nonce (nonce : Nonce) (rest : Bytes) : (nonce.val ++ rest).drop 12 = rest :=
  List.drop_left' nonce.property

theorem unwrap_envelope (aead : Aead) {ring : Ring} {version : Nat} {key : Key}
    (bound : ring.Binds version key) (nonce : Nonce) (raw : Bytes) :
    unwrap aead ring (envelope version nonce (aead.encrypt key nonce raw none)) = some raw := by
  simp [unwrap, encPrefix_isPrefixOf_envelope, openEnvelope_envelope bound, take_nonce,
    drop_nonce, aead.decrypt_encrypt]

/-- A stand-in with the interface of AES-GCM: the tag depends on the key, the
nonce and the associated data, and a wrong one is refused. -/
def shiftAead : Aead :=
  let sum := fun (k : Key) (n : Bytes) (a : Option Bytes) => (k.val ++ n ++ a.getD []).sum
  let tag := fun k n a => List.replicate 16 (sum k n a)
  { encrypt := fun k n m a => m.map (· + sum k n.val a) ++ tag k n.val a
    decrypt := fun k n c a =>
      if c.drop (c.length - 16) = tag k n a then
        some ((c.take (c.length - 16)).map (· - sum k n a))
      else none
    decrypt_encrypt := by
      intro k n m a
      simp [tag, Function.comp_def]
    length_encrypt := by
      intro k n m a
      simp [tag] }

end Plexichat.Encryption
