import Plexichat.Library.Faults
import Plexichat.Encryption.Cipher

/-! KeyringMigration of kek_migration/migration.py: a keyring file is re-encrypted under a new KEK
by way of a backup and a temporary file, and any one of the file operations may fail. -/
namespace Plexichat.Encryption.KekMigration
open Faults

inductive File where
  | keyring | backup | temp | rollback | metadata
  deriving DecidableEq

/-- JSON, and the base64 of the two fields of a keyring file. -/
structure Json (Doc : Type) where
  dumps : Doc → Bytes
  loads : Bytes → Option Doc
  loads_dumps : ∀ d, loads (dumps d) = some d
  /-- The text of `{"nonce": .., "payload": ..}`. -/
  sealed : Nonce → Bytes → Bytes
  fields : Bytes → Option (Bytes × Bytes)
  fields_sealed : ∀ nonce payload, fields (sealed nonce payload) = some (nonce.val, payload)
  /-- `len(data.get("keys", {}))`, which raises for what is no keyring. -/
  keyCount : Doc → Option Nat
  metadata : Doc → (oldKek newKek : Key) → Bytes

variable {Doc : Type} (aead : Aead) (json : Json Doc)

/-- The document in a keyring file, or none for any exception on the way. -/
def decrypts (kek : Key) (text : Bytes) : Option Doc := do
  let (nonce, payload) ← json.fields text
  let decrypted ← aead.decrypt kek nonce payload none
  json.loads decrypted

def encrypted (kek : Key) (nonce : Nonce) (data : Doc) : Bytes :=
  json.sealed nonce (aead.encrypt kek nonce (json.dumps data) none)

structure Validation where
  canDecryptWithOldKek : Bool
  canDecryptWithNewKek : Bool

def validateKeyring (oldKek : Key) (newKek : Option Key) : Prog File Bytes Validation := do
  if ← exist .keyring then
    attempt (do
      let text ← read .keyring
      pure ⟨(decrypts aead json oldKek text).isSome,
        newKek.any fun kek => (decrypts aead json kek text).isSome⟩)
      (pure ⟨false, false⟩)
  else pure ⟨false, false⟩

def backupKeyring : Prog File Bytes Bool := do
  if ← exist .keyring then
    attempt (do
      copy .keyring .backup
      pure true)
      (pure false)
  else pure false

/-- Whether a file that is to be cleaned up goes or stays is only logged. -/
def cleanUp (f : File) : Prog File Bytes Unit := do
  if ← exist f then attempt (remove f) (pure ()) else pure ()

def rollback : Prog File Bytes Bool := do
  if ← exist .backup then
    attempt (do
      copy .backup .keyring
      cleanUp .temp
      cleanUp .rollback
      cleanUp .metadata
      pure true)
      (pure false)
  else pure false

def reencrypt (oldKek newKek : Key) (newNonce : Nonce) : Prog File Bytes Bool := do
  let text ← read .keyring
  match decrypts aead json oldKek text with
  | none => raise
  | some data =>
    match json.keyCount data with
    | none => raise
    | some _ => do
      write .metadata (json.metadata data oldKek newKek)
      write .temp (encrypted aead json newKek newNonce data)
      attempt look (pure ())
      replace .temp .keyring
      let post ← validateKeyring aead json newKek none
      if post.canDecryptWithOldKek then do
        attempt (remove .backup) (pure ())
        attempt (remove .metadata) (pure ())
        pure true
      else do
        let _ ← rollback
        pure false

def migrateKek (dryRun force : Bool) (oldKek newKek : Key) (newNonce : Nonce) :
    Prog File Bytes Bool := do
  let validation ← validateKeyring aead json oldKek (some newKek)
  if !validation.canDecryptWithOldKek then pure false
  else if validation.canDecryptWithNewKek && !force then pure false
  else if dryRun then pure true
  else do
    if ← backupKeyring then
      attempt (reencrypt aead json oldKek newKek newNonce) (do
        let _ ← rollback
        pure false)
    else pure false

section Specifications

variable {aead json} {oldKek newKek : Key} {text : Bytes} {files : File → Option Bytes} {may : Prop}

def Holds (text : Bytes) (s : World File Bytes) : Prop := s.files .keyring = some text

theorem validate_spec (there : files .keyring = some text) (newKek : Option Key) :
    Triple (At files may) (validateKeyring aead json oldKek newKek)
      (fun v s => v = ⟨(decrypts aead json oldKek text).isSome,
          newKek.any fun kek => (decrypts aead json kek text).isSome⟩ ∧ At files may s ∨
        v = ⟨false, false⟩ ∧ may ∧ At files False s)
      fun _ => False := by
  unfold validateKeyring
  refine (triple_exist File.keyring).bind ?_
  intro found
  apply triple_or
  · apply triple_given
    intro here
    rw [here, there, Option.isSome_some, if_pos rfl]
    refine Triple.attempt (fun s => may ∧ At files False s) ?_ ?_
    · refine (triple_read there).bind ?_
      intro r
      apply triple_given
      rintro rfl
      exact triple_pure fun _ h => Or.inl ⟨rfl, h⟩
    · exact triple_pure fun _ h => Or.inr ⟨rfl, h⟩
  · apply triple_given
    rintro rfl
    exact triple_pure fun _ h => Or.inr ⟨rfl, h⟩

theorem backup_spec (there : files .keyring = some text) :
    Triple (At files may) backupKeyring
      (fun r s => r = true ∧ At (Function.update files .backup (some text)) may s ∨
        r = false ∧ Holds text s)
      fun _ => False := by
  have kept : ∀ junk, Function.update files File.backup junk .keyring = some text := by
    intro junk
    rw [Function.update_of_ne (by decide), there]
  unfold backupKeyring
  refine (triple_exist File.keyring).bind ?_
  intro found
  apply triple_or
  · apply triple_given
    intro here
    rw [here, there, Option.isSome_some, if_pos rfl]
    refine Triple.attempt (Holds text) ?_ (triple_pure fun _ h => Or.inr ⟨rfl, h⟩)
    refine Triple.bind ((triple_copy there .backup).raises ?_) ?_
    · rintro s ⟨-, junk, same, -⟩
      rw [Holds, same]
      exact kept junk
    · intro _
      exact triple_pure fun _ h => Or.inl ⟨rfl, h⟩
  · apply triple_given
    rintro rfl
    refine triple_pure fun s h => Or.inr ⟨rfl, ?_⟩
    rw [Holds, h.2.1, there]

theorem triple_holds {α : Type} {p : Prog File Bytes α} {post : α → World File Bytes → Prop}
    {raised : World File Bytes → Prop}
    (h : ∀ files, files .keyring = some text → Triple (At files True) p post raised) :
    Triple (Holds text) p post raised :=
  fun s holds => h s.files holds s ⟨rfl, fun sure => absurd trivial sure⟩

theorem remove_spec {f : File} (other : f ≠ .keyring) :
    Triple (Holds text) (attempt (remove f) (pure ())) (fun _ => Holds text) fun _ => False := by
  apply triple_holds
  intro files holds
  refine (triple_remove f).returns ?_
  rintro _ s (same | same)
  · rw [Holds, same.1, Function.update_of_ne other.symm, holds]
  · rw [Holds, same.1, holds]

theorem exist_spec (f : File) :
    Triple (Holds text) (exist f) (fun _ => Holds text) fun _ => False := by
  apply triple_holds
  intro files holds
  refine (triple_exist f).returns ?_
  rintro _ s (⟨-, same⟩ | ⟨-, -, same⟩)
  · rw [Holds, same.1, holds]
  · rw [Holds, same.1, holds]

theorem cleanUp_spec {f : File} (other : f ≠ .keyring) :
    Triple (Holds text) (cleanUp f) (fun _ => Holds text) fun _ => False := by
  unfold cleanUp
  refine (exist_spec f).bind ?_
  intro there
  split
  · exact remove_spec other
  · exact triple_pure fun _ h => h

/-- Without a further failure the backup takes the keyring's place. -/
theorem rollback_spec (saved : files .backup = some text) :
    Triple (At files False) rollback (fun _ => Holds text) fun _ => False := by
  have backup_there : (files .backup).isSome = true := by rw [saved]; rfl
  unfold rollback
  refine (triple_exist File.backup).bind ?_
  intro found
  apply triple_or
  · apply triple_given
    rintro rfl
    rw [if_pos backup_there]
    have restored : Triple (At files False) (copy .backup .keyring) (fun _ => Holds text)
        fun _ => False := by
      refine (triple_copy saved .keyring).weaken (fun _ h => h) ?_ fun _ h => h.1
      intro _ s same
      rw [Holds, same.1, Function.update_self]
    refine Triple.attempt (fun _ => False) ?_ fun _ impossible => False.elim impossible
    refine restored.bind fun _ => ?_
    refine (cleanUp_spec (by decide)).bind fun _ => ?_
    refine (cleanUp_spec (by decide)).bind fun _ => ?_
    refine (cleanUp_spec (by decide)).bind fun _ => ?_
    exact triple_pure fun _ h => h
  · exact triple_given fun _ => triple_given fun impossible => impossible.elim

theorem decrypts_encrypted (kek : Key) (nonce : Nonce) (data : Doc) :
    decrypts aead json kek (encrypted aead json kek nonce data) = some data := by
  simp [decrypts, encrypted, json.fields_sealed, aead.decrypt_encrypt, json.loads_dumps]

def Saved (text : Bytes) (s : World File Bytes) : Prop :=
  ∃ files, files File.backup = some text ∧ At files False s

theorem write_spec {f : File} (keyring : f ≠ .keyring) (backup : f ≠ .backup)
    (there : files .keyring = some text) (saved : files .backup = some text) (b : Bytes) :
    Triple (At files may) (write f b)
      (fun _ s => ∃ files, (files .keyring = some text ∧ files .backup = some text ∧
        files f = some b) ∧ At files may s) (Saved text) := by
  have kept : ∀ junk, Function.update files f junk .backup = some text := by
    intro junk
    rw [Function.update_of_ne backup.symm, saved]
  refine (triple_write f b).weaken (fun _ h => h) ?_ ?_
  · intro _ s same
    refine ⟨_, ⟨?_, kept _, Function.update_self ..⟩, same⟩
    rw [Function.update_of_ne keyring.symm, there]
  · rintro s ⟨-, junk, same⟩
    exact ⟨_, kept junk, same⟩

theorem verify_spec {new : Bytes} {data : Doc} (there : files .keyring = some new)
    (saved : files .backup = some text) (opens : decrypts aead json newKek new = some data) :
    Triple (At files may) (do
        let post ← validateKeyring aead json newKek none
        if post.canDecryptWithOldKek then do
          attempt (remove .backup) (pure ())
          attempt (remove .metadata) (pure ())
          pure true
        else do
          let _ ← rollback
          pure false : Prog File Bytes Bool)
      (fun r s => r = true ∧ Holds new s ∨ r = false ∧ Holds text s) (Saved text) := by
  refine (validate_spec there none).quiet.bind ?_
  intro post
  apply triple_or
  · apply triple_given
    rintro rfl
    rw [opens, Option.isSome_some, if_pos rfl]
    have holds : ∀ s, At files may s → Holds new s := by
      intro s same
      rw [Holds, same.1, there]
    refine Triple.quiet (Triple.before ?_ holds)
    refine (remove_spec (by decide)).bind fun _ => ?_
    refine (remove_spec (by decide)).bind fun _ => ?_
    exact triple_pure fun _ h => Or.inl ⟨rfl, h⟩
  · apply triple_given
    rintro rfl
    apply triple_given
    intro _
    rw [if_neg Bool.false_ne_true]
    apply Triple.quiet
    refine (rollback_spec saved).bind fun _ => ?_
    exact triple_pure fun _ h => Or.inr ⟨rfl, h⟩

theorem reencrypt_spec (there : files .keyring = some text) (saved : files .backup = some text)
    {data : Doc} (opens : decrypts aead json oldKek text = some data)
    (counted : (json.keyCount data).isSome) (newNonce : Nonce) :
    Triple (At files may) (reencrypt aead json oldKek newKek newNonce)
      (fun r s => r = true ∧ Holds (encrypted aead json newKek newNonce data) s ∨
        r = false ∧ Holds text s) (Saved text) := by
  obtain ⟨count, counts⟩ := Option.isSome_iff_exists.mp counted
  unfold reencrypt
  refine ((triple_read there).raises fun _ h => ⟨files, saved, h.2⟩).bind ?_
  intro r
  apply triple_given
  intro same
  subst r
  simp only [opens, counts]
  refine (write_spec (by decide) (by decide) there saved _).bind fun _ => ?_
  apply triple_some
  intro files₁
  apply triple_given
  rintro ⟨there₁, saved₁, -⟩
  refine (write_spec (by decide) (by decide) there₁ saved₁ _).bind fun _ => ?_
  apply triple_some
  intro files₂
  apply triple_given
  rintro ⟨there₂, saved₂, written⟩
  have permitted : Triple (At files₂ may) (attempt look (pure ()) : Prog File Bytes Unit)
      (fun _ => At files₂ may) (Saved text) :=
    Triple.attempt _ triple_look (triple_pure fun _ h => h.2.calm may)
  refine permitted.bind fun _ => ?_
  refine ((triple_replace written .keyring).raises fun _ h => ⟨files₂, saved₂, h.2⟩).bind
    fun _ => ?_
  apply verify_spec _ _ (decrypts_encrypted newKek newNonce data)
  · rw [Function.update_of_ne (by decide), Function.update_self]
  · rw [Function.update_of_ne (by decide), Function.update_of_ne (by decide), saved₂]

theorem migrate_spec (there : files .keyring = some text) {data : Doc}
    (opens : decrypts aead json oldKek text = some data) (counted : (json.keyCount data).isSome)
    (force : Bool) (newNonce : Nonce) :
    Triple (At files may) (migrateKek aead json false force oldKek newKek newNonce)
      (fun r s => r = true ∧ Holds (encrypted aead json newKek newNonce data) s ∨
        r = false ∧ Holds text s) fun _ => False := by
  have failed : ∀ {may : Prop}, ∀ s, At files may s → Holds text s := by
    intro may s same
    rw [Holds, same.1, there]
  unfold migrateKek
  refine (validate_spec there (some newKek)).bind ?_
  intro validation
  apply triple_or
  · apply triple_given
    rintro rfl
    simp only [opens, Option.isSome_some, Bool.not_true, Bool.false_eq_true, if_false]
    split
    · exact triple_pure fun s h => Or.inr ⟨rfl, failed s h⟩
    refine (backup_spec there).bind ?_
    intro saved
    apply triple_or
    · apply triple_given
      rintro rfl
      rw [if_pos rfl]
      refine Triple.attempt (Saved text) ?_ ?_
      · refine reencrypt_spec ?_ (Function.update_self ..) opens counted newNonce
        rw [Function.update_of_ne (by decide), there]
      · apply triple_some
        intro left
        apply triple_given
        intro saved
        refine (rollback_spec saved).bind fun _ => ?_
        exact triple_pure fun _ h => Or.inr ⟨rfl, h⟩
    · apply triple_given
      rintro rfl
      exact triple_pure fun _ h => Or.inr ⟨rfl, h⟩
  · apply triple_given
    rintro rfl
    apply triple_given
    intro _
    exact triple_pure fun s h => Or.inr ⟨rfl, failed s h⟩

def Opens (aead : Aead) (json : Json Doc) (kek : Key) (data : Doc) (s : World File Bytes) : Prop :=
  ∃ text, Holds text s ∧ decrypts aead json kek text = some data

/-- Whichever step fails, if any, a keyring opens with the KEK that the answer names. -/
theorem migration_is_all_or_nothing (force : Bool) (oldKek newKek : Key) (newNonce : Nonce)
    (data : Doc) (keyring : (json.keyCount data).isSome) (s : World File Bytes)
    (opens : Opens aead json oldKek data s) :
    ∃ success after, migrateKek aead json false force oldKek newKek newNonce s =
      (some success, after) ∧ Opens aead json (if success then newKek else oldKek) data after := by
  obtain ⟨text, there, decrypted⟩ := opens
  have migrated : Triple (At s.files True)
      (migrateKek aead json false force oldKek newKek newNonce) _ _ :=
    migrate_spec there decrypted keyring force newNonce
  have result := migrated s ⟨rfl, fun sure => absurd trivial sure⟩
  cases ended : migrateKek aead json false force oldKek newKek newNonce s with
  | mk answer after =>
    rw [ended] at result
    cases answer with
    | none => exact False.elim result
    | some success =>
      refine ⟨success, after, rfl, ?_⟩
      rcases result with ⟨rfl, holds⟩ | ⟨rfl, holds⟩
      · exact ⟨_, holds, decrypts_encrypted newKek newNonce data⟩
      · exact ⟨_, holds, decrypted⟩

end Specifications

section Witnesses

def plainJson : Json Bytes where
  dumps := id
  loads := some
  loads_dumps := fun _ => rfl
  sealed := fun nonce payload => nonce.val ++ payload
  fields := fun text => some (text.take 12, text.drop 12)
  fields_sealed := fun nonce payload => by rw [take_nonce, drop_nonce]
  keyCount := fun data => some data.length
  metadata := fun _ _ _ => []

def onlyKeyring (fault : Nat) : World File Bytes where
  files := fun f => if f = .keyring then
    some (encrypted shiftAead plainJson (sampleKey 0) (sampleNonce 0) [1, 2, 3]) else none
  fault := some (fault, none)

/-- Reading the new keyring for its verification fails. -/
theorem failed_verification_rolls_back :
    ∃ after, migrateKek shiftAead plainJson false false (sampleKey 0) (sampleKey 1) (sampleNonce 1)
      (onlyKeyring 10) = (some false, after) ∧
        Opens shiftAead plainJson (sampleKey 0) [1, 2, 3] after := by
  obtain ⟨success, after, ended, opens⟩ := migration_is_all_or_nothing false (sampleKey 0)
    (sampleKey 1) (sampleNonce 1) [1, 2, 3] rfl (onlyKeyring 10)
    ⟨_, rfl, decrypts_encrypted (sampleKey 0) (sampleNonce 0) [1, 2, 3]⟩
  have refused : (migrateKek shiftAead plainJson false false (sampleKey 0) (sampleKey 1)
      (sampleNonce 1) (onlyKeyring 10)).1 = some false := by decide +kernel
  rw [ended] at refused
  cases refused
  exact ⟨after, ended, opens⟩

end Witnesses

end Plexichat.Encryption.KekMigration
