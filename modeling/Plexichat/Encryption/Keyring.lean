import Mathlib.Data.List.AList
import Plexichat.Library.Text

/-! The in-memory keyring of core/keyring.py. The bound versions lie between one
and the current version, and the type of rings says so. Base64, JSON and the KEK envelope
of the file are transparent here: the file holds a ring. -/
namespace Plexichat.Encryption

abbrev Bytes := List UInt8

/-- `AESGCM.generate_key(bit_length=256)` and the other 32 byte secrets. -/
abbrev Key := { k : Bytes // k.length = 32 }

def sampleKey (n : UInt8) : Key := ⟨List.replicate 32 n, List.length_replicate⟩

structure Ring where
  currentVersion : Nat
  keys : AList fun _ : Nat => Key
  pepperKeys : AList fun _ : List Char => Bytes
  blindIndexRootKey : Option Bytes
  bounded : ∀ v ∈ keys, 1 ≤ v ∧ v ≤ currentVersion
  deriving DecidableEq

namespace Ring

def empty : Ring := ⟨0, ∅, ∅, none, fun _ h => absurd h (AList.notMem_empty _)⟩

def Binds (r : Ring) (v : Nat) (k : Key) : Prop := r.keys.lookup v = some k

instance (r : Ring) (v : Nat) (k : Key) : Decidable (r.Binds v k) :=
  inferInstanceAs (Decidable (_ = _))

def noKeys (r : Ring) : Bool := r.keys.entries.isEmpty

/-- `_load_from_disk`: a missing file leaves the instance as it is. -/
def loadFromDisk (file : Option Ring) (r : Ring) : Ring := file.getD r

def loadFailed (r : Ring) : Ring :=
  { empty with blindIndexRootKey := r.blindIndexRootKey }

def writeAtomic (includeBlindIndexRootKey : Bool) (r : Ring) : Ring :=
  { r with blindIndexRootKey := if includeBlindIndexRootKey then r.blindIndexRootKey else none }

/-- The first key, generated by `get_key` on an empty ring. -/
def firstKey (newKey : Key) (r : Ring) (h : r.noKeys = true) : Ring :=
  { r with
    currentVersion := 1
    keys := r.keys.insert 1 newKey
    bounded := by
      intro v hv
      have nothing : r.keys.entries = [] := List.isEmpty_iff.mp h
      cases (AList.mem_insert r.keys).mp hv with
      | inl first => omega
      | inr old => simp [AList.mem_keys, AList.keys, nothing] at old }

/-- The in-memory part of `rotate`. -/
def rotate (newKey : Key) (r : Ring) : Ring :=
  { r with
    currentVersion := r.currentVersion + 1
    keys := r.keys.insert (r.currentVersion + 1) newKey
    bounded := by
      intro v hv
      cases (AList.mem_insert r.keys).mp hv with
      | inl next => omega
      | inr old =>
        have := r.bounded v old
        omega }

/-- The in-memory part of `get_or_create_pepper` when the id is new. -/
def addPepper (id : List Char) (secret : Key) (r : Ring) : Ring :=
  { r with pepperKeys := r.pepperKeys.insert id secret.val }

/-- The ring `get_key` looks versions up in. -/
def ensureKey (newKey : Key) (r : Ring) : Ring :=
  if h : r.noKeys = true then r.firstKey newKey h else r

/-- The lookup of `get_key`; none is the ValueError of an unknown version. -/
def getKey (version : Option Nat) (r : Ring) : Option (Nat × Key) :=
  let v := match version with
    | some (n + 1) => n + 1
    | _ => r.currentVersion
  (r.keys.lookup v).map fun key => (v, key)

theorem Binds.bounds {r : Ring} {v : Nat} {k : Key} (h : r.Binds v k) :
    1 ≤ v ∧ v ≤ r.currentVersion := r.bounded v (AList.lookup_isSome.mp (Option.isSome_of_mem h))

theorem not_binds_of_noKeys {r : Ring} (h : r.noKeys = true) (v : Nat) (k : Key) :
    ¬ r.Binds v k := by
  intro hb
  have member : v ∈ r.keys := AList.lookup_isSome.mp (Option.isSome_of_mem hb)
  have nothing : r.keys.entries = [] := List.isEmpty_iff.mp h
  simp [AList.mem_keys, AList.keys, nothing] at member

@[simp] theorem writeAtomic_binds (b : Bool) (r : Ring) (v : Nat) (k : Key) :
    (r.writeAtomic b).Binds v k ↔ r.Binds v k := Iff.rfl

@[simp] theorem addPepper_binds (id : List Char) (secret : Key) (r : Ring) (v : Nat) (k : Key) :
    (r.addPepper id secret).Binds v k ↔ r.Binds v k := Iff.rfl

theorem getKey_of_binds {r : Ring} {v : Nat} {k : Key} (h : r.Binds v k) :
    r.getKey (some v) = some (v, k) := by
  have positive := h.bounds.1
  cases v with
  | zero => omega
  | succ n => exact congrArg (Option.map fun key => (n + 1, key)) h

theorem binds_of_getKey {r : Ring} {v : Nat} {k : Key} (h : r.getKey none = some (v, k)) :
    v = r.currentVersion ∧ r.Binds v k := by
  unfold getKey at h
  obtain ⟨key, found, pair⟩ := Option.map_eq_some_iff.mp h
  cases pair
  exact ⟨rfl, found⟩

theorem Binds.rotate {r : Ring} {v : Nat} {k : Key} (h : r.Binds v k) (newKey : Key) :
    (r.rotate newKey).Binds v k := by
  have apart : v ≠ r.currentVersion + 1 := by
    have := h.bounds
    omega
  exact (AList.lookup_insert_ne apart).trans h

theorem rotate_binds (newKey : Key) (r : Ring) :
    (r.rotate newKey).Binds (r.currentVersion + 1) newKey := AList.lookup_insert r.keys

theorem Binds.ensureKey {r : Ring} {v : Nat} {k : Key} (h : r.Binds v k) (newKey : Key) :
    (r.ensureKey newKey).Binds v k := by
  rw [Ring.ensureKey]
  split
  · rename_i none
    exact absurd h (not_binds_of_noKeys none v k)
  · exact h

def Extends (r r' : Ring) : Prop := ∀ v k, r.Binds v k → r'.Binds v k

theorem Extends.refl (r : Ring) : r.Extends r := fun _ _ h => h

theorem Extends.trans {r r' r'' : Ring} (h : r.Extends r') (k : r'.Extends r'') : r.Extends r'' :=
  fun v key bound => k v key (h v key bound)

theorem extends_rotate (r : Ring) (newKey : Key) : r.Extends (r.rotate newKey) :=
  fun _ _ h => h.rotate newKey

theorem extends_ensureKey (r : Ring) (newKey : Key) : r.Extends (r.ensureKey newKey) :=
  fun _ _ h => h.ensureKey newKey

end Ring

end Plexichat.Encryption
