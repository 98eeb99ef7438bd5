import Plexichat.Library.Transition
import Plexichat.Encryption.KeyringFile

/-! The blind-index root key of the system keyring: cached by each process, persisted in the file,
or else derived again from the KEK. The methods run one after the other under the file lock; the
system keyring has no other KEK to fall back to. -/
namespace Plexichat.Encryption.BlindIndexRoot
open Transition

/-- `hashlib.blake2b(data, key=key, digest_size=32)`, and `data.lower().strip().encode()`. -/
structure Hash where
  blake2b : (key data : Bytes) → Bytes
  normalize : List Char → Bytes

def Hash.deriveRoot (hash : Hash) (kek : Key) : Bytes :=
  hash.blake2b (Text.utf8 "plexichat:blind-index-root:v1".toList) kek.val

def Hash.blindIndex (hash : Hash) (rootKey : Bytes) (data scope : List Char) : Bytes :=
  hash.blake2b (hash.blake2b (Text.utf8 scope) rootKey) (hash.normalize data)

def root (hash : Hash) (kek : Key) (ring : Ring) : Bytes :=
  ring.blindIndexRootKey.getD (hash.deriveRoot kek)

structure Process where
  kek : Key
  ring : Ring

/-- The file is encrypted under one KEK; `kek` is the one that processes are started with. -/
structure System (ι : Type) where
  file : Option (Key × Ring)
  kek : Key
  process : ι → Option Process

inductive Op (ι : Type) where
  | start (i : ι)
  | load (i : ι)
  | save (i : ι)
  | getKey (i : ι) (fresh : Key)
  | rotate (i : ι) (fresh : Key)
  | getOrCreatePepper (i : ι) (pepperId : List Char) (fresh : Key)
  | blindIndex (i : ι)
  /-- The keyring is re-encrypted, and the environment gets the new KEK. -/
  | migrateKek (newKek : Key)

variable {ι : Type} [DecidableEq ι]

def System.put (s : System ι) (i : ι) (p : Process) : System ι :=
  { s with process := Function.update s.process i (some p) }

def System.write (s : System ι) (i : ι) (p : Process) (includeRoot : Bool) : System ι :=
  { s.put i p with file := some (p.kek, p.ring.writeAtomic includeRoot) }

def Process.withRing (p : Process) (ring : Ring) : Process := { p with ring }

def Process.deriveRoot (hash : Hash) (p : Process) : Process :=
  p.withRing { p.ring with blindIndexRootKey := some (hash.deriveRoot p.kek) }

/-- `_load_from_disk`, and whether the file was missing or could be decrypted. -/
def Process.loadFromDisk (p : Process) : Option (Key × Ring) → Process × Bool
  | none => (p, true)
  | some (kek, ring) =>
    if kek = p.kek then (p.withRing ring, true) else (p.withRing p.ring.loadFailed, false)

def System.init (hash : Hash) (s : System ι) (i : ι) (p : Process) : System ι :=
  if p.ring.blindIndexRootKey = none ∧ p.ring.noKeys = false then
    s.write i (p.deriveRoot hash) true
  else s.put i p

def System.start (hash : Hash) (s : System ι) (i : ι) : System ι :=
  match Process.loadFromDisk ⟨s.kek, .empty⟩ s.file with
  | (p, true) => s.init hash i p
  | (_, false) => { s with process := Function.update s.process i none }

def System.getOrCreatePepper (s : System ι) (i : ι) (pepperId : List Char) (fresh : Key)
    (p : Process) : System ι :=
  if !KeyringFile.validPepperId pepperId then s
  else match p.loadFromDisk s.file with
    | (p, false) => s.put i p
    | (p, true) =>
      match p.ring.pepperKeys.lookup pepperId with
      | some _ => s.put i p
      | none => s.write i (p.withRing (p.ring.addPepper pepperId fresh)) false

def step (hash : Hash) (s : System ι) : Op ι → Option (System ι)
  | .start i => some (s.start hash i)
  | .load i => (s.process i).map fun p => s.put i (p.loadFromDisk s.file).1
  | .save i => (s.process i).map fun p => s.write i p true
  | .getKey i fresh => (s.process i).map fun p =>
    if h : p.ring.noKeys = true then s.write i (p.withRing (p.ring.firstKey fresh h)) false
    else s
  | .rotate i fresh => (s.process i).map fun p =>
    s.write i (p.withRing (p.ring.rotate fresh)) false
  | .getOrCreatePepper i pepperId fresh => (s.process i).map (s.getOrCreatePepper i pepperId fresh)
  | .blindIndex i => (s.process i).map fun p =>
    match p.ring.blindIndexRootKey with
    | some _ => s
    | none => s.write i (p.deriveRoot hash) true
  | .migrateKek newKek => s.file.map fun (_, ring) =>
    { s with file := some (newKek, ring), kek := newKek }

def later (hash : Hash) (s : System ι) : Option Bytes :=
  match s.file with
  | none => some (hash.deriveRoot s.kek)
  | some (kek, ring) => if kek = s.kek then some (root hash kek ring) else none

def field (s : System ι) : Option Bytes := s.file.bind fun (_, ring) => ring.blindIndexRootKey

def stands (hash : Hash) (s : System ι) : Bytes := (field s).getD (hash.deriveRoot s.kek)

def Initial (s : System ι) : Prop :=
  (∀ i, s.process i = none) ∧ ∀ kek ring, s.file = some (kek, ring) → kek = s.kek

/-- `blind_index` of every later process, on every text, is that of the root key. -/
def Survives (hash : Hash) (rootKey : Bytes) (s : System ι) : Prop :=
  ∀ data scope, (later hash s).map (fun r => hash.blindIndex r data scope) =
    some (hash.blindIndex rootKey data scope)

def writing (s : System ι) : Op ι → Option (Process × Bool)
  | .save i => (s.process i).map fun p => (p, true)
  | .getKey i _ => ((s.process i).filter fun p => p.ring.noKeys).map fun p => (p, false)
  | .rotate i _ => (s.process i).map fun p => (p, false)
  | .getOrCreatePepper i pepperId _ => ((s.process i).filter fun p =>
      KeyringFile.validPepperId pepperId && (p.loadFromDisk s.file).2 &&
        ((p.loadFromDisk s.file).1.ring.pepperKeys.lookup pepperId).isNone).map fun p => (p, false)
  | .blindIndex i =>
    ((s.process i).filter fun p => p.ring.blindIndexRootKey.isNone).map fun p => (p, true)
  | .start _ | .load _ | .migrateKek _ => none

/-- Only a process with the KEK of the environment writes, without the field only while that KEK
derives the root key; the file is migrated with the field. -/
def careful (hash : Hash) (s : System ι) (op : Op ι) : Bool :=
  ((writing s op).all fun (p, includeRoot) => p.kek = s.kek &&
      (includeRoot || (field s).all fun rootKey => rootKey = hash.deriveRoot s.kek)) &&
    match op with
    | .migrateKek newKek => (field s).isSome || hash.deriveRoot newKek = hash.deriveRoot s.kek
    | _ => true

section Runs

variable {hash : Hash} {rootKey : Bytes} {s t : System ι} {i : ι} {p : Process}

structure Keeps (hash : Hash) (rootKey : Bytes) (s : System ι) : Prop where
  opens : ∀ kek ring, s.file = some (kek, ring) → kek = s.kek
  persisted : stands hash s = rootKey
  cached : ∀ i p, s.process i = some p → root hash p.kek p.ring = rootKey

theorem Keeps.put (h : Keeps hash rootKey s) (same : root hash p.kek p.ring = rootKey) :
    Keeps hash rootKey (s.put i p) := by
  refine ⟨h.opens, h.persisted, ?_⟩
  intro j q there
  by_cases here : j = i
  · subst here
    simp only [System.put, Function.update_self, Option.some.injEq] at there
    exact there ▸ same
  · simp only [System.put, Function.update_of_ne here] at there
    exact h.cached j q there

theorem Keeps.write (h : Keeps hash rootKey s) (same : root hash p.kek p.ring = rootKey)
    (current : p.kek = s.kek) {includeRoot : Bool}
    (ok : includeRoot = true ∨ ∀ r ∈ field s, r = hash.deriveRoot s.kek) :
    Keeps hash rootKey (s.write i p includeRoot) := by
  have put := h.put (i := i) same
  refine ⟨?_, ?_, put.cached⟩
  · intro kek ring there
    cases there
    exact current
  · cases includeRoot with
    | true =>
      rw [root, current] at same
      exact same
    | false =>
      have derives : ∀ r ∈ field s, r = hash.deriveRoot s.kek := by simpa using ok
      rw [← h.persisted, stands, stands]
      cases there : field s with
      | none => rfl
      | some r => exact (derives r there).symm

omit [DecidableEq ι] in
theorem Keeps.loadFromDisk (h : Keeps hash rootKey s) (same : root hash p.kek p.ring = rootKey) :
    root hash (p.loadFromDisk s.file).1.kek (p.loadFromDisk s.file).1.ring = rootKey ∧
      (p.loadFromDisk s.file).1.kek = p.kek := by
  cases there : s.file with
  | none => exact ⟨same, rfl⟩
  | some f =>
    obtain ⟨kek, ring⟩ := f
    by_cases mine : kek = p.kek
    · simp only [Process.loadFromDisk, if_pos mine]
      have persisted := h.persisted
      rw [stands, field, there, ← h.opens kek ring there, mine] at persisted
      exact ⟨persisted, rfl⟩
    · simp only [Process.loadFromDisk, if_neg mine]
      exact ⟨same, rfl⟩

theorem Keeps.deriveRoot (h : Keeps hash rootKey s) (same : root hash p.kek p.ring = rootKey)
    (missing : p.ring.blindIndexRootKey = none) (current : p.kek = s.kek) {includeRoot : Bool}
    (ok : includeRoot = true ∨ ∀ r ∈ field s, r = hash.deriveRoot s.kek) :
    Keeps hash rootKey (s.write i (p.deriveRoot hash) includeRoot) := by
  refine h.write (p := p.deriveRoot hash) ?_ current ok
  rw [root, missing] at same
  exact same

theorem Keeps.init (h : Keeps hash rootKey s) (same : root hash p.kek p.ring = rootKey)
    (current : p.kek = s.kek) : Keeps hash rootKey (s.init hash i p) := by
  unfold System.init
  split
  · rename_i missing
    exact h.deriveRoot same missing.1 current (Or.inl rfl)
  · exact h.put same

theorem Keeps.start (h : Keeps hash rootKey s) : Keeps hash rootKey (s.start hash i) := by
  unfold System.start
  split
  · rename_i p loaded
    have ring : root hash p.kek p.ring = rootKey ∧ p.kek = s.kek := by
      cases there : s.file with
      | none =>
        rw [there] at loaded
        cases loaded
        have persisted := h.persisted
        rw [stands, field, there] at persisted
        exact ⟨persisted, rfl⟩
      | some f =>
        obtain ⟨kek, ring⟩ := f
        have opened := h.opens kek ring there
        have persisted := h.persisted
        rw [stands, field, there] at persisted
        rw [there, Process.loadFromDisk, if_pos opened] at loaded
        cases loaded
        exact ⟨persisted, rfl⟩
    exact h.init ring.1 ring.2
  · refine ⟨h.opens, h.persisted, ?_⟩
    intro j q there
    by_cases here : j = i
    · subst here
      simp at there
    · simp only [Function.update_of_ne here] at there
      exact h.cached j q there

omit [DecidableEq ι] in
theorem Keeps.migrateKek (h : Keeps hash rootKey s) {kek newKek : Key} {ring : Ring}
    (there : s.file = some (kek, ring))
    (ok : (field s).isSome ∨ hash.deriveRoot newKek = hash.deriveRoot s.kek) :
    Keeps hash rootKey { s with file := some (newKek, ring), kek := newKek } := by
  refine ⟨?_, ?_, h.cached⟩
  · intro kek' ring' here
    cases here
    rfl
  · have persisted := h.persisted
    rw [stands, field, there] at persisted
    rw [field, there] at ok
    show ring.blindIndexRootKey.getD (hash.deriveRoot newKek) = rootKey
    rcases ok with kept | derives
    · obtain ⟨r, kept⟩ := Option.isSome_iff_exists.mp kept
      have same : ring.blindIndexRootKey = some r := kept
      rw [← persisted]
      show _ = ring.blindIndexRootKey.getD (hash.deriveRoot s.kek)
      rw [same]
      rfl
    · rw [derives]
      exact persisted

omit [DecidableEq ι] in
theorem careful_write {op : Op ι} {includeRoot : Bool} (ok : careful hash s op = true)
    (writes : writing s op = some (p, includeRoot)) : p.kek = s.kek ∧
      (includeRoot = true ∨ ∀ r ∈ field s, r = hash.deriveRoot s.kek) := by
  have write := (Bool.and_eq_true_iff.mp ok).1
  rw [writes] at write
  simp only [Option.all_some, Bool.and_eq_true, decide_eq_true_eq, Bool.or_eq_true] at write
  obtain ⟨current, derives⟩ := write
  refine ⟨current, derives.imp id ?_⟩
  intro all r mem
  rw [mem] at all
  simpa using all

theorem step_keeps {op : Op ι} (h : Keeps hash rootKey s) (ok : careful hash s op = true)
    (moved : step hash s op = some t) : Keeps hash rootKey t := by
  cases op with
  | start i =>
    cases moved
    exact h.start
  | load i =>
    obtain ⟨p, there, rfl⟩ := Option.map_eq_some_iff.mp moved
    exact h.put (h.loadFromDisk (h.cached i p there)).1
  | save i =>
    obtain ⟨p, there, rfl⟩ := Option.map_eq_some_iff.mp moved
    obtain ⟨current, free⟩ := careful_write ok (by rw [writing, there]; rfl)
    exact h.write (h.cached i p there) current free
  | getKey i fresh =>
    obtain ⟨p, there, rfl⟩ := Option.map_eq_some_iff.mp moved
    split
    · rename_i empty
      have writes : writing s (.getKey i fresh) = some (p, false) := by
        simp [writing, there, empty]
      obtain ⟨current, free⟩ := careful_write ok writes
      exact h.write (p := p.withRing (p.ring.firstKey fresh empty)) (h.cached i p there) current free
    · exact h
  | rotate i fresh =>
    obtain ⟨p, there, rfl⟩ := Option.map_eq_some_iff.mp moved
    obtain ⟨current, free⟩ := careful_write ok (by rw [writing, there]; rfl)
    exact h.write (p := p.withRing (p.ring.rotate fresh)) (h.cached i p there) current free
  | getOrCreatePepper i pepperId fresh =>
    obtain ⟨p, there, rfl⟩ := Option.map_eq_some_iff.mp moved
    obtain ⟨loaded, kek⟩ := h.loadFromDisk (h.cached i p there)
    unfold System.getOrCreatePepper
    split
    · exact h
    · rename_i valid
      split
      · rename_i q failed
        rw [failed] at loaded
        exact h.put loaded
      · rename_i q opened
        rw [opened] at loaded kek
        split
        · exact h.put loaded
        · rename_i new
          have writes : writing s (.getOrCreatePepper i pepperId fresh) = some (p, false) := by
            simp only [Bool.not_eq_true, Bool.not_eq_false'] at valid
            simp [writing, there, opened, valid, new]
          obtain ⟨current, free⟩ := careful_write ok writes
          exact h.write (p := q.withRing (q.ring.addPepper pepperId fresh)) loaded
            (kek.trans current) free
  | blindIndex i =>
    obtain ⟨p, there, rfl⟩ := Option.map_eq_some_iff.mp moved
    have same := h.cached i p there
    split
    · exact h
    · rename_i missing
      have writes : writing s (.blindIndex i) = some (p, true) := by
        simp [writing, there, missing]
      obtain ⟨current, free⟩ := careful_write ok writes
      exact h.deriveRoot same missing current free
  | migrateKek newKek =>
    obtain ⟨⟨kek, ring⟩, there, rfl⟩ := Option.map_eq_some_iff.mp moved
    apply h.migrateKek there
    simpa [careful, writing] using ok

omit [DecidableEq ι] in
theorem Initial.keeps (h : Initial s) (hash : Hash) : Keeps hash (stands hash s) s := by
  refine ⟨h.2, rfl, ?_⟩
  intro i p there
  rw [h.1 i] at there
  cases there

omit [DecidableEq ι] in
theorem Keeps.later (h : Keeps hash rootKey s) : later hash s = some rootKey := by
  have persisted := h.persisted
  unfold BlindIndexRoot.later
  split
  · rename_i missing
    rw [stands, field, missing] at persisted
    exact congrArg some persisted
  · rename_i kek ring there
    rw [stands, field, there, ← h.opens kek ring there] at persisted
    rw [if_pos (h.opens kek ring there)]
    exact congrArg some persisted

/-- Once the root key has been persisted, careful steps leave every later index as it was. -/
theorem persisted_root_survives (before : Guarded (step hash) (careful hash · · = true) Initial s)
    (persisted : field s = some rootKey)
    (after : Guarded (step hash) (careful hash · · = true) (· = s) t) :
    Survives hash rootKey t := by
  have some_root : ∃ r, Keeps hash r s :=
    guarded_invariant (I := fun s => ∃ r, Keeps hash r s) (fun _ first => ⟨_, first.keeps hash⟩)
      (fun _ _ _ ⟨r, keeps⟩ ok moved => ⟨r, step_keeps keeps ok moved⟩) before
  obtain ⟨r, keeps⟩ := some_root
  have same : r = rootKey := by
    rw [← keeps.persisted, stands, persisted]
    rfl
  have onward : Keeps hash rootKey t :=
    guarded_invariant (I := Keeps hash rootKey) (fun _ here => here ▸ same ▸ keeps)
      (fun _ _ _ keeps ok moved => step_keeps keeps ok moved) after
  intro data scope
  rw [onward.later]
  rfl

end Runs

def fresh : System Unit := ⟨none, sampleKey 1, fun _ => none⟩

theorem fresh_initial : Initial fresh := by
  refine ⟨fun _ => rfl, ?_⟩
  intro kek ring there
  cases there

def persisting : List (Op Unit) := [.start (), .getKey () (sampleKey 3), .blindIndex ()]

def losing : List (Op Unit) := [.rotate () (sampleKey 4), .migrateKek (sampleKey 2)]

theorem rotated_file_migrates (hash : Hash) : ∃ s t : System Unit,
    Reachable (step hash) Initial s ∧ Reachable (step hash) (· = s) t ∧
      field s = some (hash.deriveRoot (sampleKey 1)) ∧
      later hash t = some (hash.deriveRoot (sampleKey 2)) := by
  let s : System Unit := (run (step hash) fresh persisting).get rfl
  let t : System Unit := (run (step hash) s losing).get rfl
  exact ⟨s, t, reachable_of_run persisting fresh_initial (Option.some_get _).symm,
    reachable_of_run losing rfl (Option.some_get _).symm, rfl, rfl⟩

def appending : Hash := ⟨fun key data => key ++ data, Text.utf8⟩

theorem rotation_and_migration_move_index : ¬ ∀ (s t : System Unit) (rootKey : Bytes),
    Reachable (step appending) Initial s → field s = some rootKey →
      Reachable (step appending) (· = s) t → Survives appending rootKey t := by
  intro law
  obtain ⟨s, t, before, after, persisted, moved⟩ := rotated_file_migrates appending
  have same := law s t _ before persisted after [] []
  rw [moved] at same
  simp [Hash.blindIndex, Hash.deriveRoot, appending] at same
  exact absurd same (by decide)

/-- A save puts the field back before the migration. -/
theorem saved_root_survives : ∃ s t : System Unit,
    field s = some (appending.deriveRoot (sampleKey 1)) ∧ t.kek = sampleKey 2 ∧
      Survives appending (appending.deriveRoot (sampleKey 1)) t := by
  let s : System Unit :=
    (runGuarded (step appending) (careful appending · · = true) fresh persisting).get rfl
  let calls : List (Op Unit) := [.rotate () (sampleKey 4), .save (), .migrateKek (sampleKey 2)]
  let t : System Unit :=
    (runGuarded (step appending) (careful appending · · = true) s calls).get rfl
  have before : Guarded (step appending) (careful appending · · = true) Initial s :=
    guarded_of_run persisting fresh_initial (Option.some_get _).symm
  have after : Guarded (step appending) (careful appending · · = true) (· = s) t :=
    guarded_of_run calls rfl (Option.some_get _).symm
  exact ⟨s, t, rfl, rfl, persisted_root_survives before rfl after⟩

end Plexichat.Encryption.BlindIndexRoot
