import Plexichat.Library.Transition
import Plexichat.Encryption.Keyring

/-! Keyring instances over one file. Every method runs inside the file lock, but
only get_or_create_pepper reads the file again before it writes. A step is one
lock operation, one read or write of the file, or one change of the cached copy. -/
namespace Plexichat.Encryption.KeyringFile
open Transition

/-- A method call; construct and constructSave are the two halves of `__init__`. -/
inductive Op where
  | construct | constructSave | load | save | getKey | rotate
  | pepper (id : List Char)
  deriving DecidableEq

inductive Pc where
  | absent | idle
  | waiting (op : Op)
  | held (op : Op)
  | loaded (id : List Char)
  | dirty (op : Op)
  | done (op : Op)
  deriving DecidableEq

inductive Action (ι : Type) where
  | call (i : ι) (op : Op)
  | blindRoot (i : ι)
  | acquire (i : ι)
  | timeout (i : ι)
  | read (i : ι)
  | readFails (i : ι)
  | mutate (i : ι) (fresh : Key)
  | write (i : ι)
  | writeFails (i : ι)
  | release (i : ι)

structure System (ι : Type) where
  file : Option Ring
  lock : Option ι
  ring : ι → Ring
  pc : ι → Pc

variable {ι : Type} [DecidableEq ι]

def System.put (s : System ι) (i : ι) (r : Ring) (p : Pc) : System ι :=
  { s with ring := Function.update s.ring i r, pc := Function.update s.pc i p }

/-- An exception inside `__init__` leaves no instance behind. -/
def Op.abort : Op → Pc
  | .construct | .constructSave => .absent
  | _ => .idle

def validPepperId (id : List Char) : Bool :=
  1 ≤ id.length && id.length ≤ 32 &&
    id.all fun c => c.isAlphanum || c == '_' || c == '-'

/-- `_write_atomic` gets the flag from `save` only. -/
def Op.includesRoot : Op → Bool
  | .save | .constructSave => true
  | _ => false

def mutate (fresh : Key) (r : Ring) : Pc → Option (Ring × Pc)
  | .held .save => some (r, .dirty .save)
  | .held .constructSave => some (r, .dirty .constructSave)
  | .held .rotate => some (r.rotate fresh, .dirty .rotate)
  | .held .getKey =>
    if h : r.noKeys = true then some (r.firstKey fresh h, .dirty .getKey)
    else some (r, .done .getKey)
  | .loaded id =>
    match r.pepperKeys.lookup id with
    | some _ => some (r, .done (.pepper id))
    | none => some (r.addPepper id fresh, .dirty (.pepper id))
  | _ => none

/-- The step function; `root` is the blind-index root derived from the KEK. -/
def step (root : Bytes) (s : System ι) : Action ι → Option (System ι)
  | .call i op =>
    match s.pc i, op with
    | .absent, .construct => some (s.put i .empty (.waiting .construct))
    | .idle, .construct | .idle, .constructSave => none
    | .idle, op => some (s.put i (s.ring i) (.waiting op))
    | _, _ => none
  | .blindRoot i =>
    if s.pc i = .idle ∧ (s.ring i).blindIndexRootKey = none then
      some (s.put i { s.ring i with blindIndexRootKey := some root } (.waiting .save))
    else none
  | .acquire i =>
    match s.pc i, s.lock with
    | .waiting op, none => some { s.put i (s.ring i) (.held op) with lock := some i }
    | _, _ => none
  | .timeout i =>
    match s.pc i with
    | .waiting op => some (s.put i (s.ring i) op.abort)
    | _ => none
  | .read i =>
    match s.pc i with
    | .held .construct => some (s.put i ((s.ring i).loadFromDisk s.file) (.done .construct))
    | .held .load => some (s.put i ((s.ring i).loadFromDisk s.file) (.done .load))
    | .held (.pepper id) =>
      if validPepperId id then
        some (s.put i ((s.ring i).loadFromDisk s.file) (.loaded id))
      else some (s.put i (s.ring i) (.done (.pepper id)))
    | _ => none
  | .readFails i =>
    match s.pc i with
    | .held .construct => some { s.put i .empty .absent with lock := none }
    | .held .load => some { s.put i (s.ring i).loadFailed .idle with lock := none }
    | .held (.pepper _) => some { s.put i (s.ring i).loadFailed .idle with lock := none }
    | _ => none
  | .mutate i fresh =>
    (mutate fresh (s.ring i) (s.pc i)).map fun (r, p) => s.put i r p
  | .write i =>
    match s.pc i with
    | .dirty op =>
      some { s.put i (s.ring i) (.done op) with
        file := some ((s.ring i).writeAtomic op.includesRoot) }
    | _ => none
  | .writeFails i =>
    match s.pc i with
    | .dirty op => some { s.put i (s.ring i) op.abort with lock := none }
    | _ => none
  | .release i =>
    match s.pc i with
    | .done .construct =>
      -- the second half of __init__ persists a root for a ring that has keys
      if (s.ring i).blindIndexRootKey = none ∧ (s.ring i).noKeys = false then
        some { s.put i { s.ring i with blindIndexRootKey := some root } (.waiting .constructSave)
          with lock := none }
      else some { s.put i (s.ring i) .idle with lock := none }
    | .done _ => some { s.put i (s.ring i) .idle with lock := none }
    | _ => none

def Initial (s : System ι) : Prop := s.lock = none ∧ ∀ i, s.pc i = .absent

def FileBinds (file : Option Ring) (v : Nat) (k : Key) : Prop := ∃ r ∈ file, r.Binds v k

instance (file : Option Ring) (v : Nat) (k : Key) : Decidable (FileBinds file v k) :=
  inferInstanceAs (Decidable (∃ r ∈ file, r.Binds v k))

def Covers (r : Ring) (file : Option Ring) : Prop := ∀ v k, FileBinds file v k → r.Binds v k

theorem covers_iff (r f : Ring) :
    Covers r (some f) ↔ ∀ e ∈ f.keys.entries, r.keys.lookup e.1 = some e.2 := by
  constructor
  · intro h e he
    exact h e.1 e.2 ⟨f, rfl, AList.mem_lookup_iff.mpr he⟩
  · intro h v k bound
    obtain ⟨w, hw, hb⟩ := bound
    cases hw
    exact h ⟨v, k⟩ (AList.mem_lookup_iff.mp hb)

instance (r : Ring) : (file : Option Ring) → Decidable (Covers r file)
  | none => isTrue fun _ _ h => by simp [FileBinds] at h
  | some f => decidable_of_iff _ (covers_iff r f).symm

/-- A call that writes its cached copy back without a fresh read. -/
def Op.writesCache (r : Ring) : Op → Bool
  | .save | .constructSave | .rotate => true
  | .getKey => r.noKeys
  | _ => false

def Pc.waitsFor : Pc → Option Op
  | .waiting op => some op
  | _ => none

def UpToDate (s : System ι) : Action ι → Prop
  | .acquire i =>
    ∀ op ∈ (s.pc i).waitsFor, op.writesCache (s.ring i) = true → Covers (s.ring i) s.file
  | _ => True

instance (s : System ι) : (a : Action ι) → Decidable (UpToDate s a)
  | .acquire i => inferInstanceAs (Decidable (∀ op ∈ (s.pc i).waitsFor, _))
  | .call .. | .blindRoot _ | .timeout _ | .read _ | .readFails _ | .mutate .. | .write _
  | .writeFails _ | .release _ => isTrue trivial

def Pc.inside : Pc → Prop
  | .held _ | .loaded _ | .dirty _ | .done _ => True
  | _ => False

def Pc.willWrite (r : Ring) : Pc → Prop
  | .held op => op.writesCache r = true
  | .loaded _ | .dirty _ => True
  | _ => False

theorem Pc.inside_of_willWrite {r : Ring} {p : Pc} (h : p.willWrite r) : p.inside := by
  cases p with
  | held op => trivial
  | loaded id => trivial
  | dirty op => trivial
  | absent => exact h
  | idle => exact h
  | waiting op => exact h
  | done op => trivial

structure Safe (s : System ι) : Prop where
  owner : ∀ i, (s.pc i).inside → s.lock = some i
  covered : ∀ i, (s.pc i).willWrite (s.ring i) → Covers (s.ring i) s.file

/-- What one instance may do to itself without touching the file or the lock. -/
theorem Safe.put {s : System ι} (safe : Safe s) {i : ι} {r : Ring} {p : Pc}
    (inside : p.inside → s.lock = some i) (covers : p.willWrite r → Covers r s.file) :
    Safe (s.put i r p) := by
  constructor
  · intro j hj
    by_cases same : j = i
    · subst same
      exact inside (by simpa [System.put] using hj)
    · exact safe.owner j (by simpa [System.put, same] using hj)
  · intro j hj
    by_cases same : j = i
    · subst same
      have := covers (by simpa [System.put] using hj)
      simpa [System.put] using this
    · have := safe.covered j (by simpa [System.put, same] using hj)
      simpa [System.put, same] using this

theorem safe_of_alone {t : System ι} {i : ι} (alone : ∀ j, j ≠ i → ¬ (t.pc j).inside)
    (inside : (t.pc i).inside → t.lock = some i)
    (covers : (t.pc i).willWrite (t.ring i) → Covers (t.ring i) t.file) : Safe t := by
  constructor
  · intro j hj
    by_cases same : j = i
    · exact same ▸ inside (same ▸ hj)
    · exact absurd hj (alone j same)
  · intro j hj
    by_cases same : j = i
    · subst same
      exact covers hj
    · exact absurd (Pc.inside_of_willWrite hj) (alone j same)

omit [DecidableEq ι] in
theorem Safe.alone {s : System ι} (safe : Safe s) {i j : ι} (h : s.lock = some i ∨ s.lock = none)
    (apart : j ≠ i) : ¬ (s.pc j).inside := by
  intro hj
  have held := safe.owner j hj
  cases h with
  | inl h => exact apart (Option.some.inj (held.symm.trans h))
  | inr h => simp [h] at held

theorem covers_loadFromDisk (r : Ring) (file : Option Ring) :
    Covers (r.loadFromDisk file) file := by
  intro v k h
  obtain ⟨w, hw, hb⟩ := h
  cases hw
  exact hb

theorem mutate_covers {fresh : Key} {r r' : Ring} {p p' : Pc} {file : Option Ring}
    (h : mutate fresh r p = some (r', p')) (covers : p.willWrite r → Covers r file) :
    p.inside ∧ p'.inside ∧ (p'.willWrite r' → Covers r' file) := by
  unfold mutate at h
  split at h
  · cases h
    exact ⟨trivial, trivial, fun _ => covers rfl⟩
  · cases h
    exact ⟨trivial, trivial, fun _ => covers rfl⟩
  · cases h
    exact ⟨trivial, trivial, fun _ v k hb => (covers rfl v k hb).rotate fresh⟩
  · split at h
    · rename_i none
      cases h
      refine ⟨trivial, trivial, fun _ v k hb => ?_⟩
      exact absurd (covers none v k hb) (Ring.not_binds_of_noKeys none v k)
    · cases h
      exact ⟨trivial, trivial, False.elim⟩
  · split at h
    · cases h
      exact ⟨trivial, trivial, False.elim⟩
    · cases h
      exact ⟨trivial, trivial, fun _ => covers trivial⟩
  · cases h

@[simp] theorem put_pc (s : System ι) (i : ι) (r : Ring) (p : Pc) : (s.put i r p).pc i = p :=
  Function.update_self ..

@[simp] theorem put_ring (s : System ι) (i : ι) (r : Ring) (p : Pc) : (s.put i r p).ring i = r :=
  Function.update_self ..

theorem put_pc_other (s : System ι) {i j : ι} (r : Ring) (p : Pc) (apart : j ≠ i) :
    (s.put i r p).pc j = s.pc j := Function.update_of_ne apart ..

theorem Op.not_inside_abort (op : Op) : ¬ op.abort.inside := by
  cases op <;> exact id

theorem Safe.leave {s : System ι} (safe : Safe s) {i : ι} {r : Ring} {p : Pc}
    (held : (s.pc i).inside) (out : ¬ p.inside) :
    Safe { s.put i r p with lock := none } := by
  apply safe_of_alone (i := i)
  · intro j apart hj
    exact safe.alone (.inl (safe.owner i held)) apart (put_pc_other s r p apart ▸ hj)
  · intro hi
    exact absurd (put_pc s i r p ▸ hi) out
  · intro hi
    exact absurd (put_pc s i r p ▸ Pc.inside_of_willWrite hi) out

def Kept (s t : System ι) : Prop := ∀ v k, FileBinds s.file v k → FileBinds t.file v k

omit [DecidableEq ι] in
theorem Kept.refl (s : System ι) : Kept s s := fun _ _ h => h

omit [DecidableEq ι] in
theorem Kept.trans (s t w : System ι) (h : Kept s t) (k : Kept t w) : Kept s w :=
  fun v key bound => k v key (h v key bound)

theorem step_safe {root : Bytes} {s t : System ι} {a : Action ι} (safe : Safe s)
    (ok : UpToDate s a) (next : step root s a = some t) :
    Safe t ∧ Kept s t := by
  cases a with
  | call i op =>
    simp only [step] at next
    split at next
    · cases next
      exact ⟨safe.put False.elim False.elim, fun _ _ h => h⟩
    · cases next
    · cases next
    · cases next
      exact ⟨safe.put False.elim False.elim, fun _ _ h => h⟩
    · cases next
  | blindRoot i =>
    simp only [step] at next
    split at next
    · cases next
      exact ⟨safe.put False.elim False.elim, fun _ _ h => h⟩
    · cases next
  | acquire i =>
    simp only [step] at next
    split at next
    · rename_i op waiting free
      cases next
      refine ⟨safe_of_alone (i := i) ?_ (fun _ => rfl) ?_, fun _ _ h => h⟩
      · intro j apart hj
        exact safe.alone (.inr free) apart (put_pc_other s (s.ring i) (.held op) apart ▸ hj)
      · intro writes
        simp only [put_pc, put_ring] at writes ⊢
        exact ok op (waiting ▸ rfl) writes
    · cases next
  | timeout i =>
    simp only [step] at next
    split at next
    · rename_i op _
      cases next
      have out := op.not_inside_abort
      exact ⟨safe.put (fun h => absurd h out)
        (fun h => absurd (Pc.inside_of_willWrite h) out), fun _ _ h => h⟩
    · cases next
  | read i =>
    have covers := covers_loadFromDisk (s.ring i) s.file
    simp only [step] at next
    split at next
    · rename_i held
      cases next
      exact ⟨safe.put (fun _ => safe.owner i (held ▸ trivial)) False.elim, fun _ _ h => h⟩
    · rename_i held
      cases next
      exact ⟨safe.put (fun _ => safe.owner i (held ▸ trivial)) False.elim, fun _ _ h => h⟩
    · rename_i id held
      have owner : s.lock = some i := safe.owner i (held ▸ trivial)
      split at next
      · cases next
        exact ⟨safe.put (fun _ => owner) (fun _ => covers), fun _ _ h => h⟩
      · cases next
        exact ⟨safe.put (fun _ => owner) False.elim, fun _ _ h => h⟩
    · cases next
  | readFails i =>
    simp only [step] at next
    split at next
    · rename_i held
      cases next
      exact ⟨safe.leave (held ▸ trivial) id, fun _ _ h => h⟩
    · rename_i held
      cases next
      exact ⟨safe.leave (held ▸ trivial) id, fun _ _ h => h⟩
    · rename_i held
      cases next
      exact ⟨safe.leave (held ▸ trivial) id, fun _ _ h => h⟩
    · cases next
  | mutate i fresh =>
    simp only [step, Option.map_eq_some_iff] at next
    obtain ⟨⟨r, p⟩, changed, rfl⟩ := next
    obtain ⟨before, -, covers⟩ := mutate_covers changed (safe.covered i)
    exact ⟨safe.put (fun _ => safe.owner i before) covers, fun _ _ h => h⟩
  | write i =>
    simp only [step] at next
    split at next
    · rename_i op dirty
      cases next
      have owner : s.lock = some i := safe.owner i (dirty ▸ trivial)
      refine ⟨safe_of_alone (i := i) ?_ (fun _ => owner) ?_, ?_⟩
      · intro j apart hj
        exact safe.alone (.inl owner) apart (put_pc_other s (s.ring i) (.done op) apart ▸ hj)
      · intro writes
        simp only [put_pc, Pc.willWrite] at writes
      · intro v k h
        exact ⟨_, rfl, safe.covered i (dirty ▸ trivial) v k h⟩
    · cases next
  | writeFails i =>
    simp only [step] at next
    split at next
    · rename_i op dirty
      cases next
      exact ⟨safe.leave (dirty ▸ trivial) op.not_inside_abort, fun _ _ h => h⟩
    · cases next
  | release i =>
    simp only [step] at next
    split at next
    · rename_i held
      split at next
      · cases next
        exact ⟨safe.leave (held ▸ trivial) id, fun _ _ h => h⟩
      · cases next
        exact ⟨safe.leave (held ▸ trivial) id, fun _ _ h => h⟩
    · rename_i held
      cases next
      exact ⟨safe.leave (held ▸ trivial) id, fun _ _ h => h⟩
    · cases next

omit [DecidableEq ι] in
theorem initial_safe {s : System ι} (h : Initial s) : Safe s := by
  constructor
  · intro i hi
    simp [h.2 i, Pc.inside] at hi
  · intro i hi
    simp [h.2 i, Pc.willWrite] at hi

def writing (i : ι) (op : Op) (fresh : Key) : List (Action ι) :=
  [.call i op, .acquire i, .mutate i fresh, .write i, .release i]

def constructing (i : ι) : List (Action ι) := [.call i .construct, .acquire i, .read i, .release i]

def reloading (i : ι) : List (Action ι) := [.call i .load, .acquire i, .read i, .release i]

def noFile : System Bool := ⟨none, none, fun _ => .empty, fun _ => .absent⟩

def firstRotation : List (Action Bool) :=
  constructing true ++ writing true .getKey (sampleKey 1) ++ constructing false ++
    [.acquire false, .mutate false (sampleKey 0), .write false, .release false] ++
    writing true .rotate (sampleKey 2)

def secondRotation : List (Action Bool) := writing false .rotate (sampleKey 3)

/-- The second rotation binds version 2 anew. -/
theorem second_rotation_rebinds : ¬ ∀ s t : System Bool, Reachable (step []) Initial s →
    Reachable (step []) (· = s) t → ∀ v k, FileBinds s.file v k → FileBinds t.file v k := by
  intro law
  let s : System Bool := (run (step []) noFile firstRotation).get (by decide)
  let t : System Bool := (run (step []) s secondRotation).get (by decide)
  have hs : Reachable (step []) Initial s :=
    reachable_of_run firstRotation ⟨rfl, fun _ => rfl⟩ (Option.some_get _).symm
  have ht : Reachable (step []) (· = s) t :=
    reachable_of_run secondRotation rfl (Option.some_get _).symm
  have lost : ¬ FileBinds t.file 2 (sampleKey 2) := by decide
  exact lost (law s t hs ht 2 (sampleKey 2) (by decide))

/-- While every cached copy that is written back covers the file, a binding once
in the file is in every later content of it. -/
theorem persisted_binding_survives {root : Bytes} {s t : System ι}
    (before : Guarded (step root) UpToDate Initial s)
    (after : Guarded (step root) UpToDate (· = s) t) {v : Nat} {k : Key}
    (saved : FileBinds s.file v k) : FileBinds t.file v k := by
  have safe : Safe s :=
    guarded_invariant (fun _ h => initial_safe h) (fun _ _ _ h ok next => (step_safe h ok next).1)
      before
  have kept : Safe t ∧ Kept s t :=
    guarded_relation Kept.refl Kept.trans (fun _ _ _ safe ok next => step_safe safe ok next)
      safe after
  exact kept.2 v k saved

/-- A reload before the second rotation keeps version 2 and binds version 3. -/
theorem reloaded_rotation_keeps : ∃ s t : System Bool, FileBinds s.file 2 (sampleKey 2) ∧
    FileBinds t.file 3 (sampleKey 3) ∧ FileBinds t.file 2 (sampleKey 2) := by
  let s : System Bool := (runGuarded (step []) UpToDate noFile firstRotation).get (by decide)
  let t : System Bool :=
    (runGuarded (step []) UpToDate s (reloading false ++ secondRotation)).get (by decide)
  have hs : Guarded (step []) UpToDate Initial s :=
    guarded_of_run firstRotation ⟨rfl, fun _ => rfl⟩ (Option.some_get _).symm
  have ht : Guarded (step []) UpToDate (· = s) t :=
    guarded_of_run (reloading false ++ secondRotation) rfl (Option.some_get _).symm
  have saved : FileBinds s.file 2 (sampleKey 2) := by decide
  exact ⟨s, t, saved, by decide, persisted_binding_survives hs ht saved⟩

end Plexichat.Encryption.KeyringFile
