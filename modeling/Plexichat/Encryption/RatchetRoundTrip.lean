import Plexichat.Encryption.RatchetIntervals

/-! A ratchet envelope stays readable. Nothing deletes an interval or rewrites its
wrapped start key, and a rotation of the keyring keeps the key it is wrapped under. -/
namespace Plexichat.Encryption.Ratchet
open Transition

def Wrapped (aead : Aead) (ring : Ring) (t : List Char) (raw : Bytes) : Prop :=
  ∃ version key nonce, ring.Binds version key ∧
    t = envelope version nonce (aead.encrypt key nonce raw none)

def Sound (aead : Aead) (s : State) : Prop :=
  ∀ r ∈ s.intervals, ∃ raw, Wrapped aead s.ring r.startKeyWrapped raw

structure Later (s t : State) : Prop where
  ring : s.ring.Extends t.ring
  intervals : ∀ id r, s.intervals.find id = some r → ∃ q, t.intervals.find id = some q ∧
    q.conversationId = r.conversationId ∧ q.startKeyWrapped = r.startKeyWrapped

variable {aead : Aead} {kdf : Kdf} {cfg : Config}

theorem Wrapped.extend {ring ring' : Ring} {t : List Char} {raw : Bytes}
    (h : Wrapped aead ring t raw) (ext : ring.Extends ring') : Wrapped aead ring' t raw := by
  obtain ⟨version, key, nonce, bound, same⟩ := h
  exact ⟨version, key, nonce, ext version key bound, same⟩

theorem Wrapped.unwrap {ring : Ring} {t : List Char} {raw : Bytes}
    (h : Wrapped aead ring t raw) : unwrap aead ring t = some raw := by
  obtain ⟨version, key, nonce, bound, rfl⟩ := h
  exact unwrap_envelope aead bound nonce raw

theorem wrapped_of_wrap {ring : Ring} {fresh : Key} {nonce : Nonce} {raw : Bytes} {t : List Char}
    (h : (wrap aead fresh nonce ring raw).2 = some t) :
    Wrapped aead (ring.ensureKey fresh) t raw := by
  simp only [wrap, currentKey, Option.map_eq_some_iff] at h
  obtain ⟨⟨version, key⟩, found, rfl⟩ := h
  exact ⟨version, key, nonce, (Ring.binds_of_getKey found).2, rfl⟩

theorem Later.refl (s : State) : Later s s :=
  ⟨Ring.Extends.refl _, fun _ r h => ⟨r, h, rfl, rfl⟩⟩

theorem Later.trans {s t w : State} (h : Later s t) (k : Later t w) : Later s w := by
  refine ⟨h.ring.trans k.ring, ?_⟩
  intro id r found
  obtain ⟨q, foundQ, convQ, keyQ⟩ := h.intervals id r found
  obtain ⟨p, foundP, convP, keyP⟩ := k.intervals id q foundQ
  exact ⟨p, foundP, convP.trans convQ, keyP.trans keyQ⟩

theorem later_touch (s : State) (id now : Nat) : Later s (touch s id now) := by
  refine ⟨Ring.Extends.refl _, ?_⟩
  intro k r found
  refine ⟨_, (find_touch s id now k).trans (congrArg _ found), ?_⟩
  simp only
  split <;> exact ⟨rfl, rfl⟩

theorem later_closeRow (s : State) (id stop now : Nat) : Later s (closeRow s id stop now) := by
  refine ⟨Ring.Extends.refl _, ?_⟩
  intro k r found
  refine ⟨_, (find_closeRow s id stop now k).trans (congrArg _ found), ?_⟩
  simp only
  split <;> exact ⟨rfl, rfl⟩

theorem later_closeActive (s : State) (c stop now : Nat) : Later s (closeActive s c stop now) := by
  unfold closeActive
  split
  · exact later_closeRow ..
  · exact Later.refl s

theorem Sound.touch {s : State} (h : Sound aead s) (id now : Nat) : Sound aead (touch s id now) := by
  intro q hq
  obtain ⟨r, hr, rfl⟩ := mem_touch.mp hq
  obtain ⟨raw, wrapped⟩ := h r hr
  refine ⟨raw, ?_⟩
  split <;> exact wrapped

theorem Sound.closeActive {s : State} (h : Sound aead s) (c stop now : Nat) :
    Sound aead (closeActive s c stop now) := by
  unfold Ratchet.closeActive
  split
  · intro q hq
    obtain ⟨r, hr, rfl⟩ := mem_closeRow.mp hq
    obtain ⟨raw, wrapped⟩ := h r hr
    refine ⟨raw, ?_⟩
    split <;> exact wrapped
  · exact h

def Readable (aead : Aead) (s : State) (c : Nat) (i : RatchetInterval) : Prop :=
  ∃ r, s.intervals.find i.intervalId = some r ∧ r.conversationId = c ∧
    Wrapped aead s.ring r.startKeyWrapped i.startKey

theorem Readable.later {s t : State} {c : Nat} {i : RatchetInterval} (h : Readable aead s c i)
    (later : Later s t) : Readable aead t c i := by
  obtain ⟨r, found, conversation, wrapped⟩ := h
  obtain ⟨q, foundQ, convQ, keyQ⟩ := later.intervals _ r found
  exact ⟨q, foundQ, convQ.trans conversation, keyQ ▸ wrapped.extend later.ring⟩

theorem create_spec {s : State} (sound : Sound aead s) (c start now : Nat) (draw : Draw) :
    Later s (create aead s c start now draw).1 ∧ Sound aead (create aead s c start now draw).1 ∧
      ∀ i, (create aead s c start now draw).2 = some i →
        Readable aead (create aead s c start now draw).1 c i := by
  have cut := later_closeActive s c start now
  have cutSound := sound.closeActive c start now
  have ext := Ring.extends_ensureKey (closeActive s c start now).ring draw.ringKey
  have renewed : Sound aead { closeActive s c start now with
      ring := (closeActive s c start now).ring.ensureKey draw.ringKey } := by
    intro r hr
    obtain ⟨raw, wrapped⟩ := cutSound r hr
    exact ⟨raw, wrapped.extend ext⟩
  have unchanged : Later s { closeActive s c start now with
      ring := (closeActive s c start now).ring.ensureKey draw.ringKey } :=
    cut.trans ⟨ext, fun _ r h => ⟨r, h, rfl, rfl⟩⟩
  unfold create
  simp only
  split
  · exact ⟨unchanged, renewed, fun _ h => by cases h⟩
  · rename_i text made
    have wrapped := wrapped_of_wrap made
    split
    · exact ⟨unchanged, renewed, fun _ h => by cases h⟩
    · rename_i t inserted
      have found := Table.find_insert inserted
      refine ⟨cut.trans ⟨ext, ?_⟩, ?_, ?_⟩
      · intro id r old
        have apart : draw.newId ≠ id := by
          rintro rfl
          have := (Table.insert_eq_some inserted).1
          simp [old] at this
        exact ⟨r, (found id).trans ((if_neg apart).trans old), rfl, rfl⟩
      · intro r hr
        cases (Table.mem_insert inserted).mp hr with
        | inl old => exact renewed r old
        | inr new =>
          subst new
          exact ⟨_, wrapped⟩
      · intro i hi
        cases hi
        exact ⟨_, (found draw.newId).trans (if_pos rfl), rfl, wrapped⟩

theorem ensureInterval_spec {s : State} (sound : Sound aead s) (c m now : Nat) (draw : Draw) :
    Later s (ensureInterval aead s c m now draw).1 ∧
      Sound aead (ensureInterval aead s c m now draw).1 ∧
      ∀ i, (ensureInterval aead s c m now draw).2 = some i →
        Readable aead (ensureInterval aead s c m now draw).1 c i := by
  unfold ensureInterval
  split
  · rename_i active found
    split
    · refine ⟨Later.refl s, sound, ?_⟩
      intro i hi
      cases hi
      obtain ⟨row, selected, rfl⟩ := getActive_row found
      obtain ⟨here, conversation, -⟩ := activeRow_some selected
      obtain ⟨raw, wrapped⟩ := sound row here
      refine ⟨row, Table.find_eq_some.mpr ⟨here, rfl⟩, conversation, ?_⟩
      have opened : unwrap aead s.ring row.startKeyWrapped = some raw := wrapped.unwrap
      simpa only [rowToInterval, opened, Option.getD_some] using wrapped
    · exact create_spec sound c m now draw
  · exact create_spec sound c m now draw

theorem encrypt_spec (kdf : Kdf) {s : State} (sound : Sound aead s) (c m now : Nat) (plaintext : Bytes)
    (nonce : Nonce) (draw : Draw) :
    Later s (encrypt aead kdf s c m plaintext now nonce draw).1 ∧
      Sound aead (encrypt aead kdf s c m plaintext now nonce draw).1 ∧
      ∀ text, (encrypt aead kdf s c m plaintext now nonce draw).2 = some text →
        ∃ i key, Readable aead (encrypt aead kdf s c m plaintext now nonce draw).1 c i ∧
          deriveKey kdf i nonce.val m = some key ∧
          text = wirePrefix ++ Text.decimal i.intervalId ++ ':' :: Base64.encode (nonce.val ++
            aead.encrypt key nonce plaintext (some (associatedData i.intervalId))) := by
  obtain ⟨later, kept, readable⟩ := ensureInterval_spec sound c m now draw
  unfold encrypt
  split
  · rename_i s' e
    rw [e] at later kept
    exact ⟨later, kept, fun _ h => by cases h⟩
  · rename_i s' i e
    rw [e] at later kept readable
    split
    · exact ⟨later, kept, fun _ h => by cases h⟩
    · rename_i key derived
      have bumped := later_touch s' i.intervalId now
      refine ⟨later.trans bumped, kept.touch i.intervalId now, ?_⟩
      intro text ht
      cases ht
      exact ⟨i, key, (readable i rfl).later bumped, derived, rfl⟩

theorem step_spec {s t : State} {a : Action} (sound : Sound aead s)
    (next : step aead kdf cfg s a = some t) : Sound aead t ∧ Later s t := by
  cases a with
  | encrypt c m plaintext now nonce draw =>
    cases next
    have spec := encrypt_spec kdf sound c m now plaintext nonce draw
    exact ⟨spec.2.1, spec.1⟩
  | rotateIfDue c last now draw =>
    cases next
    unfold rotateIfDue
    split
    · exact ⟨sound, Later.refl s⟩
    · split
      · have spec := create_spec sound c (last + 1) now draw
        exact ⟨spec.2.1, spec.1⟩
      · exact ⟨sound, Later.refl s⟩
  | splitOnDelete c deleted now draw =>
    cases next
    unfold splitOnDelete
    split
    · split
      · exact ⟨sound, Later.refl s⟩
      · split
        · have cut := later_closeActive s c (deleted + 1) now
          have spec := create_spec (sound.closeActive c (deleted + 1) now) c (deleted + 1) now draw
          exact ⟨spec.2.1, cut.trans spec.1⟩
        · exact ⟨sound, Later.refl s⟩
    · exact ⟨sound, Later.refl s⟩
  | closeActive c stop now =>
    cases next
    exact ⟨sound.closeActive c stop now, later_closeActive s c stop now⟩
  | touch id now =>
    cases next
    exact ⟨sound.touch id now, later_touch s id now⟩
  | messages rows =>
    cases next
    exact ⟨sound, Ring.Extends.refl _, fun _ r h => ⟨r, h, rfl, rfl⟩⟩
  | rotateKeyring newKey =>
    cases next
    have ext := Ring.extends_rotate s.ring newKey
    refine ⟨?_, ext, fun _ r h => ⟨r, h, rfl, rfl⟩⟩
    intro r hr
    obtain ⟨raw, wrapped⟩ := sound r hr
    exact ⟨raw, wrapped.extend ext⟩

theorem run_spec {acts : List Action} {s t : State} (sound : Sound aead s)
    (h : run (step aead kdf cfg) s acts = some t) : Later s t := by
  induction acts generalizing s with
  | nil =>
    cases h
    exact Later.refl _
  | cons a acts ih =>
    obtain ⟨w, next, rest⟩ := Option.bind_eq_some_iff.mp h
    obtain ⟨kept, later⟩ := step_spec sound next
    exact later.trans (ih kept rest)

theorem sound_of_reachable {s : State} (h : Reachable (step aead kdf cfg) Initial s) :
    Sound aead s := by
  apply guarded_invariant _ _ h
  · intro w empty r hr
    rw [Table.mem_rows, empty] at hr
    exact absurd hr List.not_mem_nil
  · exact fun _ _ _ sound _ next => (step_spec sound next).1

theorem split_wire (id : Nat) (data : List Char) :
    Text.split ':' 1 (Text.decimal id ++ ':' :: data) = [Text.decimal id, data] := by
  rw [Text.split_append (colon_not_mem_decimal id), Text.split]

theorem decrypt_of_readable {s : State} {c m : Nat} {i : RatchetInterval} {key : Key} {nonce : Nonce}
    (readable : Readable aead s c i) (derived : deriveKey kdf i nonce.val m = some key)
    (plaintext : Bytes) :
    decrypt aead kdf s c m (wirePrefix ++ Text.decimal i.intervalId ++
      ':' :: Base64.encode (nonce.val ++ aead.encrypt key nonce plaintext
        (some (associatedData i.intervalId)))) = .ok plaintext := by
  obtain ⟨r, found, conversation, wrapped⟩ := readable
  have opened : unwrap aead s.ring r.startKeyWrapped = some i.startKey := wrapped.unwrap
  have identified : r.intervalId = i.intervalId := (Table.find_eq_some.mp found).2
  have again : deriveKey kdf (rowToInterval aead s.ring r) nonce.val m = some key := by
    simpa only [deriveKey, rowToInterval, opened, Option.getD_some, identified] using derived
  have long : ¬ (nonce.val ++ aead.encrypt key nonce plaintext
      (some (associatedData i.intervalId))).length ≤ 12 := by
    rw [List.length_append, aead.length_encrypt, nonce.property]
    omega
  have sign : ¬ ((i.intervalId : Int) < 0) := Int.not_lt.mpr (Int.natCast_nonneg _)
  have lookup : getById aead s i.intervalId = some (rowToInterval aead s.ring r) :=
    congrArg (Option.map _) found
  have same : (rowToInterval aead s.ring r).conversationId = c := conversation
  have starts : ∀ rest, wirePrefix.isPrefixOf (wirePrefix ++ rest) = true := by
    intro rest
    simp
  simp only [decrypt, List.append_assoc, starts, if_true, List.drop_left, split_wire,
    Text.int_decimal, Base64.decode_encode, long, if_false, sign, Int.toNat_natCast, lookup, same,
    ne_eq, not_true_eq_false, take_nonce, drop_nonce, again, aead.decrypt_encrypt]

/-- Whatever is called afterwards on any conversations, an envelope decrypts to the
plaintext it was made from. -/
theorem decrypt_after_run {s t : State} {c m now : Nat} {plaintext : Bytes} {nonce : Nonce}
    {draw : Draw} {text : List Char} {calls : List Action}
    (before : Reachable (step aead kdf cfg) Initial s)
    (sent : (encrypt aead kdf s c m plaintext now nonce draw).2 = some text)
    (after : run (step aead kdf cfg) (encrypt aead kdf s c m plaintext now nonce draw).1 calls =
      some t) : decrypt aead kdf t c m text = .ok plaintext := by
  obtain ⟨-, kept, made⟩ :=
    encrypt_spec kdf (sound_of_reachable before) c m now plaintext nonce draw
  obtain ⟨i, key, readable, derived, rfl⟩ := made text sent
  exact decrypt_of_readable (readable.later (run_spec kept after)) derived plaintext

/-- A message read back after its interval was split and another was sent. -/
theorem decrypt_after_split : ∃ t text, (encrypt shiftAead sampleKdf noIntervals 1 10 [104, 105] 0
    (sampleNonce 5) (sampleDraw 1)).2 = some text ∧
    decrypt shiftAead sampleKdf t 1 10 text = .ok [104, 105] := by
  let sent := encrypt shiftAead sampleKdf noIntervals 1 10 [104, 105] 0 (sampleNonce 5) (sampleDraw 1)
  let calls : List Action :=
    [.splitOnDelete 1 30 1 (sampleDraw 2), .encrypt 1 40 [111, 107] 2 (sampleNonce 5) (sampleDraw 3)]
  let t : State := (run (step shiftAead sampleKdf defaultConfig) sent.1 calls).get (by decide)
  let text : List Char := sent.2.get (by decide)
  have start : Reachable (step shiftAead sampleKdf defaultConfig) Initial noIntervals := .start rfl
  have made : sent.2 = some text := (Option.some_get _).symm
  exact ⟨t, text, made, decrypt_after_run start made (Option.some_get _).symm⟩

end Plexichat.Encryption.Ratchet
