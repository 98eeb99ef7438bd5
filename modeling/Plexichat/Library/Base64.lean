import Mathlib.Data.List.Basic

/-! Base64 as the Python standard library computes it. Encoding pads with the
equals sign. Decoding is the lenient scan of binascii: characters outside the
alphabet are skipped and a completed pad sequence ends the input. -/
namespace Base64

def symbol (v : Nat) : Char :=
  if v < 26 then Char.ofNat (65 + v)
  else if v < 52 then Char.ofNat (71 + v)
  else if v < 62 then Char.ofNat (v - 4)
  else if v = 62 then '+' else '/'

def value (c : Char) : Option Nat :=
  if 'A' ≤ c ∧ c ≤ 'Z' then some (c.toNat - 65)
  else if 'a' ≤ c ∧ c ≤ 'z' then some (c.toNat - 71)
  else if '0' ≤ c ∧ c ≤ '9' then some (c.toNat + 4)
  else if c = '+' then some 62
  else if c = '/' then some 63 else none

def encode : List UInt8 → List Char
  | a :: b :: c :: rest =>
    symbol (a.toNat / 4) :: symbol (a.toNat % 4 * 16 + b.toNat / 16) ::
      symbol (b.toNat % 16 * 4 + c.toNat / 64) :: symbol (c.toNat % 64) :: encode rest
  | [a, b] =>
    [symbol (a.toNat / 4), symbol (a.toNat % 4 * 16 + b.toNat / 16),
      symbol (b.toNat % 16 * 4), '=']
  | [a] => [symbol (a.toNat / 4), symbol (a.toNat % 4 * 16), '=', '=']
  | [] => []

/-- The scan, by position in the quad, bits left over and pads seen. -/
def scan (pos left pads : Nat) : List Char → Option (List UInt8)
  | [] => if pos = 0 then some [] else none
  | c :: rest =>
    if c = '=' then
      if 2 ≤ pos ∧ 4 ≤ pos + (pads + 1) then some []
      else scan pos left (if 2 ≤ pos then pads + 1 else pads) rest
    else match value c with
      | none => scan pos left pads rest
      | some v =>
        match pos with
        | 0 => scan 1 v 0 rest
        | 1 => (scan 2 (v % 16) 0 rest).map (UInt8.ofNat (left * 4 + v / 16) :: ·)
        | 2 => (scan 3 (v % 4) 0 rest).map (UInt8.ofNat (left * 16 + v / 4) :: ·)
        | _ => (scan 0 0 0 rest).map (UInt8.ofNat (left * 64 + v) :: ·)

/-- `base64.b64decode(t)`; none is binascii.Error or a non-ASCII text. -/
def decode (t : List Char) : Option (List UInt8) :=
  if t.all (·.toNat < 128) then scan 0 0 0 t else none

theorem symbol_facts : ∀ v : Fin 64, value (symbol v) = some v.val ∧
    symbol v ≠ '=' ∧ symbol v ≠ ':' ∧ (symbol v).toNat < 128 := by decide

theorem value_symbol {v : Nat} (h : v < 64) : value (symbol v) = some v :=
  (symbol_facts ⟨v, h⟩).1

theorem symbol_ne_pad {v : Nat} (h : v < 64) : symbol v ≠ '=' := (symbol_facts ⟨v, h⟩).2.1

theorem scan_symbol {pos left pads v : Nat} (h : v < 64) (rest : List Char) :
    scan pos left pads (symbol v :: rest) =
      match pos with
      | 0 => scan 1 v 0 rest
      | 1 => (scan 2 (v % 16) 0 rest).map (UInt8.ofNat (left * 4 + v / 16) :: ·)
      | 2 => (scan 3 (v % 4) 0 rest).map (UInt8.ofNat (left * 16 + v / 4) :: ·)
      | _ => (scan 0 0 0 rest).map (UInt8.ofNat (left * 64 + v) :: ·) := by
  rw [scan, if_neg (symbol_ne_pad h), value_symbol h]

theorem scan_first {v : Nat} (h : v < 64) (rest : List Char) :
    scan 0 0 0 (symbol v :: rest) = scan 1 v 0 rest := scan_symbol h rest

theorem scan_second {left v : Nat} (h : v < 64) (rest : List Char) :
    scan 1 left 0 (symbol v :: rest) =
      (scan 2 (v % 16) 0 rest).map (UInt8.ofNat (left * 4 + v / 16) :: ·) := scan_symbol h rest

theorem scan_third {left v : Nat} (h : v < 64) (rest : List Char) :
    scan 2 left 0 (symbol v :: rest) =
      (scan 3 (v % 4) 0 rest).map (UInt8.ofNat (left * 16 + v / 4) :: ·) := scan_symbol h rest

theorem scan_fourth {left v : Nat} (h : v < 64) (rest : List Char) :
    scan 3 left 0 (symbol v :: rest) =
      (scan 0 0 0 rest).map (UInt8.ofNat (left * 64 + v) :: ·) := scan_symbol h rest

theorem scan_pad (left : Nat) : scan 3 left 0 ['='] = some [] := by simp [scan]

theorem scan_pads (left : Nat) : scan 2 left 0 ['=', '='] = some [] := by simp [scan]

theorem ofNat_eq {b : UInt8} {n : Nat} (h : n = b.toNat) : UInt8.ofNat n = b := by
  rw [h, UInt8.ofNat_toNat]

theorem scan_encode (bytes : List UInt8) : scan 0 0 0 (encode bytes) = some bytes := by
  induction bytes using encode.induct with
  | case1 a b c rest ih =>
    have ha := a.toNat_lt
    have hb := b.toNat_lt
    have hc := c.toNat_lt
    have first : UInt8.ofNat (a.toNat / 4 * 4 + (a.toNat % 4 * 16 + b.toNat / 16) / 16) = a :=
      ofNat_eq (by omega)
    have second : UInt8.ofNat ((a.toNat % 4 * 16 + b.toNat / 16) % 16 * 16 +
        (b.toNat % 16 * 4 + c.toNat / 64) / 4) = b := ofNat_eq (by omega)
    have third : UInt8.ofNat ((b.toNat % 16 * 4 + c.toNat / 64) % 4 * 64 + c.toNat % 64) = c :=
      ofNat_eq (by omega)
    rw [encode, scan_first (by omega), scan_second (by omega), scan_third (by omega),
      scan_fourth (by omega), ih]
    simp only [Option.map_some, first, second, third]
  | case2 a b =>
    have ha := a.toNat_lt
    have hb := b.toNat_lt
    have first : UInt8.ofNat (a.toNat / 4 * 4 + (a.toNat % 4 * 16 + b.toNat / 16) / 16) = a :=
      ofNat_eq (by omega)
    have second : UInt8.ofNat ((a.toNat % 4 * 16 + b.toNat / 16) % 16 * 16 +
        b.toNat % 16 * 4 / 4) = b := ofNat_eq (by omega)
    rw [encode, scan_first (by omega), scan_second (by omega), scan_third (by omega), scan_pad]
    simp only [Option.map_some, first, second]
  | case3 a =>
    have ha := a.toNat_lt
    have first : UInt8.ofNat (a.toNat / 4 * 4 + a.toNat % 4 * 16 / 16) = a := ofNat_eq (by omega)
    rw [encode, scan_first (by omega), scan_second (by omega), scan_pads]
    simp only [Option.map_some, first]
  | case4 => rfl

theorem mem_encode {bytes : List UInt8} {c : Char} (h : c ∈ encode bytes) :
    c = '=' ∨ ∃ v, v < 64 ∧ c = symbol v := by
  induction bytes using encode.induct with
  | case1 a b d rest ih =>
    have ha := a.toNat_lt
    have hb := b.toNat_lt
    simp only [encode, List.mem_cons] at h
    rcases h with h | h | h | h | h
    · exact .inr ⟨_, by omega, h⟩
    · exact .inr ⟨_, by omega, h⟩
    · exact .inr ⟨_, by have := d.toNat_lt; omega, h⟩
    · exact .inr ⟨_, by omega, h⟩
    · exact ih h
  | case2 a b =>
    have ha := a.toNat_lt
    have hb := b.toNat_lt
    simp only [encode, List.mem_cons, List.not_mem_nil, or_false] at h
    rcases h with h | h | h | h
    · exact .inr ⟨_, by omega, h⟩
    · exact .inr ⟨_, by omega, h⟩
    · exact .inr ⟨_, by omega, h⟩
    · exact .inl h
  | case3 a =>
    have ha := a.toNat_lt
    simp only [encode, List.mem_cons, List.not_mem_nil, or_false] at h
    rcases h with h | h | h | h
    · exact .inr ⟨_, by omega, h⟩
    · exact .inr ⟨_, by omega, h⟩
    · exact .inl h
    · exact .inl h
  | case4 => simp [encode] at h

theorem colon_not_mem_encode (bytes : List UInt8) : ':' ∉ encode bytes := by
  intro h
  rcases mem_encode h with e | ⟨v, hv, e⟩
  · exact absurd e (by decide)
  · exact (symbol_facts ⟨v, hv⟩).2.2.1 e.symm

@[simp] theorem decode_encode (bytes : List UInt8) : decode (encode bytes) = some bytes := by
  have ascii : (encode bytes).all (·.toNat < 128) = true := by
    rw [List.all_eq_true]
    intro c hc
    rcases mem_encode hc with rfl | ⟨v, hv, rfl⟩
    · decide
    · exact decide_eq_true (symbol_facts ⟨v, hv⟩).2.2.2
  rw [decode, if_pos ascii, scan_encode]

example : encode [77, 97] = ['T', 'W', 'E', '='] := by decide

theorem scan_length {t : List Char} {pos left pads : Nat} {bytes : List UInt8}
    (h : scan pos left pads t = some bytes) : bytes.length ≤ t.length := by
  induction t generalizing pos left pads bytes with
  | nil =>
    rw [scan] at h
    split at h
    · cases h
      exact Nat.le_refl _
    · cases h
  | cons c t ih =>
    have one : ∀ {p l a : Nat} {b : UInt8}, (scan p l a t).map (b :: ·) = some bytes →
        bytes.length ≤ (c :: t).length := by
      intro p l a b made
      obtain ⟨rest, read, rfl⟩ := Option.map_eq_some_iff.mp made
      exact Nat.succ_le_succ (ih read)
    rw [scan] at h
    split at h
    · split at h
      · cases h
        exact Nat.zero_le _
      · exact Nat.le_succ_of_le (ih h)
    · split at h
      · exact Nat.le_succ_of_le (ih h)
      · split at h
        · exact Nat.le_succ_of_le (ih h)
        · exact one h
        · exact one h
        · exact one h

theorem decode_length {t : List Char} {bytes : List UInt8} (h : decode t = some bytes) :
    bytes.length ≤ t.length := by
  unfold decode at h
  split at h
  · exact scan_length h
  · cases h

end Base64
