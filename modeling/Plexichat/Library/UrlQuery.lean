import Mathlib.Data.List.Nodup
import Plexichat.Library.Text

/-! The query of a URL in urllib.parse: parse_qs, which drops blank values, and urlencode. -/
namespace UrlQuery

abbrev Text := List Char

local instance lawfulText : LawfulBEq Text := inferInstance

abbrev Pairs := List (Text × Text)

abbrev Params := List (Text × List Text)

section Decoding

def continues (b : UInt8) : Bool := 0x80 ≤ b && b < 0xC0

def follows (b c : UInt8) : Bool :=
  (b = 0xE0 && 0xA0 ≤ c && c < 0xC0) || (0xE1 ≤ b && b ≤ 0xEF && b ≠ 0xED && continues c) ||
    (b = 0xED && 0x80 ≤ c && c < 0xA0) || (b = 0xF0 && 0x90 ≤ c && c < 0xC0) ||
    (0xF1 ≤ b && b ≤ 0xF3 && continues c) || (b = 0xF4 && 0x80 ≤ c && c < 0x90)

/-- How many bytes one replacement character stands for. -/
def broken : List UInt8 → Nat
  | b :: c :: d :: _ => if follows b c then if 0xF0 ≤ b && continues d then 3 else 2 else 1
  | [b, c] => if follows b c then 2 else 1
  | _ => 1

def character (bytes : List UInt8) : Option Char := (ByteArray.mk bytes.toArray).utf8DecodeChar? 0

def decodeUpTo : Nat → List UInt8 → Text
  | 0, _ => []
  | _, [] => []
  | n + 1, b :: rest =>
    match character (b :: rest) with
    | some c => c :: decodeUpTo n ((b :: rest).drop c.utf8Size)
    | none => Char.ofNat 0xFFFD :: decodeUpTo n ((b :: rest).drop (broken (b :: rest)))

/-- `bytes.decode("utf-8", "replace")` -/
def decode (bytes : List UInt8) : Text := decodeUpTo bytes.length bytes

theorem character_utf8 (c : Char) (t : Text) : character (Text.utf8 (c :: t)) = some c := by
  have bytes : ∀ t : Text, ByteArray.mk (Text.utf8 t).toArray = t.utf8Encode := by
    intro t
    simp [Text.utf8]
  rw [character, bytes, List.utf8DecodeChar?_utf8Encode_cons]

theorem utf8_cons (c : Char) (t : Text) :
    Text.utf8 (c :: t) = String.utf8EncodeChar c ++ Text.utf8 t := by
  simp [Text.utf8, List.utf8Encode]

theorem decodeUpTo_utf8 (t : Text) (n : Nat) (enough : (Text.utf8 t).length ≤ n) :
    decodeUpTo n (Text.utf8 t) = t := by
  induction t generalizing n with
  | nil => cases n <;> rfl
  | cons c t ih =>
    have size : (String.utf8EncodeChar c).length = c.utf8Size := String.length_utf8EncodeChar c
    have positive := c.utf8Size_pos
    have dropped : (Text.utf8 (c :: t)).drop c.utf8Size = Text.utf8 t := by
      rw [utf8_cons, ← size, List.drop_left]
    have read := character_utf8 c t
    have length : (Text.utf8 (c :: t)).length = c.utf8Size + (Text.utf8 t).length := by
      rw [utf8_cons, List.length_append, size]
    cases n with
    | zero => omega
    | succ n =>
      cases bytes : Text.utf8 (c :: t) with
      | nil => simp [bytes] at length; omega
      | cons b rest =>
        rw [bytes] at read dropped
        rw [decodeUpTo, read]
        simp only [dropped]
        rw [ih n (by omega)]

theorem decode_utf8 (t : Text) : decode (Text.utf8 t) = t := decodeUpTo_utf8 t _ le_rfl

theorem decode_ne_nil {bytes : List UInt8} (some_bytes : bytes ≠ []) : decode bytes ≠ [] := by
  cases bytes with
  | nil => exact absurd rfl some_bytes
  | cons b rest =>
    rw [decode, List.length_cons, decodeUpTo]
    split <;> simp

end Decoding

section Unquote

def hexValue (c : Char) : Option Nat :=
  if c.isDigit then some (c.toNat - 48)
  else if 'a' ≤ c ∧ c ≤ 'f' then some (c.toNat - 87)
  else if 'A' ≤ c ∧ c ≤ 'F' then some (c.toNat - 55) else none

def unquoteToBytes : Text → List UInt8
  | '%' :: h :: l :: rest =>
    match hexValue h, hexValue l with
    | some a, some b => UInt8.ofNat (16 * a + b) :: unquoteToBytes rest
    | _, _ => UInt8.ofNat '%'.toNat :: unquoteToBytes (h :: l :: rest)
  | c :: rest => UInt8.ofNat c.toNat :: unquoteToBytes rest
  | [] => []

def unquoteRuns (run : Text) : Text → Text
  | [] => decode (unquoteToBytes run)
  | c :: rest =>
    if c.toNat < 128 then unquoteRuns (run ++ [c]) rest
    else decode (unquoteToBytes run) ++ c :: unquoteRuns [] rest

def space (c : Char) : Char := if c = '+' then ' ' else c

def unquotePlus (t : Text) : Text := unquoteRuns [] (t.map space)

def hexDigit (n : Nat) : Char := if n < 10 then Char.ofNat (48 + n) else Char.ofNat (55 + n)

/-- Letters, digits and `_.-~` -/
def safeCode (n : Nat) : Bool :=
  (65 ≤ n && n ≤ 90) || (97 ≤ n && n ≤ 122) || (48 ≤ n && n ≤ 57) || n == 95 || n == 46 || n == 45 ||
    n == 126

def isSafe (c : Char) : Bool := safeCode c.toNat

def quoteByte (b : UInt8) : Text :=
  if b = 32 then ['+']
  else if isSafe (Char.ofNat b.toNat) then [Char.ofNat b.toNat]
  else ['%', hexDigit (b.toNat / 16), hexDigit (b.toNat % 16)]

def quotePlus (t : Text) : Text := (Text.utf8 t).flatMap quoteByte

def isQuoted (c : Char) : Bool := isSafe c || c == '+' || c == '%'

end Unquote

section Queries

def parseField (field : Text) : Option (Text × Text) :=
  match field.dropWhile (· != '=') with
  | _ :: c :: value => some (unquotePlus (field.takeWhile (· != '=')), unquotePlus (c :: value))
  | _ => none

def parseQsl (query : Text) : Pairs := (query.splitOn '&').filterMap parseField

def add (d : Params) (pair : Text × Text) : Params :=
  if pair.1 ∈ d.map Prod.fst then
    d.map fun entry => if entry.1 = pair.1 then (entry.1, entry.2 ++ [pair.2]) else entry
  else d ++ [(pair.1, [pair.2])]

def collect (pairs : Pairs) : Params := pairs.foldl add []

def parseQs (query : Text) : Params := collect (parseQsl query)

def flat (d : Params) : Pairs := d.flatMap fun entry => entry.2.map fun value => (entry.1, value)

def urlencode (pairs : Pairs) : Text :=
  ['&'].intercalate (pairs.map fun pair => quotePlus pair.1 ++ '=' :: quotePlus pair.2)

/-- `d[name] = values` -/
def set (d : Params) (name : Text) (values : List Text) : Params :=
  if name ∈ d.map Prod.fst then
    d.map fun entry => if entry.1 = name then (name, values) else entry
  else d ++ [(name, values)]

/-- `d.get(name, [None])[0]` -/
def first (d : Params) (name : Text) : Option Text :=
  (d.find? fun entry => entry.1 = name).bind fun entry => entry.2.head?

/-- `d.pop(name, None)` -/
def pop (d : Params) (name : Text) : Params := d.filter fun entry => entry.1 ≠ name

end Queries

section Quoted

theorem hexDigit_facts : ∀ n : Fin 16, hexValue (hexDigit n) = some n.val ∧
    hexDigit n ≠ '+' ∧ isQuoted (hexDigit n) = true := by decide

theorem isSafe_bound {c : Char} (safe : isSafe c = true) : c.toNat < 128 := by
  simp only [isSafe, safeCode, Bool.or_eq_true, Bool.and_eq_true, decide_eq_true_eq,
    beq_iff_eq] at safe
  omega

theorem isSafe_ne {c d : Char} (safe : isSafe c = true) (other : isSafe d = false) : c ≠ d := by
  rintro rfl
  simp [safe] at other

theorem toNat_ofByte (b : UInt8) : (Char.ofNat b.toNat).toNat = b.toNat := by
  have small := b.toNat_lt
  rw [Char.ofNat, dif_pos (Or.inl (by omega))]
  rfl

theorem unquoteToBytes_cons {c : Char} (other : c ≠ '%') (rest : Text) :
    unquoteToBytes (c :: rest) = UInt8.ofNat c.toNat :: unquoteToBytes rest := by
  rw [unquoteToBytes.eq_2 _ _ (by rintro _ _ _ rfl; exact absurd rfl other)]

theorem unquoteToBytes_quoteByte (b : UInt8) (rest : Text) :
    unquoteToBytes ((quoteByte b).map space ++ rest) = b :: unquoteToBytes rest := by
  have small := b.toNat_lt
  rw [quoteByte]
  split
  · subst b
    rfl
  · split
    · rename_i safe
      have percent := isSafe_ne (d := '%') safe (by decide)
      have plus := isSafe_ne (d := '+') safe (by decide)
      simp [space, plus, unquoteToBytes_cons percent, toNat_ofByte]
    · have high := hexDigit_facts ⟨b.toNat / 16, by omega⟩
      have low := hexDigit_facts ⟨b.toNat % 16, by omega⟩
      have whole : 16 * (b.toNat / 16) + b.toNat % 16 = b.toNat := by omega
      simp [space, high.2.1, low.2.1, unquoteToBytes, high.1, low.1, whole]

theorem unquoteToBytes_quoteBytes (bytes : List UInt8) :
    unquoteToBytes ((bytes.flatMap quoteByte).map space) = bytes := by
  induction bytes with
  | nil => rfl
  | cons b bytes ih => rw [List.flatMap_cons, List.map_append, unquoteToBytes_quoteByte, ih]

theorem quoteByte_quoted {b : UInt8} {c : Char} (member : c ∈ quoteByte b) : isQuoted c = true := by
  have small := b.toNat_lt
  rw [quoteByte] at member
  split at member
  · rw [List.mem_singleton.mp member]
    decide
  · split at member
    · rename_i safe
      rw [List.mem_singleton.mp member, isQuoted, safe]
      rfl
    · have high := hexDigit_facts ⟨b.toNat / 16, by omega⟩
      have low := hexDigit_facts ⟨b.toNat % 16, by omega⟩
      simp only [List.mem_cons, List.not_mem_nil, or_false] at member
      rcases member with rfl | rfl | rfl
      · decide
      · exact high.2.2
      · exact low.2.2

theorem quotePlus_quoted {c : Char} {t : Text} (member : c ∈ quotePlus t) : isQuoted c = true := by
  obtain ⟨b, -, written⟩ := List.mem_flatMap.mp member
  exact quoteByte_quoted written

theorem quotePlus_ne_nil {t : Text} (some_text : t ≠ []) : quotePlus t ≠ [] := by
  cases t with
  | nil => exact absurd rfl some_text
  | cons c t =>
    have bytes : Text.utf8 (c :: t) ≠ [] := by
      have size := String.length_utf8EncodeChar c
      have positive := c.utf8Size_pos
      rw [utf8_cons]
      intro empty
      rw [(List.append_eq_nil_iff.mp empty).1] at size
      simp at size
      omega
    obtain ⟨b, rest, found⟩ := List.exists_cons_of_ne_nil bytes
    rw [quotePlus, found, List.flatMap_cons, quoteByte]
    split
    · simp
    · split <;> simp

theorem isQuoted_bound {c : Char} (quoted : isQuoted c = true) : c.toNat < 128 := by
  simp only [isQuoted, Bool.or_eq_true, beq_iff_eq] at quoted
  rcases quoted with (safe | rfl) | rfl
  · exact isSafe_bound safe
  · decide
  · decide

theorem not_mem_quotePlus {c : Char} (other : isQuoted c = false) (t : Text) : c ∉ quotePlus t := by
  intro member
  simp [quotePlus_quoted member] at other

theorem unquoteRuns_ascii {t : Text} (ascii : ∀ c ∈ t, c.toNat < 128) (run : Text) :
    unquoteRuns run t = decode (unquoteToBytes (run ++ t)) := by
  induction t generalizing run with
  | nil => rw [unquoteRuns, List.append_nil]
  | cons c t ih =>
    have rest := ih fun d member => ascii d (List.mem_cons_of_mem c member)
    rw [unquoteRuns, if_pos (ascii c List.mem_cons_self), rest, List.append_assoc,
      List.singleton_append]

theorem unquotePlus_quotePlus (t : Text) : unquotePlus (quotePlus t) = t := by
  have ascii : ∀ c ∈ (quotePlus t).map space, c.toNat < 128 := by
    intro c member
    obtain ⟨d, written, rfl⟩ := List.mem_map.mp member
    rw [space]
    split
    · decide
    · exact isQuoted_bound (quotePlus_quoted written)
  rw [unquotePlus, unquoteRuns_ascii ascii, List.nil_append, quotePlus,
    unquoteToBytes_quoteBytes, decode_utf8]

theorem dropWhile_name (name : Text) (rest : Text) :
    (quotePlus name ++ '=' :: rest).dropWhile (· != '=') = '=' :: rest := by
  rw [Text.dropWhile_ne (not_mem_quotePlus (by decide) name)]
  rfl

theorem parseField_quoted {name value : Text} (some_value : value ≠ []) :
    parseField (quotePlus name ++ '=' :: quotePlus value) = some (name, value) := by
  obtain ⟨c, rest, written⟩ := List.exists_cons_of_ne_nil (quotePlus_ne_nil some_value)
  have dropped := dropWhile_name name (quotePlus value)
  rw [written] at dropped
  rw [parseField, written, dropped]
  dsimp only
  rw [Text.takeWhile_ne (not_mem_quotePlus (by decide) name), ← written, unquotePlus_quotePlus,
    unquotePlus_quotePlus]

theorem parseQsl_urlencode {pairs : Pairs} (values : ∀ pair ∈ pairs, pair.2 ≠ []) :
    parseQsl (urlencode pairs) = pairs := by
  cases empty : pairs with
  | nil => rfl
  | cons pair rest =>
    rw [← empty]
    have apart : ∀ field ∈ pairs.map fun pair : Text × Text =>
        quotePlus pair.1 ++ '=' :: quotePlus pair.2, '&' ∉ field := by
      intro field member
      obtain ⟨pair, -, rfl⟩ := List.mem_map.mp member
      simp [not_mem_quotePlus (c := '&') (by decide)]
    have some_fields : pairs.map (fun pair : Text × Text =>
        quotePlus pair.1 ++ '=' :: quotePlus pair.2) ≠ [] := by
      simp [empty]
    rw [parseQsl, urlencode, List.splitOn_intercalate _ apart some_fields, List.filterMap_map]
    calc pairs.filterMap _ = pairs.filterMap some := by
          apply List.filterMap_congr
          intro pair member
          exact parseField_quoted (values pair member)
      _ = pairs := List.filterMap_some

end Quoted

section Params

/-- What parse_qs makes: each name once, and no value blank. -/
structure Wf (d : Params) : Prop where
  names : (d.map Prod.fst).Nodup
  values : ∀ entry ∈ d, entry.2 ≠ [] ∧ ∀ value ∈ entry.2, value ≠ []

theorem unquoteToBytes_ne_nil {t : Text} (some_text : t ≠ []) : unquoteToBytes t ≠ [] := by
  unfold unquoteToBytes
  split
  · split <;> simp
  · simp
  · exact absurd rfl some_text

theorem unquoteRuns_ne_nil {run t : Text} (some_text : run ≠ [] ∨ t ≠ []) :
    unquoteRuns run t ≠ [] := by
  induction t generalizing run with
  | nil => exact decode_ne_nil (unquoteToBytes_ne_nil (some_text.resolve_right fun h => h rfl))
  | cons c t ih =>
    rw [unquoteRuns]
    split
    · exact ih (.inl (by simp))
    · simp

theorem parseField_value {field name value : Text} (read : parseField field = some (name, value)) :
    value ≠ [] := by
  rw [parseField] at read
  split at read
  · cases read
    exact unquoteRuns_ne_nil (.inr (by simp))
  · cases read

theorem add_names (d : Params) (pair : Text × Text) :
    (add d pair).map Prod.fst =
      if pair.1 ∈ d.map Prod.fst then d.map Prod.fst else d.map Prod.fst ++ [pair.1] := by
  rw [add]
  split
  · rw [List.map_map]
    apply List.map_congr_left
    intro entry _
    simp only [Function.comp]
    split <;> rfl
  · rw [List.map_append]
    rfl

theorem wf_add {d : Params} (wf : Wf d) {pair : Text × Text} (value : pair.2 ≠ []) :
    Wf (add d pair) := by
  constructor
  · rw [add_names]
    split
    · exact wf.names
    · rename_i fresh
      exact List.nodup_append'.mpr ⟨wf.names, by simp, by simpa using fresh⟩
  · intro entry member
    rw [add] at member
    split at member
    · obtain ⟨old, stored, rfl⟩ := List.mem_map.mp member
      have kept := wf.values old stored
      split
      · refine ⟨by simp, fun v among => ?_⟩
        rcases List.mem_append.mp among with among | among
        · exact kept.2 v among
        · exact List.mem_singleton.mp among ▸ value
      · exact kept
    · rcases List.mem_append.mp member with stored | added
      · exact wf.values entry stored
      · rw [List.mem_singleton.mp added]
        exact ⟨by simp, fun v among => List.mem_singleton.mp among ▸ value⟩

theorem wf_foldl_add {d : Params} (wf : Wf d) {pairs : Pairs}
    (values : ∀ pair ∈ pairs, pair.2 ≠ []) : Wf (pairs.foldl add d) := by
  induction pairs generalizing d with
  | nil => exact wf
  | cons pair pairs ih =>
    exact ih (wf_add wf (values pair List.mem_cons_self)) fun p member =>
      values p (List.mem_cons_of_mem pair member)

theorem wf_parseQs (query : Text) : Wf (parseQs query) := by
  have none_yet : Wf [] := ⟨List.nodup_nil, by simp⟩
  refine wf_foldl_add none_yet fun pair member => ?_
  obtain ⟨field, -, read⟩ := List.mem_filterMap.mp member
  exact parseField_value read

theorem add_last {d : Params} {name : Text} (fresh : name ∉ d.map Prod.fst) (values : List Text)
    (value : Text) : add (d ++ [(name, values)]) (name, value) = d ++ [(name, values ++ [value])] := by
  have others : d.map (fun entry => if entry.1 = name then (entry.1, entry.2 ++ [value]) else entry) =
      d := by
    calc d.map _ = d.map id := by
          apply List.map_congr_left
          intro entry member
          have other : entry.1 ≠ name := fun e => fresh (e ▸ List.mem_map_of_mem member)
          simp [other]
      _ = d := List.map_id d
  rw [add, if_pos (by simp), List.map_append, others]
  simp

theorem foldl_add_values {d : Params} {name : Text} (fresh : name ∉ d.map Prod.fst)
    (old new : List Text) : (new.map fun value => (name, value)).foldl add (d ++ [(name, old)]) =
      d ++ [(name, old ++ new)] := by
  induction new generalizing old with
  | nil => simp
  | cons value new ih => rw [List.map_cons, List.foldl_cons, add_last fresh, ih,
      List.append_assoc, List.singleton_append]

theorem foldl_add_flat {old d : Params} (names : ((old ++ d).map Prod.fst).Nodup)
    (values : ∀ entry ∈ d, entry.2 ≠ []) : (flat d).foldl add old = old ++ d := by
  induction d generalizing old with
  | nil => simp [flat]
  | cons entry d ih =>
    obtain ⟨name, rest⟩ := entry
    obtain ⟨value, rest, rfl⟩ := List.exists_cons_of_ne_nil (values _ List.mem_cons_self)
    have fresh : name ∉ old.map Prod.fst := by
      rw [List.map_append, List.map_cons] at names
      intro member
      exact (List.nodup_append'.mp names).2.2 member List.mem_cons_self
    have begun : add old (name, value) = old ++ [(name, [value])] := if_neg fresh
    have tail := @ih (old ++ [(name, value :: rest)]) (by simpa using names)
      fun entry member => values entry (List.mem_cons_of_mem _ member)
    rw [flat, List.flatMap_cons, List.foldl_append, List.map_cons, List.foldl_cons, begun,
      foldl_add_values fresh]
    rw [flat] at tail
    simpa using tail

theorem collect_flat {d : Params} (wf : Wf d) : collect (flat d) = d := by
  have all := @foldl_add_flat [] d (by simpa using wf.names) fun entry member =>
    (wf.values entry member).1
  simpa [collect] using all

theorem parseQs_urlencode {d : Params} (wf : Wf d) : parseQs (urlencode (flat d)) = d := by
  have values : ∀ pair ∈ flat d, pair.2 ≠ [] := by
    intro pair member
    obtain ⟨entry, stored, written⟩ := List.mem_flatMap.mp member
    obtain ⟨value, among, rfl⟩ := List.mem_map.mp written
    exact (wf.values entry stored).2 value among
  rw [parseQs, parseQsl_urlencode values, collect_flat wf]

theorem wf_pop {d : Params} (wf : Wf d) (name : Text) : Wf (pop d name) :=
  ⟨wf.names.sublist (List.filter_sublist.map _),
    fun entry member => wf.values entry (List.mem_of_mem_filter member)⟩

theorem wf_set {d : Params} (wf : Wf d) (name : Text) {value : Text} (some_value : value ≠ []) :
    Wf (set d name [value]) := by
  have single : [value] ≠ [] ∧ ∀ v ∈ [value], v ≠ [] :=
    ⟨by simp, fun v among => List.mem_singleton.mp among ▸ some_value⟩
  unfold set
  split
  · constructor
    · have names : (d.map fun entry => if entry.1 = name then (name, [value]) else entry).map
          Prod.fst = d.map Prod.fst := by
        rw [List.map_map]
        apply List.map_congr_left
        intro entry _
        simp only [Function.comp]
        split
        · rename_i same
          exact same.symm
        · rfl
      rw [names]
      exact wf.names
    · intro entry member
      obtain ⟨old, stored, rfl⟩ := List.mem_map.mp member
      split
      · exact single
      · exact wf.values old stored
  · rename_i fresh
    constructor
    · rw [List.map_append]
      exact List.nodup_append'.mpr ⟨wf.names, by simp, by simpa using fresh⟩
    · intro entry member
      rcases List.mem_append.mp member with stored | added
      · exact wf.values entry stored
      · rw [List.mem_singleton.mp added]
        exact single

theorem set_fresh {d : Params} {name : Text} (fresh : name ∉ d.map Prod.fst) (values : List Text) :
    set d name values = d ++ [(name, values)] := if_neg fresh

theorem pop_fresh {d : Params} {name : Text} (fresh : name ∉ d.map Prod.fst) : pop d name = d := by
  rw [pop, List.filter_eq_self]
  intro entry member
  have other : entry.1 ≠ name := fun e => fresh (e ▸ List.mem_map_of_mem member)
  simp [other]

theorem urlencode_quoted {pairs : Pairs} {c : Char} (member : c ∈ urlencode pairs) :
    isQuoted c = true ∨ c = '&' ∨ c = '=' := by
  have field : ∀ pair : Text × Text, c ∈ quotePlus pair.1 ++ '=' :: quotePlus pair.2 →
      isQuoted c = true ∨ c = '&' ∨ c = '=' := by
    intro pair written
    rcases List.mem_append.mp written with name | written
    · exact .inl (quotePlus_quoted name)
    · rcases List.mem_cons.mp written with equals | value
      · exact .inr (.inr equals)
      · exact .inl (quotePlus_quoted value)
  induction pairs with
  | nil => cases member
  | cons pair rest ih =>
    cases rest with
    | nil =>
      simp only [urlencode, List.map_cons, List.map_nil, List.intercalate_singleton] at member
      exact field pair member
    | cons next rest =>
      simp only [urlencode, List.map_cons, List.intercalate_cons_cons] at member
      rcases List.mem_append.mp member with front | behind
      · rcases List.mem_append.mp front with written | separator
        · exact field pair written
        · exact .inr (.inl (List.mem_singleton.mp separator))
      · exact ih (by simpa only [urlencode, List.map_cons] using behind)

end Params

end UrlQuery
