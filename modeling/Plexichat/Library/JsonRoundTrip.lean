import Mathlib.Data.List.Nodup
import Mathlib.Data.List.TakeWhile
import Plexichat.Library.JsonText

/-! What json.dumps writes, json.loads reads back: the same data, with its surrogates joined. -/
namespace Json

section Trees

variable {F : Type} [Floats F] {hook : List (Str × Value F Str) → List (Str × Value F Str)}
  {limit n : Nat} {t ts rest : List Char}

/-- What is read of the data, its dicts by `hook`. -/
def readBack (hook : List (Str × Value F Str) → List (Str × Value F Str)) :
    Value F Str → Value F Str :=
  Value.rebuild join fun l => hook (l.map fun x => (join x.1, x.2))

def Front (t : List Char) : Prop := ∃ c t', t = c :: t' ∧ isWhite c = false ∧ c ≠ ']'

theorem front_of_isDigit {c : Char} (digit : c.isDigit = true) (t : List Char) : Front (c :: t) := by
  have apart : ∀ d : Char, d.isDigit = false → c ≠ d := by
    rintro d none rfl
    rw [none] at digit
    cases digit
  refine ⟨c, t, rfl, ?_, apart _ (by decide)⟩
  simp only [isWhite, Bool.or_eq_false_iff, beq_eq_false_iff_ne]
  exact ⟨⟨⟨apart _ (by decide), apart _ (by decide)⟩, apart _ (by decide)⟩, apart _ (by decide)⟩

theorem opening_scalar {c : Char} (quote : c ≠ '"') (bracket : c ≠ '[') (brace : c ≠ '{')
    (t : List Char) : opening (c :: t) = .scalar := by
  unfold opening
  split
  · exact absurd (List.cons.inj (by assumption)).1 quote
  · exact absurd (List.cons.inj (by assumption)).1 bracket
  · exact absurd (List.cons.inj (by assumption)).1 brace
  · rfl

/-- A number begins with a digit or a sign, or is one of the three words. -/
theorem signed_front (minus : Bool) {w : List Char} (wholes : Whole w) (t : List Char) :
    Front ((if minus then ['-'] else []) ++ w ++ t) ∧
      opening ((if minus then ['-'] else []) ++ w ++ t) = .scalar := by
  obtain ⟨c, ds, rfl, digit⟩ := wholes.head
  have apart : ∀ d : Char, d.isDigit = false → c ≠ d := by
    rintro d none rfl
    rw [none] at digit
    cases digit
  cases minus with
  | true => exact ⟨⟨'-', c :: (ds ++ t), rfl, rfl, by decide⟩, rfl⟩
  | false =>
    exact ⟨front_of_isDigit digit (ds ++ t),
      opening_scalar (apart _ (by decide)) (apart _ (by decide)) (apart _ (by decide)) _⟩

theorem int_front {m : Int} (written : dumpsInt m = .ok t) (rest : List Char) :
    Front (t ++ rest) ∧ opening (t ++ rest) = .scalar := by
  obtain ⟨-, rfl⟩ := dumpsInt_eq_ok written
  have front := signed_front (decide (m < 0)) (whole_decimal m.natAbs) rest
  simpa only [decide_eq_true_eq] using front

theorem repr_front [LawfulFloats F] (x : F) (rest : List Char) :
    Front (Floats.repr x ++ rest) ∧ opening (Floats.repr x ++ rest) = .scalar := by
  rcases LawfulFloats.text x with ⟨-, text⟩ | ⟨-, text⟩ | ⟨-, text⟩ |
    ⟨-, minus, w, f, e, wholes, -, -, -, text⟩
  · rw [text]
    exact ⟨⟨'N', _, rfl, rfl, by decide⟩, rfl⟩
  · rw [text]
    exact ⟨⟨'I', _, rfl, rfl, by decide⟩, rfl⟩
  · rw [text]
    exact ⟨⟨'-', _, rfl, rfl, by decide⟩, rfl⟩
  · rw [text, List.append_assoc, List.append_assoc]
    exact signed_front minus wholes _

theorem bind_eq_ok {α β : Type} {x : Except Error α} {f : α → Except Error β} {b : β} :
    (x >>= f) = .ok b ↔ ∃ a, x = .ok a ∧ f a = .ok b := by
  cases x with
  | error e =>
    constructor
    · exact fun h => by cases h
    · rintro ⟨a, h, -⟩
      cases h
  | ok a =>
    constructor
    · exact fun h => ⟨a, rfl, h⟩
    · rintro ⟨a', h, h'⟩
      cases h
      exact h'

theorem dumps_front [LawfulFloats F] {v : Value F Str} (written : dumps limit v = .ok t)
    (rest : List Char) : Front (t ++ rest) := by
  cases v with
  | null =>
    cases written
    exact ⟨'n', _, rfl, rfl, by decide⟩
  | bool b =>
    cases b
    · cases written
      exact ⟨'f', _, rfl, rfl, by decide⟩
    · cases written
      exact ⟨'t', _, rfl, rfl, by decide⟩
  | int m => exact (int_front written rest).1
  | float x =>
    cases written
    exact (repr_front x rest).1
  | str s =>
    cases written
    exact ⟨'"', _, rfl, rfl, by decide⟩
  | list l =>
    cases limit with
    | zero => cases written
    | succ limit =>
      cases l with
      | nil =>
        cases written
        exact ⟨'[', _, rfl, rfl, by decide⟩
      | cons v l =>
        obtain ⟨first, -, more⟩ := bind_eq_ok.mp written
        obtain ⟨items, -, more⟩ := bind_eq_ok.mp more
        cases more
        exact ⟨'[', _, rfl, rfl, by decide⟩
  | dict l =>
    cases limit with
    | zero => cases written
    | succ limit =>
      cases l with
      | nil =>
        cases written
        exact ⟨'{', _, rfl, rfl, by decide⟩
      | cons x l =>
        obtain ⟨first, -, more⟩ := bind_eq_ok.mp written
        obtain ⟨items, -, more⟩ := bind_eq_ok.mp more
        cases more
        exact ⟨'{', _, rfl, rfl, by decide⟩

theorem skip_front (front : Front t) : skip t = t := by
  obtain ⟨c, t', rfl, visible, -⟩ := front
  simp [skip, visible]

theorem scan_scalar (plain : opening t = .scalar) : scan hook limit t = scalar t := by
  cases limit <;> (rw [scan.eq_def]; simp only [plain])

def ReadsBack (hook : List (Str × Value F Str) → List (Str × Value F Str)) (v : Value F Str) :
    Prop :=
  ∀ limit t rest, dumps limit v = .ok t → Free continues rest →
    scan hook limit (t ++ rest) = .ok (readBack hook v, rest)

section Lists

variable {α : Type} {scan : List Char → Except Error (α × List Char)} {x : α} {k : Str}

theorem items_last (first : scan t = .ok (x, ']' :: rest)) :
    items scan (n + 1) t = .ok ([x], rest) := by
  rw [items, first]
  rfl

theorem items_more (first : scan t = .ok (x, ',' :: ' ' :: ts)) (front : Front ts) :
    items scan (n + 1) t = (items scan n ts).map fun y => (x :: y.1, y.2) := by
  have skipped : skip (' ' :: ts) = ts := skip_front front
  rw [items, first]
  show (items scan n (skip (' ' :: ts)) >>= _) = _
  rw [skipped]
  cases items scan n ts <;> rfl

theorem member_quoted (value : scan t = .ok (x, rest)) (front : Front t) :
    member scan (quoted k ++ [':', ' '] ++ t) = .ok ((join k, x), rest) := by
  have skipped : skip (' ' :: t) = t := skip_front front
  have key := string_quoted k (':' :: ' ' :: t)
  have text : quoted k ++ [':', ' '] ++ t =
      '"' :: (k.flatMap escapePoint ++ '"' :: ':' :: ' ' :: t) := by simp [quotedBy]
  rw [text, member, key]
  show (scan (skip (' ' :: t)) >>= _) = _
  rw [skipped, value]
  rfl

theorem members_last (first : member scan t = .ok ((k, x), '}' :: rest)) :
    members scan (n + 1) t = .ok ([(k, x)], rest) := by
  rw [members, first]
  rfl

theorem members_more (first : member scan t = .ok ((k, x), ',' :: ' ' :: ts)) (front : Front ts) :
    members scan (n + 1) t = (members scan n ts).map fun y => ((k, x) :: y.1, y.2) := by
  have skipped : skip (' ' :: ts) = ts := skip_front front
  rw [members, first]
  show (members scan n (skip (' ' :: ts)) >>= _) = _
  rw [skipped]
  cases members scan n ts <;> rfl

end Lists

theorem items_dumps [LawfulFloats F] {v : Value F Str} {l : List (Value F Str)}
    (reads : ReadsBack hook v) (others : ∀ v ∈ l, ReadsBack hook v)
    (first : dumps limit v = .ok t) (more : dumpsItems limit l = .ok ts) (enough : l.length < n) :
    items (scan hook limit) n (t ++ (ts ++ rest)) =
      .ok ((v :: l).map (readBack hook), rest) := by
  induction l generalizing v n t ts with
  | nil =>
    obtain ⟨n, rfl⟩ := Nat.exists_eq_add_of_lt enough
    cases more
    exact items_last (reads limit t _ first (.cons rfl))
  | cons w l ih =>
    obtain ⟨n, rfl⟩ := Nat.exists_eq_add_of_lt enough
    obtain ⟨t', next, more⟩ := bind_eq_ok.mp more
    obtain ⟨ts', after, more⟩ := bind_eq_ok.mp more
    cases more
    have rest_read := ih (others w List.mem_cons_self)
      (fun v member => others v (List.mem_cons_of_mem w member)) next after
      (n := (w :: l).length + n) (by rw [List.length_cons]; omega)
    have text : t ++ ([',', ' '] ++ t' ++ ts' ++ rest) =
        t ++ ',' :: ' ' :: (t' ++ (ts' ++ rest)) := by simp
    rw [text, items_more (reads limit t _ first (.cons rfl)) (dumps_front next _), rest_read]
    rfl

theorem members_dumps [LawfulFloats F] {x : Str × Value F Str} {l : List (Str × Value F Str)}
    (reads : ReadsBack hook x.2) (others : ∀ x ∈ l, ReadsBack hook x.2)
    (first : dumps limit x.2 = .ok t) (more : dumpsMembers limit l = .ok ts)
    (enough : l.length < n) :
    members (scan hook limit) n (quoted x.1 ++ [':', ' '] ++ (t ++ (ts ++ rest))) =
      .ok ((x :: l).map fun x => (join x.1, readBack hook x.2), rest) := by
  induction l generalizing x n t ts with
  | nil =>
    obtain ⟨n, rfl⟩ := Nat.exists_eq_add_of_lt enough
    cases more
    exact members_last (member_quoted (reads limit t _ first (.cons rfl)) (dumps_front first _))
  | cons y l ih =>
    obtain ⟨n, rfl⟩ := Nat.exists_eq_add_of_lt enough
    obtain ⟨t', next, more⟩ := bind_eq_ok.mp more
    obtain ⟨ts', after, more⟩ := bind_eq_ok.mp more
    cases more
    have rest_read := ih (others y List.mem_cons_self)
      (fun x member => others x (List.mem_cons_of_mem y member)) next after
      (n := (y :: l).length + n) (by rw [List.length_cons]; omega)
    have text : t ++ ([',', ' '] ++ quoted y.1 ++ [':', ' '] ++ t' ++ ts' ++ rest) =
        t ++ ',' :: ' ' :: (quoted y.1 ++ [':', ' '] ++ (t' ++ (ts' ++ rest))) := by simp
    have key : Front (quoted y.1 ++ [':', ' '] ++ (t' ++ (ts' ++ rest))) :=
      ⟨'"', _, rfl, rfl, by decide⟩
    rw [text, members_more (member_quoted (reads limit t _ first (.cons rfl)) (dumps_front first _))
      key, rest_read]
    rfl

theorem length_dumpsItems {l : List (Value F Str)} (more : dumpsItems limit l = .ok ts) :
    l.length < ts.length := by
  induction l generalizing ts with
  | nil =>
    cases more
    exact Nat.one_pos
  | cons v l ih =>
    obtain ⟨t', -, more⟩ := bind_eq_ok.mp more
    obtain ⟨ts', after, more⟩ := bind_eq_ok.mp more
    cases more
    have rest := ih after
    simp only [List.length_append, List.length_cons, List.length_nil]
    omega

theorem length_dumpsMembers {l : List (Str × Value F Str)} (more : dumpsMembers limit l = .ok ts) :
    l.length < ts.length := by
  induction l generalizing ts with
  | nil =>
    cases more
    exact Nat.one_pos
  | cons x l ih =>
    obtain ⟨t', -, more⟩ := bind_eq_ok.mp more
    obtain ⟨ts', after, more⟩ := bind_eq_ok.mp more
    cases more
    have rest := ih after
    simp only [List.length_append, List.length_cons, List.length_nil]
    omega

theorem array_dumps [LawfulFloats F] {v : Value F Str} {l : List (Value F Str)}
    (reads : ∀ w ∈ v :: l, ReadsBack hook w) (first : dumps limit v = .ok t)
    (more : dumpsItems limit l = .ok ts) :
    array (scan hook limit) (t ++ (ts ++ rest)) = .ok ((v :: l).map (readBack hook), rest) := by
  obtain ⟨c, t', text, visible, apart⟩ := dumps_front first (ts ++ rest)
  have skipped : skip (t ++ (ts ++ rest)) = t ++ (ts ++ rest) := skip_front ⟨c, t', text, visible, apart⟩
  have enough : l.length < (t ++ (ts ++ rest)).length := by
    have fewer := length_dumpsItems more
    simp only [List.length_append]
    omega
  have read : items (scan hook limit) _ (t ++ (ts ++ rest)) = _ :=
    items_dumps (reads v List.mem_cons_self)
      (fun w member => reads w (List.mem_cons_of_mem v member)) first more enough
  unfold array
  rw [skipped]
  split
  · rename_i same
    exact absurd (List.cons.inj (text.symm.trans same)).1 apart
  · exact read

theorem object_dumps [LawfulFloats F] {x : Str × Value F Str} {l : List (Str × Value F Str)}
    (reads : ∀ y ∈ x :: l, ReadsBack hook y.2) (first : dumps limit x.2 = .ok t)
    (more : dumpsMembers limit l = .ok ts) :
    object (scan hook limit) (quoted x.1 ++ [':', ' '] ++ (t ++ (ts ++ rest))) =
      .ok ((x :: l).map fun x => (join x.1, readBack hook x.2), rest) := by
  have enough : l.length < (quoted x.1 ++ [':', ' '] ++ (t ++ (ts ++ rest))).length := by
    have fewer := length_dumpsMembers more
    simp only [List.length_append]
    omega
  exact members_dumps (reads x List.mem_cons_self)
    (fun y member => reads y (List.mem_cons_of_mem x member)) first more enough

theorem scan_dumps [LawfulFloats F] (v : Value F Str) : ReadsBack hook v := by
  induction v using Value.induct with
  | null =>
    intro limit t rest written free
    cases written
    exact scan_scalar rfl
  | bool b =>
    intro limit t rest written free
    cases b <;> (cases written; exact scan_scalar rfl)
  | int m =>
    intro limit t rest written free
    rw [scan_scalar (int_front written rest).2, scalar_dumpsInt written free]
    rfl
  | float x =>
    intro limit t rest written free
    cases written
    rw [scan_scalar (repr_front x rest).2, scalar_repr x free]
    rfl
  | str s =>
    intro limit t rest written free
    cases written
    have text : quoted s ++ rest = '"' :: (s.flatMap escapePoint ++ '"' :: rest) := by simp [quotedBy]
    rw [text, scan.eq_def]
    show (string _ >>= _) = _
    rw [string_quoted]
    rfl
  | list l reads =>
    intro limit t rest written free
    cases limit with
    | zero => cases written
    | succ limit =>
      cases l with
      | nil =>
        cases written
        rfl
      | cons v l =>
        obtain ⟨first, head, more⟩ := bind_eq_ok.mp written
        obtain ⟨others, tail, more⟩ := bind_eq_ok.mp more
        cases more
        rw [List.append_assoc, scan.eq_def]
        show (array (scan hook limit) (first ++ (others ++ rest)) >>= _) = _
        rw [array_dumps reads head tail, readBack, Value.rebuild_list]
        rfl
  | dict l reads =>
    intro limit t rest written free
    cases limit with
    | zero => cases written
    | succ limit =>
      cases l with
      | nil =>
        cases written
        rfl
      | cons x l =>
        obtain ⟨first, head, more⟩ := bind_eq_ok.mp written
        obtain ⟨others, tail, more⟩ := bind_eq_ok.mp more
        cases more
        have text : '{' :: quoted x.1 ++ [':', ' '] ++ first ++ others ++ rest =
            '{' :: (quoted x.1 ++ [':', ' '] ++ (first ++ (others ++ rest))) := by simp
        show scan hook (limit + 1) ('{' :: quoted x.1 ++ [':', ' '] ++ first ++ others ++ rest) = _
        rw [text, scan.eq_def]
        show (object (scan hook limit) (quoted x.1 ++ [':', ' '] ++ (first ++ (others ++ rest))) >>= _)
          = _
        rw [object_dumps reads head tail, readBack, Value.rebuild_dict, List.map_map]
        rfl

end Trees

section Printable

def Printable (t : List Char) : Prop := ∀ c ∈ t, 32 ≤ c.toNat ∧ c.toNat < 127

instance (t : List Char) : Decidable (Printable t) := List.decidableBAll _ t

variable {t ts : List Char}

theorem Printable.append (first : Printable t) (more : Printable ts) : Printable (t ++ ts) :=
  fun c member => (List.mem_append.mp member).elim (first c) (more c)

theorem Printable.cons {c : Char} (first : 32 ≤ c.toNat ∧ c.toNat < 127) (more : Printable t) :
    Printable (c :: t) := List.forall_mem_cons.mpr ⟨first, more⟩

theorem printable_digits (digits : Digits t) : Printable t := by
  intro c member
  have range := Char.isDigit_iff_toNat.mp (digits.2 c member)
  have low : 48 ≤ c.toNat := range.1
  have high : c.toNat ≤ 57 := range.2
  omega

theorem printable_digitChar (n : Nat) :
    32 ≤ (Nat.digitChar (n % 16)).toNat ∧ (Nat.digitChar (n % 16)).toNat < 127 := by
  have all : ∀ d : Fin 16, 32 ≤ (Nat.digitChar d).toNat ∧ (Nat.digitChar d).toNat < 127 := by decide
  exact all ⟨n % 16, Nat.mod_lt n (by decide)⟩

theorem printable_escapeUnit (n : Nat) : Printable (escapeUnit n) :=
  .cons (by decide) (.cons (by decide) (.cons (printable_digitChar _) (.cons (printable_digitChar _)
    (.cons (printable_digitChar _) (.cons (printable_digitChar _)
      (fun _ member => absurd member List.not_mem_nil))))))

theorem printable_escapeChar (c : Char) : Printable (escapeChar c) := by
  unfold escapeChar
  split_ifs with _ _ _ _ _ _ _ plain _
  · decide
  · decide
  · decide
  · decide
  · decide
  · decide
  · decide
  · intro d member
    rw [List.mem_singleton.mp member]
    exact plain
  · exact printable_escapeUnit _
  · exact (printable_escapeUnit _).append (printable_escapeUnit _)

theorem printable_quoted (s : Str) : Printable (quoted s) := by
  refine .cons (by decide) (.append ?_ (by decide))
  intro c member
  obtain ⟨p, -, among⟩ := List.mem_flatMap.mp member
  cases p with
  | char d => exact printable_escapeChar d c among
  | high n => exact printable_escapeUnit _ c among
  | low n => exact printable_escapeUnit _ c among

theorem Whole.digits (shape : Whole t) : Digits t := by
  rcases shape with rfl | ⟨-, digits⟩
  · exact ⟨List.cons_ne_nil '0' [], List.all_eq_true.mp rfl⟩
  · exact digits

theorem printable_sign (minus : Bool) : Printable (if minus then ['-'] else []) := by
  cases minus <;> decide

variable {F : Type} [Floats F] [LawfulFloats F] {limit : Nat}

theorem printable_repr (x : F) : Printable (Floats.repr x) := by
  rcases LawfulFloats.text x with ⟨-, text⟩ | ⟨-, text⟩ | ⟨-, text⟩ |
    ⟨-, minus, w, f, e, wholes, fractions, exponents, -, text⟩
  · exact text ▸ by decide
  · exact text ▸ by decide
  · exact text ▸ by decide
  · have fraction : Printable f := by
      rcases fractions with rfl | ⟨ds, digits, rfl⟩
      · exact fun _ member => absurd member List.not_mem_nil
      · exact .cons (by decide) (printable_digits digits)
    have exponent : Printable e := by
      rcases exponents with rfl | ⟨sign, ds, rfl | rfl, digits, rfl⟩
      · exact fun _ member => absurd member List.not_mem_nil
      · exact .cons (by decide) (.cons (by decide) (printable_digits digits))
      · exact .cons (by decide) (.cons (by decide) (printable_digits digits))
    rw [text]
    exact (((printable_sign minus).append (printable_digits wholes.digits)).append fraction).append
      exponent

omit [Floats F] [LawfulFloats F] in
theorem printable_dumpsInt {n : Int} (written : dumpsInt n = .ok t) : Printable t := by
  obtain ⟨-, rfl⟩ := dumpsInt_eq_ok written
  have sign := printable_sign (decide (n < 0))
  simp only [decide_eq_true_eq] at sign
  exact sign.append (printable_digits (digits_decimal _))

omit [LawfulFloats F] in
theorem printable_items {l : List (Value F Str)}
    (each : ∀ v ∈ l, ∀ t, dumps limit v = .ok t → Printable t)
    (written : dumpsItems limit l = .ok ts) : Printable ts := by
  induction l generalizing ts with
  | nil =>
    cases written
    decide
  | cons v l ih =>
    obtain ⟨t', first, more⟩ := bind_eq_ok.mp written
    obtain ⟨ts', after, more⟩ := bind_eq_ok.mp more
    cases more
    have head := each v List.mem_cons_self t' first
    have tail := ih (fun w member => each w (List.mem_cons_of_mem v member)) after
    exact (Printable.append (by decide) head).append tail

omit [LawfulFloats F] in
theorem printable_members {l : List (Str × Value F Str)}
    (each : ∀ x ∈ l, ∀ t, dumps limit x.2 = .ok t → Printable t)
    (written : dumpsMembers limit l = .ok ts) : Printable ts := by
  induction l generalizing ts with
  | nil =>
    cases written
    decide
  | cons x l ih =>
    obtain ⟨t', first, more⟩ := bind_eq_ok.mp written
    obtain ⟨ts', after, more⟩ := bind_eq_ok.mp more
    cases more
    have head := each x List.mem_cons_self t' first
    have tail := ih (fun y member => each y (List.mem_cons_of_mem x member)) after
    have key : Printable ([',', ' '] ++ quoted x.1 ++ [':', ' ']) :=
      (Printable.append (by decide) (printable_quoted x.1)).append (by decide)
    exact (key.append head).append tail

theorem printable_dumps (v : Value F Str) {t : List Char} (written : dumps limit v = .ok t) :
    Printable t := by
  induction v using Value.induct generalizing limit t with
  | null =>
    cases written
    decide
  | bool b => cases b <;> (cases written; decide)
  | int n => exact printable_dumpsInt written
  | float x =>
    cases written
    exact printable_repr x
  | str s =>
    cases written
    exact printable_quoted s
  | list l each =>
    cases limit with
    | zero => cases written
    | succ limit =>
      cases l with
      | nil =>
        cases written
        decide
      | cons v l =>
        obtain ⟨first, head, more⟩ := bind_eq_ok.mp written
        obtain ⟨others, tail, more⟩ := bind_eq_ok.mp more
        cases more
        exact (Printable.cons (by decide) (each v List.mem_cons_self head)).append
          (printable_items (fun w member _ h => each w (List.mem_cons_of_mem v member) h) tail)
  | dict l each =>
    cases limit with
    | zero => cases written
    | succ limit =>
      cases l with
      | nil =>
        cases written
        decide
      | cons x l =>
        obtain ⟨first, head, more⟩ := bind_eq_ok.mp written
        obtain ⟨others, tail, more⟩ := bind_eq_ok.mp more
        cases more
        have key : Printable ('{' :: quoted x.1 ++ [':', ' ']) :=
          (Printable.cons (by decide) (printable_quoted x.1)).append (by decide)
        exact (key.append (each x List.mem_cons_self head)).append
          (printable_members (fun y member _ h => each y (List.mem_cons_of_mem x member) h) tail)

end Printable

section Loads

variable {F : Type} [Floats F] [LawfulFloats F] {limit : Nat} {v w : Value F Str} {t : List Char}

theorem loads_dumps (written : dumps limit v = .ok t) {white : List Char}
    (blank : ∀ c ∈ white, isWhite c = true) :
    loads limit (t ++ white) = .ok (readBack dictOf v) := by
  have front := dumps_front written white
  have free : Free continues white := by
    intro c first
    have member := blank c (List.mem_of_mem_head? first)
    simp only [isWhite, Bool.or_eq_true, beq_iff_eq] at member
    rcases member with ((rfl | rfl) | rfl) | rfl <;> rfl
  have unmarked : (t ++ white).head? ≠ some (Char.ofNat 0xfeff) := by
    obtain ⟨c, t', text, -, -⟩ := dumps_front written []
    rw [List.append_nil] at text
    have small := (printable_dumps v written c (text ▸ List.mem_cons_self)).2
    intro mark
    rw [text] at mark
    rw [Option.some.inj mark] at small
    exact absurd small (by decide)
  have rest : skip white = [] := List.dropWhile_eq_nil_iff.mpr blank
  unfold loads
  rw [if_neg unmarked, skip_front front, scan_dumps v limit t white written free]
  show (if skip white = [] then _ else _) = _
  rw [if_pos rest]
  rfl

theorem dumps_injective (first : dumps limit v = .ok t) (second : dumps limit w = .ok t) :
    readBack id v = readBack id w := by
  have free : Free continues [] := fun c first => by cases first
  have reads : ∀ v : Value F Str, ReadsBack id v := scan_dumps
  have one := reads v limit t [] first free
  have two := reads w limit t [] second free
  exact congrArg Prod.fst (Except.ok.inj (one.symm.trans two))

end Loads

section Joined

variable {F : Type} [Floats F] {limit : Nat}

theorem dumpsItems_congr {f : Value F Str → Value F Str} {l : List (Value F Str)}
    (same : ∀ v ∈ l, ∀ n, dumps n (f v) = dumps n v) :
    dumpsItems limit (l.map f) = dumpsItems limit l := by
  induction l with
  | nil => rfl
  | cons v l ih =>
    have rest := ih fun w member => same w (List.mem_cons_of_mem v member)
    show (dumps limit (f v) >>= fun first => dumpsItems limit (l.map f) >>= _) = _
    rw [same v List.mem_cons_self, rest]
    rfl

theorem dumpsMembers_congr {f : Value F Str → Value F Str} {l : List (Str × Value F Str)}
    (same : ∀ x ∈ l, ∀ n, dumps n (f x.2) = dumps n x.2) :
    dumpsMembers limit (l.map fun x => (join x.1, f x.2)) = dumpsMembers limit l := by
  induction l with
  | nil => rfl
  | cons x l ih =>
    have rest := ih fun y member => same y (List.mem_cons_of_mem x member)
    show (dumps limit (f x.2) >>= fun first => dumpsMembers limit (l.map _) >>= fun more =>
      .ok ([',', ' '] ++ quoted (join x.1) ++ [':', ' '] ++ first ++ more)) = _
    rw [same x List.mem_cons_self, rest, quoted_join]
    rfl

theorem dumps_readBack (v : Value F Str) : dumps limit (readBack id v) = dumps limit v := by
  induction v using Value.induct generalizing limit with
  | null => rfl
  | bool b => rfl
  | int n => rfl
  | float x => rfl
  | str s => exact congrArg Except.ok (quoted_join s)
  | list l same =>
    rw [readBack, Value.rebuild_list]
    cases limit with
    | zero => rfl
    | succ limit =>
      cases l with
      | nil => rfl
      | cons v l =>
        have rest : dumpsItems limit (l.map (readBack id)) = dumpsItems limit l :=
          dumpsItems_congr fun w member n => same w (List.mem_cons_of_mem v member)
        show (dumps limit (readBack id v) >>= fun first => dumpsItems limit (l.map _) >>= _) = _
        rw [same v List.mem_cons_self]
        exact congrArg _ (funext fun first => congrArg (· >>= _) rest)
  | dict l same =>
    rw [readBack, Value.rebuild_dict, List.map_map]
    cases limit with
    | zero => rfl
    | succ limit =>
      cases l with
      | nil => rfl
      | cons x l =>
        have rest : dumpsMembers limit (l.map fun x => (join x.1, readBack id x.2)) =
            dumpsMembers limit l :=
          dumpsMembers_congr fun y member n => same y (List.mem_cons_of_mem x member)
        show (dumps limit (readBack id x.2) >>= fun first => dumpsMembers limit (l.map _) >>=
          fun more => .ok ('{' :: quoted (join x.1) ++ [':', ' '] ++ first ++ more)) = _
        rw [same x List.mem_cons_self, quoted_join]
        exact congrArg _ (funext fun first => congrArg (· >>= _) rest)

end Joined

section Dicts

variable {α : Type} {l acc : List (Str × α)}

theorem keys_setItem (acc : List (Str × α)) (x : Str × α) :
    (setItem acc x).map Prod.fst =
      if x.1 ∈ acc.map Prod.fst then acc.map Prod.fst else acc.map Prod.fst ++ [x.1] := by
  unfold setItem
  split
  · rw [List.map_map]
    apply List.map_congr_left
    intro y _
    show (if y.1 = x.1 then (y.1, x.2) else y).1 = y.1
    split <;> rfl
  · rw [List.map_append, List.map_singleton]

theorem nodup_foldl_setItem (distinct : (acc.map Prod.fst).Nodup) :
    ((l.foldl setItem acc).map Prod.fst).Nodup := by
  induction l generalizing acc with
  | nil => exact distinct
  | cons x l ih =>
    apply ih
    rw [keys_setItem]
    split
    · exact distinct
    · rename_i fresh
      exact List.nodup_append.mpr ⟨distinct, List.nodup_singleton _, fun k old k' own same =>
        fresh (List.mem_singleton.mp own ▸ same ▸ old)⟩

theorem nodup_dictOf (l : List (Str × α)) : ((dictOf l).map Prod.fst).Nodup :=
  nodup_foldl_setItem List.nodup_nil

theorem foldl_setItem (distinct : ((acc ++ l).map Prod.fst).Nodup) :
    l.foldl setItem acc = acc ++ l := by
  induction l generalizing acc with
  | nil => exact (List.append_nil acc).symm
  | cons x l ih =>
    have fresh : x.1 ∉ acc.map Prod.fst := by
      rw [List.map_append, List.map_cons] at distinct
      intro old
      exact (List.nodup_append.mp distinct).2.2 x.1 old x.1 List.mem_cons_self rfl
    have next : setItem acc x = acc ++ [x] := if_neg fresh
    rw [List.foldl_cons, next, ih (by rwa [List.append_assoc, List.singleton_append]),
      List.append_assoc, List.singleton_append]

theorem dictOf_eq (distinct : (l.map Prod.fst).Nodup) : dictOf l = l := foldl_setItem distinct

theorem mem_setItem {x y : Str × α} (member : x ∈ setItem acc y) :
    (x.1 = y.1 ∨ ∃ z ∈ acc, x.1 = z.1) ∧ (x.2 = y.2 ∨ ∃ z ∈ acc, x.2 = z.2) := by
  unfold setItem at member
  split at member
  · obtain ⟨z, among, rfl⟩ := List.mem_map.mp member
    split
    · exact ⟨.inr ⟨z, among, rfl⟩, .inl rfl⟩
    · exact ⟨.inr ⟨z, among, rfl⟩, .inr ⟨z, among, rfl⟩⟩
  · rcases List.mem_append.mp member with old | new
    · exact ⟨.inr ⟨x, old, rfl⟩, .inr ⟨x, old, rfl⟩⟩
    · rw [List.mem_singleton.mp new]
      exact ⟨.inl rfl, .inl rfl⟩

theorem mem_dictOf {x : Str × α} (member : x ∈ dictOf l) :
    (∃ y ∈ l, x.1 = y.1) ∧ ∃ y ∈ l, x.2 = y.2 := by
  suffices all : ∀ acc, x ∈ l.foldl setItem acc →
      (∃ y ∈ acc ++ l, x.1 = y.1) ∧ ∃ y ∈ acc ++ l, x.2 = y.2 from all [] member
  clear member
  induction l with
  | nil =>
    intro acc member
    rw [List.append_nil]
    exact ⟨⟨x, member, rfl⟩, ⟨x, member, rfl⟩⟩
  | cons y l ih =>
    intro acc member
    have lift : ∀ (p : Str × α → Prop), (p y ∨ ∃ z ∈ acc, p z) → ∃ z ∈ acc ++ y :: l, p z := by
      rintro p (own | ⟨z, among, holds⟩)
      · exact ⟨y, List.mem_append_right _ List.mem_cons_self, own⟩
      · exact ⟨z, List.mem_append_left _ among, holds⟩
    obtain ⟨⟨a, there, key⟩, ⟨b, here, value⟩⟩ := ih (setItem acc y) member
    constructor
    · rcases List.mem_append.mp there with set | later
      · exact lift (x.1 = ·.1) (by rw [key]; exact (mem_setItem set).1)
      · exact ⟨a, List.mem_append_right _ (List.mem_cons_of_mem y later), key⟩
    · rcases List.mem_append.mp here with set | later
      · exact lift (x.2 = ·.2) (by rw [value]; exact (mem_setItem set).2)
      · exact ⟨b, List.mem_append_right _ (List.mem_cons_of_mem y later), value⟩

end Dicts

section AllJoined

variable {F : Type} {v : Value F Str}

def joinedKeys (keys : List Str) : Bool := keys.all fun k => decide (join k = k)

def Joined (v : Value F Str) : Bool := v.all (fun s => decide (join s = s)) joinedKeys

theorem joined_list {l : List (Value F Str)} :
    Joined (.list l) = true ↔ ∀ v ∈ l, Joined v = true := by
  rw [Joined, Value.all_list, List.all_eq_true]
  rfl

theorem joined_dict {l : List (Str × Value F Str)} :
    Joined (.dict l) = true ↔ ∀ x ∈ l, join x.1 = x.1 ∧ Joined x.2 = true := by
  rw [Joined, Value.all_dict, Bool.and_eq_true, joinedKeys, List.all_eq_true, List.all_eq_true,
    List.forall_mem_map, ← forall₂_and]
  exact forall₂_congr fun x _ => and_congr_left fun _ => decide_eq_true_iff

theorem readBack_id (joined : Joined v = true) : readBack id v = v := by
  induction v using Value.induct with
  | null => rfl
  | bool b => rfl
  | int n => rfl
  | float x => rfl
  | str s => exact congrArg Value.str (of_decide_eq_true joined)
  | list l same =>
    rw [joined_list] at joined
    have all : l.map (readBack id) = l.map id :=
      List.map_congr_left fun v member => same v member (joined v member)
    rw [readBack, Value.rebuild_list]
    exact congrArg Value.list (all.trans (List.map_id l))
  | dict l same =>
    rw [joined_dict] at joined
    have all : l.map (fun x => (join x.1, readBack id x.2)) = l.map id := by
      apply List.map_congr_left
      intro x member
      rw [(joined x member).1, same x member (joined x member).2]
      rfl
    rw [readBack, Value.rebuild_dict, List.map_map]
    exact congrArg Value.dict (all.trans (List.map_id l))

theorem joined_readBack (v : Value F Str) : Joined (readBack dictOf v) = true := by
  induction v using Value.induct with
  | null => rfl
  | bool b => rfl
  | int n => rfl
  | float x => rfl
  | str s => exact decide_eq_true (join_join s)
  | list l each =>
    rw [readBack, Value.rebuild_list, joined_list]
    exact List.forall_mem_map.mpr each
  | dict l each =>
    rw [readBack, Value.rebuild_dict, joined_dict, List.map_map]
    intro x member
    obtain ⟨⟨y, there, key⟩, ⟨z, here, value⟩⟩ := mem_dictOf member
    obtain ⟨y, -, rfl⟩ := List.mem_map.mp there
    obtain ⟨z, among, rfl⟩ := List.mem_map.mp here
    rw [key, value]
    exact ⟨join_join y.1, each z among⟩

end AllJoined

section Clean

variable {F : Type}

def cleanKeys (keys : List Str) : Bool := decide keys.Nodup && joinedKeys keys

theorem readBack_eq {v : Value F Str} (clean : v.all (fun s => decide (join s = s)) cleanKeys = true) :
    readBack dictOf v = v := by
  induction v using Value.induct with
  | null => rfl
  | bool b => rfl
  | int n => rfl
  | float x => rfl
  | str s => exact congrArg Value.str (of_decide_eq_true clean)
  | list l reads =>
    rw [Value.all_list] at clean
    have same : l.map (readBack dictOf) = l.map id :=
      List.map_congr_left fun v member => reads v member (List.all_eq_true.mp clean v member)
    rw [readBack, Value.rebuild_list]
    exact congrArg Value.list (same.trans (List.map_id l))
  | dict l reads =>
    rw [Value.all_dict, Bool.and_eq_true, cleanKeys, Bool.and_eq_true, joinedKeys] at clean
    obtain ⟨⟨distinct, joined⟩, inside⟩ := clean
    have same : l.map (fun x => (join x.1, readBack dictOf x.2)) = l.map id := by
      apply List.map_congr_left
      intro x member
      have key : join x.1 = x.1 :=
        of_decide_eq_true (List.all_eq_true.mp joined x.1 (List.mem_map_of_mem member))
      have value := reads x member (List.all_eq_true.mp inside x member)
      show (join x.1, readBack dictOf x.2) = x
      rw [key, value]
    rw [readBack, Value.rebuild_dict, List.map_map]
    show Value.dict (dictOf (l.map fun x => (join x.1, readBack dictOf x.2))) = _
    rw [same, List.map_id, dictOf_eq (of_decide_eq_true distinct)]

theorem join_of_characters {s : Str} (text : s.all isCharacter = true) : join s = s := by
  induction s with
  | nil => rfl
  | cons p s ih =>
    rw [List.all_cons, Bool.and_eq_true] at text
    cases p with
    | char c => rw [join_char, ih text.2]
    | high n => cases text.1
    | low n => cases text.1

theorem map_characters {s : Str} (text : s.all isCharacter = true) :
    (characters s).map Point.char = s := by
  induction s with
  | nil => rfl
  | cons p s ih =>
    rw [List.all_cons, Bool.and_eq_true] at text
    cases p with
    | char c => exact congrArg (Point.char c :: ·) (ih text.2)
    | high n => cases text.1
    | low n => cases text.1

theorem clean_of_encodable {v : Value F Str}
    (distinct : v.all (fun _ => true) (fun ks => decide ks.Nodup) = true)
    (text : encodable v = true) : v.all (fun s => decide (join s = s)) cleanKeys = true := by
  induction v using Value.induct with
  | null => rfl
  | bool b => rfl
  | int n => rfl
  | float x => rfl
  | str s => exact decide_eq_true (join_of_characters text)
  | list l each =>
    rw [encodable, Value.all_list, List.all_eq_true] at text
    rw [Value.all_list, List.all_eq_true] at distinct
    rw [Value.all_list, List.all_eq_true]
    exact fun v member => each v member (distinct v member) (text v member)
  | dict l each =>
    rw [encodable, Value.all_dict, Bool.and_eq_true, List.all_eq_true, List.all_eq_true] at text
    rw [Value.all_dict, Bool.and_eq_true, List.all_eq_true] at distinct
    rw [Value.all_dict, Bool.and_eq_true, cleanKeys, Bool.and_eq_true, joinedKeys,
      List.all_eq_true, List.all_eq_true]
    exact ⟨⟨distinct.1, fun k member => decide_eq_true (join_of_characters (text.1 k member))⟩,
      fun x member => each x member (distinct.2 x member) (text.2 x member)⟩

end Clean

end Json
