import Plexichat.Library.JsonShape
import Plexichat.Auth.KeyOrder

/-! The log is a chain of what was reported, and verify_chain accepts its fronts alone. -/
namespace Plexichat.Auth.DeletionLog
open Transition Interleaving Json HashChain

variable {F : Type} [Floats F] {host : Host F}

section Texts

omit [Floats F] in
theorem all_ofText (t : List Char) : (ofText t).all isCharacter = true := by
  rw [ofText, List.all_map, List.all_eq_true]
  exact fun _ _ => rfl

theorem join_ofText (t : List Char) : join (ofText t) = ofText t :=
  join_of_characters (all_ofText t)

theorem join_name (s : String) : join (name s) = name s := join_ofText s.toList

theorem characters_ofText (t : List Char) : characters (ofText t) = t := by
  induction t with
  | nil => rfl
  | cons c t ih => exact congrArg (c :: ·) ih

theorem ofText_injective {t u : List Char} (same : ofText t = ofText u) : t = u := by
  rw [← characters_ofText t, same, characters_ofText]

end Texts

section Entries

variable {e : Event F} {p c : Str}

def fields (host : Host F) (e : Event F) (p : Str) : List (Str × Value F Str) :=
  [(name "timestamp", .int e.timestamp), (name "user_id", .int e.userId),
    (name "identifier_hash", .str (join (ofText (host.sha256 (characters e.identifier))))),
    (name "action", .str (join e.action)), (name "metadata", readData (.dict e.metadata)),
    (name "prev_hash", .str (join p))]

theorem readData_entry (e : Event F) (p : Str) :
    readData (.dict (entry host e (.str p))) = .dict (fields host e p) := by
  have keys : (entry host e (.str p)).map (fun x => (keyText x.1, readData x.2)) =
      fields host e p := by
    simp only [entry, List.map_cons, List.map_nil, keyText, Key.text, join_name]
    rfl
  have distinct : ((fields host e p).map Prod.fst).Nodup := by
    show [name "timestamp", name "user_id", name "identifier_hash", name "action",
      name "metadata", name "prev_hash"].Nodup
    decide
  rw [readData_dict, keys, dictOf_eq distinct]

def storedEntry (host : Host F) (e : Event F) (p c : Str) : List (Key F × Data F) :=
  entry host e (.str p) ++ [(.str (name "checksum"), .str c)]

theorem readData_storedEntry (e : Event F) (p c : Str) :
    readData (.dict (storedEntry host e p c)) =
      .dict (fields host e p ++ [(name "checksum", .str (join c))]) := by
  have keys : (storedEntry host e p c).map (fun x => (keyText x.1, readData x.2)) =
      fields host e p ++ [(name "checksum", .str (join c))] := by
    simp only [storedEntry, entry, List.map_cons, List.map_nil, List.cons_append, List.nil_append,
      keyText, Key.text, join_name]
    rfl
  have distinct : ((fields host e p ++
      [(name "checksum", Value.str (join c))]).map Prod.fst).Nodup := by
    show [name "timestamp", name "user_id", name "identifier_hash", name "action",
      name "metadata", name "prev_hash", name "checksum"].Nodup
    decide
  rw [readData_dict, keys, dictOf_eq distinct]

theorem ordered_strings {l : List (Key F × Data F)}
    (strings : ∀ x ∈ l, ∃ s, x.1 = .str s ∧ join s = s)
    (distinct : (l.map fun x => keyText x.1).Nodup) :
    Ordered host (.dict l) = true ↔ ∀ x ∈ l, Ordered host x.2 = true := by
  rw [ordered_dict]
  refine and_iff_right ?_
  show (inOrder host l).Pairwise _
  have moved := List.map_insertionSort (r := fun x y : Key F × Data F => keyUpTo host x.1 y.1)
    (s := upTo) (f := fun x => (keyText x.1, x.2)) (l := l) (by
      intro x first y second
      obtain ⟨s, key, joined⟩ := strings x first
      obtain ⟨t, key', joined'⟩ := strings y second
      rw [keyUpTo, upTo, key, key', keyText, keyText, Key.text, Key.text, joined, joined']
      exact Iff.rfl)
  rw [← keys_sorted, moved]
  apply increasing_sorted
  rw [List.map_map]
  exact distinct

theorem ordered_entry (e : Event F) (p : Str) :
    Ordered host (.dict (entry host e (.str p))) = true ↔
      Ordered host (.dict e.metadata) = true := by
  have texts : (entry host e (.str p)).map (fun x => keyText x.1) =
      [name "timestamp", name "user_id", name "identifier_hash", name "action",
        name "metadata", name "prev_hash"] := by
    simp only [entry, List.map_cons, List.map_nil, keyText, Key.text, join_name]
  rw [ordered_strings]
  · simp only [entry, List.forall_mem_cons]
    constructor
    · exact fun all => all.2.2.2.2.1
    · exact fun metadata => ⟨rfl, rfl, rfl, rfl, metadata, rfl,
        fun _ member => absurd member List.not_mem_nil⟩
  · simp only [entry, List.forall_mem_cons]
    exact ⟨⟨_, rfl, join_name _⟩, ⟨_, rfl, join_name _⟩, ⟨_, rfl, join_name _⟩,
      ⟨_, rfl, join_name _⟩, ⟨_, rfl, join_name _⟩, ⟨_, rfl, join_name _⟩,
      fun _ member => absurd member List.not_mem_nil⟩
  · rw [texts]
    decide

end Entries

section Lines

def digest (host : Host F) (p : Str) (content : List Char) : Str :=
  ofText (host.sha256 (characters p ++ content))

theorem verifyLine_eq_some {expected line c : List Char} :
    verifyLine host expected line = some c ↔ ∃ r, readLine host line = some r ∧
      r.prev = ofText expected ∧ r.hash = digest host r.prev r.body ∧ r.hash = ofText c := by
  unfold verifyLine
  cases readLine host line with
  | none =>
    constructor
    · exact fun h => by cases h
    · rintro ⟨r, h, -⟩
      cases h
  | some r =>
    simp only [Option.some.injEq]
    constructor
    · intro h
      split at h
      · rename_i right
        cases h
        refine ⟨r, rfl, right.1, ?_, right.2⟩
        rw [digest, right.1, characters_ofText]
        exact right.2
      · cases h
    · rintro ⟨r', rfl, prev, hash, known⟩
      rw [digest, prev, characters_ofText] at hash
      rw [if_pos ⟨prev, hash⟩]
      exact congrArg some (ofText_injective (hash.symm.trans known))

def Records (host : Host F) (file : List Char) (rs : List (Record Str (List Char))) : Prop :=
  (lines file).map (readLine host) = rs.map some

theorem verifyLines_eq_true {expected : List Char} {ls : List (List Char)} {n : Nat} :
    verifyLines host expected ls = (true, n) ↔ ∃ rs : List (Record Str (List Char)),
      ls.map (readLine host) = rs.map some ∧ Chained (digest host) (ofText expected) rs ∧
        rs.length = n := by
  induction ls generalizing expected n with
  | nil =>
    constructor
    · intro h
      cases h
      exact ⟨[], rfl, trivial, rfl⟩
    · rintro ⟨rs, none_read, -, rfl⟩
      rw [List.map_eq_nil_iff.mp none_read.symm]
      rfl
  | cons line ls ih =>
    rw [verifyLines]
    constructor
    · intro accepted
      split at accepted
      · cases accepted
      · rename_i c right
        obtain ⟨r, read, prev, hash, known⟩ := verifyLine_eq_some.mp right
        obtain ⟨valid, count⟩ := Prod.mk.inj accepted
        obtain ⟨rs, more, chained, length⟩ := ih.mp (Prod.ext valid rfl :
          verifyLines host c ls = (true, (verifyLines host c ls).2))
        refine ⟨r :: rs, ?_, ⟨prev, ?_, known ▸ chained⟩, ?_⟩
        · rw [List.map_cons, List.map_cons, read, more]
        · rw [← prev]
          exact hash
        · rw [List.length_cons, length, count]
    · rintro ⟨rs, read, chained, rfl⟩
      cases rs with
      | nil => cases read
      | cons r rs =>
        obtain ⟨here, more⟩ := List.cons.inj read
        obtain ⟨prev, hash, after⟩ := chained
        have known : r.hash = ofText (host.sha256 (expected ++ r.body)) := by
          rw [hash, digest, characters_ofText]
        have right := verifyLine_eq_some.mpr ⟨r, here, prev, prev ▸ hash, known⟩
        rw [right]
        rw [known] at after
        have rest := ih.mpr ⟨rs, more, after, rfl⟩
        simp only [rest]
        rfl

theorem verifyChain_eq_valid {rotate : Bool} {file : List Char} {n : Nat} :
    verifyChain host rotate file = .valid n ↔ ∃ rs, Records host file rs ∧
      Chained (digest host) (ofText zeros) rs ∧ rs.length = n := by
  refine Iff.trans ?_ verifyLines_eq_true
  unfold verifyChain
  split
  · rename_i count valid
    rw [valid]
    constructor
    · exact fun h => by cases h; rfl
    · exact fun h => congrArg Verdict.valid (Prod.mk.inj h).2
  · rename_i count broken
    rw [broken]
    constructor
    · intro h
      split at h <;> cases h
    · exact fun h => by cases h

end Lines

section Files

variable {e : Event F} {h c line : List Char}

structure Line (line : List Char) : Prop where
  printable : Printable line
  front : ∃ t, line = '{' :: t

theorem dumps_dict_front {limit : Nat} {l : List (Str × Value F Str)} {t : List Char}
    (written : dumps limit (.dict l) = .ok t) : ∃ t', t = '{' :: t' := by
  obtain ⟨u, rfl⟩ := dumps_dict_ends written
  exact ⟨_, rfl⟩

theorem dumpsData_dict_front {sortKeys : Bool} {l : List (Key F × Data F)} {t : List Char}
    (written : dumpsData host sortKeys (.dict l) = .ok t) : ∃ t', t = '{' :: t' := by
  have dumped := dumps_of_dumpsData written
  cases sortKeys with
  | true =>
    simp only [if_true, sorted, withTexts, Value.rebuild_dict] at dumped
    exact dumps_dict_front dumped
  | false =>
    simp only [Bool.false_eq_true, if_false, withTexts, Value.rebuild_dict] at dumped
    exact dumps_dict_front dumped

theorem record_eq_ok (written : record host e (.str (ofText h)) = .ok (c, line)) :
    ∃ content, dumpsData host true (.dict (entry host e (.str (ofText h)))) = .ok content ∧
      c = host.sha256 (h ++ content) ∧
      dumpsData host false (.dict (storedEntry host e (ofText h) (ofText c))) = .ok line := by
  obtain ⟨content, hashed, more⟩ := bind_eq_ok.mp written
  rw [all_ofText, characters_ofText] at more
  obtain ⟨stored, dumped, same⟩ := bind_eq_ok.mp more
  cases same
  exact ⟨content, hashed, rfl, dumped⟩

variable [LawfulFloats F]

theorem line_record (written : record host e (.str (ofText h)) = .ok (c, line)) : Line line := by
  obtain ⟨content, -, -, dumped⟩ := record_eq_ok written
  exact ⟨printable_dumps _ (dumps_of_dumpsData dumped), dumpsData_dict_front dumped⟩

theorem loads_record (written : record host e (.str (ofText h)) = .ok (c, line))
    {white : List Char} (blank : ∀ c ∈ white, isWhite c = true) :
    loads host.depth (line ++ white) =
      .ok (.dict (fields host e (ofText h) ++ [(name "checksum", .str (ofText c))])) := by
  obtain ⟨content, -, -, dumped⟩ := record_eq_ok written
  have loaded := loads_dumps (dumps_of_dumpsData dumped) blank
  rw [loaded]
  show Except.ok (readData (.dict (storedEntry host e (ofText h) (ofText c)))) = _
  rw [readData_storedEntry, join_ofText]

theorem readLine_record (written : record host e (.str (ofText h)) = .ok (c, line)) :
    readLine host line = (dumpsData host true (ofValue (readData
      (.dict (entry host e (.str (ofText h))))))).toOption.map
        fun content => ⟨ofText h, content, ofText c⟩ := by
  have loaded := loads_record written (fun c (member : c ∈ []) => absurd member List.not_mem_nil)
  rw [List.append_nil] at loaded
  have rest : (fields host e (ofText h) ++ [(name "checksum", Value.str (ofText c))]).filter
      (fun x => x.1 ≠ name "checksum") = fields host e (ofText h) := rfl
  have prev : get (fields host e (ofText h)) (name "prev_hash") = some (.str (ofText h)) := by
    show some (Value.str (join (ofText h))) = _
    rw [join_ofText]
  have checksum : get (fields host e (ofText h) ++ [(name "checksum", .str (ofText c))])
      (name "checksum") = some (.str (ofText c)) := rfl
  unfold readLine
  rw [loaded]
  simp only [rest, prev, checksum, readData_entry]
  cases dumpsData host true (ofValue (.dict (fields host e (ofText h)))) <;> rfl

end Files

section Breaks

def fileOf (ls : List (List Char)) : List Char := ls.flatMap (· ++ ['\n'])

theorem newlines_eq {t : List Char} (plain : '\r' ∉ t) : newlines t = t := by
  induction t with
  | nil => rfl
  | cons c t ih =>
    have other : c ≠ '\r' := fun same => plain (same ▸ List.mem_cons_self)
    have rest : '\r' ∉ t := fun member => plain (List.mem_cons_of_mem c member)
    rw [newlines.eq_3 _ _ (by simp [other]) (by simp [other]), ih rest]

theorem Line.not_mem {line : List Char} (shape : Line line) {c : Char} (control : c.toNat < 32) :
    c ∉ line := by
  intro member
  have plain := (shape.printable c member).1
  omega

theorem not_mem_fileOf {ls : List (List Char)} (all : ∀ line ∈ ls, Line line) :
    '\r' ∉ fileOf ls := by
  intro member
  obtain ⟨line, among, there⟩ := List.mem_flatMap.mp member
  rcases List.mem_append.mp there with inside | last
  · exact (all line among).not_mem (by decide) inside
  · exact absurd (List.mem_singleton.mp last) (by decide)

theorem lines_fileOf {ls : List (List Char)} (all : ∀ line ∈ ls, Line line) :
    lines (fileOf ls) = ls := by
  rw [lines, newlines_eq (not_mem_fileOf all)]
  induction ls with
  | nil => rfl
  | cons line ls ih =>
    have shape := all line List.mem_cons_self
    have whole : ∀ c ∈ line, (c == '\n') = false := by
      intro c member
      refine beq_eq_false_iff_ne.mpr ?_
      rintro rfl
      exact shape.not_mem (by decide) member
    have cut : (fileOf (line :: ls)).splitOn '\n' = line :: (fileOf ls).splitOn '\n' := by
      show (line ++ ['\n'] ++ fileOf ls).splitOn '\n' = _
      rw [List.append_assoc, List.singleton_append, List.splitOn_eq_splitOnP,
        List.splitOnP_append_cons (p := (· == '\n')) line (fileOf ls) rfl,
        List.splitOnP_eq_singleton whole, List.splitOn_eq_splitOnP]
      rfl
    have visible : (!line.all isSpace) = true := by
      obtain ⟨t, rfl⟩ := shape.front
      rfl
    rw [cut, List.filter_cons_of_pos (p := fun line : List Char => !line.all isSpace) visible,
      ih fun line member => all line (List.mem_cons_of_mem _ member)]

theorem lastLine_append {t before buffer : List Char} (whole : '\n' ∉ t)
    (ends : before = [] ∨ ∃ before', before = '\n' :: before') (kept : buffer ≠ []) :
    lastLine (t.reverse ++ before) buffer = t ++ buffer := by
  induction t using List.reverseRecOn generalizing buffer with
  | nil =>
    rcases ends with rfl | ⟨before', rfl⟩
    · rfl
    · exact if_pos ⟨rfl, kept⟩
  | append_singleton t c ih =>
    have other : c ≠ '\n' := fun same => whole (same ▸ List.mem_append_right _ List.mem_cons_self)
    have rest : '\n' ∉ t := fun member => whole (List.mem_append_left _ member)
    rw [List.reverse_append, List.reverse_singleton, List.append_assoc, List.singleton_append,
      lastLine, if_neg fun both => other both.1, ih rest (List.cons_ne_nil c buffer)]
    simp

theorem reverse_fileOf (ls : List (List Char)) :
    (fileOf ls).reverse = [] ∨ ∃ before, (fileOf ls).reverse = '\n' :: before := by
  induction ls using List.reverseRecOn with
  | nil => exact .inl rfl
  | append_singleton ls line _ =>
    refine .inr ⟨line.reverse ++ (fileOf ls).reverse, ?_⟩
    simp [fileOf]

theorem lastLine_fileOf (ls : List (List Char)) {line : List Char} (shape : Line line) :
    lastLine (fileOf (ls ++ [line])).reverse [] = line ++ ['\n'] := by
  have split : (fileOf (ls ++ [line])).reverse =
      '\n' :: (line.reverse ++ (fileOf ls).reverse) := by simp [fileOf]
  rw [split, lastLine, if_neg fun both => both.2 rfl,
    lastLine_append (shape.not_mem (by decide)) (reverse_fileOf ls) (List.cons_ne_nil _ _)]

end Breaks

inductive Written (host : Host F) :
    List (Event F × List Char) → List (List Char) → List Char → Prop where
  | nil : Written host [] [] zeros
  | snoc {rs ls h e c line} (before : Written host rs ls h)
      (written : record host e (.str (ofText h)) = .ok (c, line)) :
      Written host (rs ++ [(e, c)]) (ls ++ [line]) c

structure Logged (host : Host F) (r : Record Str (List Char)) (x : Event F × List Char) : Prop where
  checksum : r.hash = ofText x.2
  content : dumpsData host true (.dict (entry host x.1 (.str r.prev))) = .ok r.body

section Chains

variable [LawfulFloats F] {rs : List (Event F × List Char)} {ls : List (List Char)} {h : List Char}

theorem Written.line (written : Written host rs ls h) : ∀ line ∈ ls, Line line := by
  induction written with
  | nil => exact fun _ member => absurd member List.not_mem_nil
  | snoc _ written ih =>
    intro line member
    rcases List.mem_append.mp member with old | new
    · exact ih line old
    · exact List.mem_singleton.mp new ▸ line_record written

theorem Written.readLastHash (written : Written host rs ls h) :
    readLastHash host (fileOf ls) = .str (ofText h) := by
  cases written with
  | nil =>
    have nothing : (loads host.depth [] : Except Error (Value F Str)) = .error .value := by
      unfold loads
      rw [if_neg (by simp), scan_scalar rfl]
      rfl
    have empty : lastLine (fileOf []).reverse [] = [] := rfl
    rw [DeletionLog.readLastHash, empty, nothing]
  | snoc before written =>
    have blank : ∀ c ∈ ['\n'], isWhite c = true := fun c member => List.mem_singleton.mp member ▸ rfl
    have loaded := loads_record written blank
    rw [DeletionLog.readLastHash, lastLine_fileOf _ (line_record written), loaded]
    rfl

theorem Written.chained (written : Written host rs ls h)
    (ordered : ∀ x ∈ rs, Ordered host (.dict x.1.metadata) = true) :
    ∃ recs : List (Record Str (List Char)), ls.map (readLine host) = recs.map some ∧
      Chained (digest host) (ofText zeros) recs ∧ endHash (ofText zeros) recs = ofText h ∧
      List.Forall₂ (Logged host) recs rs := by
  induction written with
  | nil => exact ⟨[], rfl, trivial, rfl, .nil⟩
  | @snoc rs ls h e c line before written ih =>
    obtain ⟨recs, read, chained, last, logged⟩ :=
      ih fun x member => ordered x (List.mem_append_left _ member)
    have mine := ordered (e, c) (List.mem_append_right _ List.mem_cons_self)
    obtain ⟨content, hashed, rfl, -⟩ := record_eq_ok written
    have again := (hashed_again hashed).mpr ((ordered_entry e (ofText h)).mpr mine)
    have here := readLine_record written
    rw [again] at here
    refine ⟨recs ++ [⟨ofText h, content, ofText (host.sha256 (h ++ content))⟩], ?_, ?_, ?_, ?_⟩
    · rw [List.map_append, List.map_append, read, List.map_singleton, here]
      rfl
    · refine chained_append.mpr ⟨chained, last.symm, ?_, trivial⟩
      rw [last, digest, characters_ofText]
    · rw [endHash_append]
      rfl
    · exact List.rel_append logged (.cons ⟨rfl, hashed⟩ .nil)

theorem Written.ordered (injective : Function.Injective host.sha256)
    (written : Written host rs ls h) {recs : List (Record Str (List Char))}
    (read : ls.map (readLine host) = recs.map some)
    (chained : Chained (digest host) (ofText zeros) recs) :
    ∀ x ∈ rs, Ordered host (.dict x.1.metadata) = true := by
  induction written generalizing recs with
  | nil => exact fun _ member => absurd member List.not_mem_nil
  | @snoc rs ls h e c line before written ih =>
    rw [List.map_append] at read
    obtain ⟨front, last, rfl, first, second⟩ := List.append_eq_map_iff.mp read
    obtain ⟨begun, more⟩ := chained_append.mp chained
    intro x member
    rcases List.mem_append.mp member with old | new
    · exact ih first.symm begun x old
    · rw [List.mem_singleton.mp new]
      cases last with
      | nil => cases second
      | cons r last =>
        have here : readLine host line = some r := (List.cons.inj second).1.symm
        obtain ⟨content, hashed, known, -⟩ := record_eq_ok written
        rw [readLine_record written] at here
        obtain ⟨body, again, rfl⟩ := Option.map_eq_some_iff.mp here
        have hash := more.2.1
        rw [← more.1, digest, characters_ofText] at hash
        have same : h ++ content = h ++ body :=
          injective (known.symm.trans (ofText_injective hash))
        have equal := List.append_cancel_left same
        subst equal
        have back : dumpsData host true (ofValue (readData
            (.dict (entry host e (.str (ofText h)))))) = .ok content := by
          cases dumped : dumpsData host true (ofValue (readData
              (.dict (entry host e (.str (ofText h)))))) with
          | error error =>
            rw [dumped] at again
            cases again
          | ok body =>
            rw [dumped] at again
            cases again
            rfl
        exact (ordered_entry e (ofText h)).mp ((hashed_again hashed).mp back)

end Chains

/-- What is taken for granted of sha256: hexadecimal digits, no collision, and never 64 zeros. -/
structure CollisionFree (sha256 : List Char → List Char) : Prop where
  injective : Function.Injective sha256
  hexadecimal : ∀ t, ∀ c ∈ sha256 t, c.isDigit = true ∨ (97 ≤ c.toNat ∧ c.toNat ≤ 102)
  nonzero : ∀ t, sha256 t ≠ zeros

def Hashable (p : Str) (content : List Char) : Prop :=
  (∃ t, p = ofText t ∧ '{' ∉ t) ∧ ∃ t, content = '{' :: t

section Digests

variable (free : CollisionFree host.sha256)

include free

omit [Floats F] in
theorem not_mem_sha256 (t : List Char) : '{' ∉ host.sha256 t := by
  intro member
  rcases free.hexadecimal t _ member with digit | letter
  · exact absurd digit (by decide)
  · exact absurd letter.2 (by decide)

omit [Floats F] in
theorem separates : Separates (digest host) (ofText zeros) Hashable := by
  constructor
  case injective =>
    rintro p b q c ⟨⟨t, rfl, plain⟩, ⟨b, rfl⟩⟩ ⟨⟨u, rfl, plain'⟩, ⟨c, rfl⟩⟩ same
    have whole := free.injective (ofText_injective same)
    rw [characters_ofText, characters_ofText] at whole
    have cut : ∀ {t b : List Char}, '{' ∉ t →
        (t ++ '{' :: b).takeWhile (· != '{') = t ∧ (t ++ '{' :: b).dropWhile (· != '{') = '{' :: b :=
      fun plain => ⟨Text.takeWhile_ne plain _, by rw [Text.dropWhile_ne plain]; rfl⟩
    have hashes : t = u := by rw [← (cut (b := b) plain).1, whole, (cut plain').1]
    have contents : '{' :: b = '{' :: c := by rw [← (cut (b := b) plain).2, whole, (cut plain').2]
    exact ⟨congrArg ofText hashes, contents⟩
  case genesis => exact fun p b same => free.nonzero _ (ofText_injective same)

theorem hashable_of_chained {file : List Char} {recs : List (Record Str (List Char))}
    (read : Records host file recs) (chained : Chained (digest host) (ofText zeros) recs) :
    ∀ r ∈ recs, Hashable r.prev r.body := by
  intro r member
  constructor
  · have among : r.prev ∈ recs.map Record.prev ++ [endHash (ofText zeros) recs] :=
      List.mem_append_left _ (List.mem_map_of_mem member)
    rw [prevs_append_end chained] at among
    rcases List.mem_cons.mp among with first | later
    · exact ⟨zeros, first, by decide⟩
    · obtain ⟨q, there, same⟩ := List.mem_map.mp later
      exact ⟨_, same.symm.trans (hash_eq chained there), not_mem_sha256 free _⟩
  · have seen : some r ∈ (lines file).map (readLine host) := read ▸ List.mem_map_of_mem member
    obtain ⟨line, -, here⟩ := List.mem_map.mp seen
    unfold readLine at here
    split at here
    · simp only at here
      split at here
      · rename_i hashed _
        cases here
        rw [dumpsData_ofValue, canonical, Value.rebuild_dict] at hashed
        exact dumps_dict_front hashed
      · cases here
    · cases here

end Digests

section Runs

variable {ι : Type} [DecidableEq ι] [LawfulFloats F]

def Kept (host : Host F) (s : Shared F) : Prop :=
  ∃ ls h, Written host s.reported ls h ∧ s.file = fileOf ls

def Holding (host : Host F) (s : Shared F) : Phase F → Prop
  | .locked _ prev => s.locked = true ∧ prev = readLastHash host s.file
  | _ => True

def Phase.holds : Phase F → Bool
  | .locked _ _ => true
  | _ => false

omit [LawfulFloats F] in
theorem holding_of_not_holds {s : Shared F} {p : Phase F} (free : p.holds = false) :
    Holding host s p := by
  cases p with
  | idle => trivial
  | opened e => trivial
  | locked e prev => cases free

theorem Kept.append {s : Shared F} (kept : Kept host s) {e : Event F} {c line : List Char}
    (written : record host e (readLastHash host s.file) = .ok (c, line)) (locked : Bool) :
    Kept host ⟨s.file ++ line ++ ['\n'], locked, s.reported ++ [(e, c)]⟩ := by
  obtain ⟨ls, h, before, file⟩ := kept
  rw [file, before.readLastHash] at written
  refine ⟨ls ++ [line], c, before.snoc written, ?_⟩
  show s.file ++ line ++ ['\n'] = _
  rw [file]
  simp [fileOf]

theorem kept_throughout {s : World ι F} (run : Reachable (step (next host)) init s) :
    Holds (Kept host) (Holding host) (fun p q => ¬(p.holds = true ∧ q.holds = true)) s := by
  refine holds_throughout ?_ ?_ run
  · rintro ⟨_, pc⟩ ⟨rfl, idle⟩
    refine ⟨⟨[], zeros, .nil, rfl⟩, ?_, ?_⟩
    · intro i
      rw [idle i]
      trivial
    · intro i j _
      rw [idle i]
      exact fun both => by cases both.1
  · intro s i a r holds _ moved
    have mine := holds.each i
    -- a step that does not take the lock: the other calls see the same, or hold no lock
    have released : ∀ t q, q.holds = false → Kept host t →
        (t = s.shared ∨ (s.pc i).holds = true) →
        Kept host t ∧ Holding host t q ∧ ∀ j ≠ i, Holding host t (s.pc j) ∧
          ¬(q.holds = true ∧ (s.pc j).holds = true) ∧
          ¬((s.pc j).holds = true ∧ q.holds = true) := by
      intro t q free kept state
      refine ⟨kept, holding_of_not_holds free, fun j other => ⟨?_, ?_, ?_⟩⟩
      · rcases state with rfl | held
        · exact holds.each j
        · apply holding_of_not_holds
          cases other_holds : (s.pc j).holds with
          | false => rfl
          | true => exact absurd ⟨held, other_holds⟩ (holds.pair i j (Ne.symm other))
      · exact fun both => by rw [free] at both; cases both.1
      · exact fun both => by rw [free] at both; cases both.2
    cases here : s.pc i with
    | idle =>
      rw [here] at moved
      cases a with
      | logEvent e =>
        cases moved
        refine released _ _ ?_ holds.shared (.inl rfl)
        show Phase.holds (if _ then _ else _) = false
        split <;> rfl
      | acquire => cases moved
      | append => cases moved
      | fail => cases moved
    | opened e =>
      rw [here] at moved
      cases a with
      | logEvent e => cases moved
      | acquire =>
        simp only [next] at moved
        split at moved
        · cases moved
        · rename_i unlocked
          cases moved
          refine ⟨holds.shared, ⟨rfl, rfl⟩, fun j other => ?_⟩
          have free : (s.pc j).holds = false := by
            have known := holds.each j
            cases there : s.pc j with
            | idle => rfl
            | opened e => rfl
            | locked e prev =>
              rw [there] at known
              exact absurd known.1 unlocked
          refine ⟨holding_of_not_holds free, ?_, ?_⟩
          · exact fun both => by rw [free] at both; cases both.2
          · exact fun both => by rw [free] at both; cases both.1
      | append => cases moved
      | fail =>
        cases moved
        exact released _ _ rfl holds.shared (.inl rfl)
    | locked e prev =>
      rw [here] at moved mine
      have held : (s.pc i).holds = true := by rw [here]; rfl
      cases a with
      | logEvent e => cases moved
      | acquire => cases moved
      | append =>
        obtain ⟨-, rfl⟩ := mine
        simp only [next] at moved
        split at moved
        · cases moved
          exact released _ _ rfl holds.shared (.inr held)
        · rename_i c line written
          cases moved
          exact released _ _ rfl (holds.shared.append written false) (.inr held)
      | fail =>
        cases moved
        exact released _ _ rfl holds.shared (.inr held)

omit [LawfulFloats F] in
theorem checksums_eq {recs : List (Record Str (List Char))} {rs : List (Event F × List Char)}
    (logged : List.Forall₂ (Logged host) recs rs) :
    recs.map Record.hash = rs.map fun x => ofText x.2 := by
  induction logged with
  | nil => rfl
  | cons first _ ih => rw [List.map_cons, List.map_cons, first.checksum, ih]

def NotRecomputed (host : Host F) (reported : List (Event F × List Char)) (file : List Char) :
    Prop :=
  ∀ line ∈ lines file, ∀ r, readLine host line = some r → r.hash = digest host r.prev r.body →
    ∃ x ∈ reported, r.hash = ofText x.2

theorem valid_iff_ordered (free : CollisionFree host.sha256) {s : World ι F}
    (run : Reachable (step (next host)) init s) (rotate : Bool) :
    verifyChain host rotate s.shared.file = .valid s.shared.reported.length ↔
      ∀ x ∈ s.shared.reported, Ordered host (.dict x.1.metadata) = true := by
  obtain ⟨ls, h, written, file⟩ := (kept_throughout run).shared
  have whole : lines s.shared.file = ls := by rw [file, lines_fileOf written.line]
  rw [verifyChain_eq_valid]
  constructor
  · rintro ⟨recs, read, chained, -⟩
    rw [Records, whole] at read
    exact written.ordered free.injective read chained
  · intro ordered
    obtain ⟨recs, read, chained, -, logged⟩ := written.chained ordered
    refine ⟨recs, ?_, chained, logged.length_eq⟩
    rw [Records, whole]
    exact read

/-- The log is accepted with the count of its events exactly if the keys of their metadata are in
order; then it has the events, and of the files without new checksums those are accepted that have
a front of its records. -/
theorem log_exact (free : CollisionFree host.sha256) (s : World ι F)
    (run : Reachable (step (next host)) init s) (rotate : Bool) :
    (verifyChain host rotate s.shared.file = .valid s.shared.reported.length ↔
      ∀ x ∈ s.shared.reported, Ordered host (.dict x.1.metadata) = true) ∧
    ((∀ x ∈ s.shared.reported, Ordered host (.dict x.1.metadata) = true) →
      ∃ recs, Records host s.shared.file recs ∧ List.Forall₂ (Logged host) recs s.shared.reported ∧
        ∀ file, NotRecomputed host s.shared.reported file →
          ((∃ n, verifyChain host rotate file = .valid n) ↔
            ∃ recs', Records host file recs' ∧ recs' <+: recs)) := by
  refine ⟨valid_iff_ordered free run rotate, ?_⟩
  intro ordered
  obtain ⟨ls, h, written, file⟩ := (kept_throughout run).shared
  have whole : lines s.shared.file = ls := by rw [file, lines_fileOf written.line]
  obtain ⟨recs, read, chained, -, logged⟩ := written.chained ordered
  have records : Records host s.shared.file recs := by
    rw [Records, whole]
    exact read
  refine ⟨recs, records, logged, ?_⟩
  intro altered known
  constructor
  · rintro ⟨n, valid⟩
    obtain ⟨recs', read', chained', -⟩ := verifyChain_eq_valid.mp valid
    refine ⟨recs', read', prefix_of_hashes (separates free) chained
      (hashable_of_chained free records chained) chained'
      (hashable_of_chained free read' chained') ?_⟩
    intro r member
    have seen : some r ∈ (lines altered).map (readLine host) := read' ▸ List.mem_map_of_mem member
    obtain ⟨line, there, here⟩ := List.mem_map.mp seen
    obtain ⟨x, among, same⟩ := known line there r here (hash_eq chained' member)
    rw [checksums_eq logged, same]
    exact List.mem_map_of_mem (f := fun x : Event F × List Char => ofText x.2) among
  · rintro ⟨recs', read', front⟩
    exact ⟨_, verifyChain_eq_valid.mpr ⟨recs', read', chained.of_prefix front, rfl⟩⟩

end Runs

section Instances

def unary (t : List Char) : List Char := t.flatMap fun c => List.replicate c.toNat '0' ++ ['1']

theorem unary_injective {t u : List Char} (same : unary t = unary u) : t = u := by
  have first : ∀ (m n : Nat) (a b : List Char), List.replicate m '0' ++ '1' :: a =
      List.replicate n '0' ++ '1' :: b → m = n ∧ a = b := by
    intro m
    induction m with
    | zero =>
      intro n a b h
      cases n with
      | zero => exact ⟨rfl, (List.cons.inj h).2⟩
      | succ n => exact absurd (List.cons.inj h).1 (by decide)
    | succ m ih =>
      intro n a b h
      cases n with
      | zero => exact absurd (List.cons.inj h).1 (by decide)
      | succ n =>
        obtain ⟨equal, rest⟩ := ih n a b (List.cons.inj h).2
        exact ⟨congrArg (· + 1) equal, rest⟩
  induction t generalizing u with
  | nil =>
    cases u with
    | nil => rfl
    | cons d u => simp [unary] at same
  | cons c t ih =>
    cases u with
    | nil => simp [unary] at same
    | cons d u =>
      rw [unary, unary, List.flatMap_cons, List.flatMap_cons, List.append_assoc, List.append_assoc]
        at same
      obtain ⟨code, rest⟩ := first _ _ _ _ same
      rw [Char.toNat_inj.mp code, ih rest]

def unaryHost : Host Special where
  sha256 t := '1' :: unary t
  less
    | .inl m, .inl n => decide (m < n)
    | _, _ => false
  depth := 8

theorem unary_free : CollisionFree unaryHost.sha256 := by
  constructor
  case injective => exact fun t u same => unary_injective (List.cons.inj same).2
  case hexadecimal =>
    intro t c member
    left
    rcases List.mem_cons.mp member with rfl | member
    · rfl
    · obtain ⟨d, -, among⟩ := List.mem_flatMap.mp member
      rcases List.mem_append.mp among with zero | one
      · rw [List.eq_of_mem_replicate zero]
        rfl
      · rw [List.mem_singleton.mp one]
        rfl
  case nonzero => exact fun t same => absurd (List.cons.inj same).1 (by decide)

def unlogged : World (Fin 2) Special := ⟨⟨[], false, []⟩, fun _ => .idle⟩

def purged : Event Special := ⟨0, 7, [], name "PURGED", []⟩

theorem log_exact_purged : ∃ s : World (Fin 2) Special, s.shared.reported.length = 1 ∧
    verifyChain unaryHost false s.shared.file = .valid 1 := by
  have start : Reachable (step (next unaryHost)) init unlogged := .start ⟨rfl, fun _ => rfl⟩
  have opened := start.step (a := (0, Action.logEvent purged)) (by trivial) rfl
  have locked := opened.step (a := (0, Action.acquire)) (by trivial) rfl
  have appended := locked.step (a := (0, Action.append)) (by trivial) rfl
  exact ⟨_, rfl, (log_exact unary_free _ appended false).1.mpr (by decide)⟩

def numbered : Event Special :=
  ⟨0, 7, [], name "PURGED", [(.int 10, .int 0), (.int 9, .int 0)]⟩

/-- A log that was only appended to is refused, and one whose record was removed is accepted. -/
theorem log_inexact :
    (∃ s : World (Fin 2) Special, Reachable (step (next unaryHost)) init s ∧
      s.shared.reported.length = 1 ∧ verifyChain unaryHost false s.shared.file ≠ .valid 1) ∧
    ∃ s : World (Fin 2) Special, Reachable (step (next unaryHost)) init s ∧
      s.shared.reported.length = 1 ∧ NotRecomputed unaryHost s.shared.reported [] ∧
      verifyChain unaryHost false [] = .valid 0 := by
  have start : init unlogged := ⟨rfl, fun _ => rfl⟩
  constructor
  · have run : Reachable (step (next unaryHost)) init _ := reachable_of_run
      [(0, .logEvent numbered), (0, .acquire), (0, .append)] start rfl
    refine ⟨_, run, rfl, ?_⟩
    intro valid
    have ordered := (valid_iff_ordered unary_free run false).mp valid
    exact absurd (ordered _ List.mem_cons_self) (by decide)
  · have run : Reachable (step (next unaryHost)) init _ := reachable_of_run
      [(0, .logEvent purged), (0, .acquire), (0, .append)] start rfl
    exact ⟨_, run, rfl, fun _ member => absurd member List.not_mem_nil, rfl⟩

end Instances

end Plexichat.Auth.DeletionLog
