import Mathlib.Data.List.DropRight
import Mathlib.Data.List.TakeWhile
import Plexichat.Library.Text

/-! urlparse and urlunparse of urllib.parse. -/
namespace Url

abbrev Text := List Char

local instance lawfulText : LawfulBEq Text := inferInstance

structure Parts where
  scheme : Text
  netloc : Text
  path : Text
  params : Text
  query : Text
  fragment : Text
  deriving DecidableEq

structure Rules where
  accepts : Text → Bool
  empty : accepts [] = true

def isControl (c : Char) : Bool := c.toNat ≤ 32

def isRemoved (c : Char) : Bool := c == '\t' || c == '\r' || c == '\n'

def clean (t : Text) : Text := (t.dropWhile isControl).filter fun c => !isRemoved c

def isSchemeChar (c : Char) : Bool := c.isAlphanum || c == '+' || c == '-' || c == '.'

def splitScheme (t : Text) : Text × Text :=
  if (t.dropWhile isSchemeChar).head? = some ':' ∧ t.head?.any Char.isAlpha then
    ((t.takeWhile isSchemeChar).map Char.toLower, (t.dropWhile isSchemeChar).drop 1)
  else ([], t)

def isDelimiter (c : Char) : Bool := c == '/' || c == '?' || c == '#'

def splitNetloc (t : Text) : Text × Text :=
  if t.take 2 = ['/', '/'] then
    ((t.drop 2).takeWhile fun c => !isDelimiter c, (t.drop 2).dropWhile fun c => !isDelimiter c)
  else ([], t)

def partition (sep : Char) (t : Text) : Text × Text :=
  (t.takeWhile (· != sep), (t.dropWhile (· != sep)).drop 1)

def usesParams : List Text :=
  ["", "ftp", "hdl", "prospero", "http", "imap", "https", "shttp", "rtsp", "rtsps", "rtspu", "sip",
    "sips", "mms", "sftp", "tel"].map String.toList

def usesNetloc : List Text :=
  ["", "ftp", "http", "gopher", "nntp", "telnet", "imap", "wais", "file", "mms", "https", "shttp",
    "snews", "prospero", "rtsp", "rtsps", "rtspu", "rsync", "svn", "svn+ssh", "sftp", "nfs", "git",
    "git+ssh", "ws", "wss", "itms-services"].map String.toList

def segment (path : Text) : Text := path.rtakeWhile (· != '/')

def directory (path : Text) : Text := path.rdropWhile (· != '/')

def splitParams (scheme path : Text) : Text × Text :=
  if scheme ∈ usesParams ∧ ';' ∈ segment path then
    (directory path ++ (partition ';' (segment path)).1, (partition ';' (segment path)).2)
  else (path, [])

section Parse

variable (rules : Rules)

/-- None is ValueError. -/
def urlparse (url : Text) : Option Parts :=
  let (scheme, rest) := splitScheme (clean url)
  let (netloc, rest) := splitNetloc rest
  if rules.accepts netloc then
    let (rest, fragment) := partition '#' rest
    let (path, query) := partition '?' rest
    let (path, params) := splitParams scheme path
    some ⟨scheme, netloc, path, params, query, fragment⟩
  else none

def tail (query fragment : Text) : Text :=
  (if query = [] then [] else '?' :: query) ++ if fragment = [] then [] else '#' :: fragment

/-- An authority is written where there is one, and without one for some schemes. -/
def authority (p : Parts) : Option Text :=
  if p.netloc ≠ [] then some p.netloc
  else if p.scheme ≠ [] ∧ p.scheme ∈ usesNetloc ∧ (p.path = [] ∨ p.path.head? = some '/') then some []
  else none

def joined (path params : Text) : Text := path ++ if params = [] then [] else ';' :: params

def rooted (url : Text) : Text := if url ≠ [] ∧ url.head? ≠ some '/' then '/' :: url else url

def hierarchy (p : Parts) : Text :=
  let url := joined p.path p.params
  match authority p with
  | some netloc => ['/', '/'] ++ netloc ++ rooted url
  | none => if url.take 2 = ['/', '/'] then ['/', '/'] ++ url else url

def address (p : Parts) : Text :=
  (if p.scheme = [] then [] else p.scheme ++ [':']) ++ hierarchy p

def urlunparse (p : Parts) : Text := address p ++ tail p.query p.fragment

end Parse

def Bare (t : Text) : Prop := '?' ∉ t ∧ '#' ∉ t

section Tail

variable {rules : Rules} {t rest query fragment : Text}

structure Following (rest : Text) : Prop where
  front : rest.head?.all (fun c => c == '?' || c == '#') = true
  kept : ∀ c ∈ rest, isRemoved c = false

theorem dropWhile_following {p : Char → Bool} (stops : rest.dropWhile p = rest) (t : Text) :
    (t ++ rest).dropWhile p = t.dropWhile p ++ rest := by
  rw [List.dropWhile_append]
  split
  · rename_i empty
    rw [stops, List.isEmpty_iff.mp empty, List.nil_append]
  · rfl

theorem takeWhile_following {p : Char → Bool} (stops : rest.takeWhile p = []) (t : Text) :
    (t ++ rest).takeWhile p = t.takeWhile p := by
  rw [List.takeWhile_append]
  split
  · rename_i all
    have whole := (List.takeWhile_prefix p (l := t)).eq_of_length all
    rw [stops, whole, List.append_nil]
  · rfl

theorem Following.stops (following : Following rest) {p : Char → Bool} (query : p '?' = false)
    (fragment : p '#' = false) : rest.dropWhile p = rest ∧ rest.takeWhile p = [] := by
  have front := following.front
  cases rest with
  | nil => exact ⟨rfl, rfl⟩
  | cons c rest =>
    have stopped : p c = false := by
      rcases (by simpa using front : c = '?' ∨ c = '#') with rfl | rfl
      · exact query
      · exact fragment
    simp [stopped]

theorem Following.clean (following : Following rest) (t : Text) :
    clean (t ++ rest) = clean t ++ rest := by
  have all : rest.filter (fun c => !isRemoved c) = rest := by
    rw [List.filter_eq_self]
    intro c member
    rw [following.kept c member]
    rfl
  have front := (following.stops (p := isControl) (by decide) (by decide)).1
  rw [Url.clean, dropWhile_following front, List.filter_append, all]
  rfl

theorem Following.head_ne (following : Following rest) {c : Char} (other : c ≠ '?' ∧ c ≠ '#') :
    rest.head? ≠ some c := by
  have front := following.front
  intro first
  rw [first] at front
  simp [other] at front

theorem Following.splitScheme (following : Following rest) (t : Text) :
    splitScheme (t ++ rest) = ((splitScheme t).1, (splitScheme t).2 ++ rest) := by
  obtain ⟨dropped, taken⟩ := following.stops (p := isSchemeChar) (by decide) (by decide)
  have no_colon := following.head_ne (c := ':') (by decide)
  simp only [Url.splitScheme, dropWhile_following dropped, takeWhile_following taken]
  cases behind : t.dropWhile isSchemeChar with
  | nil => simp [no_colon]
  | cons c behind_rest =>
    have head : (t ++ rest).head? = t.head? := by
      cases t with
      | nil => simp at behind
      | cons d t => rfl
    rw [head]
    by_cases scheme : c = ':' ∧ t.head?.any Char.isAlpha = true
    · simp [scheme]
    · simp [scheme]

theorem Following.slashes (following : Following rest) (t : Text) :
    (t ++ rest).take 2 = ['/', '/'] ↔ t.take 2 = ['/', '/'] := by
  have no_slash := following.head_ne (c := '/') (by decide)
  match t with
  | [] => cases rest <;> simp_all
  | [c] => cases rest <;> simp_all
  | c :: d :: t => simp

theorem Following.splitNetloc (following : Following rest) (t : Text) :
    splitNetloc (t ++ rest) = ((splitNetloc t).1, (splitNetloc t).2 ++ rest) := by
  obtain ⟨dropped, taken⟩ := following.stops (p := fun c => !isDelimiter c) (by decide) (by decide)
  by_cases slashes : t.take 2 = ['/', '/']
  · have long : 2 ≤ t.length := by
      have := congrArg List.length slashes
      simp at this
      omega
    simp only [Url.splitNetloc, following.slashes, if_pos slashes, List.drop_append_of_le_length long,
      dropWhile_following dropped, takeWhile_following taken]
  · simp only [Url.splitNetloc, following.slashes, if_neg slashes]

theorem partition_of_not_mem {sep : Char} (none_there : sep ∉ t) : partition sep t = (t, []) := by
  have dropped := Text.dropWhile_ne none_there []
  have taken : t.takeWhile (· != sep) = t := by
    rw [List.takeWhile_eq_self_iff]
    intro c member
    have other : c ≠ sep := fun e => none_there (e ▸ member)
    simpa using other
  simp only [List.append_nil, List.dropWhile_nil] at dropped
  rw [partition, taken, dropped]
  rfl

theorem partition_append {sep : Char} (none_there : sep ∉ t) (rest : Text) :
    partition sep (t ++ sep :: rest) = (t, rest) := by
  rw [partition, Text.takeWhile_ne none_there, Text.dropWhile_ne none_there]
  simp

theorem mem_of_mem_clean {c : Char} (member : c ∈ clean t) : c ∈ t :=
  (List.dropWhile_suffix _).mem (List.mem_of_mem_filter member)

theorem splitScheme_suffix (t : Text) : (splitScheme t).2 <:+ t := by
  unfold splitScheme
  split
  · exact (List.drop_suffix 1 _).trans (List.dropWhile_suffix _)
  · exact List.suffix_refl t

theorem splitNetloc_suffix (t : Text) : (splitNetloc t).2 <:+ t := by
  unfold splitNetloc
  split
  · exact (List.dropWhile_suffix _).trans (List.drop_suffix 2 _)
  · exact List.suffix_refl t

def remainder (t : Text) : Text := (splitNetloc (splitScheme (clean t)).2).2

theorem mem_of_mem_remainder {c : Char} (member : c ∈ remainder t) : c ∈ t :=
  mem_of_mem_clean (((splitNetloc_suffix _).trans (splitScheme_suffix _)).mem member)

theorem following_tail (plain : ∀ c ∈ query ++ fragment, isRemoved c = false) :
    Following (tail query fragment) := by
  constructor
  · unfold tail
    split
    · split <;> rfl
    · rfl
  · intro c member
    unfold tail at member
    split at member <;> split at member
    all_goals
      simp only [List.append_nil, List.nil_append, List.mem_cons, List.mem_append,
        List.cons_append, List.not_mem_nil] at member
    · rcases member with rfl | member
      · rfl
      · exact plain c (List.mem_append_right _ member)
    · rcases member with rfl | member
      · rfl
      · exact plain c (List.mem_append_left _ member)
    · rcases member with rfl | member | rfl | member
      · rfl
      · exact plain c (List.mem_append_left _ member)
      · rfl
      · exact plain c (List.mem_append_right _ member)

theorem partition_query (apart : '?' ∉ t) (query : Text) :
    partition '?' (t ++ tail query []) = (t, query) := by
  by_cases empty : query = []
  · simp [tail, empty, partition_of_not_mem apart]
  · simp [tail, empty, partition_append apart]

theorem partition_fragment (apart : '#' ∉ t) (plain : '#' ∉ query) (fragment : Text) :
    partition '#' (t ++ tail query fragment) = (t ++ tail query [], fragment) := by
  have front : '#' ∉ t ++ tail query [] := by
    unfold tail
    split <;> simp [apart, plain]
  by_cases empty : fragment = []
  · rw [empty, partition_of_not_mem front]
  · have whole : t ++ tail query fragment = (t ++ tail query []) ++ '#' :: fragment := by
      simp [tail, empty]
    rw [whole, partition_append front]

theorem urlparse_tail (rules : Rules) (bare : Bare t) (plain : '#' ∉ query)
    (kept : ∀ c ∈ query ++ fragment, isRemoved c = false) :
    urlparse rules (t ++ tail query fragment) =
      (urlparse rules t).map fun p => { p with query := query, fragment := fragment } := by
  have following := following_tail kept
  have bare_rest : Bare (remainder t) :=
    ⟨fun member => bare.1 (mem_of_mem_remainder member),
      fun member => bare.2 (mem_of_mem_remainder member)⟩
  have fragments := partition_fragment bare_rest.2 plain fragment
  have queries := partition_query bare_rest.1 query
  rw [remainder] at fragments queries bare_rest
  simp only [urlparse, following.clean, following.splitScheme, following.splitNetloc, fragments,
    queries, partition_of_not_mem bare_rest.1, partition_of_not_mem bare_rest.2]
  split <;> rfl

end Tail

section Params

variable {u path params scheme : Text}

theorem directory_append_segment (u : Text) : directory u ++ segment u = u :=
  List.rdropWhile_append_rtakeWhile

theorem not_mem_segment (u : Text) : '/' ∉ segment u := by
  intro member
  simpa using List.mem_rtakeWhile_imp member

theorem segment_append {d s : Text} (ends : d.getLast?.all (· == '/') = true) (apart : '/' ∉ s) :
    segment (d ++ s) = s ∧ directory (d ++ s) = d := by
  have all : ∀ c ∈ s.reverse, (c != '/') = true := by
    intro c member
    have other : c ≠ '/' := fun e => apart (e ▸ List.mem_reverse.mp member)
    simpa using other
  have stops : d.reverse.takeWhile (· != '/') = [] ∧ d.reverse.dropWhile (· != '/') = d.reverse := by
    rw [← List.head?_reverse] at ends
    cases e : d.reverse with
    | nil => exact ⟨rfl, rfl⟩
    | cons c rest =>
      have slash : c = '/' := by simpa [e] using ends
      simp [slash]
  constructor
  · rw [segment, List.rtakeWhile, List.reverse_append, List.takeWhile_append_of_pos all, stops.1,
      List.append_nil, List.reverse_reverse]
  · rw [directory, List.rdropWhile, List.reverse_append, List.dropWhile_append_of_pos all, stops.2,
      List.reverse_reverse]

theorem directory_ends (u : Text) : (directory u).getLast?.all (· == '/') = true := by
  cases last : (directory u).getLast? with
  | none => rfl
  | some c =>
    have some_directory : directory u ≠ [] := by
      intro empty
      simp [empty] at last
    have slash := List.rdropWhile_last_not (· != '/') u some_directory
    rw [List.getLast?_eq_some_getLast some_directory] at last
    cases last
    simpa [directory] using slash

theorem partition_split {sep : Char} {t : Text} (there : sep ∈ t) :
    t = (partition sep t).1 ++ sep :: (partition sep t).2 ∧ sep ∉ (partition sep t).1 := by
  obtain ⟨before, after, rfl, first⟩ := List.eq_append_cons_of_mem there
  rw [partition_append first]
  exact ⟨rfl, first⟩

theorem splitParams_whole (splits : ';' ∈ segment u) :
    directory u ++ (partition ';' (segment u)).1 ++ ';' :: (partition ';' (segment u)).2 = u := by
  rw [List.append_assoc, ← (partition_split splits).1, directory_append_segment]

theorem splitParams_joined (split : splitParams scheme u = (path, params)) :
    splitParams scheme (joined path params) = (path, params) := by
  rw [splitParams] at split
  split at split
  · rename_i splits
    obtain ⟨whole, front⟩ := partition_split splits.2
    obtain ⟨rfl, rfl⟩ := Prod.mk.inj split
    unfold joined
    split
    · rename_i empty
      have apart : '/' ∉ (partition ';' (segment u)).1 := by
        intro member
        refine not_mem_segment u ?_
        rw [whole]
        exact List.mem_append_left _ member
      obtain ⟨again, -⟩ := segment_append (directory_ends u) apart
      rw [List.append_nil, splitParams, again, if_neg fun splits => front splits.2, empty]
    · rw [splitParams_whole splits.2, splitParams, if_pos splits]
  · rename_i whole
    obtain ⟨rfl, rfl⟩ := Prod.mk.inj split
    rw [joined, if_pos rfl, List.append_nil, splitParams, if_neg whole]

end Params

section Reparse

variable {rules : Rules} {p : Parts} {url : Text}

structure Parsed (p : Parts) : Prop where
  scheme : p.scheme ≠ [] → p.scheme.head?.any Char.isAlpha = true ∧
    (∀ c ∈ p.scheme, isSchemeChar c = true) ∧ p.scheme.map Char.toLower = p.scheme
  netloc : ∀ c ∈ p.netloc, isDelimiter c = false
  bare : Bare (joined p.path p.params)
  kept : ∀ c ∈ p.netloc ++ joined p.path p.params, isRemoved c = false
  absolute : p.netloc ≠ [] → rooted (joined p.path p.params) = joined p.path p.params
  split : splitParams p.scheme (joined p.path p.params) = (p.path, p.params)
  relative : p.scheme = [] → p.netloc = [] →
    splitScheme (joined p.path p.params) = ([], joined p.path p.params) ∧
      (joined p.path p.params).head?.all (fun c => !isControl c) = true

def settled (p : Parts) : Parts :=
  { p with path := if authority p = some [] ∧ p.path = [] ∧ p.params ≠ [] then ['/'] else p.path }

theorem schemeChar_facts : ∀ n : Fin 128, isSchemeChar (Char.ofNat n) = true →
    isControl (Char.ofNat n) = false ∧ isRemoved (Char.ofNat n) = false ∧
      isDelimiter (Char.ofNat n) = false := by
  decide

theorem toLower_facts : ∀ n : Fin 128, isSchemeChar (Char.ofNat n) = true →
    isSchemeChar (Char.ofNat n).toLower = true ∧
      (Char.ofNat n).toLower.toLower = (Char.ofNat n).toLower ∧
      ((Char.ofNat n).isAlpha = true → (Char.ofNat n).toLower.isAlpha = true) := by
  decide

theorem isSchemeChar_bound {c : Char} (allowed : isSchemeChar c = true) : c.toNat < 128 := by
  have last : c.toNat = c.val.toNat := rfl
  have upper : 'Z'.val.toNat = 90 := rfl
  have lower : 'z'.val.toNat = 122 := rfl
  have letter : isSchemeChar c = (decide ('A'.val ≤ c.val ∧ c.val ≤ 'Z'.val) ||
    (decide ('a'.val ≤ c.val) && decide (c.val ≤ 'z'.val)) || c.isDigit || c == '+' || c == '-' ||
    c == '.') := rfl
  simp only [letter, Bool.or_eq_true, Bool.and_eq_true, decide_eq_true_eq, beq_iff_eq,
    UInt32.le_iff_toNat_le] at allowed
  rcases allowed with (((((h | h) | h) | rfl) | rfl) | rfl)
  · omega
  · omega
  · have := Char.isDigit_iff_toNat.mp h
    have nine : '9'.toNat = 57 := rfl
    omega
  all_goals decide

theorem isSchemeChar_plain {c : Char} (allowed : isSchemeChar c = true) :
    isControl c = false ∧ isRemoved c = false ∧ isDelimiter c = false := by
  have facts := schemeChar_facts ⟨c.toNat, isSchemeChar_bound allowed⟩
  simp only [Char.ofNat_toNat] at facts
  exact facts allowed

theorem isSchemeChar_toLower {c : Char} (allowed : isSchemeChar c = true) :
    isSchemeChar c.toLower = true ∧ c.toLower.toLower = c.toLower ∧
      (c.isAlpha = true → c.toLower.isAlpha = true) := by
  have facts := toLower_facts ⟨c.toNat, isSchemeChar_bound allowed⟩
  simp only [Char.ofNat_toNat] at facts
  exact facts allowed

theorem splitScheme_parsed (t : Text) : (splitScheme t).1 ≠ [] →
    (splitScheme t).1.head?.any Char.isAlpha = true ∧
      (∀ c ∈ (splitScheme t).1, isSchemeChar c = true) ∧
      (splitScheme t).1.map Char.toLower = (splitScheme t).1 := by
  unfold splitScheme
  split
  · rename_i scheme
    intro some_scheme
    refine ⟨?_, ?_, ?_⟩
    · cases t with
      | nil => simp at some_scheme
      | cons c t =>
        have alpha : c.isAlpha = true := by simpa using scheme.2
        have first : isSchemeChar c = true := by simp [isSchemeChar, Char.isAlphanum, alpha]
        simp [first, (isSchemeChar_toLower first).2.2 alpha]
    · intro c member
      obtain ⟨d, taken, rfl⟩ := List.mem_map.mp member
      exact (isSchemeChar_toLower (List.mem_takeWhile_imp taken)).1
    · rw [List.map_map]
      apply List.map_congr_left
      intro c taken
      exact (isSchemeChar_toLower (List.mem_takeWhile_imp taken)).2.1
  · intro some_scheme
    exact absurd rfl some_scheme

theorem head_of_front {j t : Text} (front : j <+: t) (some_text : j ≠ []) : j.head? = t.head? := by
  obtain ⟨rest, rfl⟩ := front
  cases j with
  | nil => exact absurd rfl some_text
  | cons c j => rfl

theorem clean_head (t : Text) : (clean t).head?.all (fun c => !isControl c) = true := by
  have first := List.head?_dropWhile_not isControl t
  unfold clean
  cases e : t.dropWhile isControl with
  | nil => rfl
  | cons c rest =>
    have visible : isControl c = false := by simpa [e] using first
    have kept : isRemoved c = false := by
      by_contra removed
      simp only [isRemoved, Bool.not_eq_false, Bool.or_eq_true, beq_iff_eq] at removed
      rcases removed with (rfl | rfl) | rfl <;> exact absurd visible (by decide)
    simp [kept, visible]

theorem splitScheme_front {j t : Text} (front : j <+: t) (none_there : (splitScheme t).1 = []) :
    splitScheme j = ([], j) := by
  unfold splitScheme
  rw [if_neg]
  rintro ⟨colon, alpha⟩
  have some_text : j ≠ [] := by
    rintro rfl
    simp at alpha
  have head := head_of_front front some_text
  obtain ⟨rest, rfl⟩ := front
  have behind : ((j ++ rest).dropWhile isSchemeChar).head? = some ':' := by
    rw [List.dropWhile_append]
    split
    · rename_i empty
      simp [List.isEmpty_iff.mp empty] at colon
    · cases e : j.dropWhile isSchemeChar with
      | nil => simp [e] at colon
      | cons c more => simpa [e] using colon
  rw [splitScheme, if_pos ⟨behind, head ▸ alpha⟩] at none_there
  cases j with
  | nil => exact some_text rfl
  | cons c j =>
    have first : isSchemeChar c = true := by
      have letter : c.isAlpha = true := by simpa using alpha
      simp [isSchemeChar, Char.isAlphanum, letter]
    simp [first] at none_there

theorem joined_front {scheme u path params : Text} (split : splitParams scheme u = (path, params)) :
    joined path params <+: u := by
  rw [splitParams] at split
  split at split
  · rename_i splits
    have whole := splitParams_whole splits.2
    obtain ⟨rfl, rfl⟩ := Prod.mk.inj split
    unfold joined
    split
    · exact ⟨';' :: (partition ';' (segment u)).2, by rw [List.append_nil, whole]⟩
    · exact ⟨[], by rw [List.append_nil, whole]⟩
  · obtain ⟨rfl, rfl⟩ := Prod.mk.inj split
    exact ⟨[], by rw [joined, if_pos rfl, List.append_nil, List.append_nil]⟩

theorem slash_of_delimiter {j t : Text} (front : j <+: t) (bare : Bare j)
    (delimiter : t.head?.all isDelimiter = true) : j = [] ∨ j.head? = some '/' := by
  cases j with
  | nil => exact .inl rfl
  | cons c j =>
    rw [← head_of_front front (List.cons_ne_nil c j)] at delimiter
    simp only [List.head?_cons, Option.all_some, isDelimiter, Bool.or_eq_true,
      beq_iff_eq] at delimiter
    rcases delimiter with (rfl | rfl) | rfl
    · exact .inr rfl
    · exact absurd List.mem_cons_self bare.1
    · exact absurd List.mem_cons_self bare.2

theorem splitNetloc_facts (t : Text) : (∀ c ∈ (splitNetloc t).1, isDelimiter c = false ∧ c ∈ t) ∧
    ((splitNetloc t).2 = t ∧ (splitNetloc t).1 = [] ∨
      (splitNetloc t).2.head?.all isDelimiter = true) := by
  unfold splitNetloc
  split
  · refine ⟨fun c member => ⟨?_, ?_⟩, .inr ?_⟩
    · simpa using List.mem_takeWhile_imp member
    · exact List.mem_of_mem_drop ((List.takeWhile_prefix _).mem member)
    · have first := List.head?_dropWhile_not (fun c => !isDelimiter c) (t.drop 2)
      cases e : (t.drop 2).dropWhile fun c => !isDelimiter c with
      | nil => rfl
      | cons c rest => simpa [e] using first
  · exact ⟨by simp, .inl ⟨rfl, rfl⟩⟩

theorem rooted_of_slash {j : Text} (slash : j = [] ∨ j.head? = some '/') : rooted j = j := by
  rcases slash with rfl | slash
  · rfl
  · rw [rooted, if_neg fun other => other.2 slash]

theorem parsed_of_parts {t u path params : Text} (kept : ∀ c ∈ t, isRemoved c = false)
    (visible : t.head?.all (fun c => !isControl c) = true) (bare : Bare u)
    (front : u <+: (splitNetloc (splitScheme t).2).2)
    (split : splitParams (splitScheme t).1 u = (path, params)) (query fragment : Text) :
    Parsed ⟨(splitScheme t).1, (splitNetloc (splitScheme t).2).1, path, params, query, fragment⟩ := by
  obtain ⟨netloc, rest⟩ := splitNetloc_facts (splitScheme t).2
  have within : ∀ c ∈ (splitScheme t).2, c ∈ t := fun c member => (splitScheme_suffix t).mem member
  have shorter := joined_front split
  have joined_bare : Bare (joined path params) :=
    ⟨fun member => bare.1 (shorter.mem member), fun member => bare.2 (shorter.mem member)⟩
  constructor <;> dsimp only
  · exact splitScheme_parsed t
  · exact fun c member => (netloc c member).1
  · exact joined_bare
  · intro c member
    rcases List.mem_append.mp member with member | member
    · exact kept c (within c (netloc c member).2)
    · exact kept c (within c ((splitNetloc_suffix _).mem ((shorter.trans front).mem member)))
  · intro some_netloc
    rcases rest with ⟨-, none_there⟩ | delimiter
    · exact absurd none_there some_netloc
    · exact rooted_of_slash (slash_of_delimiter (shorter.trans front) joined_bare delimiter)
  · exact splitParams_joined split
  · intro no_scheme no_netloc
    rcases rest with ⟨same, -⟩ | delimiter
    · have all : (splitScheme t).2 = t := congrArg Prod.snd (splitScheme_front (List.prefix_refl t) no_scheme)
      rw [same, all] at front
      refine ⟨splitScheme_front (shorter.trans front) no_scheme, ?_⟩
      by_cases empty : joined path params = []
      · rw [empty]
        rfl
      · rw [head_of_front (shorter.trans front) empty]
        exact visible
    · rcases slash_of_delimiter (shorter.trans front) joined_bare delimiter with empty | slash
      · rw [empty]
        exact ⟨rfl, rfl⟩
      · obtain ⟨more, e⟩ : ∃ more, joined path params = '/' :: more := by
          cases e : joined path params with
          | nil => simp [e] at slash
          | cons c more => exact ⟨more, by simpa [e] using slash⟩
        rw [e]
        exact ⟨rfl, rfl⟩

theorem parsed_of_urlparse (read : urlparse rules url = some p) :
    Parsed p ∧ rules.accepts p.netloc = true := by
  have kept : ∀ c ∈ clean url, isRemoved c = false := by
    intro c member
    simpa using List.of_mem_filter member
  simp only [urlparse] at read
  split at read
  · rename_i accepted
    cases read
    refine ⟨parsed_of_parts kept (clean_head url) ?_ ?_ rfl _ _, accepted⟩
    · constructor
      · intro member
        simpa using List.mem_takeWhile_imp member
      · intro member
        simpa using List.mem_takeWhile_imp ((List.takeWhile_prefix _).mem member)
    · exact (List.takeWhile_prefix _).trans (List.takeWhile_prefix _)
  · cases read

theorem fragment_kept (read : urlparse rules url = some p) : ∀ c ∈ p.fragment, isRemoved c = false := by
  simp only [urlparse] at read
  split at read
  · cases read
    intro c member
    have within : c ∈ clean url := by
      refine (splitScheme_suffix _).mem ((splitNetloc_suffix _).mem ?_)
      exact (List.dropWhile_suffix _).mem (List.mem_of_mem_drop member)
    simpa using List.of_mem_filter within
  · cases read

def behind (p : Parts) : Text :=
  if (authority p).isSome then rooted (joined p.path p.params) else joined p.path p.params

theorem authority_netloc : (authority p).getD [] = p.netloc := by
  unfold authority
  split
  · rfl
  · rename_i empty
    split <;> simp_all

theorem authority_none (none_there : authority p = none) : p.netloc = [] := by
  rw [← authority_netloc, none_there]
  rfl

theorem splitParams_root {scheme params : Text} (some_params : params ≠ [])
    (split : splitParams scheme (joined [] params) = ([], params)) :
    splitParams scheme (rooted (joined [] params)) = (['/'], params) := by
  have text : joined [] params = ';' :: params := by
    rw [joined, if_neg some_params, List.nil_append]
  rw [text] at split ⊢
  have root : rooted (';' :: params) = '/' :: ';' :: params := by simp [rooted]
  rw [splitParams] at split
  split at split
  · rename_i splits
    have apart : '/' ∉ ';' :: params := by
      obtain ⟨front, -⟩ := Prod.mk.inj split
      have whole := directory_append_segment (';' :: params)
      rw [(List.append_eq_nil_iff.mp front).1, List.nil_append] at whole
      rw [← whole]
      exact not_mem_segment _
    obtain ⟨last, directory⟩ := segment_append (d := ['/']) rfl apart
    rw [root, ← List.singleton_append, splitParams, last, directory,
      if_pos ⟨splits.1, List.mem_cons_self⟩]
    rfl
  · simp at split

theorem splitParams_behind (parsed : Parsed p) :
    splitParams p.scheme (behind p) = ((settled p).path, p.params) := by
  have split := parsed.split
  unfold behind settled
  cases written : authority p with
  | none => simpa using split
  | some n =>
    have netloc : n = p.netloc := by
      rw [← authority_netloc, written]
      rfl
    dsimp only [Option.isSome_some]
    rw [if_pos rfl]
    split
    · rename_i missing
      rw [missing.2.1] at split ⊢
      exact splitParams_root missing.2.2 split
    · rename_i present
      have same : rooted (joined p.path p.params) = joined p.path p.params := by
        by_cases empty : p.netloc = []
        · apply rooted_of_slash
          simp only [authority, empty, ne_eq, not_true, if_false] at written
          split at written
          · rename_i hierarchical
            subst netloc
            cases path : p.path with
            | nil =>
              have no_params : p.params = [] := by
                by_contra some_params
                exact present ⟨by rw [empty], path, some_params⟩
              exact .inl (by rw [no_params]; rfl)
            | cons c rest =>
              have slash := hierarchical.2.2
              rw [path] at slash
              exact .inr (by simpa [joined] using slash)
          · cases written
        · exact parsed.absolute empty
      rw [same]
      exact split

theorem rooted_ends (j : Text) : rooted j = [] ∨ (rooted j).head? = some '/' := by
  unfold rooted
  split
  · exact .inr rfl
  · rename_i slash
    by_cases empty : j = []
    · exact .inl empty
    · exact .inr (by simpa [empty] using slash)

theorem splitNetloc_hierarchy (parsed : Parsed p) :
    splitNetloc (hierarchy p) = (p.netloc, behind p) := by
  have stops : ∀ j : Text, j = [] ∨ j.head? = some '/' →
      j.takeWhile (fun c => !isDelimiter c) = [] ∧ j.dropWhile (fun c => !isDelimiter c) = j := by
    intro j slash
    cases j with
    | nil => exact ⟨rfl, rfl⟩
    | cons c j =>
      have first : c = '/' := by simpa using slash
      simp [first, isDelimiter]
  have all : ∀ c ∈ p.netloc, (!isDelimiter c) = true := by
    intro c member
    simp [parsed.netloc c member]
  unfold hierarchy behind
  cases written : authority p with
  | some n =>
    have netloc : n = p.netloc := by
      rw [← authority_netloc, written]
      rfl
    obtain ⟨taken, dropped⟩ := stops _ (rooted_ends (joined p.path p.params))
    subst netloc
    simp [splitNetloc, List.takeWhile_append_of_pos all, List.dropWhile_append_of_pos all, taken,
      dropped]
  | none =>
    rw [authority_none written]
    dsimp only
    split
    · rename_i slashes
      have slash : (joined p.path p.params).head? = some '/' := by
        cases e : joined p.path p.params with
        | nil => simp [e] at slashes
        | cons c rest => simp [e] at slashes; simp [slashes.1]
      obtain ⟨taken, dropped⟩ := stops _ (.inr slash)
      simp [splitNetloc, taken, dropped]
    · rename_i other
      rw [splitNetloc, if_neg other]
      rfl

theorem mem_rooted {c : Char} {j : Text} (member : c ∈ rooted j) : c = '/' ∨ c ∈ j := by
  unfold rooted at member
  split at member
  · exact List.mem_cons.mp member
  · exact .inr member

theorem mem_hierarchy {c : Char} (member : c ∈ hierarchy p) :
    c = '/' ∨ c ∈ p.netloc ++ joined p.path p.params := by
  unfold hierarchy at member
  cases written : authority p with
  | some n =>
    have netloc : n = p.netloc := by
      rw [← authority_netloc, written]
      rfl
    subst netloc
    simp only [written, List.mem_append, List.mem_cons, List.not_mem_nil, or_false, or_self] at member
    rcases member with (slash | netloc) | rest
    · exact .inl slash
    · exact .inr (List.mem_append_left _ netloc)
    · exact (mem_rooted rest).imp_right (List.mem_append_right _)
  | none =>
    simp only [written] at member
    split at member
    · simp only [List.mem_append, List.mem_cons, List.not_mem_nil, or_false, or_self] at member
      exact member.imp_right (List.mem_append_right _)
    · exact .inr (List.mem_append_right _ member)

theorem mem_behind {c : Char} (member : c ∈ behind p) : c = '/' ∨ c ∈ joined p.path p.params := by
  unfold behind at member
  split at member
  · exact mem_rooted member
  · exact .inr member

theorem hierarchy_front (parsed : Parsed p) (no_scheme : p.scheme = []) :
    splitScheme (hierarchy p) = ([], hierarchy p) ∧
      (hierarchy p).head?.all (fun c => !isControl c) = true := by
  have slashes : ∀ t : Text, splitScheme ('/' :: t) = ([], '/' :: t) := fun t => rfl
  unfold hierarchy
  cases written : authority p with
  | some n => exact ⟨slashes _, rfl⟩
  | none =>
    dsimp only
    split
    · exact ⟨slashes _, rfl⟩
    · exact parsed.relative no_scheme (authority_none written)

theorem clean_of_visible {t : Text} (front : t.head?.all (fun c => !isControl c) = true)
    (kept : ∀ c ∈ t, isRemoved c = false) : clean t = t := by
  have stays : t.dropWhile isControl = t := by
    cases t with
    | nil => rfl
    | cons c t =>
      have visible : isControl c = false := by simpa using front
      simp [visible]
  rw [clean, stays, List.filter_eq_self]
  intro c member
  rw [kept c member]
  rfl

theorem address_facts (parsed : Parsed p) :
    clean (address p) = address p ∧ splitScheme (address p) = (p.scheme, hierarchy p) := by
  have hierarchy_kept : ∀ c ∈ hierarchy p, isRemoved c = false := by
    intro c member
    rcases mem_hierarchy member with rfl | within
    · rfl
    · exact parsed.kept c within
  unfold address
  by_cases no_scheme : p.scheme = []
  · obtain ⟨scheme, front⟩ := hierarchy_front parsed no_scheme
    rw [if_pos no_scheme, List.nil_append, no_scheme]
    exact ⟨clean_of_visible front hierarchy_kept, scheme⟩
  · obtain ⟨letter, allowed, lower⟩ := parsed.scheme no_scheme
    have colon : isSchemeChar ':' = false := by decide
    rw [if_neg no_scheme, List.append_assoc, List.singleton_append]
    constructor
    · apply clean_of_visible
      · cases e : p.scheme with
        | nil => exact absurd e no_scheme
        | cons c rest =>
          have first := isSchemeChar_plain (allowed c (e ▸ List.mem_cons_self))
          simp [first.1]
      · intro c member
        rcases List.mem_append.mp member with scheme | rest
        · exact (isSchemeChar_plain (allowed c scheme)).2.1
        · rcases List.mem_cons.mp rest with rfl | rest
          · rfl
          · exact hierarchy_kept c rest
    · have head : (p.scheme ++ ':' :: hierarchy p).head? = p.scheme.head? := by
        cases e : p.scheme with
        | nil => exact absurd e no_scheme
        | cons c rest => rfl
      have taken : (p.scheme ++ ':' :: hierarchy p).takeWhile isSchemeChar = p.scheme := by
        rw [List.takeWhile_append_of_pos allowed]
        simp [colon]
      have dropped : (p.scheme ++ ':' :: hierarchy p).dropWhile isSchemeChar = ':' :: hierarchy p := by
        rw [List.dropWhile_append_of_pos allowed]
        simp [colon]
      rw [splitScheme, head, taken, dropped, lower, if_pos ⟨rfl, letter⟩]
      rfl

theorem urlparse_address (parsed : Parsed p) (accepted : rules.accepts p.netloc = true) :
    urlparse rules (address p) = some { settled p with query := [], fragment := [] } := by
  obtain ⟨cleaned, scheme⟩ := address_facts parsed
  have bare : Bare (behind p) := by
    constructor
    · intro member
      rcases mem_behind member with other | member
      · cases other
      · exact parsed.bare.1 member
    · intro member
      rcases mem_behind member with other | member
      · cases other
      · exact parsed.bare.2 member
  simp only [urlparse, cleaned, scheme, splitNetloc_hierarchy parsed,
    partition_of_not_mem bare.1, partition_of_not_mem bare.2, splitParams_behind parsed]
  rw [if_pos accepted]
  rfl

theorem bare_address (parsed : Parsed p) : Bare (address p) := by
  have apart : ∀ c ∈ address p, c ≠ '?' ∧ c ≠ '#' := by
    intro c member
    rcases List.mem_append.mp member with scheme | rest
    · split at scheme
      · cases scheme
      · rename_i some_scheme
        rcases List.mem_append.mp scheme with scheme | colon
        · have plain := (isSchemeChar_plain ((parsed.scheme some_scheme).2.1 c scheme)).2.2
          simp only [isDelimiter, Bool.or_eq_false_iff, beq_eq_false_iff_ne] at plain
          exact ⟨plain.1.2, plain.2⟩
        · rw [List.mem_singleton.mp colon]
          decide
    · rcases mem_hierarchy rest with rfl | within
      · decide
      · rcases List.mem_append.mp within with netloc | path
        · have plain := parsed.netloc c netloc
          simp only [isDelimiter, Bool.or_eq_false_iff, beq_eq_false_iff_ne] at plain
          exact ⟨plain.1.2, plain.2⟩
        · exact ⟨fun e => parsed.bare.1 (e ▸ path), fun e => parsed.bare.2 (e ▸ path)⟩
  exact ⟨fun member => (apart _ member).1 rfl, fun member => (apart _ member).2 rfl⟩

theorem urlparse_urlunparse (parsed : Parsed p) (accepted : rules.accepts p.netloc = true)
    {query fragment : Text} (plain : '#' ∉ query) (kept : ∀ c ∈ query ++ fragment, isRemoved c = false) :
    urlparse rules (urlunparse { p with query := query, fragment := fragment }) =
      some { settled p with query := query, fragment := fragment } := by
  have text : urlunparse { p with query := query, fragment := fragment } =
      address p ++ tail query fragment := rfl
  rw [text, urlparse_tail rules (bare_address parsed) plain kept, urlparse_address parsed accepted]
  rfl

end Reparse

end Url
