import Mathlib.Data.List.DropRight
import Mathlib.Data.List.Infix
import Plexichat.Automod.Reputation
import Plexichat.Library.Numeral
import Plexichat.Library.Url

/-! automod/rules/links.py: the rule that filters external links by a list of domains. -/
namespace Plexichat.Automod.Links

open Numeral

section Code

inductive RuleType where
  | keyword | regex | mentionSpam | messageSpam | inviteLinks | massEmoji | capsPercentage
  | repeatedChars | externalLinks | aiModeration
  deriving DecidableEq

structure Config where
  mode : Option String
  whitelist : Option (List (List Char))
  blacklist : Option (List (List Char))
  blockAll : Option Bool

structure Rule where
  id : Nat
  ruleType : RuleType
  config : Config

structure Details where
  blockedUrls : List (List Char)
  blockedDomains : List (List Char)
  count : Nat
  mode : String
  deriving DecidableEq

structure RuleMatch where
  ruleId : Nat
  ruleType : RuleType
  matched : Bool
  matchedContent : Option (List Char)
  matchDetails : Option Details
  severity : Severity
  deriving DecidableEq

/-- A letter of `host.lower()`; but for these two, what is not ASCII stays so. -/
def lowerLetter (c : Char) : List Char :=
  if c = '\u212a' then ['k'] else if c = 'İ' then ['i', '\u0307'] else [c.toLower]

def lower (t : List Char) : List Char := t.flatMap lowerLetter

/-- `removesuffix(".")` -/
def withoutDot (t : List Char) : List Char := if t.getLast? = some '.' then t.dropLast else t

def normalizeListedDomain (entry : List Char) : List Char := withoutDot (lower (strip entry))

structure ExternalLinkRule where
  rule : Rule
  mode : String
  whitelist : List (List Char)
  blacklist : List (List Char)
  blockAll : Bool

def ExternalLinkRule.init (rule : Rule) : ExternalLinkRule where
  rule := rule
  mode := rule.config.mode.getD "blacklist"
  whitelist := (rule.config.whitelist.getD []).map normalizeListedDomain
  blacklist := (rule.config.blacklist.getD []).map normalizeListedDomain
  blockAll := rule.config.blockAll.getD false

/-- `re.split(r"\s+", text)`; none stands for white space that is being passed. -/
def tokens : Option (List Char) → List Char → List (List Char)
  | run, [] => [run.getD []]
  | run, c :: t =>
    if isSpace c then
      match run with
      | none => tokens none t
      | some w => w :: tokens none t
    else tokens (some (run.getD [] ++ [c])) t

def isEdge (c : Char) : Bool :=
  ['"', '\'', '(', ')', '[', ']', '{', '}', '<', '>', ',', ';', ':', '!', '?', '.'].any (· == c)

/-- Where `^[a-zA-Z][a-zA-Z0-9+.\-]*:(?://)?` ends. -/
def schemePrefix : List Char → Option Nat
  | [] => none
  | c :: t =>
    if c.isAlpha then
      let n := (t.takeWhile Url.isSchemeChar).length
      match t.drop n with
      | ':' :: '/' :: '/' :: _ => some (n + 4)
      | ':' :: _ => some (n + 2)
      | _ => none
    else none

/-- The characters but the decimal digits on which `str.isdigit` is true. -/
def otherDigits : List (Nat × Nat) :=
  [(0xb2, 0xb3), (0xb9, 0xb9), (0x1369, 0x1371), (0x19da, 0x19da), (0x2070, 0x2070),
    (0x2074, 0x2079), (0x2080, 0x2089), (0x2460, 0x2468), (0x2474, 0x247c), (0x2488, 0x2490),
    (0x24ea, 0x24ea), (0x24f5, 0x24fd), (0x24ff, 0x24ff), (0x2776, 0x277e), (0x2780, 0x2788),
    (0x278a, 0x2792), (0x10a40, 0x10a43), (0x10e60, 0x10e68), (0x11052, 0x1105a),
    (0x1f100, 0x1f10a)]

def isDigit (c : Char) : Bool :=
  (decimal c).isSome || otherDigits.any fun r => decide (r.1 ≤ c.toNat ∧ c.toNat ≤ r.2)

/-- The text behind the scheme or the two slashes, and whether there are any. A name with a dot and
a digit behind the colon is a host with its port. -/
def behindScheme (candidate : List Char) : List Char × Bool :=
  match schemePrefix candidate with
  | some n =>
    let remainder := candidate.drop n
    let isAuthority := ['/', '/'].isSuffixOf (candidate.take n)
    if !isAuthority && (candidate.take (n - 1)).contains '.' && remainder.head?.any isDigit then
      (candidate, false)
    else (remainder, true)
  | none =>
    if ['/', '/'].isPrefixOf candidate then (candidate.drop 2, true) else (candidate, false)

def hostPart (candidate : List Char) : List Char :=
  let host := candidate.takeWhile (· != '/')
  let host := (host.takeWhile (· != '?')).takeWhile (· != '#')
  let host := (host.rtakeWhile (· != '@')).takeWhile (· != ':')
  withoutDot (lower host)

def withoutWww (host : List Char) : List Char :=
  if ['w', 'w', 'w', '.'].isPrefixOf host then host.drop 4 else host

/-- `[A-Za-z0-9](?:[A-Za-z0-9_-]*[A-Za-z0-9])?` -/
def isLabel (t : List Char) : Bool :=
  t.head?.any Char.isAlphanum && t.getLast?.any Char.isAlphanum &&
    t.all fun c => c.isAlphanum || c == '_' || c == '-'

/-- `_BARE_HOST` -/
def isBareHost (host : List Char) : Bool :=
  decide (2 ≤ (host.splitOn '.').length) && (host.splitOn '.').all isLabel

/-- `^\d{1,3}(?:\.\d{1,3}){3}$` -/
def isIpv4 (host : List Char) : Bool :=
  decide ((host.splitOn '.').length = 4) && (host.splitOn '.').all fun part =>
    decide (1 ≤ part.length ∧ part.length ≤ 3) && part.all fun c => (decimal c).isSome

/-- `isalpha` of the last label; a host that got so far has no letters but those of ASCII. -/
def hasTld (host : List Char) : Bool :=
  let tld := host.rtakeWhile (· != '.')
  decide (2 ≤ tld.length) && tld.all Char.isAlpha

/-- The host that a token names, as the rule reads it; it may still begin with `www.`. -/
def observed (token : List Char) : Option (List Char × Bool) :=
  let candidate := trim isEdge token
  if candidate = [] then none
  else
    let (rest, hasScheme) := behindScheme candidate
    if hostPart rest = [] then none else some (hostPart rest, hasScheme)

def isLink (host : List Char) (hasScheme : Bool) : Bool :=
  (isBareHost host || (hasScheme && isIpv4 host)) && (hasTld host || isIpv4 host)

def extractHost (token : List Char) : Option (List Char) :=
  (observed token).bind fun (host, hasScheme) =>
    if isLink (withoutWww host) hasScheme then some (withoutWww host) else none

def join (parts : List (List Char)) : List Char := ['.'].intercalate parts

def domainInList (domain : List Char) (domainList : List (List Char)) : Bool :=
  domainList.contains domain ||
    (List.range (domain.splitOn '.').length).any fun i =>
      decide (1 ≤ i) && domainList.contains (join ((domain.splitOn '.').drop i))

structure Scan where
  urls : List (List Char)
  domains : List (List Char)
  seenHosts : List (List Char)

def Scan.token (s : Scan) (token : List Char) : Scan :=
  match extractHost token with
  | none => s
  | some host =>
    if host = [] ∨ s.seenHosts.any (· = host) then s
    else ⟨s.urls ++ [trim isEdge token], s.domains ++ [host], s.seenHosts ++ [host]⟩

namespace ExternalLinkRule

variable (r : ExternalLinkRule)

def createMatch (matched : Bool) (matchedContent : Option (List Char)) (details : Option Details) :
    RuleMatch where
  ruleId := r.rule.id
  ruleType := r.rule.ruleType
  matched := matched
  matchedContent := matchedContent
  matchDetails := details
  severity := .medium

def blocks (domain : List Char) : Bool :=
  r.blockAll ||
    if r.mode = "whitelist" then !domainInList domain r.whitelist
    else domainInList domain r.blacklist

def check (content : List Char) : RuleMatch :=
  let scan := (tokens (some []) content).foldl Scan.token ⟨[], [], []⟩
  let blocked := (scan.urls.zip scan.domains).filter fun link => r.blocks link.2
  if blocked = [] then r.createMatch false none none
  else
    r.createMatch true (some ([',', ' '].intercalate ((blocked.map Prod.snd).take 5)))
      (some
        { blockedUrls := blocked.map Prod.fst
          blockedDomains := blocked.map Prod.snd
          count := blocked.length
          mode := r.mode })

end ExternalLinkRule

end Code

section Domains

def Within (name d : List Char) : Prop := name = d ∨ ∃ p, name = p ++ '.' :: d

theorem join_append {a b : List (List Char)} (front : a ≠ []) (back : b ≠ []) :
    join (a ++ b) = join a ++ '.' :: join b := by
  induction a with
  | nil => exact absurd rfl front
  | cons x a ih =>
    cases a with
    | nil =>
      cases b with
      | nil => exact absurd rfl back
      | cons y b => simp [join, List.intercalate]
    | cons y a =>
      have rest := ih (List.cons_ne_nil y a)
      simp only [join, List.intercalate, List.cons_append, List.intersperse_cons_cons,
        List.flatten_cons] at rest ⊢
      rw [rest]
      simp

theorem join_splitOn (t : List Char) : join (t.splitOn '.') = t := List.intercalate_splitOn '.'

theorem exists_parent_iff (domain d : List Char) :
    (∃ i < (domain.splitOn '.').length, 1 ≤ i ∧ join ((domain.splitOn '.').drop i) = d) ↔
      ∃ p, domain = p ++ '.' :: d := by
  constructor
  · rintro ⟨i, inside, behind, rfl⟩
    refine ⟨join ((domain.splitOn '.').take i), ?_⟩
    rw [← join_append, List.take_append_drop, join_splitOn]
    · simpa using And.intro (Nat.ne_of_gt behind) (List.splitOn_ne_nil '.' domain)
    · simpa using inside
  · rintro ⟨p, rfl⟩
    have some_part := List.length_pos_of_ne_nil (List.splitOn_ne_nil '.' d)
    have some_before := List.length_pos_of_ne_nil (List.splitOn_ne_nil '.' p)
    rw [List.splitOn_append_cons_self, List.length_append]
    refine ⟨(p.splitOn '.').length, by omega, some_before, ?_⟩
    rw [List.drop_left, join_splitOn]

theorem domainInList_iff (domain : List Char) (domainList : List (List Char)) :
    domainInList domain domainList = true ↔ ∃ d ∈ domainList, Within domain d := by
  rw [domainInList, Bool.or_eq_true, List.contains_iff_mem, List.any_eq_true]
  constructor
  · rintro (listed | ⟨i, member, parent⟩)
    · exact ⟨domain, listed, .inl rfl⟩
    · rw [Bool.and_eq_true, decide_eq_true_iff, List.contains_iff_mem] at parent
      have behind := (exists_parent_iff domain _).mp ⟨i, List.mem_range.mp member, parent.1, rfl⟩
      exact ⟨_, parent.2, .inr behind⟩
  · rintro ⟨d, listed, rfl | behind⟩
    · exact .inl listed
    · obtain ⟨i, inside, later, rfl⟩ := (exists_parent_iff domain d).mpr behind
      refine .inr ⟨i, List.mem_range.mpr inside, ?_⟩
      rw [Bool.and_eq_true, decide_eq_true_iff, List.contains_iff_mem]
      exact ⟨later, listed⟩

theorem within_withoutWww {name d : List Char} (within : Within name d)
    (other : ¬(name = d ∧ ['w', 'w', 'w', '.'] <+: d)) : Within (withoutWww name) d := by
  rw [withoutWww]
  split
  · rename_i front
    obtain ⟨rest, rfl⟩ := List.isPrefixOf_iff_prefix.mp front
    rcases within with rfl | ⟨p, split⟩
    · exact absurd ⟨rfl, List.prefix_append _ rest⟩ other
    · show Within rest d
      rcases p with _ | ⟨a, _ | ⟨b, _ | ⟨c, _ | ⟨e, p⟩⟩⟩⟩
      · exact absurd (List.cons.inj split).1 (by decide)
      · exact absurd (List.cons.inj (List.cons.inj split).2).1 (by decide)
      · exact absurd (List.cons.inj (List.cons.inj (List.cons.inj split).2).2).1 (by decide)
      · exact .inl (by simp_all)
      · exact .inr ⟨p, by simp_all⟩
  · exact within

end Domains

section Tokens

variable {a b t w : List Char}

theorem tokens_visible {c : Char} (visible : isSpace c = false) (run : Option (List Char)) :
    tokens run (c :: t) = tokens (some (run.getD [] ++ [c])) t := by
  cases run with
  | none => rw [tokens, visible, if_neg Bool.false_ne_true]
  | some w => rw [tokens, visible, if_neg Bool.false_ne_true]

theorem tokens_space {c : Char} (space : isSpace c = true) (run : Option (List Char)) :
    tokens run (c :: t) = run.toList ++ tokens none t := by
  cases run with
  | none => rw [tokens, if_pos space, Option.toList_none, List.nil_append]
  | some w => rw [tokens, if_pos space, Option.toList_some, List.singleton_append]

theorem mem_tokens_run (visible : ∀ c ∈ w, isSpace c = false) (run : List Char)
    (ends : ∀ c ∈ b.head?, isSpace c = true) : run ++ w ∈ tokens (some run) (w ++ b) := by
  induction w generalizing run with
  | nil =>
    rw [List.append_nil, List.nil_append]
    cases b with
    | nil => exact List.mem_singleton.mpr rfl
    | cons c b =>
      rw [tokens_space (ends c rfl)]
      exact List.mem_cons_self
  | cons c w ih =>
    rw [List.cons_append, tokens_visible (visible c List.mem_cons_self)]
    have rest := ih (fun d member => visible d (List.mem_cons_of_mem c member)) (run ++ [c])
    simpa using rest

theorem mem_tokens_front (some_char : w ≠ []) (visible : ∀ c ∈ w, isSpace c = false)
    (ends : ∀ c ∈ b.head?, isSpace c = true) {run : Option (List Char)}
    (fresh : run.getD [] = []) : w ∈ tokens run (w ++ b) := by
  cases w with
  | nil => exact absurd rfl some_char
  | cons c w =>
    rw [List.cons_append, tokens_visible (visible c List.mem_cons_self), fresh]
    exact mem_tokens_run (fun d member => visible d (List.mem_cons_of_mem c member)) [c] ends

theorem mem_tokens_behind (some_char : a ≠ []) (space : ∀ c ∈ a.getLast?, isSpace c = true)
    (inside : w ∈ tokens none t) (run : Option (List Char)) : w ∈ tokens run (a ++ t) := by
  induction a generalizing run with
  | nil => exact absurd rfl some_char
  | cons c a ih =>
    rw [List.cons_append]
    cases a with
    | nil =>
      rw [tokens_space (space c rfl)]
      exact List.mem_append_right _ inside
    | cons d a =>
      have rest := ih (List.cons_ne_nil d a) space
      cases here : isSpace c with
      | true =>
        rw [tokens_space here]
        exact List.mem_append_right _ (rest none)
      | false =>
        rw [tokens_visible here]
        exact rest _

theorem mem_tokens (some_char : w ≠ []) (visible : ∀ c ∈ w, isSpace c = false)
    (begins : ∀ c ∈ a.getLast?, isSpace c = true) (ends : ∀ c ∈ b.head?, isSpace c = true) :
    w ∈ tokens (some []) (a ++ (w ++ b)) := by
  by_cases front : a = []
  · rw [front]
    exact mem_tokens_front some_char visible ends rfl
  · exact mem_tokens_behind front begins (mem_tokens_front some_char visible ends rfl) _

end Tokens

section Check

structure Scan.Holds (s : Scan) (named : List Char → Prop) : Prop where
  paired : s.urls.length = s.domains.length
  domains : ∀ host, host ∈ s.domains ↔ named host
  seen : ∀ host, host ∈ s.seenHosts ↔ named host

theorem extractHost_ne_nil {token : List Char} : extractHost token ≠ some [] := by
  intro empty
  obtain ⟨⟨host, hasScheme⟩, _, link⟩ := Option.bind_eq_some_iff.mp empty
  dsimp only at link
  split at link
  · rename_i accepted
    rw [Option.some.inj link] at accepted
    revert accepted
    cases hasScheme <;> decide
  · cases link

theorem Scan.Holds.token {s : Scan} {named : List Char → Prop} (holds : s.Holds named)
    (token : List Char) :
    (s.token token).Holds fun host => named host ∨ extractHost token = some host := by
  rw [Scan.token]
  cases found : extractHost token with
  | none => simpa using holds
  | some host =>
    have some_char : host ≠ [] := by
      rintro rfl
      exact extractHost_ne_nil found
    dsimp only
    split
    · rename_i known
      obtain ⟨_, listed, same⟩ := List.any_eq_true.mp (known.resolve_left some_char)
      have before := (holds.seen host).mp (of_decide_eq_true same ▸ listed)
      have same : ∀ h, named h ↔ named h ∨ some host = some h := by
        intro h
        constructor
        · exact .inl
        · rintro (old | new)
          · exact old
          · exact Option.some.inj new ▸ before
      exact ⟨holds.paired, fun h => (holds.domains h).trans (same h),
        fun h => (holds.seen h).trans (same h)⟩
    · refine ⟨by simp [holds.paired], fun h => ?_, fun h => ?_⟩
      · rw [List.mem_append, holds.domains, List.mem_singleton, Option.some.injEq, eq_comm]
      · rw [List.mem_append, holds.seen, List.mem_singleton, Option.some.injEq, eq_comm]

theorem Scan.Holds.foldl {s : Scan} {named : List Char → Prop} (holds : s.Holds named)
    (l : List (List Char)) : (l.foldl Scan.token s).Holds fun host =>
      named host ∨ ∃ token ∈ l, extractHost token = some host := by
  induction l generalizing s named with
  | nil => simpa using holds
  | cons token l ih =>
    have whole := ih (holds.token token)
    simpa only [List.foldl_cons, List.mem_cons, exists_eq_or_imp, or_assoc] using whole

theorem check_matched_iff (r : ExternalLinkRule) (content : List Char) :
    (r.check content).matched = true ↔ ∃ token ∈ tokens (some []) content, ∃ host,
      extractHost token = some host ∧ r.blocks host = true := by
  have start : (⟨[], [], []⟩ : Scan).Holds fun _ => False := ⟨rfl, by simp, by simp⟩
  have holds := start.foldl (tokens (some []) content)
  rw [ExternalLinkRule.check]
  generalize (tokens (some []) content).foldl Scan.token ⟨[], [], []⟩ = scan at holds
  have pairs : (scan.urls.zip scan.domains).map Prod.snd = scan.domains :=
    List.map_snd_zip (Nat.le_of_eq holds.paired.symm)
  have named : ∀ host, host ∈ scan.domains ↔
      ∃ token ∈ tokens (some []) content, extractHost token = some host := by
    simpa using holds.domains
  constructor
  · split
    · intro no
      cases no
    · rename_i some_blocked
      intro _
      obtain ⟨link, member⟩ := List.exists_mem_of_ne_nil _ some_blocked
      obtain ⟨inside, blocked⟩ := List.mem_filter.mp member
      have listed : link.2 ∈ scan.domains := pairs ▸ List.mem_map_of_mem inside
      obtain ⟨token, there, found⟩ := (named _).mp listed
      exact ⟨token, there, link.2, found, blocked⟩
  · rintro ⟨token, there, host, found, blocked⟩
    have listed := (named host).mpr ⟨token, there, found⟩
    rw [← pairs] at listed
    obtain ⟨link, inside, rfl⟩ := List.mem_map.mp listed
    rw [if_neg]
    · rfl
    · exact List.ne_nil_of_mem (List.mem_filter.mpr ⟨inside, blocked⟩)

end Check

section Names

variable {c : Char} {d name t : List Char}

def isNameChar (c : Char) : Bool := c.isAlphanum || c == '-' || c == '_' || c == '.'

/-- What the filter needs of a name of ASCII; it is in lower case, and ends in no dot. -/
structure IsName (name : List Char) : Prop where
  some_char : name ≠ []
  letters : ∀ c ∈ name, isNameChar c = true
  last : name.getLast? ≠ some '.'

def Spells (t name : List Char) : Prop :=
  t.map Char.toLower = name ∨ t.map Char.toLower = name ++ ['.']

theorem isNameChar_of_toLower (named : isNameChar c.toLower = true) : isNameChar c = true := by
  by_cases upper : c.isUpper = true
  · have letter : c.isAlpha = true := Bool.or_eq_true_iff.mpr (.inl upper)
    simp [isNameChar, Char.isAlphanum, letter]
  · have same : c.toLower = c := dif_neg fun inside => upper (decide_eq_true inside)
    rwa [same] at named

theorem isNameChar_facts : ∀ n : Fin 128, isNameChar (Char.ofNat n) = true →
    isSpace (Char.ofNat n) = false ∧ lowerLetter (Char.ofNat n) = [(Char.ofNat n).toLower] ∧
      ((Char.ofNat n).toLower = '.' → Char.ofNat n = '.') ∧
      (Char.ofNat n ≠ '.' → isEdge (Char.ofNat n) = false) := by
  decide +kernel

theorem isNameChar_plain (named : isNameChar c = true) : isSpace c = false ∧
    lowerLetter c = [c.toLower] ∧ (c.toLower = '.' → c = '.') ∧ (c ≠ '.' → isEdge c = false) := by
  have bound : c.toNat < 128 := by
    by_cases low : c = '_'
    · rw [low]
      decide
    · refine Url.isSchemeChar_bound ?_
      simp only [isNameChar, Bool.or_eq_true, beq_iff_eq, low, or_false] at named
      rcases named with (letter | rfl) | rfl
      · rw [Url.isSchemeChar, letter]
        rfl
      · rfl
      · rfl
  have facts := isNameChar_facts ⟨c.toNat, bound⟩
  simp only [Char.ofNat_toNat] at facts
  exact facts named

theorem lower_of_letters (letters : ∀ c ∈ t, isNameChar c = true) :
    lower t = t.map Char.toLower := by
  induction t with
  | nil => rfl
  | cons c t ih =>
    rw [lower, List.flatMap_cons, (isNameChar_plain (letters c List.mem_cons_self)).2.1, ← lower,
      ih fun d member => letters d (List.mem_cons_of_mem c member)]
    rfl

theorem IsName.withoutDot_eq (isName : IsName name) : withoutDot name = name :=
  if_neg isName.last

theorem withoutDot_concat (t : List Char) : withoutDot (t ++ ['.']) = t := by
  rw [withoutDot, if_pos List.getLast?_concat, List.dropLast_concat]

theorem Spells.split (spells : Spells t name) (isName : IsName name) :
    ∃ core dot, t = core ++ dot ∧ (dot = [] ∨ dot = ['.']) ∧ core.map Char.toLower = name ∧
      ∀ c ∈ core, isNameChar c = true := by
  have letters : ∀ core : List Char, core.map Char.toLower = name → ∀ c ∈ core, isNameChar c = true := by
    rintro core rfl c member
    exact isNameChar_of_toLower (isName.letters _ (List.mem_map_of_mem member))
  rcases spells with same | dotted
  · exact ⟨t, [], (List.append_nil t).symm, .inl rfl, same, letters t same⟩
  · obtain ⟨core, dot, rfl, same, single⟩ := List.map_eq_append_iff.mp dotted
    obtain ⟨c, rfl, lowered⟩ := List.map_eq_singleton_iff.mp single
    have named : isNameChar c = true := isNameChar_of_toLower (by rw [lowered]; rfl)
    exact ⟨core, [c], rfl, .inr (by rw [(isNameChar_plain named).2.2.1 lowered]), same,
      letters core same⟩

theorem normalizeListedDomain_of_spells (spells : Spells (strip t) d) (isName : IsName d) :
    normalizeListedDomain t = d := by
  obtain ⟨core, dot, split, end_dot, same, letters⟩ := spells.split isName
  rw [normalizeListedDomain, split]
  rcases end_dot with rfl | rfl
  · rw [List.append_nil, lower_of_letters letters, same, isName.withoutDot_eq]
  · rw [lower, List.flatMap_append, ← lower, lower_of_letters letters, same]
    exact withoutDot_concat d

end Names

section Urls

variable {c : Char} {back front host name rest t u z : List Char}

/-- `scheme://[userinfo@]host[:port][/path]` -/
structure Written where
  scheme : List Char
  userinfo : Option (List Char)
  host : List Char
  port : Option (List Char)
  path : List Char
  scheme_letters : ∃ c t, scheme = c :: t ∧ c.isAlpha = true ∧ ∀ d ∈ t, Url.isSchemeChar d = true
  userinfo_plain : ∀ u ∈ userinfo, ∀ c ∈ u, isSpace c = false ∧ Url.isDelimiter c = false
  port_digits : ∀ p ∈ port, ∀ c ∈ p, c.isDigit = true
  path_slash : path = [] ∨ path.head? = some '/'
  path_visible : ∀ c ∈ path, isSpace c = false

namespace Written

variable (url : Written)

def userText : List Char := url.userinfo.elim [] (· ++ ['@'])

def portText : List Char := url.port.elim [] (':' :: ·)

def text : List Char :=
  url.scheme ++ ([':', '/', '/'] ++ (url.userText ++ (url.host ++ (url.portText ++ url.path))))

end Written

def authority (t : List Char) : List Char :=
  ((t.takeWhile (· != '/')).takeWhile (· != '?')).takeWhile (· != '#')

theorem authority_append (plain : ∀ c ∈ t, Url.isDelimiter c = false) (rest : List Char) :
    authority (t ++ rest) = t ++ authority rest := by
  have apart : ∀ c ∈ t, (c != '/') = true ∧ (c != '?') = true ∧ (c != '#') = true := by
    intro c member
    have other := plain c member
    simp only [Url.isDelimiter, Bool.or_eq_false_iff] at other
    simp [bne, other]
  rw [authority, List.takeWhile_append_of_pos fun c member => (apart c member).1,
    List.takeWhile_append_of_pos fun c member => (apart c member).2.1,
    List.takeWhile_append_of_pos fun c member => (apart c member).2.2]
  rfl

theorem prefix_takeWhile {p : Char → Bool} (front : t <+: u) : t.takeWhile p <+: u.takeWhile p := by
  obtain ⟨rest, rfl⟩ := front
  rw [List.takeWhile_append]
  split
  · rename_i whole
    rw [(List.takeWhile_prefix p).eq_of_length whole]
    exact List.prefix_append t _
  · exact List.prefix_rfl

theorem prefix_authority (front : t <+: u) : authority t <+: authority u :=
  prefix_takeWhile (prefix_takeWhile (prefix_takeWhile front))

structure Quiet (z : List Char) : Prop where
  user : '@' ∉ authority z
  port : (authority z).takeWhile (· != ':') = [] ∨ (authority z).takeWhile (· != ':') = ['.']

theorem quiet_nil : Quiet [] := ⟨by simp [authority], .inl rfl⟩

theorem Quiet.of_front (quiet : Quiet z) (front : t <+: z) : Quiet t := by
  have inside := prefix_authority front
  refine ⟨fun member => quiet.user (inside.subset member), ?_⟩
  have short := prefix_takeWhile (p := (· != ':')) inside
  rcases quiet.port with none | dot
  · rw [none] at short
    exact .inl (List.prefix_nil.mp short)
  · rw [dot] at short
    rcases List.prefix_cons_iff.mp short with none | ⟨rest, same, empty⟩
    · exact .inl none
    · rw [List.prefix_nil.mp empty] at same
      exact .inr same

theorem isDelimiter_of_name (named : isNameChar c = true) : Url.isDelimiter c = false := by
  cases here : Url.isDelimiter c with
  | false => rfl
  | true =>
    simp only [Url.isDelimiter, Bool.or_eq_true, beq_iff_eq] at here
    rcases here with (rfl | rfl) | rfl <;> cases named

theorem hostPart_eq {url : Written} {core : List Char} (isName : IsName name)
    (same : core.map Char.toLower = name) (letters : ∀ c ∈ core, isNameChar c = true)
    (quiet : Quiet z) : hostPart (url.userText ++ (core ++ z)) = name := by
  have user : ∀ c ∈ url.userText, Url.isDelimiter c = false := by
    intro c member
    rw [Written.userText] at member
    cases who : url.userinfo with
    | none =>
      rw [who] at member
      cases member
    | some u =>
      rw [who] at member
      rcases List.mem_append.mp member with inside | last
      · exact (url.userinfo_plain u who c inside).2
      · rw [List.mem_singleton.mp last]
        rfl
  have apart : ∀ x, isNameChar x = false → x ∉ core := by
    intro x other member
    rw [letters x member] at other
    cases other
  have host : '@' ∉ core ++ authority z := by
    rw [List.mem_append, not_or]
    exact ⟨apart '@' rfl, quiet.user⟩
  have kept : (url.userText ++ (core ++ authority z)).rtakeWhile (· != '@') =
      core ++ authority z := by
    rw [List.rtakeWhile, List.reverse_append, List.takeWhile_append_of_pos]
    · rw [Written.userText]
      cases url.userinfo with
      | none => simp
      | some u => simp
    · intro c member
      rw [List.mem_reverse] at member
      simpa using fun same : c = '@' => host (same ▸ member)
  have cut : (core ++ authority z).takeWhile (· != ':') =
      core ++ (authority z).takeWhile (· != ':') := by
    refine List.takeWhile_append_of_pos fun c member => ?_
    simpa using fun same : c = ':' => apart ':' rfl (same ▸ member)
  rw [hostPart]
  show withoutDot (lower (((authority (url.userText ++ (core ++ z))).rtakeWhile _).takeWhile _)) = _
  rw [authority_append user, authority_append fun c member => isDelimiter_of_name (letters c member),
    kept, cut]
  rcases quiet.port with none | dot
  · rw [none, List.append_nil, lower_of_letters letters, same, isName.withoutDot_eq]
  · rw [dot, lower, List.flatMap_append, ← lower, lower_of_letters letters, same]
    exact withoutDot_concat name

/-- What may stand behind a URL, up to white space: anything behind a path, behind a port what has
no `@` in front of a path, a query or a fragment, and otherwise what is stripped from a token. -/
def Bare (url : Written) (back : List Char) : Prop :=
  url.path ≠ [] ∨ (url.port.isSome = true ∧ '@' ∉ authority back) ∨ ∀ c ∈ back, isEdge c = true

theorem digits_plain {p : List Char} (digits : ∀ c ∈ p, c.isDigit = true) :
    (∀ c ∈ p, Url.isDelimiter c = false) ∧ '@' ∉ p := by
  refine ⟨fun c member => ?_, fun member => absurd (digits _ member) (by decide)⟩
  refine isDelimiter_of_name ?_
  simp [isNameChar, Char.isAlphanum, digits c member]

theorem quiet_of_bare {url : Written} {dot : List Char} (end_dot : dot = [] ∨ dot = ['.'])
    (bare : url.path ≠ [] ∨ (url.port.isSome = true ∧ '@' ∉ authority back)) :
    Quiet (dot ++ (url.portText ++ (url.path ++ back))) := by
  have plain : (∀ c ∈ url.portText, Url.isDelimiter c = false) ∧ '@' ∉ url.portText ∧
      url.portText.takeWhile (· != ':') = [] := by
    rw [Written.portText]
    cases number : url.port with
    | none => simp
    | some p =>
      have digits := digits_plain (url.port_digits p number)
      refine ⟨fun c member => ?_, ?_, rfl⟩
      · rcases List.mem_cons.mp member with rfl | inside
        · rfl
        · exact digits.1 c inside
      · simpa using digits.2
  have rest : '@' ∉ url.portText ++ authority (url.path ++ back) ∧
      (url.portText ++ authority (url.path ++ back)).takeWhile (· != ':') = [] := by
    by_cases path : url.path = []
    · obtain ⟨some_port, user⟩ := bare.resolve_left (not_not_intro path)
      obtain ⟨p, number⟩ := Option.isSome_iff_exists.mp some_port
      rw [path, List.nil_append, List.mem_append, not_or]
      refine ⟨⟨plain.2.1, user⟩, ?_⟩
      rw [Written.portText, number]
      rfl
    · obtain ⟨t, slash⟩ := List.head?_eq_some_iff.mp (url.path_slash.resolve_left path)
      have none : authority (url.path ++ back) = [] := by
        rw [slash]
        rfl
      rw [none, List.append_nil]
      exact plain.2
  have whole : authority (dot ++ (url.portText ++ (url.path ++ back))) =
      dot ++ (url.portText ++ authority (url.path ++ back)) := by
    rw [authority_append, authority_append plain.1]
    rcases end_dot with rfl | rfl <;> simp [Url.isDelimiter]
  rcases end_dot with rfl | rfl
  · exact ⟨by rw [whole]; exact rest.1, .inl (by rw [whole]; exact rest.2)⟩
  · refine ⟨?_, .inr ?_⟩
    · rw [whole]
      simpa using rest.1
    · rw [whole, List.singleton_append, List.takeWhile_cons_of_pos rfl, rest.2]

theorem trim_front {d : Char} {p : Char → Bool} (edges : ∀ c ∈ front, p c = true)
    (first : t.head? = some c) (visible : p c = false) (last : t.getLast? = some d)
    (stays : p d = false) (z : List Char) :
    ∃ z', z' <+: z ∧ trim p (front ++ (t ++ z)) = t ++ z' ∧ ((∀ c ∈ z, p c = true) → z' = []) := by
  refine ⟨(z.reverse.dropWhile p).reverse, ?_, ?_, ?_⟩
  · rw [← List.reverse_suffix, List.reverse_reverse]
    exact List.dropWhile_suffix p
  · obtain ⟨rest, rfl⟩ := List.head?_eq_some_iff.mp first
    have whole : (c :: rest).reverse.dropWhile p = (c :: rest).reverse := by
      obtain ⟨before, split⟩ := List.getLast?_eq_some_iff.mp last
      rw [split, List.reverse_append, List.reverse_singleton, List.singleton_append,
        List.dropWhile_cons_of_neg (Bool.eq_false_iff.mp stays)]
    rw [trim, List.dropWhile_append_of_pos edges, List.cons_append,
      List.dropWhile_cons_of_neg (Bool.eq_false_iff.mp visible), ← List.cons_append,
      List.reverse_append, List.dropWhile_append]
    split
    · rename_i none
      rw [whole, List.isEmpty_iff.mp none, List.reverse_reverse, List.reverse_nil, List.append_nil]
    · rw [List.reverse_append, List.reverse_reverse]
  · intro all
    rw [List.dropWhile_eq_nil_iff.mpr fun c member => all c (List.mem_reverse.mp member)]
    rfl

end Urls

section Main

variable {back front name : List Char} {url : Written}

theorem schemePrefix_text (url : Written) (rest : List Char) :
    schemePrefix (url.scheme ++ (':' :: '/' :: '/' :: rest)) = some (url.scheme.length + 3) := by
  obtain ⟨c, t, split, letter, letters⟩ := url.scheme_letters
  have whole : (t ++ (':' :: '/' :: '/' :: rest)).takeWhile Url.isSchemeChar = t := by
    rw [List.takeWhile_append_of_pos letters, List.takeWhile_cons_of_neg (by decide),
      List.append_nil]
  rw [split, List.cons_append, schemePrefix, if_pos letter]
  dsimp only
  rw [whole, List.drop_left]
  rfl

theorem behindScheme_text (url : Written) (rest : List Char) :
    behindScheme (url.scheme ++ (':' :: '/' :: '/' :: rest)) = (rest, true) := by
  have split : url.scheme ++ (':' :: '/' :: '/' :: rest) =
      (url.scheme ++ [':', '/', '/']) ++ rest := by simp
  have length : url.scheme.length + 3 = (url.scheme ++ [':', '/', '/']).length := by simp
  have slashes : ['/', '/'].isSuffixOf (url.scheme ++ [':', '/', '/']) = true :=
    List.isSuffixOf_iff_suffix.mpr ⟨url.scheme ++ [':'], by simp⟩
  rw [behindScheme, schemePrefix_text]
  dsimp only
  rw [split, length, List.take_left, List.drop_left, slashes]
  rfl

theorem observed_text (isName : IsName name) (spells : Spells url.host name)
    (edges : ∀ c ∈ front, isEdge c = true) (bare : Bare url back) :
    observed (front ++ (url.text ++ back)) = some (name, true) := by
  obtain ⟨core, dot, host, end_dot, same, letters⟩ := spells.split isName
  obtain ⟨c, t, scheme, letter, _⟩ := url.scheme_letters
  have some_core : core ≠ [] := by
    rintro rfl
    exact isName.some_char same.symm
  obtain ⟨before, d, rfl⟩ := (List.eq_nil_or_concat' core).resolve_left some_core
  have other : d ≠ '.' := by
    rintro rfl
    refine isName.last ?_
    rw [← same]
    simp
  have visible : isEdge c = false := by
    refine (isNameChar_plain ?_).2.2.2 ?_
    · simp [isNameChar, Char.isAlphanum, letter]
    · rintro rfl
      cases letter
  have stays : isEdge d = false :=
    (isNameChar_plain (letters d (by simp))).2.2.2 other
  have first : (url.scheme ++ (':' :: '/' :: '/' :: (url.userText ++ (before ++ [d])))).head? =
      some c := by
    rw [scheme]
    rfl
  have last : (url.scheme ++ (':' :: '/' :: '/' :: (url.userText ++ (before ++ [d])))).getLast? =
      some d := by
    have split : url.scheme ++ (':' :: '/' :: '/' :: (url.userText ++ (before ++ [d]))) =
        (url.scheme ++ (':' :: '/' :: '/' :: (url.userText ++ before))) ++ [d] := by simp
    rw [split, List.getLast?_concat]
  obtain ⟨z, inside, trimmed, stripped⟩ := trim_front edges first visible last stays
    (dot ++ (url.portText ++ (url.path ++ back)))
  have quiet : Quiet z := by
    by_cases kept : url.path ≠ [] ∨ (url.port.isSome = true ∧ '@' ∉ authority back)
    · exact (quiet_of_bare end_dot kept).of_front inside
    · rw [not_or, not_not, not_and, not_not] at kept
      have all := (bare.resolve_left (not_not_intro kept.1)).resolve_left fun port =>
        port.2 (kept.2 port.1)
      have no_port : url.portText = [] := by
        rw [Written.portText]
        cases number : url.port with
        | none => rfl
        | some p =>
          have user := kept.2 (by rw [number]; rfl)
          have front := prefix_takeWhile (p := (· != '#')) (prefix_takeWhile (p := (· != '?'))
            (List.takeWhile_prefix (l := back) (· != '/')))
          have member := (List.takeWhile_prefix _).subset ((List.takeWhile_prefix _).subset
            (front.subset user))
          exact absurd (all '@' member) (by decide)
      rw [stripped]
      · exact quiet_nil
      · intro x member
        rw [no_port, kept.1] at member
        rcases List.mem_append.mp member with first | rest
        · rcases end_dot with rfl | rfl
          · cases first
          · rw [List.mem_singleton.mp first]
            rfl
        · exact all x rest
  have token : front ++ (url.text ++ back) =
      front ++ ((url.scheme ++ (':' :: '/' :: '/' :: (url.userText ++ (before ++ [d])))) ++
        (dot ++ (url.portText ++ (url.path ++ back)))) := by
    rw [Written.text, host]
    simp
  have candidate : trim isEdge (front ++ (url.text ++ back)) =
      url.scheme ++ (':' :: '/' :: '/' :: (url.userText ++ ((before ++ [d]) ++ z))) := by
    rw [token, trimmed]
    simp
  rw [observed, candidate, behindScheme_text]
  dsimp only
  rw [if_neg (by rw [scheme]; exact List.cons_ne_nil _ _), hostPart_eq isName same letters quiet,
    if_neg isName.some_char]

def Listed (entries : Option (List (List Char))) (name : List Char) : Prop :=
  ∃ entry ∈ entries.getD [], ∃ d, IsName d ∧ Spells (strip entry) d ∧ Within name d

/-- But not that of an entry which begins with `www.`. -/
def ListedApart (entries : Option (List (List Char))) (name : List Char) : Prop :=
  ∃ entry ∈ entries.getD [], ∃ d, IsName d ∧ Spells (strip entry) d ∧ Within name d ∧
    ¬(name = d ∧ ['w', 'w', 'w', '.'] <+: d)

theorem domainInList_of_listedApart {entries : Option (List (List Char))}
    (listed : ListedApart entries name) :
    domainInList (withoutWww name) ((entries.getD []).map normalizeListedDomain) = true := by
  obtain ⟨entry, member, d, isName, spells, within, other⟩ := listed
  refine (domainInList_iff _ _).mpr ⟨d, ?_, within_withoutWww within other⟩
  exact List.mem_map.mpr ⟨entry, member, normalizeListedDomain_of_spells spells isName⟩

def Names (content name : List Char) : Prop :=
  ∃ token ∈ tokens (some []) content, ∃ hasScheme, observed token = some (name, hasScheme) ∧
    isLink (withoutWww name) hasScheme = true

def isBoundary (c : Char) : Bool :=
  isSpace c || ['(', ')', '[', ']', '{', '}', '<', '>', '"', '\'', ',', '*'].any (· == c)

def FilterHolds (rule : Rule) : Prop :=
  ((ExternalLinkRule.init rule).mode ≠ "whitelist" → ∀ (url : Written) (name a b : List Char),
    IsName name → Spells url.host name → Listed rule.config.blacklist name →
    (∀ c ∈ a.getLast?, isBoundary c = true) → (∀ c ∈ b.head?, isBoundary c = true) →
    ((ExternalLinkRule.init rule).check (a ++ (url.text ++ b))).matched = true) ∧
  ((ExternalLinkRule.init rule).mode = "whitelist" → (ExternalLinkRule.init rule).blockAll = false →
    ∀ content, (∀ name, Names content name → Listed rule.config.whitelist name) →
      ((ExternalLinkRule.init rule).check content).matched = false)

def oneEntry (mode : String) (entry : List Char) : Rule where
  id := 1
  ruleType := .externalLinks
  config :=
    { mode := some mode
      whitelist := some [entry]
      blacklist := some [entry]
      blockAll := none }

theorem letters_https : ∃ c t, "https".toList = c :: t ∧ c.isAlpha = true ∧
    ∀ d ∈ t, Url.isSchemeChar d = true :=
  ⟨'h', "ttps".toList, rfl, rfl, List.all_eq_true.mp (by decide)⟩

theorem no_part {P : List Char → Prop} : ∀ u ∈ (none : Option (List Char)), P u := by
  intro u member
  cases member

/-- `https://host` -/
def https (host : List Char) : Written where
  scheme := "https".toList
  userinfo := none
  host := host
  port := none
  path := []
  scheme_letters := letters_https
  userinfo_plain := no_part
  port_digits := no_part
  path_slash := .inl rfl
  path_visible := fun _ none => absurd none List.not_mem_nil

theorem isName_evil : IsName "evil.com".toList where
  some_char := List.cons_ne_nil _ _
  letters := List.all_eq_true.mp (by decide)
  last := by decide

theorem isName_localhost : IsName "localhost".toList where
  some_char := List.cons_ne_nil _ _
  letters := List.all_eq_true.mp (by decide)
  last := by decide

theorem isSpace_of_isEdge {c : Char} (edge : isEdge c = true) : isSpace c = false := by
  obtain ⟨d, member, same⟩ := List.any_eq_true.mp edge
  obtain rfl := eq_of_beq same
  have all : (['"', '\'', '(', ')', '[', ']', '{', '}', '<', '>', ',', ';', ':', '!', '?', '.'].all
    fun c => !isSpace c) = true := by decide
  simpa using List.all_eq_true.mp all d member

theorem isSpace_of_isSchemeChar {c : Char} (letter : Url.isSchemeChar c = true) :
    isSpace c = false := by
  by_cases plus : c = '+'
  · rw [plus]
    rfl
  · refine (isNameChar_plain ?_).1
    simp only [Url.isSchemeChar, Bool.or_eq_true, beq_iff_eq, plus, or_false] at letter
    simp only [isNameChar, Bool.or_eq_true, beq_iff_eq]
    tauto

theorem text_visible (isName : IsName name) (spells : Spells url.host name) :
    ∀ c ∈ url.text, isSpace c = false := by
  obtain ⟨core, dot, host, end_dot, _, letters⟩ := spells.split isName
  obtain ⟨first, t, scheme, letter, rest⟩ := url.scheme_letters
  intro c member
  simp only [Written.text, List.mem_append] at member
  rcases member with member | member | member | member | member | member
  · refine isSpace_of_isSchemeChar ?_
    rw [scheme] at member
    rcases List.mem_cons.mp member with rfl | inside
    · simp [Url.isSchemeChar, Char.isAlphanum, letter]
    · exact rest c inside
  · have all : ([':', '/', '/'].all fun c => !isSpace c) = true := by decide
    simpa using List.all_eq_true.mp all c member
  · rw [Written.userText] at member
    cases who : url.userinfo with
    | none =>
      rw [who] at member
      cases member
    | some u =>
      rw [who] at member
      rcases List.mem_append.mp member with inside | last
      · exact (url.userinfo_plain u who c inside).1
      · rw [List.mem_singleton.mp last]
        rfl
  · rw [host] at member
    rcases List.mem_append.mp member with inside | last
    · exact (isNameChar_plain (letters c inside)).1
    · rcases end_dot with rfl | rfl
      · cases last
      · rw [List.mem_singleton.mp last]
        rfl
  · rw [Written.portText] at member
    cases number : url.port with
    | none =>
      rw [number] at member
      cases member
    | some p =>
      rw [number] at member
      rcases List.mem_cons.mp member with rfl | inside
      · rfl
      · refine (isNameChar_plain ?_).1
        simp [isNameChar, Char.isAlphanum, url.port_digits p number c inside]
  · exact url.path_visible c member

/-- A URL at the front of a token, but for what is stripped there, does not get through a blacklist;
and a whitelist holds up no content that names listed hosts only. -/
theorem check_filters (rule : Rule) :
    ((ExternalLinkRule.init rule).mode ≠ "whitelist" →
      ∀ (url : Written) (name a front back b : List Char), IsName name → Spells url.host name →
      ListedApart rule.config.blacklist name → isLink (withoutWww name) true = true →
      Bare url back → (∀ c ∈ front, isEdge c = true) → (∀ c ∈ back, isSpace c = false) →
      (∀ c ∈ a.getLast?, isSpace c = true) → (∀ c ∈ b.head?, isSpace c = true) →
      ((ExternalLinkRule.init rule).check (a ++ (front ++ (url.text ++ back) ++ b))).matched =
        true) ∧
    ((ExternalLinkRule.init rule).mode = "whitelist" →
      (ExternalLinkRule.init rule).blockAll = false →
      ∀ content, (∀ name, Names content name → ListedApart rule.config.whitelist name) →
      ((ExternalLinkRule.init rule).check content).matched = false) := by
  constructor
  · intro mode url name a front back b isName spells listed link bare edges visible before behind
    have token : front ++ (url.text ++ back) ∈
        tokens (some []) (a ++ (front ++ (url.text ++ back) ++ b)) := by
      refine mem_tokens ?_ ?_ before behind
      · obtain ⟨c, t, scheme, _⟩ := url.scheme_letters
        simp [Written.text, scheme]
      · intro c member
        rcases List.mem_append.mp member with edge | member
        · exact isSpace_of_isEdge (edges c edge)
        · rcases List.mem_append.mp member with inside | last
          · exact text_visible isName spells c inside
          · exact visible c last
    refine (check_matched_iff _ _).mpr ⟨_, token, withoutWww name, ?_, ?_⟩
    · rw [extractHost, observed_text isName spells edges bare]
      exact if_pos link
    · rw [ExternalLinkRule.blocks, if_neg mode, Bool.or_eq_true]
      exact .inr (domainInList_of_listedApart listed)
  · intro mode open_list content listed
    refine Bool.eq_false_iff.mpr fun matched => ?_
    obtain ⟨token, member, host, found, blocked⟩ := (check_matched_iff _ _).mp matched
    obtain ⟨⟨name, hasScheme⟩, seen, link⟩ := Option.bind_eq_some_iff.mp found
    dsimp only at link
    split at link
    · rename_i accepted
      obtain rfl := Option.some.inj link
      have known := domainInList_of_listedApart (listed name ⟨token, member, hasScheme, seen, accepted⟩)
      have inside : domainInList (withoutWww name) (ExternalLinkRule.init rule).whitelist = true :=
        known
      rw [ExternalLinkRule.blocks, open_list, if_pos mode, inside] at blocked
      cases blocked
    · cases link

theorem check_filters_evil :
    ((ExternalLinkRule.init (oneEntry "blacklist" "evil.com".toList)).check ("see ".toList ++
      ("(".toList ++ ((https "Evil.com.".toList).text ++ "),".toList) ++ " now".toList))).matched =
        true ∧
    ((ExternalLinkRule.init (oneEntry "whitelist" "Evil.com".toList)).check
      "see www.evil.com/x".toList).matched = false := by
  constructor
  · refine (check_filters (oneEntry "blacklist" "evil.com".toList)).1 (by decide)
      (https "Evil.com.".toList) "evil.com".toList "see ".toList "(".toList "),".toList
      " now".toList isName_evil (.inr (by decide +kernel)) ?_ (by decide +kernel) ?_ ?_ ?_ ?_ ?_
    · exact ⟨"evil.com".toList, List.mem_singleton.mpr rfl, "evil.com".toList, isName_evil,
        .inl (by decide +kernel), .inl rfl, fun www => absurd www.2 (by decide)⟩
    · exact .inr (.inr (List.all_eq_true.mp (by decide)))
    · exact List.all_eq_true.mp (by decide)
    · intro c member
      have all : ("),".toList.all fun c => !isSpace c) = true := by decide
      simpa using List.all_eq_true.mp all c member
    · intro c last
      cases last
      rfl
    · intro c first
      cases first
      rfl
  · refine (check_filters (oneEntry "whitelist" "Evil.com".toList)).2 (by decide) rfl _ ?_
    rintro name ⟨token, member, hasScheme, seen, link⟩
    have all : tokens (some []) "see www.evil.com/x".toList =
        ["see".toList, "www.evil.com/x".toList] := by decide +kernel
    have word : observed "see".toList = some ("see".toList, false) := by decide +kernel
    have host : observed "www.evil.com/x".toList = some ("www.evil.com".toList, false) := by
      decide +kernel
    rw [all, List.mem_cons, List.mem_singleton] at member
    rcases member with rfl | rfl
    · rw [word] at seen
      cases seen
      exact absurd link (by decide +kernel)
    · rw [host] at seen
      cases seen
      exact ⟨"Evil.com".toList, List.mem_singleton.mpr rfl, "evil.com".toList, isName_evil,
        .inl (by decide +kernel), .inr ⟨"www".toList, rfl⟩, fun www => absurd www.2 (by decide)⟩

/-- Behind a word and a comma a URL is not looked for, and a name without a dot is no link. -/
theorem check_filters_gaps : ¬FilterHolds (oneEntry "blacklist" "evil.com".toList) ∧
    ¬FilterHolds (oneEntry "blacklist" "localhost".toList) := by
  constructor
  · intro holds
    have matched := holds.1 (by decide) (https "Evil.com.".toList) "evil.com".toList "see,".toList []
      isName_evil (.inr (by decide +kernel)) ⟨"evil.com".toList, List.mem_singleton.mpr rfl,
        "evil.com".toList, isName_evil, .inl (by decide +kernel), .inl rfl⟩
      (fun c last => by cases last; rfl) (fun c first => by cases first)
    revert matched
    decide +kernel
  · intro holds
    have matched := holds.1 (by decide) (https "localhost".toList) "localhost".toList [] []
      isName_localhost (.inl (by decide +kernel)) ⟨"localhost".toList, List.mem_singleton.mpr rfl,
        "localhost".toList, isName_localhost, .inl (by decide +kernel), .inl rfl⟩
      (fun c last => by cases last) (fun c first => by cases first)
    revert matched
    decide +kernel

end Main

end Plexichat.Automod.Links
