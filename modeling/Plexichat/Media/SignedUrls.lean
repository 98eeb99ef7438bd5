import Plexichat.Library.JsonText
import Plexichat.Media.Signing

/-! What the signatures of signed URLs are compared with. -/
namespace Plexichat.Media.Signing
open Url UrlQuery

section Numbers

variable {n m : Int} {t : Text}

theorem str_eq_ok (written : str n = .ok t) : Json.dumpsInt n = .ok t := by
  unfold str at written
  cases e : Json.dumpsInt n with
  | ok s =>
    rw [e] at written
    cases written
    rfl
  | error e' =>
    rw [e] at written
    cases written

theorem int_str (written : str n = .ok t) : Numeral.int t = some n :=
  Numeral.int_dumpsInt (str_eq_ok written)

theorem str_injective (first : str n = .ok t) (second : str m = .ok t) : n = m :=
  Option.some.inj ((int_str first).symm.trans (int_str second))

theorem str_ne_nil (written : str n = .ok t) : t ≠ [] := by
  rintro rfl
  cases int_str written

theorem mem_str {c : Char} (written : str n = .ok t) (member : c ∈ t) : c.isDigit = true ∨ c = '-' := by
  obtain ⟨-, rfl⟩ := Json.dumpsInt_eq_ok (str_eq_ok written)
  rcases List.mem_append.mp member with minus | digit
  · split at minus
    · exact .inr (List.mem_singleton.mp minus)
    · cases minus
  · exact .inl (Text.isDigit_of_mem_decimal digit)

theorem not_mem_str {c : Char} (written : str n = .ok t) (other : c.isDigit = false ∧ c ≠ '-') :
    c ∉ t := by
  intro member
  rcases mem_str written member with digit | minus
  · simp [digit] at other
  · exact other.2 minus

theorem readInt_str (written : str n = .ok t) : readInt t = .ok n := by
  rw [readInt, int_str written]

end Numbers

section Joined

theorem last_bar {a a' b b' : Text} (apart : '|' ∉ b) (apart' : '|' ∉ b')
    (same : a ++ '|' :: b = a' ++ '|' :: b') : a = a' ∧ b = b' := by
  have backward : b.reverse ++ '|' :: a.reverse = b'.reverse ++ '|' :: a'.reverse := by
    simpa using congrArg List.reverse same
  have first : partition '|' (b.reverse ++ '|' :: a.reverse) = (b.reverse, a.reverse) :=
    partition_append (by simpa using apart) a.reverse
  have second : partition '|' (b'.reverse ++ '|' :: a'.reverse) = (b'.reverse, a'.reverse) :=
    partition_append (by simpa using apart') a'.reverse
  rw [backward, second] at first
  obtain ⟨ends, starts⟩ := Prod.mk.inj first
  exact ⟨(List.reverse_injective starts).symm, (List.reverse_injective ends).symm⟩

variable {clean clean' f f' e e' : Text} {u u' : Option Text}

structure Written (fileId expiresAt : Int) (user : Option Int) (f e : Text) (u : Option Text) :
    Prop where
  fileId : str fileId = .ok f
  expiresAt : str expiresAt = .ok e
  user : strUser user = .ok u

theorem strUser_eq_ok {user : Option Int} (written : strUser user = .ok u) :
    user = none ∧ u = none ∨ ∃ n t, user = some n ∧ u = some t ∧ str n = .ok t := by
  cases user with
  | none =>
    cases written
    exact .inl ⟨rfl, rfl⟩
  | some n =>
    cases text : str n with
    | error failure =>
      simp only [strUser, text] at written
      cases written
    | ok t =>
      simp only [strUser, text] at written
      cases written
      exact .inr ⟨n, t, rfl, rfl, text⟩

theorem joinParts_injective {fileId expiresAt fileId' expiresAt' : Int} {user user' : Option Int}
    (written : Written fileId expiresAt user f e u)
    (written' : Written fileId' expiresAt' user' f' e' u')
    (same : joinParts clean f e u = joinParts clean' f' e' u') :
    clean = clean' ∧ fileId = fileId' ∧ expiresAt = expiresAt' ∧ user = user' := by
  have bars : ∀ {n : Int} {t : Text}, str n = .ok t → '|' ∉ t ∧ 'u' ∉ t := fun written =>
    ⟨not_mem_str written (by decide), not_mem_str written (by decide)⟩
  have user_bar : ∀ {n : Int} {t : Text}, str n = .ok t → '|' ∉ uid ++ '=' :: t := by
    intro n t written
    have front : '|' ∉ uid ∧ '|' ≠ '=' := by decide
    simp [front.1, front.2, (bars written).1]
  have front : ∀ {a b : Text}, clean ++ '|' :: f ++ '|' :: a = clean' ++ '|' :: f' ++ '|' :: b →
      '|' ∉ a → '|' ∉ b → clean = clean' ∧ f = f' ∧ a = b := by
    intro a b same apart apart'
    obtain ⟨same, ends⟩ := last_bar apart apart' same
    obtain ⟨same, middle⟩ := last_bar (bars written.fileId).1 (bars written'.fileId).1 same
    exact ⟨same, middle, ends⟩
  rcases strUser_eq_ok written.user with ⟨rfl, rfl⟩ | ⟨n, t, rfl, rfl, number⟩ <;>
    rcases strUser_eq_ok written'.user with ⟨rfl, rfl⟩ | ⟨m, s, rfl, rfl, number'⟩
  · obtain ⟨rfl, rfl, rfl⟩ := front same (bars written.expiresAt).1 (bars written'.expiresAt).1
    exact ⟨rfl, str_injective written.fileId written'.fileId,
      str_injective written.expiresAt written'.expiresAt, rfl⟩
  · -- an expiry is no user
    obtain ⟨-, ends⟩ := last_bar (bars written.expiresAt).1 (user_bar number') same
    exact absurd (ends ▸ List.mem_append_left _ (by decide)) (bars written.expiresAt).2
  · obtain ⟨-, ends⟩ := last_bar (user_bar number) (bars written'.expiresAt).1 same
    exact absurd (ends ▸ List.mem_append_left _ (by decide)) (bars written'.expiresAt).2
  · obtain ⟨same, ends⟩ := last_bar (user_bar number) (user_bar number') same
    obtain ⟨rfl, rfl, rfl⟩ := front same (bars written.expiresAt).1 (bars written'.expiresAt).1
    obtain rfl : t = s := by simpa using List.append_cancel_left ends
    exact ⟨rfl, str_injective written.fileId written'.fileId,
      str_injective written.expiresAt written'.expiresAt,
      congrArg some (str_injective number number')⟩

end Joined

section Readings

variable {rules : Rules} {t query : Text} {p : Parts}

def Encoded (query : Text) : Prop := ∀ c ∈ query, isQuoted c = true ∨ c = '&' ∨ c = '='

theorem encoded_urlencode (pairs : Pairs) : Encoded (urlencode pairs) := fun _ => urlencode_quoted

theorem isQuoted_facts : ∀ n : Fin 128, isQuoted (Char.ofNat n) = true →
    Char.ofNat n ≠ '#' ∧ isRemoved (Char.ofNat n) = false := by
  decide

theorem Encoded.plain (encoded : Encoded query) :
    '#' ∉ query ∧ ∀ c ∈ query, isRemoved c = false := by
  have each : ∀ c ∈ query, c ≠ '#' ∧ isRemoved c = false := by
    intro c member
    rcases encoded c member with quoted | rfl | rfl
    · have facts := isQuoted_facts ⟨c.toNat, isQuoted_bound quoted⟩
      simp only [Char.ofNat_toNat] at facts
      exact facts quoted
    · decide
    · decide
  exact ⟨fun member => (each _ member).1 rfl, fun c member => (each c member).2⟩

theorem lstrip_tail (t query : Text) : lstrip (t ++ tail query []) = lstrip t ++ tail query [] := by
  apply dropWhile_following
  unfold tail
  by_cases empty : query = []
  · simp [empty]
  · simp [empty]

theorem query_of_bare (bare : Bare t) (read : urlparse rules t = some p) : p.query = [] := by
  have alone := @urlparse_tail t [] [] rules bare (by simp) (by simp)
  have none_left : t ++ tail [] [] = t := by simp [tail]
  rw [none_left, read] at alone
  exact congrArg Parts.query (Option.some.inj alone)

theorem cleanUrl_of_bare (bare : Bare t) (read : urlparse rules t = some p) :
    cleanUrl rules t = some (lstrip p.path) := by
  have nothing : tail [] [] = ([] : Text) := rfl
  rw [cleanUrl, read, Option.map_some, query_of_bare bare read, nothing, List.append_nil]

theorem cleanUrl_tail (bare : Bare t) (encoded : Encoded query) :
    cleanUrl rules (t ++ tail query []) = (cleanUrl rules t).map (· ++ tail query []) := by
  have read := @urlparse_tail t query [] rules bare encoded.plain.1 (by simpa using encoded.plain.2)
  cases parsed : urlparse rules t with
  | none =>
    rw [parsed] at read
    rw [cleanUrl, cleanUrl, read, parsed]
    rfl
  | some x =>
    rw [parsed] at read
    rw [cleanUrl_of_bare bare parsed, cleanUrl, read]
    simp only [Option.map_some, lstrip_tail]

/-- A path is what is read as nothing more than a path: the readings of it that are compared, the
last one that of the whole URL. -/
def attempts (rules : Rules) (path : Text) : List (Option Text) :=
  [path, lstrip path, '/' :: lstrip path].map (cleanUrl rules) ++ [some (lstrip path)]

def tried (rules : Rules) (path : Text) : List Text :=
  ((attempts rules path).takeWhile Option.isSome).filterMap id

theorem bare_lstrip (bare : Bare t) : Bare (lstrip t) ∧ Bare ('/' :: lstrip t) := by
  have within : ∀ c ∈ lstrip t, c ∈ t := fun c member => (List.dropWhile_suffix _).mem member
  have stripped : Bare (lstrip t) :=
    ⟨fun member => bare.1 (within _ member), fun member => bare.2 (within _ member)⟩
  exact ⟨stripped, by simp [Bare, stripped.1, stripped.2]⟩

theorem mem_tried (bare : Bare t) {r : Text} (among : r ∈ tried rules t) :
    (∃ text x, Bare text ∧ urlparse rules text = some x ∧ r = lstrip x.path) ∨ r = lstrip t := by
  obtain ⟨stripped, rooted⟩ := bare_lstrip bare
  have reading : ∀ {text : Text}, Bare text → cleanUrl rules text = some r →
      ∃ text x, Bare text ∧ urlparse rules text = some x ∧ r = lstrip x.path := by
    intro text bare read
    obtain ⟨x, parsed, -⟩ := Option.map_eq_some_iff.mp read
    exact ⟨text, x, bare, parsed, Option.some.inj (read.symm.trans (cleanUrl_of_bare bare parsed))⟩
  obtain ⟨o, taken, same⟩ := List.mem_filterMap.mp among
  have attempt := (List.takeWhile_prefix _).mem taken
  simp only [attempts, List.map_cons, List.map_nil, List.mem_append, List.mem_cons,
    List.not_mem_nil, or_false] at attempt
  rw [id] at same
  subst same
  rcases attempt with (first | second | third) | whole
  · exact .inl (reading bare first.symm)
  · exact .inl (reading stripped second.symm)
  · exact .inl (reading rooted third.symm)
  · exact .inr (Option.some.inj whole)

theorem bare_path (parsed : Parsed p) : Bare p.path :=
  ⟨fun member => parsed.bare.1 (List.mem_append_left _ member),
    fun member => parsed.bare.2 (List.mem_append_left _ member)⟩

theorem tried_bare (bare : Bare t) {r : Text} (among : r ∈ tried rules t) : Bare r := by
  rcases mem_tried bare among with ⟨text, x, -, parsed, rfl⟩ | rfl
  · exact (bare_lstrip (bare_path (parsed_of_urlparse parsed).1)).1
  · exact (bare_lstrip bare).1

theorem cleanUrl_nil : cleanUrl rules [] = some [] ∧ cleanUrl rules ['/'] = some [] := by
  have parts : ∀ t, clean t = t → splitScheme t = ([], t) → splitNetloc t = ([], t) →
      splitParams [] t = (t, []) → Bare t → cleanUrl rules t = some (lstrip t) := by
    intro t cleaned scheme netloc params bare
    simp [cleanUrl, urlparse, cleaned, scheme, netloc, rules.empty, params, tail,
      partition_of_not_mem bare.1, partition_of_not_mem bare.2]
  exact ⟨parts [] rfl rfl rfl (by decide) (by unfold Bare; decide),
    parts ['/'] (by decide) (by decide) (by decide) (by decide) (by unfold Bare; decide)⟩

theorem tried_settled (p : Parts) : tried rules (settled p).path = tried rules p.path := by
  unfold settled
  dsimp only
  split
  · rename_i missing
    rw [missing.2.1]
    have one : lstrip ['/'] = [] := rfl
    have none_left : lstrip [] = [] := rfl
    simp [tried, attempts, one, none_left, cleanUrl_nil]
  · rfl

end Readings

section Verify

variable {host : Host} {claims : Claims} {f e : Text} {u : Option Text} {url : Text} {now : Int}
  {currentUserId : Option Int}

def others (query : Text) : Text := urlencode (flat (reserved.foldl pop (parseQs query)))

theorem buildSignatureData_eq {fileId expiresAt : Int} {user : Option Int}
    (written : Written fileId expiresAt user f e u) :
    buildSignatureData host url fileId expiresAt user =
      match cleanUrl host.rules url with
      | none => .error .valueError
      | some clean => .ok (joinParts clean f e u) := by
  unfold buildSignatureData
  cases cleanUrl host.rules url with
  | none => rfl
  | some clean =>
    simp only [written.fileId, written.expiresAt, written.user]
    rfl

theorem written_of_build {fileId expiresAt : Int} {user : Option Int} {data : Text}
    (built : buildSignatureData host url fileId expiresAt user = .ok data) :
    ∃ f e u clean, Written fileId expiresAt user f e u ∧ cleanUrl host.rules url = some clean ∧
      data = joinParts clean f e u := by
  unfold buildSignatureData at built
  split at built
  · cases built
  · rename_i clean read
    cases hf : str fileId with
    | error => simp only [hf] at built; cases built
    | ok f =>
      cases he : str expiresAt with
      | error => simp only [hf, he] at built; cases built
      | ok e =>
        cases hu : strUser user with
        | error => simp only [hf, he, hu] at built; cases built
        | ok u =>
          simp only [hf, he, hu] at built
          cases built
          exact ⟨f, e, u, clean, ⟨hf, he, hu⟩, read, rfl⟩

theorem written_of_matches {urls : List Text} (matched : matchesAny host claims urls = .ok true) :
    ∃ f e u, Written claims.fileId claims.expiresAt (bound claims.userId) f e u := by
  cases urls with
  | nil => cases matched
  | cons url urls =>
    rw [matchesAny] at matched
    cases built : buildSignatureData host url claims.fileId claims.expiresAt (bound claims.userId) with
    | error failure => rw [built] at matched; cases matched
    | ok data =>
      obtain ⟨f, e, u, clean, written, -⟩ := written_of_build built
      exact ⟨f, e, u, written⟩

theorem matchesAny_iff (written : Written claims.fileId claims.expiresAt (bound claims.userId) f e u)
    (urls : List Text) : matchesAny host claims urls = .ok true ↔
      ∃ clean ∈ ((urls.map (cleanUrl host.rules)).takeWhile Option.isSome).filterMap id,
        claims.signature = host.signature (joinParts clean f e u) := by
  induction urls with
  | nil => simp [matchesAny]
  | cons url urls ih =>
    cases read : cleanUrl host.rules url with
    | none =>
      have raised : matchesAny host claims (url :: urls) = .error .valueError := by
        rw [matchesAny, buildSignatureData_eq written, read]
        rfl
      simp [raised, read]
    | some clean =>
      have compared : matchesAny host claims (url :: urls) =
          if claims.signature = host.signature (joinParts clean f e u) then .ok true
          else matchesAny host claims urls := by
        rw [matchesAny, buildSignatureData_eq written, read]
        rfl
      have listed : ∀ l : List (Option Text), (some clean :: l).filterMap id =
          clean :: l.filterMap id := fun _ => rfl
      rw [compared, List.map_cons, read, List.takeWhile_cons_of_pos rfl, listed]
      split
      · rename_i same
        exact ⟨fun _ => ⟨clean, List.mem_cons_self, same⟩, fun _ => rfl⟩
      · rename_i other
        simp [ih, other]

theorem filterMap_map_option (g : Text → Text) (l : List (Option Text)) :
    ((l.map (Option.map g)).takeWhile Option.isSome).filterMap id =
      ((l.takeWhile Option.isSome).filterMap id).map g := by
  induction l with
  | nil => rfl
  | cons o l ih =>
    cases o with
    | none => rfl
    | some t =>
      have front : ((some t :: l).map (Option.map g)).takeWhile Option.isSome =
          some (g t) :: (l.map (Option.map g)).takeWhile Option.isSome := rfl
      have cut : (some t :: l).takeWhile Option.isSome = some t :: l.takeWhile Option.isSome := rfl
      rw [front, cut]
      exact congrArg (g t :: ·) ih

theorem bare_settled {p : Parts} (parsed : Parsed p) : Bare (settled p).path := by
  have path := bare_path parsed
  unfold settled
  dsimp only
  split
  · unfold Bare
    decide
  · exact path

theorem candidates_readings {p : Parts} {base query : Text} (bare : Bare p.path)
    (encoded : Encoded query) (whole : urlparse host.rules base = some p) (same : p.query = query) :
    (((candidates base p).map (cleanUrl host.rules)).takeWhile Option.isSome).filterMap id =
      (tried host.rules p.path).map (· ++ tail query []) := by
  have last : cleanUrl host.rules base = some (lstrip p.path ++ tail query []) := by
    rw [cleanUrl, whole, Option.map_some, lstrip_tail, same]
  obtain ⟨stripped, rooted⟩ := bare_lstrip bare
  have readings : (candidates base p).map (cleanUrl host.rules) =
      (attempts host.rules p.path).map (Option.map (· ++ tail query [])) := by
    simp only [candidates, attempts, same, List.map_append, List.map_cons, List.map_nil, last,
      cleanUrl_tail bare encoded, cleanUrl_tail stripped encoded, cleanUrl_tail rooted encoded,
      Option.map_some]
  rw [readings, filterMap_map_option, tried]

theorem removed {p : Parts} (read : urlparse host.rules url = some p) :
    ∃ base left, removeSignatureParams host url = .ok base ∧ urlparse host.rules base = some left ∧
      left.path = (settled p).path ∧ left.query = others p.query := by
  obtain ⟨parsed, accepted⟩ := parsed_of_urlparse read
  have encoded : Encoded (others p.query) := encoded_urlencode _
  have kept : ∀ c ∈ others p.query ++ p.fragment, isRemoved c = false := by
    intro c member
    rcases List.mem_append.mp member with query | fragment
    · exact encoded.plain.2 c query
    · exact fragment_kept read c fragment
  have again := urlparse_urlunparse parsed accepted encoded.plain.1 kept
  refine ⟨urlunparse { p with query := others p.query }, _, ?_, again, rfl, rfl⟩
  simp only [removeSignatureParams, parse, read]
  rfl

theorem verifyUrl_iff {fileId : Int} : verifyUrl host now url currentUserId = .ok fileId ↔
    ∃ p claims f e u, urlparse host.rules url = some p ∧
      readClaims (parseQs p.query) = .ok claims ∧ checkClaims claims now currentUserId = .ok () ∧
      Written claims.fileId claims.expiresAt (bound claims.userId) f e u ∧ fileId = claims.fileId ∧
      ∃ r ∈ tried host.rules p.path, claims.signature =
        host.signature (joinParts (r ++ tail (others p.query) []) f e u) := by
  cases read : urlparse host.rules url with
  | none =>
    have raised : verifyUrl host now url currentUserId = .error .valueError := by
      simp only [verifyUrl, parse, read]
      rfl
    simp [raised]
  | some p =>
    obtain ⟨base, left, without, again, path, query⟩ := removed read
    have parsed := (parsed_of_urlparse read).1
    have readings := @candidates_readings host left base _ (path ▸ bare_settled parsed)
      (encoded_urlencode _) again query
    rw [path, tried_settled] at readings
    have steps : verifyUrl host now url currentUserId = (do
        let claims ← readClaims (parseQs p.query)
        checkClaims claims now currentUserId
        if ← matchesAny host claims (candidates base left) then return claims.fileId
        throw (.invalid "Invalid signature")) := by
      simp only [verifyUrl, parse, bind, Except.bind, read, without, again]
    rw [steps]
    constructor
    · intro accepted
      cases claimed : readClaims (parseQs p.query) with
      | error failure => rw [claimed] at accepted; cases accepted
      | ok claims =>
        rw [claimed] at accepted
        cases checked : checkClaims claims now currentUserId with
        | error failure => simp only [Except.bind, bind, checked] at accepted; cases accepted
        | ok =>
          simp only [Except.bind, bind, checked] at accepted
          cases matched : matchesAny host claims (candidates base left) with
          | error failure => rw [matched] at accepted; cases accepted
          | ok found =>
            rw [matched] at accepted
            cases found with
            | false => cases accepted
            | true =>
              obtain ⟨f, e, u, written⟩ := written_of_matches matched
              obtain ⟨clean, among, same⟩ := (matchesAny_iff written _).mp matched
              rw [readings] at among
              obtain ⟨r, tried, rfl⟩ := List.mem_map.mp among
              cases accepted
              exact ⟨p, claims, f, e, u, rfl, claimed, checked, written, rfl, r, tried, same⟩
    · rintro ⟨p', claims, f, e, u, same_parts, claimed, checked, written, rfl, r, among, same⟩
      cases same_parts
      have matched : matchesAny host claims (candidates base left) = .ok true := by
        refine (matchesAny_iff written _).mpr ⟨r ++ tail (others p.query) [], ?_, same⟩
        rw [readings]
        exact List.mem_map_of_mem among
      simp only [claimed, bind, Except.bind, checked, matched]
      rfl

end Verify

end Plexichat.Media.Signing
