import Plexichat.Media.SignedUrls

/-! When a URL that was signed is verified. -/
namespace Plexichat.Media.Signing
open Url UrlQuery

section Params

variable {d : Params} {f e s : Text} {u : Option Text}

theorem first_append {name : Text} (fresh : name ∉ d.map Prod.fst) (rest : Params) :
    first (d ++ rest) name = first rest name := by
  have none_there : d.find? (fun entry => entry.1 = name) = none := by
    rw [List.find?_eq_none]
    intro entry member
    have other : entry.1 ≠ name := fun e => fresh (e ▸ List.mem_map_of_mem member)
    simpa using other
  rw [first, first, List.find?_append, none_there, Option.none_or]

def added (f e s : Text) (u : Option Text) : Params :=
  [(fid, [f]), (exp, [e]), (sig, [s])] ++ match u with
    | none => []
    | some user => [(uid, [user])]

theorem added_facts (f e s : Text) (u : Option Text) :
    first (added f e s u) sig = some s ∧ first (added f e s u) exp = some e ∧
      first (added f e s u) fid = some f ∧ first (added f e s u) uid = u ∧
      reserved.foldl pop (added f e s u) = [] := by
  cases u <;> exact ⟨rfl, rfl, rfl, rfl, rfl⟩

def Unreserved (d : Params) : Prop := ∀ name ∈ reserved, name ∉ d.map Prod.fst

theorem signedParams_eq (unreserved : Unreserved d) : signedParams d f e s u = d ++ added f e s u := by
  have fresh : ∀ name ∈ reserved, ∀ rest : Params, name ∉ rest.map Prod.fst →
      name ∉ (d ++ rest).map Prod.fst := by
    intro name member rest other
    rw [List.map_append, List.mem_append, not_or]
    exact ⟨unreserved name member, other⟩
  have apart : exp ≠ fid ∧ sig ≠ fid ∧ sig ≠ exp ∧ uid ≠ fid ∧ uid ≠ exp ∧ uid ≠ sig := by decide
  have first_three : set (set (set d fid [f]) exp [e]) sig [s] =
      d ++ [(fid, [f]), (exp, [e]), (sig, [s])] := by
    rw [set_fresh (unreserved fid (by decide)),
      set_fresh (fresh exp (by decide) _ (by simp [apart])), List.append_assoc,
      List.singleton_append, set_fresh (fresh sig (by decide) _ (by simp [apart])),
      List.append_assoc]
    rfl
  unfold signedParams
  simp only [first_three]
  cases u with
  | none => simp [added]
  | some user =>
    dsimp only
    rw [set_fresh (fresh uid (by decide) _ (by simp [apart])), List.append_assoc]
    rfl

theorem foldl_pop_append (names : List Text) (d rest : Params) :
    names.foldl pop (d ++ rest) = names.foldl pop d ++ names.foldl pop rest := by
  induction names generalizing d rest with
  | nil => rfl
  | cons name names ih =>
    rw [List.foldl_cons, List.foldl_cons, List.foldl_cons, ← ih]
    simp [pop]

theorem foldl_pop_fresh {names : List Text} (fresh : ∀ name ∈ names, name ∉ d.map Prod.fst) :
    names.foldl pop d = d := by
  induction names with
  | nil => rfl
  | cons name names ih =>
    rw [List.foldl_cons, pop_fresh (fresh name List.mem_cons_self)]
    exact ih fun other member => fresh other (List.mem_cons_of_mem name member)

theorem wf_signedParams (wf : Wf d) (some_f : f ≠ []) (some_e : e ≠ []) (some_s : s ≠ [])
    (some_u : u ≠ some []) : Wf (signedParams d f e s u) := by
  have three := wf_set (wf_set (wf_set wf fid some_f) exp some_e) sig some_s
  unfold signedParams
  cases u with
  | none => exact three
  | some user => exact wf_set three uid fun empty => some_u (congrArg some empty)

end Params

section RoundTrip

variable {host : Host} {call : Call} {signed : SignedUrl}

theorem signUrl_eq_ok (issued : signUrl host call = .ok signed) :
    ∃ p f e u, urlparse host.rules call.url = some p ∧
      Written call.fileId (expiresAt host call) (bound call.userId) f e u ∧
      signed.expiresAt = expiresAt host call ∧
      signed.signature = host.signature (joinParts (lstrip p.path ++ tail p.query []) f e u) ∧
      signed.url = urlunparse { p with
        query := urlencode (flat (signedParams (parseQs p.query) f e signed.signature u)) } := by
  unfold signUrl at issued
  cases built : buildSignatureData host call.url call.fileId (expiresAt host call)
      (bound call.userId) with
  | error failure => simp only [built, bind, Except.bind] at issued; cases issued
  | ok data =>
    obtain ⟨f, e, u, clean, written, read, rfl⟩ := written_of_build built
    obtain ⟨p, parsed, rfl⟩ := Option.map_eq_some_iff.mp read
    simp only [built, written.fileId, written.expiresAt, written.user, appendSignatureParams, parse,
      parsed, bind, Except.bind] at issued
    cases issued
    exact ⟨p, f, e, u, parsed, written, rfl, by rw [lstrip_tail], by rw [lstrip_tail]⟩

/-- The query that is signed is the one that is left when the signature is taken out again, and
the path is read back from what is compared. -/
structure ReadsBack (rules : Rules) (p : Parts) : Prop where
  query : urlencode (flat (parseQs p.query)) = p.query
  path : lstrip p.path ∈ tried rules p.path

theorem append_tail_injective {a b query query' : Text} (apart : '?' ∉ a) (apart' : '?' ∉ b)
    (same : a ++ tail query [] = b ++ tail query' []) : a = b ∧ query = query' := by
  have first := partition_query apart query
  rw [same, partition_query apart' query'] at first
  obtain ⟨texts, queries⟩ := Prod.mk.inj first
  exact ⟨texts.symm, queries.symm⟩

theorem written_unique {n m : Int} {o : Option Int} {f f' e e' : Text} {u u' : Option Text}
    (first : Written n m o f e u) (second : Written n m o f' e' u') : f = f' ∧ e = e' ∧ u = u' :=
  ⟨Except.ok.inj (first.fileId.symm.trans second.fileId),
    Except.ok.inj (first.expiresAt.symm.trans second.expiresAt),
    Except.ok.inj (first.user.symm.trans second.user)⟩

theorem readClaims_signed {d : Params} {fileId expires : Int} {user : Option Int} {f e s : Text}
    {u : Option Text} (unreserved : Unreserved d) (written : Written fileId expires user f e u) :
    readClaims (signedParams d f e s u) = .ok ⟨s, expires, fileId, user⟩ := by
  obtain ⟨hsig, hexp, hfid, huid, -⟩ := added_facts f e s u
  rw [signedParams_eq unreserved, readClaims, first_append (unreserved sig (by decide)),
    first_append (unreserved exp (by decide)), first_append (unreserved fid (by decide)),
    first_append (unreserved uid (by decide)), hsig, hexp, hfid, huid]
  have numbers := readInt_str written.fileId
  have times := readInt_str written.expiresAt
  have users : readUser u = .ok user := by
    rcases strUser_eq_ok written.user with ⟨rfl, rfl⟩ | ⟨n, t, rfl, rfl, number⟩
    · rfl
    · simp only [readUser, readInt_str number]
      rfl
  simp only [numbers, times, users, bind, Except.bind]
  rfl

theorem bound_bound (user : Option Int) : bound (bound user) = bound user := by
  simp [bound, Option.filter_filter]

theorem checkClaims_signed {claims : Claims} {now : Int} {user : Option Int}
    (in_time : now ≤ claims.expiresAt) (same : claims.userId = bound user) :
    checkClaims claims now user = .ok () := by
  have authorized : ¬(claims.userId ≠ none ∧ user ≠ claims.userId) := by
    rw [same]
    rintro ⟨some_user, other⟩
    cases user with
    | none => exact some_user rfl
    | some n =>
      by_cases zero : n = 0
      · exact some_user (by simp [bound, zero])
      · exact other (Option.filter_some_pos (by simpa using zero)).symm
  rw [checkClaims, if_neg (by omega), if_neg authorized]

theorem signed_parts {p : Parts} {f e : Text} {u : Option Text}
    (read : urlparse host.rules call.url = some p) (unreserved : Unreserved (parseQs p.query))
    (written : Written call.fileId (expiresAt host call) (bound call.userId) f e u)
    {s : Text} (some_signature : s ≠ [])
    (url : signed.url = urlunparse { p with
      query := urlencode (flat (signedParams (parseQs p.query) f e s u)) }) :
    ∃ left, urlparse host.rules signed.url = some left ∧
      left.path = (settled p).path ∧
      readClaims (parseQs left.query) =
        .ok ⟨s, expiresAt host call, call.fileId, bound call.userId⟩ ∧
      others left.query = urlencode (flat (parseQs p.query)) := by
  obtain ⟨parsed, accepted⟩ := parsed_of_urlparse read
  have some_user : u ≠ some [] := by
    rintro rfl
    rcases strUser_eq_ok written.user with ⟨-, other⟩ | ⟨n, t, -, same, number⟩
    · cases other
    · cases same
      exact str_ne_nil number rfl
  have wf := wf_signedParams (wf_parseQs p.query) (str_ne_nil written.fileId)
    (str_ne_nil written.expiresAt) some_signature some_user
  have encoded := encoded_urlencode (flat (signedParams (parseQs p.query) f e s u))
  have kept : ∀ c ∈ urlencode (flat (signedParams (parseQs p.query) f e s u)) ++ p.fragment,
      isRemoved c = false := by
    intro c member
    rcases List.mem_append.mp member with query | fragment
    · exact encoded.plain.2 c query
    · exact fragment_kept read c fragment
  have again := urlparse_urlunparse parsed accepted encoded.plain.1 kept
  rw [← url] at again
  refine ⟨_, again, rfl, ?_, ?_⟩
  · dsimp only
    rw [parseQs_urlencode wf]
    exact readClaims_signed unreserved written
  · dsimp only
    rw [others, parseQs_urlencode wf, signedParams_eq unreserved, foldl_pop_append,
      foldl_pop_fresh unreserved, (added_facts f e s u).2.2.2.2, List.append_nil]

/-- A URL that was signed is verified, before it expires and with its user, exactly when it
reads back. -/
theorem round_trip {p : Parts} {now : Int} (injective : Function.Injective host.signature)
    (issued : signUrl host call = .ok signed) (read : urlparse host.rules call.url = some p)
    (unreserved : Unreserved (parseQs p.query)) (in_time : now ≤ signed.expiresAt) :
    verifyUrl host now signed.url call.userId = .ok call.fileId ↔ ReadsBack host.rules p := by
  obtain ⟨p', f, e, u, read', written, expires, signature, url⟩ := signUrl_eq_ok issued
  cases read.symm.trans read'
  have some_signature : signed.signature ≠ [] := signature ▸ host.some_signature _
  obtain ⟨left, again, path, claimed, rest⟩ :=
    signed_parts read unreserved written some_signature url
  have same_tried : tried host.rules left.path = tried host.rules p.path := by
    rw [path, tried_settled]
  have bare := bare_path (parsed_of_urlparse read).1
  have checked : checkClaims ⟨signed.signature, expiresAt host call, call.fileId, bound call.userId⟩
      now call.userId = .ok () := checkClaims_signed (expires ▸ in_time) rfl
  rw [verifyUrl_iff]
  constructor
  · rintro ⟨left', claims, f', e', u', again', claimed', -, written', -, r, among, same⟩
    cases again.symm.trans again'
    cases claimed.symm.trans claimed'
    dsimp only at written' same
    rw [bound_bound] at written'
    obtain ⟨rfl, rfl, rfl⟩ := written_unique written written'
    rw [same_tried] at among
    rw [rest, signature] at same
    obtain ⟨texts, -⟩ := joinParts_injective written written (injective same)
    obtain ⟨path, query⟩ :=
      append_tail_injective (bare_lstrip bare).1.1 (tried_bare bare among).1 texts
    exact ⟨query.symm, path ▸ among⟩
  · intro reads
    have rewritten : Written call.fileId (expiresAt host call) (bound (bound call.userId)) f e u := by
      rw [bound_bound]
      exact written
    refine ⟨left, _, f, e, u, again, claimed, checked, rewritten, rfl, lstrip p.path, ?_, ?_⟩
    · rw [same_tried]
      exact reads.path
    · rw [rest, reads.query, ← signature]

end RoundTrip

end Plexichat.Media.Signing
