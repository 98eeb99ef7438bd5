import Plexichat.Media.SignedRoundTrip

/-! What a URL that is accepted has in common with one that was signed. -/
namespace Plexichat.Media.Signing
open Url UrlQuery

section Integrity

variable {host : Host} {url : Text} {p : Parts} {claims : Claims} {call : Call}
  {given : Call → Prop}

/-- The URL says what sign_url was called with: the path up to leading slashes, the other
parameters, the file, the expiry and the user. -/
structure SameAs (host : Host) (p : Parts) (claims : Claims) (call : Call) : Prop where
  parts : ∃ q, urlparse host.rules call.url = some q ∧ lstrip p.path = lstrip q.path ∧
    reserved.foldl pop (parseQs p.query) = parseQs q.query
  fileId : claims.fileId = call.fileId
  expiresAt : claims.expiresAt = expiresAt host call
  userId : claims.userId = bound call.userId

def Unforged (host : Host) (given : Call → Prop) (claims : Claims) : Prop :=
  ∀ data, claims.signature = host.signature data → ∃ call, given call ∧
    buildSignatureData host call.url call.fileId (expiresAt host call) (bound call.userId) = .ok data

def Steady (rules : Rules) (path : Text) : Prop := ∀ r ∈ tried rules path, r = lstrip path

def Traced (host : Host) (path : Text) : Prop :=
  ∀ accepted p claims given now currentUserId n, urlparse host.rules accepted = some p →
    p.path = path → readClaims (parseQs p.query) = .ok claims → claims.userId ≠ some 0 →
    Unforged host given claims → verifyUrl host now accepted currentUserId = .ok n →
    ∃ call, given call ∧ SameAs host p claims call ∧ n = call.fileId

theorem wf_foldl_pop {d : Params} (wf : Wf d) (names : List Text) : Wf (names.foldl pop d) := by
  induction names generalizing d with
  | nil => exact wf
  | cons name names ih => exact ih (wf_pop wf name)

theorem bound_of_ne_zero {user : Option Int} (other : user ≠ some 0) : bound user = user := by
  cases user with
  | none => rfl
  | some n =>
    have nonzero : n ≠ 0 := fun zero => other (congrArg some zero)
    exact Option.filter_some_pos (by simpa using nonzero)

theorem same_of_accepted {now n : Int} {currentUserId : Option Int}
    (read : urlparse host.rules url = some p) (claimed : readClaims (parseQs p.query) = .ok claims)
    (steady : Steady host.rules p.path) (nonzero : claims.userId ≠ some 0)
    (unforged : Unforged host given claims)
    (accepted : verifyUrl host now url currentUserId = .ok n) :
    ∃ call, given call ∧ SameAs host p claims call ∧ n = call.fileId := by
  obtain ⟨p', claims', f, e, u, read', claimed', -, written, rfl, r, among, same⟩ :=
    verifyUrl_iff.mp accepted
  cases read.symm.trans read'
  cases claimed.symm.trans claimed'
  obtain ⟨call, issued, built⟩ := unforged _ same
  obtain ⟨f', e', u', clean, written', cleaned, joined⟩ := written_of_build built
  obtain ⟨rfl, fileIds, expiries, users⟩ := joinParts_injective written written' joined
  obtain ⟨q, parsed, texts⟩ := Option.map_eq_some_iff.mp cleaned
  rw [lstrip_tail] at texts
  have bare := (bare_lstrip (bare_path (parsed_of_urlparse parsed).1)).1.1
  have bare_r := tried_bare (bare_path (parsed_of_urlparse read).1) among
  obtain ⟨path, query⟩ := append_tail_injective bare bare_r.1 texts
  rw [bound_of_ne_zero nonzero] at users
  refine ⟨call, issued, ⟨⟨q, parsed, ?_, ?_⟩, fileIds, expiries, users⟩, fileIds⟩
  · rw [path, steady r among]
  · rw [query, others, parseQs_urlencode (wf_foldl_pop (wf_parseQs p.query) reserved)]

theorem steady_nil (rules : Rules) : Steady rules [] := by
  have none_left : lstrip [] = [] := rfl
  simp [Steady, tried, attempts, none_left, cleanUrl_nil]

theorem accepted_of_reading (injective : Function.Injective host.signature)
    (read : urlparse host.rules url = some p) (unsteady : ¬Steady host.rules p.path) :
    ∃ given accepted p' claims n, urlparse host.rules accepted = some p' ∧ p'.path = p.path ∧
      readClaims (parseQs p'.query) = .ok claims ∧ claims.userId ≠ some 0 ∧
      Unforged host given claims ∧ verifyUrl host 0 accepted none = .ok n ∧
      ∀ call, given call → ¬SameAs host p' claims call := by
  obtain ⟨parsed, allowed⟩ := parsed_of_urlparse read
  obtain ⟨r, among, other⟩ : ∃ r ∈ tried host.rules p.path, r ≠ lstrip p.path := by
    by_contra none_other
    push Not at none_other
    exact unsteady none_other
  obtain ⟨text, x, bare, reading, rfl⟩ := (mem_tried (bare_path parsed) among).resolve_right other
  have some_path : p.path ≠ [] := by
    intro empty
    rw [empty] at unsteady
    exact unsteady (steady_nil host.rules)
  -- the path is signed as the text that it is read as
  let call : Text → Call := fun url => ⟨url, 1, none, some 1, 0⟩
  have written : Written 1 1000 none ['1'] "1000".toList none := ⟨rfl, rfl, rfl⟩
  have built : buildSignatureData host text 1 1000 none =
      .ok (joinParts (lstrip x.path) ['1'] "1000".toList none) := by
    rw [buildSignatureData_eq written, cleanUrl_of_bare bare reading]
  have whole := urlparse_address parsed allowed
  let signed : SignedUrl := ⟨urlunparse { settled p with
      query := urlencode (flat (signedParams (parseQs []) ['1'] "1000".toList
        (host.signature (joinParts (lstrip x.path) ['1'] "1000".toList none)) none))
      fragment := [] }, 1000, [], 1⟩
  obtain ⟨left, again, path, claimed, rest⟩ := @signed_parts host (call (address p)) signed _ _ _ _
    whole (by intro name _ member; cases member) written _ (host.some_signature _) rfl
  have same_path : left.path = p.path := by
    rw [path]
    simp [settled, some_path]
  have unbound : bound (call (address p)).userId ≠ some 0 := by
    intro zero
    cases zero
  refine ⟨fun other => other = call text, signed.url, left, _, 1, again, same_path, claimed,
    unbound, ?_, ?_, ?_⟩
  · intro data same
    rw [← injective same]
    exact ⟨call text, rfl, built⟩
  · refine verifyUrl_iff.mpr ⟨left, _, ['1'], "1000".toList, none, again, claimed, rfl, written, rfl,
      lstrip x.path, ?_, ?_⟩
    · rw [same_path]
      exact among
    · rw [rest]
      have nothing : urlencode (flat (parseQs [])) = [] := rfl
      dsimp only
      rw [nothing]
      exact congrArg host.signature (by simp [tail])
  · rintro _ rfl same
    obtain ⟨q, read_again, paths, -⟩ := same.parts
    cases reading.symm.trans read_again
    rw [same_path] at paths
    exact other paths.symm

theorem traced_iff_steady (injective : Function.Injective host.signature)
    (read : urlparse host.rules url = some p) : Traced host p.path ↔ Steady host.rules p.path := by
  constructor
  · intro traced
    by_contra unsteady
    obtain ⟨given, accepted, p', claims, n, read', path, claimed, nonzero, unforged, verified,
      other⟩ := accepted_of_reading injective read unsteady
    obtain ⟨call, issued, same, -⟩ :=
      traced accepted p' claims given 0 none n read' path claimed nonzero unforged verified
    exact other call issued same
  · intro steady accepted p' claims given now currentUserId n read' path claimed nonzero unforged
      verified
    rw [← path] at steady
    exact same_of_accepted read' claimed steady nonzero unforged verified

theorem bound_ne_zero (user : Option Int) : bound user ≠ some 0 := by
  simp [bound, Option.filter_eq_some_iff]

theorem signing_exact (host : Host) (injective : Function.Injective host.signature) :
    (∀ call signed p now, signUrl host call = .ok signed →
      urlparse host.rules call.url = some p → Unreserved (parseQs p.query) →
      now ≤ signed.expiresAt →
      (verifyUrl host now signed.url call.userId = .ok call.fileId ↔ ReadsBack host.rules p)) ∧
    (∀ url p, urlparse host.rules url = some p →
      (Traced host p.path ↔ Steady host.rules p.path)) ∧
    ∀ p claims call, claims.userId = some 0 → ¬SameAs host p claims call :=
  ⟨fun _ _ _ _ issued read unreserved in_time =>
      round_trip injective issued read unreserved in_time,
    fun _ _ read => traced_iff_steady injective read,
    fun _ _ call zero same => bound_ne_zero call.userId (same.userId.symm.trans zero)⟩

def openHost : Host where
  rules := ⟨fun _ => true, rfl⟩
  signature data := 's' :: data
  some_signature _ := List.cons_ne_nil _ _
  defaultExpiry := 3600

theorem openHost_injective : Function.Injective openHost.signature :=
  fun _ _ same => (List.cons.inj same).2

def imageCall : Call := ⟨"/media/a.png?v=1".toList, 7, some 3, none, 0⟩

def imageSigned : SignedUrl where
  url := "/media/a.png?v=1&fid=7&exp=3600000&sig=smedia%2Fa.png%3Fv%3D1%7C7%7C3600000%7Cuid%3D3&uid=3".toList
  expiresAt := 3600000
  signature := "smedia/a.png?v=1|7|3600000|uid=3".toList
  fileId := 7

theorem signing_exact_image : verifyUrl openHost 5 imageSigned.url (some 3) = .ok 7 :=
  ((signing_exact openHost openHost_injective).1 imageCall imageSigned
    ⟨[], [], "/media/a.png".toList, [], "v=1".toList, []⟩ 5 (by decide +kernel) (by decide +kernel)
    (by unfold Unreserved; decide +kernel) (by decide)).mpr
    ⟨by decide +kernel, by decide +kernel⟩

def blankCall : Call := ⟨"/media/a.png?v=".toList, 7, none, none, 0⟩

def blankSigned : SignedUrl where
  url := "/media/a.png?fid=7&exp=3600000&sig=smedia%2Fa.png%3Fv%3D%7C7%7C3600000".toList
  expiresAt := 3600000
  signature := "smedia/a.png?v=|7|3600000".toList
  fileId := 7

/-- A blank parameter is signed, and not verified. -/
theorem blank_value_lost : signUrl openHost blankCall = .ok blankSigned ∧
    Unreserved (parseQs "v=".toList) ∧ blankCall.now ≤ blankSigned.expiresAt ∧
    verifyUrl openHost blankCall.now blankSigned.url blankCall.userId =
      .error (.invalid "Invalid signature") :=
  ⟨by decide +kernel, by unfold Unreserved; decide +kernel, by decide, by decide +kernel⟩

end Integrity

end Plexichat.Media.Signing
