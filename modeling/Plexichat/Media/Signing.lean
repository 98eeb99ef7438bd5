import Plexichat.Library.Numeral
import Plexichat.Library.Url
import Plexichat.Library.UrlQuery

/-! core/media/security/signing.py: signed URLs, without extra data in the signature. -/
namespace Plexichat.Media.Signing
open Url UrlQuery

abbrev Text := List Char

structure Host where
  rules : Rules
  /-- `_generate_signature`: HMAC under the key of the signer, in Base64. -/
  signature (data : Text) : Text
  some_signature (data : Text) : signature data ≠ []
  defaultExpiry : Int

inductive SigningFailure where
  /-- What urlparse, str and int raise. -/
  | valueError
  | expired (message : String)
  | invalid (message : String)
  deriving DecidableEq

structure SignedUrl where
  url : Text
  expiresAt : Int
  signature : Text
  fileId : Int
  deriving DecidableEq

structure Call where
  url : Text
  fileId : Int
  userId : Option Int
  expiresIn : Option Int
  now : Int

def sig : Text := "sig".toList
def exp : Text := "exp".toList
def fid : Text := "fid".toList
def uid : Text := "uid".toList

def reserved : List Text := [sig, exp, fid, uid]

def parse (rules : Rules) (url : Text) : Except SigningFailure Parts :=
  match urlparse rules url with
  | some p => .ok p
  | none => .error .valueError

def str (n : Int) : Except SigningFailure Text :=
  match Json.dumpsInt n with
  | .ok t => .ok t
  | .error _ => .error .valueError

def lstrip (t : Text) : Text := t.dropWhile (· == '/')

def bound (userId : Option Int) : Option Int := userId.filter (· ≠ 0)

def joinParts (clean fileId expiresAt : Text) : Option Text → Text
  | none => clean ++ '|' :: fileId ++ '|' :: expiresAt
  | some user => clean ++ '|' :: fileId ++ '|' :: expiresAt ++ '|' :: (uid ++ '=' :: user)

def strUser : Option Int → Except SigningFailure (Option Text)
  | none => .ok none
  | some user => do return some (← str user)

section Code

variable (host : Host)

def cleanUrl (rules : Rules) (url : Text) : Option Text :=
  (urlparse rules url).map fun p => lstrip (p.path ++ tail p.query [])

def buildSignatureData (url : Text) (fileId expiresAt : Int) (user : Option Int) :
    Except SigningFailure Text :=
  match cleanUrl host.rules url with
  | none => .error .valueError
  | some clean => do return joinParts clean (← str fileId) (← str expiresAt) (← strUser user)

def signedParams (params : Params) (fileId expiresAt signature : Text) (user : Option Text) : Params :=
  let params := set (set (set params fid [fileId]) exp [expiresAt]) sig [signature]
  match user with
  | none => params
  | some user => set params uid [user]

def appendSignatureParams (url fileId expiresAt signature : Text) (user : Option Text) :
    Except SigningFailure Text := do
  let parsed ← parse host.rules url
  let params := signedParams (parseQs parsed.query) fileId expiresAt signature user
  return urlunparse { parsed with query := urlencode (flat params) }

def removeSignatureParams (url : Text) : Except SigningFailure Text := do
  let parsed ← parse host.rules url
  let params := reserved.foldl pop (parseQs parsed.query)
  return urlunparse { parsed with query := urlencode (flat params) }

def expiresAt (call : Call) : Int :=
  let expirySeconds := match call.expiresIn with
    | some seconds => if seconds = 0 then host.defaultExpiry else seconds
    | none => host.defaultExpiry
  call.now + expirySeconds * 1000

def signUrl (call : Call) : Except SigningFailure SignedUrl := do
  let expires := expiresAt host call
  let data ← buildSignatureData host call.url call.fileId expires (bound call.userId)
  let signature := host.signature data
  let url ← appendSignatureParams host call.url (← str call.fileId) (← str expires) signature
    (← strUser (bound call.userId))
  return ⟨url, expires, signature, call.fileId⟩

structure Claims where
  signature : Text
  expiresAt : Int
  fileId : Int
  userId : Option Int

def readInt (text : Text) : Except SigningFailure Int :=
  match Numeral.int text with
  | some n => .ok n
  | none => .error (.invalid "Invalid signature parameters")

def readUser : Option Text → Except SigningFailure (Option Int)
  | none => .ok none
  | some text => do return some (← readInt text)

def readClaims (params : Params) : Except SigningFailure Claims :=
  match first params sig, first params exp, first params fid with
  | some signature, some expiresStr, some fileIdStr => do
    let expiresAt ← readInt expiresStr
    let fileId ← readInt fileIdStr
    let userId ← readUser (first params uid)
    return ⟨signature, expiresAt, fileId, userId⟩
  | _, _, _ => .error (.invalid "Missing signature parameters")

/-- Whether the signature is that of one of the URLs; the first one that it is of ends the
search, and so does an exception. -/
def matchesAny (claims : Claims) : List Text → Except SigningFailure Bool
  | [] => .ok false
  | url :: rest => do
    let data ← buildSignatureData host url claims.fileId claims.expiresAt (bound claims.userId)
    if claims.signature = host.signature data then return true
    matchesAny claims rest

def candidates (base : Text) (parsed : Parts) : List Text :=
  [parsed.path, lstrip parsed.path, '/' :: lstrip parsed.path].map (· ++ tail parsed.query []) ++
    [base]

def checkClaims (claims : Claims) (now : Int) (currentUserId : Option Int) :
    Except SigningFailure Unit :=
  if claims.expiresAt < now then .error (.expired "Signed URL has expired")
  else if claims.userId ≠ none ∧ currentUserId ≠ claims.userId then
    .error (.invalid "User not authorized to access this URL")
  else .ok ()

def verifyUrl (now : Int) (url : Text) (currentUserId : Option Int) : Except SigningFailure Int := do
  let parsed ← parse host.rules url
  let claims ← readClaims (parseQs parsed.query)
  checkClaims claims now currentUserId
  let base ← removeSignatureParams host url
  let parsedBase ← parse host.rules base
  if ← matchesAny host claims (candidates base parsedBase) then return claims.fileId
  throw (.invalid "Invalid signature")

end Code

end Plexichat.Media.Signing
