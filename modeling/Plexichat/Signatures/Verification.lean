import Plexichat.Library.Base64
import Plexichat.Library.Interleaving
import Plexichat.Library.Text

/-! api/routes/federation.py, core/plexijoin/manager.py and core/webhooks/manager/signature.py:
signed requests of federation peers and of webhooks, verified side by side. -/
namespace Plexichat.Signatures
open Transition Interleaving

variable {ρ : Type}

inductive Status where
  | pending
  | active
  | broken
  deriving DecidableEq

/-- The columns that an authentication reads, with no key where it cannot be decrypted. -/
structure Connection where
  id : Nat
  status : Status
  sharedKey : Option (List Char)
  createdAt : Nat
  deriving DecidableEq

structure Request where
  body : List UInt8
  signature : Option (List Char)
  timestamp : Option (List Char)
  nonce : Option (List Char)

structure Envelope where
  body : List UInt8
  signature : List Char
  timestamp : List Char
  nonce : List Char
  seconds : Int
  deriving DecidableEq

/-- The column signing_key_public. -/
inductive PublicKey where
  | raw (bytes : List UInt8)
  | text (t : List Char)

structure Delivery (ρ : Type) where
  webhook : Nat
  payload : ρ
  signature : Option (List Char)
  timestamp : Option (List Char)

structure Signed where
  webhook : Nat
  data : List UInt8
  signature : List UInt8
  deriving DecidableEq

structure Host (ρ : Type) where
  /-- The hexadecimal digest of HMAC-SHA256, of a key and a text. -/
  hmac : List UInt8 → List UInt8 → List Char
  hmac_ascii : ∀ key t, (hmac key t).all (·.toNat < 128)
  sha256 : List UInt8 → List Char
  /-- Of a public key, a signature and what is signed. -/
  ed25519 : List UInt8 → List UInt8 → List UInt8 → Bool
  /-- The sorted and compact json of a payload; none where it raises. -/
  dumps : ρ → Option (List UInt8)
  /-- ORDER BY created_at DESC. -/
  newestFirst : List Connection → List Connection
  newestFirst_perm : ∀ l, (newestFirst l).Perm l
  newestFirst_sorted : ∀ l, (newestFirst l).Pairwise fun a b => b.createdAt ≤ a.createdAt
  /-- Whether the cache still has an entry, at a time, that lives until another. -/
  served : Nat → Nat → Bool

/-- A row of plexijoin_replay_nonces. -/
structure Seen where
  connection : Nat
  nonce : List Char
  seenAt : Int

structure Shared where
  clock : Nat
  connections : List Connection
  keys : Nat → Option PublicKey
  nonces : List Seen
  cache : List Char → Option Nat

inductive Phase (ρ : Type) where
  | idle
  | refused
  /-- With the statuses that are still to be tried. -/
  | listing (e : Envelope) (statuses : List Status)
  | trying (e : Envelope) (left : List Connection) (statuses : List Status)
  | claiming (e : Envelope) (c : Connection) (now : Int) (left : List Connection)
      (statuses : List Status)
  | pruning (e : Envelope) (c : Connection) (now : Int)
  | authenticated (e : Envelope) (c : Connection)
  | fetching (webhook : Nat) (payload : ρ) (signature : List Char) (timestamp : Int)
  | looking (webhook : Nat) (payload : ρ) (timestamp : Int) (key signature : List UInt8)
  | storing (m : Signed)
  | verified (m : Signed)
  deriving DecidableEq

inductive Action (ρ : Type) where
  | authenticate (q : Request) (statuses : List Status)
  | verifyPayload (d : Delivery ρ)
  | advance
  /-- The database raises. -/
  | fail
  | tick (milliseconds : Nat)

def maxSkew : Int := 300

def webhookReplayWindowSeconds : Int := 5 * 60

def replayCacheTtlSeconds : Nat := 5 * 60 * 2

def Shared.seconds (s : Shared) : Int := (s.clock / 1000 : Nat)

def given (header : Option (List Char)) : Option (List Char) := header.filter (· ≠ [])

def Request.read (q : Request) : Option Envelope := do
  let signature ← given q.signature
  let timestamp ← given q.timestamp
  let nonce ← given q.nonce
  let seconds ← Text.int timestamp
  return ⟨q.body, signature, timestamp, nonce, seconds⟩

/-- `t.encode("ascii")`; none is UnicodeEncodeError. -/
def ascii (t : List Char) : Option (List UInt8) :=
  if t.all (·.toNat < 128) then some (t.map fun c => UInt8.ofNat c.toNat) else none

/-- `hmac.compare_digest(a, b)`; none is TypeError. -/
def compareDigest (a b : List Char) : Option Bool :=
  if (a ++ b).all (·.toNat < 128) then some (decide (a = b)) else none

def signatureMaterial (e : Envelope) : Option (List UInt8) := do
  let timestamp ← ascii e.timestamp
  let nonce ← ascii e.nonce
  return e.body ++ 10 :: timestamp ++ 10 :: nonce

section Code

variable (host : Host ρ)

/-- None where it raises. -/
def verifyPayloadSignature (key : Option (List Char)) (e : Envelope) : Option Bool :=
  match given key with
  | none => some false
  | some key =>
    if e.signature = [] then some false
    else (signatureMaterial e).bind fun t => compareDigest (host.hmac (Text.utf8 key) t) e.signature

/-- The first page of list_connections. -/
def listConnections (connections : List Connection) (status : Status) : List Connection :=
  (host.newestFirst (connections.filter (·.status = status))).take 50

/-- What consume_replay_nonce asks of a nonce and of a timestamp. -/
def claimable (e : Envelope) (now : Int) : Bool :=
  e.nonce ≠ [] && e.nonce.length ≤ 256 && (now - e.seconds).natAbs ≤ maxSkew.toNat

def Shared.seen (s : Shared) (x : Envelope × Nat) : Bool :=
  s.nonces.any fun r => r.connection = x.2 && r.nonce = x.1.nonce

def Shared.claim (s : Shared) (c : Connection) (e : Envelope) (now : Int) : Shared :=
  { s with nonces := s.nonces ++ [⟨c.id, e.nonce, now⟩] }

def Shared.prune (s : Shared) (now : Int) : Shared :=
  { s with nonces := s.nonces.filter fun r => !decide (r.seenAt < now - maxSkew) }

def PublicKey.bytes : PublicKey → Option (List UInt8)
  | .raw b => if b.length = 32 then some b else none
  | .text t => if t = [] then none else Base64.decode t

def urlsafe (t : List Char) : List Char :=
  t.map fun c => if c = '-' then '+' else if c = '_' then '/' else c

def decodeSignature (t : List Char) : Option (List UInt8) :=
  (Base64.decode (urlsafe t)).or (Base64.decode t)

def replayCacheKey (webhook : Nat) (signature : List UInt8) : List Char :=
  "webhook:signature-seen:".toList ++ Text.decimal webhook ++ ':' :: host.sha256 signature

def signedData (payload : ρ) (timestamp : Int) : Option (List UInt8) :=
  (host.dumps payload).map fun json =>
    Text.utf8 ("v1.".toList ++ (if timestamp < 0 then ['-'] else []) ++
      Text.decimal timestamp.natAbs ++ ['.']) ++ json

def Shared.cached (s : Shared) (key : List Char) : Bool :=
  (s.cache key).any fun expiry => host.served s.clock expiry

def Shared.store (s : Shared) (key : List Char) : Shared :=
  { s with cache := Function.update s.cache key (some (s.clock + replayCacheTtlSeconds * 1000)) }

/-- The start of verify_payload, up to the row of the webhook. -/
def checkTimestamp (s : Shared) (d : Delivery ρ) : Phase ρ :=
  match given d.signature, (given d.timestamp).bind Text.int with
  | some signature, some timestamp =>
    if webhookReplayWindowSeconds * 1000 < ((s.clock : Int) - timestamp).natAbs then .refused
    else .fetching d.webhook d.payload signature timestamp
  | _, _ => .refused

def advance (s : Shared) : Phase ρ → Option (Shared × Phase ρ)
  | .listing _ [] => some (s, .refused)
  | .listing e (status :: statuses) =>
    some (s, .trying e (listConnections host s.connections status) statuses)
  | .trying e [] statuses => some (s, .listing e statuses)
  | .trying e (c :: left) statuses =>
    match verifyPayloadSignature host c.sharedKey e with
    | none => some (s, .refused)
    | some valid =>
      if valid && claimable e s.seconds then some (s, .claiming e c s.seconds left statuses)
      else some (s, .trying e left statuses)
  | .claiming e c now left statuses =>
    if s.seen (e, c.id) then some (s, .trying e left statuses)
    else some (s.claim c e now, .pruning e c now)
  | .pruning e c now => some (s.prune now, .authenticated e c)
  | .fetching webhook payload signature timestamp =>
    match (s.keys webhook).bind PublicKey.bytes, decodeSignature signature with
    | some key, some signature => some (s, .looking webhook payload timestamp key signature)
    | _, _ => some (s, .refused)
  | .looking webhook payload timestamp key signature =>
    if s.cached host (replayCacheKey host webhook signature) then some (s, .refused)
    else match signedData host payload timestamp with
      | none => some (s, .refused)
      | some data =>
        if host.ed25519 key signature data then some (s, .storing ⟨webhook, data, signature⟩)
        else some (s, .refused)
  | .storing m => some (s.store (replayCacheKey host m.webhook m.signature), .verified m)
  | .idle | .refused | .authenticated _ _ | .verified _ => none

/-- What goes on where the database raises; the cache is reachable. -/
def failed (s : Shared) : Phase ρ → Option (Shared × Phase ρ)
  | .listing e (_ :: statuses) => some (s, .listing e statuses)
  | .claiming _ _ _ _ _ | .fetching _ _ _ _ => some (s, .refused)
  | .pruning e c _ => some (s, .authenticated e c)
  | _ => none

def next (s : Shared) (p : Phase ρ) : Action ρ → Option (Shared × Phase ρ)
  | .advance => advance host s p
  | .fail => failed s p
  | .tick n => some ({ s with clock := s.clock + n }, p)
  | .authenticate q statuses =>
    match p with
    | .idle => some (s, q.read.elim .refused fun e => .listing e statuses)
    | _ => none
  | .verifyPayload d =>
    match p with
    | .idle => some (s, checkTimestamp s d)
    | _ => none

end Code

abbrev World (ι ρ : Type) := Interleaving.State ι Shared (Phase ρ)

variable {ι : Type}

def init (s : World ι ρ) : Prop := ∀ i, s.pc i = .idle

end Plexichat.Signatures
