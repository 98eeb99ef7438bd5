import Plexichat.Library.Interleaving
import Plexichat.Library.SingleUse

/-! `complete_2fa`, `verify_totp_code` with its replay guard, the redemption of WebSocket
tickets and `verify_state`, statement by statement. Times are in milliseconds, except in
the dict of a process, which counts seconds. What each call has taken is kept beside the
tables. -/
namespace Plexichat.Auth.OneTime
open SingleUse

/-- A row of auth_2fa_challenges. -/
structure ChallengeRow where
  id : Nat
  userId : Nat
  tokenHash : String
  ipIndex : Option String
  uaIndex : Option String
  expiresAt : Int
  used : Bool
  attempts : Int

/-- A stored backup code; older ones carry a salt that is not looked at. -/
structure BackupEntry where
  salt : Option String
  hash : String
  deriving DecidableEq

/-- What is read of auth_users: the TOTP secret in the clear and the list of backup codes
that the JSON text holds. -/
structure UserRow where
  id : Nat
  totpSecret : Option String
  backupCodesHash : Option (List BackupEntry)

structure TicketRow where
  id : Nat
  sessionId : Option Nat
  ticketHash : String
  expiresAt : Int
  used : Bool

/-- A row of auth_oauth_states. -/
structure StateRow where
  id : Nat
  stateHash : String
  provider : String
  redirectUri : String
  expiresAt : Int
  used : Bool

/-- The parts of `{user_id}:{code}:p:{purpose}:a:{actor}`. -/
structure ReplayKey where
  userId : Nat
  code : String
  purpose : String
  actor : Nat
  deriving DecidableEq

inductive Place where
  | valkey
  | database
  | process (worker : Nat)
  deriving DecidableEq

/-- A TOTP code that has been taken: its time step, the clock value that the claim was made
with, and the time at which it was made. -/
structure Totp where
  place : Place
  key : ReplayKey
  timeStep : Int
  readAt : Int
  takenAt : Int

structure Taken where
  challenges : List Nat
  backups : List (Nat × String)
  tickets : List Nat
  states : List Nat
  totp : List Totp

structure Store where
  challenges : Table ChallengeRow ChallengeRow.id
  users : Table UserRow UserRow.id
  tickets : Table TicketRow TicketRow.id
  states : Table StateRow StateRow.id
  /-- The `totp_replay:` keys. -/
  valkey : Claims ReplayKey
  /-- auth_totp_replay. -/
  replay : Claims ReplayKey
  /-- `_used_codes` of each process. -/
  usedCodes : Nat → Claims ReplayKey
  now : Int
  taken : Taken

structure Host where
  verifyTokenHash (secret hash : String) : Bool
  sha256 (text : String) : String
  lower (text : String) : String
  isDigits (text : String) : Bool
  /-- The index of an address; none when it raises. -/
  ipIndex (address : String) : Option String
  /-- The index of a user agent, which may be none; none when it raises. -/
  uaIndex (agent : String) : Option (Option String)
  /-- The code that pyotp generates for a time step. -/
  otp (secret : String) (timeStep : Int) : String
  /-- NFKC, which pyotp applies to both codes before it compares them. -/
  nfkc (text : String) : String

structure OtpConfig where
  interval : Int
  maxAttempts : Int

/-- `ttl_seconds` of the replay cache. -/
def ttl : Int := 90

inductive Request where
  | completeTwoFactor (token : Option (Nat × String)) (code : String) (ip agent : Option String)
  | verifyTotp (secret : String) (userId : Nat) (code : String) (purpose : Option String)
      (actor : Option Nat)
  | redeemTicket (id : Nat) (secret : String)
  | verifyState (token provider redirectUri : String)

inductive After where
  | answer
  | login (row : ChallengeRow) (user : UserRow) (code : String)

/-- Where a call stands; `since` is the time in seconds that check_and_mark has read. -/
inductive Pc where
  | idle
  | findingChallenge (worker : Nat) (token : Option (Nat × String)) (code : String)
      (ip agent : Option String)
  | loadingUser (worker : Nat) (row : ChallengeRow) (code : String)
  | claiming (worker : Nat) (key : ReplayKey) (timeStep : Int) (after : After)
  | opening (worker : Nat) (key : ReplayKey) (timeStep since : Int) (after : After)
  | freeing (worker : Nat) (key : ReplayKey) (timeStep since readAt : Int) (after : After)
  | inserting (worker : Nat) (key : ReplayKey) (timeStep since readAt : Int) (after : After)
  | sweeping (readAt : Int) (claimed : Bool) (after : After)
  | marking (worker : Nat) (key : ReplayKey) (timeStep since : Int) (after : After)
  | burning (row : ChallengeRow) (userId : Nat) (codes : List BackupEntry) (entry : BackupEntry)
  | countingAttempt (challengeId : Nat)
  | consuming (challengeId : Nat)
  | findingTicket (id : Nat) (secret : String)
  | takingTicket (row : TicketRow)
  | readingSession (row : TicketRow)
  | cleaningStates (token provider redirectUri : String)
  | findingState (token provider redirectUri : String)
  | takingState (row : StateRow)
  | ended (accepted : Bool)

structure Env where
  /-- The limiter of 2FA attempts refuses. -/
  limited : Bool
  /-- Valkey is there and answers. -/
  valkey : Bool
  /-- The claim table is there and the statement does not raise. -/
  database : Bool
  /-- A cleanup of old entries is due. -/
  cleanup : Bool
  /-- The session of a ticket may still be used. -/
  session : Bool

inductive Action where
  | start (worker : Nat) (r : Request)
  | proceed (env : Env)
  | tick (milliseconds : Nat)

section Code

variable (h : Host) (cfg : OtpConfig)

def totpStep (secret code : String) (now : Int) : Option Int :=
  if h.isDigits code then
    [-1, 0, 1].map (now / (cfg.interval * 1000) + ·) |>.find? fun timeStep =>
      h.nfkc code = h.nfkc (h.otp secret timeStep)
  else none

def hashBackupCode (code : String) : String :=
  h.sha256 (h.lower (String.ofList (code.toList.filter (· ≠ '-'))))

def bindingMatches (row : ChallengeRow) (ip agent : Option String) : Bool :=
  (match ip, row.ipIndex with
    | some address, some index => h.ipIndex address = some index
    | _, _ => true) &&
  match agent, row.uaIndex with
  | some agent, some index =>
    match h.uaIndex agent with
    | some presented => presented.all (· = index)
    | none => false
  | _, _ => true

/-- The step after verify_totp_code has answered: a login falls back to its backup codes. -/
def answered (valid : Bool) : After → Pc
  | .answer => .ended valid
  | .login row user code =>
    if valid then .consuming row.id
    else
      let codes := user.backupCodesHash.getD []
      match codes.find? fun e => e.hash = hashBackupCode h code with
      | some entry => .burning row user.id codes entry
      | none => .countingAttempt row.id

/-- verify_totp_code up to the claim of the code. -/
def verifyTotp (worker : Nat) (secret : String) (userId : Nat) (code : String)
    (purpose : Option String) (actor : Option Nat) (now : Int) (after : After) : Pc :=
  match totpStep h cfg secret code now with
  | some timeStep =>
    let purpose := if purpose.getD "" = "" then "default" else purpose.getD ""
    .claiming worker ⟨userId, code, purpose, actor.getD userId⟩ timeStep after
  | none => answered h false after

def Store.take (c : Store) (t : Totp) : Store :=
  { c with taken := { c.taken with totp := t :: c.taken.totp } }

def Store.markUsed (c : Store) (worker : Nat) (usedCodes : Claims ReplayKey) : Store :=
  { c with usedCodes := Function.update c.usedCodes worker usedCodes }

def proceedLogin (c : Store) (env : Env) : Pc → Option (Store × Pc)
  | .findingChallenge worker token code ip agent =>
    some (c, (do
      let (id, secret) ← token
      let row ← c.challenges.find id
      if row.used || !h.verifyTokenHash secret row.tokenHash || row.expiresAt < c.now ||
          !bindingMatches h row ip agent || env.limited || cfg.maxAttempts ≤ row.attempts then none
      else some (Pc.loadingUser worker row code)).getD (.ended false))
  | .loadingUser worker row code =>
    some (c, (do
      let user ← c.users.find row.userId
      let secret ← user.totpSecret
      return verifyTotp h cfg worker secret user.id code (some "login") (some user.id) c.now
        (.login row user code)).getD (.ended false))
  | .burning row userId codes entry =>
    -- the compare-and-set on the text of the list
    if (c.users.find userId).any fun u => u.backupCodesHash = some codes then
      let remaining (u : UserRow) : UserRow :=
        { u with backupCodesHash := some (codes.erase entry) }
      some ({ c with
        users := c.users.update (fun u => u.id = userId) remaining fun _ => rfl
        taken := { c.taken with backups := (userId, entry.hash) :: c.taken.backups } },
        .consuming row.id)
    else some (c, .countingAttempt row.id)
  | .countingAttempt id =>
    let counted (r : ChallengeRow) : ChallengeRow := { r with attempts := r.attempts + 1 }
    some ({ c with challenges := c.challenges.update (fun r => r.id = id) counted fun _ => rfl },
      .ended false)
  | .consuming id =>
    let mark (r : ChallengeRow) : ChallengeRow := { r with used := true, attempts := 0 }
    match consume ChallengeRow.used mark (fun _ => rfl) c.challenges id with
    | some challenges => some ({ c with
        challenges, taken := { c.taken with challenges := id :: c.taken.challenges } }, .ended true)
    | none => some (c, .ended false)
  | _ => none

def proceedClaim (c : Store) (env : Env) : Pc → Option (Store × Pc)
  | .claiming worker key timeStep after =>
    if env.valkey then
      -- SET NX with an expiry
      match (c.valkey.delete fun e => e.expiresAt ≤ c.now).insert ⟨key, c.now + ttl * 1000⟩ with
      | some valkey => some ({ c with valkey }.take ⟨.valkey, key, timeStep, c.now, c.now⟩,
          answered h true after)
      | none => some (c, answered h false after)
    else some (c, .opening worker key timeStep (c.now / 1000) after)
  | .opening worker key timeStep since after =>
    if env.database then some (c, .freeing worker key timeStep since c.now after)
    else some (c, .marking worker key timeStep since after)
  | .freeing worker key timeStep since readAt after =>
    if env.database then
      some ({ c with replay := c.replay.delete fun e => e.key = key && e.expiresAt ≤ readAt },
        .inserting worker key timeStep since readAt after)
    else some (c, .marking worker key timeStep since after)
  | .inserting worker key timeStep since readAt after =>
    if env.database then
      match c.replay.insert ⟨key, readAt + ttl * 1000⟩ with
      | some replay => some ({ c with replay }.take ⟨.database, key, timeStep, readAt, c.now⟩,
          .sweeping readAt true after)
      | none => some (c, .sweeping readAt false after)
    else some (c, .marking worker key timeStep since after)
  | .sweeping readAt claimed after =>
    some (if env.cleanup then { c with replay := c.replay.delete fun e => e.expiresAt ≤ readAt }
      else c, answered h claimed after)
  | .marking worker key timeStep since after =>
    -- under the lock of the process
    let live := if env.cleanup then (c.usedCodes worker).delete fun e => e.expiresAt < since
      else c.usedCodes worker
    match live.insert ⟨key, since + ttl⟩ with
    | some marked => some ((c.markUsed worker marked).take
        ⟨.process worker, key, timeStep, since * 1000, c.now⟩, answered h true after)
    | none => some (c.markUsed worker live, answered h false after)
  | _ => none

def proceedTicket (c : Store) (env : Env) : Pc → Option (Store × Pc)
  | .findingTicket id secret =>
    match c.tickets.find id with
    | some row =>
      if !h.verifyTokenHash secret row.ticketHash || row.used || row.expiresAt < c.now then
        some (c, .ended false)
      else some (c, .takingTicket row)
    | none => some (c, .ended false)
  | .takingTicket row =>
    let mark (r : TicketRow) : TicketRow := { r with used := true }
    match consume TicketRow.used mark (fun _ => rfl) c.tickets row.id with
    | some tickets => some ({ c with
        tickets, taken := { c.taken with tickets := row.id :: c.taken.tickets } },
        .readingSession row)
    | none => some (c, .ended false)
  | .readingSession row => some (c, .ended (row.sessionId.isSome && env.session))
  | _ => none

def proceedState (c : Store) (env : Env) : Pc → Option (Store × Pc)
  | .cleaningStates token provider redirectUri =>
    some (if env.cleanup then { c with states := c.states.delete fun r => r.expiresAt < c.now }
      else c, .findingState token provider redirectUri)
  | .findingState token provider redirectUri =>
    match c.states.rows.find? fun r => r.stateHash = h.sha256 token with
    | some row =>
      if token = "" || row.used || row.expiresAt < c.now || row.provider ≠ provider ||
          row.redirectUri ≠ redirectUri then some (c, .ended false)
      else some (c, .takingState row)
    | none => some (c, .ended false)
  | .takingState row =>
    let mark (r : StateRow) : StateRow := { r with used := true }
    match consume StateRow.used mark (fun _ => rfl) c.states row.id with
    | some states => some ({ c with
        states, taken := { c.taken with states := row.id :: c.taken.states } }, .ended true)
    | none => some (c, .ended false)
  | _ => none

def begin (c : Store) (worker : Nat) : Request → Pc
  | .completeTwoFactor token code ip agent => .findingChallenge worker token code ip agent
  | .verifyTotp secret userId code purpose actor =>
    verifyTotp h cfg worker secret userId code purpose actor c.now .answer
  | .redeemTicket id secret => .findingTicket id secret
  | .verifyState token provider redirectUri => .cleaningStates token provider redirectUri

def next (c : Store) (p : Pc) : Action → Option (Store × Pc)
  | .start worker r =>
    match p with
    | .idle => some (c, begin h cfg c worker r)
    | _ => none
  | .proceed env =>
    (proceedLogin h cfg c env p).or <| (proceedClaim h c env p).or <|
      (proceedTicket h c env p).or (proceedState h c env p)
  | .tick milliseconds => some ({ c with now := c.now + milliseconds }, p)

end Code

end Plexichat.Auth.OneTime
