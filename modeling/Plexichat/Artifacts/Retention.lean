import Plexichat.Library.JsonRoundTrip
import Plexichat.Library.Numeral
import Plexichat.Library.Table

/-! Retention of artifacts: what the manager decides when it writes an artifact, and what the
cleanup job reads of the row. The outer none of a result is an exception that the function
lets through. -/
namespace Plexichat.Artifacts.Retention
open Json

variable {F : Type}

/-- What int raises: TypeError or ValueError, or OverflowError. -/
inductive Conversion where
  | refused
  | overflow
  deriving DecidableEq

structure Host (F : Type) where
  /-- `int(x)`, which overflows at the infinities. -/
  truncate : F → Except Conversion Int
  isZero : F → Bool
  depth : Nat

inductive ServerKey where
  | text (id : Nat)
  | number (id : Nat)

/-- The section artifacts of the configuration; an entry that is not there is None. -/
structure Config (F : Type) where
  allowPerServerOverride : Bool
  servers : ServerKey → Value F Str
  defaultRetentionDays : Value F Str
  evaluationEnabled : Bool
  /-- 30 where the entry is missing. -/
  evaluationTtlDays : Value F Str
  /-- The feature artifacts of the license. -/
  licensed : Bool

structure ArtifactRow where
  id : Nat
  serverId : Option Nat
  createdAt : Int
  retentionPolicy : Option (List Char)
  expiresAt : Option Int
  rev : Int

structure SettingsRow where
  serverId : Nat
  retentionDays : Option Int

abbrev Settings := Table SettingsRow SettingsRow.serverId

structure Store where
  artifacts : Table ArtifactRow ArtifactRow.id
  settings : Settings

structure Policy (F : Type) where
  value : Value F Str
  clean : value.all (fun s => decide (join s = s)) cleanKeys = true

def name (s : String) : Str := s.toList.map .char

/-- `d.get(k)`. -/
def get (l : List (Str × Value F Str)) (k : Str) : Value F Str :=
  ((l.find? fun x => x.1 = k).map Prod.snd).getD .null

def orElse : Value F Str → Value F Str → Value F Str
  | .null, w => w
  | v, _ => v

def fits (expiresAt : Int) : Bool := -2 ^ 63 ≤ expiresAt && expiresAt < 2 ^ 63

def perDay : Int := 86400 * 1000

section Code

variable (host : Host F) (cfg : Config F)

def toInt : Value F Str → Except Conversion Int
  | .bool b => .ok (if b then 1 else 0)
  | .int n => .ok n
  | .float x => host.truncate x
  | .str s =>
    match if s.all isCharacter then Numeral.int (characters s) else none with
    | some n => .ok n
    | none => .error .refused
  | .null => .error .refused
  | .list _ => .error .refused
  | .dict _ => .error .refused

def truthy : Value F Str → Bool
  | .null => false
  | .bool b => b
  | .int n => n != 0
  | .float x => !host.isZero x
  | .str s => !s.isEmpty
  | .list l => !l.isEmpty
  | .dict l => !l.isEmpty

def computeExpiresAt (retentionDays : Value F Str) (createdAt : Int) : Option (Option Int) :=
  match toInt host retentionDays with
  | .ok days => some (if days ≤ 0 then none else some (createdAt + days * perDay))
  | .error .refused => some none
  | .error .overflow => none

def policyDays : Value F Str → Option (Value F Str)
  | .null => some .null
  | .list _ => some .null
  | .dict l => some (get l (name "days"))
  | scalar =>
    match toInt host scalar with
    | .ok n => some (.int n)
    | .error .refused => some .null
    | .error .overflow => none

def getServerRetentionDays (settings : Settings) (serverId : Nat) : Option Int := do
  let row ← settings.find serverId
  let days ← row.retentionDays
  if 0 < days then days else none

def serverEntry (serverId : Nat) : Value F Str :=
  let named := cfg.servers (.text serverId)
  match if truthy host named then named else cfg.servers (.number serverId) with
  | .dict l => get l (name "retention_days")
  | _ => .null

def overrideDays (settings : Settings) : Option Nat → Value F Str
  | some serverId =>
    if cfg.allowPerServerOverride then
      match getServerRetentionDays settings serverId with
      | some days => .int days
      | none => serverEntry host cfg serverId
    else .null
  | none => .null

/-- `evaluation_ttl_days`, which reads the window before it looks whether it applies. -/
def evaluationTtlDays : Option (Value F Str) := do
  let ttlDays ← match toInt host cfg.evaluationTtlDays with
    | .ok n => some (max 1 n)
    | .error .refused => some 30
    | .error .overflow => none
  return if cfg.evaluationEnabled && !cfg.licensed then .int ttlDays else .null

def defaultDays : Option (Value F Str) :=
  match cfg.defaultRetentionDays with
  | .null => evaluationTtlDays host cfg
  | v => some v

/-- `_resolve_retention_days` of the manager. -/
def Manager.resolveRetentionDays (settings : Settings) (policy : Value F Str)
    (serverId : Option Nat) : Option (Value F Str) := do
  let days := orElse (← policyDays host policy) (overrideDays host cfg settings serverId)
  match days with
  | .null => defaultDays host cfg
  | days => some days

/-- The column of a policy: `_json_dumps`, and the encoding of the driver. -/
def stored [Floats F] : Value F Str → Option (Option (List Char))
  | .null => some none
  | .str s => if s.all isCharacter then some (some (characters s)) else none
  | v =>
    match dumps host.depth v with
    | .ok text => some (some text)
    | .error _ => none

inductive Write (F : Type) where
  | create (id : Nat) (serverId : Option Nat) (createdAt rev : Int) (policy : Policy F)
  | update (id : Nat) (policy : Policy F) (expectedRev : Option Int)
  | setServer (serverId : Nat) (retentionDays : Value F Str)

def expiry (settings : Settings) (policy : Value F Str) (serverId : Option Nat)
    (createdAt : Int) : Option (Option Int) := do
  let days ← Manager.resolveRetentionDays host cfg settings policy serverId
  computeExpiresAt host days createdAt

/-- With an update to None the artifact never expires. -/
def updatedExpiry (settings : Settings) (policy : Value F Str) (existing : ArtifactRow) :
    Option (Option Int) :=
  match policy with
  | .null => some none
  | _ => expiry host cfg settings policy existing.serverId existing.createdAt

def withPolicy [Floats F] (row : ArtifactRow) (policy : Value F Str) (expiresAt : Option Int) :
    Option ArtifactRow := do
  let retentionPolicy ← stored host policy
  if expiresAt.all fits then some { row with retentionPolicy, expiresAt } else none

def create [Floats F] (s : Store) (id : Nat) (serverId : Option Nat) (createdAt rev : Int)
    (policy : Policy F) : Option (Store × List ArtifactRow) := do
  let expiresAt ← expiry host cfg s.settings policy.value serverId createdAt
  let row ← withPolicy host ⟨id, serverId, createdAt, none, none, rev⟩ policy.value expiresAt
  let artifacts ← s.artifacts.insert row
  return ({ s with artifacts }, [row])

def update [Floats F] (s : Store) (id : Nat) (policy : Policy F) (expectedRev : Option Int) :
    Option (Store × List ArtifactRow) :=
  match s.artifacts.find id with
  | none => some (s, [])
  | some existing => do
    let expiresAt ← updatedExpiry host cfg s.settings policy.value existing
    let new ← withPolicy host existing policy.value expiresAt
    if expectedRev.all (· = existing.rev) then
      let row (r : ArtifactRow) : ArtifactRow := { r with
        retentionPolicy := new.retentionPolicy
        expiresAt := new.expiresAt
        rev := if expectedRev.isSome then r.rev + 1 else r.rev }
      return ({ s with artifacts := s.artifacts.update (fun r => r.id = id) row fun _ => rfl },
        [row existing])
    else return (s, [])

def setOverride (settings : Settings) (serverId : Nat) (retentionDays : Value F Str) :
    Option Settings :=
  match retentionDays with
  | .null => some (settings.delete fun r => r.serverId = serverId)
  | days =>
    match toInt host days with
    | .ok n =>
      if 0 < n && fits n then
        let set (r : SettingsRow) : SettingsRow := { r with retentionDays := some n }
        if (settings.find serverId).isSome then
          some (settings.update (fun r => r.serverId = serverId) set fun _ => rfl)
        else settings.insert ⟨serverId, some n⟩
      else none
    | .error _ => none

def setServerRetentionDays (s : Store) (serverId : Nat) (retentionDays : Value F Str) :
    Option (Store × List ArtifactRow) := do
  let settings ← setOverride host s.settings serverId retentionDays
  let days ← Manager.resolveRetentionDays host cfg settings .null (some serverId)
  let inherits (r : ArtifactRow) : Bool :=
    r.serverId = some serverId && r.retentionPolicy.isNone
  let follow (r : ArtifactRow) : ArtifactRow :=
    { r with expiresAt := (computeExpiresAt host days r.createdAt).getD none }
  if s.artifacts.rows.all fun r =>
      !inherits r || (computeExpiresAt host days r.createdAt).any (Option.all fits) then
    return (⟨s.artifacts.update inherits follow fun _ => rfl, settings⟩,
      (s.artifacts.rows.filter inherits).map follow)
  else none

def Write.run [Floats F] (s : Store) : Write F → Option (Store × List ArtifactRow)
  | create id serverId createdAt rev policy =>
    Retention.create host cfg s id serverId createdAt rev policy
  | update id policy expectedRev => Retention.update host cfg s id policy expectedRev
  | setServer serverId retentionDays => setServerRetentionDays host cfg s serverId retentionDays

def Write.policy : Write F → Value F Str
  | create _ _ _ _ policy => policy.value
  | update _ policy _ => policy.value
  | setServer _ _ => .null

/-- `days if days > 0 else None`. -/
def positive (v : Value F Str) : Option (Option Int) :=
  match toInt host v with
  | .ok n => some (if 0 < n then some n else none)
  | .error .refused => some none
  | .error .overflow => none

def rawDays [Floats F] (text : List Char) : Value F Str :=
  match (loads host.depth text : Except Error (Value F Str)) with
  | .ok (.dict l) => get l (name "days")
  | _ =>
    match Numeral.int text with
    | some n => .int n
    | none => .null

/-- `_parse_policy_days` on a column. -/
def parsePolicyDays [Floats F] (policy : List Char) : Option (Option Int) :=
  let text := Numeral.strip policy
  if text = [] then some none else positive host (rawDays host text)

/-- `resolve_retention_days` of the job. -/
def resolveRetentionDays (settings : Settings) (serverId : Option Nat) : Option (Option Int) :=
  let fallback := (defaultDays host cfg).bind (positive host)
  match if cfg.allowPerServerOverride then serverId.bind settings.find else none with
  | some row =>
    match row.retentionDays with
    | some days => if 0 < days then some (some days) else fallback
    | none => some none
  | none => fallback

def window [Floats F] (settings : Settings) (r : ArtifactRow) : Option (Option Int) :=
  match r.retentionPolicy with
  | none => some none
  | some policy => do
    let days ← match ← parsePolicyDays host policy with
      | some days => some (some days)
      | none => resolveRetentionDays host cfg settings r.serverId
    return days.map fun days => r.createdAt + days * perDay

def selected (r : ArtifactRow) : Bool := r.expiresAt.isNone && r.retentionPolicy.isSome

/-- `_apply_retention_windows`: a value that the column does not take fails alone. -/
def applyRetentionWindows [Floats F] (s : Store) : Option Store :=
  if s.artifacts.rows.any fun r => selected r && (window host cfg s.settings r).isNone then none
  else
    let expire (r : ArtifactRow) : ArtifactRow :=
      { r with expiresAt := ((window host cfg s.settings r).getD none).filter fits }
    some { s with artifacts := s.artifacts.update selected expire fun _ => rfl }

inductive Job where
  | apply
  | purge (now : Int) (fails : Nat → Bool)

def Job.run [Floats F] (s : Store) : Job → Store
  | apply => (applyRetentionWindows host cfg s).getD s
  | purge now fails => { s with
      artifacts := s.artifacts.delete fun r => r.expiresAt.any (· ≤ now) && !fails r.id }

end Code

end Plexichat.Artifacts.Retention
