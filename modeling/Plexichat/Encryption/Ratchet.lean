import Mathlib.Data.List.MinMax
import Plexichat.Library.Table
import Plexichat.Encryption.Cipher

/-! The channel ratchet: the interval table of channel_ratchet/store.py and the
operations of channel_ratchet/manager.py on it. A function that can raise gives
the state it leaves behind together with its result. -/
namespace Plexichat.Encryption

/-- A row of channel_ratchet_intervals. -/
structure IntervalRow where
  intervalId : Nat
  conversationId : Nat
  startMessageId : Nat
  endMessageId : Option Nat
  startKeyWrapped : List Char
  createdAt : Nat
  lastMessageAt : Nat

structure RatchetInterval where
  intervalId : Nat
  conversationId : Nat
  startMessageId : Nat
  endMessageId : Option Nat
  startKey : Bytes
  createdAt : Nat
  lastMessageAt : Nat

def inRange (start : Nat) (stop : Option Nat) (messageId : Nat) : Bool :=
  if messageId < start then false
  else match stop with
    | none => true
    | some e => messageId < e

def RatchetInterval.contains (i : RatchetInterval) : Nat → Bool :=
  inRange i.startMessageId i.endMessageId

def IntervalRow.contains (r : IntervalRow) : Nat → Bool := inRange r.startMessageId r.endMessageId

/-- The columns of msg_messages that `count_messages` reads. -/
structure MessageRow where
  id : Nat
  ratchetIntervalId : Option Nat
  deleted : Bool

namespace Ratchet

abbrev Intervals := Table IntervalRow IntervalRow.intervalId

structure State where
  intervals : Intervals
  messages : List MessageRow
  ring : Ring

structure Draw where
  newKey : Key
  newId : Nat
  ringKey : Key
  wrapNonce : Nonce

structure Config where
  maxMessages : Int
  maxAgeSeconds : Int
  splitOnDelete : Bool

def contextTag : Bytes := Text.utf8 "plexichat.channel-message.v3".toList

def wirePrefix : List Char := ['E', 'N', 'C', ':', '3', ':']

variable (aead : Aead) (kdf : Kdf)

/-- `_row_to_interval`: a start key that does not unwrap becomes empty. -/
def rowToInterval (ring : Ring) (r : IntervalRow) : RatchetInterval :=
  ⟨r.intervalId, r.conversationId, r.startMessageId, r.endMessageId,
    (unwrap aead ring r.startKeyWrapped).getD [], r.createdAt, r.lastMessageAt⟩

def isOpen (conversationId : Nat) (r : IntervalRow) : Bool :=
  r.conversationId = conversationId && r.endMessageId = none

def activeRow (s : State) (conversationId : Nat) : Option IntervalRow :=
  (s.intervals.rows.filter (isOpen conversationId)).argmax IntervalRow.startMessageId

def getActive (s : State) (conversationId : Nat) : Option RatchetInterval :=
  (activeRow s conversationId).map (rowToInterval aead s.ring)

def getById (s : State) (intervalId : Nat) : Option RatchetInterval :=
  (s.intervals.find intervalId).map (rowToInterval aead s.ring)

def closed (endMessageId now : Nat) (r : IntervalRow) : IntervalRow :=
  { r with endMessageId := some endMessageId, lastMessageAt := now }

def touched (now : Nat) (r : IntervalRow) : IntervalRow := { r with lastMessageAt := now }

theorem closed_intervalId (stop now : Nat) (r : IntervalRow) :
    (closed stop now r).intervalId = r.intervalId := rfl

theorem touched_intervalId (now : Nat) (r : IntervalRow) :
    (touched now r).intervalId = r.intervalId := rfl

/-- `_close_active`: the UPDATE of an interval that is still open. -/
def closeRow (s : State) (intervalId endMessageId now : Nat) : State :=
  { s with
    intervals := s.intervals.update (fun r => r.intervalId = intervalId && r.endMessageId = none)
      (closed endMessageId now) (closed_intervalId endMessageId now) }

def closeActive (s : State) (conversationId endMessageId now : Nat) : State :=
  match activeRow s conversationId with
  | some active => closeRow s active.intervalId endMessageId now
  | none => s

def touch (s : State) (intervalId now : Nat) : State :=
  { s with
    intervals := s.intervals.update (fun r => r.intervalId = intervalId) (touched now)
      (touched_intervalId now) }

/-- `create`; the interval is none when wrapping or the insert raises. -/
def create (s : State) (conversationId startMessageId now : Nat) (draw : Draw) :
    State × Option RatchetInterval :=
  let closed := closeActive s conversationId startMessageId now
  let (ring, wrapped) := wrap aead draw.ringKey draw.wrapNonce closed.ring draw.newKey.val
  let wrappedState := { closed with ring }
  match wrapped with
  | none => (wrappedState, none)
  | some startKeyWrapped =>
    match closed.intervals.insert
        ⟨draw.newId, conversationId, startMessageId, none, startKeyWrapped, now, now⟩ with
    | none => (wrappedState, none)
    | some intervals =>
      ({ wrappedState with intervals },
        some ⟨draw.newId, conversationId, startMessageId, none, draw.newKey.val, now, now⟩)

def countMessages (s : State) (intervalId : Nat) : Nat :=
  s.messages.countP fun m => m.ratchetIntervalId = some intervalId && !m.deleted

def ensureInterval (s : State) (conversationId messageId now : Nat) (draw : Draw) :
    State × Option RatchetInterval :=
  match getActive aead s conversationId with
  | some active =>
    if active.contains messageId then (s, some active)
    else create aead s conversationId messageId now draw
  | none => create aead s conversationId messageId now draw

/-- `_derive_key`; none is an interval without a usable start key. -/
def deriveKey (i : RatchetInterval) (nonce : Bytes) (messageId : Nat) : Option Key :=
  if i.startKey = [] then none
  else some (kdf i.startKey (Text.utf8 (Text.decimal i.intervalId))
    (nonce ++ Text.utf8 (Text.decimal messageId) ++ contextTag))

def associatedData (intervalId : Nat) : Bytes :=
  Text.utf8 (wirePrefix ++ Text.decimal intervalId)

/-- `encrypt`; the envelope is none when an exception is raised on the way. -/
def encrypt (s : State) (conversationId messageId : Nat) (plaintext : Bytes) (now : Nat)
    (nonce : Nonce) (draw : Draw) : State × Option (List Char) :=
  match ensureInterval aead s conversationId messageId now draw with
  | (s, none) => (s, none)
  | (s, some interval) =>
    match deriveKey kdf interval nonce.val messageId with
    | none => (s, none)
    | some key =>
      let ciphertext :=
        aead.encrypt key nonce plaintext (some (associatedData interval.intervalId))
      (touch s interval.intervalId now,
        some (wirePrefix ++ Text.decimal interval.intervalId ++
          ':' :: Base64.encode (nonce.val ++ ciphertext)))

inductive Error where
  | notRatchet | malformed | tooShort | intervalNotFound | otherConversation
  | noStartKey | invalidTag
  deriving DecidableEq

def decrypt (s : State) (conversationId messageId : Nat) (text : List Char) :
    Except Error Bytes :=
  if wirePrefix.isPrefixOf text then
    match Text.split ':' 1 (text.drop wirePrefix.length) with
    | [idText, data] =>
      match Text.int idText, Base64.decode data with
      | some id, some blob =>
        if blob.length ≤ 12 then .error .tooShort
        else match (if id < 0 then none else getById aead s id.toNat) with
          | none => .error .intervalNotFound
          | some interval =>
            if interval.conversationId ≠ conversationId then .error .otherConversation
            else match deriveKey kdf interval (blob.take 12) messageId with
              | none => .error .noStartKey
              | some key =>
                match aead.decrypt key (blob.take 12) (blob.drop 12)
                    (some (associatedData id.toNat)) with
                | none => .error .invalidTag
                | some plaintext => .ok plaintext
      | _, _ => .error .malformed
    | _ => .error .malformed
  else .error .notRatchet

/-- The thresholds of `rotate_if_due` for the active interval. -/
def due (cfg : Config) (s : State) (active : RatchetInterval) (now : Nat) : Bool :=
  !((countMessages s active.intervalId : Int) < cfg.maxMessages &&
    ((now - active.createdAt : Nat) : Int) < cfg.maxAgeSeconds * 1000)

def rotateIfDue (cfg : Config) (s : State) (conversationId lastMessageId now : Nat)
    (draw : Draw) : State × Option RatchetInterval :=
  match getActive aead s conversationId with
  | none => (s, none)
  | some active =>
    if due cfg s active now then create aead s conversationId (lastMessageId + 1) now draw
    else (s, none)

def splitOnDelete (cfg : Config) (s : State) (conversationId deletedMessageId now : Nat)
    (draw : Draw) : State × Option RatchetInterval :=
  if cfg.splitOnDelete then
    match getActive aead s conversationId with
    | none => (s, none)
    | some active =>
      if active.contains deletedMessageId then
        create aead (closeActive s conversationId (deletedMessageId + 1) now) conversationId
          (deletedMessageId + 1) now draw
      else (s, none)
  else (s, none)

inductive Action where
  | encrypt (conversationId messageId : Nat) (plaintext : Bytes) (now : Nat) (nonce : Nonce)
      (draw : Draw)
  | rotateIfDue (conversationId lastMessageId now : Nat) (draw : Draw)
  | splitOnDelete (conversationId deletedMessageId now : Nat) (draw : Draw)
  | closeActive (conversationId endMessageId now : Nat)
  | touch (intervalId now : Nat)
  | messages (rows : List MessageRow)
  | rotateKeyring (newKey : Key)

def step (cfg : Config) (s : State) : Action → Option State
  | .encrypt conversationId messageId plaintext now nonce draw =>
    some (encrypt aead kdf s conversationId messageId plaintext now nonce draw).1
  | .rotateIfDue conversationId lastMessageId now draw =>
    some (rotateIfDue aead cfg s conversationId lastMessageId now draw).1
  | .splitOnDelete conversationId deletedMessageId now draw =>
    some (splitOnDelete aead cfg s conversationId deletedMessageId now draw).1
  | .closeActive conversationId endMessageId now =>
    some (closeActive s conversationId endMessageId now)
  | .touch intervalId now => some (touch s intervalId now)
  | .messages rows => some { s with messages := rows }
  | .rotateKeyring newKey => some { s with ring := s.ring.rotate newKey }

theorem mem_touch {s : State} {intervalId now : Nat} {q : IntervalRow} :
    q ∈ (touch s intervalId now).intervals ↔
      ∃ r ∈ s.intervals, q = if r.intervalId = intervalId then touched now r else r := by
  simp only [touch, Table.mem_update, decide_eq_true_eq]

theorem mem_closeRow {s : State} {intervalId stop now : Nat} {q : IntervalRow} :
    q ∈ (closeRow s intervalId stop now).intervals ↔ ∃ r ∈ s.intervals,
      q = if r.intervalId = intervalId ∧ r.endMessageId = none then closed stop now r else r := by
  simp only [closeRow, Table.mem_update, Bool.and_eq_true, decide_eq_true_eq]

theorem find_touch (s : State) (intervalId now id : Nat) :
    (touch s intervalId now).intervals.find id = (s.intervals.find id).map fun r =>
      if r.intervalId = intervalId then touched now r else r := by
  simp only [touch, Table.find_update, decide_eq_true_eq]

theorem find_closeRow (s : State) (intervalId stop now id : Nat) :
    (closeRow s intervalId stop now).intervals.find id = (s.intervals.find id).map fun r =>
      if r.intervalId = intervalId ∧ r.endMessageId = none then closed stop now r else r := by
  simp only [closeRow, Table.find_update, Bool.and_eq_true, decide_eq_true_eq]

end Ratchet

end Plexichat.Encryption
