import Mathlib.Logic.Function.Basic
import Plexichat.Library.Transition

/-! api/websocket/gateway.py: the gateway connections of the users, and what the end of a
connection does to presence, voice and temporary memberships. The operations on these
succeed. With `valkey`, connections are counted in the shared set. -/
namespace Plexichat.Gateway.Presence
open Transition

variable {υ κ σ : Type}

inductive ConnectionState where
  | connecting | connected | identifying | ready | resuming | disconnecting | disconnected
  deriving DecidableEq

inductive UserStatus where
  | online | idle | dnd | invisible | offline
  deriving DecidableEq

structure Connection (υ σ : Type) where
  state : ConnectionState
  userId : Option υ
  sessionId : Option σ

def Connection.isAuthenticated (c : Connection υ σ) : Bool :=
  c.userId.isSome && c.state = .ready

def Connection.setDisconnected (c : Connection υ σ) : Connection υ σ :=
  { c with state := .disconnected }

def Connection.setIdentified (c : Connection υ σ) (u : υ) (session : σ) : Connection υ σ :=
  { c with userId := some u, sessionId := some session, state := .ready }

/-- Where the `finally` block of a connection stands between its awaits. -/
inductive Cleanup where
  | pending | voice | count | offline | purge | finished
  deriving DecidableEq

/-- `registered` are the keys of `_connections`. `greeting` connections have still to send
the online presence, and `purged` records the calls of `purge_temporary_members`. -/
structure State (υ κ σ : Type) where
  connections : κ → Option (Connection υ σ)
  registered : κ → Bool
  userConnections : υ → List κ
  globalConnections : υ → List κ
  sessions : σ → Option (υ × Option κ)
  greeting : κ → Bool
  cleanup : κ → Cleanup
  presence : υ → UserStatus
  voice : υ → Bool
  purged : List υ

inductive Action (υ κ σ : Type) where
  | connect (c : κ)
  | identify (c : κ) (u : υ) (session : σ)
  | greet (c : κ)
  | resume (c : κ) (session : σ)
  | disconnect (c : κ)
  | cleanup (c : κ)

def MAX_CONNECTIONS_PER_USER : Nat := 5

namespace State

variable [DecidableEq υ] [DecidableEq κ] [DecidableEq σ]

def addUser (set : υ → List κ) (u : υ) (c : κ) : υ → List κ :=
  Function.update set u (if c ∈ set u then set u else c :: set u)

def discard (set : υ → List κ) (u : υ) (c : κ) : υ → List κ :=
  Function.update set u ((set u).erase c)

def getUserConnectionCount (valkey : Bool) (s : State υ κ σ) (u : υ) : Nat :=
  if valkey then (s.globalConnections u).length else (s.userConnections u).length

/-- `gateway_endpoint` up to its message loop -/
def connect (s : State υ κ σ) (c : κ) : Option (State υ κ σ) :=
  match s.connections c with
  | some _ => none
  | none => some { s with
      connections := Function.update s.connections c (some ⟨.connected, none, none⟩)
      registered := Function.update s.registered c true }

/-- `create_session` with a fresh session id -/
def createSession (s : State υ κ σ) (c : κ) (conn : Connection υ σ) (u : υ) (session : σ) :
    State υ κ σ :=
  { s with
    sessions := Function.update s.sessions session (some (u, some c))
    userConnections := addUser s.userConnections u c
    globalConnections := addUser s.globalConnections u c
    connections := Function.update s.connections c (some (conn.setIdentified u session)) }

/-- `handle_identify` of a verified token, up to the online presence -/
def identify (valkey : Bool) (s : State υ κ σ) (c : κ) (u : υ) (session : σ) :
    Option (State υ κ σ) :=
  match s.connections c, s.registered c, s.sessions session with
  | some conn, true, none =>
    if conn.state = .ready then none
    else if s.getUserConnectionCount valkey u < MAX_CONNECTIONS_PER_USER then
      some { s.createSession c conn u session with
        greeting := Function.update s.greeting c true }
    else none
  | _, _, _ => none

/-- `_dispatch_online_presence`: only OFFLINE becomes ONLINE -/
def greet (s : State υ κ σ) (c : κ) : Option (State υ κ σ) :=
  match s.greeting c, (s.connections c).bind Connection.userId with
  | true, some u => some { s with
      greeting := Function.update s.greeting c false
      presence := if s.presence u = .offline then Function.update s.presence u .online
        else s.presence }
  | _, _ => none

/-- `handle_resume` of a session of the verified user -/
def resume (s : State υ κ σ) (c : κ) (session : σ) : Option (State υ κ σ) :=
  match s.connections c, s.registered c, s.sessions session with
  | some conn, true, some (u, old) =>
    let ended := match old with
      | some o =>
        if s.registered o then
          Function.update s.connections o ((s.connections o).map Connection.setDisconnected)
        else s.connections
      | none => s.connections
    let released := fun set : υ → List κ => match old with
      | some o => if o = c then set else discard set u o
      | none => set
    some { s with
      connections := Function.update ended c (some (conn.setIdentified u session))
      sessions := Function.update s.sessions session (some (u, some c))
      userConnections := addUser (released s.userConnections) u c
      globalConnections := addUser (released s.globalConnections) u c }
  | _, _, _ => none

def removeConnection (s : State υ κ σ) (c : κ) (conn : Connection υ σ) : State υ κ σ :=
  let removed := { s with registered := Function.update s.registered c false }
  match conn.userId with
  | some u => { removed with
      userConnections := discard s.userConnections u c
      globalConnections := discard s.globalConnections u c }
  | none => removed

/-- The `finally` block of `gateway_endpoint` up to its first await -/
def disconnect (s : State υ κ σ) (c : κ) : Option (State υ κ σ) :=
  match s.connections c, s.cleanup c with
  | some conn, .pending =>
    let conn := conn.setDisconnected
    let removed := s.removeConnection c conn
    some { removed with
      connections := Function.update s.connections c (some conn)
      cleanup := Function.update s.cleanup c (if conn.isAuthenticated then .voice else .finished) }
  | _, _ => none

/-- `_cleanup_voice_connection` and `_dispatch_offline_presence`, await by await -/
def runCleanup (valkey : Bool) (s : State υ κ σ) (c : κ) : Option (State υ κ σ) :=
  (s.connections c).bind Connection.userId |>.bind fun u =>
    let onward (stage : Cleanup) (t : State υ κ σ) : State υ κ σ :=
      { t with cleanup := Function.update s.cleanup c stage }
    match s.cleanup c with
    | .voice => some (onward .count { s with voice := Function.update s.voice u false })
    | .count =>
      some (onward (if 0 < s.getUserConnectionCount valkey u then .finished else .offline) s)
    | .offline => some (onward .purge { s with presence := Function.update s.presence u .offline })
    | .purge => some (onward .finished { s with purged := u :: s.purged })
    | _ => none

def step (valkey : Bool) (s : State υ κ σ) : Action υ κ σ → Option (State υ κ σ)
  | .connect c => s.connect c
  | .identify c u session => s.identify valkey c u session
  | .greet c => s.greet c
  | .resume c session => s.resume c session
  | .disconnect c => s.disconnect c
  | .cleanup c => s.runCleanup valkey c

end State

structure Initial (s : State υ κ σ) : Prop where
  connections : ∀ c, s.connections c = none
  registered : ∀ c, s.registered c = false
  sessions : ∀ x, s.sessions x = none
  userConnections : ∀ u, s.userConnections u = []
  globalConnections : ∀ u, s.globalConnections u = []
  greeting : ∀ c, s.greeting c = false
  cleanup : ∀ c, s.cleanup c = .pending
  purged : s.purged = []

/-- The cleanup of a connection of `u` has finished, and no other connection is `u`'s. -/
structure Gone (s : State υ κ σ) (c : κ) (u : υ) : Prop where
  finished : s.cleanup c = .finished
  user : ∃ conn, s.connections c = some conn ∧ conn.userId = some u
  last : ∀ d conn, s.registered d = true → s.connections d = some conn → conn.userId ≠ some u

structure Settled (s : State υ κ σ) (u : υ) : Prop where
  presence : s.presence u = .offline
  voice : s.voice u = false
  purged : u ∈ s.purged

theorem isAuthenticated_setDisconnected (conn : Connection υ σ) :
    conn.setDisconnected.isAuthenticated = false := by
  simp [Connection.isAuthenticated, Connection.setDisconnected]

structure Inv (s : State υ κ σ) : Prop where
  stage : ∀ c, s.cleanup c = .pending ∨ s.cleanup c = .finished
  purged : s.purged = []

variable [DecidableEq υ] [DecidableEq κ] [DecidableEq σ] {valkey : Bool}

theorem inv_step {s t : State υ κ σ} {a : Action υ κ σ} (h : Inv s)
    (next : s.step valkey a = some t) :
    Inv t ∧ ∀ u, t.presence u = .offline → s.presence u = .offline := by
  cases a with
  | connect c =>
    simp only [State.step, State.connect] at next
    split at next
    · cases next
    · cases next
      exact ⟨⟨h.stage, h.purged⟩, fun _ off => off⟩
  | identify c u session =>
    simp only [State.step, State.identify] at next
    split at next
    · split at next
      · cases next
      · split at next
        · cases next
          exact ⟨⟨h.stage, h.purged⟩, fun _ off => off⟩
        · cases next
    · cases next
  | greet c =>
    simp only [State.step, State.greet] at next
    split at next
    · rename_i u _ _
      cases next
      refine ⟨⟨h.stage, h.purged⟩, ?_⟩
      intro v off
      dsimp only at off
      split at off
      · by_cases same : v = u
        · rw [same, Function.update_self] at off
          cases off
        · rwa [Function.update_of_ne same] at off
      · exact off
    · cases next
  | resume c session =>
    simp only [State.step, State.resume] at next
    split at next
    · cases next
      exact ⟨⟨h.stage, h.purged⟩, fun _ off => off⟩
    · cases next
  | disconnect c =>
    simp only [State.step, State.disconnect] at next
    split at next
    · rename_i conn _ _
      cases next
      have kept : (s.removeConnection c conn.setDisconnected).purged = s.purged ∧
          (s.removeConnection c conn.setDisconnected).presence = s.presence := by
        unfold State.removeConnection
        split <;> exact ⟨rfl, rfl⟩
      refine ⟨⟨?_, kept.1.trans h.purged⟩, fun u off => kept.2 ▸ off⟩
      intro d
      show Function.update s.cleanup c _ d = _ ∨ Function.update s.cleanup c _ d = _
      rw [isAuthenticated_setDisconnected]
      by_cases here : d = c
      · simp [here]
      · simpa [Function.update_of_ne here] using h.stage d
    · cases next
  | cleanup c =>
    obtain ⟨u, _, moved⟩ := Option.bind_eq_some_iff.mp next
    rcases h.stage c with waiting | finished <;> simp [*] at moved

/-- Once a last connection is cleaned up, its user is not settled: the law holds exactly as
long as there is no such user. And nobody is ever set OFFLINE. -/
theorem presence_follows_iff {s : State υ κ σ} (run : Reachable (State.step valkey) Initial s) :
    ((∀ c u, Gone s c u → Settled s u) ↔ ∀ c u, ¬ Gone s c u) ∧
    ∀ a t, s.step valkey a = some t → ∀ u, t.presence u = .offline → s.presence u = .offline := by
  have inv : Inv s := guarded_invariant
    (fun s start => ⟨fun c => .inl (start.cleanup c), start.purged⟩)
    (fun _ _ _ h _ next => (inv_step h next).1) run
  refine ⟨⟨?_, ?_⟩, fun a t next => (inv_step inv next).2⟩
  · intro law c u gone
    have never := (law c u gone).purged
    rw [inv.purged] at never
    cases never
  · intro none c u gone
    exact absurd gone (none c u)

def nobody : State Nat Nat Nat where
  connections _ := none
  registered _ := false
  userConnections _ := []
  globalConnections _ := []
  sessions _ := none
  greeting _ := false
  cleanup _ := .pending
  presence _ := .offline
  voice _ := true
  purged := []

theorem nobody_initial : Initial nobody := by
  constructor <;> intros <;> rfl

def closeBothTabs : List (Action Nat Nat Nat) :=
  [.connect 0, .identify 0 7 0, .greet 0, .connect 1, .identify 1 7 1, .greet 1, .disconnect 0,
    .disconnect 1]

def tabsClosed : State Nat Nat Nat := (run (State.step true) nobody closeBothTabs).get rfl

theorem tabsClosed_reachable : Reachable (State.step true) Initial tabsClosed :=
  reachable_of_run (s := nobody) closeBothTabs nobody_initial (Option.some_get _).symm

theorem tabsClosed_gone : Gone tabsClosed 1 7 where
  finished := rfl
  user := ⟨⟨.disconnected, some 7, some 1⟩, rfl, rfl⟩
  last d conn registered _ := by
    have none : tabsClosed.registered d = false := by
      show Function.update (Function.update (Function.update (Function.update (fun _ => false)
        0 true) 1 true) 0 false) 1 false d = false
      by_cases one : d = 1
      · simp [one]
      · by_cases zero : d = 0 <;> simp [one, zero]
    rw [none] at registered
    cases registered

theorem presence_follows_iff_tabs :
    ¬ (∀ c u, Gone tabsClosed c u → Settled tabsClosed u) := fun law =>
  (presence_follows_iff tabsClosed_reachable).1.mp law 1 7 tabsClosed_gone

theorem presence_stays_online :
    Reachable (State.step true) Initial tabsClosed ∧ Gone tabsClosed 1 7 ∧
      tabsClosed.presence 7 = .online ∧ tabsClosed.voice 7 = true ∧ tabsClosed.purged = [] :=
  ⟨tabsClosed_reachable, tabsClosed_gone, rfl, rfl, rfl⟩

end Plexichat.Gateway.Presence
