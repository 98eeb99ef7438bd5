import Mathlib.Data.List.Nodup
import Mathlib.Logic.Function.Basic
import Plexichat.Library.Transition
import Plexichat.RateLimit.Algorithms

/-! check_rate_limit of ratelimit/manager.py over the memory storage: every check of a request
is made, each charges its own bucket, and the first denial among them is the answer. -/
namespace Plexichat.RateLimit.Requests
open Algorithms Transition

inductive BucketType where
  | global | user | ip | route | resource | webhook | channelWebhook
  deriving DecidableEq

/-- What `_generate_bucket_key` joins after the type. -/
inductive KeyPart where
  | user (id : Nat)
  | ip (address : String)
  | route (route : String)
  | resource (id : Nat)
  | webhook (id : Nat)
  deriving DecidableEq

structure BucketKey (κ : Type) where
  bucketType : BucketType
  rest : κ
  deriving DecidableEq

structure RouteConfig extends Limit where
  scope : BucketType

def scaled (multiplier : ℚ) (n : Nat) : Nat := (n * multiplier : ℚ).floor.toNat

def RouteConfig.withMultiplier (c : RouteConfig) (multiplier : ℚ) : RouteConfig :=
  { c with
    requests := scaled multiplier c.requests
    burst := scaled multiplier c.burst
    hourlyLimit := (c.hourlyLimit.filter (0 < ·)).map (scaled multiplier)
    dailyLimit := (c.dailyLimit.filter (0 < ·)).map (scaled multiplier) }

structure Manager (κ : Type) where
  generateRest : BucketType → List KeyPart → κ
  globalConfig : Limit
  userConfig : Limit
  ipConfig : Limit
  routeConfigs : String → Option RouteConfig
  defaultConfig : RouteConfig
  isBotHigherLimitRoute : String → Bool
  botMultiplier : ℚ
  webhookMultiplier : ℚ
  enableGlobalLimit : Bool
  internalBypass : Bool
  adminBypass : Bool
  bypassCheck : Option (Option Nat → Bool → Bool → Bool)

structure Call (κ : Type) where
  userId : Option Nat
  ipAddress : Option String
  route : Option String
  resourceId : Option Nat
  isBot : Bool
  isWebhook : Bool
  isAdmin : Bool
  isInternal : Bool
  webhookId : Option Nat
  cost : Nat
  unixNow : ℚ
  /-- The monotonic clock when the storage evaluates a bucket. -/
  now : BucketKey κ → ℚ

def Call.request {κ : Type} (call : Call κ) (key : BucketKey κ) : Request :=
  ⟨call.cost, call.unixNow, call.now key⟩

structure Check (κ : Type) where
  key : BucketKey κ
  limit : Limit
  deriving DecidableEq

abbrev Store (κ : Type) := BucketKey κ → Algorithms.State

def defaultWebhookChannelLimit : Limit := ⟨⟨30, 60, 10, none, none⟩, .tokenBucket⟩

section Manager

variable {κ : Type}

def Manager.checkBypass (m : Manager κ) (call : Call κ) : Bool :=
  if call.isInternal && m.internalBypass then true
  else match m.bypassCheck with
    | some check => check call.userId call.isAdmin call.isInternal
    | none => call.isAdmin && m.adminBypass

def Manager.getConfigForRequest (m : Manager κ) (route : String) (isBot isWebhook : Bool) :
    RouteConfig :=
  let config := (m.routeConfigs route).getD m.defaultConfig
  if isBot && m.isBotHigherLimitRoute route then config.withMultiplier m.botMultiplier
  else if isWebhook then config.withMultiplier m.webhookMultiplier
  else config

/-- `_generate_bucket_key`: the user, or else the address, comes first. -/
def Manager.generateBucketKey (m : Manager κ) (bucketType : BucketType) (userId : Option Nat)
    (ipAddress : Option String) (rest : List KeyPart) : BucketKey κ :=
  let who := match userId, ipAddress with
    | some id, _ => [.user id]
    | none, some address => [.ip address]
    | none, none => []
  ⟨bucketType, m.generateRest bucketType (who ++ rest)⟩

def Manager.globalChecks (m : Manager κ) (call : Call κ) : List (List (Check κ)) :=
  if m.enableGlobalLimit && (call.userId.isSome || call.ipAddress.isSome) then
    [[⟨m.generateBucketKey .global call.userId call.ipAddress [], m.globalConfig⟩]]
  else []

def Manager.identityChecks (m : Manager κ) (call : Call κ) : List (List (Check κ)) :=
  if call.isWebhook then []
  else match call.userId, call.ipAddress with
    | some id, _ => [[⟨m.generateBucketKey .user (some id) none [], m.userConfig⟩]]
    | none, some address => [[⟨m.generateBucketKey .ip none (some address) [], m.ipConfig⟩]]
    | none, none => []

def Manager.webhookChecks (m : Manager κ) (route : String) (webhookId : Nat)
    (resourceId : Option Nat) (config : Limit) : List (Check κ) :=
  ⟨m.generateBucketKey .webhook none none [.route route, .webhook webhookId], config⟩ ::
    match resourceId with
    | some id => [⟨m.generateBucketKey .channelWebhook none none [.resource id],
        defaultWebhookChannelLimit⟩]
    | none => []

def Manager.routeChecks (m : Manager κ) (call : Call κ) : List (List (Check κ)) :=
  match call.route.filter (· ≠ "") with
  | none => []
  | some route =>
    let config := m.getConfigForRequest route call.isBot call.isWebhook
    match config.scope, call.resourceId, call.webhookId with
    | .resource, some id, _ =>
      [[⟨m.generateBucketKey .resource call.userId none [.route route, .resource id],
        config.toLimit⟩]]
    | .webhook, resourceId, some webhookId =>
      [m.webhookChecks route webhookId resourceId config.toLimit]
    | _, _, _ =>
      [[⟨m.generateBucketKey .route call.userId call.ipAddress [.route route], config.toLimit⟩]]

def Manager.checks (m : Manager κ) (call : Call κ) : List (List (Check κ)) :=
  m.globalChecks call ++ m.identityChecks call ++ m.routeChecks call

structure Outcome (κ : Type) where
  answer : Answer
  store : Store κ
  consulted : List (Check κ)

variable [DecidableEq κ]

def consult (call : Call κ) (store : Store κ) : List (Check κ) → Outcome κ
  | [] => ⟨.allowed, store, []⟩
  | c :: cs =>
    let (answer, s) := Algorithms.checkAtomic c.limit (store c.key) (call.request c.key)
    let store := Function.update store c.key s
    if answer = .allowed then
      let rest := consult call store cs
      ⟨rest.answer, rest.store, c :: rest.consulted⟩
    else ⟨answer, store, [c]⟩

/-- A denial does not end the loop; an exception does. -/
def consultAll (call : Call κ) (store : Store κ) : List (List (Check κ)) → Outcome κ
  | [] => ⟨.allowed, store, []⟩
  | g :: gs =>
    let first := consult call store g
    if first.answer = .raised then first
    else
      let rest := consultAll call first.store gs
      ⟨if rest.answer = .raised then .raised
        else if first.answer = .denied then .denied else rest.answer,
        rest.store, first.consulted ++ rest.consulted⟩

def Manager.checkRateLimit (m : Manager κ) (call : Call κ) (store : Store κ) : Outcome κ :=
  if m.checkBypass call then ⟨.allowed, store, []⟩ else consultAll call store (m.checks call)

def step (m : Manager κ) (store : Store κ) (call : Call κ) : Option (Store κ) :=
  some (m.checkRateLimit call store).store

def Free (call : Call κ) (store : Store κ) (o : Outcome κ) : Prop :=
  ∀ c ∈ o.consulted, remaining c.limit (o.store c.key) (call.request c.key) =
    remaining c.limit (store c.key) (call.request c.key)

end Manager

section Results

variable {κ : Type} [DecidableEq κ] {call : Call κ} {m : Manager κ}

structure Made (call : Call κ) (store store' : Store κ) (consulted : List (Check κ)) : Prop where
  frame : ∀ key, (∀ c ∈ consulted, c.key ≠ key) → store' key = store key
  each : ∀ c ∈ consulted,
    (Algorithms.checkAtomic c.limit (store c.key) (call.request c.key)).1 ≠ .raised ∧
      store' c.key = (Algorithms.checkAtomic c.limit (store c.key) (call.request c.key)).2

omit [DecidableEq κ] in
theorem Made.append {s s' s'' : Store κ} {first second : List (Check κ)} (h : Made call s s' first)
    (k : Made call s' s'' second) (apart : ∀ c ∈ first, ∀ d ∈ second, d.key ≠ c.key) :
    Made call s s'' (first ++ second) := by
  constructor
  · intro key others
    rw [k.frame key fun c mem => others c (List.mem_append_right _ mem),
      h.frame key fun c mem => others c (List.mem_append_left _ mem)]
  · intro c mem
    rcases List.mem_append.mp mem with early | late
    · rw [k.frame c.key fun d there => apart c early d there]
      exact h.each c early
    · have before : s' c.key = s c.key := h.frame c.key fun d there => (apart d there c late).symm
      rw [← before]
      exact k.each c late

theorem Made.one {s : Store κ} {c : Check κ}
    (answered : (Algorithms.checkAtomic c.limit (s c.key) (call.request c.key)).1 ≠ .raised) :
    Made call s (Function.update s c.key
      (Algorithms.checkAtomic c.limit (s c.key) (call.request c.key)).2) [c] := by
  constructor
  · intro key others
    exact Function.update_of_ne (others c (List.mem_singleton_self c)).symm ..
  · intro d mem
    cases List.mem_singleton.mp mem
    exact ⟨answered, Function.update_self ..⟩

theorem consulted_subset (cs : List (Check κ)) (s : Store κ) :
    (consult call s cs).consulted ⊆ cs := by
  induction cs generalizing s with
  | nil => exact List.Subset.refl _
  | cons c cs ih =>
    simp only [consult]
    split
    · exact List.cons_subset_cons c (ih _)
    · simp

theorem consult_made {cs : List (Check κ)} {s : Store κ} (apart : (cs.map (·.key)).Nodup)
    (answered : (consult call s cs).answer ≠ .raised) :
    Made call s (consult call s cs).store (consult call s cs).consulted := by
  induction cs generalizing s with
  | nil => exact ⟨fun _ _ => rfl, fun c mem => absurd mem (List.not_mem_nil)⟩
  | cons c cs ih =>
    rw [List.map_cons, List.nodup_cons] at apart
    simp only [consult] at answered ⊢
    split at answered
    · rename_i allowed
      rw [if_pos allowed]
      have granted : (Algorithms.checkAtomic c.limit (s c.key) (call.request c.key)).1 ≠ .raised := by
        rw [allowed]
        decide
      refine (Made.one granted).append (ih apart.2 answered) ?_
      intro d here e there
      cases List.mem_singleton.mp here
      have member := consulted_subset cs _ there
      intro same
      exact apart.1 (same ▸ List.mem_map_of_mem member)
    · rename_i refused
      rw [if_neg refused]
      exact Made.one answered

theorem consultedAll_subset (gs : List (List (Check κ))) (s : Store κ) :
    (consultAll call s gs).consulted ⊆ gs.flatten := by
  induction gs generalizing s with
  | nil => exact List.Subset.refl _
  | cons g gs ih =>
    have first : (consult call s g).consulted ⊆ g := consulted_subset g s
    simp only [consultAll, List.flatten_cons]
    split
    · exact List.subset_append_of_subset_left _ first
    · exact List.append_subset.mpr ⟨List.subset_append_of_subset_left _ first,
        List.subset_append_of_subset_right _ (ih _)⟩

theorem consultAll_made {gs : List (List (Check κ))} {s : Store κ}
    (apart : (gs.flatten.map (·.key)).Nodup)
    (answered : (consultAll call s gs).answer ≠ .raised) :
    Made call s (consultAll call s gs).store (consultAll call s gs).consulted := by
  induction gs generalizing s with
  | nil => exact ⟨fun _ _ => rfl, fun c mem => absurd mem (List.not_mem_nil)⟩
  | cons g gs ih =>
    rw [List.flatten_cons, List.map_append] at apart
    obtain ⟨own, later, disjoint⟩ := List.nodup_append.mp apart
    simp only [consultAll] at answered ⊢
    split at answered
    · rename_i raised
      exact absurd raised answered
    · rename_i goes_on
      rw [if_neg goes_on]
      have onward : (consultAll call (consult call s g).store gs).answer ≠ .raised := by
        intro raised
        simp [raised] at answered
      refine (consult_made own goes_on).append (ih later onward) ?_
      intro c here d there same
      have mine := List.mem_map_of_mem (f := (·.key)) (consulted_subset g s here)
      have other := List.mem_map_of_mem (f := (·.key)) (consultedAll_subset gs _ there)
      exact disjoint _ mine _ other same.symm

def types (gs : List (List (Check κ))) : List BucketType := gs.flatten.map (·.key.bucketType)

omit [DecidableEq κ] in
theorem globalChecks_types (m : Manager κ) (call : Call κ) :
    types (m.globalChecks call) = [] ∨ types (m.globalChecks call) = [.global] := by
  unfold Manager.globalChecks
  split
  · exact .inr rfl
  · exact .inl rfl

omit [DecidableEq κ] in
theorem identityChecks_types (m : Manager κ) (call : Call κ) :
    types (m.identityChecks call) = [] ∨ types (m.identityChecks call) = [.user] ∨
      types (m.identityChecks call) = [.ip] := by
  unfold Manager.identityChecks
  split
  · exact .inl rfl
  · split
    · exact .inr (.inl rfl)
    · exact .inr (.inr rfl)
    · exact .inl rfl

omit [DecidableEq κ] in
theorem routeChecks_types (m : Manager κ) (call : Call κ) :
    types (m.routeChecks call) ∈
      [[], [.resource], [.webhook], [.webhook, .channelWebhook], [.route]] := by
  unfold Manager.routeChecks
  split
  · simp [types]
  · simp only
    split
    · simp [types, Manager.generateBucketKey]
    · unfold Manager.webhookChecks
      split
      · simp [types, Manager.generateBucketKey]
      · simp [types, Manager.generateBucketKey]
    · simp [types, Manager.generateBucketKey]

omit [DecidableEq κ] in
theorem checks_apart (m : Manager κ) (call : Call κ) :
    ((m.checks call).flatten.map (·.key)).Nodup := by
  have apart : (types (m.checks call)).Nodup := by
    have split_types : types (m.checks call) = types (m.globalChecks call) ++
        types (m.identityChecks call) ++ types (m.routeChecks call) := by
      simp [types, Manager.checks]
    have last := routeChecks_types m call
    simp only [List.mem_cons, List.not_mem_nil, or_false] at last
    rw [split_types]
    rcases globalChecks_types m call with first | first <;>
      rcases identityChecks_types m call with second | second | second <;>
        rcases last with last | last | last | last | last <;>
          simp [first, second, last]
  refine List.Nodup.of_map (fun key : BucketKey κ => key.bucketType) ?_
  rw [List.map_map]
  exact apart

theorem checkRateLimit_made {s : Store κ} (answered : (m.checkRateLimit call s).answer ≠ .raised) :
    Made call s (m.checkRateLimit call s).store (m.checkRateLimit call s).consulted := by
  unfold Manager.checkRateLimit at answered ⊢
  split
  · exact ⟨fun _ _ => rfl, fun c mem => absurd mem List.not_mem_nil⟩
  · rename_i limited
    rw [if_neg limited] at answered
    exact consultAll_made (checks_apart m call) answered

/-- A denied request is free exactly when each check it made takes nothing of its bucket. -/
theorem denied_request_is_free_iff (m : Manager κ) (call : Call κ) (store : Store κ)
    (denied : (m.checkRateLimit call store).answer = .denied) :
    Free call store (m.checkRateLimit call store) ↔
      ∀ c ∈ (m.checkRateLimit call store).consulted,
        Spared c.limit (store c.key) (call.request c.key) := by
  have settled : (m.checkRateLimit call store).answer ≠ .raised := by
    rw [denied]
    decide
  have made := checkRateLimit_made settled
  unfold Free
  refine forall_congr' fun c => forall_congr' fun mem => ?_
  obtain ⟨answered, after⟩ := made.each c mem
  rw [after]
  exact checkAtomic_left answered

end Results

def ample : Limit := ⟨⟨50, 1, 10, none, none⟩, .tokenBucket⟩

def onceAMinute : RouteConfig := ⟨⟨⟨1, 60, 0, none, none⟩, .tokenBucket⟩, .route⟩

def sampleManager (enableGlobalLimit : Bool) : Manager (List KeyPart) :=
  ⟨fun _ parts => parts, ample, ample, ample, fun _ => none, onceAMinute, fun _ => false, 1, 1,
    enableGlobalLimit, true, true, none⟩

def sampleCall (isWebhook : Bool) (cost : Nat) : Call (List KeyPart) :=
  ⟨some 1, none, some "GET /users/me", none, false, isWebhook, false, false, none, cost, 0,
    fun _ => 0⟩

def unused : Store (List KeyPart) := fun _ => State.empty

/-- The route denies the second request of the minute, and the global bucket has been charged. -/
theorem denied_request_is_charged : ¬ ∀ (m : Manager (List KeyPart)) (store : Store (List KeyPart)),
    Reachable (step m) (· = unused) store → ∀ call : Call (List KeyPart),
      (m.checkRateLimit call store).answer = .denied →
        Free call store (m.checkRateLimit call store) := by
  intro law
  let m := sampleManager true
  let call := sampleCall false 1
  let store := (m.checkRateLimit call unused).store
  have reached : Reachable (step m) (· = unused) store := reachable_of_run [call] rfl rfl
  have denied : (m.checkRateLimit call store).answer = .denied := by decide +kernel
  have free := law m store reached call denied
  let c : Check (List KeyPart) := ⟨⟨.global, [.user 1]⟩, ample⟩
  have mem : c ∈ (m.checkRateLimit call store).consulted := by decide +kernel
  have same := congrArg Remaining.primary (free c mem)
  revert same
  decide +kernel

/-- A webhook's request above the limit of its route takes nothing. -/
theorem expensive_request_is_free :
    Free (sampleCall true 2) unused
      ((sampleManager false).checkRateLimit (sampleCall true 2) unused) := by
  refine (denied_request_is_free_iff (sampleManager false) (sampleCall true 2) unused
    (by decide +kernel)).mpr ?_
  intro c mem
  have only : ((sampleManager false).checkRateLimit (sampleCall true 2) unused).consulted =
      [⟨⟨.route, [.user 1, .route "GET /users/me"]⟩, onceAMinute.toLimit⟩] := by decide +kernel
  rw [only] at mem
  cases List.mem_singleton.mp mem
  have short : refilled onceAMinute.toConfig Bucket.empty ⟨2, 0, 0⟩ < 2 := by decide +kernel
  exact .inr (.inl short)

end Plexichat.RateLimit.Requests
