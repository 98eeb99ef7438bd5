import Plexichat.Signatures.Verification

/-! A signed request or payload is accepted by one call at most, where no clean-up and no lookup
comes at a bad time. -/
namespace Plexichat.Signatures
open Transition Interleaving

variable {ρ ι : Type}

def Phase.claim : Phase ρ → Option (Envelope × Nat)
  | .pruning e c _ | .authenticated e c => some (e, c.id)
  | _ => none

def Phase.attempt : Phase ρ → Option (Envelope × Nat)
  | .claiming e c _ _ _ => some (e, c.id)
  | _ => none

def Phase.mark : Phase ρ → Option Signed
  | .storing m | .verified m => some m
  | _ => none

def Late (s : Shared) (e : Envelope) : Prop := e.seconds + maxSkew < s.seconds

/-- A clean-up removes the row of an accepted request only after its window, and while no call is
about to insert it. A valid signature is looked up while no other call is about to store it, and
while its entry lives. -/
def Intact (host : Host ρ) (s : World ι ρ) (a : ι × Action ρ) : Prop :=
  match s.pc a.1, a.2 with
  | .pruning _ _ now, .advance =>
    ∀ i x, (s.pc i).claim = some x → (s.shared.prune now).seen x = true ∨
      (Late s.shared x.1 ∧ ∀ j, (s.pc j).attempt ≠ some x)
  | .looking webhook payload timestamp key signature, .advance =>
    ∀ data, signedData host payload timestamp = some data →
      host.ed25519 key signature data = true →
        (∀ i, s.pc i ≠ .storing ⟨webhook, data, signature⟩) ∧
        ∀ expiry, s.shared.cache (replayCacheKey host webhook signature) = some expiry →
          host.served s.shared.clock expiry = true
  | _, _ => True

section Steps

variable {host : Host ρ} {s : Shared} {p : Phase ρ} {a : Action ρ} {r : Shared × Phase ρ}

theorem seen_claim (s : Shared) (c : Connection) (e : Envelope) (now : Int) :
    (s.claim c e now).seen (e, c.id) = true := by
  simp [Shared.claim, Shared.seen]

theorem seen_mono {c : Connection} {e : Envelope} {now : Int} {x : Envelope × Nat}
    (seen : s.seen x = true) : (s.claim c e now).seen x = true := by
  simp only [Shared.seen, Shared.claim, List.any_append, Bool.or_eq_true]
  exact .inl seen

structure Moved (host : Host ρ) (s : Shared) (p : Phase ρ) (a : Action ρ)
    (r : Shared × Phase ρ) : Prop where
  clock : s.clock ≤ r.1.clock
  connections : r.1.connections = s.connections
  claim : ∀ x, r.2.claim = some x →
    p.claim = some x ∨ (p.attempt = some x ∧ s.seen x = false ∧ r.1.seen x = true)
  attempt : ∀ x, r.2.attempt = some x → p.attempt = some x ∨ (r.1 = s ∧ ¬ Late s x.1)
  seen : ∀ x, s.seen x = true → r.1.seen x = true ∨
    ∃ e c now, p = .pruning e c now ∧ a = .advance ∧ r.1 = s.prune now
  mark : ∀ m, r.2.mark = some m → p.mark = some m ∨ ∃ payload timestamp key,
    p = .looking m.webhook payload timestamp key m.signature ∧ a = .advance ∧
      signedData host payload timestamp = some m.data ∧
      host.ed25519 key m.signature m.data = true ∧
      s.cached host (replayCacheKey host m.webhook m.signature) = false
  cache : ∀ k, (s.cache k).isSome → (r.1.cache k).isSome
  verified : ∀ m, r.2 = .verified m →
    p = .verified m ∨ (r.1.cache (replayCacheKey host m.webhook m.signature)).isSome

theorem Moved.local {p' : Phase ρ} (claim : p'.claim = none)
    (attempt : ∀ x, p'.attempt = some x → ¬ Late s x.1) (mark : p'.mark = none) :
    Moved host s p a (s, p') :=
  ⟨Nat.le_refl _, rfl, fun _ h => absurd (claim.symm.trans h) (by simp),
    fun x h => .inr ⟨rfl, attempt x h⟩, fun _ => .inl,
    fun _ h => absurd (mark.symm.trans h) (by simp), fun _ => id,
    fun _ h => absurd (mark.symm.trans (congrArg Phase.mark h)) (by simp [Phase.mark])⟩

theorem not_late {e : Envelope} (ok : claimable e s.seconds = true) : ¬ Late s e := by
  simp only [claimable, Bool.and_eq_true, decide_eq_true_eq] at ok
  have near := ok.2
  simp only [Late, maxSkew] at near ⊢
  omega

theorem claiming_moved {e : Envelope} {c : Connection} {now : Int} {left : List Connection}
    {statuses : List Status} (unseen : s.seen (e, c.id) = false) :
    Moved host s (.claiming e c now left statuses) a (s.claim c e now, .pruning e c now) := by
  refine ⟨Nat.le_refl _, rfl, ?_, ?_, fun _ h => .inl (seen_mono h), ?_, fun _ => id, ?_⟩
  · intro x h
    cases h
    exact .inr ⟨rfl, unseen, seen_claim s c e now⟩
  · intro x h
    cases h
  · intro m h
    cases h
  · intro m h
    cases h

theorem pruning_moved (e : Envelope) (c : Connection) (now : Int) :
    Moved host s (.pruning e c now) .advance (s.prune now, .authenticated e c) := by
  refine ⟨Nat.le_refl _, rfl, fun _ => .inl, ?_, fun _ _ => .inr ⟨e, c, now, rfl, rfl, rfl⟩, ?_,
    fun _ => id, ?_⟩
  · intro x h
    cases h
  · intro m h
    cases h
  · intro m h
    cases h

theorem looking_moved {webhook : Nat} {payload : ρ} {timestamp : Int}
    {key signature data : List UInt8}
    (miss : s.cached host (replayCacheKey host webhook signature) = false)
    (signed : signedData host payload timestamp = some data)
    (valid : host.ed25519 key signature data = true) :
    Moved host s (.looking webhook payload timestamp key signature) .advance
      (s, .storing ⟨webhook, data, signature⟩) := by
  refine ⟨Nat.le_refl _, rfl, ?_, ?_, fun _ => .inl, ?_, fun _ => id, ?_⟩
  · intro x h
    cases h
  · intro x h
    cases h
  · intro m h
    cases h
    exact .inr ⟨payload, timestamp, key, rfl, rfl, signed, valid, miss⟩
  · intro m h
    cases h

theorem storing_moved (m : Signed) :
    Moved host s (.storing m) a
      (s.store (replayCacheKey host m.webhook m.signature), .verified m) := by
  have kept : ∀ k k', (s.cache k).isSome → ((s.store k').cache k).isSome := by
    intro k k' here
    show (Function.update s.cache k' _ k).isSome
    by_cases same : k = k'
    · rw [same, Function.update_self]
      rfl
    · rw [Function.update_of_ne same]
      exact here
  refine ⟨Nat.le_refl _, rfl, ?_, ?_, fun _ => .inl, fun _ => .inl,
    fun k => kept k _, ?_⟩
  · intro x h
    cases h
  · intro x h
    cases h
  · intro m' h
    cases h
    refine .inr ?_
    show (Function.update s.cache _ _ _).isSome
    rw [Function.update_self]
    rfl

theorem advance_moved (moved : advance host s p = some r) : Moved host s p .advance r := by
  cases p with
  | idle => cases moved
  | refused => cases moved
  | authenticated e c => cases moved
  | verified m => cases moved
  | listing e statuses =>
    cases statuses with
    | nil =>
      cases moved
      exact .local rfl (fun _ h => by cases h) rfl
    | cons status statuses =>
      cases moved
      exact .local rfl (fun _ h => by cases h) rfl
  | trying e left statuses =>
    cases left with
    | nil =>
      cases moved
      exact .local rfl (fun _ h => by cases h) rfl
    | cons c left =>
      simp only [advance] at moved
      split at moved
      · cases moved
        exact .local rfl (fun _ h => by cases h) rfl
      · split at moved
        · rename_i ok
          cases moved
          refine .local rfl ?_ rfl
          intro x h
          cases h
          exact not_late (Bool.and_eq_true_iff.mp ok).2
        · cases moved
          exact .local rfl (fun _ h => by cases h) rfl
  | claiming e c now left statuses =>
    simp only [advance] at moved
    split at moved
    · cases moved
      exact .local rfl (fun _ h => by cases h) rfl
    · rename_i unseen
      cases moved
      exact claiming_moved (Bool.eq_false_iff.mpr unseen)
  | pruning e c now =>
    cases moved
    exact pruning_moved e c now
  | fetching webhook payload signature timestamp =>
    simp only [advance] at moved
    split at moved
    · cases moved
      exact .local rfl (fun _ h => by cases h) rfl
    · cases moved
      exact .local rfl (fun _ h => by cases h) rfl
  | looking webhook payload timestamp key signature =>
    simp only [advance] at moved
    split at moved
    · cases moved
      exact .local rfl (fun _ h => by cases h) rfl
    · rename_i miss
      split at moved
      · cases moved
        exact .local rfl (fun _ h => by cases h) rfl
      · rename_i data signed
        split at moved
        · rename_i valid
          cases moved
          exact looking_moved (Bool.eq_false_iff.mpr miss) signed valid
        · cases moved
          exact .local rfl (fun _ h => by cases h) rfl
  | storing m =>
    cases moved
    exact storing_moved m

theorem failed_moved (moved : failed s p = some r) : Moved host s p .fail r := by
  cases p with
  | listing e statuses =>
    cases statuses with
    | nil => cases moved
    | cons status statuses =>
      cases moved
      exact .local rfl (fun _ h => by cases h) rfl
  | claiming e c now left statuses =>
    cases moved
    exact .local rfl (fun _ h => by cases h) rfl
  | fetching webhook payload signature timestamp =>
    cases moved
    exact .local rfl (fun _ h => by cases h) rfl
  | pruning e c now =>
    cases moved
    refine ⟨Nat.le_refl _, rfl, fun _ => .inl, ?_, fun _ => .inl, ?_, fun _ => id, ?_⟩
    · intro x h
      cases h
    · intro m h
      cases h
    · intro m h
      cases h
  | idle => cases moved
  | refused => cases moved
  | trying e left statuses => cases moved
  | authenticated e c => cases moved
  | looking webhook payload timestamp key signature => cases moved
  | storing m => cases moved
  | verified m => cases moved

theorem tick_moved (n : Nat) :
    Moved host s p (.tick n) ({ s with clock := s.clock + n }, p) :=
  ⟨Nat.le_add_right _ _, rfl, fun _ => .inl, fun _ => .inl, fun _ => .inl,
    fun _ => .inl, fun _ => id, fun _ => .inl⟩

theorem next_moved (moved : next host s p a = some r) : Moved host s p a r := by
  cases a with
  | advance => exact advance_moved moved
  | fail => exact failed_moved moved
  | tick n =>
    cases moved
    exact tick_moved n
  | authenticate q statuses =>
    cases p with
    | idle =>
      simp only [next] at moved
      cases moved
      cases q.read with
      | none => exact .local rfl (fun _ h => by cases h) rfl
      | some e => exact .local rfl (fun _ h => by cases h) rfl
    | _ => cases moved
  | verifyPayload d =>
    cases p with
    | idle =>
      simp only [next] at moved
      cases moved
      simp only [checkTimestamp]
      split
      · split
        · exact .local rfl (fun _ h => by cases h) rfl
        · exact .local rfl (fun _ h => by cases h) rfl
      · exact .local rfl (fun _ h => by cases h) rfl
    | _ => cases moved

theorem Late.later {e : Envelope} (late : Late s e) {t : Shared} (clock : s.clock ≤ t.clock) :
    Late t e := by
  simp only [Late, Shared.seconds] at late ⊢
  have onward := Nat.div_le_div_right (c := 1000) clock
  omega

end Steps

section Claims

variable [DecidableEq ι] {host : Host ρ} {s : World ι ρ} {i : ι} {a : Action ρ}
  {r : Shared × Phase ρ}

structure Claims (s : World ι ρ) : Prop where
  seen : ∀ i x, (s.pc i).claim = some x → s.shared.seen x = true ∨ Late s.shared x.1
  racing : ∀ i j x, (s.pc i).claim = some x → (s.pc j).attempt = some x → s.shared.seen x = true
  single : Single Phase.claim s

theorem claim_before (moved : Moved host s.shared (s.pc i) a r) {j : ι} {x : Envelope × Nat}
    (claim : ((s.after i r).pc j).claim = some x) : (s.pc j).claim = some x ∨
      ((s.pc i).attempt = some x ∧ s.shared.seen x = false ∧ r.1.seen x = true) := by
  by_cases own : j = i
  · rw [own, after_self] at claim
    exact own ▸ moved.claim x claim
  · rw [after_other s own] at claim
    exact .inl claim

theorem attempt_before (moved : Moved host s.shared (s.pc i) a r) {j : ι} {x : Envelope × Nat}
    (attempt : ((s.after i r).pc j).attempt = some x) :
    (s.pc j).attempt = some x ∨ (r.1 = s.shared ∧ ¬ Late s.shared x.1) := by
  by_cases own : j = i
  · rw [own, after_self] at attempt
    exact own ▸ moved.attempt x attempt
  · rw [after_other s own] at attempt
    exact .inl attempt

omit [DecidableEq ι] in
theorem seen_after (intact : Intact host s (i, a)) (moved : Moved host s.shared (s.pc i) a r)
    {j : ι} {x : Envelope × Nat} (claim : (s.pc j).claim = some x)
    (seen : s.shared.seen x = true) :
    r.1.seen x = true ∨ (Late s.shared x.1 ∧ ∀ k, (s.pc k).attempt ≠ some x) := by
  rcases moved.seen x seen with kept | ⟨e, c, now, here, rfl, pruned⟩
  · exact .inl kept
  · simp only [Intact, here] at intact
    exact pruned ▸ intact j x claim

theorem Claims.after (claims : Claims s) (intact : Intact host s (i, a))
    (moved : Moved host s.shared (s.pc i) a r) : Claims (s.after i r) := by
  refine ⟨?_, ?_, ?_⟩
  · intro j x claim
    show r.1.seen x = true ∨ Late r.1 x.1
    rcases claim_before moved claim with kept | ⟨_, _, won⟩
    · rcases claims.seen j x kept with seen | late
      · exact (seen_after intact moved kept seen).imp_right fun gone => gone.1.later moved.clock
      · exact .inr (late.later moved.clock)
    · exact .inl won
  · intro j k x claim attempt
    show r.1.seen x = true
    rcases claim_before moved claim with kept | ⟨_, _, won⟩
    · rcases attempt_before moved attempt with waiting | ⟨unchanged, early⟩
      · rcases seen_after intact moved kept (claims.racing j k x kept waiting) with seen | gone
        · exact seen
        · exact absurd waiting (gone.2 k)
      · rw [unchanged]
        exact (claims.seen j x kept).resolve_right early
    · exact won
  · refine claims.single.after ?_
    intro x claim
    refine (moved.claim x claim).imp_right ?_
    rintro ⟨attempt, unseen, _⟩ j held
    exact absurd ((claims.racing j i x held attempt).symm.trans unseen) (by decide)

end Claims

section Marks

variable [DecidableEq ι] {host : Host ρ} {s : World ι ρ} {i : ι} {a : Action ρ}
  {r : Shared × Phase ρ}

structure Marks (host : Host ρ) (s : World ι ρ) : Prop where
  stored : ∀ i m, s.pc i = .verified m →
    (s.shared.cache (replayCacheKey host m.webhook m.signature)).isSome
  single : Single Phase.mark s

theorem mark_eq_some {p : Phase ρ} {m : Signed} (mark : p.mark = some m) :
    p = .storing m ∨ p = .verified m := by
  cases p with
  | storing m' => exact .inl (congrArg Phase.storing (Option.some.inj mark))
  | verified m' => exact .inr (congrArg Phase.verified (Option.some.inj mark))
  | _ => cases mark

omit [DecidableEq ι] in
theorem Marks.unmarked (marks : Marks host s) {m : Signed} {payload : ρ} {timestamp : Int}
    {key : List UInt8} (here : s.pc i = .looking m.webhook payload timestamp key m.signature)
    (intact : Intact host s (i, .advance))
    (signed : signedData host payload timestamp = some m.data)
    (valid : host.ed25519 key m.signature m.data = true)
    (miss : s.shared.cached host (replayCacheKey host m.webhook m.signature) = false) (j : ι) :
    (s.pc j).mark ≠ some m := by
  simp only [Intact, here] at intact
  obtain ⟨apart, live⟩ := intact m.data signed valid
  intro mark
  rcases mark_eq_some mark with storing | verified
  · exact apart j storing
  · obtain ⟨expiry, entry⟩ := Option.isSome_iff_exists.mp (marks.stored j m verified)
    have hit : s.shared.cached host (replayCacheKey host m.webhook m.signature) = true := by
      simp only [Shared.cached, entry, Option.any_some]
      exact live expiry entry
    exact absurd (hit.symm.trans miss) (by decide)

theorem Marks.after (marks : Marks host s) (intact : Intact host s (i, a))
    (moved : Moved host s.shared (s.pc i) a r) : Marks host (s.after i r) := by
  refine ⟨?_, ?_⟩
  · intro j m verified
    show (r.1.cache _).isSome
    by_cases own : j = i
    · rw [own, after_self] at verified
      rcases moved.verified m verified with before | stored
      · exact moved.cache _ (marks.stored i m before)
      · exact stored
    · rw [after_other s own] at verified
      exact moved.cache _ (marks.stored j m verified)
  · refine marks.single.after ?_
    intro m mark
    refine (moved.mark m mark).imp_right ?_
    rintro ⟨payload, timestamp, key, here, rfl, signed, valid, miss⟩ j
    exact marks.unmarked here intact signed valid miss j

end Marks

section Signers

variable {host : Host ρ} {s : Shared} {p : Phase ρ} {a : Action ρ} {r : Shared × Phase ρ}

def SignedBy (host : Host ρ) (c : Connection) (e : Envelope) : Prop :=
  verifyPayloadSignature host c.sharedKey e = some true

def DistinctKeys (s : Shared) : Prop :=
  ∀ a ∈ s.connections, ∀ b ∈ s.connections, ∀ k,
    a.sharedKey = some k → b.sharedKey = some k → a = b

def Unforgeable (host : Host ρ) (s : Shared) (e : Envelope) : Prop :=
  ∀ t, signatureMaterial e = some t → ∀ a ∈ s.connections, ∀ b ∈ s.connections, ∀ k l,
    a.sharedKey = some k → b.sharedKey = some l →
      host.hmac (Text.utf8 k) t = host.hmac (Text.utf8 l) t → k = l

theorem given_eq_some {header : Option (List Char)} {t : List Char}
    (h : given header = some t) : header = some t := Option.eq_some_of_filter_eq_some h

theorem SignedBy.digest {c : Connection} {e : Envelope} (signed : SignedBy host c e) :
    ∃ k t, c.sharedKey = some k ∧ signatureMaterial e = some t ∧
      host.hmac (Text.utf8 k) t = e.signature := by
  simp only [SignedBy, verifyPayloadSignature] at signed
  split at signed
  · cases signed
  · rename_i k known
    split at signed
    · cases signed
    · obtain ⟨t, material, compared⟩ := Option.bind_eq_some_iff.mp signed
      refine ⟨k, t, given_eq_some known, material, ?_⟩
      simp only [compareDigest] at compared
      split at compared
      · exact of_decide_eq_true (Option.some.inj compared)
      · cases compared

theorem signer_unique {e : Envelope} (distinct : DistinctKeys s)
    (unforgeable : Unforgeable host s e) {c d : Connection} (hc : c ∈ s.connections)
    (hd : d ∈ s.connections) (left : SignedBy host c e) (right : SignedBy host d e) : c = d := by
  obtain ⟨k, t, key, material, digest⟩ := left.digest
  obtain ⟨l, t', key', material', digest'⟩ := right.digest
  cases material.symm.trans material'
  have same := unforgeable t material c hc d hd k l key key' (digest.trans digest'.symm)
  exact distinct c hc d hd k key (same ▸ key')

def Vouched (host : Host ρ) (l : List Connection) : Phase ρ → Prop
  | .trying _ left _ => ∀ c ∈ left, c ∈ l
  | .claiming e c _ left _ => (c ∈ l ∧ SignedBy host c e) ∧ ∀ d ∈ left, d ∈ l
  | .pruning e c _ | .authenticated e c => c ∈ l ∧ SignedBy host c e
  | _ => True

theorem mem_listConnections {l : List Connection} {status : Status} {c : Connection}
    (h : c ∈ listConnections host l status) : c ∈ l := by
  have listed := (host.newestFirst_perm _).mem_iff.mp (List.mem_of_mem_take h)
  exact (List.mem_filter.mp listed).1

theorem advance_vouched (vouched : Vouched host s.connections p)
    (moved : advance host s p = some r) : Vouched host s.connections r.2 := by
  cases p with
  | idle => cases moved
  | refused => cases moved
  | authenticated e c => cases moved
  | verified m => cases moved
  | listing e statuses =>
    cases statuses with
    | nil =>
      cases moved
      trivial
    | cons status statuses =>
      cases moved
      exact fun c h => mem_listConnections h
  | trying e left statuses =>
    cases left with
    | nil =>
      cases moved
      trivial
    | cons c left =>
      have rest : ∀ d ∈ left, d ∈ s.connections := fun d h => vouched d (List.mem_cons_of_mem c h)
      simp only [advance] at moved
      split at moved
      · cases moved
        trivial
      · rename_i valid verdict
        split at moved
        · rename_i ok
          have true_verdict := (Bool.and_eq_true_iff.mp ok).1
          cases moved
          exact ⟨⟨vouched c List.mem_cons_self, verdict.trans (congrArg some true_verdict)⟩, rest⟩
        · cases moved
          exact rest
  | claiming e c now left statuses =>
    simp only [advance] at moved
    split at moved
    · cases moved
      exact vouched.2
    · cases moved
      exact vouched.1
  | pruning e c now =>
    cases moved
    exact vouched
  | fetching webhook payload signature timestamp =>
    simp only [advance] at moved
    split at moved
    · cases moved
      trivial
    · cases moved
      trivial
  | looking webhook payload timestamp key signature =>
    simp only [advance] at moved
    split at moved
    · cases moved
      trivial
    · split at moved
      · cases moved
        trivial
      · split at moved
        · cases moved
          trivial
        · cases moved
          trivial
  | storing m =>
    cases moved
    trivial

theorem next_vouched (vouched : Vouched host s.connections p) (moved : next host s p a = some r) :
    Vouched host s.connections r.2 := by
  cases a with
  | advance => exact advance_vouched vouched moved
  | tick n =>
    cases moved
    exact vouched
  | fail =>
    cases p with
    | listing e statuses =>
      cases statuses with
      | nil => cases moved
      | cons status statuses =>
        cases moved
        trivial
    | claiming e c now left statuses =>
      cases moved
      trivial
    | fetching webhook payload signature timestamp =>
      cases moved
      trivial
    | pruning e c now =>
      cases moved
      exact vouched
    | _ => cases moved
  | authenticate q statuses =>
    cases p with
    | idle =>
      simp only [next] at moved
      cases moved
      cases q.read with
      | none => trivial
      | some e => trivial
    | _ => cases moved
  | verifyPayload d =>
    cases p with
    | idle =>
      simp only [next] at moved
      cases moved
      simp only [checkTimestamp]
      split
      · split
        · trivial
        · trivial
      · trivial
    | _ => cases moved

end Signers

section Runs

variable [DecidableEq ι] {host : Host ρ} {s : World ι ρ}

theorem vouched_throughout {guard : World ι ρ → ι × Action ρ → Prop} {first : World ι ρ → Prop}
    (start : ∀ s, first s → ∀ i, Vouched host s.shared.connections (s.pc i))
    (run : Guarded (step (next host)) guard first s) (i : ι) :
    Vouched host s.shared.connections (s.pc i) := by
  have holds : Holds (fun _ => True) (fun c p => Vouched host c.connections p)
      (fun _ _ => True) s := by
    refine holds_throughout (fun s h => ⟨trivial, start s h, fun _ _ _ => trivial⟩) ?_ run
    intro s i a r holds _ moved
    have connections := (next_moved moved).connections
    refine ⟨trivial, ?_, ?_⟩
    · rw [connections]
      exact next_vouched (holds.each i) moved
    · intro j _
      rw [connections]
      exact ⟨holds.each j, trivial, trivial⟩
  exact holds.each i

theorem exclusive_throughout (run : Guarded (step (next host)) (Intact host) init s) :
    Claims s ∧ Marks host s := by
  refine guarded_invariant (I := fun s => Claims s ∧ Marks host s) ?_ ?_ run
  · intro s idle
    have unclaimed : ∀ {P : Prop} i x, (s.pc i).claim = some x → P := by
      intro P i x claim
      rw [idle i] at claim
      cases claim
    have unmarked : ∀ {P : Prop} i m, (s.pc i).mark = some m → P := by
      intro P i m mark
      rw [idle i] at mark
      cases mark
    exact ⟨⟨fun i x => unclaimed i x, fun i _ x claim _ => unclaimed i x claim,
      fun i _ x claim _ => unclaimed i x claim⟩,
      fun i m verified => unmarked i m (congrArg Phase.mark verified),
      fun i _ m mark _ => unmarked i m mark⟩
  · rintro s ⟨i, a⟩ t ⟨claims, marks⟩ intact moved
    obtain ⟨r, local_step, rfl⟩ := step_eq_some.mp moved
    have step := next_moved local_step
    exact ⟨claims.after intact step, marks.after intact step⟩

structure AcceptedOnce (host : Host ρ) (s : World ι ρ) : Prop where
  request : DistinctKeys s.shared → ∀ e, Unforgeable host s.shared e → ∀ i j c d,
    s.pc i = .authenticated e c → s.pc j = .authenticated e d → i = j
  payload : ∀ i j m, s.pc i = .verified m → s.pc j = .verified m → i = j

theorem accepted_once (run : Guarded (step (next host)) (Intact host) init s) :
    AcceptedOnce host s := by
  obtain ⟨claims, marks⟩ := exclusive_throughout run
  have vouched : ∀ i, Vouched host s.shared.connections (s.pc i) :=
    vouched_throughout (fun s idle i => by rw [idle i]; trivial) run
  refine ⟨?_, ?_⟩
  · intro distinct e unforgeable i j c d left right
    have hc := vouched i
    have hd := vouched j
    rw [left] at hc
    rw [right] at hd
    have same := signer_unique distinct unforgeable hc.1 hd.1 hc.2 hd.2
    refine claims.single i j (e, c.id) (congrArg Phase.claim left) ?_
    rw [same]
    exact congrArg Phase.claim right
  · intro i j m left right
    exact marks.single i j m (congrArg Phase.mark left) (congrArg Phase.mark right)

end Runs

end Plexichat.Signatures
