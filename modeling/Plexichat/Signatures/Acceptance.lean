import Mathlib.Data.List.Sort
import Mathlib.Tactic.FinCases
import Plexichat.Signatures.AcceptedOnce

/-! A fresh request of a peer is accepted where its connection is on a page that is tried. -/
namespace Plexichat.Signatures
open Transition Interleaving

variable {ρ ι : Type}

def Phase.ended : Phase ρ → Bool
  | .refused | .authenticated _ _ | .verified _ => true
  | _ => false

def tried (host : Host ρ) (l : List Connection) (statuses : List Status) : List Connection :=
  statuses.flatMap (listConnections host l)

def Reached (host : Host ρ) (l : List Connection) (e : Envelope) (c : Connection)
    (statuses : List Status) : Prop :=
  c ∈ tried host l statuses ∧ e.nonce ≠ [] ∧ e.nonce.length ≤ 256

structure Addressed (host : Host ρ) (s : Shared) (e : Envelope) (c : Connection) : Prop where
  stored : c ∈ s.connections
  signed : SignedBy host c e
  distinct : DistinctKeys s
  unforgeable : Unforgeable host s e

/-- Call `i` has the request while it is in its window and was never seen, and nothing fails. -/
def Honest (i : ι) (e : Envelope) (c : Connection) (statuses : List Status) (s : World ι ρ)
    (a : ι × Action ρ) : Prop :=
  a.1 = i → match s.pc i, a.2 with
    | .idle, .authenticate q listed => q.read = some e ∧ listed = statuses
    | _, .verifyPayload _ | _, .fail => False
    | .trying _ _ _, .advance => (s.shared.seconds - e.seconds).natAbs ≤ maxSkew.toNat
    | .claiming _ _ _ _ _, .advance => s.shared.seen (e, c.id) = false
    | _, _ => True

def Underway (host : Host ρ) (l : List Connection) (e : Envelope) (c : Connection)
    (statuses : List Status) : Phase ρ → Prop
  | .idle => True
  | .listing e' later => e' = e ∧ (∀ d ∈ tried host l later, d ∈ tried host l statuses) ∧
    (Reached host l e c statuses → c ∈ tried host l later)
  | .trying e' left later => e' = e ∧
    (∀ d ∈ left ++ tried host l later, d ∈ tried host l statuses) ∧
    (Reached host l e c statuses → c ∈ left ++ tried host l later)
  | .claiming e' d _ _ _ | .pruning e' d _ | .authenticated e' d =>
    e' = e ∧ d = c ∧ Reached host l e c statuses
  | .refused => ¬ Reached host l e c statuses
  | _ => False

section Steps

variable {host : Host ρ} {s : Shared} {e : Envelope} {c d : Connection} {statuses : List Status}
  {p : Phase ρ} {r : Shared × Phase ρ}

theorem stored_of_tried {l : List Connection} (h : d ∈ tried host l statuses) : d ∈ l := by
  obtain ⟨status, _, listed⟩ := List.mem_flatMap.mp h
  exact mem_listConnections listed

theorem SignedBy.verdict (signed : SignedBy host c e) (d : Connection) :
    ∃ valid, verifyPayloadSignature host d.sharedKey e = some valid := by
  obtain ⟨k, t, _, material, digest⟩ := signed.digest
  simp only [verifyPayloadSignature]
  split
  · exact ⟨false, rfl⟩
  · rename_i l _
    split
    · exact ⟨false, rfl⟩
    · have plain : (host.hmac (Text.utf8 l) t ++ e.signature).all (·.toNat < 128) = true := by
        rw [List.all_append, Bool.and_eq_true, ← digest]
        exact ⟨host.hmac_ascii _ _, host.hmac_ascii _ _⟩
      refine ⟨decide (host.hmac (Text.utf8 l) t = e.signature), ?_⟩
      rw [material, Option.bind_some, compareDigest, if_pos plain]

theorem trying_underway {left : List Connection} {later : List Status}
    (addressed : Addressed host s e c)
    (fresh : (s.seconds - e.seconds).natAbs ≤ maxSkew.toNat)
    (within : ∀ x ∈ d :: left ++ tried host s.connections later,
      x ∈ tried host s.connections statuses)
    (ahead : Reached host s.connections e c statuses →
      c ∈ d :: left ++ tried host s.connections later)
    (moved : advance host s (.trying e (d :: left) later) = some r) :
    r.1 = s ∧ Underway host s.connections e c statuses r.2 := by
  obtain ⟨valid, verdict⟩ := addressed.signed.verdict d
  have listed := within d (List.mem_append_left _ List.mem_cons_self)
  simp only [advance, verdict] at moved
  split at moved
  · rename_i ok
    obtain ⟨sound, claims⟩ := Bool.and_eq_true_iff.mp ok
    cases moved
    have same : d = c := signer_unique addressed.distinct addressed.unforgeable
      (stored_of_tried listed) addressed.stored (verdict.trans (congrArg some sound))
      addressed.signed
    simp only [claimable, Bool.and_eq_true, decide_eq_true_eq] at claims
    exact ⟨rfl, rfl, same, same ▸ listed, claims.1.1, claims.1.2⟩
  · rename_i refused
    cases moved
    refine ⟨rfl, rfl, fun x h => within x (List.mem_append.mpr
      ((List.mem_append.mp h).imp_left (List.mem_cons_of_mem d))), ?_⟩
    intro reached
    rcases List.mem_cons.mp (ahead reached) with same | later
    · have claims : claimable e s.seconds = true := by
        simp only [claimable, Bool.and_eq_true, decide_eq_true_eq]
        exact ⟨reached.2, fresh⟩
      have sound := Option.some.inj (verdict.symm.trans (same ▸ addressed.signed))
      exact absurd (Bool.and_eq_true_iff.mpr ⟨sound, claims⟩) refused
    · exact later

theorem advance_underway (addressed : Addressed host s e c)
    (underway : Underway host s.connections e c statuses p)
    (honest : match p with
      | .trying _ _ _ => (s.seconds - e.seconds).natAbs ≤ maxSkew.toNat
      | .claiming _ _ _ _ _ => s.seen (e, c.id) = false
      | _ => True)
    (moved : advance host s p = some r) : Underway host s.connections e c statuses r.2 := by
  cases p with
  | listing e' later =>
    obtain ⟨rfl, within, ahead⟩ := underway
    cases later with
    | nil =>
      cases moved
      exact fun reached => absurd (ahead reached) List.not_mem_nil
    | cons status later =>
      cases moved
      exact ⟨rfl, within, ahead⟩
  | trying e' left later =>
    obtain ⟨rfl, within, ahead⟩ := underway
    cases left with
    | nil =>
      cases moved
      exact ⟨rfl, within, ahead⟩
    | cons d left => exact (trying_underway addressed honest within ahead moved).2
  | claiming e' d now left later =>
    obtain ⟨rfl, rfl, reached⟩ := underway
    simp only [advance, honest, Bool.false_eq_true, if_false] at moved
    cases moved
    exact ⟨rfl, rfl, reached⟩
  | pruning e' d now =>
    cases moved
    exact underway
  | idle => cases moved
  | refused => cases moved
  | authenticated e' d => cases moved
  | fetching webhook payload signature timestamp => exact underway.elim
  | looking webhook payload timestamp key signature => exact underway.elim
  | storing m => exact underway.elim
  | verified m => cases moved

end Steps

section Runs

variable [DecidableEq ι] {host : Host ρ} {s : World ι ρ} {e : Envelope} {c : Connection}
  {statuses : List Status} {i : ι}

omit [DecidableEq ι] in
theorem next_underway {a : Action ρ} {r : Shared × Phase ρ}
    (addressed : Addressed host s.shared e c)
    (underway : Underway host s.shared.connections e c statuses (s.pc i))
    (honest : Honest i e c statuses s (i, a)) (moved : next host s.shared (s.pc i) a = some r) :
    Underway host s.shared.connections e c statuses r.2 := by
  have allowed := honest rfl
  generalize s.pc i = p at underway allowed moved
  cases a with
  | advance =>
    refine advance_underway addressed underway ?_ moved
    cases p with
    | trying => exact allowed
    | claiming => exact allowed
    | _ => trivial
  | fail =>
    cases p with
    | idle => exact allowed.elim
    | _ => exact allowed.elim
  | tick n =>
    cases moved
    exact underway
  | authenticate q listed =>
    cases p with
    | idle =>
      obtain ⟨read, rfl⟩ := allowed
      simp only [next, read] at moved
      cases moved
      exact ⟨rfl, fun d h => h, fun reached => reached.1⟩
    | _ => cases moved
  | verifyPayload d =>
    cases p with
    | idle => exact allowed.elim
    | _ => exact allowed.elim

theorem underway_throughout
    (run : Guarded (step (next host)) (Honest i e c statuses)
      (fun s => s.pc i = .idle ∧ Addressed host s.shared e c) s) :
    Addressed host s.shared e c ∧
      Underway host s.shared.connections e c statuses (s.pc i) := by
  refine guarded_invariant (I := fun s => Addressed host s.shared e c ∧
    Underway host s.shared.connections e c statuses (s.pc i)) ?_ ?_ run
  · rintro s ⟨idle, addressed⟩
    rw [idle]
    exact ⟨addressed, trivial⟩
  · rintro s ⟨j, a⟩ t ⟨addressed, underway⟩ honest moved
    obtain ⟨r, local_step, rfl⟩ := step_eq_some.mp moved
    have connections : r.1.connections = s.shared.connections :=
      (next_moved local_step).connections
    have still : Addressed host r.1 e c := by
      obtain ⟨stored, signed, distinct, unforgeable⟩ := addressed
      simp only [DistinctKeys, Unforgeable] at distinct unforgeable
      refine ⟨?_, signed, ?_, ?_⟩
      · rw [connections]
        exact stored
      · rw [DistinctKeys, connections]
        exact distinct
      · rw [Unforgeable, connections]
        exact unforgeable
    refine ⟨still, ?_⟩
    show Underway host r.1.connections e c statuses _
    rw [connections]
    by_cases own : j = i
    · subst own
      rw [after_self]
      exact next_underway addressed underway honest local_step
    · rw [after_other s (Ne.symm own)]
      exact underway

def effort (host : Host ρ) (s : Shared) (statuses : List Status) : Nat :=
  (statuses.map fun t => 2 + 2 * (listConnections host s.connections t).length).sum

def remaining (host : Host ρ) (s : Shared) : Phase ρ → Nat
  | .listing _ later => 1 + effort host s later
  | .trying _ left later => 2 + 2 * left.length + effort host s later
  | .claiming _ _ _ left later => 3 + 2 * left.length + effort host s later
  | .fetching _ _ _ _ => 3
  | .looking _ _ _ _ _ => 2
  | .pruning _ _ _ | .storing _ => 1
  | _ => 0

theorem advance_progress (host : Host ρ) (s : Shared) {p : Phase ρ} (begun : p ≠ .idle)
    (going : ¬ p.ended = true) : ∃ r, next host s p .advance = some r ∧ r.2 ≠ .idle ∧
      remaining host r.1 r.2 < remaining host s p := by
  cases p with
  | idle => exact absurd rfl begun
  | refused => exact absurd rfl going
  | authenticated e c => exact absurd rfl going
  | verified m => exact absurd rfl going
  | listing e later =>
    cases later with
    | nil => exact ⟨_, rfl, by simp, Nat.succ_pos _⟩
    | cons status later =>
      refine ⟨_, rfl, by simp, ?_⟩
      simp only [remaining, effort, List.map_cons, List.sum_cons]
      omega
  | trying e left later =>
    cases left with
    | nil =>
      refine ⟨_, rfl, by simp, ?_⟩
      simp only [remaining, List.length_nil]
      omega
    | cons d left =>
      simp only [next, advance]
      split
      · exact ⟨_, rfl, by simp, Nat.lt_of_lt_of_le Nat.zero_lt_two (by simp [remaining]; omega)⟩
      · split
        · refine ⟨_, rfl, by simp, ?_⟩
          simp only [remaining, List.length_cons]
          omega
        · refine ⟨_, rfl, by simp, ?_⟩
          simp only [remaining, List.length_cons]
          omega
  | claiming e d now left later =>
    simp only [next, advance]
    split
    · refine ⟨_, rfl, by simp, ?_⟩
      simp only [remaining]
      omega
    · refine ⟨_, rfl, by simp, ?_⟩
      simp only [remaining]
      omega
  | pruning e d now => exact ⟨_, rfl, by simp, Nat.zero_lt_one⟩
  | fetching webhook payload signature timestamp =>
    simp only [next, advance]
    split
    · exact ⟨_, rfl, by simp, Nat.lt_succ_self 2⟩
    · exact ⟨_, rfl, by simp, Nat.succ_pos 2⟩
  | looking webhook payload timestamp key signature =>
    simp only [next, advance]
    split
    · exact ⟨_, rfl, by simp, Nat.succ_pos 1⟩
    · split
      · exact ⟨_, rfl, by simp, Nat.succ_pos 1⟩
      · split
        · exact ⟨_, rfl, by simp, Nat.lt_succ_self 1⟩
        · exact ⟨_, rfl, by simp, Nat.succ_pos 1⟩
  | storing m => exact ⟨_, rfl, by simp, Nat.zero_lt_one⟩

theorem ends (host : Host ρ) (s : World ι ρ) {i : ι} (begun : s.pc i ≠ .idle) :
    ∃ n t, run (step (next host)) s (List.replicate n (i, .advance)) = some t ∧
      (t.pc i).ended = true :=
  runs_to_stop (I := fun _ p => p ≠ .idle) (remaining host)
    (fun c _ begun going => advance_progress host c begun going) s i begun

theorem reached_of_ended
    (honest : Guarded (step (next host)) (Honest i e c statuses)
      (fun s => s.pc i = .idle ∧ Addressed host s.shared e c) s)
    (ended : (s.pc i).ended = true) :
    s.pc i = .authenticated e c ↔ Reached host s.shared.connections e c statuses := by
  have underway := (underway_throughout honest).2
  cases here : s.pc i with
  | authenticated e' d =>
    rw [here] at underway
    obtain ⟨rfl, rfl, reached⟩ := underway
    exact ⟨fun _ => reached, fun _ => rfl⟩
  | refused =>
    rw [here] at underway
    exact ⟨fun same => absurd same (by simp), fun reached => absurd reached underway⟩
  | verified m =>
    rw [here] at underway
    exact underway.elim
  | _ =>
    rw [here] at ended
    cases ended

end Runs

variable [DecidableEq ι]

/-- Where clean-ups and lookups come at a good time, nothing is accepted twice; and the fresh
request of a peer is accepted exactly where its connection is on a page. -/
theorem accepted_exact (host : Host ρ) :
    (∀ s : World ι ρ, Guarded (step (next host)) (Intact host) init s → AcceptedOnce host s) ∧
    ∀ (i : ι) (e : Envelope) (c : Connection) (statuses : List Status) (s : World ι ρ),
      Guarded (step (next host)) (Honest i e c statuses)
        (fun s => s.pc i = .idle ∧ Addressed host s.shared e c) s →
      ((s.pc i).ended = true →
        (s.pc i = .authenticated e c ↔ Reached host s.shared.connections e c statuses)) ∧
      (s.pc i ≠ .idle → ∃ n t, run (step (next host)) s (List.replicate n (i, .advance)) = some t ∧
        (t.pc i).ended = true) := by
  refine ⟨fun s run => accepted_once run, ?_⟩
  intro i e c statuses s honest
  exact ⟨reached_of_ended honest, fun begun => ends host s begun⟩

section Samples

def sampleHost : Host (List UInt8) where
  hmac key t := (key ++ t).map fun b => Char.ofNat (b.toNat % 128)
  hmac_ascii key t := by
    refine List.all_eq_true.mpr fun c h => ?_
    obtain ⟨b, _, rfl⟩ := List.mem_map.mp h
    have small : b.toNat % 128 < 128 := Nat.mod_lt _ (by decide)
    have valid : (b.toNat % 128).isValidChar := .inl (by omega)
    have same : (Char.ofNat (b.toNat % 128)).toNat = b.toNat % 128 := by
      rw [Char.ofNat, dif_pos valid]
      rfl
    simp [same, small]
  sha256 t := t.map fun b => Char.ofNat b.toNat
  ed25519 _ signature data := signature = data.take 3
  dumps := some
  newestFirst := List.insertionSort fun a b => b.createdAt ≤ a.createdAt
  newestFirst_perm l := List.perm_insertionSort _ l
  newestFirst_sorted l := by
    have total : Std.Total fun a b : Connection => b.createdAt ≤ a.createdAt :=
      ⟨fun a b => Nat.le_total _ _⟩
    have transitive : IsTrans Connection fun a b => b.createdAt ≤ a.createdAt :=
      ⟨fun _ _ _ h k => Nat.le_trans k h⟩
    exact List.pairwise_insertionSort _ l
  served now expiry := now < expiry

def peer (n : Nat) : Connection := ⟨n, .active, some (Text.decimal n), n⟩

def requestOf (c : Connection) (nonce : Char) (seconds : Nat) : Envelope :=
  ⟨[104], sampleHost.hmac (Text.utf8 (c.sharedKey.getD []))
      (104 :: 10 :: (Text.decimal seconds).map (fun d => UInt8.ofNat d.toNat) ++
        [10, UInt8.ofNat nonce.toNat]),
    Text.decimal seconds, [nonce], seconds⟩

def Envelope.headers (e : Envelope) : Request :=
  ⟨e.body, some e.signature, some e.timestamp, some e.nonce⟩

def delivery : Delivery (List UInt8) :=
  ⟨7, [123, 125], some ['d', 'j', 'E', 'u'], some (Text.decimal 1000000)⟩

def peers (ι : Type) (n : Nat) : World ι (List UInt8) :=
  ⟨⟨1000000, (List.range n).map peer, fun _ => some (.raw (List.replicate 32 0)), [],
    fun _ => none⟩, fun _ => .idle⟩

omit [DecidableEq ι] in
theorem distinct_peers (n : Nat) : DistinctKeys (peers ι n).shared := by
  intro a ha b hb k left right
  obtain ⟨i, _, rfl⟩ := List.mem_map.mp ha
  obtain ⟨j, _, rfl⟩ := List.mem_map.mp hb
  rw [Text.decimal_injective (Option.some.inj (left.trans right.symm))]

theorem hmac_decimal (n : Nat) (t : List UInt8) :
    sampleHost.hmac (Text.utf8 (Text.decimal n)) t =
      Text.decimal n ++ t.map fun b => Char.ofNat (b.toNat % 128) := by
  have small : ∀ c ∈ Text.decimal n, c.toNat < 128 := by
    intro c h
    have bounds : 48 ≤ c.toNat ∧ c.toNat ≤ 57 :=
      Char.isDigit_iff_toNat.mp (Text.isDigit_of_mem_decimal h)
    omega
  show (Text.utf8 (Text.decimal n) ++ t).map _ = _
  rw [Text.utf8_ascii small, List.map_append, List.map_map]
  congr 1
  refine (List.map_congr_left ?_).trans (List.map_id _)
  intro c h
  have byte : (UInt8.ofNat c.toNat).toNat % 128 = c.toNat := by
    have bound := small c h
    rw [UInt8.toNat_ofNat_of_lt' (bound.trans (by decide)), Nat.mod_eq_of_lt bound]
  simp only [Function.comp, byte, id]
  exact Char.ofNat_toNat c

omit [DecidableEq ι] in
theorem unforgeable_peers (n : Nat) (e : Envelope) :
    Unforgeable sampleHost (peers ι n).shared e := by
  intro t _ a ha b hb k l left right same
  obtain ⟨i, _, rfl⟩ := List.mem_map.mp ha
  obtain ⟨j, _, rfl⟩ := List.mem_map.mp hb
  cases left
  cases right
  rw [hmac_decimal, hmac_decimal] at same
  exact List.append_cancel_right same

theorem addressed_peers {n : Nat} (some_peer : 0 < n) {e : Envelope}
    (signed : SignedBy sampleHost (peer 0) e) :
    Addressed sampleHost (peers (Fin 3) n).shared e (peer 0) :=
  ⟨List.mem_map.mpr ⟨0, List.mem_range.mpr some_peer, rfl⟩, signed, distinct_peers n,
    unforgeable_peers n e⟩

abbrev Sample := World (Fin 3) (List UInt8)

local instance threePeers : NeZero 3 := ⟨by decide⟩

instance (s : Sample) (a : Fin 3 × Action (List UInt8)) : Decidable (Intact sampleHost s a) := by
  unfold Intact
  split
  · exact inferInstanceAs (Decidable (∀ i, ∀ x ∈ (s.pc i).claim, _ ∨ (_ < _ ∧ _)))
  · exact inferInstanceAs (Decidable (∀ data ∈ signedData sampleHost _ _, _ → _ ∧
      ∀ expiry ∈ s.shared.cache _, _))
  · exact inferInstanceAs (Decidable True)

instance (e : Envelope) (c : Connection) (statuses : List Status) (s : Sample)
    (a : Fin 3 × Action (List UInt8)) : Decidable (Honest 0 e c statuses s a) := by
  unfold Honest
  split <;> infer_instance

def call (i : Fin 3) (begin : Action (List UInt8)) (steps : Nat) :
    List (Fin 3 × Action (List UInt8)) := (i, begin) :: List.replicate steps (i, .advance)

def authenticating (i : Fin 3) (e : Envelope) (steps : Nat) :
    List (Fin 3 × Action (List UInt8)) := call i (.authenticate e.headers [.active]) steps

def sampleRequest : Envelope := requestOf (peer 0) 'n' 1000

theorem signed_sample : SignedBy sampleHost (peer 0) sampleRequest := by
  show verifyPayloadSignature sampleHost (peer 0).sharedKey sampleRequest = some true
  decide +kernel

def samplePayload : Signed :=
  ⟨7, Text.utf8 "v1.1000000.".toList ++ [123, 125], [118, 49, 46]⟩

def inTurns : List (Fin 3 × Action (List UInt8)) :=
  authenticating 0 sampleRequest 4 ++ call 1 (.verifyPayload delivery) 3 ++
    authenticating 2 sampleRequest 5

/-- A request and a payload are accepted and a replay is refused; and the last of fifty peers is
found. -/
theorem accepted_exact_in_turns : ∃ s t : Sample,
    (s.pc 0, s.pc 1, s.pc 2) =
      (.authenticated sampleRequest (peer 0), .verified samplePayload, .refused) ∧
    AcceptedOnce sampleHost s ∧ t.shared.connections.length = 50 ∧
    (t.pc 0 = .authenticated sampleRequest (peer 0) ↔
      Reached sampleHost t.shared.connections sampleRequest (peer 0) [.active]) ∧
    t.pc 0 = .authenticated sampleRequest (peer 0) := by
  have turns : (runGuarded (step (next sampleHost)) (Intact sampleHost) (peers (Fin 3) 1)
      inTurns).map (fun s => (s.pc 0, s.pc 1, s.pc 2)) =
      some (.authenticated sampleRequest (peer 0), .verified samplePayload, .refused) := by
    decide +kernel
  have fifty : (runGuarded (step (next sampleHost)) (Honest 0 sampleRequest (peer 0) [.active])
      (peers (Fin 3) 50) (authenticating 0 sampleRequest 53)).map
        (fun t => (t.pc 0, t.shared.connections.length)) =
      some (.authenticated sampleRequest (peer 0), 50) := by decide +kernel
  obtain ⟨s, ran, phases⟩ := Option.map_eq_some_iff.mp turns
  obtain ⟨t, tried, last⟩ := Option.map_eq_some_iff.mp fifty
  obtain ⟨accepted, many⟩ := Prod.mk.inj last
  have exact := accepted_exact (ι := Fin 3) sampleHost
  have start : (peers (Fin 3) 50).pc 0 = .idle ∧
      Addressed sampleHost (peers (Fin 3) 50).shared sampleRequest (peer 0) :=
    ⟨rfl, addressed_peers (by decide) signed_sample⟩
  refine ⟨s, t, phases, exact.1 s (guarded_of_run inTurns (fun _ => rfl) ran), many, ?_, accepted⟩
  exact (exact.2 0 _ _ _ t (guarded_of_run _ start tried)).1 (by rw [accepted]; rfl)

def futureSkew : List (Fin 3 × Action (List UInt8)) :=
  authenticating 0 (requestOf (peer 0) 'n' 1300) 4 ++ [(1, .tick 301000)] ++
    authenticating 1 (requestOf (peer 0) 'm' 1301) 4 ++
    authenticating 2 (requestOf (peer 0) 'n' 1300) 4

def racingCalls : List (Fin 3 × Action (List UInt8)) :=
  call 0 (.verifyPayload delivery) 2 ++ call 1 (.verifyPayload delivery) 3 ++ [(0, .advance)]

/-- A request is accepted twice, a payload is accepted twice, and the request of the eldest of 51
active connections is refused. -/
theorem accepted_inexact :
    (∃ s : Sample, Reachable (step (next sampleHost)) init s ∧ ¬ AcceptedOnce sampleHost s ∧
      ∃ e c, s.pc 0 = .authenticated e c ∧ s.pc 2 = .authenticated e c) ∧
    (∃ s : Sample, Reachable (step (next sampleHost)) init s ∧ ¬ AcceptedOnce sampleHost s ∧
      ∃ m, s.pc 0 = .verified m ∧ s.pc 1 = .verified m) ∧
    (peer 0).status = .active ∧
    ∃ s : Sample, Guarded (step (next sampleHost)) (Honest 0 sampleRequest (peer 0) [.active])
      (fun s => s.pc 0 = .idle ∧ Addressed sampleHost s.shared sampleRequest (peer 0)) s ∧
      s.pc 0 = .refused := by
  refine ⟨?_, ?_, rfl, ?_⟩
  · have seen : (run (step (next sampleHost)) (peers (Fin 3) 1) futureSkew).map
        (fun s => (s.pc 0, s.pc 2, s.shared.connections)) =
        some (.authenticated (requestOf (peer 0) 'n' 1300) (peer 0),
          .authenticated (requestOf (peer 0) 'n' 1300) (peer 0), [peer 0]) := by decide +kernel
    obtain ⟨s, ran, phases⟩ := Option.map_eq_some_iff.mp seen
    obtain ⟨first, rest⟩ := Prod.mk.inj phases
    obtain ⟨second, connections⟩ := Prod.mk.inj rest
    refine ⟨s, reachable_of_run futureSkew (fun _ => rfl) ran, ?_, _, _, first, second⟩
    intro once
    have distinct : DistinctKeys s.shared := by
      rw [DistinctKeys, connections]
      exact distinct_peers (ι := Fin 3) 1
    have unforgeable : Unforgeable sampleHost s.shared (requestOf (peer 0) 'n' 1300) := by
      rw [Unforgeable, connections]
      exact unforgeable_peers (ι := Fin 3) 1 _
    exact absurd (once.request distinct _ unforgeable 0 2 _ _ first second) (by decide)
  · have seen : (run (step (next sampleHost)) (peers (Fin 3) 1) racingCalls).map
        (fun s => (s.pc 0, s.pc 1)) = some (.verified samplePayload, .verified samplePayload) := by
      decide +kernel
    obtain ⟨s, ran, phases⟩ := Option.map_eq_some_iff.mp seen
    obtain ⟨first, second⟩ := Prod.mk.inj phases
    refine ⟨s, reachable_of_run racingCalls (fun _ => rfl) ran, ?_, _, first, second⟩
    intro once
    exact absurd (once.payload 0 1 _ first second) (by decide)
  · have crowd : (runGuarded (step (next sampleHost))
        (Honest 0 sampleRequest (peer 0) [.active]) (peers (Fin 3) 51)
        (authenticating 0 sampleRequest 53)).map (fun s => s.pc 0) = some .refused := by
      decide +kernel
    obtain ⟨s, ran, refused⟩ := Option.map_eq_some_iff.mp crowd
    exact ⟨s, guarded_of_run _ ⟨rfl, addressed_peers (by decide) signed_sample⟩ ran, refused⟩

end Samples

end Plexichat.Signatures
