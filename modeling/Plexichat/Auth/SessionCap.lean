import Plexichat.Library.Interleaving
import Plexichat.Library.Layers
import Plexichat.Library.Table

/-! `_create_session` side by side with itself: the sessions of one user are listed, the
oldest are revoked one by one, and the new one is inserted, each a statement of its own. -/
namespace Plexichat.Auth.SessionCap
open Interleaving Transition Layers

/-- The columns of auth_sessions that the cap reads. -/
structure SessionRow where
  id : Nat
  expiresAt : Int
  lastActivity : Int
  revoked : Bool

structure Store where
  sessions : Table SessionRow SessionRow.id
  now : Int
  nextId : Nat

/-- `get_sessions`. -/
def Store.live (c : Store) : List SessionRow := c.sessions.rows.filter fun r => !r.revoked

def Store.active (c : Store) : List SessionRow := c.live.filter fun r => c.now ≤ r.expiresAt

def Store.revoke (c : Store) (id : Nat) : Store :=
  let revoked (r : SessionRow) : SessionRow := { r with revoked := true }
  { c with sessions := c.sessions.update (fun r => r.id = id) revoked fun _ => rfl }

inductive Pc where
  | idle
  | listing (new : SessionRow)
  /-- The ids that are still to be revoked, and whether the list of sessions ends too soon. -/
  | evicting (new : SessionRow) (rest : List Nat) (short : Bool)
  | inserting (new : SessionRow)
  | finished
  | raised

inductive Action where
  | start (expireHours : Int)
  | proceed
  | tick (milliseconds : Nat)

/-- The loop of the eviction goes on; past the last session it raises an IndexError. -/
def evict (new : SessionRow) (short : Bool) : List Nat → Pc
  | [] => if short then .raised else .inserting new
  | ids => .evicting new ids short

def proceed (maxSessions : Nat) (c : Store) : Pc → Option (Store × Pc)
  | .listing new =>
    let sessions := byRank SessionRow.lastActivity c.live
    if maxSessions ≤ sessions.length then
      let toRevoke := sessions.length - maxSessions + 1
      some (c, evict new (sessions.length < toRevoke) ((sessions.take toRevoke).map SessionRow.id))
    else some (c, .inserting new)
  | .evicting new (id :: rest) short => some (c.revoke id, evict new short rest)
  | .inserting new =>
    match c.sessions.insert new with
    | some sessions => some ({ c with sessions }, .finished)
    | none => some (c, .raised)
  | _ => none

def next (maxSessions : Nat) (c : Store) (p : Pc) : Action → Option (Store × Pc)
  | .start expireHours =>
    match p with
    | .idle => some ({ c with nextId := c.nextId + 1 },
        .listing ⟨c.nextId, c.now + expireHours * 3600 * 1000, c.now, false⟩)
    | _ => none
  | .proceed => proceed maxSessions c p
  | .tick milliseconds => some ({ c with now := c.now + milliseconds }, p)

def Pc.critical : Pc → Bool
  | evicting _ _ _ => true
  | inserting _ => true
  | _ => false

def Pc.ended : Pc → Bool
  | idle => true
  | finished => true
  | raised => true
  | _ => false

section Cap

variable {ι : Type} [DecidableEq ι] {maxSessions : Nat} {c c' : Store} {p p' : Pc} {a : Action}

/-- The sessions are listed while no other creation is between its listing and its
insertion, and an eviction of an unexpired session meets no expired one that still counts. -/
def Guard (s : State ι Store Pc) (a : ι × Action) : Prop :=
  match s.pc a.1, a.2 with
  | .listing _, .proceed => ∀ j, (s.pc j).critical = false
  | .evicting _ (id :: _) _, .proceed =>
    (∃ r ∈ s.shared.active, r.id = id) → ∀ r ∈ s.shared.live, s.shared.now ≤ r.expiresAt
  | _, _ => True

def Needed (maxSessions : Nat) (s : State ι Store Pc) (a : ι × Action) : Prop :=
  match s.pc a.1, a.2 with
  | .evicting _ (id :: _) _, .proceed =>
    (∃ r ∈ s.shared.active, r.id = id) → maxSessions ≤ s.shared.active.length
  | _, _ => True

def Start (s : State ι Store Pc) : Prop := ∀ i, s.pc i = .idle

def Pc.Known (maxSessions : Nat) (c : Store) : Pc → Prop
  | evicting _ rest short => rest.Nodup ∧ (∀ id ∈ rest, id ∈ c.live.map SessionRow.id) ∧
      (short = false → c.live.length + 1 = maxSessions + rest.length) ∧
      (short = true → maxSessions = 0 ∧ c.live.length = rest.length)
  | inserting _ => c.live.length + 1 ≤ maxSessions
  | _ => True

theorem live_revoke (c : Store) (id : Nat) :
    (c.revoke id).live = c.live.filter fun r => !decide (r.id = id) := by
  unfold Store.revoke Store.live Table.update
  rw [List.filter_map, List.filter_filter]
  have same : ∀ r ∈ c.sessions.rows.filter fun r => !decide (r.id = id) && !r.revoked,
      (if decide (r.id = id) = true then { r with revoked := true } else r) = r := by
    intro r member
    have other := (List.mem_filter.mp member).2
    simp only [Bool.and_eq_true, Bool.not_eq_true', decide_eq_false_iff_not] at other
    simp [other.1]
  have kept : c.sessions.rows.filter ((fun r => !r.revoked) ∘
        fun r : SessionRow => if decide (r.id = id) then { r with revoked := true } else r) =
      c.sessions.rows.filter fun r => !decide (r.id = id) && !r.revoked := by
    apply List.filter_congr
    intro r _
    by_cases here : r.id = id
    · simp [here]
    · simp [here]
  rw [kept]
  exact (List.map_congr_left same).trans (List.map_id _)

theorem live_unique (c : Store) : (c.live.map SessionRow.id).Nodup :=
  c.sessions.unique.sublist (List.filter_sublist.map _)

theorem length_revoke {id : Nat} (there : id ∈ c.live.map SessionRow.id) :
    (c.revoke id).live.length + 1 = c.live.length := by
  obtain ⟨r, member, same⟩ := List.mem_map.mp there
  let live : Table SessionRow SessionRow.id := ⟨c.live, live_unique c⟩
  have found : (live.find id).isSome = true := Table.find_isSome.mpr ⟨r, member, same⟩
  have counted := Table.length_delete live id
  rw [found, if_pos rfl] at counted
  rw [live_revoke]
  exact counted

theorem Known.congr (same : c'.live = c.live) (known : p.Known maxSessions c) :
    p.Known maxSessions c' := by
  unfold Pc.Known
  rw [same]
  exact known

structure Moved (maxSessions : Nat) (c : Store) (p : Pc) (a : Action) (c' : Store) (p' : Pc) :
    Prop where
  known : p.Known maxSessions c → p'.Known maxSessions c'
  quiet : p.critical = false → c'.live = c.live ∧ (p' = .finished → p = .finished)
  ends : p.Known maxSessions c → p.critical = true → p'.critical = false →
    c'.live.length ≤ maxSessions
  enters : p'.critical = true → p.critical = true ∨ (∃ new, p = .listing new) ∧ a = .proceed

theorem evict_known {new : SessionRow} {rest : List Nat} {short : Bool}
    (known : (Pc.evicting new rest short).Known maxSessions c) :
    (evict new short rest).Known maxSessions c ∧
      ((evict new short rest).critical = false → c.live.length ≤ maxSessions) := by
  have ⟨_, _, full, cut⟩ := known
  cases rest with
  | cons id rest => exact ⟨known, Bool.noConfusion⟩
  | nil =>
    cases short with
    | true =>
      have empty := (cut rfl).2
      exact ⟨trivial, fun _ => by simp [empty]⟩
    | false =>
      have room : c.live.length + 1 ≤ maxSessions := by simpa using (full rfl).le
      exact ⟨room, Bool.noConfusion⟩

theorem evict_not_finished {new : SessionRow} {rest : List Nat} {short : Bool} :
    evict new short rest ≠ .finished := by
  cases rest with
  | cons id rest => exact Pc.noConfusion
  | nil =>
    cases short with
    | true => exact Pc.noConfusion
    | false => exact Pc.noConfusion

theorem listing_known (new : SessionRow) (over_cap : maxSessions ≤ c.live.length) :
    (Pc.evicting new
      (((byRank SessionRow.lastActivity c.live).take (c.live.length - maxSessions + 1)).map
        SessionRow.id)
      (c.live.length < c.live.length - maxSessions + 1)).Known maxSessions c := by
  have perm : (byRank SessionRow.lastActivity c.live).Perm c.live := List.perm_insertionSort _ _
  have size : (((byRank SessionRow.lastActivity c.live).take
      (c.live.length - maxSessions + 1)).map SessionRow.id).length =
      min (c.live.length - maxSessions + 1) c.live.length := by
    rw [List.length_map, List.length_take, length_byRank]
  refine ⟨?_, ?_, ?_, ?_⟩
  · have unique := (perm.map SessionRow.id).nodup_iff.mpr (live_unique c)
    exact unique.sublist ((List.take_sublist _ _).map _)
  · intro id member
    obtain ⟨r, taken, rfl⟩ := List.mem_map.mp member
    exact List.mem_map_of_mem (perm.mem_iff.mp (List.mem_of_mem_take taken))
  · intro enough
    rw [size]
    have enough := of_decide_eq_false enough
    omega
  · intro short
    rw [size]
    have short := of_decide_eq_true short
    omega

theorem moved_of_next (h : next maxSessions c p a = some (c', p')) :
    Moved maxSessions c p a c' p' := by
  cases a with
  | start expireHours =>
    cases p with
    | idle =>
      cases h
      exact ⟨fun _ => trivial, fun _ => ⟨rfl, Pc.noConfusion⟩, fun _ => Bool.noConfusion,
        Bool.noConfusion⟩
    | _ => cases h
  | tick milliseconds =>
    cases h
    exact ⟨fun known => known, fun _ => ⟨rfl, id⟩,
      fun _ critical idle => absurd (critical.symm.trans idle) Bool.true_eq_false.mp, .inl⟩
  | proceed =>
    cases p with
    | listing new =>
      simp only [next, proceed, length_byRank] at h
      split at h
      · rename_i over_cap
        cases h
        obtain ⟨known, _⟩ := evict_known (listing_known new over_cap)
        refine ⟨fun _ => known, fun _ => ⟨rfl, ?_⟩, fun _ => Bool.noConfusion,
          fun _ => .inr ⟨⟨new, rfl⟩, rfl⟩⟩
        exact fun finished => absurd finished evict_not_finished
      · rename_i room
        cases h
        exact ⟨fun _ => Nat.lt_of_not_le room, fun _ => ⟨rfl, Pc.noConfusion⟩,
          fun _ => Bool.noConfusion, fun _ => .inr ⟨⟨new, rfl⟩, rfl⟩⟩
    | evicting new rest short =>
      cases rest with
      | nil => cases h
      | cons id rest =>
        cases h
        have onward : (Pc.evicting new (id :: rest) short).Known maxSessions c →
            (Pc.evicting new rest short).Known maxSessions (c.revoke id) := by
          intro known
          obtain ⟨unique, live, full, cut⟩ := known
          obtain ⟨absent, unique'⟩ := List.nodup_cons.mp unique
          have one_less := length_revoke (live id List.mem_cons_self)
          rw [List.length_cons] at full cut
          refine ⟨unique', ?_, ?_, ?_⟩
          · intro other member
            obtain ⟨r, there, rfl⟩ := List.mem_map.mp (live other (List.mem_cons_of_mem id member))
            rw [live_revoke]
            refine List.mem_map_of_mem (List.mem_filter.mpr ⟨there, ?_⟩)
            have apart : r.id ≠ id := fun same => absent (same ▸ member)
            simp [apart]
          · intro enough
            have := full enough
            omega
          · intro short
            have := cut short
            omega
        refine ⟨fun known => (evict_known (onward known)).1, Bool.noConfusion, ?_, fun _ => .inl rfl⟩
        exact fun known _ => (evict_known (onward known)).2
    | inserting new =>
      simp only [next, proceed] at h
      split at h
      · rename_i sessions inserted
        cases h
        refine ⟨fun _ => trivial, Bool.noConfusion, ?_, Bool.noConfusion⟩
        intro known _ _
        have rows := (Table.insert_eq_some inserted).2
        have one_more : (sessions.rows.filter fun r => !r.revoked).length ≤ c.live.length + 1 := by
          rw [rows, List.filter_append, List.length_append]
          exact Nat.add_le_add_left (List.length_filter_le _ _) _
        exact Nat.le_trans one_more known
      · cases h
        refine ⟨fun _ => trivial, Bool.noConfusion, ?_, Bool.noConfusion⟩
        intro known _ _
        exact Nat.le_of_succ_le known
    | _ => cases h

structure Invariant (maxSessions : Nat) (s : State ι Store Pc) : Prop where
  single : ∀ i j, (s.pc i).critical = true → (s.pc j).critical = true → i = j
  known : ∀ i, (s.pc i).Known maxSessions s.shared
  capped : (∀ i, (s.pc i).critical = false) → (∃ i, s.pc i = .finished) →
    s.shared.live.length ≤ maxSessions

theorem invariant {s : State ι Store Pc}
    (h : Guarded (step (next maxSessions)) Guard Start s) : Invariant maxSessions s := by
  refine guarded_invariant ?_ ?_ h
  · intro s start
    refine ⟨?_, ?_, ?_⟩
    · intro i j critical
      rw [start i] at critical
      cases critical
    · intro i
      rw [start i]
      trivial
    · intro _ some_finished
      obtain ⟨i, finished⟩ := some_finished
      rw [start i] at finished
      cases finished
  · intro s b t inv guard moved
    obtain ⟨r, local_step, rfl⟩ := step_eq_some.mp moved
    have effect : Moved maxSessions s.shared (s.pc b.1) b.2 r.1 r.2 := moved_of_next local_step
    -- the statement of a creation in its critical part meets no other one there
    have alone : r.2.critical = true ∨ (s.pc b.1).critical = true →
        ∀ j, j ≠ b.1 → (s.pc j).critical = false := by
      intro inside j other
      apply Bool.eq_false_iff.mpr
      intro critical
      have held : (s.pc b.1).critical = true ∨ (∃ new, s.pc b.1 = .listing new) ∧ b.2 = .proceed := by
        rcases inside with after | before
        · exact effect.enters after
        · exact .inl before
      rcases held with before | ⟨⟨new, listing⟩, proceeds⟩
      · exact other (inv.single j b.1 critical before)
      · unfold Guard at guard
        rw [listing, proceeds] at guard
        exact Bool.eq_false_iff.mp (guard j) critical
    refine ⟨?_, ?_, ?_⟩
    · intro i j left right
      by_cases own : i = b.1
      · subst own
        rw [after_self] at left
        by_contra apart
        rw [after_other s (Ne.symm apart)] at right
        exact Bool.eq_false_iff.mp (alone (.inl left) j (Ne.symm apart)) right
      · rw [after_other s own] at left
        by_cases same : j = b.1
        · subst same
          rw [after_self] at right
          exact absurd left (Bool.eq_false_iff.mp (alone (.inl right) i own))
        · rw [after_other s same] at right
          exact inv.single i j left right
    · intro i
      show (_ : Pc).Known maxSessions r.1
      by_cases own : i = b.1
      · subst own
        rw [after_self]
        exact effect.known (inv.known b.1)
      · rw [after_other s own]
        cases before : (s.pc b.1).critical with
        | false => exact Known.congr (effect.quiet before).1 (inv.known i)
        | true =>
          have outside := alone (.inr before) i own
          revert outside
          cases s.pc i with
          | evicting _ _ _ | inserting _ => exact Bool.noConfusion
          | _ => exact fun _ => trivial
    · intro none_critical some_finished
      show r.1.live.length ≤ maxSessions
      have ended : r.2.critical = false := after_self s b.1 r ▸ none_critical b.1
      cases before : (s.pc b.1).critical with
      | true => exact effect.ends (inv.known b.1) before ended
      | false =>
        obtain ⟨same, not_now⟩ := effect.quiet before
        rw [same]
        apply inv.capped
        · intro j
          by_cases own : j = b.1
          · exact own ▸ before
          · exact after_other s own r ▸ none_critical j
        · obtain ⟨j, finished⟩ := some_finished
          by_cases own : j = b.1
          · subst own
            rw [after_self] at finished
            exact ⟨b.1, not_now finished⟩
          · exact ⟨j, after_other s own r ▸ finished⟩

end Cap

end Plexichat.Auth.SessionCap
