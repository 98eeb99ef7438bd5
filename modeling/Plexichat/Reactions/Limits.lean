import Plexichat.Reactions.Operations

/-! The limits on the reactions of a message, and what a call that fails leaves. The counts and the
insert are separate statements, and a rejection rolls back twice: the second time it is the caller's
transaction. -/
namespace Plexichat.Reactions
open Transition

variable {ι υ ε : Type} [DecidableEq ι]

abbrev System (ι υ ε : Type) := Interleaving.State ι (List (υ × ε)) (Caller υ ε)

def Held (s : System ι υ ε) (r : υ × ε) : Prop :=
  r ∈ s.shared ∨ ∃ i, r ∈ (s.pc i).levels.flatten

/-- At most `n` distinct emoji are held. -/
def Bounded (held : υ × ε → Prop) (n : Nat) : Prop :=
  ∃ emoji : List ε, emoji.length ≤ n ∧ ∀ r, held r → r.2 ∈ emoji

def BoundedOf (u : υ) (held : υ × ε → Prop) (n : Nat) : Prop :=
  Bounded (fun r => r.1 = u ∧ held r) n

structure Initial (limits : Limits) (s : System ι υ ε) : Prop where
  message : Bounded (Held s) limits.maxReactions
  user : ∀ u, BoundedOf u (Held s) limits.maxUserReactions
  idle : ∀ i, (s.pc i).phase = .idle

/-- The unique constraint: an insert waits while another transaction has the row. -/
def Waits (s : System ι υ ε) (a : ι × Action υ ε) : Prop :=
  match (s.pc a.1).phase, a.2 with
  | .ready u e _ _ _, .insert => ∀ j, j ≠ a.1 → (u, e) ∉ (s.pc j).levels.flatten
  | _, _ => True

/-- Where a row is inserted, no more distinct emoji are held than were counted, unless its own is
among them. -/
def Fits (s : System ι υ ε) (a : ι × Action υ ε) : Prop :=
  match (s.pc a.1).phase, a.2 with
  | .ready u e n _ k, .insert =>
    ((∃ v, Held s (v, e)) ∨ Bounded (Held s) n) ∧ BoundedOf u (Held s) k
  | _, _ => True

/-- A call is rejected, or cannot begin or commit, only where its caller has no transaction open.
Its reaction can be read back. -/
def Unwinds (p : Caller υ ε) (a : Action υ ε) : Prop :=
  match p.phase, a with
  | .checked _ _, .begin works => works = false → p.levels = []
  | .inserted, .commit works => works = false → p.levels.length ≤ 1
  | .rejecting, .rollback => p.levels = []
  | .landed, .readBack works => works
  | _, _ => True

def Guard (s : System ι υ ε) (a : ι × Action υ ε) : Prop :=
  Waits s a ∧ Fits s a ∧ Unwinds (s.pc a.1) a.2

/-- A call that has failed has committed nothing, and its caller's transaction is as it was. -/
def Untouched (p : Caller υ ε) : Prop := p.phase = .failed → p.levels = p.entry ∧ p.done = false

section Counts

variable {held : υ × ε → Prop} {rows : List (υ × ε)} {n m : Nat}

theorem Bounded.weaken {fewer : υ × ε → Prop} (bounded : Bounded held n)
    (imp : ∀ r, fewer r → held r) : Bounded fewer n := by
  obtain ⟨emoji, few, all⟩ := bounded
  exact ⟨emoji, few, fun r here => all r (imp r here)⟩

theorem unique_le [DecidableEq ε] (bounded : Bounded (· ∈ rows) n) : unique rows ≤ n := by
  obtain ⟨emoji, few, all⟩ := bounded
  have inside : (rows.map Prod.snd).dedup ⊆ emoji := by
    intro e member
    obtain ⟨r, here, rfl⟩ := List.mem_map.mp (List.mem_dedup.mp member)
    exact all r here
  exact Nat.le_trans (List.subperm_of_subset (List.nodup_dedup _) inside).length_le few

theorem Bounded.insert {e : ε} {max : Nat} {after : υ × ε → Prop} (bounded : Bounded held max)
    (added : ∀ r, after r → held r ∨ r.2 = e)
    (fits : (∃ r, held r ∧ r.2 = e) ∨ (Bounded held n ∧ n < max)) : Bounded after max := by
  rcases fits with ⟨r, here, same⟩ | ⟨⟨emoji, few, all⟩, room⟩
  · obtain ⟨emoji, few, all⟩ := bounded
    refine ⟨emoji, few, fun q later => ?_⟩
    rcases added q later with before | own
    · exact all q before
    · rw [own, ← same]
      exact all r here
  · refine ⟨e :: emoji, Nat.lt_of_le_of_lt few room, fun q later => ?_⟩
    rcases added q later with before | own
    · exact List.mem_cons_of_mem e (all q before)
    · exact own ▸ List.mem_cons_self

end Counts

section Calls

variable {limits : Limits} {c : List (υ × ε)} {p : Caller υ ε} {a : Action υ ε}
  {r : List (υ × ε) × Caller υ ε}

def Room (limits : Limits) (c : List (υ × ε)) (p : Caller υ ε) (e : ε) (n : Nat) : Prop :=
  (∃ v, (v, e) ∈ c ++ p.levels.flatten) ∨ n < limits.maxReactions

def Own (limits : Limits) (c : List (υ × ε)) (p : Caller υ ε) : Prop :=
  match p.phase with
  | .idle | .landed => True
  | .checked _ _ | .rejecting | .failed => p.levels = p.entry ∧ p.done = false
  | .begun _ _ | .looked _ _ | .counted _ _ _ | .refused =>
    p.levels = [] :: p.entry ∧ p.done = false
  | .sought _ e n _ => p.levels = [] :: p.entry ∧ p.done = false ∧ Room limits c p e n
  | .ready _ e n _ k => p.levels = [] :: p.entry ∧ p.done = false ∧ Room limits c p e n ∧
      k < limits.maxUserReactions
  | .inserted | .raising => p.levels.tail = p.entry ∧ p.done = false

theorem Room.grow {d : List (υ × ε)} {e : ε} {n : Nat} (room : Room limits c p e n)
    (sub : c ⊆ d) : Room limits d p e n := by
  rcases room with ⟨v, there⟩ | free
  · left
    refine ⟨v, ?_⟩
    rcases List.mem_append.mp there with committed | inserted
    · exact List.mem_append_left _ (sub committed)
    · exact List.mem_append_right _ inserted
  · exact .inr free

theorem Own.grow {d : List (υ × ε)} (own : Own limits c p) (sub : c ⊆ d) : Own limits d p := by
  unfold Own at own ⊢
  split <;> simp_all only [true_and, and_true]
  · exact own.2.2.grow sub
  · exact own.2.2.1.grow sub

variable [DecidableEq υ] [DecidableEq ε]

theorem Own.step (own : Own limits c p) (unwinds : Unwinds p a)
    (moved : next limits c p a = some r) : Own limits r.1 r.2 := by
  obtain ⟨levels, phase, entry, done⟩ := p
  cases phase with
  | idle =>
    cases a with
    | begin works =>
      cases works with
      | true =>
        cases moved
        trivial
      | false => cases moved
    | commit works =>
      cases works with
      | true =>
        cases moved
        trivial
      | false => cases moved
    | rollback =>
      cases moved
      trivial
    | addReaction u e permitted =>
      simp only [next] at moved
      split at moved <;> cases moved <;> exact ⟨rfl, rfl⟩
    | _ => cases moved
  | checked u e =>
    cases a with
    | begin works =>
      obtain ⟨same, undone⟩ : levels = entry ∧ done = false := own
      cases works with
      | true =>
        cases moved
        exact ⟨congrArg _ same, undone⟩
      | false =>
        cases moved
        have none : levels = [] := unwinds rfl
        subst none
        exact ⟨same, undone⟩
    | _ => cases moved
  | begun u e =>
    cases a with
    | lookUp =>
      simp only [next] at moved
      split at moved <;> cases moved <;> exact own
    | raise =>
      cases moved
      exact ⟨congrArg List.tail own.1, own.2⟩
    | _ => cases moved
  | looked u e =>
    cases a with
    | count =>
      cases moved
      exact own
    | raise =>
      cases moved
      exact ⟨congrArg List.tail own.1, own.2⟩
    | _ => cases moved
  | counted u e n =>
    cases a with
    | seek =>
      simp only [next] at moved
      split at moved
      · cases moved
        exact own
      · rename_i free
        cases moved
        refine ⟨own.1, own.2, ?_⟩
        by_cases few : n < limits.maxReactions
        · exact .inr few
        · left
          simp only [Nat.not_lt.mp few, decide_true, Bool.and_true, Bool.not_eq_true',
            Bool.not_eq_false, List.any_eq_true, decide_eq_true_eq] at free
          obtain ⟨⟨v, e'⟩, there, rfl⟩ := free
          exact ⟨v, there⟩
    | raise =>
      cases moved
      exact ⟨congrArg List.tail own.1, own.2⟩
    | _ => cases moved
  | sought u e n on =>
    cases a with
    | countUser =>
      simp only [next] at moved
      split at moved
      · cases moved
        exact ⟨own.1, own.2.1⟩
      · rename_i few
        cases moved
        exact ⟨own.1, own.2.1, own.2.2, Nat.lt_of_not_le few⟩
    | raise =>
      cases moved
      exact ⟨congrArg List.tail own.1, own.2.1⟩
    | _ => cases moved
  | ready u e n on k =>
    have tail : levels.tail = entry := congrArg List.tail own.1
    cases a with
    | insert =>
      simp only [next] at moved
      split at moved
      · cases moved
        exact ⟨tail, own.2.1⟩
      · split at moved <;> cases moved <;> exact ⟨tail, own.2.1⟩
    | raise =>
      cases moved
      exact ⟨tail, own.2.1⟩
    | _ => cases moved
  | inserted =>
    cases a with
    | commit works =>
      cases works with
      | true =>
        cases moved
        trivial
      | false =>
        cases moved
        have shallow : levels.length ≤ 1 := unwinds rfl
        refine ⟨?_, own.2⟩
        rw [if_neg (Nat.not_lt.mpr shallow)]
        exact own.1
    | _ => cases moved
  | landed =>
    cases a with
    | readBack works =>
      cases works with
      | true =>
        cases moved
        trivial
      | false => cases unwinds
    | _ => cases moved
  | refused =>
    cases a with
    | rollback =>
      cases moved
      exact ⟨congrArg List.tail own.1, own.2⟩
    | _ => cases moved
  | rejecting =>
    cases a with
    | rollback =>
      cases moved
      have none : levels = [] := unwinds
      subst none
      exact own
    | _ => cases moved
  | raising =>
    cases a with
    | rollback =>
      cases moved
      exact own
    | _ => cases moved
  | failed =>
    cases a with
    | «return» =>
      cases moved
      trivial
    | _ => cases moved

end Calls

section Rows

structure Keeps {ρ : Type} (c : List ρ) (levels : List (List ρ)) (d : List ρ)
    (after : List (List ρ)) : Prop where
  committed : c ⊆ d
  held : ∀ x, x ∈ d ∨ x ∈ after.flatten → x ∈ c ∨ x ∈ levels.flatten

variable {c : List (υ × ε)} {levels : List (List (υ × ε))}

theorem Keeps.same : Keeps c levels c levels := ⟨fun _ => id, fun _ => id⟩

theorem Keeps.push : Keeps c levels c ([] :: levels) := ⟨fun _ => id, fun _ => id⟩

theorem Keeps.tail : Keeps c levels c levels.tail := by
  refine ⟨fun _ => id, fun x held => held.imp id fun inside => ?_⟩
  obtain ⟨rows, level, there⟩ := List.mem_flatten.mp inside
  exact List.mem_flatten.mpr ⟨rows, List.mem_of_mem_tail level, there⟩

theorem Keeps.drop : Keeps c levels c (if 1 < levels.length then [] else levels) := by
  split
  · exact ⟨fun _ => id, fun x held => held.imp id fun inside => by cases inside⟩
  · exact .same

theorem Keeps.release : Keeps c levels (release c levels).1 (release c levels).2 := by
  match levels with
  | [] => exact .same
  | [rows] => exact ⟨by simp [Reactions.release], by simp [Reactions.release]⟩
  | rows :: outer :: levels =>
    refine ⟨fun _ => id, fun x => ?_⟩
    simp [Reactions.release]
    tauto

variable [DecidableEq υ] [DecidableEq ε] {limits : Limits} {p : Caller υ ε} {a : Action υ ε}
  {r : List (υ × ε) × Caller υ ε}

theorem held_step (moved : next limits c p a = some r) : Keeps c p.levels r.1 r.2.levels ∨
    ∃ u e n on k, p.phase = .ready u e n on k ∧ a = .insert ∧ c ⊆ r.1 ∧
      ∀ x, x ∈ r.1 ∨ x ∈ r.2.levels.flatten → (x ∈ c ∨ x ∈ p.levels.flatten) ∨ x = (u, e) := by
  obtain ⟨levels, phase, entry, done⟩ := p
  cases phase with
  | idle =>
    cases a with
    | begin works =>
      cases works with
      | true =>
        cases moved
        exact .inl .push
      | false => cases moved
    | commit works =>
      cases works with
      | true =>
        cases moved
        exact .inl .release
      | false => cases moved
    | rollback =>
      cases moved
      exact .inl .tail
    | addReaction u e permitted =>
      simp only [next] at moved
      split at moved <;> cases moved <;> exact .inl .same
    | _ => cases moved
  | checked u e =>
    cases a with
    | begin works =>
      cases works with
      | true =>
        cases moved
        exact .inl .push
      | false =>
        cases moved
        exact .inl .same
    | _ => cases moved
  | begun u e =>
    cases a with
    | lookUp =>
      simp only [next] at moved
      split at moved <;> cases moved <;> exact .inl .same
    | raise =>
      cases moved
      exact .inl .same
    | _ => cases moved
  | looked u e =>
    cases a with
    | count =>
      cases moved
      exact .inl .same
    | raise =>
      cases moved
      exact .inl .same
    | _ => cases moved
  | counted u e n =>
    cases a with
    | seek =>
      simp only [next] at moved
      split at moved <;> cases moved <;> exact .inl .same
    | raise =>
      cases moved
      exact .inl .same
    | _ => cases moved
  | sought u e n on =>
    cases a with
    | countUser =>
      simp only [next] at moved
      split at moved <;> cases moved <;> exact .inl .same
    | raise =>
      cases moved
      exact .inl .same
    | _ => cases moved
  | ready u e n on k =>
    cases a with
    | insert =>
      simp only [next] at moved
      split at moved
      · cases moved
        exact .inl .same
      · right
        split at moved
        · cases moved
          refine ⟨u, e, n, on, k, rfl, rfl, List.subset_append_left _ _, ?_⟩
          intro x
          simp [Caller.goes]
        · cases moved
          refine ⟨u, e, n, on, k, rfl, rfl, fun _ => id, ?_⟩
          intro x
          simp only [List.flatten_cons, List.mem_append, List.mem_singleton]
          tauto
    | raise =>
      cases moved
      exact .inl .same
    | _ => cases moved
  | inserted =>
    cases a with
    | commit works =>
      cases works with
      | true =>
        cases moved
        exact .inl .release
      | false =>
        cases moved
        exact .inl .drop
    | _ => cases moved
  | landed =>
    cases a with
    | readBack works =>
      cases works with
      | true =>
        cases moved
        exact .inl .same
      | false =>
        cases moved
        exact .inl .same
    | _ => cases moved
  | refused =>
    cases a with
    | rollback =>
      cases moved
      exact .inl .tail
    | _ => cases moved
  | rejecting =>
    cases a with
    | rollback =>
      cases moved
      exact .inl .tail
    | _ => cases moved
  | raising =>
    cases a with
    | rollback =>
      cases moved
      exact .inl .tail
    | _ => cases moved
  | failed =>
    cases a with
    | «return» =>
      cases moved
      exact .inl .same
    | _ => cases moved

theorem committed_step (own : Own limits c p) (busy : p.phase ≠ .idle)
    (moved : next limits c p a = some r) : r.1 = c ∨ r.2.done = true := by
  obtain ⟨levels, phase, entry, done⟩ := p
  cases phase with
  | idle => exact absurd rfl busy
  | ready u e n on k =>
    cases a with
    | insert =>
      have shape : levels = [] :: entry := own.1
      subst shape
      simp only [next] at moved
      split at moved <;> cases moved <;> exact .inl rfl
    | raise =>
      cases moved
      exact .inl rfl
    | _ => cases moved
  | inserted =>
    cases a with
    | commit works =>
      cases works with
      | true =>
        cases moved
        exact .inr rfl
      | false =>
        cases moved
        exact .inl rfl
    | _ => cases moved
  | _ =>
    left
    cases a <;> first
      | (cases moved; rfl)
      | cases moved
      | (rename_i works; cases works <;> cases moved <;> rfl)
      | (simp only [next] at moved; split at moved <;> cases moved <;> rfl)

end Rows

section Runs

variable {limits : Limits} {s t : System ι υ ε} {act : ι × Action υ ε}

theorem Held.after {i : ι} {r : List (υ × ε) × Caller υ ε} {x : υ × ε}
    (held : Held (s.after i r) x) : (x ∈ r.1 ∨ x ∈ r.2.levels.flatten) ∨ Held s x := by
  rcases held with committed | ⟨j, inside⟩
  · exact .inl (.inl committed)
  · by_cases here : j = i
    · rw [here, Interleaving.after_self] at inside
      exact .inl (.inr inside)
    · rw [Interleaving.after_other s here] at inside
      exact .inr (.inr ⟨j, inside⟩)

omit [DecidableEq ι] in
theorem Held.own {i : ι} {x : υ × ε}
    (held : x ∈ s.shared ∨ x ∈ (s.pc i).levels.flatten) : Held s x :=
  held.imp id fun inside => ⟨i, inside⟩

structure Kept (limits : Limits) (s : System ι υ ε) : Prop where
  message : Bounded (Held s) limits.maxReactions
  user : ∀ u, BoundedOf u (Held s) limits.maxUserReactions
  own : ∀ i, Own limits s.shared (s.pc i)

omit [DecidableEq ι] in
theorem Initial.kept (initial : Initial limits s) : Kept limits s := by
  refine ⟨initial.message, initial.user, fun i => ?_⟩
  unfold Own
  rw [initial.idle i]
  trivial

variable [DecidableEq υ] [DecidableEq ε]

theorem Kept.step (kept : Kept limits s) (guard : Guard s act)
    (moved : Interleaving.step (next limits) s act = some t) : Kept limits t := by
  obtain ⟨i, a⟩ := act
  obtain ⟨waits, fits, unwinds⟩ := guard
  obtain ⟨r, here, rfl⟩ := Interleaving.step_eq_some.mp moved
  have each (sub : s.shared ⊆ r.1) (j : ι) : Own limits r.1 ((s.after i r).pc j) := by
    by_cases same : j = i
    · rw [same, Interleaving.after_self]
      exact (kept.own i).step unwinds here
    · rw [Interleaving.after_other s same]
      exact (kept.own j).grow sub
  rcases held_step here with keeps | ⟨u, e, n, on, k, phase, rfl, sub, added⟩
  · have fewer (x : υ × ε) (held : Held (s.after i r) x) : Held s x := by
      rcases held.after with mine | before
      · exact Held.own (keeps.held x mine)
      · exact before
    exact ⟨kept.message.weaken fewer, fun v => (kept.user v).weaken fun x held =>
      ⟨held.1, fewer x held.2⟩, each keeps.committed⟩
  · have grown (x : υ × ε) (held : Held (s.after i r) x) : Held s x ∨ x = (u, e) := by
      rcases held.after with mine | before
      · exact (added x mine).imp Held.own id
      · exact .inl before
    have ready := kept.own i
    unfold Own at ready
    unfold Fits at fits
    simp only [phase] at ready fits
    obtain ⟨-, -, room, few⟩ := ready
    refine ⟨?_, fun v => ?_, each sub⟩
    · refine kept.message.insert (n := n) (fun x held => (grown x held).imp id (congrArg Prod.snd)) ?_
      rcases fits.1 with ⟨v, there⟩ | counted
      · exact .inl ⟨(v, e), there, rfl⟩
      · rcases room with ⟨v, there⟩ | free
        · exact .inl ⟨(v, e), Held.own (List.mem_append.mp there), rfl⟩
        · exact .inr ⟨counted, free⟩
    · by_cases same : v = u
      · subst same
        refine (kept.user v).insert (e := e) (fun x held => ?_) (.inr ⟨fits.2, few⟩)
        exact (grown x held.2).imp (fun before => ⟨held.1, before⟩) (congrArg Prod.snd)
      · refine (kept.user v).weaken fun x held => ⟨held.1, ?_⟩
        rcases grown x held.2 with before | own
        · exact before
        · exact absurd (held.1.symm.trans (congrArg Prod.fst own)) same

theorem kept_throughout
    (run : Guarded (Interleaving.step (next limits)) Guard (Initial limits) s) : Kept limits s :=
  guarded_invariant (fun _ => Initial.kept) (fun _ _ _ kept guard moved => kept.step guard moved) run

/-- The limits hold, and a call commits all or nothing and never with its failure. -/
theorem reaction_limits
    (run : Guarded (Interleaving.step (next limits)) Guard (Initial limits) s) :
    unique s.shared ≤ limits.maxReactions ∧
      (∀ u, unique (s.shared.filter fun r => r.1 = u) ≤ limits.maxUserReactions) ∧
      (∀ i, Untouched (s.pc i)) ∧
      ∀ i a t, (s.pc i).phase ≠ .idle → Interleaving.step (next limits) s (i, a) = some t →
        t.shared = s.shared ∨ (t.pc i).done = true := by
  have kept := kept_throughout run
  refine ⟨?_, fun u => ?_, fun i failed => ?_, fun i a t busy moved => ?_⟩
  · exact unique_le (kept.message.weaken fun _ => .inl)
  · refine unique_le ((kept.user u).weaken fun x here => ?_)
    obtain ⟨there, own⟩ := List.mem_filter.mp here
    exact ⟨of_decide_eq_true own, .inl there⟩
  · have own := kept.own i
    unfold Own at own
    rw [failed] at own
    exact own
  · obtain ⟨r, here, rfl⟩ := Interleaving.step_eq_some.mp moved
    rw [Interleaving.after_self]
    exact committed_step (kept.own i) busy here

end Runs

section Races

def single : Limits := ⟨1, 1⟩

def empty : System Bool Nat Nat := ⟨[], fun _ => ⟨[], .idle, [], false⟩⟩

theorem bounded_none {s : System Bool Nat Nat} (committed : s.shared = [])
    (inserted : ∀ i, (s.pc i).levels.flatten = []) (n : Nat) :
    Bounded (Held s) n ∧ ∀ u, BoundedOf u (Held s) n := by
  have none (r : Nat × Nat) : ¬Held s r := by
    rintro (here | ⟨i, inside⟩)
    · rw [committed] at here
      cases here
    · rw [inserted i] at inside
      cases inside
  exact ⟨⟨[], Nat.zero_le n, fun r here => absurd here (none r)⟩,
    fun u => ⟨[], Nat.zero_le n, fun r here => absurd here.2 (none r)⟩⟩

theorem empty_initial : Initial single empty :=
  ⟨(bounded_none rfl (fun _ => rfl) 1).1, (bounded_none rfl (fun _ => rfl) 1).2, fun _ => rfl⟩

theorem empty_reached {guard : System Bool Nat Nat → Bool × Action Nat Nat → Prop} :
    Guarded (Interleaving.step (next single)) guard (Initial single) empty :=
  .start empty_initial

/-- Both callers count no emoji, and each inserts its own. And a caller whose transaction is open
and has one reaction is refused the next. -/
theorem reactions_exceed :
    (∃ s : System Bool Nat Nat,
      Guarded (Interleaving.step (next single)) Waits (Initial single) s ∧ unique s.shared = 2) ∧
    ∃ s : System Bool Nat Nat,
      Guarded (Interleaving.step (next single)) Waits (Initial single) s ∧
        (s.pc true).phase = .failed ∧ (s.pc true).entry = [[(1, 7)]] ∧ (s.pc true).levels = [] := by
  constructor
  · have start : Guarded (Interleaving.step (next single)) Waits (Initial single) empty :=
      empty_reached
    have called := start.step (a := (true, Action.addReaction 1 7 true)) trivial rfl
    have begun := called.step (a := (true, Action.begin true)) trivial rfl
    have looked := begun.step (a := (true, Action.lookUp)) trivial rfl
    have counted := looked.step (a := (true, Action.count)) trivial rfl
    have sought := counted.step (a := (true, Action.seek)) trivial rfl
    have ready := sought.step (a := (true, Action.countUser)) trivial rfl
    have called' := ready.step (a := (false, Action.addReaction 2 8 true)) trivial rfl
    have begun' := called'.step (a := (false, Action.begin true)) trivial rfl
    have looked' := begun'.step (a := (false, Action.lookUp)) trivial rfl
    have counted' := looked'.step (a := (false, Action.count)) trivial rfl
    have sought' := counted'.step (a := (false, Action.seek)) trivial rfl
    have ready' := sought'.step (a := (false, Action.countUser)) trivial rfl
    have inserted := ready'.step (a := (true, Action.insert)) (by
      intro j other
      cases j with
      | true => exact absurd rfl other
      | false => decide) rfl
    have inserted' := inserted.step (a := (false, Action.insert)) (by
      intro j other
      cases j with
      | true => decide
      | false => exact absurd rfl other) rfl
    have landed := inserted'.step (a := (true, Action.commit true)) trivial rfl
    exact ⟨_, landed.step (a := (false, Action.commit true)) trivial rfl, rfl⟩
  · have start : Guarded (Interleaving.step (next single)) Waits (Initial single) empty :=
      empty_reached
    have opened := start.step (a := (true, Action.begin true)) trivial rfl
    have called := opened.step (a := (true, Action.addReaction 1 7 true)) (by trivial) rfl
    have begun := called.step (a := (true, Action.begin true)) trivial rfl
    have looked := begun.step (a := (true, Action.lookUp)) trivial rfl
    have counted := looked.step (a := (true, Action.count)) trivial rfl
    have sought := counted.step (a := (true, Action.seek)) trivial rfl
    have ready := sought.step (a := (true, Action.countUser)) trivial rfl
    have inserted := ready.step (a := (true, Action.insert)) (by
      intro j other
      cases j with
      | true => exact absurd rfl other
      | false => decide) rfl
    have landed := inserted.step (a := (true, Action.commit true)) trivial rfl
    have added := landed.step (a := (true, Action.readBack true)) trivial rfl
    have again := added.step (a := (true, Action.addReaction 1 8 true)) (by trivial) rfl
    have begun' := again.step (a := (true, Action.begin true)) trivial rfl
    have looked' := begun'.step (a := (true, Action.lookUp)) trivial rfl
    have counted' := looked'.step (a := (true, Action.count)) trivial rfl
    have refused := counted'.step (a := (true, Action.seek)) trivial rfl
    have rejecting := refused.step (a := (true, Action.rollback)) trivial rfl
    exact ⟨_, rejecting.step (a := (true, Action.rollback)) trivial rfl, rfl, rfl, rfl⟩

theorem reaction_limits_first : ∃ s : System Bool Nat Nat,
    s.shared = [(1, 7)] ∧ unique s.shared ≤ 1 := by
  have start : Guarded (Interleaving.step (next single)) Guard (Initial single) empty :=
    empty_reached
  have called := start.step (a := (true, Action.addReaction 1 7 true))
    ⟨trivial, trivial, trivial⟩ rfl
  have begun := called.step (a := (true, Action.begin true)) ⟨trivial, trivial, nofun⟩ rfl
  have looked := begun.step (a := (true, Action.lookUp)) ⟨trivial, trivial, trivial⟩ rfl
  have counted := looked.step (a := (true, Action.count)) ⟨trivial, trivial, trivial⟩ rfl
  have sought := counted.step (a := (true, Action.seek)) ⟨trivial, trivial, trivial⟩ rfl
  have ready := sought.step (a := (true, Action.countUser)) ⟨trivial, trivial, trivial⟩ rfl
  have inserted := ready.step (a := (true, Action.insert)) (by
    refine ⟨fun j other => ?_, ⟨?_, ?_⟩, trivial⟩
    · cases j with
      | true => exact absurd rfl other
      | false => exact List.not_mem_nil
    · exact .inr (bounded_none rfl (fun i => by cases i <;> rfl) 0).1
    · exact (bounded_none rfl (fun i => by cases i <;> rfl) 0).2 1) rfl
  have landed := inserted.step (a := (true, Action.commit true)) ⟨trivial, trivial, nofun⟩ rfl
  exact ⟨_, rfl, (reaction_limits landed).1⟩

end Races

end Plexichat.Reactions
