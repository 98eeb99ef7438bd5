import Mathlib.Data.List.Nodup
import Mathlib.Data.List.Range
import Mathlib.Data.Prod.Basic

/-! Messages that are each due to the receivers of a snapshot. A posted message joins a lane that is
handed out from the front, one that is opened is handed out on the side, and one may be counted as
dropped instead. -/
namespace Delivery

universe u v

variable {α : Type u} {κ : Type v}

structure Ledger (α : Type u) (κ : Type v) where
  sent : List α
  counted : List α
  handed : List (α × κ)
  due : List (α × κ)
  aside : List (α × κ)

def pairs (receivers : α → List κ) (x : α) : List (α × κ) := (receivers x).map (Prod.mk x)

inductive Step (receivers : α → List κ) (number : α → Nat) (posted : α → Prop) :
    Ledger α κ → Ledger α κ → Prop
  | rest {l : Ledger α κ} : Step receivers number posted l l
  | post {l : Ledger α κ} (x : α) (fresh : number x = l.sent.length) (lane : posted x) :
    Step receivers number posted l
      { l with sent := l.sent ++ [x], due := l.due ++ pairs receivers x }
  | count {l : Ledger α κ} (x : α) (fresh : number x = l.sent.length) :
    Step receivers number posted l { l with sent := l.sent ++ [x], counted := l.counted ++ [x] }
  | «open» {l : Ledger α κ} (x : α) (fresh : number x = l.sent.length) (side : ¬posted x) :
    Step receivers number posted l
      { l with sent := l.sent ++ [x], aside := l.aside ++ pairs receivers x }
  | hand {l : Ledger α κ} (p : α × κ) (due : List (α × κ)) (next : l.due = p :: due) :
    Step receivers number posted l { l with handed := l.handed ++ [p], due }
  | handAside {l : Ledger α κ} (before : List (α × κ)) (p : α × κ) (after : List (α × κ))
    (some : l.aside = before ++ p :: after) :
    Step receivers number posted l
      { l with handed := l.handed ++ [p], aside := before ++ after }

def Before (number : α → Nat) (posted : α → Prop) (p q : α × κ) : Prop :=
  p.2 = q.2 → posted p.1 → posted q.1 → number p.1 < number q.1

structure Sound (receivers : α → List κ) (number : α → Nat) (posted : α → Prop)
    (l : Ledger α κ) : Prop where
  numbered : l.sent.map number = List.range l.sent.length
  part : l.counted.Sublist l.sent
  conserved : (l.handed ++ l.due ++ l.aside ++ l.counted.flatMap (pairs receivers)).Perm
    (l.sent.flatMap (pairs receivers))
  ordered : (l.handed ++ l.due).Pairwise (Before number posted)
  side : ∀ p ∈ l.aside, ¬posted p.1

variable {receivers : α → List κ} {number : α → Nat} {posted : α → Prop} {l m : Ledger α κ}

theorem mem_pairs {x : α} {p : α × κ} : p ∈ pairs receivers x ↔ p.1 = x ∧ p.2 ∈ receivers x := by
  constructor
  · intro member
    obtain ⟨k, here, rfl⟩ := List.mem_map.mp member
    exact ⟨rfl, here⟩
  · rintro ⟨rfl, here⟩
    exact List.mem_map.mpr ⟨p.2, here, rfl⟩

theorem Sound.empty : Sound receivers number posted ⟨[], [], [], [], []⟩ :=
  ⟨rfl, .slnil, .nil, .nil, fun _ => nofun⟩

theorem Sound.recent (sound : Sound receivers number posted l) {p : α × κ}
    (member : p ∈ l.handed ++ l.due) : number p.1 < l.sent.length := by
  have among : p ∈ l.sent.flatMap (pairs receivers) :=
    sound.conserved.subset (List.mem_append_left _ (List.mem_append_left _ member))
  obtain ⟨x, sent, here⟩ := List.mem_flatMap.mp among
  have ranged : number x ∈ l.sent.map number := List.mem_map_of_mem sent
  rw [sound.numbered] at ranged
  rw [(mem_pairs.mp here).1]
  exact List.mem_range.mp ranged

theorem Sound.sent_nodup (sound : Sound receivers number posted l) : l.sent.Nodup :=
  List.Nodup.of_map number (sound.numbered ▸ List.nodup_range)

theorem numbered_append {sent : List α} (numbered : sent.map number = List.range sent.length)
    {x : α} (fresh : number x = sent.length) :
    (sent ++ [x]).map number = List.range (sent ++ [x]).length := by
  rw [List.map_append, numbered, List.length_append, List.map_singleton, List.length_singleton,
    List.range_succ, fresh]

theorem Sound.ordered_post (sound : Sound receivers number posted l)
    (distinct : ∀ x, (receivers x).Nodup) {x : α} (fresh : number x = l.sent.length) :
    (l.handed ++ (l.due ++ pairs receivers x)).Pairwise (Before number posted) := by
  rw [← List.append_assoc]
  refine List.pairwise_append.mpr ⟨sound.ordered, ?_, ?_⟩
  · refine List.Pairwise.map _ ?_ (distinct x)
    intro j k apart same
    exact absurd same apart
  · intro p earlier q own _ _ _
    rw [(mem_pairs.mp own).1, fresh]
    exact sound.recent earlier

theorem ordered_aside {handed due : List (α × κ)} {p : α × κ} (side : ¬posted p.1)
    (ordered : (handed ++ due).Pairwise (Before number posted)) :
    (handed ++ [p] ++ due).Pairwise (Before number posted) := by
  obtain ⟨first, later, across⟩ := List.pairwise_append.mp ordered
  refine List.pairwise_append.mpr ⟨?_, later, ?_⟩
  · refine List.pairwise_append.mpr ⟨first, List.pairwise_singleton _ _, ?_⟩
    intro q _ r own _ _ here
    exact absurd (List.mem_singleton.mp own ▸ here) side
  · intro q member r there
    rcases List.mem_append.mp member with before | own
    · exact across q before r there
    · intro _ here
      exact absurd (List.mem_singleton.mp own ▸ here) side

theorem Sound.step (sound : Sound receivers number posted l)
    (distinct : ∀ x, (receivers x).Nodup) (step : Step receivers number posted l m) :
    Sound receivers number posted m := by
  cases step with
  | rest => exact sound
  | post x fresh lane =>
    refine ⟨numbered_append sound.numbered fresh, sound.part.trans (List.sublist_append_left _ _),
      ?_, sound.ordered_post distinct fresh, sound.side⟩
    have more := sound.conserved.append_right (pairs receivers x)
    rw [List.flatMap_append, List.flatMap_singleton]
    refine List.Perm.trans ?_ more
    simp only [List.append_assoc]
    refine List.Perm.append_left _ (List.Perm.append_left _ ?_)
    rw [← List.append_assoc l.aside]
    exact List.perm_append_comm
  | count x fresh =>
    refine ⟨numbered_append sound.numbered fresh, sound.part.append (.refl _), ?_, sound.ordered,
      sound.side⟩
    have more := sound.conserved.append_right (pairs receivers x)
    simpa only [List.flatMap_append, List.flatMap_singleton, List.append_assoc] using more
  | «open» x fresh side =>
    refine ⟨numbered_append sound.numbered fresh, sound.part.trans (List.sublist_append_left _ _),
      ?_, sound.ordered, ?_⟩
    · have more := sound.conserved.append_right (pairs receivers x)
      rw [List.flatMap_append, List.flatMap_singleton]
      refine List.Perm.trans ?_ more
      simp only [List.append_assoc]
      exact List.Perm.append_left _ (List.Perm.append_left _ (List.Perm.append_left _
        List.perm_append_comm))
    · intro p member
      rcases List.mem_append.mp member with before | own
      · exact sound.side p before
      · exact (mem_pairs.mp own).1 ▸ side
  | hand p due next =>
    refine ⟨sound.numbered, sound.part, ?_, ?_, sound.side⟩
    · have same := sound.conserved
      rw [next] at same
      simpa only [List.append_assoc, List.singleton_append] using same
    · have same := sound.ordered
      rw [next] at same
      simpa only [List.append_assoc, List.singleton_append] using same
  | handAside before p after some =>
    have mine : p ∈ l.aside := some ▸ List.mem_append_right _ List.mem_cons_self
    refine ⟨sound.numbered, sound.part, ?_, ordered_aside (sound.side p mine) sound.ordered, ?_⟩
    · refine List.Perm.trans ?_ sound.conserved
      rw [some]
      refine List.Perm.append_right _ ?_
      simp only [List.append_assoc, List.singleton_append]
      refine List.Perm.append_left _ ?_
      rw [← List.append_assoc, ← List.append_assoc]
      exact List.perm_middle.symm
    · intro q member
      refine sound.side q (some ▸ ?_)
      rcases List.mem_append.mp member with early | late
      · exact List.mem_append_left _ early
      · exact List.mem_append_right _ (List.mem_cons_of_mem p late)

section Outcome

variable [DecidableEq α] [DecidableEq κ]

theorem count_pairs {x y : α} {k : κ} (distinct : (receivers y).Nodup) :
    (pairs receivers y).count (x, k) = if x = y ∧ k ∈ receivers y then 1 else 0 := by
  have nodup : (pairs receivers y).Nodup := distinct.map (Prod.mk_right_injective y)
  rw [nodup.count]
  simp only [mem_pairs]

theorem count_all {xs : List α} {x : α} {k : κ} (distinct : ∀ y, (receivers y).Nodup)
    (nodup : xs.Nodup) : (xs.flatMap (pairs receivers)).count (x, k) =
      if x ∈ xs ∧ k ∈ receivers x then 1 else 0 := by
  induction xs with
  | nil => simp
  | cons y ys ih =>
    obtain ⟨absent, rest⟩ := List.nodup_cons.mp nodup
    rw [List.flatMap_cons, List.count_append, count_pairs (distinct y), ih rest]
    by_cases same : x = y
    · subst same
      simp [absent]
    · simp [same]

theorem Sound.outcome (sound : Sound receivers number posted l)
    (distinct : ∀ x, (receivers x).Nodup) (due : l.due = []) (aside : l.aside = []) (x : α)
    (sent : x ∈ l.sent) (k : κ) : l.handed.count (x, k) =
      if x ∉ l.counted ∧ k ∈ receivers x then 1 else 0 := by
  have total := sound.conserved.count_eq (x, k)
  rw [due, aside, List.append_nil, List.append_nil, List.count_append,
    count_all distinct sound.sent_nodup,
    count_all distinct (sound.sent_nodup.sublist sound.part)] at total
  by_cases dropped : x ∈ l.counted <;> by_cases mine : k ∈ receivers x <;> simp_all

end Outcome

end Delivery
