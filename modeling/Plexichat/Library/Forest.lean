import Mathlib.Data.List.Basic

/-! Nodes that name a parent each, possibly in a circle. Going up from a node and sweeping down
from one, both with the nodes they have seen, follow the same relation. -/

universe u

namespace Forest

variable {α : Type u} {parent : α → Option α} {nodes : List α}

/-- `Above parent a x`: going up from `x` leads to `a`. -/
inductive Above (parent : α → Option α) (a : α) : α → Prop
  | refl : Above parent a a
  | step {x y : α} (up : parent x = some y) (h : Above parent a y) : Above parent a x

theorem Above.closed {P : α → Prop} {a x : α} (h : Above parent a x) (start : P x)
    (up : ∀ y z, P y → parent y = some z → P z) : P a := by
  induction h with
  | refl => exact start
  | step here _ ih => exact ih (up _ _ start here)

theorem Above.trans {a b x : α} (h : Above parent a b) (k : Above parent b x) :
    Above parent a x := by
  induction k with
  | refl => exact h
  | step up _ ih => exact .step up ih

variable [DecidableEq α]

def unseen (nodes seen : List α) : Nat := (nodes.filter (· ∉ seen)).length

theorem unseen_lt {seen more : List α} {x : α} (member : x ∈ nodes) (fresh : x ∉ seen)
    (now : x ∈ more) (grows : ∀ y ∈ seen, y ∈ more) : unseen nodes more < unseen nodes seen := by
  have within : nodes.filter (· ∉ more) = (nodes.filter (· ∉ seen)).filter (· ∉ more) := by
    rw [List.filter_filter]
    apply List.filter_congr
    intro y _
    by_cases there : y ∈ seen
    · simp [there, grows y there]
    · simp [there]
  rw [unseen, within]
  apply List.length_filter_lt_length_iff_exists.mpr
  exact ⟨x, List.mem_filter.mpr ⟨member, by simpa using fresh⟩, by simpa using now⟩

theorem unseen_le (nodes seen : List α) : unseen nodes seen ≤ nodes.length :=
  List.length_filter_le _ _

def climb (parent : α → Option α) : Nat → List α → Option α → List α
  | 0, seen, _ => seen
  | _ + 1, seen, none => seen
  | n + 1, seen, some x => if x ∈ seen then seen else climb parent n (seen ++ [x]) (parent x)

def ancestors (parent : α → Option α) (nodes : List α) (x : α) : List α :=
  climb parent (nodes.length + 1) [] (some x)

theorem climb_sound {n : Nat} {seen : List α} {current : Option α} {x : α}
    (seen_above : ∀ a ∈ seen, Above parent a x) (current_above : ∀ a ∈ current, Above parent a x) :
    ∀ a ∈ climb parent n seen current, Above parent a x := by
  induction n generalizing seen current with
  | zero => exact seen_above
  | succ n ih =>
    cases current with
    | none => exact seen_above
    | some y =>
      have here := current_above y rfl
      rw [climb]
      split
      · exact seen_above
      · apply ih
        · intro a member
          rcases List.mem_append.mp member with old | new
          · exact seen_above a old
          · exact List.mem_singleton.mp new ▸ here
        · intro a up
          exact (Above.step up .refl).trans here

theorem climb_closed {n : Nat} {seen : List α} {current : Option α}
    (known : ∀ y z, parent y = some z → y ∈ nodes)
    (enough : current = none ∨ unseen nodes seen < n)
    (closed : ∀ y ∈ seen, ∀ z, parent y = some z → z ∈ seen ∨ current = some z) :
    (∀ y ∈ seen, y ∈ climb parent n seen current) ∧
      (∀ y ∈ current, y ∈ climb parent n seen current) ∧
      ∀ y ∈ climb parent n seen current, ∀ z, parent y = some z →
        z ∈ climb parent n seen current := by
  induction n generalizing seen current with
  | zero =>
    have ended : current = none := enough.resolve_right (Nat.not_lt_zero _)
    subst ended
    refine ⟨fun y there => there, nofun, ?_⟩
    exact fun y there z up => (closed y there z up).resolve_right nofun
  | succ n ih =>
    cases current with
    | none =>
      refine ⟨fun y there => there, nofun, ?_⟩
      exact fun y there z up => (closed y there z up).resolve_right nofun
    | some x =>
      rw [climb]
      split
      · rename_i again
        refine ⟨fun y there => there, ?_, ?_⟩
        · intro y here
          exact Option.some.inj here ▸ again
        · intro y there z up
          rcases closed y there z up with done | here
          · exact done
          · exact Option.some.inj here ▸ again
      · rename_i fresh
        have onward : parent x = none ∨ unseen nodes (seen ++ [x]) < n := by
          cases up : parent x with
          | none => exact .inl rfl
          | some z =>
            have fewer := unseen_lt (known x z up) fresh (List.mem_append_right _ (.head _))
              fun y there => List.mem_append_left [x] there
            have before := enough.resolve_left nofun
            exact .inr (by omega)
        obtain ⟨kept, _, all⟩ := ih onward (by
          intro y there z up
          rcases List.mem_append.mp there with old | new
          · rcases closed y old z up with done | here
            · exact .inl (List.mem_append_left _ done)
            · cases here
              exact .inl (List.mem_append_right _ (.head _))
          · cases List.mem_singleton.mp new
            exact .inr up)
        refine ⟨fun y there => kept y (List.mem_append_left _ there), ?_, all⟩
        intro y here
        cases here
        exact kept x (List.mem_append_right _ (.head _))

theorem mem_ancestors (known : ∀ y z, parent y = some z → y ∈ nodes) {a x : α} :
    a ∈ ancestors parent nodes x ↔ Above parent a x := by
  constructor
  · apply climb_sound
    · exact nofun
    · intro a here
      cases here
      exact .refl
  · intro above
    have enough : unseen nodes [] < nodes.length + 1 := Nat.lt_succ_of_le (unseen_le nodes [])
    have start : ∀ y ∈ ([] : List α), ∀ z, parent y = some z → z ∈ [] ∨ some x = some z := nofun
    obtain ⟨_, here, all⟩ := climb_closed known (.inr enough) start
    exact above.closed (here x rfl) fun y z there up => all y there z up

def children (parent : α → Option α) (nodes : List α) (x : α) : List α :=
  nodes.filter fun y => parent y = some x

def visit (r : List α × List α) (y : α) : List α × List α :=
  if y ∈ r.1 then r else (r.1 ++ [y], r.2 ++ [y])

def sweep (parent : α → Option α) (nodes : List α) : Nat → List α → List α → List α
  | 0, result, _ => result
  | _ + 1, result, [] => result
  | n + 1, result, x :: frontier =>
    let r := ((x :: frontier).flatMap (children parent nodes)).foldl visit (result, [])
    sweep parent nodes n r.1 r.2

def descendants (parent : α → Option α) (nodes : List α) (x : α) : List α :=
  sweep parent nodes (nodes.length + 1) [x] [x]

structure Round (ys : List α) (before after : List α × List α) : Prop where
  grows : ∀ y ∈ before.1, y ∈ after.1
  frontier : ∀ y ∈ before.2, y ∈ after.2
  visited : ∀ y ∈ ys, y ∈ after.1
  added : ∀ y ∈ after.1, y ∈ before.1 ∨ y ∈ ys ∧ y ∈ after.2
  fresh : ∀ y ∈ after.2, y ∈ before.2 ∨ y ∈ ys ∧ y ∉ before.1 ∧ y ∈ after.1

theorem round_visits (ys : List α) (before : List α × List α) :
    Round ys before (ys.foldl visit before) := by
  induction ys generalizing before with
  | nil =>
    exact ⟨fun _ there => there, fun _ there => there, nofun, fun _ there => .inl there,
      fun _ there => .inl there⟩
  | cons y ys ih =>
    have rest := ih (visit before y)
    rw [List.foldl_cons]
    by_cases seen : y ∈ before.1
    · have same : visit before y = before := if_pos seen
      rw [same] at rest ⊢
      refine ⟨rest.grows, rest.frontier, ?_, ?_, ?_⟩
      · intro z there
        rcases List.mem_cons.mp there with rfl | later
        · exact rest.grows z seen
        · exact rest.visited z later
      · intro z there
        rcases rest.added z there with old | ⟨later, next⟩
        · exact .inl old
        · exact .inr ⟨List.mem_cons_of_mem y later, next⟩
      · intro z there
        rcases rest.fresh z there with old | ⟨later, new, now⟩
        · exact .inl old
        · exact .inr ⟨List.mem_cons_of_mem y later, new, now⟩
    · have same : visit before y = (before.1 ++ [y], before.2 ++ [y]) := if_neg seen
      rw [same] at rest ⊢
      refine ⟨?_, ?_, ?_, ?_, ?_⟩
      · exact fun z there => rest.grows z (List.mem_append_left _ there)
      · exact fun z there => rest.frontier z (List.mem_append_left _ there)
      · intro z there
        rcases List.mem_cons.mp there with rfl | later
        · exact rest.grows z (List.mem_append_right _ (.head _))
        · exact rest.visited z later
      · intro z there
        rcases rest.added z there with either | ⟨later, next⟩
        · rcases List.mem_append.mp either with old | new
          · exact .inl old
          · cases List.mem_singleton.mp new
            exact .inr ⟨.head _, rest.frontier y (List.mem_append_right _ (.head _))⟩
        · exact .inr ⟨List.mem_cons_of_mem y later, next⟩
      · intro z there
        rcases rest.fresh z there with either | ⟨later, new, now⟩
        · rcases List.mem_append.mp either with old | new
          · exact .inl old
          · cases List.mem_singleton.mp new
            exact .inr ⟨.head _, seen, rest.grows y (List.mem_append_right _ (.head _))⟩
        · exact .inr ⟨List.mem_cons_of_mem y later,
            fun old => new (List.mem_append_left _ old), now⟩

theorem mem_children {x y : α} : y ∈ children parent nodes x ↔ y ∈ nodes ∧ parent y = some x := by
  simp [children]

theorem sweep_sound {n : Nat} {result frontier : List α} {x : α}
    (below : ∀ y ∈ result, Above parent x y) (within : ∀ y ∈ frontier, y ∈ result) :
    ∀ y ∈ sweep parent nodes n result frontier, Above parent x y := by
  induction n generalizing result frontier with
  | zero => exact below
  | succ n ih =>
    cases frontier with
    | nil => exact below
    | cons z frontier =>
      have round := round_visits ((z :: frontier).flatMap (children parent nodes)) (result, [])
      apply ih
      · intro y there
        rcases round.added y there with old | ⟨child, -⟩
        · exact below y old
        · obtain ⟨w, among, down⟩ := List.mem_flatMap.mp child
          exact .step (mem_children.mp down).2 (below w (within w among))
      · intro y there
        rcases round.fresh y there with old | ⟨-, -, now⟩
        · cases old
        · exact now

theorem sweep_closed {n : Nat} {result frontier : List α}
    (known : ∀ y z, parent y = some z → y ∈ nodes)
    (enough : frontier = [] ∨ unseen nodes result < n)
    (closed : ∀ x ∈ result, x ∈ frontier ∨ ∀ y, parent y = some x → y ∈ result) :
    (∀ y ∈ result, y ∈ sweep parent nodes n result frontier) ∧
      ∀ x ∈ sweep parent nodes n result frontier, ∀ y, parent y = some x →
        y ∈ sweep parent nodes n result frontier := by
  induction n generalizing result frontier with
  | zero =>
    have ended : frontier = [] := enough.resolve_right (Nat.not_lt_zero _)
    subst ended
    exact ⟨fun y there => there, fun x there => (closed x there).resolve_left nofun⟩
  | succ n ih =>
    cases frontier with
    | nil => exact ⟨fun y there => there, fun x there => (closed x there).resolve_left nofun⟩
    | cons z frontier =>
      have round := round_visits ((z :: frontier).flatMap (children parent nodes)) (result, [])
      rw [sweep]
      generalize ((z :: frontier).flatMap (children parent nodes)).foldl visit (result, []) = r
        at round ⊢
      have onward : r.2 = [] ∨ unseen nodes r.1 < n := by
        cases next : r.2 with
        | nil => exact .inl rfl
        | cons y rest =>
          rcases round.fresh y (next ▸ .head _) with old | ⟨child, new, now⟩
          · cases old
          · obtain ⟨w, _, down⟩ := List.mem_flatMap.mp child
            have fewer : unseen nodes r.1 < unseen nodes result :=
              unseen_lt (mem_children.mp down).1 new now round.grows
            have before := enough.resolve_left nofun
            exact .inr (by omega)
      obtain ⟨kept, all⟩ := ih onward (by
        intro x there
        rcases round.added x there with old | ⟨-, next⟩
        · rcases closed x old with among | done
          · refine .inr fun y up => round.visited y (List.mem_flatMap.mpr ⟨x, among, ?_⟩)
            exact mem_children.mpr ⟨known y x up, up⟩
          · exact .inr fun y up => round.grows y (done y up)
        · exact .inl next)
      exact ⟨fun y there => kept y (round.grows y there), all⟩

theorem mem_descendants (known : ∀ y z, parent y = some z → y ∈ nodes) {x y : α} :
    y ∈ descendants parent nodes x ↔ Above parent x y := by
  constructor
  · apply sweep_sound
    · intro z here
      cases List.mem_singleton.mp here
      exact .refl
    · exact fun z here => here
  · intro above
    have enough : unseen nodes [x] < nodes.length + 1 := Nat.lt_succ_of_le (unseen_le nodes [x])
    obtain ⟨start, all⟩ := sweep_closed known (.inr enough)
      (fun z here => .inl (List.mem_singleton.mpr (List.mem_singleton.mp here)))
    induction above with
    | refl => exact start x (.head _)
    | step up _ ih => exact all _ ih _ up

end Forest
