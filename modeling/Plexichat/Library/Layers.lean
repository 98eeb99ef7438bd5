import Mathlib.Data.List.Sort

/-! Layered decisions. A base value is overwritten by a list of layers from the
bottom up; a layer may stay silent. Layers that carry a rank are put in order
by a stable sort. -/
namespace Layers

universe u v w

def resolve (base : Bool) (layers : List (Option Bool)) : Bool :=
  layers.foldl (fun value d => d.getD value) base

def decision (layers : List (Option Bool)) : Option Bool :=
  layers.foldl (fun value d => d.or value) none

theorem foldl_or (value : Option Bool) (layers : List (Option Bool)) :
    layers.foldl (fun value d => d.or value) value = (decision layers).or value := by
  unfold decision
  induction layers generalizing value with
  | nil => rfl
  | cons d layers ih =>
    simp only [List.foldl_cons]
    rw [ih, ih (d.or none), Option.or_none, Option.or_assoc]

@[simp] theorem decision_nil : decision [] = none := rfl

@[simp] theorem decision_cons (d : Option Bool) (layers : List (Option Bool)) :
    decision (d :: layers) = (decision layers).or d := by
  unfold decision
  rw [List.foldl_cons, foldl_or, Option.or_none]
  rfl

theorem decision_append (lower upper : List (Option Bool)) :
    decision (lower ++ upper) = (decision upper).or (decision lower) := by
  induction lower with
  | nil => simp
  | cons d lower ih =>
    rw [List.cons_append, decision_cons, ih, decision_cons, Option.or_assoc]

theorem resolve_eq (base : Bool) (layers : List (Option Bool)) :
    resolve base layers = (decision layers).getD base := by
  unfold resolve
  induction layers generalizing base with
  | nil => rfl
  | cons d layers ih =>
    rw [List.foldl_cons, ih, decision_cons]
    cases decision layers with
    | none => rfl
    | some v => rfl

theorem resolve_append (base : Bool) (lower upper : List (Option Bool)) :
    resolve base (lower ++ upper) = resolve (resolve base lower) upper :=
  List.foldl_append

theorem decision_eq_none {layers : List (Option Bool)} :
    decision layers = none ↔ ∀ d ∈ layers, d = none := by
  induction layers with
  | nil => simp
  | cons d layers ih =>
    simp only [decision_cons, Option.or_eq_none_iff, ih, List.mem_cons, forall_eq_or_imp]
    exact and_comm

@[simp] theorem resolve_nil (base : Bool) : resolve base [] = base := rfl

theorem resolve_concat (base : Bool) (layers : List (Option Bool)) (d : Option Bool) :
    resolve base (layers ++ [d]) = d.getD (resolve base layers) := by
  rw [resolve_append]
  rfl

/-- A layer that changes from `old` to `new` over the value `rest` turns false into true. -/
def Lifts (old new : Option Bool) (rest : Bool) : Prop :=
  old.getD rest = false ∧ new.getD rest = true

instance (old new : Option Bool) (rest : Bool) : Decidable (Lifts old new rest) :=
  inferInstanceAs (Decidable (_ ∧ _))

/-- What one layer changes is seen when every layer above it is silent. -/
theorem lifts_iff (base : Bool) (lower upper : List (Option Bool)) (old new : Option Bool) :
    (resolve base (lower ++ old :: upper) = false ∧ resolve base (lower ++ new :: upper) = true) ↔
      decision upper = none ∧ Lifts old new (resolve base lower) := by
  have seen : ∀ d, resolve base (lower ++ d :: upper) =
      (decision upper).getD (d.getD (resolve base lower)) := by
    intro d
    rw [← List.singleton_append, ← List.append_assoc, resolve_append, resolve_concat, resolve_eq]
  rw [seen, seen, Lifts]
  cases decision upper with
  | none => simp
  | some v => simp

theorem resolve_insert_none (base : Bool) (lower upper : List (Option Bool)) :
    resolve base (lower ++ none :: upper) = resolve base (lower ++ upper) := by
  rw [← List.singleton_append, ← List.append_assoc, resolve_append, resolve_concat, resolve_append]
  rfl

theorem resolve_mono {base base' : Bool} (lowered : base' = true → base = true)
    {layers : List (Option Bool)} (h : resolve base' layers = true) :
    resolve base layers = true := by
  rw [resolve_eq] at h ⊢
  cases e : decision layers with
  | none =>
    rw [e] at h
    exact lowered h
  | some v =>
    rw [e] at h
    exact h

/-- A layer that changes its place turns false into true when an allow passes a deny
above it, or a deny falls below an allow. -/
theorem moved_iff {base base' : Bool} (lowered : base' = true → base = true)
    {lower upper lower' upper' : List (Option Bool)} (d : Option Bool)
    (others : lower ++ upper = lower' ++ upper') :
    (resolve base (lower ++ d :: upper) = false ∧ resolve base' (lower' ++ d :: upper') = true) ↔
      (d = some true ∧ decision upper = some false ∧ decision upper' = none) ∨
        (d = some false ∧ decision upper = none ∧ decision upper' = some true) := by
  have top : (decision upper).or (decision lower) = (decision upper').or (decision lower') := by
    rw [← decision_append, ← decision_append, others]
  have seen : ∀ (b : Bool) (lower upper : List (Option Bool)), resolve b (lower ++ d :: upper) =
      ((decision upper).or (d.or (decision lower))).getD b := by
    intro b lower upper
    rw [resolve_eq, decision_append, decision_cons, Option.or_assoc]
  rw [seen, seen]
  revert top
  cases decision upper with
  | none =>
    cases decision upper' with
    | none =>
      intro top
      simp only [Option.none_or] at top
      rw [top]
      cases d with
      | none =>
        cases decision lower' with
        | none =>
          simp only [Option.none_or, Option.getD_none, reduceCtorEq, false_and, or_self, iff_false]
          intro h
          rw [lowered h.2] at h
          cases h.1
        | some v => simp
      | some v => simp
    | some w =>
      intro top
      simp only [Option.none_or, Option.some_or] at top
      rw [top]
      cases d with
      | none => simp
      | some v => simp [and_comm]
  | some v =>
    cases decision upper' with
    | none => cases d with
      | none =>
        intro top
        simp only [Option.none_or, Option.some_or] at top
        simp [← top]
      | some w => intro _; simp [and_comm]
    | some w =>
      intro top
      simp only [Option.some_or, Option.some.injEq] at top
      subst top
      simp

theorem decision_filterMap {α : Type u} {β : Type v} (f : α → Option β) (d : β → Option Bool)
    (xs : List α) :
    decision ((xs.filterMap f).map d) = decision (xs.map fun x => (f x).bind d) := by
  induction xs with
  | nil => rfl
  | cons x xs ih =>
    simp only [List.map_cons, decision_cons]
    cases e : f x with
    | none => simp [e, ih]
    | some y => simp [e, ih]

section Order

variable {α : Type u} {β : Type v} {κ : Type w} [LinearOrder κ]

/-- `sorted(xs, key=rank)`: equal ranks keep their order. -/
def byRank (rank : α → κ) (xs : List α) : List α :=
  xs.insertionSort fun x y => rank x ≤ rank y

@[simp] theorem mem_byRank {rank : α → κ} {xs : List α} {x : α} : x ∈ byRank rank xs ↔ x ∈ xs :=
  (List.perm_insertionSort _ xs).mem_iff

@[simp] theorem length_byRank (rank : α → κ) (xs : List α) : (byRank rank xs).length = xs.length :=
  List.length_insertionSort _ xs

theorem byRank_sorted (rank : α → κ) (xs : List α) :
    (byRank rank xs).Pairwise fun x y => rank x ≤ rank y :=
  have : Std.Total fun x y : α => rank x ≤ rank y := ⟨fun x y => le_total (rank x) (rank y)⟩
  have : IsTrans α fun x y => rank x ≤ rank y := ⟨fun _ _ _ => le_trans⟩
  List.pairwise_insertionSort _ xs

theorem byRank_cons (rank : α → κ) (x : α) (xs : List α) :
    byRank rank (x :: xs) = (byRank rank xs).orderedInsert (fun x y => rank x ≤ rank y) x := rfl

theorem orderedInsert_filterMap {rank : α → κ} {rank' : β → κ} {f : α → Option β}
    (same : ∀ x y, f x = some y → rank' y = rank x) (x : α) {xs : List α}
    (sorted : xs.Pairwise fun x y => rank x ≤ rank y) :
    (xs.orderedInsert (fun x y => rank x ≤ rank y) x).filterMap f =
      match f x with
      | some y => (xs.filterMap f).orderedInsert (fun x y => rank' x ≤ rank' y) y
      | none => xs.filterMap f := by
  induction xs with
  | nil => cases e : f x <;> simp [e]
  | cons b xs ih =>
    obtain ⟨above, sorted'⟩ := List.pairwise_cons.mp sorted
    by_cases le : rank x ≤ rank b
    · rw [List.orderedInsert_cons_of_le _ xs le]
      cases e : f x with
      | none => simp [e]
      | some y =>
        have first : ∀ z ∈ (b :: xs).filterMap f, rank' y ≤ rank' z := by
          intro z hz
          obtain ⟨c, hc, hcz⟩ := List.mem_filterMap.mp hz
          rw [same x y e, same c z hcz]
          cases List.mem_cons.mp hc with
          | inl here => exact here ▸ le
          | inr later => exact le_trans le (above c later)
        simp only [List.filterMap_cons_some e]
        cases rest : (b :: xs).filterMap f with
        | nil => rfl
        | cons z zs =>
          exact (List.orderedInsert_cons_of_le _ zs (first z (rest ▸ List.mem_cons_self))).symm
    · rw [List.orderedInsert_of_not_le _ xs le, List.filterMap_cons, ih sorted']
      cases e : f x with
      | none => simp only [List.filterMap_cons]
      | some y =>
        cases eb : f b with
        | none => simp only [List.filterMap_cons_none eb]
        | some z =>
          have not_le : ¬ rank' y ≤ rank' z := by rwa [same x y e, same b z eb]
          simp only [List.filterMap_cons_some eb]
          exact (List.orderedInsert_of_not_le (fun x y => rank' x ≤ rank' y) _ not_le).symm

theorem byRank_filterMap {rank : α → κ} {rank' : β → κ} {f : α → Option β}
    (same : ∀ x y, f x = some y → rank' y = rank x) (xs : List α) :
    byRank rank' (xs.filterMap f) = (byRank rank xs).filterMap f := by
  induction xs with
  | nil => rfl
  | cons x xs ih =>
    rw [byRank_cons, orderedInsert_filterMap same x (byRank_sorted rank xs), ← ih]
    cases e : f x with
    | none => simp only [List.filterMap_cons_none e]
    | some y =>
      simp only [List.filterMap_cons_some e]
      rfl

theorem byRank_filter {rank : α → κ} (p : α → Bool) (xs : List α) :
    byRank rank (xs.filter p) = (byRank rank xs).filter p := by
  have kept : ∀ x y, Option.guard (fun z => p z) x = some y → rank y = rank x := by
    intro x y h
    rw [(Option.guard_eq_some_iff.mp h).1]
  have moved := byRank_filterMap kept xs
  rwa [List.filterMap_eq_filter] at moved

theorem byRank_map (rank : β → κ) (f : α → β) (xs : List α) :
    byRank rank (xs.map f) = (byRank (fun x => rank (f x)) xs).map f := by
  have moved : byRank rank (xs.filterMap (some ∘ f)) =
      (byRank (fun x => rank (f x)) xs).filterMap (some ∘ f) := by
    apply byRank_filterMap
    intro x y h
    cases h
    rfl
  rwa [List.filterMap_eq_map] at moved

theorem byRank_congr {rank rank' : α → κ} {xs : List α} (same : ∀ x ∈ xs, rank x = rank' x) :
    byRank rank xs = byRank rank' xs := by
  induction xs with
  | nil => rfl
  | cons x xs ih =>
    have tail := ih fun y hy => same y (List.mem_cons_of_mem x hy)
    rw [byRank_cons, byRank_cons, tail]
    have sub : ∀ y ∈ byRank rank' xs, rank y = rank' y := by
      intro y hy
      exact same y (List.mem_cons_of_mem x (mem_byRank.mp hy))
    revert sub
    generalize byRank rank' xs = ys
    intro sub
    induction ys with
    | nil => rfl
    | cons y ys ih =>
      have hx := same x List.mem_cons_self
      have hy := sub y List.mem_cons_self
      simp only [List.orderedInsert_cons, hx, hy]
      rw [ih fun z hz => sub z (List.mem_cons_of_mem y hz)]

theorem orderedInsert_filter {rank : α → κ} (p : α → Bool) (x : α) {xs : List α}
    (sorted : xs.Pairwise fun x y => rank x ≤ rank y) :
    (xs.orderedInsert (fun x y => rank x ≤ rank y) x).filter p =
      if p x then (xs.filter p).orderedInsert (fun x y => rank x ≤ rank y) x
      else xs.filter p := by
  have kept : ∀ x y, Option.guard (fun z => p z) x = some y → rank y = rank x := by
    intro x y h
    rw [(Option.guard_eq_some_iff.mp h).1]
  have moved := orderedInsert_filterMap kept x sorted
  rw [List.filterMap_eq_filter] at moved
  rw [moved]
  by_cases hx : p x = true
  · simp [Option.guard, hx]
  · simp [Option.guard, hx]

theorem orderedInsert_append_of_le {rank : α → κ} {x a : α} (le : rank x ≤ rank a)
    (lower upper : List α) :
    (lower ++ a :: upper).orderedInsert (fun x y => rank x ≤ rank y) x =
      lower.orderedInsert (fun x y => rank x ≤ rank y) x ++ a :: upper := by
  induction lower with
  | nil => exact List.orderedInsert_cons_of_le _ upper le
  | cons y lower ih =>
    simp only [List.cons_append, List.orderedInsert_cons]
    split
    · rfl
    · rw [ih]
      rfl

theorem orderedInsert_append_of_lt {rank : α → κ} {x : α} {lower : List α}
    (lt : ∀ y ∈ lower, rank y < rank x) (upper : List α) :
    (lower ++ upper).orderedInsert (fun x y => rank x ≤ rank y) x =
      lower ++ upper.orderedInsert (fun x y => rank x ≤ rank y) x := by
  induction lower with
  | nil => rfl
  | cons y lower ih =>
    have first : ¬ rank x ≤ rank y := not_le_of_gt (lt y List.mem_cons_self)
    simp only [List.cons_append, List.orderedInsert_cons, if_neg first]
    rw [ih fun z hz => lt z (List.mem_cons_of_mem y hz)]

theorem byRank_parts (rank : α → κ) (xs : List α) (k : κ) :
    (byRank rank xs).filter (rank · ≤ k) ++ (byRank rank xs).filter (k < rank ·) =
      byRank rank xs := by
  have sorted := byRank_sorted rank xs
  revert sorted
  generalize byRank rank xs = ys
  intro sorted
  induction ys with
  | nil => rfl
  | cons y ys ih =>
    obtain ⟨above, sorted'⟩ := List.pairwise_cons.mp sorted
    by_cases le : rank y ≤ k
    · simp only [List.filter_cons, le, not_lt_of_ge le, decide_true, decide_false, if_true,
        Bool.false_eq_true, if_false, List.cons_append]
      rw [ih sorted']
    · have nothing : ys.filter (rank · ≤ k) = [] := by
        apply List.filter_eq_nil_iff.mpr
        intro z hz
        simpa using lt_of_lt_of_le (lt_of_not_ge le) (above z hz)
      rw [nothing, List.nil_append] at ih
      simp only [List.filter_cons, le, lt_of_not_ge le, decide_true, decide_false, if_true,
        Bool.false_eq_true, if_false, nothing, List.nil_append]
      rw [ih sorted']

theorem byRank_append_singleton (rank : α → κ) (xs : List α) (a : α) :
    byRank rank (xs ++ [a]) = (byRank rank xs).filter (rank · ≤ rank a) ++
      a :: (byRank rank xs).filter (rank a < rank ·) := by
  induction xs with
  | nil => rfl
  | cons x xs ih =>
    have sorted := byRank_sorted rank xs
    rw [List.cons_append, byRank_cons, byRank_cons, ih, orderedInsert_filter _ x sorted,
      orderedInsert_filter _ x sorted]
    by_cases le : rank x ≤ rank a
    · simp only [le, not_lt_of_ge le, decide_true, decide_false, if_true, Bool.false_eq_true,
        if_false]
      exact orderedInsert_append_of_le le _ _
    · have gt : rank a < rank x := lt_of_not_ge le
      simp only [le, gt, decide_true, decide_false, if_true, Bool.false_eq_true, if_false]
      have below : ∀ y ∈ (byRank rank xs).filter (rank · ≤ rank a) ++ [a], rank y < rank x := by
        intro y hy
        cases List.mem_append.mp hy with
        | inl lower =>
          have := (List.mem_filter.mp lower).2
          exact lt_of_le_of_lt (of_decide_eq_true this) gt
        | inr last => exact List.mem_singleton.mp last ▸ gt
      have inserted := orderedInsert_append_of_lt below ((byRank rank xs).filter (rank a < rank ·))
      simpa only [List.append_assoc, List.singleton_append] using inserted

theorem decision_byRank_cons {rank : α → κ} (d : α → Option Bool) (x : α) (xs : List α) :
    (∃ y ∈ xs, d y ≠ none ∧ rank x ≤ rank y) ∧
        decision ((byRank rank (x :: xs)).map d) = decision ((byRank rank xs).map d) ∨
      (∀ y ∈ xs, d y ≠ none → rank y < rank x) ∧
        decision ((byRank rank (x :: xs)).map d) =
          (d x).or (decision ((byRank rank xs).map d)) := by
  have inserted : ∀ ys : List α, (ys.Pairwise fun x y => rank x ≤ rank y) →
      (∃ y ∈ ys, d y ≠ none ∧ rank x ≤ rank y) ∧
          decision ((ys.orderedInsert (fun x y => rank x ≤ rank y) x).map d) =
            decision (ys.map d) ∨
        (∀ y ∈ ys, d y ≠ none → rank y < rank x) ∧
          decision ((ys.orderedInsert (fun x y => rank x ≤ rank y) x).map d) =
            (d x).or (decision (ys.map d)) := by
    intro ys sorted
    induction ys with
    | nil => exact .inr ⟨fun _ h => absurd h List.not_mem_nil, by simp⟩
    | cons y ys ih =>
      obtain ⟨above, sorted'⟩ := List.pairwise_cons.mp sorted
      by_cases le : rank x ≤ rank y
      · rw [List.orderedInsert_cons_of_le _ ys le, List.map_cons, decision_cons]
        cases spoken : decision ((y :: ys).map d) with
        | none =>
          have silent := decision_eq_none.mp spoken
          refine .inr ⟨?_, by simp⟩
          intro z hz speaks
          exact absurd (silent (d z) (List.mem_map_of_mem hz)) speaks
        | some v =>
          refine .inl ⟨?_, rfl⟩
          have not_silent : ¬ ∀ e ∈ (y :: ys).map d, e = none := by
            rw [← decision_eq_none, spoken]
            exact Option.some_ne_none v
          simp only [List.mem_map, forall_exists_index, and_imp, forall_apply_eq_imp_iff₂,
            not_forall] at not_silent
          obtain ⟨z, hz, speaks⟩ := not_silent
          refine ⟨z, hz, speaks, ?_⟩
          cases List.mem_cons.mp hz with
          | inl here => exact here ▸ le
          | inr later => exact le_trans le (above z later)
      · have lt : rank y < rank x := lt_of_not_ge le
        rw [List.orderedInsert_of_not_le _ ys le]
        simp only [List.map_cons, decision_cons]
        rcases ih sorted' with ⟨⟨z, hz, speaks, high⟩, same⟩ | ⟨lower, over_them⟩
        · exact .inl ⟨⟨z, List.mem_cons_of_mem y hz, speaks, high⟩, by rw [same]⟩
        · refine .inr ⟨?_, by rw [over_them, Option.or_assoc]⟩
          intro z hz speaks
          cases List.mem_cons.mp hz with
          | inl here => exact here ▸ lt
          | inr later => exact lower z later speaks
  simpa only [byRank_cons, mem_byRank] using inserted (byRank rank xs) (byRank_sorted rank xs)

theorem decision_byRank {rank : α → κ} {d : α → Option Bool} {xs : List α} {v : Bool}
    (h : decision ((byRank rank xs).map d) = some v) :
    ∃ before top after, xs = before ++ top :: after ∧ d top = some v ∧
      (∀ x ∈ before, d x ≠ none → rank x ≤ rank top) ∧
      ∀ x ∈ after, d x ≠ none → rank x < rank top := by
  induction xs with
  | nil => cases h
  | cons x xs ih =>
    have either : decision ((byRank rank xs).map d) = some v ∧
          (d x ≠ none → ∃ y ∈ xs, d y ≠ none ∧ rank x ≤ rank y) ∨
        d x = some v ∧ ∀ y ∈ xs, d y ≠ none → rank y < rank x := by
      rcases @decision_byRank_cons α κ _ rank d x xs with ⟨covered, same⟩ | ⟨lower, over_them⟩
      · exact .inl ⟨same ▸ h, fun _ => covered⟩
      · rw [over_them] at h
        cases own : d x with
        | none =>
          rw [own, Option.none_or] at h
          exact .inl ⟨h, fun speaks => absurd rfl speaks⟩
        | some w =>
          rw [own, Option.some_or] at h
          exact .inr ⟨h, lower⟩
    rcases either with ⟨spoken, covered⟩ | ⟨own, lower⟩
    · obtain ⟨before, top, after, rfl, verdict, earlier, later⟩ := ih spoken
      refine ⟨x :: before, top, after, rfl, verdict, ?_, later⟩
      intro y hy speaks
      cases List.mem_cons.mp hy with
      | inr member => exact earlier y member speaks
      | inl here =>
        subst here
        obtain ⟨z, hz, loud, le⟩ := covered speaks
        rcases List.mem_append.mp hz with first | rest
        · exact le_trans le (earlier z first loud)
        · cases List.mem_cons.mp rest with
          | inl top => exact top ▸ le
          | inr last => exact le_trans le (le_of_lt (later z last loud))
    · exact ⟨[], x, xs, rfl, own, fun _ hy => absurd hy List.not_mem_nil, lower⟩

/-- Layers that come again later in the list decide nothing by themselves. -/
theorem decision_byRank_append {rank : α → κ} (d : α → Option Bool) {xs ys : List α}
    (again : ∀ x ∈ xs, x ∈ ys) :
    decision ((byRank rank (xs ++ ys)).map d) = decision ((byRank rank ys).map d) := by
  induction xs with
  | nil => rfl
  | cons x xs ih =>
    rw [List.cons_append, ← ih fun y hy => again y (List.mem_cons_of_mem x hy)]
    have there : x ∈ xs ++ ys := List.mem_append_right xs (again x List.mem_cons_self)
    rcases @decision_byRank_cons α κ _ rank d x (xs ++ ys) with ⟨_, same⟩ | ⟨lower, over_them⟩
    · exact same
    · cases own : d x with
      | none => rw [over_them, own, Option.none_or]
      | some w =>
        have speaks : d x ≠ none := own ▸ Option.some_ne_none w
        exact absurd (lower x there speaks) (lt_irrefl _)

end Order

def below {α : Type u} (p : α → Bool) (xs : List α) : List α := xs.takeWhile fun x => !p x

def above {α : Type u} (p : α → Bool) (xs : List α) : List α := (xs.dropWhile fun x => !p x).drop 1

theorem split_at {α : Type u} {p : α → Bool} {a : α} {xs : List α} (member : a ∈ xs)
    (only : ∀ x ∈ xs, p x = true ↔ x = a) : xs = below p xs ++ a :: above p xs := by
  induction xs with
  | nil => cases member
  | cons x xs ih =>
    by_cases here : x = a
    · have hit : p x = true := (only x List.mem_cons_self).mpr here
      rw [here] at hit ⊢
      simp [below, above, hit]
    · have miss : p x = false := by
        apply Bool.eq_false_iff.mpr
        exact fun hit => here ((only x List.mem_cons_self).mp hit)
      have tail := ih ((List.mem_cons.mp member).resolve_left (Ne.symm here))
        fun y hy => only y (List.mem_cons_of_mem x hy)
      simp only [below, above, List.takeWhile_cons, List.dropWhile_cons, miss, Bool.not_false,
        if_true, List.cons_append]
      exact congrArg (x :: ·) tail

end Layers
