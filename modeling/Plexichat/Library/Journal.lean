import Mathlib.Data.List.Basic
import Mathlib.Order.Basic
import Mathlib.Order.Nat

/-! A history of numbered effects, each of which may be refused. A snapshot at a number and
the effects after it give the same state as the whole history. -/
namespace Journal

universe u v

variable {σ : Type u} {ε : Type v} (act : ε → σ → Option σ)

def replay (first : σ) : List (Nat × ε) → Option σ
  | [] => some first
  | e :: history => (act e.2 first).bind fun s => replay s history

def upTo (history : List (Nat × ε)) (n : Nat) : List (Nat × ε) := history.filter fun e => e.1 ≤ n

def after (history : List (Nat × ε)) (n : Nat) : List (Nat × ε) := history.filter fun e => n < e.1

def stateAt (first : σ) (history : List (Nat × ε)) (n : Nat) : Option σ :=
  replay act first (upTo history n)

structure Ordered (history : List (Nat × ε)) (bound : Nat) : Prop where
  increasing : history.Pairwise fun a b => a.1 < b.1
  bounded : ∀ e ∈ history, e.1 ≤ bound

variable {act} {history : List (Nat × ε)} {bound n m : Nat} {e : ε}

theorem replay_append (first : σ) (history more : List (Nat × ε)) :
    replay act first (history ++ more) = (replay act first history).bind fun s => replay act s more := by
  induction history generalizing first with
  | nil => rfl
  | cons a history ih =>
    simp only [List.cons_append, replay, Option.bind_assoc]
    exact congrArg (act a.2 first).bind (funext ih)

theorem replay_snoc (first : σ) (history : List (Nat × ε)) (a : Nat × ε) :
    replay act first (history ++ [a]) = (replay act first history).bind (act a.2) := by
  rw [replay_append]
  exact congrArg (replay act first history).bind (funext fun s => Option.bind_fun_some _)

theorem Ordered.nil : Ordered ([] : List (Nat × ε)) bound := ⟨.nil, nofun⟩

theorem Ordered.snoc (h : Ordered history bound) (later : bound < n) :
    Ordered (history ++ [(n, e)]) n := by
  constructor
  · refine List.pairwise_append.mpr ⟨h.increasing, List.pairwise_singleton _ _, ?_⟩
    intro a old b new
    rw [List.mem_singleton.mp new]
    exact (h.bounded a old).trans_lt later
  · intro a member
    cases List.mem_append.mp member with
    | inl old => exact ((h.bounded a old).trans_lt later).le
    | inr new =>
      rw [List.mem_singleton.mp new]

theorem upTo_append_after (increasing : history.Pairwise fun a b => a.1 < b.1) (n : Nat) :
    upTo history n ++ after history n = history := by
  induction history with
  | nil => rfl
  | cons a history ih =>
    rw [List.pairwise_cons] at increasing
    have rest := ih increasing.2
    unfold upTo after at rest ⊢
    by_cases early : a.1 ≤ n
    · rw [List.filter_cons_of_pos (by simpa using early),
        List.filter_cons_of_neg (by simpa using early), List.cons_append, rest]
    · have late : ∀ b ∈ a :: history, n < b.1 := by
        intro b member
        cases List.mem_cons.mp member with
        | inl same => exact same ▸ Nat.lt_of_not_le early
        | inr tail => exact (Nat.lt_of_not_le early).trans (increasing.1 b tail)
      rw [List.filter_eq_nil_iff.mpr fun b member => by simpa using late b member,
        List.filter_eq_self.mpr fun b member => by simpa using late b member]
      rfl

theorem upTo_of_bounded (h : Ordered history bound) (within : bound ≤ n) : upTo history n = history :=
  List.filter_eq_self.mpr fun a member => by simpa using (h.bounded a member).trans within

theorem after_of_bounded (h : Ordered history bound) (within : bound ≤ n) : after history n = [] :=
  List.filter_eq_nil_iff.mpr fun a member => by simpa using (h.bounded a member).trans within

theorem stateAt_of_bounded (first : σ) (h : Ordered history bound) (within : bound ≤ n) :
    stateAt act first history n = replay act first history := by
  unfold stateAt
  rw [upTo_of_bounded h within]

theorem replay_after {first s : σ} (increasing : history.Pairwise fun a b => a.1 < b.1)
    (snapshot : stateAt act first history n = some s) :
    replay act s (after history n) = replay act first history := by
  calc replay act s (after history n)
      = (stateAt act first history n).bind fun s => replay act s (after history n) := by
        rw [snapshot, Option.bind_some]
    _ = replay act first (upTo history n ++ after history n) := (replay_append ..).symm
    _ = replay act first history := by rw [upTo_append_after increasing]

theorem stateAt_snoc_old (first : σ) (earlier : m < n) :
    stateAt act first (history ++ [(n, e)]) m = stateAt act first history m := by
  have dropped : upTo (history ++ [(n, e)]) m = upTo history m := by
    unfold upTo
    rw [List.filter_append, List.filter_cons_of_neg (by simpa using earlier), List.filter_nil,
      List.append_nil]
  unfold stateAt
  rw [dropped]

theorem stateAt_snoc (first : σ) (h : Ordered history bound) (later : bound < n) :
    stateAt act first (history ++ [(n, e)]) n = (stateAt act first history bound).bind (act e) := by
  rw [stateAt_of_bounded first (h.snoc later) le_rfl, stateAt_of_bounded first h le_rfl,
    replay_snoc]

theorem after_snoc (earlier : m < n) :
    after (history ++ [(n, e)]) m = after history m ++ [(n, e)] := by
  unfold after
  rw [List.filter_append, List.filter_cons_of_pos (by simpa using earlier), List.filter_nil]

theorem after_after (h : n ≤ m) : after (after history n) m = after history m := by
  unfold after
  rw [List.filter_filter]
  refine List.filter_congr fun a _ => ?_
  rw [← Bool.decide_and, decide_eq_decide]
  exact ⟨fun both => both.1, fun late => ⟨late, h.trans_lt late⟩⟩

end Journal
