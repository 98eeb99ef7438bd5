import Plexichat.Threads.Operations

/-! Slowmode in a thread. The last-send time is read, compared and cached by separate statements, and
it comes from the links that are left once the cache has expired. -/
namespace Plexichat.Threads
open Transition

variable {ι υ : Type} [DecidableEq ι]

def Spaced (interval : Nat) (times : List Nat) : Prop :=
  times.Pairwise fun later earlier => earlier + interval ≤ later

structure Paced (interval : Nat) (u : υ) (s : Interleaving.State ι (Shared υ) (Phase υ)) : Prop where
  spaced : Spaced interval (s.shared.sent u)
  past : ∀ t ∈ s.shared.sent u, t ≤ s.shared.clock
  idle : ∀ i, s.pc i = .idle

def Phase.underway (u : υ) : Phase υ → Prop
  | .allowed v _ | .stamped v _ => v = u
  | _ => False

/-- Where a check of the user passes, no message of the user is newer than the time it has read
(unless it is old enough all the same), and no other message of the user is under way. -/
def SeesNewest (interval : Nat) (u : υ) (s : Interleaving.State ι (Shared υ) (Phase υ))
    (a : ι × Action υ) : Prop :=
  match s.pc a.1, a.2 with
  | .found v now last, .compare => v = u → last + interval ≤ now →
      (∀ t ∈ s.shared.sent u, t ≤ last ∨ t + interval ≤ now) ∧
        ∀ j, j ≠ a.1 → ¬(s.pc j).underway u
  | _, _ => True

section Passages

variable {thread : Thread υ} {c : Shared υ} {p : Phase υ} {a : Action υ} {r : Shared υ × Phase υ}

def Phase.asked : Phase υ → Option (υ × Nat)
  | .checking u now | .uncached u now | .found u now _ => some (u, now)
  | _ => none

def Phase.outside : Phase υ → Prop
  | .checking _ _ | .uncached _ _ | .found _ _ _ | .allowed _ _ | .stamped _ _ => False
  | _ => True

inductive Passage (thread : Thread υ) (c : Shared υ) :
    Phase υ → Action υ → Shared υ × Phase υ → Prop
  | waits {p : Phase υ} {a : Action υ} {d : Shared υ} (clock : c.clock ≤ d.clock)
      (sent : d.sent = c.sent) : Passage thread c p a (d, p)
  | leaves {p q : Phase υ} {a : Action υ} {d : Shared υ} (clock : d.clock = c.clock)
      (sent : d.sent = c.sent) (phase : q.outside) : Passage thread c p a (d, q)
  | exempt {u : υ} (free : thread.manages u || thread.interval = 0) :
      Passage thread c (.sending u) .checkSlowmode (c, .allowed u c.clock)
  | begins {u : υ} : Passage thread c (.sending u) .checkSlowmode (c, .checking u c.clock)
  | looks {p q : Phase υ} {a : Action υ} {w : υ × Nat} (before : p.asked = some w)
      (after : q.asked = some w) : Passage thread c p a (c, q)
  | passes {u : υ} {now last : Nat} (spaced : last + thread.interval ≤ now)
      {lastSent : υ → Option Nat} :
      Passage thread c (.found u now last) .compare ({ c with lastSent }, .allowed u now)
  | stamps {u : υ} {now : Nat} : Passage thread c (.allowed u now) .takeTime (c, .stamped u c.clock)
  | links {u : υ} {now id message : Nat} {d : Shared υ} (clock : d.clock = c.clock)
      (own : d.sent u = now :: c.sent u) (others : ∀ v, v ≠ u → d.sent v = c.sent v) :
      Passage thread c (.stamped u now) (.insertLink id message) (d, .linked u now)

theorem passage_of_next [DecidableEq υ] (moved : next thread c p a = some r) :
    Passage thread c p a r := by
  cases a with
  | tick ms =>
    cases moved
    exact .waits (Nat.le_add_right _ _) rfl
  | expire u =>
    cases moved
    exact .waits (Nat.le_refl _) rfl
  | joinThread u permitted =>
    cases p with
    | idle =>
      simp only [next] at moved
      split at moved <;> cases moved <;> exact .leaves rfl rfl trivial
    | _ => cases moved
  | addMember u target permitted =>
    cases p with
    | idle =>
      simp only [next] at moved
      split at moved <;> cases moved <;> exact .leaves rfl rfl trivial
    | _ => cases moved
  | leaveThread u permitted =>
    cases p with
    | idle =>
      simp only [next] at moved
      split at moved <;> cases moved <;> exact .leaves rfl rfl trivial
    | _ => cases moved
  | removeMember u target permitted =>
    cases p with
    | idle =>
      simp only [next] at moved
      split at moved <;> cases moved <;> exact .leaves rfl rfl trivial
    | _ => cases moved
  | sendMessage u permitted =>
    cases p with
    | idle =>
      simp only [next] at moved
      split at moved
      · split at moved <;> cases moved <;> exact .leaves rfl rfl trivial
      · cases moved
        exact .leaves rfl rfl trivial
    | _ => cases moved
  | removeMessage u message =>
    cases p with
    | idle =>
      simp only [next] at moved
      split at moved
      · cases moved
        exact .leaves rfl rfl trivial
      · split at moved <;> cases moved <;> exact .leaves rfl rfl trivial
    | _ => cases moved
  | unlinkDeletedMessage message =>
    cases p with
    | idle =>
      simp only [next] at moved
      split at moved <;> cases moved <;> exact .leaves rfl rfl trivial
    | _ => cases moved
  | insertMember =>
    cases p with
    | inserting u sends =>
      simp only [next] at moved
      split at moved <;> cases moved <;> exact .leaves rfl rfl trivial
    | _ => cases moved
  | deleteMember =>
    cases p with
    | deleting u =>
      cases moved
      exact .leaves rfl rfl trivial
    | _ => cases moved
  | countMembers =>
    cases p with
    | changed u sends =>
      cases moved
      exact .leaves rfl rfl trivial
    | _ => cases moved
  | writeMemberCount =>
    cases p with
    | counted u n sends =>
      cases moved
      cases sends <;> exact .leaves rfl rfl trivial
    | _ => cases moved
  | getMember =>
    cases p with
    | joined u =>
      simp only [next] at moved
      split at moved <;> cases moved <;> exact .leaves rfl rfl trivial
    | _ => cases moved
  | checkSlowmode =>
    cases p with
    | sending u =>
      simp only [next] at moved
      split at moved
      · rename_i free
        cases moved
        exact .exempt free
      · cases moved
        exact .begins
    | _ => cases moved
  | readCache =>
    cases p with
    | checking u now =>
      simp only [next] at moved
      split at moved <;> cases moved <;> exact .looks rfl rfl
    | _ => cases moved
  | readLinks =>
    cases p with
    | uncached u now =>
      cases moved
      exact .looks rfl rfl
    | _ => cases moved
  | compare =>
    cases p with
    | found u now last =>
      simp only [next] at moved
      split at moved
      · rename_i spaced
        cases moved
        exact .passes spaced
      · cases moved
        exact .leaves rfl rfl trivial
    | _ => cases moved
  | takeTime =>
    cases p with
    | allowed u now =>
      cases moved
      exact .stamps
    | counts u =>
      cases moved
      exact .leaves rfl rfl trivial
    | _ => cases moved
  | refuse =>
    cases p with
    | allowed u now =>
      cases moved
      exact .leaves rfl rfl trivial
    | stamped u now =>
      cases moved
      exact .leaves rfl rfl trivial
    | counts u =>
      cases moved
      exact .leaves rfl rfl trivial
    | _ => cases moved
  | insertLink id message =>
    cases p with
    | stamped u now =>
      simp only [next] at moved
      split at moved
      · cases moved
        exact .leaves rfl rfl trivial
      · cases moved
        exact .links rfl (by simp) fun v other => by simp [other]
    | _ => cases moved
  | addMessage =>
    cases p with
    | linked u now =>
      cases moved
      exact .leaves rfl rfl trivial
    | _ => cases moved
  | recordMessageSent =>
    cases p with
    | recording u now =>
      cases moved
      exact .leaves rfl rfl trivial
    | _ => cases moved
  | deleteLink =>
    cases p with
    | unlinking ids hits =>
      cases ids with
      | nil => cases moved
      | cons id ids =>
        cases moved
        refine .leaves rfl rfl ?_
        split <;> trivial
    | _ => cases moved
  | decrement =>
    cases p with
    | removed hits =>
      cases moved
      exact .leaves rfl rfl trivial
    | _ => cases moved
  | readLastMessageAt =>
    cases p with
    | recounting =>
      cases moved
      exact .leaves rfl rfl trivial
    | _ => cases moved

end Passages

section Spacing

variable {thread : Thread υ} {c : Shared υ} {p : Phase υ} {u : υ}

structure Kept (interval : Nat) (u : υ) (c : Shared υ) : Prop where
  spaced : Spaced interval (c.sent u)
  past : ∀ t ∈ c.sent u, t ≤ c.clock

def Distant (interval : Nat) (u : υ) (c : Shared υ) : Phase υ → Prop
  | .checking _ now | .uncached _ now | .found _ now _ => now ≤ c.clock
  | .allowed v now | .stamped v now =>
    now ≤ c.clock ∧ (v = u → ∀ t ∈ c.sent u, t + interval ≤ now)
  | _ => True

def Alone (u : υ) (p q : Phase υ) : Prop := ¬(p.underway u ∧ q.underway u)

theorem Distant.carry {interval : Nat} {d : Shared υ} (distant : Distant interval u c p)
    (clock : c.clock ≤ d.clock) (sent : p.underway u → d.sent u = c.sent u) :
    Distant interval u d p := by
  cases p with
  | checking v now => exact Nat.le_trans distant clock
  | uncached v now => exact Nat.le_trans distant clock
  | found v now last => exact Nat.le_trans distant clock
  | allowed v now =>
    refine ⟨Nat.le_trans distant.1 clock, fun own => ?_⟩
    rw [sent own]
    exact distant.2 own
  | stamped v now =>
    refine ⟨Nat.le_trans distant.1 clock, fun own => ?_⟩
    rw [sent own]
    exact distant.2 own
  | _ => trivial

theorem Phase.outside.distant {interval : Nat} (outside : p.outside) : Distant interval u c p := by
  cases p <;> trivial

theorem Phase.outside.not_underway (outside : p.outside) : ¬p.underway u := by
  cases p <;> simp_all [Phase.outside, Phase.underway]

theorem asked_distant {interval now : Nat} {v : υ} (asked : p.asked = some (v, now)) :
    Distant interval u c p ↔ now ≤ c.clock := by
  cases p with
  | checking w t => cases asked; rfl
  | uncached w t => cases asked; rfl
  | found w t last => cases asked; rfl
  | _ => cases asked

theorem asked_not_underway {w : υ × Nat} (asked : p.asked = some w) : ¬p.underway u := by
  cases p <;> simp_all [Phase.asked, Phase.underway]

theorem Passage.keeps {a : Action υ} {r : Shared υ × Phase υ} (passage : Passage thread c p a r)
    (limited : thread.manages u = false) (positive : 0 < thread.interval)
    (kept : Kept thread.interval u c) (own : Distant thread.interval u c p)
    (sees : ∀ v now last, p = .found v now last → a = .compare → v = u →
      last + thread.interval ≤ now → ∀ t ∈ c.sent u, t ≤ last ∨ t + thread.interval ≤ now) :
    Kept thread.interval u r.1 ∧ Distant thread.interval u r.1 r.2 ∧ c.clock ≤ r.1.clock ∧
      (r.1.sent u = c.sent u ∨ p.underway u) := by
  have same : ∀ d : Shared υ, c.clock ≤ d.clock → d.sent = c.sent → Kept thread.interval u d := by
    intro d clock sent
    refine ⟨?_, ?_⟩
    · rw [sent]
      exact kept.spaced
    · intro t member
      rw [sent] at member
      exact Nat.le_trans (kept.past t member) clock
  cases passage with
  | waits clock sent =>
    exact ⟨same _ clock sent, own.carry clock fun _ => congrFun sent u, clock, .inl (congrFun sent u)⟩
  | leaves clock sent phase =>
    have later := Nat.le_of_eq clock.symm
    exact ⟨same _ later sent, phase.distant, later, .inl (congrFun sent u)⟩
  | @exempt v free =>
    refine ⟨kept, ⟨Nat.le_refl _, ?_⟩, Nat.le_refl _, .inl rfl⟩
    rintro rfl
    simp [limited, Nat.ne_of_gt positive] at free
  | begins => exact ⟨kept, Nat.le_refl c.clock, Nat.le_refl _, .inl rfl⟩
  | looks before after =>
    have past := (asked_distant before).mp own
    exact ⟨kept, (asked_distant after).mpr past, Nat.le_refl _, .inl rfl⟩
  | passes spaced =>
    refine ⟨same _ (Nat.le_refl _) rfl, ⟨own, ?_⟩, Nat.le_refl _, .inl rfl⟩
    intro same_user t member
    rcases sees _ _ _ rfl rfl same_user spaced t member with older | old
    · omega
    · exact old
  | stamps =>
    refine ⟨kept, ⟨Nat.le_refl _, ?_⟩, Nat.le_refl _, .inl rfl⟩
    intro same_user t member
    exact Nat.le_trans (own.2 same_user t member) own.1
  | @links v now id message d clock sent others =>
    have later := Nat.le_of_eq clock.symm
    by_cases same_user : v = u
    · subst same_user
      refine ⟨⟨?_, ?_⟩, trivial, later, .inr rfl⟩
      · rw [sent]
        exact List.pairwise_cons.mpr ⟨own.2 rfl, kept.spaced⟩
      · intro t member
        rw [sent] at member
        rw [clock]
        rcases List.mem_cons.mp member with rfl | earlier
        · exact own.1
        · exact kept.past t earlier
    · have unchanged := others u (Ne.symm same_user)
      refine ⟨⟨?_, ?_⟩, trivial, later, .inl unchanged⟩
      · rw [unchanged]
        exact kept.spaced
      · intro t member
        rw [unchanged] at member
        exact Nat.le_trans (kept.past t member) later

/-- A call has a message of the user under way only if it had, or if its check has just passed. -/
theorem Passage.underway {a : Action υ} {r : Shared υ × Phase υ} (passage : Passage thread c p a r)
    (limited : thread.manages u = false) (positive : 0 < thread.interval)
    (under : r.2.underway u) :
    p.underway u ∨ ∃ now last, p = .found u now last ∧ a = .compare ∧
      last + thread.interval ≤ now := by
  cases passage with
  | waits => exact .inl under
  | leaves _ _ phase => exact absurd under phase.not_underway
  | @exempt v free =>
    have same_user : v = u := under
    simp [same_user, limited, Nat.ne_of_gt positive] at free
  | begins => exact under.elim
  | looks _ after => exact absurd under (asked_not_underway after)
  | @passes v now last spaced =>
    have same_user : v = u := under
    exact .inr ⟨now, last, by rw [same_user], rfl, spaced⟩
  | stamps => exact .inl under
  | links => exact under.elim

end Spacing

section SixHours

def slow : Thread Nat := ⟨21600000, fun _ => false⟩

def quiet : Interleaving.State Bool (Shared Nat) (Phase Nat) :=
  ⟨⟨1000000000000, ⟨[⟨1, 0⟩], by decide⟩, .empty, 1, 0, none, fun _ => none, fun _ => []⟩,
    fun _ => .idle⟩

theorem quiet_paced : Paced 21600000 1 quiet := ⟨.nil, by simp [quiet], fun _ => rfl⟩

def asks (i : Bool) : List (Bool × Action Nat) :=
  [(i, .sendMessage 1 true), (i, .checkSlowmode), (i, .readCache), (i, .readLinks)]

def sends (i : Bool) (id message : Nat) : List (Bool × Action Nat) :=
  [(i, .compare), (i, .takeTime), (i, .insertLink id message)]

def finishes (i : Bool) : List (Bool × Action Nat) :=
  [(i, .addMessage), (i, .takeTime), (i, .recordMessageSent)]

def removes (i : Bool) (message : Nat) : List (Bool × Action Nat) :=
  [(i, .removeMessage 1 message), (i, .deleteLink), (i, .decrement), (i, .readLastMessageAt)]

def sendAgain : List (Bool × Action Nat) :=
  asks true ++ sends true 1 10 ++ finishes true ++ removes true 10 ++
    [(true, .tick 301000), (true, .expire 1)] ++ asks true ++ sends true 2 20

def sendTwice : List (Bool × Action Nat) :=
  asks true ++ asks false ++ sends true 1 10 ++ sends false 2 20

theorem too_close {later earlier : Nat} (close : later < earlier + 21600000) :
    ¬Spaced 21600000 [later, earlier] := by
  intro spaced
  have apart := (List.pairwise_cons.mp spaced).1 earlier (List.mem_singleton.mpr rfl)
  omega

end SixHours

end Plexichat.Threads
