import Plexichat.Threads.Operations

/-! The counters of a thread. member_count is a count of the rows that is written afterwards, and
message_count moves by one after each insert and each delete, whether the delete has found its row
or not. -/
namespace Plexichat.Threads
open Transition

variable {ι υ : Type} [DecidableEq ι]

abbrev Calls (ι υ : Type) := Interleaving.State ι (Shared υ) (Phase υ)

def Exact (c : Shared υ) : Prop :=
  c.memberCount = c.members.rows.length ∧ c.messageCount = c.links.rows.length

structure Counted (s : Calls ι υ) : Prop where
  exact : Exact s.shared
  idle : ∀ i, s.pc i = .idle

def Owes (c : Shared υ) : Phase υ → Prop
  | .changed _ _ => True
  | .counted _ n _ => n = c.members.rows.length
  | _ => False

/-- A call writes the number of member rows, or another call will. A call that takes one message
off has itself deleted one link, and the counter is not 0. -/
def Settles (s : Calls ι υ) (a : ι × Action υ) : Prop :=
  match s.pc a.1, a.2 with
  | .counted _ n _, .writeMemberCount =>
    n = s.shared.members.rows.length ∨ ∃ j, j ≠ a.1 ∧ Owes s.shared (s.pc j)
  | .removed hits, .decrement => hits = 1 ∧ 0 < s.shared.messageCount
  | _, _ => True

section Effects

def Phase.plain : Phase υ → Prop
  | .changed _ _ | .counted _ _ _ | .linked _ _ => False
  | .unlinking _ hits | .removed hits => hits = 0
  | _ => True

inductive Effect (c : Shared υ) : Phase υ → Action υ → Shared υ × Phase υ → Prop
  | frame {p q : Phase υ} {a : Action υ} {d : Shared υ} (members : d.members = c.members)
      (memberCount : d.memberCount = c.memberCount) (links : d.links = c.links)
      (messageCount : d.messageCount = c.messageCount) (phase : q = p ∨ p.plain ∧ q.plain) :
      Effect c p a (d, q)
  | rows {p : Phase υ} {a : Action υ} {members : Table (Member υ) Member.user} {u : υ} {sends : Bool}
      (plain : p.plain) : Effect c p a ({ c with members }, .changed u sends)
  | count {u : υ} {sends : Bool} :
      Effect c (.changed u sends) .countMembers (c, .counted u c.members.rows.length sends)
  | write {u : υ} {n : Nat} {sends : Bool} {q : Phase υ} (plain : q.plain) :
      Effect c (.counted u n sends) .writeMemberCount ({ c with memberCount := n }, q)
  | link {u : υ} {now id message : Nat} {links : Table (Link υ) Link.id} {sent : υ → List Nat}
      (inserted : c.links.insert ⟨id, message, u, now⟩ = some links) :
      Effect c (.stamped u now) (.insertLink id message) ({ c with links, sent }, .linked u now)
  | add {u : υ} {now : Nat} {lastMessageAt : Option Nat} :
      Effect c (.linked u now) .addMessage
        ({ c with messageCount := c.messageCount + 1, lastMessageAt }, .counts u)
  | unlink {id hits : Nat} {ids : List Nat} {q : Phase υ}
      (after : q = .removed (if (c.links.find id).isSome then hits + 1 else hits) ∨
        q = .unlinking ids (if (c.links.find id).isSome then hits + 1 else hits)) :
      Effect c (.unlinking (id :: ids) hits) .deleteLink
        ({ c with links := c.links.delete fun l => l.id = id }, q)
  | decrement {hits : Nat} :
      Effect c (.removed hits) .decrement
        ({ c with messageCount := c.messageCount - 1 }, .recounting)

variable {c : Shared υ} {p : Phase υ} {a : Action υ} {r : Shared υ × Phase υ}

theorem Effect.reads {q : Phase υ} (before : p.plain) (after : q.plain) : Effect c p a (c, q) :=
  .frame rfl rfl rfl rfl (.inr ⟨before, after⟩)

theorem effect_of_next [DecidableEq υ] {thread : Thread υ} (moved : next thread c p a = some r) : Effect c p a r := by
  cases a with
  | tick ms =>
    cases moved
    exact .frame rfl rfl rfl rfl (.inl rfl)
  | expire u =>
    cases moved
    exact .frame rfl rfl rfl rfl (.inl rfl)
  | joinThread u permitted =>
    cases p with
    | idle =>
      simp only [next] at moved
      split at moved <;> cases moved <;> exact .reads trivial trivial
    | _ => cases moved
  | addMember u target permitted =>
    cases p with
    | idle =>
      simp only [next] at moved
      split at moved <;> cases moved <;> exact .reads trivial trivial
    | _ => cases moved
  | leaveThread u permitted =>
    cases p with
    | idle =>
      simp only [next] at moved
      split at moved <;> cases moved <;> exact .reads trivial trivial
    | _ => cases moved
  | removeMember u target permitted =>
    cases p with
    | idle =>
      simp only [next] at moved
      split at moved <;> cases moved <;> exact .reads trivial trivial
    | _ => cases moved
  | sendMessage u permitted =>
    cases p with
    | idle =>
      simp only [next] at moved
      split at moved
      · split at moved <;> cases moved <;> exact .reads trivial trivial
      · cases moved
        exact .reads trivial trivial
    | _ => cases moved
  | removeMessage u message =>
    cases p with
    | idle =>
      simp only [next] at moved
      split at moved
      · cases moved
        exact .reads trivial trivial
      · split at moved
        · cases moved
          exact .reads trivial rfl
        · cases moved
          exact .reads trivial trivial
    | _ => cases moved
  | unlinkDeletedMessage message =>
    cases p with
    | idle =>
      simp only [next] at moved
      split at moved
      · cases moved
        exact .reads trivial trivial
      · cases moved
        exact .reads trivial rfl
    | _ => cases moved
  | insertMember =>
    cases p with
    | inserting u sends =>
      simp only [next] at moved
      split at moved
      · cases moved
        exact .reads trivial trivial
      · cases moved
        exact .rows trivial
    | _ => cases moved
  | deleteMember =>
    cases p with
    | deleting u =>
      cases moved
      exact .rows trivial
    | _ => cases moved
  | countMembers =>
    cases p with
    | changed u sends =>
      cases moved
      exact .count
    | _ => cases moved
  | writeMemberCount =>
    cases p with
    | counted u n sends =>
      cases moved
      apply Effect.write
      split <;> trivial
    | _ => cases moved
  | getMember =>
    cases p with
    | joined u =>
      simp only [next] at moved
      split at moved <;> cases moved <;> exact .reads trivial trivial
    | _ => cases moved
  | checkSlowmode =>
    cases p with
    | sending u =>
      simp only [next] at moved
      split at moved <;> cases moved <;> exact .reads trivial trivial
    | _ => cases moved
  | readCache =>
    cases p with
    | checking u now =>
      simp only [next] at moved
      split at moved <;> cases moved <;> exact .reads trivial trivial
    | _ => cases moved
  | readLinks =>
    cases p with
    | uncached u now =>
      cases moved
      exact .reads trivial trivial
    | _ => cases moved
  | compare =>
    cases p with
    | found u now last =>
      simp only [next] at moved
      split at moved <;> cases moved <;> exact .frame rfl rfl rfl rfl (.inr ⟨trivial, trivial⟩)
    | _ => cases moved
  | takeTime =>
    cases p with
    | allowed u now =>
      cases moved
      exact .reads trivial trivial
    | counts u =>
      cases moved
      exact .reads trivial trivial
    | _ => cases moved
  | refuse =>
    cases p with
    | allowed u now =>
      cases moved
      exact .reads trivial trivial
    | stamped u now =>
      cases moved
      exact .reads trivial trivial
    | counts u =>
      cases moved
      exact .reads trivial trivial
    | _ => cases moved
  | insertLink id message =>
    cases p with
    | stamped u now =>
      simp only [next] at moved
      split at moved
      · cases moved
        exact .reads trivial trivial
      · rename_i links inserted
        cases moved
        exact .link inserted
    | _ => cases moved
  | addMessage =>
    cases p with
    | linked u now =>
      cases moved
      exact .add
    | _ => cases moved
  | recordMessageSent =>
    cases p with
    | recording u now =>
      cases moved
      exact .frame rfl rfl rfl rfl (.inr ⟨trivial, trivial⟩)
    | _ => cases moved
  | deleteLink =>
    cases p with
    | unlinking ids hits =>
      cases ids with
      | nil => cases moved
      | cons id ids =>
        cases moved
        apply Effect.unlink
        split
        · exact .inl rfl
        · exact .inr rfl
    | _ => cases moved
  | decrement =>
    cases p with
    | removed hits =>
      cases moved
      exact .decrement
    | _ => cases moved
  | readLastMessageAt =>
    cases p with
    | recounting =>
      cases moved
      exact .frame rfl rfl rfl rfl (.inr ⟨trivial, trivial⟩)
    | _ => cases moved

end Effects

section Members

variable {c : Shared υ} {p : Phase υ}

theorem Phase.plain.owes_nothing (plain : p.plain) : ¬Owes c p := by
  cases p <;> simp_all [Phase.plain, Owes]

theorem Owes.carry {d : Shared υ} (members : d.members = c.members) (owes : Owes c p) :
    Owes d p := by
  cases p with
  | changed => trivial
  | counted u n sends => exact owes.trans (by rw [members])
  | _ => exact owes

/-- member_count is exact, or a call will make it so. -/
def MembersKept (s : Calls ι υ) : Prop :=
  s.shared.memberCount = s.shared.members.rows.length ∨ ∃ i, Owes s.shared (s.pc i)

theorem MembersKept.owing {s : Calls ι υ} {i : ι} {d : Shared υ} {q : Phase υ} (owes : Owes d q) :
    MembersKept (s.after i (d, q)) := by
  right
  refine ⟨i, ?_⟩
  rw [Interleaving.after_self]
  exact owes

theorem MembersKept.other {s : Calls ι υ} {i j : ι} {d : Shared υ} {q : Phase υ} (other : j ≠ i)
    (owes : Owes d (s.pc j)) : MembersKept (s.after i (d, q)) := by
  right
  refine ⟨j, ?_⟩
  rw [Interleaving.after_other s other]
  exact owes

theorem MembersKept.carry {s : Calls ι υ} (kept : MembersKept s) {i : ι} {d : Shared υ} {q : Phase υ}
    (members : d.members = s.shared.members) (memberCount : d.memberCount = s.shared.memberCount)
    (own : Owes s.shared (s.pc i) → Owes d q) : MembersKept (s.after i (d, q)) := by
  rcases kept with exact | ⟨j, owes⟩
  · left
    show d.memberCount = d.members.rows.length
    rw [memberCount, members, exact]
  · by_cases here : j = i
    · subst here
      exact .owing (own owes)
    · exact .other here (owes.carry members)

theorem MembersKept.step {s : Calls ι υ} (kept : MembersKept s) {i : ι} {a : Action υ}
    {r : Shared υ × Phase υ} (settles : Settles s (i, a)) (effect : Effect s.shared (s.pc i) a r) :
    MembersKept (s.after i r) := by
  unfold Settles at settles
  generalize place : s.pc i = p at effect settles
  cases effect with
  | frame members memberCount _ _ phase =>
    apply kept.carry members memberCount
    rw [place]
    rcases phase with rfl | ⟨plain, -⟩
    · exact Owes.carry members
    · exact fun owes => absurd owes plain.owes_nothing
  | rows => exact .owing trivial
  | count => exact .owing rfl
  | write =>
    rcases settles with exact | ⟨j, other, owes⟩
    · exact .inl exact
    · exact .other other (owes.carry rfl)
  | link => exact kept.carry rfl rfl (place ▸ False.elim)
  | add => exact kept.carry rfl rfl (place ▸ False.elim)
  | unlink => exact kept.carry rfl rfl (place ▸ False.elim)
  | decrement => exact kept.carry rfl rfl (place ▸ False.elim)

end Members

section Messages

variable {c : Shared υ} {p : Phase υ} {a : Action υ} {r : Shared υ × Phase υ}

def Phase.ahead : Phase υ → Nat
  | .linked _ _ => 1
  | _ => 0

def Phase.behind : Phase υ → Nat
  | .unlinking _ hits | .removed hits => hits
  | _ => 0

theorem Phase.plain.balanced (plain : p.plain) : p.ahead = 0 ∧ p.behind = 0 := by
  cases p <;> simp_all [Phase.plain, Phase.ahead, Phase.behind]

theorem Effect.balance (effect : Effect c p a r)
    (settles : ∀ hits, p = .removed hits → a = .decrement → hits = 1 ∧ 0 < c.messageCount) :
    r.1.links.rows.length + r.2.behind + (c.messageCount + p.ahead) =
      r.1.messageCount + r.2.ahead + (c.links.rows.length + p.behind) := by
  cases effect with
  | frame _ _ links messageCount phase =>
    dsimp only
    rw [links, messageCount]
    rcases phase with rfl | ⟨before, after⟩
    · omega
    · rw [before.balanced.1, before.balanced.2, after.balanced.1, after.balanced.2]
      omega
  | rows plain =>
    rw [plain.balanced.1, plain.balanced.2]
    simp only [Phase.ahead, Phase.behind]
    omega
  | count =>
    simp only [Phase.ahead, Phase.behind]
    omega
  | write plain =>
    dsimp only
    rw [plain.balanced.1, plain.balanced.2]
    simp only [Phase.ahead, Phase.behind]
    omega
  | link inserted =>
    have one_more := congrArg List.length (Table.insert_eq_some inserted).2
    simp only [List.length_append, List.length_singleton] at one_more
    simp only [Phase.ahead, Phase.behind]
    omega
  | add =>
    simp only [Phase.ahead, Phase.behind]
    omega
  | @unlink id hits ids q after =>
    have fewer := Table.length_delete c.links id
    have hit : q.behind = hits + (if (c.links.find id).isSome then 1 else 0) ∧ q.ahead = 0 := by
      rcases after with rfl | rfl <;> simp only [Phase.behind, Phase.ahead] <;> split <;> simp
    dsimp only
    rw [hit.1, hit.2]
    simp only [Phase.ahead, Phase.behind]
    omega
  | decrement =>
    obtain ⟨one, counted⟩ := settles _ rfl rfl
    simp only [one, Phase.ahead, Phase.behind]
    omega

variable [Fintype ι]

/-- The links that are deleted and still counted make up for those inserted and not counted. -/
def MessagesKept (s : Calls ι υ) : Prop :=
  s.shared.links.rows.length + Interleaving.tally Phase.behind s =
    s.shared.messageCount + Interleaving.tally Phase.ahead s

theorem MessagesKept.step {s : Calls ι υ} (kept : MessagesKept s) {i : ι} (settles : Settles s (i, a))
    (effect : Effect s.shared (s.pc i) a r) : MessagesKept (s.after i r) := by
  have balance := effect.balance fun hits place act => by
    simpa only [Settles, place, act] using settles
  have behind := Interleaving.tally_after Phase.behind s i r
  have ahead := Interleaving.tally_after Phase.ahead s i r
  have before : s.shared.links.rows.length + Interleaving.tally Phase.behind s =
      s.shared.messageCount + Interleaving.tally Phase.ahead s := kept
  show r.1.links.rows.length + Interleaving.tally Phase.behind (s.after i r) =
    r.1.messageCount + Interleaving.tally Phase.ahead (s.after i r)
  omega

end Messages

omit [DecidableEq ι] in
theorem idle_tallies [Fintype ι] {s : Calls ι υ} (idle : ∀ i, s.pc i = .idle) :
    Interleaving.tally Phase.ahead s = 0 ∧ Interleaving.tally Phase.behind s = 0 :=
  ⟨Finset.sum_eq_zero fun i _ => congrArg Phase.ahead (idle i),
    Finset.sum_eq_zero fun i _ => congrArg Phase.behind (idle i)⟩

/-- In every run that meets the condition, the counters are exact when all calls have finished. -/
theorem counters_exact [DecidableEq υ] [Fintype ι] {thread : Thread υ} {s : Calls ι υ}
    (h : Guarded (Interleaving.step (next thread)) Settles Counted s)
    (finished : ∀ i, s.pc i = .idle) : Exact s.shared := by
  have kept : MembersKept s ∧ MessagesKept s := by
    refine guarded_invariant (I := fun s => MembersKept s ∧ MessagesKept s) ?_ ?_ h
    · intro s start
      obtain ⟨none_ahead, none_behind⟩ := idle_tallies start.idle
      refine ⟨.inl start.exact.1, ?_⟩
      rw [MessagesKept, none_ahead, none_behind]
      exact start.exact.2.symm
    · intro s a t kept settles moved
      obtain ⟨r, local_step, rfl⟩ := Interleaving.step_eq_some.mp moved
      have effect := effect_of_next local_step
      exact ⟨kept.1.step settles effect, kept.2.step settles effect⟩
  obtain ⟨none_ahead, none_behind⟩ := idle_tallies finished
  constructor
  · rcases kept.1 with exact | ⟨i, owes⟩
    · exact exact
    · rw [finished i] at owes
      exact owes.elim
  · have balance := kept.2
    rw [MessagesKept, none_ahead, none_behind] at balance
    exact balance.symm

section Races

def unlimited : Thread Nat := ⟨0, fun _ => false⟩

def begin (links : Table (Link Nat) Link.id) (messageCount : Nat) : Calls Bool Nat :=
  ⟨⟨0, .empty, links, 0, messageCount, none, fun _ => none, fun _ => []⟩, fun _ => .idle⟩

def twoLinks : Table (Link Nat) Link.id := ⟨[⟨1, 10, 1, 0⟩, ⟨2, 20, 1, 0⟩], by decide⟩

def joins : List (Bool × Action Nat) :=
  [(true, .joinThread 1 true), (true, .insertMember), (true, .countMembers),
    (false, .joinThread 2 true), (false, .insertMember), (false, .countMembers),
    (false, .writeMemberCount), (true, .writeMemberCount)]

def removals : List (Bool × Action Nat) :=
  [(true, .removeMessage 1 10), (false, .removeMessage 1 10), (true, .deleteLink),
    (false, .deleteLink), (true, .decrement), (false, .decrement), (true, .readLastMessageAt),
    (false, .readLastMessageAt)]

theorem begin_counted : Counted (begin .empty 0) ∧ Counted (begin twoLinks 2) :=
  ⟨⟨⟨rfl, rfl⟩, fun _ => rfl⟩, ⟨⟨rfl, rfl⟩, fun _ => rfl⟩⟩

theorem counters_drift :
    (∃ s : Calls Bool Nat, Reachable (Interleaving.step (next unlimited)) Counted s ∧
      (∀ i, s.pc i = .idle) ∧ s.shared.memberCount = 1 ∧ s.shared.members.rows.length = 2) ∧
    ∃ s : Calls Bool Nat, Reachable (Interleaving.step (next unlimited)) Counted s ∧
      (∀ i, s.pc i = .idle) ∧ s.shared.messageCount = 0 ∧ s.shared.links.rows.length = 1 := by
  constructor
  · refine ⟨_, reachable_of_run joins begin_counted.1 rfl, ?_, rfl, rfl⟩
    intro i
    cases i <;> rfl
  · refine ⟨_, reachable_of_run removals begin_counted.2 rfl, ?_, rfl, rfl⟩
    intro i
    cases i <;> rfl

theorem counters_exact_join : ∃ s : Calls Bool Nat, s.shared.memberCount = 1 ∧ Exact s.shared := by
  have start : Guarded (Interleaving.step (next unlimited)) Settles Counted (begin .empty 0) :=
    .start begin_counted.1
  have joined := start.step (a := (true, Action.joinThread 1 true)) trivial rfl
  have inserted := joined.step (a := (true, Action.insertMember)) trivial rfl
  have counted := inserted.step (a := (true, Action.countMembers)) trivial rfl
  have written := counted.step (a := (true, Action.writeMemberCount)) (Or.inl rfl) rfl
  refine ⟨_, rfl, counters_exact written ?_⟩
  intro i
  cases i <;> rfl

end Races

end Plexichat.Threads
