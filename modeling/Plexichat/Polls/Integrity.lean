import Plexichat.Polls.Operations

/-! What the two tables of votes say about each other, and what the statements and commits do to
them poll by poll. -/
namespace Plexichat.Polls
open Checks

namespace Store

structure Linked (c : Store) : Prop where
  votes : ∀ v ∈ c.votes, (∃ q ∈ c.polls, q.id = v.pollId) ∧
    ∃ o ∈ c.options, o.id = v.optionId ∧ o.pollId = v.pollId
  voters : ∀ r ∈ c.voters, ∃ q ∈ c.polls, q.id = r.pollId

structure Whole (c : Store) (pollId : Nat) : Prop where
  registered : ∀ u, (∃ r ∈ c.voters, r.pollId = pollId ∧ r.userId = u) ↔
    ∃ v ∈ c.votesOf pollId, v.userId = u
  single : ∀ q ∈ c.polls, q.id = pollId → q.allowMultipleChoice = false →
    ∀ v ∈ c.votesOf pollId, ∀ w ∈ c.votesOf pollId, v.userId = w.userId → v = w
  kept : ∀ q ∈ c.polls, q.id = pollId → ∀ votes, (pollId, votes) ∈ c.closed →
    c.votesOf pollId = votes

structure Untouched (c c' : Store) (pollId : Nat) : Prop where
  polls : ∀ q' ∈ c'.polls, q'.id = pollId →
    ∃ q ∈ c.polls, q.id = pollId ∧ q.allowMultipleChoice = q'.allowMultipleChoice
  votes : c'.votesOf pollId = c.votesOf pollId
  voters : ∀ r, r.pollId = pollId → (r ∈ c'.voters ↔ r ∈ c.voters)
  closed : ∀ votes, (pollId, votes) ∈ c'.closed → (pollId, votes) ∈ c.closed

structure Evolves (c c' : Store) : Prop where
  polls : ∀ q' ∈ c'.polls, ∃ q ∈ c.polls, q.id = q'.id ∧
    q.allowMultipleChoice = q'.allowMultipleChoice
  options : ∀ o ∈ c'.options, o ∈ c.options

variable {c c' : Store} {p u : Nat} {v : PollVote} {r : PollVoter}

theorem mem_votesOf : v ∈ c.votesOf p ↔ v ∈ c.votes ∧ v.pollId = p := by
  simp [votesOf, Table.mem_rows]

theorem mem_ballotOf : v ∈ c.ballotOf p u ↔ v ∈ c.votes ∧ v.pollId = p ∧ v.userId = u := by
  simp [ballotOf, Table.mem_rows]

theorem Untouched.whole (same : c.Untouched c' p) (whole : c.Whole p) : c'.Whole p where
  registered u := by
    rw [same.votes, ← whole.registered u]
    apply exists_congr
    intro r
    constructor
    · exact fun h => ⟨(same.voters r h.2.1).mp h.1, h.2⟩
    · exact fun h => ⟨(same.voters r h.2.1).mpr h.1, h.2⟩
  single q' member here one := by
    obtain ⟨q, before, id_eq, allow⟩ := same.polls q' member here
    rw [same.votes]
    exact whole.single q before id_eq (allow.trans one)
  kept q' member here votes closed := by
    obtain ⟨q, before, id_eq, -⟩ := same.polls q' member here
    rw [same.votes]
    exact whole.kept q before id_eq votes (same.closed votes closed)

theorem insertVoter_eq_ok {row : PollVoter} (h : c.insertVoter row = .ok c') :
    (∃ q ∈ c.polls, q.id = row.pollId) ∧ ∃ voters, c.voters.insert row = some voters ∧
      c' = { c with voters } := by
  simp only [insertVoter, ensure_bind_eq_ok, found_bind_eq_ok, pure_eq_ok] at h
  obtain ⟨poll, voters, inserted, rfl⟩ := h
  exact ⟨Table.find_isSome.mp poll, voters, inserted, rfl⟩

theorem insertVote_eq_ok {row : PollVote} (h : c.insertVote row = .ok c') :
    (∃ q ∈ c.polls, q.id = row.pollId) ∧ (∃ o ∈ c.options, o.id = row.optionId) ∧
      ∃ votes, c.votes.insert row = some votes ∧ c' = { c with votes } := by
  simp only [insertVote, ensure_bind_eq_ok, found_bind_eq_ok, pure_eq_ok] at h
  obtain ⟨⟨poll, option⟩, -, votes, inserted, rfl⟩ := h
  exact ⟨Table.find_isSome.mp poll, Table.find_isSome.mp option, votes, inserted, rfl⟩

theorem replay_append (ws ws' : List Write) :
    c.replay (ws ++ ws') = c.replay ws >>= fun view => view.replay ws' := by
  induction ws generalizing c with
  | nil => rfl
  | cons w ws ih =>
    cases applied : c.apply w with
    | error e => simp [replay, applied, bind, Except.bind]
    | ok view => simp [replay, applied, bind, Except.bind, ih]

theorem replay_insertVotes {rows : List PollVote}
    (h : c.replay (rows.map .insertVote) = .ok c') :
    c'.votes.rows = c.votes.rows ++ rows ∧ c' = { c with votes := c'.votes } ∧
      ∀ v ∈ rows, (∃ q ∈ c.polls, q.id = v.pollId) ∧ ∃ o ∈ c.options, o.id = v.optionId := by
  induction rows generalizing c with
  | nil =>
    cases h
    exact ⟨by simp, rfl, by simp⟩
  | cons v rows ih =>
    obtain ⟨view, first, rest⟩ := returned_bind h
    obtain ⟨poll, option, votes, inserted, rfl⟩ := insertVote_eq_ok first
    obtain ⟨appended, same, known⟩ := ih rest
    refine ⟨?_, same, List.forall_mem_cons.mpr ⟨⟨poll, option⟩, known⟩⟩
    rw [appended, (Table.insert_eq_some inserted).2, List.append_assoc]
    rfl

theorem replay_deleteVotes {rows : Option (List PollVote)}
    (h : c.replay (rows.map .deleteVotes).toList = .ok c') :
    c'.votes.rows = c.votes.rows.filter (fun v => v ∉ rows.getD []) ∧
      c' = { c with votes := c'.votes } := by
  cases rows with
  | none =>
    cases h
    exact ⟨by simp, rfl⟩
  | some rows =>
    cases h
    exact ⟨by simp [Table.delete], rfl⟩

theorem replay_register {registers : Bool} {row : PollVoter}
    (h : c.replay (if registers then [.insertVoter row] else []) = .ok c') :
    (∀ r, r ∈ c'.voters ↔ r ∈ c.voters ∨ registers = true ∧ r = row) ∧
      (registers = true → c.voters.find (row.pollId, row.userId) = none ∧
        ∃ q ∈ c.polls, q.id = row.pollId) ∧
      c' = { c with voters := c'.voters } := by
  cases registers with
  | false =>
    cases h
    exact ⟨by simp, by simp, rfl⟩
  | true =>
    obtain ⟨view, first, rest⟩ := returned_bind h
    cases rest
    obtain ⟨poll, voters, inserted, rfl⟩ := insertVoter_eq_ok first
    refine ⟨?_, fun _ => ⟨(Table.insert_eq_some inserted).1, poll⟩, rfl⟩
    intro r
    rw [Table.mem_insert inserted]
    simp

structure Cast (d : Draft) (c c' : Store) : Prop where
  rest : c' = { c with votes := c'.votes, voters := c'.voters }
  votes : c'.votes.rows = (c.votes.rows.filter fun v => v ∉ d.replaced.getD []) ++ d.votes
  voters : ∀ r, r ∈ c'.voters ↔ r ∈ c.voters ∨ d.registers = true ∧ r = d.voter
  fresh : d.registers = true → c.voters.find (d.ballot.poll.id, d.ballot.userId) = none ∧
    ∃ q ∈ c.polls, q.id = d.ballot.poll.id
  known : ∀ v ∈ d.votes, (∃ q ∈ c.polls, q.id = v.pollId) ∧ ∃ o ∈ c.options, o.id = v.optionId

theorem replay_draft {d : Draft} (h : c.replay d.writes = .ok c') : Cast d c c' := by
  rw [Draft.writes, replay_append] at h
  obtain ⟨one, deleted, h⟩ := returned_bind h
  rw [replay_append] at h
  obtain ⟨two, enrolled, inserted⟩ := returned_bind h
  obtain ⟨votes, rest⟩ := replay_deleteVotes deleted
  obtain ⟨voters, fresh, rest'⟩ := replay_register enrolled
  obtain ⟨votes', rest'', known⟩ := replay_insertVotes inserted
  rw [rest', rest] at rest'' votes' known
  rw [rest] at voters fresh
  have last : c'.voters = two.voters := by rw [rest'']
  refine ⟨?_, votes'.trans (by rw [votes]), fun r => ?_, fresh, known⟩
  · rw [last]
    exact rest''
  · rw [last]
    exact voters r

theorem Cast.votesOf_other {d : Draft} (cast : Cast d c c') (other : p ≠ d.ballot.poll.id)
    (own : ∀ v ∈ d.votes, v.pollId = d.ballot.poll.id)
    (caught : ∀ v ∈ d.replaced.getD [], v.pollId = d.ballot.poll.id) :
    c'.votesOf p = c.votesOf p := by
  have none_new : d.votes.filter (fun v => v.pollId = p) = [] := by
    rw [List.filter_eq_nil_iff]
    intro v member here
    exact other ((of_decide_eq_true here).symm.trans (own v member))
  rw [votesOf, cast.votes, List.filter_append, none_new, List.append_nil, List.filter_filter,
    votesOf]
  apply List.filter_congr
  intro v _
  by_cases here : v.pollId = p
  · have kept : v ∉ d.replaced.getD [] := fun gone => other (here.symm.trans (caught v gone))
    simp [here, kept]
  · simp [here]

/-- What the transaction of a vote relies on when it commits: the poll is not closed; a user that
it has found registered still is, and has no vote that it would leave beside the new one. -/
def DraftClear (c : Store) (d : Draft) : Prop :=
  d.ballot.poll.id ∉ c.closed.map Prod.fst ∧ (d.registers = false →
    (c.voters.find (d.ballot.poll.id, d.ballot.userId)).isSome = true ∧
      (d.ballot.poll.allowMultipleChoice = false →
        ∀ v ∈ c.ballotOf d.ballot.poll.id d.ballot.userId, v ∈ d.replaced.getD []))

structure Fits (c : Store) (b : Ballot) : Prop where
  some_option : b.optionIds ≠ []
  one_option : b.poll.allowMultipleChoice = false → b.optionIds.length ≤ 1
  kind : ∀ q ∈ c.polls, q.id = b.poll.id → q.allowMultipleChoice = b.poll.allowMultipleChoice

structure Complete (d : Draft) : Prop where
  options : d.votes.map PollVote.optionId = d.ballot.optionIds
  own : ∀ v ∈ d.votes, v.pollId = d.ballot.poll.id ∧ v.userId = d.ballot.userId
  caught : ∀ v ∈ d.replaced.getD [], v.pollId = d.ballot.poll.id ∧ v.userId = d.ballot.userId

theorem Cast.mem_votes {d : Draft} (cast : Cast d c c') :
    v ∈ c'.votes ↔ (v ∈ c.votes ∧ v ∉ d.replaced.getD []) ∨ v ∈ d.votes := by
  rw [Table.mem_rows, cast.votes]
  simp [Table.mem_rows]

theorem Cast.user_votes {d : Draft} (cast : Cast d c c') (clear : DraftClear c d)
    (one : d.ballot.poll.allowMultipleChoice = false) (whole : c.Whole d.ballot.poll.id)
    (member : v ∈ c'.votesOf d.ballot.poll.id) (user : v.userId = d.ballot.userId) :
    v ∈ d.votes := by
  obtain ⟨here, poll⟩ := mem_votesOf.mp member
  rcases cast.mem_votes.mp here with ⟨old, remains⟩ | new
  · exfalso
    cases registers : d.registers with
    | true =>
      obtain ⟨r, there, key⟩ := (whole.registered d.ballot.userId).mpr
        ⟨v, mem_votesOf.mpr ⟨old, poll⟩, user⟩
      exact Table.find_eq_none.mp (cast.fresh registers).1 r there (Prod.ext key.1 key.2)
    | false => exact remains ((clear.2 registers).2 one v (mem_ballotOf.mpr ⟨old, poll, user⟩))
  · exact new

theorem Cast.other_votes {d : Draft} (cast : Cast d c c') (complete : Complete d)
    (other : v.userId ≠ d.ballot.userId) : v ∈ c'.votes ↔ v ∈ c.votes := by
  rw [cast.mem_votes]
  constructor
  · rintro (⟨old, -⟩ | new)
    · exact old
    · exact absurd (complete.own v new).2 other
  · exact fun old => .inl ⟨old, fun gone => other (complete.caught v gone).2⟩

theorem Cast.whole {d : Draft} (cast : Cast d c c') (fits : Fits c d.ballot) (complete : Complete d)
    (clear : DraftClear c d) (whole : c.Whole d.ballot.poll.id) : c'.Whole d.ballot.poll.id := by
  have polls : c'.polls = c.polls := by rw [cast.rest]
  have closed : c'.closed = c.closed := by rw [cast.rest]
  refine ⟨?_, ?_, ?_⟩
  · intro u
    by_cases user : u = d.ballot.userId
    · subst user
      refine iff_of_true ?_ ?_
      · cases registers : d.registers with
        | true => exact ⟨d.voter, (cast.voters _).mpr (.inr ⟨registers, rfl⟩), rfl, rfl⟩
        | false =>
          obtain ⟨r, there, key⟩ := Table.find_isSome.mp (clear.2 registers).1
          exact ⟨r, (cast.voters r).mpr (.inl there), congrArg Prod.fst key, congrArg Prod.snd key⟩
      · obtain ⟨v, new⟩ : ∃ v, v ∈ d.votes := by
          apply List.exists_mem_of_ne_nil
          intro none_new
          have options := complete.options
          rw [none_new] at options
          exact fits.some_option options.symm
        obtain ⟨poll, user⟩ := complete.own v new
        exact ⟨v, mem_votesOf.mpr ⟨cast.mem_votes.mpr (.inr new), poll⟩, user⟩
    · have voters : (∃ r ∈ c'.voters, r.pollId = d.ballot.poll.id ∧ r.userId = u) ↔
          ∃ r ∈ c.voters, r.pollId = d.ballot.poll.id ∧ r.userId = u := by
        constructor
        · intro h
          obtain ⟨r, there, key⟩ := h
          rcases (cast.voters r).mp there with old | ⟨-, rfl⟩
          · exact ⟨r, old, key⟩
          · exact absurd key.2.symm user
        · intro h
          obtain ⟨r, there, key⟩ := h
          exact ⟨r, (cast.voters r).mpr (.inl there), key⟩
      rw [voters, whole.registered u]
      apply exists_congr
      intro v
      rw [mem_votesOf, mem_votesOf]
      constructor
      · intro h
        exact ⟨⟨(cast.other_votes complete (h.2 ▸ user)).mpr h.1.1, h.1.2⟩, h.2⟩
      · intro h
        exact ⟨⟨(cast.other_votes complete (h.2 ▸ user)).mp h.1.1, h.1.2⟩, h.2⟩
  · intro q member here one v hv w hw same
    rw [polls] at member
    have single : d.ballot.poll.allowMultipleChoice = false := by
      rw [← fits.kind q member here, one]
    by_cases user : v.userId = d.ballot.userId
    · have first := cast.user_votes clear single whole hv user
      have second := cast.user_votes clear single whole hw (same ▸ user)
      have few : d.votes.length ≤ 1 := by
        rw [← List.length_map (f := PollVote.optionId), complete.options]
        exact fits.one_option single
      cases votes : d.votes with
      | nil => simp [votes] at first
      | cons x rest =>
        rw [votes] at first second few
        have last : rest = [] := by simpa using few
        subst last
        rw [List.mem_singleton.mp first, List.mem_singleton.mp second]
    · obtain ⟨in_v, poll_v⟩ := mem_votesOf.mp hv
      obtain ⟨in_w, poll_w⟩ := mem_votesOf.mp hw
      have user_w : w.userId ≠ d.ballot.userId := same ▸ user
      exact whole.single q member here one
        v (mem_votesOf.mpr ⟨(cast.other_votes complete user).mp in_v, poll_v⟩)
        w (mem_votesOf.mpr ⟨(cast.other_votes complete user_w).mp in_w, poll_w⟩) same
  · intro q _ _ votes before
    rw [closed] at before
    exact absurd (List.mem_map.mpr ⟨_, before, rfl⟩) clear.1

/-- What the transaction of `remove_vote` relies on when it commits: its two statements have met
all rows of the user that are there now, or neither has; and it changes nothing on a closed
poll. -/
def RemovalClear (c : Store) (r : Removal) (votes : List PollVote) (voter : Option PollVoter) :
    Prop :=
  (r.pollId ∈ c.closed.map Prod.fst → ∀ v ∈ c.ballotOf r.pollId r.userId, v ∉ votes) ∧
    ((∀ v ∈ c.ballotOf r.pollId r.userId, v ∈ votes) ↔
      ∀ row ∈ c.voters.find (r.pollId, r.userId), some row = voter)

structure Caught (r : Removal) (votes : List PollVote) (voter : Option PollVoter) : Prop where
  votes : ∀ v ∈ votes, v.pollId = r.pollId ∧ v.userId = r.userId
  voter : ∀ row ∈ voter, row.pollId = r.pollId ∧ row.userId = r.userId

section Removal

variable {removal : Removal} {votes : List PollVote} {voter : Option PollVoter}

theorem replay_removal (h : c.replay (removeWrites votes voter) = .ok c') :
    c' = { c with
      votes := c.votes.delete (· ∈ votes), voters := c.voters.delete fun r => some r = voter } := by
  cases h
  rfl

theorem removal_votesOf (h : c.replay (removeWrites votes voter) = .ok c')
    (kept : ∀ v ∈ c.votesOf p, v ∉ votes) : c'.votesOf p = c.votesOf p := by
  rw [replay_removal h]
  simp only [votesOf, Table.delete, List.filter_filter]
  apply List.filter_congr
  intro v member
  by_cases here : v.pollId = p
  · simp [here, kept v (mem_votesOf.mpr ⟨member, here⟩)]
  · simp [here]

theorem Caught.other (caught : Caught removal votes voter) (other : p ≠ removal.pollId) :
    ∀ v ∈ c.votesOf p, v ∉ votes := by
  intro v member gone
  exact other ((mem_votesOf.mp member).2.symm.trans (caught.votes v gone).1)

theorem removal_whole (caught : Caught removal votes voter)
    (clear : RemovalClear c removal votes voter) (whole : c.Whole removal.pollId)
    (h : c.replay (removeWrites votes voter) = .ok c') : c'.Whole removal.pollId := by
  have votes' : ∀ v, v ∈ c'.votesOf removal.pollId ↔
      v ∈ c.votesOf removal.pollId ∧ v ∉ votes := by
    intro v
    rw [mem_votesOf, mem_votesOf, replay_removal h, Table.mem_delete]
    simp only [decide_eq_false_iff_not]
    exact and_right_comm
  have voters' : ∀ r, r ∈ c'.voters ↔ r ∈ c.voters ∧ some r ≠ voter := by
    intro r
    rw [replay_removal h, Table.mem_delete]
    simp
  refine ⟨?_, ?_, ?_⟩
  · intro u
    by_cases user : u = removal.userId
    · subst user
      rw [← not_iff_not]
      have gone : (¬∃ v ∈ c'.votesOf removal.pollId, v.userId = removal.userId) ↔
          ∀ v ∈ c.ballotOf removal.pollId removal.userId, v ∈ votes := by
        simp only [votes', mem_votesOf, mem_ballotOf, not_exists, not_and, and_imp]
        exact ⟨fun all v a b d => by_contra fun e => all v a b e d,
          fun all v a b e d => e (all v a b d)⟩
      have removed : (¬∃ r ∈ c'.voters, r.pollId = removal.pollId ∧ r.userId = removal.userId) ↔
          ∀ row ∈ c.voters.find (removal.pollId, removal.userId), some row = voter := by
        simp only [voters', Option.mem_def, Table.find_eq_some, Prod.mk.injEq, not_exists, not_and,
          and_imp]
        exact ⟨fun all r a b d => by_contra fun e => all r a e b d,
          fun all r a e b d => e (all r a b d)⟩
      rw [gone, removed, clear.2]
    · have voters : ∀ r, r.userId = u → (r ∈ c'.voters ↔ r ∈ c.voters) := by
        intro r here
        rw [voters', and_iff_left_iff_imp]
        intro _ same
        exact user (here.symm.trans (caught.voter r same.symm).2)
      have kept : ∀ v, v.userId = u →
          (v ∈ c'.votesOf removal.pollId ↔ v ∈ c.votesOf removal.pollId) := by
        intro v here
        rw [votes', and_iff_left_iff_imp]
        intro _ gone
        exact user (here.symm.trans (caught.votes v gone).2)
      have before := whole.registered u
      constructor
      · intro h
        obtain ⟨r, there, key⟩ := h
        obtain ⟨v, member, here⟩ := before.mp ⟨r, (voters r key.2).mp there, key⟩
        exact ⟨v, (kept v here).mpr member, here⟩
      · intro h
        obtain ⟨v, member, here⟩ := h
        obtain ⟨r, there, key⟩ := before.mpr ⟨v, (kept v here).mp member, here⟩
        exact ⟨r, (voters r key.2).mpr there, key⟩
  · intro q member here one v hv w hw
    rw [replay_removal h] at member
    exact whole.single q member here one v ((votes' v).mp hv).1 w ((votes' w).mp hw).1
  · intro q member here before closed
    rw [replay_removal h] at member closed
    rw [← whole.kept q member here before closed]
    apply removal_votesOf h
    intro v member gone
    have own := mem_ballotOf.mpr ⟨(mem_votesOf.mp member).1, caught.votes v gone⟩
    exact clear.1 (List.mem_map.mpr ⟨_, closed, rfl⟩) v own gone

end Removal

end Store

end Plexichat.Polls
