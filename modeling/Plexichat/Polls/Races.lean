import Plexichat.Polls.Integrity

/-! Requests of several users side by side. A vote is checked before its transaction begins, and a
transaction does not lock what it has not found. -/
namespace Plexichat.Polls
open Checks Interleaving Transition Store

variable {ι : Type} {c c' : Store} {pc pc' : Pc} {a : Action}

inductive Effect (c : Store) : Pc → Store → Prop
  | reads {pc : Pc} (n : Nat) : Effect c pc { c with nextId := n }
  | ends {pc : Pc} (now pollId : Nat) : Effect c pc (c.endPoll now pollId)
  | casts {d : Draft} {c' : Store} (h : c.replay d.writes = .ok c') :
    Effect c (.inserting d []) c'
  | removes {r : Removal} {votes : List PollVote} {voter : Option PollVoter} {c' : Store}
    (h : c.replay (removeWrites votes voter) = .ok c') : Effect c (.removing r votes voter) c'
  | closes {pc : Pc} (pollId : Nat) :
    Effect c pc { c with closed := (pollId, c.votesOf pollId) :: c.closed }
  | deletesVotes (pollId : Nat) : Effect c (.deletingVotes pollId) (c.deleteVotes pollId)
  | deletesVoters (pollId : Nat) : Effect c (.deletingVoters pollId) (c.deleteVoters pollId)
  | deletesOptions (pollId : Nat) : Effect c (.deletingOptions pollId) (c.deleteOptions pollId)
  | deletesPoll (pollId : Nat) : Effect c (.deletingPoll pollId) (c.deletePoll pollId)

theorem Effect.same : Effect c pc c := .reads c.nextId

/-- `delete_poll` has begun to delete the poll. -/
def Pc.deletes (pollId : Nat) : Pc → Bool
  | .deletingVoters p => p = pollId
  | .deletingOptions p => p = pollId
  | .deletingPoll p => p = pollId
  | _ => false

def Agrees (c : Store) (poll : Poll) : Prop :=
  ∀ q ∈ c.polls, q.id = poll.id → q.allowMultipleChoice = poll.allowMultipleChoice

def Valid (c : Store) (b : Ballot) : Prop :=
  ∀ o ∈ c.options, o.id ∈ b.optionIds → o.pollId = b.poll.id

structure Drafted (c : Store) (d : Draft) (rest : List Nat) : Prop where
  fits : Fits c d.ballot
  valid : Valid c d.ballot
  options : d.votes.map PollVote.optionId ++ rest = d.ballot.optionIds
  own : ∀ v ∈ d.votes, v.pollId = d.ballot.poll.id ∧ v.userId = d.ballot.userId
  caught : ∀ v ∈ d.replaced.getD [], v.pollId = d.ballot.poll.id ∧ v.userId = d.ballot.userId

def Pc.Known (c : Store) : Pc → Prop
  | .getting r => ∀ kind userId pollId optionIds, r = .vote kind userId pollId optionIds →
      optionIds ≠ []
  | .checking r view => Agrees c view.poll ∧ ∀ kind userId pollId optionIds,
      r = .vote kind userId pollId optionIds → optionIds ≠ []
  | .validating b => Fits c b
  | .lookingUp b => Fits c b ∧ Valid c b
  | .starting b => Fits c b ∧ Valid c b
  | .registering d => Drafted c d d.ballot.optionIds
  | .enrolling d => Drafted c d d.ballot.optionIds
  | .inserting d rest => Drafted c d rest
  | .removingVoter r votes => ∀ v ∈ votes, v.pollId = r.pollId ∧ v.userId = r.userId
  | .removing r votes voter => Caught r votes voter
  | _ => True

theorem known_voteFails (kind : Kind) (e : PollError) : (voteFails kind e).Known c := by
  unfold voteFails
  split <;> trivial

theorem statement_cases {d : Draft} {onward : Store → Store × Pc}
    (h : d.statement c onward = (c', pc')) :
    (∃ view, c.replay d.writes = .ok view ∧ onward view = (c', pc')) ∨
      c' = c ∧ ∀ e, pc'.Known e := by
  unfold Draft.statement at h
  split at h
  · rename_i view seen
    exact .inl ⟨view, seen, h⟩
  · cases h
    exact .inr ⟨rfl, fun _ => known_voteFails _ _⟩

theorem getPoll_agrees {now pollId : Nat} {accessible : Bool} {view : View}
    (h : getPoll c now accessible pollId = some view) : Agrees c view.poll := by
  obtain ⟨poll, found, rfl⟩ := Option.map_eq_some_iff.mp h
  obtain ⟨found, -⟩ := Option.filter_eq_some_iff.mp found
  intro q member same
  rw [Table.eq_of_key member (Table.find_eq_some.mp found).1 same]

theorem known_check {now : Nat} {view : View} {r : Request}
    (known : (Pc.checking r view).Known c) : (check now view r).Known c := by
  cases r with
  | vote kind userId pollId optionIds =>
    simp only [check, checkVote]
    split
    · split <;> trivial
    · split
      · trivial
      · rename_i few
        have some_option : optionIds.dedup ≠ [] := by
          rw [Ne, List.dedup_eq_nil]
          exact known.2 kind userId pollId optionIds rfl
        refine ⟨some_option, ?_, known.1⟩
        intro single
        have single : view.poll.allowMultipleChoice = false := single
        simpa [single] using few
  | removeVote userId pollId =>
    simp only [check, checkRemoval]
    split
    · split <;> trivial
    · trivial
  | closePoll userId pollId =>
    simp only [check]
    split
    · trivial
    · split <;> trivial
  | deletePoll userId pollId =>
    simp only [check]
    split <;> trivial

theorem valid_of_length {b : Ballot}
    (all : (validOptions c b).length = b.optionIds.length) : Valid c b := by
  have ids : ((validOptions c b).map PollOption.id).Nodup :=
    c.options.unique.sublist (List.filter_sublist.map _)
  have asked : (validOptions c b).map PollOption.id ⊆ b.optionIds := by
    intro id member
    obtain ⟨o, found, rfl⟩ := List.mem_map.mp member
    have both := (List.mem_filter.mp found).2
    simp only [Bool.and_eq_true, decide_eq_true_eq] at both
    exact both.2
  have same : ((validOptions c b).map PollOption.id).Perm b.optionIds := by
    apply (List.subperm_of_subset ids asked).perm_of_length_le
    rw [List.length_map, all]
  intro o member wanted
  obtain ⟨found, member', id_eq⟩ := List.mem_map.mp (same.mem_iff.mpr wanted)
  obtain ⟨there, both⟩ := List.mem_filter.mp member'
  simp only [Bool.and_eq_true, decide_eq_true_eq] at both
  rw [← Table.eq_of_key (Table.mem_rows.mpr there) member id_eq]
  exact both.1

theorem known_validate {b : Ballot} (known : (Pc.validating b).Known c) :
    (validate c b).Known c := by
  unfold validate
  split
  · trivial
  · rename_i all
    have valid := valid_of_length (not_not.mp all)
    split
    · exact ⟨known, valid⟩
    · exact ⟨known, valid⟩

theorem beginTransaction_cases {now : Nat} {b : Ballot} (known : (Pc.starting b).Known c)
    (h : beginTransaction c now b = (c', pc')) : c' = c ∧ pc'.Known c := by
  unfold beginTransaction at h
  split at h
  · rcases statement_cases h with ⟨_, _, same⟩ | ⟨same, known'⟩
    · cases same
      exact ⟨rfl, known.1, known.2, rfl, by simp, by simp⟩
    · exact ⟨same, known' c⟩
  · cases h
    refine ⟨rfl, known.1, known.2, rfl, by simp, ?_⟩
    intro v member
    exact (mem_ballotOf.mp member).2

theorem insertNext_cases {d : Draft} {rest : List Nat} (known : (Pc.inserting d rest).Known c)
    (h : insertNext c d rest = (c', pc')) : Effect c (.inserting d rest) c' ∧ pc'.Known c := by
  cases rest with
  | nil =>
    rcases statement_cases h with ⟨view, committed, same⟩ | ⟨rfl, known'⟩
    · cases same
      exact ⟨.casts committed, trivial⟩
    · exact ⟨.same, known' _⟩
  | cons optionId rest =>
    rcases statement_cases h with ⟨_, _, same⟩ | ⟨rfl, known'⟩
    · cases same
      refine ⟨.reads _, known.fits, known.valid, ?_, ?_, known.caught⟩
      · simpa using known.options
      · intro v member
        rcases List.mem_append.mp member with old | new
        · exact known.own v old
        · cases List.mem_singleton.mp new
          exact ⟨rfl, rfl⟩
    · exact ⟨.same, known' _⟩

theorem proceed_cases {now : Nat} {accessible rowcounts : Bool} (known : pc.Known c)
    (h : proceed c now accessible rowcounts pc = some (c', pc')) :
    Effect c pc c' ∧ pc'.Known c := by
  cases pc with
  | idle | ended _ => cases h
  | getting r =>
    cases h
    refine ⟨.same, ?_⟩
    split
    · trivial
    · rename_i view found
      exact ⟨getPoll_agrees found, known⟩
  | checking r view =>
    cases h
    exact ⟨.same, known_check known⟩
  | expiring pollId =>
    cases h
    exact ⟨.ends _ _, trivial⟩
  | validating b =>
    cases h
    exact ⟨.same, known_validate known⟩
  | lookingUp b =>
    cases h
    refine ⟨.same, ?_⟩
    split
    · trivial
    · exact known
  | starting b =>
    obtain ⟨rfl, known'⟩ := beginTransaction_cases known (Option.some.inj h)
    exact ⟨.same, known'⟩
  | registering d =>
    rcases statement_cases (Option.some.inj h) with ⟨view, _, same⟩ | ⟨rfl, known'⟩
    · cases same
      refine ⟨.same, ?_⟩
      split <;> exact known
    · exact ⟨.same, known' _⟩
  | enrolling d =>
    rcases statement_cases (Option.some.inj h) with ⟨view, _, same⟩ | ⟨rfl, known'⟩
    · cases same
      exact ⟨.same, known.fits, known.valid, known.options, known.own, known.caught⟩
    · exact ⟨.same, known' _⟩
  | inserting d rest => exact insertNext_cases known (Option.some.inj h)
  | results _ _ =>
    cases h
    refine ⟨.same, ?_⟩
    split <;> trivial
  | hadVoter _ _ | hadVotes _ _ _ =>
    cases h
    exact ⟨.same, trivial⟩
  | removingVotes r =>
    cases h
    exact ⟨.same, fun v member => (mem_ballotOf.mp member).2⟩
  | removingVoter r votes =>
    cases h
    refine ⟨.same, known, ?_⟩
    intro row found
    have key := (Table.find_eq_some.mp found).2
    exact ⟨congrArg Prod.fst key, congrArg Prod.snd key⟩
  | removing r votes voter =>
    simp only [proceed] at h
    split at h
    · rename_i after committed
      cases h
      exact ⟨.removes committed, trivial⟩
    · cases h
      exact ⟨.same, trivial⟩
  | closing pollId =>
    cases h
    exact ⟨.ends _ _, trivial⟩
  | closed pollId =>
    simp only [proceed] at h
    split at h
    · cases h
      exact ⟨.same, trivial⟩
    · cases h
      exact ⟨.closes _, trivial⟩
  | deletingVotes pollId =>
    cases h
    exact ⟨.deletesVotes _, trivial⟩
  | deletingVoters pollId =>
    cases h
    exact ⟨.deletesVoters _, trivial⟩
  | deletingOptions pollId =>
    cases h
    exact ⟨.deletesOptions _, trivial⟩
  | deletingPoll pollId =>
    cases h
    exact ⟨.deletesPoll _, trivial⟩

theorem known_start (r : Request) : (start r).Known c := by
  cases r with
  | vote kind userId pollId optionIds =>
    simp only [start]
    split
    · trivial
    · rename_i some_option
      intro _ _ _ _ same
      cases same
      simpa using some_option
  | removeVote _ _ | closePoll _ _ | deletePoll _ _ => exact fun _ _ _ _ same => nomatch same

theorem next_cases (known : pc.Known c) (h : next c pc a = some (c', pc')) :
    Effect c pc c' ∧ pc'.Known c := by
  cases a with
  | proceed now accessible rowcounts => exact proceed_cases known h
  | request r =>
    cases pc with
    | idle =>
      cases h
      exact ⟨.same, known_start r⟩
    | _ => cases h

theorem mem_endPoll {now pollId : Nat} {q : Poll} : q ∈ (c.endPoll now pollId).polls ↔
    ∃ old ∈ c.polls, q = if old.id = pollId then { old with endedAt := some now } else old := by
  rw [endPoll, Table.mem_update]
  simp only [decide_eq_true_eq]

theorem evolves_endPoll (c : Store) (now pollId : Nat) : Evolves c (c.endPoll now pollId) := by
  refine ⟨?_, fun o member => member⟩
  intro q' member
  obtain ⟨q, before, rfl⟩ := mem_endPoll.mp member
  refine ⟨q, before, ?_⟩
  split <;> exact ⟨rfl, rfl⟩

theorem evolves_of_polls (polls : c'.polls = c.polls) (options : c'.options = c.options) :
    Evolves c c' := by
  refine ⟨?_, ?_⟩
  · intro q member
    exact ⟨q, polls ▸ member, rfl, rfl⟩
  · intro o member
    exact options ▸ member

theorem Effect.evolves (h : Effect c pc c') : Evolves c c' := by
  cases h with
  | reads n => exact evolves_of_polls rfl rfl
  | ends now pollId => exact evolves_endPoll c now pollId
  | casts committed =>
    have cast := replay_draft committed
    exact evolves_of_polls (by rw [cast.rest]) (by rw [cast.rest])
  | removes committed =>
    have removed := replay_removal committed
    exact evolves_of_polls (by rw [removed]) (by rw [removed])
  | closes pollId => exact evolves_of_polls rfl rfl
  | deletesVotes pollId => exact evolves_of_polls rfl rfl
  | deletesVoters pollId => exact evolves_of_polls rfl rfl
  | deletesOptions pollId =>
    exact ⟨fun q member => ⟨q, member, rfl, rfl⟩, fun o member => (Table.mem_delete.mp member).1⟩
  | deletesPoll pollId =>
    exact ⟨fun q member => ⟨q, (Table.mem_delete.mp member).1, rfl, rfl⟩,
      fun o member => (Table.mem_delete.mp member).1⟩

section Kept

variable (evolves : Evolves c c')
include evolves

theorem agrees_evolves {poll : Poll} (h : Agrees c poll) : Agrees c' poll := by
  intro q' member same
  obtain ⟨q, before, id_eq, allow⟩ := evolves.polls q' member
  exact allow.symm.trans (h q before (id_eq.trans same))

theorem fits_evolves {b : Ballot} (h : Fits c b) : Fits c' b :=
  ⟨h.some_option, h.one_option, agrees_evolves evolves h.kind⟩

theorem valid_evolves {b : Ballot} (h : Valid c b) : Valid c' b :=
  fun o member wanted => h o (evolves.options o member) wanted

theorem drafted_evolves {d : Draft} {rest : List Nat} (h : Drafted c d rest) : Drafted c' d rest :=
  { h with fits := fits_evolves evolves h.fits, valid := valid_evolves evolves h.valid }

theorem known_evolves (known : pc.Known c) : pc.Known c' := by
  cases pc with
  | checking r view => exact ⟨agrees_evolves evolves known.1, known.2⟩
  | validating b => exact fits_evolves evolves known
  | lookingUp b | starting b => exact ⟨fits_evolves evolves known.1, valid_evolves evolves known.2⟩
  | registering d | enrolling d | inserting d rest => exact drafted_evolves evolves known
  | getting r | removingVoter r votes | removing r votes voter => exact known
  | _ => trivial

end Kept

theorem linked_of_fewer (linked : Linked c) (polls : ∀ q ∈ c.polls, ∃ q' ∈ c'.polls, q'.id = q.id)
    (options : c'.options = c.options) (votes : ∀ v ∈ c'.votes, v ∈ c.votes)
    (voters : ∀ r ∈ c'.voters, r ∈ c.voters) : Linked c' where
  votes v member := by
    obtain ⟨⟨q, there, id_eq⟩, option⟩ := linked.votes v (votes v member)
    obtain ⟨q', there', id_eq'⟩ := polls q there
    exact ⟨⟨q', there', id_eq'.trans id_eq⟩, options ▸ option⟩
  voters r member := by
    obtain ⟨q, there, id_eq⟩ := linked.voters r (voters r member)
    obtain ⟨q', there', id_eq'⟩ := polls q there
    exact ⟨q', there', id_eq'.trans id_eq⟩

theorem mem_deleteOptions {pollId : Nat} {v : PollVote} : v ∈ (c.deleteOptions pollId).votes ↔
    v ∈ c.votes ∧ ∀ o ∈ c.options, o.pollId = pollId → o.id ≠ v.optionId := by
  rw [deleteOptions, Table.mem_delete]
  simp [Table.mem_rows]

theorem linked_deleteOptions (linked : Linked c) (pollId : Nat) :
    Linked (c.deleteOptions pollId) where
  votes v member := by
    obtain ⟨old, others⟩ := mem_deleteOptions.mp member
    obtain ⟨poll, o, there, id_eq, own⟩ := linked.votes v old
    refine ⟨poll, o, Table.mem_delete.mpr ⟨there, ?_⟩, id_eq, own⟩
    simpa using fun here => others o there here id_eq
  voters := linked.voters

theorem mem_deletePoll_votes {pollId : Nat} {v : PollVote} :
    v ∈ (c.deletePoll pollId).votes ↔
      v ∈ (c.deleteOptions pollId).votes ∧ v.pollId ≠ pollId := by
  show v ∈ (c.deleteOptions pollId).votes.delete _ ↔ _
  rw [Table.mem_delete]
  simp

theorem linked_deletePoll (linked : Linked c) (pollId : Nat) : Linked (c.deletePoll pollId) where
  votes v member := by
    obtain ⟨old, other⟩ := mem_deletePoll_votes.mp member
    obtain ⟨⟨q, there, id_eq⟩, option⟩ := (linked_deleteOptions linked pollId).votes v old
    refine ⟨⟨q, Table.mem_delete.mpr ⟨there, ?_⟩, id_eq⟩, option⟩
    simpa [id_eq] using other
  voters r member := by
    obtain ⟨old, other⟩ := Table.mem_delete.mp member
    obtain ⟨q, there, id_eq⟩ := linked.voters r old
    refine ⟨q, Table.mem_delete.mpr ⟨there, ?_⟩, id_eq⟩
    simpa [id_eq] using other

theorem Effect.linked (h : Effect c pc c') (known : pc.Known c) (linked : Linked c) :
    Linked c' := by
  cases h with
  | reads n => exact ⟨linked.votes, linked.voters⟩
  | ends now pollId =>
    refine linked_of_fewer linked ?_ rfl (fun v member => member) fun r member => member
    intro q member
    refine ⟨_, mem_endPoll.mpr ⟨q, member, rfl⟩, ?_⟩
    split <;> rfl
  | @casts d _ committed =>
    have cast := replay_draft committed
    have polls : c'.polls = c.polls := by rw [cast.rest]
    have options : c'.options = c.options := by rw [cast.rest]
    refine ⟨?_, ?_⟩
    · intro v member
      rw [polls, options]
      rcases cast.mem_votes.mp member with ⟨old, -⟩ | new
      · exact linked.votes v old
      · obtain ⟨poll, o, there, id_eq⟩ := cast.known v new
        refine ⟨poll, o, there, id_eq, ?_⟩
        rw [(known.own v new).1]
        apply known.valid o there
        rw [id_eq, ← known.options]
        exact List.mem_append_left _ (List.mem_map_of_mem new)
    · intro r member
      rw [polls]
      rcases (cast.voters r).mp member with old | ⟨registers, rfl⟩
      · exact linked.voters r old
      · exact (cast.fresh registers).2
  | removes committed =>
    rw [replay_removal committed]
    exact linked_of_fewer linked (fun q member => ⟨q, member, rfl⟩) rfl
      (fun v member => (Table.mem_delete.mp member).1) fun r member => (Table.mem_delete.mp member).1
  | closes pollId => exact ⟨linked.votes, linked.voters⟩
  | deletesVotes pollId =>
    exact linked_of_fewer linked (fun q member => ⟨q, member, rfl⟩) rfl
      (fun v member => (Table.mem_delete.mp member).1) fun r member => member
  | deletesVoters pollId =>
    exact linked_of_fewer linked (fun q member => ⟨q, member, rfl⟩) rfl
      (fun v member => member) fun r member => (Table.mem_delete.mp member).1
  | deletesOptions pollId => exact linked_deleteOptions linked pollId
  | deletesPoll pollId => exact linked_deletePoll linked pollId

section Others

variable {p pollId : Nat}

theorem untouched_of (polls : ∀ q ∈ c'.polls, q ∈ c.polls) (votes : c'.votesOf p = c.votesOf p)
    (voters : ∀ r, r.pollId = p → (r ∈ c'.voters ↔ r ∈ c.voters)) (closed : c'.closed = c.closed) :
    Untouched c c' p :=
  ⟨fun q member here => ⟨q, polls q member, here, rfl⟩, votes, voters, fun _ before =>
    closed ▸ before⟩

theorem votesOf_deleteVotes (other : p ≠ pollId) :
    (c.deleteVotes pollId).votesOf p = c.votesOf p := by
  simp only [votesOf, deleteVotes, Table.delete, List.filter_filter]
  apply List.filter_congr
  intro v _
  by_cases here : v.pollId = p
  · simp [here, other]
  · simp [here]

theorem voters_deleteVoters (other : p ≠ pollId) {r : PollVoter} (here : r.pollId = p) :
    r ∈ (c.deleteVoters pollId).voters ↔ r ∈ c.voters := by
  rw [deleteVoters, Table.mem_delete]
  simp [here, other]

theorem votesOf_deleteOptions (linked : Linked c) (other : p ≠ pollId) :
    (c.deleteOptions pollId).votesOf p = c.votesOf p := by
  simp only [votesOf, deleteOptions, Table.delete, List.filter_filter]
  apply List.filter_congr
  intro v member
  by_cases here : v.pollId = p
  · obtain ⟨-, o, there, id_eq, own⟩ := linked.votes v member
    have spared : (c.options.rows.any fun o => o.pollId = pollId && o.id = v.optionId) = false := by
      rw [List.any_eq_false]
      intro o' there' both
      simp only [Bool.and_eq_true, decide_eq_true_eq] at both
      have same := Table.eq_of_key (Table.mem_rows.mpr there') there (both.2.trans id_eq.symm)
      exact other (here.symm.trans (own.symm.trans (same ▸ both.1)))
    simp [here, spared]
  · simp [here]

theorem untouched_deletePoll (linked : Linked c) (other : p ≠ pollId) :
    Untouched c (c.deletePoll pollId) p := by
  refine untouched_of (fun q member => (Table.mem_delete.mp member).1) ?_ ?_ rfl
  · show ((c.deleteOptions pollId).deleteVotes pollId).votesOf p = _
    rw [votesOf_deleteVotes other, votesOf_deleteOptions linked other]
  · intro r here
    exact voters_deleteVoters other here

end Others

theorem whole_deletePoll (c : Store) (pollId : Nat) : (c.deletePoll pollId).Whole pollId := by
  have no_poll : ∀ q ∈ (c.deletePoll pollId).polls, q.id ≠ pollId := by
    intro q member
    simpa using (Table.mem_delete.mp member).2
  have no_vote : ∀ v, v ∉ (c.deletePoll pollId).votesOf pollId := by
    intro v member
    obtain ⟨there, here⟩ := mem_votesOf.mp member
    exact (mem_deletePoll_votes.mp there).2 here
  have no_voter : ∀ r ∈ (c.deletePoll pollId).voters, r.pollId ≠ pollId := by
    intro r member
    simpa using (Table.mem_delete.mp member).2
  refine ⟨?_, ?_, ?_⟩
  · intro u
    refine iff_of_false ?_ ?_
    · exact fun h => no_voter h.choose h.choose_spec.1 h.choose_spec.2.1
    · exact fun h => no_vote h.choose h.choose_spec.1
  · exact fun q member here => absurd here (no_poll q member)
  · exact fun q member here => absurd here (no_poll q member)

theorem whole_closes {p : Nat} (whole : c.Whole p) (pollId : Nat) :
    Whole { c with closed := (pollId, c.votesOf pollId) :: c.closed } p where
  registered := whole.registered
  single := whole.single
  kept q member here votes listed := by
    rcases List.mem_cons.mp listed with new | old
    · cases new
      rfl
    · exact whole.kept q member here votes old

/-- The commits on a poll are clear in the sense of `DraftClear` and `RemovalClear`. -/
def Pc.Clear (c : Store) (pollId : Nat) (pc : Pc) : Prop :=
  (∀ d, pc = .inserting d [] → d.ballot.poll.id = pollId →
    (c.replay d.writes).isOk = true → DraftClear c d) ∧
    ∀ r votes voter, pc = .removing r votes voter → r.pollId = pollId →
      RemovalClear c r votes voter

theorem Effect.whole {p : Nat} (h : Effect c pc c') (known : pc.Known c) (linked : Linked c)
    (whole : c.Whole p) (starts : pc ≠ .deletingVotes p) (deletes : pc.deletes p = false)
    (clear : pc.Clear c p) : c'.Whole p := by
  cases h with
  | reads n =>
    exact Untouched.whole (c := c) (untouched_of (fun q member => member) rfl
      (fun _ _ => Iff.rfl) rfl) whole
  | ends now pollId =>
    have same : Untouched c (c.endPoll now pollId) p := by
      refine ⟨?_, rfl, fun _ _ => Iff.rfl, fun _ before => before⟩
      intro q' member here
      obtain ⟨q, before, id_eq, allow⟩ := (evolves_endPoll c now pollId).polls q' member
      exact ⟨q, before, id_eq.trans here, allow⟩
    exact same.whole whole
  | @casts d _ committed =>
    have cast := replay_draft committed
    by_cases here : d.ballot.poll.id = p
    · subst here
      have complete : Complete d := ⟨by simpa using known.options, known.own, known.caught⟩
      exact cast.whole known.fits complete (clear.1 d rfl rfl (by rw [committed]; rfl)) whole
    · have votes := cast.votesOf_other (Ne.symm here) (fun v new => (known.own v new).1)
        fun v gone => (known.caught v gone).1
      refine (untouched_of ?_ votes ?_ (by rw [cast.rest])).whole whole
      · intro q member
        rw [cast.rest] at member
        exact member
      · intro r own
        rw [cast.voters, or_iff_left]
        rintro ⟨-, rfl⟩
        exact here own
  | @removes r votes voter _ committed =>
    by_cases here : r.pollId = p
    · subst here
      exact removal_whole known (clear.2 r votes voter rfl rfl) whole committed
    · have kept := removal_votesOf committed (known.other (Ne.symm here))
      have removed := replay_removal committed
      refine (untouched_of ?_ kept ?_ (by rw [removed])).whole whole
      · intro q member
        rw [removed] at member
        exact member
      · intro row own
        rw [removed, Table.mem_delete, and_iff_left_iff_imp]
        intro _
        rw [decide_eq_false_iff_not]
        intro same
        exact here ((known.voter row same.symm).1.symm.trans own)
  | closes pollId => exact whole_closes whole pollId
  | deletesVotes pollId =>
    have other : p ≠ pollId := fun same => starts (by rw [same])
    exact Untouched.whole (c := c) (untouched_of (fun q member => member)
      (votesOf_deleteVotes other) (fun _ _ => Iff.rfl) rfl) whole
  | deletesVoters pollId =>
    have other : p ≠ pollId := by simpa [Pc.deletes, eq_comm] using deletes
    exact Untouched.whole (c := c) (untouched_of (fun q member => member) rfl
      (fun _ here => voters_deleteVoters other here) rfl) whole
  | deletesOptions pollId =>
    have other : p ≠ pollId := by simpa [Pc.deletes, eq_comm] using deletes
    exact Untouched.whole (c := c) (untouched_of (fun q member => member)
      (votesOf_deleteOptions linked other) (fun _ _ => Iff.rfl) rfl) whole
  | deletesPoll pollId =>
    have other : p ≠ pollId := by simpa [Pc.deletes, eq_comm] using deletes
    exact (untouched_deletePoll linked other).whole whole

theorem next_deletes {p : Nat} (h : next c pc a = some (c', pc')) (deletes : pc.deletes p = true) :
    pc'.deletes p = true ∨ c' = c.deletePoll p := by
  cases pc with
  | deletingVoters pollId | deletingOptions pollId =>
    cases a with
    | proceed now accessible rowcounts =>
      cases h
      exact .inl deletes
    | request r => cases h
  | deletingPoll pollId =>
    cases a with
    | proceed now accessible rowcounts =>
      cases h
      have here : pollId = p := by simpa [Pc.deletes] using deletes
      exact .inr (by rw [here])
    | request r => cases h
  | _ => cases deletes

theorem next_starts {p : Nat} (h : next c (.deletingVotes p) a = some (c', pc')) :
    pc'.deletes p = true := by
  cases a with
  | proceed now accessible rowcounts =>
    cases h
    simp [Pc.deletes]
  | request r => cases h

/-- Some `delete_poll` has begun to delete the poll, and has not finished. -/
def Deleting (s : State ι Store Pc) (pollId : Nat) : Prop := ∃ i, (s.pc i).deletes pollId = true

structure Initial (s : State ι Store Pc) : Prop where
  linked : Linked s.shared
  whole : ∀ p, s.shared.Whole p
  idle : ∀ i, s.pc i = .idle

def Undisturbed (s : State ι Store Pc) (move : ι × Action) : Prop :=
  match s.pc move.1, move.2 with
  | .inserting d [], .proceed _ _ _ =>
    Deleting s d.ballot.poll.id ∨ ((s.shared.replay d.writes).isOk = true → DraftClear s.shared d)
  | .removing r votes voter, .proceed _ _ _ =>
    Deleting s r.pollId ∨ RemovalClear s.shared r votes voter
  | _, _ => True

theorem clear_of_undisturbed {s : State ι Store Pc} {i : ι} {p : Nat} {r : Store × Pc}
    (clear : Undisturbed s (i, a)) (moved : next s.shared (s.pc i) a = some r)
    (there : ¬Deleting s p) : (s.pc i).Clear s.shared p := by
  cases a with
  | request request =>
    refine ⟨?_, ?_⟩
    · intro d at_commit
      rw [at_commit] at moved
      cases moved
    · intro removal votes voter at_commit
      rw [at_commit] at moved
      cases moved
  | proceed now accessible rowcounts =>
    refine ⟨?_, ?_⟩
    · intro d at_commit here
      simp only [Undisturbed, at_commit] at clear
      exact clear.resolve_left (here ▸ there)
    · intro removal votes voter at_commit here
      simp only [Undisturbed, at_commit] at clear
      exact clear.resolve_left (here ▸ there)

variable [DecidableEq ι]

structure Inv (s : State ι Store Pc) : Prop where
  linked : Linked s.shared
  known : ∀ i, (s.pc i).Known s.shared
  whole : ∀ p, Deleting s p ∨ s.shared.Whole p

theorem Inv.after {s : State ι Store Pc} (h : Inv s) {i : ι} {r : Store × Pc}
    (clear : Undisturbed s (i, a)) (moved : next s.shared (s.pc i) a = some r) :
    Inv (s.after i r) := by
  obtain ⟨effect, known⟩ := next_cases (h.known i) moved
  have evolves := effect.evolves
  refine ⟨effect.linked (h.known i) h.linked, ?_, ?_⟩
  · intro j
    show ((s.after i r).pc j).Known r.1
    by_cases here : j = i
    · rw [here, after_self]
      exact known_evolves evolves known
    · rw [after_other s here]
      exact known_evolves evolves (h.known j)
  · intro p
    show Deleting (s.after i r) p ∨ r.1.Whole p
    by_cases deleting : Deleting s p
    · obtain ⟨j, deletes⟩ := deleting
      by_cases here : j = i
      · subst here
        rcases next_deletes moved deletes with onward | gone
        · exact .inl ⟨j, by rw [after_self]; exact onward⟩
        · exact .inr (gone ▸ whole_deletePoll _ p)
      · exact .inl ⟨j, by rw [after_other s here]; exact deletes⟩
    · by_cases starts : s.pc i = .deletingVotes p
      · rw [starts] at moved
        exact .inl ⟨i, by rw [after_self]; exact next_starts moved⟩
      · have deletes : (s.pc i).deletes p = false :=
          Bool.eq_false_iff.mpr fun deletes => deleting ⟨i, deletes⟩
        exact .inr (effect.whole (h.known i) h.linked ((h.whole p).resolve_left deleting) starts
          deletes (clear_of_undisturbed clear moved deleting))

theorem undisturbed_invariant {s : State ι Store Pc} (h : Guarded (step next) Undisturbed Initial s) :
    Inv s := by
  refine guarded_invariant ?_ ?_ h
  · intro s first
    refine ⟨first.linked, ?_, fun p => .inr (first.whole p)⟩
    intro i
    rw [first.idle i]
    trivial
  · intro s move t inv clear moved
    obtain ⟨r, local_step, rfl⟩ := step_eq_some.mp moved
    exact inv.after clear local_step

/-- Once all requests have returned, the tables of votes and voters agree, single-choice polls have
one vote a user, votes name options of their poll, and a closed poll has the votes it had. -/
theorem poll_integrity {s : State ι Store Pc} (h : Guarded (step next) Undisturbed Initial s)
    (quiet : ∀ i, (s.pc i).resting = true) :
    Linked s.shared ∧ ∀ pollId, s.shared.Whole pollId := by
  have inv := undisturbed_invariant h
  refine ⟨inv.linked, ?_⟩
  intro pollId
  refine (inv.whole pollId).resolve_left ?_
  intro deleting
  obtain ⟨i, deletes⟩ := deleting
  have rests := quiet i
  cases at_ : s.pc i with
  | deletingVoters p | deletingOptions p | deletingPoll p =>
    rw [at_] at rests
    cases rests
  | _ =>
    rw [at_] at deletes
    cases deletes

def openPoll : State Bool Store Pc where
  shared := { nextId := 20
              polls := ⟨[⟨10, 1, none, none, false⟩], by decide⟩
              options := ⟨[⟨11, 10⟩, ⟨12, 10⟩], by decide⟩
              votes := .empty
              voters := .empty
              closed := [] }
  pc _ := .idle

theorem openPoll_initial : Initial openPoll where
  linked := by
    refine ⟨?_, ?_⟩
    · exact fun _ never => nomatch never
    · exact fun _ never => nomatch never
  whole pollId := by
    refine ⟨?_, ?_, ?_⟩
    · exact fun u => iff_of_false (fun h => nomatch h.choose_spec.1) fun h => nomatch h.choose_spec.1
    · exact fun q _ _ _ v never => nomatch never
    · exact fun q _ _ votes never => nomatch never
  idle _ := rfl

def proceeds (i : Bool) (statements : Nat) : List (Bool × Action) :=
  List.replicate statements (i, .proceed 30 true true)

def votes (i : Bool) (kind : Kind) (optionId : Nat) : Bool × Action :=
  (i, .request (.vote kind 2 10 [optionId]))

/-- User 2 votes between the two statements of his own `remove_vote`. -/
def voteDuringRemoval : List (Bool × Action) :=
  [(false, .request (.removeVote 2 10))] ++ proceeds false 5 ++ [votes true .vote 11] ++
    proceeds true 8 ++ proceeds false 2

/-- User 2 votes after his `change_vote` has found nothing to delete. -/
def voteDuringChange : List (Bool × Action) :=
  [votes false .change 12] ++ proceeds false 4 ++ [votes true .vote 11] ++ proceeds true 8 ++
    proceeds false 4

def closeDuringVote : List (Bool × Action) :=
  [votes false .vote 11] ++ proceeds false 4 ++ [(true, .request (.closePoll 1 10))] ++
    proceeds true 4 ++ proceeds false 4

def Quiescent (s : State ι Store Pc) : Prop :=
  Reachable (step next) Initial s ∧ ∀ i, (s.pc i).resting = true

theorem quiescent_of_run (calls : List (Bool × Action)) (p : Store → Bool)
    (h : (run (step next) openPoll calls).any (fun s =>
      decide (∀ i, (s.pc i).resting = true) && p s.shared) = true) :
    ∃ s : State Bool Store Pc, Quiescent s ∧ p s.shared = true := by
  obtain ⟨s, ends, both⟩ := (Option.any_eq_true _ _).mp h
  simp only [Bool.and_eq_true, decide_eq_true_eq] at both
  exact ⟨s, ⟨reachable_of_run calls openPoll_initial ends, both.1⟩, both.2⟩

theorem poll_races :
    (¬∀ s : State Bool Store Pc, Quiescent s → ∀ pollId u,
      (∃ r ∈ s.shared.voters, r.pollId = pollId ∧ r.userId = u) ↔
        ∃ v ∈ s.shared.votesOf pollId, v.userId = u) ∧
    (¬∀ s : State Bool Store Pc, Quiescent s → ∀ pollId, ∀ q ∈ s.shared.polls, q.id = pollId →
      q.allowMultipleChoice = false → ∀ v ∈ s.shared.votesOf pollId,
        ∀ w ∈ s.shared.votesOf pollId, v.userId = w.userId → v = w) ∧
    ¬∀ s : State Bool Store Pc, Quiescent s → ∀ pollId, ∀ q ∈ s.shared.polls, q.id = pollId →
      ∀ votes, (pollId, votes) ∈ s.shared.closed → s.shared.votesOf pollId = votes := by
  refine ⟨?_, ?_, ?_⟩
  · intro law
    obtain ⟨s, quiet, facts⟩ := quiescent_of_run voteDuringRemoval
      (fun c => c.votesOf 10 = [⟨20, 10, 11, 2, 30⟩] && c.voters.rows.isEmpty) (by decide +kernel)
    simp only [Bool.and_eq_true, decide_eq_true_eq, List.isEmpty_iff] at facts
    obtain ⟨r, there, -⟩ := (law s quiet 10 2).mpr ⟨_, facts.1 ▸ List.mem_singleton.mpr rfl, rfl⟩
    rw [Table.mem_rows, facts.2] at there
    cases there
  · intro law
    obtain ⟨s, quiet, facts⟩ := quiescent_of_run voteDuringChange
      (fun c => c.votesOf 10 = [⟨20, 10, 11, 2, 30⟩, ⟨21, 10, 12, 2, 30⟩] &&
        c.polls.rows = [⟨10, 1, none, none, false⟩]) (by decide +kernel)
    simp only [Bool.and_eq_true, decide_eq_true_eq] at facts
    obtain ⟨votes, polls⟩ := facts
    have same := law s quiet 10 ⟨10, 1, none, none, false⟩
      (by rw [Table.mem_rows, polls]; exact List.mem_singleton.mpr rfl) rfl rfl
      ⟨20, 10, 11, 2, 30⟩ (by simp [votes]) ⟨21, 10, 12, 2, 30⟩ (by simp [votes]) rfl
    cases same
  · intro law
    obtain ⟨s, quiet, facts⟩ := quiescent_of_run closeDuringVote
      (fun c => c.votesOf 10 = [⟨20, 10, 11, 2, 30⟩] && c.closed = [(10, [])] &&
        c.polls.rows = [⟨10, 1, none, some 30, false⟩]) (by decide +kernel)
    simp only [Bool.and_eq_true, decide_eq_true_eq] at facts
    obtain ⟨⟨votes, closed⟩, polls⟩ := facts
    have same := law s quiet 10 ⟨10, 1, none, some 30, false⟩
      (by rw [Table.mem_rows, polls]; exact List.mem_singleton.mpr rfl) rfl [] (by simp [closed])
    rw [votes] at same
    cases same

instance (c : Store) (d : Draft) : Decidable (DraftClear c d) := by
  unfold DraftClear
  infer_instance

instance (c : Store) (r : Removal) (votes : List PollVote) (voter : Option PollVoter) :
    Decidable (RemovalClear c r votes voter) := by
  unfold RemovalClear
  infer_instance

instance [Fintype ι] (s : State ι Store Pc) (move : ι × Action) :
    Decidable (Undisturbed s move) := by
  unfold Undisturbed Deleting
  split <;> infer_instance

/-- User 2 votes and changes his vote. -/
theorem poll_integrity_changed : ∃ s : State Bool Store Pc,
    s.shared.votesOf 10 = [⟨21, 10, 12, 2, 30⟩] ∧ Linked s.shared ∧
      ∀ pollId, s.shared.Whole pollId := by
  let calls : List (Bool × Action) :=
    [votes false .vote 11] ++ proceeds false 8 ++ [votes true .change 12] ++ proceeds true 8
  have changed : (runGuarded (step next) Undisturbed openPoll calls).any (fun s =>
      decide (∀ i, (s.pc i).resting = true) && s.shared.votesOf 10 = [⟨21, 10, 12, 2, 30⟩]) =
        true := by decide +kernel
  obtain ⟨s, ends, both⟩ := (Option.any_eq_true _ _).mp changed
  simp only [Bool.and_eq_true, decide_eq_true_eq] at both
  exact ⟨s, both.2, poll_integrity (guarded_of_run calls openPoll_initial ends) both.1⟩

end Plexichat.Polls
