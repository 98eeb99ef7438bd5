import Mathlib.Data.List.Dedup
import Plexichat.Library.Checks
import Plexichat.Library.Interleaving
import Plexichat.Library.Table

/-! core/polls/manager.py, one statement at a time. A transaction reads what is committed and its
own writes. A statement that waits for a row of another transaction comes after that transaction
here, or fails with it at the latest on commit. Messages, events and the counts that
`get_results` adds are left out. -/
namespace Plexichat.Polls
open Checks

inductive ErrorName where
  | invalidPollOption | pollNotFound | pollEnded | multipleVoteNotAllowed | pollOptionNotFound
  | alreadyVoted | permissionDenied | poll | unique | foreignKey
  deriving DecidableEq

structure PollError where
  name : ErrorName
  message : String
  deriving DecidableEq

structure Poll where
  id : Nat
  createdBy : Nat
  endsAt : Option Nat
  endedAt : Option Nat
  allowMultipleChoice : Bool
  deriving DecidableEq

structure PollOption where
  id : Nat
  pollId : Nat
  deriving DecidableEq

structure PollVote where
  id : Nat
  pollId : Nat
  optionId : Nat
  userId : Nat
  votedAt : Nat
  deriving DecidableEq

structure PollVoter where
  pollId : Nat
  userId : Nat
  votedAt : Nat
  deriving DecidableEq

structure Store where
  /-- `_generate_id` never gives an id twice. -/
  nextId : Nat
  polls : Table Poll Poll.id
  options : Table PollOption PollOption.id
  votes : Table PollVote PollVote.id
  voters : Table PollVoter fun r => (r.pollId, r.userId)
  /-- Not a table: the polls of which a `close_poll` has returned, and their votes then. -/
  closed : List (Nat × List PollVote)

abbrev Outcome := Except PollError

inductive Write where
  | deleteVotes (rows : List PollVote)
  | deleteVoter (row : Option PollVoter)
  | insertVoter (row : PollVoter)
  | insertVote (row : PollVote)

def foreignKeyFailed : PollError := ⟨.foreignKey, "FOREIGN KEY constraint failed"⟩

def uniqueFailed (columns : String) : PollError :=
  ⟨.unique, "UNIQUE constraint failed: " ++ columns⟩

namespace Store

def votesOf (c : Store) (pollId : Nat) : List PollVote :=
  c.votes.rows.filter fun v => v.pollId = pollId

def ballotOf (c : Store) (pollId userId : Nat) : List PollVote :=
  c.votes.rows.filter fun v => v.pollId = pollId && v.userId = userId

def hasVoted (c : Store) (userId pollId : Nat) : Bool :=
  pollId ≠ 0 && userId ≠ 0 && (c.voters.find (pollId, userId)).isSome

def insertVoter (c : Store) (row : PollVoter) : Outcome Store := do
  ensure ((c.polls.find row.pollId).isSome = true) foreignKeyFailed
  let voters ← found (c.voters.insert row)
    (uniqueFailed "poll_voters.poll_id, poll_voters.user_id")
  return { c with voters }

def insertVote (c : Store) (row : PollVote) : Outcome Store := do
  ensure ((c.polls.find row.pollId).isSome = true ∧ (c.options.find row.optionId).isSome = true)
    foreignKeyFailed
  ensure (c.votes.rows.all (fun v => (v.pollId, v.optionId, v.userId) ≠
    (row.pollId, row.optionId, row.userId)) = true)
    (uniqueFailed "poll_votes.poll_id, poll_votes.option_id, poll_votes.user_id")
  let votes ← found (c.votes.insert row) (uniqueFailed "poll_votes.id")
  return { c with votes }

def apply (c : Store) : Write → Outcome Store
  | .deleteVotes rows => .ok { c with votes := c.votes.delete (· ∈ rows) }
  | .deleteVoter row => .ok { c with voters := c.voters.delete fun r => some r = row }
  | .insertVoter row => c.insertVoter row
  | .insertVote row => c.insertVote row

def replay (c : Store) : List Write → Outcome Store
  | [] => .ok c
  | w :: ws => c.apply w >>= fun view => replay view ws

/-- UPDATE of `_end_poll`. -/
def endPoll (c : Store) (now pollId : Nat) : Store :=
  { c with
    polls := c.polls.update (fun q => q.id = pollId) (fun q => { q with endedAt := some now })
      fun _ => rfl }

def deleteVotes (c : Store) (pollId : Nat) : Store :=
  { c with votes := c.votes.delete fun v => v.pollId = pollId }

def deleteVoters (c : Store) (pollId : Nat) : Store :=
  { c with voters := c.voters.delete fun r => r.pollId = pollId }

/-- The DELETE and the ON DELETE CASCADE of poll_votes. -/
def deleteOptions (c : Store) (pollId : Nat) : Store :=
  { c with
    options := c.options.delete fun o => o.pollId = pollId
    votes := c.votes.delete fun v =>
      c.options.rows.any fun o => o.pollId = pollId && o.id = v.optionId }

/-- The DELETE and the ON DELETE CASCADE of the three other tables. -/
def deletePoll (c : Store) (pollId : Nat) : Store :=
  let rest := ((c.deleteOptions pollId).deleteVotes pollId).deleteVoters pollId
  { rest with polls := rest.polls.delete fun q => q.id = pollId }

end Store

/-- `vote` and `change_vote` check the same before they write. -/
inductive Kind where
  | vote | change
  deriving DecidableEq

inductive Request where
  | vote (kind : Kind) (userId pollId : Nat) (optionIds : List Nat)
  | removeVote (userId pollId : Nat)
  | closePoll (userId pollId : Nat)
  | deletePoll (userId pollId : Nat)

def Request.pollId : Request → Nat
  | vote _ _ pollId _ => pollId
  | removeVote _ pollId => pollId
  | closePoll _ pollId => pollId
  | deletePoll _ pollId => pollId

/-- A poll as `get_poll` returns it. -/
structure View where
  poll : Poll
  isEnded : Bool

structure Ballot where
  kind : Kind
  poll : Poll
  userId : Nat
  optionIds : List Nat

/-- The open transaction of a vote: the rows that `change_vote` has deleted, whether the user was
registered by it, and the new rows. -/
structure Draft where
  ballot : Ballot
  now : Nat
  replaced : Option (List PollVote)
  registers : Bool
  votes : List PollVote

def Draft.voter (d : Draft) : PollVoter := ⟨d.ballot.poll.id, d.ballot.userId, d.now⟩

def Draft.writes (d : Draft) : List Write :=
  (d.replaced.map Write.deleteVotes).toList ++
    ((if d.registers then [.insertVoter d.voter] else []) ++ d.votes.map Write.insertVote)

/-- What `remove_vote` knows: the user, the poll and whether there was anything to remove. -/
structure Removal where
  userId : Nat
  pollId : Nat
  hadVoterRow : Bool
  hadVoteRows : Bool

inductive Answer where
  /-- `vote` and `change_vote` return the results of the poll. -/
  | results
  | removed (any : Bool)
  | closed (poll : Poll)
  | deleted
  deriving DecidableEq

inductive Pc where
  | idle
  | getting (r : Request)
  | checking (r : Request) (view : View)
  /-- `_end_poll` of an expired poll. -/
  | expiring (pollId : Nat)
  | validating (b : Ballot)
  | lookingUp (b : Ballot)
  | starting (b : Ballot)
  | registering (d : Draft)
  | enrolling (d : Draft)
  | inserting (d : Draft) (rest : List Nat)
  | results (userId pollId : Nat)
  | hadVoter (userId pollId : Nat)
  | hadVotes (userId pollId : Nat) (hadVoterRow : Bool)
  | removingVotes (r : Removal)
  | removingVoter (r : Removal) (votes : List PollVote)
  | removing (r : Removal) (votes : List PollVote) (voter : Option PollVoter)
  | closing (pollId : Nat)
  | closed (pollId : Nat)
  | deletingVotes (pollId : Nat)
  | deletingVoters (pollId : Nat)
  | deletingOptions (pollId : Nat)
  | deletingPoll (pollId : Nat)
  | ended (result : Outcome Answer)

def Pc.resting : Pc → Bool
  | .idle => true
  | .ended _ => true
  | _ => false

inductive Action where
  | request (r : Request)
  /-- The next statement: what the clock says, whether the user may see the message of the poll,
  and whether the driver reports how many rows a DELETE has met. -/
  | proceed (now : Nat) (accessible rowcounts : Bool)

def raise (name : ErrorName) (message : String) : Pc := .ended (.error ⟨name, message⟩)

def Poll.expired (poll : Poll) (now : Nat) : Bool := poll.endsAt.any fun t => t ≠ 0 && t ≤ now

/-- `get_poll`, less what it counts. -/
def getPoll (c : Store) (now : Nat) (accessible : Bool) (pollId : Nat) : Option View :=
  ((c.polls.find pollId).filter fun _ => accessible).map fun poll =>
    ⟨poll, poll.endedAt.isSome || poll.expired now⟩

/-- A unique violation means that the voter row is there. -/
def voteFails (kind : Kind) (e : PollError) : Pc :=
  if e.name = .unique then
    raise .alreadyVoted (match kind with
      | .vote => "User has already voted on this poll"
      | .change => "User already voted; call change_vote() to revise the selection")
  else .ended (.error e)

/-- The rest of a vote's checks on what `get_poll` has returned. -/
def checkVote (kind : Kind) (view : View) (now userId : Nat) (optionIds : List Nat) : Pc :=
  if view.isEnded || view.poll.expired now then
    if view.isEnded then raise .pollEnded "Poll has ended" else .expiring view.poll.id
  else if !view.poll.allowMultipleChoice && 1 < optionIds.dedup.length then
    raise .multipleVoteNotAllowed "This poll does not allow multiple choice voting"
  else .validating ⟨kind, view.poll, userId, optionIds.dedup⟩

def checkRemoval (view : View) (now userId : Nat) : Pc :=
  if view.isEnded || view.poll.expired now then
    if view.isEnded then raise .pollEnded "Poll has ended" else .expiring view.poll.id
  else .hadVoter userId view.poll.id

def check (now : Nat) (view : View) : Request → Pc
  | .vote kind userId _ optionIds => checkVote kind view now userId optionIds
  | .removeVote userId _ => checkRemoval view now userId
  | .closePoll userId _ =>
    if view.poll.createdBy ≠ userId then
      raise .permissionDenied "Only poll creator can close the poll"
    else if view.isEnded then raise .pollEnded "Poll has already ended"
    else .closing view.poll.id
  | .deletePoll userId _ =>
    if view.poll.createdBy ≠ userId then
      raise .permissionDenied "Only poll creator can delete the poll"
    else .deletingVotes view.poll.id

def validOptions (c : Store) (b : Ballot) : List PollOption :=
  c.options.rows.filter fun o => o.pollId = b.poll.id && decide (o.id ∈ b.optionIds)

def validate (c : Store) (b : Ballot) : Pc :=
  if (validOptions c b).length ≠ b.optionIds.length then
    raise .pollOptionNotFound "One or more selected options are invalid for this poll"
  else match b.kind with
    | .vote => .lookingUp b
    | .change => .starting b

/-- The statements of the transaction of a vote: on the tables, on what it sees of them, and
what comes next. -/
def Draft.statement (c : Store) (d : Draft) (onward : Store → Store × Pc) : Store × Pc :=
  match c.replay d.writes with
  | .ok view => onward view
  | .error e => (c, voteFails d.ballot.kind e)

def beginTransaction (c : Store) (now : Nat) (b : Ballot) : Store × Pc :=
  match b.kind with
  | .vote =>
    let d : Draft := ⟨b, now, none, true, []⟩
    d.statement c fun _ => (c, .inserting d b.optionIds)
  | .change => (c, .registering ⟨b, now, some (c.ballotOf b.poll.id b.userId), false, []⟩)

def insertNext (c : Store) (d : Draft) : List Nat → Store × Pc
  | [] => d.statement c fun view => (view, .results d.ballot.userId d.ballot.poll.id)
  | optionId :: rest =>
    let vote : PollVote := ⟨c.nextId, d.ballot.poll.id, optionId, d.ballot.userId, d.now⟩
    let extended : Draft := { d with votes := d.votes ++ [vote] }
    extended.statement c fun _ => ({ c with nextId := c.nextId + 1 }, .inserting extended rest)

def removeFails (e : PollError) : Pc := .ended (.error e)

/-- What `remove_vote` returns. -/
def Removal.answer (r : Removal) (votes : List PollVote) (voter : Option PollVoter)
    (rowcounts : Bool) : Answer :=
  .removed (if rowcounts then !votes.isEmpty || voter.isSome else r.hadVoterRow || r.hadVoteRows)

def removeWrites (votes : List PollVote) (voter : Option PollVoter) : List Write :=
  [.deleteVotes votes, .deleteVoter voter]

def proceed (c : Store) (now : Nat) (accessible rowcounts : Bool) : Pc → Option (Store × Pc)
  | .idle => none
  | .getting r =>
    some (c, match getPoll c now accessible r.pollId with
      | none => raise .pollNotFound "Poll not found"
      | some view => .checking r view)
  | .checking r view => some (c, check now view r)
  | .expiring pollId => some (c.endPoll now pollId, raise .pollEnded "Poll has ended")
  | .validating b => some (c, validate c b)
  | .lookingUp b =>
    some (c, if c.hasVoted b.userId b.poll.id then
      raise .alreadyVoted
        "User has already voted on this poll; call change_vote() to revise the selection"
    else .starting b)
  | .starting b => some (beginTransaction c now b)
  | .registering d =>
    some (d.statement c fun view =>
      (c, if (view.voters.find (d.ballot.poll.id, d.ballot.userId)).isSome then
        .inserting d d.ballot.optionIds
      else .enrolling d))
  | .enrolling d =>
    let enrolled : Draft := { d with registers := true }
    some (enrolled.statement c fun _ => (c, .inserting enrolled d.ballot.optionIds))
  | .inserting d rest => some (insertNext c d rest)
  | .results _ pollId =>
    some (c, match getPoll c now accessible pollId with
      | none => raise .pollNotFound "Poll not found"
      | some _ => .ended (.ok .results))
  | .hadVoter userId pollId => some (c, .hadVotes userId pollId (c.hasVoted userId pollId))
  | .hadVotes userId pollId hadVoterRow =>
    some (c, .removingVotes
      ⟨userId, pollId, hadVoterRow, !(c.ballotOf pollId userId).isEmpty⟩)
  | .removingVotes r => some (c, .removingVoter r (c.ballotOf r.pollId r.userId))
  | .removingVoter r votes =>
    some (c, .removing r votes (c.voters.find (r.pollId, r.userId)))
  | .removing r votes voter =>
    match c.replay (removeWrites votes voter) with
    | .ok after => some (after, .ended (.ok (r.answer votes voter rowcounts)))
    | .error e => some (c, removeFails e)
  | .closing pollId => some (c.endPoll now pollId, .closed pollId)
  | .closed pollId =>
    match getPoll c now accessible pollId with
    | none => some (c, raise .poll "Failed to fetch poll after closing")
    | some view => some ({ c with closed := (pollId, c.votesOf pollId) :: c.closed },
        .ended (.ok (.closed view.poll)))
  | .deletingVotes pollId => some (c.deleteVotes pollId, .deletingVoters pollId)
  | .deletingVoters pollId => some (c.deleteVoters pollId, .deletingOptions pollId)
  | .deletingOptions pollId => some (c.deleteOptions pollId, .deletingPoll pollId)
  | .deletingPoll pollId => some (c.deletePoll pollId, .ended (.ok .deleted))
  | .ended _ => none

def start : Request → Pc
  | .vote kind userId pollId optionIds =>
    if optionIds.isEmpty then
      raise .invalidPollOption "At least one option must be selected"
    else .getting (.vote kind userId pollId optionIds)
  | r => .getting r

def next (c : Store) (pc : Pc) (a : Action) : Option (Store × Pc) :=
  match pc, a with
  | pc, .proceed now accessible rowcounts => proceed c now accessible rowcounts pc
  | .idle, .request r => some (c, start r)
  | _, _ => none

end Plexichat.Polls
