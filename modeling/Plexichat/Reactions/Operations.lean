import Mathlib.Data.List.Dedup
import Plexichat.Library.Interleaving

/-! core/reactions: add_reaction on one message, on the nested transactions of core/database. Each
caller has a connection of its own and reads what is committed and what it has inserted itself. -/
namespace Plexichat.Reactions
open Transition

variable {υ ε : Type}

structure Limits where
  maxReactions : Nat
  maxUserReactions : Nat

/-- Where a call of add_reaction is. `n` distinct emoji were counted on the message, `on` says that
the emoji was among them, and `k` were counted of the user. -/
inductive Phase (υ ε : Type) where
  | idle
  | checked (u : υ) (e : ε)
  | begun (u : υ) (e : ε)
  | looked (u : υ) (e : ε)
  | counted (u : υ) (e : ε) (n : Nat)
  | sought (u : υ) (e : ε) (n : Nat) (on : Bool)
  | ready (u : υ) (e : ε) (n : Nat) (on : Bool) (k : Nat)
  | inserted
  | landed
  /-- A limit is reached or the reaction exists: the call rolls back and raises, -/
  | refused
  /-- and the handler of what it raises rolls back. -/
  | rejecting
  | raising
  | failed

/-- `levels` are the rows that each level of the open transaction has inserted, innermost first.
`entry` are those of the caller when the call began, and `done` says that it has committed. -/
structure Caller (υ ε : Type) where
  levels : List (List (υ × ε))
  phase : Phase υ ε
  entry : List (List (υ × ε))
  done : Bool

inductive Action (υ ε : Type) where
  /-- begin_transaction, of the caller or of the call -/
  | begin (works : Bool)
  | commit (works : Bool)
  | rollback
  | addReaction (u : υ) (e : ε) (permitted : Bool)
  | lookUp
  | count
  | seek
  | countUser
  | insert
  | raise
  | readBack (works : Bool)
  | return

namespace Caller

variable (p : Caller υ ε)

def goes (phase : Phase υ ε) : Caller υ ε := { p with phase }

def rollback (phase : Phase υ ε) : Caller υ ε := { p with levels := p.levels.tail, phase }

end Caller

/-- What is committed after the commit of the innermost level, and the levels that are left. -/
def release (committed : List (υ × ε)) :
    List (List (υ × ε)) → List (υ × ε) × List (List (υ × ε))
  | [] => (committed, [])
  | [rows] => (committed ++ rows, [])
  | rows :: outer :: levels => (committed, (outer ++ rows) :: levels)

variable [DecidableEq υ] [DecidableEq ε]

/-- `count(DISTINCT emoji)` -/
def unique (rows : List (υ × ε)) : Nat := (rows.map Prod.snd).dedup.length

def next (limits : Limits) (c : List (υ × ε)) (p : Caller υ ε) (a : Action υ ε) :
    Option (List (υ × ε) × Caller υ ε) :=
  let seen := c ++ p.levels.flatten
  match p.phase, a with
  | .idle, .begin true => some (c, { p with levels := [] :: p.levels })
  | .idle, .commit true =>
    let after := release c p.levels
    some (after.1, { p with levels := after.2 })
  | .idle, .rollback => some (c, p.rollback .idle)
  | .idle, .addReaction u e permitted =>
    let p := { p with entry := p.levels, done := false }
    if permitted && !seen.contains (u, e) then some (c, p.goes (.checked u e))
    else some (c, p.goes .failed)
  | .checked u e, .begin true =>
    some (c, { p with levels := [] :: p.levels, phase := .begun u e })
  | .checked _ _, .begin false => some (c, p.goes .raising)
  | .begun u e, .lookUp =>
    if seen.contains (u, e) then some (c, p.goes .refused) else some (c, p.goes (.looked u e))
  | .looked u e, .count => some (c, p.goes (.counted u e (unique seen)))
  | .counted u e n, .seek =>
    let on := seen.any fun r => r.2 = e
    if !on && limits.maxReactions ≤ n then some (c, p.goes .refused)
    else some (c, p.goes (.sought u e n on))
  | .sought u e n on, .countUser =>
    let k := unique (seen.filter fun r => r.1 = u)
    if limits.maxUserReactions ≤ k then some (c, p.goes .refused)
    else some (c, p.goes (.ready u e n on k))
  | .ready u e _ _ _, .insert =>
    if seen.contains (u, e) then some (c, p.goes .raising)
    else
      match p.levels with
      | [] => some (c ++ [(u, e)], p.goes .inserted)
      | rows :: levels =>
        some (c, { p with levels := (rows ++ [(u, e)]) :: levels, phase := .inserted })
  | .inserted, .commit true =>
    let after := release c p.levels
    some (after.1, { p with levels := after.2, phase := .landed, done := true })
  -- A savepoint that cannot be released takes the whole transaction with it.
  | .inserted, .commit false =>
    some (c, { p with levels := if 1 < p.levels.length then [] else p.levels, phase := .raising })
  | .landed, .readBack true => some (c, p.goes .idle)
  | .landed, .readBack false => some (c, p.goes .failed)
  | .begun _ _, .raise => some (c, p.goes .raising)
  | .looked _ _, .raise => some (c, p.goes .raising)
  | .counted _ _ _, .raise => some (c, p.goes .raising)
  | .sought _ _ _ _, .raise => some (c, p.goes .raising)
  | .ready _ _ _ _ _, .raise => some (c, p.goes .raising)
  | .refused, .rollback => some (c, p.rollback .rejecting)
  | .rejecting, .rollback => some (c, p.rollback .failed)
  | .raising, .rollback => some (c, p.rollback .failed)
  | .failed, .return => some (c, p.goes .idle)
  | _, _ => none

end Plexichat.Reactions
