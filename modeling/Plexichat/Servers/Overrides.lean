import Plexichat.Servers.Resolution

/-! `apply_channel_overrides` on overrides as rows and requests carry them, each side a
dict or the text of one, against the precedence that it is meant to have. -/
namespace Plexichat.Servers.Overrides
open Layers

/-- A side of an override: a key that is not there, a NULL, a dict, or a text. -/
inductive Side where
  | absent
  | null
  | dict (d : PermissionDict)
  | text (t : String)

/-- What json.loads makes of a text: an exception that is caught, a dict, or other data. -/
inductive Loaded where
  | malformed
  | dict (d : PermissionDict)
  | other

structure Override where
  targetId : Nat
  allow : Side
  deny : Side

section Code

variable (loads : String → Loaded)

/-- The dict to walk; none when `.items()` raises. -/
def Side.read : Side → Option PermissionDict
  | absent => some Table.empty
  | null => none
  | dict d => some d
  | text t =>
    match loads t with
    | .malformed => some Table.empty
    | .dict d => some d
    | .other => none

def applyOverride (result : Permissions) (o : Override) : Option Permissions := do
  let allow ← o.allow.read loads
  let deny ← o.deny.read loads
  return writeAll true allow (writeAll false deny result)

def applyChannelOverrides (base : Permissions) (roleOverrides : List Override)
    (memberOverride : Option Override) : Option Permissions :=
  if base.has "administrator" then some allPermissions
  else do
    let result ← roleOverrides.foldlM (applyOverride loads) base
    match memberOverride with
    | some o => applyOverride loads result o
    | none => return result

def verdict (p : String) (o : Override) : Option Bool := do
  let allow ← o.allow.read loads
  let deny ← o.deny.read loads
  if PermissionDict.has allow p then some true
  else if PermissionDict.has deny p then some false
  else none

/-- The precedence: the member's own override, then the highest role that speaks (of equal
positions the one collected last), then the base. -/
structure Specified (base : Permissions) (position : Override → Int) (overrides : List Override)
    (own : Option Override) (p : String) (value : Option Bool) : Prop where
  member : ∀ v, own.bind (verdict loads p) = some v → value = some v
  role : own.bind (verdict loads p) = none → (∃ o ∈ overrides, verdict loads p o ≠ none) →
    ∃ before top after, overrides = before ++ top :: after ∧
      value = verdict loads p top ∧ value ≠ none ∧
      (∀ o ∈ before, verdict loads p o ≠ none → position o ≤ position top) ∧
      ∀ o ∈ after, verdict loads p o ≠ none → position o < position top
  base : own.bind (verdict loads p) = none → (∀ o ∈ overrides, verdict loads p o = none) →
    value = base p

end Code

section Resolution

variable {loads : String → Loaded} {base result result' : Permissions} {o : Override}
  {overrides : List Override} {own : Option Override} {p : String}

theorem applyOverride_apply (applied : applyOverride loads result o = some result') :
    result' p = (verdict loads p o).or (result p) := by
  simp only [applyOverride, Option.bind_eq_bind, Option.bind_eq_some_iff, pure,
    Option.some.injEq] at applied
  obtain ⟨allow, readAllow, deny, readDeny, rfl⟩ := applied
  simp only [verdict, readAllow, readDeny, Option.bind_eq_bind, Option.bind_some]
  rw [writeAll_apply, writeAll_apply]
  split
  · rfl
  · split
    · rfl
    · rfl

theorem foldlM_applyOverride (applied : overrides.foldlM (applyOverride loads) base = some result) :
    result p = (decision (overrides.map (verdict loads p))).or (base p) := by
  induction overrides generalizing base with
  | nil =>
    cases applied
    rfl
  | cons o overrides ih =>
    simp only [List.foldlM_cons, Option.bind_eq_bind, Option.bind_eq_some_iff] at applied
    obtain ⟨first, one, rest⟩ := applied
    rw [ih rest, applyOverride_apply one, List.map_cons, decision_cons, Option.or_assoc]

theorem applyChannelOverrides_apply (plain : base.has "administrator" = false)
    (applied : applyChannelOverrides loads base overrides own = some result) :
    result p = (own.bind (verdict loads p)).or
      ((decision (overrides.map (verdict loads p))).or (base p)) := by
  unfold applyChannelOverrides at applied
  rw [if_neg (Bool.eq_false_iff.mp plain)] at applied
  simp only [Option.bind_eq_bind, Option.bind_eq_some_iff] at applied
  obtain ⟨roles, folded, last⟩ := applied
  cases own with
  | none =>
    cases last
    exact foldlM_applyOverride folded
  | some o => rw [applyOverride_apply last, foldlM_applyOverride folded, Option.bind_some]

/-- The overrides in the order in which `get_permissions` sorts what it has collected. -/
theorem resolved_as_specified (plain : base.has "administrator" = false) (roles : List RoleRow)
    (applied : applyChannelOverrides loads base
      (byRank (fun o => rolePosition roles o.targetId) overrides) own = some result) (p : String) :
    Specified loads base (fun o => rolePosition roles o.targetId) overrides own p (result p) := by
  have value := @applyChannelOverrides_apply loads base result _ own p plain applied
  refine ⟨?_, ?_, ?_⟩
  · intro v said
    rw [value, said, Option.some_or]
  · intro silent speaks
    rw [silent, Option.none_or] at value
    cases decided : decision ((byRank (fun o => rolePosition roles o.targetId) overrides).map
        (verdict loads p)) with
    | none =>
      obtain ⟨o, member, loud⟩ := speaks
      exact absurd (decision_eq_none.mp decided _ (List.mem_map_of_mem (mem_byRank.mpr member))) loud
    | some v =>
      rw [decided, Option.some_or] at value
      obtain ⟨before, top, after, parts, said, earlier, later⟩ := decision_byRank decided
      exact ⟨before, top, after, parts, value.trans said.symm, value ▸ Option.some_ne_none v,
        earlier, later⟩
  · intro silent all_silent
    have none_decides : decision ((byRank (fun o => rolePosition roles o.targetId) overrides).map
        (verdict loads p)) = none := by
      apply decision_eq_none.mpr
      intro d hd
      obtain ⟨o, member, rfl⟩ := List.mem_map.mp hd
      exact all_silent o (mem_byRank.mp member)
    rw [value, silent, none_decides, Option.none_or, Option.none_or]

/-- A deny of the higher role stands against an allow of the lower one. -/
theorem resolved_higher_role : ∃ result : Permissions, result "messages.send" = some false ∧
    Specified (fun _ => .malformed) (fun _ => none)
      (fun o => rolePosition [⟨1, 1, "low", Table.empty, 1, false, false⟩,
        ⟨2, 1, "high", Table.empty, 2, false, false⟩] o.targetId)
      [⟨2, .absent, .dict ⟨[("messages.send", true)], by decide⟩⟩,
        ⟨1, .dict ⟨[("messages.send", true)], by decide⟩, .absent⟩]
      none "messages.send" (result "messages.send") :=
  ⟨_, rfl, resolved_as_specified rfl _ rfl "messages.send"⟩

end Resolution

end Plexichat.Servers.Overrides
