import Mathlib.Tactic.Push
import Plexichat.Library.Table
import Plexichat.Library.Text

/-! core/auth/permissions.py: account permissions with wildcards, and the fence
around what a bot may hold. The two sides read a wildcard by different rules. -/
namespace Plexichat.Auth

/-- `PERMISSIONS`, without the descriptions. -/
def permissions : List String :=
  ["messages.send", "messages.read", "messages.edit", "messages.delete", "messages.delete_others",
   "messages.pin", "messages.react", "conversations.create", "conversations.join",
   "conversations.leave", "conversations.invite", "conversations.kick", "conversations.manage",
   "conversations.delete", "servers.create", "servers.join", "servers.leave", "servers.manage",
   "servers.delete", "servers.invite", "channels.create", "channels.manage", "channels.delete",
   "roles.create", "roles.manage", "roles.assign", "roles.delete", "voice.join", "voice.speak",
   "voice.mute_others", "voice.deafen_others", "voice.move_others", "voice.initiate", "video.join",
   "video.stream", "video.initiate", "account.edit_profile", "account.delete",
   "account.view_others", "bots.create", "bots.manage", "moderation.ban", "moderation.kick",
   "moderation.mute", "moderation.warn", "moderation.view_audit", "admin.users", "admin.servers",
   "admin.system"]

/-- `BOT_RESTRICTED_PERMISSIONS`; the order in which the set is walked only orders the issues. -/
def botRestrictedPermissions : List String :=
  ["bots.create", "bots.manage", "account.delete", "admin.users", "admin.servers", "admin.system"]

abbrev PermissionMap := Table (String × Bool) Prod.fst

/-- The truth of `d.get(key, False)`. -/
def PermissionMap.get (d : PermissionMap) (key : String) : Bool := (d.find key).any Prod.snd

/-- The wildcards over a name: each prefix of its parts, followed by `.*`. -/
def wildcards (required : String) : List String :=
  let parts := Text.split '.' required.length required.toList
  (List.range parts.length).map fun i =>
    String.ofList (List.intercalate ['.'] (parts.take (i + 1)) ++ ['.', '*'])

def hasPermission (userPermissions : PermissionMap) (required : String) : Bool :=
  !userPermissions.rows.isEmpty && (userPermissions.get "*" || userPermissions.get required ||
    (wildcards required).any userPermissions.get)

def isWildcard (perm : String) : Bool := perm = "*" || ['.', '*'].isSuffixOf perm.toList

/-- `perm.replace(".*", "")`. -/
def withoutStars : List Char → List Char
  | '.' :: '*' :: rest => withoutStars rest
  | c :: rest => c :: withoutStars rest
  | [] => []

def restrictedBy (perm : String) : List String :=
  botRestrictedPermissions.filter fun r => (withoutStars perm.toList).isPrefixOf r.toList

inductive Issue where
  | unknown (perm : String)
  | restricted (perm : String)
  | via (p perm : String)

def Issue.text : Issue → String
  | unknown perm => "Unknown permission: " ++ perm
  | restricted perm => "Bots cannot have permission: " ++ perm
  | via p perm => "Bots cannot have permission: " ++ p ++ " (via " ++ perm ++ ")"

def Issue.aboutBots : Issue → Bool
  | unknown _ => false
  | restricted _ => true
  | via _ _ => true

def nameIssues (perm : String) : List Issue :=
  if isWildcard perm || perm ∈ permissions then [] else [.unknown perm]

def botIssues (perm : String) (value : Bool) : List Issue :=
  if value then
    (if perm ∈ botRestrictedPermissions then [.restricted perm] else []) ++
    if isWildcard perm then (restrictedBy perm).map (.via · perm) else []
  else []

def validatePermissions (d : PermissionMap) (isBot : Bool) : Bool × List Issue :=
  let issues := d.rows.flatMap fun e =>
    nameIssues e.1 ++ if isBot then botIssues e.1 e.2 else []
  (issues.isEmpty, issues)

section Fence

variable {d : PermissionMap} {p key perm : String} {value : Bool}

theorem PermissionMap.get_iff : d.get key = true ↔ (key, true) ∈ d.rows := by
  unfold PermissionMap.get
  rw [Option.any_eq_true]
  constructor
  · intro h
    obtain ⟨⟨k, v⟩, found, truthy⟩ := h
    obtain ⟨member, same⟩ := Table.find_eq_some.mp found
    cases same
    cases truthy
    exact member
  · intro h
    exact ⟨(key, true), Table.find_eq_some.mpr ⟨h, rfl⟩, rfl⟩

def grantingKeys (p : String) : List String := p :: wildcards p

theorem hasPermission_iff :
    hasPermission d p = true ↔ d.get "*" = true ∨ ∃ k ∈ grantingKeys p, d.get k = true := by
  have some_row : ∀ {k}, d.get k = true → d.rows.isEmpty = false := by
    intro k h
    exact List.isEmpty_eq_false_iff_exists_mem.mpr ⟨_, PermissionMap.get_iff.mp h⟩
  unfold hasPermission grantingKeys
  simp only [Bool.and_eq_true, Bool.or_eq_true, Bool.not_eq_true', List.any_eq_true, List.mem_cons,
    exists_eq_or_imp, or_assoc]
  constructor
  · intro h
    exact h.2
  · intro h
    refine ⟨?_, h⟩
    rcases h with star | exactly | ⟨k, _, there⟩
    · exact some_row star
    · exact some_row exactly
    · exact some_row there

/-- What is refused to bots: a restricted name, or a wildcard whose text without its
`.*`s begins one. -/
def refused (perm : String) : Bool :=
  perm ∈ botRestrictedPermissions || isWildcard perm && !(restrictedBy perm).isEmpty

theorem mem_nameIssues {i : Issue} (h : i ∈ nameIssues perm) : i.aboutBots = false := by
  unfold nameIssues at h
  split at h
  · cases h
  · cases List.mem_singleton.mp h
    rfl

theorem mem_botIssues {i : Issue} (h : i ∈ botIssues perm value) : i.aboutBots = true := by
  unfold botIssues at h
  split at h
  · rcases List.mem_append.mp h with exactly | wild
    · split at exactly
      · cases List.mem_singleton.mp exactly
        rfl
      · cases exactly
    · split at wild
      · obtain ⟨r, _, rfl⟩ := List.mem_map.mp wild
        rfl
      · cases wild
  · cases h

theorem botIssues_eq_nil :
    botIssues perm value = [] ↔ (value = true → refused perm = false) := by
  unfold botIssues refused
  cases value with
  | false => simp
  | true => simp [List.append_eq_nil_iff]

theorem nameIssues_eq_nil :
    nameIssues perm = [] ↔ isWildcard perm = true ∨ perm ∈ permissions := by
  unfold nameIssues
  by_cases known : isWildcard perm = true ∨ perm ∈ permissions
  · simp [known]
  · simp [not_or.mp known]

theorem valid_iff : (validatePermissions d true).1 = true ↔
    ∀ e ∈ d.rows, (isWildcard e.1 = true ∨ e.1 ∈ permissions) ∧
      (e.2 = true → refused e.1 = false) := by
  simp only [validatePermissions, if_true, List.isEmpty_iff, List.flatMap_eq_nil_iff,
    List.append_eq_nil_iff, nameIssues_eq_nil, botIssues_eq_nil]

theorem refused_to_bots : (∃ i ∈ (validatePermissions d true).2, i.aboutBots = true) ↔
    ∃ perm, d.get perm = true ∧ refused perm = true := by
  simp only [validatePermissions, if_true, List.mem_flatMap, List.mem_append]
  constructor
  · intro h
    obtain ⟨i, ⟨⟨perm, value⟩, member, listed⟩, bots⟩ := h
    rcases listed with name | bot
    · rw [mem_nameIssues name] at bots
      cases bots
    · have some_issue : botIssues perm value ≠ [] := List.ne_nil_of_mem bot
      rw [ne_eq, botIssues_eq_nil, Classical.not_imp, Bool.not_eq_false] at some_issue
      obtain ⟨truthy, held⟩ := some_issue
      cases truthy
      exact ⟨perm, PermissionMap.get_iff.mpr member, held⟩
  · intro h
    obtain ⟨perm, truthy, held⟩ := h
    have some_issue : botIssues perm true ≠ [] := by
      rw [ne_eq, botIssues_eq_nil, held]
      simp
    obtain ⟨i, bot⟩ := List.exists_mem_of_ne_nil _ some_issue
    exact ⟨i, ⟨(perm, true), PermissionMap.get_iff.mp truthy, .inr bot⟩, mem_botIssues bot⟩

theorem refused_of_granting :
    ∀ p ∈ botRestrictedPermissions, ∀ k ∈ grantingKeys p, refused k = true := by decide

def Fence (d : PermissionMap) : Prop :=
  ((validatePermissions d true).1 = true →
    ∀ p ∈ botRestrictedPermissions, hasPermission d p = false) ∧
  ((∃ i ∈ (validatePermissions d true).2, i.aboutBots = true) →
    ∃ p ∈ botRestrictedPermissions, hasPermission d p = true)

/-- A true full wildcard stands beside an entry that is refused for its own sake, and
without one a refused key stands beside a key that grants a restricted permission. -/
structure Fenced (d : PermissionMap) : Prop where
  star : d.get "*" = true → ∃ e ∈ d.rows,
    isWildcard e.1 = false ∧ e.1 ∉ permissions ∨ e.2 = true ∧ refused e.1 = true
  grants : d.get "*" = false → ∀ perm, d.get perm = true → refused perm = true →
    ∃ p ∈ botRestrictedPermissions, ∃ k ∈ grantingKeys p, d.get k = true

theorem fence_exact (d : PermissionMap) : Fence d ↔ Fenced d := by
  have some_restricted : "bots.create" ∈ botRestrictedPermissions := List.mem_cons_self
  constructor
  · intro h
    refine ⟨?_, ?_⟩
    · intro star
      by_contra none_refused
      have accepted : (validatePermissions d true).1 = true := by
        rw [valid_iff]
        push Not at none_refused
        intro e member
        obtain ⟨known, held⟩ := none_refused e member
        refine ⟨?_, fun truthy => Bool.eq_false_iff.mpr (held truthy)⟩
        cases wild : isWildcard e.1 with
        | true => exact .inl rfl
        | false => exact .inr (known wild)
      have granted : hasPermission d "bots.create" = true := hasPermission_iff.mpr (.inl star)
      rw [h.1 accepted _ some_restricted] at granted
      cases granted
    · intro star perm truthy held
      obtain ⟨p, member, granted⟩ := h.2 (refused_to_bots.mpr ⟨perm, truthy, held⟩)
      rcases hasPermission_iff.mp granted with full | ⟨k, over_p, there⟩
      · rw [star] at full
        cases full
      · exact ⟨p, member, k, over_p, there⟩
  · intro h
    refine ⟨?_, ?_⟩
    · intro accepted p member
      rw [valid_iff] at accepted
      apply Bool.eq_false_iff.mpr
      intro granted
      rcases hasPermission_iff.mp granted with star | ⟨k, over_p, there⟩
      · obtain ⟨e, row, unknown | bots⟩ := h.star star
        · rcases (accepted e row).1 with wild | known
          · rw [unknown.1] at wild
            cases wild
          · exact unknown.2 known
        · have held := (accepted e row).2 bots.1
          rw [bots.2] at held
          cases held
      · have held := (accepted _ (PermissionMap.get_iff.mp there)).2 rfl
        rw [refused_of_granting p member k over_p] at held
        cases held
    · intro some_issue
      cases star : d.get "*" with
      | true => exact ⟨_, some_restricted, hasPermission_iff.mpr (.inl star)⟩
      | false =>
        obtain ⟨perm, truthy, held⟩ := refused_to_bots.mp some_issue
        obtain ⟨p, member, k, over_p, there⟩ := h.grants star perm truthy held
        exact ⟨p, member, hasPermission_iff.mpr (.inr ⟨k, over_p, there⟩)⟩

/-- `{"*": True}` is accepted and grants everything; `{"bot.*": True}` is refused and
grants nothing restricted. -/
theorem fence_broken : ¬ Fence ⟨[("*", true)], by decide⟩ ∧ ¬ Fence ⟨[("bot.*", true)], by decide⟩ := by
  constructor
  · intro h
    have granted := h.1 (by decide) "admin.system" (by decide)
    revert granted
    decide
  · intro h
    obtain ⟨p, member, granted⟩ :=
      h.2 ⟨.via "bots.create" "bot.*", List.mem_cons_self, rfl⟩
    revert p
    decide

end Fence

end Plexichat.Auth
