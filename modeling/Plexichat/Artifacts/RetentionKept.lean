import Mathlib.Data.List.Induction
import Plexichat.Artifacts.RetentionDays

/-! Which expiry dates of the manager the cleanup job leaves alone. -/
namespace Plexichat.Artifacts.Retention
open Json

variable {F : Type}

section Periods

variable (host : Host F) (cfg : Config F) (settings : Settings)

/-- No row of the server settles its period. -/
def Undecided (serverId : Option Nat) : Prop :=
  cfg.allowPerServerOverride = true → ∀ id, serverId = some id →
    ∀ row, settings.find id = some row → ∃ days ≤ 0, row.retentionDays = some days

inductive Offers (serverId : Option Nat) (days : Int) : Prop
  | override {id : Nat} (allowed : cfg.allowPerServerOverride = true) (here : serverId = some id)
    (found : getServerRetentionDays settings id = some days)
  | default {v : Value F Str} (undecided : Undecided cfg settings serverId)
    (given : defaultDays host cfg = some v) (positive : Positive host v days)

inductive Inherits (serverId : Option Nat) (days : Int) : Prop
  | override (positive : Positive host (overrideDays host cfg settings serverId) days)
  | default {v : Value F Str} (none : overrideDays host cfg settings serverId = .null)
    (given : defaultDays host cfg = some v) (positive : Positive host v days)

inductive Interrupts [Floats F] (r : ArtifactRow) : Prop
  | days {t : List Char} (column : r.retentionPolicy = some t)
    (infinite : Infinite host (textDays host t))
  | default {t : List Char} (column : r.retentionPolicy = some t)
    (vain : Vain host (textDays host t)) (undecided : Undecided cfg settings r.serverId)
    (infinite : ∀ v, defaultDays host cfg = some v → Infinite host v)

def Spared (r : ArtifactRow) : Prop :=
  ∀ days, Offers host cfg settings r.serverId days → fits (r.createdAt + days * perDay) = false

/-- Days that the policy gives are positive, or there is nothing to fall back on; a text that
is no number gives no other days than the manager falls back on; and what the configuration
says about the server is positive, or there is nothing to fall back on. -/
structure Respected [Floats F] (r : ArtifactRow) (policy : Value F Str) : Prop where
  explicit : ∀ v, policyDays host policy = some v → v ≠ .null → Vain host v →
    Spared host cfg settings r
  text : ∀ t days, r.retentionPolicy = some t → policyDays host policy = some .null →
    Positive host (textDays host t) days → fits (r.createdAt + days * perDay) = true →
    ∃ days, Inherits host cfg settings r.serverId days
  entry : ∀ t, r.retentionPolicy = some t → policyDays host policy = some .null →
    Vain host (textDays host t) → overrideDays host cfg settings r.serverId ≠ .null →
    Vain host (overrideDays host cfg settings r.serverId) → Spared host cfg settings r

variable {host cfg settings} {serverId : Option Nat} {days : Int}

def Overrides (cfg : Config F) (settings : Settings) (serverId : Option Nat) (days : Int) : Prop :=
  cfg.allowPerServerOverride = true ∧ ∃ id, serverId = some id ∧
    getServerRetentionDays settings id = some days

theorem getServerRetentionDays_eq_some {id : Nat} :
    getServerRetentionDays settings id = some days ↔
      ∃ row, settings.find id = some row ∧ row.retentionDays = some days ∧ 0 < days := by
  simp only [getServerRetentionDays, Option.bind_eq_bind, Option.bind_eq_some_iff]
  refine exists_congr fun row => and_congr_right fun _ => ?_
  constructor
  · rintro ⟨n, here, kept⟩
    split at kept
    · cases kept
      exact ⟨here, by assumption⟩
    · cases kept
  · rintro ⟨here, above⟩
    exact ⟨days, here, by rw [if_pos above]⟩

theorem resolve_cases :
    (∃ days, Overrides cfg settings serverId days ∧ ¬Undecided cfg settings serverId ∧
      resolveRetentionDays host cfg settings serverId = some (some days)) ∨
    ((∀ days, ¬Overrides cfg settings serverId days) ∧ ¬Undecided cfg settings serverId ∧
      resolveRetentionDays host cfg settings serverId = some none) ∨
    ((∀ days, ¬Overrides cfg settings serverId days) ∧ Undecided cfg settings serverId ∧
      resolveRetentionDays host cfg settings serverId =
        (defaultDays host cfg).bind (positive host)) := by
  cases allowed : cfg.allowPerServerOverride with
  | false =>
    refine .inr (.inr ⟨?_, ?_, by simp [resolveRetentionDays, allowed]⟩)
    · exact fun days past => by cases allowed.symm.trans past.1
    · exact fun open_ => by cases allowed.symm.trans open_
  | true =>
    cases serverId with
    | none =>
      refine .inr (.inr ⟨?_, ?_, by simp [resolveRetentionDays, allowed]⟩)
      · rintro days ⟨_, id, here, _⟩
        cases here
      · rintro _ id here
        cases here
    | some id =>
      cases found : settings.find id with
      | none =>
        refine .inr (.inr ⟨?_, ?_, by simp [resolveRetentionDays, allowed, found]⟩)
        · rintro days ⟨_, id', here, past⟩
          cases here
          obtain ⟨row, there, _⟩ := getServerRetentionDays_eq_some.mp past
          cases found.symm.trans there
        · rintro _ id' here row there
          cases here
          cases found.symm.trans there
      | some row =>
        have known : ∀ days, Overrides cfg settings (some id) days →
            row.retentionDays = some days ∧ 0 < days := by
          rintro days ⟨_, id', here, past⟩
          cases here
          obtain ⟨row', there, holds⟩ := getServerRetentionDays_eq_some.mp past
          cases found.symm.trans there
          exact holds
        cases here : row.retentionDays with
        | none =>
          refine .inr (.inl ⟨?_, ?_, by simp [resolveRetentionDays, allowed, found, here]⟩)
          · exact fun days past => by cases here.symm.trans (known days past).1
          · intro undecided
            obtain ⟨n, _, there⟩ := undecided allowed id rfl row found
            cases here.symm.trans there
        | some n =>
          by_cases above : 0 < n
          · refine .inl ⟨n, ⟨allowed, id, rfl, ?_⟩, ?_,
              by simp [resolveRetentionDays, allowed, found, here, above]⟩
            · exact getServerRetentionDays_eq_some.mpr ⟨row, found, here, above⟩
            · intro undecided
              obtain ⟨m, low, there⟩ := undecided allowed id rfl row found
              cases here.symm.trans there
              omega
          · refine .inr (.inr ⟨?_, ?_,
              by simp [resolveRetentionDays, allowed, found, here, above]⟩)
            · intro days past
              obtain ⟨there, high⟩ := known days past
              cases here.symm.trans there
              exact above high
            · rintro _ id' same row' there
              cases same
              cases found.symm.trans there
              exact ⟨n, by omega, here⟩

theorem offers_of_undecided (none : ∀ days, ¬Overrides cfg settings serverId days) :
    Offers host cfg settings serverId days ↔ Undecided cfg settings serverId ∧
      ∃ v, defaultDays host cfg = some v ∧ Positive host v days := by
  constructor
  · intro offers
    cases offers with
    | override allowed here found => exact absurd ⟨allowed, _, here, found⟩ (none days)
    | default undecided given positive => exact ⟨undecided, _, given, positive⟩
  · rintro ⟨undecided, v, given, positive⟩
    exact .default undecided given positive

theorem resolve_eq_some : resolveRetentionDays host cfg settings serverId = some (some days) ↔
    Offers host cfg settings serverId days := by
  rcases @resolve_cases _ host cfg settings serverId with ⟨n, past, decided, value⟩ |
    ⟨none, decided, value⟩ | ⟨none, undecided, value⟩
  · rw [value]
    constructor
    · intro same
      cases same
      obtain ⟨allowed, id, here, found⟩ := past
      exact .override allowed here found
    · intro offers
      cases offers with
      | override allowed here found =>
        obtain ⟨_, id, there, other⟩ := past
        cases here.symm.trans there
        rw [← found, other]
      | default undecided => exact absurd undecided decided
  · rw [value, offers_of_undecided none]
    simp [decided]
  · rw [value, offers_of_undecided none, Option.bind_eq_some_iff]
    simp only [undecided, true_and, positive_eq_some]

theorem resolve_eq_none : resolveRetentionDays host cfg settings serverId = none ↔
    Undecided cfg settings serverId ∧ ∀ v, defaultDays host cfg = some v → Infinite host v := by
  rcases @resolve_cases _ host cfg settings serverId with ⟨n, _, decided, value⟩ |
    ⟨_, decided, value⟩ | ⟨_, undecided, value⟩
  · simp [value, decided]
  · simp [value, decided]
  · rw [value, Option.bind_eq_none_iff]
    simp only [undecided, true_and, positive_eq_none]

end Periods

section Window

variable [Floats F] {host : Host F} {cfg : Config F} {settings : Settings} {r : ArtifactRow}
  {t : List Char}

theorem parsePolicyDays_eq (t : List Char) :
    parsePolicyDays host t = positive host (textDays host t) := by
  unfold parsePolicyDays
  simp only
  split
  · rename_i blank
    have null : textDays host t = .null := by
      apply textDays_eq_null
      · intro l
        apply loads_ne_dict
        rw [blank]
        exact List.not_mem_nil
      · rw [blank]
        rfl
    rw [null]
    rfl
  · rfl

theorem parsePolicyDays_cases (host : Host F) (t : List Char) :
    (∃ days, parsePolicyDays host t = some (some days) ∧ Positive host (textDays host t) days) ∨
      (parsePolicyDays host t = some none ∧ Vain host (textDays host t)) ∨
      (parsePolicyDays host t = none ∧ Infinite host (textDays host t)) := by
  rw [parsePolicyDays_eq]
  exact positive_cases

theorem window_eq_some (column : r.retentionPolicy = some t) {expiresAt : Int} :
    window host cfg settings r = some (some expiresAt) ↔ ∃ days,
      (Positive host (textDays host t) days ∨
        (Vain host (textDays host t) ∧ Offers host cfg settings r.serverId days)) ∧
      r.createdAt + days * perDay = expiresAt := by
  rcases parsePolicyDays_cases host t with ⟨days, parsed, holds⟩ | ⟨parsed, vain⟩ |
    ⟨parsed, infinite⟩
  · simp only [window, column, parsed, Option.bind_eq_bind, Option.bind_some, Option.map_some,
      Option.pure_def, Option.some.injEq]
    constructor
    · intro same
      exact ⟨days, .inl holds, same⟩
    · rintro ⟨other, given | ⟨vain, _⟩, same⟩
      · cases holds.1.symm.trans given.1
        exact same
      · exact absurd holds (vain.2 days)
  · have none : ∀ days, ¬Positive host (textDays host t) days := vain.2
    simp only [window, column, parsed, Option.bind_eq_bind, Option.bind_some, Option.pure_def,
      Option.bind_eq_some_iff, Option.some.injEq, Option.map_eq_some_iff, none, vain, true_and,
      false_or, ← resolve_eq_some]
    constructor
    · rintro ⟨_, resolved, days, rfl, same⟩
      exact ⟨days, resolved, same⟩
    · rintro ⟨days, resolved, same⟩
      exact ⟨_, resolved, days, rfl, same⟩
  · simp only [window, column, parsed, Option.bind_eq_bind, Option.bind_none]
    constructor
    · intro same
      cases same
    · rintro ⟨days, positive | ⟨vain, _⟩, _⟩
      · cases infinite.symm.trans positive.1
      · exact absurd infinite vain.1

theorem window_eq_none (column : r.retentionPolicy = some t) :
    window host cfg settings r = none ↔ Interrupts host cfg settings r := by
  rcases parsePolicyDays_cases host t with ⟨days, parsed, holds⟩ | ⟨parsed, vain⟩ |
    ⟨parsed, infinite⟩
  · simp only [window, column, parsed, Option.bind_eq_bind, Option.bind_some, Option.pure_def,
      reduceCtorEq, false_iff]
    intro interrupts
    cases interrupts with
    | days here infinite =>
      cases column.symm.trans here
      cases infinite.symm.trans holds.1
    | default here vain =>
      cases column.symm.trans here
      exact vain.2 days holds
  · simp only [window, column, parsed, Option.bind_eq_bind, Option.bind_some, Option.pure_def,
      Option.bind_eq_none_iff, reduceCtorEq, imp_false, ← Option.eq_none_iff_forall_ne_some]
    rw [resolve_eq_none]
    constructor
    · rintro ⟨undecided, infinite⟩
      exact .default column vain undecided infinite
    · intro interrupts
      cases interrupts with
      | days here infinite =>
        cases column.symm.trans here
        exact absurd infinite vain.1
      | default here _ undecided infinite => exact ⟨undecided, infinite⟩
  · simp only [window, column, parsed, Option.bind_eq_bind, Option.bind_none, true_iff]
    exact .days column infinite

end Window

section Decisions

variable [Floats F] {host : Host F} {cfg : Config F} {settings : Settings} {r : ArtifactRow}
  {policy v : Value F Str}

structure Decided (host : Host F) (cfg : Config F) (settings : Settings) (r : ArtifactRow)
    (policy : Value F Str) : Prop where
  clean : policy.all (fun s => decide (join s = s)) cleanKeys = true
  column : stored host policy = some r.retentionPolicy
  expiry : policy ≠ .null → ∃ days,
    Manager.resolveRetentionDays host cfg settings policy r.serverId = some days ∧
      computeExpiresAt host days r.createdAt = some r.expiresAt

theorem stored_ne_none (here : policy ≠ .null) (column : stored host policy = some r.retentionPolicy) :
    ∃ t, r.retentionPolicy = some t := by
  cases text : r.retentionPolicy with
  | some t => exact ⟨t, rfl⟩
  | none =>
    rw [text] at column
    unfold stored at column
    split at column
    · exact absurd rfl here
    · split at column <;> cases column
    · split at column <;> cases column

variable (decided : Decided host cfg settings r policy)

include decided

theorem Decided.explicit (read : policyDays host policy = some v) (here : v ≠ .null) :
    r.expiresAt = none ↔ Vain host v := by
  have some_policy : policy ≠ .null := by
    rintro rfl
    cases read
    exact here rfl
  obtain ⟨days, resolved, computed⟩ := decided.expiry some_policy
  have same : days = v := by
    simp only [Manager.resolveRetentionDays, read, Option.bind_eq_bind, Option.bind_some,
      orElse_of_ne_null here] at resolved
    cases v with
    | null => exact absurd rfl here
    | _ => exact (Option.some.inj resolved).symm
  exact same ▸ expiry_eq_none computed

theorem Decided.inherited (some_policy : policy ≠ .null)
    (read : policyDays host policy = some .null) :
    r.expiresAt = none ↔ ∀ days, ¬Inherits host cfg settings r.serverId days := by
  obtain ⟨days, resolved, computed⟩ := decided.expiry some_policy
  rw [expiry_eq_none computed, vain_iff computed]
  simp only [Manager.resolveRetentionDays, read, Option.bind_eq_bind, Option.bind_some,
    orElse] at resolved
  apply forall_congr'
  intro n
  apply not_congr
  split at resolved
  · rename_i none
    constructor
    · exact fun holds => .default none resolved holds
    · intro inherits
      cases inherits with
      | override positive => rw [none] at positive; cases positive.1
      | default _ given positive => cases resolved.symm.trans given; exact positive
  · rename_i some_override
    cases resolved
    constructor
    · exact fun holds => .override holds
    · intro inherits
      cases inherits with
      | override positive => exact positive
      | default none => exact absurd none some_override

end Decisions

section Exact

variable [Floats F] {host : Host F} {cfg : Config F} {settings : Settings}
  {r : ArtifactRow} {policy : Value F Str}

theorem policyDays_of_decided (decided : Decided host cfg settings r policy)
    (some_policy : policy ≠ .null) : ∃ v, policyDays host policy = some v := by
  obtain ⟨days, resolved, _⟩ := decided.expiry some_policy
  simp only [Manager.resolveRetentionDays, Option.bind_eq_bind, Option.bind_eq_some_iff] at resolved
  obtain ⟨v, read, _⟩ := resolved
  exact ⟨v, read⟩

variable [LawfulFloats F]

theorem Decided.respected_iff (decided : Decided host cfg settings r policy) :
    Respected host cfg settings r policy ↔ ∀ expiresAt, selected r = true →
      window host cfg settings r = some (some expiresAt) → fits expiresAt = false := by
  have due : ∀ {t}, r.retentionPolicy = some t → r.expiresAt = none → selected r = true := by
    intro t column never
    simp [selected, column, never]
  have no_null : ∀ {t}, r.retentionPolicy = some t → policy ≠ .null := by
    rintro t column rfl
    have empty := decided.column
    rw [column] at empty
    cases empty
  constructor
  · intro respected expiresAt chosen given
    simp only [selected, Bool.and_eq_true, Option.isNone_iff_eq_none, Option.isSome_iff_exists]
      at chosen
    obtain ⟨never, t, column⟩ := chosen
    have some_policy := no_null column
    obtain ⟨v, read⟩ := policyDays_of_decided decided some_policy
    have written : stored host policy = some (some t) := column ▸ decided.column
    obtain ⟨days, source, rfl⟩ := (window_eq_some column).mp given
    by_cases explicit : v = .null
    · subst explicit
      have nothing := (decided.inherited some_policy read).mp never
      rcases source with positive | ⟨vain, offers⟩
      · by_contra fitting
        obtain ⟨other, inherits⟩ :=
          respected.text t days column read positive (Bool.not_eq_false _ ▸ fitting)
        exact nothing other inherits
      · by_cases none : overrideDays host cfg settings r.serverId = .null
        · cases offers with
          | override allowed here found =>
            rw [here] at none
            simp [overrideDays, allowed, found] at none
          | default _ other positive => exact absurd (.default none other positive) (nothing days)
        · obtain ⟨w, resolved, computed⟩ := decided.expiry some_policy
          simp only [Manager.resolveRetentionDays, read, Option.bind_eq_bind, Option.bind_some,
            orElse] at resolved
          obtain rfl := Option.some.inj resolved
          have useless := (expiry_eq_none computed).mp never
          exact respected.entry t column read vain none useless days offers
    · have vain := (decided.explicit read explicit).mp never
      have useless := vain_stored decided.clean written read vain (.inl explicit)
      rcases source with positive | ⟨_, offers⟩
      · exact absurd positive (useless.2 days)
      · exact respected.explicit v read explicit vain days offers
  · intro refused
    refine ⟨?_, ?_, ?_⟩
    · intro v read explicit vain days offers
      have some_policy : policy ≠ .null := by
        rintro rfl
        cases read
        exact explicit rfl
      obtain ⟨t, column⟩ := stored_ne_none some_policy decided.column
      have written : stored host policy = some (some t) := column ▸ decided.column
      have useless := vain_stored decided.clean written read vain (.inl explicit)
      have never := (decided.explicit read explicit).mpr vain
      exact refused _ (due column never)
        ((window_eq_some column).mpr ⟨days, .inr ⟨useless, offers⟩, rfl⟩)
    · intro t days column read positive fitting
      by_contra nothing
      have never := (decided.inherited (no_null column) read).mpr fun other inherits =>
        nothing ⟨other, inherits⟩
      have late := refused _ (due column never)
        ((window_eq_some column).mpr ⟨days, .inl positive, rfl⟩)
      exact absurd fitting (Bool.eq_false_iff.mp late)
    · intro t column read vain some_override useless days offers
      have never := (decided.inherited (no_null column) read).mpr fun other inherits => by
        cases inherits with
        | override positive => exact useless.2 other positive
        | default none => exact some_override none
      exact refused _ (due column never)
        ((window_eq_some column).mpr ⟨days, .inr ⟨vain, offers⟩, rfl⟩)

end Exact

theorem expiry_eq_some {host : Host F} {cfg : Config F} {settings : Settings} {policy : Value F Str} {serverId : Option Nat}
    {createdAt : Int} {expiresAt : Option Int} :
    expiry host cfg settings policy serverId createdAt = some expiresAt ↔ ∃ days,
      Manager.resolveRetentionDays host cfg settings policy serverId = some days ∧
        computeExpiresAt host days createdAt = some expiresAt := Option.bind_eq_some_iff

section Writes

variable [Floats F] {host : Host F} {cfg : Config F} {s s' : Store} {r : ArtifactRow}

theorem withPolicy_eq_some {row new : ArtifactRow} {policy : Value F Str}
    {expiresAt : Option Int} (made : withPolicy host row policy expiresAt = some new) :
    stored host policy = some new.retentionPolicy ∧
      new = { row with retentionPolicy := new.retentionPolicy, expiresAt } := by
  simp only [withPolicy, Option.bind_eq_bind, Option.bind_eq_some_iff] at made
  obtain ⟨column, encoded, kept⟩ := made
  split at kept
  · cases kept
    exact ⟨encoded, rfl⟩
  · cases kept

theorem decided_of_write {w : Write F} {rows : List ArtifactRow}
    (written : w.run host cfg s = some (s', rows)) (member : r ∈ rows) :
    Decided host cfg s'.settings r w.policy ∧ r ∈ s'.artifacts := by
  cases w with
  | create id serverId createdAt rev policy =>
    simp only [Write.run, create, Option.bind_eq_bind, Option.bind_eq_some_iff] at written
    obtain ⟨expiresAt, computed, row, made, artifacts, inserted, same⟩ := written
    cases same
    obtain rfl := List.mem_singleton.mp member
    obtain ⟨column, shape⟩ := withPolicy_eq_some made
    refine ⟨⟨policy.clean, column, fun _ => ?_⟩, (Table.mem_insert inserted).mpr (.inr rfl)⟩
    rw [shape]
    exact expiry_eq_some.mp computed
  | update id policy expectedRev =>
    simp only [Write.run, update] at written
    split at written
    · cases written
      cases member
    · rename_i existing found
      simp only [Option.bind_eq_bind, Option.bind_eq_some_iff] at written
      obtain ⟨expiresAt, computed, new, made, written⟩ := written
      split at written
      · cases written
        obtain rfl := List.mem_singleton.mp member
        obtain ⟨there, here⟩ := Table.find_eq_some.mp found
        obtain ⟨column, shape⟩ := withPolicy_eq_some made
        have expires : new.expiresAt = expiresAt := by rw [shape]
        refine ⟨⟨policy.clean, column, fun some_policy => ?_⟩, ?_⟩
        · unfold updatedExpiry at computed
          split at computed
          · exact absurd ‹_› some_policy
          · exact expires ▸ expiry_eq_some.mp computed
        · dsimp only
          rw [Table.mem_update]
          exact ⟨existing, there, (if_pos (decide_eq_true here)).symm⟩
      · cases written
        cases member
  | setServer serverId retentionDays =>
    simp only [Write.run, setServerRetentionDays, Option.bind_eq_bind,
      Option.bind_eq_some_iff] at written
    obtain ⟨settings, _, days, _, written⟩ := written
    split at written
    · cases written
      obtain ⟨q, chosen, rfl⟩ := List.mem_map.mp member
      obtain ⟨there, inherits⟩ := List.mem_filter.mp chosen
      refine ⟨⟨rfl, ?_, fun some_policy => absurd rfl some_policy⟩, ?_⟩
      · have empty : q.retentionPolicy = none :=
          Option.isNone_iff_eq_none.mp (Bool.and_eq_true_iff.mp inherits).2
        exact congrArg some empty.symm
      · dsimp only
        rw [Table.mem_update]
        exact ⟨q, there, (if_pos inherits).symm⟩
    · cases written

end Writes

section Runs

variable [Floats F] (host : Host F) (cfg : Config F)

def Untouched (s : Store) (r : ArtifactRow) : Prop :=
  ∀ jobs : List Job, match (jobs.foldl (Job.run host cfg) s).artifacts.find r.id with
    | some q => q.expiresAt = r.expiresAt
    | none => ∃ expiresAt now fails, r.expiresAt = some expiresAt ∧
        Job.purge now fails ∈ jobs ∧ expiresAt ≤ now

def Interrupted (s : Store) : Prop :=
  ∃ q ∈ s.artifacts, selected q = true ∧ Interrupts host cfg s.settings q

variable {host cfg} {s s' : Store} {r : ArtifactRow} {policy : Value F Str}

theorem interrupts_iff {q : ArtifactRow} (chosen : selected q = true) :
    window host cfg s.settings q = none ↔ Interrupts host cfg s.settings q := by
  simp only [selected, Bool.and_eq_true, Option.isNone_iff_eq_none, Option.isSome_iff_exists]
    at chosen
  obtain ⟨_, t, column⟩ := chosen
  exact window_eq_none column

theorem applyRetentionWindows_eq_none :
    applyRetentionWindows host cfg s = none ↔ Interrupted host cfg s := by
  have found : (s.artifacts.rows.any fun q =>
      selected q && (window host cfg s.settings q).isNone) = true ↔ Interrupted host cfg s := by
    simp only [List.any_eq_true, Bool.and_eq_true, Option.isNone_iff_eq_none]
    refine exists_congr fun q => and_congr_right fun _ => ?_
    exact and_congr_right fun chosen => interrupts_iff chosen
  rw [← found]
  unfold applyRetentionWindows
  split
  · simp [*]
  · simp [*]

def afterPass (host : Host F) (cfg : Config F) (settings : Settings) (r : ArtifactRow) :
    ArtifactRow :=
  if selected r then
    { r with expiresAt := ((window host cfg settings r).getD none).filter fits }
  else r

theorem id_afterPass {settings : Settings} (r : ArtifactRow) :
    (afterPass host cfg settings r).id = r.id := by
  unfold afterPass
  split <;> rfl

theorem applyRetentionWindows_eq_some (applied : applyRetentionWindows host cfg s = some s') :
    s'.settings = s.settings ∧ ∀ q, q ∈ s'.artifacts ↔
      ∃ q' ∈ s.artifacts, q = afterPass host cfg s.settings q' := by
  unfold applyRetentionWindows at applied
  split at applied
  · cases applied
  · cases applied
    refine ⟨rfl, fun q => ?_⟩
    dsimp only
    rw [Table.mem_update]
    rfl

theorem eq_of_id {q : ArtifactRow} (member : r ∈ s.artifacts) (other : q ∈ s.artifacts)
    (same : q.id = r.id) : q = r := by
  have here := Table.find_eq_some.mpr ⟨member, rfl⟩
  have there := Table.find_eq_some.mpr ⟨other, same⟩
  exact Option.some.inj (there.symm.trans here)

def Windowless (host : Host F) (cfg : Config F) (settings : Settings) (r : ArtifactRow) : Prop :=
  ∀ expiresAt, selected r = true →
    window host cfg settings r = some (some expiresAt) → fits expiresAt = false

theorem afterPass_eq {settings : Settings} (windowless : Windowless host cfg settings r) :
    afterPass host cfg settings r = r := by
  unfold afterPass
  split
  · rename_i chosen
    have never : r.expiresAt = none :=
      Option.isNone_iff_eq_none.mp (Bool.and_eq_true_iff.mp chosen).1
    have empty : ((window host cfg settings r).getD none).filter fits = none := by
      rw [Option.filter_eq_none_iff]
      intro expiresAt due
      cases given : window host cfg settings r with
      | none => rw [given] at due; cases due
      | some w =>
        rw [given] at due
        have same : w = some expiresAt := due
        exact Bool.eq_false_iff.mp (windowless expiresAt chosen (given.trans (congrArg some same)))
    rw [empty, ← never]
  · rfl

structure Safe (host : Host F) (cfg : Config F) (settings : Settings) (r : ArtifactRow)
    (jobs : List Job) (s : Store) : Prop where
  unchanged : s.settings = settings
  same : ∀ q ∈ s.artifacts, q.id = r.id → q = r
  there : r ∈ s.artifacts ∨ ∃ expiresAt now fails, r.expiresAt = some expiresAt ∧
    Job.purge now fails ∈ jobs ∧ expiresAt ≤ now
  spared : Interrupted host cfg s ∨ Windowless host cfg settings r

variable {settings : Settings} {jobs : List Job}

theorem Safe.purged (safe : Safe host cfg settings r jobs s) (job : Job) :
    r ∈ s.artifacts ∨ ∃ expiresAt now fails, r.expiresAt = some expiresAt ∧
      Job.purge now fails ∈ jobs ++ [job] ∧ expiresAt ≤ now :=
  safe.there.imp_right fun ⟨expiresAt, now, fails, expires, member, past⟩ =>
    ⟨expiresAt, now, fails, expires, List.mem_append_left _ member, past⟩

theorem Safe.apply (safe : Safe host cfg settings r jobs s) :
    Safe host cfg settings r (jobs ++ [.apply]) (Job.run host cfg s .apply) := by
  unfold Job.run
  cases applied : applyRetentionWindows host cfg s with
  | none => exact { safe with there := safe.purged .apply }
  | some s' =>
    have windowless : Windowless host cfg settings r := by
      refine safe.spared.resolve_left fun interrupted => ?_
      rw [applyRetentionWindows_eq_none.mpr interrupted] at applied
      cases applied
    have still : afterPass host cfg s.settings r = r :=
      afterPass_eq (safe.unchanged.symm ▸ windowless)
    obtain ⟨unchanged, rows⟩ := applyRetentionWindows_eq_some applied
    refine ⟨unchanged.trans safe.unchanged, ?_, ?_, .inr windowless⟩
    · intro q member here
      obtain ⟨q', before, rfl⟩ := (rows q).mp member
      rw [id_afterPass] at here
      rw [safe.same q' before here, still]
    · exact (safe.purged .apply).imp_left fun there => (rows r).mpr ⟨r, there, still.symm⟩

theorem Safe.purge (safe : Safe host cfg settings r jobs s) (now : Int)
    (fails : Nat → Bool) : Safe host cfg settings r (jobs ++ [.purge now fails])
      (Job.run host cfg s (.purge now fails)) := by
  refine ⟨safe.unchanged, ?_, ?_, ?_⟩
  · intro q member here
    exact safe.same q (Table.mem_delete.mp member).1 here
  · rcases safe.purged (.purge now fails) with there | gone
    · cases due : r.expiresAt.any (· ≤ now) && !fails r.id with
      | false => exact .inl (Table.mem_delete.mpr ⟨there, due⟩)
      | true =>
        obtain ⟨expiresAt, expires, past⟩ :=
          (Option.any_eq_true _ _).mp (Bool.and_eq_true_iff.mp due).1
        exact .inr ⟨expiresAt, now, fails, expires, by simp, of_decide_eq_true past⟩
    · exact .inr gone
  · refine safe.spared.imp_left fun ⟨q, member, chosen, interrupts⟩ => ⟨q, ?_, chosen, interrupts⟩
    refine Table.mem_delete.mpr ⟨member, ?_⟩
    have never : q.expiresAt = none :=
      Option.isNone_iff_eq_none.mp (Bool.and_eq_true_iff.mp chosen).1
    rw [never]
    rfl

theorem safe_of_jobs (member : r ∈ s.artifacts)
    (spared : Interrupted host cfg s ∨ Windowless host cfg s.settings r) (jobs : List Job) :
    Safe host cfg s.settings r jobs (jobs.foldl (Job.run host cfg) s) := by
  induction jobs using List.reverseRecOn with
  | nil => exact ⟨rfl, fun q other same => eq_of_id member other same, .inl member, spared⟩
  | append_singleton jobs job ih =>
    rw [List.foldl_append, List.foldl_cons, List.foldl_nil]
    cases job with
    | apply => exact ih.apply
    | purge now fails => exact ih.purge now fails

theorem untouched_iff (member : r ∈ s.artifacts) : Untouched host cfg s r ↔
    Interrupted host cfg s ∨ Windowless host cfg s.settings r := by
  constructor
  · intro untouched
    by_contra neither
    rw [not_or] at neither
    obtain ⟨ran, windowed⟩ := neither
    unfold Windowless at windowed
    push Not at windowed
    obtain ⟨expiresAt, chosen, given, fitting⟩ := windowed
    cases applied : applyRetentionWindows host cfg s with
    | none => exact ran (applyRetentionWindows_eq_none.mp applied)
    | some s' =>
      have pass : afterPass host cfg s.settings r = { r with expiresAt := some expiresAt } := by
        rw [afterPass, if_pos chosen, given, Option.getD_some,
          Option.filter_some_pos (by simpa using fitting)]
      have found : s'.artifacts.find r.id = some { r with expiresAt := some expiresAt } := by
        rw [Table.find_eq_some]
        exact ⟨((applyRetentionWindows_eq_some applied).2 _).mpr ⟨r, member, pass.symm⟩, rfl⟩
      have kept := untouched [.apply]
      simp only [List.foldl_cons, List.foldl_nil, Job.run, applied, Option.getD_some, found] at kept
      have never : r.expiresAt = none :=
        Option.isNone_iff_eq_none.mp (Bool.and_eq_true_iff.mp chosen).1
      cases kept.trans never
  · intro spared jobs
    have safe := safe_of_jobs member spared jobs
    split
    · rename_i q found
      obtain ⟨there, here⟩ := Table.find_eq_some.mp found
      rw [safe.same q there here]
    · rename_i missing
      refine safe.there.resolve_left fun there => ?_
      exact absurd rfl (Table.find_eq_none.mp missing r there)

end Runs

section Claims

/-- The job leaves the expiry that the manager has set exactly where its pass raises or what
it reads agrees with the decision. -/
theorem retention_exact [Floats F] [LawfulFloats F] (host : Host F) (cfg : Config F)
    {s s' : Store} {w : Write F} {rows : List ArtifactRow}
    (written : w.run host cfg s = some (s', rows)) {r : ArtifactRow} (member : r ∈ rows) :
    Untouched host cfg s' r ↔
      Interrupted host cfg s' ∨ Respected host cfg s'.settings r w.policy := by
  obtain ⟨decided, there⟩ := decided_of_write written member
  rw [untouched_iff there, decided.respected_iff]
  rfl

def specialHost : Host Special where
  truncate
    | .nan => .error .refused
    | _ => .error .overflow
  isZero _ := false
  depth := 8

def thirtyDays : Config Special where
  allowPerServerOverride := true
  servers _ := .null
  defaultRetentionDays := .int 30
  evaluationEnabled := false
  evaluationTtlDays := .int 30
  licensed := false

def noArtifacts : Store := ⟨Table.empty, Table.empty⟩

def forGood : Policy Special := ⟨.dict [(name "days", .int 0)], by decide⟩

theorem retention_exact_seven : ∃ s' r,
    (Write.create 1 none 0 0 ⟨.int 7, rfl⟩).run specialHost thirtyDays noArtifacts =
      some (s', [r]) ∧ r.expiresAt = some (7 * perDay) ∧
    (Untouched specialHost thirtyDays s' r ↔ Interrupted specialHost thirtyDays s' ∨
      Respected specialHost thirtyDays s'.settings r (.int 7)) := by
  have written : (Write.create 1 none 0 0 ⟨.int 7, rfl⟩).run specialHost thirtyDays noArtifacts =
      some (_, [_]) := rfl
  exact ⟨_, _, written, rfl, retention_exact _ _ written List.mem_cons_self⟩

/-- An artifact that is never to expire gets the default of thirty days. -/
theorem retention_overruled : ¬ ∀ (host : Host Special) (cfg : Config Special) (s s' : Store)
    (w : Write Special) (rows : List ArtifactRow), w.run host cfg s = some (s', rows) →
      ∀ r ∈ rows, Untouched host cfg s' r := by
  intro h
  have written : (Write.create 1 none 0 0 forGood).run specialHost thirtyDays noArtifacts =
      some (_, [_]) := rfl
  have kept := h _ _ _ _ _ _ written _ List.mem_cons_self [.apply]
  cases kept

end Claims

end Plexichat.Artifacts.Retention
