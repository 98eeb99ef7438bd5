import Plexichat.Encryption.RatchetRoundTrip
import Plexichat.Messaging.Content

/-! edit_message in one piece: which edits are read back as they were requested. An edit
whose blind index equals the stored one is taken for no edit at all. -/
namespace Plexichat.Messaging.Content
open Encryption Checks Transition

inductive EditError where
  | notFound | accessDenied | conflict (expected actual : Nat) | windowExpired
  | invalid (issues : List String) | encryption

/-- `edit_window_seconds` and what is asked when it has passed. -/
structure Window where
  seconds : Nat
  nowCheck : Nat
  canEditOutside : Bool

structure EditCall where
  id : Nat
  conversationId : Nat
  userId : Nat
  content : Text
  expectedEditedAt : Option Nat
  participant : Bool
  window : Window
  filter : ContentFilter
  maxLength : Nat
  now : Nat

def Window.expired (w : Window) (createdAt : Nat) : Bool :=
  0 < w.seconds && 0 < createdAt && createdAt + w.seconds * 1000 < w.nowCheck && !w.canEditOutside

def EditCall.sanitized (cfg : Config) (e : EditCall) : Text :=
  (validateContent cfg.rules e.filter e.maxLength e.content).sanitizedContent

def plainEnvelope (draws : Draws) (process : Reader) (e : EditCall) (sanitized : Text) :
    Reader × Option Text :=
  let made := MessageEncryptor.encryptMessage process.aead draws.fresh draws.nonce
    process.messageRing sanitized (some e.id)
  ({ process with messageRing := made.1 }, made.2)

def ratchetEnvelope (draws : Draws) (process : Reader) (e : EditCall) (sanitized : Text) :
    Option (Ratchet.State × Option Text) :=
  match process.ratchetManager with
  | some manager =>
    if process.licensed ∧ e.conversationId ≠ 0 then
      some (Ratchet.encrypt process.aead process.kdf manager e.conversationId e.id
        (Text.utf8 sanitized) e.now draws.nonce draws.draw)
    else none
  | none => none

/-- The text for the content column. An exception of the ratchet falls back on the plain
encryptor. -/
def editContent (cfg : Config) (draws : Draws) (process : Reader) (e : EditCall)
    (sanitized : Text) : Reader × Option Text :=
  if cfg.encryptMessages then
    match ratchetEnvelope draws process e sanitized with
    | some (manager, some text) => ({ process with ratchetManager := some manager }, some text)
    | some (manager, none) =>
      plainEnvelope draws { process with ratchetManager := some manager } e sanitized
    | none => plainEnvelope draws process e sanitized
  else (process, some sanitized)

/-- `update_content` of the repository. -/
def updateContent (row : MessageRow) (content index : Text) (now : Nat) : MessageRow :=
  row.rewrite content (some index) (row.nextRevision now) (decide (row.content ≠ content))

def editMessage (cfg : Config) (draws : Draws) (process : Reader) (e : EditCall)
    (row : MessageRow) : Except EditError (Reader × MessageRow) := do
  ensure (row.deleted = false) .notFound
  ensure (e.participant = true) .notFound
  ensure (row.authorId = e.userId) .accessDenied
  ensure (e.expectedEditedAt.all (· = row.revision) = true)
    (.conflict (e.expectedEditedAt.getD 0) row.revision)
  ensure (e.window.expired row.createdAt = false) .windowExpired
  let result := validateContent cfg.rules e.filter e.maxLength e.content
  ensure (result.valid = true) (.invalid result.issues)
  let sanitized := result.sanitizedContent
  if row.contentIndex = some (cfg.blindIndex sanitized) then return (process, row)
  else
    let stored := editContent cfg draws process e sanitized
    let content ← found stored.2 .encryption
    return (stored.1, updateContent row content (cfg.blindIndex sanitized) e.now)

/-! When an edit takes effect. -/

def usesRatchet (draws : Draws) (process : Reader) (e : EditCall) (sanitized : Text) : Bool :=
  (ratchetEnvelope draws process e sanitized).any fun r => r.2.isSome

/-- An UPDATE with the stored text keeps the legacy ciphertext, which is read in place of
the text `[encrypted]`. -/
def LegacyAgrees (process : Reader) (row : MessageRow) (sanitized : Text) : Prop :=
  sanitized = "[encrypted]".toList → row.content = sanitized →
    ∀ legacy, row.contentEncrypted = some legacy → legacy ≠ [] →
      (decryptData process.aead process.systemRing legacy).getD decryptionFailed = sanitized

def WrittenReadable (cfg : Config) (draws : Draws) (process : Reader) (e : EditCall)
    (row : MessageRow) (sanitized : Text) : Prop :=
  if cfg.encryptMessages = false then
    encPrefix.isPrefixOf sanitized = false ∧ LegacyAgrees process row sanitized
  else usesRatchet draws process e sanitized = true ∨
    (process.messageRing.ensureKey draws.fresh).currentVersion ≠ 3 ∨
    sanitized = process.placeholder

structure WellFormed (process : Reader) : Prop where
  ring : Reachable keyringStep (· = Ring.empty) process.messageRing
  manager : ∀ s, process.ratchetManager = some s →
    ∃ cfg, Reachable (Ratchet.step process.aead process.kdf cfg) Ratchet.Initial s

section Effect

variable {cfg : Config} {draws : Draws} {process after : Reader} {e : EditCall}
  {row row' : MessageRow} {sanitized : Text}

theorem WellFormed.sound (ok : WellFormed process) {s : Ratchet.State}
    (there : process.ratchetManager = some s) : Ratchet.Sound process.aead s := by
  obtain ⟨cfg, reached⟩ := ok.manager s there
  exact Ratchet.sound_of_reachable reached

theorem rowContent_legacy {reader : Reader} (plain : encPrefix.isPrefixOf sanitized = false)
    (id conversationId : Nat) (legacy : Option Text) :
    reader.rowContent ⟨id, conversationId, sanitized, legacy⟩ = sanitized ↔
      ∀ text, legacy = some text → text ≠ [] → sanitized = "[encrypted]".toList →
        (decryptData reader.aead reader.systemRing text).getD decryptionFailed = sanitized := by
  simp only [Reader.rowContent, MessageEncryptor.isEncrypted, plain, Bool.false_eq_true, if_false]
  cases legacy with
  | none => simp
  | some text =>
    simp only [Option.some_inj, forall_eq']
    split
    · rename_i both
      exact ⟨fun same _ _ => same, fun law => law both.1 both.2⟩
    · rename_i other
      refine iff_of_true rfl ?_
      intro nonempty same
      exact absurd ⟨nonempty, same⟩ other

theorem plainEnvelope_reads (usable : Usable process.messageRing) {text : Text}
    (made : plainEnvelope draws process e sanitized = (after, some text)) (legacy : Option Text) :
    after.rowContent ⟨e.id, e.conversationId, text, legacy⟩ = sanitized ↔
      (process.messageRing.ensureKey draws.fresh).currentVersion ≠ 3 ∨
        sanitized = process.placeholder := by
  obtain ⟨key, bound, spec⟩ := MessageEncryptor.encryptMessage_spec process.aead draws.fresh
    draws.nonce usable sanitized (some e.id)
  simp only [plainEnvelope, spec, Prod.mk.injEq, Option.some_inj] at made
  obtain ⟨rfl, rfl⟩ := made
  by_cases three : (process.messageRing.ensureKey draws.fresh).currentVersion = 3
  · rw [three, rowContent_of_version_three]
    constructor
    · exact fun same => .inr same.symm
    · intro either
      exact (either.resolve_left fun other => other rfl).symm
  · exact iff_of_true (rowContent_of_other_version _ three bound _ _ _ _ _) (.inl three)

theorem ratchet_reads (ok : WellFormed process) {manager : Ratchet.State} {text : Text}
    (made : ratchetEnvelope draws process e sanitized = some (manager, some text))
    (legacy : Option Text) :
    ({ process with ratchetManager := some manager } : Reader).rowContent
      ⟨e.id, e.conversationId, text, legacy⟩ = sanitized := by
  unfold ratchetEnvelope at made
  split at made
  · rename_i s there
    split at made
    · rename_i allowed
      obtain ⟨-, -, envelopes⟩ := Ratchet.encrypt_spec process.kdf (ok.sound there)
        e.conversationId e.id e.now (Text.utf8 sanitized) draws.nonce draws.draw
      have result := Option.some.inj made
      rw [result] at envelopes
      obtain ⟨i, key, readable, derived, same⟩ := envelopes text rfl
      have opened := Ratchet.decrypt_of_readable readable derived (Text.utf8 sanitized)
      rw [← same] at opened
      have wire : Ratchet.wirePrefix.isPrefixOf text = true := by
        rw [same, List.append_assoc]
        exact List.isPrefixOf_iff_prefix.mpr (List.prefix_append _ _)
      have starts : encPrefix.isPrefixOf text = true := by
        obtain ⟨rest, rfl⟩ := List.isPrefixOf_iff_prefix.mp wire
        exact List.isPrefixOf_iff_prefix.mpr ⟨'3' :: ':' :: rest, rfl⟩
      simp only [Reader.rowContent, MessageEncryptor.isEncrypted, starts, wire, if_true, allowed.1,
        Reader.decryptMessage, opened, Text.utf8Decode_utf8, Option.getD_some]
    · cases made
  · cases made

theorem updateContent_reads {reader : Reader} (shortens : Shortens reader.aead) {index : Text}
    {now : Nat} (same : reader.aead = process.aead ∧ reader.systemRing = process.systemRing) :
    readBack reader e.id e.conversationId (updateContent row sanitized index now) = sanitized ↔
      encPrefix.isPrefixOf sanitized = false ∧ LegacyAgrees process row sanitized := by
  by_cases starts : encPrefix.isPrefixOf sanitized = true
  · refine iff_of_false (rowContent_ne_of_encPrefix shortens starts _ _ _) ?_
    intro both
    rw [starts] at both
    cases both.1
  · have plain := Bool.eq_false_iff.mpr starts
    unfold readBack updateContent MessageRow.rewrite
    rw [rowContent_legacy plain, same.1, same.2]
    simp only [decide_eq_true_eq, plain, true_and]
    unfold LegacyAgrees
    by_cases stored : row.content = sanitized
    · simp only [stored, ne_eq, not_true_eq_false, if_false, true_imp_iff]
      constructor
      · intro law marked legacy there nonempty
        exact law legacy there nonempty marked
      · intro law legacy there nonempty marked
        exact law marked legacy there nonempty
    · simp [stored]

theorem editMessage_ok (h : editMessage cfg draws process e row = .ok (after, row')) :
    (row.contentIndex = some (cfg.blindIndex (e.sanitized cfg)) ∧ after = process ∧ row' = row) ∨
      row.contentIndex ≠ some (cfg.blindIndex (e.sanitized cfg)) ∧ ∃ content,
        editContent cfg draws process e (e.sanitized cfg) = (after, some content) ∧
        row' = updateContent row content (cfg.blindIndex (e.sanitized cfg)) e.now := by
  simp only [editMessage, ensure_bind_eq_ok] at h
  obtain ⟨_, _, _, _, _, _, h⟩ := h
  split at h
  · rename_i same
    cases h
    exact .inl ⟨same, rfl, rfl⟩
  · rename_i differs
    simp only [found_bind_eq_ok, pure_eq_ok, Prod.mk.injEq] at h
    obtain ⟨content, stored, rfl, rfl⟩ := h
    exact .inr ⟨differs, content, Prod.ext rfl stored, rfl⟩

theorem written_reads (shortens : Shortens process.aead) (ok : WellFormed process) {content : Text}
    {index : Text} {now : Nat}
    (made : editContent cfg draws process e sanitized = (after, some content)) :
    readBack after e.id e.conversationId (updateContent row content index now) = sanitized ↔
      WrittenReadable cfg draws process e row sanitized := by
  unfold WrittenReadable
  unfold editContent at made
  cases mode : cfg.encryptMessages with
  | false =>
    simp only [mode, Bool.false_eq_true, if_false, Prod.mk.injEq, Option.some_inj] at made
    obtain ⟨rfl, rfl⟩ := made
    rw [if_pos rfl]
    exact updateContent_reads shortens ⟨rfl, rfl⟩
  | true =>
    simp only [mode, if_true] at made
    rw [if_neg (by decide)]
    have usable := reachable_usable ok.ring
    split at made
    · rename_i manager text route
      cases made
      exact iff_of_true (ratchet_reads ok route _) (.inl (by simp [usesRatchet, route]))
    · rename_i manager route
      have off : usesRatchet draws process e sanitized = false := by simp [usesRatchet, route]
      let fallback : Reader := { process with ratchetManager := some manager }
      have same : fallback.placeholder = process.placeholder := rfl
      have reads := plainEnvelope_reads (show Usable fallback.messageRing from usable) made
        (updateContent row content index now).contentEncrypted
      rw [off, ← same]
      exact reads.trans (by simp [fallback])
    · rename_i route
      have off : usesRatchet draws process e sanitized = false := by simp [usesRatchet, route]
      rw [off]
      exact (plainEnvelope_reads usable made _).trans (by simp)

/-- A skipped edit is one to the content that the message already has; a written one can be
told from an envelope and from a legacy mark, or is an envelope that the reader opens. -/
def TakesEffect (cfg : Config) (draws : Draws) (process : Reader) (e : EditCall)
    (row : MessageRow) : Prop :=
  (row.contentIndex = some (cfg.blindIndex (e.sanitized cfg)) →
    readBack process e.id e.conversationId row = e.sanitized cfg) ∧
  (row.contentIndex ≠ some (cfg.blindIndex (e.sanitized cfg)) →
    WrittenReadable cfg draws process e row (e.sanitized cfg))

theorem skipped_iff (collisionFree : Function.Injective cfg.digest) {old new : Text}
    (written : row.contentIndex = some (cfg.blindIndex old)) :
    row.contentIndex = some (cfg.blindIndex new) ↔
      Numeral.strip (cfg.lower old) = Numeral.strip (cfg.lower new) := by
  rw [written, Option.some_inj]
  exact collisionFree.eq_iff

theorem edit_takes_effect_iff (shortens : Shortens process.aead) (ok : WellFormed process)
    (h : editMessage cfg draws process e row = .ok (after, row')) :
    readBack after e.id e.conversationId row' = e.sanitized cfg ↔
      TakesEffect cfg draws process e row := by
  unfold TakesEffect
  cases editMessage_ok h with
  | inl skipped =>
    obtain ⟨same, rfl, rfl⟩ := skipped
    simp [same]
  | inr written =>
    obtain ⟨differs, content, made, rfl⟩ := written
    rw [written_reads shortens ok made]
    simp [differs]

end Effect

def sampleEdit (content : Text) : EditCall where
  id := 7
  conversationId := 1
  userId := 3
  content := content
  expectedEditedAt := none
  participant := true
  window := ⟨0, 9, false⟩
  filter := ⟨false, [], .censor⟩
  maxLength := 4000
  now := 9

theorem freeTier_wellFormed : WellFormed (freeTier Ring.empty) := by
  refine ⟨.start rfl, ?_⟩
  intro s there
  cases there

/-- The author of hi wants to shout. -/
theorem shouting_is_no_edit : ¬ ∀ cfg draws (process after : Reader) (e : EditCall)
    (row row' : MessageRow), Shortens process.aead → WellFormed process →
    editMessage cfg draws process e row = .ok (after, row') →
    readBack after e.id e.conversationId row' = e.sanitized cfg := by
  intro law
  have same := law plainConfig sampleDraws (freeTier Ring.empty) (freeTier Ring.empty)
    (sampleEdit "HI".toList) (plainRow "hi".toList) (plainRow "hi".toList) shiftAead_shortens
    freeTier_wellFormed rfl
  revert same
  decide

theorem edit_takes_effect_bye : ∃ row', readBack (freeTier Ring.empty) 7 1 row' = "bye".toList := by
  have effective : TakesEffect plainConfig sampleDraws (freeTier Ring.empty)
      (sampleEdit "bye".toList) (plainRow "hi".toList) := by
    refine ⟨fun same => absurd same (by decide), fun _ => ?_⟩
    refine ⟨by decide, ?_⟩
    intro marked
    exact absurd marked (by decide)
  exact ⟨_, (@edit_takes_effect_iff plainConfig sampleDraws (freeTier Ring.empty)
    (freeTier Ring.empty) (sampleEdit "bye".toList) (plainRow "hi".toList) _ shiftAead_shortens
    freeTier_wellFormed rfl).mpr effective⟩

end Plexichat.Messaging.Content
