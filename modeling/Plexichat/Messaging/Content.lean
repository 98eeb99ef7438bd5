import Mathlib.Data.List.Infix
import Plexichat.Library.Checks
import Plexichat.Library.Numeral
import Plexichat.Messaging.Edit
import Plexichat.Encryption.MessageEncryptor

/-! services/content_filter.py and the content columns that send_message writes. The
regular expressions, the lower case of a text and the keyed hash are parameters; spoiler
and nsfw marks, reply previews and what follows the insert are left out. -/
namespace Plexichat.Messaging.Content
open Encryption

inductive FilterAction where
  | block | warn | censor | spoiler
  deriving DecidableEq

structure ContentFilter where
  profanityFilter : Bool
  customBlockedWords : List Text
  filterAction : FilterAction

/-- What `validator.validate` returns. -/
structure Verdict where
  isValid : Bool
  sanitizedValue : Option Text
  errorMessage : Option String

structure Rules where
  profanityWords : List Text
  validator : Text → Verdict
  /-- The text cut at the matches of `\b(word|...)\b`, which are marked. -/
  pieces : List Text → Text → List (Bool × Text)

structure Config where
  encryptMessages : Bool
  rules : Rules
  maxAttachments : Nat
  lower : Text → Text
  digest : Text → Text

/-- `blind_index(data, "message_content")`. -/
def Config.blindIndex (cfg : Config) (data : Text) : Text :=
  cfg.digest (Numeral.strip (cfg.lower data))

structure ContentValidationResult where
  valid : Bool
  sanitizedContent : Text
  issues : List String

def ContentFilter.words (rules : Rules) (filter : ContentFilter) : List Text :=
  ((if filter.profanityFilter then rules.profanityWords else []) ++
    filter.customBlockedWords).filter (· ≠ [])

def substitute (replace : Text → Text) (pieces : List (Bool × Text)) : Text :=
  pieces.flatMap fun p => if p.1 then replace p.2 else p.2

def applyUserFilters (rules : Rules) (filter : ContentFilter) (content : Text) : Text :=
  if filter.words rules = [] then content
  else match filter.filterAction with
    | .censor =>
      substitute (fun w => List.replicate w.length '*') (rules.pieces (filter.words rules) content)
    | .spoiler =>
      substitute (fun w => ['|', '|'] ++ w ++ ['|', '|'])
        (rules.pieces (filter.words rules) content)
    | .block => content
    | .warn => content

def unsafePatterns : String := "Content contained potentially unsafe patterns"

def validateContent (rules : Rules) (filter : ContentFilter) (maxLength : Nat) (content : Text) :
    ContentValidationResult :=
  if Numeral.strip content = [] then ⟨false, [], ["Content cannot be empty"]⟩
  else if maxLength ≠ 0 ∧ maxLength < content.length then
    ⟨false, content,
      ["Content exceeds maximum length of " ++ toString maxLength ++ " characters"]⟩
  else
    let verdict := rules.validator content
    if verdict.isValid then ⟨true, applyUserFilters rules filter content, []⟩
    else
      ⟨false, applyUserFilters rules filter ((verdict.sanitizedValue.filter (· ≠ [])).getD content),
        [(verdict.errorMessage.filter (· ≠ "")).getD unsafePatterns]⟩

inductive SendError where
  | accessDenied | blocked | tooLong (maxLength length : Nat) | invalid (issues : List String)
  | replyNotFound | attachmentLimit (maxAttachments : Nat) | encryption

/-- A call of `send_message` with what the services answer about its sender. -/
structure Send where
  id : Nat
  conversationId : Nat
  userId : Nat
  content : Text
  participant : Bool
  blocked : Bool
  filter : ContentFilter
  maxLength : Nat
  /-- Of a reply: the target is a live message of the conversation. -/
  replyFound : Option Bool
  attachments : Nat
  maxAttachments : Option Nat
  now : Nat

structure Draws where
  fresh : Key
  nonce : Nonce
  draw : Ratchet.Draw

def sendContent (encryptMessages : Bool) (draws : Draws) (process : Reader) (s : Send)
    (sanitized : Text) : Reader × Option Text :=
  if encryptMessages then
    match process.ratchetManager with
    | some manager =>
      if process.licensed then
        let sent := Ratchet.encrypt process.aead process.kdf manager s.conversationId s.id
          (Text.utf8 sanitized) s.now draws.nonce draws.draw
        ({ process with ratchetManager := some sent.1 }, sent.2)
      else
        let made := MessageEncryptor.encryptMessage process.aead draws.fresh draws.nonce
          process.messageRing sanitized (some s.id)
        ({ process with messageRing := made.1 }, made.2)
    | none =>
      let made := MessageEncryptor.encryptMessage process.aead draws.fresh draws.nonce
        process.messageRing sanitized (some s.id)
      ({ process with messageRing := made.1 }, made.2)
  else (process, some sanitized)

/-- `"exceeds maximum length" in issue`. -/
def namesLength (issue : String) : Bool := "exceeds maximum length".toList <:+: issue.toList

def checkSend (cfg : Config) (s : Send) : Except SendError Text := do
  Checks.ensure (s.participant = true) .accessDenied
  Checks.ensure (s.blocked = false) .blocked
  let result := validateContent cfg.rules s.filter s.maxLength s.content
  Checks.ensure (result.valid = true ∨ result.issues.any namesLength = false)
    (.tooLong s.maxLength s.content.length)
  Checks.ensure (result.valid = true) (.invalid result.issues)
  Checks.ensure (s.replyFound ≠ some false) .replyNotFound
  let cap := (s.maxAttachments.filter (· ≠ 0)).getD cfg.maxAttachments
  Checks.ensure (s.attachments ≤ cap) (.attachmentLimit cap)
  return result.sanitizedContent

/-- `send_message` as far as the inserted row. -/
def sendMessage (cfg : Config) (draws : Draws) (process : Reader) (s : Send) :
    Except SendError (Reader × MessageRow) := do
  let sanitized ← checkSend cfg s
  let stored := sendContent cfg.encryptMessages draws process s sanitized
  let content ← Checks.found stored.2 .encryption
  return (stored.1,
    { authorId := s.userId, deleted := false, createdAt := s.now, content,
      contentEncrypted := none, contentIndex := some (cfg.blindIndex sanitized), updatedAt := s.now,
      edited := false, editedAt := none })

def readBack (reader : Reader) (id conversationId : Nat) (row : MessageRow) : Text :=
  reader.rowContent ⟨id, conversationId, row.content, row.contentEncrypted⟩

def Shortens (aead : Aead) : Prop :=
  ∀ k n c a m, aead.decrypt k n c a = some m → m.length + 16 = c.length

section Shorter

variable {aead : Aead} {kdf : Kdf} {ring : Ring} {t out : Text}

theorem openEnvelope_length {key : Key} {blob : Bytes} (h : openEnvelope ring t = some (key, blob)) :
    blob.length ≤ t.length := by
  unfold openEnvelope at h
  split at h
  · rename_i first version data parts
    have part : data ∈ Text.split ':' 2 t := by simp [parts]
    obtain ⟨number, _, h⟩ := Option.bind_eq_some_iff.mp h
    split at h
    · cases h
    · obtain ⟨found, _, h⟩ := Option.bind_eq_some_iff.mp h
      obtain ⟨bytes, decoded, h⟩ := Option.bind_eq_some_iff.mp h
      cases h
      exact (Base64.decode_length decoded).trans (Text.length_le_of_mem_split part)
  · cases h

theorem length_lt_of_decrypt (shortens : Shortens aead) {k : Key} {blob m : Bytes} {a : Option Bytes}
    (opened : aead.decrypt k (blob.take 12) (blob.drop 12) a = some m)
    (blobShort : blob.length ≤ t.length) : m.length < t.length := by
  have size := shortens _ _ _ _ _ opened
  rw [List.length_drop] at size
  omega

theorem decryptMessage_shorter (shortens : Shortens aead) {messageId : Option Nat}
    (starts : encPrefix.isPrefixOf t = true)
    (h : MessageEncryptor.decryptMessage aead ring t messageId = some out) :
    out.length < t.length := by
  simp only [MessageEncryptor.decryptMessage, starts, if_true, Option.bind_eq_bind,
    Option.bind_eq_some_iff] at h
  obtain ⟨⟨key, blob⟩, opened, plaintext, decrypted, decoded⟩ := h
  exact (Text.length_le_of_utf8Decode decoded).trans_lt
    (length_lt_of_decrypt shortens decrypted (openEnvelope_length opened))

theorem ratchet_shorter (shortens : Shortens aead) {manager : Ratchet.State} {c m : Nat}
    {plaintext : Bytes} (h : Ratchet.decrypt aead kdf manager c m t = .ok plaintext) :
    plaintext.length < t.length := by
  unfold Ratchet.decrypt at h
  split at h
  · split at h
    · rename_i idText data parts
      split at h
      · rename_i id blob _ decoded
        have part : data ∈ Text.split ':' 1 (t.drop Ratchet.wirePrefix.length) := by simp [parts]
        have short := (Base64.decode_length decoded).trans (Text.length_le_of_mem_split part)
        have cut : (t.drop Ratchet.wirePrefix.length).length ≤ t.length :=
          (List.drop_sublist _ t).length_le
        split at h
        · cases h
        · split at h
          · cases h
          · split at h
            · cases h
            · split at h
              · cases h
              · split at h
                · cases h
                · rename_i decrypted
                  cases h
                  exact length_lt_of_decrypt shortens decrypted (short.trans cut)
      · cases h
    · cases h
  · cases h

theorem reader_shorter {reader : Reader} (shortens : Shortens reader.aead)
    {messageId conversationId : Option Nat} (starts : encPrefix.isPrefixOf t = true)
    (h : reader.decryptMessage t messageId conversationId = some out) : out.length < t.length := by
  unfold Reader.decryptMessage at h
  split at h
  · split at h
    · split at h
      · rename_i plaintext decrypted
        exact (Text.length_le_of_utf8Decode h).trans_lt (ratchet_shorter shortens decrypted)
      · cases h
    · cases h
  · exact decryptMessage_shorter shortens starts h

theorem rowContent_ne_of_encPrefix {reader : Reader} (shortens : Shortens reader.aead)
    (starts : encPrefix.isPrefixOf t = true) (id conversationId : Nat) (legacy : Option Text) :
    reader.rowContent ⟨id, conversationId, t, legacy⟩ ≠ t := by
  have notPlaceholder : ∀ s : Text, encPrefix.isPrefixOf s = false → s ≠ t := by
    intro s plain same
    rw [same, starts] at plain
    cases plain
  have failed := notPlaceholder decryptionFailed (by decide)
  have attempt : ∀ messageId conversationId, (reader.decryptMessage t messageId conversationId).getD
      decryptionFailed ≠ t := by
    intro messageId conversationId
    cases opened : reader.decryptMessage t messageId conversationId with
    | none => exact failed
    | some out =>
      intro same
      have shorter := reader_shorter shortens starts opened
      rw [Option.getD_some] at same
      exact absurd (congrArg List.length same) shorter.ne
  simp only [Reader.rowContent, MessageEncryptor.isEncrypted, starts, if_true]
  split
  · split
    · exact attempt _ _
    · exact notPlaceholder unsupported (by decide)
  · exact attempt _ _

theorem rowContent_plain {reader : Reader} (plain : encPrefix.isPrefixOf t = false)
    (id conversationId : Nat) : reader.rowContent ⟨id, conversationId, t, none⟩ = t := by
  simp only [Reader.rowContent, MessageEncryptor.isEncrypted, plain, Bool.false_eq_true, if_false]

end Shorter

section Plaintext

variable {cfg : Config} {draws : Draws} {process after reader : Reader} {s : Send} {row : MessageRow}

def accepted (cfg : Config) (s : Send) : Text :=
  (validateContent cfg.rules s.filter s.maxLength s.content).sanitizedContent

def ContentFilter.rewrites (rules : Rules) (filter : ContentFilter) : Bool :=
  filter.words rules ≠ [] && (filter.filterAction = .censor || filter.filterAction = .spoiler)

theorem applyUserFilters_same {rules : Rules} {filter : ContentFilter}
    (quiet : filter.rewrites rules = false) (content : Text) :
    applyUserFilters rules filter content = content := by
  unfold applyUserFilters
  split
  · rfl
  · rename_i some_words
    cases action : filter.filterAction with
    | block => rfl
    | warn => rfl
    | censor => simp [ContentFilter.rewrites, action, some_words] at quiet
    | spoiler => simp [ContentFilter.rewrites, action, some_words] at quiet

theorem checkSend_ok {sanitized : Text} (h : checkSend cfg s = .ok sanitized) :
    sanitized = accepted cfg s ∧
      (validateContent cfg.rules s.filter s.maxLength s.content).valid = true := by
  simp only [checkSend, Checks.ensure_bind_eq_ok, Checks.pure_eq_ok] at h
  obtain ⟨_, _, _, valid, _, _, rfl⟩ := h
  exact ⟨rfl, valid⟩

theorem accepted_of_valid
    (valid : (validateContent cfg.rules s.filter s.maxLength s.content).valid = true) :
    accepted cfg s = applyUserFilters cfg.rules s.filter s.content := by
  unfold accepted
  unfold validateContent at valid ⊢
  split
  · rename_i empty
    simp [empty] at valid
  · rename_i nonempty
    rw [if_neg nonempty] at valid
    split
    · rename_i long
      simp [long] at valid
    · rename_i short
      rw [if_neg short] at valid
      dsimp only at valid ⊢
      split
      · rfl
      · rename_i refused
        simp [refused] at valid

theorem sendMessage_plain (plain : cfg.encryptMessages = false)
    (sent : sendMessage cfg draws process s = .ok (after, row)) :
    row.content = accepted cfg s ∧ row.contentEncrypted = none ∧
      (validateContent cfg.rules s.filter s.maxLength s.content).valid = true := by
  obtain ⟨sanitized, checked, h⟩ := Checks.returned_bind sent
  obtain ⟨same, valid⟩ := checkSend_ok checked
  simp only [sendContent, plain, Bool.false_eq_true, if_false, Checks.found_bind_eq_ok,
    Option.some_inj, Checks.pure_eq_ok, Prod.mk.injEq] at h
  obtain ⟨content, stored, _, rfl⟩ := h
  exact ⟨stored.symm.trans same, rfl, valid⟩

/-- With encryption off a message is read as it was accepted if and only if it does not look
like an envelope. What is accepted is the content itself, unless the sender's own filter
replaces words. -/
theorem plaintext_reads_back_iff (shortens : Shortens reader.aead)
    (plain : cfg.encryptMessages = false)
    (sent : sendMessage cfg draws process s = .ok (after, row)) :
    (readBack reader s.id s.conversationId row = accepted cfg s ↔
      encPrefix.isPrefixOf (accepted cfg s) = false) ∧
    (s.filter.rewrites cfg.rules = false → accepted cfg s = s.content) := by
  obtain ⟨content, legacy, valid⟩ := sendMessage_plain plain sent
  refine ⟨?_, ?_⟩
  · rw [readBack, content, legacy]
    constructor
    · intro same
      apply Bool.eq_false_iff.mpr
      intro starts
      exact rowContent_ne_of_encPrefix shortens starts _ _ _ same
    · intro plain
      exact rowContent_plain plain _ _
  · intro quiet
    rw [accepted_of_valid valid, applyUserFilters_same quiet]

end Plaintext

theorem shiftAead_shortens : Shortens shiftAead := by
  intro k n c a m opened
  simp only [shiftAead, Option.ite_none_right_eq_some, Option.some_inj] at opened
  obtain ⟨tagged, rfl⟩ := opened
  have size := congrArg List.length tagged
  rw [List.length_drop, List.length_replicate] at size
  rw [List.length_map, List.length_take]
  omega

def plainConfig : Config where
  encryptMessages := false
  rules := ⟨[], fun _ => ⟨true, none, none⟩, fun _ content => [(false, content)]⟩
  maxAttachments := 10
  lower := List.map Char.toLower
  digest := id

def sampleSend (content : Text) : Send where
  id := 7
  conversationId := 1
  userId := 3
  content := content
  participant := true
  blocked := false
  filter := ⟨false, [], .censor⟩
  maxLength := 4000
  replyFound := none
  attachments := 0
  maxAttachments := none
  now := 5

def sampleDraws : Draws := ⟨sampleKey 0, sampleNonce 0, ⟨sampleKey 0, 1, sampleKey 0, sampleNonce 0⟩⟩

def plainRow (content : Text) : MessageRow where
  authorId := 3
  deleted := false
  createdAt := 5
  content := content
  contentEncrypted := none
  contentIndex := some (plainConfig.blindIndex content)
  updatedAt := 5
  edited := false
  editedAt := none

/-- Someone writes about envelopes. -/
theorem imitated_envelope_unreadable : ¬ ∀ (cfg : Config) draws (process after reader : Reader)
    (s : Send) (row : MessageRow), Shortens reader.aead → cfg.encryptMessages = false →
    sendMessage cfg draws process s = .ok (after, row) →
    readBack reader s.id s.conversationId row = accepted cfg s := by
  intro law
  have same := law plainConfig sampleDraws (freeTier Ring.empty) (freeTier Ring.empty)
    (freeTier Ring.empty) (sampleSend "ENC:hi".toList) (plainRow "ENC:hi".toList)
    shiftAead_shortens rfl rfl
  exact rowContent_ne_of_encPrefix shiftAead_shortens (by decide) _ _ _ same

theorem plaintext_reads_back_plain : readBack (freeTier Ring.empty) 7 1 (plainRow "hi".toList) =
    accepted plainConfig (sampleSend "hi".toList) :=
  (@plaintext_reads_back_iff plainConfig sampleDraws (freeTier Ring.empty) (freeTier Ring.empty)
    (freeTier Ring.empty) (sampleSend "hi".toList) (plainRow "hi".toList) shiftAead_shortens rfl
    rfl).1.mpr (by decide)

end Plexichat.Messaging.Content
