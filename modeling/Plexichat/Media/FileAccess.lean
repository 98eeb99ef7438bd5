import Plexichat.Library.Like
import Plexichat.Library.Numeral

/-! core/media/_files.py: `check_file_access`, and through which rows a user comes to a file. -/
namespace Plexichat.Media.FileAccess
open Like

abbrev Text := List Char

structure MediaFile where
  id : Nat
  filename : Text
  uploadedBy : Nat
  checksum : Option Text
  deleted : Bool
  deriving DecidableEq

structure Message where
  id : Nat
  conversationId : Nat

structure Attachment where
  messageId : Nat
  filename : Text
  url : Text
  metadata : Option Text
  checksum : Option Text
  deleted : Bool

structure User where
  id : Nat
  avatarUrl : Option Text

structure Server where
  id : Nat
  iconUrl : Option Text
  deleted : Bool

structure Member where
  serverId : Nat
  userId : Nat

structure Tables where
  mediaFiles : List MediaFile
  messages : List Message
  attachments : List Attachment
  users : List User
  servers : List Server
  members : List Member

structure Env where
  tables : Tables
  dialect : Dialect
  /-- `is_participant`, where there is a messaging module; none is an exception. -/
  messaging : Option (Nat → Nat → Option Bool)

def basename (filename : Text) : Text := (filename.splitOn '/').getLast?.getD []

/-- The directory above the last name, where the file is a thumbnail. Past what int reads, the
handler of exceptions goes on without one. -/
def parentFileId (filename : Text) : Option Nat :=
  if "thumbnails/".toList <:+: filename then
    match (filename.splitOn '/').reverse with
    | _ :: part :: _ =>
      if part.all fun c => (Numeral.decimal c).isSome then Numeral.natural part else none
    | _ => none
  else none

def quoted (t : Text) : Text := '"' :: t ++ ['"']

def fileIdPatterns (token : Text) : List Text :=
  ["media_file_id".toList, "file_id".toList].flatMap fun key =>
    [quoted key ++ ": ".toList ++ token, quoted key ++ ": ".toList ++ quoted token,
      quoted key ++ ":".toList ++ quoted token]

section Code

variable (e : Env)

def parentRow (filename : Text) : Option MediaFile :=
  (parentFileId filename).bind fun id =>
    e.tables.mediaFiles.find? fun f => f.id = id ∧ f.deleted = false

def fileRow (filename : Text) : Option MediaFile :=
  e.tables.mediaFiles.find? fun f => f.filename = filename ∧ f.deleted = false

def like (text : Option Text) (pattern : Text) : Bool := text.any (Like.like e.dialect pattern)

def namesFile (a : Attachment) (token : Text) : Bool :=
  (fileIdPatterns token).any fun pattern => like e a.metadata ('%' :: pattern ++ ['%'])

def conversations (selected : Attachment → Bool) : List Nat :=
  e.tables.messages.flatMap fun m =>
    (e.tables.attachments.filter fun a => m.id = a.messageId ∧ selected a ∧ a.deleted = false).map
      fun _ => m.conversationId

def byChecksum (checksum token : Text) (a : Attachment) : Bool :=
  a.checksum = some checksum ∨ namesFile e a token

def byName (searchFilename token : Text) (a : Attachment) : Bool :=
  a.filename = searchFilename ∨ like e (some a.url) ('%' :: searchFilename) ∨ namesFile e a token

def attachedIn (f : MediaFile) (searchFilename : Text) : List Nat :=
  let token := Text.decimal f.id
  let rows := match f.checksum with
    | some (c :: checksum) => conversations e (byChecksum e (c :: checksum) token)
    | _ => []
  if rows = [] then conversations e (byName e searchFilename token) else rows

def isParticipant (conversationId userId : Nat) : Bool :=
  e.messaging.any fun isParticipant => isParticipant conversationId userId = some true

def checkRow (filename : Text) (userId : Nat) : Bool :=
  let searchFilename := basename filename
  match fileRow e filename with
  | none => false
  | some f =>
    f.uploadedBy = userId ∨
    (attachedIn e f searchFilename).any (fun conversationId => isParticipant e conversationId userId) ∨
    e.tables.users.any (fun u => like e u.avatarUrl ('%' :: searchFilename)) ∨
    e.tables.servers.any (fun s => like e s.iconUrl ('%' :: searchFilename) ∧ s.deleted = false ∧
      e.tables.members.any fun m => s.id = m.serverId ∧ m.userId = userId)

/-- None is the exception at the limit of the recursion, from which the call above goes on with
its own name. -/
def checkFileAccess : Nat → Text → Nat → Option Bool
  | 0, _, _ => none
  | depth + 1, filename, userId =>
    match parentRow e filename with
    | none => some (checkRow e filename userId)
    | some parent =>
      match checkFileAccess depth parent.filename userId with
      | some answer => some answer
      | none => some (checkRow e filename userId)

end Code

section References

variable (e : Env) (userId : Nat)

/-- The rows that a name leads to: its own, and those of the file that it is a thumbnail of. -/
inductive Reaches : Text → MediaFile → Prop
  | row {filename : Text} {f : MediaFile} (found : fileRow e filename = some f) :
      Reaches filename f
  | thumbnail {filename : Text} {parent f : MediaFile} (found : parentRow e filename = some parent)
      (reaches : Reaches parent.filename f) : Reaches filename f

structure Attached (a : Attachment) : Prop where
  row : a ∈ e.tables.attachments
  kept : a.deleted = false
  participant : ∃ m ∈ e.tables.messages, m.id = a.messageId ∧
    isParticipant e m.conversationId userId = true

inductive Shown : Text → Prop
  | attachment {a : Attachment} (attached : Attached e userId a) : Shown a.url
  | avatar {u : User} {url : Text} (row : u ∈ e.tables.users) (set : u.avatarUrl = some url) :
      Shown url
  | icon {s : Server} {m : Member} {url : Text} (row : s ∈ e.tables.servers)
      (kept : s.deleted = false) (set : s.iconUrl = some url) (member : m ∈ e.tables.members)
      (joined : s.id = m.serverId) (user : m.userId = userId) : Shown url

def RefersTo (name url : Text) : Prop := url = name ∨ '/' :: name <:+ url

instance (name url : Text) : Decidable (RefersTo name url) :=
  inferInstanceAs (Decidable (url = name ∨ '/' :: name <:+ url))

def Ended (pattern after : Text) : Prop :=
  pattern.getLast? = some '"' ∨ after.head? = some ',' ∨ after.head? = some '}'

def Names (token metadata : Text) : Prop :=
  ∃ pattern ∈ fileIdPatterns token, ∃ before after,
    metadata = before ++ pattern ++ after ∧ Ended pattern after

inductive Reference (f : MediaFile) : Prop
  | uploader (own : f.uploadedBy = userId)
  | content {a : Attachment} {c : Char} {checksum : Text} (attached : Attached e userId a)
      (known : f.checksum = some (c :: checksum)) (same : a.checksum = some (c :: checksum))
  | name {a : Attachment} (attached : Attached e userId a)
      (same : a.filename = basename f.filename)
  | id {a : Attachment} {metadata : Text} (attached : Attached e userId a)
      (set : a.metadata = some metadata) (names : Names (Text.decimal f.id) metadata)
  | url {url : Text} (shown : Shown e userId url) (refers : RefersTo (basename f.filename) url)

structure Unmistakable (f : MediaFile) : Prop where
  plain : '%' ∉ basename f.filename ∧ '_' ∉ basename f.filename ∧ '\\' ∉ basename f.filename
  urls : ∀ before part, Shown e userId (before ++ part) →
    part.map e.dialect.fold = (basename f.filename).map e.dialect.fold →
    RefersTo (basename f.filename) (before ++ part)
  metadata : ∀ a before part after, Attached e userId a → a.metadata = some (before ++ part ++ after) →
    ∀ pattern ∈ fileIdPatterns (Text.decimal f.id),
      List.Forall₂ (Fits e.dialect) pattern part → part = pattern ∧ Ended pattern after

end References

section Granted

variable {e : Env} {userId : Nat} {f : MediaFile} {a : Attachment}

theorem fileIdPatterns_plain (id : Nat) :
    ∀ pattern ∈ fileIdPatterns (Text.decimal id), '%' ∉ pattern ∧ '\\' ∉ pattern := by
  have percent := Text.not_mem_decimal (c := '%') (by decide) id
  have backslash := Text.not_mem_decimal (c := '\\') (by decide) id
  simp [fileIdPatterns, quoted, percent, backslash]

theorem fileRow_eq_some {filename : Text} (found : fileRow e filename = some f) :
    f ∈ e.tables.mediaFiles ∧ f.filename = filename ∧ f.deleted = false := by
  have picked := List.find?_some (p := fun f : MediaFile => f.filename = filename ∧ f.deleted = false)
    found
  exact ⟨List.mem_of_find?_eq_some found, of_decide_eq_true picked⟩

theorem attached_of_conversation {selected : Attachment → Bool} {c : Nat}
    (row : c ∈ conversations e selected) (participant : isParticipant e c userId = true) :
    ∃ a, Attached e userId a ∧ selected a = true := by
  simp only [conversations, List.mem_flatMap, List.mem_map, List.mem_filter,
    decide_eq_true_eq] at row
  obtain ⟨m, sent, a, ⟨stored, joined, chosen, kept⟩, rfl⟩ := row
  exact ⟨a, ⟨stored, kept, m, sent, joined, participant⟩, chosen⟩

theorem names_of_namesFile (clear : Unmistakable e userId f) (attached : Attached e userId a)
    (named : namesFile e a (Text.decimal f.id) = true) : Reference e userId f := by
  obtain ⟨pattern, member, found⟩ := List.any_eq_true.mp named
  obtain ⟨metadata, set, matched⟩ := (Option.any_eq_true _ _).mp found
  obtain ⟨single, steady⟩ := fileIdPatterns_plain f.id pattern member
  obtain ⟨before, part, after, rfl, fits⟩ := (like_within steady single).mp matched
  obtain ⟨rfl, ended⟩ := clear.metadata a before part after attached set pattern member fits
  exact .id attached set ⟨_, member, before, after, rfl, ended⟩

theorem refers_of_like (clear : Unmistakable e userId f) {url : Text} (shown : Shown e userId url)
    (matched : Like.like e.dialect ('%' :: basename f.filename) url = true) :
    RefersTo (basename f.filename) url := by
  obtain ⟨percent, underscore, backslash⟩ := clear.plain
  obtain ⟨before, part, rfl, fits⟩ := (like_end backslash percent).mp matched
  exact clear.urls before part shown (map_eq_of_fits underscore fits)

theorem reference_of_attachedIn (clear : Unmistakable e userId f) {c : Nat}
    (row : c ∈ attachedIn e f (basename f.filename)) (participant : isParticipant e c userId = true) :
    Reference e userId f := by
  -- the second query runs where the first one has no rows
  have queried : (∃ d checksum, f.checksum = some (d :: checksum) ∧
        c ∈ conversations e (byChecksum e (d :: checksum) (Text.decimal f.id))) ∨
      c ∈ conversations e (byName e (basename f.filename) (Text.decimal f.id)) := by
    simp only [attachedIn] at row
    split at row
    · rename_i d checksum known
      split at row
      · exact .inr row
      · exact .inl ⟨d, checksum, known, row⟩
    · exact .inr (by simpa using row)
  rcases queried with ⟨d, checksum, known, row⟩ | row
  · obtain ⟨a, attached, selected⟩ := attached_of_conversation row participant
    rcases of_decide_eq_true selected with same | named
    · exact .content attached known same
    · exact names_of_namesFile clear attached named
  · obtain ⟨a, attached, selected⟩ := attached_of_conversation row participant
    rcases of_decide_eq_true selected with same | matched | named
    · exact .name attached same
    · exact .url (.attachment attached) (refers_of_like clear (.attachment attached) matched)
    · exact names_of_namesFile clear attached named

theorem reference_of_checkRow {filename : Text} (found : fileRow e filename = some f)
    (clear : Unmistakable e userId f) (granted : checkRow e filename userId = true) :
    Reference e userId f := by
  obtain ⟨-, rfl, -⟩ := fileRow_eq_some found
  simp only [checkRow, found, decide_eq_true_eq, List.any_eq_true] at granted
  rcases granted with own | ⟨c, row, participant⟩ | ⟨u, row, matched⟩ | ⟨s, row, icon⟩
  · exact .uploader own
  · exact reference_of_attachedIn clear row participant
  · obtain ⟨url, set, matched⟩ := (Option.any_eq_true _ _).mp matched
    exact .url (.avatar row set) (refers_of_like clear (.avatar row set) matched)
  · obtain ⟨matched, kept, m, member, joined, user⟩ := icon
    obtain ⟨url, set, matched⟩ := (Option.any_eq_true _ _).mp matched
    have shown := Shown.icon row kept set member joined user
    exact .url shown (refers_of_like clear shown matched)

theorem granted_by_reference (e : Env) (depth userId : Nat) (filename : Text)
    (clear : ∀ f, Reaches e filename f → Unmistakable e userId f)
    (granted : checkFileAccess e depth filename userId = some true) :
    ∃ f, Reaches e filename f ∧ f ∈ e.tables.mediaFiles ∧ f.deleted = false ∧
      Reference e userId f := by
  have own_row : ∀ {filename}, (∀ f, Reaches e filename f → Unmistakable e userId f) →
      checkRow e filename userId = true → ∃ f, Reaches e filename f ∧ f ∈ e.tables.mediaFiles ∧
        f.deleted = false ∧ Reference e userId f := by
    intro filename clear granted
    cases found : fileRow e filename with
    | none => simp [checkRow, found] at granted
    | some f =>
      obtain ⟨stored, -, kept⟩ := fileRow_eq_some found
      exact ⟨f, .row found, stored, kept,
        reference_of_checkRow found (clear f (.row found)) granted⟩
  induction depth generalizing filename with
  | zero => cases granted
  | succ depth ih =>
    rw [checkFileAccess] at granted
    split at granted
    · exact own_row clear (Option.some.inj granted)
    · rename_i parent found
      split at granted
      · rename_i answer delegated
        obtain ⟨f, reaches, row, kept, reference⟩ :=
          ih parent.filename (fun f reaches => clear f (.thumbnail found reaches))
            (delegated.trans granted)
        exact ⟨f, .thumbnail found reaches, row, kept, reference⟩
      · exact own_row clear (Option.some.inj granted)

end Granted

section Twins

def asciiLower : Dialect := ⟨Char.toLower, false⟩

def twins : Env where
  tables :=
    { mediaFiles := [⟨1, "a.png".toList, 10, some ['c'], false⟩, ⟨2, "b.png".toList, 20, some ['c'], false⟩]
      messages := [⟨7, 5⟩]
      attachments := [⟨7, "b.png".toList, "/media/b.png".toList, none, some ['c'], false⟩]
      users := []
      servers := []
      members := [] }
  dialect := asciiLower
  messaging := some fun conversationId userId => some (conversationId = 5 ∧ userId = 30)

theorem twins_shown {url : Text} (shown : Shown twins 30 url) : url = "/media/b.png".toList := by
  cases shown with
  | attachment attached => rw [List.mem_singleton.mp attached.row]
  | avatar row => cases row
  | icon row => cases row

theorem twins_reaches {filename : Text} {f : MediaFile} (own : parentRow twins filename = none)
    (reaches : Reaches twins filename f) : fileRow twins filename = some f := by
  cases reaches with
  | row found => exact found
  | thumbnail found => simp [own] at found

theorem content_twin : checkFileAccess twins 1 "a.png".toList 30 = some true ∧
    ∀ f, Reaches twins "a.png".toList f → f.uploadedBy ≠ 30 ∧
      (∀ a ∈ twins.tables.attachments, a.filename ≠ basename f.filename ∧ a.metadata = none) ∧
      ∀ url, Shown twins 30 url → ¬RefersTo (basename f.filename) url := by
  refine ⟨by decide +kernel, ?_⟩
  intro f reaches
  have first : fileRow twins "a.png".toList =
      some ⟨1, "a.png".toList, 10, some ['c'], false⟩ := by decide +kernel
  cases first.symm.trans (twins_reaches (by decide +kernel) reaches)
  refine ⟨by decide, ?_, ?_⟩
  · intro a row
    cases List.mem_singleton.mp row
    decide +kernel
  · intro url shown refers
    cases twins_shown shown
    revert refers
    decide +kernel

theorem twins_unmistakable {f : MediaFile} (found : fileRow twins "b.png".toList = some f) :
    Unmistakable twins 30 f := by
  have second : fileRow twins "b.png".toList =
      some ⟨2, "b.png".toList, 20, some ['c'], false⟩ := by decide +kernel
  cases second.symm.trans found
  refine ⟨by decide +kernel, ?_, ?_⟩
  · intro before part shown folded
    have name : basename "b.png".toList = "b.png".toList := by decide +kernel
    have url : "/media/b.png".toList = "/media".toList ++ '/' :: "b.png".toList := by decide
    rw [twins_shown shown, name, url]
    exact .inr (List.suffix_append _ _)
  · intro a before part after attached set
    cases List.mem_singleton.mp attached.row
    cases set

theorem granted_by_reference_attached :
    ∃ f, Reaches twins "b.png".toList f ∧ f ∈ twins.tables.mediaFiles ∧ f.deleted = false ∧
      Reference twins 30 f :=
  granted_by_reference twins 1 30 "b.png".toList
    (fun _ reaches => twins_unmistakable (twins_reaches (by decide +kernel) reaches))
    (by decide +kernel)

end Twins

end Plexichat.Media.FileAccess
