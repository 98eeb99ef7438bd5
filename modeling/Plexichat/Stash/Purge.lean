import Plexichat.Stash.Items

/-! The retention purge of core/suite/stash/stash_manager_items.py, with what it asks of the media
boundary (core/media/_files.py). -/
namespace Plexichat.Stash

structure Unicode where
  isDigit : Char → Bool
  decimal : Char → Option Nat
  isSpace : Char → Bool
  dot : isDigit '.' = false ∧ isSpace '.' = false
  apart : ∀ c, isDigit c = true → isSpace c = false

namespace Unicode

variable (u : Unicode)

def isdigit (t : String) : Bool := !t.toList.isEmpty && t.toList.all u.isDigit

/-- `int` of a text that isdigit; none is ValueError. -/
def int (t : String) : Option Nat :=
  t.toList.foldlM (fun n c => (u.decimal c).map fun d => 10 * n + d) 0

def strip (t : String) : String :=
  String.ofList ((t.toList.dropWhile u.isSpace).reverse.dropWhile u.isSpace).reverse

end Unicode

structure MediaFile where
  id : Nat
  filename : String
  checksum : Option String
  uploadedBy : Nat
  deleted : Bool
  deriving DecidableEq

structure Version where
  itemId : Nat
  mediaObjectId : Option String
  deriving DecidableEq

structure Attachment where
  deleted : Bool
  checksum : Option String
  filename : String
  url : Option String
  metadata : Option String
  urlEncrypted : Option String

/-- media_files with its deletion locks, and media_file_hashes. A filename is made of random
digits, a dot and an extension, so that no two are alike. -/
structure Media (u : Unicode) where
  files : Table MediaFile MediaFile.id
  locks : List Nat
  hashes : Table (String × Int) Prod.fst
  /-- The files whose object has been deleted from the storage. -/
  erased : List Nat
  names : (files.rows.map fun f => u.strip f.filename).Nodup
  dotted : ∀ f ∈ files, '.' ∈ f.filename.toList

structure Outside where
  unicode : Unicode
  attachments : List Attachment
  avatars : List (Option String)
  /-- The icon of a server, and whether the server is deleted. -/
  icons : List (Option String × Bool)
  artifacts : List (Option String)
  /-- The LIKE of the database, with the pattern last. -/
  like : String → String → Bool
  decrypt : String → Option String
  checkFileAccess : String → Nat → Bool
  /-- All tables that can_delete_file_permanently requires are there, -/
  tables : Bool
  /-- the media boundary is wired, and it has get_file_for_permanent_delete. -/
  wired : Bool
  lookupById : Bool
  /-- What the storage and the last transaction do for a file. -/
  storageDelete : Nat → Bool
  removeMetadata : Nat → Bool
  /-- The order in which Python goes through a set. -/
  order : List String → List String
  order_mem : ∀ texts t, t ∈ order texts ↔ t ∈ texts

structure State (u : Unicode) where
  items : Table Item Item.id
  versions : List Version
  media : Media u

namespace Media

variable {u : Unicode} (m : Media u)

def mark (id : Nat) : Media u where
  files := m.files.update (·.id = id) (fun f => { f with deleted := true }) fun _ => rfl
  locks := m.locks.insert id
  hashes := m.hashes
  erased := m.erased
  names := by
    have same : (m.files.update (·.id = id) (fun f => { f with deleted := true })
        fun _ => rfl).rows.map (fun f => u.strip f.filename) =
        m.files.rows.map fun f => u.strip f.filename := by
      show (m.files.rows.map _).map _ = _
      rw [List.map_map]
      apply List.map_congr_left
      intro f _
      simp only [Function.comp]
      split <;> rfl
    exact same ▸ m.names
  dotted := by
    intro f member
    obtain ⟨g, old, rfl⟩ := List.mem_map.mp (Table.mem_rows.mp member)
    have dot := m.dotted g old
    split <;> exact dot

def release (checksum : Option String) : Table (String × Int) Prod.fst :=
  match checksum with
  | none => m.hashes
  | some c =>
    if c.isEmpty then m.hashes
    else match m.hashes.find c with
      | none => m.hashes
      | some (_, count) =>
        if count ≤ 1 then m.hashes.delete (·.1 = c)
        else m.hashes.update (·.1 = c) (fun row => (row.1, row.2 - 1)) fun _ => rfl

def remove (f : MediaFile) : Media u where
  files := m.files.delete (·.id = f.id)
  locks := m.locks.filter (· ≠ f.id)
  hashes := m.release f.checksum
  erased := m.erased
  names := m.names.sublist (List.filter_sublist.map _)
  dotted := fun f member => m.dotted f (List.mem_filter.mp (Table.mem_rows.mp member)).1

def erase (id : Nat) : Media u := { m with erased := m.erased ++ [id] }

def fileByName (name : String) : Option MediaFile := m.files.rows.find? (·.filename = name)

def getFile (id : Nat) : Option MediaFile := (m.files.find id).filter fun f => !f.deleted

def getFileByFilename (name : String) : Option MediaFile :=
  m.files.rows.find? fun f => f.filename = name && !f.deleted

def target (text : String) : Option MediaFile :=
  let value := u.strip text
  (if u.isdigit value then (u.int value).bind m.files.find else none).or (m.fileByName value)

end Media

namespace State

variable {u : Unicode} (s : State u)

def liveItems : List (Nat × String) :=
  (s.items.rows.filter fun i => !i.deleted).filterMap fun i => i.mediaObjectId.map fun t => (i.id, t)

def liveVersions : List (Nat × String) :=
  (s.versions.filter fun v => s.items.rows.any fun i => i.id = v.itemId && !i.deleted).filterMap
    fun v => v.mediaObjectId.map fun t => (v.itemId, t)

def referenced (text : String) (itemId : Nat) : Bool :=
  (s.liveItems ++ s.liveVersions).any fun p => p.2 = text && p.1 ≠ itemId

def named (texts : List String) : Bool :=
  (s.liveItems ++ s.liveVersions).any fun p => p.2 ∈ texts

end State

namespace Outside

variable (o : Outside)

def names (f : MediaFile) : Bool :=
  let token := toString f.id
  let like := fun (column : Option String) pattern => column.any fun t => o.like t pattern
  let fields := ["media_file_id", "file_id"].flatMap fun field =>
    ["\"" ++ field ++ "\": " ++ token, "\"" ++ field ++ "\": \"" ++ token ++ "\"",
      "\"" ++ field ++ "\":" ++ token, "\"" ++ field ++ "\":\"" ++ token ++ "\""]
  (o.attachments.any fun a => !a.deleted &&
    (a.checksum.any (· = f.checksum.getD "") || a.filename = f.filename ||
      like a.url ("%" ++ f.filename) || fields.any fun t => like a.metadata ("%" ++ t ++ "%"))) ||
  (o.attachments.any fun a => !a.deleted &&
    -- what cannot be decrypted is skipped
    (a.urlEncrypted.bind o.decrypt).any fun t =>
      t.toList.tails.any fun rest => f.filename.toList.isPrefixOf rest) ||
  (o.avatars.any fun t => like t ("%" ++ f.filename)) ||
  (o.icons.any fun icon => like icon.1 ("%" ++ f.filename) && !icon.2) ||
  o.artifacts.any fun t => o.like (t.getD "") ("%" ++ token ++ "%") ||
    o.like (t.getD "") ("%" ++ f.filename ++ "%")

variable (s : State o.unicode)

def shared (f : MediaFile) : Bool :=
  match f.checksum with
  | none => false
  | some c => !c.isEmpty && (s.media.hashes.find c).any fun row => row.2 > 1

def canDeleteFilePermanently (fileId : Nat) : Bool :=
  match s.media.files.find fileId with
  | none => true
  | some f => o.tables && !o.names f && !s.named [toString f.id, f.filename] && !o.shared s f

/-- _resolve_media_object; none is an error. -/
def resolveMediaObject (text : String) (ownerId : Nat) : Option MediaFile :=
  let value := o.unicode.strip text
  let digits := o.unicode.isdigit value
  let id := if digits then o.unicode.int value else none
  if value.isEmpty || value.length > 512 || ['\x00', '\r', '\n'].any (· ∈ value.toList) then none
  -- ValueError
  else if digits && id.isNone then none
  else
    match (id.bind s.media.getFile).or (s.media.getFileByFilename value) with
    | none => none
    | some f =>
      if id.any fun id => (s.media.getFile id).isNone || id ∈ s.media.locks then none
      else if f.uploadedBy ≠ ownerId && !o.checkFileAccess value ownerId then none
      else some f

def lookup (text : String) (ownerId : Nat) : Option MediaFile :=
  let digits := o.lookupById && o.unicode.isdigit text
  let id := if digits then o.unicode.int text else none
  if digits && id.isNone then none
  else ((id.bind s.media.files.find).or (s.media.fileByName text)).or
    (o.resolveMediaObject s text ownerId)

/-- delete_file_permanently; false is an error. -/
def deleteFilePermanently (userId fileId : Nat) : Media o.unicode × Bool :=
  match s.media.files.find fileId with
  | none => (s.media, true)
  | some f =>
    if f.uploadedBy ≠ userId then (s.media, false)
    else
      let marked := s.media.mark fileId
      if !o.canDeleteFilePermanently { s with media := marked } fileId then (s.media, false)
      else if !o.storageDelete fileId then (marked, false)
      else if !o.removeMetadata fileId then (marked.erase fileId, false)
      else ((marked.erase fileId).remove f, true)

def purgeReference (item : Item) (text : String) : State o.unicode × Bool :=
  if s.referenced text item.id then (s, false)
  else
    match o.lookup s text item.ownerId with
    | none => (s, true)
    | some f =>
      if !o.canDeleteFilePermanently s f.id then (s, true)
      else
        let (media, deleted) := o.deleteFilePermanently s item.ownerId f.id
        ({ s with media }, !deleted)

def mediaRefs (item : Item) : List String :=
  let texts := item.mediaObjectId :: (s.versions.filter (·.itemId = item.id)).map (·.mediaObjectId)
  o.order ((texts.filterMap id).filter fun t => !t.isEmpty).dedup

def purgeReferences (item : Item) : State o.unicode → List String → State o.unicode × Bool
  | s, [] => (s, false)
  | s, text :: texts =>
    let (s, failed) := o.purgeReference s item text
    let (s, others) := purgeReferences item s texts
    (s, failed || others)

def purgeItem (itemId : Nat) : State o.unicode :=
  match s.items.find itemId with
  | none => s
  | some item =>
    let refs := o.mediaRefs s item
    let (s, failed) := if o.wired then o.purgeReferences item s refs else (s, !refs.isEmpty)
    if failed then s
    else { s with
      versions := s.versions.filter (·.itemId ≠ itemId), items := s.items.delete (·.id = itemId) }

end Outside

def cutoff (now retentionDays : Int) : Int := now - max 1 retentionDays * 24 * 60 * 60 * 1000

def Item.expired (item : Item) (cutoff : Int) : Bool :=
  item.deleted && decide ((item.updatedAt : Int) ≤ cutoff)

def purgeDeletedItems (o : Outside) (s : State o.unicode) (now retentionDays : Int) :
    State o.unicode :=
  ((s.items.rows.filter (·.expired (cutoff now retentionDays))).map Item.id).foldl o.purgeItem s

def restoreItem {u : Unicode} (s : State u) (manages : Nat → Nat → Bool) (userId itemId now : Nat) :
    Except StashError (State u) :=
  match (s.items.find itemId).filter fun i => i.deleted with
  | none => .error ⟨.notFound, "Deleted Stash item not found"⟩
  | some item =>
    if item.ownerId = userId || item.serverId.any (manages userId) then
      let restore := fun i : Item => { i with deleted := false, updatedAt := now }
      .ok { s with items := s.items.update (·.id = itemId) restore fun _ => rfl }
    else .error ⟨.permission, "Only the owner or a server manager can restore this item"⟩

end Plexichat.Stash
