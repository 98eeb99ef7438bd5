import Mathlib.Data.List.Infix
import Mathlib.Data.List.Sort
import Plexichat.Library.Paging

/-! `search_messages_page`: pages of a backend are filtered, checked for visibility, ranked and
collected until the requested page is full. -/
namespace Plexichat.Search

structure MessageSearchResult where
  messageId : Nat
  content : String
  authorId : Nat
  conversationId : Nat
  channelId : Option Nat
  createdAt : Int
  hasAttachments : Bool
  hasEmbeds : Bool
  attachmentTypes : List String
  reactions : List String
  isPinned : Bool
  deriving DecidableEq

inductive FilterType where
  | fromUser
  | inChannel
  | beforeDate
  | afterDate
  | hasAttachment
  | mentionsUser
  | pinned
  | exactPhrase
  | hasReaction

structure QueryFilter where
  filterType : FilterType
  value : String
  negated : Bool

structure ParsedQuery where
  searchTerms : List String
  filters : List QueryFilter
  exactPhrases : List String

structure BackendQuery where
  query : String
  conversationIds : List Nat
  serverIds : Option (List Nat)
  channelIds : Option (List Nat)
  authorIds : Option (List Nat)

abbrev Backend := BackendQuery → Nat → Option String → List MessageSearchResult × Option String

structure Host where
  strip (text : String) : String
  split (text : String) : List String
  lower (text : String) : String
  parse (query : String) : ParsedQuery
  resolveUser (identifier : String) (caller : Nat) : Option Nat
  resolveChannel (identifier : String) : Option Nat
  dateToTimestamp (date : String) : Option Int
  canAccessChannel (userId channelId : Nat) : Bool
  canAccessConversation (userId conversationId : Nat) : Bool
  /-- `_get_accessible_conversations` -/
  accessibleConversations (userId : Nat) (conversationId serverId channelId : Option Nat) : List Nat
  /-- The first result may stand before the second one: its score is not less. -/
  ranked (parsed : ParsedQuery) (first second : MessageSearchResult) : Bool
  resultLimit : Nat

structure Request where
  userId : Nat
  query : String
  conversationId : Option Nat
  serverId : Option Nat
  channelId : Option Nat
  authorId : Option Nat
  afterTimestamp : Option Int
  hasAttachments : Option Bool
  mentionsUser : Option Nat
  limit : Nat

structure Page where
  results : List MessageSearchResult
  nextCursor : Option String

inductive SearchError where
  | limitExceeded (maximum requested : Nat)
  | invalidQuery (message : String)

def contains (part text : String) : Bool := part.toList <:+: text.toList

/-- `<@id>` or `<@!id>` stands in the content. -/
def mentions (userId : Nat) (r : MessageSearchResult) : Bool :=
  contains ("<@" ++ toString userId ++ ">") r.content ||
    contains ("<@!" ++ toString userId ++ ">") r.content

section Code

variable (host : Host)

def validateSearchQuery (query : String) (hasFilters : Bool) : Except SearchError Unit :=
  if host.strip query = "" then
    if hasFilters then .ok () else .error (.invalidQuery "Query must not be empty")
  else if 256 < query.length then
    .error (.invalidQuery "Query exceeds maximum length of 256 characters")
  else if 16 < (host.split query).length then
    .error (.invalidQuery "Query exceeds maximum of 16 terms")
  else .ok ()

def hasFilter (value : String) (r : MessageSearchResult) : Bool :=
  match host.lower value with
  | "link" => contains "http://" r.content || contains "https://" r.content
  | "image" => r.attachmentTypes.contains "image"
  | "video" => r.attachmentTypes.contains "video"
  | "audio" => r.attachmentTypes.contains "audio"
  | "embed" => r.hasEmbeds
  | _ => r.hasAttachments

/-- `_get_filter_function`; none lets every result pass. -/
def getFilterFunction (f : QueryFilter) (userId : Nat) : Option (MessageSearchResult → Bool) :=
  match f.filterType with
  | .fromUser => some fun r => host.resolveUser f.value userId = some r.authorId
  | .inChannel => some fun r =>
      (host.resolveChannel f.value).any fun channelId => r.channelId = some channelId
  | .beforeDate => (host.dateToTimestamp f.value).map fun timestamp r => r.createdAt < timestamp
  | .afterDate => (host.dateToTimestamp f.value).map fun timestamp r => timestamp < r.createdAt
  | .hasAttachment => some (hasFilter host f.value)
  | .mentionsUser => some fun r => (host.resolveUser f.value userId).any fun id => mentions id r
  | .pinned => some fun r => r.isPinned == (host.lower f.value == "true")
  | .hasReaction => some fun r => r.reactions.contains (host.strip f.value)
  | .exactPhrase => none

def applySingleFilter (results : List MessageSearchResult) (f : QueryFilter) (userId : Nat) :
    List MessageSearchResult :=
  match getFilterFunction host f userId with
  | none => results
  | some filter => if f.negated then results.filter fun r => !filter r else results.filter filter

def applyFilters (results : List MessageSearchResult) (parsed : ParsedQuery) (userId : Nat) :
    List MessageSearchResult :=
  let filtered := parsed.filters.foldl (fun results f => applySingleFilter host results f userId)
    results
  parsed.exactPhrases.foldl (fun results phrase =>
    results.filter fun r => contains (host.lower phrase) (host.lower r.content)) filtered

/-- A row without a channel and a conversation is not shown. -/
def visible (userId : Nat) (r : MessageSearchResult) : Bool :=
  match r.channelId with
  | some channelId => host.canAccessChannel userId channelId
  | none => r.conversationId ≠ 0 && host.canAccessConversation userId r.conversationId

def verifyResultsVisible (userId : Nat) (results : List MessageSearchResult) :
    List MessageSearchResult := results.filter (visible host userId)

/-- `sorted` by the scores, highest first. -/
def rankMessageResults (results : List MessageSearchResult) (parsed : ParsedQuery) :
    List MessageSearchResult :=
  results.insertionSort fun first second => host.ranked parsed first second = true

def filterAfter (after : Option Int) (results : List MessageSearchResult) :
    List MessageSearchResult :=
  match after with
  | some timestamp => results.filter fun r => r.createdAt ≠ 0 && timestamp < r.createdAt
  | none => results

def filterAttachments (attachments : Option Bool) (results : List MessageSearchResult) :
    List MessageSearchResult :=
  match attachments with
  | some wanted => results.filter fun r => r.hasAttachments == wanted
  | none => results

def filterMentions (mentioned : Option Nat) (results : List MessageSearchResult) :
    List MessageSearchResult :=
  match mentioned with
  | some userId => results.filter (mentions userId)
  | none => results

def process (req : Request) (parsed : ParsedQuery) (results : List MessageSearchResult) :
    List MessageSearchResult :=
  let filtered := filterMentions req.mentionsUser
    (filterAttachments req.hasAttachments (filterAfter req.afterTimestamp results))
  let filtered := applyFilters host filtered parsed req.userId
  rankMessageResults host (verifyResultsVisible host req.userId filtered) parsed

def maxScannedRows : Nat := 500

structure Scan where
  collected : List MessageSearchResult
  pageCursor : Option String
  nextCursor : Option String
  scanned : Nat

/-- How the loop ends; `stopped` tells whether the scan budget was exhausted. -/
structure Outcome where
  collected : List MessageSearchResult
  nextCursor : Option String
  scanned : Nat
  stopped : Bool

variable (fetch : Nat → Option String → List MessageSearchResult × Option String)
  (step : List MessageSearchResult → List MessageSearchResult) (limit : Nat)

def scan : Nat → Scan → Option Outcome
  | 0, _ => none
  | n + 1, s =>
    if limit ≤ s.collected.length then some ⟨s.collected, s.nextCursor, s.scanned, false⟩
    else if maxScannedRows ≤ s.scanned then some ⟨s.collected, none, s.scanned, true⟩
    else
      let (pageResults, pageNextCursor) := fetch (max (limit * 2) 50) s.pageCursor
      if pageResults = [] then some ⟨s.collected, none, s.scanned, false⟩
      else
        let scanned := s.scanned + pageResults.length
        let collected := s.collected ++ step pageResults
        if pageNextCursor.all (· = "") || pageNextCursor = s.pageCursor then
          some ⟨collected, pageNextCursor, scanned, false⟩
        else scan n ⟨collected, pageNextCursor, pageNextCursor, scanned⟩

def Request.parsed (req : Request) : ParsedQuery := host.parse req.query

def Request.backendQuery (req : Request) (accessible : List Nat) : BackendQuery where
  query :=
    let parsed := req.parsed host
    if parsed.searchTerms = [] then req.query else " ".intercalate parsed.searchTerms
  conversationIds := accessible
  serverIds := (req.serverId.filter (· ≠ 0)).map fun id => [id]
  channelIds := (req.channelId.filter (· ≠ 0)).map fun id => [id]
  authorIds := req.authorId.map fun id => [id]

def Request.accessible (req : Request) : List Nat :=
  host.accessibleConversations req.userId req.conversationId req.serverId req.channelId

def outcome (backend : Backend) (req : Request) (cursor : Option String) : Option Outcome :=
  scan (backend (req.backendQuery host (req.accessible host)))
    (process host req (req.parsed host)) req.limit (maxScannedRows + 1) ⟨[], cursor, none, 0⟩

/-- `search_messages_page`; none is a loop that does not end. -/
def searchMessagesPage (backend : Backend) (req : Request) (cursor : Option String) :
    Option (Except SearchError Page) :=
  if host.resultLimit < req.limit then
    some (.error (.limitExceeded host.resultLimit req.limit))
  else
    match validateSearchQuery host req.query
        (req.mentionsUser.isSome || req.hasAttachments.isSome) with
    | .error e => some (.error e)
    | .ok _ =>
      if req.accessible host = [] then some (.ok ⟨[], none⟩)
      else (outcome host backend req cursor).map fun o =>
        .ok ⟨o.collected.take req.limit, o.nextCursor⟩

end Code

end Plexichat.Search
