import Plexichat.Search.MessagePage

/-! Following the pages of a search: what they show, and what no page shows. -/
namespace Plexichat.Search

section Filters

variable (host : Host) (req : Request)

def shown (r : MessageSearchResult) : Bool :=
  (req.afterTimestamp.all fun timestamp => r.createdAt ≠ 0 && timestamp < r.createdAt) &&
  (req.hasAttachments.all fun wanted => r.hasAttachments == wanted) &&
  (req.mentionsUser.all fun userId => mentions userId r) &&
  ((req.parsed host).filters.all fun f => (getFilterFunction host f req.userId).all fun filter =>
    filter r != f.negated) &&
  ((req.parsed host).exactPhrases.all fun phrase =>
    contains (host.lower phrase) (host.lower r.content)) &&
  visible host req.userId r

variable {host req} {results : List MessageSearchResult} {r : MessageSearchResult}

theorem applySingleFilter_eq (f : QueryFilter) (userId : Nat) :
    applySingleFilter host results f userId = results.filter fun r =>
      (getFilterFunction host f userId).all fun filter => filter r != f.negated := by
  unfold applySingleFilter
  cases getFilterFunction host f userId with
  | none => simp
  | some filter => cases f.negated <;> simp

theorem foldl_filter {α β : Type} (p : β → α → Bool) (bs : List β) (l : List α) :
    bs.foldl (fun l b => l.filter (p b)) l = l.filter fun a => bs.all fun b => p b a := by
  induction bs generalizing l with
  | nil => simp
  | cons b bs ih =>
    rw [List.foldl_cons, ih, List.filter_filter]
    apply List.filter_congr
    intro a _
    rw [List.all_cons, Bool.and_comm]

theorem applyFilters_eq (parsed : ParsedQuery) (userId : Nat) :
    applyFilters host results parsed userId = results.filter fun r =>
      (parsed.filters.all fun f => (getFilterFunction host f userId).all fun filter =>
        filter r != f.negated) &&
      parsed.exactPhrases.all fun phrase =>
        contains (host.lower phrase) (host.lower r.content) := by
  unfold applyFilters
  simp only [applySingleFilter_eq]
  rw [foldl_filter, foldl_filter, List.filter_filter]
  apply List.filter_congr
  intro r _
  rw [Bool.and_comm]

theorem process_perm :
    List.Perm (process host req (req.parsed host) results) (results.filter (shown host req)) := by
  have ranked := List.perm_insertionSort
    (fun first second => host.ranked (req.parsed host) first second = true)
    (verifyResultsVisible host req.userId (applyFilters host (filterMentions req.mentionsUser
      (filterAttachments req.hasAttachments (filterAfter req.afterTimestamp results)))
      (req.parsed host) req.userId))
  refine ranked.trans (List.Perm.of_eq ?_)
  have after : filterAfter req.afterTimestamp results = results.filter fun r =>
      req.afterTimestamp.all fun timestamp => r.createdAt ≠ 0 && timestamp < r.createdAt := by
    unfold filterAfter
    cases req.afterTimestamp <;> simp
  have attachments : ∀ l : List MessageSearchResult, filterAttachments req.hasAttachments l =
      l.filter fun r => req.hasAttachments.all fun wanted => r.hasAttachments == wanted := by
    intro l
    unfold filterAttachments
    cases req.hasAttachments <;> simp
  have mentioned : ∀ l : List MessageSearchResult, filterMentions req.mentionsUser l =
      l.filter fun r => req.mentionsUser.all fun userId => mentions userId r := by
    intro l
    unfold filterMentions
    cases req.mentionsUser <;> simp
  rw [verifyResultsVisible, applyFilters_eq, mentioned, attachments, after]
  simp only [List.filter_filter]
  apply List.filter_congr
  intro r _
  unfold shown
  ac_rfl

end Filters

section Loop
open Paging

variable {fetch : Nat → Option String → List MessageSearchResult × Option String}
  {step : List MessageSearchResult → List MessageSearchResult} {limit : Nat}
  {items : List MessageSearchResult} {position : Option String → Nat}
  {keep : MessageSearchResult → Bool}

/-- What a loop that ends at `o` has read from a place on: `k` rows. -/
structure Reads (items : List MessageSearchResult) (position : Option String → Nat)
    (keep : MessageSearchResult → Bool) (s : Scan) (o : Outcome) (k : Nat) : Prop where
  scanned : o.scanned = s.scanned + k
  collected : o.collected.Perm (s.collected ++ (page items k (position s.pageCursor)).filter keep)
  onward : ∀ t, o.nextCursor = some t → position (some t) = position s.pageCursor + k
  ends : o.nextCursor = none → o.stopped = true ∨ items.length ≤ position s.pageCursor + k
  budget : o.stopped = true → maxScannedRows ≤ o.scanned
  within : k ≤ items.length - position s.pageCursor

def Scan.Going (limit : Nat) (s : Scan) : Prop :=
  s.collected.length < limit ∨ s.nextCursor = s.pageCursor ∧ s.pageCursor ≠ none

theorem scan_reads (serves : Serves fetch items position)
    (cut : ∀ l, (step l).Perm (l.filter keep)) {n : Nat} {s : Scan} {o : Outcome}
    (going : s.Going limit) (ran : scan fetch step limit n s = some o) :
    ∃ k, Reads items position keep s o k ∧ (s.collected.length < limit → o.nextCursor ≠ none → 0 < k) := by
  induction n generalizing s with
  | zero => cases ran
  | succ n ih =>
    have asked : 0 < max (limit * 2) 50 := by omega
    have nothing : s.collected.Perm (s.collected ++ (page items 0 (position s.pageCursor)).filter keep) := by
      simp [page]
    rw [scan] at ran
    split at ran
    · rename_i full
      cases ran
      obtain ⟨same, here⟩ := going.resolve_left (Nat.not_lt.mpr full)
      refine ⟨0, ⟨rfl, nothing, ?_, ?_, Bool.noConfusion, Nat.zero_le _⟩,
        fun room => absurd full (Nat.not_le.mpr room)⟩
      · intro t next
        rw [← next, same, Nat.add_zero]
      · intro next
        exact absurd (same.symm.trans next) here
    split at ran
    · rename_i spent
      cases ran
      exact ⟨0, ⟨rfl, nothing, fun t next => (by cases next), fun _ => .inl rfl, fun _ => spent,
        Nat.zero_le _⟩, fun _ next => absurd rfl next⟩
    have rows := serves.rows _ s.pageCursor asked
    have ends := serves.ends _ s.pageCursor asked
    have onward := serves.onward _ s.pageCursor asked
    have some_rows := serves.some_rows _ s.pageCursor asked
    generalize fetch (max (limit * 2) 50) s.pageCursor = fetched at ran rows ends onward some_rows
    obtain ⟨results, next⟩ := fetched
    simp only at ran rows ends onward some_rows
    split at ran
    · rename_i empty
      cases ran
      refine ⟨0, ⟨rfl, nothing, fun t next => (by cases next), fun _ => .inr ?_,
        Bool.noConfusion, Nat.zero_le _⟩, fun _ next => absurd rfl next⟩
      by_contra more
      exact some_rows (by omega) empty
    rename_i some_results
    have positive : 0 < results.length := List.length_pos_iff.mpr some_results
    have within : results.length ≤ items.length - position s.pageCursor := by
      have size := congrArg List.length rows
      rw [page, List.length_take, List.length_drop] at size
      omega
    have read : (s.collected ++ step results).Perm
        (s.collected ++ (page items results.length (position s.pageCursor)).filter keep) := by
      rw [← rows]
      exact (cut results).append_left _
    split at ran
    · cases ran
      exact ⟨results.length, ⟨rfl, read, onward, fun last => .inr (ends last), Bool.noConfusion,
        within⟩, fun _ _ => positive⟩
    · rename_i more
      have token : next ≠ none := by
        rintro rfl
        simp at more
      obtain ⟨k, reads, _⟩ := ih (s := ⟨_, next, next, _⟩) (.inr ⟨rfl, token⟩) ran
      obtain ⟨t, rfl⟩ := Option.ne_none_iff_exists'.mp token
      have place := onward t rfl
      refine ⟨results.length + k, ⟨?_, ?_, ?_, ?_, reads.budget, ?_⟩,
        fun _ _ => Nat.add_pos_left positive k⟩
      · rw [reads.scanned, Nat.add_assoc]
      · have rest := reads.collected
        simp only [place] at rest
        refine rest.trans ?_
        rw [← page_append, List.filter_append, ← List.append_assoc]
        exact read.append_right _
      · intro u last
        rw [reads.onward u last, place, Nat.add_assoc]
      · intro last
        rw [← Nat.add_assoc, ← place]
        exact reads.ends last
      · have rest := reads.within
        simp only [place] at rest
        omega

theorem scan_ends {n : Nat} {s : Scan} (enough : maxScannedRows < n + s.scanned) (some_turn : 0 < n) :
    ∃ o, scan fetch step limit n s = some o := by
  induction n generalizing s with
  | zero => exact absurd some_turn (Nat.lt_irrefl 0)
  | succ n ih =>
    rw [scan]
    split
    · exact ⟨_, rfl⟩
    split
    · exact ⟨_, rfl⟩
    rename_i budget
    simp only
    split
    · exact ⟨_, rfl⟩
    rename_i some_results
    split
    · exact ⟨_, rfl⟩
    · have positive := List.length_pos_iff.mpr some_results
      apply ih
      · simp only
        omega
      · omega

end Loop

section Walk
open Paging

variable (host : Host) (backend : Backend) (req : Request)

def fetchPage (cursor : Option String) :
    Option (List MessageSearchResult × Option (Option String)) :=
  match searchMessagesPage host backend req cursor with
  | some (.ok page) => some (page.results, page.nextCursor.map some)
  | _ => none

inductive Requested : Option String → Prop
  | first : Requested none
  | next {cursor : Option String} {o : Outcome} {t : String} (before : Requested cursor)
    (ran : outcome host backend req cursor = some o) (onward : o.nextCursor = some t) :
    Requested (some t)

structure Served (items : List MessageSearchResult) (position : Option String → Nat) : Prop where
  serves : Serves (backend (req.backendQuery host (req.accessible host))) items position
  unique : (items.map MessageSearchResult.messageId).Nodup

structure Admissible : Prop where
  some_rows : 0 < req.limit
  limit : req.limit ≤ host.resultLimit
  query : validateSearchQuery host req.query
    (req.mentionsUser.isSome || req.hasAttachments.isSome) = .ok ()

def wanted (items : List MessageSearchResult) : List MessageSearchResult :=
  if req.accessible host = [] then [] else items.filter (shown host req)

def Whole : Prop := ∀ cursor o, Requested host backend req cursor →
  outcome host backend req cursor = some o → o.collected.length ≤ req.limit

def Unread (items : List MessageSearchResult) (position : Option String → Nat)
    (r : MessageSearchResult) : Prop :=
  ∃ cursor o, Requested host backend req cursor ∧ outcome host backend req cursor = some o ∧
    o.stopped = true ∧ maxScannedRows ≤ o.scanned ∧ r ∈ items.drop (position cursor + o.scanned)

variable {host backend req} {items : List MessageSearchResult}
  {position : Option String → Nat}

theorem outcome_reads (served : Served host backend req items position)
    (some_rows : 0 < req.limit) (cursor : Option String) :
    ∃ o, outcome host backend req cursor = some o ∧
      Reads items position (shown host req) ⟨[], cursor, none, 0⟩ o o.scanned ∧
      (o.nextCursor ≠ none → 0 < o.scanned) := by
  obtain ⟨o, ran⟩ := @scan_ends (backend (req.backendQuery host (req.accessible host)))
    (process host req (req.parsed host)) req.limit (maxScannedRows + 1) ⟨[], cursor, none, 0⟩
    (by simp only; omega) (Nat.succ_pos _)
  obtain ⟨k, reads, progress⟩ := scan_reads served.serves (fun _ => process_perm)
    (.inl some_rows) ran
  have all : o.scanned = k := reads.scanned.trans (Nat.zero_add k)
  exact ⟨o, ran, all ▸ reads, all ▸ progress some_rows⟩

theorem fetchPage_eq (admissible : Admissible host req) (access : req.accessible host ≠ [])
    {cursor : Option String} {o : Outcome} (ran : outcome host backend req cursor = some o) :
    fetchPage host backend req cursor =
      some (o.collected.take req.limit, o.nextCursor.map some) := by
  unfold fetchPage searchMessagesPage
  rw [if_neg (Nat.not_lt.mpr admissible.limit), admissible.query]
  simp [access, ran]

theorem page_append_drop (items : List MessageSearchResult) (k offset : Nat) :
    page items k offset ++ items.drop (offset + k) = items.drop offset := by
  rw [page, ← List.drop_drop, List.take_append_drop]

theorem walk_from (served : Served host backend req items position)
    (admissible : Admissible host req) (access : req.accessible host ≠ []) {n : Nat}
    {cursor : Option String} (requested : Requested host backend req cursor)
    (enough : items.length - position cursor < n) :
    ∃ rows, walk (fetchPage host backend req) n cursor = some rows ∧
      rows.Subperm ((items.drop (position cursor)).filter (shown host req)) ∧
      (Whole host backend req → ∀ r ∈ (items.drop (position cursor)).filter (shown host req),
        r ∈ rows ∨ Unread host backend req items position r) := by
  induction n generalizing cursor with
  | zero => exact absurd enough (Nat.not_lt_zero _)
  | succ n ih =>
    obtain ⟨o, ran, reads, progress⟩ := outcome_reads served admissible.some_rows cursor
    have collected : o.collected.Perm
        ((page items o.scanned (position cursor)).filter (shown host req)) := reads.collected
    have early : (o.collected.take req.limit).Subperm
        ((page items o.scanned (position cursor)).filter (shown host req)) :=
      (List.take_sublist _ _).subperm.trans collected.subperm
    have parts : (items.drop (position cursor)).filter (shown host req) =
        (page items o.scanned (position cursor)).filter (shown host req) ++
          (items.drop (position cursor + o.scanned)).filter (shown host req) := by
      rw [← List.filter_append, page_append_drop]
    have shows : Whole host backend req →
        ∀ r ∈ (page items o.scanned (position cursor)).filter (shown host req),
          r ∈ o.collected.take req.limit := by
      intro whole r member
      rw [List.take_of_length_le (whole cursor o requested ran)]
      exact collected.mem_iff.mpr member
    rw [walk, fetchPage_eq admissible access ran]
    cases next : o.nextCursor with
    | none =>
      refine ⟨_, rfl, parts ▸ early.trans (List.sublist_append_left _ _).subperm, ?_⟩
      intro whole r member
      rw [parts] at member
      rcases List.mem_append.mp member with now | later
      · exact .inl (shows whole r now)
      · have there := (List.mem_filter.mp later).1
        rcases reads.ends next with stopped | past
        · exact .inr ⟨cursor, o, requested, ran, stopped, reads.budget stopped, there⟩
        · rw [List.drop_of_length_le past] at there
          cases there
    | some t =>
      have place : position (some t) = position cursor + o.scanned := reads.onward t next
      have moved : 0 < o.scanned := progress (by rw [next]; exact Option.some_ne_none t)
      have within : o.scanned ≤ items.length - position cursor := reads.within
      obtain ⟨rest, walked, below, reaches⟩ := @ih (some t) (.next requested ran next) (by omega)
      rw [place] at below reaches
      obtain ⟨now, now_perm, now_sub⟩ := early
      obtain ⟨later, later_perm, later_sub⟩ := below
      refine ⟨o.collected.take req.limit ++ rest, ?_,
        ⟨now ++ later, now_perm.append later_perm, parts ▸ now_sub.append later_sub⟩, ?_⟩
      · simp [walked]
      · intro whole r member
        rw [parts] at member
        rcases List.mem_append.mp member with now | later
        · exact .inl (List.mem_append_left _ (shows whole r now))
        · exact (reaches whole r later).imp_left (List.mem_append_right _)

def following (host : Host) (backend : Backend) (req : Request) (n : Nat) :
    Option (List MessageSearchResult) := walk (fetchPage host backend req) n none

end Walk

section Examples
open Paging

def fiftyRows (items : List MessageSearchResult) : Backend := fun _ _ cursor =>
  let pages := cursor.elim 0 fun t => t.toList.length
  let rows := page items 50 (50 * pages)
  (rows, if rows.length = 50 then some (String.ofList (List.replicate (pages + 1) 'x')) else none)

def pagePlace (cursor : Option String) : Nat := 50 * cursor.elim 0 fun t => t.toList.length

theorem fiftyRows_serves (items : List MessageSearchResult) (q : BackendQuery) :
    Serves (fiftyRows items q) items pagePlace := by
  have size : ∀ c, (page items 50 (pagePlace c)).length = min 50 (items.length - pagePlace c) := by
    intro c
    rw [page, List.length_take, List.length_drop]
  refine ⟨rfl, ?_, ?_, ?_, ?_⟩
  · intro n c _
    show page items 50 (pagePlace c) = page items (page items 50 (pagePlace c)).length (pagePlace c)
    rw [page, page, List.length_take, ← List.take_eq_take_min]
  · intro n c _ more empty
    have none_left : (page items 50 (pagePlace c)).length = 0 := congrArg List.length empty
    rw [size] at none_left
    omega
  · intro n c _ last
    have short : ¬(page items 50 (pagePlace c)).length = 50 := by
      intro full
      have next : (if (page items 50 (pagePlace c)).length = 50 then
        some (String.ofList (List.replicate ((c.elim 0 fun t => t.toList.length) + 1) 'x'))
          else none) = none := last
      rw [if_pos full] at next
      cases next
    show items.length ≤ pagePlace c + (page items 50 (pagePlace c)).length
    rw [size] at short ⊢
    omega
  · intro n c _ t next
    have same : (if (page items 50 (pagePlace c)).length = 50 then
      some (String.ofList (List.replicate ((c.elim 0 fun t => t.toList.length) + 1) 'x'))
        else none) = some t := next
    split at same
    · rename_i full
      obtain rfl := Option.some.inj same
      show pagePlace (some _) = pagePlace c + (page items 50 (pagePlace c)).length
      rw [full]
      simp only [pagePlace, Option.elim_some, String.toList_ofList, List.length_replicate]
      omega
    · cases same

def dmHost : Host where
  strip := id
  split text := [text]
  lower := id
  parse query := ⟨[query], [], []⟩
  resolveUser _ _ := none
  resolveChannel _ := none
  dateToTimestamp _ := none
  canAccessChannel _ _ := false
  canAccessConversation _ _ := true
  accessibleConversations _ _ _ _ := [7]
  ranked _ first second := second.createdAt ≤ first.createdAt
  resultLimit := 100

def onePerPage : Request := ⟨1, "hello", none, none, none, none, none, none, none, 1⟩

def hello (id : Nat) (channelId : Option Nat) : MessageSearchResult :=
  ⟨id, "hello", 2, 7, channelId, id, false, false, [], [], false⟩

theorem onePerPage_admissible : Admissible dmHost onePerPage := ⟨by decide, by decide, rfl⟩

def hidden : List MessageSearchResult :=
  (List.range 500).map (fun id => hello id (some 3)) ++ [hello 500 none]

end Examples

end Plexichat.Search
