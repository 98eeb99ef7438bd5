import Mathlib.Data.List.DropRight
import Plexichat.Stash.Purge

/-! Which files the retention purge erases, and for which states it leaves what can be restored. -/
namespace Plexichat.Stash

namespace Unicode

variable {u : Unicode} {t : String}

theorem dot_of_isdigit (h : u.isdigit t = true) : '.' ∉ t.toList := by
  intro dot
  have all := (Bool.and_eq_true_iff.mp h).2
  exact absurd ((List.all_eq_true.mp all _ dot).symm.trans u.dot.1) (by decide)

theorem mem_dropWhile {p : Char → Bool} {l : List Char} {c : Char} (member : c ∈ l)
    (stays : p c = false) : c ∈ l.dropWhile p := by
  induction l with
  | nil => cases member
  | cons d l ih =>
    rw [List.dropWhile_cons]
    split
    · rename_i drops
      rcases List.mem_cons.mp member with rfl | later
      · exact absurd (drops.symm.trans stays) (by decide)
      · exact ih later
    · exact member

theorem toList_strip (u : Unicode) (t : String) :
    (u.strip t).toList = (t.toList.dropWhile u.isSpace).rdropWhile u.isSpace :=
  String.toList_ofList

theorem dot_strip (dot : '.' ∈ t.toList) : '.' ∈ (u.strip t).toList := by
  rw [toList_strip, List.rdropWhile, List.mem_reverse]
  exact mem_dropWhile (List.mem_reverse.mpr (mem_dropWhile dot u.dot.2)) u.dot.2

theorem strip_of_isdigit (h : u.isdigit t = true) : u.strip t = t := by
  have all : ∀ c ∈ t.toList, u.isSpace c = false :=
    fun c member => u.apart c (List.all_eq_true.mp (Bool.and_eq_true_iff.mp h).2 c member)
  have stays : ∀ {l : List Char}, (∀ c ∈ l, u.isSpace c = false) → l.dropWhile u.isSpace = l := by
    intro l none
    cases l with
    | nil => rfl
    | cons c l => simp [none c List.mem_cons_self]
  have back := stays fun c member => all c (List.mem_reverse.mp member)
  apply String.toList_inj.mp
  rw [toList_strip, stays all, List.rdropWhile, back, List.reverse_reverse]

theorem strip_strip (u : Unicode) (t : String) : u.strip (u.strip t) = u.strip t := by
  apply String.toList_inj.mp
  rw [toList_strip u (u.strip t), toList_strip]
  have front : ((t.toList.dropWhile u.isSpace).rdropWhile u.isSpace).dropWhile u.isSpace =
      (t.toList.dropWhile u.isSpace).rdropWhile u.isSpace := by
    obtain ⟨rest, whole⟩ := List.rdropWhile_prefix u.isSpace (l := t.toList.dropWhile u.isSpace)
    cases e : (t.toList.dropWhile u.isSpace).rdropWhile u.isSpace with
    | nil => rfl
    | cons c l =>
      have head : u.isSpace c = false := by
        have first := List.head_dropWhile_not u.isSpace (l := t.toList)
        rw [e] at whole
        simpa [← whole] using first (by simp [← whole])
      simp [head]
  rw [front, List.rdropWhile_idempotent]

end Unicode

namespace Media

variable {u : Unicode} {m : Media u} {f g : MediaFile}

theorem eq_of_strip (hf : f ∈ m.files) (hg : g ∈ m.files)
    (same : u.strip f.filename = u.strip g.filename) : f = g :=
  List.inj_on_of_nodup_map m.names hf hg same

theorem find?_unique {α : Type} {l : List α} {p : α → Bool} {a : α} (member : a ∈ l)
    (holds : p a = true) (only : ∀ b ∈ l, p b = true → b = a) : l.find? p = some a := by
  cases found : l.find? p with
  | none => exact absurd holds (List.find?_eq_none.mp found a member)
  | some b => rw [only b (List.mem_of_find?_eq_some found) (List.find?_some found)]

theorem fileByName_eq_some {name : String} :
    m.fileByName name = some f ↔ f ∈ m.files ∧ f.filename = name := by
  constructor
  · intro found
    have named := List.find?_some found
    exact ⟨List.mem_of_find?_eq_some found, of_decide_eq_true named⟩
  · rintro ⟨member, rfl⟩
    refine find?_unique member (decide_eq_true rfl) ?_
    intro g other named
    exact eq_of_strip other member (congrArg u.strip (of_decide_eq_true named))

theorem getFile_eq_some {id : Nat} :
    m.getFile id = some f ↔ (f ∈ m.files ∧ f.id = id) ∧ f.deleted = false := by
  simp only [getFile, Option.filter_eq_some_iff, Table.find_eq_some, Bool.not_eq_true']

theorem getFileByFilename_eq_some {name : String} :
    m.getFileByFilename name = some f ↔ (f ∈ m.files ∧ f.filename = name) ∧ f.deleted = false := by
  constructor
  · intro found
    have holds := List.find?_some found
    simp only [Bool.and_eq_true, decide_eq_true_eq, Bool.not_eq_true'] at holds
    exact ⟨⟨List.mem_of_find?_eq_some found, holds.1⟩, holds.2⟩
  · rintro ⟨⟨member, rfl⟩, live⟩
    refine find?_unique member (by simp [live]) ?_
    intro g other holds
    simp only [Bool.and_eq_true, decide_eq_true_eq] at holds
    exact eq_of_strip other member (congrArg u.strip holds.1)

theorem fileByName_isdigit {t : String} (digits : u.isdigit t = true) : m.fileByName t = none := by
  cases found : m.fileByName t with
  | none => rfl
  | some f =>
    obtain ⟨member, rfl⟩ := fileByName_eq_some.mp found
    exact absurd (m.dotted f member) (Unicode.dot_of_isdigit digits)

end Media

section Lookup

variable {o : Outside} {s : State o.unicode} {text : String} {ownerId : Nat} {f : MediaFile}

def malformed (value : String) : Bool :=
  value.isEmpty || value.length > 512 || ['\x00', '\r', '\n'].any (· ∈ value.toList)

structure Resolves (o : Outside) (s : State o.unicode) (text : String) (ownerId : Nat)
    (f : MediaFile) : Prop where
  member : f ∈ s.media.files
  live : f.deleted = false
  formed : malformed (o.unicode.strip text) = false
  stands : o.unicode.isdigit (o.unicode.strip text) = true ∧
      o.unicode.int (o.unicode.strip text) = some f.id ∧ f.id ∉ s.media.locks ∨
    o.unicode.isdigit (o.unicode.strip text) = false ∧ f.filename = o.unicode.strip text
  allowed : f.uploadedBy = ownerId ∨ o.checkFileAccess (o.unicode.strip text) ownerId = true

theorem resolveMediaObject_eq_some :
    o.resolveMediaObject s text ownerId = some f ↔ Resolves o s text ownerId f := by
  have access : (f.uploadedBy ≠ ownerId && !o.checkFileAccess (o.unicode.strip text) ownerId) =
      true ↔ ¬(f.uploadedBy = ownerId ∨
        o.checkFileAccess (o.unicode.strip text) ownerId = true) := by
    simp
  unfold Outside.resolveMediaObject
  cases formed : malformed (o.unicode.strip text) with
  | true =>
    constructor
    · intro found
      simp only [malformed] at formed
      simp only [formed, if_true, reduceCtorEq] at found
    · intro resolves
      exact absurd (formed.symm.trans resolves.formed) (by decide)
  | false =>
    have bad := formed
    simp only [malformed] at bad
    simp only [bad, Bool.false_eq_true, if_false]
    cases digits : o.unicode.isdigit (o.unicode.strip text) with
    | false =>
      simp only [Bool.false_and, Bool.false_eq_true, if_false, Option.bind_none, Option.none_or,
        Option.any_none]
      constructor
      · intro found
        split at found
        · cases found
        · rename_i g here
          split at found
          · cases found
          · rename_i open_
            cases found
            obtain ⟨⟨member, name⟩, live⟩ := Media.getFileByFilename_eq_some.mp here
            exact ⟨member, live, formed, .inr ⟨digits, name⟩, not_not.mp (access.not.mp open_)⟩
      · intro resolves
        rcases resolves.stands with ⟨other, -⟩ | ⟨-, name⟩
        · exact absurd (digits.symm.trans other) (by decide)
        · have here := Media.getFileByFilename_eq_some.mpr
            ⟨⟨resolves.member, name⟩, resolves.live⟩
          simp only [here]
          exact if_neg (access.not.mpr (not_not.mpr resolves.allowed))
    | true =>
      simp only [Bool.true_and, if_true]
      cases int : o.unicode.int (o.unicode.strip text) with
      | none =>
        simp only [Option.isNone_none, if_true, reduceCtorEq, false_iff]
        intro resolves
        rcases resolves.stands with ⟨-, value, -⟩ | ⟨other, -⟩
        · cases int.symm.trans value
        · exact absurd (digits.symm.trans other) (by decide)
      | some id =>
        simp only [Option.isNone_some, Bool.false_eq_true, if_false, Option.bind_some,
          Option.any_some]
        constructor
        · intro found
          split at found
          · cases found
          rename_i g here
          split at found
          · cases found
          rename_i there
          split at found
          · cases found
          rename_i open_
          cases found
          simp only [Bool.or_eq_true, Option.isNone_iff_eq_none, decide_eq_true_eq, not_or] at there
          obtain ⟨known, unlocked⟩ := there
          obtain ⟨h, known⟩ := Option.ne_none_iff_exists'.mp known
          rw [known, Option.some_or] at here
          cases here
          obtain ⟨⟨member, rfl⟩, live⟩ := Media.getFile_eq_some.mp known
          exact ⟨member, live, formed, .inl ⟨digits, int, unlocked⟩,
            not_not.mp (access.not.mp open_)⟩
        · intro resolves
          rcases resolves.stands with ⟨-, value, unlocked⟩ | ⟨other, -⟩
          · cases int.symm.trans value
            have known := Media.getFile_eq_some.mpr ⟨⟨resolves.member, rfl⟩, resolves.live⟩
            have clear : ((s.media.getFile f.id).isNone || decide (f.id ∈ s.media.locks)) = false := by
              simp [known, unlocked]
            simp only [known, Option.some_or]
            rw [known] at clear
            simp only [clear, Bool.false_eq_true, if_false]
            exact if_neg (access.not.mpr (not_not.mpr resolves.allowed))
          · exact absurd (digits.symm.trans other) (by decide)

theorem lookup_eq_some : o.lookup s text ownerId = some f ↔
    ((o.lookupById && o.unicode.isdigit text) = true ∧ o.unicode.int text = some f.id ∧
        f ∈ s.media.files) ∨
      (o.lookupById && o.unicode.isdigit text) = false ∧
        (f ∈ s.media.files ∧ f.filename = text ∨
          s.media.fileByName text = none ∧ Resolves o s text ownerId f) := by
  unfold Outside.lookup
  cases digits : o.lookupById && o.unicode.isdigit text with
  | false =>
    simp only [Bool.false_and, Bool.false_eq_true, if_false, Option.bind_none, Option.none_or,
      false_and, false_or, true_and]
    rw [← resolveMediaObject_eq_some, ← Media.fileByName_eq_some]
    cases s.media.fileByName text with
    | none => simp
    | some g => simp
  | true =>
    have numeral : o.unicode.isdigit text = true := (Bool.and_eq_true_iff.mp digits).2
    simp only [Bool.true_and, if_true, true_and, Bool.true_eq_false, false_and, or_false,
      Media.fileByName_isdigit numeral, Option.or_none]
    cases int : o.unicode.int text with
    | none => simp
    | some id =>
      simp only [Option.isNone_some, Bool.false_eq_true, if_false, Option.bind_some,
        Option.some.injEq]
      cases known : s.media.files.find id with
      | some g =>
        obtain ⟨member, rfl⟩ := Table.find_eq_some.mp known
        simp only [Option.some_or, Option.some.injEq]
        constructor
        · rintro rfl
          exact ⟨rfl, member⟩
        · rintro ⟨same, other⟩
          exact Table.eq_of_key member other same
      | none =>
        rw [Option.none_or, resolveMediaObject_eq_some]
        have missing := Table.find_eq_none.mp known
        constructor
        · intro resolves
          rcases resolves.stands with ⟨-, value, -⟩ | ⟨other, -⟩
          · rw [Unicode.strip_of_isdigit numeral] at value
            cases int.symm.trans value
            exact absurd rfl (missing f resolves.member)
          · rw [Unicode.strip_of_isdigit numeral] at other
            exact absurd (numeral.symm.trans other) (by decide)
        · rintro ⟨rfl, member⟩
          exact absurd rfl (missing f member)

end Lookup

def Media.many {u : Unicode} (m : Media u) (c : String) : Bool :=
  (m.hashes.find c).any fun row => row.2 > 1

structure Follows (o : Outside) (db m : Media o.unicode) : Prop where
  rows : ∀ g ∈ m.files, ∃ f ∈ db.files, g = f ∨ g = { f with deleted := true }
  kept : ∀ f ∈ db.files, f.id ∈ m.erased ∨ o.storageDelete f.id = false ∨
    f ∈ m.files ∧ (f.id ∈ m.locks → f.id ∈ db.locks)
  locks : ∀ g ∈ m.files, g.id ∈ db.locks → g.id ∈ m.locks
  many : ∀ c, m.many c = db.many c
  erased : ∀ id ∈ db.erased, id ∈ m.erased

section Track

variable {o : Outside} {db m : Media o.unicode} {f : MediaFile} {id : Nat}

theorem Follows.refl (m : Media o.unicode) : Follows o m m :=
  ⟨fun g member => ⟨g, member, .inl rfl⟩, fun _ member => .inr (.inr ⟨member, fun h => h⟩),
    fun _ _ h => h, fun _ => rfl, fun _ h => h⟩

theorem mem_mark {g : MediaFile} (member : g ∈ (m.mark id).files) :
    ∃ f ∈ m.files, g = f ∨ g = { f with deleted := true } := by
  obtain ⟨f, old, rfl⟩ := List.mem_map.mp (Table.mem_rows.mp member)
  refine ⟨f, old, ?_⟩
  split
  · exact .inr rfl
  · exact .inl rfl

theorem mem_mark_ne (member : f ∈ m.files) (other : f.id ≠ id) : f ∈ (m.mark id).files := by
  refine Table.mem_rows.mpr (List.mem_map.mpr ⟨f, member, ?_⟩)
  rw [if_neg]
  exact fun same => other (of_decide_eq_true same)

theorem Follows.mark (follows : Follows o db m) (id : Nat)
    (settled : id ∈ m.erased ∨ o.storageDelete id = false) : Follows o db (m.mark id) := by
  constructor
  case rows =>
    intro g member
    obtain ⟨h, old, same⟩ := mem_mark member
    obtain ⟨f, first, before⟩ := follows.rows h old
    refine ⟨f, first, ?_⟩
    rcases same with rfl | rfl
    · exact before
    · rcases before with rfl | rfl
      · exact .inr rfl
      · exact .inr rfl
  case kept =>
    intro f first
    by_cases same : f.id = id
    · subst same
      rcases settled with gone | fails
      · exact .inl gone
      · exact .inr (.inl fails)
    · rcases follows.kept f first with gone | fails | ⟨here, locked⟩
      · exact .inl gone
      · exact .inr (.inl fails)
      · refine .inr (.inr ⟨mem_mark_ne here same, ?_⟩)
        intro member
        rcases List.mem_insert_iff.mp member with own | before
        · exact absurd own same
        · exact locked before
  case locks =>
    intro g member lock
    obtain ⟨h, old, same⟩ := mem_mark member
    have key : g.id = h.id := by
      rcases same with rfl | rfl <;> rfl
    exact List.mem_insert_of_mem (key ▸ follows.locks h old (key ▸ lock))
  case many => exact follows.many
  case erased => exact follows.erased

theorem Follows.erase (follows : Follows o db m) (id : Nat) : Follows o db (m.erase id) :=
  ⟨follows.rows, fun g first => (follows.kept g first).imp_left (List.mem_append_left _),
    follows.locks, follows.many, fun i h => List.mem_append_left _ (follows.erased i h)⟩

theorem many_release {checksum : Option String}
    (single : ∀ c, checksum = some c → c.isEmpty = false → m.many c = false) (c : String) :
    ((m.release checksum).find c).any (fun row => row.2 > 1) = m.many c := by
  unfold Media.release
  split
  · rfl
  rename_i own
  split
  · rfl
  rename_i some_
  have few := single own rfl (Bool.not_eq_true _ ▸ some_)
  split
  · rfl
  rename_i name count found
  have small : count ≤ 1 := by
    simpa [Media.many, found] using few
  rw [if_pos small, Table.find_delete, Media.many]
  cases here : m.hashes.find c with
  | none => rfl
  | some row =>
    have key : row.1 = c := (Table.find_eq_some.mp here).2
    by_cases same : c = own
    · subst same
      simpa [Media.many, here, key] using few
    · simp [key, same]

theorem Follows.remove (follows : Follows o db m) (gone : f.id ∈ m.erased)
    (single : ∀ c, f.checksum = some c → c.isEmpty = false → m.many c = false) :
    Follows o db (m.remove f) := by
  have mem_remove : ∀ {g}, g ∈ (m.remove f).files ↔ g ∈ m.files ∧ g.id ≠ f.id := by
    intro g
    exact Table.mem_delete.trans (and_congr_right fun _ => by simp)
  constructor
  case rows =>
    intro g member
    exact follows.rows g (mem_remove.mp member).1
  case kept =>
    intro g first
    rcases follows.kept g first with before | fails | ⟨here, locked⟩
    · exact .inl before
    · exact .inr (.inl fails)
    · by_cases same : g.id = f.id
      · exact .inl (same ▸ gone)
      · exact .inr (.inr ⟨mem_remove.mpr ⟨here, same⟩, fun lock => locked (List.mem_filter.mp lock).1⟩)
  case locks =>
    intro g member lock
    obtain ⟨here, other⟩ := mem_remove.mp member
    exact List.mem_filter.mpr ⟨follows.locks g here lock, decide_eq_true other⟩
  case many =>
    intro c
    exact (many_release single c).trans (follows.many c)
  case erased => exact follows.erased

variable {s d : State o.unicode} {text : String} {ownerId : Nat}

structure Same (f g : MediaFile) : Prop where
  id : g.id = f.id
  filename : g.filename = f.filename
  checksum : g.checksum = f.checksum
  uploadedBy : g.uploadedBy = f.uploadedBy

theorem Follows.origin (follows : Follows o db m) {g : MediaFile} (member : g ∈ m.files) :
    ∃ f ∈ db.files, Same f g ∧ (g.deleted = false → f.deleted = false) := by
  obtain ⟨f, first, rfl | rfl⟩ := follows.rows g member
  · exact ⟨g, first, ⟨rfl, rfl, rfl, rfl⟩, fun h => h⟩
  · exact ⟨f, first, ⟨rfl, rfl, rfl, rfl⟩, fun h => by cases h⟩

theorem lookup_back (follows : Follows o d.media s.media) {g : MediaFile}
    (found : o.lookup s text ownerId = some g) :
    ∃ f, o.lookup d text ownerId = some f ∧ Same f g := by
  rcases lookup_eq_some.mp found with ⟨digits, int, member⟩ | ⟨digits, ⟨member, name⟩ | ⟨none, resolves⟩⟩
  · obtain ⟨f, first, same, -⟩ := follows.origin member
    exact ⟨f, lookup_eq_some.mpr (.inl ⟨digits, same.id ▸ int, first⟩), same⟩
  · obtain ⟨f, first, same, -⟩ := follows.origin member
    exact ⟨f, lookup_eq_some.mpr (.inr ⟨digits, .inl ⟨first, same.filename ▸ name⟩⟩), same⟩
  · obtain ⟨f, first, same, live⟩ := follows.origin resolves.member
    have before : Resolves o d text ownerId f := by
      refine ⟨first, live resolves.live, resolves.formed, ?_, same.uploadedBy ▸ resolves.allowed⟩
      rcases resolves.stands with ⟨value, int, unlocked⟩ | ⟨value, name⟩
      · refine .inl ⟨value, same.id ▸ int, ?_⟩
        intro lock
        exact unlocked (follows.locks g resolves.member (same.id.symm ▸ lock))
      · exact .inr ⟨value, same.filename ▸ name⟩
    refine ⟨f, lookup_eq_some.mpr (.inr ⟨digits, .inr ⟨?_, before⟩⟩), same⟩
    -- a file that had the text as its filename would be the one that the text resolves to
    cases other : d.media.fileByName text with
    | none => rfl
    | some h =>
      obtain ⟨there, rfl⟩ := Media.fileByName_eq_some.mp other
      have dot := Unicode.dot_strip (u := o.unicode) (d.media.dotted h there)
      rcases before.stands with ⟨value, -⟩ | ⟨-, name⟩
      · exact absurd dot (Unicode.dot_of_isdigit value)
      · have alike : o.unicode.strip f.filename = o.unicode.strip h.filename := by
          rw [name, Unicode.strip_strip]
        have one := Media.eq_of_strip first there alike
        have here := Media.fileByName_eq_some.mpr
          ⟨resolves.member, (same.filename.trans (congrArg MediaFile.filename one))⟩
        cases none.symm.trans here

theorem lookup_forth (follows : Follows o d.media s.media)
    (found : o.lookup d text ownerId = some f) (there : f.id ∉ s.media.erased)
    (erasable : o.storageDelete f.id = true) :
    f ∈ s.media.files ∧ o.lookup s text ownerId = some f := by
  have stays : f ∈ d.media.files → f ∈ s.media.files ∧
      (f.id ∈ s.media.locks → f.id ∈ d.media.locks) := by
    intro first
    rcases follows.kept f first with gone | fails | kept
    · exact absurd gone there
    · exact absurd (fails.symm.trans erasable) (by decide)
    · exact kept
  rcases lookup_eq_some.mp found with ⟨digits, int, member⟩ | ⟨digits, ⟨member, name⟩ | ⟨none, resolves⟩⟩
  · exact ⟨(stays member).1, lookup_eq_some.mpr (.inl ⟨digits, int, (stays member).1⟩)⟩
  · exact ⟨(stays member).1, lookup_eq_some.mpr (.inr ⟨digits, .inl ⟨(stays member).1, name⟩⟩)⟩
  · obtain ⟨here, locked⟩ := stays resolves.member
    refine ⟨here, lookup_eq_some.mpr (.inr ⟨digits, .inr ⟨?_, here, resolves.live,
      resolves.formed, ?_, resolves.allowed⟩⟩)⟩
    · cases other : s.media.fileByName text with
      | none => rfl
      | some g =>
        obtain ⟨member, rfl⟩ := Media.fileByName_eq_some.mp other
        obtain ⟨h, first, same, -⟩ := follows.origin member
        cases none.symm.trans (Media.fileByName_eq_some.mpr ⟨first, same.filename.symm⟩)
    · exact resolves.stands.imp_left fun ⟨value, int, unlocked⟩ =>
        ⟨value, int, fun lock => unlocked (locked lock)⟩

def Outside.free (o : Outside) (s : State o.unicode) (f : MediaFile) : Bool :=
  o.tables && !o.names f && !s.named [toString f.id, f.filename] && !o.shared s f

theorem canDelete_of_find {g : MediaFile} (found : s.media.files.find id = some g) :
    o.canDeleteFilePermanently s id = o.free s g := by
  simp only [Outside.canDeleteFilePermanently, found, Outside.free]

theorem shared_eq (s : State o.unicode) (f : MediaFile) : o.shared s f =
    f.checksum.any fun c => !c.isEmpty && s.media.many c := by
  unfold Outside.shared
  cases f.checksum <;> rfl

theorem free_congr {g : MediaFile} (same : Same f g) (items : s.liveItems = d.liveItems)
    (versions : s.liveVersions = d.liveVersions) (many : ∀ c, s.media.many c = d.media.many c) :
    o.free s g = o.free d f := by
  have names : o.names g = o.names f := by
    simp only [Outside.names, same.id, same.filename, same.checksum]
  have shared : o.shared s g = o.shared d f := by
    simp only [shared_eq, same.checksum, many]
  simp only [Outside.free, names, shared, State.named, items, versions, same.id, same.filename]

theorem single_of_free (free : o.free s f = true) :
    ∀ c, f.checksum = some c → c.isEmpty = false → s.media.many c = false := by
  intro c own some_
  have alone : o.shared s f = false := by
    have last := (Bool.and_eq_true_iff.mp free).2
    simpa using last
  rw [shared_eq, own, Option.any_some, some_] at alone
  exact alone

theorem deleteFilePermanently_cases {g : MediaFile} (follows : Follows o db s.media)
    (member : g ∈ s.media.files) (free : o.free s g = true) (userId : Nat) :
    Follows o db (o.deleteFilePermanently s userId g.id).1 ∧
      (o.deleteFilePermanently s userId g.id).1.erased =
        if g.uploadedBy = userId ∧ o.storageDelete g.id = true then s.media.erased ++ [g.id]
        else s.media.erased := by
  have found : s.media.files.find g.id = some g := Table.find_eq_some.mpr ⟨member, rfl⟩
  unfold Outside.deleteFilePermanently
  simp only [found]
  by_cases own : g.uploadedBy = userId
  case neg => simp only [own, ne_eq, not_false_iff, if_true, false_and, if_false, follows, and_self]
  have marked : (s.media.mark g.id).files.find g.id = some { g with deleted := true } := by
    rw [Media.mark, Table.find_update, found]
    simp
  have still : o.canDeleteFilePermanently { s with media := s.media.mark g.id } g.id = true := by
    rw [canDelete_of_find marked, ← free]
    exact free_congr ⟨rfl, rfl, rfl, rfl⟩ rfl rfl fun _ => rfl
  simp only [own, ne_eq, not_true, if_false, still, Bool.not_true, Bool.false_eq_true, true_and]
  cases stored : o.storageDelete g.id with
  | false =>
    simp only [Bool.not_false, if_true, Bool.false_eq_true, if_false]
    exact ⟨follows.mark g.id (.inr stored), rfl⟩
  | true =>
    have erased : Follows o db ((s.media.mark g.id).erase g.id) :=
      (follows.erase g.id).mark g.id (.inl (List.mem_append_right _ (List.mem_singleton.mpr rfl)))
    simp only [Bool.not_true, Bool.false_eq_true, if_false, if_true]
    split
    · exact ⟨erased, rfl⟩
    · exact ⟨erased.remove (List.mem_append_right _ (List.mem_singleton.mpr rfl))
        (single_of_free free), rfl⟩

end Track

section Purge

variable {o : Outside} {d s : State o.unicode} {item : Item} {text : String} {f : MediaFile}

structure Reaches (o : Outside) (d : State o.unicode) (item : Item) (text : String)
    (f : MediaFile) : Prop where
  unreferenced : d.referenced text item.id = false
  found : o.lookup d text item.ownerId = some f
  free : o.free d f = true
  own : f.uploadedBy = item.ownerId
  storage : o.storageDelete f.id = true

structure Keeps (o : Outside) (d s : State o.unicode) : Prop where
  items : s.liveItems = d.liveItems
  versions : s.liveVersions = d.liveVersions
  media : Follows o d.media s.media

theorem lookup_mem {ownerId : Nat} (found : o.lookup s text ownerId = some f) :
    f ∈ s.media.files := by
  rcases lookup_eq_some.mp found with ⟨-, -, member⟩ | ⟨-, ⟨member, -⟩ | ⟨-, resolves⟩⟩
  · exact member
  · exact member
  · exact resolves.member

theorem purgeReference_spec (keeps : Keeps o d s) (item : Item) (text : String) :
    Keeps o d (o.purgeReference s item text).1 ∧
      (o.purgeReference s item text).1.items = s.items ∧
      (o.purgeReference s item text).1.versions = s.versions ∧
      ∀ x, x ∈ (o.purgeReference s item text).1.media.erased ↔
        x ∈ s.media.erased ∨ ∃ f, Reaches o d item text f ∧ f.id = x := by
  have referenced : s.referenced text item.id = d.referenced text item.id := by
    simp only [State.referenced, keeps.items, keeps.versions]
  -- where the text reaches no file, nothing is erased
  have quiet : (¬∃ f, Reaches o d item text f) → ∀ x, x ∈ s.media.erased ↔
      x ∈ s.media.erased ∨ ∃ f, Reaches o d item text f ∧ f.id = x := by
    intro none x
    constructor
    · exact .inl
    · rintro (before | ⟨f, reaches, -⟩)
      · exact before
      · exact absurd ⟨f, reaches⟩ none
  unfold Outside.purgeReference
  split
  · rename_i used
    refine ⟨keeps, rfl, rfl, quiet ?_⟩
    rintro ⟨f, reaches⟩
    rw [referenced, reaches.unreferenced] at used
    cases used
  rename_i unused
  have unreferenced : d.referenced text item.id = false := by
    rw [← referenced]
    exact Bool.not_eq_true _ ▸ unused
  split
  · rename_i missing
    refine ⟨keeps, rfl, rfl, ?_⟩
    intro x
    constructor
    · exact .inl
    · rintro (before | ⟨f, reaches, rfl⟩)
      · exact before
      · by_contra there
        have still := (lookup_forth keeps.media reaches.found there reaches.storage).2
        cases missing.symm.trans still
  rename_i g found
  obtain ⟨f, first, same⟩ := lookup_back keeps.media found
  have member := lookup_mem found
  have freed : o.free s g = o.free d f := free_congr same keeps.items keeps.versions keeps.media.many
  have only : ∀ h, Reaches o d item text h → h = f := by
    intro h reaches
    exact Option.some.inj (reaches.found.symm.trans first)
  rw [canDelete_of_find (Table.find_eq_some.mpr ⟨member, rfl⟩)]
  split
  · rename_i used
    refine ⟨keeps, rfl, rfl, quiet ?_⟩
    rintro ⟨h, reaches⟩
    rw [freed, ← only h reaches, reaches.free] at used
    cases used
  rename_i free
  have free : o.free s g = true := by simpa using free
  obtain ⟨follows, erased⟩ := deleteFilePermanently_cases keeps.media member free item.ownerId
  refine ⟨⟨keeps.items, keeps.versions, follows⟩, rfl, rfl, ?_⟩
  intro x
  show x ∈ (o.deleteFilePermanently s item.ownerId g.id).1.erased ↔ _
  rw [erased]
  constructor
  · intro gone
    split at gone
    · rename_i mine
      rcases List.mem_append.mp gone with before | now
      · exact .inl before
      · refine .inr ⟨f, ⟨unreferenced, first, freed ▸ free, same.uploadedBy ▸ mine.1,
          same.id ▸ mine.2⟩, ?_⟩
        exact same.id.symm.trans (List.mem_singleton.mp now).symm
    · exact .inl gone
  · rintro (before | ⟨h, reaches, rfl⟩)
    · split
      · exact List.mem_append_left _ before
      · exact before
    · have one := only h reaches
      subst one
      have mine : g.uploadedBy = item.ownerId ∧ o.storageDelete g.id = true :=
        ⟨same.uploadedBy.trans reaches.own, same.id ▸ reaches.storage⟩
      rw [if_pos mine]
      exact List.mem_append_right _ (List.mem_singleton.mpr same.id.symm)

theorem purgeReferences_spec (keeps : Keeps o d s) (item : Item) (texts : List String) :
    Keeps o d (o.purgeReferences item s texts).1 ∧
      (o.purgeReferences item s texts).1.items = s.items ∧
      (o.purgeReferences item s texts).1.versions = s.versions ∧
      ∀ x, x ∈ (o.purgeReferences item s texts).1.media.erased ↔
        x ∈ s.media.erased ∨ ∃ text ∈ texts, ∃ f, Reaches o d item text f ∧ f.id = x := by
  induction texts generalizing s with
  | nil =>
    refine ⟨keeps, rfl, rfl, ?_⟩
    intro x
    simp only [Outside.purgeReferences, List.not_mem_nil, false_and, exists_false, or_false]
  | cons text texts ih =>
    obtain ⟨first, items, versions, erased⟩ := purgeReference_spec keeps item text
    obtain ⟨rest, moreItems, moreVersions, moreErased⟩ := ih first
    refine ⟨rest, moreItems.trans items, moreVersions.trans versions, ?_⟩
    intro x
    refine (moreErased x).trans ?_
    rw [erased x, or_assoc]
    simp only [List.mem_cons, exists_eq_or_imp]

theorem live_delete {itemId : Nat} (deleted : ∀ i ∈ s.items, i.id = itemId → i.deleted = true) :
    State.liveItems { s with
        versions := s.versions.filter (·.itemId ≠ itemId)
        items := s.items.delete (·.id = itemId) } = s.liveItems ∧
      State.liveVersions { s with
        versions := s.versions.filter (·.itemId ≠ itemId)
        items := s.items.delete (·.id = itemId) } = s.liveVersions := by
  constructor
  · unfold State.liveItems
    congr 1
    show ((s.items.rows.filter _).filter _) = _
    rw [List.filter_filter]
    apply List.filter_congr
    intro i member
    by_cases own : i.id = itemId
    · simp [deleted i member own]
    · simp [own]
  · unfold State.liveVersions
    congr 1
    rw [List.filter_filter]
    apply List.filter_congr
    intro v _
    have rows : (s.items.delete (·.id = itemId)).rows.any (fun i => i.id = v.itemId && !i.deleted) =
        (s.items.rows.any (fun i => i.id = v.itemId && !i.deleted) && decide (v.itemId ≠ itemId)) := by
      rw [Bool.eq_iff_iff, Bool.and_eq_true]
      simp only [List.any_eq_true, Table.delete, List.mem_filter, Bool.and_eq_true,
        decide_eq_true_eq, Bool.not_eq_true', decide_eq_false_iff_not]
      constructor
      · rintro ⟨i, ⟨member, other⟩, here, live⟩
        exact ⟨⟨i, member, here, live⟩, fun own => other (here.trans own)⟩
      · rintro ⟨⟨i, member, here, live⟩, other⟩
        exact ⟨i, ⟨member, fun own => other (here.symm.trans own)⟩, here, live⟩
    have apart : (s.items.rows.any fun i => i.id = v.itemId && !i.deleted) = true →
        v.itemId ≠ itemId := by
      intro live own
      obtain ⟨i, member, holds⟩ := List.any_eq_true.mp live
      simp only [Bool.and_eq_true, decide_eq_true_eq, Bool.not_eq_true'] at holds
      exact absurd ((deleted i member (holds.1.trans own)).symm.trans holds.2) (by decide)
    rw [rows]
    cases live : s.items.rows.any fun i => i.id = v.itemId && !i.deleted with
    | false => simp
    | true => simp [apart live]

structure Unpurged (d s : State o.unicode) (todo : List Nat) : Prop where
  rows : ∀ i ∈ s.items, i ∈ d.items
  items : ∀ i ∈ d.items, i.id ∈ todo → i ∈ s.items
  versions : ∀ id ∈ todo, s.versions.filter (·.itemId = id) = d.versions.filter (·.itemId = id)

def Hit (o : Outside) (d : State o.unicode) (id x : Nat) : Prop :=
  o.wired = true ∧ ∃ item ∈ d.items, item.id = id ∧ ∃ text ∈ o.mediaRefs d item, ∃ f,
    Reaches o d item text f ∧ f.id = x

theorem purgeItem_spec {itemId : Nat} {todo : List Nat} (keeps : Keeps o d s)
    (unpurged : Unpurged d s (itemId :: todo)) (once : itemId ∉ todo)
    (deleted : ∀ i ∈ d.items, i.id = itemId → i.deleted = true) :
    Keeps o d (o.purgeItem s itemId) ∧ Unpurged d (o.purgeItem s itemId) todo ∧
      ∀ x, x ∈ (o.purgeItem s itemId).media.erased ↔ x ∈ s.media.erased ∨ Hit o d itemId x := by
  have later : ∀ {t : State o.unicode}, t.items = s.items → t.versions = s.versions →
      Unpurged d t todo := by
    intro t items versions
    refine ⟨?_, ?_, ?_⟩
    · exact fun i member => unpurged.rows i (items ▸ member)
    · exact fun i first waiting => items ▸ unpurged.items i first (List.mem_cons_of_mem _ waiting)
    · exact fun id waiting => versions ▸ unpurged.versions id (List.mem_cons_of_mem _ waiting)
  unfold Outside.purgeItem
  cases found : s.items.find itemId with
  | none =>
    refine ⟨keeps, later rfl rfl, ?_⟩
    intro x
    refine ⟨.inl, ?_⟩
    rintro (before | ⟨-, item, first, own, -⟩)
    · exact before
    · have here := unpurged.items item first (own ▸ List.mem_cons_self)
      exact absurd own (Table.find_eq_none.mp found item here)
  | some item =>
    obtain ⟨member, rfl⟩ := Table.find_eq_some.mp found
    have first := unpurged.rows item member
    have refs : o.mediaRefs s item = o.mediaRefs d item := by
      simp only [Outside.mediaRefs, unpurged.versions item.id List.mem_cons_self]
    simp only [refs]
    -- what the texts do, in either case
    obtain ⟨t, failed, went, kept, items, versions, erased⟩ : ∃ t failed,
        (if o.wired then o.purgeReferences item s (o.mediaRefs d item)
          else (s, !(o.mediaRefs d item).isEmpty)) = (t, failed) ∧ Keeps o d t ∧
        t.items = s.items ∧ t.versions = s.versions ∧
        ∀ x, x ∈ t.media.erased ↔ x ∈ s.media.erased ∨ Hit o d item.id x := by
      refine ⟨_, _, rfl, ?_⟩
      cases wired : o.wired with
      | false =>
        refine ⟨keeps, rfl, rfl, ?_⟩
        intro x
        exact ⟨.inl, fun h => h.elim id fun hit => absurd (wired.symm.trans hit.1) (by decide)⟩
      | true =>
        obtain ⟨kept, items, versions, erased⟩ :=
          purgeReferences_spec keeps item (o.mediaRefs d item)
        refine ⟨kept, items, versions, ?_⟩
        intro x
        refine (erased x).trans (or_congr_right ?_)
        constructor
        · intro reached
          exact ⟨wired, item, first, rfl, reached⟩
        · rintro ⟨-, other, there, same, reached⟩
          exact Table.eq_of_key there first same ▸ reached
    rw [went]
    split
    · exact ⟨kept, later items versions, erased⟩
    · have gone : ∀ i ∈ t.items, i.id = item.id → i.deleted = true :=
        fun i here own => deleted i (unpurged.rows i (items ▸ here)) own
      obtain ⟨sameItems, sameVersions⟩ := live_delete gone
      refine ⟨⟨sameItems.trans kept.items, sameVersions.trans kept.versions, kept.media⟩, ?_, erased⟩
      refine ⟨?_, ?_, ?_⟩
      · intro i here
        exact unpurged.rows i (items ▸ (Table.mem_delete.mp here).1)
      · intro i start waiting
        have here := unpurged.items i start (List.mem_cons_of_mem _ waiting)
        refine Table.mem_delete.mpr ⟨items ▸ here, decide_eq_false ?_⟩
        exact fun own => once (own ▸ waiting)
      · intro id waiting
        refine Eq.trans ?_ (unpurged.versions id (List.mem_cons_of_mem _ waiting))
        show (t.versions.filter _).filter _ = _
        rw [List.filter_filter, versions]
        apply List.filter_congr
        intro v _
        by_cases here : v.itemId = id
        · have other : id ≠ item.id := fun own => once (own ▸ waiting)
          simp [here, other]
        · simp [here]

theorem purgeItems_spec {ids : List Nat} (keeps : Keeps o d s) (unpurged : Unpurged d s ids)
    (once : ids.Nodup) (deleted : ∀ i ∈ d.items, i.id ∈ ids → i.deleted = true) (x : Nat) :
    x ∈ (ids.foldl o.purgeItem s).media.erased ↔
      x ∈ s.media.erased ∨ ∃ id ∈ ids, Hit o d id x := by
  induction ids generalizing s with
  | nil => simp only [List.foldl_nil, List.not_mem_nil, false_and, exists_false, or_false]
  | cons id ids ih =>
    obtain ⟨fresh, rest⟩ := List.nodup_cons.mp once
    obtain ⟨kept, later, erased⟩ := purgeItem_spec keeps unpurged fresh
      fun i member own => deleted i member (own ▸ List.mem_cons_self)
    rw [List.foldl_cons, ih kept later rest fun i member waiting =>
      deleted i member (List.mem_cons_of_mem _ waiting), erased, or_assoc]
    simp only [List.mem_cons, exists_eq_or_imp]

theorem mem_erased (s : State o.unicode) (now retentionDays : Int) (x : Nat) :
    x ∈ (purgeDeletedItems o s now retentionDays).media.erased ↔ x ∈ s.media.erased ∨
      o.wired = true ∧ ∃ item ∈ s.items, item.expired (cutoff now retentionDays) = true ∧
        ∃ text ∈ o.mediaRefs s item, ∃ f, Reaches o s item text f ∧ f.id = x := by
  have expired : ∀ {i : Item}, i ∈ s.items → i.id ∈ (s.items.rows.filter
      (·.expired (cutoff now retentionDays))).map Item.id →
      i.expired (cutoff now retentionDays) = true := by
    intro i member listed
    obtain ⟨j, found, same⟩ := List.mem_map.mp listed
    obtain ⟨there, late⟩ := List.mem_filter.mp found
    exact Table.eq_of_key there member same ▸ late
  rw [purgeDeletedItems, purgeItems_spec (d := s) ⟨rfl, rfl, .refl s.media⟩
    ⟨fun _ h => h, fun _ h _ => h, fun _ _ => rfl⟩
    (s.items.unique.sublist (List.filter_sublist.map _))
    fun i member listed => (Bool.and_eq_true_iff.mp (expired member listed)).1]
  refine or_congr_right ⟨?_, ?_⟩
  · rintro ⟨id, listed, wired, item, member, rfl, reached⟩
    exact ⟨wired, item, member, expired member listed, reached⟩
  · rintro ⟨wired, item, member, late, reached⟩
    exact ⟨item.id, List.mem_map_of_mem (List.mem_filter.mpr ⟨member, late⟩), wired, item, member,
      rfl, reached⟩

end Purge

section Safety

def HasText {u : Unicode} (s : State u) (item : Item) (text : String) : Prop :=
  item.mediaObjectId = some text ∨
    ∃ v ∈ s.versions, v.itemId = item.id ∧ v.mediaObjectId = some text

def RefersTo {u : Unicode} (s : State u) (item : Item) (text : String) (fileId : Nat) : Prop :=
  HasText s item text ∧ ∃ f, s.media.target text = some f ∧ f.id = fileId

def purged (o : Outside) (s : State o.unicode) (now retentionDays : Int) : List Nat :=
  (purgeDeletedItems o { s with media := { s.media with erased := [] } } now
    retentionDays).media.erased

/-- No live item, and no deleted one that is not expired yet, refers to a file that is erased. -/
def Intact (o : Outside) (s : State o.unicode) (now retentionDays : Int) : Prop :=
  ∀ x ∈ purged o s now retentionDays, ∀ item ∈ s.items,
    item.expired (cutoff now retentionDays) = false → ∀ text, ¬RefersTo s item text x

def Overlooked {u : Unicode} (s : State u) (cutoff : Int) (text : String) (f : MediaFile) : Prop :=
  ∃ item ∈ s.items, item.expired cutoff = false ∧ ∃ t, RefersTo s item t f.id ∧
    (item.deleted = true ∨ t ∉ [text, toString f.id, f.filename])

variable {o : Outside} {s : State o.unicode}

theorem restoreItem_ok {u : Unicode} {s : State u} {item : Item} (member : item ∈ s.items)
    (deleted : item.deleted = true) (manages : Nat → Nat → Bool) (now : Nat) :
    (restoreItem s manages item.ownerId item.id now).isOk = true := by
  have found : (s.items.find item.id).filter (fun i => i.deleted) = some item := by
    rw [Table.find_eq_some.mpr ⟨member, rfl⟩, Option.filter_some, deleted]
    rfl
  rw [restoreItem, found]
  simp [Except.isOk, Except.toBool]

theorem mem_live {item : Item} {text : String} (member : item ∈ s.items)
    (live : item.deleted = false) (has : HasText s item text) :
    (item.id, text) ∈ s.liveItems ++ s.liveVersions := by
  rcases has with own | ⟨v, version, same, own⟩
  · refine List.mem_append_left _ (List.mem_filterMap.mpr ⟨item, ?_, by rw [own]; rfl⟩)
    exact List.mem_filter.mpr ⟨member, by simp [live]⟩
  · refine List.mem_append_right _ (List.mem_filterMap.mpr ⟨v, ?_, by rw [own, ← same]; rfl⟩)
    refine List.mem_filter.mpr ⟨version, List.any_eq_true.mpr ⟨item, member, ?_⟩⟩
    simp [same, live]

theorem not_counted {item kept : Item} {text t : String} {f : MediaFile} (first : item ∈ s.items)
    (deleted : item.deleted = true) (reaches : Reaches o s item text f) (member : kept ∈ s.items)
    (live : kept.deleted = false) (has : HasText s kept t) :
    t ∉ [text, toString f.id, f.filename] := by
  have listed := mem_live member live has
  intro counted
  rcases List.mem_cons.mp counted with rfl | named
  · have other : kept.id ≠ item.id := by
      intro same
      rw [Table.eq_of_key member first same, deleted] at live
      cases live
    have used : s.referenced t item.id = true :=
      List.any_eq_true.mpr ⟨_, listed, by simp [other]⟩
    exact absurd (used.symm.trans reaches.unreferenced) (by decide)
  · have used : s.named [toString f.id, f.filename] = true :=
      List.any_eq_true.mpr ⟨_, listed, decide_eq_true named⟩
    have free := reaches.free
    rw [Outside.free, used, Bool.not_true, Bool.and_false, Bool.false_and] at free
    cases free

theorem lookup_congr {d s : State o.unicode} (files : d.media.files = s.media.files)
    (locks : d.media.locks = s.media.locks) (text : String) (ownerId : Nat) :
    o.lookup d text ownerId = o.lookup s text ownerId := by
  have byId : d.media.getFile = s.media.getFile := by
    funext id
    rw [Media.getFile, Media.getFile, files]
  have byName : d.media.getFileByFilename = s.media.getFileByFilename := by
    funext name
    rw [Media.getFileByFilename, Media.getFileByFilename, files]
  unfold Outside.lookup Outside.resolveMediaObject Media.fileByName
  rw [files, byId, byName, locks]

theorem reaches_erased (s : State o.unicode) (log : List Nat) :
    Reaches o { s with media := { s.media with erased := log } } item text f ↔
      Reaches o s item text f := by
  have same : o.lookup { s with media := { s.media with erased := log } } text item.ownerId =
      o.lookup s text item.ownerId := by
    apply lookup_congr
    · rfl
    · rfl
  constructor
  · intro h
    exact ⟨h.unreferenced, same.symm.trans h.found, h.free, h.own, h.storage⟩
  · intro h
    exact ⟨h.unreferenced, same.trans h.found, h.free, h.own, h.storage⟩

theorem mem_purged {now retentionDays : Int} {x : Nat} : x ∈ purged o s now retentionDays ↔
    o.wired = true ∧ ∃ item ∈ s.items, item.expired (cutoff now retentionDays) = true ∧
      ∃ text ∈ o.mediaRefs s item, ∃ f, Reaches o s item text f ∧ f.id = x := by
  rw [purged, mem_erased]
  simp only [reaches_erased, List.not_mem_nil, false_or]
  exact Iff.rfl

/-- The purge leaves what can be restored intact exactly when it overlooks no reference to a file
that an expired item reaches. -/
theorem purge_intact_iff (o : Outside) (s : State o.unicode) (now retentionDays : Int) :
    Intact o s now retentionDays ↔ (o.wired = true → ∀ item ∈ s.items,
      item.expired (cutoff now retentionDays) = true → ∀ text ∈ o.mediaRefs s item, ∀ f,
        Reaches o s item text f → ¬Overlooked s (cutoff now retentionDays) text f) := by
  constructor
  · rintro intact wired item member late text own f reaches ⟨kept, there, early, t, refers, -⟩
    exact intact f.id (mem_purged.mpr ⟨wired, item, member, late, text, own, f, reaches, rfl⟩)
      kept there early t refers
  · intro careful x gone kept there early t refers
    obtain ⟨wired, item, member, late, text, own, f, reaches, rfl⟩ := mem_purged.mp gone
    refine careful wired item member late text own f reaches ⟨kept, there, early, t, refers, ?_⟩
    cases live : kept.deleted with
    | true => exact .inl rfl
    | false =>
      exact .inr (not_counted member (Bool.and_eq_true_iff.mp late).1 reaches there live refers.1)

end Safety

def ascii : Unicode where
  isDigit := Char.isDigit
  decimal := fun c => if c.isDigit then some (c.toNat - 48) else none
  isSpace := Text.isSpace
  dot := ⟨by decide, by decide⟩
  apart := fun _ digit => Text.isSpace_of_isDigit digit

def plain : Outside where
  unicode := ascii
  attachments := []
  avatars := []
  icons := []
  artifacts := []
  like := fun _ _ => false
  decrypt := fun _ => none
  checkFileAccess := fun _ _ => false
  tables := true
  wired := true
  lookupById := true
  storageDelete := fun _ => true
  removeMetadata := fun _ => true
  order := id
  order_mem := fun _ _ => Iff.rfl

def twoCopies : State ascii where
  items := ⟨[⟨1, 5, .personal, none, some "7", false, true, 0⟩,
    ⟨2, 5, .personal, none, some "7", false, true, 86400001⟩], by decide⟩
  versions := []
  media :=
    { files := ⟨[⟨7, "a.png", none, 5, true⟩], by decide⟩, locks := [], hashes := ⟨[], by decide⟩,
      erased := [], names := List.nodup_singleton _,
      dotted := fun f member => by
        rw [List.mem_singleton.mp (Table.mem_rows.mp member)]
        decide }

theorem purge_not_intact : ¬Intact plain twoCopies 86400001 1 := by
  intro intact
  have gone : 7 ∈ purged plain twoCopies 86400001 1 := by decide
  exact intact 7 gone ⟨2, 5, .personal, none, some "7", false, true, 86400001⟩
    (.tail _ (.head _)) rfl "7" ⟨.inl rfl, ⟨7, "a.png", none, 5, true⟩, by decide, rfl⟩

end Plexichat.Stash
