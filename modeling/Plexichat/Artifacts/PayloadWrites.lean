import Plexichat.Artifacts.Payload

/-! No write of the payload takes another one back, in runs whose patches keep apart. -/
namespace Plexichat.Artifacts
open Transition Interleaving

variable {ρ φ β : Type} [DecidableEq ρ] [DecidableEq φ]

section Patches

variable {p : Payload ρ φ β} {e : Entry ρ φ}

theorem mem_appendNew {α : Type} [DecidableEq α] {l : List α} {x : Option α} {y : α} :
    y ∈ appendNew l x ↔ y ∈ l ∨ x = some y := by
  unfold appendNew
  split
  · simp
  · rename_i z
    split
    · rename_i known
      constructor
      · exact .inl
      · rintro (old | same)
        · exact old
        · exact Option.some.inj same ▸ known
    · rw [List.mem_append, List.mem_singleton, Option.some.injEq, eq_comm (a := y)]

theorem mem_insertPrevious {α : Type} [DecidableEq α] {l : List α} {x : Option α} {y : α} :
    y ∈ insertPrevious l x ↔ x = some y ∨ y ∈ l := by
  unfold insertPrevious
  split
  · simp
  · rename_i z
    split
    · rename_i known
      constructor
      · exact .inr
      · rintro (same | old)
        · exact Option.some.inj same ▸ known
        · exact old
    · rw [List.mem_cons, Option.some.injEq, eq_comm (a := y)]

omit [DecidableEq ρ] [DecidableEq φ] in
theorem mem_mergeParticipantRoster {ids : List Nat} {id : Nat} :
    id ∈ (p.mergeParticipantRoster ids).participantIds ↔ id ∈ p.participantIds ∨ id ∈ ids := by
  show id ∈ List.mergeSort _ _ ↔ _
  rw [List.mem_mergeSort, List.mem_dedup, List.mem_append]

omit [DecidableEq ρ] [DecidableEq φ] in
theorem has_mergeParticipantRoster (ids : List Nat) :
    (p.Has e → (p.mergeParticipantRoster ids).Has e) ∧
      (e ∈ (Work.roster ids : Work ρ φ).entries → (p.mergeParticipantRoster ids).Has e) := by
  constructor
  · intro has
    cases e with
    | participant id => exact mem_mergeParticipantRoster.mpr (.inl has)
    | url u => exact has
    | file f => exact has
  · intro own
    obtain ⟨id, member, rfl⟩ := List.mem_map.mp own
    exact mem_mergeParticipantRoster.mpr (.inr member)

theorem has_updateFields {fields : Fields ρ φ} {ref : ρ} (given : fields.recordingRef = some ref) :
    (p.updateFields fields).Has e ↔ p.Has e ∨
      e = .url ref ∨ ∃ f, fields.recordingFileId = some f ∧ e = .file f := by
  simp only [Payload.updateFields, given]
  cases e with
  | participant id =>
    show id ∈ p.participantIds ↔ _
    simp [Payload.Has]
  | url u =>
    show some ref = some u ∨ u ∈ appendNew (insertPrevious p.recordingUrls p.recordingRef)
      (some ref) ↔ _
    rw [mem_appendNew, mem_insertPrevious]
    simp only [Payload.Has, Entry.url.injEq, reduceCtorEq, and_false, exists_false, or_false,
      Option.some.injEq]
    tauto
  | file f =>
    show fields.recordingFileId = some f ∨ f ∈ appendNew
      (insertPrevious p.recordingFileIds p.recordingFileId) fields.recordingFileId ↔ _
    rw [mem_appendNew, mem_insertPrevious]
    simp only [Payload.Has, Entry.file.injEq, reduceCtorEq, false_or]
    constructor
    · rintro (own | (before | listed) | own)
      · exact .inr ⟨f, own, rfl⟩
      · exact .inl (.inl before)
      · exact .inl (.inr listed)
      · exact .inr ⟨f, own, rfl⟩
    · rintro ((before | listed) | ⟨g, own, rfl⟩)
      · exact .inr (.inl (.inl before))
      · exact .inr (.inl (.inr listed))
      · exact .inl own

theorem has_recording {fields : Fields ρ φ} (given : fields.recordingRef ≠ none)
    (urls : ∀ u ∈ fields.recordingUrls.getD [], fields.recordingRef = some u)
    (files : ∀ f ∈ fields.recordingFileIds.getD [], fields.recordingFileId = some f) :
    (p.Has e → (p.updateFields fields).Has e) ∧
      (e ∈ (Work.recording fields).entries → (p.updateFields fields).Has e) := by
  obtain ⟨ref, given⟩ := Option.ne_none_iff_exists'.mp given
  constructor
  · exact fun has => (has_updateFields given).mpr (.inl has)
  · intro own
    refine (has_updateFields given).mpr ?_
    rcases List.mem_append.mp own with url | file
    · obtain ⟨u, member, rfl⟩ := List.mem_map.mp url
      have same : fields.recordingRef = some u := by
        rcases List.mem_append.mp member with ref | passed
        · exact Option.mem_toList.mp ref
        · exact urls u passed
      cases given.symm.trans same
      exact .inr (.inl rfl)
    · obtain ⟨f, member, rfl⟩ := List.mem_map.mp file
      have same : fields.recordingFileId = some f := by
        rcases List.mem_append.mp member with id | passed
        · exact Option.mem_toList.mp id
        · exact files f passed
      exact .inr (.inr ⟨f, same, rfl⟩)

end Patches

structure Shared.Sound (s : Shared ρ φ β) : Prop where
  once : (s.successes.map Success.expected).Nodup
  past : ∀ x ∈ s.successes, x.expected < s.rev
  read : ∀ x ∈ s.successes, x.replaced = x.read
  owed : ∀ e ∈ s.owed, s.payload.Has e

def Read (s : Shared ρ φ β) (p : Phase ρ φ β) : Prop :=
  match p with
  | .idle => True
  | .fetched w payload rev =>
    rev ≤ s.rev ∧ (Pending s.rev (.fetched w payload rev) → payload = s.payload)

section Steps

variable {s : Shared ρ φ β} {p : Phase ρ φ β}

omit [DecidableEq ρ] [DecidableEq φ] in
theorem Shared.Sound.patch (sound : s.Sound) (w : Work ρ φ) {payload : Payload ρ φ β}
    (keeps : ∀ e, (s.payload.Has e → payload.Has e) ∧ (e ∈ w.entries → payload.Has e)) :
    (s.patch w payload).Sound := by
  refine ⟨sound.once, sound.past, sound.read, ?_⟩
  intro e member
  rcases List.mem_append.mp member with before | own
  · exact (keeps e).1 (sound.owed e before)
  · exact (keeps e).2 own

theorem Shared.Sound.update (sound : s.Sound) {read payload : Payload ρ φ β} {expected : Nat}
    (current : expected = s.rev → read = s.payload) : (s.update read payload expected).Sound := by
  unfold Shared.update
  split
  · rename_i same
    subst same
    have same := current rfl
    constructor
    case once =>
      rw [List.map_append, List.map_singleton]
      refine List.nodup_append.mpr ⟨sound.once, List.nodup_singleton _, ?_⟩
      intro n old m own equal
      obtain ⟨x, member, rfl⟩ := List.mem_map.mp old
      have below := sound.past x member
      rw [equal, List.mem_singleton.mp own] at below
      exact Nat.lt_irrefl _ below
    case past =>
      intro x member
      rcases List.mem_append.mp member with old | own
      · exact Nat.lt_succ_of_lt (sound.past x old)
      · rw [List.mem_singleton.mp own]
        exact Nat.lt_succ_self _
    case read =>
      intro x member
      rcases List.mem_append.mp member with old | own
      · exact sound.read x old
      · rw [List.mem_singleton.mp own]
        exact same.symm
    case owed =>
      intro e member
      obtain ⟨there, left⟩ := List.mem_filter.mp member
      have had := sound.owed e there
      rw [← same] at had
      simpa [had] using left
  · exact sound

omit [DecidableEq ρ] [DecidableEq φ] in
theorem Read.patch (read : Read s p) (w : Work ρ φ) {payload : Payload ρ φ β}
    (apart : payload = s.payload ∨ ¬Pending s.rev p) : Read (s.patch w payload) p := by
  cases p with
  | idle => trivial
  | fetched v found rev =>
    refine ⟨read.1, ?_⟩
    intro pending
    rcases apart with same | never
    · exact (read.2 pending).trans same.symm
    · exact absurd pending never

theorem Read.update (read : Read s p) {found payload : Payload ρ φ β} {expected : Nat}
    (apart : s.rev = expected → ¬Pending (s.rev + 1) p) :
    Read (s.update found payload expected) p := by
  unfold Shared.update
  split
  · rename_i lands
    cases p with
    | idle => trivial
    | fetched v other rev =>
      exact ⟨Nat.le_succ_of_le read.1, fun pending => absurd pending (apart lands)⟩
  · exact read

end Steps

variable {ι : Type} [DecidableEq ι]

theorem sound_throughout {s : World ι ρ φ β} (run : Guarded (step next) Apart init s) :
    Holds Shared.Sound Read (fun _ _ => True) s := by
  refine holds_throughout ?_ ?_ run
  · rintro s ⟨none_succeeded, none_owed, idle⟩
    refine ⟨⟨?_, ?_, ?_, ?_⟩, ?_, fun _ _ _ => trivial⟩
    · rw [none_succeeded]
      exact List.nodup_nil
    · rw [none_succeeded]
      exact fun x member => absurd member List.not_mem_nil
    · rw [none_succeeded]
      exact fun x member => absurd member List.not_mem_nil
    · rw [none_owed]
      exact fun e member => absurd member List.not_mem_nil
    · intro i
      rw [idle i]
      trivial
  · intro s i a r holds apart moved
    have sound := holds.shared
    have mine := holds.each i
    unfold Apart at apart
    suffices kept : r.1.Sound ∧ Read r.1 r.2 ∧ ∀ j ≠ i, Read r.1 (s.pc j) from
      ⟨kept.1, kept.2.1, fun j other => ⟨kept.2.2 j other, trivial, trivial⟩⟩
    generalize s.pc i = p at apart moved mine
    cases p with
    | idle =>
      cases a <;> cases moved
      · refine ⟨sound, ?_, fun j _ => holds.each j⟩
        show Read s.shared (if _ then _ else _)
        split
        · trivial
        · exact ⟨Nat.le_refl _, fun _ => rfl⟩
      · exact ⟨sound, ⟨Nat.le_refl _, fun _ => rfl⟩, fun j _ => holds.each j⟩
      · exact ⟨sound, ⟨Nat.le_refl _, fun _ => rfl⟩, fun j _ => holds.each j⟩
    | fetched w found rev =>
      cases w with
      | roster ids =>
        cases a <;> cases moved
        · have same : found = s.shared.payload := mine.2 trivial
          subst same
          refine ⟨sound.patch _ fun e => has_mergeParticipantRoster ids, trivial, ?_⟩
          intro j other
          exact (holds.each j).patch _ (apart.imp_right fun alone => alone j other)
        · exact ⟨sound, trivial, fun j _ => holds.each j⟩
      | recording fields =>
        cases a <;> cases moved
        · have same : found = s.shared.payload := mine.2 trivial
          subst same
          obtain ⟨alone, given, urls, files⟩ := apart
          refine ⟨sound.patch _ fun e => has_recording given urls files, trivial, ?_⟩
          intro j other
          exact (holds.each j).patch _ (alone.imp_right fun alone => alone j other)
        · exact ⟨sound, trivial, fun j _ => holds.each j⟩
      | optimistic =>
        cases a <;> cases moved
        · refine ⟨sound.update fun same => mine.2 same, trivial, ?_⟩
          intro j other
          exact (holds.each j).update fun lands => apart lands j other
        · exact ⟨sound, trivial, fun j _ => holds.each j⟩

def untouched : World (Fin 2) Nat Nat Nat :=
  ⟨⟨⟨[1], 1, none, none, [], [], 0⟩, 0, [], []⟩, fun _ => .idle⟩

end Plexichat.Artifacts
