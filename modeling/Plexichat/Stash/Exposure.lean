import Plexichat.Library.Caches
import Plexichat.Stash.Listing

/-! `_can_expose_storage_batch`: who may see the references to the bytes, for a page of rows at
once. -/
namespace Plexichat.Stash.Store

def namesStorage (permissions : List String) : Bool :=
  "*" ∈ permissions || ["edit", "preview", "download"].any (· ∈ permissions)

/-- `exposed_by_grant`, from the one query over all rows. -/
def exposedByGrant (c : Store) (now userId : Nat) (itemIds : List Nat) : List Nat :=
  let grantRows := c.grants.rows.filter fun g => g.subjectType = "user" && g.subjectId = userId &&
    g.revokedAt.isNone && g.itemId ∈ itemIds
  (grantRows.filter fun g => !g.expiresAt.any (· ≤ now) && namesStorage g.permissions).map
    Grant.itemId

/-- `admin_cache` and `result`. -/
structure Exposure where
  adminCache : Nat → Option Bool := Memo.empty
  result : Nat → Option Bool := Memo.empty

def Exposure.record (e : Exposure) (itemId : Nat) (exposed : Bool) : Exposure :=
  { e with result := Function.update e.result itemId (some exposed) }

def exposeRow (c : Store) (userId : Nat) (exposedIds : List Nat) (e : Exposure) (row : Item) :
    Exposure :=
  if row.ownerId = userId ∨ row.id ∈ exposedIds then e.record row.id true
  else match row.serverId with
    | none => e.record row.id false
    | some sid =>
      let adminCache := if (e.adminCache sid).isNone
        then Memo.store e.adminCache sid (some (c.administers userId sid)) else e.adminCache
      { e with adminCache }.record row.id (adminCache sid = some true)

/-- `_can_expose_storage_batch`; `canExposeStorageBatch` is its answer for one row. -/
def canExposeStorageRows (c : Store) (now : Nat) (rows : List Item) (userId : Nat) :
    Nat → Option Bool :=
  (rows.foldl (c.exposeRow userId (c.exposedByGrant now userId (rows.map Item.id))) {}).result

section Batch

variable {c : Store} {now userId : Nat} {exposedIds : List Nat}

def rowExposed (c : Store) (userId : Nat) (exposedIds : List Nat) (row : Item) : Bool :=
  row.ownerId = userId || row.id ∈ exposedIds || row.serverId.any (c.administers userId)

def Exposure.Coherent (c : Store) (userId : Nat) (e : Exposure) : Prop :=
  Memo.Coherent e.adminCache fun sid => some (c.administers userId sid)

/-- One row of the loop: the cache stays true and the row's answer is recorded. -/
theorem exposeRow_spec (exposedIds : List Nat) {e : Exposure} (coherent : e.Coherent c userId)
    (row : Item) :
    (c.exposeRow userId exposedIds e row).Coherent c userId ∧
      (c.exposeRow userId exposedIds e row).result =
        Function.update e.result row.id (some (c.rowExposed userId exposedIds row)) := by
  unfold exposeRow rowExposed
  split
  · rename_i shortcut
    have granted : (decide (row.ownerId = userId) || decide (row.id ∈ exposedIds)) = true := by
      simpa using shortcut
    exact ⟨coherent, by rw [granted, Bool.true_or]; rfl⟩
  rename_i neither
  obtain ⟨other, ungranted⟩ := not_or.mp neither
  split
  · rename_i personal
    exact ⟨coherent, by simp [Exposure.record, other, ungranted, personal]⟩
  rename_i sid server
  cases kept : e.adminCache sid with
  | some answer =>
    have same : c.administers userId sid = answer := Option.some.inj (coherent sid answer kept)
    exact ⟨coherent, by simp [Exposure.record, other, ungranted, server, kept, same]⟩
  | none =>
    refine ⟨Memo.coherent_store coherent sid, ?_⟩
    simp [Exposure.record, other, ungranted, server, Memo.store]

theorem exposeRows_result (truth : Nat → Bool) (rows : List Item) {e : Exposure}
    (coherent : e.Coherent c userId)
    (agree : ∀ row ∈ rows, c.rowExposed userId exposedIds row = truth row.id) (k : Nat) :
    (rows.foldl (c.exposeRow userId exposedIds) e).result k =
      if k ∈ rows.map Item.id then some (truth k) else e.result k := by
  induction rows generalizing e with
  | nil => simp
  | cons row rows ih =>
    obtain ⟨still, recorded⟩ := exposeRow_spec exposedIds coherent row
    rw [List.foldl_cons, ih still fun r member => agree r (List.mem_cons_of_mem _ member), recorded,
      agree row List.mem_cons_self]
    by_cases later : k ∈ rows.map Item.id
    · simp [later]
    · by_cases here : k = row.id
      · simp [here]
      · simp [later, here]

theorem mem_exposedByGrant {itemId : Nat} {itemIds : List Nat} (asked : itemId ∈ itemIds) :
    itemId ∈ c.exposedByGrant now userId itemIds ↔
      (c.itemGrant now userId itemId).any (fun g => namesStorage g.permissions) = true := by
  have read (g : Grant) : (g ∈ c.grants.rows ∧ (((g.subjectType = "user" ∧ g.subjectId = userId) ∧
      g.revokedAt.isNone = true) ∧ g.itemId ∈ itemIds)) ∧ (!g.expiresAt.any (· ≤ now)) = true ↔
        c.itemGrant now userId g.itemId = some g ∧ g.itemId ∈ itemIds := by
    rw [← mem_activeGrants, activeGrants, List.mem_filter]
    simp only [active_eq, Bool.and_eq_true, decide_eq_true_eq]
    tauto
  simp only [exposedByGrant, List.mem_map, List.mem_filter, Option.any_eq_true, Bool.and_eq_true,
    decide_eq_true_eq, ← and_assoc]
  constructor
  · rintro ⟨g, ⟨listed, names⟩, rfl⟩
    exact ⟨g, ((read g).mp (by simpa only [and_assoc] using listed)).1, names⟩
  · rintro ⟨g, own, names⟩
    obtain rfl := itemGrant_itemId own
    exact ⟨g, ⟨by simpa only [and_assoc] using (read g).mpr ⟨own, asked⟩, names⟩, rfl⟩

theorem canExposeStorage_eq (row : Item) : c.canExposeStorage now row userId =
    (row.ownerId = userId || row.serverId.any (c.administers userId) ||
      (c.itemGrant now userId row.id).any fun g =>
        namesStorage g.permissions || mutations.any (· ∈ g.permissions)) := by
  unfold canExposeStorage
  congr 1
  simp only [List.any_cons, List.any_nil, Bool.or_false, grantPermissions_eq]
  cases c.itemGrant now userId row.id with
  | none => rfl
  | some g =>
    rw [Bool.eq_iff_iff]
    simp [allows, namesStorage, mutations]
    tauto

theorem canExposeStorageBatch_eq (row : Item) : c.canExposeStorageBatch now row userId =
    (row.ownerId = userId || row.serverId.any (c.administers userId) ||
      (c.itemGrant now userId row.id).any fun g => namesStorage g.permissions) := by
  have read : (c.grants.rows.any fun g => g.subjectType = "user" && g.subjectId = userId &&
      g.itemId = row.id && active now g.expiresAt g.revokedAt && namesStorage g.permissions) =
        (c.itemGrant now userId row.id).any fun g => namesStorage g.permissions := by
    rw [Bool.eq_iff_iff]
    simp only [itemGrant, Option.any_eq_true, List.any_eq_true, Bool.and_eq_true,
      decide_eq_true_eq, Option.filter_eq_some_iff, Table.find_eq_some, Table.mem_rows,
      Prod.mk.injEq]
    apply exists_congr
    tauto
  rw [Bool.or_right_comm, ← read]
  rfl

theorem canExposeStorageRows_eq {rows : List Item} (stored : ∀ row ∈ rows, row ∈ c.items)
    {row : Item} (member : row ∈ rows) : c.canExposeStorageRows now rows userId row.id =
      some (c.canExposeStorageBatch now row userId) := by
  let exposedIds := c.exposedByGrant now userId (rows.map Item.id)
  let truth (id : Nat) : Bool := (c.items.find id).any (c.rowExposed userId exposedIds)
  have agree : ∀ r ∈ rows, c.rowExposed userId exposedIds r = truth r.id := by
    intro r there
    simp only [truth, Table.find_eq_some.mpr ⟨stored r there, rfl⟩, Option.any_some]
  have answer := exposeRows_result truth rows (e := {}) (Memo.coherent_empty _) agree row.id
  rw [if_pos (List.mem_map_of_mem member), ← agree row member] at answer
  have granted : decide (row.id ∈ exposedIds) =
      (c.itemGrant now userId row.id).any (fun g => namesStorage g.permissions) := by
    rw [Bool.eq_iff_iff, decide_eq_true_eq, mem_exposedByGrant (List.mem_map_of_mem member)]
  rw [canExposeStorageRows, answer, rowExposed, granted, Bool.or_right_comm,
    canExposeStorageBatch_eq]

end Batch

/-- The batch agrees with the single rule exactly when no row that the user has no other way to
comes with a grant whose permissions imply looking and name no right to the bytes. -/
theorem exposure_batch_iff (c : Store) (now userId : Nat) (rows : List Item)
    (stored : ∀ row ∈ rows, row ∈ c.items) :
    (∀ row ∈ rows, c.canExposeStorageRows now rows userId row.id =
      some (c.canExposeStorage now row userId)) ↔
    ∀ row ∈ rows, row.ownerId = userId ∨ row.serverId.any (c.administers userId) = true ∨
      ∀ g, c.itemGrant now userId row.id = some g →
        (∃ p ∈ ["*", "edit", "preview", "download"], p ∈ g.permissions) ∨
          ∀ p ∈ ["manage_versions", "move", "share", "delete"], p ∉ g.permissions := by
  apply forall₂_congr
  intro row member
  rw [canExposeStorageRows_eq stored member, canExposeStorageBatch_eq, canExposeStorage_eq,
    Option.some_inj]
  by_cases owner : row.ownerId = userId
  · simp [owner]
  cases admin : row.serverId.any (c.administers userId) with
  | true => simp
  | false =>
    cases c.itemGrant now userId row.id with
    | none => simp
    | some g =>
      rw [Bool.eq_iff_iff]
      simp [owner, namesStorage, mutations]
      tauto

/-- The two items of `shared`; the grant on the first lets user 2 edit it. -/
theorem exposure_batch_shared : shared.items.rows ≠ [] ∧ ∀ row ∈ shared.items.rows,
    shared.canExposeStorageRows 200 shared.items.rows 2 row.id =
      some (shared.canExposeStorage 200 row 2) := by
  refine ⟨List.cons_ne_nil _ _,
    (exposure_batch_iff shared 200 2 shared.items.rows fun _ member => member).mpr ?_⟩
  rintro row (_ | ⟨_, _ | ⟨_, impossible⟩⟩)
  · refine .inr (.inr fun g granted => .inl ⟨"edit", by decide, ?_⟩)
    have edits : shared.itemGrant 200 2 11 = some ⟨11, "user", 2, ["edit"], none, none⟩ := by
      decide +kernel
    cases edits.symm.trans granted
    exact List.mem_cons_self
  · refine .inr (.inr fun g granted => ?_)
    have ungranted : shared.itemGrant 200 2 12 = none := by decide +kernel
    cases ungranted.symm.trans granted
  · cases impossible

def movable : Store :=
  { shared with grants := ⟨[⟨11, "user", 2, ["move"], none, none⟩], by decide⟩ }

/-- The references are shown with the one item and kept back in the page with it. -/
theorem exposure_batch_differs : ¬∀ (c : Store) (now userId : Nat) (rows : List Item),
    (∀ row ∈ rows, row ∈ c.items) → ∀ row ∈ rows,
      c.canExposeStorageRows now rows userId row.id = some (c.canExposeStorage now row userId) := by
  intro claimed
  have equal := claimed movable 200 2 movable.items.rows (fun _ member => member)
    ⟨11, 1, .personal, none, none, false, false, 100⟩ List.mem_cons_self
  have batch : movable.canExposeStorageRows 200 movable.items.rows 2 11 = some false := by
    decide +kernel
  have single : movable.canExposeStorage 200
      ⟨11, 1, .personal, none, none, false, false, 100⟩ 2 = true := by decide +kernel
  rw [batch, single] at equal
  cases equal

end Plexichat.Stash.Store
