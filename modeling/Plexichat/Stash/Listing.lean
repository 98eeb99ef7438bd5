import Mathlib.Tactic.Tauto
import Plexichat.Stash.Items

/-! Which items a user is shown, and which he may look at. The listing asks sets of ids where
`get_item` asks rule after rule; the grants they go by are the same, what they read off them is
not. -/
namespace Plexichat.Stash
open Checks

namespace Store

variable {c : Store} {now userId itemId : Nat} {item : Item}

def itemGrant (c : Store) (now userId itemId : Nat) : Option Grant :=
  (c.grants.find (itemId, "user", userId)).filter fun g => active now g.expiresAt g.revokedAt

def inheritedGrants (c : Store) (now userId : Nat) (item : Item) : List CollectionGrant :=
  match item.collectionId with
  | none => []
  | some collectionId => (c.collectionAncestors collectionId).filterMap fun a =>
      (c.collectionGrants.find (a, userId)).filter fun g => active now g.expiresAt g.revokedAt

def namesView (permissions : List String) : Bool :=
  "view_metadata" ∈ permissions || "*" ∈ permissions

theorem active_eq (now : Nat) (expiresAt revokedAt : Option Nat) :
    active now expiresAt revokedAt = (revokedAt.isNone && !expiresAt.any (· ≤ now)) := by
  cases expiresAt with
  | none => simp [active]
  | some t =>
    have past : decide (now < t) = !decide (t ≤ now) := by
      rw [← decide_not]
      exact decide_eq_decide.mpr Nat.not_le.symm
    simp [active, past]

theorem grantPermissions_eq {permission : String} : c.grantPermissions now itemId userId permission =
    (c.itemGrant now userId itemId).any fun g => allows g.permissions permission := by
  unfold grantPermissions itemGrant
  cases c.grants.find (itemId, "user", userId) with
  | none => rfl
  | some g =>
    cases revoked : g.revokedAt.isNone with
    | false => simp [Option.filter, active_eq, revoked]
    | true =>
      cases expired : g.expiresAt.any (· ≤ now) with
      | false => simp [Option.filter, active_eq, revoked, expired]
      | true => simp [Option.filter, active_eq, revoked, expired]

theorem collectionPermissions_eq {collectionId : Nat} :
    c.collectionPermissions now userId collectionId =
      (((c.collectionGrants.find (collectionId, userId)).filter fun g =>
        active now g.expiresAt g.revokedAt).map CollectionGrant.permissions).getD [] := by
  unfold collectionPermissions
  cases c.collectionGrants.find (collectionId, userId) with
  | none => rfl
  | some g =>
    cases revoked : g.revokedAt.isNone with
    | false => simp [Option.filter, active_eq, revoked]
    | true =>
      cases expired : g.expiresAt.any (· ≤ now) with
      | false => simp [Option.filter, active_eq, revoked, expired]
      | true => simp [Option.filter, active_eq, revoked, expired]

theorem collectionGrantPermissions_eq : c.collectionGrantPermissions now item userId =
    (c.inheritedGrants now userId item).flatMap CollectionGrant.permissions := by
  unfold collectionGrantPermissions inheritedGrants
  cases item.collectionId with
  | none => rfl
  | some collectionId =>
    simp only
    induction c.collectionAncestors collectionId with
    | nil => rfl
    | cons a rest ih =>
      rw [List.flatMap_cons, ih, collectionPermissions_eq, List.filterMap_cons]
      cases (c.collectionGrants.find (a, userId)).filter fun g =>
        active now g.expiresAt g.revokedAt with
      | none => rfl
      | some g => rfl

theorem activeGrants_unique (c : Store) (now userId : Nat) :
    ((c.activeGrants now userId).map fun g => (g.itemId : Int)).Nodup := by
  have keys : ((c.activeGrants now userId).map fun g => (g.itemId, g.subjectType, g.subjectId)).Nodup :=
    c.grants.unique.sublist (List.filter_sublist.map _)
  have same : ((c.activeGrants now userId).map fun g => (g.itemId, g.subjectType, g.subjectId)) =
      ((c.activeGrants now userId).map Grant.itemId).map fun id => (id, "user", userId) := by
    rw [List.map_map]
    apply List.map_congr_left
    intro g member
    have own := (List.mem_filter.mp member).2
    simp only [Bool.and_eq_true, decide_eq_true_eq] at own
    simp [own.1.1, own.1.2]
  rw [same] at keys
  have ids := (List.Nodup.of_map _ keys).map (f := Int.ofNat) fun _ _ => Int.ofNat.inj
  rwa [List.map_map] at ids

theorem mem_activeGrants {g : Grant} : g ∈ c.activeGrants now userId ↔
    c.itemGrant now userId g.itemId = some g := by
  simp only [activeGrants, itemGrant, List.mem_filter, Option.filter_eq_some_iff,
    Table.find_eq_some, Table.mem_rows, Bool.and_eq_true, decide_eq_true_eq, Prod.mk.injEq]
  tauto

theorem itemGrant_itemId {g : Grant} (h : c.itemGrant now userId itemId = some g) :
    g.itemId = itemId := by
  obtain ⟨found, -⟩ := Option.filter_eq_some_iff.mp h
  exact congrArg Prod.fst (Table.find_eq_some.mp found).2

theorem mem_grantedItemIds : itemId ∈ c.grantedItemIds now userId ↔
    ∃ g, c.itemGrant now userId itemId = some g ∧ namesView g.permissions = true := by
  have read : ∀ g, g ∈ Paging.keyset (fun g : Grant => (g.itemId : Int)) (c.activeGrants now userId)
      500 ((c.activeGrants now userId).length + 1) (-1) ↔ g ∈ c.activeGrants now userId := by
    intro g
    rw [Paging.mem_keyset (c.activeGrants_unique now userId) (by decide)
      (Nat.lt_succ_of_le (List.length_filter_le _ _))]
    exact and_iff_left (by omega)
  simp only [grantedItemIds, List.mem_map, List.mem_filter, read, mem_activeGrants]
  constructor
  · intro h
    obtain ⟨g, ⟨own, names⟩, rfl⟩ := h
    exact ⟨g, own, names⟩
  · intro h
    obtain ⟨g, own, names⟩ := h
    have same := itemGrant_itemId own
    exact ⟨g, ⟨same ▸ own, names⟩, same⟩

theorem parentOf_known (c : Store) : ∀ y z, c.parentOf y = some z → y ∈ c.collectionIds := by
  intro y z up
  obtain ⟨row, found, -⟩ := Option.bind_eq_some_iff.mp up
  obtain ⟨member, id_eq⟩ := Table.find_eq_some.mp found
  exact List.mem_map.mpr ⟨row, member, id_eq⟩

theorem mem_descendants_iff {a collectionId : Nat} :
    collectionId ∈ c.collectionDescendants a ↔ a ∈ c.collectionAncestors collectionId := by
  rw [collectionDescendants, collectionAncestors, Forest.mem_descendants c.parentOf_known,
    Forest.mem_ancestors c.parentOf_known]

theorem mem_inheritedGrants {g : CollectionGrant} : g ∈ c.inheritedGrants now userId item ↔
    ∃ collectionId, item.collectionId = some collectionId ∧ g ∈ c.collectionGrants ∧
      g.subjectId = userId ∧ active now g.expiresAt g.revokedAt = true ∧
        g.collectionId ∈ c.collectionAncestors collectionId := by
  unfold inheritedGrants
  cases item.collectionId with
  | none => simp
  | some collectionId =>
    simp only [List.mem_filterMap, Option.filter_eq_some_iff, Table.find_eq_some, Prod.mk.injEq,
      Option.some.injEq, exists_eq_left']
    constructor
    · intro h
      obtain ⟨a, above, ⟨member, rfl, own⟩, in_force⟩ := h
      exact ⟨member, own, in_force, above⟩
    · intro h
      obtain ⟨member, own, in_force, above⟩ := h
      exact ⟨g.collectionId, above, ⟨member, rfl, own⟩, in_force⟩

theorem mem_collectionGrantedItemIds (member : item ∈ c.items) (live : item.deleted = false) :
    item.id ∈ c.collectionGrantedItemIds now userId ↔ c.inheritedGrants now userId item ≠ [] := by
  have own : item.id ∈ c.collectionGrantedItemIds now userId ↔
      item.collectionId.any (· ∈ c.visibleCollections now userId) = true := by
    simp only [collectionGrantedItemIds, List.mem_map, List.mem_filter, Bool.and_eq_true,
      Bool.not_eq_true']
    constructor
    · intro h
      obtain ⟨other, ⟨there, -, shown⟩, same⟩ := h
      exact Table.eq_of_key (Table.mem_rows.mpr there) member same ▸ shown
    · exact fun shown => ⟨item, ⟨member, live, shown⟩, rfl⟩
  rw [own, Option.any_eq_true]
  constructor
  · intro h
    obtain ⟨collectionId, here, shown⟩ := h
    obtain ⟨g, granted, below⟩ := List.mem_flatMap.mp (of_decide_eq_true shown)
    obtain ⟨there, own⟩ := List.mem_filter.mp granted
    simp only [Bool.and_eq_true, decide_eq_true_eq] at own
    exact List.ne_nil_of_mem (mem_inheritedGrants.mpr
      ⟨collectionId, here, there, own.1, own.2, mem_descendants_iff.mp below⟩)
  · intro some_grant
    obtain ⟨g, granted⟩ := List.exists_mem_of_ne_nil _ some_grant
    obtain ⟨collectionId, here, there, own, in_force, above⟩ := mem_inheritedGrants.mp granted
    refine ⟨collectionId, here, decide_eq_true (List.mem_flatMap.mpr ⟨g, ?_, ?_⟩)⟩
    · exact List.mem_filter.mpr ⟨there, by simp [own, in_force]⟩
    · exact mem_descendants_iff.mpr above

theorem allows_of_namesView {permissions : List String} (h : namesView permissions = true) :
    allows permissions "view_metadata" = true := by
  rw [allows, Bool.or_eq_true]
  exact .inl h

theorem visible_iff (member : item ∈ c.items) (live : item.deleted = false) :
    c.visible now userId item = true ↔ item.ownerId = userId ∨
      (∃ s, item.scope = .server s ∧ c.isMember userId s = true) ∨
      (∃ g, c.itemGrant now userId item.id = some g ∧ namesView g.permissions = true) ∨
      c.inheritedGrants now userId item ≠ [] := by
  have shared : item.serverId.any (c.isMember userId) = true ↔
      ∃ s, item.scope = .server s ∧ c.isMember userId s = true := by
    cases scope : item.scope with
    | personal => simp [Item.serverId, scope]
    | server s => simp [Item.serverId, scope]
  simp only [visible, live, Bool.not_false, Bool.true_and, Bool.or_eq_true, decide_eq_true_eq,
    shared, List.mem_append, mem_grantedItemIds, mem_collectionGrantedItemIds member live, or_assoc]

theorem authorize_view_personal (personal : item.scope = .personal) :
    (c.authorize now item userId "view_metadata" false).isOk = true ↔ item.ownerId = userId ∨
      (∃ g, c.itemGrant now userId item.id = some g ∧
        allows g.permissions "view_metadata" = true) ∨
      allows ((c.inheritedGrants now userId item).flatMap CollectionGrant.permissions)
        "view_metadata" = true := by
  have known : "view_metadata" ∈ stashPermissions := by decide
  simp only [authorize, personal, ensure, if_pos known, bind, Except.bind]
  split
  · rename_i allowed
    rw [grantPermissions_eq, collectionGranted, collectionGrantPermissions_eq] at allowed
    simp only [Bool.or_eq_true, decide_eq_true_eq, Option.any_eq_true, or_assoc] at allowed
    exact iff_of_true rfl allowed
  · rename_i refused
    rw [grantPermissions_eq, collectionGranted, collectionGrantPermissions_eq] at refused
    simp only [Bool.or_eq_true, decide_eq_true_eq, Option.any_eq_true, or_assoc] at refused
    exact iff_of_false Bool.false_ne_true refused

theorem authorize_view_server {s : Nat} (server : item.scope = .server s) :
    (c.authorize now item userId "view_metadata" false).isOk = true ↔
      c.isMember userId s = true := by
  have known : "view_metadata" ∈ stashPermissions := by decide
  simp only [authorize, server, ensure, if_pos known]
  cases c.isMember userId s with
  | false => exact iff_of_false Bool.false_ne_true Bool.false_ne_true
  | true => exact iff_of_true rfl rfl

theorem getItem_isOk : (c.getItem now userId itemId).isOk = true ↔ ∃ item ∈ c.items,
    item.id = itemId ∧ item.deleted = false ∧
      (c.authorize now item userId "view_metadata" false).isOk = true := by
  unfold getItem
  cases row : (c.items.find itemId).filter fun item => !item.deleted with
  | none =>
    refine iff_of_false nofun ?_
    intro h
    obtain ⟨item, member, id_eq, live, -⟩ := h
    rw [Table.find_eq_some.mpr ⟨member, id_eq⟩] at row
    simp [Option.filter, live] at row
  | some item =>
    obtain ⟨found, live⟩ := Option.filter_eq_some_iff.mp row
    obtain ⟨member, id_eq⟩ := Table.find_eq_some.mp found
    have live : item.deleted = false := by simpa using live
    have same : (∃ item ∈ c.items, item.id = itemId ∧ item.deleted = false ∧
        (c.authorize now item userId "view_metadata" false).isOk = true) ↔
          (c.authorize now item userId "view_metadata" false).isOk = true := by
      constructor
      · intro h
        obtain ⟨other, there, id_eq', -, ok⟩ := h
        exact Table.eq_of_key there member (id_eq'.trans id_eq.symm) ▸ ok
      · exact fun ok => ⟨item, member, id_eq, live, ok⟩
    rw [same]
    simp only [Checks.found, bind, Except.bind]
    cases c.authorize now item userId "view_metadata" false with
    | error e => exact Iff.rfl
    | ok _ => exact Iff.rfl

/-- When the listing and `get_item` are of one mind. On a personal item of somebody else: where a
collection grant is inherited, what is granted lets the user view; where none is, an item grant
that lets him view says so or permits everything. On an item of a server that the user is not in:
he neither owns it nor holds a grant that shows it. -/
structure Agreed (c : Store) (now userId : Nat) : Prop where
  inherited : ∀ item ∈ c.items, item.deleted = false → item.scope = .personal →
    item.ownerId ≠ userId → c.inheritedGrants now userId item ≠ [] →
      (∃ g, c.itemGrant now userId item.id = some g ∧
        allows g.permissions "view_metadata" = true) ∨
      allows ((c.inheritedGrants now userId item).flatMap CollectionGrant.permissions)
        "view_metadata" = true
  implied : ∀ item ∈ c.items, item.deleted = false → item.scope = .personal →
    item.ownerId ≠ userId → c.inheritedGrants now userId item = [] →
      ∀ g, c.itemGrant now userId item.id = some g →
        allows g.permissions "view_metadata" = true → namesView g.permissions = true
  outside : ∀ item ∈ c.items, item.deleted = false → ∀ s, item.scope = .server s →
    c.isMember userId s = false → item.ownerId ≠ userId ∧
      c.inheritedGrants now userId item = [] ∧
        ∀ g, c.itemGrant now userId item.id = some g → namesView g.permissions = false

theorem agreed_iff : c.Agreed now userId ↔ ∀ item ∈ c.items, item.deleted = false →
    (c.visible now userId item = true ↔
      (c.authorize now item userId "view_metadata" false).isOk = true) := by
  constructor
  · intro agreed item member live
    rw [visible_iff member live]
    cases scope : item.scope with
    | personal =>
      rw [authorize_view_personal scope]
      by_cases owner : item.ownerId = userId
      · simp [owner]
      · by_cases inherited : c.inheritedGrants now userId item = []
        · constructor
          · rintro (own | ⟨_, never, _⟩ | ⟨g, granted, names⟩ | some_grant)
            · exact .inl own
            · cases never
            · exact .inr (.inl ⟨g, granted, allows_of_namesView names⟩)
            · exact absurd inherited some_grant
          · rintro (own | ⟨g, granted, allowed⟩ | allowed)
            · exact .inl own
            · exact .inr (.inr (.inl ⟨g, granted,
                agreed.implied item member live scope owner inherited g granted allowed⟩))
            · rw [inherited] at allowed
              exact absurd allowed (by decide)
        · exact iff_of_true (.inr (.inr (.inr inherited)))
            (.inr (agreed.inherited item member live scope owner inherited))
    | server s =>
      rw [authorize_view_server scope]
      cases shared : c.isMember userId s with
      | true => exact iff_of_true (.inr (.inl ⟨s, rfl, shared⟩)) rfl
      | false =>
        obtain ⟨stranger, none_inherited, silent⟩ := agreed.outside item member live s scope shared
        refine iff_of_false ?_ nofun
        rintro (own | ⟨_, same, inside⟩ | ⟨g, granted, names⟩ | some_grant)
        · exact stranger own
        · cases same
          rw [shared] at inside
          cases inside
        · rw [silent g granted] at names
          cases names
        · exact some_grant none_inherited
  · intro same
    refine ⟨?_, ?_, ?_⟩
    · intro item member live scope owner inherited
      have both := same item member live
      rw [visible_iff member live, authorize_view_personal scope] at both
      exact (both.mp (.inr (.inr (.inr inherited)))).resolve_left owner
    · intro item member live scope owner inherited g granted allowed
      have both := same item member live
      rw [visible_iff member live, authorize_view_personal scope] at both
      rcases both.mpr (.inr (.inl ⟨g, granted, allowed⟩)) with
        own | ⟨s, server, _⟩ | ⟨g', granted', names⟩ | some_grant
      · exact absurd own owner
      · rw [scope] at server
        cases server
      · rw [granted] at granted'
        cases granted'
        exact names
      · exact absurd inherited some_grant
    · intro item member live s scope outside
      have both := same item member live
      rw [visible_iff member live, authorize_view_server scope, outside] at both
      have hidden := fun shown => Bool.false_ne_true (both.mp shown)
      refine ⟨fun own => hidden (.inl own), ?_, ?_⟩
      · by_contra inherited
        exact hidden (.inr (.inr (.inr inherited)))
      · intro g granted
        rw [Bool.eq_false_iff]
        exact fun names => hidden (.inr (.inr (.inl ⟨g, granted, names⟩)))

theorem length_listing_le (c : Store) (now userId : Nat) :
    (c.listing now userId).length ≤ c.items.rows.length := by
  rw [listing, List.length_map, List.length_mergeSort]
  exact List.length_filter_le _ _

theorem mem_listing_ids : itemId ∈ (c.listing now userId).map Item.id ↔
    ∃ item ∈ c.items, item.id = itemId ∧ c.visible now userId item = true := by
  have ids : (c.listing now userId).map Item.id =
      ((c.items.rows.filter (c.visible now userId)).mergeSort listedBefore).map Item.id := by
    rw [listing, List.map_map]
    rfl
  rw [ids, List.mem_map]
  simp only [List.mem_mergeSort, List.mem_filter]
  exact exists_congr fun item => ⟨fun h => ⟨h.1.1, h.2, h.1.2⟩, fun h => ⟨⟨h.1, h.2.2⟩, h.2.1⟩⟩

theorem resolveListOffset_decimal (offset : Nat) :
    resolveListOffset (some (Text.decimal offset)) = .ok offset := by
  simp [resolveListOffset, Checks.found, ensure, bind, Except.bind, pure, Except.pure]

theorem listItemsPage_none (c : Store) (now userId : Nat) (limit : Int) :
    c.listItemsPage now userId limit none =
      c.listItemsPage now userId limit (some (Text.decimal 0)) := by
  rw [listItemsPage, listItemsPage, resolveListOffset_decimal]
  rfl

theorem listItemsPage_some (c : Store) (now userId offset : Nat) (limit : Int) :
    c.listItemsPage now userId limit (some (Text.decimal offset)) =
      let items := Paging.page (c.listing now userId) (max 1 (min limit 100)).toNat offset
      .ok (items, (c.listing now userId).length,
        if offset + items.length < (c.listing now userId).length then
          some (Text.decimal (offset + items.length)) else none) := by
  simp only [listItemsPage, resolveListOffset_decimal]
  rfl

theorem walkPages_eq (c : Store) (now userId : Nat) (limit : Int) :
    c.walkPages now userId limit (c.items.rows.length + 1) = some (c.listing now userId) := by
  have enough : (c.listing now userId).length - 0 < c.items.rows.length + 1 :=
    Nat.lt_succ_of_le (c.length_listing_le now userId)
  have positive : 0 < (max 1 (min limit 100)).toNat := by omega
  refine (Paging.walk_eq_of_fetch_eq (b := some (Text.decimal 0)) ?_ _).trans ?_
  · simp only [listItemsPage_none]
  · rw [Paging.walk_eq (fun offset => some (Text.decimal offset)) positive ?_ enough, List.drop_zero]
    intro offset
    simp only [listItemsPage_some]
    split <;> rfl

/-- The pages show exactly the items that `get_item` returns if and only if the grants agree. -/
theorem listing_agrees_iff (c : Store) (now userId : Nat) (limit : Int) : ∃ items,
    c.walkPages now userId limit (c.items.rows.length + 1) = some items ∧
      ((∀ itemId, itemId ∈ items.map Item.id ↔ (c.getItem now userId itemId).isOk = true) ↔
        c.Agreed now userId) := by
  refine ⟨_, c.walkPages_eq now userId limit, ?_⟩
  simp only [agreed_iff, mem_listing_ids, getItem_isOk]
  constructor
  · intro same item member live
    constructor
    · intro shown
      obtain ⟨other, there, id_eq, -, ok⟩ := (same item.id).mp ⟨item, member, rfl, shown⟩
      exact Table.eq_of_key there member id_eq ▸ ok
    · intro ok
      obtain ⟨other, there, id_eq, shown⟩ := (same item.id).mpr ⟨item, member, rfl, live, ok⟩
      exact Table.eq_of_key there member id_eq ▸ shown
  · intro same itemId
    apply exists_congr
    intro item
    apply and_congr_right
    intro member
    apply and_congr_right
    intro _
    constructor
    · intro shown
      have live : item.deleted = false := by
        rw [visible, Bool.and_eq_true] at shown
        simpa using shown.1
      exact ⟨live, (same item member live).mp shown⟩
    · exact fun h => (same item member h.1).mpr h.2

def shared : Store where
  items := ⟨[⟨11, 1, .personal, none, none, false, false, 100⟩,
    ⟨12, 1, .personal, some 5, none, false, false, 101⟩], by decide⟩
  collections := ⟨[⟨5, none⟩], by decide⟩
  grants := ⟨[⟨11, "user", 2, ["edit"], none, none⟩], by decide⟩
  collectionGrants := ⟨[⟨5, 2, ["download"], none, none⟩], by decide⟩
  members := []
  administers _ _ := false

/-- User 2 may look at the first and is not shown it; he is shown the second and may not look. -/
theorem listing_disagrees :
    (¬∀ (c : Store) (now userId : Nat) (limit : Int) (items : List Item),
      c.walkPages now userId limit (c.items.rows.length + 1) = some items →
        ∀ itemId, (c.getItem now userId itemId).isOk = true → itemId ∈ items.map Item.id) ∧
    (¬∀ (c : Store) (now userId : Nat) (limit : Int) (items : List Item),
      c.walkPages now userId limit (c.items.rows.length + 1) = some items →
        ∀ itemId ∈ items.map Item.id, (c.getItem now userId itemId).isOk = true) := by
  constructor
  · intro claimed
    have looks : (shared.getItem 200 2 11).isOk = true := by decide +kernel
    have shown := claimed shared 200 2 50 _ (shared.walkPages_eq 200 2 50) 11 looks
    obtain ⟨item, member, id_eq, visible⟩ := mem_listing_ids.mp shown
    have first : item = ⟨11, 1, .personal, none, none, false, false, 100⟩ :=
      Table.eq_of_key member (List.mem_cons_self : _ ∈ shared.items.rows) id_eq
    subst first
    rcases (visible_iff member rfl).mp visible with own | ⟨s, server, _⟩ | ⟨g, granted, names⟩ | inherited
    · exact absurd own (by decide)
    · cases server
    · have edits : shared.itemGrant 200 2 11 = some ⟨11, "user", 2, ["edit"], none, none⟩ := by
        decide +kernel
      cases edits.symm.trans granted
      exact absurd names (by decide)
    · exact inherited rfl
  · intro claimed
    have second : (⟨12, 1, .personal, some 5, none, false, false, 101⟩ : Item) ∈ shared.items :=
      List.mem_cons_of_mem _ List.mem_cons_self
    have inherited : shared.inheritedGrants 200 2 ⟨12, 1, .personal, some 5, none, false, false, 101⟩ ≠
        [] := by decide +kernel
    have visible := (visible_iff second rfl).mpr (.inr (.inr (.inr inherited)))
    have looks := claimed shared 200 2 50 _ (shared.walkPages_eq 200 2 50) 12
      (mem_listing_ids.mpr ⟨_, second, rfl, visible⟩)
    have refused : (shared.getItem 200 2 12).isOk = false := by decide +kernel
    rw [refused] at looks
    cases looks

end Store

end Plexichat.Stash
