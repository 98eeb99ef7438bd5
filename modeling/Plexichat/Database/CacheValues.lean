import Mathlib.Data.List.Forall2
import Plexichat.Library.Checks
import Plexichat.Library.JsonRoundTrip

/-! core/database/cache: what is kept of a result, as JSON, and what is made of it again. -/
namespace Plexichat.Database.CacheValues

open Checks Json

/-- Results: data, instances of dataclasses with their fields, and members of Enums by their names.
A dict is a record of no class. -/
inductive Obj (F E C : Type) where
  | null
  | bool (b : Bool)
  | int (n : Int)
  | float (x : F)
  | str (s : Str)
  | list (l : List (Obj F E C))
  | record (c : Option C) (l : List (Str × Obj F E C))
  | enum (e : E) (m : Str)

/-- The annotations of fields: an Enum, a class or anything else, or a form with arguments, as
Optional, List, Dict or Union. -/
inductive Hint (E : Type) where
  | enum (e : E)
  | plain
  | generic (args : List (Hint E))

def text (t : List Char) : Str := t.map .char

def tag : Str := text ['_', '_', 't', 'y', 'p', 'e', '_', '_']

structure Schema (F E C : Type) where
  module : C ⊕ E → Str
  qualname : C ⊕ E → Str
  fields : C → List (Str × Hint E)
  /-- `typing.get_type_hints(cls)` finds all annotations. -/
  resolves : C → Bool
  /-- The arguments of `register_reconstructable_type`, in their order. -/
  registered : List (C ⊕ E)
  /-- What JSON has for the value of a member, -/
  value : E → Str → Json.Value F Str
  /-- and `E(value)`, none where it raises. -/
  call : E → Obj F E C → Option Str
  distinct : ∀ c, ((fields c).map Prod.fst).Nodup
  untagged : ∀ c, tag ∉ (fields c).map Prod.fst
  fieldText : ∀ c, ∀ k ∈ (fields c).map Prod.fst, k.all isCharacter = true
  nameText : ∀ t, (module t).all isCharacter = true ∧ (qualname t).all isCharacter = true
  /-- The values of members are no dicts. -/
  no_dict : ∀ e m l, value e m ≠ .dict l

variable {F E C : Type} (schema : Schema F E C)

section Code

def dot : Point := .char '.'

/-- `cls.__name__`, the last part of the qualified name. -/
def className (t : C ⊕ E) : Str :=
  ((schema.qualname t).reverse.takeWhile fun p => decide (p ≠ dot)).reverse

def fullName (t : C ⊕ E) : Str := schema.module t ++ dot :: schema.qualname t

def getTypeFromName (name : Str) : Option (C ⊕ E) :=
  schema.registered.reverse.find? fun t => decide (fullName schema t = name)

mutual

def ensureSerializable : Obj F E C → Json.Value F Str
  | .null => .null
  | .bool b => .bool b
  | .int n => .int n
  | .float x => .float x
  | .str s => .str s
  | .enum e m => schema.value e m
  | .list l => .list (ensureItems l)
  | .record none l => .dict (ensureMembers l)
  | .record (some c) l =>
    .dict (setItem (ensureMembers l)
      (tag, .str (schema.module (.inl c) ++ dot :: className schema (.inl c))))

def ensureItems : List (Obj F E C) → List (Json.Value F Str)
  | [] => []
  | v :: l => ensureSerializable v :: ensureItems l

def ensureMembers : List (Str × Obj F E C) → List (Str × Json.Value F Str)
  | [] => []
  | (k, v) :: l => (k, ensureSerializable v) :: ensureMembers l

end

mutual

def plain : Json.Value F Str → Obj F E C
  | .null => .null
  | .bool b => .bool b
  | .int n => .int n
  | .float x => .float x
  | .str s => .str s
  | .list l => .list (plainItems l)
  | .dict l => .record none (plainMembers l)

def plainItems : List (Json.Value F Str) → List (Obj F E C)
  | [] => []
  | v :: l => plain v :: plainItems l

def plainMembers : List (Str × Json.Value F Str) → List (Str × Obj F E C)
  | [] => []
  | (k, v) :: l => (k, plain v) :: plainMembers l

end

def Hint.getArgs : Hint E → List (Hint E)
  | .generic args => args
  | _ => []

def Hint.enum? : Hint E → Option E
  | .enum e => some e
  | _ => none

def Hint.enumOf (hint : Hint E) : Option E :=
  if hint.getArgs = [] then hint.enum? else hint.getArgs.findSome? Hint.enum?

def fieldEnum (c : C) (name : Str) : Option E :=
  if schema.resolves c then ((schema.fields c).lookup name).bind Hint.enumOf else none

variable [DecidableEq E]

def coerceValue (e : E) (v : Obj F E C) : Obj F E C :=
  match v with
  | .enum e' m =>
    if e' = e then .enum e' m
    else match schema.call e (.enum e' m) with
      | some m' => .enum e m'
      | none => .enum e' m
  | v =>
    match schema.call e v with
    | some m => .enum e m
    | none => v

/-- One step of `_coerce_dataclass_enum_fields`. -/
def coerceField (c : C) (name : Str) (v : Obj F E C) : Obj F E C :=
  match fieldEnum schema c name with
  | some e => coerceValue schema e v
  | none => v

def coerceFields (c : C) (params : List (Str × Obj F E C)) : List (Str × Obj F E C) :=
  params.map fun x => (x.1, coerceField schema c x.1 x.2)

/-- The fields that `cls(**params)` sets, in the order of the class; none where a field is missing
or a parameter is no field. -/
def construct (c : C) (params : List (Str × Obj F E C)) : Option (List (Str × Obj F E C)) :=
  if params.all fun x => (schema.fields c).any fun f => decide (f.1 = x.1) then
    (schema.fields c).mapM fun f => (params.lookup f.1).map fun v => (f.1, v)
  else none

def build (params : List (Str × Obj F E C)) : C ⊕ E → Obj F E C
  | .inl c =>
    let params := coerceFields schema c params
    match construct schema c params with
    | some l => .record (some c) l
    | none => .record none params
  | .inr e =>
    match params with
    | [(_, v)] =>
      match schema.call e v with
      | some m => .enum e m
      | none => .record none params
    | _ => .record none params

/-- TypeError: a list or a dict cannot be looked up in a set. -/
inductive TypeError where
  | unhashable

def isHashable : Json.Value F Str → Bool
  | .list _ => false
  | .dict _ => false
  | _ => true

def typeOf : Json.Value F Str → Option (C ⊕ E)
  | .str name => getTypeFromName schema name
  | _ => none

mutual

def reconstruct : Json.Value F Str → Except TypeError (Obj F E C)
  | .null => .ok .null
  | .bool b => .ok (.bool b)
  | .int n => .ok (.int n)
  | .float x => .ok (.float x)
  | .str s => .ok (.str s)
  | .list l => do
    let items ← reconstructItems l
    return .list items
  | .dict l =>
    match l.lookup tag with
    | none => do
      let members ← reconstructMembers l
      return .record none members
    | some typeName =>
      if isHashable typeName then
        match typeOf schema typeName with
        | none => .ok (.record none ((plainMembers l).filter fun x => decide (x.1 ≠ tag)))
        | some t => do
          let params ← reconstructMembers l
          return build schema params t
      else .error .unhashable

def reconstructItems : List (Json.Value F Str) → Except TypeError (List (Obj F E C))
  | [] => .ok []
  | v :: l => do
    let first ← reconstruct v
    let rest ← reconstructItems l
    return first :: rest

def reconstructMembers : List (Str × Json.Value F Str) → Except TypeError (List (Str × Obj F E C))
  | [] => .ok []
  | (k, v) :: l =>
    if k = tag then reconstructMembers l
    else do
      let first ← reconstruct v
      let rest ← reconstructMembers l
      return (k, first) :: rest

end

end Code

section Equations

theorem Obj.induct {P : Obj F E C → Prop} (null : P .null) (bool : ∀ b, P (.bool b))
    (int : ∀ n, P (.int n)) (float : ∀ x, P (.float x)) (str : ∀ s, P (.str s))
    (list : ∀ l, (∀ v ∈ l, P v) → P (.list l))
    (record : ∀ c l, (∀ x ∈ l, P x.2) → P (.record c l)) (enum : ∀ e m, P (.enum e m))
    (v : Obj F E C) : P v := by
  refine @Obj.rec F E C P (fun l => ∀ v ∈ l, P v) (fun l => ∀ x ∈ l, P x.2) (fun x => P x.2)
    null bool int float str list record enum ?_ ?_ ?_ ?_ ?_ v
  · exact fun v member => absurd member List.not_mem_nil
  · exact fun v l first rest => List.forall_mem_cons.mpr ⟨first, rest⟩
  · exact fun x member => absurd member List.not_mem_nil
  · exact fun x l first rest => List.forall_mem_cons.mpr ⟨first, rest⟩
  · exact fun k v holds => holds

theorem ensureItems_eq (l : List (Obj F E C)) :
    ensureItems schema l = l.map (ensureSerializable schema) := by
  induction l with
  | nil => rfl
  | cons v l ih => rw [ensureItems, ih, List.map_cons]

theorem ensureMembers_eq (l : List (Str × Obj F E C)) :
    ensureMembers schema l = l.map fun x => (x.1, ensureSerializable schema x.2) := by
  induction l with
  | nil => rfl
  | cons x l ih => rw [ensureMembers, ih, List.map_cons]

theorem keys_plainMembers (l : List (Str × Json.Value F Str)) :
    (plainMembers l : List (Str × Obj F E C)).map Prod.fst = l.map Prod.fst := by
  induction l with
  | nil => rfl
  | cons x l ih => rw [plainMembers, List.map_cons, ih, List.map_cons]

variable [DecidableEq E]

theorem reconstructItems_eq_ok {l : List (Json.Value F Str)} {vs : List (Obj F E C)} :
    reconstructItems schema l = .ok vs ↔ l.map (reconstruct schema) = vs.map .ok := by
  suffices same : reconstructItems schema l = l.mapM (reconstruct schema) by rw [same, mapM_eq_ok]
  induction l with
  | nil => rfl
  | cons v l ih => rw [reconstructItems, ih, List.mapM_cons]

theorem reconstruct_list_eq_ok {l : List (Json.Value F Str)} {v : Obj F E C} :
    reconstruct schema (.list l) = .ok v ↔
      ∃ vs, v = .list vs ∧ l.map (reconstruct schema) = vs.map .ok := by
  rw [reconstruct]
  constructor
  · intro read
    obtain ⟨vs, items, h⟩ := returned_bind read
    cases h
    exact ⟨vs, rfl, (reconstructItems_eq_ok schema).mp items⟩
  · rintro ⟨vs, rfl, items⟩
    rw [(reconstructItems_eq_ok schema).mpr items]
    rfl

theorem reconstructMembers_eq_ok {l : List (Str × Json.Value F Str)} {xs : List (Str × Obj F E C)} :
    reconstructMembers schema l = .ok xs ↔
      List.Forall₂ (fun x y => y.1 = x.1 ∧ reconstruct schema x.2 = .ok y.2)
        (l.filter fun x => decide (x.1 ≠ tag)) xs := by
  induction l generalizing xs with
  | nil =>
    constructor
    · intro read
      cases read
      exact .nil
    · intro none
      cases none
      rfl
  | cons x l ih =>
    rw [reconstructMembers]
    by_cases tagged : x.1 = tag
    · rw [if_pos tagged, List.filter_cons_of_neg (by simpa using tagged), ih]
    · rw [if_neg tagged, List.filter_cons_of_pos (by simpa using tagged)]
      constructor
      · intro read
        obtain ⟨v, first, read⟩ := returned_bind read
        obtain ⟨ys, rest, h⟩ := returned_bind read
        cases h
        exact .cons ⟨rfl, first⟩ (ih.mp rest)
      · intro all
        cases all with
        | @cons _ y _ ys first rest =>
          rw [first.2, ih.mpr rest, ← first.1]
          rfl

end Equations

section Conditions

/-- Dicts have a key once; dataclasses are registered, defined at the top of a module, and their
instances have their fields. -/
inductive Valid : Obj F E C → Prop where
  | null : Valid .null
  | bool (b : Bool) : Valid (.bool b)
  | int (n : Int) : Valid (.int n)
  | float (x : F) : Valid (.float x)
  | str (s : Str) : Valid (.str s)
  | enum (e : E) (m : Str) : Valid (.enum e m)
  | list {l : List (Obj F E C)} (all : ∀ v ∈ l, Valid v) : Valid (.list l)
  | dict {l : List (Str × Obj F E C)} (distinct : (l.map Prod.fst).Nodup)
      (all : ∀ x ∈ l, Valid x.2) : Valid (.record none l)
  | object {c : C} {l : List (Str × Obj F E C)}
      (registered : getTypeFromName schema (fullName schema (.inl c)) = some (.inl c))
      (level : className schema (.inl c) = schema.qualname (.inl c))
      (names : l.map Prod.fst = (schema.fields c).map Prod.fst) (all : ∀ x ∈ l, Valid x.2) :
      Valid (.record (some c) l)

def IsEnum (v : Obj F E C) : Prop := ∃ e m, v = .enum e m

def stored (v : Obj F E C) : Json.Value F Str := readBack dictOf (ensureSerializable schema v)

theorem readBack_dict {hook : List (Str × Json.Value F Str) → List (Str × Json.Value F Str)}
    (l : List (Str × Json.Value F Str)) :
    readBack hook (.dict l) = .dict (hook (l.map fun x => (join x.1, readBack hook x.2))) := by
  rw [readBack, Json.Value.rebuild_dict, List.map_map]
  rfl

theorem stored_list (l : List (Obj F E C)) :
    stored schema (.list l) = .list (l.map (stored schema)) := by
  rw [stored, ensureSerializable, ensureItems_eq, readBack, Json.Value.rebuild_list, List.map_map]
  rfl

theorem stored_dict (l : List (Str × Obj F E C)) : stored schema (.record none l) =
    .dict (dictOf (l.map fun x => (join x.1, stored schema x.2))) := by
  rw [stored, ensureSerializable, ensureMembers_eq, readBack_dict, List.map_map]
  rfl

theorem stored_object {c : C} {l : List (Str × Obj F E C)}
    (level : className schema (.inl c) = schema.qualname (.inl c))
    (names : l.map Prod.fst = (schema.fields c).map Prod.fst) :
    stored schema (.record (some c) l) = .dict
      (l.map (fun x => (x.1, stored schema x.2)) ++ [(tag, .str (fullName schema (.inl c)))]) := by
  have written : (fullName schema (.inl c)).all isCharacter = true := by
    rw [fullName, List.all_append, List.all_cons, (schema.nameText _).1, (schema.nameText _).2]
    rfl
  have keys : ∀ g : Obj F E C → Json.Value F Str,
      (l.map fun x => (x.1, g x.2)).map Prod.fst = (schema.fields c).map Prod.fst := by
    intro g
    rw [List.map_map, ← names]
    rfl
  have untagged := schema.untagged c
  have appended : setItem (l.map fun x => (x.1, ensureSerializable schema x.2))
      (tag, .str (fullName schema (.inl c))) = l.map (fun x => (x.1, ensureSerializable schema x.2)) ++
        [(tag, .str (fullName schema (.inl c)))] := by
    rw [setItem, keys, if_neg untagged]
  have joined : l.map (fun x => (join x.1, stored schema x.2)) =
      l.map fun x => (x.1, stored schema x.2) := by
    apply List.map_congr_left
    intro x member
    rw [join_of_characters (schema.fieldText c x.1 (names ▸ List.mem_map_of_mem member))]
  have distinct : ((l.map (fun x => (x.1, stored schema x.2)) ++
      [(tag, (.str (fullName schema (.inl c)) : Json.Value F Str))]).map Prod.fst).Nodup := by
    rw [List.map_append, keys]
    refine List.nodup_append.mpr ⟨schema.distinct c, List.nodup_singleton _, ?_⟩
    intro k member k' last same
    have tagged : k = tag := same.trans (List.mem_singleton.mp last)
    exact untagged (tagged ▸ member)
  have last : readBack dictOf (.str (fullName schema (.inl c)) : Json.Value F Str) =
      .str (fullName schema (.inl c)) := congrArg Json.Value.str (join_of_characters written)
  have tagJoined : join tag = tag := by decide
  rw [stored, ensureSerializable, ensureMembers_eq, level, ← fullName, appended, readBack_dict,
    List.map_append, List.map_map, List.map_singleton, last, tagJoined, ← dictOf_eq distinct, ← joined]
  rfl

variable [DecidableEq E]

/-- The values that come back. Members of Enums stand in fields only, whose annotation has the Enum,
which finds the member by its value; it finds nothing by another value of such a field. -/
inductive Restored : Obj F E C → Prop where
  | null : Restored .null
  | bool (b : Bool) : Restored (.bool b)
  | int (n : Int) : Restored (.int n)
  | float (x : F) : Restored (.float x)
  | str {s : Str} (joined : join s = s) : Restored (.str s)
  | list {l : List (Obj F E C)} (all : ∀ v ∈ l, Restored v) : Restored (.list l)
  | dict {l : List (Str × Obj F E C)} (untagged : ∀ x ∈ l, x.1 ≠ tag)
      (joined : ∀ x ∈ l, join x.1 = x.1) (all : ∀ x ∈ l, Restored x.2) : Restored (.record none l)
  | object {c : C} {l : List (Str × Obj F E C)}
      (values : ∀ x ∈ l, ¬IsEnum x.2 → Restored x.2)
      (kept : ∀ x ∈ l, ¬IsEnum x.2 → ∀ e, fieldEnum schema c x.1 = some e →
        schema.call e x.2 = none)
      (found : ∀ x ∈ l, ∀ e m, x.2 = .enum e m → fieldEnum schema c x.1 = some e ∧
        ∃ v, reconstruct schema (readBack dictOf (schema.value e m)) = .ok v ∧
          schema.call e v = some m) : Restored (.record (some c) l)

end Conditions

section Records

variable {schema : Schema F E C}

theorem lookup_of_mem {α : Type} {l : List (Str × α)} (distinct : (l.map Prod.fst).Nodup)
    {x : Str × α} (member : x ∈ l) : l.lookup x.1 = some x.2 := by
  induction l with
  | nil => cases member
  | cons y l ih =>
    rw [List.map_cons, List.nodup_cons] at distinct
    rcases List.mem_cons.mp member with rfl | inside
    · rw [List.lookup_cons, beq_self_eq_true]
    · have apart : (x.1 == y.1) = false :=
        beq_eq_false_iff_ne.mpr fun same => distinct.1 (same ▸ List.mem_map_of_mem inside)
      rw [List.lookup_cons, apart, ih distinct.2 inside]

theorem construct_eq {c : C} {params : List (Str × Obj F E C)}
    (names : params.map Prod.fst = (schema.fields c).map Prod.fst) :
    construct schema c params = some params := by
  have distinct : (params.map Prod.fst).Nodup := names ▸ schema.distinct c
  have all : ∀ l : List (Str × Obj F E C), (∀ x ∈ l, params.lookup x.1 = some x.2) →
      (l.map Prod.fst).mapM (fun k => (params.lookup k).map fun v => (k, v)) = some l := by
    intro l found
    induction l with
    | nil => rfl
    | cons x l ih =>
      rw [List.forall_mem_cons] at found
      rw [List.map_cons, List.mapM_cons, found.1, ih found.2]
      rfl
  have known : (params.all fun x => (schema.fields c).any fun f => decide (f.1 = x.1)) = true := by
    rw [List.all_eq_true]
    intro x member
    obtain ⟨f, listed, same⟩ := List.mem_map.mp (names ▸ List.mem_map_of_mem member)
    exact List.any_eq_true.mpr ⟨f, listed, decide_eq_true same⟩
  have taken := all params fun x member => lookup_of_mem distinct member
  rw [names, List.mapM_map] at taken
  rw [construct, if_pos known]
  exact taken

variable [DecidableEq E]

theorem coerceValue_of_not_enum {e : E} {v : Obj F E C} (other : ¬IsEnum v) :
    coerceValue schema e v = match schema.call e v with
      | some m => .enum e m
      | none => v := by
  cases v with
  | enum e' m => exact absurd ⟨e', m, rfl⟩ other
  | _ => rfl

theorem map_fst_of_forall₂ {α β : Type} {R : α → β → Prop} {l : List (Str × α)}
    {xs : List (Str × β)} (all : List.Forall₂ (fun x y => y.1 = x.1 ∧ R x.2 y.2) l xs) :
    xs.map Prod.fst = l.map Prod.fst := by
  induction all with
  | nil => rfl
  | cons first _ ih => rw [List.map_cons, List.map_cons, first.1, ih]

theorem filter_fst {α : Type} (l : List (Str × α)) :
    (l.filter fun x => decide (x.1 ≠ tag)).map Prod.fst =
      (l.map Prod.fst).filter fun k => decide (k ≠ tag) := by
  rw [List.filter_map]
  rfl

theorem build_record_none {params l : List (Str × Obj F E C)} {t : C ⊕ E}
    (built : build schema params t = .record none l) : l.map Prod.fst = params.map Prod.fst := by
  have coerced : ∀ c, (coerceFields schema c params).map Prod.fst = params.map Prod.fst := by
    intro c
    rw [coerceFields, List.map_map]
    rfl
  cases t with
  | inl c =>
    simp only [build] at built
    split at built
    · cases built
    · cases built
      exact coerced c
  | inr e =>
    simp only [build] at built
    split at built
    · split at built
      · cases built
      · cases built
        rfl
    · cases built
      rfl

theorem build_record_some {params l : List (Str × Obj F E C)} {t : C ⊕ E} {c : C}
    (built : build schema params t = .record (some c) l) :
    t = .inl c ∧ construct schema c (coerceFields schema c params) = some l := by
  cases t with
  | inl c' =>
    simp only [build] at built
    split at built
    · rename_i found
      cases built
      exact ⟨rfl, found⟩
    · cases built
  | inr e =>
    simp only [build] at built
    split at built
    · split at built <;> cases built
    · cases built

theorem keys_reconstruct {d : List (Str × Json.Value F Str)} {l : List (Str × Obj F E C)}
    (read : reconstruct schema (.dict d) = .ok (.record none l)) :
    l.map Prod.fst = (d.map Prod.fst).filter fun k => decide (k ≠ tag) := by
  have keys : ∀ {xs : List (Str × Obj F E C)}, reconstructMembers schema d = .ok xs →
      xs.map Prod.fst = (d.map Prod.fst).filter fun k => decide (k ≠ tag) := by
    intro xs members
    rw [map_fst_of_forall₂ (R := fun x y => reconstruct schema x = .ok y)
      ((reconstructMembers_eq_ok schema).mp members), filter_fst]
  rw [reconstruct] at read
  split at read
  · obtain ⟨xs, members, h⟩ := returned_bind read
    cases h
    exact keys members
  · split at read
    · split at read
      · cases read
        rw [filter_fst, keys_plainMembers]
      · obtain ⟨xs, members, h⟩ := returned_bind read
        rw [build_record_none (Except.ok.inj h), keys members]
    · cases read

theorem lookup_tag_eq_none {d : List (Str × Json.Value F Str)} (untagged : tag ∉ d.map Prod.fst) :
    d.lookup tag = none := by
  rw [List.lookup_eq_none_iff]
  intro x member
  have apart : tag ≠ x.1 := fun same => untagged (same ▸ List.mem_map_of_mem member)
  simpa using apart

theorem reconstruct_untagged {d : List (Str × Json.Value F Str)} (untagged : tag ∉ d.map Prod.fst)
    {v : Obj F E C} : reconstruct schema (.dict d) = .ok v ↔ ∃ l, v = .record none l ∧
      List.Forall₂ (fun x y => y.1 = x.1 ∧ reconstruct schema x.2 = .ok y.2) d l := by
  have whole : d.filter (fun x => decide (x.1 ≠ tag)) = d := by
    rw [List.filter_eq_self]
    intro x member
    exact decide_eq_true fun same => untagged (same ▸ List.mem_map_of_mem member)
  rw [reconstruct, lookup_tag_eq_none untagged]
  constructor
  · intro read
    obtain ⟨l, members, h⟩ := returned_bind read
    cases h
    exact ⟨l, rfl, whole ▸ (reconstructMembers_eq_ok schema).mp members⟩
  · rintro ⟨l, rfl, all⟩
    rw [← whole] at all
    have members := (reconstructMembers_eq_ok schema).mpr all
    simp only [members]
    rfl

theorem not_enum_of_reconstruct {j : Json.Value F Str} {v : Obj F E C} (other : ∀ l, j ≠ .dict l)
    (read : reconstruct schema j = .ok v) : ¬IsEnum v := by
  rintro ⟨e, m, rfl⟩
  cases j with
  | list l =>
    obtain ⟨vs, h, -⟩ := (reconstruct_list_eq_ok schema).mp read
    cases h
  | dict l => exact other l rfl
  | _ => cases read

theorem readBack_ne_dict {j : Json.Value F Str} (other : ∀ l, j ≠ .dict l)
    (l : List (Str × Json.Value F Str)) :
    readBack dictOf j ≠ .dict l := by
  cases j with
  | list k =>
    rw [readBack, Json.Value.rebuild_list]
    exact fun h => by cases h
  | dict k => exact absurd rfl (other k)
  | _ => exact fun h => by cases h

def FieldRestored (schema : Schema F E C) (c : C) (x : Str × Obj F E C) : Prop :=
  (¬IsEnum x.2 → Restored schema x.2 ∧
    ∀ e, fieldEnum schema c x.1 = some e → schema.call e x.2 = none) ∧
  ∀ e m, x.2 = .enum e m → fieldEnum schema c x.1 = some e ∧
    ∃ v, reconstruct schema (readBack dictOf (schema.value e m)) = .ok v ∧ schema.call e v = some m

theorem coerceField_eq_enum {c : C} {k : Str} {v : Obj F E C} {e : E} {m : Str}
    (other : ¬IsEnum v) : coerceField schema c k v = .enum e m ↔
      fieldEnum schema c k = some e ∧ schema.call e v = some m := by
  rw [coerceField]
  cases fieldEnum schema c k with
  | none => exact iff_of_false (fun same => other ⟨e, m, same⟩) fun h => by cases h.1
  | some e' =>
    show coerceValue schema e' v = _ ↔ _
    rw [coerceValue_of_not_enum other, Option.some_inj]
    cases known : schema.call e' v with
    | none =>
      refine iff_of_false (fun same => other ⟨e, m, same⟩) ?_
      rintro ⟨rfl, found⟩
      rw [known] at found
      cases found
    | some m' =>
      constructor
      · intro same
        cases same
        exact ⟨rfl, known⟩
      · rintro ⟨rfl, found⟩
        rw [known] at found
        rw [Option.some.inj found]

theorem coerceValue_enum (e e' : E) (m : Str) : IsEnum (coerceValue schema e (.enum e' m)) := by
  rw [coerceValue]
  split
  · exact ⟨_, _, rfl⟩
  · split <;> exact ⟨_, _, rfl⟩

theorem coerceField_eq_other {c : C} {k : Str} {v x : Obj F E C} (other : ¬IsEnum x) :
    coerceField schema c k v = x ↔
      v = x ∧ ∀ e, fieldEnum schema c k = some e → schema.call e x = none := by
  rw [coerceField]
  cases fieldEnum schema c k with
  | none => exact ⟨fun same => ⟨same, fun e h => by cases h⟩, And.left⟩
  | some e =>
    show coerceValue schema e v = x ↔ _
    by_cases enum : IsEnum v
    · obtain ⟨e', m, rfl⟩ := enum
      exact iff_of_false (fun same => other (same ▸ coerceValue_enum e e' m))
        fun h => other ⟨e', m, h.1.symm⟩
    · rw [coerceValue_of_not_enum enum]
      cases known : schema.call e v with
      | none =>
        constructor
        · rintro rfl
          refine ⟨rfl, fun e' h => ?_⟩
          rw [← Option.some.inj h, known]
        · exact And.left
      | some m =>
        refine iff_of_false (fun same => other ⟨e, m, same.symm⟩) ?_
        rintro ⟨rfl, none⟩
        rw [none e rfl] at known
        cases known

theorem field_restored_iff {c : C} {x : Str × Obj F E C}
    (ih : reconstruct schema (stored schema x.2) = .ok x.2 ↔ Restored schema x.2) :
    (∃ v, reconstruct schema (stored schema x.2) = .ok v ∧ coerceField schema c x.1 v = x.2) ↔
      FieldRestored schema c x := by
  by_cases enum : IsEnum x.2
  · obtain ⟨e, m, same⟩ := enum
    have value : stored schema x.2 = readBack dictOf (schema.value e m) := by
      rw [stored, same, ensureSerializable]
    have other : ∀ v, reconstruct schema (stored schema x.2) = .ok v → ¬IsEnum v := fun v read =>
      not_enum_of_reconstruct (value ▸ readBack_ne_dict (schema.no_dict e m)) read
    constructor
    · rintro ⟨v, read, coerced⟩
      refine ⟨fun none => absurd ⟨e, m, same⟩ none, fun e' m' same' => ?_⟩
      obtain ⟨field, known⟩ := (coerceField_eq_enum (other v read)).mp (coerced.trans same')
      rw [same] at same'
      cases same'
      exact ⟨field, v, value ▸ read, known⟩
    · rintro ⟨-, found⟩
      obtain ⟨field, v, read, known⟩ := found e m same
      have read : reconstruct schema (stored schema x.2) = .ok v := value ▸ read
      exact ⟨v, read, same ▸ (coerceField_eq_enum (other v read)).mpr ⟨field, known⟩⟩
  · simp only [coerceField_eq_other enum]
    constructor
    · rintro ⟨v, read, rfl, kept⟩
      exact ⟨fun _ => ⟨ih.mp read, kept⟩, fun e m same => absurd ⟨e, m, same⟩ enum⟩
    · rintro ⟨restored, -⟩
      obtain ⟨value, kept⟩ := restored enum
      exact ⟨x.2, ih.mpr value, rfl, kept⟩

theorem restored_record_iff {c : C} {l : List (Str × Obj F E C)} :
    Restored schema (.record (some c) l) ↔ ∀ x ∈ l, FieldRestored schema c x := by
  constructor
  · intro restored
    cases restored with
    | object values kept found =>
      exact fun x member =>
        ⟨fun other => ⟨values x member other, kept x member other⟩, found x member⟩
  · intro all
    exact .object (fun x member other => ((all x member).1 other).1)
      (fun x member other => ((all x member).1 other).2) fun x member => (all x member).2

theorem fields_iff {c : C} {l : List (Str × Obj F E C)} :
    (∃ params, List.Forall₂ (fun x y => y.1 = x.1 ∧ reconstruct schema x.2 = .ok y.2)
        (l.map fun x => (x.1, stored schema x.2)) params ∧ coerceFields schema c params = l) ↔
      ∀ x ∈ l, ∃ v, reconstruct schema (stored schema x.2) = .ok v ∧
        coerceField schema c x.1 v = x.2 := by
  induction l with
  | nil => exact ⟨fun _ x member => absurd member List.not_mem_nil, fun _ => ⟨[], .nil, rfl⟩⟩
  | cons x l ih =>
    rw [List.forall_mem_cons, ← ih]
    constructor
    · rintro ⟨params, all, coerced⟩
      cases all with
      | @cons _ y _ ys first rest =>
        obtain ⟨head, tail⟩ := List.cons.inj coerced
        obtain ⟨key, read⟩ := first
        have key : y.1 = x.1 := key
        refine ⟨⟨y.2, read, ?_⟩, ys, rest, tail⟩
        rw [← key]
        exact congrArg Prod.snd head
    · rintro ⟨⟨v, read, coerced⟩, ys, rest, tail⟩
      refine ⟨(x.1, v) :: ys, .cons ⟨rfl, read⟩ rest, ?_⟩
      rw [coerceFields, List.map_cons, coerced, ← coerceFields, tail]

theorem reconstruct_object_iff {c : C} {l : List (Str × Obj F E C)}
    (registered : getTypeFromName schema (fullName schema (.inl c)) = some (.inl c))
    (level : className schema (.inl c) = schema.qualname (.inl c))
    (names : l.map Prod.fst = (schema.fields c).map Prod.fst) :
    reconstruct schema (stored schema (.record (some c) l)) = .ok (.record (some c) l) ↔
      ∀ x ∈ l, ∃ v, reconstruct schema (stored schema x.2) = .ok v ∧
        coerceField schema c x.1 v = x.2 := by
  have keys : (l.map fun x => (x.1, stored schema x.2)).map Prod.fst =
      (schema.fields c).map Prod.fst := by
    rw [List.map_map, ← names]
    rfl
  have untagged := keys.symm ▸ schema.untagged c
  have looked : (l.map (fun x => (x.1, stored schema x.2)) ++
      [(tag, (.str (fullName schema (.inl c)) : Json.Value F Str))]).lookup tag =
        some (.str (fullName schema (.inl c))) := by
    rw [List.lookup_append, lookup_tag_eq_none untagged, List.lookup_cons_self, Option.none_or]
  have taken : (l.map (fun x => (x.1, stored schema x.2)) ++
      [(tag, (.str (fullName schema (.inl c)) : Json.Value F Str))]).filter
        (fun x => decide (x.1 ≠ tag)) = l.map fun x => (x.1, stored schema x.2) := by
    rw [List.filter_append, List.filter_eq_self.mpr]
    · simp
    · intro x member
      exact decide_eq_true fun same => untagged (same ▸ List.mem_map_of_mem member)
  have typed : typeOf schema (.str (fullName schema (.inl c))) = some (.inl c) := registered
  rw [← fields_iff, stored_object schema level names, reconstruct, looked]
  simp only [isHashable, if_true, typed]
  constructor
  · intro read
    obtain ⟨params, members, h⟩ := returned_bind read
    obtain ⟨-, made⟩ := build_record_some (Except.ok.inj h)
    have all := (reconstructMembers_eq_ok schema).mp members
    rw [taken] at all
    have coerced : (coerceFields schema c params).map Prod.fst = (schema.fields c).map Prod.fst := by
      rw [coerceFields, List.map_map, ← keys]
      exact map_fst_of_forall₂ (R := fun x y => reconstruct schema x = .ok y) all
    rw [construct_eq coerced] at made
    exact ⟨params, all, Option.some.inj made⟩
  · rintro ⟨params, all, coerced⟩
    rw [(reconstructMembers_eq_ok schema).mpr (taken.symm ▸ all)]
    show Except.ok (build schema params (.inl c)) = _
    rw [build, coerced, construct_eq names]

theorem reconstruct_dict_iff {l : List (Str × Obj F E C)} (distinct : (l.map Prod.fst).Nodup) :
    reconstruct schema (stored schema (.record none l)) = .ok (.record none l) ↔
      ∀ x ∈ l, x.1 ≠ tag ∧ join x.1 = x.1 ∧ reconstruct schema (stored schema x.2) = .ok x.2 := by
  rw [stored_dict]
  have same : (∀ x ∈ l, join x.1 = x.1) →
      dictOf (l.map fun x => (join x.1, stored schema x.2)) =
        l.map fun x => (x.1, stored schema x.2) := by
    intro joined
    have keys : l.map (fun x => (join x.1, stored schema x.2)) =
        l.map fun x => (x.1, stored schema x.2) :=
      List.map_congr_left fun x member => by rw [joined x member]
    rw [keys, dictOf_eq]
    rw [List.map_map]
    exact distinct
  have untagged : (∀ x ∈ l, x.1 ≠ tag) →
      tag ∉ (l.map fun x => (x.1, stored schema x.2)).map Prod.fst := by
    intro other member
    rw [List.map_map] at member
    obtain ⟨x, inside, same⟩ := List.mem_map.mp member
    exact other x inside same
  constructor
  · intro read
    have keys := keys_reconstruct read
    have joined : ∀ x ∈ l, join x.1 = x.1 := by
      intro x member
      have inside := keys ▸ List.mem_map_of_mem (f := Prod.fst) member
      obtain ⟨y, there, key⟩ := List.mem_map.mp (List.mem_filter.mp inside).1
      obtain ⟨z, origin, name⟩ := (mem_dictOf there).1
      obtain ⟨w, -, rfl⟩ := List.mem_map.mp origin
      rw [← key, name]
      exact join_join w.1
    have other : ∀ x ∈ l, x.1 ≠ tag := by
      intro x member
      have inside := keys ▸ List.mem_map_of_mem (f := Prod.fst) member
      exact of_decide_eq_true (List.mem_filter.mp inside).2
    rw [same joined, reconstruct_untagged (untagged other)] at read
    obtain ⟨l', h, all⟩ := read
    cases h
    rw [List.forall₂_map_left_iff] at all
    intro x member
    exact ⟨other x member, joined x member, (List.forall₂_same.mp all x member).2⟩
  · intro each
    rw [same fun x member => (each x member).2.1,
      reconstruct_untagged (untagged fun x member => (each x member).1)]
    refine ⟨l, rfl, ?_⟩
    rw [List.forall₂_map_left_iff]
    exact List.forall₂_same.mpr fun x member => ⟨rfl, (each x member).2.2⟩

end Records

section Main

variable [DecidableEq E] {schema : Schema F E C}

theorem restored_iff {v : Obj F E C} (valid : Valid schema v) :
    reconstruct schema (stored schema v) = .ok v ↔ Restored schema v := by
  induction v using Obj.induct with
  | null => exact iff_of_true rfl .null
  | bool b => exact iff_of_true rfl (.bool b)
  | int n => exact iff_of_true rfl (.int n)
  | float x => exact iff_of_true rfl (.float x)
  | str s =>
    constructor
    · intro read
      have same : (Except.ok (Obj.str (join s)) : Except TypeError (Obj F E C)) = .ok (.str s) := read
      exact .str (Obj.str.inj (Except.ok.inj same))
    · intro restored
      cases restored with
      | str joined => exact congrArg (fun s => Except.ok (Obj.str s)) joined
  | list l ih =>
    cases valid with
    | list all =>
      rw [stored_list, reconstruct_list_eq_ok]
      constructor
      · rintro ⟨vs, h, items⟩
        cases h
        rw [List.map_map] at items
        exact .list fun v member => (ih v member (all v member)).mp (List.map_inj_left.mp items v member)
      · intro restored
        cases restored with
        | list values =>
          refine ⟨l, rfl, ?_⟩
          rw [List.map_map]
          exact List.map_congr_left fun v member => (ih v member (all v member)).mpr (values v member)
  | enum e m =>
    refine iff_of_false ?_ fun restored => by cases restored
    intro read
    exact not_enum_of_reconstruct (readBack_ne_dict (schema.no_dict e m)) read ⟨e, m, rfl⟩
  | record c l ih =>
    cases c with
    | none =>
      cases valid with
      | dict distinct all =>
        rw [reconstruct_dict_iff distinct]
        constructor
        · intro each
          exact .dict (fun x member => (each x member).1) (fun x member => (each x member).2.1)
            fun x member => (ih x member (all x member)).mp (each x member).2.2
        · intro restored
          cases restored with
          | dict untagged joined values =>
            exact fun x member => ⟨untagged x member, joined x member,
              (ih x member (all x member)).mpr (values x member)⟩
    | some c =>
      cases valid with
      | object registered level names all =>
        rw [reconstruct_object_iff registered level names, restored_record_iff]
        exact forall₂_congr fun x member => field_restored_iff (ih x member (all x member))

variable [Floats F] [LawfulFloats F] {v : Obj F E C} {limit : Nat} {t : List Char}

theorem read_iff (valid : Valid schema v)
    (written : dumps limit (ensureSerializable schema v) = .ok t) :
    (loads limit t).toOption.bind (fun data => (reconstruct schema data).toOption) = some v ↔
      Restored schema v := by
  have none : ∀ c ∈ ([] : List Char), isWhite c = true := fun c member =>
    absurd member List.not_mem_nil
  have read := loads_dumps written none
  rw [List.append_nil] at read
  rw [read, ← restored_iff valid]
  constructor
  · exact fun whole => toOption_eq_some whole
  · intro whole
    have whole : reconstruct schema (readBack dictOf (ensureSerializable schema v)) = .ok v := whole
    show (reconstruct schema (readBack dictOf (ensureSerializable schema v))).toOption = some v
    rw [whole]
    rfl

/-- A result that is kept as JSON is the same again exactly if it is one of those that come back. -/
theorem reconstruct_ensureSerializable_iff (valid : Valid schema v)
    (written : dumps limit (ensureSerializable schema v) = .ok t) :
    (loads limit t).toOption.bind (fun data => (reconstruct schema data).toOption) = some v ↔
      Restored schema v := read_iff valid written

end Main

section Palette

/-- An Enum Color, and a dataclass with a field `main: Optional[Color]` and another one
`colors: List[Color]`. -/
inductive Color where
  | color
  deriving DecidableEq

inductive Palette where
  | palette

def red : Str := text ['R', 'E', 'D']

def mainField : Str := text ['m', 'a', 'i', 'n']

def colorsField : Str := text ['c', 'o', 'l', 'o', 'r', 's']

def paletteFields : List (Str × Hint Color) :=
  [(mainField, .generic [.enum .color, .plain]), (colorsField, .generic [.enum .color])]

theorem paletteFields_names : (paletteFields.map Prod.fst).Nodup ∧
    tag ∉ paletteFields.map Prod.fst := by decide

theorem paletteFields_text : ∀ k ∈ paletteFields.map Prod.fst, k.all isCharacter = true :=
  List.forall_mem_cons.mpr ⟨rfl, List.forall_mem_cons.mpr
    ⟨rfl, fun _ member => absurd member List.not_mem_nil⟩⟩

def paletteName : Palette ⊕ Color → Str
  | .inl _ => text ['P']
  | .inr _ => text ['C']

theorem paletteName_text (t : Palette ⊕ Color) :
    (text ['m']).all isCharacter = true ∧ (paletteName t).all isCharacter = true := by
  cases t <;> exact ⟨rfl, rfl⟩

theorem str_ne_dict (m : Str) (l : List (Str × Json.Value Special Str)) :
    (.str m : Json.Value Special Str) ≠ .dict l := by
  intro same
  cases same

def paletteSchema : Schema Special Color Palette where
  module _ := text ['m']
  qualname := paletteName
  fields _ := paletteFields
  resolves _ := true
  registered := [.inl .palette]
  value _ m := .str m
  call _
    | .str s => if s = red then some red else none
    | _ => none
  distinct _ := paletteFields_names.1
  untagged _ := paletteFields_names.2
  fieldText _ := paletteFields_text
  nameText := paletteName_text
  no_dict _ := str_ne_dict

def palette (main : Obj Special Color Palette) (colors : List (Obj Special Color Palette)) :
    Obj Special Color Palette :=
  .record (some .palette) [(mainField, main), (colorsField, .list colors)]

theorem palette_valid {main : Obj Special Color Palette} {colors : List (Obj Special Color Palette)}
    (first : Valid paletteSchema main) (others : ∀ v ∈ colors, Valid paletteSchema v) :
    Valid paletteSchema (palette main colors) :=
  .object rfl rfl rfl (List.forall_mem_cons.mpr ⟨first, List.forall_mem_cons.mpr
    ⟨.list others, fun _ member => absurd member List.not_mem_nil⟩⟩)

theorem reconstruct_ensureSerializable_iff_palette :
    ∃ t, dumps 1000 (ensureSerializable paletteSchema (palette (.enum .color red) [])) = .ok t ∧
      ((loads 1000 t).toOption.bind (fun data => (reconstruct paletteSchema data).toOption) =
          some (palette (.enum .color red) []) ↔
        Restored paletteSchema (palette (.enum .color red) [])) :=
  ⟨_, rfl, reconstruct_ensureSerializable_iff
    (palette_valid (.enum _ _) fun _ member => absurd member List.not_mem_nil) rfl⟩

def listed : Obj Special Color Palette := palette .null [.enum .color red]

def tagged : Obj Special Color Palette :=
  .record none [(tag, .str (text ['x'])), (text ['a'], .int 1)]

theorem reconstruct_ensureSerializable_iff_lost :
    (∃ t, dumps 1000 (ensureSerializable paletteSchema listed) = .ok t ∧
      (loads 1000 t).toOption.bind (fun data => (reconstruct paletteSchema data).toOption) ≠
        some listed) ∧
    ∃ t, dumps 1000 (ensureSerializable paletteSchema tagged) = .ok t ∧
      (loads 1000 t).toOption.bind (fun data => (reconstruct paletteSchema data).toOption) ≠
        some tagged := by
  constructor
  · refine ⟨_, rfl, fun same => ?_⟩
    have valid : Valid paletteSchema listed := palette_valid .null (List.forall_mem_cons.mpr
      ⟨.enum _ _, fun _ member => absurd member List.not_mem_nil⟩)
    have restored := (read_iff valid rfl).mp same
    cases restored with
    | object values =>
      have colors := values (colorsField, .list [.enum .color red])
        (List.mem_cons_of_mem _ List.mem_cons_self) fun enum => by
          obtain ⟨e, m, h⟩ := enum
          cases h
      cases colors with
      | list all =>
        have member := all _ List.mem_cons_self
        cases member
  · refine ⟨_, rfl, fun same => ?_⟩
    have valid : Valid paletteSchema tagged := .dict (by decide) (List.forall_mem_cons.mpr
      ⟨.str _, List.forall_mem_cons.mpr
        ⟨.int _, fun _ member => absurd member List.not_mem_nil⟩⟩)
    have restored := (read_iff valid rfl).mp same
    cases restored with
    | dict untagged => exact untagged _ List.mem_cons_self rfl

end Palette

end Plexichat.Database.CacheValues
