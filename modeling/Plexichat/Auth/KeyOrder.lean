import Mathlib.Data.List.Lex
import Plexichat.Auth.DeletionLog

/-! When the data that is read back, with its keys sorted, is the data that was hashed. -/
namespace Plexichat.Auth.DeletionLog
open Json

section Strings

theorem code_injective {p q : Point} (same : p.code = q.code) : p = q := by
  cases p with
  | char c =>
    have range := char_lt c
    cases q with
    | char d => exact congrArg Point.char (Char.toNat_inj.mp same)
    | high n =>
      have code : c.toNat = 0xd800 + n := same
      omega
    | low n =>
      have code : c.toNat = 0xdc00 + n := same
      omega
  | high m =>
    have small := m.isLt
    cases q with
    | char d =>
      have range := char_lt d
      have code : 0xd800 + m.val = d.toNat := same
      omega
    | high n => exact congrArg Point.high (Fin.ext (Nat.add_left_cancel same))
    | low n =>
      have code : 0xd800 + m.val = 0xdc00 + n.val := same
      omega
  | low m =>
    have small := m.isLt
    cases q with
    | char d =>
      have range := char_lt d
      have code : 0xdc00 + m.val = d.toNat := same
      omega
    | high n =>
      have code : 0xdc00 + m.val = 0xd800 + n.val := same
      omega
    | low n => exact congrArg Point.low (Fin.ext (Nat.add_left_cancel same))

variable {s t u : Str}

theorem codes_injective (same : s.map Point.code = t.map Point.code) : s = t :=
  List.map_injective_iff.mpr (fun _ _ => code_injective) same

theorem less_irrefl (s : Str) : Str.less s s = false := decide_eq_false (lt_irrefl _)

theorem less_trans (first : Str.less s t = true) (second : Str.less t u = true) :
    Str.less s u = true :=
  decide_eq_true (lt_trans (of_decide_eq_true first) (of_decide_eq_true second))

theorem eq_of_not_less (first : Str.less s t = false) (second : Str.less t s = false) : s = t :=
  codes_injective (le_antisymm (not_lt.mp (of_decide_eq_false second))
    (not_lt.mp (of_decide_eq_false first)))

theorem not_less_of_less (h : Str.less s t = true) : Str.less t s = false := by
  cases back : Str.less t s with
  | false => rfl
  | true => exact absurd (less_trans h back) (by rw [less_irrefl]; exact Bool.false_ne_true)

theorem not_less_trans (first : Str.less t s = false) (second : Str.less u t = false) :
    Str.less u s = false :=
  decide_eq_false (not_lt.mpr (le_trans (not_lt.mp (of_decide_eq_false first))
    (not_lt.mp (of_decide_eq_false second))))

end Strings

section Lists

variable {α : Type} {l m : List (Str × α)}

abbrev upTo (x y : Str × α) : Prop := Str.less y.1 x.1 = false

instance : IsTrans (Str × α) upTo := ⟨fun _ _ _ => not_less_trans⟩

instance : Std.Total (upTo : Str × α → Str × α → Prop) where
  total x y := by
    cases h : Str.less y.1 x.1 with
    | false => exact .inl h
    | true => exact .inr (not_less_of_less h)

theorem nodup_of_increasing (increasing : (l.map Prod.fst).Pairwise fun s t => Str.less s t = true) :
    (l.map Prod.fst).Nodup := by
  refine increasing.imp ?_
  rintro s t less rfl
  rw [less_irrefl] at less
  cases less

theorem sorted_eq (perm : m.Perm l)
    (increasing : (m.map Prod.fst).Pairwise fun s t => Str.less s t = true) :
    l.insertionSort upTo = m := by
  have distinct := nodup_of_increasing increasing
  have ordered : m.Pairwise upTo := (List.pairwise_map.mp increasing).imp not_less_of_less
  have same : (l.insertionSort upTo).Perm m := (List.perm_insertionSort upTo l).trans perm.symm
  refine List.Perm.eq_of_pairwise ?_ (List.pairwise_insertionSort upTo l) ordered same
  intro x y first second below above
  have key : x.1 = y.1 := eq_of_not_less above below
  exact List.inj_on_of_nodup_map distinct (same.mem_iff.mp first) second key

theorem increasing_sorted (distinct : (l.map Prod.fst).Nodup) :
    ((l.insertionSort upTo).map Prod.fst).Pairwise fun s t => Str.less s t = true := by
  have once : ((l.insertionSort upTo).map Prod.fst).Nodup :=
    ((List.perm_insertionSort upTo l).map Prod.fst).nodup_iff.mpr distinct
  rw [List.pairwise_map]
  have both := (List.pairwise_insertionSort upTo l).and (List.pairwise_map.mp once)
  refine both.imp ?_
  rintro x y ⟨below, apart⟩
  cases less : Str.less x.1 y.1 with
  | true => rfl
  | false => exact absurd (eq_of_not_less less below) apart

end Lists

section Trees

variable {F : Type} [Floats F] {host : Host F}

def keyText (k : Key F) : Str := join k.text

def readData (d : Data F) : Value F Str := readBack dictOf (withTexts d)

def sortedData (host : Host F) (d : Data F) : Value F Str :=
  readBack id (withTexts (sorted host d))

def canonical : Value F Str → Value F Str := Value.rebuild id fun l => l.insertionSort upTo

theorem canonical_eq (v : Value F Str) : withTexts (sorted host (ofValue v)) = canonical v := by
  induction v using Value.induct with
  | null => rfl
  | bool b => rfl
  | int n => rfl
  | float x => rfl
  | str s => rfl
  | list l ih =>
    simp only [withTexts, sorted, ofValue, canonical, Value.rebuild_list, List.map_map]
    exact congrArg Value.list (List.map_congr_left fun v member => ih v member)
  | dict l ih =>
    simp only [withTexts, sorted, ofValue, canonical, Value.rebuild_dict, List.map_map]
    rw [List.map_insertionSort (r := fun x y : Key F × Data F => keyLess host y.1 x.1 = false)
      (s := upTo)]
    · rw [List.map_map]
      refine congrArg (fun l => Value.dict (List.insertionSort upTo l)) ?_
      apply List.map_congr_left
      intro x member
      exact congrArg (Prod.mk x.1) (ih x member)
    · intro x first y second
      obtain ⟨x, -, rfl⟩ := List.mem_map.mp first
      obtain ⟨y, -, rfl⟩ := List.mem_map.mp second
      exact Iff.rfl

theorem readData_list (l : List (Data F)) : readData (.list l) = .list (l.map readData) := by
  simp only [readData, readBack, withTexts, Value.rebuild_list, List.map_map]
  rfl

theorem readData_dict (l : List (Key F × Data F)) :
    readData (.dict l) = .dict (dictOf (l.map fun x => (keyText x.1, readData x.2))) := by
  simp only [readData, readBack, withTexts, Value.rebuild_dict, List.map_map]
  rfl

theorem sortedData_list (l : List (Data F)) :
    sortedData host (.list l) = .list (l.map (sortedData host)) := by
  simp only [sortedData, readBack, withTexts, sorted, Value.rebuild_list, List.map_map]
  rfl

abbrev keyUpTo (host : Host F) (k l : Key F) : Prop := keyLess host l k = false

theorem sortedData_dict (l : List (Key F × Data F)) :
    sortedData host (.dict l) = .dict (((l.map fun x => (x.1, sortedData host x.2)).insertionSort
      fun x y => keyUpTo host x.1 y.1).map fun x => (keyText x.1, x.2)) := by
  simp only [sortedData, readBack, withTexts, sorted, Value.rebuild_dict, List.map_map]
  have moved := List.map_insertionSort (r := fun x y : Key F × Data F => keyUpTo host x.1 y.1)
    (s := fun x y : Key F × Value F Str => keyUpTo host x.1 y.1)
    (f := fun x => (x.1, readBack id (withTexts x.2)))
    (l := l.map fun x => (x.1, sorted host x.2)) fun _ _ _ _ => Iff.rfl
  have texts := congrArg (fun l => Value.dict (l.map fun x => (keyText x.1, x.2))) moved
  simp only [List.map_map] at texts
  exact texts

theorem ordered_dict (l : List (Key F × Data F)) :
    Ordered host (.dict l) = true ↔
      (((l.map Prod.fst).insertionSort (keyUpTo host)).map keyText).Pairwise
        (fun s t => Str.less s t = true) ∧ ∀ x ∈ l, Ordered host x.2 = true := by
  rw [Ordered, Value.all_dict, Bool.and_eq_true, decide_eq_true_iff, List.all_eq_true]
  rfl

section Level

variable {α β : Type} {l : List (Key F × α)}

def inOrder (host : Host F) (l : List (Key F × α)) : List Str :=
  ((l.map Prod.fst).insertionSort (keyUpTo host)).map keyText

theorem keys_sorted (l : List (Key F × α)) :
    (((l.insertionSort fun x y => keyUpTo host x.1 y.1).map fun x => (keyText x.1, x.2)).map
      Prod.fst) = inOrder host l := by
  have moved := List.map_insertionSort (r := fun x y : Key F × α => keyUpTo host x.1 y.1)
    (s := keyUpTo host) (f := Prod.fst) (l := l) fun _ _ _ _ => Iff.rfl
  rw [inOrder, ← moved, List.map_map, List.map_map]
  rfl

theorem inOrder_map (f : α → β) :
    inOrder host (l.map fun x => (x.1, f x.2)) = inOrder host l := by
  rw [inOrder, inOrder, List.map_map]
  rfl

variable (increasing : (inOrder host l).Pairwise fun s t => Str.less s t = true)

include increasing

theorem nodup_texts : (l.map fun x => keyText x.1).Nodup := by
  have once : (inOrder host l).Nodup := by
    refine increasing.imp ?_
    rintro s t less rfl
    rw [less_irrefl] at less
    cases less
  have perm : (inOrder host l).Perm (l.map fun x => keyText x.1) := by
    have same := (List.perm_insertionSort (keyUpTo host) (l.map Prod.fst)).map keyText
    rwa [List.map_map] at same
  exact perm.nodup_iff.mp once

theorem sorted_texts : (l.map fun x => (keyText x.1, x.2)).insertionSort upTo =
    (l.insertionSort fun x y => keyUpTo host x.1 y.1).map fun x => (keyText x.1, x.2) :=
  sorted_eq ((List.perm_insertionSort _ l).map _) (by rw [keys_sorted]; exact increasing)

end Level

theorem canonical_readData (d : Data F) :
    canonical (readData d) = sortedData host d ↔ Ordered host d = true := by
  induction d using Value.induct with
  | null => exact iff_of_true rfl rfl
  | bool b => exact iff_of_true rfl rfl
  | int n => exact iff_of_true rfl rfl
  | float x => exact iff_of_true rfl rfl
  | str s => exact iff_of_true rfl rfl
  | list l ih =>
    rw [readData_list, sortedData_list, canonical, Value.rebuild_list, List.map_map, Ordered,
      Value.all_list, List.all_eq_true, Value.list.injEq, List.map_inj_left]
    exact forall₂_congr fun d member => ih d member
  | dict l ih =>
    have values : (fun x : Str × Value F Str =>
        (x.1, Value.rebuild id (fun l => l.insertionSort upTo) x.2)) = fun x => (x.1, canonical x.2) := rfl
    rw [readData_dict, sortedData_dict, canonical, Value.rebuild_dict, ordered_dict,
      Value.dict.injEq, values]
    show _ ↔ (inOrder host l).Pairwise _ ∧ _
    have dict_of : (inOrder host l).Pairwise (fun s t => Str.less s t = true) →
        (dictOf (l.map fun x => (keyText x.1, readData x.2))).map
          (fun x => (x.1, canonical x.2)) =
          l.map fun x => (keyText x.1, canonical (readData x.2)) := by
      intro increasing
      have distinct := nodup_texts increasing
      rw [dictOf_eq (by rw [List.map_map]; exact distinct), List.map_map]
      rfl
    constructor
    · intro same
      have increasing : (inOrder host l).Pairwise fun s t => Str.less s t = true := by
        have keys := congrArg (List.map Prod.fst) same
        rw [keys_sorted, inOrder_map] at keys
        rw [← keys]
        apply increasing_sorted
        rw [List.map_map]
        exact nodup_dictOf _
      refine ⟨increasing, ?_⟩
      intro x member
      rw [← ih x member]
      rw [dict_of increasing] at same
      have left : (keyText x.1, canonical (readData x.2)) ∈
          (l.map fun x => (keyText x.1, canonical (readData x.2))).insertionSort upTo :=
        (List.mem_insertionSort _).mpr (List.mem_map_of_mem member)
      rw [same] at left
      obtain ⟨z, among, equal⟩ := List.mem_map.mp left
      obtain ⟨y, there, rfl⟩ := List.mem_map.mp ((List.mem_insertionSort _).mp among)
      obtain ⟨key, value⟩ := Prod.mk.inj equal
      have here : y = x := List.inj_on_of_nodup_map (nodup_texts increasing) there member key
      rw [← value, here]
    · rintro ⟨increasing, inside⟩
      have ordered : (inOrder host (l.map fun x => (x.1, sortedData host x.2))).Pairwise
          fun s t => Str.less s t = true := by
        rw [inOrder_map]
        exact increasing
      rw [dict_of increasing, ← sorted_texts ordered, List.map_map]
      refine congrArg (fun l => List.insertionSort upTo l) ?_
      apply List.map_congr_left
      intro x member
      exact congrArg (Prod.mk (keyText x.1)) ((ih x member).mpr (inside x member))

omit [Floats F] in
theorem joined_canonical {v : Value F Str} (joined : Joined v = true) :
    Joined (canonical v) = true := by
  induction v using Value.induct with
  | null => rfl
  | bool b => rfl
  | int n => rfl
  | float x => rfl
  | str s => exact joined
  | list l each =>
    rw [joined_list] at joined
    rw [canonical, Value.rebuild_list, joined_list]
    exact List.forall_mem_map.mpr fun v member => each v member (joined v member)
  | dict l each =>
    rw [joined_dict] at joined
    rw [canonical, Value.rebuild_dict, joined_dict]
    intro x member
    obtain ⟨y, among, rfl⟩ := List.mem_map.mp ((List.mem_insertionSort _).mp member)
    exact ⟨(joined y among).1, each y among (joined y among).2⟩

omit [Floats F] in
theorem all_ofValue (p : List (Key F) → Bool) (strings : ∀ keys : List Str, p (keys.map .str) = true)
    (v : Value F Str) : (ofValue v).all (fun _ => true) p = true := by
  induction v using Value.induct with
  | null => rfl
  | bool b => rfl
  | int n => rfl
  | float x => rfl
  | str s => rfl
  | list l each =>
    rw [ofValue, Value.rebuild_list, Value.all_list, List.all_eq_true]
    exact List.forall_mem_map.mpr each
  | dict l each =>
    rw [ofValue, Value.rebuild_dict, Value.all_dict, Bool.and_eq_true, List.map_map, List.map_map,
      List.all_eq_true]
    constructor
    · have keys := strings (l.map Prod.fst)
      rw [List.map_map] at keys
      exact keys
    · intro x member
      obtain ⟨y, there, rfl⟩ := List.mem_map.mp member
      obtain ⟨z, among, rfl⟩ := List.mem_map.mp there
      exact each z among

theorem dumpsData_ofValue (v : Value F Str) :
    dumpsData host true (ofValue v) = dumps host.depth (canonical v) := by
  have fine := all_ofValue (F := F)
    (fun keys => (!true || comparable keys) && keys.all Key.fits) (by
      intro keys
      have fit : (keys.map (Key.str (F := F))).all Key.fits = true := by simp [Key.fits]
      simp [comparable, fit]) v
  have same : withTexts (sorted host (ofValue v)) = canonical v := canonical_eq v
  rw [dumpsData, fine, ← same]
  rfl

theorem dumps_of_dumpsData {d : Data F} {sortKeys : Bool} {t : List Char}
    (written : dumpsData host sortKeys d = .ok t) :
    dumps host.depth (withTexts (if sortKeys then sorted host d else d)) = .ok t := by
  unfold dumpsData at written
  split at written
  · cases written
  · exact written

theorem hashed_again [LawfulFloats F] {d : Data F} {content : List Char}
    (hashed : dumpsData host true d = .ok content) :
    dumpsData host true (ofValue (readData d)) = .ok content ↔ Ordered host d = true := by
  have first : dumps host.depth (withTexts (sorted host d)) = .ok content :=
    dumps_of_dumpsData hashed
  rw [dumpsData_ofValue, ← canonical_readData]
  constructor
  · intro again
    have same := dumps_injective again first
    rwa [readBack_id (joined_canonical (v := readData d) (joined_readBack _))] at same
  · intro same
    rw [same, sortedData, dumps_readBack]
    exact first

end Trees

end Plexichat.Auth.DeletionLog
