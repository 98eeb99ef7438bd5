import Mathlib.Data.List.Sort
import Plexichat.Library.Checks
import Plexichat.Library.Json
import Plexichat.Library.Slice
import Plexichat.Library.Table

/-! The column segments of suite/sum: the encodings of a segment, pack_column and unpack_column. A
document stands for its text, which json.loads reads back as it was; the encoders ask only for the
length of the text. The statistics of a segment, which nothing here reads, are left out. -/
namespace Plexichat.Sum.Segments

open Checks

/-- A float of Python: `json.dumps(x)`, `float(text)`, none being ValueError, and the arithmetic. -/
class PyFloat (F : Type) where
  text : F → List Char
  read : List Char → Option F
  add : F → F → F
  sub : F → F → F

class LawfulPyFloat (F : Type) [PyFloat F] : Prop where
  read_text : ∀ x : F, PyFloat.read (PyFloat.text x) = some x
  length_text : ∀ x : F, (PyFloat.text x).length ≤ 24

structure Entry where
  valueType : List Char
  value : Option (List Char)
  formula : Option (List Char)
  style : Option (List Char)
  deriving DecidableEq

structure ColumnCell where
  row : Nat
  entry : Entry
  deriving DecidableEq

inductive Failure where
  /-- `float(value)` -/
  | float
  | index
  | document
  deriving DecidableEq

inductive Encoding where
  | plain | runlength | delta | dictionary
  deriving DecidableEq

def quoted (s : List Char) : List Char := Json.quoted (s.map .char)

def orNull : Option (List Char) → List Char
  | none => ['n', 'u', 'l', 'l']
  | some s => quoted s

def array (items : List (List Char)) : List Char := '[' :: List.intercalate [','] items ++ [']']

def object (fields : List (String × List Char)) : List Char :=
  '{' :: List.intercalate [','] (fields.map fun f => quoted f.1.toList ++ ':' :: f.2) ++ ['}']

def Entry.fields (e : Entry) : List (String × List Char) :=
  [("value_type", quoted e.valueType), ("value_json", orNull e.value),
    ("formula", orNull e.formula), ("style_json", orNull e.style)]

def ColumnCell.text (c : ColumnCell) : List Char :=
  object (("row_index", Text.decimal c.row) :: c.entry.fields)

def naturals (l : List Nat) : List Char := array (l.map Text.decimal)

inductive Document (F : Type) where
  | cells (l : List ColumnCell)
  | runs (l : List (ColumnCell × Nat)) (rows : Option (List Nat))
  | deltas (base : F) (steps : List F) (count : Nat) (rows : Option (List Nat))
  | dictionary (unique : List Entry) (indices : List Nat) (rows : Option (List Nat))

section Texts

variable {F : Type} [PyFloat F]

def runText (run : ColumnCell × Nat) : List Char :=
  object [("value", run.1.text), ("count", Text.decimal run.2)]

def rowsField (rows : Option (List Nat)) : List (String × List Char) :=
  (rows.map fun rows => ("rows", naturals rows)).toList

def Document.text : Document F → List Char
  | .cells l => array (l.map ColumnCell.text)
  | .runs l none => array (l.map runText)
  | .runs l (some rows) => object [("runs", array (l.map runText)), ("rows", naturals rows)]
  | .deltas base steps count rows =>
    object ([("base", PyFloat.text base), ("deltas", array (steps.map PyFloat.text)),
      ("count", Text.decimal count)] ++ rowsField rows)
  | .dictionary unique indices rows =>
    object ([("unique", array (unique.map fun e => object e.fields)),
      ("indices", naturals indices)] ++ rowsField rows)

end Texts

structure Blob (F : Type) where
  tag : Option Nat
  document : Document F

section Codec

variable {F : Type} [PyFloat F]

def encodePlain (cells : List ColumnCell) : Document F := .cells cells

def decodePlain : Document F → Except Failure (List ColumnCell)
  | .cells l => .ok l
  | _ => .error .document

def shorter (cells : List ColumnCell) (tag : Nat) (document : Document F) : Blob F :=
  if (encodePlain (F := F) cells).text.length ≤ document.text.length then ⟨some 0, encodePlain cells⟩
  else ⟨some tag, document⟩

def addRun (runs : List (ColumnCell × Nat)) (c : ColumnCell) : List (ColumnCell × Nat) :=
  match runs.getLast? with
  | none => [(c, 1)]
  | some last =>
    if last.1.entry = c.entry then runs.dropLast ++ [(last.1, last.2 + 1)] else runs ++ [(c, 1)]

def encodeRunlength (cells : List ColumnCell) : Blob F :=
  shorter cells 1 (.runs (cells.foldl addRun []) (some (cells.map ColumnCell.row)))

/-- The row of the cell at a position, where the rows are known. -/
def placeAt (rows : Option (List Nat)) (c : ColumnCell) (position : Nat) :
    Except Failure ColumnCell :=
  match rows with
  | none => .ok c
  | some rows => (found rows[position]? .index).map fun row => { c with row }

def decodeRunlength (blob : Blob F) : Except Failure (List ColumnCell) :=
  if blob.tag = some 0 then decodePlain blob.document
  else
    match blob.document with
    | .runs runs rows =>
      (runs.flatMap fun run => List.replicate run.2 run.1).zipIdx.mapM fun x => placeAt rows x.1 x.2
    | _ => .error .document

def numberType : List Char := "number".toList

def ColumnCell.bare (c : ColumnCell) : Bool :=
  c.entry.valueType = numberType && c.entry.style.isNone && c.entry.formula.isNone

def ColumnCell.number (c : ColumnCell) : Option F := c.entry.value.bind PyFloat.read

def deltaNumbers : List ColumnCell → Except Failure (Option (List F))
  | [] => .ok (some [])
  | c :: cells =>
    if !c.bare then .ok none
    else do
      let x ← found c.number .float
      let rest ← deltaNumbers cells
      return rest.map (x :: ·)

def differences : List F → List F
  | [] => []
  | [_] => []
  | x :: y :: rest => PyFloat.sub y x :: differences (y :: rest)

def encodeDelta (cells : List ColumnCell) : Except Failure (Blob F) := do
  match ← deltaNumbers cells with
  | none => return ⟨some 0, encodePlain cells⟩
  | some [] => return ⟨some 0, encodePlain cells⟩
  | some (x :: numbers) =>
    return shorter cells 2 (.deltas x (x :: differences (x :: numbers)) (x :: numbers).length
      (some (cells.map ColumnCell.row)))

def numberCell (x : F) : Entry := ⟨numberType, some (PyFloat.text x), none, none⟩

def decodeDelta (rowStart : Nat) (blob : Blob F) : Except Failure (List ColumnCell) :=
  if blob.tag = some 0 then decodePlain blob.document
  else
    match blob.document with
    | .deltas base steps _ rows =>
      ((steps.drop 1).scanl PyFloat.add base).zipIdx.mapM fun x =>
        placeAt rows ⟨rowStart + x.2, numberCell x.1⟩ x.2
    | _ => .error .document

def encodeDictionary (cells : List ColumnCell) : Blob F :=
  let values := cells.map ColumnCell.entry
  let unique := values.eraseDups
  if 7 * values.length ≤ 10 * unique.length then ⟨some 0, encodePlain cells⟩
  else shorter cells 3 (.dictionary unique (values.map unique.idxOf)
    (some (cells.map ColumnCell.row)))

def decodeDictionary (blob : Blob F) : Except Failure (List ColumnCell) :=
  if blob.tag = some 0 then decodePlain blob.document
  else
    match blob.document with
    | .dictionary unique indices rows =>
      indices.zipIdx.mapM fun x => do
        let entry ← found unique[x.1]? .index
        placeAt rows ⟨x.2, entry⟩ x.2
    | _ => .error .document

/-- The products with 0.3 are those of the floats: no integer lies between the two. -/
def detectEncoding (cells : List ColumnCell) : Encoding :=
  let values := cells.map ColumnCell.entry
  let runs := 1 + (values.zip values.tail).countP fun v => v.1 ≠ v.2
  let unique := values.eraseDups.length
  if cells = [] then .plain
  else if (cells.all fun c => c.entry.valueType = numberType) && 10 ≤ cells.length then .delta
  else if 10 * runs < 3 * cells.length && 10 ≤ cells.length then .runlength
  else if 10 * unique < 3 * cells.length && unique < 100 && 10 ≤ cells.length then .dictionary
  else .plain

end Codec

/-- The cells of a segment: a list for an empty one, else the bytes of the encoder. -/
inductive Packed (F : Type) where
  | listed (cells : List ColumnCell)
  | bytes (blob : Blob F)

structure Segment (F : Type) where
  encoding : Encoding
  cells : Packed F
  rowStart : Nat
  rowEnd : Nat

structure Decoded where
  encoding : Encoding
  cells : List ColumnCell
  rowStart : Nat
  rowEnd : Nat

def segmentSize : Nat := 1000

/-- `result[row_index] = cell` -/
def put (result : Nat → Option ColumnCell) (c : ColumnCell) : Nat → Option ColumnCell :=
  fun row => if row = c.row then some c else result row

section Segments

variable {F : Type} [PyFloat F]

def encoder (encoding : Encoding) (cells : List ColumnCell) : Except Failure (Blob F) :=
  match encoding with
  | .plain => .ok ⟨none, encodePlain cells⟩
  | .runlength => .ok (encodeRunlength cells)
  | .delta => encodeDelta cells
  | .dictionary => .ok (encodeDictionary cells)

def decoder (encoding : Encoding) (rowStart : Nat) (blob : Blob F) :
    Except Failure (List ColumnCell) :=
  match encoding with
  | .plain => decodePlain blob.document
  | .runlength => decodeRunlength blob
  | .delta => decodeDelta rowStart blob
  | .dictionary => decodeDictionary blob

def encodeSegment (cells : List ColumnCell) : Except Failure (Segment F) :=
  if cells = [] then .ok ⟨.plain, .listed [], 0, 0⟩
  else do
    let rows := cells.map ColumnCell.row
    let blob ← encoder (detectEncoding cells) cells
    return ⟨detectEncoding cells, .bytes blob, rows.min?.getD 0, rows.max?.getD 0 + 1⟩

def decodeSegment (segment : Segment F) : Except Failure Decoded :=
  match segment.cells with
  | .listed cells => .ok ⟨segment.encoding, cells, segment.rowStart, segment.rowEnd⟩
  | .bytes blob => do
    let cells ← decoder segment.encoding segment.rowStart blob
    return ⟨segment.encoding, cells, segment.rowStart, segment.rowEnd⟩

def chunks (cells : List ColumnCell) : List (List ColumnCell) :=
  let sorted := cells.insertionSort fun a b => a.row ≤ b.row
  (List.range ((sorted.length + segmentSize - 1) / segmentSize)).map (Slice.piece segmentSize sorted)

def segmentId (chunk : List ColumnCell) : List Char :=
  "seg-".toList ++ Text.decimal ((chunk.head?.map ColumnCell.row).getD 0) ++
    '-' :: Text.decimal ((chunk.getLast?.map ColumnCell.row).getD 0 + 1)

def packColumn (cells : List ColumnCell) : Except Failure (List (List Char × Segment F)) :=
  (chunks cells).mapM fun chunk => do
    let segment ← encodeSegment chunk
    return (segmentId chunk, segment)

def unpackColumn (segments : List (Segment F)) : Except Failure (Nat → Option ColumnCell) :=
  segments.foldlM (fun result segment => do
    let decoded ← decodeSegment segment
    return decoded.cells.foldl put result) fun _ => none

end Segments

def RoundTrips (F : Type) [PyFloat F] (column : Table ColumnCell ColumnCell.row) : Prop :=
  ∃ (segments : List (List Char × Segment F)) (unpacked : Nat → Option ColumnCell),
    packColumn column.rows = .ok segments ∧
    unpackColumn (segments.map Prod.snd) = .ok unpacked ∧
    ∀ row, (unpacked row).map ColumnCell.entry = (column.find row).map ColumnCell.entry

/-- Every text is the one that its float is written as, and the difference to the next float leads
there. -/
def Steady (F : Type) [PyFloat F] (chunk : List ColumnCell) : Prop :=
  ∃ numbers : List F, chunk.map (fun c => c.entry.value) = numbers.map (some ∘ PyFloat.text) ∧
    numbers.IsChain fun x y => PyFloat.add x (PyFloat.sub y x) = y

def Survives (F : Type) [PyFloat F] (chunk : List ColumnCell) : Prop :=
  10 ≤ chunk.length → (∀ c ∈ chunk, c.entry.valueType = numberType) →
    (∀ c ∈ chunk.takeWhile ColumnCell.bare, (c.number (F := F)).isSome = true) ∧
    ((∀ c ∈ chunk, c.bare = true) → Steady F chunk)

section Lists

variable {F : Type} [PyFloat F]

def expand (runs : List (ColumnCell × Nat)) : List Entry :=
  runs.flatMap fun run => List.replicate run.2 run.1.entry

theorem expand_addRun (runs : List (ColumnCell × Nat)) (c : ColumnCell) :
    expand (addRun runs c) = expand runs ++ [c.entry] := by
  unfold addRun expand
  cases last : runs.getLast? with
  | none =>
    rw [List.getLast?_eq_none_iff.mp last]
    rfl
  | some run =>
    obtain ⟨before, rfl⟩ := List.getLast?_eq_some_iff.mp last
    simp only [List.dropLast_concat]
    split
    · rename_i same
      simp [List.replicate_succ', same]
    · simp

theorem expand_runs (cells : List ColumnCell) :
    expand (cells.foldl addRun []) = cells.map ColumnCell.entry := by
  have onward : ∀ runs, expand (cells.foldl addRun runs) =
      expand runs ++ cells.map ColumnCell.entry := by
    induction cells with
    | nil => simp
    | cons c cells ih =>
      intro runs
      rw [List.foldl_cons, ih, expand_addRun, List.append_assoc]
      rfl
  exact onward []

def restored (x : F) (numbers : List F) : List F :=
  (differences (x :: numbers)).scanl PyFloat.add x

theorem length_differences (x : F) (numbers : List F) :
    (differences (x :: numbers)).length = numbers.length := by
  induction numbers generalizing x with
  | nil => rfl
  | cons y numbers ih => rw [differences, List.length_cons, ih, List.length_cons]

theorem length_restored (x : F) (numbers : List F) :
    (restored x numbers).length = numbers.length + 1 := by
  rw [restored, List.length_scanl, length_differences]

/-- The sums of the differences are the numbers exactly when each of them leads to the next. -/
theorem restored_eq (x : F) (numbers : List F) : restored x numbers = x :: numbers ↔
    (x :: numbers).IsChain fun x y => PyFloat.add x (PyFloat.sub y x) = y := by
  unfold restored
  induction numbers generalizing x with
  | nil => simp [differences]
  | cons y numbers ih =>
    rw [differences, List.scanl_cons, List.isChain_cons_cons, ← ih y, List.cons.injEq]
    constructor
    · rintro ⟨_, rest⟩
      have first : PyFloat.add x (PyFloat.sub y x) = y := by
        have head := congrArg List.head? rest
        simpa using head
      rw [first] at rest
      exact ⟨first, rest⟩
    · rintro ⟨first, rest⟩
      rw [first]
      exact ⟨rfl, rest⟩

theorem mapM_placeAt {α : Type} {xs : List α} (make : α → Nat → ColumnCell) {rows : List Nat}
    {cells : List ColumnCell} (known : cells.map ColumnCell.row = rows)
    (same : ∀ i, (xs[i]?.map fun x => (make x i).entry) = cells[i]?.map ColumnCell.entry) :
    xs.zipIdx.mapM (fun x => placeAt (some rows) (make x.1 x.2) x.2) = .ok cells := by
  rw [mapM_eq_ok]
  apply List.ext_getElem?
  intro i
  have here := same i
  rw [List.getElem?_map, List.getElem?_map, List.getElem?_zipIdx]
  cases left : xs[i]? with
  | none =>
    rw [left] at here
    rw [Option.map_eq_none_iff.mp here.symm]
    rfl
  | some x =>
    rw [left] at here
    obtain ⟨c, right, entry⟩ := Option.map_eq_some_iff.mp here.symm
    have row : rows[i]? = some c.row := by
      rw [← known, List.getElem?_map, right]
      rfl
    rw [right]
    simp only [Option.map_some, placeAt, Nat.zero_add, row]
    replace entry : c.entry = (make x i).entry := entry
    show some (Except.ok (ColumnCell.mk c.row (make x i).entry)) = _
    rw [← entry]

theorem decodeRunlength_encode (cells : List ColumnCell) :
    decodeRunlength (encodeRunlength cells : Blob F) = .ok cells := by
  unfold encodeRunlength shorter
  split
  · rfl
  · refine mapM_placeAt (fun c _ => c) rfl fun i => ?_
    rw [← List.getElem?_map, ← List.getElem?_map, ← expand_runs cells, expand, List.map_flatMap]
    simp only [List.map_replicate]

theorem decodeDictionary_encode (cells : List ColumnCell) :
    decodeDictionary (encodeDictionary cells : Blob F) = .ok cells := by
  unfold encodeDictionary shorter
  simp only
  split
  · rfl
  split
  · rfl
  unfold decodeDictionary
  rw [if_neg (by simp)]
  simp only
  rw [mapM_eq_ok]
  apply List.ext_getElem?
  intro i
  rw [List.getElem?_map, List.getElem?_map, List.getElem?_zipIdx, List.getElem?_map,
    List.getElem?_map]
  cases here : cells[i]? with
  | none => rfl
  | some c =>
    have known : c.entry ∈ (cells.map ColumnCell.entry).eraseDups :=
      List.mem_eraseDups.mpr (List.mem_map_of_mem (List.mem_of_getElem? here))
    have row : (cells.map ColumnCell.row)[i]? = some c.row := by
      rw [List.getElem?_map, here]
      rfl
    simp only [Option.map_some, List.getElem?_idxOf known, Nat.zero_add, found, placeAt, row]
    rfl

end Lists

section Lengths

variable {F : Type} [PyFloat F]

theorem length_array (items : List (List Char)) : (array items).length =
    (items.map List.length).sum + (items.length - 1) + 2 := by
  have joined : (List.intercalate [','] items).length =
      (items.map List.length).sum + (items.length - 1) := by
    induction items with
    | nil => rfl
    | cons item items ih =>
      cases items with
      | nil => simp
      | cons next items =>
        rw [List.intercalate_cons_cons]
        simp only [List.length_append, ih, List.map_cons, List.sum_cons, List.length_cons,
          List.length_nil]
        omega
  simp only [array, List.length_append, List.length_cons, List.length_nil, joined]

theorem length_object (f : String × List Char) (fields : List (String × List Char)) :
    (object (f :: fields)).length = ((f :: fields).map fun f =>
      (quoted f.1.toList).length + f.2.length).sum + 2 * fields.length + 3 := by
  have same : ∀ items, ('{' :: List.intercalate [','] items ++ ['}']).length =
      (array items).length := by simp [array]
  rw [object, same, length_array, List.map_map]
  simp only [List.length_map, List.length_cons, Nat.add_sub_cancel]
  have parts : ∀ l : List (String × List Char),
      (l.map (List.length ∘ fun f => quoted f.1.toList ++ ':' :: f.2)).sum =
      (l.map fun f => (quoted f.1.toList).length + f.2.length).sum + l.length := by
    intro l
    induction l with
    | nil => rfl
    | cons f l ih =>
      simp only [List.map_cons, List.sum_cons, ih, Function.comp, List.length_append,
        List.length_cons]
      omega
  rw [parts, List.length_cons]
  omega

theorem length_bare {c : ColumnCell} (bare : c.bare = true) {v : List Char}
    (value : c.entry.value = some v) :
    80 + (Text.decimal c.row).length ≤ c.text.length := by
  simp only [ColumnCell.bare, Bool.and_eq_true, decide_eq_true_eq, Option.isNone_iff_eq_none] at bare
  obtain ⟨⟨type, style⟩, formula⟩ := bare
  have names : (quoted "row_index".toList).length = 11 ∧ (quoted "value_type".toList).length = 12 ∧
      (quoted "value_json".toList).length = 12 ∧ (quoted "formula".toList).length = 9 ∧
      (quoted "style_json".toList).length = 12 ∧ (quoted numberType).length = 8 := by decide
  obtain ⟨h1, h2, h3, h4, h5, h6⟩ := names
  rw [ColumnCell.text, length_object]
  simp only [Entry.fields, type, style, formula, value, List.map_cons, List.map_nil, List.sum_cons,
    List.sum_nil, List.length_cons, List.length_nil, h1, h2, h3, h4, h5, h6, orNull]
  omega

theorem length_decimal_le {n : Nat} (positive : 0 < n) : (Text.decimal n).length ≤ n :=
  (Nat.length_toDigits_le_iff (by decide) positive).mpr (Nat.lt_pow_self (by decide))

theorem length_deltas [LawfulPyFloat F] {cells : List ColumnCell} {x : F} {numbers : List F}
    (enough : 10 ≤ cells.length) (bare : ∀ c ∈ cells, c.bare = true)
    (read : cells.map ColumnCell.number = (x :: numbers).map some) :
    (Document.deltas x (x :: differences (x :: numbers)) (x :: numbers).length
      (some (cells.map ColumnCell.row))).text.length < (encodePlain (F := F) cells).text.length := by
  have count : cells.length = numbers.length + 1 := by
    have lengths := congrArg List.length read
    simpa using lengths
  have plain : ∀ l : List ColumnCell, (∀ c ∈ l, 80 + (Text.decimal c.row).length ≤ c.text.length) →
      80 * l.length + (l.map fun c => (Text.decimal c.row).length).sum ≤
        (l.map fun c => c.text.length).sum := by
    intro l long
    induction l with
    | nil => exact Nat.le_refl 0
    | cons c l ih =>
      rw [List.forall_mem_cons] at long
      have rest := ih long.2
      simp only [List.length_cons, List.map_cons, List.sum_cons]
      omega
  have cell : ∀ c ∈ cells, 80 + (Text.decimal c.row).length ≤ c.text.length := by
    intro c member
    have known : c.number ∈ (x :: numbers).map some := read ▸ List.mem_map_of_mem member
    obtain ⟨y, _, number⟩ := List.mem_map.mp known
    obtain ⟨v, value, _⟩ := Option.bind_eq_some_iff.mp number.symm
    exact length_bare (bare c member) value
  have floats : ∀ l : List F, (l.map fun x => (PyFloat.text x).length).sum ≤ 24 * l.length := by
    intro l
    induction l with
    | nil => exact Nat.le_refl 0
    | cons y l ih =>
      have short := LawfulPyFloat.length_text y
      simp only [List.length_cons, List.map_cons, List.sum_cons]
      omega
  have names : (quoted "base".toList).length = 6 ∧ (quoted "deltas".toList).length = 8 ∧
      (quoted "count".toList).length = 7 ∧ (quoted "rows".toList).length = 6 := by decide
  obtain ⟨h1, h2, h3, h4⟩ := names
  have base := LawfulPyFloat.length_text x
  have steps := floats (x :: differences (x :: numbers))
  have digits : (Text.decimal (numbers.length + 1)).length ≤ numbers.length + 1 :=
    length_decimal_le (Nat.succ_pos numbers.length)
  have long := plain cells cell
  have step_count := length_differences x numbers
  simp only [Document.text, rowsField, Option.map_some, Option.toList_some, List.cons_append,
    List.nil_append, length_object, length_array, naturals, encodePlain, List.map_cons,
    List.map_nil, List.sum_cons, List.sum_nil, List.length_cons, List.length_nil, List.length_map,
    List.map_map, Function.comp_def, h1, h2, h3, h4] at steps ⊢
  omega

end Lengths

section Chunks

variable {F : Type} [PyFloat F] {cells : List ColumnCell}

theorem deltaNumbers_eq_ok {numbers : List F} : deltaNumbers cells = .ok (some numbers) ↔
    (∀ c ∈ cells, c.bare = true) ∧ cells.map ColumnCell.number = numbers.map some := by
  induction cells generalizing numbers with
  | nil => cases numbers <;> simp [deltaNumbers]
  | cons c cells ih =>
    rw [deltaNumbers, List.forall_mem_cons, List.map_cons]
    cases bare : c.bare with
    | false => simp
    | true =>
      rw [if_neg (by simp)]
      simp only [found_bind_eq_ok]
      constructor
      · rintro ⟨x, read, done⟩
        obtain ⟨rest, others, done⟩ := returned_bind done
        obtain ⟨tail, rfl, rfl⟩ := Option.map_eq_some_iff.mp (pure_eq_ok.mp done)
        obtain ⟨all, reads⟩ := ih.mp others
        exact ⟨⟨trivial, all⟩, by rw [read, reads, List.map_cons]⟩
      · rintro ⟨⟨_, all⟩, reads⟩
        cases numbers with
        | nil => cases reads
        | cons x numbers =>
          rw [List.map_cons, List.cons.injEq] at reads
          refine ⟨x, reads.1, ?_⟩
          rw [ih.mpr ⟨all, reads.2⟩]
          rfl

theorem deltaNumbers_returns : (∃ numbers : Option (List F), deltaNumbers cells = .ok numbers) ↔
    ∀ c ∈ cells.takeWhile ColumnCell.bare, (c.number (F := F)).isSome = true := by
  induction cells with
  | nil => simp [deltaNumbers]
  | cons c cells ih =>
    rw [deltaNumbers, List.takeWhile_cons]
    cases bare : c.bare with
    | false => simp
    | true =>
      rw [if_neg (by simp), if_pos rfl, List.forall_mem_cons, ← ih]
      simp only [found_bind_eq_ok, Option.isSome_iff_exists]
      constructor
      · rintro ⟨_, x, read, done⟩
        obtain ⟨rest, others, _⟩ := returned_bind done
        exact ⟨⟨x, read⟩, rest, others⟩
      · rintro ⟨⟨x, read⟩, rest, others⟩
        refine ⟨rest.map (x :: ·), x, read, ?_⟩
        rw [others]
        rfl

theorem deltaNumbers_stops (done : deltaNumbers (F := F) cells = .ok none) :
    ∃ c ∈ cells, c.bare = false := by
  induction cells with
  | nil => cases done
  | cons c cells ih =>
    rw [deltaNumbers] at done
    cases bare : c.bare with
    | false => exact ⟨c, List.mem_cons_self, bare⟩
    | true =>
      rw [bare, if_neg (by simp)] at done
      obtain ⟨_, _, done⟩ := found_bind_eq_ok.mp done
      obtain ⟨rest, others, done⟩ := returned_bind done
      rw [Option.map_eq_none_iff.mp (pure_eq_ok.mp done)] at others
      obtain ⟨c, member, styled⟩ := ih others
      exact ⟨c, List.mem_cons_of_mem _ member, styled⟩

theorem zip_rows {numbers : List F} (count : cells.length = numbers.length) :
    ((cells.zip numbers).map fun p => ColumnCell.mk p.1.row (numberCell p.2)).map ColumnCell.row =
      cells.map ColumnCell.row := by
  rw [List.map_map]
  show (cells.zip _).map (ColumnCell.row ∘ Prod.fst) = _
  rw [← List.map_map, List.map_fst_zip (Nat.le_of_eq count)]

theorem length_of_reads {x : F} {numbers : List F}
    (reads : cells.map ColumnCell.number = (x :: numbers).map some) :
    cells.length = (restored x numbers).length := by
  have lengths := congrArg List.length reads
  rw [length_restored]
  simpa using lengths

theorem decodeDelta_encode [LawfulPyFloat F] (rowStart : Nat) {blob : Blob F}
    (enough : 10 ≤ cells.length) (done : encodeDelta cells = .ok blob) :
    ((∃ c ∈ cells, c.bare = false) ∧ decodeDelta rowStart blob = .ok cells) ∨
    (∀ c ∈ cells, c.bare = true) ∧ ∃ (x : F) (numbers : List F),
      cells.map ColumnCell.number = (x :: numbers).map some ∧
      decodeDelta rowStart blob = .ok ((cells.zip (restored x numbers)).map fun p =>
        ⟨p.1.row, numberCell p.2⟩) := by
  unfold encodeDelta at done
  obtain ⟨found, looped, done⟩ := returned_bind done
  cases found with
  | none =>
    cases done
    exact .inl ⟨deltaNumbers_stops looped, rfl⟩
  | some numbers =>
    obtain ⟨bare, read⟩ := deltaNumbers_eq_ok.mp looped
    cases numbers with
    | nil =>
      rw [List.map_nil, List.map_eq_nil_iff] at read
      rw [read] at enough
      cases enough
    | cons x numbers =>
      have short := length_deltas enough bare read
      refine .inr ⟨bare, x, numbers, read, ?_⟩
      cases done
      unfold shorter
      rw [if_neg (Nat.not_le_of_lt short)]
      have count := length_of_reads read
      refine mapM_placeAt (fun x i => ⟨rowStart + i, numberCell x⟩) ?_ fun i => ?_
      · exact zip_rows count
      · rw [← List.getElem?_map, ← List.getElem?_map, List.map_map]
        show _ = ((cells.zip _).map (numberCell ∘ Prod.snd))[i]?
        rw [← List.map_map, List.map_snd_zip (Nat.le_of_eq count.symm)]
        rfl

theorem numberCell_of_bare {c : ColumnCell} {x : F} (bare : c.bare = true) :
    ColumnCell.mk c.row (numberCell x) = c ↔ c.entry.value = some (PyFloat.text x) := by
  simp only [ColumnCell.bare, Bool.and_eq_true, decide_eq_true_eq, Option.isNone_iff_eq_none] at bare
  obtain ⟨⟨type, style⟩, formula⟩ := bare
  obtain ⟨row, ⟨valueType, value, _, _⟩⟩ := c
  subst type style formula
  simp [numberCell, eq_comm]

theorem zip_numberCell {numbers : List F} (bare : ∀ c ∈ cells, c.bare = true)
    (count : cells.length = numbers.length) :
    (cells.zip numbers).map (fun p => ColumnCell.mk p.1.row (numberCell p.2)) = cells ↔
      cells.map (fun c => c.entry.value) = numbers.map (some ∘ PyFloat.text) := by
  induction cells generalizing numbers with
  | nil =>
    rw [List.length_eq_zero_iff.mp count.symm]
    simp
  | cons c cells ih =>
    cases numbers with
    | nil => cases count
    | cons x numbers =>
      rw [List.forall_mem_cons] at bare
      simp only [List.zip_cons_cons, List.map_cons, List.cons.injEq, numberCell_of_bare bare.1,
        ih bare.2 (Nat.succ.inj count), Function.comp]

theorem number_of_value [LawfulPyFloat F] {numbers : List F}
    (values : cells.map (fun c => c.entry.value) = numbers.map (some ∘ PyFloat.text)) :
    cells.map ColumnCell.number = numbers.map some := by
  have reads := congrArg (List.map fun v => v.bind (PyFloat.read (F := F))) values
  simp only [List.map_map, Function.comp_def, Option.bind_some, LawfulPyFloat.read_text] at reads
  exact reads

theorem detectEncoding_delta : detectEncoding cells = .delta ↔
    10 ≤ cells.length ∧ ∀ c ∈ cells, c.entry.valueType = numberType := by
  have empty : cells = [] → ¬ 10 ≤ cells.length := by
    rintro rfl
    decide
  unfold detectEncoding
  split
  · rename_i none
    exact iff_of_false (by decide) fun numbers => empty none numbers.1
  · split
    · rename_i numbers
      simpa [and_comm] using numbers
    · rename_i other
      refine iff_of_false ?_ fun numbers => other (by simpa [and_comm] using numbers)
      dsimp only
      split_ifs <;> decide

variable (F) in
def reread (cells : List ColumnCell) : Except Failure (List ColumnCell) := do
  let segment : Segment F ← encodeSegment cells
  let decoded ← decodeSegment segment
  return decoded.cells

theorem reread_of_ne_delta (other : detectEncoding cells ≠ .delta) : reread F cells = .ok cells := by
  unfold reread encodeSegment
  split
  · rename_i none
    rw [none]
    rfl
  · cases encoding : detectEncoding cells with
    | plain => rfl
    | delta => exact absurd encoding other
    | runlength =>
      show (decodeRunlength (encodeRunlength cells : Blob F) >>= _) >>= _ = _
      rw [decodeRunlength_encode]
      rfl
    | dictionary =>
      show (decodeDictionary (encodeDictionary cells : Blob F) >>= _) >>= _ = _
      rw [decodeDictionary_encode]
      rfl

theorem reread_delta (delta : detectEncoding cells = .delta) : ∃ rowStart, reread F cells =
    (encodeDelta cells : Except Failure (Blob F)).bind (decodeDelta rowStart) := by
  have filled : cells ≠ [] := by
    rintro rfl
    cases delta
  unfold reread encodeSegment
  rw [if_neg filled, delta]
  refine ⟨(cells.map ColumnCell.row).min?.getD 0, ?_⟩
  show (((encodeDelta cells : Except Failure (Blob F)) >>= _) >>= _) = _
  cases (encodeDelta cells : Except Failure (Blob F)) with
  | error e => rfl
  | ok blob =>
    show (decodeDelta ((cells.map ColumnCell.row).min?.getD 0) blob >>= _) >>= _ =
      decodeDelta ((cells.map ColumnCell.row).min?.getD 0) blob
    cases decodeDelta ((cells.map ColumnCell.row).min?.getD 0) blob <;> rfl

theorem reread_rows [LawfulPyFloat F] {l : List ColumnCell} (done : reread F cells = .ok l) :
    l.map ColumnCell.row = cells.map ColumnCell.row := by
  by_cases delta : detectEncoding cells = .delta
  · obtain ⟨rowStart, read⟩ := reread_delta (F := F) delta
    obtain ⟨blob, encoded, decoded⟩ := returned_bind (read.symm.trans done)
    obtain ⟨_, result⟩ | ⟨_, x, rest, reads, result⟩ :=
      decodeDelta_encode rowStart (detectEncoding_delta.mp delta).1 encoded
    · rw [result] at decoded
      cases decoded
      rfl
    · rw [result] at decoded
      cases decoded
      exact zip_rows (length_of_reads reads)
  · rw [reread_of_ne_delta delta] at done
    cases done
    rfl

/-- The codec reads a chunk back as it was, unless it has put the differences of its numbers. -/
theorem reread_iff [LawfulPyFloat F] : reread F cells = .ok cells ↔ Survives F cells := by
  by_cases delta : detectEncoding cells = .delta
  · obtain ⟨enough, numbers⟩ := detectEncoding_delta.mp delta
    obtain ⟨rowStart, read⟩ := reread_delta (F := F) delta
    rw [read]
    constructor
    · intro same _ _
      obtain ⟨blob, encoded, decoded⟩ := returned_bind same
      obtain ⟨found, looped, _⟩ := returned_bind encoded
      refine ⟨deltaNumbers_returns.mp ⟨found, looped⟩, fun bare => ?_⟩
      obtain ⟨⟨c, member, styled⟩, _⟩ | ⟨_, x, rest, reads, result⟩ :=
        decodeDelta_encode rowStart enough encoded
      · rw [bare c member] at styled
        cases styled
      · rw [decoded] at result
        have values := (zip_numberCell bare (length_of_reads reads)).mp (Except.ok.inj result).symm
        have same_numbers : (restored x rest).map some = (x :: rest).map some :=
          (number_of_value values).symm.trans reads
        have back := List.map_injective_iff.mpr (Option.some_injective F) same_numbers
        exact ⟨x :: rest, back ▸ values, (restored_eq x rest).mp back⟩
    · intro survives
      obtain ⟨readable, steady⟩ := survives enough numbers
      obtain ⟨found, looped⟩ := deltaNumbers_returns.mpr readable
      obtain ⟨blob, encoded⟩ : ∃ blob : Blob F, encodeDelta cells = .ok blob := by
        unfold encodeDelta
        rw [looped]
        cases found with
        | none => exact ⟨_, rfl⟩
        | some l => cases l <;> exact ⟨_, rfl⟩
      rw [encoded]
      obtain ⟨_, result⟩ | ⟨bare, x, rest, reads, result⟩ :=
        decodeDelta_encode rowStart enough encoded
      · exact result
      · obtain ⟨known, values, leads⟩ := steady bare
        have same_numbers := (number_of_value values).symm.trans reads
        have back := List.map_injective_iff.mpr (Option.some_injective F) same_numbers
        rw [back] at leads values
        refine result.trans (congrArg _ ?_)
        rw [(restored_eq x rest).mpr leads]
        exact (zip_numberCell bare (by simpa using congrArg List.length reads)).mpr values
  · refine iff_of_true (reread_of_ne_delta delta) fun enough numbers => ?_
    exact absurd (detectEncoding_delta.mpr ⟨enough, numbers⟩) delta

end Chunks

section Columns

variable {F : Type} [PyFloat F]

theorem chunks_flatten (cells : List ColumnCell) : (chunks cells).flatten =
    cells.insertionSort fun a b => a.row ≤ b.row := by
  unfold chunks
  rw [← List.flatMap_def]
  apply Slice.pieces
  show _ ≤ (_ + segmentSize - 1) / segmentSize * segmentSize
  unfold segmentSize
  omega

theorem foldl_put {cells : List ColumnCell} (distinct : (cells.map ColumnCell.row).Nodup)
    (result : Nat → Option ColumnCell) (row : Nat) : cells.foldl put result row =
      ((cells.find? fun c => c.row = row).or (result row)) := by
  induction cells generalizing result with
  | nil => rfl
  | cons c cells ih =>
    rw [List.map_cons, List.nodup_cons] at distinct
    rw [List.foldl_cons, ih distinct.2]
    by_cases here : c.row = row
    · have absent : (cells.find? fun c => c.row = row) = none := by
        rw [List.find?_eq_none]
        intro q member same
        refine distinct.1 (List.mem_map.mpr ⟨q, member, ?_⟩)
        rw [here]
        simpa using same
      simp [absent, here, put]
    · simp [here, put, Ne.symm here]

theorem unpackColumn_eq_ok {segments : List (Segment F)} {unpacked : Nat → Option ColumnCell} :
    unpackColumn segments = .ok unpacked ↔ ∃ parts, segments.mapM decodeSegment = .ok parts ∧
      (parts.flatMap Decoded.cells).foldl put (fun _ => none) = unpacked := by
  unfold unpackColumn
  generalize (fun _ => none : Nat → Option ColumnCell) = result
  induction segments generalizing result with
  | nil =>
    constructor
    · intro same
      exact ⟨[], rfl, Except.ok.inj same⟩
    · rintro ⟨parts, empty, rfl⟩
      cases empty
      rfl
  | cons segment segments ih =>
    rw [List.foldlM_cons, List.mapM_cons]
    cases decodeSegment segment with
    | error e =>
      constructor
      · intro raised
        cases raised
      · rintro ⟨_, raised, _⟩
        cases raised
    | ok decoded =>
      refine (ih (decoded.cells.foldl put result)).trans ?_
      constructor
      · rintro ⟨parts, rest, same⟩
        refine ⟨decoded :: parts, by rw [rest]; rfl, ?_⟩
        rw [List.flatMap_cons, List.foldl_append]
        exact same
      · rintro ⟨parts, all, same⟩
        obtain ⟨_, first, all⟩ := returned_bind all
        obtain ⟨tail, rest, all⟩ := returned_bind all
        cases first
        cases all
        rw [List.flatMap_cons, List.foldl_append] at same
        exact ⟨tail, rest, same⟩

def packChunk (chunk : List ColumnCell) : Except Failure (List Char × Segment F) := do
  let segment ← encodeSegment chunk
  return (segmentId chunk, segment)

theorem mapM_reread {l parts : List (List ColumnCell)} : l.mapM (reread F) = .ok parts ↔
    ∃ (segments : List (List Char × Segment F)) (decoded : List Decoded),
      l.mapM packChunk = .ok segments ∧
      (segments.map Prod.snd).mapM decodeSegment = .ok decoded ∧
      decoded.map Decoded.cells = parts := by
  simp only [mapM_eq_ok]
  induction l generalizing parts with
  | nil => simp [eq_comm]
  | cons chunk l ih =>
    constructor
    · intro read
      cases parts with
      | nil => cases read
      | cons part parts =>
        rw [List.map_cons, List.map_cons, List.cons.injEq] at read
        obtain ⟨segment, encoded, first⟩ := returned_bind read.1
        obtain ⟨d, decoded, first⟩ := returned_bind first
        obtain ⟨segments, ds, packed, unpacked, rfl⟩ := ih.mp read.2
        cases first
        refine ⟨(segmentId chunk, segment) :: segments, d :: ds, ?_, ?_, rfl⟩
        · rw [List.map_cons, List.map_cons, packed, packChunk, encoded]
          rfl
        · rw [List.map_cons, List.map_cons, List.map_cons, unpacked, decoded]
    · rintro ⟨segments, ds, packed, unpacked, rfl⟩
      cases segments with
      | nil => cases packed
      | cons pair segments =>
        cases ds with
        | nil => cases unpacked
        | cons d ds =>
          simp only [List.map_cons, List.cons.injEq] at packed unpacked ⊢
          obtain ⟨segment, encoded, result⟩ := returned_bind packed.1
          cases result
          refine ⟨?_, ih.mpr ⟨segments, ds, packed.2, unpacked.2, rfl⟩⟩
          rw [reread, encoded]
          show (decodeSegment segment >>= _) = _
          rw [unpacked.1]
          rfl

theorem roundTrips_iff_parts {column : Table ColumnCell ColumnCell.row} : RoundTrips F column ↔
    ∃ parts, (chunks column.rows).mapM (reread F) = .ok parts ∧ ∀ row,
      (parts.flatten.foldl put (fun _ => none) row).map ColumnCell.entry =
        (column.find row).map ColumnCell.entry := by
  constructor
  · rintro ⟨segments, unpacked, packed, read, same⟩
    obtain ⟨decoded, done, rfl⟩ := unpackColumn_eq_ok.mp read
    exact ⟨_, mapM_reread.mpr ⟨segments, decoded, packed, done, rfl⟩, same⟩
  · rintro ⟨parts, read, same⟩
    obtain ⟨segments, decoded, packed, done, rfl⟩ := mapM_reread.mp read
    exact ⟨segments, _, packed, unpackColumn_eq_ok.mpr ⟨decoded, done, rfl⟩, same⟩

theorem rows_of_parts [LawfulPyFloat F] {l parts : List (List ColumnCell)}
    (read : l.mapM (reread F) = .ok parts) :
    parts.flatten.map ColumnCell.row = l.flatten.map ColumnCell.row := by
  replace read := mapM_eq_ok.mp read
  induction l generalizing parts with
  | nil =>
    rw [List.map_eq_nil_iff.mp read.symm]
  | cons chunk l ih =>
    cases parts with
    | nil => cases read
    | cons part parts =>
      rw [List.map_cons, List.map_cons, List.cons.injEq] at read
      rw [List.flatten_cons, List.flatten_cons, List.map_append, List.map_append,
        reread_rows read.1, ih read.2]

theorem eq_of_rows {column : Table ColumnCell ColumnCell.row} {l l' : List ColumnCell}
    (rows : l.map ColumnCell.row = l'.map ColumnCell.row) (known : ∀ c ∈ l, c ∈ column)
    (known' : ∀ c ∈ l', c ∈ column) : l = l' := by
  induction l generalizing l' with
  | nil => rw [List.map_eq_nil_iff.mp rows.symm]
  | cons c l ih =>
    cases l' with
    | nil => cases rows
    | cons c' l' =>
      rw [List.map_cons, List.map_cons, List.cons.injEq] at rows
      rw [List.forall_mem_cons] at known known'
      rw [Table.eq_of_key known.1 known'.1 rows.1, ih rows.2 known.2 known'.2]

theorem flatten_perm (column : Table ColumnCell ColumnCell.row) :
    (chunks column.rows).flatten.Perm column.rows :=
  chunks_flatten column.rows ▸ List.perm_insertionSort _ _

theorem flatten_distinct (column : Table ColumnCell ColumnCell.row) :
    ((chunks column.rows).flatten.map ColumnCell.row).Nodup :=
  ((flatten_perm column).map _).nodup_iff.mpr column.unique

theorem survives_of_roundTrips [LawfulPyFloat F] {column : Table ColumnCell ColumnCell.row}
    (returns : RoundTrips F column) {chunk : List ColumnCell}
    (member : chunk ∈ chunks column.rows) : Survives F chunk := by
  obtain ⟨parts, read, same⟩ := roundTrips_iff_parts.mp returns
  have distinct := rows_of_parts read ▸ flatten_distinct column
  have from_column : ∀ c ∈ parts.flatten, c ∈ column := by
    intro c listed
    have found : parts.flatten.find? (fun q => q.row = c.row) = some c :=
      (Table.find_eq_some (t := ⟨parts.flatten, distinct⟩)).mpr ⟨listed, rfl⟩
    have entry := same c.row
    rw [foldl_put distinct, found] at entry
    obtain ⟨q, there, same_entry⟩ := Option.map_eq_some_iff.mp entry.symm
    obtain ⟨inside, row⟩ := Table.find_eq_some.mp there
    obtain ⟨c_row, c_entry⟩ := c
    obtain ⟨q_row, q_entry⟩ := q
    cases row
    cases same_entry
    exact inside
  have listed : reread F chunk ∈ parts.map .ok := mapM_eq_ok.mp read ▸ List.mem_map_of_mem member
  obtain ⟨part, there, result⟩ := List.mem_map.mp listed
  have whole : part = chunk := by
    apply eq_of_rows (reread_rows result.symm)
    · intro c inside
      exact from_column c (List.mem_flatten.mpr ⟨part, there, inside⟩)
    · intro c inside
      exact (flatten_perm column).mem_iff.mp (List.mem_flatten.mpr ⟨chunk, member, inside⟩)
  exact reread_iff.mp (whole ▸ result.symm)

/-- A column comes back exactly when no chunk of it loses the texts of its numbers to their
differences. -/
theorem roundTrips_iff [LawfulPyFloat F] (column : Table ColumnCell ColumnCell.row) :
    RoundTrips F column ↔ ∀ chunk ∈ chunks column.rows, Survives F chunk := by
  refine ⟨fun returns chunk => survives_of_roundTrips returns, fun survive => ?_⟩
  rw [roundTrips_iff_parts]
  refine ⟨chunks column.rows, mapM_eq_ok.mpr (List.map_congr_left fun chunk member =>
    reread_iff.mpr (survive chunk member)), fun row => ?_⟩
  have distinct := flatten_distinct column
  rw [foldl_put distinct, Option.or_none]
  congr 1
  apply Option.ext
  intro c
  have sorted := Table.find_eq_some (t := ⟨(chunks column.rows).flatten, distinct⟩) (k := row)
    (r := c)
  exact sorted.trans
    ((and_congr_left fun _ => (flatten_perm column).mem_iff).trans Table.find_eq_some.symm)

end Columns

def digitText (x : Fin 10) : List Char := Text.decimal x ++ ['.', '0']

instance : PyFloat (Fin 10) where
  text := digitText
  read t := (List.finRange 10).find? fun x => t = digitText x ∨ t = Text.decimal x
  add x y := x + y
  sub x y := x - y

theorem lawful_digits : LawfulPyFloat (Fin 10) where
  read_text := by decide
  length_text := by decide

def digitCells (text : Fin 10 → List Char) : Table ColumnCell ColumnCell.row :=
  ⟨(List.finRange 10).map fun x => ⟨x.val, ⟨numberType, some (text x), none, none⟩⟩, by
    rw [List.map_map]
    exact (List.nodup_finRange 10).map Fin.val_injective⟩

theorem digitCells_chunks : (chunks (digitCells fun x => Text.decimal x).rows =
    [(digitCells fun x => Text.decimal x).rows]) ∧
    chunks (digitCells digitText).rows = [(digitCells digitText).rows] := by decide +kernel

/-- Ten integers come back as floats. -/
theorem integers_come_back_as_floats : ¬ ∀ (F : Type) [PyFloat F] [LawfulPyFloat F]
    (column : Table ColumnCell ColumnCell.row), RoundTrips F column := by
  intro law
  have := lawful_digits
  have survives := survives_of_roundTrips (law (Fin 10) (digitCells fun x => Text.decimal x))
    (digitCells_chunks.1 ▸ List.mem_singleton_self _)
  obtain ⟨numbers, values, _⟩ := (survives (by decide) (by decide)).2 (by decide)
  cases numbers with
  | nil => cases values
  | cons x numbers =>
    have first : some ['0'] = some (digitText x) := congrArg (fun l => l.head?.join) values
    have other : ∀ x : Fin 10, some ['0'] ≠ some (digitText x) := by decide
    exact other x first

theorem floats_come_back : RoundTrips (Fin 10) (digitCells digitText) := by
  have := lawful_digits
  refine (roundTrips_iff (digitCells digitText)).mpr ?_
  rw [digitCells_chunks.2]
  intro chunk member _ _
  rw [List.mem_singleton.mp member]
  exact ⟨by decide, fun _ => ⟨List.finRange 10, by decide, by decide⟩⟩

end Plexichat.Sum.Segments
