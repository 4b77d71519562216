import OpenGauss.Base.Moves
import OpenGauss.Compression.PageConvert
import Mathlib.Data.List.Nodup

/-!
# Rows transposed in blocks

The first bytes of all rows of a page, then the second ones and so on are brought together:
`page_compression_impl.h` transposes the bytes that all rows have, block by block where the machine
can transpose a block at once, and byte by byte for what remains. The rows are anywhere in the page
and the transposed bytes stand one after the other. Whatever the blocks, the outcome is that of the
plain loops over all bytes.
-/
namespace OpenGauss.Compression

open List OpenGauss.Base

/-- The machine that the code is compiled for. -/
inductive Machine where
  /-- `x86_64`, which transposes blocks of eight lines and eight columns. -/
  | amd64
  | aarch64
  | other

section Loops

variable (line_off : Nat → Nat)

/-- A block of eight rows is transposed (`Transpose8x8U`, `Transpose8x16U`). -/
def convertBlock (columns h x y : Nat) : List Move :=
  transposeMoves 8 columns (fun line => line_off (y + line) + x) (fun line => (x + line) * h + y)

/-- A byte of a row is copied to its transposed place. -/
def convertByte (h x y : Nat) : Move := ⟨x * h + y, line_off y + x⟩

/-- Transpose `h` rows with `w` bytes each. -/
def convertPart1 (machine : Machine) (w h : Nat) (part2 : List Move) : List Move :=
  let sw := w - w % 8
  let sh := h - h % 8
  match machine with
  | .amd64 =>
    ((upTo 0 sh 8).flatMap fun y => (upTo 0 sw 8).flatMap fun x => convertBlock line_off 8 h x y) ++
      ((upTo sh h 1).flatMap fun y => (upTo 0 w 1).map fun x => convertByte line_off h x y) ++
      ((upTo 0 sh 1).flatMap fun y => (upTo sw w 1).map fun x => convertByte line_off h x y)
  | .aarch64 =>
    ((upTo 0 sh 8).flatMap fun y =>
        ((upTo 0 (sw - 15) 16).flatMap fun x => convertBlock line_off 16 h x y) ++
          if sw / 16 * 16 + 8 ≤ sw then convertBlock line_off 8 h (sw / 16 * 16) y else []) ++
      ((upTo sh h 1).flatMap fun y => (upTo 0 w 1).map fun x => convertByte line_off h x y) ++
      ((upTo 0 sh 1).flatMap fun y => (upTo (sw - 1) w 1).map fun x => convertByte line_off h x y)
  | .other => part2

/-- A block of transposed bytes is brought back to its rows. -/
def deconvertBlock (copy_begin columns w x y : Nat) : List Move :=
  transposeMoves 8 columns (fun line => copy_begin + (y + line) * w + x)
    (fun line => line_off (x + line) + y)

/-- A transposed byte is brought back to its row. -/
def deconvertByte (copy_begin w x y : Nat) : Move := ⟨line_off x + y, copy_begin + y * w + x⟩

/-- Bring back the transposed bytes of `w` rows with `h` bytes each. -/
def deconvertPart1 (copy_begin : Nat) (machine : Machine) (w h : Nat) (part2 : List Move) :
    List Move :=
  let sw := w - w % 8
  let sh := h - h % 8
  match machine with
  | .amd64 =>
    ((upTo 0 sw 8).flatMap fun x =>
        (upTo 0 sh 8).flatMap fun y => deconvertBlock line_off copy_begin 8 w x y) ++
      ((upTo 0 sw 1).flatMap fun x =>
        (upTo sh h 1).map fun y => deconvertByte line_off copy_begin w x y) ++
      ((upTo sw w 1).flatMap fun x =>
        (upTo 0 h 1).map fun y => deconvertByte line_off copy_begin w x y)
  | .aarch64 =>
    ((upTo 0 (sw - 15) 16).flatMap fun x =>
        (upTo 0 sh 8).flatMap fun y => deconvertBlock line_off copy_begin 16 w x y) ++
      (if sw / 16 * 16 + 8 ≤ sw then
        (upTo 0 sh 8).flatMap fun y => deconvertBlock line_off copy_begin 8 w (sw / 16 * 16) y
      else []) ++
      ((upTo 0 sw 1).flatMap fun x =>
        (upTo sh h 1).map fun y => deconvertByte line_off copy_begin w x y) ++
      ((upTo sw w 1).flatMap fun x =>
        (upTo 0 h 1).map fun y => deconvertByte line_off copy_begin w x y)
  | .other => part2

/-- The bytes of the rows from some byte on, byte by byte and those of all rows together. -/
def part2Bytes (row_size : Nat → Nat) (min_row_len max_row_len real_row_cnt : Nat) :
    List (Nat × Nat) :=
  (upTo min_row_len max_row_len 1).flatMap fun i =>
    ((upTo 0 real_row_cnt 1).filter fun j => decide (i < row_size j)).map fun j => (i, j)

/-- Copy the bytes of the rows from some byte on one after the other. -/
def convertPart2 (row_size : Nat → Nat) (min_row_len max_row_len real_row_cnt : Nat) : List Move :=
  (part2Bytes row_size min_row_len max_row_len real_row_cnt).zipIdx.map fun byte =>
    ⟨min_row_len * real_row_cnt + byte.2, line_off byte.1.2 + byte.1.1⟩

/-- Bring back the bytes of the rows from some byte on. -/
def deconvertPart2 (row_size : Nat → Nat) (min_offset min_row_len max_row_len real_row_cnt : Nat) :
    List Move :=
  (part2Bytes row_size min_row_len max_row_len real_row_cnt).zipIdx.map fun byte =>
    ⟨line_off byte.1.2 + byte.1.1, min_offset + min_row_len * real_row_cnt + byte.2⟩

end Loops

section Pages

variable (buf : Nat → UInt8) (real_order : List Nat)

/-- The offset of a row of some rows. -/
def lineOff (rows : List Nat) (place : Nat) : Nat := lpOff buf (rows.getD place 0)

/-- The size of a row, by the order of the offsets. -/
def heapRowSize (real_row_cnt place : Nat) : Nat :=
  (if place = real_row_cnt - 1 then pdSpecial buf else lineOff buf real_order (place + 1)) -
    lineOff buf real_order place

/-- The size of a row, by the order of the line pointers. -/
def indexRowSize (real_row_cnt place : Nat) : Nat :=
  let itemid_idx := (normalIndexes buf).getD place 0
  (if real_order.idxOf itemid_idx = real_row_cnt - 1 then pdSpecial buf
    else lineOff buf real_order (real_order.idxOf itemid_idx + 1)) - lpOff buf itemid_idx

/-- Copy what some rows have more than others (`CompressConvertHeapRowsPart2`). -/
def compressConvertHeapRowsPart2 (min_row_len max_row_len real_row_cnt : Nat) : List Move :=
  convertPart2 (lineOff buf real_order) (heapRowSize buf real_order real_row_cnt) min_row_len
    max_row_len real_row_cnt

/-- Transpose what all rows have (`CompressConvertHeapRowsPart1`). -/
def compressConvertHeapRowsPart1 (machine : Machine) (min_row_len real_row_cnt : Nat) : List Move :=
  convertPart1 (lineOff buf real_order) machine min_row_len real_row_cnt
    (compressConvertHeapRowsPart2 buf real_order 0 min_row_len real_row_cnt)

/-- The same by the order of the line pointers (`CompressConvertIndexKeysPart2`). -/
def compressConvertIndexKeysPart2 (min_row_len max_row_len real_row_cnt : Nat) : List Move :=
  convertPart2 (lineOff buf (normalIndexes buf)) (indexRowSize buf real_order real_row_cnt)
    min_row_len max_row_len real_row_cnt

/-- Transpose what all rows have by the order of the line pointers
(`CompressConvertIndexKeysPart1`). -/
def compressConvertIndexKeysPart1 (machine : Machine) (min_row_len real_row_cnt : Nat) :
    List Move :=
  convertPart1 (lineOff buf (normalIndexes buf)) machine min_row_len real_row_cnt
    (compressConvertIndexKeysPart2 buf real_order 0 min_row_len real_row_cnt)

/-- Bring back what some rows have more than others (`DecompressDeconvertHeapRowsPart2`). -/
def decompressDeconvertHeapRowsPart2 (min_row_len max_row_len real_row_cnt : Nat) : List Move :=
  deconvertPart2 (lineOff buf real_order) (heapRowSize buf real_order real_row_cnt)
    (lineOff buf real_order 0) min_row_len max_row_len real_row_cnt

/-- Bring back what all rows have (`DecompressDeconvertHeapRowsPart1`). -/
def decompressDeconvertHeapRowsPart1 (machine : Machine) (min_row_len real_row_cnt : Nat) :
    List Move :=
  deconvertPart1 (lineOff buf real_order) (lineOff buf real_order 0) machine real_row_cnt min_row_len
    (decompressDeconvertHeapRowsPart2 buf real_order 0 min_row_len real_row_cnt)

/-- The same by the order of the line pointers (`DecompressDeconvertIndexKeysPart2`). -/
def decompressDeconvertIndexKeysPart2 (min_row_len max_row_len real_row_cnt : Nat) : List Move :=
  deconvertPart2 (lineOff buf (normalIndexes buf)) (indexRowSize buf real_order real_row_cnt)
    (lineOff buf real_order 0) min_row_len max_row_len real_row_cnt

/-- Bring back what all rows have by the order of the line pointers
(`DecompressDeconvertIndexKeysPart1`). -/
def decompressDeconvertIndexKeysPart1 (machine : Machine) (min_row_len real_row_cnt : Nat) :
    List Move :=
  deconvertPart1 (lineOff buf (normalIndexes buf)) (lineOff buf real_order 0) machine real_row_cnt
    min_row_len (decompressDeconvertIndexKeysPart2 buf real_order 0 min_row_len real_row_cnt)

end Pages

/-- Moves are one for each byte of a grid. -/
def Covers (cell : Nat → Nat → Move) (w h : Nat) (moves : List Move) : Prop :=
  ∀ move, move ∈ moves ↔ ∃ x < w, ∃ y < h, move = cell x y

theorem mem_convertBlock (line_off : Nat → Nat) (columns h x y : Nat) (move : Move) :
    move ∈ convertBlock line_off columns h x y ↔
      ∃ i < columns, ∃ j < 8, move = convertByte line_off h (x + i) (y + j) := by
  have same (i j : Nat) : (⟨(x + i) * h + y + j, line_off (y + j) + x + i⟩ : Move) =
      convertByte line_off h (x + i) (y + j) := by
    rw [convertByte, Nat.add_assoc, Nat.add_assoc]
  rw [convertBlock, mem_transposeMoves]
  simp only [same]

theorem mem_deconvertBlock (line_off : Nat → Nat) (copy_begin columns w x y : Nat) (move : Move) :
    move ∈ deconvertBlock line_off copy_begin columns w x y ↔
      ∃ i < columns, ∃ j < 8, move = deconvertByte line_off copy_begin w (x + i) (y + j) := by
  have same (i j : Nat) : (⟨line_off (x + i) + y + j, copy_begin + (y + j) * w + x + i⟩ : Move) =
        deconvertByte line_off copy_begin w (x + i) (y + j) := by
    rw [deconvertByte, Nat.add_assoc, Nat.add_assoc]
  rw [deconvertBlock, mem_transposeMoves]
  simp only [same]

section Covering

variable (cell : Nat → Nat → Move) (block wide : Nat → Nat → List Move)
  (isBlock : ∀ x y move, move ∈ block x y ↔ ∃ i < 8, ∃ j < 8, move = cell (x + i) (y + j))
  (isWide : ∀ x y move, move ∈ wide x y ↔ ∃ i < 16, ∃ j < 8, move = cell (x + i) (y + j))

theorem mem_byteLoops (first last low high : Nat) (move : Move) :
    (move ∈ (upTo first last 1).flatMap fun outer => (upTo low high 1).map fun inner =>
        cell inner outer) ↔
      ∃ x, (low ≤ x ∧ x < high) ∧ ∃ y, (first ≤ y ∧ y < last) ∧ move = cell x y := by
  simp only [mem_flatMap, mem_map, mem_upTo_one]
  constructor
  · rintro ⟨y, isY, x, isX, rfl⟩
    exact ⟨x, isX, y, isY, rfl⟩
  · rintro ⟨x, isX, y, isY, rfl⟩
    exact ⟨y, isY, x, isX, rfl⟩

include isBlock

variable {cell}

theorem mem_blockLoops (w h : Nat) (move : Move) :
    (move ∈ (upTo 0 (h - h % 8) 8).flatMap fun y => (upTo 0 (w - w % 8) 8).flatMap fun x =>
        block x y) ↔
      ∃ x < w - w % 8, ∃ y < h - h % 8, move = cell x y := by
  simp only [mem_flatMap, isBlock]
  constructor
  · rintro ⟨y, isY, x, isX, i, small, j, tiny, rfl⟩
    have left := (mem_blocks w (x + i)).mp ⟨x, isX, i, small, rfl⟩
    have right := (mem_blocks h (y + j)).mp ⟨y, isY, j, tiny, rfl⟩
    exact ⟨x + i, left, y + j, right, rfl⟩
  · rintro ⟨x, left, y, right, rfl⟩
    obtain ⟨column, isX, i, small, rfl⟩ := (mem_blocks w x).mpr left
    obtain ⟨line, isY, j, tiny, rfl⟩ := (mem_blocks h y).mpr right
    exact ⟨line, isY, column, isX, i, small, j, tiny, rfl⟩

variable (cell)

theorem mem_narrowLoop (w h : Nat) (move : Move) :
    (∃ y ∈ upTo 0 (h - h % 8) 8, (w - w % 8) / 16 * 16 + 8 ≤ w - w % 8 ∧
        move ∈ block ((w - w % 8) / 16 * 16) y) ↔
      ∃ x, ((w - w % 8) / 16 * 16 + 8 ≤ w - w % 8 ∧ ∃ i < 8, x = (w - w % 8) / 16 * 16 + i) ∧
        ∃ y < h - h % 8, move = cell x y := by
  simp only [isBlock]
  constructor
  · rintro ⟨y, isY, fits, i, small, j, tiny, rfl⟩
    have right := (mem_blocks h (y + j)).mp ⟨y, isY, j, tiny, rfl⟩
    exact ⟨_, ⟨fits, i, small, rfl⟩, y + j, right, rfl⟩
  · rintro ⟨x, ⟨fits, i, small, rfl⟩, y, right, rfl⟩
    obtain ⟨line, isY, j, tiny, rfl⟩ := (mem_blocks h y).mpr right
    exact ⟨line, isY, fits, i, small, j, tiny, rfl⟩

omit isBlock
include isWide

theorem mem_wideLoop (w h : Nat) (move : Move) :
    (∃ y ∈ upTo 0 (h - h % 8) 8, ∃ x ∈ upTo 0 (w - w % 8 - 15) 16, move ∈ wide x y) ↔
      ∃ x, (∃ start ∈ upTo 0 (w - w % 8 - 15) 16, ∃ i < 16, x = start + i) ∧
        ∃ y < h - h % 8, move = cell x y := by
  simp only [isWide]
  constructor
  · rintro ⟨y, isY, x, isX, i, small, j, tiny, rfl⟩
    have right := (mem_blocks h (y + j)).mp ⟨y, isY, j, tiny, rfl⟩
    exact ⟨x + i, ⟨x, isX, i, small, rfl⟩, y + j, right, rfl⟩
  · rintro ⟨x, ⟨start, isX, i, small, rfl⟩, y, right, rfl⟩
    obtain ⟨line, isY, j, tiny, rfl⟩ := (mem_blocks h y).mpr right
    exact ⟨line, isY, start, isX, i, small, j, tiny, rfl⟩

include isBlock

variable {cell}

theorem wide_or_narrow (w h : Nat) (move : Move) :
    ((∃ y ∈ upTo 0 (h - h % 8) 8, ∃ x ∈ upTo 0 (w - w % 8 - 15) 16, move ∈ wide x y) ∨
        ∃ y ∈ upTo 0 (h - h % 8) 8, (w - w % 8) / 16 * 16 + 8 ≤ w - w % 8 ∧
          move ∈ block ((w - w % 8) / 16 * 16) y) ↔
      ∃ x < w - w % 8, ∃ y < h - h % 8, move = cell x y := by
  rw [mem_wideLoop cell wide isWide, mem_narrowLoop cell block isBlock]
  simp only [← mem_wideBlocks w]
  constructor
  · rintro (⟨x, isX, rest⟩ | ⟨x, isX, rest⟩)
    · exact ⟨x, .inl isX, rest⟩
    · exact ⟨x, .inr isX, rest⟩
  · rintro ⟨x, isX | isX, rest⟩
    · exact .inl ⟨x, isX, rest⟩
    · exact .inr ⟨x, isX, rest⟩

end Covering

variable (buf : Nat → UInt8) (rows : ConvertRows) (cell : Nat → Nat → Move)
  (line_off row_size : Nat → Nat) (w h : Nat)

/-- The blocks and what remains are the whole grid; the columns of the other lines may start one
early. -/
theorem blocks_cover (w h early : Nat) (wideEnough : early ≤ w - w % 8) (move : Move) :
    (((∃ x < w - w % 8, ∃ y < h - h % 8, move = cell x y) ∨
        ∃ x, (0 ≤ x ∧ x < w) ∧ ∃ y, (h - h % 8 ≤ y ∧ y < h) ∧ move = cell x y) ∨
        ∃ x, (w - w % 8 - early ≤ x ∧ x < w) ∧ ∃ y, (0 ≤ y ∧ y < h - h % 8) ∧ move = cell x y) ↔
      ∃ x < w, ∃ y < h, move = cell x y := by
  constructor
  · rintro ((⟨x, left, y, right, rfl⟩ | ⟨x, left, y, right, rfl⟩) | ⟨x, left, y, right, rfl⟩)
    · exact ⟨x, by omega, y, by omega, rfl⟩
    · exact ⟨x, left.2, y, right.2, rfl⟩
    · exact ⟨x, left.2, y, by omega, rfl⟩
  · rintro ⟨x, left, y, right, rfl⟩
    by_cases row : y < h - h % 8
    · by_cases column : x < w - w % 8
      · exact .inl (.inl ⟨x, column, y, row, rfl⟩)
      · exact .inr ⟨x, by omega, y, by omega, rfl⟩
    · exact .inl (.inr ⟨x, by omega, y, by omega, rfl⟩)

/-- Converting by tiles covers every cell. -/
theorem convertPart1_covers {line_off : Nat → Nat} (machine : Machine) {w h : Nat} (wide : 8 ≤ w)
    {part2 : List Move} (plain : Covers (convertByte line_off h) w h part2) :
    Covers (convertByte line_off h) w h (convertPart1 line_off machine w h part2) := by
  intro move
  have isBlock (x y : Nat) (move : Move) := mem_convertBlock line_off 8 h x y move
  have isWide (x y : Nat) (move : Move) := mem_convertBlock line_off 16 h x y move
  cases machine with
  | other => exact plain move
  | amd64 =>
    rw [← blocks_cover (convertByte line_off h) w h 0 (Nat.zero_le _)]
    rw [convertPart1, mem_append, mem_append, mem_byteLoops, mem_byteLoops,
      mem_blockLoops _ isBlock, Nat.sub_zero]
  | aarch64 =>
    rw [← blocks_cover (convertByte line_off h) w h 1 (by omega)]
    rw [convertPart1, mem_append, mem_append, mem_byteLoops, mem_byteLoops,
      ← wide_or_narrow _ _ isBlock isWide]
    simp only [mem_flatMap, mem_append, mem_ite_nil_right, and_or_left, exists_or]

/-- Converting back by tiles covers every cell. -/
theorem deconvertPart1_covers {line_off : Nat → Nat} {copy_begin : Nat} (machine : Machine)
    {w h : Nat} {part2 : List Move}
    (plain : Covers (deconvertByte line_off copy_begin w) w h part2) :
    Covers (deconvertByte line_off copy_begin w) w h
      (deconvertPart1 line_off copy_begin machine w h part2) := by
  intro move
  have isBlock (x y : Nat) (move : Move) := mem_deconvertBlock line_off copy_begin 8 w x y move
  have isWide (x y : Nat) (move : Move) := mem_deconvertBlock line_off copy_begin 16 w x y move
  -- the loops go over the columns first, the grid is the same
  have bytes (first last low high : Nat) :
      (move ∈ (upTo first last 1).flatMap fun x => (upTo low high 1).map fun y =>
          deconvertByte line_off copy_begin w x y) ↔
        ∃ x, (first ≤ x ∧ x < last) ∧ ∃ y, (low ≤ y ∧ y < high) ∧
          move = deconvertByte line_off copy_begin w x y := by
    simp only [mem_flatMap, mem_map, mem_upTo_one, eq_comm (a := move)]
  have grid : ((∃ x < w - w % 8, ∃ y < h - h % 8, move = deconvertByte line_off copy_begin w x y) ∨
      (∃ x, (0 ≤ x ∧ x < w - w % 8) ∧ ∃ y, (h - h % 8 ≤ y ∧ y < h) ∧
        move = deconvertByte line_off copy_begin w x y)) ∨
      (∃ x, (w - w % 8 ≤ x ∧ x < w) ∧ ∃ y, (0 ≤ y ∧ y < h) ∧
        move = deconvertByte line_off copy_begin w x y) ↔
      ∃ x < w, ∃ y < h, move = deconvertByte line_off copy_begin w x y := by
    constructor
    · rintro ((⟨x, left, y, right, rfl⟩ | ⟨x, left, y, right, rfl⟩) | ⟨x, left, y, right, rfl⟩)
      · exact ⟨x, by omega, y, by omega, rfl⟩
      · exact ⟨x, by lia, y, right.2, rfl⟩
      · exact ⟨x, left.2, y, right.2, rfl⟩
    · rintro ⟨x, left, y, right, rfl⟩
      by_cases column : x < w - w % 8
      · by_cases row : y < h - h % 8
        · exact .inl (.inl ⟨x, column, y, row, rfl⟩)
        · exact .inl (.inr ⟨x, by omega, y, by omega, rfl⟩)
      · exact .inr ⟨x, by omega, y, by omega, rfl⟩
  have swap (columns : List Nat) (block : Nat → Nat → List Move) :
      (∃ x ∈ columns, ∃ y ∈ upTo 0 (h - h % 8) 8, move ∈ block x y) ↔
        ∃ y ∈ upTo 0 (h - h % 8) 8, ∃ x ∈ columns, move ∈ block x y :=
    ⟨fun ⟨x, isX, y, isY, here⟩ => ⟨y, isY, x, isX, here⟩,
      fun ⟨y, isY, x, isX, here⟩ => ⟨x, isX, y, isY, here⟩⟩
  cases machine with
  | other => exact plain move
  | amd64 =>
    rw [← grid, deconvertPart1, mem_append, mem_append, bytes, bytes, ← mem_blockLoops _ isBlock]
    simp only [mem_flatMap]
    rw [swap]
  | aarch64 =>
    rw [← grid, deconvertPart1, mem_append, mem_append, mem_append, bytes, bytes,
      ← wide_or_narrow _ _ isBlock isWide]
    simp only [mem_flatMap, mem_ite_nil_right]
    rw [swap]
    apply or_congr_left
    apply or_congr_left
    apply or_congr_right
    exact ⟨fun ⟨fits, y, isY, here⟩ => ⟨y, isY, fits, here⟩,
      fun ⟨y, isY, fits, here⟩ => ⟨fits, y, isY, here⟩⟩

/-- The bytes of the plain conversion, column by column. -/
theorem part2Bytes_zipIdx {row_size : Nat → Nat} {w h : Nat} (long : ∀ row < h, w ≤ row_size row) :
    (part2Bytes row_size 0 w h).zipIdx =
      (List.range w).flatMap fun i => (List.range h).map fun j => ((i, j), i * h + j) := by
  have loop (count : Nat) : upTo 0 count 1 = List.range count := by
    simp [upTo]
  rw [part2Bytes, loop, loop]
  induction w with
  | zero => rfl
  | succ w ih =>
    have before := ih (fun row within => Nat.le_of_succ_le (long row within))
    have all : (List.range h).filter (fun j => decide (w < row_size j)) = List.range h := by
      apply filter_eq_self.mpr
      intro row member
      exact decide_eq_true (long row (mem_range.mp member))
    have length : ((List.range w).flatMap fun i =>
        ((List.range h).filter fun j => decide (i < row_size j)).map fun j => (i, j)).length =
          w * h := by
      have lengths := congrArg List.length before
      rw [length_zipIdx] at lengths
      rw [lengths]
      simp
    rw [range_succ, flatMap_append, flatMap_append, zipIdx_append, length, flatMap_singleton, all]
    congr 1
    apply ext_getElem
    · simp
    · intro index left right
      simp

theorem convertPart2_covers (long : ∀ row < h, w ≤ row_size row) :
    Covers (convertByte line_off h) w h (convertPart2 line_off row_size 0 w h) := by
  intro move
  rw [convertPart2, part2Bytes_zipIdx long]
  simp only [mem_map, mem_flatMap, mem_range, Nat.zero_mul, Nat.zero_add]
  constructor
  · rintro ⟨byte, ⟨x, left, y, right, rfl⟩, rfl⟩
    exact ⟨x, left, y, right, rfl⟩
  · rintro ⟨x, left, y, right, rfl⟩
    exact ⟨_, ⟨x, left, y, right, rfl⟩, rfl⟩

theorem deconvertPart2_covers (min_offset : Nat) {w h : Nat} (long : ∀ row < w, h ≤ row_size row) :
    Covers (deconvertByte line_off min_offset w) w h
      (deconvertPart2 line_off row_size min_offset 0 h w) := by
  intro move
  rw [deconvertPart2, part2Bytes_zipIdx long]
  simp only [mem_map, mem_flatMap, mem_range, Nat.zero_mul, Nat.add_zero]
  constructor
  · rintro ⟨byte, ⟨y, right, x, left, rfl⟩, rfl⟩
    exact ⟨x, left, y, right, by rw [deconvertByte, Nat.add_assoc]⟩
  · rintro ⟨x, left, y, right, rfl⟩
    exact ⟨_, ⟨y, right, x, left, rfl⟩, by rw [deconvertByte, Nat.add_assoc]⟩

/-- The moves of one transposition have the outcome of others: they copy every cell of a grid, read
where they may read and write where they may write. -/
structure Agrees (source : Nat → UInt8) (cell : Nat → Nat → Move) (w h : Nat)
    (readable writable : Nat → Prop) (part1 part2 : List Move) : Prop where
  same : ∀ target, runMoves source target part1 = runMoves source target part2
  cells : ∀ target, ∀ x < w, ∀ y < h,
    runMoves source target part1 (cell x y).dst = source (cell x y).src
  reads : ∀ move ∈ part1, readable move.src
  writes : ∀ move ∈ part1, writable move.dst

/-- Two covers of consistent cells agree. -/
theorem Covers.agrees {part1 part2 : List Move}
    (covers : Covers cell w h part1) (plain : Covers cell w h part2)
    (consistent : ∀ x < w, ∀ y < h, ∀ column < w, ∀ line < h,
      (cell x y).dst = (cell column line).dst → (cell x y).src = (cell column line).src)
    (readable writable : Nat → Prop) (reads : ∀ x < w, ∀ y < h, readable (cell x y).src)
    (writes : ∀ x < w, ∀ y < h, writable (cell x y).dst) (source : Nat → UInt8) :
    Agrees source cell w h readable writable part1 part2 := by
  have agree (moves : List Move) (all : Covers cell w h moves) : Consistent moves := by
    intro first isFirst second isSecond
    obtain ⟨x, left, y, right, rfl⟩ := (all first).mp isFirst
    obtain ⟨column, near, line, low, rfl⟩ := (all second).mp isSecond
    exact consistent x left y right column near line low
  exact {
    same := fun target => runMoves_congr source target (agree part2 plain)
      (fun move => (covers move).trans (plain move).symm)
    cells := fun target x left y right => runMoves_mem source target part1 (agree part1 covers)
      (cell x y) ((covers _).mpr ⟨x, left, y, right, rfl⟩)
    reads := by
      intro move member
      obtain ⟨x, left, y, right, rfl⟩ := (covers move).mp member
      exact reads x left y right
    writes := by
      intro move member
      obtain ⟨x, left, y, right, rfl⟩ := (covers move).mp member
      exact writes x left y right }

/-- A position is in a row of a page. -/
def InRow (buf : Nat → UInt8) (real_order : List Nat) (position : Nat) : Prop :=
  ∃ place row, real_order[place]? = some row ∧ lpOff buf row ≤ position ∧
    position < rowEnd (lpOff buf) (pdSpecial buf) real_order place ∧
    rowEnd (lpOff buf) (pdSpecial buf) real_order place ≤ pdSpecial buf

/-- The rows of a page in some order, each once. -/
structure RowsOf (buf : Nat → UInt8) (rows : ConvertRows) (order : List Nat) : Prop where
  perm : order.Perm rows.real_order
  nodup : order.Nodup

theorem Convertible.heapRows (valid : Convertible buf rows) : RowsOf buf rows rows.real_order where
  perm := List.Perm.refl _
  nodup := by
    rw [valid.order]
    exact compressConvertItemRealOrder_nodup buf

theorem Convertible.indexRows
    (valid : Convertible buf rows) : RowsOf buf rows (normalIndexes buf) where
  perm := by
    rw [valid.order]
    exact (compressConvertItemRealOrder_perm buf).symm
  nodup := nodup_range.filter _

section Rows

variable (buf : Nat → UInt8) (rows : ConvertRows) (valid : Convertible buf rows) (order : List Nat)
  (isOrder : RowsOf buf rows order)

include valid isOrder

variable {order}

theorem RowsOf.place {line : Nat} (within : line < rows.real_row_cnt) :
    ∃ place : Nat, rows.real_order[place]? = some (order.getD line 0) := by
  rw [valid.count, ← isOrder.perm.length_eq] at within
  have member : order.getD line 0 ∈ rows.real_order := by
    rw [getD_eq_getElem _ _ within]
    exact isOrder.perm.mem_iff.mp (getElem_mem within)
  exact mem_iff_getElem?.mp member

theorem RowsOf.inRow {line byte : Nat} (within : line < rows.real_row_cnt)
    (short : byte < rows.min_row_len) :
    InRow buf rows.real_order (lineOff buf order line + byte) := by
  obtain ⟨place, found⟩ := isOrder.place buf rows valid within
  have fits := valid.stacked place _ found
  refine ⟨place, _, found, Nat.le_add_right _ _, ?_, ?_⟩
  · rw [lineOff]
    omega
  · rw [rowEnd]
    cases next : rows.real_order[place + 1]? with
    | none => exact Nat.le_refl _
    | some row =>
      have below := valid.stacked.offset_le _ _ _ _ (place + 1) row next
      exact Nat.le_trans (Nat.le_add_right _ _) below

/-- The bytes of different rows are different. -/
theorem RowsOf.apart {line other byte otherByte : Nat} (within : line < rows.real_row_cnt)
    (otherWithin : other < rows.real_row_cnt) (short : byte < rows.min_row_len)
    (otherShort : otherByte < rows.min_row_len)
    (same : lineOff buf order line + byte = lineOff buf order other + otherByte) :
    line = other ∧ byte = otherByte := by
  obtain ⟨place, found⟩ := isOrder.place buf rows valid within
  obtain ⟨otherPlace, otherFound⟩ := isOrder.place buf rows valid otherWithin
  rw [lineOff, lineOff] at same
  rcases Nat.lt_trichotomy place otherPlace with before | equal | behind
  · have gap := valid.stacked.apart _ _ _ _ place otherPlace _ _ before found otherFound
    lia
  · rw [equal, otherFound, Option.some.injEq] at found
    rw [valid.count, ← isOrder.perm.length_eq] at within otherWithin
    rw [getD_eq_getElem _ _ within, getD_eq_getElem _ _ otherWithin] at found same
    have lines := (List.Nodup.getElem_inj_iff isOrder.nodup).mp found
    exact ⟨lines.symm, by lia⟩
  · have gap := valid.stacked.apart _ _ _ _ otherPlace place _ _ behind otherFound found
    lia

omit isOrder

theorem Convertible.transposed_le :
    lineOff buf rows.real_order 0 + rows.min_row_len * rows.real_row_cnt ≤ pdSpecial buf := by
  have enough := valid.enough
  rw [minConvertCnt] at enough
  have first : 0 < rows.real_order.length := by
    rw [← valid.count]
    omega
  have bound := valid.stacked.offset_le _ _ _ _ 0 _ (getElem?_eq_getElem first)
  rw [lineOff, getD_eq_getElem _ _ first, valid.count]
  exact bound

theorem Convertible.rowEnd_eq {place : Nat} (within : place < rows.real_row_cnt) :
    rowEnd (lpOff buf) (pdSpecial buf) rows.real_order place =
      if place = rows.real_row_cnt - 1 then pdSpecial buf
      else lineOff buf rows.real_order (place + 1) := by
  rw [valid.count] at within ⊢
  rw [rowEnd]
  by_cases last : place = rows.real_order.length - 1
  · rw [if_pos last, getElem?_eq_none (by omega)]
  · have more : place + 1 < rows.real_order.length := by omega
    rw [if_neg last, getElem?_eq_getElem more, lineOff, getD_eq_getElem _ _ more]

theorem Convertible.heapRowSize_le (place : Nat) (within : place < rows.real_row_cnt) :
    rows.min_row_len ≤ heapRowSize buf rows.real_order rows.real_row_cnt place := by
  have isEnd := valid.rowEnd_eq buf rows within
  rw [valid.count] at within
  have fits := valid.stacked place _ (getElem?_eq_getElem within)
  rw [← getD_eq_getElem _ 0 within] at fits
  have own : lineOff buf rows.real_order place = lpOff buf (rows.real_order.getD place 0) := rfl
  rw [heapRowSize]
  omega

/-- No row is shorter than the least. -/
theorem Convertible.indexRowSize_le (place : Nat) (within : place < rows.real_row_cnt) :
    rows.min_row_len ≤ indexRowSize buf rows.real_order rows.real_row_cnt place := by
  have isOrder := valid.indexRows buf rows
  have ⟨spot, found⟩ := isOrder.place buf rows valid within
  rw [indexRowSize]
  generalize (normalIndexes buf).getD place 0 = itemid_idx at found ⊢
  have member : itemid_idx ∈ rows.real_order := mem_of_getElem? found
  have inside : rows.real_order.idxOf itemid_idx < rows.real_row_cnt := by
    rw [valid.count]
    exact idxOf_lt_length_of_mem member
  have here : rows.real_order[rows.real_order.idxOf itemid_idx]? = some itemid_idx :=
    getElem?_idxOf member
  have fits := valid.stacked _ _ here
  rw [valid.rowEnd_eq buf rows inside] at fits
  omega

end Rows

theorem transposed_inj {x y column line h : Nat} (right : y < h) (low : line < h)
    (same : x * h + y = column * h + line) : x = column ∧ y = line := by
  have lines : y = line := by
    have parts := congrArg (· % h) same
    rw [Nat.mul_add_mod_of_lt right, Nat.mul_add_mod_of_lt low] at parts
    exact parts
  have columns : x * h = column * h := by omega
  exact ⟨Nat.eq_of_mul_eq_mul_right (by omega) columns, lines⟩

theorem transposed_lt {x y w h : Nat} (left : x < w) (right : y < h) : x * h + y < w * h := by
  have rows : (x + 1) * h ≤ w * h := Nat.mul_le_mul_right h left
  rw [Nat.succ_mul] at rows
  omega

variable (buf : Nat → UInt8) (rows : ConvertRows)

/-- Tiled and plain conversion agree. -/
theorem RowsOf.convert_agrees
    (valid : Convertible buf rows) {order : List Nat} (isOrder : RowsOf buf rows order)
    {row_size : Nat → Nat} (long : ∀ row < rows.real_row_cnt, rows.min_row_len ≤ row_size row)
    (fits : pdSpecial buf ≤ blcksz) (machine : Machine) :
    Agrees buf (convertByte (lineOff buf order) rows.real_row_cnt) rows.min_row_len
      rows.real_row_cnt (InRow buf rows.real_order) (· < blcksz)
      (convertPart1 (lineOff buf order) machine rows.min_row_len rows.real_row_cnt
        (convertPart2 (lineOff buf order) row_size 0 rows.min_row_len rows.real_row_cnt))
      (convertPart2 (lineOff buf order) row_size 0 rows.min_row_len rows.real_row_cnt) := by
  have plain := convertPart2_covers (lineOff buf order) row_size rows.min_row_len rows.real_row_cnt
    long
  have total := valid.transposed_le buf rows
  apply Covers.agrees _ _ _ (convertPart1_covers machine valid.long plain) plain
  · intro x _ y right column _ line low same
    obtain ⟨rfl, rfl⟩ := transposed_inj right low same
    rfl
  · intro x left y right
    exact isOrder.inRow buf rows valid right left
  · intro x left y right
    have below := transposed_lt left right
    show x * rows.real_row_cnt + y < blcksz
    omega

/-- Tiled and plain conversion back agree. -/
theorem RowsOf.deconvert_agrees
    (valid : Convertible buf rows) {order : List Nat} (isOrder : RowsOf buf rows order)
    {row_size : Nat → Nat} (long : ∀ row < rows.real_row_cnt, rows.min_row_len ≤ row_size row)
    (machine : Machine) :
    Agrees buf (deconvertByte (lineOff buf order) (lineOff buf rows.real_order 0) rows.real_row_cnt)
      rows.real_row_cnt rows.min_row_len
      (fun position => lineOff buf rows.real_order 0 ≤ position ∧ position < pdSpecial buf)
      (InRow buf rows.real_order)
      (deconvertPart1 (lineOff buf order) (lineOff buf rows.real_order 0) machine rows.real_row_cnt
        rows.min_row_len (deconvertPart2 (lineOff buf order) row_size (lineOff buf rows.real_order 0)
          0 rows.min_row_len rows.real_row_cnt))
      (deconvertPart2 (lineOff buf order) row_size (lineOff buf rows.real_order 0) 0
        rows.min_row_len rows.real_row_cnt) := by
  have plain := deconvertPart2_covers (lineOff buf order) row_size (lineOff buf rows.real_order 0)
     long
  have total := valid.transposed_le buf rows
  apply Covers.agrees _ _ _ (deconvertPart1_covers machine plain) plain
  · intro x left y right column near line low same
    obtain ⟨rfl, rfl⟩ := isOrder.apart buf rows valid left near right low same
    rfl
  · intro x left y right
    have below := transposed_lt right left
    show lineOff buf rows.real_order 0 ≤ lineOff buf rows.real_order 0 + y * rows.real_row_cnt + x ∧
      lineOff buf rows.real_order 0 + y * rows.real_row_cnt + x < pdSpecial buf
    omega
  · intro x left y right
    exact isOrder.inRow buf rows valid left right

/-- On every page that passes the check and every machine, the rows are transposed and brought back
as by the plain loops, by the order of the offsets and by that of the line pointers. Only bytes of
rows are read to transpose them, and only bytes of rows are written to bring them back. -/
theorem blocked_transposition_is_plain (buf : Nat → UInt8) (fits : pdSpecial buf ≤ blcksz)
    (rows : ConvertRows) (checked : compressConvertCheck buf = some rows) (machine : Machine) :
    Agrees buf (convertByte (lineOff buf rows.real_order) rows.real_row_cnt) rows.min_row_len
        rows.real_row_cnt (InRow buf rows.real_order) (· < blcksz)
        (compressConvertHeapRowsPart1 buf rows.real_order machine rows.min_row_len rows.real_row_cnt)
        (compressConvertHeapRowsPart2 buf rows.real_order 0 rows.min_row_len rows.real_row_cnt) ∧
      Agrees buf (convertByte (lineOff buf (normalIndexes buf)) rows.real_row_cnt) rows.min_row_len
        rows.real_row_cnt (InRow buf rows.real_order) (· < blcksz)
        (compressConvertIndexKeysPart1 buf rows.real_order machine rows.min_row_len
          rows.real_row_cnt)
        (compressConvertIndexKeysPart2 buf rows.real_order 0 rows.min_row_len rows.real_row_cnt) ∧
      Agrees buf (deconvertByte (lineOff buf rows.real_order) (lineOff buf rows.real_order 0)
          rows.real_row_cnt) rows.real_row_cnt rows.min_row_len
        (fun position => lineOff buf rows.real_order 0 ≤ position ∧ position < pdSpecial buf)
        (InRow buf rows.real_order)
        (decompressDeconvertHeapRowsPart1 buf rows.real_order machine rows.min_row_len
          rows.real_row_cnt)
        (decompressDeconvertHeapRowsPart2 buf rows.real_order 0 rows.min_row_len
          rows.real_row_cnt) ∧ Agrees buf
        (deconvertByte (lineOff buf (normalIndexes buf)) (lineOff buf rows.real_order 0)
          rows.real_row_cnt) rows.real_row_cnt rows.min_row_len
        (fun position => lineOff buf rows.real_order 0 ≤ position ∧ position < pdSpecial buf)
        (InRow buf rows.real_order)
        (decompressDeconvertIndexKeysPart1 buf rows.real_order machine rows.min_row_len
          rows.real_row_cnt)
        (decompressDeconvertIndexKeysPart2 buf rows.real_order 0 rows.min_row_len
          rows.real_row_cnt) := by
  have valid := compressConvertCheck_convertible buf checked
  have heap := valid.heapRowSize_le buf rows
  have index := valid.indexRowSize_le buf rows
  exact ⟨(valid.heapRows buf rows).convert_agrees buf rows valid heap fits machine,
    (valid.indexRows buf rows).convert_agrees buf rows valid index fits machine,
    (valid.heapRows buf rows).deconvert_agrees buf rows valid heap machine,
    (valid.indexRows buf rows).deconvert_agrees buf rows valid index machine⟩

/-- A page with nine rows, whose line pointers are not in the order of the rows. -/
def nineRows : List UInt8 :=
  List.replicate 12 0 ++ leBytes 2 60 ++ leBytes 2 60 ++ leBytes 2 142 ++ leBytes 2 0x2004 ++
    List.replicate 4 0 ++
    [87, 60, 78, 69, 132, 105, 96, 123, 114].flatMap
      (fun off => leBytes 4 (off + 2 ^ 15 + 9 * 2 ^ 17)) ++
    (List.range 82).map UInt8.ofNat

/-- A block of eight rows and eight bytes is transposed, and a row and a byte are left over. -/
theorem blocked_transposition_is_plain_remainder :
    runMoves (fun position => nineRows.getD position 0) (fun position => nineRows.getD position 0)
        (compressConvertHeapRowsPart1 (fun position => nineRows.getD position 0)
          [1, 3, 2, 0, 6, 5, 8, 7, 4] .aarch64 9 9) =
      runMoves (fun position => nineRows.getD position 0) (fun position => nineRows.getD position 0)
        (compressConvertHeapRowsPart2 (fun position => nineRows.getD position 0)
          [1, 3, 2, 0, 6, 5, 8, 7, 4] 0 9 9) :=
  (blocked_transposition_is_plain (fun position => nineRows.getD position 0) (by decide)
    ⟨[1, 3, 2, 0, 6, 5, 8, 7, 4], 10, 9, 9⟩ rfl .aarch64).1.same
      (fun position => nineRows.getD position 0)

end OpenGauss.Compression
