import Mathlib.Data.List.Basic
import Mathlib.Tactic.Ring
import Mathlib.Tactic.Linarith

/-!
# Byte images

Memory is a list of bytes. A `Layout` is a fixed-width bijection between a type
and its images, so a value that is copied byte by byte is known at every point
of the copy. Words are little endian. `slice` and `overwrite` are the two
directions of a bounded memory copy, and the lemmas below say how adjacent
copies compose.
-/
namespace OpenGauss.Base

open List

/-- Low byte first base-256 digits of a word. -/
def leBytes : Nat → Nat → List UInt8
  | 0, _ => []
  | width + 1, value => UInt8.ofNat value :: leBytes width (value / 256)

/-- The word a run of low-byte-first digits denotes. -/
def leNat : List UInt8 → Nat
  | [] => 0
  | digit :: rest => digit.toNat + 256 * leNat rest

/-- A number is written in as many bytes as asked for. -/
@[simp] theorem leBytes_length (width value : Nat) : (leBytes width value).length = width := by
  induction width generalizing value with
  | zero => rfl
  | succ width ih => simp [leBytes, ih]

variable (width value : Nat) (bytes : List UInt8) (position : Nat) (patch : List UInt8)
  (start count : Nat)

/-- Reading the bytes back gives the number modulo their range. -/
theorem leNat_leBytes_mod : leNat (leBytes width value) = value % 256 ^ width := by
  induction width generalizing value with
  | zero => simp [leBytes, leNat, Nat.mod_one]
  | succ width ih =>
    have low : (UInt8.ofNat value).toNat = value % 256 := UInt8.toNat_ofNat'
    rw [leBytes, leNat, ih, low, Nat.pow_succ, Nat.mul_comm (256 ^ width) 256, Nat.mod_mul]

/-- A number that fits its bytes is read back. -/
theorem leNat_leBytes (fits : value < 256 ^ width) : leNat (leBytes width value) = value := by
  rw [leNat_leBytes_mod, Nat.mod_eq_of_lt fits]

/-- The number of some bytes is below their range. -/
theorem leNat_lt : leNat bytes < 256 ^ bytes.length := by
  induction bytes with
  | nil => simp [leNat]
  | cons digit rest ih =>
    have low := digit.toNat_lt
    simp only [leNat, length_cons]
    omega

/-- Writing the number of some bytes gives the bytes back. -/
theorem leBytes_leNat : leBytes bytes.length (leNat bytes) = bytes := by
  induction bytes with
  | nil => rfl
  | cons digit rest ih =>
    have low := digit.toNat_lt
    have high : (digit.toNat + 256 * leNat rest) / 256 = leNat rest := by lia
    simp only [leNat, length_cons, leBytes, high, ih, List.cons.injEq, and_true]
    apply UInt8.toNat_inj.mp
    rw [UInt8.toNat_ofNat']
    lia

/-- A fixed-width memory image: reading and writing are inverse to each other. -/
structure Layout (α : Type) where
  size : Nat
  write : α → List UInt8
  read : List UInt8 → α
  write_length : ∀ value, (write value).length = size
  read_write : ∀ value, read (write value) = value
  write_read : ∀ bytes, bytes.length = size → write (read bytes) = bytes

/-- Two fields laid out one after the other without padding. -/
def Layout.pair {α β : Type} (left : Layout α) (right : Layout β) : Layout (α × β) where
  size := left.size + right.size
  write value := left.write value.1 ++ right.write value.2
  read bytes := (left.read (bytes.take left.size), right.read (bytes.drop left.size))
  write_length := by
    intro value
    simp [left.write_length, right.write_length]
  read_write := by
    intro value
    simp [left.write_length, left.read_write, right.read_write]
  write_read := by
    intro bytes width
    rw [left.write_read _ (by simp; omega), right.write_read _ (by simp; omega)]
    exact take_append_drop left.size bytes

/-- The same image seen through a change of representation. -/
def Layout.iso {α β : Type} (layout : Layout α) (pack : α → β) (unpack : β → α)
    (packed : ∀ value, pack (unpack value) = value)
    (unpacked : ∀ value, unpack (pack value) = value) : Layout β where
  size := layout.size
  write value := layout.write (unpack value)
  read bytes := pack (layout.read bytes)
  write_length := by intro value; exact layout.write_length _
  read_write := by intro value; simp [layout.read_write, packed]
  write_read := by intro bytes width; simp [unpacked, layout.write_read bytes width]

/-- Values with the same bytes are the same. -/
theorem Layout.write_injective {α : Type} (layout : Layout α) {left right : α}
    (same : layout.write left = layout.write right) : left = right := by
  rw [← layout.read_write left, same, layout.read_write]

/-- One unsigned byte. -/
def u8 : Layout UInt8 where
  size := 1
  write value := [value]
  read bytes := bytes.headD 0
  write_length := by intro value; rfl
  read_write := by intro value; rfl
  write_read := by
    intro bytes width
    obtain ⟨byte, rfl⟩ := length_eq_one_iff.mp width
    rfl

/-- Two-byte unsigned word. -/
def u16 : Layout UInt16 where
  size := 2
  write value := leBytes 2 value.toNat
  read bytes := UInt16.ofNat (leNat bytes)
  write_length := by intro value; simp
  read_write := by
    intro value
    rw [leNat_leBytes 2 _ value.toNat_lt, UInt16.ofNat_toNat]
  write_read := by
    intro bytes width
    have fits := leNat_lt bytes
    rw [width] at fits
    rw [UInt16.toNat_ofNat_of_lt' fits, ← width, leBytes_leNat]

/-- Four-byte unsigned word. -/
def u32 : Layout UInt32 where
  size := 4
  write value := leBytes 4 value.toNat
  read bytes := UInt32.ofNat (leNat bytes)
  write_length := by intro value; simp
  read_write := by
    intro value
    rw [leNat_leBytes 4 _ value.toNat_lt, UInt32.ofNat_toNat]
  write_read := by
    intro bytes width
    have fits := leNat_lt bytes
    rw [width] at fits
    rw [UInt32.toNat_ofNat_of_lt' fits, ← width, leBytes_leNat]

/-- Eight-byte unsigned word. -/
def u64 : Layout UInt64 where
  size := 8
  write value := leBytes 8 value.toNat
  read bytes := UInt64.ofNat (leNat bytes)
  write_length := by intro value; simp
  read_write := by
    intro value
    rw [leNat_leBytes 8 _ value.toNat_lt, UInt64.ofNat_toNat]
  write_read := by
    intro bytes width
    have fits := leNat_lt bytes
    rw [width] at fits
    rw [UInt64.toNat_ofNat_of_lt' fits, ← width, leBytes_leNat]

/-- The bytes a bounded copy takes out of a memory. -/
def slice (bytes : List UInt8) (position count : Nat) : List UInt8 :=
  (bytes.drop position).take count

/-- The memory after a bounded copy into it. -/
def overwrite (bytes : List UInt8) (position : Nat) (patch : List UInt8) : List UInt8 :=
  bytes.take position ++ patch ++ bytes.drop (position + patch.length)

/-- A slice inside the bytes has the length asked for. -/
theorem slice_length (position count : Nat)
    (inside : position + count ≤ bytes.length) : (slice bytes position count).length = count := by
  simp [slice]
  omega

/-- A slice splits into two that follow each other. -/
theorem slice_add (position first second : Nat) : slice bytes position (first + second) =
      slice bytes position first ++ slice bytes (position + first) second := by
  simp only [slice, take_add, drop_drop]

/-- A slice of a slice is a slice of the bytes. -/
theorem slice_slice (position count skip inner : Nat) (inside : skip + inner ≤ count) :
    slice (slice bytes position count) skip inner = slice bytes (position + skip) inner := by
  simp only [slice, drop_take, drop_drop, take_take]
  rw [Nat.min_eq_left (by omega)]

/-- A slice inside the left part does not see the right one. -/
theorem slice_append_left (left right : List UInt8) {position count : Nat}
    (inside : position + count ≤ left.length) :
    slice (left ++ right) position count = slice left position count := by
  unfold slice
  rw [drop_append_of_le_length (by omega), take_append_of_le_length (by simp; omega)]

/-- Dropping a front moves a slice. -/
theorem slice_drop (skip position count : Nat) :
    slice (bytes.drop skip) position count = slice bytes (skip + position) count := by
  unfold slice
  rw [drop_drop]

/-- A patch inside the bytes keeps their length. -/
theorem overwrite_length (inside : position + patch.length ≤ bytes.length) :
    (overwrite bytes position patch).length = bytes.length := by
  simp [overwrite]
  lia

/-- An empty patch changes nothing. -/
@[simp] theorem overwrite_nil (bytes : List UInt8) (position : Nat) :
    overwrite bytes position [] = bytes := by
  simp [overwrite]

/-- Two patches that follow each other are one. -/
theorem overwrite_overwrite (first second : List UInt8)
    (inside : position + first.length ≤ bytes.length) :
    overwrite (overwrite bytes position first) (position + first.length) second =
      overwrite bytes position (first ++ second) := by
  have front : (bytes.take position ++ first).length = position + first.length := by
    simp
    omega
  unfold overwrite
  rw [take_left' front, ← drop_drop, drop_left' front, drop_drop, length_append]
  simp only [append_assoc, Nat.add_assoc]

/-- A patch keeps what is before it. -/
theorem take_overwrite
    (inside : position ≤ bytes.length) : (overwrite bytes position patch).take position =
      bytes.take position := by
  unfold overwrite
  rw [append_assoc, take_left' (by simp; omega)]

/-- From its position on, the patch stands before the rest. -/
theorem drop_overwrite
    (inside : position ≤ bytes.length) : (overwrite bytes position patch).drop position =
      patch ++ bytes.drop (position + patch.length) := by
  unfold overwrite
  rw [append_assoc, drop_left' (by simp; omega)]

/-- Up to its end, the patch stands behind what was before it. -/
theorem take_overwrite_end (inside : position ≤ bytes.length) :
    (overwrite bytes position patch).take (position + patch.length) =
      bytes.take position ++ patch := by
  unfold overwrite
  rw [take_left' (by simp; omega)]

/-- A patch keeps a slice before it. -/
theorem slice_overwrite_before (before : start + count ≤ position) (inside : position ≤ bytes.length) :
    slice (overwrite bytes position patch) start count = slice bytes start count := by
  unfold overwrite
  rw [append_assoc, slice_append_left _ _ (by simp; lia)]
  simp only [slice, drop_take, take_take]
  rw [Nat.min_eq_left (by omega)]

/-- A patch keeps a slice behind it. -/
theorem slice_overwrite_after (after : position + patch.length ≤ start)
    (inside : position ≤ bytes.length) :
    slice (overwrite bytes position patch) start count = slice bytes start count := by
  obtain ⟨skip, rfl⟩ := Nat.exists_eq_add_of_le after
  have front : (bytes.take position ++ patch).length = position + patch.length := by
    simp
    omega
  unfold overwrite slice
  rw [← drop_drop, drop_left' front, drop_drop]

/-- A slice inside the patch is read from the patch. -/
theorem slice_overwrite_inside (fits : start + count ≤ patch.length)
    (inside : position ≤ bytes.length) :
    slice (overwrite bytes position patch) (position + start) count = slice patch start count := by
  rw [← slice_drop, drop_overwrite bytes position patch inside, slice_append_left _ _ fits]

/-- The slice of the whole length is everything. -/
theorem slice_whole : slice bytes 0 bytes.length = bytes := by
  simp [slice]

/-- A slice inside a front is a slice of the bytes. -/
theorem slice_take (limit position count : Nat) (inside : position + count ≤ limit) :
    slice (bytes.take limit) position count = slice bytes position count := by
  simp only [slice, drop_take, take_take]
  rw [Nat.min_eq_left (by omega)]

end OpenGauss.Base
