import OpenGauss.Base.Bytes
import OpenGauss.Base.Scatter
import Mathlib.Data.List.Induction

/-!
# Pages whose rows are rearranged

Before a page is compressed its rows are rearranged. `CompressConvertCheck` of
`page_compression_impl.h` decides whether they may be: the rows are ordered by their offset, and
there have to be enough of them, none too short and none much longer than another. The module has the
page with its line pointers and the check, and what the check ensures: the rows stand one after the
other in the page, each at least as long as the shortest.
-/
namespace OpenGauss.Compression

open List OpenGauss.Base

/-- The size of a page (`BLCKSZ`). -/
def blcksz : Nat := 8192

/-- The least rows (`MIN_CONVERT_CNT`). -/
def minConvertCnt : Nat := 4

/-- The most by which rows may differ in length (`MIN_DIFF_SIZE`). -/
def minDiffSize : Nat := 64

/-- The layout version of a page with 64 bit transaction identifiers. -/
def pgHeapPageLayoutVersion : Nat := 6

/-- The size of the header of a page (`GetPageHeaderSize`). -/
def getPageHeaderSize (buf : Nat → UInt8) : Nat :=
  if leNat (pread buf 18 2) % 256 = pgHeapPageLayoutVersion then 40 else 24

/-- The end of the line pointers. -/
def pdLower (buf : Nat → UInt8) : Nat := leNat (pread buf 12 2)

/-- The start of the rows. -/
def pdUpper (buf : Nat → UInt8) : Nat := leNat (pread buf 14 2)

/-- The end of the rows. -/
def pdSpecial (buf : Nat → UInt8) : Nat := leNat (pread buf 16 2)

/-- A line pointer, 32 bits. -/
def getItemIdByIdx (buf : Nat → UInt8) (index : Nat) : Nat :=
  leNat (pread buf (getPageHeaderSize buf + index * 4) 4)

/-- The offset of a row. -/
def lpOff (buf : Nat → UInt8) (index : Nat) : Nat := getItemIdByIdx buf index % 2 ^ 15

/-- A line pointer has a row (`ItemIdIsNormal`). -/
def itemIdIsNormal (buf : Nat → UInt8) (index : Nat) : Bool :=
  getItemIdByIdx buf index / 2 ^ 15 % 4 == 1

/-- The number of line pointers. -/
def rowCnt (buf : Nat → UInt8) : Nat := (pdLower buf - getPageHeaderSize buf) / 4

/-- The line pointers with rows. -/
def normalIndexes (buf : Nat → UInt8) : List Nat :=
  (List.range (rowCnt buf)).filter (itemIdIsNormal buf)

/-- Insert a row before the first that is not before it. -/
def insertBehind (lp_off : Nat → Nat) (index : Nat) : List Nat → List Nat
  | [] => [index]
  | curr :: rest =>
    if lp_off curr < lp_off index then curr :: insertBehind lp_off index rest
    else index :: curr :: rest

/-- Insert a row into the rows that are linked by their offset. -/
def linkRow (lp_off : Nat → Nat) (link : List Nat) (index : Nat) : List Nat :=
  match link with
  | [] => [index]
  | head :: rest =>
    if lp_off index < lp_off head then index :: head :: rest
    else head :: insertBehind lp_off index rest

/-- The line pointers with rows by the offset of their rows (`CompressConvertItemRealOrder`). -/
def compressConvertItemRealOrder (buf : Nat → UInt8) : List Nat :=
  (normalIndexes buf).foldl (linkRow (lpOff buf)) []

/-- The longest and the shortest of the rows, from the last to the first; no result if a row is too
short or two differ too much. -/
def checkRows (lp_off : Nat → Nat) : List Nat → Nat → Nat → Nat → Option (Nat × Nat)
  | [], _, max_size, min_size => some (max_size, min_size)
  | row :: rest, up, max_size, min_size =>
    if up < lp_off row + minConvertCnt * 2 then none
    else
      let row_size := up - lp_off row
      let min_size := if row_size < min_size then row_size else min_size
      let max_size := if max_size < row_size then row_size else max_size
      if minDiffSize < max_size - min_size then none
      else checkRows lp_off rest (lp_off row) max_size min_size

/-- What the check finds. -/
structure ConvertRows where
  real_order : List Nat
  max_row_len : Nat
  min_row_len : Nat
  real_row_cnt : Nat

/-- Whether the rows of a page may be rearranged. -/
def compressConvertCheck (buf : Nat → UInt8) : Option ConvertRows :=
  if pdLower buf < getPageHeaderSize buf ∨ pdUpper buf < pdLower buf then none
  else if (normalIndexes buf).length < minConvertCnt then none
  else
    (checkRows (lpOff buf) (compressConvertItemRealOrder buf).reverse (pdSpecial buf) 0 0xFFFF).map
      fun sizes => ⟨compressConvertItemRealOrder buf, sizes.1, sizes.2, (normalIndexes buf).length⟩

variable (buf : Nat → UInt8) (lp_off : Nat → Nat) (up least : Nat) (real_order : List Nat)

theorem insertBehind_perm (index : Nat) (rows : List Nat) :
    (insertBehind lp_off index rows).Perm (index :: rows) := by
  induction rows with
  | nil => exact List.Perm.refl _
  | cons curr rest ih =>
    rw [insertBehind]
    split
    · exact (ih.cons curr).trans (List.Perm.swap index curr rest)
    · exact List.Perm.refl _

theorem linkRow_perm (link : List Nat) (index : Nat) :
    (linkRow lp_off link index).Perm (index :: link) := by
  match link with
  | [] => exact List.Perm.refl _
  | head :: rest =>
    rw [linkRow]
    split
    · exact List.Perm.refl _
    · exact ((insertBehind_perm lp_off index rest).cons head).trans (List.Perm.swap index head rest)

theorem compressConvertItemRealOrder_perm :
    (compressConvertItemRealOrder buf).Perm (normalIndexes buf) := by
  have linked (indexes link : List Nat) :
      (indexes.foldl (linkRow (lpOff buf)) link).Perm (indexes ++ link) := by
    induction indexes generalizing link with
    | nil => exact List.Perm.refl _
    | cons index rest ih =>
      exact (ih _).trans (((linkRow_perm (lpOff buf) link index).append_left rest).trans
        perm_middle)
  have all := linked (normalIndexes buf) []
  rw [append_nil] at all
  exact all

theorem compressConvertItemRealOrder_nodup : (compressConvertItemRealOrder buf).Nodup :=
  (compressConvertItemRealOrder_perm buf).nodup_iff.mpr (nodup_range.filter _)

/-- The end of a row: the start of the next one, or the end of the rows. -/
def rowEnd (lp_off : Nat → Nat) (up : Nat) (real_order : List Nat) (place : Nat) : Nat :=
  match real_order[place + 1]? with
  | none => up
  | some next => lp_off next

/-- Rows in the order of their offsets that stand one after the other, each of a least length. -/
def Stacked (lp_off : Nat → Nat) (up least : Nat) (real_order : List Nat) : Prop :=
  ∀ place row, real_order[place]? = some row →
    lp_off row + least ≤ rowEnd lp_off up real_order place

theorem rowEnd_append (up : Nat) (before : List Nat) (last place : Nat)
    (within : place < before.length) :
    rowEnd lp_off up (before ++ [last]) place = rowEnd lp_off (lp_off last) before place := by
  rw [rowEnd, rowEnd]
  by_cases end' : place + 1 = before.length
  · rw [getElem?_append_right (by omega), end', Nat.sub_self,
      getElem?_eq_none (Nat.le_refl _)]
    rfl
  · have more : place + 1 < before.length := by omega
    rw [getElem?_append_left more, getElem?_eq_getElem more]

/-- The rows that are accepted are stacked. -/
theorem checkRows_stacked (up max_size min_size : Nat) (sizes : Nat × Nat)
    (result : checkRows lp_off real_order.reverse up max_size min_size = some sizes) :
    sizes.2 ≤ min_size ∧ Stacked lp_off up sizes.2 real_order ∧
      (minConvertCnt * 2 ≤ min_size → minConvertCnt * 2 ≤ sizes.2) := by
  induction real_order using List.reverseRecOn generalizing up max_size min_size with
  | nil =>
    rw [reverse_nil, checkRows, Option.some.injEq] at result
    rw [← result]
    refine ⟨Nat.le_refl _, ?_, id⟩
    intro place row absent
    exact nomatch absent
  | append_singleton before last ih =>
    rw [reverse_append, reverse_singleton, singleton_append, checkRows] at result
    by_cases short : up < lp_off last + minConvertCnt * 2
    · rw [if_pos short] at result
      exact nomatch result
    · rw [if_neg short] at result
      dsimp only at result
      generalize isMin : (if up - lp_off last < min_size then up - lp_off last else min_size) = shortest at result
      generalize (if max_size < up - lp_off last then up - lp_off last else max_size) = longest at result
      by_cases differ : minDiffSize < longest - shortest
      · rw [if_pos differ] at result
        exact nomatch result
      · rw [if_neg differ] at result
        obtain ⟨less, stacked, least⟩ := ih (lp_off last) longest shortest result
        have bounds : sizes.2 ≤ min_size ∧ sizes.2 ≤ up - lp_off last := by
          split at isMin <;> grind
        refine ⟨bounds.1, ?_, ?_⟩
        · intro place row found
          by_cases old : place < before.length
          · rw [getElem?_append_left old] at found
            rw [rowEnd_append lp_off up before last place old]
            exact stacked place row found
          · have within := (List.getElem?_eq_some_iff.mp found).1
            rw [length_append, length_singleton] at within
            obtain rfl : place = before.length := by lia
            rw [getElem?_append_right (Nat.le_refl _), Nat.sub_self] at found
            have isLast : last = row := Option.some.inj found
            rw [rowEnd, getElem?_eq_none (by rw [length_append, length_singleton])]
            lia
        · intro enough
          apply least
          split at isMin <;> lia

/-- Stacked rows end below the upper bound. -/
theorem Stacked.offset_le (stacked : Stacked lp_off up least real_order) (place row : Nat)
    (found : real_order[place]? = some row) :
    lp_off row + least * (real_order.length - place) ≤ up := by
  have within := (List.getElem?_eq_some_iff.mp found).1
  obtain ⟨behind, isBehind⟩ : ∃ behind, real_order.length = place + 1 + behind :=
    ⟨real_order.length - (place + 1), by omega⟩
  induction behind generalizing place row with
  | zero =>
    have last := stacked place row found
    rw [rowEnd, getElem?_eq_none (by omega)] at last
    have one : real_order.length - place = 1 := by lia
    rw [one, Nat.mul_one]
    exact last
  | succ behind ih =>
    have more : place + 1 < real_order.length := by omega
    have next := getElem?_eq_getElem more
    have here := stacked place row found
    have rest := ih (place + 1) _ next more (by lia)
    rw [rowEnd, next] at here
    have count : real_order.length - place = real_order.length - (place + 1) + 1 := by lia
    rw [count, Nat.mul_succ]
    dsimp only at here
    omega

/-- Stacked rows lie apart. -/
theorem Stacked.apart (stacked : Stacked lp_off up least real_order) (place later row other : Nat)
    (before : place < later) (found : real_order[place]? = some row)
    (otherFound : real_order[later]? = some other) : lp_off row + least ≤ lp_off other := by
  induction later generalizing other with
  | zero => exact absurd before (Nat.not_lt_zero _)
  | succ later ih =>
    have here := stacked later
    have within : later < real_order.length := by
      have last := (List.getElem?_eq_some_iff.mp otherFound).1
      omega
    have step := here _ (getElem?_eq_getElem within)
    rw [rowEnd, otherFound] at step
    dsimp only at step
    by_cases next : place = later
    · subst next
      rw [getElem?_eq_getElem within, Option.some.injEq] at found
      rw [← found]
      exact step
    · have between := ih _ (by omega) (getElem?_eq_getElem within)
      omega

/-- What the check ensures of a page. -/
structure Convertible (buf : Nat → UInt8) (rows : ConvertRows) : Prop where
  order : rows.real_order = compressConvertItemRealOrder buf
  count : rows.real_row_cnt = rows.real_order.length
  enough : minConvertCnt ≤ rows.real_row_cnt
  long : minConvertCnt * 2 ≤ rows.min_row_len
  stacked : Stacked (lpOff buf) (pdSpecial buf) rows.min_row_len rows.real_order

/-- What the check accepts can be converted. -/
theorem compressConvertCheck_convertible {rows : ConvertRows}
    (result : compressConvertCheck buf = some rows) : Convertible buf rows := by
  rw [compressConvertCheck] at result
  by_cases header : pdLower buf < getPageHeaderSize buf ∨ pdUpper buf < pdLower buf
  · rw [if_pos header] at result
    exact nomatch result
  · rw [if_neg header] at result
    by_cases few : (normalIndexes buf).length < minConvertCnt
    · rw [if_pos few] at result
      exact nomatch result
    · rw [if_neg few] at result
      obtain ⟨sizes, checked, rfl⟩ := Option.map_eq_some_iff.mp result
      have ⟨_, stacked, long⟩ := checkRows_stacked (lpOff buf) _ _ _ _ _ checked
      exact {
        order := rfl
        count := (compressConvertItemRealOrder_perm buf).length_eq.symm
        enough := Nat.not_lt.mp few
        long := long (by decide)
        stacked := stacked }

end OpenGauss.Compression
