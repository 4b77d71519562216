import OpenGauss.Cfs.HeaderRepair

/-!
# The bitmap of chunks in use

When a header is loaded and fragments are reused, the bitmap of the chunks in use is built again
from the addresses. Chunk numbers count from 1, and the bitmap has one bit for each number below
1016, as many as there are chunks of 1024 bytes: the last of these chunks already has no bit, and
half of the chunks of 512 bytes have none. Their numbers stand for bits of the padding behind the
bitmap and, further on, of the addresses. The module states when the bitmap has a bit for every
chunk in use and knows exactly these.
-/
namespace OpenGauss.Cfs

open Function OpenGauss.Base

/-- The index of a chunk size, where there is one (`ConvertChunkSize`). -/
def convertChunkSize (compressedChunkSize : Nat) : Option Nat :=
  if compressedChunkSize = blckSz / 2 then some 0
  else if compressedChunkSize = blckSz / 4 then some 1
  else if compressedChunkSize = blckSz / 8 then some 2
  else if compressedChunkSize = blckSz / 16 then some 3
  else none

/-- The bytes of an address (`SizeOfExtentAddress`). -/
def sizeOfExtentAddress (chunkSize : Nat) : Nat := 6 + 2 * chunksPerBlock chunkSize

/-- A bit of the addresses, counted from the first one: those of the checksum come first, then those
of the two counts and those of the numbers. -/
def addressBit (chunkSize : Nat) (addresses : Nat → CfsExtentAddress) (bit : Nat) : Bool :=
  let address := addresses (bit / (8 * sizeOfExtentAddress chunkSize))
  let place := bit % (8 * sizeOfExtentAddress chunkSize)
  if place < 32 then address.checksum.testBit place
  else if place < 40 then address.nchunks.testBit (place - 32)
  else if place < 48 then address.allocatedChunks.testBit (place - 40)
  else (address.chunknos ((place - 48) / 16)).testBit ((place - 48) % 16)

/-- The bit that a chunk number stands for (`CFS_BITMAP_GET`): a bit of the bitmap, of the padding
behind it, or of the addresses. -/
def usageBit (chunkSize : Nat) (header : CfsExtentHeader) (number : Nat) : Bool :=
  if number < paddedUsageBits then header.allocatedChunkUsages number
  else addressBit chunkSize header.cfsExtentAddress (number - paddedUsageBits)

/-- Set the bit of a chunk (`CFS_BITMAP_SET`). Behind the bytes of the bitmap this would change
other bytes of the header; there the model stops. -/
def cfsBitmapSet (bitmap : Nat → Bool) (number : Nat) : Option (Nat → Bool) :=
  if number < usageBits then some (update bitmap number true) else none

/-- Clear the bitmap and set the bits of the relation's blocks, chunk by chunk. There is no header
where a bit outside the bitmap is set. -/
def rebuildUsages (header : CfsExtentHeader) : Option CfsExtentHeader :=
  ((chunksOfBlocks header).foldlM cfsBitmapSet
    (writeRange header.allocatedChunkUsages 0 usageBits false)).map fun bitmap =>
      { header with
        allocatedChunkUsages := bitmap
        nFragmentChunks := sub16 (wrap16 header.allocatedChunks) (chunksOfBlocks header).length }

/-- Bits are set unless one is outside the array. -/
theorem foldlM_cfsBitmapSet (numbers : List Nat) (bitmap : Nat → Bool) :
    numbers.foldlM cfsBitmapSet bitmap =
      if ∀ number ∈ numbers, number < usageBits then some (writeAll bitmap numbers true)
      else none := by
  induction numbers generalizing bitmap with
  | nil =>
    rfl
  | cons number rest ih =>
    rw [List.foldlM_cons, cfsBitmapSet]
    by_cases inside : number < usageBits
    · rw [if_pos inside]
      show List.foldlM cfsBitmapSet (update bitmap number true) rest = _
      have merged : writeAll (update bitmap number true) rest true =
          writeAll bitmap (number :: rest) true := by
        funext other
        simp only [writeAll]
        by_cases first : other = number <;> simp [first]
      simp only [ih, merged, List.forall_mem_cons, inside, true_and]
    · rw [if_neg inside, if_neg (fun each => inside (each number List.mem_cons_self))]
      rfl

/-- Every chunk in use has a bit in the bitmap. -/
def NumbersFit (header : CfsExtentHeader) : Prop :=
  ∀ number ∈ chunksOfBlocks header, number < usageBits

instance (header : CfsExtentHeader) : Decidable (NumbersFit header) :=
  inferInstanceAs (Decidable (∀ number ∈ chunksOfBlocks header, number < usageBits))

/-- The bits behind the bitmap that chunk numbers stand for are clear. -/
def ClearBehind (chunkSize : Nat) (header : CfsExtentHeader) : Prop :=
  ∀ number, usageBits ≤ number → number ≤ maxLogicChunksNumber chunkSize →
    usageBit chunkSize header number = false

/-- The bitmap can be built again in its own bytes, and then the bit of a chunk is set exactly if a
block of the relation has the chunk. -/
def BitmapCovers (chunkSize : Nat) (header : CfsExtentHeader) : Prop :=
  ∃ after, rebuildUsages header = some after ∧
    ∀ number, 1 ≤ number → number ≤ maxLogicChunksNumber chunkSize →
      (usageBit chunkSize after number = true ↔ number ∈ chunksOfBlocks header)

section Rebuild

variable (header : CfsExtentHeader)

theorem rebuildUsages_of_fit (fit : NumbersFit header) :
    rebuildUsages header = some (constructUsages header) := by
  have numbers : ∀ number ∈ chunksOfBlocks header, number < usageBits := fit
  rw [rebuildUsages, foldlM_cfsBitmapSet, if_pos numbers]
  rfl

theorem rebuildUsages_of_stray (stray : ¬NumbersFit header) : rebuildUsages header = none := by
  have numbers : ¬∀ number ∈ chunksOfBlocks header, number < usageBits := stray
  rw [rebuildUsages, foldlM_cfsBitmapSet, if_neg numbers]
  rfl

theorem constructUsages_bit (chunkSize number : Nat) (inside : number < usageBits) :
    usageBit chunkSize (constructUsages header) number = true ↔ number ∈ chunksOfBlocks header := by
  have padded : number < paddedUsageBits := lt_of_lt_of_le inside (by decide)
  rw [usageBit, if_pos padded]
  show writeAll _ (chunksOfBlocks header) true number = true ↔ _
  by_cases listed : number ∈ chunksOfBlocks header
  · rw [writeAll_listed _ _ _ listed]
    exact ⟨fun _ => listed, fun _ => rfl⟩
  · have low : 0 ≤ number := Nat.zero_le number
    rw [writeAll_unlisted _ _ _ listed,
      writeRange_inside _ _ _ _ _ low (by rw [Nat.zero_add]; exact inside)]
    exact ⟨fun set => absurd set Bool.false_ne_true, fun held => absurd held listed⟩

/-- The bits behind the array stay. -/
theorem constructUsages_behind (chunkSize : Nat) {number : Nat} (fit : NumbersFit header)
    (behind : usageBits ≤ number) :
    usageBit chunkSize (constructUsages header) number = usageBit chunkSize header number := by
  have unlisted : number ∉ chunksOfBlocks header :=
    fun listed => absurd (fit number listed) (Nat.not_lt.mpr behind)
  rw [usageBit, usageBit]
  by_cases padded : number < paddedUsageBits
  · rw [if_pos padded, if_pos padded]
    show writeAll _ (chunksOfBlocks header) true number = _
    rw [writeAll_unlisted _ _ _ unlisted]
    exact if_neg fun range => by
      have high := range.2
      exact absurd high (Nat.not_lt.mpr behind)
  · rw [if_neg padded, if_neg padded]
    rfl

/-- The bitmap covers the chunks exactly if all chunks in use have bits in it, and the bits behind
it that other chunk numbers stand for are clear. -/
theorem usage_bitmap_covers_iff (chunkSize : Nat) :
    BitmapCovers chunkSize header ↔ NumbersFit header ∧ ClearBehind chunkSize header := by
  constructor
  · rintro ⟨after, rebuilt, exactly⟩
    have fit : NumbersFit header := by
      by_contra stray
      rw [rebuildUsages_of_stray header stray] at rebuilt
      exact absurd rebuilt (by simp)
    refine ⟨fit, ?_⟩
    rw [rebuildUsages_of_fit header fit, Option.some.injEq] at rebuilt
    intro number behind inExtent
    have positive : 1 ≤ number := le_trans (by decide) behind
    have bit := exactly number positive inExtent
    rw [← rebuilt, constructUsages_behind header chunkSize fit behind] at bit
    have unlisted : number ∉ chunksOfBlocks header :=
      fun listed => absurd (fit number listed) (Nat.not_lt.mpr behind)
    exact Bool.not_eq_true _ ▸ mt bit.mp unlisted
  · rintro ⟨fit, clear⟩
    refine ⟨constructUsages header, rebuildUsages_of_fit header fit, ?_⟩
    intro number positive inExtent
    by_cases inside : number < usageBits
    · exact constructUsages_bit header chunkSize number inside
    · have behind := Nat.le_of_not_lt inside
      rw [constructUsages_behind header chunkSize fit behind, clear number behind inExtent]
      refine ⟨fun set => absurd set Bool.false_ne_true, fun listed => ?_⟩
      exact absurd (fit number listed) inside

end Rebuild

example : maxLogicChunksNumber 4096 < usageBits ∧ maxLogicChunksNumber 2048 < usageBits := by
  decide

/-- A header whose first block has the last eight chunks of 1024 bytes. -/
def lastChunksHeader : CfsExtentHeader :=
  { initExtentHeader { chunkSize := 1024, algorithm := 1 } with
    nblocks := 1
    allocatedChunks := 1016
    cfsExtentAddress := update (fun _ => zeroAddress) 0
      { checksum := addrChecksum32 { zeroAddress with
          nchunks := 8
          allocatedChunks := 8
          chunknos := fun index => if index < 8 then 1009 + index else 0 }
        nchunks := 8
        allocatedChunks := 8
        chunknos := fun index => if index < 8 then 1009 + index else 0 } }

/-- The last chunk of 1024 bytes has no bit in the bitmap. -/
theorem usage_bitmap_misses_last_chunk : 1024 ∈ chunkSizeList ∧ convertChunkSize 1024 = some 2 ∧
      (∀ block < logicBlocksPerExtent, (lastChunksHeader.cfsExtentAddress block).held =
        if block = 0 then [1009, 1010, 1011, 1012, 1013, 1014, 1015, 1016] else []) ∧
      maxLogicChunksNumber 1024 = 1016 ∧ ¬BitmapCovers 1024 lastChunksHeader := by
  refine ⟨by decide, by decide, by decide, by decide, ?_⟩
  rintro ⟨after, rebuilt, -⟩
  rw [rebuildUsages_of_stray lastChunksHeader (by decide)] at rebuilt
  exact absurd rebuilt (by simp)

end OpenGauss.Cfs
