import OpenGauss.Cfs.ChunkPlacement

/-!
# One allocation with reuse of fragments

Where fragments are reused, the header keeps an account of its chunks: the chunks of a block follow
each other, no two blocks share one, the bitmap has exactly the bits of the chunks in use, and a
counter has the number of the others. A block that grows first gives its chunks back. It then gets
new ones at the end, beside its old place, from the first free run or behind all others, and each
way changes the counter by another amount. The module proves that the account stays right in all
four, exactly if the numbers given out stay inside the bitmap.
-/
namespace OpenGauss.Cfs

open Function OpenGauss.Base

/-- By how much the highest chunk number grows when a block is given the chunks it needs. -/
def extendedBy (header : CfsExtentHeader) (address : CfsExtentAddress) (needChunks : Nat) : Nat :=
  if isAtTail header address then needChunks - address.allocatedChunks
  else if RoomBeside header address needChunks ∨ RoomFromHead header address needChunks then 0
  else needChunks

/-- The chunk numbers that a block's growth gives out stay inside the bitmap. -/
def FitsBitmap (header : CfsExtentHeader) (block needChunks : Nat) : Prop :=
  (header.cfsExtentAddress block).allocatedChunks < needChunks →
    header.allocatedChunks + extendedBy header (header.cfsExtentAddress block) needChunks <
      usageBits

/-- The header after one block was given the chunks it needs (`ExtendChunksOfBlock`). -/
def extendChunksOfBlock (header : CfsExtentHeader) (block needChunks actualUse : Nat) :
    CfsExtentHeader :=
  let extended := extendChunksOfBlockCore true header (header.cfsExtentAddress block) needChunks
    actualUse
  { extended.2.1 with
    cfsExtentAddress := update header.cfsExtentAddress block extended.2.2 }

/-- The account that a header keeps of its chunks is right. -/
structure Accounted (header : CfsExtentHeader) : Prop where
  adjacent : ∀ block < logicBlocksPerExtent,
    ∀ index < (header.cfsExtentAddress block).allocatedChunks,
      (header.cfsExtentAddress block).chunknos index =
        (header.cfsExtentAddress block).chunknos 0 + index
  disjoint : ∀ first < logicBlocksPerExtent, ∀ second < logicBlocksPerExtent, first ≠ second →
    ∀ number ∈ (header.cfsExtentAddress first).held, number ∉ (header.cfsExtentAddress second).held
  range : ∀ block < logicBlocksPerExtent, ∀ number ∈ (header.cfsExtentAddress block).held,
    1 ≤ number ∧ number ≤ header.allocatedChunks
  bits : header.allocatedChunks < usageBits
  usages : ∀ number < usageBits, header.allocatedChunkUsages number = true ↔
    ∃ block < logicBlocksPerExtent, number ∈ (header.cfsExtentAddress block).held
  fragments : header.nFragmentChunks = clearUpTo header.allocatedChunkUsages header.allocatedChunks

/-- One allocation keeps the account right, gives the block enough chunks and leaves the others. -/
structure Allocates (header : CfsExtentHeader) (block needChunks actualUse : Nat) : Prop where
  accounted : Accounted (extendChunksOfBlock header block needChunks actualUse)
  enough : needChunks ≤ ((extendChunksOfBlock header block needChunks actualUse).cfsExtentAddress
    block).allocatedChunks
  others : ∀ other, other ≠ block →
    (extendChunksOfBlock header block needChunks actualUse).cfsExtentAddress other =
      header.cfsExtentAddress other

/-- The counters and the last chunk of a block that was given the chunks it needs. -/
structure Counted (header : CfsExtentHeader) (address : CfsExtentAddress) (needChunks : Nat)
    (result : CfsExtentHeader × CfsExtentAddress) : Prop where
  count : result.2.allocatedChunks = needChunks
  highest : result.1.allocatedChunks = header.allocatedChunks + extendedBy header address needChunks
  fragments : result.1.nFragmentChunks =
    sub16 (wrap16 (header.nFragmentChunks + address.allocatedChunks))
      (needChunks - extendedBy header address needChunks)
  last : 0 < extendedBy header address needChunks → result.2.chunknos (needChunks - 1) =
      wrap16 (header.allocatedChunks + extendedBy header address needChunks)

section Counters

variable (header : CfsExtentHeader) (address : CfsExtentAddress) (needChunks : Nat)

variable (result : CfsExtentHeader × CfsExtentAddress)

variable {address needChunks}

/-- Growth at the tail is counted. -/
theorem extendDeltaChunksAtTail_counted (short : address.allocatedChunks < needChunks)
    (adjacent : ∀ index < address.allocatedChunks,
      address.chunknos index = address.chunknos 0 + index)
    (room : header.allocatedChunks + needChunks < 4294967296)
    (atTail : isAtTail header address = true) (grown : extendDeltaChunksAtTail
        { releaseChunks header address with
          allocatedChunks := wrap32 ((releaseChunks header address).allocatedChunks +
            (needChunks - address.allocatedChunks)) }
        { address with allocatedChunks := 0 } address.allocatedChunks needChunks = some result) :
    Counted header address needChunks result := by
  have extended : extendedBy header address needChunks = needChunks - address.allocatedChunks :=
    if_pos atTail
  have highest : wrap32 (header.allocatedChunks + (needChunks - address.allocatedChunks)) =
      header.allocatedChunks + (needChunks - address.allocatedChunks) := by
    rw [wrap32]
    lia
  have back : needChunks - (needChunks - address.allocatedChunks) = address.allocatedChunks := by
    omega
  simp only [isAtTail] at atTail
  rw [extendDeltaChunksAtTail] at grown
  by_cases absent : address.chunknos 0 = invalidChunkNum
  · rw [if_pos absent] at grown
    exact absurd grown (by simp)
  · rw [if_neg absent, Option.some.injEq] at grown
    rw [← grown]
    exact {
      count := rfl
      highest := by
        rw [extended]
        exact highest
      fragments := by
        rw [extended, back]
        rfl
      last := by
        intro _
        show (if needChunks - 1 < needChunks then
          wrap16 (address.chunknos 0 + (needChunks - 1)) else _) = _
        grind }

/-- The reuse of a free run is counted. -/
theorem reuseChunksAt_counted {place : Nat} (extended : extendedBy header address needChunks = 0)
    (reused : reuseChunksAt (releaseChunks header address) { address with allocatedChunks := 0 }
      place needChunks = some result) : Counted header address needChunks result := by
  rw [reuseChunksAt] at reused
  by_cases absent : place = invalidChunkNum
  · rw [if_pos absent] at reused
    exact absurd reused (by simp)
  · rw [if_neg absent, Option.some.injEq] at reused
    rw [← reused]
    exact {
      count := rfl
      highest := by
        rw [extended]
        rfl
      fragments := by
        rw [extended]
        rfl
      last := fun grows => absurd grows (by omega) }

/-- New chunks at the tail are counted. -/
theorem extendNewChunksAtTail_counted (some : 0 < needChunks)
    (room : header.allocatedChunks + needChunks < 4294967296)
    (extended : extendedBy header address needChunks = needChunks) :
    Counted header address needChunks (extendNewChunksAtTail (releaseChunks header address)
      { address with allocatedChunks := 0 } needChunks) where
  count := rfl
  highest := by
    show wrap32 (header.allocatedChunks + needChunks) = _
    rw [wrap32]
    lia
  fragments := by
    show wrap16 (header.nFragmentChunks + address.allocatedChunks) = _
    rw [sub16, wrap16]
    lia
  last := by
    intro _
    show (if needChunks - 1 < needChunks then
      wrap16 (wrap32 (header.allocatedChunks + 1) + (needChunks - 1)) else _) = _
    rw [if_pos (by omega), wrap32]
    congr 1
    lia

/-- Every growth is counted. -/
theorem extendReusing_counted (short : address.allocatedChunks < needChunks)
    (positive : ∀ number ∈ address.held, 1 ≤ number) (adjacent : ∀ index < address.allocatedChunks,
      address.chunknos index = address.chunknos 0 + index)
    (room : header.allocatedChunks + needChunks < 4294967296) :
    Counted header address needChunks (extendReusing header address needChunks) := by
  obtain ⟨atTail, grown⟩ | ⟨away, place, found, reused⟩ | ⟨away, notBeside, notHead, moved⟩ :=
    extendReusing_cases header address needChunks positive
  · exact extendDeltaChunksAtTail_counted header _ short adjacent room atTail grown
  · have either : RoomBeside header address needChunks ∨ RoomFromHead header address needChunks :=
      found.imp And.right And.right
    have extended : extendedBy header address needChunks = 0 := by
      rw [extendedBy, away, if_neg Bool.false_ne_true, if_pos either]
    exact reuseChunksAt_counted header _ extended reused
  · have extended : extendedBy header address needChunks = needChunks := by
      rw [extendedBy, away, if_neg Bool.false_ne_true, if_neg (not_or.mpr ⟨notBeside, notHead⟩)]
    rw [moved]
    exact extendNewChunksAtTail_counted header (by omega) room extended

variable (address needChunks)

theorem extendedBy_le : extendedBy header address needChunks ≤ needChunks := by
  rw [extendedBy]
  split_ifs <;> omega

variable {address}

theorem extendReusing_placed_small (short : address.allocatedChunks < needChunks)
    (positive : ∀ number ∈ address.held, 1 ≤ number)
    (below : ∀ number ∈ address.held, number ≤ header.allocatedChunks)
    (adjacent : ∀ index < address.allocatedChunks,
      address.chunknos index = address.chunknos 0 + index)
    (room : header.allocatedChunks + needChunks < paddedUsageBits) :
    ∃ start, Placed header address needChunks start (extendReusing header address needChunks) := by
  apply extendReusing_placed header short (by omega) positive below adjacent
  split
  · omega
  · exact .inr (.inr room)

end Counters

theorem CfsExtentAddress.held_nodup (address : CfsExtentAddress)
    (adjacent : ∀ index < address.allocatedChunks,
      address.chunknos index = address.chunknos 0 + index) : address.held.Nodup := by
  apply List.Nodup.map_on _ List.nodup_range
  intro first firstInside second secondInside same
  rw [adjacent first (List.mem_range.mp firstInside),
    adjacent second (List.mem_range.mp secondInside)] at same
  omega

/-- An account depends on the chunks and the counters. -/
theorem Accounted.same {before after : CfsExtentHeader} (accounted : Accounted before)
    (same : SameChunks before after) (highest : after.allocatedChunks = before.allocatedChunks)
    (fragments : after.nFragmentChunks = before.nFragmentChunks) : Accounted after where
  adjacent := by
    intro block inside
    rw [same.counts, same.numbers]
    exact accounted.adjacent block inside
  disjoint := by
    intro first firstInside second secondInside
    rw [same.held, same.held]
    exact accounted.disjoint first firstInside second secondInside
  range := by
    intro block inside
    rw [same.held, highest]
    exact accounted.range block inside
  bits := by
    rw [highest]
    exact accounted.bits
  usages := by
    intro number inside
    rw [same.usages, accounted.usages number inside]
    simp only [same.held]
  fragments := by
    rw [fragments, same.usages, highest]
    exact accounted.fragments

section Allocation

variable (header : CfsExtentHeader) (block needChunks : Nat)

variable {header block}

/-- With a block released, the bits are those of the other blocks. -/
theorem Accounted.released (accounted : Accounted header) (inside : block < logicBlocksPerExtent)
    (number : Nat) (low : number < usageBits) :
    (releaseChunks header (header.cfsExtentAddress block)).allocatedChunkUsages number = true ↔
      ∃ other < logicBlocksPerExtent, other ≠ block ∧
        number ∈ (header.cfsExtentAddress other).held := by
  show writeAll header.allocatedChunkUsages (header.cfsExtentAddress block).held false number =
    true ↔ _
  by_cases own : number ∈ (header.cfsExtentAddress block).held
  · rw [writeAll_listed _ _ _ own]
    constructor
    · exact fun set => absurd set Bool.false_ne_true
    · rintro ⟨other, within, differ, held⟩
      exact absurd own (accounted.disjoint other within block inside differ number held)
  · rw [writeAll_unlisted _ _ _ own, accounted.usages number low]
    constructor
    · rintro ⟨other, within, held⟩
      exact ⟨other, within, fun same => own (same ▸ held), held⟩
    · rintro ⟨other, within, -, held⟩
      exact ⟨other, within, held⟩

/-- With a block released, its chunks are clear bits as well. -/
theorem Accounted.released_clear (accounted : Accounted header)
    (inside : block < logicBlocksPerExtent) {more : Nat}
    (fits : header.allocatedChunks + more < usageBits) :
    clearUpTo (releaseChunks header (header.cfsExtentAddress block)).allocatedChunkUsages
        (header.allocatedChunks + more) =
      header.nFragmentChunks + (header.cfsExtentAddress block).allocatedChunks + more := by
  have length : (header.cfsExtentAddress block).held.length =
      (header.cfsExtentAddress block).allocatedChunks := by
    rw [CfsExtentAddress.held, List.length_map, List.length_range]
  have back := clearUpTo_writeAll header.allocatedChunkUsages header.allocatedChunks
    (CfsExtentAddress.held_nodup _ (accounted.adjacent block inside)) (by
      intro number held
      obtain ⟨positive, below⟩ := accounted.range block inside number held
      refine ⟨positive, below, ?_⟩
      exact (accounted.usages number (lt_of_le_of_lt below accounted.bits)).mpr
        ⟨block, inside, held⟩)
  rw [← accounted.fragments, length] at back
  rw [clearUpTo_extend]
  · rw [← back]
    rfl
  · intro number low high
    by_contra set
    rw [Bool.not_eq_false] at set
    obtain ⟨other, within, -, held⟩ := (Accounted.released accounted inside number
      (by omega)).mp set
    have below := (accounted.range other within number held).2
    omega

/-- The account of a header stays right when a block gets new chunks whose numbers stay inside the
bitmap. -/
theorem Accounted.replace {after : CfsExtentHeader} {address : CfsExtentAddress} (start more : Nat)
    (accounted : Accounted header) (inside : block < logicBlocksPerExtent)
    (addresses : after.cfsExtentAddress = update header.cfsExtentAddress block address)
    (count : address.allocatedChunks = needChunks)
    (numbers : ∀ index < needChunks, address.chunknos index = start + index)
    (usages : after.allocatedChunkUsages = writeRange
      (releaseChunks header (header.cfsExtentAddress block)).allocatedChunkUsages start needChunks
      true) (positive : 1 ≤ start) (below : start + needChunks ≤ after.allocatedChunks + 1)
    (free : ∀ index < needChunks, (releaseChunks header
        (header.cfsExtentAddress block)).allocatedChunkUsages (start + index) = false)
    (highest : after.allocatedChunks = header.allocatedChunks + more)
    (fits : after.allocatedChunks < usageBits) (fragments : after.nFragmentChunks + needChunks =
      header.nFragmentChunks + (header.cfsExtentAddress block).allocatedChunks + more) :
    Accounted after := by
  have own (number : Nat) : number ∈ address.held ↔
      start ≤ number ∧ number < start + needChunks := by
    rw [CfsExtentAddress.mem_held, count]
    constructor
    · rintro ⟨index, counted, found⟩
      rw [numbers index counted] at found
      lia
    · rintro ⟨low, high⟩
      refine ⟨number - start, by lia, ?_⟩
      grind
  -- No other block has one of the new chunks.
  have apart (other : Nat) (within : other < logicBlocksPerExtent) (differ : other ≠ block)
      (number : Nat) (held : number ∈ (header.cfsExtentAddress other).held) :
      number ∉ address.held := by
    intro mine
    obtain ⟨low, high⟩ := (own number).mp mine
    have clear := free (number - start) (by grind)
    rw [Nat.add_sub_cancel' low] at clear
    have given := accounted.range other within number held
    have set := (Accounted.released accounted inside number
      (lt_of_le_of_lt given.2 accounted.bits)).mpr ⟨other, within, differ, held⟩
    rw [clear] at set
    exact Bool.false_ne_true set
  exact {
    adjacent := by
      intro other within
      rw [addresses]
      by_cases same : other = block
      · rw [same, update_self, count]
        intro index counted
        rw [numbers index counted, numbers 0 (by lia), Nat.add_zero]
      · rw [update_of_ne same]
        exact accounted.adjacent other within
    disjoint := by
      intro first firstInside second secondInside differ number inFirst
      rw [addresses] at inFirst ⊢
      by_cases isFirst : first = block
      · rw [isFirst, update_self] at inFirst
        have other : second ≠ block := fun same => differ (isFirst.trans same.symm)
        rw [update_of_ne other]
        exact fun inSecond => apart second secondInside other number inSecond inFirst
      · rw [update_of_ne isFirst] at inFirst
        by_cases isSecond : second = block
        · rw [isSecond, update_self]
          exact apart first firstInside isFirst number inFirst
        · rw [update_of_ne isSecond]
          exact accounted.disjoint first firstInside second secondInside differ number inFirst
    range := by
      intro other within number held
      rw [addresses] at held
      by_cases same : other = block
      · rw [same, update_self] at held
        obtain ⟨low, high⟩ := (own number).mp held
        lia
      · rw [update_of_ne same] at held
        have given := accounted.range other within number held
        lia
    bits := fits
    usages := by
      intro number low
      rw [usages, addresses]
      by_cases mine : number ∈ address.held
      · obtain ⟨first, last⟩ := (own number).mp mine
        rw [writeRange_inside _ _ _ _ _ first last]
        refine ⟨fun _ => ⟨block, inside, ?_⟩, fun _ => rfl⟩
        rw [update_self]
        exact mine
      · rw [writeRange, if_neg (fun range => mine ((own number).mpr range)),
          Accounted.released accounted inside number low]
        constructor
        · rintro ⟨other, within, differ, held⟩
          refine ⟨other, within, ?_⟩
          rw [update_of_ne differ]
          exact held
        · rintro ⟨other, within, held⟩
          by_cases same : other = block
          · rw [same, update_self] at held
            exact absurd held mine
          · rw [update_of_ne same] at held
            exact ⟨other, within, same, held⟩
    fragments := by
      rw [highest] at fits below
      have taken := clearUpTo_writeRange
        (releaseChunks header (header.cfsExtentAddress block)).allocatedChunkUsages
        (header.allocatedChunks + more) start needChunks positive below free
      rw [Accounted.released_clear accounted inside fits] at taken
      lia }

variable (actualUse : Nat)

variable (header block)

/-- A block with too few chunks grows. -/
theorem extendChunksOfBlock_short
    (short : (header.cfsExtentAddress block).allocatedChunks < needChunks) :
    ∃ address, (extendChunksOfBlock header block needChunks actualUse).cfsExtentAddress =
        update header.cfsExtentAddress block address ∧ address.allocatedChunks =
        (extendReusing header (header.cfsExtentAddress block) needChunks).2.allocatedChunks ∧
      address.chunknos =
        (extendReusing header (header.cfsExtentAddress block) needChunks).2.chunknos ∧
      (extendChunksOfBlock header block needChunks actualUse).allocatedChunkUsages =
        (extendReusing header (header.cfsExtentAddress block) needChunks).1.allocatedChunkUsages ∧
      (extendChunksOfBlock header block needChunks actualUse).allocatedChunks =
        (extendReusing header (header.cfsExtentAddress block) needChunks).1.allocatedChunks ∧
      (extendChunksOfBlock header block needChunks actualUse).nFragmentChunks =
        (extendReusing header (header.cfsExtentAddress block) needChunks).1.nFragmentChunks := by
  simp only [extendChunksOfBlock, extendChunksOfBlockCore, short, decide_true, ↓reduceIte]
  exact ⟨_, rfl, rfl, rfl, trivial, trivial, trivial⟩

/-- A block with enough chunks keeps them. -/
theorem extendChunksOfBlock_enough
    (enough : ¬(header.cfsExtentAddress block).allocatedChunks < needChunks) :
    SameChunks header (extendChunksOfBlock header block needChunks actualUse) ∧
      (extendChunksOfBlock header block needChunks actualUse).allocatedChunks =
        header.allocatedChunks ∧
      (extendChunksOfBlock header block needChunks actualUse).nFragmentChunks =
        header.nFragmentChunks := by
  simp only [extendChunksOfBlock, extendChunksOfBlockCore, enough, decide_false, Bool.false_eq_true,
    ↓reduceIte, and_true]
  exact {
    sized := rfl
    coded := rfl
    usages := rfl
    counts := by
      intro other
      by_cases same : other = block
      · simp [same]
      · simp [update_of_ne same]
    numbers := by
      intro other
      by_cases same : other = block
      · simp [same]
      · simp [update_of_ne same] }

/-- The account of a header stays right when a block grows inside the bitmap. -/
theorem Accounted.extend (accounted : Accounted header)
    (inside : block < logicBlocksPerExtent) (few : needChunks ≤ 16)
    (short : (header.cfsExtentAddress block).allocatedChunks < needChunks)
    (fits : header.allocatedChunks +
      extendedBy header (header.cfsExtentAddress block) needChunks < usageBits) :
    Accounted (extendChunksOfBlock header block needChunks actualUse) := by
  have bound : usageBits = 1016 := rfl
  have padded : paddedUsageBits = 1040 := rfl
  have positive (number : Nat) (held : number ∈ (header.cfsExtentAddress block).held) :
      1 ≤ number := (accounted.range block inside number held).1
  have below (number : Nat) (held : number ∈ (header.cfsExtentAddress block).held) :
      number ≤ header.allocatedChunks := (accounted.range block inside number held).2
  obtain ⟨start, placed⟩ := extendReusing_placed_small header
    needChunks short positive below (accounted.adjacent block inside) (by lia)
  have counted := extendReusing_counted header short
    positive (accounted.adjacent block inside) (by omega)
  have highest := counted.highest
  have counter := counted.fragments
  have lower := extendedBy_le header (header.cfsExtentAddress block) needChunks
  obtain ⟨address, addresses, count, numbers, usages, allocated, fragments⟩ :=
    extendChunksOfBlock_short header block needChunks actualUse short
  generalize extendedBy header (header.cfsExtentAddress block) needChunks = more at *
  have ends := placed.below
  have free (index : Nat) (counted : index < needChunks) : (releaseChunks header
      (header.cfsExtentAddress block)).allocatedChunkUsages (start + index) = false := by
    obtain clear | above := placed.free index counted
    · exact clear
    · by_contra set
      rw [Bool.not_eq_false] at set
      obtain ⟨other, within, -, held⟩ := (Accounted.released accounted inside
        (start + index) (by lia)).mp set
      have given := (accounted.range other within _ held).2
      lia
  have room : start + needChunks ≤ header.allocatedChunks + more + 1 := by lia
  have taken := clearUpTo_writeRange
    (releaseChunks header (header.cfsExtentAddress block)).allocatedChunkUsages
    (header.allocatedChunks + more) start needChunks placed.positive room free
  rw [Accounted.released_clear accounted inside fits] at taken
  have few' := clearUpTo_le header.allocatedChunkUsages header.allocatedChunks
  rw [← accounted.fragments] at few'
  apply Accounted.replace needChunks start more accounted inside addresses
    (count.trans placed.count)
  · intro index counted
    rw [numbers, placed.numbers index counted, wrap16]
    lia
  · rw [usages, placed.usages]
  · exact placed.positive
  · rw [allocated, highest]
    exact room
  · exact free
  · rw [allocated, highest]
  · rw [allocated, highest]
    exact fits
  · rw [fragments, counter, sub16, wrap16]
    grind

/-- One allocation keeps the account right exactly if its numbers stay inside the bitmap. -/
theorem chunk_allocation_accounted_iff (actualUse : Nat)
    (listed : header.chunkSize ∈ chunkSizeList) (accounted : Accounted header)
    (inside : block < logicBlocksPerExtent) (few : needChunks ≤ chunksPerBlock header.chunkSize) :
    Allocates header block needChunks actualUse ↔ FitsBitmap header block needChunks := by
  have small := chunksPerBlock_le header.chunkSize listed
  have bound : usageBits = 1016 := rfl
  have padded : paddedUsageBits = 1040 := rfl
  have bits := accounted.bits
  have positive (number : Nat) (held : number ∈ (header.cfsExtentAddress block).held) :
      1 ≤ number := (accounted.range block inside number held).1
  have below (number : Nat) (held : number ∈ (header.cfsExtentAddress block).held) :
      number ≤ header.allocatedChunks := (accounted.range block inside number held).2
  constructor
  · intro allocates short
    have after := allocates.accounted.bits
    obtain ⟨_, _, _, _, _, allocated, _⟩ :=
      extendChunksOfBlock_short header block needChunks actualUse short
    rw [allocated, (extendReusing_counted header short
      positive (accounted.adjacent block inside) (by omega)).highest] at after
    exact after
  · intro fits
    by_cases short : (header.cfsExtentAddress block).allocatedChunks < needChunks
    · obtain ⟨address, addresses, count, _⟩ :=
        extendChunksOfBlock_short header block needChunks actualUse short
      obtain ⟨start, placed⟩ := extendReusing_placed_small header
        needChunks short positive below (accounted.adjacent block inside) (by omega)
      exact {
        accounted := Accounted.extend header block needChunks actualUse accounted inside (by omega)
          short (fits short)
        enough := by
          rw [addresses, update_self, count, placed.count]
        others := by
          intro other differ
          rw [addresses, update_of_ne differ] }
    · obtain ⟨same, highest, fragments⟩ :=
        extendChunksOfBlock_enough header block needChunks actualUse short
      exact {
        accounted := Accounted.same accounted same highest fragments
        enough := by
          rw [same.counts]
          exact Nat.le_of_not_lt short
        others := by
          intro other differ
          exact update_of_ne differ _ _ }

end Allocation

/-- A header whose first block has one chunk, the last one given out. -/
def singleHeader (chunkSize number : Nat) : CfsExtentHeader :=
  { initExtentHeader { chunkSize := chunkSize, algorithm := 1 } with
    nblocks := 1
    allocatedChunks := number
    nFragmentChunks := number - 1
    allocatedChunkUsages := writeRange (fun _ => false) number 1 true
    cfsExtentAddress := update (fun _ => zeroAddress) 0
      { checksum := wrap32 (257 + 65536 * number)
        nchunks := 1
        allocatedChunks := 1
        chunknos := fun index => if index = 0 then number else 0 } }

/-- A header whose first block has one chunk. -/
theorem singleHeader_held (chunkSize number block other : Nat) :
    other ∈ ((singleHeader chunkSize number).cfsExtentAddress block).held ↔
      block = 0 ∧ other = number := by
  rw [CfsExtentAddress.mem_held]
  by_cases first : block = 0
  · subst first
    simp only [singleHeader, update_self]
    constructor
    · rintro ⟨index, counted, found⟩
      rw [if_pos (Nat.lt_one_iff.mp counted)] at found
      exact ⟨trivial, found.symm⟩
    · rintro ⟨-, same⟩
      exact ⟨0, Nat.one_pos, same.symm⟩
  · simp only [singleHeader, update_of_ne first]
    constructor
    · rintro ⟨index, counted, -⟩
      exact absurd counted (Nat.not_lt_zero index)
    · exact fun both => absurd both.1 first

/-- Its account is right. -/
theorem singleHeader_accounted (chunkSize number : Nat) (positive : 1 ≤ number)
    (inside : number < usageBits) : Accounted (singleHeader chunkSize number) where
  adjacent := by
    intro block _ index counted
    by_cases first : block = 0
    · subst first
      have only : index = 0 := Nat.lt_one_iff.mp counted
      rw [only, Nat.add_zero]
    · simp only [singleHeader, update_of_ne first] at counted
      exact absurd counted (Nat.not_lt_zero index)
  disjoint := by
    intro first _ second _ differ other inFirst inSecond
    have one := ((singleHeader_held chunkSize number first other).mp inFirst).1
    have two := ((singleHeader_held chunkSize number second other).mp inSecond).1
    exact differ (one.trans two.symm)
  range := by
    intro block _ other held
    rw [((singleHeader_held chunkSize number block other).mp held).2]
    exact ⟨positive, le_rfl⟩
  bits := inside
  usages := by
    intro other _
    simp only [singleHeader_held]
    show writeRange (fun _ => false) number 1 true other = true ↔ _
    rw [writeRange]
    split
    · exact ⟨fun _ => ⟨0, by decide, rfl, by omega⟩, fun _ => rfl⟩
    · constructor
      · exact fun set => absurd set Bool.false_ne_true
      · rintro ⟨_, _, _, same⟩
        omega
  fragments := by
    have all := clearUpTo_extend (fun _ => false) 0 number (fun _ _ _ => rfl)
    have empty : clearUpTo (fun _ => false) 0 = 0 := Nat.le_zero.mp (clearUpTo_le _ 0)
    have taken := clearUpTo_writeRange (fun _ => false) number number 1 positive le_rfl
      (fun _ _ => rfl)
    show number - 1 = clearUpTo (writeRange (fun _ => false) number 1 true) number
    lia

/-- A second block takes two chunks behind the one of the first. -/
def twoBlocks : CfsExtentHeader := extendChunksOfBlock (singleHeader 4096 1) 1 2 2

/-- The first block of two then grows to two chunks: behind those of the other block. -/
theorem chunk_allocation_accounted_two_blocks :
    Accounted twoBlocks ∧ (twoBlocks.cfsExtentAddress 1).held = [2, 3] ∧
      FitsBitmap twoBlocks 0 2 ∧ Allocates twoBlocks 0 2 2 ∧
      ((extendChunksOfBlock twoBlocks 0 2 2).cfsExtentAddress 0).held = [4, 5] := by
  have accounted : Accounted twoBlocks := ((chunk_allocation_accounted_iff (singleHeader 4096 1) 1 2
    2 (by decide) (singleHeader_accounted 4096 1 (by decide) (by decide)) (by decide)
    (by decide)).mpr fun _ => by decide).accounted
  have fits : FitsBitmap twoBlocks 0 2 := fun _ => by decide +kernel
  exact ⟨accounted, by decide, fits, (chunk_allocation_accounted_iff twoBlocks 0 2 2 (by decide)
    accounted (by decide) (by decide)).mpr fits, by decide +kernel⟩

/-- A block that grows to the last chunk of 1024 bytes gets a number without a bit. -/
theorem chunk_allocation_leaves_bitmap :
    1024 ∈ chunkSizeList ∧ Accounted (singleHeader 1024 1009) ∧ chunksPerBlock 1024 = 8 ∧
      maxLogicChunksNumber 1024 = 1016 ∧
      ((extendChunksOfBlock (singleHeader 1024 1009) 0 8 8).cfsExtentAddress 0).held =
        [1009, 1010, 1011, 1012, 1013, 1014, 1015, 1016] ∧
      ¬Allocates (singleHeader 1024 1009) 0 8 8 := by
  refine ⟨by decide, singleHeader_accounted 1024 1009 (by decide) (by decide), by decide,
    by decide, by decide +kernel, ?_⟩
  intro allocates
  have bits := allocates.accounted.bits
  exact absurd bits (by decide)

end OpenGauss.Cfs
