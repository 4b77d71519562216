import OpenGauss.Cfs.ChunkOwnership

/-!
# Writes keep chunks apart

An allocation places a block in chunks that no other block has: chunks that are free in the usage
bitmap, or chunks above the highest number given out. With this the invariant of the extent header
holds along every run whose events meet their conditions.
-/
namespace OpenGauss.Cfs

open Function OpenGauss.Base

/-- Where an allocation with reuse of fragments has placed a block: in adjacent chunks, each of
them free in the bitmap or above the highest number given out before. -/
structure Placed (header : CfsExtentHeader) (address : CfsExtentAddress) (needChunks start : Nat)
    (result : CfsExtentHeader × CfsExtentAddress) : Prop where
  count : result.2.allocatedChunks = needChunks
  numbers : ∀ index < needChunks, result.2.chunknos index = wrap16 (start + index)
  usages : result.1.allocatedChunkUsages =
    writeRange (releaseChunks header address).allocatedChunkUsages start needChunks true
  positive : 1 ≤ start
  free : ∀ index < needChunks,
    (releaseChunks header address).allocatedChunkUsages (start + index) = false ∨
      header.allocatedChunks < start + index
  below : start + needChunks ≤ result.1.allocatedChunks + 1
  grows : header.allocatedChunks ≤ result.1.allocatedChunks
  marked : result.1.allocatedChunks < paddedUsageBits
  sized : result.1.chunkSize = header.chunkSize
  coded : result.1.algorithm = header.algorithm

variable (freeChunkMap : Nat → Bool) (header : CfsExtentHeader) (address : CfsExtentAddress)
  (chunkno needChunks : Nat)

/-- A free run is placed. -/
theorem reuseChunksAt_placed {result : CfsExtentHeader × CfsExtentAddress}
    (marked : header.allocatedChunks < paddedUsageBits)
    (below : chunkno + needChunks ≤ header.allocatedChunks + 1) (free : ∀ index < needChunks,
      (releaseChunks header address).allocatedChunkUsages (chunkno + index) = false)
    (found : reuseChunksAt (releaseChunks header address) { address with allocatedChunks := 0 }
      chunkno needChunks = some result) : Placed header address needChunks chunkno result := by
  rw [reuseChunksAt] at found
  by_cases absent : chunkno = invalidChunkNum
  · rw [if_pos absent] at found
    cases found
  · rw [if_neg absent, Option.some.injEq] at found
    rw [← found]
    exact {
      count := rfl
      numbers := by
        intro index inside
        simp only [cfsAllocateChunks]
        rw [if_pos inside]
      usages := rfl
      positive := Nat.pos_of_ne_zero absent
      free := fun index inside => .inl (free index inside)
      below := below
      grows := le_rfl
      marked := marked
      sized := rfl
      coded := rfl }

/-- New chunks are placed at the tail. -/
theorem extendNewChunksAtTail_placed
    (needChunks : Nat) (fits : header.allocatedChunks + needChunks < paddedUsageBits) :
    Placed header address needChunks (header.allocatedChunks + 1)
      (extendNewChunksAtTail (releaseChunks header address)
        { address with allocatedChunks := 0 } needChunks) := by
  have small : paddedUsageBits = 1040 := rfl
  have first : wrap32 ((releaseChunks header address).allocatedChunks + 1) =
      header.allocatedChunks + 1 := by
    show (header.allocatedChunks + 1) % 4294967296 = header.allocatedChunks + 1
    lia
  have last : wrap32 ((releaseChunks header address).allocatedChunks + needChunks) =
      header.allocatedChunks + needChunks := by
    show (header.allocatedChunks + needChunks) % 4294967296 = header.allocatedChunks + needChunks
    lia
  rw [extendNewChunksAtTail, first, last]
  exact {
    count := rfl
    numbers := by
      intro index inside
      simp only [cfsAllocateChunks]
      rw [if_pos inside]
    usages := rfl
    positive := Nat.succ_pos _
    free := fun index _ => .inr (by omega)
    below := by
      simp only [cfsAllocateChunks]
      omega
    grows := by
      simp only [cfsAllocateChunks]
      lia
    marked := fits
    sized := rfl
    coded := rfl }

/-- A block whose chunks lie side by side grows at the tail. -/
theorem extendDeltaChunksAtTail_placed
    {needChunks : Nat} {result : CfsExtentHeader × CfsExtentAddress}
    (short : address.allocatedChunks < needChunks) (positive : ∀ number ∈ address.held, 1 ≤ number)
    (adjacent : ∀ index < address.allocatedChunks,
      address.chunknos index = address.chunknos 0 + index)
    (atTail : isAtTail header address = true)
    (fits : header.allocatedChunks + (needChunks - address.allocatedChunks) < paddedUsageBits)
    (grown : extendDeltaChunksAtTail { releaseChunks header address with
          allocatedChunks := wrap32 ((releaseChunks header address).allocatedChunks +
            (needChunks - address.allocatedChunks)) }
        { address with allocatedChunks := 0 } address.allocatedChunks needChunks = some result) :
    Placed header address needChunks (address.chunknos 0) result := by
  have small : paddedUsageBits = 1040 := rfl
  simp only [isAtTail, Bool.and_eq_true, decide_eq_true_eq] at atTail
  obtain ⟨some, tail⟩ := atTail
  rw [adjacent (address.allocatedChunks - 1) (by omega)] at tail
  have first : 1 ≤ address.chunknos 0 :=
    positive _ ((address.mem_held _).mpr ⟨0, some, rfl⟩)
  have last : wrap32 ((releaseChunks header address).allocatedChunks +
      (needChunks - address.allocatedChunks)) =
      header.allocatedChunks + (needChunks - address.allocatedChunks) := by
    show (header.allocatedChunks + (needChunks - address.allocatedChunks)) % 4294967296 =
      header.allocatedChunks + (needChunks - address.allocatedChunks)
    lia
  have valid : address.chunknos 0 ≠ invalidChunkNum := Nat.pos_iff_ne_zero.mp first
  rw [last, extendDeltaChunksAtTail] at grown
  dsimp only at grown
  rw [if_neg valid, Option.some.injEq] at grown
  rw [← grown]
  exact {
    count := rfl
    numbers := by
      intro index inside
      simp only [cfsAllocateChunks]
      rw [if_pos inside]
    usages := rfl
    positive := first
    free := by
      intro index inside
      by_cases own : index < address.allocatedChunks
      · left
        apply writeAll_listed
        exact (address.mem_held _).mpr ⟨index, own, adjacent index own⟩
      · right
        omega
    below := by
      simp only [cfsAllocateChunks]
      lia
    grows := by
      simp only [cfsAllocateChunks]
      lia
    marked := fits
    sized := rfl
    coded := rfl }

/-- The run beside a block is free but for its own chunks. -/
theorem cfsFindAdjacentEmptyChunkNo_spec
    {targetLength frontPos rearPos maxPos needChunks : Nat} (front : 1 ≤ frontPos)
    (own : ∀ number, frontPos ≤ number → number ≤ rearPos → freeChunkMap number = false)
    (order : rearPos + 1 + targetLength = frontPos + needChunks) (low : rearPos ≤ maxPos)
    (found : cfsFindAdjacentEmptyChunkNo freeChunkMap targetLength frontPos rearPos maxPos ≠
      invalidChunkNum) :
    let start := cfsFindAdjacentEmptyChunkNo freeChunkMap targetLength frontPos rearPos maxPos
    start + needChunks ≤ maxPos + 1 ∧
      ∀ index < needChunks, freeChunkMap (start + index) = false := by
  obtain ⟨before, freeBefore⟩ := clearBefore_spec freeChunkMap frontPos targetLength front
  obtain ⟨inside, freeAfter⟩ := clearAfter_spec freeChunkMap maxPos rearPos
    (targetLength - clearBefore freeChunkMap frontPos targetLength)
  intro start
  have value : start = frontPos - clearBefore freeChunkMap frontPos targetLength ∧
      targetLength ≤ clearBefore freeChunkMap frontPos targetLength +
        clearAfter freeChunkMap maxPos rearPos
          (targetLength - clearBefore freeChunkMap frontPos targetLength) := by
    simp only [start, cfsFindAdjacentEmptyChunkNo] at found ⊢
    split at found
    · rename_i enough
      rw [if_pos enough]
      refine ⟨?_, enough⟩
      split
      · rfl
      · lia
    · exact absurd rfl found
  obtain ⟨place, enough⟩ := value
  rw [place]
  refine ⟨by omega, ?_⟩
  intro index counted
  by_cases head : frontPos - clearBefore freeChunkMap frontPos targetLength + index < frontPos
  · exact freeBefore _ (by omega) head
  · by_cases middle :
      frontPos - clearBefore freeChunkMap frontPos targetLength + index ≤ rearPos
    · exact own _ (by lia) middle
    · exact freeAfter _ (by omega) (by lia)

/-- The run that is found is free. -/
theorem cfsFindEmptyChunkNo_spec {maxPos needChunks : Nat} (some : 0 < needChunks)
    (found : cfsFindEmptyChunkNo freeChunkMap chunkStartNum maxPos needChunks ≠ invalidChunkNum) :
    let start := cfsFindEmptyChunkNo freeChunkMap chunkStartNum maxPos needChunks
    start + needChunks ≤ maxPos + 1 ∧
      ∀ index < needChunks, freeChunkMap (start + index) = false := by
  intro start
  have value : start = cfsFindEmptyChunkNo freeChunkMap chunkStartNum maxPos needChunks := rfl
  rw [cfsFindEmptyChunkNo] at found value
  cases scan : firstClearRun freeChunkMap needChunks (maxPos + 1 - chunkStartNum) chunkStartNum
      0 with
  | none =>
    rw [scan] at found
    exact absurd rfl found
  | some run =>
    rw [scan, Option.getD_some] at value
    obtain ⟨low, high, free⟩ := firstClearRun_spec freeChunkMap needChunks _ _ 0 run some some
      (Nat.zero_le _) (fun other low high => absurd high (by lia)) scan
    exact ⟨by omega, fun index inside => free _ (by omega) (by omega)⟩

theorem reuseChunksAt_eq_none_iff :
    reuseChunksAt header address chunkno needChunks = none ↔ chunkno = invalidChunkNum := by
  rw [reuseChunksAt]
  split
  · simp_all
  · simp_all

/-- The place beside a block is free once the block is released. -/
theorem placeBeside_spec {needChunks : Nat} (short : address.allocatedChunks < needChunks)
    (some : 0 < address.allocatedChunks) (positive : ∀ number ∈ address.held, 1 ≤ number)
    (below : ∀ number ∈ address.held, number ≤ header.allocatedChunks)
    (adjacent : ∀ index < address.allocatedChunks,
      address.chunknos index = address.chunknos 0 + index)
    (found : placeBeside header address needChunks ≠ invalidChunkNum) :
    placeBeside header address needChunks + needChunks ≤ header.allocatedChunks + 1 ∧
      ∀ index < needChunks, (releaseChunks header address).allocatedChunkUsages
        (placeBeside header address needChunks + index) = false := by
  have last := adjacent (address.allocatedChunks - 1) (by omega)
  have first : 1 ≤ address.chunknos 0 :=
    positive _ ((address.mem_held _).mpr ⟨0, some, rfl⟩)
  have rear : address.chunknos (address.allocatedChunks - 1) ≤ header.allocatedChunks :=
    below _ ((address.mem_held _).mpr ⟨address.allocatedChunks - 1, by omega, rfl⟩)
  have own (number : Nat) (low : address.chunknos 0 ≤ number)
      (high : number ≤ address.chunknos (address.allocatedChunks - 1)) :
      (releaseChunks header address).allocatedChunkUsages number = false := by
    apply writeAll_listed
    apply (address.mem_held _).mpr
    refine ⟨number - address.chunknos 0, by omega, ?_⟩
    rw [adjacent (number - address.chunknos 0) (by omega)]
    grind
  exact cfsFindAdjacentEmptyChunkNo_spec (releaseChunks header address).allocatedChunkUsages
     first own
    (by lia) rear found

/-- There is free room beside a block's own chunks. -/
def RoomBeside (header : CfsExtentHeader) (address : CfsExtentAddress) (needChunks : Nat) : Prop :=
  0 < address.allocatedChunks ∧ placeBeside header address needChunks ≠ invalidChunkNum

/-- There are enough free chunks, and a free run of them. -/
def RoomFromHead (header : CfsExtentHeader) (address : CfsExtentAddress) (needChunks : Nat) :
    Prop :=
  needChunks ≤ (releaseChunks header address).nFragmentChunks ∧
    placeFromHead header address needChunks ≠ invalidChunkNum

instance (header : CfsExtentHeader) (address : CfsExtentAddress) (needChunks : Nat) :
    Decidable (RoomBeside header address needChunks) :=
  inferInstanceAs (Decidable (_ ∧ _ ≠ _))

instance (header : CfsExtentHeader) (address : CfsExtentAddress) (needChunks : Nat) :
    Decidable (RoomFromHead header address needChunks) :=
  inferInstanceAs (Decidable (_ ∧ _ ≠ _))

theorem reuseChunksAt_skipped (attempt : Prop) [Decidable attempt]
    (fails : ¬(attempt ∧ chunkno ≠ invalidChunkNum)) :
    (if attempt then reuseChunksAt header address chunkno needChunks else none) = none := by
  split
  · rename_i made
    apply (reuseChunksAt_eq_none_iff _ _ _ _).mpr
    by_contra found
    exact fails ⟨made, found⟩
  · rfl

/-- The ways in which a block gets more chunks: at the tail, in free chunks, or behind the highest
number. -/
theorem extendReusing_cases (needChunks : Nat) (positive : ∀ number ∈ address.held, 1 ≤ number) :
    (isAtTail header address = true ∧ extendDeltaChunksAtTail { releaseChunks header address with
            allocatedChunks := wrap32 ((releaseChunks header address).allocatedChunks +
              (needChunks - address.allocatedChunks)) }
          { address with allocatedChunks := 0 } address.allocatedChunks needChunks =
        some (extendReusing header address needChunks)) ∨
    (isAtTail header address = false ∧ ∃ place, (place = placeBeside header address needChunks ∧
            RoomBeside header address needChunks ∨
          place = placeFromHead header address needChunks ∧
            RoomFromHead header address needChunks) ∧
        reuseChunksAt (releaseChunks header address) { address with allocatedChunks := 0 } place
            needChunks = some (extendReusing header address needChunks)) ∨
    (isAtTail header address = false ∧ ¬RoomBeside header address needChunks ∧
      ¬RoomFromHead header address needChunks ∧
      extendReusing header address needChunks = extendNewChunksAtTail (releaseChunks header address)
        { address with allocatedChunks := 0 } needChunks) := by
  rw [extendReusing]
  cases atTail : isAtTail header address with
  | true =>
    left
    have ends := atTail
    simp only [isAtTail, Bool.and_eq_true, decide_eq_true_eq] at ends
    have first : 1 ≤ address.chunknos 0 :=
      positive _ ((address.mem_held _).mpr ⟨0, ends.1, rfl⟩)
    have valid : address.chunknos 0 ≠ invalidChunkNum := Nat.pos_iff_ne_zero.mp first
    simp only [↓reduceIte, extendDeltaChunksAtTail, if_neg valid, Option.orElse_eq_orElse,
      Option.orElse_eq_or, Option.some_or, Option.getD_some, and_self]
  | false =>
    right
    simp only [Bool.false_eq_true, ↓reduceIte, Option.orElse_eq_orElse, Option.orElse_eq_or,
      Option.none_or, true_and]
    have beside : reuseAdjacentChunks (releaseChunks header address)
        { address with allocatedChunks := 0 } address.allocatedChunks needChunks
        (needChunks - address.allocatedChunks) =
      reuseChunksAt (releaseChunks header address) { address with allocatedChunks := 0 }
        (placeBeside header address needChunks) needChunks := rfl
    have atHead : reuseChunksFromHead (releaseChunks header address)
        { address with allocatedChunks := 0 } needChunks =
      reuseChunksAt (releaseChunks header address) { address with allocatedChunks := 0 }
        (placeFromHead header address needChunks) needChunks := rfl
    rw [beside, atHead]
    by_cases tryBeside : RoomBeside header address needChunks
    · left
      obtain ⟨result, found⟩ := Option.ne_none_iff_exists'.mp
        (mt (reuseChunksAt_eq_none_iff (releaseChunks header address)
          { address with allocatedChunks := 0 } _ needChunks).mp tryBeside.2)
      refine ⟨_, .inl ⟨rfl, tryBeside⟩, ?_⟩
      rw [if_pos tryBeside.1, found, Option.some_or, Option.getD_some]
    · rw [reuseChunksAt_skipped _ _ _ _ _ tryBeside, Option.none_or]
      by_cases tryHead : RoomFromHead header address needChunks
      · left
        obtain ⟨result, found⟩ := Option.ne_none_iff_exists'.mp
          (mt (reuseChunksAt_eq_none_iff (releaseChunks header address)
            { address with allocatedChunks := 0 } _ needChunks).mp tryHead.2)
        refine ⟨_, .inr ⟨rfl, tryHead⟩, ?_⟩
        rw [if_pos tryHead.1, found, Option.getD_some]
      · right
        refine ⟨tryBeside, tryHead, ?_⟩
        rw [reuseChunksAt_skipped _ _ _ _ _ tryHead, Option.getD_none]

variable {address}

/-- Every growth is placed in free chunks. -/
theorem extendReusing_placed {needChunks : Nat} (short : address.allocatedChunks < needChunks)
    (marked : header.allocatedChunks < paddedUsageBits)
    (positive : ∀ number ∈ address.held, 1 ≤ number)
    (below : ∀ number ∈ address.held, number ≤ header.allocatedChunks)
    (adjacent : ∀ index < address.allocatedChunks,
      address.chunknos index = address.chunknos 0 + index) (fits : if isAtTail header address then
        header.allocatedChunks + (needChunks - address.allocatedChunks) < paddedUsageBits else
        (0 < address.allocatedChunks ∧ placeBeside header address needChunks ≠ invalidChunkNum) ∨
        (needChunks ≤ (releaseChunks header address).nFragmentChunks ∧
          placeFromHead header address needChunks ≠ invalidChunkNum) ∨
        header.allocatedChunks + needChunks < paddedUsageBits) :
    ∃ start, Placed header address needChunks start (extendReusing header address needChunks) := by
  obtain ⟨atTail, grown⟩ | ⟨away, place, found, reused⟩ | ⟨away, notBeside, notHead, moved⟩ :=
    extendReusing_cases header address needChunks positive
  · rw [if_pos atTail] at fits
    exact ⟨_, extendDeltaChunksAtTail_placed header address short positive adjacent
      atTail fits grown⟩
  · have valid : place ≠ invalidChunkNum ∧ place + needChunks ≤ header.allocatedChunks + 1 ∧
        ∀ index < needChunks,
          (releaseChunks header address).allocatedChunkUsages (place + index) = false := by
      obtain ⟨rfl, beside⟩ | ⟨rfl, atHead⟩ := found
      · exact ⟨beside.2, placeBeside_spec header address short beside.1 positive below
          adjacent beside.2⟩
      · exact ⟨atHead.2, cfsFindEmptyChunkNo_spec _ (by omega) atHead.2⟩
    exact ⟨place, reuseChunksAt_placed header address place needChunks marked valid.2.1 valid.2.2
      reused⟩
  · rw [away] at fits
    rw [moved]
    refine ⟨header.allocatedChunks + 1, extendNewChunksAtTail_placed header address needChunks ?_⟩
    exact (fits.resolve_left notBeside).resolve_left notHead

section Writes

variable (enableTpcFragmentChunks : Bool) (location : ExtentLocation)

theorem chunksPerBlock_le (chunkSize : Nat) (listed : chunkSize ∈ chunkSizeList) :
    chunksPerBlock chunkSize ≤ 16 := by
  simp only [chunkSizeList, List.mem_cons, List.not_mem_nil, or_false] at listed
  obtain rfl | rfl | rfl | rfl := listed <;> decide

variable {location}

/-- The invariant survives a change of one block's chunks to chunks of no other block. -/
theorem Kept.replace {before after : CfsExtentHeader} {block : Nat} {address : CfsExtentAddress}
    (kept : Kept enableTpcFragmentChunks location before) (inside : block < logicBlocksPerExtent)
    (addresses : after.cfsExtentAddress = update before.cfsExtentAddress block address)
    (sized : after.chunkSize = before.chunkSize) (coded : after.algorithm = before.algorithm)
    (ends : after.nblocks ≤ logicBlocksPerExtent)
    (few : address.allocatedChunks ≤ chunksPerBlock location.chunkSize)
    (grows : before.allocatedChunks ≤ after.allocatedChunks)
    (own : ∀ number ∈ address.held, 1 ≤ number ∧ number ≤ after.allocatedChunks ∧
      ∀ other < logicBlocksPerExtent, other ≠ block → number ∉ (before.cfsExtentAddress other).held)
    (marked : enableTpcFragmentChunks = true → after.allocatedChunks < paddedUsageBits)
    (counted : enableTpcFragmentChunks = false →
      after.allocatedChunks + (before.cfsExtentAddress block).allocatedChunks ≤
        before.allocatedChunks + address.allocatedChunks)
    (covered : enableTpcFragmentChunks = true →
      (∀ number ∈ address.held, after.allocatedChunkUsages number = true) ∧
        ∀ other < logicBlocksPerExtent, other ≠ block →
          ∀ number ∈ (before.cfsExtentAddress other).held, after.allocatedChunkUsages number = true)
    (adjacent : enableTpcFragmentChunks = true → ∀ index < address.allocatedChunks,
      address.chunknos index = address.chunknos 0 + index) :
    Kept enableTpcFragmentChunks location after where
  sized := sized.trans kept.sized
  coded := coded.trans kept.coded
  ends := ends
  few := by
    intro other within
    by_cases same : other = block
    · rw [addresses, same, update_self]
      exact few
    · rw [addresses, update_of_ne same]
      exact kept.few other within
  positive := by
    intro other within number
    by_cases same : other = block
    · rw [addresses, same, update_self]
      exact fun held => (own number held).1
    · rw [addresses, update_of_ne same]
      exact kept.positive other within number
  below := by
    intro other within number
    by_cases same : other = block
    · rw [addresses, same, update_self]
      exact fun held => (own number held).2.1
    · rw [addresses, update_of_ne same]
      exact fun held => le_trans (kept.below other within number held) grows
  disjoint := by
    intro first firstInside second secondInside differ number inFirst inSecond
    rw [addresses] at inFirst inSecond
    by_cases isFirst : first = block
    · rw [isFirst, update_self] at inFirst
      have notSecond : second ≠ block := by lia
      rw [update_of_ne notSecond] at inSecond
      exact (own number inFirst).2.2 second secondInside notSecond inSecond
    · rw [update_of_ne isFirst] at inFirst
      by_cases isSecond : second = block
      · rw [isSecond, update_self] at inSecond
        exact (own number inSecond).2.2 first firstInside isFirst inFirst
      · rw [update_of_ne isSecond] at inSecond
        exact kept.disjoint first firstInside second secondInside differ number inFirst inSecond
  marked := marked
  counted := by
    intro reuse
    have total := kept.counted reuse
    have change := counted reuse
    have member : block ∈ Finset.range logicBlocksPerExtent := Finset.mem_range.mpr inside
    rw [← Finset.add_sum_erase _ _ member] at total ⊢
    have others : ∑ other ∈ (Finset.range logicBlocksPerExtent).erase block,
        (after.cfsExtentAddress other).allocatedChunks =
        ∑ other ∈ (Finset.range logicBlocksPerExtent).erase block,
          (before.cfsExtentAddress other).allocatedChunks := by
      apply Finset.sum_congr rfl
      intro other listed
      rw [addresses, update_of_ne (Finset.ne_of_mem_erase listed)]
    rw [others, addresses, update_self]
    lia
  covered := by
    intro reuse other within number
    by_cases same : other = block
    · rw [addresses, same, update_self]
      exact (covered reuse).1 number
    · rw [addresses, update_of_ne same]
      exact (covered reuse).2 other within same number
  adjacent := by
    intro reuse other within index
    by_cases same : other = block
    · rw [addresses, same, update_self]
      exact adjacent reuse index
    · rw [addresses, update_of_ne same]
      exact kept.adjacent reuse other within index

variable (header : CfsExtentHeader) (block needChunks actualUse : Nat)

variable {header block needChunks}

/-- A write without growth keeps the invariant. -/
theorem Kept.writeEnough (kept : Kept enableTpcFragmentChunks location header)
    (inside : block < logicBlocksPerExtent)
    (enough : ¬(header.cfsExtentAddress block).allocatedChunks < needChunks) :
    ∃ written, writeBlock enableTpcFragmentChunks header block needChunks actualUse =
        some written ∧ Kept enableTpcFragmentChunks location written.2 := by
  rw [writeBlock]
  rw [if_neg (fun stray => enough stray.2.1)]
  refine ⟨_, rfl, ?_⟩
  simp only [extendChunksOfBlockCore, enough]
  apply Kept.sameChunks header _ kept
  · exact {
      sized := rfl
      coded := rfl
      usages := rfl
      counts := by
        intro other
        by_cases same : other = block
        · simp [same]
        · simp [update_of_ne same]
      numbers := by
        intro other
        by_cases same : other = block
        · simp [same]
        · simp [update_of_ne same] }
  · exact Nat.max_le.mpr ⟨kept.ends, inside⟩
  · exact le_rfl
  · exact kept.below

/-- A write that appends chunks behind the highest number keeps the invariant. -/
theorem Kept.writeAppending
    (listed : location.chunkSize ∈ chunkSizeList) (kept : Kept false location header)
    (inside : block < logicBlocksPerExtent) (fits : needChunks ≤ chunksPerBlock location.chunkSize)
    (short : (header.cfsExtentAddress block).allocatedChunks < needChunks) :
    ∃ written, writeBlock false header block needChunks actualUse = some written ∧
      Kept false location written.2 := by
  have small := chunksPerBlock_le location.chunkSize listed
  have limit : maxLogicChunksNumber location.chunkSize ≤ 2032 := by
    rw [maxLogicChunksNumber, logicBlocksPerExtent]
    omega
  have highest : header.allocatedChunks ≤ 4064 := by
    have total := kept.counted rfl
    have sum : ∑ block ∈ Finset.range logicBlocksPerExtent,
        (header.cfsExtentAddress block).allocatedChunks ≤ 2032 := by
      calc
        ∑ block ∈ Finset.range logicBlocksPerExtent, (header.cfsExtentAddress block).allocatedChunks
            ≤ (Finset.range logicBlocksPerExtent).card • 16 := by
          apply Finset.sum_le_card_nsmul
          intro block listed
          exact le_trans (kept.few block (Finset.mem_range.mp listed)) small
        _ = 2032 := by
          rw [Finset.card_range]
          rfl
    lia
  rw [writeBlock]
  dsimp only
  rw [if_neg (fun stray => Bool.noConfusion stray.1)]
  refine ⟨_, rfl, ?_⟩
  simp only [extendChunksOfBlockCore, short, decide_true, Bool.false_eq_true, ↓reduceIte]
  have grown : wrap32 (header.allocatedChunks +
      (needChunks - (header.cfsExtentAddress block).allocatedChunks)) =
      header.allocatedChunks + (needChunks - (header.cfsExtentAddress block).allocatedChunks) := by
    rw [wrap32]
    lia
  apply Kept.replace false kept inside rfl
  · rfl
  · rfl
  · exact Nat.max_le.mpr ⟨kept.ends, inside⟩
  · exact fits
  · simp only [extendAppending, grown]
    omega
  · intro number held
    obtain ⟨index, counted, found⟩ := (CfsExtentAddress.mem_held _ number).mp held
    simp only [extendAppending] at counted found
    by_cases old : index < (header.cfsExtentAddress block).allocatedChunks
    · rw [if_neg (fun new => absurd new.1 (by omega))] at found
      have before : number ∈ (header.cfsExtentAddress block).held :=
        (CfsExtentAddress.mem_held _ number).mpr ⟨index, old, found⟩
      refine ⟨kept.positive block inside number before, ?_, ?_⟩
      · have below := kept.below block inside number before
        simp only [extendAppending, grown]
        lia
      · intro other within differ
        exact kept.disjoint block inside other within (Ne.symm differ) number before
    · rw [if_pos ⟨by omega, counted⟩] at found
      have value : number = header.allocatedChunks + 1 +
          (index - (header.cfsExtentAddress block).allocatedChunks) := by
        rw [← found, wrap16, wrap32]
        omega
      refine ⟨by lia, ?_, ?_⟩
      · simp only [extendAppending, grown]
        lia
      · intro other within differ taken
        have below := kept.below other within number taken
        lia
  · intro reuse
    cases reuse
  · intro _
    simp only [extendAppending, grown]
    lia
  · intro reuse
    cases reuse
  · intro reuse
    cases reuse

/-- A write that reuses fragments keeps the invariant where its chunks fit the bitmap. -/
theorem Kept.writeReusing (kept : Kept true location header) (inside : block < logicBlocksPerExtent)
    (few : needChunks ≤ chunksPerBlock location.chunkSize)
    (short : (header.cfsExtentAddress block).allocatedChunks < needChunks)
    (fits : Fits true header block needChunks) :
    ∃ written, writeBlock true header block needChunks actualUse = some written ∧
      Kept true location written.2 := by
  obtain ⟨start, placed⟩ := extendReusing_placed header
    short (kept.marked rfl) (kept.positive block inside) (kept.below block inside)
    (kept.adjacent rfl block inside) (fits rfl short)
  have bound : paddedUsageBits = 1040 := rfl
  have marked := placed.marked
  have given := placed.below
  have numbers (index : Nat) (counted : index < needChunks) :
      (extendReusing header (header.cfsExtentAddress block) needChunks).2.chunknos index =
        start + index := by
    rw [placed.numbers index counted, wrap16]
    lia
  have held (number : Nat) (member : number ∈
        (extendReusing header (header.cfsExtentAddress block) needChunks).2.held) :
      ∃ index < needChunks, number = start + index := by
    obtain ⟨index, counted, found⟩ := (CfsExtentAddress.mem_held _ number).mp member
    rw [placed.count] at counted
    rw [numbers index counted] at found
    exact ⟨index, counted, found.symm⟩
  -- A chunk of another block is marked as used and stays so when this block's chunks are freed.
  have taken (other : Nat) (within : other < logicBlocksPerExtent) (differ : other ≠ block)
      (number : Nat) (member : number ∈ (header.cfsExtentAddress other).held) :
      (releaseChunks header (header.cfsExtentAddress block)).allocatedChunkUsages number =
        true := by
    have free : number ∉ (header.cfsExtentAddress block).held :=
      kept.disjoint other within block inside differ number member
    calc
      (releaseChunks header (header.cfsExtentAddress block)).allocatedChunkUsages number
          = header.allocatedChunkUsages number := writeAll_unlisted _ _ _ free
      _ = true := kept.covered rfl other within number member
  rw [writeBlock]
  rw [if_neg]
  · refine ⟨_, rfl, ?_⟩
    simp only [extendChunksOfBlockCore, short, decide_true, ↓reduceIte]
    apply Kept.replace true kept inside rfl
    · exact placed.sized
    · exact placed.coded
    · exact Nat.max_le.mpr ⟨kept.ends, inside⟩
    · rw [placed.count]
      exact few
    · exact placed.grows
    · intro number member
      obtain ⟨index, counted, value⟩ := held number member
      have positive := placed.positive
      have highest : number ≤
          (extendReusing header (header.cfsExtentAddress block) needChunks).1.allocatedChunks := by
        lia
      refine ⟨by lia, highest, ?_⟩
      intro other within differ elsewhere
      have used := taken other within differ number elsewhere
      have below := kept.below other within number elsewhere
      obtain clear | above := placed.free index counted
      · rw [← value, used] at clear
        cases clear
      · lia
    · exact fun _ => placed.marked
    · intro reuse
      cases reuse
    · intro _
      rw [placed.usages]
      refine ⟨?_, ?_⟩
      · intro number member
        obtain ⟨index, counted, value⟩ := held number member
        exact writeRange_inside _ _ _ _ _ (by omega) (by lia)
      · intro other within differ number member
        exact writeRange_true_of_set _ _ _ _ (taken other within differ number member)
    · intro _ index counted
      rw [placed.count] at counted
      have zero := numbers 0 (by omega)
      have value := numbers index counted
      lia
  · rintro ⟨-, -, number, member, stray⟩
    simp only [extendChunksOfBlockCore, short] at member
    obtain ⟨index, counted, value⟩ := held number member
    lia

/-- A write that fits keeps the invariant. -/
theorem Kept.write (listed : location.chunkSize ∈ chunkSizeList)
    (kept : Kept enableTpcFragmentChunks location header) (inside : block < logicBlocksPerExtent)
    (few : needChunks ≤ chunksPerBlock location.chunkSize)
    (fits : Fits enableTpcFragmentChunks header block needChunks) :
    ∃ written, writeBlock enableTpcFragmentChunks header block needChunks actualUse =
        some written ∧ Kept enableTpcFragmentChunks location written.2 := by
  by_cases short : (header.cfsExtentAddress block).allocatedChunks < needChunks
  · cases enableTpcFragmentChunks with
    | false =>
      exact Kept.writeAppending actualUse listed kept inside few short
    | true =>
      exact Kept.writeReusing actualUse kept inside few short fits
  · exact Kept.writeEnough enableTpcFragmentChunks actualUse kept inside short

variable (location header)

/-- The header on disk and the one in the buffer meet the invariant. -/
structure KeptState (state : ExtentState) : Prop where
  disk : Kept enableTpcFragmentChunks location state.disk
  page : ∀ header, state.page = some header → Kept enableTpcFragmentChunks location header

variable {enableTpcFragmentChunks location}

/-- A header that is read has the invariant. -/
theorem KeptState.read {zeroDamagedPages : Bool} {state : ExtentState} {header : CfsExtentHeader}
    (kept : KeptState enableTpcFragmentChunks location state)
    (safe : LoadSafe enableTpcFragmentChunks state)
    (result : pcaBufReadPage enableTpcFragmentChunks location zeroDamagedPages state =
      some header) : Kept enableTpcFragmentChunks location header := by
  rw [pcaBufReadPage] at result
  cases page : state.page with
  | some loaded =>
    simp only [page, Option.some.injEq] at result
    rw [← result]
    exact kept.page loaded page
  | none =>
    simp only [page] at result
    exact Kept.load location kept.disk (fun reuse => safe reuse page) result

theorem KeptState.written (kept : Kept enableTpcFragmentChunks location header) :
    KeptState enableTpcFragmentChunks location { disk := header, page := some header } where
  disk := kept
  page := by
    intro loaded same
    cases same
    exact kept

variable (enableTpcFragmentChunks location)

/-- The headers meet the invariant, and the model of the run has not stopped. -/
def KeptRun (state : Option ExtentState) : Prop :=
  ∃ reached, state = some reached ∧ KeptState enableTpcFragmentChunks location reached

/-- Every event that meets its condition keeps the invariant. -/
theorem KeptRun.step (listed : location.chunkSize ∈ chunkSizeList) {state : Option ExtentState}
    {event : CfsEvent} (run : KeptRun enableTpcFragmentChunks location state)
    (legal : LegalStep location state event)
    (safe : SafeStep enableTpcFragmentChunks location state event) :
    KeptRun enableTpcFragmentChunks location
      (cfsStep enableTpcFragmentChunks location state event) := by
  obtain ⟨before, rfl, kept⟩ := run
  have condition := safe before rfl
  rw [cfsStep, Option.bind_some]
  cases event with
  | evict =>
    refine ⟨_, rfl, kept.disk, ?_⟩
    intro header absent
    cases absent
  | read zeroDamagedPages =>
    cases result : pcaBufReadPage enableTpcFragmentChunks location zeroDamagedPages before with
    | none =>
      simp only [result]
      exact ⟨before, rfl, kept⟩
    | some header =>
      simp only [result]
      refine ⟨_, rfl, kept.disk, ?_⟩
      intro loaded same
      cases same
      exact kept.read condition result
  | write zeroDamagedPages block needChunks actualUse isExtend =>
    cases result : pcaBufReadPage enableTpcFragmentChunks location zeroDamagedPages before with
    | none =>
      simp only [result]
      exact ⟨before, rfl, kept⟩
    | some header =>
      simp only [result]
      have read := kept.read condition.1 result
      obtain ⟨written, done, after⟩ := Kept.write enableTpcFragmentChunks
        actualUse listed read legal.1 legal.2.1 (condition.2 header result)
      simp only [done, Option.map_some]
      refine ⟨_, rfl, ?_, ?_⟩
      · dsimp only
        split
        · exact after
        · exact kept.disk
      · intro loaded same
        cases same
        exact after
  | truncate zeroDamagedPages isSegmentPage extentOffset =>
    by_cases early : extentOffset = 0 ∨ isSegmentPage = true
    · simp only [if_pos early]
      exact ⟨before, rfl, kept⟩
    · simp only [if_neg early]
      cases result : pcaBufReadPage enableTpcFragmentChunks location zeroDamagedPages before with
      | none => exact ⟨before, rfl, kept⟩
      | some header =>
        rw [not_or, Bool.not_eq_true] at early
        have read := kept.read (condition early.1 early.2) result
        exact ⟨_, rfl, KeptState.written _ (Kept.truncate isSegmentPage read legal)⟩
  | recover zeroDamagedPages =>
    cases result : pcaBufReadPage enableTpcFragmentChunks location zeroDamagedPages before with
    | none =>
      simp only [result]
      exact ⟨before, rfl, kept⟩
    | some header =>
      simp only [result]
      have read := kept.read condition.1 result
      exact ⟨_, rfl, KeptState.written _ (Kept.recover read (condition.2 header result))⟩

end Writes

/-- In every run of a new extent whose events meet their conditions, no two blocks share a chunk,
neither in the header on disk nor in the one in the buffer, and all chunks are at most the
highest number given out. -/
theorem chunks_never_shared (enableTpcFragmentChunks : Bool) (location : ExtentLocation)
    (events : List CfsEvent) (listed : location.chunkSize ∈ chunkSizeList)
    (legal : Along (cfsStep enableTpcFragmentChunks location) (LegalStep location)
      (some (newExtent location)) events) (safe : Along (cfsStep enableTpcFragmentChunks location)
      (SafeStep enableTpcFragmentChunks location) (some (newExtent location)) events) :
    ∃ state, events.foldl (cfsStep enableTpcFragmentChunks location) (some (newExtent location)) =
        some state ∧
      Unshared state.disk ∧ ∀ header, state.page = some header → Unshared header := by
  have start : KeptRun enableTpcFragmentChunks location (some (newExtent location)) :=
    ⟨_, rfl, KeptState.written _ (Kept.initial enableTpcFragmentChunks location)⟩
  have both : Along (cfsStep enableTpcFragmentChunks location)
      (fun state event => LegalStep location state event ∧
        SafeStep enableTpcFragmentChunks location state event)
      (some (newExtent location)) events := along_and _ _ _ _ _ legal safe
  obtain ⟨state, reached, kept⟩ := along_invariant (cfsStep enableTpcFragmentChunks location) _
    (KeptRun enableTpcFragmentChunks location) (fun state event run conditions =>
      KeptRun.step enableTpcFragmentChunks location listed run conditions.1 conditions.2)
    _ events start both
  refine ⟨state, reached, ?_, ?_⟩
  · exact Kept.unshared location kept.disk
  · intro header loaded
    exact Kept.unshared location (kept.page header loaded)

/-- Chunks of half a page. -/
def halfPages : ExtentLocation where
  chunkSize := 4096
  algorithm := 1

/-- Two blocks are written, the second is cut off, recovery corrects the header, and a third block
is written. -/
def recoveredRun : List CfsEvent :=
  [.write false 0 1 1 true, .write false 1 1 1 true, .truncate false false 1, .recover false,
    .write false 2 1 1 true]

/-- Two blocks are written and grow, one is cut off and written again after the buffer was given
away. -/
def orderlyRun : List CfsEvent :=
  [.write false 0 1 1 true, .write false 1 2 1 true, .write false 0 2 2 false, .evict,
    .read false, .truncate false false 1, .write false 1 1 1 true, .recover false]

theorem recoveredRun_shares :
    ((recoveredRun.foldl (cfsStep false halfPages) (some (newExtent halfPages))).map
      fun state => ((state.disk.cfsExtentAddress 1).held, (state.disk.cfsExtentAddress 2).held)) =
      some ([2], [2]) := by
  decide

theorem recoveredRun_legal :
    Along (cfsStep false halfPages) (LegalStep halfPages) (some (newExtent halfPages))
      recoveredRun := by
  decide

/-- A run with truncation and recovery in which two blocks come to share a chunk. -/
theorem recovery_shares_truncated_chunk :
    ¬∀ (enableTpcFragmentChunks : Bool) (location : ExtentLocation) (events : List CfsEvent),
      location.chunkSize ∈ chunkSizeList →
      Along (cfsStep enableTpcFragmentChunks location) (LegalStep location)
        (some (newExtent location)) events →
      ∃ state, events.foldl (cfsStep enableTpcFragmentChunks location)
          (some (newExtent location)) = some state ∧
        Unshared state.disk ∧ ∀ header, state.page = some header → Unshared header := by
  intro always
  obtain ⟨state, reached, unshared, _⟩ := always false halfPages recoveredRun
    (by decide) recoveredRun_legal
  have shares := recoveredRun_shares
  rw [reached, Option.map_some, Option.some.injEq, Prod.mk.injEq] at shares
  apply unshared.disjoint 1 (by decide) 2 (by decide) (by decide) 2
  · rw [shares.1]
    exact List.mem_singleton.mpr rfl
  · rw [shares.2]
    exact List.mem_singleton.mpr rfl

/-- Where fragments are reused, a run with a truncation, a load and a recovery meets all
conditions. -/
theorem chunks_never_shared_orderly : halfPages.chunkSize ∈ chunkSizeList ∧
      ∃ state, orderlyRun.foldl (cfsStep true halfPages) (some (newExtent halfPages)) = some state ∧
        Unshared state.disk ∧ ∀ header, state.page = some header → Unshared header :=
  ⟨by decide, chunks_never_shared true halfPages orderlyRun (by decide) (by decide)
    (by decide +kernel)⟩

end OpenGauss.Cfs
