import OpenGauss.Cfs.HeaderLoad
import Mathlib.Algebra.BigOperators.Group.Finset.Basic
import Mathlib.Algebra.Order.BigOperators.Group.Finset

/-!
# Ownership of chunks

No two blocks of an extent share a chunk. A block that truncation has cut off keeps its chunks,
but recovery computes the highest chunk number from the remaining blocks alone, and a load builds
the usage bitmap from them alone: both can let a later write take a chunk that the cut-off block
still has. The usage bitmap is also shorter than the chunk numbers can grow. Runs that avoid
these cases keep every chunk with one block.
-/
namespace OpenGauss.Cfs

open Function List OpenGauss.Base

/-- Where a chunk starts in its extent (`OffsetOfPageCompressChunk`). -/
def offsetOfPageCompressChunk (chunkSize chunkNo : Nat) : Nat := chunkSize * (chunkNo - 1)

/-- A byte of the extent lies in a chunk. -/
def InChunk (chunkSize number byte : Nat) : Prop :=
  offsetOfPageCompressChunk chunkSize number ≤ byte ∧
    byte < offsetOfPageCompressChunk chunkSize number + chunkSize

/-- Two different blocks have no chunk in common, so a write of one touches no byte of the other,
and no block has a chunk above the highest one given out. -/
structure Unshared (header : CfsExtentHeader) : Prop where
  disjoint : ∀ first < logicBlocksPerExtent, ∀ second < logicBlocksPerExtent, first ≠ second →
    ∀ number ∈ (header.cfsExtentAddress first).held, number ∉ (header.cfsExtentAddress second).held
  below : ∀ block < logicBlocksPerExtent, ∀ number ∈ (header.cfsExtentAddress block).held,
    number ≤ header.allocatedChunks
  apart : ∀ first < logicBlocksPerExtent, ∀ second < logicBlocksPerExtent, first ≠ second →
    ∀ one ∈ (header.cfsExtentAddress first).held, ∀ other ∈ (header.cfsExtentAddress second).held,
        ∀ byte, ¬(InChunk header.chunkSize one byte ∧ InChunk header.chunkSize other byte)

/-- Blocks at or above the relation's end have no chunks. -/
def NoneBeyond (header : CfsExtentHeader) : Prop :=
  ∀ block < logicBlocksPerExtent, header.nblocks ≤ block →
    (header.cfsExtentAddress block).allocatedChunks = 0

/-- Blocks at or above the relation's end have no chunk above those of the blocks before it. -/
def NoneAbove (header : CfsExtentHeader) : Prop :=
  ∀ block < logicBlocksPerExtent, header.nblocks ≤ block →
    ∀ number ∈ (header.cfsExtentAddress block).held, number ≤ maxChunkOfBlocks header header.nblocks

instance (header : CfsExtentHeader) : Decidable (NoneBeyond header) :=
  inferInstanceAs (Decidable (∀ block < logicBlocksPerExtent, header.nblocks ≤ block →
    (header.cfsExtentAddress block).allocatedChunks = 0))

instance (header : CfsExtentHeader) : Decidable (NoneAbove header) :=
  inferInstanceAs (Decidable (∀ block < logicBlocksPerExtent, header.nblocks ≤ block →
    ∀ number ∈ (header.cfsExtentAddress block).held,
      number ≤ maxChunkOfBlocks header header.nblocks))

/-- The place beside a block's own chunks, once they are released. -/
def placeBeside (header : CfsExtentHeader) (address : CfsExtentAddress) (needChunks : Nat) : Nat :=
  cfsFindAdjacentEmptyChunkNo (releaseChunks header address).allocatedChunkUsages
    (needChunks - address.allocatedChunks) (address.chunknos 0)
    (address.chunknos (address.allocatedChunks - 1)) header.allocatedChunks

/-- The first place for a block, once its chunks are released. -/
def placeFromHead (header : CfsExtentHeader) (address : CfsExtentAddress) (needChunks : Nat) :
    Nat :=
  cfsFindEmptyChunkNo (releaseChunks header address).allocatedChunkUsages chunkStartNum
    header.allocatedChunks needChunks

/-- Where the chunks of a block have to come from behind the highest number, the numbers stay
inside the bitmap and its padding. -/
def Fits (enableTpcFragmentChunks : Bool) (header : CfsExtentHeader) (block needChunks : Nat) :
    Prop :=
  let address := header.cfsExtentAddress block
  enableTpcFragmentChunks = true → address.allocatedChunks < needChunks →
    if isAtTail header address then
      header.allocatedChunks + (needChunks - address.allocatedChunks) < paddedUsageBits
    else
      (0 < address.allocatedChunks ∧ placeBeside header address needChunks ≠ invalidChunkNum) ∨
      (needChunks ≤ (releaseChunks header address).nFragmentChunks ∧
        placeFromHead header address needChunks ≠ invalidChunkNum) ∨
      header.allocatedChunks + needChunks < paddedUsageBits

instance (enableTpcFragmentChunks : Bool) (header : CfsExtentHeader) (block needChunks : Nat) :
    Decidable (Fits enableTpcFragmentChunks header block needChunks) :=
  inferInstanceAs (Decidable (_ → _ → ite _ _ _))

/-- What the callers of the operations promise: blocks of the extent and chunk counts of a
page. -/
def CfsEvent.Legal (location : ExtentLocation) : CfsEvent → Prop
  | .evict => True
  | .read _ => True
  | .write _ block needChunks actualUse _ =>
    block < logicBlocksPerExtent ∧ needChunks ≤ chunksPerBlock location.chunkSize ∧
      actualUse ≤ chunksPerBlock location.chunkSize
  | .truncate _ _ extentOffset => extentOffset < logicBlocksPerExtent
  | .recover _ => True

instance (location : ExtentLocation) (event : CfsEvent) : Decidable (event.Legal location) :=
  match event with
  | .evict => isTrue trivial
  | .read _ => isTrue trivial
  | .write .. => inferInstanceAs (Decidable (_ ∧ _))
  | .truncate .. => inferInstanceAs (Decidable (_ < _))
  | .recover _ => isTrue trivial

section Conditions

variable (enableTpcFragmentChunks : Bool) (location : ExtentLocation)

/-- Where fragments are reused and the header has to be loaded, no block that truncation has cut
off has chunks. -/
def LoadSafe (state : ExtentState) : Prop :=
  enableTpcFragmentChunks = true → state.page = none → NoneBeyond state.disk

instance (state : ExtentState) : Decidable (LoadSafe enableTpcFragmentChunks state) :=
  match page : state.page with
  | some header => isTrue (fun _ absent => by
      rw [page] at absent
      cases absent)
  | none => decidable_of_iff (enableTpcFragmentChunks = true → NoneBeyond state.disk)
      ⟨fun holds reuse _ => holds reuse, fun holds reuse => holds reuse page⟩

/-- The condition under which an event keeps the chunks of the blocks apart. -/
def EventSafe (state : ExtentState) : CfsEvent → Prop
  | .evict => True
  | .read _ => LoadSafe enableTpcFragmentChunks state
  | .write zeroDamagedPages block needChunks _ _ =>
    LoadSafe enableTpcFragmentChunks state ∧
      ∀ header, pcaBufReadPage enableTpcFragmentChunks location zeroDamagedPages state =
        some header → Fits enableTpcFragmentChunks header block needChunks
  | .truncate _ isSegmentPage extentOffset =>
    extentOffset ≠ 0 → isSegmentPage = false → LoadSafe enableTpcFragmentChunks state
  | .recover zeroDamagedPages =>
    LoadSafe enableTpcFragmentChunks state ∧
      ∀ header, pcaBufReadPage enableTpcFragmentChunks location zeroDamagedPages state =
        some header → NoneAbove header

instance (state : ExtentState) (event : CfsEvent) :
    Decidable (EventSafe enableTpcFragmentChunks location state event) :=
  match event with
  | .evict => isTrue trivial
  | .read _ => inferInstanceAs (Decidable (LoadSafe enableTpcFragmentChunks state))
  | .write .. => inferInstanceAs (Decidable (_ ∧ ∀ _, _ = some _ → Fits _ _ _ _))
  | .truncate .. =>
    inferInstanceAs (Decidable (_ → _ → LoadSafe enableTpcFragmentChunks state))
  | .recover _ => inferInstanceAs (Decidable (_ ∧ ∀ _, _ = some _ → NoneAbove _))

/-- The callers keep their promises. -/
def LegalStep (_state : Option ExtentState) (event : CfsEvent) : Prop := event.Legal location

/-- The event meets its condition in the state before it. -/
def SafeStep (state : Option ExtentState) (event : CfsEvent) : Prop :=
  ∀ before, state = some before → EventSafe enableTpcFragmentChunks location before event

instance (state : Option ExtentState) (event : CfsEvent) :
    Decidable (LegalStep location state event) :=
  inferInstanceAs (Decidable (event.Legal location))

instance (state : Option ExtentState) (event : CfsEvent) :
    Decidable (SafeStep enableTpcFragmentChunks location state event) :=
  inferInstanceAs (Decidable (∀ before, state = some before →
    EventSafe enableTpcFragmentChunks location before event))

/-- What holds of a header in every state of a safe run. -/
structure Kept (header : CfsExtentHeader) : Prop where
  sized : header.chunkSize = location.chunkSize
  coded : header.algorithm = location.algorithm
  ends : header.nblocks ≤ logicBlocksPerExtent
  few : ∀ block < logicBlocksPerExtent,
    (header.cfsExtentAddress block).allocatedChunks ≤ chunksPerBlock location.chunkSize
  positive : ∀ block < logicBlocksPerExtent, ∀ number ∈ (header.cfsExtentAddress block).held,
    1 ≤ number
  below : ∀ block < logicBlocksPerExtent, ∀ number ∈ (header.cfsExtentAddress block).held,
    number ≤ header.allocatedChunks
  disjoint : ∀ first < logicBlocksPerExtent, ∀ second < logicBlocksPerExtent, first ≠ second →
    ∀ number ∈ (header.cfsExtentAddress first).held, number ∉ (header.cfsExtentAddress second).held
  marked : enableTpcFragmentChunks = true → header.allocatedChunks < paddedUsageBits
  counted : enableTpcFragmentChunks = false →
    header.allocatedChunks ≤ maxLogicChunksNumber location.chunkSize +
      ∑ block ∈ Finset.range logicBlocksPerExtent, (header.cfsExtentAddress block).allocatedChunks
  covered : enableTpcFragmentChunks = true → ∀ block < logicBlocksPerExtent,
    ∀ number ∈ (header.cfsExtentAddress block).held, header.allocatedChunkUsages number = true
  adjacent : enableTpcFragmentChunks = true → ∀ block < logicBlocksPerExtent,
    ∀ index < (header.cfsExtentAddress block).allocatedChunks,
      (header.cfsExtentAddress block).chunknos index =
        (header.cfsExtentAddress block).chunknos 0 + index

end Conditions

theorem CfsExtentAddress.mem_held (address : CfsExtentAddress) (number : Nat) :
    number ∈ address.held ↔ ∃ index < address.allocatedChunks, address.chunknos index = number := by
  simp [CfsExtentAddress.held]

/-- A byte lies in one chunk. -/
theorem inChunk_unique {chunkSize one other byte : Nat} (onePositive : 1 ≤ one)
    (otherPositive : 1 ≤ other) (inOne : InChunk chunkSize one byte)
    (inOther : InChunk chunkSize other byte) : one = other := by
  have ordered (first second : Nat) (low : 1 ≤ first) (less : first < second) :
      offsetOfPageCompressChunk chunkSize first + chunkSize ≤
        offsetOfPageCompressChunk chunkSize second := by
    have next : first - 1 + 1 ≤ second - 1 := by omega
    calc
      offsetOfPageCompressChunk chunkSize first + chunkSize
          = chunkSize * (first - 1 + 1) := by rw [offsetOfPageCompressChunk, Nat.mul_succ]
      _ ≤ chunkSize * (second - 1) := Nat.mul_le_mul_left chunkSize next
  obtain less | same | more := Nat.lt_trichotomy one other
  · have gap := ordered one other onePositive less
    have first := inOne.2
    have second := inOther.1
    omega
  · exact same
  · have gap := ordered other one otherPositive more
    have first := inOther.2
    have second := inOne.1
    omega

section Invariant

variable (fragments : Bool) (location : ExtentLocation)

variable (address : CfsExtentAddress) (before after : CfsExtentHeader) (header : CfsExtentHeader)
  (check : AddressCheck) (chunkSize blocks : Nat)

variable {fragments header}

theorem Kept.unshared (kept : Kept fragments location header) : Unshared header :=
  { kept with
    apart := by
      intro first firstInside second secondInside differ one inFirst other inSecond byte both
      have same := inChunk_unique (kept.positive first firstInside one inFirst)
        (kept.positive second secondInside other inSecond) both.1 both.2
      rw [← same] at inSecond
      exact kept.disjoint first firstInside second secondInside differ one inFirst inSecond }

variable (fragments)

theorem Kept.initial : Kept fragments location (initExtentHeader location) where
  sized := rfl
  coded := rfl
  ends := Nat.zero_le _
  few := fun _ _ => Nat.zero_le _
  positive := by simp [initExtentHeader, zeroAddress, CfsExtentAddress.held]
  below := by simp [initExtentHeader, zeroAddress, CfsExtentAddress.held]
  disjoint := by simp [initExtentHeader, zeroAddress, CfsExtentAddress.held]
  marked := fun _ => by
    show 0 < paddedUsageBits
    decide
  counted := fun _ => Nat.zero_le _
  covered := by simp [initExtentHeader, zeroAddress, CfsExtentAddress.held]
  adjacent := by simp [initExtentHeader, zeroAddress]

/-- Two headers whose blocks have the same chunks. -/
structure SameChunks (before after : CfsExtentHeader) : Prop where
  sized : after.chunkSize = before.chunkSize
  coded : after.algorithm = before.algorithm
  usages : after.allocatedChunkUsages = before.allocatedChunkUsages
  counts : ∀ block, (after.cfsExtentAddress block).allocatedChunks =
    (before.cfsExtentAddress block).allocatedChunks
  numbers : ∀ block, (after.cfsExtentAddress block).chunknos =
    (before.cfsExtentAddress block).chunknos

theorem SameChunks.held (before after : CfsExtentHeader) (same : SameChunks before after)
    (block : Nat) : (after.cfsExtentAddress block).held = (before.cfsExtentAddress block).held := by
  rw [CfsExtentAddress.held, CfsExtentAddress.held, same.counts, same.numbers]

variable {fragments location}

/-- The invariant depends on the chunks. -/
theorem Kept.sameChunks
    (kept : Kept fragments location before) (same : SameChunks before after)
    (ends : after.nblocks ≤ logicBlocksPerExtent)
    (lower : after.allocatedChunks ≤ before.allocatedChunks)
    (below : ∀ block < logicBlocksPerExtent, ∀ number ∈ (before.cfsExtentAddress block).held,
      number ≤ after.allocatedChunks) : Kept fragments location after where
  sized := same.sized.trans kept.sized
  coded := same.coded.trans kept.coded
  ends := ends
  few := by
    intro block inside
    rw [same.counts]
    exact kept.few block inside
  positive := by
    intro block inside
    rw [same.held]
    exact kept.positive block inside
  below := by
    intro block inside
    rw [same.held]
    exact below block inside
  disjoint := by
    intro first firstInside second secondInside
    rw [same.held, same.held]
    exact kept.disjoint first firstInside second secondInside
  marked := fun reuse => lt_of_le_of_lt lower (kept.marked reuse)
  counted := by
    intro reuse
    have before := kept.counted reuse
    simp only [same.counts]
    lia
  covered := by
    intro reuse block inside
    rw [same.held, same.usages]
    exact kept.covered reuse block inside
  adjacent := by
    intro reuse block inside
    rw [same.counts, same.numbers]
    exact kept.adjacent reuse block inside

/-- Truncation keeps the invariant. -/
theorem Kept.truncate (isSegmentPage : Bool) {extentOffset : Nat}
    (kept : Kept fragments location header) (inside : extentOffset < logicBlocksPerExtent) :
    Kept fragments location (cfsMdTruncate header isSegmentPage extentOffset) := by
  rw [cfsMdTruncate]
  split
  · exact kept
  · apply Kept.sameChunks header _ kept
    · exact {
        sized := rfl
        coded := rfl
        usages := rfl
        counts := by
          intro block
          dsimp only
          split <;> rfl
        numbers := by
          intro block
          dsimp only
          split <;> rfl }
    · exact inside.le
    · exact le_rfl
    · exact kept.below

theorem foldl_max_le_iff (values : List Nat) (start bound : Nat) :
    values.foldl max start ≤ bound ↔ start ≤ bound ∧ ∀ value ∈ values, value ≤ bound := by
  induction values generalizing start with
  | nil => simp
  | cons value rest ih =>
    rw [foldl_cons, ih]
    simp [and_assoc]

theorem le_maxChunkOfBlocks {blocks : Nat} (block : Nat) {number : Nat}
    (inside : block < blocks) (held : number ∈ (header.cfsExtentAddress block).held) :
    number ≤ maxChunkOfBlocks header blocks := by
  have bounded := (foldl_max_le_iff ((List.range blocks).flatMap
    (fun block => (header.cfsExtentAddress block).held)) 0 (maxChunkOfBlocks header blocks)).mp
      le_rfl
  apply bounded.2
  exact mem_flatMap.mpr ⟨block, mem_range.mpr inside, held⟩

/-- Recovery keeps it where no chunk is above the count. -/
theorem Kept.recover
    (kept : Kept fragments location header) (none : NoneAbove header) :
    Kept fragments location (mdRecoveryPcaPage header) := by
  apply Kept.sameChunks header _ kept
  · exact {
      sized := rfl
      coded := rfl
      usages := rfl
      counts := fun _ => rfl
      numbers := fun _ => rfl }
  · exact kept.ends
  · apply (foldl_max_le_iff _ 0 _).mpr
    refine ⟨Nat.zero_le _, ?_⟩
    intro number member
    obtain ⟨block, inside, held⟩ := mem_flatMap.mp member
    exact kept.below block (lt_of_lt_of_le (mem_range.mp inside) kept.ends) number held
  · intro block inside number held
    by_cases cut : header.nblocks ≤ block
    · exact none block inside cut number held
    · exact le_maxChunkOfBlocks block (Nat.lt_of_not_le cut) held

/-- An address after a load: it has the chunks it had or none. -/
def Shrunk (before after : CfsExtentAddress) : Prop :=
  after.allocatedChunks = 0 ∨ (after.allocatedChunks = before.allocatedChunks ∧
      ∀ index < after.allocatedChunks, after.chunknos index = before.chunknos index)

theorem Shrunk.held {before after : CfsExtentAddress} (shrunk : Shrunk before after)
    {number : Nat} (held : number ∈ after.held) : number ∈ before.held := by
  obtain ⟨index, inside, found⟩ := (after.mem_held number).mp held
  obtain none | ⟨count, numbers⟩ := shrunk
  · omega
  · apply (before.mem_held number).mpr
    exact ⟨index, by omega, by rw [← numbers index inside, found]⟩

theorem Shrunk.count {before after : CfsExtentAddress} (shrunk : Shrunk before after) :
    after.allocatedChunks ≤ before.allocatedChunks := by
  obtain none | ⟨count, _⟩ := shrunk
  · omega
  · omega

variable (header)

/-- What the check has done up to a block. -/
structure Checked (header : CfsExtentHeader) (chunkSize blocks : Nat) (check : AddressCheck) :
    Prop where
  shrunk : ∀ block, Shrunk (header.cfsExtentAddress block) (check.addresses block)
  ahead : ∀ block, blocks ≤ block → check.addresses block = header.cfsExtentAddress block
  highest : ∀ block < blocks, ∀ number ∈ (check.addresses block).held,
    number ≤ check.maxAllocatedChunkno
  inExtent : check.maxAllocatedChunkno ≤ maxLogicChunksNumber chunkSize
  ofBlocks : check.maxAllocatedChunkno ≤ maxChunkOfBlocks header blocks
  nonzero : blocksUpTo check.maxNonzeroBlocknum ≤ blocks

theorem maxChunkOfBlocks_mono {fewer more : Nat}
    (grows : fewer ≤ more) : maxChunkOfBlocks header fewer ≤ maxChunkOfBlocks header more := by
  apply (foldl_max_le_iff _ 0 _).mpr
  refine ⟨Nat.zero_le _, ?_⟩
  intro number member
  obtain ⟨block, inside, held⟩ := mem_flatMap.mp member
  exact le_maxChunkOfBlocks block (lt_of_lt_of_le (mem_range.mp inside) grows) held

theorem Shrunk.zero (before : CfsExtentAddress) : Shrunk before zeroAddress := .inl rfl

theorem verifyChecksum_shrunk : Shrunk address (verifyChecksum address) := by
  rw [verifyChecksum]
  split
  · exact Shrunk.zero address
  · exact .inr ⟨rfl, fun _ _ => rfl⟩

theorem clearBeyond_held : (clearBeyond address).held = address.held := by
  apply map_congr_left
  intro index member
  have inside : index < address.allocatedChunks := mem_range.mp member
  simp only [clearBeyond]
  rw [if_pos inside]

theorem Shrunk.clearBeyond (before after : CfsExtentAddress) (shrunk : Shrunk before after) :
    Shrunk before (clearBeyond after) := by
  obtain none | ⟨count, numbers⟩ := shrunk
  · exact .inl none
  · refine .inr ⟨count, ?_⟩
    intro index inside
    have below : index < after.allocatedChunks := inside
    simp only [Cfs.clearBeyond]
    rw [if_pos below]
    exact numbers index below

/-- A zeroed block passes. -/
theorem Checked.zero {header : CfsExtentHeader} {chunkSize block : Nat} {check : AddressCheck}
    (checked : Checked header chunkSize block check) :
    Checked header chunkSize (block + 1) (check.zero block) where
  shrunk := by
    intro other
    by_cases same : other = block
    · subst same
      rw [AddressCheck.zero_addresses, update_self]
      exact Shrunk.zero _
    · rw [AddressCheck.zero_addresses, update_of_ne same]
      exact checked.shrunk other
  ahead := by
    intro other later
    rw [AddressCheck.zero_addresses, update_of_ne (by omega)]
    exact checked.ahead other (by omega)
  highest := by
    intro other before number
    by_cases same : other = block
    · subst same
      simp [zeroAddress, CfsExtentAddress.held]
    · rw [AddressCheck.zero_addresses, update_of_ne same]
      exact checked.highest other (by omega) number
  inExtent := checked.inExtent
  ofBlocks := le_trans checked.ofBlocks (maxChunkOfBlocks_mono header (Nat.le_succ block))
  nonzero := le_trans checked.nonzero (Nat.le_succ block)

/-- A block with valid chunks passes. -/
theorem Checked.accept {header : CfsExtentHeader} {chunkSize block : Nat} {check : AddressCheck}
    (checked : Checked header chunkSize block check) (address : CfsExtentAddress)
    (shrunk : Shrunk (header.cfsExtentAddress block) address)
    (valid : ∀ number ∈ address.held, number ≤ maxLogicChunksNumber chunkSize) :
    Checked header chunkSize (block + 1) (check.accept block address) where
  shrunk := by
    intro other
    by_cases same : other = block
    · subst same
      rw [AddressCheck.accept_addresses, update_self]
      exact shrunk
    · rw [AddressCheck.accept_addresses, update_of_ne same]
      exact checked.shrunk other
  ahead := by
    intro other later
    rw [AddressCheck.accept_addresses, update_of_ne (by omega)]
    exact checked.ahead other (by omega)
  highest := by
    intro other before number held
    have counted := (foldl_max_le_iff address.held check.maxAllocatedChunkno
      (check.accept block address).maxAllocatedChunkno).mp le_rfl
    by_cases same : other = block
    · subst same
      rw [AddressCheck.accept_addresses, update_self] at held
      exact counted.2 number held
    · rw [AddressCheck.accept_addresses, update_of_ne same] at held
      exact le_trans (checked.highest other (by omega) number held) counted.1
  inExtent := (foldl_max_le_iff address.held _ _).mpr ⟨checked.inExtent, valid⟩
  ofBlocks := by
    apply (foldl_max_le_iff address.held _ _).mpr
    refine ⟨le_trans checked.ofBlocks (maxChunkOfBlocks_mono header (Nat.le_succ block)), ?_⟩
    intro number held
    exact le_maxChunkOfBlocks block (Nat.lt_succ_self block) (shrunk.held held)
  nonzero := by
    simp only [AddressCheck.accept]
    split
    · exact le_rfl
    · exact le_trans checked.nonzero (Nat.le_succ block)

/-- One more block is checked. -/
theorem Checked.step (chunkSize block : Nat) (damaged : Bool)
    (check after : AddressCheck) (checked : Checked header chunkSize block check)
    (result : checkAddress chunkSize damaged check block = some after) :
    Checked header chunkSize (block + 1) after := by
  have verified := verifyChecksum_shrunk (check.addresses block)
  rw [checked.ahead block le_rfl] at verified
  have zeroed := Checked.zero checked
  simp only [checkAddress, checked.ahead block le_rfl] at result
  by_cases many : chunksPerBlock chunkSize <
      (verifyChecksum (header.cfsExtentAddress block)).allocatedChunks
  · rw [if_pos many] at result
    cases damaged with
    | false => simp at result
    | true =>
      simp only [↓reduceIte, Option.some.injEq] at result
      rw [← result]
      exact zeroed
  · rw [if_neg many] at result
    by_cases refused : hasInvalidChunk check chunkSize
        (verifyChecksum (header.cfsExtentAddress block)) = true ∧ damaged = false
    · rw [if_pos refused] at result
      simp at result
    · rw [if_neg refused] at result
      obtain ⟨valid, kept⟩ : ∃ valid, valid = (if hasInvalidChunk check chunkSize
          (verifyChecksum (header.cfsExtentAddress block)) = true then zeroAddress
          else verifyChecksum (header.cfsExtentAddress block)) := ⟨_, rfl⟩
      rw [← kept] at result
      by_cases concluded : (clearBeyond valid).allocatedChunks < (clearBeyond valid).nchunks
      · rw [if_pos concluded] at result
        cases damaged with
        | false => simp at result
        | true =>
          simp only [↓reduceIte, Option.some.injEq] at result
          rw [← result]
          exact zeroed
      · rw [if_neg concluded, Option.some.injEq] at result
        rw [← result]
        apply Checked.accept checked
        · apply Shrunk.clearBeyond
          rw [kept]
          split
          · exact Shrunk.zero _
          · exact verified
        · intro number held
          rw [clearBeyond_held, kept] at held
          split at held
          · simp [zeroAddress, CfsExtentAddress.held] at held
          · rename_i sound
            simp only [hasInvalidChunk, any_eq_true, not_exists, not_and] at sound
            have each := sound number held
            simp only [Bool.or_eq_true, decide_eq_true_eq] at each
            omega

/-- All blocks are checked. -/
theorem Checked.run (chunkSize : Nat) (damaged : Bool)
    (check after : AddressCheck) (first count : Nat)
    (checked : Checked header chunkSize first check)
    (result : checkAddresses chunkSize damaged check (List.range' first count) =
      some after) : Checked header chunkSize (first + count) after := by
  induction count generalizing first check with
  | zero =>
    simp only [checkAddresses, range'_zero, foldlM_nil, Option.pure_def,
      Option.some.injEq] at result
    rw [← result]
    exact checked
  | succ count ih =>
    rw [checkAddresses, range'_succ, foldlM_cons] at result
    cases one : checkAddress chunkSize damaged check first with
    | none => simp [one] at result
    | some next =>
      simp only [one] at result
      have rest := ih next (first + 1)
        (Checked.step header chunkSize first damaged check next checked one) result
      have total : first + 1 + count = first + (count + 1) := by omega
      rw [total] at rest
      exact rest

variable (fragments location)

/-- Dropping chunks keeps the invariant. -/
theorem Kept.shrink (kept : Kept fragments location before)
    (sized : after.chunkSize = before.chunkSize) (coded : after.algorithm = before.algorithm)
    (ends : after.nblocks ≤ logicBlocksPerExtent)
    (shrunk : ∀ block, Shrunk (before.cfsExtentAddress block) (after.cfsExtentAddress block))
    (below : ∀ block < logicBlocksPerExtent, ∀ number ∈ (after.cfsExtentAddress block).held,
      number ≤ after.allocatedChunks)
    (lower : after.allocatedChunks ≤ before.allocatedChunks)
    (inExtent : after.allocatedChunks ≤ maxLogicChunksNumber location.chunkSize)
    (covered : fragments = true → ∀ block < logicBlocksPerExtent,
      ∀ number ∈ (after.cfsExtentAddress block).held, after.allocatedChunkUsages number = true) :
    Kept fragments location after where
  sized := sized.trans kept.sized
  coded := coded.trans kept.coded
  ends := ends
  few := fun block inside => le_trans (shrunk block).count (kept.few block inside)
  positive := fun block inside number held =>
    kept.positive block inside number ((shrunk block).held held)
  below := below
  disjoint := by
    intro first firstInside second secondInside differ number inFirst inSecond
    exact kept.disjoint first firstInside second secondInside differ number
      ((shrunk first).held inFirst) ((shrunk second).held inSecond)
  marked := fun reuse => lt_of_le_of_lt lower (kept.marked reuse)
  counted := fun _ => le_trans inExtent (Nat.le_add_right _ _)
  covered := covered
  adjacent := by
    intro reuse block inside index held
    obtain none | ⟨count, numbers⟩ := shrunk block
    · omega
    · rw [numbers index held, numbers 0 (by lia)]
      exact kept.adjacent reuse block inside index (by omega)

variable {chunkSize blocks}

theorem repair_shrunk (checked : Checked header chunkSize blocks check) (block : Nat) :
    Shrunk (header.cfsExtentAddress block) ((check.repair header).cfsExtentAddress block) := by
  simp only [AddressCheck.repair]
  split
  · exact Shrunk.zero _
  · exact checked.shrunk block

theorem repair_below
    (checked : Checked header chunkSize blocks check) (block : Nat) (inside : block < blocks)
    (number : Nat) (held : number ∈ ((check.repair header).cfsExtentAddress block).held) :
    number ≤ check.maxAllocatedChunkno := by
  simp only [AddressCheck.repair] at held
  split at held
  · simp [zeroAddress, CfsExtentAddress.held] at held
  · exact checked.highest block inside number held

variable {fragments}

/-- Loading a header keeps the invariant; where fragments are reused, the blocks cut off by
truncation must not have chunks. -/
theorem Kept.load {damaged : Bool} {disk header : CfsExtentHeader}
    (kept : Kept fragments location disk) (safe : fragments = true → NoneBeyond disk)
    (result : pcaBufLoadPage fragments location damaged disk =
      some header) : Kept fragments location header := by
  have unchanged : checkHeaderOfCompressAddr disk location damaged = disk := by
    rw [checkHeaderOfCompressAddr]
    simp [kept.sized, kept.coded]
  have begin : Checked disk location.chunkSize 0 (startCheck disk) := {
    shrunk := fun _ => .inr ⟨rfl, fun _ _ => rfl⟩
    ahead := fun _ _ => rfl
    highest := fun _ low => absurd low (Nat.not_lt_zero _)
    inExtent := Nat.zero_le _
    ofBlocks := Nat.zero_le _
    nonzero := Nat.zero_le _ }
  rw [pcaBufLoadPage, checkAndRepairCompressAddress] at result
  rw [unchanged, range_eq_range'] at result
  cases checks : checkAddresses location.chunkSize damaged (startCheck disk)
      (List.range' 0 logicBlocksPerExtent) with
  | none => simp [checks] at result
  | some check =>
    have checked := Checked.run disk location.chunkSize damaged (startCheck disk) check 0
      logicBlocksPerExtent begin checks
    have lower : check.maxAllocatedChunkno ≤ disk.allocatedChunks := by
      apply le_trans checked.ofBlocks
      apply (foldl_max_le_iff _ 0 _).mpr
      refine ⟨Nat.zero_le _, ?_⟩
      intro number member
      obtain ⟨block, inside, held⟩ := mem_flatMap.mp member
      exact kept.below block (mem_range.mp inside) number held
    have ends : max disk.nblocks (blocksUpTo check.maxNonzeroBlocknum) ≤ logicBlocksPerExtent :=
      Nat.max_le.mpr ⟨kept.ends, checked.nonzero⟩
    simp only [checks, Option.map_some, Option.some.injEq] at result
    have shrunk := repair_shrunk disk check checked
    have below := repair_below disk check checked
    cases fragments with
    | false =>
      rw [← result]
      apply Kept.shrink false location disk (check.repair disk) kept rfl rfl ends shrunk below
        lower checked.inExtent
      intro reuse
      cases reuse
    | true =>
      rw [← result]
      apply Kept.shrink true location disk (constructUsages (check.repair disk)) kept rfl rfl ends
        shrunk below lower checked.inExtent
      intro _ block inside number held
      apply writeAll_listed
      apply mem_flatMap.mpr
      refine ⟨block, mem_range.mpr ?_, held⟩
      -- A block at or above the relation's end had no chunks on disk, so it has none now.
      by_contra cut
      have beyond : disk.nblocks ≤ block :=
        le_trans (Nat.le_max_left _ _) (Nat.le_of_not_lt cut)
      have empty := safe rfl block inside beyond
      obtain ⟨index, counted, _⟩ := (CfsExtentAddress.mem_held _ number).mp held
      have fewer := (shrunk block).count
      have some : index < ((check.repair disk).cfsExtentAddress block).allocatedChunks := counted
      lia

end Invariant

end OpenGauss.Cfs
