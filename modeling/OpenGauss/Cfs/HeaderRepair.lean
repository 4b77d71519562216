import OpenGauss.Cfs.ChunkPlacement

/-!
# Repairing extent headers

The check of a header that was read from disk goes through the blocks in order. An address whose
checksum is wrong is zeroed; one that fails another test is zeroed or reported, as the session asks.
The chunks of an address that passed belong to its block, and a later address that has one of them
fails. The counters of the header are made anew from the addresses that are left. The module states
what the check leaves and proves that it is sound, and finds nothing more to repair, exactly if no
address that passes has the same chunk twice.
-/
namespace OpenGauss.Cfs

open Function List OpenGauss.Base

/-- Whether the check of one block has found damage. -/
def addressRepaired (chunkSize : Nat) (check : AddressCheck) (block : Nat) : Bool :=
  let verified := verifyChecksum (check.addresses block)
  let invalid := hasInvalidChunk check chunkSize verified
  let valid := if invalid then zeroAddress else verified
  decide ((check.addresses block).checksum ≠ addrChecksum32 (check.addresses block)) ||
    decide (chunksPerBlock chunkSize < verified.allocatedChunks) || invalid ||
    (List.range (chunksPerBlock chunkSize)).any (fun index =>
      decide (valid.allocatedChunks ≤ index) && decide (valid.chunknos index ≠ 0)) ||
    decide (valid.allocatedChunks < valid.nchunks)

/-- Check the address of one block, and remember whether damage was found. -/
def reportAddress (chunkSize : Nat) (zeroDamagedPages : Bool) (state : Bool × AddressCheck)
    (block : Nat) : Option (Bool × AddressCheck) :=
  (checkAddress chunkSize zeroDamagedPages state.2 block).map fun after =>
    (state.1 || addressRepaired chunkSize state.2 block, after)

/-- Whether the counters of a header are repaired, or an address behind the last one that was
accepted. -/
def AddressCheck.countersRepaired (check : AddressCheck) (header : CfsExtentHeader) : Bool :=
  decide (header.nblocks < blocksUpTo check.maxNonzeroBlocknum) ||
    decide (header.allocatedChunks ≠ check.maxAllocatedChunkno) ||
    (List.range logicBlocksPerExtent).any fun block =>
      decide (blocksUpTo check.maxBlocknum ≤ block) &&
        !(decide ((check.addresses block).allocatedChunks = 0) &&
          decide ((check.addresses block).nchunks = 0))

/-- The check of a header with its verdict (`CheckAndRepairCompressAddress`): nothing for an error,
else whether it was repaired, and the header. Pages of a segment that is not compressed have no
header to check. -/
def checkAndRepairReported (isSegmentPage isCompressAllowed : Bool) (header : CfsExtentHeader)
    (location : ExtentLocation) (zeroDamagedPages : Bool) : Option (Bool × CfsExtentHeader) :=
  if isSegmentPage = true ∧ isCompressAllowed = false then some (false, header)
  else
    let checked := checkHeaderOfCompressAddr header location zeroDamagedPages
    let mismatch := decide (header.chunkSize ≠ location.chunkSize ∨
      header.algorithm ≠ location.algorithm)
    ((List.range logicBlocksPerExtent).foldlM (reportAddress location.chunkSize zeroDamagedPages)
      (mismatch, startCheck checked)).map fun state =>
        (state.1 || state.2.countersRepaired checked, state.2.repair checked)

/-- An address passes the tests behind the one of its checksum, if some chunks have an owner. -/
def Passes (chunkSize : Nat) (owned : List Nat) (address : CfsExtentAddress) : Prop :=
  address.allocatedChunks ≤ chunksPerBlock chunkSize ∧ address.nchunks ≤ address.allocatedChunks ∧
    ∀ number ∈ address.held, 1 ≤ number ∧ number ≤ maxLogicChunksNumber chunkSize ∧ number ∉ owned

instance (chunkSize : Nat) (owned : List Nat) (address : CfsExtentAddress) :
    Decidable (Passes chunkSize owned address) :=
  inferInstanceAs (Decidable (_ ∧ _ ∧ ∀ number ∈ address.held, _))

/-- The chunks that the first blocks own. -/
def ownedBy (chunkSize : Nat) (addresses : Nat → CfsExtentAddress) : Nat → List Nat
  | 0 => []
  | blocks + 1 =>
    let owned := ownedBy chunkSize addresses blocks
    if Passes chunkSize owned (verifyChecksum (addresses blocks)) then
      owned ++ (verifyChecksum (addresses blocks)).held
    else owned

/-- A block keeps its address. -/
def Survives (chunkSize : Nat) (addresses : Nat → CfsExtentAddress) (block : Nat) : Prop :=
  Passes chunkSize (ownedBy chunkSize addresses block) (verifyChecksum (addresses block))

instance (chunkSize : Nat) (addresses : Nat → CfsExtentAddress) (block : Nat) :
    Decidable (Survives chunkSize addresses block) :=
  inferInstanceAs (Decidable (Passes _ _ _))

/-- The address that the check leaves to a block. -/
def settled (chunkSize : Nat) (addresses : Nat → CfsExtentAddress) (block : Nat) :
    CfsExtentAddress :=
  if Survives chunkSize addresses block then clearBeyond (verifyChecksum (addresses block))
  else zeroAddress

/-- The last of the first blocks whose page uses chunks. -/
def lastUsed (addresses : Nat → CfsExtentAddress) : Nat → Option Nat
  | 0 => none
  | blocks + 1 => if 0 < (addresses blocks).nchunks then some blocks else lastUsed addresses blocks

variable (address : CfsExtentAddress) (chunkSize : Nat) (zeroDamagedPages : Bool)
  (addresses : Nat → CfsExtentAddress) (first count : Nat) (flag : Bool) (blocks : Nat)
  (block : Nat) (check : AddressCheck)

theorem ownedBy_succ : ownedBy chunkSize addresses (blocks + 1) =
      ownedBy chunkSize addresses blocks ++ (settled chunkSize addresses blocks).held := by
  rw [settled]
  by_cases survives : Survives chunkSize addresses blocks
  · rw [if_pos survives, clearBeyond_held]
    exact if_pos survives
  · rw [if_neg survives]
    exact (if_neg survives).trans (append_nil _).symm

/-- The owned chunks are those of the blocks before, once settled. -/
theorem mem_ownedBy (blocks number : Nat) : number ∈ ownedBy chunkSize addresses blocks ↔
      ∃ block < blocks, number ∈ (settled chunkSize addresses block).held := by
  induction blocks with
  | zero =>
    constructor
    · exact fun member => absurd member not_mem_nil
    · rintro ⟨block, low, -⟩
      exact absurd low (Nat.not_lt_zero block)
  | succ blocks ih =>
    rw [ownedBy_succ, mem_append, ih]
    constructor
    · rintro (⟨block, low, held⟩ | held)
      · exact ⟨block, by omega, held⟩
      · exact ⟨blocks, Nat.lt_succ_self blocks, held⟩
    · rintro ⟨block, low, held⟩
      by_cases last : block = blocks
      · rw [last] at held
        exact .inr held
      · exact .inl ⟨block, by omega, held⟩

/-- What the check has done up to a block. -/
structure Settled (chunkSize : Nat) (addresses : Nat → CfsExtentAddress) (blocks : Nat)
    (check : AddressCheck) : Prop where
  behind : ∀ block < blocks, check.addresses block = settled chunkSize addresses block
  ahead : ∀ block, blocks ≤ block → check.addresses block = addresses block
  owners : ∀ index, check.globalChunknos index ≠ 0 ↔ index + 1 ∈ ownedBy chunkSize addresses blocks
  highest : check.maxAllocatedChunkno = (ownedBy chunkSize addresses blocks).foldl max 0
  nonzero : check.maxNonzeroBlocknum = lastUsed (settled chunkSize addresses) blocks
  zeroed : ∀ block < blocks, blocksUpTo check.maxBlocknum ≤ block →
    settled chunkSize addresses block = zeroAddress
  last : (∀ block < blocks, Survives chunkSize addresses block) →
    blocksUpTo check.maxBlocknum = blocks

variable {chunkSize addresses}

/-- No chunk is invalid exactly if all are in range and not owned. -/
theorem hasInvalidChunk_iff (state : Settled chunkSize addresses blocks check)
    (address : CfsExtentAddress) : hasInvalidChunk check chunkSize address = false ↔
      ∀ number ∈ address.held, 1 ≤ number ∧ number ≤ maxLogicChunksNumber chunkSize ∧
        number ∉ ownedBy chunkSize addresses blocks := by
  rw [hasInvalidChunk, any_eq_false]
  constructor
  · intro none number held
    have valid := none number held
    simp only [Bool.or_eq_true, decide_eq_true_eq, not_or] at valid
    have owners := state.owners (number - 1)
    rw [Nat.sub_add_cancel (by lia)] at owners
    exact ⟨by lia, by omega, fun owned => valid.2 (owners.mpr owned)⟩
  · intro each number held
    obtain ⟨low, high, free⟩ := each number held
    have owners := state.owners (number - 1)
    rw [Nat.sub_add_cancel low] at owners
    simp only [Bool.or_eq_true, decide_eq_true_eq, not_or]
    exact ⟨⟨by omega, by omega⟩, fun owned => free (owners.mp owned)⟩

/-- An accepted block is settled as it is. -/
theorem Settled.accept (state : Settled chunkSize addresses block check)
    {address : CfsExtentAddress} (same : address = settled chunkSize addresses block) :
    Settled chunkSize addresses (block + 1) (check.accept block address) where
  behind := by
    intro other low
    by_cases here : other = block
    · rw [here, AddressCheck.accept_addresses, update_self, same]
    · rw [AddressCheck.accept_addresses, update_of_ne here]
      exact state.behind other (by omega)
  ahead := by
    intro other later
    rw [AddressCheck.accept_addresses, update_of_ne (by omega)]
    exact state.ahead other (by omega)
  owners := by
    intro index
    have before := state.owners index
    rw [ownedBy_succ, mem_append, ← before, ← same]
    show (if index + 1 ∈ address.held then block + 1 else check.globalChunknos index) ≠ 0 ↔ _
    by_cases held : index + 1 ∈ address.held
    · rw [if_pos held]
      exact ⟨fun _ => .inr held, fun _ => Nat.succ_ne_zero block⟩
    · rw [if_neg held]
      exact ⟨.inl, fun either => either.resolve_right held⟩
  highest := by
    show address.held.foldl max check.maxAllocatedChunkno = _
    rw [ownedBy_succ, foldl_append, ← state.highest, same]
  nonzero := by
    show (if 0 < address.nchunks then some block else check.maxNonzeroBlocknum) = _
    rw [lastUsed, state.nonzero, same]
  zeroed := by
    intro other low later
    have beyond : block + 1 ≤ other := later
    omega
  last := fun _ => rfl

/-- A damaged block is settled as zero. -/
theorem Settled.zero (state : Settled chunkSize addresses block check)
    (fails : ¬Survives chunkSize addresses block) :
    Settled chunkSize addresses (block + 1) (check.zero block) := by
  have empty : settled chunkSize addresses block = zeroAddress := if_neg fails
  have same : ownedBy chunkSize addresses (block + 1) = ownedBy chunkSize addresses block := by
    rw [ownedBy_succ, empty]
    exact append_nil _
  exact {
    behind := by
      intro other low
      by_cases here : other = block
      · rw [here, AddressCheck.zero_addresses, update_self, empty]
      · rw [AddressCheck.zero_addresses, update_of_ne here]
        exact state.behind other (by omega)
    ahead := by
      intro other later
      rw [AddressCheck.zero_addresses, update_of_ne (by omega)]
      exact state.ahead other (by omega)
    owners := by
      intro index
      rw [same]
      exact state.owners index
    highest := by
      rw [same]
      exact state.highest
    nonzero := by
      rw [lastUsed, empty]
      exact state.nonzero
    zeroed := by
      intro other low later
      by_cases here : other = block
      · rw [here]
        exact empty
      · exact state.zeroed other (by omega) later
    last := fun each => absurd (each block (Nat.lt_succ_self block)) fails }

variable (chunkSize addresses)

theorem Settled.survivor (state : Settled chunkSize addresses block check)
    (survives : Survives chunkSize addresses block) :
    ∃ after, checkAddress chunkSize zeroDamagedPages check block = some after ∧
      Settled chunkSize addresses (block + 1) after := by
  obtain ⟨few, used, valid⟩ := survives
  have clean := (hasInvalidChunk_iff block check state (verifyChecksum (addresses block))).mpr valid
  refine ⟨check.accept block (clearBeyond (verifyChecksum (addresses block))), ?_, ?_⟩
  · rw [checkAddress, state.ahead block le_rfl]
    rw [if_neg (Nat.not_lt.mpr few), clean]
    exact if_neg (Nat.not_lt.mpr used)
  · exact Settled.accept block check state (if_pos ⟨few, used, valid⟩).symm

/-- A damaged block is reported, or zeroed. -/
theorem Settled.damaged (state : Settled chunkSize addresses block check)
    (fails : ¬Survives chunkSize addresses block) :
    checkAddress chunkSize false check block = none ∧
      ∃ after, checkAddress chunkSize true check block = some after ∧
        Settled chunkSize addresses (block + 1) after := by
  have empty : settled chunkSize addresses block = zeroAddress := if_neg fails
  have zeroed := Settled.zero block check state fails
  have emptied := Settled.accept block check state empty.symm
  have invalid := hasInvalidChunk_iff block check state (verifyChecksum (addresses block))
  rw [checkAddress, checkAddress, state.ahead block le_rfl]
  dsimp only
  by_cases many : chunksPerBlock chunkSize < (verifyChecksum (addresses block)).allocatedChunks
  · rw [if_pos many, if_pos many]
    exact ⟨rfl, _, rfl, zeroed⟩
  · rw [if_neg many, if_neg many]
    cases damage : hasInvalidChunk check chunkSize (verifyChecksum (addresses block)) with
    | true =>
      have goesOn : ¬(true = true ∧ true = false) := fun both => Bool.noConfusion both.2
      refine ⟨rfl, check.accept block zeroAddress, ?_, emptied⟩
      rw [if_neg goesOn]
      exact if_neg (Nat.lt_irrefl 0)
    | false =>
      have exceeds : (clearBeyond (verifyChecksum (addresses block))).allocatedChunks <
          (clearBeyond (verifyChecksum (addresses block))).nchunks := by
        by_contra used
        exact fails ⟨Nat.le_of_not_lt many, Nat.le_of_not_lt used, invalid.mp damage⟩
      have goesOn (setting : Bool) : ¬(false = true ∧ setting = false) :=
        fun both => Bool.false_ne_true both.1
      rw [if_neg Bool.false_ne_true, if_pos exceeds,
        if_pos exceeds]
      exact ⟨rfl, _, rfl, zeroed⟩

variable {addresses}

/-- A run over blocks that pass settles them. -/
theorem reportAddress_run (state : Settled chunkSize addresses first check)
    (passes : zeroDamagedPages = true ∨
      ∀ block, first ≤ block → block < first + count → Survives chunkSize addresses block) :
    ∃ repaired after, (List.range' first count).foldlM (reportAddress chunkSize zeroDamagedPages)
        (flag, check) = some (repaired, after) ∧
      Settled chunkSize addresses (first + count) after := by
  induction count generalizing first flag check with
  | zero => exact ⟨flag, check, rfl, state⟩
  | succ count ih =>
    have one : ∃ next, checkAddress chunkSize zeroDamagedPages check first = some next ∧
        Settled chunkSize addresses (first + 1) next := by
      by_cases survives : Survives chunkSize addresses first
      · exact Settled.survivor chunkSize zeroDamagedPages addresses first check state survives
      · obtain setting | each := passes
        · rw [setting]
          exact (Settled.damaged chunkSize addresses first check state survives).2
        · exact absurd (each first le_rfl (by omega)) survives
    obtain ⟨next, checked, settledNext⟩ := one
    obtain ⟨repaired, after, rest, settledAfter⟩ := ih (first + 1)
      (flag || addressRepaired chunkSize check first) next settledNext
      (passes.imp_right fun each block low high => each block (by omega) (by omega))
    have total : first + 1 + count = first + (count + 1) := by omega
    rw [total] at settledAfter
    refine ⟨repaired, after, ?_, settledAfter⟩
    rw [range'_succ, foldlM_cons, reportAddress, checked]
    exact rest

/-- Without zeroing, a run stops at a damaged block. -/
theorem reportAddress_stops (state : Settled chunkSize addresses first check)
    (fails : ∃ block, first ≤ block ∧ block < first + count ∧ ¬Survives chunkSize addresses block) :
    (List.range' first count).foldlM (reportAddress chunkSize false) (flag, check) = none := by
  induction count generalizing first flag check with
  | zero =>
    omega
  | succ count ih =>
    rw [range'_succ, foldlM_cons, reportAddress]
    by_cases survives : Survives chunkSize addresses first
    · obtain ⟨next, checked, settledNext⟩ := Settled.survivor chunkSize false addresses first check
        state survives
      obtain ⟨block, low, high, damaged⟩ := fails
      have later : first ≠ block := fun same => damaged (same ▸ survives)
      rw [checked]
      exact ih (first + 1) _ next settledNext ⟨block, by omega, by omega, damaged⟩
    · rw [(Settled.damaged chunkSize addresses first check state survives).1]
      rfl

variable (addresses)

theorem addressRepaired_clean (state : Settled chunkSize addresses block check)
    (sum : (addresses block).checksum = addrChecksum32 (addresses block))
    (survives : Survives chunkSize addresses block)
    (cleared : ∀ index, (addresses block).allocatedChunks ≤ index →
      (addresses block).chunknos index = 0) : addressRepaired chunkSize check block = false := by
  have verified : verifyChecksum (addresses block) = addresses block := if_neg (not_not.mpr sum)
  obtain ⟨few, used, valid⟩ := survives
  have clean := (hasInvalidChunk_iff block check state (verifyChecksum (addresses block))).mpr valid
  rw [verified] at few used clean
  rw [addressRepaired, state.ahead block le_rfl, verified, clean]
  simp only [Bool.or_eq_false_iff, decide_eq_false_iff_not, any_eq_false, Bool.and_eq_true,
    decide_eq_true_eq, not_and, not_not, not_lt]
  exact ⟨⟨⟨⟨sum, few⟩, trivial⟩, fun index _ beyond => cleared index beyond⟩, used⟩

/-- A run over clean blocks repairs nothing. -/
theorem reportAddress_clean (state : Settled chunkSize addresses first check)
    (clean : ∀ block, first ≤ block → block < first + count →
      (addresses block).checksum = addrChecksum32 (addresses block) ∧
        Survives chunkSize addresses block ∧ ∀ index, (addresses block).allocatedChunks ≤ index →
          (addresses block).chunknos index = 0) :
    ∃ after, (List.range' first count).foldlM (reportAddress chunkSize zeroDamagedPages)
        (flag, check) = some (flag, after) ∧ Settled chunkSize addresses (first + count) after := by
  induction count generalizing first flag check with
  | zero => exact ⟨check, rfl, state⟩
  | succ count ih =>
    obtain ⟨sum, survives, cleared⟩ := clean first le_rfl (by omega)
    obtain ⟨next, checked, settledNext⟩ := Settled.survivor chunkSize zeroDamagedPages addresses
      first check state survives
    have nothing := addressRepaired_clean chunkSize addresses first check state sum survives cleared
    obtain ⟨after, rest, settledAfter⟩ := ih (first + 1) flag next settledNext
      fun block low high => clean block (by omega) (by omega)
    have total : first + 1 + count = first + (count + 1) := by omega
    rw [total] at settledAfter
    refine ⟨after, ?_, settledAfter⟩
    rw [range'_succ, foldlM_cons, reportAddress, checked, nothing, Bool.or_false]
    exact rest

theorem verifyChecksum_sum :
    (verifyChecksum address).checksum = addrChecksum32 (verifyChecksum address) := by
  rw [verifyChecksum]
  by_cases wrong : address.checksum ≠ addrChecksum32 address
  · rw [if_pos wrong]
    rfl
  · rw [if_neg wrong]
    exact not_not.mp wrong

theorem clearBeyond_sum : addrChecksum32 (clearBeyond address) = addrChecksum32 address := by
  rw [addrChecksum32, clearBeyond_held]
  rfl

theorem settled_sum : (settled chunkSize addresses block).checksum =
      addrChecksum32 (settled chunkSize addresses block) := by
  rw [settled]
  by_cases survives : Survives chunkSize addresses block
  · rw [if_pos survives, clearBeyond_sum]
    exact verifyChecksum_sum (addresses block)
  · rw [if_neg survives]
    rfl

theorem settled_beyond (block index : Nat)
    (beyond : (settled chunkSize addresses block).allocatedChunks ≤ index) :
    (settled chunkSize addresses block).chunknos index = 0 := by
  rw [settled] at beyond ⊢
  by_cases survives : Survives chunkSize addresses block
  · rw [if_pos survives] at beyond ⊢
    exact if_neg (Nat.not_lt.mpr beyond)
  · rw [if_neg survives]
    rfl

theorem clearBeyond_settled :
    clearBeyond (settled chunkSize addresses block) = settled chunkSize addresses block := by
  have beyond := settled_beyond chunkSize addresses block
  generalize settled chunkSize addresses block = address at beyond ⊢
  obtain ⟨checksum, nchunks, allocatedChunks, chunknos⟩ := address
  rw [clearBeyond]
  congr 1
  funext index
  by_cases inside : index < allocatedChunks
  · exact if_pos inside
  · exact (if_neg inside).trans (beyond index (Nat.le_of_not_lt inside)).symm

theorem settled_passes :
    Passes chunkSize (ownedBy chunkSize addresses block) (settled chunkSize addresses block) := by
  rw [settled]
  by_cases survives : Survives chunkSize addresses block
  · rw [if_pos survives]
    obtain ⟨few, used, valid⟩ := survives
    refine ⟨few, used, ?_⟩
    rw [clearBeyond_held]
    exact valid
  · rw [if_neg survives]
    refine ⟨Nat.zero_le _, le_rfl, ?_⟩
    intro number held
    exact absurd held not_mem_nil

section Again

variable (chunkSize : Nat) (addresses after : Nat → CfsExtentAddress)

variable (block : Nat) (blocks : Nat)

theorem ownedBy_again (same : ∀ block < blocks, after block = settled chunkSize addresses block) :
    ownedBy chunkSize after blocks = ownedBy chunkSize addresses blocks := by
  induction blocks with
  | zero => rfl
  | succ blocks ih =>
    have before := ih fun block low => same block (by omega)
    have verified : verifyChecksum (after blocks) = settled chunkSize addresses blocks := by
      rw [same blocks (Nat.lt_succ_self blocks)]
      exact if_neg (not_not.mpr (settled_sum chunkSize addresses blocks))
    have passes := settled_passes chunkSize addresses blocks
    rw [ownedBy_succ chunkSize addresses, ownedBy, before, verified]
    exact if_pos passes

variable {chunkSize addresses after}

theorem survives_again (same : ∀ other ≤ block, after other = settled chunkSize addresses other) :
    Survives chunkSize after block := by
  have owned := ownedBy_again chunkSize addresses after block fun other low => same other low.le
  have verified : verifyChecksum (after block) = settled chunkSize addresses block := by
    rw [same block le_rfl]
    exact if_neg (not_not.mpr (settled_sum chunkSize addresses block))
  rw [Survives, owned, verified]
  exact settled_passes chunkSize addresses block

theorem settled_again (same : ∀ other ≤ block, after other = settled chunkSize addresses other) :
    settled chunkSize after block = settled chunkSize addresses block := by
  have verified : verifyChecksum (after block) = settled chunkSize addresses block := by
    rw [same block le_rfl]
    exact if_neg (not_not.mpr (settled_sum chunkSize addresses block))
  rw [settled, if_pos (survives_again block same), verified]
  exact clearBeyond_settled chunkSize addresses block

theorem lt_lastUsed {blocks block : Nat} (low : block < blocks)
    (used : 0 < (addresses block).nchunks) : block < blocksUpTo (lastUsed addresses blocks) := by
  induction blocks with
  | zero => exact absurd low (Nat.not_lt_zero block)
  | succ blocks ih =>
    rw [lastUsed]
    by_cases last : 0 < (addresses blocks).nchunks
    · rw [if_pos last]
      exact low
    · rw [if_neg last]
      have other : block ≠ blocks := fun same => last (same ▸ used)
      exact ih (by omega)

theorem lastUsed_congr (same : ∀ block < blocks, after block = addresses block) :
    lastUsed after blocks = lastUsed addresses blocks := by
  induction blocks with
  | zero => rfl
  | succ blocks ih =>
    rw [lastUsed, lastUsed, same blocks (Nat.lt_succ_self blocks),
      ih fun block low => same block (by omega)]

variable (chunkSize addresses)

theorem ownedBy_eq : ownedBy chunkSize addresses blocks =
    (List.range blocks).flatMap fun block => (settled chunkSize addresses block).held := by
  induction blocks with
  | zero => rfl
  | succ blocks ih =>
    rw [ownedBy_succ, ih, range_succ, flatMap_append, flatMap_singleton]

end Again

/-- After the repair every block is settled. -/
theorem Settled.repair_addresses {chunkSize : Nat} {header : CfsExtentHeader} {check : AddressCheck}
    (state : Settled chunkSize header.cfsExtentAddress logicBlocksPerExtent check) (block : Nat) :
    (check.repair header).cfsExtentAddress block =
      if block < logicBlocksPerExtent then settled chunkSize header.cfsExtentAddress block
      else header.cfsExtentAddress block := by
  show (if blocksUpTo check.maxBlocknum ≤ block ∧ block < logicBlocksPerExtent ∧
      ¬((check.addresses block).allocatedChunks = 0 ∧ (check.addresses block).nchunks = 0) then
    zeroAddress else check.addresses block) = _
  by_cases inside : block < logicBlocksPerExtent
  · rw [if_pos inside, ← state.behind block inside]
    by_cases cleaned : blocksUpTo check.maxBlocknum ≤ block ∧ block < logicBlocksPerExtent ∧
        ¬((check.addresses block).allocatedChunks = 0 ∧ (check.addresses block).nchunks = 0)
    · rw [if_pos cleaned, state.behind block inside, state.zeroed block inside cleaned.1]
    · rw [if_neg cleaned]
  · rw [if_neg inside, if_neg (fun all => inside all.2.1),
      state.ahead block (Nat.le_of_not_lt inside)]

/-- A header that can be relied on. -/
structure Reliable (chunkSize : Nat) (header : CfsExtentHeader) : Prop where
  few : ∀ block < logicBlocksPerExtent,
    (header.cfsExtentAddress block).nchunks ≤ (header.cfsExtentAddress block).allocatedChunks ∧
      (header.cfsExtentAddress block).allocatedChunks ≤ chunksPerBlock chunkSize
  range : ∀ block < logicBlocksPerExtent, ∀ number ∈ (header.cfsExtentAddress block).held,
    1 ≤ number ∧ number ≤ maxLogicChunksNumber chunkSize
  distinct : ∀ block < logicBlocksPerExtent, (header.cfsExtentAddress block).held.Nodup
  disjoint : ∀ first < logicBlocksPerExtent, ∀ second < logicBlocksPerExtent, first ≠ second →
    ∀ number ∈ (header.cfsExtentAddress first).held, number ∉ (header.cfsExtentAddress second).held
  highest : header.allocatedChunks = maxChunkOfBlocks header logicBlocksPerExtent
  covers : ∀ block < logicBlocksPerExtent, 0 < (header.cfsExtentAddress block).nchunks →
    block < header.nblocks

section Checks

variable (header : CfsExtentHeader) (location : ExtentLocation) (zeroDamagedPages : Bool)

/-- The check, unless it reports an error, leaves a header that can be relied on, and a second check
finds it in order and changes nothing. -/
def ChecksWell : Prop :=
  ∀ isSegmentPage isCompressAllowed, ¬(isSegmentPage = true ∧ isCompressAllowed = false) →
    ∀ repaired after,
      checkAndRepairReported isSegmentPage isCompressAllowed header location zeroDamagedPages =
          some (repaired, after) →
        Reliable location.chunkSize after ∧
          checkAndRepairReported isSegmentPage isCompressAllowed after location zeroDamagedPages =
            some (false, after)

/-- An address that does not pass is reported. -/
def Refused : Prop :=
  zeroDamagedPages = false ∧
    ∃ block < logicBlocksPerExtent, ¬Survives location.chunkSize header.cfsExtentAddress block

/-- No address that passes has the same chunk twice. -/
def NoRepeats : Prop :=
  ∀ block < logicBlocksPerExtent, Survives location.chunkSize header.cfsExtentAddress block →
    (verifyChecksum (header.cfsExtentAddress block)).held.Nodup

theorem checkHeaderOfCompressAddr_addresses :
    (checkHeaderOfCompressAddr header location zeroDamagedPages).cfsExtentAddress =
      header.cfsExtentAddress := by
  rw [checkHeaderOfCompressAddr]
  split
  · split <;> rfl
  · rfl

theorem checkHeaderOfCompressAddr_fields :
    (checkHeaderOfCompressAddr header location zeroDamagedPages).chunkSize = location.chunkSize ∧
      (checkHeaderOfCompressAddr header location zeroDamagedPages).algorithm =
        location.algorithm := by
  rw [checkHeaderOfCompressAddr]
  by_cases differ : header.chunkSize ≠ location.chunkSize ∨ header.algorithm ≠ location.algorithm
  · rw [if_pos differ]
    cases zeroDamagedPages with
    | false | true => exact ⟨rfl, rfl⟩
  · rw [if_neg differ]
    rw [not_or, not_not, not_not] at differ
    exact differ

theorem startCheck_settled : Settled location.chunkSize header.cfsExtentAddress 0
      (startCheck (checkHeaderOfCompressAddr header location zeroDamagedPages)) where
  behind := fun block low => absurd low (Nat.not_lt_zero block)
  ahead := by
    intro block _
    show (checkHeaderOfCompressAddr header location zeroDamagedPages).cfsExtentAddress block = _
    rw [checkHeaderOfCompressAddr_addresses]
  owners := fun index => ⟨fun owned => absurd rfl owned, fun owned => absurd owned not_mem_nil⟩
  highest := rfl
  nonzero := rfl
  zeroed := fun block low => absurd low (Nat.not_lt_zero block)
  last := fun _ => rfl

variable (check : AddressCheck) (isSegmentPage isCompressAllowed : Bool)

variable {header location isSegmentPage isCompressAllowed}

/-- A header that is not refused is repaired. -/
theorem checkAndRepairReported_some
    (compressed : ¬(isSegmentPage = true ∧ isCompressAllowed = false))
    (goes : ¬Refused header location zeroDamagedPages) :
    ∃ repaired check, Settled location.chunkSize header.cfsExtentAddress logicBlocksPerExtent check ∧
      checkAndRepairReported isSegmentPage isCompressAllowed header location zeroDamagedPages =
        some (repaired,
          check.repair (checkHeaderOfCompressAddr header location zeroDamagedPages)) := by
  have passes : zeroDamagedPages = true ∨ ∀ block, 0 ≤ block → block < 0 + logicBlocksPerExtent →
      Survives location.chunkSize header.cfsExtentAddress block := by
    by_cases setting : zeroDamagedPages = true
    · exact .inl setting
    · refine .inr fun block _ high => ?_
      by_contra fails
      exact goes ⟨Bool.not_eq_true _ ▸ setting, block, high, fails⟩
  obtain ⟨repaired, check, run, state⟩ := reportAddress_run location.chunkSize zeroDamagedPages
    0 logicBlocksPerExtent
    (decide (header.chunkSize ≠ location.chunkSize ∨ header.algorithm ≠ location.algorithm)) _
    (startCheck_settled header location zeroDamagedPages) passes
  refine ⟨repaired || check.countersRepaired
    (checkHeaderOfCompressAddr header location zeroDamagedPages), check, state, ?_⟩
  rw [checkAndRepairReported, if_neg compressed, range_eq_range']
  dsimp only
  rw [run]
  rfl

theorem checkAndRepairReported_none
    (compressed : ¬(isSegmentPage = true ∧ isCompressAllowed = false))
    (refused : Refused header location zeroDamagedPages) :
    checkAndRepairReported isSegmentPage isCompressAllowed header location zeroDamagedPages =
      none := by
  obtain ⟨rfl, block, inside, fails⟩ := refused
  have stops := reportAddress_stops location.chunkSize 0 logicBlocksPerExtent
    (decide (header.chunkSize ≠ location.chunkSize ∨ header.algorithm ≠ location.algorithm)) _
    (startCheck_settled header location false)
    ⟨block, Nat.zero_le block, by rw [Nat.zero_add]; exact inside, fails⟩
  rw [checkAndRepairReported, if_neg compressed, range_eq_range']
  dsimp only
  rw [stops]
  rfl

theorem repair_settled
    (state : Settled location.chunkSize header.cfsExtentAddress logicBlocksPerExtent check)
    (block : Nat) (inside : block < logicBlocksPerExtent) :
    (check.repair (checkHeaderOfCompressAddr header location zeroDamagedPages)).cfsExtentAddress
        block = settled location.chunkSize header.cfsExtentAddress block := by
  have addresses := checkHeaderOfCompressAddr_addresses header location zeroDamagedPages
  rw [← addresses] at state ⊢
  rw [Settled.repair_addresses state block, if_pos inside]

variable (header location)

theorem settled_distinct (repeats : NoRepeats header location) {block : Nat}
    (inside : block < logicBlocksPerExtent) :
    (settled location.chunkSize header.cfsExtentAddress block).held.Nodup := by
  rw [settled]
  by_cases survives : Survives location.chunkSize header.cfsExtentAddress block
  · rw [if_pos survives, clearBeyond_held]
    exact repeats block inside survives
  · rw [if_neg survives]
    exact nodup_nil

theorem settled_disjoint {chunkSize : Nat} {addresses : Nat → CfsExtentAddress} {first second : Nat}
    (differ : first ≠ second) {number : Nat}
    (held : number ∈ (settled chunkSize addresses first).held) :
    number ∉ (settled chunkSize addresses second).held := by
  intro again
  obtain before | after := Nat.lt_or_gt_of_ne differ
  · have owned := (mem_ownedBy chunkSize addresses second number).mpr ⟨first, before, held⟩
    exact ((settled_passes chunkSize addresses second).2.2 number again).2.2 owned
  · have owned := (mem_ownedBy chunkSize addresses first number).mpr ⟨second, after, again⟩
    exact ((settled_passes chunkSize addresses first).2.2 number held).2.2 owned

/-- Without repeats a repaired header is reliable. -/
theorem repair_reliable
    (state : Settled location.chunkSize header.cfsExtentAddress logicBlocksPerExtent check)
    (repeats : NoRepeats header location) : Reliable location.chunkSize
      (check.repair (checkHeaderOfCompressAddr header location zeroDamagedPages)) := by
  have same := repair_settled zeroDamagedPages check state
  have passes := settled_passes location.chunkSize header.cfsExtentAddress
  exact {
    few := by
      intro block inside
      rw [same block inside]
      exact ⟨(passes block).2.1, (passes block).1⟩
    range := by
      intro block inside number held
      rw [same block inside] at held
      have valid := (passes block).2.2 number held
      exact ⟨valid.1, valid.2.1⟩
    distinct := by
      intro block inside
      rw [same block inside]
      exact settled_distinct header location repeats inside
    disjoint := by
      intro first firstInside second secondInside differ number held
      rw [same first firstInside] at held
      rw [same second secondInside]
      exact settled_disjoint differ held
    highest := by
      show check.maxAllocatedChunkno = _
      rw [state.highest, ownedBy_eq]
      congr 1
      apply flatMap_congr
      intro block member
      rw [same block (mem_range.mp member)]
    covers := by
      intro block inside used
      rw [same block inside] at used
      have low := lt_lastUsed inside used
      rw [← state.nonzero] at low
      exact lt_of_lt_of_le low (Nat.le_max_right _ _) }

theorem AddressCheck.repair_eq (clean : CfsExtentHeader)
    (blocks : blocksUpTo check.maxNonzeroBlocknum ≤ clean.nblocks)
    (chunks : check.maxAllocatedChunkno = clean.allocatedChunks)
    (same : ∀ block, (check.repair clean).cfsExtentAddress block = clean.cfsExtentAddress block) :
    check.repair clean = clean := by
  have addresses := funext same
  have count : max clean.nblocks (blocksUpTo check.maxNonzeroBlocknum) = clean.nblocks :=
    Nat.max_eq_left blocks
  obtain ⟨nblocks, allocatedChunks, chunkSize, algorithm, recycleInOrder, nFragmentChunks,
    allocatedChunkUsages, cfsExtentAddress⟩ := clean
  show CfsExtentHeader.mk (max nblocks (blocksUpTo check.maxNonzeroBlocknum))
    check.maxAllocatedChunkno chunkSize algorithm recycleInOrder nFragmentChunks
    allocatedChunkUsages _ = _
  congr 1

/-- The check finds a header in order that has settled addresses and the counters they give. -/
theorem checkAndRepairReported_clean
    (compressed : ¬(isSegmentPage = true ∧ isCompressAllowed = false)) {check : AddressCheck}
    (state : Settled location.chunkSize header.cfsExtentAddress logicBlocksPerExtent check)
    {after : CfsExtentHeader} (sized : after.chunkSize = location.chunkSize)
    (coded : after.algorithm = location.algorithm) (same : ∀ block < logicBlocksPerExtent,
      after.cfsExtentAddress block = settled location.chunkSize header.cfsExtentAddress block)
    (count : blocksUpTo check.maxNonzeroBlocknum ≤ after.nblocks)
    (chunks : after.allocatedChunks = check.maxAllocatedChunkno) :
    checkAndRepairReported isSegmentPage isCompressAllowed after location zeroDamagedPages =
      some (false, after) := by
  have matching : ¬(after.chunkSize ≠ location.chunkSize ∨
      after.algorithm ≠ location.algorithm) := by
    rw [sized, coded]
    exact fun either => either.elim (absurd rfl) (absurd rfl)
  have unchanged : checkHeaderOfCompressAddr after location zeroDamagedPages = after := by
    exact if_neg matching
  have start := startCheck_settled after location zeroDamagedPages
  rw [unchanged] at start
  have earlier (block : Nat) (inside : block < logicBlocksPerExtent) (other : Nat)
      (low : other ≤ block) : after.cfsExtentAddress other =
        settled location.chunkSize header.cfsExtentAddress other :=
    same other (lt_of_le_of_lt low inside)
  have survive (block : Nat) (inside : block < logicBlocksPerExtent) :
      Survives location.chunkSize after.cfsExtentAddress block :=
    survives_again block (earlier block inside)
  have stay (block : Nat) (inside : block < logicBlocksPerExtent) :
      settled location.chunkSize after.cfsExtentAddress block =
        settled location.chunkSize header.cfsExtentAddress block :=
    settled_again block (earlier block inside)
  -- The second check goes over the settled addresses and repairs none.
  obtain ⟨second, run, settledSecond⟩ := reportAddress_clean location.chunkSize zeroDamagedPages
    after.cfsExtentAddress 0 logicBlocksPerExtent false (startCheck after) start (by
      intro block _ high
      refine ⟨?_, survive block high, ?_⟩
      · rw [same block high]
        exact settled_sum location.chunkSize header.cfsExtentAddress block
      · rw [same block high]
        exact settled_beyond location.chunkSize header.cfsExtentAddress block)
  rw [Nat.zero_add] at settledSecond
  have last := settledSecond.last survive
  have nonzero : second.maxNonzeroBlocknum = check.maxNonzeroBlocknum := by
    rw [settledSecond.nonzero, state.nonzero]
    exact lastUsed_congr logicBlocksPerExtent stay
  have highest : second.maxAllocatedChunkno = check.maxAllocatedChunkno := by
    rw [settledSecond.highest, state.highest, ownedBy_again location.chunkSize
      header.cfsExtentAddress after.cfsExtentAddress logicBlocksPerExtent same]
  have counters : second.countersRepaired after = false := by
    rw [AddressCheck.countersRepaired, nonzero, highest, last]
    simp only [Bool.or_eq_false_iff, decide_eq_false_iff_not, not_lt, not_not, any_eq_false,
      Bool.and_eq_true, decide_eq_true_eq, not_and, mem_range]
    exact ⟨⟨count, chunks⟩, fun block low beyond => absurd low (Nat.not_lt.mpr beyond)⟩
  have repaired : second.repair after = after := by
    apply second.repair_eq after
    · rw [nonzero]
      exact count
    · rw [highest, chunks]
    · intro block
      rw [settledSecond.repair_addresses block]
      by_cases inside : block < logicBlocksPerExtent
      · rw [if_pos inside, stay block inside, same block inside]
      · rw [if_neg inside]
  rw [checkAndRepairReported, if_neg compressed, range_eq_range']
  dsimp only
  rw [unchanged, decide_eq_false matching, run, Option.map_some, counters, repaired, Bool.false_or]

theorem checkAndRepairReported_again
    (compressed : ¬(isSegmentPage = true ∧ isCompressAllowed = false)) {check : AddressCheck}
    (state : Settled location.chunkSize header.cfsExtentAddress logicBlocksPerExtent check) :
    checkAndRepairReported isSegmentPage isCompressAllowed
        (check.repair (checkHeaderOfCompressAddr header location zeroDamagedPages)) location
        zeroDamagedPages = some (false,
        check.repair (checkHeaderOfCompressAddr header location zeroDamagedPages)) := by
  have fields := checkHeaderOfCompressAddr_fields header location zeroDamagedPages
  exact checkAndRepairReported_clean header location zeroDamagedPages
    compressed state fields.1 fields.2
    (repair_settled zeroDamagedPages check state) (Nat.le_max_right _ _) rfl

/-- The check does what it should exactly if it reports an error or no address that passes has the
same chunk twice. -/
theorem header_repair_is_sound_iff : ChecksWell header location zeroDamagedPages ↔
      Refused header location zeroDamagedPages ∨ NoRepeats header location := by
  have compressed : ¬(false = true ∧ true = false) := fun both => Bool.false_ne_true both.1
  constructor
  · intro well
    by_cases refused : Refused header location zeroDamagedPages
    · exact .inl refused
    · right
      intro block inside survives
      obtain ⟨repaired, check, state, outcome⟩ := checkAndRepairReported_some
        zeroDamagedPages compressed refused
      have reliable := (well false true compressed repaired _ outcome).1
      have distinct := reliable.distinct block inside
      rw [repair_settled zeroDamagedPages check state block inside, settled,
        if_pos survives, clearBeyond_held] at distinct
      exact distinct
  · intro either isSegmentPage isCompressAllowed allowed repaired after outcome
    by_cases refused : Refused header location zeroDamagedPages
    · rw [checkAndRepairReported_none zeroDamagedPages allowed refused] at outcome
      exact absurd outcome (by simp)
    · have repeats := either.resolve_left refused
      obtain ⟨flag, check, state, run⟩ := checkAndRepairReported_some
        zeroDamagedPages allowed refused
      rw [run] at outcome
      have result : check.repair (checkHeaderOfCompressAddr header location zeroDamagedPages) =
          after := congrArg Prod.snd (Option.some.inj outcome)
      rw [← result]
      exact ⟨repair_reliable header location zeroDamagedPages check state repeats,
        checkAndRepairReported_again header location zeroDamagedPages allowed state⟩

/-- A header whose first block has the first chunk twice. -/
def twiceHeader : CfsExtentHeader :=
  { initExtentHeader halfPages with
    nblocks := 1
    allocatedChunks := 1
    cfsExtentAddress := update (fun _ => zeroAddress) 0
      { checksum := 66051
        nchunks := 2
        allocatedChunks := 2
        chunknos := fun index => if index < 2 then 1 else 0 } }

/-- A block that has the same chunk twice is found in order. -/
theorem header_repair_keeps_repeats :
    (checkAndRepairReported false true twiceHeader halfPages false).map
        (fun result => (result.1, (result.2.cfsExtentAddress 0).held)) = some (false, [1, 1]) ∧
      ¬ChecksWell twiceHeader halfPages false := by
  have run : (checkAndRepairReported false true twiceHeader halfPages false).map
      (fun result => (result.1, (result.2.cfsExtentAddress 0).held)) = some (false, [1, 1]) := by
    decide +kernel
  refine ⟨run, ?_⟩
  intro well
  obtain ⟨⟨repaired, after⟩, outcome, fields⟩ := Option.map_eq_some_iff.mp run
  have held : (after.cfsExtentAddress 0).held = [1, 1] := congrArg Prod.snd fields
  have reliable := (well false true (by decide) repaired after outcome).1
  have distinct := reliable.distinct 0 (by decide)
  rw [held] at distinct
  exact absurd distinct (by decide)

end Checks

end OpenGauss.Cfs
