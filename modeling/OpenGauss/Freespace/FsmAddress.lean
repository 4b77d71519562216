import OpenGauss.Freespace.FreeSpaceMap
import OpenGauss.Freespace.FsmSearch

/-!
# Where the pages of the free space map are

The pages are numbered depth first: a page stands behind the page above it and in front of the pages
below it. The number is worked out from the first bottom page below, by counting the pages of every
level up to it. Truncating the heap cuts the map behind the page that has the slot of the last block
that remains; `freespace.cpp` works out the cut in three places.
-/
namespace OpenGauss.Freespace

/-- The levels of the map (`FSM_TREE_DEPTH`). -/
def fsmTreeDepth : Nat := if 1626 ≤ slotsPerFSMPage then 3 else 4

/-- The number of the first bottom page below a page of some level. -/
def firstLeaf : Nat → Nat → Nat
  | 0, leafno => leafno
  | level + 1, leafno => firstLeaf level (leafno * slotsPerFSMPage)

/-- Count the pages of some levels up to a bottom page. -/
def countPages : Nat → Nat → Nat
  | 0, _ => 0
  | levels + 1, leafno => leafno + 1 + countPages levels (leafno / slotsPerFSMPage)

/-- The number of a page in its file. -/
def fsmLogicalToPhysical (addr : FSMAddress) : Nat :=
  countPages fsmTreeDepth (firstLeaf addr.level addr.logpageno) - addr.level - 1

/-- The pages that lead to a heap block, from the bottom to the root. -/
def pathOf (block : Nat) : List FSMAddress :=
  let bottom := (fsmGetLocation block).1
  let middle := (fsmGetParent bottom).1
  [bottom, middle, (fsmGetParent middle).1]

/-- Whether a page is on the path of a heap block. -/
def FSMAddress.OnPath (addr : FSMAddress) : Prop := ∃ block < invalidBlockNumber, addr ∈ pathOf block

variable (page : Nat) (fork : Option (List FSMPage)) (nblocks cut : Nat) (block : Nat)
  (addr : FSMAddress) (slot : Nat)

theorem fsmLogicalToPhysical_bottom :
    fsmLogicalToPhysical ⟨0, page⟩ = page + page / 4069 + page / 4069 / 4069 + 2 := by
  have pages : fsmLogicalToPhysical ⟨0, page⟩ = page + 1 + (page / 4069 + 1 +
      (page / 4069 / 4069 + 1 + 0)) - 0 - 1 := rfl
  lia

theorem fsmLogicalToPhysical_middle :
    fsmLogicalToPhysical ⟨1, page⟩ = page * 4069 + page + page / 4069 + 1 := by
  have pages : fsmLogicalToPhysical ⟨1, page⟩ = page * 4069 + 1 + (page * 4069 / 4069 + 1 +
      (page * 4069 / 4069 / 4069 + 1 + 0)) - 1 - 1 := rfl
  lia

theorem fsmLogicalToPhysical_root : fsmLogicalToPhysical fsmRootAddress = 0 := by decide

theorem mem_pathOf_iff (valid : block < invalidBlockNumber) (addr : FSMAddress) :
    addr ∈ pathOf block ↔ addr = ⟨0, block / 4069⟩ ∨ addr = ⟨1, block / 4069 / 4069⟩ ∨
      addr = fsmRootAddress := by
  have root : block / 4069 / 4069 / 4069 = 0 := by
    rw [invalidBlockNumber] at valid
    lia
  have path : pathOf block = [⟨0, block / 4069⟩, ⟨1, block / 4069 / 4069⟩,
      ⟨2, block / 4069 / 4069 / 4069⟩] := rfl
  rw [path, root, List.mem_cons, List.mem_cons, List.mem_singleton]
  rfl

theorem FSMAddress.OnPath.cases (onPath : addr.OnPath) :
    (∃ page, addr = ⟨0, page⟩ ∧ page < 1055534) ∨ (∃ page, addr = ⟨1, page⟩ ∧ page < 260) ∨
      addr = fsmRootAddress := by
  obtain ⟨block, valid, member⟩ := onPath
  have bound := valid
  rw [invalidBlockNumber] at bound
  rcases (mem_pathOf_iff block valid addr).mp member with is | is | is
  · exact .inl ⟨_, is, by omega⟩
  · exact .inr (.inl ⟨_, is, by lia⟩)
  · exact .inr (.inr is)

theorem fsmLogicalToPhysical_bottom_lt (first second : Nat) (less : first < second) :
    fsmLogicalToPhysical ⟨0, first⟩ < fsmLogicalToPhysical ⟨0, second⟩ := by
  rw [fsmLogicalToPhysical_bottom, fsmLogicalToPhysical_bottom]
  lia

theorem fsmLogicalToPhysical_levels (bottom middle : Nat) :
    fsmLogicalToPhysical ⟨0, bottom⟩ ≠ fsmLogicalToPhysical ⟨1, middle⟩ := by
  rw [fsmLogicalToPhysical_bottom, fsmLogicalToPhysical_middle]
  by_cases behind : middle * 4069 ≤ bottom
  · omega
  · omega

/-- Pages have different numbers. -/
theorem fsmLogicalToPhysical_injective (first second : FSMAddress) (onPath1 : first.OnPath)
    (onPath2 : second.OnPath) (same : fsmLogicalToPhysical first = fsmLogicalToPhysical second) :
    first = second := by
  rcases FSMAddress.OnPath.cases first onPath1 with ⟨page1, rfl, -⟩ | ⟨page1, rfl, -⟩ | rfl
  · rcases FSMAddress.OnPath.cases second onPath2 with ⟨page2, rfl, -⟩ | ⟨page2, rfl, -⟩ | rfl
    · rcases Nat.lt_trichotomy page1 page2 with less | equal | more
      · exact absurd same (Nat.ne_of_lt (fsmLogicalToPhysical_bottom_lt _ _ less))
      · rw [equal]
      · exact absurd same (Nat.ne_of_gt (fsmLogicalToPhysical_bottom_lt _ _ more))
    · exact absurd same (fsmLogicalToPhysical_levels page1 page2)
    · rw [fsmLogicalToPhysical_root, fsmLogicalToPhysical_bottom] at same
      lia
  · rcases FSMAddress.OnPath.cases second onPath2 with ⟨page2, rfl, -⟩ | ⟨page2, rfl, -⟩ | rfl
    · exact absurd same.symm (fsmLogicalToPhysical_levels page2 page1)
    · rw [fsmLogicalToPhysical_middle, fsmLogicalToPhysical_middle] at same
      rw [show page1 = page2 by lia]
    · rw [fsmLogicalToPhysical_root, fsmLogicalToPhysical_middle] at same
      lia
  · rcases FSMAddress.OnPath.cases second onPath2 with ⟨page2, rfl, -⟩ | ⟨page2, rfl, -⟩ | rfl
    · rw [fsmLogicalToPhysical_root, fsmLogicalToPhysical_bottom] at same
      lia
    · rw [fsmLogicalToPhysical_root, fsmLogicalToPhysical_middle] at same
      lia
    · rfl

theorem fsmLogicalToPhysical_parent (onPath : addr.OnPath) (below : addr.level < fsmRootLevel) :
    fsmLogicalToPhysical (fsmGetParent addr).1 < fsmLogicalToPhysical addr := by
  rcases FSMAddress.OnPath.cases addr onPath with ⟨page, rfl, -⟩ | ⟨page, rfl, small⟩ | rfl
  · have parent : (fsmGetParent ⟨0, page⟩).1 = ⟨1, page / 4069⟩ := rfl
    rw [parent, fsmLogicalToPhysical_bottom, fsmLogicalToPhysical_middle]
    lia
  · have parent : (fsmGetParent ⟨1, page⟩).1 = ⟨2, page / 4069⟩ := rfl
    have root : (⟨2, page / 4069⟩ : FSMAddress) = fsmRootAddress := by
      rw [show page / 4069 = 0 by lia]
      rfl
    rw [parent, root, fsmLogicalToPhysical_root, fsmLogicalToPhysical_middle]
    lia
  · exact absurd below (by decide)

/-- Every number up to that of a leaf is that of a page. -/
theorem exists_page_of_number {last : Nat} (few : last < 1055534) {number : Nat}
    (inside : number ≤ fsmLogicalToPhysical ⟨0, last⟩) :
    ∃ page ≤ last, number = fsmLogicalToPhysical ⟨0, page⟩ ∨
      number = fsmLogicalToPhysical ⟨1, page / 4069⟩ ∨ number = fsmLogicalToPhysical fsmRootAddress := by
  induction last with
  | zero =>
    refine ⟨0, Nat.le_refl 0, ?_⟩
    rw [fsmLogicalToPhysical_bottom] at inside ⊢
    rw [fsmLogicalToPhysical_middle, fsmLogicalToPhysical_root]
    lia
  | succ last ih =>
    by_cases early : number ≤ fsmLogicalToPhysical ⟨0, last⟩
    · obtain ⟨page, before, is⟩ := ih (by omega) early
      exact ⟨page, by omega, is⟩
    · -- Behind the page before, only the new page and the new page above it may come.
      refine ⟨last + 1, Nat.le_refl _, ?_⟩
      rw [fsmLogicalToPhysical_bottom] at inside early ⊢
      rw [fsmLogicalToPhysical_middle]
      lia

/-- The pages above some blocks fill the numbers without a gap. -/
theorem numbers_of_paths (valid : block < invalidBlockNumber) :
    { number | ∃ earlier ≤ block, ∃ addr ∈ pathOf earlier, fsmLogicalToPhysical addr = number } =
      Set.Iic (fsmLogicalToPhysical ⟨0, block / 4069⟩) := by
  have bound := valid
  rw [invalidBlockNumber] at bound
  ext number
  constructor
  · rintro ⟨earlier, before, addr, member, rfl⟩
    show fsmLogicalToPhysical addr ≤ _
    rcases (mem_pathOf_iff earlier (Nat.lt_of_le_of_lt before valid) addr).mp member with
      rfl | rfl | rfl
    · rw [fsmLogicalToPhysical_bottom, fsmLogicalToPhysical_bottom]
      omega
    · rw [fsmLogicalToPhysical_middle, fsmLogicalToPhysical_bottom]
      lia
    · exact Nat.zero_le _
  · intro inside
    obtain ⟨page, before, is⟩ := exists_page_of_number (by omega) inside
    have earlier : page * 4069 ≤ block := by lia
    have same : page * 4069 / 4069 = page := Nat.mul_div_cancel _ (by decide)
    have path := mem_pathOf_iff (page * 4069) (Nat.lt_of_le_of_lt earlier valid)
    rw [same] at path
    rcases is with is | is | is
    · exact ⟨_, earlier, _, (path _).mpr (.inl rfl), is.symm⟩
    · exact ⟨_, earlier, _, (path _).mpr (.inr (.inl rfl)), is.symm⟩
    · exact ⟨_, earlier, _, (path _).mpr (.inr (.inr rfl)), is.symm⟩

theorem fsmGetChild_fsmGetParent :
    fsmGetChild (fsmGetParent addr).1 (fsmGetParent addr).2 = addr := by
  obtain ⟨level, page⟩ := addr
  show (⟨level + 1 - 1, page / 4069 * 4069 + page % 4069⟩ : FSMAddress) = ⟨level, page⟩
  rw [Nat.add_sub_cancel, Nat.div_add_mod']

theorem fsmGetParent_fsmGetChild (upper : 0 < addr.level)
    (inside : slot < slotsPerFSMPage) : fsmGetParent (fsmGetChild addr slot) = (addr, slot) := by
  obtain ⟨level, page⟩ := addr
  have above : level - 1 + 1 = level := Nat.sub_add_cancel upper
  have number : (page * 4069 + slot) / 4069 = page ∧ (page * 4069 + slot) % 4069 = slot := by
    rw [slotsPerFSMPage] at inside
    lia
  show ((⟨level - 1 + 1, (page * 4069 + slot) / 4069⟩ : FSMAddress), (page * 4069 + slot) % 4069) = _
  rw [above, number.1, number.2]

theorem fsmGetHeapBlk_fsmGetLocation (valid : block < invalidBlockNumber) :
    fsmGetHeapBlk (fsmGetLocation block).1 (fsmGetLocation block).2 = block := by
  show (block / 4069 * 4069 + block % 4069) % 4294967296 = block
  rw [invalidBlockNumber] at valid
  lia

theorem fsmGetLocation_fsmGetHeapBlk (bottom : addr.level = 0) (inside : slot < slotsPerFSMPage)
    (block : addr.logpageno * slotsPerFSMPage + slot < invalidBlockNumber) :
    fsmGetLocation (fsmGetHeapBlk addr slot) = (addr, slot) := by
  obtain ⟨level, page⟩ := addr
  obtain rfl : level = 0 := bottom
  rw [invalidBlockNumber, slotsPerFSMPage] at block
  rw [slotsPerFSMPage] at inside
  have number : (page * 4069 + slot) % 4294967296 = page * 4069 + slot := by lia
  have parts : (page * 4069 + slot) / 4069 = page ∧ (page * 4069 + slot) % 4069 = slot := by omega
  show ((⟨0, (page * 4069 + slot) % 4294967296 / 4069⟩ : FSMAddress),
    (page * 4069 + slot) % 4294967296 % 4069) = _
  rw [number, parts.1, parts.2]

/-- The pages on the paths of heap blocks have different numbers, each a larger one than the page above
it, and those on the paths of the first blocks have exactly the first numbers. Going up and going down
undo each other, and so do a heap block and its location. -/
theorem fsm_numbering_is_a_bijection : (∀ first second : FSMAddress, first.OnPath → second.OnPath →
      fsmLogicalToPhysical first = fsmLogicalToPhysical second → first = second) ∧
    (∀ addr : FSMAddress, addr.OnPath → addr.level < fsmRootLevel →
      fsmLogicalToPhysical (fsmGetParent addr).1 < fsmLogicalToPhysical addr) ∧
    (∀ block < invalidBlockNumber, ∃ last,
      { number | ∃ earlier ≤ block, ∃ addr ∈ pathOf earlier, fsmLogicalToPhysical addr = number } =
        Set.Iic last) ∧ (∀ addr : FSMAddress, addr.OnPath → addr.level < fsmRootLevel →
      fsmGetChild (fsmGetParent addr).1 (fsmGetParent addr).2 = addr) ∧
    (∀ (addr : FSMAddress) (slot : Nat), addr.OnPath → 0 < addr.level → slot < slotsPerFSMPage →
      fsmGetParent (fsmGetChild addr slot) = (addr, slot)) ∧ (∀ block < invalidBlockNumber,
      fsmGetHeapBlk (fsmGetLocation block).1 (fsmGetLocation block).2 = block) ∧
    ∀ (addr : FSMAddress) (slot : Nat), addr.OnPath → addr.level = 0 → slot < slotsPerFSMPage →
      addr.logpageno * slotsPerFSMPage + slot < invalidBlockNumber →
      fsmGetLocation (fsmGetHeapBlk addr slot) = (addr, slot) := by
  refine ⟨fsmLogicalToPhysical_injective, fsmLogicalToPhysical_parent, ?_, ?_, ?_,
    fsmGetHeapBlk_fsmGetLocation, ?_⟩
  · intro block valid
    exact ⟨_, numbers_of_paths block valid⟩
  · intro addr _ _
    exact fsmGetChild_fsmGetParent addr
  · intro addr slot _ upper inside
    exact fsmGetParent_fsmGetChild addr slot upper inside
  · intro addr slot _ bottom inside block
    exact fsmGetLocation_fsmGetHeapBlk addr slot bottom inside block

/-- Truncate the file of a map. Its pages are in the order of their numbers. -/
def smgrtruncate (pages : List FSMPage) (newNfsmblocks : Nat) : List FSMPage := pages.take newNfsmblocks

/-- Truncate a map for a new size of the heap: the number of pages it is cut to, if it is, and its
pages. The last page that remains loses its last slots. -/
def freeSpaceMapTruncateRel (fork : Option (List FSMPage)) (nblocks : Nat) :
    Option Nat × Option (List FSMPage) :=
  match fork with
  | none => (none, none)
  | some pages =>
    let firstRemoved := fsmGetLocation nblocks
    let number := fsmLogicalToPhysical firstRemoved.1
    if 0 < firstRemoved.2 then
      match pages[number]? with
      | none => (none, some pages)
      | some page =>
        let newNfsmblocks := number + 1
        (some newNfsmblocks, some (smgrtruncate
          (pages.set number (fsmTruncateAvail page firstRemoved.2).2) newNfsmblocks))
    else
      let newNfsmblocks := number
      if pages.length ≤ newNfsmblocks then (none, some pages)
      else (some newNfsmblocks, some (smgrtruncate pages newNfsmblocks))

/-- Truncate a map for a new size of the heap, without a look at the last page. -/
def xlogBlockTruncateRelFSM (fork : Option (List FSMPage)) (nblocks : Nat) :
    Option Nat × Option (List FSMPage) :=
  match fork with
  | none => (none, none)
  | some pages =>
    let firstRemoved := fsmGetLocation nblocks
    let number := fsmLogicalToPhysical firstRemoved.1
    if 0 < firstRemoved.2 then (some (number + 1), some (smgrtruncate pages (number + 1)))
    else if pages.length ≤ number then (none, some pages)
    else (some number, some (smgrtruncate pages number))

/-- The page that a map is cut at, for those who track changed pages. -/
def freeSpaceMapCalTruncBlkNo (relBlkNo : Nat) : Nat := fsmLogicalToPhysical (fsmGetLocation relBlkNo).1

/-- The page with the slot of every block that remains is in front of a cut. -/
def KeepsRemaining (nblocks cut : Nat) : Prop :=
  ∀ block < nblocks, fsmLogicalToPhysical (fsmGetLocation block).1 < cut

/-- The bottom pages of which no block remains are behind a cut. -/
def RemovesGone (nblocks cut : Nat) : Prop :=
  ∀ addr : FSMAddress, addr.OnPath → addr.level = fsmBottomLevel →
    (∀ slot < slotsPerFSMPage, nblocks ≤ addr.logpageno * slotsPerFSMPage + slot) →
    cut ≤ fsmLogicalToPhysical addr

/-- For every map, the three places work out the same number of pages where they work out one, it keeps
the page of every block that remains and removes the bottom pages of which none does. -/
structure TruncationAgrees (nblocks : Nat) : Prop where
  truncate : ∀ fork cut, (freeSpaceMapTruncateRel fork nblocks).1 = some cut →
    cut = freeSpaceMapCalTruncBlkNo nblocks
  recovery : ∀ fork cut, (xlogBlockTruncateRelFSM fork nblocks).1 = some cut →
    cut = freeSpaceMapCalTruncBlkNo nblocks
  keeps : KeepsRemaining nblocks (freeSpaceMapCalTruncBlkNo nblocks)
  removes : RemovesGone nblocks (freeSpaceMapCalTruncBlkNo nblocks)

/-- The page behind the page of the last block that remains. -/
def truncationCut (nblocks : Nat) : Nat :=
  fsmLogicalToPhysical (fsmGetLocation nblocks).1 + if 0 < (fsmGetLocation nblocks).2 then 1 else 0

variable {fork nblocks}

/-- What a truncation cuts. -/
theorem freeSpaceMapTruncateRel_cut
    (result : (freeSpaceMapTruncateRel fork nblocks).1 = some cut) : cut = truncationCut nblocks := by
  cases fork with
  | none => exact absurd result (by nofun)
  | some pages =>
    rw [freeSpaceMapTruncateRel] at result
    rw [truncationCut]
    by_cases within : 0 < (fsmGetLocation nblocks).2
    · rw [if_pos within] at result ⊢
      cases found : pages[fsmLogicalToPhysical (fsmGetLocation nblocks).1]? with
      | none =>
        rw [found] at result
        exact absurd result (by nofun)
      | some page =>
        rw [found] at result
        exact (Option.some_inj.mp result).symm
    · rw [if_neg within] at result ⊢
      by_cases smaller : pages.length ≤ fsmLogicalToPhysical (fsmGetLocation nblocks).1
      · rw [if_pos smaller] at result
        exact absurd result (by nofun)
      · rw [if_neg smaller] at result
        exact (Option.some_inj.mp result).symm

/-- What its replay cuts. -/
theorem xlogBlockTruncateRelFSM_cut
    (result : (xlogBlockTruncateRelFSM fork nblocks).1 = some cut) : cut = truncationCut nblocks := by
  cases fork with
  | none => exact absurd result (by nofun)
  | some pages =>
    rw [xlogBlockTruncateRelFSM] at result
    rw [truncationCut]
    by_cases within : 0 < (fsmGetLocation nblocks).2
    · rw [if_pos within] at result ⊢
      exact (Option.some_inj.mp result).symm
    · rw [if_neg within] at result ⊢
      by_cases smaller : pages.length ≤ fsmLogicalToPhysical (fsmGetLocation nblocks).1
      · rw [if_pos smaller] at result
        exact absurd result (by nofun)
      · rw [if_neg smaller] at result
        exact (Option.some_inj.mp result).symm

/-- The cut keeps what remains and removes what is gone. -/
theorem truncationCut_right (nblocks : Nat) :
    KeepsRemaining nblocks (truncationCut nblocks) ∧ RemovesGone nblocks (truncationCut nblocks) := by
  have location (block : Nat) : fsmGetLocation block = (⟨0, block / 4069⟩, block % 4069) := rfl
  constructor
  · intro block remains
    have pages : block / 4069 ≤ nblocks / 4069 := Nat.div_le_div_right (Nat.le_of_lt remains)
    rw [truncationCut, location, location]
    dsimp only
    rcases Nat.lt_or_eq_of_le pages with less | equal
    · have numbers := fsmLogicalToPhysical_bottom_lt _ _ less
      omega
    · rw [equal, if_pos (by lia)]
      omega
  · intro addr _ bottom gone
    obtain ⟨level, page⟩ := addr
    obtain rfl : level = 0 := bottom
    have first := gone 0 (by decide)
    rw [slotsPerFSMPage] at first
    rw [truncationCut, location]
    dsimp only
    by_cases within : 0 < nblocks % 4069
    · have numbers := fsmLogicalToPhysical_bottom_lt (nblocks / 4069) page (by lia)
      rw [if_pos within]
      omega
    · rw [fsmLogicalToPhysical_bottom, fsmLogicalToPhysical_bottom]
      lia

/-- The three places agree for every map and cut where they should exactly if the first removed block
is the first one of its page. The two that truncate always cut where they should. -/
theorem fsm_truncations_agree_iff (nblocks : Nat) :
    (TruncationAgrees nblocks ↔ nblocks % slotsPerFSMPage = 0) ∧
      ∀ fork cut, (freeSpaceMapTruncateRel fork nblocks).1 = some cut ∨
        (xlogBlockTruncateRelFSM fork nblocks).1 = some cut →
        KeepsRemaining nblocks cut ∧ RemovesGone nblocks cut := by
  refine ⟨⟨?_, ?_⟩, ?_⟩
  · intro agrees
    by_contra within
    have cut : (xlogBlockTruncateRelFSM (some []) nblocks).1 =
        some (fsmLogicalToPhysical (fsmGetLocation nblocks).1 + 1) := by
      rw [xlogBlockTruncateRelFSM]
      rw [if_pos (show 0 < (fsmGetLocation nblocks).2 from Nat.pos_of_ne_zero within)]
    have same := agrees.recovery _ _ cut
    rw [freeSpaceMapCalTruncBlkNo] at same
    omega
  · intro first
    have same : truncationCut nblocks = freeSpaceMapCalTruncBlkNo nblocks := by
      rw [truncationCut, freeSpaceMapCalTruncBlkNo, if_neg (by
        show ¬0 < nblocks % slotsPerFSMPage
        omega)]
      rfl
    have right := truncationCut_right nblocks
    rw [same] at right
    refine ⟨?_, ?_, right.1, right.2⟩
    · intro fork cut result
      rw [freeSpaceMapTruncateRel_cut cut result, same]
    · intro fork cut result
      rw [xlogBlockTruncateRelFSM_cut cut result, same]
  · rintro fork cut (result | result)
    · rw [freeSpaceMapTruncateRel_cut cut result]
      exact truncationCut_right nblocks
    · rw [xlogBlockTruncateRelFSM_cut cut result]
      exact truncationCut_right nblocks

/-- A heap that is cut to one block: the page with its slot is kept where the map is truncated, and
given as removed to those who track changed pages. -/
theorem fsm_truncations_differ_at_one :
    (freeSpaceMapTruncateRel (some [freshPage, freshPage, freshPage]) 1).1 = some 3 ∧
      freeSpaceMapCalTruncBlkNo 1 = 2 ∧ ¬KeepsRemaining 1 (freeSpaceMapCalTruncBlkNo 1) ∧
      ¬TruncationAgrees 1 := by
  have cut : (freeSpaceMapTruncateRel (some [freshPage, freshPage, freshPage]) 1).1 = some 3 := rfl
  have number : freeSpaceMapCalTruncBlkNo 1 = 2 := by decide
  refine ⟨cut, number, ?_, ?_⟩
  · intro keeps
    have first := keeps 0 (by decide)
    exact absurd first (by decide)
  · intro agrees
    have same := agrees.truncate _ _ cut
    exact absurd same (by decide)

end OpenGauss.Freespace
