import OpenGauss.Freespace.FsmPage

/-!
# The free space map of a relation

The map is a tree of pages with three levels. A slot of a bottom page has the category of the free
space of a heap block, and a slot of an upper page has the value of the root of the page below it.
Recording the space of a block changes its bottom page only. After a bulk extension
`UpdateFreeSpaceMap` writes the category of the new blocks into every slot above them, whatever else
lies below these slots. The module says what an extension leaves in every slot, and from that exactly
when space that was recorded before stays within reach of a search.
-/

namespace OpenGauss.Freespace

/-- The level of the root page (`FSM_ROOT_LEVEL`). -/
def fsmRootLevel : Nat := 2

/-- The level of the bottom pages (`FSM_BOTTOM_LEVEL`). -/
def fsmBottomLevel : Nat := 0

/-- The values of a 32-bit block number. -/
def blockNumbers : Nat := 4294967296

/-- No block (`InvalidBlockNumber`). -/
def invalidBlockNumber : Nat := 4294967295

/-- The step of free space between two categories (`FSM_CAT_STEP`). -/
def fsmCatStep : Nat := 32

/-- The largest request for space (`MaxFSMRequestSize`). -/
def maxFSMRequestSize : Nat := 8144

/-- The category of an amount of free space. -/
def fsmSpaceAvailToCat (avail : Nat) : Nat :=
  if maxFSMRequestSize ≤ avail then 255 else min (avail / fsmCatStep) 254

/-- The address of a page. -/
structure FSMAddress where
  level : Nat
  logpageno : Nat
  deriving DecidableEq

/-- The map of a relation. -/
structure FreeSpaceMap where
  pages : FSMAddress → Option FSMPage

/-- The address of the root page. -/
def fsmRootAddress : FSMAddress where
  level := fsmRootLevel
  logpageno := 0

/-- The page and the slot of a heap block. -/
def fsmGetLocation (heapblk : Nat) : FSMAddress × Nat :=
  (⟨fsmBottomLevel, heapblk / slotsPerFSMPage⟩, heapblk % slotsPerFSMPage)

/-- The heap block of a slot, as a 32-bit number. -/
def fsmGetHeapBlk (addr : FSMAddress) (slot : Nat) : Nat :=
  (addr.logpageno * slotsPerFSMPage + slot) % blockNumbers

/-- The page above a page, and its slot there. -/
def fsmGetParent (child : FSMAddress) : FSMAddress × Nat :=
  (⟨child.level + 1, child.logpageno / slotsPerFSMPage⟩, child.logpageno % slotsPerFSMPage)

/-- The page below a slot. -/
def fsmGetChild (parent : FSMAddress) (slot : Nat) : FSMAddress where
  level := parent.level - 1
  logpageno := parent.logpageno * slotsPerFSMPage + slot

/-- The last heap block of a bottom page. -/
def fsmGetLastblckno (addr : FSMAddress) : Nat := fsmGetHeapBlk addr (slotsPerFSMPage - 1)

/-- A page, with a fresh one behind the end of the file. -/
def FreeSpaceMap.page (fsm : FreeSpaceMap) (addr : FSMAddress) : FSMPage :=
  (fsm.pages addr).getD freshPage

/-- Write a page. -/
def FreeSpaceMap.write (fsm : FreeSpaceMap) (addr : FSMAddress) (page : FSMPage) : FreeSpaceMap where
  pages := Function.update fsm.pages addr (some page)

/-- Set a slot of a page, and search the page if a smallest value is given. -/
def fsmSetAndSearch (fsm : FreeSpaceMap) (addr : FSMAddress) (slot newValue minValue : Nat)
    (search : Bool) : Option Nat × FreeSpaceMap :=
  let page := fsmSetAvail (fsm.page addr) slot newValue
  if minValue ≠ 0 ∧ search = true then
    let found := fsmSearchAvail page minValue (addr.level == fsmBottomLevel)
    (found.1, fsm.write addr found.2)
  else (none, fsm.write addr page)

/-- Record the free space of a heap block on its bottom page. -/
def recordPageWithFreeSpace (fsm : FreeSpaceMap) (heapBlk spaceAvail : Nat) : FreeSpaceMap :=
  (fsmSetAndSearch fsm (fsmGetLocation heapBlk).1 (fsmGetLocation heapBlk).2
    (fsmSpaceAvailToCat spaceAvail) 0 true).2

/-- Write a category into the slots above a page, up to the root. -/
def fsmUpdateRecursive (fsm : FreeSpaceMap) (addr : FSMAddress) (newCat : Nat) (search : Bool) :
    FreeSpaceMap :=
  if fsmRootLevel ≤ addr.level then fsm
  else
    let parent := fsmGetParent addr
    fsmUpdateRecursive (fsmSetAndSearch fsm parent.1 parent.2 newCat 0 search).2 parent.1 newCat
      search
  termination_by fsmRootLevel - addr.level
  decreasing_by simp only [fsmGetParent]; omega

/-- The loop over the bottom pages of some blocks, for at most some rounds. -/
def updateLoop (newCat : Nat) (search : Bool) (endBlkNum : Nat) :
    Nat → Nat → FreeSpaceMap → Option FreeSpaceMap
  | 0, _, _ => none
  | rounds + 1, blockNum, fsm =>
    if blockNum ≤ endBlkNum then
      let addr := (fsmGetLocation blockNum).1
      let updated := fsmUpdateRecursive fsm addr newCat search
      let lastBlkOnPage := fsmGetLastblckno addr
      if endBlkNum ≤ lastBlkOnPage then some updated
      else updateLoop newCat search endBlkNum rounds ((lastBlkOnPage + 1) % blockNumbers) updated
    else some fsm

/-- Update the upper levels for some blocks, for at most some rounds. -/
def updateFreeSpaceMap (rounds : Nat) (fsm : FreeSpaceMap) (startBlkNum endBlkNum freespace : Nat)
    (search : Bool) : Option FreeSpaceMap :=
  updateLoop (fsmSpaceAvailToCat freespace) search endBlkNum rounds startBlkNum fsm

/-- Record the same space for some blocks, one after the other. -/
def recordBlocks (fsm : FreeSpaceMap) (start count freespace : Nat) : FreeSpaceMap :=
  (List.range' start count).foldl (fun map block => recordPageWithFreeSpace map block freespace) fsm

/-- The end of a bulk extension: the blocks are recorded and the upper levels updated. -/
def extendMap (rounds : Nat) (fsm : FreeSpaceMap) (firstBlock lastBlock freespace : Nat)
    (search : Bool) : Option FreeSpaceMap :=
  updateFreeSpaceMap rounds (recordBlocks fsm firstBlock (lastBlock + 1 - firstBlock) freespace)
    firstBlock lastBlock freespace search

/-- The loop of a search for a heap block, for at most some rounds: go down from a page, and start
over at the root where a page has less than the slot above it says. -/
def searchLoop (minCat : Nat) :
    Nat → Nat → FSMAddress → FreeSpaceMap → Option (Nat × FreeSpaceMap)
  | 0, _, _, _ => none
  | rounds + 1, restarts, addr, fsm =>
    let found : Option Nat × FreeSpaceMap × Nat :=
      match fsm.pages addr with
      | some page =>
        let searched := fsmSearchAvail page minCat (addr.level == fsmBottomLevel)
        (searched.1, fsm.write addr searched.2, fsmGetMaxAvail searched.2)
      | none => (none, fsm, 0)
    match found.1 with
    | some slot =>
      if addr.level = fsmBottomLevel then some (fsmGetHeapBlk addr slot, found.2.1)
      else searchLoop minCat rounds restarts (fsmGetChild addr slot) found.2.1
    | none =>
      if addr.level = fsmRootLevel then some (invalidBlockNumber, found.2.1)
      else
        let parent := fsmGetParent addr
        let fixed := (fsmSetAndSearch found.2.1 parent.1 parent.2 found.2.2 0 true).2
        if 10000 < restarts then some (invalidBlockNumber, fixed)
        else searchLoop minCat rounds (restarts + 1) fsmRootAddress fixed

/-- Search for a heap block with at least a category, for at most some rounds. -/
def fsmSearch (rounds : Nat) (fsm : FreeSpaceMap) (minCat : Nat) : Option (Nat × FreeSpaceMap) :=
  searchLoop minCat rounds 0 fsmRootAddress fsm

/-- The value of a slot of a map. -/
def FreeSpaceMap.avail (fsm : FreeSpaceMap) (addr : FSMAddress) (slot : Nat) : Nat :=
  fsmGetAvail (fsm.page addr) slot

/-- The largest value of a page of a map. -/
def FreeSpaceMap.largest (fsm : FreeSpaceMap) (addr : FSMAddress) : Nat :=
  fsmGetMaxAvail (fsm.page addr)

/-- The value that the slot above a page has. -/
def FreeSpaceMap.above (fsm : FreeSpaceMap) (addr : FSMAddress) : Nat :=
  fsm.avail (fsmGetParent addr).1 (fsmGetParent addr).2

/-- The category that is recorded for a heap block. -/
def FreeSpaceMap.category (fsm : FreeSpaceMap) (block : Nat) : Nat :=
  fsm.avail (fsmGetLocation block).1 (fsmGetLocation block).2

/-- A page below the root. -/
def FSMAddress.Below (addr : FSMAddress) : Prop :=
  addr.level = 1 ∧ addr.logpageno < slotsPerFSMPage ∨
    addr.level = 0 ∧ addr.logpageno < slotsPerFSMPage * slotsPerFSMPage

/-- The pages of a map are right. -/
def FreeSpaceMap.Right (fsm : FreeSpaceMap) : Prop := ∀ addr, (fsm.page addr).Right

/-- A map of right pages in which every upper slot has the value of the root of the page below, and
only blocks have space. -/
structure FreeSpaceMap.Exact (fsm : FreeSpaceMap) : Prop where
  right : fsm.Right
  above_eq : ∀ addr : FSMAddress, addr.Below → fsm.above addr = fsm.largest addr
  blocks : ∀ block, invalidBlockNumber ≤ block → fsm.category block = 0

/-- Every upper slot has at least the largest value of the page below. -/
def FreeSpaceMap.Covers (fsm : FreeSpaceMap) : Prop :=
  ∀ addr : FSMAddress, addr.Below → fsm.largest addr ≤ fsm.above addr

/-- A search finds a block with enough space whenever there is one. -/
def FreeSpaceMap.Reaches (fsm : FreeSpaceMap) : Prop :=
  ∀ minCat, 0 < minCat → (∃ block, minCat ≤ fsm.category block) →
    ∃ rounds block after, fsmSearch rounds fsm minCat = some (block, after) ∧
      block ≠ invalidBlockNumber ∧ minCat ≤ fsm.category block

variable (newCat : Nat) (search : Bool) (endBlkNum : Nat) (fsm : FreeSpaceMap)

theorem FreeSpaceMap.page_write (addr other : FSMAddress) (page : FSMPage) :
    (fsm.write addr page).page other = if other = addr then page else fsm.page other := by
  rw [FreeSpaceMap.page, FreeSpaceMap.write]
  dsimp only
  rw [Function.update_apply]
  by_cases same : other = addr
  · rw [if_pos same, if_pos same]
    rfl
  · rw [if_neg same, if_neg same]
    rfl

/-- The number of the page or block below a slot, on its level. -/
def FSMAddress.child (addr : FSMAddress) (slot : Nat) : Nat := addr.logpageno * 4069 + slot

/-- A map has one value in some slots of another map, and its values in all other slots. -/
structure Painted (fsm after : FreeSpaceMap) (touched : FSMAddress → Nat → Prop) (value : Nat) :
    Prop where
  right : after.Right
  inside : ∀ addr slot, slot < 4069 → touched addr slot → after.avail addr slot = value
  outside : ∀ addr slot, slot < 4069 → ¬touched addr slot →
    after.avail addr slot = fsm.avail addr slot

/-- Painting twice paints both. -/
theorem Painted.trans (fsm middle after : FreeSpaceMap) (first second : FSMAddress → Nat → Prop)
    (value : Nat) (one : Painted fsm middle first value) (two : Painted middle after second value)
    (touched : FSMAddress → Nat → Prop)
    (both : ∀ addr slot, slot < 4069 → (touched addr slot ↔ first addr slot ∨ second addr slot)) :
    Painted fsm after touched value := by
  refine ⟨two.right, ?_, ?_⟩
  · intro addr slot bound here
    by_cases later : second addr slot
    · exact two.inside addr slot bound later
    · rw [two.outside addr slot bound later]
      obtain earlier | later' := (both addr slot bound).mp here
      · exact one.inside addr slot bound earlier
      · exact absurd later' later
  · intro addr slot bound elsewhere
    rw [both addr slot bound] at elsewhere
    rw [two.outside addr slot bound fun later => elsewhere (.inr later),
      one.outside addr slot bound fun earlier => elsewhere (.inl earlier)]

theorem Painted.refl (right : fsm.Right) (touched : FSMAddress → Nat → Prop)
    (value : Nat) (nothing : ∀ addr slot, slot < 4069 → ¬touched addr slot) :
    Painted fsm fsm touched value :=
  ⟨right, fun addr slot bound here => absurd here (nothing addr slot bound), fun _ _ _ _ => rfl⟩

/-- Setting a slot paints it. -/
theorem fsmSetAndSearch_painted (right : fsm.Right) (addr : FSMAddress)
    (slot value : Nat) (search : Bool) (bound : slot < 4069) :
    Painted fsm (fsmSetAndSearch fsm addr slot value 0 search).2
      (fun other place => other = addr ∧ place = slot) value := by
  have result : (fsmSetAndSearch fsm addr slot value 0 search).2 =
      fsm.write addr (fsmSetAvail (fsm.page addr) slot value) := by
    simp only [fsmSetAndSearch, ne_eq, not_true_eq_false, false_and, ↓reduceIte]
  obtain ⟨stays, slots⟩ := fsmSetAvail_right value (right addr) bound
  rw [result]
  refine ⟨?_, ?_, ?_⟩
  · intro other
    rw [FreeSpaceMap.page_write]
    by_cases same : other = addr
    · rw [if_pos same]
      exact stays
    · rw [if_neg same]
      exact right other
  · rintro other place _ ⟨same, here⟩
    rw [FreeSpaceMap.avail, FreeSpaceMap.page_write, if_pos same, slots, if_pos here]
  · intro other place _ elsewhere
    rw [FreeSpaceMap.avail, FreeSpaceMap.page_write]
    by_cases same : other = addr
    · rw [if_pos same, slots, if_neg fun here => elsewhere ⟨same, here⟩, ← same]
      rfl
    · rw [if_neg same]
      rfl

/-- Recording blocks paints their slots. -/
theorem recordBlocks_painted (count : Nat) (fsm : FreeSpaceMap) (right : fsm.Right)
    (start freespace : Nat) : Painted fsm (recordBlocks fsm start count freespace)
      (fun addr slot => addr.level = 0 ∧ start ≤ addr.child slot ∧ addr.child slot < start + count)
      (fsmSpaceAvailToCat freespace) := by
  induction count generalizing fsm start with
  | zero =>
    apply Painted.refl fsm right
    omega
  | succ count ih =>
    have first := fsmSetAndSearch_painted fsm right (fsmGetLocation start).1 (fsmGetLocation start).2
      (fsmSpaceAvailToCat freespace) true (Nat.mod_lt _ (by decide))
    apply Painted.trans _ _ _ _ _ _ first (ih _ first.right (start + 1))
    intro addr slot bound
    have here : addr = (fsmGetLocation start).1 ∧ slot = (fsmGetLocation start).2 ↔
        addr.level = 0 ∧ addr.child slot = start := by
      obtain ⟨level, number⟩ := addr
      simp only [fsmGetLocation, fsmBottomLevel, slotsPerFSMPage, FSMAddress.mk.injEq,
        FSMAddress.child]
      lia
    rw [here]
    omega

/-- The slots above the bottom pages between two. -/
def aboveTouched (first last : Nat) (addr : FSMAddress) (slot : Nat) : Prop :=
  addr.level = 1 ∧ first ≤ addr.child slot ∧ addr.child slot ≤ last ∨
    addr.level = 2 ∧ first / 4069 ≤ addr.child slot ∧ addr.child slot ≤ last / 4069

/-- The update paints the slots above a page. -/
theorem fsmUpdateRecursive_painted (right : fsm.Right) (number newCat : Nat) (search : Bool) :
    Painted fsm (fsmUpdateRecursive fsm ⟨0, number⟩ newCat search) (aboveTouched number number)
      newCat := by
  have bottom : ¬fsmRootLevel ≤ (⟨0, number⟩ : FSMAddress).level := (by decide : ¬2 ≤ 0)
  have middle : ¬fsmRootLevel ≤ (fsmGetParent ⟨0, number⟩).1.level := (by decide : ¬2 ≤ 1)
  have top : fsmRootLevel ≤ (fsmGetParent (fsmGetParent ⟨0, number⟩).1).1.level := le_refl 2
  rw [fsmUpdateRecursive, if_neg bottom, fsmUpdateRecursive, if_neg middle, fsmUpdateRecursive,
    if_pos top]
  have first := fsmSetAndSearch_painted fsm right (fsmGetParent ⟨0, number⟩).1
    (fsmGetParent ⟨0, number⟩).2 newCat search (Nat.mod_lt _ (by decide))
  have second := fsmSetAndSearch_painted _ first.right
    (fsmGetParent (fsmGetParent ⟨0, number⟩).1).1 (fsmGetParent (fsmGetParent ⟨0, number⟩).1).2 newCat
    search (Nat.mod_lt _ (by decide))
  apply Painted.trans _ _ _ _ _ _ first second
  intro addr slot bound
  obtain ⟨level, page⟩ := addr
  simp only [aboveTouched, fsmGetParent, slotsPerFSMPage, FSMAddress.mk.injEq, FSMAddress.child]
  grind

/-- The block number where the last page of the bottom level begins. -/
def lastPageStart : Nat := 4294963777

theorem fsmGetLastblckno_eq (block : Nat) (bound : block < lastPageStart) :
    fsmGetLastblckno (fsmGetLocation block).1 = block / 4069 * 4069 + 4068 := by
  rw [lastPageStart] at bound
  simp only [fsmGetLastblckno, fsmGetHeapBlk, fsmGetLocation, slotsPerFSMPage, blockNumbers]
  lia

/-- The loop paints the slots above all pages. -/
theorem updateLoop_painted (pages : Nat) (newCat : Nat) (search : Bool) (endBlkNum blockNum : Nat)
    (fsm : FreeSpaceMap) (right : fsm.Right) (ordered : blockNum ≤ endBlkNum)
    (early : endBlkNum < lastPageStart) (count : endBlkNum / 4069 = blockNum / 4069 + pages) :
    ∃ rounds after, updateLoop newCat search endBlkNum rounds blockNum fsm = some after ∧
      Painted fsm after (aboveTouched (blockNum / 4069) (endBlkNum / 4069)) newCat := by
  induction pages generalizing blockNum fsm with
  | zero =>
    have whole := fsmUpdateRecursive_painted fsm right (blockNum / 4069) newCat search
    refine ⟨1, fsmUpdateRecursive fsm ⟨0, blockNum / 4069⟩ newCat search, ?_, ?_⟩
    · rw [updateLoop, if_pos ordered]
      dsimp only
      rw [fsmGetLastblckno_eq blockNum (by omega), if_pos (by lia)]
      rfl
    · rw [count]
      exact whole
  | succ pages ih =>
    have first := fsmUpdateRecursive_painted fsm right (blockNum / 4069) newCat search
    have small : blockNum / 4069 * 4069 + 4068 + 1 < blockNumbers := by
      rw [lastPageStart] at early
      rw [blockNumbers]
      lia
    obtain ⟨rounds, after, ends, rest⟩ := ih (blockNum / 4069 * 4069 + 4068 + 1) _ first.right
      (by lia) (by lia)
    refine ⟨rounds + 1, after, ?_, ?_⟩
    · rw [updateLoop, if_pos ordered]
      dsimp only
      rw [fsmGetLastblckno_eq blockNum (by omega), if_neg (by lia), Nat.mod_eq_of_lt small]
      exact ends
    · apply Painted.trans _ _ _ _ _ _ first rest
      intro addr slot bound
      simp only [aboveTouched]
      grind

/-- On the last page the loop has no end. -/
theorem updateLoop_endless
    (late : lastPageStart ≤ endBlkNum) (valid : endBlkNum < invalidBlockNumber)
    (rounds blockNum : Nat) (fsm : FreeSpaceMap) (ordered : blockNum ≤ endBlkNum) :
    updateLoop newCat search endBlkNum rounds blockNum fsm = none := by
  induction rounds generalizing blockNum fsm with
  | zero => rfl
  | succ rounds ih =>
    rw [updateLoop, if_pos ordered]
    rw [lastPageStart] at late
    rw [invalidBlockNumber] at valid
    have next : ¬endBlkNum ≤ fsmGetLastblckno (fsmGetLocation blockNum).1 ∧
        (fsmGetLastblckno (fsmGetLocation blockNum).1 + 1) % blockNumbers ≤ endBlkNum := by
      simp only [fsmGetLastblckno, fsmGetHeapBlk, fsmGetLocation, slotsPerFSMPage, blockNumbers]
      have inside : 4069 * (blockNum / 4069) ≤ blockNum := by omega
      generalize blockNum / 4069 = page at inside
      -- The last block of the last page does not fit 32 bits.
      by_cases lastPage : page = 1055533
      · lia
      · have early : page ≤ 1055532 := by lia
        lia
    rw [if_neg next.1]
    exact ih _ _ next.2

/-- The slots that an extension writes, on the three levels. -/
def extensionTouched (firstBlock lastBlock : Nat) (addr : FSMAddress) (slot : Nat) : Prop :=
  addr.level = 0 ∧ firstBlock ≤ addr.child slot ∧ addr.child slot ≤ lastBlock ∨
    aboveTouched (firstBlock / 4069) (lastBlock / 4069) addr slot

theorem extendMap_painted (right : fsm.Right)
    {firstBlock lastBlock : Nat} (freespace : Nat) (search : Bool)
    (ordered : firstBlock ≤ lastBlock)
    (early : lastBlock < lastPageStart) :
    ∃ rounds after, extendMap rounds fsm firstBlock lastBlock freespace search = some after ∧
      Painted fsm after (extensionTouched firstBlock lastBlock) (fsmSpaceAvailToCat freespace) := by
  have recorded := recordBlocks_painted (lastBlock + 1 - firstBlock) fsm right firstBlock freespace
  obtain ⟨rounds, after, ends, updated⟩ := updateLoop_painted
    (lastBlock / 4069 - firstBlock / 4069) (fsmSpaceAvailToCat freespace) search lastBlock firstBlock
    _ recorded.right ordered early (by lia)
  refine ⟨rounds, after, ends, ?_⟩
  apply Painted.trans _ _ _ _ _ _ recorded updated
  intro addr slot bound
  simp only [extensionTouched]
  lia

/-- Enough rounds give one result. -/
theorem updateLoop_unique (first second blockNum : Nat) (fsm one other : FreeSpaceMap)
    (ends : updateLoop newCat search endBlkNum first blockNum fsm = some one)
    (endsToo : updateLoop newCat search endBlkNum second blockNum fsm = some other) :
    one = other := by
  induction first generalizing second blockNum fsm with
  | zero => cases ends
  | succ first ih =>
    cases second with
    | zero => cases endsToo
    | succ second =>
      rw [updateLoop] at ends endsToo
      by_cases more : blockNum ≤ endBlkNum
      · rw [if_pos more] at ends endsToo
        by_cases stops : endBlkNum ≤ fsmGetLastblckno (fsmGetLocation blockNum).1
        · rw [if_pos stops, Option.some.injEq] at ends endsToo
          rw [← ends, ← endsToo]
        · rw [if_neg stops] at ends endsToo
          exact ih _ _ _ ends endsToo
      · rw [if_neg more, Option.some.injEq] at ends endsToo
        rw [← ends, ← endsToo]

theorem FreeSpaceMap.category_child (page slot : Nat) (bound : slot < 4069) :
    fsm.category (page * 4069 + slot) = fsm.avail ⟨0, page⟩ slot := by
  have parts : (page * 4069 + slot) / 4069 = page ∧ (page * 4069 + slot) % 4069 = slot := by lia
  simp only [FreeSpaceMap.category, fsmGetLocation, slotsPerFSMPage, fsmBottomLevel, parts.1, parts.2]

theorem FreeSpaceMap.above_child (level page slot : Nat) (bound : slot < 4069) :
    fsm.above ⟨level, page * 4069 + slot⟩ = fsm.avail ⟨level + 1, page⟩ slot := by
  have parts : (page * 4069 + slot) / 4069 = page ∧ (page * 4069 + slot) % 4069 = slot := by lia
  simp only [FreeSpaceMap.above, fsmGetParent, slotsPerFSMPage, parts.1, parts.2]

/-- The search goes down to a slot that is large enough. -/
theorem searchLoop_down (right : fsm.Right) {minCat : Nat}
    (positive : 0 < minCat) (addr : FSMAddress) (enough : minCat ≤ fsm.largest addr) :
    ∃ slot < 4069, minCat ≤ fsm.avail addr slot ∧ ∃ after : FreeSpaceMap, after.Right ∧
      (∀ other place, after.avail other place = fsm.avail other place) ∧
      (∀ other, after.largest other = fsm.largest other) ∧
      ∀ rounds restarts, searchLoop minCat (rounds + 1) restarts addr fsm =
        if addr.level = fsmBottomLevel then some (fsmGetHeapBlk addr slot, after)
        else searchLoop minCat rounds restarts (fsmGetChild addr slot) after := by
  cases stored : fsm.pages addr with
  | none =>
    have fresh : fsm.largest addr = 0 := by
      simp only [FreeSpaceMap.largest, FreeSpaceMap.page, stored]
      rfl
    omega
  | some page =>
    have same : fsm.page addr = page := by
      rw [FreeSpaceMap.page, stored]
      rfl
    have pageRight := right addr
    rw [FreeSpaceMap.largest, same] at enough
    rw [same] at pageRight
    obtain ⟨slot, bound, here, next, found⟩ := fsmSearchAvail_enough page pageRight
      (addr.level == fsmBottomLevel) positive enough
    have kept : ∀ other, ((fsm.write addr { page with nextSlot := next }).page other).nodes =
        (fsm.page other).nodes := by
      intro other
      rw [FreeSpaceMap.page_write]
      by_cases this : other = addr
      · rw [if_pos this, this, same]
      · rw [if_neg this]
    refine ⟨slot, bound, ?_, fsm.write addr { page with nextSlot := next }, ?_, ?_, ?_, ?_⟩
    · rw [FreeSpaceMap.avail, same]
      exact here
    · intro other
      rw [FSMPage.Right, kept]
      exact right other
    · intro other place
      rw [FreeSpaceMap.avail, FreeSpaceMap.avail, fsmGetAvail, fsmGetAvail, kept]
    · intro other
      rw [FreeSpaceMap.largest, FreeSpaceMap.largest, fsmGetMaxAvail, fsmGetMaxAvail, kept]
    · intro rounds restarts
      rw [searchLoop]
      simp only [stored, found]

/-- A search in an exact map finds a block whenever one has enough space. -/
theorem FreeSpaceMap.Exact.reaches (exact : fsm.Exact) : fsm.Reaches := by
  rintro minCat positive ⟨block, enough⟩
  have inTree : block < 4294967295 := by
    by_contra behind
    rw [exact.blocks block (Nat.not_lt.mp behind)] at enough
    omega
  -- The space of the block shows in the root page.
  have climbs : ∀ addr slot, slot < 4069 → fsm.avail addr slot ≤ fsm.largest addr := by
    intro addr slot bound
    exact ((exact.right addr).max_le_iff _).mp le_rfl slot bound
  have bottom := climbs ⟨0, block / 4069⟩ (block % 4069) (Nat.mod_lt _ (by decide))
  have middle := climbs ⟨1, block / 4069 / 4069⟩ (block / 4069 % 4069) (Nat.mod_lt _ (by decide))
  have top := climbs ⟨2, 0⟩ (block / 4069 / 4069) (by lia)
  have bottomAbove := exact.above_eq ⟨0, block / 4069⟩
    (.inr ⟨rfl, by simp only [slotsPerFSMPage]; lia⟩)
  have middleAbove := exact.above_eq ⟨1, block / 4069 / 4069⟩
    (.inl ⟨rfl, by simp only [slotsPerFSMPage]; lia⟩)
  rw [FreeSpaceMap.above] at bottomAbove middleAbove
  have rootPage : (fsmGetParent ⟨1, block / 4069 / 4069⟩).1 = ⟨2, 0⟩ ∧
      (fsmGetParent ⟨1, block / 4069 / 4069⟩).2 = block / 4069 / 4069 := by
    simp only [fsmGetParent, slotsPerFSMPage, FSMAddress.mk.injEq]
    lia
  rw [rootPage.1, rootPage.2] at middleAbove
  have rootEnough : minCat ≤ fsm.largest ⟨2, 0⟩ := by
    apply le_trans _ top
    rw [middleAbove]
    apply le_trans _ middle
    apply le_trans (le_trans enough bottom)
    exact bottomAbove.ge
  -- The search goes down from the root page along slots that have enough.
  obtain ⟨slot, bound, here, second, secondRight, avail, largest, goes⟩ :=
    searchLoop_down fsm exact.right positive ⟨2, 0⟩ rootEnough
  have below := exact.above_eq ⟨1, slot⟩ (.inl ⟨rfl, bound⟩)
  have place := fsm.above_child 1 0 slot bound
  rw [Nat.zero_add] at place
  obtain ⟨slot', bound', here', third, thirdRight, avail', largest', goes'⟩ :=
    searchLoop_down second secondRight positive ⟨1, slot⟩ (by
      rw [largest, ← below, place]
      exact here)
  have below' := exact.above_eq ⟨0, slot * 4069 + slot'⟩
    (.inr ⟨rfl, by simp only [slotsPerFSMPage]; lia⟩)
  rw [fsm.above_child 0 slot slot' bound'] at below'
  rw [avail] at here'
  obtain ⟨slot'', bound'', here'', fourth, -, -, -, goes''⟩ :=
    searchLoop_down third thirdRight positive ⟨0, slot * 4069 + slot'⟩ (by
      rw [largest', largest, ← below']
      exact here')
  rw [avail', avail, ← fsm.category_child _ _ bound''] at here''
  have valid : (slot * 4069 + slot') * 4069 + slot'' < 4294967295 := by
    by_contra behind
    rw [exact.blocks _ (Nat.not_lt.mp behind)] at here''
    omega
  have number : fsmGetHeapBlk ⟨0, slot * 4069 + slot'⟩ slot'' =
      (slot * 4069 + slot') * 4069 + slot'' := by
    simp only [fsmGetHeapBlk, slotsPerFSMPage, blockNumbers]
    exact Nat.mod_eq_of_lt (by lia)
  refine ⟨3, (slot * 4069 + slot') * 4069 + slot'', fourth, ?_, valid.ne, here''⟩
  have first : fsmGetChild ⟨2, 0⟩ slot = ⟨1, slot⟩ := by
    simp only [fsmGetChild, Nat.zero_mul, Nat.zero_add]
  have notBottom : ¬(⟨1, slot⟩ : FSMAddress).level = fsmBottomLevel := one_ne_zero
  rw [fsmSearch, fsmRootAddress, fsmRootLevel, goes, first, goes', ← number]
  exact goes'' 0 0

/-- The largest slot depends on the slots. -/
theorem largest_congr {fsm after : FreeSpaceMap} (right : fsm.Right) (afterRight : after.Right)
    (addr : FSMAddress) (same : ∀ slot < 4069, after.avail addr slot = fsm.avail addr slot) :
    after.largest addr = fsm.largest addr := by
  apply le_antisymm
  · apply ((afterRight addr).max_le_iff _).mpr
    intro slot bound
    have stays := same slot bound
    rw [FreeSpaceMap.avail] at stays
    rw [stays]
    exact ((right addr).max_le_iff _).mp le_rfl slot bound
  · apply ((right addr).max_le_iff _).mpr
    intro slot bound
    have stays := same slot bound
    rw [FreeSpaceMap.avail, FreeSpaceMap.avail] at stays
    rw [← stays]
    exact ((afterRight addr).max_le_iff _).mp le_rfl slot bound

/-- A painted slot above a page is its largest one. -/
theorem Painted.above_eq {fsm after : FreeSpaceMap} (touched : FSMAddress → Nat → Prop)
    {value : Nat} (painted : Painted fsm after touched value) (right : fsm.Right)
    {addr : FSMAddress} (before : fsm.above addr = fsm.largest addr)
    (written : touched (fsmGetParent addr).1 (fsmGetParent addr).2 →
      (∃ slot < 4069, touched addr slot) ∧
        ∀ slot < 4069, ¬touched addr slot → fsm.avail addr slot ≤ value)
    (kept : ¬touched (fsmGetParent addr).1 (fsmGetParent addr).2 →
      ∀ slot < 4069, ¬touched addr slot) : after.above addr = after.largest addr := by
  have parentSlot : (fsmGetParent addr).2 < 4069 := Nat.mod_lt _ (by decide)
  by_cases here : touched (fsmGetParent addr).1 (fsmGetParent addr).2
  · obtain ⟨⟨slot, bound, reached⟩, others⟩ := written here
    rw [FreeSpaceMap.above, painted.inside _ _ parentSlot here]
    symm
    apply (painted.right addr).max_eq _ bound (painted.inside addr slot bound reached)
    intro other otherBound
    by_cases same : touched addr other
    · exact (painted.inside addr other otherBound same).le
    · have stays := painted.outside addr other otherBound same
      rw [FreeSpaceMap.avail] at stays
      rw [stays]
      exact others other otherBound same
  · rw [FreeSpaceMap.above, painted.outside _ _ parentSlot here,
      largest_congr right painted.right addr fun slot bound =>
        painted.outside addr slot bound (kept here slot bound)]
    exact before

/-- No other block below the pages of the middle level that an extension touches has a larger
category than the new blocks, and the last bottom page is not touched. -/
def KeepsReachable (fsm : FreeSpaceMap) (firstBlock lastBlock freespace : Nat) : Prop :=
  lastBlock < lastPageStart ∧ ∀ block, (block < firstBlock ∨ lastBlock < block) →
      firstBlock / 4069 / 4069 ≤ block / 4069 / 4069 →
      block / 4069 / 4069 ≤ lastBlock / 4069 / 4069 →
      fsm.category block ≤ fsmSpaceAvailToCat freespace

variable (fsm after : FreeSpaceMap)

variable {fsm after}

/-- An extension of an exact map that keeps space reachable leaves an exact map. -/
theorem extension_exact (exact : fsm.Exact)
    {firstBlock lastBlock freespace : Nat} (ordered : firstBlock ≤ lastBlock)
    (keeps : KeepsReachable fsm firstBlock lastBlock freespace)
    (painted : Painted fsm after (extensionTouched firstBlock lastBlock)
      (fsmSpaceAvailToCat freespace)) : after.Exact := by
  obtain ⟨early, lower⟩ := keeps
  rw [lastPageStart] at early
  -- The value of an untouched bottom page below a touched middle page.
  have untouched : ∀ page, firstBlock / 4069 / 4069 ≤ page / 4069 →
      page / 4069 ≤ lastBlock / 4069 / 4069 →
      (page < firstBlock / 4069 ∨ lastBlock / 4069 < page) →
      fsm.largest ⟨0, page⟩ ≤ fsmSpaceAvailToCat freespace := by
    intro page low high apart
    apply ((exact.right _).max_le_iff _).mpr
    intro slot bound
    have small : slot < 4069 := bound
    have stored := fsm.category_child page slot small
    rw [FreeSpaceMap.avail] at stored
    rw [← stored]
    apply lower <;> lia
  refine ⟨painted.right, ?_, ?_⟩
  · intro addr below
    apply painted.above_eq _ exact.right (exact.above_eq addr below)
    · intro parent
      obtain ⟨level, page⟩ := addr
      obtain ⟨middle, inside⟩ | ⟨bottom, inside⟩ := below
      · subst middle
        simp only [extensionTouched, aboveTouched, fsmGetParent, slotsPerFSMPage,
          FSMAddress.child] at parent inside ⊢
        constructor
        · exact ⟨max (firstBlock / 4069) (page * 4069) - page * 4069, by omega, by lia⟩
        · intro slot bound apart
          have stored := fsm.above_child 0 page slot bound
          rw [exact.above_eq ⟨0, page * 4069 + slot⟩
            (.inr ⟨rfl, by simp only [slotsPerFSMPage]; omega⟩)] at stored
          rw [← stored]
          apply untouched <;> lia
      · subst bottom
        simp only [extensionTouched, aboveTouched, fsmGetParent, slotsPerFSMPage,
          FSMAddress.child] at parent inside ⊢
        constructor
        · exact ⟨max firstBlock (page * 4069) - page * 4069, by omega, by grind⟩
        · intro slot bound apart
          rw [← fsm.category_child page slot bound]
          apply lower <;> lia
    · intro parent slot bound
      obtain ⟨level, page⟩ := addr
      obtain ⟨middle, inside⟩ | ⟨bottom, inside⟩ := below
      · subst middle
        simp only [extensionTouched, aboveTouched, fsmGetParent, slotsPerFSMPage,
          FSMAddress.child] at parent inside ⊢
        lia
      · subst bottom
        simp only [extensionTouched, aboveTouched, fsmGetParent, slotsPerFSMPage,
          FSMAddress.child] at parent inside ⊢
        lia
  · intro block behind
    rw [← exact.blocks block behind]
    apply painted.outside _ _ (Nat.mod_lt _ (by decide))
    rw [invalidBlockNumber] at behind
    simp only [extensionTouched, aboveTouched, fsmGetLocation, slotsPerFSMPage,
      FSMAddress.child]
    lia

/-- Where slots cover their pages, the space is reachable. -/
theorem keepsReachable_of_covers (exact : fsm.Exact)
    {firstBlock lastBlock freespace : Nat} (early : lastBlock < lastPageStart)
    (painted : Painted fsm after (extensionTouched firstBlock lastBlock)
      (fsmSpaceAvailToCat freespace)) (covers : after.Covers) :
    KeepsReachable fsm firstBlock lastBlock freespace := by
  refine ⟨early, ?_⟩
  rw [lastPageStart] at early
  intro block apart low high
  have slot : block % 4069 < 4069 := Nat.mod_lt _ (by decide)
  have climbs : ∀ map : FreeSpaceMap, map.Right → ∀ addr place, place < 4069 →
      map.avail addr place ≤ map.largest addr := by
    intro map right addr place bound
    exact ((right addr).max_le_iff _).mp le_rfl place bound
  have bottomBelow : (⟨0, block / 4069⟩ : FSMAddress).Below :=
    .inr ⟨rfl, by simp only [slotsPerFSMPage]; lia⟩
  have middleBelow : (⟨1, block / 4069 / 4069⟩ : FSMAddress).Below :=
    .inl ⟨rfl, by simp only [slotsPerFSMPage]; lia⟩
  by_cases page : firstBlock / 4069 ≤ block / 4069 ∧ block / 4069 ≤ lastBlock / 4069
  · -- The slot above the bottom page of the block is written.
    have kept : after.avail ⟨0, block / 4069⟩ (block % 4069) = fsm.category block := by
      apply painted.outside _ _ slot
      simp only [extensionTouched, aboveTouched, FSMAddress.child]
      lia
    rw [← kept]
    apply le_trans (climbs after painted.right _ _ slot)
    apply le_trans (covers _ bottomBelow)
    apply le_of_eq
    apply painted.inside _ _ (Nat.mod_lt _ (by decide))
    simp only [extensionTouched, aboveTouched, fsmGetParent, slotsPerFSMPage, FSMAddress.child]
    lia
  · -- The slot above the bottom page keeps its value, and the slot above that one is written.
    apply le_trans (climbs fsm exact.right ⟨0, block / 4069⟩ (block % 4069) slot)
    rw [← exact.above_eq _ bottomBelow]
    have kept : after.avail ⟨1, block / 4069 / 4069⟩ (block / 4069 % 4069) =
        fsm.above ⟨0, block / 4069⟩ := by
      apply painted.outside _ _ (Nat.mod_lt _ (by decide))
      simp only [extensionTouched, aboveTouched, FSMAddress.child]
      lia
    rw [← kept]
    apply le_trans (climbs after painted.right _ _ (Nat.mod_lt _ (by decide)))
    apply le_trans (covers _ middleBelow)
    apply le_of_eq
    apply painted.inside _ _ (Nat.mod_lt _ (by decide))
    simp only [extensionTouched, aboveTouched, fsmGetParent, slotsPerFSMPage, FSMAddress.child,
      true_and]
    omega

/-- So it is after an extension. -/
theorem keepsReachable_of_extension (exact : fsm.Exact)
    {rounds firstBlock lastBlock freespace : Nat} {search : Bool} (ordered : firstBlock ≤ lastBlock)
    (valid : lastBlock < invalidBlockNumber)
    (ends : extendMap rounds fsm firstBlock lastBlock freespace search = some after)
    (covers : after.Covers) : KeepsReachable fsm firstBlock lastBlock freespace := by
  by_cases early : lastBlock < lastPageStart
  · obtain ⟨rounds', after', ends', painted⟩ := extendMap_painted fsm exact.right
      freespace search ordered early
    have same := updateLoop_unique _ _ _ _ _ _ _ _ _ ends ends'
    rw [same] at covers
    exact keepsReachable_of_covers exact early painted covers
  · rw [extendMap, updateFreeSpaceMap, updateLoop_endless _ _ _ (Nat.not_lt.mp early) valid _ _ _
      ordered] at ends
    cases ends

/-- An extension of an exact map ends with every upper slot at least the largest value of the page
below, and with every space within reach of a search, exactly if no other block below the touched
pages of the middle level has a larger category than the new blocks and the last bottom page is not
touched. -/
theorem extension_keeps_space_reachable (fsm : FreeSpaceMap) (exact : fsm.Exact)
    (firstBlock lastBlock freespace : Nat) (search : Bool) (ordered : firstBlock ≤ lastBlock)
    (valid : lastBlock < invalidBlockNumber) :
    (∃ rounds after, extendMap rounds fsm firstBlock lastBlock freespace search = some after ∧
      after.Covers ∧ after.Reaches) ↔ KeepsReachable fsm firstBlock lastBlock freespace := by
  constructor
  · rintro ⟨rounds, after, ends, covers, -⟩
    exact keepsReachable_of_extension exact ordered valid ends covers
  · intro keeps
    obtain ⟨rounds, after, ends, painted⟩ := extendMap_painted fsm exact.right
      freespace search ordered keeps.1
    have exactAfter := extension_exact exact ordered keeps painted
    exact ⟨rounds, after, ends, fun addr below => (exactAfter.above_eq addr below).ge,
      exactAfter.reaches after⟩

/-- The map without pages. -/
def emptyMap : FreeSpaceMap where
  pages := fun _ => none

theorem emptyMap_exact : emptyMap.Exact :=
  ⟨fun _ => freshPage_right, fun _ _ => rfl, fun _ _ => rfl⟩

/-- The map after the first block was recorded with 8000 free bytes. -/
def spaciousMap : FreeSpaceMap :=
  fsmUpdateRecursive (recordBlocks emptyMap 0 1 8000) ⟨0, 0⟩ (fsmSpaceAvailToCat 8000) true

theorem spaciousMap_painted :
    Painted emptyMap spaciousMap (extensionTouched 0 0) (fsmSpaceAvailToCat 8000) := by
  have recorded := recordBlocks_painted 1 emptyMap emptyMap_exact.right 0 8000
  apply Painted.trans _ _ _ _ _ _ recorded
    (fsmUpdateRecursive_painted _ recorded.right 0 (fsmSpaceAvailToCat 8000) true)
  intro addr slot bound
  simp only [extensionTouched]
  lia

theorem spaciousMap_exact : spaciousMap.Exact :=
  extension_exact emptyMap_exact le_rfl
    ⟨by decide, fun _ _ _ _ => Nat.zero_le _⟩ spaciousMap_painted

theorem spaciousMap_category_le (block : Nat) :
    spaciousMap.category block ≤ fsmSpaceAvailToCat 8000 := by
  have slot : (fsmGetLocation block).2 < 4069 := Nat.mod_lt _ (by decide)
  by_cases touched : extensionTouched 0 0 (fsmGetLocation block).1 (fsmGetLocation block).2
  · exact (spaciousMap_painted.inside _ _ slot touched).le
  · rw [FreeSpaceMap.category, spaciousMap_painted.outside _ _ slot touched]
    exact Nat.zero_le _

/-- The next blocks are recorded with as much space as the first one. -/
theorem extension_keeps_space_reachable_spacious :
    ∃ rounds after, extendMap rounds spaciousMap 1 5000 8000 true = some after ∧
      after.Covers ∧ after.Reaches :=
  (extension_keeps_space_reachable spaciousMap spaciousMap_exact 1 5000 8000 true (by decide)
    (by decide)).mpr ⟨by decide, fun block _ _ _ => spaciousMap_category_le block⟩

/-- The second block is recorded with 100 free bytes: the slots above then hide the 8000 bytes of
the first. -/
theorem small_extension_hides_space : spaciousMap.Exact ∧
      ¬∃ rounds after, extendMap rounds spaciousMap 1 1 100 true = some after ∧
        after.Covers ∧ after.Reaches := by
  refine ⟨spaciousMap_exact, ?_⟩
  rintro ⟨rounds, after, ends, covers, -⟩
  obtain ⟨-, lower⟩ := keepsReachable_of_extension spaciousMap_exact le_rfl (by decide) ends covers
  have hidden := lower 0 (.inl Nat.one_pos) le_rfl le_rfl
  have stored : spaciousMap.category 0 = fsmSpaceAvailToCat 8000 := by
    apply spaciousMap_painted.inside _ _ (by decide)
    exact .inl ⟨rfl, le_rfl, le_rfl⟩
  rw [stored] at hidden
  exact absurd hidden (by decide)

end OpenGauss.Freespace
