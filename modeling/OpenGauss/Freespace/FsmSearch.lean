import OpenGauss.Freespace.FsmPage

/-!
# Searching a page of the free space map

The search of `fsmpage.cpp` with the nodes it reads and the times it works out the page again. Each
of its loops runs for at most some rounds, and a search that needs more has no result. Moving right
and climbing halves the number of the node, which never comes behind the last node of the page; going
down grows it. So every search ends, on a page with torn values after working it out once.
-/
namespace OpenGauss.Freespace

open List

/-- Climb to the right until a node has enough: the node, and the nodes that were read. -/
def climbRun (nodes : Nat → Nat) (minvalue : Nat) : Nat → Nat → Option (Nat × List Nat)
  | 0, _ => none
  | rounds + 1, node =>
    if node = 0 then some (node, [])
    else if minvalue ≤ nodes node then some (node, [node])
    else (climbRun nodes minvalue rounds (parentof (rightneighbor node))).map fun up =>
      (up.1, node :: up.2)

/-- The children of a node that exist. -/
def existingChildren (node : Nat) : List Nat :=
  [leftchild node, leftchild node + 1].filter fun child => decide (child < nodesPerPage)

/-- Go down to a leaf along nodes that have enough: the leaf, or none if a node promised too much, and
the nodes that were read. -/
def descendRun (nodes : Nat → Nat) (minvalue : Nat) : Nat → Nat → Option (Option Nat × List Nat)
  | 0, _ => none
  | rounds + 1, node =>
    if nonLeafNodesPerPage ≤ node then some (some node, [])
    else
      let left := leftchild node
      if left < nodesPerPage ∧ minvalue ≤ nodes left then
        (descendRun nodes minvalue rounds left).map fun down => (down.1, left :: down.2)
      else if left + 1 < nodesPerPage ∧ minvalue ≤ nodes (left + 1) then
        (descendRun nodes minvalue rounds (left + 1)).map fun down =>
          (down.1, existingChildren node ++ down.2)
      else some (none, existingChildren node)

/-- What a search does. -/
structure SearchRun where
  slot : Option Nat
  page : FSMPage
  rebuilds : Nat
  reads : List Nat

/-- Search for a slot with at least a value, for at most some attempts (`fsm_search_avail`). -/
def fsmSearchRun (minvalue : Nat) (advancenext : Bool) : Nat → FSMPage → Option SearchRun
  | 0, _ => none
  | attempts + 1, page =>
    if page.nodes 0 < minvalue then some ⟨none, page, 0, [0]⟩
    else
      (climbRun page.nodes minvalue nodesPerPage (searchTarget page)).bind fun up =>
        (descendRun page.nodes minvalue nodesPerPage up.1).bind fun down =>
          match down.1 with
          | some leaf =>
            let slot := leaf - nonLeafNodesPerPage
            some ⟨some slot, { page with nextSlot := slot + if advancenext then 1 else 0 }, 0,
              0 :: up.2 ++ down.2⟩
          | none =>
            (fsmSearchRun minvalue advancenext attempts (fsmRebuildPage page)).map fun later =>
              { later with
                rebuilds := later.rebuilds + 1
                reads := 0 :: up.2 ++ down.2 ++ later.reads }

/-- Clear the leaves from some slot on. -/
def clearLeaves (nodes : Nat → Nat) (nslots : Nat) (node : Nat) : Nat :=
  if nonLeafNodesPerPage + nslots ≤ node ∧ node < nodesPerPage then 0 else nodes node

/-- Whether a leaf from some slot on has a value. -/
def anyLeaf (nodes : Nat → Nat) (nslots : Nat) : Bool :=
  (List.range' (nonLeafNodesPerPage + nslots) (slotsPerFSMPage - nslots)).any fun node =>
    decide (nodes node ≠ 0)

/-- Clear the slots from some slot on; the inner nodes are worked out again if a slot changed. -/
def fsmTruncateAvail (page : FSMPage) (nslots : Nat) : Bool × FSMPage :=
  let changed := anyLeaf page.nodes nslots
  let cleared : FSMPage := { page with nodes := clearLeaves page.nodes nslots }
  (changed, if changed then fsmRebuildPage cleared else cleared)

theorem parentof_rightneighbor_lt (node : Nat) (positive : 0 < node) :
    parentof (rightneighbor node) < node := by
  rw [rightneighbor]
  by_cases wraps : (node + 2) &&& (node + 1) = 0
  · simp only [parentof]
    lia
  · simp only [parentof]
    lia

variable (nodes : Nat → Nat) (minvalue : Nat) (advancenext : Bool) (attempts : Nat) (page : FSMPage)

/-- The climb ends and stays in the page. -/
theorem climbRun_spec (enough : minvalue ≤ nodes 0)
    (rounds node : Nat) (room : node < rounds) (bound : node < nodesPerPage) :
    ∃ up, climbRun nodes minvalue rounds node = some up ∧ up.1 < nodesPerPage ∧
      minvalue ≤ nodes up.1 ∧ ∀ read ∈ up.2, read < nodesPerPage := by
  induction rounds generalizing node with
  | zero => omega
  | succ rounds ih =>
    rw [climbRun]
    by_cases root : node = 0
    · rw [root]
      exact ⟨_, rfl, by decide, enough, fun _ member => absurd member not_mem_nil⟩
    · rw [if_neg root]
      by_cases here : minvalue ≤ nodes node
      · rw [if_pos here]
        refine ⟨_, rfl, bound, here, fun read member => ?_⟩
        rw [mem_singleton.mp member]
        exact bound
      · rw [if_neg here]
        have above := parentof_rightneighbor_lt node (Nat.pos_of_ne_zero root)
        obtain ⟨up, isUp, inside, reached, reads⟩ := ih _ (by omega) (above.trans bound)
        rw [isUp]
        refine ⟨_, rfl, inside, reached, ?_⟩
        rw [forall_mem_cons]
        exact ⟨bound, reads⟩

theorem existingChildren_lt (node child : Nat) (member : child ∈ existingChildren node) :
    child < nodesPerPage := of_decide_eq_true (mem_filter.mp member).2

/-- What going down from a node that has enough comes to. -/
structure Descended (nodes : Nat → Nat) (minvalue : Nat) (down : Option Nat × List Nat) : Prop where
  reads : ∀ read ∈ down.2, read < nodesPerPage
  leaf : ∀ node, down.1 = some node → nonLeafNodesPerPage ≤ node ∧ node < nodesPerPage
  enough : ∀ node, down.1 = some node → minvalue ≤ nodes node
  found : RightFrom nodes 0 → 0 < minvalue → down.1 ≠ none

theorem Descended.prepend (down : Option Nat × List Nat)
    (descended : Descended nodes minvalue down) (before : List Nat)
    (inside : ∀ read ∈ before, read < nodesPerPage) :
    Descended nodes minvalue (down.1, before ++ down.2) := by
  refine ⟨?_, descended.leaf, descended.enough, descended.found⟩
  intro read member
  rcases mem_append.mp member with early | late
  · exact inside read early
  · exact descended.reads read late

theorem RightFrom.child {nodes : Nat → Nat} (right : RightFrom nodes 0) {minvalue node : Nat}
    (positive : 0 < minvalue) (inner : node < nonLeafNodesPerPage) (enough : minvalue ≤ nodes node) :
    leftchild node < nodesPerPage ∧ minvalue ≤ nodes (leftchild node) ∨
      leftchild node + 1 < nodesPerPage ∧ minvalue ≤ nodes (leftchild node + 1) := by
  have value (child : Nat) (most : minvalue ≤ nodeValue nodes child) :
      child < nodesPerPage ∧ minvalue ≤ nodes child := by
    rw [nodeValue] at most
    by_cases inside : child < nodesPerPage
    · rw [if_pos inside] at most
      exact ⟨inside, most⟩
    · rw [if_neg inside] at most
      omega
  rw [right node (Nat.zero_le _) inner, childrenValue, le_max_iff] at enough
  exact enough.imp (value _) (value _)

/-- The descent ends and stays in the page. -/
theorem descendRun_spec (minvalue rounds node : Nat)
    (room : nodesPerPage ≤ node + rounds) (bound : node < nodesPerPage)
    (enough : minvalue ≤ nodes node) :
    ∃ down, descendRun nodes minvalue rounds node = some down ∧ Descended nodes minvalue down := by
  induction rounds generalizing node with
  | zero => omega
  | succ rounds ih =>
    have deeper : node < leftchild node := by
      simp only [leftchild]
      omega
    rw [descendRun]
    by_cases leaf : nonLeafNodesPerPage ≤ node
    · rw [if_pos leaf]
      refine ⟨_, rfl, fun _ member => absurd member not_mem_nil, ?_, ?_, ?_⟩
      · intro other same
        cases same
        exact ⟨leaf, bound⟩
      · intro other same
        cases same
        exact enough
      · exact fun _ _ absent => by cases absent
    · rw [if_neg leaf]
      by_cases left : leftchild node < nodesPerPage ∧ minvalue ≤ nodes (leftchild node)
      · obtain ⟨down, isDown, descended⟩ := ih (leftchild node) (by omega) left.1 left.2
        rw [if_pos left, isDown]
        refine ⟨_, rfl, Descended.prepend nodes minvalue down descended [leftchild node] ?_⟩
        intro read member
        rw [mem_singleton.mp member]
        exact left.1
      · rw [if_neg left]
        by_cases right : leftchild node + 1 < nodesPerPage ∧ minvalue ≤ nodes (leftchild node + 1)
        · obtain ⟨down, isDown, descended⟩ := ih (leftchild node + 1) (by lia) right.1 right.2
          rw [if_pos right, isDown]
          exact ⟨_, rfl, Descended.prepend nodes minvalue down descended _ (existingChildren_lt node)⟩
        · rw [if_neg right]
          refine ⟨_, rfl, existingChildren_lt node, (fun _ absent => by cases absent),
            (fun _ absent => by cases absent), fun tree positive => ?_⟩
          exact absurd (RightFrom.child tree positive (by omega) enough) (not_or.mpr ⟨left, right⟩)

theorem fsmRebuildNodes_leaf {count : Nat} (nodes : Nat → Nat) {leaf : Nat}
    (behind : count ≤ leaf) :
    fsmRebuildNodes nodes count leaf = nodes leaf := by
  induction count generalizing nodes with
  | zero => rfl
  | succ count ih =>
    rw [fsmRebuildNodes, ih _ (by omega), Function.update_of_ne (by omega)]

theorem fsmRebuildPage_avail (slot : Nat) :
    fsmGetAvail (fsmRebuildPage page) slot = fsmGetAvail page slot := by
  rw [fsmGetAvail, fsmGetAvail, fsmRebuildPage]
  -- The number of nodes is kept as a variable, so that the recursion is not unfolded.
  generalize size : nonLeafNodesPerPage = count
  exact fsmRebuildNodes_leaf page.nodes (Nat.le_add_right _ _)

/-- What holds of every search, whatever the nodes of the page are. -/
structure SearchSound (minvalue : Nat) (page : FSMPage) (run : SearchRun) : Prop where
  reads : ∀ read ∈ run.reads, read < nodesPerPage
  enough : ∀ slot, run.slot = some slot → slot < slotsPerFSMPage ∧ minvalue ≤ fsmGetAvail page slot
  slots : ∀ slot, fsmGetAvail run.page slot = fsmGetAvail page slot

variable {minvalue page}

theorem fsmSearchRun_low (low : page.nodes 0 < minvalue) :
    fsmSearchRun minvalue advancenext (attempts + 1) page = some ⟨none, page, 0, [0]⟩ ∧
      SearchSound minvalue page ⟨none, page, 0, [0]⟩ := by
  refine ⟨by rw [fsmSearchRun, if_pos low], ?_, nofun, fun _ => rfl⟩
  intro read member
  rw [mem_singleton.mp member]
  decide

/-- An attempt ends the search, or the page is rebuilt. -/
theorem fsmSearchRun_attempt (enough : minvalue ≤ page.nodes 0) :
    (∃ run, (∀ attempts, fsmSearchRun minvalue advancenext (attempts + 1) page = some run) ∧
        SearchSound minvalue page run ∧ run.rebuilds = 0 ∧ run.page.nodes = page.nodes ∧
        run.slot ≠ none) ∨
      (¬(page.Right ∧ 0 < minvalue) ∧ ∃ reads : List Nat, (∀ read ∈ reads, read < nodesPerPage) ∧
        ∀ attempts, fsmSearchRun minvalue advancenext (attempts + 1) page =
          (fsmSearchRun minvalue advancenext attempts (fsmRebuildPage page)).map fun later =>
            { later with rebuilds := later.rebuilds + 1, reads := reads ++ later.reads }) := by
  have high : ¬page.nodes 0 < minvalue := Nat.not_lt.mpr enough
  have target := searchTarget_lt page
  obtain ⟨up, isUp, inside, reached, upReads⟩ := climbRun_spec page.nodes minvalue enough nodesPerPage
    (searchTarget page) target target
  obtain ⟨down, isDown, descended⟩ := descendRun_spec page.nodes minvalue nodesPerPage up.1
    (Nat.le_add_left _ _) inside reached
  have reads : ∀ read ∈ 0 :: up.2 ++ down.2, read < nodesPerPage := by
    intro read member
    rw [cons_append, mem_cons, mem_append] at member
    rcases member with root | climbed | went
    · rw [root]
      decide
    · exact upReads read climbed
    · exact descended.reads read went
  cases found : down.1 with
  | some leaf =>
    have atLeaf := descended.leaf leaf found
    refine .inl ⟨⟨some (leaf - nonLeafNodesPerPage), { page with
      nextSlot := (leaf - nonLeafNodesPerPage : Nat) + if advancenext then 1 else 0 }, 0,
      0 :: up.2 ++ down.2⟩, ?_, ⟨reads, ?_, fun _ => rfl⟩, rfl, rfl, nofun⟩
    · intro attempts
      rw [fsmSearchRun, if_neg high, isUp, Option.bind_some, isDown, Option.bind_some, found]
    · intro slot isSlot
      obtain rfl := Option.some_inj.mp isSlot
      constructor
      · simp only [nonLeafNodesPerPage, nodesPerPage, slotsPerFSMPage] at atLeaf ⊢
        omega
      · rw [fsmGetAvail, Nat.add_sub_cancel' atLeaf.1]
        exact descended.enough leaf found
  | none =>
    refine .inr ⟨fun both => descended.found both.1 both.2 found, 0 :: up.2 ++ down.2, reads, ?_⟩
    intro attempts
    rw [fsmSearchRun, if_neg high, isUp, Option.bind_some, isDown, Option.bind_some, found]

/-- On a right page the first attempt ends the search. -/
theorem fsmSearchRun_right (right : page.Right) (positive : 0 < minvalue) :
    ∃ run, (∀ attempts, fsmSearchRun minvalue advancenext (attempts + 1) page = some run) ∧
      SearchSound minvalue page run ∧ run.rebuilds = 0 ∧ run.page.nodes = page.nodes ∧
      (run.slot = none ↔ ∀ slot < slotsPerFSMPage, fsmGetAvail page slot < minvalue) := by
  have root := right.max_le_iff
  by_cases low : page.nodes 0 < minvalue
  · refine ⟨⟨none, page, 0, [0]⟩, fun attempts => (fsmSearchRun_low advancenext attempts
      low).1, (fsmSearchRun_low advancenext 0 low).2, rfl, rfl, ?_⟩
    apply iff_of_true rfl
    intro slot bound
    exact Nat.lt_of_le_of_lt ((root (page.nodes 0)).mp (Nat.le_refl _) slot bound) low
  · rcases fsmSearchRun_attempt advancenext (Nat.not_lt.mp low) with
      ⟨run, ends, sound, rebuilds, nodes, found⟩ | ⟨torn, -⟩
    · refine ⟨run, ends, sound, rebuilds, nodes, iff_of_false found fun none => ?_⟩
      obtain ⟨slot, isSlot⟩ := Option.ne_none_iff_exists'.mp found
      obtain ⟨bound, enough⟩ := sound.enough slot isSlot
      exact absurd (none slot bound) (Nat.not_lt.mpr enough)
    · exact absurd ⟨right, positive⟩ torn

variable (minvalue page)

/-- On a torn page the second attempt does. -/
theorem fsmSearchRun_torn (positive : 0 < minvalue) :
    ∃ run, (∀ attempts, fsmSearchRun minvalue advancenext (attempts + 2) page = some run) ∧
      SearchSound minvalue page run ∧ run.rebuilds ≤ 1 := by
  by_cases low : page.nodes 0 < minvalue
  · exact ⟨_, fun attempts => (fsmSearchRun_low advancenext (attempts + 1) low).1,
      (fsmSearchRun_low advancenext 0 low).2, Nat.zero_le _⟩
  · rcases fsmSearchRun_attempt advancenext (Nat.not_lt.mp low) with
      ⟨run, ends, sound, rebuilds, -, -⟩ | ⟨-, reads, inside, again⟩
    · exact ⟨run, fun attempts => ends (attempts + 1), sound, by omega⟩
    · obtain ⟨run, ends, sound, rebuilds, -, -⟩ := fsmSearchRun_right advancenext
        (fsmRebuildPage_right page) positive
      refine ⟨{ run with rebuilds := run.rebuilds + 1, reads := reads ++ run.reads }, ?_,
        ⟨?_, ?_, ?_⟩, ?_⟩
      · intro attempts
        rw [again (attempts + 1), ends attempts]
        rfl
      · intro read member
        rcases mem_append.mp member with early | late
        · exact inside read early
        · exact sound.reads read late
      · intro slot found
        rw [← fsmRebuildPage_avail page slot]
        exact sound.enough slot found
      · intro slot
        rw [← fsmRebuildPage_avail page slot]
        exact sound.slots slot
      · show run.rebuilds + 1 ≤ 1
        omega

/-- Truncation clears the slots behind and keeps the page right. -/
theorem fsmTruncateAvail_right {nslots : Nat} (right : page.Right)
    (bound : nslots < slotsPerFSMPage) : (fsmTruncateAvail page nslots).2.Right ∧
      ∀ slot < slotsPerFSMPage, fsmGetAvail (fsmTruncateAvail page nslots).2 slot =
        if nslots ≤ slot then 0 else fsmGetAvail page slot := by
  have cleared : ∀ slot < slotsPerFSMPage,
      clearLeaves page.nodes nslots (nonLeafNodesPerPage + slot) =
        if nslots ≤ slot then 0 else fsmGetAvail page slot := by
    intro slot inside
    refine if_congr ?_ rfl rfl
    simp only [nonLeafNodesPerPage, nodesPerPage, slotsPerFSMPage] at inside ⊢
    lia
  rw [fsmTruncateAvail]
  by_cases changed : anyLeaf page.nodes nslots = true
  · rw [if_pos changed]
    refine ⟨fsmRebuildPage_right _, fun slot inside => ?_⟩
    rw [fsmRebuildPage_avail]
    exact cleared slot inside
  · rw [if_neg changed]
    have same : clearLeaves page.nodes nslots = page.nodes := by
      funext node
      rw [clearLeaves]
      by_cases leaf : nonLeafNodesPerPage + nslots ≤ node ∧ node < nodesPerPage
      · rw [if_pos leaf]
        by_contra value
        apply changed
        rw [anyLeaf, any_eq_true]
        refine ⟨node, ?_, decide_eq_true fun zero => value zero.symm⟩
        rw [mem_range'_1]
        simp only [nonLeafNodesPerPage, nodesPerPage, slotsPerFSMPage] at leaf bound ⊢
        omega
      · rw [if_neg leaf]
    refine ⟨?_, fun slot inside => cleared slot inside⟩
    rw [same]
    exact right

/-- The traced climb is the climb. -/
theorem climb_of_run (minvalue rounds node : Nat) (up : Nat × List Nat)
    (ends : climbRun nodes minvalue rounds node = some up) :
    climb nodes minvalue rounds node = up.1 := by
  induction rounds generalizing node up with
  | zero => exact absurd ends (by nofun)
  | succ rounds ih =>
    rw [climbRun] at ends
    rw [climb]
    by_cases root : node = 0
    · rw [if_pos root] at ends ⊢
      exact congrArg Prod.fst (Option.some_inj.mp ends)
    · rw [if_neg root] at ends ⊢
      by_cases here : minvalue ≤ nodes node
      · rw [if_pos here] at ends ⊢
        exact congrArg Prod.fst (Option.some_inj.mp ends)
      · rw [if_neg here] at ends ⊢
        obtain ⟨above, isAbove, rfl⟩ := Option.map_eq_some_iff.mp ends
        exact ih _ above isAbove

/-- The traced descent is the descent. -/
theorem descend_of_run (minvalue rounds node : Nat) (down : Option Nat × List Nat)
    (ends : descendRun nodes minvalue rounds node = some down) :
    descend nodes minvalue rounds node = down.1 := by
  induction rounds generalizing node down with
  | zero => exact absurd ends (by nofun)
  | succ rounds ih =>
    rw [descendRun] at ends
    rw [descend]
    by_cases leaf : nonLeafNodesPerPage ≤ node
    · rw [if_pos leaf] at ends ⊢
      exact congrArg Prod.fst (Option.some_inj.mp ends)
    · rw [if_neg leaf] at ends ⊢
      by_cases left : leftchild node < nodesPerPage ∧ minvalue ≤ nodes (leftchild node)
      · rw [if_pos left] at ends ⊢
        obtain ⟨below, isBelow, rfl⟩ := Option.map_eq_some_iff.mp ends
        exact ih _ below isBelow
      · rw [if_neg left] at ends ⊢
        by_cases right : leftchild node + 1 < nodesPerPage ∧ minvalue ≤ nodes (leftchild node + 1)
        · rw [if_pos right] at ends ⊢
          obtain ⟨below, isBelow, rfl⟩ := Option.map_eq_some_iff.mp ends
          exact ih _ below isBelow
        · rw [if_neg right] at ends ⊢
          exact congrArg Prod.fst (Option.some_inj.mp ends)

/-- The traced search is the search. -/
theorem searchAttempts_of_run
    (run : SearchRun) (ends : fsmSearchRun minvalue advancenext attempts page = some run) :
    searchAttempts minvalue advancenext attempts page = (run.slot, run.page) := by
  induction attempts generalizing page run with
  | zero => exact absurd ends (by nofun)
  | succ attempts ih =>
    rw [fsmSearchRun] at ends
    rw [searchAttempts]
    by_cases low : page.nodes 0 < minvalue
    · rw [if_pos low] at ends ⊢
      rw [← Option.some_inj.mp ends]
    · rw [if_neg low] at ends ⊢
      obtain ⟨up, isUp, went⟩ := Option.bind_eq_some_iff.mp ends
      obtain ⟨down, isDown, rest⟩ := Option.bind_eq_some_iff.mp went
      rw [climb_of_run _ _ _ _ up isUp, descend_of_run _ _ _ _ down isDown]
      cases found : down.1 with
      | some leaf =>
        rw [found] at rest
        rw [← Option.some_inj.mp rest]
      | none =>
        rw [found] at rest
        obtain ⟨later, isLater, rfl⟩ := Option.map_eq_some_iff.mp rest
        exact ih _ later isLater

/-- On a page whose inner nodes have the larger value of their children, and from any start, a search
for a value ends at once with a slot that has enough if there is one, and leaves the nodes. Setting a
slot and clearing the last slots keep the inner nodes right and change these slots only. On a page
with any values a search ends after working it out at most once, and a slot it finds has enough. No
search reads behind the last node. -/
theorem fsm_page_search_is_right (page : FSMPage) (minvalue : Nat) (advancenext : Bool)
    (positive : 1 ≤ minvalue) : (page.Right →
      (∃ run, (∀ attempts, fsmSearchRun minvalue advancenext (attempts + 1) page = some run) ∧
        run.rebuilds = 0 ∧ run.page.nodes = page.nodes ∧ (∀ read ∈ run.reads, read < nodesPerPage) ∧
        (∀ slot, run.slot = some slot → slot < slotsPerFSMPage ∧ minvalue ≤ fsmGetAvail page slot) ∧
        (run.slot = none ↔ ∀ slot < slotsPerFSMPage, fsmGetAvail page slot < minvalue)) ∧
      (∀ slot < slotsPerFSMPage, ∀ value, (fsmSetAvail page slot value).Right ∧
        ∀ other, fsmGetAvail (fsmSetAvail page slot value) other =
          if other = slot then value else fsmGetAvail page other) ∧
      ∀ nslots < slotsPerFSMPage, (fsmTruncateAvail page nslots).2.Right ∧
        ∀ slot < slotsPerFSMPage, fsmGetAvail (fsmTruncateAvail page nslots).2 slot =
          if nslots ≤ slot then 0 else fsmGetAvail page slot) ∧
    ∃ run, (∀ attempts, fsmSearchRun minvalue advancenext (attempts + 2) page = some run) ∧
      fsmSearchAvail page minvalue advancenext = (run.slot, run.page) ∧
      run.rebuilds ≤ 1 ∧ (∀ read ∈ run.reads, read < nodesPerPage) ∧
      (∀ slot, fsmGetAvail run.page slot = fsmGetAvail page slot) ∧ ∀ slot, run.slot = some slot →
        slot < slotsPerFSMPage ∧ minvalue ≤ fsmGetAvail page slot := by
  constructor
  · intro right
    obtain ⟨run, ends, sound, rebuilds, nodes, none⟩ := fsmSearchRun_right advancenext
      right positive
    refine ⟨⟨run, ends, rebuilds, nodes, sound.reads, sound.enough, none⟩, ?_, ?_⟩
    · intro slot bound value
      exact fsmSetAvail_right value right bound
    · intro nslots bound
      exact fsmTruncateAvail_right page right bound
  · obtain ⟨run, ends, sound, rebuilds⟩ := fsmSearchRun_torn minvalue advancenext page positive
    exact ⟨run, ends, searchAttempts_of_run minvalue advancenext 2 page run (ends 0), rebuilds,
      sound.reads, sound.slots, sound.enough⟩

/-- On a fresh page with a value in its last slot a search finds a slot with this value. -/
theorem fsm_page_search_is_right_last :
    let page := fsmSetAvail freshPage 4068 9
    page.Right ∧ ∃ run, fsmSearchRun 7 true 1 page = some run ∧ run.slot ≠ none ∧
      ∀ slot, run.slot = some slot → 7 ≤ fsmGetAvail page slot := by
  intro page
  obtain ⟨fresh, -⟩ := fsm_page_search_is_right freshPage 7 true (by decide)
  obtain ⟨-, sets, -⟩ := fresh freshPage_right
  obtain ⟨right, values⟩ := sets 4068 (by decide) 9
  obtain ⟨search, -⟩ := fsm_page_search_is_right page 7 true (by decide)
  obtain ⟨⟨run, ends, -, -, -, enough, none⟩, -⟩ := search right
  refine ⟨right, run, ends 0, ?_, fun slot found => (enough slot found).2⟩
  intro missing
  have low := none.mp missing 4068 (by decide)
  have value := values 4068
  rw [value] at low
  exact absurd low (by decide)

/-- What is done with a page. -/
inductive PageOperation where
  | setAvail (slot value : Nat)
  | truncateAvail (nslots : Nat)
  | searchAvail (minvalue : Nat) (advancenext : Bool)

/-- The slots are on the page, and a search is for some space. -/
def PageOperation.Inside : PageOperation → Prop
  | .setAvail slot _ => slot < slotsPerFSMPage
  | .truncateAvail nslots => nslots < slotsPerFSMPage
  | .searchAvail minvalue _ => 1 ≤ minvalue

/-- The page after an operation. -/
def pageStep (page : FSMPage) : PageOperation → FSMPage
  | .setAvail slot value => fsmSetAvail page slot value
  | .truncateAvail nslots => (fsmTruncateAvail page nslots).2
  | .searchAvail minvalue advancenext => (fsmSearchAvail page minvalue advancenext).2

/-- The operation on a plain table of the values of the slots. -/
def tableStep (table : Nat → Nat) : PageOperation → Nat → Nat
  | .setAvail slot value => Function.update table slot value
  | .truncateAvail nslots => fun slot => if nslots ≤ slot then 0 else table slot
  | .searchAvail _ _ => table

/-- A page whose inner nodes are right, with the slots of a table. -/
def FSMPage.Refines (page : FSMPage) (table : Nat → Nat) : Prop :=
  page.Right ∧ ∀ slot < slotsPerFSMPage, fsmGetAvail page slot = table slot

/-- A search answers as in the table. -/
theorem FSMPage.Refines.search {table : Nat → Nat} (refines : page.Refines table)
    (positive : 1 ≤ minvalue) :
    (fsmSearchAvail page minvalue advancenext).2.Refines table ∧
      ((fsmSearchAvail page minvalue advancenext).1 = none ↔
        ∀ slot < slotsPerFSMPage, table slot < minvalue) ∧
      ∀ slot, (fsmSearchAvail page minvalue advancenext).1 = some slot →
        slot < slotsPerFSMPage ∧ minvalue ≤ table slot := by
  obtain ⟨right, slots⟩ := refines
  obtain ⟨run, ends, sound, -, nodes, none⟩ := fsmSearchRun_right advancenext right positive
  rw [show fsmSearchAvail page minvalue advancenext = (run.slot, run.page) from
    searchAttempts_of_run minvalue advancenext 2 page run (ends 1)]
  refine ⟨⟨?_, fun slot bound => (sound.slots slot).trans (slots slot bound)⟩, ?_, ?_⟩
  · rw [FSMPage.Right, nodes]
    exact right
  · rw [none]
    exact forall₂_congr fun slot bound => by rw [slots slot bound]
  · intro slot found
    obtain ⟨bound, enough⟩ := sound.enough slot found
    exact ⟨bound, slots slot bound ▸ enough⟩

theorem FSMPage.Refines.step {table : Nat → Nat} (refines : page.Refines table)
    {operation : PageOperation} (inside : operation.Inside) :
    (pageStep page operation).Refines (tableStep table operation) := by
  cases operation with
  | setAvail slot value =>
    obtain ⟨right, values⟩ := fsmSetAvail_right value refines.1 inside
    refine ⟨right, fun other bound => ?_⟩
    rw [pageStep, values other, tableStep, Function.update_apply, refines.2 other bound]
  | truncateAvail nslots =>
    obtain ⟨right, values⟩ := fsmTruncateAvail_right page refines.1 inside
    refine ⟨right, fun other bound => ?_⟩
    rw [pageStep, values other bound, tableStep, refines.2 other bound]
  | searchAvail minvalue advancenext =>
    exact (refines.search minvalue advancenext page inside).1

/-- After every run of operations on a fresh page the slots have the values of the plain table, and a
search finds a slot with enough exactly if the table has one. -/
theorem page_runs_refine_table (operations : List PageOperation)
    (inside : ∀ operation ∈ operations, operation.Inside) (minvalue : Nat) (advancenext : Bool)
    (positive : 1 ≤ minvalue) :
    let page := operations.foldl pageStep freshPage
    let table := operations.foldl tableStep fun _ => 0
    (∀ slot < slotsPerFSMPage, fsmGetAvail page slot = table slot) ∧
      ((fsmSearchAvail page minvalue advancenext).1 = none ↔
        ∀ slot < slotsPerFSMPage, table slot < minvalue) ∧
      ∀ slot, (fsmSearchAvail page minvalue advancenext).1 = some slot →
        slot < slotsPerFSMPage ∧ minvalue ≤ table slot := by
  intro page table
  have run : ∀ (before : FSMPage) (start : Nat → Nat), before.Refines start →
      (operations.foldl pageStep before).Refines (operations.foldl tableStep start) := by
    induction operations with
    | nil => exact fun _ _ refines => refines
    | cons operation rest ih =>
      intro before start refines
      exact ih (fun other member => inside other (mem_cons_of_mem _ member)) _ _
        (refines.step before (inside operation mem_cons_self))
  have refines := run freshPage (fun _ => 0) ⟨freshPage_right, fun _ _ => rfl⟩
  exact ⟨refines.2, (refines.search minvalue advancenext page positive).2⟩

/-- A value in the last slot that is truncated away is not found again. -/
theorem page_runs_refine_table_truncated :
    let page := [.setAvail 4068 9, .truncateAvail 100, .setAvail 7 5].foldl pageStep freshPage
    (fsmSearchAvail page 6 true).1 = none ∧ fsmGetAvail page 7 = 5 := by
  intro page
  obtain ⟨values, none, -⟩ := page_runs_refine_table
    [.setAvail 4068 9, .truncateAvail 100, .setAvail 7 5]
    (by simp [PageOperation.Inside, slotsPerFSMPage]) 6 true (by decide)
  refine ⟨none.mpr fun slot _ => ?_, values 7 (by decide)⟩
  simp only [foldl_cons, foldl_nil, tableStep, Function.update_apply]
  split_ifs <;> omega

end OpenGauss.Freespace
