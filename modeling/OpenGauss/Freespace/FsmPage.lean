import Mathlib.Order.Lattice.Nat
import Mathlib.Logic.Function.Basic

/-!
# One page of the free space map

A page of the free space map is a binary tree in an array. The leaves are the slots of the page and
an inner node has the larger value of its children, so that the root has the largest value of all
slots. Setting a slot walks up to the root, as far as values change; searching starts at a remembered
slot, climbs to the right until a node has enough, and goes down again. The module proves that a
page whose inner nodes are right stays so, and that the search on it finds a slot whenever the root
says that there is one.
-/

namespace OpenGauss.Freespace

open Function

/-- The nodes of a page (`NodesPerPage`). -/
def nodesPerPage : Nat := 8164

/-- The inner nodes of a page (`NonLeafNodesPerPage`). -/
def nonLeafNodesPerPage : Nat := 4095

/-- The slots of a page (`SlotsPerFSMPage`). -/
def slotsPerFSMPage : Nat := 4069

/-- A page of the map. -/
structure FSMPage where
  /-- The slot where the next search starts (`fp_next_slot`). -/
  nextSlot : Int
  /-- The values of the nodes (`fp_nodes`). -/
  nodes : Nat → Nat

/-- A fresh page has no space. -/
def freshPage : FSMPage where
  nextSlot := 0
  nodes := fun _ => 0

/-- The node left below a node. -/
def leftchild (node : Nat) : Nat := 2 * node + 1

/-- The node above a node. -/
def parentof (node : Nat) : Nat := (node - 1) / 2

/-- The node to the right on the same level, or the first of the level behind the last. -/
def rightneighbor (node : Nat) : Nat :=
  if (node + 2) &&& (node + 1) = 0 then parentof (node + 1) else node + 1

/-- The value of a node, or 0 behind the last. -/
def nodeValue (nodes : Nat → Nat) (node : Nat) : Nat :=
  if node < nodesPerPage then nodes node else 0

/-- The larger value of the children of a node. -/
def childrenValue (nodes : Nat → Nat) (node : Nat) : Nat :=
  max (nodeValue nodes (leftchild node)) (nodeValue nodes (leftchild node + 1))

/-- Work out the inner nodes again, from the last to the first. -/
def fsmRebuildNodes (nodes : Nat → Nat) : Nat → Nat → Nat
  | 0 => nodes
  | node + 1 => fsmRebuildNodes (update nodes node (childrenValue nodes node)) node

/-- Work out the inner nodes of a page again. -/
def fsmRebuildPage (page : FSMPage) : FSMPage :=
  { page with nodes := fsmRebuildNodes page.nodes nonLeafNodesPerPage }

/-- Walk from a changed node up to the root, or to a node that does not change. -/
def propagate (nodes : Nat → Nat) (node : Nat) : Nat → Nat :=
  if node = 0 then nodes
  else
    let parent := parentof node
    let newvalue := childrenValue nodes parent
    if nodes parent = newvalue then nodes
    else propagate (update nodes parent newvalue) parent
  termination_by node
  decreasing_by simp only [parentof]; lia

/-- The value of a slot. -/
def fsmGetAvail (page : FSMPage) (slot : Nat) : Nat := page.nodes (nonLeafNodesPerPage + slot)

/-- The value of the root. -/
def fsmGetMaxAvail (page : FSMPage) : Nat := page.nodes 0

/-- Set the value of a slot. -/
def fsmSetAvail (page : FSMPage) (slot value : Nat) : FSMPage :=
  let node := nonLeafNodesPerPage + slot
  if page.nodes node = value ∧ value ≤ page.nodes 0 then page
  else
    let changed : FSMPage :=
      { page with nodes := propagate (update page.nodes node value) node }
    if changed.nodes 0 < value then fsmRebuildPage changed else changed

/-- Climb to the right until a node has enough. -/
def climb (nodes : Nat → Nat) (minvalue : Nat) : Nat → Nat → Nat
  | 0, node => node
  | rounds + 1, node =>
    if node = 0 then node
    else if minvalue ≤ nodes node then node
    else climb nodes minvalue rounds (parentof (rightneighbor node))

/-- Go down to a leaf along nodes that have enough; no result if a node promised too much. -/
def descend (nodes : Nat → Nat) (minvalue : Nat) : Nat → Nat → Option Nat
  | 0, _ => none
  | rounds + 1, node =>
    if nonLeafNodesPerPage ≤ node then some node
    else
      let left := leftchild node
      if left < nodesPerPage ∧ minvalue ≤ nodes left then descend nodes minvalue rounds left
      else if left + 1 < nodesPerPage ∧ minvalue ≤ nodes (left + 1) then
        descend nodes minvalue rounds (left + 1)
      else none

/-- The leaf where a search starts. -/
def searchTarget (page : FSMPage) : Nat :=
  nonLeafNodesPerPage +
    if page.nextSlot < 0 ∨ (slotsPerFSMPage : Int) ≤ page.nextSlot then 0 else page.nextSlot.toNat

/-- Search for a slot, for at most some attempts. A page with a node that promised too much is
worked out again before the next attempt. -/
def searchAttempts (minvalue : Nat) (advancenext : Bool) : Nat → FSMPage → Option Nat × FSMPage
  | 0, page => (none, page)
  | attempts + 1, page =>
    if page.nodes 0 < minvalue then (none, page)
    else
      match descend page.nodes minvalue nodesPerPage
          (climb page.nodes minvalue nodesPerPage (searchTarget page)) with
      | some leaf =>
        let slot := leaf - nonLeafNodesPerPage
        (some slot, { page with nextSlot := slot + if advancenext then 1 else 0 })
      | none => searchAttempts minvalue advancenext attempts (fsmRebuildPage page)

/-- Search for a slot with at least a value. The second attempt is the last, since the page is right
then. -/
def fsmSearchAvail (page : FSMPage) (minvalue : Nat) (advancenext : Bool) :
    Option Nat × FSMPage :=
  searchAttempts minvalue advancenext 2 page

/-- The inner nodes from one on have the larger value of their children. -/
def RightFrom (nodes : Nat → Nat) (start : Nat) : Prop :=
  ∀ node, start ≤ node → node < nonLeafNodesPerPage → nodes node = childrenValue nodes node

/-- All inner nodes of a page have the larger value of their children. -/
def FSMPage.Right (page : FSMPage) : Prop := RightFrom page.nodes 0

variable (node : Nat) (nodes : Nat → Nat) (page : FSMPage)

theorem childrenValue_update (changed value node : Nat)
    (left : changed ≠ leftchild node) (right : changed ≠ leftchild node + 1) :
    childrenValue (update nodes changed value) node = childrenValue nodes node := by
  have other : ∀ child, changed ≠ child →
      nodeValue (update nodes changed value) child = nodeValue nodes child := by
    intro child different
    rw [nodeValue, nodeValue, update_of_ne different.symm]
  rw [childrenValue, childrenValue, other _ left, other _ right]

theorem parentof_eq_iff (node parent : Nat) (positive : 0 < node) :
    parentof node = parent ↔ node = leftchild parent ∨ node = leftchild parent + 1 := by
  simp only [parentof, leftchild]
  lia

/-- Rebuilding makes the page right. -/
theorem fsmRebuildNodes_right (bound : node ≤ nonLeafNodesPerPage)
    (right : RightFrom nodes node) : RightFrom (fsmRebuildNodes nodes node) 0 := by
  induction node generalizing nodes with
  | zero => exact right
  | succ node ih =>
    apply ih _ (by omega)
    intro other low high
    have kept : childrenValue (update nodes node (childrenValue nodes node)) other =
        childrenValue nodes other := by
      apply childrenValue_update
      · simp only [leftchild]
        omega
      · simp only [leftchild]
        omega
    rw [kept]
    by_cases same : other = node
    · rw [same, update_self]
    · rw [update_of_ne same]
      exact right other (by omega) high

theorem fsmRebuildPage_right : (fsmRebuildPage page).Right := by
  rw [fsmRebuildPage]
  -- The number of nodes is kept as a variable, so that the recursion is not unfolded.
  generalize size : nonLeafNodesPerPage = count
  apply fsmRebuildNodes_right count page.nodes size.ge
  intro node low high
  omega

theorem freshPage_right : freshPage.Right := by
  intro node _ _
  simp only [freshPage, childrenValue, nodeValue, ite_self, max_self]

/-- Propagation makes the page right again. -/
theorem propagate_right (node : Nat) (bound : node < nodesPerPage)
    (right : ∀ other, other < nonLeafNodesPerPage → (0 < node → other ≠ parentof node) →
      nodes other = childrenValue nodes other) : RightFrom (propagate nodes node) 0 := by
  induction node using Nat.strong_induction_on generalizing nodes with
  | _ node ih =>
    rw [propagate]
    by_cases root : node = 0
    · rw [if_pos root]
      intro other _ high
      exact right other high fun positive => absurd root positive.ne'
    · rw [if_neg root]
      have above : parentof node < node := by
        simp only [parentof]
        lia
      by_cases same : nodes (parentof node) = childrenValue nodes (parentof node)
      · simp only [same]
        intro other _ high
        by_cases changed : other = parentof node
        · rw [changed]
          exact same
        · exact right other high fun _ => changed
      · simp only [same]
        apply ih (parentof node) above _ (by omega)
        intro other high different
        by_cases changed : other = parentof node
        · rw [changed, update_self, childrenValue_update]
          · simp only [leftchild]
            omega
          · simp only [leftchild]
            omega
        · rw [update_of_ne changed, childrenValue_update]
          · exact right other high fun _ => changed
          · intro child
            have positive : 0 < parentof node := by
              rw [child]
              simp only [leftchild]
              omega
            exact different positive
              ((parentof_eq_iff (parentof node) other positive).mpr (.inl child)).symm
          · intro child
            have positive : 0 < parentof node := by omega
            exact different positive
              ((parentof_eq_iff (parentof node) other positive).mpr (.inr child)).symm

/-- Propagation changes no leaf. -/
theorem propagate_leaf (node leaf : Nat) (bound : node < nodesPerPage)
    (below : nonLeafNodesPerPage ≤ leaf) : propagate nodes node leaf = nodes leaf := by
  induction node using Nat.strong_induction_on generalizing nodes with
  | _ node ih =>
    rw [propagate]
    by_cases root : node = 0
    · rw [if_pos root]
    · rw [if_neg root]
      have above : parentof node < node ∧ parentof node < nonLeafNodesPerPage := by
        simp only [parentof, nodesPerPage, nonLeafNodesPerPage] at bound ⊢
        omega
      by_cases same : nodes (parentof node) = childrenValue nodes (parentof node)
      · simp only [same, ↓reduceIte]
      · simp only [same, ↓reduceIte]
        rw [ih (parentof node) above.1 _ (by omega), update_of_ne (by omega)]

variable {page}

/-- No node is above the root. -/
theorem FSMPage.Right.le_root (right : page.Right) {node : Nat}
    (bound : node < nodesPerPage) : page.nodes node ≤ page.nodes 0 := by
  induction node using Nat.strong_induction_on with
  | _ node ih =>
    by_cases root : node = 0
    · rw [root]
    · have above : parentof node < node ∧ parentof node < nonLeafNodesPerPage := by
        simp only [parentof, nodesPerPage, nonLeafNodesPerPage] at bound ⊢
        omega
      have parent := ih (parentof node) above.1 (by omega)
      rw [right (parentof node) (Nat.zero_le _) above.2] at parent
      have value : page.nodes node = nodeValue page.nodes node := by
        rw [nodeValue, if_pos bound]
      have child := (parentof_eq_iff node (parentof node) (by omega)).mp rfl
      apply le_trans _ parent
      rw [value, childrenValue]
      obtain left | right' := child
      · rw [← left]
        exact le_max_left _ _
      · rw [← right']
        exact le_max_right _ _

/-- The root is the largest slot. -/
theorem FSMPage.Right.max_le_iff (right : page.Right) (value : Nat) :
    fsmGetMaxAvail page ≤ value ↔ ∀ slot < slotsPerFSMPage, fsmGetAvail page slot ≤ value := by
  constructor
  · intro most slot bound
    apply le_trans _ most
    apply right.le_root
    simp only [nonLeafNodesPerPage, nodesPerPage, slotsPerFSMPage] at bound ⊢
    omega
  · intro each
    -- From the last node down to the root, every node is bounded by the slots below it.
    have below : ∀ distance node, nodesPerPage ≤ node + distance →
        nodeValue page.nodes node ≤ value := by
      intro distance
      induction distance with
      | zero =>
        intro node behind
        rw [nodeValue, if_neg (by omega)]
        exact Nat.zero_le _
      | succ distance ih =>
        intro node behind
        by_cases inner : node < nonLeafNodesPerPage
        · have inside : node < nodesPerPage := by
            simp only [nonLeafNodesPerPage, nodesPerPage] at inner ⊢
            omega
          rw [nodeValue, if_pos inside, right node (Nat.zero_le _) inner]
          apply max_le
          · apply ih
            simp only [leftchild]
            lia
          · apply ih
            simp only [leftchild]
            lia
        · rw [nodeValue]
          by_cases inside : node < nodesPerPage
          · rw [if_pos inside]
            have bound : node - nonLeafNodesPerPage < slotsPerFSMPage := by
              simp only [nonLeafNodesPerPage, nodesPerPage, slotsPerFSMPage] at inner inside ⊢
              omega
            have slot := each (node - nonLeafNodesPerPage) bound
            rw [fsmGetAvail, Nat.add_sub_cancel' (by omega)] at slot
            exact slot
          · rw [if_neg inside]
            exact Nat.zero_le _
    have root := below nodesPerPage 0 (by omega)
    exact root

/-- Setting a slot keeps the page right. -/
theorem fsmSetAvail_right {slot : Nat} (value : Nat) (right : page.Right)
    (bound : slot < slotsPerFSMPage) :
    (fsmSetAvail page slot value).Right ∧ ∀ other, fsmGetAvail (fsmSetAvail page slot value) other =
        if other = slot then value else fsmGetAvail page other := by
  have inside : nonLeafNodesPerPage + slot < nodesPerPage := by
    simp only [nonLeafNodesPerPage, nodesPerPage, slotsPerFSMPage] at bound ⊢
    omega
  simp only [fsmSetAvail]
  by_cases same : page.nodes (nonLeafNodesPerPage + slot) = value ∧ value ≤ page.nodes 0
  · rw [if_pos same]
    refine ⟨right, ?_⟩
    intro other
    by_cases here : other = slot
    · rw [if_pos here, here]
      exact same.1
    · rw [if_neg here]
  · rw [if_neg same]
    have changed : (⟨page.nextSlot, propagate (update page.nodes (nonLeafNodesPerPage + slot)
        value) (nonLeafNodesPerPage + slot)⟩ : FSMPage).Right := by
      apply propagate_right _ _ inside
      intro other high different
      rw [update_of_ne (by omega), childrenValue_update]
      · exact right other (Nat.zero_le _) high
      · intro child
        exact different (by lia) ((parentof_eq_iff _ other (by lia)).mpr (.inl child)).symm
      · intro child
        exact different (by omega) ((parentof_eq_iff _ other (by omega)).mpr (.inr child)).symm
    have leaf : ∀ other, propagate (update page.nodes (nonLeafNodesPerPage + slot) value)
        (nonLeafNodesPerPage + slot) (nonLeafNodesPerPage + other) =
          if other = slot then value else page.nodes (nonLeafNodesPerPage + other) := by
      intro other
      rw [propagate_leaf _ _ _ inside (Nat.le_add_right _ _)]
      by_cases here : other = slot
      · rw [if_pos here, here, update_self]
      · rw [if_neg here, update_of_ne (by omega)]
    -- The tree is right, so the root is not below the new value and no node is worked out again.
    have low := changed.le_root inside
    dsimp only at low
    have atSlot := leaf slot
    rw [if_pos rfl] at atSlot
    rw [atSlot] at low
    rw [if_neg (Nat.not_lt.mpr low)]
    exact ⟨changed, leaf⟩

variable (page)

theorem FSMPage.Right.max_eq (right : page.Right) {value slot : Nat}
    (bound : slot < slotsPerFSMPage) (reached : fsmGetAvail page slot = value)
    (most : ∀ other < slotsPerFSMPage, fsmGetAvail page other ≤ value) :
    fsmGetMaxAvail page = value := by
  apply le_antisymm
  · exact (right.max_le_iff value).mpr most
  · rw [← reached]
    exact (right.max_le_iff (fsmGetMaxAvail page)).mp le_rfl slot bound

/-- The climb ends at a node that is large enough. -/
theorem climb_enough (minvalue : Nat) (enough : minvalue ≤ nodes 0)
    (rounds node : Nat) (room : node ≤ rounds) (bound : node < nodesPerPage) :
    climb nodes minvalue rounds node < nodesPerPage ∧
      minvalue ≤ nodes (climb nodes minvalue rounds node) := by
  induction rounds generalizing node with
  | zero =>
    have root : node = 0 := by omega
    rw [climb, root]
    exact ⟨by decide, enough⟩
  | succ rounds ih =>
    rw [climb]
    by_cases root : node = 0
    · rw [if_pos root, root]
      exact ⟨by decide, enough⟩
    · rw [if_neg root]
      by_cases here : minvalue ≤ nodes node
      · rw [if_pos here]
        exact ⟨bound, here⟩
      · rw [if_neg here]
        have above : parentof (rightneighbor node) < node := by
          simp only [rightneighbor, parentof]
          by_cases wraps : (node + 2) &&& (node + 1) = 0
          · lia
          · lia
        exact ih _ (by omega) (by omega)

/-- The descent ends at a slot that is large enough. -/
theorem descend_enough (right : page.Right) (minvalue : Nat)
    (positive : 0 < minvalue) (rounds node : Nat) (room : nodesPerPage ≤ node + rounds)
    (bound : node < nodesPerPage) (enough : minvalue ≤ page.nodes node) :
    ∃ slot < slotsPerFSMPage, descend page.nodes minvalue rounds node =
      some (nonLeafNodesPerPage + slot) ∧ minvalue ≤ fsmGetAvail page slot := by
  induction rounds generalizing node with
  | zero => omega
  | succ rounds ih =>
    rw [descend]
    by_cases leaf : nonLeafNodesPerPage ≤ node
    · rw [if_pos leaf]
      refine ⟨node - nonLeafNodesPerPage, ?_, ?_, ?_⟩
      · simp only [nonLeafNodesPerPage, nodesPerPage, slotsPerFSMPage] at leaf bound ⊢
        omega
      · rw [Nat.add_sub_cancel' leaf]
      · rw [fsmGetAvail, Nat.add_sub_cancel' leaf]
        exact enough
    · rw [if_neg leaf]
      by_cases left : leftchild node < nodesPerPage ∧ minvalue ≤ page.nodes (leftchild node)
      · rw [if_pos left]
        apply ih _ _ left.1 left.2
        simp only [leftchild]
        lia
      · rw [if_neg left]
        have promise := right node (Nat.zero_le _) (by omega)
        rw [promise, childrenValue, le_max_iff] at enough
        have atRight : leftchild node + 1 < nodesPerPage ∧
            minvalue ≤ page.nodes (leftchild node + 1) := by
          rw [nodeValue, nodeValue] at enough
          obtain here | there := enough
          · by_cases inside : leftchild node < nodesPerPage
            · rw [if_pos inside] at here
              exact absurd ⟨inside, here⟩ left
            · rw [if_neg inside] at here
              omega
          · by_cases inside : leftchild node + 1 < nodesPerPage
            · rw [if_pos inside] at there
              exact ⟨inside, there⟩
            · rw [if_neg inside] at there
              omega
        rw [if_pos atRight]
        apply ih _ _ atRight.1 atRight.2
        simp only [leftchild]
        lia

theorem searchTarget_lt : searchTarget page < nodesPerPage := by
  rw [searchTarget]
  by_cases outside : page.nextSlot < 0 ∨ (slotsPerFSMPage : Int) ≤ page.nextSlot
  · rw [if_pos outside]
    decide
  · rw [if_neg outside]
    simp only [nonLeafNodesPerPage, nodesPerPage, slotsPerFSMPage] at outside ⊢
    omega

theorem fsmSearchAvail_enough (right : page.Right) {minvalue : Nat}
    (advancenext : Bool) (positive : 0 < minvalue) (enough : minvalue ≤ fsmGetMaxAvail page) :
    ∃ slot < slotsPerFSMPage, minvalue ≤ fsmGetAvail page slot ∧
      ∃ next, fsmSearchAvail page minvalue advancenext =
        (some slot, { page with nextSlot := next }) := by
  obtain ⟨bound, reached⟩ := climb_enough page.nodes minvalue enough nodesPerPage
    (searchTarget page) (searchTarget_lt page).le (searchTarget_lt page)
  obtain ⟨slot, inside, down, here⟩ := descend_enough page right minvalue positive nodesPerPage _
    (Nat.le_add_left _ _) bound reached
  refine ⟨slot, inside, here, slot + if advancenext then 1 else 0, ?_⟩
  have root : ¬page.nodes 0 < minvalue := Nat.not_lt.mpr enough
  rw [fsmSearchAvail, searchAttempts, if_neg root, down]
  dsimp only
  rw [Nat.add_sub_cancel_left]

end OpenGauss.Freespace
