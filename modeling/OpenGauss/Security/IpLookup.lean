import OpenGauss.Security.IpRange

/-!
# Looking an address up

`IPRange::is_in_range` looks an address up in the sorted list of ranges by halving. The search keeps
the first and the last index of the ranges that are left and stops when the two are equal. When two
ranges are left and the address is before the first of them, the last index moves in front of the
first, and the search goes on for ever unless the first index is 0. The module says which ranges
are compared on the way to an index, and by that exactly when the search ends with the right
answer. The two addresses of the local host stand for each other.
-/

namespace OpenGauss.Security

open List

section Halving

variable (hit less : Nat → Bool)

/-- Search by halving, for at most some rounds. A probe of an index is a hit, or the goal is before
it, or behind it. -/
def search : Nat → Nat → Nat → Option Bool
  | 0, _, _ => none
  | rounds + 1, i, j =>
    if i = j then some (hit i)
    else
      let mid := (i + j) / 2
      if hit mid then some true
      else if less mid then search rounds i (if 0 < mid then mid - 1 else mid)
      else search rounds (mid + 1) j

/-- The indices that are probed on the way to one, from a first to a last index. -/
def way : Nat → Nat → Nat → Nat → List Nat
  | 0, _, _, _ => []
  | size + 1, i, j, goal =>
    if j ≤ i then []
    else
      let mid := (i + j) / 2
      if goal = mid then []
      else if goal < mid then mid :: way size i (mid - 1) goal
      else mid :: way size (mid + 1) j goal

/-- Whether halving leaves an index as the first of two. -/
def leavesPair : Nat → Nat → Nat → Nat → Bool
  | 0, _, _, _ => false
  | size + 1, i, j, goal =>
    if j ≤ i then false
    else if j = i + 1 then decide (goal = i)
    else
      let mid := (i + j) / 2
      if goal = mid then false
      else if goal < mid then leavesPair size i (mid - 1) goal
      else leavesPair size (mid + 1) j goal

/-- The probes on the way to an index lead there. -/
def LeadsTo (size i j goal : Nat) : Prop :=
  ∀ index ∈ way size i j goal, (index < goal → less index = false) ∧
    (goal < index → less index = true)

theorem search_end (rounds i : Nat) : search hit less (rounds + 1) i i = some (hit i) := by
  rw [search, if_pos rfl]

theorem search_left (rounds i j : Nat) (open' : i < j)
    (miss : hit ((i + j) / 2) = false) (before : less ((i + j) / 2) = true) :
    search hit less (rounds + 1) i j =
      search hit less rounds i (if 0 < (i + j) / 2 then (i + j) / 2 - 1 else (i + j) / 2) := by
  rw [search, if_neg (by omega)]
  simp only [miss, before, Bool.false_eq_true, ↓reduceIte]

theorem search_right (rounds i j : Nat) (open' : i ≠ j)
    (miss : hit ((i + j) / 2) = false) (behind : less ((i + j) / 2) = false) :
    search hit less (rounds + 1) i j = search hit less rounds ((i + j) / 2 + 1) j := by
  rw [search, if_neg open']
  simp only [miss, behind, Bool.false_eq_true, ↓reduceIte]

/-- More rounds do not change an answer. -/
theorem search_mono (rounds more i j : Nat) (answer : Bool) (enough : rounds ≤ more)
    (ends : search hit less rounds i j = some answer) : search hit less more i j = some answer := by
  induction rounds generalizing more i j with
  | zero => cases ends
  | succ rounds ih =>
    obtain ⟨rest, same⟩ : ∃ rest, more = rest + 1 := ⟨more - 1, by lia⟩
    subst same
    have next := fun first last => ih rest first last (by omega)
    rw [search] at ends ⊢
    by_cases equal : i = j
    · rw [if_pos equal] at ends ⊢
      exact ends
    · rw [if_neg equal] at ends ⊢
      cases atMiddle : hit ((i + j) / 2) with
      | true =>
        simp only [atMiddle] at ends ⊢
        exact ends
      | false =>
        cases direction : less ((i + j) / 2) with
        | true =>
          simp only [atMiddle, direction] at ends ⊢
          exact next _ _ ends
        | false =>
          simp only [atMiddle, direction] at ends ⊢
          exact next _ _ ends

variable (size i j goal : Nat)

theorem way_left (before : goal < (i + j) / 2) (ordered : i < j) :
    way (size + 1) i j goal = (i + j) / 2 :: way size i ((i + j) / 2 - 1) goal := by
  rw [way, if_neg (by omega)]
  simp only [before.ne, before, ↓reduceIte]

theorem way_right (behind : (i + j) / 2 < goal) (ordered : i < j) :
    way (size + 1) i j goal = (i + j) / 2 :: way size ((i + j) / 2 + 1) j goal := by
  rw [way, if_neg (by omega)]
  simp only [behind.ne', behind.not_gt, ↓reduceIte]

theorem leadsTo_left (before : goal < (i + j) / 2) (ordered : i < j) :
    LeadsTo less (size + 1) i j goal ↔
      less ((i + j) / 2) = true ∧ LeadsTo less size i ((i + j) / 2 - 1) goal := by
  rw [LeadsTo, way_left size i j goal before ordered, forall_mem_cons]
  constructor
  · rintro ⟨here, later⟩
    exact ⟨here.2 before, later⟩
  · rintro ⟨here, later⟩
    exact ⟨⟨fun behind => absurd behind before.not_gt, fun _ => here⟩, later⟩

theorem leadsTo_right (behind : (i + j) / 2 < goal) (ordered : i < j) :
    LeadsTo less (size + 1) i j goal ↔
      less ((i + j) / 2) = false ∧ LeadsTo less size ((i + j) / 2 + 1) j goal := by
  rw [LeadsTo, way_right size i j goal behind ordered, forall_mem_cons]
  constructor
  · rintro ⟨here, later⟩
    exact ⟨here.1 behind, later⟩
  · rintro ⟨here, later⟩
    exact ⟨⟨fun _ => here, fun before => absurd before behind.not_gt⟩, later⟩

theorem leadsTo_middle (size i j : Nat) : LeadsTo less (size + 1) i j ((i + j) / 2) := by
  intro index member
  rw [way] at member
  simp only [↓reduceIte, ite_self] at member
  exact absurd member not_mem_nil

/-- The pair that is left lies inside. -/
theorem leavesPair_bounds (pair : leavesPair size i j goal = true) : i ≤ goal ∧ goal < j := by
  induction size generalizing i j with
  | zero => cases pair
  | succ size ih =>
    rw [leavesPair] at pair
    by_cases closed : j ≤ i
    · rw [if_pos closed] at pair
      cases pair
    · rw [if_neg closed] at pair
      by_cases two : j = i + 1
      · rw [if_pos two] at pair
        have same := of_decide_eq_true pair
        omega
      · rw [if_neg two] at pair
        by_cases middle : goal = (i + j) / 2
        · lia
        · by_cases before : goal < (i + j) / 2
          · simp only [middle, before, ↓reduceIte] at pair
            obtain ⟨low, high⟩ := ih _ _ pair
            omega
          · simp only [middle, before, ↓reduceIte] at pair
            obtain ⟨low, high⟩ := ih _ _ pair
            omega

theorem leavesPair_left (before : goal < (i + j) / 2) (wide : i + 1 < j) :
    leavesPair (size + 1) i j goal = leavesPair size i ((i + j) / 2 - 1) goal := by
  rw [leavesPair, if_neg (by omega), if_neg (by omega)]
  simp only [before.ne, before, ↓reduceIte]

theorem leavesPair_right (behind : (i + j) / 2 < goal) (wide : i + 1 < j) :
    leavesPair (size + 1) i j goal = leavesPair size ((i + j) / 2 + 1) j goal := by
  rw [leavesPair, if_neg (by omega), if_neg (by omega)]
  simp only [behind.ne', behind.not_gt, ↓reduceIte]

/-- The probes lead to an index that is left as the first of two, and the goal is before it. -/
def RunsAway (size i j goal : Nat) : Prop :=
  0 < goal ∧ leavesPair size i j goal = true ∧ LeadsTo less size i j goal ∧ less goal = true

/-- The probes are in front of the last index. -/
theorem way_lt {probe : Nat} (member : probe ∈ way size i j goal) : probe < j := by
  induction size generalizing i j with
  | zero => exact absurd member not_mem_nil
  | succ size ih =>
    simp only [way] at member
    split_ifs at member
    · exact absurd member not_mem_nil
    · exact absurd member not_mem_nil
    · obtain same | later := mem_cons.mp member
      · omega
      · have := ih _ _ later
        omega
    · obtain same | later := mem_cons.mp member
      · omega
      · exact ih _ _ later

/-- An index with a hit is left, and the probes on the way to it lead there. -/
def Found (size i j : Nat) : Prop :=
  ∃ goal, i ≤ goal ∧ goal ≤ j ∧ hit goal = true ∧ LeadsTo less size i j goal

/-- The search runs away from some pair. -/
def Lost (size i j : Nat) : Prop := ∃ goal, RunsAway less size i j goal

/-- Once the last index is in front of the first, the same index is probed for ever. -/
theorem search_away (rounds i j : Nat) (behind : j < i) (middle : (i + j) / 2 = i - 1)
    (miss : hit (i - 1) = false) : search hit less rounds i j = none := by
  induction rounds generalizing j with
  | zero => rfl
  | succ rounds ih =>
    rw [search, if_neg behind.ne']
    simp only [middle, miss, Bool.false_eq_true]
    cases less (i - 1) with
    | true =>
      simp only [↓reduceIte]
      split_ifs with positive
      · exact ih _ (by omega) (by omega)
      · exact ih _ (by omega) (by omega)
    | false =>
      simp only [Bool.false_eq_true]
      rw [Nat.sub_add_cancel (by omega)]
      exact ih j behind middle

section

variable (inside : i < j) (miss : hit ((i + j) / 2) = false)
include inside miss

/-- In front of the middle an index is found exactly if it is found in the first half. -/
theorem found_left (before : less ((i + j) / 2) = true) :
    Found hit less (size + 1) i j ↔ i < (i + j) / 2 ∧ Found hit less size i ((i + j) / 2 - 1) := by
  constructor
  · rintro ⟨goal, low, high, found, leads⟩
    obtain left | same | right := Nat.lt_trichotomy goal ((i + j) / 2)
    · exact ⟨by omega, goal, low, by omega, found,
        ((leadsTo_left less size i j goal left inside).mp leads).2⟩
    · rw [same, miss] at found
      cases found
    · rw [((leadsTo_right less size i j goal right inside).mp leads).1] at before
      cases before
  · rintro ⟨wide, goal, low, high, found, leads⟩
    exact ⟨goal, low, by omega, found,
      (leadsTo_left less size i j goal (by omega) inside).mpr ⟨before, leads⟩⟩

/-- Behind the middle an index is found exactly if it is found in the second half. -/
theorem found_right (behind : less ((i + j) / 2) = false) :
    Found hit less (size + 1) i j ↔ Found hit less size ((i + j) / 2 + 1) j := by
  constructor
  · rintro ⟨goal, low, high, found, leads⟩
    obtain left | same | right := Nat.lt_trichotomy goal ((i + j) / 2)
    · rw [((leadsTo_left less size i j goal left inside).mp leads).1] at behind
      cases behind
    · rw [same, miss] at found
      cases found
    · exact ⟨goal, right, high, found, ((leadsTo_right less size i j goal right inside).mp leads).2⟩
  · rintro ⟨goal, low, high, found, leads⟩
    exact ⟨goal, by omega, high, found,
      (leadsTo_right less size i j goal low inside).mpr ⟨behind, leads⟩⟩

end

/-- In front of the middle of three or more indices the search is lost with the first half. -/
theorem lost_left (wide : i + 1 < j) (before : less ((i + j) / 2) = true) :
    Lost less (size + 1) i j ↔ Lost less size i ((i + j) / 2 - 1) := by
  constructor
  · rintro ⟨goal, positive, pair, leads, less⟩
    obtain left | same | right := Nat.lt_trichotomy goal ((i + j) / 2)
    · exact ⟨goal, positive, leavesPair_left size i j goal left wide ▸ pair,
        ((leadsTo_left _ size i j goal left (by omega)).mp leads).2, less⟩
    · rw [leavesPair, if_neg (by omega), if_neg (by omega), if_pos same] at pair
      cases pair
    · rw [((leadsTo_right _ size i j goal right (by omega)).mp leads).1] at before
      cases before
  · rintro ⟨goal, positive, pair, leads, less⟩
    have bounds := leavesPair_bounds size _ _ goal pair
    have left : goal < (i + j) / 2 := by omega
    exact ⟨goal, positive, (leavesPair_left size i j goal left wide).trans pair,
      (leadsTo_left _ size i j goal left (by omega)).mpr ⟨before, leads⟩, less⟩

/-- Behind the middle the search is lost with the second half. -/
theorem lost_right (inside : i < j) (behind : less ((i + j) / 2) = false) :
    Lost less (size + 1) i j ↔ Lost less size ((i + j) / 2 + 1) j := by
  constructor
  · rintro ⟨goal, positive, pair, leads, less⟩
    obtain left | same | right := Nat.lt_trichotomy goal ((i + j) / 2)
    · rw [((leadsTo_left _ size i j goal left inside).mp leads).1] at behind
      cases behind
    · rw [← same, less] at behind
      cases behind
    · have bounds := leavesPair_bounds (size + 1) _ _ goal pair
      exact ⟨goal, positive, leavesPair_right size i j goal right (by omega) ▸ pair,
        ((leadsTo_right _ size i j goal right inside).mp leads).2, less⟩
  · rintro ⟨goal, positive, pair, leads, less⟩
    have bounds := leavesPair_bounds size _ _ goal pair
    have right : (i + j) / 2 < goal := by omega
    exact ⟨goal, positive, (leavesPair_right size i j goal right (by omega)).trans pair,
      (leadsTo_right _ size i j goal right inside).mpr ⟨behind, leads⟩, less⟩

/-- How a search goes: it ends with a hit if an index is found, and else ends unless it is lost. -/
def Outcome (size i j : Nat) : Prop :=
  (Found hit less size i j ∧ ∃ rounds, search hit less rounds i j = some true) ∨
    ¬Found hit less size i j ∧
      (¬Lost less size i j ∧ (∃ rounds, search hit less rounds i j = some false) ∨
        Lost less size i j ∧ ∀ rounds, search hit less rounds i j = none)

/-- One round of a search goes over to the rest of it. -/
theorem outcome_step (i' j' : Nat)
    (step : ∀ rounds, search hit less (rounds + 1) i j = search hit less rounds i' j')
    (found : Found hit less (size + 1) i j ↔ Found hit less size i' j')
    (lost : Lost less (size + 1) i j ↔ Lost less size i' j')
    (rest : Outcome hit less size i' j') : Outcome hit less (size + 1) i j := by
  rw [Outcome, found, lost]
  rcases rest with ⟨here, rounds, ends⟩ | ⟨missed, ⟨safe, rounds, ends⟩ | ⟨away, never⟩⟩
  · exact .inl ⟨here, rounds + 1, (step rounds).trans ends⟩
  · exact .inr ⟨missed, .inl ⟨safe, rounds + 1, (step rounds).trans ends⟩⟩
  · refine .inr ⟨missed, .inr ⟨away, fun rounds => ?_⟩⟩
    cases rounds with
    | zero => rfl
    | succ rounds => exact (step rounds).trans (never rounds)

/-- Of two indices the first one is probed; with the goal before it, the search is lost behind
another index. -/
theorem outcome_pair {i : Nat} (miss : hit i = false) (before : less i = true)
    (edge : 0 < i → hit (i - 1) = false) : Outcome hit less (size + 1) i (i + 1) := by
  have middle : (i + (i + 1)) / 2 = i := by omega
  have missed : ¬Found hit less (size + 1) i (i + 1) := by
    rw [found_left hit less size i (i + 1) (by omega) (by rwa [middle]) (by rwa [middle]), middle]
    exact fun found => lt_irrefl i found.1
  have next (rounds : Nat) := search_left hit less rounds i (i + 1) (by omega)
    (by rwa [middle]) (by rwa [middle])
  rw [middle] at next
  refine .inr ⟨missed, ?_⟩
  obtain zero | positive := Nat.eq_zero_or_pos i
  · subst zero
    refine .inl ⟨?_, 2, (next 1).trans ?_⟩
    · rintro ⟨goal, positive, pair, -⟩
      have bounds := leavesPair_bounds (size + 1) 0 1 goal pair
      omega
    · rw [if_neg (lt_irrefl 0), search_end, miss]
  · refine .inr ⟨⟨i, positive, ?_, ?_, before⟩, fun rounds => ?_⟩
    · rw [leavesPair, if_neg (by omega), if_pos rfl]
      exact decide_eq_true rfl
    · have leads := leadsTo_middle less size i (i + 1)
      rwa [middle] at leads
    · cases rounds with
      | zero => rfl
      | succ rounds =>
        rw [next, if_pos positive]
        exact search_away hit less rounds i (i - 1) (by omega) (by omega) (edge positive)

/-- The search finds, misses, or is lost. -/
theorem search_outcome (room : j < i + size) (ordered : i ≤ j)
    (edge : 0 < i → hit (i - 1) = false) : Outcome hit less size i j := by
  induction size generalizing i j with
  | zero => omega
  | succ size ih =>
    obtain same | inside := Nat.eq_or_lt_of_le ordered
    · subst same
      have leads := leadsTo_middle less size i i
      rw [show (i + i) / 2 = i by omega] at leads
      cases found : hit i with
      | true => exact .inl ⟨⟨i, le_rfl, le_rfl, found, leads⟩, 1, by rw [search_end, found]⟩
      | false =>
        refine .inr ⟨?_, .inl ⟨?_, 1, by rw [search_end, found]⟩⟩
        · rintro ⟨goal, low, high, here, -⟩
          rw [show goal = i by omega, found] at here
          cases here
        · rintro ⟨goal, -, pair, -⟩
          have bounds := leavesPair_bounds (size + 1) i i goal pair
          omega
    cases atMiddle : hit ((i + j) / 2) with
    | true =>
      refine .inl ⟨⟨(i + j) / 2, by omega, by omega, atMiddle, leadsTo_middle less size i j⟩, 1, ?_⟩
      rw [search, if_neg inside.ne]
      simp only [atMiddle, ↓reduceIte]
    | false =>
      cases direction : less ((i + j) / 2) with
      | true =>
        obtain two | wide : j = i + 1 ∨ i + 1 < j := by omega
        · subst two
          have middle : (i + (i + 1)) / 2 = i := by omega
          rw [middle] at atMiddle direction
          exact outcome_pair hit less size atMiddle direction edge
        · refine outcome_step hit less size i j i ((i + j) / 2 - 1) (fun rounds => ?_) ?_
            (lost_left less size i j wide direction)
            (ih i ((i + j) / 2 - 1) (by omega) (by omega) edge)
          · rw [search_left hit less rounds i j inside atMiddle direction, if_pos (by omega)]
          · rw [found_left hit less size i j inside atMiddle direction]
            exact and_iff_right (by omega)
      | false =>
        exact outcome_step hit less size i j ((i + j) / 2 + 1) j
          (fun rounds => search_right hit less rounds i j inside.ne atMiddle direction)
          (found_right hit less size i j inside atMiddle direction)
          (lost_right less size i j inside direction)
          (ih ((i + j) / 2 + 1) j (by omega) (by omega) fun _ => by
            rwa [Nat.add_sub_cancel])

end Halving

/-- Whether an address is in a range, by the order of the addresses. -/
def Range.holds (range : Range) (ip : IPV6) : Bool := ip.ge range.first && ip.le range.last

/-- Whether the range at an index holds an address. -/
def holdsAt (ranges : List Range) (ip : IPV6) (index : Nat) : Bool :=
  match ranges[index]? with
  | some range => range.holds ip
  | none => false

/-- Whether an address is before the range at an index, by the order of the addresses. -/
def beforeAt (ranges : List Range) (ip : IPV6) (index : Nat) : Bool :=
  match ranges[index]? with
  | some range => ip.lt range.first
  | none => false

/-- Look an address up in a list of ranges that is not empty, for at most some rounds. -/
def binarySearch (ranges : List Range) (ip : IPV6) (rounds : Nat) : Option Bool :=
  search (holdsAt ranges ip) (beforeAt ranges ip) rounds 0 (ranges.length - 1)

/-- The IPv4 address of the local host, 127.0.0.1. -/
def localhostIpv4 : IPV6 where
  a := 0x7F000001#32
  b := mappedWord
  c := 0
  d := 0

/-- The IPv6 address of the local host, ::1. -/
def localhostIpv6 : IPV6 where
  a := 1
  b := 0
  c := 0
  d := 0

/-- Look an address up, for at most some rounds of each search. The second address of the local
host is looked up only if the first is not found. -/
def isInRange (ranges : List Range) (ip : IPV6) (rounds : Nat) : Option Bool :=
  if ranges.length = 0 then some false
  else if ip = localhostIpv4 ∨ ip = localhostIpv6 then
    match binarySearch ranges localhostIpv4 rounds with
    | some true => some true
    | some false => binarySearch ranges localhostIpv6 rounds
    | none => none
  else binarySearch ranges ip rounds

/-- The order of the code tells rightly whether an address is before the range at an index. -/
def PlacedRightly (ranges : List Range) (ip : IPV6) (index : Nat) : Prop :=
  ∀ range, ranges[index]? = some range → (ip.lt range.first = true ↔ ip.number < range.first.number)

/-- An address is in a range, and the order of the code is right about it there, and at the ranges
that halving probes on the way there. -/
def Reached (ranges : List Range) (ip : IPV6) : Prop :=
  ∃ index range, ranges[index]? = some range ∧ ip ∈ range.addresses ∧ range.holds ip = true ∧
    ∀ probe ∈ way ranges.length 0 (ranges.length - 1) index, PlacedRightly ranges ip probe

/-- The order of the code sends halving to two ranges, not at the start of the list, with the
address before the first of them. -/
def RunsOff (ranges : List Range) (ip : IPV6) : Prop :=
  Lost (beforeAt ranges ip) ranges.length 0 (ranges.length - 1)

/-- When the lookup of an address is right. An address of the local host needs the searches for
both. -/
def SoughtRightly (ranges : List Range) (ip : IPV6) : Prop :=
  if ip = localhostIpv4 ∨ ip = localhostIpv6 then
    (ip ∈ addressesOf ranges → Reached ranges localhostIpv4 ∨
      ¬RunsOff ranges localhostIpv4 ∧ Reached ranges localhostIpv6) ∧
    (ip ∉ addressesOf ranges → ∀ address ∈ [localhostIpv4, localhostIpv6],
      ¬Reached ranges address ∧ ¬RunsOff ranges address)
  else (ip ∈ addressesOf ranges → Reached ranges ip) ∧
    (ip ∉ addressesOf ranges → ¬RunsOff ranges ip)

theorem IPV6.lt_of_number_lt (first second : IPV6) (less : first.number < second.number) :
    first.lt second = true := by
  rw [IPV6.number, IPV6.number] at less
  rw [IPV6.lt, Bool.or_eq_true, decide_eq_true_eq, decide_eq_true_eq]
  omega

theorem Range.mem_of_holds (range : Range) (ip : IPV6) (holds : range.holds ip = true) :
    ip ∈ range.addresses := by
  rw [Range.holds, Bool.and_eq_true, IPV6.ge, IPV6.le, IPV6.gt] at holds
  constructor
  · by_contra before
    rw [IPV6.lt_of_number_lt ip range.first (by omega)] at holds
    exact Bool.noConfusion holds.1
  · by_contra behind
    rw [IPV6.lt_of_number_lt range.last ip (by omega)] at holds
    exact Bool.noConfusion holds.2

variable (ranges : List Range) (ip : IPV6)

theorem holdsAt_range {index : Nat} (found : holdsAt ranges ip index = true) :
    ∃ range, ranges[index]? = some range ∧ ip ∈ range.addresses := by
  rw [holdsAt] at found
  cases stored : ranges[index]? with
  | none =>
    rw [stored] at found
    cases found
  | some range =>
    rw [stored] at found
    exact ⟨range, rfl, range.mem_of_holds ip found⟩

theorem beforeAt_of {index : Nat} {range : Range} (stored : ranges[index]? = some range) :
    beforeAt ranges ip index = ip.lt range.first := by
  rw [beforeAt, stored]

/-- In a sorted list the probes lead to the range of an address if the order is right about them. -/
theorem found_iff_reached (tidy : Tidy ranges) :
    Found (holdsAt ranges ip) (beforeAt ranges ip) ranges.length 0 (ranges.length - 1) ↔
      Reached ranges ip := by
  have apart := pairwise_iff_getElem.mp tidy.sorted
  have order (first second : Nat) (one other : Range) (atFirst : ranges[first]? = some one)
      (atSecond : ranges[second]? = some other) (less : first < second) :
      one.last.number < other.first.number := by
    obtain ⟨firstBound, rfl⟩ := List.getElem?_eq_some_iff.mp atFirst
    obtain ⟨secondBound, rfl⟩ := List.getElem?_eq_some_iff.mp atSecond
    exact apart first second firstBound secondBound less
  constructor
  · rintro ⟨goal, -, -, found, leads⟩
    obtain ⟨range, stored, has⟩ := holdsAt_range ranges ip found
    have holds : range.holds ip = true := by
      rwa [holdsAt, stored] at found
    refine ⟨goal, range, stored, has, holds, fun probe member other atProbe => ?_⟩
    have sent := leads probe member
    rw [beforeAt_of ranges ip atProbe] at sent
    have valid := tidy.valid other (mem_of_getElem? atProbe)
    obtain before | same | behind := Nat.lt_trichotomy probe goal
    · have gap := order probe goal other range atProbe stored before
      have low := has.1
      rw [sent.1 before]
      exact iff_of_false Bool.false_ne_true (by omega)
    · subst same
      rw [stored, Option.some.injEq] at atProbe
      subst atProbe
      rw [Range.holds, Bool.and_eq_true, IPV6.ge, Bool.not_eq_true'] at holds
      rw [holds.1]
      exact iff_of_false Bool.false_ne_true has.1.not_gt
    · have gap := order goal probe range other stored atProbe behind
      have high := has.2
      rw [sent.2 behind]
      exact iff_of_true rfl (by omega)
  · rintro ⟨goal, range, stored, has, holds, placed⟩
    have bound := (List.getElem?_eq_some_iff.mp stored).1
    refine ⟨goal, Nat.zero_le _, by omega, by rwa [holdsAt, stored], fun probe member => ?_⟩
    have inside := way_lt ranges.length 0 (ranges.length - 1) goal member
    have atProbe : ranges[probe]? = some ranges[probe] := getElem?_eq_getElem (by omega)
    have right := placed probe member _ atProbe
    have valid := tidy.valid _ (mem_of_getElem? atProbe)
    rw [beforeAt_of ranges ip atProbe]
    constructor
    · intro before
      have gap := order probe goal _ range atProbe stored before
      have low := has.1
      rw [Bool.eq_false_iff, Ne, right]
      omega
    · intro behind
      have gap := order goal probe range _ stored atProbe behind
      have high := has.2
      rw [right]
      omega

/-- The two answers of a search, and when it gives them. -/
theorem binarySearch_ends (filled : ranges ≠ []) (tidy : Tidy ranges) :
    ((∃ rounds, binarySearch ranges ip rounds = some true) ↔ Reached ranges ip) ∧
      ((∃ rounds, binarySearch ranges ip rounds = some false) ↔
        ¬Reached ranges ip ∧ ¬RunsOff ranges ip) := by
  have length := length_pos_iff.mpr filled
  have outcome := search_outcome (holdsAt ranges ip) (beforeAt ranges ip) ranges.length 0
    (ranges.length - 1) (by omega) (Nat.zero_le _) (fun positive => absurd positive (lt_irrefl 0))
  have unique (first second : Nat) (one other : Bool)
      (atFirst : binarySearch ranges ip first = some one)
      (atSecond : binarySearch ranges ip second = some other) : one = other := by
    have left := search_mono _ _ first (first + second) _ _ one (by omega) atFirst
    rw [search_mono _ _ second (first + second) _ _ other (by omega) atSecond,
      Option.some.injEq] at left
    exact left.symm
  rw [Outcome, found_iff_reached ranges ip tidy] at outcome
  rcases outcome with ⟨reached, rounds, ends⟩ | ⟨missed, ⟨safe, rounds, ends⟩ | ⟨away, never⟩⟩
  · refine ⟨iff_of_true ⟨rounds, ends⟩ reached, iff_of_false ?_ fun none => none.1 reached⟩
    rintro ⟨other, stops⟩
    exact Bool.noConfusion (unique _ _ _ _ ends stops)
  · refine ⟨iff_of_false ?_ missed, iff_of_true ⟨rounds, ends⟩ ⟨missed, safe⟩⟩
    rintro ⟨other, stops⟩
    exact Bool.noConfusion (unique _ _ _ _ ends stops)
  · have stuck (answer : Bool) : ¬∃ rounds, binarySearch ranges ip rounds = some answer := by
      rintro ⟨rounds, ends⟩
      rw [binarySearch, never rounds] at ends
      cases ends
    exact ⟨iff_of_false (stuck true) missed, iff_of_false (stuck false) fun none => none.2 away⟩

/-- The two answers of a lookup of an address of the local host. -/
theorem isInRange_localhost (filled : ranges ≠ []) (answer : Bool)
    (localhost : ip = localhostIpv4 ∨ ip = localhostIpv6) :
    (∃ rounds, isInRange ranges ip rounds = some answer) ↔
      (answer = true ∧ ∃ rounds, binarySearch ranges localhostIpv4 rounds = some true) ∨
      (∃ rounds, binarySearch ranges localhostIpv4 rounds = some false) ∧
        ∃ rounds, binarySearch ranges localhostIpv6 rounds = some answer := by
  have length : ranges.length ≠ 0 := fun zero => filled (length_eq_zero_iff.mp zero)
  constructor
  · rintro ⟨rounds, ends⟩
    rw [isInRange, if_neg length, if_pos localhost] at ends
    cases first : binarySearch ranges localhostIpv4 rounds with
    | none =>
      rw [first] at ends
      cases ends
    | some found =>
      rw [first] at ends
      cases found with
      | true => exact .inl ⟨(Option.some.inj ends).symm, rounds, first⟩
      | false => exact .inr ⟨⟨rounds, first⟩, rounds, ends⟩
  · rintro (⟨rfl, rounds, first⟩ | ⟨⟨rounds, first⟩, rounds', second⟩)
    · exact ⟨rounds, by rw [isInRange, if_neg length, if_pos localhost, first]⟩
    · refine ⟨rounds + rounds', ?_⟩
      rw [isInRange, if_neg length, if_pos localhost, binarySearch,
        search_mono _ _ rounds (rounds + rounds') _ _ false (by omega) first]
      exact search_mono _ _ rounds' (rounds + rounds') _ _ answer (by omega) second

theorem not_reached_nil : ¬Reached [] ip := by
  rintro ⟨index, range, stored, -⟩
  cases stored

theorem not_runsOff_nil : ¬RunsOff [] ip := by
  rintro ⟨goal, -, pair, -⟩
  cases pair

theorem Reached.mem (reached : Reached ranges ip) : ip ∈ addressesOf ranges := by
  obtain ⟨index, range, stored, has, -⟩ := reached
  exact ⟨range, mem_of_getElem? stored, has⟩

/-- For sorted, disjoint ranges the lookup of an address ends and says whether a range has it
exactly if it is sought rightly. -/
theorem lookup_answers_iff (ranges : List Range) (tidy : Tidy ranges) (ip : IPV6) :
    (∃ rounds answer, isInRange ranges ip rounds = some answer ∧
      (answer = true ↔ ip ∈ addressesOf ranges)) ↔ SoughtRightly ranges ip := by
  have split : (∃ rounds answer, isInRange ranges ip rounds = some answer ∧
        (answer = true ↔ ip ∈ addressesOf ranges)) ↔
      (ip ∈ addressesOf ranges → ∃ rounds, isInRange ranges ip rounds = some true) ∧
      (ip ∉ addressesOf ranges → ∃ rounds, isInRange ranges ip rounds = some false) := by
    constructor
    · rintro ⟨rounds, answer, ends, right⟩
      cases answer with
      | true => exact ⟨fun _ => ⟨rounds, ends⟩, fun outside => absurd (right.mp rfl) outside⟩
      | false => exact ⟨fun inside => Bool.noConfusion (right.mpr inside), fun _ => ⟨rounds, ends⟩⟩
    · rintro ⟨found, missed⟩
      by_cases member : ip ∈ addressesOf ranges
      · obtain ⟨rounds, ends⟩ := found member
        exact ⟨rounds, true, ends, iff_of_true rfl member⟩
      · obtain ⟨rounds, ends⟩ := missed member
        exact ⟨rounds, false, ends, iff_of_false Bool.false_ne_true member⟩
  rw [split, SoughtRightly]
  by_cases filled : ranges = []
  · subst filled
    have outside : ip ∉ addressesOf [] := fun ⟨_, stored, _⟩ => absurd stored not_mem_nil
    refine iff_of_true ⟨fun inside => absurd inside outside, fun _ => ⟨0, rfl⟩⟩ ?_
    split_ifs
    · exact ⟨fun inside => absurd inside outside,
        fun _ address _ => ⟨not_reached_nil address, not_runsOff_nil address⟩⟩
    · exact ⟨fun inside => absurd inside outside, fun _ => not_runsOff_nil ip⟩
  have ends (address : IPV6) := binarySearch_ends ranges address filled tidy
  by_cases localhost : ip = localhostIpv4 ∨ ip = localhostIpv6
  · rw [if_pos localhost]
    simp only [isInRange_localhost ranges ip filled _ localhost, (ends _).1, (ends _).2,
      Bool.false_eq_true, false_and, false_or, forall_mem_cons, not_mem_nil,
      IsEmpty.forall_iff, implies_true, and_true]
    tauto
  · have length : ranges.length ≠ 0 := fun zero => filled (length_eq_zero_iff.mp zero)
    have direct (rounds : Nat) : isInRange ranges ip rounds = binarySearch ranges ip rounds := by
      rw [isInRange, if_neg length, if_neg localhost]
    rw [if_neg localhost]
    simp only [direct, (ends _).1, (ends _).2]
    have member := Reached.mem ranges ip
    tauto

/-- Four ranges of a few low addresses. -/
def fourRanges : List Range :=
  [⟨lowAddress 3, lowAddress 4⟩, ⟨lowAddress 10, lowAddress 20⟩, ⟨lowAddress 30, lowAddress 40⟩,
    ⟨lowAddress 50, lowAddress 60⟩]

theorem fourRanges_tidy : Tidy fourRanges := ⟨by decide, by decide⟩

/-- The last of four ranges is found. -/
theorem lookup_answers_iff_last :
    ∃ rounds answer, isInRange fourRanges (lowAddress 55) rounds = some answer ∧
      (answer = true ↔ lowAddress 55 ∈ addressesOf fourRanges) := by
  apply (lookup_answers_iff fourRanges fourRanges_tidy (lowAddress 55)).mpr
  have inside : lowAddress 55 ∈ addressesOf fourRanges :=
    ⟨⟨lowAddress 50, lowAddress 60⟩, by decide, by decide, by decide⟩
  rw [SoughtRightly]
  refine ⟨fun _ => ⟨3, _, rfl, ⟨by decide, by decide⟩, by decide, ?_⟩,
    fun outside => absurd inside outside⟩
  have all : ∀ index : Fin 4, (lowAddress 55).lt fourRanges[index].first = true ↔
      (lowAddress 55).number < fourRanges[index].first.number := by decide
  intro probe member range stored
  obtain ⟨bound, rfl⟩ := List.getElem?_eq_some_iff.mp stored
  exact all ⟨probe, bound⟩

/-- An address between the second and the third of four ranges is looked up for ever. -/
theorem lookup_goes_on_for_ever : Tidy fourRanges ∧
    ∀ rounds, isInRange fourRanges (lowAddress 25) rounds = none := by
  refine ⟨fourRanges_tidy, fun rounds => ?_⟩
  rw [isInRange]
  match rounds with
  | 0 => rfl
  | 1 => rfl
  | 2 => rfl
  | rounds + 3 =>
    exact search_away (holdsAt fourRanges (lowAddress 25)) (beforeAt fourRanges (lowAddress 25))
      (rounds + 1) 2 1 (by decide) rfl (by decide)

end OpenGauss.Security
