import OpenGauss.Base.Comparison

/-!
# The partition of a key

`partrouting.cpp` finds the partition of a key by a search in halves over the upper boundaries of the
partitions. Keys and boundaries are compared column by column; a key may lack a column or have a
null, a boundary may have `MAXVALUE` instead of a value. The partition that is found is compared with
the order of keys: the one with the key between its two boundaries.
-/
namespace OpenGauss.Partition

open OpenGauss.Base

variable {V : Type}

/-- A constant of a key or a boundary (`Const`). -/
structure Const (V : Type) where
  /-- It is `MAXVALUE`. -/
  ismaxvalue : Bool
  constcollid : Nat
  constvalue : Option V

/-- `MAXVALUE` of a column. -/
def makeMaxConst (constcollid : Nat) : Const V := ⟨true, constcollid, none⟩

/-- A value of a column. -/
def makeConst (constcollid : Nat) (constvalue : V) : Const V := ⟨false, constcollid, some constvalue⟩

/-- The boundary of a partition, by the collations of its columns and the values in the catalogue:
an absent one is `MAXVALUE`. -/
def unserializePartitionStringAttribute (collations : List Nat) (values : List (Option V)) :
    List (Option (Const V)) :=
  List.zipWith (fun typcollation max_value =>
    match max_value with
    | none => some (makeMaxConst typcollation)
    | some value => some (makeConst typcollation value)) collations values

/-- A partition of a range partitioned table (`RangeElement`). -/
structure RangeElement (V : Type) where
  partitionOid : Nat
  boundary : List (Option (Const V))

/-- The partitions of a range partitioned table (`RangePartitionMap`). -/
structure RangePartitionMap (V : Type) where
  collations : List Nat
  columns : collations ≠ []
  rangeElements : List (RangeElement V)
  stored : ∀ element ∈ rangeElements, ∃ values : List (Option V),
    values.length = collations.length ∧
      element.boundary = unserializePartitionStringAttribute collations values

/-- The upper boundary of a partition. -/
def RangePartitionMap.boundary (map : RangePartitionMap V) (index : Nat) :
    List (Option (Const V)) :=
  match map.rangeElements[index]? with
  | none => []
  | some element => element.boundary

/-- Compare a key with a boundary. The first columns that differ decide. -/
def partitionKeyCompareForRouting (constCompare : V → V → Nat → Int) (nullsMinimal : Bool) :
    Int → List (Option (Const V)) → List (Option (Const V)) → Except String Int
  | _, none :: _, none :: _ => .error "NULL can not be compared with NULL"
  | _, none :: _, some _ :: _ => .ok (-1)
  | _, some _ :: _, none :: _ => .ok 1
  | _, some kv :: keys, some bv :: bounds =>
    if kv.ismaxvalue || bv.ismaxvalue then
      if kv.ismaxvalue && bv.ismaxvalue then
        partitionKeyCompareForRouting constCompare nullsMinimal 0 keys bounds
      else if kv.ismaxvalue then .ok 1
      else .ok (-1)
    else
      match kv.constvalue, bv.constvalue with
      | none, none => .error "null value can not be compared with null value."
      | none, some _ => .ok (if nullsMinimal then -1 else 1)
      | some _, none => .ok (if nullsMinimal then 1 else -1)
      | some key, some bound =>
        if constCompare key bound bv.constcollid ≠ 0 then
          .ok (constCompare key bound bv.constcollid)
        else partitionKeyCompareForRouting constCompare nullsMinimal 0 keys bounds
  | compare, _, _ => .ok compare

section Routing

variable (constCompare : V → V → Nat → Int) (nullsMinimal : Bool) (map : RangePartitionMap V)
  (partKeyValue : List (Option (Const V))) (topClosed : Bool)

/-- Search in halves between two partitions; no result if it takes more rounds. -/
def semiSeek : Nat → Nat → Nat → Int → Option (Except String Int)
  | 0, min_part_id, max_part_id, _ =>
    if min_part_id < max_part_id then none
    else some (.ok (if max_part_id = min_part_id then max_part_id else -1))
  | rounds + 1, min_part_id, max_part_id, compare =>
    if min_part_id < max_part_id then
      let local_part_id := (max_part_id + min_part_id) / 2
      match partitionKeyCompareForRouting constCompare nullsMinimal compare partKeyValue
          (map.boundary local_part_id) with
      | .error message => some (.error message)
      | .ok compare =>
        if compare = 0 then some (.ok (if topClosed then local_part_id + 1 else local_part_id))
        else if 0 < compare then semiSeek rounds (local_part_id + 1) max_part_id compare
        else semiSeek rounds min_part_id local_part_id compare
    else some (.ok (if max_part_id = min_part_id then max_part_id else -1))

/-- The index of the partition of a key, -1 if there is none. -/
def rangePartitionSeq : Option (Except String Int) :=
  let max_part_id := map.rangeElements.length - 1
  match partitionKeyCompareForRouting constCompare nullsMinimal 0 partKeyValue
      (map.boundary max_part_id) with
  | .error message => some (.error message)
  | .ok compare =>
    if compare = 0 then some (.ok (if topClosed then -1 else max_part_id))
    else if 0 < compare then some (.ok (-1))
    else semiSeek constCompare nullsMinimal map partKeyValue topClosed max_part_id 0 max_part_id
      compare

/-- The identifier of a partition, 0 if there is none. -/
def RangePartitionMap.oidOf (map : RangePartitionMap V) (hit : Int) : Nat :=
  if 0 ≤ hit then
    match map.rangeElements[hit.toNat]? with
    | none => 0
    | some element => element.partitionOid
  else 0

/-- The identifier and the index of the partition of a key. -/
def getRangePartitionOid : Option (Except String (Nat × Int)) :=
  (rangePartitionSeq constCompare nullsMinimal map partKeyValue topClosed).map fun result =>
    result.map fun hit => (map.oidOf hit, hit)

/-- Whether a key is between the boundaries of a partition. -/
def isPartKeyValuesInPartition (partSeq : Nat) : Except String Bool :=
  if partSeq = 0 then do
    let compareTop ← partitionKeyCompareForRouting constCompare nullsMinimal 0 partKeyValue
      (map.boundary 0)
    return decide (compareTop < 0)
  else do
    let compareBottom ← partitionKeyCompareForRouting constCompare nullsMinimal 0 partKeyValue
      (map.boundary (partSeq - 1))
    let compareTop ← partitionKeyCompareForRouting constCompare nullsMinimal 0 partKeyValue
      (map.boundary partSeq)
    return decide (0 ≤ compareBottom) && decide (compareTop < 0)

end Routing

/-- The place of a constant in its column: an absent one is first and `MAXVALUE` last, and a null is
before or behind the values. -/
def columnPlace (nullsMinimal : Bool) : Option (Const V) → Nat
  | none => 0
  | some const =>
    if const.ismaxvalue then 4
    else if const.constvalue.isSome then 2
    else if nullsMinimal then 1 else 3

/-- The value of a constant, if it is one. -/
def columnValue : Option (Const V) → Option V
  | none => none
  | some const => if const.ismaxvalue then none else const.constvalue

/-- The order of a column. -/
def columnOrder (constCompare : V → V → Nat → Int) (nullsMinimal : Bool) (collation : Nat) :
    Option (Const V) → Option (Const V) → Int :=
  thenCompare (fun first second =>
      natCompare (columnPlace nullsMinimal first) (columnPlace nullsMinimal second))
    (fun first second => optionCompare (fun value other => constCompare value other collation)
      (columnValue first) (columnValue second))

/-- The order of keys and boundaries: that of their columns, the first first. -/
def keyOrder (constCompare : V → V → Nat → Int) (nullsMinimal : Bool) (collations : List Nat) :
    List (Option (Const V)) → List (Option (Const V)) → Int :=
  columnsCompare (collations.map (columnOrder constCompare nullsMinimal))

variable (constCompare : V → V → Nat → Int) (nullsMinimal : Bool) (collations : List Nat)

theorem keyOrder_isComparison
    (valid : ∀ collation, IsComparison fun value other => constCompare value other collation) :
    IsComparison (keyOrder constCompare nullsMinimal collations) := by
  apply columnsCompare_isComparison
  intro compare member
  obtain ⟨collation, -, rfl⟩ := List.mem_map.mp member
  exact (natCompare_isComparison.comap _ _).then ((valid collation).option.comap _ _)

theorem keyOrder_cons (collation : Nat)
    (collations : List Nat) (kv bv : Option (Const V)) (keys bounds : List (Option (Const V))) :
    keyOrder constCompare nullsMinimal (collation :: collations) (kv :: keys) (bv :: bounds) =
      if columnOrder constCompare nullsMinimal collation kv bv ≠ 0 then
        columnOrder constCompare nullsMinimal collation kv bv
      else keyOrder constCompare nullsMinimal collations keys bounds :=
  rfl

/-- Routing compares keys by their order. -/
theorem partitionKeyCompareForRouting_eq (values : List (Option V)) (key : List (Option (Const V)))
    (valueColumns : values.length = collations.length)
    (keyColumns : key.length = collations.length) (start : Int)
    (present : collations ≠ [] ∨ start = 0) :
    partitionKeyCompareForRouting constCompare nullsMinimal start key
        (unserializePartitionStringAttribute collations values) =
      .ok (keyOrder constCompare nullsMinimal collations key
        (unserializePartitionStringAttribute collations values)) := by
  induction collations generalizing values key start with
  | nil =>
    obtain rfl := List.eq_nil_of_length_eq_zero keyColumns
    obtain rfl := present.resolve_left (fun absent => absent rfl)
    rfl
  | cons collation rest ih =>
    match values, key with
    | value :: values, kv :: keys =>
      have again := ih values keys (Nat.succ.inj valueColumns) (Nat.succ.inj keyColumns) 0 (.inr rfl)
      rw [unserializePartitionStringAttribute, List.zipWith_cons_cons, keyOrder_cons]
      match value, kv with
      | none, none => rfl
      | none, some ⟨true, _, _⟩ => exact again
      | none, some ⟨false, _, none⟩ => cases nullsMinimal <;> rfl
      | none, some ⟨false, _, some _⟩ => rfl
      | some _, none => rfl
      | some _, some ⟨true, _, _⟩ => rfl
      | some _, some ⟨false, _, none⟩ => cases nullsMinimal <;> rfl
      | some bound, some ⟨false, own, some key⟩ =>
        have column : columnOrder constCompare nullsMinimal collation
            (some ⟨false, own, some key⟩) (some (makeConst collation bound)) =
            constCompare key bound collation := rfl
        rw [column]
        show (if constCompare key bound collation ≠ 0 then .ok (constCompare key bound collation)
          else partitionKeyCompareForRouting constCompare nullsMinimal 0 keys _) = _
        by_cases same : constCompare key bound collation = 0
        · rw [if_neg (not_not.mpr same), if_neg (not_not.mpr same)]
          exact again
        · rw [if_pos same, if_pos same]

section Correctness

variable (constCompare : V → V → Nat → Int) (nullsMinimal : Bool) (map : RangePartitionMap V)
  (partKeyValue : List (Option (Const V))) (topClosed : Bool)

/-- The sign of a key against the boundary of a partition. -/
def RangePartitionMap.sign (index : Nat) : Int :=
  keyOrder constCompare nullsMinimal map.collations partKeyValue (map.boundary index)

/-- A key belongs to a partition: it is between the boundaries, of which one is excluded. -/
def RangePartitionMap.Contains (index : Nat) : Prop :=
  index < map.rangeElements.length ∧ (0 < index →
      if topClosed then
        keyOrder constCompare nullsMinimal map.collations (map.boundary (index - 1)) partKeyValue ≤ 0
      else
        keyOrder constCompare nullsMinimal map.collations (map.boundary (index - 1)) partKeyValue < 0) ∧
    if topClosed then
      keyOrder constCompare nullsMinimal map.collations partKeyValue (map.boundary index) < 0
    else keyOrder constCompare nullsMinimal map.collations partKeyValue (map.boundary index) ≤ 0

/-- The boundaries increase. -/
def RangePartitionMap.Increasing : Prop :=
  ∀ index later, index < later → later < map.rangeElements.length →
    keyOrder constCompare nullsMinimal map.collations (map.boundary index) (map.boundary later) < 0

theorem RangePartitionMap.compare_eq (columns : partKeyValue.length = map.collations.length)
    (index : Nat) (within : index < map.rangeElements.length) (start : Int) :
    partitionKeyCompareForRouting constCompare nullsMinimal start partKeyValue
        (map.boundary index) = .ok (map.sign constCompare nullsMinimal partKeyValue index) := by
  obtain ⟨values, valueColumns, stored⟩ := map.stored _ (List.getElem_mem within)
  rw [RangePartitionMap.sign, RangePartitionMap.boundary, List.getElem?_eq_getElem within]
  dsimp only
  rw [stored]
  exact partitionKeyCompareForRouting_eq constCompare nullsMinimal map.collations values partKeyValue
    valueColumns columns start (.inl map.columns)

/-- A key is in a partition exactly if the signs cross there. -/
theorem RangePartitionMap.contains_iff
    (valid : IsComparison (keyOrder constCompare nullsMinimal map.collations)) (index : Nat) :
    map.Contains constCompare nullsMinimal partKeyValue topClosed index ↔
      index < map.rangeElements.length ∧
        IsCrossing (map.sign constCompare nullsMinimal partKeyValue) topClosed index := by
  have forth := valid.swap (map.boundary (index - 1)) partKeyValue
  have back := valid.swap partKeyValue (map.boundary (index - 1))
  rw [IsCrossing, RangePartitionMap.sign]
  apply and_congr_right
  intro _
  apply and_congr_left
  intro _
  apply imp_congr_right
  intro _
  cases topClosed
  · exact forth
  · simp only [if_true]
    omega

section

variable (columns : partKeyValue.length = map.collations.length)
include columns

/-- The halving finds where the signs cross. -/
theorem semiSeek_spec
    (cross : SignsCross (map.sign constCompare nullsMinimal partKeyValue) map.rangeElements.length)
    (rounds min_part_id max_part_id : Nat) (compare : Int) (ordered : min_part_id ≤ max_part_id)
    (within : max_part_id < map.rangeElements.length) (near : max_part_id - min_part_id ≤ rounds)
    (top : map.sign constCompare nullsMinimal partKeyValue max_part_id < 0)
    (bottom : 0 < min_part_id →
      0 < map.sign constCompare nullsMinimal partKeyValue (min_part_id - 1)) :
    ∃ hit : Nat, semiSeek constCompare nullsMinimal map partKeyValue topClosed rounds min_part_id
        max_part_id compare = some (.ok hit) ∧ hit < map.rangeElements.length ∧
      IsCrossing (map.sign constCompare nullsMinimal partKeyValue) topClosed hit := by
  have ends (index : Nat) (top : map.sign constCompare nullsMinimal partKeyValue index < 0)
      (bottom : 0 < index → 0 < map.sign constCompare nullsMinimal partKeyValue (index - 1)) :
      IsCrossing (map.sign constCompare nullsMinimal partKeyValue) topClosed index := by
    cases topClosed
    · exact ⟨bottom, Int.le_of_lt top⟩
    · exact ⟨fun behind => Int.le_of_lt (bottom behind), top⟩
  induction rounds generalizing min_part_id max_part_id compare with
  | zero =>
    obtain rfl : max_part_id = min_part_id := by lia
    rw [semiSeek, if_neg (Nat.lt_irrefl _), if_pos rfl]
    exact ⟨max_part_id, rfl, within, ends max_part_id top bottom⟩
  | succ rounds ih =>
    by_cases more : min_part_id < max_part_id
    · have below : (max_part_id + min_part_id) / 2 < max_part_id := by lia
      have least : min_part_id ≤ (max_part_id + min_part_id) / 2 := by lia
      rw [semiSeek, if_pos more]
      dsimp only
      rw [map.compare_eq constCompare nullsMinimal partKeyValue columns _ (by omega)]
      generalize (max_part_id + min_part_id) / 2 = local_part_id at below least ⊢
      dsimp only
      by_cases equal : map.sign constCompare nullsMinimal partKeyValue local_part_id = 0
      · rw [if_pos equal]
        cases topClosed
        · refine ⟨local_part_id, rfl, by omega, ?_, Int.le_of_eq equal⟩
          intro behind
          by_contra notBefore
          have negative := cross (local_part_id - 1) local_part_id (by omega) (by omega)
            (Int.not_lt.mp notBefore)
          omega
        · refine ⟨local_part_id + 1, rfl, by lia, ?_, ?_⟩
          · intro _
            exact Int.le_of_eq equal.symm
          · exact cross local_part_id (local_part_id + 1) (by omega) (by lia) (Int.le_of_eq equal)
      · rw [if_neg equal]
        by_cases greater : 0 < map.sign constCompare nullsMinimal partKeyValue local_part_id
        · rw [if_pos greater]
          exact ih (local_part_id + 1) max_part_id _ (by omega) within (by grind) top
            (fun _ => greater)
        · rw [if_neg greater]
          exact ih min_part_id local_part_id _ least (by omega) (by grind) (by lia) bottom
    · obtain rfl : max_part_id = min_part_id := by omega
      rw [semiSeek, if_neg more, if_pos rfl]
      exact ⟨max_part_id, rfl, within, ends max_part_id top bottom⟩

variable {constCompare nullsMinimal partKeyValue}

/-- The search finds the partition where the signs cross, or that there is none. -/
theorem rangePartitionSeq_spec (present : map.rangeElements ≠ [])
    (cross : SignsCross (map.sign constCompare nullsMinimal partKeyValue)
      map.rangeElements.length) :
    (∃ hit : Nat, rangePartitionSeq constCompare nullsMinimal map partKeyValue topClosed =
        some (.ok hit) ∧ hit < map.rangeElements.length ∧
      IsCrossing (map.sign constCompare nullsMinimal partKeyValue) topClosed hit) ∨
    rangePartitionSeq constCompare nullsMinimal map partKeyValue topClosed = some (.ok (-1)) ∧
      ∀ index < map.rangeElements.length,
        ¬IsCrossing (map.sign constCompare nullsMinimal partKeyValue) topClosed index := by
  have positive := List.length_pos_of_ne_nil present
  have last : map.rangeElements.length - 1 < map.rangeElements.length := by omega
  have below (index : Nat) (within : index < map.rangeElements.length)
      (notBehind : map.sign constCompare nullsMinimal partKeyValue index ≤ 0)
      (other : index ≠ map.rangeElements.length - 1) :=
    cross index (map.rangeElements.length - 1) (by omega) last notBehind
  rw [rangePartitionSeq]
  rw [map.compare_eq constCompare nullsMinimal partKeyValue columns _ last]
  dsimp only
  by_cases equal : map.sign constCompare nullsMinimal partKeyValue
      (map.rangeElements.length - 1) = 0
  · rw [if_pos equal]
    cases topClosed
    · left
      refine ⟨map.rangeElements.length - 1, rfl, last, ?_, Int.le_of_eq equal⟩
      intro behind
      by_contra notBefore
      have negative := below (map.rangeElements.length - 1 - 1) (by omega)
        (Int.not_lt.mp notBefore) (by lia)
      omega
    · right
      refine ⟨rfl, ?_⟩
      intro index within crossing
      have negative : map.sign constCompare nullsMinimal partKeyValue index < 0 := crossing.2
      by_cases same : index = map.rangeElements.length - 1
      · rw [same] at negative
        omega
      · have later := below index within (Int.le_of_lt negative) same
        omega
  · rw [if_neg equal]
    by_cases greater : 0 < map.sign constCompare nullsMinimal partKeyValue
        (map.rangeElements.length - 1)
    · right
      rw [if_pos greater]
      refine ⟨rfl, ?_⟩
      intro index within crossing
      have notBehind : map.sign constCompare nullsMinimal partKeyValue index ≤ 0 := by
        have top := crossing.2
        cases topClosed
        · exact top
        · exact Int.le_of_lt top
      by_cases same : index = map.rangeElements.length - 1
      · rw [same] at notBehind
        omega
      · have later := below index within notBehind same
        omega
    · left
      rw [if_neg greater]
      exact semiSeek_spec constCompare nullsMinimal map partKeyValue topClosed columns cross _ 0 _ _
        (Nat.zero_le _) last (Nat.le_refl _) (by omega) (fun none => absurd none (Nat.lt_irrefl 0))

/-- The check of one partition is right. -/
theorem isPartKeyValuesInPartition_eq
    (valid : IsComparison (keyOrder constCompare nullsMinimal map.collations)) (index : Nat)
    (within : index < map.rangeElements.length) :
    ∃ accepted, isPartKeyValuesInPartition constCompare nullsMinimal map partKeyValue index =
        .ok accepted ∧
      (accepted = true ↔ map.Contains constCompare nullsMinimal partKeyValue true index) := by
  rw [map.contains_iff constCompare nullsMinimal partKeyValue true valid, isPartKeyValuesInPartition]
  by_cases first : index = 0
  · subst first
    rw [map.compare_eq constCompare nullsMinimal partKeyValue columns 0 within]
    refine ⟨_, rfl, ?_⟩
    rw [decide_eq_true_eq]
    exact ⟨fun top => ⟨within, fun none => absurd none (Nat.lt_irrefl 0), top⟩,
      fun crossing => crossing.2.2⟩
  · rw [if_neg first, map.compare_eq constCompare nullsMinimal partKeyValue columns _ (by omega),
      map.compare_eq constCompare nullsMinimal partKeyValue columns _ within]
    refine ⟨_, rfl, ?_⟩
    rw [Bool.and_eq_true, decide_eq_true_eq, decide_eq_true_eq]
    exact ⟨fun both => ⟨within, fun _ => both.1, both.2⟩,
      fun crossing => ⟨crossing.2.1 (by omega), crossing.2.2⟩⟩

end

end Correctness

/-- Every key is routed to the one partition between whose boundaries it is, or to none if there is
no such partition. Where the upper boundary is excluded, this is the one partition for which the test
of two boundaries accepts the key. -/
theorem range_routing_is_unique (constCompare : V → V → Nat → Int)
    (valid : ∀ collation, IsComparison fun value other => constCompare value other collation)
    (nullsMinimal : Bool) (map : RangePartitionMap V) (present : map.rangeElements ≠ [])
    (increasing : map.Increasing constCompare nullsMinimal) (partKeyValue : List (Option (Const V)))
    (columns : partKeyValue.length = map.collations.length) (topClosed : Bool) :
    ∃ hit : Int, getRangePartitionOid constCompare nullsMinimal map partKeyValue topClosed =
        some (.ok (map.oidOf hit, hit)) ∧ (∀ index : Nat, hit = index ↔
        map.Contains constCompare nullsMinimal partKeyValue topClosed index) ∧
      (hit = -1 ↔ ∀ index, ¬map.Contains constCompare nullsMinimal partKeyValue topClosed index) ∧
      (topClosed = true → ∀ index < map.rangeElements.length, (hit = index ↔
          isPartKeyValuesInPartition constCompare nullsMinimal map partKeyValue index = .ok true ∧
          ∀ other < map.rangeElements.length, other ≠ index →
            isPartKeyValuesInPartition constCompare nullsMinimal map partKeyValue other =
              .ok false)) := by
  have order := keyOrder_isComparison constCompare nullsMinimal map.collations valid
  have cross : SignsCross (map.sign constCompare nullsMinimal partKeyValue)
      map.rangeElements.length :=
    order.signsCross _ increasing partKeyValue
  have contains := map.contains_iff constCompare nullsMinimal partKeyValue topClosed order
  have only (index other : Nat)
      (here : map.Contains constCompare nullsMinimal partKeyValue topClosed index)
      (there : map.Contains constCompare nullsMinimal partKeyValue topClosed other) :
      index = other := by
    rw [contains] at here there
    exact cross.unique here.1 there.1 here.2 there.2
  have found : ∃ hit : Int,
      rangePartitionSeq constCompare nullsMinimal map partKeyValue topClosed = some (.ok hit) ∧
      (∀ index : Nat, hit = index ↔
        map.Contains constCompare nullsMinimal partKeyValue topClosed index) ∧
      (hit = -1 ↔
        ∀ index, ¬map.Contains constCompare nullsMinimal partKeyValue topClosed index) := by
    rcases rangePartitionSeq_spec map topClosed columns present
      cross with ⟨hit, result, within, crossing⟩ | ⟨result, nowhere⟩
    · have here := (contains hit).mpr ⟨within, crossing⟩
      refine ⟨hit, result, ?_, ?_⟩
      · intro index
        constructor
        · intro same
          rw [← Int.ofNat.inj same]
          exact here
        · intro there
          rw [only hit index here there]
      · exact ⟨fun negative => by omega, fun nowhere => absurd here (nowhere hit)⟩
    · have none (index : Nat) :
          ¬map.Contains constCompare nullsMinimal partKeyValue topClosed index := by
        rw [contains]
        exact fun here => nowhere index here.1 here.2
      exact ⟨-1, result, fun index => ⟨fun same => by omega, fun here => absurd here (none index)⟩,
        fun _ => none, fun _ => rfl⟩
  obtain ⟨hit, result, isHit, isNone⟩ := found
  refine ⟨hit, ?_, isHit, isNone, ?_⟩
  · rw [getRangePartitionOid, result]
    rfl
  · intro closed index within
    subst closed
    have test := isPartKeyValuesInPartition_eq map columns order
    obtain ⟨accepted, isAccepted, accepts⟩ := test index within
    rw [isHit, ← accepts, isAccepted, Except.ok.injEq]
    refine ⟨fun here => ⟨here, ?_⟩, And.left⟩
    intro other otherWithin differs
    obtain ⟨otherAccepted, isOther, otherAccepts⟩ := test other otherWithin
    rw [isOther, Except.ok.injEq, ← Bool.not_eq_true, otherAccepts]
    exact fun there => differs (only other index there (accepts.mp here))

/-- Two columns of integers with three partitions, the last two with `MAXVALUE`. -/
def threePartitions : RangePartitionMap Int where
  collations := [100, 100]
  columns := by decide
  rangeElements := [[some 1, some 10], [some 1, none], [none, none]].zipIdx.map fun part =>
    ⟨part.2 + 16384, unserializePartitionStringAttribute [100, 100] part.1⟩
  stored := by
    intro element member
    obtain ⟨part, isPart, rfl⟩ := List.mem_map.mp member
    have all : ∀ part ∈ [[some 1, some 10], [some (1 : Int), none], [none, none]].zipIdx,
        part.1.length = 2 := by decide
    exact ⟨part.1, all part isPart, rfl⟩

theorem difference_isComparison : IsComparison fun value other : Int => value - other where
  swap first second := by omega
  trans first second third left right := by omega

theorem threePartitions_increasing :
    threePartitions.Increasing (fun value other _ => value - other) false := by
  intro index later before within
  have few : later < 3 := within
  have all : ∀ later : Fin 3, ∀ index : Fin 3, index < later →
      keyOrder (fun value other _ => value - other) false threePartitions.collations
        (threePartitions.boundary index) (threePartitions.boundary later) < 0 := by decide
  exact all ⟨later, few⟩ ⟨index, by omega⟩ before

/-- A null in the second column of a key belongs to the second partition if nulls are the largest
values. -/
theorem range_routing_is_unique_null :
    ∃ hit : Int, getRangePartitionOid (fun value other _ => value - other) false threePartitions
      [some (makeConst 100 1), some ⟨false, 100, none⟩] true =
        some (.ok (threePartitions.oidOf hit, hit)) ∧ hit = 1 := by
  have ⟨hit, result, isHit, _⟩ := range_routing_is_unique (fun value other _ => value - other)
    (fun _ => difference_isComparison) false threePartitions (by decide) threePartitions_increasing
    [some (makeConst 100 1), some ⟨false, 100, none⟩] rfl true
  refine ⟨hit, result, (isHit 1).mpr ⟨by decide, ?_, ?_⟩⟩
  · decide
  · decide

/-- Keys in order that have partitions are routed to partitions in order. -/
theorem range_routing_keeps_order (constCompare : V → V → Nat → Int)
    (valid : ∀ collation, IsComparison fun value other => constCompare value other collation)
    (nullsMinimal : Bool) (map : RangePartitionMap V) (present : map.rangeElements ≠ [])
    (increasing : map.Increasing constCompare nullsMinimal) (topClosed : Bool)
    (lower upper : List (Option (Const V))) (columns : lower.length = map.collations.length)
    (upperColumns : upper.length = map.collations.length)
    (ordered : keyOrder constCompare nullsMinimal map.collations lower upper ≤ 0) (first second : Nat)
    (isFirst : rangePartitionSeq constCompare nullsMinimal map lower topClosed = some (.ok first))
    (isSecond : rangePartitionSeq constCompare nullsMinimal map upper topClosed =
      some (.ok second)) : first ≤ second := by
  have order := keyOrder_isComparison constCompare nullsMinimal map.collations valid
  have cross (key : List (Option (Const V))) :
      SignsCross (map.sign constCompare nullsMinimal key) map.rangeElements.length :=
    order.signsCross _ increasing key
  have found (key : List (Option (Const V))) (columns : key.length = map.collations.length)
      (index : Nat) (result : rangePartitionSeq constCompare nullsMinimal map key topClosed =
        some (.ok index)) : index < map.rangeElements.length ∧
      IsCrossing (map.sign constCompare nullsMinimal key) topClosed index := by
    rcases rangePartitionSeq_spec map topClosed columns present
      (cross key) with ⟨hit, isHit, here⟩ | ⟨none, -⟩
    · rw [result, Option.some.injEq, Except.ok.injEq, Int.natCast_inj] at isHit
      exact isHit ▸ here
    · rw [result, Option.some.injEq, Except.ok.injEq] at none
      omega
  obtain ⟨within, bottom, -⟩ := found lower columns first isFirst
  obtain ⟨-, -, top⟩ := found upper upperColumns second isSecond
  by_contra behind
  -- The boundary in front of the first partition is not below the smaller key, nor the larger one.
  have later := cross upper second (first - 1)
  have same : second = first - 1 ∨ second < first - 1 := by omega
  have through := order.trans lower upper (map.boundary (first - 1)) ordered
  have strictly := order.lt_of_le_of_lt _ lower upper (map.boundary (first - 1)) ordered
  simp only [RangePartitionMap.sign] at bottom top later
  cases topClosed
  · simp only [Bool.false_eq_true, if_false] at bottom top
    rcases same with rfl | before <;> omega
  · simp only [if_true] at bottom top
    rcases same with rfl | before <;> omega

/-- A key in the second partition and a larger one in the third. -/
theorem range_routing_keeps_order_later :
    ∃ hit : Nat, rangePartitionSeq (fun value other _ => value - other) false threePartitions
      [some (makeConst 100 2), some (makeConst 100 0)] true = some (.ok hit) ∧ 1 ≤ hit :=
  ⟨2, by decide, range_routing_keeps_order (fun value other _ => value - other)
    (fun _ => difference_isComparison) false threePartitions (by decide) threePartitions_increasing true
    [some (makeConst 100 1), some ⟨false, 100, none⟩] [some (makeConst 100 2), some (makeConst 100 0)]
    rfl rfl (by decide) 1 2 (by decide) (by decide)⟩

end OpenGauss.Partition
