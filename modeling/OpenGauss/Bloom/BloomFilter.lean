import Mathlib.Data.List.Basic
import Mathlib.Order.Basic
import Mathlib.Tactic.Common

/-!
# Bloom filters over integers

A filter sets a few bits for each value, at positions computed from a hash with wrapping signed
arithmetic, and answers whether all bits of a value are set. When it keeps the smallest and the
largest value and exactly one value was added, it answers by comparing with that value instead.
Uniting two filters joins their bits and nothing else. This module embeds the filter with its
serialised form, says which bits are set after any sequence of operations, and derives when a
lookup finds every value.
-/
namespace OpenGauss.Bloom

open List

/-- `MAX_HASH_FUNCTIONS`. -/
def maxHashFunctions : Nat := 4

/-- `MAX_ENTRIES`. -/
def maxEntries : Nat := 10000000

/-- `STARTUP_ENTRIES`. -/
def startupEntriesBound : Nat := 500

/-- The integer types a filter can be for. -/
inductive IntType
  | int2
  | int4
  | int8
  deriving DecidableEq, Repr

/-- A `Datum`, or an `int64`. -/
abbrev Word := BitVec 64

/-- `BloomFilterImpl<int64>::datumToValue`. -/
def datumToValue (dataType : IntType) (datum : Word) : Word :=
  match dataType with
  | .int2 => (datum.setWidth 16).signExtend 64
  | .int4 => (datum.setWidth 32).signExtend 64
  | .int8 => datum

/-- `BitSet::get`. The shift of a 64-bit number uses the low six bits of the index. -/
def bitGet (data : Nat → Word) (index : Nat) : Bool := (data (index / 64)).getLsbD (index % 64)

/-- `BitSet::set`. -/
def bitSet (data : Nat → Word) (index : Nat) : Nat → Word := fun word =>
  if word = index / 64 then data word ||| BitVec.twoPow 64 (index % 64) else data word

/-- `BloomFilterImpl::getLongHash`, with signed right shifts. -/
def getLongHash (key : Word) : Word :=
  let key := ~~~key + (key <<< 21)
  let key := key ^^^ key.sshiftRight 24
  let key := (key + (key <<< 3)) + (key <<< 8)
  let key := key ^^^ key.sshiftRight 14
  let key := (key + (key <<< 2)) + (key <<< 4)
  let key := key ^^^ key.sshiftRight 28
  key + (key <<< 31)

/-- The position of a hash for one of the hash functions. -/
def position (numBits : Nat) (hash64 : Word) (function : Nat) : Nat :=
  let hash1 := hash64.setWidth 32
  let hash2 := (hash64 >>> 32).setWidth 32
  let combinedHash : BitVec 32 := hash1 + BitVec.ofNat 32 function * hash2
  let combinedHash := if combinedHash.msb then ~~~combinedHash else combinedHash
  combinedHash.toNat % numBits

/-- What the constructor is called with and computes by floating-point arithmetic. -/
structure BloomConfig where
  dataType : IntType
  expectedEntries : Nat
  /-- Whether the smallest and the largest value are kept. -/
  addMinMax : Bool
  /-- What `optimalNumOfBits` returns. -/
  optimalNumOfBits : Nat
  /-- What `optimalNumOfHashFunctions` returns. -/
  numHashFunctions : Nat
  entries : 0 < expectedEntries ∧ expectedEntries < maxEntries
  some : 1 ≤ numHashFunctions
  few : numHashFunctions ≤ maxHashFunctions

/-- `BloomFilterImpl<int64>`. -/
structure BloomFilter where
  dataType : IntType
  numBits : Nat
  numHashFunctions : Nat
  length : Nat
  data : Nat → Word
  numValues : Nat
  maxNumValues : Nat
  /-- How many values `valuePositions` has room for. -/
  startupEntries : Nat
  valuePositions : Nat → Nat → BitVec 16
  /-- Whether the smallest and the largest value are kept. -/
  addMinMax : Bool
  hasMM : Bool
  minValue : Word
  maxValue : Word

/-- The number of bits: the next multiple of 64 behind the computed one. -/
def BloomConfig.numBits (config : BloomConfig) : Nat :=
  config.optimalNumOfBits + (64 - config.optimalNumOfBits % 64)

/-- The constructor. -/
def newBloomFilter (config : BloomConfig) : BloomFilter :=
  { dataType := config.dataType
    numBits := config.numBits
    numHashFunctions := config.numHashFunctions
    length := config.numBits / 64 + if config.numBits % 64 = 0 then 0 else 1
    data := fun _ => 0
    numValues := 0
    maxNumValues := config.expectedEntries
    startupEntries := min config.expectedEntries startupEntriesBound
    valuePositions := fun _ _ => 0
    addMinMax := config.addMinMax
    hasMM := false
    minValue := 0
    maxValue := 0 }

/-- `BloomFilterImpl::setMinMax`. -/
def setMinMax (filter : BloomFilter) (value : Word) : BloomFilter :=
  if filter.hasMM = false then { filter with minValue := value, maxValue := value, hasMM := true }
  else if value.toInt < filter.minValue.toInt then { filter with minValue := value }
  else if filter.maxValue.toInt < value.toInt then { filter with maxValue := value }
  else filter

/-- The positions of a hash for all hash functions, in the order they are set. -/
def positions (filter : BloomFilter) (hash64 : Word) : List Nat :=
  (List.range filter.numHashFunctions).map fun index =>
    position filter.numBits hash64 (index + 1)

/-- `BloomFilterImpl::addHash`; a filter that is full reports an error. -/
def addHash (filter : BloomFilter) (hash64 : Word) : Option BloomFilter :=
  if filter.maxNumValues ≤ filter.numValues then none
  else
    some { filter with
      startupEntries :=
        if filter.startupEntries ≤ filter.numValues then
          min (filter.startupEntries * 2) filter.maxNumValues
        else filter.startupEntries
      data := (positions filter hash64).foldl bitSet filter.data
      valuePositions := fun value function =>
        if value = filter.numValues ∧ function < filter.numHashFunctions then
          BitVec.ofNat 16 (position filter.numBits hash64 (function + 1))
        else filter.valuePositions value function
      numValues := filter.numValues + 1 }

/-- `BloomFilterImpl<int64>::addLong`. -/
def addLong (filter : BloomFilter) (value : Word) : Option BloomFilter :=
  addHash (if filter.addMinMax then setMinMax filter value else filter) (getLongHash value)

/-- `BloomFilterImpl<int64>::addDatum`. -/
def addDatum (filter : BloomFilter) (datum : Word) : Option BloomFilter :=
  addLong filter (datumToValue filter.dataType datum)

/-- `BloomFilterImpl::includeHashInternal`. -/
def includeHashInternal (filter : BloomFilter) (hash64 : Word) : Bool :=
  (positions filter hash64).all (bitGet filter.data)

/-- `BloomFilterImpl<int64>::includeLong`. -/
def includeLong (filter : BloomFilter) (value : Word) : Bool :=
  if filter.addMinMax ∧ filter.numValues = 1 then value == filter.minValue
  else includeHashInternal filter (getLongHash value)

/-- `BloomFilterImpl<int64>::includeDatum`. -/
def includeDatum (filter : BloomFilter) (datum : Word) : Bool :=
  includeLong filter (datumToValue filter.dataType datum)

/-- `BloomFilterImpl::unionAll`; filters that are not compatible are an error. -/
def unionAll (filter that : BloomFilter) : Option BloomFilter :=
  if filter.numBits = that.numBits ∧ filter.numHashFunctions = that.numHashFunctions then
    some { filter with data := fun word =>
      if word < filter.length then filter.data word ||| that.data word else filter.data word }
  else none

/-- `makeBloomFilterSet`: the words and positions that are copied; the other fields of the
serialised form have the filter's values. -/
def makeBloomFilterSet (filter : BloomFilter) : BloomFilter :=
  { filter with
    data := fun word => if word < filter.length then filter.data word else 0
    valuePositions := fun value function =>
      if value < filter.startupEntries ∧ function < maxHashFunctions then
        filter.valuePositions value function
      else 0 }

/-- `rebuildBloomFilterValue`: the words are taken over and the positions copied again. -/
def rebuildBloomFilterValue (filterSet : BloomFilter) : BloomFilter :=
  { filterSet with
    valuePositions := fun value function =>
      if value < filterSet.startupEntries ∧ function < maxHashFunctions then
        filterSet.valuePositions value function
      else 0 }

/-- The filters that are built by adding values, uniting filters and rebuilding them, with the
values added to the filter itself, and with all values added to it or to a filter united into
it. -/
inductive Built : BloomFilter → List Word → List Word → Prop
  | new (config : BloomConfig) : Built (newBloomFilter config) [] []
  | add (filter after : BloomFilter) (own all : List Word) (datum : Word)
      (built : Built filter own all) (done : addDatum filter datum = some after) :
      Built after (own ++ [datumToValue filter.dataType datum])
        (all ++ [datumToValue filter.dataType datum])
  | union (filter that after : BloomFilter) (own all own' all' : List Word)
      (built : Built filter own all) (built' : Built that own' all')
      (done : unionAll filter that = some after) : Built after own (all ++ all')
  | rebuild (filter : BloomFilter) (own all : List Word) (built : Built filter own all) :
      Built (rebuildBloomFilterValue (makeBloomFilterSet filter)) own all

theorem bitGet_bitSet (data : Nat → Word) (index other : Nat) :
    bitGet (bitSet data index) other = (bitGet data other || decide (other = index)) := by
  rw [bitGet, bitSet, bitGet]
  by_cases word : other / 64 = index / 64
  · rw [if_pos word]
    have bit : index % 64 < 64 := Nat.mod_lt _ (by decide)
    have same : index % 64 = other % 64 ↔ other = index := by
      lia
    simp [bit, same]
  · rw [if_neg word]
    have differ : ¬other = index := fun same => word (by rw [same])
    simp [differ]

theorem bitGet_foldl_bitSet (indices : List Nat) (data : Nat → Word) (other : Nat) :
    bitGet (indices.foldl bitSet data) other = true ↔
      bitGet data other = true ∨ other ∈ indices := by
  induction indices generalizing data with
  | nil => simp
  | cons index rest ih =>
    rw [foldl_cons, ih, bitGet_bitSet]
    simp [or_assoc]

theorem bitGet_or (first second : Nat → Word) (length other : Nat) (inside : other < 64 * length) :
    bitGet (fun word => if word < length then first word ||| second word else first word) other =
      (bitGet first other || bitGet second other) := by
  have word : other / 64 < length := by
    lia
  simp only [bitGet, if_pos word, BitVec.getLsbD_or]

/-- The smallest and the largest of the values. -/
structure MinMax (values : List Word) (minValue maxValue : Word) : Prop where
  minMem : minValue ∈ values
  maxMem : maxValue ∈ values
  minLe : ∀ value ∈ values, minValue.toInt ≤ value.toInt
  leMax : ∀ value ∈ values, value.toInt ≤ maxValue.toInt

/-- What holds of a filter that was built with the given values. -/
structure BuiltOk (filter : BloomFilter) (own all : List Word) : Prop where
  length : filter.numBits = 64 * filter.length
  positive : 0 < filter.numBits
  functions : 1 ≤ filter.numHashFunctions
  few : filter.numHashFunctions ≤ maxHashFunctions
  count : filter.numValues = own.length
  room : filter.numValues ≤ filter.startupEntries ∧ 1 ≤ filter.startupEntries
  bits : ∀ index < filter.numBits, bitGet filter.data index = true ↔
    ∃ value ∈ all, index ∈ positions filter (getLongHash value)
  stored : ∀ index (inside : index < own.length), ∀ function < filter.numHashFunctions,
    filter.valuePositions index function =
      BitVec.ofNat 16 (position filter.numBits (getLongHash own[index]) (function + 1))
  hasMM : filter.hasMM = true ↔ filter.addMinMax = true ∧ own ≠ []
  minMax : filter.hasMM = true → MinMax own filter.minValue filter.maxValue

variable (config : BloomConfig) (filter : BloomFilter) (own all : List Word)

/-- A new filter is built of nothing. -/
theorem newBloomFilter_ok : BuiltOk (newBloomFilter config) [] [] := by
  have bits : config.numBits % 64 = 0 := by
    rw [BloomConfig.numBits]
    lia
  refine
    { length := ?length
      positive := ?positive
      functions := config.some
      few := config.few
      count := rfl
      room := ?room
      bits := ?bits
      stored := fun _ inside => absurd inside (Nat.not_lt_zero _)
      hasMM := by simp [newBloomFilter]
      minMax := fun has => nomatch has }
  case length =>
    simp only [newBloomFilter]
    lia
  case positive =>
    simp only [newBloomFilter, BloomConfig.numBits]
    grind
  case room =>
    have entries := config.entries
    simp only [newBloomFilter, startupEntriesBound]
    lia
  case bits =>
    intro index _
    simp [newBloomFilter, bitGet]

/-- A value added keeps the least and the largest one. -/
theorem setMinMax_minMax {own : List Word} (value : Word)
    (has : filter.hasMM = true ↔ filter.addMinMax = true ∧ own ≠ [])
    (minMax : filter.hasMM = true → MinMax own filter.minValue filter.maxValue)
    (tracks : filter.addMinMax = true) : (setMinMax filter value).hasMM = true ∧
      MinMax (own ++ [value]) (setMinMax filter value).minValue
        (setMinMax filter value).maxValue := by
  rw [setMinMax]
  by_cases first : filter.hasMM = false
  · rw [if_pos first]
    have empty : own = [] := by
      by_contra some
      rw [has.mpr ⟨tracks, some⟩] at first
      exact nomatch first
    rw [empty]
    refine ⟨rfl, ⟨by simp, by simp, ?_, ?_⟩⟩ <;> intro other member <;>
      rw [nil_append, mem_singleton] at member <;> rewrite [member] <;> exact Int.le_refl _
  · rw [if_neg first]
    rw [Bool.not_eq_false] at first
    have before := minMax first
    have widen (low high : Word) (lowMem : low ∈ own ++ [value]) (highMem : high ∈ own ++ [value])
        (lowOld : low.toInt ≤ filter.minValue.toInt) (lowNew : low.toInt ≤ value.toInt)
        (highOld : filter.maxValue.toInt ≤ high.toInt) (highNew : value.toInt ≤ high.toInt) :
        MinMax (own ++ [value]) low high := by
      refine ⟨lowMem, highMem, ?_, ?_⟩
      · intro other member
        rcases mem_append.mp member with old | new
        · exact Int.le_trans lowOld (before.minLe other old)
        · rw [mem_singleton.mp new]
          exact lowNew
      · intro other member
        rcases mem_append.mp member with old | new
        · exact Int.le_trans (before.leMax other old) highOld
        · rw [mem_singleton.mp new]
          exact highNew
    have minMem : filter.minValue ∈ own ++ [value] := mem_append_left _ before.minMem
    have maxMem : filter.maxValue ∈ own ++ [value] := mem_append_left _ before.maxMem
    have newMem : value ∈ own ++ [value] := mem_append_right _ (mem_singleton.mpr rfl)
    have order := before.minLe _ before.maxMem
    split
    · exact ⟨first, widen value filter.maxValue newMem maxMem (by omega) (Int.le_refl _) (Int.le_refl _) (by omega)⟩
    · split
      · exact ⟨first, widen filter.minValue value minMem newMem (Int.le_refl _) (by omega) (by omega) (Int.le_refl _)⟩
      · exact ⟨first, widen filter.minValue filter.maxValue minMem maxMem (Int.le_refl _) (by omega) (Int.le_refl _)
          (by omega)⟩

theorem setMinMax_eq (value : Word) :
    setMinMax filter value = { filter with
      minValue := (setMinMax filter value).minValue
      maxValue := (setMinMax filter value).maxValue
      hasMM := (setMinMax filter value).hasMM } := by
  rw [setMinMax]
  split_ifs <;> rfl

theorem positions_lt (positive : 0 < filter.numBits) {hash64 : Word}
    {index : Nat} (member : index ∈ positions filter hash64) : index < filter.numBits := by
  obtain ⟨function, -, same⟩ := mem_map.mp member
  rw [← same]
  exact Nat.mod_lt _ positive

/-- Setting the bits of a value adds it. -/
theorem BuiltOk.addHash {filter after : BloomFilter} {own all : List Word}
    (ok : BuiltOk filter own all) {value minValue maxValue : Word} {hasMM : Bool}
    (done : addHash { filter with minValue, maxValue, hasMM } (getLongHash value) = some after)
    (has : hasMM = filter.addMinMax)
    (minMax : hasMM = true → MinMax (own ++ [value]) minValue maxValue) :
    BuiltOk after (own ++ [value]) (all ++ [value]) := by
  simp only [Bloom.addHash] at done
  split at done
  · exact nomatch done
  rename_i space
  rw [Option.some.injEq] at done
  subst done
  refine
    { length := ok.length
      positive := ok.positive
      functions := ok.functions
      few := ok.few
      count := by simp [ok.count]
      room := ?room
      bits := ?bits
      stored := ?stored
      hasMM := by simp [has]
      minMax := minMax }
  case room =>
    obtain ⟨enough, one⟩ := ok.room
    dsimp only at space ⊢
    split <;> omega
  case bits =>
    intro index inside
    have before := ok.bits index inside
    rw [bitGet_foldl_bitSet, before]
    constructor
    · rintro (⟨other, old, here⟩ | here)
      · exact ⟨other, mem_append_left _ old, here⟩
      · exact ⟨value, mem_append_right _ (mem_singleton.mpr rfl), here⟩
    · rintro ⟨other, member, here⟩
      rcases mem_append.mp member with old | new
      · exact .inl ⟨other, old, here⟩
      · rw [mem_singleton.mp new] at here
        exact .inr here
  case stored =>
    intro index inside function small
    dsimp only at small ⊢
    rw [ok.count]
    by_cases last : index = own.length
    · subst last
      rw [if_pos ⟨rfl, small⟩, getElem_concat_length rfl]
    · have old : index < own.length := by
        rw [length_append, length_singleton] at inside
        omega
      rw [if_neg (fun both => last both.1), getElem_append_left old]
      exact ok.stored index old function small

/-- Adding a datum adds its value. -/
theorem BuiltOk.addDatum {filter after : BloomFilter} {own all : List Word}
    (ok : BuiltOk filter own all) {datum : Word} (done : addDatum filter datum = some after) :
    BuiltOk after (own ++ [datumToValue filter.dataType datum])
      (all ++ [datumToValue filter.dataType datum]) := by
  rw [Bloom.addDatum, addLong] at done
  generalize datumToValue filter.dataType datum = value at done ⊢
  by_cases tracks : filter.addMinMax = true
  · rw [if_pos tracks, setMinMax_eq] at done
    obtain ⟨has, minMax⟩ := setMinMax_minMax filter value ok.hasMM ok.minMax tracks
    exact ok.addHash done (has.trans tracks.symm) (fun _ => minMax)
  · have none : filter.hasMM = false := by
      rw [Bool.eq_false_iff]
      exact fun has => tracks (ok.hasMM.mp has).1
    rw [if_neg tracks] at done
    apply ok.addHash done
    · rw [none]
      exact (Bool.eq_false_iff.mpr tracks).symm
    · intro has
      rw [none] at has
      exact nomatch has

/-- A union has the values of both. -/
theorem BuiltOk.unionAll {filter that after : BloomFilter} {own all own' all' : List Word}
    (ok : BuiltOk filter own all) (ok' : BuiltOk that own' all')
    (done : unionAll filter that = some after) : BuiltOk after own (all ++ all') := by
  simp only [Bloom.unionAll] at done
  split at done
  · rename_i compatible
    rw [Option.some.injEq] at done
    subst done
    refine
      { length := ok.length
        positive := ok.positive
        functions := ok.functions
        few := ok.few
        count := ok.count
        room := ok.room
        bits := ?bits
        stored := ok.stored
        hasMM := ok.hasMM
        minMax := ok.minMax }
    intro index inside
    have inside' : index < that.numBits := by
      rw [← compatible.1]
      exact inside
    have same (value : Word) : positions that (getLongHash value) =
        positions filter (getLongHash value) := by
      rw [positions, positions, compatible.1, compatible.2]
    have joined := bitGet_or filter.data that.data filter.length index (by
      rw [← ok.length]
      exact inside)
    rw [joined, Bool.or_eq_true, ok.bits index inside, ok'.bits index inside']
    constructor
    · rintro (⟨value, member, here⟩ | ⟨value, member, here⟩)
      · exact ⟨value, mem_append_left _ member, here⟩
      · rw [same] at here
        exact ⟨value, mem_append_right _ member, here⟩
    · rintro ⟨value, member, here⟩
      rcases mem_append.mp member with first | second
      · exact .inl ⟨value, first, here⟩
      · refine .inr ⟨value, second, ?_⟩
        rw [same]
        exact here
  · exact nomatch done

/-- A rebuilt filter has the same values. -/
theorem BuiltOk.rebuild (ok : BuiltOk filter own all) :
    BuiltOk (rebuildBloomFilterValue (makeBloomFilterSet filter)) own all := by
  refine
    { length := ok.length
      positive := ok.positive
      functions := ok.functions
      few := ok.few
      count := ok.count
      room := ok.room
      bits := ?bits
      stored := ?stored
      hasMM := ok.hasMM
      minMax := ok.minMax }
  case bits =>
    intro index inside
    have word : index / 64 < filter.length := by
      have length := ok.length
      have bound : index < filter.numBits := inside
      lia
    have copied : bitGet (rebuildBloomFilterValue (makeBloomFilterSet filter)).data index =
        bitGet filter.data index := by
      simp only [bitGet, rebuildBloomFilterValue, makeBloomFilterSet, if_pos word]
    rw [copied]
    exact ok.bits index inside
  case stored =>
    intro index inside function small
    have entry : index < filter.startupEntries := by
      have room := ok.room.1
      rw [ok.count] at room
      omega
    have some : function < maxHashFunctions := Nat.lt_of_lt_of_le small ok.few
    have copied : (rebuildBloomFilterValue (makeBloomFilterSet filter)).valuePositions index
        function = filter.valuePositions index function := by
      simp [rebuildBloomFilterValue, makeBloomFilterSet, entry, some]
    rw [copied]
    exact ok.stored index inside function small

theorem Built.ok {filter : BloomFilter} {own all : List Word} (built : Built filter own all) :
    BuiltOk filter own all := by
  induction built with
  | new config => exact newBloomFilter_ok config
  | add filter after own all datum _ done ih => exact ih.addDatum done
  | union filter that after own all own' all' _ _ done ih ih' =>
    exact ih.unionAll ih' done
  | rebuild filter own all _ ih => exact ih.rebuild filter own all

theorem BuiltOk.includes (ok : BuiltOk filter own all) {value : Word} (member : value ∈ all) :
    includeHashInternal filter (getLongHash value) = true := by
  rw [includeHashInternal, all_eq_true]
  intro index here
  exact (ok.bits index (positions_lt filter ok.positive here)).mpr ⟨value, member, here⟩

/-- A lookup finds a value that was added to the filter, or to a filter united into it, exactly
when the filter does not answer from its smallest value, or the value is that one: the smallest
and the largest value are not kept, or not exactly one value was added to the filter itself, or the
value is that one. -/
theorem bloom_filter_finds_added_value (filter : BloomFilter) (own all : List Word)
    (built : Built filter own all) (datum : Word)
    (added : datumToValue filter.dataType datum ∈ all) : includeDatum filter datum = true ↔
      filter.addMinMax = false ∨ own.length ≠ 1 ∨ own = [datumToValue filter.dataType datum] := by
  have ok := built.ok
  rw [includeDatum, includeLong]
  generalize datumToValue filter.dataType datum = value at added ⊢
  by_cases shortcut : filter.addMinMax = true ∧ filter.numValues = 1
  · rw [if_pos shortcut, beq_iff_eq]
    have single := shortcut.2
    rw [ok.count] at single
    obtain ⟨only, one⟩ := length_eq_one_iff.mp single
    have has := ok.hasMM.mpr ⟨shortcut.1, by rw [one]; simp⟩
    have smallest := (ok.minMax has).minMem
    rw [one, mem_singleton] at smallest
    rw [smallest, one]
    simp [shortcut.1, eq_comm]
  · rw [if_neg shortcut]
    have found := ok.includes filter own all added
    refine ⟨fun _ => ?_, fun _ => found⟩
    by_cases tracks : filter.addMinMax = true
    · right
      left
      rw [← ok.count]
      exact fun one => shortcut ⟨tracks, one⟩
    · left
      exact Bool.eq_false_iff.mpr tracks

/-- The filter for a hundred values that keeps the smallest and the largest one. -/
def hundredValues : BloomConfig :=
  { dataType := .int8
    expectedEntries := 100
    addMinMax := true
    optimalNumOfBits := 623
    numHashFunctions := 4
    entries := by decide
    some := by decide
    few := by decide }

theorem built_one (datum : Word) {filter : BloomFilter}
    (added : addDatum (newBloomFilter hundredValues) datum = some filter) :
    Built filter [datum] [datum] :=
  Built.add _ filter [] [] datum (Built.new hundredValues) added

/-- A filter with the values 5 and 7 finds the value of a filter that is united into it. -/
theorem bloom_filter_finds_added_value_united : ∃ one filter that united,
    addDatum (newBloomFilter hundredValues) 5 = some one ∧ addDatum one 7 = some filter ∧
      addDatum (newBloomFilter hundredValues) 9 = some that ∧
      unionAll filter that = some united ∧ includeDatum united 9 = true := by
  refine ⟨_, _, _, _, rfl, rfl, rfl, rfl, ?_⟩
  refine (bloom_filter_finds_added_value _ [5, 7] [5, 7, 9] ?_ 9 ?_).mpr (.inr (.inl (by decide)))
  · exact Built.union _ _ _ [5, 7] [5, 7] [9] [9]
      (Built.add _ _ [5] [5] 7 (built_one 5 rfl) rfl) (built_one 9 rfl) rfl
  · exact mem_append_right [5, 7] (mem_singleton.mpr rfl)

/-- A filter with the value 5 and a filter with the value 7 are united. The united filter answers
from its smallest value, and does not find 7. -/
theorem bloom_filter_misses_united_value : ∃ filter that united,
    addDatum (newBloomFilter hundredValues) 5 = some filter ∧
      addDatum (newBloomFilter hundredValues) 7 = some that ∧
      unionAll filter that = some united ∧ Built united [5] [5, 7] ∧
      includeDatum united 7 = false := by
  refine ⟨_, _, _, rfl, rfl, rfl, ?_, rfl⟩
  exact Built.union _ _ _ [5] [5] [7] [7] (built_one 5 rfl) (built_one 7 rfl) rfl

end OpenGauss.Bloom
