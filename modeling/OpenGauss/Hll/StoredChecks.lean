import OpenGauss.Hll.StoredSafety

/-!
# Checks of packed objects

Bytes that a user gives are read as an object after four checks: their number, the letters at the
start, the form, and the number of the bytes in use. The ranges of the parameters, the reserved bytes
and the data are taken as they are. The module names the checks that are missing and proves that
exactly the bytes that would pass them, or are refused, are read as an object that is well formed and
stays inside its memory in every later run; and that reading gives back every object of a run.
-/
namespace OpenGauss.Hll.Stored

open List OpenGauss.Base

/-- The hashes of the bytes of a list. -/
def hashesOf (bytes : List UInt8) : List Nat :=
  (List.range (bytes.length / 8)).map fun index => leNat (slice bytes (8 * index) 8)

/-- The data is as its form and the parameters ask. -/
def DataFits (hlltype : HllType) (hllpara : HllParaBytes) (bytes : List UInt8) : Prop :=
  match hlltype with
  | .uninit => bytes = []
  | .empty => bytes = []
  | .explicit => bytes.length % 8 = 0 ∧ (hashesOf bytes).Pairwise (· < ·)
  | .sparse => UsedTypes (numbers bytes) ∧
      (units (numbers bytes)).length = 2 ^ hllpara.log2Registers
  | .full => bytes.length = 2 ^ hllpara.log2Registers

/-- The 64-bit number of packed bytes. -/
def packedInfo (hllbyte : List UInt8) : Nat := leNat (slice hllbyte 3 8)

/-- The data of packed bytes. -/
def packedData (hllbyte : List UInt8) : List UInt8 :=
  slice hllbyte hllHeadSize (packedUsed (packedInfo hllbyte))

/-- The bytes are refused by one of the four checks. -/
def Refused (hllbyte : List UInt8) : Prop :=
  hllbyte.length < hllHeadSize ∨ slice hllbyte 0 3 ≠ hllFlag ∨
    packedType (packedInfo hllbyte) = none ∨
    hllbyte.length ≤ hllHeadSize + packedUsed (packedInfo hllbyte)

/-- The bytes would pass the checks that are missing. -/
structure Admissible (hllbyte : List UInt8) (hlltype : HllType) : Prop where
  lengths : packedUsed (packedInfo hllbyte) ≤ packedTotal (packedInfo hllbyte)
  para : hllCheckPararange (packedPara (packedInfo hllbyte)) = true
  data : DataFits hlltype (packedPara (packedInfo hllbyte)) (packedData hllbyte)
  /-- If a hash goes into the list next and no byte is in use, none is reserved, or enough for a hash. -/
  room : packedUsed (packedInfo hllbyte) = 0 →
    TakesHashes hlltype (packedPara (packedInfo hllbyte)) →
      packedTotal (packedInfo hllbyte) = 0 ∨ 8 ≤ packedTotal (packedInfo hllbyte)

/-- The bytes are refused, or would pass the checks that are missing. -/
def Checked (hllbyte : List UInt8) : Prop :=
  Refused hllbyte ∨
    ∃ hlltype, packedType (packedInfo hllbyte) = some hlltype ∧ Admissible hllbyte hlltype

/-- An object is well formed. -/
structure WellFormed (object : HllObjectData) : Prop where
  lengths : object.lenUsed ≤ object.lenTotal
  para : hllCheckPararange object.hllpara = true
  memory : 0 < object.lenUsed → (object.hllData.getD []).length = object.lenTotal
  data : DataFits object.hlltype object.hllpara ((object.hllData.getD []).take object.lenUsed)

/-- Whole words are their hashes. -/
theorem words_hashesOf {bytes : List UInt8} (whole : bytes.length % 8 = 0) :
    words (hashesOf bytes) = bytes := by
  have front (count : Nat) (inside : 8 * count ≤ bytes.length) :
      words ((List.range count).map fun index => leNat (slice bytes (8 * index) 8)) =
        bytes.take (8 * count) := by
    induction count with
    | zero => rfl
    | succ count ih =>
      have word : leBytes 8 (leNat (slice bytes (8 * count) 8)) = slice bytes (8 * count) 8 := by
        have length := slice_length bytes (8 * count) 8 (by omega)
        have back := leBytes_leNat (slice bytes (8 * count) 8)
        rw [length] at back
        exact back
      have single : words [leNat (slice bytes (8 * count) 8)] = slice bytes (8 * count) 8 := by
        rw [words_cons, word]
        exact append_nil _
      rw [range_succ, map_append, words_append, ih (by grind), map_singleton, single,
        Nat.mul_succ, take_add]
      rfl
  have all := front (bytes.length / 8) (by omega)
  rw [hashesOf, all, show 8 * (bytes.length / 8) = bytes.length by lia, take_length]

theorem hashesOf_lt (bytes : List UInt8) : ∀ hashval ∈ hashesOf bytes, hashval < 2 ^ 64 := by
  intro hashval member
  obtain ⟨index, inside, rfl⟩ := mem_map.mp member
  have place := mem_range.mp inside
  have length := slice_length bytes (8 * index) 8 (by lia)
  have small := leNat_lt (slice bytes (8 * index) 8)
  rw [length] at small
  exact small

section Estimates

variable (double : DoubleArithmetic)

/-- The object that is read from bytes that are not refused, if the bytes in use are reserved. -/
def unpacked (hllbyte : List UInt8) (hlltype : HllType) : HllObjectData where
  hlltype := hlltype
  hllpara := packedPara (packedInfo hllbyte)
  lenTotal := packedTotal (packedInfo hllbyte)
  lenUsed := packedUsed (packedInfo hllbyte)
  hllData :=
    if 0 < packedUsed (packedInfo hllbyte) then
      some (packedData hllbyte ++ List.replicate
        (packedTotal (packedInfo hllbyte) - packedUsed (packedInfo hllbyte)) 0)
    else none
  ndvEstimator := UInt64.ofNat (leNat (slice hllbyte 11 8))
  lastHash := leNat (slice hllbyte 19 8)

variable (hllbyte : List UInt8) (hlltype : HllType)

/-- What the checks refuse raises an error. -/
theorem hllObjectUnpack_refused (refused : Refused hllbyte) :
    hllObjectUnpack (hllInit double) hllbyte = .error .raised := by
  rw [hllObjectUnpack]
  by_cases few : hllbyte.length < hllHeadSize
  · rw [if_pos few]
  · rw [if_neg few]
    by_cases flag : slice hllbyte 0 3 ≠ hllFlag
    · rw [if_pos flag]
    · rw [if_neg flag]
      obtain other | other | other | short := refused
      · exact absurd other few
      · exact absurd other flag
      · rw [packedInfo] at other
        simp only [other]
      · rw [packedInfo] at short
        cases kind : packedType (leNat (slice hllbyte 3 8)) with
        | none => simp only [kind]
        | some hlltype => simp only [kind, if_pos short]

section

variable (taken : ¬Refused hllbyte)
include taken

variable {hllbyte}

/-- What the checks admit is taken, if it has its length. -/
theorem hllObjectUnpack_taken :
    ∃ hlltype, packedType (packedInfo hllbyte) = some hlltype ∧
      hllObjectUnpack (hllInit double) hllbyte =
        if packedUsed (packedInfo hllbyte) ≤ packedTotal (packedInfo hllbyte) then
          .ok (unpacked hllbyte hlltype) else .error .outside := by
  have few : ¬hllbyte.length < hllHeadSize := fun few => taken (.inl few)
  have flag : ¬slice hllbyte 0 3 ≠ hllFlag := fun flag => taken (.inr (.inl flag))
  cases kind : packedType (packedInfo hllbyte) with
  | none => exact absurd (.inr (.inr (.inl kind))) taken
  | some hlltype =>
    have enough : ¬hllbyte.length ≤ hllHeadSize + packedUsed (packedInfo hllbyte) :=
      fun short => taken (.inr (.inr (.inr short)))
    have length : (packedData hllbyte).length = packedUsed (packedInfo hllbyte) :=
      slice_length _ _ _ (by omega)
    refine ⟨hlltype, rfl, ?_⟩
    rw [hllObjectUnpack, if_neg few, if_neg flag]
    rw [packedInfo] at kind
    simp only [kind]
    rw [← packedInfo, if_neg enough, ← packedData, unpackData, writeBytes,
      length_replicate, length, Nat.zero_add, unpacked]
    by_cases some : 0 < packedUsed (packedInfo hllbyte)
    · rw [if_pos some, if_pos some]
      by_cases room : packedUsed (packedInfo hllbyte) ≤ packedTotal (packedInfo hllbyte)
      · rw [if_pos room, if_pos room, overwrite, length,
          Nat.zero_add, drop_replicate]
        rfl
      · rw [if_neg room, if_neg room]
        rfl
    · rw [if_neg some, if_neg some, if_pos (by omega)]
      rfl

theorem packedData_length :
    (packedData hllbyte).length = packedUsed (packedInfo hllbyte) := by
  have enough : ¬hllbyte.length ≤ hllHeadSize + packedUsed (packedInfo hllbyte) :=
    fun short => taken (.inr (.inr (.inr short)))
  exact slice_length _ _ _ (by omega)

/-- The memory of an unpacked object. -/
theorem unpacked_memory :
    ∃ spare, (unpacked hllbyte hlltype).hllData.getD [] = packedData hllbyte ++ spare ∧
      (0 < packedUsed (packedInfo hllbyte) → spare.length =
        packedTotal (packedInfo hllbyte) - packedUsed (packedInfo hllbyte)) ∧
      (packedUsed (packedInfo hllbyte) = 0 → spare = []) := by
  have length := packedData_length taken
  by_cases some : 0 < packedUsed (packedInfo hllbyte)
  · refine ⟨List.replicate (packedTotal (packedInfo hllbyte) - packedUsed (packedInfo hllbyte)) 0,
      ?_, fun _ => length_replicate, fun none => by omega⟩
    rw [unpacked]
    rw [if_pos some, Option.getD_some]
  · have nothing : packedData hllbyte = [] := length_eq_zero_iff.mp (by omega)
    refine ⟨[], ?_, fun used => absurd used some, fun _ => rfl⟩
    rw [unpacked]
    rw [if_neg some, nothing]
    rfl

variable (hllbyte)

theorem unpacked_take :
    ((unpacked hllbyte hlltype).hllData.getD []).take (packedUsed (packedInfo hllbyte)) =
      packedData hllbyte := by
  obtain ⟨spare, memory, -⟩ := unpacked_memory hlltype taken
  rw [memory, ← packedData_length taken, take_left]

/-- With the bytes of its memory, an object that is read represents one of lists. -/
theorem unpacked_stands (admissible : Admissible hllbyte hlltype) :
    ∃ object, Outcome double (2 ^ 17) (measured (unpacked hllbyte hlltype)) object False := by
  obtain ⟨spare, memory, rest, noRest⟩ := unpacked_memory hlltype taken
  have length := packedData_length taken
  have lengths := admissible.lengths
  have fits := admissible.data
  have fewTotal : packedTotal (packedInfo hllbyte) < 2 ^ 17 := Nat.mod_lt _ (by decide)
  have backed : Backed (measured (unpacked hllbyte hlltype)) (packedData hllbyte) :=
    ⟨length.symm, rfl, spare, memory⟩
  have word : leNat (slice hllbyte 19 8) < 2 ^ 64 := by
    have head : ¬hllbyte.length < hllHeadSize := fun short => taken (.inl short)
    rw [hllHeadSize] at head
    have small := leNat_lt (slice hllbyte 19 8)
    rw [slice_length hllbyte 19 8 (by omega)] at small
    exact small
  have reserved : (measured (unpacked hllbyte hlltype)).lenTotal ≤ capacity (2 ^ 17) := by
    show ((unpacked hllbyte hlltype).hllData.getD []).length ≤ capacity (2 ^ 17)
    rw [memory, length_append, capacity]
    by_cases used : 0 < packedUsed (packedInfo hllbyte)
    · omega
    · rw [noRest (by lia), length_nil]
      lia
  have vacant (nothing : packedData hllbyte = []) : Vacant (measured (unpacked hllbyte hlltype)) := by
    rw [nothing] at length
    have zero : packedUsed (packedInfo hllbyte) = 0 := length.symm
    refine ⟨?_, zero, ?_⟩
    · show ((unpacked hllbyte hlltype).hllData.getD []).length = 0
      rw [memory, nothing, noRest zero]
      rfl
    · show (if 0 < packedUsed (packedInfo hllbyte) then _ else (none : Option (List UInt8))) = _
      rw [if_neg (by omega)]
  have made (data : HllData) (holds : Holds (measured (unpacked hllbyte hlltype)) data)
      (sound : HllObject.Sound
        ⟨(packedPara (packedInfo hllbyte)).toPara, leNat (slice hllbyte 19 8), data⟩)
      (limited : Limited (2 ^ 17)
        ⟨(packedPara (packedInfo hllbyte)).toPara, leNat (slice hllbyte 19 8), data⟩) :
      ∃ object, Outcome double (2 ^ 17) (measured (unpacked hllbyte hlltype)) object False :=
    ⟨_, ⟨rfl, admissible.para, rfl, word, holds, sound, reserved⟩, limited,
      fun impossible => impossible.elim⟩
  cases hlltype with
  | uninit =>
    exact made .uninit ⟨rfl, vacant fits⟩ trivial fun _ other => HllData.noConfusion other
  | empty => exact made .empty ⟨rfl, vacant fits⟩ trivial fun _ other => HllData.noConfusion other
  | explicit =>
    have whole := words_hashesOf fits.1
    refine made (.explicit (hashesOf (packedData hllbyte))) ⟨rfl, ?_⟩
      ⟨fits.2, hashesOf_lt (packedData hllbyte)⟩ ?_
    · rw [whole]
      exact backed
    · intro hashes same
      have count := congrArg List.length whole
      rw [words_length] at count
      lia
  | sparse =>
    exact made (.sparse (numbers (packedData hllbyte))) ⟨rfl, _, backed, rfl⟩ fits
      fun _ other => HllData.noConfusion other
  | full =>
    refine made (.full (numbers (packedData hllbyte))) ⟨rfl, _, backed, rfl⟩ ?_
      fun _ other => HllData.noConfusion other
    show (numbers (packedData hllbyte)).length = 2 ^ (packedPara (packedInfo hllbyte)).log2Registers
    rw [numbers, length_map]
    exact fits

/-- An admissible image gives an object that keeps to its memory. -/
theorem unpacked_loose
    (admissible : Admissible hllbyte hlltype) : Loose double (unpacked hllbyte hlltype) := by
  obtain ⟨spare, memory, rest, noRest⟩ := unpacked_memory hlltype taken
  have length := packedData_length taken
  have lengths := admissible.lengths
  have fewTotal : packedTotal (packedInfo hllbyte) < 2 ^ 17 := Nat.mod_lt _ (by decide)
  refine ⟨unpacked_stands double hllbyte hlltype taken admissible, ?_⟩
  by_cases used : 0 < packedUsed (packedInfo hllbyte)
  · refine .inl ?_
    show packedTotal (packedInfo hllbyte) = _
    rw [memory, length_append]
    omega
  · by_cases zero : packedTotal (packedInfo hllbyte) = 0
    · refine .inl ?_
      show packedTotal (packedInfo hllbyte) = _
      rw [memory, length_append, noRest (by omega), length_nil]
      lia
    · refine .inr ⟨?_, Nat.pos_of_ne_zero zero, ?_, ?_⟩
      · show (if 0 < packedUsed (packedInfo hllbyte) then _ else (none : Option (List UInt8))) = _
        rw [if_neg used]
      · show packedTotal (packedInfo hllbyte) < 2 ^ 32
        omega
      · intro takes
        obtain nothing | enough := admissible.room (by omega) takes
        · exact absurd nothing zero
        · exact enough

/-- An admissible image gives a well-formed object. -/
theorem unpacked_wellFormed
    (admissible : Admissible hllbyte hlltype) : WellFormed (unpacked hllbyte hlltype) := by
  have lengths := admissible.lengths
  refine ⟨lengths, admissible.para, ?_, ?_⟩
  · intro used
    obtain ⟨spare, memory, rest, -⟩ := unpacked_memory hlltype taken
    have restLength := rest used
    rw [memory, length_append, packedData_length taken]
    show _ = packedTotal (packedInfo hllbyte)
    grind
  · have same := unpacked_take hllbyte hlltype taken
    show DataFits hlltype (packedPara (packedInfo hllbyte))
      (((unpacked hllbyte hlltype).hllData.getD []).take (packedUsed (packedInfo hllbyte)))
    rw [same]
    exact admissible.data

end

/-- An object of a run of the public operations, or one that is read from bytes that are checked. -/
def Origin (other : Traced) : Prop :=
  (∃ ops objects, hllRun double [] ops = .ok objects ∧ other ∈ objects) ∨
    ∃ hllbyte, Checked hllbyte ∧ hllObjectUnpack (hllInit double) hllbyte = .ok other.object

/-- Every later run of operations on an object and some others touches no byte outside the memory. -/
def StaysInside (object : HllObjectData) : Prop :=
  ∀ others ops, (∀ other ∈ others, Origin double other) → (∀ op ∈ ops, HllOp.Later op) →
    Inside (hllRun double (⟨object, []⟩ :: others) ops)

/-- Reading some bytes either reports an error or gives an object that is well formed and stays inside
its memory from then on. -/
def UnpacksWell (hllbyte : List UInt8) : Prop :=
  match hllObjectUnpack (hllInit double) hllbyte with
  | .error fault => fault = .raised
  | .ok object => WellFormed object ∧ StaysInside double object

/-- An object that is reached keeps to its memory. -/
theorem Reached.loose {counted kept : Prop} {traced : Traced}
    (reached : Reached double 4096 counted kept traced) : Loose double traced.object := by
  obtain ⟨object, outcome, -⟩ := reached
  have represents := outcome.represents
  have reserved := represents.reserved
  rw [capacity] at reserved
  have larger : Outcome double (2 ^ 17) traced.object object counted := by
    refine ⟨⟨represents.para, represents.valid, represents.lastHash, represents.word,
      represents.holds, represents.sound, ?_⟩, ?_, outcome.counted⟩
    · rw [capacity]
      omega
    · intro hashes listed
      have short := outcome.limited hashes listed
      omega
  exact larger.loose double

theorem hllRun_reached_new {ops : List HllOp} {objects : List Traced}
    (result : hllRun double [] ops = .ok objects) :
    ∀ traced ∈ objects, Reached double 4096 True False traced :=
  hllRun_reached double 4096 le_rfl (by decide) True False [] objects ops
    (fun _ inside => absurd inside not_mem_nil) (fun _ _ => rfl)
    (fun impossible => impossible.elim) result

theorem checked_loose (checked : Checked hllbyte) {object : HllObjectData}
    (result : hllObjectUnpack (hllInit double) hllbyte = .ok object) :
    Loose double object ∧ WellFormed object := by
  by_cases refused : Refused hllbyte
  · rw [hllObjectUnpack_refused double hllbyte refused] at result
    cases result
  · obtain other | ⟨hlltype, kind, admissible⟩ := checked
    · exact absurd other refused
    · obtain ⟨type, known, read⟩ := hllObjectUnpack_taken double refused
      obtain rfl := Option.some.inj (known.symm.trans kind)
      rw [if_pos admissible.lengths, result] at read
      rw [Except.ok.inj read]
      exact ⟨unpacked_loose double hllbyte type refused admissible,
        unpacked_wellFormed hllbyte type refused admissible⟩

theorem Origin.loose {other : Traced} (origin : Origin double other) :
    Loose double other.object := by
  obtain ⟨ops, objects, run, member⟩ | ⟨hllbyte, checked, read⟩ := origin
  · exact (hllRun_reached_new double run other member).loose double
  · exact (checked_loose double hllbyte checked read).1

/-- Without memory and room for one hash an add leaves it. -/
theorem hllAdd_tight {stored : HllObjectData} (none : stored.hllData = none)
    (used : stored.lenUsed = 0) (some : 0 < stored.lenTotal) (few : stored.lenTotal < 8)
    (takes : TakesHashes stored.hlltype stored.hllpara) {hashval : Nat}
    (new : hashval ≠ stored.lastHash) : hllAdd double stored hashval = .error .outside := by
  have stuck (object : HllObjectData) (noMemory : object.hllData = .none) (noUse : object.lenUsed = 0)
      (total : object.lenTotal = stored.lenTotal) :
      hllSetExplicitValue double object hashval = .error .outside := by
    have short : sub32 object.lenTotal object.lenUsed < 8 := by
      rw [sub32]
      lia
    rw [hllSetExplicitValue, expandForHash, if_pos short, hllDataExpand, if_neg (by omega), noMemory]
    rfl
  have register : hllSetRegisterValue double stored hashval = .error .outside := by
    obtain listed | ⟨empty, listed⟩ := takes
    · rw [hllSetRegisterValue, listed]
      exact stuck stored none used rfl
    · rw [hllSetRegisterValue, empty]
      show hllSetEmptyValue double stored hashval = .error .outside
      rw [hllSetEmptyValue, if_neg (fun both => by omega), if_neg (by omega)]
      exact stuck { stored with hlltype := .explicit } none used rfl
  rw [hllAdd, if_neg (fun both => new both.2), register]
  rfl

/-- An object without memory that stays inside has room or none at all. -/
theorem room_of_staysInside {object : HllObjectData} (none : object.hllData = none)
    (used : object.lenUsed = 0) (takes : TakesHashes object.hlltype object.hllpara)
    (stays : StaysInside double object) : object.lenTotal = 0 ∨ 8 ≤ object.lenTotal := by
  by_contra tight
  obtain ⟨hashval, new⟩ : ∃ hashval : UInt64, hashval.toNat ≠ object.lastHash := by
    by_cases zero : object.lastHash = 0
    · refine ⟨1, ?_⟩
      rw [zero]
      decide
    · exact ⟨0, fun same => zero same.symm⟩
  have added := hllAdd_tight double none used (by lia) (by omega) takes new
  have inside := stays [] [.add 0 hashval] (fun _ member => absurd member not_mem_nil)
    (fun op member => by rw [mem_singleton.mp member]; trivial)
  apply inside
  show (((hllAdd double object hashval.toNat).map _).map _ >>= _) = _
  rw [added]
  rfl

/-- Reading bytes is well done exactly if they are refused or would pass the checks that are missing;
and reading gives back what was packed, for every object of a run of the public operations. -/
theorem unpack_well_formed_iff : (∀ hllbyte, UnpacksWell double hllbyte ↔ Checked hllbyte) ∧
      ∀ ops objects, hllRun double [] ops = .ok objects → ∀ traced ∈ objects,
        traced.object.hlltype ≠ .uninit → ∀ hllsize, hllHeadSize + traced.object.lenUsed < hllsize →
          ∃ image object', hllObjectPack traced.object hllsize = .ok image ∧
            hllObjectUnpack (hllInit double) image = .ok object' ∧
            SameObject traced.object object' := by
  refine ⟨?_, ?_⟩
  · intro hllbyte
    constructor
    · intro well
      by_cases refused : Refused hllbyte
      · exact .inl refused
      · obtain ⟨hlltype, kind, read⟩ := hllObjectUnpack_taken double refused
        refine .inr ⟨hlltype, kind, ?_⟩
        rw [UnpacksWell, read] at well
        by_cases lengths : packedUsed (packedInfo hllbyte) ≤ packedTotal (packedInfo hllbyte)
        · rw [if_pos lengths] at well
          obtain ⟨wellFormed, stays⟩ := well
          have fits := wellFormed.data
          have same := unpacked_take hllbyte hlltype refused
          refine ⟨lengths, wellFormed.para, ?_, ?_⟩
          · rw [← same]
            exact fits
          · intro used takes
            have memory : (unpacked hllbyte hlltype).hllData = none := by
              rw [unpacked]
              rw [if_neg (by omega)]
            exact room_of_staysInside double memory used takes stays
        · rw [if_neg lengths] at well
          cases well
    · intro checked
      rw [UnpacksWell]
      cases read : hllObjectUnpack (hllInit double) hllbyte with
      | error fault =>
        by_cases refused : Refused hllbyte
        · rw [hllObjectUnpack_refused double hllbyte refused] at read
          exact (Except.error.inj read).symm
        · obtain other | ⟨hlltype, kind, admissible⟩ := checked
          · exact absurd other refused
          · obtain ⟨type, known, result⟩ := hllObjectUnpack_taken double refused
            rw [if_pos admissible.lengths, read] at result
            cases result
      | ok object =>
        obtain ⟨loose, wellFormed⟩ := checked_loose double hllbyte checked read
        refine ⟨wellFormed, ?_⟩
        intro others ops origins later
        apply hllRun_inside double _ later
        intro traced member
        obtain rfl | other := mem_cons.mp member
        · exact loose
        · exact (origins traced other).loose double
  · intro ops objects run traced member started hllsize room
    exact reached_unpack_pack True False traced
      (hllRun_reached_new double run traced member) started hllsize room

end Estimates

/-- The bytes of a list of one hash, for which no byte is reserved. -/
def unreservedBytes : List UInt8 :=
  hllFlag ++ leBytes 8 (2 * 2 ^ 50 + 8) ++ leBytes 16 0 ++ leBytes 8 5 ++ [0]

/-- A list of one hash is written outside the memory when it is read, since no byte is reserved. -/
theorem unpack_unreserved : unreservedBytes.length = 36 ∧
    hllObjectUnpack (hllInit wholeDoubles) unreservedBytes = .error .outside ∧
    ¬∀ hllbyte, UnpacksWell wholeDoubles hllbyte := by
  have outside : hllObjectUnpack (hllInit wholeDoubles) unreservedBytes = .error .outside := by
    decide
  refine ⟨by decide, outside, ?_⟩
  intro well
  have one := well unreservedBytes
  cases one

end OpenGauss.Hll.Stored
