import OpenGauss.Hll.StoredRuns

/-!
# Objects without memory

An object that is read from bytes may tell of reserved bytes and have no memory, since memory is
reserved for bytes in use only. Such an object is as good as one without reserved bytes, but for the
place where a hash is put into its list. The module proves that adding hashes, joining and estimating
stays inside the memory of such objects, and of those that are as the code makes them.
-/
namespace OpenGauss.Hll.Stored

open List OpenGauss.Base

/-- No byte outside the memory of an object was touched. -/
def Inside {α : Type} (result : Except Fault α) : Prop := result ≠ .error .outside

theorem inside_ok {α : Type} (value : α) : Inside (.ok value : Except Fault α) := by
  intro same
  cases same

theorem inside_raised {α : Type} : Inside (.error .raised : Except Fault α) := by
  intro same
  exact Fault.noConfusion (Except.error.inj same)

variable {α β : Type}

theorem Inside.retype {fault : Fault} (inside : Inside (.error fault : Except Fault α)) :
    Inside (.error fault : Except Fault β) := by
  intro same
  exact inside (congrArg Except.error (Except.error.inj same))

theorem Inside.bind {result : Except Fault α} {next : α → Except Fault β}
    (first : Inside result) (second : ∀ value, result = .ok value → Inside (next value)) :
    Inside (result >>= next) := by
  cases made : result with
  | error fault =>
    rw [made] at first
    exact first.retype
  | ok value => exact second value made

theorem foldlM_inside (act : β → α → Except Fault β) (list : List α)
    (each : ∀ state, ∀ element ∈ list, Inside (act state element)) (state : β) :
    Inside (list.foldlM act state) := by
  induction list generalizing state with
  | nil => exact inside_ok state
  | cons element rest ih =>
    apply Inside.bind (each state element mem_cons_self)
    intro next _
    exact ih (fun other further member => each other further (mem_cons_of_mem _ member)) next

theorem countValue_inside (histogram : List Nat) (value : Nat) :
    Inside (countValue histogram value) := by
  rw [countValue]
  cases histogram[value]? with
  | some count => exact inside_ok _
  | none =>
    intro same
    exact Fault.noConfusion (Except.error.inj same)

theorem hllGetByte_of_used {object : HllObjectData} {bytes : List UInt8}
    (backed : Backed object bytes) {index : Nat} (used : index < object.lenUsed) :
    ∃ value, hllGetByte object index = .ok value := by
  rw [backed.used] at used
  have here : (bytes.map UInt8.toNat)[index]? = some bytes[index].toNat := by
    rw [getElem?_map, getElem?_eq_getElem used]
    rfl
  exact ⟨_, hllGetByte_backed backed here⟩

/-- The histogram reads inside the memory. -/
theorem hllGetHistogram_inside {most : Nat} {stored : HllObjectData} {object : HllObject}
    (represents : Represents most stored object) : Inside (hllGetHistogram stored) := by
  have holds := represents.holds
  have sound := represents.sound
  obtain ⟨para, lastHash, data⟩ := object
  rw [hllGetHistogram]
  cases data with
  | uninit =>
    rw [holds.1]
    exact inside_raised
  | empty =>
    rw [holds.1]
    exact inside_ok _
  | explicit hashes =>
    have used := holds.2.used
    rw [words_length] at used
    have count : (stored.lenUsed + 7) / 8 = hashes.length := by lia
    have read := explicitValues_backed holds.2 sound.2 hashes.length le_rfl
    rw [holds.1]
    dsimp only
    rw [count, read, ok_bind]
    apply Inside.bind
    · exact foldlM_inside _ _ (fun counts hashval _ => countValue_inside counts _) _
    · exact fun counts _ => inside_ok _
  | sparse values =>
    obtain ⟨kind, bytes, backed, -⟩ := holds
    rw [kind]
    apply foldlM_inside
    intro histogram index member
    obtain ⟨value, read⟩ := hllGetByte_of_used backed (mem_range.mp member)
    rw [countByte, read, ok_bind]
    split
    · exact inside_ok _
    · exact inside_ok _
    · exact countValue_inside _ _
    · exact inside_raised
  | full values =>
    obtain ⟨kind, bytes, backed, -⟩ := holds
    rw [kind]
    apply foldlM_inside
    intro histogram index member
    obtain ⟨value, read⟩ := hllGetByte_of_used backed (mem_range.mp member)
    rw [countRegister, read, ok_bind]
    exact countValue_inside _ _

/-- An object with as many reserved bytes as its memory has. -/
def measured (stored : HllObjectData) : HllObjectData :=
  { stored with lenTotal := (stored.hllData.getD []).length }

/-- The next hash that is added goes into a list. -/
def TakesHashes (hlltype : HllType) (hllpara : HllParaBytes) : Prop :=
  hlltype = .explicit ∨ hlltype = .empty ∧ 0 < hllpara.log2Explicitsize

section Estimates

variable (double : DoubleArithmetic)

/-- An object that is as the code makes them, but may tell of reserved bytes without having memory.
If a hash goes into its list next, they are enough for a hash. -/
structure Loose (stored : HllObjectData) : Prop where
  stands : ∃ object, Outcome double (2 ^ 17) (measured stored) object False
  total : stored.lenTotal = (stored.hllData.getD []).length ∨
    stored.hllData = none ∧ 0 < stored.lenTotal ∧ stored.lenTotal < 2 ^ 32 ∧
      (TakesHashes stored.hlltype stored.hllpara → 8 ≤ stored.lenTotal)

/-- An operation stays inside the memory, and its result is such an object again. -/
def Stays (result : Except Fault HllObjectData) : Prop :=
  Inside result ∧ ∀ after, result = .ok after → Loose double after

theorem Represents.measured {most : Nat} {stored : HllObjectData} {object : HllObject}
    (represents : Represents most stored object) : measured stored = stored := by
  obtain ⟨bytes, backed⟩ := represents.backed
  rw [Stored.measured, ← backed.total]

theorem Outcome.loose {stored : HllObjectData} {object : HllObject} {counted : Prop}
    (outcome : Outcome double (2 ^ 17) stored object counted) : Loose double stored := by
  have same := outcome.represents.measured
  obtain ⟨bytes, backed⟩ := outcome.represents.backed
  refine ⟨⟨object, ?_⟩, .inl backed.total⟩
  rw [same]
  exact ⟨outcome.represents, outcome.limited, fun impossible => impossible.elim⟩

theorem Outcome.stays {result : Except Fault HllObjectData} {stored : HllObjectData}
    {object : HllObject} {counted : Prop} (made : result = .ok stored)
    (outcome : Outcome double (2 ^ 17) stored object counted) : Stays double result := by
  rw [made]
  refine ⟨inside_ok stored, ?_⟩
  intro after same
  rw [← Except.ok.inj same]
  exact outcome.loose double

theorem stays_raised : Stays double (.error .raised) := by
  refine ⟨inside_raised, ?_⟩
  intro after same
  cases same

/-- An object without memory. -/
theorem hollow_cases {most : Nat} {stored : HllObjectData} {object : HllObject}
    (represents : Represents most (measured stored) object) (none : stored.hllData = none) :
    stored.lenUsed = 0 ∧
      (stored.hlltype = .uninit ∨ stored.hlltype = .empty ∨ stored.hlltype = .explicit) := by
  obtain ⟨bytes, backed⟩ := represents.backed
  have holds := represents.holds
  have sound := represents.sound
  have nothing (data : List UInt8) (same : Backed (measured stored) data) : data = [] := by
    have reserved := same.used_le
    rw [measured, none] at reserved
    exact length_eq_zero_iff.mp (Nat.le_zero.mp reserved)
  have used : stored.lenUsed = bytes.length := backed.used
  rw [nothing bytes backed] at used
  refine ⟨used, ?_⟩
  obtain ⟨para, lastHash, data⟩ := object
  have registers : 0 < para.registers := Nat.pow_pos (by decide)
  cases data with
  | uninit => exact .inl holds.1
  | empty => exact .inr (.inl holds.1)
  | explicit hashes => exact .inr (.inr holds.1)
  | sparse values =>
    obtain ⟨-, other, otherBacked, same⟩ := holds
    obtain ⟨-, length⟩ := sound
    rw [← same, nothing other otherBacked] at length
    exact absurd length (by show (0 : Nat) ≠ para.registers; omega)
  | full values =>
    obtain ⟨-, other, otherBacked, same⟩ := holds
    have length : values.length = para.registers := sound
    rw [← same, nothing other otherBacked] at length
    exact absurd length (by show (0 : Nat) ≠ para.registers; omega)

variable (object aHll : HllObjectData) {stored1 stored2 : HllObjectData} (objects : List Traced)
  (stored : HllObjectData)

theorem hllTransformFull_measured (none : stored.hllData = none)
    (kind : stored.hlltype = .uninit ∨ stored.hlltype = .empty ∨ stored.hlltype = .explicit) :
    hllTransformFull stored = hllTransformFull (measured stored) := by
  obtain ⟨hlltype, hllpara, lenTotal, lenUsed, hllData, ndvEstimator, lastHash⟩ := stored
  obtain rfl | rfl | rfl := kind
  · rfl
  · rfl
  · rfl

/-- Adding to a list without memory raises an error. -/
theorem hllSetExplicitValue_hollow (none : stored.hllData = none)
    (used : stored.lenUsed = 0) (few : stored.lenTotal < 2 ^ 32) (room : 8 ≤ stored.lenTotal)
    (hashval : Nat) : hllSetExplicitValue double stored hashval = .error .raised := by
  have enough : ¬sub32 stored.lenTotal stored.lenUsed < 8 := by
    rw [used, sub32]
    lia
  have growth : sub32 (leBytes 8 hashval).length 0 = 8 := by
    rw [leBytes_length]
    rfl
  have front : (stored.lenUsed / 8 = 0) := by rw [used]
  have inside : ¬((0 = 0 ∧ stored.lenUsed < 8 * 0) ∨ (0 < 0 ∧ stored.lenUsed < 8 * 0 + 0)) := by
    omega
  have nothing : sub32 (sub32 stored.lenUsed (8 * 0)) 0 = 0 := by
    rw [used]
    rfl
  have stuck : memcpyS stored.hllData (8 * 0) (leBytes 8 hashval) = .error .raised := by
    rw [none, memcpyS.eq_def, leBytes_length]
    rfl
  rw [hllSetExplicitValue, expandForHash, if_neg enough, ok_bind, front, upperBound,
    if_neg (Nat.lt_irrefl 0), ok_bind, alreadyThere, if_neg (Nat.lt_irrefl 0), ok_bind,
    if_neg Bool.false_ne_true, hllUpdateValue, if_neg inside]
  dsimp only
  rw [growth, show 8 / hllExpandSize + 1 = 1 from rfl, expandFor, if_neg enough, ok_bind, nothing,
    moveBytes, if_neg (fun both => Nat.lt_irrefl 0 both.2), ok_bind, stuck]
  rfl

/-- The length of an empty object does not matter. -/
theorem hllSetEmptyValue_measured (none : stored.hllData = none)
    (kind : stored.hlltype = .empty) (noList : stored.hllpara.log2Explicitsize = 0)
    (hashval : Nat) :
    hllSetEmptyValue double stored hashval = hllSetEmptyValue double (measured stored) hashval := by
  have para : (measured stored).hllpara = stored.hllpara := rfl
  have sparse : hllTransformSparse stored = hllTransformSparse (measured stored) := by
    obtain ⟨hlltype, hllpara, lenTotal, lenUsed, hllData, ndvEstimator, lastHash⟩ := stored
    dsimp only at kind
    subst kind
    rfl
  by_cases noRuns : stored.hllpara.log2Explicitsize = 0 ∧ stored.hllpara.log2Sparsesize = 0
  · rw [hllSetEmptyValue, hllSetEmptyValue, para, if_pos noRuns, if_pos noRuns,
      hllTransformFull_measured stored none (.inr (.inl kind))]
  · rw [hllSetEmptyValue, hllSetEmptyValue, para, if_neg noRuns, if_neg noRuns, if_pos noList,
      if_pos noList, sparse]

/-- An add stays inside. -/
theorem hllAdd_stays (loose : Loose double stored) {hashval : Nat}
    (word : hashval < 2 ^ 64) : Stays double (hllAdd double stored hashval) := by
  obtain ⟨object, outcome⟩ := loose.stands
  have added := hllAdd_represents double (by decide) le_rfl outcome.represents outcome.limited word
  obtain ⟨after, object', result, -, outcome'⟩ := added
  have counted : hllAdd double stored hashval = hllAdd double (measured stored) hashval →
      Stays double (hllAdd double stored hashval) := by
    intro same
    exact outcome'.stays double (same.trans result)
  obtain total | ⟨none, -, few, room⟩ := loose.total
  · apply counted
    rw [measured, ← total]
  · obtain ⟨used, kind⟩ := hollow_cases outcome.represents none
    by_cases skipped : stored.hllpara.duplicateCheck ≠ 0 ∧ hashval = stored.lastHash
    · rw [hllAdd, if_pos skipped]
      refine ⟨inside_ok stored, ?_⟩
      intro after same
      rw [← Except.ok.inj same]
      exact loose
    · by_cases takes : TakesHashes stored.hlltype stored.hllpara
      · have stuck : hllSetRegisterValue double stored hashval = .error .raised := by
          obtain listed | ⟨empty, listed⟩ := takes
          · rw [hllSetRegisterValue, listed]
            exact hllSetExplicitValue_hollow double stored none used few (room (.inl listed)) hashval
          · rw [hllSetRegisterValue, empty]
            show hllSetEmptyValue double stored hashval = .error .raised
            rw [hllSetEmptyValue, if_neg (fun both => by omega), if_neg (by omega)]
            exact hllSetExplicitValue_hollow double { stored with hlltype := .explicit } none used few
              (room (.inr ⟨empty, listed⟩)) hashval
        rw [hllAdd, if_neg skipped, stuck]
        exact stays_raised double
      · apply counted
        have last : (measured stored).lastHash = stored.lastHash := rfl
        have para : (measured stored).hllpara = stored.hllpara := rfl
        have register : hllSetRegisterValue double stored hashval =
            hllSetRegisterValue double (measured stored) hashval := by
          have type : (measured stored).hlltype = stored.hlltype := rfl
          obtain started | empty | listed := kind
          · rw [hllSetRegisterValue, hllSetRegisterValue, type, started]
            rfl
          · have noList : stored.hllpara.log2Explicitsize = 0 := by
              by_contra some
              exact takes (.inr ⟨empty, Nat.pos_of_ne_zero some⟩)
            rw [hllSetRegisterValue, hllSetRegisterValue, type, empty]
            exact hllSetEmptyValue_measured double stored none empty noList hashval
          · exact absurd (.inl listed) takes
        rw [hllAdd, hllAdd, last, para, if_neg skipped, if_neg skipped, register]

/-- Two objects stay inside when they are joined, and are such objects afterwards. -/
def JoinStays (result : Except Fault (HllObjectData × HllObjectData)) : Prop :=
  Inside result ∧ ∀ joined, result = .ok joined → Loose double joined.1 ∧ Loose double joined.2

theorem joinStays_raised : JoinStays double (.error .raised) := by
  refine ⟨inside_raised, ?_⟩
  intro joined same
  cases same

theorem joinStays_ok (loose1 : Loose double stored1)
    (loose2 : Loose double stored2) : JoinStays double (.ok (stored1, stored2)) := by
  refine ⟨inside_ok _, ?_⟩
  intro joined same
  rw [← Except.ok.inj same]
  exact ⟨loose1, loose2⟩

theorem JoinOutcome.stays {object aHll : HllObject}
    (outcome : JoinOutcome double (2 ^ 17) stored1 stored2 object aHll) :
    JoinStays double (hllUnion double stored1 stored2) := by
  obtain raised | ⟨stored1', stored2', object', aHll', joined, -, outcome1, outcome2, -⟩ := outcome
  · rw [raised]
    exact joinStays_raised double
  · rw [joined]
    exact joinStays_ok double (outcome1.loose double) (outcome2.loose double)

theorem mergeLoop_measured (rounds : Nat) (state : MergeState) :
    mergeLoop object aHll rounds state = mergeLoop (measured object) (measured aHll) rounds state := by
  induction rounds generalizing state with
  | zero => rfl
  | succ rounds ih =>
    rw [mergeLoop]
    simp only [ih]
    rfl

theorem hllCombineExplicit_measured : hllCombineExplicit double object aHll =
      hllCombineExplicit double (measured object) (measured aHll) := by
  rw [hllCombineExplicit, mergeLoop_measured]
  rfl

theorem Loose.transformFull {stored : HllObjectData} (loose : Loose double stored) :
    hllTransformFull stored = hllTransformFull (measured stored) := by
  obtain ⟨object, outcome⟩ := loose.stands
  obtain total | ⟨none, -⟩ := loose.total
  · rw [measured, ← total]
  · exact hllTransformFull_measured stored none (hollow_cases outcome.represents none).2

/-- Copying an object over one without a hash stays inside. -/
theorem hllCopy_stays {stored1 stored2 : HllObjectData} {object1 object2 : HllObject}
    (outcome1 : Outcome double (2 ^ 17) (measured stored1) object1 False)
    (outcome2 : Outcome double (2 ^ 17) (measured stored2) object2 False)
    (loose1 : Loose double stored1) (loose2 : Loose double stored2)
    (empty : object1.isEmpty = true) (filled : object2.isEmpty = false) :
    Stays double (hllCopy stored1 stored2) := by
  cases source : stored2.hllData with
  | none =>
    have nothing : memcpySource stored2.hllData 0 stored2.lenUsed = .error .raised := by
      rw [source]
      rfl
    rw [hllCopy, nothing]
    exact stays_raised double
  | some memory =>
    have total2 : measured stored2 = stored2 := by
      obtain total | ⟨none, -⟩ := loose2.total
      · rw [measured, ← total]
      · rw [source] at none
        cases none
    rw [total2] at outcome2
    have vacant : Vacant (measured stored1) := by
      have holds := outcome1.represents.holds
      obtain ⟨para, lastHash, data⟩ := object1
      cases data with
      | uninit | empty => exact holds.2
      | explicit hashes | sparse values | full values => cases empty
    have copied : hllCopy stored1 stored2 = hllCopy (measured stored1) stored2 →
        Stays double (hllCopy stored1 stored2) := by
      intro same
      obtain raised | ⟨after, copy, outcome⟩ := hllCopy_represents double (2 ^ 17) (measured stored1)
        stored2 vacant outcome2.represents outcome2.limited filled
      · rw [same, raised]
        exact stays_raised double
      · exact outcome.stays double (same.trans copy)
    obtain total | ⟨none, -⟩ := loose1.total
    · apply copied
      rw [measured, ← total]
    · by_cases larger : stored1.lenTotal < stored2.lenTotal
      · apply copied
        have zero : (measured stored1).lenTotal < stored2.lenTotal := by
          rw [vacant.lenTotal]
          omega
        rw [hllCopy, hllCopy, if_pos larger, if_pos zero]
      · obtain ⟨bytes, backed⟩ := outcome2.represents.backed
        have room := backed.used_le
        have total := backed.total
        have used := backed.used
        rw [source, Option.getD_some] at total
        have read : memcpySource stored2.hllData 0 stored2.lenUsed =
            .ok (slice memory 0 stored2.lenUsed) := by
          rw [source]
          show readBytes memory 0 stored2.lenUsed = _
          rw [readBytes, if_pos (by lia)]
        have stuck (data : List UInt8) : memcpyS stored1.hllData 0 data = .error .raised := by
          rw [none, memcpyS.eq_def]
          by_cases nothing : data.length = 0
          · rw [if_pos nothing]
          · rw [if_neg nothing]
            rfl
        rw [hllCopy, if_neg larger, read, ok_bind]
        dsimp only
        rw [stuck]
        exact stays_raised double

/-- A union stays inside. -/
theorem hllUnion_stays {stored1 stored2 : HllObjectData} (loose1 : Loose double stored1)
    (loose2 : Loose double stored2) : JoinStays double (hllUnion double stored1 stored2) := by
  obtain ⟨object1, outcome1⟩ := loose1.stands
  obtain ⟨object2, outcome2⟩ := loose2.stands
  have joined := hllUnion_represents double (by decide) le_rfl
     outcome1.represents outcome2.represents outcome1.limited
    outcome2.limited
  have measured1 := isEmpty_represents outcome1.represents
  have measured2 := isEmpty_represents outcome2.represents
  have empty1 : stored1.isEmpty = object1.isEmpty := measured1
  have empty2 : stored2.isEmpty = object2.isEmpty := measured2
  by_cases none2 : object2.isEmpty = true
  · rw [hllUnion, empty2, if_pos none2]
    exact joinStays_ok double loose1 loose2
  · by_cases none1 : object1.isEmpty = true
    · rw [hllUnion, empty2, if_neg none2, empty1, if_pos none1]
      obtain ⟨inside, after⟩ := hllCopy_stays double outcome1 outcome2
        loose1 loose2 none1 (Bool.not_eq_true _ ▸ none2)
      cases copied : hllCopy stored1 stored2 with
      | error fault =>
        rw [copied] at inside
        refine ⟨inside.retype, fun _ same => ?_⟩
        cases same
      | ok copy => exact joinStays_ok double (after copy copied) loose2
    · by_cases differ : stored1.hllpara ≠ stored2.hllpara
      · rw [hllUnion, empty2, if_neg none2, empty1, if_neg none1, if_pos differ]
        exact joinStays_raised double
      · by_cases lists : stored2.hlltype = .explicit ∧ stored1.hlltype = .explicit
        · have outcome := joined.stays
          have same : ¬(measured stored1).hllpara ≠ (measured stored2).hllpara := differ
          have both : (measured stored2).hlltype = .explicit ∧ (measured stored1).hlltype = .explicit :=
            lists
          rw [hllUnion, measured1, measured2, if_neg none2, if_neg none1, if_neg same,
            if_pos both, ← hllCombineExplicit_measured] at outcome
          rw [hllUnion, empty2, if_neg none2, empty1, if_neg none1, if_neg differ, if_pos lists]
          obtain ⟨inside, after⟩ := outcome
          cases combined : hllCombineExplicit double stored1 stored2 with
          | error fault =>
            rw [combined] at inside
            refine ⟨inside, fun _ same => ?_⟩
            cases same
          | ok result =>
            rw [combined] at after
            exact joinStays_ok double (after _ rfl).1 loose2
        · have same : hllUnion double stored1 stored2 =
              hllUnion double (measured stored1) (measured stored2) := by
            have differ' : ¬(measured stored1).hllpara ≠ (measured stored2).hllpara := differ
            have lists' : ¬((measured stored2).hlltype = .explicit ∧
              (measured stored1).hlltype = .explicit) := lists
            rw [hllUnion, hllUnion, empty2, empty1, measured1, measured2, if_neg none2, if_neg none2, if_neg none1,
              if_neg none1, if_neg differ, if_neg differ', if_neg lists, if_neg lists',
              loose1.transformFull, loose2.transformFull]
          rw [same]
          exact joined.stays

/-- The cardinality stays inside. -/
theorem hllCardinality_stays (loose : Loose double stored) :
    Stays double (hllCardinality double stored) := by
  obtain ⟨object, outcome⟩ := loose.stands
  refine ⟨?_, ?_⟩
  · have counted := hllGetHistogram_inside outcome.represents
    rw [hllCardinality]
    by_cases lost : stored.ndvEstimator = double.minusOne
    · rw [if_pos lost, hllCalculateNDV]
      split
      · exact inside_raised
      · exact inside_ok _
      · exact counted.bind fun _ _ => inside_ok _
    · rw [if_neg lost]
      exact inside_ok _
  · intro after result
    obtain ⟨ndvEstimator, rfl, -⟩ := hllCardinality_changes result
    refine ⟨⟨object, outcome.represents.setEstimate ndvEstimator, outcome.limited,
      fun impossible => impossible.elim⟩, loose.total⟩

/-- An operation on an object that was read: adding a hash, joining, or asking for the estimate. -/
def HllOp.Later : HllOp → Prop
  | .add _ _ => True
  | .union _ _ => True
  | .cardinality _ => True
  | _ => False

/-- A step stays inside, and all objects are such objects afterwards. -/
def StepStays (result : Except Fault (List Traced)) : Prop :=
  Inside result ∧ ∀ objects, result = .ok objects → ∀ traced ∈ objects, Loose double traced.object

/-- An action that stays inside does so in a run. -/
theorem actOn_stays (index : Nat)
    (act : HllObjectData → Except Fault HllObjectData) (hashes : Traced → List Nat)
    (loose : ∀ traced ∈ objects, Loose double traced.object)
    (step : ∀ traced ∈ objects, Stays double (act traced.object)) :
    StepStays double (actOn objects index fun traced =>
      (act traced.object).map fun object => ⟨object, hashes traced⟩) := by
  refine ⟨?_, ?_⟩
  · rw [actOn]
    cases here : objects[index]? with
    | none => exact inside_ok _
    | some traced =>
      obtain ⟨inside, -⟩ := step traced (mem_of_getElem? here)
      dsimp only
      cases acted : act traced.object with
      | error fault =>
        rw [acted] at inside
        exact inside.retype
      | ok after => exact inside_ok _
  · intro objects' result
    refine actOn_members (fun traced => Loose double traced.object) loose ?_ result
    intro traced after here acted
    obtain ⟨object, made, rfl⟩ := traced_of_map acted
    exact (step traced (mem_of_getElem? here)).2 object made

/-- Every step stays inside. -/
theorem hllStep_stays {op : HllOp} (later : op.Later)
    (loose : ∀ traced ∈ objects, Loose double traced.object) :
    StepStays double (hllStep double objects op) := by
  cases op with
  | init | setPara index hllpara | empty index | repack index => exact later.elim
  | add index hashval =>
    exact actOn_stays double objects index (fun object => hllAdd double object hashval.toNat) _ loose
      fun traced member => hllAdd_stays double traced.object (loose traced member) hashval.toNat_lt
  | union index argument =>
    rw [hllStep, unionAt]
    have unchanged : StepStays double (.ok objects) := by
      refine ⟨inside_ok _, ?_⟩
      intro objects' same
      rw [← Except.ok.inj same]
      exact loose
    cases here : objects[index]? with
    | none => exact unchanged
    | some traced =>
      cases there : objects[argument]? with
      | none => exact unchanged
      | some other =>
        dsimp only
        by_cases same : index = argument
        · rw [if_pos same]
          exact unchanged
        · rw [if_neg same]
          obtain ⟨inside, after⟩ := hllUnion_stays double
            (loose traced (mem_of_getElem? here)) (loose other (mem_of_getElem? there))
          cases union : hllUnion double traced.object other.object with
          | error fault =>
            rw [union] at inside
            refine ⟨inside.retype, fun _ impossible => ?_⟩
            cases impossible
          | ok joined =>
            obtain ⟨loose1, loose2⟩ := after joined union
            refine ⟨inside_ok _, ?_⟩
            intro objects' same
            rw [← Except.ok.inj same]
            intro third member
            obtain old | new := mem_or_eq_of_mem_set member
            · obtain older | newer := mem_or_eq_of_mem_set old
              · exact loose third older
              · rw [newer]
                exact loose1
            · rw [new]
              exact loose2
  | cardinality index =>
    exact actOn_stays double objects index (hllCardinality double) _ loose
      fun traced member => hllCardinality_stays double traced.object (loose traced member)

theorem hllRun_inside {ops : List HllOp} (later : ∀ op ∈ ops, op.Later)
    (loose : ∀ traced ∈ objects, Loose double traced.object) :
    Inside (hllRun double objects ops) := by
  induction ops generalizing objects with
  | nil => exact inside_ok _
  | cons op ops ih =>
    obtain ⟨inside, after⟩ := hllStep_stays double objects (later op mem_cons_self) loose
    exact inside.bind fun objects' step =>
      ih objects' (fun other member => later other (mem_cons_of_mem _ member))
        (after objects' step)

end Estimates

end OpenGauss.Hll.Stored
