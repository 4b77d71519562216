import OpenGauss.RowCompress.CmprMethods
import OpenGauss.RowCompress.PageTuples

/-!
# The header of a compressed row page

`ChooseCmprMethod` goes through the columns of the tuples of a page and `SetCmprHeaderData` writes,
for each column, the byte of its method and what the method remembers, one column behind the other,
into a buffer of one page. How much that is depends on how the values spread over the columns: a
column with one number takes a base value of its own, so many columns with few values each ask for
more than the tuples themselves take. The length is only looked at behind the loop, by an assertion.
-/

namespace OpenGauss.RowCompress

open List OpenGauss.Base

/-- A method with what it remembers (`m_cmprMode` and `m_cmprMeta`). -/
inductive CmprMethod where
  | cmprNone
  | cmprDelta (info : DeltaCmprMeta)
  | cmprDict (info : DictCmprMeta)
  | cmprPrefix (start : List UInt8)
  | cmprNumstr
  deriving DecidableEq

/-- The length from which on a shared start is not used (`MAX_PREFIX_LEN`). -/
def maxPrefixLen : Nat := 256

/-- Try a method for a column; also the count of failed dictionaries (`SetCmprMethod`). -/
def setCmprMethod (attr : FormPgAttribute) (colArray : ColArray) (dictMiss : Nat) :
    CmprMode → Option CmprMethod × Nat
  | .cmprDelta =>
    match (numTypeOpt attr.atttypid).bind (deltaGetCmprMeta colArray) with
    | none => (none, dictMiss)
    | some info =>
      if attr.attlen ≤ info.bytes then (none, dictMiss) else (some (.cmprDelta info), dictMiss)
  | .cmprDict =>
    let (info, missed) := dictGetCmprMeta colArray attr.attlen dictMiss
    (info.map .cmprDict, missed)
  | .cmprPrefix =>
    let start := prefixGetCmprMeta colArray
    if 0 < start.length ∧ start.length < maxPrefixLen then (some (.cmprPrefix start), dictMiss)
    else (none, dictMiss)
  | .cmprNumstr => (if numstrEvaluate colArray then some .cmprNumstr else none, dictMiss)
  | .cmprUndef => (none, dictMiss)
  | .cmprNone => (some .cmprNone, dictMiss)

/-- Try methods until one fits. -/
def tryCmprMethods (attr : FormPgAttribute) (colArray : ColArray) :
    List CmprMode → Nat → CmprMethod × Nat
  | [], dictMiss => (.cmprNone, dictMiss)
  | mode :: rest, dictMiss =>
    match setCmprMethod attr colArray dictMiss mode with
    | (some method, missed) => (method, missed)
    | (none, missed) => tryCmprMethods attr colArray rest missed

/-- The methods for numbers, the hint first (`ChooseMethodForFixedLenType`). -/
def fixedLenModes (hint : CmprMode) : List CmprMode :=
  hint :: [CmprMode.cmprDelta, .cmprDict].filter (· ≠ hint)

/-- The methods for strings, the hint first (`ChooseMethodForVaryLenType`). -/
def varyLenModes (hint : CmprMode) : List CmprMode :=
  hint :: [CmprMode.cmprDict, .cmprPrefix, .cmprNumstr].filter (· ≠ hint)

/-- The methods that are tried for a column, in their order (`ChooseCmprMethod`). -/
def columnModes (attr : FormPgAttribute) : List CmprMode :=
  if attr.attcmprmode = .cmprNone then []
  else if attr.isAttrDropped then []
  else if (numTypeOpt attr.atttypid).isSome then fixedLenModes attr.attcmprmode
  else if 0 < attr.attlen then []
  else varyLenModes attr.attcmprmode

/-- A column of the relation with its values on the page and its failed dictionaries. -/
structure Column where
  attr : FormPgAttribute
  colArray : ColArray
  /-- How often a dictionary failed (`m_dictMiss`). -/
  dictMiss : Nat

/-- The method of a column. -/
def chooseCmprMethod (column : Column) : CmprMethod × Nat :=
  tryCmprMethods column.attr column.colArray (columnModes column.attr) column.dictMiss

/-- What a column takes of the header (the body of the loop of `SetCmprHeaderData`). -/
def columnHeader (attr : FormPgAttribute) : CmprMethod → List UInt8
  | .cmprNone => [CmprMode.cmprNone.byte]
  | .cmprDelta info =>
    CmprMode.cmprDelta.byte :: UInt8.ofNat info.bytes ::
      leBytes attr.attlen.toNat info.minVal.toNat
  | .cmprDict info =>
    CmprMode.cmprDict.byte :: UInt8.ofNat info.dictItems.length :: info.dictItems.flatten
  | .cmprPrefix start => CmprMode.cmprPrefix.byte :: UInt8.ofNat start.length :: start
  | .cmprNumstr => [CmprMode.cmprNumstr.byte]

/-- What the loop of `SetCmprHeaderData` writes. -/
def cmprHeaderData (columns : List Column) : List UInt8 :=
  columns.flatMap (fun column => columnHeader column.attr (chooseCmprMethod column).1)

/-- The size of the header on the page (`m_cmprHeaderSize`). -/
def cmprHeaderSize (columns : List Column) : Nat :=
  if columns.all (fun column => (chooseCmprMethod column).1 = .cmprNone) then 0
  else maxAlign (cmprHeaderData columns).length

/-- Write the header into its buffer of a page, and tell its size on the page (`SetCmprHeaderData`).
There is no result when a write leaves the buffer. -/
def setCmprHeaderData (columns : List Column) : Option (List UInt8 × Nat) :=
  let data := cmprHeaderData columns
  if data.length ≤ blckSz then some (data, cmprHeaderSize columns) else none

/-- The values of a tuple. -/
abbrev Row := List (Option Datum)

/-- The values column by column (`DeformTups`). -/
def deformTups (attrs : List FormPgAttribute) (dictMiss : Nat → Nat) (tups : List (HeapTuple Row)) :
    List Column :=
  attrs.mapIdx fun col attr =>
    ⟨attr, tups.map (fun tuple => (tuple.body[col]?).join), dictMiss col⟩

/-- Whether a value can have a header of one byte (`ATT_IS_PACKABLE` and
`VARATT_CAN_MAKE_SHORT`). -/
def canMakeShort (attr : FormPgAttribute) : Datum → Bool
  | .varlena (.full payload) =>
    attr.attlen == -1 && !attr.plainStorage && decide (payload.length + 1 ≤ 0x7F)
  | _ => false

/-- The form of a value in a tuple (`heap_fill_tuple`). -/
def storedForm (attr : FormPgAttribute) (value : Datum) : Datum :=
  match value with
  | .varlena (.full payload) =>
    if canMakeShort attr value then .varlena (.short payload) else value
  | _ => value

/-- The size of a value with its padding, behind some data (`att_align_datum` and
`att_addlength_datum`). -/
def addDatum (attr : FormPgAttribute) (length : Nat) : Datum → Nat
  | .varlena (.short payload) => length + (payload.length + 1)
  | .varlena value =>
    (length + attr.attalign.width - 1) / attr.attalign.width * attr.attalign.width +
      (value.data.length + 4)
  | .cstring value =>
    (length + attr.attalign.width - 1) / attr.attalign.width * attr.attalign.width +
      (value.chars.length + 1)
  | _ =>
    (length + attr.attalign.width - 1) / attr.attalign.width * attr.attalign.width +
      attr.attlen.toNat

/-- The size of the values of a tuple (`heap_compute_data_size`). -/
def heapComputeDataSize : List FormPgAttribute → Row → Nat → Nat
  | attr :: attrs, some value :: row, length =>
    heapComputeDataSize attrs row (addDatum attr length (storedForm attr value))
  | _ :: attrs, none :: row, length => heapComputeDataSize attrs row length
  | _, _, length => length

/-- The bytes of a tuple in front of the null bitmap (`offsetof(HeapTupleHeaderData, t_bits)`). -/
def sizeOfHeapTupleHeader : Nat := 23

/-- The length of a tuple. -/
def heapTupleLen (attrs : List FormPgAttribute) (hasOid : Bool) (row : Row) : Nat :=
  maxAlign (sizeOfHeapTupleHeader + (if none ∈ row then (attrs.length + 7) / 8 else 0) +
    if hasOid then 4 else 0) + heapComputeDataSize attrs row 0

/-- A tuple of a relation (`heap_form_tuple`). -/
def heapFormTuple (attrs : List FormPgAttribute) (hasOid : Bool) (row : Row) : HeapTuple Row where
  len := heapTupleLen attrs hasOid row
  hasExternal := false
  body := List.zipWith (fun attr value => value.map (storedForm attr)) attrs row

/-- Whether a value is one of a column. -/
def Datum.Fits (attr : FormPgAttribute) : Datum → Prop
  | .byVal _ => 0 < attr.attlen ∧ attr.attlen ≤ 8
  | .byRef data => attr.attlen = data.length ∧ 0 < data.length ∧ numTypeOpt attr.atttypid = none
  | .varlena _ => attr.attlen = -1
  | .cstring _ => attr.attlen = -2

/-- The rows of a relation. -/
def RowFits (attrs : List FormPgAttribute) (row : Row) : Prop :=
  List.Forall₂ (fun attr value => ∀ datum ∈ value, Datum.Fits attr datum) attrs row

/-- The tuples that the first step of `CompressOnePage` takes for one page. -/
structure Admitted (attrs : List FormPgAttribute) (hasOid : Bool) (fillFactor : Nat)
    (tups : List (HeapTuple Row)) : Prop where
  formed : ∀ tuple ∈ tups, ∃ row, RowFits attrs row ∧ tuple = heapFormTuple attrs hasOid row
  untoasted : ∀ tuple ∈ tups, isToastTuple tuple = false
  fills : sizeOfHeapPageHeaderData + (tups.map getTupleSpace).sum ≤ targetPageUsage fillFactor

section Needs

/-- The keys of a column that repeat often enough for a dictionary. -/
def Column.repeated (column : Column) : List (List UInt8) :=
  repeatedKeys column.colArray.length
    (column.colArray.present.map (fillHashKey column.attr.attlen))

/-- What a method takes of the header for a column, if the values of the column suit the method. -/
def modeNeeds (column : Column) : CmprMode → Option Nat
  | .cmprDelta =>
    match numTypeOpt column.attr.atttypid with
    | none => none
    | some opt =>
      if DeltaFits opt (column.colArray.present.map Datum.word) then some (2 + opt.width) else none
  | .cmprDict =>
    if column.dictMiss ≤ dictMissThreshold ∧ column.repeated ≠ [] then
      some (2 + (column.repeated.map List.length).sum)
    else none
  | .cmprPrefix =>
    let shared := sharedStart (column.colArray.present.map Datum.contents)
    if 0 < shared ∧ shared < maxPrefixLen then some (2 + shared) else none
  | .cmprNumstr =>
    if LooksNumeric (column.colArray.present.map Datum.contents) then some 1 else none
  | .cmprUndef => none
  | .cmprNone => some 1

/-- What a column takes of the header: the first method that suits its values decides. -/
def columnNeeds (column : Column) : Nat :=
  ((columnModes column.attr).findSome? (modeNeeds column)).getD 1

variable (column : Column) (attr : FormPgAttribute)

/-- A method is chosen when the values suit it, and writes what it needs. -/
theorem setCmprMethod_needs (few : column.colArray.length < 768) (mode : CmprMode) :
    (setCmprMethod column.attr column.colArray column.dictMiss mode).1.map
      (fun method => (columnHeader column.attr method).length) = modeNeeds column mode := by
  cases mode with
  | cmprNone | cmprUndef => rfl
  | cmprNumstr =>
    have exact := numstrEvaluate_iff column.colArray
    simp only [setCmprMethod, modeNeeds]
    by_cases numeric : LooksNumeric (column.colArray.present.map Datum.contents)
    · rw [if_pos (exact.mpr numeric), if_pos numeric]
      rfl
    · rw [if_neg (fun found => numeric (exact.mp found)), if_neg numeric]
      rfl
  | cmprPrefix =>
    have exact := prefixGetCmprMeta_length column.colArray
    simp only [setCmprMethod, modeNeeds, ← exact]
    split_ifs with within
    · simp only [Option.map_some, columnHeader, length_cons]
      congr 1
      omega
    · rfl
  | cmprDict =>
    have exact := chooseItems_perm few
      (column.colArray.present.map (fillHashKey column.attr.attlen))
      (by
        rw [length_map]
        exact length_filterMap_le id column.colArray)
    simp only [setCmprMethod, modeNeeds, dictGetCmprMeta]
    by_cases tired : dictMissThreshold < column.dictMiss
    · rw [if_pos tired, if_neg (by omega)]
      rfl
    · rw [if_neg tired]
      cases items : chooseItems column.colArray.length
        (column.colArray.present.map (fillHashKey column.attr.attlen)) (fun _ => none) [] with
      | nil =>
        rw [items] at exact
        have nothing : column.repeated = [] := List.Perm.nil_eq exact |>.symm
        rw [if_neg (by simp [nothing])]
        rfl
      | cons first rest =>
        rw [items] at exact
        have something : column.repeated ≠ [] := by
          intro nothing
          rw [show repeatedKeys _ _ = _ from nothing] at exact
          exact absurd exact.length_eq (by simp)
        rw [if_pos ⟨by omega, something⟩]
        have sizes := (exact.map List.length).sum_eq
        simp only [Option.map_some, columnHeader, length_cons, length_flatten]
        unfold Column.repeated
        lia
  | cmprDelta =>
    simp only [setCmprMethod, modeNeeds]
    cases number : numTypeOpt column.attr.atttypid with
    | none => rfl
    | some opt =>
      have exact := deltaGetCmprMeta_fits column.colArray opt
      have length := column.attr.numberLen opt number
      dsimp only [Option.bind_some]
      by_cases fits : DeltaFits opt (column.colArray.present.map Datum.word)
      · obtain ⟨info, found, fewer⟩ := exact.mpr fits
        rw [found, if_pos fits]
        dsimp only
        rw [if_neg (by omega)]
        simp only [Option.map_some, columnHeader, length_cons, leBytes_length]
        congr 1
        omega
      · rw [if_neg fits]
        cases found : deltaGetCmprMeta column.colArray opt with
        | none => rfl
        | some info =>
          have wide : ¬ info.bytes < opt.width := fun fewer => fits (exact.mp ⟨info, found, fewer⟩)
          dsimp only
          rw [if_pos (by omega)]
          rfl

/-- Only the dictionary counts as failed. -/
theorem setCmprMethod_dictMiss (colArray : ColArray) (dictMiss : Nat)
    (mode : CmprMode) (other : mode ≠ .cmprDict) :
    (setCmprMethod attr colArray dictMiss mode).2 = dictMiss := by
  cases mode with
  | cmprDict => exact absurd rfl other
  | cmprDelta =>
    simp only [setCmprMethod]
    split
    · rfl
    · split_ifs <;> rfl
  | cmprPrefix =>
    simp only [setCmprMethod]
    split_ifs <;> rfl
  | cmprNone | cmprNumstr | cmprUndef => rfl

theorem modeNeeds_dictMiss (dictMiss : Nat) (mode : CmprMode) (other : mode ≠ .cmprDict) :
    modeNeeds { column with dictMiss := dictMiss } mode = modeNeeds column mode := by
  cases mode with
  | cmprDict => exact absurd rfl other
  | cmprDelta | cmprPrefix | cmprNone | cmprNumstr | cmprUndef => rfl

/-- The method that is taken needs its bytes. -/
theorem tryCmprMethods_needs (column : Column) (few : column.colArray.length < 768) :
    ∀ (modes : List CmprMode) (dictMiss : Nat), modes.Nodup →
      (dictMiss = column.dictMiss ∨ CmprMode.cmprDict ∉ modes) →
      (columnHeader column.attr
        (tryCmprMethods column.attr column.colArray modes dictMiss).1).length =
        (modes.findSome? (modeNeeds column)).getD 1
  | [], _, _, _ => rfl
  | mode :: rest, dictMiss, nodup, fresh => by
    have same : modeNeeds { column with dictMiss := dictMiss } mode = modeNeeds column mode := by
      rcases fresh with rfl | absent
      · rfl
      · apply modeNeeds_dictMiss
        rintro rfl
        exact absent mem_cons_self
    have needs := setCmprMethod_needs { column with dictMiss := dictMiss } few mode
    rw [same] at needs
    rw [tryCmprMethods, findSome?_cons, ← needs]
    cases attempt : setCmprMethod column.attr column.colArray dictMiss mode with
    | mk found missed =>
      cases found with
      | some method => rfl
      | none =>
        apply tryCmprMethods_needs column few rest missed (nodup_cons.mp nodup).2
        by_cases dictionary : mode = .cmprDict
        · right
          rw [← dictionary]
          exact (nodup_cons.mp nodup).1
        · have kept := setCmprMethod_dictMiss column.attr column.colArray dictMiss mode dictionary
          rw [attempt] at kept
          rw [show missed = dictMiss from kept]
          exact fresh.imp id (fun absent member => absent (mem_cons_of_mem _ member))

theorem columnModes_nodup : (columnModes attr).Nodup := by
  have fixed : ∀ hint, (fixedLenModes hint).Nodup := by
    intro hint
    cases hint <;> decide
  have vary : ∀ hint, (varyLenModes hint).Nodup := by
    intro hint
    cases hint <;> decide
  unfold columnModes
  split_ifs
  · exact nodup_nil
  · exact nodup_nil
  · exact fixed _
  · exact nodup_nil
  · exact vary _

theorem cmprHeaderData_length (columns : List Column)
    (few : ∀ column ∈ columns, column.colArray.length < 768) :
    (cmprHeaderData columns).length = (columns.map columnNeeds).sum := by
  unfold cmprHeaderData
  rw [length_flatMap]
  congr 1
  apply map_congr_left
  intro column member
  exact tryCmprMethods_needs column (few column member) _ _ (columnModes_nodup column.attr)
    (Or.inl rfl)

end Needs

section Admission

variable (column : Column) (attrs : List FormPgAttribute)

theorem heapFormTuple_space (hasOid : Bool) (row : Row) :
    28 ≤ getTupleSpace (heapFormTuple attrs hasOid row) := by
  simp only [getTupleSpace, heapFormTuple, heapTupleLen, sizeOfItemIdData, sizeOfHeapTupleHeader,
    maxAlign]
  lia

theorem Admitted.few {attrs : List FormPgAttribute} {hasOid : Bool} {fillFactor : Nat}
    {tups : List (HeapTuple Row)} (admitted : Admitted attrs hasOid fillFactor tups)
    (factor : fillFactor ≤ 100) : tups.length < 768 := by
  have spaces : tups.length * 28 ≤ (tups.map getTupleSpace).sum := by
    have each := card_nsmul_le_sum (tups.map getTupleSpace) 28 (by
      intro space member
      obtain ⟨tuple, inside, rfl⟩ := mem_map.mp member
      obtain ⟨row, _, rfl⟩ := admitted.formed tuple inside
      exact heapFormTuple_space attrs hasOid row)
    rwa [nsmul_eq_mul, Nat.cast_id, length_map] at each
  have fills := admitted.fills
  simp only [targetPageUsage, blckSz] at fills
  lia

theorem deformTups_length {dictMiss : Nat → Nat}
    {tups : List (HeapTuple Row)} {column : Column}
    (member : column ∈ deformTups attrs dictMiss tups) :
    column.colArray.length = tups.length := by
  obtain ⟨col, inside, rfl⟩ := mem_mapIdx.mp member
  exact length_map _

/-- The header of a page stays in its buffer exactly when the bytes of the methods, the base values
of the numbers, the values that repeat and the shared starts of the columns add up to no more. -/
theorem cmprHeaderData_within_buffer (attrs : List FormPgAttribute) (hasOid : Bool)
    (fillFactor : Nat) (factor : fillFactor ≤ 100) (dictMiss : Nat → Nat)
    (tups : List (HeapTuple Row)) (admitted : Admitted attrs hasOid fillFactor tups) :
    (cmprHeaderData (deformTups attrs dictMiss tups)).length ≤ blckSz ↔
      ((deformTups attrs dictMiss tups).map columnNeeds).sum ≤ blckSz := by
  rw [cmprHeaderData_length]
  intro column member
  rw [deformTups_length attrs member]
  exact admitted.few factor

/-- A column of numbers of four bytes without a hint. -/
def int4Attr : FormPgAttribute where
  atttypid := 23
  attlen := 4
  attalign := .int
  plainStorage := true
  attcmprmode := .cmprUndef
  verified := rfl
  numberLen := by decide

/-- A row of 1600 columns that has numbers in 400 of them. -/
def sparseRow (quarter : Nat) : Row :=
  (List.range 1600).map fun col => if col / 400 = quarter then some (.byVal 7) else none

/-- The tuple of such a row. -/
def sparseTuple (quarter : Nat) : HeapTuple Row :=
  heapFormTuple (List.replicate 1600 int4Attr) false (sparseRow quarter)

theorem sparseRow_fits (quarter : Nat) :
    RowFits (List.replicate 1600 int4Attr) (sparseRow quarter) := by
  apply List.forall₂_iff_get.mpr
  refine ⟨?_, fun index low high datum member => ?_⟩
  · rw [length_replicate, sparseRow, length_map, length_range]
  have attr : (List.replicate 1600 int4Attr).get ⟨index, low⟩ = int4Attr := by
    rw [get_eq_getElem, getElem_replicate]
  have value : datum = .byVal 7 := by
    simp only [sparseRow, get_eq_getElem, getElem_map, Option.mem_def] at member
    split_ifs at member
    exact (Option.some.inj member).symm
  rw [attr, value]
  exact ⟨by decide, by decide⟩

theorem sparseTuple_len : ∀ quarter < 4, (sparseTuple quarter).len = 1824 := by
  decide +kernel

theorem sparseTuple_body (quarter col : Nat) (low : col < 1600) : (sparseTuple quarter).body[col]? =
      some (if col / 400 = quarter then some (.byVal 7) else none) := by
  simp only [sparseTuple, heapFormTuple, sparseRow, getElem?_zipWith, getElem?_replicate,
    getElem?_map, getElem?_range low, Option.map_some]
  split_ifs <;> rfl

section

variable
  (member : column ∈ deformTups (List.replicate 1600 int4Attr) (fun _ => 0) ((List.range 4).map sparseTuple))
include member

theorem sparseTuple_column : ∃ quarter < 4, column = ⟨int4Attr,
      (List.range 4).map fun row => if quarter = row then some (.byVal 7) else none, 0⟩ := by
  obtain ⟨col, inside, rfl⟩ := mem_mapIdx.mp member
  have low : col < 1600 := by rwa [length_replicate] at inside
  refine ⟨col / 400, by omega, ?_⟩
  have values : ((List.range 4).map sparseTuple).map (fun tuple => (tuple.body[col]?).join) =
      (List.range 4).map fun row => if col / 400 = row then some (.byVal 7) else none := by
    rw [map_map]
    apply map_congr_left
    intro row _
    rw [Function.comp_apply, sparseTuple_body row col low]
    rfl
  rw [getElem_replicate, values]

theorem sparseTuple_header :
    (columnHeader column.attr (chooseCmprMethod column).1).length = 6 := by
  have each : ∀ quarter < 4, (columnHeader int4Attr (chooseCmprMethod ⟨int4Attr,
      (List.range 4).map fun row => if quarter = row then some (.byVal 7) else none, 0⟩).1).length =
      6 := by
    decide
  obtain ⟨quarter, low, rfl⟩ := sparseTuple_column column member
  exact each quarter low

end

theorem sparseTuple_space : (((List.range 4).map sparseTuple).map getTupleSpace).sum = 7312 := by
  have spaces : ∀ quarter ∈ List.range 4, (getTupleSpace ∘ sparseTuple) quarter = 1828 := by
    intro quarter low
    rw [Function.comp_apply, getTupleSpace, sparseTuple_len quarter (mem_range.mp low)]
    rfl
  rw [map_map, map_congr_left spaces]
  decide

theorem sparseTuple_admitted :
    Admitted (List.replicate 1600 int4Attr) false 100 ((List.range 4).map sparseTuple) := by
  have lengths := sparseTuple_len
  refine ⟨fun tuple member => ?_, fun tuple member => ?_, ?_⟩
  · obtain ⟨quarter, _, rfl⟩ := mem_map.mp member
    exact ⟨sparseRow quarter, sparseRow_fits quarter, rfl⟩
  · obtain ⟨quarter, low, rfl⟩ := mem_map.mp member
    have external : (sparseTuple quarter).hasExternal = false := rfl
    rw [isToastTuple, lengths quarter (mem_range.mp low), external]
    decide
  · rw [sparseTuple_space]
    decide

/-- The header of a page of 1600 columns leaves its buffer; the page is full, since none of its
tuples fits a second time. -/
theorem cmprHeaderData_within_buffer_columns :
    Admitted (List.replicate 1600 int4Attr) false 100 ((List.range 4).map sparseTuple) ∧
      targetPageUsage 100 < sizeOfHeapPageHeaderData +
        (((List.range 4).map sparseTuple).map getTupleSpace).sum + getTupleSpace (sparseTuple 0) ∧
      ¬ (cmprHeaderData (deformTups (List.replicate 1600 int4Attr) (fun _ => 0)
        ((List.range 4).map sparseTuple))).length ≤ blckSz := by
  refine ⟨sparseTuple_admitted, ?_, ?_⟩
  · rw [sparseTuple_space, getTupleSpace, sparseTuple_len 0 (by decide)]
    decide
  · have six := map_congr_left sparseTuple_header
    rw [cmprHeaderData, length_flatMap, six, map_const', sum_replicate, deformTups,
      length_mapIdx, length_replicate]
    decide

/-- A column of texts without a hint. -/
def textAttr : FormPgAttribute where
  atttypid := 25
  attlen := -1
  attalign := .int
  plainStorage := false
  attcmprmode := .cmprUndef
  verified := rfl
  numberLen := by decide

/-- A relation with a number and three texts. -/
def mixedAttrs : List FormPgAttribute := [int4Attr, textAttr, textAttr, textAttr]

/-- A row with a number and texts of some characters. -/
def mixedRow (number : BitVec 64) (first second third : List UInt8) : Row :=
  [some (.byVal number), some (.varlena (.full first)), some (.varlena (.full second)),
    some (.varlena (.full third))]

theorem mixedRow_fits (number : BitVec 64) (first second third : List UInt8) :
    RowFits mixedAttrs (mixedRow number first second third) := by
  have text (chars : List UInt8) : ∀ datum ∈ some (Datum.varlena (.full chars)),
      Datum.Fits textAttr datum := by
    rintro datum ⟨⟩
    rfl
  refine .cons ?_ (.cons (text first) (.cons (text second) (.cons (text third) .nil)))
  rintro datum ⟨⟩
  exact ⟨by decide, by decide⟩

/-- Three tuples with near numbers, a shared start, digits and one text three times. -/
def mixedTups : List (HeapTuple Row) :=
  [heapFormTuple mixedAttrs false (mixedRow 7 [97, 98, 49] [49, 50] [120, 121]),
    heapFormTuple mixedAttrs false (mixedRow 9 [97, 98, 50] [51, 52] [120, 121]),
    heapFormTuple mixedAttrs false (mixedRow 12 [97, 98, 51] [53, 54] [120, 121])]

theorem mixedTups_admitted : Admitted mixedAttrs false 100 mixedTups := by
  refine ⟨?_, by decide, by decide⟩
  simp only [mixedTups, forall_mem_cons, not_mem_nil, IsEmpty.forall_iff, implies_true, and_true]
  exact ⟨⟨_, mixedRow_fits _ _ _ _, rfl⟩, ⟨_, mixedRow_fits _ _ _ _, rfl⟩,
    ⟨_, mixedRow_fits _ _ _ _, rfl⟩⟩

/-- The columns take a base value, a shared start, nothing more and a dictionary. -/
theorem cmprHeaderData_within_buffer_mixed :
    cmprHeaderData (deformTups mixedAttrs (fun _ => 0) mixedTups) =
        [1, 1, 7, 0, 0, 0, 3, 2, 97, 98, 4, 2, 1, 7, 120, 121] ∧
      ((deformTups mixedAttrs (fun _ => 0) mixedTups).map columnNeeds).sum ≤ blckSz :=
  ⟨by decide, (cmprHeaderData_within_buffer mixedAttrs false 100 (by decide) (fun _ => 0) mixedTups
    mixedTups_admitted).mp (by decide)⟩

end Admission

end OpenGauss.RowCompress
