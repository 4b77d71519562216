import OpenGauss.RowCompress.CmprValues

/-!
# Row compression restores what it compresses

What a method remembers was taken from values of the column, so it has a form that the header can
hold: the base value is a number of the type, the items have the sizes that are read from them, and
counts and lengths fit the bytes they are stored in. In particular a dictionary has fewer than
fourteen items, so its count is read back with the right sign. From this the header is read back
column by column, and each codec gives back the values it was applied to.
-/

namespace OpenGauss.RowCompress

open List OpenGauss.Base

/-- The values that a column of a tuple on a page has. -/
inductive Datum.Stored (attr : FormPgAttribute) : Datum → Prop where
  | byVal (word : BitVec 64) (some_bytes : 0 < attr.attlen) (few_bytes : attr.attlen ≤ 8)
      (fits : word.toNat < 256 ^ attr.attlen.toNat) : Stored attr (.byVal word)
  | byRef (data : List UInt8) (length : attr.attlen = data.length) (some_bytes : 0 < data.length)
      (other : numTypeOpt attr.atttypid = none) : Stored attr (.byRef data)
  | string (value : Datum) (kind : IsString attr.attlen value) : Stored attr value

/-- What is known of a method that was chosen for a column. -/
inductive MethodFits (column : Column) : CmprMethod → Prop where
  | cmprNone : MethodFits column .cmprNone
  /-- There is a base value, a number of the column, and distances are shorter than numbers. -/
  | cmprDelta (opt : NumberTypeOpt) (info : DeltaCmprMeta)
      (number : numTypeOpt column.attr.atttypid = some opt) (narrow : info.bytes < opt.width)
      (base : info.minVal ∈ column.colArray.present.map Datum.word) :
      MethodFits column (.cmprDelta info)
  | cmprDict (info : DictCmprMeta) (few : info.dictItems.length < 14)
      (some_items : info.dictItems ≠ [])
      (items : ∀ item ∈ info.dictItems, ∃ value ∈ column.colArray.present,
        fillHashKey column.attr.attlen value = item) :
      MethodFits column (.cmprDict info)
  | cmprPrefix (start : List UInt8) (some_bytes : 0 < start.length)
      (few_bytes : start.length < maxPrefixLen)
      (first : ∃ value ∈ column.colArray.present, start = value.contents.take start.length) :
      MethodFits column (.cmprPrefix start)
  | cmprNumstr (string : ∃ value ∈ column.colArray.present, value.contents ≠ []) :
      MethodFits column .cmprNumstr

section Choosing

/-- The base is one of the values. -/
theorem deltaGetCmprMeta_minVal {colArray : ColArray} {opt : NumberTypeOpt} {info : DeltaCmprMeta}
    (found : deltaGetCmprMeta colArray opt = some info) :
    info.minVal ∈ colArray.present.map Datum.word := by
  unfold deltaGetCmprMeta at found
  cases values : colArray.present.map Datum.word with
  | nil =>
    rw [values] at found
    cases found
  | cons first rest =>
    rw [values] at found
    have covers : Covers opt (rest.foldl opt.widen (first, first)) (first :: rest) := by
      apply opt.foldl_widen_covers rest [first] (first, first)
      exact ⟨by simp, by simp, by simp⟩
    dsimp only at found
    split_ifs at found
    cases found
    exact covers.low

variable (column : Column)

/-- A method that is set fits its column. -/
theorem setCmprMethod_fits (few : column.colArray.length < 768) (dictMiss : Nat)
    (mode : CmprMode) {method : CmprMethod}
    (set : (setCmprMethod column.attr column.colArray dictMiss mode).1 = some method) :
    MethodFits column method := by
  cases mode with
  | cmprNone =>
    cases set
    exact .cmprNone
  | cmprUndef => cases set
  | cmprNumstr =>
    simp only [setCmprMethod] at set
    split_ifs at set with numeric
    cases set
    have looks := (numstrEvaluate_iff column.colArray).mp numeric
    obtain ⟨string, member⟩ := exists_mem_of_ne_nil _ looks.1
    have kept := mem_filter.mp (mem_of_mem_take member)
    obtain ⟨value, present, rfl⟩ := mem_map.mp kept.1
    exact .cmprNumstr ⟨value, present, by simpa using kept.2⟩
  | cmprPrefix =>
    simp only [setCmprMethod] at set
    split_ifs at set with within
    cases set
    refine .cmprPrefix _ within.1 within.2 ?_
    unfold prefixGetCmprMeta at within ⊢
    rcases values : column.colArray.present.map Datum.contents with _ | ⟨first, _ | ⟨second, rest⟩⟩
    · rw [values] at within
      exact absurd within.1 (by simp)
    · rw [values] at within
      exact absurd within.1 (by simp)
    · have member : first ∈ column.colArray.present.map Datum.contents := by
        rw [values]
        exact mem_cons_self
      obtain ⟨value, present, contents⟩ := mem_map.mp member
      refine ⟨value, present, ?_⟩
      dsimp only at within ⊢
      split_ifs with apart
      · rfl
      · rw [contents, length_take, ← take_take, take_length]
  | cmprDict =>
    simp only [setCmprMethod, dictGetCmprMeta] at set
    by_cases tired : dictMissThreshold < dictMiss
    · rw [if_pos tired] at set
      cases set
    rw [if_neg tired] at set
    have fits : (column.colArray.present.map (fillHashKey column.attr.attlen)).length ≤
        column.colArray.length := by
      rw [length_map]
      exact length_filterMap_le id column.colArray
    have perm := chooseItems_perm few _ fits
    have short := chooseItems_few few _ fits
    cases items : chooseItems column.colArray.length
      (column.colArray.present.map (fillHashKey column.attr.attlen)) (fun _ => none) [] with
    | nil =>
      rw [items] at set
      cases set
    | cons first rest =>
      rw [items] at set perm short
      cases set
      refine .cmprDict _ short (by simp) fun item member => ?_
      have repeated := perm.mem_iff.mp member
      have key := mem_dedup.mp (mem_filter.mp repeated).1
      exact mem_map.mp key
  | cmprDelta =>
    simp only [setCmprMethod] at set
    cases number : numTypeOpt column.attr.atttypid with
    | none =>
      rw [number] at set
      cases set
    | some opt =>
      rw [number, Option.bind_some] at set
      cases found : deltaGetCmprMeta column.colArray opt with
      | none =>
        rw [found] at set
        cases set
      | some info =>
        rw [found] at set
        dsimp only at set
        split_ifs at set with wide
        cases set
        have length := column.attr.numberLen opt number
        exact .cmprDelta opt info number (by omega) (deltaGetCmprMeta_minVal found)

/-- The method that is chosen fits its column. -/
theorem chooseCmprMethod_fits (few : column.colArray.length < 768) :
    MethodFits column (chooseCmprMethod column).1 := by
  have tried : ∀ (modes : List CmprMode) (dictMiss : Nat),
      MethodFits column (tryCmprMethods column.attr column.colArray modes dictMiss).1 := by
    intro modes
    induction modes with
    | nil => exact fun _ => .cmprNone
    | cons mode rest ih =>
      intro dictMiss
      rw [tryCmprMethods]
      cases attempt : setCmprMethod column.attr column.colArray dictMiss mode with
      | mk found missed =>
        cases found with
        | none => exact ih missed
        | some method =>
          exact setCmprMethod_fits column few dictMiss mode (by rw [attempt])
  exact tried _ _

theorem chooseCmprMethod_fixed (other : numTypeOpt column.attr.atttypid = none)
    (fixed : 0 < column.attr.attlen) : (chooseCmprMethod column).1 = .cmprNone := by
  unfold chooseCmprMethod columnModes
  rw [other]
  simp [fixed, tryCmprMethods]

end Choosing

section Fetching

/-- What is read back of a method. -/
def CmprMethod.fetched : CmprMethod → FetchedMeta
  | .cmprNone => .cmprNone
  | .cmprDelta info => .cmprDelta info.bytes info.minVal
  | .cmprDict info => .cmprDict info.dictItems.length info.dictItems
  | .cmprPrefix start => .cmprPrefix start
  | .cmprNumstr => .cmprNumstr

theorem signedChar_ofNat (number : Nat) (small : number < 128) :
    signedChar (UInt8.ofNat number) = number := by
  unfold signedChar
  rw [UInt8.toNat_ofNat', Nat.mod_eq_of_lt (by omega), if_pos small]

/-- The size of an item is read from its own bytes. -/
theorem dictItemSize_key {attr : FormPgAttribute} {value : Datum} (stored : value.Stored attr)
    (rest : List UInt8) : dictItemSize attr.attlen (fillHashKey attr.attlen value ++ rest) =
      (fillHashKey attr.attlen value).length := by
  unfold dictItemSize
  cases stored with
  | byVal word some_bytes few_bytes fits =>
    rw [if_pos some_bytes]
    exact (leBytes_length _ _).symm
  | byRef data length some_bytes other =>
    have size : (fillHashKey attr.attlen (.byRef data)).length = data.length := rfl
    lia
  | string value kind =>
    generalize attr.attlen = attlen at kind
    cases kind with
    | varlena value sized =>
      exact (varlenaAt_bytes value sized rest).2
    | cstring value =>
      have read := cstringAt_chars value rest
      rw [if_neg (by omega), if_neg (by omega)]
      rw [show fillHashKey (-2) (.cstring value) = value.chars ++ [0] from rfl, read,
        length_append, length_singleton]

theorem fetchDictItems_flatten (attr : FormPgAttribute) : ∀ (items : List (List UInt8))
    (rest : List UInt8),
    (∀ item ∈ items, ∃ value, Datum.Stored attr value ∧ fillHashKey attr.attlen value = item) →
      fetchDictItems attr.attlen items.length (items.flatten ++ rest) = items
  | [], _, _ => rfl
  | item :: items, rest, keys => by
    obtain ⟨value, stored, rfl⟩ := keys item mem_cons_self
    have size := dictItemSize_key stored (items.flatten ++ rest)
    rw [length_cons, fetchDictItems, flatten_cons, append_assoc, size, take_left, drop_left,
      fetchDictItems_flatten attr items rest (fun other member => keys other
        (mem_cons_of_mem _ member))]

/-- What was written for a column is read back. -/
theorem fetchAttrCmprMeta_columnHeader {column : Column}
    (stored : ∀ value ∈ column.colArray.present, value.Stored column.attr) {method : CmprMethod}
    (fits : MethodFits column method) (rest : List UInt8) :
    fetchAttrCmprMeta (columnHeader column.attr method ++ rest) column.attr.attlen =
      some (method.fetched, (columnHeader column.attr method).length) := by
  cases fits with
  | cmprNone | cmprNumstr => rfl
  | cmprPrefix start some_bytes few_bytes first =>
    unfold maxPrefixLen at few_bytes
    have length : (UInt8.ofNat start.length).toNat = start.length := by
      rw [UInt8.toNat_ofNat', Nat.mod_eq_of_lt few_bytes]
    have read : fetchAttrCmprMeta (columnHeader column.attr (.cmprPrefix start) ++ rest)
        column.attr.attlen =
        some (.cmprPrefix ((start ++ rest).take (UInt8.ofNat start.length).toNat),
          2 + (UInt8.ofNat start.length).toNat) := rfl
    rw [read, length, take_left, columnHeader, length_cons, length_cons]
    congr 2
    omega
  | cmprDelta opt info number narrow base =>
    have wide : opt.width ≤ 8 := by cases opt <;> decide
    have length := column.attr.numberLen opt number
    have read : fetchAttrCmprMeta (columnHeader column.attr (.cmprDelta info) ++ rest)
        column.attr.attlen =
        some (.cmprDelta (signedChar (UInt8.ofNat info.bytes)) (fetchAtt column.attr.attlen
          (leBytes column.attr.attlen.toNat info.minVal.toNat ++ rest)),
          2 + column.attr.attlen.toNat) := rfl
    obtain ⟨value, present, word⟩ := mem_map.mp base
    have bounded : info.minVal.toNat < 256 ^ column.attr.attlen.toNat := by
      rw [← word]
      cases stored value present with
      | byVal word some_bytes few_bytes fits => exact fits
      | byRef data _ _ _ => exact Nat.pow_pos (by omega)
      | string value kind =>
        generalize column.attr.attlen = attlen at kind length
        cases kind with
        | varlena _ _ => omega
        | cstring _ => omega
    rw [read, signedChar_ofNat _ (by lia), fetchAtt_leBytes _ bounded, columnHeader,
      length_cons, length_cons, leBytes_length]
    congr 2
    lia
  | cmprDict info few some_items items =>
    have count := signedChar_ofNat info.dictItems.length (by omega)
    have read : fetchAttrCmprMeta (columnHeader column.attr (.cmprDict info) ++ rest)
        column.attr.attlen =
        some (.cmprDict (signedChar (UInt8.ofNat info.dictItems.length))
          (fetchDictItems column.attr.attlen (signedChar (UInt8.ofNat info.dictItems.length)).toNat
            (info.dictItems.flatten ++ rest)),
          2 + ((fetchDictItems column.attr.attlen
            (signedChar (UInt8.ofNat info.dictItems.length)).toNat
            (info.dictItems.flatten ++ rest)).map List.length).sum) := rfl
    have fetched := fetchDictItems_flatten column.attr info.dictItems rest (fun item member => by
      obtain ⟨value, present, key⟩ := items item member
      exact ⟨value, stored value present, key⟩)
    rw [read, count, Int.toNat_natCast, fetched, columnHeader, length_cons, length_cons,
      length_flatten]
    congr 2
    omega

end Fetching

section Restoring

variable (attr : FormPgAttribute) (value : Datum)

variable {attr}

/-- The item of a dictionary is restored. -/
theorem dictUncompress_key (stored : value.Stored attr)
    (typed : (numTypeOpt attr.atttypid).isSome ∨ attr.attlen ≤ 0) {items : List (List UInt8)}
    {id : Nat} (item : items[id]? = some (fillHashKey attr.attlen value)) :
    ∃ restored, dictUncompress items id attr.attlen = some restored ∧ restored.SameValue value := by
  have place : items.getD id [] = fillHashKey attr.attlen value := by
    rw [getD_eq_getElem?_getD, item, Option.getD_some]
  unfold dictUncompress
  rw [place]
  cases stored with
  | byVal word some_bytes few_bytes fits =>
    obtain ⟨opt, number⟩ := Option.isSome_iff_exists.mp (typed.resolve_right (by omega))
    have length := attr.numberLen opt number
    have size : attr.attlen = 2 ∨ attr.attlen = 4 ∨ attr.attlen = 8 := by
      rw [length]
      cases opt <;> simp [NumberTypeOpt.width]
    have read := fetchAtt_leBytes [] fits
    rw [append_nil] at read
    rw [if_pos some_bytes, if_pos size]
    exact ⟨_, rfl, congrArg Datum.byVal read⟩
  | byRef data length some_bytes other =>
    rw [other] at typed
    rcases typed with impossible | short
    · cases impossible
    · omega
  | string value kind =>
    generalize attr.attlen = attlen at kind
    cases kind with
    | varlena value sized =>
      have read := varlenaAt_bytes value sized []
      rw [append_nil] at read
      refine ⟨_, rfl, ?_⟩
      rw [show fillHashKey (-1) (.varlena value) = value.bytes from rfl, read.1]
      exact ⟨rfl, rfl⟩
    | cstring value =>
      have read := cstringAt_chars value []
      rw [append_nil] at read
      refine ⟨_, rfl, ?_⟩
      rw [show fillHashKey (-2) (.cstring value) = value.chars ++ [0] from rfl, read]
      rfl

theorem stored_string (stored : value.Stored attr)
    (contents : value.contents ≠ []) : IsString attr.attlen value := by
  cases stored with
  | byVal | byRef => exact absurd rfl contents
  | string value kind => exact kind

theorem stored_strings {first value : Datum}
    (kind : IsString attr.attlen first) (stored : value.Stored attr) :
    IsString attr.attlen value := by
  have low : attr.attlen < 0 := by
    generalize attr.attlen = attlen at kind
    cases kind <;> omega
  cases stored with
  | byVal word some_bytes | byRef data length some_bytes => omega
  | string value kind => exact kind

/-- A value that is compressed with a method is restored with what is read of the method. -/
theorem compressOneAttr_restores {column : Column}
    (sampled : ∀ value ∈ column.colArray.present, value.Stored column.attr) {method : CmprMethod}
    (fits : MethodFits column method)
    (typed : (numTypeOpt column.attr.atttypid).isSome ∨ column.attr.attlen ≤ 0)
    {val : Datum} (stored : val.Stored column.attr) {buf : List UInt8}
    (compressed : compressOneAttr column.attr method val = some buf) (rest : List UInt8) :
    ∃ restored, uncompressOneAttr method.fetched column.attr.atttypid column.attr.attlen
        (buf ++ rest) = some (restored, buf.length) ∧ restored.SameValue val := by
  cases fits with
  | cmprNone => cases compressed
  | cmprNumstr string =>
    obtain ⟨value, present, contents⟩ := string
    have kind := stored_strings (stored_string value (sampled value present) contents) stored
    obtain ⟨size, same⟩ := numstrCompress_restores _ kind compressed rest
    refine ⟨(numstrUncompress column.attr.attlen (buf ++ rest)).1, ?_, same⟩
    rw [← size]
    rfl
  | cmprPrefix start some_bytes few_bytes first =>
    obtain ⟨value, present, taken⟩ := first
    have contents : value.contents ≠ [] := by
      intro empty
      rw [empty] at taken
      rw [taken] at some_bytes
      exact absurd some_bytes (by simp)
    have kind := stored_string value (sampled value present) contents
    have chars : column.attr.attlen = -2 → 0 ∉ start := by
      intro cstring
      rw [taken]
      intro member
      have inside := mem_of_mem_take member
      rw [cstring] at kind
      cases kind with
      | cstring value => exact value.terminated inside
    simp only [compressOneAttr] at compressed
    split_ifs at compressed with packed
    obtain ⟨size, same⟩ := prefixCompress_restores _
      (stored_strings kind stored) (by simpa using packed) chars
      compressed rest
    refine ⟨(prefixUncompress column.attr.attlen start (buf ++ rest)).1, ?_, same⟩
    rw [← size]
    rfl
  | cmprDelta opt info number narrow base =>
    have wide : opt.width ≤ 8 := by cases opt <;> decide
    have length := column.attr.numberLen opt number
    have words : ∀ value, Datum.Stored column.attr value →
        ∃ word : BitVec 64, value = .byVal word ∧ word.toNat < 256 ^ opt.width := by
      intro value stored
      cases stored with
      | byVal word some_bytes few_bytes fits =>
        rw [length] at fits
        exact ⟨word, rfl, fits⟩
      | byRef data _ _ other =>
        rw [number] at other
        cases other
      | string value kind =>
        generalize column.attr.attlen = attlen at kind length
        cases kind <;> omega
    obtain ⟨first, present, least⟩ := mem_map.mp base
    obtain ⟨word, rfl, small⟩ := words val stored
    obtain ⟨low, rfl, lowest⟩ := words first (sampled first present)
    simp only [compressOneAttr, number] at compressed
    obtain ⟨size, empty, restores⟩ := deltaCompress_restores (by lia)
      (by rw [← least]; exact lowest) small compressed rest
    by_cases zero : info.bytes = 0
    · refine ⟨.byVal word, ?_, rfl⟩
      have bytes : ((info.bytes : Nat) : Int) = 0 := by lia
      simp only [CmprMethod.fetched, uncompressOneAttr]
      rw [if_pos bytes, empty zero, size, zero]
    · have present : column.attr.atttypid ≠ 0 := by
        intro dropped
        rw [dropped] at number
        cases number
      refine ⟨.byVal word, ?_, rfl⟩
      simp only [CmprMethod.fetched, uncompressOneAttr]
      rw [if_neg (by lia), if_neg present, number, Option.map_some, Int.toNat_natCast, restores,
        size]
  | cmprDict info few some_items items =>
    obtain ⟨id, found, form⟩ := Option.map_eq_some_iff.mp compressed
    obtain ⟨inside, equal, _⟩ := findIdx?_eq_some_iff_getElem.mp found
    have key : info.dictItems[id]? = some (fillHashKey column.attr.attlen val) := by
      rw [getElem?_eq_getElem inside]
      simpa using equal
    obtain ⟨restored, read, same⟩ := dictUncompress_key val stored typed key
    refine ⟨restored, ?_, same⟩
    simp only [CmprMethod.fetched, uncompressOneAttr]
    by_cases single : info.dictItems.length = 1
    · rw [if_pos single] at form
      have only : id = 0 := by omega
      subst only
      rw [if_pos (by omega), ← form, read]
      rfl
    · rw [if_neg single] at form
      have byte : ((buf ++ rest).getD 0 0).toNat = id := by
        rw [← form, cons_append, getD_cons_zero, UInt8.toNat_ofNat', Nat.mod_eq_of_lt (by omega)]
      rw [if_neg (by omega), byte, read, ← form]
      rfl

theorem drop_cmprHeaderData (left right : List Column) (rest : List UInt8) :
    (cmprHeaderData (left ++ right) ++ rest).drop (cmprHeaderData left).length =
      cmprHeaderData right ++ rest := by
  unfold cmprHeaderData
  rw [flatMap_append, append_assoc, drop_left]

/-- The header and the compressed values of columns are read back. -/
structure Lossless (columns : List Column) : Prop where
  /-- The method of every column is read back from a header that its buffer has room for, from as
  many bytes as were written for it. -/
  header : ∀ header size, setCmprHeaderData columns = some (header, size) →
    ∀ left column right rest, columns = left ++ column :: right →
    fetchAttrCmprMeta ((header ++ rest).drop (cmprHeaderData left).length) column.attr.attlen =
      some ((chooseCmprMethod column).1.fetched,
        (columnHeader column.attr (chooseCmprMethod column).1).length)
  /-- Every value that is compressed with the method of its column is restored, from as many bytes as
  it was compressed to, with what is read of the method. -/
  values : ∀ column ∈ columns, ∀ val, Datum.Stored column.attr val → ∀ buf,
    compressOneAttr column.attr (chooseCmprMethod column).1 val = some buf → ∀ rest,
      ∃ restored, uncompressOneAttr (chooseCmprMethod column).1.fetched column.attr.atttypid
          column.attr.attlen (buf ++ rest) = some (restored, buf.length) ∧
        restored.SameValue val

/-- Columns of few values are compressed without loss. -/
theorem lossless_of_few (columns : List Column)
    (few : ∀ column ∈ columns, column.colArray.length < 768)
    (sampled : ∀ column ∈ columns, ∀ value ∈ column.colArray.present, value.Stored column.attr) :
    Lossless columns := by
  constructor
  · rintro header size written left column right rest rfl
    rw [setCmprHeaderData] at written
    split_ifs at written
    cases written
    have member : column ∈ left ++ column :: right := by simp
    rw [drop_cmprHeaderData, cmprHeaderData, flatMap_cons, append_assoc]
    exact fetchAttrCmprMeta_columnHeader (sampled column member)
      (chooseCmprMethod_fits column (few column member)) _
  · intro column member val stored buf compressed rest
    by_cases typed : (numTypeOpt column.attr.atttypid).isSome ∨ column.attr.attlen ≤ 0
    · exact compressOneAttr_restores (sampled column member)
        (chooseCmprMethod_fits column (few column member)) typed stored compressed rest
    · push Not at typed
      rw [chooseCmprMethod_fixed column (by simpa using typed.1) typed.2] at compressed
      cases compressed

/-- For every page of a relation, the header of the page is read back for every column and every
value that is compressed with the method of its column is restored. -/
theorem row_compression_is_lossless (attrs : List FormPgAttribute) (hasOid : Bool)
    (fillFactor : Nat) (factor : fillFactor ≤ 100) (dictMiss : Nat → Nat)
    (tups : List (HeapTuple Row)) (admitted : Admitted attrs hasOid fillFactor tups)
    (sampled : ∀ column ∈ deformTups attrs dictMiss tups, ∀ value ∈ column.colArray.present,
      value.Stored column.attr) : Lossless (deformTups attrs dictMiss tups) := by
  apply lossless_of_few _ _ sampled
  intro column member
  rw [deformTups_length attrs member]
  exact admitted.few factor

/-- A page of three tuples, the columns of which have different methods. -/
theorem row_compression_is_lossless_mixed :
    Lossless (deformTups mixedAttrs (fun _ => 0) mixedTups) := by
  apply row_compression_is_lossless mixedAttrs false 100 (by decide) (fun _ => 0) mixedTups
    mixedTups_admitted
  have number (word : BitVec 64) (small : word.toNat < 256 ^ 4) :
      Datum.Stored int4Attr (.byVal word) := .byVal word (by decide) (by decide) small
  have text (chars : List UInt8) (short : chars.length + 1 ≤ 0x7F) :
      Datum.Stored textAttr (.varlena (.short chars)) := .string _ (.varlena _ short)
  change ∀ column ∈ [_, _, _, _], _
  simp only [forall_mem_cons, not_mem_nil, IsEmpty.forall_iff, implies_true, and_true]
  refine ⟨?_, ?_, ?_, ?_⟩
  · change ∀ value ∈ [_, _, _], _
    simp only [forall_mem_cons, not_mem_nil, IsEmpty.forall_iff, implies_true, and_true]
    exact ⟨number _ (by decide), number _ (by decide), number _ (by decide)⟩
  all_goals
    change ∀ value ∈ [_, _, _], _
    simp only [forall_mem_cons, not_mem_nil, IsEmpty.forall_iff, implies_true, and_true]
    exact ⟨text _ (by decide), text _ (by decide), text _ (by decide)⟩

end Restoring

end OpenGauss.RowCompress
