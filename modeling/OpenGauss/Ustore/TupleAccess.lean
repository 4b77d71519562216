import OpenGauss.Ustore.TupleRoundTrip

/-!
# Reading a tuple in steps

A slot that is asked for more attributes goes on from the offset where it stopped, but it starts to
count the nulls again. The bits that tell for which nulls space is reserved are numbered from the
first null of the tuple, so the walk goes wrong when the bit it reads differs from the one that
belongs to the null. Otherwise the slot has what one walk over all the attributes gives. An attribute
that is read alone is found at the same place, by a walk of its own or by an offset that the
descriptor keeps.
-/
namespace OpenGauss.Ustore

open List OpenGauss.Base

section Walks

variable (tuple : DiskTuple)

/-- An attribute of a tuple is null. -/
def DiskTuple.nullAt (att : Nat) : Bool := tuple.hasNulls && tuple.attIsnull att

/-- The nulls among some attributes. -/
def DiskTuple.nullsBetween (first last : Nat) : Nat :=
  (List.range' first (last - first)).countP tuple.nullAt

theorem DiskTuple.nullsBetween_self (first : Nat) : tuple.nullsBetween first first = 0 := by
  rw [DiskTuple.nullsBetween, Nat.sub_self]
  rfl

theorem DiskTuple.nullsBetween_step (first last : Nat) (some : first < last) :
    tuple.nullsBetween first last =
      (if tuple.nullAt first then 1 else 0) + tuple.nullsBetween (first + 1) last := by
  rw [DiskTuple.nullsBetween, DiskTuple.nullsBetween,
    show last - first = last - (first + 1) + 1 by lia, range'_succ, countP_cons]
  lia

variable (attrs : List Attribute) (attnum : Nat) (walk : Walk)

theorem walkAttrs_length : (tuple.walkAttrs attrs attnum walk).2.length = attrs.length := by
  induction attrs generalizing attnum walk with
  | nil => rfl
  | cons attr rest ih => rw [DiskTuple.walkAttrs, length_cons, ih, length_cons]

theorem walkAttrs_append (first second : List Attribute) (attnum : Nat) (walk : Walk) :
    tuple.walkAttrs (first ++ second) attnum walk = ((tuple.walkAttrs second (attnum + first.length)
          (tuple.walkAttrs first attnum walk).1).1, (tuple.walkAttrs first attnum walk).2 ++
          (tuple.walkAttrs second (attnum + first.length)
            (tuple.walkAttrs first attnum walk).1).2) := by
  induction first generalizing attnum walk with
  | nil => simp [DiskTuple.walkAttrs]
  | cons attr rest ih =>
    rw [cons_append, DiskTuple.walkAttrs, ih, length_cons,
      show attnum + (rest.length + 1) = attnum + 1 + rest.length by omega]
    rfl

theorem walkAttr_nullcount (attr : Attribute) (attnum : Nat) (walk : Walk) :
    (tuple.walkAttr attr attnum walk).1.nullcount =
      walk.nullcount + if tuple.nullAt attnum then 1 else 0 := by
  unfold DiskTuple.walkAttr DiskTuple.nullAt
  split_ifs <;> rfl

theorem walkAttrs_nullcount : (tuple.walkAttrs attrs attnum walk).1.nullcount =
      walk.nullcount + tuple.nullsBetween attnum (attnum + attrs.length) := by
  induction attrs generalizing attnum walk with
  | nil =>
    rw [length_nil, Nat.add_zero, tuple.nullsBetween_self]
    rfl
  | cons attr rest ih =>
    rw [DiskTuple.walkAttrs]
    rw [ih, walkAttr_nullcount, length_cons,
      tuple.nullsBetween_step attnum (attnum + (rest.length + 1)) (by omega)]
    lia

/-- Two counts of nulls lead to the same bits in a range of attributes. -/
def DiskTuple.SameBits (first last one other : Nat) : Prop :=
  nattrsReserveSpace tuple.natts = true → ∀ att, first ≤ att → att < last → tuple.nullAt att = true →
    tuple.attIsnull (tuple.natts + (one + tuple.nullsBetween first att)) =
      tuple.attIsnull (tuple.natts + (other + tuple.nullsBetween first att))

/-- Walks that count nulls differently agree where the bits do. -/
theorem walkAttrs_sameBits (attnum off one other : Nat)
    (same : tuple.SameBits attnum (attnum + attrs.length) one other) :
    (tuple.walkAttrs attrs attnum ⟨off, one⟩).2 = (tuple.walkAttrs attrs attnum ⟨off, other⟩).2 ∧
      (tuple.walkAttrs attrs attnum ⟨off, one⟩).1.off =
        (tuple.walkAttrs attrs attnum ⟨off, other⟩).1.off := by
  induction attrs generalizing attnum off one other with
  | nil => exact ⟨rfl, rfl⟩
  | cons attr rest ih =>
    rw [length_cons] at same
    have later : ∀ extra : Nat, (extra = if tuple.nullAt attnum then 1 else 0) →
        tuple.SameBits (attnum + 1) (attnum + 1 + rest.length) (one + extra) (other + extra) := by
      intro extra counted space att low high isNull
      have bits := same space att (by omega) (by omega) isNull
      rw [tuple.nullsBetween_step attnum att (by omega), ← counted] at bits
      rw [Nat.add_assoc one, Nat.add_assoc other]
      exact bits
    cases isNull : tuple.nullAt attnum with
    | true =>
      have skip : tuple.skipNull attr ⟨off, one⟩ = tuple.skipNull attr ⟨off, other⟩ := by
        unfold DiskTuple.skipNull
        cases space : nattrsReserveSpace tuple.natts with
        | false => rfl
        | true =>
          have bits := same space attnum le_rfl (by omega) isNull
          rw [tuple.nullsBetween_self] at bits
          simp only [Nat.add_zero] at bits
          rw [bits]
      have step : ∀ count, tuple.walkAttr attr attnum ⟨off, count⟩ =
          (⟨tuple.skipNull attr ⟨off, count⟩, count + 1⟩, none) := by
        intro count
        rw [DiskTuple.walkAttr, if_pos (by exact isNull)]
      obtain ⟨values, offs⟩ := ih (attnum + 1) (tuple.skipNull attr ⟨off, one⟩) (one + 1)
        (other + 1) (later 1 (by rw [isNull]; rfl))
      rw [DiskTuple.walkAttrs, DiskTuple.walkAttrs, step, step]
      rw [← skip, values, offs]
      exact ⟨rfl, rfl⟩
    | false =>
      have step : ∀ count, tuple.walkAttr attr attnum ⟨off, count⟩ =
          (⟨attAddlength (tuple.attStart attr off) attr.attlen
              (tuple.bytesAt (tuple.attStart attr off)), count⟩,
            some (fetchatt attr (tuple.bytesAt (tuple.attStart attr off)))) := by
        intro count
        rw [DiskTuple.walkAttr, if_neg (by
          intro null
          rw [DiskTuple.nullAt, null] at isNull
          exact absurd isNull (by decide))]
      obtain ⟨values, offs⟩ := ih (attnum + 1) (attAddlength (tuple.attStart attr off) attr.attlen
        (tuple.bytesAt (tuple.attStart attr off))) one other (later 0 (by rw [isNull]; rfl))
      rw [DiskTuple.walkAttrs, DiskTuple.walkAttrs, step, step]
      rw [values, offs]
      exact ⟨rfl, rfl⟩

end Walks

section Slots

variable (tuple : DiskTuple) (desc : TupleDesc)

/-- The walk from the first attribute up to a number of attributes. -/
def DiskTuple.walkTo (count : Nat) : Walk × List (Option Datum) :=
  tuple.walkAttrs (desc.attrs.take count) 0 ⟨tuple.hoff, 0⟩

/-- A slot that reads from an attribute on meets the bits that belong to the nulls. -/
def DiskTuple.ResumesRight (first last : Nat) : Prop :=
  tuple.SameBits first last 0 (tuple.nullsBetween 0 first)

/-- A slot has what one walk gives. -/
structure Slot.Reads (slot : Slot) (natts : Nat) : Prop where
  values : slot.values = uheapDeformTupleGuts tuple desc natts
  off : natts ≠ 0 → slot.off = (tuple.walkTo desc (min tuple.natts natts)).1.off

variable {tuple desc}

theorem uheapDeformTupleGuts_eq (natts : Nat) :
    uheapDeformTupleGuts tuple desc natts = (tuple.walkTo desc (min tuple.natts natts)).2 ++
      (List.range' (min tuple.natts natts) (natts - min tuple.natts natts)).map
        desc.initDefVal := rfl

theorem uheapDeformTupleGuts_length (natts : Nat) (inside : natts ≤ desc.attrs.length) :
    (uheapDeformTupleGuts tuple desc natts).length = natts := by
  rw [uheapDeformTupleGuts_eq, length_append, DiskTuple.walkTo, walkAttrs_length,
    length_take, length_map, length_range']
  lia

/-- A walk goes on where another ends. -/
theorem walkTo_split (first last : Nat) (le : first ≤ last) (inside : first ≤ desc.attrs.length) :
    (tuple.walkTo desc last).1 = (tuple.walkAttrs ((desc.attrs.drop first).take (last - first))
        first (tuple.walkTo desc first).1).1 ∧
      (tuple.walkTo desc last).2 = (tuple.walkTo desc first).2 ++
        (tuple.walkAttrs ((desc.attrs.drop first).take (last - first)) first
          (tuple.walkTo desc first).1).2 := by
  have split : desc.attrs.take last =
      desc.attrs.take first ++ (desc.attrs.drop first).take (last - first) := by
    rw [← take_add, Nat.add_sub_cancel' le]
  have length : (desc.attrs.take first).length = first := by
    rw [length_take, Nat.min_eq_left inside]
  have joined := walkAttrs_append tuple (desc.attrs.take first)
    ((desc.attrs.drop first).take (last - first)) 0 ⟨tuple.hoff, 0⟩
  rw [← split, length, Nat.zero_add] at joined
  unfold DiskTuple.walkTo
  rw [joined]
  exact ⟨rfl, rfl⟩

theorem walkTo_nullcount (count : Nat) (inside : count ≤ desc.attrs.length) :
    (tuple.walkTo desc count).1.nullcount = tuple.nullsBetween 0 count := by
  rw [DiskTuple.walkTo, walkAttrs_nullcount, length_take, Nat.min_eq_left inside]
  simp

/-- A slot that goes on in the right way has what one walk gives. -/
theorem slotDeformUTuple_reads (slot : Slot) (previous natts : Nat)
    (reads : slot.Reads tuple desc previous) (le : previous ≤ natts)
    (inside : natts ≤ desc.attrs.length)
    (right : tuple.ResumesRight previous (min tuple.natts natts)) :
    (slotDeformUTuple tuple desc slot natts).Reads tuple desc natts := by
  have length : slot.values.length = previous := by
    rw [reads.values, uheapDeformTupleGuts_length previous (by omega)]
  have start : (if previous ≠ 0 then slot.off else tuple.hoff) =
      (tuple.walkTo desc (min tuple.natts previous)).1.off := by
    split_ifs with resumed
    · exact reads.off resumed
    · rw [not_not] at resumed
      subst resumed
      rw [Nat.min_zero]
      rfl
  by_cases beyond : tuple.natts ≤ previous
  · -- The tuple has no more attributes: the rest are defaults.
    have bounds : min tuple.natts previous = tuple.natts ∧ min tuple.natts natts = tuple.natts := by
      lia
    rw [bounds.1] at start
    have values := reads.values
    rw [uheapDeformTupleGuts_eq, bounds.1] at values
    have step : slotDeformUTuple tuple desc slot natts =
        { values := slot.values ++
            (List.range' previous (natts - previous)).map desc.initDefVal
          off := (tuple.walkTo desc tuple.natts).1.off } := by
      unfold slotDeformUTuple
      dsimp only
      rw [length, bounds.2, Nat.sub_eq_zero_of_le beyond, start]
      simp [DiskTuple.walkAttrs, length]
    rw [step]
    refine ⟨?_, fun _ => by rw [bounds.2]⟩
    rw [uheapDeformTupleGuts_eq, bounds.2, values, append_assoc, ← map_append,
      show natts - tuple.natts = (previous - tuple.natts) + (natts - previous) by grind,
      ← range'_append_1, Nat.add_sub_cancel' beyond]
  · have bounds : min tuple.natts previous = previous := by lia
    have reached : previous ≤ min tuple.natts natts := by lia
    rw [bounds] at start
    have values := reads.values
    rw [uheapDeformTupleGuts_eq, bounds, Nat.sub_self, range'_zero, map_nil, append_nil] at values
    obtain ⟨walk, read⟩ := @walkTo_split tuple desc previous
      (min tuple.natts natts) reached (by lia)
    have counted := @walkTo_nullcount tuple desc previous (by lia)
    have covers : previous + ((desc.attrs.drop previous).take
        (min tuple.natts natts - previous)).length = min tuple.natts natts := by
      rw [length_take, length_drop]
      lia
    obtain ⟨sameValues, sameOff⟩ := walkAttrs_sameBits tuple ((desc.attrs.drop previous).take
      (min tuple.natts natts - previous)) previous (tuple.walkTo desc previous).1.off 0
      (tuple.walkTo desc previous).1.nullcount (by rw [covers, counted]; exact right)
    rw [← walk] at sameOff
    have all : slot.values ++ (tuple.walkAttrs ((desc.attrs.drop previous).take
        (min tuple.natts natts - previous)) previous ⟨(tuple.walkTo desc previous).1.off, 0⟩).2 =
        (tuple.walkTo desc (min tuple.natts natts)).2 := by
      rw [values, sameValues, read]
    have count : (tuple.walkTo desc (min tuple.natts natts)).2.length = min tuple.natts natts := by
      rw [DiskTuple.walkTo, walkAttrs_length, length_take]
      lia
    refine ⟨?_, fun _ => ?_⟩
    · unfold slotDeformUTuple
      dsimp only
      rw [length, start, all, count, uheapDeformTupleGuts_eq]
    · unfold slotDeformUTuple
      dsimp only
      rw [length, start]
      exact sameOff

/-- All requests after one go on in the right way. -/
def DiskTuple.RequestsRight (tuple : DiskTuple) : Nat → List Nat → Prop
  | _, [] => True
  | previous, natts :: rest =>
    tuple.ResumesRight previous (min tuple.natts natts) ∧ tuple.RequestsRight natts rest

/-- Requests in order read up to the last. -/
theorem slotDeformUTuple_requests (requests : List Nat) (slot : Slot) (previous last : Nat)
    (reads : slot.Reads tuple desc previous) (increasing : (previous :: requests).Pairwise (· ≤ ·))
    (inside : ∀ natts ∈ requests, natts ≤ desc.attrs.length)
    (right : tuple.RequestsRight previous requests)
    (ends : (previous :: requests).getLast? = some last) :
    (requests.foldl (slotDeformUTuple tuple desc) slot).Reads tuple desc last := by
  induction requests generalizing slot previous with
  | nil =>
    simp only [getLast?_singleton, Option.some.injEq] at ends
    subst ends
    exact reads
  | cons natts rest ih =>
    have le : previous ≤ natts := rel_of_pairwise_cons increasing mem_cons_self
    have next := slotDeformUTuple_reads slot previous natts reads le
      (inside natts mem_cons_self) right.1
    refine ih _ natts next increasing.of_cons
      (fun other member => inside other (mem_cons_of_mem _ member)) right.2 ?_
    rwa [getLast?_cons_cons] at ends

end Slots

section Single

variable (tuple : DiskTuple)

variable (attr : Attribute) (attrs : List Attribute) (attnum : Nat) (walk : CachingWalk)

/-- The value of an attribute is found by walking to it. -/
theorem walkAttrs_value (walk : Walk) (skip : Nat)
    (attr : Attribute) (here : attrs[skip]? = some attr)
    (present : tuple.nullAt (attnum + skip) = false) :
    (tuple.walkAttrs attrs attnum walk).2[skip]? =
      some (some (fetchatt attr (tuple.bytesAt (tuple.attStart attr
        (tuple.walkAttrs (attrs.take skip) attnum walk).1.off)))) := by
  induction attrs generalizing attnum walk skip with
  | nil => simp at here
  | cons first rest ih =>
    cases skip with
    | zero =>
      rw [getElem?_cons_zero, Option.some.injEq] at here
      subst here
      rw [DiskTuple.walkAttrs, DiskTuple.walkAttr, if_neg (by
        intro null
        rw [Nat.add_zero, DiskTuple.nullAt, null] at present
        exact absurd present (by decide))]
      rfl
    | succ skip =>
      rw [DiskTuple.walkAttrs]
      rw [getElem?_cons_succ, ih (attnum + 1) _ skip here (by
        rw [show attnum + 1 + skip = attnum + (skip + 1) by omega]; exact present)]
      rfl

theorem cachingStep_walk : (⟨(tuple.cachingStep attr attnum false walk).off,
        (tuple.cachingStep attr attnum false walk).nullcount⟩ : Walk) =
      (tuple.walkAttr attr attnum ⟨walk.off, walk.nullcount⟩).1 := by
  by_cases null : (tuple.hasNulls && tuple.attIsnull attnum) = true
  · rw [DiskTuple.cachingStep, if_pos null, DiskTuple.walkAttr, if_pos null]
  · rw [DiskTuple.cachingStep, if_neg null, DiskTuple.walkAttr]
    rw [DiskTuple.attStart]
    cases byval : attr.attbyval <;> split_ifs <;> simp_all

theorem cachingStep_last (present : tuple.nullAt attnum = false) :
    (tuple.cachingStep attr attnum true walk).off = tuple.attStart attr walk.off := by
  rw [DiskTuple.cachingStep, if_neg (by
    intro null
    rw [DiskTuple.nullAt, null] at present
    exact absurd present (by decide))]
  rw [if_pos rfl, DiskTuple.attStart]
  cases byval : attr.attbyval <;> split_ifs <;> simp_all

/-- A walk with a cache comes to the same offset. -/
theorem cachingWalk_off (attnum skip : Nat) (walk : CachingWalk)
    {attr : Attribute} (here : attrs[skip]? = some attr)
    (present : tuple.nullAt (attnum + skip) = false) :
    (tuple.cachingWalk (attnum + skip) attrs attnum walk).off = tuple.attStart attr
        (tuple.walkAttrs (attrs.take skip) attnum ⟨walk.off, walk.nullcount⟩).1.off := by
  induction attrs generalizing attnum walk skip with
  | nil => simp at here
  | cons first rest ih =>
    cases skip with
    | zero =>
      rw [getElem?_cons_zero, Option.some.injEq] at here
      subst here
      rw [Nat.add_zero] at present ⊢
      rw [DiskTuple.cachingWalk, if_pos rfl, cachingStep_last tuple first attnum walk present]
      rfl
    | succ skip =>
      have target : attnum + (skip + 1) = attnum + 1 + skip := by omega
      rw [target] at present ⊢
      rw [DiskTuple.cachingWalk, if_neg (by omega), ih (attnum + 1) skip _ here present,
        cachingStep_walk]
      rfl

end Single

section Offsets

/-- Where a value of fixed length starts. -/
def fixedStart (attr : Attribute) (off : Nat) : Nat :=
  if attr.attbyval then off else attAlignNominal off attr.attalign

/-- Where values of fixed length end. -/
def fixedEnd (attrs : List Attribute) (off : Nat) : Nat :=
  attrs.foldl (fun off attr => fixedStart attr off + attr.attlen.toNat) off

/-- All attributes have a fixed length. -/
def AllFixed (attrs : List Attribute) : Prop := ∀ attr ∈ attrs, 0 < attr.attlen

/-- The offset that belongs to an attribute of a tuple without nulls. -/
def OffsetOf (attrs : List Attribute) (attnum : Nat) (offset : Int) : Prop :=
  ∃ attr, attrs[attnum]? = some attr ∧ AllFixed (attrs.take (attnum + 1)) ∧
    offset = (fixedStart attr (fixedEnd (attrs.take attnum) sizeOfUHeapDiskTupleData) : Int) -
      sizeOfUHeapDiskTupleData

/-- The offsets that a descriptor keeps and uses belong to its attributes. -/
def CacheSound (attrs : List Attribute) (cache : OffsetCache) : Prop :=
  ∀ attnum, 0 < attnum → 0 < cache attnum → OffsetOf attrs attnum (cache attnum)

/-- What holds of the tuples on disk: the header of a tuple without nulls has its fixed part only,
and a tuple with a value of variable width says so. -/
structure OnDisk (tuple : DiskTuple) (attrs : List Attribute) : Prop where
  hoff : tuple.hasNulls = false → tuple.hoff = sizeOfUHeapDiskTupleData
  wide : tuple.hasNulls = false → ∀ att < tuple.natts, ∀ attr, attrs[att]? = some attr →
    attr.attlen ≤ 0 → tuple.hasVarWidth = true

variable (tuple : DiskTuple) (hoff : Nat) (attrs : List Attribute) (attnum off : Nat)
  (cache : OffsetCache) (other : Nat)

theorem cacheSound_empty : CacheSound attrs OffsetCache.empty := by
  intro attnum _ kept
  exact absurd kept (by rw [OffsetCache.empty]; decide)

theorem CacheSound.keep {attrs : List Attribute} {cache : OffsetCache}
    (sound : CacheSound attrs cache) (attnum : Nat) (offset : Int)
    (belongs : 0 < attnum → 0 < offset → OffsetOf attrs attnum offset) :
    CacheSound attrs (cache.keep attnum offset) := by
  intro other positive kept
  by_cases same : other = attnum
  · subst same
    rw [OffsetCache.keep, if_pos rfl] at kept ⊢
    exact belongs positive kept
  · rw [OffsetCache.keep, if_neg same] at kept ⊢
    exact sound other positive kept

theorem walkAttrs_fixed (noNulls : tuple.hasNulls = false)
    {attrs : List Attribute} (fixed : AllFixed attrs) (attnum : Nat) (walk : Walk) :
    (tuple.walkAttrs attrs attnum walk).1.off = fixedEnd attrs walk.off := by
  induction attrs generalizing attnum walk with
  | nil => rfl
  | cons attr rest ih =>
    have positive := fixed attr mem_cons_self
    have start : tuple.attStart attr walk.off = fixedStart attr walk.off := by
      rw [DiskTuple.attStart, if_neg (by omega), fixedStart]
    rw [DiskTuple.walkAttrs, DiskTuple.walkAttr, noNulls, Bool.false_and, if_neg (by decide)]
    dsimp only
    rw [ih (fun other member => fixed other (mem_cons_of_mem _ member)), start, attAddlength,
      if_pos positive, fixedEnd, fixedEnd, foldl_cons]

theorem keepLeading_cons (attr : Attribute) (rest : List Attribute)
    (attnum off : Nat) (cache : OffsetCache) : keepLeading hoff (attr :: rest) attnum off cache =
      if attr.attlen ≤ 0 then cache
      else keepLeading hoff rest (attnum + 1) (fixedStart attr off + attr.attlen.toNat)
        (cache.keep attnum ((fixedStart attr off : Int) - hoff)) := rfl

theorem keepLeading_before (before : other < attnum) :
    keepLeading hoff attrs attnum off cache other = cache other := by
  induction attrs generalizing attnum off cache with
  | nil => rfl
  | cons attr rest ih =>
    rw [keepLeading_cons]
    split_ifs
    · rfl
    · rw [ih _ _ _ (by omega), OffsetCache.keep, if_neg (by omega)]

/-- The offset of a leading fixed attribute is kept. -/
theorem keepLeading_here (skip : Nat) (attr : Attribute) (here : attrs[skip]? = some attr)
    (fixed : AllFixed (attrs.take (skip + 1))) :
    keepLeading hoff attrs attnum off cache (attnum + skip) =
      (fixedStart attr (fixedEnd (attrs.take skip) off) : Int) - hoff := by
  induction attrs generalizing attnum off cache skip with
  | nil => simp at here
  | cons first rest ih =>
    have positive := fixed first (by rw [take_succ_cons]; exact mem_cons_self)
    rw [keepLeading_cons, if_neg (by omega)]
    cases skip with
    | zero =>
      rw [getElem?_cons_zero, Option.some.injEq] at here
      subst here
      rw [keepLeading_before _ _ _ _ _ _ (by omega), OffsetCache.keep, if_pos (Nat.add_zero _)]
      rfl
    | succ skip =>
      rw [show attnum + (skip + 1) = attnum + 1 + skip by omega, ih _ _ _ skip here (by
        intro other member
        refine fixed other ?_
        exact mem_cons_of_mem _ member)]
      rfl

/-- Nothing else is kept. -/
theorem keepLeading_cases : keepLeading hoff attrs attnum off cache other = cache other ∨
      ∃ skip attr, other = attnum + skip ∧ attrs[skip]? = some attr ∧
        AllFixed (attrs.take (skip + 1)) := by
  induction attrs generalizing attnum off cache with
  | nil => exact .inl rfl
  | cons first rest ih =>
    rw [keepLeading_cons]
    split_ifs with ends
    · exact .inl rfl
    · have positive : 0 < first.attlen := by omega
      rcases ih (attnum + 1) _ (cache.keep attnum _) with same | ⟨skip, attr, place, here, fixed⟩
      · by_cases self : other = attnum
        · refine .inr ⟨0, first, self, rfl, ?_⟩
          intro attr member
          rw [take_succ_cons, take_zero, mem_singleton] at member
          rw [member]
          exact positive
        · rw [same, OffsetCache.keep, if_neg self]
          exact .inl rfl
      · refine .inr ⟨skip + 1, attr, by lia, by rwa [getElem?_cons_succ], ?_⟩
        intro attr member
        rw [take_succ_cons, mem_cons] at member
        rcases member with rfl | later
        · exact positive
        · exact fixed attr later

/-- How many offsets are kept in a row. -/
theorem keptRun_spec (attrs : List Attribute) (attnum : Nat) :
    keptRun cache attrs attnum ≤ attrs.length ∧
      ∀ other, attnum ≤ other → other < attnum + keptRun cache attrs attnum → 0 < cache other := by
  induction attrs generalizing attnum with
  | nil => exact ⟨le_rfl, fun other low high => by simp [keptRun] at high; omega⟩
  | cons attr rest ih =>
    obtain ⟨short, kept⟩ := ih (attnum + 1)
    rw [keptRun]
    split_ifs with positive
    · refine ⟨by rw [length_cons]; omega, fun other low high => ?_⟩
      by_cases self : other = attnum
      · rw [self]
        exact positive
      · exact kept other (by omega) (by omega)
    · exact ⟨Nat.zero_le _, fun other low high => by omega⟩

theorem fixedEnd_take_succ (count off : Nat) {attr : Attribute} (here : attrs[count]? = some attr) :
    fixedEnd (attrs.take (count + 1)) off =
      fixedStart attr (fixedEnd (attrs.take count) off) + attr.attlen.toNat := by
  rw [take_add_one, here, fixedEnd, foldl_append]
  rfl

theorem fixedEnd_take_add (first second off : Nat) :
    fixedEnd ((attrs.drop first).take second) (fixedEnd (attrs.take first) off) =
      fixedEnd (attrs.take (first + second)) off := by
  rw [take_add, fixedEnd, fixedEnd, fixedEnd, foldl_append]

/-- The offsets of the leading attributes of fixed length are kept, and what is kept is sound. -/
theorem keepOffsets_spec {desc : TupleDesc} {cache : OffsetCache}
    (sound : CacheSound desc.attrs cache) (hoff : tuple.hoff = sizeOfUHeapDiskTupleData)
    (leads : ∀ attr, desc.attrs.head? = some attr → 0 < attr.attlen) :
    CacheSound desc.attrs (tuple.keepOffsets desc cache) ∧
      ∀ attnum attr, desc.attrs[attnum]? = some attr → AllFixed (desc.attrs.take (attnum + 1)) →
          tuple.keepOffsets desc cache attnum =
            (fixedStart attr (fixedEnd (desc.attrs.take attnum) sizeOfUHeapDiskTupleData) : Int) -
              sizeOfUHeapDiskTupleData := by
  unfold DiskTuple.keepOffsets
  rw [hoff]
  generalize desc.attrs = attrs at sound leads ⊢
  cases attrs with
  | nil => exact ⟨sound, fun attnum attr here => by simp at here⟩
  | cons first rest =>
    have positive := leads first rfl
    dsimp only
    have begins : cache.keep 0 (((if first.attbyval then sizeOfUHeapDiskTupleData else
        attAlignNominal sizeOfUHeapDiskTupleData first.attalign : Nat) : Int) -
          sizeOfUHeapDiskTupleData) =
        cache.keep 0 ((fixedStart first sizeOfUHeapDiskTupleData : Int) -
          sizeOfUHeapDiskTupleData) := rfl
    rw [begins]
    have soundStart := sound.keep 0
      ((fixedStart first sizeOfUHeapDiskTupleData : Int) - sizeOfUHeapDiskTupleData)
      (fun absurdity => absurd absurdity (by decide))
    have zero : cache.keep 0 ((fixedStart first sizeOfUHeapDiskTupleData : Int) -
        sizeOfUHeapDiskTupleData) 0 = (fixedStart first sizeOfUHeapDiskTupleData : Int) -
          sizeOfUHeapDiskTupleData := by rw [OffsetCache.keep, if_pos rfl]
    generalize cache.keep 0 ((fixedStart first sizeOfUHeapDiskTupleData : Int) -
      sizeOfUHeapDiskTupleData) = started at soundStart zero ⊢
    obtain ⟨short, kept⟩ := keptRun_spec started rest 1
    generalize keptRun started rest 1 = run at short kept ⊢
    have one : AllFixed [first] := by
      intro attr member
      rw [mem_singleton] at member
      rw [member]
      exact positive
    -- The last offset that is kept already, and the end of its attribute.
    have base : OffsetOf (first :: rest) run (started run) := by
      cases run with
      | zero => exact ⟨first, rfl, one, zero⟩
      | succ run => exact soundStart (run + 1) (by omega) (kept (run + 1) (by omega) (by omega))
    obtain ⟨before, there, fixed, value⟩ := base
    have last : (first :: rest).getD run first = before := by
      rw [getD_eq_getElem?_getD, there]
      rfl
    have length := fixed before (by
      rw [take_add_one, there]
      exact mem_append_right _ mem_cons_self)
    have ends : (started run + before.attlen + (sizeOfUHeapDiskTupleData : Nat)).toNat =
        fixedEnd ((first :: rest).take (run + 1)) sizeOfUHeapDiskTupleData := by
      rw [fixedEnd_take_succ _ _ _ there]
      lia
    rw [last, ends, show rest.drop run = (first :: rest).drop (run + 1) from rfl]
    have leading : ∀ skip attr, ((first :: rest).drop (run + 1))[skip]? = some attr →
        AllFixed (((first :: rest).drop (run + 1)).take (skip + 1)) →
          keepLeading sizeOfUHeapDiskTupleData ((first :: rest).drop (run + 1)) (1 + run)
              (fixedEnd ((first :: rest).take (run + 1)) sizeOfUHeapDiskTupleData) started
              (1 + run + skip) =
            (fixedStart attr (fixedEnd ((first :: rest).take (1 + run + skip))
              sizeOfUHeapDiskTupleData) : Int) - sizeOfUHeapDiskTupleData := by
      intro skip attr here all
      rw [keepLeading_here _ _ _ _ _ skip attr here all, fixedEnd_take_add, Nat.add_comm run 1]
    refine ⟨?_, fun attnum attr here all => ?_⟩
    · intro attnum positive keeps
      rcases keepLeading_cases sizeOfUHeapDiskTupleData ((first :: rest).drop (run + 1)) (1 + run)
        (fixedEnd ((first :: rest).take (run + 1)) sizeOfUHeapDiskTupleData) started attnum with
        same | ⟨skip, attr, place, here, all⟩
      · rw [same] at keeps ⊢
        exact soundStart attnum positive keeps
      · have offset := leading skip attr here all
        rw [place, offset]
        refine ⟨attr, ?_, ?_, rfl⟩
        · rw [getElem?_drop] at here
          rw [Nat.add_comm 1 run]
          exact here
        · intro other member
          rw [show 1 + run + skip + 1 = run + 1 + (skip + 1) by lia, take_add,
            mem_append] at member
          rcases member with early | late
          · exact fixed other early
          · exact all other late
    · by_cases behind : run < attnum
      · obtain ⟨skip, rfl⟩ := Nat.exists_eq_add_of_le behind
        rw [show run.succ + skip = 1 + run + skip by lia] at here all ⊢
        refine leading skip attr ?_ ?_
        · rw [getElem?_drop, Nat.add_comm run 1]
          exact here
        · intro other member
          refine all other ?_
          rw [show 1 + run + skip + 1 = run + 1 + (skip + 1) by lia, take_add]
          exact mem_append_right _ member
      · rw [keepLeading_before _ _ _ _ _ _ (by omega)]
        cases attnum with
        | zero =>
          rw [getElem?_cons_zero, Option.some.injEq] at here
          subst here
          exact zero
        | succ attnum =>
          obtain ⟨other, same, _, offset⟩ := soundStart (attnum + 1) (by omega)
            (kept (attnum + 1) (by omega) (by omega))
          rw [here, Option.some.injEq] at same
          subst same
          exact offset

/-- What holds in the walk that keeps offsets, before an attribute. -/
structure CachingSound (tuple : DiskTuple) (attrs : List Attribute) (attnum : Nat)
    (walk : CachingWalk) : Prop where
  sound : CacheSound attrs walk.cache
  place : tuple.hasNulls = false → walk.usecache = true → AllFixed (attrs.take attnum) ∧
    walk.off = fixedEnd (attrs.take attnum) sizeOfUHeapDiskTupleData

/-- A step keeps the cache sound. -/
theorem cachingStep_sound (attnum : Nat)
    (walk : CachingWalk) (attr : Attribute) (last : Bool) (here : attrs[attnum]? = some attr)
    (hoff : tuple.hasNulls = false → tuple.hoff = sizeOfUHeapDiskTupleData)
    (before : CachingSound tuple attrs attnum walk) :
    CacheSound attrs (tuple.cachingStep attr attnum last walk).cache ∧ (last = false →
        CachingSound tuple attrs (attnum + 1) (tuple.cachingStep attr attnum last walk)) := by
  have longer : 0 < attr.attlen → AllFixed (attrs.take attnum) →
      AllFixed (attrs.take (attnum + 1)) := by
    intro positive fixed other member
    rw [take_add_one, here, mem_append] at member
    rcases member with early | same
    · exact fixed other early
    · rw [Option.toList_some, mem_singleton] at same
      rw [same]
      exact positive
  by_cases null : (tuple.hasNulls && tuple.attIsnull attnum) = true
  · rw [DiskTuple.cachingStep, if_pos null]
    exact ⟨before.sound, fun _ => ⟨before.sound, fun _ absurdity => by simp at absurdity⟩⟩
  · rw [DiskTuple.cachingStep, if_neg null]
    -- What is kept for this attribute, and where it starts when offsets may be kept.
    generalize aligned : (if attr.attlen = -1 then
        { walk with off := attAlignPointer walk.off attr.attalign (tuple.bytesAt walk.off) }
      else if attr.attbyval = false then
        { walk with off := attAlignNominal walk.off attr.attalign }
      else if walk.usecache && !tuple.hasNulls then
        { walk with cache := walk.cache.keep attnum (walk.off - tuple.hoff) }
      else walk) = step
    have facts : CacheSound attrs step.cache ∧ step.usecache = walk.usecache ∧
        (0 < attr.attlen → step.off = fixedStart attr walk.off) := by
      subst aligned
      split_ifs with varlena byref keeps
      · exact ⟨before.sound, rfl, fun positive => by omega⟩
      · exact ⟨before.sound, rfl, fun _ => by rw [fixedStart, byref]; rfl⟩
      · have byval : attr.attbyval = true := by simpa using byref
        rw [Bool.and_eq_true, Bool.not_eq_true'] at keeps
        obtain ⟨fixed, off⟩ := before.place keeps.2 keeps.1
        have lengths := attr.word byval
        refine ⟨before.sound.keep attnum _ fun _ _ => ⟨attr, here, longer (by lia) fixed, ?_⟩,
          rfl, fun _ => by rw [fixedStart, if_pos byval]⟩
        rw [off, hoff keeps.2, fixedStart, if_pos byval]
      · have byval : attr.attbyval = true := by simpa using byref
        exact ⟨before.sound, rfl, fun _ => by rw [fixedStart, if_pos byval]⟩
    obtain ⟨sound, usecache, start⟩ := facts
    cases last with
    | true => exact ⟨sound, fun absurdity => absurd absurdity (by decide)⟩
    | false =>
      refine ⟨sound, fun _ => ⟨sound, fun noNulls uses => ?_⟩⟩
      rw [if_neg (by decide)] at uses ⊢
      rw [Bool.and_eq_true, decide_eq_true_iff, usecache] at uses
      obtain ⟨fixed, off⟩ := before.place noNulls uses.1
      refine ⟨longer uses.2 fixed, ?_⟩
      rw [attAddlength, if_pos uses.2, start uses.2, off, fixedEnd_take_succ _ _ _ here]

/-- A walk keeps the cache sound. -/
theorem cachingWalk_sound (tuple : DiskTuple) (attrs : List Attribute) (target : Nat)
    (hoff : tuple.hasNulls = false → tuple.hoff = sizeOfUHeapDiskTupleData) :
    ∀ (rest : List Attribute) (attnum : Nat) (walk : CachingWalk), rest = attrs.drop attnum →
      CachingSound tuple attrs attnum walk →
        CacheSound attrs (tuple.cachingWalk target rest attnum walk).cache
  | [], _, _, _, before => before.sound
  | attr :: rest, attnum, walk, suffix, before => by
    have here : attrs[attnum]? = some attr := by
      rw [← head?_drop, ← suffix]
      rfl
    have tail : rest = attrs.drop (attnum + 1) := by
      rw [← tail_drop, ← suffix]
      rfl
    rw [DiskTuple.cachingWalk]
    split_ifs
    · exact (cachingStep_sound tuple attrs attnum walk attr true here hoff before).1
    · exact cachingWalk_sound tuple attrs target hoff rest (attnum + 1) _ tail
        ((cachingStep_sound tuple attrs attnum walk attr false here hoff before).2 rfl)

end Offsets

section Access

/-- The offsets that a descriptor may keep: reads of attributes of tuples on disk led to them. -/
inductive CacheReached (desc : TupleDesc) : OffsetCache → Prop where
  | empty : CacheReached desc OffsetCache.empty
  | read (cache : OffsetCache) (tuple : DiskTuple) (attnum : Nat)
      (before : CacheReached desc cache) (onDisk : OnDisk tuple desc.attrs) :
      CacheReached desc (uheapNoCacheGetAttr tuple desc cache attnum).2

variable (tuple : DiskTuple) (desc : TupleDesc)

theorem slow_false (attnum : Nat) (fast : tuple.slow desc attnum = false) : tuple.hasNulls = false ∧
      (tuple.hasVarWidth = true → AllFixed (desc.attrs.take (attnum + 1))) ∧
      ∀ attr, desc.attrs.head? = some attr → 0 < attr.attlen := by
  rw [DiskTuple.slow, Bool.or_eq_false_iff, Bool.or_eq_false_iff] at fast
  obtain ⟨⟨noNulls, varying⟩, first⟩ := fast
  refine ⟨noNulls, fun wide attr member => ?_, fun attr head => ?_⟩
  · rw [wide, Bool.true_and, any_eq_false] at varying
    have length := varying attr member
    simp only [decide_eq_true_eq, not_le] at length
    exact length
  · rw [head, Option.any_some, decide_eq_false_iff_not, not_le] at first
    exact first

theorem CacheReached.sound {desc : TupleDesc} {cache : OffsetCache}
    (reached : CacheReached desc cache) : CacheSound desc.attrs cache := by
  induction reached with
  | empty => exact cacheSound_empty _
  | read cache tuple attnum _ onDisk ih =>
    unfold uheapNoCacheGetAttr
    split_ifs with slow
    · refine cachingWalk_sound tuple desc.attrs attnum onDisk.hoff desc.attrs 0 _ rfl ⟨ih, ?_⟩
      intro noNulls _
      exact ⟨fun attr absent => absurd absent not_mem_nil, onDisk.hoff noNulls⟩
    · obtain ⟨noNulls, _, leads⟩ := slow_false tuple desc attnum (by simpa using slow)
      exact (keepOffsets_spec tuple ih (onDisk.hoff noNulls) leads).1

/-- An attribute is fetched where the walk finds it. -/
theorem uheapNoCacheGetAttr_value {cache : OffsetCache}
    {attnum : Nat} {attr : Attribute} (onDisk : OnDisk tuple desc.attrs)
    (sound : CacheSound desc.attrs cache) (here : desc.attrs[attnum]? = some attr)
    (inside : attnum < tuple.natts) (present : tuple.nullAt attnum = false) :
    (uheapNoCacheGetAttr tuple desc cache attnum).1 =
      some (fetchatt attr (tuple.bytesAt (tuple.attStart attr
        (tuple.walkTo desc attnum).1.off))) := by
  unfold uheapNoCacheGetAttr
  split_ifs with slow
  · dsimp only
    have place := cachingWalk_off tuple desc.attrs 0 attnum ⟨tuple.hoff, 0, true, cache⟩ here
      (by rw [Nat.zero_add]; exact present)
    rw [Nat.zero_add] at place
    rw [place, here]
    rfl
  · dsimp only
    obtain ⟨noNulls, varying, leads⟩ := slow_false tuple desc attnum (by simpa using slow)
    have hoff := onDisk.hoff noNulls
    have fixed : AllFixed (desc.attrs.take (attnum + 1)) := by
      cases wide : tuple.hasVarWidth with
      | true => exact varying wide
      | false =>
        intro other member
        obtain ⟨index, below, same⟩ := mem_take_iff_getElem.mp member
        by_contra short
        have flag := onDisk.wide noNulls index (by omega) other
          (by rw [getElem?_eq_getElem (by lia), same]) (by omega)
        rw [wide] at flag
        exact absurd flag (by decide)
    have shorter : AllFixed (desc.attrs.take attnum) := fun other member =>
      fixed other (take_subset_take_left _ (Nat.le_succ attnum) member)
    have positive := fixed attr (by
      rw [take_add_one, here]
      exact mem_append_right _ mem_cons_self)
    have kept := (keepOffsets_spec tuple sound hoff leads).2 attnum attr here fixed
    have off := walkAttrs_fixed tuple noNulls shorter 0 ⟨tuple.hoff, 0⟩
    have start : tuple.attStart attr (tuple.walkTo desc attnum).1.off =
        fixedStart attr (fixedEnd (desc.attrs.take attnum) sizeOfUHeapDiskTupleData) := by
      rw [DiskTuple.walkTo, off, DiskTuple.attStart, if_neg (by omega), fixedStart]
      rw [hoff]
    rw [kept, start, hoff, here, Int.sub_add_cancel]
    rfl

/-- What a slot has agrees with what one walk gives, and attribute by attribute with what is read
alone, whatever offsets the descriptor keeps. -/
structure Slot.Agrees (slot : Slot) (tuple : DiskTuple) (desc : TupleDesc) (natts : Nat) :
    Prop where
  deformed : slot.values = uheapDeformTupleGuts tuple desc natts
  single : ∀ cache, CacheReached desc cache → ∀ att < natts, att < tuple.natts →
    slot.values[att]? = some (if tuple.nullAt att = true then none
      else (uheapNoCacheGetAttr tuple desc cache att).1)

theorem walkAttrs_null (attrs : List Attribute) (attnum : Nat) (walk : Walk)
    (skip : Nat) (inside : skip < attrs.length) (null : tuple.nullAt (attnum + skip) = true) :
    (tuple.walkAttrs attrs attnum walk).2[skip]? = some none := by
  induction attrs generalizing attnum walk skip with
  | nil => exact absurd inside (Nat.not_lt_zero _)
  | cons first rest ih =>
    rw [DiskTuple.walkAttrs]
    cases skip with
    | zero =>
      rw [getElem?_cons_zero, DiskTuple.walkAttr, if_pos (by exact null)]
    | succ skip =>
      exact ih (attnum + 1) _ skip (Nat.lt_of_succ_lt_succ inside)
        (by rw [show attnum + 1 + skip = attnum + (skip + 1) by omega]; exact null)

/-- In every run of requests for more and more attributes in which each request goes on with the
bits that belong to the nulls, the slot agrees with one walk and with reading attributes alone. -/
theorem slotDeformUTuple_agrees (tuple : DiskTuple) (desc : TupleDesc)
    (onDisk : OnDisk tuple desc.attrs) (requests : List Nat)
    (increasing : requests.Pairwise (· < ·))
    (inside : ∀ natts ∈ requests, natts ≤ desc.attrs.length)
    (right : tuple.RequestsRight 0 requests) (last : Nat) (ends : requests.getLast? = some last) :
    (requests.foldl (slotDeformUTuple tuple desc) Slot.fresh).Agrees tuple desc last := by
  have lastInside : last ≤ desc.attrs.length := inside last (mem_of_getLast? ends)
  have fresh : Slot.fresh.Reads tuple desc 0 := by
    refine ⟨?_, fun absurdity => absurd rfl absurdity⟩
    rw [uheapDeformTupleGuts_eq, Nat.min_zero]
    rfl
  have reads := slotDeformUTuple_requests requests Slot.fresh 0 last fresh
    (pairwise_cons.mpr ⟨fun natts _ => Nat.zero_le natts,
      increasing.imp fun less => Nat.le_of_lt less⟩) inside right (by
        cases requests with
        | nil => simp at ends
        | cons first rest => rwa [getLast?_cons_cons])
  refine ⟨reads.values, fun cache reached att below within => ?_⟩
  have count : (tuple.walkTo desc (min tuple.natts last)).2.length = min tuple.natts last := by
    rw [DiskTuple.walkTo, walkAttrs_length, length_take]
    omega
  rw [reads.values, uheapDeformTupleGuts_eq, getElem?_append_left (by omega), DiskTuple.walkTo]
  have taken : (desc.attrs.take (min tuple.natts last)).length = min tuple.natts last := by
    rw [length_take]
    omega
  have attIn : att < desc.attrs.length := by omega
  have here : (desc.attrs.take (min tuple.natts last))[att]? = some desc.attrs[att] := by
    rw [getElem?_take_of_lt (by omega), getElem?_eq_getElem attIn]
  cases null : tuple.nullAt att with
  | true =>
    rw [if_pos rfl, walkAttrs_null tuple _ 0 _ att (by omega) (by rw [Nat.zero_add]; exact null)]
  | false =>
    rw [walkAttrs_value tuple _ 0 _ att desc.attrs[att] here
      (by rw [Nat.zero_add]; exact null),
      uheapNoCacheGetAttr_value tuple desc onDisk reached.sound
        (getElem?_eq_getElem attIn) within null, take_take, Nat.min_eq_left (by omega)]
    rfl

theorem Attribute.admits_none (attr : Attribute) (value : Datum)
    (absent : value ∈ (none : Option Datum)) : attr.Admits value :=
  absurd absent (Option.not_mem_none value)

theorem int4Attribute_admits (value : Datum) (same : value ∈ some (Datum.word 70000)) :
    int4Attribute.Admits value := by
  rw [Option.mem_some_iff] at same
  subst same
  rfl

/-- A null text, a null number and a number. -/
def reservedRow : List Column :=
  [⟨textAttribute, none, textAttribute.admits_none⟩, ⟨int4Attribute, none, int4Attribute.admits_none⟩,
    ⟨int4Attribute, some (.word 70000), int4Attribute_admits⟩]

/-- The descriptor of the row. -/
def reservedDesc : TupleDesc := ⟨reservedRow.map Column.attr, fun _ => none⟩

/-- The tuple of the row, with space reserved for the null number. -/
def reservedTuple : DiskTuple :=
  match uheapFormTuple ⟨fun _ object => object, fun _ _ complete => complete⟩ reservedRow true with
  | .ok (_, tuple) => tuple
  | .error _ => ⟨fun _ => 0, 0⟩

theorem reservedTuple_onDisk : OnDisk reservedTuple reservedDesc.attrs := by
  have noDisk : reservedTuple.hasNulls = true := by decide
  exact ⟨fun absurdity => by rw [noDisk] at absurdity; exact Bool.noConfusion absurdity,
    fun absurdity => by rw [noDisk] at absurdity; exact Bool.noConfusion absurdity⟩

/-- The slot stops behind the nulls and goes on with the number. -/
theorem slotDeformUTuple_agrees_behind :
    ([2, 3].foldl (slotDeformUTuple reservedTuple reservedDesc) Slot.fresh).Agrees reservedTuple
      reservedDesc 3 := by
  refine slotDeformUTuple_agrees reservedTuple reservedDesc reservedTuple_onDisk [2, 3]
    (by decide) (by decide) ⟨fun _ att _ _ _ => ?_, fun _ att low high null => ?_, trivial⟩ 3 rfl
  · rw [DiskTuple.nullsBetween_self]
  · have last : att = 2 := by omega
    subst last
    exact Bool.noConfusion null

/-- When the text is read first, the walk that goes on takes the bit of the text for that of the
number and reads the number behind from the reserved space. -/
theorem slotDeformUTuple_resumed :
    ([1, 3].foldl (slotDeformUTuple reservedTuple reservedDesc) Slot.fresh).values =
        [none, none, some (.word 0)] ∧ uheapDeformTupleGuts reservedTuple reservedDesc 3 =
        [none, none, some (.word 70000)] ∧
      (uheapNoCacheGetAttr reservedTuple reservedDesc OffsetCache.empty 2).1 =
        some (.word 70000) := by
  decide

end Access

end OpenGauss.Ustore
