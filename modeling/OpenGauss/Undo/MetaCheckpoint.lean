import OpenGauss.Base.Run
import OpenGauss.Undo.MetaRecovery

/-!
# What a checkpoint leaves in the metadata file

The checkpoint walk goes over the zones once and flushes a write unit at its last zone.
The inner loop is followed zone by zone until the unit is written, the outer loop unit by
unit; at the end every page that a write of a dirty unit reaches is complete and current,
and everything else in the file is untouched.
-/
namespace OpenGauss.Undo

open OpenGauss.Base

section Flushing

variable {ζ : Type} (crc : List UInt8 → UInt32) (table : MetaTable ζ)

/-- Entry of a zone in a table of zones. -/
def MetaTable.image (zones : Nat → Option ζ) (zoneId : Nat) : List UInt8 :=
  table.entry zoneId (zones zoneId)

/-- The inner loop after some zones of a unit. -/
structure Flushing (file : List UInt8) (zones : Nat → Option ζ) (unit index : Nat)
    (writer : MetaWriter ζ) : Prop where
  cycle : writer.cycle = unit * table.kind.perWrite + index
  writeSize : writer.writeSize = table.kind.writeSize (unit * table.kind.perWrite)
  filled : Filled crc table (table.image zones) unit index writer.buffer
  cleaned : ∀ zoneId, writer.zones zoneId =
    if unit * table.kind.perWrite ≤ zoneId ∧ zoneId < unit * table.kind.perWrite + index then
      (zones zoneId).map table.clean else zones zoneId
  pending : index < table.kind.unitSize unit → writer.file = file
  written : index = table.kind.unitSize unit → writer.needFlush = false ∧
    writer.file = writeAt file (table.base + unit * undoWriteSize)
      (writer.buffer.take (table.kind.writeSize (unit * table.kind.perWrite)))

theorem MetaKind.unit_end (kind : MetaKind) (unit index : Nat)
    (inside : index < kind.unitSize unit) :
    ((unit * kind.perWrite + index + 1) % kind.perWrite = 0 ∨
      unit * kind.perWrite + index = persistZoneCount - 1) ↔ index + 1 = kind.unitSize unit := by
  simp only [MetaKind.unitSize] at *
  rcases kind.sizes with ⟨entry, perPage, perWrite⟩ | ⟨entry, perPage, perWrite⟩ <;>
    simp only [perWrite] at * <;> omega

theorem MetaKind.unit_of (kind : MetaKind) (unit index : Nat)
    (inside : index < kind.unitSize unit) :
    (unit * kind.perWrite + index) / kind.perWrite = unit := by
  simp only [MetaKind.unitSize] at *
  rcases kind.sizes with ⟨entry, perPage, perWrite⟩ | ⟨entry, perPage, perWrite⟩ <;>
    simp only [perWrite] at * <;> omega

variable (file : List UInt8) (zones : Nat → Option ζ)

/-- One more zone of the unit is cleaned. -/
theorem Flushing.step (unit index : Nat)
    (writer : MetaWriter ζ) (flushing : Flushing crc table file zones unit index writer)
    (inside : index < table.kind.unitSize unit) :
    Flushing crc table file zones unit (index + 1) (flushBody crc table writer) := by
  have current : writer.zones writer.cycle = zones writer.cycle := by
    rw [flushing.cleaned, flushing.cycle, if_neg (by omega)]
  have filled := flushing.filled.step crc table (table.image zones) unit index inside
    (table.entry_length _ _)
  have cleaned : ∀ zoneId, Function.update writer.zones writer.cycle
      ((writer.zones writer.cycle).map table.clean) zoneId =
      if unit * table.kind.perWrite ≤ zoneId ∧ zoneId < unit * table.kind.perWrite + (index + 1) then
        (zones zoneId).map table.clean else zones zoneId := by
    intro zoneId
    by_cases here : zoneId = writer.cycle
    · subst here
      rw [Function.update_self, current, flushing.cycle, if_pos (by lia)]
    · rw [Function.update_of_ne here, flushing.cleaned]
      rw [flushing.cycle] at here
      simp only [show (unit * table.kind.perWrite ≤ zoneId ∧
        zoneId < unit * table.kind.perWrite + (index + 1)) ↔ (unit * table.kind.perWrite ≤ zoneId ∧
        zoneId < unit * table.kind.perWrite + index) by omega]
  have ending := table.kind.unit_end unit index inside
  have image : table.entry writer.cycle (writer.zones writer.cycle) =
      table.image zones writer.cycle := by
    rw [current]
    rfl
  have unitOf : writer.cycle / table.kind.perWrite = unit := by
    rw [flushing.cycle]
    exact table.kind.unit_of unit index inside
  rw [← flushing.cycle] at ending filled
  have nextCycle : writer.cycle + 1 = unit * table.kind.perWrite + (index + 1) := by
    rw [flushing.cycle]
    lia
  simp only [flushBody, image, unitOf, ending]
  by_cases last : index + 1 = table.kind.unitSize unit
  · rw [if_pos last]
    refine ⟨nextCycle, flushing.writeSize, filled, cleaned, ?_, ?_⟩
    · intro short
      lia
    · intro _
      rw [flushing.pending inside, flushing.writeSize]
      exact ⟨rfl, rfl⟩
  · rw [if_neg last]
    refine ⟨nextCycle, flushing.writeSize, filled, cleaned, ?_, ?_⟩
    · intro _
      exact flushing.pending inside
    · intro complete
      exact absurd complete last

theorem Flushing.iterate (unit index count : Nat)
    (writer : MetaWriter ζ) (flushing : Flushing crc table file zones unit index writer)
    (inside : index + count ≤ table.kind.unitSize unit) :
    Flushing crc table file zones unit (index + count) ((flushBody crc table)^[count] writer) := by
  induction count generalizing index writer with
  | zero => exact flushing
  | succ count ih =>
    rw [show index + (count + 1) = index + 1 + count by omega]
    exact ih (index + 1) _ (flushing.step crc table file zones unit index writer (by omega))
      (by omega)

end Flushing

section Scanning

variable {ζ : Type} (crc : List UInt8 → UInt32) (table : MetaTable ζ)

/-- Some zone of the write unit is dirty. -/
def MetaTable.DirtyUnit (zones : Nat → Option ζ) (unit : Nat) : Prop :=
  ∃ zoneId < persistZoneCount, zoneId / table.kind.perWrite = unit ∧
    (zones zoneId).any table.dirty = true

/-- Number of write units. -/
def MetaKind.unitCount (kind : MetaKind) : Nat := persistZoneCount / kind.perWrite + 1

/-- A checkpoint that has gone over the first write units. -/
structure Flushed (file : List UInt8) (zones : Nat → Option ζ) (units : Nat)
    (file' : List UInt8) (zones' : Nat → Option ζ) : Prop where
  length : file'.length = file.length
  written : ∀ page < table.kind.pageCount, page / 8 < units →
    table.DirtyUnit zones (page / 8) → table.kind.covered page →
    PageHolds crc table.kind (table.image zones) file' (table.base + page * undoMetaPageSize) page
  kept : ∀ start count, (∀ unit < units, table.DirtyUnit zones unit →
      start + count ≤ table.base + unit * undoWriteSize ∨
        table.base + unit * undoWriteSize + table.kind.writeSize (unit * table.kind.perWrite) ≤
          start) → slice file' start count = slice file start count
  cleaned : ∀ zoneId < persistZoneCount, zoneId / table.kind.perWrite < units →
    table.DirtyUnit zones (zoneId / table.kind.perWrite) →
    zones' zoneId = (zones zoneId).map table.clean
  untouched : ∀ zoneId, (zoneId < persistZoneCount → zoneId / table.kind.perWrite < units →
    ¬ table.DirtyUnit zones (zoneId / table.kind.perWrite)) → zones' zoneId = zones zoneId

/-- A unit is some pages. -/
theorem MetaKind.writeSize_pages (kind : MetaKind) {unit : Nat} (inside : unit < kind.unitCount) :
    ∃ pages, kind.writeSize (unit * kind.perWrite) = pages * undoMetaPageSize ∧ pages ≤ 8 ∧
      unit * 8 + pages ≤ kind.pageCount := by
  unfold writeSize
  by_cases last : persistZoneCount - unit * kind.perWrite < kind.perWrite
  · rw [if_pos last]
    refine ⟨_, rfl, ?_⟩
    cases kind with
    | zone =>
      change unit < 6242 at inside
      change 349525 - unit * 56 < 56 at last
      change (349525 - unit * 56) / 7 + 1 ≤ 8 ∧ unit * 8 + ((349525 - unit * 56) / 7 + 1) ≤ 49933
      omega
    | space =>
      change unit < 2913 at inside
      change 349525 - unit * 120 < 120 at last
      change (349525 - unit * 120) / 120 + 1 ≤ 8 ∧
        unit * 8 + ((349525 - unit * 120) / 120 + 1) ≤ 23302
      omega
  · rw [if_neg last]
    refine ⟨8, rfl, le_rfl, ?_⟩
    cases kind with
    | zone =>
      change ¬ 349525 - unit * 56 < 56 at last
      change unit * 8 + 8 ≤ 49933
      omega
    | space =>
      change ¬ 349525 - unit * 120 < 120 at last
      change unit * 8 + 8 ≤ 23302
      omega

theorem MetaKind.page_slots (kind : MetaKind) {unit page slot : Nat} (small : page < 8)
    (below : slot < kind.countOn (unit * 8 + page)) :
    page * kind.perPage + slot < kind.unitSize unit ∧
      kind.place (page * kind.perPage + slot) = page * undoMetaPageSize + slot * kind.entrySize ∧
      unit * kind.perWrite + (page * kind.perPage + slot) =
        (unit * 8 + page) * kind.perPage + slot := by
  simp only [MetaKind.place, MetaKind.unitSize, MetaKind.countOn,
    undoMetaPageSize] at *
  rcases kind.sizes with ⟨entry, perPage, perWrite⟩ | ⟨entry, perPage, perWrite⟩ <;>
    simp only [entry, perPage, perWrite] at *
  · omega
  · omega

theorem MetaKind.page_inside (kind : MetaKind) {unit page : Nat} (small : page < 8)
    (used : unit * 8 + page < kind.pageCount) :
    page * kind.perPage + kind.countOn (unit * 8 + page) ≤ kind.unitSize unit := by
  simp only [MetaKind.unitSize, MetaKind.countOn, persistZoneCount]
  rcases kind.area with ⟨perPage, perWrite, pages⟩ | ⟨perPage, perWrite, pages⟩ <;>
    rw [pages] at used <;> rw [perPage, perWrite] <;> omega

theorem Filled.page {image : Nat → List UInt8} (unit page : Nat) {buffer : List UInt8}
    (filled : Filled crc table image unit (table.kind.unitSize unit) buffer) (small : page < 8)
    (used : unit * 8 + page < table.kind.pageCount) :
    PageHolds crc table.kind image buffer (page * undoMetaPageSize) (unit * 8 + page) := by
  constructor
  · intro slot below
    obtain ⟨inside, place, number⟩ := table.kind.page_slots small below
    rw [← place, ← number]
    exact filled.entries _ inside
  · exact filled.crcs page small (table.kind.page_inside small used)

theorem PageHolds.image_congr {kind : MetaKind} (image image' : Nat → List UInt8)
    {bytes : List UInt8} {offset page : Nat}
    (same : ∀ slot < kind.countOn page, image (page * kind.perPage + slot) =
      image' (page * kind.perPage + slot)) (holds : PageHolds crc kind image bytes offset page) :
    PageHolds crc kind image' bytes offset page := by
  refine ⟨?_, holds.crcMatches⟩
  intro slot below
  rw [holds.entries slot below, same slot below]

/-- A clean unit is skipped. -/
theorem Flushed.skip {file : List UInt8} {zones : Nat → Option ζ} {unit : Nat}
    {file' : List UInt8} {zones' : Nat → Option ζ}
    (flushed : Flushed crc table file zones unit file' zones')
    (clean : ¬ table.DirtyUnit zones unit) :
    Flushed crc table file zones (unit + 1) file' zones' := by
  have narrow (number : Nat) (dirty : table.DirtyUnit zones number) (below : number < unit + 1) :
      number < unit := by
    rcases Nat.lt_succ_iff_lt_or_eq.mp below with before | rfl
    · exact before
    · exact absurd dirty clean
  constructor
  · exact flushed.length
  · intro page inside below dirty covered
    exact flushed.written page inside (narrow _ dirty below) dirty covered
  · intro start count apart
    exact flushed.kept start count (fun number below => apart number (by omega))
  · intro zoneId inside below dirty
    exact flushed.cleaned zoneId inside (narrow _ dirty below) dirty
  · intro zoneId other
    exact flushed.untouched zoneId (fun inside below => other inside (by omega))

theorem MetaKind.mem_unit (kind : MetaKind) (unit zoneId : Nat) :
    (unit * kind.perWrite ≤ zoneId ∧ zoneId < unit * kind.perWrite + kind.unitSize unit) ↔
      zoneId < persistZoneCount ∧ zoneId / kind.perWrite = unit := by
  simp only [MetaKind.unitSize]
  rcases kind.sizes with ⟨-, -, perWrite⟩ | ⟨-, -, perWrite⟩ <;> rw [perWrite] <;> omega

theorem MetaKind.page_zone (kind : MetaKind) {page slot : Nat} (below : slot < kind.countOn page) :
    page * kind.perPage + slot < persistZoneCount ∧
      (page * kind.perPage + slot) / kind.perWrite = page / 8 := by
  simp only [MetaKind.countOn] at *
  rcases kind.sizes with ⟨-, perPage, perWrite⟩ | ⟨-, perPage, perWrite⟩ <;>
    rw [perPage] at below <;> rw [perPage, perWrite] <;> omega

/-- A unit with a dirty zone is written. -/
theorem Flushed.write {file : List UInt8} {zones : Nat → Option ζ} {unit : Nat}
    {file' : List UInt8} {zones' : Nat → Option ζ} {writer : MetaWriter ζ}
    (flushed : Flushed crc table file zones unit file' zones')
    (dirty : table.DirtyUnit zones unit) (inside : unit < table.kind.unitCount)
    (room : table.base + table.kind.pageCount * undoMetaPageSize ≤ file.length)
    (flushing : Flushing crc table file' zones' unit (table.kind.unitSize unit) writer) :
    Flushed crc table file zones (unit + 1) writer.file writer.zones := by
  obtain ⟨pages, size, few, ends⟩ := table.kind.writeSize_pages inside
  obtain ⟨-, written⟩ := flushing.written rfl
  have filled := flushing.filled
  have bufferLength := filled.length
  have same (zoneId : Nat) (mine : zoneId / table.kind.perWrite = unit) :
      zones' zoneId = zones zoneId :=
    flushed.untouched zoneId (by intro _ before; omega)
  have fits : table.base + unit * undoWriteSize + pages * undoMetaPageSize ≤ file'.length := by
    rw [flushed.length]
    simp only [undoWriteSize, undoMetaPageSize] at *
    lia
  have dataLength : (writer.buffer.take (pages * undoMetaPageSize)).length =
      pages * undoMetaPageSize := by
    rw [List.length_take, bufferLength]
    simp only [undoWriteSize, undoMetaPageSize]
    lia
  rw [size, writeAt_inside _ _ _ (by lia)] at written
  constructor
  · rw [written, overwrite_length _ _ _ (by rw [dataLength]; exact fits), flushed.length]
  · intro page used below pageDirty covered
    rcases Nat.lt_succ_iff_lt_or_eq.mp below with before | here
    · apply PageHolds.congr _ (flushed.written page used before pageDirty covered)
      rw [written, slice_overwrite_before _ _ _ _ _ _ (by lia)]
      simp only [undoWriteSize, undoMetaPageSize]
      lia
    · have number : unit * 8 + page % 8 = page := by lia
      have holds := filled.page crc table unit (page % 8) (by grind) (by rw [number]; exact used)
      rw [number] at holds
      have reach : page % 8 * undoMetaPageSize + undoMetaPageSize ≤ pages * undoMetaPageSize := by
        rw [← size, ← here]
        exact covered
      have holds' := holds.image_congr crc _ (table.image zones) (by
        intro slot slotBelow
        unfold MetaTable.image
        rw [same _ ((table.kind.page_zone slotBelow).2.trans here)])
      apply PageHolds.congr _ holds'
      have offset : table.base + page * undoMetaPageSize =
          table.base + unit * undoWriteSize + page % 8 * undoMetaPageSize := by
        simp only [undoWriteSize, undoMetaPageSize]
        lia
      rw [written, offset, slice_overwrite_inside _ _ _ _ _ (by rw [dataLength]; exact reach)
        (by lia), slice_take _ _ _ _ reach]
  · intro start count apart
    rw [← flushed.kept start count (fun number below => apart number (by omega)), written]
    rcases apart unit (by omega) dirty with before | after
    · exact slice_overwrite_before _ _ _ _ _ before (by lia)
    · exact slice_overwrite_after _ _ _ _ _ (by rw [dataLength, ← size]; exact after) (by lia)
  · intro zoneId below before zoneDirty
    rw [flushing.cleaned]
    by_cases mine : zoneId / table.kind.perWrite = unit
    · rw [if_pos ((table.kind.mem_unit unit zoneId).mpr ⟨below, mine⟩), same zoneId mine]
    · rw [if_neg (fun inUnit => mine ((table.kind.mem_unit unit zoneId).mp inUnit).2)]
      exact flushed.cleaned zoneId below (by lia) zoneDirty
  · intro zoneId other
    have outside : ¬ (unit * table.kind.perWrite ≤ zoneId ∧
        zoneId < unit * table.kind.perWrite + table.kind.unitSize unit) := by
      intro inUnit
      obtain ⟨below, mine⟩ := (table.kind.mem_unit unit zoneId).mp inUnit
      apply other below (by omega)
      rw [mine]
      exact dirty
    rw [flushing.cleaned, if_neg outside]
    exact flushed.untouched zoneId (fun below before => other below (by lia))

/-- The outer loop before a zone. -/
structure Scanning (file : List UInt8) (zones : Nat → Option ζ) (loop : Nat)
    (writer : MetaWriter ζ) : Prop where
  flushed : Flushed crc table file zones (loop / table.kind.perWrite) writer.file writer.zones
  started : loop % table.kind.perWrite ≠ 0 → writer.buffer = zeros undoWriteSize ∧
    writer.cycle = loop / table.kind.perWrite * table.kind.perWrite ∧
    writer.writeSize = table.kind.writeSize (loop / table.kind.perWrite * table.kind.perWrite)
  flag : writer.needFlush = true ↔ ∃ zoneId < loop,
    zoneId / table.kind.perWrite = loop / table.kind.perWrite ∧
      (zones zoneId).any table.dirty = true

/-- The scan begins. -/
theorem Scanning.start (file : List UInt8) (zones : Nat → Option ζ) :
    Scanning crc table file zones 0 ⟨file, zones, zeros undoWriteSize, false, 0, 0⟩ := by
  constructor
  · rw [Nat.zero_div]
    constructor
    · rfl
    · intro page _ below
      lia
    · intro start count _
      rfl
    · intro zoneId _ below
      exact absurd below (Nat.not_lt_zero _)
    · intro zoneId _
      rfl
  · intro inside
    exact absurd (Nat.zero_mod _) inside
  · simp

/-- The current unit with its flag up to date, before the source decides whether to flush. -/
structure Prepared (file : List UInt8) (zones : Nat → Option ζ) (loop : Nat)
    (writer : MetaWriter ζ) : Prop where
  flushed : Flushed crc table file zones (loop / table.kind.perWrite) writer.file writer.zones
  buffer : writer.buffer = zeros undoWriteSize
  cycle : writer.cycle = loop / table.kind.perWrite * table.kind.perWrite
  writeSize : writer.writeSize =
    table.kind.writeSize (loop / table.kind.perWrite * table.kind.perWrite)
  flag : writer.needFlush = true ↔ ∃ zoneId < loop + 1,
    zoneId / table.kind.perWrite = loop / table.kind.perWrite ∧
      (zones zoneId).any table.dirty = true

variable {table crc}

/-- A unit begins. -/
theorem Scanning.startUnit {file : List UInt8} {zones : Nat → Option ζ} {loop : Nat}
    {writer : MetaWriter ζ} (scanning : Scanning crc table file zones loop writer) :
    let writer' := Undo.startUnit table writer loop
    Scanning crc table file zones loop writer' ∧ writer'.buffer = zeros undoWriteSize ∧
      writer'.cycle = loop / table.kind.perWrite * table.kind.perWrite ∧
      writer'.writeSize =
        table.kind.writeSize (loop / table.kind.perWrite * table.kind.perWrite) := by
  intro writer'
  by_cases first : loop % table.kind.perWrite = 0
  · have position : loop / table.kind.perWrite * table.kind.perWrite = loop :=
      Nat.div_mul_cancel (Nat.dvd_of_mod_eq_zero first)
    have none : ¬ ∃ zoneId < loop, zoneId / table.kind.perWrite = loop / table.kind.perWrite ∧
        (zones zoneId).any table.dirty = true := by
      rintro ⟨zoneId, before, same, -⟩
      have low := Nat.div_mul_le_self zoneId table.kind.perWrite
      rw [same] at low
      omega
    have lowered : writer.needFlush = false := by
      rw [← Bool.not_eq_true, scanning.flag]
      exact none
    have flag : writer'.needFlush = false := by
      simp only [writer', Undo.startUnit, first, if_true, lowered, ite_self]
    simp only [writer', Undo.startUnit, first, if_true] at flag ⊢
    refine ⟨⟨scanning.flushed, ?_, ?_⟩, trivial, position.symm, by rw [position]⟩
    · intro inside
      exact absurd first inside
    · rw [flag]
      simpa using none
  · simp only [writer', Undo.startUnit, first]
    exact ⟨scanning, scanning.started first⟩

/-- A zone is noted and its entry written. -/
theorem Scanning.prepare {file : List UInt8} {zones : Nat → Option ζ} {loop : Nat}
    {writer : MetaWriter ζ} (scanning : Scanning crc table file zones loop writer) :
    Prepared crc table file zones loop
      (noteDirty table (Undo.startUnit table writer loop) loop) := by
  obtain ⟨scanning', buffer, cycle, writeSize⟩ := scanning.startUnit
  generalize Undo.startUnit table writer loop = started at *
  have current : started.zones loop = zones loop :=
    scanning'.flushed.untouched loop (by intro _ before; omega)
  have widen : (∃ zoneId < loop + 1, zoneId / table.kind.perWrite = loop / table.kind.perWrite ∧
      (zones zoneId).any table.dirty = true) ↔ (zones loop).any table.dirty = true ∨
      started.needFlush = true := by
    rw [scanning'.flag]
    constructor
    · rintro ⟨zoneId, below, same, dirty⟩
      rcases Nat.lt_succ_iff_lt_or_eq.mp below with before | rfl
      · exact .inr ⟨zoneId, before, same, dirty⟩
      · exact .inl dirty
    · rintro (dirty | ⟨zoneId, before, same, dirty⟩)
      · exact ⟨loop, by omega, rfl, dirty⟩
      · exact ⟨zoneId, by omega, same, dirty⟩
  unfold noteDirty
  rw [current]
  by_cases dirty : (zones loop).any table.dirty = true
  · rw [if_pos dirty]
    refine ⟨scanning'.flushed, buffer, cycle, writeSize, ?_⟩
    rw [widen]
    simp [dirty]
  · rw [if_neg dirty]
    refine ⟨scanning'.flushed, buffer, cycle, writeSize, ?_⟩
    rw [widen]
    simp [dirty]

theorem MetaKind.unit_nonempty (kind : MetaKind) {unit : Nat} (inside : unit < kind.unitCount) :
    0 < kind.unitSize unit ∧ unit * kind.perWrite < persistZoneCount := by
  simp only [MetaKind.unitCount, MetaKind.unitSize, persistZoneCount] at *
  rcases kind.sizes with ⟨-, -, perWrite⟩ | ⟨-, -, perWrite⟩ <;> rw [perWrite] at inside ⊢ <;> lia

/-- The flag says whether a zone of the unit is dirty. -/
theorem Prepared.flag_iff {file : List UInt8} {zones : Nat → Option ζ} {unit index : Nat}
    {writer : MetaWriter ζ} (last : index + 1 = table.kind.unitSize unit)
    (prepared : Prepared crc table file zones (unit * table.kind.perWrite + index) writer) :
    writer.needFlush = true ↔ table.DirtyUnit zones unit := by
  have unitOf := table.kind.unit_of unit index (by omega)
  rw [prepared.flag, unitOf]
  constructor
  · rintro ⟨zoneId, below, mine, dirty⟩
    have inUnit : unit * table.kind.perWrite ≤ zoneId := by
      rw [← mine]
      exact Nat.div_mul_le_self _ _
    exact ⟨zoneId, ((table.kind.mem_unit unit zoneId).mp ⟨inUnit, by omega⟩).1, mine, dirty⟩
  · rintro ⟨zoneId, below, mine, dirty⟩
    have inUnit := (table.kind.mem_unit unit zoneId).mpr ⟨below, mine⟩
    exact ⟨zoneId, by omega, mine, dirty⟩

/-- A unit is written at its last zone. -/
theorem Scanning.finish {file : List UInt8} {zones : Nat → Option ζ} {unit index : Nat}
    {writer : MetaWriter ζ} (last : index + 1 = table.kind.unitSize unit)
    (inside : unit < table.kind.unitCount)
    (room : table.base + table.kind.pageCount * undoMetaPageSize ≤ file.length)
    (scanning : Scanning crc table file zones (unit * table.kind.perWrite + index) writer) :
    let writer' := checkPointStep crc table writer (unit * table.kind.perWrite + index)
    Flushed crc table file zones (unit + 1) writer'.file writer'.zones ∧
      writer'.needFlush = false := by
  intro writer'
  have prepared := scanning.prepare
  have unitOf := table.kind.unit_of unit index (by omega)
  have flag := prepared.flag_iff last
  have ending := (table.kind.unit_end unit index (by omega)).mpr last
  have positive := (table.kind.unit_nonempty inside).2
  have atEnd : (unit * table.kind.perWrite + index + 1) % table.kind.perWrite = 0 ∨
      unit * table.kind.perWrite + index + 1 = persistZoneCount := by
    refine ending.imp_right ?_
    intro isLast
    omega
  simp only [writer', checkPointStep, atEnd, and_true]
  generalize noteDirty table (Undo.startUnit table writer (unit * table.kind.perWrite + index))
    (unit * table.kind.perWrite + index) = ready at *
  obtain ⟨flushed, buffer, cycle, writeSize, -⟩ := prepared
  rw [unitOf] at flushed cycle writeSize
  by_cases raised : ready.needFlush = true
  · have count : unit * table.kind.perWrite + index + 1 - ready.cycle =
        table.kind.unitSize unit := by omega
    have empty : Flushing crc table ready.file ready.zones unit 0 ready := by
      refine ⟨cycle, writeSize, ?_, ?_, ?_, ?_⟩
      · rw [buffer]
        exact Filled.empty crc table _ positive
      · intro zoneId
        rw [if_neg (by lia)]
      · intro _
        rfl
      · intro none
        lia
    have flushing := empty.iterate crc table ready.file ready.zones unit 0
      (table.kind.unitSize unit) ready (by omega)
    rw [Nat.zero_add] at flushing
    simp only [raised, count]
    exact ⟨flushed.write crc table (flag.mp raised) inside room flushing, (flushing.written rfl).1⟩
  · simp only [raised]
    exact ⟨flushed.skip crc table (fun dirty => raised (flag.mpr dirty)), by simpa using raised⟩

/-- The scan goes on inside a unit. -/
theorem Scanning.inner {file : List UInt8} {zones : Nat → Option ζ} {unit index : Nat}
    {writer : MetaWriter ζ} (inside : index + 1 < table.kind.unitSize unit)
    (scanning : Scanning crc table file zones (unit * table.kind.perWrite + index) writer) :
    Scanning crc table file zones (unit * table.kind.perWrite + (index + 1))
      (checkPointStep crc table writer (unit * table.kind.perWrite + index)) := by
  have prepared := scanning.prepare
  have unitOf := table.kind.unit_of unit index (by omega)
  have nextUnit := table.kind.unit_of unit (index + 1) inside
  have notEnd : ¬ ((unit * table.kind.perWrite + index + 1) % table.kind.perWrite = 0 ∨
      unit * table.kind.perWrite + index + 1 = persistZoneCount) := by
    have ending := mt (table.kind.unit_end unit index (by omega)).mp (by omega)
    lia
  obtain ⟨flushed, buffer, cycle, writeSize, flag⟩ := prepared
  simp only [checkPointStep, notEnd, and_false]
  rw [unitOf] at *
  refine ⟨?_, ?_, ?_⟩
  · rw [nextUnit]
    exact flushed
  · intro _
    rw [nextUnit]
    exact ⟨buffer, cycle, writeSize⟩
  · rw [nextUnit]
    exact flag

theorem Scanning.unit {file : List UInt8} {zones : Nat → Option ζ} (unit index : Nat)
    {writer : MetaWriter ζ} (inside : index < table.kind.unitSize unit)
    (scanning : Scanning crc table file zones (unit * table.kind.perWrite) writer) :
    Scanning crc table file zones (unit * table.kind.perWrite + index)
      ((List.range' (unit * table.kind.perWrite) index).foldl (checkPointStep crc table) writer) := by
  induction index with
  | zero => exact scanning
  | succ index ih =>
    rw [List.range'_1_concat, List.foldl_append]
    exact (ih (by omega)).inner inside

variable (file : List UInt8) (zones : Nat → Option ζ) (unit : Nat) (writer : MetaWriter ζ)

/-- The scan goes through a unit. -/
theorem Scanning.through (inside : unit < table.kind.unitCount)
    (room : table.base + table.kind.pageCount * undoMetaPageSize ≤ file.length)
    (scanning : Scanning crc table file zones (unit * table.kind.perWrite) writer) :
    let writer' := (List.range' (unit * table.kind.perWrite) (table.kind.unitSize unit)).foldl
      (checkPointStep crc table) writer
    Flushed crc table file zones (unit + 1) writer'.file writer'.zones ∧
      writer'.needFlush = false := by
  intro writer'
  have nonempty := (table.kind.unit_nonempty inside).1
  have last : table.kind.unitSize unit - 1 + 1 = table.kind.unitSize unit := by omega
  have before := scanning.unit unit (table.kind.unitSize unit - 1) (by omega)
  simp only [writer']
  rw [← last, List.range'_1_concat, List.foldl_append]
  exact before.finish last inside room

/-- Between two units. -/
theorem Scanning.between (flushed : Flushed crc table file zones unit writer.file writer.zones)
    (lowered : writer.needFlush = false) :
    Scanning crc table file zones (unit * table.kind.perWrite) writer := by
  have positive : 0 < table.kind.perWrite := by
    rcases table.kind.sizes with ⟨-, -, perWrite⟩ | ⟨-, -, perWrite⟩ <;> omega
  refine ⟨?_, ?_, ?_⟩
  · rw [Nat.mul_div_cancel _ positive]
    exact flushed
  · intro inner
    exact absurd (Nat.mul_mod_left _ _) inner
  · rw [lowered, Nat.mul_div_cancel _ positive]
    simp only [Bool.false_eq_true, false_iff]
    rintro ⟨zoneId, below, same, -⟩
    exact absurd (Nat.div_lt_of_lt_mul (by rw [Nat.mul_comm]; exact below)) (by omega)

theorem MetaKind.units_cover (kind : MetaKind) : persistZoneCount ≤ kind.unitCount * kind.perWrite ∧
      (kind.unitCount - 1) * kind.perWrite < persistZoneCount := by
  cases kind <;> decide

variable (crc)

/-- A checkpoint goes through all units. -/
theorem checkPointTable_flushed {file : List UInt8} (zones : Nat → Option ζ)
    (room : table.base + table.kind.pageCount * undoMetaPageSize ≤ file.length) :
    Flushed crc table file zones table.kind.unitCount
      (checkPointTable crc table file zones).1 (checkPointTable crc table file zones).2 := by
  obtain ⟨covered, needed⟩ := table.kind.units_cover
  have start := Scanning.start crc table file zones
  have flushed := start.flushed
  rw [Nat.zero_div] at flushed
  have result := foldl_blocks (checkPointStep crc table)
    (fun unit writer => Flushed crc table file zones unit writer.file writer.zones ∧
      writer.needFlush = false)
    ⟨file, zones, zeros undoWriteSize, false, 0, 0⟩ ⟨flushed, rfl⟩
    (by
      intro unit writer inside between
      exact (Scanning.between file zones unit writer between.1 between.2).through
        file zones unit writer inside room)
    covered needed
  have outcome (writer : MetaWriter ζ)
      (flushed : Flushed crc table file zones table.kind.unitCount writer.file writer.zones) :
      Flushed crc table file zones table.kind.unitCount writer.outcome.1 writer.outcome.2 := flushed
  exact outcome _ result.1

theorem MetaKind.page_unit (kind : MetaKind) (page : Nat) (inside : page < kind.pageCount) :
    page / 8 < kind.unitCount := by
  simp only [MetaKind.unitCount, persistZoneCount]
  rcases kind.area with ⟨-, perWrite, pages⟩ | ⟨-, perWrite, pages⟩ <;>
    rw [pages] at inside <;> rw [perWrite] <;> lia

variable (file : List UInt8) (zones : Nat → Option ζ) (file' : List UInt8) (zones' : Nat → Option ζ)

variable {crc file zones file' zones'}

/-- The pages of clean units are kept. -/
theorem Flushed.page_kept {page : Nat}
    (flushed : Flushed crc table file zones table.kind.unitCount file' zones')
    (missed : table.DirtyUnit zones (page / 8) → ¬ table.kind.covered page) :
    slice file' (table.base + page * undoMetaPageSize) undoMetaPageSize =
      slice file (table.base + page * undoMetaPageSize) undoMetaPageSize := by
  apply flushed.kept
  intro unit inside dirty
  obtain ⟨pages, size, few, -⟩ := table.kind.writeSize_pages inside
  by_cases mine : page / 8 = unit
  · subst mine
    have short := missed dirty
    unfold MetaKind.covered at short
    simp only [undoWriteSize, undoMetaPageSize] at *
    lia
  · rw [size]
    simp only [undoWriteSize, undoMetaPageSize]
    lia

theorem Flushed.entry_written {zoneId : Nat}
    (flushed : Flushed crc table file zones table.kind.unitCount file' zones')
    (inside : zoneId < persistZoneCount)
    (dirty : table.DirtyUnit zones (zoneId / table.kind.perWrite))
    (covered : table.kind.covered (zoneId / table.kind.perPage)) :
    entryAt table.kind file' table.base zoneId = table.image zones zoneId := by
  obtain ⟨used, -, -, unitOf⟩ := table.kind.zone_place inside
  have unit : zoneId / table.kind.perPage / 8 < table.kind.unitCount := by
    rw [unitOf]
    exact Nat.lt_succ_of_le (Nat.div_le_div_right (by omega))
  exact entryAt_holds inside (flushed.written _ used unit (by rw [unitOf]; exact dirty) covered)

theorem Flushed.entry_kept {zoneId : Nat}
    (flushed : Flushed crc table file zones table.kind.unitCount file' zones')
    (inside : zoneId < persistZoneCount)
    (missed : table.DirtyUnit zones (zoneId / table.kind.perWrite) →
      ¬ table.kind.covered (zoneId / table.kind.perPage)) :
    entryAt table.kind file' table.base zoneId = entryAt table.kind file table.base zoneId := by
  obtain ⟨-, -, -, unitOf⟩ := table.kind.zone_place inside
  rw [← unitOf] at missed
  exact entryAt_kept (flushed.page_kept missed)

/-- A checkpoint keeps the area valid. -/
theorem Flushed.area_valid
    (flushed : Flushed crc table file zones table.kind.unitCount file' zones')
    (valid : AreaValid crc table.kind file table.base) :
    AreaValid crc table.kind file' table.base := by
  refine ⟨?_, ?_⟩
  · rw [flushed.length]
    exact valid.room
  · intro page inside
    by_cases reached : table.DirtyUnit zones (page / 8) ∧ table.kind.covered page
    · exact (flushed.written page inside (table.kind.page_unit page inside) reached.1
        reached.2).crcMatches
    · apply crcMatches_kept _ (valid.crcs page inside)
      exact flushed.page_kept (fun dirty covered => reached ⟨dirty, covered⟩)

end Scanning

end OpenGauss.Undo
