import OpenGauss.Hll.ExactHashes

/-!
# Runs over several objects

The functions of the database work on several objects: they make new ones, add hashes, join two of
them, ask for the estimate, and write objects as bytes to read them again later. A run keeps, next to
each object, the hashes that were put into it. The module proves what holds of each object in every
state of a run; from it follows when a list of hashes and its estimate are exact.
-/
namespace OpenGauss.Hll.Stored

open List

/-- An object and the hashes that were put into it. -/
structure Traced where
  object : HllObjectData
  hashes : List Nat
  deriving DecidableEq

/-- What is done to some objects. An object is named by its place. -/
inductive HllOp
  | init
  | setPara (index : Nat) (hllpara : HllParaBytes)
  | empty (index : Nat)
  | add (index : Nat) (hashval : UInt64)
  | union (index argument : Nat)
  | cardinality (index : Nat)
  | repack (index : Nat)
  deriving DecidableEq

section Estimates

variable (double : DoubleArithmetic)

/-- An object as it is read from its own bytes; one byte more than needed is reserved for them. -/
def repackObject (object : HllObjectData) : Except Fault HllObjectData := do
  let hllbyte ← hllObjectPack object (hllHeadSize + object.lenUsed + 1)
  hllObjectUnpack (hllInit double) hllbyte

/-- Do something to the object at a place, if there is one. -/
def actOn (objects : List Traced) (index : Nat) (act : Traced → Except Fault Traced) :
    Except Fault (List Traced) :=
  match objects[index]? with
  | none => .ok objects
  | some traced => (act traced).map fun after => objects.set index after

/-- Join the objects at two different places. -/
def unionAt (objects : List Traced) (index argument : Nat) : Except Fault (List Traced) :=
  match objects[index]?, objects[argument]? with
  | some traced, some other =>
    if index = argument then .ok objects
    else (hllUnion double traced.object other.object).map fun joined =>
      (objects.set index ⟨joined.1, traced.hashes ++ other.hashes⟩).set argument
        ⟨joined.2, other.hashes⟩
  | _, _ => .ok objects

/-- One operation. -/
def hllStep (objects : List Traced) : HllOp → Except Fault (List Traced)
  | .init => .ok (objects ++ [⟨hllInit double, []⟩])
  | .setPara index hllpara => actOn objects index fun traced =>
    if hllCheckPararange hllpara then
      (hllSetPara traced.object hllpara).map fun object => ⟨object, traced.hashes⟩
    else .error .raised
  | .empty index => actOn objects index fun traced => .ok ⟨hllEmpty double traced.object, []⟩
  | .add index hashval => actOn objects index fun traced =>
    (hllAdd double traced.object hashval.toNat).map fun object =>
      ⟨object, traced.hashes ++ [hashval.toNat]⟩
  | .union index argument => unionAt double objects index argument
  | .cardinality index => actOn objects index fun traced =>
    (hllCardinality double traced.object).map fun object => ⟨object, traced.hashes⟩
  | .repack index => actOn objects index fun traced =>
    (repackObject double traced.object).map fun object => ⟨object, traced.hashes⟩

/-- A run of operations. -/
def hllRun (objects : List Traced) (ops : List HllOp) : Except Fault (List Traced) :=
  ops.foldlM (hllStep double) objects

/-- What holds of an object in a run. The first condition is for the estimate, the second one for the
list of hashes. -/
def Reached (most : Nat) (counted kept : Prop) (traced : Traced) : Prop :=
  ∃ object, Outcome double most traced.object object counted ∧ object.Filled ∧
    (kept → object.Exact traced.hashes)

variable (most : Nat) (counted kept : Prop) (traced : Traced)

theorem hllInit_reached : Reached double most counted kept ⟨hllInit double, []⟩ := by
  refine ⟨⟨⟨14, 10, 12, false⟩, 0, .uninit⟩, ⟨⟨rfl, rfl, rfl, ?_, ⟨rfl, rfl, rfl, rfl⟩, trivial, ?_⟩,
    fun _ other => HllData.noConfusion other, fun _ => trivial⟩, HllData.noConfusion,
    fun _ => ⟨rfl, rfl⟩⟩
  · show 0 < 2 ^ 64
    decide
  · exact Nat.zero_le _

variable {double}

theorem hllEmpty_reached (reached : Reached double most counted kept traced) :
    Reached double most counted kept ⟨hllEmpty double traced.object, []⟩ := by
  obtain ⟨object, outcome, -, -⟩ := reached
  have represents := outcome.represents
  refine ⟨⟨object.para, 0, .empty⟩, ⟨⟨represents.para, represents.valid, rfl, ?_,
    ⟨rfl, rfl, rfl, rfl⟩, trivial, Nat.zero_le _⟩, fun _ other => HllData.noConfusion other,
    fun _ => rfl⟩, HllData.noConfusion, fun _ => ⟨rfl, rfl⟩⟩
  show 0 < 2 ^ 64
  decide

/-- Setting parameters reaches an object. -/
theorem hllSetPara_reached
    {hllpara : HllParaBytes} (valid : hllCheckPararange hllpara = true) {after : HllObjectData}
    (reached : Reached double most counted kept traced)
    (result : hllSetPara traced.object hllpara = .ok after) :
    Reached double most counted kept ⟨after, traced.hashes⟩ := by
  obtain ⟨object, outcome, filled, exact⟩ := reached
  have represents := outcome.represents
  have holds := represents.holds
  have counted' := outcome.counted
  rw [hllSetPara, isEmpty_represents represents] at result
  by_cases empty : object.isEmpty = true
  · rw [if_pos empty] at result
    obtain rfl := Except.ok.inj result
    obtain ⟨para, lastHash, data⟩ := object
    cases data with
    | uninit =>
      exact ⟨⟨hllpara.toPara, lastHash, .uninit⟩, ⟨⟨rfl, valid, represents.lastHash, represents.word,
        ⟨holds.1, holds.2.lenTotal, holds.2.lenUsed, holds.2.hllData⟩, trivial, represents.reserved⟩,
        fun _ other => HllData.noConfusion other, fun _ => trivial⟩, HllData.noConfusion, exact⟩
    | empty =>
      exact ⟨⟨hllpara.toPara, lastHash, .empty⟩, ⟨⟨rfl, valid, represents.lastHash, represents.word,
        ⟨holds.1, holds.2.lenTotal, holds.2.lenUsed, holds.2.hllData⟩, trivial, represents.reserved⟩,
        fun _ other => HllData.noConfusion other, counted'⟩, HllData.noConfusion, exact⟩
    | explicit hashes | sparse values | full values => cases empty
  · rw [if_neg empty] at result
    cases result

/-- A hash that is skipped though it was not added before: the duplicate check takes a hash 0 for the one
that was added last, if there is none that it remembers, and the list does not start with 0. -/
def AddKeeps (object : HllObjectData) (hashval : Nat) : Prop :=
  object.hllpara.duplicateCheck = 0 ∨ hashval ≠ 0 ∨ object.lastHash ≠ 0 ∨
    object.hlltype = .sparse ∨ object.hlltype = .full ∨
    object.hlltype = .explicit ∧ 0 < object.lenUsed ∧ hllGetExplicitValue object 0 = .ok 0

/-- An add that keeps its hash, in the list. -/
theorem addKept_of_keeps {most : Nat} {stored : HllObjectData} {object : HllObject}
    (represents : Represents most stored object) {added : List Nat} (exact : object.Exact added)
    {hashval : Nat} (keeps : AddKeeps stored hashval) : AddKept object hashval := by
  intro check same
  have duplicate : stored.hllpara.duplicateCheck ≠ 0 := by
    rw [← represents.para, HllParaBytes.toPara, decide_eq_true_eq] at check
    exact check
  have last := represents.lastHash
  have holds := represents.holds
  have sound := represents.sound
  obtain ⟨para, lastHash, data⟩ := object
  dsimp only at last same
  cases data with
  | uninit | empty =>
    have zero : lastHash = 0 := exact.2
    obtain off | other | other | kind | kind | ⟨kind, -⟩ := keeps
    · exact absurd off duplicate
    · exact absurd (same.trans zero) other
    · exact absurd (last.trans zero) other
    · exact HllType.noConfusion (kind.symm.trans holds.1)
    · exact HllType.noConfusion (kind.symm.trans holds.1)
    · exact HllType.noConfusion (kind.symm.trans holds.1)
  | explicit hashes =>
    refine .inl ?_
    obtain zero | member := exact.2
    · obtain off | other | other | kind | kind | ⟨-, some, first⟩ := keeps
      · exact absurd off duplicate
      · exact absurd (same.trans zero) other
      · exact absurd (last.trans zero) other
      · exact HllType.noConfusion (kind.symm.trans holds.1)
      · exact HllType.noConfusion (kind.symm.trans holds.1)
      · have used := holds.2.used
        rw [words_length] at used
        cases hashes with
        | nil => exact absurd used (by rw [length_nil]; omega)
        | cons head rest =>
          have read := hllGetExplicitValue_backed holds.2 0 rfl (sound.2 head mem_cons_self)
          rw [first] at read
          have here : hashval = head := (same.trans zero).trans (Except.ok.inj read)
          rw [here]
          exact mem_cons_self
    · rw [same]
      exact member
  | sparse values | full values => exact .inr trivial

/-- An add reaches an object. -/
theorem hllAdd_reached (enough : 4096 ≤ most) (bounded : most ≤ 2 ^ 17)
    (counted kept : Prop) {traced : Traced} (hashval : UInt64)
    (reached : Reached double most counted kept traced) :
    ∃ after, hllAdd double traced.object hashval.toNat = .ok after ∧
      Reached double most counted (kept ∧ AddKeeps traced.object hashval.toNat)
        ⟨after, traced.hashes ++ [hashval.toNat]⟩ := by
  obtain ⟨object, outcome, filled, exact⟩ := reached
  have represents := outcome.represents
  obtain ⟨after, object', added, listAdded, outcome'⟩ := hllAdd_represents double enough bounded
     represents outcome.limited hashval.toNat_lt
  refine ⟨after, added, object', ⟨outcome'.represents, outcome'.limited, ?_⟩, ?_, ?_⟩
  · exact fun known => outcome'.counted (outcome.counted known)
  · exact hllAdd_filled object object' hashval.toNat represents.sound filled listAdded
  · rintro ⟨before, keeps⟩
    exact hllAdd_exact object object' represents.sound (exact before)
      (addKept_of_keeps represents (exact before) keeps) listAdded

/-- A union reaches two objects. -/
theorem hllUnion_reached (enough : 4096 ≤ most) (bounded : most ≤ 2 ^ 17)
    (counted kept : Prop) {traced other : Traced}
    (reached : Reached double most counted kept traced)
    (otherReached : Reached double most counted kept other) :
    hllUnion double traced.object other.object = .error .raised ∨
      ∃ joined, hllUnion double traced.object other.object = .ok joined ∧
        Reached double most counted kept ⟨joined.1, traced.hashes ++ other.hashes⟩ ∧
        Reached double most counted kept ⟨joined.2, other.hashes⟩ := by
  obtain ⟨object, outcome1, filled1, exact1⟩ := reached
  obtain ⟨aHll, outcome2, filled2, exact2⟩ := otherReached
  have sound1 := outcome1.represents.sound
  have sound2 := outcome2.represents.sound
  obtain raised | ⟨stored1', stored2', object', aHll', joined, listJoined, after1, after2, argument⟩ :=
    hllUnion_represents double enough bounded
      outcome1.represents outcome2.represents outcome1.limited outcome2.limited
  · exact .inl raised
  · refine .inr ⟨_, joined, ⟨object', ⟨after1.represents, after1.limited, ?_⟩, ?_, ?_⟩,
      ⟨aHll', ⟨after2.represents, after2.limited, ?_⟩, ?_, ?_⟩⟩
    · exact fun known => after1.counted ⟨outcome1.counted known, outcome2.counted known⟩
    · exact hllUnion_filled sound1 sound2 filled1 filled2 listJoined
    · exact fun before => hllUnion_exact sound1 sound2 (exact1 before) (exact2 before) listJoined
    · exact fun known => after2.counted (outcome2.counted known)
    · obtain rfl | ⟨values, full⟩ := argument
      · exact filled2
      · intro listed
        exact HllData.noConfusion (full.symm.trans listed)
    · intro before
      obtain rfl | ⟨values, full⟩ := argument
      · exact exact2 before
      · have dense : aHll'.Dense := by
          rw [HllObject.Dense, full]
          trivial
        exact dense.exact other.hashes

/-- The estimate is not part of what is represented. -/
theorem Represents.setEstimate {most : Nat} {stored : HllObjectData} {object : HllObject}
    (represents : Represents most stored object) (ndvEstimator : UInt64) :
    Represents most { stored with ndvEstimator } object := by
  have holds := represents.holds
  refine ⟨represents.para, represents.valid, represents.lastHash, represents.word, ?_,
    represents.sound, represents.reserved⟩
  obtain ⟨para, lastHash, data⟩ := object
  cases data with
  | uninit | empty => exact ⟨holds.1, holds.2.lenTotal, holds.2.lenUsed, holds.2.hllData⟩
  | explicit hashes => exact ⟨holds.1, holds.2.used, holds.2.total, holds.2.front⟩
  | sparse values | full values =>
    obtain ⟨kind, bytes, backed, same⟩ := holds
    exact ⟨kind, bytes, ⟨backed.used, backed.total, backed.front⟩, same⟩

/-- The cardinality sets the estimate only. -/
theorem hllCardinality_changes {object after : HllObjectData}
    (result : hllCardinality double object = .ok after) :
    ∃ ndvEstimator, after = { object with ndvEstimator } ∧
      (object.ndvEstimator ≠ double.minusOne → ndvEstimator = object.ndvEstimator) := by
  rw [hllCardinality] at result
  by_cases lost : object.ndvEstimator = double.minusOne
  · rw [if_pos lost] at result
    obtain ⟨hlltype, hllpara, lenTotal, lenUsed, hllData, ndvEstimator, lastHash⟩ := object
    have estimated (histogram : Except Fault (List Nat))
        (made : (histogram >>= fun counts => .ok (HllObjectData.mk hlltype hllpara lenTotal lenUsed
          hllData (double.estimate counts hllpara.log2Registers) lastHash)) = .ok after) :
        ∃ estimate, after = ⟨hlltype, hllpara, lenTotal, lenUsed, hllData, estimate, lastHash⟩ ∧
          (ndvEstimator ≠ double.minusOne → estimate = ndvEstimator) := by
      cases histogram with
      | error fault => cases made
      | ok counts => exact ⟨_, (Except.ok.inj made).symm, fun known => absurd lost known⟩
    cases hlltype with
    | uninit => cases result
    | empty => exact ⟨_, (Except.ok.inj result).symm, fun known => absurd lost known⟩
    | explicit | sparse | full => exact estimated _ result
  · rw [if_neg lost] at result
    exact ⟨_, (Except.ok.inj result).symm, fun _ => rfl⟩

/-- The cardinality reaches an object. -/
theorem hllCardinality_reached (bounded : most ≤ 2 ^ 17) (counted kept : Prop)
    {traced : Traced} {after : HllObjectData} (reached : Reached double most counted kept traced)
    (result : hllCardinality double traced.object = .ok after) :
    Reached double most counted kept ⟨after, traced.hashes⟩ := by
  obtain ⟨object, outcome, filled, exact⟩ := reached
  obtain ⟨ndvEstimator, rfl, same⟩ := hllCardinality_changes result
  refine ⟨object, ⟨outcome.represents.setEstimate ndvEstimator, outcome.limited, ?_⟩, filled, exact⟩
  intro known
  have before := outcome.counted known
  have limited := outcome.limited
  obtain ⟨para, lastHash, data⟩ := object
  cases data with
  | uninit | sparse values | full values => trivial
  | empty =>
    have whole : traced.object.ndvEstimator = double.ofNat 0 := before
    show ndvEstimator = double.ofNat 0
    rw [same (by rw [whole]; exact double.ofNat_ne 0 (by decide)), whole]
  | explicit hashes =>
    have whole : traced.object.ndvEstimator = double.ofNat hashes.length := before
    have short := limited hashes rfl
    show ndvEstimator = double.ofNat hashes.length
    rw [same (by rw [whole]; exact double.ofNat_ne hashes.length (by omega)), whole]

/-- An object with nothing stored has no memory. -/
theorem tidy_of_filled {most : Nat} {stored : HllObjectData} {object : HllObject}
    (represents : Represents most stored object) (filled : object.Filled)
    (nothing : stored.lenUsed = 0) : stored.hllData = none := by
  have holds := represents.holds
  have sound := represents.sound
  obtain ⟨para, lastHash, data⟩ := object
  have registers : 0 < para.registers := Nat.pow_pos (by decide)
  cases data with
  | uninit | empty => exact holds.2.hllData
  | explicit hashes =>
    have used := holds.2.used
    rw [words_length] at used
    have none : hashes = [] := length_eq_zero_iff.mp (by lia)
    exact absurd (congrArg HllData.explicit none) filled
  | sparse values =>
    obtain ⟨kind, bytes, backed, same⟩ := holds
    have none : bytes = [] := length_eq_zero_iff.mp (by rw [← backed.used]; exact nothing)
    obtain ⟨types, length⟩ := sound
    rw [← same, none] at length
    exact absurd length (by show (0 : Nat) ≠ para.registers; omega)
  | full values =>
    obtain ⟨kind, bytes, backed, same⟩ := holds
    have none : bytes = [] := length_eq_zero_iff.mp (by rw [← backed.used]; exact nothing)
    have length : values.length = para.registers := sound
    rw [← same, none] at length
    exact absurd length (by show (0 : Nat) ≠ para.registers; omega)

theorem reached_unpack_pack
    (reached : Reached double 4096 counted kept traced) (started : traced.object.hlltype ≠ .uninit)
    (hllsize : Nat) (room : 27 + traced.object.lenUsed < hllsize) :
    ∃ image object', hllObjectPack traced.object hllsize = .ok image ∧
      hllObjectUnpack (hllInit double) image = .ok object' ∧ SameObject traced.object object' := by
  obtain ⟨object, outcome, filled, -⟩ := reached
  have represents := outcome.represents
  obtain ⟨bytes, backed⟩ := represents.backed
  exact unpack_pack backed (represents.fitsHeader bytes backed)
    rfl (tidy_of_filled represents filled) started room

/-- Packing and unpacking reaches an object. -/
theorem repackObject_reached {after : HllObjectData}
    (reached : Reached double 4096 counted kept traced)
    (result : repackObject double traced.object = .ok after) :
    Reached double 4096 counted kept ⟨after, traced.hashes⟩ := by
  rw [repackObject] at result
  by_cases started : traced.object.hlltype = .uninit
  · rw [hllObjectPack, if_neg (by omega), if_pos started] at result
    cases result
  · obtain ⟨image, object', packed, unpacked, same⟩ := reached_unpack_pack counted kept traced
      reached started (hllHeadSize + traced.object.lenUsed + 1) (by rw [hllHeadSize]; omega)
    rw [packed, ok_bind, unpacked] at result
    obtain rfl := Except.ok.inj result
    obtain ⟨object, outcome, filled, exact⟩ := reached
    refine ⟨object, ⟨same.represents outcome.represents, outcome.limited, ?_⟩, filled, exact⟩
    intro known
    have before := outcome.counted known
    have estimate : object'.ndvEstimator = traced.object.ndvEstimator := by rw [same.fields]
    obtain ⟨para, lastHash, data⟩ := object
    cases data with
    | uninit | sparse values | full values => trivial
    | empty | explicit hashes => exact estimate.trans before

/-- What an action on one object keeps holds of all. -/
theorem actOn_members (holds : Traced → Prop) {objects objects' : List Traced} {index : Nat}
    {act : Traced → Except Fault Traced} (before : ∀ traced ∈ objects, holds traced)
    (step : ∀ traced after, objects[index]? = some traced → act traced = .ok after → holds after)
    (result : actOn objects index act = .ok objects') : ∀ traced ∈ objects', holds traced := by
  rw [actOn] at result
  cases here : objects[index]? with
  | none =>
    rw [here] at result
    obtain rfl := Except.ok.inj result
    exact before
  | some traced =>
    rw [here] at result
    dsimp only at result
    cases acted : act traced with
    | error fault =>
      rw [acted] at result
      cases result
    | ok after =>
      rw [acted] at result
      obtain rfl := Except.ok.inj result
      intro other member
      obtain old | new := mem_or_eq_of_mem_set member
      · exact before other old
      · rw [new]
        exact step traced after here acted

theorem traced_of_map {result : Except Fault HllObjectData} {hashes : List Nat} {after : Traced}
    (made : (result.map fun object => Traced.mk object hashes) = .ok after) :
    ∃ object, result = .ok object ∧ after = ⟨object, hashes⟩ := by
  cases result with
  | error fault => cases made
  | ok object => exact ⟨object, rfl, (Except.ok.inj made).symm⟩

/-- An operation adds no hash that is skipped though the object may not have it. -/
def StepKeeps (objects : List Traced) : HllOp → Prop
  | .add index hashval =>
    ∀ traced, objects[index]? = some traced → AddKeeps traced.object hashval.toNat
  | _ => True

variable (double)

/-- One operation keeps what holds of every object. -/
theorem hllStep_reached (enough : 4096 ≤ most) (bounded : most ≤ 2 ^ 17)
    (counted kept : Prop) (objects objects' : List Traced) (op : HllOp)
    (reached : ∀ traced ∈ objects, Reached double most counted kept traced)
    (short : ∀ index, op = .repack index → most = 4096)
    (keeps : kept → StepKeeps objects op) (result : hllStep double objects op = .ok objects') :
    ∀ traced ∈ objects', Reached double most counted kept traced := by
  have member (index : Nat) (traced : Traced) (here : objects[index]? = some traced) :=
    reached traced (mem_of_getElem? here)
  cases op with
  | init =>
    obtain rfl := Except.ok.inj result
    intro traced inside
    obtain old | new := mem_append.mp inside
    · exact reached traced old
    · rw [mem_singleton.mp new]
      exact hllInit_reached double most counted kept
  | setPara index hllpara =>
    refine actOn_members _ reached ?_ result
    intro traced after here acted
    by_cases valid : hllCheckPararange hllpara = true
    · rw [if_pos valid] at acted
      obtain ⟨object, set, rfl⟩ := traced_of_map acted
      exact hllSetPara_reached most counted kept traced valid (member index traced here) set
    · rw [if_neg valid] at acted
      cases acted
  | empty index =>
    refine actOn_members _ reached ?_ result
    intro traced after here acted
    obtain rfl := Except.ok.inj acted
    exact hllEmpty_reached most counted kept traced (member index traced here)
  | add index hashval =>
    refine actOn_members _ reached ?_ result
    intro traced after here acted
    obtain ⟨object, added, rfl⟩ := traced_of_map acted
    obtain ⟨object', added', reached'⟩ := hllAdd_reached most enough bounded counted kept
      hashval (member index traced here)
    obtain rfl := Except.ok.inj (added'.symm.trans added)
    obtain ⟨listed, outcome, filled, exact⟩ := reached'
    exact ⟨listed, outcome, filled, fun before => exact ⟨before, keeps before traced here⟩⟩
  | union index argument =>
    rw [hllStep, unionAt] at result
    cases here : objects[index]? with
    | none =>
      rw [here] at result
      obtain rfl := Except.ok.inj result
      exact reached
    | some traced =>
      cases there : objects[argument]? with
      | none =>
        rw [here, there] at result
        obtain rfl := Except.ok.inj result
        exact reached
      | some other =>
        rw [here, there] at result
        dsimp only at result
        by_cases same : index = argument
        · rw [if_pos same] at result
          obtain rfl := Except.ok.inj result
          exact reached
        · rw [if_neg same] at result
          obtain raised | ⟨joined, union, reached1, reached2⟩ := hllUnion_reached most enough
            bounded counted kept (member index traced here)
            (member argument other there)
          · rw [raised] at result
            cases result
          · rw [union] at result
            obtain rfl := Except.ok.inj result
            intro third inside
            obtain old | new := mem_or_eq_of_mem_set inside
            · obtain older | newer := mem_or_eq_of_mem_set old
              · exact reached third older
              · rw [newer]
                exact reached1
            · rw [new]
              exact reached2
  | cardinality index =>
    refine actOn_members _ reached ?_ result
    intro traced after here acted
    obtain ⟨object, asked, rfl⟩ := traced_of_map acted
    exact hllCardinality_reached most bounded counted kept (member index traced here) asked
  | repack index =>
    obtain rfl := short index rfl
    refine actOn_members _ reached ?_ result
    intro traced after here acted
    obtain ⟨object, packed, rfl⟩ := traced_of_map acted
    exact repackObject_reached counted kept traced (member index traced here) packed

/-- Every operation of a run adds no hash that is skipped though the object may not have it. -/
def RunKeeps : List Traced → List HllOp → Prop
  | _, [] => True
  | objects, op :: ops => StepKeeps objects op ∧
      ∀ objects', hllStep double objects op = .ok objects' → RunKeeps objects' ops

/-- A run reaches all its objects. -/
theorem hllRun_reached (enough : 4096 ≤ most) (bounded : most ≤ 2 ^ 17)
    (counted kept : Prop) (objects objects' : List Traced) (ops : List HllOp)
    (reached : ∀ traced ∈ objects, Reached double most counted kept traced)
    (short : ∀ index, .repack index ∈ ops → most = 4096)
    (keeps : kept → RunKeeps double objects ops) (result : hllRun double objects ops = .ok objects') :
    ∀ traced ∈ objects', Reached double most counted kept traced := by
  induction ops generalizing objects with
  | nil =>
    obtain rfl := Except.ok.inj result
    exact reached
  | cons op ops ih =>
    rw [hllRun, foldlM_cons] at result
    cases step : hllStep double objects op with
    | error fault =>
      rw [step] at result
      cases result
    | ok middle =>
      rw [step] at result
      have after := hllStep_reached double most enough bounded counted kept objects middle op reached
        (fun index same => short index (same ▸ mem_cons_self)) (fun before => (keeps before).1) step
      exact ih middle after (fun index inside => short index (mem_cons_of_mem _ inside))
        (fun before => (keeps before).2 middle step) result

/-- In every run that adds no 0 to an object that does not remember a hash, does not have 0 and checks
for duplicates, a list of hashes is sorted and has exactly the hashes that were added, and the
estimate is their number. -/
theorem explicit_list_exact (ops : List HllOp) (objects : List Traced)
    (result : hllRun double [] ops = .ok objects) (keeps : RunKeeps double [] ops) :
    ∀ traced ∈ objects, traced.object.hlltype = .explicit →
      ∃ hashes, Backed traced.object (words hashes) ∧ hashes.Pairwise (· < ·) ∧
        (∀ hashval, hashval ∈ hashes ↔ hashval ∈ traced.hashes) ∧
        traced.object.ndvEstimator = double.ofNat hashes.length := by
  intro traced member kind
  obtain ⟨object, outcome, -, exact⟩ := hllRun_reached double 4096 le_rfl (by decide) True True []
    objects ops (fun _ inside => absurd inside not_mem_nil) (fun _ _ => rfl) (fun _ => keeps)
    result traced member
  have holds := outcome.represents.holds
  have sound := outcome.represents.sound
  have counted := outcome.counted trivial
  have exact := exact trivial
  obtain ⟨para, lastHash, data⟩ := object
  cases data with
  | uninit | empty => exact HllType.noConfusion (kind.symm.trans holds.1)
  | explicit hashes => exact ⟨hashes, holds.2, sound.1, exact.1, counted⟩
  | sparse values | full values => exact HllType.noConfusion (kind.symm.trans holds.1)

end Estimates

theorem runKeeps_of_nonzero (double : DoubleArithmetic) (objects : List Traced) (ops : List HllOp)
    (nonzero : ∀ index, HllOp.add index 0 ∉ ops) : RunKeeps double objects ops := by
  induction ops generalizing objects with
  | nil => trivial
  | cons op ops ih =>
    refine ⟨?_, fun objects' _ =>
      ih objects' (fun index later => nonzero index (mem_cons_of_mem _ later))⟩
    cases op with
    | add index hashval =>
      refine fun _ _ => .inr (.inl fun zero => nonzero index ?_)
      rw [show hashval = 0 from UInt64.toNat_inj.mp zero]
      exact mem_cons_self
    | _ => trivial

/-- Hashes that are added to two objects, one of them twice; the objects are joined, and the result is
read again. -/
def joinedLists : List HllOp :=
  [.init, .setPara 0 ⟨14, 10, 12, 1⟩, .add 0 7, .add 0 3, .add 0 7, .init,
    .setPara 1 ⟨14, 10, 12, 1⟩, .add 1 9, .add 1 3, .union 0 1, .repack 0]

theorem explicit_list_exact_joined : ∃ objects,
    hllRun wholeDoubles [] joinedLists = .ok objects ∧ RunKeeps wholeDoubles [] joinedLists ∧
    ∀ traced ∈ objects, traced.object.hlltype = .explicit →
      ∃ hashes, Backed traced.object (words hashes) ∧ hashes.Pairwise (· < ·) ∧
        (∀ hashval, hashval ∈ hashes ↔ hashval ∈ traced.hashes) ∧
        traced.object.ndvEstimator = wholeDoubles.ofNat hashes.length := by
  have keeps : RunKeeps wholeDoubles [] joinedLists :=
    runKeeps_of_nonzero wholeDoubles [] joinedLists (by simp [joinedLists])
  cases run : hllRun wholeDoubles [] joinedLists with
  | error fault =>
    have fine : (hllRun wholeDoubles [] joinedLists).isOk = true := by decide +kernel
    rw [run] at fine
    cases fine
  | ok objects =>
    exact ⟨objects, rfl, keeps, explicit_list_exact wholeDoubles _ objects run keeps⟩

/-- The hash 0 is skipped by an object that remembers no hash: after 0 and 5 were added, the list has
5 only, and the estimate is 1. -/
theorem explicit_list_skips_zero : ∃ objects,
    hllRun wholeDoubles [] [.init, .setPara 0 ⟨14, 10, 12, 1⟩, .add 0 0, .add 0 5] = .ok objects ∧
    ∃ traced ∈ objects, traced.object.hlltype = .explicit ∧ traced.hashes = [0, 5] ∧
      traced.object.ndvEstimator = wholeDoubles.ofNat 1 ∧
      ¬∃ hashes, Backed traced.object (words hashes) ∧
        ∀ hashval, hashval ∈ hashes ↔ hashval ∈ traced.hashes := by
  have facts : (hllRun wholeDoubles [] [.init, .setPara 0 ⟨14, 10, 12, 1⟩, .add 0 0,
      .add 0 5]).map (fun objects => objects.map fun traced =>
        (traced.object.hlltype, traced.hashes, traced.object.ndvEstimator, traced.object.lenUsed)) =
      .ok [(.explicit, [0, 5], wholeDoubles.ofNat 1, 8)] := by decide +kernel
  cases run : hllRun wholeDoubles [] [.init, .setPara 0 ⟨14, 10, 12, 1⟩, .add 0 0, .add 0 5] with
  | error fault =>
    rw [run] at facts
    cases facts
  | ok objects =>
    rw [run] at facts
    obtain ⟨traced, rfl, fields⟩ := map_eq_singleton_iff.mp (Except.ok.inj facts)
    obtain ⟨kind, hashes, estimate, used⟩ :
        traced.object.hlltype = .explicit ∧ traced.hashes = [0, 5] ∧
          traced.object.ndvEstimator = wholeDoubles.ofNat 1 ∧ traced.object.lenUsed = 8 := by
      simpa only [Prod.mk.injEq] using fields
    refine ⟨[traced], rfl, traced, mem_singleton_self traced, kind, hashes, estimate, ?_⟩
    rintro ⟨list, backed, members⟩
    have one := backed.used
    rw [words_length] at one
    have zero := (members 0).mpr (by rw [hashes]; decide)
    have five := (members 5).mpr (by rw [hashes]; decide)
    cases list with
    | nil => exact not_mem_nil zero
    | cons head rest =>
      have none : rest = [] := length_eq_zero_iff.mp (by
        rw [length_cons] at one
        omega)
      rw [none] at zero five
      have first := mem_singleton.mp zero
      have second := mem_singleton.mp five
      omega

end OpenGauss.Hll.Stored
