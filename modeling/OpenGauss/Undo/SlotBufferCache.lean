import OpenGauss.Base.Ring
import OpenGauss.Base.Run

/-!
# The cache of slot buffers

`UndoSlotBufferCache` keeps the buffers of some blocks of transaction slots. Its entries stand in a
hash table and, from `head_` to `tail_`, in a doubly linked ring. A full cache looks for an entry that
was not used since the last look, from the entry `victim_` on, which is set once and never moved. The
hash table gives its freed elements out again, the last one first, before it takes fresh ones: that is
why the entry `victim_` is in use whenever the cache is full.
-/
namespace OpenGauss.Undo

open Function OpenGauss.Base

/-- A buffer of a block of slots (`UndoSlotBuffer`). -/
structure UndoSlotBuffer where
  blk : Nat
  buffer : Nat
  info : Nat
  deriving DecidableEq

/-- `Init`: no block and no buffer. -/
def UndoSlotBuffer.init : UndoSlotBuffer where
  blk := 4294967295
  buffer := 0
  info := 0

/-- An entry of the cache (`SlotBufferCacheEntry`). -/
structure SlotBufferCacheEntry where
  tag : Nat
  buf : UndoSlotBuffer
  /-- Whether it was used since the last look for a victim. -/
  hit : Bool
  prev : Option Nat
  next : Option Nat
  deriving DecidableEq

/-- The cache, with the elements of its hash table numbered. -/
structure UndoSlotBufferCache where
  entries : Nat → SlotBufferCacheEntry
  table : Nat → Option Nat
  freeList : List Nat
  fresh : Nat
  head : Option Nat
  tail : Option Nat
  victim : Option Nat
  size : Nat
  capacity : Nat

/-- The block of a slot (`MAKE_UNDO_PTR_ALIGN`): its zone and the start of its page. -/
def makeUndoPtrAlign (urp : Nat) : Nat :=
  17592186044416 * (urp / 17592186044416) + 8192 * (urp % 17592186044416 / 8192)

/-- A cache without entries. -/
def UndoSlotBufferCache.new (capacity : Nat) : UndoSlotBufferCache where
  entries := fun _ => ⟨0, UndoSlotBuffer.init, false, none, none⟩
  table := fun _ => none
  freeList := []
  fresh := 0
  head := none
  tail := none
  victim := none
  size := 0
  capacity := capacity

/-- Write the next entry of an entry. -/
def setNext (entries : Nat → SlotBufferCacheEntry) (entry : Nat) (next : Option Nat) :
    Nat → SlotBufferCacheEntry :=
  update entries entry { entries entry with next := next }

/-- Write the previous entry of an entry. -/
def setPrev (entries : Nat → SlotBufferCacheEntry) (entry : Nat) (prev : Option Nat) :
    Nat → SlotBufferCacheEntry :=
  update entries entry { entries entry with prev := prev }

/-- Write whether an entry was used. -/
def setHit (entries : Nat → SlotBufferCacheEntry) (entry : Nat) (hit : Bool) :
    Nat → SlotBufferCacheEntry :=
  update entries entry { entries entry with hit := hit }

/-- Enter a block into the hash table (`HASH_ENTER`): the last freed element, or a fresh one. -/
def hashEnter (cache : UndoSlotBufferCache) (ptr : Nat) : Nat × UndoSlotBufferCache :=
  match cache.freeList with
  | element :: rest =>
    (element, { cache with
      table := update cache.table ptr (some element)
      freeList := rest })
  | [] =>
    (cache.fresh, { cache with
      table := update cache.table ptr (some cache.fresh)
      fresh := cache.fresh + 1 })

/-- The entries after the neighbours of one, where it has some, were joined. -/
def unlinked (entries : Nat → SlotBufferCacheEntry) (prev next : Option Nat) :
    Nat → SlotBufferCacheEntry :=
  let forward := match prev with
    | some before => setNext entries before next
    | none => entries
  match next with
  | some behind => setPrev forward behind prev
  | none => forward

/-- Remove a cached block; no result if it is not cached. -/
def removeSlotBuffer (cache : UndoSlotBufferCache) (slotPtr : Nat) : Option UndoSlotBufferCache :=
  let ptr := makeUndoPtrAlign slotPtr
  match cache.table ptr with
  | none => none
  | some entry =>
    let prev := (cache.entries entry).prev
    let next := (cache.entries entry).next
    some { cache with
      entries := unlinked cache.entries prev next
      table := update cache.table ptr none
      freeList := entry :: cache.freeList
      head := if cache.head = some entry then next else cache.head
      tail := if cache.tail = some entry then prev else cache.tail
      size := cache.size - 1 }

/-- The look for an entry that was not used, from one entry on until it comes back to the first. The
entries it passes are marked as not used. -/
def victimLoop (victim : Nat) :
    Nat → (Nat → SlotBufferCacheEntry) → Nat → Option ((Nat → SlotBufferCacheEntry) × Option Nat)
  | 0, _, _ => none
  | rounds + 1, entries, entry =>
    if (entries entry).hit then
      match (entries entry).next with
      | none => none
      | some next =>
        if next = victim then some (setHit entries entry false, none)
        else victimLoop victim rounds (setHit entries entry false) next
    else some (entries, some entry)

/-- Remove an entry that was not used, or the last one. One round for each entry is enough. -/
def victimSlotBuffer (cache : UndoSlotBufferCache) : Option UndoSlotBufferCache :=
  match cache.victim with
  | none => none
  | some victim =>
    match victimLoop victim cache.size cache.entries victim with
    | none => none
    | some (entries, some entry) =>
      removeSlotBuffer { cache with entries := entries } (entries entry).tag
    | some (entries, none) =>
      match cache.tail with
      | none => none
      | some tail => removeSlotBuffer { cache with entries := entries } (entries tail).tag

/-- The fields of a new entry: it was not used, and it points to the ends of the ring. -/
def newEntry (cache : UndoSlotBufferCache) (ptr : Nat) : SlotBufferCacheEntry where
  tag := ptr
  buf := UndoSlotBuffer.init
  hit := false
  prev := cache.tail
  next := cache.head

/-- Put a block in front of the ring; no result if only one of the two ends is set. -/
def insertSlotBuffer (cache : UndoSlotBufferCache) (ptr : Nat) :
    Option (Nat × UndoSlotBufferCache) :=
  let entry := (hashEnter cache ptr).1
  let entered := (hashEnter cache ptr).2
  let entries := update cache.entries entry (newEntry cache ptr)
  match cache.head, cache.tail with
  | none, none =>
    some (entry, { entered with
      entries := entries
      head := some entry
      tail := some entry
      victim := some entry
      size := cache.size + 1 })
  | some head, some tail =>
    some (entry, { entered with
      entries := setNext (setPrev entries head (some entry)) tail (some entry)
      head := some entry
      size := cache.size + 1 })
  | _, _ => none

/-- The entry of a slot, which is brought into the cache if it is not there. -/
def fetchTransactionBuffer (cache : UndoSlotBufferCache) (slotPtr : Nat) :
    Option (Nat × UndoSlotBufferCache) :=
  let ptr := makeUndoPtrAlign slotPtr
  match cache.table ptr with
  | some entry => some (entry, { cache with entries := setHit cache.entries entry true })
  | none =>
    if cache.capacity ≤ cache.size then
      match victimSlotBuffer cache with
      | some evicted => insertSlotBuffer evicted ptr
      | none => none
    else insertSlotBuffer cache ptr

/-- A call of the cache. -/
inductive CacheCall
  | fetch (slotPtr : Nat)
  | remove (slotPtr : Nat)

/-- Carry out a call. -/
def cacheStep (state : Option UndoSlotBufferCache) (call : CacheCall) :
    Option UndoSlotBufferCache :=
  match state with
  | none => none
  | some cache =>
    match call with
    | .fetch slotPtr => (fetchTransactionBuffer cache slotPtr).map Prod.snd
    | .remove slotPtr => removeSlotBuffer cache slotPtr

/-- The pointers of some entries. -/
def linksOf (entries : Nat → SlotBufferCacheEntry) : Links Nat where
  next := fun entry => (entries entry).next
  prev := fun entry => (entries entry).prev

/-- Some entries are linked: as a ring, or, for one that was put into an empty cache, not at all. -/
def Linked (entries : Nat → SlotBufferCacheEntry) (ring : List Nat) : Prop :=
  (linksOf entries).Circular ring ∨
    ∃ entry, ring = [entry] ∧ (entries entry).next = none ∧ (entries entry).prev = none

/-- What holds of a cache and the entries of its ring between two calls. An empty cache may keep its
last entry as both ends; that element is then the next one to be used. -/
structure Kept (cache : UndoSlotBufferCache) (ring : List Nat) : Prop where
  distinct : ring.Nodup
  linked : Linked cache.entries ring
  ends : ring ≠ [] → cache.head = ring.head? ∧ cache.tail = ring.getLast?
  gone : ring = [] → cache.head = none ∧ cache.tail = none ∨
    ∃ entry, cache.freeList.head? = some entry ∧ cache.head = some entry ∧ cache.tail = some entry
  cached : ∀ ptr entry, cache.table ptr = some entry ↔
    entry ∈ ring ∧ (cache.entries entry).tag = ptr
  aligned : ∀ entry ∈ ring, makeUndoPtrAlign (cache.entries entry).tag = (cache.entries entry).tag
  counted : cache.size = ring.length
  room : ring.length ≤ cache.capacity
  elements : (ring ++ cache.freeList).Perm (List.range cache.fresh)
  few : cache.fresh ≤ cache.capacity
  hand : ∀ entry, cache.victim = some entry → entry < cache.fresh
  started : cache.victim = none → cache.fresh = 0

end OpenGauss.Undo
