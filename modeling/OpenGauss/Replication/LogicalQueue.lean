import OpenGauss.Base.RingSlots
import OpenGauss.Base.Run

/-!
# The queues of parallel decoding

Parallel decoding hands records from one thread to another through a `LogicalQueue`, a ring of slots
with the index of the next write and the index of the next read. The producer and the consumer share
nothing but these words, and a move here is one read or write of one of them together with what the
thread computes before the next. The queue has as many slots as a power of two, one of which stays
free, so that equal indexes mean that it is empty.
-/
namespace OpenGauss.Replication

open List OpenGauss.Base

/-- The words that the two threads share (`LogicalQueue`). -/
structure LogicalQueue (α : Type) where
  writeHead : UInt32
  readTail : UInt32
  mask : UInt32
  maxUsage : UInt32
  totalCnt : UInt64
  buffer : Nat → α

/-- The entries between the two indexes (`COUNT`). -/
def countEntries (head tail mask : UInt32) : UInt32 := (head - tail) &&& mask

/-- The free slots but the one that stays free (`SPACE`). -/
def spaceEntries (head tail mask : UInt32) : UInt32 := (tail - (head + 1)) &&& mask

/-- How often the consumer looks for an element before it gives up (`gMaxCnt`). -/
def gMaxCnt : Nat := 10

/-- Where the producer is in `LogicalQueuePut`. -/
inductive Producer (α : Type) where
  | idle
  | waiting (head : UInt32) (element : α)
  | usage (head tail : UInt32) (element : α)
  | raising (head tmpCount : UInt32) (element : α)
  | storing (head : UInt32) (element : α)
  | publishing (head : UInt32) (element : α)
  | stopped

/-- Where the consumer is in `LogicalQueueTop` and `LogicalQueuePop`. -/
inductive Consumer (α : Type) where
  /-- Between two calls of `LogicalQueueTop`. -/
  | idle
  | looking (tail : UInt32) (count : Nat)
  | taking (tail : UInt32)
  | popping (element : α)
  | poppingTail (element : α) (totalCnt : UInt64)
  | poppingHead (element : α) (totalCnt : UInt64) (tail : UInt32)
  | counting (element : α) (totalCnt : UInt64) (tail : UInt32)
  | releasing (element : α) (tail : UInt32)

/-- The queue, the two threads, and what they put and popped so far. -/
structure QueueSystem (α : Type) where
  queue : LogicalQueue α
  producer : Producer α
  consumer : Consumer α
  put : List α
  popped : List α

/-- What happens next. -/
inductive QueueMove (α : Type) where
  | produce (element : α)
  | shutdown
  | consume

section Steps

variable {α : Type} [DecidableEq α] (null : α)

/-- A new queue (`LogicalQueueCreate`). -/
def logicalQueueCreate (capacity : UInt32) : LogicalQueue α where
  writeHead := 0
  readTail := 0
  mask := capacity - 1
  maxUsage := 0
  totalCnt := 0
  buffer _ := null

/-- The next step of `LogicalQueuePut`. -/
def produce (element : α) (state : QueueSystem α) : QueueSystem α :=
  match state.producer with
  | .idle => { state with producer := .waiting state.queue.writeHead element }
  | .waiting head element =>
    if spaceEntries head state.queue.readTail state.queue.mask = 0 then state
    else { state with producer := .usage head state.queue.readTail element }
  | .usage head tail element =>
    let tmpCount := countEntries head tail state.queue.mask
    if state.queue.maxUsage < tmpCount then
      { state with producer := .raising head tmpCount element }
    else { state with producer := .storing head element }
  | .raising head tmpCount element =>
    { state with
      queue := { state.queue with maxUsage := tmpCount }
      producer := .storing head element }
  | .storing head element =>
    { state with
      queue := { state.queue with
        buffer := Function.update state.queue.buffer head.toNat element }
      producer := .publishing head element }
  | .publishing head element =>
    { state with
      queue := { state.queue with writeHead := (head + 1) &&& state.queue.mask }
      producer := .idle
      put := state.put ++ [element] }
  | .stopped => state

/-- The worker exits when it sees the request while it waits. -/
def shutdown (state : QueueSystem α) : QueueSystem α :=
  match state.producer with
  | .waiting _ _ => { state with producer := .stopped }
  | _ => state

/-- The next step of `LogicalQueueTop` or, behind an element that is not null, of
`LogicalQueuePop`. -/
def consume (state : QueueSystem α) : QueueSystem α :=
  match state.consumer with
  | .idle => { state with consumer := .looking state.queue.readTail 0 }
  | .looking tail count =>
    if gMaxCnt ≤ count + 1 then { state with consumer := .idle }
    else if countEntries state.queue.writeHead tail state.queue.mask = 0 then
      { state with consumer := .looking tail (count + 1) }
    else { state with consumer := .taking tail }
  | .taking tail =>
    if state.queue.buffer tail.toNat = null then { state with consumer := .idle }
    else { state with consumer := .popping (state.queue.buffer tail.toNat) }
  | .popping element =>
    { state with consumer := .poppingTail element state.queue.totalCnt }
  | .poppingTail element totalCnt =>
    { state with consumer := .poppingHead element totalCnt state.queue.readTail }
  | .poppingHead element totalCnt tail =>
    -- only a warning: the element was seen before
    if countEntries state.queue.writeHead tail state.queue.mask = 0 then
      { state with consumer := .idle }
    else { state with consumer := .counting element totalCnt tail }
  | .counting element totalCnt tail =>
    { state with
      queue := { state.queue with totalCnt := totalCnt + 1 }
      consumer := .releasing element tail }
  | .releasing element tail =>
    { state with
      queue := { state.queue with readTail := (tail + 1) &&& state.queue.mask }
      consumer := .idle
      popped := state.popped ++ [element] }

/-- One step of a thread. -/
def queueStep (state : QueueSystem α) : QueueMove α → QueueSystem α
  | .produce element => produce element state
  | .shutdown => shutdown state
  | .consume => consume null state

/-- A queue of some slots before the first call. -/
def newQueue (capacity : UInt32) : QueueSystem α where
  queue := logicalQueueCreate null capacity
  producer := .idle
  consumer := .idle
  put := []
  popped := []

end Steps

/-- The number of elements that the consumer counted and did not release yet. -/
def Consumer.counted {α : Type} : Consumer α → Nat
  | .releasing _ _ => 1
  | _ => 0

section Fifo

variable {α : Type}

/-- What the producer knows: its index is that of the queue, and behind the wait there is a slot more
than the one that stays free. -/
def ProducerKnows (capacity : Nat) (state : QueueSystem α) : Producer α → Prop
  | .idle => True
  | .waiting head _ => head = state.queue.writeHead
  | .usage head _ _ => head = state.queue.writeHead ∧
      state.put.length + 1 < state.popped.length + capacity
  | .raising head _ _ => head = state.queue.writeHead ∧
      state.put.length + 1 < state.popped.length + capacity
  | .storing head _ => head = state.queue.writeHead ∧
      state.put.length + 1 < state.popped.length + capacity
  | .publishing head element => head = state.queue.writeHead ∧
      state.put.length + 1 < state.popped.length + capacity ∧
      state.queue.buffer head.toNat = element
  | .stopped => True

/-- What the consumer knows: its index is that of the queue, and behind the wait there is an element,
which it has once it read the slot. -/
def ConsumerKnows (state : QueueSystem α) : Consumer α → Prop
  | .idle => True
  | .looking tail _ => tail = state.queue.readTail
  | .taking tail => tail = state.queue.readTail ∧ state.popped.length < state.put.length
  | .popping element => state.put[state.popped.length]? = some element
  | .poppingTail element totalCnt => state.put[state.popped.length]? = some element ∧
      totalCnt = state.queue.totalCnt
  | .poppingHead element totalCnt tail => state.put[state.popped.length]? = some element ∧
      totalCnt = state.queue.totalCnt ∧ tail = state.queue.readTail
  | .counting element totalCnt tail => state.put[state.popped.length]? = some element ∧
      totalCnt = state.queue.totalCnt ∧ tail = state.queue.readTail
  | .releasing element tail => state.put[state.popped.length]? = some element ∧
      tail = state.queue.readTail

/-- What holds between any two steps of the threads. -/
structure Fifo (bits : Nat) (state : QueueSystem α) : Prop where
  mask : state.queue.mask.toNat = 2 ^ bits - 1
  head : state.queue.writeHead.toNat = state.put.length % 2 ^ bits
  tail : state.queue.readTail.toNat = state.popped.length % 2 ^ bits
  popped : state.popped <+: state.put
  room : state.put.length < state.popped.length + 2 ^ bits
  held : HeldIn state.queue.buffer (2 ^ bits) state.popped.length state.put
  count : state.queue.totalCnt = UInt64.ofNat (state.popped.length + state.consumer.counted)
  producer : ProducerKnows (2 ^ bits) state state.producer
  consumer : ConsumerKnows state state.consumer

/-- What the producer knows stays true. -/
theorem ProducerKnows.mono {capacity : Nat} {before after : QueueSystem α} {producer : Producer α}
    (knows : ProducerKnows capacity before producer)
    (head : after.queue.writeHead = before.queue.writeHead)
    (buffer : after.queue.buffer = before.queue.buffer) (put : after.put = before.put)
    (more : before.popped.length ≤ after.popped.length) :
    ProducerKnows capacity after producer := by
  cases producer with
  | idle | stopped => trivial
  | waiting => exact knows.trans head.symm
  | usage | raising | storing =>
    refine ⟨knows.1.trans head.symm, ?_⟩
    have slots := knows.2
    rw [put]
    omega
  | publishing =>
    refine ⟨knows.1.trans head.symm, ?_, ?_⟩
    · have slots := knows.2.1
      rw [put]
      omega
    · rw [buffer]
      exact knows.2.2

/-- What the consumer knows stays true. -/
theorem ConsumerKnows.mono {before after : QueueSystem α} {consumer : Consumer α}
    (knows : ConsumerKnows before consumer) (tail : after.queue.readTail = before.queue.readTail)
    (total : after.queue.totalCnt = before.queue.totalCnt) (popped : after.popped = before.popped)
    (put : before.put <+: after.put) : ConsumerKnows after consumer := by
  have keeps (element : α) (found : before.put[before.popped.length]? = some element) :
      after.put[after.popped.length]? = some element := by
    rw [popped]
    obtain ⟨later, isLater⟩ := put
    have within := (List.getElem?_eq_some_iff.mp found).1
    rw [← isLater, getElem?_append_left within, found]
  have longer := put.length_le
  cases consumer with
  | idle => trivial
  | looking => exact knows.trans tail.symm
  | taking =>
    refine ⟨knows.1.trans tail.symm, ?_⟩
    have some := knows.2
    rw [popped]
    omega
  | popping element => exact keeps element knows
  | poppingTail element => exact ⟨keeps element knows.1, knows.2.trans total.symm⟩
  | poppingHead element | counting element =>
    exact ⟨keeps element knows.1, knows.2.1.trans total.symm, knows.2.2.trans tail.symm⟩
  | releasing element => exact ⟨keeps element knows.1, knows.2.trans tail.symm⟩

variable (null : α) (bits : Nat) (state : QueueSystem α)

variable {bits state}

theorem Fifo.moveProducer (holds : Fifo bits state)
    {producer : Producer α} (knows : ProducerKnows (2 ^ bits) state producer) :
    Fifo bits { state with producer := producer } :=
  { holds with
    producer := knows.mono rfl rfl rfl (Nat.le_refl _)
    consumer := holds.consumer.mono rfl rfl rfl (prefix_refl _) }

/-- A move of the consumer keeps the invariant. -/
theorem Fifo.moveConsumer (holds : Fifo bits state)
    {consumer : Consumer α} (knows : ConsumerKnows state consumer)
    (counted : consumer.counted = state.consumer.counted) :
    Fifo bits { state with consumer := consumer } :=
  { holds with
    count := by
      rw [counted]
      exact holds.count
    producer := holds.producer.mono rfl rfl rfl (Nat.le_refl _)
    consumer := knows.mono rfl rfl rfl (prefix_refl _) }

variable (bits)

theorem Fifo.space (fits : bits ≤ 32) {state : QueueSystem α} (holds : Fifo bits state)
    (some : spaceEntries state.queue.writeHead state.queue.readTail state.queue.mask ≠ 0) :
    state.put.length + 1 < state.popped.length + 2 ^ bits := by
  by_contra full
  have room := holds.room
  apply some
  rw [spaceEntries, masked_sub_eq_zero _ _ _ fits holds.mask]
  have next := masked_add_one state.queue.writeHead fits holds.mask
  rw [masked_toNat _ holds.mask, holds.head, Nat.mod_add_mod] at next
  have round : state.put.length + 1 = state.popped.length + 2 ^ bits := by lia
  rw [next, round, Nat.add_mod_right, holds.tail, Nat.mod_mod]

theorem Fifo.some (fits : bits ≤ 32) (state : QueueSystem α) (holds : Fifo bits state)
    (seen : countEntries state.queue.writeHead state.queue.readTail state.queue.mask ≠ 0) :
    state.popped.length < state.put.length := by
  by_contra empty
  have order := holds.popped.length_le
  apply seen
  rw [countEntries, masked_sub_eq_zero _ _ _ fits holds.mask, holds.head, holds.tail]
  have same : state.put.length = state.popped.length := by omega
  rw [same]

variable (state)

theorem Fifo.slot_free (holds : Fifo bits state) {index : Nat}
    (waits : state.popped.length ≤ index) (put : index < state.put.length) :
    index % 2 ^ bits ≠ state.queue.writeHead.toNat := by
  have room := holds.room
  rw [holds.head]
  exact slots_differ _ put (by omega)

/-- A step of the producer. -/
theorem Fifo.produce {bits : Nat} (fits : bits ≤ 32) {state : QueueSystem α}
    (holds : Fifo bits state) (element : α) : Fifo bits (produce element state) := by
  have knows := holds.producer
  unfold Replication.produce
  cases here : state.producer with
  | idle => exact holds.moveProducer rfl
  | waiting head element =>
    rw [here] at knows
    obtain rfl : head = state.queue.writeHead := knows
    dsimp only
    split
    · exact holds
    · rename_i space
      exact holds.moveProducer ⟨rfl, holds.space bits fits space⟩
  | usage head tail element =>
    rw [here] at knows
    dsimp only
    split
    · exact holds.moveProducer knows
    · exact holds.moveProducer knows
  | raising head tmpCount element =>
    rw [here] at knows
    exact { holds with
      producer := knows
      consumer := holds.consumer.mono rfl rfl rfl (prefix_refl _) }
  | storing head element =>
    rw [here] at knows
    obtain ⟨rfl, slots⟩ := knows
    exact { holds with
      held := by
        show HeldIn (Function.update state.queue.buffer state.queue.writeHead.toNat element) _ _ _
        rw [holds.head]
        exact holds.held.write _ _ _ _ element holds.room
      producer := ⟨rfl, slots, Function.update_self _ _ _⟩
      consumer := holds.consumer.mono rfl rfl rfl (prefix_refl _) }
  | publishing head element =>
    rw [here] at knows
    obtain ⟨rfl, slots, stored⟩ := knows
    rw [holds.head] at stored
    have longer : (state.put ++ [element]).length = state.put.length + 1 := length_append
    exact { holds with
      head := by
        rw [masked_add_one _ fits holds.mask, holds.head, Nat.mod_add_mod, longer]
      popped := holds.popped.trans (prefix_append _ _)
      room := by
        rw [longer]
        exact slots
      held := holds.held.append _ _ _ _ stored
      producer := trivial
      consumer := holds.consumer.mono rfl rfl rfl (prefix_append _ _) }
  | stopped => exact holds

/-- A step of the consumer. -/
theorem Fifo.consume [DecidableEq α] (null : α) {bits : Nat} (fits : bits ≤ 32)
    {state : QueueSystem α} (holds : Fifo bits state) : Fifo bits (consume null state) := by
  have knows := holds.consumer
  unfold Replication.consume
  cases here : state.consumer with
  | idle =>
    exact holds.moveConsumer rfl (by rw [here]; rfl)
  | looking tail count =>
    rw [here] at knows
    obtain rfl : tail = state.queue.readTail := knows
    dsimp only
    split
    · exact holds.moveConsumer trivial (by rw [here]; rfl)
    · split
      · exact holds.moveConsumer rfl (by rw [here]; rfl)
      · rename_i seen
        exact holds.moveConsumer ⟨rfl, holds.some bits fits state seen⟩ (by rw [here]; rfl)
  | taking tail =>
    rw [here] at knows
    obtain ⟨rfl, some⟩ := knows
    have found := getElem?_eq_getElem some
    have stored := holds.held _ _ (Nat.le_refl _) found
    rw [← holds.tail] at stored
    dsimp only
    split
    · exact holds.moveConsumer trivial (by rw [here]; rfl)
    · apply holds.moveConsumer _ (by rw [here]; rfl)
      show state.put[state.popped.length]? = Option.some _
      rw [stored, found]
  | popping element =>
    rw [here] at knows
    exact holds.moveConsumer ⟨knows, rfl⟩ (by rw [here]; rfl)
  | poppingTail element totalCnt =>
    rw [here] at knows
    exact holds.moveConsumer ⟨knows.1, knows.2, rfl⟩ (by rw [here]; rfl)
  | poppingHead element totalCnt tail =>
    rw [here] at knows
    dsimp only
    split
    · exact holds.moveConsumer trivial (by rw [here]; rfl)
    · exact holds.moveConsumer knows (by rw [here]; rfl)
  | counting element totalCnt tail =>
    rw [here] at knows
    obtain ⟨found, rfl, isTail⟩ := knows
    have count : state.queue.totalCnt = UInt64.ofNat state.popped.length := by
      have counted := holds.count
      rw [here] at counted
      exact counted
    exact { holds with
      count := by
        rw [count, UInt64.ofNat_add]
        rfl
      producer := holds.producer.mono rfl rfl rfl (Nat.le_refl _)
      consumer := ⟨found, isTail⟩ }
  | releasing element tail =>
    rw [here] at knows
    obtain ⟨found, rfl⟩ := knows
    have count := holds.count
    rw [here] at count
    have longer : (state.popped ++ [element]).length = state.popped.length + 1 := length_append
    exact { holds with
      tail := by
        rw [masked_add_one _ fits holds.mask, holds.tail, Nat.mod_add_mod, longer]
      popped := by
        obtain ⟨later, isLater⟩ := holds.popped
        rw [← isLater, getElem?_append_right (Nat.le_refl _), Nat.sub_self] at found
        obtain ⟨rest, rfl⟩ : ∃ rest, later = element :: rest := by
          cases later with
          | nil => exact nomatch found
          | cons first rest => exact ⟨rest, by rw [Option.some.inj found]⟩
        refine ⟨rest, ?_⟩
        rw [append_assoc]
        exact isLater
      room := by
        have room := holds.room
        rw [longer]
        exact Nat.lt_of_lt_of_le room (Nat.add_le_add_right (Nat.le_succ _) _)
      held := by
        rw [longer]
        exact holds.held.take _ _ _ _
      count := by
        rw [longer, count]
        rfl
      producer := holds.producer.mono rfl rfl rfl (by
        rw [longer]
        exact Nat.le_succ _)
      consumer := trivial }

theorem Fifo.step [DecidableEq α] (fits : bits ≤ 32)
    {state : QueueSystem α} (move : QueueMove α) (holds : Fifo bits state) :
    Fifo bits (queueStep null state move) := by
  cases move with
  | produce element => exact holds.produce fits element
  | shutdown =>
    show Fifo bits (Replication.shutdown state)
    unfold Replication.shutdown
    split
    · exact holds.moveProducer trivial
    · exact holds
  | consume => exact holds.consume null fits

/-- A new queue has the invariant. -/
theorem newQueue_fifo [DecidableEq α] (fits : bits < 32) :
    Fifo bits (newQueue null (UInt32.ofNat (2 ^ bits))) where
  mask := by
    have small : 2 ^ bits < 2 ^ 32 := Nat.pow_lt_pow_right (by decide) fits
    have positive := Nat.two_pow_pos bits
    show (UInt32.ofNat (2 ^ bits) - 1).toNat = _
    have size : (UInt32.ofNat (2 ^ bits)).toNat = 2 ^ bits := UInt32.toNat_ofNat_of_lt' small
    have least : (1 : UInt32) ≤ UInt32.ofNat (2 ^ bits) := by
      rw [UInt32.le_iff_toNat_le, size]
      exact positive
    rw [UInt32.toNat_sub_of_le _ _ least, size]
    rfl
  head := (Nat.zero_mod _).symm
  tail := (Nat.zero_mod _).symm
  popped := prefix_refl []
  room := by
    show 0 < 0 + 2 ^ bits
    have positive := Nat.two_pow_pos bits
    omega
  held := heldIn_nil _ _
  count := rfl
  producer := trivial
  consumer := trivial

/-- In any interleaving of the steps of the two threads the popped elements are those put first, at
most one element less than there are slots waits, the waiting elements are in their slots and the
producer never writes the slot of one, and the number of popped elements is counted, one more from
its write to the end of the call. -/
theorem logical_queue_is_fifo [DecidableEq α] (null : α) (bits : Nat) (fits : bits < 32)
    (moves : List (QueueMove α)) :
    let state := moves.foldl (queueStep null) (newQueue null (UInt32.ofNat (2 ^ bits)))
    state.popped <+: state.put ∧ state.put.length - state.popped.length ≤ 2 ^ bits - 1 ∧
      HeldIn state.queue.buffer (2 ^ bits) state.popped.length state.put ∧
      (∀ head element, state.producer = .storing head element → head.toNat < 2 ^ bits ∧
        ∀ index, state.popped.length ≤ index → index < state.put.length →
          index % 2 ^ bits ≠ head.toNat) ∧
      state.queue.totalCnt = UInt64.ofNat (state.popped.length + state.consumer.counted) := by
  intro state
  have positive := Nat.two_pow_pos bits
  have holds : Fifo bits state :=
    List.foldlRecOn moves (queueStep null) (newQueue_fifo null bits fits)
      fun state holds move _ => holds.step null bits (Nat.le_of_lt fits) move
  have room := holds.room
  refine ⟨holds.popped, by omega, holds.held, ?_, holds.count⟩
  intro head element stores
  have knows := holds.producer
  rw [stores] at knows
  obtain ⟨rfl, -⟩ := knows
  refine ⟨?_, fun index => holds.slot_free bits state⟩
  rw [holds.head]
  exact Nat.mod_lt _ positive

/-- A queue of four slots: two elements are put, and the consumer reads the index of the next write
before the second one is published. -/
theorem logical_queue_is_fifo_overlapping :
    let moves := (List.replicate 5 (QueueMove.produce 5) ++ [.consume, .consume] ++
      List.replicate 6 (.produce 6) ++ List.replicate 6 .consume)
    let state := moves.foldl (queueStep 0) (newQueue 0 (UInt32.ofNat (2 ^ 2)))
    state.popped = [5] ∧ state.put = [5, 6] ∧ state.popped <+: state.put :=
  ⟨by decide, by decide, (logical_queue_is_fifo 0 2 (by decide) _).1⟩

end Fifo

end OpenGauss.Replication
