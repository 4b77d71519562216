import OpenGauss.Undo.SlotBufferCache

/-!
# The integrity of the slot buffer cache

Every call keeps the ring and the hash table of a slot buffer cache together, and a full cache always
finds a victim. The ring is cut open at the entry that is removed, so that one rule covers the first,
the last and every other entry. Only the last entry of a cache is different: where it was linked to
another entry before, it is linked to itself, and `head_` and `tail_` keep pointing to it when it is
gone. The module proves integrity along every run that does not remove such an entry.
-/
namespace OpenGauss.Undo

open Option Function List OpenGauss.Base

theorem makeUndoPtrAlign_idem (urp : Nat) :
    makeUndoPtrAlign (makeUndoPtrAlign urp) = makeUndoPtrAlign urp := by
  simp only [makeUndoPtrAlign]
  lia

variable (capacity : Nat) (cache : UndoSlotBufferCache) (entries : Nat → SlotBufferCacheEntry)
  (front back : List Nat) (entry other : Nat) (prev : Option Nat) (next : Option Nat)
  (ring : List Nat)

theorem setNext_apply : setNext entries entry next other = { entries other with
    next := if other = entry then next else (entries other).next } := by
  rw [setNext, update_apply]
  by_cases same : other = entry
  · rw [if_pos same, if_pos same, same]
  · rw [if_neg same, if_neg same]

theorem setNext_next :
    (setNext entries entry next other).next = if other = entry then next else (entries other).next := by
  rw [setNext_apply]

theorem setNext_prev : (setNext entries entry next other).prev = (entries other).prev := by
  rw [setNext_apply]

theorem setNext_tag : (setNext entries entry next other).tag = (entries other).tag := by
  rw [setNext_apply]

theorem setPrev_apply : setPrev entries entry prev other = { entries other with
    prev := if other = entry then prev else (entries other).prev } := by
  rw [setPrev, update_apply]
  by_cases same : other = entry
  · rw [if_pos same, if_pos same, same]
  · rw [if_neg same, if_neg same]

theorem setPrev_prev :
    (setPrev entries entry prev other).prev = if other = entry then prev else (entries other).prev := by
  rw [setPrev_apply]

theorem setPrev_next : (setPrev entries entry prev other).next = (entries other).next := by
  rw [setPrev_apply]

theorem setPrev_tag : (setPrev entries entry prev other).tag = (entries other).tag := by
  rw [setPrev_apply]

theorem linksOf_setHit (entry : Nat) (hit : Bool) :
    linksOf (setHit entries entry hit) = linksOf entries := by
  have same : ∀ other, (setHit entries entry hit other).next = (entries other).next ∧
      (setHit entries entry hit other).prev = (entries other).prev := by
    intro other
    rw [setHit, update_apply]
    by_cases here : other = entry
    · rw [if_pos here, here]
      exact ⟨rfl, rfl⟩
    · rw [if_neg here]
      exact ⟨rfl, rfl⟩
  simp only [linksOf, Links.mk.injEq]
  exact ⟨funext fun other => (same other).1, funext fun other => (same other).2⟩

theorem setHit_tag (hit : Bool) : (setHit entries entry hit other).tag = (entries other).tag := by
  rw [setHit, update_apply]
  by_cases same : other = entry
  · rw [if_pos same, same]
  · rw [if_neg same]

theorem Linked.congr (before after : Nat → SlotBufferCacheEntry) (ring : List Nat)
    (same : linksOf after = linksOf before) (linked : Linked before ring) : Linked after ring := by
  have next : ∀ entry, (after entry).next = (before entry).next := fun entry =>
    congrFun (congrArg Links.next same) entry
  have prev : ∀ entry, (after entry).prev = (before entry).prev := fun entry =>
    congrFun (congrArg Links.prev same) entry
  obtain circular | ⟨entry, single, noNext, noPrev⟩ := linked
  · exact .inl (same ▸ circular)
  · exact .inr ⟨entry, single, (next entry).trans noNext, (prev entry).trans noPrev⟩

theorem Kept.marked (kept : Kept cache ring)
    {entries : Nat → SlotBufferCacheEntry} (links : linksOf entries = linksOf cache.entries)
    (tags : ∀ entry, (entries entry).tag = (cache.entries entry).tag) :
    Kept { cache with entries := entries } ring := by
  refine ⟨kept.distinct, kept.linked.congr _ _ _ links, kept.ends, kept.gone, ?_, ?_, kept.counted,
    kept.room, kept.elements, kept.few, kept.hand, kept.started⟩
  · intro ptr entry
    rw [kept.cached ptr entry, tags]
  · intro entry member
    rw [tags]
    exact kept.aligned entry member

/-- A new entry is allocated. -/
theorem Kept.allocate (kept : Kept cache ring) (ptr : Nat) (free : ring.length < cache.capacity) :
    ∃ entry rest fresh, hashEnter cache ptr = (entry, { cache with
        table := update cache.table ptr (some entry)
        freeList := rest
        fresh := fresh }) ∧
      entry ∉ ring ∧ (entry :: ring ++ rest).Perm (List.range fresh) ∧ fresh ≤ cache.capacity ∧
      cache.fresh ≤ fresh ∧ entry < fresh ∧ ∀ first, cache.freeList.head? = some first →
        entry = first := by
  have perm := kept.elements
  rw [hashEnter]
  cases split : cache.freeList with
  | nil =>
    rw [split, append_nil] at perm
    have count := perm.length_eq
    rw [length_range] at count
    refine ⟨cache.fresh, [], cache.fresh + 1, ?_, ?_, ?_, by omega, by omega, by omega, ?_⟩
    · rfl
    · intro member
      exact absurd (mem_range.mp (perm.mem_iff.mp member)) (lt_irrefl _)
    · rw [append_nil, range_succ]
      exact (perm.cons cache.fresh).trans (perm_append_singleton _ _).symm
    · intro first none
      cases none
  | cons entry rest =>
    rw [split] at perm
    have moved : (entry :: ring ++ rest).Perm (List.range cache.fresh) :=
      (perm_middle.symm).trans perm
    refine ⟨entry, rest, cache.fresh, rfl, ?_, moved, kept.few, le_rfl, ?_, ?_⟩
    · have distinct := moved.nodup_iff.mpr nodup_range
      exact fun member => (nodup_cons.mp distinct).1 (mem_append_left _ member)
    · exact mem_range.mp (moved.mem_iff.mp mem_cons_self)
    · intro first isFirst
      exact some.inj isFirst

/-- An entry is linked in front. -/
theorem linked_insert {entry : Nat}
    {fields : SlotBufferCacheEntry} {first last : Nat} (rest : List Nat)
    (split : ring = first :: rest) (isLast : ring.getLast? = some last) (distinct : ring.Nodup)
    (new : entry ∉ ring) (linked : Linked entries ring) (toFirst : fields.next = some first)
    (toLast : fields.prev = some last) :
    (linksOf (setNext (setPrev (update entries entry fields) first (some entry)) last
      (some entry))).Circular (entry :: ring) := by
  subst split
  have lastIn : last ∈ first :: rest := mem_of_getLast? isLast
  have entryFirst : entry ≠ first := fun same => new (same ▸ mem_cons_self)
  have entryLast : entry ≠ last := fun same => new (same ▸ lastIn)
  have chain : List.IsChain (linksOf entries).Joined (first :: rest) := by
    obtain circular | ⟨only, single, -, -⟩ := linked
    · exact (((linksOf entries).circular_cons first rest last isLast).mp circular).1
    · rw [single]
      exact isChain_singleton _
  apply Links.circular_insert _ distinct isLast chain
  · constructor
    · intro cell member apart
      have other : cell ≠ entry := fun same => new (same ▸ member)
      simp only [linksOf, setNext_next, if_neg apart, setPrev_next, update_of_ne other]
    · intro cell member apart
      have other : cell ≠ entry := fun same => new (same ▸ member)
      simp only [linksOf, setNext_prev, setPrev_prev, if_neg apart, update_of_ne other]
  · constructor
    · simp only [linksOf, setNext_next, if_neg entryLast, setPrev_next, update_self, toFirst]
    · simp only [linksOf, setNext_prev, setPrev_prev, if_pos]
  · constructor
    · simp only [linksOf, setNext_next, if_pos]
    · simp only [linksOf, setNext_prev, setPrev_prev, if_neg entryFirst, update_self, toLast]

variable {cache}

/-- A cache with a new entry in front of its ring. -/
theorem Kept.inserted (kept : Kept cache ring)
    {ptr entry : Nat} {rest : List Nat} {fresh : Nat} (new : entry ∉ ring)
    (free : ring.length < cache.capacity) (absent : cache.table ptr = none)
    (whole : makeUndoPtrAlign ptr = ptr) (perm : (entry :: ring ++ rest).Perm (List.range fresh))
    (few : fresh ≤ cache.capacity) (entries : Nat → SlotBufferCacheEntry)
    (own : (entries entry).tag = ptr)
    (others : ∀ other, other ≠ entry → (entries other).tag = (cache.entries other).tag)
    (linked : Linked entries (entry :: ring)) (tail victim : Option Nat)
    (isTail : tail = (entry :: ring).getLast?) (isVictim : ∃ hand < fresh, victim = some hand) :
    Kept { entries := entries
           table := update cache.table ptr (some entry)
           freeList := rest
           fresh := fresh
           head := some entry
           tail := tail
           victim := victim
           size := cache.size + 1
           capacity := cache.capacity } (entry :: ring) := by
  obtain ⟨hand, below, isHand⟩ := isVictim
  refine ⟨nodup_cons.mpr ⟨new, kept.distinct⟩, linked, fun _ => ⟨rfl, isTail⟩,
    fun empty => absurd empty (cons_ne_nil _ _), ?_, ?_, ?_, ?_, perm, few, ?_, ?_⟩
  · intro tag cell
    dsimp only
    rw [update_apply, mem_cons]
    by_cases here : tag = ptr
    · rw [if_pos here, here, some.injEq]
      constructor
      · intro same
        subst same
        exact ⟨.inl rfl, own⟩
      · rintro ⟨same | member, tagged⟩
        · exact same.symm
        · have apart : cell ≠ entry := fun same => new (same ▸ member)
          rw [others cell apart] at tagged
          rw [(kept.cached ptr cell).mpr ⟨member, tagged⟩] at absent
          cases absent
    · rw [if_neg here, kept.cached]
      constructor
      · rintro ⟨member, tagged⟩
        have apart : cell ≠ entry := fun same => new (same ▸ member)
        exact ⟨.inr member, (others cell apart).trans tagged⟩
      · rintro ⟨same | member, tagged⟩
        · rw [same, own] at tagged
          exact absurd tagged.symm here
        · have apart : cell ≠ entry := fun same => new (same ▸ member)
          exact ⟨member, (others cell apart).symm.trans tagged⟩
  · intro cell member
    obtain same | inside := mem_cons.mp member
    · rw [same]
      dsimp only
      rw [own]
      exact whole
    · have apart : cell ≠ entry := fun same => new (same ▸ inside)
      dsimp only
      rw [others cell apart]
      exact kept.aligned cell inside
  · rw [length_cons, ← kept.counted]
  · rw [length_cons]
    exact free
  · intro cell isCell
    rw [isHand] at isCell
    cases isCell
    exact below
  · intro none
    rw [isHand] at none
    cases none

/-- Inserting a block keeps a cache that has room. -/
theorem insertSlotBuffer_kept
    (kept : Kept cache ring) {ptr : Nat} (free : ring.length < cache.capacity)
    (absent : cache.table ptr = none) (whole : makeUndoPtrAlign ptr = ptr) :
    ∃ entry after, insertSlotBuffer cache ptr = some (entry, after) ∧ Kept after (entry :: ring) ∧
      after.capacity = cache.capacity := by
  obtain ⟨entry, rest, fresh, entered, new, perm, few, grown, below, reuse⟩ :=
    kept.allocate cache ring ptr free
  have ready := kept.inserted ring new free absent whole perm few
  -- The entries of a ring that is joined at both ends have their blocks.
  have ownTag : ∀ first last, (setNext (setPrev (update cache.entries entry
      (newEntry cache ptr)) first (some entry)) last (some entry) entry).tag = ptr := by
    intro first last
    rw [setNext_tag, setPrev_tag, update_self, newEntry]
  have otherTags : ∀ first last other, other ≠ entry → (setNext (setPrev (update
      cache.entries entry (newEntry cache ptr)) first (some entry)) last (some entry) other).tag =
        (cache.entries other).tag := by
    intro first last other apart
    rw [setNext_tag, setPrev_tag, update_of_ne apart]
  have moved : ∀ first, first < cache.fresh → ∃ hand < fresh, cache.victim = some hand := by
    intro first used
    cases isHand : cache.victim with
    | none => exact absurd (kept.started isHand) (by omega)
    | some hand => exact ⟨hand, lt_of_lt_of_le (kept.hand hand isHand) grown, rfl⟩
  cases ring with
  | nil =>
    obtain ⟨noHead, noTail⟩ | ⟨old, isFree, isHead, isTail⟩ := kept.gone rfl
    · refine ⟨entry, _, ?_, ready (update cache.entries entry (newEntry cache ptr)) ?_ ?_ ?_
        (some entry) (some entry) rfl ⟨entry, below, rfl⟩, rfl⟩
      · simp only [insertSlotBuffer, entered, noHead, noTail]
      · rw [update_self, newEntry]
      · intro other apart
        rw [update_of_ne apart]
      · refine .inr ⟨entry, rfl, ?_, ?_⟩
        · rw [update_self]
          exact noHead
        · rw [update_self]
          exact noTail
    · -- The element that both ends still point to is used again.
      have same := reuse old isFree
      subst same
      refine ⟨entry, _, ?_, ready _ (ownTag entry entry) (otherTags entry entry) ?_ (some entry)
        cache.victim rfl (moved entry ?_), rfl⟩
      · simp only [insertSlotBuffer, entered, isHead, isTail]
      · refine .inl ?_
        rw [Links.circular_cons _ entry [] entry rfl]
        refine ⟨isChain_singleton _, ?_, ?_⟩
        · simp only [linksOf, setNext_next, if_pos]
        · simp only [linksOf, setNext_prev, setPrev_prev, if_pos]
      · have member : entry ∈ ([] ++ cache.freeList : List Nat) := mem_of_head? isFree
        exact mem_range.mp (kept.elements.mem_iff.mp member)
  | cons first others =>
    obtain ⟨isHead, isTail⟩ := kept.ends (cons_ne_nil _ _)
    obtain ⟨last, isLast⟩ : ∃ last, (first :: others).getLast? = some last :=
      ⟨_, getLast?_eq_some_getLast (cons_ne_nil _ _)⟩
    rw [head?_cons] at isHead
    rw [isLast] at isTail
    refine ⟨entry, _, ?_, ready _ (ownTag first last) (otherTags first last) ?_ cache.tail
      cache.victim ?_ (moved first ?_), rfl⟩
    · simp only [insertSlotBuffer, entered, isHead, isTail]
    · refine .inl ?_
      apply linked_insert cache.entries (first :: others) others
        rfl isLast kept.distinct new kept.linked
      · exact isHead
      · exact isTail
    · rw [isTail, getLast?_cons_cons, isLast]
    · exact mem_range.mp (kept.elements.mem_iff.mp mem_cons_self)

theorem unlinked_tag (prev next : Option Nat)
    (other : Nat) : (unlinked entries prev next other).tag = (entries other).tag := by
  cases prev with
  | none =>
    cases next with
    | none => rfl
    | some behind => exact setPrev_tag entries behind other none
  | some before =>
    cases next with
    | none => exact setNext_tag entries before other none
    | some behind =>
      simp only [unlinked]
      rw [setPrev_tag, setNext_tag]

variable {front back}

/-- Without an entry the list is circular. -/
theorem unlinked_circular
    {entry first last : Nat} {rest : List Nat} (split : back ++ front = first :: rest)
    (isLast : (first :: rest).getLast? = some last) (distinct : (first :: rest).Nodup)
    (circular : (linksOf entries).Circular (front ++ entry :: back)) :
    (entries entry).next = some first ∧ (entries entry).prev = some last ∧
      (linksOf (unlinked entries (entries entry).prev (entries entry).next)).Circular
        (front ++ back) := by
  rw [Links.circular_split, cons_append, split] at circular
  obtain ⟨next, prev, -⟩ := (linksOf entries).circular_ends isLast circular
  have isNext : (entries entry).next = some first := next
  have isPrev : (entries entry).prev = some last := prev
  refine ⟨isNext, isPrev, ?_⟩
  rw [Links.circular_split, split, isNext, isPrev]
  simp only [unlinked]
  apply Links.circular_remove _ distinct isLast circular
  · constructor
    · intro cell _ apart
      simp only [linksOf, setPrev_next, setNext_next, if_neg apart]
    · intro cell _ apart
      simp only [linksOf, setPrev_prev, setNext_prev, if_neg apart]
  · constructor
    · simp only [linksOf, setPrev_next, setNext_next, if_pos]
    · simp only [linksOf, setPrev_prev, if_pos]

theorem removeSlotBuffer_eq {slotPtr entry : Nat}
    (cached : cache.table (makeUndoPtrAlign slotPtr) = some entry) :
    removeSlotBuffer cache slotPtr = some
      { cache with
        entries := unlinked cache.entries (cache.entries entry).prev (cache.entries entry).next
        table := update cache.table (makeUndoPtrAlign slotPtr) none
        freeList := entry :: cache.freeList
        head := if cache.head = some entry then (cache.entries entry).next else cache.head
        tail := if cache.tail = some entry then (cache.entries entry).prev else cache.tail
        size := cache.size - 1 } := by
  simp only [removeSlotBuffer, cached]

/-- A cache with an entry taken out of its ring. -/
theorem Kept.removed {entry : Nat}
    (kept : Kept cache (front ++ entry :: back)) {ptr : Nat}
    (tagged : (cache.entries entry).tag = ptr)
    {entries : Nat → SlotBufferCacheEntry}
    (tags : ∀ other, (entries other).tag = (cache.entries other).tag)
    (linked : Linked entries (front ++ back)) (head tail : Option Nat)
    (ends : front ++ back ≠ [] → head = (front ++ back).head? ∧ tail = (front ++ back).getLast?)
    (gone : front ++ back = [] → head = none ∧ tail = none ∨ head = some entry ∧ tail = some entry) :
    Kept { cache with
      entries := entries
      table := update cache.table ptr none
      freeList := entry :: cache.freeList
      head := head
      tail := tail
      size := cache.size - 1 } (front ++ back) := by
  have distinct := kept.distinct
  have perm : (front ++ entry :: back).Perm (entry :: (front ++ back)) := perm_middle
  have apart := nodup_cons.mp (perm.nodup_iff.mp distinct)
  have count := kept.counted
  have length := perm.length_eq
  have room := kept.room
  rw [length_cons] at length
  refine ⟨apart.2, linked, ends, ?_, ?_, ?_, ?_, ?_, ?_, kept.few, kept.hand, kept.started⟩
  · intro empty
    obtain none | stays := gone empty
    · exact .inl none
    · exact .inr ⟨entry, rfl, stays⟩
  · intro tag cell
    dsimp only
    rw [update_apply, tags]
    by_cases here : tag = ptr
    · rw [if_pos here, here]
      constructor
      · intro none
        cases none
      · rintro ⟨member, same⟩
        have one := (kept.cached ptr cell).mpr ⟨perm.mem_iff.mpr (mem_cons_of_mem _ member), same⟩
        have other := (kept.cached ptr entry).mpr ⟨perm.mem_iff.mpr mem_cons_self, tagged⟩
        rw [one, some.injEq] at other
        exact absurd (other ▸ member) apart.1
    · rw [if_neg here, kept.cached, perm.mem_iff, mem_cons]
      constructor
      · rintro ⟨same | member, isTag⟩
        · rw [same, tagged] at isTag
          exact absurd isTag.symm here
        · exact ⟨member, isTag⟩
      · rintro ⟨member, isTag⟩
        exact ⟨.inr member, isTag⟩
  · intro cell member
    dsimp only
    rw [tags]
    exact kept.aligned cell (perm.mem_iff.mpr (mem_cons_of_mem _ member))
  · dsimp only
    lia
  · dsimp only
    lia
  · dsimp only
    have moved : ((front ++ back) ++ entry :: cache.freeList).Perm
        (entry :: (front ++ back) ++ cache.freeList) := perm_middle
    exact (moved.trans (perm.symm.append_right _)).trans kept.elements

/-- Removing a cached block keeps the cache. Where it was the only one and had no neighbour, the ends
are cleared. -/
theorem removeSlotBuffer_kept {entry : Nat}
    (kept : Kept cache (front ++ entry :: back)) {slotPtr : Nat}
    (tagged : (cache.entries entry).tag = makeUndoPtrAlign slotPtr) :
    ∃ after, removeSlotBuffer cache slotPtr = some after ∧ Kept after (front ++ back) ∧
      after.capacity = cache.capacity ∧
      after.table = update cache.table (makeUndoPtrAlign slotPtr) none ∧
      (front ++ back = [] → (cache.entries entry).next = none →
        after.head = none ∧ after.tail = none) := by
  have member : entry ∈ front ++ entry :: back := mem_append_right _ mem_cons_self
  have stored := (kept.cached (makeUndoPtrAlign slotPtr) entry).mpr ⟨member, tagged⟩
  have filled : front ++ entry :: back ≠ [] := ne_nil_of_mem member
  obtain ⟨isHead, isTail⟩ := kept.ends filled
  have ready := kept.removed tagged (unlinked_tag cache.entries
    (cache.entries entry).prev (cache.entries entry).next)
  by_cases single : front ++ back = []
  · obtain ⟨noFront, noBack⟩ := append_eq_nil_iff.mp single
    subst noFront noBack
    rw [nil_append, head?_cons] at isHead
    rw [nil_append, getLast?_singleton] at isTail
    refine ⟨_, removeSlotBuffer_eq stored, ready (.inl ?_) _ _ ?_ ?_, rfl, rfl, ?_⟩
    · exact Cycle.Chain.nil _
    · intro more
      exact absurd single more
    · intro _
      rw [if_pos isHead, if_pos isTail]
      obtain circular | ⟨only, same, noNext, noPrev⟩ := kept.linked
      · have closed := ((linksOf cache.entries).circular_cons entry [] entry rfl).mp circular
        exact .inr ⟨closed.2.1, closed.2.2⟩
      · rw [nil_append, List.cons.injEq] at same
        rw [same.1]
        exact .inl ⟨noNext, noPrev⟩
    · intro _ noNext
      dsimp only
      rw [if_pos isHead, if_pos isTail]
      obtain circular | ⟨only, same, noNext', noPrev⟩ := kept.linked
      · have closed := ((linksOf cache.entries).circular_cons entry [] entry rfl).mp circular
        have next : (cache.entries entry).next = some entry := closed.2.1
        rw [next] at noNext
        cases noNext
      · rw [nil_append, List.cons.injEq] at same
        rw [same.1]
        exact ⟨noNext', noPrev⟩
  · -- The ring is cut open at the entry.
    have circular : (linksOf cache.entries).Circular (front ++ entry :: back) := by
      obtain circular | ⟨only, same, -, -⟩ := kept.linked
      · exact circular
      · have length := congrArg List.length same
        rw [length_append, length_cons, length_singleton] at length
        have more := length_pos_iff.mpr single
        rw [length_append] at more
        omega
    have distinct := (perm_append_comm.nodup_iff.mp (nodup_cons.mp
      (perm_middle.nodup_iff.mp kept.distinct)).2 : (back ++ front).Nodup)
    obtain ⟨first, rest, split⟩ : ∃ first rest, back ++ front = first :: rest := by
      apply exists_cons_of_ne_nil
      intro empty
      obtain ⟨noBack, noFront⟩ := append_eq_nil_iff.mp empty
      exact single (by rw [noBack, noFront]; rfl)
    obtain ⟨last, isLast⟩ : ∃ last, (first :: rest).getLast? = some last :=
      ⟨_, getLast?_eq_some_getLast (cons_ne_nil _ _)⟩
    rw [split] at distinct
    obtain ⟨next, prev, joined⟩ := unlinked_circular cache.entries split isLast distinct circular
    refine ⟨_, removeSlotBuffer_eq stored, ready (.inl joined) _ _ ?_ ?_, rfl,
      rfl, fun empty => absurd empty single⟩
    · intro _
      have apart := (nodup_cons.mp (perm_middle.nodup_iff.mp kept.distinct)).1
      constructor
      · cases front with
        | nil =>
          rw [append_nil] at split
          rw [nil_append, head?_cons] at isHead
          rw [if_pos isHead, next, nil_append, split, head?_cons]
        | cons front others =>
          rw [cons_append, head?_cons] at isHead
          have other : cache.head ≠ some entry := by
            rw [isHead]
            intro same
            exact apart (some.inj same ▸ mem_cons_self)
          rw [if_neg other, isHead, cons_append, head?_cons]
      · cases back with
        | nil =>
          rw [nil_append] at split
          rw [getLast?_concat] at isTail
          rw [if_pos isTail, prev, append_nil, split, isLast]
        | cons behind others =>
          rw [getLast?_append_of_ne_nil _ (cons_ne_nil _ _), getLast?_cons_cons]
            at isTail
          have other : cache.tail ≠ some entry := by
            intro same
            rw [isTail] at same
            exact apart (mem_append_right _ (mem_of_getLast? same))
          rw [if_neg other, isTail, getLast?_append_of_ne_nil _ (cons_ne_nil _ _)]
    · exact fun empty => absurd empty single

/-- The look for a victim along a chain that comes back to its start ends, and changes no pointer
and no block. -/
theorem victimLoop_ends (victim : Nat) (others : List Nat) (entries : Nat → SlotBufferCacheEntry)
    (entry rounds : Nat) (enough : others.length < rounds) (away : victim ∉ others)
    (chain : List.IsChain (linksOf entries).Joined (entry :: (others ++ [victim]))) :
    ∃ marked found, victimLoop victim rounds entries entry = some (marked, found) ∧
      linksOf marked = linksOf entries ∧ (∀ other, (marked other).tag = (entries other).tag) ∧
      ∀ cell, found = some cell → cell ∈ entry :: others := by
  induction others generalizing entries entry rounds with
  | nil =>
    obtain ⟨rest, same⟩ : ∃ rest, rounds = rest + 1 := ⟨rounds - 1, by lia⟩
    subst same
    rw [nil_append, isChain_pair] at chain
    have next : (entries entry).next = some victim := chain.1
    rw [victimLoop]
    cases used : (entries entry).hit with
    | true =>
      refine ⟨setHit entries entry false, none, ?_, linksOf_setHit _ _ _, ?_, ?_⟩
      · simp only [next, ↓reduceIte]
      · exact fun other => setHit_tag entries entry other false
      · intro cell nothing
        cases nothing
    | false =>
      refine ⟨entries, some entry, ?_, rfl, fun _ => rfl, ?_⟩
      · simp only [Bool.false_eq_true, ↓reduceIte]
      · intro cell found
        cases found
        exact mem_cons_self
  | cons following others ih =>
    obtain ⟨rest, same⟩ : ∃ rest, rounds = rest + 1 := ⟨rounds - 1, by lia⟩
    subst same
    rw [cons_append, isChain_cons_cons] at chain
    have next : (entries entry).next = some following := chain.1.1
    have apart : following ≠ victim := fun same => away (same ▸ mem_cons_self)
    rw [victimLoop]
    cases used : (entries entry).hit with
    | true =>
      rw [length_cons] at enough
      obtain ⟨marked, found, ends, links, tags, inside⟩ := ih (setHit entries entry false) following
        rest (by omega) (fun member => away (mem_cons_of_mem _ member)) (by
          rw [linksOf_setHit]
          exact chain.2)
      refine ⟨marked, found, ?_, links.trans (linksOf_setHit _ _ _), ?_, ?_⟩
      · simp only [next, apart, ↓reduceIte]
        exact ends
      · exact fun other => (tags other).trans (setHit_tag entries entry other false)
      · exact fun cell isFound => mem_cons_of_mem _ (inside cell isFound)
    | false =>
      refine ⟨entries, some entry, ?_, rfl, fun _ => rfl, ?_⟩
      · simp only [Bool.false_eq_true, ↓reduceIte]
      · intro cell found
        cases found
        exact mem_cons_self

variable (cache)

/-- The victim is an entry of the list. -/
theorem Kept.victim_live (kept : Kept cache ring)
    (two : 2 ≤ cache.capacity) (full : cache.capacity ≤ cache.size) :
    ∃ hand ∈ ring, cache.victim = some hand := by
  have count := kept.counted
  have total := kept.elements.length_eq
  have few := kept.few
  rw [length_append, length_range] at total
  have none : cache.freeList = [] := length_eq_zero_iff.mp (by lia)
  have all := kept.elements
  rw [none, append_nil] at all
  cases isHand : cache.victim with
  | none =>
    have zero := kept.started isHand
    lia
  | some hand =>
    exact ⟨hand, all.mem_iff.mpr (mem_range.mpr (kept.hand hand isHand)), rfl⟩

/-- A full cache evicts exactly one entry. -/
theorem victimSlotBuffer_kept
    (kept : Kept cache ring) (two : 2 ≤ cache.capacity) (full : cache.capacity ≤ cache.size) :
    ∃ front evicted back after, ring = front ++ evicted :: back ∧
      victimSlotBuffer cache = some after ∧ Kept after (front ++ back) ∧
      after.capacity = cache.capacity ∧
      after.table = update cache.table (cache.entries evicted).tag none := by
  obtain ⟨hand, live, isHand⟩ := kept.victim_live cache ring two full
  have count := kept.counted
  have circular : (linksOf cache.entries).Circular ring := by
    obtain circular | ⟨only, same, -, -⟩ := kept.linked
    · exact circular
    · rw [same, length_singleton] at count
      omega
  obtain ⟨front, back, split⟩ := append_of_mem live
  rw [split, Links.circular_split, cons_append] at circular
  have distinct := kept.distinct
  rw [split] at distinct
  have away := (nodup_cons.mp (perm_middle.nodup_iff.mp distinct)).1
  have length := congrArg List.length split
  rw [length_append, length_cons] at length
  obtain ⟨marked, found, ends, links, tags, inside⟩ := victimLoop_ends hand (back ++ front)
    cache.entries hand cache.size (by rw [length_append]; omega)
    (fun member => away (perm_append_comm.mem_iff.mp member)) circular
  have keptMarked := kept.marked cache ring links tags
  -- Whichever entry is removed, it is one of the ring.
  have evicts : ∀ evicted ∈ ring, ∃ front back after, ring = front ++ evicted :: back ∧
      removeSlotBuffer { cache with entries := marked } (marked evicted).tag = some after ∧
      Kept after (front ++ back) ∧ after.capacity = cache.capacity ∧
      after.table = update cache.table (cache.entries evicted).tag none := by
    intro evicted member
    obtain ⟨front, back, split⟩ := append_of_mem member
    have aligned := keptMarked.aligned evicted member
    rw [split] at keptMarked
    obtain ⟨after, removed, keptAfter, capacity, table, -⟩ := removeSlotBuffer_kept
      keptMarked aligned.symm
    refine ⟨front, back, after, split, removed, keptAfter, capacity, ?_⟩
    rw [table, aligned, tags]
  cases found with
  | some evicted =>
    have value : victimSlotBuffer cache =
        removeSlotBuffer { cache with entries := marked } (marked evicted).tag := by
      rw [victimSlotBuffer]
      simp only [isHand, ends]
    have member : evicted ∈ ring := by
      rw [split]
      obtain same | other := mem_cons.mp (inside evicted rfl)
      · rw [same]
        exact mem_append_right _ mem_cons_self
      · obtain behind | before := mem_append.mp other
        · exact mem_append_right _ (mem_cons_of_mem _ behind)
        · exact mem_append_left _ before
    obtain ⟨front, back, after, parts, rest⟩ := evicts evicted member
    rw [← value] at rest
    exact ⟨front, evicted, back, after, parts, rest⟩
  | none =>
    have filled : ring ≠ [] := ne_nil_of_mem live
    obtain ⟨last, isLast⟩ : ∃ last, ring.getLast? = some last :=
      ⟨_, getLast?_eq_some_getLast filled⟩
    have isTail := (kept.ends filled).2
    rw [isLast] at isTail
    have value : victimSlotBuffer cache =
        removeSlotBuffer { cache with entries := marked } (marked last).tag := by
      rw [victimSlotBuffer]
      simp only [isHand, ends, isTail]
    obtain ⟨front, back, after, parts, rest⟩ := evicts last (mem_of_getLast? isLast)
    rw [← value] at rest
    exact ⟨front, last, back, after, parts, rest⟩

/-- The block of a call to remove is cached. -/
def RemovesCached (cache : UndoSlotBufferCache) : CacheCall → Prop
  | .fetch _ => True
  | .remove slotPtr => cache.table (makeUndoPtrAlign slotPtr) ≠ none

/-- A call does not remove the only entry of the cache while the entry is linked to itself. -/
def LeavesNoEntry (cache : UndoSlotBufferCache) : CacheCall → Prop
  | .fetch _ => True
  | .remove slotPtr => ∀ entry, cache.table (makeUndoPtrAlign slotPtr) = some entry →
      cache.size = 1 → (cache.entries entry).next = none

/-- A cache is whole: its ring has exactly the entries of the hash table, each once, is counted and
fits; both ends are those of the ring; and a full cache starts the look for a victim at an entry of
the ring and evicts exactly one entry. -/
structure UndoSlotBufferCache.Whole (cache : UndoSlotBufferCache) (ring : List Nat) : Prop where
  distinct : ring.Nodup
  linked : Linked cache.entries ring
  cached : ∀ ptr entry, cache.table ptr = some entry ↔
    entry ∈ ring ∧ (cache.entries entry).tag = ptr
  counted : cache.size = ring.length
  room : cache.size ≤ cache.capacity
  head_eq : cache.head = ring.head?
  tail_eq : cache.tail = ring.getLast?
  evicts : cache.capacity ≤ cache.size → (∃ hand ∈ ring, cache.victim = some hand) ∧
    ∃ evicted ∈ ring, ∃ after, victimSlotBuffer cache = some after ∧
      after.table = update cache.table (cache.entries evicted).tag none ∧
      after.size + 1 = cache.size

/-- The state of a run: the cache keeps its ring, and an empty cache has no ends. -/
def RunsWhole (capacity : Nat) (state : Option UndoSlotBufferCache) : Prop :=
  ∃ cache ring, state = some cache ∧ Kept cache ring ∧ cache.capacity = capacity ∧
    (ring = [] → cache.head = none ∧ cache.tail = none)

/-- What is kept is whole. -/
theorem Kept.whole (kept : Kept cache ring)
    (two : 2 ≤ cache.capacity) (empty : ring = [] → cache.head = none ∧ cache.tail = none) :
    cache.Whole ring := by
  have ends : cache.head = ring.head? ∧ cache.tail = ring.getLast? := by
    by_cases none : ring = []
    · rw [none]
      exact empty none
    · exact kept.ends none
  refine ⟨kept.distinct, kept.linked, kept.cached, kept.counted, ?_, ends.1, ends.2, ?_⟩
  · rw [kept.counted]
    exact kept.room
  · intro full
    obtain ⟨front, evicted, back, after, split, evicts, keptAfter, -, table⟩ :=
      victimSlotBuffer_kept cache ring kept two full
    refine ⟨kept.victim_live cache ring two full, evicted, ?_, after, evicts, table, ?_⟩
    · rw [split]
      exact mem_append_right _ mem_cons_self
    · rw [keptAfter.counted, kept.counted, split, length_append, length_append, length_cons]
      omega

/-- A fetch keeps the cache. -/
theorem fetchTransactionBuffer_kept
    (kept : Kept cache ring) (two : 2 ≤ cache.capacity) (slotPtr : Nat) :
    ∃ entry after ring', fetchTransactionBuffer cache slotPtr = some (entry, after) ∧
      Kept after ring' ∧ after.capacity = cache.capacity ∧ ring' ≠ [] := by
  have whole := makeUndoPtrAlign_idem slotPtr
  rw [fetchTransactionBuffer]
  cases stored : cache.table (makeUndoPtrAlign slotPtr) with
  | some entry =>
    have member := ((kept.cached _ entry).mp stored).1
    exact ⟨entry, _, ring, rfl, kept.marked cache ring (linksOf_setHit _ _ _)
      (fun other => setHit_tag _ _ other _), rfl, ne_nil_of_mem member⟩
  | none =>
    by_cases full : cache.capacity ≤ cache.size
    · obtain ⟨front, evicted, back, evictedCache, split, evicts, keptEvicted, capacity, table⟩ :=
        victimSlotBuffer_kept cache ring kept two full
      have count := kept.counted
      have length := congrArg List.length split
      have room := kept.room
      rw [length_append, length_cons] at length
      have absent : evictedCache.table (makeUndoPtrAlign slotPtr) = none := by
        rw [table, update_apply, stored, ite_self]
      obtain ⟨entry, after, inserted, keptAfter, same⟩ := insertSlotBuffer_kept _
        keptEvicted (by rw [length_append]; lia) absent whole
      refine ⟨entry, after, _, ?_, keptAfter, same.trans capacity, cons_ne_nil _ _⟩
      simp only [full, ↓reduceIte, evicts]
      exact inserted
    · have count := kept.counted
      obtain ⟨entry, after, inserted, keptAfter, same⟩ := insertSlotBuffer_kept ring kept
        (by omega) stored whole
      refine ⟨entry, after, _, ?_, keptAfter, same, cons_ne_nil _ _⟩
      simp only [full, ↓reduceIte]
      exact inserted

/-- A step keeps the cache whole. -/
theorem cacheStep_runsWhole (two : 2 ≤ capacity)
    {state : Option UndoSlotBufferCache} {call : CacheCall} (before : RunsWhole capacity state)
    (cached : ∀ cache, state = some cache → RemovesCached cache call)
    (leaves : ∀ cache, state = some cache → LeavesNoEntry cache call) :
    RunsWhole capacity (cacheStep state call) := by
  obtain ⟨cache, ring, isState, kept, isCapacity, empty⟩ := before
  subst isState isCapacity
  cases call with
  | fetch slotPtr =>
    obtain ⟨entry, after, ring', fetched, keptAfter, same, filled⟩ :=
      fetchTransactionBuffer_kept cache ring kept two slotPtr
    refine ⟨after, ring', ?_, keptAfter, same, fun none => absurd none filled⟩
    simp only [cacheStep, fetched, map_some]
  | remove slotPtr =>
    have isCached := cached cache rfl
    have noEntry := leaves cache rfl
    cases stored : cache.table (makeUndoPtrAlign slotPtr) with
    | none => exact absurd stored isCached
    | some entry =>
      obtain ⟨member, tagged⟩ := (kept.cached _ entry).mp stored
      obtain ⟨front, back, split⟩ := append_of_mem member
      have single := noEntry entry stored
      rw [kept.counted, split] at single
      rw [split] at kept
      obtain ⟨after, removed, keptAfter, same, -, cleared⟩ := removeSlotBuffer_kept kept tagged
      refine ⟨after, front ++ back, removed, keptAfter, same, ?_⟩
      intro none
      apply cleared none
      apply single
      obtain ⟨noFront, noBack⟩ := append_eq_nil_iff.mp none
      rw [noFront, noBack]
      rfl

theorem new_kept : Kept (UndoSlotBufferCache.new capacity) [] := by
  refine ⟨nodup_nil, .inl (Cycle.Chain.nil _), fun filled => absurd rfl filled,
    fun _ => .inl ⟨rfl, rfl⟩, ?_, ?_, rfl, Nat.zero_le _, List.Perm.refl _, Nat.zero_le _, ?_,
    fun _ => rfl⟩
  · intro ptr entry
    constructor
    · intro none
      cases none
    · rintro ⟨member, -⟩
      exact absurd member not_mem_nil
  · intro entry member
    exact absurd member not_mem_nil
  · intro entry none
    cases none

/-- In every run of a cache for at least two entries whose removals are of cached blocks and none of
which removes the only entry while it is linked to itself, every call returns and the cache is
whole. -/
theorem cache_stays_whole (capacity : Nat) (two : 2 ≤ capacity) (calls : List CacheCall)
    (cached : Along cacheStep (fun state call => ∀ cache, state = some cache →
      RemovesCached cache call) (some (UndoSlotBufferCache.new capacity)) calls)
    (leaves : Along cacheStep (fun state call => ∀ cache, state = some cache →
      LeavesNoEntry cache call) (some (UndoSlotBufferCache.new capacity)) calls) :
    ∃ cache ring, calls.foldl cacheStep (some (UndoSlotBufferCache.new capacity)) = some cache ∧
      cache.Whole ring := by
  have both := along_and cacheStep _ _ _ calls cached leaves
  have final := along_invariant cacheStep _ (RunsWhole capacity) (fun state call before allowed =>
    cacheStep_runsWhole capacity two before allowed.1 allowed.2) _ calls
    ⟨_, [], rfl, new_kept capacity, rfl, fun _ => ⟨rfl, rfl⟩⟩ both
  obtain ⟨cache, ring, isState, kept, isCapacity, empty⟩ := final
  exact ⟨cache, ring, isState, kept.whole cache ring (isCapacity ▸ two) empty⟩

/-- Whether a removal is of a cached block can be checked. -/
instance instDecidableRemovesCached (cache : UndoSlotBufferCache) (call : CacheCall) :
    Decidable (RemovesCached cache call) :=
  match call with
  | .fetch _ => isTrue trivial
  | .remove slotPtr => inferInstanceAs (Decidable (cache.table (makeUndoPtrAlign slotPtr) ≠ none))

/-- Whether a call leaves no entry behind can be checked. -/
instance instDecidableLeavesNoEntry (cache : UndoSlotBufferCache) (call : CacheCall) :
    Decidable (LeavesNoEntry cache call) :=
  match call with
  | .fetch _ => isTrue trivial
  | .remove slotPtr => inferInstanceAs (Decidable
      (∀ entry, cache.table (makeUndoPtrAlign slotPtr) = some entry →
        cache.size = 1 → (cache.entries entry).next = none))

/-- A block is used again, a third one evicts the other, and one of the two is removed. -/
def evictingCalls : List CacheCall :=
  [.fetch 0, .fetch 8192, .fetch 40, .fetch 16384, .remove 16400]

/-- A run with a hit, an eviction and a removal. -/
theorem cache_stays_whole_evicting :
    ∃ cache ring, evictingCalls.foldl cacheStep (some (UndoSlotBufferCache.new 2)) = some cache ∧
      cache.Whole ring :=
  cache_stays_whole 2 le_rfl evictingCalls (by decide) (by decide)

/-- Two blocks are fetched, and both are removed. -/
def emptyingCalls : List CacheCall := [.fetch 0, .fetch 8192, .remove 0, .remove 8192]

/-- When both blocks are gone, `head_` still points to the entry of the second: it was linked to
itself when the first was removed. -/
theorem emptied_cache_keeps_an_end :
    Along cacheStep (fun state call => ∀ cache, state = some cache → RemovesCached cache call)
        (some (UndoSlotBufferCache.new 2)) emptyingCalls ∧
      ¬∃ cache ring, emptyingCalls.foldl cacheStep (some (UndoSlotBufferCache.new 2)) = some cache ∧
        cache.Whole ring := by
  refine ⟨by decide, ?_⟩
  rintro ⟨cache, ring, isState, whole⟩
  have seen : (emptyingCalls.foldl cacheStep (some (UndoSlotBufferCache.new 2))).map
      (fun cache => (cache.size, cache.head)) = some (0, some 1) := by decide
  rw [isState, map_some, some.injEq, Prod.mk.injEq] at seen
  have empty : ring = [] := length_eq_zero_iff.mp (whole.counted.symm.trans seen.1)
  have noHead := whole.head_eq
  rw [empty, seen.2] at noHead
  cases noHead

end OpenGauss.Undo
