import OpenGauss.CStore.DeltaPlusRle
import OpenGauss.CStore.IntegerCoder

/-!
# The size of runs

Runs never need more than the bytes that `RleGetBound1` allows. A run is not longer than the values it
stands for, and only a few markers in a row become longer, by one byte. Behind them stands another
value, so that at most every other value adds a byte.
-/
namespace OpenGauss.CStore

open List OpenGauss.Base

/-- The bytes that values may add: every other one adds one, the first included if it is the
marker. -/
def addedBytes (eachValSize : Nat) (values : List Nat) : Nat :=
  (values.length + if values.head? = some (rleMarker eachValSize) then 1 else 0) / 2

/-- A run that stops early is as long as it may be. -/
theorem scanRepeats_stops (data1 data2 count : Nat) (rest : List Nat)
    (same : data1 = (scanRepeats data1 data2 count rest).1) :
    (scanRepeats data1 data2 count rest).2.2 = [] ∨
      rleMaxRepeats ≤ (scanRepeats data1 data2 count rest).2.1 := by
  induction rest generalizing data2 count with
  | nil => exact .inl rfl
  | cons next rest ih =>
    rw [scanRepeats] at same ⊢
    by_cases goes : data1 = data2 ∧ count < rleMaxRepeats
    · rw [if_pos goes] at same ⊢
      exact ih next (count + 1) same
    · rw [if_neg goes] at same ⊢
      right
      by_contra less
      exact goes ⟨same, Nat.not_le.mp less⟩

variable (eachValSize minRepeats symbol count : Nat)

theorem writeRepeats_length : (writeRepeats eachValSize minRepeats symbol count).length =
      if minRepeats ≤ count then 2 * eachValSize + (if 128 ≤ count then 2 else 1)
      else if rleMarker eachValSize ≠ symbol then count * eachValSize else eachValSize + 1 := by
  rw [writeRepeats]
  by_cases enough : minRepeats ≤ count
  · rw [if_pos enough, writeRuns, length_append, length_append, writeData,
      writeData, leBytes_length, leBytes_length]
    split <;> simp only [length_cons, length_nil] <;> lia
  · rw [if_neg enough, if_neg enough, writeNonRuns]
    by_cases plain : rleMarker eachValSize ≠ symbol
    · rw [if_pos plain, if_pos plain, writeValues_length, length_replicate]
    · rw [if_neg plain, if_neg plain, length_append, writeData, leBytes_length]
      rfl

variable {eachValSize minRepeats}

/-- A run adds no more than it saves. -/
theorem writeRepeats_bound (wide : 0 < eachValSize)
    (saves : 2 * eachValSize + 1 ≤ minRepeats * eachValSize) (present : 0 < count) (rest : List Nat)
    (other : count < minRepeats → symbol = rleMarker eachValSize →
      rest.head? ≠ some (rleMarker eachValSize)) :
    (writeRepeats eachValSize minRepeats symbol count).length +
        (rest.length * eachValSize + addedBytes eachValSize rest) ≤
      (List.replicate count symbol ++ rest).length * eachValSize +
        addedBytes eachValSize (List.replicate count symbol ++ rest) := by
  have first : (List.replicate count symbol ++ rest).head? = some symbol := by
    obtain ⟨before, rfl⟩ : ∃ before, count = before + 1 := ⟨count - 1, by omega⟩
    rfl
  have total : (List.replicate count symbol ++ rest).length = count + rest.length := by
    rw [length_append, length_replicate]
  rw [writeRepeats_length, addedBytes, addedBytes, total]
  by_cases enough : minRepeats ≤ count
  · have least : minRepeats * eachValSize ≤ count * eachValSize := Nat.mul_le_mul_right _ enough
    have many (long : 128 ≤ count) : 2 * eachValSize + 2 ≤ count * eachValSize := by
      have more : 128 * eachValSize ≤ count * eachValSize := Nat.mul_le_mul_right _ long
      lia
    by_cases long : 128 ≤ count
    · split <;> split <;> lia
    · split <;> split <;> lia
  · by_cases plain : rleMarker eachValSize ≠ symbol
    · split <;> split <;> lia
    · have least : 1 * eachValSize ≤ count * eachValSize := Nat.mul_le_mul_right _ present
      by_cases one : count = 1
      · lia
      · lia

/-- The loop keeps to the bound. -/
theorem rleCompressLoop_bound {eachValSize minRepeats : Nat} (wide : 0 < eachValSize)
    (least : 2 ≤ minRepeats) (small : minRepeats ≤ 128)
    (saves : 2 * eachValSize + 1 ≤ minRepeats * eachValSize) (rounds : Nat) (values : List Nat) :
    (rleCompressLoop eachValSize minRepeats rounds values).length ≤
      values.length * eachValSize + addedBytes eachValSize values := by
  have single (symbol : Nat) : writeNonRuns eachValSize symbol 1 =
      writeRepeats eachValSize minRepeats symbol 1 := by
    rw [writeRepeats, if_neg (by omega)]
  induction rounds generalizing values with
  | zero => exact Nat.zero_le _
  | succ rounds ih =>
    rcases values with _ | ⟨data1, _ | ⟨data2, rest⟩⟩
    · exact Nat.zero_le _
    · have one := writeRepeats_bound data1 1 wide saves Nat.one_pos []
        (fun _ _ absent => by cases absent)
      rw [append_nil] at one
      rw [rleCompressLoop, single]
      exact Nat.le_trans (Nat.le_add_right _ _) one
    · rw [rleCompressLoop]
      by_cases same : data1 = data2
      · subst same
        have spec := scanRepeats_spec data1 2 rest (by decide)
        have stops := scanRepeats_stops data1 data1 2 rest
        rw [if_pos rfl]
        generalize scanRepeats data1 data1 2 rest = scanned at spec stops ⊢
        have total : data1 :: data1 :: rest = List.replicate 2 data1 ++ rest := rfl
        rcases spec with ⟨again, two, -, all⟩ | ⟨other, two, -, all⟩
        · have one := writeRepeats_bound data1 scanned.2.1 wide saves (by omega) scanned.2.2 (by
              intro few _
              rcases stops again with ends | most
              · rw [ends]
                intro absent
                cases absent
              · rw [rleMaxRepeats] at most
                lia)
          simp only [if_pos again]
          rw [total, all, length_append]
          exact Nat.le_trans (Nat.add_le_add_left (ih _) _) one
        · have one := writeRepeats_bound data1 (scanned.2.1 - 1) wide saves
            (by omega) (scanned.1 :: scanned.2.2) (by
              intro _ marker head
              rw [head?_cons, Option.some.injEq, ← marker] at head
              exact other head.symm)
          simp only [if_neg other]
          rw [total, all, length_append]
          exact Nat.le_trans (Nat.add_le_add_left (ih _) _) one
      · have one := writeRepeats_bound data1 1 wide saves Nat.one_pos (data2 :: rest) (by
            intro _ marker head
            rw [head?_cons, Option.some.injEq, ← marker] at head
            exact same head.symm)
        rw [if_neg same, single, length_append]
        exact Nat.le_trans (Nat.add_le_add_left (ih _) _) one

theorem minRepeats_save {eachValSize minRepeats : Nat} (wide : 0 < eachValSize)
    (narrow : eachValSize ≤ 8)
    (version : minRepeats = rleMinRepeatsV1 ∨ minRepeats = rleMinRepeatsV2 eachValSize) :
    2 ≤ minRepeats ∧ minRepeats ≤ 128 ∧ 2 * eachValSize + 1 ≤ minRepeats * eachValSize := by
  rcases version with rfl | rfl
  · rw [rleMinRepeatsV1]
    lia
  · have all : ∀ size : Fin 9, 0 < size.val → 2 ≤ rleMinRepeatsV2 size ∧
        rleMinRepeatsV2 size ≤ 128 ∧ 2 * size.val + 1 ≤ rleMinRepeatsV2 size * size := by decide
    exact all ⟨eachValSize, by omega⟩ wide

/-- Values of any width are restored from their runs, which are not longer than the bound, in both
versions. -/
theorem runs_are_restored_within_bound (eachValSize minRepeats : Nat) (wide : 0 < eachValSize)
    (narrow : eachValSize ≤ 8)
    (version : minRepeats = rleMinRepeatsV1 ∨ minRepeats = rleMinRepeatsV2 eachValSize)
    (count : Nat) (present : 0 < count) (inbuf : List UInt8)
    (whole : inbuf.length = count * eachValSize) :
    rleDecompress eachValSize minRepeats (rleCompress eachValSize minRepeats inbuf) = inbuf ∧
      (rleCompress eachValSize minRepeats inbuf).length ≤ rleGetBound1 inbuf.length eachValSize := by
  obtain ⟨least, small, saves⟩ := minRepeats_save wide narrow version
  have values : inbuf.length / eachValSize = count := by rw [whole, Nat.mul_div_cancel _ wide]
  have bound := rleCompressLoop_bound wide least small saves count
    (readValues eachValSize count inbuf)
  rw [addedBytes, readValues_length] at bound
  refine ⟨rleDecompress_rleCompress minRepeats wide least small present whole, ?_⟩
  rw [rleCompress, rleGetBound1, values]
  split at bound <;> omega

/-- Markers and other values in turn, each of one byte: the bound is reached. -/
theorem runs_are_restored_within_bound_markers :
    rleDecompress 1 4 (rleCompress 1 4 [0xFE, 1, 0xFE]) = [0xFE, 1, 0xFE] ∧
      (rleCompress 1 4 [0xFE, 1, 0xFE]).length ≤ rleGetBound1 3 1 :=
  runs_are_restored_within_bound 1 4 (by decide) (by decide) (.inl rfl) 3 (by decide) _ rfl

end OpenGauss.CStore
