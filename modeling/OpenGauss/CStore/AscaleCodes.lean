import Mathlib.Data.List.Basic
import Mathlib.Data.List.GetD
import Mathlib.Tactic.Linarith

/-!
# Codes of three bits

The codes of adjusted scales are packed eight to three bytes, the first code highest; the last group
may have fewer codes, and takes only the bytes it needs. The parser unpacks seven codes of a group in
a helper. The eighth code it takes from a byte of its own that is never read, so it is zero for every
full group.
-/
namespace OpenGauss.CStore

open List

section Codes

/-- Pack codes of three bits (`CompactAscaleCodesBy3Bits`); the groups are packed one after the other
and the last codes according to their number. -/
def compactAscaleCodesBy3Bits : List UInt8 → List UInt8
  | v0 :: v1 :: v2 :: v3 :: v4 :: v5 :: v6 :: v7 :: rest =>
    (v0 <<< 5 ||| v1 <<< 2 ||| v2 >>> 1) ::
      ((v2 &&& 1) <<< 7 ||| v3 <<< 4 ||| v4 <<< 1 ||| (v5 &&& 4) >>> 2) ::
        ((v5 &&& 3) <<< 6 ||| v6 <<< 3 ||| v7) :: compactAscaleCodesBy3Bits rest
  | [v0, v1, v2, v3, v4, v5, v6] =>
    [v0 <<< 5 ||| v1 <<< 2 ||| v2 >>> 1,
      (v2 &&& 1) <<< 7 ||| v3 <<< 4 ||| v4 <<< 1 ||| (v5 &&& 4) >>> 2,
      (v5 &&& 3) <<< 6 ||| v6 <<< 3]
  | [v0, v1, v2, v3, v4, v5] =>
    [v0 <<< 5 ||| v1 <<< 2 ||| v2 >>> 1,
      (v2 &&& 1) <<< 7 ||| v3 <<< 4 ||| v4 <<< 1 ||| (v5 &&& 4) >>> 2,
      (v5 &&& 3) <<< 6]
  | [v0, v1, v2, v3, v4] =>
    [v0 <<< 5 ||| v1 <<< 2 ||| v2 >>> 1, (v2 &&& 1) <<< 7 ||| v3 <<< 4 ||| v4 <<< 1]
  | [v0, v1, v2, v3] =>
    [v0 <<< 5 ||| v1 <<< 2 ||| v2 >>> 1, (v2 &&& 1) <<< 7 ||| v3 <<< 4]
  | [v0, v1, v2] => [v0 <<< 5 ||| v1 <<< 2 ||| v2 >>> 1, (v2 &&& 1) <<< 7]
  | [v0, v1] => [v0 <<< 5 ||| v1 <<< 2]
  | [v0] => [v0 <<< 5]
  | [] => []

/-- Unpack seven codes from three bytes (`ParseAscaleCodes3Bytes`). -/
def parseAscaleCodes3Bytes (inBuf : List UInt8) (position : Nat) : List UInt8 :=
  let pack1 := inBuf.getD position 0
  let pack2 := inBuf.getD (position + 1) 0
  let pack3 := inBuf.getD (position + 2) 0
  [pack1 >>> 5, (pack1 >>> 2) &&& 7, (pack1 &&& 3) <<< 1 ||| (pack2 &&& 0x80) >>> 7,
    (pack2 >>> 4) &&& 7, (pack2 >>> 1) &&& 7, (pack2 &&& 1) <<< 2 ||| (pack3 &&& 0xc0) >>> 6,
    (pack3 >>> 3) &&& 7]

/-- Unpack full groups; the third byte of the loop itself stays zero. -/
def parseGroups (inBuf : List UInt8) : Nat → Nat → List UInt8 × Nat
  | 0, position => ([], position)
  | groups + 1, position =>
    let pack3 : UInt8 := 0
    let others := parseGroups inBuf groups (position + 3)
    (parseAscaleCodes3Bytes inBuf position ++ (pack3 &&& 7) :: others.1, others.2)

/-- Unpack the codes that are left. -/
def parseRemain (inBuf : List UInt8) (remain position : Nat) : List UInt8 × Nat :=
  let pack1 := inBuf.getD position 0
  let pack2 := inBuf.getD (position + 1) 0
  let pack3 := inBuf.getD (position + 2) 0
  match remain with
  | 7 => (parseAscaleCodes3Bytes inBuf position, position + 3)
  | 6 =>
    ([pack1 >>> 5, (pack1 >>> 2) &&& 7, (pack1 &&& 3) <<< 1 ||| (pack2 &&& 0x80) >>> 7,
      (pack2 >>> 4) &&& 7, (pack2 >>> 1) &&& 7, (pack2 &&& 1) <<< 2 ||| (pack3 &&& 0xc0) >>> 6],
      position + 3)
  | 5 =>
    ([pack1 >>> 5, (pack1 >>> 2) &&& 7, (pack1 &&& 3) <<< 1 ||| (pack2 &&& 0x80) >>> 7,
      (pack2 >>> 4) &&& 7, (pack2 >>> 1) &&& 7], position + 2)
  | 4 =>
    ([pack1 >>> 5, (pack1 >>> 2) &&& 7, (pack1 &&& 3) <<< 1 ||| (pack2 &&& 0x80) >>> 7,
      (pack2 >>> 4) &&& 7], position + 2)
  | 3 =>
    ([pack1 >>> 5, (pack1 >>> 2) &&& 7, (pack1 &&& 3) <<< 1 ||| (pack2 &&& 0x80) >>> 7],
      position + 2)
  | 2 => ([pack1 >>> 5, (pack1 >>> 2) &&& 7], position + 1)
  | 1 => ([pack1 >>> 5], position + 1)
  | _ => ([], position)

/-- Unpack codes of three bits (`ParseAscaleCodesBy3Bits`): the codes, and how many bytes were
read. -/
def parseAscaleCodesBy3Bits (inBuf : List UInt8) (nOutValues : Nat) : List UInt8 × Nat :=
  let groups := parseGroups inBuf (nOutValues / 8) 0
  let others := parseRemain inBuf (nOutValues % 8) groups.2
  (groups.1 ++ others.1, others.2)

end Codes

section Bytes

-- Every table of codes is decided row by row.
set_option maxRecDepth 10000

theorem code_cases {code : UInt8} (small : code < 8) : ∃ index < 8, code = UInt8.ofNat index :=
  ⟨code.toNat, UInt8.lt_iff_toNat_lt.mp small, UInt8.ofNat_toNat.symm⟩

theorem firstByte_spec {v0 v1 v2 : UInt8} (small0 : v0 < 8) (small1 : v1 < 8) (small2 : v2 < 8) :
    (v0 <<< 5 ||| v1 <<< 2 ||| v2 >>> 1) >>> 5 = v0 ∧
      ((v0 <<< 5 ||| v1 <<< 2 ||| v2 >>> 1) >>> 2) &&& 7 = v1 ∧
      ((v0 <<< 5 ||| v1 <<< 2 ||| v2 >>> 1) &&& 3) <<< 1 = v2 &&& 6 := by
  obtain ⟨i0, i0_lt, rfl⟩ := code_cases small0
  obtain ⟨i1, i1_lt, rfl⟩ := code_cases small1
  obtain ⟨i2, i2_lt, rfl⟩ := code_cases small2
  clear small0 small1 small2
  revert i0 i1 i2
  decide

theorem upperHalf_spec (v2 v3 : UInt8) (small2 : v2 < 8) (small3 : v3 < 8) :
    ∃ high < 16, (v2 &&& 1) <<< 7 ||| v3 <<< 4 = UInt8.ofNat (high * 16) ∧
      (UInt8.ofNat (high * 16) &&& 0x80) >>> 7 = v2 &&& 1 ∧
      (UInt8.ofNat (high * 16) >>> 4) &&& 7 = v3 := by
  obtain ⟨i2, i2_lt, rfl⟩ := code_cases small2
  obtain ⟨i3, i3_lt, rfl⟩ := code_cases small3
  clear small2 small3
  revert i2 i3
  decide

theorem lowerHalf_spec (v4 v5 : UInt8) (small4 : v4 < 8) (small5 : v5 < 8) :
    ∃ low < 16, v4 <<< 1 ||| (v5 &&& 4) >>> 2 = UInt8.ofNat low ∧
      (UInt8.ofNat low >>> 1) &&& 7 = v4 ∧ (UInt8.ofNat low &&& 1) <<< 2 = v5 &&& 4 := by
  obtain ⟨i4, i4_lt, rfl⟩ := code_cases small4
  obtain ⟨i5, i5_lt, rfl⟩ := code_cases small5
  clear small4 small5
  revert i4 i5
  decide

theorem halves_spec {high low : Nat} (high_lt : high < 16) (low_lt : low < 16) :
    let byte : UInt8 := UInt8.ofNat (high * 16) ||| UInt8.ofNat low
    byte &&& (0x80 : UInt8) = UInt8.ofNat (high * 16) &&& (0x80 : UInt8) ∧
      byte >>> 4 = UInt8.ofNat (high * 16) >>> 4 ∧
      (byte >>> 1) &&& (7 : UInt8) = (UInt8.ofNat low >>> 1) &&& (7 : UInt8) ∧
      byte &&& (1 : UInt8) = UInt8.ofNat low &&& (1 : UInt8) := by
  revert low
  revert high
  decide

theorem secondByte_spec {v2 v3 v4 v5 : UInt8} (small2 : v2 < 8) (small3 : v3 < 8) (small4 : v4 < 8)
    (small5 : v5 < 8) :
    (((v2 &&& 1) <<< 7 ||| v3 <<< 4 ||| v4 <<< 1 ||| (v5 &&& 4) >>> 2) &&& 0x80) >>> 7 = v2 &&& 1 ∧
      (((v2 &&& 1) <<< 7 ||| v3 <<< 4 ||| v4 <<< 1 ||| (v5 &&& 4) >>> 2) >>> 4) &&& 7 = v3 ∧
      (((v2 &&& 1) <<< 7 ||| v3 <<< 4 ||| v4 <<< 1 ||| (v5 &&& 4) >>> 2) >>> 1) &&& 7 = v4 ∧
      (((v2 &&& 1) <<< 7 ||| v3 <<< 4 ||| v4 <<< 1 ||| (v5 &&& 4) >>> 2) &&& 1) <<< 2 =
        v5 &&& 4 := by
  obtain ⟨high, high_lt, upper, third, fourth⟩ := upperHalf_spec v2 v3 small2 small3
  obtain ⟨low, low_lt, lower, fifth, sixth⟩ := lowerHalf_spec v4 v5 small4 small5
  obtain ⟨top, shifted, middle, bottom⟩ := halves_spec high_lt low_lt
  rw [UInt8.or_assoc, upper, lower, top, shifted, middle, bottom]
  exact ⟨third, fourth, fifth, sixth⟩

theorem thirdByte_spec {v5 v6 v7 : UInt8} (small5 : v5 < 8) (small6 : v6 < 8) (small7 : v7 < 8) :
    (((v5 &&& 3) <<< 6 ||| v6 <<< 3 ||| v7) &&& 0xc0) >>> 6 = v5 &&& 3 ∧
      (((v5 &&& 3) <<< 6 ||| v6 <<< 3 ||| v7) >>> 3) &&& 7 = v6 := by
  obtain ⟨i5, i5_lt, rfl⟩ := code_cases small5
  obtain ⟨i6, i6_lt, rfl⟩ := code_cases small6
  obtain ⟨i7, i7_lt, rfl⟩ := code_cases small7
  clear small5 small6 small7
  revert i5 i6 i7
  decide

theorem split_spec {code : UInt8} (small : code < 8) :
    (code &&& 6) ||| (code &&& 1) = code ∧ (code &&& 4) ||| (code &&& 3) = code := by
  obtain ⟨index, index_lt, rfl⟩ := code_cases small
  revert index
  decide

end Bytes

section Groups

/-- The codes without the eighth of every full group. -/
def withoutEighth : List UInt8 → List UInt8
  | v0 :: v1 :: v2 :: v3 :: v4 :: v5 :: v6 :: _ :: rest =>
    v0 :: v1 :: v2 :: v3 :: v4 :: v5 :: v6 :: 0 :: withoutEighth rest
  | codes => codes

variable (codes : List UInt8) (front behind : List UInt8)

theorem withoutEighth_short (short : ∀ v0 v1 v2 v3 v4 v5 v6 v7 rest,
      codes = v0 :: v1 :: v2 :: v3 :: v4 :: v5 :: v6 :: v7 :: rest → False) :
    codes.length < 8 ∧ withoutEighth codes = codes := by
  rcases codes with _ | ⟨v0, _ | ⟨v1, _ | ⟨v2, _ | ⟨v3, _ | ⟨v4, _ | ⟨v5, _ | ⟨v6, _ |
    ⟨v7, rest⟩⟩⟩⟩⟩⟩⟩⟩
  case cons.cons.cons.cons.cons.cons.cons.cons =>
    exact absurd rfl (short v0 v1 v2 v3 v4 v5 v6 v7 rest)
  all_goals exact ⟨by simp, rfl⟩

theorem getD_behind (skip : Nat) :
    (front ++ behind).getD (front.length + skip) 0 = behind.getD skip 0 := by
  rw [getD_append_right _ _ _ _ (Nat.le_add_right _ _), Nat.add_sub_cancel_left]

/-- Of three bytes seven codes are parsed. -/
theorem parseAscaleCodes3Bytes_group (v0 v1 v2 v3 v4 v5 v6 v7 : UInt8)
    (small : ∀ code ∈ [v0, v1, v2, v3, v4, v5, v6, v7], code < 8) :
    parseAscaleCodes3Bytes (front ++ (v0 <<< 5 ||| v1 <<< 2 ||| v2 >>> 1) ::
      ((v2 &&& 1) <<< 7 ||| v3 <<< 4 ||| v4 <<< 1 ||| (v5 &&& 4) >>> 2) ::
        ((v5 &&& 3) <<< 6 ||| v6 <<< 3 ||| v7) :: behind) front.length =
      [v0, v1, v2, v3, v4, v5, v6] := by
  simp only [forall_mem_cons] at small
  obtain ⟨small0, small1, small2, small3, small4, small5, small6, small7, _⟩ := small
  obtain ⟨first, second, third⟩ := firstByte_spec small0 small1 small2
  obtain ⟨lowest, fourth, fifth, highest⟩ :=
    secondByte_spec small2 small3 small4 small5
  obtain ⟨lower, seventh⟩ := thirdByte_spec small5 small6 small7
  have read := getD_behind front ((v0 <<< 5 ||| v1 <<< 2 ||| v2 >>> 1) ::
    ((v2 &&& 1) <<< 7 ||| v3 <<< 4 ||| v4 <<< 1 ||| (v5 &&& 4) >>> 2) ::
      ((v5 &&& 3) <<< 6 ||| v6 <<< 3 ||| v7) :: behind)
  have here := read 0
  rw [Nat.add_zero] at here
  rw [parseAscaleCodes3Bytes, here, read 1, read 2]
  simp only [getD_cons_zero, getD_cons_succ]
  rw [first, second, third, lowest, fourth, fifth, highest, lower, seventh,
    (split_spec small2).1, (split_spec small5).2]

/-- The last codes are unpacked, when there are fewer than eight. -/
theorem parseRemain_codes (front codes : List UInt8) (few : codes.length < 8)
    (small : ∀ code ∈ codes, code < 8) :
    parseRemain (front ++ compactAscaleCodesBy3Bits codes) codes.length front.length =
      (codes, front.length + (compactAscaleCodesBy3Bits codes).length) := by
  have zero : (0 : UInt8) < 8 := by decide
  have right : (0 : UInt8) >>> 1 = 0 ∧ ((0 : UInt8) &&& 4) >>> 2 = 0 := by decide
  have left : (0 : UInt8) <<< 1 = 0 ∧ (0 : UInt8) <<< 2 = 0 ∧ (0 : UInt8) <<< 3 = 0 ∧
    (0 : UInt8) <<< 4 = 0 := by decide
  have read := getD_behind front (compactAscaleCodesBy3Bits codes)
  have here := read 0
  rw [Nat.add_zero] at here
  match codes, few with
  | [], _ => rfl
  | [v0], _ =>
    simp only [forall_mem_cons] at small
    obtain ⟨first, _⟩ := firstByte_spec small.1 zero zero
    simp only [right.1, left.2.1, UInt8.or_zero] at first
    simp only [compactAscaleCodesBy3Bits] at here ⊢
    simp only [parseRemain, here, length_singleton, getD_cons_zero, first]
  | [v0, v1], _ =>
    simp only [forall_mem_cons] at small
    obtain ⟨first, second, _⟩ := firstByte_spec small.1 small.2.1 zero
    simp only [right.1, UInt8.or_zero] at first second
    simp only [compactAscaleCodesBy3Bits] at here ⊢
    simp only [parseRemain, here, length_cons, length_nil, getD_cons_zero, first, second]
  | [v0, v1, v2], _ =>
    simp only [forall_mem_cons] at small
    obtain ⟨small0, small1, small2, _⟩ := small
    obtain ⟨first, second, third⟩ := firstByte_spec small0 small1 small2
    obtain ⟨lowest, _⟩ := secondByte_spec small2 zero zero zero
    simp only [right.2, left.1, left.2.2.2, UInt8.or_zero] at lowest
    simp only [compactAscaleCodesBy3Bits] at here read ⊢
    simp only [parseRemain, here, read 1, length_cons, length_nil, getD_cons_zero,
      getD_cons_succ, first, second, third, lowest, (split_spec small2).1]
  | [v0, v1, v2, v3], _ =>
    simp only [forall_mem_cons] at small
    obtain ⟨small0, small1, small2, small3, _⟩ := small
    obtain ⟨first, second, third⟩ := firstByte_spec small0 small1 small2
    obtain ⟨lowest, fourth, _⟩ := secondByte_spec small2 small3 zero zero
    simp only [right.2, left.1, UInt8.or_zero] at lowest fourth
    simp only [compactAscaleCodesBy3Bits] at here read ⊢
    simp only [parseRemain, here, read 1, length_cons, length_nil, getD_cons_zero,
      getD_cons_succ, first, second, third, lowest, fourth, (split_spec small2).1]
  | [v0, v1, v2, v3, v4], _ =>
    simp only [forall_mem_cons] at small
    obtain ⟨small0, small1, small2, small3, small4, _⟩ := small
    obtain ⟨first, second, third⟩ := firstByte_spec small0 small1 small2
    obtain ⟨lowest, fourth, fifth, _⟩ := secondByte_spec small2 small3 small4 zero
    simp only [right.2, UInt8.or_zero] at lowest fourth fifth
    simp only [compactAscaleCodesBy3Bits] at here read ⊢
    simp only [parseRemain, here, read 1, length_cons, length_nil, getD_cons_zero,
      getD_cons_succ, first, second, third, lowest, fourth, fifth, (split_spec small2).1]
  | [v0, v1, v2, v3, v4, v5], _ =>
    simp only [forall_mem_cons] at small
    obtain ⟨small0, small1, small2, small3, small4, small5, _⟩ := small
    obtain ⟨first, second, third⟩ := firstByte_spec small0 small1 small2
    obtain ⟨lowest, fourth, fifth, highest⟩ :=
      secondByte_spec small2 small3 small4 small5
    obtain ⟨lower, _⟩ := thirdByte_spec small5 zero zero
    simp only [left.2.2.1, UInt8.or_zero] at lower
    simp only [compactAscaleCodesBy3Bits] at here read ⊢
    simp only [parseRemain, here, read 1, read 2, length_cons, length_nil,
      getD_cons_zero, getD_cons_succ, first, second, third, lowest, fourth, fifth,
      highest, lower, (split_spec small2).1, (split_spec small5).2]
  | [v0, v1, v2, v3, v4, v5, v6], _ =>
    have all : ∀ code ∈ [v0, v1, v2, v3, v4, v5, v6, 0], code < 8 := by
      intro code member
      rw [show [v0, v1, v2, v3, v4, v5, v6, 0] = [v0, v1, v2, v3, v4, v5, v6] ++ [0] from rfl,
        mem_append, mem_singleton] at member
      rcases member with inside | rfl
      · exact small code inside
      · exact zero
    have group := parseAscaleCodes3Bytes_group front [] v0 v1 v2 v3 v4 v5 v6 0 all
    simp only [UInt8.or_zero] at group
    simp only [compactAscaleCodesBy3Bits, parseRemain, length_cons, length_nil, group]

/-- All groups are parsed to their codes without the eighth. -/
theorem parse_groups (codes front : List UInt8) (small : ∀ code ∈ codes, code < 8) :
    let inBuf := front ++ compactAscaleCodesBy3Bits codes
    let groups := parseGroups inBuf (codes.length / 8) front.length
    let others := parseRemain inBuf (codes.length % 8) groups.2
    groups.1 ++ others.1 = withoutEighth codes ∧
      others.2 = front.length + (compactAscaleCodesBy3Bits codes).length := by
  induction codes using withoutEighth.induct generalizing front with
  | case1 v0 v1 v2 v3 v4 v5 v6 v7 rest ih =>
    have group := parseAscaleCodes3Bytes_group front (compactAscaleCodesBy3Bits rest) v0 v1 v2 v3
      v4 v5 v6 v7 (fun code member => small code (by
        exact mem_append_left _ member))
    have later := ih (front ++ [v0 <<< 5 ||| v1 <<< 2 ||| v2 >>> 1,
      (v2 &&& 1) <<< 7 ||| v3 <<< 4 ||| v4 <<< 1 ||| (v5 &&& 4) >>> 2,
      (v5 &&& 3) <<< 6 ||| v6 <<< 3 ||| v7]) (fun code member => small code (by
        rw [show v0 :: v1 :: v2 :: v3 :: v4 :: v5 :: v6 :: v7 :: rest =
          [v0, v1, v2, v3, v4, v5, v6, v7] ++ rest from rfl]
        exact mem_append_right _ member))
    have length : (v0 :: v1 :: v2 :: v3 :: v4 :: v5 :: v6 :: v7 :: rest).length =
        rest.length + 8 := rfl
    have count : (rest.length + 8) / 8 = rest.length / 8 + 1 := by lia
    have left : (rest.length + 8) % 8 = rest.length % 8 := by lia
    simp only [append_assoc, cons_append, nil_append, length_append,
      length_cons, length_nil] at later
    dsimp only
    rw [length, count, left, parseGroups, compactAscaleCodesBy3Bits, group]
    obtain ⟨values, consumed⟩ := later
    refine ⟨?_, ?_⟩
    · rw [withoutEighth, ← values]
      rfl
    · simp only [length_cons]
      lia
  | case2 codes short =>
    obtain ⟨few, same⟩ := withoutEighth_short codes short
    have tail := parseRemain_codes front codes few small
    dsimp only
    rw [Nat.div_eq_of_lt few, Nat.mod_eq_of_lt few, parseGroups]
    rw [tail, same]
    exact ⟨rfl, rfl⟩

/-- Nothing is lost exactly if every eighth code is zero. -/
theorem withoutEighth_eq_iff :
    withoutEighth codes = codes ↔ ∀ index < codes.length, index % 8 = 7 → codes[index]? = some 0 := by
  induction codes using withoutEighth.induct with
  | case1 v0 v1 v2 v3 v4 v5 v6 v7 rest ih =>
    rw [withoutEighth]
    simp only [List.cons.injEq, true_and]
    rw [ih]
    constructor
    · rintro ⟨zero, later⟩ index below eighth
      rcases Nat.lt_or_ge index 8 with first | behind
      · have seven : index = 7 := by lia
        subst seven
        rw [zero]
        rfl
      · obtain ⟨skip, rfl⟩ := Nat.exists_eq_add_of_le behind
        simp only [length_cons] at below
        rw [Nat.add_comm 8 skip]
        exact later skip (by grind) (by lia)
    · intro all
      refine ⟨?_, fun index below eighth => ?_⟩
      · have zero := all 7 (by simp) (by decide)
        exact (Option.some.inj zero).symm
      · exact all (index + 8) (by simp only [length_cons]; grind) (by lia)
  | case2 codes short =>
    obtain ⟨few, same⟩ := withoutEighth_short codes short
    exact ⟨fun _ index below eighth => by omega, fun _ => same⟩

/-- The codes come back, from exactly the bytes they were packed into, if and only if the eighth code
of every full group is zero. -/
theorem ascale_codes_round_trip (codes : List UInt8) (small : ∀ code ∈ codes, code < 8) :
    parseAscaleCodesBy3Bits (compactAscaleCodesBy3Bits codes) codes.length =
        (codes, (compactAscaleCodesBy3Bits codes).length) ↔
      ∀ index < codes.length, index % 8 = 7 → codes[index]? = some 0 := by
  obtain ⟨values, consumed⟩ := parse_groups codes [] small
  simp only [nil_append, length_nil, Nat.zero_add] at values consumed
  rw [← withoutEighth_eq_iff, parseAscaleCodesBy3Bits, values, consumed, Prod.mk.injEq]
  exact ⟨fun both => both.1, fun same => ⟨same, rfl⟩⟩

/-- Nine codes, the eighth of which is zero. -/
theorem ascale_codes_round_trip_zero :
    parseAscaleCodesBy3Bits (compactAscaleCodesBy3Bits [1, 2, 3, 4, 5, 6, 7, 0, 6]) 9 =
      ([1, 2, 3, 4, 5, 6, 7, 0, 6], 4) :=
  (ascale_codes_round_trip [1, 2, 3, 4, 5, 6, 7, 0, 6] (by simp)).mpr (by decide)

/-- Eight ones come back as seven ones and a zero. -/
theorem ascale_codes_lose_eighth :
    parseAscaleCodesBy3Bits (compactAscaleCodesBy3Bits [1, 1, 1, 1, 1, 1, 1, 1]) 8 =
        ([1, 1, 1, 1, 1, 1, 1, 0], 3) ∧
      (parseAscaleCodesBy3Bits (compactAscaleCodesBy3Bits [1, 1, 1, 1, 1, 1, 1, 1]) 8).1 ≠
        [1, 1, 1, 1, 1, 1, 1, 1] := by
  decide

end Groups

end OpenGauss.CStore
