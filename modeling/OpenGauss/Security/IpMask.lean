import OpenGauss.Security.IpRange

/-!
# Parsing an address with a mask length

`parse_slash` reads `address/cidr` and masks the words of the address by two tables of 33 entries.
The family is told by the second word of the address, the last entry of the table for the end of
the range is not the one of a mask without host bits, and the result of the masking is dropped. The
module says for which addresses and lengths the range is still the right one.
-/

namespace OpenGauss.Security

open Option

/-- What `inet_pton` makes of a text in the two families, in host order. -/
structure InetPton where
  six : List Char → Option IPV6
  four : List Char → Option (BitVec 32)

/-- The entry of `MASK_FROM_LUT` for a number of leading bits. -/
def maskFromLut (cidr : Nat) : BitVec 32 :=
  if cidr = 0 ∨ cidr = 32 then 0xFFFFFFFF#32 else 0xFFFFFFFF#32 <<< (32 - cidr)

/-- The entry of `MASK_TO_LUT` for a number of leading bits. -/
def maskToLut (cidr : Nat) : BitVec 32 :=
  if cidr = 0 then 0#32
  else if cidr = 32 then 0xFFFFFFFF#32
  else ~~~(0xFFFFFFFF#32 <<< (32 - cidr))

/-- Mask both ends of a range; no result if the length is not one of the family. -/
def maskRange (range : Range) (cidr : Nat) : Option Range :=
  let first := range.first
  let last := range.last
  let complement := cidr % 32
  if first.b = mappedWord then
    if cidr < 1 ∨ 32 < cidr then none
    else some { first := { first with a := first.a &&& maskFromLut cidr }
                last := { last with a := last.a ||| maskToLut cidr } }
  else if cidr < 1 ∨ 128 < cidr then none
  else if 96 < cidr then
    some { first := { first with a := first.a &&& maskFromLut complement }
           last := { last with a := last.a ||| maskToLut complement } }
  else if 64 < cidr then
    some { first := { first with a := 0, b := first.b &&& maskFromLut complement }
           last := { last with a := 0xFFFFFFFF#32, b := last.b ||| maskToLut complement } }
  else if 32 < cidr then
    some { first := { first with a := 0, b := 0, c := first.c &&& maskFromLut complement }
           last := { last with
             a := 0xFFFFFFFF#32, b := 0xFFFFFFFF#32, c := last.c ||| maskToLut complement } }
  else
    some { first := { a := 0, b := 0, c := 0, d := first.d &&& maskFromLut complement }
           last := { a := 0xFFFFFFFF#32, b := 0xFFFFFFFF#32, c := 0xFFFFFFFF#32,
                     d := last.d ||| maskToLut complement } }

/-- Copy a text into a buffer of `IP_MAX_LEN` bytes without its spaces. -/
def copyWithoutSpaces (original : List Char) : List Char :=
  if original.length = 0 ∨ 128 < original.length then []
  else original.filter (· ≠ ' ')

/-- The number that the digits at the start of a text give. -/
def leadingNumber (text : List Char) : Nat :=
  (text.takeWhile Char.isDigit).foldl (fun value digit => 10 * value + (digit.toNat - 48)) 0

/-- Whether `isspace` holds of a character. -/
def isSpace (character : Char) : Bool :=
  character == ' ' || (9 ≤ character.toNat && character.toNat ≤ 13)

/-- The number at the start of a text, after white space and a sign. -/
def writtenNumber (text : List Char) : Int :=
  match text.dropWhile isSpace with
  | '-' :: rest => -(leadingNumber rest : Int)
  | '+' :: rest => leadingNumber rest
  | rest => leadingNumber rest

/-- The number at the start of a text as a `long` that stops at its bounds, cut to an `int`. -/
def atoi (text : List Char) : Int :=
  (max (-2 ^ 63) (min (writtenNumber text) (2 ^ 63 - 1)) + 2 ^ 31) % 2 ^ 32 - 2 ^ 31

/-- The address of a text, of the first family that reads it. -/
def strToIp (inet : InetPton) (text : List Char) : Option IPV6 :=
  match inet.six text with
  | some ip => some ip
  | none => (inet.four text).map fun a => { a := a, b := mappedWord, c := 0, d := 0 }

/-- Read `address/cidr`, with the slash at the given place. The length is cut to an
`unsigned short`, and the outcome of the masking is dropped. -/
def parseSlash (inet : InetPton) (range : List Char) (slash : Nat) : Option Range :=
  if 100 < range.length then none
  else
    let cidr := (atoi (range.drop (slash + 1)) % 65536).toNat
    (strToIp inet (copyWithoutSpaces (range.take slash))).map fun ip =>
      (maskRange { first := ip, last := ip } cidr).getD { first := ip, last := ip }

/-- An address of one of the two families. -/
inductive Address where
  | ipv4 (a : BitVec 32)
  | ipv6 (ip : IPV6)

/-- The number of bits of an address. -/
def Address.width : Address → Nat
  | .ipv4 _ => 32
  | .ipv6 _ => 128

/-- The address as it is stored; one of the first family is mapped into the second. -/
def Address.ip : Address → IPV6
  | .ipv4 a => { a := a, b := mappedWord, c := 0, d := 0 }
  | .ipv6 ip => ip

/-- The text is that of an address. -/
def Address.ReadFrom (inet : InetPton) (text : List Char) : Address → Prop
  | .ipv4 a => inet.six text = none ∧ inet.four text = some a
  | .ipv6 ip => inet.six text = some ip

/-- The bits of an address. -/
def IPV6.bits (ip : IPV6) : BitVec 128 := ip.d ++ ip.c ++ ip.b ++ ip.a

/-- The range goes from the address with all its host bits cleared to the address with all its host
bits set. -/
structure IsBlock (range : Range) (ip : IPV6) (host : Nat) : Prop where
  cleared : ∀ i < 128, range.first.bits.getLsbD i = (decide (host ≤ i) && ip.bits.getLsbD i)
  filled : ∀ i < 128, range.last.bits.getLsbD i = (decide (i < host) || ip.bits.getLsbD i)

/-- The length is one of the family of the address. -/
def ValidLength (address : Address) (length : Int) : Prop := 1 ≤ length ∧ length ≤ address.width

/-- The outcome is the range of the leading bits of the address if their number is one of the
family, and a rejection otherwise. -/
def ParsesRight (outcome : Option Range) (address : Address) (length : Int) : Prop :=
  (ValidLength address length →
    ∃ range, outcome = some range ∧ IsBlock range address.ip (address.width - length.toNat)) ∧
  (¬ValidLength address length → outcome = none)

/-- The tables and the test of the family suit the address and the length. -/
def SuitsMask (address : Address) (length : Int) : Prop :=
  match address with
  | .ipv4 a => length < 32 ∨ a = 0xFFFFFFFF#32
  | .ipv6 ip => ip.b ≠ mappedWord ∨ length = 128

variable {ip : IPV6} {address : Address} {length : Int}

/-- The bits of an address are those of its words. -/
theorem IPV6.bits_getLsbD (ip : IPV6) (i : Nat) : ip.bits.getLsbD i = if i < 32 then ip.a.getLsbD i
      else if i < 64 then ip.b.getLsbD (i - 32) else if i < 96 then ip.c.getLsbD (i - 64)
      else ip.d.getLsbD (i - 96) := by
  have second : i - 32 < 32 ↔ i < 64 ∨ i < 32 := by omega
  have places : i - 32 - 32 = i - 64 ∧ i - 64 - 32 = i - 96 := by lia
  simp only [IPV6.bits, BitVec.getLsbD_append]
  by_cases low : i < 32
  · rw [if_pos low, if_pos low]
  · rw [if_neg low, if_neg low]
    by_cases next : i < 64
    · rw [if_pos (second.mpr (.inl next)), if_pos next]
    · rw [if_neg (fun below => (second.mp below).elim next low), if_neg next, places.1]
      by_cases upper : i < 96
      · rw [if_pos (by omega), if_pos upper]
      · rw [if_neg (by omega), if_neg upper, places.2]

/-- One word of both ends of a block: its host bits are cleared in the first and set in the last. -/
def WordMasked (first last word : BitVec 32) (below host : Nat) : Prop :=
  ∀ i < 32, first.getLsbD i = (decide (host ≤ below + i) && word.getLsbD i) ∧
    last.getLsbD i = (decide (below + i < host) || word.getLsbD i)

section words

variable {word : BitVec 32} {below host cidr : Nat}

theorem ones_getLsbD {i : Nat} (small : i < 32) : (0xFFFFFFFF#32).getLsbD i = true := by
  have allOnes : 0xFFFFFFFF#32 = BitVec.allOnes 32 := rfl
  rw [allOnes, BitVec.getLsbD_allOnes]
  exact decide_eq_true small

theorem shifted_getLsbD {i : Nat} (small : i < 32) (host : Nat) :
    (0xFFFFFFFF#32 <<< host).getLsbD i = decide (host ≤ i) := by
  rw [BitVec.getLsbD_shiftLeft, decide_eq_true small]
  by_cases upper : host ≤ i
  · rw [ones_getLsbD (Nat.lt_of_le_of_lt (Nat.sub_le i host) small)]
    simp [upper]
  · simp [upper]

theorem maskFromLut_getLsbD (short : cidr < 32) {i : Nat} (small : i < 32) :
    (maskFromLut cidr).getLsbD i = decide ((32 - cidr) % 32 ≤ i) := by
  have notFull : cidr ≠ 32 := Nat.ne_of_lt short
  by_cases zero : cidr = 0
  · rw [maskFromLut, if_pos (.inl zero), ones_getLsbD small, zero]
    simp
  · have host : (32 - cidr) % 32 = 32 - cidr := Nat.mod_eq_of_lt (by omega)
    rw [maskFromLut, if_neg (by simp [zero, notFull]), shifted_getLsbD small, host]

theorem maskToLut_getLsbD (short : cidr < 32) {i : Nat} (small : i < 32) :
    (maskToLut cidr).getLsbD i = decide (i < (32 - cidr) % 32) := by
  have notFull : cidr ≠ 32 := Nat.ne_of_lt short
  by_cases zero : cidr = 0
  · rw [maskToLut, zero]
    simp
  · have host : (32 - cidr) % 32 = 32 - cidr := Nat.mod_eq_of_lt (by omega)
    rw [maskToLut, if_neg zero, if_neg notFull, BitVec.getLsbD_not, shifted_getLsbD small, host]
    rw [decide_eq_true small, Bool.true_and, ← decide_not]
    simp only [Nat.not_le]

theorem wordMasked_lut (short : cidr < 32) (border : host = below + (32 - cidr) % 32) :
    WordMasked (word &&& maskFromLut cidr) (word ||| maskToLut cidr) word below host := by
  intro i small
  have upper : host ≤ below + i ↔ (32 - cidr) % 32 ≤ i := by omega
  have lower : below + i < host ↔ i < (32 - cidr) % 32 := by grind
  constructor
  · rw [BitVec.getLsbD_and, maskFromLut_getLsbD short small, Bool.and_comm]
    simp only [upper]
  · rw [BitVec.getLsbD_or, maskToLut_getLsbD short small, Bool.or_comm]
    simp only [lower]

theorem wordMasked_host (inside : below + 32 ≤ host) :
    WordMasked 0 0xFFFFFFFF#32 word below host := by
  intro i small
  have cleared : ¬host ≤ below + i := by omega
  have filled : below + i < host := by omega
  rw [ones_getLsbD small]
  simp [filled]

theorem wordMasked_kept (outside : host ≤ below) : WordMasked word word word below host := by
  intro i _
  have kept : host ≤ below + i := by omega
  have unfilled : ¬below + i < host := by omega
  simp [kept]

/-- Words that are masked make a block. -/
theorem isBlock_of_words {first last : IPV6} (lowest : WordMasked first.a last.a ip.a 0 host)
    (second : WordMasked first.b last.b ip.b 32 host)
    (third : WordMasked first.c last.c ip.c 64 host)
    (highest : WordMasked first.d last.d ip.d 96 host) :
    IsBlock { first := first, last := last } ip host := by
  have both : ∀ i < 128, first.bits.getLsbD i = (decide (host ≤ i) && ip.bits.getLsbD i) ∧
        last.bits.getLsbD i = (decide (i < host) || ip.bits.getLsbD i) := by
    intro i small
    rw [first.bits_getLsbD, last.bits_getLsbD, ip.bits_getLsbD]
    by_cases lower : i < 32
    · have masked := lowest i lower
      rw [Nat.zero_add] at masked
      simpa only [if_pos lower] using masked
    · by_cases next : i < 64
      · have masked := second (i - 32) (by omega)
        rw [show 32 + (i - 32) = i by omega] at masked
        simpa only [if_neg lower, if_pos next] using masked
      · by_cases upper : i < 96
        · have masked := third (i - 64) (by omega)
          rw [show 64 + (i - 64) = i by grind] at masked
          simpa only [if_neg lower, if_neg next, if_pos upper] using masked
        · have masked := highest (i - 96) (by omega)
          rw [show 96 + (i - 96) = i by grind] at masked
          simpa only [if_neg lower, if_neg next, if_neg upper] using masked
  exact { cleared := fun i small => (both i small).1, filled := fun i small => (both i small).2 }

end words

/-- The range of an IPv6 address. -/
theorem maskRange_six {cidr : Nat} (family : ip.b ≠ mappedWord) (valid : 1 ≤ cidr ∧ cidr ≤ 128) :
    ∃ range, maskRange { first := ip, last := ip } cidr = some range ∧
      IsBlock range ip (128 - cidr) := by
  have accepted : ¬(cidr < 1 ∨ 128 < cidr) := by omega
  have short : cidr % 32 < 32 := Nat.mod_lt cidr (by decide)
  simp only [maskRange, if_neg family, if_neg accepted]
  by_cases lowest : 96 < cidr
  · rw [if_pos lowest]
    refine ⟨_, rfl, isBlock_of_words (wordMasked_lut short ?_) (wordMasked_kept ?_)
      (wordMasked_kept ?_) (wordMasked_kept ?_)⟩ <;> lia
  · rw [if_neg lowest]
    by_cases second : 64 < cidr
    · rw [if_pos second]
      refine ⟨_, rfl, isBlock_of_words (wordMasked_host ?_) (wordMasked_lut short ?_)
        (wordMasked_kept ?_) (wordMasked_kept ?_)⟩ <;> lia
    · rw [if_neg second]
      by_cases third : 32 < cidr
      · rw [if_pos third]
        refine ⟨_, rfl, isBlock_of_words (wordMasked_host ?_) (wordMasked_host ?_)
          (wordMasked_lut short ?_) (wordMasked_kept ?_)⟩ <;> lia
      · rw [if_neg third]
        refine ⟨_, rfl, isBlock_of_words (wordMasked_host ?_) (wordMasked_host ?_)
          (wordMasked_host ?_) (wordMasked_lut short ?_)⟩ <;> grind

/-- A mapped address is masked to a block of the first family, unless the table fills an address
with a bit left. -/
theorem maskRange_four {cidr : Nat} (family : ip.b = mappedWord) (valid : 1 ≤ cidr ∧ cidr ≤ 32)
    (suits : cidr < 32 ∨ ip.a = 0xFFFFFFFF#32) :
    ∃ range, maskRange { first := ip, last := ip } cidr = some range ∧
      IsBlock range ip (32 - cidr) := by
  have accepted : ¬(cidr < 1 ∨ 32 < cidr) := by omega
  simp only [maskRange, if_pos family, if_neg accepted]
  refine ⟨_, rfl, isBlock_of_words ?_ (wordMasked_kept ?_) (wordMasked_kept ?_)
    (wordMasked_kept ?_)⟩
  · by_cases short : cidr < 32
    · exact wordMasked_lut short (by grind)
    · have full : cidr = 32 := by omega
      have ones : ip.a = 0xFFFFFFFF#32 := suits.resolve_left short
      have unchanged : ip.a &&& maskFromLut cidr = ip.a ∧ ip.a ||| maskToLut cidr = ip.a := by
        rw [ones, full]
        decide
      rw [unchanged.1, unchanged.2, full]
      exact wordMasked_kept (by decide)
  all_goals omega

theorem cidr_of_written {text : List Char} (valid : ValidLength address (writtenNumber text)) :
    (atoi text % 65536).toNat = (writtenNumber text).toNat ∧
      1 ≤ (writtenNumber text).toNat ∧ (writtenNumber text).toNat ≤ address.width := by
  obtain ⟨positive, within⟩ := valid
  have narrow : address.width ≤ 128 := by cases address <;> simp [Address.width]
  have read : atoi text = writtenNumber text := by
    rw [atoi]
    lia
  refine ⟨?_, by lia, by lia⟩
  rw [read, Int.emod_eq_of_lt (by omega) (by omega)]

theorem strToIp_of_readFrom {inet : InetPton} {text : List Char}
    (reads : address.ReadFrom inet text) : strToIp inet text = some address.ip := by
  cases address with
  | ipv4 a =>
    obtain ⟨notSix, four⟩ := reads
    rw [strToIp, notSix, four]
    rfl
  | ipv6 ip =>
    have six : inet.six text = some ip := reads
    rw [strToIp, six]
    rfl

/-- Where the mask suits, the range is the block. -/
theorem maskRange_suits {cidr : Nat} (valid : 1 ≤ cidr ∧ cidr ≤ address.width)
    (suits : SuitsMask address cidr) :
    ∃ range, (maskRange { first := address.ip, last := address.ip } cidr).getD
        { first := address.ip, last := address.ip } = range ∧
      IsBlock range address.ip (address.width - cidr) := by
  cases address with
  | ipv4 a =>
    have short : cidr < 32 ∨ a = 0xFFFFFFFF#32 := suits.imp_left fun below => by omega
    have family : (Address.ipv4 a).ip.b = mappedWord := rfl
    obtain ⟨range, masked, block⟩ := maskRange_four family valid short
    rw [masked]
    exact ⟨range, rfl, block⟩
  | ipv6 ip =>
    by_cases family : ip.b = mappedWord
    · have whole : cidr = 128 := by
        have length : (cidr : Int) = 128 := suits.resolve_left (fun other => other family)
        omega
      have dropped : maskRange { first := ip, last := ip } cidr = none := by
        rw [whole, maskRange, if_pos family, if_pos (by decide)]
      rw [Address.ip, dropped, whole]
      have noHost : ∀ below, (Address.ipv6 ip).width - 128 ≤ below := by
        simp [Address.width]
      exact ⟨_, rfl, isBlock_of_words (wordMasked_kept (noHost 0)) (wordMasked_kept (noHost 32))
        (wordMasked_kept (noHost 64)) (wordMasked_kept (noHost 96))⟩
    · obtain ⟨range, masked, block⟩ := maskRange_six family valid
      rw [Address.ip, masked]
      exact ⟨range, rfl, block⟩

/-- Where the range is the block, the mask suits. -/
theorem suits_of_isBlock {cidr : Nat} (valid : 1 ≤ cidr ∧ cidr ≤ address.width)
    (block : IsBlock ((maskRange { first := address.ip, last := address.ip } cidr).getD
      { first := address.ip, last := address.ip }) address.ip (address.width - cidr)) :
    SuitsMask address cidr := by
  cases address with
  | ipv4 a =>
    by_cases short : cidr < 32
    · exact .inl (by omega)
    · have full : cidr = 32 := le_antisymm valid.2 (Nat.le_of_not_lt short)
      right
      apply BitVec.eq_of_getLsbD_eq
      intro i small
      -- The last entry of the table sets every bit, a length of 32 asks for those of the address.
      have set := block.filled i (by omega)
      rw [full, IPV6.bits_getLsbD, IPV6.bits_getLsbD, if_pos small, if_pos small] at set
      have ones : (a ||| maskToLut 32).getLsbD i = true := by
        rw [BitVec.getLsbD_or, show maskToLut 32 = 0xFFFFFFFF#32 from rfl, ones_getLsbD small,
          Bool.or_true]
      have kept : (a ||| maskToLut 32).getLsbD i = a.getLsbD i := by
        simpa [maskRange, Address.ip, Address.width] using set
      rw [← kept, ones, ones_getLsbD small]
  | ipv6 ip =>
    by_cases family : ip.b = mappedWord
    · right
      by_contra shorter
      have below : cidr < 128 := lt_of_le_of_ne valid.2 (fun whole => shorter (by omega))
      by_cases short : cidr ≤ 32
      · -- The second word still marks the family, where it should be cleared.
        have cleared := block.cleared 32 (by decide)
        have accepted : ¬(cidr < 1 ∨ 32 < cidr) := by omega
        rw [Address.ip, maskRange, if_pos family, if_neg accepted, IPV6.bits_getLsbD] at cleared
        have marked : ip.b[0] = true := by
          rw [← BitVec.getLsbD_eq_getElem, family]
          decide
        have host : ¬128 - cidr ≤ 32 := by omega
        simp [Address.width, marked, host] at cleared
      · -- The failed masking leaves both ends at the address, which differ in the lowest bit.
        have dropped : maskRange { first := ip, last := ip } cidr = none := by
          rw [maskRange, if_pos family, if_pos (.inr (Nat.lt_of_not_le short))]
        have cleared := block.cleared 0 (by decide)
        have set := block.filled 0 (by decide)
        have host : ¬128 - cidr ≤ 0 ∧ 0 < 128 - cidr := by omega
        rw [Address.ip, dropped] at cleared set
        simp only [Address.width, host.1, host.2, getD_none] at cleared set
        rw [cleared] at set
        exact Bool.false_ne_true set
    · exact .inl family

/-- The parsing of an address with a mask length is right exactly where the length is one of the
family and suits the address, or the text is too long and the length is none of the family. -/
theorem parse_slash_right_iff (inet : InetPton) (range : List Char) (slash : Nat)
    (reads : address.ReadFrom inet (copyWithoutSpaces (range.take slash))) :
    ParsesRight (parseSlash inet range slash) address (writtenNumber (range.drop (slash + 1))) ↔
      (range.length ≤ 100 ∧ ValidLength address (writtenNumber (range.drop (slash + 1))) ∧
          SuitsMask address (writtenNumber (range.drop (slash + 1)))) ∨ (100 < range.length ∧
          ¬ValidLength address (writtenNumber (range.drop (slash + 1)))) := by
  by_cases long : 100 < range.length
  · have rejected : parseSlash inet range slash = none := by rw [parseSlash, if_pos long]
    rw [rejected]
    constructor
    · intro right
      refine .inr ⟨long, fun valid => ?_⟩
      obtain ⟨block, accepted, _⟩ := right.1 valid
      exact absurd accepted (some_ne_none block).symm
    · intro cases
      have invalid : ¬ValidLength address (writtenNumber (range.drop (slash + 1))) :=
        cases.elim (fun short => absurd long (Nat.not_lt.mpr short.1)) (fun other => other.2)
      exact ⟨fun valid => absurd valid invalid, fun _ => rfl⟩
  · have parsed : parseSlash inet range slash =
        some ((maskRange { first := address.ip, last := address.ip }
          (atoi (range.drop (slash + 1)) % 65536).toNat).getD
            { first := address.ip, last := address.ip }) := by
      rw [parseSlash, if_neg long, strToIp_of_readFrom reads]
      rfl
    rw [parsed]
    by_cases valid : ValidLength address (writtenNumber (range.drop (slash + 1)))
    · obtain ⟨cut, bounds⟩ := cidr_of_written valid
      have back : ((writtenNumber (range.drop (slash + 1))).toNat : Int) =
          writtenNumber (range.drop (slash + 1)) := Int.toNat_of_nonneg (by have := valid.1; omega)
      rw [cut]
      constructor
      · intro right
        obtain ⟨found, same, block⟩ := right.1 valid
        rw [← some.inj same] at block
        have suits := suits_of_isBlock bounds block
        rw [back] at suits
        exact .inl ⟨Nat.le_of_not_lt long, valid, suits⟩
      · intro cases
        have suits : SuitsMask address (writtenNumber (range.drop (slash + 1))) :=
          cases.elim (fun short => short.2.2) (fun other => absurd other.1 long)
        rw [← back] at suits
        obtain ⟨found, same, block⟩ := maskRange_suits bounds suits
        exact ⟨fun _ => ⟨found, congrArg some same, block⟩, fun invalid => absurd valid invalid⟩
    · constructor
      · intro right
        exact absurd (right.2 valid) (some_ne_none _)
      · intro cases
        exact cases.elim (fun short => absurd short.2.1 valid) (fun other => absurd other.1 long)

/-- What `inet_pton` makes of one text. -/
def readsOneText : InetPton where
  six := fun _ => none
  four := fun text => if text = "10.1.2.3".toList then some 0x0A010203#32 else none

/-- The range of `10.1.2.3/8`. -/
theorem parse_slash_right_iff_eight :
    ParsesRight (parseSlash readsOneText "10.1.2.3/8".toList 8) (.ipv4 0x0A010203#32) 8 :=
  (parse_slash_right_iff readsOneText "10.1.2.3/8".toList 8 (by constructor <;> decide)).mpr
      (.inl ⟨by decide, by constructor <;> decide, .inl (by decide)⟩)

/-- `10.1.2.3/32` gives the range up to the last address of the family. -/
theorem parse_slash_full_width :
    ¬ParsesRight (parseSlash readsOneText "10.1.2.3/32".toList 8) (.ipv4 0x0A010203#32) 32 := by
  intro right
  obtain ⟨range, same, block⟩ := right.1 (by constructor <;> decide)
  have set := block.filled 2 (by decide)
  rw [← some.inj same] at set
  exact absurd set (by decide)

end OpenGauss.Security
