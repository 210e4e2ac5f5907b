import Esdb.Decimal
import Esdb.RuntimeQuery
import Esdb.Utf8Readers
import Mathlib.Data.List.TakeWhile

/-!
# Numbers and bytes as text

The adapter and the script facade hand each other numbers as decimal text and bytes as
hex digits. A C string is the list of its characters, one for each byte; so is an ASCII
string of a script. The conversions of the C library read more than the canonical
numerals, so the adapter looks at the syntax first, where it looks at all.
-/
namespace Esdb.Wire

open Decimal Utf8Readers

/-! ## The C library -/

/-- `isspace` in the C locale. -/
def isSpace (c : Char) : Bool := c == ' ' || (decide (9 ≤ c.toNat) && decide (c.toNat ≤ 13))

/-- The sign, if any: whether it is a minus, and what is behind it. -/
def takeSign : List Char → Bool × List Char
  | '-' :: s => (true, s)
  | '+' :: s => (false, s)
  | s => (false, s)

/-- What a conversion gives: the number, where it stopped, and whether `errno` is `ERANGE`. -/
structure Conversion where
  value : ℤ
  rest : List Char
  range : Bool

/-- `strtoul` to base ten, for an `unsigned long` of `w` bits. -/
def strtoul (w : ℕ) (text : List Char) : Conversion :=
  let signed := takeSign (text.dropWhile isSpace)
  let digits := signed.2.takeWhile Char.isDigit
  let rest := signed.2.dropWhile Char.isDigit
  if digits = [] then ⟨0, text, false⟩
  else if 2 ^ w ≤ value digits then ⟨2 ^ w - 1, rest, true⟩
  else if signed.1 then ⟨(2 ^ w - value digits : ℕ) % 2 ^ w, rest, false⟩
  else ⟨value digits, rest, false⟩

/-- `strtol` and `strtoll` to base ten, for an integer type of `w` bits. -/
def strtol (w : ℕ) (text : List Char) : Conversion :=
  let signed := takeSign (text.dropWhile isSpace)
  let digits := signed.2.takeWhile Char.isDigit
  let rest := signed.2.dropWhile Char.isDigit
  let number : ℤ := if signed.1 then -value digits else value digits
  if digits = [] then ⟨0, text, false⟩
  else if number < -2 ^ (w - 1) then ⟨-2 ^ (w - 1), rest, true⟩
  else if 2 ^ (w - 1) ≤ number then ⟨2 ^ (w - 1) - 1, rest, true⟩
  else ⟨number, rest, false⟩

/-- Whether `long` has 64 bits or, as on Windows, 32. -/
inductive LongWidth where
  | long64 | long32
  deriving DecidableEq, Repr

def LongWidth.bits : LongWidth → ℕ
  | .long64 => 64
  | .long32 => 32

/-! ## Numbers in the adapter -/

/-- `canonical_decimal_syntax`. -/
def canonicalDecimalSyntax (text : List Char) (allowNegative : Bool) : Bool :=
  match text with
  | '-' :: digits => allowNegative && isNumeral digits
  | digits => isNumeral digits

/-- `parse_i64_decimal`. -/
def parseI64Decimal (text : List Char) : Option ℤ :=
  if !canonicalDecimalSyntax text true then none
  else if text = ['-', '0'] then none
  else
    let r := strtol 64 text
    if r.range || r.rest ≠ [] then none else some r.value

/-- `parse_u32_decimal`. -/
def parseU32Decimal (long : LongWidth) (text : List Char) : Option ℕ :=
  if !canonicalDecimalSyntax text false then none
  else
    let r := strtoul long.bits text
    if r.range || r.rest ≠ [] || 2 ^ 32 ≤ r.value then none else some r.value.toNat

/-! ## Numbers in the script -/

/-- `canonicalUnsigned` on a text. -/
def canonicalUnsigned (text maxText : List Char) : Except String (List Char) :=
  if !isNumeral text then .error " must be a canonical unsigned decimal integer"
  else if exceeds text maxText then .error " exceeds ESDB's signed-64 revision domain"
  else .ok text

/-- `canonicalInt64` on a text. -/
def canonicalInt64 (text : List Char) : Except String (List Char) :=
  if !canonicalDecimalSyntax text true then
    .error "INT64 must be a canonical signed decimal integer"
  else if text = ['-', '0'] then .ok ['0']
  else
    match text with
    | '-' :: magnitude =>
        if exceeds magnitude (natText 9223372036854775808) then
          .error "INT64 is outside the signed 64-bit range"
        else .ok ('-' :: magnitude)
    | magnitude =>
        if exceeds magnitude (natText 9223372036854775807) then
          .error "INT64 is outside the signed 64-bit range"
        else .ok magnitude

/-! ## What the conversions make of numerals -/

theorem isSpace_digit {c : Char} (h : c.isDigit = true) : isSpace c = false := by
  have hrange := Char.isDigit_iff_toNat.mp h
  simp only [Char.reduceToNat] at hrange
  have hne : c ≠ ' ' := by
    rintro rfl
    simp only [Char.reduceToNat] at hrange
    omega
  simp only [isSpace, beq_eq_false_iff_ne.mpr hne, Bool.false_or, Bool.and_eq_false_iff,
    decide_eq_false_iff_not]
  omega

theorem takeSign_digits {s : List Char} (h : s.all Char.isDigit = true) :
    takeSign s = (false, s) := by
  cases s with
  | nil => rfl
  | cons c s =>
      rw [List.all_cons, Bool.and_eq_true] at h
      unfold takeSign
      split
      · next heq =>
          cases heq
          exact absurd h.1 (by decide)
      · next heq =>
          cases heq
          exact absurd h.1 (by decide)
      · rfl

theorem digits_all {s : List Char} (h : s.all Char.isDigit = true) :
    s.takeWhile Char.isDigit = s ∧ s.dropWhile Char.isDigit = [] := by
  rw [List.all_eq_true] at h
  exact ⟨List.takeWhile_eq_self_iff.mpr h, List.dropWhile_eq_nil_iff.mpr h⟩

theorem dropWhile_space {s : List Char} (h : s.all Char.isDigit = true) :
    s.dropWhile isSpace = s := by
  cases s with
  | nil => rfl
  | cons c s =>
      rw [List.all_cons, Bool.and_eq_true] at h
      rw [List.dropWhile_cons_of_neg]
      rw [isSpace_digit h.1]
      exact Bool.false_ne_true

theorem strtoul_natText (w n : ℕ) : strtoul w (natText n) =
    if 2 ^ w ≤ n then ⟨2 ^ w - 1, [], true⟩ else ⟨n, [], false⟩ := by
  have hdigits := isNumeral_digits (isNumeral_natText n)
  simp only [strtoul, dropWhile_space hdigits, takeSign_digits hdigits, (digits_all hdigits).1,
    (digits_all hdigits).2, natText_ne_nil, value_natText, if_false, Bool.false_eq_true]

theorem canonicalDecimalSyntax_false {text : List Char} :
    canonicalDecimalSyntax text false = true ↔ ∃ n, text = natText n := by
  rw [← isNumeral_iff]
  unfold canonicalDecimalSyntax
  split
  · next digits =>
      rw [Bool.false_and]
      constructor
      · intro h
        cases h
      · intro h
        have := isNumeral_digits h
        rw [List.all_cons, Bool.and_eq_true] at this
        exact absurd this.1 (by decide)
  · exact Iff.rfl

theorem parseU32Decimal_natText (long : LongWidth) (n : ℕ) :
    parseU32Decimal long (natText n) = if n < 2 ^ 32 then some n else none := by
  have hbits : (2 : ℕ) ^ 32 ≤ 2 ^ long.bits := by
    cases long
    · exact Nat.pow_le_pow_right (by decide) (by decide)
    · exact Nat.le_refl _
  have hgrammar := canonicalDecimalSyntax_false.mpr ⟨n, rfl⟩
  have hle : (2 : ℤ) ^ 32 ≤ (n : ℤ) ↔ ¬ n < 2 ^ 32 := by omega
  unfold parseU32Decimal
  rw [hgrammar, strtoul_natText, Bool.not_true, if_neg Bool.false_ne_true]
  by_cases hlong : 2 ^ long.bits ≤ n
  · have hn : ¬ n < 2 ^ 32 := by omega
    rw [if_pos hlong, if_neg hn]
    rfl
  · rw [if_neg hlong]
    simp only [ne_eq, not_true_eq_false, decide_false, Bool.or_self, Bool.false_or,
      decide_eq_true_eq, hle, Int.toNat_natCast, ite_not]

theorem parseU32Decimal_eq_some {long : LongWidth} {text : List Char} {n : ℕ} :
    parseU32Decimal long text = some n ↔ text = natText n ∧ n < 2 ^ 32 := by
  constructor
  · intro h
    have hgrammar : canonicalDecimalSyntax text false = true := by
      by_contra hno
      simp [parseU32Decimal, hno] at h
    obtain ⟨m, rfl⟩ := canonicalDecimalSyntax_false.mp hgrammar
    rw [parseU32Decimal_natText] at h
    split_ifs at h with hm
    cases h
    exact ⟨rfl, hm⟩
  · rintro ⟨rfl, hn⟩
    rw [parseU32Decimal_natText, if_pos hn]

/-! ### Signed numbers -/

theorem natText_zero : natText 0 = ['0'] := by decide

theorem intText_nonneg {v : ℤ} (h : 0 ≤ v) : intText v = natText v.toNat := by
  rw [intText, if_neg (by omega)]
  congr 1
  omega

theorem intText_neg {n : ℕ} (h : 0 < n) : intText (-(n : ℤ)) = '-' :: natText n := by
  rw [intText, if_pos (by omega)]
  simp

theorem minus_notMem_natText {n : ℕ} : '-' ∉ natText n := fun h =>
  absurd (isDigit_natText h) (by decide)

/-- The canonical syntax with a sign has the texts of the integers, and `-0`. -/
theorem canonicalDecimalSyntax_true {text : List Char} :
    canonicalDecimalSyntax text true = true ↔ text = ['-', '0'] ∨ ∃ v, text = intText v := by
  unfold canonicalDecimalSyntax
  split
  · next digits =>
      rw [Bool.true_and, isNumeral_iff]
      constructor
      · rintro ⟨n, rfl⟩
        rcases Nat.eq_zero_or_pos n with rfl | hn
        · exact .inl (by rw [natText_zero])
        · exact .inr ⟨-n, (intText_neg hn).symm⟩
      · rintro (h | ⟨v, hv⟩)
        · exact ⟨0, by rw [natText_zero]; exact (List.cons.inj h).2⟩
        · unfold intText at hv
          split_ifs at hv
          · exact ⟨_, (List.cons.inj hv).2⟩
          · exact absurd (hv ▸ List.mem_cons_self) minus_notMem_natText
  · next digits hminus =>
      rw [isNumeral_iff]
      constructor
      · rintro ⟨n, rfl⟩
        exact .inr ⟨n, (intText_nonneg (Int.natCast_nonneg n)).symm⟩
      · rintro (h | ⟨v, hv⟩)
        · exact absurd h (hminus ['0'])
        · unfold intText at hv
          split_ifs at hv
          · exact absurd hv (hminus _)
          · exact ⟨_, hv⟩

theorem strtol_intText (w : ℕ) (v : ℤ) : strtol w (intText v) =
    if v < -2 ^ (w - 1) then ⟨-2 ^ (w - 1), [], true⟩
    else if 2 ^ (w - 1) ≤ v then ⟨2 ^ (w - 1) - 1, [], true⟩ else ⟨v, [], false⟩ := by
  have hdigits := isNumeral_digits (isNumeral_natText v.natAbs)
  by_cases hv : v < 0
  · have htext : intText v = '-' :: natText v.natAbs := if_pos hv
    have hspace : ('-' :: natText v.natAbs).dropWhile isSpace = '-' :: natText v.natAbs := rfl
    have hnumber : -((v.natAbs : ℕ) : ℤ) = v := by omega
    simp only [strtol, htext, hspace, takeSign, (digits_all hdigits).1, (digits_all hdigits).2,
      natText_ne_nil, value_natText, if_false, if_true, hnumber]
  · have htext : intText v = natText v.natAbs := if_neg hv
    have hnumber : ((v.natAbs : ℕ) : ℤ) = v := by omega
    simp only [strtol, htext, dropWhile_space hdigits, takeSign_digits hdigits,
      (digits_all hdigits).1, (digits_all hdigits).2, natText_ne_nil, value_natText, if_false,
      Bool.false_eq_true, hnumber]

theorem intText_ne_minus_zero (v : ℤ) : intText v ≠ ['-', '0'] := by
  unfold intText
  split_ifs with hv
  · intro h
    have hzero : natText v.natAbs = natText 0 := (List.cons.inj h).2.trans natText_zero.symm
    have := natText_inj.mp hzero
    omega
  · intro h
    exact minus_notMem_natText (h ▸ List.mem_cons_self)

/-- The integers of `int64_t`. -/
def isInt64 (v : ℤ) : Prop := -2 ^ 63 ≤ v ∧ v < 2 ^ 63

theorem parseI64Decimal_intText (v : ℤ) :
    parseI64Decimal (intText v) = if -2 ^ 63 ≤ v ∧ v < 2 ^ 63 then some v else none := by
  have hgrammar := canonicalDecimalSyntax_true.mpr (.inr ⟨v, rfl⟩)
  have hstrtoll : strtol 64 (intText v) = if v < -2 ^ 63 then ⟨-2 ^ 63, [], true⟩
      else if 2 ^ 63 ≤ v then ⟨2 ^ 63 - 1, [], true⟩ else ⟨v, [], false⟩ := strtol_intText 64 v
  unfold parseI64Decimal
  rw [hgrammar, hstrtoll, Bool.not_true, if_neg Bool.false_ne_true,
    if_neg (intText_ne_minus_zero v)]
  by_cases hlow : v < -2 ^ 63
  · have hout : ¬ (-2 ^ 63 ≤ v ∧ v < 2 ^ 63) := by omega
    rw [if_pos hlow, if_neg hout]
    rfl
  · by_cases hhigh : (2 : ℤ) ^ 63 ≤ v
    · have hout : ¬ (-2 ^ 63 ≤ v ∧ v < 2 ^ 63) := by omega
      rw [if_neg hlow, if_pos hhigh, if_neg hout]
      rfl
    · have hin : -2 ^ 63 ≤ v ∧ v < 2 ^ 63 := by omega
      rw [if_neg hlow, if_neg hhigh, if_pos hin]
      rfl

/-- `parse_i64_decimal` takes the canonical texts of its range. -/
theorem parseI64Decimal_eq_some {text : List Char} {v : ℤ} :
    parseI64Decimal text = some v ↔ text = intText v ∧ isInt64 v := by
  constructor
  · intro h
    have hgrammar : canonicalDecimalSyntax text true = true := by
      by_contra hno
      simp [parseI64Decimal, hno] at h
    rcases canonicalDecimalSyntax_true.mp hgrammar with rfl | ⟨u, rfl⟩
    · simp [parseI64Decimal, hgrammar] at h
    · rw [parseI64Decimal_intText] at h
      split_ifs at h with hu
      cases h
      exact ⟨rfl, hu⟩
  · rintro ⟨rfl, hv⟩
    rw [parseI64Decimal_intText]
    exact if_pos hv

theorem canonicalUnsigned_natText (n max : ℕ) : canonicalUnsigned (natText n) (natText max) =
    if max < n then .error " exceeds ESDB's signed-64 revision domain" else .ok (natText n) := by
  simp only [canonicalUnsigned, isNumeral_natText, exceeds_natText, Bool.not_true,
    Bool.false_eq_true, if_false, decide_eq_true_eq]

theorem canonicalInt64_intText {v : ℤ} (hv : isInt64 v) :
    canonicalInt64 (intText v) = .ok (intText v) := by
  obtain ⟨hlow, hhigh⟩ := hv
  have hgrammar := canonicalDecimalSyntax_true.mpr (.inr ⟨v, rfl⟩)
  unfold canonicalInt64
  rw [hgrammar, if_neg (by decide), if_neg (intText_ne_minus_zero v)]
  split
  · next magnitude heq =>
      unfold intText at heq
      split_ifs at heq
      · obtain rfl := (List.cons.inj heq).2
        rw [exceeds_natText, if_neg (by simp; omega), intText, if_pos ‹v < 0›]
      · exact absurd (heq ▸ List.mem_cons_self) minus_notMem_natText
  · next magnitude hminus =>
      have hnonneg : 0 ≤ v := by
        by_contra hneg
        have htext : intText v = '-' :: natText v.natAbs := if_pos (by omega)
        exact hminus _ htext
      rw [intText_nonneg hnonneg, exceeds_natText, if_neg (by simp; omega)]

/-- What `canonicalInt64` returns is the canonical text of an integer of its range. -/
theorem canonicalInt64_eq_ok {text out : List Char} (h : canonicalInt64 text = .ok out) :
    ∃ v, isInt64 v ∧ out = intText v := by
  unfold canonicalInt64 at h
  split_ifs at h with hgrammar hzero
  · cases h
    exact ⟨0, ⟨by decide, by decide⟩, by decide⟩
  · rw [Bool.not_eq_true, Bool.not_eq_false'] at hgrammar
    obtain ⟨v, rfl⟩ := (canonicalDecimalSyntax_true.mp hgrammar).resolve_left hzero
    by_cases hv : v < 0
    · have htext : intText v = '-' :: natText v.natAbs := if_pos hv
      simp only [htext, exceeds_natText] at h
      split_ifs at h with hlarge
      cases h
      rw [decide_eq_true_eq] at hlarge
      exact ⟨v, ⟨by omega, by omega⟩, htext.symm⟩
    · rw [intText_nonneg (by omega)] at h
      split at h
      · next heq => exact absurd (heq ▸ List.mem_cons_self) minus_notMem_natText
      · rw [exceeds_natText] at h
        split_ifs at h with hlarge
        cases h
        rw [decide_eq_true_eq] at hlarge
        exact ⟨v, ⟨by omega, by omega⟩, (intText_nonneg (by omega)).symm⟩

/-! ## Hex digits -/

/-- `hex_decode`; `hex_nibble` is the `nibble` of the script. -/
def hexDecode : List Char → Option Bytes
  | [] => some []
  | [_] => none
  | hi :: lo :: s =>
      match digitPair hi lo, hexDecode s with
      | some b, some bytes => some (b :: bytes)
      | _, _ => none

/-- `hexByte`. -/
def hexByte (n : ℕ) : List Char := [hexDigit ((n >>> 4) &&& 15), hexDigit (n &&& 15)]

/-- `utf8ToHex` on UTF-16 units. -/
def utf8ToHex : List ℕ → Except String (List Char)
  | [] => .ok []
  | code :: rest =>
      if code ≤ 0x7f then (utf8ToHex rest).map fun out => hexByte code ++ out
      else if code ≤ 0x7ff then
        (utf8ToHex rest).map fun out =>
          hexByte (0xc0 ||| code >>> 6) ++ hexByte (0x80 ||| (code &&& 0x3f)) ++ out
      else if 0xd800 ≤ code ∧ code ≤ 0xdbff then
        match rest with
        | low :: rest =>
            if low < 0xdc00 ∨ 0xdfff < low then .error "unpaired high surrogate in string"
            else
              let point := 0x10000 + (code - 0xd800) <<< 10 + (low - 0xdc00)
              (utf8ToHex rest).map fun out =>
                hexByte (0xf0 ||| point >>> 18) ++ hexByte (0x80 ||| (point >>> 12 &&& 0x3f)) ++
                  hexByte (0x80 ||| (point >>> 6 &&& 0x3f)) ++
                  hexByte (0x80 ||| (point &&& 0x3f)) ++ out
        | [] => .error "unpaired high surrogate in string"
      else if 0xdc00 ≤ code ∧ code ≤ 0xdfff then .error "unpaired low surrogate in string"
      else
        (utf8ToHex rest).map fun out =>
          hexByte (0xe0 ||| code >>> 12) ++ hexByte (0x80 ||| (code >>> 6 &&& 0x3f)) ++
            hexByte (0x80 ||| (code &&& 0x3f)) ++ out

theorem hexByte_eq {n : ℕ} (h : n < 256) : hexByte n = upperHex [UInt8.ofNat n] := by
  have hall : ∀ n < 256, hexByte n = upperHex [UInt8.ofNat n] := by decide +kernel
  exact hall n h

theorem upperHex_append (s t : Bytes) : upperHex (s ++ t) = upperHex s ++ upperHex t :=
  List.flatMap_append

/-- Every character of `upperHex` is a digit of `nibble`. -/
theorem nibble_upperHex {bytes : Bytes} {c : Char} (h : c ∈ upperHex bytes) :
    (nibble c).isSome = true := by
  obtain ⟨b, -, hc⟩ := List.mem_flatMap.mp h
  rcases List.mem_pair.mp hc with rfl | rfl
  · rw [(nibble_high b).1]
    rfl
  · rw [(nibble_low b).1]
    rfl

theorem hexDecode_upperHex (bytes : Bytes) : hexDecode (upperHex bytes) = some bytes := by
  induction bytes with
  | nil => rfl
  | cons b s ih =>
      have hcons : upperHex (b :: s) = highDigit b :: lowDigit b :: upperHex s := rfl
      rw [hcons, hexDecode, digitPair_upperHex, ih]

/-- A digit in either case is the upper one. -/
theorem nibble_eq_some {c : Char} {n : ℕ} (h : nibble c = some n) :
    n < 16 ∧ c.toUpper = hexDigit n := by
  have hall : ∀ k < 103, (nibble (Char.ofNat k)).all
      (fun n => decide (n < 16 ∧ (Char.ofNat k).toUpper = hexDigit n)) = true := by
    decide +kernel
  have hsmall : c.toNat < 103 := by
    simp only [nibble] at h
    split_ifs at h
    all_goals omega
  have hc := hall c.toNat hsmall
  rw [Char.ofNat_toNat, h] at hc
  simpa using hc

theorem digitPair_eq_some {hi lo : Char} {b : UInt8} (h : digitPair hi lo = some b) :
    [hi.toUpper, lo.toUpper] = upperHex [b] := by
  unfold digitPair at h
  split at h
  · next m n hm hn =>
      obtain ⟨hm16, hhi⟩ := nibble_eq_some hm
      obtain ⟨hn16, hlo⟩ := nibble_eq_some hn
      obtain rfl := Option.some.inj h
      have hor : m <<< 4 ||| n = m * 16 + n := by
        rw [← Nat.shiftLeft_add_eq_or_of_lt (by omega), Nat.shiftLeft_eq]
      have hnat : (UInt8.ofNat (m <<< 4 ||| n)).toNat = m * 16 + n := by
        rw [hor, UInt8.toNat_ofNat']
        omega
      have hdiv : (m * 16 + n) / 16 = m := by omega
      have hmod : (m * 16 + n) % 16 = n := by omega
      rw [upperHex, List.flatMap_singleton, highDigit, lowDigit, hnat, hdiv, hmod, hhi, hlo]
  · cases h

/-- What `hex_decode` takes are the digits of the bytes, in either case. -/
theorem hexDecode_eq_some {text : List Char} {bytes : Bytes} (h : hexDecode text = some bytes) :
    text.map Char.toUpper = upperHex bytes := by
  induction text using hexDecode.induct generalizing bytes with
  | case1 =>
      obtain rfl := Option.some.inj h
      rfl
  | case2 c => cases h
  | case3 hi lo s b tail htail hb ih =>
      rw [hexDecode, hb, htail] at h
      obtain rfl := Option.some.inj h
      have hpair := digitPair_eq_some hb
      have hcons : upperHex (b :: tail) = upperHex [b] ++ upperHex tail := upperHex_append [b] tail
      rw [hcons, ← hpair, ← ih htail]
      rfl
  | case4 hi lo s hno ih =>
      rw [hexDecode] at h
      split at h
      · next b tail hb htail => exact absurd htail (hno b tail hb)
      · cases h

theorem hexDecode_isSome {text : List Char} (heven : text.length % 2 = 0)
    (hdigits : ∀ c ∈ text, (nibble c).isSome = true) : ∃ bytes, hexDecode text = some bytes := by
  induction text using hexDecode.induct with
  | case1 => exact ⟨[], rfl⟩
  | case2 c => simp at heven
  | case3 hi lo s b tail htail hb ih => exact ⟨b :: tail, by rw [hexDecode, hb, htail]⟩
  | case4 hi lo s hno ih =>
      simp only [List.mem_cons, forall_eq_or_imp] at hdigits
      obtain ⟨hhi, hlo, hs⟩ := hdigits
      obtain ⟨m, hm⟩ := Option.isSome_iff_exists.mp hhi
      obtain ⟨n, hn⟩ := Option.isSome_iff_exists.mp hlo
      rw [List.length_cons, List.length_cons] at heven
      obtain ⟨tail, htail⟩ := ih (by omega) hs
      have hb : digitPair hi lo = some (UInt8.ofNat (m <<< 4 ||| n)) := by rw [digitPair, hm, hn]
      exact absurd htail (hno _ tail hb)

/-- What `normalizeHex` returns are the upper case digits of some bytes. -/
theorem normalizeHex_eq_ok {text hex : List Char} (h : normalizeHex text = .ok hex) :
    ∃ bytes, hexDecode text = some bytes ∧ hex = upperHex bytes := by
  unfold normalizeHex at h
  split_ifs at h with heven hdigits
  cases h
  rw [Nat.and_one_is_mod] at heven
  have hall : ∀ c ∈ text, (nibble c).isSome = true := by
    intro c hc
    by_contra hno
    rw [Bool.not_eq_true, Option.isSome_eq_false_iff] at hno
    exact hdigits (List.any_eq_true.mpr ⟨c, hc, hno⟩)
  obtain ⟨bytes, hbytes⟩ := hexDecode_isSome (by omega) hall
  exact ⟨bytes, hbytes, hexDecode_eq_some hbytes⟩

/-! ## Text of the script -/

theorem lead_or {x : ℕ} : (x < 64 → 0x80 ||| x = 0x80 + x) ∧ (x < 32 → 0xc0 ||| x = 0xc0 + x) ∧
    (x < 16 → 0xe0 ||| x = 0xe0 + x) ∧ (x < 8 → 0xf0 ||| x = 0xf0 + x) := by
  have hall : ∀ x < 64, 0x80 ||| x = 0x80 + x ∧ (x < 32 → 0xc0 ||| x = 0xc0 + x) ∧
      (x < 16 → 0xe0 ||| x = 0xe0 + x) ∧ (x < 8 → 0xf0 ||| x = 0xf0 + x) := by decide +kernel
  refine ⟨fun h => (hall x h).1, fun h => (hall x (by omega)).2.1 h,
    fun h => (hall x (by omega)).2.2.1 h, fun h => (hall x (by omega)).2.2.2 h⟩

/-- A continuation byte of the code. -/
theorem hexByte_tail (n : ℕ) :
    hexByte (0x80 ||| (n &&& 0x3f)) = upperHex [UInt8.ofNat (n % 64 + 0x80)] := by
  rw [(and_low n).2.2.2.1, lead_or.1 (Nat.mod_lt _ (by decide)), Nat.add_comm,
    hexByte_eq (by omega)]

theorem hexByte_lead {n m : ℕ} (h : n = m) (hm : m < 256) :
    hexByte n = upperHex [UInt8.ofNat m] := by
  rw [h, hexByte_eq hm]

/-- The digits that a character takes. -/
theorem utf8ToHex_char (c : Char) (rest : List ℕ) :
    utf8ToHex (units c.toNat ++ rest) =
      (utf8ToHex rest).map fun out => upperHex (String.utf8EncodeChar c) ++ out := by
  have hvalid : c.toNat < 0xd800 ∨ 0xdfff < c.toNat ∧ c.toNat < 0x110000 := c.valid
  generalize hk : c.toNat = k at hvalid
  rw [Utf8.utf8EncodeChar_eq, hk, units, Utf8.encode]
  by_cases h₄ : 0xFFFF < k
  · have hpoint : 0x10000 + (0xD800 + (k - 0x10000) / 1024 - 0xd800) <<< 10 +
        (0xDC00 + (k - 0x10000) % 1024 - 0xdc00) = k := by
      rw [Nat.shiftLeft_eq]
      omega
    rw [if_pos h₄, if_neg (by omega), if_neg (by omega), if_neg (by omega), List.cons_append,
      List.cons_append, List.nil_append, utf8ToHex, if_neg (by omega), if_neg (by omega),
      if_pos (by omega), if_neg (by omega)]
    simp only [hpoint]
    rw [hexByte_tail, hexByte_tail, hexByte_tail, Nat.shiftRight_eq_div_pow,
      Nat.shiftRight_eq_div_pow, Nat.shiftRight_eq_div_pow,
      hexByte_lead (m := k / 262144 % 8 + 0xF0) (by rw [lead_or.2.2.2 (by omega)]; omega)
        (by omega)]
    simp only [← upperHex_append]
    rfl
  · rw [if_neg h₄, List.singleton_append, utf8ToHex.eq_def]
    dsimp only
    by_cases h₁ : k ≤ 0x7F
    · rw [if_pos h₁, if_pos h₁, hexByte_eq (by omega)]
    · rw [if_neg h₁, if_neg h₁]
      by_cases h₂ : k ≤ 0x7FF
      · rw [if_pos h₂, if_pos h₂, hexByte_tail, Nat.shiftRight_eq_div_pow,
          hexByte_lead (m := k / 64 % 32 + 0xC0) (by rw [lead_or.2.1 (by omega)]; omega)
            (by omega)]
        simp only [← upperHex_append]
        rfl
      · rw [if_neg h₂, if_neg h₂, if_neg (by omega), if_neg (by omega), if_pos (by omega),
          hexByte_tail, hexByte_tail, Nat.shiftRight_eq_div_pow, Nat.shiftRight_eq_div_pow,
          hexByte_lead (m := k / 4096 % 16 + 0xE0) (by rw [lead_or.2.2.1 (by omega)]; omega)
            (by omega)]
        simp only [← upperHex_append]
        rfl

/-- The script writes the text of characters as the digits of its UTF-8 bytes. -/
theorem utf8ToHex_text (cs : List Char) :
    utf8ToHex (cs.flatMap fun c => units c.toNat) =
      .ok (upperHex (cs.flatMap String.utf8EncodeChar)) := by
  induction cs with
  | nil => rfl
  | cons c cs ih =>
      rw [List.flatMap_cons, utf8ToHex_char, ih, List.flatMap_cons, upperHex_append]
      rfl

/-! ## Values -/

/-- `append_le32` and `append_le64`, by their number of bytes. -/
def appendLe (k n : ℕ) : Bytes := (List.range k).map fun i => UInt8.ofNat (n >>> (8 * i))

/-- The cast to an unsigned type of `w` bits, and back. -/
def toUnsigned (w : ℕ) (v : ℤ) : ℕ := (v % 2 ^ w).toNat

def toSigned (w n : ℕ) : ℤ := if n < 2 ^ (w - 1) then n else n - 2 ^ w

/-! The constructors `esdb_value_create_*`, where memory is had. -/

def createNull : Value := ⟨Value.null, []⟩

def createBool (b : Bool) : Value := ⟨Value.bool, [if b then 1 else 0]⟩

def createInt32 (v : ℤ) : Value := ⟨Value.int32, appendLe 4 (toUnsigned 32 v)⟩

def createInt64 (v : ℤ) : Value := ⟨Value.int64, appendLe 8 (toUnsigned 64 v)⟩

def createDouble (bits : BitVec 64) : Value := ⟨Value.double, Query.appendLe64 bits⟩

def createText (type : ℕ) (bytes : Bytes) : Option Value :=
  if type ≠ Value.utf8 ∧ type ≠ Value.array ∧ type ≠ Value.object then none
  else if !Esdb.validUtf8 bytes then none
  else some ⟨type, bytes⟩

def createBytes (bytes : Bytes) : Value := ⟨Value.bytes, bytes⟩

/-! The readers `esdb_value_get_*`. -/

def getBool (value : Value) : Option Bool :=
  match value.payload with
  | [b] => if value.type = Value.bool then some (b ≠ 0) else none
  | _ => none

def getInt (type width : ℕ) (value : Value) : Option ℤ :=
  if value.type = type ∧ value.payload.length = width then
    some (toSigned (8 * width) (Query.readLe value.payload))
  else none

def getInt32 (value : Value) : Option ℤ := getInt Value.int32 4 value

def getInt64 (value : Value) : Option ℤ := getInt Value.int64 8 value

def getData (value : Value) : Option Bytes :=
  if value.type = Value.utf8 ∨ value.type = Value.bytes ∨ value.type = Value.array ∨
      value.type = Value.object then some value.payload
  else none

@[simp] theorem length_appendLe (k n : ℕ) : (appendLe k n).length = k := by simp [appendLe]

theorem appendLe_succ (k n : ℕ) : appendLe (k + 1) n = UInt8.ofNat n :: appendLe k (n / 256) := by
  unfold appendLe
  rw [List.range_succ_eq_map, List.map_cons, List.map_map]
  congr 1
  refine List.map_congr_left fun i _ => ?_
  rw [Function.comp_apply, Nat.mul_succ, Nat.add_comm, Nat.shiftRight_add,
    Nat.shiftRight_eq_div_pow n 8]

theorem readLe_appendLe (k n : ℕ) : Query.readLe (appendLe k n) = n % 256 ^ k := by
  induction k generalizing n with
  | zero => simp [appendLe, Query.readLe, Nat.mod_one]
  | succ k ih =>
      have hpow : 256 ^ (k + 1) = 256 * 256 ^ k := Nat.pow_succ'
      rw [appendLe_succ, Query.readLe, ih, UInt8.toNat_ofNat', hpow, Nat.mod_mul]

theorem appendLe64_eq (bits : BitVec 64) : Query.appendLe64 bits = appendLe 8 bits.toNat := by
  unfold Query.appendLe64 appendLe
  simp only [BitVec.toNat_ushiftRight]

theorem toSigned_toUnsigned {w : ℕ} (hw : 0 < w) {v : ℤ}
    (h : -2 ^ (w - 1) ≤ v ∧ v < 2 ^ (w - 1)) : toSigned w (toUnsigned w v) = v := by
  obtain ⟨w, rfl⟩ : ∃ w', w = w' + 1 := ⟨w - 1, by omega⟩
  simp only [Nat.add_sub_cancel] at h
  have hpos : (0 : ℤ) < 2 ^ w := Int.pow_pos (by decide)
  have hdouble : (2 : ℤ) ^ (w + 1) = 2 * 2 ^ w := by rw [pow_succ, mul_comm]
  have hcast : ((2 ^ w : ℕ) : ℤ) = 2 ^ w := by push_cast; rfl
  unfold toSigned toUnsigned
  simp only [Nat.add_sub_cancel]
  rw [hdouble]
  by_cases hv : v < 0
  · have hmod : v % (2 * 2 ^ w) = v + 2 * 2 ^ w := by
      rw [← Int.add_emod_right, Int.emod_eq_of_lt (by omega) (by omega)]
    rw [hmod, if_neg (by omega), Int.toNat_of_nonneg (by omega)]
    omega
  · rw [Int.emod_eq_of_lt (by omega) (by omega), if_pos (by omega),
      Int.toNat_of_nonneg (by omega)]

theorem toUnsigned_lt (w : ℕ) (v : ℤ) : toUnsigned w v < 2 ^ w := by
  have hpos : (0 : ℤ) < 2 ^ w := Int.pow_pos (by decide)
  have hlt := Int.emod_lt_of_pos v hpos
  have hnonneg := Int.emod_nonneg v (Int.ne_of_gt hpos)
  have hcast : ((2 ^ w : ℕ) : ℤ) = 2 ^ w := by push_cast; rfl
  unfold toUnsigned
  omega

/-- The integers of `int32_t`. -/
def isInt32 (v : ℤ) : Prop := -2 ^ 31 ≤ v ∧ v < 2 ^ 31

theorem getInt_appendLe (type : ℕ) {k : ℕ} (hk : 0 < k) {v : ℤ}
    (h : -2 ^ (8 * k - 1) ≤ v ∧ v < 2 ^ (8 * k - 1)) :
    getInt type k ⟨type, appendLe k (toUnsigned (8 * k) v)⟩ = some v := by
  have hlt : toUnsigned (8 * k) v < 256 ^ k := by
    rw [show 256 ^ k = 2 ^ (8 * k) from (Nat.pow_mul 2 8 k).symm]
    exact toUnsigned_lt (8 * k) v
  unfold getInt
  rw [if_pos ⟨rfl, length_appendLe ..⟩, readLe_appendLe, Nat.mod_eq_of_lt hlt,
    toSigned_toUnsigned (by omega) h]

theorem getInt32_createInt32 {v : ℤ} (h : isInt32 v) : getInt32 (createInt32 v) = some v :=
  getInt_appendLe Value.int32 (by decide) h

theorem getInt64_createInt64 {v : ℤ} (h : isInt64 v) : getInt64 (createInt64 v) = some v :=
  getInt_appendLe Value.int64 (by decide) h

theorem getBool_createBool (b : Bool) : getBool (createBool b) = some b := by
  cases b <;> rfl

/-! ## Valid text -/

theorem continuationByte_iff (b : UInt8) : continuationByte b = true ↔ Utf8.Tail b := by
  rw [← high_bits, continuationByte, beq_iff_eq, ← UInt8.toNat_inj, UInt8.toNat_and]
  rfl

theorem extendCode_eq (code : ℕ) (b : UInt8) : extendCode code b = code * 64 + b.toNat % 64 := by
  rw [← shift_or, extendCode, UInt8.toNat_and]
  rfl

theorem validCode_iff (need code : ℕ) : validCode need code = true ↔
    ¬(need = 2 ∧ code < 0x800) ∧ ¬(need = 3 ∧ code < 0x10000) ∧
      ¬(0xd800 ≤ code ∧ code ≤ 0xdfff) ∧ code ≤ 0x10ffff := by
  simp only [validCode, Bool.and_eq_true, Bool.not_eq_true', Bool.or_eq_false_iff,
    Bool.and_eq_false_iff, beq_eq_false_iff_ne, decide_eq_false_iff_not]
  omega

theorem exists_some {m j : ℕ} {P : ℕ → Prop} :
    (∃ n k, some (m, j) = some (n, k) ∧ P n) ↔ P m := by
  constructor
  · rintro ⟨n, k, heq, hp⟩
    cases heq
    exact hp
  · exact fun hp => ⟨m, j, rfl, hp⟩

/-- A test of the next bytes, and the rest. -/
theorem and_iff_exists {A B V : Prop} [Decidable B] {m j : ℕ} {P : ℕ → Prop} (hab : A ↔ B)
    (hv : V ↔ P m) :
    (A ∧ V) ↔ ∃ n k, (if B then some (m, j) else none) = some (n, k) ∧ P n := by
  rw [hab, hv]
  by_cases hb : B
  · rw [if_pos hb, exists_some]
    exact and_iff_right hb
  · rw [if_neg hb]
    simp [hb]

theorem tail_mod {b : UInt8} (h : Utf8.Tail b) : b.toNat % 64 = b.toNat - 128 := by
  obtain ⟨hlow, hhigh⟩ := h
  omega

/-- The test of a code of three bytes is the narrower range of the second one. -/
theorem validCode_two {a b₁ b₂ : ℕ} (ha : 224 ≤ a ∧ a ≤ 239) (h₁ : 128 ≤ b₁ ∧ b₁ ≤ 191)
    (h₂ : 128 ≤ b₂ ∧ b₂ ≤ 191) :
    validCode 2 ((a % 16 * 64 + (b₁ - 128)) * 64 + (b₂ - 128)) = true ↔
      (a = 0xE0 → 0xA0 ≤ b₁) ∧ (a = 0xED → b₁ < 0xA0) := by
  have hmod : a % 16 = a - 224 := by omega
  rw [validCode_iff, hmod]
  omega

theorem validCode_three {a b₁ b₂ b₃ : ℕ} (ha : 240 ≤ a ∧ a ≤ 244) (h₁ : 128 ≤ b₁ ∧ b₁ ≤ 191)
    (h₂ : 128 ≤ b₂ ∧ b₂ ≤ 191) (h₃ : 128 ≤ b₃ ∧ b₃ ≤ 191) :
    validCode 3 (((a % 8 * 64 + (b₁ - 128)) * 64 + (b₂ - 128)) * 64 + (b₃ - 128)) = true ↔
      (a = 0xF0 → 0x90 ≤ b₁) ∧ (a = 0xF4 → b₁ < 0x90) := by
  have hmod : a % 8 = a - 240 := by omega
  rw [validCode_iff, hmod]
  omega

/-- The runtime's test of a whole text takes a character and goes on behind it. -/
theorem validUtf8_cons (c : UInt8) (s : Bytes) : Esdb.validUtf8 (c :: s) = true ↔
    ∃ n k, Utf8.first c s = some (n, k) ∧ Esdb.validUtf8 (s.drop n) = true := by
  rw [Esdb.validUtf8.eq_def]
  unfold Utf8.first
  obtain ⟨h₅, h₄, h₃, -⟩ := and_low c.toNat
  simp only [UInt8.le_iff_toNat_le, UInt8.reduceToNat, Bool.and_eq_true, decide_eq_true_eq]
  by_cases hone : c.toNat ≤ 127
  · simp [hone]
  by_cases htwo : 194 ≤ c.toNat ∧ c.toNat ≤ 223
  · rw [if_neg hone, if_neg hone, if_pos htwo, if_pos htwo]
    rcases s with _ | ⟨b₁, rest⟩
    · simp
    · simp only [Bool.and_eq_true, continuationByte_iff, validCode_iff, extendCode_eq,
        UInt8.toNat_and, UInt8.reduceToNat, h₅]
      refine and_iff_exists ?_ Iff.rfl
      unfold Utf8.Tail
      omega
  rw [if_neg hone, if_neg hone, if_neg htwo, if_neg htwo]
  by_cases hthree : 224 ≤ c.toNat ∧ c.toNat ≤ 239
  · rw [if_pos hthree, if_pos hthree]
    rcases s with _ | ⟨b₁, _ | ⟨b₂, rest⟩⟩
    · simp
    · simp
    · simp only [Bool.and_eq_true, continuationByte_iff, extendCode_eq, UInt8.toNat_and,
        UInt8.reduceToNat, h₄]
      refine and_iff_exists ?_ Iff.rfl
      rw [and_assoc, and_assoc]
      refine and_congr_right fun h₁ => and_congr_right fun h₂ => ?_
      rw [tail_mod h₁, tail_mod h₂, validCode_two hthree h₁ h₂]
  rw [if_neg hthree, if_neg hthree]
  by_cases hfour : 240 ≤ c.toNat ∧ c.toNat ≤ 244
  · rw [if_pos hfour, if_pos hfour]
    rcases s with _ | ⟨b₁, _ | ⟨b₂, _ | ⟨b₃, rest⟩⟩⟩
    · simp
    · simp
    · simp
    · simp only [Bool.and_eq_true, continuationByte_iff, extendCode_eq, UInt8.toNat_and,
        UInt8.reduceToNat, h₃]
      refine and_iff_exists ?_ Iff.rfl
      simp only [and_assoc]
      refine and_congr_right fun h₁ => and_congr_right fun h₂ => and_congr_right fun h₃ => ?_
      rw [tail_mod h₁, tail_mod h₂, tail_mod h₃, validCode_three hfour h₁ h₂ h₃]
  · simp [hfour]

/-- The runtime takes the texts of characters. -/
theorem validUtf8_iff (bytes : Bytes) : Esdb.validUtf8 bytes = true ↔ Utf8.WellFormed bytes := by
  rw [← (utf8_acceptance bytes).1, Utf8Readers.validUtf8, isOk_eq_isSome]
  induction hn : bytes.length using Nat.strong_induction_on generalizing bytes with
  | _ n ih =>
      cases bytes with
      | nil => simp [Esdb.validUtf8, Utf8.scan, Except.toOption]
      | cons c s =>
          rw [validUtf8_cons, Utf8.scan_cons, validUtf8Turn_eq]
          cases hfirst : Utf8.first c s with
          | none => simp
          | some p =>
              obtain ⟨m, k⟩ := p
              rw [exists_some, Option.bind_some, Option.isSome_map]
              refine ih _ ?_ _ rfl
              rw [List.length_cons] at hn
              rw [List.length_drop]
              omega

end Esdb.Wire
