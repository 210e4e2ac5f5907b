import Esdb.AdapterText
import Esdb.ObjectStoreMutations

/-!
# The readers of decimal text

A revision is read from text by the durable store, the adapter and the script facade, and
an `INT64` by the schema validator, the script facade, the generated client, the adapter
and the bridge. Each reader has a technique of its own: a loop with a guard, a conversion
of the C library behind a syntax check, a comparison of texts. They accept the numerals of
one range.
-/
namespace Esdb.DecimalReaders

open Decimal Wire

/-! ## Revisions -/

/-- The characters of a C string. -/
def cString (text : Bytes) : List Char := text.map Char.ofUInt8

/-- The loop of `parse_revision_text` on `uint64_t`, whose operations wrap around. -/
def parseDigitsWord (value : UInt64) : Bytes → Option UInt64
  | [] => some value
  | c :: rest =>
      if c < 48 ∨ 57 < c then none
      else
        let digit := (c - 48).toUInt64
        if (9223372036854775807 - digit) / 10 < value then none
        else parseDigitsWord (value * 10 + digit) rest

/-- `parse_revision_text` on `uint64_t`. -/
def parseRevisionWord (text : Bytes) : Option UInt64 :=
  match text with
  | [] => none
  | [c] => parseDigitsWord 0 [c]
  | c :: rest => if c = 48 then none else parseDigitsWord 0 (c :: rest)

/-- `parse_revision_decimal`. -/
def parseRevisionDecimal (text : List Char) : Option ℕ :=
  if !canonicalDecimalSyntax text false then none
  else
    let r := strtoul 64 text
    if r.range || r.rest ≠ [] || (revisionMax : ℤ) < r.value then none else some r.value.toNat

/-! ### The loop -/

theorem cString_inj {s t : Bytes} : cString s = cString t ↔ s = t := by
  refine List.map_inj_right fun a b h => ?_
  exact UInt8.toNat_inj.mp (congrArg Char.toNat h)

theorem digit_range {c : UInt8} : ¬(c < 48 ∨ 57 < c) ↔ 48 ≤ c.toNat ∧ c.toNat ≤ 57 := by
  have hlow : c < 48 ↔ c.toNat < 48 := Iff.rfl
  have hhigh : 57 < c ↔ 57 < c.toNat := Iff.rfl
  rw [hlow, hhigh]
  omega

theorem ofUInt8_digit (c : UInt8) :
    (Char.ofUInt8 c).isDigit = true ↔ ¬(c < 48 ∨ 57 < c) := by
  have htoNat : (Char.ofUInt8 c).toNat = c.toNat := rfl
  rw [Char.isDigit_iff_toNat, digit_range, htoNat]
  simp only [Char.reduceToNat]

/-- The words of the loop are the numbers: no operation of it wraps around. -/
theorem parseDigitsWord_toNat {value : UInt64} (h : value.toNat ≤ revisionMax) (text : Bytes) :
    (parseDigitsWord value text).map UInt64.toNat = ObjectStore.parseDigits value.toNat text := by
  induction text generalizing value with
  | nil => rfl
  | cons c rest ih =>
      unfold parseDigitsWord ObjectStore.parseDigits
      by_cases hc : c < 48 ∨ 57 < c
      · rw [if_pos hc, if_pos hc]
        rfl
      · rw [if_neg hc, if_neg hc]
        have hrange := digit_range.mp hc
        have hdigit : ((c - 48).toUInt64).toNat = c.toNat - 48 := by
          rw [UInt8.toNat_toUInt64, UInt8.toNat_sub_of_le]
          · rfl
          · exact hrange.1
        have hroom : (9223372036854775807 - (c - 48).toUInt64).toNat =
            revisionMax - (c.toNat - 48) := by
          rw [UInt64.toNat_sub_of_le, hdigit]
          · rfl
          · rw [UInt64.le_iff_toNat_le, hdigit]
            change _ ≤ 9223372036854775807
            omega
        have hguard : (9223372036854775807 - (c - 48).toUInt64) / 10 < value ↔
            (revisionMax - (c.toNat - 48)) / 10 < value.toNat := by
          rw [UInt64.lt_iff_toNat_lt, UInt64.toNat_div, hroom]
          rfl
        by_cases hg : (revisionMax - (c.toNat - 48)) / 10 < value.toNat
        · rw [if_pos (hguard.mpr hg), if_pos hg]
          rfl
        · rw [if_neg fun hw => hg (hguard.mp hw), if_neg hg]
          have hnext : value.toNat * 10 + (c.toNat - 48) ≤ revisionMax := by
            unfold revisionMax at *
            omega
          have hword : (value * 10 + (c - 48).toUInt64).toNat =
              value.toNat * 10 + (c.toNat - 48) := by
            unfold revisionMax at hnext
            rw [UInt64.toNat_add, UInt64.toNat_mul, hdigit]
            change (value.toNat * 10 % 2 ^ 64 + (c.toNat - 48)) % 2 ^ 64 = _
            omega
          rw [ih (by rw [hword]; exact hnext), hword]

theorem parseRevisionWord_toNat (text : Bytes) :
    (parseRevisionWord text).map UInt64.toNat = ObjectStore.parseRevisionText text := by
  have hloop : ∀ s, (parseDigitsWord 0 s).map UInt64.toNat = ObjectStore.parseDigits 0 s :=
    fun s => parseDigitsWord_toNat (by decide) s
  match text with
  | [] => rfl
  | [c] => exact hloop [c]
  | c :: d :: rest =>
      unfold parseRevisionWord ObjectStore.parseRevisionText
      simp only
      by_cases hc : c = 48
      · rw [if_pos hc, if_pos hc]
        rfl
      · rw [if_neg hc, if_neg hc]
        exact hloop (c :: d :: rest)

/-- The guard of the loop stops it exactly where the number would pass the maximum. -/
theorem parseDigits_eq_some {v n : ℕ} (hv : v ≤ revisionMax) {text : Bytes} :
    ObjectStore.parseDigits v text = some n ↔ (cString text).all Char.isDigit = true ∧
      n = 10 ^ text.length * v + value (cString text) ∧ n ≤ revisionMax := by
  induction text generalizing v with
  | nil =>
      have hnil : value (cString []) = 0 := rfl
      simp only [ObjectStore.parseDigits, cString, List.map_nil, List.all_nil, true_and,
        List.length_nil, pow_zero, one_mul, Option.some.injEq]
      constructor
      · rintro rfl
        exact ⟨rfl, hv⟩
      · rintro ⟨rfl, -⟩
        rfl
  | cons c rest ih =>
      have hcons : cString (c :: rest) = Char.ofUInt8 c :: cString rest := rfl
      have hlength : (cString rest).length = rest.length := List.length_map _
      have htoNat : (Char.ofUInt8 c).toNat = c.toNat := rfl
      rw [ObjectStore.parseDigits, hcons, List.all_cons, Bool.and_eq_true, ofUInt8_digit,
        value_cons, hlength, htoNat, List.length_cons, pow_succ]
      by_cases hc : c < 48 ∨ 57 < c
      · rw [if_pos hc]
        simp [hc]
      · rw [if_neg hc]
        have hsplit : 10 ^ rest.length * 10 * v + (10 ^ rest.length * (c.toNat - 48) +
            value (cString rest)) =
            10 ^ rest.length * (v * 10 + (c.toNat - 48)) + value (cString rest) := by
          rw [Nat.mul_assoc, Nat.mul_comm 10 v, Nat.mul_add, Nat.add_assoc]
        rw [hsplit]
        simp only
        by_cases hguard : (revisionMax - (c.toNat - 48)) / 10 < v
        · rw [if_pos hguard]
          have hpos : 0 < 10 ^ rest.length := Nat.pow_pos (by decide)
          have hmul := Nat.le_mul_of_pos_left (v * 10 + (c.toNat - 48)) hpos
          have hover : revisionMax < v * 10 + (c.toNat - 48) := by omega
          constructor
          · intro h
            cases h
          · rintro ⟨-, rfl, hle⟩
            omega
        · have hdigit : c.toNat - 48 < 10 := by
            have := digit_range.mp hc
            omega
          have hnext : v * 10 + (c.toNat - 48) ≤ revisionMax := by
            unfold revisionMax at *
            omega
          rw [if_neg hguard, ih hnext]
          simp [hc]

theorem parseRevisionText_eq_some {text : Bytes} {n : ℕ} :
    ObjectStore.parseRevisionText text = some n ↔
      cString text = natText n ∧ n ≤ revisionMax := by
  have hnumeral : ∀ {s : Bytes}, isNumeral (cString s) = true →
      (ObjectStore.parseDigits 0 s = some n ↔ cString s = natText n ∧ n ≤ revisionMax) := by
    intro s hs
    rw [parseDigits_eq_some (Nat.zero_le _), mul_zero, Nat.zero_add]
    constructor
    · rintro ⟨-, rfl, hn⟩
      exact ⟨(natText_value hs).symm, hn⟩
    · rintro ⟨ht, hn⟩
      refine ⟨isNumeral_digits hs, ?_, hn⟩
      rw [ht, value_natText]
  have hdigits : ∀ {s : Bytes}, ObjectStore.parseDigits 0 s = some n →
      (cString s).all Char.isDigit = true := fun h =>
    ((parseDigits_eq_some (Nat.zero_le _)).mp h).1
  match text with
  | [] =>
      constructor
      · intro h
        cases h
      · rintro ⟨h, -⟩
        exact absurd h.symm (natText_ne_nil n)
  | [c] =>
      change ObjectStore.parseDigits 0 [c] = some n ↔ _
      by_cases hc : isNumeral (cString [c]) = true
      · exact hnumeral hc
      · constructor
        · intro h
          have := hdigits h
          refine absurd ?_ hc
          change (if Char.ofUInt8 c = '0' then true else _) = true
          split_ifs
          · rfl
          · rw [Bool.and_eq_true]
            exact ⟨by simpa [cString] using this, rfl⟩
        · rintro ⟨h, -⟩
          exact absurd (h ▸ isNumeral_natText n) hc
  | c :: d :: rest =>
      change (if c = 48 then none else ObjectStore.parseDigits 0 (c :: d :: rest)) = some n ↔ _
      by_cases hc : c = 48
      · rw [if_pos hc]
        constructor
        · intro h
          cases h
        · rintro ⟨h, -⟩
          subst hc
          have hno : isNumeral (cString (48 :: d :: rest)) = false := rfl
          rw [h, isNumeral_natText] at hno
          cases hno
      · rw [if_neg hc]
        by_cases hs : isNumeral (cString (c :: d :: rest)) = true
        · exact hnumeral hs
        · constructor
          · intro h
            have hall := hdigits h
            refine absurd ?_ hs
            have hzero : Char.ofUInt8 c ≠ '0' := fun h =>
              hc (UInt8.toNat_inj.mp (congrArg Char.toNat h))
            change (if Char.ofUInt8 c = '0' then _ else _) = true
            rw [if_neg hzero]
            exact hall
          · rintro ⟨h, -⟩
            exact absurd (h ▸ isNumeral_natText n) hs

theorem cString_castText {n : ℕ} (h : n ≤ revisionMax) :
    cString (ObjectStore.castText n) = natText n := by
  have hread := ObjectStore.parseRevisionText_castText (Int.natCast_nonneg n)
    (show (n : ℤ) ≤ ObjectStore.maxRowid by unfold ObjectStore.maxRowid; unfold revisionMax at h; omega)
  rw [Int.toNat_natCast] at hread
  exact (parseRevisionText_eq_some.mp hread).1

theorem parseRevisionDecimal_eq_some {text : List Char} {n : ℕ} :
    parseRevisionDecimal text = some n ↔ text = natText n ∧ n ≤ revisionMax := by
  have hnumeral : ∀ m, parseRevisionDecimal (natText m) =
      if m ≤ revisionMax then some m else none := by
    intro m
    have hgrammar := canonicalDecimalSyntax_false.mpr ⟨m, rfl⟩
    unfold parseRevisionDecimal
    rw [hgrammar, strtoul_natText, Bool.not_true, if_neg Bool.false_ne_true]
    by_cases hword : 2 ^ 64 ≤ m
    · have hm : ¬ m ≤ revisionMax := by
        unfold revisionMax
        omega
      rw [if_pos hword, if_neg hm]
      rfl
    · have hlt : (revisionMax : ℤ) < (m : ℤ) ↔ ¬ m ≤ revisionMax := by omega
      rw [if_neg hword]
      simp only [ne_eq, not_true_eq_false, decide_false, Bool.or_self, Bool.false_or,
        decide_eq_true_eq, hlt, Int.toNat_natCast, ite_not]
  constructor
  · intro h
    have hgrammar : canonicalDecimalSyntax text false = true := by
      by_contra hno
      simp [parseRevisionDecimal, hno] at h
    obtain ⟨m, rfl⟩ := canonicalDecimalSyntax_false.mp hgrammar
    rw [hnumeral] at h
    split_ifs at h with hm
    cases h
    exact ⟨rfl, hm⟩
  · rintro ⟨rfl, hn⟩
    rw [hnumeral, if_pos hn]

theorem canonicalUnsigned_eq_ok {text out : List Char} {max : ℕ} :
    canonicalUnsigned text (natText max) = .ok out ↔
      out = text ∧ ∃ n, text = natText n ∧ n ≤ max := by
  constructor
  · intro h
    have hgrammar : isNumeral text = true := by
      by_contra hno
      rw [Bool.not_eq_true] at hno
      rw [canonicalUnsigned, hno] at h
      cases h
    obtain ⟨n, rfl⟩ := isNumeral_iff.mp hgrammar
    rw [canonicalUnsigned_natText] at h
    split_ifs at h with hn
    cases h
    exact ⟨rfl, n, rfl, by omega⟩
  · rintro ⟨rfl, n, rfl, hn⟩
    rw [canonicalUnsigned_natText, if_neg (by omega)]

/-- The durable store reads the numerals of the revisions and no other text, exactly, which is
the inverse of writing them; the adapter and the script facade read the same texts. -/
theorem revision_readers :
    (∀ (text : Bytes) (n : ℕ), ObjectStore.parseRevisionText text = some n ↔
      cString text = natText n ∧ n < 2 ^ 63) ∧
    (∀ text, (parseRevisionWord text).map UInt64.toNat = ObjectStore.parseRevisionText text) ∧
    (∀ i : ℤ, 0 ≤ i → i < 2 ^ 63 →
      ObjectStore.parseRevisionText (ObjectStore.castText i) = some i.toNat) ∧
    (∀ (text : Bytes) (n : ℕ), ObjectStore.parseRevisionText text = some n →
      ObjectStore.castText n = text) ∧
    (∀ text, parseRevisionDecimal (cString text) = ObjectStore.parseRevisionText text) ∧
    (∀ text out, canonicalUnsigned text (natText revisionMax) = .ok out ↔
      ∃ n, parseRevisionDecimal text = some n ∧ out = text ∧ text = natText n) := by
  refine ⟨fun text n => ?_, parseRevisionWord_toNat, fun i h₀ h => ?_, fun text n h => ?_,
    fun text => ?_, fun text out => ?_⟩
  · have hle : n ≤ revisionMax ↔ n < 2 ^ 63 := by
      unfold revisionMax
      omega
    rw [parseRevisionText_eq_some, hle]
  · refine ObjectStore.parseRevisionText_castText h₀ ?_
    unfold ObjectStore.maxRowid
    omega
  · obtain ⟨ht, hn⟩ := parseRevisionText_eq_some.mp h
    rw [← cString_inj, cString_castText hn, ht]
  · refine Option.ext fun n => ?_
    rw [parseRevisionDecimal_eq_some, parseRevisionText_eq_some]
  · rw [canonicalUnsigned_eq_ok]
    constructor
    · rintro ⟨rfl, n, ht, hn⟩
      exact ⟨n, parseRevisionDecimal_eq_some.mpr ⟨ht, hn⟩, rfl, ht⟩
    · rintro ⟨n, hn, rfl, ht⟩
      exact ⟨rfl, n, ht, (parseRevisionDecimal_eq_some.mp hn).2⟩

/-! ## Signed integers -/

/-- The text without a minus in front, and whether there was one. -/
def splitMinus : List Char → Bool × List Char
  | '-' :: digits => (true, digits)
  | digits => (false, digits)

/-- `int64InRange` of the validator and `int64TextInRange` of the generated client: the
digits, without zeros in front, compared with those of the bound as texts. -/
def int64InRange (decimal : List Char) : Bool :=
  let signed := splitMinus decimal
  let limit := natText (if signed.1 then 9223372036854775808 else 9223372036854775807)
  let stripped := signed.2.dropWhile (· == '0')
  let trimmed := if stripped = [] then ['0'] else stripped
  if trimmed.length ≠ limit.length then decide (trimmed.length < limit.length)
  else !decide (limit < trimmed)

/-- `[1-9][0-9]*`. -/
def nonzeroDigits : List Char → Bool
  | [] => false
  | c :: rest => (c != '0' && c.isDigit) && rest.all Char.isDigit

/-- `/^(0|-?[1-9][0-9]*)$/`, the `INT64_RE` of the validator; the expression of the generated
`int64FromWire` has the alternatives written apart. -/
def int64Re (text : List Char) : Bool := text == ['0'] || nonzeroDigits (splitMinus text).2

namespace Validator

/-- The check of an integer literal in `checkDefault`. -/
def int64Literal (text : List Char) : Bool := int64Re text && int64InRange text

end Validator

namespace Generated

/-- `int64ToWire` on a text. -/
def int64ToWire (text : List Char) : Except String (List Char) :=
  if !canonicalDecimalSyntax text true then
    .error "integer parameter must be a canonical decimal string"
  else
    let text := if text = ['-', '0'] then ['0'] else text
    if !int64InRange text then .error "integer parameter is outside the signed 64-bit range"
    else .ok text

/-- `int64FromWire`: the text itself where `exact` is asked for, else the number. -/
def int64FromWire (text : List Char) (exact : Bool) : Except String (List Char ⊕ ℤ) :=
  if !(int64Re text && int64InRange text) then
    .error "integer wire value is not a canonical signed 64-bit decimal"
  else if exact then .ok (.inl text)
  else
    let signed := splitMinus text
    let stripped := signed.2.dropWhile (· == '0')
    let digits := if stripped = [] then ['0'] else stripped
    if exceeds digits (natText 9007199254740991) then
      .error (s!"integer value {String.ofList text} exceeds the safe integer range; " ++
        "request exact mode for the decimal string")
    else .ok (.inr (if signed.1 then -(value digits : ℤ) else value digits))

end Generated

namespace Bridge

/-- `canonical_int64`. -/
def canonicalInt64 (text : List Char) : Option ℤ :=
  let signed := splitMinus text
  match signed.2 with
  | [] => none
  | c :: rest =>
      if c = '0' then if rest ≠ [] then none else if signed.1 then none else some 0
      else if !c.isDigit then none
      else if !rest.all Char.isDigit then none
      else
        let r := strtol 64 text
        if r.range || r.rest ≠ [] then none else some r.value

end Bridge

/-! ### The numerals of the signed range -/

theorem splitMinus_join (text : List Char) :
    text = (if (splitMinus text).1 then ['-'] else []) ++ (splitMinus text).2 := by
  unfold splitMinus
  split <;> rfl

theorem splitMinus_cases (text : List Char) :
    (∃ digits, text = '-' :: digits ∧ splitMinus text = (true, digits)) ∨
      (∀ digits, text ≠ '-' :: digits) ∧ splitMinus text = (false, text) := by
  unfold splitMinus
  split
  · next digits => exact .inl ⟨digits, rfl, rfl⟩
  · next hminus => exact .inr ⟨hminus, rfl⟩

theorem canonicalDecimalSyntax_eq (text : List Char) :
    canonicalDecimalSyntax text true = isNumeral (splitMinus text).2 := by
  rcases splitMinus_cases text with ⟨digits, rfl, hsplit⟩ | ⟨hminus, hsplit⟩
  · rw [hsplit]
    exact Bool.true_and _
  · rw [hsplit]
    unfold canonicalDecimalSyntax
    split
    · next digits => exact absurd rfl (hminus digits)
    · rfl

theorem splitMinus_natText (n : ℕ) : splitMinus (natText n) = (false, natText n) := by
  unfold splitMinus
  split
  · next digits heq => exact absurd (heq ▸ List.mem_cons_self) minus_notMem_natText
  · rfl

theorem splitMinus_intText (v : ℤ) :
    splitMinus (intText v) = (decide (v < 0), natText v.natAbs) := by
  unfold intText
  split_ifs with hv
  · rw [decide_eq_true hv]
    rfl
  · rw [decide_eq_false hv, splitMinus_natText]

/-- There is nothing to take off the front of a numeral. -/
theorem trimmed_natText (n : ℕ) :
    (if (natText n).dropWhile (· == '0') = [] then ['0'] else (natText n).dropWhile (· == '0')) =
      natText n := by
  have hnumeral := isNumeral_natText n
  cases h : natText n with
  | nil => exact absurd h (natText_ne_nil n)
  | cons c s =>
      rw [h] at hnumeral
      by_cases hc : c = '0'
      · subst hc
        simp only [isNumeral, if_true, List.isEmpty_iff] at hnumeral
        subst hnumeral
        rfl
      · rw [List.dropWhile_cons_of_neg (by simpa using hc), if_neg (List.cons_ne_nil c s)]

/-- The comparison of the texts is that of the numbers. -/
theorem not_exceeds {s max : List Char} :
    (if s.length ≠ max.length then decide (s.length < max.length) else !decide (max < s)) =
      !exceeds s max := by
  unfold exceeds
  by_cases h : s.length = max.length
  · rw [if_neg (not_not.mpr h), h]
    simp
  · rw [if_pos h, beq_eq_false_iff_ne.mpr h, Bool.false_and, Bool.or_false, Bool.eq_iff_iff,
      Bool.not_eq_true', decide_eq_true_iff, decide_eq_false_iff_not]
    omega

theorem int64InRange_intText (v : ℤ) :
    int64InRange (intText v) = true ↔ -2 ^ 63 ≤ v ∧ v < 2 ^ 63 := by
  unfold int64InRange
  simp only [splitMinus_intText, trimmed_natText, not_exceeds]
  by_cases hv : v < 0
  · rw [if_pos (by simpa using hv), exceeds_natText, Bool.not_eq_true', decide_eq_false_iff_not]
    omega
  · rw [if_neg (by simpa using hv), exceeds_natText, Bool.not_eq_true', decide_eq_false_iff_not]
    omega

theorem nonzeroDigits_iff {s : List Char} :
    nonzeroDigits s = true ↔ isNumeral s = true ∧ s ≠ ['0'] := by
  cases s with
  | nil => simp [nonzeroDigits, isNumeral]
  | cons c rest =>
      rw [nonzeroDigits, isNumeral, Bool.and_eq_true, Bool.and_eq_true, bne_iff_ne]
      by_cases hc : c = '0'
      · subst hc
        rw [if_pos rfl, List.isEmpty_iff]
        simp
      · rw [if_neg hc, Bool.and_eq_true]
        simp [hc]

/-- The expression has the texts of the integers. -/
theorem int64Re_iff {text : List Char} : int64Re text = true ↔ ∃ v, text = intText v := by
  rw [int64Re, Bool.or_eq_true, beq_iff_eq, nonzeroDigits_iff, ← canonicalDecimalSyntax_eq,
    canonicalDecimalSyntax_true]
  constructor
  · rintro (rfl | ⟨rfl | h, hne⟩)
    · exact ⟨0, rfl⟩
    · exact absurd rfl hne
    · exact h
  · rintro ⟨v, rfl⟩
    by_cases hz : v = 0
    · subst hz
      exact .inl (by decide)
    · refine .inr ⟨.inr ⟨v, rfl⟩, fun hzero => hz ?_⟩
      rw [splitMinus_intText, ← natText_zero] at hzero
      exact Int.natAbs_eq_zero.mp (natText_inj.mp hzero)

/-- The texts of the `int64_t` numbers. -/
def IsInt64Text (text : List Char) : Prop := ∃ v, isInt64 v ∧ text = intText v

theorem int64Check_iff {text : List Char} :
    (int64Re text && int64InRange text) = true ↔ IsInt64Text text := by
  rw [Bool.and_eq_true, int64Re_iff]
  constructor
  · rintro ⟨⟨v, rfl⟩, hrange⟩
    exact ⟨v, (int64InRange_intText v).mp hrange, rfl⟩
  · rintro ⟨v, hv, rfl⟩
    exact ⟨⟨v, rfl⟩, (int64InRange_intText v).mpr hv⟩

theorem int64ToWire_iff {text out : List Char} (hne : text ≠ ['-', '0']) :
    Generated.int64ToWire text = .ok out ↔ out = text ∧ IsInt64Text text := by
  unfold Generated.int64ToWire
  simp only [if_neg hne]
  by_cases hgrammar : canonicalDecimalSyntax text true = true
  · obtain ⟨v, rfl⟩ := (canonicalDecimalSyntax_true.mp hgrammar).resolve_left hne
    rw [hgrammar, Bool.not_true, if_neg Bool.false_ne_true]
    have hcheck : int64InRange (intText v) = true ↔ IsInt64Text (intText v) := by
      rw [← int64Check_iff, int64Re_iff.mpr ⟨v, rfl⟩, Bool.true_and]
    by_cases hrange : int64InRange (intText v) = true
    · rw [hrange, Bool.not_true, if_neg Bool.false_ne_true]
      constructor
      · rintro ⟨⟩
        exact ⟨rfl, hcheck.mp hrange⟩
      · rintro ⟨rfl, -⟩
        rfl
    · rw [if_pos (by simpa using hrange)]
      constructor
      · rintro ⟨⟩
      · rintro ⟨-, h⟩
        exact absurd (hcheck.mpr h) hrange
  · rw [if_pos (by simpa using hgrammar)]
    constructor
    · rintro ⟨⟩
    · rintro ⟨-, v, -, rfl⟩
      exact absurd (canonicalDecimalSyntax_true.mpr (.inr ⟨v, rfl⟩)) hgrammar

theorem int64FromWire_iff {text : List Char} {out : List Char ⊕ ℤ} :
    Generated.int64FromWire text true = .ok out ↔ out = .inl text ∧ IsInt64Text text := by
  rw [← int64Check_iff]
  unfold Generated.int64FromWire
  by_cases hcheck : (int64Re text && int64InRange text) = true
  · rw [hcheck, Bool.not_true, if_neg Bool.false_ne_true, if_pos rfl]
    constructor
    · rintro ⟨⟩
      exact ⟨rfl, rfl⟩
    · rintro ⟨rfl, -⟩
      rfl
  · rw [Bool.not_eq_true] at hcheck
    rw [hcheck, Bool.not_false, if_pos rfl]
    constructor
    · rintro ⟨⟩
    · rintro ⟨-, ⟨⟩⟩

theorem canonicalInt64_iff {text out : List Char} (hne : text ≠ ['-', '0']) :
    Wire.canonicalInt64 text = .ok out ↔ out = text ∧ IsInt64Text text := by
  constructor
  · intro h
    have hout : out = text := by
      unfold Wire.canonicalInt64 at h
      split_ifs at h
      split at h <;> split_ifs at h <;> cases h <;> rfl
    obtain ⟨v, hv, rfl⟩ := canonicalInt64_eq_ok h
    exact ⟨hout, v, hv, hout.symm⟩
  · rintro ⟨rfl, v, hv, rfl⟩
    exact canonicalInt64_intText hv

/-- The checks of the bridge, made one by one, are those of the adapter. -/
theorem bridge_eq (text : List Char) : Bridge.canonicalInt64 text = parseI64Decimal text := by
  have hjoin := splitMinus_join text
  have hnone : isNumeral (splitMinus text).2 = false → parseI64Decimal text = none := fun h => by
    rw [parseI64Decimal, canonicalDecimalSyntax_eq, h]
    rfl
  unfold Bridge.canonicalInt64
  simp only
  split
  · next h => exact (hnone (by rw [h]; rfl)).symm
  · next c rest h =>
      rw [h] at hnone hjoin
      rw [isNumeral] at hnone
      by_cases hc : c = '0'
      · subst hc
        rw [if_pos rfl]
        rw [if_pos rfl] at hnone
        by_cases hrest : rest = []
        · subst hrest
          rw [if_neg (not_not.mpr rfl), hjoin]
          cases (splitMinus text).1
          · decide
          · decide
        · rw [if_pos hrest, hnone (by simpa using hrest)]
      · rw [if_neg hc]
        rw [if_neg hc] at hnone
        by_cases hdigits : (c.isDigit && rest.all Char.isDigit) = true
        · have hgrammar : canonicalDecimalSyntax text true = true := by
            rw [canonicalDecimalSyntax_eq, h, isNumeral, if_neg hc, hdigits]
          have hne : text ≠ ['-', '0'] := by
            rintro rfl
            exact hc (List.cons.inj h).1.symm
          rw [Bool.and_eq_true] at hdigits
          rw [hdigits.1, hdigits.2, parseI64Decimal, hgrammar, if_neg hne]
          rfl
        · rw [Bool.not_eq_true] at hdigits
          rw [hnone hdigits]
          rw [Bool.and_eq_false_iff] at hdigits
          rcases hdigits with hfalse | hfalse
          · rw [hfalse, Bool.not_false, if_pos rfl]
          · rw [hfalse, Bool.not_false, if_pos rfl, ite_self]

/-- The five readers of an `INT64` take the same texts, `-0` aside: the canonical decimals of
the signed range. The native ones return the integer. -/
theorem int64_readers (text : List Char) (hne : text ≠ ['-', '0']) :
    (Validator.int64Literal text = true ↔ IsInt64Text text) ∧
    (∀ out, Wire.canonicalInt64 text = .ok out ↔ out = text ∧ IsInt64Text text) ∧
    (∀ out, Generated.int64ToWire text = .ok out ↔ out = text ∧ IsInt64Text text) ∧
    (∀ out, Generated.int64FromWire text true = .ok out ↔ out = .inl text ∧ IsInt64Text text) ∧
    (∀ v, parseI64Decimal text = some v ↔ text = intText v ∧ isInt64 v) ∧
    (∀ v, Bridge.canonicalInt64 text = some v ↔ text = intText v ∧ isInt64 v) := by
  refine ⟨int64Check_iff, fun out => canonicalInt64_iff hne, fun out => int64ToWire_iff hne,
    fun out => int64FromWire_iff, fun v => parseI64Decimal_eq_some, fun v => ?_⟩
  rw [bridge_eq, parseI64Decimal_eq_some]

theorem int64_readers_min : IsInt64Text "-9223372036854775808".toList ∧
    Generated.int64ToWire "-9223372036854775808".toList =
      .ok "-9223372036854775808".toList := by
  have htext : "-9223372036854775808".toList = intText (-9223372036854775808) := by decide
  have hin : IsInt64Text "-9223372036854775808".toList :=
    ⟨_, ⟨by decide, by decide⟩, htext⟩
  obtain ⟨-, -, hwire, -⟩ := int64_readers "-9223372036854775808".toList (by decide)
  exact ⟨hin, (hwire _).mpr ⟨rfl, hin⟩⟩

end Esdb.DecimalReaders
