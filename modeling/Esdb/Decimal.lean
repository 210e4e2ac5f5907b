import Mathlib.Algebra.Order.Ring.Nat
import Mathlib.Data.Int.Notation
import Mathlib.Data.List.Induction
import Mathlib.Data.Nat.Notation

/-!
# Decimal numerals

A natural number has one numeral without leading zeros, and an integer the numeral of its
size, after a minus where it is negative. Numerals of one length are in the order of
their texts, so a bound can be checked before anything is converted.
-/
namespace Decimal

def natText (n : ℕ) : List Char := Nat.toDigits 10 n

def intText (v : ℤ) : List Char :=
  if v < 0 then '-' :: natText v.natAbs else natText v.natAbs

/-- The number of a text of digits. -/
def value (s : List Char) : ℕ := Nat.ofDigitChars 10 s 0

/-- Digits, of which the first is no zero unless it is the only one. -/
def isNumeral : List Char → Bool
  | [] => false
  | c :: s => if c = '0' then s.isEmpty else c.isDigit && s.all Char.isDigit

/-! ## Digits -/

theorem digit_lt {c : Char} (h : c.isDigit = true) : c.toNat - 48 < 10 := by
  have := Char.isDigit_iff_toNat.mp h
  simp only [Char.reduceToNat] at this
  omega

theorem digitChar_digit {c : Char} (h : c.isDigit = true) : (c.toNat - 48).digitChar = c := by
  have hrange := Char.isDigit_iff_toNat.mp h
  simp only [Char.reduceToNat] at hrange
  apply Char.toNat_inj.mp
  rw [Nat.toNat_digitChar_of_lt_ten (digit_lt h)]
  omega

theorem value_append (s t : List Char) : value (s ++ t) = 10 ^ t.length * value s + value t := by
  rw [value, Nat.ofDigitChars_append, Nat.ofDigitChars_eq_ofDigitChars_zero]
  rfl

theorem value_singleton (c : Char) : value [c] = c.toNat - 48 := by
  simp [value, Nat.ofDigitChars_cons]

theorem value_cons (c : Char) (s : List Char) :
    value (c :: s) = 10 ^ s.length * (c.toNat - 48) + value s := by
  rw [← List.singleton_append, value_append, value_singleton]

theorem value_lt {s : List Char} (h : s.all Char.isDigit = true) : value s < 10 ^ s.length := by
  induction s with
  | nil => simp [value]
  | cons c s ih =>
      rw [List.all_cons, Bool.and_eq_true] at h
      have hs := ih h.2
      have hc := digit_lt h.1
      rw [value_cons, List.length_cons, pow_succ]
      have hmul : 10 ^ s.length * (c.toNat - 48) ≤ 10 ^ s.length * 9 :=
        Nat.mul_le_mul_left _ (by omega)
      omega

/-! ## Numerals -/

@[simp] theorem value_natText (n : ℕ) : value (natText n) = n := Nat.ofDigitChars_ten_toDigits

theorem natText_inj {m n : ℕ} : natText m = natText n ↔ m = n := by
  refine ⟨fun h => ?_, fun h => h ▸ rfl⟩
  rw [← value_natText m, h, value_natText]

theorem isDigit_natText {n : ℕ} {c : Char} (h : c ∈ natText n) : c.isDigit = true :=
  Nat.isDigit_of_mem_toDigits (by decide) (by decide) h

theorem natText_ne_nil (n : ℕ) : natText n ≠ [] := Nat.toDigits_ne_nil

/-- The last digit comes off the end. -/
theorem natText_eq (n : ℕ) : natText n =
    if n < 10 then [n.digitChar] else natText (n / 10) ++ [(n % 10).digitChar] :=
  Nat.toDigits_eq_if (by decide)

theorem isNumeral_digits {s : List Char} (h : isNumeral s = true) :
    s.all Char.isDigit = true := by
  cases s with
  | nil => rfl
  | cons c s =>
      simp only [isNumeral] at h
      split_ifs at h with hc
      · rw [List.isEmpty_iff] at h
        subst hc h
        decide
      · exact h

theorem isNumeral_append {s : List Char} {d : Char} (hs : isNumeral s = true) (hne : s ≠ ['0'])
    (hd : d.isDigit = true) : isNumeral (s ++ [d]) = true := by
  cases s with
  | nil => cases hs
  | cons c s =>
      simp only [isNumeral] at hs
      rw [List.cons_append, isNumeral]
      split_ifs at hs ⊢ with hc
      · rw [List.isEmpty_iff] at hs
        subst hc hs
        exact absurd rfl hne
      · rw [List.all_append, List.all_cons, List.all_nil, Bool.and_true, hd, Bool.and_true]
        exact hs

theorem isNumeral_natText (n : ℕ) : isNumeral (natText n) = true := by
  induction n using Nat.strong_induction_on with
  | _ n ih =>
      rw [natText_eq]
      split_ifs with h
      · have hdigit : n.digitChar.isDigit = true := by simp [Nat.isDigit_digitChar, h]
        simp [isNumeral, hdigit]
      · refine isNumeral_append (ih (n / 10) (by omega)) (fun hz => ?_) ?_
        · have hzero := congrArg value hz
          rw [value_natText, value_singleton] at hzero
          simp only [Char.reduceToNat] at hzero
          omega
        · rw [Nat.isDigit_digitChar]
          exact decide_eq_true (Nat.mod_lt _ (by decide))

/-- A numeral with a digit more is the numeral of the number with that digit. -/
theorem natText_concat {n : ℕ} (hn : 0 < n) {d : Char} (hd : d.isDigit = true) :
    natText (10 * n + (d.toNat - 48)) = natText n ++ [d] := by
  have hlt := digit_lt hd
  rw [natText_eq, if_neg (by omega)]
  congr 2
  · omega
  · rw [show (10 * n + (d.toNat - 48)) % 10 = d.toNat - 48 by omega, digitChar_digit hd]

theorem value_le {c : Char} {s : List Char} (h : isNumeral (c :: s) = true) (hc : c ≠ '0') :
    10 ^ s.length ≤ value (c :: s) := by
  have hdigits := isNumeral_digits h
  rw [List.all_cons, Bool.and_eq_true] at hdigits
  have hrange := Char.isDigit_iff_toNat.mp hdigits.1
  simp only [Char.reduceToNat] at hrange
  have hne : c.toNat ≠ 48 := fun he => hc (Char.toNat_inj.mp he)
  rw [value_cons]
  have := Nat.le_mul_of_pos_right (10 ^ s.length) (show 0 < c.toNat - 48 by omega)
  omega

theorem natText_value {s : List Char} (h : isNumeral s = true) : natText (value s) = s := by
  induction s using List.reverseRecOn with
  | nil => cases h
  | append_singleton s d ih =>
      cases s with
      | nil =>
          have hd : d.isDigit = true := by
            have := isNumeral_digits h
            simpa using this
          rw [List.nil_append, value_singleton, natText_eq, if_pos (digit_lt hd),
            digitChar_digit hd]
      | cons c s =>
          have hdigits := isNumeral_digits h
          rw [List.all_append, Bool.and_eq_true] at hdigits
          have hd : d.isDigit = true := by simpa using hdigits.2
          have hc : c ≠ '0' := by
            rintro rfl
            simp [isNumeral] at h
          have hs : isNumeral (c :: s) = true := by
            rw [isNumeral, if_neg hc]
            simpa using hdigits.1
          rw [value_append, List.length_singleton, pow_one, value_singleton,
            natText_concat (Nat.lt_of_lt_of_le (Nat.pow_pos (by decide)) (value_le hs hc)) hd, ih hs]

/-- The numerals are the texts of the numbers. -/
theorem isNumeral_iff {s : List Char} : isNumeral s = true ↔ ∃ n, s = natText n :=
  ⟨fun h => ⟨value s, (natText_value h).symm⟩, fun ⟨n, h⟩ => h ▸ isNumeral_natText n⟩

/-! ## Comparing texts -/

/-- A shorter numeral is less. -/
theorem value_lt_of_length {s t : List Char} (hs : isNumeral s = true) (ht : isNumeral t = true)
    (h : s.length < t.length) : value s < value t := by
  have hpos : 0 < s.length := by
    rw [List.length_pos_iff]
    rintro rfl
    cases hs
  cases t with
  | nil => cases ht
  | cons c t =>
      rw [List.length_cons] at h
      have hc : c ≠ '0' := by
        rintro rfl
        simp only [isNumeral, if_true, List.isEmpty_iff] at ht
        subst ht
        rw [List.length_nil] at h
        omega
      calc value s < 10 ^ s.length := value_lt (isNumeral_digits hs)
        _ ≤ 10 ^ t.length := Nat.pow_le_pow_right (by decide) (by omega)
        _ ≤ value (c :: t) := value_le ht hc

/-- Among texts of digits of one length the order of the texts is that of the numbers. -/
theorem lt_iff_value {s t : List Char} (hs : s.all Char.isDigit = true)
    (ht : t.all Char.isDigit = true) (h : s.length = t.length) : s < t ↔ value s < value t := by
  induction s generalizing t with
  | nil =>
      obtain rfl := List.length_eq_zero_iff.mp h.symm
      simp
  | cons c s ih =>
      cases t with
      | nil => simp at h
      | cons d t =>
          rw [List.length_cons, List.length_cons, Nat.add_right_cancel_iff] at h
          rw [List.all_cons, Bool.and_eq_true] at hs ht
          have hlt := value_lt hs.2
          have hlt' := value_lt ht.2
          have hc := Char.isDigit_iff_toNat.mp hs.1
          have hd := Char.isDigit_iff_toNat.mp ht.1
          simp only [Char.reduceToNat] at hc hd
          rw [List.cons_lt_cons_iff, ih hs.2 ht.2 h, value_cons, value_cons, ← h]
          rw [← h] at hlt'
          have hchar : c < d ↔ c.toNat < d.toNat := Iff.rfl
          rw [hchar, ← Char.toNat_inj]
          constructor
          · rintro (hlt'' | ⟨heq, hrest⟩)
            · have hmul := Nat.mul_le_mul_left (10 ^ s.length)
                (show (c.toNat - 48) + 1 ≤ d.toNat - 48 by omega)
              rw [Nat.mul_add, Nat.mul_one] at hmul
              omega
            · rw [heq]
              omega
          · intro hval
            rcases Nat.lt_trichotomy c.toNat d.toNat with hcd | hcd | hcd
            · exact .inl hcd
            · rw [hcd] at hval
              exact .inr ⟨hcd, by omega⟩
            · have hmul := Nat.mul_le_mul_left (10 ^ s.length)
                (show (d.toNat - 48) + 1 ≤ c.toNat - 48 by omega)
              rw [Nat.mul_add, Nat.mul_one] at hmul
              omega

/-- `text.length > max.length || (text.length == max.length && text > max)`. -/
def exceeds (s max : List Char) : Bool :=
  decide (max.length < s.length) || (s.length == max.length && decide (max < s))

theorem exceeds_iff {s max : List Char} (hs : isNumeral s = true) (hmax : isNumeral max = true) :
    exceeds s max = true ↔ value max < value s := by
  unfold exceeds
  rw [Bool.or_eq_true, Bool.and_eq_true, beq_iff_eq, decide_eq_true_iff, decide_eq_true_iff]
  rcases Nat.lt_trichotomy s.length max.length with h | h | h
  · have := value_lt_of_length hs hmax h
    omega
  · rw [lt_iff_value (isNumeral_digits hmax) (isNumeral_digits hs) h.symm]
    omega
  · have := value_lt_of_length hmax hs h
    omega

theorem exceeds_natText (n m : ℕ) : exceeds (natText n) (natText m) = decide (m < n) := by
  rw [Bool.eq_iff_iff, exceeds_iff (isNumeral_natText n) (isNumeral_natText m), value_natText,
    value_natText, decide_eq_true_iff]

end Decimal
