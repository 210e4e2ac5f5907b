import Esdb.Decimal
import Mathlib.Algebra.Order.Field.Rat
import Mathlib.Tactic.FieldSimp
import Mathlib.Tactic.Ring

/-!
# Texts of numbers

A number is written from the shortest digits that stand for it and the place of their point:
with all its places where it is neither large nor small, else with an exponent. What is
written has a value as a decimal, and that is the value of the digits at their place.
-/
namespace JsNumber

open Decimal

/-- Digits behind a point that stands `point` places to the right, the first of them no zero. -/
structure Shortest where
  negative : Bool
  digits : List Char
  point : ℤ
  first : ∃ c s, digits = c :: s ∧ c ≠ '0'
  digit : digits.all Char.isDigit = true

def signed (negative : Bool) (q : ℚ) : ℚ := if negative then -q else q

def scaled (digits : List Char) (e : ℤ) : ℚ := value digits * 10 ^ e

def Shortest.value (s : Shortest) : ℚ :=
  signed s.negative (scaled s.digits (s.point - s.digits.length))

def exponentText (n : ℤ) : List Char :=
  'e' :: (if n < 0 then '-' else '+') :: natText (n - 1).natAbs

/-- `Number::toString` of a positive number. -/
def unsignedText (digits : List Char) (n : ℤ) : List Char :=
  if -5 ≤ n ∧ n ≤ 21 then
    if digits.length ≤ n then digits ++ List.replicate (n - digits.length).toNat '0'
    else if 0 < n then digits.take n.toNat ++ '.' :: digits.drop n.toNat
    else '0' :: '.' :: (List.replicate (-n).toNat '0' ++ digits)
  else
    match digits with
    | [] => []
    | [c] => c :: exponentText n
    | c :: s => c :: '.' :: (s ++ exponentText n)

def numberToString (s : Shortest) : List Char :=
  if s.negative then '-' :: unsignedText s.digits s.point else unsignedText s.digits s.point

/-! ## The value of a text -/

def exponentValue : List Char → ℤ
  | _ :: '-' :: digits => -(value digits : ℤ)
  | _ :: '+' :: digits => value digits
  | _ :: digits => value digits
  | [] => 0

/-- The digits behind a point, and what follows them. -/
def fractionDigits : List Char → List Char × List Char
  | '.' :: s => (s.takeWhile Char.isDigit, s.dropWhile Char.isDigit)
  | s => ([], s)

def unsignedValue (text : List Char) : ℚ :=
  let tail := fractionDigits (text.dropWhile Char.isDigit)
  scaled (text.takeWhile Char.isDigit ++ tail.1) (exponentValue tail.2 - tail.1.length)

def tokenValue : List Char → ℚ
  | '-' :: s => -unsignedValue s
  | s => unsignedValue s

/-! ## The parts of a text -/

/-- Nothing, or an exponent with its sign. -/
inductive Exponent : List Char → ℤ → Prop
  | none : Exponent [] 0
  | minus {digits : List Char} (hne : digits ≠ []) (h : digits.all Char.isDigit = true) :
      Exponent ('e' :: '-' :: digits) (-(value digits : ℤ))
  | plus {digits : List Char} (hne : digits ≠ []) (h : digits.all Char.isDigit = true) :
      Exponent ('e' :: '+' :: digits) (value digits)

/-- A text by its parts: a numeral, digits behind a point if there is one, and an exponent. -/
inductive Spelling : List Char → List Char → List Char → ℤ → Prop
  | plain {whole tail : List Char} {e : ℤ} (hwhole : isNumeral whole = true)
      (htail : Exponent tail e) : Spelling (whole ++ tail) whole [] e
  | fraction {whole digits tail : List Char} {e : ℤ} (hwhole : isNumeral whole = true)
      (hne : digits ≠ []) (h : digits.all Char.isDigit = true) (htail : Exponent tail e) :
      Spelling (whole ++ '.' :: (digits ++ tail)) whole digits e

theorem Exponent.value {tail : List Char} {e : ℤ} (h : Exponent tail e) :
    exponentValue tail = e := by
  cases h <;> rfl

theorem Exponent.head {tail : List Char} {e : ℤ} (h : Exponent tail e) :
    tail = [] ∨ ∃ s, tail = 'e' :: s := by
  cases h with
  | none => exact .inl rfl
  | minus => exact .inr ⟨_, rfl⟩
  | plus => exact .inr ⟨_, rfl⟩

/-- Digits in front of something else are what is taken for digits. -/
theorem takeWhile_digits {digits tail : List Char} (h : digits.all Char.isDigit = true)
    (htail : tail = [] ∨ ∃ c s, tail = c :: s ∧ c.isDigit = false) :
    (digits ++ tail).takeWhile Char.isDigit = digits ∧
      (digits ++ tail).dropWhile Char.isDigit = tail := by
  have hdigits := List.all_eq_true.mp h
  rw [List.takeWhile_append_of_pos hdigits, List.dropWhile_append_of_pos hdigits]
  rcases htail with rfl | ⟨c, s, rfl, hc⟩
  · exact ⟨List.append_nil digits, rfl⟩
  · rw [List.takeWhile_cons_of_neg (by simp [hc]), List.dropWhile_cons_of_neg (by simp [hc])]
    exact ⟨List.append_nil digits, rfl⟩

theorem Exponent.stop {tail : List Char} {e : ℤ} (h : Exponent tail e) :
    tail = [] ∨ ∃ c s, tail = c :: s ∧ c.isDigit = false :=
  h.head.imp_right fun ⟨s, hs⟩ => ⟨'e', s, hs, by decide⟩

theorem Spelling.value {text whole digits : List Char} {e : ℤ} (h : Spelling text whole digits e) :
    unsignedValue text = scaled (whole ++ digits) (e - digits.length) := by
  cases h with
  | @plain _ tail _ hwhole htail =>
      obtain ⟨htake, hdrop⟩ := takeWhile_digits (isNumeral_digits hwhole) htail.stop
      have htokens : fractionDigits tail = ([], tail) := by
        rcases htail.head with rfl | ⟨s, rfl⟩
        · rfl
        · rfl
      rw [unsignedValue, htake, hdrop, htokens, htail.value]
  | @fraction _ _ tail _ hwhole hne hdigits htail =>
      obtain ⟨htake, hdrop⟩ := @takeWhile_digits _ ('.' :: (digits ++ tail))
        (isNumeral_digits hwhole) (.inr ⟨'.', _, rfl, by decide⟩)
      obtain ⟨hfraction, hexponent⟩ := takeWhile_digits hdigits htail.stop
      rw [unsignedValue, htake, hdrop, fractionDigits, hfraction, hexponent, htail.value]

theorem Spelling.head {text whole digits : List Char} {e : ℤ}
    (h : Spelling text whole digits e) : ∃ c s, text = c :: s ∧ c.isDigit = true := by
  have hfirst (hwhole : isNumeral whole = true) (rest : List Char) :
      ∃ c s, whole ++ rest = c :: s ∧ c.isDigit = true := by
    have hdigits := isNumeral_digits hwhole
    cases whole with
    | nil => cases hwhole
    | cons c s => exact ⟨c, s ++ rest, rfl, (Bool.and_eq_true_iff.mp hdigits).1⟩
  cases h with
  | plain hwhole => exact hfirst hwhole _
  | fraction hwhole => exact hfirst hwhole _

/-! ## What is written -/

theorem value_zeros (n : ℕ) : value (List.replicate n '0') = 0 := by
  induction n with
  | zero => rfl
  | succ n ih => rw [List.replicate_succ, value_cons, ih, show '0'.toNat - 48 = 0 from rfl,
      Nat.mul_zero]

/-- Zeros in front of digits are nothing. -/
theorem scaled_leading (n : ℕ) (digits : List Char) (e : ℤ) :
    scaled ('0' :: (List.replicate n '0' ++ digits)) e = scaled digits e := by
  rw [scaled, scaled, value_cons, value_append, value_zeros, show '0'.toNat - 48 = 0 from rfl,
    Nat.mul_zero, Nat.mul_zero, Nat.zero_add, Nat.zero_add]

/-- Zeros behind digits are powers of ten. -/
theorem scaled_trailing (n : ℕ) (digits : List Char) :
    scaled (digits ++ List.replicate n '0') 0 = scaled digits n := by
  rw [scaled, scaled, value_append, value_zeros, List.length_replicate, zpow_natCast]
  push_cast
  ring

theorem isNumeral_cons {c : Char} {s : List Char} (hc : c ≠ '0') (hdigit : c.isDigit = true)
    (hs : s.all Char.isDigit = true) : isNumeral (c :: s) = true := by
  rw [isNumeral, if_neg hc, hdigit, hs]
  rfl

/-- The exponent of a number that is large or small. -/
theorem exponent_written {n : ℤ} (h : ¬(-5 ≤ n ∧ n ≤ 21)) :
    Exponent (exponentText n) (n - 1) := by
  have hdigits : (natText (n - 1).natAbs).all Char.isDigit = true :=
    List.all_eq_true.mpr fun c => isDigit_natText
  have hvalue := value_natText (n - 1).natAbs
  unfold exponentText
  split_ifs with hn
  · have hminus := Exponent.minus (natText_ne_nil (n - 1).natAbs) hdigits
    rw [hvalue] at hminus
    rwa [show -((n - 1).natAbs : ℤ) = n - 1 by omega] at hminus
  · have hplus := Exponent.plus (natText_ne_nil (n - 1).natAbs) hdigits
    rw [hvalue] at hplus
    rwa [show ((n - 1).natAbs : ℤ) = n - 1 by omega] at hplus

/-- What is written has parts, and they are worth the digits at their place. -/
theorem unsignedText_spelling {c : Char} {s : List Char} (hc : c ≠ '0')
    (hdigit : (c :: s).all Char.isDigit = true) (n : ℤ) :
    ∃ whole digits e, Spelling (unsignedText (c :: s) n) whole digits e ∧
      scaled (whole ++ digits) (e - digits.length) = scaled (c :: s) (n - (c :: s).length) := by
  obtain ⟨hcDigit, hs⟩ := Bool.and_eq_true_iff.mp (List.all_cons.symm.trans hdigit)
  unfold unsignedText
  split_ifs with hrange hlong hpoint
  · -- All digits stand in front of the point.
    obtain ⟨m, hm⟩ := Int.eq_ofNat_of_zero_le (sub_nonneg.mpr hlong)
    have hzeros : (s ++ List.replicate m '0').all Char.isDigit = true := by
      rw [List.all_append, hs, Bool.true_and, List.all_eq_true]
      intro d hd
      rw [List.eq_of_mem_replicate hd]
      decide
    have hnumeral : isNumeral (c :: s ++ List.replicate m '0') = true :=
      isNumeral_cons hc hcDigit hzeros
    have hspelling := Spelling.plain hnumeral .none
    rw [List.append_nil] at hspelling
    rw [hm, Int.toNat_natCast]
    refine ⟨_, [], 0, hspelling, ?_⟩
    rw [List.append_nil, List.length_nil, Nat.cast_zero, sub_zero, scaled_trailing]
  · -- The point is among the digits.
    have hlength : n.toNat < (c :: s).length := by omega
    obtain ⟨m, hm⟩ : ∃ m, n.toNat = m + 1 := ⟨n.toNat - 1, by omega⟩
    have hwhole : isNumeral ((c :: s).take n.toNat) = true := by
      rw [hm, List.take_succ_cons]
      refine isNumeral_cons hc hcDigit (List.all_eq_true.mpr fun d hd => ?_)
      exact List.all_eq_true.mp hs d (List.mem_of_mem_take hd)
    have hne : (c :: s).drop n.toNat ≠ [] := by
      rw [Ne, List.drop_eq_nil_iff]
      omega
    have hdrop : ((c :: s).drop n.toNat).all Char.isDigit = true :=
      List.all_eq_true.mpr fun d hd => List.all_eq_true.mp hdigit d (List.mem_of_mem_drop hd)
    have hspelling := Spelling.fraction hwhole hne hdrop .none
    rw [List.append_nil] at hspelling
    refine ⟨_, _, 0, hspelling, ?_⟩
    rw [List.take_append_drop, List.length_drop]
    congr 1
    omega
  · -- The point stands in front of zeros.
    have hdigits : (List.replicate (-n).toNat '0' ++ c :: s).all Char.isDigit = true := by
      rw [List.all_append, hdigit, Bool.and_true, List.all_eq_true]
      intro d hd
      rw [List.eq_of_mem_replicate hd]
      decide
    have hspelling := @Spelling.fraction ['0'] _ [] 0 (by decide) (by simp) hdigits .none
    rw [List.append_nil] at hspelling
    refine ⟨['0'], _, 0, hspelling, ?_⟩
    rw [List.singleton_append, scaled_leading, List.length_append, List.length_replicate]
    congr 1
    push_cast
    omega
  · have hexponent := exponent_written hrange
    have hwhole : isNumeral [c] = true := isNumeral_cons hc hcDigit rfl
    cases s with
    | nil =>
        refine ⟨[c], [], n - 1, .plain hwhole hexponent, ?_⟩
        rw [List.append_nil, List.length_nil, List.length_singleton]
        congr 1
        push_cast
        ring
    | cons d s =>
        refine ⟨[c], d :: s, n - 1, .fraction hwhole (List.cons_ne_nil d s) hs hexponent, ?_⟩
        rw [List.singleton_append, @List.length_cons _ c]
        congr 1
        push_cast
        ring

/-- The text of a number is worth the number. -/
theorem tokenValue_numberToString (s : Shortest) : tokenValue (numberToString s) = s.value := by
  obtain ⟨c, t, hdigits, hc⟩ := s.first
  have hdigit := s.digit
  rw [hdigits] at hdigit
  obtain ⟨whole, fraction, e, hspelling, hscaled⟩ := unsignedText_spelling hc hdigit s.point
  have hvalue := hspelling.value.trans hscaled
  rw [numberToString, Shortest.value, hdigits]
  cases s.negative with
  | true =>
      rw [if_pos rfl, tokenValue, hvalue]
      rfl
  | false =>
      rw [if_neg Bool.false_ne_true, signed, if_neg Bool.false_ne_true, ← hvalue]
      refine tokenValue.eq_2 _ fun rest hrest => ?_
      obtain ⟨d, r, htext, hd⟩ := hspelling.head
      rw [hrest] at htext
      rw [← (List.cons.inj htext).1] at hd
      exact absurd hd (by decide)

/-- The digits are worth something, so the value is not zero. -/
theorem Shortest.value_ne_zero (s : Shortest) : s.value ≠ 0 := by
  obtain ⟨c, t, hdigits, hc⟩ := s.first
  have hdigit := s.digit
  rw [hdigits] at hdigit
  obtain ⟨hcDigit, ht⟩ := Bool.and_eq_true_iff.mp (List.all_cons.symm.trans hdigit)
  have hpos : 0 < Decimal.value s.digits := by
    rw [hdigits]
    exact Nat.lt_of_lt_of_le (Nat.pow_pos (by decide))
      (value_le (isNumeral_cons hc hcDigit ht) hc)
  have hscaled : scaled s.digits (s.point - s.digits.length) ≠ 0 :=
    mul_ne_zero (Nat.cast_ne_zero.mpr hpos.ne') (zpow_ne_zero _ (by decide))
  rw [Shortest.value, signed]
  split_ifs
  · exact neg_ne_zero.mpr hscaled
  · exact hscaled

/-- The text of a number is its sign and a text with parts. -/
theorem numberToString_spelling (s : Shortest) : ∃ text whole digits e,
    Spelling text whole digits e ∧
      numberToString s = if s.negative then '-' :: text else text := by
  obtain ⟨c, t, hdigits, hc⟩ := s.first
  have hdigit := s.digit
  rw [hdigits] at hdigit
  obtain ⟨whole, fraction, e, hspelling, -⟩ := unsignedText_spelling hc hdigit s.point
  exact ⟨_, _, _, _, hspelling, by rw [numberToString, hdigits]⟩

end JsNumber
