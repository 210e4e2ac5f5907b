import Esdb.Types
import Esdb.Utf8

/-!
# The four readers of UTF-8

`valid_utf8` of the runtime and `utf8_valid` of the bridge's wire look at bytes;
`utf8FromHex` of the script facade and `hexToUtf8` of the generated client read the bytes
from hex digits and make the UTF-16 text. Each is a loop over characters that knows one by
its own tests.
-/
namespace Esdb.Utf8Readers

open Utf8

/-! ## Bytes -/

/-- The bits of the code that a first byte has, and how many bytes follow it. -/
def leadByte (lead : ℕ) : Option (ℕ × ℕ) :=
  if 0xc2 ≤ lead ∧ lead ≤ 0xdf then some (lead &&& 0x1f, 1)
  else if 0xe0 ≤ lead ∧ lead ≤ 0xef then some (lead &&& 0x0f, 2)
  else if 0xf0 ≤ lead ∧ lead ≤ 0xf4 then some (lead &&& 0x07, 3)
  else none

/-- The loop over the continuation bytes, each of which must pass `isTail`. -/
def continuation (isTail : ℕ → Bool) : ℕ → List UInt8 → Option ℕ
  | code, [] => some code
  | code, b :: s =>
      if isTail b.toNat then continuation isTail (code <<< 6 ||| (b.toNat &&& 0x3f)) s else none

/-- A turn of the loop in `valid_utf8`, at the byte `c`. -/
def validUtf8Turn (c : UInt8) (s : Bytes) : Except Unit (ℕ × ℕ) :=
  if c.toNat ≤ 0x7f then .ok (0, c.toNat)
  else
    match leadByte c.toNat with
    | none => .error ()
    | some (code, need) =>
        if s.length < need then .error ()
        else
          match continuation (fun cc => cc &&& 0xc0 = 0x80) code (s.take need) with
          | none => .error ()
          | some code =>
              if (need = 2 ∧ code < 0x800) ∨ (need = 3 ∧ code < 0x10000) then .error ()
              else if 0xd800 ≤ code ∧ code ≤ 0xdfff then .error ()
              else if 0x10ffff < code then .error ()
              else .ok (need, code)

/-- `valid_utf8`. -/
def validUtf8 (text : Bytes) : Bool := (scan validUtf8Turn text).isOk

/-- A turn of the loop in `utf8_valid`, at the byte `lead`. -/
def utf8ValidTurn (lead : UInt8) (s : Bytes) : Except Unit (ℕ × ℕ) :=
  if lead.toNat < 0x80 then .ok (0, lead.toNat)
  else
    match leadByte lead.toNat with
    | none => .error ()
    | some (code, extra) =>
        if s.length + 1 ≤ extra then .error ()
        else
          match continuation (fun b => ¬(b < 0x80 ∨ 0xbf < b)) code (s.take extra) with
          | none => .error ()
          | some code =>
              if extra = 2 ∧ (code < 0x800 ∨ (0xd800 ≤ code ∧ code ≤ 0xdfff)) then .error ()
              else if extra = 3 ∧ (code < 0x10000 ∨ 0x10ffff < code) then .error ()
              else .ok (extra, code)

/-- `utf8_valid`. -/
def utf8Valid (bytes : Bytes) : Bool := (scan utf8ValidTurn bytes).isOk

/-! ## Hex digits -/

/-- `nibble`, without its -1. -/
def nibble (c : Char) : Option ℕ :=
  let code := c.toNat
  if 48 ≤ code ∧ code ≤ 57 then some (code - 48)
  else if 65 ≤ code ∧ code ≤ 70 then some (code - 55)
  else if 97 ≤ code ∧ code ≤ 102 then some (code - 87)
  else none

/-- The byte of two digits; none where one is -1 and the combination is negative. -/
def digitPair (hi lo : Char) : Option UInt8 :=
  match nibble hi, nibble lo with
  | some h, some l => some (UInt8.ofNat (h <<< 4 ||| l))
  | _, _ => none

/-- `normalizeHex`. -/
def normalizeHex (text : List Char) : Except String (List Char) :=
  if text.length &&& 1 ≠ 0 then .error "hex payload must contain an even number of digits"
  else if text.any fun c => (nibble c).isNone then
    .error "hex payload contains a non-hex character"
  else .ok (text.map Char.toUpper)

/-- The loop of `hexBytes`, on digits that have been normalized. -/
def pairs : List Char → Bytes
  | hi :: lo :: s => (digitPair hi lo).toList ++ pairs s
  | _ => []

/-- `hexBytes`. -/
def hexBytes (hex : List Char) : Except String Bytes := (normalizeHex hex).map pairs

/-- A turn of the loop in `utf8FromHex`, at the byte `b0`: the UTF-16 units it makes. -/
def utf8FromHexTurn (b0 : UInt8) (s : Bytes) : Except String (ℕ × List ℕ) :=
  if b0.toNat ≤ 0x7f then .ok (0, [b0.toNat])
  else if 0xc2 ≤ b0.toNat ∧ b0.toNat ≤ 0xdf then
    match s with
    | b1 :: _ =>
        if b1.toNat &&& 0xc0 ≠ 0x80 then .error "invalid UTF-8 continuation byte"
        else .ok (1, [(b0.toNat &&& 0x1f) <<< 6 ||| (b1.toNat &&& 0x3f)])
    | _ => .error "truncated UTF-8 sequence"
  else if 0xe0 ≤ b0.toNat ∧ b0.toNat ≤ 0xef then
    match s with
    | b1 :: b2 :: _ =>
        if b1.toNat &&& 0xc0 ≠ 0x80 ∨ b2.toNat &&& 0xc0 ≠ 0x80 then
          .error "invalid UTF-8 continuation byte"
        else if b0.toNat = 0xe0 ∧ b1.toNat < 0xa0 then .error "overlong UTF-8 sequence"
        else if b0.toNat = 0xed ∧ 0xa0 ≤ b1.toNat then .error "UTF-8 encodes a surrogate"
        else .ok (2, [(b0.toNat &&& 0x0f) <<< 12 ||| (b1.toNat &&& 0x3f) <<< 6 |||
          (b2.toNat &&& 0x3f)])
    | _ => .error "truncated UTF-8 sequence"
  else if 0xf0 ≤ b0.toNat ∧ b0.toNat ≤ 0xf4 then
    match s with
    | b1 :: b2 :: b3 :: _ =>
        if b1.toNat &&& 0xc0 ≠ 0x80 ∨ b2.toNat &&& 0xc0 ≠ 0x80 ∨ b3.toNat &&& 0xc0 ≠ 0x80 then
          .error "invalid UTF-8 continuation byte"
        else if b0.toNat = 0xf0 ∧ b1.toNat < 0x90 then .error "overlong UTF-8 sequence"
        else if b0.toNat = 0xf4 ∧ 0x90 ≤ b1.toNat then
          .error "UTF-8 code point exceeds U+10FFFF"
        else
          let point := ((b0.toNat &&& 0x07) <<< 18 ||| (b1.toNat &&& 0x3f) <<< 12 |||
            (b2.toNat &&& 0x3f) <<< 6 ||| (b3.toNat &&& 0x3f)) - 0x10000
          .ok (3, [0xd800 ||| ((point >>> 10) &&& 0x3ff), 0xdc00 ||| (point &&& 0x3ff)])
    | _ => .error "truncated UTF-8 sequence"
  else .error "invalid UTF-8 lead byte"

/-- `utf8FromHex`, with its result as UTF-16 units. -/
def utf8FromHex (hex : List Char) : Except String (List ℕ) :=
  match hexBytes hex with
  | .error e => .error e
  | .ok bytes => (scan utf8FromHexTurn bytes).map List.flatten

/-- The inner loop of `hexToUtf8` after the lead byte `b`: the turn number `j` of it, with `n`
to come. -/
def hexContinuation (b : ℕ) : ℕ → ℕ → ℕ → List Char → Except String ℕ
  | _, 0, code, _ => .ok code
  | j, n + 1, code, hi :: lo :: s =>
      match digitPair hi lo with
      | none => .error "invalid UTF-8 continuation byte"
      | some b2 =>
          if b2.toNat < 0x80 ∨ 0xbf < b2.toNat then .error "invalid UTF-8 continuation byte"
          else if j = 0 ∧ b = 0xe0 ∧ b2.toNat < 0xa0 then .error "overlong UTF-8 sequence"
          else if j = 0 ∧ b = 0xed ∧ 0xa0 ≤ b2.toNat then .error "UTF-8 encodes a surrogate"
          else if j = 0 ∧ b = 0xf0 ∧ b2.toNat < 0x90 then .error "overlong UTF-8 sequence"
          else if j = 0 ∧ b = 0xf4 ∧ 0x90 ≤ b2.toNat then
            .error "UTF-8 code point exceeds U+10FFFF"
          else hexContinuation b (j + 1) n (code <<< 6 ||| (b2.toNat &&& 0x3f)) s
  | _, _, _, _ => .error "truncated UTF-8 sequence"

/-- A turn of the loop in `hexToUtf8`, at the digit `hi`. -/
def hexToUtf8Turn (hi : Char) (s : List Char) : Except String (ℕ × List ℕ) :=
  match s with
  | [] => .error "hex payload contains a non-hex character"
  | lo :: s =>
      match digitPair hi lo with
      | none => .error "hex payload contains a non-hex character"
      | some b =>
          if b.toNat < 0x80 then .ok (1, [b.toNat])
          else
            match leadByte b.toNat with
            | none => .error "invalid UTF-8 lead byte"
            | some (code, extra) =>
                if s.length < extra * 2 then .error "truncated UTF-8 sequence"
                else
                  (hexContinuation b.toNat 0 extra code s).map fun code =>
                    (1 + extra * 2,
                      if 0xffff < code then
                        [0xd800 + ((code - 0x10000) >>> 10), 0xdc00 + ((code - 0x10000) &&& 0x3ff)]
                      else [code])

/-- `hexToUtf8`, with its result as UTF-16 units. -/
def hexToUtf8 (hex : List Char) : Except String (List ℕ) :=
  if hex.length &&& 1 ≠ 0 then .error "hex payload must contain an even number of digits"
  else (scan hexToUtf8Turn hex).map List.flatten

/-! ## First bytes and their codes -/

theorem and_low (n : ℕ) : n &&& 0x1f = n % 32 ∧ n &&& 0x0f = n % 16 ∧ n &&& 0x07 = n % 8 ∧
    n &&& 0x3f = n % 64 ∧ n &&& 0x3ff = n % 1024 :=
  ⟨Nat.and_two_pow_sub_one_eq_mod n 5, Nat.and_two_pow_sub_one_eq_mod n 4,
    Nat.and_two_pow_sub_one_eq_mod n 3, Nat.and_two_pow_sub_one_eq_mod n 6,
    Nat.and_two_pow_sub_one_eq_mod n 10⟩

/-- A further continuation byte. -/
theorem shift_or (code b : ℕ) : code <<< 6 ||| (b &&& 0x3f) = code * 64 + b % 64 := by
  rw [(and_low b).2.2.2.1, ← Nat.shiftLeft_add_eq_or_of_lt (by omega), Nat.shiftLeft_eq]

theorem high_bits (b : UInt8) : b.toNat &&& 0xc0 = 0x80 ↔ Tail b := by
  have hall : ∀ n < 256, n &&& 0xc0 = 0x80 ↔ 0x80 ≤ n ∧ n ≤ 0xBF := by decide +kernel
  exact hall b.toNat b.toNat_lt

theorem leadByte_eq (lead : ℕ) : leadByte lead =
    if 0xC2 ≤ lead ∧ lead ≤ 0xDF then some (lead % 32, 1)
    else if 0xE0 ≤ lead ∧ lead ≤ 0xEF then some (lead % 16, 2)
    else if 0xF0 ≤ lead ∧ lead ≤ 0xF4 then some (lead % 8, 3)
    else none := by
  obtain ⟨h₅, h₄, h₃, -⟩ := and_low lead
  rw [leadByte, h₅, h₄, h₃]

@[simp] theorem continuation_nil (isTail : ℕ → Bool) (code : ℕ) :
    continuation isTail code [] = some code := rfl

section
variable {isTail : ℕ → Bool} (htail : ∀ b : UInt8, isTail b.toNat = true ↔ Tail b)
include htail

theorem continuation_cons (code : ℕ) (b : UInt8) (s : List UInt8) :
    continuation isTail code (b :: s) =
      if Tail b then continuation isTail (code * 64 + b.toNat % 64) s else none := by
  simp only [continuation, htail, shift_or]

/-- Reading by a first byte and then a test of the code, against the ranges of the second byte. -/
theorem checked_eq_first {test : ℕ → ℕ → Bool}
    (htwo : ∀ code, code < 0x800 → test 1 code = true)
    (hthree : ∀ code, code < 0x10000 → (test 2 code = true ↔ 0x800 ≤ code ∧ ¬(0xd800 ≤ code ∧ code ≤ 0xdfff)))
    (hfour : ∀ code, test 3 code = true ↔ 0x10000 ≤ code ∧ code ≤ 0x10ffff)
    {c : UInt8} (s : Bytes) (hc : ¬c.toNat ≤ 0x7F) :
    (match leadByte c.toNat with
      | none => none
      | some (code, need) =>
          if s.length < need then none
          else
            match continuation isTail code (s.take need) with
            | none => none
            | some code => if test need code then some (need, code) else none) = first c s := by
  unfold first
  rw [leadByte_eq, if_neg hc]
  by_cases h₂ : 0xC2 ≤ c.toNat ∧ c.toNat ≤ 0xDF
  · rw [if_pos h₂, if_pos h₂]
    cases s with
    | nil => rfl
    | cons b s =>
        have hlen : ¬(b :: s).length < 1 := by simp
        simp only [hlen, if_false, List.take_succ_cons, List.take_zero, continuation_cons htail, continuation_nil]
        by_cases hb : Tail b
        · have hcode : test 1 (c.toNat % 32 * 64 + b.toNat % 64) = true := htwo _ (by omega)
          simp [hb, hcode]
        · simp [hb]
  rw [if_neg h₂, if_neg h₂]
  by_cases h₃ : 0xE0 ≤ c.toNat ∧ c.toNat ≤ 0xEF
  · rw [if_pos h₃, if_pos h₃]
    match s with
    | [] => rfl
    | [b] => rfl
    | b :: d :: s =>
        have hlen : ¬(b :: d :: s).length < 2 := by simp
        simp only [hlen, if_false, List.take_succ_cons, List.take_zero, continuation_cons htail, continuation_nil]
        by_cases hb : Tail b
        · by_cases hd : Tail d
          · have hcode : test 2 ((c.toNat % 16 * 64 + b.toNat % 64) * 64 + d.toNat % 64) = true ↔
                (c.toNat = 0xE0 → 0xA0 ≤ b.toNat) ∧ (c.toNat = 0xED → b.toNat < 0xA0) := by
              obtain ⟨hb₁, hb₂⟩ := hb
              obtain ⟨hd₁, hd₂⟩ := hd
              rw [hthree _ (by omega)]
              omega
            have hsum : (c.toNat % 16 * 64 + b.toNat % 64) * 64 + d.toNat % 64 =
                c.toNat % 16 * 4096 + b.toNat % 64 * 64 + d.toNat % 64 := by omega
            rw [hsum] at hcode
            simp [hb, hd, hcode, hsum]
          · simp [hb, hd]
        · simp [hb]
  rw [if_neg h₃, if_neg h₃]
  by_cases h₄ : 0xF0 ≤ c.toNat ∧ c.toNat ≤ 0xF4
  · rw [if_pos h₄, if_pos h₄]
    match s with
    | [] => rfl
    | [b] => rfl
    | [b, d] => rfl
    | b :: d :: e :: s =>
        have hlen : ¬(b :: d :: e :: s).length < 3 := by simp
        simp only [hlen, if_false, List.take_succ_cons, List.take_zero, continuation_cons htail, continuation_nil]
        by_cases hall : Tail b ∧ Tail d ∧ Tail e
        · obtain ⟨hb, hd, he⟩ := hall
          have hcode : test 3 (((c.toNat % 8 * 64 + b.toNat % 64) * 64 + d.toNat % 64) * 64 +
              e.toNat % 64) = true ↔
                (c.toNat = 0xF0 → 0x90 ≤ b.toNat) ∧ (c.toNat = 0xF4 → b.toNat < 0x90) := by
            obtain ⟨hb₁, hb₂⟩ := hb
            obtain ⟨hd₁, hd₂⟩ := hd
            obtain ⟨he₁, he₂⟩ := he
            rw [hfour]
            omega
          have hsum : ((c.toNat % 8 * 64 + b.toNat % 64) * 64 + d.toNat % 64) * 64 + e.toNat % 64 =
              c.toNat % 8 * 262144 + b.toNat % 64 * 4096 + d.toNat % 64 * 64 + e.toNat % 64 := by
            omega
          rw [hsum] at hcode
          simp [hb, hd, he, hcode, hsum]
        · by_cases hb : Tail b
          · by_cases hd : Tail d
            · have he : ¬Tail e := fun he => hall ⟨hb, hd, he⟩
              simp [hb, hd, he]
            · simp [hb, hd]
          · simp [hb]
  · rw [if_neg h₄, if_neg h₄]

end

theorem validUtf8Turn_eq (c : UInt8) (s : Bytes) : (validUtf8Turn c s).toOption = first c s := by
  by_cases hc : c.toNat ≤ 0x7F
  · unfold validUtf8Turn first
    rw [if_pos hc, if_pos hc]
    rfl
  let isTail (cc : ℕ) : Bool := cc &&& 0xc0 = 0x80
  have htail : ∀ b : UInt8, isTail b.toNat = true ↔ Tail b := by
    intro b
    rw [decide_eq_true_eq, high_bits]
  let test (need code : ℕ) : Bool :=
    ¬((need = 2 ∧ code < 0x800) ∨ (need = 3 ∧ code < 0x10000)) ∧
      ¬(0xd800 ≤ code ∧ code ≤ 0xdfff) ∧ ¬0x10ffff < code
  have htwo : ∀ code, code < 0x800 → test 1 code = true := by
    intro code hcode
    simp [test]
    omega
  have hthree : ∀ code, code < 0x10000 →
      (test 2 code = true ↔ 0x800 ≤ code ∧ ¬(0xd800 ≤ code ∧ code ≤ 0xdfff)) := by
    intro code hcode
    simp [test]
    omega
  have hfour : ∀ code, test 3 code = true ↔ 0x10000 ≤ code ∧ code ≤ 0x10ffff := by
    intro code
    simp [test]
    omega
  rw [← checked_eq_first htail htwo hthree hfour s hc, validUtf8Turn, if_neg hc]
  cases leadByte c.toNat with
  | none => rfl
  | some p =>
      obtain ⟨code, need⟩ := p
      by_cases hlen : s.length < need
      · simp [hlen, Except.toOption]
      · simp only [hlen, if_false]
        cases continuation (fun cc => cc &&& 0xc0 = 0x80) code (s.take need) with
        | none => rfl
        | some code =>
            simp only [test, decide_eq_true_eq]
            split_ifs
            all_goals first | rfl | omega

theorem utf8ValidTurn_eq (lead : UInt8) (s : Bytes) :
    (utf8ValidTurn lead s).toOption = first lead s := by
  by_cases hc : lead.toNat ≤ 0x7F
  · unfold utf8ValidTurn first
    rw [if_pos (by omega), if_pos hc]
    rfl
  let isTail (b : ℕ) : Bool := ¬(b < 0x80 ∨ 0xbf < b)
  have htail : ∀ b : UInt8, isTail b.toNat = true ↔ Tail b := by
    intro b
    simp only [isTail, decide_eq_true_eq, Tail]
    omega
  let test (extra code : ℕ) : Bool :=
    ¬(extra = 2 ∧ (code < 0x800 ∨ (0xd800 ≤ code ∧ code ≤ 0xdfff))) ∧
      ¬(extra = 3 ∧ (code < 0x10000 ∨ 0x10ffff < code))
  have htwo : ∀ code, code < 0x800 → test 1 code = true := by
    intro code hcode
    simp [test]
  have hthree : ∀ code, code < 0x10000 →
      (test 2 code = true ↔ 0x800 ≤ code ∧ ¬(0xd800 ≤ code ∧ code ≤ 0xdfff)) := by
    intro code hcode
    simp [test]
    omega
  have hfour : ∀ code, test 3 code = true ↔ 0x10000 ≤ code ∧ code ≤ 0x10ffff := by
    intro code
    simp [test]
  rw [← checked_eq_first htail htwo hthree hfour s hc, utf8ValidTurn, if_neg (by omega)]
  cases leadByte lead.toNat with
  | none => rfl
  | some p =>
      obtain ⟨code, extra⟩ := p
      by_cases hlen : s.length < extra
      · have hlen' : s.length + 1 ≤ extra := hlen
        simp only [hlen, hlen', if_true]
        rfl
      · have hlen' : ¬s.length + 1 ≤ extra := hlen
        simp only [hlen, hlen', if_false]
        cases continuation (fun b => ¬(b < 0x80 ∨ 0xbf < b)) code (s.take extra) with
        | none => rfl
        | some code =>
            simp only [test, decide_eq_true_eq]
            split_ifs
            all_goals first | rfl | omega

/-! ## The script facade -/

/-- The UTF-16 units of a code. -/
def units (k : ℕ) : List ℕ :=
  if 0xFFFF < k then [0xD800 + (k - 0x10000) / 1024, 0xDC00 + (k - 0x10000) % 1024] else [k]

/-- What a reader of text makes of the first character. -/
def textTurn (a : UInt8) (s : List UInt8) : Option (ℕ × List ℕ) :=
  (first a s).map fun p => (p.1, units p.2)

theorem shift_two (a b c : ℕ) :
    a <<< 12 ||| (b &&& 0x3f) <<< 6 ||| (c &&& 0x3f) = a * 4096 + b % 64 * 64 + c % 64 := by
  rw [(and_low b).2.2.2.1, (and_low c).2.2.2.1]
  have hb : (b % 64) <<< 6 < 2 ^ 12 := by
    rw [Nat.shiftLeft_eq]
    omega
  have hshift : a <<< 12 + (b % 64) <<< 6 = (a * 64 + b % 64) <<< 6 := by
    simp only [Nat.shiftLeft_eq]
    omega
  rw [← Nat.shiftLeft_add_eq_or_of_lt hb, hshift, ← Nat.shiftLeft_add_eq_or_of_lt (by omega),
    Nat.shiftLeft_eq]
  omega

theorem shift_three (a b c d : ℕ) :
    a <<< 18 ||| (b &&& 0x3f) <<< 12 ||| (c &&& 0x3f) <<< 6 ||| (d &&& 0x3f) =
      a * 262144 + b % 64 * 4096 + c % 64 * 64 + d % 64 := by
  have hb : (b &&& 0x3f) <<< 12 < 2 ^ 18 := by
    rw [(and_low b).2.2.2.1, Nat.shiftLeft_eq]
    omega
  have hshift : a <<< 18 + (b &&& 0x3f) <<< 12 = (a * 64 + b % 64) <<< 12 := by
    rw [(and_low b).2.2.2.1]
    simp only [Nat.shiftLeft_eq]
    omega
  rw [← Nat.shiftLeft_add_eq_or_of_lt hb, hshift, shift_two]
  omega

theorem surrogates (point : ℕ) (h : point < 0x100000) :
    [0xd800 ||| ((point >>> 10) &&& 0x3ff), 0xdc00 ||| (point &&& 0x3ff)] =
      [0xD800 + point / 1024, 0xDC00 + point % 1024] := by
  have hhigh : point / 1024 < 2 ^ 10 := by omega
  have hlow : point % 1024 < 2 ^ 10 := by omega
  have h₁ := Nat.shiftLeft_add_eq_or_of_lt hhigh 54
  have h₂ := Nat.shiftLeft_add_eq_or_of_lt hlow 55
  rw [(and_low _).2.2.2.2, (and_low _).2.2.2.2, Nat.shiftRight_eq_div_pow,
    Nat.mod_eq_of_lt (a := point / 2 ^ 10) hhigh]
  exact congrArg₂ (fun x y => [x, y]) h₁.symm h₂.symm

theorem utf8FromHexTurn_eq (b0 : UInt8) (s : Bytes) :
    (utf8FromHexTurn b0 s).toOption = textTurn b0 s := by
  unfold utf8FromHexTurn textTurn first
  by_cases h₁ : b0.toNat ≤ 0x7f
  · rw [if_pos h₁, if_pos h₁]
    simp only [Option.map_some, units]
    rw [if_neg (by omega)]
    rfl
  rw [if_neg h₁, if_neg h₁]
  by_cases h₂ : 0xc2 ≤ b0.toNat ∧ b0.toNat ≤ 0xdf
  · rw [if_pos h₂, if_pos h₂]
    cases s with
    | nil => rfl
    | cons b s =>
        by_cases hb : Tail b
        · simp only [high_bits, hb, not_true_eq_false, if_false, if_true, ne_eq, shift_or,
            (and_low _).1, Option.map_some, units]
          rw [if_neg (by omega)]
          rfl
        · simp only [high_bits, hb, not_false_eq_true, if_false, if_true, ne_eq]
          rfl
  rw [if_neg h₂, if_neg h₂]
  by_cases h₃ : 0xe0 ≤ b0.toNat ∧ b0.toNat ≤ 0xef
  · rw [if_pos h₃, if_pos h₃]
    match s with
    | [] => rfl
    | [b] => rfl
    | b :: c :: s =>
        simp only [high_bits, ne_eq, shift_two, (and_low b0.toNat).2.1]
        by_cases hall : (Tail b ∧ Tail c) ∧
            (b0.toNat = 0xE0 → 0xA0 ≤ b.toNat) ∧ (b0.toNat = 0xED → b.toNat < 0xA0)
        · rw [if_pos hall, if_neg (by tauto), if_neg (by omega), if_neg (by omega)]
          simp only [Option.map_some, units]
          rw [if_neg (by omega)]
          rfl
        · rw [if_neg hall]
          split_ifs with ht hl hs
          · rfl
          · rfl
          · rfl
          · exact absurd ⟨⟨by tauto, by tauto⟩, by omega, by omega⟩ hall
  rw [if_neg h₃, if_neg h₃]
  by_cases h₄ : 0xf0 ≤ b0.toNat ∧ b0.toNat ≤ 0xf4
  · rw [if_pos h₄, if_pos h₄]
    match s with
    | [] => rfl
    | [b] => rfl
    | [b, c] => rfl
    | b :: c :: d :: s =>
        simp only [high_bits, ne_eq, shift_three, (and_low b0.toNat).2.2.1]
        by_cases hall : (Tail b ∧ Tail c ∧ Tail d) ∧
            (b0.toNat = 0xF0 → 0x90 ≤ b.toNat) ∧ (b0.toNat = 0xF4 → b.toNat < 0x90)
        · obtain ⟨⟨⟨hb₁, hb₂⟩, hc, hd⟩, hlong, hlarge⟩ := id hall
          rw [if_pos hall, if_neg (by tauto), if_neg (by omega), if_neg (by omega),
            surrogates _ (by omega)]
          simp only [Option.map_some, units]
          rw [if_pos (by omega)]
          rfl
        · rw [if_neg hall]
          split_ifs with ht hl hs
          · rfl
          · rfl
          · rfl
          · exact absurd ⟨⟨by tauto, by tauto, by tauto⟩, by omega, by omega⟩ hall
  · rw [if_neg h₄, if_neg h₄]
    rfl

/-! ## Upper-case hex -/

def hexDigit (n : ℕ) : Char := Char.ofNat (if n < 10 then 48 + n else 55 + n)

def highDigit (b : UInt8) : Char := hexDigit (b.toNat / 16)

def lowDigit (b : UInt8) : Char := hexDigit (b.toNat % 16)

def upperHex (bytes : Bytes) : List Char := bytes.flatMap fun b => [highDigit b, lowDigit b]

theorem nibble_hexDigit (n : ℕ) (h : n < 16) :
    nibble (hexDigit n) = some n ∧ (hexDigit n).toUpper = hexDigit n := by
  have hall : ∀ n < 16, nibble (hexDigit n) = some n ∧ (hexDigit n).toUpper = hexDigit n := by
    decide +kernel
  exact hall n h

theorem nibble_high (b : UInt8) : nibble (highDigit b) = some (b.toNat / 16) ∧
    (highDigit b).toUpper = highDigit b :=
  nibble_hexDigit _ (by have := b.toNat_lt; omega)

theorem nibble_low (b : UInt8) : nibble (lowDigit b) = some (b.toNat % 16) ∧
    (lowDigit b).toUpper = lowDigit b :=
  nibble_hexDigit _ (by omega)

theorem digitPair_upperHex (b : UInt8) : digitPair (highDigit b) (lowDigit b) = some b := by
  rw [digitPair, (nibble_high b).1, (nibble_low b).1]
  have hb := b.toNat_lt
  have hor : (b.toNat / 16) <<< 4 ||| b.toNat % 16 = b.toNat := by
    rw [← Nat.shiftLeft_add_eq_or_of_lt (by omega), Nat.shiftLeft_eq]
    omega
  simp only [hor, UInt8.ofNat_toNat]

theorem length_upperHex (bytes : Bytes) : (upperHex bytes).length = 2 * bytes.length := by
  induction bytes with
  | nil => rfl
  | cons b s ih =>
      have hcons : upperHex (b :: s) = highDigit b :: lowDigit b :: upperHex s := rfl
      rw [hcons, List.length_cons, List.length_cons, ih, List.length_cons]
      omega

theorem upperHex_even (bytes : Bytes) : ¬(upperHex bytes).length &&& 1 ≠ 0 := by
  rw [Nat.and_one_is_mod, length_upperHex]
  omega

theorem normalizeHex_upperHex (bytes : Bytes) :
    normalizeHex (upperHex bytes) = .ok (upperHex bytes) := by
  have hdigits : ((upperHex bytes).any fun c => (nibble c).isNone) = false := by
    rw [List.any_eq_false]
    intro c hc
    obtain ⟨b, -, hb⟩ := List.mem_flatMap.mp hc
    rcases List.mem_pair.mp hb with rfl | rfl
    · rw [(nibble_high b).1]
      exact Bool.false_ne_true
    · rw [(nibble_low b).1]
      exact Bool.false_ne_true
  have hupper : (upperHex bytes).map Char.toUpper = upperHex bytes := by
    rw [upperHex, List.map_flatMap]
    apply List.flatMap_congr
    intro b _
    simp only [List.map_cons, List.map_nil, (nibble_high b).2, (nibble_low b).2]
  rw [normalizeHex, if_neg (upperHex_even bytes), hdigits, hupper]
  rfl

theorem pairs_upperHex (bytes : Bytes) : pairs (upperHex bytes) = bytes := by
  induction bytes with
  | nil => rfl
  | cons b s ih =>
      have hcons : upperHex (b :: s) = highDigit b :: lowDigit b :: upperHex s := rfl
      rw [hcons, pairs, digitPair_upperHex, ih]
      rfl

theorem hexBytes_upperHex (bytes : Bytes) : hexBytes (upperHex bytes) = .ok bytes := by
  rw [hexBytes, normalizeHex_upperHex, Except.map, pairs_upperHex]

/-! ## The generated client -/

/-- The narrower range of the second byte. -/
def Narrow (lead : ℕ) (b : UInt8) : Prop :=
  (lead = 0xe0 → 0xa0 ≤ b.toNat) ∧ (lead = 0xed → b.toNat < 0xa0) ∧
    (lead = 0xf0 → 0x90 ≤ b.toNat) ∧ (lead = 0xf4 → b.toNat < 0x90)

instance (lead : ℕ) (b : UInt8) : Decidable (Narrow lead b) := inferInstanceAs (Decidable (_ ∧ _))

theorem hexContinuation_first (lead n code : ℕ) (b : UInt8) (s : Bytes) :
    (hexContinuation lead 0 (n + 1) code (upperHex (b :: s))).toOption =
      if Tail b ∧ Narrow lead b then
        (hexContinuation lead 1 n (code * 64 + b.toNat % 64) (upperHex s)).toOption
      else none := by
  have hcons : upperHex (b :: s) = highDigit b :: lowDigit b :: upperHex s := rfl
  rw [hcons, hexContinuation, digitPair_upperHex]
  simp only [shift_or, true_and]
  unfold Tail Narrow
  split_ifs
  all_goals first | rfl | omega

theorem hexContinuation_later (lead j n code : ℕ) (b : UInt8) (s : Bytes) :
    (hexContinuation lead (j + 1) (n + 1) code (upperHex (b :: s))).toOption =
      if Tail b then
        (hexContinuation lead (j + 2) n (code * 64 + b.toNat % 64) (upperHex s)).toOption
      else none := by
  have hcons : upperHex (b :: s) = highDigit b :: lowDigit b :: upperHex s := rfl
  rw [hcons, hexContinuation, digitPair_upperHex]
  simp only [shift_or, Nat.add_eq_zero_iff, Nat.one_ne_zero, and_false, false_and, if_false]
  by_cases hb : Tail b
  · obtain ⟨hb₁, hb₂⟩ := id hb
    rw [if_pos hb, if_neg (by omega)]
  · have hout : b.toNat < 0x80 ∨ 0xbf < b.toNat := by
      unfold Tail at hb
      omega
    rw [if_neg hb, if_pos hout]
    rfl

theorem hexContinuation_end (lead j code : ℕ) (s : List Char) :
    hexContinuation lead j 0 code s = .ok code := by
  cases s <;> rfl

theorem hexUnits_eq (extra : ℕ) :
    (fun code => (1 + extra * 2,
      if 0xffff < code then
        [0xd800 + ((code - 0x10000) >>> 10), 0xdc00 + ((code - 0x10000) &&& 0x3ff)]
      else [code])) = fun code : ℕ => (2 * extra + 1, units code) := by
  funext code
  rw [units, (and_low _).2.2.2.2, Nat.shiftRight_eq_div_pow, Nat.mul_comm, Nat.add_comm]

theorem toOption_map {ε α β : Type} (f : α → β) (x : Except ε α) :
    (x.map f).toOption = x.toOption.map f := by
  cases x <;> rfl

theorem hexToUtf8Turn_eq (b : UInt8) (s : Bytes) :
    (hexToUtf8Turn (highDigit b) (lowDigit b :: upperHex s)).toOption =
      (textTurn b s).map fun p => (2 * p.1 + 1, p.2) := by
  rw [hexToUtf8Turn, digitPair_upperHex]
  unfold textTurn first
  simp only [leadByte_eq, length_upperHex]
  by_cases h₁ : b.toNat ≤ 0x7f
  · rw [if_pos (show b.toNat < 0x80 by omega), if_pos h₁]
    simp only [Option.map_some, units]
    rw [if_neg (by omega)]
    rfl
  rw [if_neg (show ¬b.toNat < 0x80 by omega), if_neg h₁]
  by_cases h₂ : 0xC2 ≤ b.toNat ∧ b.toNat ≤ 0xDF
  · rw [if_pos h₂, if_pos h₂]
    cases s with
    | nil => rfl
    | cons c s =>
        have hlen : ¬2 * (c :: s).length < 1 * 2 := by simp; omega
        have hnarrow : Narrow b.toNat c := by
          unfold Narrow
          omega
        simp only [hlen, if_false]
        rw [hexUnits_eq, toOption_map, hexContinuation_first, hexContinuation_end]
        by_cases hc : Tail c
        · simp [hc, hnarrow, Except.toOption]
        · simp [hc]
  rw [if_neg h₂, if_neg h₂]
  by_cases h₃ : 0xE0 ≤ b.toNat ∧ b.toNat ≤ 0xEF
  · rw [if_pos h₃, if_pos h₃]
    obtain _ | ⟨c, _ | ⟨d, s⟩⟩ := s
    · rfl
    · rfl
    · have hlen : ¬2 * (c :: d :: s).length < 2 * 2 := by simp; omega
      have hnarrow : Narrow b.toNat c ↔
          (b.toNat = 0xE0 → 0xA0 ≤ c.toNat) ∧ (b.toNat = 0xED → c.toNat < 0xA0) := by
        unfold Narrow
        omega
      have hsum : (b.toNat % 16 * 64 + c.toNat % 64) * 64 + d.toNat % 64 =
          b.toNat % 16 * 4096 + c.toNat % 64 * 64 + d.toNat % 64 := by omega
      simp only [hlen, if_false]
      rw [hexUnits_eq, toOption_map, hexContinuation_first, hexContinuation_later,
        hexContinuation_end, hsum]
      by_cases hall : (Tail c ∧ Tail d) ∧
          (b.toNat = 0xE0 → 0xA0 ≤ c.toNat) ∧ (b.toNat = 0xED → c.toNat < 0xA0)
      · rw [if_pos hall, if_pos ⟨hall.1.1, hnarrow.mpr hall.2⟩, if_pos hall.1.2]
        rfl
      · rw [if_neg hall]
        split_ifs with hc hd
        · exact absurd ⟨⟨hc.1, hd⟩, hnarrow.mp hc.2⟩ hall
        · rfl
        · rfl
  rw [if_neg h₃, if_neg h₃]
  by_cases h₄ : 0xF0 ≤ b.toNat ∧ b.toNat ≤ 0xF4
  · rw [if_pos h₄, if_pos h₄]
    obtain _ | ⟨c, _ | ⟨d, _ | ⟨e, s⟩⟩⟩ := s
    · rfl
    · rfl
    · rfl
    · have hlen : ¬2 * (c :: d :: e :: s).length < 3 * 2 := by simp; omega
      have hnarrow : Narrow b.toNat c ↔
          (b.toNat = 0xF0 → 0x90 ≤ c.toNat) ∧ (b.toNat = 0xF4 → c.toNat < 0x90) := by
        unfold Narrow
        omega
      have hsum : ((b.toNat % 8 * 64 + c.toNat % 64) * 64 + d.toNat % 64) * 64 + e.toNat % 64 =
          b.toNat % 8 * 262144 + c.toNat % 64 * 4096 + d.toNat % 64 * 64 + e.toNat % 64 := by
        omega
      simp only [hlen, if_false]
      rw [hexUnits_eq, toOption_map, hexContinuation_first, hexContinuation_later,
        hexContinuation_later, hexContinuation_end, hsum]
      by_cases hall : (Tail c ∧ Tail d ∧ Tail e) ∧
          (b.toNat = 0xF0 → 0x90 ≤ c.toNat) ∧ (b.toNat = 0xF4 → c.toNat < 0x90)
      · rw [if_pos hall, if_pos ⟨hall.1.1, hnarrow.mpr hall.2⟩, if_pos hall.1.2.1,
          if_pos hall.1.2.2]
        rfl
      · rw [if_neg hall]
        split_ifs with hc hd he
        · exact absurd ⟨⟨hc.1, hd, he⟩, hnarrow.mp hc.2⟩ hall
        · rfl
        · rfl
        · rfl
  · rw [if_neg h₄, if_neg h₄]
    rfl

/-! ## Agreement -/

/-- A turn that reads the first character makes the character itself of it. -/
theorem first_kept {ε : Type} {turn : UInt8 → Bytes → Except ε (ℕ × ℕ)}
    (h : ∀ a s, (turn a s).toOption = first a s) (a : UInt8) (s : Bytes) :
    (turn a s).toOption = (first a s).map fun p => (p.1, id p.2) := by
  rw [h]
  exact Option.map_id'.symm

/-- A turn that makes some output for the first character. -/
theorem ok_iff_of_toOption {ε β : Type} {turn : UInt8 → Bytes → Except ε (ℕ × β)} {out : ℕ → β}
    (h : ∀ a s, (turn a s).toOption = (first a s).map fun p => (p.1, out p.2)) (a : UInt8)
    (s : Bytes) (n : ℕ) (o : β) :
    turn a s = .ok (n, o) ↔ ∃ k, first a s = some (n, k) ∧ o = out k := by
  have hturn := h a s
  cases hok : turn a s with
  | error e =>
      rw [hok] at hturn
      constructor
      · intro he
        cases he
      · rintro ⟨k, hk, -⟩
        rw [hk] at hturn
        cases hturn
  | ok p =>
      rw [hok] at hturn
      cases hfirst : first a s with
      | none =>
          rw [hfirst] at hturn
          cases hturn
      | some q =>
          rw [hfirst] at hturn
          have hp : p = (q.1, out q.2) := Option.some.inj hturn
          rw [hp]
          constructor
          · intro he
            obtain ⟨rfl, rfl⟩ := Prod.mk.inj (Except.ok.inj he)
            exact ⟨q.2, rfl, rfl⟩
          · rintro ⟨k, hk, rfl⟩
            rw [Option.some.inj hk]

theorem isOk_map {ε α β : Type} (f : α → β) (x : Except ε α) : (x.map f).isOk = x.isOk := by
  cases x <;> rfl

theorem isOk_eq_isSome {ε α : Type} (x : Except ε α) : x.isOk = x.toOption.isSome := by
  cases x <;> rfl

theorem scan_hexToUtf8 (bytes : Bytes) :
    (scan hexToUtf8Turn (upperHex bytes)).toOption = (scan utf8FromHexTurn bytes).toOption := by
  apply scan_pairs
  intro b s
  rw [utf8FromHexTurn_eq]
  exact hexToUtf8Turn_eq b s

/-- The two readers in scripts make the same UTF-16 text, that of the characters. -/
theorem utf8FromHex_text (cs : List Char) :
    utf8FromHex (upperHex (cs.flatMap String.utf8EncodeChar)) =
      .ok (cs.flatMap fun c => units c.toNat) := by
  have hscan := (scan_text (ok_iff_of_toOption utf8FromHexTurn_eq)).mpr ⟨cs, rfl, rfl⟩
  rw [utf8FromHex, hexBytes_upperHex]
  simp only [hscan]
  rfl

theorem hexToUtf8_text (cs : List Char) :
    hexToUtf8 (upperHex (cs.flatMap String.utf8EncodeChar)) =
      .ok (cs.flatMap fun c => units c.toNat) := by
  have hscan := (scan_text (ok_iff_of_toOption utf8FromHexTurn_eq)).mpr ⟨cs, rfl, rfl⟩
  have hhex := scan_hexToUtf8 (cs.flatMap String.utf8EncodeChar)
  rw [hscan] at hhex
  rw [hexToUtf8, if_neg (upperHex_even _)]
  cases hrun : scan hexToUtf8Turn (upperHex (cs.flatMap String.utf8EncodeChar)) with
  | error e =>
      rw [hrun] at hhex
      cases hhex
  | ok outs =>
      rw [hrun] at hhex
      rw [Option.some.inj hhex, Except.map, List.flatMap]

/-- All four readers accept exactly the texts of characters. -/
theorem utf8_acceptance (bytes : Bytes) :
    (validUtf8 bytes = true ↔ WellFormed bytes) ∧ (utf8Valid bytes = true ↔ WellFormed bytes) ∧
      ((utf8FromHex (upperHex bytes)).isOk = true ↔ WellFormed bytes) ∧
        ((hexToUtf8 (upperHex bytes)).isOk = true ↔ WellFormed bytes) := by
  have hfacade : (scan utf8FromHexTurn bytes).isOk = true ↔ WellFormed bytes :=
    scan_isOk (ok_iff_of_toOption utf8FromHexTurn_eq) bytes
  refine ⟨?_, ?_, ?_, ?_⟩
  · exact scan_isOk (ok_iff_of_toOption (first_kept validUtf8Turn_eq)) bytes
  · exact scan_isOk (ok_iff_of_toOption (first_kept utf8ValidTurn_eq)) bytes
  · rw [utf8FromHex, hexBytes_upperHex]
    simp only [isOk_map]
    exact hfacade
  · rw [hexToUtf8, if_neg (upperHex_even bytes), isOk_map, isOk_eq_isSome, scan_hexToUtf8,
      ← isOk_eq_isSome]
    exact hfacade

end Esdb.Utf8Readers
