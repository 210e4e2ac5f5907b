import Mathlib.Data.List.Basic
import Std.Data.ExtTreeMap

/-!
# Statuses, errors, values and byte text shared by every ESDB layer

Text crosses the C boundary as a pointer to bytes, so a pointer argument is an
optional byte list and a null pointer is `none`. Keys and names are compared as
unsigned bytes throughout; no locale, case rule or normalization is involved.
-/
namespace Esdb

abbrev Bytes := List UInt8

/-- `esdb_status` without `ESDB_OK`: a success carries its outputs instead. -/
inductive Status where
  | invalidArgument | outOfMemory | io | sqlite | busy | notFound | typeMismatch
  | bufferTooSmall | constraint | corrupt | unsupported | invalidState | migration
  | internal | gap
  deriving DecidableEq, Repr

inductive Phase where
  | none | open | configure | exec | transaction | savepoint | migration | integrity
  | backup | value | store | subscription | health | objectStore
  deriving DecidableEq, Repr

/-- The `esdb_error` record a failing call fills in. An absent message is the
null pointer `set_error` receives when SQLite's own text is to be reported. -/
structure ErrorRecord where
  status : Status
  phase : Phase
  sqliteCode : Int
  message : Option String
  deriving DecidableEq, Repr

/-- A non-OK return. Some paths return a status and leave `esdb_error` cleared. -/
structure Failure where
  status : Status
  error : Option ErrorRecord
  deriving DecidableEq, Repr

/-- `set_error` or `fail`: the returned status is the recorded one. -/
def Failure.recorded (status : Status) (phase : Phase) (code : Int) (message : Option String) :
    Failure := ⟨status, some ⟨status, phase, code, message⟩⟩

/-- A status returned without touching the cleared error record. -/
def Failure.quiet (status : Status) : Failure := ⟨status, none⟩

/-- A change callback accepts a change, accepts it and asks to stop, or throws. -/
inductive Verdict where
  | proceed | stop | throw
  deriving DecidableEq, Repr

/-- `ESDB_REVISION_MAX`. -/
def revisionMax : ℕ := 9223372036854775807

/-- `esdb_value`: the type tag is the raw `uint32_t`, so it may name no type. -/
structure Value where
  type : ℕ
  payload : Bytes
  deriving DecidableEq, Repr

namespace Value

def null : ℕ := 0
def bool : ℕ := 1
def int32 : ℕ := 2
def int64 : ℕ := 3
def double : ℕ := 4
def utf8 : ℕ := 5
def bytes : ℕ := 6
def array : ℕ := 7
def object : ℕ := 8

end Value

/-- `valid_value_type`; the lower bound `ESDB_VALUE_NULL` is zero. -/
def validValueType (type : ℕ) : Bool := type ≤ Value.object

/-! ## UTF-8 text -/

def continuationByte (c : UInt8) : Bool := c &&& 0xc0 == 0x80

/-- The accumulator of the decoding loop: `(code << 6) | (cc & 0x3f)`. -/
def extendCode (code : ℕ) (c : UInt8) : ℕ := code <<< 6 ||| (c &&& 0x3f).toNat

/-- The checks made after the continuation bytes of one code point. -/
def validCode (need code : ℕ) : Bool :=
  !((need == 2 && code < 0x800) || (need == 3 && code < 0x10000)) &&
    !(0xd800 ≤ code && code ≤ 0xdfff) && !(0x10ffff < code)

/-- `valid_utf8`, one iteration of its loop for each code point. -/
def validUtf8 : Bytes → Bool
  | [] => true
  | c :: rest =>
      if c ≤ 0x7f then validUtf8 rest
      else if 0xc2 ≤ c && c ≤ 0xdf then
        match rest with
        | c₁ :: rest =>
            continuationByte c₁ && validCode 1 (extendCode (c &&& 0x1f).toNat c₁) &&
              validUtf8 rest
        | _ => false
      else if 0xe0 ≤ c && c ≤ 0xef then
        match rest with
        | c₁ :: c₂ :: rest =>
            continuationByte c₁ && continuationByte c₂ &&
              validCode 2 (extendCode (extendCode (c &&& 0x0f).toNat c₁) c₂) &&
              validUtf8 rest
        | _ => false
      else if 0xf0 ≤ c && c ≤ 0xf4 then
        match rest with
        | c₁ :: c₂ :: c₃ :: rest =>
            continuationByte c₁ && continuationByte c₂ && continuationByte c₃ &&
              validCode 3 (extendCode (extendCode (extendCode (c &&& 0x07).toNat c₁) c₂) c₃) &&
              validUtf8 rest
        | _ => false
      else false

/-- `valid_c_string`: present, non-empty, at most `maxBytes` bytes and UTF-8. -/
def validCString (text : Option Bytes) (maxBytes : ℕ) : Bool :=
  match text with
  | none => false
  | some text => 0 < text.length && text.length ≤ maxBytes && validUtf8 text

/-! ## Unsigned byte order -/

/-- `ByteLess`: the first differing byte decides, then the lengths. -/
def byteLess : Bytes → Bytes → Bool
  | [], [] => false
  | [], _ :: _ => true
  | _ :: _, [] => false
  | a :: as, b :: bs => if a < b then true else if b < a then false else byteLess as bs

/-- The order an ordered container derives from a strict `less`. -/
def byteOrder (a b : Bytes) : Ordering :=
  if byteLess a b then .lt else if byteLess b a then .gt else .eq

theorem byteOrder_cons (a b : UInt8) (as bs : Bytes) :
    byteOrder (a :: as) (b :: bs) = (compare a b).then (byteOrder as bs) := by
  have hc : compare a b = if a < b then .lt else if a = b then .eq else .gt := rfl
  by_cases h : a < b
  · simp [byteOrder, byteLess, hc, h]
  · by_cases he : a = b
    · subst he
      simp [byteOrder, byteLess]
    · have hgt : b < a := by
        rcases UInt8.lt_or_eq_of_le (UInt8.not_lt.mp h) with hlt | heq
        · exact hlt
        · exact (he heq.symm).elim
      simp [byteOrder, byteLess, hc, h, he, hgt]

/-- Comparing bytes and then lengths is the lexicographic order of byte lists. -/
theorem byteOrder_eq_compareLex : byteOrder = List.compareLex compare := by
  funext a b
  induction a generalizing b with
  | nil => cases b <;> rfl
  | cons x xs ih =>
      cases b with
      | nil => rfl
      | cons y ys => rw [byteOrder_cons, List.compareLex_cons_cons, ih]

instance : Std.TransCmp byteOrder := byteOrder_eq_compareLex ▸ inferInstance
instance : Std.LawfulEqCmp byteOrder :=
  byteOrder_eq_compareLex ▸ inferInstanceAs (Std.LawfulEqOrd Bytes)

@[simp] theorem byteOrder_eq_iff (a b : Bytes) : byteOrder a b = .eq ↔ a = b :=
  Std.LawfulEqCmp.compare_eq_iff_eq

/-- A `std::map` keyed by byte strings under `ByteLess`. -/
abbrev ByteMap (α : Type) := Std.ExtTreeMap Bytes α byteOrder

namespace ByteMap

variable {α : Type}

theorem get_insert (m : ByteMap α) (k k' : Bytes) (v : α) :
    (m.insert k v)[k']? = if k = k' then some v else m[k']? := by
  rw [Std.ExtTreeMap.getElem?_insert]
  simp only [byteOrder_eq_iff]

theorem get_erase (m : ByteMap α) (k k' : Bytes) :
    (m.erase k)[k']? = if k = k' then none else m[k']? := by
  rw [Std.ExtTreeMap.getElem?_erase]
  simp only [byteOrder_eq_iff]

theorem ext {m m' : ByteMap α} (h : ∀ k : Bytes, m[k]? = m'[k]?) : m = m' :=
  Std.ExtTreeMap.ext_getElem? h

end ByteMap

end Esdb
