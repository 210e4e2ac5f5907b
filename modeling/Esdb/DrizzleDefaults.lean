import Esdb.JsNumber
import Esdb.OrmRows
import Esdb.SchemaDdl

/-!
# Defaults of Drizzle columns

The adapter makes a literal of a default by what the default is in the script, the validator
checks it by the type of the column. What they agree on are the defaults that have the type
of their columns in the script already.
-/
namespace Esdb.DrizzleDefaults

open Decimal Utf8Readers Wire OrmWire JsNumber DecimalReaders
open Schema (ScalarType Diagnostic demand isReal isBlob)

/-! ## The adapter -/

/-- The default of a column; `other` is what is neither of the values above it. -/
inductive DefaultValue (D : Type) where
  | undefined
  | null
  | number (n : Number D)
  | string (s : List UInt16)
  | bigint (v : ℤ)
  | bytes (data : Bytes)
  | other

/-- `SQLiteColumn`, the two functions by whether there is one. -/
structure DrizzleColumn (D : Type) where
  columnType : String
  onUpdateFn : Bool
  defaultFn : Bool
  hasDefault : Bool
  default : DefaultValue D

/-- `COLUMN_TYPE_MAP`. -/
def columnTypeMap (columnType : String) : Option ScalarType :=
  if columnType = "SQLiteInteger" then some .integer
  else if columnType = "SQLiteText" then some .text
  else if columnType = "SQLiteReal" then some .real
  else if columnType = "SQLiteBlobBuffer" then some .blob
  else none

inductive LiteralType where
  | scalar (type : ScalarType)
  | null
  deriving DecidableEq

def LiteralType.name : LiteralType → String
  | .scalar type => type.name
  | .null => "null"

structure IrLiteral where
  type : LiteralType
  value : List UInt16

structure AdapterError where
  code : String
  path : String
  message : String

section Adapter

variable {D : Type} (shortest : Number D → Shortest)

/-- `String(value)` of a number. -/
def jsString (n : Number D) : List Char := numberString (fun n => numberToString (shortest n)) n

def isFinite : Number D → Bool
  | .nan => false
  | .infinity _ => false
  | _ => true

def isInteger : Number D → Bool
  | .whole _ => true
  | .negativeZero => true
  | _ => false

def isSafeInteger : Number D → Bool
  | .whole v => v.natAbs ≤ maxSafeInteger
  | .negativeZero => true
  | _ => false

def unsafeInteger (path : String) : AdapterError :=
  ⟨"ORM002", path,
    "integer defaults outside JavaScript's safe-integer range must be authored as bigint"⟩

def defaultLiteral (column : DrizzleColumn D) (path : String) :
    Except AdapterError (Option IrLiteral) :=
  if column.onUpdateFn then
    .error ⟨"ORM002", path,
      "runtime update functions ($onUpdate/$onUpdateFn) are not representable in IR v1"⟩
  else if column.defaultFn then
    .error ⟨"ORM002", path,
      "runtime default functions ($defaultFn) are not representable in IR v1"⟩
  else if !column.hasDefault then .ok none
  else
    match column.default with
    | .undefined => .ok none
    | .null => .ok (some ⟨.null, []⟩)
    | .number n =>
        if !isFinite n then
          .error ⟨"ORM002", path,
            "default value " ++ String.ofList (jsString shortest n) ++ " is not finite"⟩
        else if isInteger n then
          if !isSafeInteger n then .error (unsafeInteger path)
          else .ok (some ⟨.scalar .integer, asUnits (jsString shortest n)⟩)
        else .ok (some ⟨.scalar .real, asUnits (jsString shortest n)⟩)
    | .string s => .ok (some ⟨.scalar .text, s⟩)
    | .bigint v => .ok (some ⟨.scalar .integer, asUnits (intText v)⟩)
    | .bytes data => .ok (some ⟨.scalar .blob, asUnits (upperHex data)⟩)
    | .other =>
        .error ⟨"ORM003", path, "only literal defaults (number/string/bigint/Uint8Array/null) are " ++
          "representable in IR v1; SQL expressions are not"⟩

end Adapter

/-! ## The validator -/

section Validator

variable {D : Type} (round : ℚ → Number D)

/-- `Number(text)` of a token of a real; `round` is the number next to a decimal. -/
def numberOf (text : List Char) : Number D :=
  if tokenValue text = 0 ∧ text.head? = some '-' then .negativeZero else round (tokenValue text)

/-- `checkLiteral`, on strings of the script and with the finiteness of reals. -/
def checkLiteral (literal : IrLiteral) (columnType : ScalarType) (nullable : Bool)
    (path : String) : List Diagnostic :=
  match literal.type with
  | .null =>
      demand nullable "IR016" path "NOT NULL columns may not declare DEFAULT NULL" ++
        demand (literal.value = []) "IR016" s!"{path}.value" "null default value must be \"\""
  | .scalar type =>
      if type ≠ columnType then
        [⟨"IR016", s!"{path}.type",
          s!"default type \"{type.name}\" does not match column type \"{columnType.name}\""⟩]
      else
        match type with
        | .integer =>
            demand (Validator.int64Literal (chars literal.value)) "IR016" s!"{path}.value"
              "integer default must be a canonical signed 64-bit decimal"
        | .real =>
            demand (isReal (chars literal.value) && isFinite (numberOf round (chars literal.value)))
              "IR016" s!"{path}.value" "real default must be a finite canonical decimal token"
        | .blob =>
            demand (isBlob (chars literal.value)) "IR016" s!"{path}.value"
              "blob default must be uppercase even-length hex"
        | .text =>
            demand (0 ∉ literal.value) "IR016" s!"{path}.value"
              "text default may not contain NUL"

/-! ## What a default stands for -/

/-- A value of a column. -/
inductive ColumnValue (D : Type) where
  | null
  | integer (v : ℤ)
  | real (n : Number D)
  | text (s : List UInt16)
  | blob (data : Bytes)

/-- The value that a literal denotes. -/
def literalValue (literal : IrLiteral) : Option (ColumnValue D) :=
  match literal.type with
  | .null => some .null
  | .scalar .integer => (parseI64Decimal (chars literal.value)).map .integer
  | .scalar .real => some (.real (numberOf round (chars literal.value)))
  | .scalar .text => some (.text literal.value)
  | .scalar .blob => (hexDecode (chars literal.value)).map .blob

end Validator

section Legal

variable {D : Type}

/-- The defaults that are legal for a type, with the values that they stand for. -/
inductive Legal (nullable : Bool) : ScalarType → DefaultValue D → ColumnValue D → Prop
  | null {type : ScalarType} (h : nullable = true) : Legal nullable type .null .null
  | whole {v : ℤ} (h : isInt64 v) : Legal nullable .integer (.number (.whole v)) (.integer v)
  | negativeZero : Legal nullable .integer (.number .negativeZero) (.integer 0)
  | bigint {v : ℤ} (h : isInt64 v) : Legal nullable .integer (.bigint v) (.integer v)
  | real {n : Number D} (h : isFinite n = true) : Legal nullable .real (.number n) (.real n)
  | text {s : List UInt16} (h : 0 ∉ s) : Legal nullable .text (.string s) (.text s)
  | blob (data : Bytes) : Legal nullable .blob (.bytes data) (.blob data)

/-- The numbers that the adapter is for: safe ones for integers, and no integers for reals. -/
def Authored : ScalarType → DefaultValue D → Prop
  | .integer, .number n => isSafeInteger n = true
  | .real, .number n => isInteger n = false
  | _, _ => True

end Legal

/-! ## The texts of numbers in the grammar of the validator -/

theorem canonical_of_numeral {s : List Char} (h : isNumeral s = true) :
    Schema.isCanonicalInteger s = true := by
  cases s with
  | nil => cases h
  | cons c s =>
      rw [isNumeral] at h
      split_ifs at h with hc
      · rw [List.isEmpty_iff] at h
        subst hc h
        rfl
      · rw [Schema.isCanonicalInteger.eq_2 _ _ fun hzero _ => hc hzero, decide_eq_true hc,
          Bool.and_true]
        exact h

theorem isDigits_of_all {digits : List Char} (hne : digits ≠ [])
    (h : digits.all Char.isDigit = true) : Schema.isDigits digits = true := by
  rw [Schema.isDigits, h, List.isEmpty_eq_false_iff.mpr hne]
  rfl

theorem isExponent_of_exponent {tail : List Char} {e : ℤ} (h : Exponent tail e) :
    Schema.isExponent tail = true := by
  cases h with
  | none => rfl
  | minus hne hdigits => exact isDigits_of_all hne hdigits
  | plus hne hdigits => exact isDigits_of_all hne hdigits

theorem isReal_of_spelling {text whole digits : List Char} {e : ℤ}
    (h : Spelling text whole digits e) :
    Schema.isCanonicalInteger (text.takeWhile Char.isDigit) = true ∧
      Schema.isFraction (text.dropWhile Char.isDigit) = true := by
  cases h with
  | plain hwhole htail =>
      obtain ⟨htake, hdrop⟩ := takeWhile_digits (isNumeral_digits hwhole) htail.stop
      rw [htake, hdrop]
      refine ⟨canonical_of_numeral hwhole, ?_⟩
      have hexponent := isExponent_of_exponent htail
      rcases htail.head with rfl | ⟨s, rfl⟩
      · rfl
      · exact hexponent
  | @fraction _ _ tail _ hwhole hne hdigits htail =>
      obtain ⟨htake, hdrop⟩ := @takeWhile_digits _ ('.' :: (digits ++ tail))
        (isNumeral_digits hwhole) (.inr ⟨'.', _, rfl, by decide⟩)
      obtain ⟨hfraction, hexponent⟩ := takeWhile_digits hdigits htail.stop
      rw [htake, hdrop, Schema.isFraction, hfraction, hexponent]
      exact ⟨canonical_of_numeral hwhole,
        Bool.and_eq_true_iff.mpr ⟨isDigits_of_all hne hdigits, isExponent_of_exponent htail⟩⟩

theorem isReal_numberToString (s : Shortest) : isReal (numberToString s) = true := by
  obtain ⟨text, whole, digits, e, hspelling, htext⟩ := numberToString_spelling s
  have hminus : Schema.withoutMinus (numberToString s) = text := by
    rw [htext]
    split_ifs
    · rfl
    · refine Schema.withoutMinus.eq_2 _ fun rest hrest => ?_
      obtain ⟨c, r, hhead, hc⟩ := hspelling.head
      rw [hrest] at hhead
      rw [← (List.cons.inj hhead).1] at hc
      exact absurd hc (by decide)
  obtain ⟨hwhole, hfraction⟩ := isReal_of_spelling hspelling
  rw [isReal, hminus, hwhole, hfraction]
  rfl

/-! ## ASCII texts -/

theorem ascii_digits {digits : List Char} (h : digits.all Char.isDigit = true) :
    Ascii digits := by
  intro c hc
  have hdigit := List.all_eq_true.mp h c hc
  rw [Char.isDigit, Bool.and_eq_true, decide_eq_true_iff, decide_eq_true_iff] at hdigit
  exact Nat.lt_of_le_of_lt hdigit.2 (by decide)

theorem ascii_exponent {tail : List Char} {e : ℤ} (h : Exponent tail e) : Ascii tail := by
  cases h with
  | none => exact ascii_of_all rfl
  | minus _ hdigits =>
      exact (ascii_of_all (s := ['e', '-']) (by decide)).append (ascii_digits hdigits)
  | plus _ hdigits =>
      exact (ascii_of_all (s := ['e', '+']) (by decide)).append (ascii_digits hdigits)

theorem ascii_spelling {text whole digits : List Char} {e : ℤ}
    (h : Spelling text whole digits e) : Ascii text := by
  cases h with
  | plain hwhole htail =>
      exact (ascii_digits (isNumeral_digits hwhole)).append (ascii_exponent htail)
  | fraction hwhole _ hdigits htail =>
      exact (ascii_digits (isNumeral_digits hwhole)).append (List.forall_mem_cons.mpr
        ⟨by decide, (ascii_digits hdigits).append (ascii_exponent htail)⟩)

theorem ascii_numberToString (s : Shortest) : Ascii (numberToString s) := by
  obtain ⟨text, whole, digits, e, hspelling, htext⟩ := numberToString_spelling s
  rw [htext]
  split_ifs
  · exact List.forall_mem_cons.mpr ⟨by decide, ascii_spelling hspelling⟩
  · exact ascii_spelling hspelling

/-! ## What a literal is worth -/

theorem isBlob_upperHex (bytes : Bytes) : isBlob (upperHex bytes) = true := by
  have hdigit : ∀ n < 16, "0123456789ABCDEF".toList.contains (hexDigit n) = true := by decide
  induction bytes with
  | nil => rfl
  | cons b s ih =>
      have hb := b.toNat_lt
      have hcons : upperHex (b :: s) = highDigit b :: lowDigit b :: upperHex s := rfl
      rw [hcons, isBlob, ih, Bool.and_true, highDigit, lowDigit, hdigit _ (by omega),
        hdigit _ (by omega)]
      rfl

section Values

variable {D : Type} (round : ℚ → Number D) (shortest : Number D → Shortest)

/-- A number is read from its text as it is rounded from its digits. -/
theorem numberOf_numberToString (s : Shortest) :
    numberOf round (numberToString s) = round s.value := by
  rw [numberOf, tokenValue_numberToString, if_neg fun h => s.value_ne_zero h.1]

theorem integer_kept {v : ℤ} (h : isInt64 v) (nullable : Bool) (path : String) :
    checkLiteral round ⟨.scalar .integer, asUnits (intText v)⟩ .integer nullable path = [] ∧
      literalValue round ⟨.scalar .integer, asUnits (intText v)⟩ = some (.integer v) := by
  have hchars : chars (asUnits (intText v)) = intText v := chars_asUnits (ascii_intText v)
  constructor
  · have hread : Validator.int64Literal (intText v) = true := int64Check_iff.mpr ⟨v, h, rfl⟩
    simp only [checkLiteral, hchars, hread, demand, ne_eq, not_true_eq_false, if_false, if_true]
  · simp only [literalValue, hchars, parseI64Decimal_eq_some.mpr ⟨rfl, h⟩, Option.map_some]

theorem blob_kept (data : Bytes) (nullable : Bool) (path : String) :
    checkLiteral round ⟨.scalar .blob, asUnits (upperHex data)⟩ .blob nullable path = [] ∧
      literalValue round ⟨.scalar .blob, asUnits (upperHex data)⟩ = some (.blob data) := by
  have hchars : chars (asUnits (upperHex data)) = upperHex data :=
    chars_asUnits (ascii_upperHex data)
  constructor
  · simp only [checkLiteral, hchars, isBlob_upperHex, demand, ne_eq, not_true_eq_false, if_false,
      if_true]
  · simp only [literalValue, hchars, hexDecode_upperHex, Option.map_some]

theorem real_kept (hround : ∀ x, round (shortest (.fraction x)).value = .fraction x) (x : D)
    (nullable : Bool) (path : String) :
    checkLiteral round ⟨.scalar .real, asUnits (jsString shortest (.fraction x))⟩ .real nullable
        path = [] ∧
      literalValue round ⟨.scalar .real, asUnits (jsString shortest (.fraction x))⟩ =
        some (.real (.fraction x)) := by
  have htext : jsString shortest (.fraction x) = numberToString (shortest (.fraction x)) := rfl
  have hchars : chars (asUnits (jsString shortest (.fraction x))) =
      numberToString (shortest (.fraction x)) := chars_asUnits (ascii_numberToString _)
  have hnumber := (numberOf_numberToString round (shortest (.fraction x))).trans (hround x)
  constructor
  · simp only [checkLiteral, hchars, isReal_numberToString, hnumber, isFinite, Bool.and_true,
      demand, ne_eq, not_true_eq_false, if_false, if_true]
  · simp only [literalValue, hchars, hnumber]

end Values

/-! ## Defaults keep their values -/

/-- A column of a supported type with a legal default and no function in its place. -/
structure Supported {D : Type} (column : DrizzleColumn D) (type : ScalarType) (nullable : Bool)
    (v : ColumnValue D) : Prop where
  onUpdateFn : column.onUpdateFn = false
  defaultFn : column.defaultFn = false
  hasDefault : column.hasDefault = true
  mapped : columnTypeMap column.columnType = some type
  legal : Legal nullable type column.default v

section Kept

variable {D : Type} (round : ℚ → Number D) (shortest : Number D → Shortest)

/-- The literal that an adapter makes is taken by the validator, and is worth the default. -/
def Kept (column : DrizzleColumn D) (type : ScalarType) (nullable : Bool) (v : ColumnValue D)
    (path : String) : Prop :=
  ∃ literal, defaultLiteral shortest column path = .ok (some literal) ∧
    checkLiteral round literal type nullable path = [] ∧ literalValue round literal = some v

theorem isInt64_of_safe {v : ℤ} (h : v.natAbs ≤ maxSafeInteger) : isInt64 v := by
  unfold maxSafeInteger at h
  unfold isInt64
  omega

/-- A safe number is written as a whole number. -/
theorem jsString_safe {v : ℤ} (h : v.natAbs ≤ maxSafeInteger) :
    jsString shortest (.whole v) = intText v :=
  numberString_whole h

variable {round shortest}

/-- What is authored for the type of its column keeps its type and its value. -/
theorem kept_of_authored (hround : ∀ x, round (shortest (.fraction x)).value = .fraction x)
    {column : DrizzleColumn D} {type : ScalarType} {nullable : Bool} {v : ColumnValue D}
    (h : Supported column type nullable v) (hauthored : Authored type column.default)
    (path : String) : Kept round shortest column type nullable v path := by
  obtain ⟨columnType, onUpdateFn, defaultFn, hasDefault, default⟩ := column
  obtain ⟨rfl, rfl, rfl, -, hlegal⟩ := h
  cases hlegal with
  | null hnullable =>
      subst hnullable
      exact ⟨_, rfl, rfl, rfl⟩
  | @whole w hw =>
      have hsafe : w.natAbs ≤ maxSafeInteger := of_decide_eq_true hauthored
      have hmade : defaultLiteral shortest ⟨columnType, false, false, true,
          .number (.whole w)⟩ path = .ok (some ⟨.scalar .integer, asUnits (intText w)⟩) := by
        rw [← jsString_safe shortest hsafe]
        simp only [defaultLiteral, isFinite, isInteger, isSafeInteger, hsafe, decide_true,
          Bool.not_true, Bool.false_eq_true, if_false, if_true]
      obtain ⟨hcheck, hvalue⟩ := integer_kept round hw nullable path
      exact ⟨_, hmade, hcheck, hvalue⟩
  | negativeZero =>
      obtain ⟨hcheck, hvalue⟩ := integer_kept round (isInt64_of_safe (v := 0) (by decide))
        nullable path
      exact ⟨_, rfl, hcheck, hvalue⟩
  | bigint hw =>
      obtain ⟨hcheck, hvalue⟩ := integer_kept round hw nullable path
      exact ⟨_, rfl, hcheck, hvalue⟩
  | @real n hn =>
      -- What is finite and not an integer is a fraction.
      cases n with
      | whole w => cases hauthored
      | negativeZero => cases hauthored
      | nan => cases hn
      | infinity negative => cases hn
      | fraction x =>
          obtain ⟨hcheck, hvalue⟩ := real_kept round shortest hround x nullable path
          exact ⟨_, rfl, hcheck, hvalue⟩
  | text hs => exact ⟨_, rfl, if_pos (decide_eq_true hs), rfl⟩
  | blob data =>
      obtain ⟨hcheck, hvalue⟩ := blob_kept round data nullable path
      exact ⟨_, rfl, hcheck, hvalue⟩

/-- An integer that is not safe is refused as a number. -/
theorem refused_large {column : DrizzleColumn D} {type : ScalarType} {nullable : Bool}
    {v : ColumnValue D} (h : Supported column type nullable v) {w : ℤ}
    (hdefault : column.default = .number (.whole w)) (hlarge : maxSafeInteger < w.natAbs)
    (path : String) : defaultLiteral shortest column path = .error (unsafeInteger path) := by
  have hsafe : isSafeInteger (.whole w : Number D) = false :=
    decide_eq_false (Nat.not_le.mpr hlarge)
  simp only [defaultLiteral, h.onUpdateFn, h.defaultFn, h.hasDefault, hdefault, isFinite,
    isInteger, hsafe, Bool.not_true, Bool.not_false, Bool.false_eq_true, if_false, if_true]

/-- The defaults of the supported columns keep their values and types, but for integers that
are no safe numbers: they have to be bigints. -/
theorem defaults_kept (hround : ∀ x, round (shortest (.fraction x)).value = .fraction x)
    {column : DrizzleColumn D} {type : ScalarType} {nullable : Bool} {v : ColumnValue D}
    (h : Supported column type nullable v) (path : String) :
    (Authored type column.default → Kept round shortest column type nullable v path) ∧
      ∀ w, type = .integer → column.default = .number (.whole w) → maxSafeInteger < w.natAbs →
        defaultLiteral shortest column path = .error (unsafeInteger path) :=
  ⟨fun hauthored => kept_of_authored hround h hauthored path,
    fun _ _ hdefault hlarge => refused_large h hdefault hlarge path⟩

end Kept

/-- The digits of 0.5. -/
def half : Shortest := ⟨false, ['5'], 0, ⟨'5', [], rfl, by decide⟩, by decide⟩

/-- The number 0.5 is the one fraction here. -/
def halfRound (q : ℚ) : Number Unit := if q = 1 / 2 then .fraction () else .whole q.floor

theorem halfRound_half : halfRound half.value = .fraction () := by
  have hvalue : half.value = 1 / 2 := by
    simp only [half, Shortest.value, signed, scaled, Bool.false_eq_true, if_false,
      List.length_singleton, value_singleton, show '5'.toNat - 48 = 5 from rfl]
    norm_num
  rw [halfRound, if_pos hvalue]

def halfColumn : DrizzleColumn Unit :=
  ⟨"SQLiteReal", false, false, true, .number (.fraction ())⟩

theorem supported_half : Supported halfColumn .real false (.real (.fraction ())) :=
  ⟨rfl, rfl, rfl, by decide, .real rfl⟩

theorem defaults_kept_half :
    Kept halfRound (fun _ => half) halfColumn .real false (.real (.fraction ())) "tables.t.x" :=
  (defaults_kept (fun _ => halfRound_half) supported_half "tables.t.x").1 rfl

/-- The number 2^53 is legal for an integer column, and no literal is made of it. -/
theorem defaults_kept_large :
    Supported ⟨"SQLiteInteger", false, false, true,
        .number (.whole 9007199254740992 : Number Unit)⟩
      .integer false (.integer 9007199254740992) ∧
    ¬Kept halfRound (fun _ => half)
      ⟨"SQLiteInteger", false, false, true, .number (.whole 9007199254740992)⟩ .integer false
      (.integer 9007199254740992) "tables.t.x" := by
  refine ⟨⟨rfl, rfl, rfl, by decide, .whole (by unfold isInt64; omega)⟩, ?_⟩
  rintro ⟨literal, hmade, -⟩
  exact nomatch hmade

end Esdb.DrizzleDefaults
