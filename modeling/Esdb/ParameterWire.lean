import Esdb.AdapterText
import Esdb.DelimitedText

/-!
# The packet of query parameters

The script writes the parameters of a statement as one text: a line with their number,
and a line for each with its type and payload. The adapter reads the text back with a
cursor that goes from line to line, and refuses every other way to write it.
-/
namespace Esdb.Wire

open Decimal Utf8Readers Delimited

/-! ## Values of the script -/

/-- A number: a whole one other than -0, or another double of which `D` are the finite ones. -/
inductive Number (D : Type) where
  | whole (v : ℤ)
  | negativeZero
  | nan
  | infinity (negative : Bool)
  | fraction (x : D)

/-- `ESDB.Int64`. -/
structure Int64Value where
  text : List Char
  canonical : ∃ value, canonicalInt64 value = .ok text

/-- `ESDB.Bytes`. -/
structure BytesValue where
  hex : List Char
  normalized : ∃ text, normalizeHex text = .ok hex

inductive Parameter (D : Type) where
  | null
  | int64 (value : Int64Value)
  | bytes (value : BytesValue)
  | boolean (b : Bool)
  | number (value : Number D)
  | string (units : List ℕ)
  | undefined
  | other

section Script

variable {D : Type} (exponential : Number D → List Char)

/-- `String(value)`; `exponential` is the text of what is not whole or not under 10^21. -/
def numberString : Number D → List Char
  | .whole v => if v.natAbs < 10 ^ 21 then intText v else exponential (.whole v)
  | .negativeZero => ['0']
  | .nan => "NaN".toList
  | .infinity negative => (if negative then "-Infinity" else "Infinity").toList
  | .fraction x => exponential (.fraction x)

def patchNumberPayload : Number D → List Char
  | .nan => "NaN".toList
  | .infinity negative => (if negative then "-Infinity" else "Infinity").toList
  | .negativeZero => "-0".toList
  | value => numberString exponential value

def maxSafeInteger : ℕ := 9007199254740991

/-- The head `"V1:" + type + ":"` that both sides put before a payload. -/
def valueLine (type : ℕ) (payload : List Char) : List Char :=
  "V1:".toList ++ natText type ++ ':' :: payload

def encodeQueryParameter : Parameter D → Except String (List Char)
  | .null => .ok (valueLine Value.null [])
  | .int64 value => .ok (valueLine Value.int64 value.text)
  | .bytes value => .ok (valueLine Value.bytes value.hex)
  | .boolean b => .ok (valueLine Value.bool [if b then '1' else '0'])
  | .number (.whole v) =>
      if v.natAbs ≤ maxSafeInteger then
        if -2147483648 ≤ v ∧ v ≤ 2147483647 then
          .ok (valueLine Value.int32 (numberString exponential (.whole v)))
        else (canonicalInt64 (numberString exponential (.whole v))).map (valueLine Value.int64)
      else .ok (valueLine Value.double (patchNumberPayload exponential (.whole v)))
  | .number value => .ok (valueLine Value.double (patchNumberPayload exponential value))
  | .string units => (utf8ToHex units).map (valueLine Value.utf8)
  | .undefined => .error "SQL parameters may not be undefined; use null explicitly"
  | .other =>
      .error "SQL parameters accept only null, boolean, number, string, ESDB.Int64, or ESDB.Bytes"

def queryParameterPacket (params : List (Parameter D)) : Except String (List Char) :=
  if 1024 < params.length then .error "SQL parameter count exceeds 1024"
  else
    (params.mapM (encodeQueryParameter exponential)).map fun lines =>
      ['\n'].intercalate (("P1:".toList ++ natText params.length) :: lines)

end Script

/-! ## The adapter's parser -/

/-- What `strtod` returns, where it stops and whether it is out of range. -/
structure RealConversion where
  bits : BitVec 64
  rest : List Char
  range : Bool

section Adapter

variable (long : LongWidth) (strtod : List Char → RealConversion)

def parseDoubleDecimal (text : List Char) : Option (BitVec 64) :=
  if text = [] then none
  else if text = "NaN".toList then some 0x7ff8000000000000
  else if text = "Infinity".toList then some 0x7ff0000000000000
  else if text = "-Infinity".toList then some 0xfff0000000000000
  else if text = "-0".toList then some 0x8000000000000000
  else
    let r := strtod text
    if r.range || r.rest ≠ [] then none else some r.bits

def makeTextValue (type : ℕ) (payload : List Char) : Option Value :=
  if type = Value.null then if payload ≠ [] then none else some createNull
  else if type = Value.int64 then (parseI64Decimal payload).map createInt64
  else
    match hexDecode payload with
    | none => none
    | some bytes =>
        if type = Value.bytes then some (createBytes bytes)
        else if type = Value.utf8 ∨ type = Value.array ∨ type = Value.object then
          createText type bytes
        else none

/-- The switch of `parse_query_value_wire`. -/
def parsePayload (type : ℕ) (payload : List Char) : Option Value :=
  if type = Value.null then if payload = [] then some createNull else none
  else if type = Value.bool then
    if payload ≠ ['0'] ∧ payload ≠ ['1'] then none else some (createBool (payload = ['1']))
  else if type = Value.int32 then
    match parseI64Decimal payload with
    | none => none
    | some value =>
        if value < -2147483648 ∨ 2147483647 < value then none else some (createInt32 value)
  else if type = Value.int64 then (parseI64Decimal payload).map createInt64
  else if type = Value.double then (parseDoubleDecimal strtod payload).map createDouble
  else makeTextValue type payload

def parseQueryValueWire (wire : List Char) : Option Value :=
  if wire.length < 5 ∨ wire.take 3 ≠ "V1:".toList then none
  else if ':' ∉ wire.drop 3 then none
  else
    match parseU32Decimal long (field ':' (wire.drop 3)) with
    | none => none
    | some type =>
        if Value.object < type then none
        else parsePayload strtod type (behind ':' (wire.drop 3))

/-- The loop of `parse_query_parameter_wire`, on the text from its cursor on. -/
def parseValues : ℕ → List Char → Option (List Value × List Char)
  | 0, s => some ([], s)
  | count + 1, s =>
      if field '\n' s = [] then none
      else
        match parseQueryValueWire long strtod (field '\n' s) with
        | none => none
        | some value => (parseValues count (behind '\n' s)).map fun p => (value :: p.1, p.2)

def parseQueryParameterWire (text : List Char) : Option (List Value) :=
  let header := field '\n' text
  if 8 * 1024 * 1024 < text.length then none
  else if header.length < 4 ∨ header.take 3 ≠ "P1:".toList then none
  else
    match parseU32Decimal long (header.drop 3) with
    | none => none
    | some count =>
        if 1024 < count then none
        else
          match parseValues long strtod count (behind '\n' text) with
          | none => none
          | some (values, rest) => if rest.all (· = '\n') then some values else none

end Adapter

/-! ## What a line spells -/

section Grammar

variable (strtod : List Char → RealConversion)

/-- The payloads of a type, with the value that each spells. -/
inductive Spelling : ℕ → List Char → Value → Prop
  | null : Spelling Value.null [] createNull
  | bool (b : Bool) : Spelling Value.bool [if b then '1' else '0'] (createBool b)
  | int32 {v : ℤ} (h : isInt32 v) : Spelling Value.int32 (intText v) (createInt32 v)
  | int64 {v : ℤ} (h : isInt64 v) : Spelling Value.int64 (intText v) (createInt64 v)
  | double {text : List Char} {bits : BitVec 64} (h : parseDoubleDecimal strtod text = some bits) :
      Spelling Value.double text (createDouble bits)
  | bytes {hex : List Char} {bytes : Bytes} (h : hex.map Char.toUpper = upperHex bytes) :
      Spelling Value.bytes hex (createBytes bytes)
  | text {type : ℕ} {hex : List Char} {bytes : Bytes}
      (ht : type = Value.utf8 ∨ type = Value.array ∨ type = Value.object)
      (h : hex.map Char.toUpper = upperHex bytes) (hw : Utf8.WellFormed bytes) :
      Spelling type hex ⟨type, bytes⟩

/-- A line `V1:type:payload`. -/
def SpelledLine (line : List Char) (value : Value) : Prop :=
  ∃ type payload, line = valueLine type payload ∧ Spelling strtod type payload value

/-- A count, as many lines, and newlines. -/
def SpelledPacket (text : List Char) (values : List Value) : Prop :=
  ∃ lines more, text = "P1:".toList ++ natText lines.length ++ led '\n' lines ++ more ∧
    lines.length ≤ 1024 ∧ (∀ line ∈ lines, '\n' ∉ line) ∧
    List.Forall₂ (SpelledLine strtod) lines values ∧ ∀ c ∈ more, c = '\n'

variable {strtod}

theorem createText_eq_some {type : ℕ} {bytes : Bytes} {value : Value} :
    createText type bytes = some value ↔
      (type = Value.utf8 ∨ type = Value.array ∨ type = Value.object) ∧ Utf8.WellFormed bytes ∧
        value = ⟨type, bytes⟩ := by
  unfold createText
  by_cases ht : type = Value.utf8 ∨ type = Value.array ∨ type = Value.object
  · rw [if_neg (by tauto), ← validUtf8_iff]
    cases Esdb.validUtf8 bytes
    · simp
    · simp [ht, eq_comm]
  · rw [if_pos (by tauto)]
    simp [ht]

theorem parsePayload_spelling {type : ℕ} {payload : List Char} {value : Value}
    (h : parsePayload strtod type payload = some value) : Spelling strtod type payload value := by
  unfold parsePayload at h
  split_ifs at h with hnull hempty hbool hdigit hint32 hint64 hdouble
  · cases h
    rw [hnull, hempty]
    exact .null
  · cases h
    rw [hbool]
    rcases (by tauto : payload = ['0'] ∨ payload = ['1']) with rfl | rfl
    · exact .bool false
    · exact .bool true
  · cases hv : parseI64Decimal payload with
    | none => simp [hv] at h
    | some v =>
        obtain ⟨rfl, -⟩ := parseI64Decimal_eq_some.mp hv
        simp only [hv] at h
        split_ifs at h with hrange
        cases h
        rw [hint32]
        exact .int32 ⟨by omega, by omega⟩
  · obtain ⟨v, hv, rfl⟩ := Option.map_eq_some_iff.mp h
    obtain ⟨rfl, hrange⟩ := parseI64Decimal_eq_some.mp hv
    rw [hint64]
    exact .int64 hrange
  · obtain ⟨bits, hbits, rfl⟩ := Option.map_eq_some_iff.mp h
    rw [hdouble]
    exact .double hbits
  · unfold makeTextValue at h
    rw [if_neg hnull, if_neg hint64] at h
    cases hhex : hexDecode payload with
    | none => simp [hhex] at h
    | some bytes =>
        simp only [hhex] at h
        split_ifs at h with hbytes htext
        · cases h
          rw [hbytes]
          exact .bytes (hexDecode_eq_some hhex)
        · obtain ⟨-, hw, rfl⟩ := createText_eq_some.mp h
          exact .text htext (hexDecode_eq_some hhex) hw

theorem colon_notMem_natText {n : ℕ} : ':' ∉ natText n := fun h =>
  absurd (isDigit_natText h) (by decide)

theorem newline_notMem_natText {n : ℕ} : '\n' ∉ natText n := fun h =>
  absurd (isDigit_natText h) (by decide)

theorem drop_valueLine (type : ℕ) (payload : List Char) :
    (valueLine type payload).drop 3 = natText type ++ ':' :: payload := rfl

variable {long : LongWidth}

/-- The adapter reads the head of a line back. -/
theorem parseQueryValueWire_valueLine {type : ℕ} (h : type ≤ Value.object) (payload : List Char) :
    parseQueryValueWire long strtod (valueLine type payload) = parsePayload strtod type payload := by
  have hlength : ¬ ((valueLine type payload).length < 5 ∨
      (valueLine type payload).take 3 ≠ "V1:".toList) := by
    have hpos := List.length_pos_of_ne_nil (natText_ne_nil type)
    rintro (hshort | hhead)
    · simp [valueLine] at hshort
      omega
    · exact hhead rfl
  have hsmall : type < 2 ^ 32 := lt_of_le_of_lt h (by decide)
  unfold parseQueryValueWire
  rw [if_neg hlength, drop_valueLine, if_neg (by simp), field_append colon_notMem_natText,
    behind_append colon_notMem_natText, parseU32Decimal_natText, if_pos hsmall]
  exact if_neg (by omega)

theorem parseQueryValueWire_eq_some {wire : List Char} {value : Value}
    (h : parseQueryValueWire long strtod wire = some value) : SpelledLine strtod wire value := by
  unfold parseQueryValueWire at h
  split_ifs at h with hhead hcolon
  rw [not_or, not_not] at hhead
  cases htype : parseU32Decimal long (field ':' (wire.drop 3)) with
  | none => simp [htype] at h
  | some type =>
      simp only [htype] at h
      split_ifs at h with hrange
      obtain ⟨hdigits, -⟩ := parseU32Decimal_eq_some.mp htype
      refine ⟨type, behind ':' (wire.drop 3), ?_, parsePayload_spelling h⟩
      rw [valueLine, ← hdigits, ← hhead.2, List.append_assoc, ← eq_of_mem hcolon,
        List.take_append_drop]

/-! ## The lines -/

/-- Behind the newline that is to come, the loop takes lines up to the last one and leaves what
is then pending. -/
theorem parseValues_led {lines : List (List Char)} {values : List Value}
    (hline : ∀ line ∈ lines, '\n' ∉ line) {more : List Char} (hmore : ∀ c ∈ more, c = '\n')
    (h : List.Forall₂ (fun line value => line ≠ [] ∧
      parseQueryValueWire long strtod line = some value) lines values) :
    parseValues long strtod lines.length ((led '\n' lines ++ more).drop 1) =
      some (values, more.drop 1) := by
  have hpending : more = [] ∨ ∃ s, more = '\n' :: s := by
    cases more with
    | nil => exact .inl rfl
    | cons c s => exact .inr ⟨s, by rw [hmore c List.mem_cons_self]⟩
  induction h with
  | nil => rfl
  | @cons line value lines values hread hrest ih =>
      have hrestline := fun l hl => hline l (List.mem_cons_of_mem _ hl)
      obtain ⟨hfield, hbehind⟩ := field_pending (hline line List.mem_cons_self)
        (led_pending lines hpending)
      have hdrop : (led '\n' (line :: lines) ++ more).drop 1 = line ++ (led '\n' lines ++ more) := by
        rw [led_cons, List.cons_append, List.cons_append, List.drop_one, List.tail_cons,
          List.append_assoc]
      rw [hdrop, List.length_cons, parseValues, hfield, if_neg hread.1, hread.2, behind, hbehind,
        ih hrestline]
      rfl

theorem parseValues_eq_some {count : ℕ} {text s rest : List Char} {values : List Value}
    (htext : text = [] ∧ s = [] ∨ text = '\n' :: s)
    (h : parseValues long strtod count s = some (values, rest)) (hrest : ∀ c ∈ rest, c = '\n') :
    ∃ lines more, text = led '\n' lines ++ more ∧ lines.length = count ∧
      (∀ line ∈ lines, '\n' ∉ line) ∧ List.Forall₂ (SpelledLine strtod) lines values ∧
      ∀ c ∈ more, c = '\n' := by
  induction count generalizing text s values with
  | zero =>
      cases h
      refine ⟨[], text, rfl, rfl, List.forall_mem_nil _, .nil, ?_⟩
      rcases htext with ⟨rfl, -⟩ | rfl
      · exact List.forall_mem_nil _
      · intro c hc
        rcases List.mem_cons.mp hc with rfl | hc
        · rfl
        · exact hrest c hc
  | succ count ih =>
      rw [parseValues] at h
      split_ifs at h with hempty
      cases hvalue : parseQueryValueWire long strtod (field '\n' s) with
      | none => simp [hvalue] at h
      | some value =>
          simp only [hvalue] at h
          obtain ⟨⟨values', rest'⟩, hparse, hpair⟩ := Option.map_eq_some_iff.mp h
          cases hpair
          obtain ⟨lines, more, hled, hcount, hlines, hspelled, hmore⟩ := ih (pending_eq '\n' s) hparse
          have hnewline : text = '\n' :: s := by
            rcases htext with ⟨-, rfl⟩ | htext
            · exact absurd rfl hempty
            · exact htext
          refine ⟨field '\n' s :: lines, more, ?_, by rw [List.length_cons, hcount], ?_,
            .cons (parseQueryValueWire_eq_some hvalue) hspelled, hmore⟩
          · rw [led_cons, List.append_assoc, ← hled, List.cons_append, field_append_pending,
              hnewline]
          · intro line hl
            rcases List.mem_cons.mp hl with rfl | hl
            · exact notMem_field '\n' s
            · exact hlines line hl

/-- What the adapter accepts is a packet of lines. -/
theorem parseQueryParameterWire_eq_some {text : List Char} {values : List Value}
    (h : parseQueryParameterWire long strtod text = some values) : SpelledPacket strtod text values := by
  unfold parseQueryParameterWire at h
  dsimp only at h
  split_ifs at h with hsize hhead
  rw [not_or, not_not] at hhead
  cases hcount : parseU32Decimal long ((field '\n' text).drop 3) with
  | none => simp [hcount] at h
  | some count =>
      simp only [hcount] at h
      split_ifs at h with hmany
      cases hparse : parseValues long strtod count (behind '\n' text) with
      | none => simp [hparse] at h
      | some p =>
          obtain ⟨values', rest⟩ := p
          simp only [hparse] at h
          split_ifs at h with hrest
          cases h
          have hnewlines : ∀ c ∈ rest, c = '\n' := fun c hc =>
            of_decide_eq_true (List.all_eq_true.mp hrest c hc)
          obtain ⟨lines, more, hled, hlength, hlines, hspelled, hmore⟩ :=
            parseValues_eq_some (pending_eq '\n' text) hparse hnewlines
          obtain ⟨hdigits, -⟩ := parseU32Decimal_eq_some.mp hcount
          refine ⟨lines, more, ?_, by omega, hlines, hspelled, hmore⟩
          rw [hlength, ← hdigits, List.append_assoc, ← hled, ← hhead.2, List.take_append_drop,
            field_append_pending]

end Grammar

/-! ## What the script writes -/

section Packet

variable {D : Type}

/-- The value a parameter stands for, for those that are no doubles. -/
inductive Typed : Parameter D → Value → Prop
  | null : Typed .null createNull
  | boolean (b : Bool) : Typed (.boolean b) (createBool b)
  | int32 {v : ℤ} (h : isInt32 v) : Typed (.number (.whole v)) (createInt32 v)
  | safe {v : ℤ} (h : ¬isInt32 v) (hs : v.natAbs ≤ maxSafeInteger) :
      Typed (.number (.whole v)) (createInt64 v)
  | int64 {value : Int64Value} {v : ℤ} (hv : isInt64 v) (h : value.text = intText v) :
      Typed (.int64 value) (createInt64 v)
  | bytes {value : BytesValue} {bytes : Bytes} (h : value.hex = upperHex bytes) :
      Typed (.bytes value) (createBytes bytes)
  | string (cs : List Char) : Typed (.string (cs.flatMap fun c => units c.toNat))
      ⟨Value.utf8, cs.flatMap String.utf8EncodeChar⟩

/-- The parameters of the other kinds: the strings are those without a lone surrogate. -/
def Plain : Parameter D → Prop
  | .null | .int64 _ | .bytes _ | .boolean _ => True
  | .number (.whole v) => v.natAbs ≤ maxSafeInteger
  | .string text => ∃ cs : List Char, text = cs.flatMap fun c => units c.toNat
  | _ => False

theorem Int64Value.exists_int (value : Int64Value) : ∃ v, isInt64 v ∧ value.text = intText v :=
  canonicalInt64_eq_ok value.canonical.choose_spec

theorem BytesValue.exists_bytes (value : BytesValue) : ∃ bytes, value.hex = upperHex bytes := by
  obtain ⟨text, h⟩ := value.normalized
  obtain ⟨bytes, -, hhex⟩ := normalizeHex_eq_ok h
  exact ⟨bytes, hhex⟩

theorem typed_of_plain {p : Parameter D} (h : Plain p) : ∃ value, Typed p value := by
  match p, h with
  | .null, _ => exact ⟨_, .null⟩
  | .boolean b, _ => exact ⟨_, .boolean b⟩
  | .int64 value, _ =>
      obtain ⟨v, hv, htext⟩ := value.exists_int
      exact ⟨_, .int64 hv htext⟩
  | .bytes value, _ =>
      obtain ⟨bytes, hhex⟩ := value.exists_bytes
      exact ⟨_, .bytes hhex⟩
  | .number (.whole v), hsafe =>
      by_cases hv : isInt32 v
      · exact ⟨_, .int32 hv⟩
      · exact ⟨_, .safe hv hsafe⟩
  | .string _, ⟨cs, rfl⟩ => exact ⟨_, .string cs⟩

theorem newline_notMem_intText {v : ℤ} : '\n' ∉ intText v := by
  unfold intText
  split_ifs
  · intro h
    rcases List.mem_cons.mp h with h | h
    · exact absurd h (by decide)
    · exact newline_notMem_natText h
  · exact newline_notMem_natText

theorem newline_notMem_upperHex {bytes : Bytes} : '\n' ∉ upperHex bytes := fun h =>
  absurd (nibble_upperHex h) (by decide)

theorem newline_notMem_valueLine {type : ℕ} {payload : List Char} (h : '\n' ∉ payload) :
    '\n' ∉ valueLine type payload := by
  simp only [valueLine, List.mem_append, List.mem_cons, not_or]
  exact ⟨⟨by decide, newline_notMem_natText⟩, by decide, h⟩

variable {strtod : List Char → RealConversion}

/-- The payload of a spelling that a writer uses is read as its value. -/
theorem parsePayload_int32 {v : ℤ} (h : isInt32 v) :
    parsePayload strtod Value.int32 (intText v) = some (createInt32 v) := by
  have hwide : isInt64 v := ⟨by have := h.1; omega, by have := h.2; omega⟩
  have hrange : ¬(v < -2147483648 ∨ 2147483647 < v) := by
    have hlow := h.1
    have hhigh := h.2
    omega
  rw [parsePayload, if_neg (by decide), if_neg (by decide), if_pos rfl,
    parseI64Decimal_eq_some.mpr ⟨rfl, hwide⟩]
  exact if_neg hrange

theorem parsePayload_int64 {v : ℤ} (h : isInt64 v) :
    parsePayload strtod Value.int64 (intText v) = some (createInt64 v) := by
  rw [parsePayload, if_neg (by decide), if_neg (by decide), if_neg (by decide), if_pos rfl,
    parseI64Decimal_eq_some.mpr ⟨rfl, h⟩]
  rfl

theorem parsePayload_bytes (bytes : Bytes) :
    parsePayload strtod Value.bytes (upperHex bytes) = some (createBytes bytes) := by
  rw [parsePayload, if_neg (by decide), if_neg (by decide), if_neg (by decide),
    if_neg (by decide), if_neg (by decide), makeTextValue, if_neg (by decide), if_neg (by decide),
    hexDecode_upperHex]
  rfl

theorem parsePayload_text (cs : List Char) :
    parsePayload strtod Value.utf8 (upperHex (cs.flatMap String.utf8EncodeChar)) =
      some ⟨Value.utf8, cs.flatMap String.utf8EncodeChar⟩ := by
  rw [parsePayload, if_neg (by decide), if_neg (by decide), if_neg (by decide),
    if_neg (by decide), if_neg (by decide), makeTextValue, if_neg (by decide), if_neg (by decide),
    hexDecode_upperHex]
  exact createText_eq_some.mpr ⟨.inl rfl, ⟨cs, rfl⟩, rfl⟩

variable {exponential : Number D → List Char} {long : LongWidth}

theorem numberString_whole {v : ℤ} (h : v.natAbs ≤ maxSafeInteger) :
    numberString exponential (.whole v) = intText v :=
  if_pos (lt_of_le_of_lt h (by decide))

/-- The line of a parameter is read as its value. -/
theorem encodeQueryParameter_typed {p : Parameter D} {value : Value} (h : Typed p value) :
    ∃ type payload, encodeQueryParameter exponential p = .ok (valueLine type payload) ∧
      type ≤ Value.object ∧ '\n' ∉ payload ∧ parsePayload strtod type payload = some value := by
  cases h with
  | null => exact ⟨Value.null, [], rfl, by decide, by decide, rfl⟩
  | boolean b =>
      refine ⟨Value.bool, _, rfl, by decide, ?_, ?_⟩
      · cases b <;> decide
      · cases b <;> rfl
  | @int32 v hv =>
      have hrange : -2147483648 ≤ v ∧ v ≤ 2147483647 := ⟨hv.1, by have := hv.2; omega⟩
      have hsafe : v.natAbs ≤ maxSafeInteger := by
        unfold maxSafeInteger
        omega
      refine ⟨Value.int32, intText v, ?_, by decide, newline_notMem_intText, parsePayload_int32 hv⟩
      rw [encodeQueryParameter, if_pos hsafe, if_pos hrange, numberString_whole hsafe]
  | @safe v hv hsafe =>
      have hrange : ¬(-2147483648 ≤ v ∧ v ≤ 2147483647) :=
        fun hin => hv ⟨hin.1, by have := hin.2; omega⟩
      have hwide : isInt64 v := by
        unfold maxSafeInteger at hsafe
        exact ⟨by omega, by omega⟩
      refine ⟨Value.int64, intText v, ?_, by decide, newline_notMem_intText,
        parsePayload_int64 hwide⟩
      rw [encodeQueryParameter, if_pos hsafe, if_neg hrange, numberString_whole hsafe,
        canonicalInt64_intText hwide]
      rfl
  | @int64 value v hv htext =>
      refine ⟨Value.int64, intText v, ?_, by decide, newline_notMem_intText, parsePayload_int64 hv⟩
      rw [encodeQueryParameter, htext]
  | @bytes value bytes hhex =>
      refine ⟨Value.bytes, upperHex bytes, ?_, by decide, newline_notMem_upperHex,
        parsePayload_bytes bytes⟩
      rw [encodeQueryParameter, hhex]
  | string cs =>
      refine ⟨Value.utf8, _, ?_, by decide, newline_notMem_upperHex, parsePayload_text cs⟩
      rw [encodeQueryParameter, utf8ToHex_text]
      rfl

variable (long strtod) in
theorem encodeQueryParameters_typed {params : List (Parameter D)} {values : List Value}
    (h : List.Forall₂ Typed params values) :
    ∃ lines, params.mapM (encodeQueryParameter exponential) = .ok lines ∧
      lines.length = params.length ∧ (∀ line ∈ lines, '\n' ∉ line) ∧
      List.Forall₂ (fun line value => line ≠ [] ∧
        parseQueryValueWire long strtod line = some value) lines values := by
  induction h with
  | nil => exact ⟨[], rfl, rfl, List.forall_mem_nil _, .nil⟩
  | @cons p value params values hp _ ih =>
      obtain ⟨lines, hlines, hlength, hnewline, hread⟩ := ih
      obtain ⟨type, payload, hencode, htype, hpayload, hparse⟩ :=
        encodeQueryParameter_typed hp
      refine ⟨valueLine type payload :: lines, ?_, by simp [hlength], ?_, .cons ⟨?_, ?_⟩ hread⟩
      · rw [List.mapM_cons, hencode, hlines]
        rfl
      · exact List.forall_mem_cons.mpr ⟨newline_notMem_valueLine hpayload, hnewline⟩
      · exact List.cons_ne_nil _ _
      · rw [parseQueryValueWire_valueLine htype, hparse]

/-- The packet of plain parameters is read as their values; a text that is read is a packet in
the one spelling of its lines. -/
theorem parameter_packet (exponential : Number D → List Char) (long : LongWidth)
    (strtod : List Char → RealConversion) :
    (∀ params : List (Parameter D), (∀ p ∈ params, Plain p) → params.length ≤ 1024 →
      ∃ text values, queryParameterPacket exponential params = .ok text ∧
        List.Forall₂ Typed params values ∧
        (text.length ≤ 8 * 1024 * 1024 → parseQueryParameterWire long strtod text = some values)) ∧
      ∀ text values, parseQueryParameterWire long strtod text = some values →
        SpelledPacket strtod text values := by
  refine ⟨fun params hplain hcount => ?_, fun text values => parseQueryParameterWire_eq_some⟩
  obtain ⟨values, hvalues⟩ : ∃ values, List.Forall₂ Typed params values := by
    clear hcount
    induction params with
    | nil => exact ⟨[], .nil⟩
    | cons p params ih =>
        obtain ⟨hp, hparams⟩ := List.forall_mem_cons.mp hplain
        obtain ⟨value, hvalue⟩ := typed_of_plain hp
        obtain ⟨values, hvalues⟩ := ih hparams
        exact ⟨value :: values, .cons hvalue hvalues⟩
  obtain ⟨lines, hlines, hlength, hnewline, hread⟩ := encodeQueryParameters_typed strtod long hvalues
  have htext : queryParameterPacket exponential params =
      .ok ("P1:".toList ++ natText params.length ++ led '\n' lines) := by
    rw [queryParameterPacket, if_neg (by omega), hlines, Except.map, intercalate_cons]
  refine ⟨_, values, htext, hvalues, fun hsize => ?_⟩
  have hheadline : '\n' ∉ "P1:".toList ++ natText params.length := by
    simp only [List.mem_append, not_or]
    exact ⟨by decide, newline_notMem_natText⟩
  obtain ⟨hfield, hpending⟩ := field_pending hheadline (led_pending lines (.inl rfl))
  rw [List.append_nil] at hfield hpending
  have hlines := parseValues_led hnewline (List.forall_mem_nil _) hread
  rw [List.append_nil, hlength] at hlines
  have hshort : ¬(("P1:".toList ++ natText params.length).length < 4 ∨
      ("P1:".toList ++ natText params.length).take 3 ≠ "P1:".toList) := by
    have hpos := List.length_pos_of_ne_nil (natText_ne_nil params.length)
    rintro (hshort | hhead)
    · simp at hshort
      omega
    · exact hhead rfl
  have hdigits : ("P1:".toList ++ natText params.length).drop 3 = natText params.length := rfl
  unfold parseQueryParameterWire
  simp only [hfield, behind, hpending]
  rw [if_neg (by omega), if_neg hshort, hdigits, parseU32Decimal_natText, if_pos (by omega)]
  simp only [hlines]
  rw [if_neg (by omega)]
  rfl

end Packet

end Esdb.Wire
