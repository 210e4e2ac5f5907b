import Esdb.DecimalReaders
import Esdb.ParameterWire

/-!
# The wire of the generated client

The bridge of a generated repository answers with one text: a letter for the kind of the
answer and, behind a colon, what it holds; the rows of a query are one flat list of tokens
between bars, in which counts say where a row ends. The generated client reads the tokens
one after the other, and takes a text only when no token is left.
-/
namespace Esdb.OrmWire

open Decimal Utf8Readers Wire Delimited

/-! ## The client's parser -/

/-- The characters of a script's text, unit by unit. The parser looks for ASCII only, so that
it does not matter which other character a surrogate becomes. -/
def chars (s : List UInt16) : List Char := s.map fun u => Char.ofNat u.toNat

/-- A field of a row as its two tokens. -/
structure Field where
  tag : List Char
  value : List Char
  deriving DecidableEq, Repr

inductive Parsed where
  | ok
  | none
  | error (status : ℤ) (message : List ℕ)
  | handle (n : ℕ)
  | changes (n : ℕ)
  | row (fields : List Field)
  | rows (rows : List (List Field))
  deriving DecidableEq, Repr

def parseUnsigned (text : List Char) (label : String) (max : ℕ) (requirePositive : Bool) :
    Except String ℕ :=
  if !isNumeral text then .error (label ++ " must be a canonical unsigned decimal integer")
  else if requirePositive && text = ['0'] then .error (label ++ " must be positive")
  else if exceeds text (natText max) then .error (label ++ " is out of range")
  else .ok (value text)

/-- The tokens behind the first bar, by `splitTokens`. -/
def tokensOf (rest : List Char) : List (List Char) :=
  match pending '|' rest with
  | [] => []
  | _ :: s => s.splitOn '|'

/-- The loop that takes the tokens of `count` fields, with what it leaves. -/
def takeFields : ℕ → List (List Char) → List Field × List (List Char)
  | count + 1, tag :: value :: tokens =>
      (⟨tag, value⟩ :: (takeFields count tokens).1, (takeFields count tokens).2)
  | _, tokens => ([], tokens)

def parseFields (rest : List Char) : Except String (List Field) :=
  let head := field '|' rest
  if head.head? ≠ some ':' then .error "malformed row wire"
  else
    (parseUnsigned head.tail "row field count" maxSafeInteger false).bind fun count =>
      if (tokensOf rest).length ≠ count * 2 then .error "row wire field count mismatch"
      else .ok (takeFields count (tokensOf rest)).1

/-- The loop of `parseRows` over the rows to come, on the tokens behind the cursor. -/
def readRows : ℕ → List (List Char) → Except String (List (List Field))
  | 0, [] => .ok []
  | 0, _ :: _ => .error "rows wire contains trailing data"
  | _ + 1, [] => .error "rows wire ended before row field count"
  | count + 1, token :: tokens =>
      (parseUnsigned token "row field count" maxSafeInteger false).bind fun fieldCount =>
        if tokens.length < fieldCount * 2 then .error "rows wire ended before all row fields"
        else
          (readRows count (takeFields fieldCount tokens).2).map fun rows =>
            (takeFields fieldCount tokens).1 :: rows

def parseRows (rest : List Char) : Except String (List (List Field)) :=
  let head := field '|' rest
  if head.head? ≠ some ':' then .error "malformed rows wire"
  else
    (parseUnsigned head.tail "row count" maxSafeInteger false).bind fun rowCount =>
      readRows rowCount (tokensOf rest)

/-- The branch for `E`, behind the colon. -/
def parseError (rest : List Char) : Except String Parsed :=
  if ':' ∉ rest then .error "malformed error wire"
  else
    match DecimalReaders.Generated.int64FromWire (field ':' rest) false with
    | .error e => .error e
    | .ok (.inl _) => .error "error status is out of int32 range"
    | .ok (.inr status) =>
        if status < -2147483648 ∨ 2147483647 < status then
          .error "error status is out of int32 range"
        else (hexToUtf8 (behind ':' rest)).map fun message => .error status message

def maxInt32 : ℕ := 2147483647

def parseWire (wire : List Char) : Except String Parsed :=
  if wire.take 3 ≠ "U1:".toList then .error "invalid bridge wire version"
  else
    match wire.drop 3 with
    | 'O' :: rest => if rest ≠ [] then .error "ok wire contains trailing data" else .ok .ok
    | 'N' :: rest => if rest ≠ [] then .error "none wire contains trailing data" else .ok .none
    | 'E' :: rest => if rest.head? ≠ some ':' then .error "malformed error wire"
        else parseError rest.tail
    | 'H' :: rest =>
        if rest.head? ≠ some ':' then .error "malformed handle wire"
        else (parseUnsigned rest.tail "handle" maxInt32 true).map .handle
    | 'C' :: rest =>
        if rest.head? ≠ some ':' then .error "malformed changes wire"
        else (parseUnsigned rest.tail "changes" maxInt32 false).map .changes
    | 'R' :: rest => (parseFields rest).map .row
    | 'L' :: rest => (parseRows rest).map .rows
    | body => .error ("unknown bridge wire kind: " ++ String.ofList (body.take 1))

/-! ## What the parser takes -/

theorem parseUnsigned_iff {text : List Char} {label : String} {max n : ℕ} {positive : Bool} :
    parseUnsigned text label max positive = .ok n ↔
      text = natText n ∧ n ≤ max ∧ (positive = true → 0 < n) := by
  constructor
  · intro h
    rw [parseUnsigned] at h
    split_ifs at h with hnumeral hzero hexceeds
    obtain ⟨m, rfl⟩ := isNumeral_iff.mp (by simpa using hnumeral)
    obtain rfl : m = n := by simpa using h
    rw [exceeds_natText, decide_eq_true_iff] at hexceeds
    refine ⟨rfl, Nat.le_of_not_lt hexceeds, fun hpositive => Nat.pos_of_ne_zero fun hm => ?_⟩
    subst hm
    exact hzero (by rw [hpositive, natText_zero]; rfl)
  · rintro ⟨rfl, hmax, hpositive⟩
    have hzero : (positive && decide (natText n = ['0'])) = false := by
      cases positive with
      | false => rfl
      | true =>
          refine decide_eq_false fun heq => Nat.ne_of_gt (hpositive rfl) ?_
          exact natText_inj.mp (heq.trans natText_zero.symm)
    rw [parseUnsigned, isNumeral_natText, hzero, exceeds_natText,
      decide_eq_false (Nat.not_lt.mpr hmax), value_natText]
    rfl

theorem led_tokensOf (rest : List Char) : led '|' (tokensOf rest) = pending '|' rest := by
  rw [tokensOf]
  rcases pending_eq '|' rest with ⟨hnone, -⟩ | hsome
  · rw [hnone]
    rfl
  · rw [hsome]
    generalize behind '|' rest = s
    have hjoin : ['|'].intercalate (s.splitOn '|') = s := List.intercalate_splitOn '|'
    cases hsplit : s.splitOn '|' with
    | nil => exact absurd hsplit (List.splitOn_ne_nil '|' s)
    | cons t ts =>
        rw [hsplit, intercalate_cons] at hjoin
        dsimp only
        rw [hsplit, led_cons, List.cons_append, hjoin]

theorem notMem_tokensOf (rest : List Char) : ∀ t ∈ tokensOf rest, '|' ∉ t := by
  rw [tokensOf]
  split
  · exact List.forall_mem_nil _
  · exact notMem_splitOn '|' _

theorem tokensOf_append {w : List Char} {tokens : List (List Char)} (hw : '|' ∉ w)
    (h : ∀ t ∈ tokens, '|' ∉ t) : tokensOf (w ++ led '|' tokens) = tokens := by
  cases tokens with
  | nil =>
      rw [led_nil, List.append_nil, tokensOf, pending_self hw]
  | cons t ts =>
      have hpending := (field_pending hw (.inr ⟨_, led_cons ts⟩ : led '|' (t :: ts) = [] ∨ _)).2
      rw [tokensOf, hpending, led_cons]
      dsimp only [List.cons_append]
      rw [← intercalate_cons]
      exact List.splitOn_intercalate '|' h (List.cons_ne_nil t ts)

def Field.tokens (f : Field) : List (List Char) := [f.tag, f.value]

/-- The tokens of a field have no bar in them. -/
def Field.Plain (f : Field) : Prop := '|' ∉ f.tag ∧ '|' ∉ f.value

theorem takeFields_tokens (fields : List Field) (tokens : List (List Char)) :
    takeFields fields.length (fields.flatMap Field.tokens ++ tokens) = (fields, tokens) := by
  induction fields with
  | nil => cases tokens <;> rfl
  | cons f fields ih =>
      rw [List.flatMap_cons, List.append_assoc, List.length_cons]
      change takeFields (fields.length + 1)
        (f.tag :: f.value :: (fields.flatMap Field.tokens ++ tokens)) = _
      rw [takeFields, ih]

theorem takeFields_split {count : ℕ} {tokens : List (List Char)}
    (h : count * 2 ≤ tokens.length) : (takeFields count tokens).1.length = count ∧
      tokens = (takeFields count tokens).1.flatMap Field.tokens ++ (takeFields count tokens).2 := by
  induction count generalizing tokens with
  | zero =>
      have hnone : takeFields 0 tokens = ([], tokens) := by cases tokens <;> rfl
      rw [hnone]
      exact ⟨rfl, rfl⟩
  | succ count ih =>
      rcases tokens with _ | ⟨tag, _ | ⟨value, tokens⟩⟩
      · simp at h
      · simp at h
        omega
      · obtain ⟨hlength, hsplit⟩ := @ih tokens (by
          simp only [List.length_cons] at h
          omega)
        rw [takeFields]
        refine ⟨congrArg (· + 1) hlength, ?_⟩
        rw [List.flatMap_cons, List.append_assoc, ← hsplit]
        rfl

/-- The tokens of one row among the rows. -/
def rowTokens (fields : List Field) : List (List Char) :=
  natText fields.length :: fields.flatMap Field.tokens

theorem readRows_iff {count : ℕ} {tokens : List (List Char)} {rows : List (List Field)} :
    readRows count tokens = .ok rows ↔ rows.length = count ∧ tokens = rows.flatMap rowTokens ∧
      ∀ fields ∈ rows, fields.length ≤ maxSafeInteger := by
  induction count generalizing tokens rows with
  | zero =>
      cases tokens with
      | nil =>
          constructor
          · rintro ⟨⟩
            exact ⟨rfl, rfl, List.forall_mem_nil _⟩
          · rintro ⟨hlength, -, -⟩
            rw [List.length_eq_zero_iff.mp hlength]
            rfl
      | cons t ts =>
          constructor
          · rintro ⟨⟩
          · rintro ⟨hlength, htokens, -⟩
            rw [List.length_eq_zero_iff.mp hlength] at htokens
            cases htokens
  | succ count ih =>
      cases tokens with
      | nil =>
          constructor
          · rintro ⟨⟩
          · rintro ⟨hlength, htokens, -⟩
            cases rows with
            | nil => cases hlength
            | cons fields rows => cases htokens
      | cons t ts =>
          rw [readRows]
          constructor
          · intro h
            cases hcount : parseUnsigned t "row field count" maxSafeInteger false with
            | error e =>
                rw [hcount] at h
                cases h
            | ok fieldCount =>
                rw [hcount] at h
                dsimp only [Except.bind] at h
                split_ifs at h with hshort
                obtain ⟨rfl, hmax, -⟩ := parseUnsigned_iff.mp hcount
                obtain ⟨hlength, hsplit⟩ := takeFields_split (Nat.le_of_not_lt hshort)
                cases hrest : readRows count (takeFields fieldCount ts).2 with
                | error e =>
                    rw [hrest] at h
                    cases h
                | ok rest =>
                    rw [hrest] at h
                    obtain rfl := Except.ok.inj h
                    obtain ⟨hcount', htokens, hall⟩ := ih.mp hrest
                    refine ⟨by rw [List.length_cons, hcount'], ?_, ?_⟩
                    · rw [List.flatMap_cons, rowTokens, hlength, ← htokens, List.cons_append,
                        ← hsplit]
                    · exact List.forall_mem_cons.mpr ⟨by rwa [hlength], hall⟩
          · rintro ⟨hlength, htokens, hall⟩
            cases rows with
            | nil => cases hlength
            | cons fields rows =>
                obtain ⟨hmax, hall⟩ := List.forall_mem_cons.mp hall
                rw [List.flatMap_cons, rowTokens, List.cons_append] at htokens
                obtain ⟨rfl, rfl⟩ := List.cons.inj htokens
                have hcount : parseUnsigned (natText fields.length) "row field count"
                    maxSafeInteger false = .ok fields.length :=
                  parseUnsigned_iff.mpr ⟨rfl, hmax, nofun⟩
                have hshort : ¬(fields.flatMap Field.tokens ++ rows.flatMap rowTokens).length <
                    fields.length * 2 := by
                  have htwo : (fields.flatMap Field.tokens).length = fields.length * 2 := by
                    simp [List.length_flatMap, Field.tokens]
                  rw [List.length_append]
                  omega
                have hrest : readRows count (rows.flatMap rowTokens) = .ok rows :=
                  ih.mpr ⟨Nat.succ.inj hlength, rfl, hall⟩
                rw [hcount]
                dsimp only [Except.bind]
                rw [if_neg hshort, takeFields_tokens, hrest]
                rfl

theorem bar_notMem_natText (n : ℕ) : '|' ∉ natText n := fun h =>
  absurd (isDigit_natText h) (by decide)

theorem plain_iff {fields : List Field} :
    (∀ t ∈ fields.flatMap Field.tokens, '|' ∉ t) ↔ ∀ f ∈ fields, f.Plain := by
  simp only [List.forall_mem_flatMap, Field.tokens, Field.Plain, List.forall_mem_cons,
    List.not_mem_nil, false_imp_iff, implies_true, and_true]

theorem plainRows_iff {rows : List (List Field)} :
    (∀ t ∈ rows.flatMap rowTokens, '|' ∉ t) ↔ ∀ fields ∈ rows, ∀ f ∈ fields, f.Plain := by
  simp only [List.forall_mem_flatMap, rowTokens, List.forall_mem_cons, bar_notMem_natText,
    not_false_eq_true, true_and, ← plain_iff]

/-- A count behind a colon and the tokens, for both kinds of rows. -/
theorem counted_iff {α : Type} {rest : List Char} {e label : String} {max : ℕ} {a : α}
    {f : ℕ → Except String α} :
    (if (field '|' rest).head? ≠ some ':' then .error e
      else (parseUnsigned (field '|' rest).tail label max false).bind f) = .ok a ↔
      ∃ n, rest = ':' :: natText n ++ led '|' (tokensOf rest) ∧ n ≤ max ∧ f n = .ok a := by
  have hsplit : rest = field '|' rest ++ led '|' (tokensOf rest) := by
    rw [led_tokensOf, field_append_pending]
  constructor
  · intro h
    split_ifs at h with hhead
    obtain ⟨text, htext⟩ := List.head?_eq_some_iff.mp (not_not.mp hhead)
    rw [htext, List.tail_cons] at h
    cases hcount : parseUnsigned text label max false with
    | error e =>
        rw [hcount] at h
        cases h
    | ok n =>
        rw [hcount] at h
        obtain ⟨rfl, hmax, -⟩ := parseUnsigned_iff.mp hcount
        exact ⟨n, by rwa [htext] at hsplit, hmax, h⟩
  · rintro ⟨n, hrest, hmax, hf⟩
    have hfield : field '|' rest = ':' :: natText n :=
      List.append_cancel_right (hsplit.symm.trans hrest)
    have hcount : parseUnsigned (natText n) label max false = .ok n :=
      parseUnsigned_iff.mpr ⟨rfl, hmax, nofun⟩
    rw [hfield, List.head?_cons, if_neg (not_not.mpr rfl), List.tail_cons, hcount]
    exact hf

theorem tokensOf_counted {n : ℕ} {tokens : List (List Char)} (h : ∀ t ∈ tokens, '|' ∉ t) :
    tokensOf (':' :: natText n ++ led '|' tokens) = tokens :=
  tokensOf_append (List.not_mem_cons_of_ne_of_not_mem (by decide) (bar_notMem_natText n)) h

/-- The counts of the head and of the rows, and the tokens they count. -/
theorem parseRows_iff {rest : List Char} {rows : List (List Field)} :
    parseRows rest = .ok rows ↔
      rest = ':' :: natText rows.length ++ led '|' (rows.flatMap rowTokens) ∧
        rows.length ≤ maxSafeInteger ∧ (∀ fields ∈ rows, fields.length ≤ maxSafeInteger) ∧
          ∀ fields ∈ rows, ∀ f ∈ fields, f.Plain := by
  refine (counted_iff (f := fun rowCount => readRows rowCount (tokensOf rest))).trans ?_
  constructor
  · rintro ⟨n, hrest, hmax, hrows⟩
    obtain ⟨rfl, htokens, hall⟩ := readRows_iff.mp hrows
    have hplain := notMem_tokensOf rest
    rw [htokens, plainRows_iff] at hplain
    exact ⟨by rwa [htokens] at hrest, hmax, hall, hplain⟩
  · rintro ⟨hrest, hmax, hall, hplain⟩
    have htokens := tokensOf_counted (n := rows.length) (plainRows_iff.mpr hplain)
    rw [← hrest] at htokens
    exact ⟨rows.length, by rwa [htokens], hmax, readRows_iff.mpr ⟨rfl, htokens, hall⟩⟩

theorem parseFields_iff {rest : List Char} {fields : List Field} :
    parseFields rest = .ok fields ↔
      rest = ':' :: natText fields.length ++ led '|' (fields.flatMap Field.tokens) ∧
        fields.length ≤ maxSafeInteger ∧ ∀ f ∈ fields, f.Plain := by
  refine (counted_iff (f := fun count => if (tokensOf rest).length ≠ count * 2 then
    .error "row wire field count mismatch" else .ok (takeFields count (tokensOf rest)).1)).trans ?_
  have htwo (fields : List Field) :
      (fields.flatMap Field.tokens).length = fields.length * 2 := by
    simp [List.length_flatMap, Field.tokens]
  constructor
  · rintro ⟨n, hrest, hmax, hfields⟩
    split_ifs at hfields with hlength
    have hlength' := not_not.mp hlength
    obtain ⟨hcount, htokens⟩ := takeFields_split (Nat.le_of_eq hlength'.symm)
    rw [Except.ok.inj hfields] at hcount htokens
    have hnone : (takeFields n (tokensOf rest)).2 = [] := by
      have hlen := congrArg List.length htokens
      rw [List.length_append, htwo, hcount, hlength'] at hlen
      exact List.length_eq_zero_iff.mp (by omega)
    rw [hnone, List.append_nil] at htokens
    have hplain := notMem_tokensOf rest
    rw [htokens, plain_iff] at hplain
    rw [htokens, ← hcount] at hrest
    exact ⟨hrest, by rwa [hcount], hplain⟩
  · rintro ⟨hrest, hmax, hplain⟩
    have htokens := tokensOf_counted (n := fields.length) (plain_iff.mpr hplain)
    rw [← hrest] at htokens
    refine ⟨fields.length, by rwa [htokens], hmax, ?_⟩
    have htake := takeFields_tokens fields []
    rw [List.append_nil] at htake
    rw [htokens, if_neg (not_not.mpr (htwo fields)), htake]

/-- How each answer is spelled. -/
inductive Spelled : List Char → Parsed → Prop
  | ok : Spelled "U1:O".toList .ok
  | none : Spelled "U1:N".toList .none
  | error {status : ℤ} {hex : List Char} {message : List ℕ}
      (hstatus : -2147483648 ≤ status ∧ status ≤ 2147483647) (h : hexToUtf8 hex = .ok message) :
      Spelled ("U1:E:".toList ++ intText status ++ ':' :: hex) (.error status message)
  | handle {n : ℕ} (hpos : 0 < n) (hmax : n ≤ maxInt32) :
      Spelled ("U1:H:".toList ++ natText n) (.handle n)
  | changes {n : ℕ} (hmax : n ≤ maxInt32) : Spelled ("U1:C:".toList ++ natText n) (.changes n)
  | row {fields : List Field} (hmax : fields.length ≤ maxSafeInteger)
      (hplain : ∀ f ∈ fields, f.Plain) :
      Spelled ("U1:R:".toList ++ natText fields.length ++ led '|' (fields.flatMap Field.tokens))
        (.row fields)
  | rows {rows : List (List Field)} (hmax : rows.length ≤ maxSafeInteger)
      (hcounts : ∀ fields ∈ rows, fields.length ≤ maxSafeInteger)
      (hplain : ∀ fields ∈ rows, ∀ f ∈ fields, f.Plain) :
      Spelled ("U1:L:".toList ++ natText rows.length ++ led '|' (rows.flatMap rowTokens))
        (.rows rows)

theorem int64FromWire_number {text : List Char} {out : List Char ⊕ ℤ} :
    DecimalReaders.Generated.int64FromWire text false = .ok out ↔
      ∃ v, text = intText v ∧ v.natAbs ≤ maxSafeInteger ∧ out = .inr v := by
  have hsafe (v : ℤ) (hv : isInt64 v) :
      DecimalReaders.Generated.int64FromWire (intText v) false = .ok out ↔
        v.natAbs ≤ maxSafeInteger ∧ out = .inr v := by
    have hcheck := DecimalReaders.int64Check_iff.mpr ⟨v, hv, rfl⟩
    have hvalue : (if v < 0 then -(v.natAbs : ℤ) else v.natAbs) = v := by
      split_ifs <;> omega
    unfold DecimalReaders.Generated.int64FromWire
    simp only [hcheck, Bool.not_true, Bool.false_eq_true, if_false,
      DecimalReaders.splitMinus_intText, DecimalReaders.trimmed_natText, exceeds_natText,
      decide_eq_true_iff, value_natText, hvalue]
    change (if maxSafeInteger < v.natAbs then _ else _) = _ ↔ _
    by_cases hlarge : maxSafeInteger < v.natAbs
    · rw [if_pos hlarge]
      exact ⟨nofun, fun h => absurd h.1 (Nat.not_le.mpr hlarge)⟩
    · rw [if_neg hlarge]
      exact ⟨fun h => ⟨Nat.le_of_not_lt hlarge, (Except.ok.inj h).symm⟩, fun h => h.2 ▸ rfl⟩
  constructor
  · intro h
    have hcheck : DecimalReaders.IsInt64Text text := by
      rw [← DecimalReaders.int64Check_iff]
      by_contra hno
      rw [Bool.not_eq_true] at hno
      unfold DecimalReaders.Generated.int64FromWire at h
      rw [hno] at h
      cases h
    obtain ⟨v, hv, rfl⟩ := hcheck
    exact ⟨v, rfl, (hsafe v hv).mp h⟩
  · rintro ⟨v, rfl, hmax, hout⟩
    have hv : isInt64 v := by
      unfold maxSafeInteger at hmax
      constructor <;> omega
    exact (hsafe v hv).mpr ⟨hmax, hout⟩

theorem colon_notMem_intText (v : ℤ) : ':' ∉ intText v := by
  rw [intText]
  split_ifs
  · exact List.not_mem_cons_of_ne_of_not_mem (by decide) colon_notMem_natText
  · exact colon_notMem_natText

theorem parseError_iff {rest : List Char} {parsed : Parsed} :
    parseError rest = .ok parsed ↔ ∃ status hex message,
      rest = intText status ++ ':' :: hex ∧ (-2147483648 ≤ status ∧ status ≤ 2147483647) ∧
        hexToUtf8 hex = .ok message ∧ parsed = .error status message := by
  constructor
  · intro h
    rw [parseError] at h
    split_ifs at h with hcolon
    have hrest := eq_of_mem hcolon
    cases hstatus : DecimalReaders.Generated.int64FromWire (field ':' rest) false with
    | error e =>
        rw [hstatus] at h
        cases h
    | ok out =>
        obtain ⟨v, hfield, -, rfl⟩ := int64FromWire_number.mp hstatus
        rw [hstatus] at h
        dsimp only at h
        split_ifs at h with hrange
        cases hhex : hexToUtf8 (behind ':' rest) with
        | error e =>
            rw [hhex] at h
            cases h
        | ok message =>
            rw [hhex] at h
            obtain rfl := Except.ok.inj h
            refine ⟨v, behind ':' rest, message, ?_, by omega, hhex, rfl⟩
            rwa [hfield] at hrest
  · rintro ⟨status, hex, message, rfl, hrange, hhex, rfl⟩
    have hcolon := colon_notMem_intText status
    have hstatus : DecimalReaders.Generated.int64FromWire (intText status) false =
        .ok (.inr status) := by
      refine int64FromWire_number.mpr ⟨status, rfl, ?_, rfl⟩
      unfold maxSafeInteger
      omega
    rw [parseError, if_neg (by simp), field_append hcolon, behind_append hcolon, hstatus]
    dsimp only
    rw [if_neg (by omega), hhex]
    rfl

theorem isOk_map_iff {α β : Type} {f : α → β} {x : Except String α} {b : β} :
    x.map f = .ok b ↔ ∃ a, x = .ok a ∧ f a = b := by
  cases x with
  | error e => exact ⟨nofun, nofun⟩
  | ok a => exact ⟨fun h => ⟨a, rfl, Except.ok.inj h⟩,
      fun ⟨_, h, hf⟩ => congrArg Except.ok (Except.ok.inj h ▸ hf)⟩

/-- The parser takes the spellings of the answers and no other text: no token of a text that is
taken is left over. -/
theorem parseWire_iff {wire : List Char} {parsed : Parsed} :
    parseWire wire = .ok parsed ↔ Spelled wire parsed := by
  constructor
  · intro h
    rw [parseWire] at h
    split_ifs at h with hversion
    have hwire : wire = "U1:".toList ++ wire.drop 3 := by
      rw [← not_not.mp hversion, List.take_append_drop]
    rw [hwire]
    generalize wire.drop 3 = body at h
    split at h
    · split_ifs at h with hrest
      obtain rfl := not_not.mp hrest
      obtain rfl := Except.ok.inj h
      exact .ok
    · split_ifs at h with hrest
      obtain rfl := not_not.mp hrest
      obtain rfl := Except.ok.inj h
      exact .none
    · split_ifs at h with hcolon
      obtain ⟨rest, rfl⟩ := List.head?_eq_some_iff.mp (not_not.mp hcolon)
      obtain ⟨status, hex, message, hrest, hstatus, hhex, rfl⟩ := parseError_iff.mp h
      rw [List.tail_cons] at hrest
      rw [hrest]
      exact .error hstatus hhex
    · split_ifs at h with hcolon
      obtain ⟨rest, rfl⟩ := List.head?_eq_some_iff.mp (not_not.mp hcolon)
      obtain ⟨n, hn, rfl⟩ := isOk_map_iff.mp h
      obtain ⟨hrest, hmax, hpos⟩ := parseUnsigned_iff.mp hn
      rw [List.tail_cons] at hrest
      rw [hrest]
      exact .handle (hpos rfl) hmax
    · split_ifs at h with hcolon
      obtain ⟨rest, rfl⟩ := List.head?_eq_some_iff.mp (not_not.mp hcolon)
      obtain ⟨n, hn, rfl⟩ := isOk_map_iff.mp h
      obtain ⟨hrest, hmax, -⟩ := parseUnsigned_iff.mp hn
      rw [List.tail_cons] at hrest
      rw [hrest]
      exact .changes hmax
    · obtain ⟨fields, hfields, rfl⟩ := isOk_map_iff.mp h
      obtain ⟨rfl, hmax, hplain⟩ := parseFields_iff.mp hfields
      exact .row hmax hplain
    · obtain ⟨rows, hrows, rfl⟩ := isOk_map_iff.mp h
      obtain ⟨rfl, hmax, hcounts, hplain⟩ := parseRows_iff.mp hrows
      exact .rows hmax hcounts hplain
    · cases h
  · intro h
    cases h with
    | ok => rfl
    | none => rfl
    | @error status hex message hstatus h =>
        exact parseError_iff.mpr ⟨status, hex, message, rfl, hstatus, h, rfl⟩
    | @handle n hpos hmax =>
        have hn : parseUnsigned (natText n) "handle" maxInt32 true = .ok n :=
          parseUnsigned_iff.mpr ⟨rfl, hmax, fun _ => hpos⟩
        exact isOk_map_iff.mpr ⟨n, hn, rfl⟩
    | @changes n hmax =>
        have hn : parseUnsigned (natText n) "changes" maxInt32 false = .ok n :=
          parseUnsigned_iff.mpr ⟨rfl, hmax, nofun⟩
        exact isOk_map_iff.mpr ⟨n, hn, rfl⟩
    | @row fields hmax hplain =>
        exact isOk_map_iff.mpr ⟨fields, parseFields_iff.mpr ⟨rfl, hmax, hplain⟩, rfl⟩
    | @rows rows hmax hcounts hplain =>
        exact isOk_map_iff.mpr ⟨rows, parseRows_iff.mpr ⟨rfl, hmax, hcounts, hplain⟩, rfl⟩

end Esdb.OrmWire
