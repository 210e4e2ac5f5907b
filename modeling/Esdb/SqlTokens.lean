import Esdb.SqlText
import Esdb.Utf8

/-!
# Canonical SQL tokens

`canonicalSqlTokens` of the physical schema model. Spaces, comments, case and the style of
identifier quotes are dropped. Tokens are read greedily, but never over a delimiter: a
text that is read to its end, without a comment, is read the same in front of one.
-/
namespace Esdb.SqlTokens

open SqlText

/-- The constructor is what stands before the colon in the source's tokens. -/
inductive Token where
  | sym (op : List Char)
  | kw (word : List Char)
  | id (name : List Char)
  | num (value : List Char)
  | str (value : List Char)
  | blob (value : List Char)
  deriving DecidableEq, Repr

def Token.symbol (c : Char) : Token := .sym [c]

def Token.keyword (word : String) : Token := .kw word.toList

def reservedWords : List String := [
  "ABORT", "ACTION", "ADD", "AFTER", "ALL", "ALTER", "ALWAYS", "ANALYZE", "AND", "AS", "ASC",
  "ATTACH", "AUTOINCREMENT", "BEFORE", "BEGIN", "BETWEEN", "BY", "CASCADE", "CASE", "CAST",
  "CHECK", "COLLATE", "COLUMN", "COMMIT", "CONFLICT", "CONSTRAINT", "CREATE", "CROSS", "CURRENT",
  "CURRENT_DATE", "CURRENT_TIME", "CURRENT_TIMESTAMP", "DATABASE", "DEFAULT", "DEFERRABLE",
  "DEFERRED", "DELETE", "DESC", "DETACH", "DISTINCT", "DO", "DROP", "EACH", "ELSE", "END",
  "ESCAPE", "EXCEPT", "EXCLUDE", "EXCLUSIVE", "EXISTS", "EXPLAIN", "FAIL", "FILTER", "FIRST",
  "FOLLOWING", "FOR", "FOREIGN", "FROM", "FULL", "GENERATED", "GLOB", "GROUP", "GROUPS",
  "HAVING", "IF", "IGNORE", "IMMEDIATE", "IN", "INDEX", "INDEXED", "INITIALLY", "INNER",
  "INSERT", "INSTEAD", "INTERSECT", "INTO", "IS", "ISNULL", "JOIN", "KEY", "LAST", "LEFT",
  "LIKE", "LIMIT", "MATCH", "MATERIALIZED", "NATURAL", "NO", "NOT", "NOTHING", "NOTNULL",
  "NULL", "NULLS", "OF", "OFFSET", "ON", "OR", "ORDER", "OTHERS", "OUTER", "OVER", "PARTITION",
  "PLAN", "PRAGMA", "PRECEDING", "PRIMARY", "QUERY", "RAISE", "RANGE", "RECURSIVE",
  "REFERENCES", "REGEXP", "REINDEX", "RELEASE", "RENAME", "REPLACE", "RESTRICT", "RETURNING",
  "RIGHT", "ROLLBACK", "ROW", "ROWS", "SAVEPOINT", "SELECT", "SET", "TABLE", "TEMP",
  "TEMPORARY", "THEN", "TIES", "TO", "TRANSACTION", "TRIGGER", "UNBOUNDED", "UNION", "UNIQUE",
  "UPDATE", "USING", "VACUUM", "VALUES", "VIEW", "VIRTUAL", "WHEN", "WHERE", "WINDOW", "WITH",
  "WITHOUT"]

def isReservedWord (name : List Char) : Bool :=
  reservedWords.any fun word => word.toList = toUpperCase name

/-! ## The scanner -/

def isSpace (c : Char) : Bool := " \t\r\n\x0c".toList.contains c

def isSymbolStart (c : Char) : Bool := "(),.;+-*/%~&|<>=!".toList.contains c

def isWordPart (c : Char) : Bool :=
  !isSpace c && !isSymbolStart c && !(['\'', '"', '\x60', '[', ']'].contains c)

def operatorPairs : List (List Char) :=
  ["!=", "==", "<=", ">=", "<>", "||", "<<", ">>", "->"].map String.toList

/-- How much of `s` belongs to the operator that begins with `ch`. -/
def operatorLength (ch : Char) (s : List Char) : ℕ :=
  if ch :: s.take 2 = "->>".toList then 2
  else if operatorPairs.contains (ch :: s.take 1) then 1
  else 0

def isNumericStart (ch : Char) (s : List Char) : Bool :=
  ch.isDigit || ch = '.' && s.head?.any Char.isDigit

def digitsLength (s : List Char) : ℕ := (s.takeWhile Char.isDigit).length

def isHexDigit (c : Char) : Bool := "0123456789abcdefABCDEF".toList.contains c

/-- `[eE][+-]?[0-9]+`, or nothing. -/
def exponentLength : List Char → ℕ
  | e :: s =>
      if e = 'e' ∨ e = 'E' then
        let sign := if s.head? = some '+' ∨ s.head? = some '-' then 1 else 0
        let digits := digitsLength (s.drop sign)
        if digits = 0 then 0 else 1 + sign + digits
      else 0
  | [] => 0

/-- `\.[0-9]*`, or nothing. -/
def fractionLength : List Char → ℕ
  | c :: s => if c = '.' then 1 + digitsLength s else 0
  | [] => 0

/-- `readNumeric`: how much of `s` belongs to the number that begins with `ch`. -/
def numericLength (ch : Char) (s : List Char) : ℕ :=
  let hex := ((s.drop 1).takeWhile isHexDigit).length
  if ch = '0' ∧ (s.head? = some 'x' ∨ s.head? = some 'X') ∧ hex ≠ 0 then 1 + hex
  else
    let whole := digitsLength s
    let fraction := if ch = '.' then 0 else fractionLength (s.drop whole)
    whole + fraction + exponentLength (s.drop (whole + fraction))

def wordToken (value : List Char) : Token :=
  let normalized := asciiLower value
  if isReservedWord normalized || ["null", "true", "false", "current_date", "current_time",
      "current_timestamp"].any (fun word => word.toList = normalized) then .kw normalized
  else .id normalized

def isHexPairs : List Char → Bool
  | [] => true
  | a :: b :: s => isHexDigit a && isHexDigit b && isHexPairs s
  | [_] => false

theorem isHexPairs_hex {s : List Char} (h : isHexPairs s = true) : ∀ c ∈ s, isHexDigit c = true := by
  induction s using isHexPairs.induct with
  | case1 => exact fun c hc => absurd hc List.not_mem_nil
  | case2 a b s ih =>
      rw [isHexPairs, Bool.and_eq_true, Bool.and_eq_true] at h
      exact List.forall_mem_cons.mpr ⟨h.1.1, List.forall_mem_cons.mpr ⟨h.1.2, ih h.2⟩⟩
  | case3 a => cases h

/-- What stands between quotes, as the token that `token` makes of it. -/
def quotedTurn (close : Char) (s : List Char) (error : String)
    (token : List Char → Except String Token) : Except String (ℕ × Option Token) :=
  match readQuoted close s with
  | none => .error error
  | some (value, n) => (token value).map fun t => (n, some t)

def unterminatedQuote : String := "PHY003 unterminated quoted SQL token"

/-- One turn of the scanner's loop: how much of `s` it takes, and its token. -/
def turn (ch : Char) (s : List Char) : Except String (ℕ × Option Token) :=
  if isSpace ch then .ok (0, none)
  else if ch = '-' ∧ s.head? = some '-' then
    .ok (1 + (s.tail.takeWhile (· ≠ '\n')).length, none)
  else if ch = '/' ∧ s.head? = some '*' then
    match skipBlock s.tail with
    | none => .error "PHY003 unterminated SQL block comment"
    | some n => .ok (1 + n, none)
  else if (ch = 'x' ∨ ch = 'X') ∧ s.head? = some '\'' then
    (quotedTurn '\'' s.tail unterminatedQuote fun value =>
      if isHexPairs value then .ok (.blob (value.map Char.toUpper))
      else .error "PHY003 invalid SQLite blob literal").map fun p => (1 + p.1, p.2)
  else if ch = '\'' then quotedTurn ch s unterminatedQuote fun value => .ok (.str value)
  else if ch = '"' ∨ ch = '\x60' then
    quotedTurn ch s unterminatedQuote fun value => .ok (.id (asciiLower value))
  else if ch = '[' then
    quotedTurn ']' s "PHY003 unterminated bracket-quoted identifier" fun value =>
      .ok (.id (asciiLower value))
  else if isNumericStart ch s then
    .ok (numericLength ch s, some (.num (asciiLower (ch :: s.take (numericLength ch s)))))
  else if isSymbolStart ch then
    .ok (operatorLength ch s, some (.sym (ch :: s.take (operatorLength ch s))))
  else
    let word := ch :: s.takeWhile isWordPart
    .ok (word.length - 1, some (wordToken word))

def canonicalSqlTokens (sql : List Char) : Except String (List Token) :=
  (Utf8.scan turn sql).map (List.filterMap id)

/-! ## In front of a delimiter -/

/-- No token goes on with this character. -/
structure Delimiter (b : Char) : Prop where
  word : isWordPart b = false
  digit : b.isDigit = false
  hex : isHexDigit b = false
  quote : b ≠ '\'' ∧ b ≠ '"' ∧ b ≠ '\x60' ∧ b ≠ ']'
  comment : b ≠ '-' ∧ b ≠ '*'
  operator : b ≠ '=' ∧ b ≠ '>' ∧ b ≠ '<' ∧ b ≠ '|'
  number : b ≠ '.' ∧ b ≠ 'e' ∧ b ≠ 'E' ∧ b ≠ 'x' ∧ b ≠ 'X' ∧ b ≠ '+'

theorem delimiter {b : Char} (h : b ∈ [' ', '\n', '(', ')', ',', ';']) : Delimiter b := by
  simp only [List.mem_cons, List.not_mem_nil, or_false] at h
  rcases h with rfl | rfl | rfl | rfl | rfl | rfl <;> constructor <;> decide

/-- No token but one in quotes goes on with this text. -/
def Stop (r : List Char) : Prop :=
  ∀ b t, r = b :: t → Delimiter b ∨ b ∈ ['"', '\x60', '['] ∨
    b = '-' ∧ ∀ d, t.head? = some d → d.isDigit = false

theorem Stop.head {r : List Char} (hr : Stop r) {p : Char → Prop} (hp : ∀ c, Delimiter c → p c)
    (hrest : ∀ c ∈ ['"', '\x60', '[', '-'], p c) : ∀ b, r.head? = some b → p b := by
  intro b hb
  cases r with
  | nil => cases hb
  | cons a t =>
      obtain rfl := Option.some.inj hb
      rcases hr a t rfl with h | h | ⟨rfl, -⟩
      · exact hp a h
      · exact hrest a (List.mem_append_left ['-'] h)
      · exact hrest '-' (by decide)

theorem Stop.head_ne {r : List Char} (hr : Stop r) {c : Char} (hc : ¬Delimiter c)
    (hrest : c ∉ ['"', '\x60', '[', '-']) : r.head? ≠ some c :=
  fun h => hr.head (p := (· ≠ c)) (fun _ hb h => hc (h ▸ hb))
    (fun _ hb h => hrest (h ▸ hb)) c h rfl

theorem head?_append {r : List Char} {c : Char} (h : r.head? ≠ some c) (s : List Char) :
    (s ++ r).head? = some c ↔ s.head? = some c := by
  cases s with
  | nil => exact ⟨fun hr => absurd hr h, fun hs => by cases hs⟩
  | cons d s => exact Iff.rfl

theorem digitsLength_le (s : List Char) : digitsLength s ≤ s.length := length_takeWhile_le _ s

theorem fractionLength_le (s : List Char) : fractionLength s ≤ s.length := by
  cases s with
  | nil => exact le_refl _
  | cons c s =>
      have hdigits := digitsLength_le s
      rw [fractionLength, List.length_cons]
      split_ifs <;> omega

/-- The sign of an exponent is one character, if there is one. -/
theorem sign_le (s : List Char) :
    (if s.head? = some '+' ∨ s.head? = some '-' then 1 else 0) ≤ s.length := by
  cases s with
  | nil => simp
  | cons d s => split_ifs <;> simp

theorem exponentLength_le (s : List Char) : exponentLength s ≤ s.length := by
  cases s with
  | nil => exact le_refl _
  | cons c s =>
      have hsign := sign_le s
      have hdigits := digitsLength_le
        (s.drop (if s.head? = some '+' ∨ s.head? = some '-' then 1 else 0))
      rw [List.length_drop] at hdigits
      simp only [exponentLength, List.length_cons]
      generalize (if s.head? = some '+' ∨ s.head? = some '-' then 1 else 0) = sign at *
      split_ifs <;> omega

variable {r : List Char} (hr : Stop r) (s : List Char)
include hr

theorem takeWhile_stop {p : Char → Bool} (hp : ∀ b, Delimiter b → p b = false)
    (hrest : ∀ c ∈ ['"', '\x60', '[', '-'], p c = false) :
    (s ++ r).takeWhile p = s.takeWhile p :=
  takeWhile_append (hr.head hp hrest) s

theorem digitsLength_append : digitsLength (s ++ r) = digitsLength s := by
  rw [digitsLength, takeWhile_stop hr s (fun b hb => hb.digit) (forall_of_all (by decide))]
  rfl

theorem fractionLength_append : fractionLength (s ++ r) = fractionLength s := by
  cases s with
  | nil =>
      cases r with
      | nil => rfl
      | cons b r =>
          refine if_neg (hr.head (p := (· ≠ '.')) ?_ (forall_of_all (by decide)) b rfl)
          exact fun b hb => hb.number.1
  | cons c s =>
      rw [List.cons_append, fractionLength, digitsLength_append hr]
      rfl

/-- An exponent that has its sign behind the letter has its digits there too. -/
theorem exponentLength_stop (c : Char) : exponentLength (c :: r) = 0 := by
  rw [exponentLength]
  by_cases hc : c = 'e' ∨ c = 'E'
  · have hdigits : digitsLength
        (r.drop (if r.head? = some '+' ∨ r.head? = some '-' then 1 else 0)) = 0 := by
      cases r with
      | nil => rfl
      | cons b t =>
          have hplus : b ≠ '+' :=
            hr.head (p := (· ≠ '+')) (fun b hb => hb.number.2.2.2.2.2) (forall_of_all (by decide)) b rfl
          have hfirst := takeWhile_stop hr [] (fun b hb => hb.digit) (forall_of_all (by decide))
          by_cases hminus : b = '-'
          · subst hminus
            rcases hr _ _ rfl with hb | hb | ⟨-, ht⟩
            · exact absurd rfl hb.comment.1
            · exact absurd hb (by decide)
            · exact congrArg List.length (takeWhile_append ht [])
          · simp only [List.head?_cons, Option.some.injEq, hplus, hminus, or_self, if_false]
            exact congrArg List.length hfirst
    simp only [if_pos hc, hdigits, if_true]
  · exact if_neg hc

theorem exponentLength_append : exponentLength (s ++ r) = exponentLength s := by
  cases s with
  | nil =>
      cases r with
      | nil => rfl
      | cons b r =>
          refine if_neg (not_or.mpr ⟨?_, ?_⟩)
          · exact hr.head (p := (· ≠ 'e')) (fun b hb => hb.number.2.1) (forall_of_all (by decide)) b rfl
          · exact hr.head (p := (· ≠ 'E')) (fun b hb => hb.number.2.2.1) (forall_of_all (by decide)) b rfl
  | cons c s =>
      cases s with
      | nil =>
          have hempty : exponentLength [c] = 0 := exponentLength_stop (fun _ _ h => by cases h) c
          rw [List.singleton_append, exponentLength_stop hr, hempty]
      | cons d s =>
          have hhead (b : Char) : (d :: s ++ r).head? = some b ↔ (d :: s).head? = some b := Iff.rfl
          generalize d :: s = t at *
          simp only [List.cons_append, exponentLength, hhead,
            List.drop_append_of_le_length (sign_le t), digitsLength_append hr]

theorem decimalLength_append (ch : Char) :
    let whole := digitsLength s
    let fraction := if ch = '.' then 0 else fractionLength (s.drop whole)
    let all := s ++ r
    whole + fraction + exponentLength (s.drop (whole + fraction)) ≤ s.length ∧
      digitsLength all = whole ∧ (if ch = '.' then 0 else fractionLength (all.drop whole)) =
        fraction ∧
      exponentLength (all.drop (whole + fraction)) =
        exponentLength (s.drop (whole + fraction)) := by
  intro whole fraction all
  have hwhole : whole ≤ s.length := digitsLength_le s
  have hfraction : whole + fraction ≤ s.length := by
    have hle := fractionLength_le (s.drop whole)
    rw [List.length_drop] at hle
    dsimp only [fraction]
    split_ifs <;> omega
  have hexponent := exponentLength_le (s.drop (whole + fraction))
  rw [List.length_drop] at hexponent
  refine ⟨by omega, digitsLength_append hr s, ?_, ?_⟩
  · rw [List.drop_append_of_le_length hwhole, fractionLength_append hr]
  · rw [List.drop_append_of_le_length hfraction, exponentLength_append hr]

theorem numericLength_append (ch : Char) :
    numericLength ch s ≤ s.length ∧ numericLength ch (s ++ r) = numericLength ch s := by
  have hx : r.head? ≠ some 'x' := hr.head_ne (fun h => h.number.2.2.2.1 rfl) (by decide)
  have hX : r.head? ≠ some 'X' := hr.head_ne (fun h => h.number.2.2.2.2.1 rfl) (by decide)
  obtain ⟨hle, hwhole, hfraction, hexponent⟩ := decimalLength_append hr s ch
  simp only [numericLength, head?_append hx, head?_append hX, hwhole, hfraction, hexponent]
  cases s with
  | nil => simpa using hle
  | cons c s =>
      have hhex : ((c :: s ++ r).drop 1).takeWhile isHexDigit =
          ((c :: s).drop 1).takeWhile isHexDigit :=
        takeWhile_stop hr s (fun b hb => hb.hex) (forall_of_all (by decide))
      have hlength := length_takeWhile_le isHexDigit s
      rw [hhex]
      refine ⟨?_, rfl⟩
      by_cases hcond : ch = '0' ∧ ((c :: s).head? = some 'x' ∨ (c :: s).head? = some 'X') ∧
          (((c :: s).drop 1).takeWhile isHexDigit).length ≠ 0
      · rw [if_pos hcond, List.drop_succ_cons, List.drop_zero, List.length_cons]
        omega
      · rw [if_neg hcond]
        exact hle

theorem operatorLength_append (ch : Char) :
    operatorLength ch s ≤ s.length ∧ operatorLength ch (s ++ r) = operatorLength ch s := by
  have hsecond (c : Char) (hc : ¬Delimiter c) (hrest : c ∉ ['"', '\x60', '[', '-']) (b : Char)
      (t : List Char) (hbt : r = b :: t) : b ≠ c := by
    rintro rfl
    exact hr.head_ne hc hrest (hbt ▸ rfl)
  have hempty : operatorLength ch [] = 0 := by
    simp [operatorLength, operatorPairs]
  cases r with
  | nil =>
      rw [List.append_nil]
      refine ⟨?_, rfl⟩
      cases s with
      | nil => exact Nat.le_of_eq hempty
      | cons c s =>
          cases s with
          | nil =>
              have hshort : ch :: [c].take 2 ≠ "->>".toList := by simp
              rw [operatorLength, if_neg hshort]
              split_ifs <;> simp
          | cons d s =>
              simp only [operatorLength, List.length_cons]
              split_ifs <;> omega
  | cons b r =>
      have hgt : b ≠ '>' := hsecond _ (fun h => h.operator.2.1 rfl) (by decide) b r rfl
      have heq : b ≠ '=' := hsecond _ (fun h => h.operator.1 rfl) (by decide) b r rfl
      have hlt : b ≠ '<' := hsecond _ (fun h => h.operator.2.2.1 rfl) (by decide) b r rfl
      have hbar : b ≠ '|' := hsecond _ (fun h => h.operator.2.2.2 rfl) (by decide) b r rfl
      cases s with
      | nil =>
          have hthree : ch :: (b :: r).take 2 ≠ "->>".toList := by
            intro h
            exact hgt (List.cons.inj (List.cons.inj h).2).1
          have hpair : operatorPairs.contains (ch :: (b :: r).take 1) = false := by
            simp [operatorPairs, heq, hgt, hbar, hlt]
          have hnone : operatorLength ch (b :: r) = 0 := by
            rw [operatorLength, if_neg hthree, hpair]
            rfl
          rw [List.nil_append, hnone]
          exact ⟨Nat.le_of_eq hempty, hempty.symm⟩
      | cons c s =>
          cases s with
          | nil =>
              have hthree : ch :: (c :: b :: r).take 2 ≠ "->>".toList := by
                intro h
                exact hgt (List.cons.inj (List.cons.inj (List.cons.inj h).2).2).1
              have hshort : ch :: [c].take 2 ≠ "->>".toList := by simp
              simp only [operatorLength, List.singleton_append, if_neg hthree, if_neg hshort]
              refine ⟨?_, rfl⟩
              split_ifs <;> simp
          | cons d s =>
              refine ⟨?_, rfl⟩
              simp only [operatorLength, List.length_cons]
              split_ifs <;> omega

omit hr in
theorem quotedTurn_append {r : List Char} {close : Char}
    {error : String} {token : List Char → Except String Token} {s : List Char}
    {p : ℕ × Option Token} (h : quotedTurn close s error token = .ok p)
    (hclose : p.1 = s.length → r.head? = some close → close = ']') :
    p.1 ≤ s.length ∧ quotedTurn close (s ++ r) error token = .ok p := by
  unfold quotedTurn at h ⊢
  cases hread : readQuoted close s with
  | none =>
      rw [hread] at h
      cases h
  | some q =>
      rw [hread] at h
      cases htoken : token q.1 with
      | error e => simp [htoken, Except.map] at h
      | ok t =>
          simp only [htoken, Except.map, Except.ok.injEq] at h
          obtain rfl := h
          obtain ⟨hle, happend⟩ := readQuoted_append hread hclose
          rw [happend]
          refine ⟨hle, ?_⟩
          simp only [htoken, Except.map]

/-- A turn that begins no comment does not see what stands behind it, if that goes on with no
token. -/
theorem turn_append {ch : Char} {s : List Char} {p : ℕ × Option Token}
    (hdash : ¬(ch = '-' ∧ (s ++ r).head? = some '-')) (hslash : ¬(ch = '/' ∧ s.head? = some '*'))
    (hnames : p.1 = s.length → ch = '"' ∨ ch = '\x60' → r.head? ≠ some ch)
    (h : turn ch s = .ok p) : p.1 ≤ s.length ∧ turn ch (s ++ r) = .ok p := by
  have hquote : r.head? ≠ some '\'' := hr.head_ne (fun h => h.quote.1 rfl) (by decide)
  have hstar : r.head? ≠ some '*' := hr.head_ne (fun h => h.comment.2 rfl) (by decide)
  obtain ⟨hnumber, hnumeric⟩ := numericLength_append hr s ch
  obtain ⟨hoperator, hsymbol⟩ := operatorLength_append hr s ch
  have hword : (s ++ r).takeWhile isWordPart = s.takeWhile isWordPart :=
    takeWhile_stop hr s (fun b hb => hb.word) (forall_of_all (by decide))
  have hstart : isNumericStart ch (s ++ r) = isNumericStart ch s := by
    cases s with
    | nil =>
        cases r with
        | nil => rfl
        | cons b r =>
            have hb : b.isDigit = false :=
              hr.head (p := (·.isDigit = false)) (fun b hb => hb.digit) (forall_of_all (by decide)) b rfl
            simp [isNumericStart, hb]
    | cons c s => rfl
  have hdash' : ¬(ch = '-' ∧ s.head? = some '-') := by
    rintro ⟨hch, hhead⟩
    refine hdash ⟨hch, ?_⟩
    rw [List.head?_append, hhead]
    rfl
  simp only [turn, head?_append hstar, head?_append hquote,
    hstart, hnumeric, hsymbol, if_neg hdash, if_neg hdash', if_neg hslash, hword,
    List.take_append_of_le_length hnumber, List.take_append_of_le_length hoperator] at h ⊢
  split_ifs at h ⊢ with hspace hblob hstring hname hopen hnum hsym
  · obtain rfl := Except.ok.inj h
    exact ⟨Nat.zero_le _, rfl⟩
  · cases s with
    | nil => exact absurd hblob.2 (by simp)
    | cons c s =>
        simp only [List.tail_cons, List.cons_append] at h ⊢
        revert h
        generalize hread : quotedTurn '\'' s unterminatedQuote _ = read
        intro h
        cases read with
        | error e => cases h
        | ok q =>
            obtain ⟨hle, happend⟩ := quotedTurn_append hread fun _ hhead => absurd hhead hquote
            rw [happend]
            obtain rfl := Except.ok.inj h
            have hlength : 1 + q.1 ≤ s.length + 1 := by omega
            exact ⟨hlength, rfl⟩
  · exact quotedTurn_append h fun _ hhead => absurd (hstring ▸ hhead) hquote
  · exact quotedTurn_append h fun hend hhead => absurd hhead (hnames hend hname)
  · exact quotedTurn_append h fun _ _ => rfl
  · obtain rfl := Except.ok.inj h
    exact ⟨hnumber, rfl⟩
  · obtain rfl := Except.ok.inj h
    exact ⟨hoperator, rfl⟩
  · obtain rfl := Except.ok.inj h
    exact ⟨length_takeWhile_le isWordPart s, rfl⟩

omit hr

theorem stop_nil : Stop [] := fun _ _ h => by cases h

theorem turn_le {ch : Char} {s : List Char} {p : ℕ × Option Token} (h : turn ch s = .ok p) :
    p.1 ≤ s.length := by
  by_cases hspace : isSpace ch = true
  · rw [turn, if_pos hspace] at h
    obtain rfl := Except.ok.inj h
    exact Nat.zero_le _
  by_cases hdash : ch = '-' ∧ s.head? = some '-'
  · rw [turn, if_neg hspace, if_pos hdash] at h
    obtain rfl := Except.ok.inj h
    obtain ⟨s, rfl⟩ := List.head?_eq_some_iff.mp hdash.2
    have hle := length_takeWhile_le (· ≠ '\n') s
    rw [List.length_cons, List.tail_cons]
    omega
  by_cases hslash : ch = '/' ∧ s.head? = some '*'
  · rw [turn, if_neg hspace, if_neg hdash, if_pos hslash] at h
    obtain ⟨s, rfl⟩ := List.head?_eq_some_iff.mp hslash.2
    rw [List.tail_cons] at h
    cases hskip : skipBlock s with
    | none =>
        rw [hskip] at h
        cases h
    | some n =>
        rw [hskip] at h
        obtain rfl := Except.ok.inj h
        have hle := skipBlock_le hskip
        rw [List.length_cons]
        omega
  · exact (turn_append stop_nil (by rwa [List.append_nil]) hslash (fun _ _ => nofun) h).1

/-! ## Texts made of pieces -/

theorem tokens_nil : canonicalSqlTokens [] = .ok [] := by
  rw [canonicalSqlTokens, Utf8.scan]
  rfl

section
variable {step : Char → List Char → Except String (ℕ × Option Token)} {ch : Char} {s : List Char}

theorem scanned_cons {n : ℕ} {t : Option Token} (hstep : step ch s = .ok (n, t)) :
    (Utf8.scan step (ch :: s)).map (List.filterMap id) =
      ((Utf8.scan step (s.drop n)).map (List.filterMap id)).map (t.toList ++ ·) := by
  rw [Utf8.scan, hstep]
  cases hscan : Utf8.scan step (s.drop n) with
  | error e => simp only [hscan, Except.map]
  | ok outs =>
      simp only [hscan, Except.map]
      cases t <;> rfl

theorem scanned_error {e : String} (hstep : step ch s = .error e) :
    (Utf8.scan step (ch :: s)).map (List.filterMap id) = .error e := by
  rw [Utf8.scan, hstep]
  rfl

end

theorem tokens_cons {ch : Char} {s : List Char} {n : ℕ} {t : Option Token}
    (hturn : turn ch s = .ok (n, t)) :
    canonicalSqlTokens (ch :: s) = (canonicalSqlTokens (s.drop n)).map (t.toList ++ ·) :=
  scanned_cons hturn

theorem tokens_error {ch : Char} {s : List Char} {e : String} (hturn : turn ch s = .error e) :
    canonicalSqlTokens (ch :: s) = .error e :=
  scanned_error hturn

theorem map_append {ε : Type} (ts us : List Token) (x : Except ε (List Token)) :
    (x.map (us ++ ·)).map (ts ++ ·) = x.map (ts ++ us ++ ·) := by
  cases x <;> simp [Except.map]

theorem tokens_cons_ok {ch : Char} {s : List Char} {ts : List Token}
    (h : canonicalSqlTokens (ch :: s) = .ok ts) : ∃ n t us, turn ch s = .ok (n, t) ∧
      canonicalSqlTokens (s.drop n) = .ok us ∧ ts = t.toList ++ us := by
  rw [canonicalSqlTokens, Utf8.scan] at h
  cases hturn : turn ch s with
  | error e => simp [hturn, Except.map] at h
  | ok p =>
      cases hscan : Utf8.scan turn (s.drop p.1) with
      | error e => simp [hturn, hscan, Except.map] at h
      | ok outs =>
          simp only [hturn, hscan, Except.map, Except.ok.injEq] at h
          refine ⟨p.1, p.2, outs.filterMap id, rfl, by rw [canonicalSqlTokens, hscan]; rfl, ?_⟩
          rw [← h]
          cases p.2 <;> rfl

/-- The text adds these tokens in front of any other text. -/
def Closed (s : List Char) (ts : List Token) : Prop :=
  ∀ r, canonicalSqlTokens (s ++ r) = (canonicalSqlTokens r).map (ts ++ ·)

/-- Nothing, or a text that begins with a delimiter. -/
def Delimited (s : List Char) : Prop := ∀ b, s.head? = some b → Delimiter b

theorem delimited {b : Char} (h : b ∈ [' ', '\n', '(', ')', ',', ';']) (s : List Char) :
    Delimited (b :: s) :=
  fun _ hb => Option.some.inj hb ▸ delimiter h

theorem delimited_nil : Delimited [] := fun _ hb => nomatch hb

theorem Delimited.not_name {r : List Char} (hr : Delimited r) {ch : Char}
    (h : ch = '"' ∨ ch = '\x60') : r.head? ≠ some ch := by
  intro hb
  obtain ⟨-, hdouble, hback, -⟩ := (hr ch hb).quote
  rcases h with rfl | rfl
  · exact hdouble rfl
  · exact hback rfl

theorem Delimited.stop {r : List Char} (hr : Delimited r) : Stop r :=
  fun _ _ h => .inl (hr _ (h ▸ rfl))

theorem Delimited.append {s r : List Char} (hs : Delimited s) (hr : Delimited r) :
    Delimited (s ++ r) := by
  cases s with
  | nil => exact hr
  | cons c s => exact fun b hb => hs b hb

/-- The text adds these tokens at the end or in front of a delimiter. -/
def Open (s : List Char) (ts : List Token) : Prop :=
  ∀ r, Delimited r → canonicalSqlTokens (s ++ r) = (canonicalSqlTokens r).map (ts ++ ·)

variable {t : List Char} {ts us : List Token}

theorem Closed.append {s : List Char} (hs : Closed s ts) (ht : Closed t us) :
    Closed (s ++ t) (ts ++ us) := by
  intro r
  rw [List.append_assoc, hs, ht, map_append]

theorem Closed.append_open {s : List Char} (hs : Closed s ts) (ht : Open t us) :
    Open (s ++ t) (ts ++ us) := by
  intro r hr
  rw [List.append_assoc, hs, ht r hr, map_append]

theorem Open.append {s : List Char} (hs : Open s ts) (ht : Open t us) (hd : Delimited t) :
    Open (s ++ t) (ts ++ us) := by
  intro r hr
  rw [List.append_assoc, hs (t ++ r) (hd.append hr), ht r hr, map_append]

theorem Closed.toOpen {s : List Char} (hs : Closed s ts) : Open s ts := fun r _ => hs r

theorem Open.closed {s : List Char} {b : Char} (hs : Open s ts) (hb : Delimiter b)
    (hc : Closed [b] us) : Closed (s ++ [b]) (ts ++ us) := by
  intro r
  have hr : Delimited ([b] ++ r) := fun c hcb => Option.some.inj hcb ▸ hb
  rw [List.append_assoc, hs _ hr, hc r, map_append]

theorem closed_nil : Closed [] [] := by
  intro r
  rw [List.nil_append]
  cases canonicalSqlTokens r <;> rfl

theorem Open.tokens {s : List Char} (hs : Open s ts) : canonicalSqlTokens s = .ok ts := by
  have h := hs [] delimited_nil
  rw [List.append_nil, tokens_nil] at h
  rw [h, Except.map, List.append_nil]

/-- Whatever stands behind the delimiter, the tokens of an open text are the first ones. -/
theorem Open.begins {s : List Char} (hs : Open s ts) {r : List Char} (hr : Delimited r)
    (h : canonicalSqlTokens (s ++ r) = .ok us) : ts <+: us := by
  rw [hs r hr] at h
  cases hrest : canonicalSqlTokens r with
  | error e =>
      rw [hrest] at h
      cases h
  | ok vs =>
      rw [hrest] at h
      exact ⟨vs, Except.ok.inj h⟩

theorem closed_space {c : Char} (h : isSpace c = true) : Closed [c] [] :=
  fun _ => tokens_cons (n := 0) (t := none) (by rw [turn, if_pos h])

theorem closed_symbol {c : Char} (h : c ∈ ['(', ')', ',', ';']) : Closed [c] [.sym [c]] := by
  intro r
  have hturn : turn c r = .ok (0, some (.sym [c])) := by
    simp only [List.mem_cons, List.not_mem_nil, or_false] at h
    have hlength : operatorLength c r = 0 := by
      rcases h with rfl | rfl | rfl | rfl <;> simp [operatorLength, operatorPairs]
    rcases h with rfl | rfl | rfl | rfl <;>
      simp [turn, isSpace, isNumericStart, isSymbolStart, hlength]
  exact tokens_cons (t := some (.sym [c])) hturn

/-- No comment begins in the text. -/
def Commentless (s : List Char) : Prop := ¬['-', '-'] <:+: s ∧ ¬['/', '*'] <:+: s

instance (s : List Char) : Decidable (Commentless s) :=
  inferInstanceAs (Decidable (¬['-', '-'] <:+: s ∧ ¬['/', '*'] <:+: s))

theorem Commentless.suffix {s : List Char} (h : Commentless s) (ht : t <:+ s) : Commentless t :=
  ⟨fun hdash => h.1 (hdash.trans ht.isInfix), fun hslash => h.2 (hslash.trans ht.isInfix)⟩

theorem Commentless.head {c : Char} {s : List Char} (h : Commentless (c :: s)) :
    ¬(c = '-' ∧ s.head? = some '-') ∧ ¬(c = '/' ∧ s.head? = some '*') := by
  cases s with
  | nil => simp
  | cons d s =>
      have hpair (a b : Char) (ha : c = a) (hb : (d :: s).head? = some b) : [a, b] <:+: c :: d :: s := by
        obtain rfl : d = b := Option.some.inj hb
        exact ha ▸ (List.prefix_append [c, d] s).isInfix
      exact ⟨fun hdash => h.1 (hpair _ _ hdash.1 hdash.2),
        fun hslash => h.2 (hpair _ _ hslash.1 hslash.2)⟩

/-- A text without comments that is read to its end is read the same before a delimiter. -/
theorem open_of_tokens {s : List Char} (hs : Commentless s)
    (h : canonicalSqlTokens s = .ok ts) : Open s ts := by
  intro r hr
  have hminus : r.head? ≠ some '-' := fun h => (hr '-' h).comment.1 rfl
  induction hn : s.length using Nat.strong_induction_on generalizing s ts with
  | _ n ih =>
      cases s with
      | nil =>
          rw [tokens_nil] at h
          obtain rfl := Except.ok.inj h
          exact closed_nil r
      | cons c s =>
          obtain ⟨k, t, vs, hturn, hrest, rfl⟩ := tokens_cons_ok h
          obtain ⟨hdash, hslash⟩ := hs.head
          obtain ⟨hle, happend⟩ :=
            turn_append hr.stop (by rwa [head?_append hminus]) hslash (fun _ => hr.not_name) hturn
          have hsuffix : s.drop k <:+ c :: s :=
            (List.drop_suffix k s).trans (List.suffix_cons c s)
          have hlength : (s.drop k).length < n := by
            rw [List.length_drop, ← hn, List.length_cons]
            omega
          have hread := ih _ hlength (hs.suffix hsuffix) hrest rfl
          rw [← List.drop_append_of_le_length hle] at hread
          rw [List.cons_append, tokens_cons happend, hread, map_append]

/-! ## Names, literals and words -/

theorem quotedTurn_escape {quote : Char} (hquote : quote ≠ ']') (s : List Char) {r : List Char}
    (hr : r.head? ≠ some quote) {error : String} {token : List Char → Except String Token}
    {u : Token} (hu : token s = .ok u) :
    quotedTurn quote (escape quote s ++ quote :: r) error token =
      .ok ((escape quote s).length + 1, some u) := by
  rw [quotedTurn, readQuoted_escape hquote s hr]
  simp only [hu, Except.map]

theorem drop_quoted {quote : Char} (s : List Char) {r : List Char} :
    (escape quote s ++ quote :: r).drop ((escape quote s).length + 1) = r := by
  rw [List.append_cons, List.drop_left' (by simp)]

/-- A quoted identifier. -/
theorem Delimited.head_ne {r : List Char} (hr : Delimited r) {c : Char} (hc : ¬Delimiter c) :
    r.head? ≠ some c := fun h => hc (hr c h)

theorem not_delimiter_quote : ¬Delimiter '\'' := fun h => h.quote.1 rfl

theorem not_delimiter_double : ¬Delimiter '"' := fun h => h.quote.2.1 rfl

theorem open_identifier {name : List Char} (h : ∀ c ∈ name, c ≠ '"') :
    Open ('"' :: (name ++ ['"'])) [.id (asciiLower name)] := by
  intro r hr
  have hturn : turn '"' (escape '"' name ++ '"' :: r) =
      .ok ((escape '"' name).length + 1, some (.id (asciiLower name))) :=
    quotedTurn_escape (by decide) name (hr.head_ne not_delimiter_double) rfl
  have hread := tokens_cons hturn
  rw [drop_quoted, escape_eq h] at hread
  rw [List.cons_append, List.append_assoc]
  exact hread

/-- A text literal. -/
theorem open_string (value : List Char) :
    Open ('\'' :: (escape '\'' value ++ ['\''])) [.str value] := by
  intro r hr
  have hturn : turn '\'' (escape '\'' value ++ '\'' :: r) =
      .ok ((escape '\'' value).length + 1, some (.str value)) :=
    quotedTurn_escape (by decide) value (hr.head_ne not_delimiter_quote) rfl
  have hread := tokens_cons hturn
  rw [drop_quoted] at hread
  rw [List.cons_append, List.append_assoc]
  exact hread

/-- A blob literal. -/
theorem open_blob {value : List Char} (h : isHexPairs value = true) (hq : ∀ c ∈ value, c ≠ '\'') :
    Open ('X' :: '\'' :: (value ++ ['\''])) [.blob (value.map Char.toUpper)] := by
  intro r hr
  have hquoted : quotedTurn '\'' (escape '\'' value ++ '\'' :: r) unterminatedQuote
      (fun value => if isHexPairs value then .ok (.blob (value.map Char.toUpper))
        else .error "PHY003 invalid SQLite blob literal") =
      .ok ((escape '\'' value).length + 1, some (.blob (value.map Char.toUpper))) :=
    quotedTurn_escape (by decide) value (hr.head_ne not_delimiter_quote) (if_pos h)
  have hturn : turn 'X' ('\'' :: (escape '\'' value ++ '\'' :: r)) =
      .ok (1 + ((escape '\'' value).length + 1), some (.blob (value.map Char.toUpper))) := by
    simp only [turn, List.tail_cons, hquoted]
    rfl
  have hread := tokens_cons hturn
  rw [Nat.add_comm, List.drop_succ_cons, drop_quoted, escape_eq hq] at hread
  rw [List.cons_append, List.cons_append, List.append_assoc]
  exact hread

theorem digit_ne {d c : Char} (hd : d.isDigit = true) (hc : c.isDigit = false) : d ≠ c := by
  rintro rfl
  rw [hd] at hc
  cases hc

theorem turn_digit {d : Char} (hd : d.isDigit = true) (s : List Char) :
    turn d s = .ok (numericLength d s, some (.num (asciiLower (d :: s.take (numericLength d s))))) := by
  have hspace : isSpace d = false := by
    rw [isSpace, List.contains_eq_mem, decide_eq_false_iff_not]
    intro hmem
    have hnone : " \t\r\n\x0c".toList.all (fun c => !c.isDigit) = true := by decide +kernel
    have hd' := List.all_eq_true.mp hnone d hmem
    rw [hd] at hd'
    cases hd'
  have hdash := digit_ne hd (c := '-') (by decide)
  have hslash := digit_ne hd (c := '/') (by decide)
  have hx := digit_ne hd (c := 'x') (by decide)
  have hX := digit_ne hd (c := 'X') (by decide)
  have hquote := digit_ne hd (c := '\'') (by decide)
  have hdouble := digit_ne hd (c := '"') (by decide)
  have hback := digit_ne hd (c := '\x60') (by decide)
  have hopen := digit_ne hd (c := '[') (by decide)
  simp [turn, hspace, hdash, hslash, hx, hX, hquote, hdouble, hback, hopen, isNumericStart, hd]

/-- A number that is read to its end. -/
theorem open_number {d : Char} {s : List Char} (hd : d.isDigit = true)
    (h : numericLength d s = s.length) : Open (d :: s) [.num (asciiLower (d :: s))] := by
  intro r hr
  have hturn := turn_digit hd (s ++ r)
  rw [(numericLength_append hr.stop s d).2, h, List.take_left] at hturn
  have hread := tokens_cons hturn
  rw [List.drop_left] at hread
  exact hread

theorem open_minus {d : Char} {s : List Char} (hd : d.isDigit = true)
    (h : numericLength d s = s.length) :
    Open ('-' :: d :: s) [.sym ['-'], .num (asciiLower (d :: s))] := by
  intro r hr
  have hdash := digit_ne hd (c := '-') (by decide)
  have hgt := digit_ne hd (c := '>') (by decide)
  have hturn : turn '-' (d :: (s ++ r)) = .ok (0, some (.sym ['-'])) := by
    simp [turn, isSpace, isNumericStart, isSymbolStart, operatorLength, operatorPairs, hdash, hgt]
  have hread := tokens_cons hturn
  rw [List.drop_zero, ← List.cons_append, open_number hd h r hr, map_append] at hread
  exact hread

/-! ## What the tokens of a text have -/

theorem quotedTurn_token {close : Char} {s : List Char} {error : String}
    {token : List Char → Except String Token} {k : ℕ} {t : Option Token}
    (h : quotedTurn close s error token = .ok (k, t)) :
    ∃ value u, token value = .ok u ∧ t = some u := by
  unfold quotedTurn at h
  cases hread : readQuoted close s with
  | none =>
      rw [hread] at h
      cases h
  | some q =>
      cases htoken : token q.1 with
      | error e => simp [hread, htoken, Except.map] at h
      | ok u =>
          simp only [hread, htoken, Except.map, Except.ok.injEq, Prod.mk.injEq] at h
          exact ⟨q.1, u, htoken, h.2.symm⟩

theorem turn_sym {a : Char} {s op : List Char} {k : ℕ} (h : turn a s = .ok (k, some (.sym op))) :
    op = a :: s.take k := by
  unfold turn at h
  split_ifs at h with hspace hdash hslash hblob hstring hname hopen hnum hsym
  · cases h
  · cases h
  · split at h <;> cases h
  · revert h
    generalize hread : quotedTurn '\'' s.tail unterminatedQuote _ = read
    intro h
    cases read with
    | error e => cases h
    | ok q =>
        obtain ⟨value, u, hu, hq⟩ := quotedTurn_token hread
        simp only [Except.map, Except.ok.injEq, Prod.mk.injEq] at h
        rw [hq] at h
        split_ifs at hu
        obtain rfl := Except.ok.inj hu
        cases h.2
  · obtain ⟨value, u, hu, hq⟩ := quotedTurn_token h
    obtain rfl := Except.ok.inj hu
    cases hq
  · obtain ⟨value, u, hu, hq⟩ := quotedTurn_token h
    obtain rfl := Except.ok.inj hu
    cases hq
  · obtain ⟨value, u, hu, hq⟩ := quotedTurn_token h
    obtain rfl := Except.ok.inj hu
    cases hq
  · cases h
  · cases h
    rfl
  · simp only [wordToken, Except.ok.injEq, Prod.mk.injEq, Option.some.injEq] at h
    split_ifs at h
    · cases h.2
    · cases h.2

/-- The symbols of a text are made of its characters. -/
theorem sym_chars {s op : List Char} (h : canonicalSqlTokens s = .ok ts) (hop : .sym op ∈ ts) :
    ∀ c ∈ op, c ∈ s := by
  induction hn : s.length using Nat.strong_induction_on generalizing s ts with
  | _ n ih =>
      cases s with
      | nil =>
          rw [tokens_nil] at h
          obtain rfl := Except.ok.inj h
          exact absurd hop List.not_mem_nil
      | cons a s =>
          obtain ⟨k, t, us, hturn, hrest, rfl⟩ := tokens_cons_ok h
          rcases List.mem_append.mp hop with hop | hop
          · obtain rfl := Option.mem_toList.mp hop
            intro c hc
            rw [turn_sym hturn] at hc
            rcases List.mem_cons.mp hc with rfl | hc
            · exact List.mem_cons_self
            · exact List.mem_cons_of_mem _ (List.mem_of_mem_take hc)
          · intro c hc
            have hlength : (s.drop k).length < n := by
              rw [List.length_drop, ← hn, List.length_cons]
              omega
            exact List.mem_cons_of_mem _ (List.mem_of_mem_drop (ih _ hlength hrest hop rfl c hc))

end Esdb.SqlTokens
