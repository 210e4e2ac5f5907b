import Esdb.SqlText
import Mathlib.Data.List.TakeWhile
import Mathlib.Order.Nat

/-!
# How SQLite reads the statements of savepoints

The tokenizer is written for the characters that these statements have: letters, digits,
`_`, space and the semicolon. A word is a keyword or an identifier, and most keywords stand
for identifiers where the grammar has no use for them.
-/
namespace Esdb.SavepointSql

/-! ## Tokens -/

/-- Token types, by what the rules of `SAVEPOINT`, `RELEASE` and `ROLLBACK` do with them. The
keywords that none of these rules has are `fallback`, where `yyFallback` makes `ID` of them, and
`reserved` where it does not. -/
inductive TokenType where
  | semi | space | id | indexed | joinKw | savepoint | release | rollback | to | transaction | as
  | window | over | filter | fallback | reserved | integer | float | qnumber | illegal
  deriving DecidableEq

/-- `aiClass`. -/
inductive CharClass where
  | x | kywd0 | kywd | digit | space | semi | other
  deriving DecidableEq

def isSpace (c : Char) : Bool := [' ', '\t', '\n', Char.ofNat 12, '\r'].contains c

def charClass (c : Char) : CharClass :=
  if ['x', 'X'].contains c then .x
  else if ['y', 'Y', 'z', 'Z', '_'].contains c then .kywd
  else if c.isAlpha then .kywd0
  else if c.isDigit then .digit
  else if isSpace c then .space
  else if c = ';' then .semi
  else .other

/-- `aiClass[c] <= CC_KYWD`. -/
def keywordChar (c : Char) : Bool := [CharClass.x, .kywd0, .kywd].contains (charClass c)

/-- `IdChar`. -/
def idChar (c : Char) : Bool := c.isAlphanum || c == '_' || c == '$' || 0x80 ≤ c.toNat

def isXdigit (c : Char) : Bool := c.isDigit || ('a' ≤ c && c ≤ 'f') || ('A' ≤ c && c ≤ 'F')

def fallbackWords : List String :=
  ["ABORT", "ACTION", "AFTER", "ALWAYS", "ANALYZE", "ASC", "ATTACH", "BEFORE", "BEGIN", "BY",
    "CASCADE", "CAST", "COLUMN", "CONFLICT", "CURRENT", "CURRENT_DATE", "CURRENT_TIME",
    "CURRENT_TIMESTAMP", "DATABASE", "DEFERRED", "DESC", "DETACH", "DO", "EACH", "END", "EXCLUDE",
    "EXCLUSIVE", "EXPLAIN", "FAIL", "FIRST", "FOLLOWING", "FOR", "GENERATED", "GLOB", "GROUPS",
    "IF", "IGNORE", "IMMEDIATE", "INITIALLY", "INSTEAD", "KEY", "LAST", "LIKE", "MATCH",
    "MATERIALIZED", "NO", "NULLS", "OF", "OFFSET", "OTHERS", "PARTITION", "PLAN", "PRAGMA",
    "PRECEDING", "QUERY", "RAISE", "RANGE", "RECURSIVE", "REGEXP", "REINDEX", "RENAME", "REPLACE",
    "RESTRICT", "ROW", "ROWS", "TEMP", "TEMPORARY", "TIES", "TRIGGER", "UNBOUNDED", "VACUUM",
    "VIEW", "VIRTUAL", "WITH", "WITHOUT"]

def reservedWords : List String :=
  ["ADD", "ALL", "ALTER", "AND", "AUTOINCREMENT", "BETWEEN", "CASE", "CHECK", "COLLATE", "COMMIT",
    "CONSTRAINT", "CREATE", "DEFAULT", "DEFERRABLE", "DELETE", "DISTINCT", "DROP", "ELSE",
    "ESCAPE", "EXCEPT", "EXISTS", "FOREIGN", "FROM", "GROUP", "HAVING", "IN", "INDEX", "INSERT",
    "INTERSECT", "INTO", "IS", "ISNULL", "JOIN", "LIMIT", "NOT", "NOTHING", "NOTNULL", "NULL",
    "ON", "OR", "ORDER", "PRIMARY", "REFERENCES", "RETURNING", "SELECT", "SET", "TABLE", "THEN",
    "UNION", "UNIQUE", "UPDATE", "USING", "VALUES", "WHEN", "WHERE"]

/-- `aKWCode` by the texts of the keywords. -/
def keywords : List (TokenType × List String) :=
  [(.savepoint, ["SAVEPOINT"]), (.release, ["RELEASE"]), (.rollback, ["ROLLBACK"]), (.to, ["TO"]),
    (.transaction, ["TRANSACTION"]), (.as, ["AS"]), (.window, ["WINDOW"]), (.over, ["OVER"]),
    (.filter, ["FILTER"]), (.indexed, ["INDEXED"]),
    (.joinKw, ["CROSS", "FULL", "INNER", "LEFT", "NATURAL", "OUTER", "RIGHT"]),
    (.fallback, fallbackWords), (.reserved, reservedWords)]

def keywordCode (z : List Char) : TokenType :=
  ((keywords.find? fun k => k.2.contains (String.ofList (z.map Char.toUpper))).map (·.1)).getD .id

/-- The digits of a number, with `_` between them. -/
def separated (digit : Char → Bool) (z : List Char) : List Char :=
  z.takeWhile fun c => digit c || c == '_'

/-- A run of digits raises the type of the number. -/
def quoted (type : TokenType) (run : List Char) : TokenType :=
  if run.contains '_' then .qnumber else type

def floated (type : TokenType) : TokenType := if type = .integer then .float else type

def fraction (z : List Char) (token : TokenType × ℕ) : TokenType × ℕ :=
  match z.drop token.2 with
  | '.' :: rest =>
      let run := separated Char.isDigit rest
      (quoted (floated token.1) run, token.2 + 1 + run.length)
  | _ => token

def exponent (z : List Char) (token : TokenType × ℕ) : TokenType × ℕ :=
  match z.drop token.2 with
  | e :: c :: rest =>
      if ['e', 'E'].contains e &&
          (c.isDigit || (['+', '-'].contains c && rest.head?.any Char.isDigit)) then
        let run := separated Char.isDigit rest
        (quoted (floated token.1) run, token.2 + 2 + run.length)
      else token
  | _ => token

def number (z : List Char) : TokenType × ℕ :=
  let token :=
    if z.head? = some '0' ∧ ['x', 'X'].contains (z.getD 1 ' ') ∧ isXdigit (z.getD 2 ' ') then
      let run := separated isXdigit (z.drop 2)
      (quoted .integer run, 2 + run.length)
    else
      let run := separated Char.isDigit z
      exponent z (fraction z (quoted .integer run, run.length))
  let rest := (z.drop token.2).takeWhile idChar
  (if rest = [] then token.1 else .illegal, token.2 + rest.length)

/-- `sqlite3GetToken` on the classes of characters above; no quote follows an `x`. -/
def getToken : List Char → TokenType × ℕ
  | [] => (.illegal, 0)
  | c :: s =>
      let identifier := (.id, 1 + (s.takeWhile idChar).length)
      match charClass c with
      | .space => (.space, 1 + (s.takeWhile isSpace).length)
      | .semi => (.semi, 1)
      | .digit => number (c :: s)
      | .kywd0 =>
          let run := s.takeWhile keywordChar
          if run = [] then identifier
          else if (s.drop run.length).head?.any idChar then identifier
          else (keywordCode (c :: run), 1 + run.length)
      | .x => identifier
      | .kywd => identifier
      | .other => (.illegal, 1)

structure Token where
  type : TokenType
  text : List Char
  deriving DecidableEq

def tokens : List Char → List Token
  | [] => []
  | c :: s =>
      let token := getToken (c :: s)
      let rest := tokens (s.drop (token.2 - 1))
      if token.1 = .space then rest else ⟨token.1, (c :: s).take token.2⟩ :: rest
  termination_by s => s.length
  decreasing_by
    rw [List.length_drop, List.length_cons]
    omega

/-- `sqlite3ParserFallback`. -/
def fallsBack (type : TokenType) : Bool :=
  [TokenType.fallback, .savepoint, .release, .rollback].contains type

/-- `analyzeWindowKeyword`. -/
def windowFollows : List Token → Bool
  | a :: b :: _ =>
      ([TokenType.id, .joinKw, .window, .over].contains a.type || fallsBack a.type) && b.type = .as
  | _ => false

/-- What `sqlite3RunParser` makes of three keywords. `OVER` and `FILTER` are keywords behind a
parenthesis alone. -/
def contextual : List Token → List Token
  | [] => []
  | token :: rest =>
      let type :=
        match token.type with
        | .window => if windowFollows rest then .window else .id
        | .over => .id
        | .filter => .id
        | type => type
      ⟨type, token.text⟩ :: contextual rest

/-! ## Statements -/

inductive Cmd where
  | savepoint (name : List Char)
  | release (name : List Char)
  | rollbackTo (name : List Char)
  | rollback
  deriving DecidableEq

/-- `nm`. -/
def nm : List Token → Option (List Char × List Token)
  | token :: rest =>
      if [TokenType.id, .indexed, .joinKw].contains token.type || fallsBack token.type then
        some (token.text, rest)
      else none
  | [] => none

/-- `savepoint_opt`: the keyword is taken before it could be a name. -/
def savepointOpt : List Token → List Token
  | ⟨.savepoint, _⟩ :: rest => rest
  | rest => rest

/-- `trans_opt`. -/
def transOpt : List Token → List Token
  | ⟨.transaction, _⟩ :: rest =>
      match nm rest with
      | some (_, rest) => rest
      | none => rest
  | rest => rest

/-- The rules of `cmd` that begin with one of the three keywords. -/
def cmd : List Token → Option (Cmd × List Token)
  | ⟨.savepoint, _⟩ :: rest => (nm rest).map fun p => (.savepoint p.1, p.2)
  | ⟨.release, _⟩ :: rest => (nm (savepointOpt rest)).map fun p => (.release p.1, p.2)
  | ⟨.rollback, _⟩ :: rest =>
      match transOpt rest with
      | ⟨.to, _⟩ :: rest => (nm (savepointOpt rest)).map fun p => (.rollbackTo p.1, p.2)
      | rest => some (.rollback, rest)
  | _ => none

/-- `ecmd`, with what is left behind the statement. The end of the text stands for a semicolon. -/
def ecmd (input : List Token) : Option (Cmd × List Token) :=
  match cmd input with
  | some (c, []) => some (c, [])
  | some (c, ⟨.semi, _⟩ :: rest) => some (c, rest)
  | _ => none

theorem length_nm {input rest : List Token} {name : List Char} (h : nm input = some (name, rest)) :
    rest.length < input.length := by
  cases input with
  | nil => cases h
  | cons token tail =>
      rw [nm] at h
      split_ifs at h
      rw [← (Prod.mk.inj (Option.some.inj h)).2, List.length_cons]
      exact Nat.lt_succ_self _

theorem length_savepointOpt (input : List Token) : (savepointOpt input).length ≤ input.length := by
  unfold savepointOpt
  split
  · exact Nat.le_succ _
  · exact le_rfl

theorem length_transOpt (input : List Token) : (transOpt input).length ≤ input.length := by
  unfold transOpt
  split
  · split
    · next h => exact (length_nm h).le.trans (Nat.le_succ _)
    · exact Nat.le_succ _
  · exact le_rfl

theorem length_cmd {input rest : List Token} {c : Cmd} (h : cmd input = some (c, rest)) :
    rest.length < input.length := by
  unfold cmd at h
  split at h
  · next text tail =>
      obtain ⟨p, hp, he⟩ := Option.map_eq_some_iff.mp h
      rw [← (Prod.mk.inj he).2]
      exact (length_nm hp).trans (Nat.lt_succ_self _)
  · next text tail =>
      obtain ⟨p, hp, he⟩ := Option.map_eq_some_iff.mp h
      rw [← (Prod.mk.inj he).2]
      exact ((length_nm hp).trans_le (length_savepointOpt tail)).trans (Nat.lt_succ_self _)
  · next text tail =>
      have htail := length_transOpt tail
      split at h
      · next word after hto =>
          obtain ⟨p, hp, he⟩ := Option.map_eq_some_iff.mp h
          rw [hto, List.length_cons] at htail
          rw [← (Prod.mk.inj he).2]
          have hname := (length_nm hp).trans_le (length_savepointOpt after)
          rw [List.length_cons]
          omega
      · rw [← (Prod.mk.inj (Option.some.inj h)).2]
        exact Nat.lt_succ_of_le htail
  · cases h

theorem length_ecmd {input rest : List Token} {c : Cmd} (h : ecmd input = some (c, rest)) :
    rest.length < input.length := by
  unfold ecmd at h
  split at h
  · next hcmd =>
      rw [← (Prod.mk.inj (Option.some.inj h)).2]
      exact length_cmd hcmd
  · next hcmd =>
      rw [← (Prod.mk.inj (Option.some.inj h)).2]
      exact (Nat.lt_succ_self _).trans (length_cmd hcmd)
  · cases h

/-- The statements of a text, as `sqlite3_exec` prepares them one after the other. -/
def statements (input : List Token) : Option (List Cmd) :=
  if input = [] then some []
  else
    match _h : ecmd input with
    | some (c, rest) => (statements rest).map (c :: ·)
    | none => none
  termination_by input.length
  decreasing_by exact length_ecmd _h

def parse (sql : List Char) : Option (List Cmd) := statements (contextual (tokens sql))

/-! ## Words -/

theorem keywordChar_iff {c : Char} : keywordChar c = true ↔ c.isAlpha = true ∨ c = '_' := by
  unfold keywordChar charClass
  by_cases hx : ['x', 'X'].contains c = true
  · rw [if_pos hx]
    have hc : c = 'x' ∨ c = 'X' := by simpa using hx
    rcases hc with rfl | rfl
    · decide
    · decide
  · rw [if_neg hx]
    by_cases hy : ['y', 'Y', 'z', 'Z', '_'].contains c = true
    · rw [if_pos hy]
      have hc : c = 'y' ∨ c = 'Y' ∨ c = 'z' ∨ c = 'Z' ∨ c = '_' := by simpa using hy
      rcases hc with rfl | rfl | rfl | rfl | rfl
      all_goals decide
    · rw [if_neg hy]
      have hunderscore : c ≠ '_' := by
        rintro rfl
        exact hy (by decide)
      split_ifs with halpha
      all_goals simp [*]

theorem idChar_of_keywordChar {c : Char} (h : keywordChar c = true) : idChar c = true := by
  rcases keywordChar_iff.mp h with halpha | rfl
  · simp [idChar, Char.isAlphanum, halpha]
  · decide

theorem charClass_toUpper (c : Char) : charClass c.toUpper = charClass c := by
  by_cases hlower : 'a'.toNat ≤ c.toNat ∧ c.toNat ≤ 'z'.toNat
  · have hall : ∀ n < 26,
        charClass (Char.ofNat (97 + n)).toUpper = charClass (Char.ofNat (97 + n)) := by
      decide
    have ha : 'a'.toNat = 97 := rfl
    have hz : 'z'.toNat = 122 := rfl
    have hc := hall (c.toNat - 97) (by omega)
    rwa [Nat.add_sub_cancel' (by omega), Char.ofNat_toNat] at hc
  · have hsame : c.toUpper = c := by
      unfold Char.toUpper
      rw [dif_neg]
      exact fun h => hlower ⟨h.1, h.2⟩
    rw [hsame]

/-- The texts of keywords are words that begin with one of their letters. -/
theorem keyword_shape : ∀ k ∈ keywords, ∀ word ∈ k.2, 2 ≤ word.toList.length ∧
    word.toList.head?.map charClass = some .kywd0 ∧ word.toList.all keywordChar = true := by
  decide +kernel

/-- What has not the shape of a keyword is an identifier. -/
theorem keywordCode_ne_id {z : List Char} (h : keywordCode z ≠ .id) : 2 ≤ z.length ∧
    z.head?.map charClass = some .kywd0 ∧ z.all keywordChar = true := by
  cases hfind : keywords.find? fun k => k.2.contains (String.ofList (z.map Char.toUpper)) with
  | none =>
      rw [keywordCode, hfind] at h
      exact absurd rfl h
  | some k =>
      have hmem : String.ofList (z.map Char.toUpper) ∈ k.2 := by
        simpa using List.find?_some hfind
      obtain ⟨hlength, hhead, hall⟩ := keyword_shape k (List.mem_of_find?_eq_some hfind) _ hmem
      rw [String.toList_ofList] at hlength hhead hall
      refine ⟨by simpa using hlength, ?_, ?_⟩
      · cases z with
        | nil => cases hhead
        | cons c s =>
            rw [List.map_cons, List.head?_cons, Option.map_some, charClass_toUpper] at hhead
            exact hhead
      · rw [List.all_map] at hall
        refine Eq.trans (List.all_congr rfl fun c => ?_) hall
        rw [Function.comp_apply, keywordChar, keywordChar, charClass_toUpper]

/-- What no word goes on with. -/
def Ends (rest : List Char) : Prop := ∀ b, rest.head? = some b → idChar b = false

theorem getToken_word {c : Char} {w rest : List Char} (hc : keywordChar c = true)
    (hw : ∀ d ∈ w, idChar d = true) (hrest : Ends rest) :
    getToken (c :: (w ++ rest)) = (keywordCode (c :: w), 1 + w.length) := by
  have hword : (w ++ rest).takeWhile idChar = w := by
    rw [SqlText.takeWhile_append hrest, List.takeWhile_eq_self_iff.mpr hw]
  have hid (h : ¬(2 ≤ (c :: w).length ∧ (c :: w).head?.map charClass = some .kywd0 ∧
      (c :: w).all keywordChar = true)) : keywordCode (c :: w) = .id := by
    by_contra hcode
    exact h (keywordCode_ne_id hcode)
  have hnoKeyword (h : charClass c ≠ .kywd0) : keywordCode (c :: w) = .id :=
    hid fun hshape => h (Option.some.inj hshape.2.1)
  rw [getToken, hword]
  cases hclass : charClass c with
  | x => rw [hnoKeyword (by rw [hclass]; decide)]
  | kywd => rw [hnoKeyword (by rw [hclass]; decide)]
  | kywd0 =>
      dsimp only
      have hkeyword : ∀ b, rest.head? = some b → keywordChar b = false := by
        intro b hb
        by_contra hno
        rw [Bool.not_eq_false] at hno
        exact Bool.false_ne_true ((hrest b hb).symm.trans (idChar_of_keywordChar hno))
      rw [SqlText.takeWhile_append hkeyword]
      by_cases hall : w.all keywordChar = true
      · have hrun : w.takeWhile keywordChar = w :=
          List.takeWhile_eq_self_iff.mpr (List.all_eq_true.mp hall)
        rw [hrun, List.drop_left]
        by_cases hnil : w = []
        · rw [if_pos hnil, hid (by simp [hnil])]
        · rw [if_neg hnil, if_neg]
          rw [Option.any_eq_true_iff_get]
          rintro ⟨hsome, hget⟩
          rw [hrest _ (Option.some_get hsome).symm] at hget
          cases hget
      · -- The run of letters ends inside of the word.
        obtain ⟨u, d, v, rfl, hu, hd⟩ : ∃ u d v, w = u ++ d :: v ∧
            (∀ b ∈ u, keywordChar b = true) ∧ keywordChar d = false := by
          rw [Bool.not_eq_true, List.all_eq_false] at hall
          obtain ⟨e, he, hno⟩ := hall
          have hdrop : w.dropWhile keywordChar ≠ [] := by
            rw [Ne, List.dropWhile_eq_nil_iff]
            exact fun h => hno (h e he)
          obtain ⟨d, v, hdv⟩ := List.exists_cons_of_ne_nil hdrop
          refine ⟨w.takeWhile keywordChar, d, v, ?_, fun b hb => List.mem_takeWhile_imp hb, ?_⟩
          · rw [← hdv, List.takeWhile_append_dropWhile]
          · have hhead := List.head_dropWhile_not keywordChar hdrop
            simpa only [hdv, List.head_cons] using hhead
        have hnotAll : keywordCode (c :: (u ++ d :: v)) = .id := hid (by simp [hd])
        have hrun : (u ++ d :: v).takeWhile keywordChar = u := by
          rw [List.takeWhile_append_of_pos hu, List.takeWhile_cons_of_neg (by simp [hd]),
            List.append_nil]
        have hnext : idChar d = true := hw d (by simp)
        rw [hrun, List.append_assoc, List.drop_left, List.cons_append, List.head?_cons, hnotAll]
        split_ifs
        · rfl
        · rfl
        · simp_all
  | digit => simp [keywordChar, hclass] at hc
  | space => simp [keywordChar, hclass] at hc
  | semi => simp [keywordChar, hclass] at hc
  | other => simp [keywordChar, hclass] at hc

/-! ## The tokens of a text -/

theorem keywordCode_ne_space (z : List Char) : keywordCode z ≠ .space := by
  have htable : ∀ k ∈ keywords, k.1 ≠ .space := by decide
  rw [keywordCode]
  cases hfind : keywords.find? fun k => k.2.contains (String.ofList (z.map Char.toUpper)) with
  | none => decide
  | some k => exact htable k (List.mem_of_find?_eq_some hfind)

theorem tokens_word {c : Char} {w rest : List Char} (hc : keywordChar c = true)
    (hw : ∀ d ∈ w, idChar d = true) (hrest : Ends rest) :
    tokens (c :: (w ++ rest)) = ⟨keywordCode (c :: w), c :: w⟩ :: tokens rest := by
  rw [tokens, getToken_word hc hw hrest]
  dsimp only
  rw [if_neg (keywordCode_ne_space _), Nat.add_sub_cancel_left, List.drop_left, Nat.add_comm,
    List.take_succ_cons, List.take_left]

theorem tokens_space {rest : List Char} (hrest : ∀ b, rest.head? = some b → isSpace b = false) :
    tokens (' ' :: rest) = tokens rest := by
  have hnone : rest.takeWhile isSpace = [] := SqlText.takeWhile_append hrest []
  have hclass : charClass ' ' = .space := by decide
  rw [tokens, getToken, hclass, hnone]
  rfl

theorem tokens_semi (rest : List Char) : tokens (';' :: rest) = ⟨.semi, [';']⟩ :: tokens rest := by
  have hclass : charClass ';' = .semi := by decide
  rw [tokens, getToken, hclass]
  rfl

/-- What no rule has. -/
def numeric (type : TokenType) : Bool :=
  [TokenType.integer, .float, .qnumber, .illegal].contains type

theorem numeric_quoted {type : TokenType} (h : numeric type = true) (run : List Char) :
    numeric (quoted type run) = true := by
  unfold quoted
  split_ifs
  · decide
  · exact h

theorem numeric_floated {type : TokenType} (h : numeric type = true) :
    numeric (floated type) = true := by
  unfold floated
  split_ifs
  · decide
  · exact h

theorem numeric_fraction {z : List Char} {token : TokenType × ℕ} (h : numeric token.1 = true) :
    numeric (fraction z token).1 = true := by
  unfold fraction
  split
  · exact numeric_quoted (numeric_floated h) _
  · exact h

theorem numeric_exponent {z : List Char} {token : TokenType × ℕ} (h : numeric token.1 = true) :
    numeric (exponent z token).1 = true := by
  unfold exponent
  split
  · split_ifs
    · exact numeric_quoted (numeric_floated h) _
    · exact h
  · exact h

theorem numeric_number (z : List Char) : numeric (number z).1 = true := by
  have hinteger : numeric .integer = true := by decide
  unfold number
  dsimp only
  split_ifs
  · exact numeric_quoted hinteger _
  · decide
  · exact numeric_exponent (numeric_fraction (numeric_quoted hinteger _))
  · decide

theorem charClass_digit {c : Char} (h : c.isDigit = true) : charClass c = .digit := by
  have hdigits : c ∈ ['0', '1', '2', '3', '4', '5', '6', '7', '8', '9'] := by
    have hall : ∀ n < 10,
        Char.ofNat (48 + n) ∈ ['0', '1', '2', '3', '4', '5', '6', '7', '8', '9'] := by
      decide
    rw [Char.isDigit, Bool.and_eq_true, decide_eq_true_iff, decide_eq_true_iff] at h
    have hlow : 48 ≤ c.toNat := h.1
    have hhigh : c.toNat ≤ 57 := h.2
    have hc := hall (c.toNat - 48) (by omega)
    rwa [Nat.add_sub_cancel' hlow, Char.ofNat_toNat] at hc
  simp only [List.mem_cons, List.not_mem_nil, or_false] at hdigits
  rcases hdigits with rfl | rfl | rfl | rfl | rfl | rfl | rfl | rfl | rfl | rfl
  all_goals decide

/-- A text that begins with a digit begins with a token that is no name. -/
theorem tokens_digit {c : Char} (h : c.isDigit = true) (s : List Char) :
    ∃ token rest, tokens (c :: s) = token :: rest ∧ numeric token.type = true := by
  have hnumeric := numeric_number (c :: s)
  rw [tokens, getToken, charClass_digit h]
  dsimp only
  rw [if_neg]
  · exact ⟨_, _, rfl, hnumeric⟩
  · intro hspace
    rw [hspace] at hnumeric
    exact absurd hnumeric (by decide)

/-! ## The statements of a text -/

/-- The types that `nm` takes. -/
def named (type : TokenType) : Bool :=
  [TokenType.id, .indexed, .joinKw].contains type || fallsBack type

/-- The type of a word that stands in front of a semicolon. -/
def resolved : TokenType → TokenType
  | .window => .id
  | .over => .id
  | .filter => .id
  | type => type

theorem contextual_semi (text semi : List Char) (type : TokenType) (rest : List Token) :
    contextual (⟨type, text⟩ :: ⟨.semi, semi⟩ :: rest) =
      ⟨resolved type, text⟩ :: ⟨.semi, semi⟩ :: contextual rest := by
  have hfollows : windowFollows (⟨.semi, semi⟩ :: rest) = false := by
    cases rest <;> rfl
  rw [contextual, contextual, hfollows]
  cases type <;> rfl

/-- All types but three are the same in every context. -/
theorem contextual_cons {type : TokenType} (h : resolved type = type) (hwindow : type ≠ .window)
    (text : List Char) (rest : List Token) :
    contextual (⟨type, text⟩ :: rest) = ⟨type, text⟩ :: contextual rest := by
  cases type
  all_goals first
    | rfl
    | exact absurd rfl hwindow
    | cases h

theorem resolved_numeric {type : TokenType} (h : numeric type = true) :
    resolved type = type ∧ type ≠ .window := by
  cases type
  case integer | float | qnumber | illegal => exact ⟨rfl, by decide⟩
  all_goals cases h

theorem ecmd_savepoint (keyword name semi : List Char) (type : TokenType) (rest : List Token) :
    ecmd (⟨.savepoint, keyword⟩ :: ⟨type, name⟩ :: ⟨.semi, semi⟩ :: rest) =
      if named type = true then some (.savepoint name, rest) else none := by
  cases type <;> rfl

theorem ecmd_release (keyword name semi : List Char) (type : TokenType) (rest : List Token) :
    ecmd (⟨.release, keyword⟩ :: ⟨type, name⟩ :: ⟨.semi, semi⟩ :: rest) =
      if named type = true ∧ type ≠ .savepoint then some (.release name, rest) else none := by
  cases type <;> rfl

theorem ecmd_rollbackTo (keyword preposition name semi : List Char) (type : TokenType)
    (rest : List Token) :
    ecmd (⟨.rollback, keyword⟩ :: ⟨.to, preposition⟩ :: ⟨type, name⟩ :: ⟨.semi, semi⟩ :: rest) =
      if named type = true ∧ type ≠ .savepoint then some (.rollbackTo name, rest) else none := by
  cases type <;> rfl

/-- No statement has a number for its name. -/
theorem ecmd_numeric {type : TokenType} (h : numeric type = true)
    (keyword preposition text : List Char) (rest : List Token) :
    ecmd (⟨.savepoint, keyword⟩ :: ⟨type, text⟩ :: rest) = none ∧
      ecmd (⟨.release, keyword⟩ :: ⟨type, text⟩ :: rest) = none ∧
        ecmd (⟨.rollback, keyword⟩ :: ⟨.to, preposition⟩ :: ⟨type, text⟩ :: rest) = none := by
  cases type
  case integer | float | qnumber | illegal => exact ⟨rfl, rfl, rfl⟩
  all_goals cases h

theorem statements_nil : statements [] = some [] := by
  rw [statements, if_pos rfl]

theorem statements_some {input rest : List Token} {c : Cmd} (h : ecmd input = some (c, rest)) :
    statements input = (statements rest).map (c :: ·) := by
  have hne : input ≠ [] := by
    rintro rfl
    cases h
  rw [statements, if_neg hne]
  split
  · next hsome =>
      obtain ⟨rfl, rfl⟩ := Prod.mk.inj (Option.some.inj (hsome.symm.trans h))
      rfl
  · next hnone =>
      rw [hnone] at h
      cases h

theorem statements_none {input : List Token} (hne : input ≠ []) (h : ecmd input = none) :
    statements input = none := by
  rw [statements, if_neg hne]
  split
  · next hsome =>
      rw [hsome] at h
      cases h
  · rfl

end Esdb.SavepointSql
