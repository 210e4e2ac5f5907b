import Mathlib.Data.List.TakeWhile
import Esdb.PhysicalChecks
import Esdb.SchemaDeclared

/-!
# The DDL as tokens

The tokens of an emitted statement, piece by piece, and a reader of statements that splits
at the commas outside of parentheses. It gives back the items of a list in which each item
closes what it opens, and whatever it gives back does.
-/
namespace Esdb.Schema

open SqlText SqlTokens PhysicalSchema

/-! ## Fixed texts -/

theorem toOption_eq_some {α ε : Type*} {x : Except ε α} {a : α} :
    x.toOption = some a ↔ x = .ok a := by
  cases x <;> simp [Except.toOption]

/-- The tokens of a fragment, if it is read to its end. -/
def fragmentTokens (sql : String) : Option (List Token) :=
  (canonicalSqlTokens sql.toList).toOption

/-- The tokens of a text that ends with a space or a symbol. -/
def pieceTokens (text : String) : Option (List Token) :=
  match text.toList.getLast? with
  | none => none
  | some c =>
      let before := text.toList.dropLast
      if ¬Commentless before then none
      else if c = ' ' ∨ c = '\n' then (canonicalSqlTokens before).toOption
      else if c ∈ ['(', ')', ',', ';'] then
        (canonicalSqlTokens before).toOption.map fun ts => ts ++ [.sym [c]]
      else none

theorem closed_text {text : String} {ts : List Token} (h : pieceTokens text = some ts) :
    Closed text.toList ts := by
  unfold pieceTokens at h
  cases hlast : text.toList.getLast? with
  | none =>
      rw [hlast] at h
      cases h
  | some c =>
      rw [hlast] at h
      dsimp only at h
      rw [← List.dropLast_append_getLast? c hlast]
      split_ifs at h with hcomment hspace hsymbol
      · have hopen := open_of_tokens hcomment (toOption_eq_some.mp h)
        have hdelimiter : Delimiter c := by
          rcases hspace with rfl | rfl
          · exact delimiter (by decide)
          · exact delimiter (by decide)
        have hclosed : Closed [c] [] := by
          rcases hspace with rfl | rfl
          · exact closed_space (by decide)
          · exact closed_space (by decide)
        have := hopen.closed hdelimiter hclosed
        rwa [List.append_nil] at this
      · obtain ⟨us, hus, rfl⟩ := Option.map_eq_some_iff.mp h
        have hopen := open_of_tokens hcomment (toOption_eq_some.mp hus)
        have hdelimiter : Delimiter c := by
          refine delimiter ?_
          simp only [List.mem_cons, List.not_mem_nil, or_false] at hsymbol ⊢
          tauto
        exact hopen.closed hdelimiter (closed_symbol hsymbol)

def keywords (words : List String) : List Token := words.map Token.keyword

/-- What the emitter writes between spaces. -/
def wordTexts : List (String × List Token) := [
  ("NULL", keywords ["null"]),
  (" INTEGER", [.id "integer".toList]),
  (" TEXT", [.id "text".toList]),
  (" REAL", [.id "real".toList]),
  (" BLOB", [.id "blob".toList]),
  (" NOT NULL", keywords ["not", "null"]),
  (" PRIMARY KEY AUTOINCREMENT", keywords ["primary", "key", "autoincrement"]),
  ("NO ACTION", keywords ["no", "action"]),
  ("RESTRICT", keywords ["restrict"]),
  ("CASCADE", keywords ["cascade"]),
  ("SET NULL", keywords ["set", "null"]),
  ("SET DEFAULT", keywords ["set", "default"]),
  (" ASC", keywords ["asc"]),
  (" DESC", keywords ["desc"])]

/-- What it writes up to a space or a symbol. -/
def pieceTexts : List (String × List Token) := [
  ("CREATE TABLE ", keywords ["create", "table"]),
  (" (\n", [opening]),
  ("  ", []),
  (" DEFAULT ", keywords ["default"]),
  ("  PRIMARY KEY (", keywords ["primary", "key"] ++ [opening]),
  ("  UNIQUE (", keywords ["unique"] ++ [opening]),
  ("  CONSTRAINT ", keywords ["constraint"]),
  (" FOREIGN KEY (", keywords ["foreign", "key"] ++ [opening]),
  (" REFERENCES ", keywords ["references"]),
  (" ON UPDATE ", keywords ["on", "update"]),
  (" ON DELETE ", keywords ["on", "delete"]),
  (" CHECK (", keywords ["check"] ++ [opening]),
  ("\n);", [closing, semicolon]),
  ("CREATE ", keywords ["create"]),
  ("UNIQUE ", keywords ["unique"]),
  ("INDEX ", keywords ["index"]),
  (" ON ", keywords ["on"]),
  (" (", [opening]),
  (")", [closing]),
  (" WHERE ", keywords ["where"]),
  (";", [semicolon]),
  (",\n", [comma]),
  (", ", [comma]),
  (",", [comma])]

theorem wordTexts_tokens : wordTexts.all (fun p =>
    fragmentTokens p.1 = some p.2 ∧ Commentless p.1.toList) = true := by decide +kernel

theorem pieceTexts_tokens : pieceTexts.all (fun p => pieceTokens p.1 = some p.2) = true := by
  decide +kernel

theorem open_word {text : String} {ts : List Token} (h : (text, ts) ∈ wordTexts) :
    Open text.toList ts := by
  have hword := of_decide_eq_true (List.all_eq_true.mp wordTexts_tokens _ h)
  exact open_of_tokens hword.2 (toOption_eq_some.mp hword.1)

theorem closed_piece {text : String} {ts : List Token} (h : (text, ts) ∈ pieceTexts) :
    Closed text.toList ts :=
  closed_text (of_decide_eq_true (List.all_eq_true.mp pieceTexts_tokens _ h))

/-! ## Literals -/

theorem drop_digits (s : List Char) : s.drop (digitsLength s) = s.dropWhile Char.isDigit := by
  induction s with
  | nil => rfl
  | cons c s ih =>
      rw [digitsLength, List.takeWhile_cons, List.dropWhile_cons]
      cases c.isDigit with
      | false => rfl
      | true => exact ih

theorem digitsLength_all {s : List Char} (h : s.all Char.isDigit = true) :
    digitsLength s = s.length := by
  rw [digitsLength, List.takeWhile_eq_self_iff.mpr (List.all_eq_true.mp h)]

theorem isDigits_pos {s : List Char} (h : isDigits s = true) :
    digitsLength s = s.length ∧ s.length ≠ 0 := by
  obtain ⟨hempty, hall⟩ := Bool.and_eq_true_iff.mp h
  refine ⟨digitsLength_all hall, fun hlength => ?_⟩
  rw [List.length_eq_zero_iff.mp hlength] at hempty
  cases hempty

theorem exponentLength_all {s : List Char} (h : isExponent s = true) :
    exponentLength s = s.length := by
  cases s with
  | nil => rfl
  | cons e s =>
      unfold isExponent at h
      obtain ⟨he, hdigits⟩ := Bool.and_eq_true_iff.mp h
      have he : e = 'e' ∨ e = 'E' := by simpa using he
      have hsigned (c : Char) (t : List Char) (hc : c = '+' ∨ c = '-') (ht : isDigits t = true) :
          exponentLength (e :: c :: t) = (e :: c :: t).length := by
        obtain ⟨hall, hne⟩ := isDigits_pos ht
        have hsign : (c :: t).head? = some '+' ∨ (c :: t).head? = some '-' := by simpa using hc
        simp only [exponentLength, if_pos he, if_pos hsign, List.drop_succ_cons, List.drop_zero,
          hall, if_neg hne, List.length_cons]
        omega
      split at hdigits
      · exact hsigned _ _ (.inl rfl) hdigits
      · exact hsigned _ _ (.inr rfl) hdigits
      · rename_i hplus hminus
        obtain ⟨hall, hne⟩ := isDigits_pos hdigits
        have hsign : ¬(s.head? = some '+' ∨ s.head? = some '-') := by
          cases s with
          | nil => simp
          | cons c t =>
              rintro (hc | hc)
              · exact hplus t (by rw [Option.some.inj hc])
              · exact hminus t (by rw [Option.some.inj hc])
        simp only [exponentLength, if_pos he, if_neg hsign, List.drop_zero, hall, if_neg hne,
          List.length_cons]
        omega

theorem fraction_all {s : List Char} (h : isFraction s = true) :
    fractionLength s + exponentLength (s.drop (fractionLength s)) = s.length := by
  unfold isFraction at h
  split at h
  · rename_i t
    obtain ⟨-, hexponent⟩ := Bool.and_eq_true_iff.mp h
    have hle := digitsLength_le t
    rw [fractionLength, if_pos rfl, Nat.add_comm 1, List.drop_succ_cons, drop_digits,
      exponentLength_all hexponent, ← drop_digits, List.length_drop, List.length_cons]
    omega
  · rename_i hdot
    have hzero : fractionLength s = 0 := by
      cases s with
      | nil => rfl
      | cons c t => exact if_neg fun hc => hdot t (by rw [hc])
    rw [hzero, List.drop_zero, exponentLength_all h, Nat.zero_add]

/-- A number of the IR's grammar, without its sign, is one token. -/
theorem number_all {s : List Char} (hwhole : isCanonicalInteger (s.takeWhile Char.isDigit) = true)
    (hrest : isFraction (s.dropWhile Char.isDigit) = true) :
    ∃ d t, s = d :: t ∧ d.isDigit = true ∧ numericLength d t = t.length := by
  cases s with
  | nil => exact nomatch hwhole
  | cons d t =>
      cases hd : d.isDigit with
      | false =>
          rw [List.takeWhile_cons, hd] at hwhole
          exact nomatch hwhole
      | true =>
          rw [List.dropWhile_cons, if_pos hd] at hrest
          have hdot : d ≠ '.' := digit_ne hd (by decide)
          have hall := fraction_all hrest
          have hle := digitsLength_le t
          have hhex : ¬(t.head? = some 'x' ∨ t.head? = some 'X') := by
            cases t with
            | nil => simp
            | cons c t =>
                rintro (hc | hc)
                · rw [Option.some.inj hc] at hrest
                  simp [isFraction, isExponent] at hrest
                · rw [Option.some.inj hc] at hrest
                  simp [isFraction, isExponent] at hrest
          refine ⟨d, t, rfl, hd, ?_⟩
          have hnohex : ¬(d = '0' ∧ (t.head? = some 'x' ∨ t.head? = some 'X') ∧
              ((t.drop 1).takeWhile isHexDigit).length ≠ 0) := fun hc => hhex hc.2.1
          simp only [numericLength]
          rw [if_neg hnohex, if_neg hdot, ← List.drop_drop, drop_digits, Nat.add_assoc, hall, ← drop_digits, List.length_drop]
          omega

def numeralTokens : List Char → List Token
  | '-' :: s => [.sym ['-'], .num (asciiLower s)]
  | s => [.num (asciiLower s)]

/-- The tokens of a literal. -/
def literalTokens (literal : Literal) : List Token :=
  if literal.type = "integer" ∨ literal.type = "real" then numeralTokens literal.value.toList
  else if literal.type = "text" then [.str literal.value.toList]
  else if literal.type = "blob" then [.blob (literal.value.toList.map Char.toUpper)]
  else [.keyword "null"]

theorem open_numeral {value : List Char}
    (h : isCanonicalInteger ((withoutMinus value).takeWhile Char.isDigit) = true)
    (hrest : isFraction ((withoutMinus value).dropWhile Char.isDigit) = true) :
    Open value (numeralTokens value) := by
  obtain ⟨d, t, hs, hd, hlength⟩ := number_all h hrest
  unfold withoutMinus at hs
  split at hs
  · subst hs
    exact open_minus hd hlength
  · subst hs
    have hne : d ≠ '-' := digit_ne hd (by decide)
    rw [numeralTokens.eq_2 _ fun s hs => hne (List.cons.inj hs).1]
    exact open_number hd hlength

theorem isCanonicalInteger_digits {s : List Char} (h : isCanonicalInteger s = true) :
    s.all Char.isDigit = true := by
  unfold isCanonicalInteger at h
  split at h
  · decide
  · rename_i c t hzero
    simp only [Bool.and_eq_true] at h
    rw [List.all_cons, h.1.1, h.2]
    rfl
  · cases h

/-- An integer is a number without a fraction. -/
theorem isInt64_number {value : List Char} (h : isInt64 value = true) :
    isCanonicalInteger ((withoutMinus value).takeWhile Char.isDigit) = true ∧
      isFraction ((withoutMinus value).dropWhile Char.isDigit) = true := by
  unfold isInt64 at h
  simp only [Bool.and_eq_true] at h
  have hinteger := h.1.1
  have hall := List.all_eq_true.mp (isCanonicalInteger_digits hinteger)
  rw [List.takeWhile_eq_self_iff.mpr hall, List.dropWhile_eq_nil_iff.mpr hall]
  exact ⟨hinteger, rfl⟩

theorem isBlob_pairs {value : List Char} (h : isBlob value = true) :
    isHexPairs value = true ∧ ∀ c ∈ value, c ≠ '\'' := by
  have hall : "0123456789ABCDEF".toList.all (fun c => isHexDigit c && c != '\'') = true := by
    decide +kernel
  have hhex (c : Char) (hc : c ∈ "0123456789ABCDEF".toList) : isHexDigit c = true ∧ c ≠ '\'' := by
    simpa using List.all_eq_true.mp hall c hc
  induction value using isBlob.induct with
  | case1 => exact ⟨rfl, fun c hc => absurd hc List.not_mem_nil⟩
  | case2 a b s ih =>
      simp only [isBlob, Bool.and_eq_true, List.contains_eq_mem, decide_eq_true_eq] at h
      obtain ⟨⟨ha, hb⟩, hs⟩ := h
      obtain ⟨hpairs, hquotes⟩ := ih hs
      refine ⟨by rw [isHexPairs, (hhex a ha).1, (hhex b hb).1, hpairs]; rfl, ?_⟩
      exact List.forall_mem_cons.mpr ⟨(hhex a ha).2, List.forall_mem_cons.mpr ⟨(hhex b hb).2, hquotes⟩⟩
  | case3 => cases h

theorem toList_quoted (before : String) (value : List Char) :
    (before ++ String.ofList value ++ "'").toList = before.toList ++ (value ++ ['\'']) := by
  rw [String.toList_append, String.toList_append, String.toList_ofList, List.append_assoc]
  rfl

/-- An accepted default is written as its tokens. -/
theorem open_literal {literal : Literal} {column : Column} {path : String}
    (h : checkLiteral literal column path = []) :
    ∃ sql, literalToSql literal = some sql ∧ Open sql.toList (literalTokens literal) := by
  unfold checkLiteral at h
  split_ifs at h with htype hmatch hnull
  · refine ⟨"NULL", ?_, ?_⟩
    · simp [literalToSql, hnull]
    · have htokens : literalTokens literal = [.keyword "null"] := by simp [literalTokens, hnull]
      rw [htokens]
      exact open_word (by decide +kernel)
  · have hname : literal.type = column.type.name := by
      by_contra hne
      exact hmatch ⟨hnull, hne⟩
    cases hcolumn : column.type with
    | integer =>
        rw [hcolumn] at h hname
        rw [demand_eq_nil] at h
        obtain ⟨hwhole, hrest⟩ := isInt64_number h
        have htokens : literalTokens literal = numeralTokens literal.value.toList :=
          if_pos (.inl hname)
        exact ⟨literal.value, if_pos (.inl hname), htokens ▸ open_numeral hwhole hrest⟩
    | real =>
        rw [hcolumn] at h hname
        rw [demand_eq_nil] at h
        obtain ⟨hwhole, hrest⟩ := Bool.and_eq_true_iff.mp h
        have htokens : literalTokens literal = numeralTokens literal.value.toList :=
          if_pos (.inr hname)
        exact ⟨literal.value, if_pos (.inr hname), htokens ▸ open_numeral hwhole hrest⟩
    | text =>
        rw [hcolumn] at hname
        refine ⟨_, by simp [literalToSql, hname, ScalarType.name]; rfl, ?_⟩
        have htokens : literalTokens literal = [.str literal.value.toList] := by
          simp [literalTokens, hname, ScalarType.name]
        rw [toList_quoted, htokens]
        exact open_string literal.value.toList
    | blob =>
        rw [hcolumn] at h hname
        rw [demand_eq_nil] at h
        obtain ⟨hpairs, hquotes⟩ := isBlob_pairs h
        refine ⟨_, by simp [literalToSql, hname, ScalarType.name]; rfl, ?_⟩
        have htokens : literalTokens literal = [.blob (literal.value.toList.map Char.toUpper)] := by
          simp [literalTokens, hname, ScalarType.name]
        have htext : ("X'" ++ literal.value ++ "'").toList =
            'X' :: '\'' :: (literal.value.toList ++ ['\'']) := by
          rw [String.toList_append, String.toList_append, List.append_assoc]
          rfl
        rw [htext, htokens]
        exact open_blob hpairs hquotes

/-! ## Statements as tokens -/

def nameToken (name : String) : Token := .id (asciiLower name.toList)

/-- The SQL name of a column. -/
def columnSqlName (table : Table) (name : String) : String :=
  ((columnByName table name).map Column.sqlName).getD name

def listTokens (items : List (List Token)) : List Token :=
  opening :: ([comma].intercalate items ++ [closing])

def keyTokens (table : Table) (names : List String) : List Token :=
  listTokens (names.map fun name => [nameToken (columnSqlName table name)])

def typeToken : ScalarType → Token
  | .integer => .id "integer".toList
  | .text => .id "text".toList
  | .real => .id "real".toList
  | .blob => .id "blob".toList

def defaultTokens (table : Table) (column : Column) : List Token :=
  match effectiveDefault table column with
  | none => []
  | some literal => .keyword "default" :: literalTokens literal

def columnTokens (table : TableDecl) (column : Column) : List Token :=
  [nameToken column.sqlName, typeToken column.type] ++
    (if column.name ∈ table.autoincrement then
      ["primary", "key", "autoincrement"].map Token.keyword else []) ++
    (if column.nullable then [] else ["not", "null"].map Token.keyword) ++
    defaultTokens table.toTable column

def primaryKeyTokens (table : TableDecl) : List (List Token) :=
  if singleAutoincrement table then []
  else [["primary", "key"].map Token.keyword ++ keyTokens table.toTable table.primaryKey]

def uniqueTokens (table : TableDecl) (key : List String) : List Token :=
  .keyword "unique" :: keyTokens table.toTable key

def actionTokens (action : String) : List Token := (action.toList.splitOn ' ').map Token.kw

def foreignKeyTokens (doc : Declarations) (table : TableDecl) (key : ForeignKey) : List Token :=
  match tableByName doc.document key.refTable with
  | none => []
  | some target =>
      [.keyword "constraint", nameToken key.name] ++ ["foreign", "key"].map Token.keyword ++
        keyTokens table.toTable key.columns ++ [.keyword "references", nameToken target.sqlName] ++
        keyTokens target key.refColumns ++ ["on", "update"].map Token.keyword ++
        actionTokens key.onUpdate ++ ["on", "delete"].map Token.keyword ++
        actionTokens key.onDelete

def checkTokens (name : String) (expression : List Token) : List Token :=
  .keyword "constraint" :: nameToken name :: .keyword "check" :: opening ::
    (expression ++ [closing])

/-- The checks that a table declares: the name in lower case, the tokens of the expression. -/
def declaredChecks (table : TableDecl) : Option (List PhysicalCheck) :=
  (table.checks.getD []).mapM fun check => (fragmentTokens check.sql).map fun expression =>
    ⟨some (asciiLower check.name.toList), expression⟩

/-- The columns and constraints that a table declares. -/
def declaredItems (doc : Declarations) (table : TableDecl) : Option (List (List Token)) :=
  ((table.checks.getD []).mapM fun check =>
    (fragmentTokens check.sql).map (checkTokens check.name)).map fun checks =>
      table.columns.map (columnTokens table) ++ primaryKeyTokens table ++
        table.uniques.map (uniqueTokens table) ++
        (table.foreignKeys.getD []).map (foreignKeyTokens doc table) ++ checks

def termTokens (table : TableDecl) (term : IndexTerm) : Option (List Token) :=
  match term with
  | .column column direction => some [nameToken (columnSqlName table.toTable column),
      match direction with
      | .asc => .keyword "asc"
      | .desc => .keyword "desc"]
  | .expression sql => fragmentTokens sql

/-- The terms that an index declares. -/
def declaredTerms (table : TableDecl) (index : Index) : Option (List (List Token)) :=
  index.terms.mapM (termTokens table)

/-- Its predicate, if it has one. -/
def declaredFilter (index : Index) : Option (Option (List Token)) :=
  match index.filter with
  | none => some none
  | some sql => (fragmentTokens sql).map some

/-! ## Reading statements -/

/-- What stands between parentheses, split at the commas outside of further ones, and what
follows the parenthesis that closes. -/
def readItems : ℕ → List Token → List Token → Option (List (List Token) × List Token)
  | _, _, [] => none
  | depth, current, t :: ts =>
      if t = opening then readItems (depth + 1) (current ++ [t]) ts
      else if t = closing then
        if depth = 0 then some ([current], ts) else readItems (depth - 1) (current ++ [t]) ts
      else if t = comma ∧ depth = 0 then
        (readItems 0 [] ts).map fun p => (current :: p.1, p.2)
      else readItems depth (current ++ [t]) ts

structure TableStatement where
  name : Token
  items : List (List Token)
  deriving DecidableEq, Repr

/-- A `CREATE TABLE` without table options, and nothing after it. -/
def readCreateTable : List Token → Option TableStatement
  | create :: table :: name :: bracket :: ts =>
      if create = .keyword "create" ∧ table = .keyword "table" ∧ bracket = opening then
        match readItems 0 [] ts with
        | some (items, rest) => if rest = [semicolon] then some ⟨name, items⟩ else none
        | none => none
      else none
  | _ => none

structure IndexStatement where
  unique : Bool
  name : Token
  table : Token
  terms : List (List Token)
  filter : Option (List Token)
  deriving DecidableEq, Repr

/-- The `WHERE` clause at the end of a statement. -/
def readFilter : List Token → Option (Option (List Token))
  | [] => none
  | t :: ts =>
      if t = semicolon ∧ ts = [] then some none
      else if t = .keyword "where" ∧ ts.getLast? = some semicolon ∧ semicolon ∉ ts.dropLast then
        some (some ts.dropLast)
      else none

def readIndexBody (unique : Bool) : List Token → Option IndexStatement
  | index :: name :: on :: table :: bracket :: ts =>
      if index = .keyword "index" ∧ on = .keyword "on" ∧ bracket = opening then
        match readItems 0 [] ts with
        | some (terms, rest) => (readFilter rest).map fun filter => ⟨unique, name, table, terms, filter⟩
        | none => none
      else none
  | _ => none

/-- One `CREATE INDEX`. -/
def readCreateIndex : List Token → Option IndexStatement
  | create :: word :: ts =>
      if create = .keyword "create" then
        if word = .keyword "unique" then readIndexBody true ts
        else readIndexBody false (word :: ts)
      else none
  | _ => none

/-! ## What is read -/

/-- From inside of `d` parentheses a nested text is passed over, also when it has commas. -/
theorem readItems_nested {commas : Bool} {d k : ℕ} {e : List Token}
    (h : nested commas k e = true) (hd : commas = false ∨ d ≠ 0) (current rest : List Token) :
    readItems (d + k) current (e ++ rest) = readItems d (current ++ e) rest := by
  induction e generalizing k current with
  | nil =>
      obtain rfl : k = 0 := of_decide_eq_true h
      rw [List.append_nil]
      rfl
  | cons t e ih =>
      have happend : current ++ t :: e = current ++ [t] ++ e := by simp
      rw [nested] at h
      rw [List.cons_append, readItems, happend]
      split_ifs at h with hopen hclose hcomma
      · rw [if_pos hopen]
        exact ih h (current ++ [t])
      · obtain ⟨hk, h⟩ := Bool.and_eq_true_iff.mp h
        have hk : k ≠ 0 := of_decide_eq_true hk
        rw [if_neg hopen, if_pos hclose, if_neg (by omega), Nat.add_sub_assoc (by omega)]
        exact ih h (current ++ [t])
      · obtain ⟨hallowed, h⟩ := Bool.and_eq_true_iff.mp h
        have hdepth : d + k ≠ 0 := by
          rcases Bool.or_eq_true_iff.mp hallowed with hc | hk
          · rcases hd with hd | hd
            · exact absurd (hd.symm.trans hc) (by decide)
            · omega
          · have hk : k ≠ 0 := of_decide_eq_true hk
            omega
        rw [if_neg hopen, if_neg hclose, if_neg fun hc => hdepth hc.2]
        exact ih h (current ++ [t])
      · rw [if_neg hopen, if_neg hclose, if_neg fun hc => hcomma hc.1]
        exact ih h (current ++ [t])

/-- The items of a list are read back. -/
theorem readItems_items {items : List (List Token)} (hne : items ≠ [])
    (h : ∀ item ∈ items, nested false 0 item = true) (rest : List Token) :
    readItems 0 [] ([comma].intercalate items ++ closing :: rest) = some (items, rest) := by
  induction items with
  | nil => exact absurd rfl hne
  | cons item items ih =>
      obtain ⟨hitem, hitems⟩ := List.forall_mem_cons.mp h
      cases items with
      | nil =>
          rw [List.intercalate_singleton, readItems_nested hitem (.inl rfl) [] _]
          rfl
      | cons next items =>
          have hread := ih (List.cons_ne_nil _ _) hitems
          rw [List.intercalate_cons_cons, List.append_assoc, List.append_assoc,
            readItems_nested hitem (.inl rfl) [] _, List.singleton_append, readItems,
            if_neg (by decide), if_neg (by decide), if_pos ⟨rfl, rfl⟩, hread]
          rfl

/-- Whatever is read closes what it opens. -/
theorem readItems_some {d : ℕ} {current ts rest : List Token} {items : List (List Token)}
    (h : readItems d current ts = some (items, rest)) : ∃ e others,
      items = (current ++ e) :: others ∧ nested false d e = true ∧
      (∀ item ∈ others, nested false 0 item = true) ∧ rest <:+ ts := by
  induction ts generalizing d current items rest with
  | nil => cases h
  | cons t ts ih =>
      have hcons := List.suffix_cons t ts
      rw [readItems] at h
      split_ifs at h with hopen hclose hzero hcomma
      · obtain ⟨e, others, rfl, he, hothers, hrest⟩ := ih h
        exact ⟨t :: e, others, by simp, by rw [nested, if_pos hopen]; exact he, hothers,
          hrest.trans hcons⟩
      · cases h
        refine ⟨[], [], by simp, by subst hzero; rfl, ?_, hcons⟩
        exact fun item hitem => absurd hitem List.not_mem_nil
      · obtain ⟨e, others, rfl, he, hothers, hrest⟩ := ih h
        refine ⟨t :: e, others, by simp, ?_, hothers, hrest.trans hcons⟩
        rw [nested, if_neg hopen, if_pos hclose, he]
        simpa using hzero
      · obtain ⟨p, hp, hitems⟩ := Option.map_eq_some_iff.mp h
        obtain ⟨e, others, hfirst, he, hothers, hrest⟩ := ih hp
        cases hitems
        refine ⟨[], p.1, by simp, ?_, ?_, hrest.trans hcons⟩
        · rw [hcomma.2]
          rfl
        · rw [hfirst]
          exact List.forall_mem_cons.mpr ⟨he, hothers⟩
      · obtain ⟨e, others, rfl, he, hothers, hrest⟩ := ih h
        refine ⟨t :: e, others, by simp, ?_, hothers, hrest.trans hcons⟩
        rw [nested, if_neg hopen, if_neg hclose]
        split_ifs with hc
        · rw [he]
          simpa using fun hd => hcomma ⟨hc, hd⟩
        · exact he

end Esdb.Schema
