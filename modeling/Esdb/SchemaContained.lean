import Esdb.SchemaTokens

/-!
# Fragments in the DDL

The emitted statements read as their tokens, piece by piece. The expressions of authors
stand between generated parentheses; where they close what they open they are read back as
what was declared, and otherwise they are not.
-/
namespace Esdb.Schema

open SqlText SqlTokens PhysicalSchema

/-! ## Pieces of text -/

/-- A text that may stand behind an open one. -/
structure Tail (text : String) (ts : List Token) : Prop where
  reads : Open text.toList ts
  delimited : Delimited text.toList

def beginsDelimited (text : String) : Bool :=
  text.toList.head?.any fun c => [' ', '\n', '(', ')', ',', ';'].contains c

theorem delimited_text {text : String} (h : beginsDelimited text = true) (rest : List Char) :
    Delimited (text.toList ++ rest) := by
  unfold beginsDelimited at h
  cases htext : text.toList with
  | nil =>
      rw [htext] at h
      cases h
  | cons c s =>
      rw [htext] at h
      exact delimited (List.contains_iff_mem.mp h) _

section Pieces

variable {s t : String} {ts us vs : List Token}

theorem Tail.nil : Tail "" [] := ⟨closed_nil.toOpen, delimited_nil⟩

theorem tail_word (h : (s, ts) ∈ wordTexts) (hd : beginsDelimited s = true) : Tail s ts := by
  have hdelimited := delimited_text hd []
  rw [List.append_nil] at hdelimited
  exact ⟨open_word h, hdelimited⟩

theorem tail_piece (h : (s, ts) ∈ pieceTexts) (hd : beginsDelimited s = true) : Tail s ts := by
  have hdelimited := delimited_text hd []
  rw [List.append_nil] at hdelimited
  exact ⟨(closed_piece h).toOpen, hdelimited⟩

theorem Tail.append (hs : Tail s ts) (ht : Tail t us) : Tail (s ++ t) (ts ++ us) := by
  refine ⟨?_, ?_⟩
  · rw [String.toList_append]
    exact hs.reads.append ht.reads ht.delimited
  · rw [String.toList_append]
    exact hs.delimited.append ht.delimited

theorem open_tail (hs : Open s.toList ts) (ht : Tail t us) : Open (s ++ t).toList (ts ++ us) := by
  rw [String.toList_append]
  exact hs.append ht.reads ht.delimited

theorem closed_open (hs : Closed s.toList ts) (ht : Open t.toList us) :
    Open (s ++ t).toList (ts ++ us) := by
  rw [String.toList_append]
  exact hs.append_open ht

theorem closed_tail (hs : Closed s.toList ts) (hd : beginsDelimited s = true)
    (ht : Open t.toList us) : Tail (s ++ t) (ts ++ us) := by
  refine ⟨closed_open hs ht, ?_⟩
  rw [String.toList_append]
  exact delimited_text hd _

end Pieces

theorem open_intercalate (sep : String) (hsep : Closed sep.toList [comma])
    (hd : beginsDelimited sep = true) {texts : List String} {items : List (List Token)}
    (h : List.Forall₂ (fun text ts => Open text.toList ts) texts items) :
    Open (sep.intercalate texts).toList ([comma].intercalate items) := by
  rw [String.toList_intercalate]
  induction h with
  | nil => exact closed_nil.toOpen
  | cons hfirst hrest ih =>
      cases hrest with
      | nil =>
          rw [List.map_singleton, List.intercalate_singleton, List.intercalate_singleton]
          exact hfirst
      | cons hnext hrest =>
          rw [List.map_cons, List.map_cons, List.intercalate_cons_cons, List.intercalate_cons_cons,
            List.append_assoc, List.append_assoc]
          exact hfirst.append (hsep.append_open ih) (delimited_text hd _)

/-! ## The parts of a table -/

theorem open_quoteIdentifier {name : String} (h : isIdentifier name = true) :
    Open (quoteIdentifier name).toList [nameToken name] := by
  have hquote : ∀ c ∈ name.toList, c ≠ '"' := by
    rintro c hc rfl
    rcases isIdentifier_chars h _ hc with halnum | hunder
    · exact absurd halnum (by decide)
    · exact absurd hunder (by decide)
  have htext : (quoteIdentifier name).toList = '"' :: (name.toList ++ ['"']) := by
    simp only [quoteIdentifier, toString, String.toList_append]
    rfl
  rw [htext]
  exact open_identifier hquote

theorem tail_sqlType (type : ScalarType) : Tail (" " ++ sqlType type) [typeToken type] := by
  cases type <;> exact tail_word (by simp [wordTexts, sqlType, typeToken]) (by decide)

theorem tail_default {table : Table} {column : Column}
    (h : ∀ literal, effectiveDefault table column = some literal →
      ∃ path, checkLiteral literal column path = []) :
    ∃ sql, defaultSql table column = some sql ∧ Tail sql (defaultTokens table column) := by
  unfold defaultSql defaultTokens
  cases hdefault : effectiveDefault table column with
  | none => exact ⟨_, rfl, Tail.nil⟩
  | some literal =>
      obtain ⟨path, hpath⟩ := h literal hdefault
      obtain ⟨sql, hsql, hopen⟩ := open_literal hpath
      have hword : Closed " DEFAULT ".toList [.keyword "default"] := closed_piece (by simp [pieceTexts, keywords])
      exact ⟨" DEFAULT " ++ sql, by simp only [hsql, Option.map_some],
        closed_tail hword (by decide) hopen⟩

theorem open_column {table : TableDecl} {column : Column}
    (hname : isIdentifier column.sqlName = true)
    (hdefault : ∀ literal, effectiveDefault table.toTable column = some literal →
      ∃ path, checkLiteral literal column path = []) :
    ∃ sql, columnSql table column = some sql ∧ Open sql.toList (columnTokens table column) := by
  obtain ⟨default, hsql, htail⟩ := tail_default hdefault
  have hindent : Closed "  ".toList [] := closed_piece (by simp [pieceTexts, keywords])
  have hauto : Tail (if column.name ∈ table.autoincrement then " PRIMARY KEY AUTOINCREMENT" else "")
      (if column.name ∈ table.autoincrement then
        ["primary", "key", "autoincrement"].map Token.keyword else []) := by
    split_ifs
    · exact tail_word (by simp [wordTexts, keywords]) (by decide)
    · exact Tail.nil
  have hnull : Tail (if column.nullable then "" else " NOT NULL")
      (if column.nullable then [] else ["not", "null"].map Token.keyword) := by
    split_ifs
    · exact Tail.nil
    · exact tail_word (by simp [wordTexts, keywords]) (by decide)
  refine ⟨_, by rw [columnSql, hsql, Option.map_some], ?_⟩
  have hopen := closed_open hindent (open_tail (open_quoteIdentifier hname)
    ((tail_sqlType column.type).append (hauto.append (hnull.append htail))))
  have htokens : columnTokens table column = [] ++ ([nameToken column.sqlName] ++
      ([typeToken column.type] ++ ((if column.name ∈ table.autoincrement then
        ["primary", "key", "autoincrement"].map Token.keyword else []) ++
      ((if column.nullable then [] else ["not", "null"].map Token.keyword) ++
        defaultTokens table.toTable column)))) := by
    simp only [columnTokens, List.append_assoc, List.nil_append, List.cons_append]
  rw [htokens]
  simp only [toString_text, String.append_assoc] at hopen ⊢
  exact hopen

theorem open_names {table : Table} (hcolumns : ∀ c ∈ table.columns, isIdentifier c.sqlName = true)
    {names : List String} (hnames : ∀ n ∈ names, hasColumn table.columns n = true) (sep : String)
    (hsep : Closed sep.toList [comma]) (hd : beginsDelimited sep = true) :
    ∃ columns, quotedNames table names = some columns ∧ Open (sep.intercalate columns).toList
      ([comma].intercalate (names.map fun name => [nameToken (columnSqlName table name)])) := by
  have hname : ∀ n ∈ names, ∃ text,
      ((columnByName table n).map fun column => quoteIdentifier column.sqlName) = some text ∧
        True ∧ Open text.toList [nameToken (columnSqlName table n)] := by
    intro n hn
    obtain ⟨column, hcolumn⟩ := columnByName_of_has (hnames n hn)
    rw [columnSqlName, hcolumn]
    have hmem := (columnByName_spec hcolumn).1
    exact ⟨_, rfl, trivial, open_quoteIdentifier (hcolumns column hmem)⟩
  obtain ⟨columns, hquoted, -, hopen⟩ := mapM_forall₂ (P := fun _ => True)
    (R := fun (text : String) ts => Open text.toList ts) hname
  exact ⟨columns, hquoted, open_intercalate sep hsep hd hopen⟩

theorem tail_closing : Tail ")" [closing] := tail_piece (by simp [pieceTexts, keywords]) (by decide)

theorem open_primaryKey {doc : Declarations} {table : TableDecl} (h : Declared doc table) :
    ∃ parts, primaryKeySql table = some parts ∧
      List.Forall₂ (fun text ts => Open text.toList ts) parts (primaryKeyTokens table) := by
  unfold primaryKeySql primaryKeyTokens
  split_ifs
  · exact ⟨[], rfl, .nil⟩
  · obtain ⟨columns, hquoted, hopen⟩ := open_names h.columns h.primaryKey
      ", " (closed_piece (by simp [pieceTexts, keywords])) (by decide)
    have hpiece : Closed "  PRIMARY KEY (".toList (keywords ["primary", "key"] ++ [opening]) :=
      closed_piece (by simp [pieceTexts, keywords])
    have hread := closed_open hpiece (open_tail hopen tail_closing)
    refine ⟨_, by rw [hquoted, Option.map_some], .cons ?_ .nil⟩
    simp only [toString_text, String.append_assoc, List.append_assoc] at hread ⊢
    exact hread

theorem open_unique {doc : Declarations} {table : TableDecl} (h : Declared doc table)
    {key : List String} (hkey : key ∈ table.uniques) :
    ∃ text, uniqueSql table key = some text ∧ Open text.toList (uniqueTokens table key) := by
  obtain ⟨columns, hquoted, hopen⟩ := open_names h.columns (h.uniques key hkey).2
    "," (closed_piece (by simp [pieceTexts, keywords])) (by decide)
  have hpiece : Closed "  UNIQUE (".toList (keywords ["unique"] ++ [opening]) :=
    closed_piece (by simp [pieceTexts, keywords])
  have hread := closed_open hpiece (open_tail hopen tail_closing)
  refine ⟨_, by rw [uniqueSql, hquoted, Option.map_some], ?_⟩
  simp only [toString_text, String.append_assoc, List.append_assoc] at hread ⊢
  exact hread

theorem open_action {action : String} (h : action ∈ foreignKeyActions) :
    Open action.toUpper.toList (actionTokens action) := by
  have hall : foreignKeyActions.all (fun a => (a.toUpper, actionTokens a) ∈ wordTexts) = true := by
    decide +kernel
  exact open_word (of_decide_eq_true (List.all_eq_true.mp hall action h))

theorem open_foreignKey {doc : Declarations} (hdoc : validateDeclarations doc = [])
    {table : TableDecl} (h : Declared doc table) {key : ForeignKey}
    (hkey : key ∈ table.foreignKeys.getD []) : ∃ text, foreignKeySql doc table key = some text ∧
      Open text.toList (foreignKeyTokens doc table key) := by
  obtain ⟨hname, hcolumns, ⟨target, hmem, htarget, hrefs⟩, hupdate, hdelete⟩ := h.foreignKeys key hkey
  have hnames := validate_sqlNames (validate_document hdoc)
  have hsep : Closed ",".toList [comma] := closed_piece (by simp [pieceTexts, keywords])
  obtain ⟨columns, hquoted, hopen⟩ := open_names h.columns hcolumns "," hsep
    (by decide)
  obtain ⟨refs, hrefquoted, hrefopen⟩ := open_names (hnames.columns _ hmem) hrefs ","
    hsep (by decide)
  have hconstraint : Closed "  CONSTRAINT ".toList (keywords ["constraint"]) :=
    closed_piece (by simp [pieceTexts, keywords])
  have hforeign : Closed " FOREIGN KEY (".toList (keywords ["foreign", "key"] ++ [opening]) :=
    closed_piece (by simp [pieceTexts, keywords])
  have hreferences : Closed " REFERENCES ".toList (keywords ["references"]) :=
    closed_piece (by simp [pieceTexts, keywords])
  have hbracket : Closed " (".toList [opening] := closed_piece (by simp [pieceTexts, keywords])
  have honUpdate : Closed " ON UPDATE ".toList (keywords ["on", "update"]) :=
    closed_piece (by simp [pieceTexts, keywords])
  have honDelete : Closed " ON DELETE ".toList (keywords ["on", "delete"]) :=
    closed_piece (by simp [pieceTexts, keywords])
  have hactions := closed_tail honUpdate (by decide) (open_tail (open_action hupdate)
    (closed_tail honDelete (by decide) (open_action hdelete)))
  have htargetRead := closed_tail hreferences (by decide)
    (open_tail (open_quoteIdentifier (hnames.tables _ hmem))
      (closed_tail hbracket (by decide)
        (open_tail hrefopen (tail_closing.append hactions))))
  have hread := closed_open hconstraint (open_tail (open_quoteIdentifier hname)
    (closed_tail hforeign (by decide)
      (open_tail hopen (tail_closing.append htargetRead))))
  have htokens : foreignKeyTokens doc table key = keywords ["constraint"] ++
      ([nameToken key.name] ++ (keywords ["foreign", "key"] ++ [opening] ++
      ([comma].intercalate (key.columns.map fun name =>
        [nameToken (columnSqlName table.toTable name)]) ++ ([closing] ++
      (keywords ["references"] ++ ([nameToken target.sqlName] ++ ([opening] ++
      ([comma].intercalate (key.refColumns.map fun name => [nameToken (columnSqlName target name)]) ++
      ([closing] ++ (keywords ["on", "update"] ++ (actionTokens key.onUpdate ++
      (keywords ["on", "delete"] ++ actionTokens key.onDelete)))))))))))) := by
    simp only [foreignKeyTokens, htarget, keyTokens, listTokens, keywords, List.append_assoc,
      List.cons_append, List.nil_append, List.map_cons, List.map_nil]
  refine ⟨_, by rw [foreignKeySql, htarget, Option.bind_some, hquoted, Option.bind_some, hrefquoted,
    Option.map_some], ?_⟩
  rw [htokens]
  simp only [toString_text, String.append_assoc] at hread ⊢
  exact hread

theorem static_commentless {sql : String} (h : Static sql) : Commentless sql.toList := by
  obtain ⟨-, hmarks⟩ := Bool.and_eq_true_iff.mp h
  have hmark (mark : String) (hmark : mark ∈ ["--", "/*", "*/"]) : ¬mark.toList <:+: sql.toList := by
    simpa using List.all_eq_true.mp hmarks mark hmark
  exact ⟨hmark "--" (by decide), hmark "/*" (by decide)⟩

theorem open_check {check : Check} (hname : isIdentifier check.name = true)
    (hstatic : Static check.sql) {e : List Token} (he : fragmentTokens check.sql = some e) :
    Open (checkSql check).toList (checkTokens check.name e) := by
  have hfragment := open_of_tokens (static_commentless hstatic) (toOption_eq_some.mp he)
  have hconstraint : Closed "  CONSTRAINT ".toList (keywords ["constraint"]) :=
    closed_piece (by simp [pieceTexts, keywords])
  have hcheck : Closed " CHECK (".toList (keywords ["check"] ++ [opening]) :=
    closed_piece (by simp [pieceTexts, keywords])
  have hread := closed_open hconstraint (open_tail (open_quoteIdentifier hname)
    (closed_tail hcheck (by decide) (open_tail hfragment tail_closing)))
  unfold checkSql
  simp only [toString_text, String.append_assoc] at hread ⊢
  exact hread

/-! ## Parts without checks -/

/-- The tokens close what they open, and there is no check among them. -/
structure Inert (ts : List Token) : Prop where
  closes : nested false 0 ts = true
  found : Found ts []

def plain (t : Token) : Bool :=
  t ≠ opening && t ≠ closing && t ≠ comma && t ≠ .keyword "check"

theorem Inert.append {ts us : List Token} (hs : Inert ts) (hu : Inert us) : Inert (ts ++ us) := by
  refine ⟨?_, ?_⟩
  · rw [nested_append (d := 0) hs.closes fun h => nomatch h]
    exact hu.closes
  · exact hs.found.append hu.found

theorem nested_words {ts : List Token}
    (h : ∀ t ∈ ts, t ≠ opening ∧ t ≠ closing ∧ t ≠ comma) : nested false 0 ts = true := by
  induction ts with
  | nil => rfl
  | cons t ts ih =>
      obtain ⟨ht, hts⟩ := List.forall_mem_cons.mp h
      rw [nested, if_neg ht.1, if_neg ht.2.1, if_neg ht.2.2]
      exact ih hts

theorem inert_plain {ts : List Token} (h : ts.all plain = true) : Inert ts := by
  have hplain (t : Token) (ht : t ∈ ts) :
      t ≠ opening ∧ t ≠ closing ∧ t ≠ comma ∧ t ≠ .keyword "check" := by
    have := List.all_eq_true.mp h t ht
    simpa [plain, and_assoc] using this
  refine ⟨nested_words fun t ht => ?_, found_free fun t ht => (hplain t ht).2.2.2⟩
  obtain ⟨hopen, hclose, hcomma, -⟩ := hplain t ht
  exact ⟨hopen, hclose, hcomma⟩

theorem inert_id (name : List Char) : Inert [.id name] := inert_plain rfl

theorem inert_list {items : List (List Token)} (h : ∀ item ∈ items, Inert item) :
    Inert (listTokens items) := by
  have hnested : nested true 0 ([comma].intercalate items) = true := by
    refine nested_intercalate fun item hitem => ?_
    have hcloses : nested true (0 + 0) (item ++ []) = nested true 0 [] :=
      nested_append (h item hitem).closes (fun hc => nomatch hc) []
    rw [List.append_nil] at hcloses
    exact hcloses
  refine ⟨nested_enclosed hnested [], ?_⟩
  have hfound : Found ([comma].intercalate items) (items.map fun _ => []).flatten := by
    refine found_intercalate ?_
    rw [List.forall₂_map_right_iff, List.forall₂_same]
    exact fun item hitem => (h item hitem).found
  have hempty : (items.map fun _ => ([] : List PhysicalCheck)).flatten = [] := by simp
  rw [hempty] at hfound
  have hopening : Found [opening] [] := found_free (by decide)
  have hclosing : Found [closing] [] := found_free (by decide)
  exact hopening.append (hfound.append hclosing)

theorem inert_key (table : Table) (names : List String) : Inert (keyTokens table names) := by
  refine inert_list fun item hitem => ?_
  obtain ⟨name, -, rfl⟩ := List.mem_map.mp hitem
  exact inert_id _

theorem inert_literal (literal : Literal) : Inert (literalTokens literal) := by
  unfold literalTokens
  split_ifs
  · unfold numeralTokens
    split <;> exact inert_plain rfl
  · exact inert_plain rfl
  · exact inert_plain rfl
  · exact inert_plain (by decide)

theorem inert_column (table : TableDecl) (column : Column) : Inert (columnTokens table column) := by
  have htype : Inert [typeToken column.type] := by cases column.type <;> exact inert_id _
  have hauto : Inert (if column.name ∈ table.autoincrement then
      ["primary", "key", "autoincrement"].map Token.keyword else []) := by
    split_ifs <;> exact inert_plain (by decide)
  have hnull : Inert (if column.nullable then [] else ["not", "null"].map Token.keyword) := by
    split_ifs <;> exact inert_plain (by decide)
  have hdefault : Inert (defaultTokens table.toTable column) := by
    unfold defaultTokens
    split
    · exact inert_plain rfl
    · have hword : Inert [.keyword "default"] := inert_plain (by decide)
      exact hword.append (inert_literal _)
  exact ((((inert_id _).append htype).append hauto).append hnull).append hdefault

theorem inert_primaryKey {table : TableDecl} {item : List Token}
    (h : item ∈ primaryKeyTokens table) : Inert item := by
  unfold primaryKeyTokens at h
  split_ifs at h
  · exact absurd h List.not_mem_nil
  · obtain rfl := List.mem_singleton.mp h
    have hwords : Inert (["primary", "key"].map Token.keyword) := inert_plain (by decide)
    exact hwords.append (inert_key _ _)

theorem inert_unique (table : TableDecl) (key : List String) : Inert (uniqueTokens table key) := by
  have hword : Inert [.keyword "unique"] := inert_plain (by decide)
  exact hword.append (inert_key _ _)

theorem inert_foreignKey {doc : Declarations} {table : TableDecl} {key : ForeignKey}
    (h : DeclaredKey doc table key) : Inert (foreignKeyTokens doc table key) := by
  obtain ⟨target, -, htarget, -⟩ := h.target
  have haction {action : String} (h : action ∈ foreignKeyActions) : Inert (actionTokens action) := by
    have hall : foreignKeyActions.all (fun a => (actionTokens a).all plain) = true := by
      decide
    exact inert_plain (List.all_eq_true.mp hall action h)
  have hconstraint : Inert [.keyword "constraint"] := inert_plain (by decide)
  have hforeign : Inert (["foreign", "key"].map Token.keyword) := inert_plain (by decide)
  have hreferences : Inert [.keyword "references"] := inert_plain (by decide)
  have hupdate : Inert (["on", "update"].map Token.keyword) := inert_plain (by decide)
  have hdelete : Inert (["on", "delete"].map Token.keyword) := inert_plain (by decide)
  rw [foreignKeyTokens, htarget]
  exact (((((((hconstraint.append (inert_id _)).append hforeign).append (inert_key _ _)).append
    (hreferences.append (inert_id _))).append (inert_key _ _)).append hupdate).append
    (haction h.actions.1)).append hdelete |>.append (haction h.actions.2)

/-! ## A table as a whole -/

theorem mapM_isSome {α β : Type} {f : α → Option β} {l : List α} {bs : List β}
    (h : l.mapM f = some bs) : ∀ a ∈ l, ∃ b, f a = some b := by
  induction l generalizing bs with
  | nil => exact fun a ha => absurd ha List.not_mem_nil
  | cons a l ih =>
      rw [List.mapM_cons] at h
      obtain ⟨b, hb, hrest⟩ := Option.bind_eq_some_iff.mp h
      obtain ⟨bs', hbs, -⟩ := Option.bind_eq_some_iff.mp hrest
      exact List.forall_mem_cons.mpr ⟨⟨b, hb⟩, ih hbs⟩

/-- The tokens of a fragment that is read to its end. -/
def expressionTokens (sql : String) : List Token := (fragmentTokens sql).getD []

def checkItem (check : Check) : List Token :=
  checkTokens check.name (expressionTokens check.sql)

/-- The columns and keys of a table. -/
def keyItems (doc : Declarations) (table : TableDecl) : List (List Token) :=
  table.columns.map (columnTokens table) ++ primaryKeyTokens table ++
    table.uniques.map (uniqueTokens table) ++
    (table.foreignKeys.getD []).map (foreignKeyTokens doc table)

def tableItems (doc : Declarations) (table : TableDecl) : List (List Token) :=
  keyItems doc table ++ (table.checks.getD []).map checkItem

def tableTokens (doc : Declarations) (table : TableDecl) : List Token :=
  keywords ["create", "table"] ++ nameToken table.sqlName :: opening ::
    ([comma].intercalate (tableItems doc table) ++ [closing, semicolon])

theorem expressionTokens_eq {sql : String} (h : (fragmentTokens sql).isSome = true) :
    fragmentTokens sql = some (expressionTokens sql) := by
  obtain ⟨e, he⟩ := Option.isSome_iff_exists.mp h
  rw [expressionTokens, he]
  rfl

section Table

variable {doc : Declarations} {table : TableDecl}

theorem declaredItems_eq (h : ∀ check ∈ table.checks.getD [], (fragmentTokens check.sql).isSome = true) :
    declaredItems doc table = some (tableItems doc table) := by
  have hchecks : ((table.checks.getD []).mapM fun check =>
      (fragmentTokens check.sql).map (checkTokens check.name)) =
        some ((table.checks.getD []).map checkItem) := by
    refine mapM_eq_map fun check hcheck => ?_
    rw [expressionTokens_eq (h check hcheck)]
    rfl
  rw [declaredItems, hchecks]
  rfl

theorem declaredChecks_eq (h : ∀ check ∈ table.checks.getD [], (fragmentTokens check.sql).isSome = true) :
    declaredChecks table = some ((table.checks.getD []).map fun check =>
      ⟨some (asciiLower check.name.toList), expressionTokens check.sql⟩) := by
  refine mapM_eq_map fun check hcheck => ?_
  rw [expressionTokens_eq (h check hcheck)]
  rfl

/-- What is written before the checks reads as the columns and keys. -/
theorem tableParts_eq (hdoc : validateDeclarations doc = []) (ht : table ∈ doc.tables) :
    ∃ parts, tableParts doc table = some (parts ++ (table.checks.getD []).map checkSql) ∧
      List.Forall₂ (fun text ts => Open text.toList ts) parts (keyItems doc table) := by
  have hd := validate_declared hdoc ht
  obtain ⟨columns, hcolumns, -, hcolumnsOpen⟩ := mapM_forall₂ (P := fun _ => True)
    (R := fun (text : String) ts => Open text.toList ts) (f := columnSql table)
    (g := columnTokens table) (l := table.columns) fun column hcolumn => by
      obtain ⟨sql, hsql, hopen⟩ := open_column (hd.columns column hcolumn) (hd.defaults column hcolumn)
      exact ⟨sql, hsql, trivial, hopen⟩
  obtain ⟨primaryKey, hprimary, hprimaryOpen⟩ := open_primaryKey hd
  obtain ⟨uniques, huniques, -, huniquesOpen⟩ := mapM_forall₂ (P := fun _ => True)
    (R := fun (text : String) ts => Open text.toList ts) (f := uniqueSql table)
    (g := uniqueTokens table) (l := table.uniques) fun key hkey => by
      obtain ⟨sql, hsql, hopen⟩ := open_unique hd hkey
      exact ⟨sql, hsql, trivial, hopen⟩
  obtain ⟨keys, hkeys, -, hkeysOpen⟩ := mapM_forall₂ (P := fun _ => True)
    (R := fun (text : String) ts => Open text.toList ts) (f := foreignKeySql doc table)
    (g := foreignKeyTokens doc table) (l := table.foreignKeys.getD []) fun key hkey => by
      obtain ⟨sql, hsql, hopen⟩ := open_foreignKey hdoc hd hkey
      exact ⟨sql, hsql, trivial, hopen⟩
  have hparts : tableParts doc table = some (columns ++ primaryKey ++ uniques ++ keys ++
      (table.checks.getD []).map checkSql) := by
    rw [tableParts, hcolumns, Option.bind_some, hprimary, Option.bind_some, huniques,
      Option.bind_some, hkeys, Option.map_some]
  exact ⟨_, hparts, List.rel_append (List.rel_append (List.rel_append hcolumnsOpen hprimaryOpen)
    huniquesOpen) hkeysOpen⟩

theorem table_tokens (hdoc : validateDeclarations doc = []) (ht : table ∈ doc.tables)
    (h : ∀ check ∈ table.checks.getD [], (fragmentTokens check.sql).isSome = true) :
    ∃ sql, emitCreateTableSql doc table = some sql ∧
      canonicalSqlTokens sql.toList = .ok (tableTokens doc table) := by
  have hd := validate_declared hdoc ht
  obtain ⟨parts, hparts, hopen⟩ := tableParts_eq hdoc ht
  have hchecksOpen : List.Forall₂ (fun (text : String) ts => Open text.toList ts)
      ((table.checks.getD []).map checkSql) ((table.checks.getD []).map checkItem) := by
    rw [List.forall₂_map_left_iff, List.forall₂_map_right_iff, List.forall₂_same]
    intro check hcheck
    obtain ⟨hname, hstatic⟩ := hd.checks check hcheck
    exact open_check hname hstatic (expressionTokens_eq (h check hcheck))
  have hitems := open_intercalate ",\n" (closed_piece (by simp [pieceTexts, keywords]))
    (by decide) (List.rel_append hopen hchecksOpen)
  have hcreate : Closed "CREATE TABLE ".toList (keywords ["create", "table"]) :=
    closed_piece (by simp [pieceTexts, keywords])
  have hbracket : Closed " (\n".toList [opening] := closed_piece (by simp [pieceTexts, keywords])
  have hend : Tail "\n);" [closing, semicolon] :=
    tail_piece (by simp [pieceTexts, keywords]) (by decide)
  have hread := closed_open hcreate (open_tail (open_quoteIdentifier hd.sqlName)
    (closed_tail hbracket (by decide) (open_tail hitems hend)))
  refine ⟨_, by rw [emitCreateTableSql, hparts, Option.map_some], ?_⟩
  have htokens := hread.tokens
  simp only [toString_text, String.append_assoc] at htokens ⊢
  exact htokens

theorem forall₂_found {items : List (List Token)} (h : ∀ item ∈ items, Inert item) :
    List.Forall₂ Found items (items.map fun _ => []) := by
  rw [List.forall₂_map_right_iff, List.forall₂_same]
  exact fun item hitem => (h item hitem).found

/-- What a table declares besides its checks. -/
theorem table_inert (hd : Declared doc table) : ∀ item ∈ keyItems doc table, Inert item := by
  intro item hitem
  simp only [keyItems, List.mem_append, List.mem_map] at hitem
  rcases hitem with ((⟨column, -, rfl⟩ | hprimary) | ⟨key, -, rfl⟩) | ⟨key, hkey, rfl⟩
  · exact inert_column _ _
  · exact inert_primaryKey hprimary
  · exact inert_unique _ _
  · exact inert_foreignKey (hd.foreignKeys key hkey)

theorem found_check {check : Check} (h : nested true 0 (expressionTokens check.sql) = true) :
    Found (checkItem check)
      [⟨some (asciiLower check.name.toList), expressionTokens check.sql⟩] := by
  intro before rest
  obtain ⟨passed, hpassed⟩ := collectChecks_check (asciiLower check.name.toList) h before rest
  refine ⟨passed, ?_⟩
  rw [List.singleton_append, ← hpassed, checkItem, checkTokens, nameToken]
  simp only [List.cons_append, List.append_assoc, List.nil_append]

theorem nested_check {check : Check} (h : nested true 0 (expressionTokens check.sql) = true) :
    nested false 0 (checkItem check) = true := by
  have hwords : nested false 0 [.keyword "constraint", nameToken check.name, .keyword "check"] =
      true := by
    refine nested_words fun t ht => ?_
    simp only [List.mem_cons, List.not_mem_nil, or_false] at ht
    rcases ht with rfl | rfl | rfl <;> refine ⟨?_, ?_, ?_⟩ <;> intro h <;> cases h
  have happend : nested false (0 + 0) (_ ++ opening :: (expressionTokens check.sql ++ [closing])) =
      nested false 0 (opening :: (expressionTokens check.sql ++ [closing])) :=
    nested_append hwords (fun hc => by cases hc) _
  rw [nested_enclosed h []] at happend
  exact happend

theorem table_items_nested (hd : Declared doc table)
    (h : ∀ check ∈ table.checks.getD [], nested true 0 (expressionTokens check.sql) = true) :
    ∀ item ∈ tableItems doc table, nested false 0 item = true := by
  intro item hitem
  rcases List.mem_append.mp hitem with hitem | hcheck
  · exact (table_inert hd item hitem).closes
  · obtain ⟨check, hmem, rfl⟩ := List.mem_map.mp hcheck
    exact nested_check (h check hmem)

theorem table_found (hd : Declared doc table)
    (h : ∀ check ∈ table.checks.getD [], nested true 0 (expressionTokens check.sql) = true) :
    collectChecks [] (tableTokens doc table) = (table.checks.getD []).map fun check =>
      ⟨some (asciiLower check.name.toList), expressionTokens check.sql⟩ := by
  have hchecks : List.Forall₂ Found ((table.checks.getD []).map checkItem)
      ((table.checks.getD []).map fun check =>
        [⟨some (asciiLower check.name.toList), expressionTokens check.sql⟩]) := by
    rw [List.forall₂_map_left_iff, List.forall₂_map_right_iff, List.forall₂_same]
    exact fun check hcheck => found_check (h check hcheck)
  have hitems := found_intercalate (List.rel_append (forall₂_found (table_inert hd)) hchecks)
  have hcreate : Found (keywords ["create", "table"]) [] := found_free (by decide)
  have hname : Found [nameToken table.sqlName] [] := (inert_id _).found
  have hopening : Found [opening] [] := found_free (by decide)
  have hend : Found [closing, semicolon] [] := found_free (by decide)
  have hall := (hcreate.append (hname.append (hopening.append (hitems.append hend)))).collect
  have hempty : ((keyItems doc table).map fun _ => ([] : List PhysicalCheck)).flatten = [] := by
    simp
  rw [List.flatten_append, hempty] at hall
  have hflatten : ((table.checks.getD []).map fun check =>
      [(⟨some (asciiLower check.name.toList), expressionTokens check.sql⟩ : PhysicalCheck)]).flatten =
        (table.checks.getD []).map fun check =>
          ⟨some (asciiLower check.name.toList), expressionTokens check.sql⟩ := by
    rw [← List.flatMap_def]
    exact List.flatMap_pure_eq_map _ _
  rw [hflatten] at hall
  simpa [tableTokens, tableItems] using hall

theorem static_semicolon {sql : String} (h : Static sql) {e : List Token}
    (he : fragmentTokens sql = some e) : semicolon ∉ e := by
  intro hmem
  have hchar := sym_chars (toOption_eq_some.mp he) hmem ';' (List.mem_singleton_self _)
  obtain ⟨hall, -⟩ := Bool.and_eq_true_iff.mp h
  have := List.all_eq_true.mp hall ';' hchar
  simp at this

/-- A check that is found in the statement closes what it opens, for the statement ends with
a separator. -/
theorem nested_of_found {check : Check} (hstatic : Static check.sql)
    (hread : (fragmentTokens check.sql).isSome = true) {name : Option (List Char)}
    (h : ⟨name, expressionTokens check.sql⟩ ∈ collectChecks [] (tableTokens doc table)) :
    nested true 0 (expressionTokens check.sql) = true := by
  rcases collectChecks_cases h with hnested | hsuffix
  · exact hnested
  · dsimp only at hsuffix
    obtain ⟨before, hbefore⟩ := hsuffix
    rcases List.eq_nil_or_concat (expressionTokens check.sql) with hnil | ⟨e, t, he⟩
    · rw [hnil]
      rfl
    · have hlast : (tableTokens doc table).getLast? = some semicolon := by
        have hsplit : tableTokens doc table = (keywords ["create", "table"] ++
            nameToken table.sqlName :: opening ::
              ([comma].intercalate (tableItems doc table) ++ [closing])) ++ [semicolon] := by
          simp [tableTokens]
        rw [hsplit, List.getLast?_concat]
      rw [← hbefore, he, List.concat_eq_append, ← List.append_assoc, List.getLast?_concat] at hlast
      have hmem : semicolon ∈ expressionTokens check.sql := by
        rw [he, Option.some.inj hlast]
        simp
      exact absurd hmem (static_semicolon hstatic (expressionTokens_eq hread))

end Table

/-- The statement of a table, read back, is a `CREATE TABLE` with the columns and constraints
that the table declares and without table options, and its checks are the declared ones. -/
def TableContained (doc : Declarations) (table : TableDecl) : Prop :=
  ∃ sql ts items checks, emitCreateTableSql doc table = some sql ∧
    canonicalSqlTokens sql.toList = .ok ts ∧
    declaredItems doc table = some items ∧
    readCreateTable ts = some ⟨nameToken table.sqlName, items⟩ ∧
    declaredChecks table = some checks ∧ physicalChecks ts = sortCanonical PhysicalCheck.json checks

/-- A fragment closes what it opens, and has commas outside of parentheses only where
`commas` allows it. -/
def Encloses (commas : Bool) (sql : String) : Prop :=
  ∃ e, fragmentTokens sql = some e ∧ nested commas 0 e = true

instance (commas : Bool) (sql : String) : Decidable (Encloses commas sql) :=
  decidable_of_iff ((fragmentTokens sql).any (nested commas 0) = true) (Option.any_eq_true _ _)

theorem Encloses.tokens {commas : Bool} {sql : String} (h : Encloses commas sql) :
    (fragmentTokens sql).isSome = true ∧ nested commas 0 (expressionTokens sql) = true := by
  obtain ⟨e, he, hnested⟩ := h
  rw [expressionTokens, he]
  exact ⟨rfl, hnested⟩

theorem table_contained_iff {doc : Declarations} (hdoc : validateDeclarations doc = [])
    {table : TableDecl} (ht : table ∈ doc.tables) :
    TableContained doc table ↔ ∀ check ∈ table.checks.getD [], Encloses true check.sql := by
  have hd := validate_declared hdoc ht
  refine ⟨?_, fun h => ?_⟩
  · rintro ⟨sql, ts, items, checks, hsql, hts, -, -, hdeclared, hphysical⟩ check hcheck
    have hsome : ∀ check ∈ table.checks.getD [], (fragmentTokens check.sql).isSome = true := by
      intro check hcheck
      obtain ⟨b, hb⟩ := mapM_isSome hdeclared check hcheck
      obtain ⟨e, he, -⟩ := Option.map_eq_some_iff.mp hb
      rw [he]
      rfl
    obtain ⟨sql', hsql', hts'⟩ := table_tokens hdoc ht hsome
    obtain rfl := Option.some.inj (hsql.symm.trans hsql')
    obtain rfl := Except.ok.inj (hts.symm.trans hts')
    obtain rfl := Option.some.inj (hdeclared.symm.trans (declaredChecks_eq hsome))
    have hmem := (mem_sortCanonical PhysicalCheck.json).mpr (List.mem_map_of_mem
      (f := fun check : Check => (⟨some (asciiLower check.name.toList),
        expressionTokens check.sql⟩ : PhysicalCheck)) hcheck)
    rw [← hphysical] at hmem
    exact ⟨_, expressionTokens_eq (hsome check hcheck),
      nested_of_found (hd.checks check hcheck).2 (hsome check hcheck) ((mem_sortCanonical _).mp hmem)⟩
  · have hsome := fun check hcheck => (h check hcheck).tokens.1
    have hnested := fun check hcheck => (h check hcheck).tokens.2
    obtain ⟨sql, hsql, hts⟩ := table_tokens hdoc ht hsome
    refine ⟨sql, _, _, _, hsql, hts, declaredItems_eq hsome, ?_, declaredChecks_eq hsome, ?_⟩
    · have hne : tableItems doc table ≠ [] := by
        simp [tableItems, keyItems, hd.columns_ne_nil]
      have hread := readItems_items hne (table_items_nested hd hnested) [semicolon]
      have htokens : tableTokens doc table = .keyword "create" :: .keyword "table" ::
          nameToken table.sqlName :: opening ::
            ([comma].intercalate (tableItems doc table) ++ closing :: [semicolon]) := rfl
      rw [htokens, readCreateTable, if_pos ⟨rfl, rfl, rfl⟩, hread]
      exact if_pos rfl
    · rw [physicalChecks, table_found hd hnested]

/-! ## An index as a whole -/

def termItem (table : TableDecl) (term : IndexTerm) : List Token := (termTokens table term).getD []

def filterTokens (index : Index) : List Token :=
  match index.filter with
  | none => []
  | some sql => .keyword "where" :: expressionTokens sql

def indexTokens (table : TableDecl) (index : Index) : List Token :=
  keywords ["create"] ++ ((if index.unique then keywords ["unique"] else []) ++
    (keywords ["index"] ++ nameToken index.name :: .keyword "on" :: nameToken table.sqlName ::
      opening :: ([comma].intercalate (index.terms.map (termItem table)) ++ closing ::
        (filterTokens index ++ [semicolon]))))

/-- Every fragment of the index is read to its end. -/
structure IndexReads (index : Index) : Prop where
  terms : ∀ sql, .expression sql ∈ index.terms → (fragmentTokens sql).isSome = true
  filter : ∀ sql, index.filter = some sql → (fragmentTokens sql).isSome = true

section Index

variable {doc : Declarations} {table : TableDecl} {index : Index}

theorem termTokens_eq (h : IndexReads index) {term : IndexTerm} (hterm : term ∈ index.terms) :
    termTokens table term = some (termItem table term) := by
  unfold termItem
  cases term with
  | column column direction => rfl
  | expression sql =>
      rw [termTokens, expressionTokens_eq (h.terms sql hterm)]
      rfl

theorem declaredTerms_eq (h : IndexReads index) :
    declaredTerms table index = some (index.terms.map (termItem table)) :=
  mapM_eq_map fun _ hterm => termTokens_eq h hterm

theorem declaredFilter_eq (h : IndexReads index) :
    declaredFilter index = some (index.filter.map expressionTokens) := by
  unfold declaredFilter
  cases hfilter : index.filter with
  | none => rfl
  | some sql =>
      dsimp only
      rw [expressionTokens_eq (h.filter sql hfilter)]
      rfl

theorem tail_direction (direction : Direction) : Tail (" " ++ direction.text)
    [match direction with
      | .asc => .keyword "asc"
      | .desc => .keyword "desc"] := by
  cases direction <;>
    exact tail_word (by simp [wordTexts, keywords, Direction.text]) (by decide)

theorem open_term (hd : Declared doc table) {term : IndexTerm} (hterm : DeclaredTerm table term)
    {ts : List Token} (hts : termTokens table term = some ts) :
    ∃ sql, indexTermSql table term = some sql ∧ Open sql.toList ts := by
  cases term with
  | column column direction =>
      obtain ⟨c, hc⟩ := columnByName_of_has hterm
      have hopen := open_quoteIdentifier (hd.columns c (columnByName_spec hc).1)
      have hname : columnSqlName table.toTable column = c.sqlName := by
        rw [columnSqlName, hc]
        rfl
      refine ⟨_, by rw [indexTermSql, hc, Option.map_some], ?_⟩
      obtain rfl := Option.some.inj hts
      rw [hname]
      have hread := open_tail hopen (tail_direction direction)
      simp only [toString_text, String.append_assoc] at hread ⊢
      exact hread
  | expression sql =>
      exact ⟨sql, rfl, open_of_tokens (static_commentless hterm) (toOption_eq_some.mp hts)⟩

theorem index_tokens (hd : Declared doc table) (hindex : index ∈ table.indexes.getD [])
    (h : IndexReads index) : ∃ sql, emitCreateIndexSql table index = some sql ∧
      canonicalSqlTokens sql.toList = .ok (indexTokens table index) := by
  have hi := hd.indexes index hindex
  obtain ⟨terms, hterms, -, hopen⟩ := mapM_forall₂ (P := fun _ => True)
    (R := fun (text : String) ts => Open text.toList ts) (f := indexTermSql table)
    (g := termItem table) (l := index.terms) fun term hterm => by
      obtain ⟨sql, hsql, hopen⟩ := open_term hd (hi.terms term hterm) (termTokens_eq h hterm)
      exact ⟨sql, hsql, trivial, hopen⟩
  have hitems := open_intercalate ", " (closed_piece (by simp [pieceTexts, keywords]))
    (by decide) hopen
  have hcreate : Closed "CREATE ".toList (keywords ["create"]) := closed_piece (by simp [pieceTexts, keywords])
  have hword : Closed "INDEX ".toList (keywords ["index"]) := closed_piece (by simp [pieceTexts, keywords])
  have hon : Closed " ON ".toList (keywords ["on"]) := closed_piece (by simp [pieceTexts, keywords])
  have hbracket : Closed " (".toList [opening] := closed_piece (by simp [pieceTexts, keywords])
  have hunique : Closed (if index.unique then "UNIQUE " else "").toList
      (if index.unique then keywords ["unique"] else []) := by
    split_ifs
    · exact closed_piece (by simp [pieceTexts, keywords])
    · exact closed_nil
  have hend : Tail ";" [semicolon] := tail_piece (by simp [pieceTexts, keywords]) (by decide)
  have hfilter : Tail ((index.filter.map fun filter => " WHERE " ++ filter).getD "")
      (filterTokens index) := by
    unfold filterTokens
    cases hfilter : index.filter with
    | none => exact Tail.nil
    | some sql =>
        have hwhere : Closed " WHERE ".toList (keywords ["where"]) :=
          closed_piece (by simp [pieceTexts, keywords])
        exact closed_tail hwhere (by decide)
          (open_of_tokens (static_commentless (hi.filter sql hfilter))
            (toOption_eq_some.mp (expressionTokens_eq (h.filter sql hfilter))))
  have hread := closed_open hcreate (closed_open hunique (closed_open hword
    (open_tail (open_quoteIdentifier hi.name) (closed_tail hon (by decide)
      (open_tail (open_quoteIdentifier hd.sqlName) (closed_tail hbracket (by decide)
        (open_tail hitems (tail_closing.append (hfilter.append hend)))))))))
  refine ⟨_, by rw [emitCreateIndexSql, hterms, Option.map_some], ?_⟩
  have htokens := hread.tokens
  simp only [toString_text, String.append_assoc] at htokens ⊢
  exact htokens

theorem readIndex_items (h : ∀ item ∈ index.terms.map (termItem table), nested false 0 item = true)
    (hne : index.terms ≠ []) (hfilter : ∀ sql, index.filter = some sql →
      semicolon ∉ expressionTokens sql) :
    readCreateIndex (indexTokens table index) = some ⟨index.unique, nameToken index.name,
      nameToken table.sqlName, index.terms.map (termItem table),
      index.filter.map expressionTokens⟩ := by
  have hread := readItems_items (by simpa using hne) h (filterTokens index ++ [semicolon])
  have hend : readFilter (filterTokens index ++ [semicolon]) =
      some (index.filter.map expressionTokens) := by
    unfold filterTokens
    cases hwhere : index.filter with
    | none => rfl
    | some sql =>
        have hnone := hfilter sql hwhere
        rw [List.cons_append, readFilter, if_neg (by simp), if_pos]
        · simp
        · simpa using hnone
  have hbody : readIndexBody index.unique (.keyword "index" :: nameToken index.name ::
      .keyword "on" :: nameToken table.sqlName :: opening ::
        ([comma].intercalate (index.terms.map (termItem table)) ++ closing ::
          (filterTokens index ++ [semicolon]))) = some ⟨index.unique, nameToken index.name,
      nameToken table.sqlName, index.terms.map (termItem table),
      index.filter.map expressionTokens⟩ := by
    rw [readIndexBody, if_pos ⟨rfl, rfl, rfl⟩, hread]
    dsimp only
    rw [hend]
    rfl
  unfold indexTokens
  cases hunique : index.unique with
  | true =>
      rw [hunique] at hbody
      change readCreateIndex (.keyword "create" :: .keyword "unique" :: _) = _
      rw [readCreateIndex, if_pos rfl, if_pos rfl]
      exact hbody
  | false =>
      rw [hunique] at hbody
      change readCreateIndex (.keyword "create" :: .keyword "index" :: _) = _
      rw [readCreateIndex, if_pos rfl, if_neg (by decide)]
      exact hbody

/-- Whatever is read as an index has terms that close what they open. -/
theorem readIndex_nested {ts : List Token} {statement : IndexStatement}
    (h : readCreateIndex ts = some statement) :
    ∀ item ∈ statement.terms, nested false 0 item = true := by
  have hbody {unique : Bool} {ts : List Token} (h : readIndexBody unique ts = some statement) :
      ∀ item ∈ statement.terms, nested false 0 item = true := by
    unfold readIndexBody at h
    split at h
    · split_ifs at h
      split at h
      · rename_i terms rest hitems
        obtain ⟨filter, -, rfl⟩ := Option.map_eq_some_iff.mp h
        obtain ⟨e, others, hterms, he, hothers, -⟩ := readItems_some hitems
        dsimp only
        rw [hterms, List.nil_append]
        exact List.forall_mem_cons.mpr ⟨he, hothers⟩
      · cases h
    · cases h
  unfold readCreateIndex at h
  split at h
  · split_ifs at h
    · exact hbody h
    · exact hbody h
  · cases h

end Index

/-- The statement of an index, read back, is one `CREATE INDEX` with the declared terms and the
declared predicate. -/
def IndexContained (table : TableDecl) (index : Index) : Prop :=
  ∃ sql ts terms filter, emitCreateIndexSql table index = some sql ∧
    canonicalSqlTokens sql.toList = .ok ts ∧
    declaredTerms table index = some terms ∧ declaredFilter index = some filter ∧
    readCreateIndex ts = some ⟨index.unique, nameToken index.name, nameToken table.sqlName, terms,
      filter⟩

theorem index_contained_iff {doc : Declarations} (hdoc : validateDeclarations doc = [])
    {table : TableDecl} (ht : table ∈ doc.tables) {index : Index}
    (hindex : index ∈ table.indexes.getD []) :
    IndexContained table index ↔
      (∀ sql, .expression sql ∈ index.terms → Encloses false sql) ∧
        ∀ sql, index.filter = some sql → (fragmentTokens sql).isSome = true := by
  have hd := validate_declared hdoc ht
  have hi := hd.indexes index hindex
  refine ⟨?_, fun h => ?_⟩
  · rintro ⟨sql, ts, terms, filter, hsql, hts, hterms, hfilter, hread⟩
    have hreads : IndexReads index := by
      refine ⟨fun sql hterm => ?_, fun sql hsql => ?_⟩
      · obtain ⟨ts, hts⟩ := mapM_isSome hterms _ hterm
        rw [termTokens] at hts
        rw [hts]
        rfl
      · rw [declaredFilter, hsql] at hfilter
        obtain ⟨e, he, -⟩ := Option.map_eq_some_iff.mp hfilter
        rw [he]
        rfl
    refine ⟨fun sql hterm => ?_, hreads.filter⟩
    obtain rfl := Option.some.inj (hterms.symm.trans (declaredTerms_eq hreads))
    refine ⟨_, expressionTokens_eq (hreads.terms sql hterm), ?_⟩
    exact readIndex_nested hread _ (List.mem_map_of_mem (f := termItem table) hterm)
  · obtain ⟨hterms, hfilter⟩ := h
    have hreads : IndexReads index := ⟨fun sql hterm => (hterms sql hterm).tokens.1, hfilter⟩
    obtain ⟨sql, hsql, hts⟩ := index_tokens hd hindex hreads
    refine ⟨sql, _, _, _, hsql, hts, declaredTerms_eq hreads, declaredFilter_eq hreads, ?_⟩
    refine readIndex_items (fun item hitem => ?_) hi.terms_ne_nil fun sql hsql =>
      static_semicolon (hi.filter sql hsql) (expressionTokens_eq (hfilter sql hsql))
    obtain ⟨term, hterm, rfl⟩ := List.mem_map.mp hitem
    cases term with
    | column column direction =>
        refine nested_words fun t ht => ?_
        cases direction <;>
          · simp only [termItem, termTokens, Option.getD_some, List.mem_cons, List.not_mem_nil,
              or_false] at ht
            rcases ht with rfl | rfl <;> refine ⟨?_, ?_, ?_⟩ <;> intro h <;> cases h
    | expression sql => exact (hterms sql hterm).tokens.2

/-- The statements contain the fragments of authors exactly where these close what they open,
and separate no terms of an index. -/
theorem fragments_contained_iff {doc : Declarations} (hdoc : validateDeclarations doc = [])
    {table : TableDecl} (ht : table ∈ doc.tables) :
    (TableContained doc table ↔ ∀ check ∈ table.checks.getD [], Encloses true check.sql) ∧
      ∀ index ∈ table.indexes.getD [], (IndexContained table index ↔
        (∀ sql, .expression sql ∈ index.terms → Encloses false sql) ∧
          ∀ sql, index.filter = some sql → (fragmentTokens sql).isSome = true) :=
  ⟨table_contained_iff hdoc ht, fun _ hindex => index_contained_iff hdoc ht hindex⟩

/-- Accounts, with a check of the balance and an index over one expression. -/
def accounts (check term : String) : Declarations where
  tables :=
    [{ name := "account", sqlName := "account"
       columns := [
         { name := "id", sqlName := "id", type := .integer, nullable := false
           primaryKey := true, unique := false, default := none },
         { name := "balance", sqlName := "balance", type := .integer, nullable := false
           primaryKey := false, unique := false, default := some ⟨"integer", "0"⟩ }]
       primaryKey := ["id"], uniques := [], defaults := [], autoincrement := []
       foreignKeys := none, checks := some [⟨"covered", check⟩]
       indexes := some [⟨"account_balance", false, [.expression term], some "balance > 0"⟩] }]
  queries := []

theorem accounts_contained : ∃ table ∈ (accounts "balance >= 0" "abs(balance)").tables,
    TableContained (accounts "balance >= 0" "abs(balance)") table ∧
      ∀ index ∈ table.indexes.getD [], IndexContained table index := by
  have hdoc : validateDeclarations (accounts "balance >= 0" "abs(balance)") = [] := by
    decide +kernel
  have hmem := List.getElem_mem (l := (accounts "balance >= 0" "abs(balance)").tables) (n := 0)
    (by decide)
  obtain ⟨htable, hindexes⟩ := fragments_contained_iff hdoc hmem
  have hchecks : ∀ check ∈ [(⟨"covered", "balance >= 0"⟩ : Check)], Encloses true check.sql := by
    decide +kernel
  refine ⟨_, hmem, htable.mpr hchecks, fun index hindex =>
    (hindexes index hindex).mpr ?_⟩
  obtain rfl := List.mem_singleton.mp hindex
  refine ⟨fun sql hsql => ?_, fun sql hsql => ?_⟩
  · obtain rfl := IndexTerm.expression.inj (List.mem_singleton.mp hsql)
    decide +kernel
  · obtain rfl := Option.some.inj hsql
    decide +kernel

/-- A check that closes the generated parenthesis adds one that is not declared. -/
theorem accounts_not_contained :
    validateDeclarations (accounts "balance >= 0), CHECK (id > 0" "id") = [] ∧
      ¬∀ table ∈ (accounts "balance >= 0), CHECK (id > 0" "id").tables, TableContained
        (accounts "balance >= 0), CHECK (id > 0" "id") table := by
  have hdoc : validateDeclarations (accounts "balance >= 0), CHECK (id > 0" "id") = [] := by
    decide +kernel
  refine ⟨hdoc, fun h => ?_⟩
  have htable := List.getElem_mem (l := (accounts "balance >= 0), CHECK (id > 0" "id").tables)
    (n := 0) (by decide)
  have hcontained := (table_contained_iff hdoc htable).mp (h _ htable) _ (List.mem_singleton_self _)
  revert hcontained
  decide +kernel

end Esdb.Schema
