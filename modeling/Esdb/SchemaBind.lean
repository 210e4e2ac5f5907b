import Esdb.SchemaCardinality

/-!
# Placeholders and parameters

The printer of a statement writes its placeholders, another traversal lists the
parameters that are bound to them, and the generated method takes the values from its
arguments and the fields of a struct. The three orders agree: an emitted statement is
taken apart into clauses, each with the columns that its placeholders stand for.
-/
namespace Esdb.Schema

/-! ## Placeholders of a text -/

/-- The placeholders of a text, given the quote that is open before it. -/
def placeholdersFrom : Option Char → List Char → ℕ
  | _, [] => 0
  | none, c :: s =>
      if c = '?' then placeholdersFrom none s + 1
      else if c = '"' ∨ c = '\'' then placeholdersFrom (some c) s
      else placeholdersFrom none s
  | some q, c :: s => placeholdersFrom (if c = q then none else some q) s

def placeholders (text : String) : ℕ := placeholdersFrom none text.toList

/-- The text adds `n` placeholders to what follows it, and leaves no quote open. -/
def Adds (text : String) (n : ℕ) : Prop :=
  ∀ rest, placeholdersFrom none (text.toList ++ rest) = placeholdersFrom none rest + n

theorem Adds.placeholders {text : String} {n : ℕ} (h : Adds text n) : placeholders text = n := by
  have hnil := h []
  rw [List.append_nil] at hnil
  rw [Schema.placeholders, hnil, placeholdersFrom, Nat.zero_add]

theorem Adds.append {s t : String} {m n : ℕ} (hs : Adds s m) (ht : Adds t n) :
    Adds (s ++ t) (m + n) := by
  intro rest
  rw [String.toList_append, List.append_assoc, hs, ht]
  omega

theorem adds_empty : Adds "" 0 := fun _ => rfl

def unquoted (text : String) : Bool := text.toList.all fun c => c ≠ '"' && c ≠ '\''

theorem adds_unquoted {text : String} (h : unquoted text = true) :
    Adds text (text.toList.count '?') := by
  rw [unquoted, List.all_eq_true] at h
  simp only [Bool.and_eq_true, decide_eq_true_eq] at h
  unfold Adds
  intro rest
  generalize text.toList = s at h
  induction s with
  | nil => rfl
  | cons c s ih =>
      obtain ⟨hc, hs⟩ := List.forall_mem_cons.mp h
      rw [List.cons_append, placeholdersFrom, List.count_cons]
      by_cases hhole : c = '?'
      · rw [if_pos hhole, ih hs, if_pos (beq_iff_eq.mpr hhole)]
        omega
      · rw [if_neg hhole, if_neg (not_or.mpr hc), ih hs, if_neg (by simpa using hhole)]
        rfl

theorem adds_literal (text : String) (h : unquoted text = true) :
    Adds text (text.toList.count '?') := adds_unquoted h

theorem placeholdersFrom_quoted {s rest : List Char} (h : '"' ∉ s) :
    placeholdersFrom (some '"') (s ++ '"' :: rest) = placeholdersFrom none rest := by
  induction s with
  | nil => rfl
  | cons c s ih =>
      rw [List.mem_cons, not_or] at h
      rw [List.cons_append, placeholdersFrom, if_neg (Ne.symm h.1), ih h.2]

theorem adds_quoteIdentifier {name : String} (h : isIdentifier name = true) :
    Adds (quoteIdentifier name) 0 := by
  intro rest
  have hquote : '"' ∉ name.toList := by
    intro hmem
    rcases isIdentifier_chars h _ hmem with halnum | hunder
    · exact absurd halnum (by decide)
    · exact absurd hunder (by decide)
  have htext : (quoteIdentifier name).toList = '"' :: (name.toList ++ ['"']) := by
    simp only [quoteIdentifier, toString, String.toList_append]
    rfl
  rw [htext, List.cons_append, List.append_assoc, placeholdersFrom, if_neg (by decide),
    if_pos (Or.inl rfl), List.singleton_append, placeholdersFrom_quoted hquote, Nat.add_zero]

/-! ## Clauses -/

/-- What a placeholder stands for. -/
inductive Hole where
  | column (name : ColumnName)
  | limit
  | offset
  deriving DecidableEq, Repr

inductive Clause where
  /-- Text without placeholders. -/
  | plain (text : String)
  | compared (name : ColumnName)
  | assigned (column : String)
  /-- The columns of an `INSERT`, with as many values. -/
  | inserted (columns : List String)
  | limit
  | offset
  deriving DecidableEq, Repr

def placeholderList (columns : List String) : String := ",".intercalate (columns.map fun _ => "?")

def Clause.text : Clause → String
  | .plain text => text
  | .compared name => s!"{name.text} = ?"
  | .assigned column => assignmentText column
  | .inserted columns =>
      s!" ({columnList columns}) VALUES ({placeholderList columns})"
  | .limit => " LIMIT ?"
  | .offset => " OFFSET ?"

def Clause.holes : Clause → List Hole
  | .plain _ => []
  | .compared name => [.column name]
  | .assigned column => [.column ⟨none, column⟩]
  | .inserted columns => columns.map fun column => .column ⟨none, column⟩
  | .limit => [.limit]
  | .offset => [.offset]

def textOf (clauses : List Clause) : String := String.join (clauses.map Clause.text)

def holesOf (clauses : List Clause) : List Hole := clauses.flatMap Clause.holes

def separated (separator : String) (clauses : List Clause) : List Clause :=
  clauses.intersperse (.plain separator)

def Select.clauses (s : Select) : List Clause :=
  let projection := ",".intercalate (s.projection.map ColumnName.text)
  let joins := String.join (s.joins.map JoinClause.text)
  let order := ", ".intercalate (s.orderBy.map fun p => s!"{p.1.text} {p.2.text}")
  .plain s!"SELECT {projection} FROM {quoteIdentifier s.table}{joins}" ::
    (if s.conditions.isEmpty then []
    else .plain " WHERE " :: separated " AND " (s.conditions.map .compared)) ++
    (if s.orderBy.isEmpty then [] else [.plain s!" ORDER BY {order}"]) ++
    (if s.limit then [.limit] else []) ++ (if s.offset then [.offset] else [])

def Insert.clauses (s : Insert) : List Clause :=
  [.plain s!"INSERT INTO {quoteIdentifier s.table}", .inserted s.columns] ++
    match s.onConflict with
    | none => []
    | some (target, none) => [.plain s!" ON CONFLICT ({columnList target}) DO NOTHING"]
    | some (target, some sets) =>
        .plain s!" ON CONFLICT ({columnList target}) DO UPDATE SET " ::
          separated ", " (sets.map .assigned)

def Statement.clauses : Statement → List Clause
  | .select s => s.clauses
  | .insert s => s.clauses
  | .update table set conditions =>
      .plain s!"UPDATE {quoteIdentifier table} SET " :: separated ", " (set.map .assigned) ++
        .plain " WHERE " ::
          separated " AND " (conditions.map fun column => .compared ⟨none, column⟩)
  | .delete table conditions =>
      .plain s!"DELETE FROM {quoteIdentifier table} WHERE " ::
        separated " AND " (conditions.map fun column => .compared ⟨none, column⟩)

theorem textOf_cons (c : Clause) (cs : List Clause) : textOf (c :: cs) = c.text ++ textOf cs := by
  apply String.toList_injective
  simp [textOf]

theorem textOf_append (cs ds : List Clause) : textOf (cs ++ ds) = textOf cs ++ textOf ds := by
  apply String.toList_injective
  simp [textOf]

theorem textOf_separated (separator : String) (cs : List Clause) :
    textOf (separated separator cs) = separator.intercalate (cs.map Clause.text) := by
  induction cs with
  | nil => rfl
  | cons c cs ih =>
      cases cs with
      | nil =>
          rw [List.map_singleton, String.intercalate_singleton]
          exact (textOf_cons c []).trans (String.append_empty)
      | cons d ds =>
          rw [List.map_cons, List.map_cons, String.intercalate_cons_cons, ← List.map_cons, ← ih,
            String.append_assoc]
          exact (textOf_cons c _).trans (congrArg _ (textOf_cons (.plain separator) _))

theorem holesOf_separated (separator : String) (cs : List Clause) :
    holesOf (separated separator cs) = holesOf cs := by
  induction cs with
  | nil => rfl
  | cons c cs ih =>
      cases cs with
      | nil => rfl
      | cons d ds => exact congrArg (c.holes ++ ·) ih

@[simp] theorem Clause.text_plain (text : String) : (Clause.plain text).text = text := rfl

theorem toString_text (text : String) : toString text = text := rfl

theorem text_compared (columns : List String) :
    (columns.map fun column => (Clause.compared ⟨none, column⟩).text) =
      columns.map assignmentText := rfl

theorem textOf_plain (text : String) : textOf [.plain text] = text :=
  (textOf_cons _ _).trans String.append_empty

theorem Select.text_eq (s : Select) : s.text = textOf s.clauses := by
  have hwhere : textOf (if s.conditions.isEmpty then []
      else .plain " WHERE " :: separated " AND " (s.conditions.map .compared)) =
      if s.conditions.isEmpty then ""
      else " WHERE " ++ " AND ".intercalate (s.conditions.map fun c => s!"{c.text} = ?") := by
    split_ifs
    · rfl
    · rw [textOf_cons, textOf_separated, List.map_map]
      rfl
  have horder (order : String) : textOf (if s.orderBy.isEmpty then [] else [.plain order]) =
      if s.orderBy.isEmpty then "" else order := by
    split_ifs
    · rfl
    · exact textOf_plain order
  have hlimit : textOf (if s.limit then [.limit] else []) = if s.limit then " LIMIT ?" else "" := by
    split_ifs <;> rfl
  have hoffset : textOf (if s.offset then [.offset] else []) =
      if s.offset then " OFFSET ?" else "" := by
    split_ifs <;> rfl
  rw [Select.text, Select.clauses]
  simp only [textOf_append, textOf_cons, List.cons_append, hwhere, horder, hlimit, hoffset,
    Clause.text_plain, toString_text, String.append_assoc]

theorem textOf_nil : textOf [] = "" := rfl

theorem Clause.text_inserted (columns : List String) :
    (Clause.inserted columns).text =
      " (" ++ (columnList columns ++
        (") VALUES (" ++ (",".intercalate (columns.map fun _ => "?") ++ ")"))) := by
  simp only [Clause.text, placeholderList, toString_text, String.append_assoc]

theorem Insert.text_eq (s : Insert) : s.text = textOf s.clauses := by
  obtain ⟨table, columns, _ | ⟨target, _ | sets⟩⟩ := s
  · unfold Insert.text Insert.clauses
    simp only [List.append_nil, textOf_cons, textOf_nil, Clause.text_plain, Clause.text_inserted,
      String.append_empty, toString_text, String.append_assoc]
  · unfold Insert.text Insert.clauses
    simp only [List.cons_append, List.nil_append, textOf_cons, textOf_nil, Clause.text_plain,
      Clause.text_inserted, String.append_empty, toString_text, String.append_assoc]
  · unfold Insert.text Insert.clauses
    simp only [List.cons_append, List.nil_append, textOf_cons, Clause.text_plain,
      Clause.text_inserted, toString_text, String.append_assoc, textOf_separated, List.map_map]
    rfl

/-- The text of a statement is that of its clauses. -/
theorem Statement.text_eq (s : Statement) : s.text = textOf s.clauses := by
  cases s with
  | select s => exact s.text_eq
  | insert s => exact s.text_eq
  | update table set conditions =>
      unfold Statement.text Statement.clauses
      simp only [textOf_cons, textOf_append, List.cons_append, textOf_separated, List.map_map,
        Clause.text_plain, toString_text, String.append_assoc]
      rfl
  | delete table conditions =>
      rw [Statement.text, Statement.clauses, textOf_cons, textOf_separated, List.map_map]
      rfl

/-! ## The placeholders of a statement -/

theorem adds_intercalate {separator : String} (hsep : Adds separator 0) {n : ℕ} {l : List String}
    (h : ∀ t ∈ l, Adds t n) : Adds (separator.intercalate l) (l.length * n) := by
  induction l with
  | nil =>
      rw [String.intercalate_nil, List.length_nil, Nat.zero_mul]
      exact adds_empty
  | cons t l ih =>
      obtain ⟨ht, hl⟩ := List.forall_mem_cons.mp h
      cases l with
      | nil =>
          rw [String.intercalate_singleton, List.length_singleton, Nat.one_mul]
          exact ht
      | cons u l =>
          have hall := (ht.append hsep).append (ih hl)
          rw [String.intercalate_cons_cons, List.length_cons, Nat.succ_mul, Nat.add_comm]
          exact hall

/-- The names are those that the validation admits. -/
def ColumnName.Valid (name : ColumnName) : Prop :=
  (∀ table ∈ name.table, isIdentifier table = true) ∧ isIdentifier name.column = true

def JoinClause.Valid (join : JoinClause) : Prop :=
  isIdentifier join.table = true ∧ ∀ p ∈ join.on, p.1.Valid ∧ p.2.Valid

def AllIdentifiers (names : List String) : Prop := ∀ name ∈ names, isIdentifier name = true

structure Select.Valid (s : Select) : Prop where
  projection : ∀ name ∈ s.projection, name.Valid
  table : isIdentifier s.table = true
  joins : ∀ join ∈ s.joins, join.Valid
  conditions : ∀ name ∈ s.conditions, name.Valid
  orderBy : ∀ p ∈ s.orderBy, p.1.Valid

structure Insert.Valid (s : Insert) : Prop where
  table : isIdentifier s.table = true
  columns : AllIdentifiers s.columns
  target : ∀ policy ∈ s.onConflict, AllIdentifiers policy.1
  sets : ∀ policy ∈ s.onConflict, ∀ sets ∈ policy.2, AllIdentifiers sets

def Statement.Valid : Statement → Prop
  | .select s => s.Valid
  | .insert s => s.Valid
  | .update table set conditions =>
      isIdentifier table = true ∧ AllIdentifiers set ∧ AllIdentifiers conditions
  | .delete table conditions => isIdentifier table = true ∧ AllIdentifiers conditions

theorem valid_column {column : String} (h : isIdentifier column = true) :
    ColumnName.Valid ⟨none, column⟩ := by
  refine ⟨fun table htable => ?_, h⟩
  cases htable

theorem ColumnName.Valid.adds {name : ColumnName} (h : name.Valid) : Adds name.text 0 := by
  obtain ⟨_ | table, column⟩ := name
  · exact adds_quoteIdentifier h.2
  · have hdot : Adds "." 0 := adds_unquoted (by decide)
    exact ((adds_quoteIdentifier (h.1 table rfl)).append hdot).append (adds_quoteIdentifier h.2)

theorem JoinClause.Valid.adds {join : JoinClause} (h : join.Valid) : Adds join.text 0 := by
  have hspace : Adds " " 0 := adds_unquoted (by decide)
  have hon : Adds " ON " 0 := adds_unquoted (by decide)
  have hand : Adds " AND " 0 := adds_unquoted (by decide)
  have hequals : Adds " = " 0 := adds_unquoted (by decide)
  have hkeyword : Adds (if join.kind = .left then "LEFT JOIN" else "INNER JOIN") 0 := by
    split_ifs
    · exact adds_unquoted (by decide)
    · exact adds_unquoted (by decide)
  have hpairs := adds_intercalate hand (l := join.on.map fun p => s!"{p.1.text} = {p.2.text}")
    (n := 0) (by
      intro t ht
      obtain ⟨p, hp, rfl⟩ := List.mem_map.mp ht
      exact (((h.2 p hp).1.adds).append hequals).append (h.2 p hp).2.adds)
  exact ((((hspace.append hkeyword).append hspace).append (adds_quoteIdentifier h.1)).append
    hon).append hpairs

theorem adds_columnList {columns : List String} (h : AllIdentifiers columns) :
    Adds (columnList columns) 0 := by
  have hcomma : Adds "," 0 := adds_unquoted (by decide)
  refine adds_intercalate hcomma (n := 0) fun t ht => ?_
  obtain ⟨name, hname, rfl⟩ := List.mem_map.mp ht
  exact adds_quoteIdentifier (h name hname)

/-- The clause's text has the placeholders it says. -/
def Clause.Valid (c : Clause) : Prop := Adds c.text c.holes.length

theorem valid_plain {text : String} (h : Adds text 0) : (Clause.plain text).Valid := h

theorem valid_compared {name : ColumnName} (h : name.Valid) : (Clause.compared name).Valid :=
  h.adds.append (t := " = ?") (n := 1) (adds_unquoted (by decide))

theorem valid_assigned {column : String} (h : isIdentifier column = true) :
    (Clause.assigned column).Valid :=
  (adds_quoteIdentifier h).append (t := " = ?") (n := 1) (adds_unquoted (by decide))

theorem valid_inserted {columns : List String} (h : AllIdentifiers columns) :
    (Clause.inserted columns).Valid := by
  have hopen : Adds " (" 0 := adds_unquoted (by decide)
  have hvalues : Adds ") VALUES (" 0 := adds_unquoted (by decide)
  have hclose : Adds ")" 0 := adds_unquoted (by decide)
  have hcomma : Adds "," 0 := adds_unquoted (by decide)
  have hholes := adds_intercalate hcomma (l := columns.map fun _ => "?") (n := 1) (by
    intro t ht
    obtain ⟨_, -, rfl⟩ := List.mem_map.mp ht
    exact adds_literal "?" (by decide))
  have hall := hopen.append ((adds_columnList h).append (hvalues.append (hholes.append hclose)))
  rw [Clause.Valid, Clause.text_inserted, Clause.holes, List.length_map]
  rw [List.length_map] at hall
  simpa using hall

theorem adds_textOf {cs : List Clause} (h : ∀ c ∈ cs, c.Valid) :
    Adds (textOf cs) (holesOf cs).length := by
  induction cs with
  | nil => exact adds_empty
  | cons c cs ih =>
      obtain ⟨hc, hcs⟩ := List.forall_mem_cons.mp h
      rw [textOf_cons, holesOf, List.flatMap_cons, List.length_append]
      exact Adds.append hc (ih hcs)

theorem valid_separated {separator : String} (hsep : Adds separator 0) {cs : List Clause}
    (h : ∀ c ∈ cs, c.Valid) : ∀ c ∈ separated separator cs, c.Valid := by
  induction cs with
  | nil => exact h
  | cons c cs ih =>
      cases cs with
      | nil => exact h
      | cons d ds =>
          obtain ⟨hc, hds⟩ := List.forall_mem_cons.mp h
          exact List.forall_mem_cons.mpr
            ⟨hc, List.forall_mem_cons.mpr ⟨valid_plain hsep, ih hds⟩⟩

theorem valid_map {α : Type} {f : α → Clause} {l : List α} (h : ∀ a ∈ l, (f a).Valid) :
    ∀ c ∈ l.map f, c.Valid := by
  intro c hc
  obtain ⟨a, ha, rfl⟩ := List.mem_map.mp hc
  exact h a ha

theorem Direction.adds (direction : Direction) : Adds direction.text 0 := by
  cases direction <;> exact adds_unquoted (by decide)

theorem adds_join {l : List String} (h : ∀ t ∈ l, Adds t 0) : Adds (String.join l) 0 := by
  induction l with
  | nil => exact adds_empty
  | cons t l ih =>
      obtain ⟨ht, hl⟩ := List.forall_mem_cons.mp h
      rw [String.join_cons]
      exact ht.append (ih hl)

theorem Select.Valid.clauses {s : Select} (h : s.Valid) : ∀ c ∈ s.clauses, c.Valid := by
  have hselect : Adds "SELECT " 0 := adds_unquoted (by decide)
  have hfrom : Adds " FROM " 0 := adds_unquoted (by decide)
  have hwhere : Adds " WHERE " 0 := adds_unquoted (by decide)
  have hand : Adds " AND " 0 := adds_unquoted (by decide)
  have hby : Adds " ORDER BY " 0 := adds_unquoted (by decide)
  have hspace : Adds " " 0 := adds_unquoted (by decide)
  have hcomma : Adds "," 0 := adds_unquoted (by decide)
  have hcommaSpace : Adds ", " 0 := adds_unquoted (by decide)
  have hprojection := adds_intercalate hcomma (l := s.projection.map ColumnName.text) (n := 0) (by
    intro t ht
    obtain ⟨name, hname, rfl⟩ := List.mem_map.mp ht
    exact (h.projection name hname).adds)
  have hjoins := adds_join (l := s.joins.map JoinClause.text) (by
    intro t ht
    obtain ⟨join, hjoin, rfl⟩ := List.mem_map.mp ht
    exact (h.joins join hjoin).adds)
  have horder := adds_intercalate hcommaSpace
    (l := s.orderBy.map fun p => s!"{p.1.text} {p.2.text}") (n := 0) (by
      intro t ht
      obtain ⟨p, hp, rfl⟩ := List.mem_map.mp ht
      exact ((h.orderBy p hp).adds.append hspace).append p.2.adds)
  intro c hc
  rw [Select.clauses] at hc
  simp only [List.mem_append, List.mem_cons] at hc
  rcases hc with (((rfl | hc) | hc) | hc) | hc
  · exact valid_plain ((((hselect.append hprojection).append hfrom).append
      (adds_quoteIdentifier h.table)).append hjoins)
  · split_ifs at hc
    · exact absurd hc List.not_mem_nil
    · rcases List.mem_cons.mp hc with rfl | hc
      · exact valid_plain hwhere
      · exact valid_separated hand (valid_map fun name hname =>
          valid_compared (h.conditions name hname)) c hc
  · split_ifs at hc
    · exact absurd hc List.not_mem_nil
    · rw [List.mem_singleton.mp hc]
      exact valid_plain (hby.append horder)
  · split_ifs at hc
    · rw [List.mem_singleton.mp hc]
      exact adds_literal " LIMIT ?" (by decide)
    · exact absurd hc List.not_mem_nil
  · split_ifs at hc
    · rw [List.mem_singleton.mp hc]
      exact adds_literal " OFFSET ?" (by decide)
    · exact absurd hc List.not_mem_nil

theorem Insert.Valid.clauses {s : Insert} (h : s.Valid) : ∀ c ∈ s.clauses, c.Valid := by
  have hinsert : Adds "INSERT INTO " 0 := adds_unquoted (by decide)
  have hconflict : Adds " ON CONFLICT (" 0 := adds_unquoted (by decide)
  have hnothing : Adds ") DO NOTHING" 0 := adds_unquoted (by decide)
  have hset : Adds ") DO UPDATE SET " 0 := adds_unquoted (by decide)
  have hcomma : Adds ", " 0 := adds_unquoted (by decide)
  obtain ⟨table, columns, _ | ⟨target, _ | sets⟩⟩ := s
  · exact List.forall_mem_cons.mpr ⟨hinsert.append (adds_quoteIdentifier h.table),
      List.forall_mem_singleton.mpr (valid_inserted h.columns)⟩
  · exact List.forall_mem_cons.mpr ⟨hinsert.append (adds_quoteIdentifier h.table),
      List.forall_mem_cons.mpr ⟨valid_inserted h.columns,
        List.forall_mem_singleton.mpr (valid_plain
          ((hconflict.append (adds_columnList (h.target _ rfl))).append hnothing))⟩⟩
  · exact List.forall_mem_cons.mpr ⟨hinsert.append (adds_quoteIdentifier h.table),
      List.forall_mem_cons.mpr ⟨valid_inserted h.columns,
        List.forall_mem_cons.mpr ⟨valid_plain
          ((hconflict.append (adds_columnList (h.target _ rfl))).append hset),
          valid_separated hcomma (valid_map fun column hcolumn =>
            valid_assigned (h.sets _ rfl _ rfl column hcolumn))⟩⟩⟩

theorem Statement.Valid.clauses {s : Statement} (h : s.Valid) : ∀ c ∈ s.clauses, c.Valid := by
  have hand : Adds " AND " 0 := adds_unquoted (by decide)
  have hcomma : Adds ", " 0 := adds_unquoted (by decide)
  have hwhere : Adds " WHERE " 0 := adds_unquoted (by decide)
  cases s with
  | select s => exact Select.Valid.clauses h
  | insert s => exact Insert.Valid.clauses h
  | update table set conditions =>
      have hupdate : Adds "UPDATE " 0 := adds_unquoted (by decide)
      have hset : Adds " SET " 0 := adds_unquoted (by decide)
      obtain ⟨htable, hsets, hconditions⟩ := h
      refine List.forall_mem_cons.mpr
        ⟨(hupdate.append (adds_quoteIdentifier htable)).append hset, ?_⟩
      refine List.forall_mem_append.mpr ⟨valid_separated hcomma (valid_map fun column hcolumn =>
        valid_assigned (hsets column hcolumn)), List.forall_mem_cons.mpr ⟨valid_plain hwhere, ?_⟩⟩
      exact valid_separated hand (valid_map fun column hcolumn =>
        valid_compared (valid_column (hconditions column hcolumn)))
  | delete table conditions =>
      have hdelete : Adds "DELETE FROM " 0 := adds_unquoted (by decide)
      refine List.forall_mem_cons.mpr
        ⟨(hdelete.append (adds_quoteIdentifier h.1)).append hwhere, ?_⟩
      exact valid_separated hand (valid_map fun column hcolumn =>
        valid_compared (valid_column (h.2 column hcolumn)))

/-- The placeholders of a statement's text are the holes of its clauses. -/
theorem Statement.Valid.placeholders {s : Statement} (h : s.Valid) :
    placeholders s.text = (holesOf s.clauses).length := by
  rw [s.text_eq]
  exact (adds_textOf h.clauses).placeholders

/-! ## Emission -/

/-- The placeholder stands for what is recorded of the parameter. -/
def Fills (ir : Document) (table : Table) (query : Query) : Hole → BindParam → Prop
  | .column name, param =>
      ∃ owner column, tableByName ir owner.name = some owner ∧
        columnByName owner column.name = some column ∧ param.table = some owner.name ∧
          param.column = some column.name ∧ param.type = column.type ∧
            name.column = column.sqlName ∧
              (name.table = some owner.sqlName ∨ name.table = none ∧ owner = table)
  | .limit, param =>
      query.limit = some param.name ∧ param.table = none ∧ param.column = none ∧
        param.type = .integer
  | .offset, param =>
      query.offset = some param.name ∧ param.table = none ∧ param.column = none ∧
        param.type = .integer

variable {ir : Document} {base : Table} {q : Query}

/-- The SQL names of an accepted document are identifiers. -/
structure SqlNames (ir : Document) : Prop where
  tables : ∀ t ∈ ir.tables, isIdentifier t.sqlName = true
  columns : ∀ t ∈ ir.tables, ∀ c ∈ t.columns, isIdentifier c.sqlName = true

theorem validate_sqlNames (h : validateDocument ir = []) : SqlNames ir := by
  unfold validateDocument at h
  rw [List.append_eq_nil_iff] at h
  have h := h.1
  unfold checkTables at h
  split_ifs at h with hempty
  have htable : ∀ t ∈ ir.tables, ∃ i, checkTable i t = [] := by
    intro t ht
    obtain ⟨i, hi⟩ := eachIdx_mem h ht
    rw [List.append_eq_nil_iff, List.append_eq_nil_iff] at hi
    exact ⟨i, hi.1.1⟩
  constructor
  · intro t ht
    obtain ⟨i, hi⟩ := htable t ht
    unfold checkTable at hi
    dsimp only at hi
    rw [List.append_eq_nil_iff, List.append_eq_nil_iff, demand_eq_nil, demand_eq_nil] at hi
    exact hi.1.2
  · intro t ht c hc
    obtain ⟨i, hi⟩ := htable t ht
    unfold checkTable at hi
    dsimp only at hi
    rw [List.append_eq_nil_iff] at hi
    have hi := hi.2
    split_ifs at hi with hcolumns
    rw [List.append_eq_nil_iff, List.append_eq_nil_iff] at hi
    have hi := hi.1.1
    unfold checkColumns at hi
    obtain ⟨j, hj⟩ := eachIdx_mem hi hc
    rw [List.append_eq_nil_iff, List.append_eq_nil_iff] at hj
    have hj := hj.1.1
    unfold checkColumn at hj
    rw [List.append_eq_nil_iff, demand_eq_nil, demand_eq_nil] at hj
    exact hj.2

theorem columnParam_eq (hn : Names ir) (hb : base ∈ ir.tables) {owner : Table}
    (ho : tableByName ir owner.name = some owner) {column : Column}
    (hc : columnByName owner column.name = some column) (param : String) :
    columnParam base ir owner.name column.name param =
      ⟨param, some owner.name, some column.name, column.type⟩ := by
  have hfound : (if owner.name = base.name then some base else tableByName ir owner.name) =
      some owner := by
    split_ifs with hsame
    · rw [hsame, hn.tableByName hb] at ho
      exact ho
    · exact ho
  simp only [columnParam, hfound, Option.map_some, Option.getD_some, Option.bind_some, hc]

/-- A column in scope is emitted under its SQL name, and its parameter recorded with it. -/
theorem emitColumn_fills (hn : Names ir) (hs : SqlNames ir) (hb : base ∈ ir.tables)
    {owner : Table} (ho : tableByName ir owner.name = some owner) {column : Column}
    (hc : columnByName owner column.name = some column) (qualified : Bool)
    (hq : qualified = true ∨ owner = base) (param : String) :
    ∃ name, emitColumn qualified owner column.name = some name ∧ name.Valid ∧
      Fills ir base q (.column name) (columnParam base ir owner.name column.name param) := by
  have hmem := (tableByName_spec ho).1
  have hcol := (columnByName_spec hc).1
  refine ⟨⟨if qualified then some owner.sqlName else none, column.sqlName⟩, ?_, ?_, ?_⟩
  · rw [emitColumn, hc]
    rfl
  · refine ⟨fun t ht => ?_, hs.columns owner hmem column hcol⟩
    cases qualified
    · cases ht
    · obtain rfl := Option.some.inj ht
      exact hs.tables owner hmem
  · rw [columnParam_eq hn hb ho hc]
    refine ⟨owner, column, ho, hc, rfl, rfl, rfl, rfl, ?_⟩
    cases qualified
    · exact Or.inr ⟨rfl, hq.resolve_left Bool.false_ne_true⟩
    · exact Or.inl rfl

theorem mapM_forall₂ {α β γ : Type} {f : α → Option β} {R : β → γ → Prop} {g : α → γ}
    {P : β → Prop} {l : List α} (h : ∀ a ∈ l, ∃ b, f a = some b ∧ P b ∧ R b (g a)) :
    ∃ bs, l.mapM f = some bs ∧ (∀ b ∈ bs, P b) ∧ List.Forall₂ R bs (l.map g) := by
  induction l with
  | nil => exact ⟨[], rfl, fun b hb => absurd hb List.not_mem_nil, .nil⟩
  | cons a l ih =>
      obtain ⟨ha, hl⟩ := List.forall_mem_cons.mp h
      obtain ⟨b, hb, hP, hR⟩ := ha
      obtain ⟨bs, hbs, hPs, hRs⟩ := ih hl
      refine ⟨b :: bs, ?_, List.forall_mem_cons.mpr ⟨hP, hPs⟩, .cons hR hRs⟩
      rw [List.mapM_cons, hb, hbs]
      rfl


theorem Scoped.unqualified (h : Scoped ir base q) (hn : Names ir) {owner : Table}
    (ho : tableByName ir owner.name = some owner) (hscope : owner.name ∈ q.scope) :
    (!(q.joins.getD []).isEmpty) = true ∨ owner = base := by
  rcases hjoins : q.joins.getD [] with _ | ⟨j, js⟩
  · rw [Query.scope, hjoins, List.map_nil, List.mem_singleton] at hscope
    have hbase := hn.tableByName h.mem
    rw [h.name, ← hscope, ho] at hbase
    exact Or.inr (Option.some.inj hbase)
  · exact Or.inl rfl

/-- What a reference of the query names, as table and column. -/
theorem declared {r : Ref} {column : Column} (hd : Declares ir r column) :
    ∃ owner, tableByName ir owner.name = some owner ∧ owner.name = r.1 ∧
      columnByName owner column.name = some column ∧ column.name = r.2 := by
  obtain ⟨owner, ho, hc⟩ := hd
  have hname := (tableByName_spec ho).2
  have hcolumn := (columnByName_spec hc).2
  refine ⟨owner, ?_, hname, ?_, hcolumn⟩
  · rw [hname]
    exact ho
  · rw [hcolumn]
    exact hc

theorem Scoped.emitCondition (h : Scoped ir base q) (hn : Names ir) (hs : SqlNames ir)
    {c : Condition} (hc : c ∈ q.filter.getD []) :
    ∃ name, emitCondition ir base (!(q.joins.getD []).isEmpty) c = some name ∧ name.Valid ∧
      Fills ir base q (.column name)
        (columnParam base ir (c.table.getD base.name) c.column c.param) := by
  obtain ⟨hscope, column, hd⟩ := h.refs _ (List.mem_map_of_mem hc)
  obtain ⟨owner, ho, hname, hcol, hcname⟩ := declared hd
  have hunq := h.unqualified hn ho (hname ▸ hscope)
  have hfills := emitColumn_fills (q := q) hn hs h.mem ho hcol _ hunq c.param
  change owner.name = c.table.getD q.table at hname
  change column.name = c.column at hcname
  rw [hcname, hname, ← h.name] at hfills
  obtain ⟨name, hemit, hvalid, hfill⟩ := hfills
  refine ⟨name, ?_, hvalid, hfill⟩
  rw [Schema.emitCondition]
  rcases htable : c.table with _ | t
  · rw [htable] at hname
    change owner.name = q.table at hname
    rw [hname, ← h.name, hn.tableByName h.mem] at ho
    obtain rfl := Option.some.inj ho
    exact hemit
  · rw [htable] at hname
    change owner.name = t at hname
    rw [hname] at ho
    change (tableByName ir t).bind _ = _
    rw [ho]
    exact hemit

theorem Scoped.emitOrderTerm (h : Scoped ir base q) (hn : Names ir) (hs : SqlNames ir)
    {t : OrderTerm} (ht : t ∈ q.orderBy.getD []) :
    ∃ p, emitOrderTerm ir base t = some p ∧ p.1.Valid := by
  obtain ⟨-, column, hd⟩ := h.orderRefs _ (List.mem_map_of_mem ht)
  obtain ⟨owner, ho, hname, hcol, hcname⟩ := declared hd
  have hfills := emitColumn_fills (q := q) hn hs h.mem ho hcol true (Or.inl rfl) ""
  change owner.name = t.table.getD q.table at hname
  change column.name = t.column at hcname
  rw [hcname] at hfills
  obtain ⟨name, hemit, hvalid, -⟩ := hfills
  refine ⟨(name, t.direction), ?_, hvalid⟩
  rw [Schema.emitOrderTerm]
  rcases htable : t.table with _ | table
  · rw [htable] at hname
    change owner.name = q.table at hname
    rw [hname, ← h.name, hn.tableByName h.mem] at ho
    obtain rfl := Option.some.inj ho
    change (emitColumn true base t.column).map _ = _
    rw [hemit]
    rfl
  · rw [htable] at hname
    change owner.name = table at hname
    rw [hname] at ho
    change (tableByName ir table).bind _ = _
    rw [ho, Option.bind_some, hemit]
    rfl

theorem emitJoinCondition_valid (hs : SqlNames ir) {c : JoinCondition} {left right : Column}
    (hl : Declares ir c.left.ref left) (hr : Declares ir c.right.ref right) :
    ∃ p, emitJoinCondition ir c = some p ∧ p.1.Valid ∧ p.2.Valid := by
  obtain ⟨lt, hlt, hlc⟩ := hl
  obtain ⟨rt, hrt, hrc⟩ := hr
  change tableByName ir c.left.table = some lt at hlt
  change tableByName ir c.right.table = some rt at hrt
  change columnByName lt c.left.column = some left at hlc
  change columnByName rt c.right.column = some right at hrc
  have hvalid (t : Table) (ht : t ∈ ir.tables) (column : Column) (hc : column ∈ t.columns) :
      ColumnName.Valid ⟨some t.sqlName, column.sqlName⟩ := by
    refine ⟨fun name hname => ?_, hs.columns t ht column hc⟩
    obtain rfl := Option.some.inj hname
    exact hs.tables t ht
  refine ⟨(⟨some lt.sqlName, left.sqlName⟩, ⟨some rt.sqlName, right.sqlName⟩), ?_,
    hvalid lt (tableByName_spec hlt).1 left (columnByName_spec hlc).1,
    hvalid rt (tableByName_spec hrt).1 right (columnByName_spec hrc).1⟩
  rw [emitJoinCondition, hlt, hrt]
  simp only [emitColumn, hlc, hrc, Option.map_some, if_true]

theorem Scoped.emitJoin (h : Scoped ir base q) (hs : SqlNames ir) {j : Join}
    (hj : j ∈ q.joins.getD []) : ∃ clause, emitJoin ir j = some clause ∧ clause.Valid := by
  obtain ⟨scope', hfacts, -⟩ := h.joins.mem hj
  obtain ⟨table, htable⟩ := hfacts.table
  obtain ⟨on, hon, hvalid, -⟩ := mapM_forall₂ (f := emitJoinCondition ir) (l := j.on)
    (P := fun p => p.1.Valid ∧ p.2.Valid) (R := fun _ _ => True) (g := fun _ => ()) (by
      intro c hc
      obtain ⟨left, right, hl, hr, -⟩ := hfacts.types c hc
      obtain ⟨p, hp, hv⟩ := emitJoinCondition_valid hs hl hr
      exact ⟨p, hp, hv, trivial⟩)
  refine ⟨⟨j.kind, table.sqlName, on⟩, ?_, hs.tables table (tableByName_spec htable).1, hvalid⟩
  rw [Schema.emitJoin, htable, Option.bind_some, hon]
  rfl

theorem holesOf_cons (c : Clause) (cs : List Clause) :
    holesOf (c :: cs) = c.holes ++ holesOf cs := List.flatMap_cons

theorem holesOf_append (cs ds : List Clause) : holesOf (cs ++ ds) = holesOf cs ++ holesOf ds :=
  List.flatMap_append

theorem holesOf_map {α : Type} (f : α → ColumnName) (g : α → Clause) (l : List α)
    (h : ∀ a, (g a).holes = [.column (f a)]) :
    holesOf (l.map g) = l.map fun a => .column (f a) := by
  induction l with
  | nil => rfl
  | cons a l ih => rw [List.map_cons, holesOf_cons, h, ih, List.map_cons, List.singleton_append]

theorem Select.holes (s : Select) :
    holesOf s.clauses = s.conditions.map .column ++ (if s.limit then [.limit] else []) ++
      (if s.offset then [.offset] else []) := by
  have hwhere : holesOf (if s.conditions.isEmpty then []
      else .plain " WHERE " :: separated " AND " (s.conditions.map .compared)) =
        s.conditions.map .column := by
    split_ifs with hempty
    · rw [List.isEmpty_iff.mp hempty]
      rfl
    · rw [holesOf_cons, holesOf_separated, holesOf_map id _ _ fun _ => rfl]
      rfl
  have horder (order : String) :
      holesOf (if s.orderBy.isEmpty then [] else [.plain order]) = [] := by
    split_ifs <;> rfl
  have hlimit : holesOf (if s.limit then [.limit] else []) =
      if s.limit then [.limit] else [] := by
    split_ifs <;> rfl
  have hoffset : holesOf (if s.offset then [.offset] else []) =
      if s.offset then [.offset] else [] := by
    split_ifs <;> rfl
  rw [Select.clauses]
  simp only [List.cons_append, holesOf_cons, holesOf_append, hwhere, horder, hlimit, hoffset,
    Clause.holes, List.nil_append, List.append_nil]

end Esdb.Schema
