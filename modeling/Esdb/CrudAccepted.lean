import Esdb.CrudDerive
import Esdb.SchemaDeclared
import Mathlib

/-!
# Derived queries that are accepted

A derived query is about a key of its table or about all the columns that have no default, so
what is demanded of conditions, values and keys holds of it. Its name and its parameters are
the names of columns, and these may be what no method and no parameter may be.
-/
namespace Esdb.CrudDerive

open Schema

/-! ## Tables of an accepted document -/

/-- A name of a column has no reserved form. -/
structure ColumnForms (name : String) : Prop where
  identifier : isIdentifier name = true
  logical : ∀ path label, checkLogicalIdentifier name path label = []

/-- What the validation promises of a table that queries are derived from. -/
structure Usable (ir : Document) (table : Table) : Prop where
  found : tableByName ir table.name = some table
  name : isIdentifier table.name = true
  names : (table.columns.map Column.name).Nodup
  columns : ∀ c ∈ table.columns, ColumnForms c.name
  primaryKey : ∀ n ∈ table.primaryKey, hasColumn table.columns n = true
  uniques : ∀ key ∈ table.uniques, ∀ n ∈ key, hasColumn table.columns n = true

theorem hasColumn_iff {columns : List Column} {name : String} :
    hasColumn columns name = true ↔ ∃ c ∈ columns, c.name = name := by
  simp [hasColumn]

theorem checkLogicalIdentifier_path {value path path' label label' : String}
    (h : checkLogicalIdentifier value path label = []) :
    checkLogicalIdentifier value path' label' = [] := by
  revert h
  unfold checkLogicalIdentifier
  refine (ite_congr_nil Iff.rfl (append_congr (append_congr demand_congr demand_congr) ?_)).mp
  split
  · exact Iff.rfl
  · exact singleton_congr

theorem checkLogicalIdentifier_forms {value path label : String} (hident : isIdentifier value = true)
    (h : checkLogicalIdentifier value path label = []) :
    toCamel value ∉ es3ReservedWords ∧ toSnake value ∉ cxxReservedWords := by
  unfold checkLogicalIdentifier at h
  rw [hident, Bool.not_true, if_neg Bool.false_ne_true] at h
  dsimp only at h
  rw [List.append_eq_nil_iff] at h
  have hnone : [toCamel value, toSnake value, toPascal value].find? isReservedForm = none := by
    rcases hfind : [toCamel value, toSnake value, toPascal value].find? isReservedForm with _ | form
    · rfl
    · rw [hfind] at h
      exact nomatch h.2
  simp only [List.find?_eq_none, List.forall_mem_cons, isReservedForm, Bool.or_eq_true,
    decide_eq_true_eq, not_or] at hnone
  exact ⟨hnone.1.1, hnone.2.1.2⟩

theorem checkTable_idents {i : ℕ} {table : Table} (h : checkTable i table = []) :
    isIdentifier table.name = true ∧ ∀ c ∈ table.columns, isIdentifier c.name = true := by
  have hcolumns := (checkTable_keys h).1
  unfold checkTable at h
  simp only [List.append_eq_nil_iff, demand_eq_nil] at h
  obtain ⟨⟨hname, -⟩, hrest⟩ := h
  refine ⟨hname, fun c hc => ?_⟩
  rw [if_neg (by simpa using hcolumns), List.append_eq_nil_iff, List.append_eq_nil_iff] at hrest
  obtain ⟨j, hj⟩ := eachIdx_mem hrest.1.1 hc
  simp only [checkColumn, List.append_eq_nil_iff, demand_eq_nil] at hj
  exact hj.1.1.1

theorem accepted_names {doc : NamedDocument} (h : TablesAccepted doc) :
    Names ⟨doc.tables.map TableDecl.toTable, []⟩ := by
  have hdocument : validateDocument ⟨doc.tables.map TableDecl.toTable, []⟩ = [] :=
    List.append_eq_nil_iff.mpr ⟨h.tables, rfl⟩
  exact validate_names hdocument

/-- The tables of an accepted document. -/
theorem usable_table {doc : NamedDocument} (h : TablesAccepted doc) {table : TableDecl}
    (ht : table ∈ doc.tables) (queries : List Query) :
    Usable ⟨doc.tables.map TableDecl.toTable, queries⟩ table.toTable := by
  have hmem : table.toTable ∈ doc.tables.map TableDecl.toTable := List.mem_map_of_mem ht
  have hnames : Names ⟨doc.tables.map TableDecl.toTable, []⟩ := accepted_names h
  have htables := h.tables
  unfold checkTables at htables
  split_ifs at htables
  obtain ⟨i, hi⟩ := eachIdx_mem htables hmem
  rw [List.append_eq_nil_iff, List.append_eq_nil_iff] at hi
  obtain ⟨hname, hidents⟩ := checkTable_idents hi.1.1
  obtain ⟨-, -, hprimary, huniques⟩ := checkTable_keys hi.1.1
  have hforms := h.forms
  unfold checkTableForms at hforms
  simp only [List.append_eq_nil_iff] at hforms
  obtain ⟨⟨⟨-, htable⟩, -⟩, -⟩ := hforms
  obtain ⟨j, hj⟩ := eachIdx_mem htable ht
  rw [List.append_eq_nil_iff, checkColumnForms, List.append_eq_nil_iff] at hj
  refine ⟨hnames.tableByName hmem, hname, (hnames.tables _ hmem).names, fun c hc => ?_, hprimary,
    fun key hkey => (huniques key hkey).2⟩
  obtain ⟨k, hk⟩ := eachIdx_mem hj.2.1 hc
  exact ⟨hidents c hc, fun path label => checkLogicalIdentifier_path hk⟩

theorem Usable.column {ir : Document} {table : Table} (h : Usable ir table) {name : String}
    (hname : hasColumn table.columns name = true) : ColumnForms name := by
  obtain ⟨c, hc, rfl⟩ := hasColumn_iff.mp hname
  exact h.columns c hc

/-! ## Parameters and methods -/

/-- A column that can be a parameter. -/
def ParamFits (column : String) : Prop :=
  toCamel column ∉ generatedLifecycleNames ∧ toSnake column ∉ generatedLifecycleNames

/-- A method that can be called. -/
def MethodFits (method : String) : Prop :=
  toCamel method ≠ "" ∧ toCamel method ∉ es3ReservedWords ∧ toCamel method ∉ cxxReservedWords ∧
    toCamel method ∉ generatedLifecycleNames

instance (column : String) : Decidable (ParamFits column) :=
  inferInstanceAs (Decidable (_ ∧ _))

instance (method : String) : Decidable (MethodFits method) :=
  inferInstanceAs (Decidable (_ ∧ _ ∧ _ ∧ _))

theorem checkParamName_path {path path' name : String} :
    checkParamName path name = [] ↔ checkParamName path' name = [] :=
  append_congr ⟨checkLogicalIdentifier_path, checkLogicalIdentifier_path⟩ demand_congr

theorem checkParamName_column {column : String} (h : ColumnForms column) :
    (∀ path, checkParamName path column = []) ↔ ParamFits column := by
  have hforms := checkLogicalIdentifier_forms h.identifier (h.logical "" "")
  have hparam (path : String) : checkParamName path column = [] ↔ ParamFits column := by
    unfold checkParamName ParamFits
    dsimp only
    rw [List.append_eq_nil_iff, demand_eq_nil]
    simp only [h.logical, true_and, Bool.and_eq_true, decide_eq_true_eq, hforms, not_false_eq_true]
  exact ⟨fun h => (hparam "").mp (h ""), fun h path => (hparam path).mpr h⟩

theorem isQueryName_crudName {table : Table} (h : isIdentifier table.name = true)
    (method : String) : isQueryName (crudName table method) = isIdentifier method := by
  obtain ⟨howner, hrest⟩ := crudName_owner h method
  unfold isQueryName
  rw [howner, hrest]
  change (isIdentifier table.name && isIdentifier method) = isIdentifier method
  rw [h, Bool.true_and]

theorem queryMethodName_crudName {table : Table} (h : isIdentifier table.name = true)
    (method : String) : queryMethodName (crudName table method) = toCamel method := by
  unfold queryMethodName
  rw [(crudName_owner h method).2]
  change toCamel (String.ofList method.toList) = toCamel method
  rw [String.ofList_toList]

theorem checkMethodName_crud {table : Table} (h : isIdentifier table.name = true) {method : String}
    (hmethod : isIdentifier method = true) {query : Query} (hname : query.name = crudName table method)
    (path : String) : checkMethodName query path = [] ↔ MethodFits method := by
  unfold checkMethodName
  rw [hname, isQueryName_crudName h, hmethod, Bool.not_true, if_neg Bool.false_ne_true,
    queryMethodName_crudName h]
  simp only [demand_eq_nil, Bool.and_eq_true, decide_eq_true_eq, MethodFits, and_assoc, ne_eq]

/-! ## Methods that are named after a column -/

theorem toUpper_alphanum {c : Char} (h : c.isAlphanum = true) : c.toUpper.isAlphanum = true := by
  have hall : ∀ k < 123, (Char.ofNat k).isAlphanum = true →
      (Char.ofNat k).toUpper.isAlphanum = true := by
    decide +kernel
  have hsmall : c.toNat < 123 := by
    have hval : c.toNat = c.val.toNat := rfl
    simp [Char.isAlphanum, Char.isAlpha, Char.isUpper, Char.isLower, Char.isDigit,
      UInt32.le_iff_toNat_le] at h
    omega
  have hc := hall c.toNat hsmall
  rw [Char.ofNat_toNat] at hc
  exact hc h

/-- No part of a list that was split has a place to split at. -/
theorem splitOnP_part {p : Char → Bool} {s : List Char} {part : List Char}
    (h : part ∈ s.splitOnP p) : ∀ c ∈ part, p c = false := by
  induction s generalizing part with
  | nil =>
      rw [List.splitOnP_nil, List.mem_singleton] at h
      exact h ▸ fun c hc => (nomatch hc)
  | cons d s ih =>
      rw [List.splitOnP_cons_eq_if_modifyHead] at h
      split_ifs at h with hd
      · rcases List.mem_cons.mp h with rfl | h
        · exact fun c hc => (nomatch hc)
        · exact ih h
      · obtain ⟨first, rest, hparts⟩ := List.exists_cons_of_ne_nil (List.splitOnP_ne_nil p s)
        rw [hparts, List.modifyHead_cons] at h
        rcases List.mem_cons.mp h with rfl | h
        · refine List.forall_mem_cons.mpr ⟨Bool.eq_false_iff.mpr hd, ih ?_⟩
          exact hparts ▸ List.mem_cons_self
        · exact ih (hparts ▸ List.mem_cons_of_mem first h)

theorem toPascal_alphanum (name : String) : ∀ c ∈ (toPascal name).toList, c.isAlphanum = true := by
  intro c hc
  rw [toPascal, String.toList_ofList] at hc
  obtain ⟨word, hword, hc⟩ := List.mem_flatMap.mp hc
  have hpart := splitOnP_part (List.mem_of_mem_filter hword)
  simp only [Bool.not_eq_false'] at hpart
  cases word with
  | nil => cases hc
  | cons d word =>
      rcases List.mem_cons.mp hc with rfl | hc
      · exact toUpper_alphanum (hpart d List.mem_cons_self)
      · exact hpart c (List.mem_cons_of_mem d hc)

/-- The name of such a method is short enough where the column's is. -/
theorem isIdentifier_findBy (column : String) :
    isIdentifier (findBy column) = true ↔ (toPascal column).length ≤ 58 := by
  have halnum := toPascal_alphanum column
  have hchars : (findBy column).toList =
      'f' :: ('i' :: 'n' :: 'd' :: 'B' :: 'y' :: (toPascal column).toList) := by
    rw [findBy, String.toList_append]
    rfl
  have hall : ('i' :: 'n' :: 'd' :: 'B' :: 'y' :: (toPascal column).toList).all
      (fun d => d.isAlphanum || d == '_') = true := by
    rw [List.all_eq_true]
    intro d hd
    simp only [List.mem_cons] at hd
    rcases hd with rfl | rfl | rfl | rfl | rfl | hd
    · decide
    · decide
    · decide
    · decide
    · decide
    · rw [halnum d hd, Bool.true_or]
  rw [isIdentifier, hchars, isIdentifierChars, hall]
  simp only [List.length_cons, String.length_toList, Bool.and_true, Bool.and_eq_true,
    decide_eq_true_eq]
  constructor
  · rintro ⟨-, hlength⟩
    omega
  · intro hlength
    exact ⟨by decide, by omega⟩

theorem toCamel_findBy (column : String) :
    ∃ s, (toCamel (findBy column)).toList = "find".toList ++ s := by
  have hchars : (findBy column).toList = "findBy".toList ++ (toPascal column).toList := by
    rw [findBy, String.toList_append]
  have hmarked : markWords ("findBy".toList ++ (toPascal column).toList) =
      "find".toList ++ '_' :: markWords ('B' :: 'y' :: (toPascal column).toList) := rfl
  have hword : ∀ c ∈ "find".toList, (!c.isAlphanum) = false := by
    have hall : "find".toList.all Char.isAlphanum = true := by decide
    exact fun c hc => congrArg Bool.not (List.all_eq_true.mp hall c hc)
  have hsplit := List.splitOnP_append_cons_of_forall_mem hword '_' (by decide)
    (markWords ('B' :: 'y' :: (toPascal column).toList))
  have hpascal : ∃ s, (toPascal (findBy column)).toList = "Find".toList ++ s := by
    rw [toPascal, String.toList_ofList, splitWords, hchars, hmarked, hsplit]
    exact ⟨_, rfl⟩
  obtain ⟨s, hs⟩ := hpascal
  refine ⟨s, ?_⟩
  unfold toCamel
  rw [hs]
  change (String.ofList ('f' :: ("ind".toList ++ s))).toList = _
  rw [String.toList_ofList]
  rfl

/-- No reserved word begins so. -/
theorem methodFits_findBy (column : String) : MethodFits (findBy column) := by
  obtain ⟨s, hs⟩ := toCamel_findBy column
  have hhead : (toCamel (findBy column)).toList.take 4 = "find".toList := by
    rw [hs]
    rfl
  have hnone : ∀ w ∈ "" :: (es3ReservedWords ++ cxxReservedWords ++ generatedLifecycleNames),
      toCamel (findBy column) ≠ w := by
    have hall : ("" :: (es3ReservedWords ++ cxxReservedWords ++ generatedLifecycleNames)).all
        (fun w => w.toList.take 4 ≠ "find".toList) = true := by
      decide +kernel
    rw [List.all_eq_true] at hall
    intro w hw heq
    rw [heq] at hhead
    exact of_decide_eq_true (hall w hw) hhead
  simp only [List.forall_mem_cons, List.forall_mem_append] at hnone
  obtain ⟨hempty, ⟨hes3, hcxx⟩, hlifecycle⟩ := hnone
  exact ⟨hempty, fun h => hes3 _ h rfl, fun h => hcxx _ h rfl, fun h => hlifecycle _ h rfl⟩

/-! ## Derived queries -/

section Queries

variable {ir : Document} {table : Table}

/-- The checks of a query apart from those of its name and of its parameters. -/
def checkKind (ir : Document) (table : Table) (query : Query) (path : String) : List Diagnostic :=
  match query.kind with
  | .select => checkSelect ir table query path
  | .insert => checkInsert table query path
  | .upsert => checkInsert table query path
  | .update => checkUpdate table query path
  | .delete => checkDelete table query path

theorem eachIdx_params {path : String} {params : List BindParam} :
    (eachIdx params fun i param => demand (!seenBefore BindParam.name params i param) "IR019" path
      s!"duplicate parameter \"{param.name}\"") = [] ↔ (params.map BindParam.name).Nodup := by
  rw [eachIdx_eq_nil]
  simp only [demand_eq_nil, Bool.not_eq_true']
  exact ⟨nodup_of_seenBefore, fun h i hi => seenBefore_of_nodup h hi⟩

/-- What is demanded of a query of a method of its table. -/
theorem queryAccepted_crud (h : Usable ir table) {query : Query} {method : String}
    (hname : query.name = crudName table method) (htable : query.table = table.name)
    (hcardinality : query.cardinality ∈
      if query.kind = .select then [Cardinality.one, .many] else [.changes])
    (hkind : ∀ path, checkKind ir table query path = [])
    (hparams : ((deriveApiParams table query ir).map BindParam.name).Nodup) :
    QueryAccepted ir query ↔ (isIdentifier method = true ∧ MethodFits method) ∧
      ∀ p ∈ deriveApiParams table query ir, ∀ path, checkParamName path p.name = [] := by
  unfold QueryAccepted checkQuery checkQueryNames
  dsimp only
  rw [htable, h.found]
  change _ ++ (checkKind ir table query _ ++ _) = [] ∧ _ ↔ _
  rw [hkind, List.nil_append, eachIdx_params.mpr hparams, List.append_nil, hname,
    isQueryName_crudName h.name, List.append_eq_nil_iff, List.append_eq_nil_iff, demand_eq_nil,
    demand_eq_nil, List.flatMap_eq_nil_iff]
  constructor
  · rintro ⟨⟨hmethod, -⟩, hform, hfit⟩
    exact ⟨⟨hmethod, (checkMethodName_crud h.name hmethod hname _).mp hform⟩, fun p hp path =>
      (checkParamName_path).mp (hfit p hp)⟩
  · rintro ⟨⟨hmethod, hform⟩, hfit⟩
    exact ⟨⟨hmethod, decide_eq_true hcardinality⟩,
      (checkMethodName_crud h.name hmethod hname _).mpr hform, fun p hp => hfit p hp _⟩

/-- `column` is a key of the table. -/
def IsKey (table : Table) (column : String) : Prop := [column] ∈ table.primaryKey :: table.uniques

theorem Usable.key (h : Usable ir table) {column : String} (hkey : IsKey table column) :
    hasColumn table.columns column = true := by
  rcases List.mem_cons.mp hkey with hprimary | hunique
  · exact h.primaryKey column (hprimary ▸ List.mem_cons_self)
  · exact h.uniques _ hunique column List.mem_cons_self

theorem isKeyedWhere_key {column : String} (hkey : IsKey table column) :
    isKeyedWhere table [column] = true := by
  unfold isKeyedWhere
  rw [List.any_eq_true]
  refine ⟨_, hkey, ?_⟩
  simp

theorem checkWhere_key {column : String} (hcolumn : hasColumn table.columns column = true)
    (hident : isIdentifier column = true) (path : String) (required : Bool) :
    checkWhere [table] table path (some [keyCondition column]) required = [] := by
  have hscoped : scopedTable [table] table none = some table := by
    simp [scopedTable]
  unfold checkWhere
  dsimp only
  rw [if_neg (by simp), eachIdx_eq_nil]
  intro i hi
  obtain rfl : i = 0 := by
    rw [List.length_singleton] at hi
    omega
  dsimp only [List.getElem_cons_zero, keyCondition]
  rw [hscoped]
  simp [hcolumn, hident]

theorem findOne_accepted (h : Usable ir table) {column : String} (hkey : IsKey table column)
    (method : String) : QueryAccepted ir (findOne table method column) ↔
      (isIdentifier method = true ∧ MethodFits method) ∧ ParamFits column := by
  have hcolumn := h.key hkey
  have hforms := h.column hcolumn
  have hkind (path : String) : checkKind ir table (findOne table method column) path = [] := by
    change checkSelect ir table (findOne table method column) path = []
    have hwhere := checkWhere_key hcolumn hforms.identifier
    have hkeyed := isKeyedWhere_key hkey
    have hcolumns : (findOne table method column).whereColumns = [column] := rfl
    unfold checkSelect
    rw [hcolumns, hkeyed]
    simp only [findOne, bareQuery, checkJoins, hwhere, checkOrderBy]
    rfl
  rw [queryAccepted_crud h rfl rfl (List.mem_cons_self) hkind (List.nodup_singleton column)]
  refine and_congr_right fun _ => ?_
  change (∀ p ∈ [columnParam table ir table.name column column], _) ↔ _
  rw [List.forall_mem_singleton]
  exact checkParamName_column hforms

/-- The methods that are not named after a column. -/
theorem methods_fit :
    (isIdentifier "findById" = true ∧ MethodFits "findById") ∧
      (isIdentifier "list" = true ∧ MethodFits "list") ∧
      (isIdentifier "insert" = true ∧ MethodFits "insert") ∧
      (isIdentifier "deleteById" = true ∧ MethodFits "deleteById") := by
  refine ⟨⟨?_, ?_⟩, ⟨?_, ?_⟩, ⟨?_, ?_⟩, ⟨?_, ?_⟩⟩ <;> decide +kernel

theorem deleteById_accepted (h : Usable ir table) {column : String} (hkey : IsKey table column) :
    QueryAccepted ir (deleteById table column) ↔ ParamFits column := by
  have hcolumn := h.key hkey
  have hforms := h.column hcolumn
  have hkind (path : String) : checkKind ir table (deleteById table column) path = [] := by
    change checkDelete table (deleteById table column) path = []
    have hwhere := checkWhere_key hcolumn hforms.identifier
    have hkeyed := isKeyedWhere_key hkey
    unfold checkDelete checkKeyedMutation
    simp only [deleteById, bareQuery, hwhere]
    change demand (isKeyedWhere table [column]) _ _ _ = []
    rw [hkeyed]
    rfl
  rw [queryAccepted_crud h (show (deleteById table column).name = crudName table "deleteById" from rfl)
    rfl (List.mem_cons_self) hkind (List.nodup_singleton column)]
  change _ ∧ (∀ p ∈ [columnParam table ir table.name column column], _) ↔ _
  rw [List.forall_mem_singleton, and_iff_right methods_fit.2.2.2]
  exact checkParamName_column hforms

/-- The parameters that are not named after a column. -/
theorem window_fits :
    (ColumnForms "limit" ∧ ParamFits "limit") ∧ ColumnForms "offset" ∧ ParamFits "offset" := by
  have hlimit : checkLogicalIdentifier "limit" "" "" = [] := by decide +kernel
  have hoffset : checkLogicalIdentifier "offset" "" "" = [] := by decide +kernel
  exact ⟨⟨⟨by decide +kernel, fun _ _ => checkLogicalIdentifier_path hlimit⟩, by decide +kernel⟩,
    ⟨by decide +kernel, fun _ _ => checkLogicalIdentifier_path hoffset⟩, by decide +kernel⟩

theorem list_accepted (h : Usable ir table) {column : String} (hkey : IsKey table column) :
    QueryAccepted ir (list table column) := by
  have hcolumn := h.key hkey
  have hforms := h.column hcolumn
  obtain ⟨⟨hlimit, hlimitFits⟩, hoffset, hoffsetFits⟩ := window_fits
  have hkind (path : String) : checkKind ir table (list table column) path = [] := by
    change checkSelect ir table (list table column) path = []
    have hscoped : scopedTable [table] table none = some table := by
      simp [scopedTable]
    have horder : checkOrderBy [table] table path (some [⟨none, column, .asc⟩]) = [] := by
      unfold checkOrderBy
      rw [eachIdx_eq_nil]
      intro i hi
      obtain rfl : i = 0 := by
        rw [Option.getD_some, List.length_singleton] at hi
        omega
      dsimp only [Option.getD_some, List.getElem_cons_zero]
      rw [hscoped]
      simp [hcolumn, hforms.identifier]
    unfold checkSelect
    simp only [list, bareQuery, checkJoins, checkWhere, horder, Option.all_some, hlimit.identifier,
      hoffset.identifier]
    rfl
  have hparams : (deriveApiParams table (list table column) ir).map BindParam.name =
      ["limit", "offset"] := rfl
  refine (queryAccepted_crud h (show (list table column).name = crudName table "list" from rfl)
    rfl (List.mem_cons_of_mem _ List.mem_cons_self) hkind (hparams ▸ by decide)).mpr
    ⟨methods_fit.2.1, ?_⟩
  change ∀ p ∈ [integerParam "limit", integerParam "offset"], _
  rw [List.forall_mem_cons, List.forall_mem_singleton]
  exact ⟨(checkParamName_column hlimit).mpr hlimitFits,
    (checkParamName_column hoffset).mpr hoffsetFits⟩

/-- Values for different columns of the table. -/
theorem checkAssignments_own (h : Usable ir table) {columns : List Column} (hne : columns ≠ [])
    (hmem : ∀ c ∈ columns, c ∈ table.columns) (hnames : (columns.map Column.name).Nodup)
    (path label : String) :
    checkAssignments table path label (some (columns.map fun c => ⟨c.name, c.name⟩)) = [] := by
  have hnodup : ((columns.map fun c => (⟨c.name, c.name⟩ : Assignment)).map
      Assignment.column).Nodup := by
    rw [List.map_map]
    exact hnames
  have hassigned : columns.map (fun c => (⟨c.name, c.name⟩ : Assignment)) ≠ [] := by
    rwa [ne_eq, List.map_eq_nil_iff]
  obtain ⟨entry, entries, hentries⟩ := List.exists_cons_of_ne_nil hassigned
  have hitem : ∀ item ∈ entry :: entries, ∃ c ∈ table.columns, item = ⟨c.name, c.name⟩ := by
    intro item hitem
    rw [← hentries] at hitem
    obtain ⟨c, hc, rfl⟩ := List.mem_map.mp hitem
    exact ⟨c, hmem c hc, rfl⟩
  rw [hentries] at hnodup ⊢
  unfold checkAssignments
  dsimp only
  rw [eachIdx_eq_nil]
  intro i hi
  have hseen := seenBefore_of_nodup hnodup hi
  obtain ⟨c, hc, heq⟩ := hitem _ (List.getElem_mem hi)
  have hident := (h.columns c hc).identifier
  have hhas : hasColumn table.columns c.name = true := hasColumn_iff.mpr ⟨c, hc, rfl⟩
  rw [hseen, heq]
  simp [hident, hhas]

theorem insert_accepted (h : Usable ir table) (hcolumns : insertColumns table ≠ []) :
    QueryAccepted ir (insert table) ↔ ∀ c ∈ insertColumns table, ParamFits c.name := by
  have hmem : ∀ c ∈ insertColumns table, c ∈ table.columns := fun c hc => List.mem_of_mem_filter hc
  have hnames : ((insertColumns table).map Column.name).Nodup :=
    h.names.sublist (List.filter_sublist.map Column.name)
  have hparams : (deriveApiParams table (insert table) ir).map BindParam.name =
      (insertColumns table).map Column.name := by
    change (((insertColumns table).map _).map _).map _ = _
    rw [List.map_map, List.map_map]
    rfl
  have hkind (path : String) : checkKind ir table (insert table) path = [] := by
    change checkInsert table (insert table) path = []
    have hassigned := checkAssignments_own h hcolumns hmem hnames s!"{path}.values" "values"
    have hprovided : ∀ c ∈ table.columns, c.default = none →
        c.name ∈ ((insert table).values.getD []).map Assignment.column := by
      intro c hc hdefault
      change c.name ∈ ((insertColumns table).map _).map _
      rw [List.map_map]
      refine List.mem_map.mpr ⟨c, List.mem_filter.mpr ⟨hc, ?_⟩, rfl⟩
      rw [hdefault]
      rfl
    unfold checkInsert
    dsimp only
    rw [List.append_eq_nil_iff, List.append_eq_nil_iff]
    refine ⟨⟨rfl, hassigned⟩, List.flatMap_eq_nil_iff.mpr fun c hc => ?_⟩
    rw [demand_eq_nil]
    cases hdefault : c.default with
    | none =>
        rw [decide_eq_true (hprovided c hc hdefault), Bool.or_true]
    | some literal =>
        simp [effectiveDefault, hdefault]
  rw [queryAccepted_crud h (show (insert table).name = crudName table "insert" from rfl)
    rfl (List.mem_cons_self) hkind (hparams ▸ hnames), and_iff_right methods_fit.2.2.1]
  have hall : (∀ p ∈ deriveApiParams table (insert table) ir, ∀ path,
      checkParamName path p.name = []) ↔
      ∀ name ∈ (insertColumns table).map Column.name, ∀ path, checkParamName path name = [] := by
    rw [← hparams, List.forall_mem_map]
  rw [hall, List.forall_mem_map]
  exact forall_congr' fun c => forall_congr' fun hc =>
    checkParamName_column (h.columns c (hmem c hc))

end Queries

end Esdb.CrudDerive
