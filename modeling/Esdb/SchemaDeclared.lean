import Esdb.SchemaBind
import Esdb.SchemaDdl

/-!
# Accepted declarations

What the validation says about the tables of an accepted document, as facts about each of
them: names are identifiers, keys name columns, literals have the shape of their type, and
fragments have none of the characters that are refused.
-/
namespace Esdb.Schema

structure DeclaredKey (doc : Declarations) (table : TableDecl) (key : ForeignKey) : Prop where
  name : isIdentifier key.name = true
  columns : ∀ n ∈ key.columns, hasColumn table.columns n = true
  target : ∃ target ∈ doc.document.tables, tableByName doc.document key.refTable = some target ∧
    ∀ n ∈ key.refColumns, hasColumn target.columns n = true
  actions : key.onUpdate ∈ foreignKeyActions ∧ key.onDelete ∈ foreignKeyActions

/-- A fragment that the validation lets through. -/
def Static (sql : String) : Prop := isStaticSql sql.toList = true

def DeclaredTerm (table : TableDecl) : IndexTerm → Prop
  | .column column _ => hasColumn table.columns column = true
  | .expression sql => Static sql

structure DeclaredIndex (table : TableDecl) (index : Index) : Prop where
  name : isIdentifier index.name = true
  terms_ne_nil : index.terms ≠ []
  terms : ∀ term ∈ index.terms, DeclaredTerm table term
  filter : ∀ sql, index.filter = some sql → Static sql

structure Declared (doc : Declarations) (table : TableDecl) : Prop where
  sqlName : isIdentifier table.sqlName = true
  columns_ne_nil : table.columns ≠ []
  columns : ∀ c ∈ table.columns, isIdentifier c.sqlName = true
  primaryKey_ne_nil : table.primaryKey ≠ []
  primaryKey : ∀ n ∈ table.primaryKey, hasColumn table.columns n = true
  uniques : ∀ key ∈ table.uniques, key ≠ [] ∧ ∀ n ∈ key, hasColumn table.columns n = true
  defaults : ∀ c ∈ table.columns, ∀ literal, effectiveDefault table.toTable c = some literal →
    ∃ path, checkLiteral literal c path = []
  autoincrement : ∀ c ∈ table.columns, c.name ∈ table.autoincrement →
    c.type = .integer ∧ table.primaryKey = [c.name]
  foreignKeys : ∀ key ∈ table.foreignKeys.getD [], DeclaredKey doc table key
  checks : ∀ check ∈ table.checks.getD [], isIdentifier check.name = true ∧ Static check.sql
  indexes : ∀ index ∈ table.indexes.getD [], DeclaredIndex table index

theorem checkStatic_nil {value path label : String}
    (h : checkStaticSqlExpression value path label = []) : Static value := by
  unfold checkStaticSqlExpression at h
  split_ifs at h
  rw [List.append_eq_nil_iff, demand_eq_nil, demand_eq_nil] at h
  exact h.2

theorem checkDefault_nil {table : Table} (hn : TableNames table) {path : String}
    {entry : String × Literal} (h : checkDefault table path entry = []) {column : Column}
    (hc : column ∈ table.columns) (hname : entry.1 = column.name) :
    ∃ path, checkLiteral entry.2 column path = [] := by
  have hfind : columnByName table column.name = some column :=
    find_by_key Column.name hc (inj_of_nodup Column.name hn.names hc)
  unfold checkDefault at h
  dsimp only at h
  rw [hname, hfind] at h
  dsimp only at h
  split_ifs at h
  exact ⟨_, h⟩

/-- What is demanded of the keys of a table. -/
theorem checkTable_keys {i : ℕ} {table : Table} (h : checkTable i table = []) :
    table.columns ≠ [] ∧ table.primaryKey ≠ [] ∧
      (∀ n ∈ table.primaryKey, hasColumn table.columns n = true) ∧
      ∀ key ∈ table.uniques, key ≠ [] ∧ ∀ n ∈ key, hasColumn table.columns n = true := by
  unfold checkTable at h
  rw [List.append_eq_nil_iff] at h
  have h := h.2
  split_ifs at h with hcolumns
  rw [List.append_eq_nil_iff, List.append_eq_nil_iff] at h
  obtain ⟨⟨-, hprimary⟩, huniques⟩ := h
  unfold checkPrimaryKey at hprimary
  split_ifs at hprimary with hkey
  rw [List.append_eq_nil_iff] at hprimary
  unfold checkUniques at huniques
  rw [List.append_eq_nil_iff] at huniques
  refine ⟨fun he => hcolumns (he ▸ rfl), fun he => hkey (he ▸ rfl), fun n hn => ?_,
    fun key hmem => ?_⟩
  · obtain ⟨j, hj⟩ := eachIdx_mem hprimary.1 hn
    split_ifs at hj
    rw [List.append_eq_nil_iff, demand_eq_nil] at hj
    exact hj.1
  · obtain ⟨j, hj⟩ := eachIdx_mem huniques.1 hmem
    split_ifs at hj with hempty
    refine ⟨fun he => hempty (he ▸ rfl), fun n hn => ?_⟩
    obtain ⟨k, hk⟩ := eachIdx_mem hj hn
    rw [demand_eq_nil, Bool.and_eq_true] at hk
    exact hk.2

theorem checkForeignKey_nil {doc : Declarations} {table : TableDecl} {keys : List ForeignKey}
    {path path' : String} {i : ℕ} {key : ForeignKey}
    (h : checkForeignKey table keys path i key = [])
    (href : checkReference doc table path' key = []) : DeclaredKey doc table key := by
  unfold checkForeignKey at h
  simp only [List.append_eq_nil_iff, demand_eq_nil] at h
  obtain ⟨⟨⟨⟨⟨⟨⟨hname, -⟩, -⟩, hcolumns⟩, -⟩, -⟩, hupdate⟩, hdelete⟩ := h
  split_ifs at hcolumns
  unfold checkReference at href
  cases htarget : tableByName doc.document key.refTable with
  | none =>
      rw [htarget] at href
      cases href
  | some target =>
      rw [htarget] at href
      simp only [List.append_eq_nil_iff] at href
      refine ⟨hname, fun n hn => ?_, ⟨target, (tableByName_spec htarget).1, htarget, fun n hn => ?_⟩,
        of_decide_eq_true hupdate, of_decide_eq_true hdelete⟩
      · obtain ⟨j, hj⟩ := eachIdx_mem hcolumns hn
        rw [List.append_eq_nil_iff, demand_eq_nil, Bool.and_eq_true] at hj
        exact hj.1.2
      · obtain ⟨j, hj⟩ := eachIdx_mem href.1.1 hn
        rw [demand_eq_nil] at hj
        exact hj

theorem checkIndex_nil {table : TableDecl} {indexes : List Index} {path : String} {i : ℕ}
    {index : Index} (h : checkIndex table indexes path i index = []) :
    DeclaredIndex table index := by
  unfold checkIndex at h
  simp only [List.append_eq_nil_iff, demand_eq_nil] at h
  obtain ⟨⟨⟨⟨⟨hname, -⟩, -⟩, -⟩, hterms⟩, hfilter⟩ := h
  split_ifs at hterms with hempty
  refine ⟨hname, fun he => hempty (he ▸ rfl), fun term hterm => ?_, fun sql hsql => ?_⟩
  · obtain ⟨j, hj⟩ := eachIdx_mem hterms hterm
    cases term with
    | column column direction =>
        rw [checkIndexTerm, demand_eq_nil, Bool.and_eq_true] at hj
        exact hj.2
    | expression sql => exact checkStatic_nil hj
  · rw [hsql] at hfilter
    exact checkStatic_nil hfilter

theorem validate_table {doc : Declarations} (h : validateDeclarations doc = [])
    {table : TableDecl} (ht : table ∈ doc.tables) :
    (∃ i, checkTable i table.toTable = []) ∧ (∃ i, checkTableDecl i table = []) ∧
      ∀ key ∈ table.foreignKeys.getD [], ∃ path, checkReference doc table path key = [] := by
  unfold validateDeclarations at h
  rw [List.append_eq_nil_iff, List.append_eq_nil_iff] at h
  obtain ⟨⟨hdocument, hdecls⟩, hrelational⟩ := h
  refine ⟨?_, eachIdx_mem hdecls ht, fun key hkey => ?_⟩
  · unfold validateDocument at hdocument
    rw [List.append_eq_nil_iff] at hdocument
    have htables := hdocument.1
    unfold checkTables at htables
    split_ifs at htables
    obtain ⟨i, hi⟩ := eachIdx_mem htables (List.mem_map_of_mem ht)
    rw [List.append_eq_nil_iff, List.append_eq_nil_iff] at hi
    exact ⟨i, hi.1.1⟩
  · unfold checkRelationalSchema at hrelational
    dsimp only at hrelational
    rw [List.append_eq_nil_iff] at hrelational
    obtain ⟨i, hi⟩ := eachIdx_mem hrelational.2 ht
    rw [List.append_eq_nil_iff] at hi
    obtain ⟨j, hj⟩ := eachIdx_mem hi.2 hkey
    exact ⟨_, hj⟩

theorem validate_document {doc : Declarations} (h : validateDeclarations doc = []) :
    validateDocument doc.document = [] := by
  unfold validateDeclarations at h
  rw [List.append_eq_nil_iff, List.append_eq_nil_iff] at h
  exact h.1.1

theorem validate_declared {doc : Declarations} (h : validateDeclarations doc = [])
    {table : TableDecl} (ht : table ∈ doc.tables) : Declared doc table := by
  have hdocument := validate_document h
  have hmem : table.toTable ∈ doc.document.tables := List.mem_map_of_mem ht
  have hn := (validate_names hdocument).tables _ hmem
  have hsql := validate_sqlNames hdocument
  obtain ⟨⟨i, hi⟩, ⟨j, hj⟩, hreferences⟩ := validate_table h ht
  obtain ⟨hcolumns, hprimary, hnames, huniques⟩ := checkTable_keys hi
  unfold checkTableDecl at hj
  simp only [List.append_eq_nil_iff] at hj
  obtain ⟨⟨⟨⟨⟨⟨-, -⟩, hdecls⟩, hdefaults⟩, hforeign⟩, hchecks⟩, hindexes⟩ := hj
  have hcolumn : ∀ c ∈ table.columns, ∃ path, checkColumnDecl table path c = [] := by
    intro c hc
    obtain ⟨k, hk⟩ := eachIdx_mem hdecls hc
    exact ⟨_, hk⟩
  refine ⟨hsql.tables _ hmem, hcolumns, hsql.columns _ hmem, hprimary, hnames, huniques,
    fun c hc literal hliteral => ?_, fun c hc hauto => ?_, fun key hkey => ?_,
    fun check hcheck => ?_, fun index hindex => ?_⟩
  · obtain ⟨path, hpath⟩ := hcolumn c hc
    unfold checkColumnDecl at hpath
    rw [List.append_eq_nil_iff] at hpath
    cases hdefault : c.default with
    | some own =>
        rw [effectiveDefault, hdefault] at hliteral
        obtain rfl := Option.some.inj hliteral
        rw [hdefault] at hpath
        exact ⟨_, hpath.2⟩
    | none =>
        rw [effectiveDefault, hdefault] at hliteral
        obtain ⟨entry, hentry, rfl⟩ := Option.map_eq_some_iff.mp hliteral
        obtain ⟨hin, hname⟩ := mem_of_find hentry
        have hnil := List.flatMap_eq_nil_iff.mp hdefaults entry hin
        exact checkDefault_nil hn hnil hc (of_decide_eq_true hname)
  · obtain ⟨path, hpath⟩ := hcolumn c hc
    unfold checkColumnDecl at hpath
    rw [List.append_eq_nil_iff, List.append_eq_nil_iff, if_pos hauto] at hpath
    have hauto := hpath.1.2
    split_ifs at hauto with htype
    rw [demand_eq_nil, decide_eq_true_eq] at hauto
    refine ⟨?_, hauto⟩
    simp only [Bool.or_eq_true, not_or, decide_eq_true_eq, not_not] at htype
    exact htype.2
  · obtain ⟨k, hk⟩ := eachIdx_mem hforeign hkey
    obtain ⟨path, hpath⟩ := hreferences key hkey
    exact checkForeignKey_nil hk hpath
  · obtain ⟨k, hk⟩ := eachIdx_mem hchecks hcheck
    unfold checkCheck at hk
    simp only [List.append_eq_nil_iff, demand_eq_nil] at hk
    exact ⟨hk.1.1.1, checkStatic_nil hk.2⟩
  · obtain ⟨k, hk⟩ := eachIdx_mem hindexes hindex
    exact checkIndex_nil hk

end Esdb.Schema
