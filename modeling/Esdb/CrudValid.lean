import Esdb.CrudAccepted

/-!
# Documents with derived queries

A document stays accepted under the queries that are derived for its tables exactly when the
columns can be parameters, the names of the finders are short enough, and no two queries meet
in the names that are generated for them.
-/
namespace Esdb.CrudDerive

open Schema

/-- The columns that are parameters of a derived query. -/
def crudParams (table : Table) : List String :=
  (singlePrimaryKey table).toList ++ uniqueColumns table ++
    (insertColumns table).map Column.name

/-- What the columns of a table must be for its derived queries. -/
structure Fits (table : Table) : Prop where
  finders : ∀ c ∈ uniqueColumns table, (toPascal c).length ≤ 58
  params : ∀ c ∈ crudParams table, ParamFits c

section Queries

variable {ir : Document} {table : Table}

theorem isKey_primary {column : String} (h : column ∈ (singlePrimaryKey table).toList) :
    IsKey table column := by
  rw [Option.mem_toList] at h
  unfold singlePrimaryKey at h
  split at h
  · next key hkey =>
      cases h
      rw [IsKey, hkey]
      exact List.mem_cons_self
  · cases h

theorem isKey_unique {column : String} (h : column ∈ uniqueColumns table) :
    IsKey table column := by
  obtain ⟨key, hkey, hcolumn⟩ := List.mem_filterMap.mp h
  split at hcolumn
  · split_ifs at hcolumn
    cases hcolumn
    exact List.mem_cons_of_mem table.primaryKey hkey
  · cases hcolumn

/-- The derived queries of a table are accepted where its columns fit. -/
theorem crudQueries_accepted (h : Usable ir table) :
    (∀ q ∈ crudQueries table, QueryAccepted ir q) ↔ Fits table := by
  have hinsert : (∀ q ∈ (if (insertColumns table).isEmpty then [] else [insert table]),
      QueryAccepted ir q) ↔ ∀ c ∈ insertColumns table, ParamFits c.name := by
    cases hcolumns : insertColumns table with
    | nil => simp
    | cons c rest =>
        rw [List.isEmpty_cons, if_neg Bool.false_ne_true, List.forall_mem_singleton, ← hcolumns]
        exact insert_accepted h (hcolumns ▸ List.cons_ne_nil c rest)
  unfold crudQueries
  simp only [List.forall_mem_append, List.forall_mem_map, hinsert]
  constructor
  · rintro ⟨⟨⟨⟨hfind, hfinders⟩, -⟩, hvalues⟩, -⟩
    have hfinder (c : String) (hc : c ∈ uniqueColumns table) :=
      (findOne_accepted h (isKey_unique hc) (findBy c)).mp (hfinders c hc)
    refine ⟨fun c hc => (isIdentifier_findBy c).mp (hfinder c hc).1.1, ?_⟩
    simp only [crudParams, List.forall_mem_append, List.forall_mem_map]
    exact ⟨⟨fun c hc => ((findOne_accepted h (isKey_primary hc) "findById").mp (hfind c hc)).2,
      fun c hc => (hfinder c hc).2⟩, hvalues⟩
  · rintro ⟨hfinders, hparams⟩
    simp only [crudParams, List.forall_mem_append, List.forall_mem_map] at hparams
    obtain ⟨⟨hprimary, hunique⟩, hvalues⟩ := hparams
    refine ⟨⟨⟨⟨fun c hc => ?_, fun c hc => ?_⟩, fun c hc => list_accepted h (isKey_primary hc)⟩,
      hvalues⟩, fun c hc => (deleteById_accepted h (isKey_primary hc)).mpr (hprimary c hc)⟩
    · exact (findOne_accepted h (isKey_primary hc) "findById").mpr ⟨methods_fit.1, hprimary c hc⟩
    · exact (findOne_accepted h (isKey_unique hc) (findBy c)).mpr
        ⟨⟨(isIdentifier_findBy c).mpr (hfinders c hc), methodFits_findBy c⟩, hunique c hc⟩

end Queries

/-! ## All the names of a document -/

/-- A query's table and its name. -/
abbrev TableAndName := String × String

def tableAndName (query : Query) : TableAndName := (query.table, query.name)

/-- The names that the document has after deriving. -/
def allNames (tables : List Table) (declared : List Query) : List TableAndName :=
  tables.flatMap (fun table => (crudMethods table).map fun method =>
    (table.name, crudName table method)) ++ declared.map tableAndName

/-- Two names are one where they give one method of a table or one bridge function. -/
def NamesApart (schemaName : String) (a b : TableAndName) : Prop :=
  (a.1 ++ "." ++ queryMethodName a.2 = b.1 ++ "." ++ queryMethodName b.2 → a.2 = b.2) ∧
    (bridgeFunctionName schemaName a.2 = bridgeFunctionName schemaName b.2 → a.2 = b.2)

instance (schemaName : String) : DecidableRel (NamesApart schemaName) :=
  fun _ _ => inferInstanceAs (Decidable (_ ∧ _))

theorem NamesApart.symm {schemaName : String} {a b : TableAndName} (h : NamesApart schemaName a b) :
    NamesApart schemaName b a :=
  ⟨fun hmethod => (h.1 hmethod.symm).symm, fun hbridge => (h.2 hbridge.symm).symm⟩

theorem allNames_eq (tables : List Table) (declared : List Query) :
    (tables.flatMap crudQueries ++ declared).map tableAndName = allNames tables declared := by
  rw [List.map_append, List.map_flatMap, allNames]
  congr 2
  funext table
  have hnames := crudQueries_names table
  have htables : (crudQueries table).map tableAndName =
      ((crudQueries table).map Query.name).map fun name => (table.name, name) := by
    rw [List.map_map]
    refine List.map_congr_left fun q hq => ?_
    rw [tableAndName, crudQueries_table hq]
    rfl
  rw [htables, hnames, List.map_map]
  rfl

/-- No two queries have one name, and the queries of the tables are apart from each other and
from the declared ones. -/
structure Derivable (doc : NamedDocument) : Prop where
  tables : ∀ t ∈ doc.tables, Fits t.toTable
  names : (allNames (doc.tables.map TableDecl.toTable) doc.queries).Pairwise
    (NamesApart doc.schemaName)

/-- The queries that were built are accepted where the columns fit and the names are apart. -/
theorem built_accepted_iff {doc : NamedDocument} (h : validateNamed doc = []) {queries : List Query}
    (hbuilt : Built (doc.tables.map TableDecl.toTable) doc.queries queries)
    (hnodup : ((doc.tables.map TableDecl.toTable).flatMap crudQueries ++ doc.queries).map
      Query.name |>.Nodup) :
    validateNamed { doc with queries := queries } = [] ↔ Derivable doc := by
  obtain ⟨htables, haccepted, -, -, -⟩ := validateNamed_nil.mp h
  have hdeclared : ∀ q ∈ doc.queries, QueryAccepted ⟨doc.tables.map TableDecl.toTable, queries⟩ q :=
    fun q hq => QueryAccepted.tables.mp (haccepted q hq)
  have hderived : (∀ q ∈ (doc.tables.map TableDecl.toTable).flatMap crudQueries,
      QueryAccepted ⟨doc.tables.map TableDecl.toTable, queries⟩ q) ↔
      ∀ t ∈ doc.tables, Fits t.toTable := by
    rw [List.forall_mem_flatMap, List.forall_mem_map]
    exact forall_congr' fun t => forall_congr' fun ht =>
      crudQueries_accepted (usable_table htables ht queries)
  have hnames : queries.Pairwise (Apart doc.schemaName) ↔
      (allNames (doc.tables.map TableDecl.toTable) doc.queries).Pairwise
        (NamesApart doc.schemaName) := by
    have hsymm : ∀ {a b : Query}, Apart doc.schemaName a b → Apart doc.schemaName b a :=
      fun {a b} hab =>
        (show NamesApart doc.schemaName (tableAndName a) (tableAndName b) from hab).symm
    rw [hbuilt.perm.pairwise_iff hsymm, ← allNames_eq, List.pairwise_map]
    exact Iff.rfl
  rw [validateNamed_nil]
  constructor
  · rintro ⟨-, hall, -, -, hapart⟩
    refine ⟨hderived.mp fun q hq => hall q ?_, hnames.mp hapart⟩
    exact hbuilt.perm.mem_iff.mpr (List.mem_append_left doc.queries hq)
  · rintro ⟨hfits, hapart⟩
    refine ⟨htables.queries queries, fun q hq => ?_, ?_, hbuilt.sorted, hnames.mpr hapart⟩
    · rcases List.mem_append.mp (hbuilt.perm.mem_iff.mp hq) with hq | hq
      · exact hderived.mpr hfits q hq
      · exact hdeclared q hq
    · exact (hbuilt.perm.map Query.name).nodup_iff.mpr hnodup

/-- The queries of an accepted document are built where no two names are equal. -/
theorem buildQueries_accepted {doc : NamedDocument} (h : validateNamed doc = []) :
    Outcome ((allNames (doc.tables.map TableDecl.toTable) doc.queries).map Prod.snd).Nodup
      (fun queries => validateNamed { doc with queries := queries } = [] ↔ Derivable doc)
      (buildQueries (doc.tables.map TableDecl.toTable) doc.queries) := by
  have htables := (validateNamed_nil.mp h).1
  have hnames : ((doc.tables.map TableDecl.toTable).map Table.name).Nodup :=
    (accepted_names htables).names
  have hident : ∀ t ∈ doc.tables.map TableDecl.toTable, isIdentifier t.name = true :=
    List.forall_mem_map.mpr fun t ht => (usable_table htables ht []).name
  have hnodup : ((allNames (doc.tables.map TableDecl.toTable) doc.queries).map Prod.snd) =
      ((doc.tables.map TableDecl.toTable).flatMap crudQueries ++ doc.queries).map Query.name := by
    rw [← allNames_eq, List.map_map]
    rfl
  rw [hnodup]
  rcases buildQueries_outcome hnames hident doc.queries with
    ⟨hapart, queries, hqueries, hbuilt⟩ | hrepeated
  · exact .inl ⟨hapart, queries, hqueries, built_accepted_iff h hbuilt hapart⟩
  · exact .inr hrepeated

/-- Deriving stops with `ORM010` or leaves an accepted document where two queries have one name,
and else exactly where every column fits and the names are apart. -/
theorem derived_accepted_iff {doc : NamedDocument} (h : validateNamed doc = []) :
    ((∃ e, buildQueries (doc.tables.map TableDecl.toTable) doc.queries = .error e ∧
        e.code = "ORM010") ∨
      ∃ queries, buildQueries (doc.tables.map TableDecl.toTable) doc.queries = .ok queries ∧
        validateNamed { doc with queries := queries } = []) ↔
    ¬((allNames (doc.tables.map TableDecl.toTable) doc.queries).map Prod.snd).Nodup ∨
      Derivable doc := by
  rcases buildQueries_accepted h with ⟨hapart, queries, hqueries, hiff⟩ | ⟨hrepeated, e, he, hcode⟩
  · rw [hqueries]
    constructor
    · rintro (⟨e, he, -⟩ | ⟨_, heq, haccepted⟩)
      · cases he
      · cases heq
        exact .inr (hiff.mp haccepted)
    · rintro (hrepeated | hderivable)
      · exact absurd hapart hrepeated
      · exact .inr ⟨queries, rfl, hiff.mpr hderivable⟩
  · exact iff_of_true (.inl ⟨e, he, hcode⟩) (.inl hrepeated)

/-- Accounts with one column besides the key. -/
def accounts (column : String) (unique : Bool) : NamedDocument where
  schemaName := "bank"
  tables := [{
    name := "account"
    sqlName := "account"
    columns := [⟨"id", "id", .integer, false, true, false, none⟩,
      ⟨column, column, .text, false, false, unique, none⟩]
    primaryKey := ["id"]
    uniques := if unique then [[column]] else []
    defaults := []
    autoincrement := []
    foreignKeys := none
    checks := none
    indexes := none }]
  queries := [{
    name := "account.rename"
    kind := .update
    table := "account"
    cardinality := .changes
    filter := some [⟨none, "id", "eq", "id"⟩]
    joins := none
    orderBy := none
    limit := none
    offset := none
    values := none
    set := some [⟨column, "name"⟩]
    onConflict := none }]

/-- The accounts keep their accepted document under the queries of an address. -/
theorem derived_accepted_email :
    validateNamed (accounts "email" true) = [] ∧
      ∃ queries, buildQueries ((accounts "email" true).tables.map TableDecl.toTable)
          (accounts "email" true).queries = .ok queries ∧
        validateNamed { accounts "email" true with queries := queries } = [] := by
  have haccepted : validateNamed (accounts "email" true) = [] := by decide +kernel
  have hnodup : ((allNames ((accounts "email" true).tables.map TableDecl.toTable)
      (accounts "email" true).queries).map Prod.snd).Nodup := by
    decide +kernel
  have hderivable : Derivable (accounts "email" true) := by
    refine ⟨List.forall_mem_singleton.mpr ⟨?_, ?_⟩, ?_⟩
    · decide +kernel
    · decide +kernel
    · decide +kernel
  rcases (derived_accepted_iff haccepted).mpr (.inr hderivable) with ⟨e, he, -⟩ | hqueries
  · rcases buildQueries_accepted haccepted with ⟨-, queries, hok, -⟩ | ⟨hrepeated, -⟩
    · rw [he] at hok
      cases hok
    · exact absurd hnodup hrepeated
  · exact ⟨haccepted, hqueries⟩

/-- No parameter is called `handle`, though a column may be. -/
theorem derived_refused_handle :
    ¬∀ doc : NamedDocument, validateNamed doc = [] →
      (∃ e, buildQueries (doc.tables.map TableDecl.toTable) doc.queries = .error e ∧
          e.code = "ORM010") ∨
        ∃ queries, buildQueries (doc.tables.map TableDecl.toTable) doc.queries = .ok queries ∧
          validateNamed { doc with queries := queries } = [] := by
  intro h
  have haccepted : validateNamed (accounts "handle" false) = [] := by decide +kernel
  have hnodup : ((allNames ((accounts "handle" false).tables.map TableDecl.toTable)
      (accounts "handle" false).queries).map Prod.snd).Nodup := by
    decide +kernel
  have hunfit : ¬Derivable (accounts "handle" false) := by
    intro hderivable
    have hparams := (hderivable.tables _ List.mem_cons_self).params "handle"
    exact absurd (hparams (by decide +kernel)) (by decide +kernel)
  rcases buildQueries_accepted haccepted with ⟨-, queries, hok, hiff⟩ | ⟨hrepeated, -⟩
  · rcases h (accounts "handle" false) haccepted with ⟨e, he, -⟩ | ⟨queries', hok', hvalid⟩
    · rw [he] at hok
      cases hok
    · rw [hok] at hok'
      cases hok'
      exact hunfit (hiff.mp hvalid)
  · exact hrepeated hnodup

end Esdb.CrudDerive
