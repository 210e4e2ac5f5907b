import Esdb.SchemaAccepted

/-!
# Queries that are derived from tables

The frontend derives the standard queries of a table from its keys and columns, and puts them
among the declared ones. Their names and parameters are made of the names of tables and columns,
and what the validation demands of names it demands of these as well.
-/
namespace Esdb.CrudDerive

open Schema

structure DeriveError where
  code : String
  message : String

/-! ## The frontend -/

def singlePrimaryKey (table : Table) : Option String :=
  match table.primaryKey with
  | [column] => some column
  | _ => none

/-- The name of a derived query. -/
def crudName (table : Table) (method : String) : String := table.name ++ "." ++ method

/-- A query of a kind, with nothing else. -/
def bareQuery (table : Table) (method : String) (kind : QueryKind) (cardinality : Cardinality) :
    Query where
  name := crudName table method
  kind := kind
  table := table.name
  cardinality := cardinality
  filter := none
  joins := none
  orderBy := none
  limit := none
  offset := none
  values := none
  set := none
  onConflict := none

/-- `column eq column`, the column giving its name to the parameter. -/
def keyCondition (column : String) : Condition := ⟨none, column, "eq", column⟩

def findOne (table : Table) (method column : String) : Query :=
  { bareQuery table method .select .one with filter := some [keyCondition column] }

def findBy (column : String) : String := "findBy" ++ toPascal column

/-- The columns that are unique alone, besides the primary key. -/
def uniqueColumns (table : Table) : List String :=
  table.uniques.filterMap fun key =>
    match key with
    | [column] => if some column = singlePrimaryKey table then none else some column
    | _ => none

def list (table : Table) (column : String) : Query :=
  { bareQuery table "list" .select .many with
    orderBy := some [⟨none, column, .asc⟩]
    limit := some "limit"
    offset := some "offset" }

def insertColumns (table : Table) : List Column :=
  table.columns.filter fun column => column.default.isNone

def insert (table : Table) : Query :=
  { bareQuery table "insert" .insert .changes with
    values := some ((insertColumns table).map fun column => ⟨column.name, column.name⟩) }

def deleteById (table : Table) (column : String) : Query :=
  { bareQuery table "deleteById" .delete .changes with filter := some [keyCondition column] }

def crudQueries (table : Table) : List Query :=
  let key := (singlePrimaryKey table).toList
  key.map (findOne table "findById") ++
    (uniqueColumns table).map (fun column => findOne table (findBy column) column) ++
    key.map (list table) ++ (if (insertColumns table).isEmpty then [] else [insert table]) ++
    key.map (deleteById table)

/-- The first name that is among those seen before. -/
def repeatedName : List String → List Query → Option String
  | _, [] => none
  | seen, query :: rest =>
      if query.name ∈ seen then some query.name else repeatedName (query.name :: seen) rest

def deriveCrudQueries (table : Table) : Except DeriveError (List Query) :=
  match repeatedName [] (crudQueries table) with
  | none => .ok (crudQueries table)
  | some name => .error ⟨"ORM010", s!"derived query name collision: \"{name}\""⟩

/-- `sort` by the names. -/
def sortQueries (queries : List Query) : List Query :=
  queries.insertionSort fun a b => nameUnits a.name ≤ nameUnits b.name

def mergeDeclaredQueries (derived declared : List Query) : Except DeriveError (List Query) :=
  match repeatedName (derived.map Query.name) (sortQueries declared) with
  | none => .ok (sortQueries (derived ++ sortQueries declared))
  | some name =>
      .error ⟨"ORM010",
        s!"declared query \"{name}\" collides with another generated/declared query"⟩

/-- The queries that `buildIr` puts into the document. -/
def buildQueries (tables : List Table) (declared : List Query) : Except DeriveError (List Query) :=
  (tables.mapM deriveCrudQueries).bind fun derived => mergeDeclaredQueries derived.flatten declared

/-! ## Names that are derived -/

/-- The methods that are derived for a table. -/
def crudMethods (table : Table) : List String :=
  let key := (singlePrimaryKey table).toList
  key.map (fun _ => "findById") ++ (uniqueColumns table).map findBy ++
    key.map (fun _ => "list") ++ (if (insertColumns table).isEmpty then [] else ["insert"]) ++
    key.map (fun _ => "deleteById")

theorem crudQueries_names (table : Table) :
    (crudQueries table).map Query.name = (crudMethods table).map (crudName table) := by
  unfold crudQueries crudMethods
  simp only [List.map_append, List.map_map]
  congr 1
  · congr 1
    split_ifs <;> rfl

theorem crudQueries_table {table : Table} {q : Query} (h : q ∈ crudQueries table) :
    q.table = table.name := by
  simp only [crudQueries, List.mem_append, List.mem_map] at h
  rcases h with (((⟨c, -, rfl⟩ | ⟨c, -, rfl⟩) | ⟨c, -, rfl⟩) | h) | ⟨c, -, rfl⟩
  · rfl
  · rfl
  · rfl
  · split_ifs at h
    · cases h
    · rw [List.mem_singleton.mp h]
      rfl
  · rfl

/-- What is left of the dot is the name of the table. -/
theorem crudName_owner {table : Table} (h : isIdentifier table.name = true) (method : String) :
    (crudName table method).toList.takeWhile (fun c => c ≠ '.') = table.name.toList ∧
      (crudName table method).toList.dropWhile (fun c => c ≠ '.') = '.' :: method.toList := by
  have hname : (crudName table method).toList = table.name.toList ++ '.' :: method.toList := by
    rw [crudName, String.toList_append, String.toList_append, List.append_assoc]
    rfl
  have hplain : ∀ c ∈ table.name.toList, decide (c ≠ '.') = true := by
    intro c hc
    rcases isIdentifier_chars h c hc with halnum | rfl
    · refine decide_eq_true fun hdot => ?_
      rw [hdot] at halnum
      exact absurd halnum (by decide)
    · decide
  rw [hname, List.takeWhile_append_of_pos hplain, List.dropWhile_append_of_pos hplain,
    List.takeWhile_cons_of_neg (by decide), List.dropWhile_cons_of_neg (by decide),
    List.append_nil]
  exact ⟨rfl, rfl⟩

theorem crudName_table {table table' : Table} (h : isIdentifier table.name = true)
    (h' : isIdentifier table'.name = true) {method method' : String}
    (heq : crudName table method = crudName table' method') : table.name = table'.name := by
  have howner := (crudName_owner h method).1
  rw [heq, (crudName_owner h' method').1] at howner
  exact (String.toList_inj.mp howner).symm

/-! ## When names are repeated -/

theorem repeatedName_none {seen : List String} {queries : List Query} :
    repeatedName seen queries = none ↔
      (queries.map Query.name).Nodup ∧ ∀ q ∈ queries, q.name ∉ seen := by
  induction queries generalizing seen with
  | nil => simp [repeatedName]
  | cons query rest ih =>
      rw [repeatedName, List.map_cons, List.nodup_cons, List.forall_mem_cons]
      by_cases hmem : query.name ∈ seen
      · rw [if_pos hmem]
        exact iff_of_false (Option.some_ne_none query.name) fun h => h.2.1 hmem
      · rw [if_neg hmem, ih]
        constructor
        · rintro ⟨hnodup, hrest⟩
          refine ⟨⟨fun hin => ?_, hnodup⟩, hmem, fun q hq hseen => ?_⟩
          · obtain ⟨q, hq, hname⟩ := List.mem_map.mp hin
            exact hrest q hq (hname ▸ List.mem_cons_self)
          · exact hrest q hq (List.mem_cons_of_mem query.name hseen)
        · rintro ⟨⟨hin, hnodup⟩, -, hrest⟩
          refine ⟨hnodup, fun q hq hseen => ?_⟩
          rcases List.mem_cons.mp hseen with hname | hseen
          · exact hin (hname ▸ List.mem_map_of_mem hq)
          · exact hrest q hq hseen

/-- `ORM010`, or the value. -/
def Outcome {α : Type} (ok : Prop) (value : α → Prop) (r : Except DeriveError α) : Prop :=
  (ok ∧ ∃ a, r = .ok a ∧ value a) ∨ (¬ok ∧ ∃ e, r = .error e ∧ e.code = "ORM010")

theorem deriveCrudQueries_outcome (table : Table) :
    Outcome ((crudQueries table).map Query.name).Nodup (fun qs => qs = crudQueries table)
      (deriveCrudQueries table) := by
  have hnone : repeatedName [] (crudQueries table) = none ↔ _ := repeatedName_none
  unfold deriveCrudQueries
  cases hrepeated : repeatedName [] (crudQueries table) with
  | none => exact .inl ⟨(hnone.mp hrepeated).1, _, rfl, rfl⟩
  | some name =>
      refine .inr ⟨fun hnodup => ?_, _, rfl, rfl⟩
      rw [hnone.mpr ⟨hnodup, fun q _ => List.not_mem_nil⟩] at hrepeated
      cases hrepeated

theorem mapM_outcome (tables : List Table) :
    Outcome (∀ t ∈ tables, ((crudQueries t).map Query.name).Nodup)
      (fun derived => derived = tables.map crudQueries) (tables.mapM deriveCrudQueries) := by
  induction tables with
  | nil => exact .inl ⟨fun t ht => (nomatch ht), _, rfl, rfl⟩
  | cons table rest ih =>
      rw [List.mapM_cons, Outcome, List.forall_mem_cons]
      rcases deriveCrudQueries_outcome table with ⟨hnodup, qs, hqs, rfl⟩ | ⟨hnodup, e, he, hcode⟩
      · rw [hqs]
        rcases ih with ⟨hrest, derived, hderived, rfl⟩ | ⟨hrest, e, he, hcode⟩
        · rw [hderived]
          exact .inl ⟨⟨hnodup, hrest⟩, _, rfl, rfl⟩
        · rw [he]
          exact .inr ⟨fun h => hrest h.2, e, rfl, hcode⟩
      · rw [he]
        exact .inr ⟨fun h => hnodup h.1, e, rfl, hcode⟩

theorem sortQueries_perm (queries : List Query) : (sortQueries queries).Perm queries :=
  List.perm_insertionSort _ queries

theorem sortQueries_sorted (queries : List Query) :
    (sortQueries queries).Pairwise fun a b => nameUnits a.name ≤ nameUnits b.name := by
  have : Std.Total fun a b : Query => nameUnits a.name ≤ nameUnits b.name :=
    ⟨fun a b => List.le_total (nameUnits a.name) (nameUnits b.name)⟩
  have : IsTrans Query fun a b => nameUnits a.name ≤ nameUnits b.name :=
    ⟨fun _ _ _ => List.le_trans⟩
  exact List.pairwise_insertionSort _ queries

/-- What `buildQueries` gives. -/
structure Built (tables : List Table) (declared queries : List Query) : Prop where
  perm : queries.Perm (tables.flatMap crudQueries ++ declared)
  sorted : queries.Pairwise fun a b => nameUnits a.name ≤ nameUnits b.name

theorem mergeDeclaredQueries_outcome {derived declared : List Query}
    (hderived : (derived.map Query.name).Nodup) :
    Outcome ((derived ++ declared).map Query.name).Nodup
      (fun qs => qs.Perm (derived ++ declared) ∧
        qs.Pairwise fun a b => nameUnits a.name ≤ nameUnits b.name)
      (mergeDeclaredQueries derived declared) := by
  have hperm := sortQueries_perm declared
  have hnone : repeatedName (derived.map Query.name) (sortQueries declared) = none ↔
      ((derived ++ declared).map Query.name).Nodup := by
    rw [repeatedName_none, (hperm.map Query.name).nodup_iff, List.map_append, List.nodup_append']
    constructor
    · rintro ⟨hnodup, hapart⟩
      refine ⟨hderived, hnodup, fun name hname hname' => ?_⟩
      obtain ⟨q, hq, rfl⟩ := List.mem_map.mp hname'
      exact hapart q (hperm.mem_iff.mpr hq) hname
    · rintro ⟨-, hnodup, hapart⟩
      exact ⟨hnodup, fun q hq hname => hapart hname (List.mem_map_of_mem (hperm.mem_iff.mp hq))⟩
  unfold mergeDeclaredQueries
  cases hrepeated : repeatedName (derived.map Query.name) (sortQueries declared) with
  | none =>
      exact .inl ⟨hnone.mp hrepeated, _, rfl, (sortQueries_perm _).trans (hperm.append_left derived),
        sortQueries_sorted _⟩
  | some name =>
      refine .inr ⟨fun hnodup => ?_, _, rfl, rfl⟩
      rw [hnone.mpr hnodup] at hrepeated
      cases hrepeated

/-- Tables of different names give their queries different names. -/
theorem crudQueries_nodup {tables : List Table} (hnames : (tables.map Table.name).Nodup)
    (hident : ∀ t ∈ tables, isIdentifier t.name = true) :
    ((tables.flatMap crudQueries).map Query.name).Nodup ↔
      ∀ t ∈ tables, ((crudQueries t).map Query.name).Nodup := by
  rw [List.map_flatMap, List.nodup_flatMap]
  refine ⟨fun h => h.1, fun h => ⟨h, ?_⟩⟩
  refine (List.pairwise_map.mp hnames).imp_of_mem fun {t t'} ht ht' hne => ?_
  intro name hname hname'
  dsimp only at hname hname'
  rw [crudQueries_names] at hname hname'
  obtain ⟨m, -, rfl⟩ := List.mem_map.mp hname
  obtain ⟨m', -, heq⟩ := List.mem_map.mp hname'
  exact hne (crudName_table (hident t ht) (hident t' ht') heq.symm)

/-- The queries are built where no two of them have one name, and the error is `ORM010`. -/
theorem buildQueries_outcome {tables : List Table} (hnames : (tables.map Table.name).Nodup)
    (hident : ∀ t ∈ tables, isIdentifier t.name = true) (declared : List Query) :
    Outcome ((tables.flatMap crudQueries ++ declared).map Query.name).Nodup
      (Built tables declared) (buildQueries tables declared) := by
  have hnodup := crudQueries_nodup hnames hident
  unfold buildQueries
  rcases mapM_outcome tables with ⟨hall, derived, hderived, rfl⟩ | ⟨hall, e, he, hcode⟩
  · rw [hderived]
    rcases mergeDeclaredQueries_outcome (hnodup.mpr hall) with
      ⟨hmerged, qs, hqs, hperm, hsorted⟩ | ⟨hmerged, e, he, hcode⟩
    · exact .inl ⟨hmerged, qs, hqs, hperm, hsorted⟩
    · exact .inr ⟨hmerged, e, he, hcode⟩
  · rw [he]
    refine .inr ⟨fun h => hall (hnodup.mp ?_), e, rfl, hcode⟩
    rw [List.map_append] at h
    exact h.of_append_left

end Esdb.CrudDerive
