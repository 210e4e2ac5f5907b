import Esdb.SchemaCardinality
import Esdb.SchemaReserved

/-!
# When a document is accepted

Whether a query is accepted does not depend on where it stands among the others, so a
document is accepted when its tables are, each of its queries is, and the names of the
queries are in order and do not meet in what is generated from them.
-/
namespace Esdb.Schema

/-! ## Paths do not matter -/

theorem eachIdx_congr {α : Type} {l : List α} {check check' : ℕ → α → List Diagnostic}
    (h : ∀ i a, check i a = [] ↔ check' i a = []) :
    eachIdx l check = [] ↔ eachIdx l check' = [] := by
  rw [eachIdx_eq_nil, eachIdx_eq_nil]
  exact forall_congr' fun i => forall_congr' fun hi => h i l[i]

theorem append_congr {a b a' b' : List Diagnostic} (h : a = [] ↔ a' = []) (h' : b = [] ↔ b' = []) :
    a ++ b = [] ↔ a' ++ b' = [] := by
  rw [List.append_eq_nil_iff, List.append_eq_nil_iff, h, h']

theorem demand_congr {ok : Bool} {code path message code' place message' : String} :
    demand ok code path message = [] ↔ demand ok code' place message' = [] := by
  rw [demand_eq_nil, demand_eq_nil]

theorem singleton_congr {d d' : Diagnostic} : [d] = [] ↔ [d'] = [] :=
  iff_of_false (List.cons_ne_nil d []) (List.cons_ne_nil d' [])

theorem ite_congr_nil {c : Prop} [Decidable c] {a b a' b' : List Diagnostic}
    (h : a = [] ↔ a' = []) (h' : b = [] ↔ b' = []) :
    (if c then a else b) = [] ↔ (if c then a' else b') = [] := by
  by_cases hc : c
  · rw [if_pos hc, if_pos hc, h]
  · rw [if_neg hc, if_neg hc, h']

section Paths

variable (ir : Document)

theorem checkWhere_path (scope : List Table) (base : Table) (path place : String)
    (filter : Option (List Condition)) (required : Bool) :
    checkWhere scope base path filter required = [] ↔
      checkWhere scope base place filter required = [] := by
  unfold checkWhere
  cases filter with
  | none => exact demand_congr
  | some conditions =>
      refine ite_congr_nil singleton_congr (eachIdx_congr fun i condition => ?_)
      refine append_congr (append_congr (append_congr demand_congr demand_congr) ?_) demand_congr
      cases scopedTable scope base condition.table with
      | none => exact singleton_congr
      | some target => exact demand_congr

theorem checkJoinRef_path (scope : List Table) (path place : String) (ref : JoinRef) :
    (checkJoinRef scope path ref).1 = (checkJoinRef scope place ref).1 ∧
      ((checkJoinRef scope path ref).2 = [] ↔ (checkJoinRef scope place ref).2 = []) := by
  unfold checkJoinRef
  by_cases htable : (!isIdentifier ref.table) = true
  · rw [if_pos htable, if_pos htable]
    exact ⟨rfl, singleton_congr⟩
  rw [if_neg htable, if_neg htable]
  cases scope.find? fun table => table.name = ref.table with
  | none => exact ⟨rfl, singleton_congr⟩
  | some table =>
      dsimp only
      generalize (if isIdentifier ref.column = true then columnByName table ref.column
        else none) = column
      cases column with
      | none => exact ⟨rfl, singleton_congr⟩
      | some column => exact ⟨rfl, Iff.rfl⟩

theorem checkJoinCondition_path (prior scope : List Table) (join : Join) (path place : String)
    (condition : JoinCondition) :
    checkJoinCondition prior scope join path condition = [] ↔
      checkJoinCondition prior scope join place condition = [] := by
  obtain ⟨hleft, hleft'⟩ := checkJoinRef_path scope s!"{path}.left" s!"{place}.left" condition.left
  obtain ⟨hright, hright'⟩ :=
    checkJoinRef_path scope s!"{path}.right" s!"{place}.right" condition.right
  unfold checkJoinCondition
  dsimp only
  rw [hleft, hright]
  refine append_congr (append_congr hleft' hright') ?_
  split
  · exact append_congr (ite_congr_nil singleton_congr demand_congr) demand_congr
  · exact Iff.rfl

theorem checkJoin_path (scope : List Table) (path place : String) (join : Join) :
    (checkJoin ir scope path join).1 = (checkJoin ir scope place join).1 ∧
      ((checkJoin ir scope path join).2 = [] ↔ (checkJoin ir scope place join).2 = []) := by
  unfold checkJoin
  by_cases hname : (!isIdentifier join.table) = true
  · rw [if_pos hname, if_pos hname]
    exact ⟨rfl, singleton_congr⟩
  rw [if_neg hname, if_neg hname]
  cases tableByName ir join.table with
  | none => exact ⟨rfl, singleton_congr⟩
  | some target =>
      dsimp only
      by_cases hseen : (scope.any fun table => table.name = join.table) = true
      · rw [if_pos hseen, if_pos hseen]
        exact ⟨rfl, singleton_congr⟩
      rw [if_neg hseen, if_neg hseen]
      exact ⟨rfl, ite_congr_nil singleton_congr
        (eachIdx_congr fun i condition => checkJoinCondition_path _ _ _ _ _ _)⟩

theorem checkJoinList_path (path place : String) (i k : ℕ) (scope : List Table)
    (joins : List Join) :
    (checkJoinList ir path i scope joins).1 = (checkJoinList ir place k scope joins).1 ∧
      ((checkJoinList ir path i scope joins).2 = [] ↔
        (checkJoinList ir place k scope joins).2 = []) := by
  induction joins generalizing i k scope with
  | nil => exact ⟨rfl, Iff.rfl⟩
  | cons join joins ih =>
      obtain ⟨hscope, hstep⟩ :=
        checkJoin_path ir scope s!"{path}.joins[{i}]" s!"{place}.joins[{k}]" join
      obtain ⟨hrest, hnil⟩ :=
        ih (i + 1) (k + 1) (checkJoin ir scope s!"{place}.joins[{k}]" join).1
      rw [checkJoinList, checkJoinList]
      dsimp only
      rw [hscope]
      exact ⟨hrest, append_congr hstep hnil⟩

theorem checkJoins_path (base : Table) (path place : String) (joins : Option (List Join)) :
    (checkJoins ir base path joins).1 = (checkJoins ir base place joins).1 ∧
      ((checkJoins ir base path joins).2 = [] ↔ (checkJoins ir base place joins).2 = []) := by
  unfold checkJoins
  split
  · exact ⟨rfl, Iff.rfl⟩
  · exact ⟨rfl, singleton_congr⟩
  · exact checkJoinList_path ir path place 0 0 [base] _

theorem checkOrderBy_path (scope : List Table) (base : Table) (path place : String)
    (orderBy : Option (List OrderTerm)) :
    checkOrderBy scope base path orderBy = [] ↔ checkOrderBy scope base place orderBy = [] := by
  refine eachIdx_congr fun i term => ?_
  dsimp only
  cases scopedTable scope base term.table with
  | none => exact singleton_congr
  | some view => exact demand_congr

theorem checkAssignments_path (table : Table) (path place label : String)
    (list : Option (List Assignment)) :
    checkAssignments table path label list = [] ↔ checkAssignments table place label list = [] := by
  unfold checkAssignments
  split
  · exact singleton_congr
  · exact singleton_congr
  · exact eachIdx_congr fun i item =>
      ite_congr_nil singleton_congr (append_congr demand_congr demand_congr)

theorem checkConflict_path (table : Table) (path place : String) (onConflict : Option Conflict) :
    checkConflict table path onConflict = [] ↔ checkConflict table place onConflict = [] := by
  unfold checkConflict
  cases onConflict with
  | none => exact singleton_congr
  | some policy =>
      dsimp only
      refine append_congr ?_ ?_
      · exact ite_congr_nil singleton_congr (append_congr
          (eachIdx_congr fun i name => append_congr demand_congr demand_congr) demand_congr)
      · cases policy.action with
        | nothing => exact demand_congr
        | update => exact checkAssignments_path _ _ _ _ _

/-- Whether a query is accepted does not depend on its place. -/
theorem checkQuery_index (i j : ℕ) (query : Query) :
    checkQuery ir i query = [] ↔ checkQuery ir j query = [] := by
  unfold checkQuery
  dsimp only
  refine append_congr (append_congr demand_congr demand_congr) ?_
  cases tableByName ir query.table with
  | none => exact singleton_congr
  | some table =>
      dsimp only
      refine append_congr ?_ (eachIdx_congr fun k param => demand_congr)
      have hinsert : checkInsert table query s!"$.queries[{i}]" = [] ↔
          checkInsert table query s!"$.queries[{j}]" = [] := by
        unfold checkInsert
        dsimp only
        refine append_congr (append_congr (append_congr demand_congr ?_)
          (checkAssignments_path _ _ _ _ _)) ?_
        · exact ite_congr_nil (checkConflict_path _ _ _ _) demand_congr
        · rw [List.flatMap_eq_nil_iff, List.flatMap_eq_nil_iff]
          exact forall_congr' fun column => forall_congr' fun _ => demand_congr
      have hkeyed : checkKeyedMutation table query s!"$.queries[{i}]" = [] ↔
          checkKeyedMutation table query s!"$.queries[{j}]" = [] := demand_congr
      cases query.kind with
      | select =>
          obtain ⟨hscope, hjoins⟩ :=
            checkJoins_path ir table s!"$.queries[{i}]" s!"$.queries[{j}]" query.joins
          change checkSelect ir table query s!"$.queries[{i}]" = [] ↔
            checkSelect ir table query s!"$.queries[{j}]" = []
          unfold checkSelect
          dsimp only
          rw [hscope]
          exact append_congr (append_congr (append_congr (append_congr (append_congr
            (append_congr demand_congr hjoins) (checkWhere_path _ _ _ _ _ _))
            (checkOrderBy_path _ _ _ _ _)) demand_congr) demand_congr) demand_congr
      | insert => exact hinsert
      | upsert => exact hinsert
      | update =>
          exact append_congr (append_congr (append_congr demand_congr
            (checkAssignments_path _ _ _ _ _)) (checkWhere_path _ _ _ _ _ _)) hkeyed
      | delete =>
          exact append_congr (append_congr demand_congr (checkWhere_path _ _ _ _ _ _)) hkeyed

end Paths

/-! ## Other queries do not matter -/

section Tables

variable (tables : List Table) (queries queries' : List Query)

theorem checkJoinList_tables (path : String) (i : ℕ) (scope : List Table) (joins : List Join) :
    checkJoinList ⟨tables, queries⟩ path i scope joins =
      checkJoinList ⟨tables, queries'⟩ path i scope joins := by
  induction joins generalizing i scope with
  | nil => rfl
  | cons join joins ih =>
      have hstep : checkJoin ⟨tables, queries⟩ scope s!"{path}.joins[{i}]" join =
          checkJoin ⟨tables, queries'⟩ scope s!"{path}.joins[{i}]" join := rfl
      rw [checkJoinList, checkJoinList, hstep, ih]

theorem checkSelect_tables (table : Table) (query : Query) (path : String) :
    checkSelect ⟨tables, queries⟩ table query path =
      checkSelect ⟨tables, queries'⟩ table query path := by
  have hjoins : checkJoins ⟨tables, queries⟩ table path query.joins =
      checkJoins ⟨tables, queries'⟩ table path query.joins := by
    unfold checkJoins
    split
    · rfl
    · rfl
    · exact checkJoinList_tables tables queries queries' path 0 [table] _
  rw [checkSelect, checkSelect, hjoins]

/-- A query is checked against the tables alone. -/
theorem checkQuery_tables (i : ℕ) (query : Query) :
    checkQuery ⟨tables, queries⟩ i query = checkQuery ⟨tables, queries'⟩ i query := by
  have htable : tableByName ⟨tables, queries⟩ query.table =
    tableByName ⟨tables, queries'⟩ query.table := rfl
  unfold checkQuery
  rw [htable]
  cases tableByName ⟨tables, queries'⟩ query.table with
  | none => rfl
  | some table =>
      cases hkind : query.kind with
      | select =>
          simp only [checkSelect_tables tables queries queries']
          rfl
      | insert => rfl
      | upsert => rfl
      | update => rfl
      | delete => rfl
end Tables

theorem checkQueryNames_index (ir : Document) (i j : ℕ) (query : Query) :
    checkQueryNames ir i query = [] ↔ checkQueryNames ir j query = [] := by
  unfold checkQueryNames
  dsimp only
  cases tableByName ir query.table with
  | none => exact Iff.rfl
  | some table =>
      dsimp only
      refine append_congr ?_ ?_
      · exact ite_congr_nil Iff.rfl demand_congr
      · rw [List.flatMap_eq_nil_iff, List.flatMap_eq_nil_iff]
        refine forall_congr' fun param => forall_congr' fun _ => append_congr ?_ demand_congr
        refine ite_congr_nil Iff.rfl (append_congr (append_congr demand_congr demand_congr) ?_)
        split
        · exact Iff.rfl
        · exact singleton_congr

/-! ## Lists of names -/

theorem seenBefore_of_nodup {α κ : Type} [DecidableEq κ] {key : α → κ} {l : List α}
    (h : (l.map key).Nodup) {i : ℕ} (hi : i < l.length) : seenBefore key l i l[i] = false := by
  rw [seenBefore, List.any_eq_false]
  intro b hb hkey
  obtain ⟨j, hj, rfl⟩ := List.mem_take_iff_getElem.mp hb
  have hlt : j < i := lt_of_lt_of_le hj (min_le_left i l.length)
  have hne := List.pairwise_iff_getElem.mp h j i (by simpa using hlt.trans hi) (by simpa using hi) hlt
  rw [List.getElem_map, List.getElem_map] at hne
  exact hne (of_decide_eq_true hkey)

theorem checkOrder_nil {message : String} {previous : Option String}
    {entries : List (String × String)} :
    checkOrder message previous entries = [] ↔
      (previous.toList ++ entries.map Prod.snd).Pairwise fun a b => nameUnits a ≤ nameUnits b := by
  induction entries generalizing previous with
  | nil => cases previous <;> simp [checkOrder]
  | cons entry rest ih =>
      obtain ⟨path, name⟩ := entry
      rw [checkOrder, List.append_eq_nil_iff, demand_eq_nil, ih]
      cases previous with
      | none => simp
      | some p =>
          simp only [Option.all_some, decide_eq_true_eq, Option.toList_some, List.singleton_append,
            List.map_cons, List.pairwise_cons (a := p)]
          constructor
          · rintro ⟨hle, hrest⟩
            refine ⟨List.forall_mem_cons.mpr ⟨hle, fun b hb => ?_⟩, hrest⟩
            exact List.le_trans hle (List.rel_of_pairwise_cons hrest hb)
          · rintro ⟨hall, hrest⟩
            exact ⟨hall name List.mem_cons_self, hrest⟩

/-! ## Generated names -/

/-- Two names that are generated for queries of one table, or bridge functions of one name, are
of one query. -/
def Apart (schemaName : String) (a b : Query) : Prop :=
  (methodKey a = methodKey b → a.name = b.name) ∧
    (bridgeFunctionName schemaName a.name = bridgeFunctionName schemaName b.name →
      a.name = b.name)

theorem recordName_nil {message : String → String} {key name path : String} {map : FormMap} :
    (recordName message key name path map).2 = [] ↔ ∀ n ∈ map.lookup key, n = name := by
  unfold recordName
  cases map.lookup key with
  | none => simp
  | some prior =>
      by_cases h : prior = name
      · simp [h]
      · simp [h]

/-- What is recorded without a diagnostic is there for the names behind it. -/
theorem recordName_lookup {message : String → String} {key name path : String} {map : FormMap}
    (h : (recordName message key name path map).2 = []) (key' name' : String) :
    (∀ n ∈ (recordName message key name path map).1.lookup key', n = name') ↔
      (key = key' → name = name') ∧ ∀ n ∈ map.lookup key', n = name' := by
  have hprior := recordName_nil.mp h
  have hmap : (recordName message key name path map).1 = (key, name) :: map := by
    unfold recordName
    cases hlookup : map.lookup key with
    | none => rfl
    | some prior =>
        dsimp only
        rw [if_neg (not_not.mpr (hprior prior hlookup))]
  rw [hmap, List.lookup_cons]
  by_cases hkey : key' = key
  · subst hkey
    simp only [BEq.rfl, Option.mem_def, Option.some.injEq, forall_eq', true_imp_iff]
    refine ⟨fun hname => ⟨hname, fun n hn => (hprior n hn).trans hname⟩, fun hboth => hboth.1⟩
  · rw [show (key' == key) = false from beq_eq_false_iff_ne.mpr hkey]
    simp only [true_and, Ne.symm hkey, false_imp_iff]

theorem checkGenerated_nil {schemaName : String} {i : ℕ} {methods bridges : FormMap}
    {queries : List Query} (hnames : ∀ q ∈ queries, isQueryName q.name = true) :
    checkGenerated schemaName i methods bridges queries = [] ↔
      (∀ q ∈ queries, (∀ n ∈ methods.lookup (methodKey q), n = q.name) ∧
        ∀ n ∈ bridges.lookup (bridgeFunctionName schemaName q.name), n = q.name) ∧
      queries.Pairwise (Apart schemaName) := by
  induction queries generalizing i methods bridges with
  | nil => simp [checkGenerated]
  | cons query rest ih =>
      obtain ⟨hname, hrest⟩ := List.forall_mem_cons.mp hnames
      rw [checkGenerated, hname, Bool.not_true, if_neg Bool.false_ne_true]
      dsimp only
      rw [List.append_eq_nil_iff, List.append_eq_nil_iff, ih hrest, List.pairwise_cons,
        List.forall_mem_cons]
      constructor
      · rintro ⟨⟨hmethod, hbridge⟩, hlookup, hpairwise⟩
        have hboth (q : Query) (hq : q ∈ rest) :=
          (hlookup q hq).imp (recordName_lookup hmethod _ _).mp (recordName_lookup hbridge _ _).mp
        exact ⟨⟨⟨recordName_nil.mp hmethod, recordName_nil.mp hbridge⟩,
          fun q hq => ⟨(hboth q hq).1.2, (hboth q hq).2.2⟩⟩,
          fun q hq => ⟨(hboth q hq).1.1, (hboth q hq).2.1⟩, hpairwise⟩
      · rintro ⟨⟨⟨hmethod, hbridge⟩, hlookup⟩, hapart, hpairwise⟩
        refine ⟨⟨recordName_nil.mpr hmethod, recordName_nil.mpr hbridge⟩, fun q hq => ?_, hpairwise⟩
        exact ⟨(recordName_lookup (recordName_nil.mpr hmethod) _ _).mpr
            ⟨(hapart q hq).1, (hlookup q hq).1⟩,
          (recordName_lookup (recordName_nil.mpr hbridge) _ _).mpr
            ⟨(hapart q hq).2, (hlookup q hq).2⟩⟩

/-! ## Accepted documents -/

/-- What is demanded of everything but the queries. -/
structure TablesAccepted (doc : NamedDocument) : Prop where
  tables : checkTables (doc.tables.map TableDecl.toTable) = []
  declarations : eachIdx doc.tables checkTableDecl = []
  relational : checkRelationalSchema doc.toDeclarations = []
  forms : checkTableForms doc = []

theorem TablesAccepted.queries {doc : NamedDocument} (h : TablesAccepted doc)
    (queries : List Query) : TablesAccepted { doc with queries := queries } :=
  ⟨h.tables, h.declarations, h.relational, h.forms⟩

/-- A query is accepted over the tables of a document. -/
def QueryAccepted (ir : Document) (query : Query) : Prop :=
  checkQuery ir 0 query = [] ∧ checkQueryNames ir 0 query = []

theorem QueryAccepted.tables {tables : List Table} {queries queries' : List Query} {query : Query} :
    QueryAccepted ⟨tables, queries⟩ query ↔ QueryAccepted ⟨tables, queries'⟩ query := by
  unfold QueryAccepted
  rw [checkQuery_tables tables queries queries']
  rfl

theorem QueryAccepted.name {ir : Document} {query : Query} (h : QueryAccepted ir query) :
    isQueryName query.name = true := by
  have hcheck := h.1
  unfold checkQuery at hcheck
  dsimp only at hcheck
  rw [List.append_eq_nil_iff, List.append_eq_nil_iff, demand_eq_nil] at hcheck
  exact hcheck.1.1

theorem checkQueries_nil {ir : Document} :
    checkQueries ir = [] ↔
      (∀ q ∈ ir.queries, checkQuery ir 0 q = []) ∧ (ir.queries.map Query.name).Nodup := by
  unfold checkQueries
  rw [eachIdx_eq_nil]
  simp only [List.append_eq_nil_iff, demand_eq_nil, Bool.not_eq_true']
  constructor
  · intro h
    refine ⟨fun q hq => ?_, nodup_of_seenBefore fun i hi => (h i hi).2⟩
    obtain ⟨i, hi, rfl⟩ := List.getElem_of_mem hq
    exact (checkQuery_index ir i 0 _).mp (h i hi).1
  · rintro ⟨hqueries, hnodup⟩ i hi
    exact ⟨(checkQuery_index ir 0 i _).mp (hqueries _ (List.getElem_mem hi)),
      seenBefore_of_nodup hnodup hi⟩

/-- A document is accepted by its tables, by each query of its own, and by the names of its
queries together. -/
theorem validateNamed_nil {doc : NamedDocument} :
    validateNamed doc = [] ↔ TablesAccepted doc ∧
      (∀ q ∈ doc.queries, QueryAccepted doc.document q) ∧ (doc.queries.map Query.name).Nodup ∧
      (doc.queries.Pairwise fun a b => nameUnits a.name ≤ nameUnits b.name) ∧
      doc.queries.Pairwise (Apart doc.schemaName) := by
  have hnames : (doc.queries.zipIdx.map fun p => (s!"$.queries[{p.2}].name", p.1.name)).map
      Prod.snd = doc.queries.map Query.name := by
    rw [List.map_map]
    change doc.queries.zipIdx.map (Query.name ∘ Prod.fst) = _
    rw [← List.map_map, List.zipIdx_map_fst]
  have horder : checkOrder "queries must be sorted by name for deterministic IR v1" none
      (doc.queries.zipIdx.map fun p => (s!"$.queries[{p.2}].name", p.1.name)) = [] ↔
      doc.queries.Pairwise fun a b => nameUnits a.name ≤ nameUnits b.name := by
    rw [checkOrder_nil, hnames, Option.toList_none, List.nil_append, List.pairwise_map]
  have hindexed : eachIdx doc.queries (checkQueryNames doc.document) = [] ↔
      ∀ q ∈ doc.queries, checkQueryNames doc.document 0 q = [] := by
    rw [eachIdx_eq_nil]
    constructor
    · intro h q hq
      obtain ⟨i, hi, rfl⟩ := List.getElem_of_mem hq
      exact (checkQueryNames_index doc.document i 0 _).mp (h i hi)
    · intro h i hi
      exact (checkQueryNames_index doc.document 0 i _).mp (h _ (List.getElem_mem hi))
  unfold validateNamed validateDeclarations validateDocument checkQueryForms
  simp only [List.append_eq_nil_iff, checkQueries_nil, horder, hindexed]
  constructor
  · rintro ⟨⟨⟨⟨⟨htables, hqueries, hnodup⟩, hdeclarations⟩, hrelational⟩, hforms⟩, ⟨hquery, hsorted⟩,
      hgenerated⟩
    have haccepted : ∀ q ∈ doc.queries, QueryAccepted doc.document q :=
      fun q hq => ⟨hqueries q hq, hquery q hq⟩
    refine ⟨⟨htables, hdeclarations, hrelational, hforms⟩, haccepted, hnodup, hsorted, ?_⟩
    exact ((checkGenerated_nil fun q hq => (haccepted q hq).name).mp hgenerated).2
  · rintro ⟨htables, haccepted, hnodup, hsorted, hapart⟩
    refine ⟨⟨⟨⟨⟨htables.tables, fun q hq => (haccepted q hq).1, hnodup⟩, htables.declarations⟩,
      htables.relational⟩, htables.forms⟩, ⟨fun q hq => (haccepted q hq).2, hsorted⟩, ?_⟩
    refine (checkGenerated_nil fun q hq => (haccepted q hq).name).mpr ⟨fun q hq => ?_, hapart⟩
    exact ⟨fun n hn => (nomatch hn), fun n hn => (nomatch hn)⟩

end Esdb.Schema
