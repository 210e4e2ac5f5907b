import Esdb.SchemaSelect

/-!
# Selects of cardinality one

A query says `one` when its result has at most one row. The validation asks that the
where clause covers a key of the query's own table, which is enough without joins. With
joins it is not: a row may match many rows of a joined table. What decides is whether
the conditions and the join equalities fix a key of every joined table.
-/
namespace Esdb.Schema

/-! ## What an accepted document promises -/

theorem mem_of_find {α : Type} {l : List α} {p : α → Bool} {a : α} (h : l.find? p = some a) :
    a ∈ l ∧ p a = true := ⟨List.mem_of_find?_eq_some h, List.find?_some h⟩

/-- A search by a key that tells the elements apart finds the one it looks for. -/
theorem find_by_key {α κ : Type} [DecidableEq κ] (key : α → κ) {l : List α} {a : α}
    (ha : a ∈ l) (hinj : ∀ b ∈ l, key b = key a → b = a) : l.find? (fun b => key b = key a) = some a := by
  rcases hfind : l.find? (fun b => decide (key b = key a)) with _ | b
  · rw [List.find?_eq_none] at hfind
    exact absurd (decide_eq_true rfl) (hfind a ha)
  · obtain ⟨hb, hkey⟩ := mem_of_find hfind
    rw [hinj b hb (of_decide_eq_true hkey)]

theorem inj_of_nodup {α κ : Type} (key : α → κ) {l : List α} (h : (l.map key).Nodup) {a : α}
    (ha : a ∈ l) : ∀ b ∈ l, key b = key a → b = a :=
  fun _ hb he => List.inj_on_of_nodup_map h hb ha he

structure TableNames (table : Table) : Prop where
  names : (table.columns.map Column.name).Nodup
  sqlNames : (table.columns.map fun c => c.sqlName.toLower).Nodup

/-- Names are unique, SQL names even without regard to case. -/
structure Names (ir : Document) : Prop where
  names : (ir.tables.map Table.name).Nodup
  sqlNames : (ir.tables.map fun t => t.sqlName.toLower).Nodup
  tables : ∀ table ∈ ir.tables, TableNames table

theorem checkColumns_names {path : String} {table : Table}
    (h : checkColumns path table.columns = []) : TableNames table := by
  unfold checkColumns at h
  rw [eachIdx_eq_nil] at h
  constructor
  · apply nodup_of_seenBefore
    intro i hi
    have := h i hi
    rw [List.append_eq_nil_iff, List.append_eq_nil_iff, demand_eq_nil] at this
    simpa using this.1.2
  · apply nodup_of_seenBefore
    intro i hi
    have := h i hi
    rw [List.append_eq_nil_iff, demand_eq_nil] at this
    simpa using this.2

theorem checkTable_names {i : ℕ} {table : Table} (h : checkTable i table = []) :
    TableNames table := by
  unfold checkTable at h
  rw [List.append_eq_nil_iff] at h
  have h := h.2
  split_ifs at h
  rw [List.append_eq_nil_iff, List.append_eq_nil_iff] at h
  exact checkColumns_names h.1.1

theorem validate_names {ir : Document} (h : validateDocument ir = []) : Names ir := by
  unfold validateDocument at h
  rw [List.append_eq_nil_iff] at h
  have h := h.1
  unfold checkTables at h
  split_ifs at h
  rw [eachIdx_eq_nil] at h
  have hparts : ∀ (i : ℕ) (hi : i < ir.tables.length), checkTable i ir.tables[i] = [] ∧
      seenBefore Table.name ir.tables i ir.tables[i] = false ∧
      seenBefore (fun t => t.sqlName.toLower) ir.tables i ir.tables[i] = false := by
    intro i hi
    have := h i hi
    rw [List.append_eq_nil_iff, List.append_eq_nil_iff, demand_eq_nil, demand_eq_nil] at this
    exact ⟨this.1.1, by simpa using this.1.2, by simpa using this.2⟩
  refine ⟨nodup_of_seenBefore fun i hi => (hparts i hi).2.1,
    nodup_of_seenBefore fun i hi => (hparts i hi).2.2, fun table hmem => ?_⟩
  obtain ⟨i, hi, rfl⟩ := List.getElem_of_mem hmem
  exact checkTable_names (hparts i hi).1

variable {ir : Document}

theorem Names.tableByName (h : Names ir) {table : Table} (ht : table ∈ ir.tables) :
    tableByName ir table.name = some table :=
  find_by_key Table.name ht (inj_of_nodup Table.name h.names ht)

theorem tableByName_spec {name : String} {table : Table} (h : tableByName ir name = some table) :
    table ∈ ir.tables ∧ table.name = name := by
  obtain ⟨hmem, hname⟩ := mem_of_find h
  exact ⟨hmem, of_decide_eq_true hname⟩

theorem columnByName_spec {table : Table} {name : String} {column : Column}
    (h : columnByName table name = some column) : column ∈ table.columns ∧ column.name = name := by
  obtain ⟨hmem, hname⟩ := mem_of_find h
  exact ⟨hmem, of_decide_eq_true hname⟩

theorem columnByName_of_has {table : Table} {name : String} (h : hasColumn table.columns name = true) :
    ∃ column, columnByName table name = some column := by
  unfold hasColumn at h
  rw [List.any_eq_true] at h
  obtain ⟨column, hmem, hname⟩ := h
  rw [← Option.isSome_iff_exists]
  unfold columnByName
  rw [List.find?_isSome]
  exact ⟨column, hmem, hname⟩

/-! ## What the joins of an accepted query promise -/

def JoinRef.ref (r : JoinRef) : Ref := (r.table, r.column)

def JoinCondition.equality (c : JoinCondition) : Ref × Ref := (c.left.ref, c.right.ref)

def Join.equality (j : Join) : EquiJoin.Join String String :=
  ⟨decide (j.kind = .left), j.table, j.on.map JoinCondition.equality⟩

/-- The column that a reference names. -/
def Declares (ir : Document) (r : Ref) (column : Column) : Prop :=
  ∃ table, tableByName ir r.1 = some table ∧ columnByName table r.2 = some column

theorem Declares.typeOf {r : Ref} {column : Column} (h : Declares ir r column) :
    typeOf ir r = column.type := by
  obtain ⟨table, ht, hc⟩ := h
  unfold Schema.typeOf
  rw [ht, Option.bind_some, hc]
  rfl

structure Joins (ir : Document) (scope : List String) (j : Join) : Prop where
  table : ∃ table, tableByName ir j.table = some table
  fresh : j.table ∉ scope
  sides : ∀ c ∈ j.on, (c.left.table = j.table ∧ c.right.table ∈ scope) ∨
    (c.right.table = j.table ∧ c.left.table ∈ scope)
  types : ∀ c ∈ j.on, ∃ left right, Declares ir c.left.ref left ∧ Declares ir c.right.ref right ∧
    left.type = right.type

def JoinsAll (ir : Document) : List String → List Join → Prop
  | _, [] => True
  | scope, j :: js => Joins ir scope j ∧ JoinsAll ir (scope ++ [j.table]) js

theorem checkJoinRef_spec (hn : Names ir) {scope : List Table} (hs : ∀ t ∈ scope, t ∈ ir.tables)
    {path : String} {ref : JoinRef} (h : (checkJoinRef scope path ref).2 = []) :
    ∃ table column, (checkJoinRef scope path ref).1 = some (table, column) ∧
      ref.table ∈ scope.map Table.name ∧ Declares ir ref.ref column := by
  unfold checkJoinRef at h ⊢
  by_cases hid : isIdentifier ref.table = true
  · rw [hid] at h ⊢
    simp only [Bool.not_true, Bool.false_eq_true, if_false] at h ⊢
    rcases hfind : scope.find? (fun table => decide (table.name = ref.table)) with _ | table
    · rw [hfind] at h
      exact nomatch h
    · rw [hfind] at h
      obtain ⟨hmem, hname⟩ := mem_of_find hfind
      have hname := of_decide_eq_true hname
      dsimp only at h ⊢
      rcases hcol : (if isIdentifier ref.column = true then columnByName table ref.column
          else none) with _ | column
      · rw [hcol] at h
        exact nomatch h
      · refine ⟨table, column, by simp only [hfind, hcol], hname ▸ List.mem_map_of_mem hmem,
          table, ?_, ?_⟩
        · change tableByName ir ref.table = some table
          rw [← hname]
          exact hn.tableByName (hs table hmem)
        · split_ifs at hcol
          exact hcol
  · simp [hid] at h

theorem checkJoinCondition_spec (hn : Names ir) {prior scope : List Table}
    (hs : ∀ t ∈ scope, t ∈ ir.tables) {join : Join} {path : String} {c : JoinCondition}
    (h : checkJoinCondition prior scope join path c = []) :
    ((c.left.table = join.table ∧ c.right.table ∈ prior.map Table.name) ∨
      (c.right.table = join.table ∧ c.left.table ∈ prior.map Table.name)) ∧
      ∃ left right, Declares ir c.left.ref left ∧ Declares ir c.right.ref right ∧
        left.type = right.type := by
  unfold checkJoinCondition at h
  dsimp only at h
  rw [List.append_eq_nil_iff, List.append_eq_nil_iff] at h
  obtain ⟨⟨hleft, hright⟩, h⟩ := h
  obtain ⟨lt, lc, hl, -, hld⟩ := checkJoinRef_spec hn hs hleft
  obtain ⟨rt, rc, hr, -, hrd⟩ := checkJoinRef_spec hn hs hright
  rw [hl, hr] at h
  dsimp only at h
  rw [List.append_eq_nil_iff, demand_eq_nil] at h
  obtain ⟨hside, htype⟩ := h
  refine ⟨?_, lc, rc, hld, hrd, of_decide_eq_true htype⟩
  have hany : ∀ {name : String}, (prior.any fun table => decide (table.name = name)) = true →
      name ∈ prior.map Table.name := by
    intro name hname
    obtain ⟨table, hmem, he⟩ := List.any_eq_true.mp hname
    exact List.mem_map.mpr ⟨table, hmem, of_decide_eq_true he⟩
  by_cases hlt : c.left.table = join.table
  · by_cases hrt : c.right.table = join.table
    · simp [hlt, hrt] at hside
    · simp only [hlt, hrt, decide_true, decide_false, Bool.true_eq_false, if_false, if_true,
        demand_eq_nil] at hside
      exact Or.inl ⟨hlt, hany hside⟩
  · by_cases hrt : c.right.table = join.table
    · simp only [hlt, hrt, decide_true, decide_false, Bool.false_eq_true, if_false,
        demand_eq_nil] at hside
      exact Or.inr ⟨hrt, hany hside⟩
    · simp [hlt, hrt] at hside

theorem checkJoin_spec (hn : Names ir) {scope : List Table} (hs : ∀ t ∈ scope, t ∈ ir.tables)
    {path : String} {join : Join} (h : (checkJoin ir scope path join).2 = []) :
    ∃ target ∈ ir.tables, target.name = join.table ∧
      (checkJoin ir scope path join).1 = scope ++ [target] ∧
      Joins ir (scope.map Table.name) join := by
  unfold checkJoin at h ⊢
  by_cases hid : isIdentifier join.table = true
  · rw [hid] at h ⊢
    simp only [Bool.not_true, Bool.false_eq_true, if_false] at h ⊢
    rcases hfind : tableByName ir join.table with _ | target
    · rw [hfind] at h
      exact nomatch h
    · rw [hfind] at h
      obtain ⟨hmem, hname⟩ := tableByName_spec hfind
      dsimp only at h ⊢
      by_cases hin : (scope.any fun table => decide (table.name = join.table)) = true
      · rw [if_pos hin] at h
        exact nomatch h
      · rw [if_neg hin] at h ⊢
        dsimp only at h ⊢
        split_ifs at h
        have hs' : ∀ t ∈ scope ++ [target], t ∈ ir.tables := by
          intro t ht
          rcases List.mem_append.mp ht with ht | ht
          · exact hs t ht
          · exact List.mem_singleton.mp ht ▸ hmem
        refine ⟨target, hmem, hname, rfl, ⟨⟨target, hfind⟩, ?_, ?_, ?_⟩⟩
        · intro hfresh
          obtain ⟨t, ht, he⟩ := List.mem_map.mp hfresh
          exact hin (List.any_eq_true.mpr ⟨t, ht, decide_eq_true he⟩)
        · intro c hc
          obtain ⟨i, hi⟩ := eachIdx_mem h hc
          exact (checkJoinCondition_spec hn hs' hi).1
        · intro c hc
          obtain ⟨i, hi⟩ := eachIdx_mem h hc
          exact (checkJoinCondition_spec hn hs' hi).2
  · simp [hid] at h

theorem checkJoinList_spec (hn : Names ir) {path : String} (i : ℕ) (scope : List Table)
    (joins : List Join) (hs : ∀ t ∈ scope, t ∈ ir.tables)
    (h : (checkJoinList ir path i scope joins).2 = []) :
    (∀ t ∈ (checkJoinList ir path i scope joins).1, t ∈ ir.tables) ∧
      (checkJoinList ir path i scope joins).1.map Table.name =
        scope.map Table.name ++ joins.map Join.table ∧
      JoinsAll ir (scope.map Table.name) joins := by
  induction joins generalizing i scope with
  | nil =>
    refine ⟨hs, ?_, trivial⟩
    rw [List.map_nil, List.append_nil]
    rfl
  | cons join joins ih =>
    unfold checkJoinList at h ⊢
    dsimp only at h ⊢
    rw [List.append_eq_nil_iff] at h
    obtain ⟨target, hmem, hname, hscope, hjoin⟩ := checkJoin_spec hn hs h.1
    rw [hscope] at h ⊢
    have hs' : ∀ t ∈ scope ++ [target], t ∈ ir.tables := by
      intro t ht
      rcases List.mem_append.mp ht with ht | ht
      · exact hs t ht
      · exact List.mem_singleton.mp ht ▸ hmem
    obtain ⟨htables, hnames, hrest⟩ := ih (i + 1) (scope ++ [target]) hs' h.2
    rw [List.map_append, List.map_singleton, hname] at hnames hrest
    refine ⟨htables, ?_, hjoin, hrest⟩
    rw [hnames, List.append_assoc]
    rfl

theorem checkJoins_spec (hn : Names ir) {base : Table} (hb : base ∈ ir.tables) {path : String}
    {joins : Option (List Join)} (h : (checkJoins ir base path joins).2 = []) :
    (∀ t ∈ (checkJoins ir base path joins).1, t ∈ ir.tables) ∧
      (checkJoins ir base path joins).1.map Table.name =
        base.name :: (joins.getD []).map Join.table ∧
      JoinsAll ir [base.name] (joins.getD []) := by
  have hs : ∀ t ∈ [base], t ∈ ir.tables := fun t ht => List.mem_singleton.mp ht ▸ hb
  unfold checkJoins at h ⊢
  rcases joins with _ | (_ | ⟨join, joins⟩)
  · exact ⟨hs, rfl, trivial⟩
  · exact nomatch h
  · exact checkJoinList_spec hn 0 [base] (join :: joins) hs h

theorem JoinsAll.scoped {scope : List String} {joins : List Join} (h : JoinsAll ir scope joins) :
    EquiJoin.Scoped scope (joins.map Join.equality) := by
  induction joins generalizing scope with
  | nil => trivial
  | cons j js ih =>
    refine ⟨h.1.fresh, fun p hp => ?_, ih h.2⟩
    obtain ⟨c, hc, rfl⟩ := List.mem_map.mp hp
    exact h.1.sides c hc

theorem JoinsAll.mem {scope : List String} {joins : List Join} (h : JoinsAll ir scope joins)
    {j : Join} (hj : j ∈ joins) :
    ∃ scope', Joins ir scope' j ∧ ∀ t ∈ scope', t ∈ scope ++ joins.map Join.table := by
  induction joins generalizing scope with
  | nil => exact nomatch hj
  | cons j' js ih =>
    rcases List.mem_cons.mp hj with rfl | hj
    · exact ⟨scope, h.1, fun t ht => List.mem_append_left _ ht⟩
    · obtain ⟨scope', hjoin, hsub⟩ := ih h.2 hj
      refine ⟨scope', hjoin, fun t ht => ?_⟩
      have := hsub t ht
      rwa [List.append_assoc] at this


/-! ## What an accepted select promises -/

/-- The tables of the query. -/
def Query.scope (q : Query) : List String := q.table :: (q.joins.getD []).map Join.table

def Query.equalities (q : Query) : List (EquiJoin.Join String String) :=
  (q.joins.getD []).map Join.equality

/-- The columns that the where clause compares with parameters. -/
def Query.refs (q : Query) : List Ref :=
  (q.filter.getD []).map fun c => (c.table.getD q.table, c.column)

def Query.orderRefs (q : Query) : List (Ref × Direction) :=
  (q.orderBy.getD []).map fun t => ((t.table.getD q.table, t.column), t.direction)

theorem Query.scope_eq (q : Query) :
    q.scope = q.table :: q.equalities.map EquiJoin.Join.table := by
  unfold Query.scope Query.equalities
  rw [List.map_map]
  rfl

structure Selects (ir : Document) (base : Table) (q : Query) : Prop where
  mem : base ∈ ir.tables
  name : base.name = q.table
  joins : JoinsAll ir [q.table] (q.joins.getD [])
  refs : ∀ r ∈ q.refs, r.1 ∈ q.scope ∧ ∃ column, Declares ir r column
  orderRefs : ∀ p ∈ q.orderRefs, p.1.1 ∈ q.scope ∧ ∃ column, Declares ir p.1 column
  keyed : isKeyedWhere base q.whereColumns = true

theorem scopedTable_spec (hn : Names ir) {scope : List Table} (hs : ∀ t ∈ scope, t ∈ ir.tables)
    {base : Table} {requested : Option String} {target : Table} {column : String}
    (h : scopedTable scope base requested = some target)
    (hc : hasColumn target.columns column = true) :
    requested.getD base.name ∈ scope.map Table.name ∧
      ∃ c, Declares ir (requested.getD base.name, column) c := by
  obtain ⟨hmem, hname⟩ := mem_of_find h
  have hname := of_decide_eq_true hname
  obtain ⟨c, hcol⟩ := columnByName_of_has hc
  refine ⟨hname ▸ List.mem_map_of_mem hmem, c, target, ?_, hcol⟩
  change tableByName ir (requested.getD base.name) = some target
  rw [← hname]
  exact hn.tableByName (hs target hmem)

theorem checkWhere_spec (hn : Names ir) {scope : List Table} (hs : ∀ t ∈ scope, t ∈ ir.tables)
    {base : Table} {path : String} {filter : Option (List Condition)} {required : Bool}
    (h : checkWhere scope base path filter required = []) :
    ∀ c ∈ filter.getD [], c.table.getD base.name ∈ scope.map Table.name ∧
      ∃ column, Declares ir (c.table.getD base.name, c.column) column := by
  unfold checkWhere at h
  intro c hc
  rcases filter with _ | conditions
  · exact nomatch hc
  · change (if conditions.isEmpty then _ else _) = [] at h
    split_ifs at h
    obtain ⟨i, hi⟩ := eachIdx_mem h hc
    dsimp only at hi
    rw [List.append_eq_nil_iff, List.append_eq_nil_iff] at hi
    have htarget := hi.1.2
    rcases hfind : scopedTable scope base c.table with _ | target
    · rw [hfind] at htarget
      exact nomatch htarget
    · rw [hfind] at htarget
      dsimp only at htarget
      rw [demand_eq_nil, Bool.and_eq_true] at htarget
      exact scopedTable_spec hn hs hfind htarget.2

theorem checkOrderBy_spec (hn : Names ir) {scope : List Table} (hs : ∀ t ∈ scope, t ∈ ir.tables)
    {base : Table} {path : String} {orderBy : Option (List OrderTerm)}
    (h : checkOrderBy scope base path orderBy = []) :
    ∀ t ∈ orderBy.getD [], t.table.getD base.name ∈ scope.map Table.name ∧
      ∃ column, Declares ir (t.table.getD base.name, t.column) column := by
  unfold checkOrderBy at h
  intro t ht
  obtain ⟨i, hi⟩ := eachIdx_mem h ht
  dsimp only at hi
  rcases hfind : scopedTable scope base t.table with _ | target
  · rw [hfind] at hi
    exact nomatch hi
  · rw [hfind] at hi
    dsimp only at hi
    rw [demand_eq_nil, Bool.and_eq_true] at hi
    exact scopedTable_spec hn hs hfind hi.2

/-- What the validation of a select says of the tables and columns it names. -/
structure Scoped (ir : Document) (base : Table) (q : Query) : Prop where
  mem : base ∈ ir.tables
  name : base.name = q.table
  joins : JoinsAll ir [q.table] (q.joins.getD [])
  refs : ∀ r ∈ q.refs, r.1 ∈ q.scope ∧ ∃ column, Declares ir r column
  orderRefs : ∀ p ∈ q.orderRefs, p.1.1 ∈ q.scope ∧ ∃ column, Declares ir p.1 column

theorem checkSelect_scoped (hn : Names ir) {base : Table} (hb : base ∈ ir.tables) {q : Query}
    (hname : base.name = q.table) {path : String} (h : checkSelect ir base q path = []) :
    Scoped ir base q := by
  unfold checkSelect at h
  dsimp only at h
  simp only [List.append_eq_nil_iff, demand_eq_nil] at h
  obtain ⟨⟨⟨⟨⟨⟨-, hjoins⟩, hwhere⟩, horder⟩, -⟩, -⟩, -⟩ := h
  obtain ⟨htables, hnames, hall⟩ := checkJoins_spec hn hb hjoins
  rw [hname] at hnames hall
  have hscope : (checkJoins ir base path q.joins).1.map Table.name = q.scope := hnames
  constructor
  · exact hb
  · exact hname
  · exact hall
  · intro r hr
    obtain ⟨c, hc, rfl⟩ := List.mem_map.mp hr
    have := checkWhere_spec hn htables hwhere c hc
    rwa [hscope, hname] at this
  · intro p hp
    obtain ⟨t, ht, rfl⟩ := List.mem_map.mp hp
    have := checkOrderBy_spec hn htables horder t ht
    rwa [hscope, hname] at this

theorem checkSelect_spec (hn : Names ir) {base : Table} (hb : base ∈ ir.tables) {q : Query}
    (hname : base.name = q.table) {path : String} (h : checkSelect ir base q path = [])
    (hone : q.cardinality = .one) : Selects ir base q := by
  have hscoped := checkSelect_scoped hn hb hname h
  unfold checkSelect at h
  dsimp only at h
  simp only [List.append_eq_nil_iff, demand_eq_nil] at h
  obtain ⟨-, hkeyed⟩ := h
  rw [hone] at hkeyed
  exact ⟨hscoped.mem, hscoped.name, hscoped.joins, hscoped.refs, hscoped.orderRefs,
    by simpa using hkeyed⟩

theorem checkAssignments_columns {base : Table} {path label : String} {list : Option (List Assignment)}
    (h : checkAssignments base path label list = []) :
    ∃ entries, list = some entries ∧ ∀ a ∈ entries, hasColumn base.columns a.column = true := by
  rcases list with _ | _ | ⟨entry, entries⟩
  · exact nomatch h
  · exact nomatch h
  · refine ⟨_, rfl, fun a ha => ?_⟩
    unfold checkAssignments at h
    obtain ⟨i, hi⟩ := eachIdx_mem h ha
    dsimp only at hi
    split_ifs at hi with hbad
    rw [Bool.not_eq_true', Bool.not_eq_false, Bool.and_eq_true] at hbad
    exact hbad.2

/-- The conditions of a query without joins are on its table. -/
theorem checkWhere_columns (hn : Names ir) {base : Table} (hb : base ∈ ir.tables) {path : String}
    {filter : Option (List Condition)} (h : checkWhere [base] base path filter true = []) :
    ∃ conditions, filter = some conditions ∧
      ∀ c ∈ conditions, ∃ column, columnByName base c.column = some column := by
  have hwhere := checkWhere_spec hn (fun t ht => List.mem_singleton.mp ht ▸ hb) h
  rcases filter with _ | conditions
  · exact nomatch h
  · refine ⟨conditions, rfl, fun c hc => ?_⟩
    obtain ⟨hscope, column, owner, ho, hcol⟩ := hwhere c hc
    rw [List.map_singleton, List.mem_singleton] at hscope
    change tableByName ir (c.table.getD base.name) = some owner at ho
    rw [hscope, hn.tableByName hb] at ho
    obtain rfl := Option.some.inj ho
    exact ⟨column, hcol⟩

/-- A query that was checked, with its table. -/
theorem validate_query {ir : Document} (h : validateDocument ir = []) {q : Query} (hq : q ∈ ir.queries) :
    ∃ base path, tableByName ir q.table = some base ∧
      (match q.kind with
        | .select => checkSelect ir base q path
        | .insert => checkInsert base q path
        | .upsert => checkInsert base q path
        | .update => checkUpdate base q path
        | .delete => checkDelete base q path) = [] ∧
      ((deriveApiParams base q ir).map BindParam.name).Nodup := by
  unfold validateDocument checkQueries at h
  rw [List.append_eq_nil_iff] at h
  obtain ⟨i, hi⟩ := eachIdx_mem h.2 hq
  rw [List.append_eq_nil_iff] at hi
  have hi := hi.1
  unfold checkQuery at hi
  dsimp only at hi
  rw [List.append_eq_nil_iff] at hi
  have hi := hi.2
  rcases hfind : tableByName ir q.table with _ | base
  · rw [hfind] at hi
    exact nomatch hi
  · rw [hfind] at hi
    dsimp only at hi
    rw [List.append_eq_nil_iff, eachIdx_eq_nil] at hi
    refine ⟨base, _, rfl, hi.1, nodup_of_seenBefore fun j hj => ?_⟩
    have hseen := hi.2 j hj
    rw [demand_eq_nil, Bool.not_eq_true'] at hseen
    exact hseen

/-- A query that says `one` is a select, and an accepted one. -/
theorem validate_select (h : validateDocument ir = []) {q : Query} (hq : q ∈ ir.queries)
    (hone : q.cardinality = .one) : q.kind = .select ∧
      ∃ base, tableByName ir q.table = some base ∧ Selects ir base q := by
  have hn := validate_names h
  unfold validateDocument checkQueries at h
  rw [List.append_eq_nil_iff] at h
  obtain ⟨i, hi⟩ := eachIdx_mem h.2 hq
  rw [List.append_eq_nil_iff] at hi
  have hi := hi.1
  unfold checkQuery at hi
  dsimp only at hi
  rw [List.append_eq_nil_iff, List.append_eq_nil_iff, demand_eq_nil, demand_eq_nil] at hi
  obtain ⟨⟨-, hcard⟩, hi⟩ := hi
  have hselect : q.kind = .select := by
    by_contra hkind
    rw [if_neg hkind, hone] at hcard
    exact absurd hcard (by decide)
  refine ⟨hselect, ?_⟩
  rcases hfind : tableByName ir q.table with _ | base
  · rw [hfind] at hi
    exact nomatch hi
  · rw [hfind, hselect] at hi
    dsimp only at hi
    rw [List.append_eq_nil_iff] at hi
    obtain ⟨hb, hname⟩ := tableByName_spec hfind
    exact ⟨base, rfl, checkSelect_spec hn hb hname hi.1 hone⟩

/-! ## The names in the emitted statement are the ones that were meant -/

theorem Names.resolveTable (hn : Names ir) {table : Table} (ht : table ∈ ir.tables) :
    resolveTable ir table.sqlName = some table :=
  find_by_key (fun t : Table => t.sqlName.toLower) ht (inj_of_nodup _ hn.sqlNames ht)

theorem TableNames.resolveIn {table : Table} (hn : TableNames table) {column : Column}
    (hc : column ∈ table.columns) :
    resolveIn table column.sqlName = some (table.name, column.name) := by
  unfold Schema.resolveIn
  rw [find_by_key (fun c : Column => c.sqlName.toLower) hc (inj_of_nodup _ hn.sqlNames hc)]
  rfl

theorem emitColumn_resolves (hn : Names ir) {sources : List Table}
    (hs : ∀ t ∈ sources, t ∈ ir.tables) {owner : Table} (ho : owner ∈ sources)
    {qualified : Bool} (hq : qualified = true ∨ sources = [owner]) {column : String} {c : Column}
    (hc : columnByName owner column = some c) :
    ∃ name, emitColumn qualified owner column = some name ∧
      resolveColumn sources name = some (owner.name, column) := by
  obtain ⟨hmem, rfl⟩ := columnByName_spec hc
  have hin := (hn.tables owner (hs owner ho)).resolveIn hmem
  unfold emitColumn
  rw [hc]
  refine ⟨_, rfl, ?_⟩
  unfold resolveColumn
  rcases qualified with _ | _
  · rcases hq with hq | rfl
    · exact nomatch hq
    · simp only [Bool.false_eq_true, if_false, List.filterMap_cons, hin, List.filterMap_nil]
  · simp only [if_true]
    have hinj : ∀ b ∈ sources, b.sqlName.toLower = owner.sqlName.toLower → b = owner :=
      fun b hb he => inj_of_nodup (fun t : Table => t.sqlName.toLower) hn.sqlNames
        (hs owner ho) b (hs b hb) he
    rw [find_by_key (fun t : Table => t.sqlName.toLower) ho hinj]
    exact hin

theorem mapM_resolves {α β γ : Type} {f : α → Option β} {g : β → Option γ} {m : α → γ}
    {l : List α} (h : ∀ a ∈ l, ∃ b, f a = some b ∧ g b = some (m a)) :
    ∃ l', l.mapM f = some l' ∧ l'.mapM g = some (l.map m) := by
  induction l with
  | nil => exact ⟨[], rfl, rfl⟩
  | cons a l ih =>
    obtain ⟨b, hb, hg⟩ := h a (List.mem_cons_self ..)
    obtain ⟨l', hl, hl'⟩ := ih fun a ha => h a (List.mem_cons_of_mem _ ha)
    refine ⟨b :: l', ?_, ?_⟩
    · rw [List.mapM_cons, hb, hl]
      rfl
    · rw [List.mapM_cons, hg, hl']
      rfl

theorem mapM_eq_map {α β : Type} {f : α → Option β} {m : α → β} {l : List α}
    (h : ∀ a ∈ l, f a = some (m a)) : l.mapM f = some (l.map m) := by
  induction l with
  | nil => rfl
  | cons a l ih =>
    rw [List.mapM_cons, h a (List.mem_cons_self ..), ih fun a ha => h a (List.mem_cons_of_mem _ ha)]
    rfl

/-- The tables whose names are in scope, as the sources of the statement. -/
structure Sources (ir : Document) (sources : List Table) (scope : List String) : Prop where
  tables : ∀ t ∈ sources, t ∈ ir.tables
  names : sources.map Table.name = scope

theorem Sources.declared (hn : Names ir) {sources : List Table} {scope : List String}
    (h : Sources ir sources scope) {r : Ref} (hr : r.1 ∈ scope) {column : Column}
    (hd : Declares ir r column) :
    ∃ owner ∈ sources, tableByName ir r.1 = some owner ∧ owner.name = r.1 ∧
      columnByName owner r.2 = some column := by
  obtain ⟨owner, ht, hc⟩ := hd
  rw [← h.names] at hr
  obtain ⟨t, hmem, hname⟩ := List.mem_map.mp hr
  have := hn.tableByName (h.tables t hmem)
  rw [hname, ht] at this
  obtain rfl := Option.some.inj this
  exact ⟨owner, hmem, ht, hname, hc⟩

theorem emitJoinCondition_resolves (hn : Names ir) {sources : List Table} {scope : List String}
    (h : Sources ir sources scope) {c : JoinCondition} (hl : c.left.table ∈ scope)
    (hr : c.right.table ∈ scope) {left right : Column} (hdl : Declares ir c.left.ref left)
    (hdr : Declares ir c.right.ref right) :
    ∃ p, emitJoinCondition ir c = some p ∧ resolvePair sources p = some c.equality := by
  obtain ⟨lt, hlmem, hltab, hlname, hlcol⟩ := h.declared hn hl hdl
  obtain ⟨rt, hrmem, hrtab, hrname, hrcol⟩ := h.declared hn hr hdr
  obtain ⟨l, hle, hlr⟩ := emitColumn_resolves hn h.tables hlmem (Or.inl rfl) hlcol
  obtain ⟨r, hre, hrr⟩ := emitColumn_resolves hn h.tables hrmem (Or.inl rfl) hrcol
  refine ⟨(l, r), ?_, ?_⟩
  · unfold emitJoinCondition
    change tableByName ir c.left.table = some lt at hltab
    change tableByName ir c.right.table = some rt at hrtab
    change emitColumn true lt c.left.column = some l at hle
    change emitColumn true rt c.right.column = some r at hre
    simp only [hltab, hrtab, hle, hre]
  · unfold resolvePair
    simp only [hlr, hrr, hlname, hrname]
    rfl

theorem emitJoin_resolves (hn : Names ir) {sources : List Table} {scope scope' : List String}
    (h : Sources ir sources scope) {j : Join} (hj : Joins ir scope' j)
    (hsub : ∀ t ∈ scope', t ∈ scope) (hin : j.table ∈ scope) :
    ∃ table clause, tableByName ir j.table = some table ∧ emitJoin ir j = some clause ∧
      resolveTable ir clause.table = some table ∧
      resolveJoin sources clause table = some j.equality := by
  obtain ⟨table, htable⟩ := hj.table
  obtain ⟨hmem, hname⟩ := tableByName_spec htable
  have hon : ∀ c ∈ j.on, ∃ p, emitJoinCondition ir c = some p ∧
      resolvePair sources p = some c.equality := by
    intro c hc
    obtain ⟨left, right, hl, hr, -⟩ := hj.types c hc
    rcases hj.sides c hc with ⟨h₁, h₂⟩ | ⟨h₁, h₂⟩
    · exact emitJoinCondition_resolves hn h (h₁ ▸ hin) (hsub _ h₂) hl hr
    · exact emitJoinCondition_resolves hn h (hsub _ h₂) (h₁ ▸ hin) hl hr
  obtain ⟨on, hemit, hres⟩ := mapM_resolves hon
  refine ⟨table, ⟨j.kind, table.sqlName, on⟩, htable, ?_, hn.resolveTable hmem, ?_⟩
  · unfold emitJoin
    rw [htable, Option.bind_some, hemit]
    rfl
  · unfold resolveJoin Join.equality
    dsimp only
    rw [hres, hname]
    rfl

theorem emitJoins_resolve (hn : Names ir) {sources : List Table} {scope : List String}
    (h : Sources ir sources scope) (joins : List Join)
    (hj : ∀ j ∈ joins, j.table ∈ scope ∧ ∃ scope', Joins ir scope' j ∧ ∀ t ∈ scope', t ∈ scope)
    {joined : List Table} (hjoined : joined.map Table.name = joins.map Join.table)
    (hmem : ∀ t ∈ joined, t ∈ ir.tables) :
    ∃ clauses, joins.mapM (emitJoin ir) = some clauses ∧
      clauses.mapM (fun clause => resolveTable ir clause.table) = some joined ∧
      (clauses.zip joined).mapM (fun p => resolveJoin sources p.1 p.2) =
        some (joins.map Join.equality) := by
  induction joins generalizing joined with
  | nil =>
    obtain rfl : joined = [] := List.map_eq_nil_iff.mp hjoined
    exact ⟨[], rfl, rfl, rfl⟩
  | cons j js ih =>
    rcases joined with _ | ⟨t, ts⟩
    · exact nomatch hjoined
    · rw [List.map_cons, List.map_cons, List.cons.injEq] at hjoined
      obtain ⟨hin, scope', hfacts, hsub⟩ := hj j (List.mem_cons_self ..)
      obtain ⟨table, clause, htable, hemit, hres, hjoin⟩ :=
        emitJoin_resolves hn h hfacts hsub hin
      have hsame : table = t := by
        have := hn.tableByName (hmem t (List.mem_cons_self ..))
        rw [hjoined.1, htable] at this
        exact Option.some.inj this
      subst hsame
      obtain ⟨clauses, hemits, htables, hjoins⟩ := ih
        (fun j hmem => hj j (List.mem_cons_of_mem _ hmem)) hjoined.2
        (fun t ht => hmem t (List.mem_cons_of_mem _ ht))
      refine ⟨clause :: clauses, ?_, ?_, ?_⟩
      · rw [List.mapM_cons, hemit, hemits]
        rfl
      · rw [List.mapM_cons, hres, htables]
        rfl
      · rw [List.zip_cons_cons, List.mapM_cons, hjoin, hjoins]
        rfl


theorem tables_of_joins {joins : List Join}
    (h : ∀ j ∈ joins, ∃ table, tableByName ir j.table = some table) :
    ∃ joined : List Table, joined.map Table.name = joins.map Join.table ∧
      ∀ t ∈ joined, t ∈ ir.tables := by
  induction joins with
  | nil => exact ⟨[], rfl, fun _ h => nomatch h⟩
  | cons j js ih =>
    obtain ⟨table, htable⟩ := h j (List.mem_cons_self ..)
    obtain ⟨hmem, hname⟩ := tableByName_spec htable
    obtain ⟨joined, hnames, htables⟩ := ih fun j hj => h j (List.mem_cons_of_mem _ hj)
    refine ⟨table :: joined, ?_, ?_⟩
    · rw [List.map_cons, List.map_cons, hname, hnames]
    · intro t ht
      rcases List.mem_cons.mp ht with rfl | ht
      · exact hmem
      · exact htables t ht

section
variable {base : Table} {q : Query} {sources : List Table}

/-- Where a table may be named, the name that is left out is that of the query's table. -/
theorem emit_requested (hn : Names ir) (hb : base ∈ sources) (hname : base.name = q.table)
    (h : Sources ir sources q.scope) {qualified : Bool}
    (hq : qualified = true ∨ sources = [base]) {requested : Option String} {column : String}
    (hscope : requested.getD q.table ∈ q.scope) {c : Column}
    (hd : Declares ir (requested.getD q.table, column) c) :
    ∃ name, (match requested with
      | none => emitColumn qualified base column
      | some table => (tableByName ir table).bind fun owner => emitColumn qualified owner column) =
        some name ∧ resolveColumn sources name = some (requested.getD q.table, column) := by
  obtain ⟨owner, hmem, htable, honame, hcol⟩ := h.declared hn hscope hd
  have hq : qualified = true ∨ sources = [owner] := by
    rcases hq with hq | rfl
    · exact Or.inl hq
    · rw [List.mem_singleton.mp hmem]
      exact Or.inr rfl
  obtain ⟨name, hemit, hres⟩ := emitColumn_resolves hn h.tables hmem hq hcol
  rw [honame] at hres
  refine ⟨name, ?_, hres⟩
  rcases requested with _ | table
  · have hbase := hn.tableByName (h.tables base hb)
    change tableByName ir q.table = some owner at htable
    rw [hname, htable] at hbase
    obtain rfl := Option.some.inj hbase
    exact hemit
  · change tableByName ir table = some owner at htable
    dsimp only
    rw [htable]
    exact hemit

/-- The emitted statement has the meaning of the query, its names resolved. -/
theorem emitSelect_plan (hn : Names ir) (h : Selects ir base q) :
    ∃ s, emitSelect ir base q = some s ∧ s.limit = q.limit.isSome ∧ s.offset = q.offset.isSome ∧
      ∃ plan, s.plan ir = some plan ∧ plan.base = q.table ∧ plan.joins = q.equalities ∧
        plan.conditions = q.refs := by
  obtain ⟨joined, hjnames, hjmem⟩ := tables_of_joins fun j hj => by
    obtain ⟨_, hfacts, -⟩ := h.joins.mem hj
    exact hfacts.table
  have hsources : Sources ir (base :: joined) q.scope := by
    constructor
    · intro t ht
      rcases List.mem_cons.mp ht with rfl | ht
      · exact h.mem
      · exact hjmem t ht
    · rw [List.map_cons, h.name, hjnames]
      rfl
  have hbmem : base ∈ base :: joined := List.mem_cons_self ..
  have hq : (!(q.joins.getD []).isEmpty) = true ∨ base :: joined = [base] := by
    rcases hjs : q.joins.getD [] with _ | ⟨j, js⟩
    · rw [hjs] at hjnames
      rw [List.map_eq_nil_iff.mp hjnames]
      exact Or.inr rfl
    · exact Or.inl rfl
  obtain ⟨conditions, hcemit, hcres⟩ := mapM_resolves (l := q.filter.getD [])
    (f := emitCondition ir base (!(q.joins.getD []).isEmpty))
    (g := resolveColumn (base :: joined)) (m := fun c => (c.table.getD q.table, c.column)) (by
      intro c hc
      obtain ⟨hin, column, hd⟩ := h.refs _ (List.mem_map_of_mem hc)
      exact emit_requested hn hbmem h.name hsources hq hin hd)
  obtain ⟨orderBy, hoemit, hores⟩ := mapM_resolves (l := q.orderBy.getD [])
    (f := emitOrderTerm ir base)
    (g := fun p => (resolveColumn (base :: joined) p.1).map fun r => (r, p.2))
    (m := fun t => ((t.table.getD q.table, t.column), t.direction)) (by
      intro t ht
      obtain ⟨hin, column, hd⟩ := h.orderRefs _ (List.mem_map_of_mem ht)
      obtain ⟨name, hemit, hres⟩ :=
        emit_requested hn hbmem h.name hsources (Or.inl rfl) hin hd
      refine ⟨(name, t.direction), ?_, by rw [hres]; rfl⟩
      unfold emitOrderTerm
      rcases htable : t.table with _ | table
      · rw [htable] at hemit
        dsimp only at hemit ⊢
        rw [hemit]
        rfl
      · rw [htable] at hemit
        dsimp only at hemit ⊢
        rcases hfind : tableByName ir table with _ | owner
        · rw [hfind] at hemit
          exact nomatch hemit
        · rw [hfind] at hemit
          rw [Option.bind_some] at hemit ⊢
          rw [hemit]
          rfl)
  obtain ⟨clauses, hjemit, hjtables, hjres⟩ := emitJoins_resolve hn hsources (q.joins.getD [])
    (fun j hj => by
      obtain ⟨scope', hfacts, hsub⟩ := h.joins.mem hj
      exact ⟨List.mem_cons_of_mem _ (List.mem_map_of_mem hj), scope', hfacts, hsub⟩)
    hjnames hjmem
  have hprojection : (base.columns.map fun column =>
      ColumnName.mk (if (!(q.joins.getD []).isEmpty) = true then some base.sqlName else none)
        column.sqlName).mapM (resolveColumn (base :: joined)) =
      some (base.columns.map fun column => (base.name, column.name)) := by
    rw [List.mapM_map]
    apply mapM_eq_map
    intro column hcol
    have hfind : columnByName base column.name = some column :=
      find_by_key Column.name hcol (inj_of_nodup Column.name (hn.tables base h.mem).names hcol)
    obtain ⟨name, hemit, hres⟩ := emitColumn_resolves hn hsources.tables hbmem hq hfind
    unfold emitColumn at hemit
    rw [hfind] at hemit
    obtain rfl := Option.some.inj hemit
    exact hres
  refine ⟨⟨base.columns.map fun column =>
      ColumnName.mk (if (!(q.joins.getD []).isEmpty) = true then some base.sqlName else none)
        column.sqlName, base.sqlName, clauses, conditions, orderBy, q.limit.isSome,
      q.offset.isSome⟩, ?_, rfl, rfl, ?_⟩
  · unfold emitSelect
    simp only [hcemit, hjemit, hoemit, Option.bind_eq_bind, Option.bind_some]
  · unfold Select.plan
    simp only [hn.resolveTable h.mem, hjtables, hprojection, hjres, hcres, hores,
      Option.bind_eq_bind, Option.bind_some]
    exact ⟨_, rfl, h.name, rfl, rfl⟩

end


/-! ## Running the statement -/

theorem window_length_le {α : Type} (limit offset : Option ℤ) (l : List α) :
    (window limit offset l).length ≤ l.length := by
  unfold window
  have hdrop : (l.drop (offset.getD 0).toNat).length ≤ l.length := by
    rw [List.length_drop]
    omega
  rcases limit with _ | n
  · exact hdrop
  · dsimp only
    split_ifs
    · exact hdrop
    · rw [List.length_take]
      omega

section
variable {s : Select} {plan : Plan} {affinity : Affinity} {db : Instance}
  {args : ℕ → Option Value}

theorem run_eq (hplan : s.plan ir = some plan) (hgrammar : (s.offset && !s.limit) = false)
    {limit offset : Option ℤ}
    (hl : bound affinity s.limit (args plan.conditions.length) = .ok limit)
    (ho : bound affinity s.offset (args (plan.conditions.length + 1)) = .ok offset) :
    s.run ir affinity db args = .ok ((window limit offset
      ((plan.results ir affinity db args).insertionSort fun e e' =>
        orderedLe plan.orderBy e e')).map fun e => plan.projection.map e.cell) := by
  unfold Select.run
  rw [hplan, hgrammar]
  simp only [hl, ho, bind, Except.bind, pure, Except.pure, Bool.false_eq_true, if_false]

theorem run_length_le (hplan : s.plan ir = some plan) {rows : List (List (Option Value))}
    (h : s.run ir affinity db args = .ok rows) :
    (s.offset && !s.limit) = false ∧
      rows.length ≤ (plan.results ir affinity db args).length := by
  rcases hgrammar : (s.offset && !s.limit) with _ | _
  · refine ⟨rfl, ?_⟩
    rcases hl : bound affinity s.limit (args plan.conditions.length) with e | limit
    · unfold Select.run at h
      rw [hplan, hgrammar] at h
      simp [hl, bind, Except.bind] at h
    · rcases ho : bound affinity s.offset (args (plan.conditions.length + 1)) with e | offset
      · unfold Select.run at h
        rw [hplan, hgrammar] at h
        simp [hl, ho, bind, Except.bind] at h
      · rw [run_eq hplan hgrammar hl ho, Except.ok.injEq] at h
        rw [← h, List.length_map]
        apply (window_length_le ..).trans
        rw [List.length_insertionSort]
  · unfold Select.run at h
    rw [hgrammar] at h
    simp [bind, Except.bind, throw, throwThe, MonadExceptOf.throw] at h

theorem asInteger_number (affinity : Affinity) (n : ℤ) :
    affinity.asInteger (some (.number n)) = some n := by
  unfold Affinity.asInteger
  rw [Option.map_some, affinity.integer_number]
  simp

/-- With a limit and an offset of two, where they are asked for, four rows give two. -/
theorem run_length_ge (hplan : s.plan ir = some plan) (hgrammar : (s.offset && !s.limit) = false)
    (hlimit : args plan.conditions.length = some (.number 2))
    (hoffset : args (plan.conditions.length + 1) = some (.number 2))
    (hrows : 4 ≤ (plan.results ir affinity db args).length) :
    ∃ rows, s.run ir affinity db args = .ok rows ∧ 2 ≤ rows.length := by
  have hbound : ∀ present : Bool, bound affinity present (some (.number 2)) =
      .ok (if present then some 2 else none) := by
    intro present
    unfold bound
    rcases present with _ | _
    · rfl
    · have := asInteger_number affinity 2
      simp only [if_true]
      rw [show (2 : ℚ) = ((2 : ℤ) : ℚ) from rfl, this]
  refine ⟨_, run_eq hplan hgrammar (hlimit ▸ hbound s.limit) (hoffset ▸ hbound s.offset), ?_⟩
  rw [List.length_map]
  unfold window
  rcases hl : s.limit with _ | _
  · rw [hl] at hgrammar
    simp only [Bool.not_false, Bool.and_true] at hgrammar
    rw [hgrammar]
    simp
    omega
  · rcases s.offset with _ | _
    · simp
      omega
    · simp
      omega

end


/-! ## One row -/

/-- The conditions and the join equalities of the query fix a key of the table. -/
def Query.Fixes (ir : Document) (q : Query) (table : String) : Prop :=
  EquiJoin.Single (keysOf ir) q.table q.equalities q.refs table

theorem Selects.fixes_base (hn : Names ir) {base : Table} {q : Query} (h : Selects ir base q) :
    q.Fixes ir q.table := by
  obtain ⟨key, hkey, hcols⟩ := List.any_eq_true.mp h.keyed
  rw [Bool.and_eq_true, List.all_eq_true] at hcols
  refine ⟨key, ?_, fun c hc => .cond _ ?_⟩
  · unfold keysOf
    rw [← h.name, hn.tableByName h.mem]
    exact hkey
  · have hmem := of_decide_eq_true (hcols.2 c hc)
    obtain ⟨condition, hcond, rfl⟩ := List.mem_map.mp hmem
    obtain ⟨hcond, htable⟩ := List.mem_filter.mp hcond
    refine List.mem_map.mpr ⟨condition, hcond, ?_⟩
    rcases ht : condition.table with _ | table
    · rfl
    · rw [ht] at htable
      have := of_decide_eq_true htable
      rw [← this]
      rfl

/-- A value that a column of the type can have, a different one for each number. -/
def sample : ScalarType → ℕ → Value
  | .integer, n => .number n
  | .real, n => .number n
  | .text, n => .text (List.replicate n 0)
  | .blob, n => .blob (List.replicate n 0)

theorem sample_inj {type : ScalarType} {n n' : ℕ} (h : sample type n = sample type n') :
    n = n' := by
  cases type with
  | integer => simpa [sample] using h
  | real => simpa [sample] using h
  | text =>
    have := congrArg List.length (Value.text.inj h)
    simpa using this
  | blob =>
    have := congrArg List.length (Value.blob.inj h)
    simpa using this

theorem convert_sample (affinity : Affinity) (type : ScalarType) (n : ℕ) :
    affinity.convert type (sample type n) = sample type n := by
  cases type with
  | integer => exact affinity.integer_number n
  | real => exact affinity.real_number n
  | text => exact affinity.text_text _
  | blob => exact affinity.blob_any _

/-- The argument for parameter `i`: a sample for its column, and two for a limit or offset. -/
def sampleArgs (ir : Document) (refs : List Ref) (i : ℕ) : Option Value :=
  match refs[i]? with
  | some r => some (sample (typeOf ir r) 2)
  | none => some (.number 2)

theorem compared_sample (ir : Document) (affinity : Affinity) (refs : List Ref) :
    (refs.zipIdx.map fun p => (p.1, compared ir affinity (sampleArgs ir refs) p.2 p.1)) =
      refs.map fun r => (r, some (sample (typeOf ir r) 2)) := by
  have hfst : refs.map (fun r => (r, some (sample (typeOf ir r) 2))) =
      refs.zipIdx.map fun p => (p.1, some (sample (typeOf ir p.1) 2)) := by
    conv_lhs => rw [← List.zipIdx_map_fst 0 refs, List.map_map]
    rfl
  rw [hfst]
  apply List.map_congr_left
  rintro ⟨r, i⟩ hmem
  rw [List.mem_zipIdx_iff_getElem?] at hmem
  unfold compared sampleArgs
  change refs[i]? = some r at hmem
  dsimp only
  rw [hmem]
  dsimp only
  rw [Option.map_some, convert_sample]

theorem Selects.equal_types {base : Table} {q : Query} (h : Selects ir base q) :
    ∀ j ∈ q.equalities, ∀ p ∈ j.on, typeOf ir p.1 = typeOf ir p.2 := by
  intro j hj p hp
  obtain ⟨join, hjoin, rfl⟩ := List.mem_map.mp hj
  obtain ⟨c, hc, rfl⟩ := List.mem_map.mp hp
  obtain ⟨_, hfacts, -⟩ := h.joins.mem hjoin
  obtain ⟨left, right, hl, hr, he⟩ := hfacts.types c hc
  change typeOf ir c.left.ref = typeOf ir c.right.ref
  rw [hl.typeOf, hr.typeOf, he]

theorem Selects.keys_ne_nil (hn : Names ir) {base : Table} {q : Query} (h : Selects ir base q) :
    ∀ t ∈ q.scope, keysOf ir t ≠ [] := by
  have hkeys : ∀ {name : String}, (∃ table, tableByName ir name = some table) →
      keysOf ir name ≠ [] := by
    rintro name ⟨table, htable⟩
    unfold keysOf
    rw [htable]
    exact List.cons_ne_nil _ _
  intro t ht
  rcases List.mem_cons.mp ht with rfl | ht
  · exact hkeys ⟨base, h.name ▸ hn.tableByName h.mem⟩
  · obtain ⟨j, hj, rfl⟩ := List.mem_map.mp ht
    obtain ⟨_, hfacts, -⟩ := h.joins.mem hj
    exact hkeys hfacts.table

/-- Where some table has no fixed key, four rows that fit together can be in the result. -/
theorem Selects.many_rows (hn : Names ir) {base : Table} {q : Query} (h : Selects ir base q)
    {plan : Plan} (hbase : plan.base = q.table) (hjoins : plan.joins = q.equalities)
    (hconds : plan.conditions = q.refs) (affinity : Affinity)
    (hnot : ¬ ∀ t ∈ q.table :: q.equalities.map EquiJoin.Join.table, q.Fixes ir t) :
    ∃ db, Instance.Keeps ir db ∧
      4 ≤ (plan.results ir affinity db (sampleArgs ir q.refs)).length := by
  have hinj : ∀ k k' r, sample (typeOf ir r) k = sample (typeOf ir r) k' → k = k' :=
    fun _ _ _ => sample_inj
  refine ⟨EquiJoin.spread (keysOf ir) q.table q.equalities q.refs
    (fun r => sample (typeOf ir r) 2) (fun k r => sample (typeOf ir r) k) 4,
    EquiJoin.unique_spread hinj, ?_⟩
  unfold Plan.results
  rw [hbase, hjoins, hconds, compared_sample]
  exact EquiJoin.rows_unbounded h.joins.scoped
    (fun r hr => Query.scope_eq q ▸ (h.refs r hr).1)
    (fun t ht => h.keys_ne_nil hn t (Query.scope_eq q ▸ ht))
    (fun j hj p hp => by rw [h.equal_types j hj p hp])
    (fun k j hj p hp => by rw [h.equal_types j hj p hp]) hinj hnot 4

/-- A query of an accepted document that says `one` has at most one row, whatever the
database holds and the parameters are, exactly when its conditions and join equalities
fix a key of every joined table, or it has an offset without a limit, which is not in
the grammar and returns nothing. -/
theorem one_row_iff {ir : Document} (h : validateDocument ir = []) {q : Query}
    (hq : q ∈ ir.queries) (hone : q.cardinality = .one) (affinity : Affinity) :
    ∃ base s, tableByName ir q.table = some base ∧ emitStatement ir base q = some (.select s) ∧
      ((∀ db args rows, Instance.Keeps ir db → s.run ir affinity db args = .ok rows →
          rows.length ≤ 1) ↔
        (q.offset.isSome ∧ q.limit = none) ∨ ∀ j ∈ q.joins.getD [], q.Fixes ir j.table) := by
  have hn := validate_names h
  obtain ⟨hkind, base, htable, hsel⟩ := validate_select h hq hone
  obtain ⟨s, hemit, hlimit, hoffset, plan, hplan, hbase, hjoins, hconds⟩ := emitSelect_plan hn hsel
  refine ⟨base, s, htable, ?_, ?_⟩
  · unfold emitStatement
    rw [hkind]
    dsimp only
    rw [hemit]
    rfl
  have hscoped : EquiJoin.Scoped [q.table] q.equalities := hsel.joins.scoped
  have hgrammar : (s.offset && !s.limit) = true ↔ q.offset.isSome ∧ q.limit = none := by
    rw [hlimit, hoffset, Bool.and_eq_true]
    simp
  have hfixes : (∀ j ∈ q.joins.getD [], q.Fixes ir j.table) ↔
      ∀ t ∈ q.table :: q.equalities.map EquiJoin.Join.table,
        EquiJoin.Single (keysOf ir) q.table q.equalities q.refs t := by
    rw [← Query.scope_eq]
    constructor
    · intro hall t ht
      rcases List.mem_cons.mp ht with rfl | ht
      · exact hsel.fixes_base hn
      · obtain ⟨j, hj, rfl⟩ := List.mem_map.mp ht
        exact hall j hj
    · intro hall j hj
      exact hall j.table (List.mem_cons_of_mem _ (List.mem_map_of_mem hj))
  constructor
  · intro hle
    by_contra hnot
    rw [not_or, hfixes] at hnot
    -- with an offset of two and a limit of two, where asked for, two of four rows are left
    obtain ⟨db, hkeeps, hmany⟩ := hsel.many_rows hn hbase hjoins hconds affinity hnot.2
    have hbeyond : ∀ i, q.refs.length ≤ i → sampleArgs ir q.refs i = some (.number 2) := by
      intro i hi
      unfold sampleArgs
      rw [List.getElem?_eq_none hi]
    obtain ⟨rows, hrun, htwo⟩ := run_length_ge hplan
      (by
        rw [← hgrammar] at hnot
        simpa using hnot.1)
      (hbeyond _ (by rw [hconds])) (hbeyond _ (by rw [hconds]; omega)) hmany
    have := hle db _ rows hkeeps hrun
    omega
  · rintro hcond db args rows hkeeps hrun
    obtain ⟨hok, hlen⟩ := run_length_le hplan hrun
    rcases hcond with hcond | hcond
    · rw [hgrammar.mpr hcond] at hok
      exact nomatch hok
    · apply hlen.trans
      unfold Plan.results
      apply EquiJoin.rows_le_one hkeeps
      · rw [hbase, hjoins]
        exact hscoped
      · have hmap : (plan.conditions.zipIdx.map fun p =>
            (p.1, compared ir affinity args p.2 p.1)).map Prod.fst = q.refs := by
          rw [List.map_map, ← hconds]
          exact List.zipIdx_map_fst 0 plan.conditions
        rw [hmap, hbase, hjoins]
        exact hfixes.mp hcond


/-! ## A join along a key and one against it -/

/-- Accounts with entries: an entry names its account. -/
def ledger : Document where
  tables :=
    [{ name := "account", sqlName := "accounts"
       columns := [⟨"id", "id", .integer, false, true, false, none⟩,
         ⟨"name", "name", .text, false, false, false, none⟩]
       primaryKey := ["id"], uniques := [], defaults := [] },
     { name := "entry", sqlName := "entries"
       columns := [⟨"id", "id", .integer, false, true, false, none⟩,
         ⟨"accountId", "account_id", .integer, false, false, false, none⟩]
       primaryKey := ["id"], uniques := [], defaults := [] }]
  queries :=
    [{ name := "account.withEntries", kind := .select, table := "account", cardinality := .one
       filter := some [⟨none, "id", "eq", "id"⟩]
       joins := some [⟨.inner, "entry", [⟨⟨"entry", "accountId"⟩, ⟨"account", "id"⟩⟩]⟩]
       orderBy := none, limit := none, offset := none, values := none, set := none
       onConflict := none },
     { name := "entry.withAccount", kind := .select, table := "entry", cardinality := .one
       filter := some [⟨none, "id", "eq", "id"⟩]
       joins := some [⟨.inner, "account", [⟨⟨"account", "id"⟩, ⟨"entry", "accountId"⟩⟩]⟩]
       orderBy := none, limit := none, offset := none, values := none, set := none
       onConflict := none }]

/-- Parameters that have the type of their column already. -/
def typedAffinity : Affinity where
  convert _ v := v
  integer_number q := id_eq (Value.number q)
  real_number q := id_eq (Value.number q)
  text_text s := id_eq (Value.text s)
  blob_any _ := rfl

/-- An account and two entries that belong to it. -/
def twoEntries : Instance := fun table =>
  if table = "account" then [fun column => if column = "id" then some (.number 1) else none]
  else if table = "entry" then
    [fun column => if column = "id" then some (.number 1) else some (.number 1),
     fun column => if column = "id" then some (.number 2) else some (.number 1)]
  else []

/-- The account is returned once for each of its entries. -/
theorem one_returns_two_rows :
    validateDocument ledger = [] ∧ Instance.Keeps ledger twoEntries ∧
      ∃ q ∈ ledger.queries, q.cardinality = .one ∧
        ∃ base s, tableByName ledger q.table = some base ∧
          emitStatement ledger base q = some (.select s) ∧
          s.run ledger typedAffinity twoEntries (fun _ => some (.number 1)) =
            .ok [[some (.number 1), none], [some (.number 1), none]] := by
  refine ⟨by decide +kernel, ?_, _, List.mem_cons_self .., rfl, _, _, rfl, rfl, ?_⟩
  · intro table
    unfold twoEntries
    split_ifs with haccount hentry
    · exact List.pairwise_singleton ..
    · rw [List.pairwise_pair]
      intro key hkey hagree
      have hkeys : keysOf ledger table = [["id"]] := by
        rw [hentry]
        rfl
      rw [hkeys, List.mem_singleton] at hkey
      subst hkey
      obtain ⟨v, h₁, h₂⟩ := hagree "id" (List.mem_singleton.mpr rfl)
      have he : some (Value.number 1) = some (Value.number 2) := h₁.trans h₂.symm
      exact absurd he (by decide)
    · exact List.Pairwise.nil
  · decide +kernel

/-- The entry is returned once with its account. -/
theorem one_row_entry_with_account :
    ∃ q ∈ ledger.queries, q.joins.isSome ∧ ∃ base s, tableByName ledger q.table = some base ∧
      emitStatement ledger base q = some (.select s) ∧
      ∀ db args rows, Instance.Keeps ledger db →
        s.run ledger typedAffinity db args = .ok rows → rows.length ≤ 1 := by
  have hin : ∀ q, ledger.queries[1]? = some q → q ∈ ledger.queries := fun q hq =>
    List.mem_of_getElem? hq
  refine ⟨_, hin _ rfl, rfl, ?_⟩
  obtain ⟨base, s, htable, hemit, hiff⟩ :=
    one_row_iff (by decide +kernel : validateDocument ledger = []) (hin _ rfl) rfl typedAffinity
  refine ⟨base, s, htable, hemit, hiff.mpr (Or.inr fun j hj => ?_)⟩
  obtain rfl := List.mem_singleton.mp hj
  refine ⟨["id"], List.mem_singleton.mpr rfl, fun c hc => ?_⟩
  obtain rfl := List.mem_singleton.mp hc
  refine .left _ (List.mem_singleton.mpr rfl) (("account", "id"), ("entry", "accountId"))
    (List.mem_singleton.mpr rfl) ?_ (Or.inl rfl)
  refine .key "entry" ["id"] (List.mem_singleton.mpr rfl) (fun c hc => ?_) "accountId"
  obtain rfl := List.mem_singleton.mp hc
  exact .cond _ (List.mem_singleton.mpr rfl)


end Esdb.Schema
