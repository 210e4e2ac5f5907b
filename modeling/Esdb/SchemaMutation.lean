import Esdb.KeyedRows
import Esdb.SchemaCardinality

/-!
# What a mutation does to its table

SQLite's reading of the emitted updates, deletes and inserts. A statement leaves the
table with new rows or, where these break a constraint, as it was. Rows with a NULL in a
key are in nobody's way, and a condition on NULL is met by no row, so a `WHERE` that
names all columns of a key meets one row at most, and so does a conflict target.
-/
namespace Esdb.Schema

abbrev TableRow := EquiJoin.Row String Value

/-- What of SQLite's writing is left open: what is stored of an assigned value, what an
inserted row has beside the values given for it, which new rows the constraints other
than keys refuse, and whether the conflict target comes before the other keys. -/
structure Storage where
  affinity : Affinity
  stored : ScalarType → Value → Value
  completed : Table → List TableRow → (String → Option (Option Value)) → TableRow
  admits : Table → List TableRow → Bool
  targetFirst : Bool

inductive MutationError where
  | unknownName | constraint
  deriving DecidableEq, Repr

/-- The rows have the same values in a key, none of them NULL. -/
def clash (key : List String) (row row' : TableRow) : Bool :=
  key.all fun c => (row c).isSome && row c == row' c

def keepsKeys (keys : List (List String)) (rows : List TableRow) : Bool :=
  decide (rows.Pairwise fun row row' => ∀ key ∈ keys, clash key row row' = false)

def resolveNames (table : Table) (names : List String) : Option (List String) :=
  names.mapM fun name => (resolveIn table name).map Prod.snd

/-- The columns with the values of their placeholders, of which `first` is the number of
the first. -/
def boundTo (convert : ScalarType → Value → Value) (ir : Document) (table : Table)
    (args : ℕ → Option Value) (first : ℕ) (columns : List String) :
    List (String × Option Value) :=
  (columns.zipIdx first).map fun p =>
    (p.1, (args p.2).map (convert (typeOf ir (table.name, p.1))))

/-- `column = ?` for every column. -/
def satisfies (conditions : List (String × Option Value)) (row : TableRow) : Bool :=
  conditions.all fun p => p.2.isSome && row p.1 == p.2

def valueFor (values : List (String × Option Value)) (column : String) : Option (Option Value) :=
  (values.find? fun p => p.1 = column).map Prod.snd

def assign (values : List (String × Option Value)) (row : TableRow) : TableRow := fun column =>
  (valueFor values column).getD (row column)

def changeRows (p : TableRow → Bool) (f : TableRow → TableRow) (rows : List TableRow) :
    List TableRow :=
  rows.map fun row => if p row then f row else row

section
variable (storage : Storage) (ir : Document) (args : ℕ → Option Value) (db : Instance)

/-- The end of a statement. -/
def commit (table : Table) (rows : List TableRow) : Except MutationError Instance :=
  if keepsKeys (keysOf ir table.name) rows && storage.admits table rows then
    .ok fun name => if name = table.name then rows else db name
  else .error .constraint

def runUpdate (table : Table) (set conditions : List String) : Except MutationError Instance :=
  match resolveNames table set, resolveNames table conditions with
  | some set, some conditions =>
      let values := boundTo storage.stored ir table args 0 set
      let tests := boundTo storage.affinity.convert ir table args set.length conditions
      commit storage ir db table (changeRows (satisfies tests) (assign values) (db table.name))
  | _, _ => .error .unknownName

def runDelete (table : Table) (conditions : List String) : Except MutationError Instance :=
  match resolveNames table conditions with
  | some conditions =>
      let tests := boundTo storage.affinity.convert ir table args 0 conditions
      commit storage ir db table ((db table.name).filter fun row => !satisfies tests row)
  | none => .error .unknownName

/-- What becomes of the new row when it meets a row under the conflict target. -/
def runConflict (table : Table) (row : TableRow) (target : List String) (first : ℕ)
    (set : Option (List String)) : Except MutationError Instance :=
  let rows := db table.name
  let elsewhere := (keysOf ir table.name).any fun key =>
    key ≠ target && rows.any fun old => clash key old row
  if elsewhere && !storage.targetFirst then .error .constraint
  else
    match set with
    | none => .ok db
    | some set =>
        match resolveNames table set with
        | some set =>
            let values := boundTo storage.stored ir table args first set
            commit storage ir db table
              (changeRows (fun old => clash target old row) (assign values) rows)
        | none => .error .unknownName

def runInsert (table : Table) (s : Insert) : Except MutationError Instance :=
  match resolveNames table s.columns with
  | none => .error .unknownName
  | some columns =>
      let rows := db table.name
      let given := valueFor (boundTo storage.stored ir table args 0 columns)
      let row := storage.completed table rows given
      match s.onConflict with
      | none => commit storage ir db table (rows ++ [row])
      | some (target, set) =>
          match resolveNames table target with
          | none => .error .unknownName
          | some target =>
              if rows.any fun old => clash target old row then
                runConflict storage ir args db table row target columns.length set
              else commit storage ir db table (rows ++ [row])

/-- The database after the statement. -/
def Statement.execute (s : Statement) : Except MutationError Instance :=
  match s with
  | .select _ => .ok db
  | .insert s =>
      match resolveTable ir s.table with
      | some table => runInsert storage ir args db table s
      | none => .error .unknownName
  | .update name set conditions =>
      match resolveTable ir name with
      | some table => runUpdate storage ir args db table set conditions
      | none => .error .unknownName
  | .delete name conditions =>
      match resolveTable ir name with
      | some table => runDelete storage ir args db table conditions
      | none => .error .unknownName

end

/-! ## Keys and selections -/

theorem clash_iff {key : List String} {row row' : TableRow} :
    clash key row row' = true ↔ EquiJoin.Agree key row row' := by
  unfold clash EquiJoin.Agree
  rw [List.all_eq_true]
  refine forall₂_congr fun c _ => ?_
  rw [Bool.and_eq_true, beq_iff_eq, Option.isSome_iff_exists]
  constructor
  · rintro ⟨⟨v, hv⟩, he⟩
    exact ⟨v, hv, he ▸ hv⟩
  · rintro ⟨v, hv, hv'⟩
    exact ⟨⟨v, hv⟩, hv.trans hv'.symm⟩

/-- Rows that meet the conditions agree on the columns of these. -/
theorem satisfies_agree {conditions : List (String × Option Value)} {key : List String}
    (hkey : ∀ c ∈ key, c ∈ conditions.map Prod.fst) {row row' : TableRow}
    (h : satisfies conditions row = true) (h' : satisfies conditions row' = true) :
    EquiJoin.Agree key row row' := by
  intro c hc
  obtain ⟨p, hp, rfl⟩ := List.mem_map.mp (hkey c hc)
  have hrow := List.all_eq_true.mp h p hp
  have hrow' := List.all_eq_true.mp h' p hp
  rw [Bool.and_eq_true, beq_iff_eq, Option.isSome_iff_exists] at hrow hrow'
  obtain ⟨v, hv⟩ := hrow.1
  exact ⟨v, hrow.2.trans hv, hrow'.2.trans hv⟩

/-- A selection whose rows agree on a key has one row at most. -/
theorem Instance.Keeps.one {ir : Document} {db : Instance} (h : db.Keeps ir) {table : Table}
    (ht : tableByName ir table.name = some table) {key : List String}
    (hkey : key ∈ table.primaryKey :: table.uniques) {p : TableRow → Bool}
    (hp : ∀ row row', p row = true → p row' = true → EquiJoin.Agree key row row') :
    (db table.name).Pairwise fun x y => p x = true → p y = false := by
  refine (h table.name).imp fun {x y} hne hx => ?_
  have hmem : key ∈ keysOf ir table.name := by
    rw [keysOf, ht]
    exact hkey
  by_contra hy
  exact hne key hmem (hp x y hx (by simpa using hy))

@[simp] theorem boundTo_columns (convert : ScalarType → Value → Value) (ir : Document)
    (table : Table) (args : ℕ → Option Value) (first : ℕ) (columns : List String) :
    (boundTo convert ir table args first columns).map Prod.fst = columns := by
  unfold boundTo
  rw [List.map_map]
  exact List.zipIdx_map_fst first columns

/-! ## One row of the table -/

/-- The statement touches one row of the table at most, and no other table. -/
def OnlyOne (table : String) (db db' : Instance) : Prop :=
  KeyedRows.TouchesOne (db table) (db' table) ∧ ∀ name, name ≠ table → db' name = db name

section
variable {storage : Storage} {ir : Document} {args : ℕ → Option Value} {db db' : Instance}
  {table : Table}

theorem commit_onlyOne {rows : List TableRow} (h : commit storage ir db table rows = .ok db')
    (ht : KeyedRows.TouchesOne (db table.name) rows) : OnlyOne table.name db db' := by
  unfold commit at h
  split_ifs at h
  cases h
  refine ⟨?_, fun name hname => if_neg hname⟩
  dsimp only
  rw [if_pos rfl]
  exact ht

/-- The key that conditions on these columns cover. -/
theorem isKeyedWhere_key {columns : List String} (h : isKeyedWhere table columns = true) :
    ∃ key ∈ table.primaryKey :: table.uniques, ∀ c ∈ key, c ∈ columns := by
  unfold isKeyedWhere at h
  obtain ⟨key, hkey, hcover⟩ := List.any_eq_true.mp h
  rw [Bool.and_eq_true, List.all_eq_true] at hcover
  exact ⟨key, hkey, fun c hc => of_decide_eq_true (hcover.2 c hc)⟩

variable (hkeeps : db.Keeps ir) (htable : tableByName ir table.name = some table)
include hkeeps htable

theorem runUpdate_onlyOne {set conditions columns : List String}
    (hnames : resolveNames table conditions = some columns)
    (hkeyed : isKeyedWhere table columns = true)
    (h : runUpdate storage ir args db table set conditions = .ok db') :
    OnlyOne table.name db db' := by
  obtain ⟨key, hkey, hcover⟩ := isKeyedWhere_key hkeyed
  unfold runUpdate at h
  rw [hnames] at h
  split at h
  · next set' conditions' _ heq =>
      cases heq
      refine commit_onlyOne h (KeyedRows.touchesOne_map ?_ _)
      refine hkeeps.one htable hkey fun row row' => satisfies_agree ?_
      rw [boundTo_columns]
      exact hcover
  · cases h

theorem runDelete_onlyOne {conditions columns : List String}
    (hnames : resolveNames table conditions = some columns)
    (hkeyed : isKeyedWhere table columns = true)
    (h : runDelete storage ir args db table conditions = .ok db') :
    OnlyOne table.name db db' := by
  obtain ⟨key, hkey, hcover⟩ := isKeyedWhere_key hkeyed
  unfold runDelete at h
  rw [hnames] at h
  refine commit_onlyOne h (KeyedRows.touchesOne_filter ?_)
  refine hkeeps.one htable hkey fun row row' => satisfies_agree ?_
  rw [boundTo_columns]
  exact hcover

theorem runConflict_onlyOne {row : TableRow} {target : List String} {first : ℕ}
    {set : Option (List String)} (htarget : target ∈ table.primaryKey :: table.uniques)
    (h : runConflict storage ir args db table row target first set = .ok db') :
    OnlyOne table.name db db' := by
  unfold runConflict at h
  dsimp only at h
  split_ifs at h
  cases set with
  | none =>
      cases h
      exact ⟨.refl _, fun _ _ => rfl⟩
  | some set =>
      dsimp only at h
      split at h
      · refine commit_onlyOne h (KeyedRows.touchesOne_map ?_ _)
        -- the rows in the way agree with the new row, so with each other
        refine hkeeps.one htable htarget fun old old' hold hold' c hc => ?_
        obtain ⟨v, hv, hrow⟩ := clash_iff.mp hold c hc
        obtain ⟨v', hv', hrow'⟩ := clash_iff.mp hold' c hc
        rw [hrow] at hrow'
        cases hrow'
        exact ⟨v, hv, hv'⟩
      · cases h

theorem runInsert_onlyOne {s : Insert} {target : List String} {sqlTarget : List String}
    {set : Option (List String)} (hs : s.onConflict = some (sqlTarget, set))
    (hnames : resolveNames table sqlTarget = some target)
    (htarget : target ∈ table.primaryKey :: table.uniques)
    (h : runInsert storage ir args db table s = .ok db') : OnlyOne table.name db db' := by
  unfold runInsert at h
  split at h
  · cases h
  · rw [hs] at h
    dsimp only at h
    rw [hnames] at h
    dsimp only at h
    split_ifs at h
    · exact runConflict_onlyOne hkeeps htable htarget h
    · exact commit_onlyOne h (KeyedRows.touchesOne_concat ..)

end

/-! ## The emitted statement -/

variable {ir : Document} {base : Table} {q : Query}

/-- Emitted names are read as the columns they were emitted for. -/
theorem emitSqlNames_resolve (hn : TableNames base) {names : List String}
    (h : ∀ name ∈ names, ∃ column, columnByName base name = some column) :
    ∃ sqlNames, emitSqlNames base names = some sqlNames ∧
      resolveNames base sqlNames = some names := by
  obtain ⟨sqlNames, hemit, hresolve⟩ := mapM_resolves (m := id)
    (f := fun name => (columnByName base name).map Column.sqlName)
    (g := fun name => (resolveIn base name).map Prod.snd) (l := names) fun name hname => by
      obtain ⟨column, hc⟩ := h name hname
      obtain ⟨hmem, rfl⟩ := columnByName_spec hc
      refine ⟨column.sqlName, by rw [hc]; rfl, ?_⟩
      rw [hn.resolveIn hmem]
      rfl
  rw [List.map_id] at hresolve
  exact ⟨sqlNames, hemit, hresolve⟩

theorem emitAssigned_some (hn : TableNames base) {path label : String}
    {list : Option (List Assignment)} (h : checkAssignments base path label list = []) :
    ∃ sqlNames, emitAssigned base list = some sqlNames := by
  obtain ⟨entries, rfl, hcolumns⟩ := checkAssignments_columns h
  have hnames : ∀ name ∈ entries.map Assignment.column,
      ∃ column, columnByName base name = some column := by
    intro name hname
    obtain ⟨entry, hentry, rfl⟩ := List.mem_map.mp hname
    exact columnByName_of_has (hcolumns entry hentry)
  obtain ⟨sqlNames, hemit, -⟩ := emitSqlNames_resolve hn hnames
  exact ⟨sqlNames, hemit⟩

theorem emitConditions_resolve (hn : Names ir) (hb : base ∈ ir.tables) {path : String}
    (h : checkWhere [base] base path q.filter true = []) :
    ∃ sqlNames, emitConditions base q = some sqlNames ∧
      resolveNames base sqlNames = some ((q.filter.getD []).map Condition.column) := by
  obtain ⟨conditions, hfilter, hcolumns⟩ := checkWhere_columns hn hb h
  rw [emitConditions, hfilter]
  exact emitSqlNames_resolve (hn.tables base hb) fun name hname => by
    obtain ⟨condition, hc, rfl⟩ := List.mem_map.mp hname
    exact hcolumns condition hc

/-- A conflict policy that was checked. -/
theorem checkConflict_target {path : String} {policy : Conflict}
    (h : checkConflict base path (some policy) = []) :
    (∀ name ∈ policy.target, hasColumn base.columns name = true) ∧
      policy.target ∈ base.primaryKey :: base.uniques ∧
      (policy.action = .update →
        ∃ path, checkAssignments base path "conflict set" policy.set = []) := by
  unfold checkConflict at h
  dsimp only at h
  rw [List.append_eq_nil_iff] at h
  obtain ⟨htarget, haction⟩ := h
  split_ifs at htarget with hempty
  rw [List.append_eq_nil_iff, demand_eq_nil, List.any_eq_true] at htarget
  obtain ⟨hcolumns, key, hkey, heq⟩ := htarget
  refine ⟨fun name hname => ?_, of_decide_eq_true heq ▸ hkey, fun hupdate => ?_⟩
  · obtain ⟨i, hi⟩ := eachIdx_mem hcolumns hname
    rw [List.append_eq_nil_iff, demand_eq_nil, demand_eq_nil, Bool.and_eq_true] at hi
    exact hi.1.2
  · rw [hupdate] at haction
    exact ⟨_, haction⟩

/-- The statement, and that it touches one row. -/
def TouchesOneRow (storage : Storage) (ir : Document) (base : Table) (q : Query) : Prop :=
  ∃ s, emitStatement ir base q = some s ∧ ∀ args db db', Instance.Keeps ir db →
    s.execute storage ir args db = .ok db' → OnlyOne base.name db db'

theorem update_touches (hn : Names ir) (hb : base ∈ ir.tables) (hkind : q.kind = .update)
    {path : String} (h : checkUpdate base q path = []) (storage : Storage) :
    TouchesOneRow storage ir base q := by
  unfold checkUpdate checkKeyedMutation at h
  rw [List.append_eq_nil_iff, List.append_eq_nil_iff, List.append_eq_nil_iff,
    demand_eq_nil, demand_eq_nil] at h
  obtain ⟨⟨⟨-, hset⟩, hwhere⟩, hkeyed⟩ := h
  obtain ⟨set, hset⟩ := emitAssigned_some (hn.tables base hb) hset
  obtain ⟨conditions, hconditions, hresolve⟩ := emitConditions_resolve hn hb hwhere
  refine ⟨.update base.sqlName set conditions, ?_, fun args db db' hkeeps hrun => ?_⟩
  · rw [emitStatement, hkind]
    simp only [hset, hconditions, Option.bind_eq_bind, Option.bind_some]
  · simp only [Statement.execute, hn.resolveTable hb] at hrun
    exact runUpdate_onlyOne hkeeps (hn.tableByName hb) hresolve hkeyed hrun

theorem delete_touches (hn : Names ir) (hb : base ∈ ir.tables) (hkind : q.kind = .delete)
    {path : String} (h : checkDelete base q path = []) (storage : Storage) :
    TouchesOneRow storage ir base q := by
  unfold checkDelete checkKeyedMutation at h
  rw [List.append_eq_nil_iff, List.append_eq_nil_iff, demand_eq_nil, demand_eq_nil] at h
  obtain ⟨⟨-, hwhere⟩, hkeyed⟩ := h
  obtain ⟨conditions, hconditions, hresolve⟩ := emitConditions_resolve hn hb hwhere
  refine ⟨.delete base.sqlName conditions, ?_, fun args db db' hkeeps hrun => ?_⟩
  · rw [emitStatement, hkind]
    simp only [hconditions, Option.map_some]
  · simp only [Statement.execute, hn.resolveTable hb] at hrun
    exact runDelete_onlyOne hkeeps (hn.tableByName hb) hresolve hkeyed hrun

theorem upsert_touches (hn : Names ir) (hb : base ∈ ir.tables) (hkind : q.kind = .upsert)
    {path : String} (h : checkInsert base q path = []) (storage : Storage) :
    TouchesOneRow storage ir base q := by
  unfold checkInsert at h
  dsimp only at h
  rw [List.append_eq_nil_iff, List.append_eq_nil_iff, List.append_eq_nil_iff, if_pos hkind] at h
  obtain ⟨⟨⟨-, hconflict⟩, hvalues⟩, -⟩ := h
  obtain ⟨columns, hcolumns⟩ := emitAssigned_some (hn.tables base hb) hvalues
  cases hpolicy : q.onConflict with
  | none =>
      rw [hpolicy] at hconflict
      exact nomatch hconflict
  | some policy =>
      rw [hpolicy] at hconflict
      obtain ⟨htarget, hkey, hset⟩ := checkConflict_target hconflict
      obtain ⟨target, htemit, hresolve⟩ := emitSqlNames_resolve (hn.tables base hb)
        fun name hname => columnByName_of_has (htarget name hname)
      have hexecute : ∀ (set : Option (List String)) args db db', Instance.Keeps ir db →
          (Statement.insert ⟨base.sqlName, columns, some (target, set)⟩).execute storage ir args db =
            .ok db' → OnlyOne base.name db db' := by
        intro set args db db' hkeeps hrun
        simp only [Statement.execute, hn.resolveTable hb] at hrun
        exact runInsert_onlyOne hkeeps (hn.tableByName hb) rfl hresolve hkey hrun
      cases haction : policy.action with
      | nothing =>
          refine ⟨.insert ⟨base.sqlName, columns, some (target, none)⟩, ?_, hexecute none⟩
          rw [emitStatement, hkind]
          simp only [hcolumns, hpolicy, htemit, haction, Option.bind_eq_bind, Option.bind_some]
      | update =>
          obtain ⟨path, hset⟩ := hset haction
          obtain ⟨set, hsemit⟩ := emitAssigned_some (hn.tables base hb) hset
          refine ⟨.insert ⟨base.sqlName, columns, some (target, some set)⟩, ?_,
            hexecute (some set)⟩
          rw [emitStatement, hkind]
          simp only [hcolumns, hpolicy, htemit, haction, hsemit, Option.bind_eq_bind,
            Option.bind_some, Option.map_some]

/-- The updates, deletes and upserts of an accepted document touch one row of their table
at most, whatever the database holds that keeps the declared keys and whatever the
parameters are. -/
theorem keyed_mutation_touches_one (h : validateDocument ir = []) (hq : q ∈ ir.queries)
    (hkind : q.kind = .update ∨ q.kind = .delete ∨ q.kind = .upsert) (storage : Storage) :
    ∃ base s, tableByName ir q.table = some base ∧
      emitQuerySql ir base q = some (s.text, deriveBindParams base q ir) ∧
      emitStatement ir base q = some s ∧
      ∀ args db db', Instance.Keeps ir db → s.execute storage ir args db = .ok db' →
        OnlyOne q.table db db' := by
  have hn := validate_names h
  obtain ⟨base, path, hbase, hcheck, -⟩ := validate_query h hq
  obtain ⟨hb, hname⟩ := tableByName_spec hbase
  have htouches : TouchesOneRow storage ir base q := by
    rcases hkind with hkind | hkind | hkind
    · rw [hkind] at hcheck
      exact update_touches hn hb hkind hcheck storage
    · rw [hkind] at hcheck
      exact delete_touches hn hb hkind hcheck storage
    · rw [hkind] at hcheck
      exact upsert_touches hn hb hkind hcheck storage
  obtain ⟨s, hemit, honly⟩ := htouches
  refine ⟨base, s, hbase, ?_, hemit, fun args db db' hkeeps hrun => ?_⟩
  · rw [emitQuerySql, hemit]
    rfl
  · rw [← hname]
    exact honly args db db' hkeeps hrun

/-- Accounts under two keys, the second of which may be NULL. -/
def accountMutations : Document where
  tables :=
    [{ name := "account", sqlName := "accounts"
       columns := [⟨"id", "id", .integer, false, true, false, none⟩,
         ⟨"mail", "mail", .text, true, false, true, none⟩]
       primaryKey := ["id"], uniques := [["mail"]], defaults := [] }]
  queries :=
    [{ name := "account.save", kind := .upsert, table := "account", cardinality := .changes
       filter := none, joins := none, orderBy := none, limit := none, offset := none
       values := some [⟨"id", "id"⟩, ⟨"mail", "mail"⟩], set := none
       onConflict := some ⟨["mail"], .update, some [⟨"id", "newId"⟩]⟩ }]

/-- Nothing is converted and nothing refused. -/
def plainStorage : Storage where
  affinity := typedAffinity
  stored _ v := v
  completed _ _ given column := (given column).getD none
  admits _ _ := true
  targetFirst := true

theorem save_touches_one : ∃ q ∈ accountMutations.queries, ∃ base s,
    tableByName accountMutations q.table = some base ∧
      emitQuerySql accountMutations base q =
        some (s.text, deriveBindParams base q accountMutations) ∧
      emitStatement accountMutations base q = some s ∧
      ∀ args db db', Instance.Keeps accountMutations db →
        s.execute plainStorage accountMutations args db = .ok db' → OnlyOne q.table db db' :=
  ⟨_, List.mem_singleton.mpr rfl,
    keyed_mutation_touches_one (by decide +kernel : validateDocument accountMutations = [])
      (List.mem_singleton.mpr rfl) (.inr (.inr rfl)) plainStorage⟩

end Esdb.Schema
