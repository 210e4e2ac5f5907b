import Esdb.PhysicalDiff

/-!
# Unique keys of a compatible snapshot

When a snapshot is compatible with the IR, every unique key of the IR has a unique index of
the snapshot on its columns. The comparison does not ask whether that index has a predicate:
a key is enforced on all rows unless partial indexes are all it has.
-/
namespace Esdb.PhysicalSchema

open Schema

/-- The columns of the index are those of the key, in any order. -/
def Covers (index : AutomaticIndex) (key : List String) : Prop :=
  ∀ column, column ∈ index.columns.map IndexColumn.column ↔ column ∈ key.map some

/-- The unique indexes of a table, declared or made for a constraint. -/
def uniqueIndexes (snapshot : Snapshot) (table : PhysicalTable) : List AutomaticIndex :=
  table.automaticIndexes.filter AutomaticIndex.unique ++
    (snapshot.indexes.filter fun index => decide (index.table = table.name) && index.unique).map
      PhysicalIndex.toAutomaticIndex

def IsPrimaryKey (table : PhysicalTable) (key : List String) : Prop :=
  ∀ name, name ∈ key ↔ ∃ column ∈ table.columns, column.primaryKeyOrdinal ≠ 0 ∧ column.name = name

/-- No two rows of the table agree on the key. -/
def Enforces (snapshot : Snapshot) (table : PhysicalTable) (key : List String) : Prop :=
  IsPrimaryKey table key ∨
    ∃ index ∈ uniqueIndexes snapshot table, index.isPartial = false ∧ Covers index key

/-- A unique index on the key's columns in their order, that leaves rows out. -/
def HasPartial (snapshot : Snapshot) (table : PhysicalTable) (key : List String) : Prop :=
  ∃ index ∈ uniqueIndexes snapshot table, index.isPartial = true ∧
    keyColumns index = key.map some

theorem covers_of_keyColumns {index : AutomaticIndex} {key : List String}
    (h : keyColumns index = key.map some) : Covers index key := by
  intro column
  have hperm := ((List.perm_insertionSort (fun a b : IndexColumn => a.ordinal ≤ b.ordinal)
    index.columns).map IndexColumn.column).mem_iff (a := column)
  rw [← h]
  exact hperm.symm

theorem mem_physicalUniqueKeys {snapshot : Snapshot} {table : PhysicalTable} {key : KeyNames}
    (h : key ∈ physicalUniqueKeys snapshot table) :
    ∃ index ∈ uniqueIndexes snapshot table, keyColumns index = key := by
  unfold physicalUniqueKeys at h
  rcases List.mem_append.mp h with h | h
  · obtain ⟨index, hindex, rfl⟩ := List.mem_map.mp h
    obtain ⟨hmem, hunique⟩ := List.mem_filter.mp hindex
    exact ⟨index, List.mem_append_left _ (List.mem_filter.mpr
      ⟨hmem, (Bool.and_eq_true_iff.mp hunique).1⟩), rfl⟩
  · obtain ⟨index, hindex, rfl⟩ := List.mem_map.mp h
    exact ⟨_, List.mem_append_right _ (List.mem_map_of_mem hindex), rfl⟩

/-- What the comparison has found of a table without a mismatch. -/
theorem diffTable_nil {expectedModeled actual : Snapshot} {table : TableDecl}
    {part : List Mismatch × List Unmodeled}
    (h : diffTable expectedModeled actual table = .ok part) (hnil : part.1 = []) :
    ∃ actualTable, physicalTable actual (normalizeIdentifier table.sqlName) = some actualTable ∧
      ∀ key ∈ table.uniques,
        (expectedKey table.toTable key).map some ∈ physicalUniqueKeys actual actualTable := by
  unfold diffTable at h
  dsimp only at h
  cases htable : physicalTable actual (normalizeIdentifier table.sqlName) with
  | none =>
      rw [htable] at h
      obtain rfl := Except.ok.inj h
      cases hnil
  | some actualTable =>
      rw [htable] at h
      refine ⟨actualTable, rfl, fun key hkey => ?_⟩
      revert h
      dsimp only
      cases table.columns.mapM (diffColumn table actualTable
          s!"table:{normalizeIdentifier table.sqlName}") with
      | error e => exact fun h => nomatch h
      | ok columns =>
          intro h
          obtain rfl := Except.ok.inj h
          simp only [List.append_eq_nil_iff] at hnil
          have huniques := hnil.1.1.1.2
          unfold diffUniques at huniques
          have hcompare := List.flatMap_eq_nil_iff.mp huniques key hkey
          rw [compare_eq_nil] at hcompare
          exact List.contains_iff_mem.mp hcompare

theorem compatible_tables {sqlite : List String → Except String Catalogue} {ir : Declarations}
    {actual : Snapshot} {diff : IrDiff} (h : diffIrAgainstPhysical sqlite ir actual = .ok diff)
    (hc : diff.compatible = true) : ∃ expectedModeled, snapshotIr sqlite ir = .ok expectedModeled ∧
      ∀ table ∈ ir.tables, ∃ part, diffTable expectedModeled actual table = .ok part ∧
        part.1 = [] := by
  unfold diffIrAgainstPhysical at h
  cases hsnapshot : snapshotIr sqlite ir with
  | error e =>
      rw [hsnapshot] at h
      cases h
  | ok expectedModeled =>
      rw [hsnapshot] at h
      refine ⟨expectedModeled, rfl, fun table ht => ?_⟩
      cases hparts : ir.tables.mapM (diffTable expectedModeled actual) with
      | error e =>
          rw [Except.bind, hparts] at h
          cases h
      | ok parts =>
          rw [Except.bind, hparts] at h
          obtain rfl := Except.ok.inj h
          have hnil := List.flatMap_eq_nil_iff.mp (List.isEmpty_iff.mp hc)
          obtain ⟨part, hpart, hdiff⟩ := (mapM_ok hparts).1 table ht
          exact ⟨part, hdiff, hnil part hpart⟩

/-- A compatible snapshot enforces every unique key of the IR that has no partial index, and
of the others just those that have another index or are the primary key. -/
theorem unique_keys_enforced_iff {sqlite : List String → Except String Catalogue}
    {ir : Declarations} {actual : Snapshot} {diff : IrDiff}
    (h : diffIrAgainstPhysical sqlite ir actual = .ok diff)
    (hc : diff.compatible = true) : ∀ table ∈ ir.tables, ∃ actualTable,
      physicalTable actual (normalizeIdentifier table.sqlName) = some actualTable ∧
        ((∀ key ∈ table.uniques, Enforces actual actualTable (expectedKey table.toTable key)) ↔
          ∀ key ∈ table.uniques, HasPartial actual actualTable (expectedKey table.toTable key) →
            Enforces actual actualTable (expectedKey table.toTable key)) := by
  intro table ht
  obtain ⟨expectedModeled, -, hparts⟩ := compatible_tables h hc
  obtain ⟨part, hpart, hnil⟩ := hparts table ht
  obtain ⟨actualTable, hfound, hkeys⟩ := diffTable_nil hpart hnil
  refine ⟨actualTable, hfound, fun henforced key hkey _ => henforced key hkey,
    fun hrows key hkey => ?_⟩
  obtain ⟨index, hindex, hcolumns⟩ := mem_physicalUniqueKeys (hkeys key hkey)
  cases hwhole : index.isPartial with
  | true => exact hrows key hkey ⟨index, hindex, hwhole, hcolumns⟩
  | false => exact .inr ⟨index, hindex, hwhole, covers_of_keyColumns hcolumns⟩

/-- Members with an e-mail address of their own. -/
def members : Declarations where
  tables :=
    [{ name := "member", sqlName := "member"
       columns := [
         { name := "id", sqlName := "id", type := .integer, nullable := false
           primaryKey := true, unique := false, default := none },
         { name := "email", sqlName := "email", type := .text, nullable := false
           primaryKey := false, unique := true, default := none }]
       primaryKey := ["id"], uniques := [["email"]], defaults := [], autoincrement := []
       foreignKeys := none, checks := none, indexes := none }]
  queries := []

/-- What SQLite reports of such a table, with one index on the addresses. -/
def memberCatalogue (sql : String) (index : IndexRow) (indexSql : Option String) :
    Catalogue where
  schema := [⟨"table", "member", "member", some sql⟩, ⟨"index", index.name, "member", indexSql⟩]
  columns := fun _ => [⟨"id", "INTEGER", true, none, 1⟩, ⟨"email", "TEXT", true, none, 0⟩]
  foreignKeys := fun _ => []
  indexes := fun _ => [index]
  indexColumns := fun _ => [⟨0, 1, some "email", false, some "BINARY", true⟩,
    ⟨1, -1, none, false, some "BINARY", false⟩]

/-- The database made of the IR's own statements. -/
def membersCreated : Catalogue :=
  memberCatalogue "CREATE TABLE \"member\" (\n  \"id\" INTEGER NOT NULL,\n  \"email\" TEXT NOT NULL,\n  PRIMARY KEY (\"id\"),\n  UNIQUE (\"email\")\n)"
    ⟨"sqlite_autoindex_member_1", true, "u", false⟩ none

/-- One in which only the addresses of members with a positive id are unique. -/
def membersPartial : Catalogue :=
  memberCatalogue "CREATE TABLE member (id INTEGER NOT NULL PRIMARY KEY, email TEXT NOT NULL)"
    ⟨"member_email", true, "c", true⟩
    (some "CREATE UNIQUE INDEX member_email ON member (email) WHERE id > 0")

def snapshotOf (db : Catalogue) : Snapshot := ((snapshotDatabase db).toOption).getD ⟨[], [], [], []⟩

theorem compatible_of_any {diff : Except String IrDiff}
    (h : diff.toOption.any IrDiff.compatible = true) :
    ∃ d, diff = .ok d ∧ d.compatible = true := by
  obtain ⟨d, hd, hc⟩ := (Option.any_eq_true _ _).mp h
  exact ⟨d, toOption_eq_some.mp hd, hc⟩

theorem members_enforced : ∃ actualTable,
    physicalTable (snapshotOf membersCreated) (normalizeIdentifier "member") = some actualTable ∧
      Enforces (snapshotOf membersCreated) actualTable ["email"] := by
  have hcompatible : (diffIrAgainstPhysical (fun _ => .ok membersCreated) members
      (snapshotOf membersCreated)).toOption.any IrDiff.compatible = true := by decide +kernel
  obtain ⟨diff, hdiff, hc⟩ := compatible_of_any hcompatible
  have hmem := List.getElem_mem (l := members.tables) (n := 0) (by decide)
  obtain ⟨actualTable, hfound, hiff⟩ := unique_keys_enforced_iff hdiff hc _ hmem
  refine ⟨actualTable, hfound, hiff.mpr ?_ _ (List.mem_singleton_self _)⟩
  have hwhole : (snapshotOf membersCreated).tables.all (fun table =>
      (uniqueIndexes (snapshotOf membersCreated) table).all fun index => !index.isPartial) = true := by
    decide +kernel
  rintro key - ⟨index, hindex, hrows, -⟩
  have hnone := List.all_eq_true.mp (List.all_eq_true.mp hwhole _ (List.mem_of_find?_eq_some hfound))
    index hindex
  rw [hrows] at hnone
  cases hnone

/-- A partial unique index passes for the declared key. -/
theorem members_partial : validateDeclarations members = [] ∧
    ∃ diff actualTable, diffIrAgainstPhysical (fun _ => .ok membersCreated) members
        (snapshotOf membersPartial) = .ok diff ∧ diff.compatible = true ∧
      physicalTable (snapshotOf membersPartial) (normalizeIdentifier "member") = some actualTable ∧
      ¬Enforces (snapshotOf membersPartial) actualTable ["email"] := by
  have hcompatible : (diffIrAgainstPhysical (fun _ => .ok membersCreated) members
      (snapshotOf membersPartial)).toOption.any IrDiff.compatible = true := by decide +kernel
  obtain ⟨diff, hdiff, hc⟩ := compatible_of_any hcompatible
  have hrows : (snapshotOf membersPartial).tables.all (fun table =>
      (uniqueIndexes (snapshotOf membersPartial) table).all AutomaticIndex.isPartial &&
        table.columns.all fun column =>
          decide (column.name = "email") → column.primaryKeyOrdinal = 0) = true := by
    decide +kernel
  obtain ⟨actualTable, hfound⟩ : ∃ actualTable, physicalTable (snapshotOf membersPartial)
      (normalizeIdentifier "member") = some actualTable := by
    apply Option.isSome_iff_exists.mp
    decide +kernel
  have hall := List.all_eq_true.mp hrows _ (List.mem_of_find?_eq_some hfound)
  rw [Bool.and_eq_true, List.all_eq_true, List.all_eq_true] at hall
  refine ⟨by decide +kernel, diff, actualTable, hdiff, hc, hfound, ?_⟩
  rintro (hkey | ⟨index, hindex, hwhole, -⟩)
  · obtain ⟨column, hcolumn, hordinal, hname⟩ := (hkey "email").mp (List.mem_singleton_self _)
    have hzero := of_decide_eq_true (hall.2 column hcolumn)
    exact hordinal (hzero (decide_eq_true hname))
  · rw [hall.1 index hindex] at hwhole
    cases hwhole

end Esdb.PhysicalSchema
