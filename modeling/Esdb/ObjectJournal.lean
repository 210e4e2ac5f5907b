import Esdb.ObjectTables

/-!
# The journal under single statements

What every statement keeps, whichever mutation it is part of and whether or not
that mutation is ever finished: the rows of the change table are the changes ever
inserted less the pruned ones, in ascending revisions up to the recorded sequence
value, and stores keep their identifiers. Whatever has been logged stays logged.
-/
namespace Esdb.ObjectStore

open KeyedRows

namespace Tables

def metadataRows (d : Tables) : List (Bytes × Cell) := d.metadata.getD []
def storeRows (d : Tables) : List StoreRow := d.stores.getD []
def recordRows (d : Tables) : List RecordRow := d.records.getD []
def changeRows (d : Tables) : List ChangeRow := d.changes.getD []

/-- The highest revision ever assigned. -/
def top (d : Tables) : ℤ := lastRowid d.log

end Tables

/-- What one content has that a later one still has. -/
structure Grows (d d' : Tables) : Prop where
  log : d.log <+: d'.log
  written : d.written <+: d'.written
  stores : d.storeRows <+: d'.storeRows
  pruned : d.pruned ≤ d'.pruned
  creations : d.creations ≤ d'.creations

theorem Grows.same {d d' : Tables} (hl : d'.log = d.log) (hw : d'.written = d.written)
    (hs : d'.storeRows = d.storeRows) (hp : d'.pruned = d.pruned) (hc : d'.creations = d.creations) :
    Grows d d' := by
  constructor
  · exact hl ▸ List.prefix_rfl
  · exact hw ▸ List.prefix_rfl
  · exact hs ▸ List.prefix_rfl
  · exact Int.le_of_eq hp.symm
  · exact Nat.le_of_eq hc.symm

theorem Grows.refl (d : Tables) : Grows d d := .same rfl rfl rfl rfl rfl

theorem Grows.trans {a b c : Tables} (h₁ : Grows a b) (h₂ : Grows b c) : Grows a c :=
  ⟨h₁.log.trans h₂.log, h₁.written.trans h₂.written, h₁.stores.trans h₂.stores,
    Int.le_trans h₁.pruned h₂.pruned, Nat.le_trans h₁.creations h₂.creations⟩

/-- The part of the tables that single statements keep in order. -/
structure Journal (d : Tables) : Prop where
  ascending : d.log.Pairwise (·.revision < ·.revision)
  range : ∀ c ∈ d.log, 0 < c.revision ∧ c.revision ≤ maxRowid
  sequence : d.sequence = if d.log = [] then none else some (.integer d.top)
  changes : d.changeRows = d.log.filter (d.pruned < ·.revision)
  pruned : 0 ≤ d.pruned ∧ d.pruned ≤ d.top
  absent : d.changes = none → d.log = []
  storeIds : Unique StoreRow.id d.storeRows
  storeNames : Unique StoreRow.name d.storeRows
  created : d.creations = if d.metadata.isSome then 1 else 0

/-! ## Ascending revisions -/

theorem lastRowid_append (rows : List ChangeRow) (row : ChangeRow) :
    Tables.lastRowid (rows ++ [row]) = row.revision := by
  simp [Tables.lastRowid]

theorem lastRowid_nonneg {rows : List ChangeRow} (h : ∀ c ∈ rows, 0 < c.revision) :
    0 ≤ Tables.lastRowid rows := by
  unfold Tables.lastRowid
  cases hl : rows.getLast? with
  | none => simp
  | some c => exact Int.le_of_lt (h c (List.mem_of_getLast? hl))

theorem le_lastRowid {rows : List ChangeRow} (h : rows.Pairwise (·.revision < ·.revision))
    {c : ChangeRow} (hc : c ∈ rows) : c.revision ≤ Tables.lastRowid rows := by
  induction rows generalizing c with
  | nil => simp at hc
  | cons a rows ih =>
      rw [List.pairwise_cons] at h
      cases rows with
      | nil =>
          obtain rfl := List.mem_singleton.mp hc
          simp [Tables.lastRowid]
      | cons b rows =>
          have hlast : Tables.lastRowid (a :: b :: rows) = Tables.lastRowid (b :: rows) := by
            simp [Tables.lastRowid, List.getLast?_cons_cons]
          rw [hlast]
          rcases List.mem_cons.mp hc with rfl | hc
          · have hb := ih h.2 List.mem_cons_self
            have := h.1 b List.mem_cons_self
            omega
          · exact ih h.2 hc

theorem lastRowid_mem {rows : List ChangeRow} (h : rows ≠ []) :
    ∃ c ∈ rows, c.revision = Tables.lastRowid rows := by
  cases hl : rows.getLast? with
  | none => simp_all
  | some c => exact ⟨c, List.mem_of_getLast? hl, by simp [Tables.lastRowid, hl]⟩

theorem Journal.top_nonneg {d : Tables} (h : Journal d) : 0 ≤ d.top :=
  lastRowid_nonneg fun c hc => (h.range c hc).1

theorem Journal.le_top {d : Tables} (h : Journal d) {c : ChangeRow} (hc : c ∈ d.log) :
    c.revision ≤ d.top := le_lastRowid h.ascending hc

theorem Journal.sequenceValue {d : Tables} (h : Journal d) : d.sequenceValue = d.top := by
  unfold Tables.sequenceValue
  rw [h.sequence]
  split_ifs with hl
  · simp [Tables.top, Tables.lastRowid, hl]
  · rfl

theorem Journal.mem_changes {d : Tables} (h : Journal d) {c : ChangeRow} :
    c ∈ d.changeRows ↔ c ∈ d.log ∧ d.pruned < c.revision := by
  simp [h.changes]

theorem Journal.lastRowid_changes {d : Tables} (h : Journal d) :
    Tables.lastRowid d.changeRows ≤ d.top := by
  by_cases hc : d.changeRows = []
  · rw [hc]
    exact h.top_nonneg
  · obtain ⟨c, hm, he⟩ := lastRowid_mem hc
    rw [← he]
    exact h.le_top (h.mem_changes.mp hm).1

/-- `AUTOINCREMENT` assigns one more than was ever assigned. -/
theorem Journal.nextRevision {d : Tables} (h : Journal d) {rows : List ChangeRow}
    (hr : d.changes = some rows) {revision : ℤ} (hn : d.nextRevision rows = some revision) :
    revision = d.top + 1 ∧ revision ≤ maxRowid := by
  have hlast : Tables.lastRowid rows ≤ d.top := by
    have := h.lastRowid_changes
    rwa [Tables.changeRows, hr] at this
  have hmax : d.top ≤ maxRowid := by
    by_cases hl : d.log = []
    · simp [Tables.top, Tables.lastRowid, hl, maxRowid]
    · obtain ⟨c, hc, he⟩ := lastRowid_mem hl
      have := (h.range c hc).2
      unfold Tables.top
      omega
  unfold Tables.nextRevision at hn
  rw [h.sequenceValue] at hn
  split_ifs at hn with hfull
  simp only [Option.some.injEq] at hn
  omega

theorem Journal.nextStoreId {rows : List StoreRow} {s : StoreRow} (hs : s ∈ rows) :
    s.id < Tables.nextStoreId rows := by
  have hfold : ∀ (l : List StoreRow) (m : ℤ), m ≤ l.foldl (fun m row => max m row.id) m ∧
      ∀ x ∈ l, x.id ≤ l.foldl (fun m row => max m row.id) m := by
    intro l
    induction l with
    | nil => simp
    | cons a l ih =>
        intro m
        obtain ⟨h₁, h₂⟩ := ih (max m a.id)
        simp only [List.foldl_cons]
        refine ⟨by omega, fun x hx => ?_⟩
        rcases List.mem_cons.mp hx with rfl | hx
        · omega
        · exact h₂ x hx
  have := (hfold rows 0).2 s hs
  unfold Tables.nextStoreId
  omega

/-! ## Statements -/

theorem journal_empty : Journal Tables.empty := by
  constructor <;> simp [Tables.empty, Tables.changeRows, Tables.storeRows, Tables.top,
    Tables.lastRowid, unique_nil]

theorem Journal.insertChange {d : Tables} (h : Journal d) {rows : List ChangeRow}
    (hr : d.changes = some rows) {row : ChangeRow} (hn : d.nextRevision rows = some row.revision) :
    Journal { d with
      changes := some (rows ++ [row])
      sequence := some (.integer row.revision)
      log := d.log ++ [row] } := by
  obtain ⟨hrev, hmax⟩ := h.nextRevision hr hn
  have hnonneg := h.top_nonneg
  have hrows : rows = d.log.filter (d.pruned < ·.revision) := by
    rw [← h.changes, Tables.changeRows, hr]
    rfl
  have htop : Tables.lastRowid (d.log ++ [row]) = row.revision := lastRowid_append _ _
  constructor
  · rw [List.pairwise_append]
    refine ⟨h.ascending, List.pairwise_singleton _ _, ?_⟩
    intro a ha b hb
    obtain rfl := List.mem_singleton.mp hb
    have := h.le_top ha
    omega
  · intro c hc
    rcases List.mem_append.mp hc with hc | hc
    · exact h.range c hc
    · obtain rfl := List.mem_singleton.mp hc
      exact ⟨by omega, hmax⟩
  · simp [Tables.top, htop]
  · have hp := h.pruned
    simp only [Tables.changeRows, Option.getD_some, List.filter_append, hrows]
    have hnew : decide (d.pruned < row.revision) = true := decide_eq_true (by omega)
    simp [hnew]
  · have hp := h.pruned
    simp only [Tables.top, htop]
    exact ⟨hp.1, by omega⟩
  · simp
  · exact h.storeIds
  · exact h.storeNames
  · exact h.created

theorem Journal.pruneChanges {d : Tables} (h : Journal d) {rows : List ChangeRow}
    (hr : d.changes = some rows) (through : ℕ) :
    Journal { d with
      changes := some (rows.filter fun c => (through : ℤ) < c.revision)
      pruned := max d.pruned (min (through : ℤ) d.sequenceValue) } := by
  have hrows : rows = d.log.filter (d.pruned < ·.revision) := by
    rw [← h.changes, Tables.changeRows, hr]
    rfl
  have hseq := h.sequenceValue
  have hp := h.pruned
  refine ⟨h.ascending, h.range, h.sequence, ?_, ?_, by simp, h.storeIds, h.storeNames, h.created⟩
  · simp only [Tables.changeRows, Option.getD_some, hrows, List.filter_filter]
    apply List.filter_congr
    intro c hc
    have hle := h.le_top hc
    rw [hseq, ← Bool.decide_and, decide_eq_decide]
    omega
  · simp only [Tables.top] at hp ⊢
    rw [hseq]
    unfold Tables.top
    omega

theorem Journal.registerStore {d : Tables} (h : Journal d) {rows : List StoreRow}
    (hr : d.stores = some rows) {name : Bytes} (hn : lookup StoreRow.name name rows = none) :
    Journal { d with stores := some (rows ++ [⟨Tables.nextStoreId rows, name⟩]) } := by
  have hrows : d.storeRows = rows := by simp [Tables.storeRows, hr]
  have hids := h.storeIds
  have hnames := h.storeNames
  rw [hrows] at hids hnames
  refine ⟨h.ascending, h.range, h.sequence, h.changes, h.pruned, h.absent, ?_, ?_, h.created⟩
  · simp only [KeyedRows.Unique, Tables.storeRows, Option.getD_some, List.map_append]
    refine List.Nodup.append hids (List.nodup_singleton _) ?_
    intro id hid hnew
    obtain ⟨s, hs, rfl⟩ := List.mem_map.mp hid
    have := Journal.nextStoreId hs
    simp at hnew
    omega
  · simp only [KeyedRows.Unique, Tables.storeRows, Option.getD_some, List.map_append]
    refine List.Nodup.append hnames (List.nodup_singleton _) ?_
    intro k hk hnew
    obtain ⟨s, hs, rfl⟩ := List.mem_map.mp hk
    simp only [List.map_cons, List.map_nil, List.mem_singleton] at hnew
    exact lookup_eq_none hn s hs hnew

/-- Every statement keeps the journal in order and takes nothing away from what
has been logged. -/
theorem Sql.eval_journal {s : Sql} {d d' : Tables} {r : s.Row} (he : s.eval d = .ok (r, d'))
    (h : Journal d) : Journal d' ∧ Grows d d' := by
  cases hs : s.writes with
  | false =>
      obtain rfl := Sql.eval_reads hs he
      exact ⟨h, .refl d'⟩
  | true =>
      cases s <;> simp only [Sql.writes, Bool.false_eq_true] at hs <;> simp only [Sql.eval] at he
      case createMeta =>
        cases hm : d.metadata with
        | some rows => simp [hm] at he
        | none =>
            simp only [hm, Except.ok.injEq, Prod.mk.injEq] at he
            obtain ⟨-, rfl⟩ := he
            have hc := h.created
            simp only [hm, Option.isSome_none, Bool.false_eq_true, if_false] at hc
            exact ⟨⟨h.ascending, h.range, h.sequence, h.changes, h.pruned, h.absent, h.storeIds,
              h.storeNames, by simp [hc]⟩, ⟨List.prefix_rfl, List.prefix_rfl, List.prefix_rfl,
              Int.le_refl _, Nat.le_succ _⟩⟩
      case createStores =>
        cases hm : d.stores with
        | some rows => simp [hm] at he
        | none =>
            simp only [hm, Except.ok.injEq, Prod.mk.injEq] at he
            obtain ⟨-, rfl⟩ := he
            exact ⟨⟨h.ascending, h.range, h.sequence, h.changes, h.pruned, h.absent, unique_nil,
              unique_nil, h.created⟩, ⟨List.prefix_rfl, List.prefix_rfl,
              by simp [Tables.storeRows, hm], Int.le_refl _, Nat.le_refl _⟩⟩
      case createRecords =>
        cases hm : d.records with
        | some rows => simp [hm] at he
        | none =>
            simp only [hm, Except.ok.injEq, Prod.mk.injEq] at he
            obtain ⟨-, rfl⟩ := he
            exact ⟨⟨h.ascending, h.range, h.sequence, h.changes, h.pruned, h.absent, h.storeIds,
              h.storeNames, h.created⟩, .same rfl rfl rfl rfl rfl⟩
      case createChanges =>
        cases hm : d.changes with
        | some rows => simp [hm] at he
        | none =>
            simp only [hm, Except.ok.injEq, Prod.mk.injEq] at he
            obtain ⟨-, rfl⟩ := he
            have hl := h.absent hm
            exact ⟨⟨h.ascending, h.range, h.sequence, by simp [Tables.changeRows, hl], h.pruned,
              fun _ => hl, h.storeIds, h.storeNames, h.created⟩, .same rfl rfl rfl rfl rfl⟩
      case createChangesIndex =>
        cases hm : d.changes with
        | none => simp [hm] at he
        | some rows =>
            simp only [hm, Except.ok.injEq, Prod.mk.injEq] at he
            obtain ⟨-, rfl⟩ := he
            exact ⟨h, .refl d⟩
      case insertMeta key value =>
        cases hm : d.metadata with
        | none => simp [hm] at he
        | some rows =>
            simp only [hm] at he
            split at he
            · simp at he
            · simp only [Except.ok.injEq, Prod.mk.injEq] at he
              obtain ⟨-, rfl⟩ := he
              have hc := h.created
              rw [hm] at hc
              exact ⟨⟨h.ascending, h.range, h.sequence, h.changes, h.pruned, h.absent, h.storeIds,
                h.storeNames, hc⟩, .same rfl rfl rfl rfl rfl⟩
      case setRevision revision =>
        cases hm : d.metadata with
        | none => simp [hm] at he
        | some rows =>
            simp only [hm, Except.ok.injEq, Prod.mk.injEq] at he
            obtain ⟨-, rfl⟩ := he
            have hc := h.created
            rw [hm] at hc
            exact ⟨⟨h.ascending, h.range, h.sequence, h.changes, h.pruned, h.absent, h.storeIds,
              h.storeNames, hc⟩, .same rfl rfl rfl rfl rfl⟩
      case registerStore name =>
        cases hm : d.stores with
        | none => simp [hm] at he
        | some rows =>
            simp only [hm] at he
            split at he
            · simp only [Except.ok.injEq, Prod.mk.injEq] at he
              obtain ⟨-, rfl⟩ := he
              exact ⟨h, .refl d⟩
            · next hn =>
                split_ifs at he
                simp only [Except.ok.injEq, Prod.mk.injEq] at he
                obtain ⟨-, rfl⟩ := he
                exact ⟨h.registerStore hm hn, ⟨List.prefix_rfl, List.prefix_rfl,
                  by simp [Tables.storeRows, hm], Int.le_refl _, Nat.le_refl _⟩⟩
      case insertChange store key operation valueType =>
        cases hm : d.changes with
        | none => simp [hm] at he
        | some rows =>
            simp only [hm] at he
            cases hn : d.nextRevision rows with
            | none => simp [hn] at he
            | some revision =>
                simp only [hn, Except.ok.injEq, Prod.mk.injEq] at he
                obtain ⟨-, rfl⟩ := he
                exact ⟨h.insertChange hm hn, ⟨List.prefix_append _ _, List.prefix_rfl,
                  List.prefix_rfl, Int.le_refl _, Nat.le_refl _⟩⟩
      case upsertRecord row =>
        cases hm : d.records with
        | none => simp [hm] at he
        | some rows =>
            simp only [hm, Except.ok.injEq, Prod.mk.injEq] at he
            obtain ⟨-, rfl⟩ := he
            exact ⟨⟨h.ascending, h.range, h.sequence, h.changes, h.pruned, h.absent, h.storeIds,
              h.storeNames, h.created⟩, ⟨List.prefix_rfl, List.prefix_append _ _, List.prefix_rfl,
              Int.le_refl _, Nat.le_refl _⟩⟩
      case deleteRecord store key =>
        cases hm : d.records with
        | none => simp [hm] at he
        | some rows =>
            simp only [hm, Except.ok.injEq, Prod.mk.injEq] at he
            obtain ⟨-, rfl⟩ := he
            exact ⟨⟨h.ascending, h.range, h.sequence, h.changes, h.pruned, h.absent, h.storeIds,
              h.storeNames, h.created⟩, .same rfl rfl rfl rfl rfl⟩
      case pruneChanges through =>
        cases hm : d.changes with
        | none => simp [hm] at he
        | some rows =>
            simp only [hm, Except.ok.injEq, Prod.mk.injEq] at he
            obtain ⟨-, rfl⟩ := he
            exact ⟨h.pruneChanges hm through, ⟨List.prefix_rfl, List.prefix_rfl, List.prefix_rfl,
              Int.le_max_left _ _, Nat.le_refl _⟩⟩

end Esdb.ObjectStore
