import Esdb.KeysetChain
import Esdb.StoreWire

/-!
# Scans that follow each other

A scan takes the last key that was delivered as the bound to begin beyond, and fewer records
than its limit tell that nothing is left. The memory Store reads its map, the object store a
statement over its tables; either gives a window of the keys it finds, whatever has changed
them since the scan before.
-/
namespace Esdb.Pagination

open KeysetChain

/-! ## The order of keys -/

/-- The keys in the order of their bytes. -/
def Before (a b : Bytes) : Prop := byteLess a b = true

theorem before_iff {a b : Bytes} : Before a b ↔ byteOrder a b = .lt := by
  unfold Before byteOrder
  cases byteLess a b with
  | true => simp
  | false => cases byteLess b a <;> simp

instance : IsStrictTotalOrder Bytes Before where
  irrefl a h := by
    rw [before_iff, (byteOrder_eq_iff a a).mpr rfl] at h
    cases h
  trans a b c hab hbc := by
    rw [before_iff] at hab hbc ⊢
    exact Std.TransCmp.lt_trans hab hbc
  trichotomous a b hab hba := by
    rw [before_iff] at hab
    rw [before_iff, ← Std.OrientedCmp.gt_iff_lt] at hba
    cases h : byteOrder a b with
    | lt => exact absurd h hab
    | eq => exact (byteOrder_eq_iff a b).mp h
    | gt => exact absurd h hba

theorem not_byteLess_iff {a b : Bytes} : (!byteLess b a) = true ↔ a = b ∨ Before a b := by
  rw [Bool.not_eq_true', ← Bool.not_eq_true]
  constructor
  · intro h
    rcases trichotomous_of Before a b with hlt | heq | hgt
    · exact .inr hlt
    · exact .inl heq
    · exact absurd hgt h
  · rintro (rfl | h) hgt
    · exact irrefl_of Before a hgt
    · exact asymm_of Before h hgt

theorem not_byteLess_trans {a b c : Bytes} (hab : (!byteLess b a) = true)
    (hbc : (!byteLess c b) = true) : (!byteLess c a) = true := by
  rw [not_byteLess_iff] at hab hbc ⊢
  rcases hab with rfl | hab
  · exact hbc
  · rcases hbc with rfl | hbc
    · exact .inr hab
    · exact .inr (IsTrans.trans _ _ _ hab hbc)

theorem not_byteLess_total (a b : Bytes) : (!byteLess b a || !byteLess a b) = true := by
  rw [Bool.or_eq_true, not_byteLess_iff, not_byteLess_iff]
  rcases trichotomous_of Before a b with hlt | heq | hgt
  · exact .inl (.inr hlt)
  · exact .inl (.inl heq)
  · exact .inr (.inr hgt)

/-! ## Delivery -/

open ObjectStore (deliveredCount)

theorem deliveredCount_le {callback : ℕ → Verdict} {rows delivered n : ℕ}
    (h : deliveredCount callback rows delivered = some n) : n ≤ delivered + rows := by
  induction rows generalizing delivered with
  | zero => exact Nat.le_of_eq (Option.some.inj h).symm
  | succ rows ih =>
      rw [deliveredCount] at h
      cases hc : callback delivered with
      | proceed =>
          rw [hc] at h
          have := ih h
          omega
      | stop =>
          rw [hc] at h
          obtain rfl := Option.some.inj h
          omega
      | throw =>
          rw [hc] at h
          cases h

/-- A callback that never stops gets all rows. -/
theorem deliveredCount_all {callback : ℕ → Verdict} {rows delivered n : ℕ}
    (h : deliveredCount callback rows delivered = some n)
    (hall : ∀ i < n, callback i = .proceed) : n = delivered + rows := by
  induction rows generalizing delivered with
  | zero => exact (Option.some.inj h).symm
  | succ rows ih =>
      rw [deliveredCount] at h
      cases hc : callback delivered with
      | proceed =>
          rw [hc] at h
          have := ih h
          omega
      | stop =>
          rw [hc] at h
          obtain rfl := Option.some.inj h
          have := hall delivered (Nat.lt_succ_self _)
          rw [hc] at this
          cases this
      | throw =>
          rw [hc] at h
          cases h

/-- Fewer records than the limit were delivered, and the callback did not stop. -/
def EndReported (limit : ℕ) (callback : ℕ → Verdict) (count : ℕ) : Prop :=
  count < limit ∧ ∀ i < count, callback i = .proceed

/-- The delivery of the first rows beyond the bound. -/
theorem window_delivered {present : Set Bytes} {cursor : Option Bytes} {all : List Bytes}
    (hsorted : all.Pairwise Before)
    (hall : ∀ k, k ∈ all ↔ k ∈ present ∧ Beyond Before cursor k) {limit n : ℕ}
    {callback : ℕ → Verdict}
    (hn : deliveredCount callback (all.take limit).length 0 = some n) :
    Window Before present cursor ((all.take limit).take n) (EndReported limit callback n) := by
  rw [List.take_take]
  refine window_take hsorted hall _ ?_
  rintro ⟨hlt, hproceed⟩
  have hcount := deliveredCount_all hn hproceed
  rw [List.length_take] at hcount
  omega

/-! ## The memory Store -/

section Memory
open MemoryStore

variable {s s' : StoreState}

def memoryKeys (s : StoreState) : Set Bytes := {k | k ∈ s.records}

def MemoryMoves (s s' : StoreState) : Prop := ∃ c : MemoryStore.Call, s' = (c.exec s).2

/-- A scan that succeeds, and whether its count tells the end. -/
def MemoryScans (cursor : Option Bytes) (s : StoreState) (page : List Bytes) (ended : Prop)
    (s' : StoreState) : Prop :=
  ∃ alloc limit callback records, scan alloc cursor limit callback s = .ok records ∧
    page = records.map (·.key) ∧
      ended = EndReported (scanLimit limit) callback records.length ∧ s' = s

/-- What follows the first key beyond the bound is beyond it too. -/
theorem mem_dropWhile {α : Type} {key : α → Bytes} {bound : Bytes} {rows : List α}
    (h : rows.Pairwise fun a b => Before (key a) (key b)) (x : α) :
    x ∈ rows.dropWhile (fun p => !byteLess bound (key p)) ↔ x ∈ rows ∧ Before bound (key x) := by
  induction rows with
  | nil => simp
  | cons p rows ih =>
      obtain ⟨hp, hrows⟩ := List.pairwise_cons.mp h
      cases hb : byteLess bound (key p) with
      | false =>
          rw [List.dropWhile_cons_of_pos (by rw [hb]; rfl), ih hrows, List.mem_cons]
          refine ⟨fun h => ⟨.inr h.1, h.2⟩, fun h => ⟨h.1.resolve_left ?_, h.2⟩⟩
          rintro rfl
          exact absurd h.2 (by rw [Before, hb]; decide)
      | true =>
          rw [List.dropWhile_cons_of_neg (by rw [hb]; decide)]
          refine ⟨fun h => ⟨h, ?_⟩, And.left⟩
          rcases List.mem_cons.mp h with rfl | hmem
          · exact hb
          · exact IsTrans.trans _ _ _ hb (hp x hmem)

theorem pairwise_toList (s : StoreState) :
    s.records.toList.Pairwise fun a b => Before a.1 b.1 :=
  (Std.ExtTreeMap.ordered_keys_toList (t := s.records)).imp before_iff.mpr

theorem recordsFrom_keys (cursor : Option Bytes) (s : StoreState) :
    ((recordsFrom cursor s).map Prod.fst).Pairwise Before ∧
      ∀ k, k ∈ (recordsFrom cursor s).map Prod.fst ↔
        k ∈ memoryKeys s ∧ Beyond Before cursor k := by
  have hmem : ∀ k, k ∈ memoryKeys s ↔ ∃ p ∈ s.records.toList, p.1 = k := by
    intro k
    constructor
    · intro hk
      have hin : k ∈ s.records := hk
      exact ⟨(k, s.records[k]), Std.ExtTreeMap.mem_toList_iff_getElem?_eq_some.mpr
        (Std.ExtTreeMap.getElem?_eq_some_getElem hin), rfl⟩
    · rintro ⟨p, hp, rfl⟩
      have hget := Std.ExtTreeMap.mem_toList_iff_getElem?_eq_some.mp hp
      exact Std.ExtTreeMap.mem_iff_isSome_getElem?.mpr (by rw [hget]; rfl)
  refine ⟨?_, fun k => ?_⟩
  · rw [List.pairwise_map]
    exact (pairwise_toList s).sublist (recordsFrom_sublist cursor s)
  · rw [List.mem_map, hmem]
    cases cursor with
    | none => exact ⟨fun h => ⟨h, beyond_none⟩, And.left⟩
    | some bound =>
        rw [beyond_some]
        constructor
        · rintro ⟨p, hp, rfl⟩
          obtain ⟨hp, hbound⟩ := (mem_dropWhile (pairwise_toList s) p).mp hp
          exact ⟨⟨p, hp, rfl⟩, hbound⟩
        · rintro ⟨⟨p, hp, rfl⟩, hbound⟩
          exact ⟨p, (mem_dropWhile (pairwise_toList s) p).mpr ⟨hp, hbound⟩, rfl⟩

theorem MemoryScans.window {cursor : Option Bytes} {page : List Bytes} {ended : Prop}
    (h : MemoryScans cursor s page ended s') : Window Before (memoryKeys s') cursor page ended := by
  obtain ⟨alloc, limit, callback, records, hscan, rfl, rfl, rfl⟩ := h
  obtain ⟨hsorted, hall⟩ := recordsFrom_keys cursor s'
  obtain ⟨-, n, hn, rfl⟩ := scan_ok hscan
  have hkeys : (((recordsFrom cursor s').take (scanLimit limit)).map ownRecord).map (·.key) =
      ((recordsFrom cursor s').map Prod.fst).take (scanLimit limit) := by
    rw [List.map_map, List.map_take]
    rfl
  have hlength := congrArg List.length hkeys
  rw [List.length_map] at hlength
  rw [List.map_take, hkeys]
  have hn' := hn
  rw [← List.length_map ownRecord, hlength] at hn'
  have hcount : ((((recordsFrom cursor s').take (scanLimit limit)).map ownRecord).take n).length =
      n := by
    rw [List.length_take, List.length_map]
    have := deliveredCount_le hn
    omega
  rw [hcount]
  exact window_delivered hsorted hall hn'

end Memory

/-! ## The object store -/

section Object
open ObjectStore Transactional KeyedRows

variable {σ σ' : Session} {name : Bytes} {cursor : Option Bytes}

/-- The keys that a store has in the tables. -/
def keysOf (name : Bytes) (d : Tables) : Set Bytes :=
  {k | ∃ stores records, d.stores = some stores ∧ d.records = some records ∧
    ∃ r ∈ Tables.recordsOf name stores records, r.key = k}

/-- No two records have the same primary key. -/
def UniqueRecords (d : Tables) : Prop :=
  ∀ rows, d.records = some rows → Unique RecordRow.primaryKey rows

theorem UniqueRecords.eval {s : Sql} {r : s.Row} {d d' : Tables} (he : s.eval d = .ok (r, d'))
    (h : UniqueRecords d) : UniqueRecords d' := by
  cases hs : s.writes with
  | false =>
      obtain rfl := Sql.eval_reads hs he
      exact h
  | true =>
      cases s <;> simp only [Sql.writes, Bool.false_eq_true] at hs <;> simp only [Sql.eval] at he
      case createRecords =>
        cases hr : d.records with
        | some rows => simp [hr] at he
        | none =>
            simp only [hr, Except.ok.injEq, Prod.mk.injEq] at he
            obtain ⟨-, rfl⟩ := he
            rintro rows ⟨⟩
            exact unique_nil
      case upsertRecord row =>
        cases hr : d.records with
        | none => simp [hr] at he
        | some rows =>
            simp only [hr, Except.ok.injEq, Prod.mk.injEq] at he
            obtain ⟨-, rfl⟩ := he
            rintro rows' ⟨⟩
            exact (h rows hr).upsert row
      case deleteRecord store key =>
        cases hr : d.records with
        | none => simp [hr] at he
        | some rows =>
            simp only [hr, Except.ok.injEq, Prod.mk.injEq] at he
            obtain ⟨-, rfl⟩ := he
            rintro rows' ⟨⟩
            exact (h rows hr).remove _
      -- The other statements leave the records as they are.
      all_goals
        have hsame : d'.records = d.records := by
          repeat' split at he
          all_goals cases he
          all_goals rfl
        intro rows hrows
        exact h rows (hsame.symm.trans hrows)

theorem uniqueRecords_view (h : Lives σ) : UniqueRecords σ.view :=
  (h.keeps UniqueRecords.eval fun _ hrows => nomatch hrows).2.kept

/-- The sessions of a connection that only the store writes to. -/
abbrev LiveSession : Type := {σ : Session // Lives σ}

/-- A call on the connection, or what others have done to the file. -/
def ObjectMoves (σ σ' : LiveSession) : Prop :=
  (∃ (call : ObjectStore.Call) (r : _), call.Legal σ.1.wrapper ∧
    Runs anyFaults call.program σ.1 r σ'.1) ∨
    ∃ file, anyFaults.Moves σ.1.conn σ.1.file file ∧ σ'.1 = { σ.1 with file := file }

def ObjectScans (name : Bytes) (cursor : Option Bytes) (σ : LiveSession) (page : List Bytes)
    (ended : Prop) (σ' : LiveSession) : Prop :=
  ∃ room allocates limit callback records,
    Runs anyFaults (scan room allocates name cursor limit callback) σ.1 (.ok records) σ'.1 ∧
      page = records.map (·.key) ∧
        ended = EndReported (if limit = 0 then scanLimitMax else limit) callback records.length

/-- One store has one record under a key. -/
theorem recordsOf_keys {d : Tables} (hj : Journal d) (hu : UniqueRecords d)
    {stores : List StoreRow} {records : List RecordRow} (hs : d.stores = some stores)
    (hr : d.records = some records) (name : Bytes) :
    (Tables.recordsOf name stores records).Pairwise fun a b => a.key ≠ b.key := by
  have hnames : Unique StoreRow.name stores := by
    have h := hj.storeNames
    rwa [Tables.storeRows, hs] at h
  have hunique : (Tables.recordsOf name stores records).Pairwise
      fun a b => RecordRow.primaryKey a ≠ RecordRow.primaryKey b :=
    (List.pairwise_map.mp (hu records hr)).filter _
  refine hunique.imp_of_mem fun {a b} ha hb hne hkey => hne ?_
  rw [Tables.recordsOf, List.mem_filter, List.any_eq_true] at ha hb
  obtain ⟨-, sa, hsa, hma⟩ := ha
  obtain ⟨-, sb, hsb, hmb⟩ := hb
  rw [Bool.and_eq_true, decide_eq_true_eq, decide_eq_true_eq] at hma hmb
  obtain rfl := hnames.eq_of_key hsa hsb (hma.2.trans hmb.2.symm)
  rw [RecordRow.primaryKey, RecordRow.primaryKey, ← hma.1, ← hmb.1, hkey]

/-- The records of a store that `WHERE` lets through. -/
def found (name : Bytes) (cursor : Option Bytes) (stores : List StoreRow)
    (records : List RecordRow) : List RecordRow :=
  (Tables.recordsOf name stores records).filter fun r =>
    match cursor with
    | none => true
    | some after => byteLess after r.key

theorem mem_found {stores : List StoreRow} {records : List RecordRow} {r : RecordRow} :
    r ∈ found name cursor stores records ↔
      r ∈ Tables.recordsOf name stores records ∧ Beyond Before cursor r.key := by
  rw [found, List.mem_filter]
  cases cursor with
  | none => exact ⟨fun h => ⟨h.1, beyond_none⟩, fun h => ⟨h.1, rfl⟩⟩
  | some after => rw [beyond_some, Before]

/-- The rows of the statement, in the order of their keys. -/
theorem scanRecords_keys {d : Tables} (hj : Journal d) (hu : UniqueRecords d) {limit : ℕ}
    {rows : List RecordRow} (h : (Sql.scanRecords name cursor limit).eval d = .ok (rows, d)) :
    ∃ all : List Bytes, rows.map (·.key) = all.take limit ∧ all.Pairwise Before ∧
      ∀ k, k ∈ all ↔ k ∈ keysOf name d ∧ Beyond Before cursor k := by
  simp only [Sql.eval] at h
  split at h
  · next stores records hs hr =>
      obtain ⟨rfl, -⟩ := Prod.mk.inj (Except.ok.inj h)
      change ∃ all : List Bytes, List.map _ (((found name cursor stores records).mergeSort
        fun a b => !byteLess b.key a.key).take limit) = _ ∧ _
      have hperm := List.mergeSort_perm (found name cursor stores records)
        fun a b => !byteLess b.key a.key
      have hsorted : ((found name cursor stores records).mergeSort
          fun a b => !byteLess b.key a.key).Pairwise
            fun (a b : RecordRow) => (!byteLess b.key a.key) = true :=
        @List.pairwise_mergeSort RecordRow (fun a b => !byteLess b.key a.key)
          (fun _ _ _ => not_byteLess_trans) (fun a b => not_byteLess_total a.key b.key) _
      refine ⟨_, List.map_take, ?_, fun k => ?_⟩
      · rw [List.pairwise_map]
        have hne := (hperm.pairwise_iff fun h => Ne.symm h).mpr
          ((recordsOf_keys hj hu hs hr name).filter _)
        exact (hsorted.and hne).imp fun h => (not_byteLess_iff.mp h.1).resolve_left h.2
      · rw [List.mem_map]
        constructor
        · rintro ⟨r, hmem, rfl⟩
          obtain ⟨hin, hbeyond⟩ := mem_found.mp (hperm.mem_iff.mp hmem)
          exact ⟨⟨stores, records, hs, hr, r, hin, rfl⟩, hbeyond⟩
        · rintro ⟨⟨stores', records', hs', hr', r, hin, rfl⟩, hbeyond⟩
          obtain rfl := Option.some.inj (hs.symm.trans hs')
          obtain rfl := Option.some.inj (hr.symm.trans hr')
          exact ⟨r, hperm.mem_iff.mpr (mem_found.mpr ⟨hin, hbeyond⟩), rfl⟩
  · cases h

theorem snapshot_keys {allocates : Bool} {rows : List RecordRow} {snapshot : List OwnedRecord}
    (h : List.Forall₂ (fun r record => ownRecord allocates r = .ok record) rows snapshot) :
    snapshot.map (·.key) = rows.map (·.key) := by
  induction h with
  | nil => rfl
  | @cons r record rows snapshot hown _ ih =>
      rw [List.map_cons, List.map_cons, ih]
      unfold ownRecord at hown
      split_ifs at hown
      split at hown
      · cases hown
      · cases hown
        rfl

theorem ObjectScans.window {σ σ' : LiveSession} {page : List Bytes} {ended : Prop}
    (h : ObjectScans name cursor σ page ended σ') :
    Window Before (keysOf name σ'.1.view) cursor page ended := by
  obtain ⟨room, allocates, limit, callback, records, hrun, rfl, rfl⟩ := h
  obtain ⟨-, rows, snapshot, n, heval, hforall, hn, rfl⟩ := Wire.runs_scan_rows hrun
  obtain ⟨all, hkeys, hsorted, hall⟩ := scanRecords_keys σ'.2.journal (uniqueRecords_view σ'.2) heval
  have hsnapshot := (snapshot_keys hforall).trans hkeys
  have hcount : (snapshot.take n).length = n := by
    rw [List.length_take]
    have := deliveredCount_le hn
    omega
  rw [hcount, List.map_take, hsnapshot]
  rw [← List.length_map (·.key), hsnapshot] at hn
  exact window_delivered hsorted hall hn

end Object

/-! ## Chains -/

/-- What chains of scans deliver, and what a report of the end tells. -/
def Paginates {S : Type} (content : S → Set Bytes) (moves : S → S → Prop)
    (scans : Option Bytes → S → List Bytes → Prop → S → Prop) : Prop :=
  ∀ past s keys ended, Chain moves scans past s keys ended →
    keys.Pairwise Before ∧
    (∀ k ∈ keys, ∃ t ∈ past, k ∈ content t) ∧
    (∀ k, (∀ t ∈ past, k ∈ content t) → ended ∨ ¬Beyond Before keys.getLast? k →
      keys.count k = 1) ∧
    ∀ page now s', scans keys.getLast? s page now s' → now → ∀ k ∈ content s',
      ¬Beyond Before (keys ++ page).getLast? k

theorem paginates_of_window {S : Type} {content : S → Set Bytes} {moves : S → S → Prop}
    {scans : Option Bytes → S → List Bytes → Prop → S → Prop}
    (h : ∀ cursor s page now s', scans cursor s page now s' →
      Window Before (content s') cursor page now) : Paginates content moves scans := by
  intro past s keys ended hchain
  have hread := hchain.complete h
  have hnodup : keys.Nodup := hread.ascending.imp fun hlt heq => by
    subst heq
    exact irrefl_of Before _ hlt
  refine ⟨hread.ascending, hread.sound, fun k hall hpassed => ?_, ?_⟩
  · refine List.count_eq_one_of_mem hnodup ?_
    rcases hpassed with hended | hpassed
    · exact hread.all hended k hall
    · exact hread.passed k hall hpassed
  · exact fun page now s' hscan hnow k hk => (h _ _ _ _ _ hscan).last hnow hk

/-- Scans of the memory Store and of an object store that follow each other miss no key that
stays, and repeat none. -/
theorem pagination (name : Bytes) : Paginates memoryKeys MemoryMoves MemoryScans ∧
    Paginates (fun σ : LiveSession => keysOf name σ.1.view) ObjectMoves (ObjectScans name) :=
  ⟨paginates_of_window fun _ _ _ _ _ => MemoryScans.window,
    paginates_of_window fun _ _ _ _ _ => ObjectScans.window⟩

end Esdb.Pagination
