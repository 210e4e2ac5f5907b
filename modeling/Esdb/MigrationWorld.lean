import Esdb.MigrationRun
import Esdb.TransactionalGhost
import Esdb.TransactionalWorld
import Mathlib.Data.List.Infix
import Mathlib.Logic.Relation

/-!
# Connections that migrate side by side

Several connections call `esdb_migrate` on one file, command by command in any order.
The version is read before the write lock is taken. When each call that gets the lock
finds the version that it has read, no step is ever committed twice and the version
never goes down; when another call commits in between, its steps are run again.
-/
namespace Esdb.Migration

open Transactional Esdb.Runtime

variable {P : Product} {migrations : List (Step P)}

/-- What follows the reading of the version. -/
def migrateAfter (migrations : List (Step P)) (target : ℕ) (allocates : Bool) :
    Except Failure ℕ → Prog (dialect P).language Database (Except Failure Unit)
  | .error e => .ret (.error e)
  | .ok current => migrateFrom migrations target allocates current

theorem migrate_eq (migrations : List (Step P)) (target : ℕ) (allocates : Bool) :
    migrate migrations target allocates =
      Prog.bind userVersionGet (migrateAfter migrations target allocates) := by
  change Prog.bind userVersionGet _ = _
  congr 1
  funext r
  cases r with
  | error e => rfl
  | ok current => rfl

/-- `esdb_migrate`, with a note of the version it has read. -/
def migrateNoting (migrations : List (Step P)) (target : ℕ) (allocates : Bool) :
    Prog (dialect P).language (Database × Option ℕ) (Except Failure Unit) :=
  Prog.noting none (Prog.bind (Prog.beside none userVersionGet) fun r =>
    Prog.noting r.toOption (Prog.beside r.toOption (migrateAfter migrations target allocates r)))

/-- The note changes nothing about the call. -/
theorem migrateNoting_wp {C : MigrationContract P} {target : ℕ} {allocates : Bool}
    {post : Except Failure Unit → Session P → Prop} {σ : Session P} (g : Option ℕ) :
    wp (C.unnoted (Option ℕ)) (migrateNoting migrations target allocates)
        (fun r σ' => post r ⟨σ'.file, σ'.conn, σ'.wrapper.1⟩) (σ.beside g) ↔
      wp C (migrate migrations target allocates) post σ := by
  rw [migrate_eq]
  exact wp_noting.trans wp_unnoted

/-! ## A transaction left open -/

variable {C : MigrationContract P} {σ σ' : Session P}

/-- In a transaction that is open already, the version is read there. -/
theorem wp_userVersionGet_open (ht : σ.conn.txn.isSome) :
    wp C (userVersionGet (P := P)) (fun r σ' => match r with
      | .ok _ => σ'.conn.txn.isSome
      | .error _ => True) σ := by
  unfold userVersionGet
  rw [wp_op_bind]
  obtain ⟨t, ht⟩ := Option.isSome_iff_exists.mp ht
  apply wp_call
  · exact fun _ _ _ _ => trivial
  · exact fun _ _ _ _ => trivial
  · intro file free _ _
    simp only [perform, performStmt, ht, dialect, Dialect.language, Sql.writes, Bool.false_and,
      Bool.false_eq_true, if_false, Sql.eval, Except.mapError]
    refine ⟨C.guar_refl _, ?_⟩
    split_ifs <;> trivial

/-- And nothing is begun. -/
theorem wp_migrateFrom_open {target : ℕ} {allocates : Bool} {current : ℕ}
    (ht : σ.conn.txn.isSome) :
    wp C (migrateFrom migrations target allocates current) (fun _ _ => True) σ := by
  obtain ⟨t, ht⟩ := Option.isSome_iff_exists.mp ht
  unfold migrateFrom
  split_ifs
  · trivial
  · trivial
  rw [wp_op_bind]
  unfold begin
  rw [wp_op_bind, wp_get]
  dsimp only
  by_cases hact : σ.wrapper.transactionActive = true
  · rw [if_pos hact]
    trivial
  rw [if_neg hact]
  simp only [beginSql]
  rw [wp_op_bind]
  apply wp_call
  · exact fun _ _ _ _ => trivial
  · exact fun _ _ _ _ => trivial
  · intro file free _ _
    simp only [perform, performBegin, ht]
    exact ⟨C.guar_refl _, trivial⟩

/-! ## The connections -/

/-- One run of steps to a version that SQLite can store. -/
def Batch (migrations : List (Step P)) (d d' : Content P) : Prop :=
  ∃ target ≤ 2147483647, Upgrades migrations target d d'

abbrev NotedSession (P : Product) : Type := State (dialect P).language (Database × Option ℕ)

/-- A call that gets the write lock finds the version that it has read. -/
def beginsWhereRead (σ : NotedSession P) (c : Cmd (dialect P).language) (fault : Fault ℤ) : Prop :=
  match c, fault with
  | .begin true, .none => ∀ current : ℕ, σ.wrapper.2 = some current →
      σ.file.userVersion = (current : ℤ)
  | _, _ => True

/-- Connections that call `esdb_migrate` with one table, each call with a target of its
own that meets `targets`. -/
def migrators (migrations : List (Step P)) (targets : ℕ → Prop)
    (allows : NotedSession P → Cmd (dialect P).language → Fault ℤ → Prop) :
    System (dialect P).language (Database × Option ℕ) (ℕ × Bool) (Except Failure Unit) where
  program := fun j => migrateNoting migrations j.1 j.2
  legal := fun j _ => targets j.1
  fresh := fun w => ∃ readOnly, w = (Database.opened readOnly, none)
  allows := allows

/-- The contract between them. -/
def sharing (migrations : List (Step P)) :
    Contract (dialect P).language (Database × Option ℕ) where
  rely := Relation.ReflTransGen (Batch migrations)
  guar := fun d d' => d' = d ∨ Batch migrations d d'
  allows := beginsWhereRead
  rely_refl := fun _ => .refl
  rely_trans := fun h₁ h₂ => h₁.trans h₂
  guar_refl := fun _ => .inl rfl

theorem wp_migrateNoting {target : ℕ} {allocates : Bool} (htarget : target ≤ 2147483647)
    (σ : NotedSession P) :
    wp (sharing migrations) (migrateNoting migrations target allocates) (fun _ _ => True) σ := by
  have hnext : ∀ (current : ℕ) (σ₁ : Session P),
      wp ((sharing migrations).beside (some current))
        (migrateFrom migrations target allocates current) (fun _ _ => True) σ₁ := by
    intro current σ₁
    by_cases hc : σ₁.conn.txn = none
    · refine wp_mono (wp_migrateFrom hc ?_) fun _ _ _ => trivial
      intro file d' hbegin hlt hd
      exact .inr ⟨target, htarget, current, hbegin current rfl, hlt, hd⟩
    · exact wp_migrateFrom_open (Option.isSome_iff_ne_none.mpr hc)
  have hread : wp ((sharing migrations).beside none) (userVersionGet (P := P))
      (fun _ _ => True) ⟨σ.file, σ.conn, σ.wrapper.1⟩ := by
    by_cases hc : σ.conn.txn = none
    · exact wp_mono (wp_userVersionGet hc) fun _ _ _ => trivial
    · refine wp_mono (wp_userVersionGet_open ?_) fun _ _ _ => trivial
      exact Option.isSome_iff_ne_none.mpr hc
  have hrest : wp (sharing migrations) (Prog.bind (Prog.beside none (userVersionGet (P := P)))
      fun r => Prog.noting r.toOption
        (Prog.beside r.toOption (migrateAfter migrations target allocates r))) (fun _ _ => True)
      (State.beside none ⟨σ.file, σ.conn, σ.wrapper.1⟩) := by
    refine wp_bind.mpr (wp_beside.mpr (wp_mono hread fun r σ₁ _ => ?_))
    refine wp_noting.mpr (wp_beside.mpr ?_)
    cases r with
    | error e => trivial
    | ok current => exact hnext current σ₁
  exact hrest

theorem correct_migrators : Correct (migrators migrations (· ≤ 2147483647) beginsWhereRead)
    (sharing migrations) (fun _ => True) (fun _ _ _ _ => True) where
  guar := by
    rintro d d' (rfl | h)
    · exact Relation.ReflTransGen.refl
    · exact Relation.ReflTransGen.single h
  allows := fun _ _ _ h => h
  fresh := fun _ _ _ => trivial
  moved := fun _ _ _ _ => trivial
  issue := fun j σ _ hj => wp_migrateNoting hj σ
  finish := fun _ _ _ _ _ => trivial

/-! ## The history of the file -/

/-- The versions that were set stand in ascending order below the one stored. -/
structure Ledger (d : Content P) : Prop where
  ascending : d.steps.Pairwise (· < ·)
  below : ∀ v ∈ d.steps, (v : ℤ) ≤ d.userVersion

theorem Batch.extends {d d' : Content P} (h : Batch migrations d d') (hd : Ledger d) :
    Ledger d' ∧ d.userVersion < d'.userVersion ∧ d.steps <+: d'.steps := by
  obtain ⟨target, hmax, current, hv, hlt, hup⟩ := h
  obtain ⟨hsteps, hversion⟩ := upgrade_steps hup
  have hversion := hversion (by omega)
  rw [show current + (target - current) = target by omega, pragmaInteger, if_pos hmax] at hversion
  refine ⟨⟨?_, ?_⟩, by omega, hsteps ▸ List.prefix_append _ _⟩
  · rw [hsteps, List.pairwise_append]
    refine ⟨hd.ascending, List.pairwise_lt_range', ?_⟩
    intro a ha b hb
    have hle := hd.below a ha
    rw [List.mem_range'_1] at hb
    omega
  · intro v hmem
    rw [hsteps, List.mem_append, List.mem_range'_1] at hmem
    rcases hmem with hmem | hmem
    · have := hd.below v hmem
      omega
    · omega

theorem ledger_of_rely {d d' : Content P} (h : Relation.ReflTransGen (Batch migrations) d d')
    (hd : Ledger d) : Ledger d' := by
  induction h with
  | refl => exact hd
  | tail _ hb ih => exact (hb.extends ih).1

variable {ι : Type} [DecidableEq ι]

/-- Where every target is a signed 32-bit integer and every call that gets the write
lock finds the version that it has read: each step is committed at most once in the
history of the file, the version never goes down, and what a commit adds is one whole
run of steps from the version it found. -/
theorem migrations_once {file : Content P} (hfile : file.steps = [])
    {w : World ι (dialect P).language (Database × Option ℕ) (ℕ × Bool) (Except Failure Unit)}
    (h : World.Reaches (migrators migrations (· ≤ 2147483647) beginsWhereRead) file w) :
    w.file.steps.Pairwise (· < ·) ∧
      ∀ w', World.Step (migrators migrations (· ≤ 2147483647) beginsWhereRead) w w' →
        w.file.userVersion ≤ w'.file.userVersion ∧ w.file.steps <+: w'.file.steps ∧
          (w'.file = w.file ∨ ∃ target, Upgrades migrations target w.file w'.file) := by
  obtain ⟨hsound, hrely⟩ := h.sound correct_migrators
  have hledger : Ledger w.file := by
    have hopened : Ledger file := ⟨by simp [hfile], by simp [hfile]⟩
    exact ledger_of_rely hrely hopened
  refine ⟨hledger.ascending, fun w' hs => ?_⟩
  obtain ⟨-, hg⟩ := hsound.step correct_migrators hs
  rcases hg with hf | hb
  · have hf : w'.file = w.file := hf
    rw [hf]
    exact ⟨Int.le_refl _, List.prefix_rfl, .inl rfl⟩
  · obtain ⟨-, hlt, hpre⟩ := hb.extends hledger
    obtain ⟨target, -, hup⟩ := hb
    exact ⟨Int.le_of_lt hlt, hpre, .inr ⟨target, hup⟩⟩

/-! ### Two connections -/

abbrev Pair : Type :=
  World Bool (dialect rowsOnly).language (Database × Option ℕ) (ℕ × Bool) (Except Failure Unit)

/-- Two new connections to a new database. -/
def freshPair : Pair := ⟨⟨0, [], []⟩, fun _ => ⟨Conn.closed, (Database.opened 0, none), none⟩⟩

theorem reaches_fresh (targets : ℕ → Prop)
    (allows : NotedSession rowsOnly → Cmd (dialect rowsOnly).language → Fault ℤ → Prop) :
    World.Reaches (migrators [addRow 0 10] targets allows) ⟨0, [], []⟩ freshPair :=
  .opened rfl fun _ => ⟨_, ⟨0, rfl⟩, rfl⟩

theorem available_pair {w : Pair} {i : Bool} (h : (w.party !i).conn.isWriting = false) :
    w.Available i := by
  intro j hj
  obtain rfl : j = !i := by
    cases i <;> cases j <;> simp_all
  exact h

/-- The version is read, and what follows is put off. -/
abbrev readFirst : Prog (dialect rowsOnly).language (Database × Option ℕ) (Except Failure ℕ) :=
  Prog.noting none (Prog.beside none (userVersionGet (P := rowsOnly)))

abbrev thenMigrate (r : Except Failure ℕ) :
    Prog (dialect rowsOnly).language (Database × Option ℕ) (Except Failure Unit) :=
  Prog.noting r.toOption (Prog.beside r.toOption (migrateAfter [addRow 0 10] 1 true r))

/-- A call that finds the version of its note may begin. -/
def noted (σ : NotedSession rowsOnly) (c : Cmd (dialect rowsOnly).language) : Bool :=
  match c with
  | .begin true => σ.wrapper.2.all fun current => decide (σ.file.userVersion = (current : ℤ))
  | _ => true

theorem beginsWhereRead_of_noted (σ : NotedSession rowsOnly)
    (c : Cmd (dialect rowsOnly).language) (h : noted σ c = true) : beginsWhereRead σ c .none := by
  cases c with
  | begin immediate =>
      cases immediate with
      | false => trivial
      | true =>
          intro current hn
          simpa [noted, hn] using h
  | _ => trivial

/-- One connection migrates while the other does nothing. -/
theorem migrations_once_one_call : ∃ w : Pair, w.file.steps = [1] ∧
    w.file.steps.Pairwise (· < ·) := by
  have h₁ := World.Reaches.step (reaches_fresh (· ≤ 2147483647) beginsWhereRead)
    (.issue true (1, true) rfl (Nat.le_of_ble_eq_true rfl))
  have h₂ := h₁.solo (q := migrateNoting [addRow 0 10] 1 true) (f := .ret)
    (by rw [World.update_party_self, Prog.bind_ret]; rfl) (available_pair (by decide))
    (Prog.admits_of_permits beginsWhereRead_of_noted (by decide +kernel))
  exact ⟨_, by decide +kernel, (migrations_once rfl h₂).1⟩

/-- Both connections read version 0 before either begins: the step runs twice. -/
theorem step_committed_twice :
    ∃ w : Pair, World.Reaches (migrators [addRow 0 10] (fun _ => True) fun _ _ _ => True)
        ⟨0, [], []⟩ w ∧
      w.file.steps = [1, 1] ∧ w.file.data = [10, 10] := by
  have hnone : ∀ (σ : NotedSession rowsOnly) (c : Cmd (dialect rowsOnly).language),
      (alone (L := (dialect rowsOnly).language) (W := Database × Option ℕ)
        (fun _ _ _ => True)).allows σ c .none := fun _ _ => trivial
  have h₁ := World.Reaches.step (reaches_fresh (fun _ => True) fun _ _ _ => True)
    (.issue true (1, true) rfl trivial)
  have h₂ := h₁.solo (q := readFirst) (f := thenMigrate) (by rw [World.update_party_self]; rfl)
    (available_pair (by decide)) (readFirst.admits_nil hnone _)
  have h₃ := World.Reaches.step h₂ (.issue false (1, true) rfl trivial)
  have h₄ := h₃.solo (q := migrateNoting [addRow 0 10] 1 true) (f := .ret)
    (by rw [World.update_party_self, Prog.bind_ret]; rfl) (available_pair (by decide +kernel))
    (Prog.admits_nil _ hnone _)
  have h₅ := h₄.solo (i := true) (q := thenMigrate (.ok 0)) (f := .ret)
    (by rw [Prog.bind_ret]; rfl) (available_pair (by decide +kernel))
    (Prog.admits_nil _ hnone _)
  exact ⟨_, h₅, by decide +kernel, by decide +kernel⟩

end Esdb.Migration
