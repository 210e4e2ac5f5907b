import Esdb.Runtime

/-!
# Schema versions and migrations

The `user_version` of a database and the run of migration steps over it. What a
step's callback does to the product's own tables is a parameter: statements of some
product, on its data and on the version. A callback issues such statements and stops
at the first that fails, which it reports; it may also give up on its own or throw.

SQLite keeps the version in a signed field of 32 bits and reads the digits of the
pragma as one. One field is not in the database: every version that has been set.
-/
namespace Esdb.Migration

open Transactional Esdb.Runtime

/-- The SQL of the product whose schema is migrated. -/
structure Product where
  Stmt : Type
  Row : Stmt → Type
  Data : Type
  writes : Stmt → Bool
  eval : (s : Stmt) → ℤ × Data → Except ℤ (Row s × (ℤ × Data))
  eval_reads : ∀ {s d r d'}, writes s = false → eval s d = .ok (r, d') → d' = d
  decData : DecidableEq Data

variable {P : Product}

instance : DecidableEq P.Data := P.decData

structure Content (P : Product) where
  userVersion : ℤ
  data : P.Data
  steps : List ℕ
  deriving DecidableEq

inductive Sql (P : Product) where
  | userVersion
  | setUserVersion (version : ℕ)
  | product (s : P.Stmt)

abbrev Sql.Row : Sql P → Type
  | .userVersion => ℤ
  | .setUserVersion _ => Unit
  | .product s => P.Row s

def Sql.writes : Sql P → Bool
  | .userVersion => false
  | .setUserVersion _ => true
  | .product s => P.writes s

/-- `sqlite3Atoi` on the digits of `n`: what is no signed 32-bit integer is zero. -/
def pragmaInteger (n : ℕ) : ℤ := if n ≤ 2147483647 then n else 0

def Sql.eval : (s : Sql P) → Content P → Except ℤ (s.Row × Content P)
  | .userVersion, d => .ok (d.userVersion, d)
  | .setUserVersion version, d =>
      .ok ((), { d with userVersion := pragmaInteger version, steps := d.steps ++ [version] })
  | .product s, d =>
      match P.eval s (d.userVersion, d.data) with
      | .error e => .error e
      | .ok (r, version, data) => .ok (r, { d with userVersion := version, data := data })

theorem Sql.eval_reads {s : Sql P} {d d' : Content P} {r : s.Row} (hw : s.writes = false)
    (h : s.eval d = .ok (r, d')) : d' = d := by
  cases s with
  | userVersion =>
      simp only [Sql.eval, Except.ok.injEq, Prod.mk.injEq] at h
      exact h.2.symm
  | setUserVersion version => simp [Sql.writes] at hw
  | product s =>
      simp only [Sql.eval] at h
      cases he : P.eval s (d.userVersion, d.data) with
      | error e => simp [he] at h
      | ok p =>
          obtain ⟨r', version, data⟩ := p
          simp only [he, Except.ok.injEq, Prod.mk.injEq] at h
          have := P.eval_reads hw he
          simp only [Prod.mk.injEq] at this
          rw [← h.2, this.1, this.2]

abbrev dialect (P : Product) : Dialect where
  Stmt := Sql P
  Row := Sql.Row
  Content := Content P
  writes := Sql.writes
  eval := Sql.eval
  eval_reads := Sql.eval_reads
  decContent := inferInstance

abbrev Operation (P : Product) (α : Type) : Type := Runtime.Operation (dialect P) α

/-! ## The version -/

/-- `query_u64` and the range check of `esdb_user_version_get`. -/
def userVersionGet : Operation P ℕ := do
  let value ← execSql (D := dialect P) .migration (.stmt Sql.userVersion)
  if value < 0 then
    Op.fail (.recorded .sqlite .migration Sqlite.range
      (some "negative value where unsigned scalar was expected"))
  else if 4294967295 < value then
    Op.fail (.recorded .migration .migration Sqlite.range
      (some "user_version exceeds uint32 range"))
  else pure value.toNat

/-- `esdb_user_version_set`. -/
def userVersionSet (version : ℕ) : Operation P Unit :=
  execSql (D := dialect P) .migration (.stmt (Sql.setUserVersion version))

/-! ## Steps -/

/-- A callback returns a status with the error it left, or throws. -/
inductive CallbackFailure where
  | returned (f : Failure)
  | threw
  deriving DecidableEq, Repr

/-- The language of the product alone. -/
abbrev Product.language (P : Product) : Language where
  Stmt := P.Stmt
  Row := P.Row
  Content := ℤ × P.Data
  Name := Bytes
  Error := ℤ
  writes := P.writes
  eval := P.eval
  eval_reads := P.eval_reads
  decContent := inferInstance
  decName := inferInstance

abbrev Callback (P : Product) : Type := Query P.language CallbackFailure Unit

/-- A callback's statements on the database as a whole. -/
def statements {F α : Type} : Query P.language F α → Query (dialect P).language F α
  | .ret a => .ret a
  | .fail e => .fail e
  | .stmt h s k => .stmt h (Sql.product s) fun r => statements (k r)

/-- `esdb_migration`. -/
structure Step (P : Product) where
  fromVersion : ℕ
  toVersion : ℕ
  apply : Option (ℕ → ℕ → Callback P)

/-- The search loop for the step from `current`: versions are below the target, so
`current + 1u` never wraps. -/
def findStep (migrations : List (Step P)) (current : ℕ) : Option (Callback P) :=
  migrations.findSome? fun m =>
    if m.fromVersion = current ∧ m.toVersion = current + 1 then
      m.apply.map fun apply => apply m.fromVersion m.toVersion
    else none

def missingStep : Failure :=
  .recorded .migration .migration Sqlite.notFound (some "missing contiguous migration step")

/-- What `esdb_migrate` reports for a callback that did not succeed. -/
def CallbackFailure.reported : CallbackFailure → Failure
  | .threw =>
      .recorded .internal .migration 4 (some "migration callback threw an exception")
  | .returned f =>
      match f.error with
      | none => .recorded f.status .migration Sqlite.error (some "migration callback failed")
      | some e =>
          .recorded f.status .migration (if e.sqliteCode ≠ 0 then e.sqliteCode else Sqlite.error)
            (if e.message = some "" then some "migration callback failed" else e.message)

/-- `esdb_rollback` and `esdb_transaction_destroy`, whatever they report. -/
def abandon (transaction : ℕ) : Operation P Unit := do
  let _ ← Op.attempt (finishTransaction (D := dialect P) transaction false)
  destroy transaction

/-- One call of a callback. Its statements go through `esdb_exec` or `esdb_query`,
which resynchronize the mirror; it stops at the first that fails, so once at its
end is as good. -/
def runCallback (callback : Callback P) : Operation P (Except CallbackFailure Unit) := do
  let status ← Op.observe ((statements callback).toOp Database)
  resync
  pure status

/-- The loop over the versions, with `remaining` steps to go. -/
def runSteps (migrations : List (Step P)) (transaction : ℕ) :
    (remaining current : ℕ) → Operation P Unit
  | 0, _ => pure ()
  | remaining + 1, current =>
      match findStep migrations current with
      | none => do
          abandon transaction
          Op.fail missingStep
      | some callback => do
          let status ← runCallback callback
          match status with
          | .error e => do
              abandon transaction
              Op.fail e.reported
          | .ok _ => do
              let status ← Op.attempt (userVersionSet (P := P) (current + 1))
              match status with
              | .error e => do
                  abandon transaction
                  Op.fail e
              | .ok _ => runSteps migrations transaction remaining (current + 1)

/-- `esdb_migrate` from the version that it has read. -/
def migrateFrom (migrations : List (Step P)) (target : ℕ) (allocates : Bool) (current : ℕ) :
    Operation P Unit :=
  if current = target then pure ()
  else if target < current then
    Op.fail (.recorded .unsupported .migration Sqlite.misuse
      (some "downgrade migrations are not supported by esdb_migrate"))
  else do
    let transaction ← Runtime.begin 1 allocates
    runSteps migrations transaction (target - current) current
    let status ← Op.attempt (finishTransaction (D := dialect P) transaction true)
    destroy transaction
    rethrow status

/-- `esdb_migrate`. -/
def migrate (migrations : List (Step P)) (target : ℕ) (allocates : Bool) : Operation P Unit := do
  let current ← userVersionGet
  migrateFrom migrations target allocates current

end Esdb.Migration
