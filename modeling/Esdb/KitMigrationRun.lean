import Esdb.KitMigrations

/-!
# The packaged migration, executed

What an accepted package is: the SQL files in the order of their paths, numbered from the
baseline on, with every destructive one acknowledged. The table that is generated from it
has the step of each version between the baseline and the target and no other, so that
`esdb_migrate` executes the remaining steps. The packager admits targets up to the largest
uint32, of which SQLite stores only the lower half.
-/
namespace Esdb.KitMigrations

open JsonText Migration Transactional Esdb.Runtime

variable {N : Type} {ack : Option Acknowledgement} {base : ℕ} {steps : List PackagedStep}

/-! ## What is packaged -/

/-- Each step starts where the one before it ends. -/
def Consecutive : ℕ → List PackagedStep → Prop
  | _, [] => True
  | base, step :: steps =>
      step.fromVersion = base ∧ step.toVersion = base + 1 ∧ Consecutive (base + 1) steps

theorem lineFeeds_mem {c : Char} {s : List Char} (h : c ∈ lineFeeds s) : c ∈ s ∨ c = '\n' := by
  induction s using lineFeeds.induct with
  | case1 => exact absurd h List.not_mem_nil
  | case2 s ih =>
      rcases List.mem_cons.mp h with hc | hc
      · exact .inr hc
      · exact (ih hc).imp_left fun hs => List.mem_cons_of_mem _ (List.mem_cons_of_mem _ hs)
  | case3 s hne ih =>
      rw [lineFeeds.eq_3 _ hne] at h
      rcases List.mem_cons.mp h with hc | hc
      · exact .inr hc
      · exact (ih hc).imp_left (List.mem_cons_of_mem _)
  | case4 d s hcrlf hcr ih =>
      rw [lineFeeds.eq_4 _ _ hcrlf hcr] at h
      rcases List.mem_cons.mp h with hc | hc
      · exact .inl (hc ▸ List.mem_cons_self)
      · exact (ih hc).imp_left (List.mem_cons_of_mem _)

variable {P : Product} {script : Bytes → Callback P}

/-- The steps that a database at version `v` still needs. -/
def remaining (v : ℕ) (steps : List PackagedStep) : List PackagedStep :=
  steps.filter fun step => v ≤ step.fromVersion

/-- The steps one after the other, each followed by its version. -/
def execute (script : Bytes → Callback P) :
    List PackagedStep → Query (dialect P).language CallbackFailure Unit
  | [] => pure ()
  | step :: steps => do
      statements (script (utf8 step.sql))
      Query.one (L := (dialect P).language) (fun r => .returned (sqliteFailure .migration r))
        (Sql.setUserVersion step.toVersion)
      execute script steps

theorem Consecutive.le (h : Consecutive base steps) : ∀ step ∈ steps, base ≤ step.fromVersion := by
  induction steps generalizing base with
  | nil => exact fun step hstep => absurd hstep List.not_mem_nil
  | cons s steps ih =>
      obtain ⟨hfrom, -, hrest⟩ := h
      refine List.forall_mem_cons.mpr ⟨hfrom.ge, fun step hstep => ?_⟩
      have hle := ih hrest step hstep
      omega

/-- How a run of the generated `migrate` from `σ` must end. -/
structure Ends (script : Bytes → Callback P) (package : Package) (σ : Session P)
    (r : Except Failure Unit) (σ' : Session P) : Prop where
  closed : σ'.conn.txn = none
  failed : r.isOk = false → σ'.file = σ.file
  outside : σ.file.userVersion < package.baseline ∨ package.targetVersion < σ.file.userVersion →
    r.isOk = false
  executed : ∀ v : ℕ, σ.file.userVersion = v → package.baseline ≤ v → v ≤ package.targetVersion →
    r.isOk = true →
    (execute script (remaining v package.steps)).denote σ.file = .ok ((), σ'.file) ∧
      σ'.file.userVersion = package.targetVersion

/-- A schema of which only the texts are kept that made its tables. -/
abbrev tableTexts : Product where
  Stmt := Bytes
  Row := fun _ => Unit
  Data := List Bytes
  writes := fun _ => true
  eval := fun text d => if text ∈ d.2 then .error 1 else .ok ((), (d.1, d.2 ++ [text]))
  eval_reads := fun hw => nomatch hw
  decData := inferInstance

def createText (name : Char) : List Char := "CREATE TABLE ".toList ++ [name] ++ "(x);\n".toList

def atVersion (version : ℤ) : Session tableTexts :=
  ⟨⟨version, [], []⟩, Conn.closed, Database.opened 0⟩

end Esdb.KitMigrations
