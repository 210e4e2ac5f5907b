import Esdb.RuntimeShadow
import Mathlib.Data.List.Nodup
import Mathlib.Logic.Function.Basic

/-!
# Savepoint objects

`esdb::Savepoint` owns a savepoint by its name: releasing, rolling back and destroying the
object are calls on the newest savepoint under that name, which the wrapper refuses when
the newest savepoint has another. The object that opened a savepoint stays its owner, alone,
as long as no object takes a new savepoint over an old one, and objects are destroyed or
assigned to in the reverse order of their savepoints, by calls that do not fail.

Which savepoint an object has opened is kept here as a number beside its name; the object
itself knows the name alone.
-/
namespace Esdb.SavepointObjects

open Transactional Esdb.Runtime

variable {D : Dialect}

/-! ## The object -/

/-- `esdb::Savepoint`; `mark` is the serial number of the savepoint that `begin` opened. -/
structure Object where
  database : Bool
  active : Bool
  name : Bytes
  mark : ℕ
  deriving DecidableEq, Repr

/-- The default constructor. -/
def Object.fresh : Object := ⟨false, false, [], 0⟩

/-- What a move or a finish leaves of the object. -/
def Object.cleared (o : Object) : Object := { o with database := false, active := false }

/-- The calls meet the faults in order. -/
abbrev Faults : Type := List (Fault ℤ)

/-- `release`. -/
def release (fs : Faults) (o : Object) (σ : Session D) :
    Except Failure Unit × Object × Session D :=
  if !o.active || !o.database then (.error (.quiet .invalidState), o, σ)
  else
    match (savepointRelease o.name).run fs σ with
    | (.error e, σ') => (.error e, o, σ')
    | (.ok (), σ') => (.ok (), o.cleared, σ')

/-- `rollback`. -/
def rollback (fs : Faults) (o : Object) (σ : Session D) :
    Except Failure Unit × Object × Session D :=
  if !o.active || !o.database then (.error (.quiet .invalidState), o, σ)
  else
    match (savepointRollback o.name).run fs σ with
    | (.error e, σ') => (.error e, o, σ')
    | (.ok (), σ') => (.ok (), o.cleared, σ')

/-- `reset`: the answer to its rollback is ignored. -/
def reset (fs : Faults) (o : Object) (σ : Session D) : Object × Session D :=
  (o.cleared, if o.active && o.database then ((savepointRollback o.name).run fs σ).2 else σ)

/-- `begin`. The savepoint is opened before the object lets go of the one it has. -/
def begin (fs : Faults) (name : Bytes) (out : Object) (σ : Session D) :
    Except Failure Unit × Object × Session D :=
  if name.length = 0 ∨ savepointNameMaxBytes < name.length then
    (.error (.quiet .invalidArgument), out, σ)
  else
    match (savepointBegin name).run fs σ with
    | (.error e, σ') => (.error e, out, σ')
    | (.ok (), σ') => (.ok (), ⟨true, true, name, σ.conn.opened⟩, (reset fs.tail out σ').2)

/-! ## Objects on one connection -/

structure World (D : Dialect) where
  session : Session D
  objects : ℕ → Option Object
  opened : List ℕ

inductive Event where
  | construct (id : ℕ)
  | begin (id : ℕ) (name : Bytes)
  | release (id : ℕ)
  | rollback (id : ℕ)
  | moveConstruct (source target : ℕ)
  | moveAssign (source target : ℕ)
  | destroy (id : ℕ)
  deriving DecidableEq, Repr

namespace World

def set (w : World D) (id : ℕ) (o : Option Object) : World D :=
  { w with objects := Function.update w.objects id o }

/-- The object is reset. -/
def reset (fs : Faults) (id : ℕ) (w : World D) : World D :=
  match w.objects id with
  | none => w
  | some o =>
      let r := SavepointObjects.reset fs o w.session
      { w.set id (some r.1) with session := r.2 }

/-- The fields of `source` go to `target`, and `source` is cleared. -/
def transfer (source target : ℕ) (w : World D) : World D :=
  match w.objects source with
  | none => w
  | some o => (w.set target (some o)).set source (some o.cleared)

/-- A call on the object `id`. -/
def call (id : ℕ) (f : Object → Session D → Except Failure Unit × Object × Session D)
    (w : World D) : World D :=
  match w.objects id with
  | none => w
  | some o => { w.set id (some (f o w.session).2.1) with session := (f o w.session).2.2 }

/-- The serial number of a savepoint that `begin` opened is noted. -/
def noted (fs : Faults) (id : ℕ) (name : Bytes) (w : World D) : List ℕ :=
  match w.objects id with
  | none => w.opened
  | some o =>
      match (SavepointObjects.begin fs name o w.session).1 with
      | .error _ => w.opened
      | .ok () => w.session.conn.opened :: w.opened

def step (fs : Faults) : Event → World D → World D
  | .construct id, w => w.set id (some .fresh)
  | .begin id name, w =>
      { w.call id (SavepointObjects.begin fs name) with opened := w.noted fs id name }
  | .release id, w => w.call id (SavepointObjects.release fs)
  | .rollback id, w => w.call id (SavepointObjects.rollback fs)
  | .moveConstruct source target, w => w.transfer source target
  | .moveAssign source target, w =>
      if source = target then w else (w.reset fs target).transfer source target
  | .destroy id, w => (w.reset fs id).set id none

/-- The savepoints that are open, the newest first. -/
def stack (w : World D) : List (Savepoint D.language) :=
  match w.session.conn.txn with
  | none => []
  | some t => t.savepoints

def Active (w : World D) (id : ℕ) (o : Object) : Prop :=
  w.objects id = some o ∧ o.active = true

/-- Every open savepoint that was opened through an object has one owner. -/
def Owned (w : World D) : Prop :=
  ∀ sp ∈ w.stack, sp.serial ∈ w.opened → ∃! id, ∃ o, w.Active id o ∧ o.mark = sp.serial

/-- The transaction with that serial number is open. -/
def Within (n : ℕ) (w : World D) : Prop := ∃ t, w.session.conn.txn = some t ∧ t.serial = n

end World

namespace Event

/-- The objects that the event is about are live, and those that it makes are not. -/
def Legal (w : World D) : Event → Prop
  | .construct id => w.objects id = none
  | .moveConstruct source target =>
      (w.objects source).isSome ∧ w.objects target = none
  | .moveAssign source target => (w.objects source).isSome ∧ (w.objects target).isSome
  | .begin id _ | .release id | .rollback id | .destroy id => (w.objects id).isSome

/-- The object that lets go of its savepoint. -/
def finishes : Event → Option ℕ
  | .begin id _ | .release id | .rollback id | .destroy id => some id
  | .moveAssign source target => if source = target then none else some target
  | _ => none

/-- The event closes no savepoint, or that of the object it finishes; and the savepoint of an
object that does not record it any longer is closed. -/
def ClosesOwn (fs : Faults) (e : Event) (w : World D) : Prop :=
  (∀ n, w.Within n → (w.step fs e).Within n →
    ∀ sp ∈ w.stack, (∀ sp' ∈ (w.step fs e).stack, sp'.serial ≠ sp.serial) →
      ∃ id o, e.finishes = some id ∧ w.Active id o ∧ o.mark = sp.serial) ∧
  ∀ id o, e.finishes = some id → w.Active id o →
    (∀ o', (w.step fs e).Active id o' → o'.mark ≠ o.mark) →
      ∀ sp ∈ (w.step fs e).stack, sp.serial ≠ o.mark

end Event

/-! ## The condition -/

/-- The native begin accepts the name, so that the engine is asked. -/
def Accepts (σ : Session D) (name : Bytes) : Prop :=
  validSavepointName name = true ∧ σ.wrapper.transactionActive = true ∧
    σ.wrapper.savepoints.length < maxSavepoints

/-- The savepoint of the object is the newest. -/
def Newest (w : World D) (o : Object) : Prop := (w.stack.head?).map (·.serial) = some o.mark

/-- Neither of the two statements of a rollback fails and leaves the transaction. -/
def goesThrough : Faults → Bool
  | .fail _ :: _ => false
  | .none :: .fail _ :: _ => false
  | _ => true

/-- No new savepoint is taken over an old one, no object is finished under whose name another
savepoint is the newest, and an object that is destroyed or assigned to has the newest
savepoint, whose rollback goes through. -/
def Event.Orderly (fs : Faults) (w : World D) : Event → Prop
  | .begin id name => ∀ o, w.Active id o →
      ¬(Accepts w.session name ∧ fs.headD .none = .none)
  | .release id => ∀ o, w.Active id o → w.session.wrapper.savepoints.head? = some o.name →
      fs.headD .none = .none → Newest w o
  | .rollback id => ∀ o, w.Active id o → w.session.wrapper.savepoints.head? = some o.name →
      fs.headD .none = .none → fs.tail.headD .none = .none → Newest w o
  | .moveAssign source target => source ≠ target → ∀ o, w.Active target o →
      Newest w o ∧ goesThrough fs = true
  | .destroy id => ∀ o, w.Active id o → Newest w o ∧ goesThrough fs = true
  | .construct _ | .moveConstruct .. => True

/-- The worlds that objects reach within a transaction, from none of them. -/
inductive Reaches (allows : Faults → World D → Event → Prop) (n : ℕ) (σ : Session D) :
    World D → Prop
  | start : Reaches allows n σ ⟨σ, fun _ => none, []⟩
  | step {w : World D} (fs : Faults) (e : Event) (h : Reaches allows n σ w) (hw : w.Within n)
      (hl : e.Legal w) (ha : allows fs w e) : Reaches allows n σ (w.step fs e)

/-! ## The native calls -/

section
variable {σ σ' : Session D} {t : Txn D.language} {sp : Savepoint D.language}
  {below : List (Savepoint D.language)} {name : Bytes} {β : Type}

theorem run_get {fs : Faults} {f : Database → Operation D β} :
    (Op.get >>= f : Operation D β).run fs σ = (f σ.wrapper).run fs σ := rfl

theorem run_execSql_error {fs : Faults} {phase : Phase} {c : Cmd D.language}
    {f : c.Row → Operation D β} {e : Refusal ℤ}
    (h : (exec true (fs.headD .none) σ.file σ.conn c).reply = .error e) :
    (execSql phase c >>= f : Operation D β).run fs σ = (.error (sqliteFailure phase e),
      { σ with
        file := (exec true (fs.headD .none) σ.file σ.conn c).file
        conn := (exec true (fs.headD .none) σ.file σ.conn c).conn }) := by
  simp only [execSql, Op.call, bind, Op.bind, Prog.bind, Prog.run, h]

theorem run_execSql_ok {fs : Faults} {phase : Phase} {c : Cmd D.language}
    {f : c.Row → Operation D β} {row : c.Row}
    (h : (exec true (fs.headD .none) σ.file σ.conn c).reply = .ok row) :
    (execSql phase c >>= f : Operation D β).run fs σ = (f row).run fs.tail
      { σ with
        file := (exec true (fs.headD .none) σ.file σ.conn c).file
        conn := (exec true (fs.headD .none) σ.file σ.conn c).conn } := by
  simp only [execSql, Op.call, bind, Op.bind, Prog.bind, Prog.run, h]

/-- The transaction has been rolled back, or its savepoints are as they were. -/
def Unmoved (t : Txn D.language) (σ σ' : Session D) : Prop :=
  σ'.conn.txn = none ∨ (σ'.wrapper = σ.wrapper ∧ σ'.conn.opened = σ.conn.opened ∧
    ∃ access, σ'.conn.txn = some { t with access := access })

/-- The newest savepoint is closed. -/
def Popped (t : Txn D.language) (below : List (Savepoint D.language)) (σ σ' : Session D) : Prop :=
  σ'.conn.txn = none ∨
    (σ'.wrapper = { σ.wrapper with savepoints := σ.wrapper.savepoints.tail } ∧
      σ'.conn.opened = σ.conn.opened ∧
      ∃ access, σ'.conn.txn = some { t with access := access, savepoints := below })

theorem unmoved_self (ht : σ.conn.txn = some t) : Unmoved t σ σ := .inr ⟨rfl, rfl, t.access, ht⟩

/-- A statement that a fault strikes. -/
theorem exec_fault {fault : Fault ℤ} (hf : fault ≠ .none) {c : Cmd D.language}
    (hc : ∀ b, c ≠ .begin b) : ∃ e,
    (exec true fault σ.file σ.conn c).reply = .error e ∧
      ((exec true fault σ.file σ.conn c).conn.txn = none ∨
        (∃ code, fault = .fail code) ∧ (exec true fault σ.file σ.conn c).conn = σ.conn) := by
  cases fault with
  | none => exact absurd rfl hf
  | fail e => exact ⟨_, rfl, .inr ⟨⟨e, rfl⟩, rfl⟩⟩
  | rollback e =>
      refine ⟨_, rfl, .inl ?_⟩
      cases c with
      | begin b => exact absurd rfl (hc b)
      | _ => rfl

theorem run_savepointBegin (ht : σ.conn.txn = some t) (fs : Faults) (name : Bytes) :
    (∃ e σ', (savepointBegin name).run fs σ = (.error e, σ') ∧ Unmoved t σ σ') ∨
      (Accepts σ name ∧ fs.headD .none = .none) ∧
        (savepointBegin name).run fs σ = (.ok (), { σ with
          conn := σ.conn.push (foldCase name)
          wrapper := { σ.wrapper with
            savepoints := name :: σ.wrapper.savepoints
            marks := σ.conn.opened :: σ.wrapper.marks } }) := by
  unfold savepointBegin
  by_cases hv : validSavepointName name = true
  · rw [hv, if_neg (by decide), run_get]
    by_cases hactive : σ.wrapper.transactionActive = true
    · rw [hactive, if_neg (by decide)]
      by_cases hdepth : maxSavepoints ≤ σ.wrapper.savepoints.length
      · rw [if_pos hdepth]
        exact .inl ⟨_, σ, rfl, unmoved_self ht⟩
      · rw [if_neg hdepth]
        by_cases hf : fs.headD .none = .none
        · have hperform : exec true (fs.headD .none) σ.file σ.conn
              (.savepoint (foldCase name) : Cmd D.language) =
              ⟨σ.file, σ.conn.push (foldCase name), .ok σ.conn.opened⟩ := by
            rw [hf]
            change performSavepoint _ _ _ = _
            rw [performSavepoint, ht]
          refine .inr ⟨⟨⟨hv, hactive, Nat.lt_of_not_le hdepth⟩, hf⟩, ?_⟩
          rw [run_execSql_ok (by rw [hperform]), hperform]
          rfl
        · obtain ⟨e, hreply, hconn⟩ := exec_fault (σ := σ) hf
            (c := .savepoint (foldCase name)) fun b h => by cases h
          refine .inl ⟨_, _, run_execSql_error hreply, ?_⟩
          exact hconn.imp id fun hconn => ⟨rfl, congrArg Conn.opened hconn.2, t.access,
            (congrArg Conn.txn hconn.2).trans ht⟩
    · rw [Bool.not_eq_true] at hactive
      rw [hactive, if_pos (by decide)]
      exact .inl ⟨_, σ, rfl, unmoved_self ht⟩
  · rw [Bool.not_eq_true] at hv
    rw [hv, if_pos (by decide)]
    exact .inl ⟨_, σ, rfl, unmoved_self ht⟩

/-- The wrapper refuses a savepoint that is not its newest. -/
theorem run_refused (h : σ.wrapper.savepoints.head? ≠ some name) (fs : Faults) :
    (∃ e, (savepointRelease name).run fs σ = (.error e, σ)) ∧
      ∃ e, (savepointRollback (D := D) name).run fs σ = (.error e, σ) := by
  unfold savepointRelease savepointRollback
  by_cases hv : validSavepointName name = true
  · rw [hv, if_neg (by decide), if_neg (by decide), run_get, run_get, if_pos h, if_pos h]
    exact ⟨⟨_, rfl⟩, _, rfl⟩
  · rw [Bool.not_eq_true] at hv
    rw [hv, if_pos (by decide), if_pos (by decide)]
    exact ⟨⟨_, rfl⟩, _, rfl⟩

/-- `RELEASE` of the newest savepoint. -/
theorem exec_release (ht : σ.conn.txn = some t) (hsp : t.savepoints = sp :: below) :
    ∃ file, (exec true .none σ.file σ.conn (.release sp.name : Cmd D.language) =
        ⟨file, σ.conn.abort, .ok ()⟩) ∨
      exec true .none σ.file σ.conn (.release sp.name : Cmd D.language) =
        ⟨file, { σ.conn with txn := some { t with savepoints := below } }, .ok ()⟩ := by
  have hfind : findSavepoint sp.name t.savepoints = some (sp, below) := by
    rw [hsp, findSavepoint, if_pos rfl]
  change ∃ file, performRelease _ _ _ = _ ∨ performRelease _ _ _ = _
  unfold performRelease
  simp only [ht, hfind]
  by_cases hlast : (t.implicit && below.isEmpty) = true
  · rw [if_pos hlast]
    exact ⟨_, .inl rfl⟩
  · rw [if_neg hlast]
    exact ⟨_, .inr rfl⟩

/-- `ROLLBACK TO` the newest savepoint. -/
theorem exec_rollbackTo (ht : σ.conn.txn = some t) (hsp : t.savepoints = sp :: below) :
    ∃ access, exec true .none σ.file σ.conn (.rollbackTo sp.name : Cmd D.language) =
      ⟨σ.file, { σ.conn with txn := some { t with access := access } }, .ok ()⟩ := by
  have hfind : findSavepoint sp.name t.savepoints = some (sp, below) := by
    rw [hsp, findSavepoint, if_pos rfl]
  refine ⟨t.access.restore σ.file sp.saved, ?_⟩
  change performRollbackTo _ _ _ = _
  unfold performRollbackTo
  simp only [ht, hfind, ← hsp]

theorem run_savepointRelease (hv : validSavepointName name = true)
    (hm : σ.wrapper.savepoints.head? = some name) (ht : σ.conn.txn = some t)
    (hsp : t.savepoints = sp :: below) (hname : sp.name = foldCase name) (fs : Faults) :
    (fs.headD .none = .none → ∃ σ', (savepointRelease name).run fs σ = (.ok (), σ') ∧
      Popped t below σ σ') ∧
    (fs.headD .none ≠ .none → ∃ e σ', (savepointRelease name).run fs σ = (.error e, σ') ∧
      Unmoved t σ σ') := by
  unfold savepointRelease
  rw [hv, if_neg (by decide), run_get, if_neg (not_not.mpr hm), ← hname]
  constructor
  · intro hf
    obtain ⟨file, hexec | hexec⟩ := exec_release ht hsp
    · rw [← hf] at hexec
      exact ⟨_, run_execSql_ok (by rw [hexec]), .inl (by rw [hexec]; rfl)⟩
    · rw [← hf] at hexec
      exact ⟨_, run_execSql_ok (by rw [hexec]), .inr ⟨rfl, by rw [hexec], t.access,
        by rw [hexec]⟩⟩
  · intro hf
    obtain ⟨e, hreply, hconn⟩ := exec_fault (σ := σ) hf (c := .release sp.name) fun b h => nomatch h
    refine ⟨_, _, run_execSql_error hreply, ?_⟩
    exact hconn.imp id fun ⟨_, hconn⟩ => ⟨rfl, congrArg Conn.opened hconn, t.access,
      (congrArg Conn.txn hconn).trans ht⟩

theorem run_savepointRollback (hv : validSavepointName name = true)
    (hm : σ.wrapper.savepoints.head? = some name) (ht : σ.conn.txn = some t)
    (hsp : t.savepoints = sp :: below) (hname : sp.name = foldCase name) (fs : Faults) :
    (fs.headD .none = .none ∧ fs.tail.headD .none = .none →
      ∃ σ', (savepointRollback name).run fs σ = (.ok (), σ') ∧ Popped t below σ σ') ∧
    (¬(fs.headD .none = .none ∧ fs.tail.headD .none = .none) →
      ∃ e σ', (savepointRollback name).run fs σ = (.error e, σ') ∧ Unmoved t σ σ' ∧
        (goesThrough fs = true → σ'.conn.txn = none)) := by
  unfold savepointRollback
  rw [hv, if_neg (by decide), run_get, if_neg (not_not.mpr hm), ← hname]
  by_cases hf : fs.headD .none = .none
  · obtain ⟨access, hback⟩ := exec_rollbackTo (σ := σ) ht hsp
    rw [← hf] at hback
    rw [run_execSql_ok (by rw [hback]), hback]
    dsimp only
    -- The second statement finds the savepoint where it was.
    generalize hσ : ({ σ with conn := { σ.conn with txn := some { t with access := access } } } :
      Session D) = σ₁
    have ht₁ : σ₁.conn.txn = some { t with access := access } := by rw [← hσ]
    have hw₁ : σ₁.wrapper = σ.wrapper := by rw [← hσ]
    have ho₁ : σ₁.conn.opened = σ.conn.opened := by rw [← hσ]
    constructor
    · rintro ⟨-, hg⟩
      obtain ⟨file, hexec | hexec⟩ := exec_release ht₁ hsp
      · rw [← hg] at hexec
        exact ⟨_, run_execSql_ok (by rw [hexec]), .inl (by rw [hexec]; rfl)⟩
      · rw [← hg] at hexec
        refine ⟨_, run_execSql_ok (by rw [hexec]), .inr ⟨?_, ?_, access, by rw [hexec]⟩⟩
        · change ({ σ₁.wrapper with savepoints := σ₁.wrapper.savepoints.tail } : Database) = _
          rw [hw₁]
        · rw [hexec]
          exact ho₁
    · intro hno
      have hg : fs.tail.headD .none ≠ .none := fun hg => hno ⟨hf, hg⟩
      obtain ⟨e, hreply, hconn⟩ := exec_fault (σ := σ₁) hg (c := .release sp.name)
        fun b h => nomatch h
      refine ⟨_, _, run_execSql_error hreply, ?_, fun hthrough => ?_⟩
      · exact hconn.imp id fun ⟨_, hconn⟩ => ⟨hw₁, (congrArg Conn.opened hconn).trans ho₁, access,
          (congrArg Conn.txn hconn).trans ht₁⟩
      · refine hconn.resolve_right ?_
        rintro ⟨⟨code, hcode⟩, -⟩
        rcases fs with _ | ⟨f, _ | ⟨g, fs⟩⟩
        · cases hcode
        · cases hcode
        · obtain rfl : f = .none := hf
          obtain rfl : g = .fail code := hcode
          cases hthrough
  · constructor
    · exact fun h => absurd h.1 hf
    · intro _
      obtain ⟨e, hreply, hconn⟩ := exec_fault (σ := σ) hf (c := .rollbackTo sp.name)
        fun b h => nomatch h
      refine ⟨_, _, run_execSql_error hreply, ?_, fun hthrough => ?_⟩
      · exact hconn.imp id fun ⟨_, hconn⟩ => ⟨rfl, congrArg Conn.opened hconn, t.access,
          (congrArg Conn.txn hconn).trans ht⟩
      · refine hconn.resolve_right ?_
        rintro ⟨⟨code, hcode⟩, -⟩
        cases fs with
        | nil => cases hcode
        | cons f fs =>
            obtain rfl : f = .fail code := hcode
            cases hthrough

end

/-! ## Owners -/

section
variable {σ : Session D} {w w' : World D} {t : Txn D.language} {sp : Savepoint D.language}
  {below : List (Savepoint D.language)} {K : List (ℕ × Object)} {base : List (ℕ × Bytes)}
  {names : List Bytes} {id : ℕ} {o : Object}

/-- The active objects stand in the order of their savepoints, above what was open before, in
the engine and in the mirror alike. -/
structure Stacked (w : World D) (t : Txn D.language) (K : List (ℕ × Object))
    (base : List (ℕ × Bytes)) (names : List Bytes) : Prop where
  active : ∀ id o, (id, o) ∈ K ↔ w.Active id o
  marks : (K.map fun p => p.2.mark).Nodup
  valid : ∀ p ∈ K, p.2.database = true ∧ validSavepointName p.2.name = true
  noted : ∀ p ∈ K, p.2.mark ∈ w.opened
  stack : t.savepoints.map (fun sp => (sp.serial, sp.name)) =
    K.map (fun p => (p.2.mark, foldCase p.2.name)) ++ base
  mirror : w.session.wrapper.savepoints = K.map (fun p => p.2.name) ++ names
  numbered : ∀ sp ∈ t.savepoints, sp.serial < w.session.conn.opened
  earlier : ∀ m ∈ w.opened, m < w.session.conn.opened
  foreign : ∀ b ∈ base, b.1 ∉ w.opened

def Inv (w : World D) : Prop :=
  ∀ t, w.session.conn.txn = some t → ∃ K base names, Stacked w t K base names

theorem World.Active.unique {o' : Object} (h : w.Active id o) (h' : w.Active id o') : o = o' :=
  Option.some.inj (h.1.symm.trans h'.1)

theorem stack_eq (ht : w.session.conn.txn = some t) : w.stack = t.savepoints := by
  rw [World.stack, ht]

theorem stack_none (ht : w.session.conn.txn = none) : w.stack = [] := by
  rw [World.stack, ht]

theorem Stacked.serials (h : Stacked w t K base names) :
    t.savepoints.map (·.serial) = K.map (fun p => p.2.mark) ++ base.map Prod.fst := by
  have := congrArg (List.map Prod.fst) h.stack
  simpa only [List.map_map, List.map_append, Function.comp_def] using this

theorem Stacked.owner (h : Stacked w t K base names) {p q : ℕ × Object} (hp : p ∈ K) (hq : q ∈ K)
    (hmark : p.2.mark = q.2.mark) : p = q :=
  List.inj_on_of_nodup_map h.marks hp hq hmark

theorem Inv.owned (h : Inv w) : w.Owned := by
  intro sp hsp hopened
  cases ht : w.session.conn.txn with
  | none =>
      rw [stack_none ht] at hsp
      cases hsp
  | some t =>
      obtain ⟨K, base, names, hs⟩ := h t ht
      rw [stack_eq ht] at hsp
      have hmem : sp.serial ∈ K.map (fun p => p.2.mark) ++ base.map Prod.fst := by
        rw [← hs.serials]
        exact List.mem_map_of_mem hsp
      rcases List.mem_append.mp hmem with hown | hforeign
      · obtain ⟨p, hp, hmark⟩ := List.mem_map.mp hown
        refine ⟨p.1, ⟨p.2, (hs.active _ _).mp hp, hmark⟩, ?_⟩
        rintro id' ⟨o', ha, hmark'⟩
        exact congrArg Prod.fst
          (hs.owner ((hs.active _ _).mpr ha) hp (hmark'.trans hmark.symm))
      · obtain ⟨b, hb, hserial⟩ := List.mem_map.mp hforeign
        exact absurd (hserial ▸ hopened) (hs.foreign b hb)

/-- While an object is active, the newest savepoint has an owner. -/
theorem Stacked.top (h : Stacked w t K base names) (ha : w.Active id o) :
    ∃ p K' sp below, K = p :: K' ∧ t.savepoints = sp :: below ∧ sp.serial = p.2.mark ∧
      sp.name = foldCase p.2.name ∧ w.session.wrapper.savepoints.head? = some p.2.name := by
  have hmem := (h.active id o).mpr ha
  cases K with
  | nil => cases hmem
  | cons p K' =>
      have hstack := h.stack
      cases hsp : t.savepoints with
      | nil =>
          rw [hsp] at hstack
          cases hstack
      | cons sp below =>
          rw [hsp, List.map_cons, List.map_cons, List.cons_append] at hstack
          obtain ⟨hserial, hname⟩ := Prod.mk.inj (List.cons.inj hstack).1
          refine ⟨p, K', sp, below, rfl, rfl, hserial, hname, ?_⟩
          rw [h.mirror]
          rfl

/-- The object with the newest savepoint stands first. -/
theorem Stacked.newest (h : Stacked w t K base names) (ht : w.session.conn.txn = some t)
    (ha : w.Active id o) (hn : Newest w o) : ∃ K' sp below, K = (id, o) :: K' ∧
      t.savepoints = sp :: below ∧ sp.serial = o.mark ∧ sp.name = foldCase o.name ∧
        w.session.wrapper.savepoints.head? = some o.name := by
  obtain ⟨p, K', sp, below, hK, hsp, hserial, hname, hmirror⟩ := h.top ha
  have hhead : sp.serial = o.mark := by
    rw [Newest, stack_eq ht, hsp] at hn
    exact Option.some.inj hn
  obtain rfl := h.owner ((h.active id o).mpr ha) (hK ▸ List.mem_cons_self)
    (hhead.symm.trans hserial)
  exact ⟨K', sp, below, hK, hsp, hhead, hname, hmirror⟩

/-! ### Sessions -/

theorem Stacked.unmoved (h : Stacked w t K base names) (hu : Unmoved t w.session w'.session)
    (ho : w'.opened = w.opened) (ha : ∀ id o, w'.Active id o ↔ w.Active id o) : Inv w' := by
  intro t' ht'
  rcases hu with hnone | ⟨hw, hopened, access, htxn⟩
  · rw [hnone] at ht'
    cases ht'
  · rw [htxn] at ht'
    obtain rfl := Option.some.inj ht'
    refine ⟨K, base, names, ⟨fun id o => (h.active id o).trans (ha id o).symm, h.marks, h.valid,
      ?_, h.stack, ?_, ?_, ?_, ?_⟩⟩
    · rw [ho]
      exact h.noted
    · rw [hw]
      exact h.mirror
    · rw [hopened]
      exact h.numbered
    · rw [ho, hopened]
      exact h.earlier
    · rw [ho]
      exact h.foreign

theorem Stacked.popped (h : Stacked w t ((id, o) :: K) base names)
    (hsp : t.savepoints = sp :: below) (hp : Popped t below w.session w'.session)
    (ho : w'.opened = w.opened)
    (ha : ∀ id' o', w'.Active id' o' ↔ w.Active id' o' ∧ id' ≠ id) : Inv w' := by
  intro t' ht'
  rcases hp with hnone | ⟨hw, hopened, access, htxn⟩
  · rw [hnone] at ht'
    cases ht'
  · rw [htxn] at ht'
    obtain rfl := Option.some.inj ht'
    have hmarks := h.marks
    rw [List.map_cons, List.nodup_cons] at hmarks
    have hstack := h.stack
    rw [hsp, List.map_cons, List.map_cons, List.cons_append] at hstack
    refine ⟨K, base, names, ⟨fun id' o' => ?_, hmarks.2,
      fun p hp => h.valid p (List.mem_cons_of_mem _ hp), ?_, (List.cons.inj hstack).2, ?_,
      ?_, ?_, ?_⟩⟩
    · rw [ha, ← h.active, List.mem_cons]
      constructor
      · intro hmem
        refine ⟨.inr hmem, ?_⟩
        rintro rfl
        have hself := (h.active id' o).mp List.mem_cons_self
        obtain rfl := ((h.active id' o').mp (List.mem_cons_of_mem _ hmem)).unique hself
        exact hmarks.1 (List.mem_map_of_mem hmem)
      · rintro ⟨heq | hmem, hne⟩
        · exact absurd (congrArg Prod.fst heq) hne
        · exact hmem
    · rw [ho]
      exact fun p hp => h.noted p (List.mem_cons_of_mem _ hp)
    · rw [hw, h.mirror]
      rfl
    · rw [hopened]
      exact fun sp' hsp' => h.numbered sp' (hsp ▸ List.mem_cons_of_mem _ hsp')
    · rw [ho, hopened]
      exact h.earlier
    · rw [ho]
      exact h.foreign

/-- A new savepoint, for an object that was not active. -/
theorem Stacked.pushed (h : Stacked w t K base names) (ht : w.session.conn.txn = some t)
    {name : Bytes} (hv : validSavepointName name = true)
    (hconn : w'.session.conn = w.session.conn.push (foldCase name))
    (hw : w'.session.wrapper.savepoints = name :: w.session.wrapper.savepoints)
    (ho : w'.opened = w.session.conn.opened :: w.opened)
    (ha : ∀ id' o', w'.Active id' o' ↔
      (id' = id ∧ o' = ⟨true, true, name, w.session.conn.opened⟩) ∨ w.Active id' o') : Inv w' := by
  have hpush : w'.session.conn = ⟨some { t with savepoints :=
      ⟨w.session.conn.opened, foldCase name, t.access.written⟩ :: t.savepoints },
      w.session.conn.opened + 1⟩ := by
    rw [hconn, Conn.push, ht]
  intro t' ht'
  rw [hpush] at ht'
  obtain rfl := Option.some.inj ht'
  have hold : ∀ p ∈ K, p.2.mark < w.session.conn.opened := fun p hp => h.earlier _ (h.noted p hp)
  refine ⟨(id, ⟨true, true, name, w.session.conn.opened⟩) :: K, base, names,
    ⟨fun id' o' => ?_, ?_, ?_, ?_, ?_, ?_, ?_, ?_, ?_⟩⟩
  · rw [ha, ← h.active, List.mem_cons, Prod.mk.injEq]
  · rw [List.map_cons, List.nodup_cons]
    refine ⟨fun hmem => ?_, h.marks⟩
    obtain ⟨p, hp, hmark⟩ := List.mem_map.mp hmem
    exact Nat.lt_irrefl _ (hmark ▸ hold p hp)
  · exact List.forall_mem_cons.mpr ⟨⟨rfl, hv⟩, h.valid⟩
  · rw [ho]
    exact List.forall_mem_cons.mpr ⟨List.mem_cons_self,
      fun p hp => List.mem_cons_of_mem _ (h.noted p hp)⟩
  · rw [List.map_cons, List.map_cons, List.cons_append, h.stack]
  · rw [hw, h.mirror]
    rfl
  · rw [hpush]
    exact List.forall_mem_cons.mpr ⟨Nat.lt_succ_self _,
      fun sp hsp => Nat.lt_succ_of_lt (h.numbered sp hsp)⟩
  · rw [ho, hpush]
    exact List.forall_mem_cons.mpr ⟨Nat.lt_succ_self _,
      fun m hm => Nat.lt_succ_of_lt (h.earlier m hm)⟩
  · rw [ho]
    intro b hb hmem
    rcases List.mem_cons.mp hmem with heq | hmem
    · have hin : b.1 ∈ t.savepoints.map (·.serial) := by
        rw [h.serials]
        exact List.mem_append_right _ (List.mem_map_of_mem hb)
      obtain ⟨sp, hsp, hserial⟩ := List.mem_map.mp hin
      have := h.numbered sp hsp
      omega
    · exact h.foreign b hb hmem

/-! ### Objects -/

theorem active_set (x : Option Object) (id' : ℕ) (o' : Object) :
    (w.set id x).Active id' o' ↔ if id' = id then x = some o' ∧ o'.active = true
      else w.Active id' o' := by
  change Function.update w.objects id x id' = some o' ∧ _ ↔ _
  by_cases h : id' = id
  · subst h
    rw [if_pos rfl, Function.update_self]
  · rw [if_neg h, Function.update_of_ne h]
    rfl

theorem active_transfer {source target : ℕ} {s : Object} (hs : w.objects source = some s)
    (hne : source ≠ target) (htarget : ∀ o, ¬w.Active target o) (id' : ℕ) (o' : Object) :
    (w.transfer source target).Active id' o' ↔
      (id' = target ∧ w.Active source o') ∨ (id' ≠ source ∧ w.Active id' o') := by
  unfold World.transfer
  simp only [hs]
  rw [active_set, active_set]
  by_cases h : id' = source
  · subst h
    rw [if_pos rfl]
    constructor
    · rintro ⟨heq, hactive⟩
      obtain rfl := Option.some.inj heq
      cases hactive
    · rintro (⟨heq, -⟩ | ⟨hno, -⟩)
      · exact absurd heq hne
      · exact absurd rfl hno
  · rw [if_neg h]
    by_cases h' : id' = target
    · subst h'
      rw [if_pos rfl]
      constructor
      · rintro ⟨heq, hactive⟩
        exact .inl ⟨rfl, hs.trans heq, hactive⟩
      · rintro (⟨-, ha⟩ | ⟨-, ha⟩)
        · exact ⟨hs.symm.trans ha.1, ha.2⟩
        · exact absurd ha (htarget o')
    · rw [if_neg h']
      constructor
      · exact fun ha => .inr ⟨h, ha⟩
      · rintro (⟨heq, -⟩ | ⟨-, ha⟩)
        · exact absurd heq h'
        · exact ha

/-- The owner of a savepoint changes its place. -/
theorem Inv.transfer (h : Inv w) {source target : ℕ} (hne : source ≠ target)
    (htarget : ∀ o, ¬w.Active target o) : Inv (w.transfer source target) := by
  cases hs : w.objects source with
  | none =>
      rw [World.transfer, hs]
      exact h
  | some s =>
      have hsame : (w.transfer source target).session = w.session ∧
          (w.transfer source target).opened = w.opened := by
        rw [World.transfer, hs]
        exact ⟨rfl, rfl⟩
      intro t ht
      rw [hsame.1] at ht
      obtain ⟨K, base, names, hk⟩ := h t ht
      have hproj : ∀ {β : Type} (f : Object → β),
          (K.map fun p => (if p.1 = source then target else p.1, p.2)).map (fun p => f p.2) =
            K.map fun p => f p.2 := by
        intro β f
        rw [List.map_map]
        rfl
      refine ⟨K.map fun p => (if p.1 = source then target else p.1, p.2), base, names,
        ⟨fun id' o' => ?_, ?_, ?_, ?_, ?_, ?_, ?_, ?_, ?_⟩⟩
      · rw [active_transfer hs hne htarget, List.mem_map]
        constructor
        · rintro ⟨⟨i, x⟩, hmem, heq⟩
          have ha := (hk.active i x).mp hmem
          by_cases hi : i = source
          · subst hi
            rw [if_pos rfl] at heq
            obtain ⟨rfl, rfl⟩ := Prod.mk.inj heq
            exact .inl ⟨rfl, ha⟩
          · rw [if_neg hi] at heq
            obtain ⟨rfl, rfl⟩ := Prod.mk.inj heq
            exact .inr ⟨hi, ha⟩
        · rintro (⟨rfl, ha⟩ | ⟨hno, ha⟩)
          · exact ⟨(source, o'), (hk.active _ _).mpr ha, by rw [if_pos rfl]⟩
          · exact ⟨(id', o'), (hk.active _ _).mpr ha, by rw [if_neg hno]⟩
      · rw [hproj fun x => x.mark]
        exact hk.marks
      · intro p hp
        obtain ⟨q, hq, rfl⟩ := List.mem_map.mp hp
        exact hk.valid q hq
      · rw [hsame.2]
        intro p hp
        obtain ⟨q, hq, rfl⟩ := List.mem_map.mp hp
        exact hk.noted q hq
      · rw [hproj fun x => (x.mark, foldCase x.name)]
        exact hk.stack
      · rw [hsame.1, hproj fun x => x.name]
        exact hk.mirror
      · rw [hsame.1]
        exact hk.numbered
      · rw [hsame.1, hsame.2]
        exact hk.earlier
      · rw [hsame.2]
        exact hk.foreign

/-! ### Savepoints -/

variable {fs : Faults} {e : Event}

theorem closes_unmoved (ht : w.session.conn.txn = some t)
    (hu : Unmoved t w.session (w.step fs e).session)
    (ha : ∀ id o, e.finishes = some id → w.Active id o → (w.step fs e).Active id o) :
    e.ClosesOwn fs w := by
  constructor
  · rintro n - ⟨t', ht', -⟩ sp hsp hgone
    rw [stack_eq ht] at hsp
    rcases hu with hnone | ⟨-, -, access, htxn⟩
    · rw [hnone] at ht'
      cases ht'
    · rw [stack_eq htxn] at hgone
      exact absurd rfl (hgone sp hsp)
  · intro id o hid hactive hno
    exact absurd rfl (hno o (ha id o hid hactive))

theorem closes_popped (hs : Stacked w t ((id, o) :: K) base names)
    (ht : w.session.conn.txn = some t) (hsp : t.savepoints = sp :: below)
    (hserial : sp.serial = o.mark) (hp : Popped t below w.session (w.step fs e).session)
    (hid : e.finishes = some id) : e.ClosesOwn fs w := by
  have hself := (hs.active id o).mp List.mem_cons_self
  constructor
  · rintro n - ⟨t', ht', -⟩ sp' hsp' hgone
    rw [stack_eq ht, hsp] at hsp'
    rcases hp with hnone | ⟨-, -, access, htxn⟩
    · rw [hnone] at ht'
      cases ht'
    · rw [stack_eq htxn] at hgone
      rcases List.mem_cons.mp hsp' with rfl | hbelow
      · exact ⟨id, o, hid, hself, hserial.symm⟩
      · exact absurd rfl (hgone sp' hbelow)
  · intro id' o' hid' hactive _ sp' hsp'
    obtain rfl := Option.some.inj (hid.symm.trans hid')
    obtain rfl := hself.unique hactive
    rcases hp with hnone | ⟨-, -, access, htxn⟩
    · rw [stack_none hnone] at hsp'
      cases hsp'
    · rw [stack_eq htxn] at hsp'
      have hserials := hs.serials
      rw [hsp, List.map_cons, List.map_cons, List.cons_append] at hserials
      have hmem : sp'.serial ∈ K.map (fun p => p.2.mark) ++ base.map Prod.fst := by
        rw [← (List.cons.inj hserials).2]
        exact List.mem_map_of_mem hsp'
      intro heq
      rw [heq] at hmem
      rcases List.mem_append.mp hmem with hown | hforeign
      · have hmarks := hs.marks
        rw [List.map_cons, List.nodup_cons] at hmarks
        exact hmarks.1 hown
      · obtain ⟨b, hb, hmark⟩ := List.mem_map.mp hforeign
        exact hs.foreign b hb (hmark ▸ hs.noted _ List.mem_cons_self)

/-- A call that closes the newest savepoint, its object's own, or fails. -/
def Finished (w : World D) (t : Txn D.language) (o : Object)
    (r : Except Failure Unit × Object × Session D) : Prop :=
  (∃ e σ', r = (.error e, o, σ') ∧ Unmoved t w.session σ') ∨
    Newest w o ∧ o.active = true ∧ ∃ σ', r = (.ok (), o.cleared, σ') ∧
      ∀ sp below, t.savepoints = sp :: below → Popped t below w.session σ'

theorem finish_step (hs : Stacked w t K base names) (ht : w.session.conn.txn = some t)
    (ho : w.objects id = some o)
    {f : Object → Session D → Except Failure Unit × Object × Session D}
    (hstep : w.step fs e = w.call id f) (hid : e.finishes = some id)
    (hf : Finished w t o (f o w.session)) : Inv (w.step fs e) ∧ e.ClosesOwn fs w := by
  rw [World.call, ho] at hstep
  dsimp only at hstep
  rcases hf with ⟨er, σ', hr, hu⟩ | ⟨hn, hactive, σ', hr, hp⟩
  · have hsession : (w.step fs e).session = σ' := by rw [hstep, hr]
    have ha : ∀ id' o', (w.step fs e).Active id' o' ↔ w.Active id' o' := by
      intro id' o'
      rw [hstep, hr]
      refine (active_set (some o) id' o').trans ?_
      by_cases h : id' = id
      · rw [if_pos h, h, World.Active, ho]
      · rw [if_neg h]
    rw [← hsession] at hu
    exact ⟨hs.unmoved hu (by rw [hstep]; rfl) ha,
      closes_unmoved ht hu fun id' o' _ h => (ha id' o').mpr h⟩
  · have hsession : (w.step fs e).session = σ' := by rw [hstep, hr]
    obtain ⟨K', sp, below, rfl, hsp, hserial, -, -⟩ := hs.newest ht ⟨ho, hactive⟩ hn
    have hp := hp sp below hsp
    rw [← hsession] at hp
    refine ⟨hs.popped hsp hp (by rw [hstep]; rfl) fun id' o' => ?_,
      closes_popped hs ht hsp hserial hp hid⟩
    rw [hstep, hr]
    refine (active_set (some o.cleared) id' o').trans ?_
    by_cases h : id' = id
    · rw [if_pos h]
      refine ⟨?_, fun hn => absurd h hn.2⟩
      rintro ⟨heq, hno⟩
      obtain rfl := Option.some.inj heq
      cases hno
    · rw [if_neg h]
      exact ⟨fun ha => ⟨ha, h⟩, And.left⟩

/-- What the rollback of an object does that is destroyed or assigned to. -/
theorem reset_popped (hs : Stacked w t K base names) (ht : w.session.conn.txn = some t)
    (ha : w.Active id o) (hn : Newest w o) (hgo : goesThrough fs = true) :
    ∃ K' sp below, K = (id, o) :: K' ∧ t.savepoints = sp :: below ∧ sp.serial = o.mark ∧
      Popped t below w.session (reset fs o w.session).2 := by
  obtain ⟨K', sp, below, hK, hsp, hserial, hname, hmirror⟩ := hs.newest ht ha hn
  obtain ⟨hdatabase, hvalid⟩ := hs.valid (id, o) ((hs.active id o).mpr ha)
  refine ⟨K', sp, below, hK, hsp, hserial, ?_⟩
  obtain ⟨hok, herror⟩ := run_savepointRollback hvalid hmirror ht hsp hname fs
  rw [reset, ha.2, hdatabase, if_pos (by decide)]
  by_cases hf : fs.headD .none = .none ∧ fs.tail.headD .none = .none
  · obtain ⟨σ', hr, hp⟩ := hok hf
    rw [hr]
    exact hp
  · obtain ⟨er, σ', hr, -, hgone⟩ := herror hf
    rw [hr]
    exact .inl (hgone hgo)

/-! ### Events -/

theorem finished_release (hs : Stacked w t K base names) (ht : w.session.conn.txn = some t)
    (ho : w.objects id = some o) (horder : Event.Orderly fs w (.release id)) :
    Finished w t o (release fs o w.session) := by
  unfold release
  cases hactive : o.active with
  | false => exact .inl ⟨_, _, rfl, unmoved_self ht⟩
  | true =>
      have ha : w.Active id o := ⟨ho, hactive⟩
      obtain ⟨hdatabase, hvalid⟩ := hs.valid (id, o) ((hs.active id o).mpr ha)
      rw [hdatabase, if_neg (by decide)]
      by_cases hm : w.session.wrapper.savepoints.head? = some o.name
      · obtain ⟨p, K', sp, below, -, hsp, -, hname, hmirror⟩ := hs.top ha
        have hsame : p.2.name = o.name := Option.some.inj (hmirror.symm.trans hm)
        rw [hsame] at hname
        obtain ⟨hok, herror⟩ := run_savepointRelease hvalid hm ht hsp hname fs
        by_cases hf : fs.headD .none = .none
        · obtain ⟨σ', hr, hp⟩ := hok hf
          rw [hr]
          refine .inr ⟨horder o ha hm hf, hactive, σ', rfl, fun sp' below' hsp' => ?_⟩
          rw [hsp] at hsp'
          obtain ⟨-, rfl⟩ := List.cons.inj hsp'
          exact hp
        · obtain ⟨er, σ', hr, hu⟩ := herror hf
          rw [hr]
          exact .inl ⟨er, σ', rfl, hu⟩
      · obtain ⟨er, hr⟩ := (run_refused hm fs).1
        rw [hr]
        exact .inl ⟨er, _, rfl, unmoved_self ht⟩

theorem finished_rollback (hs : Stacked w t K base names) (ht : w.session.conn.txn = some t)
    (ho : w.objects id = some o) (horder : Event.Orderly fs w (.rollback id)) :
    Finished w t o (rollback fs o w.session) := by
  unfold rollback
  cases hactive : o.active with
  | false => exact .inl ⟨_, _, rfl, unmoved_self ht⟩
  | true =>
      have ha : w.Active id o := ⟨ho, hactive⟩
      obtain ⟨hdatabase, hvalid⟩ := hs.valid (id, o) ((hs.active id o).mpr ha)
      rw [hdatabase, if_neg (by decide)]
      by_cases hm : w.session.wrapper.savepoints.head? = some o.name
      · obtain ⟨p, K', sp, below, -, hsp, -, hname, hmirror⟩ := hs.top ha
        have hsame : p.2.name = o.name := Option.some.inj (hmirror.symm.trans hm)
        rw [hsame] at hname
        obtain ⟨hok, herror⟩ := run_savepointRollback hvalid hm ht hsp hname fs
        by_cases hf : fs.headD .none = .none ∧ fs.tail.headD .none = .none
        · obtain ⟨σ', hr, hp⟩ := hok hf
          rw [hr]
          refine .inr ⟨horder o ha hm hf.1 hf.2, hactive, σ', rfl, fun sp' below' hsp' => ?_⟩
          rw [hsp] at hsp'
          obtain ⟨-, rfl⟩ := List.cons.inj hsp'
          exact hp
        · obtain ⟨er, σ', hr, hu, -⟩ := herror hf
          rw [hr]
          exact .inl ⟨er, σ', rfl, hu⟩
      · obtain ⟨er, hr⟩ := (run_refused hm fs).2
        rw [hr]
        exact .inl ⟨er, _, rfl, unmoved_self ht⟩

theorem begin_step (hs : Stacked w t K base names) (ht : w.session.conn.txn = some t)
    {name : Bytes} (ho : w.objects id = some o) (horder : Event.Orderly fs w (.begin id name)) :
    Inv (w.step fs (.begin id name)) ∧ (Event.begin id name).ClosesOwn fs w := by
  -- A begin that fails notes nothing.
  have hfail : ∀ er σ', begin fs name o w.session = (.error er, o, σ') →
      Unmoved t w.session σ' →
      Inv (w.step fs (.begin id name)) ∧ (Event.begin id name).ClosesOwn fs w := by
    intro er σ' hr hu
    have hnoted : w.noted fs id name = w.opened := by
      unfold World.noted
      simp only [ho, hr]
    refine finish_step hs ht ho (f := begin fs name) ?_ rfl (.inl ⟨er, σ', hr, hu⟩)
    change { w.call id (begin fs name) with opened := w.noted fs id name } = _
    rw [hnoted, World.call, ho]
    rfl
  by_cases hlen : name.length = 0 ∨ savepointNameMaxBytes < name.length
  · exact hfail (.quiet .invalidArgument) w.session (by rw [begin, if_pos hlen]) (unmoved_self ht)
  · rcases run_savepointBegin ht fs name with ⟨er, σ', hr, hu⟩ | ⟨hasked, hr⟩
    · exact hfail er σ' (by rw [begin, if_neg hlen, hr]) hu
    · have hidle : o.active = false := by
        by_contra hactive
        exact horder o ⟨ho, by simpa using hactive⟩ hasked
      have hbegin : begin fs name o w.session =
          (.ok (), ⟨true, true, name, w.session.conn.opened⟩, { w.session with
            conn := w.session.conn.push (foldCase name)
            wrapper := { w.session.wrapper with
              savepoints := name :: w.session.wrapper.savepoints
              marks := w.session.conn.opened :: w.session.wrapper.marks } }) := by
        rw [begin, if_neg hlen, hr]
        dsimp only
        rw [reset, hidle]
        rfl
      have hnoted : w.noted fs id name = w.session.conn.opened :: w.opened := by
        unfold World.noted
        simp only [ho, hbegin]
      have hstep : w.step fs (.begin id name) =
          { w.set id (some ⟨true, true, name, w.session.conn.opened⟩) with
            session := (begin fs name o w.session).2.2
            opened := w.session.conn.opened :: w.opened } := by
        change { w.call id (begin fs name) with opened := w.noted fs id name } = _
        rw [hnoted, World.call, ho]
        dsimp only
        rw [hbegin]
      rw [hbegin] at hstep
      have ha : ∀ id' o', (w.step fs (.begin id name)).Active id' o' ↔
          (id' = id ∧ o' = ⟨true, true, name, w.session.conn.opened⟩) ∨ w.Active id' o' := by
        intro id' o'
        rw [hstep]
        refine (active_set _ id' o').trans ?_
        by_cases h : id' = id
        · rw [if_pos h]
          constructor
          · exact fun h' => .inl ⟨h, (Option.some.inj h'.1).symm⟩
          · rintro (⟨-, rfl⟩ | ⟨ho', hactive⟩)
            · exact ⟨rfl, rfl⟩
            · rw [h, ho] at ho'
              rw [← Option.some.inj ho', hidle] at hactive
              cases hactive
        · rw [if_neg h]
          exact ⟨.inr, fun h' => h'.resolve_left fun h'' => h h''.1⟩
      have hstack : (w.step fs (.begin id name)).stack =
          ⟨w.session.conn.opened, foldCase name, t.access.written⟩ :: t.savepoints := by
        rw [hstep, World.stack]
        dsimp only
        rw [Conn.push, ht]
      refine ⟨hs.pushed ht hasked.1.1 (by rw [hstep]) (by rw [hstep]) (by rw [hstep]) ha, ?_, ?_⟩
      · intro n _ _ sp hsp hgone
        rw [stack_eq ht] at hsp
        rw [hstack] at hgone
        exact absurd rfl (hgone sp (List.mem_cons_of_mem _ hsp))
      · rintro id' o' hid ⟨ho', hactive⟩ _
        obtain rfl := Option.some.inj hid
        rw [ho] at ho'
        rw [← Option.some.inj ho', hidle] at hactive
        cases hactive

/-- An object that is destroyed or assigned to lets go of its savepoint. -/
theorem reset_step (hs : Stacked w t K base names) (ht : w.session.conn.txn = some t)
    (ho : w.objects id = some o)
    (horder : ∀ o, w.Active id o → Newest w o ∧ goesThrough fs = true)
    (hstep : (w.step fs e).session = (w.reset fs id).session) (hid : e.finishes = some id) :
    Inv (w.reset fs id) ∧ (∀ o, ¬(w.reset fs id).Active id o) ∧ e.ClosesOwn fs w := by
  have hw : w.reset fs id = { w.set id (some o.cleared) with
      session := (reset fs o w.session).2 } := by
    rw [World.reset, ho]
    rfl
  have ha : ∀ id' o', (w.reset fs id).Active id' o' ↔ w.Active id' o' ∧ id' ≠ id := by
    intro id' o'
    rw [hw]
    refine (active_set _ id' o').trans ?_
    by_cases h : id' = id
    · rw [if_pos h]
      refine ⟨?_, fun hn => absurd h hn.2⟩
      rintro ⟨heq, hno⟩
      obtain rfl := Option.some.inj heq
      cases hno
    · rw [if_neg h]
      exact ⟨fun ha => ⟨ha, h⟩, And.left⟩
  have hnone : ∀ o, ¬(w.reset fs id).Active id o := fun o h => ((ha id o).mp h).2 rfl
  cases hactive : o.active with
  | false =>
      have hidle : ∀ o', ¬w.Active id o' := by
        rintro o' ⟨ho', ha'⟩
        rw [ho] at ho'
        rw [← Option.some.inj ho', hactive] at ha'
        cases ha'
      have hu : Unmoved t w.session (w.reset fs id).session := by
        rw [hw, reset, hactive]
        exact unmoved_self ht
      refine ⟨hs.unmoved hu (by rw [hw]; rfl) fun id' o' => ?_, hnone,
        closes_unmoved ht (hstep ▸ hu) fun id' o' hid' ha' => ?_⟩
      · rw [ha]
        refine ⟨And.left, fun h => ⟨h, ?_⟩⟩
        rintro rfl
        exact hidle o' h
      · obtain rfl := Option.some.inj (hid.symm.trans hid')
        exact absurd ha' (hidle o')
  | true =>
      obtain ⟨hn, hgo⟩ := horder o ⟨ho, hactive⟩
      obtain ⟨K', sp, below, rfl, hsp, hserial, hp⟩ := reset_popped hs ht ⟨ho, hactive⟩ hn hgo
      have hp' : Popped t below w.session (w.reset fs id).session := by
        rw [hw]
        exact hp
      exact ⟨hs.popped hsp hp' (by rw [hw]; rfl) ha, hnone,
        closes_popped hs ht hsp hserial (hstep ▸ hp') hid⟩

theorem transfer_session (source : ℕ) {target : ℕ} :
    (w.transfer source target).session = w.session := by
  unfold World.transfer
  cases w.objects source <;> rfl

/-- An object that is not active is forgotten. -/
theorem Inv.forget (h : Inv w) (hnone : ∀ o, ¬w.Active id o) : Inv (w.set id none) := by
  intro t ht
  obtain ⟨K, base, names, hs⟩ := h t ht
  have ha : ∀ id' o', (w.set id none).Active id' o' ↔ w.Active id' o' := by
    intro id' o'
    rw [active_set]
    by_cases h : id' = id
    · rw [if_pos h, h]
      exact ⟨fun h => (nomatch h.1), fun h => absurd h (hnone o')⟩
    · rw [if_neg h]
  have hinv : Inv (w.set id none) := hs.unmoved (unmoved_self ht) rfl ha
  exact hinv t ht

/-- A step of objects that are finished in order. -/
theorem Inv.step (h : Inv w) {n : ℕ} (hw : w.Within n) (hl : e.Legal w) (ho : e.Orderly fs w) :
    Inv (w.step fs e) ∧ e.ClosesOwn fs w := by
  obtain ⟨t, ht, -⟩ := hw
  obtain ⟨K, base, names, hs⟩ := h t ht
  cases e with
  | construct id =>
      have ha : ∀ id' o', (w.set id (some .fresh)).Active id' o' ↔ w.Active id' o' := by
        intro id' o'
        rw [active_set]
        by_cases h : id' = id
        · rw [if_pos h, h, World.Active, hl]
          refine ⟨?_, fun h => nomatch h.1⟩
          rintro ⟨heq, hno⟩
          obtain rfl := Option.some.inj heq
          cases hno
        · rw [if_neg h]
      exact ⟨hs.unmoved (unmoved_self ht) rfl ha,
        closes_unmoved ht (unmoved_self ht) fun id' o' hid _ => nomatch hid⟩
  | begin id name =>
      obtain ⟨o, hid⟩ := Option.isSome_iff_exists.mp hl
      exact begin_step hs ht hid ho
  | release id =>
      obtain ⟨o, hid⟩ := Option.isSome_iff_exists.mp hl
      exact finish_step hs ht hid rfl rfl (finished_release hs ht hid ho)
  | rollback id =>
      obtain ⟨o, hid⟩ := Option.isSome_iff_exists.mp hl
      exact finish_step hs ht hid rfl rfl (finished_rollback hs ht hid ho)
  | moveConstruct source target =>
      have hsession : (w.transfer source target).session = w.session := transfer_session source
      have hno : ∀ o, ¬w.Active target o := fun o h => nomatch hl.2.symm.trans h.1
      have hne : source ≠ target := by
        rintro rfl
        have hsome := hl.1
        rw [hl.2] at hsome
        cases hsome
      exact ⟨h.transfer hne hno,
        closes_unmoved ht (hsession.symm ▸ unmoved_self ht) fun id' o' hid _ => nomatch hid⟩
  | moveAssign source target =>
      by_cases hne : source = target
      · have hstep : w.step fs (.moveAssign source target) = w := if_pos hne
        have hidle : (Event.moveAssign source target).finishes = none := if_pos hne
        refine ⟨by rw [hstep]; exact h, closes_unmoved ht ?_ fun id' o' hid _ => ?_⟩
        · rw [hstep]
          exact unmoved_self ht
        · rw [hidle] at hid
          cases hid
      · have hstep : w.step fs (.moveAssign source target) =
            (w.reset fs target).transfer source target := if_neg hne
        obtain ⟨o, hid⟩ := Option.isSome_iff_exists.mp hl.2
        obtain ⟨hinv, hnone, hcloses⟩ := reset_step (e := .moveAssign source target) hs ht hid
          (ho hne) (by rw [hstep]; exact transfer_session source) (if_neg hne)
        rw [hstep]
        exact ⟨hinv.transfer hne hnone, hcloses⟩
  | destroy id =>
      obtain ⟨o, hid⟩ := Option.isSome_iff_exists.mp hl
      obtain ⟨hinv, hnone, hcloses⟩ := reset_step hs ht hid ho
        (e := .destroy id) rfl rfl
      exact ⟨hinv.forget hnone, hcloses⟩

end

/-! ## Runs -/

theorem inv_start {σ : Session D} (h : σ.conn.Numbered) :
    Inv (⟨σ, fun _ => none, []⟩ : World D) := by
  intro t ht
  refine ⟨[], t.savepoints.map fun sp => (sp.serial, sp.name), σ.wrapper.savepoints, ?_⟩
  refine ⟨fun id o => ?_, List.nodup_nil, ?_, ?_, rfl, rfl, h.savepoint t ht, ?_, ?_⟩
  · exact ⟨fun h => (List.not_mem_nil h).elim, fun h => nomatch h.1⟩
  · exact fun p hp => (List.not_mem_nil hp).elim
  · exact fun p hp => (List.not_mem_nil hp).elim
  · exact fun m hm => (List.not_mem_nil hm).elim
  · exact fun b _ => List.not_mem_nil

theorem Reaches.inv {n : ℕ} {σ : Session D} (hσ : Runtime.Reaches Runtime.Step σ) {w : World D}
    (hr : Reaches (fun fs w e => e.Orderly fs w) n σ w) : Inv w := by
  induction hr with
  | start => exact inv_start hσ.numbered
  | step fs e _ hw hl ho ih => exact (ih.step hw hl ho).1

/-- Objects that are finished in order own what they opened, and close nothing else. -/
theorem savepoint_objects (σ : Session D) (hσ : Runtime.Reaches Runtime.Step σ) (n : ℕ)
    (w : World D) (hr : Reaches (fun fs w e => e.Orderly fs w) n σ w) :
    w.Owned ∧ ∀ (fs : Faults) (e : Event), w.Within n → e.Legal w → e.Orderly fs w →
      e.ClosesOwn fs w :=
  ⟨(hr.inv hσ).owned, fun _ _ hw hl ho => ((hr.inv hσ).step hw hl ho).2⟩

/-- `esdb_begin`, one object, and its begins. -/
def begins (names : List Bytes) : World controlOnly :=
  names.foldl (fun w name => w.step [] (.begin 0 name))
    (World.step [] (.construct 0) ⟨(Call.begin 1 true).faultFree freshControlOnly, fun _ => none, []⟩)

theorem reaches_begun : Runtime.Reaches Runtime.Step ((Call.begin 1 true).faultFree freshControlOnly) :=
  .step (.opened _ 0) (step_faultFree _ (.begin 1 true) (fun _ h => by cases h) ⟨trivial, trivial⟩)

theorem savepoint_objects_one : (begins [[97]]).Owned ∧
    (Event.release 0).ClosesOwn [] (begins [[97]]) := by
  have h₀ : Reaches (fun fs w e => e.Orderly fs w) 0 _ (begins []) :=
    .step [] (.construct 0) .start ⟨_, rfl, rfl⟩ rfl trivial
  have h₁ : Reaches (fun fs w e => e.Orderly fs w) 0 _ (begins [[97]]) :=
    .step [] (.begin 0 [97]) h₀ ⟨_, rfl, rfl⟩ rfl fun o ho => nomatch (Option.some.inj ho.1 ▸ ho.2)
  obtain ⟨howned, hcloses⟩ := savepoint_objects _ reaches_begun 0 _ h₁
  exact ⟨howned, hcloses [] (.release 0) ⟨_, rfl, rfl⟩ rfl fun o ho _ _ =>
    Option.some.inj ho.1 ▸ rfl⟩

/-- A second begin on an active object leaves its savepoint to nobody. -/
theorem savepoint_objects_fail : ¬∀ (σ : Session controlOnly) (n : ℕ) (w : World controlOnly),
    Runtime.Reaches Runtime.Step σ → Reaches (fun _ _ _ => True) n σ w →
      w.Owned ∧ ∀ (fs : Faults) (e : Event), w.Within n → e.Legal w → e.ClosesOwn fs w := by
  intro h
  have h₀ : Reaches (fun _ _ _ => True) 0 _ (begins []) :=
    .step [] (.construct 0) .start ⟨_, rfl, rfl⟩ rfl trivial
  have h₁ : Reaches (fun _ _ _ => True) 0 _ (begins [[97]]) :=
    .step [] (.begin 0 [97]) h₀ ⟨_, rfl, rfl⟩ rfl trivial
  have h₂ : Reaches (fun _ _ _ => True) 0 _ (begins [[97], [98]]) :=
    .step [] (.begin 0 [98]) h₁ ⟨_, rfl, rfl⟩ rfl trivial
  obtain ⟨id, ⟨o, ⟨ho, -⟩, hmark⟩, -⟩ := (h _ 0 _ reaches_begun h₂).1 ⟨1, [97], some ()⟩
    (List.mem_cons_of_mem _ List.mem_cons_self) (List.mem_cons_of_mem _ List.mem_cons_self)
  cases id with
  | zero =>
      obtain rfl := Option.some.inj ho
      cases hmark
  | succ id => cases ho

end Esdb.SavepointObjects
