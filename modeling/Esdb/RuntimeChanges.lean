import Esdb.ResultWire

/-!
# The change count of a statement

`esdb_query` reads how many rows changed off the connection. SQLite keeps there the count
of the last INSERT, UPDATE or DELETE, whatever ran since, so what is reported depends on
the kind of the statement and on everything that ran before it.
-/
namespace Esdb.Query

open Decimal Wire

/-! ## Connections with a count -/

/-- A compiled statement with its kind; `changes` of its runs are the rows that it inserted,
updated or deleted itself. -/
structure Statement (C : Type) extends Prepared C where
  modifies : Bool
  counts : ∀ cells d, 0 ≤ (run cells d).changes
  silent : modifies = false → ∀ cells d, (run cells d).changes = 0
  writes : modifies = true → readonly = false

variable {C : Type}

/-- The statement on a connection that counts `counter`: its runs end with what
`sqlite3_changes64` then returns. -/
def Statement.on (s : Statement C) (counter : ℤ) : Prepared C where
  parameters := s.parameters
  columns := s.columns
  readonly := s.readonly
  bind := s.bind
  run := fun cells d =>
    { s.run cells d with changes := if s.modifies then (s.run cells d).changes else counter }
  width := s.width
  reads := s.reads

/-- `sqlite3_prepare_v3`, as in `Engine`. -/
abbrev StatementEngine (C : Type) : Type := C → Bytes → Except ℤ (Option (Statement C) × Bytes)

def StatementEngine.on (engine : StatementEngine C) (counter : ℤ) : Engine C := fun content sql =>
  (engine content sql).map fun p => (p.1.map fun s => s.on counter, p.2)

structure Connection (C : Type) where
  state : State C
  counter : ℤ

/-- What a statement did to the count: nothing unless it is an INSERT, UPDATE or DELETE. -/
structure Effect where
  modifies : Bool
  changes : ℤ

def Effect.count (counter : ℤ) (e : Effect) : ℤ := if e.modifies then e.changes else counter

/-- A call on the connection. `others` is one of `esdb_exec` or of an object store: the
statements that it runs in turn, and the state that it leaves. -/
inductive Event (C : Type) where
  | query (mem : Memory) (call : Call)
  | others (effects : List Effect) (state : State C)

/-- The statement a call steps, if it comes to that. -/
def stepped (engine : StatementEngine C) (mem : Memory) (call : Call) (σ : Connection C) :
    Option (Statement C × List Cell) :=
  match prepareCall (engine.on σ.counter) call σ.state.content,
    engine σ.state.content (call.sql.getD []) with
  | .ok (_, cells), .ok (some s, _) => if mem.vectors then some (s, cells) else none
  | _, _ => none

def Event.effects (engine : StatementEngine C) (σ : Connection C) : Event C → List Effect
  | .query mem call =>
      ((stepped engine mem call σ).map fun p =>
        (⟨p.1.modifies, (p.1.run p.2 σ.state.content).changes⟩ : Effect)).toList
  | .others effects _ => effects

def Event.next (engine : StatementEngine C) (σ : Connection C) (e : Event C) : Connection C where
  state :=
    match e with
    | .query mem call => (Query.query (engine.on σ.counter) mem call σ.state).state
    | .others _ state => state
  counter := (e.effects engine σ).foldl Effect.count σ.counter

section Script

variable {D S : Type} {stream : BitVec 64 → List Char} {host : Host D S}

end Script

/-! ## Runs -/

def inserted : List (Event (List (BitVec 64))) := [.query plenty (insertCall .proceed)]

end Esdb.Query
