import Esdb.Runtime
import Mathlib.Data.List.Infix

/-!
# One typed statement from the caller

`esdb_query` prepares one statement, binds its parameters and steps it, decoding
each row for a callback until the callback has seen enough. SQLite is a parameter:
what a text compiles to, and what a compiled statement does to the content. A
statement with changes to make has made them all before its first row, and
finalizing it where it stands lets them be committed, so a row that cannot be
decoded, or a callback that throws, ends the call after the effect and not before it.
-/
namespace Esdb.Query

open Esdb.Runtime

/-! ## SQLite's side -/

/-- A column value in one of SQLite's storage classes; a FLOAT is its bits. -/
inductive Cell where
  | null
  | integer (bits : BitVec 64)
  | float (bits : BitVec 64)
  | text (bytes : Bytes)
  | blob (bytes : Bytes)
  deriving DecidableEq, Repr

/-- What stepping a bound statement comes to: the rows in order, then `SQLITE_DONE`
or an error code. `after` has all of its changes, `kept` those that an error leaves,
and `rollsBack` says whether the error ends an open transaction. -/
structure Execution (C : Type) where
  rows : List (List Cell)
  failure : Option ℤ
  after : C
  kept : C
  rollsBack : Bool
  changes : ℤ

/-- A compiled statement other than transaction or savepoint control. -/
structure Prepared (C : Type) where
  parameters : ℕ
  columns : List Bytes
  readonly : Bool
  bind : ℕ → Cell → Option ℤ
  run : List Cell → C → Execution C
  width : ∀ cells d, ∀ row ∈ (run cells d).rows, row.length = columns.length
  reads : readonly = true → ∀ cells d, (run cells d).after = d ∧ (run cells d).kept = d

/-- `sqlite3_prepare_v3` over the schema in the content: the first statement of a
text, if it has one, and what stands behind it. -/
abbrev Engine (C : Type) : Type := C → Bytes → Except ℤ (Option (Prepared C) × Bytes)

/-- `transaction` is the content an open transaction would roll back to. -/
structure State (C : Type) where
  content : C
  transaction : Option C
  database : Database

variable {C : Type}

/-- `esdb_query_sync_transaction_state`. -/
def State.sync (st : State C) : State C :=
  { st with database := st.database.sync st.transaction.isNone }

/-- After a step that failed. -/
def State.failed (x : Execution C) (st : State C) : State C :=
  match st.transaction, x.rollsBack with
  | some saved, true => { st with content := saved, transaction := none }
  | _, _ => { st with content := x.kept }

/-! ## The call -/

/-- What the callback does with a row: take it, take it and ask for no more, or throw. -/
inductive RowVerdict where
  | proceed | stop | badAlloc | throw
  deriving DecidableEq, Repr

/-- The arguments; a null pointer is `none`, and a non-null parameter array is what
stands at each position. -/
structure Call where
  sql : Option Bytes
  parameters : Option (ℕ → Option Value)
  parameterCount : ℕ
  callback : Option (List Bytes → ℕ → List Value → RowVerdict)

/-- Which allocations succeed for one column of one row: SQLite's own, the value's,
its payload's. -/
structure CellMemory where
  column : Bool
  value : Bool
  payload : Bool
  deriving DecidableEq, Repr

structure Memory where
  vectors : Bool
  cell : ℕ → ℕ → CellMemory

def intMax : ℕ := 2147483647

def execFailure (status : Status) (code : ℤ) (message : String) : Failure :=
  .recorded status .exec code (some message)

def sqliteExecFailure (code : ℤ) : Failure :=
  .recorded (mapSqliteStatus code) .exec code none

/-! ### Parameters -/

def readLe : Bytes → ℕ
  | [] => 0
  | b :: rest => b.toNat + 256 * readLe rest

def isNan (bits : BitVec 64) : Bool :=
  bits.extractLsb' 52 11 == BitVec.allOnes 11 && bits.extractLsb' 0 52 != 0

/-- The decoding in `esdb_query_bind_value`, up to the `sqlite3_bind` call. -/
def parameterCell (value : Value) : Except Failure Cell :=
  let mismatch (message : String) : Except Failure Cell :=
    .error (execFailure .typeMismatch Sqlite.mismatch message)
  if value.type = Value.null then .ok .null
  else if value.type = Value.bool then
    match value.payload with
    | [b] => .ok (.integer (if b = 0 then 0 else 1))
    | _ => mismatch "invalid BOOL query parameter"
  else if value.type = Value.int32 then
    if value.payload.length = 4 then
      .ok (.integer ((BitVec.ofNat 32 (readLe value.payload)).signExtend 64))
    else mismatch "invalid INT32 query parameter"
  else if value.type = Value.int64 then
    if value.payload.length = 8 then .ok (.integer (BitVec.ofNat 64 (readLe value.payload)))
    else mismatch "invalid INT64 query parameter"
  else if value.type = Value.double then
    if value.payload.length = 8 then
      let bits := BitVec.ofNat 64 (readLe value.payload)
      if isNan bits then
        .error (execFailure .unsupported Sqlite.mismatch
          "NaN DOUBLE query parameters are not representable by SQLite")
      else .ok (.float bits)
    else mismatch "invalid DOUBLE query parameter"
  else if value.type = Value.bytes then .ok (.blob value.payload)
  else if value.type = Value.utf8 || value.type = Value.array || value.type = Value.object then
    .ok (.text value.payload)
  else
    .error (execFailure .unsupported Sqlite.mismatch "unsupported query parameter type")

/-- `esdb_query_bind_value`; `index` counts from one, as SQLite does. -/
def bindValue (p : Prepared C) (index : ℕ) (value : Option Value) : Except Failure Cell := do
  match value with
  | none => .error (execFailure .invalidArgument Sqlite.misuse "query parameter value is null")
  | some value =>
      let cell ← parameterCell value
      match p.bind index cell with
      | some code => .error (sqliteExecFailure code)
      | none => .ok cell

/-- The binding loop over the last `n` parameters. -/
def bindValues (p : Prepared C) (values : ℕ → Option Value) (i : ℕ) :
    ℕ → Except Failure (List Cell)
  | 0 => .ok []
  | n + 1 => do
      let cell ← bindValue p (i + 1) (values i)
      let rest ← bindValues p values (i + 1) n
      .ok (cell :: rest)

/-! ### Columns -/

def appendLe64 (bits : BitVec 64) : Bytes :=
  (List.range 8).map fun i => UInt8.ofNat (bits >>> (8 * i)).toNat

/-- The constructors `esdb_value_create_*`, with the text of their own failure. -/
def createValue (mem : CellMemory) (type : ℕ) (payload : Bytes) (message : String) :
    Except (Status × String) Value :=
  if !mem.value then .error (.outOfMemory, "value allocation failed")
  else if payload != [] && !mem.payload then .error (.outOfMemory, message)
  else .ok ⟨type, payload⟩

/-- How `esdb_query_column_value` reports the failure of a constructor. -/
def columnFailure (status : Status) (message : String) : Failure :=
  let code :=
    if status = .outOfMemory then Sqlite.nomem
    else if status = .invalidArgument then Sqlite.mismatch
    else Sqlite.error
  execFailure status code message

/-- The text of the failure when SQLite cannot materialize a column. -/
def unmaterialized (mem : CellMemory) : Cell → Option String
  | .text bytes =>
      if bytes != [] && !mem.column then some "SQLite could not materialize TEXT column" else none
  | .blob bytes =>
      if bytes != [] && !mem.column then some "SQLite could not materialize BLOB column" else none
  | _ => none

/-- The constructor a storage class goes to. -/
def createColumn (mem : CellMemory) : Cell → Except (Status × String) Value
  | .null => createValue mem Value.null [] ""
  | .integer bits =>
      createValue mem Value.int64 (appendLe64 bits) "int64 payload allocation failed"
  | .float bits =>
      createValue mem Value.double (appendLe64 bits) "double payload allocation failed"
  | .text bytes =>
      if !validUtf8 bytes then .error (.invalidArgument, "invalid UTF-8 payload")
      else createValue mem Value.utf8 bytes "text payload allocation failed"
  | .blob bytes => createValue mem Value.bytes bytes "byte payload allocation failed"

/-- `esdb_query_column_value`. -/
def columnValue (mem : CellMemory) (cell : Cell) : Except Failure Value :=
  match unmaterialized mem cell with
  | some message => .error (execFailure .outOfMemory Sqlite.nomem message)
  | none =>
      match createColumn mem cell with
      | .error (status, message) => .error (columnFailure status message)
      | .ok value => .ok value

/-- The column loop, from `column` on. -/
def decodeRow (mem : ℕ → CellMemory) (column : ℕ) : List Cell → Except Failure (List Value)
  | [] => .ok []
  | cell :: rest => do
      let value ← columnValue (mem column) cell
      let values ← decodeRow mem (column + 1) rest
      .ok (value :: values)

/-! ### Stepping -/

/-- Where the step loop stands when it is left: the rows counted, those the callback
was shown, and the failure that left it, if one did. -/
structure Stepped where
  rows : ℕ
  handed : List (List Value)
  failure : Option Failure

def outOfMemoryFailure : Failure :=
  execFailure .outOfMemory Sqlite.nomem "query row allocation failed"

def unexpectedFailure : Failure :=
  execFailure .internal Sqlite.error "unexpected exception while executing query"

/-- The step loop over the rows still to come; `deliver` is `deliver_rows`. -/
def stepRows (mem : Memory) (callback : ℕ → List Value → RowVerdict) :
    List (List Cell) → ℕ → Bool → List (List Value) → Stepped
  | [], rows, _, handed => ⟨rows, handed, none⟩
  | _ :: rest, rows, false, handed => stepRows mem callback rest (rows + 1) false handed
  | row :: rest, rows, true, handed =>
      match decodeRow (mem.cell rows) 0 row with
      | .error e => ⟨rows + 1, handed, some e⟩
      | .ok values =>
          match callback rows values with
          | .proceed => stepRows mem callback rest (rows + 1) true (handed ++ [values])
          | .stop => stepRows mem callback rest (rows + 1) false (handed ++ [values])
          | .badAlloc => ⟨rows + 1, handed ++ [values], some outOfMemoryFailure⟩
          | .throw => ⟨rows + 1, handed ++ [values], some unexpectedFailure⟩

/-! ### `esdb_query` -/

def blank (c : UInt8) : Bool :=
  c == 32 || c == 9 || c == 13 || c == 10 || c == 12 || c == 11

/-- `esdb_query_tail_is_empty`. -/
def tailIsEmpty (tail : Bytes) : Bool := tail.all blank

/-- `esdb_query` up to the first step: the compiled statement and what is bound. -/
def prepareCall (engine : Engine C) (call : Call) (content : C) :
    Except Failure (Prepared C × List Cell) :=
  let sql := call.sql.getD []
  if sql = [] || !validUtf8 sql || (call.parameterCount != 0 && call.parameters.isNone) ||
      intMax < call.parameterCount then
    .error (execFailure .invalidArgument Sqlite.misuse "invalid query arguments")
  else
    match engine content sql with
    | .error code => .error (sqliteExecFailure code)
    | .ok (none, _) =>
        .error (execFailure .invalidArgument Sqlite.misuse
          "esdb_query accepts exactly one SQL statement")
    | .ok (some p, tail) =>
        if !tailIsEmpty tail then
          .error (execFailure .invalidArgument Sqlite.misuse
            "esdb_query accepts exactly one SQL statement")
        else if p.parameters ≠ call.parameterCount then
          .error (execFailure .invalidArgument Sqlite.range
            "query parameter count does not match SQL placeholders")
        else do
          let cells ← bindValues p (call.parameters.getD fun _ => none) 0 call.parameterCount
          .ok (p, cells)

/-- The row and change counts, or the failure, with what the callback was shown. -/
structure Answer (C : Type) where
  outcome : Except Failure (ℕ × ℕ)
  state : State C
  handed : List (List Value)

/-- `esdb_query` from the first step on. A loop that is left early finalizes a
statement whose changes are already made. -/
def runPrepared (mem : Memory) (call : Call) (p : Prepared C) (cells : List Cell)
    (st : State C) : Answer C :=
  if !mem.vectors then ⟨.error outOfMemoryFailure, st.sync, []⟩
  else
    let x := p.run cells st.content
    let callback := (call.callback.getD fun _ _ _ => .stop) p.columns
    let stepped := stepRows mem callback x.rows 0 call.callback.isSome []
    match stepped.failure with
    | some e => ⟨.error e, { st with content := x.after }.sync, stepped.handed⟩
    | none =>
        match x.failure with
        | some code => ⟨.error (sqliteExecFailure code), (st.failed x).sync, stepped.handed⟩
        | none =>
            ⟨.ok (stepped.rows, if p.readonly then 0 else x.changes.toNat),
              { st with content := x.after }.sync, stepped.handed⟩

/-- `esdb_query`. -/
def query (engine : Engine C) (mem : Memory) (call : Call) (st : State C) : Answer C :=
  match prepareCall engine call st.content with
  | .error e => ⟨.error e, st, []⟩
  | .ok (p, cells) => runPrepared mem call p cells st

/-! ## The step loop -/

/-- The value a column of that storage class is handed over as. -/
def Cell.value : Cell → Value
  | .null => ⟨Value.null, []⟩
  | .integer bits => ⟨Value.int64, appendLe64 bits⟩
  | .float bits => ⟨Value.double, appendLe64 bits⟩
  | .text bytes => ⟨Value.utf8, bytes⟩
  | .blob bytes => ⟨Value.bytes, bytes⟩

theorem createValue_ok {mem : CellMemory} {type : ℕ} {payload : Bytes} {message : String}
    {value : Value} (h : createValue mem type payload message = .ok value) :
    value = ⟨type, payload⟩ := by
  unfold createValue at h
  split_ifs at h
  exact (Except.ok.inj h).symm

theorem createColumn_ok {mem : CellMemory} {cell : Cell} {value : Value}
    (h : createColumn mem cell = .ok value) : value = cell.value := by
  cases cell with
  | text bytes =>
      rw [createColumn] at h
      split_ifs at h
      exact createValue_ok h
  | null => exact createValue_ok h
  | integer bits => exact createValue_ok h
  | float bits => exact createValue_ok h
  | blob bytes => exact createValue_ok h

theorem columnValue_ok {mem : CellMemory} {cell : Cell} {value : Value}
    (h : columnValue mem cell = .ok value) : value = cell.value := by
  unfold columnValue at h
  split at h
  · exact absurd h (by simp)
  · split at h
    · exact absurd h (by simp)
    · next created =>
        rw [← Except.ok.inj h]
        exact createColumn_ok created

theorem decodeRow_ok {mem : ℕ → CellMemory} {column : ℕ} {row : List Cell} {values : List Value}
    (h : decodeRow mem column row = .ok values) : values = row.map Cell.value := by
  induction row generalizing column values with
  | nil => exact (Except.ok.inj h).symm
  | cons cell rest ih =>
      unfold decodeRow at h
      cases hc : columnValue (mem column) cell with
      | error e =>
          rw [hc] at h
          cases h
      | ok value =>
          cases hr : decodeRow mem (column + 1) rest with
          | error e =>
              rw [hc, hr] at h
              cases h
          | ok rest' =>
              rw [hc, hr] at h
              rw [← Except.ok.inj h, columnValue_ok hc, ih hr]
              rfl

section

variable (mem : Memory) (callback : ℕ → List Value → RowVerdict)

/-- The row decodes and the callback asks for more. -/
def Passes (n : ℕ) (row : List Cell) : Prop :=
  ∃ values, decodeRow (mem.cell n) 0 row = .ok values ∧ callback n values = .proceed

/-- The row does not decode, or the callback throws at it. -/
def Breaks (n : ℕ) (row : List Cell) : Prop :=
  ∀ values, decodeRow (mem.cell n) 0 row = .ok values →
    callback n values = .badAlloc ∨ callback n values = .throw

/-- Some row, the first being number `k`, breaks the loop after all before it passed. -/
def Broken (k : ℕ) (rows : List (List Cell)) : Prop :=
  ∃ n row, rows[n]? = some row ∧ Breaks mem callback (k + n) row ∧
    ∀ m < n, ∀ r, rows[m]? = some r → Passes mem callback (k + m) r

theorem not_broken_nil (k : ℕ) : ¬ Broken mem callback k [] := by
  rintro ⟨n, row, h, -⟩
  simp at h

theorem broken_of_breaks {k : ℕ} {row : List Cell} {rest : List (List Cell)}
    (h : Breaks mem callback k row) : Broken mem callback k (row :: rest) :=
  ⟨0, row, rfl, h, fun m hm => absurd hm (Nat.not_lt_zero m)⟩

theorem broken_cons {k : ℕ} {row : List Cell} {rest : List (List Cell)}
    (hp : Passes mem callback k row) :
    Broken mem callback k (row :: rest) ↔ Broken mem callback (k + 1) rest := by
  constructor
  · rintro ⟨n, r, hr, hb, hprev⟩
    cases n with
    | zero =>
        obtain ⟨values, hd, hv⟩ := hp
        obtain rfl := Option.some.inj hr
        rcases hb values hd with h | h <;> rw [Nat.add_zero, hv] at h <;> cases h
    | succ n =>
        refine ⟨n, r, hr, ?_, ?_⟩
        · rwa [Nat.add_right_comm, Nat.add_assoc]
        · intro m hm r' hr'
          have h := hprev (m + 1) (Nat.succ_lt_succ hm) r' hr'
          rwa [Nat.add_right_comm, Nat.add_assoc]
  · rintro ⟨n, r, hr, hb, hprev⟩
    refine ⟨n + 1, r, hr, ?_, ?_⟩
    · rwa [Nat.add_right_comm, Nat.add_assoc] at hb
    · intro m hm r' hr'
      cases m with
      | zero =>
          obtain rfl := Option.some.inj hr'
          exact hp
      | succ m =>
          have h := hprev m (Nat.lt_of_succ_lt_succ hm) r' hr'
          rwa [Nat.add_right_comm, Nat.add_assoc] at h

/-- A row at which the callback stops hides every later one. -/
theorem not_broken_of_stop {k : ℕ} {row : List Cell} {rest : List (List Cell)}
    {values : List Value} (hd : decodeRow (mem.cell k) 0 row = .ok values)
    (hs : callback k values = .stop) : ¬ Broken mem callback k (row :: rest) := by
  rintro ⟨n, r, hr, hb, hprev⟩
  cases n with
  | zero =>
      obtain rfl := Option.some.inj hr
      rcases hb values hd with h | h <;> rw [Nat.add_zero, hs] at h <;> cases h
  | succ n =>
      obtain ⟨values', hd', hv⟩ := hprev 0 (Nat.succ_pos n) row rfl
      obtain rfl := Except.ok.inj (hd.symm.trans hd')
      rw [Nat.add_zero, hs] at hv
      cases hv

end

/-- What the loop comes to: it is left early exactly when a row breaks it, counts
every row otherwise, and hands over the first rows in order. -/
structure Stepped.Correct (stepped : Stepped) (mem : Memory)
    (callback : ℕ → List Value → RowVerdict) (k : ℕ) (rows : List (List Cell))
    (handed : List (List Value)) : Prop where
  failure_iff : stepped.failure ≠ none ↔ Broken mem callback k rows
  rows_eq : stepped.failure = none → stepped.rows = k + rows.length
  handed_eq : ∃ vs, stepped.handed = handed ++ vs ∧ vs <+: rows.map (·.map Cell.value)

theorem stepRows_undelivered (mem : Memory) (callback : ℕ → List Value → RowVerdict)
    (rows : List (List Cell)) (k : ℕ) (handed : List (List Value)) :
    stepRows mem callback rows k false handed = ⟨k + rows.length, handed, none⟩ := by
  induction rows generalizing k with
  | nil => rfl
  | cons row rest ih =>
      rw [stepRows, ih, List.length_cons, Nat.add_right_comm, Nat.add_assoc]

theorem stepRows_correct (mem : Memory) (callback : ℕ → List Value → RowVerdict)
    (rows : List (List Cell)) (k : ℕ) (handed : List (List Value)) :
    (stepRows mem callback rows k true handed).Correct mem callback k rows handed := by
  induction rows generalizing k handed with
  | nil =>
      refine ⟨?_, fun _ => rfl, [], (List.append_nil _).symm, List.nil_prefix⟩
      exact ⟨fun h => absurd rfl h, fun h => absurd h (not_broken_nil mem callback k)⟩
  | cons row rest ih =>
      unfold stepRows
      cases hd : decodeRow (mem.cell k) 0 row with
      | error e =>
          have hb : Breaks mem callback k row := by
            intro values h
            rw [hd] at h
            cases h
          refine ⟨?_, fun h => absurd h (by simp), [], (List.append_nil _).symm, List.nil_prefix⟩
          exact ⟨fun _ => broken_of_breaks mem callback hb, fun _ => by simp⟩
      | ok values =>
          have hvs : values = row.map Cell.value := decodeRow_ok hd
          have hone : [values] <+: (row :: rest).map (·.map Cell.value) := by
            rw [hvs]
            exact ⟨rest.map (·.map Cell.value), rfl⟩
          have breaks (hv : callback k values = .badAlloc ∨ callback k values = .throw) :
              Broken mem callback k (row :: rest) := by
            apply broken_of_breaks
            intro values' h
            obtain rfl := Except.ok.inj (hd.symm.trans h)
            exact hv
          cases hv : callback k values with
          | proceed =>
              have hc := ih (k + 1) (handed ++ [values])
              obtain ⟨vs, hh, hpre⟩ := hc.handed_eq
              refine ⟨?_, ?_, values :: vs, ?_, ?_⟩
              · rw [broken_cons mem callback ⟨values, hd, hv⟩]
                simpa only [hv] using hc.failure_iff
              · intro h
                have := hc.rows_eq (by simpa only [hv] using h)
                simp only [hv, this, List.length_cons]
                omega
              · simp only [hv, hh, List.append_assoc, List.singleton_append]
              · rw [hvs, List.map_cons]
                exact List.prefix_cons_inj _ |>.mpr hpre
          | stop =>
              simp only [hv, stepRows_undelivered]
              refine ⟨?_, ?_, [values], rfl, hone⟩
              · exact ⟨fun h => absurd rfl h,
                  fun h => absurd h (not_broken_of_stop mem callback hd hv)⟩
              · intro _
                simp only [List.length_cons]
                omega
          | badAlloc =>
              simp only [hv]
              exact ⟨⟨fun _ => breaks (.inl hv), fun _ => by simp⟩, fun h => absurd h (by simp),
                [values], rfl, hone⟩
          | throw =>
              simp only [hv]
              exact ⟨⟨fun _ => breaks (.inr hv), fun _ => by simp⟩, fun h => absurd h (by simp),
                [values], rfl, hone⟩

/-! ## All or nothing -/

section

variable {engine : Engine C} {mem : Memory} {call : Call} {st : State C} {p : Prepared C}
  {cells : List Cell}

/-- Exactly one statement stands in the text, and the parameters are bound to it. -/
structure OneStatement (engine : Engine C) (call : Call) (content : C) (p : Prepared C)
    (cells : List Cell) : Prop where
  prepared : ∃ sql tail, call.sql = some sql ∧ engine content sql = .ok (some p, tail) ∧
    tailIsEmpty tail = true
  count : p.parameters = call.parameterCount
  bound : bindValues p (call.parameters.getD fun _ => none) 0 call.parameterCount = .ok cells

/-- What the contract promises of one call in autocommit. -/
structure AllOrNothing (engine : Engine C) (mem : Memory) (call : Call) (st : State C) : Prop where
  noTransaction : (query engine mem call st).state.transaction = none
  failed : ∀ e, (query engine mem call st).outcome = .error e →
    (query engine mem call st).state.content = st.content
  done : ∀ rows changes, (query engine mem call st).outcome = .ok (rows, changes) →
    ∃ p cells, OneStatement engine call st.content p cells ∧
      (p.run cells st.content).failure = none ∧
      (query engine mem call st).state.content = (p.run cells st.content).after ∧
      rows = (p.run cells st.content).rows.length ∧
      (query engine mem call st).handed <+: (p.run cells st.content).rows.map (·.map Cell.value)

/-- A row that the callback was still to see does not decode or is thrown at. -/
def Disturbed (mem : Memory) (call : Call) (p : Prepared C) (rows : List (List Cell)) : Prop :=
  ∃ callback, call.callback = some callback ∧ Broken mem (callback p.columns) 0 rows

theorem prepareCall_ok {content : C} (h : prepareCall engine call content = .ok (p, cells)) :
    OneStatement engine call content p cells := by
  unfold prepareCall at h
  cases hs : call.sql with
  | none =>
      rw [hs] at h
      exact absurd h (by simp)
  | some sql =>
      simp only [hs, Option.getD_some] at h
      split_ifs at h
      split at h
      · cases h
      · cases h
      · next q tail hq =>
          split_ifs at h with ht hc
          cases hb : bindValues q (call.parameters.getD fun _ => none) 0 call.parameterCount with
          | error e =>
              rw [hb] at h
              cases h
          | ok bound =>
              rw [hb] at h
              obtain ⟨rfl, rfl⟩ := Prod.mk.inj (Except.ok.inj h)
              exact ⟨⟨sql, tail, hs, hq, by simpa using ht⟩, not_not.mp hc, hb⟩

/-- The loop as `esdb_query` starts it, with or without a callback. -/
theorem stepRows_call (mem : Memory) (call : Call) (p : Prepared C) (rows : List (List Cell))
    {stepped : Stepped} (h : stepped = stepRows mem
      ((call.callback.getD fun _ _ _ => .stop) p.columns) rows 0 call.callback.isSome []) :
    (stepped.failure ≠ none ↔ Disturbed mem call p rows) ∧
      (stepped.failure = none → stepped.rows = rows.length) ∧
      stepped.handed <+: rows.map (·.map Cell.value) := by
  cases hc : call.callback with
  | none =>
      rw [hc, Option.isSome_none, stepRows_undelivered, Nat.zero_add] at h
      subst h
      refine ⟨⟨fun hf => absurd rfl hf, ?_⟩, fun _ => rfl, List.nil_prefix⟩
      rintro ⟨callback, hcb, -⟩
      rw [hc] at hcb
      cases hcb
  | some callback =>
      rw [hc, Option.isSome_some, Option.getD_some] at h
      have correct := stepRows_correct mem (callback p.columns) rows 0 []
      rw [← h] at correct
      obtain ⟨vs, hv, hpre⟩ := correct.handed_eq
      refine ⟨correct.failure_iff.trans ⟨fun hb => ⟨callback, hc, hb⟩, ?_⟩, ?_, ?_⟩
      · rintro ⟨callback', hcb, hb⟩
        obtain rfl := Option.some.inj (hc.symm.trans hcb)
        exact hb
      · intro hf
        rw [correct.rows_eq hf, Nat.zero_add]
      · rw [hv]
        exact hpre

/-- Everything the second half of the call can come to: it never stepped, it was
left early with the changes made, its last step failed, or it ran to completion. -/
inductive Ran (mem : Memory) (call : Call) (p : Prepared C) (cells : List Cell)
    (st : State C) : Answer C → Prop where
  | unstepped (e : Failure) : mem.vectors = false →
      Ran mem call p cells st ⟨.error e, st.sync, []⟩
  | disturbed (e : Failure) (handed : List (List Value)) : mem.vectors = true →
      Disturbed mem call p (p.run cells st.content).rows →
      Ran mem call p cells st
        ⟨.error e, { st with content := (p.run cells st.content).after }.sync, handed⟩
  | failed (e : Failure) (handed : List (List Value)) : mem.vectors = true →
      ¬ Disturbed mem call p (p.run cells st.content).rows →
      (p.run cells st.content).failure ≠ none →
      Ran mem call p cells st ⟨.error e, (st.failed (p.run cells st.content)).sync, handed⟩
  | done (changes : ℕ) (handed : List (List Value)) :
      ¬ Disturbed mem call p (p.run cells st.content).rows →
      (p.run cells st.content).failure = none →
      handed <+: (p.run cells st.content).rows.map (·.map Cell.value) →
      Ran mem call p cells st ⟨.ok ((p.run cells st.content).rows.length, changes),
        { st with content := (p.run cells st.content).after }.sync, handed⟩

theorem runPrepared_ran (mem : Memory) (call : Call) (p : Prepared C) (cells : List Cell)
    (st : State C) : Ran mem call p cells st (runPrepared mem call p cells st) := by
  unfold runPrepared
  cases hm : mem.vectors with
  | false => exact .unstepped _ hm
  | true =>
      simp only [Bool.not_true, Bool.false_eq_true, if_false]
      generalize hstep : stepRows mem ((call.callback.getD fun _ _ _ => .stop) p.columns)
        (p.run cells st.content).rows 0 call.callback.isSome [] = stepped
      obtain ⟨hiff, hrows, hpre⟩ := stepRows_call mem call p _ hstep.symm
      cases hs : stepped.failure with
      | some e =>
          apply Ran.disturbed e _ hm
          rw [← hiff, hs]
          simp
      | none =>
          have hd : ¬ Disturbed mem call p (p.run cells st.content).rows := by
            rw [← hiff, hs]
            simp
          cases hf : (p.run cells st.content).failure with
          | some code =>
              apply Ran.failed _ _ hm hd
              rw [hf]
              simp
          | none =>
              rw [hrows hs]
              exact .done _ _ hd hf hpre

theorem failed_transaction (h : st.transaction = none) (x : Execution C) :
    (st.failed x).transaction = none := by
  unfold State.failed
  rw [h]

theorem failed_content (h : st.transaction = none) (x : Execution C) :
    (st.failed x).content = x.kept := by
  unfold State.failed
  rw [h]

theorem Ran.transaction {answer : Answer C} (ran : Ran mem call p cells st answer)
    (h : st.transaction = none) : answer.state.transaction = none := by
  cases ran with
  | unstepped e hm => exact h
  | disturbed e handed hm hd => exact h
  | failed e handed hm hd hf => exact failed_transaction h _
  | done changes handed hd hf hpre => exact h

theorem query_refused {e : Failure} (ha : prepareCall engine call st.content = .error e) :
    query engine mem call st = ⟨.error e, st, []⟩ := by
  unfold query
  rw [ha]

theorem query_prepared (ha : prepareCall engine call st.content = .ok (p, cells)) :
    query engine mem call st = runPrepared mem call p cells st := by
  unfold query
  rw [ha]

/-- No change of this statement outlives a failure of its own: a statement left at a
row that does not decode or is thrown at has made none, and neither has one whose
step fails. -/
structure Harmless (mem : Memory) (call : Call) (p : Prepared C) (cells : List Cell)
    (content : C) : Prop where
  disturbed : Disturbed mem call p (p.run cells content).rows →
    (p.run cells content).after = content
  failed : ¬ Disturbed mem call p (p.run cells content).rows →
    (p.run cells content).failure ≠ none → (p.run cells content).kept = content

theorem Ran.harmless {answer : Answer C} (ran : Ran mem call p cells st answer)
    (h : st.transaction = none) (hm : mem.vectors = true)
    (unchanged : ∀ e, answer.outcome = .error e → answer.state.content = st.content) :
    Harmless mem call p cells st.content := by
  cases ran with
  | unstepped e hv =>
      rw [hm] at hv
      cases hv
  | disturbed e handed hv hd =>
      exact ⟨fun _ => unchanged e rfl, fun hn => absurd hd hn⟩
  | failed e handed hv hd hf =>
      refine ⟨fun hd' => absurd hd' hd, fun _ _ => ?_⟩
      exact (failed_content h _).symm.trans (unchanged e rfl)
  | done changes handed hd hf hpre =>
      exact ⟨fun hd' => absurd hd' hd, fun _ hf' => absurd hf hf'⟩

theorem Ran.unchanged {answer : Answer C} (ran : Ran mem call p cells st answer)
    (h : st.transaction = none)
    (harmless : mem.vectors = true → Harmless mem call p cells st.content) {e : Failure}
    (he : answer.outcome = .error e) : answer.state.content = st.content := by
  cases ran with
  | unstepped e hm => rfl
  | disturbed e handed hm hd => exact (harmless hm).disturbed hd
  | failed e handed hm hd hf => exact (failed_content h _).trans ((harmless hm).failed hd hf)
  | done changes handed hd hf hpre => cases he

/-- In autocommit `esdb_query` is all or nothing exactly when the statement it
compiles and binds is harmless. -/
theorem all_or_nothing_iff (engine : Engine C) (mem : Memory) (call : Call) (st : State C)
    (h : st.transaction = none) :
    AllOrNothing engine mem call st ↔
      ∀ p cells, prepareCall engine call st.content = .ok (p, cells) → mem.vectors = true →
        Harmless mem call p cells st.content := by
  constructor
  · intro all p cells ha hm
    have ran := runPrepared_ran mem call p cells st
    rw [← query_prepared ha] at ran
    exact ran.harmless h hm all.failed
  · intro harmless
    cases ha : prepareCall engine call st.content with
    | error e =>
        constructor
        · rw [query_refused ha]
          exact h
        · intro e' _
          rw [query_refused ha]
        · intro rows changes ho
          rw [query_refused ha] at ho
          cases ho
    | ok prepared =>
        obtain ⟨p, cells⟩ := prepared
        have ran := runPrepared_ran mem call p cells st
        rw [← query_prepared ha] at ran
        constructor
        · exact ran.transaction h
        · intro e he
          exact ran.unchanged h (harmless p cells ha) he
        · intro rows changes ho
          refine ⟨p, cells, prepareCall_ok ha, ?_⟩
          generalize query engine mem call st = answer at ran ho ⊢
          cases ran with
          | unstepped e hm => cases ho
          | disturbed e handed hm hd => cases ho
          | failed e handed hm hd hf => cases ho
          | done changes' handed hd hf hpre =>
              exact ⟨hf, rfl, (Prod.mk.inj (Except.ok.inj ho)).1.symm, hpre⟩

/-- A reading statement is harmless whatever the callback does. -/
theorem harmless_of_readonly {content : C} (h : p.readonly = true) :
    Harmless mem call p cells content :=
  ⟨fun _ => (p.reads h cells content).1, fun _ _ => (p.reads h cells content).2⟩

/-- Without a callback only a step that fails with changes made can do harm. -/
theorem harmless_without_callback {content : C} (hc : call.callback = none)
    (hf : (p.run cells content).failure = none) : Harmless mem call p cells content := by
  constructor
  · rintro ⟨callback, h, -⟩
    rw [hc] at h
    cases h
  · intro _ h
    exact absurd hf h

end

/-! ### A modifying statement that returns its rows -/

/-- A table of identifiers and the statement that adds one and returns it. -/
def insertReturning : Prepared (List (BitVec 64)) where
  parameters := 1
  columns := [[105, 100]]
  readonly := false
  bind := fun _ _ => none
  run := fun cells ids =>
    match cells with
    | [.integer id] =>
        if id ∈ ids then ⟨[], some 1555, ids, ids, false, 0⟩
        else ⟨[[.integer id]], none, ids ++ [id], ids, false, 1⟩
    | _ => ⟨[], some 20, ids, ids, false, 0⟩
  width := by
    intro cells ids row h
    split at h
    · split_ifs at h <;> simp_all
    · simp at h
  reads := by simp

/-- The bytes of `INSERT INTO t VALUES(?1) RETURNING id`. -/
def insertSql : Bytes :=
  "INSERT INTO t VALUES(?1) RETURNING id".toList.map fun c => UInt8.ofNat c.toNat

def insertEngine : Engine (List (BitVec 64)) := fun _ sql =>
  if sql = insertSql then .ok (some insertReturning, []) else .error 1

def insertCall (verdict : RowVerdict) : Call where
  sql := some insertSql
  parameters := some fun _ => some ⟨Value.int64, [7, 0, 0, 0, 0, 0, 0, 0]⟩
  parameterCount := 1
  callback := some fun _ _ _ => verdict

def plenty : Memory := ⟨true, fun _ _ => ⟨true, true, true⟩⟩

def emptyTable : State (List (BitVec 64)) := ⟨[], none, .opened 0⟩

theorem insertSql_valid : validUtf8 insertSql = true := by decide +kernel

theorem insertSql_ne_nil : insertSql ≠ [] := by decide +kernel

theorem prepareCall_insert (verdict : RowVerdict) (ids : List (BitVec 64)) :
    prepareCall insertEngine (insertCall verdict) ids = .ok (insertReturning, [.integer 7]) := by
  have hb : bindValues insertReturning (fun _ => some ⟨Value.int64, [7, 0, 0, 0, 0, 0, 0, 0]⟩) 0 1 =
      .ok [.integer 7] := by rfl
  have hp : insertReturning.parameters = 1 := rfl
  simp only [prepareCall, insertCall, insertEngine, insertSql_valid, insertSql_ne_nil, tailIsEmpty,
    intMax, Option.getD_some, hp, hb, if_true]
  rfl

/-- The insertion stays although the call fails. -/
theorem insert_outlives_failure : emptyTable.transaction = none ∧
    ¬ AllOrNothing insertEngine plenty (insertCall .throw) emptyTable := by
  refine ⟨rfl, fun all => ?_⟩
  have hq : query insertEngine plenty (insertCall .throw) emptyTable =
      runPrepared plenty (insertCall .throw) insertReturning [.integer 7] emptyTable :=
    query_prepared (prepareCall_insert .throw [])
  have h := all.failed unexpectedFailure (by rw [hq]; rfl)
  rw [hq] at h
  exact absurd h (by decide +kernel)

theorem insert_all_or_nothing :
    AllOrNothing insertEngine plenty (insertCall .stop) emptyTable := by
  apply (all_or_nothing_iff insertEngine plenty (insertCall .stop) emptyTable rfl).mpr
  intro p cells h _
  obtain ⟨rfl, rfl⟩ := Prod.mk.inj (Except.ok.inj ((prepareCall_insert .stop []).symm.trans h))
  constructor
  · rintro ⟨callback, hc, hb⟩
    obtain rfl := Option.some.inj hc
    have hn : ¬ Broken plenty (fun _ _ => .stop) 0 [[.integer 7]] :=
      not_broken_of_stop plenty _ (by rfl) rfl
    exact absurd hb hn
  · intro _ hf
    exact absurd rfl hf

end Esdb.Query
