import Esdb.SqliteApi

/-!
# Errors, statements and scalar queries of the runtime

How the runtime reports a failing call of SQLite, guards a statement and reads a number, with
one rule for each: where the connection is open the calls are allowed, whatever SQLite answers,
and nothing is left behind.
-/
namespace Esdb.RuntimeCalls

open ErrorText Dialogue SqliteApi

/-- What is fixed when the runtime is built. -/
structure Build where
  errstr : ℤ → CString
  zipvfs : Bool
  zstd : Bool
  zstdMinLevel : ℤ
  zstdMaxLevel : ℤ
  zstdDefaultLevel : ℤ

/-- A status that is not `ESDB_OK`, and what was written to the caller's `esdb_error`. -/
structure Failed where
  status : Status
  error : Option EsdbError

abbrev Asking (α : Type) := Program Call.Answer α

abbrev Try (α : Type) := Attempt Call.Answer Failed α

def call (c : Call) : Asking c.Answer := Program.one c

section

variable (B : Build) (wanted : Bool)

/-- `set_error` with a target. The text of SQLite is asked for where it is used. -/
def setError (status : Status) (phase : Phase) (db : Option ℕ) (code : ℤ)
    (message : Option CString) : Asking EsdbError :=
  match db with
  | none => pure (ErrorText.setError B.errstr status phase none code message)
  | some db => do
      let extended ← call (.extendedErrcode db)
      if blank message then
        let text ← call (.errmsg db)
        pure (ErrorText.setError B.errstr status phase (some ⟨extended, text⟩) code message)
      else
        pure (ErrorText.setError B.errstr status phase (some ⟨extended, literal ""⟩) code message)

/-- `set_error` on the caller's `error`, which may be null, and the return behind it. -/
def refuse {α : Type} (status : Status) (phase : Phase) (db : Option ℕ) (code : ℤ)
    (message : Option CString) : Try α :=
  if wanted then do
    let error ← Attempt.lift (setError B status phase db code message)
    .fail _ ⟨status, some error⟩
  else .fail _ ⟨status, none⟩

/-- `fail`, which composes the error in any case. -/
def fail {α : Type} (status : Status) (phase : Phase) (db : Option ℕ) (code : ℤ)
    (message : Option CString) : Try α := do
  let error ← Attempt.lift (setError B status phase db code message)
  .fail _ ⟨status, if wanted then some error else none⟩

/-- `fail` with the status of a result code. -/
def failSqlite {α : Type} (phase : Phase) (db : ℕ) (e : ErrorCode) (message : Option CString) :
    Try α :=
  fail B wanted (mapSqliteStatus e.code) phase (some db) e.code message

/-- `Statement::prepare` on a guard that holds nothing. -/
def prepare (db : ℕ) (sql : String) (phase : Phase) : Try ℕ := do
  match ← Attempt.lift (call (.prepareV3 db sql)) with
  | .ok s => pure s
  | .error e => failSqlite B wanted phase db e none

/-- `Statement::step`; a row is `true`. -/
def step (db s : ℕ) (phase : Phase) : Try Bool := do
  match ← Attempt.lift (call (.step s)) with
  | .row => pure true
  | .done => pure false
  | .failed e => failSqlite B wanted phase db e none

/-- A guarded statement, which is finalized at the end of its scope. -/
def withStatement {α : Type} (db : ℕ) (sql : String) (phase : Phase) (body : ℕ → Try α) :
    Try α := do
  let s ← prepare B wanted db sql phase
  (body s).andFinally (call (.finalize s))

def execSql (db : ℕ) (sql : String) (phase : Phase) : Try Unit := do
  match ← Attempt.lift (call (.exec db sql)) with
  | .ok message => Attempt.lift (call (.free message))
  | .failed e message =>
      (failSqlite B wanted phase db e message).andFinally (call (.free message))

def queryInteger64 (db : ℕ) (sql : String) (phase : Phase) : Try ℤ :=
  withStatement B wanted db sql phase fun s => do
    if ← step B wanted db s phase then Attempt.lift (call (.columnInt64 s))
    else
      fail B wanted .sqlite phase (some db) Sqlite.error
        (some (literal "scalar query returned no row"))

def queryU64 (db : ℕ) (sql : String) (phase : Phase) : Try ℕ := do
  let value ← queryInteger64 B wanted db sql phase
  if value < 0 then
    fail B wanted .sqlite phase (some db) Sqlite.range
      (some (literal "negative value where unsigned scalar was expected"))
  else pure value.toNat

def queryI64 (db : ℕ) (sql : String) (phase : Phase) : Try ℤ :=
  queryInteger64 B wanted db sql phase

end

/-! ## What they leave behind -/

variable {B : Build} {wanted : Bool} {w : Held} {α : Type} {db : ℕ} {d : Option ℕ} {c : Conn}
  {sql : String} {status : Status} {phase : Phase} {code : ℤ} {message : Option CString}
  {e : ErrorCode} {ok : α → Held → Prop} {failed : Failed → Held → Prop}

@[simp] theorem keeps_call {q : Call} {post : q.Answer → Held → Prop} :
    Keeps sqlite (call q) post w ↔ May w q ∧ ∀ r w', Replies w q r w' → post r w' := Iff.rfl

/-- The connection an error is asked of is open, where there is one. -/
def Open (w : Held) (d : Option ℕ) : Prop := ∀ db, d = some db → (w.conn db).isSome

theorem open_none : Open w none := fun _ h => by cases h

theorem open_some (h : w.conn db = some c) : Open w (some db) := by
  rintro _ ⟨rfl⟩
  rw [h]
  rfl

theorem setConn_same (h : w.conn db = some c) : w.setConn db (some c) = w := by
  rw [Held.setConn, ← h, Function.update_eq_self]

theorem keeps_setError {post : EsdbError → Held → Prop} (hd : Open w d)
    (h : ∀ error, error.status = status → post error w) :
    Keeps sqlite (setError B status phase d code message) post w := by
  cases d with
  | none => exact h _ rfl
  | some db =>
      simp only [setError, keeps_bind, keeps_call]
      refine ⟨hd db rfl, ?_⟩
      rintro extended _ rfl
      split
      · simp only [keeps_bind, keeps_call]
        refine ⟨hd db rfl, ?_⟩
        rintro text _ rfl
        exact h _ rfl
      · exact h _ rfl

theorem meets_refuse (hd : Open w d) (h : ∀ error, failed ⟨status, error⟩ w) :
    Meets sqlite (refuse B wanted status phase d code message : Try α) ok failed w := by
  cases wanted with
  | false => exact h none
  | true =>
      refine Meets.bind (meets_lift.mpr (keeps_setError hd fun error _ => ?_))
      exact h (some error)

theorem meets_fail (hd : Open w d) (h : ∀ error, failed ⟨status, error⟩ w) :
    Meets sqlite (fail B wanted status phase d code message : Try α) ok failed w := by
  refine Meets.bind (meets_lift.mpr (keeps_setError hd fun error _ => ?_))
  exact h _

theorem meets_failSqlite (hc : w.conn db = some c)
    (h : ∀ error, failed ⟨mapSqliteStatus e.code, error⟩ w) :
    Meets sqlite (failSqlite B wanted phase db e message : Try α) ok failed w :=
  meets_fail (open_some hc) h

theorem meets_prepare {ok : ℕ → Held → Prop} (hc : w.conn db = some c)
    (hok : ∀ s rows, w.stmt s = none → Rows sql c rows →
      ok s (w.setStmt s (some ⟨db, none, rows⟩)))
    (hfailed : ∀ failure, failed failure w) :
    Meets sqlite (prepare B wanted db sql phase) ok failed w := by
  refine Meets.bind (meets_lift.mpr ⟨by simp [May, hc], ?_⟩)
  intro r w' hreply
  cases r with
  | ok s =>
      obtain ⟨hs, c', rows, hc', hrows, rfl⟩ := hreply
      cases hc.symm.trans hc'
      exact hok s rows hs hrows
  | error e =>
      cases hreply
      exact meets_failSqlite hc fun _ => hfailed _

/-- A statement on an open connection, and the rows it has still got. -/
structure At (w : Held) (s db : ℕ) (row : Option Cell) (rest : List Cell) : Prop where
  stmt : w.stmt s = some ⟨db, row, rest⟩
  conn : (w.conn db).isSome

theorem meets_step {ok : Bool → Held → Prop} {s : ℕ} {row : Option Cell} {rest : List Cell}
    (hs : At w s db row rest)
    (hrow : ∀ r rest', rest = r :: rest' → ok true (w.setStmt s (some ⟨db, some r, rest'⟩)))
    (hdone : rest = [] → ok false (w.setStmt s (some ⟨db, none, []⟩)))
    (hfailed : ∀ failure, failed failure (w.setStmt s (some ⟨db, none, rest⟩))) :
    Meets sqlite (step B wanted db s phase) ok failed w := by
  obtain ⟨hstmt, hconn⟩ := hs
  refine Meets.bind (meets_lift.mpr ⟨by simp [May, hstmt], ?_⟩)
  intro r w' hreply
  cases r with
  | row =>
      obtain ⟨st, r, rest', hst, hrest, rfl⟩ := hreply
      cases hstmt.symm.trans hst
      exact hrow r rest' hrest
  | done =>
      obtain ⟨st, hst, hrest, rfl⟩ := hreply
      cases hstmt.symm.trans hst
      exact hdone hrest
  | failed e =>
      obtain ⟨st, hst, rfl⟩ := hreply
      cases hstmt.symm.trans hst
      obtain ⟨c, hc⟩ := Option.isSome_iff_exists.mp hconn
      exact meets_failSqlite hc fun _ => hfailed _

/-- The scope of a statement is left as it was entered. -/
theorem meets_withStatement {body : ℕ → Try α} (hc : w.conn db = some c)
    (hbody : ∀ s rows, w.stmt s = none → Rows sql c rows →
      Meets sqlite (body s)
        (fun a w' => (∃ row rest, w' = w.setStmt s (some ⟨db, row, rest⟩)) ∧ ok a w)
        (fun e w' => (∃ row rest, w' = w.setStmt s (some ⟨db, row, rest⟩)) ∧ failed e w)
        (w.setStmt s (some ⟨db, none, rows⟩)))
    (hfailed : ∀ failure, failed failure w) :
    Meets sqlite (withStatement B wanted db sql phase body) ok failed w := by
  refine Meets.bind (meets_prepare hc (fun s rows hs hrows => ?_) hfailed)
  -- finalizing gives back the statement that was prepared
  have hback : ∀ st : Stmt, (w.setStmt s (some st)).setStmt s none = w := fun st => by
    simp [Held.setStmt, ← hs]
  have hmay : ∀ st : Stmt, May (w.setStmt s (some st)) (.finalize s) := fun st => by
    simp [May]
  refine Meets.andFinally ((hbody s rows hs hrows).mono ?_ ?_)
  · rintro a _ ⟨⟨row, rest, rfl⟩, h⟩
    refine ⟨hmay _, ?_⟩
    rintro r _ rfl
    rwa [hback]
  · rintro e _ ⟨⟨row, rest, rfl⟩, h⟩
    refine ⟨hmay _, ?_⟩
    rintro r _ rfl
    rwa [hback]

theorem meets_execSql {ok : Unit → Held → Prop} (hc : w.conn db = some c)
    (hok : ∀ c', Touches sql c c' → ok () (w.setConn db (some c')))
    (hfailed : ∀ failure c', Touches sql c c' → failed failure (w.setConn db (some c'))) :
    Meets sqlite (execSql B wanted db sql phase) ok failed w := by
  refine Meets.bind (meets_lift.mpr ⟨by simp [May, hc], ?_⟩)
  rintro r _ ⟨c₁, c', hc₁, htouch, rfl⟩
  cases hc.symm.trans hc₁
  -- the text of the error is freed in both cases
  have hfree : ∀ (message : Option CString) (post : Held → Prop),
      post (w.setConn db (some c')) →
      Keeps sqlite (call (.free message)) (fun _ => post)
        { w.setConn db (some c') with
          messages := w.messages + if message.isSome then 1 else 0 } := by
    intro message post hpost
    refine ⟨fun h => by simp [h], ?_⟩
    rintro r _ rfl
    change post _
    simpa [Held.setConn] using hpost
  cases r with
  | ok message => exact meets_lift.mpr (hfree message (ok ()) (hok c' htouch))
  | failed e message =>
      refine Meets.andFinally (meets_failSqlite (c := c') ?_ fun error => ?_)
      · exact Held.setConn_self ..
      · exact hfree message _ (hfailed _ c' htouch)

theorem at_setStmt (hc : w.conn db = some c) (s : ℕ) (row : Option Cell) (rest : List Cell) :
    At (w.setStmt s (some ⟨db, row, rest⟩)) s db row rest :=
  ⟨by simp, by simp [hc]⟩

/-- A number that is read is the one the connection has. -/
theorem meets_queryInteger64 {ok : ℤ → Held → Prop} (hc : w.conn db = some c)
    (hok : ∀ n, (∀ s, sql = readSql s → s.textual = false → n = c.number s) → ok n w)
    (hfailed : ∀ failure, failed failure w) :
    Meets sqlite (queryInteger64 B wanted db sql phase) ok failed w := by
  refine meets_withStatement hc (fun s rows hs hrows => ?_) hfailed
  refine Meets.bind (meets_step (at_setStmt hc s none rows) ?_ ?_ ?_)
  · rintro r rest rfl
    rw [Held.setStmt_setStmt, if_pos rfl]
    refine meets_lift.mpr ⟨⟨⟨db, some r, rest⟩, by simp, rfl⟩, ?_⟩
    rintro n _ ⟨⟨st, r', hst, hr', hn⟩, rfl⟩
    refine ⟨⟨_, _, rfl⟩, hok n fun setting hsql htext => ?_⟩
    rw [Held.setStmt_self, Option.some.injEq] at hst
    subst hst
    cases hr'
    have hcell : r = c.cell setting := by
      rcases hrows.1 setting hsql with h | ⟨-, h⟩
      · exact (List.cons.inj h).1
      · cases h
    exact hn _ (by rw [hcell, Conn.cell, htext]; rfl)
  · rintro rfl
    rw [Held.setStmt_setStmt, if_neg (by decide)]
    exact meets_fail (open_some (c := c) hc) fun _ => ⟨⟨_, _, rfl⟩, hfailed _⟩
  · intro failure
    rw [Held.setStmt_setStmt]
    exact ⟨⟨_, _, rfl⟩, hfailed _⟩

theorem meets_queryI64 {ok : ℤ → Held → Prop} (hc : w.conn db = some c)
    (hok : ∀ n, (∀ s, sql = readSql s → s.textual = false → n = c.number s) → ok n w)
    (hfailed : ∀ failure, failed failure w) :
    Meets sqlite (queryI64 B wanted db sql phase) ok failed w :=
  meets_queryInteger64 hc hok hfailed

theorem meets_queryU64 {ok : ℕ → Held → Prop} (hc : w.conn db = some c)
    (hok : ∀ n : ℕ, (∀ s, sql = readSql s → s.textual = false → (n : ℤ) = c.number s) → ok n w)
    (hfailed : ∀ failure, failed failure w) :
    Meets sqlite (queryU64 B wanted db sql phase) ok failed w := by
  refine Meets.bind (meets_queryInteger64 hc (fun n hn => ?_) hfailed)
  split
  · exact meets_fail (open_some hc) fun _ => hfailed _
  · refine meets_pure.mpr (hok _ fun s hsql htext => ?_)
    rw [Int.toNat_of_nonneg (by omega)]
    exact hn s hsql htext

/-! ## Calls that succeed -/

section

variable {w' w'' : Held}

end

/-! ## Connections that come and go -/

/-- Nothing more is held than before, but connections that SQLite has refused to close. -/
structure Released (w w' : Held) : Prop where
  records : w'.records = w.records
  messages : w'.messages = w.messages
  stmt : w'.stmt = w.stmt
  backup : w'.backup = w.backup
  conn : ∀ db, w'.conn db = w.conn db ∨
    w.conn db = none ∧ ∃ c, w'.conn db = some c ∧ c.refused = true

theorem Released.refl (w : Held) : Released w w := ⟨rfl, rfl, rfl, rfl, fun _ => .inl rfl⟩

theorem released_closed (w : Held) (c : Conn) :
    Released w { w with closed := w.closed ++ [c] } := ⟨rfl, rfl, rfl, rfl, fun _ => .inl rfl⟩

theorem released_refused (hfresh : w.conn db = none) (c : Conn) :
    Released w (w.setConn db (some { c with refused := true })) := by
  refine ⟨rfl, rfl, rfl, rfl, fun db' => ?_⟩
  by_cases hne : db' = db
  · subst hne
    exact .inr ⟨hfresh, _, Held.setConn_self .., rfl⟩
  · exact .inl (Function.update_of_ne hne ..)

/-- A connection that was opened since `w` is closed, or SQLite refuses. -/
theorem keeps_closeV2 (hfresh : w.conn db = none) (howned : w.Owned)
    {post : Except ErrorCode Unit → Held → Prop}
    (hok : post (.ok ()) { w with closed := w.closed ++ [c] })
    (hrefused : ∀ e, post (.error e) (w.setConn db (some { c with refused := true }))) :
    Keeps sqlite (call (.closeV2 db)) post (w.setConn db (some c)) := by
  have hidle : (w.setConn db (some c)).Idle db := howned.idle hfresh
  have hback : (w.setConn db (some c)).setConn db none = w := by
    simp [Held.setConn, ← hfresh]
  refine keeps_call.mpr ⟨⟨by simp, hidle⟩, fun r w' hreply => ?_⟩
  cases r with
  | ok u =>
      obtain ⟨c', hc', rfl⟩ := hreply
      rw [Held.setConn_self, Option.some.injEq] at hc'
      rw [hback, ← hc']
      exact hok
  | error e =>
      obtain ⟨c', hc', rfl⟩ := hreply
      rw [Held.setConn_self, Option.some.injEq] at hc'
      rw [Held.setConn_setConn, ← hc']
      exact hrefused e

end Esdb.RuntimeCalls
