import Esdb.RuntimeOpen

/-!
# Checking and copying a database

`esdb_integrity_check` goes through all rows of a check, `esdb_backup_to` copies a database into
a new file and waits for others a bounded number of times. A file with problems is never found
sound, a backup that succeeds holds what the database held, and neither leaves anything open.
-/
namespace Esdb.RuntimeMaintenance

open ErrorText Dialogue SqliteApi RuntimeCalls StorageProvider RuntimeOpen

section

variable (B : Build) (wanted : Bool)

/-! ## Integrity check -/

/-- `strncpy` into a buffer of the capacity of a message. -/
def cut (text : CString) : CString :=
  ⟨text.bytes.take (messageCapacity - 1), fun h => text.terminated (List.mem_of_mem_take h)⟩

/-- The text of the current row. -/
def rowText (s : ℕ) : Asking (Option CString) := call (.columnText s)

/-- The loop over the rows: whether all were `ok`, and the first problem with a text. `fuel` is
the number of steps it may take. -/
def checkRows (db s : ℕ) : ℕ → Bool → CString → Try (Option (Bool × CString))
  | 0, _, _ => pure none
  | fuel + 1, ok, problem => do
      if ← step B wanted db s .integrity then
        match ← Attempt.lift (rowText s) with
        | none => checkRows db s fuel false problem
        | some text =>
            if text.bytes = (literal "ok").bytes then checkRows db s fuel ok problem
            else checkRows db s fuel false (if problem.bytes = [] then cut text else problem)
      else pure (some (ok, problem))

def checkSql (quick : Bool) : String :=
  if quick then "PRAGMA quick_check;" else "PRAGMA integrity_check;"

/-- `esdb_integrity_check`; out of fuel it has no result. -/
def integrityCheck (fuel : ℕ) (database : Database) (quick : Bool) : Try (Option Unit) :=
  withStatement B wanted database.handle (checkSql quick) .integrity fun s => do
    match ← checkRows B wanted database.handle s fuel true (literal "") with
    | none => pure none
    | some (ok, problem) =>
        if ok then pure (some ())
        else
          fail B wanted .corrupt .integrity (some database.handle) Sqlite.corrupt
            (some (if problem.bytes = [] then literal "SQLite integrity check failed" else problem))

/-! ## Backup -/

/-- `SQLITE_OPEN_READWRITE | SQLITE_OPEN_CREATE | SQLITE_OPEN_FULLMUTEX`. -/
def backupFlags : UInt32 := 2 ||| 4 ||| 0x10000

/-- The loop of steps: how the last one ended. -/
def backupSteps (backup : ℕ) : ℕ → ℕ → Asking (Option (Except ErrorCode Unit))
  | 0, _ => pure none
  | fuel + 1, retries => do
      match ← call (.backupStep backup (-1)) with
      | .done => pure (some (.ok ()))
      | .more => backupSteps backup fuel retries
      | .failed e =>
          -- SQLITE_BUSY and SQLITE_LOCKED
          if e.code = 5 ∨ e.code = 6 then
            if 200 < retries + 1 then pure (some (.error e))
            else do
              call (.sleep 10)
              backupSteps backup fuel (retries + 1)
          else pure (some (.error e))

/-- Closes a connection whose refusal is ignored. -/
def closeQuietly (db : ℕ) : Asking Unit := do
  let _ ← call (.closeV2 db)
  pure ()

/-- The copy between two open connections, and the end of the target's. -/
def copyInto (fuel source target : ℕ) : Try (Option Unit) := do
  match ← Attempt.lift (call (.backupInit target source)) with
  | none => do
      let e ← Attempt.lift (call (.errcode target))
      (failSqlite B wanted .backup target e none).andFinally (closeQuietly target)
  | some backup => do
      match ← Attempt.lift (backupSteps backup fuel 0) with
      | none => pure none
      | some rc => do
          let finished ← Attempt.lift (call (.backupFinish backup))
          match (match finished with
            | .error e => .error e
            | .ok _ => rc : Except ErrorCode Unit) with
          | .error e =>
              (failSqlite B wanted .backup target e none).andFinally (closeQuietly target)
          | .ok _ =>
              match ← Attempt.lift (call (.closeV2 target)) with
              | .ok _ => pure (some ())
              | .error e =>
                  failSqlite B wanted .backup target e
                    (some (literal "failed to close backup database"))

/-- `esdb_backup_to`. -/
def backupTo (fuel : ℕ) (database : Database) (targetPath : Option CString) : Try (Option Unit) :=
  let missing : Try (Option Unit) :=
    fail B wanted .invalidArgument .backup (some database.handle) Sqlite.misuse
      (some (literal "database and target path are required"))
  match targetPath with
  | none => missing
  | some path =>
      if path.bytes = [] then missing
      else do
        match ← Attempt.lift (call (.openV2 path backupFlags none)) with
        | .failed e none => fail B wanted (mapSqliteStatus e.code) .backup none e.code none
        | .failed e (some target) =>
            (failSqlite B wanted .backup target e none).andFinally (closeQuietly target)
        | .ok target => copyInto B wanted fuel database.handle target

end

variable {B : Build} {wanted : Bool} {w : Held} {db s : ℕ} {c : Conn} {fuel : ℕ}

/-! ## What a check finds -/

theorem cString_ext {a b : CString} (h : a.bytes = b.bytes) : a = b := by
  cases a
  cases b
  cases h
  rfl

/-- What the loop over the rows says of them: all were `ok` only if they were, and with a step for
each and one more it comes to an end. -/
structure Checked (rest : List Cell) (ok : Bool) (fuel : ℕ) (r : Option (Bool × CString)) :
    Prop where
  ended : rest.length < fuel → r ≠ none
  sound : ∀ problem, r = some (true, problem) →
    ok = true ∧ ∀ t, .text t ∈ rest → t = literal "ok"

theorem Checked.failed {rest : List Cell} {cell : Cell} {ok : Bool} {r : Option (Bool × CString)}
    (h : Checked rest false fuel r) : Checked (cell :: rest) ok (fuel + 1) r where
  ended := fun hfuel => h.ended (Nat.lt_of_succ_lt_succ hfuel)
  sound := fun problem hr => (Bool.false_ne_true (h.sound problem hr).1).elim

theorem meets_checkRows (hc : w.conn db = some c) {rest : List Cell} {row : Option Cell} {ok : Bool}
    {problem : CString} :
    Meets sqlite (checkRows B wanted db s fuel ok problem)
      (fun r w' => (∃ row rest, w' = w.setStmt s (some ⟨db, row, rest⟩)) ∧ Checked rest ok fuel r)
      (fun _ w' => ∃ row rest, w' = w.setStmt s (some ⟨db, row, rest⟩))
      (w.setStmt s (some ⟨db, row, rest⟩)) := by
  induction fuel generalizing rest row ok problem with
  | zero =>
      refine meets_pure.mpr ⟨⟨_, _, rfl⟩, fun h => absurd h (Nat.not_lt_zero _), ?_⟩
      exact fun _ h => by cases h
  | succ fuel ih =>
      refine Meets.bind (meets_step (at_setStmt hc s row rest) ?_ ?_ ?_)
      · rintro r rest' rfl
        rw [Held.setStmt_setStmt, if_pos rfl]
        refine Meets.bind (meets_lift.mpr ⟨⟨⟨db, some r, rest'⟩, by simp, rfl⟩, ?_⟩)
        rintro text _ ⟨⟨st, r', hst, hr', htext⟩, rfl⟩
        rw [Held.setStmt_self, Option.some.injEq] at hst
        subst hst
        cases hr'
        refine keeps_pure.mpr ?_
        cases text with
        | none => exact ih.mono (fun _ _ h => ⟨h.1, h.2.failed⟩) fun _ _ h => h
        | some text =>
            dsimp only
            split
            · rename_i htextOk
              refine ih.mono ?_ fun _ _ h => h
              rintro result _ ⟨hw, hended, hsound⟩
              refine ⟨hw, fun h => hended (Nat.lt_of_succ_lt_succ h), fun problem hr => ?_⟩
              refine ⟨(hsound problem hr).1, fun t ht => ?_⟩
              rcases List.mem_cons.mp ht with heq | ht
              · rw [← htext text t rfl heq.symm]
                exact cString_ext htextOk
              · exact (hsound problem hr).2 t ht
            · exact ih.mono (fun _ _ h => ⟨h.1, h.2.failed⟩) fun _ _ h => h
      · rintro rfl
        rw [Held.setStmt_setStmt, if_neg (by decide)]
        refine ⟨⟨_, _, rfl⟩, (fun _ h => by cases h), fun _ hr => ?_⟩
        cases hr
        exact ⟨rfl, fun t ht => by cases ht⟩
      · intro failure
        rw [Held.setStmt_setStmt]
        exact ⟨_, _, rfl⟩

/-- A file is found sound only if it is. -/
theorem meets_integrityCheck {database : Database} {quick : Bool}
    (hc : w.conn database.handle = some c) :
    Meets sqlite (integrityCheck B wanted fuel database quick)
      (fun r w' => w' = w ∧ (c.problems.length + 1 < fuel → r ≠ none) ∧
        (r = some () → c.problems = []))
      (fun _ w' => w' = w) w := by
  refine meets_withStatement hc (fun s rows hs hrows => ?_) fun _ => rfl
  have hsql : checkSql quick = "PRAGMA quick_check;" ∨
      checkSql quick = "PRAGMA integrity_check;" := by
    cases quick
    · exact .inr rfl
    · exact .inl rfl
  obtain ⟨hnone, hrows⟩ := hrows.2 hsql
  have hlength : c.problems.length + 1 < fuel → rows.length < fuel := by
    intro hfuel
    rw [hrows]
    split
    · exact Nat.lt_of_le_of_lt (Nat.le_add_left 1 _) hfuel
    · rw [List.length_map]
      omega
  refine Meets.bind ((meets_checkRows hc).mono ?_ ?_)
  · rintro r _ ⟨⟨row, rest, rfl⟩, hended, hsound⟩
    rcases r with _ | ⟨ok, problem⟩
    · refine ⟨⟨_, _, rfl⟩, rfl, fun hfuel => absurd rfl (hended (hlength hfuel)), fun h => ?_⟩
      cases h
    · dsimp only
      split
      · rename_i h
        subst h
        refine ⟨⟨_, _, rfl⟩, rfl, (fun _ h => by cases h), fun _ => ?_⟩
        by_contra hproblems
        obtain ⟨t, ht⟩ := List.exists_mem_of_ne_nil _ hproblems
        rw [if_neg hproblems] at hrows
        have heq := (hsound problem rfl).2 t (hrows ▸ List.mem_map_of_mem ht)
        exact hnone (heq ▸ ht)
      · exact meets_fail (open_some (c := c) hc) fun _ => ⟨⟨_, _, rfl⟩, rfl⟩
  · rintro _ _ ⟨row, rest, rfl⟩
    exact ⟨⟨_, _, rfl⟩, rfl⟩

/-! ## What a backup leaves -/

section

variable {source target b retries : ℕ} {t : Conn} {complete : Bool}

/-- A backup in progress into a connection that was opened for it. -/
def copying (w : Held) (target b : ℕ) (t : Conn) (bk : Backup) : Held :=
  (w.setConn target (some t)).setBackup b (some bk)

/-- After at most 201 steps the loop ends, and it ends well with a whole copy. -/
theorem keeps_backupSteps (htarget : w.conn target = none) (hsource : w.conn source = some c)
    (hfuel : 201 ≤ fuel + retries) (hretries : retries ≤ 200) :
    Keeps sqlite (backupSteps b fuel retries)
      (fun r w' => ∃ t' complete, w' = copying w target b t' ⟨target, source, complete⟩ ∧
        t'.path = t.path ∧ ∃ rc, r = some rc ∧
          (rc = .ok () → complete = true ∧ t'.content = c.content))
      (copying w target b t ⟨target, source, complete⟩) := by
  have hbackup : ∀ t' bk, (copying w target b t' bk).backup b = some bk := fun t' bk =>
    Function.update_self ..
  have hconn : ∀ t' bk, (copying w target b t' bk).conn target = some t' := fun t' bk =>
    Function.update_self ..
  have hother : ∀ t' bk, (copying w target b t' bk).conn source = some c := fun t' bk => by
    refine (Function.update_of_ne ?_ ..).trans hsource
    rintro rfl
    rw [htarget] at hsource
    cases hsource
  have hcopy : ∀ t' t'' bk, (copying w target b t' bk).setConn target (some t'') =
      copying w target b t'' bk := fun t' t'' bk => by
    simp [copying, Held.setConn, Held.setBackup]
  induction fuel generalizing retries t complete with
  | zero => omega
  | succ fuel ih =>
      refine keeps_bind.mpr (keeps_call.mpr ⟨?_, fun r w' hreply => ?_⟩)
      · exact Option.isSome_iff_exists.mpr ⟨_, hbackup ..⟩
      cases r with
      | done =>
          obtain ⟨bk, t', s, hbk, ht', hs, rfl⟩ := hreply
          rw [hbackup, Option.some.injEq] at hbk
          subst hbk
          rw [hother, Option.some.injEq] at hs
          rw [hconn, Option.some.injEq] at ht'
          subst hs ht'
          rw [hcopy]
          refine ⟨{ t with content := c.content }, true, ?_, rfl, .ok (), rfl, fun _ => ⟨rfl, rfl⟩⟩
          simp [copying, Held.setBackup]
      | more => exact absurd hreply.1 (by decide)
      | failed e =>
          obtain ⟨bk, t', content, hbk, ht', rfl⟩ := hreply
          rw [hbackup, Option.some.injEq] at hbk
          subst hbk
          rw [hconn, Option.some.injEq] at ht'
          subst ht'
          rw [hcopy]
          have hfailed : ∃ t' complete', copying w target b { t with content := content }
              ⟨target, source, complete⟩ = copying w target b t' ⟨target, source, complete'⟩ ∧
              t'.path = t.path ∧ ∃ rc, some (.error e : Except ErrorCode Unit) = some rc ∧
                (rc = .ok () → complete' = true ∧ t'.content = c.content) :=
            ⟨_, complete, rfl, rfl, _, rfl, fun h => by cases h⟩
          dsimp only
          split
          · split
            · exact hfailed
            · refine keeps_bind.mpr (keeps_call.mpr ⟨trivial, ?_⟩)
              rintro _ _ rfl
              exact ih (t := { t with content := content }) (by omega) (by omega)
          · exact hfailed

/-- A copy that succeeds is whole, and its connection is closed. -/
structure BackedUp (w : Held) (path : CString) (c : Conn) (w' : Held) : Prop where
  copy : ∃ t : Conn, w' = { w with closed := w.closed ++ [t] } ∧ t.path = path ∧
    t.content = c.content

theorem keeps_closeQuietly (hfresh : w.conn target = none) (howned : w.Owned)
    {post : Held → Prop} (h : ∀ w', Released w w' → w'.vfs = w.vfs → post w') :
    Keeps sqlite (closeQuietly target) (fun _ => post) (w.setConn target (some t)) := by
  refine keeps_bind.mpr (keeps_closeV2 hfresh howned ?_ fun e => ?_)
  · exact keeps_pure.mpr (h _ (released_closed w t) rfl)
  · exact keeps_pure.mpr (h _ (released_refused hfresh t) rfl)

theorem meets_copyInto (htarget : w.conn target = none) (hsource : w.conn source = some c)
    (howned : w.Owned) (hfuel : 201 ≤ fuel) {ok : Option Unit → Held → Prop}
    {failed : Failed → Held → Prop} (hok : ∀ w', BackedUp w t.path c w' → ok (some ()) w')
    (hfailed : ∀ e w', Released w w' → w'.vfs = w.vfs → failed e w') :
    Meets sqlite (copyInto B wanted fuel source target) ok failed
      (w.setConn target (some t)) := by
  have hne : target ≠ source := by
    rintro rfl
    rw [htarget] at hsource
    cases hsource
  have hconn : ∀ t' : Conn, (w.setConn target (some t')).conn target = some t' := fun t' =>
    Held.setConn_self ..
  have hsource' : (w.setConn target (some t)).conn source = some c :=
    (Function.update_of_ne hne.symm ..).trans hsource
  have hquiet : ∀ (t' : Conn) (e : Failed), Keeps sqlite (closeQuietly target)
      (fun _ => failed e) (w.setConn target (some t')) := fun t' e =>
    keeps_closeQuietly htarget howned fun w' => hfailed e w'
  refine Meets.bind (meets_lift.mpr ?_)
  refine keeps_call.mpr ⟨⟨by simp, by rw [hsource']; rfl, hne⟩, fun r w' hreply => ?_⟩
  cases r with
  | none =>
      cases hreply
      refine Meets.bind (meets_lift.mpr ?_)
      refine keeps_call.mpr ⟨by simp [May], fun e w' hreply => ?_⟩
      cases hreply
      exact Meets.andFinally (meets_failSqlite (hconn t) fun _ => hquiet t _)
  | some b =>
      obtain ⟨hb, rfl⟩ := hreply
      have hfree : w.backup b = none := hb
      have hback : ∀ (t' : Conn) (bk : Backup),
          (copying w target b t' bk).setBackup b none = w.setConn target (some t') := by
        intro t' bk
        simp [copying, Held.setConn, Held.setBackup, ← hfree]
      refine Meets.bind (meets_lift.mpr ((keeps_backupSteps htarget hsource (by omega)
        (Nat.zero_le _)).mono ?_))
      rintro _ _ ⟨t₁, complete, rfl, hpath, rc, rfl, hrc⟩
      refine Meets.bind (meets_lift.mpr ?_)
      refine keeps_call.mpr ⟨?_, fun finished w' hreply => ?_⟩
      · exact Option.isSome_iff_exists.mpr ⟨_, Function.update_self ..⟩
      obtain ⟨bk, t₂, content, hbk, ht₂, hcontent, rfl⟩ := hreply
      have hbk' : (copying w target b t₁ ⟨target, source, complete⟩).backup b =
          some ⟨target, source, complete⟩ := Function.update_self ..
      rw [hbk', Option.some.injEq] at hbk
      subst hbk
      have ht₂' : (copying w target b t₁ ⟨target, source, complete⟩).conn target = some t₁ :=
        Function.update_self ..
      rw [ht₂', Option.some.injEq] at ht₂
      subst ht₂
      have hstate : ((copying w target b t₁ ⟨target, source, complete⟩).setConn target
          (some { t₁ with content := content })).setBackup b none =
            w.setConn target (some { t₁ with content := content }) := by
        rw [← hback _ ⟨target, source, complete⟩]
        simp [copying, Held.setConn, Held.setBackup]
      rw [hstate]
      split
      · exact Meets.andFinally (meets_failSqlite (hconn _) fun _ => hquiet _ _)
      · rename_i u heq
        cases finished with
        | error e => cases heq
        | ok v =>
            obtain ⟨hcomplete, hcopied⟩ := hrc heq
            have hsame : content = c.content := (hcontent rfl hcomplete).trans hcopied
            refine Meets.bind (meets_lift.mpr (keeps_closeV2 htarget howned ?_ fun e => ?_))
            · exact meets_pure.mpr (hok _ ⟨_, rfl, hpath, hsame⟩)
            · refine meets_failSqlite (hconn _) fun _ => ?_
              exact hfailed _ _ (released_refused htarget _) rfl

theorem meets_backupTo {database : Database} {path : Option CString}
    (hc : w.conn database.handle = some c) (howned : w.Owned) (hfuel : 201 ≤ fuel) :
    Meets sqlite (backupTo B wanted fuel database path)
      (fun r w' => r = some () ∧ ∃ p, path = some p ∧ BackedUp w p c w')
      (fun _ w' => Released w w' ∧ w'.vfs = w.vfs) w := by
  have hmissing : ∀ (status : Status) (phase : Phase) (code : ℤ) (message : Option CString),
      Meets sqlite (fail B wanted status phase (some database.handle) code message)
        (fun r w' => r = some () ∧ ∃ p, path = some p ∧ BackedUp w p c w')
        (fun _ w' => Released w w' ∧ w'.vfs = w.vfs) w := fun _ _ _ _ =>
    meets_fail (open_some hc) fun _ => ⟨.refl w, rfl⟩
  unfold backupTo
  split
  · exact hmissing ..
  rename_i p
  split
  · exact hmissing ..
  refine Meets.bind (meets_lift.mpr ?_)
  refine keeps_call.mpr ⟨⟨.inr (.inr (by decide)), fun _ h => by cases h⟩, fun r w' hreply => ?_⟩
  cases r with
  | failed e d =>
      cases d with
      | none =>
          cases hreply
          exact meets_fail open_none fun _ => ⟨.refl w, rfl⟩
      | some target =>
          obtain ⟨hfresh, t, rfl⟩ := hreply
          refine Meets.andFinally (meets_failSqlite (c := t) (Held.setConn_self ..) fun _ => ?_)
          exact keeps_closeQuietly hfresh howned fun w' hr hv => ⟨hr, hv⟩
  | ok target =>
      obtain ⟨hfresh, t, hpath, -, -, -, rfl⟩ := hreply
      refine meets_copyInto hfresh hc howned hfuel ?_ fun _ w' hr hv => ⟨hr, hv⟩
      rintro w' hcopy
      exact ⟨rfl, p, rfl, hpath ▸ hcopy⟩

end

end Esdb.RuntimeMaintenance
