import Esdb.TransactionalProgram

/-!
# Runs by themselves, with their history

A run that nothing interferes with is determined by the faults its commands meet.
Its history lists the commands it issued, each with its fault. What every such run
comes to is stated by `Behaves`, whose rules follow the shape of the program as
those of the weakest precondition do; whatever is right under a contract that
allows the faults is right of these runs too.
-/
namespace Transactional

variable {L : Language} {W F α β : Type}

/-- A command and the fault it met. -/
abbrev Event (L : Language) : Type := Cmd L × Fault L.Error

/-- The faults that a run leaves for what comes after it. -/
def Prog.left : Prog L W α → List (Fault L.Error) → State L W → List (Fault L.Error)
  | .ret _, fs, _ => fs
  | .call c k, fs, σ =>
      let o := exec true (fs.headD .none) σ.file σ.conn c
      (k o.reply).left fs.tail { σ with file := o.file, conn := o.conn }
  | .autocommit k, fs, σ => (k σ.conn.autocommit).left fs σ
  | .get k, fs, σ => (k σ.wrapper).left fs σ
  | .set w k, fs, σ => k.left fs { σ with wrapper := w }

/-- The commands that a run issues, in order. -/
def Prog.history : Prog L W α → List (Fault L.Error) → State L W → List (Event L)
  | .ret _, _, _ => []
  | .call c k, fs, σ =>
      let o := exec true (fs.headD .none) σ.file σ.conn c
      (c, fs.headD .none) :: (k o.reply).history fs.tail { σ with file := o.file, conn := o.conn }
  | .autocommit k, fs, σ => (k σ.conn.autocommit).history fs σ
  | .get k, fs, σ => (k σ.wrapper).history fs σ
  | .set w k, fs, σ => k.history fs { σ with wrapper := w }

theorem Prog.mem_left {p : Prog L W α} {fs : List (Fault L.Error)} {σ : State L W}
    {f : Fault L.Error} (h : f ∈ p.left fs σ) : f ∈ fs := by
  induction p generalizing fs σ with
  | ret a => exact h
  | call c k ih => exact List.mem_of_mem_tail (ih _ h)
  | autocommit k ih => exact ih _ h
  | get k ih => exact ih _ h
  | set w k ih => exact ih h

theorem Prog.bind_run (p : Prog L W α) (f : α → Prog L W β) (fs : List (Fault L.Error))
    (σ : State L W) :
    (p.bind f).run fs σ = (f (p.run fs σ).1).run (p.left fs σ) (p.run fs σ).2 := by
  induction p generalizing fs σ with
  | ret a => rfl
  | call c k ih => exact ih _ _ _
  | autocommit k ih => exact ih _ fs σ
  | get k ih => exact ih _ fs σ
  | set w k ih => exact ih fs _

theorem Prog.bind_history (p : Prog L W α) (f : α → Prog L W β) (fs : List (Fault L.Error))
    (σ : State L W) : (p.bind f).history fs σ =
      p.history fs σ ++ (f (p.run fs σ).1).history (p.left fs σ) (p.run fs σ).2 := by
  induction p generalizing fs σ with
  | ret a => rfl
  | call c k ih => exact congrArg (List.cons _) (ih _ _ _)
  | autocommit k ih => exact ih _ fs σ
  | get k ih => exact ih _ fs σ
  | set w k ih => exact ih fs _

/-- In every run from `σ` in which commands only meet faults of that kind. -/
def Behaves (kind : Fault L.Error → Prop) (p : Prog L W α)
    (post : α → List (Event L) → State L W → Prop) (σ : State L W) : Prop :=
  ∀ fs, (∀ f ∈ fs, kind f) → post (p.run fs σ).1 (p.history fs σ) (p.run fs σ).2

variable {kind : Fault L.Error → Prop} {σ : State L W}

/-! ## One statement -/

theorem view_after {a : Access L} {f d : L.Content} {w : Bool} (hr : w = false → d = a.view f) :
    (a.after w d).view f = d := by
  cases a with
  | idle =>
      cases w with
      | false => rfl
      | true => rfl
  | reading s =>
      cases w with
      | false => exact (hr rfl).symm
      | true => rfl
  | writing c => rfl

/-- A statement is refused and nothing has changed, or it takes the content the
connection sees to what it sees then. -/
theorem performStmt_view (free : Bool) (s : L.Stmt) (file : L.Content) (conn : Conn L) :
    (∃ r, performStmt free s file conn = refuse file conn r ∧
      (L.writes s = false → ∃ e, L.eval s (conn.view file) = .error e)) ∨
    ∃ r d, L.eval s (conn.view file) = .ok (r, d) ∧
      (performStmt free s file conn).reply = .ok r ∧
      (performStmt free s file conn).conn.view (performStmt free s file conn).file = d := by
  cases ht : conn.txn with
  | none =>
      have hview : conn.view file = file := by simp only [Conn.view, ht]
      rw [hview]
      rcases performStmt_closed free s file ht with ⟨hw, hp⟩ | ⟨e, he, hp⟩ | ⟨r, d, he, hp⟩
      · exact .inl ⟨_, hp, fun hn => absurd (hw.symm.trans hn) (by simp)⟩
      · exact .inl ⟨_, hp, fun _ => ⟨e, he⟩⟩
      · rw [hp]
        exact .inr ⟨r, d, he, rfl, by simp only [Conn.view, ht]⟩
  | some t =>
      have hview : conn.view file = t.access.view file := by simp only [Conn.view, ht]
      rw [hview]
      rcases performStmt_txn free s file ht with ⟨hw, hp⟩ | ⟨e, he, hp⟩ | ⟨r, d, he, -, hp⟩
      · exact .inl ⟨_, hp, fun hn => absurd (hw.symm.trans hn) (by simp)⟩
      · exact .inl ⟨_, hp, fun _ => ⟨e, he⟩⟩
      · rw [hp]
        exact .inr ⟨r, d, he, rfl, view_after fun hn => L.eval_reads hn he⟩

/-- In a transaction a statement leaves the file alone. -/
theorem performStmt_file {conn : Conn L} (hs : conn.txn.isSome) (free : Bool) (s : L.Stmt)
    (file : L.Content) : (performStmt free s file conn).file = file := by
  obtain ⟨t, ht⟩ := Option.isSome_iff_exists.mp hs
  rcases performStmt_txn free s file ht with ⟨-, hp⟩ | ⟨e, -, hp⟩ | ⟨r, d, -, -, hp⟩
  · rw [hp]
    rfl
  · rw [hp]
    rfl
  · rw [hp]

theorem Query.toOp_one (g : Refusal L.Error → F) (s : L.Stmt) :
    (Query.one g s).toOp W = Op.call g (.stmt s) := by
  unfold Query.one Query.toOp Op.call
  congr 1
  funext r
  cases r with
  | error e => rfl
  | ok row => rfl

/-! ## Rules -/

theorem Behaves.mono {p : Prog L W α} {post post' : α → List (Event L) → State L W → Prop}
    (h : Behaves kind p post σ) (hp : ∀ a h σ', post a h σ' → post' a h σ') :
    Behaves kind p post' σ := fun fs hfs => hp _ _ _ (h fs hfs)

theorem Behaves.and {p : Prog L W α} {post post' : α → List (Event L) → State L W → Prop}
    (h : Behaves kind p post σ) (h' : Behaves kind p post' σ) :
    Behaves kind p (fun a h σ' => post a h σ' ∧ post' a h σ') σ :=
  fun fs hfs => ⟨h fs hfs, h' fs hfs⟩

theorem behaves_bind {p : Prog L W α} {f : α → Prog L W β}
    {post : β → List (Event L) → State L W → Prop}
    (h : Behaves kind p (fun a h σ' =>
      Behaves kind (f a) (fun b h' σ'' => post b (h ++ h') σ'') σ') σ) :
    Behaves kind (p.bind f) post σ := by
  intro fs hfs
  rw [Prog.bind_run, Prog.bind_history]
  exact h fs hfs _ fun f hf => hfs f (Prog.mem_left hf)

theorem behaves_op_bind {p : Op L W F α} {f : α → Op L W F β}
    {post : Except F β → List (Event L) → State L W → Prop}
    (h : Behaves kind p (fun r h σ' => match r with
      | .error e => post (.error e) h σ'
      | .ok a => Behaves kind (f a) (fun b h' σ'' => post b (h ++ h') σ'') σ') σ) :
    Behaves kind (p >>= f : Op L W F β) post σ := by
  refine behaves_bind (p := p) (h.mono fun r h σ' hr => ?_)
  cases r with
  | error e =>
      intro fs hfs
      simpa [Prog.run, Prog.history] using hr
  | ok a => exact hr

theorem behaves_attempt {p : Op L W F α}
    {post : Except F (Except F α) → List (Event L) → State L W → Prop}
    (h : Behaves kind p (fun r h σ' => post (.ok r) h σ') σ) :
    Behaves kind (Op.attempt p) post σ := by
  refine behaves_bind (p := p) (h.mono fun r h σ' hr => ?_)
  intro fs hfs
  simpa [Prog.run, Prog.history] using hr

theorem behaves_pure {a : α} {post : Except F α → List (Event L) → State L W → Prop}
    (h : post (.ok a) [] σ) : Behaves kind (pure a : Op L W F α) post σ := fun _ _ => h

theorem behaves_fail {e : F} {post : Except F α → List (Event L) → State L W → Prop}
    (h : post (.error e) [] σ) : Behaves kind (Op.fail e : Op L W F α) post σ := fun _ _ => h

theorem behaves_autocommit {post : Except F Bool → List (Event L) → State L W → Prop}
    (h : post (.ok σ.conn.autocommit) [] σ) :
    Behaves kind (Op.autocommit : Op L W F Bool) post σ := fun _ _ => h

theorem behaves_get {post : Except F W → List (Event L) → State L W → Prop}
    (h : post (.ok σ.wrapper) [] σ) : Behaves kind (Op.get : Op L W F W) post σ := fun _ _ => h

theorem behaves_modify {f : W → W} {post : Except F Unit → List (Event L) → State L W → Prop}
    (h : post (.ok ()) [] { σ with wrapper := f σ.wrapper }) :
    Behaves kind (Op.modify f : Op L W F Unit) post σ := fun _ _ => h

/-- One command, under each fault it may meet. -/
theorem behaves_call (hnone : kind .none) {onRefusal : Refusal L.Error → F} {c : Cmd L}
    {post : Except F c.Row → List (Event L) → State L W → Prop}
    (h : ∀ fault, kind fault →
      post ((exec true fault σ.file σ.conn c).reply.mapError onRefusal) [(c, fault)]
        { σ with file := (exec true fault σ.file σ.conn c).file
                 conn := (exec true fault σ.file σ.conn c).conn }) :
    Behaves kind (Op.call onRefusal c) post σ := by
  intro fs hfs
  have hkind : kind (fs.headD .none) := by
    cases fs with
    | nil => exact hnone
    | cons f fs => exact hfs f List.mem_cons_self
  have hpost := h _ hkind
  simp only [Op.call, Prog.run, Prog.history]
  cases hr : (exec true (fs.headD .none) σ.file σ.conn c).reply with
  | error r =>
      rw [hr] at hpost
      exact hpost
  | ok row =>
      rw [hr] at hpost
      exact hpost

/-- What is right under a contract that allows these faults. -/
theorem behaves_of_wp {C : Contract L W} {p : Prog L W α} {post : α → State L W → Prop}
    (hnone : kind .none) (hallows : ∀ σ c f, kind f → C.allows σ c f) (h : wp C p post σ) :
    Behaves kind p (fun a _ σ' => post a σ') σ := by
  intro fs hfs
  refine wp_sound (runs_run (C := C) ?_) h
  clear h
  induction p generalizing fs σ with
  | ret a => trivial
  | call c k ih =>
      refine ⟨?_, ih _ _ fun f hf => hfs f (List.mem_of_mem_tail hf)⟩
      cases fs with
      | nil => exact hallows _ _ _ hnone
      | cons f fs => exact hallows _ _ _ (hfs f List.mem_cons_self)
  | autocommit k ih => exact ih _ fs hfs
  | get k ih => exact ih _ fs hfs
  | set w k ih => exact ih fs hfs

/-- Every statement that the query may issue is of that kind. -/
def Query.Issues (S : L.Stmt → Prop) : Query L F α → Prop
  | .ret _ => True
  | .fail _ => True
  | .stmt _ s k => S s ∧ ∀ r, (k r).Issues S

theorem Query.Issues.bind {S : L.Stmt → Prop} {q : Query L F α} {f : α → Query L F β}
    (h : q.Issues S) (hf : ∀ a, (f a).Issues S) : (q >>= f).Issues S := by
  induction q with
  | ret a => exact hf a
  | fail e => trivial
  | stmt g s k ih => exact ⟨h.1, fun r => ih r (h.2 r)⟩

theorem Query.issues_all (q : Query L F α) : q.Issues fun _ => True := by
  induction q with
  | ret a => trivial
  | fail e => trivial
  | stmt g s k ih => exact ⟨trivial, ih⟩

/-- A query issues its statements and nothing else. -/
theorem behaves_issues {S : L.Stmt → Prop} {q : Query L F α} (hq : q.Issues S) (σ : State L W) :
    Behaves kind (q.toOp W) (fun _ h _ => ∀ ev ∈ h, ∃ s, S s ∧ ev.1 = .stmt s) σ := by
  induction q generalizing σ with
  | ret a => exact fun _ _ ev hev => by simp [Query.toOp, Prog.history] at hev
  | fail e => exact fun _ _ ev hev => by simp [Query.toOp, Prog.history] at hev
  | stmt g s k ih =>
      intro fs hfs ev hev
      simp only [Query.toOp, Prog.history] at hev
      rcases List.mem_cons.mp hev with rfl | hev
      · exact ⟨s, hq.1, rfl⟩
      · cases hr : (exec true (fs.headD .none) σ.file σ.conn (.stmt s)).reply with
        | error r =>
            rw [hr] at hev
            simp [Prog.history] at hev
        | ok row =>
            rw [hr] at hev
            exact ih row (hq.2 row) _ fs.tail (fun f hf => hfs f (List.mem_of_mem_tail hf)) ev hev

/-- Every statement that the program may issue is of that kind. -/
def Prog.Issues (S : L.Stmt → Prop) : Prog L W α → Prop
  | .ret _ => True
  | .call c k => (∀ s, c = .stmt s → S s) ∧ ∀ r, (k r).Issues S
  | .autocommit k => ∀ b, (k b).Issues S
  | .get k => ∀ w, (k w).Issues S
  | .set _ k => k.Issues S

theorem Prog.Issues.bind {S : L.Stmt → Prop} {p : Prog L W α} {f : α → Prog L W β}
    (h : p.Issues S) (hf : ∀ a, (f a).Issues S) : (p.bind f).Issues S := by
  induction p with
  | ret a => exact hf a
  | call c k ih => exact ⟨h.1, fun r => ih r (h.2 r)⟩
  | autocommit k ih => exact fun b => ih b (h b)
  | get k ih => exact fun w => ih w (h w)
  | set w k ih => exact ih h

theorem Prog.Issues.op_bind {S : L.Stmt → Prop} {p : Op L W F α} {f : α → Op L W F β}
    (h : Prog.Issues S p) (hf : ∀ a, Prog.Issues S (f a)) :
    Prog.Issues S (p >>= f : Op L W F β) := by
  refine Prog.Issues.bind h fun r => ?_
  cases r with
  | error e => trivial
  | ok a => exact hf a

theorem Prog.Issues.attempt {S : L.Stmt → Prop} {p : Op L W F α} (h : Prog.Issues S p) :
    Prog.Issues S (Op.attempt p) := Prog.Issues.bind h fun _ => trivial

theorem Prog.issues_call {S : L.Stmt → Prop} {onRefusal : Refusal L.Error → F} {c : Cmd L}
    (h : ∀ s, c = .stmt s → S s) : Prog.Issues S (Op.call onRefusal c : Op L W F c.Row) := by
  refine ⟨h, fun r => ?_⟩
  cases r with
  | error e => trivial
  | ok row => trivial

theorem Query.Issues.toOp {S : L.Stmt → Prop} {q : Query L F α} (h : q.Issues S) :
    Prog.Issues S (q.toOp W) := by
  induction q with
  | ret a => trivial
  | fail e => trivial
  | stmt g s k ih =>
      unfold Query.toOp
      refine ⟨fun s' hs => Cmd.stmt.inj hs ▸ h.1, fun r => ?_⟩
      cases r with
      | error e => trivial
      | ok row => exact ih row (h.2 row)

theorem Prog.Issues.history {S : L.Stmt → Prop} {p : Prog L W α} (h : p.Issues S)
    (fs : List (Fault L.Error)) (σ : State L W) :
    ∀ ev ∈ p.history fs σ, ∀ s, ev.1 = .stmt s → S s := by
  induction p generalizing fs σ with
  | ret a => exact fun ev hev => by simp [Prog.history] at hev
  | call c k ih =>
      intro ev hev
      simp only [Prog.history] at hev
      rcases List.mem_cons.mp hev with rfl | hev
      · exact h.1
      · exact ih _ (h.2 _) _ _ ev hev
  | autocommit k ih => exact ih _ (h _) fs σ
  | get k ih => exact ih _ (h _) fs σ
  | set w k ih => exact ih h fs _

/-! ## Undoing -/

def Fault.fails {E : Type} : Fault E → Bool
  | .none => false
  | _ => true

/-- The commands that take something back: a rollback, and the release of a
savepoint that has just been rolled back to. -/
def undoes (previous : Option (Cmd L)) : Cmd L → Bool
  | .rollback | .rollbackTo _ => true
  | .release _ =>
      match previous with
      | some (.rollbackTo _) => true
      | _ => false
  | _ => false

/-- Some command of the history that was to take something back failed. -/
def undoFails (previous : Option (Cmd L)) : List (Event L) → Bool
  | [] => false
  | (c, fault) :: rest => (undoes previous c && fault.fails) || undoFails (some c) rest

/-- The last command, `previous` standing before the history. -/
def lastCommand (previous : Option (Cmd L)) : List (Event L) → Option (Cmd L)
  | [] => previous
  | (c, _) :: rest => lastCommand (some c) rest

theorem undoFails_append (previous : Option (Cmd L)) (h h' : List (Event L)) :
    undoFails previous (h ++ h') =
      (undoFails previous h || undoFails (lastCommand previous h) h') := by
  induction h generalizing previous with
  | nil => rfl
  | cons ev h ih => simp only [List.cons_append, undoFails, lastCommand, ih, Bool.or_assoc]

/-- Whatever came before, nothing in this history failed to be taken back. -/
def Undone (h : List (Event L)) : Prop := ∀ previous, undoFails previous h = false

/-- Whatever came before, something in this history failed to be taken back. -/
def Stuck (h : List (Event L)) : Prop := ∀ previous, undoFails previous h = true

theorem undone_nil : Undone ([] : List (Event L)) := fun _ => rfl

theorem Undone.append {h h' : List (Event L)} (hu : Undone h) (hu' : Undone h') :
    Undone (h ++ h') := by
  intro previous
  rw [undoFails_append, hu, hu']
  rfl

theorem Undone.append_stuck {h h' : List (Event L)} (hu : Undone h) (hs : Stuck h') :
    Stuck (h ++ h') := by
  intro previous
  rw [undoFails_append, hu, hs]
  rfl

theorem undone_of_statements {S : L.Stmt → Prop} {h : List (Event L)}
    (hs : ∀ ev ∈ h, ∃ s, S s ∧ ev.1 = .stmt s) : Undone h := by
  induction h with
  | nil => exact undone_nil
  | cons ev h ih =>
      intro previous
      obtain ⟨c, fault⟩ := ev
      obtain ⟨s, -, rfl⟩ := hs (c, fault) List.mem_cons_self
      simp only [undoFails, undoes, Bool.false_and, Bool.false_or]
      exact ih (fun ev hev => hs ev (List.mem_cons_of_mem _ hev)) _

/-- A command that takes nothing back. -/
theorem undone_cons {c : Cmd L} (hc : ∀ previous, undoes previous c = false) (fault : Fault L.Error)
    {h : List (Event L)} (hu : Undone h) : Undone ((c, fault) :: h) := by
  intro previous
  simp only [undoFails, hc, Bool.false_and, Bool.false_or]
  exact hu _

theorem stuck_cons {c : Cmd L} (hc : ∀ previous, undoes previous c = false) (fault : Fault L.Error)
    {h : List (Event L)} (hs : Stuck h) : Stuck ((c, fault) :: h) := by
  intro previous
  simp only [undoFails, hc, Bool.false_and, Bool.false_or]
  exact hs _

/-- The release of a savepoint in which only statements were executed takes nothing
back. -/
theorem undoFails_release {S : L.Stmt → Prop} {previous : Option (Cmd L)} {h : List (Event L)}
    (hp : ∀ n, previous ≠ some (.rollbackTo n)) (hs : ∀ ev ∈ h, ∃ s, S s ∧ ev.1 = .stmt s)
    (n : L.Name) (fault : Fault L.Error) (rest : List (Event L)) :
    undoFails previous (h ++ (.release n, fault) :: rest) = undoFails (some (.release n)) rest := by
  induction h generalizing previous with
  | nil =>
      have hu : undoes previous (.release n) = false := by
        cases previous with
        | none => rfl
        | some c =>
            cases c with
            | rollbackTo m => exact (hp m rfl).elim
            | _ => rfl
      simp only [List.nil_append, undoFails, hu, Bool.false_and, Bool.false_or]
  | cons ev h ih =>
      obtain ⟨c, f⟩ := ev
      obtain ⟨s, -, rfl⟩ := hs (c, f) List.mem_cons_self
      simp only [List.cons_append, undoFails, undoes, Bool.false_and, Bool.false_or]
      exact ih (fun m he => nomatch he) fun ev hev => hs ev (List.mem_cons_of_mem _ hev)

theorem undone_scope {S : L.Stmt → Prop} {h : List (Event L)}
    (hs : ∀ ev ∈ h, ∃ s, S s ∧ ev.1 = .stmt s) (n : L.Name) (fault fault' : Fault L.Error) :
    Undone ((.savepoint n, fault) :: (h ++ [(.release n, fault')])) := by
  intro previous
  have hp : ∀ m, some (.savepoint n : Cmd L) ≠ some (.rollbackTo m) := fun m he => nomatch he
  simp only [undoFails, undoes, Bool.false_and, Bool.false_or]
  rw [undoFails_release hp hs]
  rfl

/-! ## Nesting -/

/-- What is open on a connection: the transaction and its savepoints, but not what
has been read and written in them. -/
def Conn.nest (conn : Conn L) : Option (ℕ × Bool × List (Savepoint L)) :=
  conn.txn.map fun t => (t.serial, t.implicit, t.savepoints)

theorem Conn.nest_eq_none {conn : Conn L} : conn.nest = none ↔ conn.txn = none := by
  unfold Conn.nest
  cases conn.txn <;> simp

theorem Conn.nest_eq_some {conn : Conn L} {n : ℕ} {i : Bool} {l : List (Savepoint L)}
    (h : conn.nest = some (n, i, l)) :
    ∃ t, conn.txn = some t ∧ t.serial = n ∧ t.implicit = i ∧ t.savepoints = l := by
  unfold Conn.nest at h
  obtain ⟨t, ht, he⟩ := Option.map_eq_some_iff.mp h
  obtain ⟨h₁, h₂⟩ := Prod.mk.inj he
  obtain ⟨h₂, h₃⟩ := Prod.mk.inj h₂
  exact ⟨t, ht, h₁, h₂, h₃⟩

theorem performStmt_nest (free : Bool) (s : L.Stmt) (file : L.Content) (conn : Conn L) :
    (performStmt free s file conn).conn.nest = conn.nest := by
  cases ht : conn.txn with
  | none =>
      unfold performStmt
      rw [ht]
      dsimp only
      split
      · rfl
      · split
        · rfl
        · rfl
  | some t =>
      rcases performStmt_txn free s file ht with ⟨-, hp⟩ | ⟨e, -, hp⟩ | ⟨r, d, he, hw, hp⟩
      · rw [hp]
        rfl
      · rw [hp]
        rfl
      · rw [hp]
        unfold Conn.nest
        rw [ht]
        rfl

theorem performRelease_nest {conn : Conn L} {n : ℕ} {i : Bool} {sp : Savepoint L}
    {below : List (Savepoint L)} (h : conn.nest = some (n, i, sp :: below))
    (hi : i = true → below ≠ []) (file : L.Content) :
    (performRelease sp.name file conn).conn.nest = some (n, i, below) ∧
      (performRelease sp.name file conn).reply = .ok () := by
  obtain ⟨t, ht, rfl, rfl, hs⟩ := Conn.nest_eq_some h
  have hinner : (t.implicit && below.isEmpty) = false := by
    cases hi' : t.implicit with
    | false => rfl
    | true => simpa using hi hi'
  have hp : performRelease sp.name file conn =
      ⟨file, { conn with txn := some { t with savepoints := below } }, .ok ()⟩ := by
    simp [performRelease, ht, hs, findSavepoint, hinner]
  rw [hp]
  exact ⟨rfl, rfl⟩

theorem performRollbackTo_nest {conn : Conn L} {n : ℕ} {i : Bool} {sp : Savepoint L}
    {below : List (Savepoint L)} (h : conn.nest = some (n, i, sp :: below)) (file : L.Content) :
    (performRollbackTo sp.name file conn).conn.nest = conn.nest ∧
      (performRollbackTo sp.name file conn).reply = .ok () := by
  rw [h]
  obtain ⟨t, ht, rfl, rfl, hs⟩ := Conn.nest_eq_some h
  have hp : performRollbackTo sp.name file conn = ⟨file, { conn with
      txn := some { t with
        access := t.access.restore file sp.saved
        savepoints := sp :: below } }, .ok ()⟩ := by
    simp [performRollbackTo, ht, hs, findSavepoint]
  rw [hp]
  exact ⟨rfl, rfl⟩

/-- Faults that leave the transaction as it is. -/
def Plain {E : Type} : Fault E → Prop
  | .rollback _ => False
  | _ => True

theorem exec_stmt_nest {fault : Fault L.Error} (hf : Plain fault) (free : Bool) (s : L.Stmt)
    (file : L.Content) (conn : Conn L) :
    (exec free fault file conn (.stmt s)).conn.nest = conn.nest := by
  cases fault with
  | none => exact performStmt_nest free s file conn
  | fail e => rfl
  | rollback e => exact hf.elim

theorem behaves_nest (q : Query L F α) (σ : State L W) :
    Behaves Plain (q.toOp W) (fun _ _ σ' => σ'.conn.nest = σ.conn.nest) σ := by
  induction q generalizing σ with
  | ret a => exact fun _ _ => rfl
  | fail e => exact fun _ _ => rfl
  | stmt g s k ih =>
      intro fs hfs
      have hplain : Plain (fs.headD .none) := by
        cases fs with
        | nil => trivial
        | cons f fs => exact hfs f List.mem_cons_self
      have hn := exec_stmt_nest hplain true s σ.file σ.conn
      simp only [Query.toOp, Prog.run]
      cases hr : (exec true (fs.headD .none) σ.file σ.conn (.stmt s)).reply with
      | error r => exact hn
      | ok row => exact (ih row _ fs.tail fun f hf => hfs f (List.mem_of_mem_tail hf)).trans hn

end Transactional
