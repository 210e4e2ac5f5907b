import Esdb.TransactionalProgram

/-!
# Programs inside a larger language and inside a caller's transaction

A program over some statements is also one over any language that has these
statements among others, whatever the others are and whatever content they share
with them. A program that ends no transaction unless it is in autocommit mode can
be run inside a caller's transaction, where it changes the wrapper's state in its
own way and leaves the transaction to the caller.
-/
namespace Transactional

variable {L L' : Language} {W F α β : Type}

/-! ## A larger language -/

/-- The statements of one language as statements of another. -/
structure Embedding (L L' : Language) where
  stmt : L.Stmt → L'.Stmt
  row : ∀ s, L'.Row (stmt s) → L.Row s
  name : L.Name → L'.Name
  error : L'.Error → L.Error

namespace Embedding

def cmd (e : Embedding L L') : Cmd L → Cmd L'
  | .begin immediate => .begin immediate
  | .commit => .commit
  | .rollback => .rollback
  | .savepoint n => .savepoint (e.name n)
  | .release n => .release (e.name n)
  | .rollbackTo n => .rollbackTo (e.name n)
  | .stmt s => .stmt (e.stmt s)

def answer (e : Embedding L L') : (c : Cmd L) → (e.cmd c).Row → c.Row
  | .begin _, serial => serial
  | .commit, x => x
  | .rollback, x => x
  | .savepoint _, serial => serial
  | .release _, x => x
  | .rollbackTo _, x => x
  | .stmt s, r => e.row s r

def refusal (e : Embedding L L') : Refusal L'.Error → Refusal L.Error
  | .busy => .busy
  | .alreadyOpen => .alreadyOpen
  | .noTransaction => .noTransaction
  | .noSavepoint => .noSavepoint
  | .failed x => .failed (e.error x)

def reply (e : Embedding L L') (c : Cmd L) :
    Except (Refusal L'.Error) (e.cmd c).Row → Except (Refusal L.Error) c.Row
  | .error r => .error (e.refusal r)
  | .ok row => .ok (e.answer c row)

end Embedding

/-- The same program over the larger language. -/
def Prog.embed (e : Embedding L L') : Prog L W α → Prog L' W α
  | .ret a => .ret a
  | .call c k => .call (e.cmd c) fun r => (k (e.reply c r)).embed e
  | .autocommit k => .autocommit fun b => (k b).embed e
  | .get k => .get fun w => (k w).embed e
  | .set w k => .set w (k.embed e)

/-! ## Inside a transaction -/

/-- The command ends no transaction that a caller has begun. -/
def Cmd.Nested : Cmd L → Prop
  | .commit => False
  | .rollback => False
  | _ => True

/-- From the wrapper's state `w` and outside autocommit mode, the program ends no
transaction of the caller's, takes the wrapper's state only along `R`, and comes to
something that satisfies `post`. -/
def Prog.Inside (R : W → W → Prop) : Prog L W α → (α → W → Prop) → W → Prop
  | .ret a, post, w => post a w
  | .call c k, post, w => c.Nested ∧ ∀ r, (k r).Inside R post w
  | .autocommit k, post, w => (k false).Inside R post w
  | .get k, post, w => (k w).Inside R post w
  | .set w' k, post, w => R w w' ∧ k.Inside R post w'

variable {R : W → W → Prop} {w : W}

theorem Prog.Inside.mono {p : Prog L W α} {post post' : α → W → Prop} (h : p.Inside R post w)
    (hp : ∀ a w', post a w' → post' a w') : p.Inside R post' w := by
  induction p generalizing w with
  | ret a => exact hp a w h
  | call c k ih => exact ⟨h.1, fun r => ih r (h.2 r)⟩
  | autocommit k ih => exact ih false h
  | get k ih => exact ih w h
  | set w' k ih => exact ⟨h.1, ih h.2⟩

theorem Prog.Inside.bind {p : Prog L W α} {f : α → Prog L W β} {post : β → W → Prop}
    (h : p.Inside R (fun a w' => (f a).Inside R post w') w) : (p.bind f).Inside R post w := by
  induction p generalizing w with
  | ret a => exact h
  | call c k ih => exact ⟨h.1, fun r => ih r (h.2 r)⟩
  | autocommit k ih => exact ih false h
  | get k ih => exact ih w h
  | set w' k ih => exact ⟨h.1, ih h.2⟩

/-- Whether or not the first part fails, and whatever it answers. -/
theorem Prog.Inside.op_bind {p : Op L W F α} {f : α → Op L W F β} {Q : α → Prop}
    (h : Prog.Inside R p (fun r _ => ∀ a, r = .ok a → Q a) w)
    (hf : ∀ a w', Q a → Prog.Inside R (f a) (fun _ _ => True) w') :
    Prog.Inside R (p >>= f : Op L W F β) (fun _ _ => True) w := by
  refine Prog.Inside.bind (h.mono fun r w' hr => ?_)
  cases r with
  | error e => trivial
  | ok a => exact hf a w' (hr a rfl)

/-- A program that is only known to stay inside, before one that does. -/
theorem Prog.Inside.andThen {p : Op L W F α} {f : α → Op L W F β}
    (h : Prog.Inside R p (fun _ _ => True) w)
    (hf : ∀ a w', Prog.Inside R (f a) (fun _ _ => True) w') :
    Prog.Inside R (p >>= f : Op L W F β) (fun _ _ => True) w :=
  Prog.Inside.op_bind (Q := fun _ => True) (h.mono fun _ _ _ _ _ => trivial) fun a w' _ => hf a w'

theorem Prog.Inside.attempt {p : Op L W F α} (h : Prog.Inside R p (fun _ _ => True) w) :
    Prog.Inside R (Op.attempt p) (fun _ _ => True) w := Prog.Inside.bind (h.mono fun _ _ _ => trivial)

theorem Prog.inside_call {onRefusal : Refusal L.Error → F} {c : Cmd L} (hc : c.Nested) :
    Prog.Inside R (Op.call onRefusal c : Op L W F c.Row) (fun _ _ => True) w := by
  refine ⟨hc, fun r => ?_⟩
  cases r with
  | error e => trivial
  | ok row => trivial

theorem Prog.inside_modify {f : W → W} (h : ∀ w, R w (f w)) :
    Prog.Inside R (Op.modify f : Op L W F Unit) (fun _ _ => True) w := ⟨h w, trivial⟩

theorem Query.inside (q : Query L F α) : Prog.Inside R (q.toOp W) (fun _ _ => True) w := by
  induction q with
  | ret a => trivial
  | fail e => trivial
  | stmt g s k ih =>
      unfold Query.toOp
      refine ⟨trivial, fun r => ?_⟩
      cases r with
      | error e => trivial
      | ok row => exact ih row

theorem Embedding.nested (e : Embedding L L') {c : Cmd L} (h : c.Nested) : (e.cmd c).Nested := by
  cases c with
  | commit => exact h
  | rollback => exact h
  | _ => trivial

theorem Prog.Inside.embed (e : Embedding L L') {p : Prog L W α} {post : α → W → Prop}
    (h : p.Inside R post w) : (p.embed e).Inside R post w := by
  induction p generalizing w with
  | ret a => exact h
  | call c k ih => exact ⟨e.nested h.1, fun r => ih _ (h.2 _)⟩
  | autocommit k ih => exact ih false h
  | get k ih => exact ih w h
  | set w' k ih => exact ⟨h.1, ih h.2⟩

/-! ## What becomes of the caller's transaction -/

/-- The transaction that a `BEGIN` opened, by its serial number. -/
def Conn.Begun (conn : Conn L) (n : ℕ) : Prop :=
  ∃ t, conn.txn = some t ∧ t.serial = n ∧ t.implicit = false

theorem Conn.Begun.autocommit {conn : Conn L} {n : ℕ} (h : conn.Begun n) :
    conn.autocommit = false := by
  obtain ⟨t, ht, -, -⟩ := h
  simp [Conn.autocommit, ht]

/-- What the open transaction has written. -/
def Conn.pending (conn : Conn L) : Option L.Content := conn.txn.bind fun t => t.access.written

/-- No command is answered by rolling the transaction back. -/
def Contract.Steady (C : Contract L W) : Prop := ∀ σ c e, ¬ C.allows σ c (.rollback e)

/-- Without a fault that rolls back, a command inside leaves the transaction open and
the file alone. -/
theorem perform_nested {conn : Conn L} {n : ℕ} (h : conn.Begun n) {c : Cmd L} (hc : c.Nested)
    (free : Bool) (file : L.Content) : (perform free file conn c).conn.Begun n ∧
      (perform free file conn c).file = file := by
  obtain ⟨t, ht, hn, hi⟩ := h
  have hsame : conn.Begun n := ⟨t, ht, hn, hi⟩
  cases c with
  | commit => exact hc.elim
  | rollback => exact hc.elim
  | begin immediate =>
      simp only [perform, performBegin, ht]
      exact ⟨hsame, rfl⟩
  | savepoint m =>
      simp only [perform, performSavepoint, ht, Conn.push]
      exact ⟨⟨_, rfl, hn, hi⟩, trivial⟩
  | release m =>
      simp only [perform, performRelease, ht, hi, Bool.false_and, Bool.false_eq_true, if_false]
      cases findSavepoint m t.savepoints with
      | none => exact ⟨hsame, rfl⟩
      | some found => exact ⟨⟨_, rfl, hn, rfl⟩, rfl⟩
  | rollbackTo m =>
      simp only [perform, performRollbackTo, ht]
      cases findSavepoint m t.savepoints with
      | none => exact ⟨hsame, rfl⟩
      | some found => exact ⟨⟨_, rfl, hn, hi⟩, rfl⟩
  | stmt s =>
      rcases performStmt_txn free s file ht with ⟨-, hp⟩ | ⟨e, -, hp⟩ | ⟨r, d, -, -, hp⟩
      · simp only [perform, hp]
        exact ⟨hsame, rfl⟩
      · simp only [perform, hp]
        exact ⟨hsame, rfl⟩
      · simp only [perform, hp]
        exact ⟨⟨_, rfl, hn, hi⟩, trivial⟩

theorem wp_true {C : Contract L W} (hg : ∀ d d', C.guar d d') (p : Prog L W α) (σ : State L W) :
    wp C p (fun _ _ => True) σ := by
  induction p generalizing σ with
  | ret a => trivial
  | call c k ih => exact fun file free fault _ _ => ⟨hg _ _, ih _ _⟩
  | autocommit k ih => exact ih _ _
  | get k ih => exact ih _ _
  | set w k ih => exact ih _

/-- Any command, under any fault, leaves the transaction open or ends it. -/
theorem exec_begun {conn : Conn L} {n : ℕ} (h : conn.Begun n) (free : Bool) (fault : Fault L.Error)
    (file : L.Content) (c : Cmd L) : (exec free fault file conn c).conn.Begun n ∨
      (exec free fault file conn c).conn.txn = none := by
  cases fault with
  | fail e => exact .inl h
  | rollback e =>
      cases c with
      | begin immediate => exact .inl h
      | _ => exact .inr rfl
  | none =>
      obtain ⟨t, ht, -, -⟩ := id h
      cases c with
      | commit =>
          refine .inr ?_
          simp only [exec, perform, performCommit, ht, Conn.abort]
      | rollback =>
          refine .inr ?_
          simp only [exec, perform, performRollback, ht, Conn.abort]
      | _ =>
          refine .inl (perform_nested h ?_ free file).1
          trivial

/-- Where no fault rolls back, a program that was written to run inside leaves the
caller's transaction open. -/
theorem wp_inside {C : Contract L W} (hrefl : ∀ w, R w w)
    (htrans : ∀ {a b c}, R a b → R b c → R a c) (hC : C.Steady) {p : Prog L W α} {σ : State L W} {n : ℕ} (hp : p.Inside R (fun _ _ => True) σ.wrapper) (hc : σ.conn.Begun n) :
    wp C p (fun _ σ' => σ'.conn.Begun n ∧ C.rely σ.file σ'.file ∧ R σ.wrapper σ'.wrapper) σ := by
  induction p generalizing σ with
  | ret a => exact ⟨hc, C.rely_refl _, hrefl _⟩
  | call c k ih =>
      intro file free fault hm ha
      have hstep : (exec free fault file σ.conn c).conn.Begun n ∧
          (exec free fault file σ.conn c).file = file := by
        cases fault with
        | none => exact perform_nested hc hp.1 free file
        | fail e => exact ⟨hc, rfl⟩
        | rollback e => exact absurd ha (hC _ c e)
      rw [hstep.2]
      refine ⟨C.guar_refl file, ?_⟩
      have hnext := ih (exec free fault file σ.conn c).reply
        (σ := ⟨file, (exec free fault file σ.conn c).conn, σ.wrapper⟩) (hp.2 _) hstep.1
      exact wp_mono hnext fun _ σ' h => ⟨h.1, C.rely_trans hm.rely h.2.1, h.2.2⟩
  | autocommit k ih =>
      refine ih σ.conn.autocommit ?_ hc
      rw [hc.autocommit]
      exact hp
  | get k ih => exact ih _ hp hc
  | set w' k ih =>
      have hnext := ih (σ := ⟨σ.file, σ.conn, w'⟩) hp.2 hc
      exact wp_mono hnext fun _ σ' h => ⟨h.1, h.2.1, htrans hp.1 h.2.2⟩

end Transactional
