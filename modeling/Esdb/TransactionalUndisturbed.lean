import Esdb.TransactionalAct

/-!
# Runs that nothing disturbs

Nobody else is there and nothing fails. A query of one statement outside a transaction,
and any query of the transaction that is writing, then come to what they denote, also
when that is a failure.
-/
namespace Transactional

variable {L : Language} {W F α : Type} {q : Query L F α} {s : L.Stmt} {x : α} {e : F}
  {σ : State L W} {d d' : L.Content}

theorem State.view_closed (ht : σ.conn.txn = none) : σ.view = σ.file := by
  simp [State.view, Conn.view, ht]

/-- A statement outside a transaction that succeeds. -/
theorem performStmt_closed_ok {conn : Conn L} (ht : conn.txn = none) {r : L.Row s}
    (he : L.eval s d = .ok (r, d')) : performStmt true s d conn = ⟨d', conn, .ok r⟩ := by
  simp [performStmt, ht, he]

theorem Query.Single.run (hq : q.Single s) (ht : σ.conn.txn = none)
    (h : q.denote σ.file = .ok (x, d)) :
    (q.toOp W).run [] σ = (.ok x, { σ with file := d }) := by
  obtain ⟨g, s, k, hk⟩ := hq
  simp only [Query.denote] at h
  cases he : L.eval s σ.file with
  | error c => simp [he] at h
  | ok p =>
      obtain ⟨r, d₁⟩ := p
      simp only [he] at h
      simp only [Query.toOp, Prog.run, List.headD_nil, exec, perform, performStmt_closed_ok ht he]
      rcases hk r with ⟨y, hy⟩ | ⟨c, hy⟩
      · rw [hy] at h ⊢
        cases h
        rfl
      · rw [hy] at h
        cases h

theorem Query.Reading.run (hq : q.Reading s) (ht : σ.conn.txn = none)
    (h : q.denote σ.file = .ok (x, d)) : (q.toOp W).run [] σ = (.ok x, σ) := by
  obtain rfl := hq.denote h
  exact hq.single.run ht h

end Transactional
