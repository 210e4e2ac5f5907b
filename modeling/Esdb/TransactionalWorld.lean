import Esdb.TransactionalProgram
import Mathlib.Logic.Function.Basic

/-!
# Connections side by side

Any number of parties over one file. Each has a connection of its own and is
between two jobs or in the middle of the program of one; they proceed one command
at a time, in any order, and a party may lose its connection at any point and come
back with a new one. The write lock is free for a party exactly when no other holds
it.

Programs that are right under a contract, where each party relies on no more than
the others guarantee, are right side by side: every finished job meets its
postcondition, and the file moves only as guaranteed.
-/
namespace Transactional

variable {L : Language} {W J α ι : Type}

/-- A job under way, with the state it was issued in. -/
structure Running (L : Language) (W J α : Type) where
  job : J
  start : State L W
  rest : Prog L W α

structure Party (L : Language) (W J α : Type) where
  conn : Conn L
  wrapper : W
  running : Option (Running L W J α)

structure World (ι : Type) (L : Language) (W J α : Type) where
  file : L.Content
  party : ι → Party L W J α

/-- What parties may do: the jobs they have programs for, when a job may be issued,
the state beside a new connection, and the faults that commands may meet. -/
structure System (L : Language) (W J α : Type) where
  program : J → Prog L W α
  legal : J → State L W → Prop
  fresh : W → Prop
  allows : State L W → Cmd L → Fault L.Error → Prop

/-- One step of a program, where the write lock is free only if `available`. -/
inductive Next (allows : State L W → Cmd L → Fault L.Error → Prop) (available : Prop) :
    Prog L W α → State L W → Prog L W α → State L W → Prop
  | call {c : Cmd L} {k : Except (Refusal L.Error) c.Row → Prog L W α} {σ : State L W}
      (free : Bool) (fault : Fault L.Error) (hfree : free = true → available)
      (ha : allows σ c fault) :
      Next allows available (.call c k) σ (k (exec free fault σ.file σ.conn c).reply)
        { σ with file := (exec free fault σ.file σ.conn c).file
                 conn := (exec free fault σ.file σ.conn c).conn }
  | autocommit {k : Bool → Prog L W α} {σ : State L W} :
      Next allows available (.autocommit k) σ (k σ.conn.autocommit) σ
  | get {k : W → Prog L W α} {σ : State L W} : Next allows available (.get k) σ (k σ.wrapper) σ
  | set {w : W} {k : Prog L W α} {σ : State L W} :
      Next allows available (.set w k) σ k { σ with wrapper := w }

namespace World

variable [DecidableEq ι]

/-- The file and what party `i` has. -/
def state (w : World ι L W J α) (i : ι) : State L W :=
  ⟨w.file, (w.party i).conn, (w.party i).wrapper⟩

/-- Party `i` goes to the state `σ`, with `running` left to do. -/
def update (w : World ι L W J α) (i : ι) (σ : State L W) (running : Option (Running L W J α)) :
    World ι L W J α :=
  ⟨σ.file, Function.update w.party i ⟨σ.conn, σ.wrapper, running⟩⟩

/-- No other party holds the write lock. -/
def Available (w : World ι L W J α) (i : ι) : Prop :=
  ∀ j, j ≠ i → (w.party j).conn.isWriting = false

inductive Step (S : System L W J α) (w : World ι L W J α) : World ι L W J α → Prop
  | issue (i : ι) (j : J) (hi : (w.party i).running = none) (hl : S.legal j (w.state i)) :
      Step S w (w.update i (w.state i) (some ⟨j, w.state i, S.program j⟩))
  | proceed (i : ι) (r : Running L W J α) (hr : (w.party i).running = some r)
      {rest : Prog L W α} {σ : State L W}
      (hn : Next S.allows (w.Available i) r.rest (w.state i) rest σ) :
      Step S w (w.update i σ (some { r with rest := rest }))
  | finish (i : ι) (j : J) (σ₀ : State L W) (a : α)
      (hr : (w.party i).running = some ⟨j, σ₀, .ret a⟩) :
      Step S w (w.update i (w.state i) none)
  | reopen (i : ι) (wrapper : W) (hf : S.fresh wrapper) :
      Step S w (w.update i ⟨w.file, Conn.closed, wrapper⟩ none)

/-- The worlds that parties with new connections to `file` may get to. -/
inductive Reaches (S : System L W J α) (file : L.Content) : World ι L W J α → Prop
  | opened {w : World ι L W J α} (hf : w.file = file)
      (hw : ∀ i, ∃ wrapper, S.fresh wrapper ∧ w.party i = ⟨Conn.closed, wrapper, none⟩) :
      Reaches S file w
  | step {w w' : World ι L W J α} (h : Reaches S file w) (hs : Step S w w') : Reaches S file w'

@[simp] theorem update_party_self (w : World ι L W J α) (i : ι) (σ : State L W)
    (running : Option (Running L W J α)) :
    (w.update i σ running).party i = ⟨σ.conn, σ.wrapper, running⟩ := by
  simp [update]

@[simp] theorem update_party_other (w : World ι L W J α) {i j : ι} (h : j ≠ i) (σ : State L W)
    (running : Option (Running L W J α)) : (w.update i σ running).party j = w.party j := by
  simp [update, h]

@[simp] theorem update_file (w : World ι L W J α) (i : ι) (σ : State L W)
    (running : Option (Running L W J α)) : (w.update i σ running).file = σ.file := rfl

theorem state_update_self (w : World ι L W J α) (i : ι) (σ : State L W)
    (running : Option (Running L W J α)) : (w.update i σ running).state i = σ := by
  simp [state]

theorem state_update_other (w : World ι L W J α) {i j : ι} (h : j ≠ i) (σ : State L W)
    (running : Option (Running L W J α)) :
    (w.update i σ running).state j = { w.state j with file := σ.file } := by
  simp [state, h]

theorem update_update (w : World ι L W J α) (i : ι) (σ σ' : State L W)
    (running running' : Option (Running L W J α)) :
    (w.update i σ running).update i σ' running' = w.update i σ' running' := by
  simp [update]

theorem available_update {w : World ι L W J α} {i : ι} (h : w.Available i) (σ : State L W)
    (running : Option (Running L W J α)) : (w.update i σ running).Available i := by
  intro j hj
  rw [update_party_other _ hj]
  exact h j hj

/-- A party that is left alone while no other is writing gets through the first part
of its program. -/
theorem Reaches.solo {S : System L W J α} {file : L.Content} {β : Type} {q : Prog L W β}
    {f : β → Prog L W α} {w : World ι L W J α} {i : ι} {j : J} {σ₀ : State L W}
    (h : Reaches S file w) (hr : (w.party i).running = some ⟨j, σ₀, q.bind f⟩)
    (hav : w.Available i) (ha : q.Admits (alone S.allows) [] (w.state i)) :
    Reaches S file (w.update i (q.run [] (w.state i)).2
      (some ⟨j, σ₀, f (q.run [] (w.state i)).1⟩)) := by
  induction q generalizing w with
  | ret b =>
      have hself : w.update i (w.state i) (some ⟨j, σ₀, f b⟩) = w := by
        obtain ⟨wfile, party⟩ := w
        simp only [update, state, World.mk.injEq, true_and]
        refine Function.update_eq_iff.mpr ⟨?_, fun _ _ => rfl⟩
        have hr : (party i).running = some ⟨j, σ₀, f b⟩ := hr
        rw [← hr]
      change Reaches S file (w.update i (w.state i) (some ⟨j, σ₀, f b⟩))
      rw [hself]
      exact h
  | call c k ih =>
      have hs := h.step (.proceed i _ hr (.call true .none (fun _ => hav) ha.1))
      have hnext := ih _ hs (by rw [update_party_self]) (available_update hav _ _)
        (by rw [state_update_self]; exact ha.2)
      rw [state_update_self, update_update] at hnext
      exact hnext
  | autocommit k ih =>
      have hs := h.step (.proceed i _ hr .autocommit)
      have hnext := ih _ hs (by rw [update_party_self]) (available_update hav _ _)
        (by rw [state_update_self]; exact ha)
      rw [state_update_self, update_update] at hnext
      exact hnext
  | get k ih =>
      have hs := h.step (.proceed i _ hr .get)
      have hnext := ih _ hs (by rw [update_party_self]) (available_update hav _ _)
        (by rw [state_update_self]; exact ha)
      rw [state_update_self, update_update] at hnext
      exact hnext
  | set x k ih =>
      have hs := h.step (.proceed i _ hr .set)
      have hnext := ih hs (by rw [update_party_self]) (available_update hav _ _)
        (by rw [state_update_self]; exact ha)
      rw [state_update_self, update_update] at hnext
      exact hnext

end World

/-! ## The write lock -/

/-- Only with the write lock free or held does a command change the file, and so it
does for the lock to be held afterwards. -/
theorem exec_locks (free : Bool) (fault : Fault L.Error) (file : L.Content) (conn : Conn L)
    (c : Cmd L) (h : free = false) (hw : conn.isWriting = false) :
    (exec free fault file conn c).file = file ∧
      (exec free fault file conn c).conn.isWriting = false := by
  subst h
  have hwritten : ∀ t, conn.txn = some t → t.access.isWriting = false := by
    intro t ht
    simpa [Conn.isWriting, ht] using hw
  have hclosed : conn.abort.isWriting = false := by simp [Conn.isWriting, Conn.abort]
  cases fault with
  | fail e => exact ⟨rfl, hw⟩
  | rollback e =>
      cases c with
      | begin immediate => exact ⟨rfl, hw⟩
      | _ => exact ⟨rfl, hclosed⟩
  | none =>
      cases ht : conn.txn with
      | none =>
          cases c with
          | begin immediate =>
              cases immediate <;>
                simp [exec, perform, performBegin, ht, refuse, Conn.openTxn, Conn.isWriting,
                  Access.isWriting]
          | commit => simp [exec, perform, performCommit, ht, refuse, hw]
          | rollback => simp [exec, perform, performRollback, ht, refuse, hw]
          | savepoint n =>
              simp [exec, perform, performSavepoint, ht, Conn.push, Conn.isWriting,
                Access.isWriting]
          | release n => simp [exec, perform, performRelease, ht, refuse, hw]
          | rollbackTo n => simp [exec, perform, performRollbackTo, ht, refuse, hw]
          | stmt s =>
              rcases performStmt_closed false s file ht with ⟨-, hp⟩ | ⟨e, -, hp⟩ | ⟨r, d, he, hp⟩
              · simp [exec, perform, hp, refuse, hw]
              · simp [exec, perform, hp, refuse, hw]
              · cases hs : L.writes s with
                | false =>
                    have hd := L.eval_reads hs he
                    simp [exec, perform, hp, hd, hw]
                | true =>
                    simp only [performStmt, ht, hs, Bool.not_false, Bool.and_self, if_true] at hp
                    simp [refuse] at hp
      | some t =>
          have hread := hwritten t ht
          have hnone : t.access.written = none := by
            cases ha : t.access with
            | writing d => simp [ha, Access.isWriting] at hread
            | _ => rfl
          cases c with
          | begin immediate => simp [exec, perform, performBegin, ht, refuse, hw]
          | commit => simp [exec, perform, performCommit, ht, hnone, hclosed]
          | rollback => simp [exec, perform, performRollback, ht, hclosed]
          | savepoint n =>
              simp [exec, perform, performSavepoint, ht, Conn.push, Conn.isWriting, hread]
          | release n =>
              simp only [exec, perform, performRelease, ht]
              cases findSavepoint n t.savepoints with
              | none => exact ⟨rfl, hw⟩
              | some p =>
                  dsimp only
                  split_ifs
                  · exact ⟨by simp [hnone], hclosed⟩
                  · exact ⟨rfl, by simpa [Conn.isWriting] using hread⟩
          | rollbackTo n =>
              simp only [exec, perform, performRollbackTo, ht]
              cases findSavepoint n t.savepoints with
              | none => exact ⟨rfl, hw⟩
              | some p =>
                  refine ⟨rfl, ?_⟩
                  cases ha : t.access with
                  | writing d => simp [ha, Access.isWriting] at hread
                  | _ => simp [Conn.isWriting, Access.restore, Access.isWriting]
          | stmt s =>
              rcases performStmt_txn false s file ht with
                ⟨-, hp⟩ | ⟨e, -, hp⟩ | ⟨r, d, he, hcan, hp⟩
              · simp [exec, perform, hp, refuse, hw]
              · simp [exec, perform, hp, refuse, hw]
              · have hs : L.writes s = false := by
                  by_contra hs
                  have hcan := hcan (by simpa using hs)
                  cases ha : t.access with
                  | writing d => simp [ha, Access.isWriting] at hread
                  | _ => simp [ha, Access.canWrite] at hcan
                simp only [exec, perform, hp, true_and]
                cases ha : t.access with
                | writing d => simp [ha, Access.isWriting] at hread
                | _ => simp [hs, Conn.isWriting, Access.after, Access.isWriting]

/-! ## Programs that are right under a contract -/

variable {C : Contract L W}

/-- `Q` held before others moved the file to where it is. -/
def Settled (C : Contract L W) (Q : State L W → Prop) (σ : State L W) : Prop :=
  ∃ file, Q { σ with file := file } ∧ C.Moves σ.conn file σ.file

theorem Settled.intro {Q : State L W → Prop} {σ : State L W} (h : Q σ) : Settled C Q σ :=
  ⟨σ.file, h, .refl C _ _⟩

theorem Settled.moved {Q : State L W → Prop} {σ : State L W} (h : Settled C Q σ)
    {file : L.Content} (hm : C.Moves σ.conn σ.file file) :
    Settled C Q { σ with file := file } := by
  obtain ⟨f, hq, hf⟩ := h
  exact ⟨f, hq, hf.trans hm⟩

/-- Others may move the file before a program as they may between its commands. -/
theorem wp_moved {p : Prog L W α} {Q : α → State L W → Prop} {σ : State L W}
    (h : wp C p (fun a => Settled C (Q a)) σ) {file : L.Content}
    (hm : C.Moves σ.conn σ.file file) :
    wp C p (fun a => Settled C (Q a)) { σ with file := file } := by
  induction p generalizing σ with
  | ret a => exact Settled.moved h hm
  | call c k ih => exact fun file' free fault hm' ha => h file' free fault (hm.trans hm') ha
  | autocommit k ih => exact ih _ h hm
  | get k ih => exact ih _ h hm
  | set w k ih => exact ih (σ := { σ with wrapper := w }) h hm

/-- A step of a program, and what is left of it. -/
theorem wp_next {allows : State L W → Cmd L → Fault L.Error → Prop} {available : Prop}
    (hallows : ∀ σ c f, allows σ c f → C.allows σ c f) {p p' : Prog L W α} {σ σ' : State L W}
    (hn : Next allows available p σ p' σ') {Q : α → State L W → Prop} (h : wp C p Q σ) :
    C.guar σ.file σ'.file ∧ wp C p' Q σ' := by
  cases hn with
  | call free fault hfree ha =>
      exact h σ.file free fault (.refl C _ _) (hallows _ _ _ ha)
  | autocommit => exact ⟨C.guar_refl _, h⟩
  | get => exact ⟨C.guar_refl _, h⟩
  | set => exact ⟨C.guar_refl _, h⟩

/-- Without the lock to be had, a program neither changes the file nor gets it. -/
theorem Next.locks {allows : State L W → Cmd L → Fault L.Error → Prop} {available : Prop}
    {p p' : Prog L W α} {σ σ' : State L W} (hn : Next allows available p σ p' σ')
    (h : ¬ available) (hw : σ.conn.isWriting = false) :
    σ'.file = σ.file ∧ σ'.conn.isWriting = false := by
  cases hn with
  | call free fault hfree ha =>
      refine exec_locks free fault σ.file σ.conn _ ?_ hw
      cases free with
      | true => exact (h (hfree rfl)).elim
      | false => rfl
  | autocommit => exact ⟨rfl, hw⟩
  | get => exact ⟨rfl, hw⟩
  | set => exact ⟨rfl, hw⟩

/-- The parties' programs are right under the contract: `I` is what a party between
jobs satisfies, and `post` how a job may end. -/
structure Correct (S : System L W J α) (C : Contract L W) (I : State L W → Prop)
    (post : J → State L W → α → State L W → Prop) : Prop where
  guar : ∀ d d', C.guar d d' → C.rely d d'
  allows : ∀ σ c f, S.allows σ c f → C.allows σ c f
  fresh : ∀ file wrapper, S.fresh wrapper → I ⟨file, Conn.closed, wrapper⟩
  moved : ∀ σ file, I σ → C.Moves σ.conn σ.file file → I { σ with file := file }
  issue : ∀ j σ, I σ → S.legal j σ → wp C (S.program j) (post j σ) σ
  finish : ∀ j σ₀ a σ, post j σ₀ a σ → I σ

namespace World

variable {S : System L W J α} {I : State L W → Prop}
  {post : J → State L W → α → State L W → Prop} {w w' : World ι L W J α}

/-- At most one party is writing, and every party is where its contract has it. -/
structure Sound (C : Contract L W) (I : State L W → Prop)
    (post : J → State L W → α → State L W → Prop) (w : World ι L W J α) : Prop where
  single : ∀ i j, (w.party i).conn.isWriting = true → (w.party j).conn.isWriting = true → i = j
  idle : ∀ i, (w.party i).running = none → I (w.state i)
  busy : ∀ i r, (w.party i).running = some r →
    wp C r.rest (fun a => Settled C (post r.job r.start a)) (w.state i)

/-- When party `i` changes the file or holds the lock, no other one is writing. -/
def Alone (w : World ι L W J α) (i : ι) (σ : State L W) : Prop :=
  (∀ j, j ≠ i → (w.party j).conn.isWriting = false) ∨
    (σ.file = w.file ∧ σ.conn.isWriting = false)

/-- What one party does to the file is a move for every other. -/
theorem Alone.moves (hC : Correct S C I post) {i j : ι} {σ : State L W} (h : w.Alone i σ)
    (hj : j ≠ i) (hg : C.guar w.file σ.file) : C.Moves (w.state j).conn (w.state j).file σ.file := by
  unfold Contract.Moves
  split_ifs with hw
  · rcases h with h | ⟨h, -⟩
    · have hj := h j hj
      exact absurd hw (by simp [state, hj])
    · exact h
  · exact hC.guar _ _ hg

theorem Sound.update [DecidableEq ι] (hC : Correct S C I post) (h : w.Sound C I post) {i : ι} {σ : State L W}
    {running : Option (Running L W J α)} (halone : w.Alone i σ) (hg : C.guar w.file σ.file)
    (hidle : running = none → I σ)
    (hbusy : ∀ r, running = some r →
      wp C r.rest (fun a => Settled C (post r.job r.start a)) σ) :
    (w.update i σ running).Sound C I post where
  single := by
    intro j k hj hk
    by_cases hji : j = i
    · by_cases hki : k = i
      · rw [hji, hki]
      · subst hji
        rw [update_party_self] at hj
        rw [update_party_other _ hki] at hk
        rcases halone with ha | ⟨-, ha⟩
        · simp [ha k hki] at hk
        · simp [ha] at hj
    · by_cases hki : k = i
      · subst hki
        rw [update_party_self] at hk
        rw [update_party_other _ hji] at hj
        rcases halone with ha | ⟨-, ha⟩
        · simp [ha j hji] at hj
        · simp [ha] at hk
      · rw [update_party_other _ hji] at hj
        rw [update_party_other _ hki] at hk
        exact h.single j k hj hk
  idle := by
    intro j hj
    by_cases hji : j = i
    · subst hji
      rw [update_party_self] at hj
      rw [state_update_self]
      exact hidle hj
    · rw [update_party_other _ hji] at hj
      rw [state_update_other _ hji]
      exact hC.moved _ _ (h.idle j hj) (halone.moves hC hji hg)
  busy := by
    intro j r hj
    by_cases hji : j = i
    · subst hji
      rw [update_party_self] at hj
      rw [state_update_self]
      exact hbusy r hj
    · rw [update_party_other _ hji] at hj
      rw [state_update_other _ hji]
      exact wp_moved (h.busy j r hj) (halone.moves hC hji hg)

theorem Sound.opened (hC : Correct S C I post)
    (hw : ∀ i, ∃ wrapper, S.fresh wrapper ∧ w.party i = ⟨Conn.closed, wrapper, none⟩) :
    w.Sound C I post where
  single := by
    intro i j hi
    obtain ⟨wrapper, -, hp⟩ := hw i
    simp [hp, Conn.isWriting, Conn.closed] at hi
  idle := by
    intro i _
    obtain ⟨wrapper, hf, hp⟩ := hw i
    simpa [state, hp] using hC.fresh w.file wrapper hf
  busy := by
    intro i r hr
    obtain ⟨wrapper, -, hp⟩ := hw i
    simp [hp] at hr

/-- A party that keeps its state changes nothing for the others. -/
theorem Sound.alone_self (h : w.Sound C I post) (i : ι) : w.Alone i (w.state i) := by
  cases hi : (w.state i).conn.isWriting with
  | false => exact .inr ⟨rfl, hi⟩
  | true =>
      refine .inl fun j hj => ?_
      by_contra hw
      exact hj (h.single j i (by simpa using hw) hi)

/-- Every step keeps the world sound and moves the file as guaranteed. -/
theorem Sound.step [DecidableEq ι] (hC : Correct S C I post) (h : w.Sound C I post) (hs : Step S w w') :
    w'.Sound C I post ∧ C.guar w.file w'.file := by
  cases hs with
  | issue i j hi hl =>
      refine ⟨h.update hC (h.alone_self i) (C.guar_refl _) (fun hn => nomatch hn) ?_,
        C.guar_refl _⟩
      intro r hr
      obtain rfl := Option.some.inj hr
      exact wp_mono (hC.issue j _ (h.idle i hi) hl) fun a σ' hpost => .intro hpost
  | proceed i r hr hn =>
      obtain ⟨hg, hwp⟩ := wp_next hC.allows hn (h.busy i r hr)
      refine ⟨h.update hC ?_ hg (fun hn => nomatch hn) ?_, hg⟩
      · by_cases hav : w.Available i
        · exact .inl hav
        · cases hi : (w.state i).conn.isWriting with
          | true =>
              rcases h.alone_self i with ha | ⟨-, ha⟩
              · exact .inl ha
              · simp [hi] at ha
          | false => exact .inr (hn.locks hav hi)
      · intro r' hr'
        obtain rfl := Option.some.inj hr'
        exact hwp
  | finish i j σ₀ a hr =>
      refine ⟨h.update hC (h.alone_self i) (C.guar_refl _) (fun _ => ?_) (fun _ hr => nomatch hr),
        C.guar_refl _⟩
      obtain ⟨file, hpost, hm⟩ := h.busy i _ hr
      exact hC.moved _ _ (hC.finish _ _ _ _ hpost) hm
  | reopen i wrapper hf =>
      refine ⟨h.update hC (.inr ⟨rfl, rfl⟩) (C.guar_refl _) (fun _ => hC.fresh _ _ hf)
        (fun _ hr => nomatch hr), C.guar_refl _⟩

/-- Side by side, programs that are right under the contract are right. -/
theorem Reaches.sound [DecidableEq ι] (hC : Correct S C I post) {file : L.Content} (h : Reaches S file w) :
    w.Sound C I post ∧ C.rely file w.file := by
  induction h with
  | opened hf hw => exact ⟨.opened hC hw, hf ▸ C.rely_refl _⟩
  | step h hs ih =>
      obtain ⟨hsound, hg⟩ := ih.1.step hC hs
      exact ⟨hsound, C.rely_trans ih.2 (hC.guar _ _ hg)⟩

/-- A job that has come to its end meets its postcondition. -/
theorem Sound.finished (h : w.Sound C I post) {i : ι} {j : J} {σ₀ : State L W} {a : α}
    (hr : (w.party i).running = some ⟨j, σ₀, .ret a⟩) :
    Settled C (post j σ₀ a) (w.state i) := h.busy i _ hr

end World

end Transactional
