import Esdb.Transactional

/-!
# Programs over a transactional connection

A program issues commands, asks whether the connection is in autocommit mode
and keeps some state of its own beside the connection. Its meaning is a
weakest precondition under a contract: while this connection does not hold the
write lock, others may move the file along `rely`; whatever this program does to
the file stays within `guar`; and `allows` says which faults may happen where.

Straight-line statement sequences that stop at their first failure have a
meaning on content alone, `Query.denote`. Inside a transaction a query that
succeeds has had exactly that effect, and one that fails leaves something the
enclosing scope can undo.
-/
namespace Transactional

variable {L : Language} {W F α β γ : Type}

inductive Prog (L : Language) (W : Type) (α : Type) where
  | ret (a : α)
  | call (c : Cmd L) (k : Except (Refusal L.Error) c.Row → Prog L W α)
  | autocommit (k : Bool → Prog L W α)
  | get (k : W → Prog L W α)
  | set (w : W) (k : Prog L W α)

def Prog.bind : Prog L W α → (α → Prog L W β) → Prog L W β
  | .ret a, f => f a
  | .call c k, f => .call c fun r => (k r).bind f
  | .autocommit k, f => .autocommit fun b => (k b).bind f
  | .get k, f => .get fun w => (k w).bind f
  | .set w k, f => .set w (k.bind f)

/-- A program that may fail; a failure skips what follows it. -/
def Op (L : Language) (W F α : Type) := Prog L W (Except F α)

namespace Op

def fail (e : F) : Op L W F α := Prog.ret (.error e)

def bind (p : Op L W F α) (f : α → Op L W F β) : Op L W F β :=
  Prog.bind p fun
    | .error e => .ret (.error e)
    | .ok a => f a

instance : Monad (Op L W F) where
  pure a := Prog.ret (.ok a)
  bind := bind

/-- Run `p` and look at how it ended. -/
def attempt (p : Op L W F α) : Op L W F (Except F α) :=
  Prog.bind p fun r => .ret (.ok r)

/-- The same where the failures of `p` are of another type. -/
def observe {G : Type} (p : Op L W G α) : Op L W F (Except G α) :=
  Prog.bind p fun r => .ret (.ok r)

def call (onRefusal : Refusal L.Error → F) (c : Cmd L) : Op L W F c.Row :=
  Prog.call c fun
    | .error r => .ret (.error (onRefusal r))
    | .ok row => .ret (.ok row)

def autocommit : Op L W F Bool := Prog.autocommit fun b => .ret (.ok b)
def get : Op L W F W := Prog.get fun w => .ret (.ok w)
def set (w : W) : Op L W F Unit := Prog.set w (.ret (.ok ()))
def modify (f : W → W) : Op L W F Unit := Prog.get fun w => .set (f w) (.ret (.ok ()))

end Op

/-! ## Contracts and weakest preconditions -/

structure State (L : Language) (W : Type) where
  file : L.Content
  conn : Conn L
  wrapper : W

namespace State

def view (σ : State L W) : L.Content := σ.conn.view σ.file

end State

structure Contract (L : Language) (W : Type) where
  rely : L.Content → L.Content → Prop
  guar : L.Content → L.Content → Prop
  allows : State L W → Cmd L → Fault L.Error → Prop
  rely_refl : ∀ d, rely d d
  rely_trans : ∀ {a b c}, rely a b → rely b c → rely a c
  guar_refl : ∀ d, guar d d

variable {C : Contract L W}

/-- The file is kept still by the connection that is writing. -/
def Contract.Moves (C : Contract L W) (conn : Conn L) (file file' : L.Content) : Prop :=
  if conn.isWriting then file' = file else C.rely file file'

theorem Contract.Moves.refl (C : Contract L W) (conn : Conn L) (file : L.Content) :
    C.Moves conn file file := by
  unfold Contract.Moves
  split_ifs
  · rfl
  · exact C.rely_refl file

theorem Contract.Moves.rely {conn : Conn L} {file file' : L.Content}
    (h : C.Moves conn file file') : C.rely file file' := by
  unfold Contract.Moves at h
  split_ifs at h
  · exact h ▸ C.rely_refl file
  · exact h

theorem Contract.Moves.eq {conn : Conn L} {file file' : L.Content}
    (h : C.Moves conn file file') (hw : conn.isWriting = true) : file' = file := by
  unfold Contract.Moves at h
  rwa [if_pos hw] at h

theorem Contract.Moves.trans {conn : Conn L} {a b c : L.Content}
    (h₁ : C.Moves conn a b) (h₂ : C.Moves conn b c) : C.Moves conn a c := by
  unfold Contract.Moves at h₁ h₂ ⊢
  split_ifs at h₁ h₂ ⊢
  · exact h₂.trans h₁
  · exact C.rely_trans h₁ h₂

def wp (C : Contract L W) : Prog L W α → (α → State L W → Prop) → State L W → Prop
  | .ret a, post, σ => post a σ
  | .call c k, post, σ => ∀ file free fault, C.Moves σ.conn σ.file file →
      C.allows { σ with file := file } c fault →
      C.guar file (exec free fault file σ.conn c).file ∧
        wp C (k (exec free fault file σ.conn c).reply) post
          { σ with file := (exec free fault file σ.conn c).file
                   conn := (exec free fault file σ.conn c).conn }
  | .autocommit k, post, σ => wp C (k σ.conn.autocommit) post σ
  | .get k, post, σ => wp C (k σ.wrapper) post σ
  | .set w k, post, σ => wp C k post { σ with wrapper := w }

theorem wp_mono {p : Prog L W α} {post post' : α → State L W → Prop} {σ : State L W}
    (h : wp C p post σ) (hp : ∀ a σ', post a σ' → post' a σ') : wp C p post' σ := by
  induction p generalizing σ with
  | ret a => exact hp a σ h
  | call c k ih =>
      intro file free fault hm ha
      exact ⟨(h file free fault hm ha).1, ih _ (h file free fault hm ha).2⟩
  | autocommit k ih => exact ih _ h
  | get k ih => exact ih _ h
  | set w k ih => exact ih h

theorem wp_bind {p : Prog L W α} {f : α → Prog L W β} {post : β → State L W → Prop}
    {σ : State L W} : wp C (p.bind f) post σ ↔ wp C p (fun a σ' => wp C (f a) post σ') σ := by
  induction p generalizing σ with
  | ret a => rfl
  | call c k ih =>
      simp only [Prog.bind, wp]
      constructor
      · intro h file free fault hm ha
        exact ⟨(h file free fault hm ha).1, ih _ |>.mp (h file free fault hm ha).2⟩
      · intro h file free fault hm ha
        exact ⟨(h file free fault hm ha).1, ih _ |>.mpr (h file free fault hm ha).2⟩
  | autocommit k ih => exact ih _
  | get k ih => exact ih _
  | set w k ih => exact ih

/-! ### Behaviours -/

/-- `p` started in `σ` may end with `a` in `σ'`. -/
inductive Runs (C : Contract L W) : Prog L W α → State L W → α → State L W → Prop
  | ret (a : α) (σ : State L W) : Runs C (.ret a) σ a σ
  | call {c : Cmd L} {k : Except (Refusal L.Error) c.Row → Prog L W α} {σ σ' : State L W} {a : α}
      (file : L.Content) (free : Bool) (fault : Fault L.Error)
      (hm : C.Moves σ.conn σ.file file) (ha : C.allows { σ with file := file } c fault)
      (h : Runs C (k (exec free fault file σ.conn c).reply)
        { σ with file := (exec free fault file σ.conn c).file
                 conn := (exec free fault file σ.conn c).conn } a σ') :
      Runs C (.call c k) σ a σ'
  | autocommit {k : Bool → Prog L W α} {σ σ' : State L W} {a : α}
      (h : Runs C (k σ.conn.autocommit) σ a σ') : Runs C (.autocommit k) σ a σ'
  | get {k : W → Prog L W α} {σ σ' : State L W} {a : α}
      (h : Runs C (k σ.wrapper) σ a σ') : Runs C (.get k) σ a σ'
  | set {w : W} {k : Prog L W α} {σ σ' : State L W} {a : α}
      (h : Runs C k { σ with wrapper := w } a σ') : Runs C (.set w k) σ a σ'

theorem wp_sound {p : Prog L W α} {σ σ' : State L W} {a : α} (hr : Runs C p σ a σ')
    {post : α → State L W → Prop} (h : wp C p post σ) : post a σ' := by
  induction hr with
  | ret => exact h
  | call file free fault hm ha _ ih => exact ih (h file free fault hm ha).2
  | autocommit _ ih => exact ih h
  | get _ ih => exact ih h
  | set _ ih => exact ih h

/-- A run of two programs in sequence is a run of the one and then of the other. -/
theorem runs_bind {p : Prog L W α} {f : α → Prog L W β} {σ σ' : State L W} {b : β}
    (h : Runs C (p.bind f) σ b σ') : ∃ a σ₁, Runs C p σ a σ₁ ∧ Runs C (f a) σ₁ b σ' := by
  induction p generalizing σ with
  | ret a => exact ⟨a, σ, .ret a σ, h⟩
  | call c k ih =>
      cases h with
      | call file free fault hm ha hk =>
          obtain ⟨a, σ₁, hp, hf⟩ := ih _ hk
          exact ⟨a, σ₁, .call file free fault hm ha hp, hf⟩
  | autocommit k ih =>
      cases h with
      | autocommit hk =>
          obtain ⟨a, σ₁, hp, hf⟩ := ih _ hk
          exact ⟨a, σ₁, .autocommit hp, hf⟩
  | get k ih =>
      cases h with
      | get hk =>
          obtain ⟨a, σ₁, hp, hf⟩ := ih _ hk
          exact ⟨a, σ₁, .get hp, hf⟩
  | set w k ih =>
      cases h with
      | set hk =>
          obtain ⟨a, σ₁, hp, hf⟩ := ih hk
          exact ⟨a, σ₁, .set hp, hf⟩

/-- Serial numbers are given out in order by every program. -/
theorem Runs.numbered {p : Prog L W α} {σ σ' : State L W} {a : α} (h : Runs C p σ a σ')
    (hn : σ.conn.Numbered) : σ'.conn.Numbered := by
  induction h with
  | ret a σ => exact hn
  | @call c k σ σ' a file free fault hm ha h ih =>
      refine ih ?_
      cases fault with
      | none => exact (perform_later free file σ.conn c).2 hn
      | fail e => exact hn
      | rollback e => exact (struck_later σ.conn c).2 hn
  | autocommit h ih => exact ih hn
  | get h ih => exact ih hn
  | set h ih => exact ih hn

theorem runs_op_bind {p : Op L W F α} {f : α → Op L W F β} {σ σ' : State L W} {b : Except F β}
    (h : Runs C (p >>= f : Op L W F β) σ b σ') :
    (∃ e, Runs C p σ (.error e) σ' ∧ b = .error e) ∨
      ∃ a σ₁, Runs C p σ (.ok a) σ₁ ∧ Runs C (f a) σ₁ b σ' := by
  obtain ⟨r, σ₁, hp, hf⟩ := runs_bind h
  cases r with
  | error e =>
      cases hf with
      | ret => exact .inl ⟨e, hp, rfl⟩
  | ok a => exact .inr ⟨a, σ₁, hp, hf⟩

/-- A property of the file that everyone keeps holds throughout a run, so the run is
one under any contract that allows its faults where the property holds. -/
theorem Runs.under {C' : Contract L W} {I : L.Content → Prop} {p : Prog L W α} {σ σ' : State L W}
    {a : α} (hr : Runs C p σ a σ') {post : α → State L W → Prop} (h : wp C p post σ)
    (hI : I σ.file) (hrely : ∀ d d', C.rely d d' → I d → I d')
    (hguar : ∀ d d', C.guar d d' → I d → I d') (hrely' : ∀ d d', C.rely d d' → C'.rely d d')
    (hallows : ∀ σ c f, I σ.file → C.allows σ c f → C'.allows σ c f) :
    Runs C' p σ a σ' ∧ I σ'.file := by
  induction hr with
  | ret a σ => exact ⟨.ret a σ, hI⟩
  | call file free fault hm ha _ ih =>
      have hfile : I file := hrely _ _ hm.rely hI
      obtain ⟨hg, hk⟩ := h file free fault hm ha
      obtain ⟨hrun, hI'⟩ := ih hk (hguar _ _ hg hfile)
      refine ⟨.call file free fault ?_ (hallows _ _ _ hfile ha) hrun, hI'⟩
      unfold Contract.Moves at hm ⊢
      split_ifs at hm ⊢
      · exact hm
      · exact hrely' _ _ hm
  | autocommit _ ih =>
      obtain ⟨hrun, hI'⟩ := ih h hI
      exact ⟨.autocommit hrun, hI'⟩
  | get _ ih =>
      obtain ⟨hrun, hI'⟩ := ih h hI
      exact ⟨.get hrun, hI'⟩
  | set _ ih =>
      obtain ⟨hrun, hI'⟩ := ih h hI
      exact ⟨.set hrun, hI'⟩

/-- The run in which nobody interferes, the lock is free and the commands meet
the given faults in order, and none after them. -/
def Prog.run : Prog L W α → List (Fault L.Error) → State L W → α × State L W
  | .ret a, _, σ => (a, σ)
  | .call c k, fs, σ =>
      let o := exec true (fs.headD .none) σ.file σ.conn c
      (k o.reply).run fs.tail { σ with file := o.file, conn := o.conn }
  | .autocommit k, fs, σ => (k σ.conn.autocommit).run fs σ
  | .get k, fs, σ => (k σ.wrapper).run fs σ
  | .set w k, fs, σ => k.run fs { σ with wrapper := w }

/-- The contract allows each of these faults where the run meets it. -/
def Prog.Admits (C : Contract L W) : Prog L W α → List (Fault L.Error) → State L W → Prop
  | .ret _, _, _ => True
  | .call c k, fs, σ =>
      let o := exec true (fs.headD .none) σ.file σ.conn c
      C.allows σ c (fs.headD .none) ∧
        (k o.reply).Admits C fs.tail { σ with file := o.file, conn := o.conn }
  | .autocommit k, fs, σ => (k σ.conn.autocommit).Admits C fs σ
  | .get k, fs, σ => (k σ.wrapper).Admits C fs σ
  | .set w k, fs, σ => k.Admits C fs { σ with wrapper := w }

theorem runs_run {p : Prog L W α} {fs : List (Fault L.Error)} {σ : State L W}
    (h : p.Admits C fs σ) : Runs C p σ (p.run fs σ).1 (p.run fs σ).2 := by
  induction p generalizing fs σ with
  | ret a => exact .ret a σ
  | call c k ih => exact .call σ.file true _ (Contract.Moves.refl C _ _) h.1 (ih _ h.2)
  | autocommit k ih => exact .autocommit (ih _ h)
  | get k ih => exact .get (ih _ h)
  | set w k ih => exact .set (ih h)

theorem Prog.run_bind (p : Prog L W α) (f : α → Prog L W β) (σ : State L W) :
    (p.bind f).run [] σ = (f (p.run [] σ).1).run [] (p.run [] σ).2 := by
  induction p generalizing σ with
  | ret a => rfl
  | call c k ih => exact ih _ _
  | autocommit k ih => exact ih _ σ
  | get k ih => exact ih _ σ
  | set w k ih => exact ih _

theorem Prog.bind_ret (p : Prog L W α) : p.bind .ret = p := by
  induction p with
  | ret a => rfl
  | call c k ih => exact congrArg (Prog.call c) (funext ih)
  | autocommit k ih => exact congrArg Prog.autocommit (funext ih)
  | get k ih => exact congrArg Prog.get (funext ih)
  | set w k ih => exact congrArg (Prog.set w) ih

theorem Op.run_bind {p : Op L W F α} {f : α → Op L W F β} {σ σ' : State L W} {a : α}
    (h : p.run [] σ = (.ok a, σ')) : (p >>= f : Op L W F β).run [] σ = (f a).run [] σ' := by
  have hb := Prog.run_bind p
    (fun | .error e => .ret (.error e) | .ok a => f a : Except F α → Prog L W (Except F β)) σ
  rw [h] at hb
  exact hb

theorem Op.run_get_bind {f : W → Op L W F β} {σ : State L W} :
    (Op.get >>= f : Op L W F β).run [] σ = (f σ.wrapper).run [] σ := rfl

theorem Op.run_attempt {p : Op L W F α} {σ σ' : State L W} {r : Except F α}
    (h : p.run [] σ = (r, σ')) : (Op.attempt p).run [] σ = (.ok r, σ') := by
  have hb := Prog.run_bind p
    (fun r => .ret (.ok r) : Except F α → Prog L W (Except F (Except F α))) σ
  rw [h] at hb
  exact hb

theorem Op.run_observe {G : Type} {p : Op L W G α} {σ σ' : State L W} {r : Except G α}
    (h : p.run [] σ = (r, σ')) : (Op.observe p : Op L W F (Except G α)).run [] σ = (.ok r, σ') := by
  have hb := Prog.run_bind p
    (fun r => .ret (.ok r) : Except G α → Prog L W (Except F (Except G α))) σ
  rw [h] at hb
  exact hb

/-- A run without faults needs the contract to allow that there is none. -/
theorem Prog.admits_nil (p : Prog L W α) (h : ∀ σ c, C.allows σ c .none) (σ : State L W) :
    p.Admits C [] σ := by
  induction p generalizing σ with
  | ret a => trivial
  | call c k ih => exact ⟨h σ c, ih _ _⟩
  | autocommit k ih => exact ih _ σ
  | get k ih => exact ih _ σ
  | set w k ih => exact ih _

theorem Prog.admits_all (p : Prog L W α) (fs : List (Fault L.Error))
    (h : ∀ σ c f, C.allows σ c f) (σ : State L W) : p.Admits C fs σ := by
  induction p generalizing fs σ with
  | ret a => trivial
  | call c k ih => exact ⟨h σ c _, ih _ _ _⟩
  | autocommit k ih => exact ih _ _ σ
  | get k ih => exact ih _ _ σ
  | set w k ih => exact ih _ _

/-- Every command of the run without faults passes the check. -/
def Prog.permits (check : State L W → Cmd L → Bool) : Prog L W α → State L W → Bool
  | .ret _, _ => true
  | .call c k, σ =>
      let o := exec true .none σ.file σ.conn c
      check σ c && (k o.reply).permits check { σ with file := o.file, conn := o.conn }
  | .autocommit k, σ => (k σ.conn.autocommit).permits check σ
  | .get k, σ => (k σ.wrapper).permits check σ
  | .set w k, σ => k.permits check { σ with wrapper := w }

theorem Prog.admits_of_permits {p : Prog L W α} {check : State L W → Cmd L → Bool}
    {σ : State L W} (h : ∀ σ c, check σ c = true → C.allows σ c .none)
    (hp : p.permits check σ = true) : p.Admits C [] σ := by
  induction p generalizing σ with
  | ret a => trivial
  | call c k ih =>
      simp only [Prog.permits, Bool.and_eq_true] at hp
      exact ⟨h σ c hp.1, ih _ hp.2⟩
  | autocommit k ih => exact ih _ hp
  | get k ih => exact ih _ hp
  | set w k ih => exact ih hp

/-- One connection by itself. -/
def alone (allows : State L W → Cmd L → Fault L.Error → Prop) : Contract L W where
  rely := Eq
  guar := fun _ _ => True
  allows := allows
  rely_refl := fun _ => rfl
  rely_trans := fun h₁ h₂ => h₁.trans h₂
  guar_refl := fun _ => trivial

/-! ### Rules for the operations -/

theorem wp_pure {a : α} {post : Except F α → State L W → Prop} {σ : State L W} :
    wp C (pure a : Op L W F α) post σ ↔ post (.ok a) σ := Iff.rfl

theorem wp_fail {e : F} {post : Except F α → State L W → Prop} {σ : State L W} :
    wp C (Op.fail e : Op L W F α) post σ ↔ post (.error e) σ := Iff.rfl

theorem wp_op_bind {p : Op L W F α} {f : α → Op L W F β} {post : Except F β → State L W → Prop}
    {σ : State L W} :
    wp C (p >>= f : Op L W F β) post σ ↔
      wp C p (fun r σ' => match r with
        | .error e => post (.error e) σ'
        | .ok a => wp C (f a) post σ') σ := by
  have hb := @wp_bind L W (Except F α) (Except F β) C p
    (fun | .error e => .ret (.error e) | .ok a => f a) post σ
  refine hb.trans ⟨fun h => wp_mono h fun r σ' hr => ?_, fun h => wp_mono h fun r σ' hr => ?_⟩
  · cases r with
    | error e => exact hr
    | ok a => exact hr
  · cases r with
    | error e => exact hr
    | ok a => exact hr

theorem wp_attempt {p : Op L W F α} {post : Except F (Except F α) → State L W → Prop}
    {σ : State L W} : wp C (Op.attempt p) post σ ↔ wp C p (fun r σ' => post (.ok r) σ') σ :=
  wp_bind

theorem wp_observe {G : Type} {p : Op L W G α} {post : Except F (Except G α) → State L W → Prop}
    {σ : State L W} : wp C (Op.observe p) post σ ↔ wp C p (fun r σ' => post (.ok r) σ') σ :=
  wp_bind

theorem wp_autocommit {post : Except F Bool → State L W → Prop} {σ : State L W} :
    wp C (Op.autocommit : Op L W F Bool) post σ ↔ post (.ok σ.conn.autocommit) σ := Iff.rfl

theorem wp_get {post : Except F W → State L W → Prop} {σ : State L W} :
    wp C (Op.get : Op L W F W) post σ ↔ post (.ok σ.wrapper) σ := Iff.rfl

theorem wp_set {w : W} {post : Except F Unit → State L W → Prop} {σ : State L W} :
    wp C (Op.set w : Op L W F Unit) post σ ↔ post (.ok ()) { σ with wrapper := w } := Iff.rfl

theorem wp_modify {f : W → W} {post : Except F Unit → State L W → Prop} {σ : State L W} :
    wp C (Op.modify f : Op L W F Unit) post σ ↔
      post (.ok ()) { σ with wrapper := f σ.wrapper } := Iff.rfl

/-- One command ends in one of three ways: refused by a fault, refused by a
fault that also rolled back, or as the engine performs it. -/
theorem wp_call {onRefusal : Refusal L.Error → F} {c : Cmd L}
    {post : Except F c.Row → State L W → Prop} {σ : State L W}
    (hfail : ∀ file e, C.Moves σ.conn σ.file file →
      C.allows { σ with file := file } c (.fail e) →
      post (.error (onRefusal (.failed e))) { σ with file := file })
    (hback : ∀ file e, C.Moves σ.conn σ.file file →
      C.allows { σ with file := file } c (.rollback e) →
      post (.error (onRefusal (.failed e))) { σ with file := file, conn := σ.conn.struck c })
    (hnone : ∀ file free, C.Moves σ.conn σ.file file →
      C.allows { σ with file := file } c .none →
      C.guar file (perform free file σ.conn c).file ∧
        post ((perform free file σ.conn c).reply.mapError onRefusal)
          { σ with file := (perform free file σ.conn c).file
                   conn := (perform free file σ.conn c).conn }) :
    wp C (Op.call onRefusal c) post σ := by
  intro file free fault hm ha
  cases fault with
  | fail e => exact ⟨C.guar_refl file, hfail file e hm ha⟩
  | rollback e => exact ⟨C.guar_refl file, hback file e hm ha⟩
  | none =>
      obtain ⟨hg, hp⟩ := hnone file free hm ha
      refine ⟨hg, ?_⟩
      simp only [exec]
      cases hr : (perform free file σ.conn c).reply with
      | error r => rw [hr] at hp; exact hp
      | ok row => rw [hr] at hp; exact hp

/-! ## Queries -/

inductive Query (L : Language) (F : Type) (α : Type) where
  | ret (a : α)
  | fail (e : F)
  | stmt (onRefusal : Refusal L.Error → F) (s : L.Stmt) (k : L.Row s → Query L F α)

namespace Query

def bind : Query L F α → (α → Query L F β) → Query L F β
  | .ret a, f => f a
  | .fail e, _ => .fail e
  | .stmt h s k, f => .stmt h s fun r => (k r).bind f

instance : Monad (Query L F) where
  pure := ret
  bind := bind

def one (onRefusal : Refusal L.Error → F) (s : L.Stmt) : Query L F (L.Row s) :=
  .stmt onRefusal s .ret

/-- The program that issues the statements one after the other. -/
def toOp (W : Type) : Query L F α → Op L W F α
  | .ret a => Prog.ret (.ok a)
  | .fail e => Prog.ret (.error e)
  | .stmt h s k => Prog.call (.stmt s) fun
      | .error r => Prog.ret (.error (h r))
      | .ok row => toOp W (k row)

theorem toOp_bind (q : Query L F α) (f : α → Query L F β) :
    (q >>= f).toOp W = (q.toOp W >>= fun x => (f x).toOp W : Op L W F β) := by
  change (Query.bind q f).toOp W = Op.bind (q.toOp W) fun x => (f x).toOp W
  induction q with
  | ret a => rfl
  | fail e => rfl
  | stmt h s k ih =>
      simp only [bind, toOp, Op.bind, Prog.bind]
      congr 1
      funext r
      cases r with
      | error e => rfl
      | ok row => exact ih row

/-- The meaning on content when nothing interferes. -/
def denote : Query L F α → L.Content → Except F (α × L.Content)
  | .ret a, d => .ok (a, d)
  | .fail e, _ => .error e
  | .stmt h s k, d =>
      match L.eval s d with
      | .error e => .error (h (.failed e))
      | .ok (r, d') => (k r).denote d'

theorem denote_bind (q : Query L F α) (f : α → Query L F β) (d : L.Content) :
    (q >>= f).denote d =
      match q.denote d with
      | .error e => .error e
      | .ok (a, d') => (f a).denote d' := by
  change (Query.bind q f).denote d = _
  induction q generalizing d with
  | ret a => rfl
  | fail e => rfl
  | stmt h s k ih =>
      simp only [bind, denote]
      cases L.eval s d with
      | error e => rfl
      | ok p => exact ih p.1 p.2

/-- A sequence that succeeds has gone through a content in between. -/
theorem denote_bind_ok {q : Query L F α} {f : α → Query L F β} {d d' : L.Content} {b : β} :
    (q >>= f).denote d = .ok (b, d') ↔
      ∃ a d₁, q.denote d = .ok (a, d₁) ∧ (f a).denote d₁ = .ok (b, d') := by
  rw [denote_bind]
  cases q.denote d with
  | error e => simp
  | ok p =>
      obtain ⟨a, d₁⟩ := p
      simp

theorem denote_one (h : Refusal L.Error → F) (s : L.Stmt) (d : L.Content) {r : L.Row s}
    {d' : L.Content} : (one h s).denote d = .ok (r, d') ↔ L.eval s d = .ok (r, d') := by
  simp only [one, denote]
  cases L.eval s d with
  | error e => simp
  | ok p => simp [Prod.ext_iff]

@[simp] theorem denote_pure (a : α) (d : L.Content) :
    (pure a : Query L F α).denote d = .ok (a, d) := rfl

end Query

/-! ### Access inside a transaction -/

/-- How far a transaction that started from access `a` over file `f` may have
got: it keeps its snapshot, and it becomes the writer only over the file that it
had read. -/
def Touched (C : Contract L W) (a : Access L) (f : L.Content) (a' : Access L) (f' : L.Content) :
    Prop :=
  match a, a' with
  | .writing _, .writing _ => f' = f
  | .writing _, _ => False
  | .reading s, .reading s' => s' = s ∧ C.rely f f'
  | .reading s, .writing _ => f' = s ∧ C.rely f f'
  | .reading _, .idle => False
  | .idle, .idle => C.rely f f'
  | .idle, .reading s => C.rely f s ∧ C.rely s f'
  | .idle, .writing _ => C.rely f f'

/-- The content a query of that transaction started from. -/
def origin (a a' : Access L) (f' : L.Content) : L.Content :=
  match a, a' with
  | .writing d, _ => d
  | _, .reading s => s
  | _, _ => f'

theorem touched_refl (a : Access L) (f : L.Content) : Touched C a f a f := by
  cases a with
  | idle => exact C.rely_refl f
  | reading s => exact ⟨rfl, C.rely_refl f⟩
  | writing d => rfl

theorem touched_trans {a₁ a₂ a₃ : Access L} {f₁ f₂ f₃ : L.Content}
    (h₁ : Touched C a₁ f₁ a₂ f₂) (h₂ : Touched C a₂ f₂ a₃ f₃) : Touched C a₁ f₁ a₃ f₃ := by
  cases a₁ <;> cases a₂ <;> simp only [Touched] at h₁ <;> cases a₃ <;>
    simp only [Touched] at h₂ ⊢ <;> grind [C.rely_trans]

theorem Touched.rely {a a' : Access L} {f f' : L.Content} (h : Touched C a f a' f') :
    C.rely f f' := by
  cases a <;> cases a' <;> simp only [Touched] at h <;> grind [C.rely_trans, C.rely_refl]

theorem touched_moves {conn : Conn L} {t : Txn L} (ht : conn.txn = some t) {f f' : L.Content}
    (h : C.Moves conn f f') : Touched C t.access f t.access f' := by
  simp only [Contract.Moves, Conn.isWriting, ht] at h
  cases ha : t.access with
  | idle => simpa [ha, Access.isWriting, Touched] using h
  | reading s => exact ⟨rfl, by simpa [ha, Access.isWriting] using h⟩
  | writing d => simpa [ha, Access.isWriting, Touched] using h

theorem touched_after {a : Access L} {f d : L.Content} {free w : Bool}
    (hw : w = true → a.canWrite free f = true) (hr : w = false → d = a.view f) :
    Touched C a f (a.after w d) f ∧ (a.after w d).view f = d := by
  cases a with
  | idle =>
      cases w with
      | false => exact ⟨⟨hr rfl ▸ C.rely_refl f, hr rfl ▸ C.rely_refl f⟩, rfl⟩
      | true => exact ⟨C.rely_refl f, rfl⟩
  | reading s =>
      cases w with
      | false => exact ⟨⟨rfl, C.rely_refl f⟩, (hr rfl).symm⟩
      | true =>
          have hs := hw rfl
          simp only [Access.canWrite, Bool.and_eq_true, decide_eq_true_eq] at hs
          exact ⟨⟨hs.2.symm, C.rely_refl f⟩, rfl⟩
  | writing c => exact ⟨rfl, rfl⟩

theorem after_ne_idle (a : Access L) (w : Bool) (d : L.Content) : a.after w d ≠ .idle := by
  cases a <;> cases w <;> simp [Access.after]

theorem Touched.not_idle {a a' : Access L} {f f' : L.Content} (h : Touched C a f a' f')
    (ha : a ≠ .idle) : a' ≠ .idle := by
  rintro rfl
  cases a <;> simp_all [Touched]

/-- A statement is never the start of the query it belongs to: what came before
it is where the query started, and what it left is where the rest starts. -/
theorem origin_after {a a' : Access L} {f f' d : L.Content} {free w : Bool}
    (hw : w = true → a.canWrite free f = true) (hr : w = false → d = a.view f)
    (h : Touched C (a.after w d) f a' f') :
    origin (a.after w d) a' f' = d ∧ origin a a' f' = a.view f := by
  cases a with
  | idle =>
      cases w with
      | false =>
          have hd : d = f := hr rfl
          cases a' <;> simp_all [Access.after, Touched, origin, Access.view]
      | true => cases a' <;> simp_all [Access.after, Touched, origin, Access.view]
  | reading s =>
      cases w with
      | false =>
          have hd : d = s := hr rfl
          cases a' <;> simp_all [Access.after, Touched, origin, Access.view]
      | true =>
          have hs := hw rfl
          simp only [Access.canWrite, Bool.and_eq_true, decide_eq_true_eq] at hs
          cases a' <;> simp_all [Access.after, Touched, origin, Access.view]
  | writing c => cases a' <;> simp_all [Access.after, Touched, origin, Access.view]

theorem performStmt_closed (free : Bool) (s : L.Stmt) (file : L.Content) {conn : Conn L}
    (ht : conn.txn = none) :
    (L.writes s = true ∧ performStmt free s file conn = refuse file conn .busy) ∨
      (∃ e, L.eval s file = .error e ∧ performStmt free s file conn = refuse file conn (.failed e)) ∨
      ∃ r d, L.eval s file = .ok (r, d) ∧ performStmt free s file conn = ⟨d, conn, .ok r⟩ := by
  simp only [performStmt, ht]
  split_ifs with hb
  · simp only [Bool.and_eq_true] at hb
    exact .inl ⟨hb.1, rfl⟩
  · cases he : L.eval s file with
    | error e => exact .inr (.inl ⟨e, rfl, rfl⟩)
    | ok p => exact .inr (.inr ⟨p.1, p.2, rfl, rfl⟩)

theorem performStmt_txn (free : Bool) (s : L.Stmt) (file : L.Content) {conn : Conn L} {t : Txn L}
    (ht : conn.txn = some t) :
    (L.writes s = true ∧ performStmt free s file conn = refuse file conn .busy) ∨
      (∃ e, L.eval s (t.access.view file) = .error e ∧
        performStmt free s file conn = refuse file conn (.failed e)) ∨
      ∃ r d, L.eval s (t.access.view file) = .ok (r, d) ∧
        (L.writes s = true → t.access.canWrite free file = true) ∧
        performStmt free s file conn =
          ⟨file, { conn with txn := some { t with access := t.access.after (L.writes s) d } },
            .ok r⟩ := by
  simp only [performStmt, ht]
  split_ifs with hb
  · simp only [Bool.and_eq_true] at hb
    exact .inl ⟨hb.1, rfl⟩
  · cases he : L.eval s (t.access.view file) with
    | error e => exact .inr (.inl ⟨e, rfl, rfl⟩)
    | ok p =>
        refine .inr (.inr ⟨p.1, p.2, rfl, ?_, rfl⟩)
        intro hw
        simpa [hw] using hb

/-- `d'` is the content after some of the statements of a query from `d`. -/
inductive Query.Reaches : Query L F α → L.Content → L.Content → Prop
  | start (q : Query L F α) (d : L.Content) : Reaches q d d
  | next {h : Refusal L.Error → F} {s : L.Stmt} {k : L.Row s → Query L F α}
      {r : L.Row s} {d d₁ d' : L.Content} (hs : L.eval s d = .ok (r, d₁))
      (hk : Reaches (k r) d₁ d') : Reaches (.stmt h s k) d d'

theorem Query.Reaches.of_denote {q : Query L F α} {d d' : L.Content} {a : α}
    (h : q.denote d = .ok (a, d')) : q.Reaches d d' := by
  induction q generalizing d with
  | ret b =>
      simp only [Query.denote, Except.ok.injEq, Prod.mk.injEq] at h
      exact h.2 ▸ .start _ _
  | fail e => simp [Query.denote] at h
  | stmt g s k ih =>
      simp only [Query.denote] at h
      cases he : L.eval s d with
      | error e => simp [he] at h
      | ok p =>
          simp only [he] at h
          exact .next he (ih p.1 h)

theorem Query.Reaches.preserves {q : Query L F α} {d d' : L.Content} (h : q.Reaches d d')
    {P : L.Content → Prop}
    (hP : ∀ {s : L.Stmt} {r : L.Row s} {d d' : L.Content}, L.eval s d = .ok (r, d') → P d → P d')
    (hd : P d) : P d' := by
  induction h with
  | start => exact hd
  | next hs _ ih => exact ih (hP hs hd)

/-- The transaction was rolled back by a fault that the contract allows there. -/
def Contract.Aborted (C : Contract L W) (σ : State L W) : Prop :=
  ∃ (conn : Conn L) (c : Cmd L) (e : L.Error), conn.txn.isSome ∧ σ.conn = conn.abort ∧
    C.allows { σ with conn := conn } c (.rollback e)

def Conn.withAccess (conn : Conn L) (t : Txn L) (a : Access L) : Conn L :=
  { conn with txn := some { t with access := a } }

/-- How a query inside transaction `t` may end. -/
inductive QueryOutcome (C : Contract L W) (q : Query L F α) (t : Txn L) (σ : State L W) :
    Except F α → State L W → Prop
  | aborted {e : F} {σ' : State L W} (hw : σ'.wrapper = σ.wrapper)
      (hc : σ'.conn = σ.conn.abort) (hf : C.Moves σ.conn σ.file σ'.file) (ha : C.Aborted σ') :
      QueryOutcome C q t σ (.error e) σ'
  | failed {e : F} {σ' : State L W} (a : Access L) (hw : σ'.wrapper = σ.wrapper)
      (hc : σ'.conn = σ.conn.withAccess t a) (ht : Touched C t.access σ.file a σ'.file)
      (hr : q.Reaches (origin t.access a σ'.file) (a.view σ'.file)) :
      QueryOutcome C q t σ (.error e) σ'
  | done {x : α} {σ' : State L W} (a : Access L) (hw : σ'.wrapper = σ.wrapper)
      (hc : σ'.conn = σ.conn.withAccess t a) (ht : Touched C t.access σ.file a σ'.file)
      (hr : q.denote (origin t.access a σ'.file) = .ok (x, a.view σ'.file))
      (hi : a = .idle → q = .ret x) : QueryOutcome C q t σ (.ok x) σ'

theorem Conn.withAccess_self {conn : Conn L} {t : Txn L} (ht : conn.txn = some t) :
    conn.withAccess t t.access = conn := by
  cases conn
  simp_all [Conn.withAccess]

theorem origin_self (a : Access L) (f : L.Content) : origin a a f = a.view f := by
  cases a <;> rfl

/-- Once the writer, a transaction stays the writer. -/
theorem Contract.Moves.after {conn : Conn L} {t : Txn L} {w : Bool} {d f f₁ f₂ : L.Content}
    (ht : conn.txn = some t) (hm : C.Moves conn f f₁)
    (h : C.Moves (conn.withAccess t (t.access.after w d)) f₁ f₂) : C.Moves conn f f₂ := by
  have hrely := C.rely_trans hm.rely h.rely
  simp only [Contract.Moves, Conn.isWriting, Conn.withAccess, ht] at hm h ⊢
  cases ha : t.access with
  | idle => simpa [Access.isWriting] using hrely
  | reading s => simpa [Access.isWriting] using hrely
  | writing c =>
      simp only [ha, Access.after, Access.isWriting, if_true] at hm h ⊢
      exact h.trans hm

/-- Content that a transaction has seen does not move under it. -/
theorem Touched.settled {a₀ a : Access L} {f₀ f f' : L.Content} (h : Touched C a₀ f₀ a f)
    {conn : Conn L} {t : Txn L} (hc : conn.txn = some t) (ha : t.access = a)
    (hm : C.Moves conn f f') :
    Touched C a₀ f₀ a f' ∧ (a ≠ .idle → origin a₀ a f' = origin a₀ a f ∧ a.view f' = a.view f) := by
  have hmove : Touched C a f a f' := ha ▸ touched_moves hc hm
  refine ⟨touched_trans h hmove, fun hi => ?_⟩
  cases a with
  | idle => exact (hi rfl).elim
  | reading s => cases a₀ <;> simp_all [Touched, origin, Access.view]
  | writing d =>
      obtain rfl : f' = f := hmove
      exact ⟨rfl, rfl⟩

/-- What `ROLLBACK TO` gives a transaction back is where it started from. -/
theorem Touched.restore {a₀ a : Access L} {f₀ f : L.Content} (h : Touched C a₀ f₀ a f) :
    Touched C a₀ f₀ (a.restore f a₀.written) f ∧
      (a.restore f a₀.written).view f = origin a₀ (a.restore f a₀.written) f := by
  cases a₀ <;> cases a <;> simp only [Touched, Access.restore, Access.written, Access.view,
    origin, Option.getD_some, Option.getD_none] at h ⊢ <;> grind

/-- A statement that only reads, and meets no fault, gives what the content has. -/
theorem Query.run_one {h : Refusal L.Error → F} {s : L.Stmt} (hs : L.writes s = false)
    {σ : State L W} {r : L.Row s} {d : L.Content} (he : L.eval s σ.view = .ok (r, d)) :
    (Prog.run ((Query.one h s).toOp W) [] σ).1 = .ok r := by
  have hreply : (performStmt true s σ.file σ.conn).reply = .ok r := by
    unfold performStmt
    unfold State.view Conn.view at he
    cases ht : σ.conn.txn with
    | none =>
        rw [ht] at he
        dsimp only at he
        simp only [hs, he, Bool.false_and, Bool.false_eq_true, if_false]
    | some t =>
        rw [ht] at he
        dsimp only at he
        simp only [hs, he, Bool.false_and, Bool.false_eq_true, if_false]
  unfold Query.one Query.toOp
  simp only [Prog.run, List.headD_nil, exec, perform, hreply]
  rfl

/-- Without faults a query of the writer does what it denotes. -/
theorem Query.run_toOp {q : Query L F α} {σ : State L W} {t : Txn L} {d d' : L.Content} {x : α}
    (ht : σ.conn.txn = some t) (ha : t.access = .writing d) (h : q.denote d = .ok (x, d')) :
    (q.toOp W).run [] σ = (.ok x, { σ with conn := σ.conn.withAccess t (.writing d') }) := by
  induction q generalizing σ t d with
  | ret a =>
      simp only [Query.denote, Except.ok.injEq, Prod.mk.injEq] at h
      obtain ⟨rfl, rfl⟩ := h
      rw [← ha, Conn.withAccess_self ht]
      rfl
  | fail e => simp [Query.denote] at h
  | stmt g s k ih =>
      simp only [Query.denote] at h
      cases he : L.eval s d with
      | error e => simp [he] at h
      | ok p =>
          obtain ⟨r, d₁⟩ := p
          simp only [he] at h
          have hp : performStmt true s σ.file σ.conn =
              ⟨σ.file, σ.conn.withAccess t (.writing d₁), .ok r⟩ := by
            simp [performStmt, ht, ha, Access.canWrite, Access.view, he, Access.after,
              Conn.withAccess]
          simp only [Query.toOp, Prog.run, List.headD_nil, exec, perform, hp, List.tail_nil]
          exact ih r (t := { t with access := .writing d₁ }) rfl rfl h

theorem wp_query {q : Query L F α} {σ : State L W} {t : Txn L} (ht : σ.conn.txn = some t) :
    wp C (q.toOp W) (QueryOutcome C q t σ) σ := by
  induction q generalizing σ t with
  | ret x =>
      refine .done t.access rfl (Conn.withAccess_self ht).symm (touched_refl _ _) ?_ fun _ => rfl
      rw [origin_self]
      rfl
  | fail e =>
      refine .failed t.access rfl (Conn.withAccess_self ht).symm (touched_refl _ _) ?_
      rw [origin_self]
      exact .start _ _
  | stmt h s k ih =>
      unfold Query.toOp
      intro file free fault hm ha
      have htouch : Touched C t.access σ.file t.access file := touched_moves ht hm
      have hstay : ∀ e, QueryOutcome C (.stmt h s k) t σ (.error e) { σ with file := file } := by
        intro e
        refine .failed t.access rfl (Conn.withAccess_self ht).symm htouch ?_
        rw [origin_self]
        exact .start _ _
      cases fault with
      | fail e => exact ⟨C.guar_refl file, hstay _⟩
      | rollback e =>
          refine ⟨C.guar_refl file, .aborted rfl rfl hm ⟨σ.conn, .stmt s, e, ?_, rfl, ha⟩⟩
          rw [ht]
          rfl
      | none =>
          simp only [exec, perform]
          rcases performStmt_txn free s file ht with
            ⟨-, hp⟩ | ⟨e, -, hp⟩ | ⟨r, d, he, hw, hp⟩
          · rw [hp]
            exact ⟨C.guar_refl file, hstay _⟩
          · rw [hp]
            exact ⟨C.guar_refl file, hstay _⟩
          · rw [hp]
            refine ⟨C.guar_refl file, ?_⟩
            have hr : L.writes s = false → d = t.access.view file := fun hs => L.eval_reads hs he
            have hafter := touched_after (C := C) hw hr
            refine wp_mono (ih r (t := { t with access := t.access.after (L.writes s) d }) rfl) ?_
            intro x σ' hx
            have hpast : ∀ {a : Access L}, Touched C (t.access.after (L.writes s) d) file a σ'.file →
                Touched C t.access σ.file a σ'.file :=
              fun h => touched_trans htouch (touched_trans hafter.1 h)
            cases hx with
            | aborted hw' hc hf hab =>
                exact .aborted hw' hc (hm.after ht hf) hab
            | failed a hw' hc htt hrr =>
                have ho := origin_after hw hr htt
                rw [ho.1] at hrr
                refine .failed a hw' hc (hpast htt) ?_
                rw [ho.2]
                exact .next he hrr
            | done a hw' hc htt hrr hi =>
                have ho := origin_after hw hr htt
                rw [ho.1] at hrr
                refine .done a hw' hc (hpast htt) ?_ fun ha => (htt.not_idle ?_ ha).elim
                · rw [ho.2]
                  simpa only [Query.denote, he] using hrr
                · exact after_ne_idle _ _ _

end Transactional
