import Esdb.TransactionalProgram

/-!
# A note beside the wrapper's state

A program may be run beside a note that it neither reads nor changes. Noting
something between two programs does not change what they do, but lets a contract
speak about it.
-/
namespace Transactional

variable {L : Language} {W G F α β : Type}

/-- The same program, over a state that carries the note `g`. -/
def Prog.beside (g : G) : Prog L W α → Prog L (W × G) α
  | .ret a => .ret a
  | .call c k => .call c fun r => (k r).beside g
  | .autocommit k => .autocommit fun b => (k b).beside g
  | .get k => .get fun w => (k w.1).beside g
  | .set w k => .set (w, g) (k.beside g)

/-- Replaces the note. -/
def Prog.noting (g : G) (p : Prog L (W × G) α) : Prog L (W × G) α :=
  .get fun w => .set (w.1, g) p

def State.beside (g : G) (σ : State L W) : State L (W × G) := ⟨σ.file, σ.conn, (σ.wrapper, g)⟩

/-- What a contract over states with notes says while the note is `g`. -/
def Contract.beside (C : Contract L (W × G)) (g : G) : Contract L W where
  rely := C.rely
  guar := C.guar
  allows := fun σ c fault => C.allows (σ.beside g) c fault
  rely_refl := C.rely_refl
  rely_trans := C.rely_trans
  guar_refl := C.guar_refl

/-- A contract that does not look at the note. -/
def Contract.unnoted (C : Contract L W) (G : Type) : Contract L (W × G) where
  rely := C.rely
  guar := C.guar
  allows := fun σ c fault => C.allows ⟨σ.file, σ.conn, σ.wrapper.1⟩ c fault
  rely_refl := C.rely_refl
  rely_trans := C.rely_trans
  guar_refl := C.guar_refl

variable {C : Contract L (W × G)}

theorem wp_beside {p : Prog L W α} {g : G} {post : α → State L (W × G) → Prop} {σ : State L W} :
    wp C (p.beside g) post (σ.beside g) ↔
      wp (C.beside g) p (fun a σ' => post a (σ'.beside g)) σ := by
  induction p generalizing σ with
  | ret a => rfl
  | call c k ih =>
      constructor
      · intro h file free fault hm ha
        exact ⟨(h file free fault hm ha).1, (ih _).mp (h file free fault hm ha).2⟩
      · intro h file free fault hm ha
        exact ⟨(h file free fault hm ha).1, (ih _).mpr (h file free fault hm ha).2⟩
  | autocommit k ih => exact ih _
  | get k ih => exact ih _
  | set w k ih => exact ih (σ := { σ with wrapper := w })

theorem wp_noting {p : Prog L (W × G) α} {g g' : G} {post : α → State L (W × G) → Prop}
    {σ : State L W} : wp C (p.noting g) post (σ.beside g') ↔ wp C p post (σ.beside g) := Iff.rfl

/-- Two programs with a note of what the first came to between them do what they do
without it. -/
theorem wp_unnoted {C : Contract L W} {p : Prog L W α} {q : α → Prog L W β} {g : G} {note : α → G}
    {post : β → State L W → Prop} {σ : State L W} :
    wp (C.unnoted G) ((p.beside g).bind fun a => Prog.noting (note a) ((q a).beside (note a)))
        (fun b σ' => post b ⟨σ'.file, σ'.conn, σ'.wrapper.1⟩) (σ.beside g) ↔
      wp C (p.bind q) post σ := by
  rw [wp_bind, wp_bind, wp_beside]
  constructor
  · intro h
    apply wp_mono h
    intro a σ' hq
    exact wp_beside.mp (wp_noting.mp hq)
  · intro h
    apply wp_mono h
    intro a σ' hq
    exact wp_noting.mpr (wp_beside.mpr hq)

end Transactional
