import Mathlib.Data.List.Basic

/-!
# Blocks that may throw

A block of code works on a state. It ends with a value or with what it throws, and the state
is what the block had made of it by then. Where memory is asked for is an event of its own,
and a block behind a `catch` ends with a value whatever happens in it.
-/
namespace Throwing

/-- An exception: the one of a failing allocation, or any other. -/
inductive Thrown where
  | badAlloc
  | other
  deriving DecidableEq, Repr

structure Block (σ α : Type) where
  run : σ → Except Thrown α × σ

namespace Block

variable {σ α β : Type}

def throws (e : Thrown) : Block σ α := ⟨fun s => (.error e, s)⟩

def state : Block σ σ := ⟨fun s => (.ok s, s)⟩

def change (f : σ → σ) : Block σ Unit := ⟨fun s => (.ok (), f s)⟩

instance : Monad (Block σ) where
  pure a := ⟨fun s => (.ok a, s)⟩
  bind x f := ⟨fun s =>
    match x.run s with
    | (.ok a, s) => (f a).run s
    | (.error e, s) => (.error e, s)⟩

/-- `try` with a handler for everything that is thrown. -/
def catching (x : Block σ α) (handler : Thrown → Block σ α) : Block σ α := ⟨fun s =>
  match x.run s with
  | (.ok a, s) => (.ok a, s)
  | (.error e, s) => (handler e).run s⟩

/-- Memory is asked for; `room` is whether there is some. -/
def allocate (room : Bool) : Block σ Unit := if room then pure () else throws .badAlloc

/-- A handler for `std::bad_alloc` and one for the rest. -/
def guarded (outOfMemory unexpected : α) (x : Block σ α) : Block σ α :=
  x.catching fun
    | .badAlloc => pure outOfMemory
    | .other => pure unexpected

/-- What a failing block has changed is put back, and the exception goes on. -/
def undoing (undo : σ → σ) (x : Block σ α) : Block σ α :=
  x.catching fun e => do
    change undo
    throws e

/-! ## How a block runs -/

@[simp] theorem pure_run (a : α) (s : σ) : (pure a : Block σ α).run s = (.ok a, s) := rfl

@[simp] theorem throws_run (e : Thrown) (s : σ) :
    (throws e : Block σ α).run s = (.error e, s) := rfl

@[simp] theorem state_bind (f : σ → Block σ β) (s : σ) : (state >>= f).run s = (f s).run s := rfl

@[simp] theorem change_bind (g : σ → σ) (f : Unit → Block σ β) (s : σ) :
    (change g >>= f).run s = (f ()).run (g s) := rfl

@[simp] theorem allocate_bind (room : Bool) (f : Unit → Block σ β) (s : σ) :
    (allocate room >>= f).run s = if room then (f ()).run s else (.error .badAlloc, s) := by
  cases room <;> rfl

theorem bind_run (x : Block σ α) (f : α → Block σ β) (s : σ) :
    (x >>= f).run s =
      match x.run s with
      | (.ok a, t) => (f a).run t
      | (.error e, t) => (.error e, t) := rfl

theorem catching_run (x : Block σ α) (handler : Thrown → Block σ α) (s : σ) :
    (x.catching handler).run s =
      match x.run s with
      | (.ok a, t) => (.ok a, t)
      | (.error e, t) => (handler e).run t := rfl

theorem guarded_run (outOfMemory unexpected : α) (x : Block σ α) (s : σ) :
    (guarded outOfMemory unexpected x).run s =
      match x.run s with
      | (.ok a, t) => (.ok a, t)
      | (.error .badAlloc, t) => (.ok outOfMemory, t)
      | (.error .other, t) => (.ok unexpected, t) := by
  rw [guarded, catching_run]
  rcases x.run s with ⟨(e | a), t⟩
  · cases e <;> rfl
  · rfl

theorem undoing_run (undo : σ → σ) (x : Block σ α) (s : σ) :
    (undoing undo x).run s =
      match x.run s with
      | (.ok a, t) => (.ok a, t)
      | (.error e, t) => (.error e, undo t) := rfl

/-! ## Blocks that nothing gets out of -/

/-- The block ends with a value. -/
def Contained (x : Block σ α) : Prop := ∀ s, ∃ a t, x.run s = (.ok a, t)

theorem contained_pure (a : α) : (pure a : Block σ α).Contained := fun s => ⟨a, s, rfl⟩

theorem contained_state : (state : Block σ σ).Contained := fun s => ⟨s, s, rfl⟩

theorem contained_change (f : σ → σ) : (change f).Contained := fun s => ⟨(), f s, rfl⟩

theorem Contained.bind {x : Block σ α} {f : α → Block σ β} (hx : x.Contained)
    (hf : ∀ a, (f a).Contained) : (x >>= f).Contained := by
  intro s
  obtain ⟨a, t, h⟩ := hx s
  rw [bind_run, h]
  exact hf a t

theorem contained_catching {x : Block σ α} {handler : Thrown → Block σ α}
    (h : ∀ e, (handler e).Contained) : (x.catching handler).Contained := by
  intro s
  rw [catching_run]
  rcases x.run s with ⟨(e | a), t⟩
  · exact h e t
  · exact ⟨a, t, rfl⟩

theorem contained_guarded (outOfMemory unexpected : α) (x : Block σ α) :
    (guarded outOfMemory unexpected x).Contained :=
  contained_catching fun e => by cases e <;> exact contained_pure _

end Block

end Throwing
