import Mathlib.Logic.Basic

/-!
# Programs that ask a world

A program asks one question after the other and goes on as it is answered. The world has a
state; it says which questions may be asked in a state, and which answers it may give there.
Nothing else is assumed of it, so what is shown of a program holds however it answers.
-/
namespace Dialogue

/-- A program over questions whose answers are in `A`. -/
inductive Program {Q : Type} (A : Q → Type) (α : Type) where
  | ret (a : α)
  | ask (q : Q) (next : A q → Program A α)

structure World {Q : Type} (A : Q → Type) where
  State : Type
  may : State → Q → Prop
  replies : State → (q : Q) → A q → State → Prop

variable {Q : Type} {A : Q → Type} {α β γ ε : Type}

namespace Program

def bind : Program A α → (α → Program A β) → Program A β
  | .ret a, f => f a
  | .ask q next, f => .ask q fun r => (next r).bind f

instance : Monad (Program A) where
  pure := .ret
  bind := bind

/-- A single question. -/
def one (q : Q) : Program A (A q) := .ask q .ret

end Program

variable (W : World A)

/-- The runs of a program that come to an end. -/
inductive Run : Program A α → W.State → α → W.State → Prop where
  | ret (a : α) (w : W.State) : Run (.ret a) w a w
  | ask {q : Q} {next : A q → Program A α} {w w' w'' : W.State} {r : A q} {a : α} :
      W.replies w q r w' → Run (next r) w' a w'' → Run (.ask q next) w a w''

/-- What is left of a program after some of its questions. -/
inductive Reaches : Program A α → W.State → Program A α → W.State → Prop where
  | here (p : Program A α) (w : W.State) : Reaches p w p w
  | ask {q : Q} {next : A q → Program A α} {p : Program A α} {w w' w'' : W.State} {r : A q} :
      W.replies w q r w' → Reaches (next r) w' p w'' → Reaches (.ask q next) w p w''

/-- Every question of every run may be asked where it is, and the end is as it should be. -/
def Keeps : Program A α → (α → W.State → Prop) → W.State → Prop
  | .ret a, post, w => post a w
  | .ask q next, post, w => W.may w q ∧ ∀ r w', W.replies w q r w' → Keeps (next r) post w'

variable {W} {w w' : W.State} {p : Program A α} {post post' : α → W.State → Prop}

theorem Keeps.run {a : α} (h : Keeps W p post w) (hrun : Run W p w a w') : post a w' := by
  induction hrun with
  | ret => exact h
  | ask hreply _ ih => exact ih (h.2 _ _ hreply)

theorem Run.bind {f : α → Program A β} {w'' : W.State} {a : α} {b : β} (h : Run W p w a w')
    (h' : Run W (f a) w' b w'') : Run W (p >>= f) w b w'' := by
  induction h with
  | ret => exact h'
  | ask hreply _ ih => exact .ask hreply (ih h')

theorem Keeps.reaches {p' : Program A α} (h : Keeps W p post w) (hr : Reaches W p w p' w') :
    Keeps W p' post w' := by
  induction hr with
  | here => exact h
  | ask hreply _ ih => exact ih (h.2 _ _ hreply)

/-- A question that is reached may be asked. -/
theorem Keeps.may {q : Q} {next : A q → Program A α} (h : Keeps W p post w)
    (hr : Reaches W p w (.ask q next) w') : W.may w' q :=
  (h.reaches hr).1

theorem Keeps.mono (h : Keeps W p post w) (hpost : ∀ a w', post a w' → post' a w') :
    Keeps W p post' w := by
  induction p generalizing w with
  | ret a => exact hpost a w h
  | ask q next ih => exact ⟨h.1, fun r w' hreply => ih r (h.2 r w' hreply)⟩

/-- The rule is complete: it says of a program what its runs say of it. -/
theorem keeps_iff : Keeps W p post w ↔
    (∀ a w', Run W p w a w' → post a w') ∧
      ∀ q next w', Reaches W p w (.ask q next) w' → W.may w' q := by
  refine ⟨fun h => ⟨fun _ _ => h.run, fun _ _ _ => h.may⟩, fun h => ?_⟩
  induction p generalizing w with
  | ret a => exact h.1 a w (.ret a w)
  | ask q next ih =>
      refine ⟨h.2 q next w (.here _ _), fun r w' hreply => ih r ⟨?_, ?_⟩⟩
      · exact fun a w'' hrun => h.1 a w'' (.ask hreply hrun)
      · exact fun q' next' w'' hr => h.2 q' next' w'' (.ask hreply hr)

@[simp] theorem keeps_pure {a : α} : Keeps W (pure a : Program A α) post w ↔ post a w := Iff.rfl

@[simp] theorem keeps_one {q : Q} {post : A q → W.State → Prop} :
    Keeps W (Program.one q) post w ↔ W.may w q ∧ ∀ r w', W.replies w q r w' → post r w' := Iff.rfl

@[simp] theorem keeps_bind {f : α → Program A β} {post : β → W.State → Prop} :
    Keeps W (p >>= f) post w ↔ Keeps W p (fun a w' => Keeps W (f a) post w') w := by
  change Keeps W (p.bind f) post w ↔ _
  induction p generalizing w with
  | ret a => exact Iff.rfl
  | ask q next ih =>
      exact and_congr_right fun _ => forall₂_congr fun r w' => imp_congr_right fun _ => ih r

/-! ## Programs that may fail -/

/-- A program that ends with a result or with a failure. -/
def Attempt (A : Q → Type) (ε α : Type) := Program A (Except ε α)

namespace Attempt

variable (A) in
def ret (a : α) : Attempt A ε α := Program.ret (.ok a)

variable (A) in
def fail (e : ε) : Attempt A ε α := Program.ret (.error e)

/-- A program that does not fail. -/
def lift (p : Program A α) : Attempt A ε α := p.bind fun a => .ret (.ok a)

def bind (p : Attempt A ε α) (f : α → Attempt A ε β) : Attempt A ε β :=
  Program.bind p fun
    | .ok a => f a
    | .error e => .ret (.error e)

instance : Monad (Attempt A ε) where
  pure := ret A
  bind := bind

def run (p : Attempt A ε α) : Program A (Except ε α) := p

/-- Runs `cleanup` behind a failure of `p`. -/
def onFailure (p : Attempt A ε α) (cleanup : Program A Unit) : Attempt A ε α :=
  Program.bind p fun
    | .ok a => .ret (.ok a)
    | .error e => cleanup.bind fun _ => .ret (.error e)

/-- Runs `cleanup` behind `p`, however it ends. -/
def andFinally (p : Attempt A ε α) (cleanup : Program A Unit) : Attempt A ε α :=
  Program.bind p fun r => cleanup.bind fun _ => .ret r

end Attempt

variable (W) in
/-- `Keeps` of a program that may fail, with the two ends apart. -/
def Meets (p : Attempt A ε α) (ok : α → W.State → Prop) (failed : ε → W.State → Prop)
    (w : W.State) : Prop :=
  Keeps W (p : Program A (Except ε α))
    (fun
      | .ok a => ok a
      | .error e => failed e) w

section

variable {p : Attempt A ε α} {ok ok' : α → W.State → Prop} {failed failed' : ε → W.State → Prop}

@[simp] theorem meets_pure {a : α} : Meets W (pure a : Attempt A ε α) ok failed w ↔ ok a w :=
  Iff.rfl

@[simp] theorem meets_fail {e : ε} : Meets W (.fail A e : Attempt A ε α) ok failed w ↔ failed e w :=
  Iff.rfl

theorem keeps_run {post : Except ε α → W.State → Prop} :
    Keeps W p.run post w ↔ Meets W p (fun a => post (.ok a)) (fun e => post (.error e)) w := by
  refine ⟨fun h => Keeps.mono h ?_, fun h => Keeps.mono h ?_⟩ <;>
  · intro r w' hr
    cases r with
    | ok a => exact hr
    | error e => exact hr

@[simp] theorem meets_lift {p : Program A α} :
    Meets W (.lift p : Attempt A ε α) ok failed w ↔ Keeps W p ok w :=
  keeps_bind

theorem Meets.bind {f : α → Attempt A ε β} {ok : β → W.State → Prop}
    (h : Meets W p (fun a w' => Meets W (f a) ok failed w') failed w) :
    Meets W (p >>= f) ok failed w := by
  refine keeps_bind.mpr (Keeps.mono h fun r w' hr => ?_)
  cases r with
  | ok a => exact hr
  | error e => exact hr

theorem Meets.mono (h : Meets W p ok failed w) (hok : ∀ a w', ok a w' → ok' a w')
    (hfailed : ∀ e w', failed e w' → failed' e w') : Meets W p ok' failed' w := by
  refine Keeps.mono h fun r w' hr => ?_
  cases r with
  | ok a => exact hok a w' hr
  | error e => exact hfailed e w' hr

theorem Meets.onFailure {cleanup : Program A Unit}
    (h : Meets W p ok (fun e w' => Keeps W cleanup (fun _ => failed e) w') w) :
    Meets W (p.onFailure cleanup) ok failed w := by
  refine keeps_bind.mpr (Keeps.mono h fun r w' hr => ?_)
  cases r with
  | ok a => exact hr
  | error e => exact keeps_bind.mpr hr

theorem Meets.andFinally {cleanup : Program A Unit}
    (h : Meets W p (fun a w' => Keeps W cleanup (fun _ => ok a) w')
      (fun e w' => Keeps W cleanup (fun _ => failed e) w') w) :
    Meets W (p.andFinally cleanup) ok failed w := by
  refine keeps_bind.mpr (Keeps.mono h fun r w' hr => keeps_bind.mpr ?_)
  cases r with
  | ok a => exact hr
  | error e => exact hr

/-! ## Runs of programs that may fail -/

variable {w'' : W.State} {cleanup : Program A Unit}

theorem run_bind {f : α → Attempt A ε β} {a : α} {r : Except ε β} (h : Run W p.run w (.ok a) w')
    (h' : Run W (f a).run w' r w'') : Run W (p >>= f).run w r w'' :=
  Run.bind h h'

end

end Dialogue
