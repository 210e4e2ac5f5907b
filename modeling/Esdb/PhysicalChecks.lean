import Esdb.CanonicalJson
import Esdb.SqlTokens
import Mathlib.Data.List.Sort

/-!
# Check constraints of a definition

`physicalChecks` of the physical schema model: it looks for `CHECK (` among the tokens of
a `CREATE TABLE` and takes the tokens up to the parenthesis that closes it. What it takes
closes every parenthesis that it opens, unless the tokens come to an end.
-/
namespace Esdb.PhysicalSchema

open JsonText SqlTokens

structure PhysicalCheck where
  name : Option (List Char)
  expression : List Token
  deriving DecidableEq, Repr

def opening : Token := .sym ['(']

def closing : Token := .sym [')']

def comma : Token := .sym [',']

def semicolon : Token := .sym [';']

/-- The tokens up to the parenthesis that closes `depth` open ones, and what follows it. -/
def readExpression : ℕ → List Token → List Token × List Token
  | _, [] => ([], [])
  | 0, ts => ([], ts)
  | depth + 1, t :: ts =>
      if t = opening then
        let read := readExpression (depth + 2) ts
        (t :: read.1, read.2)
      else if t = closing then
        if depth = 0 then ([], ts)
        else
          let read := readExpression depth ts
          (t :: read.1, read.2)
      else
        let read := readExpression (depth + 1) ts
        (t :: read.1, read.2)

theorem readExpression_suffix (depth : ℕ) (ts : List Token) : (readExpression depth ts).2 <:+ ts := by
  induction ts generalizing depth with
  | nil => cases depth <;> exact List.suffix_rfl
  | cons t ts ih =>
      cases depth with
      | zero => exact List.suffix_rfl
      | succ depth =>
          have hcons := List.suffix_cons t ts
          rw [readExpression]
          split_ifs
          · exact (ih (depth + 2)).trans hcons
          · exact hcons
          · exact (ih depth).trans hcons
          · exact (ih (depth + 1)).trans hcons

/-- The name of a check, from the tokens before it, the last first. -/
def checkName : List Token → Option (List Char)
  | .id name :: .kw word :: _ => if word = "constraint".toList then some name else none
  | _ => none

/-- The loop over the tokens, `before` being those passed, the last first. -/
def collectChecks (before : List Token) : List Token → List PhysicalCheck
  | [] => []
  | t :: rest =>
      if t = .keyword "check" ∧ rest.head? = some opening then
        let read := readExpression 1 rest.tail
        let passed := (t :: rest).take (rest.length + 1 - read.2.length)
        ⟨checkName before, read.1⟩ :: collectChecks (passed.reverse ++ before) read.2
      else collectChecks (t :: before) rest
  termination_by ts => ts.length
  decreasing_by
    · have hlength := (readExpression_suffix 1 rest.tail).length_le
      rw [List.length_tail] at hlength
      simp only [List.length_cons]
      omega
    · simp

/-! ## The order of checks -/

def Token.text : Token → List Char
  | .sym op => "sym:".toList ++ op
  | .kw word => "kw:".toList ++ word
  | .id name => "id:".toList ++ name
  | .num value => "num:".toList ++ value
  | .str value => "str:".toList ++ value
  | .blob value => "blob:".toList ++ value

def utf16 (s : List Char) : Text := s.flatMap fun c => units c.toNat

def jsonText (s : List Char) : Json Empty := .str (utf16 s)

def jsonTokens (ts : List Token) : Json Empty := .arr (ts.map fun t => jsonText (Token.text t))

def PhysicalCheck.json (check : PhysicalCheck) : Json Empty :=
  .obj [(utf16 "name".toList, (check.name.map jsonText).getD .null),
    (utf16 "expression".toList, jsonTokens check.expression)]

def compareCanonical (left right : Json Empty) : ℤ :=
  match CanonicalJson.canonicalize left, CanonicalJson.canonicalize right with
  | .ok s, .ok t => if s < t then -1 else if t < s then 1 else 0
  | _, _ => 0

def sortCanonical {α : Type} (json : α → Json Empty) (values : List α) : List α :=
  values.insertionSort fun a b => compareCanonical (json a) (json b) ≤ 0

theorem mem_sortCanonical {α : Type} (json : α → Json Empty) {values : List α} {a : α} :
    a ∈ sortCanonical json values ↔ a ∈ values := (List.perm_insertionSort _ _).mem_iff

def physicalChecks (definition : List Token) : List PhysicalCheck :=
  sortCanonical PhysicalCheck.json (collectChecks [] definition)

/-! ## Nesting -/

/-- From `depth` open parentheses the tokens close all of them and no more, and have commas
outside of parentheses only where `commas` allows it. -/
def nested (commas : Bool) : ℕ → List Token → Bool
  | depth, [] => depth = 0
  | depth, t :: ts =>
      if t = opening then nested commas (depth + 1) ts
      else if t = closing then depth ≠ 0 && nested commas (depth - 1) ts
      else if t = comma then (commas || depth ≠ 0) && nested commas depth ts
      else nested commas depth ts

/-- A nested text in front of another one, from inside of `d` parentheses. -/
theorem nested_append {commas allowed : Bool} {d k : ℕ} {e : List Token}
    (h : nested allowed k e = true) (hd : allowed = true → commas = true ∨ d ≠ 0)
    (rest : List Token) : nested commas (d + k) (e ++ rest) = nested commas d rest := by
  induction e generalizing k with
  | nil =>
      obtain rfl : k = 0 := of_decide_eq_true h
      rfl
  | cons t e ih =>
      rw [nested] at h
      rw [List.cons_append, nested]
      split_ifs at h ⊢ with hopen hclose hcomma
      · exact ih h
      · obtain ⟨hk, h⟩ := Bool.and_eq_true_iff.mp h
        have hk : k ≠ 0 := of_decide_eq_true hk
        have hne : d + k ≠ 0 := by omega
        rw [decide_eq_true hne, Bool.true_and, Nat.add_sub_assoc (by omega)]
        exact ih h
      · obtain ⟨hallowed, h⟩ := Bool.and_eq_true_iff.mp h
        have hcommas : (commas || decide (d + k ≠ 0)) = true := by
          rcases Bool.or_eq_true_iff.mp hallowed with ha | hk
          · rcases hd ha with hc | hd
            · rw [hc, Bool.true_or]
            · rw [decide_eq_true (by omega), Bool.or_true]
          · have hk : k ≠ 0 := of_decide_eq_true hk
            rw [decide_eq_true (by omega), Bool.or_true]
        rw [hcommas, Bool.true_and]
        exact ih h
      · exact ih h

theorem nested_enclosed {commas : Bool} {e : List Token} (h : nested true 0 e = true)
    (rest : List Token) :
    nested commas 0 (opening :: (e ++ closing :: rest)) = nested commas 0 rest := by
  have happend : nested commas (1 + 0) (e ++ closing :: rest) = nested commas 1 (closing :: rest) :=
    nested_append h (fun _ => .inr (by decide)) (closing :: rest)
  rw [nested, if_pos rfl]
  rw [nested.eq_2 _ 1, if_neg (by decide), if_pos rfl] at happend
  exact happend

theorem nested_intercalate {items : List (List Token)}
    (h : ∀ item ∈ items, nested true 0 item = true) :
    nested true 0 ([comma].intercalate items) = true := by
  induction items with
  | nil => rfl
  | cons item items ih =>
      obtain ⟨hitem, hitems⟩ := List.forall_mem_cons.mp h
      cases items with
      | nil => rwa [List.intercalate_singleton]
      | cons next items =>
          rw [List.intercalate_cons_cons, List.append_assoc,
            nested_append (d := 0) hitem fun _ => .inl rfl]
          exact ih hitems

theorem readExpression_nested {depth : ℕ} {e : List Token} (h : nested true depth e = true)
    (rest : List Token) :
    readExpression (depth + 1) (e ++ closing :: rest) = (e, rest) := by
  induction e generalizing depth with
  | nil =>
      obtain rfl : depth = 0 := of_decide_eq_true h
      rfl
  | cons t e ih =>
      unfold nested at h
      rw [List.cons_append, readExpression]
      split_ifs at h ⊢ with hopen hclose hzero hcomma
      · rw [ih h]
      · rw [hzero] at h
        cases h
      · obtain ⟨-, hrest⟩ := Bool.and_eq_true_iff.mp h
        obtain ⟨k, rfl⟩ := Nat.exists_eq_succ_of_ne_zero hzero
        rw [show k + 1 - 1 = k by omega] at hrest
        rw [ih hrest]
      · rw [ih (by simpa using h)]
      · rw [ih h]

/-- What is read either closes or is all there is. -/
theorem readExpression_cases (depth : ℕ) (ts : List Token) :
    nested true depth (readExpression (depth + 1) ts).1 = true ∨
      readExpression (depth + 1) ts = (ts, []) := by
  induction ts generalizing depth with
  | nil => exact .inr rfl
  | cons t ts ih =>
      rw [readExpression]
      split_ifs with hopen hclose hzero
      · rcases ih (depth + 1) with h | h
        · exact .inl (by rw [nested, if_pos hopen]; exact h)
        · exact .inr (by rw [h])
      · subst hzero
        exact .inl rfl
      · obtain ⟨k, rfl⟩ := Nat.exists_eq_succ_of_ne_zero hzero
        rcases ih k with h | h
        · refine .inl ?_
          rw [nested, if_neg hopen, if_pos hclose]
          exact h
        · exact .inr (by rw [h])
      · rcases ih depth with h | h
        · refine .inl ?_
          rw [nested, if_neg hopen, if_neg hclose]
          simpa using h
        · exact .inr (by rw [h])

theorem collectChecks_cons {t : Token} (ht : t ≠ .keyword "check") (before rest : List Token) :
    collectChecks before (t :: rest) = collectChecks (t :: before) rest := by
  rw [collectChecks, if_neg fun h => ht h.1]

theorem collectChecks_append {pre : List Token} (hpre : ∀ t ∈ pre, t ≠ .keyword "check")
    (before rest : List Token) :
    collectChecks before (pre ++ rest) = collectChecks (pre.reverse ++ before) rest := by
  induction pre generalizing before with
  | nil => rfl
  | cons t pre ih =>
      obtain ⟨ht, hpre⟩ := List.forall_mem_cons.mp hpre
      rw [List.cons_append, collectChecks_cons ht, ih hpre, List.reverse_cons, List.append_assoc]
      rfl

theorem collectChecks_opening (before ts : List Token) : ∃ passed,
    collectChecks before (.keyword "check" :: opening :: ts) =
      ⟨checkName before, (readExpression 1 ts).1⟩ ::
        collectChecks passed (readExpression 1 ts).2 := by
  rw [collectChecks, if_pos ⟨rfl, rfl⟩]
  exact ⟨_, rfl⟩

/-- A named check whose expression is nested, wherever it stands. -/
theorem collectChecks_check (name : List Char) {e : List Token} (he : nested true 0 e = true)
    (before rest : List Token) : ∃ passed, collectChecks before
      (.keyword "constraint" :: .id name :: .keyword "check" :: opening ::
        (e ++ closing :: rest)) = ⟨some name, e⟩ :: collectChecks passed rest := by
  obtain ⟨passed, hpassed⟩ := collectChecks_opening
    (.id name :: .keyword "constraint" :: before) (e ++ closing :: rest)
  rw [readExpression_nested he rest] at hpassed
  have hname : Token.id name ≠ .keyword "check" := fun h => Token.noConfusion h
  rw [collectChecks_cons (by decide), collectChecks_cons hname, hpassed]
  exact ⟨passed, rfl⟩

/-- Every check that is found closes, or it goes to the end. -/
theorem collectChecks_cases {before ts : List Token} {check : PhysicalCheck}
    (h : check ∈ collectChecks before ts) :
    nested true 0 check.expression = true ∨ check.expression <:+ ts := by
  induction before, ts using collectChecks.induct with
  | case1 before => rw [collectChecks] at h; exact absurd h List.not_mem_nil
  | case2 before t rest hcheck read passed ih =>
      rw [collectChecks, if_pos hcheck] at h
      rcases List.mem_cons.mp h with rfl | h
      · rcases readExpression_cases 0 rest.tail with hnested | hall
        · exact .inl hnested
        · refine .inr ?_
          rw [hall]
          exact (List.tail_suffix rest).trans (List.suffix_cons t rest)
      · refine (ih h).imp_right fun hsuffix => hsuffix.trans ?_
        exact ((readExpression_suffix 1 rest.tail).trans (List.tail_suffix rest)).trans
          (List.suffix_cons t rest)
  | case3 before t rest hcheck ih =>
      rw [collectChecks, if_neg hcheck] at h
      exact (ih h).imp_right fun hsuffix => hsuffix.trans (List.suffix_cons t rest)

/-- The checks that are found in a text, whatever stands around it. -/
def Found (ts : List Token) (checks : List PhysicalCheck) : Prop :=
  ∀ before rest, ∃ passed, collectChecks before (ts ++ rest) = checks ++ collectChecks passed rest

theorem Found.append {ts us : List Token} {cs ds : List PhysicalCheck} (hs : Found ts cs)
    (hu : Found us ds) : Found (ts ++ us) (cs ++ ds) := by
  intro before rest
  obtain ⟨passed, hpassed⟩ := hs before (us ++ rest)
  obtain ⟨passed', hpassed'⟩ := hu passed rest
  exact ⟨passed', by rw [List.append_assoc, hpassed, hpassed', List.append_assoc]⟩

theorem found_free {ts : List Token} (h : ∀ t ∈ ts, t ≠ .keyword "check") : Found ts [] :=
  fun before rest => ⟨ts.reverse ++ before, collectChecks_append h before rest⟩

theorem found_intercalate {items : List (List Token)} {css : List (List PhysicalCheck)}
    (h : List.Forall₂ Found items css) : Found ([comma].intercalate items) css.flatten := by
  induction h with
  | nil => exact found_free fun t ht => absurd ht List.not_mem_nil
  | cons hfirst hrest ih =>
      cases hrest with
      | nil =>
          rw [List.intercalate_singleton, List.flatten_singleton]
          exact hfirst
      | cons hnext hrest =>
          rw [List.intercalate_cons_cons, List.append_assoc, List.flatten_cons]
          refine hfirst.append ?_
          have hcomma : Found [comma] [] := found_free (by decide)
          exact hcomma.append ih

theorem Found.collect {ts : List Token} {checks : List PhysicalCheck} (h : Found ts checks) :
    collectChecks [] ts = checks := by
  obtain ⟨passed, hpassed⟩ := h [] []
  rwa [List.append_nil, collectChecks, List.append_nil] at hpassed

end Esdb.PhysicalSchema
