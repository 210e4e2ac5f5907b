import Mathlib.Data.Char
import Mathlib.Data.List.Basic

/-!
# Pieces of SQL texts

Comments, quoted pieces and words as the scanners of the schema compiler read them: each
function takes the text behind an opening and says how much of it belongs to the piece.
What follows a piece that has ended does not matter to it.
-/
namespace SqlText

/-- `toUpperCase` of a character, as far as the result can stand in an ASCII word. -/
def upperChar (c : Char) : List Char :=
  match c with
  | 'ı' => ['I']
  | 'ſ' => ['S']
  | 'ß' => ['S', 'S']
  | 'ﬀ' => ['F', 'F']
  | 'ﬁ' => ['F', 'I']
  | 'ﬂ' => ['F', 'L']
  | 'ﬃ' => ['F', 'F', 'I']
  | 'ﬄ' => ['F', 'F', 'L']
  | 'ﬅ' => ['S', 'T']
  | 'ﬆ' => ['S', 'T']
  | c => [c.toUpper]

def toUpperCase (s : List Char) : List Char := s.flatMap upperChar

def asciiLower (s : List Char) : List Char := s.map Char.toLower

def capitals : List Char := "ABCDEFGHIJKLMNOPQRSTUVWXYZ".toList

theorem mem_capitals {c : Char} (h : 'A' ≤ c ∧ c ≤ 'Z') : c ∈ capitals := by
  have hmem : ∀ n < 91, 65 ≤ n → Char.ofNat n ∈ capitals := by decide
  have hlow : 65 ≤ c.toNat := h.1
  have hhigh : c.toNat ≤ 90 := h.2
  have hc := hmem c.toNat (by omega) hlow
  rwa [Char.ofNat_toNat] at hc

theorem toLower_eq {c : Char} (h : c ∉ capitals) : c.toLower = c :=
  dif_neg fun hc => h (mem_capitals hc)

/-- What a small letter has when the capital has it, every character keeps. -/
theorem toLower_keeps {β : Type} {p : Char → β} (h : ∀ c ∈ capitals, p c.toLower = p c) (c : Char) :
    p c.toLower = p c := by
  by_cases hc : c ∈ capitals
  · exact h c hc
  · rw [toLower_eq hc]

/-- What is so of every element is found so by going through the list. -/
theorem forall_of_all {α : Type} {p : α → Prop} [DecidablePred p] {l : List α}
    (h : (l.all fun a => decide (p a)) = true) : ∀ a ∈ l, p a :=
  fun a ha => of_decide_eq_true (List.all_eq_true.mp h a ha)

/-- The length of a block comment after its opening. -/
def skipBlock : List Char → Option ℕ
  | [] => none
  | '*' :: '/' :: _ => some 2
  | _ :: s => (skipBlock s).map (· + 1)

/-- A quoted piece after its opening quote, with its length. The quote doubled stands for
itself, save for a bracket. -/
def readQuoted (close : Char) : List Char → Option (List Char × ℕ)
  | [] => none
  | [c] => if c = close then some ([], 1) else none
  | c :: d :: s =>
      if c = close then
        if close ≠ ']' ∧ d = close then
          (readQuoted close s).map fun p => (close :: p.1, p.2 + 2)
        else some ([], 1)
      else (readQuoted close (d :: s)).map fun p => (c :: p.1, p.2 + 1)

example : skipBlock " a*/b".toList = some 4 := by simp [skipBlock]

example : readQuoted '"' "a\"\"b\" c".toList = some ("a\"b".toList, 5) := by simp [readQuoted]

theorem takeWhile_append {p : Char → Bool} {r : List Char} (hr : ∀ b, r.head? = some b → p b = false)
    (s : List Char) : (s ++ r).takeWhile p = s.takeWhile p := by
  induction s with
  | nil =>
      cases r with
      | nil => rfl
      | cons b r => exact List.takeWhile_cons_of_neg (by simp [hr b rfl])
  | cons c s ih =>
      cases hc : p c with
      | false => simp [hc]
      | true => simp [hc, ih]

theorem length_takeWhile_le (p : Char → Bool) (s : List Char) :
    (s.takeWhile p).length ≤ s.length :=
  (List.takeWhile_prefix p).length_le

theorem takeWhile_within {p : Char → Bool} {s r : List Char}
    (h : ((s ++ r).takeWhile p).length ≤ s.length) : s.takeWhile p = (s ++ r).takeWhile p := by
  induction s with
  | nil => exact (List.length_eq_zero_iff.mp (Nat.le_zero.mp h)).symm
  | cons c s ih =>
      cases hc : p c with
      | false => simp [hc]
      | true =>
          simp only [List.cons_append, List.takeWhile_cons, hc, if_true, List.length_cons,
            Nat.succ_le_succ_iff] at h ⊢
          rw [ih h]

theorem skipBlock_other {c : Char} {s : List Char} (h : c ≠ '*' ∨ s.head? ≠ some '/') :
    skipBlock (c :: s) = (skipBlock s).map (· + 1) := by
  rw [skipBlock]
  rintro t rfl rfl
  rcases h with h | h
  · exact h rfl
  · exact h rfl

theorem skipBlock_le {s : List Char} {n : ℕ} (h : skipBlock s = some n) : n ≤ s.length := by
  induction s using skipBlock.induct generalizing n with
  | case1 => cases h
  | case2 s =>
      obtain rfl := Option.some.inj h
      exact Nat.le_add_left 2 _
  | case3 c s hend ih =>
      rw [skipBlock.eq_3 _ _ hend] at h
      obtain ⟨m, hm, rfl⟩ := Option.map_eq_some_iff.mp h
      exact Nat.succ_le_succ (ih hm)

theorem skipBlock_append {s : List Char} {n : ℕ} (h : skipBlock s = some n) (r : List Char) :
    skipBlock (s ++ r) = some n := by
  induction s using skipBlock.induct generalizing n with
  | case1 => cases h
  | case2 s => exact h
  | case3 c s hend ih =>
      rw [skipBlock.eq_3 _ _ hend] at h
      obtain ⟨m, hm, rfl⟩ := Option.map_eq_some_iff.mp h
      have hopen : c ≠ '*' ∨ (s ++ r).head? ≠ some '/' := by
        by_contra hclosed
        obtain ⟨hc, hs⟩ := not_or.mp hclosed
        cases s with
        | nil => cases hm
        | cons d s =>
            obtain rfl : d = '/' := Option.some.inj (not_not.mp hs)
            exact hend s (not_not.mp hc) rfl
      rw [List.cons_append, skipBlock_other hopen, ih hm]
      rfl

theorem skipBlock_pos {s : List Char} {n : ℕ} (h : skipBlock s = some n) : 2 ≤ n := by
  induction s using skipBlock.induct generalizing n with
  | case1 => cases h
  | case2 s => exact Nat.le_of_eq (Option.some.inj h)
  | case3 c s hend ih =>
      rw [skipBlock.eq_3 _ _ hend] at h
      obtain ⟨m, hm, rfl⟩ := Option.map_eq_some_iff.mp h
      exact Nat.le_succ_of_le (ih hm)

theorem skipBlock_within {s r : List Char} {n : ℕ} (h : skipBlock (s ++ r) = some n)
    (hle : n ≤ s.length) : skipBlock s = some n := by
  induction s generalizing n with
  | nil =>
      have hpos := skipBlock_pos h
      exact absurd (Nat.le_trans hpos hle) (by simp)
  | cons c s ih =>
      by_cases hend : c = '*' ∧ (s ++ r).head? = some '/'
      · obtain ⟨rfl, hs⟩ := hend
        cases s with
        | nil =>
            obtain ⟨t, ht⟩ := List.head?_eq_some_iff.mp hs
            rw [List.singleton_append, show r = '/' :: t from ht, skipBlock] at h
            obtain rfl := Option.some.inj h
            exact absurd hle (by decide)
        | cons d s =>
            obtain rfl : d = '/' := Option.some.inj hs
            exact h
      · have hopen := not_and_or.mp hend
        rw [List.cons_append, skipBlock_other hopen] at h
        obtain ⟨m, hm, rfl⟩ := Option.map_eq_some_iff.mp h
        have hopen' : c ≠ '*' ∨ s.head? ≠ some '/' := by
          refine hopen.imp_right fun hs hhead => hs ?_
          rw [List.head?_append, hhead]
          rfl
        rw [skipBlock_other hopen', ih hm (Nat.succ_le_succ_iff.mp hle)]
        rfl

theorem readQuoted_other {close c : Char} (h : c ≠ close) (s : List Char) :
    readQuoted close (c :: s) = (readQuoted close s).map fun p => (c :: p.1, p.2 + 1) := by
  cases s with
  | nil => exact if_neg h
  | cons d s => rw [readQuoted, if_neg h]

theorem readQuoted_end {close : Char} {s : List Char} (h : s.head? = some close → close = ']') :
    readQuoted close (close :: s) = some ([], 1) := by
  cases s with
  | nil => exact if_pos rfl
  | cons d s =>
      rw [readQuoted, if_pos rfl, if_neg]
      rintro ⟨hbracket, rfl⟩
      exact hbracket (h rfl)

theorem readQuoted_pos {close : Char} {s : List Char} {p : List Char × ℕ}
    (h : readQuoted close s = some p) : 1 ≤ p.2 := by
  cases s with
  | nil => cases h
  | cons c s =>
      by_cases hc : c = close
      · subst hc
        by_cases hend : s.head? = some c → c = ']'
        · rw [readQuoted_end hend] at h
          exact Option.some.inj h ▸ le_refl 1
        · obtain ⟨hs, hbracket⟩ := not_forall.mp hend
          obtain ⟨s, rfl⟩ := List.head?_eq_some_iff.mp hs
          rw [readQuoted, if_pos rfl, if_pos ⟨hbracket, rfl⟩] at h
          obtain ⟨q, -, rfl⟩ := Option.map_eq_some_iff.mp h
          exact Nat.le_add_left 1 _
      · rw [readQuoted_other hc] at h
        obtain ⟨q, -, rfl⟩ := Option.map_eq_some_iff.mp h
        exact Nat.le_add_left 1 _

/-- What a piece is does not depend on the text behind it. -/
theorem readQuoted_within {close : Char} {s r : List Char} {p : List Char × ℕ}
    (h : readQuoted close (s ++ r) = some p) (hle : p.2 ≤ s.length) :
    readQuoted close s = some p := by
  induction s using readQuoted.induct close generalizing p with
  | case1 => exact absurd (Nat.le_trans (readQuoted_pos h) hle) (by simp)
  | case2 =>
      by_cases hend : r.head? = some close → close = ']'
      · rw [List.singleton_append, readQuoted_end hend] at h
        exact (if_pos rfl).trans h
      · obtain ⟨hr, hbracket⟩ := not_forall.mp hend
        obtain ⟨r, rfl⟩ := List.head?_eq_some_iff.mp hr
        rw [List.singleton_append, readQuoted, if_pos rfl, if_pos ⟨hbracket, rfl⟩] at h
        obtain ⟨q, -, rfl⟩ := Option.map_eq_some_iff.mp h
        exact absurd hle (by simp)
  | case3 c hc =>
      rw [List.singleton_append, readQuoted_other hc] at h
      obtain ⟨q, hq, rfl⟩ := Option.map_eq_some_iff.mp h
      have hpos := readQuoted_pos hq
      exact absurd hle (by simp only [List.length_singleton]; omega)
  | case4 d s hd ih =>
      rw [List.cons_append, List.cons_append, readQuoted, if_pos rfl, if_pos hd] at h
      obtain ⟨q, hq, rfl⟩ := Option.map_eq_some_iff.mp h
      rw [readQuoted, if_pos rfl, if_pos hd, ih hq (Nat.add_le_add_iff_right.mp hle)]
      rfl
  | case5 d s hd =>
      rw [List.cons_append, List.cons_append, readQuoted, if_pos rfl, if_neg hd] at h
      rw [readQuoted, if_pos rfl, if_neg hd, h]
  | case6 c d s hc ih =>
      rw [List.cons_append, readQuoted_other hc] at h
      obtain ⟨q, hq, rfl⟩ := Option.map_eq_some_iff.mp h
      rw [readQuoted_other hc, ih hq (Nat.add_le_add_iff_right.mp hle)]
      rfl

/-- A piece does not see what stands behind it, unless it ends there and a quote follows. -/
theorem readQuoted_append {close : Char} {r s : List Char} {p : List Char × ℕ}
    (h : readQuoted close s = some p)
    (hr : p.2 = s.length → r.head? = some close → close = ']') :
    p.2 ≤ s.length ∧ readQuoted close (s ++ r) = some p := by
  induction s using readQuoted.induct close generalizing p with
  | case1 => cases h
  | case2 =>
      rw [readQuoted, if_pos rfl] at h
      obtain rfl := Option.some.inj h
      exact ⟨le_refl _, readQuoted_end (hr rfl)⟩
  | case3 c hc =>
      rw [readQuoted, if_neg hc] at h
      cases h
  | case4 d s hd ih =>
      rw [readQuoted, if_pos rfl, if_pos hd] at h
      obtain ⟨q, hq, rfl⟩ := Option.map_eq_some_iff.mp h
      obtain ⟨hle, happend⟩ := ih hq fun hn => hr (congrArg (· + 2) hn)
      refine ⟨Nat.add_le_add_right hle 2, ?_⟩
      rw [List.cons_append, List.cons_append, readQuoted, if_pos rfl, if_pos hd, happend]
      rfl
  | case5 d s hd =>
      rw [readQuoted, if_pos rfl, if_neg hd] at h
      obtain rfl := Option.some.inj h
      refine ⟨Nat.succ_le_succ (Nat.zero_le _), ?_⟩
      rw [List.cons_append, List.cons_append, readQuoted, if_pos rfl, if_neg hd]
  | case6 c d s hc ih =>
      rw [readQuoted, if_neg hc] at h
      obtain ⟨q, hq, rfl⟩ := Option.map_eq_some_iff.mp h
      obtain ⟨hle, happend⟩ := ih hq fun hn => hr (congrArg (· + 1) hn)
      refine ⟨Nat.succ_le_succ hle, ?_⟩
      rw [List.cons_append, List.cons_append, readQuoted, if_neg hc, ← List.cons_append, happend]
      rfl

/-- A quote within quotes is doubled. -/
def escape (quote : Char) (s : List Char) : List Char :=
  s.flatMap fun c => if c = quote then [quote, quote] else [c]

theorem escape_eq {quote : Char} {s : List Char} (h : ∀ c ∈ s, c ≠ quote) : escape quote s = s := by
  induction s with
  | nil => rfl
  | cons c s ih =>
      obtain ⟨hc, hs⟩ := List.forall_mem_cons.mp h
      rw [escape, List.flatMap_cons, if_neg hc]
      exact congrArg (c :: ·) (ih hs)

/-- What was quoted is read back. -/
theorem readQuoted_escape {quote : Char} (hquote : quote ≠ ']') (s : List Char) {r : List Char}
    (hr : r.head? ≠ some quote) :
    readQuoted quote (escape quote s ++ quote :: r) = some (s, (escape quote s).length + 1) := by
  induction s with
  | nil =>
      cases r with
      | nil => exact if_pos rfl
      | cons d r =>
          have hd : d ≠ quote := fun h => hr (congrArg some h)
          rw [escape, List.flatMap_nil, List.nil_append, readQuoted, if_pos rfl,
            if_neg fun h => hd h.2]
          rfl
  | cons c s ih =>
      by_cases hc : c = quote
      · have hcons : escape quote (c :: s) = quote :: quote :: escape quote s := by
          rw [escape, List.flatMap_cons, if_pos hc]
          rfl
        rw [hcons, List.cons_append, List.cons_append, readQuoted, if_pos rfl,
          if_pos ⟨hquote, rfl⟩, ih, hc]
        rfl
      · have hcons : escape quote (c :: s) = c :: escape quote s := by
          rw [escape, List.flatMap_cons, if_neg hc]
          rfl
        obtain ⟨d, t, ht⟩ := List.exists_cons_of_ne_nil
          (List.append_ne_nil_of_right_ne_nil (escape quote s) (List.cons_ne_nil quote r))
        rw [hcons, List.cons_append, ht, readQuoted, if_neg hc, ← ht, ih]
        rfl

end SqlText
