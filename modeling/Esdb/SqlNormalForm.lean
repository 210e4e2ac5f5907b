import Esdb.SqlTokens
import Mathlib.Data.List.TakeWhile

/-!
# The normal form of a SQL text

The tokens of a text, written one after the other with single spaces, have the same tokens.
A token is read from the characters that are its own: a text in front of another one is read
as it is alone, if no token goes over its end.
-/
namespace Esdb.SqlTokens

open SqlText

/-! ## What stands behind a token -/

theorem digitsLength_within {s r : List Char} (h : digitsLength (s ++ r) ≤ s.length) :
    digitsLength s = digitsLength (s ++ r) :=
  congrArg List.length (takeWhile_within h)

theorem fractionLength_within {s r : List Char} (h : fractionLength (s ++ r) ≤ s.length) :
    fractionLength s = fractionLength (s ++ r) := by
  cases s with
  | nil => exact (Nat.le_zero.mp h).symm
  | cons c s =>
      rw [List.cons_append, fractionLength, List.length_cons] at h
      rw [List.cons_append, fractionLength, fractionLength]
      by_cases hc : c = '.'
      · rw [if_pos hc] at h
        have hsame : digitsLength s = digitsLength (s ++ r) := digitsLength_within (by omega)
        rw [if_pos hc, if_pos hc, hsame]
      · rw [if_neg hc, if_neg hc]

theorem exponentLength_within {s r : List Char} (h : exponentLength (s ++ r) ≤ s.length) :
    exponentLength s = exponentLength (s ++ r) := by
  cases s with
  | nil => exact (Nat.le_zero.mp h).symm
  | cons c s =>
      cases s with
      | nil =>
          have hempty : exponentLength [c] = 0 := exponentLength_stop stop_nil c
          rw [hempty]
          simp only [List.cons_append, exponentLength, List.length_singleton] at h ⊢
          split_ifs at h ⊢ <;> omega
      | cons d s =>
          have hhead (b : Char) : (d :: s ++ r).head? = some b ↔ (d :: s).head? = some b := Iff.rfl
          have hlength : (d :: s).length = s.length + 1 := rfl
          generalize d :: s = t at *
          simp only [List.cons_append, exponentLength, hhead, List.length_cons,
            List.drop_append_of_le_length (sign_le t)] at h ⊢
          have hsign := sign_le t
          generalize (if t.head? = some '+' ∨ t.head? = some '-' then 1 else 0) = sign at *
          have hdrop := List.length_drop (i := sign) (l := t)
          by_cases he : c = 'e' ∨ c = 'E'
          · rw [if_pos he] at h
            rw [if_pos he, if_pos he]
            have hsame : digitsLength (t.drop sign) = digitsLength (t.drop sign ++ r) := by
              refine digitsLength_within ?_
              by_cases hzero : digitsLength (t.drop sign ++ r) = 0
              · omega
              · rw [if_neg hzero] at h
                omega
            rw [hsame]
          · rw [if_neg he, if_neg he]

theorem decimalLength_within {ch : Char} {s r : List Char} :
    let whole := digitsLength (s ++ r)
    let fraction := if ch = '.' then 0 else fractionLength ((s ++ r).drop whole)
    whole + fraction + exponentLength ((s ++ r).drop (whole + fraction)) ≤ s.length →
      digitsLength s = whole ∧ (if ch = '.' then 0 else fractionLength (s.drop whole)) = fraction ∧
        exponentLength (s.drop (whole + fraction)) =
          exponentLength ((s ++ r).drop (whole + fraction)) := by
  intro whole fraction h
  have hwhole : digitsLength s = whole := digitsLength_within (by omega)
  have hfraction : (if ch = '.' then 0 else fractionLength (s.drop whole)) = fraction := by
    dsimp only [fraction] at h ⊢
    by_cases hch : ch = '.'
    · rw [if_pos hch, if_pos hch]
    · rw [if_neg hch] at h
      rw [if_neg hch, if_neg hch]
      rw [List.drop_append_of_le_length (by omega)] at h ⊢
      refine fractionLength_within ?_
      rw [List.length_drop]
      omega
  refine ⟨hwhole, hfraction, ?_⟩
  rw [List.drop_append_of_le_length (by omega)] at h ⊢
  refine exponentLength_within ?_
  rw [List.length_drop]
  omega

theorem takeWhile_ne_nil {p : Char → Bool} {s : List Char} (r : List Char)
    (h : (s.takeWhile p).length ≠ 0) : ((s ++ r).takeWhile p).length ≠ 0 := by
  cases s with
  | nil => exact absurd rfl h
  | cons c s =>
      cases hc : p c with
      | false => simp [hc] at h
      | true => simp [hc]

theorem numericLength_within {ch : Char} {s r : List Char}
    (h : numericLength ch (s ++ r) ≤ s.length) : numericLength ch s = numericLength ch (s ++ r) := by
  simp only [numericLength] at h ⊢
  cases s with
  | nil =>
      by_cases hhex : ch = '0' ∧ (r.head? = some 'x' ∨ r.head? = some 'X') ∧
          ((r.drop 1).takeWhile isHexDigit).length ≠ 0
      · rw [List.nil_append, if_pos hhex] at h
        exact absurd h (by simp)
      · rw [List.nil_append, if_neg hhex] at h
        rw [List.nil_append, if_neg hhex, Nat.le_zero.mp h]
        simp [digitsLength, fractionLength, exponentLength]
  | cons c s =>
      rw [List.cons_append] at h ⊢
      simp only [List.head?_cons, List.drop_succ_cons, List.drop_zero, List.length_cons] at h ⊢
      by_cases hhex : ch = '0' ∧ (some c = some 'x' ∨ some c = some 'X') ∧
          ((s ++ r).takeWhile isHexDigit).length ≠ 0
      · rw [if_pos hhex] at h
        have hsame := takeWhile_within (p := isHexDigit) (s := s) (r := r) (by omega)
        rw [if_pos hhex, if_pos (by rwa [hsame]), hsame]
      · have hhex' : ¬(ch = '0' ∧ (some c = some 'x' ∨ some c = some 'X') ∧
            (s.takeWhile isHexDigit).length ≠ 0) :=
          fun h' => hhex ⟨h'.1, h'.2.1, takeWhile_ne_nil r h'.2.2⟩
        rw [if_neg hhex] at h
        rw [if_neg hhex, if_neg hhex']
        rw [← List.cons_append] at h ⊢
        obtain ⟨hwhole, hfraction, hexponent⟩ := decimalLength_within (s := c :: s) h
        rw [hwhole, hfraction, hexponent]

theorem operatorLength_within {ch : Char} {s r : List Char}
    (h : operatorLength ch (s ++ r) ≤ s.length) :
    operatorLength ch s = operatorLength ch (s ++ r) := by
  have hshort (c : Char) : ch :: [c].take 2 ≠ "->>".toList := by simp
  have hempty : operatorLength ch [] = 0 := by simp [operatorLength, operatorPairs]
  cases s with
  | nil => rw [hempty, Nat.le_zero.mp h]
  | cons c s =>
      cases s with
      | nil =>
          have hthree : ch :: ([c] ++ r).take 2 ≠ "->>".toList := by
            intro hop
            rw [operatorLength, if_pos hop] at h
            exact absurd h (by simp)
          rw [operatorLength, operatorLength, if_neg hthree, if_neg (hshort c)]
          rfl
      | cons d s => rfl

theorem quotedTurn_within {close : Char} {error : String}
    {token : List Char → Except String Token} {s r : List Char} {p : ℕ × Option Token}
    (h : quotedTurn close (s ++ r) error token = .ok p) (hle : p.1 ≤ s.length) :
    quotedTurn close s error token = .ok p := by
  unfold quotedTurn at h ⊢
  cases hread : readQuoted close (s ++ r) with
  | none =>
      rw [hread] at h
      cases h
  | some q =>
      rw [hread] at h
      cases htoken : token q.1 with
      | error e => simp [htoken, Except.map] at h
      | ok t =>
          simp only [htoken, Except.map, Except.ok.injEq] at h
          obtain rfl := h
          rw [readQuoted_within hread hle]
          simp only [htoken, Except.map]

theorem head?_of_head {s : List Char} {c : Char} (h : s.head? = some c) (r : List Char) :
    (s ++ r).head? = some c := by
  rw [List.head?_append, h]
  rfl

theorem isNumericStart_append {ch : Char} {s : List Char} (r : List Char)
    (h : isNumericStart ch s = true) : isNumericStart ch (s ++ r) = true := by
  cases s with
  | nil =>
      simp only [isNumericStart, List.head?_nil, Option.any_none, Bool.and_false, Bool.or_false] at h
      rw [isNumericStart, h, Bool.true_or]
  | cons c s => exact h

theorem isNumericStart_within {ch : Char} {s r : List Char}
    (h : isNumericStart ch (s ++ r) = true) (hle : numericLength ch (s ++ r) ≤ s.length) :
    isNumericStart ch s = true := by
  cases s with
  | cons c s => exact h
  | nil =>
      rw [List.nil_append] at h hle
      rw [isNumericStart, Bool.or_eq_true] at h
      rcases h with hdigit | hdot
      · rw [isNumericStart, hdigit, Bool.true_or]
      · rw [Bool.and_eq_true, decide_eq_true_eq] at hdot
        obtain ⟨rfl, hr⟩ := hdot
        cases r with
        | nil => cases hr
        | cons d r =>
            have hd : d.isDigit = true := hr
            have hpos : 1 ≤ digitsLength (d :: r) := by
              rw [digitsLength, List.takeWhile_cons_of_pos hd, List.length_cons]
              omega
            have hnone : ¬(('.' : Char) = '0' ∧ ((d :: r).head? = some 'x' ∨
                (d :: r).head? = some 'X') ∧
                  (((d :: r).drop 1).takeWhile isHexDigit).length ≠ 0) :=
              fun h => absurd h.1 (by decide)
            simp only [numericLength, if_neg hnone] at hle
            exact absurd hle (by rw [List.length_nil]; omega)

/-- A turn that stays within a text is a turn on that text. -/
theorem turn_within {ch : Char} {s r : List Char} {p : ℕ × Option Token}
    (h : turn ch (s ++ r) = .ok p) (hle : p.1 ≤ s.length) : turn ch s = .ok p := by
  by_cases hspace : isSpace ch = true
  · rw [turn, if_pos hspace] at h ⊢
    exact h
  by_cases hdash : ch = '-' ∧ (s ++ r).head? = some '-'
  · rw [turn, if_neg hspace, if_pos hdash] at h
    obtain rfl := Except.ok.inj h
    cases s with
    | nil => exact absurd hle (by simp)
    | cons c s =>
        rw [List.cons_append, List.tail_cons, List.length_cons] at hle
        have hsame := takeWhile_within (p := (· ≠ '\n')) (s := s) (r := r) (by omega)
        have hdash' : ch = '-' ∧ (c :: s).head? = some '-' := hdash
        rw [turn, if_neg hspace, if_pos hdash', List.cons_append, List.tail_cons, List.tail_cons,
          hsame]
  have hdash' : ¬(ch = '-' ∧ s.head? = some '-') :=
    fun h => hdash ⟨h.1, head?_of_head h.2 r⟩
  by_cases hslash : ch = '/' ∧ (s ++ r).head? = some '*'
  · rw [turn, if_neg hspace, if_neg hdash, if_pos hslash] at h
    cases hskip : skipBlock (s ++ r).tail with
    | none =>
        rw [hskip] at h
        cases h
    | some n =>
        rw [hskip] at h
        obtain rfl := Except.ok.inj h
        cases s with
        | nil => exact absurd hle (by simp)
        | cons c s =>
            rw [List.cons_append, List.tail_cons] at hskip
            rw [List.length_cons] at hle
            have hslash' : ch = '/' ∧ (c :: s).head? = some '*' := hslash
            rw [turn, if_neg hspace, if_neg hdash', if_pos hslash', List.tail_cons,
              skipBlock_within hskip (by omega)]
  have hslash' : ¬(ch = '/' ∧ s.head? = some '*') :=
    fun h => hslash ⟨h.1, head?_of_head h.2 r⟩
  by_cases hblob : (ch = 'x' ∨ ch = 'X') ∧ (s ++ r).head? = some '\''
  · rw [turn, if_neg hspace, if_neg hdash, if_neg hslash, if_pos hblob] at h
    cases hquoted : quotedTurn '\'' (s ++ r).tail unterminatedQuote fun value =>
        if isHexPairs value then .ok (.blob (value.map Char.toUpper))
        else .error "PHY003 invalid SQLite blob literal" with
    | error e =>
        rw [hquoted] at h
        cases h
    | ok q =>
        rw [hquoted] at h
        obtain rfl := Except.ok.inj h
        cases s with
        | nil => exact absurd hle (by simp)
        | cons c s =>
            rw [List.cons_append, List.tail_cons] at hquoted
            rw [List.length_cons] at hle
            have hblob' : (ch = 'x' ∨ ch = 'X') ∧ (c :: s).head? = some '\'' := hblob
            rw [turn, if_neg hspace, if_neg hdash', if_neg hslash', if_pos hblob', List.tail_cons,
              quotedTurn_within hquoted (by simp only at hle; omega)]
            rfl
  have hblob' : ¬((ch = 'x' ∨ ch = 'X') ∧ s.head? = some '\'') :=
    fun h => hblob ⟨h.1, head?_of_head h.2 r⟩
  rw [turn, if_neg hspace, if_neg hdash, if_neg hslash, if_neg hblob] at h
  rw [turn, if_neg hspace, if_neg hdash', if_neg hslash', if_neg hblob']
  by_cases hstring : ch = '\''
  · rw [if_pos hstring] at h ⊢
    exact quotedTurn_within h hle
  rw [if_neg hstring] at h ⊢
  by_cases hname : ch = '"' ∨ ch = '\x60'
  · rw [if_pos hname] at h ⊢
    exact quotedTurn_within h hle
  rw [if_neg hname] at h ⊢
  by_cases hopen : ch = '['
  · rw [if_pos hopen] at h ⊢
    exact quotedTurn_within h hle
  rw [if_neg hopen] at h ⊢
  by_cases hnumeric : isNumericStart ch (s ++ r) = true
  · rw [if_pos hnumeric] at h
    obtain rfl := Except.ok.inj h
    rw [if_pos (isNumericStart_within hnumeric hle), numericLength_within hle,
      List.take_append_of_le_length hle]
  · have hnumeric' : ¬isNumericStart ch s = true := fun h => hnumeric (isNumericStart_append r h)
    rw [if_neg hnumeric] at h
    rw [if_neg hnumeric']
    by_cases hsymbol : isSymbolStart ch = true
    · rw [if_pos hsymbol] at h ⊢
      obtain rfl := Except.ok.inj h
      rw [operatorLength_within hle, List.take_append_of_le_length hle]
    · rw [if_neg hsymbol] at h ⊢
      obtain rfl := Except.ok.inj h
      have hword : ((s ++ r).takeWhile isWordPart).length ≤ s.length := by
        simpa using hle
      simp only [takeWhile_within hword]

/-! ## Case -/

/-- No letter is this character in either case. -/
def Caseless (c : Char) : Prop := ∀ k ∈ capitals, k ≠ c ∧ k.toLower ≠ c

instance (c : Char) : Decidable (Caseless c) :=
  decidable_of_iff ((capitals.all fun k => decide (k ≠ c ∧ k.toLower ≠ c)) = true)
    ⟨forall_of_all, fun h => List.all_eq_true.mpr fun k hk => decide_eq_true (h k hk)⟩

theorem Caseless.iff {c : Char} (h : Caseless c) (d : Char) : d.toLower = c ↔ d = c := by
  rw [← decide_eq_decide]
  refine toLower_keeps (p := fun d => decide (d = c)) (fun k hk => ?_) d
  obtain ⟨hcapital, hsmall⟩ := h k hk
  rw [decide_eq_false hcapital, decide_eq_false hsmall]

theorem toLower_toLower (c : Char) : c.toLower.toLower = c.toLower :=
  toLower_keeps (p := Char.toLower) (forall_of_all (by decide)) c

theorem asciiLower_asciiLower (s : List Char) : asciiLower (asciiLower s) = asciiLower s := by
  rw [asciiLower, asciiLower, List.map_map]
  exact List.map_congr_left fun c _ => toLower_toLower c

theorem isDigit_toLower (c : Char) : c.toLower.isDigit = c.isDigit :=
  toLower_keeps (p := Char.isDigit) (forall_of_all (by decide)) c

theorem isHexDigit_toLower (c : Char) : isHexDigit c.toLower = isHexDigit c :=
  toLower_keeps (forall_of_all (by decide)) c

theorem isSpace_toLower (c : Char) : isSpace c.toLower = isSpace c :=
  toLower_keeps (forall_of_all (by decide)) c

theorem isSymbolStart_toLower (c : Char) : isSymbolStart c.toLower = isSymbolStart c :=
  toLower_keeps (forall_of_all (by decide)) c

theorem isWordPart_toLower (c : Char) : isWordPart c.toLower = isWordPart c :=
  toLower_keeps (forall_of_all (by decide)) c

theorem takeWhile_asciiLower {p : Char → Bool} (hp : ∀ c, p c.toLower = p c) (s : List Char) :
    (asciiLower s).takeWhile p = asciiLower (s.takeWhile p) := by
  rw [asciiLower, List.takeWhile_map, asciiLower, Function.comp_def]
  simp only [hp]

theorem head?_asciiLower {c : Char} (hc : Caseless c) (s : List Char) :
    (asciiLower s).head? = some c ↔ s.head? = some c := by
  cases s with
  | nil => exact Iff.rfl
  | cons d s =>
      rw [asciiLower, List.map_cons, List.head?_cons, List.head?_cons, Option.some.injEq,
        Option.some.injEq]
      exact hc.iff d

/-- A letter stands first, in either case. -/
theorem letter_asciiLower {a b : Char} (h : ∀ c : Char, (c.toLower = a ∨ c.toLower = b) ↔ (c = a ∨ c = b))
    (s : List Char) : ((asciiLower s).head? = some a ∨ (asciiLower s).head? = some b) ↔
      (s.head? = some a ∨ s.head? = some b) := by
  cases s with
  | nil => exact Iff.rfl
  | cons d s =>
      simp only [asciiLower, List.map_cons, List.head?_cons, Option.some.injEq]
      exact h d

theorem isX_toLower (c : Char) : (c.toLower = 'x' ∨ c.toLower = 'X') ↔ (c = 'x' ∨ c = 'X') := by
  rw [← decide_eq_decide]
  exact toLower_keeps (p := fun c => decide (c = 'x' ∨ c = 'X')) (forall_of_all (by decide)) c

theorem isE_toLower (c : Char) : (c.toLower = 'e' ∨ c.toLower = 'E') ↔ (c = 'e' ∨ c = 'E') := by
  rw [← decide_eq_decide]
  exact toLower_keeps (p := fun c => decide (c = 'e' ∨ c = 'E')) (forall_of_all (by decide)) c

theorem drop_asciiLower (n : ℕ) (s : List Char) :
    (asciiLower s).drop n = asciiLower (s.drop n) := List.map_drop.symm

theorem take_asciiLower (n : ℕ) (s : List Char) :
    (asciiLower s).take n = asciiLower (s.take n) := List.map_take.symm

theorem length_asciiLower (s : List Char) : (asciiLower s).length = s.length := List.length_map _

theorem digitsLength_asciiLower (s : List Char) : digitsLength (asciiLower s) = digitsLength s := by
  rw [digitsLength, takeWhile_asciiLower isDigit_toLower, length_asciiLower]
  rfl

theorem fractionLength_asciiLower (s : List Char) :
    fractionLength (asciiLower s) = fractionLength s := by
  cases s with
  | nil => rfl
  | cons c s =>
      have hdot := (show Caseless '.' by decide).iff c
      have hdigits := digitsLength_asciiLower s
      rw [asciiLower, List.map_cons, ← asciiLower, fractionLength, fractionLength, hdigits]
      simp only [hdot]

theorem exponentLength_asciiLower (s : List Char) :
    exponentLength (asciiLower s) = exponentLength s := by
  cases s with
  | nil => rfl
  | cons c s =>
      rw [asciiLower, List.map_cons, ← asciiLower]
      simp only [exponentLength, isE_toLower, head?_asciiLower (show Caseless '+' by decide),
        head?_asciiLower (show Caseless '-' by decide), drop_asciiLower, digitsLength_asciiLower]

theorem numericLength_asciiLower (ch : Char) (s : List Char) :
    numericLength ch.toLower (asciiLower s) = numericLength ch s := by
  simp only [numericLength, (show Caseless '0' by decide).iff, (show Caseless '.' by decide).iff,
    letter_asciiLower isX_toLower, drop_asciiLower, takeWhile_asciiLower isHexDigit_toLower,
    length_asciiLower, digitsLength_asciiLower, fractionLength_asciiLower,
    exponentLength_asciiLower]

theorem asciiLower_eq_iff {op : List Char} (hop : ∀ c ∈ op, Caseless c) (s : List Char) :
    asciiLower s = op ↔ s = op := by
  induction op generalizing s with
  | nil => exact List.map_eq_nil_iff
  | cons c op ih =>
      obtain ⟨hc, hop⟩ := List.forall_mem_cons.mp hop
      cases s with
      | nil => exact ⟨nofun, nofun⟩
      | cons d s =>
          rw [asciiLower, List.map_cons, List.cons.injEq, List.cons.injEq]
          exact and_congr (hc.iff d) (ih hop s)

theorem operatorLength_asciiLower (ch : Char) (s : List Char) :
    operatorLength ch.toLower (asciiLower s) = operatorLength ch s := by
  have hcons (n : ℕ) : ch.toLower :: (asciiLower s).take n = asciiLower (ch :: s.take n) := by
    rw [take_asciiLower]
    rfl
  have harrow : ∀ c ∈ "->>".toList, Caseless c := forall_of_all (by decide)
  have hthree := asciiLower_eq_iff harrow (ch :: s.take 2)
  have hpairs : operatorPairs.contains (asciiLower (ch :: s.take 1)) =
      operatorPairs.contains (ch :: s.take 1) := by
    have hpair : ∀ op ∈ operatorPairs, (op.all fun c => decide (Caseless c)) = true :=
      forall_of_all (by decide)
    have hall : ∀ op ∈ operatorPairs, ∀ c ∈ op, Caseless c :=
      fun op hop => forall_of_all (hpair op hop)
    rw [Bool.eq_iff_iff, List.contains_iff_mem, List.contains_iff_mem]
    constructor
    · intro hmem
      rw [(asciiLower_eq_iff (hall _ hmem) _).mp rfl]
      exact hmem
    · intro hmem
      rwa [(asciiLower_eq_iff (hall _ hmem) _).mpr rfl]
  simp only [operatorLength, hcons, hthree, hpairs]

theorem isNumericStart_asciiLower (ch : Char) (s : List Char) :
    isNumericStart ch.toLower (asciiLower s) = isNumericStart ch s := by
  have hdot := (show Caseless '.' by decide).iff ch
  cases s with
  | nil => simp only [isNumericStart, isDigit_toLower, hdot]; rfl
  | cons d s =>
      simp only [isNumericStart, isDigit_toLower, hdot, asciiLower, List.map_cons,
        List.head?_cons, Option.any_some]

/-! ## What a token is made of -/

/-- A word begins here. -/
structure WordStart (ch : Char) (s : List Char) : Prop where
  space : isSpace ch = false
  symbol : isSymbolStart ch = false
  digit : ch.isDigit = false
  quote : ch ∉ ['\'', '"', '\x60', '[']
  blob : ¬((ch = 'x' ∨ ch = 'X') ∧ s.head? = some '\'')

/-- The kinds of tokens, with what a turn needs to know of each. -/
inductive Lexed (ch : Char) (s : List Char) (n : ℕ) : Token → Prop
  | blob {value : List Char} (h : isHexPairs value = true) :
      Lexed ch s n (.blob (value.map Char.toUpper))
  | str (value : List Char) : Lexed ch s n (.str value)
  | id (name : List Char) : Lexed ch s n (.id (asciiLower name))
  | num (h : isNumericStart ch s = true) (hn : n = numericLength ch s) :
      Lexed ch s n (.num (asciiLower (ch :: s.take n)))
  | sym (hn : n = operatorLength ch s) : Lexed ch s n (.sym (ch :: s.take n))
  | word (h : WordStart ch s) (hn : n = (s.takeWhile isWordPart).length) :
      Lexed ch s n (wordToken (ch :: s.takeWhile isWordPart))

theorem turn_word {ch : Char} {s : List Char} (h : WordStart ch s) : turn ch s =
    .ok ((s.takeWhile isWordPart).length, some (wordToken (ch :: s.takeWhile isWordPart))) := by
  have hne {c : Char} (hc : isSymbolStart c = true) : ch ≠ c := by
    rintro rfl
    rw [h.symbol] at hc
    cases hc
  have hquote := h.quote
  simp only [List.mem_cons, List.not_mem_nil, or_false, not_or] at hquote
  obtain ⟨hsingle, hdouble, hback, hopen⟩ := hquote
  have hnumeric : isNumericStart ch s = false := by
    simp [isNumericStart, h.digit, hne (c := '.') rfl]
  simp only [turn, h.space, h.symbol, hnumeric, if_neg h.blob, hne (c := '-') rfl,
    hne (c := '/') rfl, hsingle, hdouble, hback, hopen, false_and, or_self, if_false,
    Bool.false_eq_true]
  rfl

theorem turn_numeric {ch : Char} {s : List Char} (h : isNumericStart ch s = true) :
    turn ch s =
      .ok (numericLength ch s, some (.num (asciiLower (ch :: s.take (numericLength ch s))))) := by
  by_cases hdigit : ch.isDigit = true
  · exact turn_digit hdigit s
  · have hdot : ch = '.' := by
      simp only [isNumericStart, Bool.not_eq_true] at h hdigit
      rw [hdigit, Bool.false_or, Bool.and_eq_true, decide_eq_true_eq] at h
      exact h.1
    subst hdot
    simp [turn, isSpace, h]

theorem turn_lexed {ch : Char} {s : List Char} {n : ℕ} {t : Token}
    (h : turn ch s = .ok (n, some t)) : Lexed ch s n t := by
  by_cases hspace : isSpace ch = true
  · rw [turn, if_pos hspace] at h
    cases h
  by_cases hdash : ch = '-' ∧ s.head? = some '-'
  · rw [turn, if_neg hspace, if_pos hdash] at h
    cases h
  by_cases hslash : ch = '/' ∧ s.head? = some '*'
  · rw [turn, if_neg hspace, if_neg hdash, if_pos hslash] at h
    split at h <;> cases h
  by_cases hblob : (ch = 'x' ∨ ch = 'X') ∧ s.head? = some '\''
  · rw [turn, if_neg hspace, if_neg hdash, if_neg hslash, if_pos hblob] at h
    revert h
    generalize hread : quotedTurn '\'' s.tail unterminatedQuote _ = read
    intro h
    cases read with
    | error e => cases h
    | ok q =>
        obtain ⟨value, u, hu, hq⟩ := quotedTurn_token hread
        simp only [Except.map, Except.ok.injEq, Prod.mk.injEq] at h
        by_cases hhex : isHexPairs value = true
        · rw [if_pos hhex] at hu
          obtain rfl := Except.ok.inj hu
          obtain rfl := Option.some.inj (hq.symm.trans h.2)
          exact .blob hhex
        · rw [if_neg hhex] at hu
          cases hu
  rw [turn, if_neg hspace, if_neg hdash, if_neg hslash, if_neg hblob] at h
  by_cases hstring : ch = '\''
  · rw [if_pos hstring] at h
    obtain ⟨value, u, hu, hq⟩ := quotedTurn_token h
    obtain rfl := Except.ok.inj hu
    obtain rfl := Option.some.inj hq
    exact .str value
  rw [if_neg hstring] at h
  by_cases hname : ch = '"' ∨ ch = '\x60'
  · rw [if_pos hname] at h
    obtain ⟨value, u, hu, hq⟩ := quotedTurn_token h
    obtain rfl := Except.ok.inj hu
    obtain rfl := Option.some.inj hq
    exact .id value
  rw [if_neg hname] at h
  by_cases hopen : ch = '['
  · rw [if_pos hopen] at h
    obtain ⟨value, u, hu, hq⟩ := quotedTurn_token h
    obtain rfl := Except.ok.inj hu
    obtain rfl := Option.some.inj hq
    exact .id value
  rw [if_neg hopen] at h
  by_cases hnumeric : isNumericStart ch s = true
  · rw [if_pos hnumeric] at h
    cases h
    exact .num hnumeric rfl
  rw [if_neg hnumeric] at h
  by_cases hsymbol : isSymbolStart ch = true
  · rw [if_pos hsymbol] at h
    cases h
    exact .sym rfl
  · rw [if_neg hsymbol] at h
    cases h
    have hdigit : ch.isDigit = false := by
      rw [← Bool.not_eq_true]
      exact fun hd => hnumeric (by rw [isNumericStart, hd, Bool.true_or])
    obtain ⟨hdouble, hback⟩ := not_or.mp hname
    refine .word ⟨by simpa using hspace, by simpa using hsymbol, hdigit, ?_, hblob⟩ rfl
    simp [hstring, hdouble, hback, hopen]

/-! ## A token on its own -/

/-- The text of a token: names are quoted, literals escaped. -/
def Token.lexeme : Token → List Char
  | .sym op => op
  | .kw word => word
  | .id name => '"' :: (escape '"' name ++ ['"'])
  | .num value => value
  | .str value => '\'' :: (escape '\'' value ++ ['\''])
  | .blob value => 'X' :: '\'' :: (value ++ ['\''])

/-- No comment begins where a token does. -/
theorem not_comment {ch : Char} {s : List Char} {n : ℕ} {t : Token}
    (h : turn ch s = .ok (n, some t)) :
    ¬(ch = '-' ∧ s.head? = some '-') ∧ ¬(ch = '/' ∧ s.head? = some '*') := by
  constructor
  · rintro ⟨rfl, hs⟩
    simp only [turn, hs] at h
    cases (Prod.mk.inj (Except.ok.inj h)).2
  · rintro ⟨rfl, hs⟩
    obtain ⟨s, rfl⟩ := List.head?_eq_some_iff.mp hs
    simp only [turn, List.head?_cons, List.tail_cons] at h
    cases hskip : skipBlock s with
    | none => simp [hskip, isSpace] at h
    | some n => simp [hskip, isSpace] at h

/-- A text that is one token. -/
theorem open_of_turn {ch : Char} {s : List Char} {t : Token}
    (h : turn ch s = .ok (s.length, some t)) : Open (ch :: s) [t] := by
  intro r hr
  obtain ⟨hdash, hslash⟩ := not_comment h
  have hminus : r.head? ≠ some '-' := fun h => (hr '-' h).comment.1 rfl
  rw [← head?_append hminus] at hdash
  have hturn := (turn_append hr.stop hdash hslash (fun _ => hr.not_name) h).2
  have hread := tokens_cons hturn
  rw [List.drop_left] at hread
  exact hread

theorem open_name (name : List Char) :
    Open ('"' :: (escape '"' name ++ ['"'])) [.id (asciiLower name)] := by
  intro r hr
  have hturn : turn '"' (escape '"' name ++ '"' :: r) =
      .ok ((escape '"' name).length + 1, some (.id (asciiLower name))) :=
    quotedTurn_escape (by decide) name (hr.head_ne not_delimiter_double) rfl
  have hread := tokens_cons hturn
  rw [drop_quoted] at hread
  rw [List.cons_append, List.append_assoc]
  exact hread

/-- The digits of a blob once they are capital. -/
theorem capitalHex {value : List Char} (h : isHexPairs value = true) :
    isHexPairs (value.map Char.toUpper) = true ∧ (∀ c ∈ value.map Char.toUpper, c ≠ '\'') ∧
      (value.map Char.toUpper).map Char.toUpper = value.map Char.toUpper := by
  have hdigit : ∀ c ∈ "0123456789abcdefABCDEF".toList,
      isHexDigit c.toUpper = true ∧ c.toUpper ≠ '\'' ∧ c.toUpper.toUpper = c.toUpper :=
    forall_of_all (by decide)
  have hall : ∀ c ∈ value, isHexDigit c.toUpper = true ∧ c.toUpper ≠ '\'' ∧
      c.toUpper.toUpper = c.toUpper := by
    intro c hc
    have hmem := isHexPairs_hex h c hc
    rw [isHexDigit, List.contains_iff_mem] at hmem
    exact hdigit c hmem
  refine ⟨?_, fun c hc => ?_, ?_⟩
  · clear hdigit
    induction value using isHexPairs.induct with
    | case1 => rfl
    | case2 a b s ih =>
        obtain ⟨ha, hall⟩ := List.forall_mem_cons.mp hall
        obtain ⟨hb, hall⟩ := List.forall_mem_cons.mp hall
        rw [isHexPairs, Bool.and_eq_true, Bool.and_eq_true] at h
        rw [List.map_cons, List.map_cons, isHexPairs, ha.1, hb.1, ih h.2 hall]
        rfl
    | case3 a => cases h
  · obtain ⟨d, hd, rfl⟩ := List.mem_map.mp hc
    exact (hall d hd).2.1
  · rw [List.map_map]
    exact List.map_congr_left fun c hc => (hall c hc).2.2

theorem wordStart_asciiLower {ch : Char} {s : List Char} (h : WordStart ch s) :
    WordStart ch.toLower (asciiLower s) where
  space := (isSpace_toLower ch).trans h.space
  symbol := (isSymbolStart_toLower ch).trans h.symbol
  digit := (isDigit_toLower ch).trans h.digit
  quote := by
    have hcaseless : ∀ q ∈ ['\'', '"', '\x60', '['], Caseless q := forall_of_all (by decide)
    intro hmem
    have heq := ((hcaseless _ hmem).iff ch).mp rfl
    rw [← heq] at hmem
    exact h.quote hmem
  blob := by
    rw [isX_toLower, head?_asciiLower (by decide)]
    exact h.blob

theorem wordToken_asciiLower (word : List Char) : wordToken (asciiLower word) = wordToken word := by
  rw [wordToken, wordToken, asciiLower_asciiLower]

/-- A bare word on its own, in small letters. -/
theorem turn_bare {ch : Char} {s : List Char} (h : WordStart ch s) :
    turn ch.toLower (asciiLower (s.takeWhile isWordPart)) =
      .ok ((asciiLower (s.takeWhile isWordPart)).length,
        some (wordToken (ch :: s.takeWhile isWordPart))) := by
  have hword : (s.takeWhile isWordPart).takeWhile isWordPart = s.takeWhile isWordPart :=
    List.takeWhile_eq_self_iff.mpr fun c hc => List.mem_takeWhile_imp hc
  have hstart : WordStart ch (s.takeWhile isWordPart) := by
    refine ⟨h.space, h.symbol, h.digit, h.quote, fun hblob => h.blob ⟨hblob.1, ?_⟩⟩
    have hprefix := List.takeWhile_prefix isWordPart (l := s)
    obtain ⟨rest, hrest⟩ := hprefix
    rw [← hrest]
    exact head?_of_head hblob.2 rest
  have hturn := turn_word (wordStart_asciiLower hstart)
  rw [takeWhile_asciiLower isWordPart_toLower, hword] at hturn
  rw [hturn]
  have htoken := wordToken_asciiLower (ch :: s.takeWhile isWordPart)
  exact congrArg (fun t => Except.ok (_, some t)) htoken

theorem length_take_of_le {n : ℕ} {s : List Char} (h : n ≤ s.length) : (s.take n).length = n := by
  rw [List.length_take, Nat.min_eq_left h]

/-- What is read as a token is read as that token where it stands alone. -/
theorem turn_alone {ch : Char} {s : List Char} {n : ℕ} {t : Option Token}
    (h : turn ch s = .ok (n, t)) : turn ch (s.take n) = .ok ((s.take n).length, t) := by
  have hle := turn_le h
  have hsplit : turn ch (s.take n ++ s.drop n) = .ok (n, t) := by rwa [List.take_append_drop]
  rw [length_take_of_le hle]
  exact turn_within hsplit (Nat.le_of_eq (length_take_of_le hle).symm)

/-- Every token that is read is read again from its own text. -/
theorem lexeme_open {ch : Char} {s : List Char} {n : ℕ} {t : Token}
    (h : turn ch s = .ok (n, some t)) : Open t.lexeme [t] := by
  have halone := turn_alone h
  have hlength := length_take_of_le (turn_le h)
  cases turn_lexed h with
  | blob hhex =>
      obtain ⟨hpairs, hquote, hupper⟩ := capitalHex hhex
      have hopen := open_blob hpairs hquote
      rwa [hupper] at hopen
  | str value => exact open_string value
  | id name =>
      have hopen := open_name (asciiLower name)
      rwa [asciiLower_asciiLower] at hopen
  | num hstart hn =>
      have hsplit := List.take_append_drop n s
      have hnumeric : numericLength ch (s.take n) = n := by
        have hsame := numericLength_within (s := s.take n) (r := s.drop n)
          (by rw [hsplit, hlength, hn])
        rwa [hsplit, ← hn] at hsame
      have hstart' : isNumericStart ch (s.take n) = true :=
        isNumericStart_within (r := s.drop n) (by rwa [hsplit]) (by rw [hsplit, hlength, hn])
      have hturn := turn_numeric ((isNumericStart_asciiLower ch (s.take n)).trans hstart')
      rw [numericLength_asciiLower, hnumeric, List.take_of_length_le
        (Nat.le_of_eq ((length_asciiLower _).trans hlength))] at hturn
      have hvalue : asciiLower (ch.toLower :: asciiLower (s.take n)) = asciiLower (ch :: s.take n) :=
        asciiLower_asciiLower (ch :: s.take n)
      rw [hvalue] at hturn
      have hn' : (asciiLower (s.take n)).length = n := (length_asciiLower _).trans hlength
      exact open_of_turn (s := asciiLower (s.take n)) (by rwa [hn'])
  | sym hn => exact open_of_turn halone
  | word hstart hn =>
      have htoken : wordToken (ch :: s.takeWhile isWordPart) =
          .kw (asciiLower (ch :: s.takeWhile isWordPart)) ∨
            wordToken (ch :: s.takeWhile isWordPart) =
              .id (asciiLower (ch :: s.takeWhile isWordPart)) := by
        rw [wordToken]
        split_ifs
        · exact .inl rfl
        · exact .inr rfl
      rcases htoken with hkw | hid
      · have hturn := turn_bare hstart
        rw [hkw] at hturn ⊢
        exact open_of_turn hturn
      · rw [hid]
        have hopen := open_name (asciiLower (ch :: s.takeWhile isWordPart))
        rwa [asciiLower_asciiLower] at hopen

/-! ## Token lists -/

/-- The tokens with single spaces between them. -/
def render : List Token → List Char
  | [] => []
  | [t] => t.lexeme
  | t :: u :: ts => t.lexeme ++ ' ' :: render (u :: ts)

theorem lexemes_open {s : List Char} {ts : List Token} (h : canonicalSqlTokens s = .ok ts) :
    ∀ t ∈ ts, Open t.lexeme [t] := by
  induction hn : s.length using Nat.strong_induction_on generalizing s ts with
  | _ n ih =>
      cases s with
      | nil =>
          rw [tokens_nil] at h
          obtain rfl := Except.ok.inj h
          exact List.forall_mem_nil _
      | cons c s =>
          obtain ⟨k, t, us, hturn, hrest, rfl⟩ := tokens_cons_ok h
          have hlength : (s.drop k).length < n := by
            rw [List.length_drop, ← hn, List.length_cons]
            omega
          intro u hu
          rcases List.mem_append.mp hu with hu | hu
          · obtain rfl := Option.mem_toList.mp hu
            exact lexeme_open hturn
          · exact ih _ hlength hrest rfl u hu

theorem open_render {ts : List Token} (h : ∀ t ∈ ts, Open t.lexeme [t]) : Open (render ts) ts := by
  induction ts using render.induct with
  | case1 => exact closed_nil.toOpen
  | case2 t => exact h t List.mem_cons_self
  | case3 t u ts ih =>
      obtain ⟨ht, hrest⟩ := List.forall_mem_cons.mp h
      have hspace := (closed_space (c := ' ') rfl).append_open (ih hrest)
      exact ht.append hspace (delimited (by decide) _)

/-- The rendered tokens of a text have the same tokens, and are rendered alike. -/
theorem tokens_render {s : List Char} {ts : List Token} (h : canonicalSqlTokens s = .ok ts) :
    canonicalSqlTokens (render ts) = .ok ts :=
  (open_render (lexemes_open h)).tokens

/-- Every turn takes a character, so that a text has no more tokens than characters. -/
theorem tokens_length_le {s : List Char} {ts : List Token} (h : canonicalSqlTokens s = .ok ts) :
    ts.length ≤ s.length := by
  induction hn : s.length using Nat.strong_induction_on generalizing s ts with
  | _ n ih =>
      cases s with
      | nil =>
          rw [tokens_nil] at h
          obtain rfl := Except.ok.inj h
          exact Nat.zero_le _
      | cons c s =>
          obtain ⟨k, t, us, hturn, hrest, rfl⟩ := tokens_cons_ok h
          rw [List.length_cons] at hn
          have hdrop : (s.drop k).length = s.length - k := List.length_drop
          have htail := ih _ (by omega) hrest rfl
          have hhead : t.toList.length ≤ 1 := by cases t <;> simp
          rw [List.length_append]
          omega

end Esdb.SqlTokens
