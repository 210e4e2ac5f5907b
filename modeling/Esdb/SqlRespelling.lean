import Esdb.SqlNormalForm
import Mathlib.Logic.Relation

/-!
# Other spellings of a SQL text

Spaces and comments between two tokens, the case of words and the quotes around names can be
changed where no token comes to run into what follows it: a minus sign takes no line comment
behind it, and a quoted name none in the same quotes beside it.
-/
namespace Esdb.SqlTokens

open SqlText

/-! ## Up to a token -/

/-- In front of `rest` the text is read to its end, with these tokens. -/
inductive Reads (rest : List Char) : List Char → List Token → Prop
  | nil : Reads rest [] []
  | cons {ch : Char} {s : List Char} {n : ℕ} {t : Option Token} {ts : List Token}
      (hturn : turn ch (s ++ rest) = .ok (n, t)) (hle : n ≤ s.length)
      (hrest : Reads rest (s.drop n) ts) : Reads rest (ch :: s) (t.toList ++ ts)

theorem Reads.tokens {rest front : List Char} {ts : List Token} (h : Reads rest front ts) :
    canonicalSqlTokens (front ++ rest) = (canonicalSqlTokens rest).map (ts ++ ·) := by
  induction h with
  | nil => exact closed_nil rest
  | @cons ch s n t ts hturn hle _ ih =>
      rw [List.cons_append, tokens_cons hturn, List.drop_append_of_le_length hle, ih, map_append]

theorem takeWhile_append_of_lt {p : Char → Bool} {s : List Char}
    (h : (s.takeWhile p).length < s.length) (r : List Char) :
    (s ++ r).takeWhile p = s.takeWhile p := by
  induction s with
  | nil => exact absurd h (Nat.lt_irrefl _)
  | cons c s ih =>
      cases hc : p c with
      | false => simp [hc]
      | true =>
          simp only [List.takeWhile_cons, hc, if_true, List.length_cons,
            Nat.succ_lt_succ_iff] at h
          simp only [List.cons_append, List.takeWhile_cons, hc, if_true, ih h]

variable {ch : Char} {s r r' : List Char} {n : ℕ}

/-- A turn sees of what stands behind its text only whether it would go on there. -/
theorem turn_swap {t : Option Token} (h : turn ch (s ++ r) = .ok (n, t)) (hle : n ≤ s.length)
    (hr' : Stop r') (hdash : s = [] → ch = '-' → r'.head? ≠ some '-')
    (hline : n = s.length → ¬(ch = '-' ∧ s.head? = some '-'))
    (hnames : n = s.length → ch = '"' ∨ ch = '\x60' → r'.head? ≠ some ch) :
    turn ch (s ++ r') = .ok (n, t) := by
  have halone := turn_within h hle
  by_cases hspace : isSpace ch = true
  · rw [turn, if_pos hspace] at halone ⊢
    exact halone
  by_cases hcomment : ch = '-' ∧ s.head? = some '-'
  · have hlt : n < s.length := Nat.lt_of_le_of_ne hle fun hend => hline hend hcomment
    obtain ⟨rfl, hs⟩ := hcomment
    obtain ⟨s, rfl⟩ := List.head?_eq_some_iff.mp hs
    rw [turn, if_neg hspace, if_pos ⟨rfl, rfl⟩, List.tail_cons] at halone
    have hn := (Prod.mk.inj (Except.ok.inj halone)).1
    rw [List.length_cons] at hlt
    rw [List.cons_append, turn, if_neg hspace, if_pos ⟨rfl, rfl⟩, List.tail_cons,
      takeWhile_append_of_lt (by omega), halone]
  by_cases hslash : ch = '/' ∧ s.head? = some '*'
  · rw [turn, if_neg hspace, if_neg hcomment, if_pos hslash] at halone
    obtain ⟨rfl, hs⟩ := hslash
    obtain ⟨s, rfl⟩ := List.head?_eq_some_iff.mp hs
    rw [List.cons_append, turn, if_neg hspace, if_neg fun h => absurd h.1 (by decide),
      if_pos ⟨rfl, rfl⟩, List.tail_cons]
    rw [List.tail_cons] at halone
    cases hskip : skipBlock s with
    | none =>
        rw [hskip] at halone
        cases halone
    | some m =>
        rw [hskip] at halone
        rw [skipBlock_append hskip r']
        exact halone
  · refine (turn_append hr' ?_ hslash hnames halone).2
    rintro ⟨rfl, hhead⟩
    cases s with
    | nil => exact hdash rfl rfl hhead
    | cons c s => exact hcomment ⟨rfl, hhead⟩

theorem Reads.swap {front u : List Char} {ts : List Token} (h : Reads (u ++ r) front ts)
    (hu : u ≠ []) (hr' : Stop r') : Reads (u ++ r') front ts := by
  induction h with
  | nil => exact .nil
  | @cons ch s n t ts hturn hle _ ih =>
      have hlength := List.length_pos_iff.mpr hu
      refine .cons ?_ hle ih
      rw [← List.append_assoc] at hturn ⊢
      have hlt : n < (s ++ u).length := by
        rw [List.length_append]
        omega
      refine turn_swap hturn (Nat.le_of_lt hlt) hr' (fun hs => ?_) ?_ ?_
      · exact absurd hs (List.append_ne_nil_of_right_ne_nil s hu)
      · exact fun hend => absurd hend (Nat.ne_of_lt hlt)
      · exact fun hend => absurd hend (Nat.ne_of_lt hlt)

/-! ## Spaces and comments -/

/-- A space or a comment to its end. -/
inductive Blank : List Char → Prop
  | space {c : Char} (h : isSpace c = true) : Blank [c]
  | line {body : List Char} (h : '\n' ∉ body) : Blank ('-' :: '-' :: (body ++ ['\n']))
  | block {body : List Char} (h : ¬['*', '/'] <:+: body ++ ['*']) :
      Blank ('/' :: '*' :: (body ++ ['*', '/']))

/-- Spaces and comments, one or more. -/
inductive Run : List Char → Prop
  | one {b : List Char} (h : Blank b) : Run b
  | cons {b run : List Char} (h : Blank b) (hrun : Run run) : Run (b ++ run)

theorem skipBlock_body {body : List Char} (h : ¬['*', '/'] <:+: body ++ ['*']) (r : List Char) :
    skipBlock (body ++ '*' :: '/' :: r) = some (body.length + 2) := by
  induction body with
  | nil => rfl
  | cons c body ih =>
      have hopen : c ≠ '*' ∨ (body ++ '*' :: '/' :: r).head? ≠ some '/' := by
        by_contra hclosed
        obtain ⟨hc, hhead⟩ := not_or.mp hclosed
        obtain rfl := not_not.mp hc
        cases body with
        | nil => exact hhead (by simp)
        | cons d body =>
            obtain rfl : d = '/' := Option.some.inj (not_not.mp hhead)
            exact h (List.prefix_append ['*', '/'] (body ++ ['*'])).isInfix
      have hrest : ¬['*', '/'] <:+: body ++ ['*'] :=
        fun hin => h (hin.trans (List.suffix_cons c _).isInfix)
      rw [List.cons_append, skipBlock_other hopen, ih hrest]
      rfl

theorem Blank.closed {b : List Char} (h : Blank b) : Closed b [] := by
  cases h with
  | space h => exact closed_space h
  | @line body h =>
      intro r
      have hend : (body ++ ['\n'] ++ r).takeWhile (· ≠ '\n') = body := by
        have hbody : ∀ c ∈ body, decide (c ≠ '\n') = true :=
          fun c hc => decide_eq_true fun (hcn : c = '\n') => h (hcn ▸ hc)
        rw [List.append_assoc, List.singleton_append, List.takeWhile_append_of_pos hbody]
        simp
      have hturn : turn '-' ('-' :: (body ++ ['\n'] ++ r)) = .ok (1 + body.length, none) := by
        have hline : turn '-' ('-' :: (body ++ ['\n'] ++ r)) =
            .ok (1 + ((body ++ ['\n'] ++ r).takeWhile (· ≠ '\n')).length, none) := rfl
        rw [hline, hend]
      have hspace : canonicalSqlTokens ('\n' :: r) = (canonicalSqlTokens r).map ([] ++ ·) :=
        closed_space rfl r
      have hread := tokens_cons hturn
      rw [Nat.add_comm, List.drop_succ_cons, List.append_assoc, List.drop_left,
        List.singleton_append, hspace, map_append] at hread
      rw [List.cons_append, List.cons_append, List.append_assoc, List.singleton_append]
      exact hread
  | @block body h =>
      intro r
      have hskip := skipBlock_body h r
      have hturn : turn '/' ('*' :: (body ++ '*' :: '/' :: r)) =
          .ok (1 + (body.length + 2), none) := by
        simp only [turn, List.head?_cons, List.tail_cons, hskip]
        rfl
      have hread := tokens_cons hturn
      rw [Nat.add_comm, List.drop_succ_cons, List.append_cons, List.append_cons,
        List.drop_left' (by simp), List.append_assoc, List.append_assoc] at hread
      rw [List.cons_append, List.cons_append, List.append_assoc]
      exact hread

theorem Run.closed {run : List Char} (h : Run run) : Closed run [] := by
  induction h with
  | one h => exact h.closed
  | cons h _ ih => exact h.closed.append ih

theorem Run.blank {run : List Char} (h : Run run) : ∃ b rest, run = b ++ rest ∧ Blank b := by
  cases h with
  | one h => exact ⟨run, [], (List.append_nil run).symm, h⟩
  | @cons b rest h _ => exact ⟨b, rest, rfl, h⟩

/-- No token goes on with a space or a comment. -/
theorem Run.stop {run : List Char} (h : Run run) (post : List Char) : Stop (run ++ post) := by
  obtain ⟨b, rest, rfl, hb⟩ := h.blank
  rw [List.append_assoc]
  rintro c t hct
  cases hb with
  | @space d hspace =>
      obtain ⟨rfl, -⟩ := List.cons.inj hct
      refine .inl ?_
      simp only [isSpace, List.contains_iff_mem] at hspace
      change d ∈ [' ', '\t', '\r', '\n', '\x0c'] at hspace
      simp only [List.mem_cons, List.not_mem_nil, or_false] at hspace
      rcases hspace with rfl | rfl | rfl | rfl | rfl <;> constructor <;> decide
  | line h =>
      obtain ⟨rfl, rfl⟩ := List.cons.inj hct
      exact .inr (.inr ⟨rfl, fun d hd => Option.some.inj hd ▸ rfl⟩)
  | block h =>
      obtain ⟨rfl, rfl⟩ := List.cons.inj hct
      refine .inl ?_
      constructor <;> decide

/-- Another run between a token and what follows it. -/
theorem tokens_gap {front w run run' post : List Char} {c : Char} {t : Token} {ts : List Token}
    (hfront : Reads (c :: (w ++ (run ++ post))) front ts)
    (htoken : turn c (w ++ (run ++ post)) = .ok (w.length, some t)) (hrun : Run run)
    (hrun' : Run run') (hdash : c :: w = ['-'] → run'.head? ≠ some '-') :
    canonicalSqlTokens (front ++ c :: (w ++ (run' ++ post))) =
      canonicalSqlTokens (front ++ c :: (w ++ (run ++ post))) := by
  have hstop' := hrun'.stop post
  have hfront' : Reads (c :: (w ++ (run' ++ post))) front ts :=
    Reads.swap (u := c :: w) hfront (List.cons_ne_nil c w) hstop'
  have htoken' : turn c (w ++ (run' ++ post)) = .ok (w.length, some t) := by
    have halone := turn_within htoken (Nat.le_refl _)
    refine turn_swap htoken (Nat.le_refl _) hstop' ?_ (fun _ => (not_comment halone).1) ?_
    · rintro rfl rfl hhead
      obtain ⟨b, rest, rfl, hb⟩ := hrun'.blank
      refine hdash rfl ?_
      rw [List.append_assoc] at hhead
      cases hb with
      | space _ | line _ | block _ => exact hhead
    · intro _ hc hhead
      obtain ⟨b, rest, rfl, hb⟩ := hrun'.blank
      rw [List.append_assoc] at hhead
      cases hb with
      | @space d hspace =>
          obtain rfl : d = c := Option.some.inj hhead
          rcases hc with rfl | rfl <;> cases hspace
      | line _ | block _ => rcases hc with rfl | rfl <;> cases hhead
  have hread (run : List Char) (hrun : Run run)
      (htoken : turn c (w ++ (run ++ post)) = .ok (w.length, some t)) :
      canonicalSqlTokens (c :: (w ++ (run ++ post))) =
        (canonicalSqlTokens post).map ([t] ++ ·) := by
    rw [tokens_cons htoken, List.drop_left, hrun.closed, map_append]
    rfl
  rw [hfront.tokens, hfront'.tokens, hread run hrun htoken, hread run' hrun' htoken']

/-! ## The case of words -/

theorem head?_of_asciiLower {c : Char} (hc : Caseless c) (h : asciiLower r = asciiLower r') :
    r'.head? = some c ↔ r.head? = some c := by
  rw [← head?_asciiLower hc, ← head?_asciiLower hc r, h]

theorem asciiLower_append (s r : List Char) : asciiLower (s ++ r) = asciiLower s ++ asciiLower r :=
  List.map_append

theorem skipBlock_asciiLower (s : List Char) : skipBlock (asciiLower s) = skipBlock s := by
  induction s using skipBlock.induct with
  | case1 => rfl
  | case2 s => rfl
  | case3 c s hend ih =>
      have hopen (d : Char) (u : List Char) : (d ≠ '*' ∨ u.head? ≠ some '/') ↔
          ¬(d = '*' ∧ u.head? = some '/') := not_and_or.symm
      have hplain : ¬(c = '*' ∧ s.head? = some '/') := by
        rintro ⟨rfl, hs⟩
        obtain ⟨t, rfl⟩ := List.head?_eq_some_iff.mp hs
        exact hend t rfl rfl
      have hlower : ¬(c.toLower = '*' ∧ (asciiLower s).head? = some '/') := by
        rwa [(show Caseless '*' by decide).iff, head?_asciiLower (by decide)]
      rw [skipBlock_other ((hopen c s).mpr hplain)]
      have hread := skipBlock_other ((hopen c.toLower (asciiLower s)).mpr hlower)
      rw [ih] at hread
      exact hread

theorem length_takeWhile_case {p : Char → Bool} (hp : ∀ c, p c.toLower = p c)
    (h : asciiLower r = asciiLower r') : (r'.takeWhile p).length = (r.takeWhile p).length := by
  rw [← length_asciiLower, ← length_asciiLower (r.takeWhile p), ← takeWhile_asciiLower hp,
    ← takeWhile_asciiLower hp, h]

theorem asciiLower_tail (h : asciiLower r = asciiLower r') :
    asciiLower r.tail = asciiLower r'.tail := by
  have htail := congrArg List.tail h
  rwa [asciiLower, asciiLower, ← List.map_tail, ← List.map_tail] at htail

theorem quotedTurn_swap {close : Char} {error : String}
    {token : List Char → Except String Token} {p : ℕ × Option Token}
    (h : quotedTurn close (s ++ r) error token = .ok p) (hle : p.1 ≤ s.length)
    (hclose : r'.head? = some close → close = ']') :
    quotedTurn close (s ++ r') error token = .ok p :=
  (quotedTurn_append (quotedTurn_within h hle) fun _ => hclose).2

/-- What follows a token may change its case, where no quote begins. -/
theorem turn_swap_case {t : Option Token} (h : turn ch (s ++ r) = .ok (n, t)) (hle : n ≤ s.length)
    (hcase : asciiLower r = asciiLower r') (hquote : ∀ q ∈ ['\'', '"', '\x60'], r.head? ≠ some q) :
    turn ch (s ++ r') = .ok (n, t) := by
  have hall : asciiLower (s ++ r) = asciiLower (s ++ r') := by
    rw [asciiLower_append, hcase, asciiLower_append]
  have hhead {c : Char} (hc : Caseless c) : (s ++ r').head? = some c ↔ (s ++ r).head? = some c :=
    head?_of_asciiLower hc hall
  have hcaseless : ∀ q ∈ ['\'', '"', '\x60'], Caseless q := forall_of_all (by decide)
  have hquote' : ∀ q ∈ ['\'', '"', '\x60'], r'.head? ≠ some q := fun q hq hr' =>
    hquote q hq ((head?_of_asciiLower (hcaseless q hq) hcase).mp hr')
  by_cases hspace : isSpace ch = true
  · rw [turn, if_pos hspace] at h ⊢
    exact h
  by_cases hdash : ch = '-' ∧ (s ++ r).head? = some '-'
  · have hlength := length_takeWhile_case (p := (· ≠ '\n'))
      (fun c => decide_eq_decide.mpr ((show Caseless '\n' by decide).iff c).not)
      (asciiLower_tail hall)
    rw [turn, if_neg hspace, if_pos hdash] at h
    rw [turn, if_neg hspace, if_pos (by rwa [hhead (by decide)]), hlength]
    exact h
  have hdash' : ¬(ch = '-' ∧ (s ++ r').head? = some '-') := by rwa [hhead (by decide)]
  by_cases hslash : ch = '/' ∧ (s ++ r).head? = some '*'
  · have hskip : skipBlock (s ++ r').tail = skipBlock (s ++ r).tail := by
      rw [← skipBlock_asciiLower, ← asciiLower_tail hall, skipBlock_asciiLower]
    rw [turn, if_neg hspace, if_neg hdash, if_pos hslash] at h
    rw [turn, if_neg hspace, if_neg hdash', if_pos (by rwa [hhead (by decide)]), hskip]
    exact h
  have hslash' : ¬(ch = '/' ∧ (s ++ r').head? = some '*') := by rwa [hhead (by decide)]
  by_cases hblob : (ch = 'x' ∨ ch = 'X') ∧ (s ++ r).head? = some '\''
  · have hblob' : (ch = 'x' ∨ ch = 'X') ∧ (s ++ r').head? = some '\'' := by
      rwa [hhead (by decide)]
    rw [turn, if_neg hspace, if_neg hdash, if_neg hslash, if_pos hblob] at h
    rw [turn, if_neg hspace, if_neg hdash', if_neg hslash', if_pos hblob']
    cases s with
    | nil => exact absurd hblob.2 (hquote _ (by decide))
    | cons c s =>
        rw [List.cons_append, List.tail_cons] at h ⊢
        revert h
        generalize hread : quotedTurn '\'' (s ++ r) unterminatedQuote _ = read
        intro h
        cases read with
        | error e => cases h
        | ok q =>
            have hn : 1 + q.1 = n := (Prod.mk.inj (Except.ok.inj h)).1
            rw [List.length_cons] at hle
            rw [quotedTurn_swap hread (by omega)
              fun hr' => absurd hr' (hquote' _ (by decide))]
            exact h
  have hblob' : ¬((ch = 'x' ∨ ch = 'X') ∧ (s ++ r').head? = some '\'') := by
    rwa [hhead (by decide)]
  rw [turn, if_neg hspace, if_neg hdash, if_neg hslash, if_neg hblob] at h
  rw [turn, if_neg hspace, if_neg hdash', if_neg hslash', if_neg hblob']
  by_cases hstring : ch = '\''
  · rw [if_pos hstring] at h ⊢
    exact quotedTurn_swap h hle fun hr' => absurd (hstring ▸ hr') (hquote' _ (by decide))
  rw [if_neg hstring] at h ⊢
  by_cases hname : ch = '"' ∨ ch = '\x60'
  · rw [if_pos hname] at h ⊢
    refine quotedTurn_swap h hle fun hr' => absurd hr' (hquote' _ ?_)
    rcases hname with rfl | rfl <;> decide
  rw [if_neg hname] at h ⊢
  by_cases hopen : ch = '['
  · rw [if_pos hopen] at h ⊢
    exact quotedTurn_swap h hle fun _ => rfl
  rw [if_neg hopen] at h ⊢
  have hstart : isNumericStart ch (s ++ r') = isNumericStart ch (s ++ r) := by
    rw [← isNumericStart_asciiLower, ← hall, isNumericStart_asciiLower]
  have hnumber : numericLength ch (s ++ r') = numericLength ch (s ++ r) := by
    rw [← numericLength_asciiLower, ← hall, numericLength_asciiLower]
  have hoperator : operatorLength ch (s ++ r') = operatorLength ch (s ++ r) := by
    rw [← operatorLength_asciiLower, ← hall, operatorLength_asciiLower]
  rw [hstart, hnumber, hoperator]
  by_cases hnumeric : isNumericStart ch (s ++ r) = true
  · rw [if_pos hnumeric] at h ⊢
    cases h
    rw [List.take_append_of_le_length hle, List.take_append_of_le_length hle]
  rw [if_neg hnumeric] at h ⊢
  by_cases hsymbol : isSymbolStart ch = true
  · rw [if_pos hsymbol] at h ⊢
    cases h
    rw [List.take_append_of_le_length hle, List.take_append_of_le_length hle]
  · rw [if_neg hsymbol] at h ⊢
    have hlength := length_takeWhile_case isWordPart_toLower hall
    have hword (r : List Char) (hr : ((s ++ r).takeWhile isWordPart).length ≤ s.length) :
        (s ++ r).takeWhile isWordPart =
          s.take ((s ++ r).takeWhile isWordPart).length := by
      have htake := List.prefix_iff_eq_take.mp ( List.takeWhile_prefix isWordPart (l := s ++ r))
      rwa [List.take_append_of_le_length hr] at htake
    have hn : ((s ++ r).takeWhile isWordPart).length = n := by
      have hlen := (Prod.mk.inj (Except.ok.inj h)).1
      simpa using hlen
    have hsame : (s ++ r').takeWhile isWordPart = (s ++ r).takeWhile isWordPart := by
      rw [hword r' (by omega), hword r (by omega), hlength]
    rw [hsame]
    exact h

theorem Reads.swap_case {front : List Char} {ts : List Token} (h : Reads r front ts)
    (hcase : asciiLower r = asciiLower r') (hquote : ∀ q ∈ ['\'', '"', '\x60'], r.head? ≠ some q) :
    Reads r' front ts := by
  induction h with
  | nil => exact .nil
  | cons hturn hle _ ih => exact .cons (turn_swap_case hturn hle hcase hquote) hle ih

theorem wordStart_case {c c' : Char} (h : WordStart c r) (hchar : c.toLower = c'.toLower)
    (hcase : asciiLower r = asciiLower r') : WordStart c' r' where
  space := by rw [← isSpace_toLower, ← hchar, isSpace_toLower, h.space]
  symbol := by rw [← isSymbolStart_toLower, ← hchar, isSymbolStart_toLower, h.symbol]
  digit := by rw [← isDigit_toLower, ← hchar, isDigit_toLower, h.digit]
  quote := by
    have hcaseless : ∀ q ∈ ['\'', '"', '\x60', '['], Caseless q := forall_of_all (by decide)
    intro hmem
    have hc' := hcaseless c' hmem
    have hsame : c = c' := (hc'.iff c).mp (hchar.trans ((hc'.iff c').mpr rfl))
    exact h.quote (hsame ▸ hmem)
  blob := by
    rw [← isX_toLower, ← hchar, isX_toLower, head?_of_asciiLower (by decide) hcase]
    exact h.blob

/-- Another case of a bare word. -/
theorem tokens_case {front w w' post : List Char} {c c' : Char} {ts : List Token}
    (hfront : Reads (c :: (w ++ post)) front ts) (hword : WordStart c (w ++ post))
    (hend : (w ++ post).takeWhile isWordPart = w)
    (hcase : asciiLower (c' :: w') = asciiLower (c :: w)) :
    canonicalSqlTokens (front ++ c' :: (w' ++ post)) =
      canonicalSqlTokens (front ++ c :: (w ++ post)) := by
  obtain ⟨hchar, hrest⟩ : c'.toLower = c.toLower ∧ asciiLower w' = asciiLower w :=
    List.cons.inj hcase
  have hall : asciiLower (w ++ post) = asciiLower (w' ++ post) := by
    rw [asciiLower_append, asciiLower_append, hrest]
  have hlower : asciiLower (c :: (w ++ post)) = asciiLower (c' :: (w' ++ post)) :=
    congrArg₂ List.cons hchar.symm hall
  have hword' := wordStart_case hword hchar.symm hall
  have hfront' : Reads (c' :: (w' ++ post)) front ts := by
    refine hfront.swap_case hlower fun q hq hhead => ?_
    obtain rfl : c = q := Option.some.inj hhead
    exact hword.quote (List.mem_append_left ['['] hq)
  have hlength : w'.length = w.length := by
    rw [← length_asciiLower, hrest, length_asciiLower]
  have hend' : (w' ++ post).takeWhile isWordPart = w' := by
    have hsame := length_takeWhile_case isWordPart_toLower hall
    have htake := List.prefix_iff_eq_take.mp
      ( List.takeWhile_prefix isWordPart (l := w' ++ post))
    rw [hsame, hend, ← hlength, List.take_left] at htake
    exact htake
  have hturn := turn_word hword
  have hturn' := turn_word hword'
  rw [hend] at hturn
  rw [hend'] at hturn'
  have htoken : wordToken (c' :: w') = wordToken (c :: w) := by
    rw [← wordToken_asciiLower, hcase, wordToken_asciiLower]
  rw [hfront.tokens, hfront'.tokens, tokens_cons hturn, tokens_cons hturn', List.drop_left,
    List.drop_left, htoken]

/-! ## Quotes around names -/

inductive QuoteStyle where
  | double
  | back
  | bracket

def QuoteStyle.opening : QuoteStyle → Char
  | .double => '"'
  | .back => '\x60'
  | .bracket => '['

def QuoteStyle.closing : QuoteStyle → Char
  | .double => '"'
  | .back => '\x60'
  | .bracket => ']'

/-- What stands between the quotes: a quote is doubled, and a bracket cannot be written. -/
def QuoteStyle.body (style : QuoteStyle) (name : List Char) : List Char :=
  match style with
  | .double => escape '"' name
  | .back => escape '\x60' name
  | .bracket => name

def QuoteStyle.Expresses (style : QuoteStyle) (name : List Char) : Prop :=
  match style with
  | .double => True
  | .back => True
  | .bracket => ']' ∉ name

def QuoteStyle.quote (style : QuoteStyle) (name : List Char) : List Char :=
  style.opening :: (style.body name ++ [style.closing])

/-- A quote beside this character would be one with it. -/
def QuoteStyle.Joins (style : QuoteStyle) (c : Option Char) : Prop :=
  match style with
  | .double => c = some '"'
  | .back => c = some '\x60'
  | .bracket => False

theorem readQuoted_bracket {name : List Char} (h : ']' ∉ name) (post : List Char) :
    readQuoted ']' (name ++ ']' :: post) = some (name, name.length + 1) := by
  induction name with
  | nil => exact readQuoted_end fun _ => rfl
  | cons c name ih =>
      have hc : c ≠ ']' := fun hc => h (hc ▸ List.mem_cons_self)
      have hname : ']' ∉ name := fun hmem => h (List.mem_cons_of_mem c hmem)
      rw [List.cons_append, readQuoted_other hc, ih hname]
      rfl

theorem turn_quote {style : QuoteStyle} {name post : List Char} (h : style.Expresses name)
    (hpost : ¬style.Joins post.head?) :
    turn style.opening (style.body name ++ style.closing :: post) =
      .ok ((style.body name ++ [style.closing]).length, some (.id (asciiLower name))) := by
  rw [List.length_append, List.length_singleton]
  cases style with
  | double => exact quotedTurn_escape (by decide) name hpost rfl
  | back => exact quotedTurn_escape (by decide) name hpost rfl
  | bracket =>
      have hturn : turn '[' (name ++ ']' :: post) =
          quotedTurn ']' (name ++ ']' :: post) "PHY003 unterminated bracket-quoted identifier"
            fun value => .ok (.id (asciiLower value)) := by
        simp [turn, isSpace]
      refine hturn.trans ?_
      rw [quotedTurn, readQuoted_bracket h]
      rfl

theorem stop_quote (style : QuoteStyle) (rest : List Char) : Stop (style.opening :: rest) := by
  intro b t h
  obtain ⟨rfl, -⟩ := List.cons.inj h
  cases style with
  | double | back | bracket => exact .inr (.inl (by decide))

theorem readQuoted_last {close : Char} {p : List Char × ℕ} (h : readQuoted close s = some p)
    (hend : p.2 = s.length) : s.getLast? = some close := by
  induction s using readQuoted.induct close generalizing p with
  | case1 => cases h
  | case2 => rfl
  | case3 c hc =>
      rw [readQuoted, if_neg hc] at h
      cases h
  | case4 d s hd ih =>
      rw [readQuoted, if_pos rfl, if_pos hd] at h
      obtain ⟨q, hq, rfl⟩ := Option.map_eq_some_iff.mp h
      have hlast := ih hq (Nat.add_right_cancel hend)
      cases s with
      | nil => cases hq
      | cons a s => exact hlast
  | case5 d s hd =>
      rw [readQuoted, if_pos rfl, if_neg hd] at h
      obtain rfl := Option.some.inj h
      simp at hend
  | case6 c d s hc ih =>
      rw [readQuoted, if_neg hc] at h
      obtain ⟨q, hq, rfl⟩ := Option.map_eq_some_iff.mp h
      exact ih hq (Nat.add_right_cancel hend)

/-- A quoted name that ends a text ends it with its quote. -/
theorem quoted_last {t : Option Token} (h : turn ch s = .ok (s.length, t))
    (hname : ch = '"' ∨ ch = '\x60') : s.getLast? = some ch := by
  have hquoted : turn ch s =
      quotedTurn ch s unterminatedQuote fun value => .ok (.id (asciiLower value)) := by
    rcases hname with rfl | rfl <;> rfl
  rw [hquoted, quotedTurn] at h
  cases hread : readQuoted ch s with
  | none =>
      rw [hread] at h
      cases h
  | some p =>
      rw [hread] at h
      exact readQuoted_last hread (Prod.mk.inj (Except.ok.inj h)).1

/-- A line comment does not end before a quote. -/
theorem line_open {t : Option Token} {q : Char} {rest : List Char} (hq : q ≠ '\n')
    (h : turn '-' (s ++ q :: rest) = .ok (s.length, t)) : s.head? ≠ some '-' := by
  intro hs
  obtain ⟨s, rfl⟩ := List.head?_eq_some_iff.mp hs
  have hline : turn '-' ('-' :: s ++ q :: rest) =
      .ok (1 + ((s ++ q :: rest).takeWhile (· ≠ '\n')).length, none) := rfl
  rw [hline, List.length_cons] at h
  have hlength := (Prod.mk.inj (Except.ok.inj h)).1
  have hall : s.takeWhile (· ≠ '\n') = s := by
    have hsame : s.takeWhile (· ≠ '\n') = (s ++ q :: rest).takeWhile (· ≠ '\n') :=
      takeWhile_within (by omega)
    exact (List.takeWhile_prefix _).eq_of_length (by rw [hsame]; omega)
  have hpos : ∀ c ∈ s, decide (c ≠ '\n') = true := List.takeWhile_eq_self_iff.mp hall
  rw [List.takeWhile_append_of_pos hpos, List.takeWhile_cons_of_pos (by simpa using hq),
    List.length_append, List.length_cons] at hlength
  omega

/-- What stands before a quoted name, when the name comes to be quoted in another style. -/
theorem Reads.swap_quote {style style' : QuoteStyle} {front rest rest' : List Char}
    {ts : List Token} (h : Reads (style.opening :: rest) front ts)
    (hlast : ¬style'.Joins front.getLast?) : Reads (style'.opening :: rest') front ts := by
  induction h with
  | nil => exact .nil
  | @cons ch s n t ts hturn hle _ ih =>
      have hrest : Reads (style'.opening :: rest') (s.drop n) ts := by
        refine ih fun hjoins => hlast ?_
        have hsome : (s.drop n).getLast? ≠ none := by
          intro hnone
          rw [hnone] at hjoins
          cases style' <;> cases hjoins
        rw [List.getLast?_drop] at hjoins hsome
        by_cases hend : s.length ≤ n
        · rw [if_pos hend] at hsome
          exact absurd rfl hsome
        · rw [if_neg hend] at hjoins
          cases s with
          | nil => exact absurd (Nat.zero_le n) hend
          | cons c s => exact hjoins
      refine .cons ?_ hle hrest
      refine turn_swap hturn hle (stop_quote style' rest') ?_ ?_ ?_
      · intro _ _ hhead
        cases style' <;> cases hhead
      · rintro rfl ⟨rfl, hs⟩
        have hq : style.opening ≠ '\n' := by cases style <;> decide
        exact line_open hq hturn hs
      · intro hend hname hhead
        have halone := turn_within hturn hle
        rw [hend] at halone
        have hq := quoted_last halone hname
        have hlast' : (ch :: s).getLast? = some ch := by
          cases s with
          | nil => rfl
          | cons c s => exact hq
        rw [hlast'] at hlast
        obtain rfl : style'.opening = ch := Option.some.inj hhead
        cases style' with
        | double => exact hlast rfl
        | back => exact hlast rfl
        | bracket => rcases hname with hname | hname <;> cases hname

/-- Another style of quotes around a name. -/
theorem tokens_requote {front name post : List Char} {style style' : QuoteStyle} {ts : List Token}
    (hfront : Reads (style.quote name ++ post) front ts) (hname : style.Expresses name)
    (hname' : style'.Expresses name) (hpost : ¬style.Joins post.head?)
    (hpost' : ¬style'.Joins post.head?) (hlast : ¬style'.Joins front.getLast?) :
    canonicalSqlTokens (front ++ (style'.quote name ++ post)) =
      canonicalSqlTokens (front ++ (style.quote name ++ post)) := by
  have hfront' : Reads (style'.quote name ++ post) front ts := hfront.swap_quote hlast
  have hread {style : QuoteStyle} (hname : style.Expresses name)
      (hpost : ¬style.Joins post.head?) : canonicalSqlTokens (style.quote name ++ post) =
        (canonicalSqlTokens post).map ([.id (asciiLower name)] ++ ·) := by
    have hread := tokens_cons (turn_quote hname hpost)
    rw [List.append_cons, List.drop_left] at hread
    rw [QuoteStyle.quote, List.cons_append]
    exact hread
  rw [hfront.tokens, hfront'.tokens, hread hname hpost, hread hname' hpost']

/-! ## The normal form -/

/-- One change of a text that is none to its tokens. -/
inductive Respelled : List Char → List Char → Prop
  | gap {front w run run' post : List Char} {c : Char} {t : Token} {ts : List Token}
      (hfront : Reads (c :: (w ++ (run ++ post))) front ts)
      (htoken : turn c (w ++ (run ++ post)) = .ok (w.length, some t)) (hrun : Run run)
      (hrun' : Run run') (hdash : c :: w = ['-'] → run'.head? ≠ some '-') :
      Respelled (front ++ c :: (w ++ (run ++ post))) (front ++ c :: (w ++ (run' ++ post)))
  | case {front w w' post : List Char} {c c' : Char} {ts : List Token}
      (hfront : Reads (c :: (w ++ post)) front ts) (hword : WordStart c (w ++ post))
      (hend : (w ++ post).takeWhile isWordPart = w)
      (hcase : asciiLower (c' :: w') = asciiLower (c :: w)) :
      Respelled (front ++ c :: (w ++ post)) (front ++ c' :: (w' ++ post))
  | requote {front name post : List Char} {style style' : QuoteStyle} {ts : List Token}
      (hfront : Reads (style.quote name ++ post) front ts) (hname : style.Expresses name)
      (hname' : style'.Expresses name) (hpost : ¬style.Joins post.head?)
      (hpost' : ¬style'.Joins post.head?) (hlast : ¬style'.Joins front.getLast?) :
      Respelled (front ++ (style.quote name ++ post)) (front ++ (style'.quote name ++ post))

theorem Respelled.tokens {s s' : List Char} (h : Respelled s s') :
    canonicalSqlTokens s' = canonicalSqlTokens s := by
  cases h with
  | gap hfront htoken hrun hrun' hdash => exact tokens_gap hfront htoken hrun hrun' hdash
  | case hfront hword hend hcase => exact tokens_case hfront hword hend hcase
  | requote hfront hname hname' hpost hpost' hlast =>
      exact tokens_requote hfront hname hname' hpost hpost' hlast

/-- The tokens of a text are read again from what they are written as, there are no more of
them than characters, and however often the text is respelled they are the same. -/
theorem canonicalSqlTokens_normal (s : List Char) :
    (∀ ts, canonicalSqlTokens s = .ok ts →
      canonicalSqlTokens (render ts) = .ok ts ∧ ts.length ≤ s.length) ∧
      ∀ s', Relation.ReflTransGen Respelled s s' →
        canonicalSqlTokens s' = canonicalSqlTokens s := by
  refine ⟨fun ts h => ⟨tokens_render h, tokens_length_le h⟩, fun s' h => ?_⟩
  induction h with
  | refl => rfl
  | tail _ hstep ih => exact hstep.tokens.trans ih

theorem tokens_step {ts : List Token} {t : Option Token} (hturn : turn ch s = .ok (n, t))
    (hrest : canonicalSqlTokens (s.drop n) = .ok ts) :
    canonicalSqlTokens (ch :: s) = .ok (t.toList ++ ts) := by
  rw [tokens_cons hturn, hrest]
  rfl

theorem tokens_difference : canonicalSqlTokens "a -\t[B]".toList =
    .ok [.id ['a'], .sym ['-'], .id ['b']] := by
  refine tokens_step (t := some (.id ['a'])) rfl (tokens_step (t := none) rfl ?_)
  refine tokens_step (t := some (.sym ['-'])) rfl (tokens_step (t := none) rfl ?_)
  exact tokens_step (t := some (.id ['b'])) rfl tokens_nil

/-- `a -⇥[B]`, rendered and with a comment for the tab. -/
theorem canonicalSqlTokens_difference :
    canonicalSqlTokens (render [.id ['a'], .sym ['-'], .id ['b']]) =
        .ok [.id ['a'], .sym ['-'], .id ['b']] ∧
      canonicalSqlTokens "a -/**/[B]".toList = .ok [.id ['a'], .sym ['-'], .id ['b']] := by
  have hnormal := canonicalSqlTokens_normal "a -\t[B]".toList
  refine ⟨(hnormal.1 _ tokens_difference).1, ?_⟩
  rw [← tokens_difference]
  refine hnormal.2 _ (.single ?_)
  have hfront : Reads "-\t[B]".toList ['a', ' '] [.id ['a']] :=
    .cons (t := some (.id ['a'])) rfl (by decide) (.cons (t := none) rfl (by decide) .nil)
  have htab : Run ['\t'] := .one (.space rfl)
  have hcomment : Run "/**/".toList := .one (.block (by decide : ¬['*', '/'] <:+: [] ++ ['*']))
  have hstep : Respelled (['a', ' '] ++ '-' :: ([] ++ (['\t'] ++ "[B]".toList)))
      (['a', ' '] ++ '-' :: ([] ++ ("/**/".toList ++ "[B]".toList))) :=
    .gap (t := .sym ['-']) hfront rfl htab hcomment fun _ => by decide
  exact hstep

/-- A minus sign swallows a line comment behind it, and a quoted name the name beside it. -/
theorem canonicalSqlTokens_glued :
    (Run [' '] ∧ Run "--\n".toList ∧
      canonicalSqlTokens "- 1".toList = .ok [.sym ['-'], .num ['1']] ∧
      canonicalSqlTokens "---\n1".toList = .ok [.num ['1']]) ∧
      QuoteStyle.bracket.quote ['b'] = "[b]".toList ∧
      QuoteStyle.double.quote ['b'] = "\"b\"".toList ∧
      canonicalSqlTokens "\"a\"[b]".toList = .ok [.id ['a'], .id ['b']] ∧
      canonicalSqlTokens "\"a\"\"b\"".toList = .ok [.id ['a', '"', 'b']] := by
  refine ⟨⟨.one (.space rfl), .one (.line (List.not_mem_nil : '\n' ∉ [])), ?_, ?_⟩,
    rfl, rfl, ?_, ?_⟩
  · refine tokens_step (t := some (.sym ['-'])) rfl (tokens_step (t := none) rfl ?_)
    exact tokens_step (t := some (.num ['1'])) rfl tokens_nil
  · refine tokens_step (t := none) rfl (tokens_step (t := none) rfl ?_)
    exact tokens_step (t := some (.num ['1'])) rfl tokens_nil
  · refine tokens_step (t := some (.id ['a'])) rfl ?_
    exact tokens_step (t := some (.id ['b'])) rfl tokens_nil
  · exact tokens_step (t := some (.id ['a', '"', 'b'])) rfl tokens_nil

end Esdb.SqlTokens
