import Esdb.KitMigrationRun
import Esdb.SqlTokens
import Mathlib.Data.List.TakeWhile

/-!
# The text of a migration

`normalizeMigrationSql` turns every line break of a text into a line feed and lets it end in
one. It does not read the text: a carriage return in a literal is data that it changes, and
one in a line comment ends the comment that went on before. Elsewhere the tokens stay.
-/
namespace Esdb.MigrationText

open SqlText SqlTokens
open KitMigrations (say lineFeeds decodeUtf8)

abbrev Message := JsonText.Text

/-! ## The source -/

/-- What is handed in: the bytes of a file, or a text. -/
inductive SqlInput where
  | buffer (bytes : Bytes)
  | string (text : List Char)

/-- The text that is to be normalized. -/
def SqlInput.text : SqlInput → Except Message (List Char)
  | .buffer bytes =>
      if bytes.take 3 = [0xEF, 0xBB, 0xBF] then
        .error (say "MIG008 migration SQL must not contain a UTF-8 BOM")
      else (decodeUtf8 bytes).elim (.error (say "MIG008 migration SQL is not valid UTF-8")) .ok
  | .string text =>
      if text.head? = some '\uFEFF' then
        .error (say "MIG008 migration SQL must not contain a UTF-8 BOM")
      else .ok text

/-- `replace(/\n*$/, "")`. -/
def stripLineFeeds (text : List Char) : List Char := (text.reverse.dropWhile (· = '\n')).reverse

def normalizeMigrationSql (input : SqlInput) : Except Message (List Char) :=
  input.text.bind fun text =>
    if Char.ofNat 0 ∈ text then .error (say "MIG008 migration SQL must not contain U+0000")
    else .ok (stripLineFeeds (lineFeeds text) ++ ['\n'])

/-- The bytes of a file are normalized as the packager does it. -/
theorem normalizeMigrationSql_buffer (bytes : Bytes) :
    normalizeMigrationSql (.buffer bytes) = KitMigrations.normalizeMigrationSql bytes := by
  rw [normalizeMigrationSql, SqlInput.text, KitMigrations.normalizeMigrationSql]
  by_cases hbom : bytes.take 3 = [0xEF, 0xBB, 0xBF]
  · rw [if_pos hbom, if_pos hbom]
    rfl
  · rw [if_neg hbom, if_neg hbom]
    cases decodeUtf8 bytes with
    | none => rfl
    | some text => rfl

/-! ## Line breaks -/

theorem lineFeeds_cons {c : Char} (h : c ≠ '\r') (s : List Char) :
    lineFeeds (c :: s) = c :: lineFeeds s := by
  rw [lineFeeds]
  · rintro s rfl
    exact absurd rfl h
  · exact h

theorem lineFeeds_crlf (s : List Char) : lineFeeds ('\r' :: '\n' :: s) = '\n' :: lineFeeds s := rfl

theorem lineFeeds_cr {s : List Char} (h : s.head? ≠ some '\n') :
    lineFeeds ('\r' :: s) = '\n' :: lineFeeds s := by
  rw [lineFeeds]
  rintro t rfl
  exact h rfl

theorem lineFeeds_append {u : List Char} (h : '\r' ∉ u) (r : List Char) :
    lineFeeds (u ++ r) = u ++ lineFeeds r := by
  induction u with
  | nil => rfl
  | cons c u ih =>
      obtain ⟨hc, hu⟩ := not_or.mp (fun hm => h (List.mem_cons.mpr hm))
      rw [List.cons_append, lineFeeds_cons (fun hcr => hc hcr.symm), ih hu, List.cons_append]

theorem lineFeeds_eq {s : List Char} (h : '\r' ∉ s) : lineFeeds s = s := by
  have happend := lineFeeds_append h []
  rwa [List.append_nil, lineFeeds, List.append_nil] at happend

theorem not_mem_lineFeeds (s : List Char) : '\r' ∉ lineFeeds s := by
  induction s using KitMigrations.lineFeeds.induct with
  | case1 => exact List.not_mem_nil
  | case2 s ih => exact List.not_mem_cons_of_ne_of_not_mem (by decide) ih
  | case3 s hne ih =>
      rw [KitMigrations.lineFeeds.eq_3 _ hne]
      exact List.not_mem_cons_of_ne_of_not_mem (by decide) ih
  | case4 c s hcrlf hcr ih =>
      rw [KitMigrations.lineFeeds.eq_4 _ _ hcrlf hcr]
      exact List.not_mem_cons_of_ne_of_not_mem (fun h => hcr h.symm) ih

/-- The first line break of a text, if it has one that is not a line feed. -/
theorem lineFeeds_head (r : List Char) (h : ∀ b, r.head? = some b → b = '\r') :
    ∀ b, (lineFeeds r).head? = some b → b = '\n' := by
  cases r with
  | nil => exact fun _ hb => by cases hb
  | cons a t =>
      obtain rfl := h a rfl
      by_cases ht : t.head? = some '\n'
      · obtain ⟨t, rfl⟩ := List.head?_eq_some_iff.mp ht
        exact fun _ hb => (Option.some.inj hb).symm
      · rw [lineFeeds_cr ht]
        exact fun _ hb => (Option.some.inj hb).symm

theorem head?_lineFeeds {c : Char} (hcr : c ≠ '\r') (hlf : c ≠ '\n') (s : List Char) :
    (lineFeeds s).head? = some c ↔ s.head? = some c := by
  cases s with
  | nil => exact Iff.rfl
  | cons a s =>
      by_cases ha : a = '\r'
      · subst ha
        have hhead := lineFeeds_head ('\r' :: s) (fun b hb => (Option.some.inj hb).symm)
        constructor
        · exact fun h => absurd (hhead c h) hlf
        · exact fun h => absurd (Option.some.inj h).symm hcr
      · rw [lineFeeds_cons ha]
        exact Iff.rfl

/-- A text up to its first carriage return. -/
theorem split_cr (s : List Char) :
    ∃ u r, s = u ++ r ∧ '\r' ∉ u ∧ ∀ b, r.head? = some b → b = '\r' := by
  refine ⟨s.takeWhile (· ≠ '\r'), s.dropWhile (· ≠ '\r'), List.takeWhile_append_dropWhile.symm,
    fun hmem => ?_, fun b hb => ?_⟩
  · have hp := List.mem_takeWhile_imp hmem
    exact absurd rfl (of_decide_eq_true hp)
  · have hp := List.head?_dropWhile_not (· ≠ '\r') s
    rw [hb] at hp
    exact of_decide_eq_true (by simpa using hp)

/-! ## Pieces with line feeds -/

/-- A piece begins with what the text begins with. -/
theorem readQuoted_head {close c : Char} (hc : c ≠ close) {s v : List Char} {n : ℕ}
    (hs : s.head? ≠ some c) (h : readQuoted close s = some (v, n)) : v.head? ≠ some c := by
  cases s with
  | nil => cases h
  | cons a s =>
      by_cases ha : a = close
      · subst ha
        cases s with
        | nil =>
            rw [readQuoted, if_pos rfl] at h
            cases h
            exact fun hv => by cases hv
        | cons d s =>
            rw [readQuoted, if_pos rfl] at h
            split_ifs at h
            · obtain ⟨p, -, hp⟩ := Option.map_eq_some_iff.mp h
              cases hp
              exact fun hv => hc (Option.some.inj hv).symm
            · cases h
              exact fun hv => by cases hv
      · rw [readQuoted_other ha] at h
        obtain ⟨p, -, hp⟩ := Option.map_eq_some_iff.mp h
        cases hp
        exact hs

theorem rel_map {α β α' β' : Type} {R : α → β → Prop} {S : α' → β' → Prop} {f : α → α'}
    {g : β → β'} {a : Option α} {b : Option β} (h : Option.Rel R a b)
    (hmap : ∀ x y, a = some x → R x y → S (f x) (g y)) :
    Option.Rel S (a.map f) (b.map g) := by
  cases h with
  | none => exact .none
  | some h => exact .some (hmap _ _ rfl h)

/-- What a piece of `s` and the piece of `lineFeeds s` have in common. -/
def FedPiece (s : List Char) (p q : List Char × ℕ) : Prop :=
  q.1 = lineFeeds p.1 ∧ (lineFeeds s).drop q.2 = lineFeeds (s.drop p.2)

/-- A quoted piece with line breaks becomes one with line feeds. -/
theorem readQuoted_lineFeeds {close : Char} (hcr : close ≠ '\r') (hlf : close ≠ '\n')
    (s : List Char) : Option.Rel (FedPiece s) (readQuoted close s)
      (readQuoted close (lineFeeds s)) := by
  induction hn : s.length using Nat.strong_induction_on generalizing s with
  | _ n ih =>
      cases s with
      | nil => exact .none
      | cons c s =>
          rw [List.length_cons] at hn
          have hrest := ih s.length (by omega) s rfl
          by_cases hc : c = '\r'
          · subst hc
            by_cases hs : s.head? = some '\n'
            · obtain ⟨s, rfl⟩ := List.head?_eq_some_iff.mp hs
              rw [List.length_cons] at hn
              rw [lineFeeds_crlf, readQuoted_other hcr.symm, readQuoted_other hlf.symm,
                readQuoted_other hlf.symm, Option.map_map]
              refine rel_map (ih s.length (by omega) s rfl) ?_
              rintro p q - ⟨hvalue, hdrop⟩
              refine ⟨?_, hdrop⟩
              rw [hvalue]
              rfl
            · rw [lineFeeds_cr hs, readQuoted_other hcr.symm, readQuoted_other hlf.symm]
              refine rel_map hrest ?_
              rintro ⟨v, n⟩ q hread ⟨hvalue, hdrop⟩
              refine ⟨?_, ?_⟩
              · rw [hvalue, lineFeeds_cr (readQuoted_head hlf.symm hs hread)]
              · rw [lineFeeds_cr hs]
                exact hdrop
          · rw [lineFeeds_cons hc]
            by_cases hclose : c = close
            · subst hclose
              by_cases hdouble : s.head? = some c ∧ c ≠ ']'
              · obtain ⟨hs, hbracket⟩ := hdouble
                obtain ⟨s, rfl⟩ := List.head?_eq_some_iff.mp hs
                rw [List.length_cons] at hn
                rw [lineFeeds_cons hc, readQuoted, if_pos rfl, if_pos ⟨hbracket, rfl⟩, readQuoted,
                  if_pos rfl, if_pos ⟨hbracket, rfl⟩]
                refine rel_map (ih s.length (by omega) s rfl) ?_
                rintro p q - ⟨hvalue, hdrop⟩
                refine ⟨?_, ?_⟩
                · rw [hvalue, lineFeeds_cons hc]
                · rw [lineFeeds_cons hc, lineFeeds_cons hc]
                  exact hdrop
              · have hend : s.head? = some c → c = ']' :=
                  fun hs => not_not.mp fun hb => hdouble ⟨hs, hb⟩
                rw [readQuoted_end hend, readQuoted_end fun hs =>
                  hend ((head?_lineFeeds hcr hlf s).mp hs)]
                refine .some ⟨rfl, ?_⟩
                rw [lineFeeds_cons hc]
                rfl
            · rw [readQuoted_other hclose, readQuoted_other hclose]
              refine rel_map hrest ?_
              rintro p q - ⟨hvalue, hdrop⟩
              refine ⟨?_, ?_⟩
              · rw [hvalue, lineFeeds_cons hc]
              · rw [lineFeeds_cons hc]
                exact hdrop

/-- A block comment with line breaks becomes one with line feeds. -/
theorem skipBlock_lineFeeds (s : List Char) :
    Option.Rel (fun n m => (lineFeeds s).drop m = lineFeeds (s.drop n)) (skipBlock s)
      (skipBlock (lineFeeds s)) := by
  induction s using KitMigrations.lineFeeds.induct with
  | case1 => exact .none
  | case2 s ih =>
      rw [lineFeeds_crlf, skipBlock_other (.inl (by decide)), skipBlock_other (.inl (by decide)),
        skipBlock_other (.inl (by decide)), Option.map_map]
      exact rel_map ih fun n m _ hdrop => hdrop
  | case3 s hne ih =>
      rw [KitMigrations.lineFeeds.eq_3 _ hne, skipBlock_other (.inl (by decide)),
        skipBlock_other (.inl (by decide))]
      exact rel_map ih fun n m _ hdrop => hdrop
  | case4 c s hcrlf hcr ih =>
      rw [KitMigrations.lineFeeds.eq_4 _ _ hcrlf hcr]
      by_cases hend : c = '*' ∧ s.head? = some '/'
      · obtain ⟨rfl, hs⟩ := hend
        obtain ⟨s, rfl⟩ := List.head?_eq_some_iff.mp hs
        rw [lineFeeds_cons (by decide), skipBlock, skipBlock]
        exact .some rfl
      · have hopen := not_and_or.mp hend
        have hopen' : c ≠ '*' ∨ (lineFeeds s).head? ≠ some '/' :=
          hopen.imp_right fun hs => by rwa [Ne, head?_lineFeeds (by decide) (by decide)]
        rw [skipBlock_other hopen, skipBlock_other hopen']
        exact rel_map ih fun n m _ hdrop => hdrop

/-! ## Tokens with line feeds -/

/-- A token whose line breaks are line feeds. Only what stood in quotes has any. -/
def feedToken : Token → Token
  | .id name => .id (lineFeeds name)
  | .str value => .str (lineFeeds value)
  | t => t

def isLineBreak (c : Char) : Bool := c = '\n' || c = '\r'

/-- A turn of a scanner for which every line break ends a line comment. -/
def lineTurn (ch : Char) (s : List Char) : Except String (ℕ × Option Token) :=
  if ch = '-' ∧ s.head? = some '-' then
    .ok (1 + (s.tail.takeWhile fun c => !isLineBreak c).length, none)
  else turn ch s

def lineTokens (sql : List Char) : Except String (List Token) :=
  (Utf8.scan lineTurn sql).map (List.filterMap id)

/-- The turn on `lineFeeds s` gives what the turn on `s` does, and leaves what that leaves. -/
inductive Follows (s : List Char) :
    Except String (ℕ × Option Token) → Except String (ℕ × Option Token) → Prop
  | error (e : String) : Follows s (.error e) (.error e)
  | ok {n m : ℕ} {t : Option Token} (h : (lineFeeds s).drop m = lineFeeds (s.drop n)) :
      Follows s (.ok (n, t)) (.ok (m, t.map feedToken))

theorem toLower_cr {c : Char} : c.toLower = '\r' ↔ c = '\r' := by
  rw [← decide_eq_decide]
  exact toLower_keeps (p := fun c => decide (c = '\r')) (forall_of_all (by decide)) c

theorem toLower_lf {c : Char} : c.toLower = '\n' ↔ c = '\n' := by
  rw [← decide_eq_decide]
  exact toLower_keeps (p := fun c => decide (c = '\n')) (forall_of_all (by decide)) c

theorem asciiLower_lineFeeds (s : List Char) :
    asciiLower (lineFeeds s) = lineFeeds (asciiLower s) := by
  induction s using KitMigrations.lineFeeds.induct with
  | case1 => rfl
  | case2 s ih => exact congrArg ('\n' :: ·) ih
  | case3 s hne ih =>
      have hs : s.head? ≠ some '\n' := fun h => by
        obtain ⟨t, rfl⟩ := List.head?_eq_some_iff.mp h
        exact hne t rfl
      have hlower : (asciiLower s).head? ≠ some '\n' := by
        cases s with
        | nil => exact hs
        | cons c s => exact fun h => hs (congrArg some (toLower_lf.mp (Option.some.inj h)))
      rw [lineFeeds_cr hs]
      exact (congrArg ('\n' :: ·) ih).trans (lineFeeds_cr hlower).symm
  | case4 c s hcrlf hcr ih =>
      rw [KitMigrations.lineFeeds.eq_4 _ _ hcrlf hcr]
      have hlower : c.toLower ≠ '\r' := fun h => hcr (toLower_cr.mp h)
      exact (congrArg (c.toLower :: ·) ih).trans (lineFeeds_cons hlower _).symm

/-- No line break stands in the digits of a blob, and none comes in. -/
theorem isHexPairs_lineFeeds (s : List Char) : isHexPairs (lineFeeds s) = isHexPairs s := by
  by_cases hcr : '\r' ∈ s
  · have hplain : isHexPairs s = false := by
      rw [← Bool.not_eq_true]
      exact fun h => absurd (isHexPairs_hex h _ hcr) (by decide)
    have hfed : isHexPairs (lineFeeds s) = false := by
      rw [← Bool.not_eq_true]
      obtain ⟨u, r, rfl, hu, hr⟩ := split_cr s
      intro h
      cases r with
      | nil =>
          rw [List.append_nil] at hcr
          exact hu hcr
      | cons b r =>
          have hhead := lineFeeds_head (b :: r) hr
          rw [lineFeeds_append hu] at h
          cases hfeeds : lineFeeds (b :: r) with
          | nil =>
              obtain rfl := hr b rfl
              by_cases hcrlf : r.head? = some '\n'
              · obtain ⟨r, rfl⟩ := List.head?_eq_some_iff.mp hcrlf
                cases hfeeds
              · rw [lineFeeds_cr hcrlf] at hfeeds
                cases hfeeds
          | cons a t =>
              rw [hfeeds] at h hhead
              have ha := isHexPairs_hex h a (List.mem_append_right _ List.mem_cons_self)
              rw [hhead a rfl] at ha
              exact absurd ha (by decide)
    rw [hplain, hfed]
  · rw [lineFeeds_eq hcr]

theorem quotedTurn_lineFeeds {close : Char} (hcr : close ≠ '\r') (hlf : close ≠ '\n')
    (error : String) {token : List Char → Except String Token}
    (htoken : ∀ v, token (lineFeeds v) = (token v).map feedToken) (s : List Char) :
    Follows s (quotedTurn close s error token) (quotedTurn close (lineFeeds s) error token) := by
  rw [quotedTurn, quotedTurn]
  have hread := readQuoted_lineFeeds hcr hlf s
  revert hread
  generalize readQuoted close s = p
  generalize readQuoted close (lineFeeds s) = q
  intro hread
  cases hread with
  | none => exact .error error
  | @some p q hfed =>
      obtain ⟨v, n⟩ := p
      obtain ⟨w, m⟩ := q
      obtain ⟨rfl, hdrop⟩ := hfed
      change Follows s ((token v).map _) ((token (lineFeeds v)).map _)
      rw [htoken]
      cases token v with
      | error e => exact .error e
      | ok t => exact .ok hdrop

theorem delimiter_cr : Delimiter '\r' := by
  constructor <;> decide

theorem delimited_of_head {r : List Char} {b : Char} (hb : Delimiter b)
    (h : ∀ c, r.head? = some c → c = b) : Delimited r :=
  fun c hc => h c hc ▸ hb

/-- No comment and no quote begins here. -/
structure Plain (ch : Char) (s : List Char) : Prop where
  dash : ¬(ch = '-' ∧ s.head? = some '-')
  slash : ¬(ch = '/' ∧ s.head? = some '*')
  blob : ¬((ch = 'x' ∨ ch = 'X') ∧ s.head? = some '\'')
  string : ch ≠ '\''
  name : ¬(ch = '"' ∨ ch = '\x60')
  bracket : ch ≠ '['

theorem wordToken_fed {word : List Char} (h : '\r' ∉ word) :
    feedToken (wordToken word) = wordToken word := by
  have hlower : '\r' ∉ asciiLower word := by
    intro hmem
    obtain ⟨c, hc, hlower⟩ := List.mem_map.mp hmem
    exact h (toLower_cr.mp hlower ▸ hc)
  rw [wordToken]
  split_ifs
  · rfl
  · exact congrArg Token.id (lineFeeds_eq hlower)

theorem turn_plain {ch : Char} {u : List Char} (h : Plain ch u) (hch : ch ≠ '\r') (hu : '\r' ∉ u) :
    ∃ k t, turn ch u = .ok (k, t) ∧ t.map feedToken = t := by
  simp only [turn, if_neg h.dash, if_neg h.slash, if_neg h.blob, if_neg h.string, if_neg h.name,
    if_neg h.bracket]
  split_ifs
  · exact ⟨_, _, rfl, rfl⟩
  · exact ⟨_, _, rfl, rfl⟩
  · exact ⟨_, _, rfl, rfl⟩
  · refine ⟨_, _, rfl, congrArg some (wordToken_fed fun hmem => ?_)⟩
    rcases List.mem_cons.mp hmem with hmem | hmem
    · exact hch hmem.symm
    · exact hu ((List.takeWhile_sublist _).subset hmem)

theorem Follows.shift {s : List Char} {c : Char} (hc : c ≠ '\r')
    {x y : Except String (ℕ × Option Token)} (h : Follows s x y) :
    Follows (c :: s) (x.map fun p => (1 + p.1, p.2)) (y.map fun p => (1 + p.1, p.2)) := by
  cases h with
  | error e => exact .error e
  | ok h =>
      refine .ok ?_
      rw [lineFeeds_cons hc, Nat.add_comm, List.drop_succ_cons, Nat.add_comm, List.drop_succ_cons]
      exact h

theorem map_ok {ε α β : Type} (f : α → β) (a : α) :
    (Except.ok a : Except ε α).map f = .ok (f a) := rfl

/-- A line comment up to the line break that ends it. -/
theorem takeWhile_lineFeeds (s : List Char) : ∃ u r, s = u ++ r ∧ lineFeeds s = u ++ lineFeeds r ∧
    (s.takeWhile fun c => !isLineBreak c) = u ∧ (lineFeeds s).takeWhile (· ≠ '\n') = u := by
  have hbreak (c : Char) : (!isLineBreak c) = true ↔ c ≠ '\n' ∧ c ≠ '\r' := by
    simp [isLineBreak]
  have hu {c : Char} (hc : c ∈ s.takeWhile fun c => !isLineBreak c) : c ≠ '\n' ∧ c ≠ '\r' :=
    (hbreak c).mp (List.mem_takeWhile_imp (p := fun c => !isLineBreak c) hc)
  have hsplit := List.takeWhile_append_dropWhile (p := fun c => !isLineBreak c) (l := s)
  have hfeeds : lineFeeds s = s.takeWhile (fun c => !isLineBreak c) ++
      lineFeeds (s.dropWhile fun c => !isLineBreak c) := by
    conv_lhs => rw [← hsplit]
    exact lineFeeds_append (fun hmem => (hu hmem).2 rfl) _
  refine ⟨_, _, hsplit.symm, hfeeds, rfl, ?_⟩
  rw [hfeeds, takeWhile_append]
  · exact List.takeWhile_eq_self_iff.mpr fun c hc => decide_eq_true (hu hc).1
  · intro b hb
    rw [decide_eq_false_iff_not, not_not]
    have hfirst (c : Char) (hc : (s.dropWhile fun c => !isLineBreak c).head? = some c) :
        c = '\n' ∨ c = '\r' := by
      have hp := List.head?_dropWhile_not (fun c => !isLineBreak c) s
      rw [hc] at hp
      simpa [isLineBreak, or_iff_not_imp_left] using hp
    generalize s.dropWhile (fun c => !isLineBreak c) = r at hb hfirst
    cases r with
    | nil => cases hb
    | cons c r =>
        rcases hfirst c rfl with rfl | rfl
        · exact (Option.some.inj hb).symm
        · exact lineFeeds_head ('\r' :: r) (fun c hc => (Option.some.inj hc).symm) b hb

/-- The scanner takes a text with line feeds turn by turn as it takes the text itself, if only
line breaks of every kind end a line comment. -/
theorem turn_lineFeeds {ch : Char} (hch : ch ≠ '\r') (s : List Char) :
    Follows s (lineTurn ch s) (turn ch (lineFeeds s)) := by
  have hdash := head?_lineFeeds (c := '-') (by decide) (by decide) s
  have hstar := head?_lineFeeds (c := '*') (by decide) (by decide) s
  have hquote := head?_lineFeeds (c := '\'') (by decide) (by decide) s
  by_cases hcomment : ch = '-' ∧ s.head? = some '-'
  · rw [lineTurn, if_pos hcomment]
    obtain ⟨rfl, hs⟩ := hcomment
    obtain ⟨s, rfl⟩ := List.head?_eq_some_iff.mp hs
    obtain ⟨u, r, hsplit, hfeeds, hline, hfed⟩ := takeWhile_lineFeeds s
    rw [lineFeeds_cons (by decide)]
    have hturn : turn '-' ('-' :: lineFeeds s) =
        .ok (1 + ((lineFeeds s).takeWhile (· ≠ '\n')).length, none) := by
      simp only [turn, List.head?_cons, List.tail_cons]
      rfl
    rw [hturn, List.tail_cons, hline, hfed]
    refine .ok (t := none) ?_
    rw [lineFeeds_cons (by decide), Nat.add_comm, List.drop_succ_cons, List.drop_succ_cons, hfeeds]
    conv_rhs => rw [hsplit]
    rw [List.drop_left, List.drop_left]
  · rw [lineTurn, if_neg hcomment]
    by_cases hspace : isSpace ch = true
    · rw [turn, if_pos hspace, turn, if_pos hspace]
      exact .ok (t := none) rfl
    by_cases hblock : ch = '/' ∧ s.head? = some '*'
    · simp only [turn, if_neg hspace, if_neg hcomment, if_pos hblock, hdash, hstar]
      obtain ⟨rfl, hs⟩ := hblock
      obtain ⟨s, rfl⟩ := List.head?_eq_some_iff.mp hs
      rw [lineFeeds_cons (by decide), List.tail_cons, List.tail_cons]
      have hskip := skipBlock_lineFeeds s
      revert hskip
      generalize skipBlock s = n
      generalize skipBlock (lineFeeds s) = m
      intro hskip
      cases hskip with
      | none => exact .error _
      | some h =>
          refine .ok (t := none) ?_
          rw [lineFeeds_cons (by decide), Nat.add_comm, List.drop_succ_cons, Nat.add_comm,
            List.drop_succ_cons]
          exact h
    by_cases hblob : (ch = 'x' ∨ ch = 'X') ∧ s.head? = some '\''
    · simp only [turn, if_neg hspace, if_neg hcomment, if_neg hblock, if_pos hblob, hdash, hstar,
        hquote]
      obtain ⟨s, rfl⟩ := List.head?_eq_some_iff.mp hblob.2
      rw [lineFeeds_cons (by decide), List.tail_cons, List.tail_cons]
      refine (quotedTurn_lineFeeds (by decide) (by decide) _ (fun v => ?_) s).shift (by decide)
      rw [isHexPairs_lineFeeds]
      by_cases hhex : isHexPairs v = true
      · have hcr : '\r' ∉ v := fun h => absurd (isHexPairs_hex hhex _ h) (by decide)
        rw [if_pos hhex, if_pos hhex, lineFeeds_eq hcr]
        rfl
      · rw [if_neg hhex, if_neg hhex]
        rfl
    by_cases hstring : ch = '\''
    · simp only [turn, if_neg hspace, if_neg hcomment, if_neg hblock, if_neg hblob, if_pos hstring,
        hdash, hstar, hquote]
      refine quotedTurn_lineFeeds hch ?_ _ (fun v => rfl) s
      rw [hstring]
      decide
    by_cases hname : ch = '"' ∨ ch = '\x60'
    · simp only [turn, if_neg hspace, if_neg hcomment, if_neg hblock, if_neg hblob, if_neg hstring,
        if_pos hname, hdash, hstar, hquote]
      refine quotedTurn_lineFeeds hch ?_ _ (fun v => ?_) s
      · rcases hname with rfl | rfl <;> decide
      · rw [asciiLower_lineFeeds]
        rfl
    by_cases hbracket : ch = '['
    · simp only [turn, if_neg hspace, if_neg hcomment, if_neg hblock, if_neg hblob, if_neg hstring,
        if_neg hname, if_pos hbracket, hdash, hstar, hquote]
      refine quotedTurn_lineFeeds (by decide) (by decide) _ (fun v => ?_) s
      rw [asciiLower_lineFeeds]
      rfl
    · obtain ⟨u, r, rfl, hu, hr⟩ := split_cr s
      have hstop : Delimited r := delimited_of_head delimiter_cr hr
      have hfed := lineFeeds_head r hr
      have hstop' : Delimited (lineFeeds r) := delimited_of_head (delimiter (by decide)) hfed
      have hnone {c : Char} (hc : c ≠ '\r') : r.head? ≠ some c := fun h => hc (hr c h)
      have hnone' {c : Char} (hc : c ≠ '\n') : (lineFeeds r).head? ≠ some c :=
        fun h => hc (hfed c h)
      rw [head?_append (hnone (by decide))] at hcomment hblock hblob
      obtain ⟨k, t, hturn, ht⟩ :=
        turn_plain ⟨hcomment, hblock, hblob, hstring, hname, hbracket⟩ hch hu
      have hleft := turn_append hstop.stop (by rwa [head?_append (hnone (by decide))]) hblock
        (fun _ => hstop.not_name) hturn
      have hright := turn_append hstop'.stop (by rwa [head?_append (hnone' (by decide))]) hblock
        (fun _ => hstop'.not_name) hturn
      rw [lineFeeds_append hu, hleft.2, hright.2]
      have hfollows : Follows (u ++ r) (.ok (k, t)) (.ok (k, t.map feedToken)) := by
        refine .ok ?_
        have hdrop : '\r' ∉ u.drop k := fun h => hu (List.mem_of_mem_drop h)
        rw [lineFeeds_append hu, List.drop_append_of_le_length hleft.1,
          List.drop_append_of_le_length hleft.1, lineFeeds_append hdrop]
      rwa [ht] at hfollows

/-! ## The tokens of a normalized text -/

theorem map_nil_append {ε α : Type} (x : Except ε (List α)) : x.map ([] ++ ·) = x := by
  cases x <;> rfl

theorem lineTokens_space {c : Char} (h : isSpace c = true) (hdash : c ≠ '-') (s : List Char) :
    lineTokens (c :: s) = lineTokens s := by
  have hturn : lineTurn c s = .ok (0, none) := by
    rw [lineTurn, if_neg fun h => hdash h.1, turn, if_pos h]
  exact (scanned_cons hturn).trans (map_nil_append _)

theorem tokens_space {c : Char} (h : isSpace c = true) (s : List Char) :
    canonicalSqlTokens (c :: s) = canonicalSqlTokens s :=
  (closed_space h s).trans (map_nil_append _)

/-- Line feeds for line breaks are read as the line breaks would be. -/
theorem tokens_lineFeeds (s : List Char) :
    canonicalSqlTokens (lineFeeds s) = (lineTokens s).map (List.map feedToken) := by
  induction hn : s.length using Nat.strong_induction_on generalizing s with
  | _ n ih =>
      cases s with
      | nil => rw [lineFeeds, tokens_nil, lineTokens, Utf8.scan]; rfl
      | cons c s =>
          rw [List.length_cons] at hn
          by_cases hc : c = '\r'
          · subst hc
            rw [lineTokens_space rfl (by decide)]
            by_cases hs : s.head? = some '\n'
            · obtain ⟨s, rfl⟩ := List.head?_eq_some_iff.mp hs
              rw [List.length_cons] at hn
              rw [lineFeeds_crlf, tokens_space rfl, lineTokens_space rfl (by decide)]
              exact ih s.length (by omega) s rfl
            · rw [lineFeeds_cr hs, tokens_space rfl]
              exact ih s.length (by omega) s rfl
          · rw [lineFeeds_cons hc]
            have hfollows := turn_lineFeeds hc s
            revert hfollows
            generalize hline : lineTurn c s = x
            generalize hturn : turn c (lineFeeds s) = y
            intro hfollows
            cases hfollows with
            | error e =>
                have herror : lineTokens (c :: s) = .error e := scanned_error hline
                rw [tokens_error hturn, herror]
                rfl
            | @ok n m t hdrop =>
                have hcons : lineTokens (c :: s) = (lineTokens (s.drop n)).map (t.toList ++ ·) :=
                  scanned_cons hline
                have hlength : (s.drop n).length ≤ s.length := by
                  rw [List.length_drop]
                  omega
                rw [tokens_cons hturn, hdrop, ih _ (by omega) _ rfl, hcons]
                cases lineTokens (s.drop n) with
                | error e => rfl
                | ok ts => cases t <;> rfl

theorem readQuoted_newline {close : Char} (h : close ≠ '\n') (s : List Char) :
    readQuoted close (s ++ ['\n']) = readQuoted close s := by
  induction s using readQuoted.induct close with
  | case1 => exact if_neg h.symm
  | case2 =>
      have hnewline : ['\n'].head? = some close → close = ']' :=
        fun hs => absurd (Option.some.inj hs).symm h
      rw [List.singleton_append, readQuoted_end hnewline]
      exact (if_pos rfl).symm
  | case3 c hc =>
      have hnewline : readQuoted close ['\n'] = none := if_neg h.symm
      rw [List.singleton_append, readQuoted_other hc, hnewline]
      exact (if_neg hc).symm
  | case4 d s hd ih =>
      rw [List.cons_append, List.cons_append, readQuoted, if_pos rfl, if_pos hd, ih, readQuoted,
        if_pos rfl, if_pos hd]
  | case5 d s hd =>
      rw [List.cons_append, List.cons_append, readQuoted, if_pos rfl, if_neg hd, readQuoted,
        if_pos rfl, if_neg hd]
  | case6 c d s hc ih =>
      rw [List.cons_append, List.cons_append, readQuoted, if_neg hc, ← List.cons_append, ih,
        readQuoted, if_neg hc]

theorem skipBlock_newline (s : List Char) : skipBlock (s ++ ['\n']) = skipBlock s := by
  induction s using skipBlock.induct with
  | case1 => rfl
  | case2 s => rfl
  | case3 c s hend ih =>
      have hopen : c ≠ '*' ∨ s.head? ≠ some '/' := by
        by_contra hclosed
        obtain ⟨hc, hs⟩ := not_or.mp hclosed
        obtain ⟨t, rfl⟩ := List.head?_eq_some_iff.mp (not_not.mp hs)
        exact hend t (not_not.mp hc) rfl
      have hopen' : c ≠ '*' ∨ (s ++ ['\n']).head? ≠ some '/' :=
        hopen.imp_right fun hs => by rwa [Ne, head?_append (by decide)]
      rw [List.cons_append, skipBlock_other hopen', ih, skipBlock_other hopen]

theorem quotedTurn_newline {close : Char} (h : close ≠ '\n') (s : List Char) (error : String)
    (token : List Char → Except String Token) :
    quotedTurn close (s ++ ['\n']) error token = quotedTurn close s error token := by
  rw [quotedTurn, readQuoted_newline h, quotedTurn]

theorem turn_newline (ch : Char) (s : List Char) : turn ch (s ++ ['\n']) = turn ch s := by
  have hstop : Stop ['\n'] := (delimited (by decide) []).stop
  obtain ⟨hnumber, hnumeric⟩ := numericLength_append hstop s ch
  obtain ⟨hoperator, hsymbol⟩ := operatorLength_append hstop s ch
  have hword : (s ++ ['\n']).takeWhile isWordPart = s.takeWhile isWordPart :=
    takeWhile_append (fun _ hb => Option.some.inj hb ▸ rfl) s
  have hline : (s.tail ++ ['\n']).takeWhile (· ≠ '\n') = s.tail.takeWhile (· ≠ '\n') :=
    takeWhile_append (fun _ hb => Option.some.inj hb ▸ rfl) s.tail
  have hstart : isNumericStart ch (s ++ ['\n']) = isNumericStart ch s := by
    cases s <;> rfl
  have hhead {c : Char} (hc : c ≠ '\n') : (s ++ ['\n']).head? = some c ↔ s.head? = some c :=
    head?_append (r := ['\n']) (fun h => hc (Option.some.inj h).symm) s
  have htail (hs : s ≠ []) : (s ++ ['\n']).tail = s.tail ++ ['\n'] := List.tail_append_of_ne_nil hs
  have hne {c : Char} (hc : s.head? = some c) : s ≠ [] := by
    rintro rfl
    cases hc
  simp only [turn, hhead (show '-' ≠ '\n' by decide), hhead (show '*' ≠ '\n' by decide),
    hhead (show '\'' ≠ '\n' by decide), hstart, hnumeric, hsymbol, hword,
    List.take_append_of_le_length hnumber, List.take_append_of_le_length hoperator]
  split_ifs with hspace hdash hslash hblob hstring hname hopen
  · rfl
  · rw [htail (hne hdash.2), hline]
  · rw [htail (hne hslash.2), skipBlock_newline]
  · rw [htail (hne hblob.2), quotedTurn_newline (by decide)]
  · exact quotedTurn_newline (by rw [hstring]; decide) s _ _
  · refine quotedTurn_newline ?_ s _ _
    rcases hname with rfl | rfl <;> decide
  · exact quotedTurn_newline (by decide) s _ _
  · rfl
  · rfl
  · rfl

/-- A line feed at the end of a text adds nothing to it. -/
theorem tokens_newline (s : List Char) :
    canonicalSqlTokens (s ++ ['\n']) = canonicalSqlTokens s := by
  induction hn : s.length using Nat.strong_induction_on generalizing s with
  | _ n ih =>
      cases s with
      | nil => exact tokens_space rfl []
      | cons c s =>
          rw [List.length_cons] at hn
          rw [List.cons_append]
          cases hturn : turn c s with
          | error e => rw [tokens_error hturn, tokens_error ((turn_newline c s).trans hturn)]
          | ok p =>
              have hle := turn_le hturn
              have hlength : (s.drop p.1).length ≤ s.length := by
                rw [List.length_drop]
                omega
              rw [tokens_cons (n := p.1) (t := p.2) hturn,
                tokens_cons (n := p.1) (t := p.2) ((turn_newline c s).trans hturn),
                List.drop_append_of_le_length hle, ih _ (by omega) _ rfl]

/-! ## When the tokens stay -/

/-- The text has the tokens it would have if a carriage return ended a line comment and every
line break in quotes were a line feed. -/
def LinesAgree (s : List Char) : Prop :=
  (lineTokens s).map (List.map feedToken) = canonicalSqlTokens s

/-- A line comment has a carriage return at its end at most. -/
inductive Settled : List Char → Prop
  | nil : Settled []
  | error {ch : Char} {s : List Char} {e : String} (hturn : turn ch s = .error e) :
      Settled (ch :: s)
  | turn {ch : Char} {s : List Char} {n : ℕ} {t : Option Token} (hturn : turn ch s = .ok (n, t))
      (comment : ch = '-' → s.head? = some '-' →
        '\r' ∉ (s.tail.takeWhile (· ≠ '\n')).dropLast)
      (rest : Settled (s.drop n)) : Settled (ch :: s)

/-- No name and no literal has a carriage return. -/
def Unbroken (s : List Char) : Prop :=
  ∀ ts, canonicalSqlTokens s = .ok ts → ∀ v, .id v ∈ ts ∨ .str v ∈ ts → '\r' ∉ v

/-- A line comment that goes over no line break but its own end. -/
theorem comment_end {line r : List Char} (hline : '\r' ∉ line.dropLast) (hfeed : '\n' ∉ line)
    (hr : ∀ b, r.head? = some b → b = '\n') :
    (line ++ r).takeWhile (fun c => !isLineBreak c) = line ∨
      ∃ front, line = front ++ ['\r'] ∧
        (line ++ r).takeWhile (fun c => !isLineBreak c) = front := by
  have hend : r.takeWhile (fun c => !isLineBreak c) = [] := by
    cases r with
    | nil => rfl
    | cons b r =>
        obtain rfl := hr b rfl
        rfl
  have hkept {l : List Char} (hcr : '\r' ∉ l) (hlf : '\n' ∉ l) :
      ∀ c ∈ l, (!isLineBreak c) = true := by
    intro c hc
    simp only [isLineBreak, Bool.not_eq_true', Bool.or_eq_false_iff, decide_eq_false_iff_not]
    exact ⟨fun h => hlf (h ▸ hc), fun h => hcr (h ▸ hc)⟩
  rcases List.eq_nil_or_concat line with rfl | ⟨front, b, rfl⟩
  · exact .inl hend
  · rw [List.concat_eq_append, List.dropLast_concat] at hline
    rw [List.concat_eq_append] at hfeed ⊢
    have hfront : '\n' ∉ front := fun h => hfeed (List.mem_append_left _ h)
    by_cases hb : b = '\r'
    · subst hb
      refine .inr ⟨front, rfl, ?_⟩
      rw [List.append_assoc, List.takeWhile_append_of_pos (hkept hline hfront)]
      exact List.append_nil front
    · refine .inl ?_
      have hall : '\r' ∉ front ++ [b] := by
        intro hmem
        rcases List.mem_append.mp hmem with h | h
        · exact hline h
        · exact hb (List.mem_singleton.mp h).symm
      rw [List.takeWhile_append_of_pos (hkept hall hfeed), hend, List.append_nil]

/-- A line comment, what ends it, and how far both scanners read it. -/
theorem comment_turns (s : List Char) : ∃ line r, s = line ++ r ∧
    s.takeWhile (· ≠ '\n') = line ∧ '\n' ∉ line ∧ (∀ b, r.head? = some b → b = '\n') ∧
      turn '-' ('-' :: s) = .ok (1 + line.length, none) := by
  refine ⟨_, _, List.takeWhile_append_dropWhile.symm, rfl, fun hmem => ?_, fun b hb => ?_, rfl⟩
  · have hp := List.mem_takeWhile_imp (p := fun c => decide (c ≠ '\n')) hmem
    exact absurd rfl (of_decide_eq_true hp)
  · have hp := List.head?_dropWhile_not (· ≠ '\n') s
    rw [hb] at hp
    exact of_decide_eq_true (by simpa using hp)

/-- Where no comment goes on behind a carriage return both scanners take the same text. -/
theorem lineTokens_settled {s : List Char} (h : Settled s) :
    lineTokens s = canonicalSqlTokens s := by
  induction h with
  | nil => rw [lineTokens, canonicalSqlTokens, Utf8.scan, Utf8.scan]
  | @error ch s e hturn =>
      have hdash : ¬(ch = '-' ∧ s.head? = some '-') := by
        rintro ⟨rfl, hs⟩
        obtain ⟨s, rfl⟩ := List.head?_eq_some_iff.mp hs
        obtain ⟨line, r, -, -, -, -, hok⟩ := comment_turns s
        rw [hok] at hturn
        cases hturn
      have hline : lineTurn ch s = .error e := by rw [lineTurn, if_neg hdash, hturn]
      exact (scanned_error hline).trans (tokens_error hturn).symm
  | @turn ch s n t hturn comment rest ih =>
      rw [tokens_cons hturn, ← ih]
      by_cases hdash : ch = '-' ∧ s.head? = some '-'
      · have hline : lineTurn ch s =
            .ok (1 + (s.tail.takeWhile fun c => !isLineBreak c).length, none) := if_pos hdash
        have hcomment := comment hdash.1 hdash.2
        refine (scanned_cons hline).trans ?_
        change (lineTokens _).map _ = _
        obtain ⟨rfl, hs⟩ := hdash
        obtain ⟨s, rfl⟩ := List.head?_eq_some_iff.mp hs
        obtain ⟨line, r, rfl, hread, hfeed, hr, hok⟩ := comment_turns s
        obtain ⟨rfl, rfl⟩ := Prod.mk.inj (Except.ok.inj (hok.symm.trans hturn))
        rw [List.tail_cons, hread] at hcomment
        rw [List.tail_cons]
        rcases comment_end hcomment hfeed hr with hend | ⟨front, rfl, hend⟩
        · rw [hend]
        · rw [hend, Nat.add_comm, List.drop_succ_cons, Nat.add_comm, List.drop_succ_cons,
            List.drop_left, List.append_assoc, List.drop_left]
          exact congrArg (Except.map _) (lineTokens_space rfl (by decide) r)
      · have hline : lineTurn ch s = .ok (n, t) := by rw [lineTurn, if_neg hdash, hturn]
        exact scanned_cons hline

theorem feedToken_eq {t : Token} :
    feedToken t = t ↔ ∀ v, t = .id v ∨ t = .str v → '\r' ∉ v := by
  have hfeeds (v : List Char) : lineFeeds v = v ↔ '\r' ∉ v :=
    ⟨fun h => h ▸ not_mem_lineFeeds v, lineFeeds_eq⟩
  cases t with
  | id name => simp [feedToken, hfeeds]
  | str value => simp [feedToken, hfeeds]
  | sym _ | kw _ | num _ | blob _ => simp [feedToken]

theorem linesAgree_iff {s : List Char} (h : Settled s) : LinesAgree s ↔ Unbroken s := by
  rw [LinesAgree, lineTokens_settled h, Unbroken]
  cases canonicalSqlTokens s with
  | error e => exact ⟨(fun _ _ h => by cases h), (fun _ => rfl)⟩
  | ok ts =>
      have hfixed : ts.map feedToken = ts ↔ ∀ t ∈ ts, feedToken t = t := by
        conv_lhs => rhs; rw [← List.map_id ts]
        exact List.map_inj_left
      rw [map_ok, Except.ok.injEq, hfixed]
      constructor
      · rintro hts _ ⟨⟩ v (hv | hv)
        · exact feedToken_eq.mp (hts _ hv) v (.inl rfl)
        · exact feedToken_eq.mp (hts _ hv) v (.inr rfl)
      · intro hts t ht
        refine feedToken_eq.mpr fun v hv => hts ts rfl v ?_
        rcases hv with rfl | rfl
        · exact .inl ht
        · exact .inr ht

/-! ## Normalized texts -/

/-- A text without carriage returns that ends in one line feed and is normalized. -/
structure LineNormal (out : List Char) : Prop where
  feeds : '\r' ∉ out
  ends : ∃ body, out = body ++ ['\n'] ∧ body.getLast? ≠ some '\n'
  stays : normalizeMigrationSql (.string out) = .ok out

theorem stripLineFeeds_append (s : List Char) :
    ∃ k, s = stripLineFeeds s ++ List.replicate k '\n' ∧
      (stripLineFeeds s).getLast? ≠ some '\n' := by
  have hsplit := List.takeWhile_append_dropWhile (p := (· = '\n')) (l := s.reverse)
  have hfeeds : s.reverse.takeWhile (· = '\n') =
      List.replicate (s.reverse.takeWhile (· = '\n')).length '\n' := by
    refine List.eq_replicate_iff.mpr ⟨rfl, fun c hc => ?_⟩
    exact of_decide_eq_true (List.mem_takeWhile_imp (p := fun c => decide (c = '\n')) hc)
  refine ⟨(s.reverse.takeWhile (· = '\n')).length, ?_, fun hlast => ?_⟩
  · rw [stripLineFeeds, ← List.reverse_replicate, ← hfeeds, ← List.reverse_append, hsplit,
      List.reverse_reverse]
  · have hp := List.head?_dropWhile_not (· = '\n') s.reverse
    rw [stripLineFeeds, List.getLast?_reverse] at hlast
    rw [hlast] at hp
    cases hp

theorem stripLineFeeds_body {body : List Char} (h : body.getLast? ≠ some '\n') (k : ℕ) :
    stripLineFeeds (body ++ List.replicate k '\n') = body := by
  have hall : ∀ c ∈ List.replicate k '\n', decide (c = '\n') = true := fun c hc =>
    decide_eq_true (List.eq_of_mem_replicate hc)
  rw [stripLineFeeds, List.reverse_append, List.reverse_replicate,
    List.dropWhile_append_of_pos hall]
  cases hbody : body.reverse with
  | nil =>
      rw [List.reverse_eq_nil_iff.mp hbody]
      rfl
  | cons c t =>
      have hc : c ≠ '\n' := by
        rintro rfl
        rw [← List.head?_reverse, hbody] at h
        exact h rfl
      rw [List.dropWhile_cons_of_neg (by simpa using hc), ← hbody, List.reverse_reverse]

/-- What an accepted text becomes. -/
theorem normalizeMigrationSql_ok {input : SqlInput} {s out : List Char}
    (hs : input.text = .ok s) (h : normalizeMigrationSql input = .ok out) :
    Char.ofNat 0 ∉ s ∧ out = stripLineFeeds (lineFeeds s) ++ ['\n'] := by
  rw [normalizeMigrationSql, hs] at h
  change (if _ then _ else _) = _ at h
  split_ifs at h with hnul
  exact ⟨hnul, (Except.ok.inj h).symm⟩

/-- No text that is read begins with a byte order mark. -/
theorem text_no_bom {input : SqlInput} {s : List Char} (h : input.text = .ok s) :
    s.head? ≠ some '\uFEFF' := by
  cases input with
  | string text =>
      rw [SqlInput.text] at h
      split_ifs at h with hbom
      obtain rfl := Except.ok.inj h
      exact hbom
  | buffer bytes =>
      rw [SqlInput.text] at h
      split_ifs at h with hbom
      cases bytes with
      | nil =>
          rw [decodeUtf8, Utf8.scan] at h
          obtain rfl := Except.ok.inj h
          exact fun hs => by cases hs
      | cons a bytes =>
          rw [decodeUtf8, Utf8.scan] at h
          cases hfirst : Utf8.first a bytes with
          | none =>
              rw [hfirst] at h
              cases h
          | some p =>
              obtain ⟨n, code⟩ := p
              rw [hfirst] at h
              obtain ⟨l, rest, hseq, hbytes, -⟩ := Utf8.first_sequence hfirst
              cases hscan : Utf8.scan
                  (fun a s => (Utf8.first a s).elim (Except.error ()) Except.ok)
                  (bytes.drop n) with
              | error e =>
                  simp only [Option.elim_some, hscan] at h
                  cases h
              | ok codes =>
                  simp only [Option.elim_some, hscan] at h
                  obtain rfl := Except.ok.inj h
                  intro hhead
                  have hcode : Char.ofNat code = '\uFEFF' := Option.some.inj hhead
                  have hvalue : code = 0xFEFF := by
                    have hnat := congrArg Char.toNat hcode
                    rwa [Char.ofNat, dif_pos hseq.valid] at hnat
                  obtain rfl : Utf8.encode code = l := hseq.encode
                  rw [hbytes, hvalue] at hbom
                  exact hbom rfl

theorem lineNormal_normalized {s : List Char} (hnul : Char.ofNat 0 ∉ s)
    (hbom : s.head? ≠ some '\uFEFF') :
    LineNormal (stripLineFeeds (lineFeeds s) ++ ['\n']) := by
  obtain ⟨k, hfeeds, hlast⟩ := stripLineFeeds_append (lineFeeds s)
  generalize stripLineFeeds (lineFeeds s) = body at hfeeds hlast
  have hcr : '\r' ∉ body ++ ['\n'] := by
    intro hmem
    rcases List.mem_append.mp hmem with hmem | hmem
    · exact not_mem_lineFeeds s (hfeeds ▸ List.mem_append_left _ hmem)
    · exact absurd (List.mem_singleton.mp hmem) (by decide)
  have hnul' : Char.ofNat 0 ∉ body ++ ['\n'] := by
    intro hmem
    rcases List.mem_append.mp hmem with hmem | hmem
    · rcases KitMigrations.lineFeeds_mem (hfeeds ▸ List.mem_append_left _ hmem) with hc | hc
      · exact hnul hc
      · exact absurd hc (by decide)
    · exact absurd (List.mem_singleton.mp hmem) (by decide)
  have hbom' : (body ++ ['\n']).head? ≠ some '\uFEFF' := by
    cases body with
    | nil => decide
    | cons c body =>
        intro hhead
        obtain rfl : c = '\uFEFF' := Option.some.inj hhead
        refine hbom ((head?_lineFeeds (by decide) (by decide) s).mp ?_)
        rw [hfeeds]
        rfl
  refine ⟨hcr, ⟨body, rfl, hlast⟩, ?_⟩
  rw [normalizeMigrationSql, SqlInput.text, if_neg hbom']
  change (if _ then _ else _) = _
  rw [if_neg hnul', lineFeeds_eq hcr]
  exact congrArg (fun b => Except.ok (b ++ ['\n'])) (stripLineFeeds_body hlast 1)

theorem tokens_stripLineFeeds (s : List Char) :
    canonicalSqlTokens (stripLineFeeds s ++ ['\n']) = canonicalSqlTokens s := by
  obtain ⟨k, hs, -⟩ := stripLineFeeds_append s
  have hfeeds (k : ℕ) : canonicalSqlTokens (stripLineFeeds s ++ List.replicate k '\n') =
      canonicalSqlTokens (stripLineFeeds s) := by
    induction k with
    | zero => rw [List.replicate_zero, List.append_nil]
    | succ k ih => rw [List.replicate_succ', ← List.append_assoc, tokens_newline, ih]
  conv_rhs => rw [hs]
  rw [hfeeds, tokens_newline]

/-- A normalized text is one that stays normalized. Its tokens are those of the text exactly
when no carriage return is data and none ends a comment that went on; in a text whose line
comments have none, when none stands in quotes. -/
theorem normalizeMigrationSql_meaning {input : SqlInput} {s out : List Char}
    (hs : input.text = .ok s) (h : normalizeMigrationSql input = .ok out) :
    ((LineNormal out ∧ canonicalSqlTokens out = canonicalSqlTokens s) ↔ LinesAgree s) ∧
      (Settled s →
        ((LineNormal out ∧ canonicalSqlTokens out = canonicalSqlTokens s) ↔ Unbroken s)) := by
  obtain ⟨hnul, rfl⟩ := normalizeMigrationSql_ok hs h
  have hnormal := lineNormal_normalized hnul (text_no_bom hs)
  have hagree : (LineNormal (stripLineFeeds (lineFeeds s) ++ ['\n']) ∧
      canonicalSqlTokens (stripLineFeeds (lineFeeds s) ++ ['\n']) = canonicalSqlTokens s) ↔
        LinesAgree s := by
    rw [tokens_stripLineFeeds, tokens_lineFeeds]
    exact and_iff_right hnormal
  exact ⟨hagree, fun hsettled => hagree.trans (linesAgree_iff hsettled)⟩

/-- A statement before a carriage return and a line feed. -/
def crlfText : List Char := "'a'\r\n".toList

theorem crlfText_tokens : canonicalSqlTokens crlfText = .ok [.str ['a']] := by
  have hdelimited : Delimited ['\r', '\n'] := fun b hb => Option.some.inj hb ▸ delimiter_cr
  have hopen := open_string ['a'] ['\r', '\n'] hdelimited
  rw [tokens_space rfl, tokens_space rfl, tokens_nil] at hopen
  exact hopen

theorem crlfText_settled : Settled crlfText := by
  have hspace : Settled ['\r', '\n'] :=
    .turn (n := 0) (t := none) rfl nofun (.turn (n := 0) (t := none) rfl nofun .nil)
  exact .turn (n := 2) (t := some (.str ['a'])) rfl nofun hspace

theorem normalizeMigrationSql_crlf :
    LineNormal "'a'\n".toList ∧ canonicalSqlTokens "'a'\n".toList = canonicalSqlTokens crlfText := by
  have hs : (SqlInput.string crlfText).text = .ok crlfText := rfl
  have hout : normalizeMigrationSql (.string crlfText) = .ok "'a'\n".toList := rfl
  refine ((normalizeMigrationSql_meaning hs hout).2 crlfText_settled).mpr ?_
  intro ts hts v hv
  rw [crlfText_tokens] at hts
  obtain rfl := Except.ok.inj hts
  rcases hv with hv | hv
  · cases List.mem_singleton.mp hv
  · obtain rfl : v = ['a'] := Token.str.inj (List.mem_singleton.mp hv)
    decide

/-- A carriage return in a literal becomes a line feed. -/
theorem normalizeMigrationSql_literal :
    normalizeMigrationSql (.string "'\r'".toList) = .ok "'\n'\n".toList ∧
      ¬(LineNormal "'\n'\n".toList ∧
        canonicalSqlTokens "'\n'\n".toList = canonicalSqlTokens "'\r'".toList) := by
  refine ⟨rfl, fun h => ?_⟩
  have hbefore : canonicalSqlTokens "'\r'".toList = .ok [.str ['\r']] :=
    (open_string ['\r']).tokens
  have hafter : canonicalSqlTokens "'\n'\n".toList = .ok [.str ['\n']] :=
    (tokens_newline "'\n'".toList).trans (open_string ['\n']).tokens
  rw [hbefore, hafter] at h
  have hvalue := List.singleton_inj.mp (Except.ok.inj h.2)
  exact absurd (Token.str.inj hvalue) (by decide)

end Esdb.MigrationText
