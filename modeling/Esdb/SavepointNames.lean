import Esdb.SavepointSql

/-!
# Names of savepoints

The runtime puts the name of a savepoint into its statements without quotes. Its check admits
what SQLite reads as a number or as a keyword, so that some names that pass it make no statement.
-/
namespace Esdb.SavepointNames

open SavepointSql

/-- `ESDB_SAVEPOINT_NAME_MAX_BYTES`. -/
def savepointNameMaxBytes : ℕ := 64

def reserved : List Char := "__esdb_".toList

/-- `valid_savepoint_name`; each character of a text is a byte. -/
def validSavepointName (text : Option (List Char)) : Bool :=
  match text with
  | none => false
  | some text =>
      if text = [] then false
      else if !text.all fun c => c.isAlphanum || c == '_' then false
      else if savepointNameMaxBytes < text.length then false
      else (text.take reserved.length).map Char.toLower != reserved

/-- `snprintf` into a buffer. -/
def snprintf (capacity : ℕ) (text : List Char) : List Char := text.take (capacity - 1)

def savepointText (name : List Char) : List Char := "SAVEPOINT ".toList ++ (name ++ [';'])

def releaseText (name : List Char) : List Char := "RELEASE ".toList ++ (name ++ [';'])

def rollbackText (name : List Char) : List Char :=
  "ROLLBACK TO ".toList ++ (name ++ ';' :: ' ' :: releaseText name)

/-- The statement of `esdb_savepoint_begin`. -/
def savepointSql (name : List Char) : List Char := snprintf 128 (savepointText name)

/-- The statement of `esdb_savepoint_release`. -/
def releaseSql (name : List Char) : List Char := snprintf 128 (releaseText name)

/-- The statements of `esdb_savepoint_rollback`. -/
def rollbackSql (name : List Char) : List Char := snprintf 160 (rollbackText name)

/-- The statement with which `begin_store_mutation` opens a savepoint. -/
def beginMutation : List Char := "SAVEPOINT __esdb_mutation;".toList

/-- SQLite compares the names of savepoints without case. -/
def SameName (a b : List Char) : Prop := a.map Char.toLower = b.map Char.toLower

/-- The keywords that are no names behind `RELEASE` and `ROLLBACK TO`. -/
def refusedWords : List String := "SAVEPOINT" :: "TRANSACTION" :: "TO" :: "AS" :: reservedWords

/-- The name is no number and none of the keywords. -/
structure Executable (name : List Char) : Prop where
  head : name.head?.any Char.isDigit = false
  word : String.ofList (name.map Char.toUpper) ∉ refusedWords

/-! ## Names that pass the check -/

theorem validSavepointName_iff {name : List Char} :
    validSavepointName (some name) = true ↔ name ≠ [] ∧
      (∀ c ∈ name, c.isAlphanum = true ∨ c = '_') ∧ name.length ≤ savepointNameMaxBytes ∧
        (name.take reserved.length).map Char.toLower ≠ reserved := by
  rw [validSavepointName]
  split_ifs with hempty hchars hlength
  · simp [hempty]
  · simp only [Bool.not_eq_true', List.all_eq_false, Bool.or_eq_true, beq_iff_eq] at hchars
    obtain ⟨c, hc, hno⟩ := hchars
    simp only [false_iff, not_and]
    exact fun _ hall => absurd (hall c hc) hno
  · simp only [false_iff, not_and]
    exact fun _ _ hle => absurd hle (by omega)
  · simp only [Bool.not_eq_true', Bool.not_eq_false, List.all_eq_true, Bool.or_eq_true,
      beq_iff_eq] at hchars
    simp only [bne_iff_ne]
    exact ⟨fun h => ⟨hempty, hchars, by omega, h⟩, fun h => h.2.2.2⟩

theorem snprintf_eq {capacity : ℕ} {text : List Char} (h : text.length < capacity) :
    snprintf capacity text = text :=
  List.take_of_length_le (Nat.le_sub_one_of_lt h)

theorem length_savepointText (name : List Char) :
    (savepointText name).length = 10 + (name.length + 1) := by
  have hkeyword : "SAVEPOINT ".toList.length = 10 := by decide
  unfold savepointText
  rw [List.length_append, List.length_append, hkeyword, List.length_singleton]

theorem length_releaseText (name : List Char) :
    (releaseText name).length = 8 + (name.length + 1) := by
  have hkeyword : "RELEASE ".toList.length = 8 := by decide
  unfold releaseText
  rw [List.length_append, List.length_append, hkeyword, List.length_singleton]

theorem length_rollbackText (name : List Char) :
    (rollbackText name).length = 12 + (name.length + (8 + (name.length + 1) + 1 + 1)) := by
  have hkeyword : "ROLLBACK TO ".toList.length = 12 := by decide
  unfold rollbackText
  rw [List.length_append, List.length_append, hkeyword, List.length_cons, List.length_cons,
    length_releaseText]

section Valid

variable {name : List Char} (hvalid : validSavepointName (some name) = true)
include hvalid

theorem length_valid : name.length ≤ 64 := (validSavepointName_iff.mp hvalid).2.2.1

theorem idChar_valid : ∀ c ∈ name, idChar c = true := by
  intro c hc
  rcases (validSavepointName_iff.mp hvalid).2.1 c hc with halnum | rfl
  · simp [idChar, halnum]
  · decide

theorem head_valid : ∃ c w, name = c :: w ∧ (keywordChar c = true ∨ c.isDigit = true) := by
  obtain ⟨hne, hchars, -⟩ := validSavepointName_iff.mp hvalid
  obtain ⟨c, w, rfl⟩ := List.exists_cons_of_ne_nil hne
  refine ⟨c, w, rfl, ?_⟩
  rw [keywordChar_iff]
  rcases hchars c List.mem_cons_self with halnum | hunderscore
  · rw [Char.isAlphanum, Bool.or_eq_true] at halnum
    exact halnum.imp_left .inl
  · exact .inl (.inr hunderscore)

/-- All statements fit with their terminators. -/
theorem texts_fit : (savepointText name).length < 128 ∧ (releaseText name).length < 128 ∧
    (rollbackText name).length < 160 := by
  have hlength := length_valid hvalid
  rw [length_rollbackText, length_savepointText, length_releaseText]
  omega

theorem sql_eq : savepointSql name = savepointText name ∧ releaseSql name = releaseText name ∧
    rollbackSql name = rollbackText name := by
  obtain ⟨hsavepoint, hrelease, hrollback⟩ := texts_fit hvalid
  rw [savepointSql, releaseSql, rollbackSql, snprintf_eq hsavepoint, snprintf_eq hrelease,
    snprintf_eq hrollback]
  exact ⟨rfl, rfl, rfl⟩

theorem not_sameName {scope : List Char} (hscope : scope.take reserved.length = reserved) :
    ¬SameName name scope := by
  intro hsame
  refine (validSavepointName_iff.mp hvalid).2.2.2 ?_
  have hlower : reserved.map Char.toLower = reserved := by decide
  rw [List.map_take, hsame, ← List.map_take, hscope, hlower]

/-- A name that is no number is one token, whatever follows the semicolon. -/
theorem tokens_name (hdigit : name.head?.any Char.isDigit = false) (rest : List Char) :
    tokens (name ++ ';' :: rest) =
      ⟨keywordCode name, name⟩ :: ⟨.semi, [';']⟩ :: tokens rest := by
  have hchars := idChar_valid hvalid
  obtain ⟨c, w, rfl, hc⟩ := head_valid hvalid
  have hc : keywordChar c = true := by
    refine hc.resolve_right fun h => ?_
    rw [List.head?_cons, Option.any_some, h] at hdigit
    cases hdigit
  have hends : Ends (';' :: rest) := fun b hb => by
    rw [← Option.some.inj hb]
    decide
  rw [List.cons_append, tokens_word hc (List.forall_mem_cons.mp hchars).2 hends, tokens_semi]

theorem tokens_number (hdigit : name.head?.any Char.isDigit = true) (rest : List Char) :
    ∃ token after, tokens (name ++ rest) = token :: after ∧ numeric token.type = true := by
  obtain ⟨c, w, rfl, -⟩ := head_valid hvalid
  exact tokens_digit hdigit (w ++ rest)

theorem name_not_space (rest : List Char) :
    ∀ b, (name ++ rest).head? = some b → isSpace b = false := by
  have hchars := idChar_valid hvalid
  obtain ⟨c, w, rfl, -⟩ := head_valid hvalid
  rintro b ⟨⟩
  by_contra hspace
  rw [Bool.not_eq_false] at hspace
  have hmem : c ∈ [' ', '\t', '\n', Char.ofNat 12, '\r'] := List.contains_iff_mem.mp hspace
  have hid := hchars c List.mem_cons_self
  simp only [List.mem_cons, List.not_mem_nil, or_false] at hmem
  rcases hmem with rfl | rfl | rfl | rfl | rfl
  all_goals exact absurd hid (by decide)

end Valid

/-! ## The statements -/

theorem tokens_keyword {c : Char} {w rest : List Char} (hc : keywordChar c = true)
    (hw : w.all idChar = true) (hrest : ∀ b, rest.head? = some b → isSpace b = false) :
    tokens (c :: (w ++ ' ' :: rest)) = ⟨keywordCode (c :: w), c :: w⟩ :: tokens rest := by
  have hends : Ends (' ' :: rest) := fun b hb => by
    rw [← Option.some.inj hb]
    decide
  rw [tokens_word hc (List.all_eq_true.mp hw) hends, tokens_space hrest]

theorem tokens_savepointText {name : List Char} (hvalid : validSavepointName (some name) = true) :
    tokens (savepointText name) =
      ⟨.savepoint, "SAVEPOINT".toList⟩ :: tokens (name ++ [';']) := by
  have htext : "SAVEPOINT ".toList = 'S' :: ("AVEPOINT".toList ++ [' ']) := by decide
  have hword : 'S' :: "AVEPOINT".toList = "SAVEPOINT".toList := by decide
  have hcode : keywordCode "SAVEPOINT".toList = .savepoint := by decide
  unfold savepointText
  rw [htext, List.cons_append, List.append_assoc, List.singleton_append,
    tokens_keyword (by decide) (by decide) (name_not_space hvalid [';']), hword, hcode]

theorem tokens_releaseText {name : List Char} (hvalid : validSavepointName (some name) = true) :
    tokens (releaseText name) = ⟨.release, "RELEASE".toList⟩ :: tokens (name ++ [';']) := by
  have htext : "RELEASE ".toList = 'R' :: ("ELEASE".toList ++ [' ']) := by decide
  have hword : 'R' :: "ELEASE".toList = "RELEASE".toList := by decide
  have hcode : keywordCode "RELEASE".toList = .release := by decide
  unfold releaseText
  rw [htext, List.cons_append, List.append_assoc, List.singleton_append,
    tokens_keyword (by decide) (by decide) (name_not_space hvalid [';']), hword, hcode]

theorem tokens_rollbackText {name : List Char} (hvalid : validSavepointName (some name) = true) :
    tokens (rollbackText name) = ⟨.rollback, "ROLLBACK".toList⟩ :: ⟨.to, "TO".toList⟩ ::
      tokens (name ++ ';' :: ' ' :: releaseText name) := by
  have htext : "ROLLBACK TO ".toList =
      'R' :: ("OLLBACK".toList ++ ' ' :: 'T' :: ("O".toList ++ [' '])) := by decide
  have hrollback : 'R' :: "OLLBACK".toList = "ROLLBACK".toList := by decide
  have hto : 'T' :: "O".toList = "TO".toList := by decide
  have hcode : keywordCode "ROLLBACK".toList = .rollback ∧ keywordCode "TO".toList = .to := by
    decide
  unfold rollbackText
  rw [htext, List.cons_append, List.append_assoc, List.cons_append, List.cons_append,
    List.append_assoc, List.singleton_append, tokens_keyword (by decide) (by decide),
    tokens_keyword (by decide) (by decide) (name_not_space hvalid _), hrollback, hto, hcode.1,
    hcode.2]
  rintro b ⟨⟩
  decide

section Parsed

variable {name : List Char} (hvalid : validSavepointName (some name) = true)
include hvalid

/-- The tokens behind the keyword of a statement, as the parser gets them. -/
theorem contextual_name (hdigit : name.head?.any Char.isDigit = false) (rest : List Char) :
    contextual (tokens (name ++ ';' :: rest)) =
      ⟨resolved (keywordCode name), name⟩ :: ⟨.semi, [';']⟩ :: contextual (tokens rest) := by
  rw [tokens_name hvalid hdigit, contextual_semi]

theorem contextual_number (hdigit : name.head?.any Char.isDigit = true) (rest : List Char) :
    ∃ type text after, contextual (tokens (name ++ rest)) = ⟨type, text⟩ :: after ∧
      numeric type = true := by
  obtain ⟨⟨type, text⟩, after, htokens, hnumeric⟩ := tokens_number hvalid hdigit rest
  obtain ⟨hsame, hwindow⟩ := resolved_numeric hnumeric
  exact ⟨type, text, contextual after, by rw [htokens, contextual_cons hsame hwindow], hnumeric⟩

theorem parse_savepointText : parse (savepointText name) = some [.savepoint name] ↔
    name.head?.any Char.isDigit = false ∧ named (resolved (keywordCode name)) = true := by
  rw [parse, tokens_savepointText hvalid, contextual_cons rfl (by decide)]
  cases hdigit : name.head?.any Char.isDigit with
  | true =>
      obtain ⟨type, text, after, htokens, hnumeric⟩ := contextual_number hvalid hdigit [';']
      rw [htokens, statements_none (List.cons_ne_nil _ _) (ecmd_numeric hnumeric _ [] _ _).1]
      simp
  | false =>
      have hecmd := ecmd_savepoint "SAVEPOINT".toList name [';'] (resolved (keywordCode name)) []
      rw [contextual_name hvalid hdigit [], tokens, contextual]
      by_cases hnamed : named (resolved (keywordCode name)) = true
      · rw [if_pos hnamed] at hecmd
        rw [statements_some hecmd, statements_nil]
        simp [hnamed]
      · rw [if_neg hnamed] at hecmd
        rw [statements_none (List.cons_ne_nil _ _) hecmd]
        simp [hnamed]

theorem parse_releaseText : parse (releaseText name) = some [.release name] ↔
    name.head?.any Char.isDigit = false ∧ named (resolved (keywordCode name)) = true ∧
      resolved (keywordCode name) ≠ .savepoint := by
  rw [parse, tokens_releaseText hvalid, contextual_cons rfl (by decide)]
  cases hdigit : name.head?.any Char.isDigit with
  | true =>
      obtain ⟨type, text, after, htokens, hnumeric⟩ := contextual_number hvalid hdigit [';']
      rw [htokens, statements_none (List.cons_ne_nil _ _) (ecmd_numeric hnumeric _ [] _ _).2.1]
      simp
  | false =>
      have hecmd := ecmd_release "RELEASE".toList name [';'] (resolved (keywordCode name)) []
      rw [contextual_name hvalid hdigit [], tokens, contextual]
      by_cases hnamed : named (resolved (keywordCode name)) = true ∧
          resolved (keywordCode name) ≠ .savepoint
      · rw [if_pos hnamed] at hecmd
        rw [statements_some hecmd, statements_nil]
        exact ⟨fun _ => ⟨rfl, hnamed⟩, fun _ => rfl⟩
      · rw [if_neg hnamed] at hecmd
        rw [statements_none (List.cons_ne_nil _ _) hecmd]
        exact ⟨(fun h => by cases h), fun h => absurd h.2 hnamed⟩

theorem parse_rollbackText : parse (rollbackText name) = some [.rollbackTo name, .release name] ↔
    name.head?.any Char.isDigit = false ∧ named (resolved (keywordCode name)) = true ∧
      resolved (keywordCode name) ≠ .savepoint := by
  have hspace : ∀ b, (releaseText name).head? = some b → isSpace b = false := by
    rintro b ⟨⟩
    decide
  rw [parse, tokens_rollbackText hvalid, contextual_cons rfl (by decide),
    contextual_cons rfl (by decide)]
  cases hdigit : name.head?.any Char.isDigit with
  | true =>
      obtain ⟨type, text, after, htokens, hnumeric⟩ :=
        contextual_number hvalid hdigit (';' :: ' ' :: releaseText name)
      rw [htokens, statements_none (List.cons_ne_nil _ _) (ecmd_numeric hnumeric _ _ _ _).2.2]
      simp
  | false =>
      have hecmd := ecmd_rollbackTo "ROLLBACK".toList "TO".toList name [';']
        (resolved (keywordCode name)) (contextual (tokens (' ' :: releaseText name)))
      rw [contextual_name hvalid hdigit]
      by_cases hnamed : named (resolved (keywordCode name)) = true ∧
          resolved (keywordCode name) ≠ .savepoint
      · have hrelease := (parse_releaseText hvalid).mpr ⟨hdigit, hnamed⟩
        rw [if_pos hnamed] at hecmd
        rw [statements_some hecmd, tokens_space hspace, ← parse, hrelease]
        exact ⟨fun _ => ⟨rfl, hnamed⟩, fun _ => rfl⟩
      · rw [if_neg hnamed] at hecmd
        rw [statements_none (List.cons_ne_nil _ _) hecmd]
        exact ⟨nofun, fun h => absurd h.2 hnamed⟩

end Parsed

/-! ## Names that make statements -/

theorem refused_table : (∀ word ∈ refusedWords, ∀ k ∈ keywords, k.2.contains word = true →
      named (resolved k.1) = false ∨ resolved k.1 = .savepoint) ∧
    (∀ word ∈ refusedWords, keywords.any (fun k => k.2.contains word) = true) ∧
    ∀ k ∈ keywords, ∀ word ∈ k.2, word ∉ refusedWords →
      named (resolved k.1) = true ∧ resolved k.1 ≠ .savepoint := by
  decide +kernel

/-- The rules take the words for names, save for the keywords in the list. -/
theorem named_iff (name : List Char) :
    (named (resolved (keywordCode name)) = true ∧ resolved (keywordCode name) ≠ .savepoint) ↔
      String.ofList (name.map Char.toUpper) ∉ refusedWords := by
  obtain ⟨hrefused, hknown, htaken⟩ := refused_table
  unfold keywordCode
  generalize String.ofList (name.map Char.toUpper) = word
  cases hfind : keywords.find? fun k => k.2.contains word with
  | none =>
      have hword : word ∉ refusedWords := by
        intro hword
        obtain ⟨k, hk, hcontains⟩ := List.any_eq_true.mp (hknown word hword)
        exact List.find?_eq_none.mp hfind k hk hcontains
      exact ⟨fun _ => hword, fun _ => ⟨by decide, by decide⟩⟩
  | some k =>
      have hk := List.mem_of_find?_eq_some hfind
      have hcontains : k.2.contains word = true := by simpa using List.find?_some hfind
      constructor
      · rintro ⟨hnamed, hsavepoint⟩ hword
        rcases hrefused word hword k hk hcontains with hno | hno
        · exact Bool.false_ne_true (hno.symm.trans hnamed)
        · exact hsavepoint hno
      · exact htaken k hk word (List.contains_iff_mem.mp hcontains)

theorem parse_beginMutation {scope : List Char}
    (h : parse beginMutation = some [.savepoint scope]) :
    scope.take reserved.length = reserved := by
  have htext : beginMutation =
      'S' :: ("AVEPOINT".toList ++ ' ' :: '_' :: ("_esdb_mutation".toList ++ [';'])) := by decide
  have hcode : keywordCode ('S' :: "AVEPOINT".toList) = .savepoint := by decide
  have hends : Ends [';'] := fun b hb => by
    rw [← Option.some.inj hb]
    decide
  have htokens : tokens beginMutation = [⟨.savepoint, 'S' :: "AVEPOINT".toList⟩,
      ⟨keywordCode ('_' :: "_esdb_mutation".toList), '_' :: "_esdb_mutation".toList⟩,
      ⟨.semi, [';']⟩] := by
    rw [htext, tokens_keyword (by decide) (by decide) (by rintro b ⟨⟩; decide), hcode,
      tokens_word (by decide) (List.all_eq_true.mp (by decide)) hends, tokens_semi, tokens]
  have hid : keywordCode ('_' :: "_esdb_mutation".toList) = .id := by decide
  have hecmd := ecmd_savepoint ('S' :: "AVEPOINT".toList) ('_' :: "_esdb_mutation".toList) [';']
    .id []
  have hstatements := statements_some hecmd
  rw [parse, htokens, hid, contextual_cons rfl (by decide), contextual_semi, contextual] at h
  rw [statements_nil] at hstatements
  have hscope := Option.some.inj (hstatements.symm.trans h)
  rw [← Cmd.savepoint.inj (List.cons.inj hscope).1]
  decide

/-- The statements of a name that passes the check fit into their buffers and the name is not that
of the savepoint of a mutation. They are the statements of a savepoint of that name exactly where
the name begins with no digit and is none of the keywords that are no names. -/
theorem savepoint_names_iff (name : List Char)
    (hvalid : validSavepointName (some name) = true) :
    (savepointSql name = savepointText name ∧ releaseSql name = releaseText name ∧
        rollbackSql name = rollbackText name ∧
      parse (savepointSql name) = some [.savepoint name] ∧
      parse (releaseSql name) = some [.release name] ∧
      parse (rollbackSql name) = some [.rollbackTo name, .release name] ∧
      ∀ scope, parse beginMutation = some [.savepoint scope] → ¬SameName name scope) ↔
      Executable name := by
  obtain ⟨hsavepoint, hrelease, hrollback⟩ := sql_eq hvalid
  rw [hsavepoint, hrelease, hrollback, parse_savepointText hvalid, parse_releaseText hvalid,
    parse_rollbackText hvalid, named_iff]
  constructor
  · rintro ⟨-, -, -, -, ⟨hdigit, hword⟩, -⟩
    exact ⟨hdigit, hword⟩
  · rintro ⟨hdigit, hword⟩
    exact ⟨rfl, rfl, rfl, ⟨hdigit, ((named_iff name).mpr hword).1⟩, ⟨hdigit, hword⟩,
      ⟨hdigit, hword⟩, fun scope hscope => not_sameName hvalid (parse_beginMutation hscope)⟩

theorem savepoint_names_sp1 :
    parse (savepointSql ['s', 'p', '1']) = some [.savepoint ['s', 'p', '1']] ∧
    parse (rollbackSql ['s', 'p', '1']) =
      some [.rollbackTo ['s', 'p', '1'], .release ['s', 'p', '1']] := by
  have hsp1 := (savepoint_names_iff ['s', 'p', '1'] (by decide)).mpr
    ⟨by decide, by decide +kernel⟩
  exact ⟨hsp1.2.2.2.1, hsp1.2.2.2.2.2.1⟩

/-- A number and a keyword make no statement, and a savepoint named `savepoint` can be opened but
not released. -/
theorem savepoint_names_refused :
    (∀ name ∈ [['1', 's', 't'], "order".toList], validSavepointName (some name) = true ∧
      parse (savepointSql name) ≠ some [.savepoint name]) ∧
    validSavepointName (some "savepoint".toList) = true ∧
      parse (savepointSql "savepoint".toList) = some [.savepoint "savepoint".toList] ∧
        parse (releaseSql "savepoint".toList) ≠ some [.release "savepoint".toList] := by
  have hfirst : validSavepointName (some ['1', 's', 't']) = true := by decide
  have horder : validSavepointName (some "order".toList) = true := by decide
  have hsavepoint : validSavepointName (some "savepoint".toList) = true := by decide
  refine ⟨?_, hsavepoint, ?_, ?_⟩
  · intro name hname
    rcases List.mem_pair.mp hname with rfl | rfl
    · rw [(sql_eq hfirst).1, Ne, parse_savepointText hfirst]
      exact ⟨hfirst, by decide⟩
    · rw [(sql_eq horder).1, Ne, parse_savepointText horder]
      exact ⟨horder, by decide +kernel⟩
  · rw [(sql_eq hsavepoint).1, parse_savepointText hsavepoint]
    decide
  · rw [(sql_eq hsavepoint).2.1, Ne, parse_releaseText hsavepoint]
    decide

end Esdb.SavepointNames
