import Mathlib.Data.List.Perm.Basic
import Mathlib.Data.List.Sort

/-!
# JSON texts

Texts are lists of UTF-16 units, so that unpaired surrogates are texts too. The reader
is `JSON.parse`: the grammar of JSON, a repeated key keeping its last value. The writer
puts no spaces and escapes only what has to be; what it writes is read back as it was.

Numbers are a parameter, with the function that gives the number of a numeral.
-/
namespace JsonText

abbrev Text := List UInt16

instance lawfulBEq_text : LawfulBEq Text := inferInstance

def unit (c : Char) : UInt16 := UInt16.ofNat c.toNat

def ascii (cs : List Char) : Text := cs.map unit

/-! ## Characters -/

def Lead (u : UInt16) : Prop := 0xD800 ≤ u.toNat ∧ u.toNat ≤ 0xDBFF

def Trail (u : UInt16) : Prop := 0xDC00 ≤ u.toNat ∧ u.toNat ≤ 0xDFFF

instance (u : UInt16) : Decidable (Lead u) := inferInstanceAs (Decidable (_ ∧ _))
instance (u : UInt16) : Decidable (Trail u) := inferInstanceAs (Decidable (_ ∧ _))

/-- The code of the character that starts with `u` and goes on with `s`. -/
def codePointAt (u : UInt16) : Text → ℕ
  | [] => u.toNat
  | v :: _ =>
      if Lead u ∧ Trail v then (u.toNat - 0xD800) * 0x400 + (v.toNat - 0xDC00) + 0x10000
      else u.toNat

/-- What a text is as characters: pairs of surrogates are one, others stand alone. -/
def codePoints : Text → List ℕ
  | [] => []
  | [u] => [u.toNat]
  | u :: v :: s =>
      codePointAt u (v :: s) ::
        if Lead u ∧ Trail v then codePoints s else codePoints (v :: s)

def units (code : ℕ) : Text :=
  if code ≤ 0xFFFF then [UInt16.ofNat code]
  else [UInt16.ofNat ((code - 0x10000) / 0x400 + 0xD800),
    UInt16.ofNat ((code - 0x10000) % 0x400 + 0xDC00)]

theorem units_toNat (u : UInt16) : units u.toNat = [u] := by
  have hu := u.toNat_lt
  rw [units, if_pos (by omega), UInt16.ofNat_toNat]

theorem ofNat_eq {n : ℕ} {u : UInt16} (h : n = u.toNat) : UInt16.ofNat n = u := by
  rw [h, UInt16.ofNat_toNat]

theorem units_pair {u v : UInt16} (hu : Lead u) (hv : Trail v) :
    units ((u.toNat - 0xD800) * 0x400 + (v.toNat - 0xDC00) + 0x10000) = [u, v] := by
  obtain ⟨hu₁, hu₂⟩ := hu
  obtain ⟨hv₁, hv₂⟩ := hv
  rw [units, if_neg (by omega), ofNat_eq (u := u) (by omega), ofNat_eq (u := v) (by omega)]

/-- The units of the characters of a text are the text. -/
theorem flatMap_codePoints (s : Text) : (codePoints s).flatMap units = s := by
  induction s using codePoints.induct with
  | case1 => rfl
  | case2 u => rw [codePoints, List.flatMap_cons, units_toNat, List.flatMap_nil, List.append_nil]
  | case3 u v s ihrest ihtail =>
      rw [codePoints, codePointAt, List.flatMap_cons]
      by_cases hpair : Lead u ∧ Trail v
      · rw [if_pos hpair, if_pos hpair, ihrest, units_pair hpair.1 hpair.2]
        rfl
      · rw [if_neg hpair, if_neg hpair, ihtail, units_toNat]
        rfl

theorem codePoints_injective : Function.Injective codePoints := by
  intro s t h
  rw [← flatMap_codePoints s, ← flatMap_codePoints t, h]

/-! ## Values -/

inductive Json (N : Type)
  | null
  | bool (b : Bool)
  | num (n : N)
  | str (s : Text)
  | arr (elements : List (Json N))
  | obj (members : List (Text × Json N))

variable {N : Type}

@[elab_as_elim]
theorem Json.induction {P : Json N → Prop} (null : P .null) (bool : ∀ b, P (.bool b))
    (num : ∀ n, P (.num n)) (str : ∀ s, P (.str s))
    (arr : ∀ xs, (∀ x ∈ xs, P x) → P (.arr xs))
    (obj : ∀ ms, (∀ p ∈ ms, P p.2) → P (.obj ms)) (v : Json N) : P v := by
  refine Json.rec (motive_1 := P) (motive_2 := fun xs => ∀ x ∈ xs, P x)
    (motive_3 := fun ms => ∀ p ∈ ms, P p.2) (motive_4 := fun p => P p.2)
    null bool num str arr obj ?_ ?_ ?_ ?_ ?_ v
  · exact fun x hx => absurd hx List.not_mem_nil
  · exact fun x xs hx hxs => List.forall_mem_cons.mpr ⟨hx, hxs⟩
  · exact fun p hp => absurd hp List.not_mem_nil
  · exact fun p ms hp hms => List.forall_mem_cons.mpr ⟨hp, hms⟩
  · exact fun k v hv => hv

/-- No object has two members of one key. -/
inductive Distinct : Json N → Prop
  | null : Distinct .null
  | bool {b : Bool} : Distinct (.bool b)
  | num {n : N} : Distinct (.num n)
  | str {s : Text} : Distinct (.str s)
  | arr {xs : List (Json N)} (elements : ∀ x ∈ xs, Distinct x) : Distinct (.arr xs)
  | obj {ms : List (Text × Json N)} (keys : (ms.map Prod.fst).Nodup)
      (members : ∀ p ∈ ms, Distinct p.2) : Distinct (.obj ms)

/-- The values of scripts. -/
structure Value (N : Type) where
  json : Json N
  distinct : Distinct json

/-- Equality up to the order of keys, at every depth. -/
inductive Same : Json N → Json N → Prop
  | null : Same .null .null
  | bool {b : Bool} : Same (.bool b) (.bool b)
  | num {n : N} : Same (.num n) (.num n)
  | str {s : Text} : Same (.str s) (.str s)
  | arr {xs ys : List (Json N)} (elements : List.Forall₂ Same xs ys) : Same (.arr xs) (.arr ys)
  | obj {ms ns ps : List (Text × Json N)} (order : ms.Perm ps)
      (keys : ps.map Prod.fst = ns.map Prod.fst)
      (values : List.Forall₂ Same (ps.map Prod.snd) (ns.map Prod.snd)) :
      Same (.obj ms) (.obj ns)

/-- Two objects are the same when some order of the first has the members of the second. -/
theorem same_obj_iff {ms ns : List (Text × Json N)} : Same (.obj ms) (.obj ns) ↔
    ∃ moved, ms.Perm moved ∧ List.Forall₂ (fun p q => p.1 = q.1 ∧ Same p.2 q.2) moved ns := by
  constructor
  · intro h
    cases h with
    | @obj _ _ ps order keys values =>
        refine ⟨ps, order, ?_⟩
        clear order
        induction ps generalizing ns with
        | nil =>
            rw [List.map_nil] at keys
            rw [List.map_eq_nil_iff.mp keys.symm]
            exact .nil
        | cons p ps ih =>
            cases ns with
            | nil => cases keys
            | cons q ns =>
                obtain ⟨hkey, hkeys⟩ := List.cons.inj keys
                cases values with
                | cons hvalue hvalues => exact .cons ⟨hkey, hvalue⟩ (ih hkeys hvalues)
  · rintro ⟨moved, order, hpairs⟩
    refine .obj order ?_ ?_
    · clear order
      induction hpairs with
      | nil => rfl
      | cons hpq _ ih => rw [List.map_cons, List.map_cons, hpq.1, ih]
    · clear order
      induction hpairs with
      | nil => exact .nil
      | cons hpq _ ih => exact .cons hpq.2 ih

/-! ## The reader -/

def isSpace (u : UInt16) : Bool := u = 0x09 || u = 0x0A || u = 0x0D || u = 0x20

def skipSpace : Text → Text
  | [] => []
  | u :: s => if isSpace u then skipSpace s else u :: s

/-- What follows `cs`. -/
def expect : Text → Text → Option Text
  | [], s => some s
  | _ :: _, [] => none
  | c :: cs, u :: s => if u = c then expect cs s else none

def hexValue (u : UInt16) : Option ℕ :=
  if unit '0' ≤ u ∧ u ≤ unit '9' then some (u.toNat - 48)
  else if unit 'A' ≤ u ∧ u ≤ unit 'F' then some (u.toNat - 55)
  else if unit 'a' ≤ u ∧ u ≤ unit 'f' then some (u.toNat - 87)
  else none

def hexUnit (a b c d : UInt16) : Option UInt16 :=
  match hexValue a, hexValue b, hexValue c, hexValue d with
  | some a, some b, some c, some d => some (UInt16.ofNat (((a * 16 + b) * 16 + c) * 16 + d))
  | _, _, _, _ => none

def readHex : Text → Option (UInt16 × Text)
  | a :: b :: c :: d :: s => (hexUnit a b c d).map fun v => (v, s)
  | _ => none

/-- The unit of an escape, after its backslash. -/
def readEscape (u : UInt16) (s : Text) : Option (UInt16 × Text) :=
  if u = unit '"' ∨ u = unit '\\' ∨ u = unit '/' then some (u, s)
  else if u = unit 'b' then some (0x08, s)
  else if u = unit 'f' then some (0x0C, s)
  else if u = unit 'n' then some (0x0A, s)
  else if u = unit 'r' then some (0x0D, s)
  else if u = unit 't' then some (0x09, s)
  else if u = unit 'u' then readHex s
  else none

/-- A string to its closing quote. Every round takes a unit, so that the length of the
text is fuel enough, here and below. -/
def readChars : ℕ → Text → Option (Text × Text)
  | 0, _ => none
  | _ + 1, [] => none
  | n + 1, u :: s =>
      if u = unit '"' then some ([], s)
      else if u = unit '\\' then
        match s with
        | [] => none
        | e :: s =>
            match readEscape e s with
            | none => none
            | some (v, s) => (readChars n s).map fun p => (v :: p.1, p.2)
      else if u.toNat < 0x20 then none
      else (readChars n s).map fun p => (u :: p.1, p.2)

def readString (s : Text) : Option (Text × Text) := readChars s.length s

def isDigit (u : UInt16) : Bool := unit '0' ≤ u && u ≤ unit '9'

/-- Digits, at least one. -/
def readDigits (s : Text) : Option (Text × Text) :=
  if s.takeWhile isDigit = [] then none else some (s.takeWhile isDigit, s.dropWhile isDigit)

def readInteger : Text → Option (Text × Text)
  | [] => none
  | u :: s => if u = unit '0' then some ([u], s) else readDigits (u :: s)

def readFraction : Text → Option (Text × Text)
  | [] => some ([], [])
  | u :: s =>
      if u = unit '.' then (readDigits s).map fun p => (u :: p.1, p.2) else some ([], u :: s)

def readExponent : Text → Option (Text × Text)
  | [] => some ([], [])
  | u :: s =>
      if u = unit 'e' ∨ u = unit 'E' then
        match s with
        | [] => none
        | v :: t =>
            if v = unit '+' ∨ v = unit '-' then
              (readDigits t).map fun p => (u :: v :: p.1, p.2)
            else (readDigits s).map fun p => (u :: p.1, p.2)
      else some ([], u :: s)

/-- A numeral. -/
def readNumber (s : Text) : Option (Text × Text) := do
  let sign := if s.head? = some (unit '-') then [unit '-'] else []
  let (int, s) ← readInteger (s.drop sign.length)
  let (frac, s) ← readFraction s
  let (exp, s) ← readExponent s
  some (sign ++ int ++ frac ++ exp, s)

/-- The member `p` put into an object: in the place of the one with its key. -/
def setMember (ms : List (Text × Json N)) (p : Text × Json N) : List (Text × Json N) :=
  if p.1 ∈ ms.map Prod.fst then ms.map fun q => if q.1 = p.1 then p else q else ms ++ [p]

mutual

def readValue (number : Text → N) : ℕ → Text → Option (Json N × Text)
  | 0, _ => none
  | n + 1, s =>
      match skipSpace s with
      | [] => none
      | u :: s =>
          if u = unit '"' then (readString s).map fun p => (.str p.1, p.2)
          else if u = unit '[' then
            match skipSpace s with
            | [] => none
            | v :: t =>
                if v = unit ']' then some (.arr [], t)
                else (readElements number n s).map fun p => (.arr p.1, p.2)
          else if u = unit '\x7b' then
            match skipSpace s with
            | [] => none
            | v :: t =>
                if v = unit '\x7d' then some (.obj [], t)
                else (readMembers number n s).map fun p => (.obj (p.1.foldl setMember []), p.2)
          else if u = unit 'n' then (expect (ascii ['u', 'l', 'l']) s).map fun t => (.null, t)
          else if u = unit 't' then
            (expect (ascii ['r', 'u', 'e']) s).map fun t => (.bool true, t)
          else if u = unit 'f' then
            (expect (ascii ['a', 'l', 's', 'e']) s).map fun t => (.bool false, t)
          else (readNumber (u :: s)).map fun p => (.num (number p.1), p.2)

/-- Elements and the bracket that closes them. -/
def readElements (number : Text → N) : ℕ → Text → Option (List (Json N) × Text)
  | 0, _ => none
  | n + 1, s =>
      match readValue number n s with
      | none => none
      | some (v, s) =>
          match skipSpace s with
          | [] => none
          | u :: s =>
              if u = unit ',' then (readElements number n s).map fun p => (v :: p.1, p.2)
              else if u = unit ']' then some ([v], s)
              else none

/-- Members, also repeated ones, and the brace that closes them. -/
def readMembers (number : Text → N) : ℕ → Text → Option (List (Text × Json N) × Text)
  | 0, _ => none
  | n + 1, s =>
      match expect [unit '"'] (skipSpace s) with
      | none => none
      | some s =>
          match readString s with
          | none => none
          | some (k, s) =>
              match expect [unit ':'] (skipSpace s) with
              | none => none
              | some s =>
                  match readValue number n s with
                  | none => none
                  | some (v, s) =>
                      match skipSpace s with
                      | [] => none
                      | u :: s =>
                          if u = unit ',' then
                            (readMembers number n s).map fun p => ((k, v) :: p.1, p.2)
                          else if u = unit '\x7d' then some ([(k, v)], s)
                          else none

end

/-- `JSON.parse`, none where it throws. -/
def parse (number : Text → N) (s : Text) : Option (Json N) :=
  match readValue number s.length s with
  | none => none
  | some (v, rest) => if skipSpace rest = [] then some v else none

/-! ## The writer -/

def escapeUnit (u : UInt16) : Text :=
  if u = unit '"' then ascii ['\\', '"']
  else if u = unit '\\' then ascii ['\\', '\\']
  else if u = 0x08 then ascii ['\\', 'b']
  else if u = 0x09 then ascii ['\\', 't']
  else if u = 0x0A then ascii ['\\', 'n']
  else if u = 0x0C then ascii ['\\', 'f']
  else if u = 0x0D then ascii ['\\', 'r']
  else if u.toNat < 0x20 then
    ascii ('\\' :: 'u' :: (Nat.toDigits 16 u.toNat).leftpad 4 '0')
  else [u]

def quoted (s : Text) : Text := unit '"' :: (s.flatMap escapeUnit ++ [unit '"'])

/-- `join(",")`. -/
def joined : List Text → Text
  | [] => []
  | [t] => t
  | t :: ts => t ++ unit ',' :: joined ts

mutual

/-- The text of a value without numbers, its members in the order they have. -/
def text : Json N → Option Text
  | .null => some (ascii ['n', 'u', 'l', 'l'])
  | .bool true => some (ascii ['t', 'r', 'u', 'e'])
  | .bool false => some (ascii ['f', 'a', 'l', 's', 'e'])
  | .num _ => none
  | .str s => some (quoted s)
  | .arr xs => (elementTexts xs).map fun ts => unit '[' :: (joined ts ++ [unit ']'])
  | .obj ms => (memberTexts ms).map fun ts => unit '\x7b' :: (joined ts ++ [unit '\x7d'])

def elementTexts : List (Json N) → Option (List Text)
  | [] => some []
  | v :: vs => (text v).bind fun t => (elementTexts vs).map fun ts => t :: ts

def memberTexts : List (Text × Json N) → Option (List Text)
  | [] => some []
  | (k, v) :: ms =>
      (text v).bind fun t =>
        (memberTexts ms).map fun ts => (quoted k ++ unit ':' :: t) :: ts

end


/-! ## What is written is read back -/

theorem expect_append (cs s : Text) : expect cs (cs ++ s) = some s := by
  induction cs with
  | nil => rfl
  | cons c cs ih => rw [List.cons_append, expect, if_pos rfl, ih]

theorem skipSpace_cons {u : UInt16} (h : isSpace u = false) (s : Text) :
    skipSpace (u :: s) = u :: s := by
  rw [skipSpace, h]
  rfl

theorem readHex_append {s t : Text} {v : UInt16} (h : readHex s = some (v, t)) (rest : Text) :
    readHex (s ++ rest) = some (v, t ++ rest) := by
  match s, h with
  | a :: b :: c :: d :: s, h =>
      obtain ⟨w, hw, he⟩ := Option.map_eq_some_iff.mp h
      obtain ⟨rfl, rfl⟩ := Prod.mk.inj he
      exact Option.map_eq_some_iff.mpr ⟨w, hw, rfl⟩

theorem readHex_leftpad : ∀ k : Fin 32,
    readHex (ascii ((Nat.toDigits 16 k.val).leftpad 4 '0')) = some (UInt16.ofNat k.val, []) := by
  decide

theorem readEscape_control {u : UInt16} (h : u.toNat < 0x20) (s : Text) :
    readEscape (unit 'u') (ascii ((Nat.toDigits 16 u.toNat).leftpad 4 '0') ++ s) = some (u, s) := by
  have hhex := readHex_append (readHex_leftpad ⟨u.toNat, h⟩) s
  rw [UInt16.ofNat_toNat] at hhex
  exact hhex

theorem readChars_backslash (n : ℕ) (e : UInt16) (s : Text) :
    readChars (n + 1) (unit '\\' :: e :: s) =
      (readEscape e s).bind fun q => (readChars n q.2).map fun p => (q.1 :: p.1, p.2) := by
  rw [readChars, if_neg (by decide), if_pos rfl]
  cases readEscape e s <;> rfl

theorem readChars_raw (n : ℕ) {u : UInt16} (hquote : u ≠ unit '"') (hslash : u ≠ unit '\\')
    (hcontrol : ¬u.toNat < 0x20) (s : Text) :
    readChars (n + 1) (u :: s) = (readChars n s).map fun p => (u :: p.1, p.2) := by
  rw [readChars.eq_def]
  exact (if_neg hquote).trans ((if_neg hslash).trans (if_neg hcontrol))

theorem readChars_escapeUnit (n : ℕ) (u : UInt16) (s : Text) :
    readChars (n + 1) (escapeUnit u ++ s) = (readChars n s).map fun p => (u :: p.1, p.2) := by
  unfold escapeUnit
  split_ifs with hquote hslash hb ht hn hf hr hcontrol
  · subst hquote
    exact readChars_backslash n _ s
  · subst hslash
    exact readChars_backslash n _ s
  · subst hb
    exact readChars_backslash n _ s
  · subst ht
    exact readChars_backslash n _ s
  · subst hn
    exact readChars_backslash n _ s
  · subst hf
    exact readChars_backslash n _ s
  · subst hr
    exact readChars_backslash n _ s
  · change readChars (n + 1) (unit '\\' :: unit 'u' :: (ascii _ ++ s)) = _
    rw [readChars_backslash, readEscape_control hcontrol]
    rfl
  · exact readChars_raw n hquote hslash hcontrol s

theorem readChars_quoted {n : ℕ} {s : Text} (h : s.length < n) (rest : Text) :
    readChars n (s.flatMap escapeUnit ++ unit '"' :: rest) = some (s, rest) := by
  induction s generalizing n with
  | nil =>
      obtain ⟨n, rfl⟩ := Nat.exists_eq_succ_of_ne_zero (Nat.ne_of_gt h)
      rfl
  | cons u s ih =>
      obtain ⟨n, rfl⟩ := Nat.exists_eq_succ_of_ne_zero (Nat.ne_of_gt (Nat.zero_lt_of_lt h))
      have hs : s.length < n := by
        rw [List.length_cons] at h
        omega
      rw [List.flatMap_cons, List.append_assoc, readChars_escapeUnit, ih hs]
      rfl

theorem length_escapeUnit (u : UInt16) : 1 ≤ (escapeUnit u).length := by
  unfold escapeUnit
  split_ifs <;> simp [ascii]

theorem length_le_flatMap (s : Text) : s.length ≤ (s.flatMap escapeUnit).length := by
  induction s with
  | nil => rfl
  | cons u s ih =>
      have hu := length_escapeUnit u
      rw [List.flatMap_cons, List.length_append, List.length_cons]
      omega

theorem readString_quoted (s rest : Text) :
    readString (s.flatMap escapeUnit ++ unit '"' :: rest) = some (s, rest) := by
  have hs := length_le_flatMap s
  refine readChars_quoted ?_ rest
  rw [List.length_append, List.length_cons]
  omega


/-- What a text of a value starts with. -/
def Opening (u : UInt16) : Prop :=
  isSpace u = false ∧ u ≠ unit ']' ∧ u ≠ unit '\x7d'

instance (u : UInt16) : Decidable (Opening u) := inferInstanceAs (Decidable (_ ∧ _))

theorem text_opening {v : Json N} {t : Text} (h : text v = some t) :
    ∃ u s, t = u :: s ∧ Opening u := by
  cases v with
  | null =>
      obtain rfl := Option.some.inj h
      exact ⟨_, _, rfl, by decide⟩
  | bool b =>
      cases b with
      | true =>
          obtain rfl := Option.some.inj h
          exact ⟨_, _, rfl, by decide⟩
      | false =>
          obtain rfl := Option.some.inj h
          exact ⟨_, _, rfl, by decide⟩
  | num n => cases h
  | str s =>
      obtain rfl := Option.some.inj h
      exact ⟨_, _, rfl, by decide⟩
  | arr xs =>
      obtain ⟨ts, -, rfl⟩ := Option.map_eq_some_iff.mp h
      exact ⟨_, _, rfl, by decide⟩
  | obj ms =>
      obtain ⟨ts, -, rfl⟩ := Option.map_eq_some_iff.mp h
      exact ⟨_, _, rfl, by decide⟩

/-- The text is read as the value, whatever follows it. -/
def Reads (number : Text → N) (v : Json N) (t : Text) : Prop :=
  ∀ ⦃n : ℕ⦄ (rest : Text), t.length ≤ n → readValue number n (t ++ rest) = some (v, rest)

variable {number : Text → N}

theorem reads_null : Reads number .null (ascii ['n', 'u', 'l', 'l']) := by
  intro n rest h
  obtain ⟨n, rfl⟩ := Nat.exists_eq_succ_of_ne_zero (n := n) (by rintro rfl; cases h)
  rfl

theorem reads_true : Reads number (.bool true) (ascii ['t', 'r', 'u', 'e']) := by
  intro n rest h
  obtain ⟨n, rfl⟩ := Nat.exists_eq_succ_of_ne_zero (n := n) (by rintro rfl; cases h)
  rfl

theorem reads_false : Reads number (.bool false) (ascii ['f', 'a', 'l', 's', 'e']) := by
  intro n rest h
  obtain ⟨n, rfl⟩ := Nat.exists_eq_succ_of_ne_zero (n := n) (by rintro rfl; cases h)
  rfl

theorem reads_str (s : Text) : Reads number (.str s) (quoted s) := by
  intro n rest h
  obtain ⟨n, rfl⟩ := Nat.exists_eq_succ_of_ne_zero (n := n) (by rintro rfl; cases h)
  have hs := readString_quoted s rest
  rw [quoted, List.cons_append, List.append_assoc, readValue, skipSpace_cons (by decide)]
  simp only [if_true]
  rw [List.singleton_append, hs]
  rfl

theorem joined_cons {t : Text} {ts : List Text} (h : ts ≠ []) :
    joined (t :: ts) = t ++ unit ',' :: joined ts := by
  cases ts with
  | nil => exact absurd rfl h
  | cons u us => rfl

theorem readElements_joined {xs : List (Json N)} {ts : List Text}
    (hts : List.Forall₂ (Reads number) xs ts) (hne : xs ≠ []) :
    ∀ ⦃n : ℕ⦄ (rest : Text), (joined ts).length < n →
      readElements number n (joined ts ++ unit ']' :: rest) = some (xs, rest) := by
  induction hts with
  | nil => exact absurd rfl hne
  | @cons x t xs ts hx hxs ih =>
      intro n rest h
      obtain ⟨n, rfl⟩ := Nat.exists_eq_succ_of_ne_zero (Nat.ne_of_gt (Nat.zero_lt_of_lt h))
      by_cases hlast : xs = []
      · subst hlast
        cases hxs
        rw [readElements, joined, hx _ (Nat.le_of_lt_succ h)]
        simp only [skipSpace_cons (show isSpace (unit ']') = false by decide)]
        rfl
      · have hts : ts ≠ [] := by
          rintro rfl
          cases hxs
          exact hlast rfl
        rw [joined_cons hts] at h ⊢
        rw [List.length_append, List.length_cons] at h
        rw [List.append_assoc, readElements, hx _ (by omega), List.cons_append]
        simp only [skipSpace_cons (show isSpace (unit ',') = false by decide), if_true]
        rw [ih hlast rest (by omega)]
        rfl

theorem length_joined_cons (t : Text) (ts : List Text) : t.length ≤ (joined (t :: ts)).length := by
  cases ts with
  | nil => exact le_refl _
  | cons u us =>
      rw [joined_cons (List.cons_ne_nil u us), List.length_append]
      omega

theorem joined_opening {t : Text} (ts : List Text) {u : UInt16} {s : Text} (h : t = u :: s) :
    ∃ r, joined (t :: ts) = u :: r := by
  subst h
  cases ts with
  | nil => exact ⟨s, rfl⟩
  | cons v vs => exact ⟨_, rfl⟩

theorem reads_arr {xs : List (Json N)} {ts : List Text}
    (hts : List.Forall₂ (fun x t => Reads number x t ∧ ∃ u s, t = u :: s ∧ Opening u) xs ts) :
    Reads number (.arr xs) (unit '[' :: (joined ts ++ [unit ']'])) := by
  intro n rest h
  obtain ⟨n, rfl⟩ := Nat.exists_eq_succ_of_ne_zero (n := n) (by rintro rfl; cases h)
  cases hts with
  | nil => rfl
  | @cons x t xs ts hx hxs =>
      obtain ⟨u, s, hut, hspace, hbracket, -⟩ := hx.2
      obtain ⟨r, hr⟩ := joined_opening ts hut
      have hall : List.Forall₂ (Reads number) (x :: xs) (t :: ts) :=
        .cons hx.1 (hxs.imp fun _ _ h => h.1)
      have hread := readElements_joined hall (List.cons_ne_nil x xs) (n := n) rest (by
        rw [List.length_cons, List.length_append, List.length_singleton] at h
        omega)
      rw [List.cons_append, List.append_assoc, List.singleton_append, readValue,
        skipSpace_cons (by decide)]
      simp only [show unit '[' ≠ unit '"' by decide, if_true, if_false]
      rw [hread, hr, List.cons_append, skipSpace_cons hspace]
      simp only [hbracket, if_false]
      rfl


theorem foldl_setMember {ms : List (Text × Json N)} (acc : List (Text × Json N))
    (h : ((acc ++ ms).map Prod.fst).Nodup) : ms.foldl setMember acc = acc ++ ms := by
  induction ms generalizing acc with
  | nil => rw [List.foldl_nil, List.append_nil]
  | cons p ms ih =>
      have hnew : p.1 ∉ acc.map Prod.fst := by
        intro hp
        rw [List.map_append, List.map_cons] at h
        exact (List.disjoint_of_nodup_append h) hp List.mem_cons_self
      rw [List.foldl_cons, setMember, if_neg hnew, ih _ (by simpa using h), List.append_assoc]
      rfl

theorem ofMembers_eq {ms : List (Text × Json N)} (h : (ms.map Prod.fst).Nodup) :
    ms.foldl setMember [] = ms :=
  foldl_setMember [] h

theorem readMember (p : Text × Json N) {t : Text} (ht : Reads number p.2 t) {n : ℕ}
    (h : t.length ≤ n) (rest : Text) :
    readMembers number (n + 1) (quoted p.1 ++ unit ':' :: t ++ rest) =
      match skipSpace rest with
      | [] => none
      | u :: s =>
          if u = unit ',' then (readMembers number n s).map fun q => (p :: q.1, q.2)
          else if u = unit '\x7d' then some ([p], s)
          else none := by
  have hstring := readString_quoted p.1 (unit ':' :: (t ++ rest))
  have hexpect := expect_append [unit '"'] (p.1.flatMap escapeUnit ++
    unit '"' :: unit ':' :: (t ++ rest))
  have hcolon := expect_append [unit ':'] (t ++ rest)
  rw [readMembers, quoted, List.append_assoc, List.cons_append, List.append_assoc,
    List.singleton_append, List.cons_append, skipSpace_cons (by decide)]
  rw [List.singleton_append] at hexpect hcolon
  rw [hexpect]
  simp only [hstring]
  rw [skipSpace_cons (by decide), hcolon]
  simp only [ht rest h]

theorem readMembers_joined {ms : List (Text × Json N)} {ts : List Text}
    (hts : List.Forall₂ (fun p t => ∃ s, t = quoted p.1 ++ unit ':' :: s ∧ Reads number p.2 s)
      ms ts) (hne : ms ≠ []) :
    ∀ ⦃n : ℕ⦄ (rest : Text), (joined ts).length < n →
      readMembers number n (joined ts ++ unit '\x7d' :: rest) = some (ms, rest) := by
  induction hts with
  | nil => exact absurd rfl hne
  | @cons p t ms ts hp hms ih =>
      intro n rest h
      obtain ⟨n, rfl⟩ := Nat.exists_eq_succ_of_ne_zero (Nat.ne_of_gt (Nat.zero_lt_of_lt h))
      obtain ⟨s, rfl, hs⟩ := hp
      have hlen := length_joined_cons (quoted p.1 ++ unit ':' :: s) ts
      have hshort : s.length ≤ n := by
        rw [List.length_append, List.length_cons] at hlen
        omega
      by_cases hlast : ms = []
      · subst hlast
        cases hms
        rw [joined, readMember p hs hshort]
        simp only [skipSpace_cons (show isSpace (unit '\x7d') = false by decide)]
        rfl
      · have hts : ts ≠ [] := by
          rintro rfl
          cases hms
          exact hlast rfl
        rw [joined_cons hts] at h ⊢
        rw [List.length_append, List.length_cons] at h
        rw [List.append_assoc, readMember p hs hshort, List.cons_append]
        simp only [skipSpace_cons (show isSpace (unit ',') = false by decide), if_true]
        rw [ih hlast rest (by omega)]
        rfl

theorem reads_obj {ms : List (Text × Json N)} {ts : List Text}
    (hts : List.Forall₂ (fun p t => ∃ s, t = quoted p.1 ++ unit ':' :: s ∧ Reads number p.2 s)
      ms ts) (hkeys : (ms.map Prod.fst).Nodup) :
    Reads number (.obj ms) (unit '\x7b' :: (joined ts ++ [unit '\x7d'])) := by
  intro n rest h
  obtain ⟨n, rfl⟩ := Nat.exists_eq_succ_of_ne_zero (n := n) (by rintro rfl; cases h)
  cases hts with
  | nil => rfl
  | @cons p t ms ts hp hms =>
      have hread := readMembers_joined (.cons hp hms) (List.cons_ne_nil p ms) (n := n) rest (by
        rw [List.length_cons, List.length_append, List.length_singleton] at h
        omega)
      obtain ⟨s, rfl, hs⟩ := hp
      obtain ⟨r, hr⟩ := joined_opening ts
        (show quoted p.1 ++ unit ':' :: s = unit '"' :: _ from List.cons_append ..)
      rw [List.cons_append, List.append_assoc, List.singleton_append, readValue,
        skipSpace_cons (by decide)]
      simp only [show unit '\x7b' ≠ unit '"' by decide, show unit '\x7b' ≠ unit '[' by decide,
        if_true, if_false]
      rw [hread, hr, List.cons_append, skipSpace_cons (by decide)]
      simp only [show unit '"' ≠ unit '\x7d' by decide, if_false]
      rw [Option.map_some, ofMembers_eq hkeys]

/-- What a value's text is, texts of its elements and members apart. -/
theorem elementTexts_eq {xs : List (Json N)} {ts : List Text} (h : elementTexts xs = some ts) :
    List.Forall₂ (fun x t => text x = some t) xs ts := by
  induction xs generalizing ts with
  | nil =>
      obtain rfl := Option.some.inj h
      exact .nil
  | cons x xs ih =>
      obtain ⟨t, ht, h⟩ := Option.bind_eq_some_iff.mp h
      obtain ⟨us, hus, rfl⟩ := Option.map_eq_some_iff.mp h
      exact .cons ht (ih hus)

theorem memberTexts_eq {ms : List (Text × Json N)} {ts : List Text}
    (h : memberTexts ms = some ts) :
    List.Forall₂ (fun p t => ∃ s, text p.2 = some s ∧ t = quoted p.1 ++ unit ':' :: s) ms ts := by
  induction ms generalizing ts with
  | nil =>
      obtain rfl := Option.some.inj h
      exact .nil
  | cons p ms ih =>
      obtain ⟨t, ht, h⟩ := Option.bind_eq_some_iff.mp h
      obtain ⟨us, hus, rfl⟩ := Option.map_eq_some_iff.mp h
      exact .cons ⟨t, ht, rfl⟩ (ih hus)

theorem forall₂_imp_left {α β : Type} {R S : α → β → Prop} {xs : List α} {ys : List β}
    (h : List.Forall₂ R xs ys) (himp : ∀ x ∈ xs, ∀ y, R x y → S x y) : List.Forall₂ S xs ys := by
  induction h with
  | nil => exact .nil
  | cons hxy _ ih =>
      exact .cons (himp _ List.mem_cons_self _ hxy)
        (ih fun x hx => himp x (List.mem_cons_of_mem _ hx))

theorem text_reads {v : Json N} (hv : Distinct v) {t : Text} (h : text v = some t) :
    Reads number v t := by
  induction v using Json.induction generalizing t with
  | null =>
      obtain rfl := Option.some.inj h
      exact reads_null
  | bool b =>
      cases b with
      | true =>
          obtain rfl := Option.some.inj h
          exact reads_true
      | false =>
          obtain rfl := Option.some.inj h
          exact reads_false
  | num n => cases h
  | str s =>
      obtain rfl := Option.some.inj h
      exact reads_str s
  | arr xs ih =>
      cases hv with
      | arr helements =>
          obtain ⟨ts, hts, rfl⟩ := Option.map_eq_some_iff.mp h
          exact reads_arr (forall₂_imp_left (elementTexts_eq hts) fun x hx t ht =>
            ⟨ih x hx (helements x hx) ht, text_opening ht⟩)
  | obj ms ih =>
      cases hv with
      | obj hkeys hmembers =>
          obtain ⟨ts, hts, rfl⟩ := Option.map_eq_some_iff.mp h
          refine reads_obj (forall₂_imp_left (memberTexts_eq hts) ?_) hkeys
          rintro p hp t ⟨s, hs, rfl⟩
          exact ⟨s, rfl, ih p hp (hmembers p hp) hs⟩

/-- What is written is read back. -/
theorem parse_text {v : Json N} (hv : Distinct v) {t : Text} (h : text v = some t) :
    parse number t = some v := by
  have hreads : Reads number v t := text_reads hv h
  have hread := hreads [] (le_refl t.length)
  rw [List.append_nil] at hread
  rw [parse, hread]
  rfl


/-! ## Keys in order -/

section Sorting

variable (r : Text → Text → Prop) [DecidableRel r]

/-- The order of members by their keys. -/
def KeyOrder (p q : Text × Json N) : Prop := r p.1 q.1

instance : DecidableRel (@KeyOrder N r) := fun p q => inferInstanceAs (Decidable (r p.1 q.1))

mutual

/-- The value with the keys of every object in order. -/
def sortKeys : Json N → Json N
  | .arr xs => .arr (sortElements xs)
  | .obj ms => .obj ((sortMembers ms).insertionSort (KeyOrder r))
  | v => v

def sortElements : List (Json N) → List (Json N)
  | [] => []
  | v :: vs => sortKeys v :: sortElements vs

def sortMembers : List (Text × Json N) → List (Text × Json N)
  | [] => []
  | (k, v) :: ms => (k, sortKeys v) :: sortMembers ms

end

theorem sortElements_eq (xs : List (Json N)) : sortElements r xs = xs.map (sortKeys r) := by
  induction xs with
  | nil => rfl
  | cons x xs ih => rw [sortElements, ih, List.map_cons]

theorem sortMembers_eq (ms : List (Text × Json N)) :
    sortMembers r ms = ms.map fun p => (p.1, sortKeys r p.2) := by
  induction ms with
  | nil => rfl
  | cons p ms ih => rw [sortMembers, ih, List.map_cons]

theorem sortMembers_keys (ms : List (Text × Json N)) :
    (sortMembers r ms).map Prod.fst = ms.map Prod.fst := by
  rw [sortMembers_eq, List.map_map]
  rfl

theorem sortMembers_values (ms : List (Text × Json N)) :
    (sortMembers r ms).map Prod.snd = (ms.map Prod.snd).map (sortKeys r) := by
  rw [sortMembers_eq, List.map_map, List.map_map]
  rfl

theorem sortKeys_distinct {v : Json N} (h : Distinct v) : Distinct (sortKeys r v) := by
  induction v using Json.induction with
  | null => exact h
  | bool b => exact h
  | num n => exact h
  | str s => exact h
  | arr xs ih =>
      cases h with
      | arr helements =>
          rw [sortKeys, sortElements_eq]
          refine .arr fun y hy => ?_
          obtain ⟨x, hx, rfl⟩ := List.mem_map.mp hy
          exact ih x hx (helements x hx)
  | obj ms ih =>
      cases h with
      | obj hkeys hmembers =>
          have hperm := List.perm_insertionSort (KeyOrder r) (sortMembers r ms)
          rw [sortKeys]
          refine .obj ?_ fun q hq => ?_
          · rw [(hperm.map Prod.fst).nodup_iff, sortMembers_keys]
            exact hkeys
          · have hq' := hperm.mem_iff.mp hq
            rw [sortMembers_eq] at hq'
            obtain ⟨p, hp, rfl⟩ := List.mem_map.mp hq'
            exact ih p hp (hmembers p hp)

instance [Std.Total r] : Std.Total (@KeyOrder N r) :=
  ⟨fun p q => Std.Total.total p.1 q.1⟩

instance [IsTrans Text r] : IsTrans (Text × Json N) (KeyOrder r) :=
  ⟨fun p q s (hpq : r p.1 q.1) (hqs : r q.1 s.1) => show r p.1 s.1 from trans_of r hpq hqs⟩

theorem map_eq_of_forall₂ {α β : Type} {R : α → α → Prop} {f : α → β} {xs ys : List α}
    (h : List.Forall₂ R xs ys) (hf : ∀ x ∈ xs, ∀ y, R x y → f x = f y) : xs.map f = ys.map f := by
  induction h with
  | nil => rfl
  | cons hxy _ ih =>
      rw [List.map_cons, List.map_cons, hf _ List.mem_cons_self _ hxy,
        ih fun x hx => hf x (List.mem_cons_of_mem _ hx)]

theorem forall₂_of_map_eq {α β : Type} {R : α → α → Prop} {f : α → β} {xs ys : List α}
    (h : xs.map f = ys.map f) (hR : ∀ x ∈ xs, ∀ y ∈ ys, f x = f y → R x y) :
    List.Forall₂ R xs ys := by
  induction xs generalizing ys with
  | nil =>
      cases ys with
      | nil => exact .nil
      | cons y ys => cases h
  | cons x xs ih =>
      cases ys with
      | nil => cases h
      | cons y ys =>
          obtain ⟨hxy, htail⟩ := List.cons.inj h
          exact .cons (hR x List.mem_cons_self y List.mem_cons_self hxy)
            (ih htail fun a ha b hb =>
              hR a (List.mem_cons_of_mem x ha) b (List.mem_cons_of_mem y hb))

theorem pairs_ext {α β : Type} {ms ns : List (α × β)} (hfst : ms.map Prod.fst = ns.map Prod.fst)
    (hsnd : ms.map Prod.snd = ns.map Prod.snd) : ms = ns := by
  rw [← List.zip_unzip ms, ← List.zip_unzip ns]
  simp only [List.unzip_fst, List.unzip_snd, hfst, hsnd]

/-- Members in another order are sorted alike, where no key repeats. -/
theorem insertionSort_perm [Std.Total r] [IsTrans Text r] (hanti : ∀ s t, r s t → r t s → s = t)
    {ms ns : List (Text × Json N)} (h : ms.Perm ns) (hkeys : (ms.map Prod.fst).Nodup) :
    ms.insertionSort (KeyOrder r) = ns.insertionSort (KeyOrder r) := by
  have hperm := ((List.perm_insertionSort (KeyOrder r) ms).trans h).trans
    (List.perm_insertionSort (KeyOrder r) ns).symm
  refine hperm.eq_of_pairwise ?_ (List.pairwise_insertionSort (KeyOrder r) ms)
    (List.pairwise_insertionSort (KeyOrder r) ns)
  intro p q hp hq hpq hqp
  have hp' : p ∈ ms := (List.mem_insertionSort (KeyOrder r)).mp hp
  have hq' : q ∈ ms := h.mem_iff.mpr ((List.mem_insertionSort (KeyOrder r)).mp hq)
  exact List.inj_on_of_nodup_map hkeys hp' hq' (hanti _ _ hpq hqp)

theorem insertionSort_sortMembers (ms : List (Text × Json N)) :
    (sortMembers r ms).insertionSort (KeyOrder r) =
      sortMembers r (ms.insertionSort (KeyOrder r)) := by
  rw [sortMembers_eq, sortMembers_eq]
  exact (List.map_insertionSort (KeyOrder r) (KeyOrder r)
    (fun p : Text × Json N => (p.1, sortKeys r p.2)) ms fun _ _ _ _ => Iff.rfl).symm

theorem same_sortKeys (v : Json N) : Same v (sortKeys r v) := by
  induction v using Json.induction with
  | null => exact .null
  | bool b => exact .bool
  | num n => exact .num
  | str s => exact .str
  | arr xs ih =>
      rw [sortKeys, sortElements_eq]
      exact .arr (List.forall₂_map_right_iff.mpr (List.forall₂_same.mpr ih))
  | obj ms ih =>
      have hperm := List.perm_insertionSort (KeyOrder r) ms
      rw [sortKeys, insertionSort_sortMembers]
      refine .obj hperm.symm (sortMembers_keys r _).symm ?_
      rw [sortMembers_values, List.forall₂_map_right_iff, List.forall₂_same]
      intro x hx
      obtain ⟨p, hp, rfl⟩ := List.mem_map.mp hx
      exact ih p (hperm.mem_iff.mp hp)

/-- Values that differ in the order of keys only are the same with their keys in order. -/
theorem Same.sortKeys_eq [Std.Total r] [IsTrans Text r] (hanti : ∀ s t, r s t → r t s → s = t)
    {v w : Json N} (h : Same v w) (hv : Distinct v) : sortKeys r v = sortKeys r w := by
  induction v using Json.induction generalizing w with
  | null =>
      cases h
      rfl
  | bool b =>
      cases h
      rfl
  | num n =>
      cases h
      rfl
  | str s =>
      cases h
      rfl
  | arr xs ih =>
      cases hv with
      | arr helements =>
          cases h with
          | arr hall =>
              rw [sortKeys, sortKeys, sortElements_eq, sortElements_eq,
                map_eq_of_forall₂ hall fun x hx y hxy => ih x hx hxy (helements x hx)]
  | obj ms ih =>
      cases hv with
      | obj hnodup hmembers =>
          cases h with
          | @obj _ ns ps horder hkeys hvalues =>
              have hperm : (sortMembers r ms).Perm (sortMembers r ps) := by
                rw [sortMembers_eq, sortMembers_eq]
                exact horder.map _
              have hsame : sortMembers r ps = sortMembers r ns := by
                refine pairs_ext ?_ ?_
                · rw [sortMembers_keys, sortMembers_keys, hkeys]
                · rw [sortMembers_values, sortMembers_values]
                  refine map_eq_of_forall₂ hvalues fun x hx y hxy => ?_
                  obtain ⟨p, hp, rfl⟩ := List.mem_map.mp hx
                  have hp' := horder.mem_iff.mpr hp
                  exact ih p hp' hxy (hmembers p hp')
              rw [sortKeys, sortKeys, insertionSort_perm r hanti hperm
                ((sortMembers_keys r ms).symm ▸ hnodup), hsame]

theorem same_of_sortKeys_eq {v w : Json N} (h : sortKeys r v = sortKeys r w) : Same v w := by
  induction v using Json.induction generalizing w with
  | null =>
      cases w with
      | null => exact .null
      | _ => cases h
  | bool b =>
      cases w with
      | bool c =>
          cases h
          exact .bool
      | _ => cases h
  | num n =>
      cases w with
      | num m =>
          cases h
          exact .num
      | _ => cases h
  | str s =>
      cases w with
      | str t =>
          cases h
          exact .str
      | _ => cases h
  | arr xs ih =>
      cases w with
      | arr ys =>
          rw [sortKeys, sortKeys, sortElements_eq, sortElements_eq] at h
          exact .arr (forall₂_of_map_eq (Json.arr.inj h) fun x hx y _ hxy => ih x hx hxy)
      | _ => cases h
  | obj ms ih =>
      cases w with
      | obj ns =>
          rw [sortKeys, sortKeys] at h
          have hsorted := Json.obj.inj h
          have hperm : (sortMembers r ns).Perm (sortMembers r ms) :=
            (List.perm_insertionSort (KeyOrder r) _).symm.trans
              (hsorted ▸ List.perm_insertionSort (KeyOrder r) _)
          rw [sortMembers_eq r ms] at hperm
          obtain ⟨ps, hps, horder⟩ :=
            (congrFun₂ (List.eq_map_comp_perm _) (sortMembers r ns) ms).mpr hperm
          have hps' : sortMembers r ns = sortMembers r ps := hps.trans (sortMembers_eq r ps).symm
          refine .obj horder.symm ?_ ?_
          · rw [← sortMembers_keys r ps, ← hps', sortMembers_keys]
          · have hvalues := congrArg (List.map Prod.snd) hps'
            rw [sortMembers_values, sortMembers_values] at hvalues
            refine forall₂_of_map_eq hvalues.symm fun x hx y _ hxy => ?_
            obtain ⟨p, hp, rfl⟩ := List.mem_map.mp hx
            exact ih p (horder.mem_iff.mp hp) hxy
      | _ => cases h

theorem same_iff_sortKeys_eq [Std.Total r] [IsTrans Text r]
    (hanti : ∀ s t, r s t → r t s → s = t) {v w : Json N} (hv : Distinct v) :
    Same v w ↔ sortKeys r v = sortKeys r w :=
  ⟨fun h => h.sortKeys_eq r hanti hv, same_of_sortKeys_eq r⟩

end Sorting


end JsonText
