import Esdb.JsonText
import Mathlib.Order.Lattice
import Mathlib.Data.List.Lex

/-!
# Canonical JSON

Schema documents are hashed in a form of their own: no spaces, as few escapes as can be,
the keys of every object in the order of their code points. Numbers and texts that are
not Unicode are refused. The form determines the value up to the order of its keys, and
`JSON.parse` makes the value of it again.
-/
namespace Esdb.CanonicalJson

open JsonText

structure CanonicalError where
  code : String
  path : Text
  message : String
  deriving DecidableEq, Repr

def maxDepth : ℕ := 128

/-- A turn of the loop in `encodeString`, at the character `code`. -/
def encodeChar (path : Text) (code : ℕ) : Except CanonicalError Text :=
  if 0xD800 ≤ code ∧ code ≤ 0xDFFF then
    .error ⟨"IR024", path, "string contains an unpaired surrogate"⟩
  else if code = '"'.toNat then .ok (ascii ['\\', '"'])
  else if code = '\\'.toNat then .ok (ascii ['\\', '\\'])
  else if code = 0x08 then .ok (ascii ['\\', 'b'])
  else if code = 0x09 then .ok (ascii ['\\', 't'])
  else if code = 0x0A then .ok (ascii ['\\', 'n'])
  else if code = 0x0C then .ok (ascii ['\\', 'f'])
  else if code = 0x0D then .ok (ascii ['\\', 'r'])
  else if code < 0x20 then .ok (ascii ('\\' :: 'u' :: (Nat.toDigits 16 code).leftpad 4 '0'))
  else .ok (units code)

def encodeChars (path : Text) : List ℕ → Except CanonicalError Text
  | [] => .ok []
  | c :: cs => (encodeChar path c).bind fun t => (encodeChars path cs).map fun ts => t ++ ts

/-- `encodeString`. -/
def encodeString (value path : Text) : Except CanonicalError Text :=
  (encodeChars path (codePoints value)).map fun out => unit '"' :: (out ++ [unit '"'])

/-- `compareCodePoints`, on what the two indices have not passed. -/
def compareCodePoints : Text → Text → ℤ
  | a :: s, b :: t =>
      if codePointAt a s ≠ codePointAt b t then
        if codePointAt a s < codePointAt b t then -1 else 1
      else
        match s with
        | [] => compareCodePoints [] t
        | a' :: s' =>
            if 0xFFFF < codePointAt a (a' :: s') then compareCodePoints s' t.tail
            else compareCodePoints (a' :: s') t
  | s, t => s.length - t.length

/-- What `sort(compareCodePoints)` puts first. -/
def Before (a b : Text) : Prop := compareCodePoints a b ≤ 0

instance : DecidableRel Before := fun a b => inferInstanceAs (Decidable (compareCodePoints a b ≤ 0))

def elementPath (path : Text) (i : ℕ) : Text :=
  path ++ unit '[' :: (ascii (Nat.toDigits 10 i) ++ [unit ']'])

def memberPath (path key : Text) : Text := path ++ unit '.' :: key

/-- The parts of an object: each is a key and what the encoding of its value was. -/
def encodeParts (path : Text) :
    List (Text × Except CanonicalError Text) → Except CanonicalError (List Text)
  | [] => .ok []
  | (key, value) :: ps =>
      (encodeString key path).bind fun k =>
        value.bind fun v => (encodeParts path ps).map fun parts => (k ++ unit ':' :: v) :: parts

variable {N : Type}

mutual

/-- `encodeValue`, on the values that JSON has. -/
def encodeValue (value : Json N) (path : Text) (depth : ℕ) : Except CanonicalError Text :=
  if maxDepth < depth then
    .error ⟨"IR024", path, "document nesting exceeds the canonicalization depth limit"⟩
  else
    match value with
    | .null => .ok (ascii ['n', 'u', 'l', 'l'])
    | .bool true => .ok (ascii ['t', 'r', 'u', 'e'])
    | .bool false => .ok (ascii ['f', 'a', 'l', 's', 'e'])
    | .num _ =>
        .error ⟨"IR022", path,
          "IR v1 forbids JSON numbers; carry numeric data as canonical decimal strings"⟩
    | .str s => encodeString s path
    | .arr xs =>
        (encodeElements xs path depth 0).map fun parts => unit '[' :: (joined parts ++ [unit ']'])
    | .obj ms =>
        (encodeParts path
          ((encodeMembers ms path depth).insertionSort fun p q => Before p.1 q.1)).map
            fun parts => unit '\x7b' :: (joined parts ++ [unit '\x7d'])

def encodeElements (xs : List (Json N)) (path : Text) (depth i : ℕ) :
    Except CanonicalError (List Text) :=
  match xs with
  | [] => .ok []
  | x :: xs =>
      (encodeValue x (elementPath path i) (depth + 1)).bind fun t =>
        (encodeElements xs path depth (i + 1)).map fun ts => t :: ts

/-- The encodings of members, for the sorted keys to take theirs. -/
def encodeMembers (ms : List (Text × Json N)) (path : Text) (depth : ℕ) :
    List (Text × Except CanonicalError Text) :=
  match ms with
  | [] => []
  | (key, v) :: ms =>
      (key, encodeValue v (memberPath path key) (depth + 1)) :: encodeMembers ms path depth

end

/-- `canonicalize`. -/
def canonicalize (value : Json N) : Except CanonicalError Text := encodeValue value [unit '$'] 0

/-! ## The order of keys -/

theorem codePointAt_le {a : UInt16} : codePointAt a [] ≤ 0xFFFF := by
  have ha := a.toNat_lt
  rw [codePointAt]
  omega

theorem codePointAt_large {a b : UInt16} {s : Text} :
    0xFFFF < codePointAt a (b :: s) ↔ Lead a ∧ Trail b := by
  have ha := a.toNat_lt
  rw [codePointAt]
  by_cases hpair : Lead a ∧ Trail b
  · rw [if_pos hpair]
    exact ⟨fun _ => hpair, fun _ => by omega⟩
  · rw [if_neg hpair]
    exact ⟨fun h => absurd h (by omega), fun h => absurd h hpair⟩

/-- A text's first character, and the rest. -/
theorem codePoints_cons (a : UInt16) (s : Text) :
    codePoints (a :: s) =
      codePointAt a s :: codePoints (if 0xFFFF < codePointAt a s then s.tail else s) := by
  cases s with
  | nil =>
      rw [if_neg (Nat.not_lt.mpr codePointAt_le)]
      rfl
  | cons b s =>
      rw [codePoints]
      simp only [codePointAt_large, List.tail_cons]
      split_ifs <;> rfl

/-- `compareCodePoints` tells how the characters of two texts are ordered. -/
theorem compareCodePoints_cases (a b : Text) :
    compareCodePoints a b < 0 ∧ codePoints a < codePoints b ∨
      compareCodePoints a b = 0 ∧ codePoints a = codePoints b ∨
        0 < compareCodePoints a b ∧ codePoints b < codePoints a := by
  fun_induction compareCodePoints a b with
  | case1 a s b t hne hlt =>
      left
      rw [codePoints_cons a, codePoints_cons b, List.cons_lt_cons_iff]
      exact ⟨by decide, .inl hlt⟩
  | case2 a s b t hne hnlt =>
      right
      right
      rw [codePoints_cons a, codePoints_cons b, List.cons_lt_cons_iff]
      exact ⟨by decide, .inl (by omega)⟩
  | case3 a b t heq ih =>
      have heq' := not_not.mp heq
      have hsmall := codePointAt_le (a := a)
      rw [codePoints_cons a, codePoints_cons b, ← heq', if_neg (by omega), if_neg (by omega)]
      simp only [List.cons_lt_cons_iff, List.cons.injEq, lt_irrefl, false_or, true_and]
      exact ih
  | case4 a b t a' s hlarge heq ih =>
      rw [codePoints_cons a, codePoints_cons b, ← not_not.mp heq, if_pos hlarge, if_pos hlarge]
      simp only [List.cons_lt_cons_iff, List.cons.injEq, lt_irrefl, false_or, true_and]
      exact ih
  | case5 a b t a' s hsmall heq ih =>
      rw [codePoints_cons a, codePoints_cons b, ← not_not.mp heq, if_neg hsmall, if_neg hsmall]
      simp only [List.cons_lt_cons_iff, List.cons.injEq, lt_irrefl, false_or, true_and]
      exact ih
  | case6 s t hcons =>
      cases s with
      | nil =>
          cases t with
          | nil => exact .inr (.inl ⟨rfl, rfl⟩)
          | cons b t =>
              rw [codePoints_cons b]
              refine .inl ⟨?_, List.nil_lt_cons _ _⟩
              rw [List.length_nil, List.length_cons]
              omega
      | cons a s =>
          cases t with
          | nil =>
              rw [codePoints_cons a]
              refine .inr (.inr ⟨?_, List.nil_lt_cons _ _⟩)
              rw [List.length_nil, List.length_cons]
              omega
          | cons b t => exact (hcons a s b t rfl rfl).elim

theorem compareCodePoints_neg {a b : Text} :
    compareCodePoints a b < 0 ↔ codePoints a < codePoints b := by
  rcases compareCodePoints_cases a b with ⟨h, hlt⟩ | ⟨h, heq⟩ | ⟨h, hgt⟩
  · exact ⟨fun _ => hlt, fun _ => h⟩
  · exact ⟨fun h' => absurd h' (by omega), fun h' => absurd h' (heq ▸ lt_irrefl _)⟩
  · exact ⟨fun h' => absurd h' (by omega), fun h' => absurd h' (lt_asymm hgt)⟩

theorem compareCodePoints_zero {a b : Text} : compareCodePoints a b = 0 ↔ a = b := by
  rw [← codePoints_injective.eq_iff]
  rcases compareCodePoints_cases a b with ⟨h, hlt⟩ | ⟨h, heq⟩ | ⟨h, hgt⟩
  · exact ⟨fun h' => absurd h' (by omega), fun h' => absurd (h' ▸ hlt) (lt_irrefl _)⟩
  · exact ⟨fun _ => heq, fun _ => h⟩
  · exact ⟨fun h' => absurd h' (by omega), fun h' => absurd (h' ▸ hgt) (lt_irrefl _)⟩

theorem before_iff {a b : Text} : Before a b ↔ codePoints a ≤ codePoints b := by
  rw [Before, Int.le_iff_lt_or_eq, compareCodePoints_neg, compareCodePoints_zero,
    le_iff_lt_or_eq, codePoints_injective.eq_iff]

/-- The order is a strict one, and total, on all texts. -/
theorem isStrictTotalOrder : IsStrictTotalOrder Text fun a b => compareCodePoints a b < 0 where
  trichotomous a b := by
    intro hab hba
    rw [compareCodePoints_neg] at hab hba
    exact codePoints_injective (le_antisymm (not_lt.mp hba) (not_lt.mp hab))
  irrefl a h := lt_irrefl _ (compareCodePoints_neg.mp h)
  trans a b c hab hbc :=
    compareCodePoints_neg.mpr ((compareCodePoints_neg.mp hab).trans (compareCodePoints_neg.mp hbc))

instance : Std.Total Before where
  total a b := by
    rw [before_iff, before_iff]
    exact le_total _ _

instance : IsTrans Text Before where
  trans _ _ _ hab hbc := before_iff.mpr ((before_iff.mp hab).trans (before_iff.mp hbc))

theorem before_antisymm (a b : Text) (hab : Before a b) (hba : Before b a) : a = b :=
  codePoints_injective (le_antisymm (before_iff.mp hab) (before_iff.mp hba))


/-! ## The form of a value -/

theorem encodeChar_single {path : Text} {u : UInt16} {t : Text}
    (h : encodeChar path u.toNat = .ok t) : t = escapeUnit u := by
  have hunit (c : UInt16) : u.toNat = c.toNat ↔ u = c := UInt16.toNat_inj
  have hquote : u.toNat = '"'.toNat ↔ u = unit '"' := hunit (unit '"')
  have hslash : u.toNat = '\\'.toNat ↔ u = unit '\\' := hunit (unit '\\')
  have hb : u.toNat = 0x08 ↔ u = 0x08 := hunit 0x08
  have ht : u.toNat = 0x09 ↔ u = 0x09 := hunit 0x09
  have hn : u.toNat = 0x0A ↔ u = 0x0A := hunit 0x0A
  have hf : u.toNat = 0x0C ↔ u = 0x0C := hunit 0x0C
  have hr : u.toNat = 0x0D ↔ u = 0x0D := hunit 0x0D
  rw [encodeChar] at h
  by_cases hsurrogate : 0xD800 ≤ u.toNat ∧ u.toNat ≤ 0xDFFF
  · rw [if_pos hsurrogate] at h
    cases h
  · rw [if_neg hsurrogate, units_toNat] at h
    simp only [hquote, hslash, hb, ht, hn, hf, hr, ← apply_ite] at h
    exact (Except.ok.inj h).symm

/-- A unit that needs no escape. -/
theorem escapeUnit_raw {u : UInt16} (h : 0x5D ≤ u.toNat) : escapeUnit u = [u] := by
  have hne (c : UInt16) (hc : c.toNat < 0x5D) : u ≠ c := by
    rintro rfl
    omega
  rw [escapeUnit, if_neg (hne _ (by decide)), if_neg (hne _ (by decide)),
    if_neg (hne _ (by decide)), if_neg (hne _ (by decide)), if_neg (hne _ (by decide)),
    if_neg (hne _ (by decide)), if_neg (hne _ (by decide)), if_neg (by omega)]

theorem encodeChar_large {path : Text} {code : ℕ} (h : 0xFFFF < code) :
    encodeChar path code = .ok (units code) := by
  have hquote : '"'.toNat = 0x22 := rfl
  have hslash : '\\'.toNat = 0x5C := rfl
  rw [encodeChar, if_neg (by omega), if_neg (by omega), if_neg (by omega), if_neg (by omega),
    if_neg (by omega), if_neg (by omega), if_neg (by omega), if_neg (by omega),
    if_neg (by omega)]

theorem encodeChar_pair {path : Text} {u v : UInt16} (hu : Lead u) (hv : Trail v) :
    encodeChar path ((u.toNat - 0xD800) * 0x400 + (v.toNat - 0xDC00) + 0x10000) =
      .ok (escapeUnit u ++ escapeUnit v) := by
  rw [encodeChar_large (by omega), units_pair hu hv, escapeUnit_raw (by have := hu.1; omega),
    escapeUnit_raw (by have := hv.1; omega)]
  rfl

theorem encodeChars_cons {path : Text} {c : ℕ} {cs : List ℕ} {t : Text}
    (h : encodeChars path (c :: cs) = .ok t) :
    ∃ t₁ t₂, encodeChar path c = .ok t₁ ∧ encodeChars path cs = .ok t₂ ∧ t = t₁ ++ t₂ := by
  rw [encodeChars] at h
  cases hc : encodeChar path c with
  | error e =>
      rw [hc] at h
      cases h
  | ok t₁ =>
      cases hcs : encodeChars path cs with
      | error e =>
          rw [hc, hcs] at h
          cases h
      | ok t₂ =>
          rw [hc, hcs] at h
          exact ⟨t₁, t₂, rfl, rfl, (Except.ok.inj h).symm⟩

/-- The loop over characters writes what the units ask for one by one. -/
theorem encodeChars_codePoints {path s t : Text} (h : encodeChars path (codePoints s) = .ok t) :
    t = s.flatMap escapeUnit := by
  induction s using codePoints.induct generalizing t with
  | case1 => exact (Except.ok.inj h).symm
  | case2 u =>
      rw [codePoints] at h
      obtain ⟨t₁, t₂, h₁, h₂, rfl⟩ := encodeChars_cons h
      obtain rfl := encodeChar_single h₁
      obtain rfl := Except.ok.inj h₂
      rfl
  | case3 u v s ihrest ihtail =>
      rw [codePoints, codePointAt] at h
      obtain ⟨t₁, t₂, h₁, h₂, rfl⟩ := encodeChars_cons h
      by_cases hpair : Lead u ∧ Trail v
      · rw [if_pos hpair] at h₁ h₂
        rw [encodeChar_pair hpair.1 hpair.2] at h₁
        obtain rfl := Except.ok.inj h₁
        rw [ihrest h₂, List.append_assoc]
        rfl
      · rw [if_neg hpair] at h₁ h₂
        rw [encodeChar_single h₁, ihtail h₂]
        rfl

theorem encodeString_quoted {value path t : Text} (h : encodeString value path = .ok t) :
    t = quoted value := by
  rw [encodeString] at h
  cases hchars : encodeChars path (codePoints value) with
  | error e =>
      rw [hchars] at h
      cases h
  | ok out =>
      rw [hchars] at h
      obtain rfl := Except.ok.inj h
      rw [encodeChars_codePoints hchars]
      rfl

theorem encodeMembers_eq (ms : List (Text × Json N)) (path : Text) (depth : ℕ) :
    encodeMembers ms path depth =
      ms.map fun p => (p.1, encodeValue p.2 (memberPath path p.1) (depth + 1)) := by
  induction ms with
  | nil => rw [encodeMembers, List.map_nil]
  | cons p ms ih => rw [encodeMembers, ih, List.map_cons]

/-- What a value that is accepted says of its text, its keys sorted. -/
def Written (v : Json N) : Prop :=
  ∀ ⦃path : Text⦄ ⦃depth : ℕ⦄ ⦃t : Text⦄,
    encodeValue v path depth = .ok t → text (sortKeys Before v) = some t

theorem encodeElements_written {xs : List (Json N)} (hxs : ∀ x ∈ xs, Written x) {path : Text}
    {depth i : ℕ} {ts : List Text} (h : encodeElements xs path depth i = .ok ts) :
    elementTexts (xs.map (sortKeys Before)) = some ts := by
  induction xs generalizing i ts with
  | nil =>
      rw [encodeElements] at h
      obtain rfl := Except.ok.inj h
      rfl
  | cons x xs ih =>
      rw [encodeElements] at h
      cases hx : encodeValue x (elementPath path i) (depth + 1) with
      | error e =>
          rw [hx] at h
          cases h
      | ok t =>
          cases hrest : encodeElements xs path depth (i + 1) with
          | error e =>
              rw [hx, hrest] at h
              cases h
          | ok us =>
              rw [hx, hrest] at h
              obtain rfl := Except.ok.inj h
              rw [List.map_cons, elementTexts, hxs x List.mem_cons_self hx,
                ih (fun y hy => hxs y (List.mem_cons_of_mem x hy)) hrest]
              rfl

theorem encodeParts_written {ms : List (Text × Json N)} (hms : ∀ p ∈ ms, Written p.2)
    {path : Text} {depth : ℕ} {ts : List Text}
    (h : encodeParts path
      (ms.map fun p => (p.1, encodeValue p.2 (memberPath path p.1) (depth + 1))) = .ok ts) :
    memberTexts (ms.map fun p => (p.1, sortKeys Before p.2)) = some ts := by
  induction ms generalizing ts with
  | nil =>
      obtain rfl := Except.ok.inj h
      rfl
  | cons p ms ih =>
      rw [List.map_cons, encodeParts] at h
      cases hk : encodeString p.1 path with
      | error e =>
          rw [hk] at h
          cases h
      | ok k =>
          cases hv : encodeValue p.2 (memberPath path p.1) (depth + 1) with
          | error e =>
              rw [hk, hv] at h
              cases h
          | ok v =>
              cases hrest : encodeParts path
                  (ms.map fun p => (p.1, encodeValue p.2 (memberPath path p.1) (depth + 1))) with
              | error e =>
                  rw [hk, hv, hrest] at h
                  cases h
              | ok parts =>
                  rw [hk, hv, hrest] at h
                  obtain rfl := Except.ok.inj h
                  rw [List.map_cons, memberTexts, hms p List.mem_cons_self hv,
                    ih (fun q hq => hms q (List.mem_cons_of_mem p hq)) hrest,
                    encodeString_quoted hk]
                  rfl

theorem sort_map {β : Type} (f : Text × Json N → β) (ms : List (Text × Json N)) :
    (ms.map fun p => (p.1, f p)).insertionSort (fun p q => Before p.1 q.1) =
      (ms.insertionSort (KeyOrder Before)).map fun p => (p.1, f p) :=
  (List.map_insertionSort (r := KeyOrder Before) (s := fun (p q : Text × β) => Before p.1 q.1) _ ms
    fun _ _ _ _ => Iff.rfl).symm

theorem encodeValue_written (v : Json N) : Written v := by
  induction v using Json.induction with
  | null =>
      intro path depth t h
      rw [encodeValue] at h
      split_ifs at h
      exact congrArg some (Except.ok.inj h)
  | bool b =>
      intro path depth t h
      cases b <;>
      · rw [encodeValue] at h
        split_ifs at h
        exact congrArg some (Except.ok.inj h)
  | num n =>
      intro path depth t h
      rw [encodeValue] at h
      split_ifs at h
  | str s =>
      intro path depth t h
      rw [encodeValue] at h
      split_ifs at h
      exact congrArg some (encodeString_quoted h).symm
  | arr xs ih =>
      intro path depth t h
      rw [encodeValue] at h
      split_ifs at h
      cases hparts : encodeElements xs path depth 0 with
      | error e =>
          simp only [hparts] at h
          cases h
      | ok parts =>
          simp only [hparts] at h
          obtain rfl := Except.ok.inj h
          rw [sortKeys, sortElements_eq, text, encodeElements_written ih hparts]
          rfl
  | obj ms ih =>
      intro path depth t h
      rw [encodeValue, encodeMembers_eq, sort_map] at h
      split_ifs at h
      cases hparts : encodeParts path ((ms.insertionSort (KeyOrder Before)).map
          fun p => (p.1, encodeValue p.2 (memberPath path p.1) (depth + 1))) with
      | error e =>
          simp only [hparts] at h
          cases h
      | ok parts =>
          simp only [hparts] at h
          obtain rfl := Except.ok.inj h
          have hsorted := encodeParts_written
            (fun p hp => ih p ((List.mem_insertionSort _).mp hp)) hparts
          rw [sortKeys, insertionSort_sortMembers, sortMembers_eq, text, hsorted]
          rfl

/-! ## Canonical texts and values -/

/-- The text of an accepted value, by which it is known and from which it is made again. -/
theorem canonicalize_text {v : Json N} {t : Text} (h : canonicalize v = .ok t) :
    text (sortKeys Before v) = some t :=
  encodeValue_written v h

theorem parse_canonicalize (number : Text → N) (v : Value N) {t : Text}
    (h : canonicalize v.json = .ok t) : parse number t = some (sortKeys Before v.json) :=
  parse_text (sortKeys_distinct Before v.distinct) (canonicalize_text h)

theorem canonicalize_eq_iff (number : Text → N) (v w : Value N) {s t : Text}
    (hv : canonicalize v.json = .ok s) (hw : canonicalize w.json = .ok t) :
    s = t ↔ Same v.json w.json := by
  rw [same_iff_sortKeys_eq Before before_antisymm v.distinct]
  constructor
  · rintro rfl
    have hread := (parse_canonicalize number v hv).symm.trans (parse_canonicalize number w hw)
    exact Option.some.inj hread
  · intro hsame
    have hs := canonicalize_text hv
    rw [hsame, canonicalize_text hw] at hs
    exact (Option.some.inj hs).symm

/-- The canonical text gives the value back up to the order of keys, and is the same for
values that differ in that alone; that order is the one of code points. -/
theorem canonicalize_invertible (number : Text → N) (a b : Value N) {s t : Text}
    (ha : canonicalize a.json = .ok s) (hb : canonicalize b.json = .ok t) :
    (∃ v : Value N, parse number s = some v.json ∧ Same a.json v.json) ∧
      (s = t ↔ Same a.json b.json) ∧
        (IsStrictTotalOrder Text fun x y => compareCodePoints x y < 0) ∧
          ∀ x y, compareCodePoints x y < 0 ↔ codePoints x < codePoints y := by
  refine ⟨?_, canonicalize_eq_iff number a b ha hb, isStrictTotalOrder,
    fun x y => compareCodePoints_neg⟩
  exact ⟨⟨sortKeys Before a.json, sortKeys_distinct Before a.distinct⟩,
    parse_canonicalize number a ha, same_sortKeys Before a.json⟩

/-- Two members, in the one order and in the other. -/
def unordered : Json Text :=
  .obj [([unit 'b'], .arr [.str [unit 'x']]), ([unit 'a'], .null)]

def ordered : Json Text :=
  .obj [([unit 'a'], .null), ([unit 'b'], .arr [.str [unit 'x']])]

theorem canonicalize_reordered :
    (∃ v : Value Text, parse id (ascii ['\x7b', '"', 'a', '"', ':', 'n', 'u', 'l', 'l', ',', '"',
      'b', '"', ':', '[', '"', 'x', '"', ']', '\x7d']) = some v.json ∧ Same unordered v.json) ∧
      Same unordered ordered := by
  have hletters : ([[unit 'b'], [unit 'a']] : List Text).Nodup ∧
      ([[unit 'a'], [unit 'b']] : List Text).Nodup := by
    decide
  have hlist : Distinct (.arr [.str [unit 'x']] : Json Text) := by
    refine .arr fun x hx => ?_
    rw [List.mem_singleton.mp hx]
    exact .str
  have ha : Distinct unordered :=
    .obj hletters.1 (List.forall_mem_cons.mpr ⟨hlist, List.forall_mem_singleton.mpr .null⟩)
  have hb : Distinct ordered :=
    .obj hletters.2 (List.forall_mem_cons.mpr ⟨.null, List.forall_mem_singleton.mpr hlist⟩)
  have h := canonicalize_invertible id ⟨unordered, ha⟩ ⟨ordered, hb⟩ rfl rfl
  exact ⟨h.1, h.2.1.mp rfl⟩

end Esdb.CanonicalJson
