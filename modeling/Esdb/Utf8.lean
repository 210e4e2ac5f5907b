import Mathlib.Data.List.Basic

/-!
# UTF-8 by first octets

A text is read one character after the other. What a character is, is read off its
first octet: how many octets follow it, and the narrower range that the second one has
after some of them. The sequences that this admits are the encodings of characters, so
a text read to its end is the encoding of some characters and every such text is read.
-/
namespace Utf8

def Tail (b : UInt8) : Prop := 0x80 ≤ b.toNat ∧ b.toNat ≤ 0xBF

instance (b : UInt8) : Decidable (Tail b) := inferInstanceAs (Decidable (_ ∧ _))

/-- The octets of one character, with its code. -/
inductive Sequence : List UInt8 → ℕ → Prop
  | one {a : UInt8} (ha : a.toNat ≤ 0x7F) : Sequence [a] a.toNat
  | two {a b : UInt8} (ha : 0xC2 ≤ a.toNat ∧ a.toNat ≤ 0xDF) (hb : Tail b) :
      Sequence [a, b] (a.toNat % 32 * 64 + b.toNat % 64)
  | three {a b c : UInt8} (ha : 0xE0 ≤ a.toNat ∧ a.toNat ≤ 0xEF) (hb : Tail b) (hc : Tail c)
      (hlong : a.toNat = 0xE0 → 0xA0 ≤ b.toNat) (hsurrogate : a.toNat = 0xED → b.toNat < 0xA0) :
      Sequence [a, b, c] (a.toNat % 16 * 4096 + b.toNat % 64 * 64 + c.toNat % 64)
  | four {a b c d : UInt8} (ha : 0xF0 ≤ a.toNat ∧ a.toNat ≤ 0xF4) (hb : Tail b) (hc : Tail c)
      (hd : Tail d) (hlong : a.toNat = 0xF0 → 0x90 ≤ b.toNat)
      (hlarge : a.toNat = 0xF4 → b.toNat < 0x90) :
      Sequence [a, b, c, d]
        (a.toNat % 8 * 262144 + b.toNat % 64 * 4096 + c.toNat % 64 * 64 + d.toNat % 64)

/-- `String.utf8EncodeChar` on a code. -/
def encode (v : ℕ) : List UInt8 :=
  if v ≤ 0x7F then [UInt8.ofNat v]
  else if v ≤ 0x7FF then [UInt8.ofNat (v / 64 % 32 + 0xC0), UInt8.ofNat (v % 64 + 0x80)]
  else if v ≤ 0xFFFF then
    [UInt8.ofNat (v / 4096 % 16 + 0xE0), UInt8.ofNat (v / 64 % 64 + 0x80),
      UInt8.ofNat (v % 64 + 0x80)]
  else
    [UInt8.ofNat (v / 262144 % 8 + 0xF0), UInt8.ofNat (v / 4096 % 64 + 0x80),
      UInt8.ofNat (v / 64 % 64 + 0x80), UInt8.ofNat (v % 64 + 0x80)]

theorem utf8EncodeChar_eq (c : Char) : String.utf8EncodeChar c = encode c.toNat := rfl

theorem ofNat_eq {n : ℕ} {a : UInt8} (h : n = a.toNat) : UInt8.ofNat n = a := by
  rw [h, UInt8.ofNat_toNat]

theorem Sequence.encode {l : List UInt8} {n : ℕ} (h : Sequence l n) : Utf8.encode n = l := by
  unfold Utf8.encode
  cases h with
  | one ha => rw [if_pos ha, UInt8.ofNat_toNat]
  | @two a b ha hb =>
      obtain ⟨hb₁, hb₂⟩ := hb
      rw [if_neg (by omega), if_pos (by omega), ofNat_eq (a := a) (by omega),
        ofNat_eq (a := b) (by omega)]
  | @three a b c ha hb hc hlong hsurrogate =>
      obtain ⟨hb₁, hb₂⟩ := hb
      obtain ⟨hc₁, hc₂⟩ := hc
      rw [if_neg (by omega), if_neg (by omega), if_pos (by omega), ofNat_eq (a := a) (by omega),
        ofNat_eq (a := b) (by omega), ofNat_eq (a := c) (by omega)]
  | @four a b c d ha hb hc hd hlong hlarge =>
      obtain ⟨hb₁, hb₂⟩ := hb
      obtain ⟨hc₁, hc₂⟩ := hc
      obtain ⟨hd₁, hd₂⟩ := hd
      rw [if_neg (by omega), if_neg (by omega), if_neg (by omega), ofNat_eq (a := a) (by omega),
        ofNat_eq (a := b) (by omega), ofNat_eq (a := c) (by omega), ofNat_eq (a := d) (by omega)]

/-- The codes of sequences are those of characters. -/
theorem Sequence.valid {l : List UInt8} {n : ℕ} (h : Sequence l n) : n.isValidChar := by
  unfold Nat.isValidChar
  cases h with
  | one ha => omega
  | @two a b ha hb => omega
  | @three a b c ha hb hc hlong hsurrogate =>
      obtain ⟨hb₁, hb₂⟩ := hb
      obtain ⟨hc₁, hc₂⟩ := hc
      omega
  | @four a b c d ha hb hc hd hlong hlarge =>
      obtain ⟨hb₁, hb₂⟩ := hb
      omega

theorem forall_mem_pair {α : Type} {p : α → Prop} {a b : α} (ha : p a) (hb : p b) :
    ∀ x ∈ [a, b], p x :=
  List.forall_mem_cons.mpr ⟨ha, List.forall_mem_singleton.mpr hb⟩

theorem toNat_ofNat {n : ℕ} (h : n < 256) : (UInt8.ofNat n).toNat = n :=
  UInt8.toNat_ofNat_of_lt h

theorem sequence_encode {n : ℕ} (h : n.isValidChar) : Sequence (encode n) n := by
  unfold Nat.isValidChar at h
  unfold encode
  split_ifs with h₁ h₂ h₃
  · have hseq := Sequence.one (a := UInt8.ofNat n) (by rw [toNat_ofNat (by omega)]; exact h₁)
    rwa [toNat_ofNat (by omega)] at hseq
  · have ha := toNat_ofNat (n := n / 64 % 32 + 0xC0) (by omega)
    have hb := toNat_ofNat (n := n % 64 + 0x80) (by omega)
    have hseq := Sequence.two (a := UInt8.ofNat (n / 64 % 32 + 0xC0)) (b := UInt8.ofNat (n % 64 + 0x80))
      (by omega) ⟨by omega, by omega⟩
    rw [ha, hb] at hseq
    convert hseq using 1
    omega
  · have ha := toNat_ofNat (n := n / 4096 % 16 + 0xE0) (by omega)
    have hb := toNat_ofNat (n := n / 64 % 64 + 0x80) (by omega)
    have hc := toNat_ofNat (n := n % 64 + 0x80) (by omega)
    have hseq := Sequence.three (a := UInt8.ofNat (n / 4096 % 16 + 0xE0))
      (b := UInt8.ofNat (n / 64 % 64 + 0x80)) (c := UInt8.ofNat (n % 64 + 0x80))
      (by omega) ⟨by omega, by omega⟩ ⟨by omega, by omega⟩ (by omega) (by omega)
    rw [ha, hb, hc] at hseq
    convert hseq using 1
    omega
  · have ha := toNat_ofNat (n := n / 262144 % 8 + 0xF0) (by omega)
    have hb := toNat_ofNat (n := n / 4096 % 64 + 0x80) (by omega)
    have hc := toNat_ofNat (n := n / 64 % 64 + 0x80) (by omega)
    have hd := toNat_ofNat (n := n % 64 + 0x80) (by omega)
    have hseq := Sequence.four (a := UInt8.ofNat (n / 262144 % 8 + 0xF0))
      (b := UInt8.ofNat (n / 4096 % 64 + 0x80)) (c := UInt8.ofNat (n / 64 % 64 + 0x80))
      (d := UInt8.ofNat (n % 64 + 0x80)) (by omega) ⟨by omega, by omega⟩ ⟨by omega, by omega⟩
      ⟨by omega, by omega⟩ (by omega) (by omega)
    rw [ha, hb, hc, hd] at hseq
    convert hseq using 1
    omega

theorem sequence_iff {l : List UInt8} {n : ℕ} :
    Sequence l n ↔ ∃ c : Char, c.toNat = n ∧ String.utf8EncodeChar c = l := by
  constructor
  · intro h
    have hvalid := h.valid
    have hcode : (Char.ofNatAux n hvalid).toNat = n := rfl
    refine ⟨Char.ofNatAux n hvalid, hcode, ?_⟩
    rw [utf8EncodeChar_eq, hcode, h.encode]
  · rintro ⟨c, rfl, rfl⟩
    exact sequence_encode c.valid

/-! ## The first character of a text -/

/-- The first character: how many octets it has after `a`, and its code. -/
def first (a : UInt8) (s : List UInt8) : Option (ℕ × ℕ) :=
  if a.toNat ≤ 0x7F then some (0, a.toNat)
  else if 0xC2 ≤ a.toNat ∧ a.toNat ≤ 0xDF then
    match s with
    | b :: _ => if Tail b then some (1, a.toNat % 32 * 64 + b.toNat % 64) else none
    | [] => none
  else if 0xE0 ≤ a.toNat ∧ a.toNat ≤ 0xEF then
    match s with
    | b :: c :: _ =>
        if (Tail b ∧ Tail c) ∧ (a.toNat = 0xE0 → 0xA0 ≤ b.toNat) ∧
            (a.toNat = 0xED → b.toNat < 0xA0) then
          some (2, a.toNat % 16 * 4096 + b.toNat % 64 * 64 + c.toNat % 64)
        else none
    | _ => none
  else if 0xF0 ≤ a.toNat ∧ a.toNat ≤ 0xF4 then
    match s with
    | b :: c :: d :: _ =>
        if (Tail b ∧ Tail c ∧ Tail d) ∧ (a.toNat = 0xF0 → 0x90 ≤ b.toNat) ∧
            (a.toNat = 0xF4 → b.toNat < 0x90) then
          some (3, a.toNat % 8 * 262144 + b.toNat % 64 * 4096 + c.toNat % 64 * 64 +
            d.toNat % 64)
        else none
    | _ => none
  else none

theorem first_sequence {a : UInt8} {s : List UInt8} {n k : ℕ} (h : first a s = some (n, k)) :
    ∃ l rest, Sequence l k ∧ a :: s = l ++ rest ∧ n + 1 = l.length := by
  unfold first at h
  split_ifs at h with h₁ h₂ h₃ h₄
  · simp only [Option.some.injEq, Prod.mk.injEq] at h
    obtain ⟨rfl, rfl⟩ := h
    exact ⟨[a], s, .one h₁, rfl, rfl⟩
  · cases s with
    | nil => simp at h
    | cons b s =>
        simp only [Option.ite_none_right_eq_some, Option.some.injEq, Prod.mk.injEq] at h
        obtain ⟨hb, rfl, rfl⟩ := h
        exact ⟨[a, b], s, .two h₂ hb, rfl, rfl⟩
  · match s with
    | [] => simp at h
    | [b] => simp at h
    | b :: c :: s =>
        simp only [Option.ite_none_right_eq_some, Option.some.injEq, Prod.mk.injEq] at h
        obtain ⟨⟨⟨hb, hc⟩, hlong, hsurrogate⟩, rfl, rfl⟩ := h
        exact ⟨[a, b, c], s, .three h₃ hb hc hlong hsurrogate, rfl, rfl⟩
  · match s with
    | [] => simp at h
    | [b] => simp at h
    | [b, c] => simp at h
    | b :: c :: d :: s =>
        simp only [Option.ite_none_right_eq_some, Option.some.injEq, Prod.mk.injEq] at h
        obtain ⟨⟨⟨hb, hc, hd⟩, hlong, hlarge⟩, rfl, rfl⟩ := h
        exact ⟨[a, b, c, d], s, .four h₄ hb hc hd hlong hlarge, rfl, rfl⟩

theorem Sequence.first {l rest s : List UInt8} {a : UInt8} {k : ℕ} (h : Sequence l k)
    (he : a :: s = l ++ rest) : first a s = some (l.length - 1, k) := by
  unfold Utf8.first
  cases h with
  | one ha =>
      obtain ⟨rfl, rfl⟩ := List.cons.inj he
      rw [if_pos ha]
      rfl
  | two ha hb =>
      obtain ⟨rfl, rfl⟩ := List.cons.inj he
      rw [if_neg (by omega), if_pos ha]
      exact if_pos hb
  | three ha hb hc hlong hsurrogate =>
      obtain ⟨rfl, rfl⟩ := List.cons.inj he
      rw [if_neg (by omega), if_neg (by omega), if_pos ha]
      exact if_pos ⟨⟨hb, hc⟩, hlong, hsurrogate⟩
  | four ha hb hc hd hlong hlarge =>
      obtain ⟨rfl, rfl⟩ := List.cons.inj he
      rw [if_neg (by omega), if_neg (by omega), if_neg (by omega), if_pos ha]
      exact if_pos ⟨⟨hb, hc, hd⟩, hlong, hlarge⟩

/-! ## Reading a text to its end -/

/-- The text of some characters. -/
def WellFormed (bytes : List UInt8) : Prop :=
  ∃ cs : List Char, bytes = cs.flatMap String.utf8EncodeChar

section
variable {α ε β γ : Type}

/-- The loop of a reader. A turn at the element `a` before `s` takes `n` elements of `s` and
gives some output, or it fails. -/
def scan (turn : α → List α → Except ε (ℕ × β)) : List α → Except ε (List β)
  | [] => .ok []
  | a :: s =>
      match turn a s with
      | .error e => .error e
      | .ok (n, out) =>
          match scan turn (s.drop n) with
          | .error e => .error e
          | .ok outs => .ok (out :: outs)
  termination_by l => l.length

/-- A turn takes what `enc` writes for some `x`, and nothing else. -/
def Reads (turn : α → List α → Except ε (ℕ × β)) (enc : γ → List α) (out : γ → β) : Prop :=
  ∀ a s n o, turn a s = .ok (n, o) ↔
    ∃ x rest, a :: s = enc x ++ rest ∧ n + 1 = (enc x).length ∧ o = out x

variable {turn : α → List α → Except ε (ℕ × β)} {enc : γ → List α} {out : γ → β}

theorem drop_of_append {a : α} {s l rest : List α} {n : ℕ} (h : a :: s = l ++ rest)
    (hn : n + 1 = l.length) : s.drop n = rest := by
  have hdrop : (a :: s).drop (n + 1) = s.drop n := rfl
  rw [← hdrop, h, hn, List.drop_left]

/-- The turn on a text that begins with what is written for `x`. -/
theorem Reads.turn_of_cons (h : Reads turn enc out) (hne : ∀ x, enc x ≠ []) {a : α} {s : List α}
    {x : γ} {xs : List γ} (hl : a :: s = (x :: xs).flatMap enc) :
    s.drop ((enc x).length - 1) = xs.flatMap enc ∧
      turn a s = .ok ((enc x).length - 1, out x) := by
  have hlen : (enc x).length - 1 + 1 = (enc x).length :=
    Nat.sub_add_cancel (List.length_pos_iff.mpr (hne x))
  rw [List.flatMap_cons] at hl
  exact ⟨drop_of_append hl hlen, (h a s _ _).mpr ⟨x, _, hl, hlen, rfl⟩⟩

theorem Reads.scan_ok_iff (h : Reads turn enc out) (hne : ∀ x, enc x ≠ []) {l : List α}
    {outs : List β} : scan turn l = .ok outs ↔ ∃ xs : List γ, l = xs.flatMap enc ∧ outs = xs.map out := by
  induction l using scan.induct turn generalizing outs with
  | case1 =>
      rw [scan]
      constructor
      · intro he
        exact ⟨[], rfl, (Except.ok.inj he).symm⟩
      · rintro ⟨xs, hl, rfl⟩
        cases xs with
        | nil => rfl
        | cons x xs => exact absurd (List.append_eq_nil_iff.mp hl.symm).1 (hne x)
  | case2 a s e he =>
      simp only [scan, he, reduceCtorEq, false_iff]
      rintro ⟨xs, hl, -⟩
      cases xs with
      | nil => exact absurd hl (List.cons_ne_nil a s)
      | cons x xs =>
          have hok := (h.turn_of_cons hne hl).2
          rw [he] at hok
          cases hok
  | case3 a s n o he e hrest ih =>
      simp only [scan, he, hrest, reduceCtorEq, false_iff]
      rintro ⟨xs, hl, -⟩
      cases xs with
      | nil => exact absurd hl (List.cons_ne_nil a s)
      | cons x xs =>
          obtain ⟨hdrop, hok⟩ := h.turn_of_cons hne hl
          obtain ⟨rfl, -⟩ := Prod.mk.inj (Except.ok.inj (he.symm.trans hok))
          have hread := ih.mpr ⟨xs, hdrop, rfl⟩
          rw [hrest] at hread
          cases hread
  | case4 a s n o he outs' hrest ih =>
      simp only [scan, he, hrest, Except.ok.injEq]
      constructor
      · rintro rfl
        obtain ⟨x, rest, hl, hn, rfl⟩ := (h a s n o).mp he
        obtain ⟨xs, hdrop, rfl⟩ := ih.mp hrest
        refine ⟨x :: xs, ?_, rfl⟩
        rw [drop_of_append hl hn] at hdrop
        rw [hl, List.flatMap_cons, hdrop]
      · rintro ⟨xs, hl, rfl⟩
        cases xs with
        | nil => exact absurd hl (List.cons_ne_nil a s)
        | cons x xs =>
            obtain ⟨hdrop, hok⟩ := h.turn_of_cons hne hl
            obtain ⟨rfl, rfl⟩ := Prod.mk.inj (Except.ok.inj (he.symm.trans hok))
            have hread := ih.mpr ⟨xs, hdrop, rfl⟩
            rw [hrest] at hread
            rw [Except.ok.inj hread]
            rfl

theorem utf8EncodeChar_ne_nil (c : Char) : String.utf8EncodeChar c ≠ [] := by
  intro h
  have hseq := sequence_iff.mpr ⟨c, rfl, h⟩
  cases hseq

/-- A turn that agrees with `first` takes a character. -/
theorem reads_of_first {turn : UInt8 → List UInt8 → Except ε (ℕ × β)} {out : ℕ → β}
    (h : ∀ a s n o, turn a s = .ok (n, o) ↔ ∃ k, first a s = some (n, k) ∧ o = out k) :
    Reads turn String.utf8EncodeChar fun c => out c.toNat := by
  intro a s n o
  rw [h]
  constructor
  · rintro ⟨k, hfirst, rfl⟩
    obtain ⟨l, rest, hseq, hl, hn⟩ := first_sequence hfirst
    obtain ⟨c, rfl, rfl⟩ := sequence_iff.mp hseq
    exact ⟨c, rest, hl, hn, rfl⟩
  · rintro ⟨c, rest, hl, hn, rfl⟩
    have hfirst := (sequence_iff.mpr ⟨c, rfl, rfl⟩).first hl
    rw [← hn] at hfirst
    exact ⟨c.toNat, hfirst, rfl⟩

theorem scan_text {turn : UInt8 → List UInt8 → Except ε (ℕ × β)} {out : ℕ → β}
    (h : ∀ a s n o, turn a s = .ok (n, o) ↔ ∃ k, first a s = some (n, k) ∧ o = out k)
    {bytes : List UInt8} {outs : List β} :
    scan turn bytes = .ok outs ↔ ∃ cs : List Char,
      bytes = cs.flatMap String.utf8EncodeChar ∧ outs = cs.map fun c => out c.toNat :=
  (reads_of_first h).scan_ok_iff utf8EncodeChar_ne_nil

theorem scan_isOk {turn : UInt8 → List UInt8 → Except ε (ℕ × β)} {out : ℕ → β}
    (h : ∀ a s n o, turn a s = .ok (n, o) ↔ ∃ k, first a s = some (n, k) ∧ o = out k)
    (bytes : List UInt8) : (scan turn bytes).isOk = true ↔ WellFormed bytes := by
  constructor
  · intro hok
    cases hscan : scan turn bytes with
    | error e =>
        rw [hscan] at hok
        cases hok
    | ok outs =>
        obtain ⟨cs, hbytes, -⟩ := (scan_text h).mp hscan
        exact ⟨cs, hbytes⟩
  · rintro ⟨cs, hbytes⟩
    rw [(scan_text h).mpr ⟨cs, hbytes, rfl⟩]
    rfl

theorem scan_cons (turn : α → List α → Except ε (ℕ × β)) (a : α) (s : List α) :
    (scan turn (a :: s)).toOption = (turn a s).toOption.bind fun p =>
      (scan turn (s.drop p.1)).toOption.map fun outs => p.2 :: outs := by
  rw [scan]
  cases turn a s with
  | error e => rfl
  | ok p =>
      cases hrest : scan turn (s.drop p.1) with
      | error e => simp [hrest, Except.toOption]
      | ok outs => simp [hrest, Except.toOption]

theorem drop_pairs (hi lo : γ → α) (n : ℕ) (s : List γ) :
    (s.flatMap fun x => [hi x, lo x]).drop (2 * n) =
      (s.drop n).flatMap fun x => [hi x, lo x] := by
  induction n generalizing s with
  | zero => rfl
  | succ n ih =>
      cases s with
      | nil => rfl
      | cons b s => exact ih s

/-- A reader of pairs that takes `2 * n + 1` elements where another takes `n`. -/
theorem scan_pairs {ε' : Type} {turn : α → List α → Except ε (ℕ × β)}
    {turn' : γ → List γ → Except ε' (ℕ × β)} {hi lo : γ → α}
    (h : ∀ b s, (turn (hi b) (lo b :: s.flatMap fun x => [hi x, lo x])).toOption =
      (turn' b s).toOption.map fun p => (2 * p.1 + 1, p.2)) :
    ∀ l : List γ, (scan turn (l.flatMap fun x => [hi x, lo x])).toOption = (scan turn' l).toOption
  | [] => by
      rw [List.flatMap_nil, scan, scan]
      rfl
  | b :: s => by
      rw [List.flatMap_cons, List.cons_append, List.cons_append, List.nil_append, scan_cons,
        scan_cons, h]
      cases (turn' b s).toOption with
      | none => rfl
      | some p =>
          simp only [Option.map_some, Option.bind_some]
          rw [List.drop_succ_cons, drop_pairs, scan_pairs h (s.drop p.1)]
  termination_by l => l.length
  decreasing_by
    simp only [List.length_drop, List.length_cons]
    omega

end

/-! ## Cutting a text -/

theorem Sequence.cons {a : UInt8} {l : List UInt8} {n : ℕ} (h : Sequence (a :: l) n) :
    ¬Tail a ∧ ∀ b ∈ l, Tail b := by
  unfold Tail
  cases h with
  | one ha => exact ⟨by omega, by simp⟩
  | two ha hb => exact ⟨by omega, List.forall_mem_singleton.mpr hb⟩
  | three ha hb hc hlong hsurrogate => exact ⟨by omega, forall_mem_pair hb hc⟩
  | four ha hb hc hd hlong hlarge =>
      exact ⟨by omega, List.forall_mem_cons.mpr ⟨hb, forall_mem_pair hc hd⟩⟩

/-- What begins with a character goes on as a text. -/
theorem wellFormed_char_append {c : Char} {t : List UInt8} :
    WellFormed (String.utf8EncodeChar c ++ t) ↔ WellFormed t := by
  constructor
  · rintro ⟨cs, hcs⟩
    obtain ⟨a, l, hl⟩ := List.exists_cons_of_ne_nil (utf8EncodeChar_ne_nil c)
    have hstart : a :: (l ++ t) = String.utf8EncodeChar c ++ t := by rw [hl, List.cons_append]
    have hc := (sequence_iff.mpr ⟨c, rfl, rfl⟩).first hstart
    cases cs with
    | nil =>
        rw [hl] at hcs
        cases hcs
    | cons d ds =>
        rw [List.flatMap_cons] at hcs
        have hd := (sequence_iff.mpr ⟨d, rfl, rfl⟩).first (hstart.trans hcs)
        rw [hc] at hd
        have hlength := congrArg Prod.fst (Option.some.inj hd)
        have hcpos := List.length_pos_iff.mpr (utf8EncodeChar_ne_nil c)
        have hdpos := List.length_pos_iff.mpr (utf8EncodeChar_ne_nil d)
        dsimp only at hlength
        exact ⟨ds, (List.append_inj hcs (by omega)).2⟩
  · rintro ⟨cs, rfl⟩
    exact ⟨c :: cs, List.flatMap_cons.symm⟩

theorem WellFormed.append_iff {s t : List UInt8} (hs : WellFormed s) :
    WellFormed (s ++ t) ↔ WellFormed t := by
  obtain ⟨cs, rfl⟩ := hs
  induction cs with
  | nil => rfl
  | cons c cs ih => rw [List.flatMap_cons, List.append_assoc, wellFormed_char_append, ih]

/-- What is in front of an octet is a text where the octet begins a character. -/
theorem WellFormed.cut_iff {s t : List UInt8} {b : UInt8} (h : WellFormed (s ++ b :: t)) :
    WellFormed s ↔ ¬Tail b := by
  constructor
  · intro hs
    obtain ⟨cs, hcs⟩ := hs.append_iff.mp h
    cases cs with
    | nil => cases hcs
    | cons c cs =>
        obtain ⟨a, l, hl⟩ := List.exists_cons_of_ne_nil (utf8EncodeChar_ne_nil c)
        have hseq : Sequence (a :: l) c.toNat := sequence_iff.mpr ⟨c, rfl, hl⟩
        rw [List.flatMap_cons, hl] at hcs
        rw [(List.cons.inj hcs).1]
        exact hseq.cons.1
  · intro hb
    obtain ⟨cs, hcs⟩ := h
    induction cs generalizing s with
    | nil => simp at hcs
    | cons c cs ih =>
        rw [List.flatMap_cons] at hcs
        rcases List.append_eq_append_iff.mp hcs with ⟨u, hu, ht⟩ | ⟨u, rfl, hu⟩
        · -- The octet would be among those behind the first one of `c`.
          cases s with
          | nil => exact ⟨[], rfl⟩
          | cons a s =>
              have hseq : Sequence (a :: (s ++ u)) c.toNat := sequence_iff.mpr ⟨c, rfl, hu⟩
              cases u with
              | nil =>
                  rw [List.append_nil] at hu
                  exact ⟨[c], by rw [List.flatMap_singleton, hu]⟩
              | cons d u =>
                  obtain ⟨rfl, -⟩ := List.cons.inj ht
                  exact absurd (hseq.cons.2 b (by simp)) hb
        · exact wellFormed_char_append.mpr (ih hu.symm)

end Utf8
