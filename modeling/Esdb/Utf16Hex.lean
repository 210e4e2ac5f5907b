import Esdb.AdapterText
import Mathlib.Data.List.Chain

/-!
# Strings of the script as hex digits

A string of the script is any sequence of 16-bit units. The units of characters are those
in which each high surrogate stands before a low one and each low one behind a high one;
`utf8ToHex` takes these, and `utf8FromHex` is its inverse on them.
-/
namespace Esdb.Utf16Hex

open Utf8 Utf8Readers Wire

def IsHigh (u : ℕ) : Prop := 0xd800 ≤ u ∧ u ≤ 0xdbff

def IsLow (u : ℕ) : Prop := 0xdc00 ≤ u ∧ u ≤ 0xdfff

/-- No surrogate is alone: of two neighbours the first is high where the second is low. No
neighbour, at either end, is as one that is no surrogate. -/
def Paired (s : List ℕ) : Prop := (0 :: (s ++ [0])).IsChain fun u v => IsHigh u ↔ IsLow v

/-! ## The characters of a string -/

theorem not_low_of_high {u : ℕ} (h : IsHigh u) : ¬IsLow u := fun hlow => by
  unfold IsHigh at h
  unfold IsLow at hlow
  omega

theorem toNat_ofNat {n : ℕ} (h : n.isValidChar) : (Char.ofNat n).toNat = n := by
  rw [Char.ofNat, dif_pos h]
  rfl

/-- A unit that is no surrogate is a character. -/
theorem units_single {u : ℕ} (hu : u < 0x10000) (hhigh : ¬IsHigh u) (hlow : ¬IsLow u) :
    ∃ c : Char, units c.toNat = [u] := by
  have hvalid : u.isValidChar := by
    unfold IsHigh at hhigh
    unfold IsLow at hlow
    by_cases h : u < 0xd800
    · exact .inl h
    · exact .inr ⟨by omega, by omega⟩
  refine ⟨Char.ofNat u, ?_⟩
  rw [toNat_ofNat hvalid, units, if_neg (by omega)]

/-- A pair of surrogates is a character. -/
theorem units_pair {u v : ℕ} (hu : IsHigh u) (hv : IsLow v) :
    ∃ c : Char, units c.toNat = [u, v] := by
  obtain ⟨hu₁, hu₂⟩ := hu
  obtain ⟨hv₁, hv₂⟩ := hv
  obtain ⟨k, hk⟩ : ∃ k, k = 0x10000 + (u - 0xd800) * 1024 + (v - 0xdc00) := ⟨_, rfl⟩
  have hvalid : k.isValidChar := .inr ⟨by omega, by omega⟩
  have hu : 0xD800 + (k - 0x10000) / 1024 = u := by omega
  have hv : 0xDC00 + (k - 0x10000) % 1024 = v := by omega
  exact ⟨Char.ofNat k, by rw [toNat_ofNat hvalid, units, if_pos (by omega), hu, hv]⟩

theorem units_cases (c : Char) : (∃ u, units c.toNat = [u] ∧ ¬IsHigh u ∧ ¬IsLow u) ∨
    ∃ u v, units c.toNat = [u, v] ∧ IsHigh u ∧ IsLow v := by
  have hvalid : c.toNat < 0xd800 ∨ 0xdfff < c.toNat ∧ c.toNat < 0x110000 := c.valid
  unfold units IsHigh IsLow
  split_ifs with h
  · exact .inr ⟨_, _, rfl, ⟨by omega, by omega⟩, by omega, by omega⟩
  · exact .inl ⟨_, rfl, by omega, by omega⟩

/-- Behind a unit that is no high surrogate, the paired units are the texts of characters. -/
theorem chain_text {s : List ℕ} (hs : ∀ u ∈ s, u < 0x10000) {p : ℕ} (hp : ¬IsHigh p) :
    ((p :: (s ++ [0])).IsChain fun u v => IsHigh u ↔ IsLow v) ↔
      ∃ cs : List Char, s = cs.flatMap fun c => units c.toNat := by
  have hzero : ¬IsLow 0 := by
    unfold IsLow
    omega
  constructor
  · intro h
    induction hn : s.length using Nat.strong_induction_on generalizing s p with
    | _ n ih =>
        cases s with
        | nil => exact ⟨[], rfl⟩
        | cons u s =>
            rw [List.cons_append, List.isChain_cons_cons] at h
            have hlow : ¬IsLow u := fun hu => hp (h.1.mpr hu)
            rw [List.forall_mem_cons] at hs
            rw [List.length_cons] at hn
            by_cases hhigh : IsHigh u
            · cases s with
              | nil => exact absurd ((List.isChain_cons_cons.mp h.2).1.mp hhigh) hzero
              | cons v s =>
                  obtain ⟨-, hpair⟩ := h
                  rw [List.cons_append, List.isChain_cons_cons] at hpair
                  have hv : IsLow v := hpair.1.mp hhigh
                  rw [List.length_cons] at hn
                  obtain ⟨c, hc⟩ := units_pair hhigh hv
                  obtain ⟨cs, rfl⟩ := ih s.length (by omega)
                    (List.forall_mem_cons.mp hs.2).2 (fun hvh => not_low_of_high hvh hv)
                    hpair.2 rfl
                  exact ⟨c :: cs, by rw [List.flatMap_cons, hc]; rfl⟩
            · obtain ⟨c, hc⟩ := units_single hs.1 hhigh hlow
              obtain ⟨cs, rfl⟩ := ih s.length (by omega) hs.2 hhigh h.2 rfl
              exact ⟨c :: cs, by rw [List.flatMap_cons, hc]; rfl⟩
  · rintro ⟨cs, rfl⟩
    clear hs
    induction cs generalizing p with
    | nil =>
        exact List.isChain_cons_cons.mpr
          ⟨⟨fun h => absurd h hp, fun h => absurd h hzero⟩, List.IsChain.singleton 0⟩
    | cons c cs ih =>
        rw [List.flatMap_cons]
        rcases units_cases c with ⟨u, hu, hhigh, hlow⟩ | ⟨u, v, hu, hhigh, hlow⟩
        · rw [hu]
          exact List.isChain_cons_cons.mpr
            ⟨⟨fun h => absurd h hp, fun h => absurd h hlow⟩, ih hhigh⟩
        · rw [hu]
          have hv : ¬IsHigh v := fun h => not_low_of_high h hlow
          exact List.isChain_cons_cons.mpr
            ⟨⟨fun h => absurd h hp, fun h => absurd h (not_low_of_high hhigh)⟩,
              List.isChain_cons_cons.mpr ⟨⟨fun _ => hlow, fun _ => hhigh⟩, ih hv⟩⟩

theorem paired_iff {s : List ℕ} (hs : ∀ u ∈ s, u < 0x10000) :
    Paired s ↔ ∃ cs : List Char, s = cs.flatMap fun c => units c.toNat :=
  chain_text hs fun h => by
    unfold IsHigh at h
    omega

/-! ## Writing -/

theorem map_eq_ok {ε α β : Type} {f : α → β} {x : Except ε α} {b : β} (h : x.map f = .ok b) :
    ∃ a, x = .ok a := by
  cases x with
  | error e => cases h
  | ok a => exact ⟨a, rfl⟩

/-- What is written at all is the text of characters. -/
theorem text_of_utf8ToHex {s : List ℕ} (hs : ∀ u ∈ s, u < 0x10000) {out : List Char}
    (h : utf8ToHex s = .ok out) : ∃ cs : List Char, s = cs.flatMap fun c => units c.toNat := by
  induction hn : s.length using Nat.strong_induction_on generalizing s out with
  | _ n ih =>
      cases s with
      | nil => exact ⟨[], rfl⟩
      | cons u s =>
          rw [List.forall_mem_cons] at hs
          rw [List.length_cons] at hn
          have hsingle : ¬IsHigh u → ¬IsLow u → (∃ rest, utf8ToHex s = .ok rest) →
              ∃ cs : List Char, u :: s = cs.flatMap fun c => units c.toNat := by
            rintro hhigh hlow ⟨rest, hrest⟩
            obtain ⟨c, hc⟩ := units_single hs.1 hhigh hlow
            obtain ⟨cs, rfl⟩ := ih s.length (by omega) hs.2 hrest rfl
            exact ⟨c :: cs, by rw [List.flatMap_cons, hc]; rfl⟩
          rw [utf8ToHex.eq_def] at h
          dsimp only at h
          by_cases h₁ : u ≤ 0x7f
          · rw [if_pos h₁] at h
            exact hsingle (fun hu => by unfold IsHigh at hu; omega)
              (fun hu => by unfold IsLow at hu; omega) (map_eq_ok h)
          · rw [if_neg h₁] at h
            by_cases h₂ : u ≤ 0x7ff
            · rw [if_pos h₂] at h
              exact hsingle (fun hu => by unfold IsHigh at hu; omega)
                (fun hu => by unfold IsLow at hu; omega) (map_eq_ok h)
            · rw [if_neg h₂] at h
              by_cases hhigh : 0xd800 ≤ u ∧ u ≤ 0xdbff
              · rw [if_pos hhigh] at h
                cases s with
                | nil => cases h
                | cons v s =>
                    dsimp only at h
                    by_cases hlow : v < 0xdc00 ∨ 0xdfff < v
                    · rw [if_pos hlow] at h
                      cases h
                    · rw [if_neg hlow] at h
                      rw [List.length_cons] at hn
                      obtain ⟨rest, hrest⟩ := map_eq_ok h
                      obtain ⟨c, hc⟩ := units_pair hhigh
                        (show IsLow v from ⟨by omega, by omega⟩)
                      obtain ⟨cs, rfl⟩ := ih s.length (by omega)
                        (List.forall_mem_cons.mp hs.2).2 hrest rfl
                      exact ⟨c :: cs, by rw [List.flatMap_cons, hc]; rfl⟩
              · rw [if_neg hhigh] at h
                by_cases hlow : 0xdc00 ≤ u ∧ u ≤ 0xdfff
                · rw [if_pos hlow] at h
                  cases h
                · rw [if_neg hlow] at h
                  exact hsingle hhigh hlow (map_eq_ok h)

/-! ## Reading -/

/-- What is read are the units of characters, from the digits of their bytes. -/
theorem text_of_utf8FromHex {hex : List Char} {out : List ℕ} (h : utf8FromHex hex = .ok out) :
    ∃ cs : List Char, out = (cs.flatMap fun c => units c.toNat) ∧
      hex.map Char.toUpper = upperHex (cs.flatMap String.utf8EncodeChar) := by
  unfold utf8FromHex hexBytes at h
  cases hnorm : normalizeHex hex with
  | error e =>
      rw [hnorm] at h
      cases h
  | ok upper =>
      have hupper : upper = hex.map Char.toUpper := by
        unfold normalizeHex at hnorm
        split_ifs at hnorm
        exact (Except.ok.inj hnorm).symm
      obtain ⟨bytes, -, rfl⟩ := normalizeHex_eq_ok hnorm
      rw [hnorm] at h
      simp only [Except.map, pairs_upperHex] at h
      cases hscan : scan utf8FromHexTurn bytes with
      | error e =>
          rw [hscan] at h
          cases h
      | ok outs =>
          rw [hscan] at h
          obtain ⟨cs, rfl, rfl⟩ := (scan_text (ok_iff_of_toOption utf8FromHexTurn_eq)).mp hscan
          exact ⟨cs, (Except.ok.inj h).symm, hupper.symm⟩

/-- Writing and reading undo each other: on the strings without a lone surrogate, which are
those that can be written, and on the digits that can be read. -/
theorem hex_round_trip :
    (∀ s : List UInt16, Paired (s.map UInt16.toNat) → ∃ bytes, WellFormed bytes ∧
      utf8ToHex (s.map UInt16.toNat) = .ok (upperHex bytes) ∧
      utf8FromHex (upperHex bytes) = .ok (s.map UInt16.toNat)) ∧
    (∀ s : List UInt16, ¬Paired (s.map UInt16.toNat) →
      ∃ message, utf8ToHex (s.map UInt16.toNat) = .error message) ∧
    (∀ hex out, utf8FromHex hex = .ok out → utf8ToHex out = .ok (hex.map Char.toUpper)) := by
  have hunits : ∀ s : List UInt16, ∀ u ∈ s.map UInt16.toNat, u < 0x10000 := by
    intro s u hu
    obtain ⟨w, -, rfl⟩ := List.mem_map.mp hu
    exact w.toNat_lt
  refine ⟨fun s h => ?_, fun s h => ?_, fun hex out h => ?_⟩
  · obtain ⟨cs, hcs⟩ := (paired_iff (hunits s)).mp h
    rw [hcs]
    exact ⟨_, ⟨cs, rfl⟩, utf8ToHex_text cs, utf8FromHex_text cs⟩
  · cases hrun : utf8ToHex (s.map UInt16.toNat) with
    | error e => exact ⟨e, rfl⟩
    | ok out =>
        exact absurd ((paired_iff (hunits s)).mpr (text_of_utf8ToHex (hunits s) hrun)) h
  · obtain ⟨cs, rfl, hupper⟩ := text_of_utf8FromHex h
    rw [utf8ToHex_text, hupper]

end Esdb.Utf16Hex
