import ConfIndent.Bytes

/-!
# Numbers and Pieces

What is printed can be read. A number is found again in its digits, and a text
falls into the pieces it was put together from, as long as none of them holds a
separator.

## Main definitions

* `Bytes.toNat?`: The number that digits stand for.

## Theorems

* `Bytes.toNat?_ofNat`: A printed number is read back.
* `Bytes.pieces_intercalate`: Pieces that were joined are found again.
-/

namespace ConfIndent

namespace Bytes

/-- The number that a text of decimal digits stands for. -/
def toNat? (text : Bytes) : Option Nat :=
  let digits := text.map fun b => Char.ofNat b.toNat
  if digits ≠ [] ∧ digits.all Char.isDigit then some (Nat.ofDigitChars 10 digits 0) else none

theorem isDigit_le {c : Char} (h : c.isDigit) : 48 ≤ c.toNat ∧ c.toNat ≤ 57 := by
  simp only [Char.isDigit, Bool.and_eq_true, decide_eq_true_eq, ge_iff_le,
    UInt32.le_iff_toNat_le] at h
  exact h

theorem toNat_toUInt8_of_isDigit {c : Char} (h : c.isDigit) : c.toNat.toUInt8.toNat = c.toNat := by
  have hc := isDigit_le h
  rw [Nat.toUInt8_eq, UInt8.toNat_ofNat', Nat.mod_eq_of_lt (by omega)]

/-- A number is written in its decimal digits. -/
theorem map_ofNat (n : Nat) :
    (ofNat n).map (fun b => Char.ofNat b.toNat) = Nat.toDigits 10 n := by
  have hid : ∀ c ∈ Nat.toDigits 10 n, Char.ofNat c.toNat.toUInt8.toNat = c := by
    intro c hc
    have hdigit := Nat.isDigit_of_mem_toDigits (by omega) (by omega) hc
    rw [toNat_toUInt8_of_isDigit hdigit, Char.ofNat_toNat]
  rw [ofNat, List.map_map]
  exact (List.map_congr_left hid).trans (List.map_id _)

/-- A printed number is read back. -/
theorem toNat?_ofNat (n : Nat) : toNat? (ofNat n) = some n := by
  have hdigits : (Nat.toDigits 10 n).all Char.isDigit = true := by
    rw [List.all_eq_true]
    intro c hc
    exact Nat.isDigit_of_mem_toDigits (by omega) (by omega) hc
  rw [toNat?, map_ofNat, if_pos ⟨Nat.toDigits_ne_nil, hdigits⟩, Nat.ofDigitChars_ten_toDigits]

theorem le_of_mem_ofNat {n : Nat} {b : UInt8} (h : b ∈ ofNat n) : 48 ≤ b.toNat ∧ b.toNat ≤ 57 := by
  rcases List.mem_map.1 h with ⟨c, hc, rfl⟩
  have hdigit := Nat.isDigit_of_mem_toDigits (by omega) (by omega) hc
  rw [toNat_toUInt8_of_isDigit hdigit]
  exact isDigit_le hdigit

theorem not_mem_ofNat {n : Nat} {b : UInt8} (hb : b.toNat < 48) : b ∉ ofNat n := by
  intro h
  have := le_of_mem_ofNat h
  omega

/-- A text without a separator is one piece. -/
theorem pieces_of_not_mem {sep : UInt8} {text : Bytes} (h : sep ∉ text) :
    pieces sep text = [text] := by
  induction text with
  | nil => rfl
  | cons b text ih =>
    rw [List.mem_cons, not_or] at h
    rw [pieces, if_neg (Ne.symm h.1), ih h.2, consFirst]

/-- A text is cut at its first separator. -/
theorem pieces_append_cons {sep : UInt8} {text : Bytes} (h : sep ∉ text) (rest : Bytes) :
    pieces sep (text ++ sep :: rest) = text :: pieces sep rest := by
  induction text with
  | nil => rw [List.nil_append, pieces, if_pos rfl]
  | cons b text ih =>
    rw [List.mem_cons, not_or] at h
    rw [List.cons_append, pieces, if_neg (Ne.symm h.1), ih h.2, consFirst]

theorem mem_of_mem_consFirst {b c : UInt8} {ps : List Bytes} {p : Bytes} (hp : p ∈ consFirst b ps)
    (hc : c ∈ p) : c = b ∨ ∃ q ∈ ps, c ∈ q := by
  cases ps with
  | nil =>
    rw [consFirst, List.mem_singleton] at hp
    rw [hp, List.mem_singleton] at hc
    exact .inl hc
  | cons first ps =>
    rcases List.mem_cons.1 hp with rfl | hp
    · rcases List.mem_cons.1 hc with hc | hc
      · exact .inl hc
      · exact .inr ⟨first, List.mem_cons_self, hc⟩
    · exact .inr ⟨p, List.mem_cons_of_mem _ hp, hc⟩

theorem not_mem_of_mem_consFirst {sep b : UInt8} (hb : b ≠ sep) {ps : List Bytes}
    (h : ∀ p ∈ ps, sep ∉ p) : ∀ p ∈ consFirst b ps, sep ∉ p := by
  intro p hp hsep
  rcases mem_of_mem_consFirst hp hsep with rfl | ⟨q, hq, hmem⟩
  · exact hb rfl
  · exact h q hq hmem

/-- No piece holds a separator. -/
theorem not_mem_of_mem_pieces {sep : UInt8} {text : Bytes} :
    ∀ p ∈ pieces sep text, sep ∉ p := by
  induction text with
  | nil =>
    intro p hp
    rw [pieces, List.mem_singleton] at hp
    rw [hp]
    exact List.not_mem_nil
  | cons b text ih =>
    rw [pieces]
    by_cases hb : b = sep
    · rw [if_pos hb]
      intro p hp
      rcases List.mem_cons.1 hp with rfl | hp
      · exact List.not_mem_nil
      · exact ih p hp
    · rw [if_neg hb]
      exact not_mem_of_mem_consFirst hb ih

/-- The bytes of a piece are bytes of the text. -/
theorem mem_of_mem_pieces {sep c : UInt8} {text p : Bytes} (hp : p ∈ pieces sep text)
    (hc : c ∈ p) : c ∈ text := by
  induction text generalizing p with
  | nil =>
    rw [pieces, List.mem_singleton] at hp
    rwa [hp] at hc
  | cons b text ih =>
    rw [pieces] at hp
    by_cases hb : b = sep
    · rw [if_pos hb] at hp
      rcases List.mem_cons.1 hp with rfl | hp
      · exact absurd hc List.not_mem_nil
      · exact List.mem_cons_of_mem _ (ih hp hc)
    · rw [if_neg hb] at hp
      rcases mem_of_mem_consFirst hp hc with rfl | ⟨q, hq, hc⟩
      · exact List.mem_cons_self
      · exact List.mem_cons_of_mem _ (ih hq hc)

/-- Pieces that were joined are found again. -/
theorem pieces_intercalate {sep : UInt8} {ps : List Bytes} (hne : ps ≠ [])
    (h : ∀ p ∈ ps, sep ∉ p) : pieces sep (List.intercalate [sep] ps) = ps := by
  induction ps with
  | nil => exact absurd rfl hne
  | cons p ps ih =>
    -- Nothing is put behind the last piece.
    cases ps with
    | nil =>
      rw [List.intercalate_singleton]
      exact pieces_of_not_mem (h p List.mem_cons_self)
    | cons q qs =>
      rw [List.intercalate_cons_cons, List.append_assoc, List.singleton_append,
        pieces_append_cons (h p List.mem_cons_self), ih (List.cons_ne_nil _ _)]
      intro p' hp'
      exact h p' (List.mem_cons_of_mem _ hp')

end Bytes

end ConfIndent
