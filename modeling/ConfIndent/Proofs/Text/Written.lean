import ConfIndent.Proofs.Text.Fragments

/-!
# Reading What Was Written

A text that is written in UTF-8 is read as what it was. With the other direction, which
says that what was read is written as it was, this makes texts and the byte strings that
are text two forms of one thing.

A character begun asks for certain bytes, and the bytes that complete it are what it asks
for, so the reader gathers them up to the last and then has the character. That this is
the character that was written is arithmetic for each number of bytes: the first byte
tells the number, and the ranges of the second leave out no character that is written so.
A text is then read character by character, since none begins with a byte that goes on
with another.

## Theorems

* `Utf8.fragments_of_lead?`: Bytes that complete a character are read as it.
* `Utf8.fragments_encodeChar`: A character is read from its bytes.
* `Utf8.fragments_encode`, `Utf8.decode?_encode`: A text is read from its bytes.
-/

namespace ConfIndent.Utf8

/-- The bytes that complete a character end it. -/
theorem feedAll_of_completes {p : Pending} {rest : Bytes} (h : p.Completes rest) :
    feedAll (some p) rest = [.char (Char.ofNat (valueWith p.value rest))] := by
  induction rest generalizing p with
  | nil => exact h.elim
  | cons b rest ih =>
    rcases h with ⟨hb, hlength, hrest⟩
    rw [feedAll, feed]
    rcases howed : p.owed with _ | n
    · rw [howed, List.length_eq_zero_iff] at hlength
      simp only [if_pos hb, hlength, feedAll, List.append_nil]
      rfl
    · -- The next byte goes on with the character, which then lacks one byte less.
      simp only [if_pos hb, List.nil_append]
      rcases rest with _ | ⟨c, rest⟩
      · rw [howed] at hlength
        exact absurd hlength (Nat.succ_ne_zero n).symm
      · rw [howed, List.length_cons, Nat.add_right_cancel_iff] at hlength
        have hnext : Pending.Completes
            ⟨p.read ++ [b], p.value * 64 + b.toNat % 64, 0x80, 0xBF, n⟩ (c :: rest) :=
          ⟨hrest c List.mem_cons_self, hlength, fun d hd => hrest d (List.mem_cons_of_mem _ hd)⟩
        rw [ih hnext]
        rfl

/-- A first byte above ASCII begins a character, and the others complete it. -/
theorem fragments_of_lead? {a : UInt8} {p : Pending} (hlead : lead? a = some p) {rest : Bytes}
    (ha : 0x80 ≤ a.toNat) (h : p.Completes rest) :
    fragments (a :: rest) = [.char (Char.ofNat (valueWith p.value rest))] := by
  have hlt : ¬a < 0x80 := by
    rw [UInt8.lt_iff_toNat_lt]
    exact Nat.not_lt.2 ha
  rw [fragments, feedAll, feed, start, if_neg hlt, hlead]
  exact feedAll_of_completes h

section Leads

variable {a : UInt8}

theorem lead?_two (ha : 0xC2 ≤ a.toNat ∧ a.toNat ≤ 0xDF) :
    lead? a = some ⟨[a], a.toNat - 0xC0, 0x80, 0xBF, 0⟩ := by
  rw [lead?, if_pos ⟨UInt8.le_iff_toNat_le.2 ha.1, UInt8.le_iff_toNat_le.2 ha.2⟩]

theorem lead?_three (ha : 0xE0 ≤ a.toNat ∧ a.toNat ≤ 0xEF) :
    lead? a = some ⟨[a], a.toNat - 0xE0, if a = 0xE0 then 0xA0 else 0x80,
      if a = 0xED then 0x9F else 0xBF, 1⟩ := by
  by_cases hlong : a = 0xE0
  · rw [hlong]
    rfl
  by_cases hvalid : a = 0xED
  · rw [hvalid]
    rfl
  have htwo : ¬(0xC2 ≤ a ∧ a ≤ 0xDF) := by
    rw [UInt8.le_iff_toNat_le, UInt8.le_iff_toNat_le]
    exact fun h => absurd (Nat.le_trans ha.1 h.2) (by decide)
  have hthree : 0xE1 ≤ a ∧ a ≤ 0xEF := by
    rw [← UInt8.toNat_inj] at hlong
    rw [UInt8.le_iff_toNat_le, UInt8.le_iff_toNat_le]
    exact ⟨Nat.lt_of_le_of_ne ha.1 (Ne.symm hlong), ha.2⟩
  rw [lead?, if_neg htwo, if_neg hlong, if_neg hvalid, if_pos hthree, if_neg hlong, if_neg hvalid]

theorem lead?_four (ha : 0xF0 ≤ a.toNat ∧ a.toNat ≤ 0xF4) :
    lead? a = some ⟨[a], a.toNat - 0xF0, if a = 0xF0 then 0x90 else 0x80,
      if a = 0xF4 then 0x8F else 0xBF, 2⟩ := by
  by_cases hlong : a = 0xF0
  · rw [hlong]
    rfl
  by_cases hvalid : a = 0xF4
  · rw [hvalid]
    rfl
  have htwo : ¬(0xC2 ≤ a ∧ a ≤ 0xDF) := by
    rw [UInt8.le_iff_toNat_le, UInt8.le_iff_toNat_le]
    exact fun h => absurd (Nat.le_trans ha.1 h.2) (by decide)
  have hthree {b : UInt8} (hb : b.toNat < 0xF0) : a ≠ b := by
    rintro rfl
    omega
  have hthree' : ¬(0xE1 ≤ a ∧ a ≤ 0xEF) := by
    rw [UInt8.le_iff_toNat_le, UInt8.le_iff_toNat_le]
    exact fun h => absurd (Nat.le_trans ha.1 h.2) (by decide)
  have hfour : 0xF1 ≤ a ∧ a ≤ 0xF3 := by
    rw [← UInt8.toNat_inj] at hlong hvalid
    rw [UInt8.le_iff_toNat_le, UInt8.le_iff_toNat_le]
    exact ⟨Nat.lt_of_le_of_ne ha.1 (Ne.symm hlong),
      Nat.le_of_lt_succ (Nat.lt_of_le_of_ne ha.2 hvalid)⟩
  rw [lead?, if_neg htwo, if_neg (hthree (by decide)), if_neg (hthree (by decide)), if_neg hthree',
    if_neg hlong, if_neg hvalid, if_pos hfour, if_neg hlong, if_neg hvalid]

variable {b c d : UInt8}

theorem fragments_two (ha : 0xC2 ≤ a.toNat ∧ a.toNat ≤ 0xDF) (hb : Continues b) :
    fragments [a, b] = [.char (Char.ofNat (valueWith (a.toNat - 0xC0) [b]))] :=
  fragments_of_lead? (lead?_two ha) (by omega) ⟨hb, rfl, nofun⟩

theorem fragments_three (ha : 0xE0 ≤ a.toNat ∧ a.toNat ≤ 0xEF) (hb : Continues b)
    (hc : Continues c) (hlong : a = 0xE0 → 0xA0 ≤ b) (hvalid : a = 0xED → b ≤ 0x9F) :
    fragments [a, b, c] = [.char (Char.ofNat (valueWith (a.toNat - 0xE0) [b, c]))] := by
  refine fragments_of_lead? (lead?_three ha) (by omega)
    ⟨⟨?_, ?_⟩, rfl, List.forall_mem_singleton.2 hc⟩
  · simp only
    split
    · exact hlong ‹_›
    · exact hb.1
  · simp only
    split
    · exact hvalid ‹_›
    · exact hb.2

theorem fragments_four (ha : 0xF0 ≤ a.toNat ∧ a.toNat ≤ 0xF4) (hb : Continues b)
    (hc : Continues c) (hd : Continues d) (hlong : a = 0xF0 → 0x90 ≤ b)
    (hvalid : a = 0xF4 → b ≤ 0x8F) :
    fragments [a, b, c, d] = [.char (Char.ofNat (valueWith (a.toNat - 0xF0) [b, c, d]))] := by
  refine fragments_of_lead? (lead?_four ha) (by omega)
    ⟨⟨?_, ?_⟩, rfl, List.forall_mem_cons.2 ⟨hc, List.forall_mem_singleton.2 hd⟩⟩
  · simp only
    split
    · exact hlong ‹_›
    · exact hb.1
  · simp only
    split
    · exact hvalid ‹_›
    · exact hb.2

end Leads

theorem toNat_toUInt8 {n : Nat} (h : n < 256) : n.toUInt8.toNat = n := by
  rw [Nat.toUInt8_eq, UInt8.toNat_ofNat', Nat.mod_eq_of_lt h]

/-- The bytes of a character are read as that character. -/
theorem fragments_encodeChar (c : Char) : fragments (encodeChar c) = [.char c] := by
  have hn : c.toNat < 0xD800 ∨ 0xDFFF < c.toNat ∧ c.toNat < 0x110000 := c.valid
  have hchar : Char.ofNat c.toNat = c := Char.ofNat_toNat c
  simp only [encodeChar]
  generalize c.toNat = n at hn hchar
  subst hchar
  by_cases hone : n < 0x80
  · have hbyte : n.toUInt8.toNat = n := toNat_toUInt8 (by omega)
    have hlt : n.toUInt8 < 0x80 := by
      rw [UInt8.lt_iff_toNat_lt, hbyte]
      exact hone
    rw [if_pos hone, fragments_cons hlt, hbyte]
    rfl
  rw [if_neg hone]
  by_cases htwo : n < 0x800
  · have ha : (0xC0 + n / 64).toUInt8.toNat = 0xC0 + n / 64 := toNat_toUInt8 (by omega)
    have hb : (0x80 + n % 64).toUInt8.toNat = 0x80 + n % 64 := toNat_toUInt8 (by omega)
    rw [if_pos htwo, fragments_two (by omega) (continues_iff.2 (by omega))]
    simp only [valueWith, List.foldl_cons, List.foldl_nil, ha, hb]
    congr 3
    omega
  rw [if_neg htwo]
  by_cases hthree : n < 0x10000
  · have ha : (0xE0 + n / 4096).toUInt8.toNat = 0xE0 + n / 4096 := toNat_toUInt8 (by omega)
    have hb : (0x80 + n / 64 % 64).toUInt8.toNat = 0x80 + n / 64 % 64 := toNat_toUInt8 (by omega)
    have hc : (0x80 + n % 64).toUInt8.toNat = 0x80 + n % 64 := toNat_toUInt8 (by omega)
    rw [if_pos hthree, fragments_three (by omega) (continues_iff.2 (by omega))
      (continues_iff.2 (by omega))]
    · simp only [valueWith, List.foldl_cons, List.foldl_nil, ha, hb, hc]
      congr 3
      omega
    · rw [← UInt8.toNat_inj, UInt8.le_iff_toNat_le, ha, hb]
      change 0xE0 + n / 4096 = 0xE0 → 0xA0 ≤ 0x80 + n / 64 % 64
      omega
    · rw [← UInt8.toNat_inj, UInt8.le_iff_toNat_le, ha, hb]
      change 0xE0 + n / 4096 = 0xED → 0x80 + n / 64 % 64 ≤ 0x9F
      omega
  rw [if_neg hthree]
  have ha : (0xF0 + n / 262144).toUInt8.toNat = 0xF0 + n / 262144 := toNat_toUInt8 (by omega)
  have hb : (0x80 + n / 4096 % 64).toUInt8.toNat = 0x80 + n / 4096 % 64 :=
    toNat_toUInt8 (by omega)
  have hc : (0x80 + n / 64 % 64).toUInt8.toNat = 0x80 + n / 64 % 64 := toNat_toUInt8 (by omega)
  have hd : (0x80 + n % 64).toUInt8.toNat = 0x80 + n % 64 := toNat_toUInt8 (by omega)
  rw [fragments_four (by omega) (continues_iff.2 (by omega)) (continues_iff.2 (by omega))
    (continues_iff.2 (by omega))]
  · simp only [valueWith, List.foldl_cons, List.foldl_nil, ha, hb, hc, hd]
    congr 3
    omega
  · rw [← UInt8.toNat_inj, UInt8.le_iff_toNat_le, ha, hb]
    change 0xF0 + n / 262144 = 0xF0 → 0x90 ≤ 0x80 + n / 4096 % 64
    omega
  · rw [← UInt8.toNat_inj, UInt8.le_iff_toNat_le, ha, hb]
    change 0xF0 + n / 262144 = 0xF4 → 0x80 + n / 4096 % 64 ≤ 0x8F
    omega

-- No character begins with a byte that goes on with another.
theorem not_continues_of_head?_encodeChar (c : Char) :
    ∀ b ∈ (encodeChar c).head?, ¬Continues b := by
  have hn : c.toNat < 0x110000 := by
    rcases c.valid with hlow | ⟨-, hhigh⟩
    · exact Nat.lt_trans hlow (by decide)
    · exact hhigh
  simp only [encodeChar]
  intro b hb
  rw [continues_iff]
  split at hb
  · cases hb
    rw [toNat_toUInt8 (by omega)]
    omega
  split at hb
  · cases hb
    rw [toNat_toUInt8 (by omega)]
    omega
  split at hb
  · cases hb
    rw [toNat_toUInt8 (by omega)]
    omega
  · cases hb
    rw [toNat_toUInt8 (by omega)]
    omega

/-- No text begins in the middle of a character. -/
theorem not_continues_of_head?_encode (text : List Char) :
    ∀ b ∈ (encode text).head?, ¬Continues b := by
  rcases text with _ | ⟨c, text⟩
  · exact fun b hb => nomatch hb
  · have hhead := not_continues_of_head?_encodeChar c
    rcases List.exists_cons_of_ne_nil (encodeChar_ne_nil c) with ⟨b, rest, hbytes⟩
    rw [hbytes] at hhead
    rw [encode_cons, hbytes]
    exact hhead

/-- A text is read as its characters from the bytes it is written in. -/
theorem fragments_encode (text : List Char) : fragments (encode text) = text.map .char := by
  induction text with
  | nil => rfl
  | cons c text ih =>
    rw [encode_cons, fragments_append _ (not_continues_of_head?_encode text),
      fragments_encodeChar, ih]
    rfl

/-- What was written is read strictly. -/
theorem decode?_encode (text : List Char) : decode? (encode text) = some text := by
  rw [decode?, fragments_encode, List.mapM_map]
  exact (List.mapM_pure (m := Option)).trans (congrArg some text.map_id')

end ConfIndent.Utf8
