import ConfIndent.Proofs.Text.Utf8

/-!
# Reading Text in Parts

What the reader of UTF-8 makes of a byte string loses nothing, and it does not matter
where the string is cut, as long as no character is.

Both rest on what is known of a character begun. Only certain bytes can go on with it,
and all of them are continuation bytes, so any other byte starts anew and leaves what
was begun behind as if the text ended there. And the bytes that complete it are those
the character is written in, since the value is gathered from the very bits that
writing spreads over the bytes.

That a character is written in the bytes it was read from is arithmetic for each number
of bytes. The ranges of the second byte keep out what has a shorter form or is no
character.

## Main definitions

* `Utf8.Continues`: A byte that can only go on with a character.
* `Utf8.Fragment.bytes`: The bytes of a fragment.
* `Utf8.Pending.Proper`: What is known of a character begun.

## Theorems

* `Utf8.proper_of_lead?`, `Utf8.Pending.Proper.next`: Characters begun are proper.
* `Utf8.fragments_append`: Text is read in parts.
* `Utf8.flatMap_bytes_fragments`: The fragments hold the bytes they were read from.
* `Utf8.encode_of_decode?`: What was read strictly is written as it was.
-/

namespace ConfIndent.Utf8

/-- The byte can only go on with a character, not begin one. -/
def Continues (b : UInt8) : Prop :=
  0x80 ≤ b ∧ b ≤ 0xBF

/-- The bytes of a fragment. -/
def Fragment.bytes : Fragment → Bytes
  | char c => encodeChar c
  | stray bytes => bytes

/-- The value of a character begun, with the bits of more bytes. -/
def valueWith (value : Nat) (bytes : Bytes) : Nat :=
  bytes.foldl (fun n b => n * 64 + b.toNat % 64) value

namespace Pending

/-- The bytes complete the character. -/
def Completes (p : Pending) : Bytes → Prop
  | [] => False
  | b :: rest => (p.low ≤ b ∧ b ≤ p.high) ∧ rest.length = p.owed ∧ ∀ c ∈ rest, Continues c

/-- What is known of a character begun. Only continuation bytes go on with it, and it is
    written in the bytes read and those that complete it. -/
structure Proper (p : Pending) : Prop where
  low_ge : 0x80 ≤ p.low
  high_le : p.high ≤ 0xBF
  encodeChar_eq : ∀ rest, p.Completes rest →
    encodeChar (Char.ofNat (valueWith p.value rest)) = p.read ++ rest

end Pending

section Bytes

variable {a b c d : UInt8}

theorem toUInt8_eq {n : Nat} (h : n = a.toNat) : n.toUInt8 = a := by
  rw [h, Nat.toUInt8_eq, UInt8.ofNat_toNat]

theorem toNat_of_valid {n : Nat} (h : n < 0xD800 ∨ 0xDFFF < n ∧ n < 0x110000) :
    (Char.ofNat n).toNat = n := by
  rw [Char.ofNat, dif_pos h]
  rfl

theorem continues_iff : Continues b ↔ 0x80 ≤ b.toNat ∧ b.toNat ≤ 0xBF :=
  and_congr UInt8.le_iff_toNat_le UInt8.le_iff_toNat_le

theorem encodeChar_two (ha : 0xC2 ≤ a.toNat ∧ a.toNat ≤ 0xDF) (hb : Continues b) :
    encodeChar (Char.ofNat (valueWith (a.toNat - 0xC0) [b])) = [a, b] := by
  rw [continues_iff] at hb
  have hn : valueWith (a.toNat - 0xC0) [b] = (a.toNat - 0xC0) * 64 + b.toNat % 64 := rfl
  generalize valueWith _ _ = n at hn ⊢
  have hchar : (Char.ofNat n).toNat = n := toNat_of_valid (by omega)
  simp only [encodeChar, hchar]
  rw [if_neg (by omega), if_pos (by omega), toUInt8_eq (a := a) (by omega),
    toUInt8_eq (a := b) (by omega)]

theorem encodeChar_three (ha : 0xE0 ≤ a.toNat ∧ a.toNat ≤ 0xEF) (hb : Continues b)
    (hc : Continues c) (hlong : a.toNat = 0xE0 → 0xA0 ≤ b.toNat)
    (hvalid : a.toNat = 0xED → b.toNat ≤ 0x9F) :
    encodeChar (Char.ofNat (valueWith (a.toNat - 0xE0) [b, c])) = [a, b, c] := by
  rw [continues_iff] at hb hc
  have hn : valueWith (a.toNat - 0xE0) [b, c] =
      ((a.toNat - 0xE0) * 64 + b.toNat % 64) * 64 + c.toNat % 64 := rfl
  generalize valueWith _ _ = n at hn ⊢
  have hchar : (Char.ofNat n).toNat = n := toNat_of_valid (by omega)
  simp only [encodeChar, hchar]
  rw [if_neg (by omega), if_neg (by omega), if_pos (by omega), toUInt8_eq (a := a) (by omega),
    toUInt8_eq (a := b) (by omega), toUInt8_eq (a := c) (by omega)]

theorem encodeChar_four (ha : 0xF0 ≤ a.toNat ∧ a.toNat ≤ 0xF4) (hb : Continues b)
    (hc : Continues c) (hd : Continues d) (hlong : a.toNat = 0xF0 → 0x90 ≤ b.toNat)
    (hvalid : a.toNat = 0xF4 → b.toNat ≤ 0x8F) :
    encodeChar (Char.ofNat (valueWith (a.toNat - 0xF0) [b, c, d])) = [a, b, c, d] := by
  rw [continues_iff] at hb hc hd
  have hn : valueWith (a.toNat - 0xF0) [b, c, d] =
      (((a.toNat - 0xF0) * 64 + b.toNat % 64) * 64 + c.toNat % 64) * 64 + d.toNat % 64 := rfl
  generalize valueWith _ _ = n at hn ⊢
  have hchar : (Char.ofNat n).toNat = n := toNat_of_valid (by omega)
  simp only [encodeChar, hchar]
  rw [if_neg (by omega), if_neg (by omega), if_neg (by omega), toUInt8_eq (a := a) (by omega),
    toUInt8_eq (a := b) (by omega), toUInt8_eq (a := c) (by omega), toUInt8_eq (a := d) (by omega)]

end Bytes

/-- The bytes that complete a character, one by one. -/
theorem completes_zero {p : Pending} (howed : p.owed = 0) {rest : Bytes} (h : p.Completes rest) :
    ∃ b, rest = [b] ∧ p.low ≤ b ∧ b ≤ p.high := by
  rcases rest with _ | ⟨b, rest⟩
  · exact h.elim
  · rcases h with ⟨hb, hlength, -⟩
    rw [howed, List.length_eq_zero_iff] at hlength
    exact ⟨b, by rw [hlength], hb⟩

theorem completes_succ {p : Pending} {n : Nat} (howed : p.owed = n + 1) {rest : Bytes}
    (h : p.Completes rest) :
    ∃ b c more, rest = b :: c :: more ∧ (p.low ≤ b ∧ b ≤ p.high) ∧ Continues c ∧
      more.length = n ∧ ∀ d ∈ more, Continues d := by
  rcases rest with _ | ⟨b, rest⟩
  · exact h.elim
  · rcases h with ⟨hb, hlength, hrest⟩
    rw [howed] at hlength
    rcases rest with _ | ⟨c, more⟩
    · exact absurd hlength (Nat.succ_ne_zero n).symm
    · exact ⟨b, c, more, rfl, hb, hrest c List.mem_cons_self, Nat.succ.inj hlength,
        fun d hd => hrest d (List.mem_cons_of_mem _ hd)⟩

theorem proper_two {a : UInt8} (ha : 0xC2 ≤ a ∧ a ≤ 0xDF) :
    Pending.Proper ⟨[a], a.toNat - 0xC0, 0x80, 0xBF, 0⟩ where
  low_ge := UInt8.le_refl _
  high_le := UInt8.le_refl _
  encodeChar_eq := by
    intro rest h
    rcases completes_zero rfl h with ⟨b, rfl, hb⟩
    exact encodeChar_two ⟨UInt8.le_iff_toNat_le.1 ha.1, UInt8.le_iff_toNat_le.1 ha.2⟩ hb

/-- A character of three bytes. The range of the second keeps out what is too short and
    what is no character. -/
theorem proper_three {a low high : UInt8} (ha : 0xE0 ≤ a ∧ a ≤ 0xEF) (hlow : 0x80 ≤ low)
    (hhigh : high ≤ 0xBF) (hlong : a = 0xE0 → 0xA0 ≤ low) (hvalid : a = 0xED → high ≤ 0x9F) :
    Pending.Proper ⟨[a], a.toNat - 0xE0, low, high, 1⟩ where
  low_ge := hlow
  high_le := hhigh
  encodeChar_eq := by
    intro rest h
    rcases completes_succ rfl h with ⟨b, c, more, rfl, hb, hc, hmore, -⟩
    rw [List.length_eq_zero_iff.1 hmore]
    refine encodeChar_three ⟨UInt8.le_iff_toNat_le.1 ha.1, UInt8.le_iff_toNat_le.1 ha.2⟩
      ⟨UInt8.le_trans hlow hb.1, UInt8.le_trans hb.2 hhigh⟩ hc ?_ ?_
    · intro h
      exact UInt8.le_iff_toNat_le.1 (UInt8.le_trans (hlong (UInt8.toNat_inj.1 h)) hb.1)
    · intro h
      exact UInt8.le_iff_toNat_le.1 (UInt8.le_trans hb.2 (hvalid (UInt8.toNat_inj.1 h)))

/-- A character of four bytes. -/
theorem proper_four {a low high : UInt8} (ha : 0xF0 ≤ a ∧ a ≤ 0xF4) (hlow : 0x80 ≤ low)
    (hhigh : high ≤ 0xBF) (hlong : a = 0xF0 → 0x90 ≤ low) (hvalid : a = 0xF4 → high ≤ 0x8F) :
    Pending.Proper ⟨[a], a.toNat - 0xF0, low, high, 2⟩ where
  low_ge := hlow
  high_le := hhigh
  encodeChar_eq := by
    intro rest h
    rcases completes_succ rfl h with ⟨b, c, more, rfl, hb, hc, hmore, hd⟩
    rcases List.length_eq_one_iff.1 hmore with ⟨d, rfl⟩
    refine encodeChar_four ⟨UInt8.le_iff_toNat_le.1 ha.1, UInt8.le_iff_toNat_le.1 ha.2⟩
      ⟨UInt8.le_trans hlow hb.1, UInt8.le_trans hb.2 hhigh⟩ hc (hd d (List.mem_singleton_self d))
      ?_ ?_
    · intro h
      exact UInt8.le_iff_toNat_le.1 (UInt8.le_trans (hlong (UInt8.toNat_inj.1 h)) hb.1)
    · intro h
      exact UInt8.le_iff_toNat_le.1 (UInt8.le_trans hb.2 (hvalid (UInt8.toNat_inj.1 h)))

/-- What a first byte asks for is proper. -/
theorem proper_of_lead? {b : UInt8} {p : Pending} (h : lead? b = some p) : p.Proper := by
  unfold lead? at h
  split at h
  · rename_i hb
    cases h
    exact proper_two hb
  split at h
  · rename_i hb
    cases h
    rw [hb]
    exact proper_three (a := 0xE0) (by decide) (by decide) (by decide) (by decide) (by decide)
  split at h
  · rename_i hb
    cases h
    rw [hb]
    exact proper_three (a := 0xED) (by decide) (by decide) (by decide) (by decide) (by decide)
  split at h
  · rename_i hlong hvalid hb
    cases h
    exact proper_three ⟨UInt8.le_trans (by decide) hb.1, hb.2⟩ (by decide) (by decide)
      (fun h => absurd h hlong) fun h => absurd h hvalid
  split at h
  · rename_i hb
    cases h
    rw [hb]
    exact proper_four (a := 0xF0) (by decide) (by decide) (by decide) (by decide) (by decide)
  split at h
  · rename_i hb
    cases h
    rw [hb]
    exact proper_four (a := 0xF4) (by decide) (by decide) (by decide) (by decide) (by decide)
  split at h
  · rename_i hlong hvalid hb
    cases h
    exact proper_four ⟨UInt8.le_trans (by decide) hb.1, UInt8.le_trans hb.2 (by decide)⟩
      (by decide) (by decide) (fun h => absurd h hlong) fun h => absurd h hvalid
  · cases h

/-- A character begun stays proper with every byte that goes on with it. -/
theorem Pending.Proper.next {p : Pending} (h : p.Proper) {b : UInt8} (hb : p.low ≤ b ∧ b ≤ p.high)
    {n : Nat} (howed : p.owed = n + 1) :
    Pending.Proper ⟨p.read ++ [b], p.value * 64 + b.toNat % 64, 0x80, 0xBF, n⟩ where
  low_ge := UInt8.le_refl _
  high_le := UInt8.le_refl _
  encodeChar_eq := by
    intro rest hrest
    rw [List.append_assoc, List.singleton_append]
    refine h.encodeChar_eq (b :: rest) ⟨hb, ?_, ?_⟩
    · rcases rest with _ | ⟨c, rest⟩
      · exact hrest.elim
      · rw [List.length_cons, hrest.2.1, howed]
    · rcases rest with _ | ⟨c, rest⟩
      · exact hrest.elim
      · intro d hd
        rcases List.mem_cons.1 hd with rfl | hd
        · exact hrest.1
        · exact hrest.2.2 d hd

-- A character is complete with the last byte that it needs.
theorem Pending.Proper.last {p : Pending} (h : p.Proper) {b : UInt8} (hb : p.low ≤ b ∧ b ≤ p.high)
    (howed : p.owed = 0) : encodeChar (Char.ofNat (p.value * 64 + b.toNat % 64)) = p.read ++ [b] :=
  h.encodeChar_eq [b] ⟨hb, howed.symm, fun _ hc => absurd hc List.not_mem_nil⟩

theorem proper_start {b : UInt8} {p : Pending} (h : (start b).1 = some p) : p.Proper := by
  unfold start at h
  split at h
  · cases h
  · rcases hlead : lead? b with _ | q
    · rw [hlead] at h
      cases h
    · rw [hlead] at h
      cases h
      exact proper_of_lead? hlead

theorem proper_none : ∀ p ∈ (none : Option Pending), p.Proper := by
  intro p hp
  cases hp

/-- The reader is at the beginning of a character or in a proper one. -/
theorem proper_feed {state : Option Pending} (hstate : ∀ p ∈ state, p.Proper) (b : UInt8) :
    ∀ p ∈ (feed state b).1, p.Proper := by
  intro p hp
  rcases state with _ | q
  · exact proper_start hp
  rw [feed] at hp
  split at hp
  · rename_i hb
    rcases howed : q.owed with _ | n
    · simp only [howed] at hp
      cases hp
    · simp only [howed] at hp
      cases hp
      exact (hstate q rfl).next hb howed
  · exact proper_start hp

/-- What goes on with no character leaves what was begun behind, as the end of the text does. -/
theorem feedAll_of_not_continues {state : Option Pending} (hstate : ∀ p ∈ state, p.Proper)
    {bytes : Bytes} (h : ∀ b ∈ bytes.head?, ¬Continues b) :
    feedAll state bytes = feedAll state [] ++ feedAll none bytes := by
  rcases state with _ | p
  · rw [feedAll, List.nil_append]
  · rcases bytes with _ | ⟨b, bytes⟩
    · rw [feedAll, feedAll, List.append_nil]
    · have hp := hstate p rfl
      have hb : ¬(p.low ≤ b ∧ b ≤ p.high) := fun hb =>
        h b rfl ⟨UInt8.le_trans hp.low_ge hb.1, UInt8.le_trans hb.2 hp.high_le⟩
      simp only [feedAll, feed, if_neg hb, List.cons_append, List.nil_append]

/-- Before a byte that goes on with no character a text can be cut. -/
theorem feedAll_append {state : Option Pending} (hstate : ∀ p ∈ state, p.Proper) (front : Bytes)
    {rest : Bytes} (h : ∀ b ∈ rest.head?, ¬Continues b) :
    feedAll state (front ++ rest) = feedAll state front ++ feedAll none rest := by
  induction front generalizing state with
  | nil => exact feedAll_of_not_continues hstate h
  | cons b front ih =>
    rw [List.cons_append, feedAll, feedAll, ih (proper_feed hstate b), List.append_assoc]

/-- Text is read in parts wherever a part starts with a byte that goes on with nothing. -/
theorem fragments_append (front : Bytes) {rest : Bytes} (h : ∀ b ∈ rest.head?, ¬Continues b) :
    fragments (front ++ rest) = fragments front ++ fragments rest :=
  feedAll_append proper_none front h

/-- The bytes of a character begun, if one is. -/
def readOf : Option Pending → Bytes
  | none => []
  | some p => p.read

theorem readOf_start (b : UInt8) :
    (start b).2.flatMap Fragment.bytes ++ readOf (start b).1 = [b] := by
  unfold start
  by_cases hb : b < 0x80
  · have hlt : b.toNat < 0x80 := UInt8.lt_iff_toNat_lt.1 hb
    have hchar : (Char.ofNat b.toNat).toNat = b.toNat := toNat_of_valid (.inl (by omega))
    rw [if_pos hb, List.flatMap_singleton, Fragment.bytes, readOf, List.append_nil, encodeChar]
    simp only [hchar]
    rw [if_pos hlt, toUInt8_eq rfl]
  · rw [if_neg hb]
    rcases hlead : lead? b with _ | p
    · rfl
    · -- Whatever the first byte asks for, it is what was read.
      have hread : p.read = [b] := by
        unfold lead? at hlead
        repeat' split at hlead
        all_goals cases hlead
        all_goals rfl
      exact hread

-- One byte more has been read.
theorem readOf_feed {state : Option Pending} (hstate : ∀ p ∈ state, p.Proper) (b : UInt8) :
    (feed state b).2.flatMap Fragment.bytes ++ readOf (feed state b).1 = readOf state ++ [b] := by
  rcases state with _ | p
  · exact readOf_start b
  rw [feed]
  split
  · rename_i hb
    rcases howed : p.owed with _ | n
    · simp only [List.flatMap_singleton, Fragment.bytes, readOf, List.append_nil,
        (hstate p rfl).last hb howed]
    · simp only [List.flatMap_nil, List.nil_append, readOf]
  · rw [List.flatMap_cons, List.append_assoc, readOf_start]
    rfl

/-- No byte is lost in reading. -/
theorem flatMap_bytes_feedAll {state : Option Pending} (hstate : ∀ p ∈ state, p.Proper)
    (bytes : Bytes) :
    (feedAll state bytes).flatMap Fragment.bytes = readOf state ++ bytes := by
  induction bytes generalizing state with
  | nil =>
    rcases state with _ | p
    · rfl
    · rw [feedAll, List.flatMap_singleton, Fragment.bytes, readOf, List.append_nil]
  | cons b bytes ih =>
    rw [feedAll, List.flatMap_append, ih (proper_feed hstate b), ← List.append_assoc,
      readOf_feed hstate, List.append_assoc, List.singleton_append]

/-- The fragments hold the bytes they were read from. -/
theorem flatMap_bytes_fragments (bytes : Bytes) :
    (fragments bytes).flatMap Fragment.bytes = bytes :=
  flatMap_bytes_feedAll proper_none bytes

/-- What is read strictly is made of characters only. -/
theorem map_char_of_mapM {fs : List Fragment} {text : List Char}
    (h : fs.mapM Fragment.char? = some text) : fs = text.map .char := by
  induction fs generalizing text with
  | nil =>
    cases h
    rfl
  | cons f fs ih =>
    rcases exists_of_mapM_cons h with ⟨c, text', hf, hfs, rfl⟩
    cases f with
    | char c' =>
      cases hf
      rw [ih hfs, List.map_cons]
    | stray bytes => cases hf

/-- What was read strictly is written as it was. -/
theorem encode_of_decode? {bytes : Bytes} {text : List Char} (h : decode? bytes = some text) :
    encode text = bytes := by
  rw [← flatMap_bytes_fragments bytes, map_char_of_mapM h, List.flatMap_map]
  rfl

end ConfIndent.Utf8
