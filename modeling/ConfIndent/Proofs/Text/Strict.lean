import ConfIndent.Proofs.Text.Encoding
import ConfIndent.Proofs.Text.Written

/-!
# Reading Strictly

A byte string is read strictly as a text if it is that text as it is written, and else it is not
read at all. What was read is written as it was, which is one half of that. The other is that
nothing that was written is refused or read as another text.

For a charset of single bytes it is a matter of one character, and for UTF-8 it is known
already. In units of two bytes a character that is too great for one unit has a pair of them, and
no unit of a pair is a character, so pairs and single units are told apart from the first unit on.

A charset that a mark belongs to reads what stands behind the mark, in the order that the mark
tells. Without a mark it is read as if it had been written without one.

## Main definitions

* `Charset.marks`: The marks that a charset passes over, and how the rest is read.
* `Charset.Writes`: The bytes are the text as it is written, behind a mark or without one.

## Theorems

* `Utf16.decode?_encode`, `Utf32.decode?_encode`: Units are read as they were written.
* `Charset.decode?_of_write?`: A text that was written without a mark is read.
* `Charset.decode?_eq_some_iff`: A text is read from the bytes it is written in and no others.
-/

namespace ConfIndent

theorem foldr_lowBytes (size n : Nat) :
    (lowBytes size n).foldr (fun b m => m * 256 + b.toNat) 0 = n % Nat.pow 256 size := by
  induction size generalizing n with
  | zero => exact (Nat.mod_one n).symm
  | succ size ih =>
    have hlow : n.toUInt8.toNat = n % 256 := by
      rw [Nat.toUInt8_eq, UInt8.toNat_ofNat']
    have hpow : Nat.pow 256 (size + 1) = 256 * Nat.pow 256 size := Nat.mul_comm _ _
    rw [lowBytes, List.foldr_cons, ih, hlow, hpow, Nat.mod_mul]
    omega

namespace ByteOrder

/-- A unit has its value in either order. -/
theorem value_bytes (order : ByteOrder) (size n : Nat) :
    order.value (order.bytes size n) = n % Nat.pow 256 size := by
  cases order with
  | little => exact foldr_lowBytes size n
  | big =>
    rw [bytes, value, List.foldl_reverse]
    exact foldr_lowBytes size n

theorem exists_bytes_two (order : ByteOrder) (n : Nat) : ∃ a b, order.bytes 2 n = [a, b] := by
  cases order <;> exact ⟨_, _, rfl⟩

theorem exists_bytes_four (order : ByteOrder) (n : Nat) :
    ∃ a b c d, order.bytes 4 n = [a, b, c, d] := by
  cases order <;> exact ⟨_, _, _, _, rfl⟩

end ByteOrder

namespace Utf16

theorem units?_flatMap (order : ByteOrder) {us : List Nat} (h : ∀ u ∈ us, u < 0x10000) :
    units? order (us.flatMap (order.bytes 2)) = some us := by
  induction us with
  | nil => rfl
  | cons u us ih =>
    rcases order.exists_bytes_two u with ⟨a, b, hbytes⟩
    have hvalue : order.value [a, b] = u := by
      rw [← hbytes, order.value_bytes]
      exact Nat.mod_eq_of_lt (h u List.mem_cons_self)
    rw [List.flatMap_cons, hbytes, List.cons_append, List.singleton_append, units?,
      ih fun v hv => h v (List.mem_cons_of_mem _ hv), hvalue]
    rfl

/-- A unit that belongs to no pair is a character, whatever follows it. -/
theorem ofUnits?_single {u : Nat} (h : ¬(isHigh u || isLow u) = true) (us : List Nat) :
    ofUnits? (u :: us) = (ofUnits? us).map (Char.ofNat u :: ·) := by
  have hpair (v : Nat) : ¬(isHigh u && isLow v) = true := by
    rw [Bool.or_eq_true, not_or] at h
    rw [Bool.and_eq_true]
    exact fun hboth => h.1 hboth.1
  cases us with
  | nil =>
    have hone : ofUnits? [u] = some [Char.ofNat u] := by
      rw [ofUnits?, if_neg h]
    rw [hone]
    rfl
  | cons v us => rw [ofUnits?, if_neg (hpair v), if_neg h]

/-- The units of a character are read as the character. -/
theorem ofUnits?_unitsOf (c : Char) (us : List Nat) :
    ofUnits? (unitsOf c ++ us) = (ofUnits? us).map (c :: ·) := by
  have hn : c.toNat < 0xD800 ∨ 0xDFFF < c.toNat ∧ c.toNat < 0x110000 := c.valid
  have hchar : Char.ofNat c.toNat = c := Char.ofNat_toNat c
  unfold unitsOf
  generalize c.toNat = n at hn hchar
  subst hchar
  by_cases hsmall : n < 0x10000
  · have hsingle : ¬(isHigh n || isLow n) = true := by
      rw [Bool.or_eq_true, isHigh_iff, isLow_iff]
      omega
    rw [if_pos hsmall, List.singleton_append, ofUnits?_single hsingle]
  · have hpair : (isHigh (0xD800 + (n - 0x10000) / 0x400) &&
        isLow (0xDC00 + (n - 0x10000) % 0x400)) = true := by
      rw [Bool.and_eq_true, isHigh_iff, isLow_iff]
      omega
    have hvalue : 0x10000 + (0xD800 + (n - 0x10000) / 0x400 - 0xD800) * 0x400 +
        (0xDC00 + (n - 0x10000) % 0x400 - 0xDC00) = n := by
      omega
    rw [if_neg hsmall, List.cons_append, List.singleton_append, ofUnits?, if_pos hpair, hvalue]

theorem ofUnits?_flatMap (text : List Char) : ofUnits? (text.flatMap unitsOf) = some text := by
  induction text with
  | nil => rfl
  | cons c text ih =>
    rw [List.flatMap_cons, ofUnits?_unitsOf, ih]
    rfl

theorem lt_of_mem_unitsOf {c : Char} {u : Nat} (h : u ∈ unitsOf c) : u < 0x10000 := by
  have hn : c.toNat < 0xD800 ∨ 0xDFFF < c.toNat ∧ c.toNat < 0x110000 := c.valid
  unfold unitsOf at h
  split at h
  · rw [List.mem_singleton] at h
    omega
  · simp only [List.mem_cons, List.not_mem_nil, or_false] at h
    omega

/-- Units of two bytes are read as they were written. -/
theorem decode?_encode (order : ByteOrder) (text : List Char) :
    decode? order (encode order text) = some text := by
  have hunits : ∀ u ∈ text.flatMap unitsOf, u < 0x10000 := by
    intro u hu
    rcases List.mem_flatMap.1 hu with ⟨c, -, hc⟩
    exact lt_of_mem_unitsOf hc
  rw [decode?, encode, units?_flatMap order hunits, Option.bind_some, ofUnits?_flatMap]

end Utf16

namespace Utf32

theorem units?_flatMap (order : ByteOrder) {us : List Nat} (h : ∀ u ∈ us, u < 0x110000) :
    units? order (us.flatMap (order.bytes 4)) = some us := by
  induction us with
  | nil => rfl
  | cons u us ih =>
    rcases order.exists_bytes_four u with ⟨a, b, c, d, hbytes⟩
    have hvalue : order.value [a, b, c, d] = u := by
      have hu := h u List.mem_cons_self
      rw [← hbytes, order.value_bytes]
      exact Nat.mod_eq_of_lt (Nat.lt_trans hu (by decide))
    rw [List.flatMap_cons, hbytes, List.cons_append, List.cons_append, List.cons_append,
      List.singleton_append, units?, ih fun v hv => h v (List.mem_cons_of_mem _ hv), hvalue]
    rfl

theorem char?_toNat (c : Char) : char? c.toNat = some c := by
  have hvalid : c.toNat.isValidChar := c.valid
  rw [char?, dif_pos hvalid]
  rfl

theorem toNat_lt (c : Char) : c.toNat < 0x110000 := by
  rcases c.valid with hlow | ⟨-, hhigh⟩
  · exact Nat.lt_trans hlow (by decide)
  · exact hhigh

/-- Units of four bytes are read as they were written. -/
theorem decode?_encode (order : ByteOrder) (text : List Char) :
    decode? order (encode order text) = some text := by
  have hunits : ∀ u ∈ text.map Char.toNat, u < 0x110000 := by
    intro u hu
    rcases List.mem_map.1 hu with ⟨c, -, rfl⟩
    exact toNat_lt c
  have hchars : (text.map Char.toNat).mapM char? = some text := by
    rw [List.mapM_map]
    simp only [Function.comp_def, char?_toNat]
    exact (List.mapM_pure (m := Option)).trans (congrArg some text.map_id')
  rw [decode?, encode, units?_flatMap order hunits, Option.bind_some, hchars]

end Utf32

namespace Charset

theorem eq_of_byteBelow? {limit : Nat} (hlimit : limit ≤ 0x100) {c : Char} {b : UInt8}
    (h : byteBelow? limit c = some b) : b.toNat < limit ∧ Char.ofNat b.toNat = c := by
  unfold byteBelow? at h
  split at h
  · rename_i hc
    cases h
    rw [Utf8.toNat_toUInt8 (by omega)]
    exact ⟨hc, Char.ofNat_toNat c⟩
  · cases h

theorem windows1252Char?_of_byte? {c : Char} {b : UInt8} (h : windows1252Byte? c = some b) :
    windows1252Char? b = some c := by
  unfold windows1252Byte? at h
  split at h
  · -- One of the marks in the upper range.
    rename_i i hi
    cases h
    rcases List.idxOf?_eq_some_iff.1 hi with ⟨hlength, hget, -⟩
    have hi : i < 32 := hlength
    have hbyte : (0x80 + i).toUInt8.toNat = 0x80 + i := Utf8.toNat_toUInt8 (by omega)
    have hupper : 0x80 ≤ (0x80 + i).toUInt8 ∧ (0x80 + i).toUInt8 < 0xA0 := by
      rw [UInt8.le_iff_toNat_le, UInt8.lt_iff_toNat_lt, hbyte]
      exact ⟨Nat.le_add_right _ _, Nat.add_lt_add_left hi 0x80⟩
    rw [windows1252Char?, if_pos hupper, hbyte, Nat.add_sub_cancel_left,
      List.getElem?_eq_getElem hlength, hget]
    rfl
  · split at h
    · cases h
    · rename_i hc
      rcases eq_of_byteBelow? (Nat.le_refl _) h with ⟨hb, rfl⟩
      have hchar : (Char.ofNat b.toNat).toNat = b.toNat := Utf8.toNat_of_valid (by omega)
      have hdirect : ¬(0x80 ≤ b ∧ b < 0xA0) := by
        rw [UInt8.le_iff_toNat_le, UInt8.lt_iff_toNat_lt]
        rw [hchar] at hc
        exact hc
      rw [windows1252Char?, if_neg hdirect]

/-- The marks that a charset passes over, and the charset in which the rest is read. -/
def marks : Charset → List (Bytes × Charset)
  | utf8Marked => [(utf8Mark, utf8)]
  | utf16 => [([0xFF, 0xFE], utf16Ordered .little), ([0xFE, 0xFF], utf16Ordered .big)]
  | utf32 => [([0xFF, 0xFE, 0, 0], utf32Ordered .little), ([0, 0, 0xFE, 0xFF], utf32Ordered .big)]
  | _ => []

/-- The bytes are the text as it is written in the charset, behind a mark or without one. -/
def Writes (c : Charset) (text : List Char) (bytes : Bytes) : Prop :=
  (∃ mark d rest, (mark, d) ∈ c.marks ∧ bytes = mark ++ rest ∧ d.write? text = some rest) ∨
    (∀ mark d, (mark, d) ∈ c.marks → ¬mark <+: bytes) ∧ c.write? text = some bytes

/-- A text that was written without a mark is read. -/
theorem decode?_of_write? {c : Charset} {text : List Char} {bytes : Bytes}
    (hmark : c.opensMarked bytes = false) (h : c.write? text = some bytes) :
    c.decode? bytes = some text := by
  cases c with
  | ascii =>
    refine mapM_of_mapM ?_ h
    intro c b hc
    rcases eq_of_byteBelow? (by decide) hc with ⟨hb, hchar⟩
    rw [if_pos (UInt8.lt_iff_toNat_lt.2 hb), hchar]
  | latin1 =>
    have hread : bytes.mapM (fun b => some (Char.ofNat b.toNat)) = some text := by
      refine mapM_of_mapM ?_ h
      intro c b hc
      rw [(eq_of_byteBelow? (Nat.le_refl _) hc).2]
    rw [← hread]
    exact (List.mapM_pure (m := Option)).symm
  | windows1252 => exact mapM_of_mapM (fun _ _ => windows1252Char?_of_byte?) h
  | utf8 =>
    cases h
    exact Utf8.decode?_encode text
  | utf8Marked =>
    have hmark : utf8Mark.isPrefixOf bytes = false := hmark
    cases h
    rw [decode?, hmark, if_neg Bool.false_ne_true, Utf8.decode?_encode]
  | utf16 =>
    have hmark : Utf16.marked? bytes = none :=
      Option.isNone_iff_eq_none.1 (Option.isSome_eq_false_iff.1 hmark)
    cases h
    rw [decode?, Utf16.decodeMarked?, hmark]
    exact Utf16.decode?_encode .little text
  | utf16Ordered order =>
    cases h
    exact Utf16.decode?_encode order text
  | utf32 =>
    have hmark : Utf32.marked? bytes = none :=
      Option.isNone_iff_eq_none.1 (Option.isSome_eq_false_iff.1 hmark)
    cases h
    rw [decode?, Utf32.decodeMarked?, hmark]
    exact Utf32.decode?_encode .little text
  | utf32Ordered order =>
    cases h
    exact Utf32.decode?_encode order text

/-- A mark is passed over, and the rest is read as the mark tells. No second one is. -/
theorem decode?_mark_append {c d : Charset} {mark : Bytes} (h : (mark, d) ∈ c.marks)
    (rest : Bytes) : c.decode? (mark ++ rest) = d.decode? rest ∧ d.opensMarked rest = false := by
  cases c with
  | ascii | latin1 | windows1252 | utf8 | utf16Ordered | utf32Ordered =>
    exact absurd h List.not_mem_nil
  | utf8Marked =>
    cases List.mem_singleton.1 h
    exact ⟨rfl, rfl⟩
  | utf16 | utf32 =>
    simp only [marks, List.mem_cons, List.not_mem_nil, or_false, Prod.mk.injEq] at h
    rcases h with ⟨rfl, rfl⟩ | ⟨rfl, rfl⟩ <;> exact ⟨rfl, rfl⟩

/-- The marks that are passed over are those of the charset. -/
theorem opensMarked_eq (c : Charset) (bytes : Bytes) :
    c.opensMarked bytes = c.marks.any fun m => m.1.isPrefixOf bytes := by
  cases c with
  | ascii | latin1 | windows1252 | utf8 | utf16Ordered | utf32Ordered => rfl
  | utf8Marked => exact (Bool.or_false _).symm
  | utf16 =>
    simp only [opensMarked, Utf16.marked?, marks, List.any_cons, List.any_nil]
    cases List.isPrefixOf [0xFF, 0xFE] bytes <;> cases List.isPrefixOf [0xFE, 0xFF] bytes <;> rfl
  | utf32 =>
    simp only [opensMarked, Utf32.marked?, marks, List.any_cons, List.any_nil]
    cases List.isPrefixOf [0xFF, 0xFE, 0, 0] bytes <;>
      cases List.isPrefixOf [0, 0, 0xFE, 0xFF] bytes <;> rfl

theorem opensMarked_iff (c : Charset) (bytes : Bytes) :
    c.opensMarked bytes = true ↔ ∃ mark d, (mark, d) ∈ c.marks ∧ mark <+: bytes := by
  rw [opensMarked_eq, List.any_eq_true, Prod.exists]
  simp only [List.isPrefixOf_iff_prefix]

/-- A text is read from the bytes it is written in and from no others. -/
theorem decode?_eq_some_iff {c : Charset} {bytes : Bytes} {text : List Char} :
    c.decode? bytes = some text ↔ c.Writes text bytes := by
  constructor
  · intro h
    by_cases hmark : c.opensMarked bytes = true
    · rcases (opensMarked_iff c bytes).1 hmark with ⟨mark, d, hmem, rest, rfl⟩
      rcases decode?_mark_append hmem rest with ⟨hdecode, hnone⟩
      rw [hdecode] at h
      exact .inl ⟨mark, d, rest, hmem, rfl, write?_of_decode? hnone h⟩
    · have hunmarked : ∀ mark d, (mark, d) ∈ c.marks → ¬mark <+: bytes :=
        fun mark d hmem hprefix => hmark ((opensMarked_iff c bytes).2 ⟨mark, d, hmem, hprefix⟩)
      rw [Bool.not_eq_true] at hmark
      exact .inr ⟨hunmarked, write?_of_decode? hmark h⟩
  · rintro (⟨mark, d, rest, hmem, rfl, hwrite⟩ | ⟨hunmarked, hwrite⟩)
    · rcases decode?_mark_append hmem rest with ⟨hdecode, hnone⟩
      rw [hdecode]
      exact decode?_of_write? hnone hwrite
    · refine decode?_of_write? ?_ hwrite
      rw [← Bool.not_eq_true, opensMarked_iff]
      rintro ⟨mark, d, hmem, hprefix⟩
      exact hunmarked mark d hmem hprefix

end Charset

end ConfIndent
