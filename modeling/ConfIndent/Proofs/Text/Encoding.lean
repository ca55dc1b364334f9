import ConfIndent.Proofs.Text.Fragments
import ConfIndent.Text.Charset

/-!
# Writing Text

The charsets in the other direction. A text is written character by character, and not
every charset has bytes for every character. What is written in units has the order that
is taken for granted where no mark stands.

To encode a text is to write it behind the mark of the charset. A mark is no part of the
text, and the charsets that have one put it in front of every text, of an empty one too.
So what was read without a mark is written as it was but encoded otherwise.

Reading strictly leaves no room for a second way of writing. In each charset the bytes
of a text are those it was read from, apart from a mark that was passed over. For a
charset of single bytes that is a matter of one byte, and for units it is one of the
bytes in a unit and the units in a character.

## Main definitions

* `lowBytes`, `ByteOrder.bytes`: The bytes of a unit.
* `Utf16.encode`, `Utf32.encode`: The bytes of a text in units.
* `Charset.write?`: The bytes of the characters of a text in a charset.
* `Charset.mark`: The mark that a charset puts in front of a text.
* `Charset.encode?`: A text as it is encoded in a charset.
* `Charset.opensMarked`: The text starts with a mark that is passed over.

## Theorems

* `ByteOrder.bytes_two`, `ByteOrder.bytes_four`: The bytes of a unit that was read.
* `Utf16.encode_of_decode?`, `Utf32.encode_of_decode?`: Units are written as they were.
* `Charset.write?_of_decode?`: What was read strictly is written as it was.
-/

namespace ConfIndent

/-- A list that was read element by element is written element by element. -/
theorem mapM_of_mapM {α β : Type} {f : α → Option β} {g : β → Option α}
    (hg : ∀ x y, f x = some y → g y = some x) {xs : List α} {ys : List β}
    (h : xs.mapM f = some ys) : ys.mapM g = some xs := by
  induction xs generalizing ys with
  | nil =>
    cases h
    rfl
  | cons x xs ih =>
    rcases exists_of_mapM_cons h with ⟨y, ys', hy, hys, rfl⟩
    rw [List.mapM_cons, hg x y hy, ih hys]
    rfl

/-- The lowest bytes of a number, the lowest first. -/
def lowBytes : Nat → Nat → Bytes
  | 0, _ => []
  | size + 1, n => n.toUInt8 :: lowBytes size (n / 256)

/-- The bytes of a unit of the given size. -/
def ByteOrder.bytes (order : ByteOrder) (size unit : Nat) : Bytes :=
  match order with
  | .little => lowBytes size unit
  | .big => (lowBytes size unit).reverse

/-- What a byte and the bytes above it make up is taken apart again. -/
theorem lowBytes_succ {size n : Nat} {b : UInt8} :
    lowBytes (size + 1) (n * 256 + b.toNat) = b :: lowBytes size n := by
  have hb := b.toNat_lt
  have hdiv : (n * 256 + b.toNat) / 256 = n := by omega
  have hmod : (n * 256 + b.toNat).toUInt8 = b := by
    rw [← UInt8.toNat_inj, Nat.toUInt8_eq, UInt8.toNat_ofNat']
    omega
  rw [lowBytes, hdiv, hmod]

theorem lowBytes_one (b : UInt8) : lowBytes 1 b.toNat = [b] := by
  have h : lowBytes 1 (0 * 256 + b.toNat) = [b] := lowBytes_succ
  rwa [Nat.zero_mul, Nat.zero_add] at h

theorem ByteOrder.bytes_two (order : ByteOrder) (a b : UInt8) :
    order.bytes 2 (order.value [a, b]) = [a, b] := by
  cases order with
  | little =>
    have hvalue : ByteOrder.little.value [a, b] = b.toNat * 256 + a.toNat := by
      simp only [value, List.foldr_cons, List.foldr_nil, Nat.zero_mul, Nat.zero_add]
    rw [bytes, hvalue, lowBytes_succ, lowBytes_one]
  | big =>
    have hvalue : ByteOrder.big.value [a, b] = a.toNat * 256 + b.toNat := by
      simp only [value, List.foldl_cons, List.foldl_nil, Nat.zero_mul, Nat.zero_add]
    rw [bytes, hvalue, lowBytes_succ, lowBytes_one]
    rfl

theorem ByteOrder.bytes_four (order : ByteOrder) (a b c d : UInt8) :
    order.bytes 4 (order.value [a, b, c, d]) = [a, b, c, d] := by
  cases order with
  | little =>
    have hvalue : ByteOrder.little.value [a, b, c, d] =
        ((d.toNat * 256 + c.toNat) * 256 + b.toNat) * 256 + a.toNat := by
      simp only [value, List.foldr_cons, List.foldr_nil, Nat.zero_mul, Nat.zero_add]
    rw [bytes, hvalue, lowBytes_succ, lowBytes_succ, lowBytes_succ, lowBytes_one]
  | big =>
    have hvalue : ByteOrder.big.value [a, b, c, d] =
        ((a.toNat * 256 + b.toNat) * 256 + c.toNat) * 256 + d.toNat := by
      simp only [value, List.foldl_cons, List.foldl_nil, Nat.zero_mul, Nat.zero_add]
    rw [bytes, hvalue, lowBytes_succ, lowBytes_succ, lowBytes_succ, lowBytes_one]
    rfl

namespace Utf16

/-- The units of a character. One that is too great for a unit has two. -/
def unitsOf (c : Char) : List Nat :=
  if c.toNat < 0x10000 then [c.toNat]
  else [0xD800 + (c.toNat - 0x10000) / 0x400, 0xDC00 + (c.toNat - 0x10000) % 0x400]

/-- The bytes of a text in a known byte order. -/
def encode (order : ByteOrder) (text : List Char) : Bytes :=
  (text.flatMap unitsOf).flatMap (order.bytes 2)

theorem value_lt (order : ByteOrder) (a b : UInt8) : order.value [a, b] < 0x10000 := by
  have ha := a.toNat_lt
  have hb := b.toNat_lt
  cases order with
  | little =>
    simp only [ByteOrder.value, List.foldr_cons, List.foldr_nil, Nat.zero_mul, Nat.zero_add]
    omega
  | big =>
    simp only [ByteOrder.value, List.foldl_cons, List.foldl_nil, Nat.zero_mul, Nat.zero_add]
    omega

/-- Units of two bytes are written as they were read, and none is too great. -/
theorem units_of_units? {order : ByteOrder} {bytes : Bytes} {us : List Nat}
    (h : units? order bytes = some us) :
    us.flatMap (order.bytes 2) = bytes ∧ ∀ u ∈ us, u < 0x10000 := by
  fun_induction units? order bytes generalizing us with
  | case1 =>
    cases h
    exact ⟨rfl, fun u hu => absurd hu List.not_mem_nil⟩
  | case2 a b rest ih =>
    rcases Option.map_eq_some_iff.1 h with ⟨vs, hvs, rfl⟩
    refine ⟨?_, ?_⟩
    · rw [List.flatMap_cons, order.bytes_two, (ih hvs).1]
      rfl
    · intro u hu
      rcases List.mem_cons.1 hu with rfl | hu
      · exact value_lt order a b
      · exact (ih hvs).2 u hu
  | case3 => cases h

theorem isHigh_iff {u : Nat} : isHigh u = true ↔ 0xD800 ≤ u ∧ u < 0xDC00 := by
  rw [isHigh, Bool.and_eq_true, decide_eq_true_eq, decide_eq_true_eq]

theorem isLow_iff {u : Nat} : isLow u = true ↔ 0xDC00 ≤ u ∧ u < 0xE000 := by
  rw [isLow, Bool.and_eq_true, decide_eq_true_eq, decide_eq_true_eq]

theorem unitsOf_single {u : Nat} (hu : u < 0x10000) (h : ¬(isHigh u || isLow u) = true) :
    unitsOf (Char.ofNat u) = [u] := by
  rw [Bool.or_eq_true, isHigh_iff, isLow_iff] at h
  have hchar : (Char.ofNat u).toNat = u := Utf8.toNat_of_valid (by omega)
  rw [unitsOf, hchar, if_pos hu]

/-- A pair of units stands for a character of two units. -/
theorem unitsOf_pair {u v : Nat} (h : (isHigh u && isLow v) = true) :
    unitsOf (Char.ofNat (0x10000 + (u - 0xD800) * 0x400 + (v - 0xDC00))) = [u, v] := by
  rw [Bool.and_eq_true, isHigh_iff, isLow_iff] at h
  generalize hn : 0x10000 + (u - 0xD800) * 0x400 + (v - 0xDC00) = n
  have hchar : (Char.ofNat n).toNat = n := Utf8.toNat_of_valid (by omega)
  have hhigh : 0xD800 + (n - 0x10000) / 0x400 = u := by omega
  have hlow : 0xDC00 + (n - 0x10000) % 0x400 = v := by omega
  rw [unitsOf, hchar, if_neg (by omega), hhigh, hlow]

theorem flatMap_unitsOf {us : List Nat} (hus : ∀ u ∈ us, u < 0x10000) {text : List Char}
    (h : ofUnits? us = some text) : text.flatMap unitsOf = us := by
  fun_induction ofUnits? us generalizing text with
  | case1 =>
    cases h
    rfl
  | case2 u hu => cases h
  | case3 u hu =>
    cases h
    rw [List.flatMap_singleton, unitsOf_single (hus u (List.mem_singleton_self u)) hu]
  | case4 u v rest hpair ih =>
    rcases Option.map_eq_some_iff.1 h with ⟨text', htext', rfl⟩
    have hrest := ih (fun x hx => hus x (List.mem_cons_of_mem _ (List.mem_cons_of_mem _ hx))) htext'
    rw [List.flatMap_cons, unitsOf_pair hpair, hrest]
    rfl
  | case5 u v rest hpair hu => cases h
  | case6 u v rest hpair hu ih =>
    rcases Option.map_eq_some_iff.1 h with ⟨text', htext', rfl⟩
    rw [List.flatMap_cons, unitsOf_single (hus u List.mem_cons_self) hu,
      ih (fun x hx => hus x (List.mem_cons_of_mem _ hx)) htext']
    rfl

/-- Units of two bytes are written as they were read. -/
theorem encode_of_decode? {order : ByteOrder} {bytes : Bytes} {text : List Char}
    (h : decode? order bytes = some text) : encode order text = bytes := by
  rcases Option.bind_eq_some_iff.1 h with ⟨us, hunits, htext⟩
  rcases units_of_units? hunits with ⟨hbytes, hus⟩
  rw [encode, flatMap_unitsOf hus htext, hbytes]

end Utf16

namespace Utf32

/-- The bytes of a text in a known byte order. -/
def encode (order : ByteOrder) (text : List Char) : Bytes :=
  (text.map Char.toNat).flatMap (order.bytes 4)

theorem flatMap_of_units? {order : ByteOrder} {bytes : Bytes} {us : List Nat}
    (h : units? order bytes = some us) : us.flatMap (order.bytes 4) = bytes := by
  fun_induction units? order bytes generalizing us with
  | case1 =>
    cases h
    rfl
  | case2 a b c d rest ih =>
    rcases Option.map_eq_some_iff.1 h with ⟨vs, hvs, rfl⟩
    rw [List.flatMap_cons, order.bytes_four, ih hvs]
    rfl
  | case3 => cases h

theorem toNat_of_char? {u : Nat} {c : Char} (h : char? u = some c) : c.toNat = u := by
  unfold char? at h
  by_cases hu : u.isValidChar
  · rw [dif_pos hu] at h
    cases h
    rfl
  · rw [dif_neg hu] at h
    cases h

theorem map_toNat {us : List Nat} {text : List Char} (h : us.mapM char? = some text) :
    text.map Char.toNat = us := by
  have hback := mapM_of_mapM (g := fun c => some c.toNat)
    (fun u c hc => congrArg some (toNat_of_char? hc)) h
  rw [← Option.some_inj, ← hback]
  exact (List.mapM_pure (m := Option)).symm

/-- Units of four bytes are written as they were read. -/
theorem encode_of_decode? {order : ByteOrder} {bytes : Bytes} {text : List Char}
    (h : decode? order bytes = some text) : encode order text = bytes := by
  rcases Option.bind_eq_some_iff.1 h with ⟨us, hunits, htext⟩
  rw [encode, map_toNat htext, flatMap_of_units? hunits]

end Utf32

namespace Charset

/-- The byte of a character whose value is below a limit. -/
def byteBelow? (limit : Nat) (c : Char) : Option UInt8 :=
  if c.toNat < limit then some c.toNat.toUInt8 else none

/-- The byte of a character in Windows-1252. -/
def windows1252Byte? (c : Char) : Option UInt8 :=
  match windows1252Upper.idxOf? (some c) with
  | some i => some (0x80 + i).toUInt8
  | none => if 0x80 ≤ c.toNat ∧ c.toNat < 0xA0 then none else byteBelow? 0x100 c

/-- The bytes of the characters of a text, without a mark in front. -/
def write? : Charset → List Char → Option Bytes
  | ascii, text => text.mapM (byteBelow? 0x80)
  | latin1, text => text.mapM (byteBelow? 0x100)
  | windows1252, text => text.mapM windows1252Byte?
  | utf8, text => some (Utf8.encode text)
  | utf8Marked, text => some (Utf8.encode text)
  | utf16, text => some (Utf16.encode .little text)
  | utf16Ordered order, text => some (Utf16.encode order text)
  | utf32, text => some (Utf32.encode .little text)
  | utf32Ordered order, text => some (Utf32.encode order text)

/-- The mark that is put in front of a text. Where a mark tells the order of units, the
    lowest byte comes first behind the one that is put there. -/
def mark : Charset → Bytes
  | utf8Marked => utf8Mark
  | utf16 => [0xFF, 0xFE]
  | utf32 => [0xFF, 0xFE, 0, 0]
  | _ => []

/-- A text as it is encoded, with the mark of the charset in front. -/
def encode? (charset : Charset) (text : List Char) : Option Bytes :=
  (charset.write? text).map (charset.mark ++ ·)

/-- The text starts with a mark that is passed over. -/
def opensMarked : Charset → Bytes → Bool
  | utf8Marked, bytes => utf8Mark.isPrefixOf bytes
  | utf16, bytes => (Utf16.marked? bytes).isSome
  | utf32, bytes => (Utf32.marked? bytes).isSome
  | _, _ => false

theorem byteBelow?_ofNat {limit : Nat} {b : UInt8} (hb : b.toNat < limit) :
    byteBelow? limit (Char.ofNat b.toNat) = some b := by
  have hlt := b.toNat_lt
  have hchar : (Char.ofNat b.toNat).toNat = b.toNat := Utf8.toNat_of_valid (by omega)
  rw [byteBelow?, hchar, if_pos hb, Utf8.toUInt8_eq rfl]

-- No two of these bytes stand for the same character.
theorem idxOf?_windows1252Upper : ∀ i < 32, (windows1252Upper[i]?).join.all
    (fun c => windows1252Upper.idxOf? (some c) == some i) = true := by
  decide

-- Nor does one of them stand for the character of another byte.
theorem le_of_mem_windows1252Upper : ∀ x ∈ windows1252Upper,
    x.all (fun c => decide (0x100 ≤ c.toNat)) = true := by
  decide

theorem windows1252Byte?_of_char? {b : UInt8} {c : Char} (h : windows1252Char? b = some c) :
    windows1252Byte? c = some b := by
  have hlt := b.toNat_lt
  unfold windows1252Char? at h
  split at h
  · rename_i hb
    rw [UInt8.le_iff_toNat_le, UInt8.lt_iff_toNat_lt] at hb
    have hlow : 0x80 ≤ b.toNat := hb.1
    have hhigh : b.toNat < 0xA0 := hb.2
    have hidx := idxOf?_windows1252Upper (b.toNat - 0x80) (by omega)
    rw [h, Option.all_some, beq_iff_eq] at hidx
    simp only [windows1252Byte?, hidx]
    rw [Utf8.toUInt8_eq (a := b) (by omega)]
  · rename_i hb
    cases h
    have hchar : (Char.ofNat b.toNat).toNat = b.toNat := Utf8.toNat_of_valid (by omega)
    have hidx : windows1252Upper.idxOf? (some (Char.ofNat b.toNat)) = none := by
      rw [List.idxOf?_eq_none_iff]
      intro hmem
      have hle := le_of_mem_windows1252Upper _ hmem
      rw [Option.all_some, decide_eq_true_eq, hchar] at hle
      omega
    have hdirect : ¬(0x80 ≤ b.toNat ∧ b.toNat < 0xA0) := by
      rw [UInt8.le_iff_toNat_le, UInt8.lt_iff_toNat_lt] at hb
      exact hb
    simp only [windows1252Byte?, hidx, hchar]
    rw [if_neg hdirect, byteBelow?_ofNat hlt]

/-- What was read strictly, and not behind a mark, is written as it was. -/
theorem write?_of_decode? {charset : Charset} {bytes : Bytes} {text : List Char}
    (hmark : charset.opensMarked bytes = false) (h : charset.decode? bytes = some text) :
    charset.write? text = some bytes := by
  cases charset with
  | ascii =>
    refine mapM_of_mapM ?_ h
    intro b c hc
    split at hc
    · rename_i hb
      cases hc
      exact byteBelow?_ofNat (UInt8.lt_iff_toNat_lt.1 hb)
    · cases hc
  | latin1 =>
    cases h
    have hpure : bytes.mapM (fun b => some (Char.ofNat b.toNat)) =
        some (bytes.map fun b => Char.ofNat b.toNat) := List.mapM_pure (m := Option)
    refine mapM_of_mapM ?_ hpure
    intro b c hc
    cases hc
    exact byteBelow?_ofNat b.toNat_lt
  | windows1252 => exact mapM_of_mapM (fun _ _ => windows1252Byte?_of_char?) h
  | utf8 => exact congrArg some (Utf8.encode_of_decode? h)
  | utf8Marked =>
    have hmark : utf8Mark.isPrefixOf bytes = false := hmark
    rw [decode?, hmark, if_neg Bool.false_ne_true] at h
    exact congrArg some (Utf8.encode_of_decode? h)
  | utf16 =>
    have hmark : Utf16.marked? bytes = none := Option.not_isSome_iff_eq_none.1 (by
      rw [← Bool.not_eq_true] at hmark
      exact hmark)
    simp only [decode?, Utf16.decodeMarked?, hmark] at h
    exact congrArg some (Utf16.encode_of_decode? h)
  | utf16Ordered order => exact congrArg some (Utf16.encode_of_decode? h)
  | utf32 =>
    have hmark : Utf32.marked? bytes = none := Option.not_isSome_iff_eq_none.1 (by
      rw [← Bool.not_eq_true] at hmark
      exact hmark)
    simp only [decode?, Utf32.decodeMarked?, hmark] at h
    exact congrArg some (Utf32.encode_of_decode? h)
  | utf32Ordered order => exact congrArg some (Utf32.encode_of_decode? h)

theorem encode?_of_write? {charset : Charset} {bytes : Bytes} {text : List Char}
    (h : charset.write? text = some bytes) :
    charset.encode? text = some (charset.mark ++ bytes) := by
  rw [encode?, h, Option.map_some]

end Charset

end ConfIndent
