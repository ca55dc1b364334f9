import ConfIndent.Digest.Base64

/-!
# Reading Base64

Signs are read in groups of four, and a group gives one to three bytes. It gives fewer
than three if it ends in equals signs, which only the last group may, and then the bits
that are left over must be zero. So there is one way to write bytes in signs, and what
was written is read back.

## Main definitions

* `Base64.value?`: The six bits of a sign.
* `Base64.readGroup`: The bytes of four signs.
* `Base64.decode?`: The bytes of a text in signs.

## Theorems

* `Base64.value?_sign`: A sign stands for the six bits it was chosen for.
* `Base64.decode?_encode`: What was written in signs is read back.
-/

namespace ConfIndent.Base64

/-- The six bits of a sign. -/
def value? (c : Char) : Option Nat :=
  if 'A' ≤ c ∧ c ≤ 'Z' then some (c.toNat - 65)
  else if 'a' ≤ c ∧ c ≤ 'z' then some (c.toNat - 71)
  else if '0' ≤ c ∧ c ≤ '9' then some (c.toNat + 4)
  else if c = '+' then some 62
  else if c = '/' then some 63
  else none

/-- The bytes of four signs, the last one or two of which may be equals signs. -/
def readGroup (a b c d : Char) : Option Bytes :=
  match value? a, value? b, value? c, value? d with
  | some x, some y, some z, some u =>
    some [(x * 4 + y / 16).toUInt8, (y % 16 * 16 + z / 4).toUInt8, (z % 4 * 64 + u).toUInt8]
  | some x, some y, some z, none =>
    if d = '=' ∧ z % 4 = 0 then some [(x * 4 + y / 16).toUInt8, (y % 16 * 16 + z / 4).toUInt8]
    else none
  | some x, some y, none, none =>
    if c = '=' ∧ d = '=' ∧ y % 16 = 0 then some [(x * 4 + y / 16).toUInt8] else none
  | _, _, _, _ => none

/-- The bytes of a text in signs. A group of fewer than three bytes ends the text. -/
def decode? : List Char → Option Bytes
  | [] => some []
  | a :: b :: c :: d :: rest =>
    (readGroup a b c d).bind fun bytes =>
      if bytes.length < 3 ∧ rest ≠ [] then none else (decode? rest).map (bytes ++ ·)
  | _ => none

/-- A sign stands for the six bits it was chosen for. -/
theorem value?_sign {n : Nat} (h : n < 64) : value? (sign n) = some n := by
  have hall : ∀ n < 64, value? (sign n) = some n := by decide
  exact hall n h

-- An equals sign stands for no bits, so it cannot be taken for another.
theorem value?_equals : value? '=' = none := by
  decide

section Groups

variable (a b c : UInt8)

/-- The first byte is put together from the bits of the first two signs, whatever bits of the second
    byte come with them. -/
theorem first_eq {n : Nat} (hn : n < 16) :
    (a.toNat / 4 * 4 + (a.toNat % 4 * 16 + n) / 16).toUInt8 = a := by
  have hbits : a.toNat / 4 * 4 + (a.toNat % 4 * 16 + n) / 16 = a.toNat := by
    omega
  rw [hbits]
  exact UInt8.ofNat_toNat

theorem second_eq {m n : Nat} (hn : n < 4) :
    ((m * 16 + b.toNat / 16) % 16 * 16 + (b.toNat % 16 * 4 + n) / 4).toUInt8 = b := by
  have hb := b.toNat_lt
  have hbits : (m * 16 + b.toNat / 16) % 16 * 16 + (b.toNat % 16 * 4 + n) / 4 = b.toNat := by
    omega
  rw [hbits]
  exact UInt8.ofNat_toNat

theorem third_eq {m : Nat} : ((m * 4 + c.toNat / 64) % 4 * 64 + c.toNat % 64).toUInt8 = c := by
  have hc := c.toNat_lt
  have hbits : (m * 4 + c.toNat / 64) % 4 * 64 + c.toNat % 64 = c.toNat := by
    omega
  rw [hbits]
  exact UInt8.ofNat_toNat

theorem readGroup_one :
    readGroup (sign (a.toNat / 4)) (sign (a.toNat % 4 * 16)) '=' '=' = some [a] := by
  have ha := a.toNat_lt
  have hzero : a.toNat % 4 * 16 % 16 = 0 := Nat.mul_mod_left _ _
  have hfirst := first_eq a (Nat.zero_lt_succ 15)
  rw [Nat.add_zero] at hfirst
  rw [readGroup, value?_sign (by omega), value?_sign (by omega), value?_equals]
  simp only [hzero, hfirst, and_self, if_true]

theorem readGroup_two :
    readGroup (sign (a.toNat / 4)) (sign (a.toNat % 4 * 16 + b.toNat / 16))
      (sign (b.toNat % 16 * 4)) '=' = some [a, b] := by
  have ha := a.toNat_lt
  have hb := b.toNat_lt
  have hzero : b.toNat % 16 * 4 % 4 = 0 := Nat.mul_mod_left _ _
  have hsecond := second_eq b (m := a.toNat % 4) (Nat.zero_lt_succ 3)
  rw [Nat.add_zero] at hsecond
  rw [readGroup, value?_sign (by omega), value?_sign (by omega), value?_sign (by omega),
    value?_equals]
  simp only [hzero, first_eq a (n := b.toNat / 16) (by omega), hsecond, and_self, if_true]

theorem readGroup_three :
    readGroup (sign (a.toNat / 4)) (sign (a.toNat % 4 * 16 + b.toNat / 16))
      (sign (b.toNat % 16 * 4 + c.toNat / 64)) (sign (c.toNat % 64)) = some [a, b, c] := by
  have ha := a.toNat_lt
  have hb := b.toNat_lt
  have hc := c.toNat_lt
  rw [readGroup, value?_sign (by omega), value?_sign (by omega), value?_sign (by omega),
    value?_sign (by omega)]
  simp only [first_eq a (n := b.toNat / 16) (by omega),
    second_eq b (n := c.toNat / 64) (by omega), third_eq]

end Groups

/-- What was written in signs is read back. -/
theorem decode?_encode (bytes : Bytes) : decode? (encode bytes) = some bytes := by
  fun_induction encode bytes with
  | case1 => rfl
  | case2 a =>
    rw [decode?, readGroup_one]
    rfl
  | case3 a b =>
    rw [decode?, readGroup_two]
    rfl
  | case4 a b c rest ih =>
    rw [decode?, readGroup_three, ih]
    rfl

end ConfIndent.Base64
