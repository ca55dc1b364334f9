import ConfIndent.Bytes

/-!
# Base64

Bytes written in an alphabet of 64 signs. Three bytes become four signs of six
bits each; one or two bytes left over become two or three signs, and equals signs
fill the last group up.

## Main definitions

* `Base64.sign`: The sign of six bits.
* `Base64.encode`: Bytes in signs.
-/

namespace ConfIndent.Base64

/-- The sign of six bits: capitals, small letters, digits, plus and solidus. -/
def sign (n : Nat) : Char :=
  if n < 26 then Char.ofNat (65 + n)
  else if n < 52 then Char.ofNat (97 + (n - 26))
  else if n < 62 then Char.ofNat (48 + (n - 52))
  else if n = 62 then '+'
  else '/'

/-- Bytes in signs. -/
def encode : Bytes → List Char
  | [] => []
  | [a] => [sign (a.toNat / 4), sign (a.toNat % 4 * 16), '=', '=']
  | [a, b] =>
    [sign (a.toNat / 4), sign (a.toNat % 4 * 16 + b.toNat / 16), sign (b.toNat % 16 * 4), '=']
  | a :: b :: c :: rest =>
    sign (a.toNat / 4) :: sign (a.toNat % 4 * 16 + b.toNat / 16) ::
      sign (b.toNat % 16 * 4 + c.toNat / 64) :: sign (c.toNat % 64) :: encode rest

end ConfIndent.Base64
