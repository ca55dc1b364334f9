import ConfIndent.Proofs.Text.Utf8
import ConfIndent.Text.Charset

/-!
# Showing Text

What can be said of a text that is shown without knowing its charset. Bytes that can be
read strictly are shown as what they are, so to name no charset and to name UTF-8 is the
same. A charset that is reported can be looked up again by its name, so the text is
shown in it.

No charset shows nothing where there is something, as long as it starts in ASCII. It
takes a mark at the front to have bytes that are no part of the text, and a mark does
not start so.

## Theorems

* `Charset.display_nil`, `Charset.display_ne_nil`: What is shown as nothing.
* `displayNamed_name`: A text is shown in the charset that is reported.
-/

namespace ConfIndent

theorem map_ne_nil {α : Type} (x : α) (r : Option (List α)) : r.map (x :: ·) ≠ some [] := by
  cases r <;> exact fun h => nomatch h

-- A unit of two bytes stands for a character, and so does a pair of them.
theorem Utf16.ofUnits?_ne_nil (u : Nat) (us : List Nat) : ofUnits? (u :: us) ≠ some [] := by
  cases us with
  | nil =>
    rw [ofUnits?]
    split <;> exact fun h => nomatch h
  | cons v rest =>
    rw [ofUnits?]
    split
    · exact map_ne_nil _ _
    · split
      · exact fun h => nomatch h
      · exact map_ne_nil _ _

theorem Utf16.decode?_ne_nil (order : ByteOrder) (b : UInt8) (rest : Bytes) :
    decode? order (b :: rest) ≠ some [] := by
  unfold decode?
  rcases rest with _ | ⟨b', rest⟩
  · exact fun h => nomatch h
  · rw [units?]
    cases units? order rest with
    | none => exact fun h => nomatch h
    | some us => exact ofUnits?_ne_nil _ us

theorem Utf32.decode?_ne_nil (order : ByteOrder) (b : UInt8) (rest : Bytes) :
    decode? order (b :: rest) ≠ some [] := by
  unfold decode?
  rcases rest with _ | ⟨b₁, _ | ⟨b₂, _ | ⟨b₃, rest⟩⟩⟩
  · exact fun h => nomatch h
  · exact fun h => nomatch h
  · exact fun h => nomatch h
  · rw [units?]
    cases units? order rest with
    | none => exact fun h => nomatch h
    | some us => exact mapM_cons_ne_nil _ _ us

namespace Charset

theorem decode?_nil (c : Charset) : c.decode? [] = some [] := by
  rcases c with _ | _ | _ | _ | _ | _ | (_ | _) | _ | (_ | _) <;> rfl

theorem display_nil (charset : Option Charset) : display charset [] = [] := by
  rcases charset with _ | c
  · rfl
  · rw [display, Option.bind_some, decode?_nil, Option.getD_some]

-- No mark starts with a hyphen, so nothing is dropped from the front.
theorem decode?_ne_nil (charset : Charset) (rest : Bytes) :
    charset.decode? (45 :: rest) ≠ some [] := by
  have hfragments := Utf8.fragments_cons (b := 45) (by decide) rest
  have hutf8 : Utf8.decode? (45 :: rest) ≠ some [] := by
    rw [Utf8.decode?, hfragments]
    exact mapM_cons_ne_nil _ _ _
  cases charset with
  | ascii => exact mapM_cons_ne_nil _ _ _
  | latin1 =>
    intro h
    cases h
  | windows1252 => exact mapM_cons_ne_nil _ _ _
  | utf8 => exact hutf8
  | utf8Marked => exact hutf8
  | utf16 => exact Utf16.decode?_ne_nil .little 45 rest
  | utf16Ordered order => exact Utf16.decode?_ne_nil order 45 rest
  | utf32 => exact Utf32.decode?_ne_nil .little 45 rest
  | utf32Ordered order => exact Utf32.decode?_ne_nil order 45 rest

/-- What starts with a hyphen is not shown as nothing. -/
theorem display_ne_nil (charset : Option Charset) (rest : Bytes) :
    display charset (45 :: rest) ≠ [] := by
  have hlossy : Utf8.decodeLossy (45 :: rest) ≠ [] := by
    rw [Utf8.decodeLossy, Utf8.fragments_cons (by decide)]
    exact List.cons_ne_nil _ _
  unfold display
  rcases charset with _ | c
  · exact hlossy
  · rcases htext : c.decode? (45 :: rest) with _ | text
    · rw [Option.bind_some, htext]
      exact hlossy
    · rw [Option.bind_some, htext]
      rintro rfl
      exact c.decode?_ne_nil rest htext

/-- To name no charset is to name UTF-8. -/
theorem display_none (bytes : Bytes) : display none bytes = display (some .utf8) bytes := by
  unfold display
  rcases htext : Utf8.decode? bytes with _ | text
  · simp only [Option.bind_none, Option.bind_some, decode?, htext]
  · simp only [Option.bind_none, Option.bind_some, decode?, htext, Option.getD_none,
      Option.getD_some, Utf8.decodeLossy_of_decode? htext]

end Charset

/-- A text is shown in the charset that is reported, by the name it is reported by. -/
theorem displayNamed_name (bytes : Bytes) (charset : Option Charset) :
    displayNamed bytes (charset.map Charset.name) = .ok (Charset.display charset bytes) := by
  rcases charset with _ | c
  · rw [Charset.display_none]
    rfl
  · have hname : c.name.isEmpty = false ∧ '\x00' ∉ c.name.toList := by
      rcases c with _ | _ | _ | _ | _ | _ | (_ | _) | _ | (_ | _) <;> decide
    rw [Option.map_some, displayNamed, hname.1, if_neg Bool.false_ne_true, if_neg hname.2,
      Charset.ofName?_name]

end ConfIndent
