import ConfIndent.Bytes

/-!
# Lines

A change is shown line by line. A line ends after a line feed, after a carriage
return and line feed, or after a carriage return that no line feed follows; it
keeps the bytes that end it, so that joining the lines gives the text back and
the way a line ends is part of what is compared. Other control characters end
no line.

The last line of a text may lack its end. `endsInLf` is the weaker question
whether a line ends in a line feed: tools that read a patch cut it at line feeds
only, and for them a line that ends in a bare carriage return is unfinished too.

## Main definitions

* `Lines.split`: The lines of a text.
* `Lines.endsInLf`: A line ends in a line feed.

## Theorems

* `Lines.flatten_split`: Joining the lines gives the text back.
* `Lines.ne_nil_of_mem_split`: No line is empty.
-/

namespace ConfIndent.Lines

open Bytes

/-- A line ends after this byte, given what follows it. A carriage return ends
    a line only if no line feed is about to do so. -/
def endsLine (b : UInt8) (rest : Bytes) : Bool :=
  b == lf || (b == cr && rest.head? != some lf)

/-- The lines of a text, each with the bytes that end it. -/
def split : Bytes → List Bytes
  | [] => []
  | b :: rest => if endsLine b rest then [b] :: split rest else consFirst b (split rest)

/-- The line ends in a line feed. -/
def endsInLf (line : Bytes) : Bool :=
  line.getLast? == some lf

theorem flatten_consFirst (b : UInt8) (ps : List Bytes) :
    (consFirst b ps).flatten = b :: ps.flatten := by
  cases ps <;> rfl

/-- Cutting into lines loses nothing. -/
@[simp] theorem flatten_split (text : Bytes) : (split text).flatten = text := by
  induction text with
  | nil => rfl
  | cons b rest ih =>
    rw [split]
    split
    · rw [List.flatten_cons, ih, List.singleton_append]
    · rw [flatten_consFirst, ih]

theorem ne_nil_of_mem_consFirst {b : UInt8} {ps : List Bytes} (hps : ∀ p ∈ ps, p ≠ [])
    {p : Bytes} (hp : p ∈ consFirst b ps) : p ≠ [] := by
  rcases ps with _ | ⟨q, qs⟩
  · rw [consFirst, List.mem_singleton] at hp
    rw [hp]
    exact List.cons_ne_nil _ _
  · rw [consFirst, List.mem_cons] at hp
    rcases hp with rfl | hp
    · exact List.cons_ne_nil _ _
    · exact hps p (List.mem_cons_of_mem _ hp)

/-- Every line holds at least one byte. -/
theorem ne_nil_of_mem_split {text line : Bytes} (h : line ∈ split text) : line ≠ [] := by
  induction text generalizing line with
  | nil => simp only [split, List.not_mem_nil] at h
  | cons b rest ih =>
    rw [split] at h
    split at h
    · rcases List.mem_cons.1 h with rfl | h
      · exact List.cons_ne_nil _ _
      · exact ih h
    · exact ne_nil_of_mem_consFirst (fun p hp => ih hp) h

/-- Two texts with the same lines are the same text. -/
theorem split_injective {s t : Bytes} (h : split s = split t) : s = t := by
  rw [← flatten_split s, ← flatten_split t, h]

end ConfIndent.Lines
