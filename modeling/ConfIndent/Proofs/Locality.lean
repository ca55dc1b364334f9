import ConfIndent.Proofs.Indent

/-!
# What Stands Around a Document

Formatting looks at one line, and it finds that line from both sides. Blank lines put in
front of a document join the blank lines it has. Text put behind it joins what follows
the margin, as long as there is a byte of code for it to follow; behind blanks alone it
would be read on as part of the margin.

Neither the last line feed of the leading run nor its first byte of code is looked for
again here. The parts of a document are known to be proper, they stay so when their
outer ends grow, and proper parts are found by every cut.

## Main definitions

* `Opening.behind`: The parts of a document that stands behind blank lines.
* `Opening.followed`: The parts of a document that more text follows.

## Theorems

* `Opening.Proper.behind`: Blank lines in front leave the parts proper.
* `Opening.Proper.followed`: Text behind a byte of code leaves the parts proper.
* `retab_local`: Formatting changes nothing of what stands around a document.
-/

namespace ConfIndent

open Bytes

namespace Opening

/-- The parts of a document that stands behind blank lines. -/
def behind (front : Bytes) (o : Opening) : Opening :=
  { o with blankLines := front ++ o.blankLines }

/-- The parts of a document that more text follows. -/
def followed (o : Opening) (more : Bytes) : Opening :=
  { o with rest := o.rest ++ more }

@[simp] theorem text_behind (front : Bytes) (o : Opening) :
    (o.behind front).text = front ++ o.text := by
  simp only [behind, text, List.append_assoc]

@[simp] theorem text_followed (o : Opening) (more : Bytes) :
    (o.followed more).text = o.text ++ more := by
  simp only [followed, text, List.append_assoc]

-- The margin stays what it is, and so does what it is worth.
@[simp] theorem tabs_behind (front : Bytes) (o : Opening) : (o.behind front).tabs = o.tabs :=
  rfl

@[simp] theorem tabs_followed (o : Opening) (more : Bytes) : (o.followed more).tabs = o.tabs :=
  rfl

@[simp] theorem retab_behind (front : Bytes) (o : Opening) :
    (o.behind front).retab = front ++ o.retab := by
  rw [retab, tabs_behind, retab]
  simp only [behind, List.append_assoc]

@[simp] theorem retab_followed (o : Opening) (more : Bytes) :
    (o.followed more).retab = o.retab ++ more := by
  rw [retab, tabs_followed, retab]
  simp only [followed, List.append_assoc]

/-- A front part that passes nothing on its own stops the search at once. -/
theorem takeWhile_append_of_eq_nil {α : Type} {p : α → Bool} {l m : List α}
    (hl : l.takeWhile p = []) (hm : l = [] → m.takeWhile p = []) :
    (l ++ m).takeWhile p = [] := by
  rw [List.takeWhile_append, hl]
  split
  · rename_i hlength
    have hnil := List.eq_nil_of_length_eq_zero hlength.symm
    rw [hm hnil, hnil, List.append_nil]
  · rfl

/-- Blank lines in front leave the parts proper. -/
theorem Proper.behind {o : Opening} (h : o.Proper) {front : Bytes}
    (hblank : ∀ b ∈ front, isBlank b) (hended : front = [] ∨ front.getLast? = some lf) :
    (o.behind front).Proper := by
  refine ⟨?_, ?_, h.margin_blank, h.lf_not_mem, h.rest_takeWhile⟩
  · intro b hb
    rcases List.mem_append.1 hb with hb | hb
    · exact hblank b hb
    · exact h.blankLines_blank b hb
  · -- Read from the end, the line feed met first is the document's own, if it has one.
    have hfront : front.reverse.takeWhile (· != lf) = [] := by
      rcases hended with rfl | hlast
      · rfl
      · rw [List.getLast?_eq_some_iff] at hlast
        rcases hlast with ⟨body, rfl⟩
        rw [List.reverse_concat, List.takeWhile_cons_of_neg (by decide)]
    rw [Opening.behind, List.reverse_append]
    exact takeWhile_append_of_eq_nil h.blankLines_ended fun _ => hfront

/-- Text behind a byte of code leaves the parts proper. -/
theorem Proper.followed {o : Opening} (h : o.Proper) (hrest : o.rest ≠ []) (more : Bytes) :
    (o.followed more).Proper :=
  ⟨h.blankLines_blank, h.blankLines_ended, h.margin_blank, h.lf_not_mem,
    takeWhile_append_of_eq_nil h.rest_takeWhile fun hnil => absurd hnil hrest⟩

/-- A document behind blank lines is cut where it is cut alone. -/
theorem ofDocument_behind {front : Bytes} (hblank : ∀ b ∈ front, isBlank b)
    (hended : front = [] ∨ front.getLast? = some lf) (source : Bytes) :
    ofDocument (front ++ source) = (ofDocument source).behind front := by
  have hproper := (proper_ofDocument source).behind hblank hended
  rw [← ofDocument_text hproper, text_behind, text_ofDocument]

-- Without a rest the document is all blank.
theorem rest_ne_nil {source : Bytes} (hcode : ∃ b ∈ source, isBlank b = false) :
    (ofDocument source).rest ≠ [] := by
  rcases hcode with ⟨b, hb, hsolid⟩
  intro hnil
  rw [← text_ofDocument source, text, hnil, List.append_nil, List.mem_append] at hb
  have hblank : isBlank b := by
    rcases hb with hb | hb
    · exact (proper_ofDocument source).blankLines_blank b hb
    · exact (proper_ofDocument source).margin_blank b hb
  rw [hsolid] at hblank
  exact absurd hblank Bool.false_ne_true

/-- A document with code is cut where it is cut alone, whatever follows it. -/
theorem ofDocument_followed {source : Bytes} (hcode : ∃ b ∈ source, isBlank b = false)
    (more : Bytes) : ofDocument (source ++ more) = (ofDocument source).followed more := by
  have hproper := (proper_ofDocument source).followed (rest_ne_nil hcode) more
  rw [← ofDocument_text hproper, text_followed, text_ofDocument]

end Opening

/-- Formatting changes nothing of what stands around a document: neither the blank lines in
    front of it, which only move its offsets, nor what follows its first byte of code. -/
theorem retab_local (front source more : Bytes) (hblank : ∀ b ∈ front, isBlank b = true)
    (hended : front = [] ∨ front.getLast? = some lf) :
    let o := Opening.ofDocument source
    (retab (front ++ source) = front ++ retab source ∧
      let o' := Opening.ofDocument (front ++ source)
      o'.lineStart = front.length + o.lineStart ∧ o'.scanEnd = front.length + o.scanEnd ∧
        o'.tabs = o.tabs) ∧
    ((∃ b ∈ source, isBlank b = false) →
      retab (front ++ source ++ more) = front ++ retab source ++ more ∧
        let o' := Opening.ofDocument (source ++ more)
        o'.lineStart = o.lineStart ∧ o'.scanEnd = o.scanEnd ∧ o'.tabs = o.tabs) := by
  intro o
  have hfront := Opening.ofDocument_behind hblank hended
  refine ⟨⟨?_, ?_⟩, ?_⟩
  · rw [retab, hfront, Opening.retab_behind, retab]
  · intro o'
    have ho' : o' = o.behind front := hfront source
    refine ⟨?_, ?_, ?_⟩
    · rw [ho', Opening.lineStart, Opening.behind, List.length_append, Opening.lineStart]
    · rw [ho', Opening.scanEnd, Opening.behind, List.length_append, Opening.scanEnd, Nat.add_assoc]
    · rw [ho']
      rfl
  · intro hcode
    have hmore := Opening.ofDocument_followed hcode more
    refine ⟨?_, ?_⟩
    · rw [List.append_assoc, retab, hfront, Opening.retab_behind, hmore, Opening.retab_followed,
        retab, List.append_assoc]
    · intro o'
      have ho' : o' = o.followed more := hmore
      rw [ho']
      exact ⟨rfl, rfl, rfl⟩

/-- A blank line that ends in a carriage return and line feed, and one that holds a stray
    carriage return, in front of an indented line that another follows. -/
theorem retab_local_strayReturn :
    let front := ofAscii " \r\n\r\t\n"
    (∀ b ∈ front, isBlank b = true) ∧ (front = [] ∨ front.getLast? = some lf) ∧
      (∃ b ∈ ofAscii "\r  a", isBlank b = false) ∧
      retab (front ++ ofAscii "\r  a" ++ ofAscii "\n  b") =
        front ++ retab (ofAscii "\r  a") ++ ofAscii "\n  b" := by
  have hblank : ∀ b ∈ ofAscii " \r\n\r\t\n", isBlank b = true :=
    List.all_eq_true.1 (by decide)
  have hended : ofAscii " \r\n\r\t\n" = [] ∨ (ofAscii " \r\n\r\t\n").getLast? = some lf := by
    decide
  have hcode : ∃ b ∈ ofAscii "\r  a", isBlank b = false :=
    ⟨97, by decide, by decide⟩
  exact ⟨hblank, hended, hcode,
    ((retab_local _ (ofAscii "\r  a") (ofAscii "\n  b") hblank hended).2 hcode).1⟩

end ConfIndent
