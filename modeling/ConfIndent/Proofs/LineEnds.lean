import ConfIndent.Proofs.Diff.Retab

/-!
# The Lines That Are Kept

Formatting moves the front of one line and leaves the lines themselves as they are. There
are two ways to cut a document into lines. Tools that look for line feeds find the same
pieces, and all of them unchanged but the one that the margin stands on. A carriage return
may end a line as well, and then it matters whether the margin holds one: it is blank and
is dropped. Where every carriage return stands before a line feed, none is in the margin,
and all lines keep the bytes that end them.

That no pair of a carriage return and a line feed is made or parted is a matter of the two
places where the margin is cut out. Before it stands a line feed or nothing, and behind it
a byte of code or nothing. Neither can be a half of a pair whose other half lies across.

## Main definitions

* `Bytes.countCrLf`: The number of line feeds that a carriage return stands before.
* `Lines.ending`: The bytes that end a line.
* `ReturnsPaired`: Every carriage return stands before a line feed.

## Theorems

* `Bytes.pieces_append_sep`, `Bytes.pieces_append_of_not_mem`: Pieces of joined texts.
* `Bytes.countCrLf_append`: Pairs of joined texts.
* `Opening.Proper.countCrLf_text`: The margin has no part in a pair.
* `ReturnsPaired.cr_not_mem_margin`: A margin holds no carriage return that is paired.
* `retab_lines`: Formatting keeps the lines of a document.
-/

namespace ConfIndent

open Bytes

namespace Bytes

/-- There is one more piece than there are separators. -/
theorem length_pieces (sep : UInt8) (text : Bytes) :
    (pieces sep text).length = text.count sep + 1 := by
  induction text with
  | nil => rfl
  | cons b rest ih =>
    obtain ⟨p, ps, hp⟩ := List.exists_cons_of_ne_nil (pieces_ne_nil sep rest)
    rw [hp, List.length_cons] at ih
    rw [pieces, hp]
    by_cases hb : b = sep
    · rw [if_pos hb, hb, List.count_cons_self, List.length_cons, List.length_cons, ih]
    · rw [if_neg hb, List.count_cons_of_ne hb, consFirst, List.length_cons, ih]

/-- Behind a separator a text is cut into pieces as if it stood alone. -/
theorem pieces_append_sep (sep : UInt8) (text rest : Bytes) :
    pieces sep (text ++ sep :: rest) = pieces sep text ++ pieces sep rest := by
  induction text with
  | nil => exact if_pos rfl
  | cons b text ih =>
    rw [List.cons_append, pieces, pieces, ih]
    split
    · rfl
    · exact Lines.consFirst_append (pieces_ne_nil sep text) _

/-- A text without separators stands in front of the first piece of what follows it. -/
theorem pieces_append_of_not_mem {sep : UInt8} {text : Bytes} (h : sep ∉ text) (rest : Bytes) :
    pieces sep (text ++ rest) = (pieces sep rest).modifyHead (text ++ ·) := by
  obtain ⟨p, ps, hp⟩ := List.exists_cons_of_ne_nil (pieces_ne_nil sep rest)
  rw [hp, List.modifyHead_cons]
  induction text with
  | nil => rw [List.nil_append, hp, List.nil_append]
  | cons b text ih =>
    rw [List.mem_cons, not_or] at h
    rw [List.cons_append, pieces, if_neg (Ne.symm h.1), ih h.2, consFirst, List.cons_append]

/-- The number of line feeds that a carriage return stands before. -/
def countCrLf (text : Bytes) : Nat :=
  (text.zip text.tail).count (cr, lf)

/-- One byte more makes at most one line end more. -/
theorem countCrLf_cons (b : UInt8) (text : Bytes) :
    countCrLf (b :: text) = countCrLf text + if b = cr ∧ text.head? = some lf then 1 else 0 := by
  cases text with
  | nil =>
    simp only [List.head?_nil, reduceCtorEq, and_false, if_false]
    rfl
  | cons c text =>
    have hpair : ((b, c) == (cr, lf)) = true ↔ b = cr ∧ some c = some lf := by
      rw [beq_iff_eq, Prod.mk.injEq, Option.some_inj]
    rw [countCrLf, List.tail_cons, List.zip_cons_cons, List.count_cons, countCrLf, List.tail_cons,
      List.head?_cons]
    simp only [hpair]

/-- A pair of joined texts stands in one of them, or half in either. -/
theorem countCrLf_append (text rest : Bytes) :
    countCrLf (text ++ rest) = countCrLf text + countCrLf rest +
      if text.getLast? = some cr ∧ rest.head? = some lf then 1 else 0 := by
  induction text with
  | nil =>
    rw [List.nil_append, List.getLast?_nil, if_neg fun h => Option.some_ne_none cr h.1.symm]
    exact (Nat.zero_add _).symm
  | cons b text ih =>
    rw [List.cons_append, countCrLf_cons, ih, countCrLf_cons]
    rcases text with _ | ⟨c, text⟩
    · -- The byte is the last, so a pair that it opens lies across.
      simp only [List.nil_append, List.getLast?_nil, List.getLast?_singleton, List.head?_nil,
        Option.some_inj, reduceCtorEq, false_and, and_false, if_false, Nat.add_zero]
    · rw [List.getLast?_cons_cons, List.cons_append, List.head?_cons, List.head?_cons]
      omega

theorem countCrLf_of_not_mem {text : Bytes} (h : lf ∉ text) : countCrLf text = 0 := by
  rw [countCrLf, List.count_eq_zero]
  intro hmem
  exact h (List.mem_of_mem_tail (List.of_mem_zip hmem).2)

end Bytes

namespace Lines

/-- The bytes that end a line: a line feed, a carriage return, or both. A last line may have
    none. -/
def ending (line : Bytes) : Bytes :=
  line.dropWhile fun b => b != lf && b != cr

-- What stands in front of a line and ends none is no part of its end.
theorem ending_append {front : Bytes} (hlf : lf ∉ front) (hcr : cr ∉ front) (line : Bytes) :
    ending (front ++ line) = ending line := by
  refine List.dropWhile_append_of_pos ?_
  intro b hb
  rw [Bool.and_eq_true, bne_iff_ne, bne_iff_ne]
  constructor
  · rintro rfl
    exact hlf hb
  · rintro rfl
    exact hcr hb

end Lines

/-- Every carriage return stands before a line feed. -/
def ReturnsPaired (text : Bytes) : Prop :=
  ∀ i : Nat, text[i]? = some cr → text[i + 1]? = some lf

instance decidableReturnsPaired (text : Bytes) : Decidable (ReturnsPaired text) :=
  decidable_of_iff (∀ i < text.length, text[i]? = some cr → text[i + 1]? = some lf)
    ⟨fun h i hi => h i (List.getElem?_eq_some_iff.1 hi).1 hi, fun h i _ => h i⟩

namespace Opening

variable {o : Opening}

-- The rest does not open with a blank, and so not with a line feed.
theorem Proper.head?_rest_ne (h : o.Proper) : o.rest.head? ≠ some lf := by
  intro hhead
  have hrest := h.rest_takeWhile
  rcases hcons : o.rest with _ | ⟨b, rest⟩
  · rw [hcons] at hhead
    cases hhead
  · rw [hcons, List.head?_cons, Option.some_inj] at hhead
    rw [hcons, hhead, List.takeWhile_cons_of_pos (by decide)] at hrest
    exact absurd hrest (List.cons_ne_nil _ _)

/-- The pieces before the margin, as many as there are blank lines. -/
theorem Proper.exists_pieces (h : o.Proper) :
    ∃ front : List Bytes, front.length = o.blankLines.count lf ∧
      ∀ text, pieces lf (o.blankLines ++ text) = front ++ pieces lf text := by
  rcases h.ended_blankLines with hnil | hlast
  · exact ⟨[], by rw [hnil]; rfl, fun text => by rw [hnil]; rfl⟩
  · rcases List.getLast?_eq_some_iff.1 hlast with ⟨body, hbody⟩
    refine ⟨pieces lf body, ?_, ?_⟩
    · rw [hbody, length_pieces, List.count_append, List.count_singleton_self]
    · intro text
      rw [hbody, List.append_assoc, List.singleton_append, pieces_append_sep]

/-- The margin has no part in a pair of a carriage return and a line feed. -/
theorem Proper.countCrLf_text (h : o.Proper) :
    countCrLf o.text = countCrLf o.blankLines + countCrLf o.rest := by
  have hbefore : o.blankLines.getLast? ≠ some cr := by
    rcases h.ended_blankLines with hnil | hlast
    · rw [hnil]
      exact nofun
    · rw [hlast]
      decide
  have hbehind := h.head?_rest_ne
  rw [text, List.append_assoc, countCrLf_append, if_neg fun hpair => hbefore hpair.1,
    countCrLf_append, if_neg fun hpair => hbehind hpair.2, countCrLf_of_not_mem h.lf_not_mem]
  omega

theorem count_text_of_not_mem {b : UInt8} (hb : b ∉ o.margin) :
    o.text.count b = o.blankLines.count b + o.rest.count b := by
  rw [text, List.count_append, List.count_append, List.count_eq_zero.2 hb, Nat.add_zero]

/-- The end of the line that the margin stands on is found behind the margin. -/
theorem Proper.map_ending_split (h : o.Proper) (hne : o.margin ≠ []) (hcr : cr ∉ o.margin) :
    (Lines.split o.text).map Lines.ending =
      (Lines.split o.blankLines).map Lines.ending ++
        Lines.ending ((Lines.split o.rest).headD []) :: o.laterLines.map Lines.ending := by
  rw [h.split_text hne hcr, List.map_append, List.map_cons, firstLine,
    Lines.ending_append h.lf_not_mem hcr]

section Margins

variable {o' : Opening} (h : o.Proper) (h' : o'.Proper) (hlines : o'.blankLines = o.blankLines)
  (hrest : o'.rest = o.rest)

include h h' hlines hrest

/-- Another margin changes the piece that it stands on, and no other. -/
theorem Proper.exists_pieces_text :
    ∃ front piece back, front.length = o.blankLines.count lf ∧
      pieces lf o.text = front ++ (o.margin ++ piece) :: back ∧
      pieces lf o'.text = front ++ (o'.margin ++ piece) :: back := by
  rcases h.exists_pieces with ⟨front, hlength, hfront⟩
  obtain ⟨piece, back, hpieces⟩ := List.exists_cons_of_ne_nil (pieces_ne_nil lf o.rest)
  refine ⟨front, piece, back, hlength, ?_, ?_⟩
  · rw [text, List.append_assoc, hfront, pieces_append_of_not_mem h.lf_not_mem, hpieces,
      List.modifyHead_cons]
  · rw [text, List.append_assoc, hlines, hrest, hfront, pieces_append_of_not_mem h'.lf_not_mem,
      hpieces, List.modifyHead_cons]

/-- Another margin neither makes nor parts a pair. -/
theorem Proper.countCrLf_text_eq : countCrLf o'.text = countCrLf o.text := by
  rw [h'.countCrLf_text, h.countCrLf_text, hlines, hrest]

omit h h' in
theorem count_text_eq {b : UInt8} (hb : b ∉ o.margin) (hb' : b ∉ o'.margin) :
    o'.text.count b = o.text.count b := by
  rw [count_text_of_not_mem hb', count_text_of_not_mem hb, hlines, hrest]

/-- Another margin leaves the ends of all lines, if no carriage return stands in either. -/
theorem Proper.map_ending_split_eq (hne : o.margin ≠ []) (hcr : cr ∉ o.margin)
    (hne' : o'.margin ≠ []) (hcr' : cr ∉ o'.margin) :
    (Lines.split o'.text).map Lines.ending = (Lines.split o.text).map Lines.ending := by
  rw [h'.map_ending_split hne' hcr', h.map_ending_split hne hcr, hlines, hrest, laterLines,
    laterLines, hrest]

end Margins

end Opening

theorem ReturnsPaired.head?_eq {front back : Bytes} (h : ReturnsPaired (front ++ cr :: back)) :
    back.head? = some lf := by
  have hnext := h front.length (Diff.getElem?_replaced_length front back cr)
  rwa [List.getElem?_append_right (Nat.le_add_right _ 1), Nat.add_sub_cancel_left,
    List.getElem?_cons_succ, ← List.head?_eq_getElem?] at hnext

/-- A margin holds no carriage return that stands before a line feed. -/
theorem ReturnsPaired.cr_not_mem_margin {source : Bytes} (h : ReturnsPaired source) :
    cr ∉ (Opening.ofDocument source).margin := by
  have hproper := Opening.proper_ofDocument source
  intro hmem
  rcases List.append_of_mem hmem with ⟨before, behind, hmargin⟩
  rw [← Opening.text_ofDocument source, Opening.text, hmargin, ← List.append_assoc,
    List.append_assoc, List.cons_append] at h
  -- What stands behind the carriage return is more of the margin, or the rest.
  have hnext := h.head?_eq
  rcases behind with _ | ⟨b, behind⟩
  · exact hproper.head?_rest_ne hnext
  · rw [List.cons_append, List.head?_cons, Option.some_inj] at hnext
    have hlf : lf ∈ (Opening.ofDocument source).margin := by
      rw [hmargin, hnext]
      exact List.mem_append_right _ (List.mem_cons_of_mem _ List.mem_cons_self)
    exact hproper.lf_not_mem hlf

-- The new margin holds tabs.
theorem not_mem_margin_retab (source : Bytes) {b : UInt8} (hb : b ≠ tab) :
    b ∉ (Opening.ofDocument (retab source)).margin := by
  rw [ofDocument_retab]
  exact fun hmem => hb (List.eq_of_mem_replicate hmem)

/-- All lines of a formatted document end as they did, if no carriage return stands in the
    margin. -/
theorem map_ending_split_retab {source : Bytes} (hcr : cr ∉ (Opening.ofDocument source).margin) :
    (Lines.split (retab source)).map Lines.ending = (Lines.split source).map Lines.ending := by
  by_cases hsame : retab source = source
  · rw [hsame]
  · have hspace : space ∈ (Opening.ofDocument source).margin := by
      rw [retab_eq_self_iff, Opening.margin_tabs_iff, Decidable.not_not] at hsame
      exact hsame.resolve_right hcr
    have hne' : (Opening.ofDocument (retab source)).margin ≠ [] := by
      rw [ofDocument_retab, ne_eq, List.replicate_eq_nil_iff]
      exact Opening.tabs_ne_zero hspace
    have hends := (Opening.proper_ofDocument source).map_ending_split_eq
      (Opening.proper_ofDocument (retab source)) (by rw [ofDocument_retab])
      (by rw [ofDocument_retab]) (List.ne_nil_of_mem hspace) hcr hne'
      (not_mem_margin_retab source (by decide))
    rwa [Opening.text_ofDocument, Opening.text_ofDocument] at hends

/-- Formatting keeps the lines of a document. Between line feeds it keeps all pieces but one,
    and of that one what does not stand in front of the code. Line feeds and pairs are as many
    as before; and if carriage returns stand in pairs only, they are as many, too, and every
    line ends as it did. -/
theorem retab_lines (source : Bytes) :
    let start := (Opening.ofDocument source).lineStart
    (∃ front piece piece' back, pieces lf source = front ++ piece :: back ∧
        pieces lf (retab source) = front ++ piece' :: back ∧
        front.length = (source.take start).count lf ∧
        piece'.dropWhile isBlank = piece.dropWhile isBlank) ∧
      (retab source).count lf = source.count lf ∧
      countCrLf (retab source) = countCrLf source ∧
      (ReturnsPaired source →
        (retab source).count cr = source.count cr ∧
          (Lines.split (retab source)).length = (Lines.split source).length ∧
          (Lines.split (retab source)).map Lines.ending =
            (Lines.split source).map Lines.ending) := by
  intro start
  have hproper := Opening.proper_ofDocument source
  have hproper' := Opening.proper_ofDocument (retab source)
  have hlines : (Opening.ofDocument (retab source)).blankLines =
      (Opening.ofDocument source).blankLines := by rw [ofDocument_retab]
  have hrest : (Opening.ofDocument (retab source)).rest = (Opening.ofDocument source).rest := by
    rw [ofDocument_retab]
  have htake : source.take start = (Opening.ofDocument source).blankLines :=
    Opening.take_lineStart source
  have hcount {b : UInt8} (hb : b ∉ (Opening.ofDocument source).margin) (htab : b ≠ tab) :
      (retab source).count b = source.count b := by
    have htexts := Opening.count_text_eq hlines hrest hb (not_mem_margin_retab source htab)
    rwa [Opening.text_ofDocument, Opening.text_ofDocument] at htexts
  refine ⟨?_, hcount hproper.lf_not_mem (by decide), ?_, ?_⟩
  · rcases hproper.exists_pieces_text hproper' hlines hrest with
      ⟨front, piece, back, hlength, hpieces, hpieces'⟩
    rw [Opening.text_ofDocument] at hpieces hpieces'
    refine ⟨front, _, _, back, hpieces, hpieces', by rw [hlength, htake], ?_⟩
    rw [List.dropWhile_append_of_pos hproper'.margin_blank,
      List.dropWhile_append_of_pos hproper.margin_blank]
  · have htexts := hproper.countCrLf_text_eq hproper' hlines hrest
    rwa [Opening.text_ofDocument, Opening.text_ofDocument] at htexts
  · intro hpaired
    have hcr := hpaired.cr_not_mem_margin
    have hends := map_ending_split_retab hcr
    refine ⟨hcount hcr (by decide), ?_, hends⟩
    have hlength := congrArg List.length hends
    rwa [List.length_map, List.length_map] at hlength

/-- Blank lines that end in pairs, an indented line that ends in one, and a last line without
    an end. -/
theorem retab_lines_pairs :
    let source := ofAscii "\r\n \r\n  a\r\nb"
    ReturnsPaired source ∧ (retab source).count cr = source.count cr ∧
      (Lines.split (retab source)).map Lines.ending =
        [[cr, lf], [cr, lf], [cr, lf], []] := by
  intro source
  have hpaired : ReturnsPaired source := by
    decide
  rcases (retab_lines source).2.2.2 hpaired with ⟨hcount, -, hends⟩
  refine ⟨hpaired, hcount, ?_⟩
  rw [hends]
  decide

end ConfIndent
