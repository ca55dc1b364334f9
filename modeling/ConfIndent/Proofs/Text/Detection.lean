import ConfIndent.Indent
import ConfIndent.Proofs.Text.Parted

/-!
# The Rules of Charset Detection

The charset of a document is told by the first of eight rules that applies to it. The rules are
listed here one by one, each with the documents it applies to and with what it tells of them. A
detector follows them on a document if its answer there is the one they give. It may do
otherwise on other documents, and what is shown of this one does not depend on that.

Of the order of the rules little is needed. Whichever rule it was, a charset that it tells extends
ASCII and fits the document, or there is a mark at the front, and no mark starts with a blank.

## Main definitions

* `Rule.Applies`: The documents that a rule applies to.
* `Rule.answer`: What a rule tells of a document.
* `Yields`: What a list of rules tells of a document.
* `Told`: What the rules tell of a document.
* `StartsSolid`: The document starts with a byte that is no blank.
* `Charset.withMark`: The charsets that marks tell.

## Theorems

* `told_iff`: The rules tell one charset at most, and the same one as `detect`.
* `cases_of_told`: A charset that is told extends ASCII, or a mark told it.
-/

namespace ConfIndent

open Bytes

/-- The rules by which charsets are told. -/
inductive Rule where
  /-- The document is empty. -/
  | empty
  /-- The mark of UTF-8 is at the front. -/
  | utf8Mark
  /-- A mark of units of four bytes is at the front. -/
  | utf32Mark
  /-- A mark of units of two bytes is at the front. -/
  | utf16Mark
  /-- There are null bytes, and the document is not UTF-8. -/
  | binary
  /-- The document declares its charset. -/
  | declaration
  /-- The document is ASCII. -/
  | ascii
  /-- The document is UTF-8. -/
  | utf8

/-- The rules in the order in which they are tried. -/
def rules : List Rule :=
  [.empty, .utf8Mark, .utf32Mark, .utf16Mark, .binary, .declaration, .ascii, .utf8]

namespace Rule

/-- The documents that a rule applies to. -/
def Applies (document : Bytes) : Rule → Prop
  | empty => document = []
  | utf8Mark => Charset.utf8Mark <+: document ∧ Charset.utf8.accepts document
  | utf32Mark =>
    ([0xFF, 0xFE, 0, 0] <+: document ∨ [0, 0, 0xFE, 0xFF] <+: document) ∧
      Charset.utf32.accepts document
  | utf16Mark =>
    ([0xFF, 0xFE] <+: document ∨ [0xFE, 0xFF] <+: document) ∧ Charset.utf16.accepts document
  | binary => 0 ∈ document ∧ ¬Charset.utf8.accepts document
  | declaration => ∃ c, Declaration.charset? document = some c ∧ c.accepts document
  | ascii => Ascii document
  | utf8 => Charset.utf8.accepts document

/-- What a rule tells of a document that it applies to. -/
def answer (document : Bytes) : Rule → Option Charset
  | empty | utf8Mark | utf8 => some .utf8
  | utf32Mark => some .utf32
  | utf16Mark => some .utf16
  | binary => none
  | declaration => Declaration.charset? document
  | ascii => some .ascii

end Rule

/-- What a list of rules tells of a document. -/
inductive Yields (document : Bytes) : List Rule → Option Charset → Prop where
  /-- Without a rule there is no answer. -/
  | silent : Yields document [] none
  /-- The first rule applies and gives the answer. -/
  | first {rule : Rule} {rest : List Rule} (h : rule.Applies document) :
    Yields document (rule :: rest) (rule.answer document)
  /-- The first rule does not apply. -/
  | later {rule : Rule} {rest : List Rule} {answer : Option Charset} (h : ¬rule.Applies document)
    (hrest : Yields document rest answer) : Yields document (rule :: rest) answer

/-- What the rules tell of a document. -/
abbrev Told (document : Bytes) (answer : Option Charset) : Prop :=
  Yields document rules answer

/-- A list of rules gives one answer. -/
theorem Yields.unique {document : Bytes} {list : List Rule} {answer other : Option Charset}
    (h : Yields document list answer) (hother : Yields document list other) : answer = other := by
  induction h with
  | silent =>
    cases hother
    rfl
  | first h =>
    rcases hother with _ | _ | ⟨hnot, -⟩
    · rfl
    · exact absurd h hnot
  | later hnot _ ih =>
    rcases hother with _ | h | ⟨-, hother⟩
    · exact absurd h hnot
    · exact ih hother

/-- An answer is that of a rule that applies. -/
theorem Yields.exists_rule {document : Bytes} {list : List Rule} {charset : Charset}
    (h : Yields document list (some charset)) :
    ∃ rule : Rule, rule.Applies document ∧ rule.answer document = some charset := by
  generalize hanswer : some charset = answer at h
  induction h with
  | silent => cases hanswer
  | first h => exact ⟨_, h, rfl⟩
  | later _ _ ih => exact ih hanswer

namespace Charset

/-- What can be read in ASCII is ASCII. -/
theorem accepts_ascii_iff {bytes : Bytes} : ascii.accepts bytes = true ↔ Ascii bytes := by
  constructor
  · intro h
    rcases Option.isSome_iff_exists.1 h with ⟨text, htext⟩
    intro b hb
    rcases exists_mem_of_mapM htext hb with ⟨c, -, hchar⟩
    split at hchar
    · assumption
    · cases hchar
  · intro h
    have hread := (parted_of_mem (by decide : ascii ∈ extendAscii)).read_ascii h
    rw [accepts, hread, Option.isSome_some]

end Charset

theorem isSome_marked?_utf16_iff {document : Bytes} : (Utf16.marked? document).isSome = true ↔
    [0xFF, 0xFE] <+: document ∨ [0xFE, 0xFF] <+: document := by
  rw [Utf16.marked?, ← List.isPrefixOf_iff_prefix, ← List.isPrefixOf_iff_prefix]
  cases List.isPrefixOf [0xFF, 0xFE] document <;> cases List.isPrefixOf [0xFE, 0xFF] document <;>
    decide

theorem isSome_marked?_utf32_iff {document : Bytes} : (Utf32.marked? document).isSome = true ↔
    [0xFF, 0xFE, 0, 0] <+: document ∨ [0, 0, 0xFE, 0xFF] <+: document := by
  rw [Utf32.marked?, ← List.isPrefixOf_iff_prefix, ← List.isPrefixOf_iff_prefix]
  cases List.isPrefixOf [0xFF, 0xFE, 0, 0] document <;>
    cases List.isPrefixOf [0, 0, 0xFE, 0xFF] document <;> decide

/-- Without a mark the bytes of a document tell what is detected. -/
theorem yields_of_unmarked {document : Bytes} (hempty : document ≠ [])
    (hunmarked : markedCharset? document = none) :
    Yields document [.binary, .declaration, .ascii, .utf8] (detect document) := by
  rw [detect, if_neg hempty, hunmarked]
  by_cases hbinary : 0 ∈ document ∧ ¬Charset.utf8.accepts document = true
  · simp only [if_pos hbinary]
    exact .first hbinary
  simp only [if_neg hbinary]
  refine .later hbinary ?_
  rcases hdeclared : (Declaration.charset? document).filter (·.accepts document) with _ | charset
  · simp only [hdeclared]
    refine .later ?_ ?_
    · rintro ⟨charset, hcharset, haccepts⟩
      exact absurd haccepts (Option.filter_eq_none_iff.1 hdeclared _ hcharset)
    by_cases hascii : Charset.ascii.accepts document = true
    · rw [if_pos hascii]
      exact .first (Charset.accepts_ascii_iff.1 hascii)
    rw [if_neg hascii]
    refine .later (mt Charset.accepts_ascii_iff.2 hascii) ?_
    by_cases hutf8 : Charset.utf8.accepts document = true
    · rw [if_pos hutf8]
      exact .first hutf8
    · rw [if_neg hutf8]
      exact .later hutf8 .silent
  · simp only [hdeclared]
    rcases Option.filter_eq_some_iff.1 hdeclared with ⟨hcharset, haccepts⟩
    have hrule : Rule.declaration.answer document = some charset := hcharset
    rw [← hrule]
    exact .first ⟨charset, hcharset, haccepts⟩

/-- The rules tell of a document what is detected. -/
theorem told_detect (document : Bytes) : Told document (detect document) := by
  by_cases hempty : document = []
  · rw [detect, if_pos hempty]
    exact .first hempty
  refine .later hempty ?_
  have hmarked {charset : Charset} (h : markedCharset? document = some charset) :
      detect document = some charset := by
    rw [detect, if_neg hempty, h]
  have hrest := yields_of_unmarked hempty
  rw [markedCharset?] at hmarked hrest
  simp only [Bool.and_eq_true, List.isPrefixOf_iff_prefix, isSome_marked?_utf32_iff,
    isSome_marked?_utf16_iff] at hmarked hrest
  by_cases hutf8 : Charset.utf8Mark <+: document ∧ Charset.utf8.accepts document = true
  · rw [hmarked (if_pos hutf8)]
    exact .first hutf8
  rw [if_neg hutf8] at hmarked hrest
  refine .later hutf8 ?_
  by_cases hutf32 : ([0xFF, 0xFE, 0, 0] <+: document ∨ [0, 0, 0xFE, 0xFF] <+: document) ∧
      Charset.utf32.accepts document = true
  · rw [hmarked (if_pos hutf32)]
    exact .first hutf32
  rw [if_neg hutf32] at hmarked hrest
  refine .later hutf32 ?_
  by_cases hutf16 : ([0xFF, 0xFE] <+: document ∨ [0xFE, 0xFF] <+: document) ∧
      Charset.utf16.accepts document = true
  · rw [hmarked (if_pos hutf16)]
    exact .first hutf16
  · exact .later hutf16 (hrest (if_neg hutf16))

/-- The rules tell one answer, and that is the one that is detected. -/
theorem told_iff {document : Bytes} {answer : Option Charset} :
    Told document answer ↔ detect document = answer := by
  constructor
  · exact (told_detect document).unique
  · rintro rfl
    exact told_detect document

/-- The document starts with a byte that is no blank. -/
def StartsSolid (document : Bytes) : Prop :=
  ∃ b rest, document = b :: rest ∧ isBlank b = false

theorem startsSolid_of_prefix {mark document : Bytes} (hmark : StartsSolid mark)
    (h : mark <+: document) : StartsSolid document := by
  rcases hmark with ⟨b, rest, rfl, hb⟩
  rcases h with ⟨more, rfl⟩
  exact ⟨b, rest ++ more, List.cons_append, hb⟩

/-- Only charsets that extend ASCII can be declared. -/
theorem mem_extendAscii_of_declared {document : Bytes} {charset : Charset}
    (h : Declaration.charset? document = some charset) : charset ∈ Charset.extendAscii := by
  rcases List.exists_of_findSome?_eq_some h with ⟨name, -, hname⟩
  have hknown : ∀ entry ∈ Declaration.known, entry.2 ∈ Charset.extendAscii := by
    decide
  rcases List.lookup_eq_some_iff.1 hname with ⟨before, after, hentries, -⟩
  refine hknown (name, charset) ?_
  rw [hentries]
  exact List.mem_append_right _ List.mem_cons_self

/-- The charsets that marks tell. -/
def Charset.withMark : List Charset :=
  [utf8, utf16, utf32]

/-- A charset that is told extends ASCII and the document can be read in it, or a mark told
    it. -/
theorem cases_of_told {document : Bytes} {charset : Charset} (h : Told document (some charset)) :
    charset ∈ Charset.extendAscii ∧ charset.accepts document = true ∨
      charset ∈ Charset.withMark ∧ StartsSolid document := by
  have hsolid {mark : Bytes} (hmark : mark <+: document) (b : UInt8) (rest : Bytes)
      (hsplit : mark = b :: rest) (hb : isBlank b = false) : StartsSolid document :=
    startsSolid_of_prefix ⟨b, rest, hsplit, hb⟩ hmark
  rcases h.exists_rule with ⟨rule, happlies, hanswer⟩
  cases rule with
  | empty =>
    cases hanswer
    obtain rfl : document = [] := happlies
    exact .inl ⟨by decide, rfl⟩
  | utf8Mark =>
    cases hanswer
    exact .inr ⟨by decide, hsolid happlies.1 _ _ rfl (by decide)⟩
  | utf32Mark =>
    cases hanswer
    refine .inr ⟨by decide, ?_⟩
    rcases happlies.1 with hmark | hmark <;> exact hsolid hmark _ _ rfl (by decide)
  | utf16Mark =>
    cases hanswer
    refine .inr ⟨by decide, ?_⟩
    rcases happlies.1 with hmark | hmark <;> exact hsolid hmark _ _ rfl (by decide)
  | binary => cases hanswer
  | declaration =>
    rcases happlies with ⟨declared, hdeclared, haccepts⟩
    have hsame : declared = charset := Option.some_inj.1 (hdeclared.symm.trans hanswer)
    rw [← hsame]
    exact .inl ⟨mem_extendAscii_of_declared hdeclared, haccepts⟩
  | ascii =>
    cases hanswer
    exact .inl ⟨by decide, Charset.accepts_ascii_iff.2 happlies⟩
  | utf8 =>
    cases hanswer
    exact .inl ⟨by decide, happlies⟩

end ConfIndent
