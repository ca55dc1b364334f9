import ConfIndent.Proofs.Text.Display
import ConfIndent.Proofs.Text.Strict

/-!
# Text That Can Always Be Shown

To show a text in a charset that is named may go wrong in several ways. There may be no charset
of that name, and the bytes may be no text in it. Both are foreseen, and the whole text is read
as UTF-8 with replacement characters then, whatever had been made of its beginning. That the name
holds a null character is not foreseen, and nothing is shown.

The charsets known here have no other way to fail. There are more on a real machine, which is why
it is also said what comes of a text where other codecs are found by name, each of which may fail
as it likes. Those that say no more than that the bytes are no text do no harm. One that fails
otherwise is not foreseen either.

## Main definitions

* `Codecs`: Further codecs, by name.
* `readNamed`: A text read strictly in the charset or codec of a name.
* `displayThrough`: A text as it is shown where there are further codecs.
* `Reads`: The bytes are the text, in the charset or codec of the name.
* `Breaks`: The codec of the name fails in a way that is not foreseen.
* `Tells`: What the answer of reading strictly says of the bytes.

## Theorems

* `tells_readNamed`: The answer tells what the bytes are.
* `displayNamed_eq_ok_iff`: Without further codecs a text is shown as it is shown in general.
* `displayThrough_renders`: When a text is shown, and as what.
* `displayNamed_null`: A name for which nothing is shown.
-/

namespace ConfIndent

open Bytes

/-- How a codec fails. -/
inductive CodecFailure where
  /-- The bytes are no text. -/
  | undecodable
  /-- Anything else, for the reason given. -/
  | other (reason : String)
  deriving DecidableEq, Repr

/-- Further codecs, by the names they are found under. -/
abbrev Codecs := String → Option (Bytes → Except CodecFailure (List Char))

/-- Why a text cannot be read strictly. -/
inductive ReadFailure where
  /-- The name of the charset holds a null character. -/
  | nullInName
  /-- There is no charset and no codec of that name. -/
  | unknown
  /-- The bytes are no text. -/
  | undecodable
  /-- The codec failed otherwise, for the reason given. -/
  | other (reason : String)
  deriving DecidableEq, Repr

/-- The failure is answered by replacement characters. -/
def ReadFailure.isForeseen : ReadFailure → Bool
  | unknown => true
  | undecodable => true
  | _ => false

/-- A failure of a codec is one to read. -/
def CodecFailure.toRead : CodecFailure → ReadFailure
  | undecodable => .undecodable
  | other reason => .other reason

/-- The name that is looked up. No name and an empty one stand for UTF-8. -/
def lookupName : Option String → String
  | none => "utf-8"
  | some name => if name.isEmpty then "utf-8" else name

/-- A text read strictly in the charset or codec of a name. Where there is nothing to be read no
    name is looked up. -/
def readNamed (others : Codecs) (bytes : Bytes) (name : String) : Except ReadFailure (List Char) :=
  if '\x00' ∈ name.toList then .error .nullInName
  else if bytes = [] then .ok []
  else
    match Charset.ofName? name, others name with
    | some c, _ => (c.decode? bytes).elim (.error .undecodable) .ok
    | none, some codec => (codec bytes).mapError CodecFailure.toRead
    | none, none => .error .unknown

/-- A text as it is shown where there are further codecs. -/
def displayThrough (others : Codecs) (bytes : Bytes) (name : Option String) :
    Except ReadFailure (List Char) :=
  match readNamed others bytes (lookupName name) with
  | .ok text => .ok text
  | .error e => if e.isForeseen then .ok (Utf8.decodeLossy bytes) else .error e

/-- The bytes are the text, in the charset or codec of the name. -/
inductive Reads (others : Codecs) (bytes : Bytes) (name : String) (text : List Char) : Prop where
  /-- The text is written so in the charset. -/
  | charset {c : Charset} (hname : Charset.ofName? name = some c) (h : c.Writes text bytes)
  /-- The codec says so. -/
  | codec {codec : Bytes → Except CodecFailure (List Char)} (hname : Charset.ofName? name = none)
    (hcodec : others name = some codec) (hne : bytes ≠ []) (h : codec bytes = .ok text)

/-- The codec of the name fails in a way that is not foreseen. -/
def Breaks (others : Codecs) (bytes : Bytes) (name : String) : Prop :=
  bytes ≠ [] ∧ Charset.ofName? name = none ∧
    ∃ codec reason, others name = some codec ∧ codec bytes = .error (.other reason)

section Reading

variable {others : Codecs} {bytes : Bytes} {name : String}

theorem reads_iff_of_charset {c : Charset} (hname : Charset.ofName? name = some c)
    {text : List Char} : Reads others bytes name text ↔ c.decode? bytes = some text := by
  rw [Charset.decode?_eq_some_iff]
  constructor
  · rintro (⟨hc, hwrites⟩ | ⟨hnone, -, -, -⟩)
    · rw [hname] at hc
      cases hc
      exact hwrites
    · rw [hname] at hnone
      cases hnone
  · exact .charset hname

/-- Where no charset is known, bytes are read by the codec of the name. -/
theorem reads_iff_of_codec (hname : Charset.ofName? name = none) {text : List Char} :
    Reads others bytes name text ↔
      bytes ≠ [] ∧ ∃ codec, others name = some codec ∧ codec bytes = .ok text := by
  constructor
  · rintro (⟨hc, -⟩ | ⟨-, hcodec, hne, hread⟩)
    · rw [hname] at hc
      cases hc
    · exact ⟨hne, _, hcodec, hread⟩
  · rintro ⟨hne, codec, hcodec, hread⟩
    exact .codec hname hcodec hne hread

theorem breaks_iff_of_codec (hname : Charset.ofName? name = none) :
    Breaks others bytes name ↔
      bytes ≠ [] ∧ ∃ codec reason, others name = some codec ∧
        codec bytes = .error (.other reason) := by
  rw [Breaks, and_iff_right hname]

/-- What the answer of reading strictly says of the bytes. -/
def Tells (others : Codecs) (bytes : Bytes) (name : String) :
    Except ReadFailure (List Char) → Prop
  | .ok text => ¬Breaks others bytes name ∧ (Reads others bytes name text ∨
      (∀ other, ¬Reads others bytes name other) ∧ text = Utf8.decodeLossy bytes)
  | .error e =>
    if e.isForeseen then ¬Breaks others bytes name ∧ ∀ other, ¬Reads others bytes name other
    else Breaks others bytes name

-- No charset that is known here fails otherwise than by refusing the bytes.
theorem tells_of_charset {c : Charset} (hname : Charset.ofName? name = some c) :
    Tells others bytes name ((c.decode? bytes).elim (.error .undecodable) .ok) := by
  have hbreaks : ¬Breaks others bytes name := by
    rintro ⟨-, hnone, -⟩
    rw [hname] at hnone
    cases hnone
  rcases hread : c.decode? bytes with _ | text
  · refine ⟨hbreaks, fun other hother => ?_⟩
    rw [reads_iff_of_charset hname, hread] at hother
    cases hother
  · exact ⟨hbreaks, .inl ((reads_iff_of_charset hname).2 hread)⟩

theorem tells_of_codec {codec : Bytes → Except CodecFailure (List Char)}
    (hname : Charset.ofName? name = none) (hcodec : others name = some codec) (hne : bytes ≠ []) :
    Tells others bytes name ((codec bytes).mapError CodecFailure.toRead) := by
  have hreads {text : List Char} : Reads others bytes name text ↔ codec bytes = .ok text := by
    rw [reads_iff_of_codec hname, hcodec, and_iff_right hne]
    simp only [Option.some_inj, exists_eq_left']
  have hbreaks : Breaks others bytes name ↔
      ∃ reason, codec bytes = .error (.other reason) := by
    rw [breaks_iff_of_codec hname, hcodec, and_iff_right hne]
    simp only [Option.some_inj, exists_and_left, exists_eq_left']
  rcases hread : codec bytes with (_ | reason) | text
  · rw [hread] at hreads hbreaks
    refine ⟨fun h => ?_, fun other hother => ?_⟩
    · rcases hbreaks.1 h with ⟨reason, hreason⟩
      cases hreason
    · cases hreads.1 hother
  · exact hbreaks.2 ⟨reason, hread⟩
  · rw [hread] at hreads hbreaks
    refine ⟨fun h => ?_, .inl (hreads.2 rfl)⟩
    rcases hbreaks.1 h with ⟨reason, hreason⟩
    cases hreason

theorem tells_of_unknown (hname : Charset.ofName? name = none) (hcodec : others name = none) :
    Tells others bytes name (.error .unknown) := by
  refine ⟨fun h => ?_, fun other hother => ?_⟩
  · rcases h with ⟨-, -, codec, reason, h, -⟩
    rw [hcodec] at h
    cases h
  · rcases (reads_iff_of_codec hname).1 hother with ⟨-, codec, h, -⟩
    rw [hcodec] at h
    cases h

theorem tells_of_nil : Tells others [] name (.ok []) := by
  refine ⟨fun h => h.1 rfl, ?_⟩
  rcases hname : Charset.ofName? name with _ | c
  · refine .inr ⟨fun other hother => ?_, rfl⟩
    exact ((reads_iff_of_codec hname).1 hother).1 rfl
  · exact .inl ((reads_iff_of_charset hname).2 c.decode?_nil)

/-- The answer tells what the bytes are, unless no name can be looked up. -/
theorem tells_readNamed (h : '\x00' ∉ name.toList) :
    Tells others bytes name (readNamed others bytes name) := by
  rw [readNamed, if_neg h]
  by_cases hbytes : bytes = []
  · rw [if_pos hbytes, hbytes]
    exact tells_of_nil
  rw [if_neg hbytes]
  rcases hname : Charset.ofName? name with _ | c
  · rcases hcodec : others name with _ | codec
    · exact tells_of_unknown hname hcodec
    · exact tells_of_codec hname hcodec hbytes
  · exact tells_of_charset hname

end Reading

/-- What is shown in the charset of a name depends on the name that is looked up. -/
theorem displayNamed_eq (bytes : Bytes) (name : Option String) :
    displayNamed bytes name =
      if '\x00' ∈ (lookupName name).toList then .error .nullInName
      else .ok (Charset.display (Charset.ofName? (lookupName name)) bytes) := by
  rcases name with _ | name
  · rfl
  · rw [displayNamed, lookupName]
    cases name.isEmpty with
    | true =>
      rw [if_pos rfl, if_pos rfl]
      rfl
    | false => rw [if_neg Bool.false_ne_true, if_neg Bool.false_ne_true]

/-- Without further codecs a text is shown as it is shown in general. -/
theorem displayNamed_eq_ok_iff (bytes : Bytes) (name : Option String) (text : List Char) :
    displayNamed bytes name = .ok text ↔
      displayThrough (fun _ => none) bytes name = .ok text := by
  -- The errors are of different kinds, the texts are not.
  have hok {shown : List Char} : (.ok shown : Except DisplayError (List Char)) = .ok text ↔
      (.ok shown : Except ReadFailure (List Char)) = .ok text := by
    rw [Except.ok.injEq, Except.ok.injEq]
  rw [displayNamed_eq, displayThrough, readNamed]
  by_cases hnull : '\x00' ∈ (lookupName name).toList
  · rw [if_pos hnull, if_pos hnull]
    exact iff_of_false (fun h => nomatch h) fun h => nomatch h
  rw [if_neg hnull, if_neg hnull]
  by_cases hbytes : bytes = []
  · rw [if_pos hbytes, hbytes, Charset.display_nil]
    exact hok
  rw [if_neg hbytes, Charset.display]
  rcases Charset.ofName? (lookupName name) with _ | c
  · exact hok
  · simp only [Option.bind_some]
    rcases c.decode? bytes with _ | t <;> exact hok

/-- A text is shown unless the name holds a null character or its codec fails in a way that is
    not foreseen. It is shown as what it is in the charset or codec of the name, or, if it is no
    text there or there is none of that name, as UTF-8 with replacement characters, all of it. -/
theorem displayThrough_renders (others : Codecs) (bytes : Bytes) (name : Option String) :
    ((∃ text, displayThrough others bytes name = .ok text) ↔
        '\x00' ∉ (lookupName name).toList ∧ ¬Breaks others bytes (lookupName name)) ∧
      (∀ text, displayThrough others bytes name = .ok text →
        Reads others bytes (lookupName name) text ∨
          (∀ other, ¬Reads others bytes (lookupName name) other) ∧
            text = Utf8.decodeLossy bytes) ∧
      ∀ text, displayNamed bytes name = .ok text ↔
        displayThrough (fun _ => none) bytes name = .ok text := by
  rw [← and_assoc]
  refine ⟨?_, displayNamed_eq_ok_iff bytes name⟩
  unfold displayThrough
  by_cases hnull : '\x00' ∈ (lookupName name).toList
  · -- No charset is looked up by such a name.
    rw [readNamed, if_pos hnull]
    refine ⟨iff_of_false ?_ fun h => h.1 hnull, fun text h => nomatch h⟩
    rintro ⟨text, ⟨⟩⟩
  rw [and_iff_right hnull]
  have htells : Tells others bytes (lookupName name) (readNamed others bytes (lookupName name)) :=
    tells_readNamed hnull
  generalize readNamed others bytes (lookupName name) = answer at htells
  rcases answer with e | text
  · rw [Tells] at htells
    by_cases he : e.isForeseen = true
    · rw [if_pos he] at htells
      simp only [if_pos he]
      refine ⟨iff_of_true ⟨_, rfl⟩ htells.1, ?_⟩
      rintro text ⟨⟩
      exact .inr ⟨htells.2, rfl⟩
    · rw [if_neg he] at htells
      simp only [if_neg he]
      refine ⟨iff_of_false ?_ (not_not_intro htells), fun text h => nomatch h⟩
      rintro ⟨text, ⟨⟩⟩
  · refine ⟨iff_of_true ⟨_, rfl⟩ htells.1, ?_⟩
    rintro text ⟨⟩
    exact htells.2

/-- Nothing is shown, not even replacement characters. -/
theorem displayNamed_null :
    displayNamed (ofAscii "a") (some "\x00") = .error .nullInName ∧
      Utf8.decodeLossy (ofAscii "a") = ['a'] :=
  ⟨rfl, by decide⟩

end ConfIndent
