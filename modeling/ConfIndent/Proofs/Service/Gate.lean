import ConfIndent.Proofs.Service.Framework
import ConfIndent.Service.Respond

/-!
# Which Requests Are Let In

A request to format gets one of three answers. If the switch in its query is set to a word that
has no meaning, or its form hands in no file, it is invalid. If both are as they should be but the
file is named otherwise than a file to format, it is refused. In all other cases the document is
formatted, under the name of the upload and with the change shown if the switch says so.

A query may set the switch several times and a form may have several fields for the file, with
other values and fields in between. The framework uses the last of each, and that is all that is
assumed of it. So whatever else two requests hold, and in whatever order, they get the same answer
if they have the last of each in common. A form that the framework does not read never comes to
the service, and the framework answers it by itself.

## Main definitions

* `NamesConf`: The name of a file to format.
* `Judged`: What a request to format deserves.

## Theorems

* `answer_judged`: A request to format gets what it deserves.
* `answer_congr`: What the answer to a request depends on.
* `respond_gate`: Which requests are let in, and what is answered to them and to the others.
* `respond_gate_unread`: A form that is not read because it has too many fields.
-/

namespace ConfIndent.Service

open Bytes

/-- The name of a file to format, in any case of letters. -/
def NamesConf (name : String) : Prop :=
  name ≠ "" ∧ ∃ stem tail, name.toList = stem ++ tail ∧ tail.map Char.toLower = ".conf".toList

/-- The names that are accepted are those of files to format. -/
theorem accepts_iff {name : String} : accepts name = true ↔ NamesConf name := by
  rw [accepts, Bool.and_eq_true, bne_iff_ne, List.isSuffixOf_iff_suffix]
  refine and_congr_right fun _ => ?_
  constructor
  · rintro ⟨front, hfront⟩
    rcases List.map_eq_append_iff.1 hfront.symm with ⟨stem, tail, hname, -, htail⟩
    exact ⟨stem, tail, hname, htail⟩
  · rintro ⟨stem, tail, hname, htail⟩
    rw [hname, List.map_append, htail]
    exact List.suffix_append _ _

/-- What a request to format deserves, by its query and its form. -/
inductive Judged (framework : Framework) (detector : Detector) (query : Bytes)
    (parts : List Part) : Reply → Prop where
  /-- Switch, file and name are as they should be. -/
  | formatted {withDiff : Bool} {name : String} {content : Bytes}
    (hswitch : framework.Switches query withDiff) (hfile : Uploads parts name content)
    (hname : NamesConf name) :
    Judged framework detector query parts
      (.formatted (Report.ofDocument content (FileName.ofString name) withDiff detector))
  /-- Only the name of the file is not as it should be. -/
  | refused {withDiff : Bool} {name : String} {content : Bytes}
    (hswitch : framework.Switches query withDiff) (hfile : Uploads parts name content)
    (hname : ¬NamesConf name) : Judged framework detector query parts .refused
  /-- The switch or the file is not as it should be. -/
  | invalid {problems : List Problem}
    (h : (∀ withDiff, ¬framework.Switches query withDiff) ∨
      ∀ name content, ¬Uploads parts name content) :
    Judged framework detector query parts (.invalid problems)

section Answer

variable {framework : Framework} (huses : framework.UsesLast) (detector : Detector)

include huses

/-- A request to format gets what it deserves. -/
theorem answer_judged (query : Bytes) {parts : List Part}
    (hread : framework.refusal? parts = none) :
    Judged framework detector query parts (answer framework detector query parts) := by
  have hswitch {p : Problem} (h : framework.switch (framework.pairs query) = .error p) withDiff :
      ¬framework.Switches query withDiff := by
    rw [← huses.switch_eq_ok_iff, h]
    exact fun h => nomatch h
  have hfile {p : Problem} (h : framework.file parts = .error p) name content :
      ¬Uploads parts name content := by
    rw [← huses.file_eq_ok_iff, h]
    exact fun h => nomatch h
  rw [answer, Framework.read, hread]
  rcases hs : framework.switch (framework.pairs query) with p | withDiff <;>
    rcases hf : framework.file parts with q | ⟨name, content⟩
  · exact .invalid (.inl (hswitch hs))
  · exact .invalid (.inl (hswitch hs))
  · exact .invalid (.inr (hfile hf))
  · rw [huses.switch_eq_ok_iff] at hs
    rw [huses.file_eq_ok_iff] at hf
    by_cases haccepts : accepts name = true
    · simp only [format, if_pos haccepts]
      exact .formatted hs hf (accepts_iff.1 haccepts)
    · simp only [format, if_neg haccepts]
      exact .refused hs hf (mt accepts_iff.2 haccepts)

theorem answer_of_switches {query : Bytes} {parts : List Part}
    (hread : framework.refusal? parts = none) {withDiff : Bool} {name : String} {content : Bytes}
    (hswitch : framework.Switches query withDiff) (hfile : Uploads parts name content) :
    answer framework detector query parts = format detector ⟨name, content, withDiff⟩ := by
  rw [answer, Framework.read, hread, huses.switch_eq_ok_iff.2 hswitch,
    huses.file_eq_ok_iff.2 hfile]

/-- What the answer to a request depends on. -/
theorem answer_congr {query query' : Bytes} {parts parts' : List Part}
    (hread : framework.refusal? parts = none) (hread' : framework.refusal? parts' = none)
    (hquery : ∀ value, LastValue query "diff" value ↔ LastValue query' "diff" value)
    (hparts : ∀ part, part.name = "file" → (LastPart parts part ↔ LastPart parts' part)) :
    answer framework detector query parts = answer framework detector query' parts' := by
  rw [answer, answer, Framework.read, Framework.read, hread, hread', huses.switch_congr hquery,
    huses.file_congr hparts]

end Answer

/-- A request to format comes to the answer to it. -/
theorem respond_eq_answer {r : Request} (hmethod : r.method = "POST")
    (hpath : leadsTo "/format" r.path = true) (framework : Framework) (detector : Detector) :
    respond r framework detector = answer framework detector r.query r.parts := by
  have hhealth : leadsTo "/health" r.path = false := by
    rw [leadsTo, Bool.or_eq_true, decide_eq_true_iff, decide_eq_true_iff] at hpath
    rcases hpath with hpath | hpath <;> rw [hpath] <;> decide
  rw [respond, hhealth, if_neg Bool.false_ne_true, if_pos hpath, if_pos hmethod]

section Judged

variable {framework : Framework} {detector : Detector} {query : Bytes} {parts : List Part}
  {reply : Reply} (h : Judged framework detector query parts reply)

include h

/-- What is let in has a switch, a file and a name as they should be. -/
theorem Judged.exists_of_status (hstatus : reply.status = 200) :
    ∃ withDiff name content, framework.Switches query withDiff ∧ Uploads parts name content ∧
      NamesConf name := by
  rcases h with ⟨hswitch, hfile, hname⟩ | _ | _
  · exact ⟨_, _, _, hswitch, hfile, hname⟩
  · cases hstatus
  · cases hstatus

theorem Judged.status_eq (hstatus : reply.status ≠ 200) : reply.status = 422 := by
  rcases h with _ | _ | _
  · exact absurd rfl hstatus
  · rfl
  · rfl

theorem Judged.exists_of_text (htext : reply.text? = some "Only .conf files are supported") :
    ∃ withDiff name content, framework.Switches query withDiff ∧ Uploads parts name content ∧
      ¬NamesConf name := by
  rcases h with _ | ⟨hswitch, hfile, hname⟩ | _
  · cases htext
  · exact ⟨_, _, _, hswitch, hfile, hname⟩
  · cases htext

end Judged

/-- A request to format whose form is not read is answered by the framework. Any other is let in
    just if its last word for the switch has a meaning and its last field for the file is an upload
    under the name of a file to format. It is answered by the report on that document then, and by
    a status for invalid requests in all other cases, with a text about names if only the name was
    wrong. Two requests with the last word and the last field in common are answered alike. -/
theorem respond_gate {framework : Framework} (huses : framework.UsesLast) (detector : Detector)
    {r : Request} (hmethod : r.method = "POST") (hpath : leadsTo "/format" r.path = true) :
    let reply := respond r framework detector
    (∀ refusal, framework.refusal? r.parts = some refusal → reply = refusal) ∧
    (framework.refusal? r.parts = none →
      (reply.status = 200 ↔ ∃ withDiff name content, framework.Switches r.query withDiff ∧
        Uploads r.parts name content ∧ NamesConf name) ∧
      (∀ withDiff name content, framework.Switches r.query withDiff →
        Uploads r.parts name content → NamesConf name →
        reply =
          .formatted (Report.ofDocument content (FileName.ofString name) withDiff detector)) ∧
      (reply.status ≠ 200 → reply.status = 422) ∧
      (reply.text? = some "Only .conf files are supported" ↔
        ∃ withDiff name content, framework.Switches r.query withDiff ∧
          Uploads r.parts name content ∧ ¬NamesConf name) ∧
      ∀ r' : Request, r'.method = "POST" → leadsTo "/format" r'.path = true →
        framework.refusal? r'.parts = none →
        (∀ value, LastValue r.query "diff" value ↔ LastValue r'.query "diff" value) →
        (∀ part, part.name = "file" → (LastPart r.parts part ↔ LastPart r'.parts part)) →
        reply = respond r' framework detector) := by
  intro reply
  have hanswer : reply = answer framework detector r.query r.parts :=
    respond_eq_answer hmethod hpath framework detector
  refine ⟨fun refusal hrefused => by rw [hanswer, answer, Framework.read, hrefused], ?_⟩
  intro hread
  have hjudged := answer_judged huses detector r.query hread
  rw [← hanswer] at hjudged
  have hlet {withDiff : Bool} {name : String} {content : Bytes}
      (hswitch : framework.Switches r.query withDiff) (hfile : Uploads r.parts name content) :
      reply = format detector ⟨name, content, withDiff⟩ :=
    hanswer.trans (answer_of_switches huses detector hread hswitch hfile)
  refine ⟨⟨hjudged.exists_of_status, ?_⟩, ?_, hjudged.status_eq, ⟨hjudged.exists_of_text, ?_⟩, ?_⟩
  · rintro ⟨withDiff, name, content, hswitch, hfile, hname⟩
    rw [hlet hswitch hfile, format, if_pos (accepts_iff.2 hname), Reply.status]
  · intro withDiff name content hswitch hfile hname
    rw [hlet hswitch hfile, format, if_pos (accepts_iff.2 hname)]
  · rintro ⟨withDiff, name, content, hswitch, hfile, hname⟩
    rw [hlet hswitch hfile, format, if_neg (mt accepts_iff.1 hname), Reply.text?]
  · intro r' hmethod' hpath' hread' hquery hparts
    rw [hanswer, respond_eq_answer hmethod' hpath',
      answer_congr huses detector hread hread' hquery hparts]

/-- A document among other fields, with the switch set twice. The answer is the same without what
    does not count. -/
theorem respond_gate_among_others :
    let upload : Part := ⟨"file", some "x.CONF", ofAscii "  a\n"⟩
    let r : Request := ⟨"POST", "/format", ofAscii "diff=maybe&d%69ff=Yes&x=off",
      [⟨"file", none, ofAscii "a"⟩, upload, ⟨"note", none, []⟩]⟩
    let r' : Request := ⟨"POST", "/format", ofAscii "diff=Yes", [upload]⟩
    Framework.standard.UsesLast ∧ r.method = "POST" ∧ leadsTo "/format" r.path = true ∧
      Framework.standard.refusal? r.parts = none ∧
      (respond r).status = 200 ∧
      respond r = .formatted
        (Report.ofDocument (ofAscii "  a\n") (FileName.ofString "x.CONF") true) ∧
      respond r = respond r' := by
  intro upload r r'
  have hpairs : Query.pairs r.query =
      [("diff", "maybe")] ++ ("diff", "Yes") :: [("x", "off")] := by
    decide +kernel
  have hpairs' : Query.pairs r'.query = [] ++ ("diff", "Yes") :: [] := by
    decide +kernel
  have hlast : LastValue r.query "diff" "Yes" :=
    ⟨rfl, _, _, hpairs, by decide⟩
  have hlast' : LastValue r'.query "diff" "Yes" :=
    ⟨rfl, _, _, hpairs', by decide⟩
  have hswitch : Framework.standard.Switches r.query true :=
    .given hlast rfl
  have hfile : IsLast (fun part => part.name = "file") r.parts upload :=
    ⟨rfl, [⟨"file", none, ofAscii "a"⟩], [⟨"note", none, []⟩], rfl, by decide⟩
  have hfile' : IsLast (fun part => part.name = "file") r'.parts upload :=
    ⟨rfl, [], [], rfl, by decide⟩
  have hname : NamesConf "x.CONF" :=
    accepts_iff.1 (by decide)
  have huses := Framework.usesLast_standard
  have hread : Framework.standard.refusal? r.parts = none :=
    refusalBeyond?_eq_none_iff.2 (by decide)
  rcases (respond_gate huses detect (r := r) rfl (by decide)).2 hread with
    ⟨hstatus, hlet, -, -, halike⟩
  have hquery (value : String) :
      LastValue r.query "diff" value ↔ LastValue r'.query "diff" value :=
    (hlast.iff_eq _).trans (hlast'.iff_eq _).symm
  have hparts (part : Part) (hpart : part.name = "file") :
      LastPart r.parts part ↔ LastPart r'.parts part := by
    rw [LastPart, LastPart, hpart]
    exact (hfile.iff_eq _).trans (hfile'.iff_eq _).symm
  exact ⟨huses, rfl, by decide, hread, hstatus.2 ⟨_, _, _, hswitch, hfile, hname⟩,
    hlet _ _ _ hswitch hfile hname, halike r' rfl (by decide) rfl hquery hparts⟩

/-- A document to format behind more fields than are allowed. Switch, file and name are as they
    should be, and the request is not let in all the same. -/
theorem respond_gate_unread :
    let r : Request := ⟨"POST", "/format", [],
      List.replicate 1001 ⟨"note", none, []⟩ ++ [⟨"file", some "x.conf", []⟩]⟩
    Framework.standard.Switches r.query false ∧ Uploads r.parts "x.conf" [] ∧
      NamesConf "x.conf" ∧ (respond r).status = 400 := by
  intro r
  have hnone : ∀ pair ∈ Query.pairs r.query, pair.1 ≠ "diff" :=
    fun pair hpair => absurd hpair List.not_mem_nil
  have hfile : Uploads r.parts "x.conf" [] :=
    ⟨rfl, _, [], rfl, fun part hpart => absurd hpart List.not_mem_nil⟩
  exact ⟨.absent hnone, hfile, accepts_iff.1 (by decide), by decide +kernel⟩

end ConfIndent.Service
