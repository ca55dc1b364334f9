import ConfIndent.Service.Framework

/-!
# What Frameworks Read

The framework that reads requests is not known here, only some laws that it keeps to. They are
stated of queries and forms with one value or none: what a single word for the switch means is
left to the framework, a single upload is handed on, and a single text is not. To these comes the
law that of several values the last one counts, and that those of other names do not.

From the laws it is worked out what is read from any query and any form. The last of a kind is
taken for what none of its kind follows, so nothing is said about the way in which it is found.

## Main definitions

* `Framework.UsesLast`: Of several values of a name the framework uses the last.
* `Framework.Means`: The word has a meaning for the framework.
* `IsLast`: An element is the last of a kind in a list.
* `Framework.Switches`: What a query sets the switch to.
* `Uploads`: The name and content of the file that a form hands in.

## Theorems

* `IsLast.iff_eq`: There is one last of a kind at most.
* `UsesLast.switch_eq_ok_iff`, `UsesLast.file_eq_ok_iff`: What is read from queries and forms.
* `UsesLast.switch_congr`, `UsesLast.file_congr`: What it depends on.
* `Framework.usesLast_standard`: The framework that is used keeps to the laws.
* `refusalBeyond?_eq_none_iff`: Which forms it reads.
-/

namespace ConfIndent.Service

/-- Of several values of a name the framework uses the last, and those of other names do not
    count. -/
structure Framework.UsesLast (framework : Framework) : Prop where
  /-- Names and values are told apart and decoded as in any query. -/
  pairs_eq (query : Bytes) : framework.pairs query = Query.pairs query
  /-- Without a word for it, the switch is off. -/
  switch_absent {pairs : List (String × String)} (h : ∀ pair ∈ pairs, pair.1 ≠ "diff") :
    framework.switch pairs = .ok false
  /-- A word for the switch counts if no other one follows. -/
  switch_last {front back : List (String × String)} {word : String}
    (h : ∀ pair ∈ back, pair.1 ≠ "diff") :
    framework.switch (front ++ ("diff", word) :: back) = framework.switch [("diff", word)]
  /-- Without a field for it, the file is missing. -/
  file_absent {parts : List Part} (h : ∀ part ∈ parts, part.name ≠ "file") :
    framework.file parts = .error .missing
  /-- A field for the file counts if no other one follows. -/
  file_last {front back : List Part} {part : Part} (hpart : part.name = "file")
    (h : ∀ other ∈ back, other.name ≠ "file") :
    framework.file (front ++ part :: back) = framework.file [part]
  /-- An upload is handed on, whatever its name is. -/
  file_upload (name : String) (content : Bytes) :
    framework.file [⟨"file", some name, content⟩] = .ok (name, content)
  /-- A text is none. -/
  file_text (content : Bytes) : ∃ p, framework.file [⟨"file", none, content⟩] = .error p

/-- The word has this meaning for the framework. -/
def Framework.Means (framework : Framework) (word : String) (b : Bool) : Prop :=
  framework.switch [("diff", word)] = .ok b

section Last

variable {α : Type}

/-- The element is of the kind, and none that follows it is. -/
def IsLast (p : α → Prop) (xs : List α) (x : α) : Prop :=
  p x ∧ ∃ front back, xs = front ++ x :: back ∧ ∀ y ∈ back, ¬p y

/-- Of any kind there is a last one, or there is none. -/
theorem exists_isLast (p : α → Prop) (xs : List α) :
    (∃ x, IsLast p xs x) ∨ ∀ x ∈ xs, ¬p x := by
  induction xs with
  | nil => exact .inr fun x hx => absurd hx List.not_mem_nil
  | cons y ys ih =>
    rcases ih with ⟨x, hx, front, back, hys, hback⟩ | hnone
    · refine .inl ⟨x, hx, y :: front, back, ?_, hback⟩
      rw [hys, List.cons_append]
    · by_cases hy : p y
      · exact .inl ⟨y, hy, [], ys, rfl, hnone⟩
      · exact .inr (List.forall_mem_cons.2 ⟨hy, hnone⟩)

theorem not_isLast {p : α → Prop} {xs : List α} (h : ∀ x ∈ xs, ¬p x) (x : α) :
    ¬IsLast p xs x := by
  rintro ⟨hx, front, back, rfl, -⟩
  exact h x (List.mem_append_right _ List.mem_cons_self) hx

/-- There is one last of a kind at most. -/
theorem IsLast.iff_eq {p : α → Prop} {xs : List α} {x : α} (h : IsLast p xs x) (y : α) :
    IsLast p xs y ↔ y = x := by
  constructor
  · rcases h with ⟨hx, front, back, hxs, hback⟩
    rintro ⟨hy, front', back', hys, hback'⟩
    rw [hxs] at hys
    rcases List.append_eq_append_iff.1 hys with ⟨more, -, h⟩ | ⟨more, -, h⟩ <;>
      rcases more with _ | ⟨z, more⟩ <;> cases h
    · rfl
    · exact absurd hy (hback _ (List.mem_append_right _ List.mem_cons_self))
    · rfl
    · exact absurd hx (hback' _ (List.mem_append_right _ List.mem_cons_self))
  · rintro rfl
    exact h

end Last

/-- The value is the last of its name in the query. -/
def LastValue (query : Bytes) (name value : String) : Prop :=
  IsLast (fun pair => pair.1 = name) (Query.pairs query) (name, value)

/-- The field is the last of its name in the form. -/
def LastPart (parts : List Part) (part : Part) : Prop :=
  IsLast (fun other => other.name = part.name) parts part

/-- What a query sets the switch to. Without a word for it, it is off. -/
inductive Framework.Switches (framework : Framework) (query : Bytes) : Bool → Prop where
  /-- There is no word for the switch. -/
  | absent (h : ∀ pair ∈ Query.pairs query, pair.1 ≠ "diff") : framework.Switches query false
  /-- The last word for the switch has the meaning. -/
  | given {word : String} {b : Bool} (hlast : LastValue query "diff" word)
    (hword : framework.Means word b) : framework.Switches query b

/-- The name and content of the file that a form hands in. -/
def Uploads (parts : List Part) (name : String) (content : Bytes) : Prop :=
  LastPart parts ⟨"file", some name, content⟩

/-- A query has a last word for the switch, or none. -/
theorem exists_lastValue (query : Bytes) (name : String) :
    (∃ value, LastValue query name value) ∨ ∀ pair ∈ Query.pairs query, pair.1 ≠ name := by
  rcases exists_isLast (fun pair => pair.1 = name) (Query.pairs query) with
    ⟨⟨_, value⟩, rfl, hlast⟩ | hnone
  · exact .inl ⟨value, rfl, hlast⟩
  · exact .inr hnone

/-- A form has a last field for the file, or none. -/
theorem exists_lastPart (parts : List Part) :
    (∃ part, part.name = "file" ∧ LastPart parts part) ∨ ∀ part ∈ parts, part.name ≠ "file" := by
  rcases exists_isLast (fun part => part.name = "file") parts with ⟨part, hpart, hlast⟩ | hnone
  · refine .inl ⟨part, hpart, rfl, ?_⟩
    rwa [hpart]
  · exact .inr hnone

namespace Framework.UsesLast

variable {framework : Framework} (huses : framework.UsesLast)

include huses

section Reading

variable {query : Bytes} {parts : List Part}

theorem switch_of_lastValue {word : String} (h : LastValue query "diff" word) :
    framework.switch (framework.pairs query) = framework.switch [("diff", word)] := by
  rcases h with ⟨-, front, back, hquery, hback⟩
  rw [huses.pairs_eq, hquery, huses.switch_last hback]

theorem file_of_lastPart {part : Part} (hpart : part.name = "file") (h : LastPart parts part) :
    framework.file parts = framework.file [part] := by
  rcases h with ⟨-, front, back, hparts, hback⟩
  rw [hpart] at hback
  rw [hparts, huses.file_last hpart hback]

/-- The framework reads from a query what the query sets the switch to. -/
theorem switch_eq_ok_iff {b : Bool} :
    framework.switch (framework.pairs query) = .ok b ↔ framework.Switches query b := by
  constructor
  · intro h
    rcases exists_lastValue query "diff" with ⟨word, hlast⟩ | hnone
    · rw [huses.switch_of_lastValue hlast] at h
      exact .given hlast h
    · rw [huses.pairs_eq, huses.switch_absent hnone] at h
      cases h
      exact .absent hnone
  · rintro (hnone | ⟨hlast, hword⟩)
    · rw [huses.pairs_eq, huses.switch_absent hnone]
    · rw [huses.switch_of_lastValue hlast, hword]

/-- The framework reads from a form the file that the form hands in. -/
theorem file_eq_ok_iff {name : String} {content : Bytes} :
    framework.file parts = .ok (name, content) ↔ Uploads parts name content := by
  constructor
  · intro h
    rcases exists_lastPart parts with ⟨⟨_, fileName, held⟩, rfl, hlast⟩ | hnone
    · rw [huses.file_of_lastPart rfl hlast] at h
      rcases fileName with _ | fileName
      · rcases huses.file_text held with ⟨p, hp⟩
        rw [hp] at h
        cases h
      · rw [huses.file_upload] at h
        cases h
        exact hlast
    · rw [huses.file_absent hnone] at h
      cases h
  · intro h
    rw [huses.file_of_lastPart rfl h, huses.file_upload]

end Reading

/-- What two queries with the same last word come to. -/
theorem switch_congr {query query' : Bytes}
    (h : ∀ value, LastValue query "diff" value ↔ LastValue query' "diff" value) :
    framework.switch (framework.pairs query) = framework.switch (framework.pairs query') := by
  rcases exists_lastValue query "diff" with ⟨word, hlast⟩ | hnone
  · rw [huses.switch_of_lastValue hlast, huses.switch_of_lastValue ((h word).1 hlast)]
  · rcases exists_lastValue query' "diff" with ⟨word, hlast⟩ | hnone'
    · exact absurd ((h word).2 hlast) (not_isLast hnone _)
    · rw [huses.pairs_eq, huses.pairs_eq, huses.switch_absent hnone, huses.switch_absent hnone']

/-- What two forms with the same last field for the file come to. -/
theorem file_congr {parts parts' : List Part}
    (h : ∀ part, part.name = "file" → (LastPart parts part ↔ LastPart parts' part)) :
    framework.file parts = framework.file parts' := by
  rcases exists_lastPart parts with ⟨part, hpart, hlast⟩ | hnone
  · rw [huses.file_of_lastPart hpart hlast, huses.file_of_lastPart hpart ((h part hpart).1 hlast)]
  · rcases exists_lastPart parts' with ⟨part, hpart, hlast⟩ | hnone'
    · have hother := (h part hpart).2 hlast
      rw [LastPart, hpart] at hother
      exact absurd hother (not_isLast hnone _)
    · rw [huses.file_absent hnone, huses.file_absent hnone']

end Framework.UsesLast

section Standard

/-- The last of a kind is the first from the end. -/
theorem find?_reverse_of_last {α : Type} {p : α → Bool} {front back : List α} {x : α}
    (hx : p x = true) (hback : ∀ y ∈ back, ¬p y = true) :
    (front ++ x :: back).reverse.find? p = some x := by
  rw [List.find?_eq_some_iff_append]
  refine ⟨hx, back.reverse, front.reverse, ?_, fun y hy => ?_⟩
  · rw [List.reverse_append, List.reverse_cons, List.append_assoc, List.singleton_append]
  · rw [Bool.not_eq_true']
    exact Bool.eq_false_iff.2 (hback y (List.mem_reverse.1 hy))

theorem lastSwitch_of_absent {pairs : List (String × String)}
    (h : ∀ pair ∈ pairs, pair.1 ≠ "diff") : lastSwitch pairs = .ok false := by
  have hfind : (pairs.reverse.find? fun pair => pair.1 = "diff") = none := by
    simp only [List.find?_eq_none, List.mem_reverse, decide_eq_true_iff]
    exact h
  rw [lastSwitch, hfind]

/-- The last word for the switch counts. -/
theorem lastSwitch_append_cons {front back : List (String × String)} {word : String}
    (h : ∀ pair ∈ back, pair.1 ≠ "diff") :
    lastSwitch (front ++ ("diff", word) :: back) = lastSwitch [("diff", word)] := by
  have hfind : ((front ++ ("diff", word) :: back).reverse.find? fun pair => pair.1 = "diff") =
      some ("diff", word) :=
    find?_reverse_of_last (decide_eq_true rfl) (by simpa only [decide_eq_true_iff] using h)
  rw [lastSwitch, hfind]
  rfl

theorem lastFile_of_absent {parts : List Part} (h : ∀ part ∈ parts, part.name ≠ "file") :
    lastFile parts = .error .missing := by
  have hfind : (parts.reverse.find? fun part => part.name = "file") = none := by
    simp only [List.find?_eq_none, List.mem_reverse, decide_eq_true_iff]
    exact h
  rw [lastFile, hfind]

/-- The last field for the file counts. -/
theorem lastFile_append_cons {front back : List Part} {part : Part} (hpart : part.name = "file")
    (h : ∀ other ∈ back, other.name ≠ "file") :
    lastFile (front ++ part :: back) = lastFile [part] := by
  have hfind {front back : List Part} (h : ∀ other ∈ back, other.name ≠ "file") :
      ((front ++ part :: back).reverse.find? fun part => part.name = "file") = some part :=
    find?_reverse_of_last (decide_eq_true hpart) (by simpa only [decide_eq_true_iff] using h)
  have hsingle : ([part].reverse.find? fun part => part.name = "file") = some part :=
    @hfind [] [] fun other hother => absurd hother List.not_mem_nil
  rw [lastFile, lastFile, hfind h, hsingle]

/-- The framework that is used keeps to the laws. -/
theorem Framework.usesLast_standard : Framework.standard.UsesLast where
  pairs_eq query := rfl
  switch_absent := lastSwitch_of_absent
  switch_last := lastSwitch_append_cons
  file_absent := lastFile_of_absent
  file_last := lastFile_append_cons
  file_upload name content := rfl
  file_text content := by
    by_cases hcontent : content = []
    · exact ⟨_, if_pos hcontent⟩
    · exact ⟨_, if_neg hcontent⟩

/-- A form is read if it has no more files and no more other fields than are allowed, and each
    of these is small enough. -/
theorem refusalBeyond?_eq_none_iff {files fields : Nat} {parts : List Part} :
    refusalBeyond? files fields parts = none ↔
      parts.countP (·.fileName.isSome) ≤ files ∧ parts.countP (·.fileName.isNone) ≤ fields ∧
        ∀ part ∈ parts, part.fileName = none → part.content.length ≤ maxFieldSize := by
  fun_induction refusalBeyond? files fields parts with
  | case1 files fields =>
    exact iff_of_true rfl ⟨Nat.zero_le _, Nat.zero_le _, fun _ h => absurd h List.not_mem_nil⟩
  | case2 fields part rest name hname =>
    simp only [reduceCtorEq, List.countP_cons, hname, Option.isSome_some, if_true, false_iff]
    omega
  | case3 part rest name files fields hname ih =>
    simp only [ih, List.countP_cons, hname, Option.isSome_some, Option.isNone_some, if_true,
      Bool.false_eq_true, if_false, Nat.succ_eq_add_one, Nat.add_le_add_iff_right, Nat.add_zero,
      List.forall_mem_cons, reduceCtorEq, false_implies, true_and]
  | case4 files part rest hname =>
    simp only [reduceCtorEq, List.countP_cons, hname, Option.isNone_none, if_true, false_iff]
    omega
  | case5 part rest files fields hname hsize ih =>
    simp only [ih, List.countP_cons, hname, Option.isSome_none, Option.isNone_none, if_true,
      Bool.false_eq_true, if_false, Nat.succ_eq_add_one, Nat.add_le_add_iff_right, Nat.add_zero,
      List.forall_mem_cons, forall_const, hsize, true_and]
  | case6 part rest files fields hname hsize =>
    refine iff_of_false (fun h => nomatch h) ?_
    rintro ⟨-, -, hsmall⟩
    exact hsize (hsmall part List.mem_cons_self hname)

end Standard

end ConfIndent.Service
