import ConfIndent.Proofs.Batch.Plan
import ConfIndent.Proofs.Indent

/-!
# What Processing a Document Does

What comes of a document, read off the file system and the options alone: whether
an error ends its processing, what it gives and prints if none does, and the files
that it leaves behind in either case.

The files are changed by `stored` and by nothing else. It puts what the formatter
makes of a file in the place of the file, as far as there is room. If there is
enough, that is `rewritten`, and the content afterwards does not depend on how the
file was named. Whether it comes to that is told by `Stores`. An error may be met
before the file is written, while it is, or behind it, and what was written stays,
so an error and a file left alone do not go together.

An effect says all this of one action, and effects of actions in a row make up the
effect of the row.

## Main definitions

* `Faults.format`: What becomes of the content of a file.
* `FileSystem.source`: The document of a named file.
* `FileSystem.outcome`, `FileSystem.printed`, `FileSystem.rewritten`: What comes
  of a visit without an error.
* `FileSystem.stored`: What is in the files once a document was written, or as much
  of it as there was room for.
* `FileSystem.Stores`: A file is opened to be written if formatting changes it.
* `FileSystem.Fails`: An error ends the processing of a document.
* `Roomy`: There is room for all that is to be written.
* `Effect`: What an action on a document does.

## Theorems

* `Effect.bind`: The effect of two actions in a row.
* `effect_processFile`: The effect of processing a document.
-/

namespace ConfIndent

open Bytes

@[simp] theorem Faults.calls_formatter (faults : Faults) :
    faults.calls.formatter = faults.formatter :=
  rfl

/-- What becomes of the content of a file. A formatter that fails leaves it as it
    is. -/
def Faults.format (faults : Faults) (content : Bytes) : Bytes :=
  match faults.formatter with
  | none => retab content
  | some _ => content

theorem Faults.format_of_formatter {faults : Faults} (h : faults.formatter = none)
    (content : Bytes) : faults.format content = retab content := by
  rw [format, h]

@[simp] theorem Faults.format_format (faults : Faults) (content : Bytes) :
    faults.format (faults.format content) = faults.format content := by
  unfold Faults.format
  cases faults.formatter with
  | none => exact retab_retab content
  | some reason => rfl

/-- There is room for all that is to be written. -/
def Roomy (faults : Faults) : Prop :=
  ∀ fs name, faults.room fs name = none

theorem Roomy.fitting_eq {faults : Faults} (h : Roomy faults) (fs : FileSystem) (name : FileName)
    (bytes : Bytes) : faults.fitting fs name bytes = bytes := by
  rw [Faults.fitting, h]

namespace FileSystem

/-- The document of a named file. -/
def source (fs : FileSystem) (faults : Faults) (name : FileName) : Except FileError Bytes :=
  if name ∈ faults.unopenable then .error (.skipped name ⟨.denied, some name⟩)
  else if name ∈ faults.unreadable then .error (.unreadable name ⟨.inputOutput, none⟩)
  else if 0 ∈ name then .error .nullInName
  else
    match fs.read name with
    | .error c => .error (.skipped name ⟨c, some name⟩)
    | .ok content => .ok content

/-- What came of a file. -/
def outcome (fs : FileSystem) (faults : Faults) (path : FileName) : Outcome :=
  match fs.source faults path with
  | .ok content => { path := path, changed := content ≠ faults.format content }
  | .error _ => { path := path, skipped := true }

/-- What is printed about a document that formatting changed. -/
def printedChange (options : Options) (path : FileName) (content formatted : Bytes) : Bytes :=
  (if options.list then path ++ [lf] else []) ++
    if options.diff then patchHeader path ++ Diff.unified content formatted path else []

/-- What is printed about a file. -/
def printed (fs : FileSystem) (faults : Faults) (options : Options) (path : FileName) : Bytes :=
  match fs.source faults path with
  | .ok content =>
    (if content ≠ faults.format content then
        printedChange options path content (faults.format content)
      else []) ++
      if options.printsResult ∧ faults.formatter = none then faults.format content else []
  | .error _ => []

/-- What is printed about a document, whatever it was read from. -/
def printedDocument (faults : Faults) (options : Options) (name : FileName) (content : Bytes) :
    Bytes :=
  (if content ≠ faults.format content then
      printedChange options name content (faults.format content)
    else []) ++
    if options.printsResult ∧ faults.formatter = none then faults.format content else []

theorem printed_of_source {fs : FileSystem} {faults : Faults} (options : Options)
    {path : FileName} {content : Bytes} (h : fs.source faults path = .ok content) :
    fs.printed faults options path = printedDocument faults options path content := by
  simp only [printed, h, printedDocument]

/-- A document that is formatted already is printed if all are, and otherwise passed over. -/
theorem printedDocument_of_formatted {faults : Faults} {options : Options} (name : FileName)
    {content : Bytes} (hformatted : content = faults.format content)
    (hquiet : options.printsResult = false) : printedDocument faults options name content = [] := by
  rw [printedDocument, if_neg (not_not_intro hformatted), if_neg, List.append_nil]
  rw [hquiet]
  exact fun h => Bool.false_ne_true h.1

/-- The file system with other content in the place that a name leads to. -/
def replace (fs : FileSystem) (name : FileName) (content : Bytes) : FileSystem :=
  match fs.locate .read name with
  | .ok (.taken l) => fs.put l (.file content)
  | _ => fs

/-- The file system after a file was formatted and written back. -/
def rewritten (fs : FileSystem) (faults : Faults) (path : FileName) : FileSystem :=
  match fs.source faults path with
  | .ok content => fs.replace path (faults.format content)
  | .error _ => fs

/-- The file system after a document of that content was written back, as far as
    there was room. One that is formatted already is not written. -/
def filled (fs : FileSystem) (faults : Faults) (name : FileName) (content : Bytes) : FileSystem :=
  if content = faults.format content then fs
  else fs.replace name (faults.fitting fs name (faults.format content))

/-- The file system after a file was formatted and written back, as far as there was
    room. -/
def stored (fs : FileSystem) (faults : Faults) (path : FileName) : FileSystem :=
  match fs.source faults path with
  | .ok content => fs.filled faults path content
  | .error _ => fs

/-- The name can be opened to be written. -/
def Writable (fs : FileSystem) (faults : Faults) (name : FileName) : Prop :=
  name ∉ faults.unwritable ∧ (fs.locate .create name).isOk

/-- The name can be opened to be written, and there is room for the bytes. -/
def Takes (fs : FileSystem) (faults : Faults) (name : FileName) (bytes : Bytes) : Prop :=
  fs.Writable faults name ∧ faults.fitting fs name bytes = bytes

/-- A document that formatting changes is to be written, and no error comes before the
    file is open. -/
def Stores (fs : FileSystem) (faults : Faults) (options : Options) (name : FileName) : Prop :=
  options.write ∧ ¬(options.list ∧ faults.outputFull) ∧ fs.Writable faults name

/-- Something that is to be done about a document cannot be done, when formatting makes
    these bytes of it. -/
def ChangeFails (fs : FileSystem) (faults : Faults) (options : Options) (name : FileName)
    (formatted : Bytes) : Prop :=
  (options.list ∧ faults.outputFull) ∨ (options.write ∧ ¬fs.Takes faults name formatted) ∨
    options.diff ∧ (faults.comparison ≠ none ∨ faults.outputFull)

/-- An error ends the processing of a document. -/
def Fails (fs : FileSystem) (faults : Faults) (options : Options) (name : FileName)
    (content : Bytes) : Prop :=
  (content ≠ faults.format content ∧
      fs.ChangeFails faults options name (faults.format content)) ∨
    options.printsResult ∧ faults.formatter = none ∧ faults.outputFull

instance decidableWritable (fs : FileSystem) (faults : Faults) (name : FileName) :
    Decidable (fs.Writable faults name) :=
  inferInstanceAs (Decidable (_ ∧ _))

instance decidableTakes (fs : FileSystem) (faults : Faults) (name : FileName) (bytes : Bytes) :
    Decidable (fs.Takes faults name bytes) :=
  inferInstanceAs (Decidable (_ ∧ _))

instance decidableStores (fs : FileSystem) (faults : Faults) (options : Options)
    (name : FileName) : Decidable (fs.Stores faults options name) :=
  inferInstanceAs (Decidable (_ ∧ _))

instance decidableChangeFails (fs : FileSystem) (faults : Faults) (options : Options)
    (name : FileName) (formatted : Bytes) :
    Decidable (fs.ChangeFails faults options name formatted) :=
  inferInstanceAs (Decidable (_ ∨ _))

instance decidableFails (fs : FileSystem) (faults : Faults) (options : Options)
    (name : FileName) (content : Bytes) : Decidable (fs.Fails faults options name content) :=
  inferInstanceAs (Decidable (_ ∨ _))

theorem read_of_source {fs : FileSystem} {faults : Faults} {name : FileName} {content : Bytes}
    (h : fs.source faults name = .ok content) :
    name ∉ faults.unopenable ∧ name ∉ faults.unreadable ∧ 0 ∉ name ∧
      fs.read name = .ok content := by
  unfold source at h
  by_cases hopen : name ∈ faults.unopenable
  · rw [if_pos hopen] at h
    exact absurd h (by simp only [reduceCtorEq, not_false_eq_true])
  by_cases hread : name ∈ faults.unreadable
  · rw [if_neg hopen, if_pos hread] at h
    exact absurd h (by simp only [reduceCtorEq, not_false_eq_true])
  by_cases hnull : 0 ∈ name
  · rw [if_neg hopen, if_neg hread, if_pos hnull] at h
    exact absurd h (by simp only [reduceCtorEq, not_false_eq_true])
  rw [if_neg hopen, if_neg hread, if_neg hnull] at h
  refine ⟨hopen, hread, hnull, ?_⟩
  rcases hfile : fs.read name with c | found
  · rw [hfile] at h
    exact absurd h (by simp only [reduceCtorEq, not_false_eq_true])
  · rw [hfile] at h
    rw [Except.ok.inj h]

/-- Whether a document can be had is seen by the shape. -/
theorem source_shape (fs : FileSystem) (faults : Faults) (name : FileName) :
    fs.shape.source faults name = (fs.source faults name).map fun _ => [] := by
  unfold source
  split
  · rfl
  split
  · rfl
  split
  · rfl
  rw [read_shape]
  cases fs.read name <;> rfl

/-- To put an entry where it stands already changes nothing. -/
theorem putEntry_self {entries : List (Location × Entry)} {l : Location} {e : Entry}
    (h : entries.lookup l = some e) : putEntry l e entries = entries := by
  induction entries with
  | nil => exact absurd h (by simp only [List.lookup_nil, reduceCtorEq, not_false_eq_true])
  | cons entry entries ih =>
    rcases entry with ⟨k, x⟩
    rw [putEntry]
    by_cases hk : k = l
    · rw [hk, List.lookup_cons_self, Option.some_inj] at h
      rw [if_pos hk, hk, h]
    · rw [List.lookup_cons, beq_eq_false_iff_ne.2 (Ne.symm hk)] at h
      rw [if_neg hk, ih h]

/-- To write what is there already changes nothing. -/
theorem replace_self {fs : FileSystem} {name : FileName} {content : Bytes}
    (h : fs.read name = .ok content) : fs.replace name content = fs := by
  rcases exists_of_read h with ⟨l, hlocate, hget⟩
  have hlookup : fs.entries.lookup l = some (.file content) := by
    rw [get?, if_neg (ne_nil_of_get?_file hget)] at hget
    exact hget
  simp only [replace, hlocate, put, putEntry_self hlookup]

theorem shape_replace {fs : FileSystem} {name : FileName} {old : Bytes}
    (h : fs.read name = .ok old) (new : Bytes) : (fs.replace name new).shape = fs.shape := by
  rcases exists_of_read h with ⟨l, hlocate, hget⟩
  simp only [replace, hlocate]
  exact shape_put hget new

/-- What can be read and be opened to be written can be replaced. -/
theorem write_eq_replace {fs : FileSystem} {name : FileName} {old : Bytes}
    (hread : fs.read name = .ok old) (hcreate : (fs.locate .create name).isOk) (new : Bytes) :
    fs.write name new = .ok (fs.replace name new) := by
  rcases exists_of_read hread with ⟨l, hlocate, hget⟩
  rcases hspot : fs.locate .create name with c | spot
  · rw [hspot] at hcreate
    exact absurd hcreate Bool.false_ne_true
  · -- What is written is the file that is read, so nothing is created.
    have hsame := locate_read_of_create hspot
    rw [hlocate, Except.ok.injEq] at hsame
    rw [write, hspot, ← hsame]
    simp only [hget, replace, hlocate]

/-- What takes the place of a document is read from there. -/
theorem read_replace {fs : FileSystem} {name : FileName} {old : Bytes}
    (h : fs.read name = .ok old) (new : Bytes) : (fs.replace name new).read name = .ok new := by
  rcases exists_of_read h with ⟨l, hlocate, hget⟩
  refine read_eq_of_locate (l := l) ?_ ?_
  · rw [← locate_shape, shape_replace h, locate_shape, hlocate]
  · simp only [replace, hlocate]
    rw [get?_put fs (ne_nil_of_get?_file hget), if_pos rfl]

/-- What was written can be read. -/
theorem read_of_write {fs fs' : FileSystem} {name : FileName} {old new : Bytes}
    (hread : fs.read name = .ok old) (h : fs.write name new = .ok fs') :
    fs'.read name = .ok new := by
  have hcreate : (fs.locate .create name).isOk := by
    rcases hspot : fs.locate .create name with c | spot
    · rw [write, hspot] at h
      cases h
    · rfl
  rw [write_eq_replace hread hcreate, Except.ok.injEq] at h
  rw [← h, read_replace hread]

theorem shape_filled {fs : FileSystem} {name : FileName} {content : Bytes}
    (h : fs.read name = .ok content) (faults : Faults) :
    (fs.filled faults name content).shape = fs.shape := by
  unfold filled
  split
  · rfl
  · exact shape_replace h _

/-- To store a formatted document leaves the shape alone. -/
theorem shape_stored (fs : FileSystem) (faults : Faults) (path : FileName) :
    (fs.stored faults path).shape = fs.shape := by
  unfold stored
  rcases hsource : fs.source faults path with e | content
  · rfl
  · exact shape_filled (read_of_source hsource).2.2.2 faults

/-- To rewrite a document leaves the shape alone. -/
theorem shape_rewritten (fs : FileSystem) (faults : Faults) (path : FileName) :
    (fs.rewritten faults path).shape = fs.shape := by
  unfold rewritten
  rcases hsource : fs.source faults path with e | content
  · rfl
  · exact shape_replace (read_of_source hsource).2.2.2 _

-- A file that is formatted already is what it would be replaced by.
theorem rewritten_of_formatted {fs : FileSystem} {faults : Faults} {path : FileName}
    {content : Bytes} (hsource : fs.source faults path = .ok content)
    (hformatted : content = faults.format content) : fs.rewritten faults path = fs := by
  simp only [rewritten, hsource, ← hformatted, replace_self (read_of_source hsource).2.2.2]

/-- With enough room, a document is written as it is formatted. -/
theorem stored_eq_rewritten {fs : FileSystem} {faults : Faults} {path : FileName} {content : Bytes}
    (hsource : fs.source faults path = .ok content)
    (hfits : faults.fitting fs path (faults.format content) = faults.format content) :
    fs.stored faults path = fs.rewritten faults path := by
  by_cases hformatted : content = faults.format content
  · rw [rewritten_of_formatted hsource hformatted]
    simp only [stored, hsource, filled, if_pos hformatted]
  · simp only [stored, rewritten, hsource, filled, if_neg hformatted, hfits]

theorem shape_foldl_rewritten (faults : Faults) (paths : List FileName) (fs : FileSystem) :
    (paths.foldl (rewritten · faults) fs).shape = fs.shape := by
  induction paths generalizing fs with
  | nil => rfl
  | cons path paths ih => rw [List.foldl_cons, ih, shape_rewritten]

end FileSystem

namespace Action

/-- To read a document answers what can be had of it, and does nothing else. -/
theorem readSource_run (faults : Faults) (name : FileName) (w : World) :
    readSource faults name none w = answer (w.files.source faults name) w := by
  unfold readSource FileSystem.source
  by_cases hopen : name ∈ faults.unopenable
  · rw [if_pos hopen, if_pos hopen]
    rfl
  by_cases hread : name ∈ faults.unreadable
  · rw [if_neg hopen, if_pos hread, if_neg hopen, if_pos hread]
    rfl
  by_cases hnull : 0 ∈ name
  · rw [if_neg hopen, if_neg hread, if_pos hnull, if_neg hopen, if_neg hread, if_pos hnull]
    rfl
  rw [if_neg hopen, if_neg hread, if_neg hnull, if_neg hopen, if_neg hread, if_neg hnull]
  change (match w.files.read name with
    | .error c => throw (.skipped name ⟨c, some name⟩)
    | .ok content => pure content : Action FileError Bytes) w = _
  cases w.files.read name <;> rfl

theorem writeBack_run (faults : Faults) (name : FileName) (content : Bytes) (w : World) :
    writeBack faults name content w =
      if name ∈ faults.unwritable then .error (.unwritable name ⟨.denied, some name⟩) w
      else if 0 ∈ name then .error .nullInName w
      else
        match w.files.write name (faults.fitting w.files name content) with
        | .error c => .error (.unwritable name ⟨c, some name⟩) w
        | .ok files =>
          if faults.fitting w.files name content = content then .ok () { w with files := files }
          else .error (.unwritable name ⟨.noSpace, none⟩) { w with files := files } := by
  unfold writeBack
  by_cases hdenied : name ∈ faults.unwritable
  · rw [if_pos hdenied, if_pos hdenied]
    rfl
  by_cases hnull : 0 ∈ name
  · rw [if_neg hdenied, if_pos hnull, if_neg hdenied, if_pos hnull]
    rfl
  rw [if_neg hdenied, if_neg hnull, if_neg hdenied, if_neg hnull]
  change (match w.files.write name (faults.fitting w.files name content) with
    | .error c => throw (.unwritable name ⟨c, some name⟩)
    | .ok files => do
      modify fun w => { w with files := files }
      if faults.fitting w.files name content ≠ content then
        throw (.unwritable name ⟨.noSpace, none⟩) : Action FileError Unit) w = _
  rcases w.files.write name (faults.fitting w.files name content) with c | files
  · rfl
  · by_cases hfits : faults.fitting w.files name content = content
    · simp only [hfits, ne_eq, not_true_eq_false, if_false, if_true]
      rfl
    · simp only [hfits, ne_eq, not_false_eq_true, if_false, if_true]
      rfl

section Binds

variable {ε α β : Type} {a : Action ε α} {f : α → Action ε β} {w w' : World}

theorem bind_of_ok {x : α} (h : a w = .ok x w') : (a >>= f) w = f x w' := by
  change EStateM.bind a f w = _
  rw [EStateM.bind, h]

theorem bind_of_error {e : ε} (h : a w = .error e w') : (a >>= f) w = .error e w' := by
  change EStateM.bind a f w = _
  rw [EStateM.bind, h]

theorem exists_of_bind {y : β} (h : (a >>= f) w = .ok y w') :
    ∃ x w₁, a w = .ok x w₁ ∧ f x w₁ = .ok y w' := by
  change EStateM.bind a f w = _ at h
  unfold EStateM.bind at h
  rcases ha : a w with ⟨x, w₁⟩ | ⟨e, w₁⟩
  · rw [ha] at h
    exact ⟨x, w₁, rfl, h⟩
  · rw [ha] at h
    exact absurd h (by simp only [reduceCtorEq, not_false_eq_true])

/-- A list of items is handled by handling the first, and then the others. -/
theorem mapM_cons_eq_ok_iff {f : α → Action ε β} {x : α} {xs : List α} {ys : List β} :
    (x :: xs).mapM f w = .ok ys w' ↔
      ∃ y rest w₁, f x w = .ok y w₁ ∧ xs.mapM f w₁ = .ok rest w' ∧ ys = y :: rest := by
  rw [List.mapM_cons]
  constructor
  · intro h
    rcases exists_of_bind h with ⟨y, w₁, hfirst, hlater⟩
    rcases exists_of_bind hlater with ⟨rest, w₂, hrest, hpure⟩
    cases hpure
    exact ⟨y, rest, w₁, hfirst, hrest, rfl⟩
  · rintro ⟨y, rest, w₁, hfirst, hrest, rfl⟩
    rw [bind_of_ok hfirst, bind_of_ok hrest]
    rfl

end Binds

end Action

/-- The error is recorded as what came of a document. The others are that it was
    left out and that its name is none. -/
def FileError.isRecorded : FileError → Bool
  | skipped _ _ => false
  | nullInName => false
  | _ => true

theorem recorded_of_isRecorded {e : FileError} (he : e.isRecorded) (name : FileName) (w : World) :
    recorded name (.error e w) = .ok { path := name, error := some e.message } w := by
  cases e with
  | skipped | nullInName => exact absurd he Bool.false_ne_true
  | unreadable | unwritable | incomparable | unprintable => rfl

/-- What an action on a document does. It gives the value and prints the text, or, if
    it fails, ends in an error that is recorded. In either case it leaves the files
    behind. -/
structure Effect {α : Type} (a : Action FileError α) (w : World) (x : α) (fails : Prop)
    (files : FileSystem) (text : Bytes) : Prop where
  ok : ¬fails → ∃ w', a w = .ok x w' ∧ w'.files = files ∧ w'.output = w.output ++ text
  error : fails → ∃ e w', a w = .error e w' ∧ e.isRecorded ∧ w'.files = files

section Effects

variable {α β : Type} {w : World}

theorem effect_of_ok {a : Action FileError α} {x : α} {w' : World} {fails : Prop}
    (hfails : ¬fails) {files : FileSystem} {text : Bytes} (h : a w = .ok x w')
    (hfiles : w'.files = files) (houtput : w'.output = w.output ++ text) :
    Effect a w x fails files text :=
  ⟨fun _ => ⟨w', h, hfiles, houtput⟩, fun h => absurd h hfails⟩

theorem effect_of_error {a : Action FileError α} {e : FileError} {w' : World} {fails : Prop}
    (hfails : fails) (h : a w = .error e w') (he : e.isRecorded) (x : α) (text : Bytes) :
    Effect a w x fails w'.files text :=
  ⟨fun h => absurd hfails h, fun _ => ⟨e, w', h, he, rfl⟩⟩

theorem effect_pure (x : α) : Effect (pure x) w x False w.files [] :=
  effect_of_ok not_false rfl rfl (List.append_nil _).symm

theorem Effect.congr {a : Action FileError α} {x : α} {fails fails' : Prop} {files : FileSystem}
    {text : Bytes} (h : Effect a w x fails files text) (hfails : fails' ↔ fails) :
    Effect a w x fails' files text := by
  rwa [propext hfails]

/-- Actions in a row fail if one of them does. Those behind an action that fails do
    not change the files any more. -/
theorem Effect.bind {a : Action FileError α} {f : α → Action FileError β} {x : α} {y : β}
    {fails fails' : Prop} {files files' : FileSystem} {text text' : Bytes}
    (h : Effect a w x fails files text) (hstop : fails → files' = files)
    (hf : ¬fails → ∀ w' : World, w'.files = files → Effect (f x) w' y fails' files' text') :
    Effect (a >>= f) w y (fails ∨ fails') files' (text ++ text') := by
  constructor
  · intro hnone
    rw [not_or] at hnone
    rcases h.ok hnone.1 with ⟨w₁, ha, hfiles, houtput⟩
    rcases (hf hnone.1 w₁ hfiles).ok hnone.2 with ⟨w₂, hb, hfiles', houtput'⟩
    refine ⟨w₂, ?_, hfiles', by rw [houtput', houtput, List.append_assoc]⟩
    rw [Action.bind_of_ok ha, hb]
  · intro hsome
    by_cases hfails : fails
    · rcases h.error hfails with ⟨e, w₁, ha, he, hfiles⟩
      exact ⟨e, w₁, Action.bind_of_error ha, he, by rw [hfiles, hstop hfails]⟩
    · rcases h.ok hfails with ⟨w₁, ha, hfiles, -⟩
      rcases (hf hfails w₁ hfiles).error (hsome.resolve_left hfails) with ⟨e, w₂, hb, he, hfiles'⟩
      refine ⟨e, w₂, ?_, he, hfiles'⟩
      rw [Action.bind_of_ok ha, hb]

/-- After an action that gives an answer and does nothing. -/
theorem Effect.of_bind {a : Action FileError α} {f : α → Action FileError β} {x : α} {y : β}
    {fails : Prop} {files : FileSystem} {text : Bytes} (ha : a w = .ok x w)
    (h : Effect (f x) w y fails files text) : Effect (a >>= f) w y fails files text := by
  constructor
  · rw [Action.bind_of_ok ha]
    exact h.ok
  · rw [Action.bind_of_ok ha]
    exact h.error

/-- The effect of an action that is only called for under some condition, and of
    what follows it in any case. -/
theorem Effect.when_bind {a : Action FileError Unit} {f : Unit → Action FileError β} {y : β}
    {fails fails' : Prop} {files files' : FileSystem} {text text' : Bytes} (c : Prop) [Decidable c]
    (h : c → Effect a w () fails files text) (hstop : c → fails → files' = files)
    (hf : ¬(c ∧ fails) → ∀ w' : World, w'.files = (if c then files else w.files) →
      Effect (f ()) w' y fails' files' text') :
    Effect (if c then a >>= f else f ()) w y (c ∧ fails ∨ fails') files'
      ((if c then text else []) ++ text') := by
  by_cases hc : c
  · simp only [hc, if_true, true_and] at hf ⊢
    exact (h hc).bind (hstop hc) hf
  · simp only [hc, if_false, false_and, not_false_eq_true, true_imp_iff, false_or] at hf ⊢
    exact hf w rfl

theorem Effect.when {a : Action FileError Unit} {fails : Prop} {text : Bytes}
    (h : Effect a w () fails w.files text) (c : Prop) [Decidable c] :
    Effect (if c then a else pure ()) w () (c ∧ fails) w.files (if c then text else []) := by
  by_cases hc : c
  · simp only [hc, if_true, true_and]
    exact h
  · simp only [hc, if_false, false_and]
    exact effect_pure ()

theorem effect_tryPrint (faults : Faults) (bytes : Bytes) :
    Effect (Action.tryPrint faults bytes) w () faults.outputFull w.files bytes := by
  unfold Action.tryPrint
  by_cases hfull : faults.outputFull
  · rw [if_pos hfull]
    exact effect_of_error hfull rfl rfl _ _
  · rw [if_neg hfull]
    have hrun : Action.print bytes w =
        (.ok () { w with output := w.output ++ bytes } : EStateM.Result FileError World Unit) := rfl
    exact effect_of_ok hfull hrun rfl rfl

/-- To write what can be read is to replace it, as far as there is room, if it can be
    opened for that. -/
theorem effect_writeBack (faults : Faults) {name : FileName} {old : Bytes} (new : Bytes)
    (hread : w.files.read name = .ok old) (hnull : 0 ∉ name) :
    Effect (Action.writeBack faults name new) w () (¬w.files.Takes faults name new)
      (if w.files.Writable faults name then
        w.files.replace name (faults.fitting w.files name new) else w.files) [] := by
  have hrun := Action.writeBack_run faults name new w
  by_cases hdenied : name ∈ faults.unwritable
  · have hfails : ¬w.files.Writable faults name := fun h => h.1 hdenied
    rw [if_pos hdenied] at hrun
    rw [if_neg hfails]
    exact effect_of_error (fun h => hfails h.1) hrun rfl _ _
  rw [if_neg hdenied, if_neg hnull] at hrun
  by_cases hcreate : (w.files.locate .create name).isOk
  · have hwritable : w.files.Writable faults name := ⟨hdenied, hcreate⟩
    rw [FileSystem.write_eq_replace hread hcreate] at hrun
    rw [if_pos hwritable]
    -- The file is open now, and what there is room for stays in it either way.
    by_cases hfits : faults.fitting w.files name new = new
    · simp only [if_pos hfits] at hrun
      exact effect_of_ok (not_not_intro ⟨hwritable, hfits⟩) hrun rfl (List.append_nil _).symm
    · simp only [if_neg hfits] at hrun
      exact effect_of_error (fun h => hfits h.2) hrun rfl _ _
  · have hfails : ¬w.files.Writable faults name := fun h => hcreate h.2
    rcases hspot : w.files.locate .create name with c | spot
    · rw [FileSystem.write, hspot] at hrun
      rw [if_neg hfails]
      exact effect_of_error (fun h => hfails h.1) hrun rfl _ _
    · rw [hspot] at hcreate
      exact absurd rfl hcreate

/-- To show a change prints the patch under its header, unless it fails. -/
theorem effect_showChange (faults : Faults) (name : FileName) (source formatted : Bytes) :
    Effect (faults.calls.showChange name source formatted) w ()
      (faults.comparison ≠ none ∨ faults.outputFull) w.files
      (patchHeader name ++ Diff.unified source formatted name) := by
  have hcomparison : faults.calls.comparison = faults.comparison := rfl
  unfold Calls.showChange
  rw [hcomparison]
  cases faults.comparison with
  | none =>
    have hbody (w' : World) (hfiles : w'.files = w.files) :
        Effect (Action.tryPrint faults (Diff.unified source formatted name)) w' ()
          faults.outputFull w.files (Diff.unified source formatted name) := by
      rw [← hfiles]
      exact effect_tryPrint faults _
    refine ((effect_tryPrint faults _).bind (fun _ => rfl) fun _ => hbody).congr ?_
    simp only [ne_eq, not_true_eq_false, false_or, or_self]
  | some reason => exact effect_of_error (.inl (Option.some_ne_none _)) rfl rfl _ _

theorem effect_applyChange (faults : Faults) (options : Options) {name : FileName}
    {source : Bytes} (formatted : Bytes)
    (hread : options.write → w.files.read name = .ok source ∧ 0 ∉ name) :
    Effect (faults.calls.applyChange options name source formatted) w ()
      (w.files.ChangeFails faults options name formatted)
      (if w.files.Stores faults options name then
        w.files.replace name (faults.fitting w.files name formatted) else w.files)
      (FileSystem.printedChange options name source formatted) := by
  unfold FileSystem.printedChange FileSystem.ChangeFails Calls.applyChange
  refine Effect.when_bind options.list (fun _ => effect_tryPrint faults _) ?_ ?_
  · -- Nothing is written behind a list that cannot be printed.
    intro hlist hfull
    rw [if_neg fun h => h.2.1 ⟨hlist, hfull⟩]
  intro hlisted w₁ hlist
  rw [ite_self] at hlist
  -- Writing prints nothing.
  have htext (text : Bytes) : text = (if options.write then [] else []) ++ text := by
    rw [ite_self, List.nil_append]
  rw [htext (if options.diff then _ else _), ← hlist]
  rw [← hlist] at hread
  have hstores : w₁.files.Stores faults options name ↔
      options.write ∧ w₁.files.Writable faults name :=
    and_congr_right' (and_iff_right hlisted)
  refine Effect.when_bind options.write
    (fun hwrite => effect_writeBack faults formatted (hread hwrite).1 (hread hwrite).2) ?_ ?_
  · intro hwrite _
    simp only [hstores, hwrite, true_and]
  intro hwritten w₂ hwrite
  have hfiles : w₂.files =
      if w₁.files.Stores faults options name then
        w₁.files.replace name (faults.fitting w₁.files name formatted)
      else w₁.files := by
    rw [hwrite]
    by_cases hc : options.write
    · simp only [hstores, hc, true_and, if_true]
    · rw [if_neg hc, if_neg fun h => hc h.1]
  rw [← hfiles]
  exact (effect_showChange faults name source formatted).when options.diff

/-- A document that cannot be had is not looked at. -/
theorem processFile_of_error {faults : Faults} {options : Options} {path : FileName} {e : FileError}
    (h : w.files.source faults path = .error e) :
    processFile faults options path none w = .error e w := by
  refine Action.bind_of_error (a := Action.readSource faults path none) ?_
  rw [Action.readSource_run, h]
  rfl

/-- What the processing of a document does, once it can be had. -/
theorem effect_processFile (faults : Faults) (options : Options) {name : FileName}
    {input : Option Input} {content : Bytes}
    (hsource : Action.readSource faults name input w = .ok content w)
    (hread : options.write → w.files.read name = .ok content ∧ 0 ∉ name) :
    Effect (processFile faults options name input) w (decide (content ≠ faults.format content))
      (w.files.Fails faults options name content)
      (if w.files.Stores faults options name then w.files.filled faults name content else w.files)
      (FileSystem.printedDocument faults options name content) := by
  unfold FileSystem.printedDocument FileSystem.Fails FileSystem.filled processFile
    Calls.processFile Faults.format
  refine Effect.of_bind hsource ?_
  rw [Faults.calls_formatter]
  rcases faults.formatter with _ | reason
  · simp only [and_true, true_and]
    refine Effect.when_bind (content ≠ retab content)
      (fun _ => effect_applyChange faults options (retab content) hread) ?_ ?_
    · intro hchanged _
      rw [if_neg hchanged]
    intro _ w₂ hw₂
    have hfiles : w₂.files =
        if w.files.Stores faults options name then
          if content = retab content then w.files
          else w.files.replace name (faults.fitting w.files name (retab content))
        else w.files := by
      rw [hw₂]
      by_cases hchanged : content = retab content
      · rw [if_neg (not_not_intro hchanged), if_pos hchanged, ite_self]
      · rw [if_pos hchanged, if_neg hchanged]
    rw [← hfiles, ← List.append_nil (if options.printsResult then _ else _)]
    rw [← or_false (options.printsResult = true ∧ faults.outputFull = true)]
    refine Effect.when_bind options.printsResult (fun _ => effect_tryPrint faults _)
      (fun _ _ => rfl) ?_
    intro _ w₃ hw₃
    rw [ite_self] at hw₃
    rw [← hw₃]
    exact effect_pure _
  · -- A formatter that fails is as good as one that changes nothing.
    have hrun : (do
        Action.log .debug
          (name.display ++ ": formatting failed, leaving unchanged: " ++ reason)
        return false : Action FileError Bool) w =
        .ok false { w with log := w.log ++ [⟨.debug,
          name.display ++ ": formatting failed, leaving unchanged: " ++ reason⟩] } := rfl
    simp only [ne_eq, not_true_eq_false, decide_false, if_true, if_false, reduceCtorEq, and_false,
      false_and, or_self, ite_self]
    exact effect_of_ok not_false hrun rfl (List.append_nil _).symm

end Effects

end ConfIndent
