import ConfIndent.Batch.Run
import ConfIndent.Proofs.Batch.Effect

/-!
# Files After a Failure

A call may fail at any time, and nothing is undone when it does. What a failure leaves in
the file depends on how far the document had come.

Nothing is written before the document was read, formatted and listed, so a failure up to
there leaves the file alone, and with it every document that was left out. The call that
writes empties the file before it fills it. If it fails, the file may hold a beginning of
what was to be written. Behind it only a change that is to be shown can fail, and then the
file is formatted already although an error is recorded. No failure leaves anything else.

None of this depends on which calls fail or why. It is shown for all calls that keep their
part of the bargain, which is little: to read and to print does not write, and to write
either writes or does so in part.

## Main definitions

* `Calls.Lawful`: The calls keep their part of the bargain.
* `Calls.Interrupted`: A file was written in part.
* `Calls.Spoiled`: A file was written although the document has failed.
* `Leaves`: What an action leaves in the files, however it ends.
* `Calls.withRoom`: Calls on a device that is full after so many bytes.

## Theorems

* `Faults.lawful_calls`: The calls where some fail are lawful.
* `Leaves.bind`: What two actions in a row leave.
* `leaves_applyChange`: What acting on a changed document leaves.
* `leaves_processFile`: What processing a document leaves.
* `files_of_recorded`: What is in the files when an outcome is recorded.
* `exists_written_with_error`: An error is recorded for a file that was written.
-/

namespace ConfIndent

open Bytes

/-- The error says that a document was left out. -/
def FileError.leavesOut : FileError → Bool
  | skipped _ _ => true
  | _ => false

/-- To read and to print does not write. To write does, or fails and has written a
    beginning at most. Only a file that cannot be opened to be read is left out. -/
structure Calls.Lawful (calls : Calls) : Prop where
  read_ok {name : FileName} {content : Bytes} {w w' : World}
    (h : calls.readSource name none w = .ok content w') :
    w'.files = w.files ∧ w.files.read name = .ok content
  read_error {name : FileName} {e : FileError} {w w' : World}
    (h : calls.readSource name none w = .error e w') : w'.files = w.files
  print_ok {bytes : Bytes} {w w' : World} (h : calls.print bytes w = .ok () w') :
    w'.files = w.files
  print_error {bytes : Bytes} {e : FileError} {w w' : World}
    (h : calls.print bytes w = .error e w') : e.leavesOut = false ∧ w'.files = w.files
  write_ok {name : FileName} {bytes : Bytes} {w w' : World}
    (h : calls.writeBack name bytes w = .ok () w') : w.files.write name bytes = .ok w'.files
  write_error {name : FileName} {bytes : Bytes} {e : FileError} {w w' : World}
    (h : calls.writeBack name bytes w = .error e w') :
    e.leavesOut = false ∧
      (w'.files = w.files ∨ ∃ n, w.files.write name (bytes.take n) = .ok w'.files)

/-- The call that was to write the bytes has failed and left a beginning of them in the
    file. -/
def Calls.Interrupted (calls : Calls) (name : FileName) (bytes : Bytes)
    (fs fs' : FileSystem) : Prop :=
  ∃ w e w', w.files = fs ∧ calls.writeBack name bytes w = .error e w' ∧ w'.files = fs' ∧
    ∃ n, fs.write name (bytes.take n) = .ok fs'

/-- The file was written although the document has failed. Either the call that writes was
    interrupted or the change, which was to be shown, could not be. -/
def Calls.Spoiled (calls : Calls) (options : Options) (name : FileName) (bytes : Bytes)
    (fs fs' : FileSystem) : Prop :=
  options.write = true ∧ (calls.Interrupted name bytes fs fs' ∨
    options.diff = true ∧ fs.write name bytes = .ok fs')

/-- What an action leaves in the files if it ends, and if it fails. -/
structure Leaves {α : Type} (a : Action FileError α) (w : World)
    (done : α → FileSystem → Prop) (failed : FileError → FileSystem → Prop) : Prop where
  ok {x : α} {w' : World} (h : a w = .ok x w') : done x w'.files
  error {e : FileError} {w' : World} (h : a w = .error e w') : failed e w'.files

section Leaving

variable {α β : Type} {w : World}

theorem leaves_pure (x : α) (failed : FileError → FileSystem → Prop) :
    Leaves (pure x) w (fun y fs => y = x ∧ fs = w.files) failed := by
  constructor
  · intro y w' h
    cases h
    exact ⟨rfl, rfl⟩
  · intro e w' h
    cases h

theorem leaves_throw (e : FileError) (done : α → FileSystem → Prop) :
    Leaves (throw e) w done (fun e' fs => e' = e ∧ fs = w.files) := by
  constructor
  · intro y w' h
    cases h
  · intro e' w' h
    cases h
    exact ⟨rfl, rfl⟩

theorem Leaves.mono {a : Action FileError α} {done done' : α → FileSystem → Prop}
    {failed failed' : FileError → FileSystem → Prop} (h : Leaves a w done failed)
    (hdone : ∀ x fs, done x fs → done' x fs) (hfailed : ∀ e fs, failed e fs → failed' e fs) :
    Leaves a w done' failed' :=
  ⟨fun hrun => hdone _ _ (h.ok hrun), fun hrun => hfailed _ _ (h.error hrun)⟩

/-- What two actions in a row leave. -/
theorem Leaves.bind {a : Action FileError α} {f : α → Action FileError β}
    (done : α → FileSystem → Prop) {done' : β → FileSystem → Prop}
    {failed : FileError → FileSystem → Prop} (h : Leaves a w done failed)
    (hf : ∀ x w', done x w'.files → Leaves (f x) w' done' failed) :
    Leaves (a >>= f) w done' failed := by
  rcases hrun : a w with ⟨x, w₁⟩ | ⟨e, w₁⟩
  · have hrest := hf x w₁ (h.ok hrun)
    constructor
    · rw [Action.bind_of_ok hrun]
      exact hrest.ok
    · rw [Action.bind_of_ok hrun]
      exact hrest.error
  · have hhere := h.error hrun
    constructor
    · intro y w' hend
      rw [Action.bind_of_error hrun] at hend
      cases hend
    · intro e' w' hend
      rw [Action.bind_of_error hrun] at hend
      cases hend
      exact hhere

/-- What is left by an action that is called for under some condition, and by what
    follows it in any case. -/
theorem Leaves.when_bind (c : Prop) [Decidable c] (done : FileSystem → Prop)
    {a : Action FileError Unit} {f : Unit → Action FileError β}
    {done' : β → FileSystem → Prop} {failed : FileError → FileSystem → Prop}
    (h : c → Leaves a w (fun _ => done) failed) (hnot : ¬c → done w.files)
    (hf : ∀ w' : World, done w'.files → Leaves (f ()) w' done' failed) :
    Leaves (if c then a >>= f else f ()) w done' failed := by
  by_cases hc : c
  · rw [if_pos hc]
    exact (h hc).bind _ fun _ => hf
  · rw [if_neg hc]
    exact hf w (hnot hc)

end Leaving

section Processing

variable {calls : Calls} (hcalls : calls.Lawful) {options : Options} {name : FileName} {w : World}

include hcalls

theorem leaves_print (bytes : Bytes) :
    Leaves (calls.print bytes) w (fun _ fs => fs = w.files)
      fun e fs => e.leavesOut = false ∧ fs = w.files :=
  ⟨hcalls.print_ok, hcalls.print_error⟩

/-- To show a change writes nothing. -/
theorem leaves_showChange (source formatted : Bytes) :
    Leaves (calls.showChange name source formatted) w (fun _ fs => fs = w.files)
      fun e fs => e.leavesOut = false ∧ fs = w.files := by
  unfold Calls.showChange
  cases calls.comparison with
  | some reason =>
    refine (leaves_throw _ _).mono (fun _ _ h => h) ?_
    rintro e fs ⟨rfl, rfl⟩
    exact ⟨rfl, rfl⟩
  | none =>
    refine (leaves_print hcalls _).bind (fun _ fs => fs = w.files) ?_
    intro _ w' hfiles
    rw [← hfiles]
    exact leaves_print hcalls _

/-- What acting on a document that formatting changed leaves. -/
theorem leaves_applyChange (source formatted : Bytes) :
    Leaves (calls.applyChange options name source formatted) w
      (fun _ fs => if options.write = true then w.files.write name formatted = .ok fs
        else fs = w.files)
      fun e fs => e.leavesOut = false ∧
        (fs = w.files ∨ calls.Spoiled options name formatted w.files fs) := by
  -- Where it comes to showing the change, the file was written if that was asked for.
  have hshown {w₁ : World} (hdiff : options.diff = true)
      (hwritten : if options.write = true then w.files.write name formatted = .ok w₁.files
        else w₁.files = w.files) :
      w₁.files = w.files ∨ calls.Spoiled options name formatted w.files w₁.files := by
    by_cases hwrite : options.write = true
    · rw [if_pos hwrite] at hwritten
      exact .inr ⟨hwrite, .inr ⟨hdiff, hwritten⟩⟩
    · rw [if_neg hwrite] at hwritten
      exact .inl hwritten
  unfold Calls.applyChange
  refine Leaves.when_bind options.list (fun fs => fs = w.files) ?_ (fun _ => rfl) ?_
  · intro _
    refine (leaves_print hcalls _).mono (fun _ _ h => h) ?_
    exact fun e fs h => ⟨h.1, .inl h.2⟩
  intro w₁ hlisted
  refine Leaves.when_bind options.write
    (fun fs => if options.write = true then w.files.write name formatted = .ok fs
      else fs = w.files) ?_ ?_ ?_
  · intro hwrite
    constructor
    · intro _ w₂ hrun
      rw [if_pos hwrite, ← hlisted]
      exact hcalls.write_ok hrun
    · intro e w₂ hrun
      rcases hcalls.write_error hrun with ⟨hkind, hfiles⟩
      rw [hlisted] at hfiles
      refine ⟨hkind, hfiles.imp_right fun hpart => ⟨hwrite, .inl ?_⟩⟩
      exact ⟨w₁, e, w₂, hlisted, hrun, rfl, hpart⟩
  · intro hwrite
    rw [if_neg hwrite]
    exact hlisted
  intro w₂ hwritten
  by_cases hdiff : options.diff = true
  · rw [if_pos hdiff]
    refine (leaves_showChange hcalls source formatted).mono ?_ ?_
    · rintro _ fs rfl
      exact hwritten
    · rintro e fs ⟨hkind, rfl⟩
      exact ⟨hkind, hshown hdiff hwritten⟩
  · rw [if_neg hdiff]
    refine (leaves_pure () _).mono ?_ fun _ _ h => h
    rintro _ fs ⟨-, rfl⟩
    exact hwritten

/-- What processing a document leaves. -/
theorem leaves_processFile :
    Leaves (calls.processFile options name none) w
      (fun changed fs => changed = true → options.write = true →
        ∃ content, w.files.read name = .ok content ∧
          w.files.write name (retab content) = .ok fs)
      fun e fs => fs = w.files ∨ e.leavesOut = false ∧
        ∃ content, w.files.read name = .ok content ∧ content ≠ retab content ∧
          calls.Spoiled options name (retab content) w.files fs := by
  unfold Calls.processFile
  refine Leaves.bind (fun content fs => fs = w.files ∧ w.files.read name = .ok content)
    ⟨hcalls.read_ok, fun hrun => .inl (hcalls.read_error hrun)⟩ ?_
  rintro content w₁ ⟨hfiles, hread⟩
  rcases calls.formatter with _ | reason
  · refine Leaves.when_bind (content ≠ retab content)
      (fun fs => if content ≠ retab content ∧ options.write = true then
        w.files.write name (retab content) = .ok fs else fs = w.files) ?_ ?_ ?_
    · intro hchanged
      refine (leaves_applyChange hcalls content (retab content)).mono ?_ ?_
      · intro _ fs h
        rw [hfiles] at h
        by_cases hwrite : options.write = true
        · rw [if_pos ⟨hchanged, hwrite⟩]
          rwa [if_pos hwrite] at h
        · rw [if_neg fun h => hwrite h.2]
          rwa [if_neg hwrite] at h
      · intro e fs h
        rw [hfiles] at h
        exact h.2.imp_right fun hspoiled => ⟨h.1, content, hread, hchanged, hspoiled⟩
    · intro hsame
      rw [if_neg fun h => hsame h.1]
      exact hfiles
    intro w₂ hwritten
    refine Leaves.when_bind options.printsResult (fun fs => fs = w₂.files) ?_ (fun _ => rfl) ?_
    · intro hprints
      refine (leaves_print hcalls _).mono (fun _ _ h => h) ?_
      rintro e fs ⟨-, rfl⟩
      -- A document is printed only if none is written.
      have hwrite : ¬options.write = true := by
        intro hwrite
        simp only [Options.printsResult, hwrite, Bool.or_true, Bool.true_or, Bool.not_true,
          Bool.false_eq_true] at hprints
      rw [if_neg fun h => hwrite h.2] at hwritten
      exact .inl hwritten
    · intro w₃ hprinted
      refine (leaves_pure _ _).mono ?_ fun _ _ h => h
      rintro changed fs ⟨rfl, rfl⟩ hchanged hwrite
      rw [if_pos ⟨of_decide_eq_true hchanged, hwrite⟩] at hwritten
      exact ⟨content, hread, by rw [hprinted, hwritten]⟩
  · constructor
    · intro changed w₂ hrun hchanged
      cases hrun
      exact absurd hchanged Bool.false_ne_true
    · intro e w₂ hrun
      cases hrun

end Processing

/-- What there is room for is a beginning. -/
theorem Faults.exists_fitting_eq_take (faults : Faults) (fs : FileSystem) (name : FileName)
    (bytes : Bytes) : ∃ n, faults.fitting fs name bytes = bytes.take n := by
  unfold fitting
  rcases faults.room fs name with _ | n
  · exact ⟨bytes.length, List.take_length.symm⟩
  · exact ⟨n, rfl⟩

/-- The calls where some fail are lawful. One that fails to write has written what there
    was room for, if the file could be opened. -/
theorem Faults.lawful_calls (faults : Faults) : faults.calls.Lawful where
  read_ok {name content w w'} h := by
    change Action.readSource faults name none w = _ at h
    rw [Action.readSource_run, Action.answer_eq_ok_iff] at h
    exact ⟨by rw [h.2], (FileSystem.read_of_source h.1).2.2.2⟩
  read_error {name e w w'} h := by
    change Action.readSource faults name none w = _ at h
    rw [Action.readSource_run, Action.answer_eq_error_iff] at h
    rw [h.2]
  print_ok {bytes w w'} h := by
    change Action.tryPrint faults bytes w = _ at h
    unfold Action.tryPrint at h
    split at h <;> cases h
    rfl
  print_error {bytes e w w'} h := by
    change Action.tryPrint faults bytes w = _ at h
    unfold Action.tryPrint at h
    split at h <;> cases h
    exact ⟨rfl, rfl⟩
  write_ok {name bytes w w'} h := by
    change Action.writeBack faults name bytes w = _ at h
    rw [Action.writeBack_run] at h
    split at h
    · cases h
    split at h
    · cases h
    rcases hwrite : w.files.write name (faults.fitting w.files name bytes) with c | files <;>
      rw [hwrite] at h
    · cases h
    dsimp only at h
    split at h
    · rename_i hfits
      cases h
      rwa [hfits] at hwrite
    · cases h
  write_error {name bytes e w w'} h := by
    change Action.writeBack faults name bytes w = _ at h
    rw [Action.writeBack_run] at h
    split at h
    · cases h
      exact ⟨rfl, .inl rfl⟩
    split at h
    · cases h
      exact ⟨rfl, .inl rfl⟩
    rcases hwrite : w.files.write name (faults.fitting w.files name bytes) with c | files <;>
      rw [hwrite] at h
    · cases h
      exact ⟨rfl, .inl rfl⟩
    dsimp only at h
    split at h
    · cases h
    · cases h
      rcases faults.exists_fitting_eq_take w.files name bytes with ⟨n, hn⟩
      rw [hn] at hwrite
      exact ⟨rfl, .inr ⟨n, hwrite⟩⟩

/-- Calls on a device that has room for so many bytes of a file that is written. -/
def Calls.withRoom (room : Nat) : Calls :=
  Faults.calls { room := fun _ _ => some room }

theorem Calls.lawful_withRoom (room : Nat) : (withRoom room).Lawful :=
  Faults.lawful_calls _

/-- When an outcome is recorded, a document that was left out is as it was. So is one with
    an error, unless it was spoiled. One that formatting changed and that was to be written
    is formatted. -/
theorem files_of_recorded {calls : Calls} (hcalls : calls.Lawful) {options : Options}
    {name : FileName} {o : Outcome} {w w' : World}
    (h : recorded name (calls.processFile options name none w) = .ok o w') :
    (o.skipped = true → w'.files = w.files) ∧
    (o.error ≠ none → w'.files = w.files ∨
      ∃ content, w.files.read name = .ok content ∧ content ≠ retab content ∧
        calls.Spoiled options name (retab content) w.files w'.files) ∧
    (o.changed = true → options.write = true →
      ∃ content, w.files.read name = .ok content ∧
        w.files.write name (retab content) = .ok w'.files ∧
        w'.files.read name = .ok (retab content)) := by
  have hleaves : Leaves (calls.processFile options name none) w _ _ := leaves_processFile hcalls
  rcases hrun : calls.processFile options name none w with ⟨changed, w₁⟩ | ⟨e, w₁⟩
  · have hdone := hleaves.ok hrun
    rw [hrun] at h
    cases h
    refine ⟨fun h => absurd h Bool.false_ne_true, fun h => absurd rfl h, ?_⟩
    intro hchanged hwrite
    rcases hdone hchanged hwrite with ⟨content, hread, hwritten⟩
    exact ⟨content, hread, hwritten, FileSystem.read_of_write hread hwritten⟩
  · have hfailed := hleaves.error hrun
    rw [hrun] at h
    -- A document that was left out was not written, for only reading leaves one out.
    cases e with
    | skipped name' reason =>
      cases h
      have hsame : w₁.files = w.files := by
        refine hfailed.resolve_right ?_
        rintro ⟨hkind, -⟩
        cases hkind
      exact ⟨fun _ => hsame, fun h => absurd rfl h, fun h => absurd h Bool.false_ne_true⟩
    | nullInName => cases h
    | unreadable | unwritable | incomparable | unprintable =>
      cases h
      exact ⟨fun h => absurd h Bool.false_ne_true, fun _ => hfailed.imp_right fun h => h.2,
        fun h => absurd h Bool.false_ne_true⟩

/-- A directory with one file, which formatting changes. -/
def oneFile : World where
  files := {
    entries := [([ofAscii "x.conf"], .file (ofAscii "  a\n"))]
    workDir := [] }

/-- There is room for one byte, and that is what is left of the file. -/
theorem files_of_recorded_withRoom :
    let name := ofAscii "x.conf"
    let o : Outcome :=
      { path := name, error := some "x.conf: [Errno 28] No space left on device" }
    let w' : World := { oneFile with files := oneFile.files.put [name] (.file (ofAscii "\t")) }
    (Calls.withRoom 1).Lawful ∧
      recorded name ((Calls.withRoom 1).processFile { write := true } name none oneFile) =
        .ok o w' ∧
      w'.files ≠ oneFile.files ∧
      ∃ content, oneFile.files.read name = .ok content ∧ content ≠ retab content ∧
        (Calls.withRoom 1).Spoiled { write := true } name (retab content) oneFile.files
          w'.files := by
  intro name o w'
  have hlawful := Calls.lawful_withRoom 1
  have hrun : recorded name ((Calls.withRoom 1).processFile { write := true } name none oneFile) =
      .ok o w' := by
    decide +kernel
  have hchanged : w'.files ≠ oneFile.files := by
    decide +kernel
  have hspoiled := (files_of_recorded hlawful hrun).2.1 (Option.some_ne_none _)
  exact ⟨hlawful, hrun, hchanged, hspoiled.resolve_left hchanged⟩

/-- An error is recorded for a file that was written, if the change cannot be shown
    afterwards. The file is said not to have changed. -/
theorem exists_written_with_error :
    let faults : Faults := { outputFull := true }
    let name := ofAscii "x.conf"
    ∃ o w', processOne faults { write := true, diff := true } name none oneFile = .ok o w' ∧
      o.error ≠ none ∧ o.changed = false ∧ w'.files ≠ oneFile.files ∧
      w'.files.read name = .ok (ofAscii "\ta\n") := by
  intro faults name
  refine ⟨{ path := name, error := some "[Errno 28] No space left on device" },
    { oneFile with files := oneFile.files.put [name] (.file (ofAscii "\ta\n")) }, ?_⟩
  decide +kernel

end ConfIndent
