import ConfIndent.Batch.Run
import ConfIndent.Proofs.Batch.Lookup

/-!
# The Plan of a Batch

What a batch comes to, known before it starts. The walk looks at a directory
only when it gets there, and files are written while it is under way, so the
files below a directory are not known to it in advance. They are known to us:
the walk sees the shape of the file system only, and no visit changes that.

`FileSystem.plan` is the walk as a function of the file system. It lists the
visits in order, the directories passed over among them, and ends early where
the walk would crash. A batch carries its plan out, one visit after the other,
and the visits need not know of each other but for the shape they leave behind.

Two actions agree at a file system if they do the same in every world whose
files have its shape, and keep the shape. Agreement is a congruence: it lets an
action that only looks at the files be replaced by the answer it gives there.

## Main definitions

* `Action.answer`: The action that only gives an answer.
* `Agree`: Actions that do the same as long as the shape stays.
* `Visit`: What a batch comes to.
* `FileSystem.plan`: The visits of a walk.
* `FileSystem.planNames`: The visits of a batch.

## Theorems

* `Agree.bind`: Agreement is a congruence.
* `agree_walk`: A walk carries its plan out.
* `run_eq`: A batch carries its plan out.
-/

namespace ConfIndent

open Bytes

namespace FileSystem

/-- What a name leads to, if anything. -/
def leadsTo (fs : FileSystem) (faults : Faults) (name : FileName) :
    Except Crash (Option Entry) :=
  if 0 ∈ name then .ok none
  else
    match faults.probe fs name with
    | .ok e => .ok e
    | .error c => .error (.system ⟨c, some name⟩)

/-- The name leads to a directory. -/
def isDirectory (fs : FileSystem) (faults : Faults) (name : FileName) : Except Crash Bool :=
  (fs.leadsTo faults name).map fun e => decide (e = some .directory)

/-- The path leads to a file that is to be formatted. -/
def isConf (fs : FileSystem) (faults : Faults) (suffix : Suffix) (path : FileName) :
    Except Crash Bool :=
  (fs.leadsTo faults path.tidy).bind fun e =>
    match e with
    | some (.file _) =>
      if path.baseName.isHidden then .ok false
      else
        match suffix with
        | none => .error .noSuffix
        | some suffix => .ok (path.baseName.endsIn suffix)
    | _ => .ok false

/-- The entries of a directory, or why it cannot be listed. -/
def listing (fs : FileSystem) (faults : Faults) (name : FileName) :
    Except Crash (Except SystemError (List (Bytes × Entry))) :=
  if name ∈ faults.unlistable then .ok (.error ⟨.denied, some name⟩)
  else if 0 ∈ name then .error .nullInName
  else
    match fs.list name with
    | .ok entries => .ok (.ok entries)
    | .error c => .ok (.error ⟨c, some name⟩)

end FileSystem

/-- What a batch comes to. -/
inductive Visit where
  /-- A file to format. -/
  | file (path : FileName)
  /-- A directory that cannot be listed. -/
  | unlistable (reason : SystemError)
  /-- The end of the batch. -/
  | crash (c : Crash)
  deriving DecidableEq, Repr

namespace FileSystem

/-- The visits for an entry of a directory that is taken for a file. -/
def planFile (fs : FileSystem) (faults : Faults) (suffix : Suffix) (path : FileName) :
    List Visit :=
  match fs.isConf faults suffix path with
  | .ok true => [.file path]
  | .ok false => []
  | .error c => [.crash c]

/-- The names of the entries that are taken for directories, or that are not, in
    order. -/
def namesWhere (fs : FileSystem) (faults : Faults) (directory : FileName) (enters : Bool)
    (entries : List (Bytes × Entry)) : List FileName :=
  FileName.sort ((entries.filter fun e => entersAs faults fs directory e == enters).map Prod.fst)

theorem namesWhere_true (fs : FileSystem) (faults : Faults) (directory : FileName)
    (entries : List (Bytes × Entry)) :
    fs.namesWhere faults directory true entries =
      FileName.sort ((entries.partition (entersAs faults fs directory)).1.map Prod.fst) := by
  simp only [namesWhere, List.partition_eq_filter_filter, beq_true]

theorem namesWhere_false (fs : FileSystem) (faults : Faults) (directory : FileName)
    (entries : List (Bytes × Entry)) :
    fs.namesWhere faults directory false entries =
      FileName.sort ((entries.partition (entersAs faults fs directory)).2.map Prod.fst) := by
  simp only [namesWhere, List.partition_eq_filter_filter, beq_false, Function.comp_def]

/-- The visits of a walk that goes no more than the given number of directories
    deep. -/
def planWithin (fs : FileSystem) (faults : Faults) (suffix : Suffix) :
    Nat → FileName → List Visit
  | 0, _ => []
  | depth + 1, directory =>
    match fs.listing faults directory with
    | .error c => [.crash c]
    | .ok (.error reason) => [.unlistable reason]
    | .ok (.ok entries) =>
      (fs.namesWhere faults directory false entries).flatMap (fun name =>
          fs.planFile faults suffix (FileName.join directory name).tidy) ++
        (fs.namesWhere faults directory true entries).flatMap fun name =>
          let path := FileName.join directory name
          if fs.isLink path then [] else fs.planWithin faults suffix depth path

/-- The visits of a walk. -/
def plan (fs : FileSystem) (faults : Faults) (suffix : Suffix) (root : FileName) : List Visit :=
  fs.planWithin faults suffix maxName root.tidy

/-- The visits for a name that a batch is given. -/
def planName (fs : FileSystem) (faults : Faults) (suffix : Suffix) (name : FileName) :
    List Visit :=
  match fs.isDirectory faults name.tidy with
  | .ok true => fs.plan faults suffix name
  | .ok false => [.file name]
  | .error c => [.crash c]

/-- The visits of a batch. -/
def planNames (fs : FileSystem) (faults : Faults) (suffix : Suffix) (names : List FileName) :
    List Visit :=
  names.flatMap (fs.planName faults suffix)

end FileSystem

instance decidableEqExcept {ε α : Type} [DecidableEq ε] [DecidableEq α] :
    DecidableEq (Except ε α)
  | .ok x, .ok y => decidable_of_iff (x = y) (by rw [Except.ok.injEq])
  | .error x, .error y => decidable_of_iff (x = y) (by rw [Except.error.injEq])
  | .ok _, .error _ => .isFalse nofun
  | .error _, .ok _ => .isFalse nofun

instance decidableEqResult {ε α : Type} [DecidableEq ε] [DecidableEq α] :
    DecidableEq (EStateM.Result ε World α)
  | .ok x w, .ok y w' => decidable_of_iff (x = y ∧ w = w') (by rw [EStateM.Result.ok.injEq])
  | .error x w, .error y w' =>
    decidable_of_iff (x = y ∧ w = w') (by rw [EStateM.Result.error.injEq])
  | .ok _ _, .error _ _ => .isFalse nofun
  | .error _ _, .ok _ _ => .isFalse nofun

/-- The action that gives an answer and does nothing. -/
def Action.answer {ε α : Type} : Except ε α → Action ε α
  | .ok x => pure x
  | .error e => throw e

/-- An answer leaves the world as it is. -/
theorem Action.answer_eq_ok_iff {ε α : Type} {r : Except ε α} {x : α} {w w' : World} :
    Action.answer r w = .ok x w' ↔ r = .ok x ∧ w' = w := by
  cases r with
  | ok y =>
    constructor
    · intro h
      cases h
      exact ⟨rfl, rfl⟩
    · rintro ⟨h, rfl⟩
      cases h
      rfl
  | error e =>
    constructor
    · intro h
      cases h
    · rintro ⟨h, -⟩
      cases h

theorem Action.answer_eq_error_iff {ε α : Type} {r : Except ε α} {e : ε} {w w' : World} :
    Action.answer r w = .error e w' ↔ r = .error e ∧ w' = w := by
  cases r with
  | ok y =>
    constructor
    · intro h
      cases h
    · rintro ⟨h, -⟩
      cases h
  | error e' =>
    constructor
    · intro h
      cases h
      exact ⟨rfl, rfl⟩
    · rintro ⟨h, rfl⟩
      cases h
      rfl

/-- Carries a visit out, given what to do with a file and with a directory that is
    passed over. -/
def Visit.act {β : Type} (visit : FileName → Action Crash β) (passOver : SystemError → β) :
    Visit → Action Crash β
  | .file path => visit path
  | .unlistable reason => pure (passOver reason)
  | .crash c => throw c

/-- The action keeps the shape of the files. -/
def KeepsShape {ε α : Type} (a : Action ε α) : Prop :=
  ∀ w x w', a w = .ok x w' → w'.files.shape = w.files.shape

/-- The actions do the same as long as the files have the shape of the file system
    given, and they keep it. -/
def Agree {ε α : Type} (fs : FileSystem) (a b : Action ε α) : Prop :=
  ∀ w : World, w.files.shape = fs.shape →
    a w = b w ∧ ∀ x w', b w = .ok x w' → w'.files.shape = fs.shape

section Agreement

variable {ε α β : Type} {fs : FileSystem}

/-- Actions that agree go on to agree. -/
theorem Agree.bind {a b : Action ε α} {f g : α → Action ε β} (h : Agree fs a b)
    (hfg : ∀ x, Agree fs (f x) (g x)) : Agree fs (a >>= f) (b >>= g) := by
  intro w hw
  rcases h w hw with ⟨heq, hkeep⟩
  change EStateM.bind a f w = EStateM.bind b g w ∧ _
  unfold EStateM.bind
  rw [heq]
  change _ ∧ ∀ x w', EStateM.bind b g w = .ok x w' → _
  unfold EStateM.bind
  -- What follows starts from the shape that the first action has kept.
  rcases hb : b w with ⟨x, w'⟩ | ⟨e, w'⟩
  · exact hfg x w' (hkeep x w' hb)
  · refine ⟨rfl, ?_⟩
    intro _ _ h
    exact absurd h (by simp only [reduceCtorEq, not_false_eq_true])

theorem agree_of_keepsShape {a : Action ε α} (h : KeepsShape a) : Agree fs a a := by
  intro w hw
  refine ⟨rfl, ?_⟩
  intro x w' ha
  rw [h w x w' ha, hw]

theorem keepsShape_pure (x : α) : KeepsShape (pure x : Action ε α) := by
  intro w y w' h
  cases h
  rfl

theorem keepsShape_throw (e : ε) : KeepsShape (throw e : Action ε α) := by
  intro w y w' h
  cases h

theorem keepsShape_answer (r : Except ε α) : KeepsShape (Action.answer r) := by
  cases r with
  | ok x => exact keepsShape_pure x
  | error e => exact keepsShape_throw e

/-- Actions that agree on every item agree on a list of items. -/
theorem Agree.mapM {a b : α → Action ε β} (h : ∀ x, Agree fs (a x) (b x)) (xs : List α) :
    Agree fs (xs.mapM a) (xs.mapM b) := by
  induction xs with
  | nil => exact agree_of_keepsShape (keepsShape_pure [])
  | cons x xs ih =>
    rw [List.mapM_cons, List.mapM_cons]
    exact (h x).bind fun y => ih.bind fun ys => agree_of_keepsShape (keepsShape_pure _)

/-- An action that gives the answer the shape determines can be replaced by it. -/
theorem agree_answer {a : Action ε α} {f : FileSystem → Except ε α}
    (hrun : ∀ w, a w = Action.answer (f w.files) w) (hshape : ∀ fs, f fs.shape = f fs) :
    Agree fs a (Action.answer (f fs)) := by
  intro w hw
  rw [hrun w, ← hshape w.files, hw, hshape]
  exact ⟨rfl, fun x w' h => (keepsShape_answer _ w x w' h).trans hw⟩

/-- After an action that answers, what follows goes on with the answer. -/
theorem Agree.bind_ok {a : Action ε α} {x : α} (h : Agree fs a (Action.answer (.ok x)))
    {f : α → Action ε β} {b : Action ε β} (hf : Agree fs (f x) b) : Agree fs (a >>= f) b := by
  intro w hw
  change EStateM.bind a f w = b w ∧ _
  rw [EStateM.bind, (h w hw).1]
  exact hf w hw

/-- After an action that answers with an error, nothing follows. -/
theorem Agree.bind_error {a : Action ε α} {e : ε} (h : Agree fs a (Action.answer (.error e)))
    (f : α → Action ε β) : Agree fs (a >>= f) (throw e) := by
  intro w hw
  change EStateM.bind a f w = _ ∧ _
  rw [EStateM.bind, (h w hw).1]
  refine ⟨rfl, ?_⟩
  intro x w' hthrow
  exact (keepsShape_throw e w x w' hthrow).trans hw

end Agreement

namespace FileSystem

/-- What a name leads to in a walk is seen by the shape. -/
theorem leadsTo_shape (fs : FileSystem) (faults : Faults) (name : FileName) :
    fs.shape.leadsTo faults name = (fs.leadsTo faults name).map (Option.map Entry.shape) := by
  unfold leadsTo
  by_cases h : 0 ∈ name
  · rw [if_pos h, if_pos h]
    rfl
  · rw [if_neg h, if_neg h, Faults.probe_shape]
    cases faults.probe fs name <;> rfl

theorem isDirectory_shape (fs : FileSystem) (faults : Faults) (name : FileName) :
    fs.shape.isDirectory faults name = fs.isDirectory faults name := by
  unfold isDirectory
  rw [leadsTo_shape]
  rcases fs.leadsTo faults name with c | _ | _ | _ | _ <;> rfl

theorem isConf_shape (faults : Faults) (suffix : Suffix) (path : FileName) (fs : FileSystem) :
    fs.shape.isConf faults suffix path = fs.isConf faults suffix path := by
  unfold isConf
  rw [leadsTo_shape]
  rcases fs.leadsTo faults path.tidy with c | _ | _ | _ | _ <;> rfl

/-- What is listed of a directory is seen by the shape. -/
theorem listing_shape (fs : FileSystem) (faults : Faults) (name : FileName) :
    fs.shape.listing faults name =
      (fs.listing faults name).map
        (Except.map (List.map fun (name, e) => (name, e.shape))) := by
  unfold listing
  by_cases hfault : name ∈ faults.unlistable
  · rw [if_pos hfault, if_pos hfault]
    rfl
  · rw [if_neg hfault, if_neg hfault]
    by_cases h : 0 ∈ name
    · rw [if_pos h, if_pos h]
      rfl
    · rw [if_neg h, if_neg h, list_shape]
      cases fs.list name <;> rfl

theorem entersAs_shape (fs : FileSystem) (faults : Faults) (directory : FileName) (name : Bytes)
    (e : Entry) :
    entersAs faults fs.shape directory (name, e.shape) =
      entersAs faults fs directory (name, e) := by
  cases e with
  | directory => rfl
  | file content => rfl
  | link target =>
    unfold entersAs Entry.shape
    simp only [Faults.stat_shape]
    rcases faults.stat fs (FileName.join directory name) with c | _ | _ | _ <;> rfl

/-- Which entries a walk enters is seen by the shape. -/
theorem namesWhere_shape (fs : FileSystem) (faults : Faults) (directory : FileName) (enters : Bool)
    (entries : List (Bytes × Entry)) :
    fs.shape.namesWhere faults directory enters (entries.map fun (name, e) => (name, e.shape)) =
      fs.namesWhere faults directory enters entries := by
  unfold namesWhere
  rw [List.filter_map, List.map_map]
  congr 2
  refine List.filter_congr ?_
  intro entry _
  simp only [Function.comp_apply, entersAs_shape]

/-- The plan of a walk is seen by the shape. -/
theorem planWithin_shape (fs : FileSystem) (faults : Faults) (suffix : Suffix) (depth : Nat)
    (directory : FileName) :
    fs.shape.planWithin faults suffix depth directory =
      fs.planWithin faults suffix depth directory := by
  induction depth generalizing directory with
  | zero => rfl
  | succ depth ih =>
    rw [planWithin, planWithin, listing_shape]
    rcases fs.listing faults directory with c | (reason | entries)
    · rfl
    · rfl
    · simp only [Except.map, namesWhere_shape, planFile, isConf_shape, isLink_shape, ih]

theorem planName_shape (fs : FileSystem) (faults : Faults) (suffix : Suffix) (name : FileName) :
    fs.shape.planName faults suffix name = fs.planName faults suffix name := by
  simp only [planName, isDirectory_shape, plan, planWithin_shape]

/-- The plan of a batch depends on the shape of the file system only. -/
theorem planNames_congr {fs fs' : FileSystem} (h : fs.shape = fs'.shape) (faults : Faults)
    (suffix : Suffix) (names : List FileName) :
    fs.planNames faults suffix names = fs'.planNames faults suffix names := by
  have hname : fs.planName faults suffix = fs'.planName faults suffix := by
    funext name
    rw [← planName_shape, h, planName_shape]
  rw [planNames, planNames, hname]

end FileSystem

/-- To test a name answers what it leads to, and does nothing else. -/
theorem probe_run (faults : Faults) (name : FileName) (w : World) :
    Action.probe faults name w = Action.answer (w.files.leadsTo faults name) w := by
  unfold Action.probe FileSystem.leadsTo
  by_cases h : 0 ∈ name
  · rw [if_pos h, if_pos h]
    rfl
  · rw [if_neg h, if_neg h]
    change (match faults.probe w.files name with
      | .ok e => pure e
      | .error c => throw (.system ⟨c, some name⟩) : Action Crash (Option Entry)) w = _
    cases faults.probe w.files name <;> rfl

theorem isDirectory_run (faults : Faults) (name : FileName) (w : World) :
    Action.isDirectory faults name w = Action.answer (w.files.isDirectory faults name) w := by
  change EStateM.bind (Action.probe faults name) _ w = _
  rw [EStateM.bind, probe_run, FileSystem.isDirectory]
  cases w.files.leadsTo faults name <;> rfl

/-- To test a file answers whether it is one to format, and does nothing else. -/
theorem isConfFile_run (faults : Faults) (suffix : Suffix) (path : FileName) (w : World) :
    isConfFile suffix path faults w = Action.answer (w.files.isConf faults suffix path) w := by
  unfold isConfFile Action.isFile FileSystem.isConf
  simp only [bind, EStateM.bind, probe_run]
  rcases w.files.leadsTo faults path.tidy with c | _ | _ | _ | _
  · rfl
  · rfl
  · rfl
  · simp only [Action.answer, pure, EStateM.pure, Except.bind, Bool.not_true, Bool.false_eq_true,
      if_false]
    by_cases hhidden : path.baseName.isHidden
    · rw [if_pos hhidden, if_pos hhidden]
    · rw [if_neg hhidden, if_neg hhidden]
      cases suffix <;> rfl
  · rfl

/-- To list a directory answers what it holds, and does nothing else. -/
theorem list_run (faults : Faults) (name : FileName) (w : World) :
    Action.list faults name w = Action.answer (w.files.listing faults name) w := by
  unfold Action.list FileSystem.listing
  by_cases hfault : name ∈ faults.unlistable
  · rw [if_pos hfault, if_pos hfault]
    rfl
  · rw [if_neg hfault, if_neg hfault]
    by_cases h : 0 ∈ name
    · rw [if_pos h, if_pos h]
      rfl
    · rw [if_neg h, if_neg h]
      change (match w.files.list name with
        | .ok entries => pure (.ok entries)
        | .error c => pure (.error ⟨c, some name⟩) :
          Action Crash (Except SystemError (List (Bytes × Entry)))) w = _
      cases w.files.list name <;> rfl

theorem isLink_run (name : FileName) (w : World) :
    Action.isLink name w = Action.answer (.ok (w.files.isLink name)) w :=
  rfl

theorem agree_isConfFile (fs : FileSystem) (faults : Faults) (suffix : Suffix) (path : FileName) :
    Agree fs (isConfFile suffix path faults) (Action.answer (fs.isConf faults suffix path)) :=
  agree_answer (f := fun fs => fs.isConf faults suffix path) (isConfFile_run faults suffix path)
    (FileSystem.isConf_shape faults suffix path)

theorem agree_isDirectory (fs : FileSystem) (faults : Faults) (name : FileName) :
    Agree fs (Action.isDirectory faults name) (Action.answer (fs.isDirectory faults name)) :=
  agree_answer (f := fun fs => fs.isDirectory faults name) (isDirectory_run faults name)
    fun fs => FileSystem.isDirectory_shape fs faults name

theorem agree_isLink (fs : FileSystem) (name : FileName) :
    Agree fs (Action.isLink name : Action Crash Bool) (Action.answer (.ok (fs.isLink name))) :=
  agree_answer (f := fun fs => .ok (fs.isLink name)) (isLink_run name)
    fun fs => by rw [FileSystem.isLink_shape]

/-- Carrying out one list of visits for each item is carrying out all of them, with
    the results gathered. -/
theorem mapM_flatMap {α β γ : Type} (xs : List α) (visits : α → List β) (act : β → Action Crash γ) :
    (xs.flatMap visits).mapM act = List.flatten <$> xs.mapM fun x => (visits x).mapM act := by
  induction xs with
  | nil => simp only [List.flatMap_nil, List.mapM_nil, map_pure, List.flatten_nil]
  | cons x xs ih =>
    simp only [List.flatMap_cons, List.mapM_append, ih, List.mapM_cons, map_eq_pure_bind,
      bind_assoc, pure_bind, List.flatten_cons]

section Carrying

variable {β : Type} {fs : FileSystem} {visit : FileName → Action Crash β}
  (hvisit : ∀ path, KeepsShape (visit path)) (passOver : SystemError → β)

include hvisit

theorem agree_visitFiles (faults : Faults) (suffix : Suffix) (directory : FileName)
    (names : List Bytes) :
    Agree fs (visitFiles faults suffix visit directory names)
      ((names.flatMap fun name =>
        fs.planFile faults suffix (FileName.join directory name).tidy).mapM
          (Visit.act visit passOver)) := by
  induction names with
  | nil => exact agree_of_keepsShape (keepsShape_pure [])
  | cons name names ih =>
    have hconf := agree_isConfFile fs faults suffix (FileName.join directory name).tidy
    rw [visitFiles, List.flatMap_cons, FileSystem.planFile]
    rcases hanswer : fs.isConf faults suffix (FileName.join directory name).tidy with c | _ | _
    · -- The walk crashes here, and so does its plan.
      rw [hanswer] at hconf
      rw [List.cons_append, List.mapM_cons]
      exact hconf.bind_error _
    · rw [hanswer] at hconf
      exact hconf.bind_ok ih
    · -- The visit may write, but the tests behind it see the shape only.
      rw [hanswer] at hconf
      rw [List.cons_append, List.nil_append, List.mapM_cons]
      have hfirst (path : FileName) : Agree fs (visit path) (visit path) :=
        agree_of_keepsShape (hvisit path)
      refine hconf.bind_ok ((hfirst _).bind fun first => ih.bind fun rest => ?_)
      exact agree_of_keepsShape (keepsShape_pure _)

-- What a walk does in a directory, once it knows the names there.
theorem agree_entries (faults : Faults) (suffix : Suffix) (depth : Nat) (directory : FileName)
    (hbelow : ∀ path, Agree fs (walkWithin faults suffix visit passOver depth path)
      ((fs.planWithin faults suffix depth path).mapM (Visit.act visit passOver)))
    (files subdirectories : List FileName) :
    Agree fs
      (visitFiles faults suffix visit directory files >>= fun here =>
        (subdirectories.mapM fun name => do
          if ← Action.isLink (FileName.join directory name) then pure []
          else walkWithin faults suffix visit passOver depth (FileName.join directory name)) >>=
        fun below => pure (here ++ below.flatten))
      ((files.flatMap (fun name => fs.planFile faults suffix (FileName.join directory name).tidy) ++
        subdirectories.flatMap fun name =>
          if fs.isLink (FileName.join directory name) then []
          else fs.planWithin faults suffix depth (FileName.join directory name)).mapM
        (Visit.act visit passOver)) := by
  rw [List.mapM_append, mapM_flatMap subdirectories]
  refine (agree_visitFiles hvisit passOver faults suffix directory files).bind fun here => ?_
  rw [map_eq_pure_bind, bind_assoc]
  refine (Agree.mapM (fun name => ?_) subdirectories).bind fun below => ?_
  · -- Whether an entry is a link is seen when it is got to, and has not changed till then.
    by_cases hlink : fs.isLink (FileName.join directory name)
    · have h := agree_isLink fs (FileName.join directory name)
      rw [hlink] at h
      rw [if_pos hlink]
      exact h.bind_ok (agree_of_keepsShape (keepsShape_pure []))
    · have h := agree_isLink fs (FileName.join directory name)
      rw [Bool.not_eq_true] at hlink
      rw [hlink] at h
      rw [hlink, if_neg Bool.false_ne_true]
      exact h.bind_ok (hbelow _)
  · rw [pure_bind]
    exact agree_of_keepsShape (keepsShape_pure _)

theorem agree_walkWithin (faults : Faults) (suffix : Suffix) (depth : Nat)
    (directory : FileName) :
    Agree fs (walkWithin faults suffix visit passOver depth directory)
      ((fs.planWithin faults suffix depth directory).mapM (Visit.act visit passOver)) := by
  induction depth generalizing directory fs with
  | zero => exact agree_of_keepsShape (keepsShape_pure [])
  | succ depth ih =>
    intro w hw
    -- The plan is the one for the files of the world, which have the same shape.
    rw [← FileSystem.planWithin_shape, ← hw, FileSystem.planWithin_shape, FileSystem.planWithin,
      walkWithin]
    change EStateM.bind (Action.list faults directory) _ w = _ ∧ _
    rw [EStateM.bind, list_run]
    rcases w.files.listing faults directory with c | (reason | entries)
    · refine ⟨rfl, ?_⟩
      intro x w' h
      cases h
    · refine ⟨rfl, ?_⟩
      intro x w' h
      cases h
      rfl
    · have hbelow : ∀ path, Agree w.files (walkWithin faults suffix visit passOver depth path)
          ((w.files.planWithin faults suffix depth path).mapM (Visit.act visit passOver)) :=
        fun path => ih path
      dsimp only
      rw [FileSystem.namesWhere_false, FileSystem.namesWhere_true]
      exact agree_entries hvisit passOver faults suffix depth directory hbelow _ _ w rfl

/-- A walk carries its plan out. -/
theorem agree_walk (faults : Faults) (suffix : Suffix) (root : FileName) :
    Agree fs (walk faults suffix visit passOver root)
      ((fs.plan faults suffix root).mapM (Visit.act visit passOver)) :=
  agree_walkWithin hvisit passOver faults suffix _ _

end Carrying

/-- What a walk that only looks tells about a visit. -/
def Visit.found : Visit → Except Crash (Except SystemError FileName)
  | .file path => .ok (.ok path)
  | .unlistable reason => .ok (.error reason)
  | .crash c => .error c

/-- What a walk that only looks tells about a visit that is not its end. -/
def Visit.found? : Visit → Option (Except SystemError FileName)
  | .file path => some (.ok path)
  | .unlistable reason => some (.error reason)
  | .crash _ => none

theorem mapM_found_eq_ok_iff (visits : List Visit) (found : List (Except SystemError FileName)) :
    visits.mapM Visit.found = .ok found ↔
      (∀ c, Visit.crash c ∉ visits) ∧ found = visits.filterMap Visit.found? := by
  induction visits generalizing found with
  | nil =>
    rw [List.mapM_nil, List.filterMap_nil]
    constructor
    · intro h
      cases h
      exact ⟨fun c => List.not_mem_nil, rfl⟩
    · rintro ⟨-, rfl⟩
      rfl
  | cons visit visits ih =>
    -- A visit that is no crash is told, and what follows it decides.
    have hstep (x : Except SystemError FileName) (hx : visit.found = .ok x)
        (hx' : visit.found? = some x) (hcrash : ∀ c, visit ≠ .crash c) :
        (visit :: visits).mapM Visit.found = .ok found ↔
          (∀ c, Visit.crash c ∉ visit :: visits) ∧
            found = (visit :: visits).filterMap Visit.found? := by
      rw [List.mapM_cons, hx, List.filterMap_cons_some hx']
      constructor
      · intro h
        rcases hrest : visits.mapM Visit.found with e | rest
        · rw [hrest] at h
          exact absurd h (by simp only [bind, Except.bind, reduceCtorEq, not_false_eq_true])
        · rw [hrest] at h
          cases h
          rcases (ih rest).1 hrest with ⟨hnone, rfl⟩
          refine ⟨?_, rfl⟩
          intro c hc
          rcases List.mem_cons.1 hc with hc | hc
          · exact hcrash c hc.symm
          · exact hnone c hc
      · rintro ⟨hnone, rfl⟩
        have hrest := (ih (visits.filterMap Visit.found?)).2
          ⟨fun c hc => hnone c (List.mem_cons_of_mem _ hc), rfl⟩
        rw [hrest]
        rfl
    cases visit with
    | file path => exact hstep (.ok path) rfl rfl fun c h => nomatch h
    | unlistable reason => exact hstep (.error reason) rfl rfl fun c h => nomatch h
    | crash c =>
      constructor
      · intro h
        cases h
      · rintro ⟨hnone, -⟩
        exact absurd List.mem_cons_self (hnone c)

/-- A list of answers is one answer. -/
theorem mapM_answer {ε α β : Type} (f : α → Except ε β) (xs : List α) (w : World) :
    (xs.mapM fun x => Action.answer (f x)) w = Action.answer (xs.mapM f) w := by
  induction xs with
  | nil => rfl
  | cons x xs ih =>
    rw [List.mapM_cons, List.mapM_cons]
    change EStateM.bind (Action.answer (f x)) _ w = _
    rcases f x with e | y
    · rfl
    · change EStateM.bind (xs.mapM fun x => Action.answer (f x)) _ w = _
      rw [EStateM.bind, ih]
      cases xs.mapM f <;> rfl

/-- A walk that only looks tells its plan and does nothing. -/
theorem walkFiles_run (faults : Faults) (suffix : Suffix) (root : FileName) (w : World) :
    walkFiles faults suffix root w =
      Action.answer ((w.files.plan faults suffix root).mapM Visit.found) w := by
  have hkeep (path : FileName) :
      KeepsShape (pure (.ok path) : Action Crash (Except SystemError FileName)) :=
    keepsShape_pure _
  have hwalk : Agree w.files (walkFiles faults suffix root)
      ((w.files.plan faults suffix root).mapM
        (Visit.act (fun path => pure (Except.ok path)) Except.error)) :=
    agree_walk hkeep Except.error faults suffix root
  have hvisit : Visit.act (fun path => pure (Except.ok path)) Except.error =
      fun v => (Action.answer v.found : Action Crash (Except SystemError FileName)) := by
    funext v
    cases v <;> rfl
  rw [(hwalk w rfl).1, hvisit, mapM_answer]

/-- To handle a name is to carry its plan out, as long as the handling of a file leaves
    the shape of the file system alone. -/
theorem agree_runName (faults : Faults) (options : Options) (suffix : Suffix)
    (hone : ∀ path, KeepsShape (processOne faults options path none)) (fs : FileSystem)
    (name : FileName) :
    Agree fs (runName faults options suffix name)
      ((fs.planName faults suffix name).mapM
        (Visit.act (fun path => processOne faults options path none) unlistable)) := by
  have hdirectory := agree_isDirectory fs faults name.tidy
  rw [runName, FileSystem.planName]
  rcases hanswer : fs.isDirectory faults name.tidy with c | _ | _
  · rw [hanswer] at hdirectory
    exact hdirectory.bind_error _
  · rw [hanswer] at hdirectory
    refine hdirectory.bind_ok ?_
    rw [List.mapM_cons]
    exact (agree_of_keepsShape (hone name)).bind fun _ => agree_of_keepsShape (keepsShape_pure _)
  · rw [hanswer] at hdirectory
    exact hdirectory.bind_ok (agree_walk hone unlistable faults suffix name)

/-- A batch carries its plan out, as long as the handling of a file leaves the
    shape of the file system alone. -/
theorem run_eq (faults : Faults) (options : Options) (suffix : Suffix) {names : List FileName}
    (hnames : names ≠ []) (input : Input) (w : World)
    (hone : ∀ path, KeepsShape (processOne faults options path none)) :
    run faults options suffix names input w =
      (Summary.mk <$> (w.files.planNames faults suffix names).mapM
        (Visit.act (fun path => processOne faults options path none) unlistable)) w := by
  have hname := agree_runName faults options suffix hone w.files
  -- A batch that is given no names reads its input instead.
  rcases names with _ | ⟨name, names⟩
  · exact absurd rfl hnames
  · rw [FileSystem.planNames, mapM_flatMap]
    have hall := (Agree.mapM hname (name :: names)).bind
      (g := fun outcomes => (pure ⟨outcomes.flatten⟩ : Action Crash Summary))
      fun outcomes => agree_of_keepsShape (keepsShape_pure _)
    simp only [map_eq_pure_bind, bind_assoc, pure_bind]
    exact (hall w rfl).1

end ConfIndent
