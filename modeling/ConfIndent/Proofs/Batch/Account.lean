import ConfIndent.Proofs.Batch.Fate

/-!
# The Account of a Batch

Every error of a batch is accounted for, in the log and in the exit code.

While a batch runs, its log grows by warnings and by lines that are of use when looking for a
mistake. There is a warning for every document that was left out, in order, and no other. Errors
are not logged before the end. The report has all of them then, or the first ten and a line that
counts the rest, so every error is either shown or counted. The exit code says whether there is an
error in the log. A document that was left out is none.

Outcomes come from several places. A document was processed, or that has failed, or the document
was left out, or a directory could not be listed, or the standard input was to be written back.
Each of these is a step that adds to the outcomes and to the log. It is enough to know of every
step that what it adds to the one accounts for what it adds to the other, since steps in a row do
so as well.

## Main definitions

* `Quiet`: An action logs nothing but lines that are of use when looking for a mistake.
* `Accounts`: The lines that were logged account for the outcomes.
* `Steps`: The log grows by what accounts for the outcomes.
* `Balanced`: Outcomes, log, report and exit code agree.

## Theorems

* `quiet_processFile`: Processing a document is quiet.
* `steps_processOne`: A visit to a document is a step.
* `steps_run`: A batch is a step.
* `Summary.exists_report`: A report shows errors from the front and counts those that are cut off.
* `Accounts.balanced`: Lines that account for the outcomes make a balance with the report.
* `run_balanced`: The account of a batch is balanced.
-/

namespace ConfIndent

open Bytes

/-- A document that was left out, and why. -/
abbrev Skip := FileName × SystemError

/-- The warning that a document was left out. -/
def Skip.warning (skip : Skip) : LogLine :=
  ⟨.warning, "skipping " ++ (FileError.skipped skip.1 skip.2).message⟩

/-- The line is a warning. -/
def LogLine.isWarning (line : LogLine) : Bool :=
  line.level = .warning

/-- The line is an error. -/
def LogLine.isError (line : LogLine) : Bool :=
  line.level = .error

/-- The log has grown by lines that are of use when looking for a mistake. -/
def Murmurs (w w' : World) : Prop :=
  ∃ lines, w'.log = w.log ++ lines ∧ ∀ line ∈ lines, line.level = .debug

theorem murmurs_of_log_eq {w w' : World} (h : w'.log = w.log) : Murmurs w w' :=
  ⟨[], by rw [h, List.append_nil], fun _ h => absurd h List.not_mem_nil⟩

theorem Murmurs.refl (w : World) : Murmurs w w :=
  murmurs_of_log_eq rfl

theorem Murmurs.trans {w w₁ w' : World} (h : Murmurs w w₁) (h' : Murmurs w₁ w') :
    Murmurs w w' := by
  rcases h with ⟨lines, hlog, hlines⟩
  rcases h' with ⟨lines', hlog', hlines'⟩
  refine ⟨lines ++ lines', by rw [hlog', hlog, List.append_assoc], fun line hline => ?_⟩
  exact (List.mem_append.1 hline).elim (hlines line) (hlines' line)

/-- If the error says that a document was left out, it says so of the given name. -/
def FileError.LeavesOutOnly (name : FileName) (e : FileError) : Prop :=
  ∀ other reason, e = .skipped other reason → other = name

/-- The action murmurs, and leaves out a document of the given name only. -/
structure Quiet {α : Type} (name : FileName) (a : Action FileError α) : Prop where
  ok {x : α} {w w' : World} (h : a w = .ok x w') : Murmurs w w'
  error {e : FileError} {w w' : World} (h : a w = .error e w') :
    Murmurs w w' ∧ e.LeavesOutOnly name

section Processing

variable {α β : Type} {name : FileName}

theorem quiet_pure (x : α) : Quiet name (pure x) := by
  constructor
  · intro y w w' h
    cases h
    exact .refl w
  · intro e w w' h
    cases h

theorem quiet_throw {e : FileError} (he : e.LeavesOutOnly name) :
    Quiet name (throw e : Action FileError α) := by
  constructor
  · intro y w w' h
    cases h
  · intro e' w w' h
    cases h
    exact ⟨.refl w, he⟩

theorem quiet_debug (text : String) : Quiet name (Action.log .debug text) := by
  constructor
  · intro y w w' h
    cases h
    refine ⟨[⟨.debug, text⟩], rfl, fun line hline => ?_⟩
    rw [List.mem_singleton.1 hline]
  · intro e w w' h
    cases h

/-- Two quiet actions in a row are quiet. -/
theorem Quiet.bind {a : Action FileError α} {f : α → Action FileError β} (h : Quiet name a)
    (hf : ∀ x, Quiet name (f x)) : Quiet name (a >>= f) := by
  constructor
  · intro y w w' hrun
    rcases Action.exists_of_bind hrun with ⟨x, w₁, hfirst, hrest⟩
    exact (h.ok hfirst).trans ((hf x).ok hrest)
  · intro e w w' hrun
    rcases hfirst : a w with ⟨x, w₁⟩ | ⟨e₁, w₁⟩
    · rw [Action.bind_of_ok hfirst] at hrun
      rcases (hf x).error hrun with ⟨hmurmurs, he⟩
      exact ⟨(h.ok hfirst).trans hmurmurs, he⟩
    · rw [Action.bind_of_error hfirst] at hrun
      cases hrun
      exact h.error hfirst

/-- An action that is called for under some condition, and what follows it in any case. -/
theorem Quiet.when_bind (c : Prop) [Decidable c] {a : Action FileError Unit}
    {f : Unit → Action FileError β} (h : Quiet name a) (hf : Quiet name (f ())) :
    Quiet name (if c then a >>= f else f ()) := by
  by_cases hc : c
  · rw [if_pos hc]
    exact h.bind fun _ => hf
  · rw [if_neg hc]
    exact hf

variable (faults : Faults)

theorem quiet_tryPrint (bytes : Bytes) : Quiet name (Action.tryPrint faults bytes) := by
  unfold Action.tryPrint
  split
  · exact quiet_throw fun _ _ h => nomatch h
  · constructor
    · intro _ w w' h
      cases h
      exact murmurs_of_log_eq rfl
    · intro e w w' h
      cases h

theorem quiet_writeBack (content : Bytes) :
    Quiet name (Action.writeBack faults name content) := by
  constructor
  · intro _ w w' h
    rw [Action.writeBack_run] at h
    split at h
    · cases h
    split at h
    · cases h
    split at h
    · cases h
    split at h <;> cases h
    exact murmurs_of_log_eq rfl
  · intro e w w' h
    rw [Action.writeBack_run] at h
    split at h
    · cases h
      exact ⟨.refl w, fun _ _ h => nomatch h⟩
    split at h
    · cases h
      exact ⟨.refl w, fun _ _ h => nomatch h⟩
    split at h
    · cases h
      exact ⟨.refl w, fun _ _ h => nomatch h⟩
    split at h <;> cases h
    exact ⟨murmurs_of_log_eq rfl, fun _ _ h => nomatch h⟩

/-- A document that cannot be opened is left out under its own name. -/
theorem leavesOutOnly_of_source {fs : FileSystem} {e : FileError}
    (h : fs.source faults name = .error e) : e.LeavesOutOnly name := by
  unfold FileSystem.source at h
  rintro other reason rfl
  split at h
  · cases h
    rfl
  split at h
  · cases h
  split at h
  · cases h
  split at h <;> cases h
  rfl

/-- To read a document only murmurs, and leaves out no other document. -/
theorem quiet_readSource (input : Option Input) :
    Quiet name (Action.readSource faults name input) := by
  rcases input with _ | content | _
  · constructor
    · intro content w w' h
      rw [Action.readSource_run, Action.answer_eq_ok_iff] at h
      rw [h.2]
      exact .refl w
    · intro e w w' h
      rw [Action.readSource_run, Action.answer_eq_error_iff] at h
      rw [h.2]
      exact ⟨.refl w, leavesOutOnly_of_source faults h.1⟩
  · exact quiet_pure content
  · exact quiet_throw fun _ _ h => nomatch h

theorem quiet_showChange (source formatted : Bytes) :
    Quiet name (faults.calls.showChange name source formatted) := by
  unfold Calls.showChange
  cases faults.calls.comparison with
  | some reason => exact quiet_throw fun _ _ h => nomatch h
  | none => exact (quiet_tryPrint faults _).bind fun _ => quiet_tryPrint faults _

theorem quiet_applyChange (options : Options) (source formatted : Bytes) :
    Quiet name (faults.calls.applyChange options name source formatted) := by
  unfold Calls.applyChange
  refine Quiet.when_bind _ (quiet_tryPrint faults _) ?_
  refine Quiet.when_bind _ (quiet_writeBack faults formatted) ?_
  split
  · exact quiet_showChange faults source formatted
  · exact quiet_pure ()

/-- Processing a document is quiet. -/
theorem quiet_processFile (options : Options) (input : Option Input) :
    Quiet name (processFile faults options name input) := by
  refine (quiet_readSource faults input).bind fun source => ?_
  cases faults.calls.formatter with
  | some reason => exact (quiet_debug _).bind fun _ => quiet_pure _
  | none =>
    refine Quiet.when_bind _ (quiet_applyChange faults options _ _) ?_
    exact Quiet.when_bind _ (quiet_tryPrint faults _) (quiet_pure _)

end Processing

/-- The lines that were logged account for the outcomes. Each outcome has a fate, no line is an
    error, and there is a warning for each document that was left out, in order. -/
structure Accounts (lines : List LogLine) (outcomes : List Outcome) : Prop where
  fates : ∀ o ∈ outcomes, ∃ fate, o.fate? = some fate
  no_errors : lines.filter LogLine.isError = []
  warnings : ∃ skips : List Skip, lines.filter LogLine.isWarning = skips.map Skip.warning ∧
    (outcomes.filter Outcome.skipped).map Outcome.path = skips.map Prod.fst

theorem accounts_nil : Accounts [] [] :=
  ⟨fun _ h => absurd h List.not_mem_nil, rfl, [], rfl, rfl⟩

/-- Lines account for outcomes part by part. -/
theorem Accounts.append {lines lines' : List LogLine} {outcomes outcomes' : List Outcome}
    (h : Accounts lines outcomes) (h' : Accounts lines' outcomes') :
    Accounts (lines ++ lines') (outcomes ++ outcomes') := by
  rcases h.warnings with ⟨skips, hwarnings, hskipped⟩
  rcases h'.warnings with ⟨skips', hwarnings', hskipped'⟩
  refine ⟨fun o ho => ?_, ?_, skips ++ skips', ?_, ?_⟩
  · exact (List.mem_append.1 ho).elim (h.fates o) (h'.fates o)
  · rw [List.filter_append, h.no_errors, h'.no_errors, List.append_nil]
  · rw [List.filter_append, hwarnings, hwarnings', List.map_append]
  · rw [List.filter_append, List.map_append, hskipped, hskipped', List.map_append]

/-- A step of a batch. The log grows by what accounts for the outcomes. -/
def Steps (w : World) (outcomes : List Outcome) (w' : World) : Prop :=
  ∃ lines, w'.log = w.log ++ lines ∧ Accounts lines outcomes

theorem Steps.trans {w w₁ w' : World} {outcomes outcomes' : List Outcome}
    (h : Steps w outcomes w₁) (h' : Steps w₁ outcomes' w') :
    Steps w (outcomes ++ outcomes') w' := by
  rcases h with ⟨lines, hlog, haccounts⟩
  rcases h' with ⟨lines', hlog', haccounts'⟩
  exact ⟨lines ++ lines', by rw [hlog', hlog, List.append_assoc], haccounts.append haccounts'⟩

theorem accounts_debug {lines : List LogLine} (h : ∀ line ∈ lines, line.level = .debug) :
    Accounts lines [] := by
  have hnone {level : Level} (hlevel : Level.debug ≠ level) :
      lines.filter (fun line => line.level = level) = [] := by
    rw [List.filter_eq_nil_iff]
    intro line hline
    rw [h line hline, decide_eq_true_iff]
    exact hlevel
  exact ⟨fun _ h => absurd h List.not_mem_nil, hnone (by decide), [], hnone (by decide), rfl⟩

/-- An outcome that needs no warning. -/
theorem accounts_handled {o : Outcome} {fate : Fate} (hfate : o.fate? = some fate)
    (hskipped : o.skipped = false) : Accounts [] [o] := by
  refine ⟨fun o' ho' => ?_, rfl, [], rfl, ?_⟩
  · rw [List.mem_singleton.1 ho']
    exact ⟨fate, hfate⟩
  · rw [List.filter_cons_of_neg (by rw [hskipped]; exact Bool.false_ne_true)]
    rfl

theorem accounts_failed (path : FileName) (reason : String) :
    Accounts [] [{ path := path, error := some reason }] :=
  accounts_handled rfl rfl

theorem accounts_skipped (name : FileName) (reason : SystemError) :
    Accounts [Skip.warning (name, reason)] [{ path := name, skipped := true }] := by
  refine ⟨fun o ho => ?_, rfl, [(name, reason)], rfl, rfl⟩
  rw [List.mem_singleton.1 ho]
  exact ⟨.skipped, rfl⟩

section Visits

variable {faults : Faults} {options : Options} {w w' : World}

/-- A visit to a document is a step. -/
theorem steps_processOne {name : FileName} {input : Option Input} {o : Outcome}
    (h : processOne faults options name input w = .ok o w') : Steps w [o] w' := by
  have hquiet : Quiet name (processFile faults options name input) :=
    quiet_processFile faults options input
  -- The lines that were logged till then, and what is logged for the outcome.
  have hstep {w₁ : World} (hmurmurs : Murmurs w w₁) {last : List LogLine}
      (hlast : Accounts last [o]) (hlog : w'.log = w₁.log ++ last) : Steps w [o] w' := by
    rcases hmurmurs with ⟨lines, hlines, hdebug⟩
    exact ⟨lines ++ last, by rw [hlog, hlines, List.append_assoc],
      (accounts_debug hdebug).append hlast⟩
  rw [processOne] at h
  rcases hrun : processFile faults options name input w with ⟨changed, w₁⟩ | ⟨e, w₁⟩
  · rw [hrun] at h
    cases h
    have hfate : Outcome.fate? { path := name, changed := changed } =
        some (if changed then .changed else .unchanged) := by
      cases changed <;> rfl
    exact hstep (hquiet.ok hrun) (accounts_handled hfate rfl) (List.append_nil _).symm
  · rcases hquiet.error hrun with ⟨hmurmurs, honly⟩
    rw [hrun] at h
    cases e with
    | nullInName => cases h
    | skipped other reason =>
      obtain rfl := honly other reason rfl
      cases h
      exact hstep hmurmurs (accounts_skipped other reason) rfl
    | unreadable | unwritable | incomparable | unprintable =>
      cases h
      exact hstep hmurmurs (accounts_failed name _) (List.append_nil _).symm

-- An outcome that is recorded without any doing.
theorem steps_failed {path : FileName} {reason : String} :
    Steps w [{ path := path, error := some reason }] w :=
  ⟨[], (List.append_nil _).symm, accounts_failed path reason⟩

/-- Visits are steps, one after the other. -/
theorem steps_mapM {visits : List Visit} {outcomes : List Outcome}
    (h : visits.mapM (Visit.act (fun path => processOne faults options path none) unlistable) w =
      .ok outcomes w') : Steps w outcomes w' := by
  induction visits generalizing outcomes w with
  | nil =>
    cases h
    exact ⟨[], (List.append_nil _).symm, accounts_nil⟩
  | cons visit visits ih =>
    rcases Action.mapM_cons_eq_ok_iff.1 h with ⟨o, os, w₁, hfirst, hlater, rfl⟩
    have hstep : Steps w [o] w₁ := by
      cases visit with
      | file path => exact steps_processOne hfirst
      | unlistable reason =>
        cases hfirst
        exact steps_failed
      | crash c => cases hfirst
    exact hstep.trans (ih hlater)

/-- A batch is a step: what it logs accounts for its outcomes. -/
theorem steps_run {suffix : Suffix} {names : List FileName} {input : Input} {s : Summary}
    (h : run faults options suffix names input w = .ok s w') : Steps w s.outcomes w' := by
  by_cases hnames : names = []
  · rw [hnames, run] at h
    rcases Action.exists_of_bind h with ⟨outcomes, w₁, hinput, hpure⟩
    cases hpure
    by_cases hwrite : options.write = true
    · rw [runInput, if_pos hwrite] at hinput
      cases hinput
      exact steps_failed
    · rw [runInput, if_neg hwrite] at hinput
      rcases Action.exists_of_bind hinput with ⟨o, w₂, hone, hlast⟩
      cases hlast
      exact steps_processOne hone
  · exact steps_mapM ((run_eq_ok_iff hnames).1 h)

end Visits

/-- The line that reports an error. -/
def errorLine (text : String) : LogLine :=
  ⟨.error, text⟩

/-- The line that counts the errors cut off, if there are any. -/
def countOf (cut : List String) : List String :=
  if cut = [] then [] else [Summary.moreErrors cut.length]

/-- A report shows errors from the front and counts those that are cut off. -/
theorem Summary.exists_report (s : Summary) (all : Bool) :
    ∃ shown cut, s.errors = shown ++ cut ∧ s.report all = (shown ++ countOf cut).map errorLine ∧
      (all = true → cut = []) ∧ (all = false → shown = s.errors.take 10) := by
  obtain ⟨shown, hshown⟩ : ∃ shown, shown = if all then s.errors else s.errors.take 10 :=
    ⟨_, rfl⟩
  have hfront : shown <+: s.errors := by
    rw [hshown]
    split
    · exact List.prefix_refl _
    · exact List.take_prefix _ _
  rcases hfront with ⟨cut, herrors⟩
  have hhidden : s.errors.length - shown.length = cut.length := by
    rw [← herrors, List.length_append, Nat.add_sub_cancel_left]
  refine ⟨shown, cut, herrors.symm, ?_, ?_, ?_⟩
  · have hreport : s.report all =
        (if cut.length = 0 then shown else shown ++ [Summary.moreErrors cut.length]).map
          errorLine := by
      rw [← hhidden, hshown]
      rfl
    rw [hreport, countOf]
    by_cases hcut : cut = []
    · rw [if_pos (List.length_eq_zero_iff.2 hcut), if_pos hcut, List.append_nil]
    · rw [if_neg (mt List.length_eq_zero_iff.1 hcut), if_neg hcut]
  · rintro rfl
    rw [if_pos rfl] at hshown
    rw [hshown] at herrors
    exact List.append_right_eq_self.1 herrors
  · rintro rfl
    exact hshown

/-- Nothing is reported if there is no error, and only then. -/
theorem Summary.report_eq_nil_iff {s : Summary} {all : Bool} :
    s.report all = [] ↔ s.errors = [] := by
  rcases Summary.exists_report s all with ⟨shown, cut, herrors, hreport, -⟩
  rw [hreport, herrors, List.map_eq_nil_iff, List.append_eq_nil_iff, List.append_eq_nil_iff,
    countOf]
  refine and_congr_right fun _ => ?_
  by_cases hcut : cut = []
  · rw [if_pos hcut]
    exact iff_of_true rfl hcut
  · rw [if_neg hcut]
    exact iff_of_false (List.cons_ne_nil _ _) hcut

/-- All that is reported are errors. -/
theorem Summary.filter_isError_report (s : Summary) (all : Bool) :
    (s.report all).filter LogLine.isError = s.report all := by
  rcases Summary.exists_report s all with ⟨shown, cut, -, hreport, -⟩
  rw [hreport, List.filter_eq_self]
  intro line hline
  rcases List.mem_map.1 hline with ⟨text, -, rfl⟩
  rfl

/-- The flags of an outcome tell its fate. -/
theorem Outcome.flags_eq {o : Outcome} (h : ∃ fate, o.fate? = some fate) :
    o.error.isSome = decide (o.fate? = some .failed) ∧
      o.skipped = decide (o.fate? = some .skipped) := by
  rcases h with ⟨fate, hfate⟩
  rcases flags_of_fate? hfate with ⟨herror, hskipped, -⟩
  rw [herror, hskipped, hfate]
  simp only [Option.some_inj, and_self]

/-- The outcomes of one fate. -/
def Summary.having (s : Summary) (fate : Fate) : List Outcome :=
  s.outcomes.filter fun o => o.fate? = some fate

section Summaries

variable {s : Summary} (h : ∀ o ∈ s.outcomes, ∃ fate, o.fate? = some fate)

include h

theorem Summary.filter_skipped : s.outcomes.filter Outcome.skipped = s.having .skipped :=
  List.filter_congr fun o ho => (Outcome.flags_eq (h o ho)).2

/-- The errors are those of the outcomes that failed. -/
theorem Summary.map_error_having : (s.having .failed).map Outcome.error = s.errors.map some := by
  rw [Summary.errors, List.map_filterMap_some_eq_filter_map_isSome, List.filter_map, Summary.having]
  congr 1
  exact List.filter_congr fun o ho => (Outcome.flags_eq (h o ho)).1.symm

/-- Outcomes that were left out have no errors. -/
theorem Summary.errors_without_skipped :
    Summary.errors ⟨s.outcomes.filter fun o => o.fate? ≠ some .skipped⟩ = s.errors := by
  have hfailed : Summary.having ⟨s.outcomes.filter fun o => o.fate? ≠ some .skipped⟩ .failed =
      s.having .failed := by
    rw [Summary.having, List.filter_filter, Summary.having]
    refine List.filter_congr fun o _ => ?_
    by_cases ho : o.fate? = some .failed
    · rw [ho]
      rfl
    · rw [decide_eq_false ho, Bool.false_and]
  rw [← List.map_inj_right fun _ _ => Option.some_inj.1, ← Summary.map_error_having h, ← hfailed]
  exact (Summary.map_error_having fun o ho => h o (List.mem_filter.1 ho).1).symm

end Summaries

/-- Outcomes, log, report and exit code agree. Every outcome has a fate. What was logged has a
    warning for each document that was left out, and no other, in order. The report has the texts
    of all errors, or of the first ten and a line that counts the rest. An error is in the log just
    if the exit code says so. A document that was left out has no part in that. -/
structure Balanced (all : Bool) (s : Summary) (logged lines : List LogLine) : Prop where
  fates : ∀ o ∈ s.outcomes, ∃ fate, o.fate? = some fate
  warnings : ∃ skips : List Skip, logged.filter LogLine.isWarning = skips.map Skip.warning ∧
    (s.having .skipped).map Outcome.path = skips.map Prod.fst
  errors : (logged ++ lines).filter LogLine.isError = lines
  reported : ∃ shown cut, lines = (shown ++ countOf cut).map errorLine ∧
    (s.having .failed).map Outcome.error = (shown ++ cut).map some ∧
    (all = true → cut = []) ∧ (all = false → shown = (shown ++ cut).take 10) ∧
    shown.length + cut.length = s.errorCount
  exitCode : s.exitCode = if ∃ line ∈ logged ++ lines, line.isError then 2 else 0
  without_skipped :
    let others : Summary := ⟨s.outcomes.filter fun o => o.fate? ≠ some .skipped⟩
    others.report all = lines ∧ others.exitCode = s.exitCode

/-- Lines that account for the outcomes make a balance with the report. -/
theorem Accounts.balanced {s : Summary} {logged : List LogLine} (h : Accounts logged s.outcomes)
    (all : Bool) : Balanced all s logged (s.report all) := by
  have herrors : (logged ++ s.report all).filter LogLine.isError = s.report all := by
    rw [List.filter_append, h.no_errors, List.nil_append, Summary.filter_isError_report]
  refine ⟨h.fates, ?_, herrors, ?_, ?_, ?_, ?_⟩
  · rw [← Summary.filter_skipped h.fates]
    exact h.warnings
  · rcases Summary.exists_report s all with ⟨shown, cut, hshown, hreport, hall, hfirst⟩
    rw [hshown] at hfirst
    refine ⟨shown, cut, hreport, ?_, hall, hfirst, ?_⟩
    · rw [Summary.map_error_having h.fates, hshown]
    · rw [Summary.errorCount, hshown, List.length_append]
  · have hnone : s.errors = [] ↔ ∀ line ∈ logged ++ s.report all, ¬line.isError = true := by
      rw [← List.filter_eq_nil_iff, herrors, Summary.report_eq_nil_iff]
    rw [Summary.exitCode, Summary.errorCount]
    by_cases hnil : s.errors = []
    · rw [if_pos (List.length_eq_zero_iff.2 hnil), if_neg]
      · rfl
      · rintro ⟨line, hline, herror⟩
        exact hnone.1 hnil line hline herror
    · rw [if_neg (mt List.length_eq_zero_iff.1 hnil), if_pos]
      · rfl
      · rw [hnone] at hnil
        exact Classical.byContradiction fun hno =>
          hnil fun line hline herror => hno ⟨line, hline, herror⟩
  · rw [Summary.report, Summary.errors_without_skipped h.fates]
    rfl
  · rw [Summary.exitCode, Summary.errorCount, Summary.errors_without_skipped h.fates]
    rfl

/-- The account of a batch is balanced. -/
theorem run_balanced {faults : Faults} {options : Options} {suffix : Suffix}
    {names : List FileName} {input : Input} {s : Summary} {w w' : World}
    (h : run faults options suffix names input w = .ok s w') :
    ∃ logged, w'.log = w.log ++ logged ∧
      Balanced options.allErrors s logged (s.report options.allErrors) := by
  rcases steps_run h with ⟨logged, hlog, haccounts⟩
  exact ⟨logged, hlog, haccounts.balanced _⟩

/-- A name that leads nowhere and a file that cannot be read, which is named twelve times. Ten of
    the errors are shown. -/
theorem run_balanced_twelve :
    let gone := ofAscii "gone.conf"
    let x := ofAscii "x.conf"
    let w : World := { files := { entries := [], workDir := [] } }
    let s : Summary := ⟨{ path := gone, skipped := true } ::
      List.replicate 12 { path := x, error := some "x.conf: [Errno 5] Input/output error" }⟩
    let logged : List LogLine :=
      [⟨.warning, "skipping gone.conf: [Errno 2] No such file or directory: 'gone.conf'"⟩]
    run { unreadable := [x] } {} none (gone :: List.replicate 12 x) .broken w =
        .ok s { w with log := logged } ∧
      Balanced false s logged (s.report false) ∧
      s.report false =
        (List.replicate 10 "x.conf: [Errno 5] Input/output error" ++ ["(2 more errors)"]).map
          errorLine := by
  intro gone x w s logged
  have hrun : run { unreadable := [x] } {} none (gone :: List.replicate 12 x) .broken w =
      .ok s { w with log := logged } := by
    decide +kernel
  rcases run_balanced hrun with ⟨lines, hlog, hbalanced⟩
  rw [List.nil_append] at hlog
  rw [← hlog] at hbalanced
  exact ⟨hrun, hbalanced, by decide +kernel⟩

end ConfIndent
