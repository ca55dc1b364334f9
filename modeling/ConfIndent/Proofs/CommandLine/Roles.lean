import ConfIndent.CommandLine.Command

/-!
# What Becomes of Each Argument

Every argument of a command line has one role. It is an option, the value of the option in
front of it, the separator, or a name. The roles are told from the words alone, and they say
what a command line asks for: the names are handled, in order, and of the values of the
suffix the last one counts.

The names have to stand together. The first option behind a name closes the group, and a
name or a separator that follows is left over. A command line that leaves something over
leads to no run, so none is made with part of the names. It is refused, unless help was
asked for first.

The words are taken one by one, although the value of an option is taken with the option: a
value may be awaited between two words. What one word does is told by its role, and a run
over the words puts that together. Whether something is left over is a matter of the order
of the roles only. `Group.breach` is the order that leads there, as far as it has not been
met, and every role goes on in it or stays where it is.

## Main definitions

* `Role`: What an argument is on its command line.
* `Argument`: An argument and what it is as a word.
* `arguments`, `roles`: The arguments of a command line, and their roles.
* `names`, `suffixes`: The names and the values of the suffix among them.
* `Scattered`: Names stand on both sides of an option.
* `Word.AsksHelp`: A word asks for help.
* `Group.breach`: The roles in whose order something is left over.
* `Taken`, `Run`: What one argument does, and what all of them do, if nothing is left over.

## Theorems

* `map_roles`, `map_text_arguments`: Every argument has one role.
* `exists_taken`: What one argument does.
* `Run.of_addFrom`: What all arguments do.
* `asksHelp_of_addWords`: Help is answered only where it is asked for.
* `parse_conserves`: No argument is passed over.
-/

namespace ConfIndent.CommandLine

/-- What an argument is on its command line. -/
inductive Role where
  /-- An option, known or not. -/
  | option
  /-- The value of the option in front of it. -/
  | value
  /-- The first separator. -/
  | separator
  /-- The name of a file or a directory. -/
  | name
  deriving DecidableEq, Repr

/-- An argument and what it is as a word. -/
structure Argument where
  /-- The argument as it stands there. -/
  text : String
  /-- What it is. -/
  word : Word
  deriving DecidableEq, Repr

namespace Word

/-- The option has its value behind it. -/
def awaitsValue : Word → Bool
  | option .suffix _ none => true
  | _ => false

/-- The suffix that is attached to the word. -/
def attached? : Word → Option String
  | option .suffix _ (some value) => some value
  | _ => none

/-- The role of a word, where a value may be awaited. -/
def role (awaited : Bool) : Word → Role
  | operand _ => if awaited then .value else .name
  | separator => .separator
  | option _ _ _ => .option
  | unknown _ => .option

/-- The word asks for help, alone or among other flags. -/
def AsksHelp (word : Word) : Prop :=
  ∃ f short attached flags, word = option (.flag f) short attached ∧
    flagsOf f short attached = .ok flags ∧ Flag.help ∈ flags

end Word

/-- The argument as it is before the separator. One that could be several options is taken
    for one nobody knows. -/
def Argument.ofString (text : String) : Argument :=
  match Word.ofString text with
  | .ok word => ⟨text, word⟩
  | .error _ => ⟨text, .unknown text⟩

/-- The arguments of a command line. -/
def arguments : List String → List Argument
  | [] => []
  | text :: rest =>
    if text = "--" then ⟨text, .separator⟩ :: rest.map fun text => ⟨text, .operand text⟩
    else Argument.ofString text :: arguments rest

/-- Each argument with its role. -/
def roles (awaited : Bool) : List Argument → List (Role × Argument)
  | [] => []
  | a :: rest => (a.word.role awaited, a) :: roles a.word.awaitsValue rest

/-- The names among arguments. -/
def names (parts : List (Role × Argument)) : List String :=
  parts.filterMap fun part => if part.1 = .name then some part.2.text else none

/-- The values of the suffix among arguments, behind an option or attached to one. -/
def suffixes (parts : List (Role × Argument)) : List String :=
  parts.filterMap fun part =>
    if part.1 = .value then some part.2.text else part.2.word.attached?

/-- A name stands before an option, and another or the separator behind it. -/
def Scattered (parts : List (Role × Argument)) : Prop :=
  ∃ last ∈ [Role.name, .separator],
    [Role.name, .option, last].Sublist (parts.map Prod.fst)

/-- No argument is without a role, and none has two. -/
theorem map_roles (awaited : Bool) (as : List Argument) : (roles awaited as).map Prod.snd = as := by
  induction as generalizing awaited with
  | nil => rfl
  | cons a as ih => rw [roles, List.map_cons, ih]

theorem text_ofString (text : String) : (Argument.ofString text).text = text := by
  unfold Argument.ofString
  split <;> rfl

theorem map_text_arguments (args : List String) : (arguments args).map Argument.text = args := by
  induction args with
  | nil => rfl
  | cons text rest ih =>
    rw [arguments]
    split
    · rw [List.map_cons, List.map_map]
      exact congrArg (text :: ·) rest.map_id'
    · rw [List.map_cons, text_ofString, ih]

theorem ofOther_eq_operand {text other : String} (h : Word.ofOther text = .operand other) :
    other = text := by
  unfold Word.ofOther at h
  split at h
  · cases h
    rfl
  · cases h

theorem ofInexact_eq_operand {text other : String}
    (h : Word.ofInexact text = .ok (.operand other)) : other = text := by
  unfold Word.ofInexact at h
  split at h
  · split at h
    · exact ofOther_eq_operand (Except.ok.inj h)
    · cases h
    · cases h
  · rw [Except.ok.injEq, shortWithMore?] at h
    cases hspelling : Opt.ofSpelling? (String.ofList (text.toList.take 2)) with
    | none =>
      rw [hspelling] at h
      exact ofOther_eq_operand h
    | some o =>
      rw [hspelling] at h
      cases h

/-- A word that is no option is taken as it stands there. -/
theorem ofString_eq_operand {text other : String}
    (h : Word.ofString text = .ok (.operand other)) : other = text := by
  unfold Word.ofString at h
  split at h
  · cases h
    rfl
  split at h
  · cases h
  split at h
  · split at h
    · cases h
    · exact ofInexact_eq_operand h
  · exact ofInexact_eq_operand h

/-- An operand is the text of its argument. -/
theorem text_of_mem_arguments {args : List String} {a : Argument} (ha : a ∈ arguments args)
    {text : String} (hword : a.word = .operand text) : text = a.text := by
  induction args with
  | nil => exact absurd ha List.not_mem_nil
  | cons first rest ih =>
    rw [arguments] at ha
    split at ha
    · rcases List.mem_cons.1 ha with rfl | ha
      · cases hword
      · rcases List.mem_map.1 ha with ⟨other, -, rfl⟩
        cases hword
        rfl
    · rcases List.mem_cons.1 ha with rfl | ha
      · unfold Argument.ofString at hword ⊢
        split at hword
        · rename_i hread
          cases hword
          exact ofString_eq_operand hread
        · cases hword
      · exact ih ha

theorem map_word_arguments {args : List String} {words : List Word}
    (h : Word.ofStrings args = .ok words) : (arguments args).map Argument.word = words := by
  induction args generalizing words with
  | nil =>
    cases h
    rfl
  | cons text rest ih =>
    rw [Word.ofStrings] at h
    rw [arguments]
    split at h
    · rename_i hseparator
      cases h
      rw [if_pos hseparator, List.map_cons, List.map_map]
      rfl
    · rename_i hseparator
      rw [if_neg hseparator, List.map_cons, Argument.ofString]
      cases hword : Word.ofString text with
      | error e =>
        rw [hword] at h
        cases h
      | ok word =>
        cases hrest : Word.ofStrings rest with
        | error e =>
          rw [hword, hrest] at h
          cases h
        | ok words' =>
          rw [hword, hrest] at h
          cases h
          rw [ih hrest]

/-- Whether names can still be given behind an argument of a role. -/
def Group.next (group : Group) : Role → Group
  | .option => if group = .opened then .closed else group
  | .value => group
  | .separator => .opened
  | .name => .opened

/-- The roles in whose order something is left over, from where the names have come to. -/
def Group.breach (group : Group) (last : Role) : List Role :=
  match group with
  | .awaited => [.name, .option, last]
  | .opened => [.option, last]
  | .closed => [last]

/-- A name or the separator has no place behind the names. Any other role goes on in the order
    or leaves it where it is, so the rest of the order is still to come. -/
theorem Group.breach_next {group : Group} {role last : Role}
    (hlast : last ∈ [Role.name, .separator])
    (hplace : group = .closed → role ∉ [Role.name, .separator])
    {rest : List Role} (h : (group.breach last).Sublist (role :: rest)) :
    ((group.next role).breach last).Sublist rest := by
  rcases List.sublist_cons_iff.1 h with hrest | ⟨more, hmore, hrest⟩
  · -- The order in question starts behind the role.
    have htail {r : Role} {rs : List Role} (h : (r :: rs).Sublist rest) : rs.Sublist rest :=
      (List.sublist_cons_self r rs).trans h
    cases group with
    | awaited =>
      cases role with
      | name => exact htail hrest
      | separator => exact htail hrest
      | option => exact hrest
      | value => exact hrest
    | opened =>
      cases role with
      | name => exact hrest
      | separator => exact hrest
      | option => exact htail hrest
      | value => exact hrest
    | closed =>
      cases role with
      | name => exact absurd List.mem_cons_self (hplace rfl)
      | separator => exact absurd (List.mem_cons_of_mem _ List.mem_cons_self) (hplace rfl)
      | option => exact hrest
      | value => exact hrest
  · cases group with
    | awaited =>
      cases hmore
      exact hrest
    | opened =>
      cases hmore
      exact hrest
    | closed =>
      cases hmore
      exact absurd hlast (hplace rfl)

/-- What is known after an argument of a role if nothing is left over then. -/
structure Taken (p : Progress) (role : Role) (a : Argument) (p' : Progress) : Prop where
  leftOver_eq : p.leftOver = []
  group_eq : p'.group = p.group.next role
  placed : p.group = .closed → role ∉ [Role.name, .separator]
  paths_eq : p'.settings.paths = p.settings.paths ++ names [(role, a)]
  suffix_eq : a.word.attached? ≠ some "--" →
    p'.settings.suffix = (suffixes [(role, a)]).getLast?.or p.settings.suffix

/-- Goes on with the words that are left, of which the first may be a value. -/
def Progress.addFrom (p : Progress) : Bool → List Word → Except Refusal Progress
  | false, words => p.addWords words
  | true, .operand value :: rest => (p.setSuffix (some value)).addWords rest
  | true, _ => .error (.usage (.missingValue .suffix))

section Steps

variable {p p' : Progress}

theorem taken_operand {text : String} (h : (p.addOperand text).leftOver = []) :
    Taken p .name ⟨text, .operand text⟩ (p.addOperand text) := by
  unfold Progress.addOperand at h ⊢
  split at h
  · exact absurd h (List.append_ne_nil_of_right_ne_nil _ (List.cons_ne_nil _ _))
  · rename_i hopen
    exact ⟨h, rfl, fun hclosed => absurd hclosed hopen, rfl, fun _ => rfl⟩

theorem taken_separator {text : String} (h : p.addSeparator.leftOver = []) :
    Taken p .separator ⟨text, .separator⟩ p.addSeparator := by
  unfold Progress.addSeparator at h ⊢
  split at h
  · exact absurd h (List.append_ne_nil_of_right_ne_nil _ (List.cons_ne_nil _ _))
  · rename_i hopen
    exact ⟨h, rfl, fun hclosed => absurd hclosed hopen, (List.append_nil _).symm, fun _ => rfl⟩

theorem close_eq (p : Progress) : p.close = { p with group := p.group.next .option } := by
  cases p with
  | mk settings group leftOver => cases group <;> rfl

theorem getLast?_suffixes_option (a : Argument) :
    (suffixes [(.option, a)]).getLast? = a.word.attached? := by
  have hsuffixes : suffixes [(.option, a)] = a.word.attached?.toList := by
    have hrole : Role.option ≠ .value := by
      decide
    rw [suffixes, List.filterMap_cons, if_neg hrole]
    cases a.word.attached? <;> rfl
  rw [hsuffixes]
  cases a.word.attached? <;> rfl

/-- An option adds no name, and to the suffix what is attached to it. -/
theorem taken_option {a : Argument} (hleft : p'.leftOver = []) (hfrom : p'.leftOver = p.leftOver)
    (hgroup : p'.group = p.close.group) (hpaths : p'.settings.paths = p.settings.paths)
    (hsuffix : a.word.attached? ≠ some "--" →
      p'.settings.suffix = a.word.attached?.or p.settings.suffix) :
    Taken p .option a p' where
  leftOver_eq := hfrom ▸ hleft
  group_eq := by rw [hgroup, close_eq]
  placed _ := by decide
  paths_eq := by
    rw [hpaths]
    exact (List.append_nil _).symm
  suffix_eq h := by
    rw [hsuffix h, getLast?_suffixes_option]

/-- What a flag changes is neither a name nor the suffix. -/
theorem Settings.set_eq {s s' : Settings} {f : Flag} (h : s.set f = .ok s') :
    s'.paths = s.paths ∧ s'.suffix = s.suffix := by
  cases f with
  | help => cases h
  | _ =>
    cases h
    exact ⟨rfl, rfl⟩

theorem foldlM_set_eq {flags : List Flag} {s s' : Settings}
    (h : flags.foldlM Settings.set s = .ok s') : s'.paths = s.paths ∧ s'.suffix = s.suffix := by
  induction flags generalizing s with
  | nil =>
    cases h
    exact ⟨rfl, rfl⟩
  | cons f flags ih =>
    rw [List.foldlM_cons] at h
    cases hset : s.set f with
    | error e =>
      rw [hset] at h
      cases h
    | ok s₁ =>
      rw [hset] at h
      rcases Settings.set_eq hset with ⟨hpaths, hsuffix⟩
      rcases ih h with ⟨hpaths', hsuffix'⟩
      exact ⟨hpaths'.trans hpaths, hsuffix'.trans hsuffix⟩

/-- To take flags in changes nothing but the flags. -/
theorem addFlags_eq {f : Flag} {short : Bool} {attached : Option String}
    (h : p.addFlags f short attached = .ok p') :
    p'.leftOver = p.leftOver ∧ p'.group = p.group ∧ p'.settings.paths = p.settings.paths ∧
      p'.settings.suffix = p.settings.suffix := by
  unfold Progress.addFlags at h
  split at h
  · cases h
  · rename_i flags hflags
    cases hset : flags.foldlM Settings.set p.settings with
    | error e =>
      rw [hset] at h
      cases h
    | ok s =>
      rw [hset] at h
      cases h
      rcases foldlM_set_eq hset with ⟨hpaths, hsuffix⟩
      exact ⟨rfl, rfl, hpaths, hsuffix⟩

theorem addWords_suffix (p : Progress) (short : Bool) (words : List Word) :
    p.addWords (.option .suffix short none :: words) = p.close.addFrom true words := by
  rcases words with _ | ⟨word, words⟩
  · rfl
  · cases word <;> rfl

/-- What one argument does. -/
theorem exists_taken {q : Progress} {awaited : Bool} {a : Argument}
    (ha : ∀ text, a.word = .operand text → text = a.text) {words : List Word}
    (h : p.addFrom awaited (a.word :: words) = .ok q) :
    ∃ p', p'.addFrom a.word.awaitsValue words = .ok q ∧
      (p'.leftOver = [] → Taken p (a.word.role awaited) a p') := by
  rcases a with ⟨text, word⟩
  cases awaited with
  | true =>
    cases word with
    | operand other =>
      obtain rfl : other = text := ha other rfl
      exact ⟨p.setSuffix (some other), h, fun hleft =>
        ⟨hleft, rfl, fun _ => (by decide : Role.value ∉ [Role.name, .separator]),
          (List.append_nil _).symm, fun _ => rfl⟩⟩
    | separator => cases h
    | option o short attached => cases h
    | unknown other => cases h
  | false =>
    cases word with
    | operand other =>
      obtain rfl : other = text := ha other rfl
      exact ⟨p.addOperand other, h, taken_operand⟩
    | separator => exact ⟨p.addSeparator, h, taken_separator⟩
    | unknown other =>
      refine ⟨p.close.addUnknown other, h, fun hleft => absurd hleft ?_⟩
      exact List.append_ne_nil_of_right_ne_nil _ (List.cons_ne_nil _ _)
    | option o short attached =>
      have hclose : p.close.leftOver = p.leftOver ∧ p.close.settings = p.settings := by
        rw [close_eq]
        exact ⟨rfl, rfl⟩
      cases o with
      | suffix =>
        cases attached with
        | none =>
          refine ⟨p.close, (addWords_suffix p short words) ▸ h, fun hleft => ?_⟩
          exact taken_option hleft hclose.1 rfl (by rw [hclose.2]) fun _ => by rw [hclose.2]; rfl
        | some value =>
          refine ⟨p.close.setSuffix (attachedSuffix value), h, fun hleft => ?_⟩
          refine taken_option hleft hclose.1 rfl (by rw [Progress.setSuffix, hclose.2]) ?_
          intro hvalue
          have hne : value ≠ "--" := fun heq => hvalue (congrArg some heq)
          rw [attachedSuffix, if_neg hne]
          rfl
      | flag f =>
        change p.addWords _ = _ at h
        rw [Progress.addWords] at h
        cases hflags : p.close.addFlags f short attached with
        | error e =>
          rw [hflags] at h
          cases h
        | ok p' =>
          rw [hflags] at h
          rcases addFlags_eq hflags with ⟨hleft', hgroup, hpaths, hsuffix⟩
          rw [hclose.2] at hpaths hsuffix
          exact ⟨p', h, fun hleft => taken_option hleft (hleft'.trans hclose.1) hgroup hpaths
            fun _ => hsuffix⟩

end Steps

/-- What is known of a run over arguments that leaves nothing over. -/
structure Run (p : Progress) (parts : List (Role × Argument)) (q : Progress) : Prop where
  leftOver_eq : p.leftOver = []
  paths_eq : q.settings.paths = p.settings.paths ++ names parts
  suffix_eq : (∀ part ∈ parts, part.2.word.attached? ≠ some "--") →
    q.settings.suffix = (suffixes parts).getLast?.or p.settings.suffix
  not_breached : ∀ last ∈ [Role.name, .separator],
    ¬(p.group.breach last).Sublist (parts.map Prod.fst)

/-- A step and a run make a run. -/
theorem Run.cons {p p' q : Progress} {role : Role} {a : Argument}
    {parts : List (Role × Argument)} (hstep : Taken p role a p') (hrun : Run p' parts q) :
    Run p ((role, a) :: parts) q where
  leftOver_eq := hstep.leftOver_eq
  paths_eq := by
    have hnames : names ((role, a) :: parts) = names [(role, a)] ++ names parts :=
      List.filterMap_append (l := [(role, a)])
    rw [hrun.paths_eq, hstep.paths_eq, hnames, List.append_assoc]
  suffix_eq h := by
    have hsuffixes : suffixes ((role, a) :: parts) = suffixes [(role, a)] ++ suffixes parts :=
      List.filterMap_append (l := [(role, a)])
    rw [hrun.suffix_eq fun part hpart => h part (List.mem_cons_of_mem _ hpart),
      hstep.suffix_eq (h _ List.mem_cons_self), hsuffixes, List.getLast?_append, Option.or_assoc]
  not_breached last hlast h := by
    refine hrun.not_breached last hlast ?_
    rw [hstep.group_eq]
    exact Group.breach_next hlast hstep.placed h

/-- What all arguments do. -/
theorem Run.of_addFrom {p q : Progress} {awaited : Bool} {as : List Argument}
    (has : ∀ a ∈ as, ∀ text, a.word = .operand text → text = a.text)
    (h : p.addFrom awaited (as.map Argument.word) = .ok q) (hleft : q.leftOver = []) :
    Run p (roles awaited as) q := by
  induction as generalizing p awaited with
  | nil =>
    cases awaited with
    | true => cases h
    | false =>
      cases h
      refine ⟨hleft, (List.append_nil _).symm, fun _ => rfl, fun last _ hbreach => ?_⟩
      rw [roles, List.map_nil, List.sublist_nil] at hbreach
      cases hgroup : q.group <;> rw [hgroup] at hbreach <;> cases hbreach
  | cons a as ih =>
    rcases exists_taken (has a List.mem_cons_self) h with ⟨p', hrest, hstep⟩
    have hrun := ih (fun b hb => has b (List.mem_cons_of_mem _ hb)) hrest
    exact hrun.cons (hstep hrun.leftOver_eq)

/-- What is parsed was taken in argument by argument. -/
theorem run_of_parse {args : List String} {s : Settings} (h : parse args = .ok s) :
    ∃ q, q.settings = s ∧ Run {} (roles false (arguments args)) q := by
  unfold parse at h
  split at h
  · cases h
  · rename_i words hwords
    unfold Settings.ofWords at h
    split at h
    · cases h
    · rename_i q hq
      split at h
      · rename_i hleft
        cases h
        rw [← map_word_arguments hwords] at hq
        exact ⟨q, rfl, Run.of_addFrom (fun a ha text => text_of_mem_arguments ha) hq hleft⟩
      · cases h

/-- Only help stops the flags. -/
theorem help_of_foldlM_set {flags : List Flag} {s : Settings} {refusal : Refusal}
    (h : flags.foldlM Settings.set s = .error refusal) : Flag.help ∈ flags := by
  induction flags generalizing s with
  | nil => cases h
  | cons f flags ih =>
    rw [List.foldlM_cons] at h
    cases f with
    | help => exact List.mem_cons_self
    | _ => exact List.mem_cons_of_mem _ (ih h)

theorem asksHelp_of_addFlags {p : Progress} {f : Flag} {short : Bool} {attached : Option String}
    (h : p.addFlags f short attached = .error .help) :
    (Word.option (.flag f) short attached).AsksHelp := by
  unfold Progress.addFlags at h
  split at h
  · cases h
  · rename_i flags hread
    refine ⟨f, short, attached, flags, rfl, hread, ?_⟩
    cases hset : flags.foldlM Settings.set p.settings with
    | error refusal => exact help_of_foldlM_set hset
    | ok s =>
      rw [hset] at h
      cases h

/-- Help is answered only where it is asked for. -/
theorem asksHelp_of_addWords {p : Progress} {words : List Word}
    (h : p.addWords words = .error .help) : ∃ word ∈ words, word.AsksHelp := by
  have hlater {word : Word} {rest : List Word} (h : ∃ word ∈ rest, word.AsksHelp) :
      ∃ word' ∈ word :: rest, word'.AsksHelp := by
    rcases h with ⟨word', hmem, hhelp⟩
    exact ⟨word', List.mem_cons_of_mem _ hmem, hhelp⟩
  fun_induction Progress.addWords p words with
  | case1 p => cases h
  | case2 p text rest ih => exact hlater (ih h)
  | case3 p rest ih => exact hlater (ih h)
  | case4 p text rest ih => exact hlater (ih h)
  | case5 p short value rest ih => exact hlater (ih h)
  | case6 p short value rest ih => exact hlater (hlater (ih h))
  | case7 p short rest hrest => cases h
  | case8 p f short attached rest e hflags =>
    cases h
    exact ⟨_, List.mem_cons_self, asksHelp_of_addFlags hflags⟩
  | case9 p f short attached rest p' hflags ih => exact hlater (ih h)

/-- Help is shown only if an argument asks for it. -/
theorem asksHelp_of_parse {args : List String} (h : parse args = .error .help) :
    ∃ a ∈ arguments args, a.word.AsksHelp := by
  unfold parse at h
  split at h
  · cases h
  · rename_i words hwords
    unfold Settings.ofWords at h
    split at h
    · rename_i refusal hrefusal
      cases h
      rcases asksHelp_of_addWords hrefusal with ⟨word, hmem, hhelp⟩
      rw [← map_word_arguments hwords] at hmem
      rcases List.mem_map.1 hmem with ⟨a, ha, rfl⟩
      exact ⟨a, ha, hhelp⟩
    · split at h <;> cases h

/-- No argument is passed over. The names that are handled are the arguments without the options,
    their values and the separator, and the suffix is the last one given. A command line with
    names on both sides of an option leads to no run but to the exit code for a wrong command
    line, or to the help if it is asked for. -/
theorem parse_conserves (args : List String) :
    let parts := roles false (arguments args)
    (parts.map fun part => part.2.text) = args ∧
      (∀ s, parse args = .ok s → s.paths = names parts ∧
        ((∀ part ∈ parts, part.2.word.attached? ≠ some "--") →
          s.suffix = some ((suffixes parts).getLastD ".conf"))) ∧
      (Scattered parts → (∀ s, parse args ≠ .ok s) ∧ ∀ faults files input,
        (execute faults files args input).files = files ∧
          ((execute faults files args input).status = .ok 2 ∨
            (∃ a ∈ arguments args, a.word.AsksHelp) ∧
              (execute faults files args input).status = .ok 0 ∧
              (execute faults files args input).output =
                if faults.outputFull then [] else Bytes.ofAscii help)) := by
  intro parts
  refine ⟨?_, ?_, ?_⟩
  · have htext := map_text_arguments args
    rw [← map_roles false (arguments args), List.map_map] at htext
    exact htext
  · intro s hs
    rcases run_of_parse hs with ⟨q, rfl, hrun⟩
    refine ⟨hrun.paths_eq, fun hvalues => ?_⟩
    rw [hrun.suffix_eq hvalues, List.getLastD_eq_getLast?]
    cases (suffixes parts).getLast? <;> rfl
  · rintro ⟨last, hlast, hscattered⟩
    have hrefused (s : Settings) : parse args ≠ .ok s := by
      intro hs
      rcases run_of_parse hs with ⟨q, -, hrun⟩
      exact hrun.not_breached last hlast hscattered
    refine ⟨hrefused, fun faults files input => ?_⟩
    unfold execute
    cases hparse : parse args with
    | ok s => exact absurd hparse (hrefused s)
    | error refusal =>
      refine ⟨rfl, ?_⟩
      cases refusal with
      | help => exact .inr ⟨asksHelp_of_parse hparse, rfl, rfl⟩
      | usage e => exact .inl rfl

/-- A command line with names before and behind the separator, and one with names on both sides
    of an option. -/
theorem parse_conserves_interleaved :
    (∃ s, parse ["-l", "--suf", ".txt", "a", "b", "--", "-d"] = .ok s ∧
      s.paths = ["a", "b", "-d"] ∧ s.suffix = some ".txt") ∧
    Scattered (roles false (arguments ["a", "-v", "b"])) ∧
    ∀ faults files input, (execute faults files ["a", "-v", "b"] input).files = files ∧
      (execute faults files ["a", "-v", "b"] input).status = .ok 2 := by
  have hscattered : Scattered (roles false (arguments ["a", "-v", "b"])) :=
    ⟨.name, by decide, by decide +kernel⟩
  rcases parse_conserves ["-l", "--suf", ".txt", "a", "b", "--", "-d"] with ⟨-, hread, -⟩
  rcases (parse_conserves ["a", "-v", "b"]).2.2 hscattered with ⟨-, hrefused⟩
  have hargs : arguments ["a", "-v", "b"] = [⟨"a", .operand "a"⟩,
      ⟨"-v", .option (.flag .verbose) true none⟩, ⟨"b", .operand "b"⟩] := by
    decide +kernel
  have hhelp : ¬∃ a ∈ arguments ["a", "-v", "b"], a.word.AsksHelp := by
    rw [hargs]
    rintro ⟨a, ha, f, short, attached, flags, hword, hflags, hmem⟩
    simp only [List.mem_cons, List.not_mem_nil, or_false] at ha
    rcases ha with rfl | rfl | rfl
    · cases hword
    · cases hword
      cases hflags
      exact absurd hmem (by decide)
    · cases hword
  have hparse : parse ["-l", "--suf", ".txt", "a", "b", "--", "-d"] = .ok
      { options := { list := true }, suffix := some ".txt", paths := ["a", "b", "-d"] } :=
    rfl
  refine ⟨⟨_, hparse, ?_, ?_⟩, hscattered, fun faults files input => ?_⟩
  · rw [(hread _ hparse).1]
    decide +kernel
  · rw [(hread _ hparse).2 (by decide +kernel)]
    decide +kernel
  · rcases hrefused faults files input with ⟨hfiles, hstatus⟩
    exact ⟨hfiles, hstatus.resolve_right fun h => hhelp h.1⟩

/-- A request for help between two names is answered before the second is found to be left over. -/
theorem exists_scattered_help :
    ∃ args : List String, Scattered (roles false (arguments args)) ∧
      ∀ faults files input, (execute faults files args input).status = .ok 0 := by
  have hparse : parse ["a", "-h", "b"] = .error .help :=
    rfl
  refine ⟨["a", "-h", "b"], ⟨.name, by decide, by decide +kernel⟩, fun faults files input => ?_⟩
  unfold execute
  rw [hparse]
  rfl

end ConfIndent.CommandLine
