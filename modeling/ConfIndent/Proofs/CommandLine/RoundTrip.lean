import ConfIndent.CommandLine.Settings

/-!
# Command Lines Read Back

Options can be spelled in many ways. Flags stand behind a hyphen each or several behind one,
and a long option may be cut short. Here a command line is written down from what it asks for:
words that spell options, the separator, and the names to handle. It is read back as exactly
that, whatever the names and the suffix are made of.

A word is read without its neighbours, so each kind of word has its own lemma, and all of a
long option cut short goes into `Names`: nothing else starts like it, and it holds no equals
sign, so that a value behind one is found. What the words ask for together is `asked`, which
takes the flags and suffixes given so far in order. The run over the words needs one step for
each of them.

## Main definitions

* `Flag.letter`: The letter that sets a flag.
* `Shortens`: A long option, in full or cut short.
* `OptionWord`: A word that spells options.
* `OptionWord.text`: The word as it stands on a command line.
* `asked`: What flags, suffixes and names ask for.

## Theorems

* `ofString_text`: Each word is read as what it spells.
* `addWords_word`: What one word changes.
* `parse_text`: A command line is read back.
-/

namespace ConfIndent.CommandLine

/-- The letter that sets a flag. -/
def Flag.letter : Flag → Char
  | help => 'h'
  | list => 'l'
  | write => 'w'
  | diff => 'd'
  | allErrors => 'e'
  | verbose => 'v'

/-- The spelling is the long option in full or cut short, with its hyphens and at least one
    letter behind them. -/
def Shortens (spelling long : String) : Prop :=
  3 ≤ spelling.length ∧ spelling.toList <+: long.toList

/-- A word that spells options. -/
inductive OptionWord where
  /-- Flags behind one hyphen. -/
  | cluster (first : Flag) (more : List Flag) (hhelp : Flag.help ∉ first :: more)
  /-- The long option that sets a flag. -/
  | verbose (spelling : String) (hspelling : Shortens spelling "--verbose")
  /-- The long option that sets the suffix, with its value. A value that looks like the
      separator would be dropped. -/
  | suffix (spelling : String) (hspelling : Shortens spelling "--suffix") (value : String)
    (hvalue : value ≠ "--")

namespace OptionWord

/-- The word as it stands on a command line. -/
def text : OptionWord → String
  | cluster first more _ => String.ofList ('-' :: (first :: more).map Flag.letter)
  | verbose spelling _ => spelling
  | suffix spelling _ value _ => spelling ++ "=" ++ value

/-- The flags that the word sets. -/
def flags : OptionWord → List Flag
  | cluster first more _ => first :: more
  | verbose _ _ => [.verbose]
  | suffix _ _ _ _ => []

/-- The suffix that the word sets. -/
def suffix? : OptionWord → Option String
  | suffix _ _ value _ => some value
  | _ => none

/-- What the word is read as. -/
def word : OptionWord → Word
  | cluster first [] _ => .option (.flag first) true none
  | cluster first (f :: more) _ =>
    .option (.flag first) true (some (String.ofList ((f :: more).map Flag.letter)))
  | verbose _ _ => .option (.flag .verbose) false none
  | suffix _ _ value _ => .option .suffix false (some value)

end OptionWord

theorem ne_equals_of_mem {word : List Char} (h : '=' ∉ word) :
    ∀ c ∈ word, (c != '=') = true := by
  intro c hc
  rw [bne_iff_ne]
  rintro rfl
  exact h hc

theorem splitValue_of_not_mem {word : List Char} (h : '=' ∉ word) :
    splitValue word = (String.ofList word, none) := by
  have hdrop := @List.dropWhile_append_of_pos _ _ _ [] (ne_equals_of_mem h)
  rw [List.append_nil] at hdrop
  rw [splitValue, hdrop]
  rfl

/-- A value begins behind the first equals sign. -/
theorem splitValue_append {spelling : List Char} (h : '=' ∉ spelling) (value : List Char) :
    splitValue (spelling ++ '=' :: value) =
      (String.ofList spelling, some (String.ofList value)) := by
  have hdrop : ('=' :: value).dropWhile (· != '=') = '=' :: value := rfl
  have htake : ('=' :: value).takeWhile (· != '=') = [] := rfl
  rw [splitValue, List.dropWhile_append_of_pos (ne_equals_of_mem h),
    List.takeWhile_append_of_pos (ne_equals_of_mem h), hdrop, htake, List.append_nil]

theorem ofSpelling?_eq_none {word : String} (h : ∀ s ∈ Opt.spellings, word ≠ s.1) :
    Opt.ofSpelling? word = none := by
  rw [Opt.ofSpelling?, List.lookup_eq_none_iff]
  intro s hs
  rw [bne_iff_ne]
  exact h s hs

/-- The spelling names a long option and nothing else. -/
structure Names (spelling long : String) (o : Opt) : Prop where
  hyphens : "--".toList.isPrefixOf spelling.toList = true
  noEquals : '=' ∉ spelling.toList
  exact : Opt.ofSpelling? spelling = none ∨
    Opt.ofSpelling? spelling = some o ∧ isShort spelling = false
  unique : (Opt.spellings.filter fun s => spelling.toList.isPrefixOf s.1.toList) = [(long, o)]

/-- The letter behind the hyphens tells the long options apart. -/
theorem names_of_shortens {spelling long : String} {o : Opt} (hlong : (long, o) ∈ Opt.spellings)
    (hshort : isShort long = false) (h : Shortens spelling long) : Names spelling long o := by
  have hbound : ∀ s ∈ Opt.spellings, s.1.length < 10 := by decide
  have hall : ∀ s ∈ Opt.spellings, isShort s.1 = false → ∀ n < 10, 3 ≤ n →
      let spelling := String.ofList (s.1.toList.take n)
      "--".toList.isPrefixOf spelling.toList = true ∧ '=' ∉ spelling.toList ∧
        (Opt.ofSpelling? spelling = none ∨
          Opt.ofSpelling? spelling = some s.2 ∧ isShort spelling = false) ∧
        (Opt.spellings.filter fun t => spelling.toList.isPrefixOf t.1.toList) = [s] := by
    decide
  have hle := h.2.length_le
  have hlt := hbound _ hlong
  rw [String.length_toList, String.length_toList] at hle
  have hspelling : String.ofList (long.toList.take spelling.length) = spelling := by
    rw [← String.length_toList, ← List.prefix_iff_eq_take.1 h.2, String.ofList_toList]
  have hnames := hall _ hlong hshort spelling.length (by simp only at hlt; omega) h.1
  rw [hspelling] at hnames
  exact ⟨hnames.1, hnames.2.1, hnames.2.2.1, hnames.2.2.2⟩

-- With more behind it, the hyphen is neither missing nor alone.
theorem opens_of_toList {word : String} {c : Char} {rest : List Char}
    (h : word.toList = '-' :: c :: rest) : ¬(word.toList.head? ≠ some '-' ∨ word = "-") := by
  rw [not_or, ne_eq, Decidable.not_not]
  refine ⟨by rw [h]; rfl, ?_⟩
  rintro rfl
  have hlength := congrArg List.length h
  rw [String.length_toList, List.length_cons, List.length_cons] at hlength
  have hhyphen : "-".length = 1 := rfl
  omega

theorem opens_of_hyphens {word : String} (h : "--".toList.isPrefixOf word.toList = true) :
    ¬(word.toList.head? ≠ some '-' ∨ word = "-") := by
  rcases List.isPrefixOf_iff_prefix.1 h with ⟨rest, hrest⟩
  exact opens_of_toList hrest.symm

theorem ofInexact_of_names {word spelling long : String} {o : Opt} {attached : Option String}
    (h : Names spelling long o) (hword : "--".toList.isPrefixOf word.toList = true)
    (hsplit : splitValue word.toList = (spelling, attached)) :
    Word.ofInexact word = .ok (.option o false attached) := by
  rw [Word.ofInexact, if_pos hword, longCandidates, hsplit, h.unique]

/-- A long option is known by its spelling. -/
theorem ofString_of_names {spelling long : String} {o : Opt} (h : Names spelling long o) :
    Word.ofString spelling = .ok (.option o false none) := by
  have hsplit := splitValue_of_not_mem h.noEquals
  rw [String.ofList_toList] at hsplit
  rw [Word.ofString, if_neg (opens_of_hyphens h.hyphens)]
  rcases h.exact with hnone | ⟨hsome, hlong⟩
  · rw [hnone]
    simp only [hsplit]
    exact ofInexact_of_names h h.hyphens hsplit
  · rw [hsome]
    simp only [hlong]

/-- A value is what stands behind the equals sign. -/
theorem ofString_append_of_names {spelling long : String} {o : Opt} (h : Names spelling long o)
    (value : String) :
    Word.ofString (spelling ++ "=" ++ value) = .ok (.option o false (some value)) := by
  have htext : (spelling ++ "=" ++ value).toList = spelling.toList ++ '=' :: value.toList := by
    rw [String.toList_append, String.toList_append, List.append_assoc]
    rfl
  have hsplit := splitValue_append h.noEquals value.toList
  rw [← htext, String.ofList_toList, String.ofList_toList] at hsplit
  have hhyphens : "--".toList.isPrefixOf (spelling ++ "=" ++ value).toList = true := by
    rw [htext, List.isPrefixOf_iff_prefix]
    exact (List.isPrefixOf_iff_prefix.1 h.hyphens).trans (List.prefix_append _ _)
  -- No option is spelled with an equals sign.
  have hnone : Opt.ofSpelling? (spelling ++ "=" ++ value) = none := by
    have hspellings : ∀ s ∈ Opt.spellings, '=' ∉ s.1.toList := by decide
    refine ofSpelling?_eq_none fun s hs heq => hspellings s hs ?_
    rw [← heq, htext]
    exact List.mem_append_right _ List.mem_cons_self
  rw [Word.ofString, if_neg (opens_of_hyphens hhyphens), hnone]
  simp only [hsplit]
  rcases h.exact with hexact | ⟨hexact, hlong⟩
  · rw [hexact]
    exact ofInexact_of_names h hhyphens hsplit
  · rw [hexact]
    simp only [hlong]

/-- One letter behind a hyphen sets its flag. -/
theorem ofSpelling?_letter (f : Flag) :
    Opt.ofSpelling? (String.ofList ['-', f.letter]) = some (.flag f) := by
  cases f <;> rfl

theorem ofString_letter (f : Flag) :
    Word.ofString (String.ofList ['-', f.letter]) = .ok (.option (.flag f) true none) := by
  cases f <;> rfl

theorem letter_ne (f : Flag) : f.letter ≠ '-' ∧ f.letter ≠ '=' := by
  cases f <;> decide

/-- An option is spelled with two hyphens or with one letter. -/
theorem ofSpelling?_of_letters {word : String} {f : Flag} {c : Char} {rest : List Char}
    (h : word.toList = '-' :: f.letter :: c :: rest) : Opt.ofSpelling? word = none := by
  have hspellings : ∀ s ∈ Opt.spellings, s.1.toList[1]? = some '-' ∨ s.1.toList.length = 2 := by
    decide
  refine ofSpelling?_eq_none fun s hs heq => ?_
  have hs := hspellings s hs
  rw [← heq, h] at hs
  simp only [List.getElem?_cons_succ, List.getElem?_cons_zero, Option.some_inj,
    List.length_cons] at hs
  rcases hs with hs | hs
  · exact (letter_ne f).1 hs
  · omega

/-- The first of several letters sets its flag, and the others are attached to it. -/
theorem ofString_letters (f g : Flag) (more : List Flag) :
    Word.ofString (String.ofList ('-' :: (f :: g :: more).map Flag.letter)) =
      .ok (.option (.flag f) true (some (String.ofList ((g :: more).map Flag.letter)))) := by
  generalize hword : String.ofList ('-' :: (f :: g :: more).map Flag.letter) = word
  have hlist : word.toList = '-' :: f.letter :: g.letter :: more.map Flag.letter := by
    rw [← hword, String.toList_ofList, List.map_cons, List.map_cons]
  have hequals : '=' ∉ word.toList := by
    rw [← hword, String.toList_ofList, List.mem_cons, not_or]
    refine ⟨by decide, fun hmem => ?_⟩
    rcases List.mem_map.1 hmem with ⟨k, -, hk⟩
    exact (letter_ne k).2 hk
  have hhyphens : ¬"--".toList.isPrefixOf word.toList = true := by
    rw [hlist, List.isPrefixOf_iff_prefix]
    rintro ⟨rest, hrest⟩
    have hsecond : '-' = f.letter := (List.cons_eq_cons.1 (List.cons_eq_cons.1 hrest).2).1
    exact (letter_ne f).1 hsecond.symm
  have hmore : shortWithMore? word.toList =
      some (.option (.flag f) true (some (String.ofList ((g :: more).map Flag.letter)))) := by
    rw [shortWithMore?, hlist]
    simp only [List.take_succ_cons, List.take_zero, ofSpelling?_letter, Option.map_some,
      List.drop_succ_cons, List.drop_zero, List.map_cons]
  rw [Word.ofString, if_neg (opens_of_toList hlist), ofSpelling?_of_letters hlist]
  simp only [splitValue_of_not_mem hequals]
  rw [Word.ofInexact, if_neg hhyphens, hmore, Option.getD_some]

/-- Each word is read as what it spells. -/
theorem ofString_text (w : OptionWord) : Word.ofString w.text = .ok w.word := by
  cases w with
  | cluster first more hhelp =>
    cases more with
    | nil => exact ofString_letter first
    | cons g more => exact ofString_letters first g more
  | verbose spelling hspelling =>
    have hnames : Names spelling "--verbose" (.flag .verbose) :=
      names_of_shortens (by decide) (by decide) hspelling
    exact ofString_of_names hnames
  | suffix spelling hspelling value hvalue =>
    have hnames : Names spelling "--suffix" .suffix :=
      names_of_shortens (by decide) (by decide) hspelling
    exact ofString_append_of_names hnames value

/-- No word that spells options is the separator, which could be any of the long ones. -/
theorem text_ne_separator (w : OptionWord) : w.text ≠ "--" := by
  intro h
  have hread := ofString_text w
  have hambiguous : Word.ofString "--" =
      .error (.ambiguous "--" ["--help", "--verbose", "--suffix"]) := rfl
  rw [h, hambiguous] at hread
  exact absurd hread (by simp only [reduceCtorEq, not_false_eq_true])

/-- The words of a command line, up to the separator and behind it. -/
theorem ofStrings_text (ws : List OptionWord) (paths : List String) :
    Word.ofStrings (ws.map OptionWord.text ++ "--" :: paths) =
      .ok (ws.map OptionWord.word ++ .separator :: paths.map .operand) := by
  induction ws with
  | nil => rw [List.map_nil, List.nil_append, Word.ofStrings, if_pos rfl, List.map_nil,
      List.nil_append]
  | cons w ws ih =>
    rw [List.map_cons, List.cons_append, Word.ofStrings, if_neg (text_ne_separator w),
      ofString_text w, ih]
    rfl

/-- Whether the settings have a flag set. Help is no setting. -/
def Settings.has (s : Settings) : Flag → Bool
  | .help => false
  | .list => s.options.list
  | .write => s.options.write
  | .diff => s.options.diff
  | .allErrors => s.options.allErrors
  | .verbose => s.verbose

/-- What flags and suffixes ask for that are given in this order. -/
def asked (flags : List Flag) (suffixes : List String) : Settings where
  options :=
    { list := flags.contains .list
      write := flags.contains .write
      diff := flags.contains .diff
      allErrors := flags.contains .allErrors }
  verbose := flags.contains .verbose
  suffix := some (suffixes.getLastD ".conf")

/-- A flag is set if it was asked for. -/
theorem has_asked {flags : List Flag} (hhelp : Flag.help ∉ flags) (suffixes : List String)
    (f : Flag) : (asked flags suffixes).has f = flags.contains f := by
  cases f with
  | help =>
    rw [← List.contains_iff_mem, Bool.not_eq_true] at hhelp
    rw [hhelp]
    rfl
  | _ => rfl

/-- A flag is set, whatever was asked for before. -/
theorem set_asked {f : Flag} (hf : f ≠ .help) (flags : List Flag) (suffixes : List String) :
    (asked flags suffixes).set f = .ok (asked (flags ++ [f]) suffixes) := by
  cases f with
  | help => exact absurd rfl hf
  | _ => simp [asked, Settings.set]

theorem foldlM_set_asked {more : List Flag} (hmore : Flag.help ∉ more) (flags : List Flag)
    (suffixes : List String) :
    more.foldlM Settings.set (asked flags suffixes) = .ok (asked (flags ++ more) suffixes) := by
  induction more generalizing flags with
  | nil => rw [List.append_nil]; rfl
  | cons f more ih =>
    rw [List.mem_cons, not_or] at hmore
    rw [List.foldlM_cons, set_asked (Ne.symm hmore.1)]
    have hrest := ih hmore.2 (flags ++ [f])
    rw [List.append_assoc, List.singleton_append] at hrest
    exact hrest

/-- The letters behind a flag are its fellow flags. -/
theorem cluster_letters (f : Flag) (more : List Flag) :
    cluster f (more.map Flag.letter) = .ok (f :: more) := by
  induction more generalizing f with
  | nil => rfl
  | cons g more ih =>
    rw [List.map_cons, cluster, ofSpelling?_letter]
    simp only [ih g]
    rfl

/-- The letters of one word are a flag each. -/
theorem flagsOf_letters (f g : Flag) (more : List Flag) :
    flagsOf f true (some (String.ofList ((g :: more).map Flag.letter))) = .ok (f :: g :: more) := by
  have hne : String.ofList ((g :: more).map Flag.letter) ≠ "" := by
    intro h
    have hlist := congrArg String.toList h
    rw [String.toList_ofList] at hlist
    exact absurd hlist (List.cons_ne_nil _ _)
  rw [flagsOf, Bool.true_and, if_pos (bne_iff_ne.2 hne), String.toList_ofList, cluster_letters]

/-- A command line read up to a word, where only options were given so far. -/
def readTo (flags : List Flag) (suffixes : List String) : Progress where
  settings := asked flags suffixes

theorem addFlags_readTo {f : Flag} {short : Bool} {attached : Option String} {more : List Flag}
    (hmore : flagsOf f short attached = .ok more) (hhelp : Flag.help ∉ more) (flags : List Flag)
    (suffixes : List String) :
    (readTo flags suffixes).addFlags f short attached =
      .ok (readTo (flags ++ more) suffixes) := by
  rw [Progress.addFlags, hmore]
  simp only [readTo, foldlM_set_asked hhelp]
  rfl

/-- What one word changes: its flags and its suffix are given last. -/
theorem addWords_word (w : OptionWord) (flags : List Flag) (suffixes : List String)
    (rest : List Word) :
    (readTo flags suffixes).addWords (w.word :: rest) =
      (readTo (flags ++ w.flags) (suffixes ++ w.suffix?.toList)).addWords rest := by
  have hclose : (readTo flags suffixes).close = readTo flags suffixes := rfl
  have hflags : ∀ {f : Flag} {short : Bool} {attached : Option String} {more : List Flag},
      flagsOf f short attached = .ok more → Flag.help ∉ more →
        (readTo flags suffixes).addWords (.option (.flag f) short attached :: rest) =
          (readTo (flags ++ more) suffixes).addWords rest := by
    intro f short attached more hmore hhelp
    rw [Progress.addWords, hclose, addFlags_readTo hmore hhelp]
  cases w with
  | cluster first more hhelp =>
    have hsuffixes : (OptionWord.cluster first more hhelp).suffix?.toList = [] := rfl
    rw [hsuffixes, List.append_nil]
    cases more with
    | nil => exact hflags rfl hhelp
    | cons g more => exact hflags (flagsOf_letters first g more) hhelp
  | verbose spelling hspelling =>
    have hsuffixes : (OptionWord.verbose spelling hspelling).suffix?.toList = [] := rfl
    have hhelp : Flag.help ∉ [Flag.verbose] := by decide
    rw [hsuffixes, List.append_nil]
    exact hflags rfl hhelp
  | suffix spelling hspelling value hvalue =>
    rw [OptionWord.flags, List.append_nil, OptionWord.suffix?, Option.toList_some,
      OptionWord.word, Progress.addWords, hclose, attachedSuffix, if_neg hvalue]
    simp only [readTo, Progress.setSuffix, asked, List.getLastD_concat]

/-- The words of options are taken in one by one. -/
theorem addWords_words (ws : List OptionWord) (flags : List Flag) (suffixes : List String)
    (rest : List Word) :
    (readTo flags suffixes).addWords (ws.map OptionWord.word ++ rest) =
      (readTo (flags ++ ws.flatMap OptionWord.flags)
        (suffixes ++ ws.filterMap OptionWord.suffix?)).addWords rest := by
  induction ws generalizing flags suffixes with
  | nil => simp only [List.map_nil, List.nil_append, List.flatMap_nil, List.filterMap_nil,
      List.append_nil]
  | cons w ws ih =>
    have hsuffixes : (w :: ws).filterMap OptionWord.suffix? =
        w.suffix?.toList ++ ws.filterMap OptionWord.suffix? := by
      rw [List.filterMap_cons]
      cases w.suffix? <;> rfl
    rw [List.map_cons, List.cons_append, addWords_word, ih, hsuffixes, List.flatMap_cons,
      List.append_assoc, List.append_assoc]

/-- Behind the separator every word is a name. -/
theorem addWords_operands {p : Progress} (hp : p.group = .opened) (paths : List String) :
    p.addWords (paths.map .operand) =
      .ok { p with settings := { p.settings with paths := p.settings.paths ++ paths } } := by
  induction paths generalizing p with
  | nil =>
    rw [List.append_nil]
    rfl
  | cons path paths ih =>
    rw [List.map_cons, Progress.addWords, Progress.addOperand, hp]
    simp only
    rw [ih rfl]
    simp only [List.append_assoc, List.singleton_append]

theorem help_not_mem_flags (w : OptionWord) : Flag.help ∉ w.flags := by
  cases w with
  | cluster first more hhelp => exact hhelp
  | verbose spelling hspelling => exact (by decide : Flag.help ∉ [Flag.verbose])
  | suffix spelling hspelling value hvalue => exact List.not_mem_nil

/-- Neither the order of the flags nor a suffix before the last counts. -/
theorem asked_congr {flags flags' : List Flag} {suffixes suffixes' : List String}
    (hflags : ∀ f, f ∈ flags ↔ f ∈ flags') (hsuffixes : suffixes.getLast? = suffixes'.getLast?) :
    asked flags suffixes = asked flags' suffixes' := by
  have hcontains : ∀ f, flags.contains f = flags'.contains f := by
    intro f
    rw [Bool.eq_iff_iff, List.contains_iff_mem, List.contains_iff_mem]
    exact hflags f
  simp only [asked, hcontains, List.getLastD_eq_getLast?, hsuffixes]

/-- The settings that a command line asks for. -/
theorem parse_eq_asked (ws : List OptionWord) (paths : List String) :
    parse (ws.map OptionWord.text ++ "--" :: paths) =
      .ok { asked (ws.flatMap OptionWord.flags) (ws.filterMap OptionWord.suffix?) with
        paths := paths } := by
  have hstart : ({} : Progress) = readTo [] [] := rfl
  rw [parse, ofStrings_text]
  simp only
  rw [Settings.ofWords, hstart, addWords_words, List.nil_append, List.nil_append,
    Progress.addWords, Progress.addSeparator]
  simp only [readTo]
  rw [addWords_operands rfl]
  rfl

/-- A command line is read back. It sets the flags whose letter or long option occurs in it and
    no other, the last suffix given, and as names all that stands behind the separator. So
    nothing but these counts, neither the order of the flags nor which of them share a word. -/
theorem parse_text (ws : List OptionWord) (paths : List String) :
    (∃ s, parse (ws.map OptionWord.text ++ "--" :: paths) = .ok s ∧
      (∀ f, s.has f = true ↔ ∃ w ∈ ws, f ∈ w.flags) ∧
      s.suffix = some ((ws.filterMap OptionWord.suffix?).getLastD ".conf") ∧ s.paths = paths) ∧
    ∀ others : List OptionWord,
      (∀ f, (∃ w ∈ ws, f ∈ w.flags) ↔ ∃ w ∈ others, f ∈ w.flags) →
      (ws.filterMap OptionWord.suffix?).getLast? = (others.filterMap OptionWord.suffix?).getLast? →
      parse (others.map OptionWord.text ++ "--" :: paths) =
        parse (ws.map OptionWord.text ++ "--" :: paths) := by
  have hmem : ∀ (ws : List OptionWord) (f : Flag),
      f ∈ ws.flatMap OptionWord.flags ↔ ∃ w ∈ ws, f ∈ w.flags := fun _ _ => List.mem_flatMap
  refine ⟨⟨_, parse_eq_asked ws paths, fun f => ?_, rfl, rfl⟩, fun others hflags hsuffixes => ?_⟩
  · have hhelp : Flag.help ∉ ws.flatMap OptionWord.flags := by
      rw [hmem]
      rintro ⟨w, -, hw⟩
      exact help_not_mem_flags w hw
    have hpaths : ∀ s : Settings, ({ s with paths := paths } : Settings).has f = s.has f := by
      intro s
      cases f <;> rfl
    rw [hpaths, has_asked hhelp, List.contains_iff_mem, hmem]
  · have hsame : asked (ws.flatMap OptionWord.flags) (ws.filterMap OptionWord.suffix?) =
        asked (others.flatMap OptionWord.flags) (others.filterMap OptionWord.suffix?) := by
      refine asked_congr (fun f => ?_) hsuffixes
      rw [hmem, hmem]
      exact hflags f
    rw [parse_eq_asked, parse_eq_asked, hsame]

/-- A flag given twice, a long option cut short, and names that look like options. -/
theorem parse_text_clustered :
    (∃ s, parse ["-lw", "--suf=.hocon", "--verb", "--", "-d", "--", ""] = .ok s ∧
      (∀ f, s.has f = true ↔ f ∈ [.list, .write, .verbose]) ∧ s.suffix = some ".hocon" ∧
      s.paths = ["-d", "--", ""]) ∧
    parse ["-v", "-wl", "--suffix=.txt", "-l", "--suffix=.hocon", "--", "-d", "--", ""] =
      parse ["-lw", "--suf=.hocon", "--verb", "--", "-d", "--", ""] := by
  have hverb : Shortens "--verb" "--verbose" := ⟨by decide, by decide⟩
  have hsuf : Shortens "--suf" "--suffix" := ⟨by decide, by decide⟩
  have hsuffix : Shortens "--suffix" "--suffix" := ⟨by decide, by decide⟩
  have hread := parse_text
    [.cluster .list [.write] (by decide), .suffix "--suf" hsuf ".hocon" (by decide),
      .verbose "--verb" hverb] ["-d", "--", ""]
  refine ⟨?_, hread.2 [.cluster .verbose [] (by decide), .cluster .write [.list] (by decide),
    .suffix "--suffix" hsuffix ".txt" (by decide), .cluster .list [] (by decide),
    .suffix "--suffix" hsuffix ".hocon" (by decide)] (fun f => ?_) rfl⟩
  · rcases hread.1 with ⟨s, hs, hflags, hlast, hpaths⟩
    refine ⟨s, hs, fun f => ?_, hlast, hpaths⟩
    rw [hflags]
    cases f <;> simp [OptionWord.flags]
  · cases f <;> simp [OptionWord.flags]

end ConfIndent.CommandLine
