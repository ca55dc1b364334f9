import ConfIndent.FileSystem.Calls

/-!
# Steps of a Route

What a step of a route does and what it asks of the steps behind it. A step into
an entry asks three things only: whether it is the last, whether a solidus follows
the route, and what the route is taken for. For each use of this, the step is
written here with the questions answered that its purpose settles.

Reading answers them all but the solidus, and it is the one purpose for which all
that can go wrong is known. A name that leads nowhere to be read leads through
nothing, through a file or through too many links, unless it is too long. Creating
refuses more names than reading does and follows the same links, so what it finds
is found by reading too.

## Main definitions

* `FileSystem.jump`: How a route goes on after a link.

## Theorems

* `FileSystem.descend_read`, `FileSystem.descend_create`: A step by its purpose.
* `FileSystem.descend_enter`, `FileSystem.descend_last`: A step by its place.
* `FileSystem.nameTooLong_or_of_stat`: Why nothing is there to be read.
* `FileSystem.locate_read_of_create`: Reading finds what creating finds.
-/

namespace ConfIndent

namespace FileSystem

/-- How a route goes on after a link, with the number of links left before it. -/
def jump (fs : FileSystem) (purpose : Purpose) :
    Nat → Location → List Step → Bool → Except Cause Spot
  | 0 => fun _ _ _ => .error .linkLoop
  | links + 1 => resolve fs purpose links

theorem resolve_eq (fs : FileSystem) (purpose : Purpose) (links : Nat) (here : Location)
    (steps : List Step) (slashed : Bool) :
    resolve fs purpose links here steps slashed =
      descend fs purpose (fs.jump purpose links) slashed here steps := by
  cases links <;> rfl

section Steps

variable {fs : FileSystem} {purpose : Purpose}
  {follow : Location → List Step → Bool → Except Cause Spot} {slashed : Bool} {here : Location}
  {name : Bytes} {rest : List Step}

/-- A step of a route that is taken to read. -/
theorem descend_read :
    descend fs .read follow slashed here (.enter name :: rest) =
      if maxComponent < name.length then .error .nameTooLong
      else
        match fs.get? (here ++ [name]) with
        | none => if rest.isEmpty && !slashed then .ok (.free here name) else .error .missing
        | some .directory => descend fs .read follow slashed (here ++ [name]) rest
        | some (.file _) =>
          if rest.isEmpty && !slashed then .ok (.taken (here ++ [name])) else .error .notDirectory
        | some (.link target) =>
          follow (startOf here (Route.ofName target)) ((Route.ofName target).steps ++ rest)
            (slashed || (rest.isEmpty && (Route.ofName target).slashed)) := by
  have hcreate : (Purpose.read == .create) = false := rfl
  have hinspect : (Purpose.read == .inspect) = false := rfl
  rw [descend, hcreate, hinspect]
  rcases fs.get? (here ++ [name]) with _ | _ | content | target <;>
    simp only [Bool.and_false, Bool.false_eq_true, if_false]

/-- A step of a route that is taken to create a file. A name that ends in a solidus
    is refused at its last step. -/
theorem descend_create :
    descend fs .create follow slashed here (.enter name :: rest) =
      if rest.isEmpty && slashed then .error .isDirectory
      else if maxComponent < name.length then .error .nameTooLong
      else
        match fs.get? (here ++ [name]) with
        | none => if rest.isEmpty && !slashed then .ok (.free here name) else .error .missing
        | some .directory => descend fs .create follow slashed (here ++ [name]) rest
        | some (.file _) =>
          if rest.isEmpty && !slashed then .ok (.taken (here ++ [name])) else .error .notDirectory
        | some (.link target) =>
          follow (startOf here (Route.ofName target)) ((Route.ofName target).steps ++ rest)
            (slashed || (rest.isEmpty && (Route.ofName target).slashed)) := by
  have hcreate : (Purpose.create == .create) = true := rfl
  have hinspect : (Purpose.create == .inspect) = false := rfl
  rw [descend, hcreate, hinspect]
  rcases fs.get? (here ++ [name]) with _ | _ | content | target <;>
    simp only [Bool.and_true, Bool.and_false, Bool.false_eq_true, if_false]

/-- A step that is not the last does not look at the purpose. -/
theorem descend_enter (hrest : rest ≠ []) :
    descend fs purpose follow slashed here (.enter name :: rest) =
      if maxComponent < name.length then .error .nameTooLong
      else
        match fs.get? (here ++ [name]) with
        | none => .error .missing
        | some .directory => descend fs purpose follow slashed (here ++ [name]) rest
        | some (.file _) => .error .notDirectory
        | some (.link target) =>
          follow (startOf here (Route.ofName target)) ((Route.ofName target).steps ++ rest)
            slashed := by
  have hlast : rest.isEmpty = false := List.isEmpty_eq_false_iff.2 hrest
  rw [descend]
  rcases fs.get? (here ++ [name]) with _ | _ | content | target <;>
    simp only [hlast, Bool.false_and, Bool.false_eq_true, if_false, Bool.or_false]

/-- The last step of a route that ends in no solidus. -/
theorem descend_last :
    descend fs purpose follow false here [.enter name] =
      if maxComponent < name.length then .error .nameTooLong
      else
        match fs.get? (here ++ [name]) with
        | none => .ok (.free here name)
        | some .directory => .ok (.taken (here ++ [name]))
        | some (.file _) => .ok (.taken (here ++ [name]))
        | some (.link target) =>
          if purpose = .inspect then .ok (.taken (here ++ [name]))
          else
            follow (startOf here (Route.ofName target)) (Route.ofName target).steps
              (Route.ofName target).slashed := by
  rw [descend]
  rcases fs.get? (here ++ [name]) with _ | _ | content | target <;>
    simp only [List.isEmpty_nil, Bool.and_false, Bool.false_and, Bool.false_eq_true, if_false,
      Bool.not_false, Bool.and_true, Bool.true_and, if_true, Bool.false_or, List.append_nil,
      beq_iff_eq, descend]

/-- What the first step of a route that leads somewhere has met. -/
theorem cases_of_descend {l : Location}
    (h : descend fs .read follow slashed here (.enter name :: rest) = .ok (.taken l)) :
    name.length ≤ maxComponent ∧
      (fs.get? (here ++ [name]) = some .directory ∧
          descend fs .read follow slashed (here ++ [name]) rest = .ok (.taken l) ∨
        (∃ content, fs.get? (here ++ [name]) = some (.file content) ∧ here ++ [name] = l) ∨
        ∃ target slashed', fs.get? (here ++ [name]) = some (.link target) ∧
          follow (startOf here (Route.ofName target)) ((Route.ofName target).steps ++ rest)
            slashed' = .ok (.taken l)) := by
  rw [descend_read] at h
  by_cases hlong : maxComponent < name.length
  · rw [if_pos hlong] at h
    exact absurd h (by simp only [reduceCtorEq, not_false_eq_true])
  rw [if_neg hlong] at h
  refine ⟨Nat.le_of_not_lt hlong, ?_⟩
  rcases hget : fs.get? (here ++ [name]) with _ | _ | content | target
  · rw [hget] at h
    simp only [] at h
    split at h <;> exact absurd h (by simp only [Except.ok.injEq, reduceCtorEq, not_false_eq_true])
  · rw [hget] at h
    exact .inl ⟨rfl, h⟩
  · rw [hget] at h
    simp only [] at h
    split at h
    · rw [Except.ok.injEq, Spot.taken.injEq] at h
      exact .inr (.inl ⟨content, rfl, h⟩)
    · exact absurd h (by simp only [reduceCtorEq, not_false_eq_true])
  · rw [hget] at h
    exact .inr (.inr ⟨target, _, rfl, h⟩)

end Steps

-- The steps before a link, for any way to go on behind it.
theorem nameTooLong_or_of_descend {fs : FileSystem}
    {follow : Location → List Step → Bool → Except Cause Spot}
    (hfollow : ∀ here steps slashed c, follow here steps slashed = .error c →
      c = .nameTooLong ∨ c.leadsNowhere)
    {slashed : Bool} {here : Location} {steps : List Step} {c : Cause}
    (h : descend fs .read follow slashed here steps = .error c) :
    c = .nameTooLong ∨ c.leadsNowhere := by
  induction steps generalizing here with
  | nil => exact absurd h (by simp only [descend, reduceCtorEq, not_false_eq_true])
  | cons s rest ih =>
    cases s with
    | stay => exact ih h
    | up => exact ih h
    | enter name =>
      rw [descend_read] at h
      by_cases hlong : maxComponent < name.length
      · rw [if_pos hlong, Except.error.injEq] at h
        exact .inl h.symm
      rw [if_neg hlong] at h
      rcases hget : fs.get? (here ++ [name]) with _ | _ | content | target
      · rw [hget] at h
        simp only [] at h
        split at h
        · exact absurd h (by simp only [reduceCtorEq, not_false_eq_true])
        · rw [Except.error.injEq] at h
          rw [← h]
          exact .inr rfl
      · rw [hget] at h
        exact ih h
      · rw [hget] at h
        simp only [] at h
        split at h
        · exact absurd h (by simp only [reduceCtorEq, not_false_eq_true])
        · rw [Except.error.injEq] at h
          rw [← h]
          exact .inr rfl
      · rw [hget] at h
        exact hfollow _ _ _ _ h

theorem nameTooLong_or_of_resolve {fs : FileSystem} {links : Nat} {here : Location}
    {steps : List Step} {slashed : Bool} {c : Cause}
    (h : resolve fs .read links here steps slashed = .error c) :
    c = .nameTooLong ∨ c.leadsNowhere := by
  induction links generalizing here steps slashed c with
  | zero =>
    refine nameTooLong_or_of_descend ?_ h
    intro _ _ _ _ hfollow
    rw [Except.error.injEq] at hfollow
    rw [← hfollow]
    exact .inr rfl
  | succ links ih => exact nameTooLong_or_of_descend (fun _ _ _ _ => ih) h

theorem nameTooLong_or_of_locate {fs : FileSystem} {name : FileName} {c : Cause}
    (h : fs.locate .read name = .error c) : c = .nameTooLong ∨ c.leadsNowhere := by
  unfold locate at h
  split at h
  · rw [Except.error.injEq] at h
    rw [← h]
    exact .inr rfl
  · split at h
    · rw [Except.error.injEq] at h
      exact .inl h.symm
    · exact nameTooLong_or_of_resolve h

/-- A name that leads to nothing that can be read is too long or leads nowhere. -/
theorem nameTooLong_or_of_stat {fs : FileSystem} {name : FileName} {c : Cause}
    (h : fs.stat name = .error c) : c = .nameTooLong ∨ c.leadsNowhere := by
  unfold stat at h
  rcases hlocate : fs.locate .read name with c' | spot
  · rw [hlocate, Except.bind, Except.error.injEq] at h
    rw [← h]
    exact nameTooLong_or_of_locate hlocate
  · rw [hlocate, Except.bind] at h
    -- A spot that is free, or that nothing stands at, is missing.
    unfold entryAt at h
    split at h
    · split at h
      · exact absurd h (by simp only [reduceCtorEq, not_false_eq_true])
      · rw [Except.error.injEq] at h
        rw [← h]
        exact .inr rfl
    · rw [Except.error.injEq] at h
      rw [← h]
      exact .inr rfl

theorem descend_read_of_create (fs : FileSystem)
    {follow follow' : Location → List Step → Bool → Except Cause Spot}
    (hfollow : ∀ here steps slashed spot, follow here steps slashed = .ok spot →
      follow' here steps slashed = .ok spot)
    {slashed : Bool} {here : Location} {steps : List Step} {spot : Spot}
    (h : descend fs .create follow slashed here steps = .ok spot) :
    descend fs .read follow' slashed here steps = .ok spot := by
  induction steps generalizing here with
  | nil => exact h
  | cons s steps ih =>
    cases s with
    | stay => exact ih h
    | up => exact ih h
    | enter name =>
      rw [descend_create] at h
      rw [descend_read]
      by_cases hrefused : steps.isEmpty && slashed
      · rw [if_pos hrefused] at h
        exact absurd h (by simp only [reduceCtorEq, not_false_eq_true])
      rw [if_neg hrefused] at h
      by_cases hlong : maxComponent < name.length
      · rw [if_pos hlong] at h
        exact absurd h (by simp only [reduceCtorEq, not_false_eq_true])
      rw [if_neg hlong] at h ⊢
      -- From here on both take the same step, up to what comes after it.
      rcases hget : fs.get? (here ++ [name]) with _ | _ | content | target
      · rwa [hget] at h
      · rw [hget] at h
        exact ih h
      · rwa [hget] at h
      · rw [hget] at h
        exact hfollow _ _ _ _ h

/-- What can be created at a place that is there can be read there. -/
theorem resolve_read_of_create (fs : FileSystem) {links : Nat} {here : Location}
    {steps : List Step} {slashed : Bool} {spot : Spot}
    (h : resolve fs .create links here steps slashed = .ok spot) :
    resolve fs .read links here steps slashed = .ok spot := by
  induction links generalizing here steps slashed spot with
  | zero =>
    refine descend_read_of_create fs ?_ h
    intro _ _ _ _ hfollow
    exact absurd hfollow (by simp only [reduceCtorEq, not_false_eq_true])
  | succ links ih => exact descend_read_of_create fs (fun _ _ _ _ => ih) h

/-- A name that leads to a place when a file is to be created leads there also when
    it is to be read. -/
theorem locate_read_of_create {fs : FileSystem} {name : FileName} {spot : Spot}
    (h : fs.locate .create name = .ok spot) : fs.locate .read name = .ok spot := by
  unfold locate at h ⊢
  split at h
  · exact absurd h (by simp only [reduceCtorEq, not_false_eq_true])
  · rename_i hne
    rw [if_neg hne]
    split at h
    · exact absurd h (by simp only [reduceCtorEq, not_false_eq_true])
    · rename_i hlong
      rw [if_neg hlong]
      exact resolve_read_of_create fs h

end FileSystem

end ConfIndent
