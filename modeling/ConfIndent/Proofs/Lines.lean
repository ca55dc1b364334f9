import ConfIndent.Lines

/-!
# Lines of Joined Texts

The lines of two texts put together, told from the lines of either. No line crosses the
place behind a line feed, so behind one the lines of both texts stand one after the other.
Bytes that end no line do not make a line of their own; they are put in front of the first
line of what follows, if there is one.

Behind a carriage return neither is true, since whether it ends a line depends on the byte
that follows. The statements here leave that case out on purpose.

## Main definitions

* `Lines.Ended`: A text that ends with a line feed, or is empty.

## Theorems

* `Lines.split_append_of_ended`: The lines of an ended text and of what follows it.
* `Lines.split_append_of_open`: The lines of a text behind bytes that end no line.
* `Lines.eq_of_length_flatten`: The front part of a text is told by its length.
* `Lines.ended_of_mem_dropLast`: A line that another follows has an end.
-/

namespace ConfIndent.Lines

open Bytes

/-- The text is empty, or a line feed ends its last line. -/
def Ended (text : Bytes) : Prop :=
  text = [] ∨ text.getLast? = some lf

theorem consFirst_append {b : UInt8} {ps : List Bytes} (hps : ps ≠ []) (qs : List Bytes) :
    consFirst b (ps ++ qs) = consFirst b ps ++ qs := by
  rcases List.exists_cons_of_ne_nil hps with ⟨p, ps, rfl⟩
  rfl

theorem split_ne_nil {text : Bytes} (h : text ≠ []) : split text ≠ [] := by
  intro hnil
  have hflatten := flatten_split text
  rw [hnil] at hflatten
  exact h hflatten.symm

/-- Behind a line feed a text is cut into lines as if it stood alone. -/
theorem split_append_of_ended {front : Bytes} (h : Ended front) (rest : Bytes) :
    split (front ++ rest) = split front ++ split rest := by
  induction front with
  | nil => rfl
  | cons b front ih =>
    rcases front with _ | ⟨c, front⟩
    · -- The last byte is the line feed.
      have hb : b = lf := by
        rcases h with h | h
        · exact absurd h (List.cons_ne_nil _ _)
        · exact Option.some_inj.1 h
      have hends : ∀ more, endsLine b more = true := by
        intro more
        rw [endsLine, hb, beq_self_eq_true, Bool.true_or]
      rw [List.singleton_append, split, split, if_pos (hends _), if_pos (hends _)]
      rfl
    · have hended : Ended (c :: front) := by
        rcases h with h | h
        · exact absurd h (List.cons_ne_nil _ _)
        · exact .inr h
      -- A byte that another of the same text follows sees nothing of the other text.
      have hends : endsLine b (c :: front ++ rest) = endsLine b (c :: front) := rfl
      rw [List.cons_append, split, split, hends, ih hended]
      split
      · rfl
      · exact consFirst_append (split_ne_nil (List.cons_ne_nil _ _)) _

/-- Bytes that end no line stand in front of the first line of what follows them. -/
theorem split_append_of_open {front : Bytes} (hne : front ≠ []) (hlf : lf ∉ front)
    (hcr : cr ∉ front) (rest : Bytes) :
    split (front ++ rest) = (front ++ (split rest).headD []) :: (split rest).tail := by
  induction front with
  | nil => exact absurd rfl hne
  | cons b front ih =>
    rw [List.mem_cons, not_or] at hlf hcr
    have hends : ¬endsLine b (front ++ rest) = true := by
      simp only [endsLine, beq_false_of_ne (Ne.symm hlf.1), beq_false_of_ne (Ne.symm hcr.1),
        Bool.false_and, Bool.or_self, Bool.false_eq_true, not_false_eq_true]
    rw [List.cons_append, split, if_neg hends]
    by_cases hfront : front = []
    · rw [hfront, List.nil_append]
      cases split rest <;> rfl
    · rw [ih hfront hlf.2 hcr.2]
      rfl

-- Lines are not empty, so the length of a front part of a text tells how many lines it has.
theorem eq_of_length_flatten {text : Bytes} {ps qs : List Bytes} (hp : ps <+: split text)
    (hq : qs <+: split text) (h : ps.flatten.length = qs.flatten.length) : ps = qs := by
  have hlonger : ∀ {us vs : List Bytes}, us <+: vs → vs <+: split text →
      us.flatten.length = vs.flatten.length → us = vs := by
    rintro us _ ⟨more, rfl⟩ hvs hlength
    rw [List.flatten_append, List.length_append] at hlength
    rcases more with _ | ⟨line, more⟩
    · rw [List.append_nil]
    · -- Another line would add its bytes to the length.
      have hline : line ∈ split text :=
        hvs.subset (List.mem_append_right _ List.mem_cons_self)
      have hpos := List.length_pos_iff.2 (ne_nil_of_mem_split hline)
      rw [List.flatten_cons, List.length_append] at hlength
      omega
  rcases List.prefix_or_prefix_of_prefix hp hq with hpq | hqp
  · exact hlonger hpq hq h
  · exact (hlonger hqp hp h.symm).symm

/-- A line that another follows has an end. -/
theorem ended_of_mem_dropLast {text line : Bytes} (h : line ∈ (split text).dropLast) :
    ∃ body b, line = body ++ [b] ∧ (b = lf ∨ b = cr) := by
  induction text generalizing line with
  | nil => exact absurd h List.not_mem_nil
  | cons b rest ih =>
    rw [split] at h
    rcases hsplit : split rest with _ | ⟨first, others⟩
    · -- A single line has no other behind it.
      rw [hsplit] at h
      split at h <;> exact absurd h List.not_mem_nil
    · rw [hsplit] at h ih
      split at h
      · rename_i hb
        rw [List.dropLast_cons_cons] at h
        rcases List.mem_cons.1 h with rfl | h
        · refine ⟨[], b, rfl, ?_⟩
          simp only [endsLine, Bool.or_eq_true, Bool.and_eq_true, beq_iff_eq] at hb
          exact hb.imp id And.left
        · exact ih h
      · rw [consFirst] at h
        rcases others with _ | ⟨second, others⟩
        · exact absurd h List.not_mem_nil
        · rw [List.dropLast_cons_cons] at h ih
          rcases List.mem_cons.1 h with rfl | h
          · rcases ih List.mem_cons_self with ⟨body, b', rfl, hb'⟩
            exact ⟨b :: body, b', List.cons_append.symm, hb'⟩
          · exact ih (List.mem_cons_of_mem _ h)

end ConfIndent.Lines
