/-!
# Longest Common Blocks

The first step of comparing two texts: the longest run of lines that both hold.

A run is looked for among all pairs of positions, and of several longest runs
the one that starts first in the old text is taken, then the one that starts
first in the new. `runTable` holds the length of the run at every pair; each row
comes from the row below it, since a run is one line longer than the run at the
next pair.

A line that occurs very often in a long text says little about where the text
was kept. Such a *popular* line never starts or carries a run. It may still
belong to a block: once the longest run is found, it is extended in both
directions over all equal lines, popular or not. That holds for the empty run at
the front too, so two texts that agree in popular lines only still share their
common beginning.

## Main definitions

* `popularLines`: The lines that carry no run.
* `runLength`: The number of equal lines at the front of two texts.
* `runTable`: That number for every pair of positions.
* `Block`: A run of lines at a position in either text.
* `longestBlock`: The block that a comparison starts from.

## Theorems

* `runTable_eq`: The table holds run lengths.
* `longestBlock_aligns`: The block stands in both texts.
-/

namespace ConfIndent.Diff

variable {α : Type} [DecidableEq α]

/-- A text of at least this many lines may have popular lines. -/
def popularThreshold : Nat := 200

/-- The lines that make up more than about a hundredth of a long text. -/
def popularLines (new : List α) : List α :=
  if new.length < popularThreshold then []
  else (new.filter fun y => new.length / 100 + 1 < new.count y).eraseDups

/-- The number of lines at the front of both texts that are equal, up to the
    first popular one. -/
def runLength (popular : List α) : List α → List α → Nat
  | x :: old, y :: new => if x = y ∧ y ∉ popular then runLength popular old new + 1 else 0
  | _, _ => 0

/-- Run lengths at one line of the old text and each line of the new, given the
    run lengths at the next line of the old. -/
def runRow (popular : List α) (x : α) : List α → List Nat → List Nat
  | [], _ => []
  | y :: new, below =>
    (if x = y ∧ y ∉ popular then below.tail.headD 0 + 1 else 0) ::
      runRow popular x new below.tail

/-- Run lengths at each line of the old text and each line of the new. -/
def runTable (popular : List α) : List α → List α → List (List Nat)
  | [], _ => []
  | x :: old, new =>
    let below := runTable popular old new
    runRow popular x new (below.headD []) :: below

/-- A run of lines at a position in the old text and a position in the new. -/
structure Block where
  /-- The number of old lines before the block. -/
  oldStart : Nat
  /-- The number of new lines before the block. -/
  newStart : Nat
  /-- The number of lines in the block. -/
  size : Nat
  deriving DecidableEq, Repr

/-- The best block of one row, where an earlier one stands unless it is beaten. -/
def bestInRow (i : Nat) : Nat → List Nat → Block → Block
  | _, [], best => best
  | j, n :: row, best => bestInRow i (j + 1) row (if best.size < n then ⟨i, j, n⟩ else best)

/-- The best block of the table, where an earlier one stands unless it is
    beaten. -/
def bestInTable : Nat → List (List Nat) → Block → Block
  | _, [], best => best
  | i, row :: rows, best => bestInTable (i + 1) rows (bestInRow i 0 row best)

/-- The block together with all equal lines before and after it. -/
def Block.extend (old new : List α) (b : Block) : Block :=
  let back := runLength [] (old.take b.oldStart).reverse (new.take b.newStart).reverse
  let ahead := runLength [] (old.drop (b.oldStart + b.size)) (new.drop (b.newStart + b.size))
  ⟨b.oldStart - back, b.newStart - back, back + b.size + ahead⟩

/-- The block a comparison starts from. Its size is zero if the texts share no
    line they could start from and differ in the first line. -/
def longestBlock (popular old new : List α) : Block :=
  (bestInTable 0 (runTable popular old new) ⟨0, 0, 0⟩).extend old new

/-- The non-empty ends of a list, longest first. -/
def suffixes : List α → List (List α)
  | [] => []
  | x :: xs => (x :: xs) :: suffixes xs

omit [DecidableEq α] in
theorem getElem?_suffixes (l : List α) (k : Nat) :
    (suffixes l)[k]? = if k < l.length then some (l.drop k) else none := by
  induction l generalizing k with
  | nil => rfl
  | cons x xs ih =>
    cases k with
    | zero => rfl
    | succ k =>
      simp only [suffixes, List.getElem?_cons_succ, ih, List.length_cons, List.drop_succ_cons,
        Nat.add_lt_add_iff_right]

theorem runLength_nil_right (popular old : List α) : runLength popular old [] = 0 := by
  cases old <;> rfl

theorem runRow_eq (popular : List α) (x : α) (old new : List α) (below : List Nat)
    (h : ∀ k, below[k]?.getD 0 = runLength popular old (new.drop k)) :
    runRow popular x new below = (suffixes new).map (runLength popular (x :: old)) := by
  induction new generalizing below with
  | nil => rfl
  | cons y new ih =>
    have h1 : below.tail.headD 0 = runLength popular old new := by
      rw [List.headD_eq_head?_getD, List.head?_eq_getElem?, List.getElem?_tail]
      exact h 1
    rw [runRow, suffixes, List.map_cons, h1, ih below.tail fun k => ?_, runLength]
    rw [List.getElem?_tail, h (k + 1), List.drop_succ_cons]

/-- Every entry of the table is the length of the run at its position. -/
theorem runTable_eq (popular old new : List α) :
    runTable popular old new =
      (suffixes old).map fun o => (suffixes new).map (runLength popular o) := by
  induction old with
  | nil => rfl
  | cons x old ih =>
    rw [runTable, suffixes, List.map_cons, ← ih, runRow_eq popular x old new]
    intro k
    rw [ih]
    rcases old with _ | ⟨z, old⟩
    · rfl
    -- The row below, past its end, counts as zeros.
    · rw [suffixes, List.map_cons, List.headD_cons, List.getElem?_map, getElem?_suffixes]
      split
      · rfl
      · rw [List.drop_of_length_le (by omega), runLength_nil_right]
        rfl

/-- A run stands at the front of both texts. -/
theorem exists_of_runLength (popular old new : List α) :
    ∃ run o n, old = run ++ o ∧ new = run ++ n ∧ run.length = runLength popular old new := by
  induction old generalizing new with
  | nil => exact ⟨[], [], new, rfl, rfl, by cases new <;> rfl⟩
  | cons x old ih =>
    rcases new with _ | ⟨y, new⟩
    · exact ⟨[], x :: old, [], rfl, rfl, rfl⟩
    · rw [runLength]
      split
      · rename_i h
        rcases ih new with ⟨run, o, n, rfl, rfl, hlen⟩
        exact ⟨x :: run, o, n, rfl, by rw [h.1, List.cons_append], by
          rw [List.length_cons, hlen]⟩
      · exact ⟨[], x :: old, y :: new, rfl, rfl, rfl⟩

/-- The block's lines stand at its position in the old text and at its position
    in the new. -/
def Block.Aligns (old new : List α) (b : Block) : Prop :=
  ∃ oldBefore newBefore lines oldAfter newAfter,
    old = oldBefore ++ lines ++ oldAfter ∧ new = newBefore ++ lines ++ newAfter ∧
      oldBefore.length = b.oldStart ∧ newBefore.length = b.newStart ∧ lines.length = b.size

omit [DecidableEq α] in
theorem aligns_empty (old new : List α) : Block.Aligns old new ⟨0, 0, 0⟩ :=
  ⟨[], [], [], old, new, rfl, rfl, rfl, rfl, rfl⟩

/-- What holds of the best block so far and of every entry of the row holds of
    the best block after the row. -/
theorem bestInRow_induct {P : Block → Prop} (i j : Nat) (row : List Nat) (best : Block)
    (hbest : P best) (hrow : ∀ k n, row[k]? = some n → P ⟨i, j + k, n⟩) :
    P (bestInRow i j row best) := by
  induction row generalizing j best with
  | nil => exact hbest
  | cons n row ih =>
    rw [bestInRow]
    refine ih (j + 1) _ ?_ fun k m hk => ?_
    · split
      · exact hrow 0 n rfl
      · exact hbest
    · have := hrow (k + 1) m (by rw [List.getElem?_cons_succ, hk])
      rwa [show j + (k + 1) = j + 1 + k by omega] at this

/-- What holds of the best block so far and of every entry of the table holds of
    the best block after the table. -/
theorem bestInTable_induct {P : Block → Prop} (i : Nat) (rows : List (List Nat)) (best : Block)
    (hbest : P best)
    (hrows : ∀ k row, rows[k]? = some row → ∀ l n, row[l]? = some n → P ⟨i + k, l, n⟩) :
    P (bestInTable i rows best) := by
  induction rows generalizing i best with
  | nil => exact hbest
  | cons row rows ih =>
    rw [bestInTable]
    refine ih (i + 1) _ ?_ fun k r hk l n hl => ?_
    · refine bestInRow_induct i 0 row best hbest fun k n hk => ?_
      rw [Nat.zero_add]
      exact hrows 0 row rfl k n hk
    · have := hrows (k + 1) r (by rw [List.getElem?_cons_succ, hk]) l n hl
      rwa [show i + (k + 1) = i + 1 + k by omega] at this

/-- Every entry of the table is a run that both texts hold. -/
theorem aligns_of_runTable (popular old new : List α) {i j n : Nat} {row : List Nat}
    (hrow : (runTable popular old new)[i]? = some row) (hn : row[j]? = some n) :
    Block.Aligns old new ⟨i, j, n⟩ := by
  rw [runTable_eq, List.getElem?_map, getElem?_suffixes] at hrow
  split at hrow
  · rw [Option.map_some, Option.some_inj] at hrow
    rw [← hrow, List.getElem?_map, getElem?_suffixes] at hn
    split at hn
    · rw [Option.map_some, Option.some_inj] at hn
      rcases exists_of_runLength popular (old.drop i) (new.drop j) with ⟨run, o, m, ho, hm, hlen⟩
      refine ⟨old.take i, new.take j, run, o, m, ?_, ?_, ?_, ?_, ?_⟩
      · rw [List.append_assoc, ← ho, List.take_append_drop]
      · rw [List.append_assoc, ← hm, List.take_append_drop]
      · exact List.length_take_of_le (by omega)
      · exact List.length_take_of_le (by omega)
      · rw [hlen, hn]
    · contradiction
  · contradiction

/-- Extending a block over equal lines keeps it in both texts. -/
theorem Block.Aligns.extend {old new : List α} {b : Block} (h : b.Aligns old new) :
    (b.extend old new).Aligns old new := by
  rcases h with ⟨o, n, run, o', n', rfl, rfl, ho, hn, hrun⟩
  -- What the extension looks at is what stands before and after the block.
  have hold : ((o ++ run ++ o').take b.oldStart) = o := by
    rw [List.append_assoc, ← ho, List.take_left]
  have hnew : ((n ++ run ++ n').take b.newStart) = n := by
    rw [List.append_assoc, ← hn, List.take_left]
  have hold' : ((o ++ run ++ o').drop (b.oldStart + b.size)) = o' := by
    rw [← ho, ← hrun, ← List.length_append, List.drop_left]
  have hnew' : ((n ++ run ++ n').drop (b.newStart + b.size)) = n' := by
    rw [← hn, ← hrun, ← List.length_append, List.drop_left]
  rw [Block.extend, hold, hnew, hold', hnew']
  rcases exists_of_runLength [] o.reverse n.reverse with ⟨back, x, y, hx, hy, hback⟩
  rcases exists_of_runLength [] o' n' with ⟨ahead, x', y', hx', hy', hahead⟩
  rw [← hback, ← hahead]
  -- The lines before the block are compared backwards, so they are turned round.
  rw [List.reverse_eq_iff, List.reverse_append] at hx hy
  refine ⟨x.reverse, y.reverse, back.reverse ++ run ++ ahead, x', y', ?_, ?_, ?_, ?_, ?_⟩
  · rw [hx, hx']
    simp only [List.append_assoc]
  · rw [hy, hy']
    simp only [List.append_assoc]
  · rw [← ho, hx, List.length_append, @List.length_reverse _ back, Nat.add_sub_cancel]
  · rw [← hn, hy, List.length_append, @List.length_reverse _ back, Nat.add_sub_cancel]
  · simp only [List.length_append, List.length_reverse, hrun]

/-- The block that a comparison starts from stands in both texts. -/
theorem longestBlock_aligns (popular old new : List α) :
    (longestBlock popular old new).Aligns old new := by
  refine Block.Aligns.extend (bestInTable_induct 0 _ _ (aligns_empty old new) ?_)
  intro k row hrow l n hn
  rw [Nat.zero_add]
  exact aligns_of_runTable popular old new hrow hn

omit [DecidableEq α] in
/-- A block lies inside the old text. -/
theorem Block.Aligns.oldStart_add_size_le {old new : List α} {b : Block}
    (h : b.Aligns old new) : b.oldStart + b.size ≤ old.length := by
  rcases h with ⟨o, n, run, o', n', rfl, rfl, ho, hn, hrun⟩
  simp only [List.length_append]
  omega

end ConfIndent.Diff
