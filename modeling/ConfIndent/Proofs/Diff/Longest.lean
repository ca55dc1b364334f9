import ConfIndent.Diff.Block

/-!
# The Block Taken

Which block a comparison starts from. That the block stands in both texts is all that the
texts themselves ask for; what a comparison shows depends on which of several blocks it
takes. It is the longest, of these one that starts first in the old text, and of these the
one that starts first in the new.

The search goes through the table with the best block so far. What it keeps is that this
block outranks all it has seen and stands before all it has yet to see, so that a block of
the same length never takes its place.

Two texts are *parallel* if a line that both hold stands in both at the same places. They
may repeat lines, and then a run of one text is found at many places of the other. But a run
found askew is found straight ahead at both its ends as well, and one of these places comes
first. So the block taken from parallel texts never is askew, whatever lines repeat and
whatever lines are popular.

## Main definitions

* `Block.Outranks`: Which of two blocks is taken.
* `longestRun`: The block taken, before it is extended.
* `Parallel`: What two texts share stands in both at the same places.

## Theorems

* `le_runLength_drop_iff`: What a run of some length says about the lines.
* `longestRun_outranks`: The block taken outranks the run at every pair of places.
* `size_longestRun_le`: The block taken is no longer than the run where it stands.
* `longestRun_straight`: From parallel texts a block is taken straight ahead.
-/

namespace ConfIndent.Diff

variable {α : Type} [DecidableEq α]

theorem runLength_nil_left (popular new : List α) : runLength popular [] new = 0 := by
  cases new <;> rfl

theorem le_runLength_iff {popular old new : List α} {n : Nat} :
    n ≤ runLength popular old new ↔
      ∀ k < n, ∃ l, old[k]? = some l ∧ new[k]? = some l ∧ l ∉ popular := by
  fun_induction runLength popular old new generalizing n with
  | case1 x old y new h ih =>
    rcases n with _ | n
    · simp only [Nat.zero_le, Nat.not_lt_zero, false_imp_iff, implies_true]
    · rw [Nat.add_le_add_iff_right, ih, Nat.forall_lt_succ_left]
      have hhead : ∃ l, (x :: old)[0]? = some l ∧ (y :: new)[0]? = some l ∧ l ∉ popular :=
        ⟨y, by rw [h.1]; rfl, rfl, h.2⟩
      exact (and_iff_right hhead).symm
  | case2 x old y new h =>
    rcases n with _ | n
    · simp only [Nat.zero_le, Nat.not_lt_zero, false_imp_iff, implies_true]
    · refine iff_of_false (Nat.not_succ_le_zero n) fun hall => ?_
      rcases hall 0 (Nat.succ_pos n) with ⟨l, hx, hy, hl⟩
      rw [List.getElem?_cons_zero, Option.some_inj] at hx hy
      exact h ⟨hx.trans hy.symm, hy ▸ hl⟩
  | case3 old new h =>
    rcases n with _ | n
    · simp only [Nat.zero_le, Nat.not_lt_zero, false_imp_iff, implies_true]
    · refine iff_of_false (Nat.not_succ_le_zero n) fun hall => ?_
      rcases hall 0 (Nat.succ_pos n) with ⟨l, hx, hy, -⟩
      rcases old with _ | ⟨x, old⟩
      · exact absurd hx (by simp only [List.getElem?_nil, reduceCtorEq, not_false_eq_true])
      rcases new with _ | ⟨y, new⟩
      · exact absurd hy (by simp only [List.getElem?_nil, reduceCtorEq, not_false_eq_true])
      exact h x old y new rfl rfl

/-- What a run of some length says about the lines at its places. -/
theorem le_runLength_drop_iff {popular old new : List α} {i j n : Nat} :
    n ≤ runLength popular (old.drop i) (new.drop j) ↔
      ∀ k < n, ∃ l, old[i + k]? = some l ∧ new[j + k]? = some l ∧ l ∉ popular := by
  simp only [le_runLength_iff, List.getElem?_drop]

/-- The block is taken rather than another, or it is the other: it is longer, or it is as
    long and does not start later, in the old text first of all. -/
def Block.Outranks (b c : Block) : Prop :=
  c.size < b.size ∨ c.size = b.size ∧
    (b.oldStart < c.oldStart ∨ b.oldStart = c.oldStart ∧ b.newStart ≤ c.newStart)

theorem Block.Outranks.refl (b : Block) : b.Outranks b :=
  .inr ⟨rfl, .inr ⟨rfl, Nat.le_refl _⟩⟩

theorem Block.Outranks.trans {a b c : Block} (hab : a.Outranks b) (hbc : b.Outranks c) :
    a.Outranks c := by
  unfold Block.Outranks at *
  omega

/-- A block that stands before a row outranks what it meets there, or gives way to a longer
    one. -/
theorem bestInRow_outranks (i j : Nat) (row : List Nat) (best : Block)
    (hbefore : best.oldStart < i ∨ best.oldStart = i ∧ best.newStart ≤ j) :
    (bestInRow i j row best).Outranks best ∧
      (∀ k n, row[k]? = some n → (bestInRow i j row best).Outranks ⟨i, j + k, n⟩) ∧
      (bestInRow i j row best).oldStart ≤ i := by
  induction row generalizing j best with
  | nil =>
    refine ⟨.refl _, ?_, ?_⟩
    · intro k n hk
      exact absurd hk (by simp only [List.getElem?_nil, reduceCtorEq, not_false_eq_true])
    · rw [bestInRow]
      omega
  | cons n row ih =>
    rw [bestInRow]
    generalize hnext : (if best.size < n then (⟨i, j, n⟩ : Block) else best) = next
    have hstep : next.Outranks best ∧ next.Outranks ⟨i, j, n⟩ ∧
        (next.oldStart < i ∨ next.oldStart = i ∧ next.newStart ≤ j + 1) := by
      rw [← hnext]
      unfold Block.Outranks
      by_cases hlonger : best.size < n
      · rw [if_pos hlonger]
        simp only [true_and]
        omega
      · rw [if_neg hlonger]
        simp only [true_and]
        omega
    rcases ih (j + 1) next hstep.2.2 with ⟨hbest, hrow, hstart⟩
    refine ⟨hbest.trans hstep.1, ?_, hstart⟩
    intro k m hk
    rcases k with _ | k
    · rw [List.getElem?_cons_zero, Option.some_inj] at hk
      rw [← hk]
      exact hbest.trans hstep.2.1
    · rw [List.getElem?_cons_succ] at hk
      rw [show j + (k + 1) = j + 1 + k by omega]
      exact hrow k m hk

/-- A block that stands before a table outranks what it meets there, or gives way to a
    longer one. -/
theorem bestInTable_outranks (i : Nat) (rows : List (List Nat)) (best : Block)
    (hbefore : best.oldStart < i ∨ best.oldStart = i ∧ best.newStart ≤ 0) :
    (bestInTable i rows best).Outranks best ∧
      ∀ k row, rows[k]? = some row → ∀ l n, row[l]? = some n →
        (bestInTable i rows best).Outranks ⟨i + k, l, n⟩ := by
  induction rows generalizing i best with
  | nil =>
    refine ⟨.refl _, ?_⟩
    intro k row hk
    exact absurd hk (by simp only [List.getElem?_nil, reduceCtorEq, not_false_eq_true])
  | cons row rows ih =>
    rw [bestInTable]
    rcases bestInRow_outranks i 0 row best hbefore with ⟨hbest, hrow, hstart⟩
    rcases ih (i + 1) (bestInRow i 0 row best) (.inl (by omega)) with ⟨hafter, hrows⟩
    refine ⟨hafter.trans hbest, ?_⟩
    intro k row' hk l n hl
    rcases k with _ | k
    · rw [List.getElem?_cons_zero, Option.some_inj] at hk
      rw [← hk] at hl
      have hmet := hrow l n hl
      rw [Nat.zero_add] at hmet
      exact hafter.trans hmet
    · rw [List.getElem?_cons_succ] at hk
      rw [show i + (k + 1) = i + 1 + k by omega]
      exact hrows k row' hk l n hl

/-- The block taken, before it is extended. -/
def longestRun (popular old new : List α) : Block :=
  bestInTable 0 (runTable popular old new) ⟨0, 0, 0⟩

theorem longestBlock_eq (popular old new : List α) :
    longestBlock popular old new = (longestRun popular old new).extend old new :=
  rfl

/-- The block taken outranks the run at every pair of places. -/
theorem longestRun_outranks (popular old new : List α) (i j : Nat) :
    (longestRun popular old new).Outranks
      ⟨i, j, runLength popular (old.drop i) (new.drop j)⟩ := by
  rcases bestInTable_outranks 0 (runTable popular old new) ⟨0, 0, 0⟩
    (.inr ⟨rfl, Nat.le_refl 0⟩) with ⟨hstart, htable⟩
  by_cases hin : i < old.length ∧ j < new.length
  · have hrow : (runTable popular old new)[i]? =
        some ((suffixes new).map (runLength popular (old.drop i))) := by
      rw [runTable_eq, List.getElem?_map, getElem?_suffixes, if_pos hin.1, Option.map_some]
    have hentry := htable i _ hrow j (runLength popular (old.drop i) (new.drop j))
    rw [List.getElem?_map, getElem?_suffixes, if_pos hin.2, Option.map_some, Nat.zero_add]
      at hentry
    exact hentry rfl
  · -- Past the end of a text there is no run to be outranked.
    have hzero : runLength popular (old.drop i) (new.drop j) = 0 := by
      rcases Nat.lt_or_ge i old.length with hi | hi
      · have hj : new.length ≤ j := Nat.not_lt.1 fun hj => hin ⟨hi, hj⟩
        rw [List.drop_of_length_le hj, runLength_nil_right]
      · rw [List.drop_of_length_le hi, runLength_nil_left]
    rw [hzero]
    refine hstart.trans (.inr ⟨rfl, ?_⟩)
    simp only
    omega

/-- The block taken is no longer than the run where it stands. -/
theorem size_longestRun_le (popular old new : List α) :
    (longestRun popular old new).size ≤
      runLength popular (old.drop (longestRun popular old new).oldStart)
        (new.drop (longestRun popular old new).newStart) := by
  refine bestInTable_induct
    (P := fun b => b.size ≤ runLength popular (old.drop b.oldStart) (new.drop b.newStart))
    0 _ _ (Nat.zero_le _) ?_
  intro i row hrow j n hn
  rw [runTable_eq, List.getElem?_map, Option.map_eq_some_iff] at hrow
  rcases hrow with ⟨o, ho, rfl⟩
  rw [List.getElem?_map, Option.map_eq_some_iff] at hn
  rcases hn with ⟨m, hm, rfl⟩
  rw [getElem?_suffixes] at ho hm
  split at ho
  · split at hm
    · rw [Option.some_inj] at ho hm
      exact Nat.le_of_eq (by rw [← ho, ← hm, Nat.zero_add])
    · cases hm
  · cases ho

/-- A line that both texts hold stands in both at the same places. -/
def Parallel (old new : List α) : Prop :=
  ∀ (i j : Nat) (l : α), old[i]? = some l → new[j]? = some l → new[i]? = some l ∧ old[j]? = some l

/-- From parallel texts a block is taken straight ahead. -/
theorem longestRun_straight {old new : List α} (h : Parallel old new) (popular : List α) :
    (longestRun popular old new).oldStart = (longestRun popular old new).newStart := by
  have hsize := size_longestRun_le popular old new
  have hranks := longestRun_outranks popular old new
  generalize longestRun popular old new = b at hsize hranks
  rw [le_runLength_drop_iff] at hsize
  -- The run stands straight ahead at the place in the old text and at the place in the new.
  have hold : b.size ≤ runLength popular (old.drop b.oldStart) (new.drop b.oldStart) := by
    rw [le_runLength_drop_iff]
    intro k hk
    rcases hsize k hk with ⟨l, ho, hn, hl⟩
    exact ⟨l, ho, (h _ _ l ho hn).1, hl⟩
  have hnew : b.size ≤ runLength popular (old.drop b.newStart) (new.drop b.newStart) := by
    rw [le_runLength_drop_iff]
    intro k hk
    rcases hsize k hk with ⟨l, ho, hn, hl⟩
    exact ⟨l, (h _ _ l ho hn).2, hn, hl⟩
  have hfirstOld := hranks b.oldStart b.oldStart
  have hfirstNew := hranks b.newStart b.newStart
  simp only [Block.Outranks] at hfirstOld hfirstNew
  omega

end ConfIndent.Diff
