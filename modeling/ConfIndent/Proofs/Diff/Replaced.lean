import ConfIndent.Proofs.Diff.Longest
import ConfIndent.Proofs.Diff.Reading

/-!
# One Line Replaced

How two texts are compared that differ in one line, where neither form of the line stands
anywhere else. Such texts are parallel, so each comparison takes its block straight ahead.
Extended, the block reaches from the line replaced to an end of the text, and what is left is
compared in the same way: the script keeps all that stands before the line, removes and adds
it, and keeps all that stands behind.

One thing can go wrong. Popular lines carry no run, and a text whose lines are all popular
has no place for a block to start from but its front. The lines before the one replaced
stand at the front and are found there nevertheless. The lines behind it do not, and so one
of them is asked to be a line that is not popular.

The script has a single change in it, so there is a single hunk, and the patch can be
written down. It is, without a word about blocks, scripts and hunks.

## Main definitions

* `Replaces`: Two lines of which neither stands among some others.
* `NonePopular`: A text without popular lines.
* `Patch.replacement`: The patch that shows one line replaced.

## Theorems

* `parallel_replaced`: The two texts are parallel.
* `longestBlock_replaced`: The block taken reaches from the line to an end of the text.
* `scriptAvoiding_replaced`: The script that replaces the line.
* `hunks_replaced`: The hunk that shows it.
* `unified_replaced`: The patch that is printed.
-/

namespace ConfIndent.Diff

variable {α : Type}

/-- Two lines differ and neither stands among the lines before and behind. -/
structure Replaces (front back : List α) (x y : α) : Prop where
  ne : x ≠ y
  old_not_mem : x ∉ front ++ back
  new_not_mem : y ∉ front ++ back

-- Away from the line replaced the texts are the same.
theorem getElem?_replaced (front back : List α) (x y : α) {i : Nat} (hi : i ≠ front.length) :
    (front ++ x :: back)[i]? = (front ++ y :: back)[i]? := by
  have hset : (front ++ x :: back).set front.length y = front ++ y :: back := by
    rw [List.set_append_right _ _ (Nat.le_refl _), Nat.sub_self, List.set_cons_zero]
  rw [← hset, List.getElem?_set_ne (Ne.symm hi)]

theorem getElem?_replaced_length (front back : List α) (x : α) :
    (front ++ x :: back)[front.length]? = some x := by
  rw [List.getElem?_append_right (Nat.le_refl _), Nat.sub_self, List.getElem?_cons_zero]

theorem not_mem_replaced {front back : List α} {x y : α} (hne : x ≠ y) (hx : x ∉ front ++ back) :
    x ∉ front ++ y :: back := by
  simp only [List.mem_append, List.mem_cons, not_or] at hx ⊢
  exact ⟨hx.1, hne, hx.2⟩

/-- Texts in which one line replaces another are parallel. -/
theorem parallel_replaced {front back : List α} {x y : α} (h : Replaces front back x y) :
    Parallel (front ++ x :: back) (front ++ y :: back) := by
  intro i j l hold hnew
  have hi : i ≠ front.length := by
    rintro rfl
    rw [getElem?_replaced_length, Option.some_inj] at hold
    rw [← hold] at hnew
    exact not_mem_replaced h.ne h.old_not_mem (List.mem_of_getElem? hnew)
  have hj : j ≠ front.length := by
    rintro rfl
    rw [getElem?_replaced_length, Option.some_inj] at hnew
    rw [← hnew] at hold
    exact not_mem_replaced (Ne.symm h.ne) h.new_not_mem (List.mem_of_getElem? hold)
  exact ⟨(getElem?_replaced front back x y hi).symm.trans hold,
    (getElem?_replaced front back x y hj).trans hnew⟩

theorem getElem?_behind (front : List α) (x : α) (back : List α) (k : Nat) :
    (front ++ x :: back)[front.length + 1 + k]? = back[k]? := by
  rw [Nat.add_assoc, List.getElem?_append_right (Nat.le_add_right _ _), Nat.add_sub_cancel_left,
    Nat.add_comm 1 k, List.getElem?_cons_succ]

theorem take_replaced (front : List α) (x : α) (back : List α) :
    (front ++ x :: back).take (front.length + 1) = front ++ [x] := by
  rw [List.take_length_add_append, List.take_succ_cons, List.take_zero]

theorem drop_replaced (front : List α) (x : α) (back : List α) :
    (front ++ x :: back).drop (front.length + 1) = back := by
  rw [List.drop_length_add_append, List.drop_succ_cons, List.drop_zero]

theorem Replaces.drop_front {front back : List α} {x y : α} (h : Replaces front back x y) :
    Replaces [] back x y :=
  ⟨h.ne, fun hx => h.old_not_mem (List.mem_append_right _ hx),
    fun hy => h.new_not_mem (List.mem_append_right _ hy)⟩

theorem Replaces.drop_back {front back : List α} {x y : α} (h : Replaces front back x y) :
    Replaces front [] x y := by
  refine ⟨h.ne, fun hx => h.old_not_mem ?_, fun hy => h.new_not_mem ?_⟩
  · rw [List.append_nil] at hx
    exact List.mem_append_left _ hx
  · rw [List.append_nil] at hy
    exact List.mem_append_left _ hy

variable [DecidableEq α]

/-- A common front part makes a run longer by its length. -/
theorem runLength_append (common old new : List α) :
    runLength [] (common ++ old) (common ++ new) = common.length + runLength [] old new := by
  induction common with
  | nil => rw [List.nil_append, List.nil_append, List.length_nil, Nat.zero_add]
  | cons x common ih =>
    rw [List.cons_append, List.cons_append, runLength, if_pos ⟨rfl, List.not_mem_nil⟩, ih,
      List.length_cons]
    omega

theorem runLength_cons_of_ne {x y : α} (h : x ≠ y) (old new : List α) :
    runLength [] (x :: old) (y :: new) = 0 := by
  rw [runLength, if_neg fun hxy => h hxy.1]

-- The lines that two texts end with are equal to the end.
theorem runLength_self (lines : List α) : runLength [] lines lines = lines.length := by
  have h := runLength_append lines [] []
  rwa [List.append_nil, runLength_nil_left, Nat.add_zero] at h

/-- A block before the line replaced is extended over all that stands before the line. -/
theorem extend_before {front back : List α} {x y : α} (hne : x ≠ y) {i size : Nat}
    (h : i + size ≤ front.length) :
    (⟨i, i, size⟩ : Block).extend (front ++ x :: back) (front ++ y :: back) =
      ⟨0, 0, front.length⟩ := by
  have htake : ∀ z, (front ++ z :: back).take i = front.take i := fun z =>
    List.take_append_of_le_length (by omega)
  have hdrop : ∀ z, (front ++ z :: back).drop (i + size) = front.drop (i + size) ++ z :: back :=
    fun z => List.drop_append_of_le_length h
  simp only [Block.extend, htake, hdrop, runLength_append, runLength_cons_of_ne hne,
    runLength_self, List.length_reverse, List.length_take, List.length_drop, Block.mk.injEq]
  omega

/-- A block behind the line replaced is extended over all that stands behind the line. -/
theorem extend_behind {front back : List α} {x y : α} (hne : x ≠ y) {i size : Nat}
    (hi : front.length < i) (h : i + size ≤ front.length + 1 + back.length) :
    (⟨i, i, size⟩ : Block).extend (front ++ x :: back) (front ++ y :: back) =
      ⟨front.length + 1, front.length + 1, back.length⟩ := by
  rcases Nat.exists_eq_add_of_lt hi with ⟨d, rfl⟩
  have htake : ∀ z, ((front ++ z :: back).take (front.length + d + 1)).reverse =
      (back.take d).reverse ++ z :: front.reverse := by
    intro z
    rw [Nat.add_assoc, List.take_length_add_append, List.take_succ_cons, List.reverse_append,
      List.reverse_cons, List.append_assoc, List.singleton_append]
  have hdrop : ∀ z, (front ++ z :: back).drop (front.length + d + 1 + size) =
      back.drop (d + size) := by
    intro z
    rw [show front.length + d + 1 + size = front.length + (d + size + 1) by omega,
      List.drop_length_add_append, List.drop_succ_cons]
  simp only [Block.extend, htake, hdrop, runLength_append, runLength_cons_of_ne hne,
    runLength_self, List.length_reverse, List.length_take, List.length_drop, Block.mk.injEq]
  omega

/-- The block taken reaches from the line replaced to an end of the text. It is empty only
    if all lines behind are popular, and it stands behind the line only if one is not. -/
theorem longestBlock_replaced {front back : List α} {x y : α} (h : Replaces front back x y)
    (popular : List α) :
    longestBlock popular (front ++ x :: back) (front ++ y :: back) = ⟨0, 0, front.length⟩ ∧
        (front = [] → ∀ l ∈ back, l ∈ popular) ∨
      longestBlock popular (front ++ x :: back) (front ++ y :: back) =
        ⟨front.length + 1, front.length + 1, back.length⟩ ∧ ∃ l ∈ back, l ∉ popular := by
  have hstraight := longestRun_straight (parallel_replaced h) popular
  have hsize := size_longestRun_le popular (front ++ x :: back) (front ++ y :: back)
  have hranks := longestRun_outranks popular (front ++ x :: back) (front ++ y :: back)
  rw [longestBlock_eq]
  generalize longestRun popular (front ++ x :: back) (front ++ y :: back) = b at *
  rcases b with ⟨i, j, size⟩
  obtain rfl : i = j := hstraight
  simp only [le_runLength_drop_iff] at hsize
  simp only [Block.Outranks] at hranks
  by_cases hi : i ≤ front.length
  · -- The line replaced stops a run that starts before it.
    have hend : i + size ≤ front.length := by
      refine Nat.not_lt.1 fun hcross => ?_
      rcases hsize (front.length - i) (by omega) with ⟨l, hold, hnew, -⟩
      rw [Nat.add_sub_cancel' hi, getElem?_replaced_length, Option.some_inj] at hold hnew
      exact h.ne (hold.trans hnew.symm)
    refine .inl ⟨extend_before h.ne hend, ?_⟩
    intro hfront l hl
    rcases List.mem_iff_getElem?.1 hl with ⟨k, hk⟩
    refine Decidable.byContradiction fun hpopular => ?_
    -- A line that is not popular is a run, and one is longer than none.
    have hrun : 1 ≤ runLength popular ((front ++ x :: back).drop (front.length + 1 + k))
        ((front ++ y :: back).drop (front.length + 1 + k)) := by
      rw [le_runLength_drop_iff]
      intro m hm
      obtain rfl : m = 0 := by omega
      exact ⟨l, (getElem?_behind front x back k).trans hk,
        (getElem?_behind front y back k).trans hk, hpopular⟩
    have hlongest := hranks (front.length + 1 + k) (front.length + 1 + k)
    rw [hfront, List.length_nil] at hend
    omega
  · -- Without a run the front of the text would have been taken.
    have hpos : 0 < size := by
      have hfirst := hranks 0 0
      omega
    -- The last line of the run stands behind the line replaced.
    rcases Nat.exists_eq_add_of_lt (Nat.not_le.1 hi) with ⟨d, rfl⟩
    rcases hsize (size - 1) (by omega) with ⟨l, hold, -, hrare⟩
    rw [show front.length + d + 1 + (size - 1) = front.length + 1 + (d + (size - 1)) by omega,
      getElem?_behind] at hold
    have hlt := (List.getElem?_eq_some_iff.1 hold).1
    exact .inr ⟨extend_behind h.ne (by omega) (by omega), l, List.mem_of_getElem? hold, hrare⟩

/-- Without a block in common all is removed and all is added. -/
theorem scriptAvoiding_of_empty {popular old new : List α} {i j : Nat}
    (h : longestBlock popular old new = ⟨i, j, 0⟩) :
    scriptAvoiding popular old new = old.map .removed ++ new.map .added := by
  rw [scriptAvoiding]
  split
  · rfl
  · rename_i hb
    rw [h] at hb
    cases hb

/-- A script keeps the longest block, and goes on before and behind it. -/
theorem scriptAvoiding_of_block {popular old new : List α} {i j k : Nat}
    (h : longestBlock popular old new = ⟨i, j, k⟩) (hk : k ≠ 0) :
    scriptAvoiding popular old new =
      scriptAvoiding popular (old.take i) (new.take j) ++
        (((old.drop i).take k).map .kept ++
          scriptAvoiding popular (old.drop (i + k)) (new.drop (j + k))) := by
  rw [scriptAvoiding]
  split
  · rename_i hb
    rw [h] at hb
    cases hb
    exact absurd rfl hk
  · rename_i hb
    rw [h] at hb
    cases hb
    rfl

theorem scriptAvoiding_nil (popular : List α) : scriptAvoiding popular [] [] = [] :=
  scriptAvoiding_of_empty (i := 0) (j := 0) rfl

/-- The script that replaces a line keeps all other lines, as long as one of the lines
    behind, if there are any, is not popular. -/
theorem scriptAvoiding_replaced {front back : List α} {x y : α} (h : Replaces front back x y)
    {popular : List α} (hback : back ≠ [] → ∃ l ∈ back, l ∉ popular) :
    scriptAvoiding popular (front ++ x :: back) (front ++ y :: back) =
      front.map .kept ++ .removed x :: .added y :: back.map .kept := by
  -- What is left beside the block is a text of the same kind, and shorter.
  induction hn : front.length + back.length using Nat.strongRecOn generalizing front back with
  | _ n ih =>
    rcases longestBlock_replaced h popular with ⟨hb, hpopular⟩ | ⟨hb, l, hl, -⟩
    · rcases front with _ | ⟨l, front⟩
      · -- Nothing is left but the line itself.
        have hnil : back = [] := by
          refine Decidable.byContradiction fun hne => ?_
          rcases hback hne with ⟨l, hl, hrare⟩
          exact hrare (hpopular rfl l hl)
        subst hnil
        rw [scriptAvoiding_of_empty hb]
        rfl
      · rw [List.length_cons] at hn
        have hrest := ih back.length (by omega) h.drop_front hback
          (by rw [List.length_nil, Nat.zero_add])
        rw [List.nil_append, List.nil_append] at hrest
        rw [scriptAvoiding_of_block hb (Nat.succ_ne_zero _), List.take_zero, List.take_zero,
          List.drop_zero, Nat.zero_add, List.take_left, List.drop_left, List.drop_left,
          scriptAvoiding_nil, hrest]
        rfl
    · have hlength := List.length_pos_of_mem hl
      have hrest := ih front.length (by omega) h.drop_back (fun hnil => absurd rfl hnil) rfl
      have hend : ∀ z, (front ++ z :: back).drop (front.length + 1 + back.length) = [] := by
        intro z
        rw [← List.drop_drop, drop_replaced, List.drop_length]
      rw [scriptAvoiding_of_block hb (Nat.ne_of_gt hlength), take_replaced, take_replaced, hrest,
        drop_replaced, List.take_length, hend, hend, scriptAvoiding_nil, List.append_nil]
      simp only [List.map_nil, List.append_assoc, List.cons_append, List.nil_append]

omit [DecidableEq α] in
theorem sections_map_kept (lines : List α) : sections (lines.map Mark.kept) = ([], lines) := by
  induction lines with
  | nil => rfl
  | cons l lines ih =>
    rw [List.map_cons, sections, List.foldr_cons, ← sections, ih]
    rfl

-- Lines kept in front of a script join the lines kept before its first change.
omit [DecidableEq α] in
theorem sections_kept_append (lines : List α) {marks : List (Mark α)} {s : Section α}
    {ss : List (Section α)} {tail : List α} (h : sections marks = (s :: ss, tail)) :
    sections (lines.map .kept ++ marks) = (⟨lines ++ s.kept, s.changes⟩ :: ss, tail) := by
  induction lines with
  | nil => exact h
  | cons l lines ih =>
    rw [List.map_cons, List.cons_append, sections, List.foldr_cons, ← sections, ih]
    rfl

/-- The hunk that shows one line replaced. -/
def replacedHunk (front : List α) (x y : α) (back : List α) : Hunk α :=
  let skipped := front.length - contextLines
  ⟨skipped, skipped, (front.drop skipped).map .kept ++ [.removed x, .added y] ++
    (back.take contextLines).map .kept⟩

omit [DecidableEq α] in
theorem oldSize_replacedHunk (front : List α) (x y : α) (back : List α) :
    (replacedHunk front x y back).oldSize = min 3 front.length + 1 + min 3 back.length := by
  have hchange : oldSide [Mark.removed x, .added y] = [x] := rfl
  simp only [Hunk.oldSize, replacedHunk, oldSide_append, oldSide_map_kept, hchange,
    List.length_append, List.length_drop, List.length_take, List.length_singleton, contextLines]
  omega

omit [DecidableEq α] in
theorem newSize_replacedHunk (front : List α) (x y : α) (back : List α) :
    (replacedHunk front x y back).newSize = min 3 front.length + 1 + min 3 back.length := by
  have hchange : newSide [Mark.removed x, .added y] = [y] := rfl
  simp only [Hunk.newSize, replacedHunk, newSide_append, newSide_map_kept, hchange,
    List.length_append, List.length_drop, List.length_take, List.length_singleton, contextLines]
  omega

omit [DecidableEq α] in
/-- The one hunk of a script that replaces a line. -/
theorem hunks_replaced (front : List α) (x y : α) (back : List α) :
    hunks (front.map .kept ++ .removed x :: .added y :: back.map .kept) =
      [replacedHunk front x y back] := by
  have hback : sections (.removed x :: .added y :: back.map .kept) =
      ([⟨[], [.removed x, .added y]⟩], back) := by
    rw [sections, List.foldr_cons, List.foldr_cons, ← sections, sections_map_kept]
    rfl
  rw [hunks, sections_kept_append front hback]
  simp only [List.append_nil, following]
  rfl

/-- A text without popular lines: it has few lines, or none of them makes up more than about a
    hundredth of it. -/
def NonePopular (new : List α) : Prop :=
  new.length < 200 ∨ ∀ l ∈ new, new.count l ≤ new.length / 100 + 1

/-- In a text in which no line is popular there are no popular lines. -/
theorem popularLines_eq_nil {new : List α} (h : NonePopular new) : popularLines new = [] := by
  rw [popularLines]
  split
  · rfl
  · rename_i hlong
    have hrare := h.resolve_left hlong
    have hnone : (new.filter fun y => new.length / 100 + 1 < new.count y) = [] := by
      rw [List.filter_eq_nil_iff]
      intro l hl
      rw [decide_eq_true_eq, Nat.not_lt]
      exact hrare l hl
    rw [hnone]
    rfl

namespace Patch

open Bytes

/-- A line behind a sign. A line feed and the marker follow a line that does not end in a
    line feed. -/
def shown (sign : UInt8) (l : Bytes) : Bytes :=
  sign :: l ++ if l.getLast? = some lf then [] else lf :: marker

/-- The patch that shows one line replaced, between the lines before and behind it. -/
def replacement (name : Bytes) (front : List Bytes) (x y : Bytes) (back : List Bytes) : Bytes :=
  let p := min 3 front.length
  let q := min 3 back.length
  let lines := ofNat (front.length - p + 1) ++
    if p + 1 + q = 1 then [] else ofAscii "," ++ ofNat (p + 1 + q)
  ofAscii "--- a/" ++ name ++ ofAscii "\n" ++
    (ofAscii "+++ b/" ++ name ++ ofAscii "\n") ++
    (ofAscii "@@ -" ++ lines ++ ofAscii " +" ++ lines ++ ofAscii " @@\n") ++
    ((front.drop (front.length - p)).flatMap (shown 32) ++ shown 45 x ++ shown 43 y ++
      (back.take q).flatMap (shown 32))

theorem line_eq_shown (m : Mark Bytes) : line m = shown (signed m).1 (signed m).2 := by
  simp only [line, shown, Lines.endsInLf, beq_iff_eq]
  rfl

theorem flatMap_line_kept (lines : List Bytes) :
    (lines.map Mark.kept).flatMap line = lines.flatMap (shown 32) := by
  rw [List.flatMap_map]
  congr 1
  funext l
  exact line_eq_shown (.kept l)

/-- A range that holds a line is named by its first one. -/
theorem range_of_pos {size : Nat} (h : 0 < size) (start : Nat) :
    range start size =
      ofNat (start + 1) ++ if size = 1 then [] else ofAscii "," ++ ofNat size := by
  rcases size with _ | _ | size
  · exact absurd h (Nat.lt_irrefl 0)
  · rw [if_pos rfl, List.append_nil]
    rfl
  · rw [if_neg (by omega), ← List.append_assoc]
    rfl

/-- A hunk that replaces one line, written out. -/
theorem hunk_replacedHunk (front : List Bytes) (x y : Bytes) (back : List Bytes) (name : Bytes) :
    labels name ++ hunk (replacedHunk front x y back) = replacement name front x y back := by
  have hskipped : front.length - 3 = front.length - min 3 front.length := by omega
  have htake : back.take 3 = back.take (min 3 back.length) := by
    rw [List.take_eq_take_min]
  have hlines : (replacedHunk front x y back).marks.flatMap line =
      (front.drop (front.length - min 3 front.length)).flatMap (shown 32) ++ shown 45 x ++
        shown 43 y ++ (back.take (min 3 back.length)).flatMap (shown 32) := by
    simp only [replacedHunk, contextLines, List.flatMap_append, flatMap_line_kept,
      List.flatMap_cons, List.flatMap_nil, line_eq_shown, signed, ← hskipped, ← htake,
      List.append_nil, List.append_assoc]
  have hstart : (replacedHunk front x y back).oldStart = front.length - min 3 front.length :=
    hskipped
  have hstart' : (replacedHunk front x y back).newStart = front.length - min 3 front.length :=
    hskipped
  rw [hunk, header, hlines, hstart, hstart', oldSize_replacedHunk, newSize_replacedHunk,
    range_of_pos (by omega)]
  simp only [labels, replacement, List.append_assoc]
  rfl

end Patch

section Texts

variable {old new : Bytes} {front back : List Bytes} {x y : Bytes}
  (hold : Lines.split old = front ++ x :: back) (hnew : Lines.split new = front ++ y :: back)

include hold hnew

theorem ne_of_replaces (h : Replaces front back x y) : old ≠ new := by
  rintro rfl
  rw [hold, List.append_right_inj, List.cons_eq_cons] at hnew
  exact h.ne hnew.1

/-- The one hunk between two texts in which one line replaces another. -/
theorem changes_replaced (h : Replaces front back x y)
    (hback : back ≠ [] → ∃ l ∈ back, l ∉ popularLines (Lines.split new)) :
    changes old new = [replacedHunk front x y back] := by
  rw [hnew] at hback
  rw [changes, script, hold, hnew, scriptAvoiding_replaced h hback, hunks_replaced]

/-- The patch of two texts in which one line replaces another. -/
theorem unified_replaced (h : Replaces front back x y)
    (hback : back ≠ [] → ∃ l ∈ back, l ∉ popularLines (Lines.split new)) (name : Bytes) :
    unified old new name = Patch.replacement name front x y back := by
  rw [unified, if_neg (ne_of_replaces hold hnew h), changes_replaced hold hnew h hback,
    List.flatMap_singleton, Patch.hunk_replacedHunk]

end Texts

end ConfIndent.Diff
