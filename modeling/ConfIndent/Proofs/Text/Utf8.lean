import ConfIndent.Text.Utf8

/-!
# Texts in UTF-8

Bytes of ASCII stand out in UTF-8. Each of them is a character of its own wherever it
stands, and no other character has such a byte among its own. So a separator that is one
of them is found in the bytes of a text where it is in the text, and nowhere else.

Bytes that are a text are read as that text in every way of reading, since the ways
differ in stray bytes only.

## Theorems

* `Utf8.decodeLossy_of_decode?`, `Utf8.decode?_of_not_mem`: Nothing is replaced in a text
  without stray bytes, and only there.
* `Utf8.fragments_cons`: A byte of ASCII is a character of its own.
* `Utf8.not_mem_encode`: A byte of ASCII stands for its own character only.
-/

namespace ConfIndent

/-- A list is read element by element. -/
theorem exists_of_mapM_cons {α β : Type} {f : α → Option β} {x : α} {xs : List α} {ys : List β}
    (h : (x :: xs).mapM f = some ys) :
    ∃ y zs, f x = some y ∧ xs.mapM f = some zs ∧ ys = y :: zs := by
  rw [List.mapM_cons] at h
  rcases hx : f x with _ | y
  · rw [hx] at h
    cases h
  · rcases hxs : xs.mapM f with _ | zs
    · rw [hx, hxs] at h
      cases h
    · rw [hx, hxs] at h
      cases h
      exact ⟨y, zs, rfl, rfl, rfl⟩

theorem mapM_cons_ne_nil {α β : Type} (f : α → Option β) (x : α) (xs : List α) :
    (x :: xs).mapM f ≠ some [] := by
  intro h
  rcases exists_of_mapM_cons h with ⟨y, zs, -, -, hys⟩
  cases hys

/-- What was read element by element is there for every element. -/
theorem map_of_mapM {α β : Type} {f : α → Option β} {xs : List α} {ys : List β}
    (h : xs.mapM f = some ys) : xs.map f = ys.map some := by
  induction xs generalizing ys with
  | nil =>
    cases h
    rfl
  | cons x xs ih =>
    rcases exists_of_mapM_cons h with ⟨y, ys', hy, hys, rfl⟩
    rw [List.map_cons, List.map_cons, hy, ih hys]

theorem exists_mem_of_mapM {α β : Type} {f : α → Option β} {xs : List α} {ys : List β}
    (h : xs.mapM f = some ys) {x : α} (hx : x ∈ xs) : ∃ y ∈ ys, f x = some y := by
  have hmem : f x ∈ ys.map some := by
    rw [← map_of_mapM h]
    exact List.mem_map_of_mem hx
  rcases List.mem_map.1 hmem with ⟨y, hy, heq⟩
  exact ⟨y, hy, heq.symm⟩

theorem length_of_mapM {α β : Type} {f : α → Option β} {xs : List α} {ys : List β}
    (h : xs.mapM f = some ys) : ys.length = xs.length := by
  have hlength := congrArg List.length (map_of_mapM h)
  rw [List.length_map, List.length_map] at hlength
  exact hlength.symm

namespace Utf8

/-- Nothing is replaced in a text without stray bytes. -/
theorem decodeLossy_of_decode? {bytes : Bytes} {text : List Char}
    (h : decode? bytes = some text) : decodeLossy bytes = text := by
  rw [decode?] at h
  rw [decodeLossy]
  generalize fragments bytes = fs at h ⊢
  induction fs generalizing text with
  | nil =>
    cases h
    rfl
  | cons f fs ih =>
    rcases exists_of_mapM_cons h with ⟨c, text', hf, hfs, rfl⟩
    rw [List.map_cons, ih hfs, hf, Option.getD_some]

/-- What is shown without a replacement character was read strictly. -/
theorem decode?_of_not_mem {bytes : Bytes} (h : replacement ∉ decodeLossy bytes) :
    decode? bytes = some (decodeLossy bytes) := by
  rw [decodeLossy] at h
  rw [decode?, decodeLossy]
  generalize fragments bytes = fs at h ⊢
  induction fs with
  | nil => rfl
  | cons f fs ih =>
    rw [List.map_cons, List.mem_cons, not_or] at h
    rw [List.mapM_cons, ih h.2]
    cases f with
    | char c => rfl
    | stray bytes => exact absurd rfl h.1

/-- A byte of ASCII is a character of its own. -/
theorem fragments_cons {b : UInt8} (hb : b < 0x80) (rest : Bytes) :
    fragments (b :: rest) = .char (Char.ofNat b.toNat) :: fragments rest := by
  have hstart : start b = (none, [.char (Char.ofNat b.toNat)]) := by
    rw [start, if_pos hb]
  rw [fragments, feedAll]
  simp only [feed, hstart]
  rfl

-- The bytes of all other characters are at least 80.
theorem eq_of_mem_encodeChar {b : UInt8} (hb : b < 0x80) {c : Char} (h : b ∈ encodeChar c) :
    c = Char.ofNat b.toNat := by
  have hlt : b.toNat < 128 := UInt8.lt_iff_toNat_lt.1 hb
  have hne {n : Nat} (hn : 128 ≤ n % 256) : b ≠ n.toUInt8 := by
    rintro rfl
    rw [UInt8.toNat_ofNat'] at hlt
    omega
  unfold encodeChar at h
  by_cases hone : c.toNat < 0x80
  · rw [if_pos hone, List.mem_singleton] at h
    have hn : c.toNat.toUInt8.toNat = c.toNat := by
      rw [UInt8.toNat_ofNat']
      omega
    rw [h, hn, Char.ofNat_toNat]
  rw [if_neg hone] at h
  by_cases htwo : c.toNat < 0x800
  · rw [if_pos htwo] at h
    simp only [List.mem_cons, List.not_mem_nil, or_false] at h
    rcases h with h | h <;> exact absurd h (hne (by omega))
  rw [if_neg htwo] at h
  by_cases hthree : c.toNat < 0x10000
  · rw [if_pos hthree] at h
    simp only [List.mem_cons, List.not_mem_nil, or_false] at h
    rcases h with h | h | h <;> exact absurd h (hne (by omega))
  · have hlast : c.toNat < 0x110000 := by
      rcases c.valid with hlow | ⟨-, hhigh⟩
      · exact Nat.lt_trans hlow (by decide)
      · exact hhigh
    rw [if_neg hthree] at h
    simp only [List.mem_cons, List.not_mem_nil, or_false] at h
    rcases h with h | h | h | h <;> exact absurd h (hne (by omega))

/-- A byte of ASCII stands for its own character only. -/
theorem not_mem_encode {b : UInt8} (hb : b < 0x80) {text : List Char}
    (h : Char.ofNat b.toNat ∉ text) : b ∉ encode text := by
  intro hmem
  rw [encode, List.mem_flatMap] at hmem
  rcases hmem with ⟨c, hc, hbc⟩
  rw [eq_of_mem_encodeChar hb hbc] at hc
  exact h hc

theorem encodeChar_ne_nil (c : Char) : encodeChar c ≠ [] := by
  simp only [encodeChar]
  split
  · exact List.cons_ne_nil _ _
  · split
    · exact List.cons_ne_nil _ _
    · split <;> exact List.cons_ne_nil _ _

theorem encode_cons (c : Char) (text : List Char) :
    encode (c :: text) = encodeChar c ++ encode text :=
  List.flatMap_cons

/-- A text has no more characters than bytes. -/
theorem length_le_length_encode (text : List Char) : text.length ≤ (encode text).length := by
  induction text with
  | nil => exact Nat.zero_le _
  | cons c text ih =>
    have hpos := List.length_pos_iff.2 (encodeChar_ne_nil c)
    rw [encode_cons, List.length_append, List.length_cons]
    omega

end Utf8

end ConfIndent
