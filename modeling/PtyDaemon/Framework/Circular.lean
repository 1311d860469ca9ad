import Mathlib.Data.List.DropRight

/-!
# Circular storage of a stream

A fixed number of cells keeps the last elements of a growing stream. New blocks are copied
in at a moving position, wrap around the end, or, when they are at least as long as the
storage, replace all of it and put the position back to zero. `Layout` is the relation
between the cells, the position and the stream that all three ways of writing keep.
-/

namespace Circular

variable {α : Type*}

/-- Copy `block` over the cells that start at index `i`. -/
def overwrite (cells : List α) (i : Nat) (block : List α) : List α :=
  cells.take i ++ block ++ cells.drop (i + block.length)

/-- The `n` cells that start at index `i`. -/
def slice (cells : List α) (i n : Nat) : List α := (cells.drop i).take n

@[simp] theorem overwrite_length {cells block : List α} {i : Nat}
    (h : i + block.length ≤ cells.length) : (overwrite cells i block).length = cells.length := by
  simp only [overwrite, List.length_append, List.length_take, List.length_drop]
  omega

/-- Cells outside the copied range keep their values. -/
theorem getElem?_overwrite {cells block : List α} {i j : Nat}
    (h : i + block.length ≤ cells.length) (hj : j < i ∨ i + block.length ≤ j) :
    (overwrite cells i block)[j]? = cells[j]? := by
  have hi : (cells.take i).length = i := by
    rw [List.length_take]
    omega
  rcases hj with hj | hj
  · rw [overwrite, List.append_assoc, List.getElem?_append_left (by omega),
      List.getElem?_take_of_lt hj]
  · rw [overwrite, List.getElem?_append_right (by simp only [List.length_append, hi]; omega)]
    simp only [List.length_append, hi, List.getElem?_drop]
    congr 1
    omega

/-- Slices agree when the cells they range over agree. -/
theorem slice_congr {cells cells' : List α} {i n : Nat}
    (h : ∀ j, i ≤ j → j < i + n → cells[j]? = cells'[j]?) :
    slice cells i n = slice cells' i n := by
  apply List.ext_getElem?
  intro j
  simp only [slice, List.getElem?_take, List.getElem?_drop]
  by_cases hj : j < n
  · simpa only [hj, if_true] using h (i + j) (by omega) (by omega)
  · simp only [hj, if_false]

theorem slice_length {cells : List α} {i n : Nat} (h : i + n ≤ cells.length) :
    (slice cells i n).length = n := by
  rw [slice, List.length_take, List.length_drop]
  omega

/-- The stored elements in stream order, `n` being the length of the stream so far. -/
def contents (cap pos n : Nat) (cells : List α) : List α :=
  if cap ≤ n then cells.drop pos ++ cells.take pos else cells.take pos

/-- The cells hold the end of the stream `S`, and its next element goes to index `pos`. -/
structure Layout (cap pos : Nat) (cells S : List α) : Prop where
  size : cells.length = cap
  bound : pos < cap ∨ (cap = 0 ∧ pos = 0)
  filling : S.length < cap → pos = S.length
  window : contents cap pos S.length cells = S.rtake cap

theorem rtake_of_length_le {S : List α} {n : Nat} (h : S.length ≤ n) : S.rtake n = S := by
  simp only [List.rtake, Nat.sub_eq_zero_of_le h, List.drop_zero]

/-- Only the last `n` elements matter for the last `n` of an extension. -/
theorem rtake_append (S T : List α) (n : Nat) : (S ++ T).rtake n = (S.rtake n ++ T).rtake n := by
  rcases Nat.le_total S.length n with h | h
  · rw [rtake_of_length_le h]
  · have hS : S.rtake n ++ T = (S ++ T).drop (S.length - n) := by
      rw [List.rtake, List.drop_append_of_le_length (by omega)]
    rw [hS, List.rtake, List.rtake, List.drop_drop]
    congr 1
    simp only [List.length_drop, List.length_append]
    omega

theorem rtake_append_right {S T : List α} {n : Nat} (h : n ≤ T.length) :
    (S ++ T).rtake n = T.rtake n := by
  simp only [List.rtake, List.length_append, List.drop_append]
  rw [List.drop_eq_nil_of_le (by omega), List.nil_append]
  congr 1
  omega

theorem Layout.empty (cap : Nat) (a : α) : Layout cap 0 (List.replicate cap a) [] where
  size := by simp
  bound := by omega
  filling := by simp
  window := by
    by_cases h : cap = 0
    · subst h
      simp [contents, List.rtake]
    · simp [contents, List.rtake, h]

/-- The stored elements before a write, cut at the position. -/
theorem Layout.parts {cap pos : Nat} {cells S : List α} (h : Layout cap pos cells S) :
    ∃ A B, cells = A ++ B ∧ A.length = pos ∧ B.length = cap - pos ∧
      ((S.length < cap ∧ A = S) ∨ (cap ≤ S.length ∧ S.rtake cap = B ++ A)) := by
  have hpos : pos ≤ cap := by
    rcases h.bound with hb | hb <;> omega
  refine ⟨cells.take pos, cells.drop pos, (List.take_append_drop _ _).symm, ?_, ?_, ?_⟩
  · rw [List.length_take, h.size]
    omega
  · rw [List.length_drop, h.size]
  · have hw := h.window
    rcases Nat.lt_or_ge S.length cap with hS | hS
    · rw [contents, if_neg (by omega), rtake_of_length_le (by omega)] at hw
      exact Or.inl ⟨hS, hw⟩
    · rw [contents, if_pos hS] at hw
      exact Or.inr ⟨hS, hw.symm⟩

/-- A block at least as long as the storage replaces all of it. -/
theorem Layout.push_over {cap pos : Nat} {cells S block : List α} (h : Layout cap pos cells S)
    (hb : cap ≤ block.length) :
    Layout cap 0 (overwrite cells 0 (block.drop (block.length - cap))) (S ++ block) := by
  have hlen : (block.drop (block.length - cap)).length = cap := by
    rw [List.length_drop]
    omega
  have hcells : overwrite cells 0 (block.drop (block.length - cap)) =
      block.drop (block.length - cap) := by
    have hrest : cells.drop (0 + cap) = [] := List.drop_eq_nil_of_le (by rw [h.size]; omega)
    rw [overwrite, List.take_zero, List.nil_append, hlen, hrest, List.append_nil]
  rw [hcells]
  refine ⟨hlen, by omega, ?_, ?_⟩
  · intro hS
    simp only [List.length_append] at hS
    omega
  · rw [contents, if_pos (by simp only [List.length_append]; omega), List.drop_zero, List.take_zero,
      List.append_nil, rtake_append_right hb]
    rfl

/-- A shorter block that does not pass the end of the storage. -/
theorem Layout.push_within {cap pos : Nat} {cells S block : List α} (h : Layout cap pos cells S)
    (hb : block.length < cap) (hfit : block.length ≤ cap - pos) :
    Layout cap ((pos + block.length) % cap) (overwrite cells pos block) (S ++ block) := by
  have hpos : pos < cap := by
    rcases h.bound with hp | hp <;> omega
  obtain ⟨A, B, hcells, hA, hB, hS⟩ := h.parts
  have hnew : overwrite cells pos block = A ++ block ++ B.drop block.length := by
    rw [overwrite, hcells, List.take_left' hA, ← hA, List.drop_append,
      List.drop_eq_nil_of_le (by omega), List.nil_append]
    congr 2
    omega
  have hsize : (overwrite cells pos block).length = cap := by
    rw [overwrite_length (by rw [h.size]; omega), h.size]
  refine ⟨hsize, Or.inl (Nat.mod_lt _ (by omega)), ?_, ?_⟩
  · intro hlt
    rw [List.length_append] at hlt ⊢
    rw [h.filling (by omega), Nat.mod_eq_of_lt hlt]
  · rw [hnew, rtake_append]
    rcases Nat.lt_or_eq_of_le (show pos + block.length ≤ cap by omega) with hlt | heq
    · -- the new position is just past the block
      rw [Nat.mod_eq_of_lt hlt]
      have htake : (A ++ block ++ B.drop block.length).take (pos + block.length) = A ++ block :=
        List.take_left' (by simp [hA])
      have hdrop : (A ++ block ++ B.drop block.length).drop (pos + block.length) =
          B.drop block.length := List.drop_left' (by simp [hA])
      rw [contents, htake, hdrop]
      rcases hS with ⟨hS, rfl⟩ | ⟨hS, hw⟩
      · have hsum : (A ++ block).length ≤ cap := by
          rw [List.length_append]
          omega
        rw [if_neg (by rw [List.length_append]; omega), rtake_of_length_le (Nat.le_of_lt hS),
          rtake_of_length_le hsum]
      · have hn : (B ++ (A ++ block)).length - cap = block.length := by
          simp only [List.length_append]
          omega
        rw [if_pos (by rw [List.length_append]; omega), hw, List.append_assoc, List.rtake, hn,
          List.drop_append_of_le_length (by omega)]
    · -- the block ends exactly at the end of the storage
      rw [heq, Nat.mod_self]
      have hBd : B.drop block.length = [] := List.drop_eq_nil_of_le (by omega)
      rw [hBd, contents, List.drop_zero, List.take_zero, List.append_nil, List.append_nil]
      have hsum : (A ++ block).length = cap := by
        rw [List.length_append]
        omega
      rcases hS with ⟨hS, rfl⟩ | ⟨hS, hw⟩
      · rw [if_pos (Nat.le_of_eq hsum.symm), rtake_of_length_le (Nat.le_of_lt hS),
          rtake_of_length_le (Nat.le_of_eq hsum)]
      · rw [if_pos (by rw [List.length_append]; omega), hw, List.append_assoc,
          rtake_append_right (Nat.le_of_eq hsum.symm), rtake_of_length_le (Nat.le_of_eq hsum)]

/-- A shorter block that passes the end and goes on at index zero. -/
theorem Layout.push_wrap {cap pos : Nat} {cells S block : List α} (h : Layout cap pos cells S)
    (hb : block.length < cap) (hwrap : cap - pos < block.length) :
    Layout cap ((pos + block.length) % cap)
      (overwrite (overwrite cells pos (block.take (cap - pos))) 0 (block.drop (cap - pos)))
      (S ++ block) := by
  have hpos : pos < cap := by
    rcases h.bound with hp | hp <;> omega
  obtain ⟨A, B, hcells, hA, hB, hS⟩ := h.parts
  have hmod : (pos + block.length) % cap = pos + block.length - cap := by
    rw [Nat.mod_eq_sub_mod (by omega), Nat.mod_eq_of_lt (by omega)]
  have hfirst : (block.take (cap - pos)).length = cap - pos := by
    rw [List.length_take]
    omega
  have hrest : (block.drop (cap - pos)).length = pos + block.length - cap := by
    rw [List.length_drop]
    omega
  have hinner : overwrite cells pos (block.take (cap - pos)) = A ++ block.take (cap - pos) := by
    rw [overwrite, hcells, List.take_left' hA, hfirst, List.drop_eq_nil_of_le, List.append_nil]
    simp only [List.length_append]
    omega
  have hnew : overwrite (overwrite cells pos (block.take (cap - pos))) 0 (block.drop (cap - pos)) =
      block.drop (cap - pos) ++ (A.drop (pos + block.length - cap) ++ block.take (cap - pos)) := by
    rw [hinner, overwrite, List.take_zero, List.nil_append, hrest, Nat.zero_add,
      List.drop_append_of_le_length (by omega)]
  have hsize : (overwrite (overwrite cells pos (block.take (cap - pos))) 0
      (block.drop (cap - pos))).length = cap := by
    rw [hnew]
    simp only [List.length_append, hrest, List.length_drop, hfirst]
    omega
  refine ⟨hsize, Or.inl (Nat.mod_lt _ (by omega)), ?_, ?_⟩
  · intro hlt
    rw [List.length_append] at hlt
    have hf := h.filling (by omega)
    omega
  · rw [hnew, hmod, contents, List.drop_left' hrest, List.take_left' hrest, List.append_assoc,
      List.take_append_drop, rtake_append]
    rcases hS with ⟨hS, rfl⟩ | ⟨hS, hw⟩
    · rw [if_pos (by rw [List.length_append]; omega), rtake_of_length_le (Nat.le_of_lt hS),
        List.rtake, List.length_append, hA, List.drop_append_of_le_length (by omega)]
    · have hn : (B ++ (A ++ block)).length - cap = B.length + (pos + block.length - cap) := by
        simp only [List.length_append]
        omega
      rw [if_pos (by rw [List.length_append]; omega), hw, List.append_assoc, List.rtake, hn,
        ← List.drop_drop, List.drop_left, List.drop_append_of_le_length (by omega)]

/-- The last `n` elements before the position, read without wrapping. -/
theorem Layout.slice_within {cap pos n : Nat} {cells S : List α} (h : Layout cap pos cells S)
    (hn : n ≤ pos) : slice cells (pos - n) n = S.rtake n := by
  have hpos : pos ≤ cap := by
    rcases h.bound with hp | hp <;> omega
  obtain ⟨A, B, hcells, hA, hB, hS⟩ := h.parts
  have hslice : slice cells (pos - n) n = A.rtake n := by
    rw [slice, hcells, List.drop_append_of_le_length (by omega), List.rtake, hA]
    exact List.take_left' (by rw [List.length_drop]; omega)
  rw [hslice]
  rcases hS with ⟨hS, rfl⟩ | ⟨hS, hw⟩
  · rfl
  · have hSn : S.rtake n = (S.rtake cap).rtake n := by
      simp only [List.rtake, List.length_drop, List.drop_drop]
      congr 1
      omega
    rw [hSn, hw, rtake_append_right (by omega)]

/-- The last `n` elements when they wrap around the end of the storage. -/
theorem Layout.slice_wrap {cap pos n : Nat} {cells S : List α} (h : Layout cap pos cells S)
    (hn : pos < n) (hcap : n ≤ cap) (hS : n ≤ S.length) :
    slice cells (cap - (n - pos)) (n - pos) ++ slice cells 0 pos = S.rtake n := by
  obtain ⟨A, B, hcells, hA, hB, hparts⟩ := h.parts
  rcases hparts with ⟨hlt, rfl⟩ | ⟨hge, hw⟩
  · omega
  · have hhead : slice cells 0 pos = A := by
      rw [slice, hcells, List.drop_zero, List.take_left' hA]
    have htail : slice cells (cap - (n - pos)) (n - pos) = B.rtake (n - pos) := by
      rw [slice, hcells, List.drop_append, List.drop_eq_nil_of_le (by omega), List.nil_append,
        List.take_of_length_le (by rw [List.length_drop]; omega), List.rtake]
      congr 1
      omega
    have hSn : S.rtake n = (S.rtake cap).rtake n := by
      simp only [List.rtake, List.length_drop, List.drop_drop]
      congr 1
      omega
    rw [hhead, htail, hSn, hw, List.rtake, List.rtake, List.length_append,
      List.drop_append_of_le_length (by omega)]
    congr 2
    omega

end Circular
