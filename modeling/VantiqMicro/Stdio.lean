import VantiqMicro.Block

/-! # Reading a text stream line by line

A stream opened for reading is the bytes it has left.  `fgets` hands out at most
one line and at most as much of it as its buffer holds, so a line that does not
fit comes back in pieces.  `pieces_cons` says how these pieces lie in the lines
of the stream, which is what a loop over `fgets` goes by. -/

namespace CMem

/-- The stream up to its first newline, which is included. -/
def uptoNewline : Bytes → Bytes
  | [] => []
  | c :: s => if c = 10 then [c] else c :: uptoNewline s

/-- The lines of a stream, each with its newline; the last may have none. -/
def lines : Bytes → List Bytes
  | [] => []
  | c :: s =>
    if c = 10 then [c] :: lines s
    else match lines s with
      | [] => [[c]]
      | l :: ls => (c :: l) :: ls

/-- A byte string cut after every `n` bytes. -/
def chunks (n : Nat) : Bytes → List Bytes
  | [] => []
  | c :: s => (c :: s.take (n - 1)) :: chunks n (s.drop (n - 1))
termination_by s => s.length
decreasing_by
  simp only [List.length_drop, List.length_cons]
  omega

/-- What successive reads of at most `n` bytes within a line hand out. -/
def pieces (n : Nat) (s : Bytes) : List Bytes := (lines s).flatMap (chunks n)

/-- `fgets(buffer, size, stream)`, with what is left of the stream; `none` at its
end, where the buffer is not touched. -/
def fgets (buffer : Block) (size : Nat) (stream : Bytes) :
    Except Fault (Option (Block × Bytes)) := do
  if stream = [] then
    return none
  let piece := uptoNewline (stream.take (size - 1))
  let buffer ← buffer.store 0 (cells piece ++ [some 0])
  return some (buffer, stream.drop piece.length)

/-! ## Lines -/

section Lines
variable {c : UInt8} {s l : Bytes} {n : Nat}

theorem uptoNewline_ne_nil (h : s ≠ []) : uptoNewline s ≠ [] := by
  obtain ⟨c, s, rfl⟩ := List.exists_cons_of_ne_nil h
  rw [uptoNewline]
  split <;> exact List.cons_ne_nil _ _

theorem uptoNewline_take (s : Bytes) (n : Nat) :
    uptoNewline (s.take n) = (uptoNewline s).take n := by
  induction s generalizing n with
  | nil => simp [uptoNewline]
  | cons c s ih =>
    cases n with
    | zero => simp [uptoNewline]
    | succ n =>
      rw [List.take_succ_cons, uptoNewline, uptoNewline]
      by_cases hc : c = 10
      · simp [hc]
      · rw [if_neg hc, if_neg hc, ih, List.take_succ_cons]

/-- What follows inside a line is the line from there on. -/
theorem uptoNewline_drop (h : n < (uptoNewline s).length) :
    uptoNewline (s.drop n) = (uptoNewline s).drop n := by
  induction n generalizing s with
  | zero => rfl
  | succ n ih =>
    cases s with
    | nil => simp [uptoNewline] at h
    | cons c s =>
      rw [uptoNewline] at h ⊢
      by_cases hc : c = 10
      · simp [hc] at h
      · rw [if_neg hc] at h ⊢
        exact ih (Nat.lt_of_succ_lt_succ h)

theorem lines_of_ne_nil (h : s ≠ []) :
    lines s = uptoNewline s :: lines (s.drop (uptoNewline s).length) := by
  induction s with
  | nil => exact absurd rfl h
  | cons c s ih =>
    rw [lines, uptoNewline]
    by_cases hc : c = 10
    · simp [hc]
    rw [if_neg hc, if_neg hc, List.length_cons, List.drop_succ_cons]
    by_cases hs : s = []
    · simp [hs, lines, uptoNewline]
    · rw [ih hs]

/-- A line read by itself is one line. -/
theorem lines_of_mem (h : l ∈ lines s) : lines l = [l] := by
  induction s generalizing l with
  | nil => simp [lines] at h
  | cons c s ih =>
    rw [lines] at h
    by_cases hc : c = 10
    · rw [if_pos hc] at h
      rcases List.mem_cons.mp h with rfl | h
      · simp [lines, hc]
      · exact ih h
    rw [if_neg hc] at h
    split at h
    · rw [List.mem_singleton.mp h]
      simp [lines, hc]
    · rename_i l₀ ls heq
      rcases List.mem_cons.mp h with rfl | h
      · have h₀ : lines l₀ = [l₀] := ih (heq ▸ List.mem_cons_self ..)
        rw [lines, if_neg hc, h₀]
      · exact ih (heq ▸ List.mem_cons_of_mem _ h)

theorem ne_nil_of_mem_lines (h : l ∈ lines s) : l ≠ [] := by
  rintro rfl
  cases lines_of_mem h

/-- Text up to its only newline is one line. -/
theorem lines_append_newline (h : 10 ∉ s) : lines (s ++ [10]) = [s ++ [10]] := by
  induction s with
  | nil => rfl
  | cons c s ih =>
    obtain ⟨hc, hs⟩ := not_or.mp fun hm => h (List.mem_cons.mpr hm)
    rw [List.cons_append, lines, if_neg (Ne.symm hc), ih hs]

theorem flatten_lines (s : Bytes) : (lines s).flatten = s := by
  induction s with
  | nil => rfl
  | cons c s ih =>
    rw [lines]
    split
    · rw [List.flatten_cons, ih]
      rfl
    · split
      · rename_i heq
        rw [heq] at ih
        simp [← ih]
      · rename_i heq
        rw [heq] at ih
        rw [← ih]
        rfl

end Lines

/-! ## Pieces -/

section Pieces
variable {s l : Bytes} {n : Nat}

theorem chunks_of_ne_nil (hn : 0 < n) (h : s ≠ []) :
    chunks n s = s.take n :: chunks n (s.drop n) := by
  obtain ⟨c, s, rfl⟩ := List.exists_cons_of_ne_nil h
  obtain ⟨n, rfl⟩ := Nat.exists_eq_succ_of_ne_zero (Nat.ne_of_gt hn)
  rw [chunks, Nat.succ_sub_one]
  rfl

/-- What fits is not cut. -/
theorem chunks_of_length_le (h : s ≠ []) (hs : s.length ≤ n) : chunks n s = [s] := by
  have hn : 0 < n := Nat.lt_of_lt_of_le (List.length_pos_iff.mpr h) hs
  rw [chunks_of_ne_nil hn h, List.take_of_length_le hs, List.drop_of_length_le hs, chunks]

/-- The first piece of a stream, and that the others are the pieces of what it
leaves. -/
theorem pieces_cons (hn : 0 < n) (h : s ≠ []) :
    pieces n s = uptoNewline (s.take n) ::
      pieces n (s.drop (uptoNewline (s.take n)).length) := by
  have hl : uptoNewline s ≠ [] := uptoNewline_ne_nil h
  rw [uptoNewline_take, pieces, lines_of_ne_nil h, List.flatMap_cons, chunks_of_ne_nil hn hl,
    List.cons_append]
  congr 1
  by_cases hle : (uptoNewline s).length ≤ n
  · rw [List.take_of_length_le hle, List.drop_of_length_le hle, chunks]
    rfl
  -- the line goes on: the next piece starts inside it
  have hlt : n < (uptoNewline s).length := by omega
  have hdrop : s.drop n ≠ [] := by
    intro hnil
    have := uptoNewline_drop hlt
    rw [hnil, uptoNewline, eq_comm, List.drop_eq_nil_iff] at this
    omega
  rw [List.length_take_of_le (Nat.le_of_lt hlt), pieces, lines_of_ne_nil hdrop,
    uptoNewline_drop hlt, List.flatMap_cons, List.drop_drop, List.length_drop,
    Nat.add_sub_cancel' (Nat.le_of_lt hlt)]

/-- When every line fits, the pieces are the lines. -/
theorem pieces_eq_lines (h : ∀ l ∈ lines s, l.length ≤ n) : pieces n s = lines s := by
  have hone : (lines s).flatMap (chunks n) = (lines s).flatMap fun l => [l] :=
    List.flatMap_congr fun l hl => chunks_of_length_le (ne_nil_of_mem_lines hl) (h l hl)
  rw [pieces, hone, List.flatMap_singleton']

theorem pieces_of_mem_lines (h : l ∈ lines s) : pieces n l = chunks n l := by
  rw [pieces, lines_of_mem h, List.flatMap_singleton]

end Pieces

/-! ## Reads -/

section Reads
variable {buffer b : Block} {s t : Bytes} {n : Nat}

/-- A read into a buffer of its size succeeds, and the buffer holds the piece and
a terminator. -/
theorem fgets_of_ne_nil (hb : buffer.length = n) (hn : 0 < n) (h : s ≠ []) :
    ∃ tail, fgets buffer n s =
        .ok (some (cells (uptoNewline (s.take (n - 1))) ++ some 0 :: tail,
          s.drop (uptoNewline (s.take (n - 1))).length)) ∧
      (cells (uptoNewline (s.take (n - 1))) ++ some 0 :: tail).length = n := by
  have hle : (uptoNewline (s.take (n - 1))).length ≤ n - 1 := by
    rw [uptoNewline_take]
    exact List.length_take_le ..
  generalize hp : uptoNewline (s.take (n - 1)) = piece at hle ⊢
  have hstore : buffer.store 0 (cells piece ++ [some 0]) =
      .ok (cells piece ++ some 0 :: buffer.drop (piece.length + 1)) := by
    refine Block.store_eq_ok.mpr ⟨?_, ?_⟩
    · simp only [List.length_append, length_cells, List.length_singleton]
      omega
    · simp
  refine ⟨buffer.drop (piece.length + 1), ?_, ?_⟩
  · rw [fgets, if_neg h, hp]
    show (buffer.store 0 (cells piece ++ [some 0]) >>= _) = _
    rw [hstore]
    rfl
  · simp only [List.length_append, length_cells, List.length_cons, List.length_drop]
    omega

/-- A read that is not at the end makes progress. -/
theorem length_lt_of_fgets (hn : 2 ≤ n) (h : fgets buffer n s = .ok (some (b, t))) :
    t.length < s.length := by
  rw [fgets] at h
  split at h
  · simp at h
  rename_i hs
  simp only [bind_eq_ok, pure_eq_ok, Except.ok.injEq, Option.some.injEq, Prod.mk.injEq] at h
  obtain ⟨b', -, -, rfl⟩ := h
  have hs' : s.take (n - 1) ≠ [] := by
    obtain ⟨c, s, rfl⟩ := List.exists_cons_of_ne_nil hs
    obtain ⟨k, hk⟩ : ∃ k, n - 1 = k + 1 := ⟨n - 2, by omega⟩
    rw [hk, List.take_succ_cons]
    exact List.cons_ne_nil _ _
  have hpos : 0 < (uptoNewline (s.take (n - 1))).length :=
    List.length_pos_iff.mpr (uptoNewline_ne_nil hs')
  have hspos : 0 < s.length := List.length_pos_iff.mpr hs
  rw [List.length_drop]
  omega

end Reads

end CMem
