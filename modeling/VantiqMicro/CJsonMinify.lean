import VantiqMicro.CJsonRoundTrip

/-! # Minifying a text in place (`cjson.c`)

`cJSON_Minify` copies a text over itself without its white space and its comments; `json`
is where it reads and `into` where it writes.  What it makes of a text is `minified`, an
automaton that reads the text once; a comment or a string that does not end takes
the code over the terminator. -/

namespace VantiqMicro.CJson
open CMem

/-! ## The code -/

/-- The loop over a comment of several lines: where it stops. -/
def skipComment (b : Block) (json : Nat) : Nat → Except Fault Nat
  | 0 => return json
  | n + 1 => do
    let c ← b.byte json
    if c = 0 then
      return json
    if c = 42 then
      let d ← b.byte (json + 1)
      if d = 47 then
        return json
    skipComment b (json + 1) n

/-- The loop over a string literal. -/
def copyLiteral (b : Block) (json into : Nat) : Nat → Except Fault (Block × Nat × Nat)
  | 0 => return (b, json, into)
  | n + 1 => do
    let c ← b.byte json
    if c = 0 ∨ c = 34 then
      return (b, json, into)
    let b ← b.store into [some c]
    if c = 92 then
      let d ← b.byte (json + 1)
      let b ← b.store (into + 1) [some d]
      copyLiteral b (json + 2) (into + 2) n
    else
      copyLiteral b (json + 1) (into + 1) n

/-- The loop of `cJSON_Minify`; `n` bounds the steps. -/
def minifyLoop (b : Block) (json into : Nat) : Nat → Except Fault (Block × Nat)
  | 0 => return (b, into)
  | n + 1 => do
    let c ← b.byte json
    if c = 0 then
      return (b, into)
    if c = 32 ∨ c = 9 ∨ c = 13 ∨ c = 10 then
      minifyLoop b (json + 1) into n
    else if c = 47 then
      let d ← b.byte (json + 1)
      if d = 47 then
        let json ← b.skipWhile (fun c => c ≠ 0 ∧ c ≠ 10) json
        minifyLoop b json into n
      else if d = 42 then
        let json ← skipComment b json b.length
        minifyLoop b (json + 2) into n
      else
        let b ← b.store into [some c]
        minifyLoop b (json + 1) (into + 1) n
    else if c = 34 then
      let b ← b.store into [some c]
      let (b, json, into) ← copyLiteral b (json + 1) (into + 1) b.length
      let c ← b.byte json
      let b ← b.store into [some c]
      minifyLoop b (json + 1) (into + 1) n
    else
      let b ← b.store into [some c]
      minifyLoop b (json + 1) (into + 1) n

/-- `cJSON_Minify` of a pointer that is not `NULL`. -/
def cJSONMinify (json : Block) : Except Fault Block := do
  let (b, into) ← minifyLoop json 0 0 (json.length + 1)
  b.store into [some 0]

/-! ## What is left of a text -/

/-- What the next byte belongs to; `close` is the slash that ends a comment, `escaped` what
follows a backslash. -/
inductive Lexeme
  | text
  | line
  | comment
  | close
  | literal
  | escaped
deriving DecidableEq, Repr

/-- White space outside of strings. -/
def isSpace (c : UInt8) : Bool := c = 32 ∨ c = 9 ∨ c = 13 ∨ c = 10

theorem isSpace_iff {c : UInt8} : isSpace c = true ↔ c = 32 ∨ c = 9 ∨ c = 13 ∨ c = 10 :=
  decide_eq_true_iff

/-- The text without white space and comments; `none` if a comment or a string does not end.
The star of a comment's beginning may be that of its end. -/
def minified : Lexeme → Bytes → Option Bytes
  | .text, [] => some []
  | .line, [] => some []
  | _, [] => none
  | .text, c :: s =>
    if isSpace c then minified .text s
    else if c = 47 ∧ s.head? = some 47 then minified .line s
    else if c = 47 ∧ s.head? = some 42 then minified .comment s
    else (minified (if c = 34 then .literal else .text) s).map (c :: ·)
  | .line, c :: s => minified (if c = 10 then .text else .line) s
  | .comment, c :: s => minified (if c = 42 ∧ s.head? = some 47 then .close else .comment) s
  | .close, _ :: s => minified .text s
  | .literal, c :: s =>
    (minified (if c = 34 then .text else if c = 92 then .escaped else .literal) s).map (c :: ·)
  | .escaped, c :: s => (minified .literal s).map (c :: ·)

/-! ## The buffer -/

/-- The buffer while it is minified: what was written, what lies between the two pointers, what
is still to be read, and what lies behind the terminator. -/
def halfway (out : Bytes) (gap : Block) (s : Bytes) (extra : Block) : Block :=
  cells out ++ (gap ++ (cells s ++ some 0 :: extra))

section Halfway
variable {out s t : Bytes} {gap extra : Block} {c d : UInt8} {json n : Nat}

theorem halfway_skip (t : Bytes) :
    halfway out gap (t ++ s) extra = halfway out (gap ++ cells t) s extra := by
  simp [halfway]

theorem halfway_cons : halfway out gap (c :: s) extra = halfway out (gap ++ [some c]) s extra :=
  halfway_skip [c]

theorem length_halfway :
    (halfway out gap s extra).length = out.length + gap.length + s.length + 1 + extra.length := by
  simp only [halfway, List.length_append, length_cells, List.length_cons]
  omega

theorem byte_halfway_cons (hj : json = out.length + gap.length) :
    (halfway out gap (c :: s) extra).byte json = .ok c := by
  have hsplit : halfway out gap (c :: s) extra =
      (cells out ++ gap) ++ some c :: (cells s ++ some 0 :: extra) := by
    simp [halfway, cells_cons]
  have hlen : json = (cells out ++ gap).length := by simp [hj]
  rw [hsplit, hlen, Block.byte_append]

theorem byte_halfway_nil (hj : json = out.length + gap.length) :
    (halfway out gap [] extra).byte json = .ok 0 := by
  have hsplit : halfway out gap [] extra = (cells out ++ gap) ++ some 0 :: extra := by
    simp [halfway]
  have hlen : json = (cells out ++ gap).length := by simp [hj]
  rw [hsplit, hlen, Block.byte_append]

/-- The byte behind the terminator is not the text's. -/
theorem byte_halfway_end (hj : out.length + gap.length < json) :
    (halfway out gap [] []).byte json = .error .outOfBounds := by
  have hnone : (halfway out gap [] [])[json]? = none := by
    rw [List.getElem?_eq_none_iff, length_halfway]
    simp only [List.length_nil]
    omega
  rw [Block.byte, hnone]

theorem byte_halfway_next (hj : json = out.length + gap.length) :
    (halfway out gap (c :: s) extra).byte (json + 1) = .ok (s.headD 0) := by
  have hj' : json + 1 = out.length + (gap ++ [some c]).length := by
    rw [List.length_append, List.length_singleton, hj, Nat.add_assoc]
  rw [halfway_cons]
  cases s with
  | nil => exact byte_halfway_nil hj'
  | cons d s => exact byte_halfway_cons hj'

/-- `*into++ = *json++`. -/
theorem store_halfway (s : Bytes) (c : UInt8) (gap extra : Block) (hn : n = out.length) :
    ∃ gap' : Block, gap'.length = gap.length ∧ (halfway out gap (c :: s) extra).store n [some c] =
      .ok (halfway (out ++ [c]) gap' s extra) := by
  have hlen : n = (cells out).length := by rw [hn, length_cells]
  cases gap with
  | nil =>
    refine ⟨[], rfl, ?_⟩
    have hsplit : halfway out [] (c :: s) extra =
        cells out ++ some c :: (cells s ++ some 0 :: extra) := rfl
    rw [hsplit, hlen, Block.store_byte]
    simp [halfway, cells_cons]
  | cons x gap =>
    refine ⟨gap ++ [some c], by simp, ?_⟩
    have hsplit : halfway out (x :: gap) (c :: s) extra =
        cells out ++ x :: (gap ++ (cells (c :: s) ++ some 0 :: extra)) := rfl
    rw [hsplit, hlen, Block.store_byte]
    simp [halfway, cells_cons]

/-- The terminator is copied like a character. -/
theorem store_halfway_nil (gap extra : Block) (hn : n = out.length) :
    ∃ gap' : Block, gap'.length = gap.length ∧ (halfway out gap [] extra).store n [some 0] =
      .ok (cells out ++ some 0 :: (gap' ++ extra)) := by
  have hlen : n = (cells out).length := by rw [hn, length_cells]
  cases gap with
  | nil =>
    refine ⟨[], rfl, ?_⟩
    have hsplit : halfway out [] [] extra = cells out ++ some 0 :: extra := rfl
    rw [hsplit, hlen, Block.store_byte]
    rfl
  | cons x gap =>
    refine ⟨gap ++ [some 0], by simp, ?_⟩
    have hsplit : halfway out (x :: gap) [] extra =
        cells out ++ x :: (gap ++ some 0 :: extra) := rfl
    rw [hsplit, hlen, Block.store_byte]
    simp

theorem byte_terminated (hj : out.length + gap.length < json) :
    (cells out ++ some 0 :: (gap ++ [])).byte json = .error .outOfBounds := by
  have hnone : (cells out ++ some 0 :: (gap ++ []))[json]? = none := by
    rw [List.getElem?_eq_none_iff, List.append_nil, List.length_append, length_cells,
      List.length_cons]
    omega
  rw [Block.byte, hnone]

end Halfway

/-! ## The loops -/

section Loops
variable {out s : Bytes} {gap extra : Block} {json into n : Nat}

theorem skipComment_spec (extra : Block) (h0 : 0 ∉ s) (hj : json = out.length + gap.length)
    (hn : s.length < n) :
    (∃ l r, s = l ++ 42 :: 47 :: r ∧ minified .comment s = minified .text r ∧
      skipComment (halfway out gap s extra) json n = .ok (json + l.length)) ∨
    minified .comment s = none ∧
      skipComment (halfway out gap s extra) json n = .ok (json + s.length) := by
  induction s generalizing gap json n with
  | nil =>
    obtain ⟨n, rfl⟩ := Nat.exists_eq_add_of_lt hn
    refine Or.inr ⟨rfl, ?_⟩
    rw [skipComment, byte_halfway_nil hj, ok_bind]
    rfl
  | cons c s ih =>
    obtain ⟨n, rfl⟩ : ∃ m, n = m + 1 := ⟨n - 1, by omega⟩
    have hc : c ≠ 0 := fun h => h0 (h ▸ List.mem_cons_self)
    have hs : 0 ∉ s := fun h => h0 (List.mem_cons_of_mem _ h)
    have hlt : s.length < n := Nat.lt_of_succ_lt_succ hn
    by_cases hend : c = 42 ∧ s.head? = some 47
    · obtain ⟨rfl, hhead⟩ := hend
      obtain ⟨r, rfl⟩ := List.head?_eq_some_iff.mp hhead
      refine Or.inl ⟨[], r, rfl, ?_, ?_⟩
      · rw [minified, if_pos ⟨rfl, hhead⟩, minified]
      · rw [skipComment, byte_halfway_cons hj, ok_bind, if_neg hc, byte_halfway_next hj]
        rfl
    · have hgo : skipComment (halfway out gap (c :: s) extra) json (n + 1) =
          skipComment (halfway out (gap ++ [some c]) s extra) (json + 1) n := by
        rw [skipComment, byte_halfway_cons hj, ok_bind, if_neg hc, byte_halfway_next hj]
        by_cases hstar : c = 42
        · have hd : s.headD 0 ≠ 47 := by
            intro h
            cases s with
            | nil => cases h
            | cons d s => exact hend ⟨hstar, congrArg some h⟩
          rw [if_pos hstar, ok_bind, if_neg hd, halfway_cons]
        · rw [if_neg hstar, halfway_cons]
      have hj' : json + 1 = out.length + (gap ++ [some c]).length := by
        rw [List.length_append, List.length_singleton, hj, Nat.add_assoc]
      rw [hgo, minified, if_neg hend]
      rcases ih hs hj' hlt with ⟨l, r, rfl, hmin, hrun⟩ | ⟨hmin, hrun⟩
      · refine Or.inl ⟨c :: l, r, rfl, hmin, ?_⟩
        rw [hrun, List.length_cons]
        congr 1
        omega
      · refine Or.inr ⟨hmin, ?_⟩
        rw [hrun, List.length_cons]
        congr 1
        omega

/-- A literal is copied up to its closing quote; without one the code comes to the terminator, or
over it if that is behind a backslash. -/
theorem copyLiteral_spec : ∀ (s : Bytes) (extra : Block) {out : Bytes} {gap : Block}
    {json into n : Nat},
    0 ∉ s → json = out.length + gap.length → into = out.length → s.length < n →
    (∃ l r gap', s = l ++ 34 :: r ∧ gap'.length = gap.length ∧
      minified .literal s = (minified .text r).map (l ++ 34 :: ·) ∧
      copyLiteral (halfway out gap s extra) json into n =
        .ok (halfway (out ++ l) gap' (34 :: r) extra, json + l.length, into + l.length)) ∨
    minified .literal s = none ∧ (extra = [] →
      copyLiteral (halfway out gap s extra) json into n = .error .outOfBounds ∨
      ∃ gap', gap'.length = gap.length ∧ copyLiteral (halfway out gap s extra) json into n =
        .ok (halfway (out ++ s) gap' [] extra, json + s.length, into + s.length))
  | [], extra, out, gap, json, into, n, h0, hj, hi, hn => by
    obtain ⟨n, rfl⟩ := Nat.exists_eq_add_of_lt hn
    refine Or.inr ⟨rfl, fun _ => Or.inr ⟨gap, rfl, ?_⟩⟩
    rw [copyLiteral, byte_halfway_nil hj, ok_bind, List.append_nil]
    rfl
  | c :: s, extra, out, gap, json, into, n, h0, hj, hi, hn => by
    obtain ⟨n, rfl⟩ : ∃ m, n = m + 1 := ⟨n - 1, by omega⟩
    have hc : c ≠ 0 := fun h => h0 (h ▸ List.mem_cons_self)
    have hs : 0 ∉ s := fun h => h0 (List.mem_cons_of_mem _ h)
    have hlt : s.length < n := Nat.lt_of_succ_lt_succ hn
    rw [copyLiteral, byte_halfway_cons hj, ok_bind]
    by_cases hquote : c = 34
    · subst hquote
      refine Or.inl ⟨[], s, gap, rfl, rfl, rfl, ?_⟩
      rw [if_pos (Or.inr rfl), List.append_nil]
      rfl
    obtain ⟨gap₁, hgap₁, hstore⟩ := store_halfway s c gap extra hi
    have hj₁ : json + 1 = (out ++ [c]).length + gap₁.length := by
      rw [List.length_append, List.length_singleton, hgap₁, hj]
      omega
    have hi₁ : into + 1 = (out ++ [c]).length := by
      rw [List.length_append, List.length_singleton, hi]
    rw [if_neg (not_or.mpr ⟨hc, hquote⟩), hstore, ok_bind, minified, if_neg hquote]
    by_cases hslash : c = 92
    · rw [if_pos hslash, if_pos hslash]
      cases s with
      | nil =>
        refine Or.inr ⟨rfl, fun hextra => Or.inl ?_⟩
        subst hextra
        obtain ⟨gap₂, hgap₂, hstore₂⟩ := store_halfway_nil gap₁ [] hi₁
        rw [byte_halfway_nil hj₁, ok_bind, hstore₂, ok_bind]
        obtain ⟨n, rfl⟩ := Nat.exists_eq_add_of_lt hlt
        rw [copyLiteral, byte_terminated (by omega)]
        rfl
      | cons d s =>
        obtain ⟨gap₂, hgap₂, hstore₂⟩ := store_halfway s d gap₁ extra hi₁
        have hs' : 0 ∉ s := fun h => hs (List.mem_cons_of_mem _ h)
        have hj₂ : json + 2 = (out ++ [c] ++ [d]).length + gap₂.length := by
          rw [List.length_append, List.length_singleton, hgap₂]
          omega
        have hi₂ : into + 2 = (out ++ [c] ++ [d]).length := by
          rw [List.length_append, List.length_singleton, ← hi₁]
        rw [byte_halfway_cons hj₁, ok_bind, hstore₂, ok_bind, minified]
        rcases copyLiteral_spec s extra hs' hj₂ hi₂ (Nat.lt_of_succ_lt hlt) with
          ⟨l, r, gap', rfl, hgap', hmin, hrun⟩ | ⟨hmin, hrun⟩
        · refine Or.inl ⟨c :: d :: l, r, gap', rfl, by omega, ?_, ?_⟩
          · rw [hmin, Option.map_map, Option.map_map]
            rfl
          · rw [hrun, List.append_assoc, List.append_assoc]
            simp only [List.length_cons, List.cons_append, List.nil_append]
            congr 3 <;> omega
        · refine Or.inr ⟨by rw [hmin]; rfl, fun hextra => ?_⟩
          refine (hrun hextra).imp_right fun ⟨gap', hgap', hrun⟩ => ⟨gap', by omega, ?_⟩
          rw [hrun, List.append_assoc, List.append_assoc]
          simp only [List.length_cons, List.cons_append, List.nil_append]
          congr 3 <;> omega
    · rw [if_neg hslash, if_neg hslash]
      rcases copyLiteral_spec s extra hs hj₁ hi₁ hlt with
        ⟨l, r, gap', rfl, hgap', hmin, hrun⟩ | ⟨hmin, hrun⟩
      · refine Or.inl ⟨c :: l, r, gap', rfl, by omega, ?_, ?_⟩
        · rw [hmin, Option.map_map]
          rfl
        · rw [hrun, List.append_assoc]
          simp only [List.length_cons, List.cons_append, List.nil_append]
          congr 3 <;> omega
      · refine Or.inr ⟨by rw [hmin]; rfl, fun hextra => ?_⟩
        refine (hrun hextra).imp_right fun ⟨gap', hgap', hrun⟩ => ⟨gap', by omega, ?_⟩
        rw [hrun, List.append_assoc]
        simp only [List.length_cons, List.cons_append, List.nil_append]
        congr 3 <;> omega

end Loops

/-! ## The whole text -/

section Whole
variable {out s t : Bytes} {gap extra : Block} {json n : Nat}

theorem minified_line (s : Bytes) :
    minified .line s = minified .text (s.dropWhile (· != 10)) := by
  induction s with
  | nil => rfl
  | cons c s ih =>
    rw [minified]
    by_cases hc : c = 10
    · subst hc
      rw [List.dropWhile_cons_of_neg (by decide)]
      rfl
    · rw [if_neg hc, List.dropWhile_cons_of_pos (by simpa using hc), ih]

theorem skipWhile_line (h0 : 0 ∉ s) (hj : json = out.length + gap.length) :
    (halfway out gap s extra).skipWhile (fun c => c ≠ 0 ∧ c ≠ 10) json =
      .ok (json + (s.takeWhile (· != 10)).length) := by
  have hsplit : halfway out gap s extra = (cells out ++ gap) ++ (cells s ++ some 0 :: extra) := by
    simp [halfway]
  have hlen : json = (cells out ++ gap).length := by simp [hj]
  have htake : s.takeWhile (fun c => decide (c ≠ 0 ∧ c ≠ 10)) = s.takeWhile (· != 10) := by
    clear hsplit
    induction s with
    | nil => rfl
    | cons c s ih =>
      have hc : c ≠ 0 := fun h => h0 (h ▸ List.mem_cons_self)
      rw [List.takeWhile_cons, List.takeWhile_cons, ih fun h => h0 (List.mem_cons_of_mem _ h)]
      simp [hc]
  rw [hsplit, hlen, Block.skipWhile_cells (by decide), htake]

/-- Behind the terminator the loop finds nothing. -/
theorem minifyLoop_end (hj : out.length + gap.length < json) (hn : 0 < n) (into : Nat) :
    minifyLoop (halfway out gap [] []) json into n = .error .outOfBounds := by
  obtain ⟨n, rfl⟩ := Nat.exists_eq_add_of_lt hn
  rw [minifyLoop, byte_halfway_end hj]
  rfl

/-- What is left of the rest of a text is written behind `out`; where the automaton has no result,
the text is left. `room` is where it can be written. -/
def Leaves (out : Bytes) (room : Nat) (extra : Block) (o : Option Bytes)
    (run : Except Fault (Block × Nat)) : Prop :=
  match o with
  | some t => ∃ gap : Block, gap.length + t.length = room ∧
      run = .ok (halfway (out ++ t) gap [] extra, (out ++ t).length)
  | none => extra = [] → run = .error .outOfBounds

theorem Leaves.behind {l : Bytes} {room : Nat} {o : Option Bytes}
    {run : Except Fault (Block × Nat)} (h : Leaves (out ++ l) room extra o run) :
    Leaves out (room + l.length) extra (o.map (l ++ ·)) run := by
  cases o with
  | none => exact h
  | some t =>
    obtain ⟨gap, hgap, hrun⟩ := h
    rw [List.append_assoc] at hrun
    exact ⟨gap, by rw [List.length_append]; omega, hrun⟩

/-- A string literal, whose opening quote is next. -/
theorem literal_leaves (hlt : s.length < n) (h0 : 0 ∉ s) (hj : json = out.length + gap.length)
    (hnext : ∀ (out r : Bytes) (gap : Block) (json : Nat), r.length < n → 0 ∉ r →
      json = out.length + gap.length → Leaves out (gap.length + r.length) extra (minified .text r)
        (minifyLoop (halfway out gap r extra) json out.length n)) :
    Leaves out (gap.length + (34 :: s).length) extra ((minified .literal s).map (34 :: ·)) (do
      let b ← (halfway out gap (34 :: s) extra).store out.length [some 34]
      let (b, json, into) ← copyLiteral b (json + 1) (out.length + 1) b.length
      let c ← b.byte json
      let b ← b.store into [some c]
      minifyLoop b (json + 1) (into + 1) n) := by
  obtain ⟨gap₁, hgap₁, hstore⟩ := store_halfway s 34 gap extra
    (rfl : out.length = out.length)
  have hj₁ : json + 1 = (out ++ [34]).length + gap₁.length := by
    rw [List.length_append, List.length_singleton, hgap₁, hj]
    omega
  have hi₁ : out.length + 1 = (out ++ [34]).length := by
    rw [List.length_append, List.length_singleton]
  rw [hstore, ok_bind]
  rcases copyLiteral_spec s extra (n := (halfway (out ++ [34]) gap₁ s extra).length) h0 hj₁ hi₁
    (by rw [length_halfway]; omega) with ⟨l, r, gap₂, rfl, hgap₂, hmin, hrun⟩ | ⟨hmin, hrun⟩
  · have hj₂ : json + 1 + l.length = (out ++ [34] ++ l).length + gap₂.length := by
      rw [@List.length_append _ _ l, hgap₂, hj₁]
      omega
    have hi₂ : out.length + 1 + l.length = (out ++ [34] ++ l).length := by
      rw [@List.length_append _ _ l, ← hi₁]
    obtain ⟨gap₃, hgap₃, hstore₃⟩ := store_halfway r 34 gap₂ extra hi₂
    have hr : 0 ∉ r := fun h => h0 (by simp [h])
    have hroom : gap.length + (34 :: (l ++ 34 :: r)).length =
        gap₃.length + r.length + (34 :: (l ++ [34])).length := by
      simp only [List.length_cons, List.length_append, List.length_nil]
      omega
    have hlast := hnext (out ++ [34] ++ l ++ [34]) r gap₃ (json + 1 + l.length + 1)
      (Nat.lt_of_le_of_lt (by simp only [List.length_append, List.length_cons]; omega) hlt) hr
      (by rw [@List.length_append _ _ [34], List.length_singleton, hgap₃, hj₂]; omega)
    rw [@List.length_append _ _ [34], List.length_singleton, ← hi₂] at hlast
    rw [hrun, ok_bind, hmin, Option.map_map, hroom]
    simp only [byte_halfway_cons hj₂, ok_bind, hstore₃]
    have hout : out ++ [34] ++ l ++ [34] = out ++ 34 :: (l ++ [34]) := by simp
    rw [hout] at hlast
    have hleaves := hlast.behind
    have hfun : ((34 :: ·) ∘ fun t => l ++ 34 :: t : Bytes → Bytes) = (34 :: (l ++ [34]) ++ ·) := by
      funext t
      simp
    rw [hfun, hout]
    exact hleaves
  · rw [hmin]
    intro hextra
    subst hextra
    rcases hrun rfl with hrun | ⟨gap₂, hgap₂, hrun⟩
    · rw [hrun]
      rfl
    · have hj₂ : json + 1 + s.length = (out ++ [34] ++ s).length + gap₂.length := by
        rw [@List.length_append _ _ s, hgap₂, hj₁]
        omega
      have hi₂ : out.length + 1 + s.length = (out ++ [34] ++ s).length := by
        rw [@List.length_append _ _ s, ← hi₁]
      obtain ⟨gap₃, hgap₃, hstore₃⟩ := store_halfway_nil gap₂ [] hi₂
      rw [hrun, ok_bind]
      simp only [byte_halfway_nil hj₂, ok_bind, hstore₃]
      obtain ⟨n, rfl⟩ := Nat.exists_eq_add_of_lt (Nat.lt_of_le_of_lt (Nat.zero_le _) hlt)
      rw [minifyLoop, byte_terminated (by omega)]
      rfl

/-- The code does what the automaton does. -/
theorem minifyLoop_spec : ∀ (n : Nat) (out s : Bytes) (gap extra : Block) (json : Nat),
    s.length < n → 0 ∉ s → json = out.length + gap.length →
    Leaves out (gap.length + s.length) extra (minified .text s)
      (minifyLoop (halfway out gap s extra) json out.length n)
  | 0, _, _, _, _, _, hn, _, _ => absurd hn (Nat.not_lt_zero _)
  | n + 1, out, [], gap, extra, json, _, _, hj => by
    refine ⟨gap, rfl, ?_⟩
    rw [minifyLoop, byte_halfway_nil hj, ok_bind, List.append_nil]
    rfl
  | n + 1, out, c :: s, gap, extra, json, hn, h0, hj => by
    have hc : c ≠ 0 := fun h => h0 (h ▸ List.mem_cons_self)
    have hs : 0 ∉ s := fun h => h0 (List.mem_cons_of_mem _ h)
    have hlt : s.length < n := Nat.lt_of_succ_lt_succ hn
    have hroom : gap.length + (c :: s).length = gap.length + s.length + 1 := rfl
    -- the byte is skipped, or copied
    have hskip : ∀ {t r : Bytes}, c :: s = t ++ r → t ≠ [] →
        Leaves out (gap.length + (c :: s).length) extra (minified .text r)
          (minifyLoop (halfway out gap (c :: s) extra) (json + t.length) out.length n) := by
      intro t r hsplit ht
      have hlen : (c :: s).length = t.length + r.length := by rw [hsplit, List.length_append]
      have hpos := List.length_pos_of_ne_nil ht
      have hr : 0 ∉ r := fun h => h0 (hsplit ▸ List.mem_append_right t h)
      have h := minifyLoop_spec n out r (gap ++ cells t) extra (json + t.length)
        (by rw [List.length_cons] at hlen; omega) hr
        (by rw [List.length_append, length_cells, hj, Nat.add_assoc])
      rw [List.length_append, length_cells, Nat.add_assoc, ← hlen, ← halfway_skip, ← hsplit] at h
      exact h
    have hcopy : Leaves out (gap.length + (c :: s).length) extra
        ((minified .text s).map (c :: ·)) (do
          let b ← (halfway out gap (c :: s) extra).store out.length [some c]
          minifyLoop b (json + 1) (out.length + 1) n) := by
      obtain ⟨gap₁, hgap₁, hstore⟩ := store_halfway s c gap extra
        (rfl : out.length = out.length)
      have h := minifyLoop_spec n (out ++ [c]) s gap₁ extra (json + 1) hlt hs
        (by rw [List.length_append, List.length_singleton, hgap₁]; omega)
      rw [hgap₁, List.length_append, List.length_singleton] at h
      rw [hstore, ok_bind]
      exact h.behind
    rw [minifyLoop, byte_halfway_cons hj, ok_bind, if_neg hc, minified]
    by_cases hspace : c = 32 ∨ c = 9 ∨ c = 13 ∨ c = 10
    · rw [if_pos hspace, if_pos (isSpace_iff.mpr hspace)]
      exact hskip (t := [c]) rfl (List.cons_ne_nil _ _)
    rw [if_neg hspace, if_neg (isSpace_iff.not.mpr hspace)]
    by_cases hslash : c = 47
    · subst hslash
      rw [if_pos rfl, byte_halfway_next hj, ok_bind]
      by_cases hline : s.head? = some 47
      · have hd : s.headD 0 = 47 := by rw [List.headD_eq_head?_getD, hline]; rfl
        rw [if_pos hd, skipWhile_line h0 hj, ok_bind, if_pos ⟨rfl, hline⟩, minified_line]
        refine hskip ?_ (List.cons_ne_nil _ _)
        rw [List.takeWhile_cons_of_pos (by decide), List.cons_append,
          List.takeWhile_append_dropWhile]
      by_cases hcomment : s.head? = some 42
      · have hd : s.headD 0 = 42 := by rw [List.headD_eq_head?_getD, hcomment]; rfl
        have hfirst : minified .comment (47 :: s) = minified .comment s := rfl
        rw [hd, if_neg (show ¬ (42 : UInt8) = 47 by decide), if_pos (rfl : (42 : UInt8) = 42),
          if_neg (fun h => hline h.2), if_pos ⟨rfl, hcomment⟩, ← hfirst]
        rcases skipComment_spec extra (n := (halfway out gap (47 :: s) extra).length)
          h0 hj (by rw [length_halfway]; omega) with ⟨l, r, hsplit, hmin, hrun⟩ | ⟨hmin, hrun⟩
        · have h := hskip (t := l ++ [42, 47]) (r := r) (by simpa using hsplit) (by simp)
          rw [hrun, ok_bind, hmin]
          rwa [List.length_append, ← Nat.add_assoc] at h
        · rw [hrun, ok_bind, hmin]
          intro hextra
          subst hextra
          have hrest : halfway out gap (47 :: s) [] =
              halfway out (gap ++ cells (47 :: s)) [] [] := by
            rw [← halfway_skip, List.append_nil]
          rw [hrest]
          refine minifyLoop_end ?_ (Nat.lt_of_le_of_lt (Nat.zero_le _) hlt) _
          rw [List.length_append, length_cells, hj]
          omega
      have hd : s.headD 0 ≠ 47 ∧ s.headD 0 ≠ 42 := by
        cases s with
        | nil => decide
        | cons d s => exact ⟨fun h => hline (congrArg some h), fun h => hcomment (congrArg some h)⟩
      rw [if_neg hd.1, if_neg hd.2, if_neg (fun h => hline h.2), if_neg (fun h => hcomment h.2),
        if_neg (by decide)]
      exact hcopy
    rw [if_neg hslash, if_neg (fun h => hslash h.1), if_neg (fun h => hslash h.1)]
    by_cases hquote : c = 34
    · subst hquote
      rw [if_pos rfl, if_pos rfl]
      exact literal_leaves hlt hs hj fun out r gap json => minifyLoop_spec n out r gap extra json
    rw [if_neg hquote, if_neg hquote]
    exact hcopy

end Whole

section Buffer
variable {s t : Bytes}

/-- Nothing is left that was not in the text. -/
theorem minified_subset : ∀ {x : Lexeme} {s t : Bytes}, minified x s = some t → t ⊆ s
  | .text, [], _, h | .line, [], _, h => by
    cases h
    exact List.Subset.refl _
  | .comment, [], _, h | .close, [], _, h | .literal, [], _, h | .escaped, [], _, h => by cases h
  | .text, c :: s, t, h => by
    rw [minified] at h
    split_ifs at h
    · exact List.Subset.trans (minified_subset h) (List.subset_cons_self ..)
    · exact List.Subset.trans (minified_subset h) (List.subset_cons_self ..)
    · exact List.Subset.trans (minified_subset h) (List.subset_cons_self ..)
    all_goals
      obtain ⟨t, ht, rfl⟩ := Option.map_eq_some_iff.mp h
      exact List.cons_subset_cons c (minified_subset ht)
  | .line, c :: s, t, h | .comment, c :: s, t, h | .close, c :: s, t, h => by
    rw [minified] at h
    exact List.Subset.trans (minified_subset h) (List.subset_cons_self ..)
  | .literal, c :: s, t, h | .escaped, c :: s, t, h => by
    obtain ⟨t, ht, rfl⟩ := Option.map_eq_some_iff.mp h
    exact List.cons_subset_cons c (minified_subset ht)

theorem start_halfway (s : CString) (extra : Block) :
    s.toBlock ++ extra = halfway [] [] s.bytes extra := by
  simp [CString.toBlock, halfway]

theorem cJSONMinify_eq_ok {s : CString} (ht : minified .text s.bytes = some t) (extra : Block) :
    ∃ gap : Block, gap.length + t.length = s.length ∧
      cJSONMinify (s.toBlock ++ extra) = .ok (cells t ++ some 0 :: (gap ++ extra)) := by
  rw [cJSONMinify, start_halfway]
  have h := minifyLoop_spec ((halfway [] [] s.bytes extra).length + 1) [] s.bytes [] extra 0
    (by rw [length_halfway]; omega) s.nulFree rfl
  rw [ht] at h
  obtain ⟨gap, hgap, hrun⟩ := h
  obtain ⟨gap', hgap', hstore⟩ := store_halfway_nil gap extra (rfl : t.length = t.length)
  refine ⟨gap', by rw [hgap', hgap, CString.length, List.length_nil, Nat.zero_add], ?_⟩
  rw [List.nil_append] at hrun
  simp only [List.length_nil] at hrun
  rw [hrun, ok_bind]
  exact hstore

/-- **`cJSON_Minify` writes what is left of the text over it, and no further**; exactly when a
comment or a string does not end it leaves the text. -/
theorem cJSONMinify_spec (s : CString) :
    (∀ t extra, minified .text s.bytes = some t → ∃ gap : Block, gap.length + t.length = s.length ∧
      cJSONMinify (s.toBlock ++ extra) = .ok (cells t ++ some 0 :: (gap ++ extra))) ∧
      (cJSONMinify s.toBlock = .error .outOfBounds ↔ minified .text s.bytes = none) := by
  refine ⟨fun t extra ht => cJSONMinify_eq_ok ht extra, ?_⟩
  cases ht : minified .text s.bytes with
  | some t =>
    obtain ⟨gap, -, hrun⟩ := cJSONMinify_eq_ok ht []
    rw [List.append_nil] at hrun
    rw [hrun]
    exact ⟨fun h => (by cases h), fun h => (by cases h)⟩
  | none =>
    refine ⟨fun _ => rfl, fun _ => ?_⟩
    have hblock := start_halfway s []
    rw [List.append_nil] at hblock
    rw [cJSONMinify, hblock]
    have h := minifyLoop_spec ((halfway [] [] s.bytes []).length + 1) [] s.bytes [] [] 0
      (by rw [length_halfway]; omega) s.nulFree rfl
    rw [ht] at h
    simp only [List.length_nil] at h
    rw [h rfl]
    rfl

example : minified .text (ascii "[1, /*/ 2] // \"") = some (ascii "[1,2]") := by decide

end Buffer

/-! ## JSON stays JSON -/

section Compact
variable {D : Type} {t m w : Bytes}

/-- In front of anything `m` is left of `t`. -/
def Compacts (t m : Bytes) : Prop :=
  ∀ r, minified .text (t ++ r) = (minified .text r).map (m ++ ·)

theorem Compacts.nil : Compacts [] [] := fun r => by simp

theorem Compacts.append {t' m' : Bytes} (h : Compacts t m) (h' : Compacts t' m') :
    Compacts (t ++ t') (m ++ m') := by
  intro r
  rw [List.append_assoc, h, h', Option.map_map]
  congr 1
  funext s
  simp

theorem Compacts.blank (hw : ∀ c ∈ w, isSpace c = true) : Compacts w [] := by
  induction w with
  | nil => exact Compacts.nil
  | cons c w ih =>
    intro r
    rw [List.cons_append, minified, if_pos (hw c List.mem_cons_self)]
    exact ih (fun e he => hw e (List.mem_cons_of_mem _ he)) r

/-- What is neither white space nor begins a string or a comment. -/
def Plain (t : Bytes) : Prop := ∀ c ∈ t, isSpace c = false ∧ c ≠ 34 ∧ c ≠ 47

instance : DecidablePred Plain :=
  List.decidableBAll fun c => isSpace c = false ∧ c ≠ 34 ∧ c ≠ 47

theorem Compacts.plain (ht : Plain t) : Compacts t t := by
  induction t with
  | nil => exact Compacts.nil
  | cons c t ih =>
    intro r
    obtain ⟨hspace, hquote, hslash⟩ := ht c List.mem_cons_self
    rw [List.cons_append, minified, if_neg (by rw [hspace]; decide), if_neg fun h => hslash h.1,
      if_neg fun h => hslash h.1, if_neg hquote, ih fun e he => ht e (List.mem_cons_of_mem _ he),
      Option.map_map]
    rfl

theorem minified_literal : ∀ {body : Bytes} {a : Bool} {n : Nat}, scan a body = some n → ∀ r,
    minified (if a then .literal else .escaped) (body ++ 34 :: r) =
      (minified .text r).map (body ++ 34 :: ·)
  | [], true, _, _, r => rfl
  | [], false, _, h, _ => by cases h
  | c :: body, true, _, h, r => by
    rw [scan] at h
    by_cases hquote : c = 34
    · rw [if_pos hquote] at h
      cases h
    rw [if_neg hquote] at h
    rw [if_pos rfl, List.cons_append, minified, if_neg hquote]
    by_cases hslash : c = 92
    · rw [if_pos hslash] at h
      have hrest := minified_literal h r
      rw [if_neg (by decide)] at hrest
      rw [if_pos hslash, hrest, Option.map_map]
      rfl
    · rw [if_neg hslash] at h
      obtain ⟨m, hm, -⟩ := Option.map_eq_some_iff.mp h
      have hrest := minified_literal hm r
      rw [if_pos rfl] at hrest
      rw [if_neg hslash, hrest, Option.map_map]
      rfl
  | c :: body, false, _, h, r => by
    rw [scan] at h
    obtain ⟨m, hm, -⟩ := Option.map_eq_some_iff.mp h
    have hrest := minified_literal hm r
    rw [if_pos rfl] at hrest
    rw [if_neg (by decide), List.cons_append, minified, hrest, Option.map_map]
    rfl

theorem Compacts.literal {body : Bytes} {n : Nat} (h : scan true body = some n) :
    Compacts (34 :: (body ++ [34])) (34 :: (body ++ [34])) := by
  intro r
  have hrest := minified_literal h r
  rw [if_pos rfl] at hrest
  rw [List.cons_append, List.append_assoc, List.singleton_append, minified, if_neg (by decide),
    if_neg (by simp), if_neg (by simp), if_pos rfl, hrest, Option.map_map]
  congr 1
  funext s
  simp

/-- The standard's grammar without white space. -/
def compact (value : Bytes → D → Prop) : Tokens D :=
  { Tokens.rfc value with space := fun _ => False }

variable {value : Bytes → D → Prop}

theorem blank_compacts (hw : Json.Blank (.rfc value) w) : Compacts w [] := by
  refine Compacts.blank fun c hc => isSpace_iff.mpr ?_
  rcases hw c hc with rfl | rfl | rfl | rfl <;> decide

theorem plain_byte {c : UInt8} (hspace : isSpace c = false) (hquote : c ≠ 34) (hslash : c ≠ 47) :
    Compacts [c] [c] :=
  Compacts.plain fun _ he => List.mem_singleton.mp he ▸ ⟨hspace, hquote, hslash⟩

theorem plain_of_isNumberChar {c : UInt8} (hc : isNumberChar c = true) :
    isSpace c = false ∧ c ≠ 34 ∧ c ≠ 47 := by
  rw [isNumberChar, decide_eq_true_iff] at hc
  rcases hc with h | rfl | rfl | rfl | rfl | rfl
  · have hne : ∀ e < 48, c ≠ e := by
      rintro e he rfl
      exact absurd h.1 (UInt8.not_le.mpr he)
    refine ⟨?_, hne 34 (by decide), hne 47 (by decide)⟩
    rw [Bool.eq_false_iff, ne_eq, isSpace_iff]
    rintro (rfl | rfl | rfl | rfl)
    all_goals exact hne _ (by decide) rfl
  all_goals decide

theorem number_compacts (ht : Json.NumberText t) : Compacts t t :=
  Compacts.plain fun c hc => plain_of_isNumberChar ((numberText_chars ht).2 c hc)

theorem string_compacts {s : Bytes} (ht : (Tokens.rfc value).string t s) : Compacts t t := by
  obtain ⟨body, rfl, hbody⟩ := ht
  obtain ⟨-, n, hn⟩ := Unescapes.of_chars hbody
  exact Compacts.literal hn

mutual

/-- What is left of a text of the standard is the text of the same value without white space. -/
theorem Text.compacts : ∀ {v : Json D} {t : Bytes}, v.Text (.rfc value) t →
    ∃ m, Compacts t m ∧ v.Text (compact value) m
  | .null, _, ht => by
    subst ht
    exact ⟨_, Compacts.plain (by decide), rfl⟩
  | .bool b, _, ht => by
    subst ht
    refine ⟨_, Compacts.plain ?_, rfl⟩
    cases b <;> decide
  | .number d, t, ht => ⟨t, number_compacts ht.1, ht⟩
  | .string s, t, ht => ⟨t, string_compacts ht, ht⟩
  | .array vs, _, ⟨body, ht, hbody⟩ => by
    obtain ⟨m, hm, htext⟩ := Elements.compacts hbody
    subst ht
    exact ⟨91 :: m, (plain_byte rfl (by decide) (by decide)).append hm, m, rfl, htext⟩
  | .object ms, _, ⟨body, ht, hbody⟩ => by
    obtain ⟨m, hm, htext⟩ := Members.compacts hbody
    subst ht
    exact ⟨123 :: m, (plain_byte rfl (by decide) (by decide)).append hm, m, rfl, htext⟩

theorem Elements.compacts : ∀ {vs : List (Json D)} {t : Bytes},
    Json.Elements (.rfc value) vs t → ∃ m, Compacts t m ∧ Json.Elements (compact value) vs m
  | [], _, ⟨w, hw, ht⟩ => by
    subst ht
    exact ⟨[93], (blank_compacts hw).append (plain_byte rfl (by decide) (by decide)),
      [], Json.Blank.nil, rfl⟩
  | v :: vs, _, ⟨w, x, w', y, hw, hx, hw', ht, hy⟩ => by
    obtain ⟨m, hm, htext⟩ := Text.compacts hx
    subst ht
    have hfront := (((blank_compacts hw).append hm).append (blank_compacts hw'))
    rcases hy with ⟨hvs, rfl⟩ | ⟨hvs, body, rfl, hbody⟩
    · exact ⟨_, hfront.append (plain_byte rfl (by decide) (by decide)), [], m, [], [93],
        Json.Blank.nil, htext, Json.Blank.nil, rfl, Or.inl ⟨hvs, rfl⟩⟩
    · obtain ⟨ms, hms, htexts⟩ := Elements.compacts hbody
      exact ⟨_, hfront.append ((plain_byte rfl (by decide) (by decide)).append hms), [], m, [],
        44 :: ms, Json.Blank.nil, htext, Json.Blank.nil, rfl, Or.inr ⟨hvs, ms, rfl, htexts⟩⟩

theorem Members.compacts : ∀ {ms : List (Bytes × Json D)} {t : Bytes},
    Json.Members (.rfc value) ms t → ∃ m, Compacts t m ∧ Json.Members (compact value) ms m
  | [], _, ⟨w, hw, ht⟩ => by
    subst ht
    exact ⟨[125], (blank_compacts hw).append (plain_byte rfl (by decide) (by decide)),
      [], Json.Blank.nil, rfl⟩
  | (k, v) :: ms, _, ⟨w, key, w₁, w₂, x, w', y, hw, hkey, hw₁, hw₂, hx, hw', ht, hy⟩ => by
    obtain ⟨m, hm, htext⟩ := Text.compacts hx
    subst ht
    have hname := ((blank_compacts hw).append (string_compacts hkey)).append (blank_compacts hw₁)
    have hvalue := ((blank_compacts hw₂).append hm).append (blank_compacts hw')
    have hcolon : Compacts [58] [58] := plain_byte rfl (by decide) (by decide)
    rcases hy with ⟨hms, rfl⟩ | ⟨hms, body, rfl, hbody⟩
    · exact ⟨_, hname.append (hcolon.append (hvalue.append
          (plain_byte rfl (by decide) (by decide)))),
        [], key, [], [], m, [], [125], Json.Blank.nil, hkey, Json.Blank.nil, Json.Blank.nil, htext,
        Json.Blank.nil, by simp, Or.inl ⟨hms, rfl⟩⟩
    · obtain ⟨mt, hmt, htexts⟩ := Members.compacts hbody
      exact ⟨_, hname.append (hcolon.append (hvalue.append
          ((plain_byte rfl (by decide) (by decide)).append hmt))),
        [], key, [], [], m, [], 44 :: mt, Json.Blank.nil, hkey, Json.Blank.nil, Json.Blank.nil,
        htext, Json.Blank.nil, by simp, Or.inr ⟨hms, mt, rfl, htexts⟩⟩

end

/-- **`cJSON_Minify` keeps the value**: what it leaves of a text of the standard is the text of the
same value without white space. -/
theorem cJSONMinify_standard {s : CString} {v : Json D} {w' : Bytes} (hs : s.bytes = w ++ t ++ w')
    (hw : Json.Blank (.rfc value) w) (ht : v.Text (.rfc value) t)
    (hw' : Json.Blank (.rfc value) w') :
    ∃ b u, cJSONMinify s.toBlock = .ok b ∧ b.readString = .ok u ∧
      v.Text (compact value) u.bytes := by
  obtain ⟨m, hm, htext⟩ := Text.compacts ht
  have hall := ((blank_compacts hw).append hm).append (blank_compacts hw')
  have hmin := hall []
  simp only [minified, Option.map_some, List.append_nil, List.nil_append] at hmin
  rw [← hs] at hmin
  obtain ⟨gap, -, hrun⟩ := cJSONMinify_eq_ok hmin []
  have h0 : 0 ∉ m := fun h => s.nulFree (minified_subset hmin h)
  rw [List.append_nil] at hrun
  exact ⟨_, ⟨m, h0⟩, hrun, Block.readString_eq_ok.mpr (Block.stringBytes_cells_append h0 _), htext⟩

theorem cJSONMinify_standard_null : ∃ b u, cJSONMinify (lit " [null, true]").toBlock = .ok b ∧
    b.readString = .ok u ∧
    (Json.array [.null, .bool true]).Text (compact fun _ (_ : Unit) => False) u.bytes :=
  cJSONMinify_standard (w := [32]) (t := ascii "[null, true]")
    (show (lit " [null, true]").bytes = [32] ++ ascii "[null, true]" ++ [] from rfl)
    (by simp [Json.Blank, Tokens.rfc])
    ⟨_, rfl, [], ascii "null", [], ascii ", true]", Json.Blank.nil, rfl, Json.Blank.nil, rfl,
      Or.inr ⟨by simp, ascii " true]", rfl, [32], ascii "true", [], [93],
        by simp [Json.Blank, Tokens.rfc], rfl, Json.Blank.nil, rfl, Or.inl ⟨rfl, rfl⟩⟩⟩
    Json.Blank.nil

end Compact

/-! ## What is printed, minified -/

section Printed
variable {D : Type} {pr : Printing D}

theorem ifFormat_compacts {w : Bytes} (hw : ∀ c ∈ w, isSpace c = true) :
    Compacts (ifFormat true w) (ifFormat false w) := Compacts.blank hw

theorem tabs_compacts (n : Nat) : Compacts (ifFormat true (tabs n)) (ifFormat false (tabs n)) :=
  ifFormat_compacts fun _ hc => List.eq_of_mem_replicate hc ▸ rfl

theorem byte_compacts {c : UInt8} (hc : isSpace c = true) :
    Compacts (ifFormat true [c]) (ifFormat false [c]) :=
  ifFormat_compacts fun _ he => List.mem_singleton.mp he ▸ hc

theorem quoted_compacts (s : Bytes) : Compacts (quoted s) (quoted s) :=
  string_compacts (quoted_string printOneDigit.toFloats s)

mutual

/-- What is left of a formatted text is the unformatted one. -/
theorem Holds.compacts (h : Exact pr) : ∀ (v : Json D) (item : CJSON D) (depth : Nat) {t u : Bytes},
    Holds pr.toFloats v item → text pr true depth item = some t →
    text pr false depth item = some u → Compacts t u
  | .null, ⟨_, _, _, _, _, _, _, _⟩, _, _, _, hv, ht, hu => by
    cases hv
    cases ht
    cases hu
    exact Compacts.plain (by decide)
  | .bool b, ⟨_, _, _, _, _, _, _, _⟩, _, _, _, hv, ht, hu => by
    cases b <;> cases hv <;> cases ht <;> cases hu <;> exact Compacts.plain (by decide)
  | .number x, ⟨_, _, _, _, _, _, d, _⟩, _, _, _, hv, ht, hu => by
    cases hv.1
    cases ht
    cases hu
    cases hfinite : pr.notFinite d with
    | false => exact number_compacts (numberString_number h hfinite).1
    | true =>
      rw [numberString, if_pos hfinite]
      exact Compacts.plain (by decide)
  | .string s, ⟨_, _, _, _, _, _, _, _⟩, _, t, u, hv, ht, hu => by
    obtain ⟨hkind, b, hb, hs⟩ := hv
    cases hkind
    cases hb
    have htext : b.stringBytes.map quoted = some t := ht
    have hutext : b.stringBytes.map quoted = some u := hu
    rw [hs] at htext hutext
    cases htext
    cases hutext
    exact quoted_compacts s
  | .array vs, ⟨child, _, _, _, _, _, _, _⟩, depth, _, _, hv, ht, hu => by
    obtain ⟨hkind, hvs⟩ := hv
    cases hkind
    obtain ⟨ts, hts, ht⟩ := Option.bind_eq_some_iff.mp ht
    obtain ⟨us, hus, hu⟩ := Option.bind_eq_some_iff.mp hu
    cases ht
    cases hu
    exact (plain_byte rfl (by decide) (by decide)).append
      ((HoldsElements.compacts h vs child (depth + 1) hvs hts hus).append
        (plain_byte rfl (by decide) (by decide)))
  | .object ms, ⟨child, _, _, _, _, _, _, _⟩, depth, _, _, hv, ht, hu => by
    obtain ⟨hkind, hms⟩ := hv
    cases hkind
    obtain ⟨ts, hts, ht⟩ := Option.bind_eq_some_iff.mp ht
    obtain ⟨us, hus, hu⟩ := Option.bind_eq_some_iff.mp hu
    cases ht
    cases hu
    have hmembers := HoldsMembers.compacts h ms child (depth + 1) hms hts hus
    have hclose := plain_byte (c := 125) rfl (by decide) (by decide)
    exact (plain_byte rfl (by decide) (by decide)).append
      ((((byte_compacts rfl).append hmembers).append (tabs_compacts depth)).append hclose)

theorem HoldsElements.compacts (h : Exact pr) : ∀ (vs : List (Json D)) (items : List (CJSON D))
    (depth : Nat) {t u : Bytes}, HoldsElements pr.toFloats vs items →
    elementsText pr true depth items = some t → elementsText pr false depth items = some u →
    Compacts t u
  | [], _, _, _, _, hvs, ht, hu => by
    cases hvs
    cases ht
    cases hu
    exact Compacts.nil
  | v :: vs, _, depth, _, _, ⟨item, next, hitems, hv, hvs⟩, ht, hu => by
    subst hitems
    rw [elementsText] at ht hu
    obtain ⟨t, ht₁, ht⟩ := Option.bind_eq_some_iff.mp ht
    obtain ⟨u, hu₁, hu⟩ := Option.bind_eq_some_iff.mp hu
    have hfirst := Holds.compacts h v item depth hv ht₁ hu₁
    cases next with
    | nil =>
      cases ht
      cases hu
      exact hfirst
    | cons item' next =>
      obtain ⟨ts, hts, ht⟩ := Option.bind_eq_some_iff.mp ht
      obtain ⟨us, hus, hu⟩ := Option.bind_eq_some_iff.mp hu
      cases ht
      cases hu
      exact hfirst.append ((plain_byte rfl (by decide) (by decide)).append
        ((byte_compacts rfl).append
          (HoldsElements.compacts h vs (item' :: next) depth hvs hts hus)))

theorem HoldsMembers.compacts (h : Exact pr) : ∀ (ms : List (Bytes × Json D))
    (items : List (CJSON D)) (depth : Nat) {t u : Bytes}, HoldsMembers pr.toFloats ms items →
    membersText pr true depth items = some t → membersText pr false depth items = some u →
    Compacts t u
  | [], _, _, _, _, hms, ht, hu => by
    cases hms
    cases ht
    cases hu
    exact Compacts.nil
  | (k, v) :: ms, _, depth, _, _, ⟨item, next, b, hitems, hb, hk, hv, hms⟩, ht, hu => by
    subst hitems
    have hkey : stringText item.string = some (quoted k) := by
      rw [hb, stringText, hk, Option.map_some]
    rw [membersText, hkey] at ht hu
    obtain ⟨_, ⟨⟩, ht⟩ := Option.bind_eq_some_iff.mp ht
    obtain ⟨_, ⟨⟩, hu⟩ := Option.bind_eq_some_iff.mp hu
    obtain ⟨t, ht₁, ht⟩ := Option.bind_eq_some_iff.mp ht
    obtain ⟨u, hu₁, hu⟩ := Option.bind_eq_some_iff.mp hu
    obtain ⟨ts, hts, ht⟩ := Option.bind_eq_some_iff.mp ht
    obtain ⟨us, hus, hu⟩ := Option.bind_eq_some_iff.mp hu
    cases ht
    cases hu
    have hcomma : Compacts (if next.isEmpty then [] else [44])
        (if next.isEmpty then [] else [44]) := by
      split
      · exact Compacts.nil
      · exact plain_byte rfl (by decide) (by decide)
    exact ((tabs_compacts depth).append (quoted_compacts k)).append
      ((plain_byte (c := 58) rfl (by decide) (by decide)).append
        ((((byte_compacts rfl).append (Holds.compacts h v item depth hv ht₁ hu₁)).append
          (hcomma.append (byte_compacts rfl))).append
            (HoldsMembers.compacts h ms next depth hms hts hus)))

end

variable {v : Json D} {item : CJSON D}

/-- **What `cJSON_Print` prints is minified to what `cJSON_PrintUnformatted` prints.** -/
theorem minify_print (h : Exact pr) (hv : Holds pr.toFloats v item) {reallocate : Bool} {b : Block}
    (hb : cJSONPrint pr item reallocate = .ok (some b)) :
    ∃ b' u, cJSONMinify b = .ok b' ∧ b'.readString = .ok u ∧
      cJSONPrintUnformatted pr item reallocate = .ok (some u.toBlock) := by
  obtain ⟨t, ht, -⟩ := hv.text h true v item 0
  obtain ⟨u, hu, -⟩ := hv.text h false v item 0
  have h0 : 0 ∉ t := zero_not_mem_text true item 0 ht
  have h0u : 0 ∉ u := zero_not_mem_text false item 0 hu
  have hmin := Holds.compacts h v item 0 hv ht hu []
  simp only [minified, Option.map_some, List.append_nil] at hmin
  rw [cJSONPrint, print_eq pr hv.terminated, ht] at hb
  simp only at hb
  split at hb
  · rename_i hfits
    cases hb
    obtain ⟨gap, hgap, hrun⟩ := cJSONMinify_eq_ok (s := ⟨t, h0⟩) hmin []
    rw [List.append_nil, List.append_nil] at hrun
    have hlen : gap.length + u.length = t.length := hgap
    refine ⟨_, ⟨u, h0u⟩, hrun,
      Block.readString_eq_ok.mpr (Block.stringBytes_cells_append h0u _), ?_⟩
    rw [cJSONPrintUnformatted, print_eq pr hv.terminated, hu]
    simp only
    rw [if_pos (by omega)]
    rfl
  · cases hb

theorem minify_print_sevenAndInfinity : ∃ b' u,
    cJSONMinify (cells (ascii "[7, null]") ++ [some 0]) = .ok b' ∧ b'.readString = .ok u ∧
      cJSONPrintUnformatted printOneDigit sevenAndInfinity false = .ok (some u.toBlock) :=
  minify_print exact_printOneDigit holds_sevenAndInfinity print_sevenAndInfinity

end Printed

end VantiqMicro.CJson
