import VantiqMicro.CJsonString

/-! # The tokens of the JSON parser

The buffer is described by what has been read and what is left (`ParseBuffer.between`),
and each function on it by what it takes off the front of the rest. -/

namespace VantiqMicro.CJson
open CMem

/-! ## Where the parser is -/

namespace ParseBuffer

/-- The buffer when `p` has been read and `r` is left before the terminator. -/
def between (p r : Bytes) (depth : Nat) : ParseBuffer where
  content := p ++ (r ++ [0])
  length := p.length + (r.length + 1)
  offset := p.length
  depth := depth

variable {p r t : Bytes} {d i n : Nat} {c : UInt8}

theorem between_advance (p t r : Bytes) (d : Nat) :
    { between p (t ++ r) d with offset := p.length + t.length } = between (p ++ t) r d := by
  simp [between, Nat.add_assoc]

theorem between_advance_one (p : Bytes) (c : UInt8) (r : Bytes) (d : Nat) :
    { between p (c :: r) d with offset := p.length + 1 } = between (p ++ [c]) r d :=
  between_advance p [c] r d

theorem atOffset_between (p r : Bytes) (d i : Nat) :
    (between p r d).atOffset i = byteAt (r ++ [0]) i :=
  byteAt_append p (r ++ [0]) i

theorem canAccessAtIndex_between : (between p r d).canAccessAtIndex i = decide (i ≤ r.length) := by
  apply decide_eq_decide.mpr
  simp only [between]
  omega

theorem canRead_between : (between p r d).canRead n = decide (n ≤ r.length + 1) := by
  apply decide_eq_decide.mpr
  simp only [between]
  omega

/-- The next byte is compared, the terminator at the end. -/
theorem peekIs_between (p r : Bytes) (d : Nat) (hc : c ≠ 0) :
    (between p r d).peekIs c = .ok (decide (r.head? = some c)) := by
  rw [peekIs, canAccessAtIndex_between, if_pos (decide_eq_true (Nat.zero_le _)),
    atOffset_between]
  cases r with
  | nil => simp [byteAt, hc.symm]
  | cons c' r => simp [byteAt]

theorem startsWith_of {b : ParseBuffer} {q : Bytes} (hs : 0 ∉ t)
    (hb : b.content = q ++ (r ++ [0])) (hi : b.offset + i = q.length) :
    b.startsWith i t = .ok (t.isPrefixOf r) := by
  induction t generalizing q r i with
  | nil => rfl
  | cons c t ih =>
    obtain ⟨hc, ht⟩ := not_or.mp fun h => hs (List.mem_cons.mpr h)
    have hat : b.atOffset i = byteAt (r ++ [0]) 0 := by
      rw [atOffset, hb, hi]
      exact byteAt_append q (r ++ [0]) 0
    rw [startsWith, hat]
    cases r with
    | nil => simp [byteAt, hc]
    | cons c' r =>
      simp only [List.cons_append, byteAt_cons_zero, ok_bind, List.isPrefixOf]
      by_cases hcc : c' = c
      · have hb' : b.content = q ++ [c'] ++ (r ++ [0]) := by rw [hb]; simp
        have hi' : b.offset + (i + 1) = (q ++ [c']).length := by
          rw [List.length_append, ← hi, List.length_singleton, Nat.add_assoc]
        rw [if_pos hcc, ih ht hb' hi']
        simp [hcc]
      · rw [if_neg hcc]
        simp [Ne.symm hcc]

theorem startsWith_between (hs : 0 ∉ t) : (between p r d).startsWith 0 t = .ok (t.isPrefixOf r) :=
  startsWith_of hs rfl rfl

end ParseBuffer

open ParseBuffer

section Buffer
variable {p r : Bytes} {d : Nat}

/-- White space, to `buffer_skip_whitespace`. -/
def isBlank (c : UInt8) : Bool := c ≤ 32

theorem isBlank_iff {c : UInt8} : isBlank c = true ↔ c ≤ 32 := decide_eq_true_iff

/-- The loop stops behind the terminator where nothing else is left. -/
theorem skipSpaces_between (p r : Bytes) (d : Nat) :
    skipSpaces (between p r d) (r.length + 1) =
      .ok (if r.dropWhile isBlank = [] then
          { between (p ++ r) [] d with offset := p.length + (r.length + 1) }
        else between (p ++ r.takeWhile isBlank) (r.dropWhile isBlank) d) := by
  induction r generalizing p with
  | nil =>
    rw [skipSpaces, canAccessAtIndex_between, if_pos (decide_eq_true (Nat.zero_le _)),
      atOffset_between, List.nil_append, byteAt_cons_zero, ok_bind, if_pos (by decide)]
    simp [skipSpaces, between]
  | cons c r ih =>
    rw [skipSpaces, canAccessAtIndex_between, if_pos (decide_eq_true (Nat.zero_le _)),
      atOffset_between, List.cons_append, byteAt_cons_zero, ok_bind]
    by_cases hc : c ≤ 32
    · have hadvance : { between p (c :: r) d with offset := (between p (c :: r) d).offset + 1 } =
          between (p ++ [c]) r d := between_advance_one p c r d
      have hblank : isBlank c = true := isBlank_iff.mpr hc
      rw [if_pos hc, hadvance, List.length_cons, ih, List.dropWhile_cons_of_pos hblank,
        List.takeWhile_cons_of_pos hblank]
      simp [Nat.add_assoc, Nat.add_comm 1]
    · have hblank : ¬ isBlank c = true := fun h => hc (isBlank_iff.mp h)
      rw [if_neg hc, List.dropWhile_cons_of_neg hblank, List.takeWhile_cons_of_neg hblank]
      simp

/-- White space is skipped, and the terminator stays. -/
theorem bufferSkipWhitespace_between (p r : Bytes) (d : Nat) :
    bufferSkipWhitespace (between p r d) =
      .ok (between (p ++ r.takeWhile isBlank) (r.dropWhile isBlank) d) := by
  have hleft : (between p r d).length - (between p r d).offset = r.length + 1 := by
    simp only [between]
    omega
  rw [bufferSkipWhitespace, hleft, skipSpaces_between, ok_bind]
  by_cases h : r.dropWhile isBlank = []
  · have htake : r.takeWhile isBlank = r := by
      have := List.takeWhile_append_dropWhile (p := isBlank) (l := r)
      rwa [h, List.append_nil] at this
    rw [if_pos h, h, htake]
    simp [between, Nat.add_assoc]
  · rw [if_neg h]
    have hne : (between (p ++ r.takeWhile isBlank) (r.dropWhile isBlank) d).offset ≠
        (between (p ++ r.takeWhile isBlank) (r.dropWhile isBlank) d).length := by
      simp only [between]
      omega
    rw [if_neg hne]
    rfl

end Buffer

/-! ## Numbers -/

section Number
variable {D : Type} {fl : Floats D} {item : CJSON D} {p r : Bytes} {d : Nat}

/-- What of `r` is handed to `strtod`. -/
def numberPart (r : Bytes) : Bytes := (r.takeWhile isNumberChar).take 63

theorem length_numberPart_le (r : Bytes) : (numberPart r).length ≤ r.length := by
  rw [numberPart, List.length_take]
  exact Nat.le_trans (Nat.min_le_right ..) (List.takeWhile_prefix _).length_le

theorem copyNumber_of {b : ParseBuffer} {q : Bytes} {i n : Nat} (hb : b.content = q ++ (r ++ [0]))
    (hi : b.offset + i = q.length) (hlen : b.length = q.length + (r.length + 1)) :
    copyNumber b i n = .ok ((r.takeWhile isNumberChar).take n) := by
  induction n generalizing q r i with
  | zero => rfl
  | succ n ih =>
    have haccess : b.canAccessAtIndex i = true := by
      apply decide_eq_true
      omega
    have hat : b.atOffset i = byteAt (r ++ [0]) 0 := by
      rw [atOffset, hb, hi]
      exact byteAt_append q (r ++ [0]) 0
    rw [copyNumber, if_pos haccess, hat]
    cases r with
    | nil => rfl
    | cons c r =>
      rw [List.cons_append, byteAt_cons_zero, ok_bind]
      by_cases hc : isNumberChar c = true
      · have hb' : b.content = q ++ [c] ++ (r ++ [0]) := by rw [hb]; simp
        have hi' : b.offset + (i + 1) = (q ++ [c]).length := by
          rw [List.length_append, ← hi, List.length_singleton, Nat.add_assoc]
        have hlen' : b.length = (q ++ [c]).length + (r.length + 1) := by
          rw [hlen, List.length_append, List.length_cons, List.length_singleton]
          omega
        -- the decimal point is that of the "C" locale
        have hpoint : (if c = 46 then getDecimalPoint else c) = c := by
          split
          · rename_i h
            exact h.symm
          · rfl
        rw [if_pos hc, ih hb' hi' hlen', ok_bind, hpoint, List.takeWhile_cons_of_pos hc,
          List.take_succ_cons]
        rfl
      · rw [if_neg hc, List.takeWhile_cons_of_neg hc]
        rfl

theorem parseNumber_between (item : CJSON D) (p r : Bytes) (d : Nat) :
    parseNumber fl item (between p r d) =
      .ok (match fl.strtod (numberPart r) with
        | none => (none, between p r d)
        | some (x, n) => (some
            { item with valuedouble := x, valueint := saturate fl x, kind := .number },
            between (p ++ r.take n) (r.drop n) d)) := by
  rw [parseNumber, copyNumber_of (q := p) rfl rfl rfl, ok_bind]
  show (match fl.strtod (numberPart r) with | none => _ | some (_, _) => _) = _
  cases h : fl.strtod (numberPart r) with
  | none => rfl
  | some xn =>
    obtain ⟨x, n⟩ := xn
    have hn : n ≤ r.length :=
      Nat.le_trans (fl.strtod_le _ _ _ h).2 (length_numberPart_le r)
    have hadvance : { between p r d with offset := (between p r d).offset + n } =
        between (p ++ r.take n) (r.drop n) d := by
      have hsplit := between_advance p (r.take n) (r.drop n) d
      rwa [List.take_append_drop, List.length_take_of_le hn] at hsplit
    simp only [hadvance]
    rfl

end Number

/-! ## Strings -/

/-- A string the parser takes, and what its item holds: the text up to the first zero that
an escape has put there. -/
def StringToken (t s : Bytes) : Prop :=
  ∃ body v m, t = 34 :: (body ++ [34]) ∧ scan true body = some m ∧ Unescapes body v ∧
    s = v.takeWhile (· != 0)

section Strings
variable {D : Type} {item : CJSON D} {p r t t' s s' rest rest' : Bytes} {d : Nat}

/-- A string has one end and one meaning. -/
theorem StringToken.unique (h : StringToken t s) (h' : StringToken t' s')
    (heq : t ++ rest = t' ++ rest') : t = t' ∧ s = s' := by
  obtain ⟨body, v, m, rfl, hscan, hv, rfl⟩ := h
  obtain ⟨body', v', m', rfl, hscan', hv', rfl⟩ := h'
  simp only [List.cons_append, List.append_assoc, List.cons.injEq, true_and, List.nil_append] at heq
  obtain rfl := scan_unique (Option.ne_none_iff_exists'.mpr ⟨m, hscan⟩)
    (Option.ne_none_iff_exists'.mpr ⟨m', hscan'⟩) heq
  exact ⟨rfl, by rw [hv.unique hv']⟩

/-- **A string is parsed into a block it fits in, or refused.** -/
theorem parseString_between (item : CJSON D) (p r : Bytes) (d : Nat) :
    (∃ t rest s output, r = t ++ rest ∧ StringToken t s ∧ output.stringBytes = some s ∧
      parseString item (between p r d) =
        .ok (some { item with kind := .string, valuestring := some output },
          between (p ++ t) rest d)) ∨
    (∀ t rest s, r = t ++ rest → ¬ StringToken t s) ∧
      ∃ b, parseString item (between p r d) = .ok (none, b) ∧
        b.length = (between p r d).length := by
  rw [parseString, atOffset_between]
  match r with
  | [] =>
    refine Or.inr ⟨fun t rest s h => ?_, ?_⟩
    · rintro ⟨body, v, m, rfl, -⟩
      cases h
    · rw [List.nil_append, byteAt_cons_zero, ok_bind, if_pos (by decide)]
      exact ⟨_, rfl, rfl⟩
  | c :: r =>
    rw [List.cons_append, byteAt_cons_zero, ok_bind]
    by_cases hc : c ≠ 34
    · refine Or.inr ⟨fun t rest s h => ?_, ?_⟩
      · rintro ⟨body, v, m, rfl, -⟩
        cases h
        exact hc rfl
      · rw [if_pos hc]
        exact ⟨_, rfl, rfl⟩
    obtain rfl := not_not.mp hc
    have hfuel :
        (between p (34 :: r) d).length - (between p (34 :: r) d).offset = r.length + 2 := by
      simp only [between, List.length_cons]
      omega
    have hcontent : (between p (34 :: r) d).content = (p ++ [34]) ++ (r ++ [0]) := by
      simp [between]
    have hlength : (between p (34 :: r) d).length = (p ++ [34]).length + (r.length + 1) := by
      simp only [between, List.length_append, List.length_cons, List.length_nil]
      omega
    have hoffset : (between p (34 :: r) d).offset = p.length := rfl
    have hpointer : p.length + 1 = (p ++ [34]).length := by simp
    rw [if_neg hc, hfuel, hoffset, hpointer, hlength, hcontent]
    rcases findEnd_spec (q := p ++ [34]) (r := r) (k := 0) (n := r.length + 2)
      (Nat.lt_succ_self _) with ⟨body, rest, m, j, rfl, hscan, hj, hend⟩ | ⟨hnone, hend⟩
    · have hcontent' : (p ++ [34]) ++ (body ++ 34 :: rest ++ [0]) =
          (p ++ [34]) ++ (body ++ 34 :: (rest ++ [0])) := by simp
      have halloc : (p ++ [34]).length + body.length - p.length - (0 + j) + 1 = m + 2 := by
        rw [List.length_append, List.length_singleton]
        omega
      obtain ⟨result, hloop, hresult⟩ := unescapeLoop_spec (p ++ [34]) (r := rest ++ [0]) []
        (malloc (m + 2)) hscan (by simp)
        (by rw [List.length_append]; omega : body.length < (body ++ 34 :: rest).length + 2)
      rw [List.nil_append, List.length_nil, ← hcontent'] at hloop
      simp only [hend, ok_bind, halloc, hloop]
      rcases hresult with ⟨v, hv, hlen, rfl⟩ | ⟨hv, i, rfl⟩
      · have hstore : (cells v ++ (malloc (m + 2)).drop v.length).store v.length [some 0] =
            .ok (cells v ++ some 0 :: (malloc (m + 2)).drop (v.length + 1)) := by
          rw [← List.drop_drop]
          obtain ⟨x, spare, hspare⟩ := List.exists_cons_of_length_pos
            (by rwa [List.length_drop, Nat.sub_pos_iff_lt] :
              0 < ((malloc (m + 2)).drop v.length).length)
          have hcells : v.length = (cells v).length := by simp
          rw [hspare, hcells, store_append_zero, store_cons_zero]
          rfl
        refine Or.inl ⟨34 :: (body ++ [34]), rest, v.takeWhile (· != 0),
          cells v ++ some 0 :: (malloc (m + 2)).drop (v.length + 1), by simp,
          ⟨body, v, m, rfl, hscan, hv, rfl⟩, Block.stringBytes_cells_zero v _, ?_⟩
        simp only [List.nil_append, List.length_nil, Nat.zero_add, hstore, ok_bind]
        simp [between, Nat.add_assoc]
        omega
      · refine Or.inr ⟨?_, _, rfl, rfl⟩
        rintro t rest' s h ⟨body', v', m', rfl, hscan', hv', rfl⟩
        have heq : body ++ 34 :: rest = body' ++ 34 :: rest' := by simpa using h
        obtain rfl := scan_unique (Option.ne_none_iff_exists'.mpr ⟨m, hscan⟩)
          (Option.ne_none_iff_exists'.mpr ⟨m', hscan'⟩) heq
        exact hv v' hv'
    · refine Or.inr ⟨?_, ?_⟩
      · rintro t rest s h ⟨body, v, m, rfl, hscan, -⟩
        have heq : r = body ++ 34 :: rest := by simpa using h
        rw [hnone body rest heq] at hscan
        cases hscan
      · simp only [hend, ok_bind]
        exact ⟨_, rfl, rfl⟩

end Strings

/-! ## What follows a token -/

section Follow
variable {D : Type} {fl : Floats D} {r t rest : Bytes} {x : D} {n : Nat}

/-- No number goes on here. -/
def Follow (rest : Bytes) : Prop := ∀ c ∈ rest.head?, isNumberChar c = false

/-- A number the parser takes: it starts as `parse_value` expects, fits its buffer, and
`strtod` converts all of it. -/
def NumberToken (fl : Floats D) (t : Bytes) (x : D) : Prop :=
  (∃ c ∈ t.head?, c = 45 ∨ (48 ≤ c ∧ c ≤ 57)) ∧ (∀ c ∈ t, isNumberChar c = true) ∧
    t.length ≤ 63 ∧ fl.strtod t = some (x, t.length)

/-- The JSON of this parser: white space is every byte up to the blank, strings have the
escapes of `Unescapes`, and numbers are what `strtod` makes of them. -/
def accepted (fl : Floats D) : Tokens D where
  space c := c ≤ 32
  string := StringToken
  number := NumberToken fl

/-- What is converted is a number on its own, whatever goes on behind it. -/
theorem numberToken_take (hhead : ∃ c ∈ r.head?, c = 45 ∨ (48 ≤ c ∧ c ≤ 57))
    (hx : fl.strtod (numberPart r) = some (x, n)) : NumberToken fl (r.take n) x := by
  obtain ⟨hpos, hle⟩ := fl.strtod_le _ _ _ hx
  have htake := fl.strtod_take _ _ _ hx
  have hall : ∀ c ∈ numberPart r, isNumberChar c = true := fun c hc =>
    List.mem_takeWhile_imp (List.mem_of_mem_take hc)
  have hlen : (numberPart r).length ≤ 63 := by
    rw [numberPart, List.length_take]
    exact Nat.min_le_left ..
  obtain ⟨s, hs⟩ : numberPart r <+: r := (List.take_prefix _ _).trans (List.takeWhile_prefix _)
  generalize numberPart r = w at hle htake hall hlen hs
  subst hs
  have hlength : (w.take n).length = n := List.length_take_of_le hle
  rw [List.take_append_of_le_length hle]
  refine ⟨?_, fun c hc => hall c (List.mem_of_mem_take hc), by omega, by rw [htake, hlength]⟩
  obtain ⟨c, hc, hstart⟩ := hhead
  refine ⟨c, ?_, hstart⟩
  rw [List.head?_append_of_ne_nil _ (List.ne_nil_of_length_pos (by omega))] at hc
  rwa [List.head?_take, if_neg (Nat.ne_of_gt hpos)]

/-- What begins with a number is converted, more of it perhaps. -/
theorem strtod_numberPart (h : NumberToken fl t x) (rest : Bytes) :
    ∃ x' n, fl.strtod (numberPart (t ++ rest)) = some (x', n) := by
  obtain ⟨-, hall, hlen, hx⟩ := h
  have hpart : numberPart (t ++ rest) =
      t ++ (rest.takeWhile isNumberChar).take (63 - t.length) := by
    rw [numberPart, List.takeWhile_append_of_pos hall, List.take_append,
      List.take_of_length_le hlen]
  rw [hpart]
  exact fl.strtod_append _ _ _ _ hx

theorem numberPart_append (ht : ∀ c ∈ t, isNumberChar c = true) (hlen : t.length ≤ 63)
    (hfollow : Follow rest) : numberPart (t ++ rest) = t := by
  have hrest : rest.takeWhile isNumberChar = [] := by
    cases rest with
    | nil => rfl
    | cons c rest => rw [List.takeWhile_cons_of_neg (by rw [hfollow c rfl]; decide)]
  rw [numberPart, List.takeWhile_append_of_pos ht, hrest, List.append_nil,
    List.take_of_length_le hlen]

end Follow

section Blanks
variable {p r w x : Bytes} {d : Nat}

theorem blank_takeWhile {D : Type} (fl : Floats D) (r : Bytes) :
    Json.Blank (accepted fl) (r.takeWhile isBlank) := by
  intro c hc
  exact isBlank_iff.mp (List.mem_takeWhile_imp hc)

theorem isNumberChar_of_le {c : UInt8} (hc : c ≤ 32) : isNumberChar c = false := by
  have hlt : c < 43 := UInt8.lt_of_le_of_lt hc (by decide)
  rw [isNumberChar, decide_eq_false_iff_not]
  rintro (h | rfl | rfl | rfl | rfl | rfl)
  · exact absurd (UInt8.lt_of_le_of_lt h.1 hlt) (by decide)
  all_goals exact absurd hlt (by decide)

theorem follow_of_blank {D : Type} {fl : Floats D} (hw : Json.Blank (accepted fl) w)
    (hr : Follow r) : Follow (w ++ r) := by
  cases w with
  | nil => exact hr
  | cons c w =>
    intro c' hc'
    cases hc'
    exact isNumberChar_of_le (hw c List.mem_cons_self)

theorem follow_blank {D : Type} {fl : Floats D} (hw : Json.Blank (accepted fl) w) : Follow w := by
  have hnil : Follow [] := fun _ hc => by cases hc
  have hfollow : Follow (w ++ []) := follow_of_blank hw hnil
  rwa [List.append_nil] at hfollow

end Blanks

end VantiqMicro.CJson
