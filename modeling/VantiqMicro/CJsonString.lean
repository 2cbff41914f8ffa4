import VantiqMicro.CJson

/-! # Strings in the JSON parser

`parse_string` finds the closing quote in one loop, allocates for what that loop has
counted, and decodes in another.  The two disagree about what an escape is: to the first
it is a backslash and one more character, to the second `\u` takes four more, whatever
they are, so that a backslash among them can be paired with the character after it, the
closing quote included.  The output fits all the same (`unescapeLoop_spec`): what the
second loop stores is bounded by what the first has counted from any point on (`scan`). -/

namespace VantiqMicro.CJson
open CMem

section Bytes
variable {c : UInt8} {s t : Bytes} {i : Nat}

theorem byteAt_cons_zero : byteAt (c :: s) 0 = .ok c := rfl

theorem byteAt_cons_succ : byteAt (c :: s) (i + 1) = byteAt s i := by
  rw [byteAt, byteAt, List.getElem?_cons_succ]

theorem byteAt_append (s t : Bytes) (i : Nat) : byteAt (s ++ t) (s.length + i) = byteAt t i := by
  rw [byteAt, byteAt, List.getElem?_append_right (Nat.le_add_right ..), Nat.add_sub_cancel_left]

end Bytes

/-! ## Code points -/

section Utf8
variable {pre spare : Block} {n k : Nat}

/-- Storing behind a prefix leaves the prefix. -/
theorem store_append (pre b c : Block) (i : Nat) :
    (pre ++ b).store (pre.length + i) c = (b.store i c).map (pre ++ ·) := by
  rw [Block.store, Block.store, List.length_append, Nat.add_assoc]
  by_cases h : i + c.length ≤ b.length
  · rw [if_pos h, if_pos (Nat.add_le_add_left h _), Except.map, List.take_length_add_append,
      List.drop_length_add_append]
    simp
  · rw [if_neg h, if_neg fun hle => h (Nat.le_of_add_le_add_left hle)]
    rfl

theorem store_append_zero (pre b c : Block) :
    (pre ++ b).store pre.length c = (b.store 0 c).map (pre ++ ·) :=
  store_append pre b c 0

theorem store_cons_succ (a : Cell) (b c : Block) (i : Nat) :
    Block.store (a :: b) (i + 1) c = (b.store i c).map (a :: ·) := by
  rw [Nat.add_comm]
  exact store_append [a] b c i

theorem store_cons_zero (a c : Cell) (b : Block) : Block.store (a :: b) 0 [c] = .ok (c :: b) := by
  rw [Block.store, if_pos (by simp)]
  rfl

theorem continuation_eq (n : Nat) : continuation n = UInt8.ofNat (n % 64 + 0x80) := by
  have hbyte : ∀ r < 256, (r ||| 0x80) &&& 0xBF = r % 64 + 0x80 := by decide +kernel
  have hmask : (n ||| 0x80) &&& 0xBF = (n % 256 ||| 0x80) &&& 0xBF := by
    have h255 : (0xBF : Nat) = 0xFF &&& 0xBF := rfl
    have hlow : ∀ x : Nat, x &&& 0xFF = x % 256 := fun x => Nat.and_two_pow_sub_one_eq_mod x 8
    rw [h255, ← Nat.and_assoc, ← Nat.and_assoc, hlow, hlow,
      show (256 : Nat) = 2 ^ 8 from rfl, Nat.or_mod_two_pow, Nat.or_mod_two_pow, Nat.mod_mod]
  rw [continuation, hmask, hbyte _ (Nat.mod_lt _ (by decide)),
    Nat.mod_mod_of_dvd n (by decide : 64 ∣ 256)]

/-- The first byte of a sequence: the mark of its length over the bits left for the code
point. -/
theorem first_byte_eq {k mark x : Nat} (hmark : 2 ^ k ∣ mark) (hx : x < 2 ^ k)
    (hlt : x + mark < 2 ^ 8) : (x ||| mark) &&& 0xFF = x + mark := by
  obtain ⟨m, rfl⟩ := hmark
  have hor : x ||| 2 ^ k * m = x + 2 ^ k * m := by
    rw [Nat.or_comm, ← Nat.two_pow_add_eq_or_of_lt hx, Nat.add_comm]
  rw [hor]
  exact Nat.and_two_pow_sub_one_of_lt_two_pow hlt

theorem low_byte_eq : ∀ x < 0x80, x &&& 0x7F = x := by decide +kernel

theorem exists_cons_two {s : Block} (h : 2 ≤ s.length) : ∃ a b t, s = a :: b :: t := by
  obtain ⟨a, s, rfl⟩ := List.exists_cons_of_length_pos (Nat.zero_lt_of_lt h)
  obtain ⟨b, t, rfl⟩ := List.exists_cons_of_length_pos (Nat.lt_of_succ_lt_succ h)
  exact ⟨a, b, t, rfl⟩

theorem exists_cons_three {s : Block} (h : 3 ≤ s.length) : ∃ a b c t, s = a :: b :: c :: t := by
  obtain ⟨a, s, rfl⟩ := List.exists_cons_of_length_pos (Nat.zero_lt_of_lt h)
  obtain ⟨b, c, t, rfl⟩ := exists_cons_two (Nat.le_of_succ_le_succ h)
  exact ⟨a, b, c, t, rfl⟩

/-- The code point is stored as its UTF-8 bytes, if there is room for them. -/
theorem encodeUtf8_append (pre : Block) (hn : n ≤ 0x10FFFF)
    (hroom : (Json.utf8 n).length ≤ spare.length) :
    encodeUtf8 (pre ++ spare) pre.length n =
      .ok (some (pre ++ (cells (Json.utf8 n) ++ spare.drop (Json.utf8 n).length),
        (Json.utf8 n).length)) := by
  rw [encodeUtf8]
  by_cases h₁ : n < 0x80
  · rw [Json.utf8, if_pos h₁] at hroom ⊢
    obtain ⟨a, spare, rfl⟩ := List.exists_cons_of_length_pos hroom
    rw [if_pos h₁, store_append_zero, store_cons_zero, low_byte_eq n h₁]
    rfl
  rw [if_neg h₁]
  by_cases h₂ : n < 0x800
  · rw [Json.utf8, if_neg h₁, if_pos h₂] at hroom ⊢
    obtain ⟨a, b, spare, rfl⟩ := exists_cons_two hroom
    rw [if_pos h₂]
    simp only [encodeTail, continuation_eq, Nat.shiftRight_eq_div_pow, store_append,
      store_append_zero, store_cons_succ, store_cons_zero, Except.map, ok_bind, pure_eq_ok]
    rw [first_byte_eq (k := 5) (by decide) (by omega) (by omega)]
    rfl
  rw [if_neg h₂]
  by_cases h₃ : n < 0x10000
  · rw [Json.utf8, if_neg h₁, if_neg h₂, if_pos h₃] at hroom ⊢
    obtain ⟨a, b, c, spare, rfl⟩ := exists_cons_three hroom
    rw [if_pos h₃]
    simp only [encodeTail, continuation_eq, Nat.shiftRight_eq_div_pow, store_append,
      store_append_zero, store_cons_succ, store_cons_zero, Except.map, ok_bind, pure_eq_ok]
    have hdiv : n / 2 ^ 6 / 2 ^ 6 = n / 4096 := Nat.div_div_eq_div_mul n _ _
    rw [hdiv, first_byte_eq (k := 4) (by decide) (by omega) (by omega)]
    rfl
  · rw [Json.utf8, if_neg h₁, if_neg h₂, if_neg h₃] at hroom ⊢
    obtain ⟨a, s, rfl⟩ := List.exists_cons_of_length_pos (Nat.zero_lt_of_lt hroom)
    obtain ⟨b, c, d, spare, rfl⟩ := exists_cons_three (Nat.le_of_succ_le_succ hroom)
    rw [if_neg h₃, if_pos hn]
    simp only [encodeTail, continuation_eq, Nat.shiftRight_eq_div_pow, store_append,
      store_append_zero, store_cons_succ, store_cons_zero, Except.map, ok_bind, pure_eq_ok]
    have hdiv₂ : n / 2 ^ 6 / 2 ^ 6 = n / 4096 := Nat.div_div_eq_div_mul n _ _
    have hdiv₃ : n / 4096 / 2 ^ 6 = n / 262144 := Nat.div_div_eq_div_mul n _ _
    rw [hdiv₂, hdiv₃, first_byte_eq (k := 3) (by decide) (by omega) (by omega)]
    rfl

end Utf8

/-! ## Four digits -/

section Hex
variable {content s : Bytes} {a b c d : UInt8} {i : Nat}

/-- What `parse_hex4` makes of four characters. -/
def hexCode (a b c d : UInt8) : Nat :=
  match Percent.hexValue a, Percent.hexValue b, Percent.hexValue c, Percent.hexValue d with
  | some x, some y, some z, some w => ((x * 16 + y) * 16 + z) * 16 + w
  | _, _, _, _ => 0

theorem parseHex4_append (q s : Bytes) (a b c d : UInt8) (i : Nat) (hi : i = q.length) :
    parseHex4 (q ++ a :: b :: c :: d :: s) i = .ok (hexCode a b c d) := by
  have hat : ∀ k, byteAt (q ++ a :: b :: c :: d :: s) (i + k) =
      byteAt (a :: b :: c :: d :: s) k := by
    rw [hi]
    exact byteAt_append q _
  have hat₀ : byteAt (q ++ a :: b :: c :: d :: s) i = .ok a := hat 0
  rw [parseHex4]
  simp only [parseHex4.loop, Nat.add_assoc, hat, hat₀, byteAt_cons_zero, byteAt_cons_succ, ok_bind,
    hexCode, pure_eq_ok]
  cases Percent.hexValue a with
  | none => rfl
  | some x =>
    cases Percent.hexValue b with
    | none => rfl
    | some y =>
      cases Percent.hexValue c with
      | none => rfl
      | some z =>
        cases Percent.hexValue d with
        | none => rfl
        | some w =>
          simp [Nat.shiftLeft_eq]

/-- A digit is no quote and no backslash. -/
theorem ne_of_hexValue {x : Nat} (h : Percent.hexValue c = some x) : c ≠ 34 ∧ c ≠ 92 := by
  constructor <;> (rintro rfl; cases h)

theorem hexCode_digits (h : hexCode a b c d ≠ 0) : ∀ e ∈ [a, b, c, d], e ≠ 34 ∧ e ≠ 92 := by
  rw [hexCode] at h
  split at h
  · rename_i ha hb hc hd
    intro e he
    simp only [List.mem_cons, List.not_mem_nil, or_false] at he
    rcases he with rfl | rfl | rfl | rfl
    · exact ne_of_hexValue ha
    · exact ne_of_hexValue hb
    · exact ne_of_hexValue hc
    · exact ne_of_hexValue hd
  · exact absurd rfl h

theorem hexCode_lt (a b c d : UInt8) : hexCode a b c d < 0x10000 := by
  have hval : ∀ {e : UInt8} {x : Nat}, Percent.hexValue e = some x → x < 16 := by
    intro e x h
    rw [Percent.hexValue] at h
    split at h
    · rename_i hr
      have := UInt8.le_iff_toNat_le.mp hr.2
      have h57 : (57 : UInt8).toNat = 57 := rfl
      cases h
      omega
    · split at h
      · rename_i hr
        have := UInt8.le_iff_toNat_le.mp hr.2
        have h70 : (70 : UInt8).toNat = 70 := rfl
        cases h
        omega
      · split at h
        · rename_i hr
          have := UInt8.le_iff_toNat_le.mp hr.2
          have h102 : (102 : UInt8).toNat = 102 := rfl
          cases h
          omega
        · cases h
  rw [hexCode]
  split
  · rename_i ha hb hc hd
    have := hval ha
    have := hval hb
    have := hval hc
    have := hval hd
    omega
  · decide

end Hex

/-! ## What the two loops make of a string -/

section Scan
variable {s t v : Bytes} {m : Nat} {a : Bool}

/-- How many bytes the first loop counts from here to the closing quote.  `true` is at a
character or an escape, `false` behind a backslash. -/
def scan : Bool → Bytes → Option Nat
  | true, [] => some 0
  | false, [] => none
  | true, c :: s =>
    if c = 34 then none else if c = 92 then scan false s else (scan true s).map (· + 1)
  | false, _ :: s => (scan true s).map (· + 1)

theorem scan_plain {c : UInt8} (h : c ≠ 34 ∧ c ≠ 92) :
    scan true (c :: s) = (scan true s).map (· + 1) := by
  rw [scan, if_neg h.1, if_neg h.2]

/-- From wherever the second loop goes on, not more is counted. -/
theorem scan_cons {c : UInt8} (h : scan a (c :: s) = some m) :
    ∃ a' m', scan a' s = some m' ∧ m' ≤ m ∧ (a = false ∨ c ≠ 92 → m' + 1 ≤ m) := by
  cases a with
  | false =>
    rw [scan, Option.map_eq_some_iff] at h
    obtain ⟨m', hm', rfl⟩ := h
    exact ⟨true, m', hm', Nat.le_succ _, fun _ => Nat.le_refl _⟩
  | true =>
    rw [scan] at h
    split at h
    · cases h
    · split at h
      · rename_i hc
        exact ⟨false, m, h, Nat.le_refl _, fun hne => by simp [hc] at hne⟩
      · rw [Option.map_eq_some_iff] at h
        obtain ⟨m', hm', rfl⟩ := h
        exact ⟨true, m', hm', Nat.le_succ _, fun _ => Nat.le_refl _⟩

theorem scan_append (t : Bytes) (h : scan a (t ++ s) = some m) :
    ∃ a' m', scan a' s = some m' ∧ m' ≤ m := by
  induction t generalizing a m with
  | nil => exact ⟨a, m, h, Nat.le_refl _⟩
  | cons c t ih =>
    obtain ⟨a₁, m₁, h₁, hle, -⟩ := scan_cons h
    obtain ⟨a₂, m₂, h₂, hle₂⟩ := ih h₁
    exact ⟨a₂, m₂, h₂, Nat.le_trans hle₂ hle⟩

/-- A backslash and a character count for at least one byte. -/
theorem scan_escape {e : UInt8} (h : scan a (92 :: e :: s) = some m) :
    ∃ a' m', scan a' s = some m' ∧ m' + 1 ≤ m := by
  cases a with
  | true =>
    have h' : scan false (e :: s) = some m := h
    obtain ⟨a', m', hm', -, hlt⟩ := scan_cons h'
    exact ⟨a', m', hm', hlt (Or.inl rfl)⟩
  | false =>
    obtain ⟨a₁, m₁, h₁, -, hlt⟩ := scan_cons h
    obtain ⟨a₂, m₂, h₂, hle, -⟩ := scan_cons h₁
    exact ⟨a₂, m₂, h₂, Nat.le_trans (Nat.succ_le_succ hle) (hlt (Or.inl rfl))⟩

theorem scan_digits (ht : ∀ c ∈ t, c ≠ 34 ∧ c ≠ 92) :
    scan true (t ++ s) = (scan true s).map (· + t.length) := by
  induction t with
  | nil => simp
  | cons c t ih =>
    obtain ⟨hc, ht⟩ := List.forall_mem_cons.mp ht
    rw [List.cons_append, scan_plain hc, ih ht, Option.map_map]
    congr 1

/-- `\u` and four digits count for at least five bytes. -/
theorem scan_unit {t : Bytes} (ht : ∀ c ∈ t, c ≠ 34 ∧ c ≠ 92)
    (h : scan a (92 :: 117 :: (t ++ s)) = some m) :
    ∃ m', scan true s = some m' ∧ m' + t.length + 1 ≤ m := by
  have hu : scan true (117 :: (t ++ s)) = (scan true (t ++ s)).map (· + 1) :=
    scan_plain ⟨by decide, by decide⟩
  cases a with
  | true =>
    have h' : (scan true (t ++ s)).map (· + 1) = some m := h
    rw [scan_digits ht, Option.map_map, Option.map_eq_some_iff] at h'
    obtain ⟨m', hm', rfl⟩ := h'
    exact ⟨m', hm', Nat.le_refl _⟩
  | false =>
    rw [scan, hu, scan_digits ht, Option.map_map, Option.map_map, Option.map_eq_some_iff] at h
    obtain ⟨m', hm', rfl⟩ := h
    exact ⟨m', hm', Nat.le_succ _⟩

/-- The code point of a surrogate pair. -/
def ofSurrogates (first second : Nat) : Nat :=
  0x10000 + (first % 0x400 * 0x400 + second % 0x400)

theorem ofSurrogates_le (first second : Nat) : ofSurrogates first second ≤ 0x10FFFF := by
  have hfirst := Nat.mod_lt first (by decide : 0 < 0x400)
  have hsecond := Nat.mod_lt second (by decide : 0 < 0x400)
  rw [ofSurrogates]
  omega

/-- What the second loop decodes, up to the closing quote. -/
inductive Unescapes : Bytes → Bytes → Prop
  | nil : Unescapes [] []
  /-- The backslash is the last of the four characters of a `\u` that are none of its digits,
  and is read with the quote. -/
  | quote : Unescapes [92] [34]
  | plain {c : UInt8} {s v : Bytes} : c ≠ 92 → Unescapes s v → Unescapes (c :: s) (c :: v)
  | short {e c : UInt8} {s v : Bytes} : escapeChar e = some c → Unescapes s v →
      Unescapes (92 :: e :: s) (c :: v)
  | unit {a b c d : UInt8} {s v : Bytes} :
      ¬ (0xD800 ≤ hexCode a b c d ∧ hexCode a b c d ≤ 0xDFFF) → Unescapes s v →
      Unescapes (92 :: 117 :: a :: b :: c :: d :: s) (Json.utf8 (hexCode a b c d) ++ v)
  | pair {a b c d a' b' c' d' : UInt8} {s v : Bytes} :
      0xD800 ≤ hexCode a b c d → hexCode a b c d ≤ 0xDBFF →
      0xDC00 ≤ hexCode a' b' c' d' → hexCode a' b' c' d' ≤ 0xDFFF → Unescapes s v →
      Unescapes (92 :: 117 :: a :: b :: c :: d :: 92 :: 117 :: a' :: b' :: c' :: d' :: s)
        (Json.utf8 (ofSurrogates (hexCode a b c d) (hexCode a' b' c' d')) ++ v)

theorem scan_append_of (h : scan a s = some m) (t : Bytes) :
    scan a (s ++ t) = (scan true t).map (· + m) := by
  induction s generalizing a m with
  | nil =>
    cases a with
    | true => cases h; simp
    | false => cases h
  | cons c s ih =>
    cases a with
    | false =>
      rw [scan, Option.map_eq_some_iff] at h
      obtain ⟨m, hm, rfl⟩ := h
      rw [List.cons_append, scan, ih hm, Option.map_map]
      rfl
    | true =>
      rw [List.cons_append, scan]
      rw [scan] at h
      split at h
      · cases h
      · rename_i hquote
        rw [if_neg hquote]
        split at h
        · rename_i hescape
          rw [if_pos hescape, ih h]
        · rename_i hescape
          rw [Option.map_eq_some_iff] at h
          obtain ⟨m, hm, rfl⟩ := h
          rw [if_neg hescape, ih hm, Option.map_map]
          rfl

/-- There is one closing quote. -/
theorem scan_unique {s' r r' : Bytes} (hs : scan true s ≠ none) (hs' : scan true s' ≠ none)
    (h : s ++ 34 :: r = s' ++ 34 :: r') : s = s' := by
  -- a longer string would hold the quote of the other
  have hlonger : ∀ {s t : Bytes}, scan true s ≠ none → scan true (s ++ 34 :: t) ≠ none → False := by
    intro s t hs ht
    obtain ⟨m, hm⟩ := Option.ne_none_iff_exists'.mp hs
    rw [scan_append_of hm] at ht
    exact ht rfl
  rcases List.append_eq_append_iff.mp h with ⟨t, rfl, ht⟩ | ⟨t, rfl, ht⟩
  · cases t with
    | nil => simp
    | cons c t =>
      cases ht
      exact (hlonger hs hs').elim
  · cases t with
    | nil => simp
    | cons c t =>
      cases ht
      exact (hlonger hs' hs).elim

end Scan

section Literal
variable {s v : Bytes} {m : Nat} {a : Bool} {spare : Block}

theorem codepoint_eq (first second : Nat) :
    0x10000 + (((first &&& 0x3FF) <<< 10) ||| (second &&& 0x3FF)) = ofSurrogates first second := by
  have hlow : ∀ x : Nat, x &&& 0x3FF = x % 0x400 := fun x => Nat.and_two_pow_sub_one_eq_mod x 10
  rw [hlow, hlow, ← Nat.shiftLeft_add_eq_or_of_lt (Nat.mod_lt _ (by decide)), Nat.shiftLeft_eq,
    ofSurrogates]

/-- A `\u` decodes at most as the grammar of strings has it. -/
theorem Unescapes.of_unicode (h : Unescapes (92 :: 117 :: s) v) :
    (∃ a b c d s' v', s = a :: b :: c :: d :: s' ∧ v = Json.utf8 (hexCode a b c d) ++ v' ∧
      ¬ (0xD800 ≤ hexCode a b c d ∧ hexCode a b c d ≤ 0xDFFF) ∧ Unescapes s' v') ∨
    ∃ a b c d a' b' c' d' s' v',
      s = a :: b :: c :: d :: 92 :: 117 :: a' :: b' :: c' :: d' :: s' ∧
      v = Json.utf8 (ofSurrogates (hexCode a b c d) (hexCode a' b' c' d')) ++ v' ∧
      (0xD800 ≤ hexCode a b c d ∧ hexCode a b c d ≤ 0xDBFF) ∧
      (0xDC00 ≤ hexCode a' b' c' d' ∧ hexCode a' b' c' d' ≤ 0xDFFF) ∧ Unescapes s' v' := by
  cases h with
  | plain hc => exact absurd rfl hc
  | short he => cases he
  | unit hn hv => exact Or.inl ⟨_, _, _, _, _, _, rfl, rfl, hn, hv⟩
  | pair h₁ h₂ h₃ h₄ hv =>
    exact Or.inr ⟨_, _, _, _, _, _, _, _, _, _, rfl, rfl, ⟨h₁, h₂⟩, ⟨h₃, h₄⟩, hv⟩

/-- The second loop reads `t` as `u`, with `s` left of the string. -/
structure Literal (t u s : Bytes) : Prop where
  pos : 0 < t.length
  unescapes : ∀ v, Unescapes (t ++ s) v ↔ ∃ v', v = u ++ v' ∧ Unescapes s v'

theorem Literal.plain {c : UInt8} (hc : c ≠ 92) (s : Bytes) : Literal [c] [c] s where
  pos := by simp
  unescapes v := by
    constructor
    · intro h
      cases h with
      | quote | short | unit | pair => exact absurd rfl hc
      | plain _ hv => exact ⟨_, rfl, hv⟩
    · rintro ⟨v', rfl, hv⟩
      exact .plain hc hv

theorem Literal.short {e c : UInt8} (he : escapeChar e = some c) (s : Bytes) :
    Literal [92, e] [c] s where
  pos := by simp
  unescapes v := by
    constructor
    · intro h
      cases h with
      | plain hc => exact absurd rfl hc
      | short he' hv =>
        cases he.symm.trans he'
        exact ⟨_, rfl, hv⟩
      | unit | pair => cases he
    · rintro ⟨v', rfl, hv⟩
      exact .short he hv

theorem Literal.unit {a b c d : UInt8}
    (hn : ¬ (0xD800 ≤ hexCode a b c d ∧ hexCode a b c d ≤ 0xDFFF)) (s : Bytes) :
    Literal [92, 117, a, b, c, d] (Json.utf8 (hexCode a b c d)) s where
  pos := by simp
  unescapes v := by
    constructor
    · intro h
      rcases Unescapes.of_unicode h with ⟨_, _, _, _, _, v', heq, rfl, -, hv⟩ |
        ⟨_, _, _, _, _, _, _, _, _, _, heq, -, ⟨h₁, h₂⟩, -, -⟩
      · cases heq
        exact ⟨v', rfl, hv⟩
      · cases heq
        exact absurd ⟨h₁, Nat.le_trans h₂ (by decide)⟩ hn
    · rintro ⟨v', rfl, hv⟩
      exact .unit hn hv

theorem Literal.pair {a b c d a' b' c' d' : UInt8} (h₁ : 0xD800 ≤ hexCode a b c d)
    (h₂ : hexCode a b c d ≤ 0xDBFF) (h₃ : 0xDC00 ≤ hexCode a' b' c' d')
    (h₄ : hexCode a' b' c' d' ≤ 0xDFFF) (s : Bytes) :
    Literal [92, 117, a, b, c, d, 92, 117, a', b', c', d']
      (Json.utf8 (ofSurrogates (hexCode a b c d) (hexCode a' b' c' d'))) s where
  pos := by simp
  unescapes v := by
    constructor
    · intro h
      rcases Unescapes.of_unicode h with ⟨_, _, _, _, _, _, heq, -, hn, -⟩ |
        ⟨_, _, _, _, _, _, _, _, _, v', heq, rfl, -, -, hv⟩
      · cases heq
        exact absurd ⟨h₁, Nat.le_trans h₂ (by decide)⟩ hn
      · cases heq
        exact ⟨v', rfl, hv⟩
    · rintro ⟨v', rfl, hv⟩
      exact .pair h₁ h₂ h₃ h₄ hv

theorem Unescapes.unique {v' : Bytes} (h : Unescapes s v) (h' : Unescapes s v') : v = v' := by
  have hliteral : ∀ {t u s v v' : Bytes}, Literal t u s → (∀ {v'}, Unescapes s v' → v = v') →
      Unescapes (t ++ s) v' → u ++ v = v' := by
    intro t u s v v' hl ih h'
    obtain ⟨v'', rfl, hv⟩ := (hl.unescapes v').mp h'
    rw [ih hv]
  induction h generalizing v' with
  | nil => cases h'; rfl
  | quote =>
    cases h' with
    | quote => rfl
    | plain hc => exact absurd rfl hc
  | plain hc _ ih => exact hliteral (Literal.plain hc _) ih h'
  | short he _ ih => exact hliteral (Literal.short he _) ih h'
  | unit hn _ ih => exact hliteral (Literal.unit hn _) ih h'
  | pair h₁ h₂ h₃ h₄ _ ih => exact hliteral (Literal.pair h₁ h₂ h₃ h₄ _) ih h'

/-- At most four bytes are stored, and one for a `\u` without its digits. -/
theorem length_utf8_le (n : Nat) : (Json.utf8 n).length ≤ 4 := by
  rw [Json.utf8]
  repeat' split
  all_goals simp

theorem length_utf8_zero : (Json.utf8 0).length = 1 := rfl

theorem scan_unicode {e₁ e₂ e₃ e₄ : UInt8}
    (h : scan a (92 :: 117 :: e₁ :: e₂ :: e₃ :: e₄ :: s) = some m) :
    ∃ a' m', scan a' s = some m' ∧ m' + (Json.utf8 (hexCode e₁ e₂ e₃ e₄)).length ≤ m := by
  by_cases hzero : hexCode e₁ e₂ e₃ e₄ = 0
  · rw [hzero, length_utf8_zero]
    obtain ⟨a₁, m₁, h₁, hlt⟩ := scan_escape h
    obtain ⟨a₂, m₂, h₂, hle⟩ := scan_append [e₁, e₂, e₃, e₄] h₁
    exact ⟨a₂, m₂, h₂, Nat.le_trans (Nat.succ_le_succ hle) hlt⟩
  · obtain ⟨m', hm', hlt⟩ := scan_unit (t := [e₁, e₂, e₃, e₄]) (hexCode_digits hzero) h
    have hle := length_utf8_le (hexCode e₁ e₂ e₃ e₄)
    simp only [List.length_cons, List.length_nil] at hlt
    exact ⟨true, m', hm', by omega⟩

end Literal

section Literal
variable {s q r : Bytes} {m : Nat} {a : Bool} {pre spare : Block} {e₁ e₂ e₃ e₄ : UInt8}

/-- A surrogate that is not the first of a pair is refused. -/
theorem not_unescapes_of (h₁ : 0xD800 ≤ hexCode e₁ e₂ e₃ e₄) (h₂ : hexCode e₁ e₂ e₃ e₄ ≤ 0xDFFF)
    (hpair : ∀ a b c d s', s = 92 :: 117 :: a :: b :: c :: d :: s' →
      hexCode e₁ e₂ e₃ e₄ ≤ 0xDBFF → 0xDC00 ≤ hexCode a b c d → 0xDFFF < hexCode a b c d)
    (v : Bytes) : ¬ Unescapes (92 :: 117 :: e₁ :: e₂ :: e₃ :: e₄ :: s) v := by
  intro h
  rcases h.of_unicode with ⟨_, _, _, _, _, _, heq, -, hn, -⟩ |
    ⟨_, _, _, _, _, _, _, _, _, _, heq, -, hfirst, hsecond, -⟩
  · cases heq
    exact hn ⟨h₁, h₂⟩
  · cases heq
    exact absurd hsecond.2 (Nat.not_le.mpr (hpair _ _ _ _ _ rfl hfirst.2 hsecond.1))

/-- **A `\u` is decoded inside the output and the string, or refused.** -/
theorem utf16LiteralToUtf8_spec (q r : Bytes) (pre : Block)
    (hscan : scan a (92 :: 117 :: s) = some m) (hroom : m < spare.length) :
    (∃ t u s', 92 :: 117 :: s = t ++ s' ∧ Literal t u s' ∧
      (∃ a' m', scan a' s' = some m' ∧ m' + u.length ≤ m) ∧
      utf16LiteralToUtf8 (q ++ (92 :: 117 :: s ++ r)) q.length (q.length + (s.length + 2))
          (pre ++ spare) pre.length =
        .ok (some (pre ++ (cells u ++ spare.drop u.length), u.length, t.length))) ∨
    (∀ v, ¬ Unescapes (92 :: 117 :: s) v) ∧
      utf16LiteralToUtf8 (q ++ (92 :: 117 :: s ++ r)) q.length (q.length + (s.length + 2))
        (pre ++ spare) pre.length = .ok none := by
  rw [utf16LiteralToUtf8]
  match s, hscan with
  | [], _ | [_], _ | [_, _], _ | [_, _, _], _ =>
    refine Or.inr ⟨?_, by rw [if_pos (by simp)]; rfl⟩
    intro v h
    rcases h.of_unicode with ⟨_, _, _, _, _, _, heq, -⟩ |
      ⟨_, _, _, _, _, _, _, _, _, _, heq, -⟩ <;> cases heq
  | e₁ :: e₂ :: e₃ :: e₄ :: s, hscan =>
    have hfirst : parseHex4 (q ++ (92 :: 117 :: e₁ :: e₂ :: e₃ :: e₄ :: s ++ r)) (q.length + 2) =
        .ok (hexCode e₁ e₂ e₃ e₄) := by
      have hsplit : q ++ (92 :: 117 :: e₁ :: e₂ :: e₃ :: e₄ :: s ++ r) =
          (q ++ [92, 117]) ++ e₁ :: e₂ :: e₃ :: e₄ :: (s ++ r) := by simp
      rw [hsplit]
      exact parseHex4_append _ _ _ _ _ _ _ (by simp)
    rw [if_neg (by simp), hfirst]
    simp only [ok_bind]
    by_cases hlow : 0xDC00 ≤ hexCode e₁ e₂ e₃ e₄ ∧ hexCode e₁ e₂ e₃ e₄ ≤ 0xDFFF
    · refine Or.inr ⟨not_unescapes_of (Nat.le_trans (by decide) hlow.1) hlow.2 ?_, ?_⟩
      · intro _ _ _ _ _ _ hle
        exact absurd (Nat.le_trans hlow.1 hle) (by decide)
      · rw [if_pos hlow]
        rfl
    rw [if_neg hlow]
    by_cases hhigh : 0xD800 ≤ hexCode e₁ e₂ e₃ e₄ ∧ hexCode e₁ e₂ e₃ e₄ ≤ 0xDBFF
    · -- the second of the pair must follow
      have hrefused := fun h => not_unescapes_of (s := s) hhigh.1
        (Nat.le_trans hhigh.2 (by decide)) h
      rw [if_pos hhigh]
      match s, hscan with
      | [], _ | [_], _ | [_, _], _ | [_, _, _], _ | [_, _, _, _], _ | [_, _, _, _, _], _ =>
        refine Or.inr ⟨hrefused fun _ _ _ _ _ heq => ?_, ?_⟩
        · cases heq
        · rw [if_pos (by simp)]
          rfl
      | b₁ :: b₂ :: d₁ :: d₂ :: d₃ :: d₄ :: s, hscan =>
        have hsplit : q ++ (92 :: 117 :: e₁ :: e₂ :: e₃ :: e₄ :: b₁ :: b₂ :: d₁ :: d₂ :: d₃ :: d₄ ::
            s ++ r) = (q ++ [92, 117, e₁, e₂, e₃, e₄]) ++
              b₁ :: b₂ :: d₁ :: d₂ :: d₃ :: d₄ :: (s ++ r) := by simp
        have hsecond : parseHex4 ((q ++ [92, 117, e₁, e₂, e₃, e₄]) ++
            b₁ :: b₂ :: d₁ :: d₂ :: d₃ :: d₄ :: (s ++ r)) (q.length + 6 + 2) =
              .ok (hexCode d₁ d₂ d₃ d₄) := by
          have hsplit' : (q ++ [92, 117, e₁, e₂, e₃, e₄]) ++
              b₁ :: b₂ :: d₁ :: d₂ :: d₃ :: d₄ :: (s ++ r) =
                (q ++ [92, 117, e₁, e₂, e₃, e₄, b₁, b₂]) ++ d₁ :: d₂ :: d₃ :: d₄ :: (s ++ r) := by
            simp
          rw [hsplit']
          exact parseHex4_append _ _ _ _ _ _ _ (by simp)
        have hat : ∀ k, byteAt ((q ++ [92, 117, e₁, e₂, e₃, e₄]) ++
            b₁ :: b₂ :: d₁ :: d₂ :: d₃ :: d₄ :: (s ++ r)) (q.length + 6 + k) =
              byteAt (b₁ :: b₂ :: d₁ :: d₂ :: d₃ :: d₄ :: (s ++ r)) k := by
          intro k
          have := byteAt_append (q ++ [92, 117, e₁, e₂, e₃, e₄])
            (b₁ :: b₂ :: d₁ :: d₂ :: d₃ :: d₄ :: (s ++ r)) k
          simpa using this
        have hat₀ := hat 0
        rw [Nat.add_zero] at hat₀
        rw [if_neg (by simp only [List.length_cons]; omega), hsplit, hat₀, hat 1, hsecond,
          byteAt_cons_zero, byteAt_cons_succ, byteAt_cons_zero]
        simp only [ok_bind]
        by_cases hb₁ : b₁ ≠ 92
        · refine Or.inr ⟨hrefused fun _ _ _ _ _ heq => ?_, by rw [if_pos hb₁]; rfl⟩
          cases heq
          exact absurd rfl hb₁
        rw [if_neg hb₁]
        by_cases hb₂ : b₂ ≠ 117
        · refine Or.inr ⟨hrefused fun _ _ _ _ _ heq => ?_, by rw [if_pos hb₂]; rfl⟩
          cases heq
          exact absurd rfl hb₂
        rw [if_neg hb₂]
        by_cases hrange : hexCode d₁ d₂ d₃ d₄ < 0xDC00 ∨ 0xDFFF < hexCode d₁ d₂ d₃ d₄
        · refine Or.inr ⟨hrefused fun _ _ _ _ _ heq _ hge => ?_, by rw [if_pos hrange]; rfl⟩
          cases heq
          exact hrange.resolve_left (Nat.not_lt.mpr hge)
        obtain ⟨hge, hle⟩ := not_or.mp hrange
        obtain rfl := not_not.mp hb₁
        obtain rfl := not_not.mp hb₂
        obtain ⟨m₁, hm₁, hlt₁⟩ := scan_unit (t := [e₁, e₂, e₃, e₄])
          (hexCode_digits fun h => by rw [h] at hhigh; exact absurd hhigh.1 (by decide)) hscan
        obtain ⟨m₂, hm₂, hlt₂⟩ := scan_unit (t := [d₁, d₂, d₃, d₄])
          (hexCode_digits fun h => by rw [h] at hge; exact absurd (by decide) hge) hm₁
        simp only [List.length_cons, List.length_nil] at hlt₁ hlt₂
        have hutf8 := length_utf8_le (ofSurrogates (hexCode e₁ e₂ e₃ e₄) (hexCode d₁ d₂ d₃ d₄))
        refine Or.inl ⟨_, _, s, rfl, Literal.pair hhigh.1 hhigh.2 (Nat.not_lt.mp hge)
          (Nat.not_lt.mp hle) s, ⟨true, m₂, hm₂, by omega⟩, ?_⟩
        rw [if_neg hrange, codepoint_eq, encodeUtf8_append pre (ofSurrogates_le _ _) (by omega)]
        rfl
    · rw [if_neg hhigh, encodeUtf8_append pre
        (Nat.le_trans (Nat.le_of_lt (hexCode_lt ..)) (by decide))]
      · refine Or.inl ⟨_, _, s, rfl, Literal.unit ?_ s, scan_unicode hscan, rfl⟩
        intro h
        rcases Nat.lt_or_ge (hexCode e₁ e₂ e₃ e₄) 0xDC00 with hlt | hge
        · exact hhigh ⟨h.1, Nat.le_of_lt_succ hlt⟩
        · exact hlow ⟨hge, h.2⟩
      · obtain ⟨a', m', hm', hle⟩ := scan_unicode hscan
        exact Nat.le_of_lt (Nat.lt_of_le_of_lt (Nat.le_trans (Nat.le_add_left ..) hle) hroom)

end Literal

section Loop
variable {s q r : Bytes} {m n : Nat} {a : Bool} {pre spare : Block}

/-- What the second loop leaves of the output, from the end of `pre` on. -/
def Decoded (s : Bytes) (pre spare : Block) (result : Except Nat (Block × Nat)) : Prop :=
  (∃ v, Unescapes s v ∧ v.length < spare.length ∧
    result = .ok (pre ++ (cells v ++ spare.drop v.length), pre.length + v.length)) ∨
  (∀ v, ¬ Unescapes s v) ∧ ∃ i, result = .error i

theorem Decoded.literal {t u : Bytes} {result : Except Nat (Block × Nat)} (h : Literal t u s)
    (hresult : Decoded s (pre ++ cells u) (spare.drop u.length) result) :
    Decoded (t ++ s) pre spare result := by
  rcases hresult with ⟨v, hv, hlen, rfl⟩ | ⟨hv, hresult⟩
  · refine Or.inl ⟨u ++ v, (h.unescapes _).mpr ⟨v, rfl, hv⟩, ?_, ?_⟩
    · rw [List.length_drop] at hlen
      rw [List.length_append]
      omega
    · simp [Nat.add_assoc]
  · refine Or.inr ⟨fun v hsv => ?_, hresult⟩
    obtain ⟨v', -, hv'⟩ := (h.unescapes v).mp hsv
    exact hv v' hv'

variable (q pre spare) in
/-- **The second loop decodes inside the output, or refuses.** -/
theorem unescapeLoop_spec (hscan : scan a s = some m) (hroom : m < spare.length)
    (hn : s.length < n) :
    ∃ result, unescapeLoop (q ++ (s ++ 34 :: r)) (q.length + s.length) q.length (pre ++ spare)
      pre.length n = .ok result ∧ Decoded s pre spare result := by
  induction n generalizing s q m a pre spare with
  | zero => exact absurd hn (Nat.not_lt_zero _)
  | succ n ih =>
    -- after `t`, decoded as `u`
    have hstep : ∀ {t u s' : Bytes} {a' m'}, s = t ++ s' → Literal t u s' →
        scan a' s' = some m' → m' + u.length ≤ m →
        ∃ result, unescapeLoop (q ++ (s ++ 34 :: r)) (q.length + s.length) (q.length + t.length)
          (pre ++ (cells u ++ spare.drop u.length)) (pre.length + u.length) n = .ok result ∧
          Decoded s pre spare result := by
      rintro t u s' a' m' rfl hliteral hm' hle
      have hpos := hliteral.pos
      rw [List.length_append] at hn
      obtain ⟨result, hrun, hresult⟩ := ih (q ++ t) (pre ++ cells u)
        (spare.drop u.length) hm' (by rw [List.length_drop]; omega) (by omega)
      refine ⟨result, ?_, hresult.literal hliteral⟩
      simpa [Nat.add_assoc] using hrun
    have hspare : 0 < spare.length := Nat.zero_lt_of_lt hroom
    have hstore : ∀ c, (pre ++ spare).store pre.length [some c] =
        .ok (pre ++ (cells [c] ++ spare.drop 1)) := by
      intro c
      obtain ⟨x, spare, rfl⟩ := List.exists_cons_of_length_pos hspare
      rw [store_append_zero, store_cons_zero]
      rfl
    have hat : ∀ k, byteAt (q ++ (s ++ 34 :: r)) (q.length + k) = byteAt (s ++ 34 :: r) k :=
      byteAt_append q _
    have hat₀ : byteAt (q ++ (s ++ 34 :: r)) q.length = byteAt (s ++ 34 :: r) 0 := hat 0
    rw [unescapeLoop]
    match s, hscan, hn with
    | [], _, _ => exact ⟨_, if_pos (by simp), Or.inl ⟨[], .nil, hspare, by simp [cells]⟩⟩
    | c :: s, hscan, hn =>
      have hfirst : byteAt (q ++ (c :: s ++ 34 :: r)) q.length = .ok c := hat₀
      rw [if_neg (by simp), hfirst, ok_bind]
      by_cases hc : c ≠ 92
      · obtain ⟨a', m', hm', -, hlt⟩ := scan_cons hscan
        rw [if_pos hc, hstore, ok_bind]
        exact hstep rfl (Literal.plain hc s) hm' (hlt (Or.inr hc))
      obtain rfl := not_not.mp hc
      rw [if_neg hc]
      match s, hscan, hn with
      | [], hscan, hn =>
        -- the escape takes the quote, and the loop ends behind it
        cases a with
        | true => cases hscan
        | false =>
          cases hscan
          have hsecond : byteAt (q ++ ([92] ++ 34 :: r)) (q.length + 1) = .ok 34 := hat 1
          refine ⟨_, ?_, Or.inl ⟨[34], .quote, hroom, rfl⟩⟩
          rw [hsecond, ok_bind, if_neg (by decide)]
          simp only [show escapeChar 34 = some 34 from rfl, hstore, ok_bind]
          obtain ⟨n, rfl⟩ :=
            Nat.exists_eq_succ_of_ne_zero (Nat.ne_of_gt (Nat.lt_of_succ_lt_succ hn))
          rw [unescapeLoop, if_pos (by simp)]
          rfl
      | e :: s, hscan, hn =>
        have hsecond : byteAt (q ++ (92 :: e :: s ++ 34 :: r)) (q.length + 1) = .ok e := hat 1
        rw [hsecond, ok_bind]
        by_cases he : e = 117
        · subst he
          rw [if_pos rfl]
          rcases utf16LiteralToUtf8_spec q (34 :: r) pre hscan hroom with
            ⟨t, u, s', heq, hliteral, ⟨a', m', hm', hle⟩, hrun⟩ | ⟨hrefused, hrun⟩
          · rw [List.length_cons, List.length_cons, hrun, ok_bind]
            exact hstep heq hliteral hm' hle
          · rw [List.length_cons, List.length_cons, hrun, ok_bind]
            exact ⟨_, rfl, Or.inr ⟨hrefused, _, rfl⟩⟩
        rw [if_neg he]
        cases hchar : escapeChar e with
        | none =>
          refine ⟨_, rfl, Or.inr ⟨fun v h => ?_, _, rfl⟩⟩
          cases h with
          | plain hc => exact hc rfl
          | short he' => cases hchar.symm.trans he'
          | unit | pair => exact he rfl
        | some c =>
          obtain ⟨a', m', hm', hle⟩ := scan_escape hscan
          simp only [hstore, ok_bind]
          exact hstep rfl (Literal.short hchar s) hm' hle

end Loop

section FindEnd
variable {q r : Bytes} {k n : Nat}

/-- **The first loop finds the closing quote, or there is none.** -/
theorem findEnd_spec (hn : r.length + 1 < n) :
    (∃ body rest m j, r = body ++ 34 :: rest ∧ scan true body = some m ∧ m + j = body.length ∧
      findEnd (q ++ (r ++ [0])) (q.length + (r.length + 1)) q.length k n =
        .ok (some (q.length + body.length, k + j))) ∨
    (∀ body rest, r = body ++ 34 :: rest → scan true body = none) ∧
      findEnd (q ++ (r ++ [0])) (q.length + (r.length + 1)) q.length k n = .ok none := by
  induction n using Nat.strong_induction_on generalizing q r k with
  | _ n ih =>
  obtain ⟨n, rfl⟩ := Nat.exists_eq_succ_of_ne_zero (Nat.ne_of_gt (Nat.zero_lt_of_lt hn))
  have hat : ∀ i, byteAt (q ++ (r ++ [0])) (q.length + i) = byteAt (r ++ [0]) i :=
    byteAt_append q _
  have hat₀ : byteAt (q ++ (r ++ [0])) q.length = byteAt (r ++ [0]) 0 := hat 0
  rw [findEnd, if_neg (by omega), hat₀]
  match r, hn with
  | [], hn =>
    obtain ⟨n, rfl⟩ := Nat.exists_eq_succ_of_ne_zero (Nat.ne_of_gt (Nat.lt_of_succ_lt_succ hn))
    refine Or.inr ⟨fun body rest h => ?_, ?_⟩
    · cases body <;> cases h
    · rw [List.nil_append, byteAt_cons_zero, ok_bind, if_neg (by decide), if_neg (by decide),
        findEnd, if_pos (by simp)]
      rfl
  | c :: r, hn =>
    rw [List.cons_append, byteAt_cons_zero, ok_bind]
    by_cases hquote : c = 34
    · rw [if_pos hquote]
      exact Or.inl ⟨[], r, 0, 0, by rw [hquote]; rfl, rfl, rfl, rfl⟩
    rw [if_neg hquote]
    by_cases hescape : c = 92
    · subst hescape
      rw [if_pos rfl, if_neg (by rw [List.length_cons]; omega)]
      match r, hn with
      | [], hn =>
        obtain ⟨n, rfl⟩ := Nat.exists_eq_succ_of_ne_zero
          (Nat.ne_of_gt (Nat.lt_of_succ_lt (Nat.lt_of_succ_lt_succ hn)))
        refine Or.inr ⟨fun body rest h => ?_, ?_⟩
        · match body with
          | [] => cases h
          | [_] => cases h
          | _ :: _ :: _ => cases h
        · rw [findEnd, if_pos (by simp)]
          rfl
      | e :: r, hn =>
        have hlen : r.length + 1 < n := Nat.lt_of_succ_lt_succ (Nat.lt_of_succ_lt hn)
        have hadvance : findEnd (q ++ (92 :: e :: r ++ [0]))
            (q.length + ((92 :: e :: r).length + 1)) (q.length + 2) (k + 1) n =
              findEnd ((q ++ [92, e]) ++ (r ++ [0])) ((q ++ [92, e]).length + (r.length + 1))
                (q ++ [92, e]).length (k + 1) n := by
          congr 1
          · simp
          · simp only [List.length_append, List.length_cons, List.length_nil]
            omega
          · simp
        rw [← List.cons_append, hadvance]
        rcases ih n (Nat.lt_succ_self n) (q := q ++ [92, e]) (k := k + 1) hlen with
          ⟨body, rest, m, j, rfl, hscan, hj, hrun⟩ | ⟨hnone, hrun⟩
        · refine Or.inl ⟨92 :: e :: body, rest, m + 1, j + 1, rfl, ?_, ?_, ?_⟩
          · show (scan true body).map (· + 1) = some (m + 1)
            rw [hscan]
            rfl
          · rw [List.length_cons, List.length_cons]
            omega
          · rw [hrun, List.length_append, List.length_cons, List.length_cons, List.length_cons,
              List.length_cons, List.length_nil, Nat.add_right_comm q.length]
            simp [Nat.add_assoc, Nat.add_comm 1]
        · refine Or.inr ⟨fun body rest h => ?_, ?_⟩
          · match body with
            | [] => cases h
            | [_] =>
              cases h
              rfl
            | _ :: _ :: body =>
              cases h
              show (scan true body).map (· + 1) = none
              rw [hnone body rest rfl]
              rfl
          · exact hrun
    · rw [if_neg hescape]
      rcases ih n (Nat.lt_succ_self n) (q := q ++ [c]) (r := r) (k := k)
        (Nat.lt_of_succ_lt_succ hn) with ⟨body, rest, m, j, rfl, hscan, hj, hrun⟩ | ⟨hnone, hrun⟩
      · refine Or.inl ⟨c :: body, rest, m + 1, j, rfl, ?_, ?_, ?_⟩
        · rw [scan_plain ⟨hquote, hescape⟩, hscan]
          rfl
        · rw [List.length_cons]
          omega
        · simpa [Nat.add_assoc, Nat.add_comm 1] using hrun
      · refine Or.inr ⟨fun body rest h => ?_, ?_⟩
        · cases body with
          | nil => cases h; exact absurd rfl hquote
          | cons c' body =>
            cases h
            rw [scan_plain ⟨hquote, hescape⟩, hnone body rest rfl]
            rfl
        · simpa [Nat.add_assoc, Nat.add_comm 1] using hrun

end FindEnd

/-! ## The standard's strings -/

section Standard
variable {h s t : Bytes} {n m : Nat} {u : Char}

theorem escapeChar_of_mem {e c : UInt8} (h : (e, c) ∈ Json.shortEscapes) :
    escapeChar e = some c := by
  simp only [Json.shortEscapes, List.mem_cons, Prod.mk.injEq, List.not_mem_nil, or_false] at h
  rcases h with ⟨rfl, rfl⟩ | ⟨rfl, rfl⟩ | ⟨rfl, rfl⟩ | ⟨rfl, rfl⟩ | ⟨rfl, rfl⟩ | ⟨rfl, rfl⟩ |
    ⟨rfl, rfl⟩ | ⟨rfl, rfl⟩ <;> rfl

theorem hex4_cases (hh : Json.Hex4 h n) :
    ∃ a b c d, h = [a, b, c, d] ∧ hexCode a b c d = n ∧ ∀ e ∈ h, e ≠ 34 ∧ e ≠ 92 := by
  obtain ⟨a, b, c, d, x, y, z, w, rfl, ha, hb, hc, hd, rfl⟩ := hh
  refine ⟨a, b, c, d, rfl, by rw [hexCode, ha, hb, hc, hd], ?_⟩
  simp only [List.forall_mem_cons]
  exact ⟨ne_of_hexValue ha, ne_of_hexValue hb, ne_of_hexValue hc, ne_of_hexValue hd, by simp⟩

theorem scan_hex4 (hh : Json.Hex4 h n) (hs : scan true s = some m) :
    scan true (92 :: 117 :: (h ++ s)) = some (m + h.length + 1) := by
  obtain ⟨_, _, _, _, -, -, hne⟩ := hex4_cases hh
  show (scan true (h ++ s)).map (· + 1) = _
  rw [scan_digits hne, hs]
  rfl

/-- The two units of a character stand for it. -/
theorem ofSurrogates_utf16 (hu : ¬ u.toNat < 0x10000) :
    ofSurrogates (0xD800 + (u.toNat - 0x10000) / 0x400) (0xDC00 + (u.toNat - 0x10000) % 0x400) =
      u.toNat := by
  have hlt := Json.toNat_lt u
  rw [ofSurrogates]
  omega

/-- **A string of the standard is decoded to its characters.** -/
theorem Unescapes.of_chars (hchars : Json.Chars t s) :
    Unescapes t s ∧ ∃ m, scan true t = some m := by
  induction hchars with
  | nil => exact ⟨.nil, 0, rfl⟩
  | plain _ hquote hescape _ ih =>
    obtain ⟨hs, m, hm⟩ := ih
    exact ⟨.plain hescape hs, m + 1, by rw [scan_plain ⟨hquote, hescape⟩, hm]; rfl⟩
  | short hmem _ ih =>
    obtain ⟨hs, m, hm⟩ := ih
    refine ⟨.short (escapeChar_of_mem hmem) hs, m + 1, ?_⟩
    show (scan true _).map (· + 1) = _
    rw [hm]
    rfl
  | @unicode u x t s hx _ ih =>
    obtain ⟨hs, m, hm⟩ := ih
    rw [← Json.utf8_toNat]
    rw [Json.utf16] at hx
    split at hx
    · obtain ⟨h, _, hh, rfl, rfl⟩ := hx
      obtain ⟨a, b, c, d, rfl, hcode, -⟩ := hex4_cases hh
      refine ⟨?_, _, scan_hex4 (s := t) hh hm⟩
      rw [← hcode]
      refine .unit ?_ hs
      rw [hcode]
      rcases u.valid with hlow | hhigh
      · exact fun h => absurd h.1 (Nat.not_le.mpr hlow)
      · exact fun h => absurd h.2 (Nat.not_le.mpr hhigh.1)
    · rename_i hu
      obtain ⟨h, _, hh, ⟨h', _, hh', rfl, rfl⟩, rfl⟩ := hx
      obtain ⟨a, b, c, d, rfl, hcode, -⟩ := hex4_cases hh
      obtain ⟨a', b', c', d', rfl, hcode', -⟩ := hex4_cases hh'
      have hlt := Json.toNat_lt u
      refine ⟨?_, _, scan_hex4 (s := 92 :: 117 :: ([a', b', c', d'] ++ t)) hh (scan_hex4 hh' hm)⟩
      rw [← ofSurrogates_utf16 hu, ← hcode, ← hcode']
      refine .pair ?_ ?_ ?_ ?_ hs
      · rw [hcode]
        exact Nat.le_add_right ..
      · rw [hcode]
        omega
      · rw [hcode']
        exact Nat.le_add_right ..
      · rw [hcode']
        omega

end Standard

end VantiqMicro.CJson
