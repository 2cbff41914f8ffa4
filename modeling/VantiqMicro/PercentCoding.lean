import VantiqMicro.Block

/-! # Percent-encoding and query strings

RFC 3986 percent-encoding of bytes, its decoding, and query strings of the form
`key=value;key=value` whose values are percent-encoded.  `parse_render` is the
round trip: a query written from keys of unreserved characters and arbitrary
values reads back as exactly those keys and values. -/

namespace CMem.Percent

/-- Letters, digits, `-`, `.`, `_` and `~`, which stand for themselves. -/
def unreserved (c : UInt8) : Bool :=
  (65 ≤ c && c ≤ 90) || (97 ≤ c && c ≤ 122) || (48 ≤ c && c ≤ 57) ||
    c == 45 || c == 46 || c == 95 || c == 126

/-- The upper-case hexadecimal digit of a number below 16. -/
def hexDigit (n : Nat) : UInt8 := UInt8.ofNat (if n < 10 then 48 + n else 55 + n)

/-- The value of a hexadecimal digit in either case. -/
def hexValue (c : UInt8) : Option Nat :=
  if 48 ≤ c ∧ c ≤ 57 then some (c.toNat - 48)
  else if 65 ≤ c ∧ c ≤ 70 then some (c.toNat - 55)
  else if 97 ≤ c ∧ c ≤ 102 then some (c.toNat - 87)
  else none

def encodeByte (c : UInt8) : Bytes :=
  if unreserved c then [c] else [37, hexDigit (c.toNat / 16), hexDigit (c.toNat % 16)]

/-- Every byte that is not unreserved becomes `%XX`. -/
def encode (s : Bytes) : Bytes := s.flatMap encodeByte

/-- `%XX` becomes the byte it names; everything else stays. -/
def decode : Bytes → Bytes
  | [] => []
  | [a] => [a]
  | [a, b] => [a, b]
  | a :: b :: c :: s =>
    if a = 37 then
      match hexValue b, hexValue c with
      | some x, some y => UInt8.ofNat (16 * x + y) :: decode s
      | _, _ => a :: decode (b :: c :: s)
    else a :: decode (b :: c :: s)

/-! ## Decoding undoes encoding -/

theorem hexValue_hexDigit : ∀ n < 16, hexValue (hexDigit n) = some n := by decide

theorem decode_cons {c : UInt8} (h : c ≠ 37) (s : Bytes) : decode (c :: s) = c :: decode s := by
  match s with
  | [] => rfl
  | [_] => simp [decode]
  | _ :: _ :: _ => rw [decode, if_neg h]

theorem decode_escape (c : UInt8) (s : Bytes) :
    decode (37 :: hexDigit (c.toNat / 16) :: hexDigit (c.toNat % 16) :: s) = c :: decode s := by
  have hc : c.toNat < 256 := c.toNat_lt
  have hval : UInt8.ofNat (16 * (c.toNat / 16) + c.toNat % 16) = c := by
    rw [Nat.div_add_mod, UInt8.ofNat_toNat]
  rw [decode, if_pos rfl, hexValue_hexDigit _ (by omega), hexValue_hexDigit _ (by omega)]
  simp only [hval]

/-- A byte that is no hexadecimal digit ends every escape before it. -/
theorem decode_append {c : UInt8} (hc : hexValue c = none) (s t : Bytes) :
    decode (s ++ c :: t) = decode s ++ decode (c :: t) := by
  induction s using decode.induct with
  | case1 => rfl
  | case2 a =>
    cases t with
    | nil => rfl
    | cons d t =>
      by_cases ha : a = 37
      · simp [ha, decode, hc]
      · simp [decode_cons ha, decode]
  | case3 a b =>
    have hb : decode (b :: c :: t) = b :: decode (c :: t) := by
      cases t with
      | nil => rfl
      | cons d t =>
        by_cases hb : b = 37
        · simp [hb, decode, hc]
        · exact decode_cons hb _
    by_cases ha : a = 37
    · simp [ha, decode, hc, hb]
    · simp [decode_cons ha, decode, hb]
  | case4 b d s x y hx hy ih => simp [decode, hx, hy, ih]
  | case5 b d s h ih =>
    simp only [List.cons_append] at ih ⊢
    rw [decode, if_pos rfl, decode, if_pos rfl]
    split
    · rename_i x y hx hy
      exact absurd hy (h x y hx)
    · rw [ih]
      rfl
  | case6 a b d s ha ih =>
    rw [List.cons_append, decode_cons ha, decode_cons ha, ih]
    rfl

/-- `s` holds a `%` and two hexadecimal digits. -/
def Escaped (s : Bytes) : Prop :=
  ∃ a x y b, s = a ++ 37 :: x :: y :: b ∧ (hexValue x).isSome = true ∧ (hexValue y).isSome = true

theorem length_decode_le (s : Bytes) : (decode s).length ≤ s.length := by
  induction s using decode.induct with
  | case1 => exact Nat.le_refl _
  | case2 a => exact Nat.le_refl _
  | case3 a b => exact Nat.le_refl _
  | case4 b d s x y hx hy ih =>
    simp only [decode, if_pos, hx, hy, List.length_cons]
    omega
  | case5 b d s h ih =>
    rw [decode, if_pos rfl]
    split
    · rename_i x y hx hy
      exact absurd hy (h x y hx)
    · simpa using ih
  | case6 a b d s ha ih =>
    rw [decode_cons ha]
    simpa using ih

/-- **Only what holds an escape is changed by decoding.** -/
theorem decode_eq_self_iff {s : Bytes} : decode s = s ↔ ¬ Escaped s := by
  constructor
  · rintro h ⟨a, x, y, b, rfl, hx, hy⟩
    obtain ⟨m, hm⟩ := Option.isSome_iff_exists.mp hx
    obtain ⟨n, hn⟩ := Option.isSome_iff_exists.mp hy
    have hlen := congrArg List.length h
    have ha := length_decode_le a
    have hb := length_decode_le b
    rw [decode_append rfl] at hlen
    simp only [decode, if_pos, hm, hn, List.length_append, List.length_cons] at hlen
    omega
  · intro h
    induction s using decode.induct with
    | case1 => rfl
    | case2 a => rfl
    | case3 a b => rfl
    | case4 b d s x y hx hy ih =>
      exact absurd ⟨[], b, d, s, rfl, Option.isSome_of_eq_some hy, Option.isSome_of_eq_some hx⟩ h
    | case5 b d s hnone ih =>
      rw [decode, if_pos rfl]
      split
      · rename_i x y hx hy
        exact absurd hy (hnone x y hx)
      · rw [ih]
        rintro ⟨a, x, y, t, heq, hxy⟩
        exact h ⟨37 :: a, x, y, t, congrArg (37 :: ·) heq, hxy⟩
    | case6 c b d s hc ih =>
      rw [decode_cons hc, ih]
      rintro ⟨a, x, y, t, heq, hxy⟩
      exact h ⟨c :: a, x, y, t, congrArg (c :: ·) heq, hxy⟩

theorem decode_of_not_mem {s : Bytes} (h : 37 ∉ s) : decode s = s := by
  rw [decode_eq_self_iff]
  rintro ⟨a, x, y, b, rfl, -⟩
  exact h (List.mem_append_right _ (List.mem_cons_self ..))

theorem ne_percent_of_unreserved {c : UInt8} (h : unreserved c = true) : c ≠ 37 := by
  rintro rfl
  exact absurd h (by decide)

theorem decode_encode_append (s t : Bytes) : decode (encode s ++ t) = s ++ decode t := by
  induction s with
  | nil => rfl
  | cons c s ih =>
    rw [encode, List.flatMap_cons, List.append_assoc, ← encode]
    unfold encodeByte
    split
    · rename_i h
      rw [List.singleton_append, decode_cons (ne_percent_of_unreserved h), ih, List.cons_append]
    · simp only [List.cons_append, List.nil_append]
      rw [decode_escape, ih]

/-- **Decoding undoes encoding.** -/
@[simp] theorem decode_encode (s : Bytes) : decode (encode s) = s := by
  simpa [decode] using decode_encode_append s []

/-- Unreserved bytes decode to themselves. -/
theorem decode_of_unreserved {s : Bytes} (h : ∀ c ∈ s, unreserved c = true) : decode s = s := by
  induction s with
  | nil => rfl
  | cons c s ih =>
    obtain ⟨hc, hs⟩ := List.forall_mem_cons.mp h
    rw [decode_cons (ne_percent_of_unreserved hc), ih hs]

/-! ## What an encoding can contain -/

theorem unreserved_hexDigit : ∀ n < 16, unreserved (hexDigit n) = true := by decide

theorem mem_encode {s : Bytes} {b : UInt8} (h : b ∈ encode s) : unreserved b = true ∨ b = 37 := by
  obtain ⟨c, -, hb⟩ := List.mem_flatMap.mp h
  have hc : c.toNat < 256 := c.toNat_lt
  unfold encodeByte at hb
  split at hb
  · rw [List.mem_singleton] at hb
    subst hb
    exact Or.inl ‹_›
  · simp only [List.mem_cons, List.not_mem_nil, or_false] at hb
    rcases hb with rfl | rfl | rfl
    · exact Or.inr rfl
    · exact Or.inl (unreserved_hexDigit _ (by omega))
    · exact Or.inl (unreserved_hexDigit _ (by omega))

/-- A byte that is neither unreserved nor `%` does not occur in an encoding. -/
theorem not_mem_encode {b : UInt8} (h : unreserved b = false) (h' : b ≠ 37) (s : Bytes) :
    b ∉ encode s := by
  intro hb
  rcases mem_encode hb with hu | hp
  · rw [h] at hu
    cases hu
  · exact h' hp

/-- The encoding of a string, as a string. -/
def encodeString (s : CString) : CString := ⟨encode s.bytes, not_mem_encode rfl (by decide) _⟩

/-! ## Query strings -/

/-- `key=value` with the value encoded. -/
def renderPair (p : Bytes × Bytes) : Bytes := p.1 ++ 61 :: encode p.2

/-- The pairs, joined by `;`. -/
def render (ps : List (Bytes × Bytes)) : Bytes := [59].intercalate (ps.map renderPair)

/-- A `key=value`, split at the first `=` and decoded. -/
def parsePair (s : Bytes) : Bytes × Bytes :=
  (decode (s.takeWhile (· != 61)), decode ((s.dropWhile (· != 61)).drop 1))

/-- A query string, split at `;`. -/
def parse (s : Bytes) : List (Bytes × Bytes) := (s.splitOn 59).map parsePair

theorem ne_of_unreserved {s : Bytes} (h : ∀ c ∈ s, unreserved c = true) {b : UInt8}
    (hb : unreserved b = false) : b ∉ s := by
  intro hm
  rw [h b hm] at hb
  cases hb

theorem parsePair_renderPair {p : Bytes × Bytes} (h : ∀ c ∈ p.1, unreserved c = true) :
    parsePair (renderPair p) = p := by
  have hne : 61 ∉ p.1 := ne_of_unreserved h rfl
  rw [parsePair, renderPair, takeWhile_ne_append hne, dropWhile_ne_append hne]
  simp [decode_of_unreserved h]

/-- **A rendered query reads back as its pairs.** -/
theorem parse_render {ps : List (Bytes × Bytes)} (hne : ps ≠ [])
    (h : ∀ p ∈ ps, ∀ c ∈ p.1, unreserved c = true) : parse (render ps) = ps := by
  have hsep : ∀ l ∈ ps.map renderPair, (59 : UInt8) ∉ l := by
    intro l hl
    obtain ⟨p, hp, rfl⟩ := List.mem_map.mp hl
    simp only [renderPair, List.mem_append, List.mem_cons, not_or]
    exact ⟨ne_of_unreserved (h p hp) rfl, by decide, not_mem_encode rfl (by decide) _⟩
  rw [parse, render, List.splitOn_intercalate 59 hsep (by simpa using hne), List.map_map]
  calc ps.map (parsePair ∘ renderPair)
      = ps.map id := List.map_congr_left fun p hp => parsePair_renderPair (h p hp)
    _ = ps := List.map_id ps

theorem render_cons (p : Bytes × Bytes) (ps : List (Bytes × Bytes)) :
    render (p :: ps) = renderPair p ++ if ps = [] then [] else 59 :: render ps := by
  cases ps with
  | nil => simp [render]
  | cons q ps => simp [render, List.intercalate_cons_cons]

end CMem.Percent
