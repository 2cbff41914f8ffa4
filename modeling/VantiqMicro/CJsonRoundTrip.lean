import VantiqMicro.CJsonParse
import VantiqMicro.CJsonPrintRefinement

/-! # What is printed is parsed again (`cjson.c`)

The text of an item, formatted or not, is a text of the standard for the value the item
holds, so the parser gets the value back.  A number that is not finite has no text in
JSON and is printed as `null`. -/

namespace VantiqMicro.CJson
open CMem

/-! ## Strings -/

theorem utf16_control {u : Char} (hu : u.toNat < 32) : Json.utf16 u = [u.toNat] :=
  if_pos (Nat.lt_trans hu (by decide))

theorem utf8EncodeChar_control {u : Char} (hu : u.toNat < 32) :
    String.utf8EncodeChar u = [UInt8.ofNat u.toNat] := by
  rw [← Json.utf8_toNat, Json.utf8, if_pos (Nat.lt_trans hu (by decide))]

/-- A control character is printed as an escape of its code. -/
theorem control_chars {c : UInt8} {t s : Bytes} (hc : c < 32) (h : Json.Chars t s) :
    Json.Chars ([92, 117, 48, 48, hexDigit (c.toNat / 16), hexDigit (c.toNat % 16)] ++ t)
      (c :: s) := by
  have hlt : c.toNat < 32 := hc
  have hcode : ∀ n < 32, (Char.ofNat n).toNat = n := by decide
  have hu : (Char.ofNat c.toNat).toNat = c.toNat := hcode c.toNat hlt
  have hlt' : (Char.ofNat c.toNat).toNat < 32 := by rwa [hu]
  have hhex : Json.Hex4 [48, 48, hexDigit (c.toNat / 16), hexDigit (c.toNat % 16)] c.toNat :=
    ⟨48, 48, _, _, 0, 0, c.toNat / 16, c.toNat % 16, rfl, rfl, rfl,
      (hexDigit_spec _ (by omega)).2, (hexDigit_spec _ (Nat.mod_lt _ (by decide))).2, by omega⟩
  have hunits : Json.UnitEscapes (Json.utf16 (Char.ofNat c.toNat))
      [92, 117, 48, 48, hexDigit (c.toNat / 16), hexDigit (c.toNat % 16)] := by
    rw [utf16_control hlt', hu]
    exact ⟨_, [], hhex, rfl, rfl⟩
  have hchar := Json.Chars.unicode hunits h
  rw [utf8EncodeChar_control hlt', hu, UInt8.ofNat_toNat] at hchar
  exact hchar

theorem escape_chars (c : UInt8) {t s : Bytes} (h : Json.Chars t s) :
    Json.Chars (escape c ++ t) (c :: s) := by
  rw [escape]
  by_cases hc : 31 < c ∧ c ≠ 34 ∧ c ≠ 92
  · rw [if_pos hc]
    exact Json.Chars.plain (UInt8.le_iff_toNat_le.mpr (UInt8.lt_iff_toNat_lt.mp hc.1))
      hc.2.1 hc.2.2 h
  · rw [if_neg hc]
    by_cases hshort : c = 92 ∨ c = 34 ∨ c = 8 ∨ c = 12 ∨ c = 10 ∨ c = 13 ∨ c = 9
    · rcases hshort with rfl | rfl | rfl | rfl | rfl | rfl | rfl <;>
        exact Json.Chars.short (by decide) h
    · simp only [not_or] at hshort
      have hle : ¬ 31 < c := fun hlt => hc ⟨hlt, hshort.2.1, hshort.1⟩
      have hlt : c < 32 := UInt8.lt_iff_toNat_lt.mpr
        (Nat.lt_succ_of_le (UInt8.le_iff_toNat_le.mp (UInt8.not_lt.mp hle)))
      have hescaped : escaped c =
          [117, 48, 48, hexDigit (c.toNat / 16), hexDigit (c.toNat % 16)] := by
        simp [escaped, hshort]
      rw [hescaped]
      exact control_chars hlt h

/-- A printed string is one of the standard. -/
theorem quoted_string {D : Type} (fl : Floats D) (s : Bytes) :
    (standard fl).string (quoted s) s := by
  refine ⟨s.flatMap escape, quoted_eq s, ?_⟩
  induction s with
  | nil => exact Json.Chars.nil
  | cons c s ih =>
    rw [List.flatMap_cons]
    exact escape_chars c ih

/-! ## Numbers -/

section Print
variable {D : Type} {pr : Printing D}

/-- `%1.15g` and `%1.17g` write finite numbers as the standard does; 17 digits read back,
and so do 15 if `sscanf` makes of them what compares equal. -/
structure Exact (pr : Printing D) : Prop where
  number : ∀ d, pr.notFinite d = false → ∀ n ∈ [15, 17], Json.NumberText (pr.sprintf n d).bytes
  fifteen : ∀ d x, pr.notFinite d = false → pr.sscanf (pr.sprintf 15 d) = some x →
    pr.eq x d = true → pr.strtod (pr.sprintf 15 d).bytes = some (d, (pr.sprintf 15 d).length)
  seventeen : ∀ d, pr.notFinite d = false →
    pr.strtod (pr.sprintf 17 d).bytes = some (d, (pr.sprintf 17 d).length)

/-- The numbers that are printed as numbers. -/
def finite (pr : Printing D) (d : D) : Bool := !pr.notFinite d

theorem numberString_number (h : Exact pr) {d : D} (hd : pr.notFinite d = false) :
    (standard pr.toFloats).number (numberString pr d).bytes d := by
  have hlen := length_numberString_le pr d
  have hseventeen : Json.NumberText (pr.sprintf 17 d).bytes ∧
      pr.strtod (pr.sprintf 17 d).bytes = some (d, (pr.sprintf 17 d).length) :=
    ⟨h.number d hd 17 (by decide), h.seventeen d hd⟩
  have hboth : Json.NumberText (numberString pr d).bytes ∧
      pr.strtod (numberString pr d).bytes = some (d, (numberString pr d).length) := by
    rw [numberString, hd]
    simp only [Bool.false_eq_true, if_false]
    cases hx : pr.sscanf (pr.sprintf 15 d) with
    | none => exact hseventeen
    | some x =>
      by_cases heq : pr.eq x d = true
      · simp only [if_pos heq]
        exact ⟨h.number d hd 15 (by decide), h.fifteen d x hd hx heq⟩
      · simp only [if_neg heq]
        exact hseventeen
  exact ⟨hboth.1, Nat.le_trans hlen (by decide), hboth.2⟩

/-! ## Values -/

theorem blank_ifFormat {fl : Floats D} {w : Bytes} (hw : Json.Blank (standard fl) w)
    (format : Bool) : Json.Blank (standard fl) (ifFormat format w) := by
  cases format with
  | false => exact fun _ h => absurd h List.not_mem_nil
  | true => exact hw

theorem blank_tabs (fl : Floats D) (n : Nat) : Json.Blank (standard fl) (tabs n) := by
  intro c hc
  obtain rfl := List.eq_of_mem_replicate hc
  exact Or.inr (Or.inl rfl)

theorem blank_byte {fl : Floats D} {c : UInt8} (hc : c = 32 ∨ c = 9 ∨ c = 10 ∨ c = 13) :
    Json.Blank (standard fl) [c] := by
  intro e he
  obtain rfl := List.mem_singleton.mp he
  exact hc

mutual

/-- An item that holds a value has a text, which is one of the standard for the value. -/
theorem Holds.text (h : Exact pr) (format : Bool) : ∀ (v : Json D) (item : CJSON D) (depth : Nat),
    Holds pr.toFloats v item → ∃ t, text pr format depth item = some t ∧
      (v.onlyNumbers (finite pr)).Text (standard pr.toFloats) t
  | .null, ⟨_, _, _, _, _, _, _, _⟩, _, hv => by
    cases hv
    exact ⟨_, rfl, rfl⟩
  | .bool b, ⟨_, _, _, _, _, _, _, _⟩, _, hv => by
    cases b <;> cases hv <;> exact ⟨_, rfl, rfl⟩
  | .number x, ⟨_, _, _, _, _, _, d, _⟩, _, hv => by
    obtain ⟨hkind, hx, -⟩ := hv
    cases hkind
    have hd : d = x := hx
    subst hd
    refine ⟨_, rfl, ?_⟩
    rw [Json.onlyNumbers, finite]
    cases hfinite : pr.notFinite d with
    | false => exact numberString_number h hfinite
    | true =>
      show (numberString pr d).bytes = ascii "null"
      rw [numberString, if_pos hfinite]
      rfl
  | .string s, ⟨_, _, _, _, _, _, _, _⟩, _, hv => by
    obtain ⟨hkind, b, hb, hs⟩ := hv
    cases hkind
    cases hb
    refine ⟨quoted s, ?_, quoted_string _ s⟩
    show b.stringBytes.map quoted = some (quoted s)
    rw [hs, Option.map_some]
  | .array vs, ⟨child, _, _, _, _, _, _, _⟩, depth, hv => by
    obtain ⟨hkind, hvs⟩ := hv
    cases hkind
    obtain ⟨t, ht, htext⟩ := HoldsElements.text h format vs child (depth + 1) hvs
    refine ⟨91 :: (t ++ [93]), ?_, t ++ [93], rfl, htext [] Json.Blank.nil⟩
    rw [CJson.text]
    simp only [ht]
    rfl
  | .object ms, ⟨child, _, _, _, _, _, _, _⟩, depth, hv => by
    obtain ⟨hkind, hms⟩ := hv
    cases hkind
    obtain ⟨t, ht, htext⟩ := HoldsMembers.text h format ms child (depth + 1) hms
    refine ⟨123 :: (ifFormat format [10] ++ t ++ ifFormat format (tabs depth) ++ [125]), ?_, _, rfl,
      htext _ _ (blank_ifFormat (blank_byte (by decide)) format)
        (blank_ifFormat (blank_tabs _ depth) format)⟩
    rw [CJson.text]
    simp only [ht]
    rfl

theorem HoldsElements.text (h : Exact pr) (format : Bool) : ∀ (vs : List (Json D))
    (items : List (CJSON D)) (depth : Nat), HoldsElements pr.toFloats vs items →
    ∃ t, elementsText pr format depth items = some t ∧
      ∀ w, Json.Blank (standard pr.toFloats) w → Json.Elements (standard pr.toFloats)
        (Json.onlyElementNumbers (finite pr) vs) (w ++ t ++ [93])
  | [], items, depth, hvs => by
    cases hvs
    exact ⟨[], rfl, fun w hw => ⟨w, hw, by rw [List.append_nil]⟩⟩
  | v :: vs, items, depth, hvs => by
    obtain ⟨item, next, rfl, hv, hvs⟩ := hvs
    obtain ⟨t, ht, htext⟩ := Holds.text h format v item depth hv
    obtain ⟨ts, hts, htexts⟩ := HoldsElements.text h format vs next depth hvs
    rw [elementsText, ht, hts]
    cases vs with
    | nil =>
      cases hvs
      exact ⟨t, rfl, fun w hw =>
        ⟨w, t, [], [93], hw, htext, Json.Blank.nil, by simp, Or.inl ⟨rfl, rfl⟩⟩⟩
    | cons v' vs =>
      obtain ⟨item', next, rfl, -⟩ := hvs
      refine ⟨t ++ 44 :: (ifFormat format [32] ++ ts), rfl, fun w hw => ?_⟩
      refine ⟨w, t, [], 44 :: (ifFormat format [32] ++ ts ++ [93]), hw, htext, Json.Blank.nil,
        by simp, Or.inr ⟨by simp, _, rfl, ?_⟩⟩
      exact htexts _ (blank_ifFormat (blank_byte (by decide)) format)

theorem HoldsMembers.text (h : Exact pr) (format : Bool) : ∀ (ms : List (Bytes × Json D))
    (items : List (CJSON D)) (depth : Nat), HoldsMembers pr.toFloats ms items →
    ∃ t, membersText pr format depth items = some t ∧
      ∀ w w', Json.Blank (standard pr.toFloats) w → Json.Blank (standard pr.toFloats) w' →
        Json.Members (standard pr.toFloats) (Json.onlyMemberNumbers (finite pr) ms)
          (w ++ t ++ w' ++ [125])
  | [], items, depth, hms => by
    cases hms
    exact ⟨[], rfl, fun w w' hw hw' => ⟨w ++ w', hw.append hw', by rw [List.append_nil]⟩⟩
  | (k, v) :: ms, items, depth, hms => by
    obtain ⟨item, next, b, rfl, hb, hk, hv, hms⟩ := hms
    obtain ⟨t, ht, htext⟩ := Holds.text h format v item depth hv
    obtain ⟨ts, hts, htexts⟩ := HoldsMembers.text h format ms next depth hms
    have hkey : stringText item.string = some (quoted k) := by
      rw [hb, stringText, hk, Option.map_some]
    have hindent : Json.Blank (standard pr.toFloats) (ifFormat format (tabs depth)) :=
      blank_ifFormat (blank_tabs _ depth) format
    have htab : Json.Blank (standard pr.toFloats) (ifFormat format [9]) :=
      blank_ifFormat (blank_byte (by decide)) format
    have hnewline : Json.Blank (standard pr.toFloats) (ifFormat format [10]) :=
      blank_ifFormat (blank_byte (by decide)) format
    rw [membersText, hkey, ht, hts]
    refine ⟨_, rfl, fun w w' hw hw' => ?_⟩
    cases ms with
    | nil =>
      cases hms
      cases hts
      exact ⟨w ++ ifFormat format (tabs depth), quoted k, [], ifFormat format [9], t,
        ifFormat format [10] ++ w', [125], hw.append hindent, quoted_string _ k, Json.Blank.nil,
        htab, htext, hnewline.append hw', by simp, Or.inl ⟨rfl, rfl⟩⟩
    | cons m ms =>
      obtain ⟨item', next, _, rfl, -⟩ := hms
      exact ⟨w ++ ifFormat format (tabs depth), quoted k, [], ifFormat format [9], t, [],
        44 :: (ifFormat format [10] ++ ts ++ w' ++ [125]), hw.append hindent, quoted_string _ k,
        Json.Blank.nil, htab, htext, Json.Blank.nil, by simp,
        Or.inr ⟨by simp, _, rfl, htexts _ _ hnewline hw'⟩⟩

end

/-! ## C strings -/

/-- What an item prints has no zero in it. -/
theorem zero_not_mem_stringText {b : Option Block} {t : Bytes} (h : stringText b = some t) :
    0 ∉ t := by
  cases b with
  | none =>
    cases h
    exact zero_not_mem_quoted []
  | some b =>
    obtain ⟨s, -, rfl⟩ := Option.map_eq_some_iff.mp h
    exact zero_not_mem_quoted s

theorem zero_not_mem_ifFormat {w : Bytes} (hw : 0 ∉ w) (format : Bool) :
    0 ∉ ifFormat format w := by
  cases format with
  | false => exact List.not_mem_nil
  | true => exact hw

theorem zero_not_mem_tabs (n : Nat) : 0 ∉ tabs n := by simp [tabs]

mutual

theorem zero_not_mem_text (format : Bool) : ∀ (item : CJSON D) (depth : Nat) {t : Bytes},
    text pr format depth item = some t → 0 ∉ t
  | ⟨child, kind, _, _, valuestring, _, valuedouble, _⟩, depth, t, ht => by
    cases kind with
    | invalid => cases ht
    | null | «true» | «false» =>
      cases ht
      decide
    | number =>
      cases ht
      exact (numberString pr valuedouble).nulFree
    | raw =>
      obtain ⟨b, -, hb⟩ := Option.bind_eq_some_iff.mp ht
      exact Block.nulFree_of_stringBytes hb
    | string => exact zero_not_mem_stringText ht
    | array =>
      obtain ⟨ts, hts, ht⟩ := Option.bind_eq_some_iff.mp ht
      cases ht
      simp [zero_not_mem_elementsText format child (depth + 1) hts]
    | object =>
      obtain ⟨ts, hts, ht⟩ := Option.bind_eq_some_iff.mp ht
      cases ht
      simp [zero_not_mem_membersText format child (depth + 1) hts,
        zero_not_mem_ifFormat (w := [10]) (by decide) format,
        zero_not_mem_ifFormat (zero_not_mem_tabs depth) format]

theorem zero_not_mem_elementsText (format : Bool) : ∀ (items : List (CJSON D)) (depth : Nat)
    {t : Bytes}, elementsText pr format depth items = some t → 0 ∉ t
  | [], _, _, ht => by
    cases ht
    exact List.not_mem_nil
  | item :: next, depth, t, ht => by
    rw [elementsText] at ht
    obtain ⟨t₁, ht₁, ht⟩ := Option.bind_eq_some_iff.mp ht
    have h₁ := zero_not_mem_text format item depth ht₁
    cases next with
    | nil =>
      cases ht
      exact h₁
    | cons item' next =>
      obtain ⟨ts, hts, ht⟩ := Option.bind_eq_some_iff.mp ht
      cases ht
      simp [h₁, zero_not_mem_elementsText format (item' :: next) depth hts,
        zero_not_mem_ifFormat (w := [32]) (by decide) format]

theorem zero_not_mem_membersText (format : Bool) : ∀ (items : List (CJSON D)) (depth : Nat)
    {t : Bytes}, membersText pr format depth items = some t → 0 ∉ t
  | [], _, _, ht => by
    cases ht
    exact List.not_mem_nil
  | item :: next, depth, t, ht => by
    rw [membersText] at ht
    obtain ⟨key, hkey, ht⟩ := Option.bind_eq_some_iff.mp ht
    obtain ⟨t₁, ht₁, ht⟩ := Option.bind_eq_some_iff.mp ht
    obtain ⟨ts, hts, ht⟩ := Option.bind_eq_some_iff.mp ht
    cases ht
    simp [zero_not_mem_stringText hkey, zero_not_mem_text format item depth ht₁,
      zero_not_mem_membersText format next depth hts,
      zero_not_mem_ifFormat (zero_not_mem_tabs depth) format,
      zero_not_mem_ifFormat (w := [9]) (by decide) format,
      zero_not_mem_ifFormat (w := [10]) (by decide) format]

end

mutual

/-- The strings of a value that an item holds end with their terminator. -/
theorem Holds.strings {fl : Floats D} : ∀ {v : Json D} {item : CJSON D}, Holds fl v item →
    v.Strings (0 ∉ ·)
  | .null, _, _ | .bool _, _, _ | .number _, _, _ => trivial
  | .string _, _, ⟨_, _, _, hs⟩ => Block.nulFree_of_stringBytes hs
  | .array _, _, h => HoldsElements.strings h.2
  | .object _, _, h => HoldsMembers.strings h.2

theorem HoldsElements.strings {fl : Floats D} : ∀ {vs : List (Json D)} {items : List (CJSON D)},
    HoldsElements fl vs items → Json.ElementStrings (0 ∉ ·) vs
  | [], _, _ => trivial
  | _ :: _, _, ⟨_, _, _, hv, hvs⟩ => ⟨hv.strings, hvs.strings⟩

theorem HoldsMembers.strings {fl : Floats D} : ∀ {ms : List (Bytes × Json D)}
    {items : List (CJSON D)}, HoldsMembers fl ms items → Json.MemberStrings (0 ∉ ·) ms
  | [], _, _ => trivial
  | (_, _) :: _, _, ⟨_, _, _, _, _, hk, hv, hms⟩ =>
    ⟨Block.nulFree_of_stringBytes hk, hv.strings, hms.strings⟩

end

theorem stringOrNull_of {b : Block} {s : Bytes} (h : b.stringBytes = some s) :
    StringOrNull (some b) := by
  intro b' hb'
  cases hb'
  exact ⟨s, h⟩

mutual

theorem Holds.terminated {fl : Floats D} : ∀ {v : Json D} {item : CJSON D}, Holds fl v item →
    Terminated item
  | .null, ⟨_, _, _, _, _, _, _, _⟩, h => by
    cases h
    trivial
  | .bool b, ⟨_, _, _, _, _, _, _, _⟩, h => by cases b <;> cases h <;> trivial
  | .number _, ⟨_, _, _, _, _, _, _, _⟩, h => by
    cases h.1
    trivial
  | .string s, ⟨_, _, _, _, _, _, _, _⟩, ⟨hkind, b, hb, hs⟩ => by
    cases hkind
    cases hb
    exact stringOrNull_of hs
  | .array vs, ⟨_, _, _, _, _, _, _, _⟩, h => by
    cases h.1
    exact HoldsElements.terminated h.2
  | .object ms, ⟨_, _, _, _, _, _, _, _⟩, h => by
    cases h.1
    exact HoldsMembers.terminated h.2

theorem HoldsElements.terminated {fl : Floats D} : ∀ {vs : List (Json D)}
    {items : List (CJSON D)}, HoldsElements fl vs items → ElementsTerminated items
  | [], _, h => by
    cases h
    trivial
  | _ :: _, _, ⟨_, _, hitems, hv, hvs⟩ => by
    cases hitems
    exact ⟨hv.terminated, hvs.terminated⟩

theorem HoldsMembers.terminated {fl : Floats D} : ∀ {ms : List (Bytes × Json D)}
    {items : List (CJSON D)}, HoldsMembers fl ms items → MembersTerminated items
  | [], _, h => by
    cases h
    trivial
  | (_, _) :: _, _, ⟨_, _, b, hitems, hb, hk, hv, hms⟩ => by
    cases hitems
    exact ⟨hb ▸ stringOrNull_of hk, hv.terminated, hms.terminated⟩

end

/-! ## Printed and parsed -/

mutual

/-- The text depends on the value alone, and not on numbers that are not finite. -/
theorem Holds.text_congr (format : Bool) : ∀ (v : Json D) (item item' : CJSON D) (depth : Nat),
    Holds pr.toFloats v item → Holds pr.toFloats (v.onlyNumbers (finite pr)) item' →
    CJson.text pr format depth item' = CJson.text pr format depth item
  | .null, ⟨_, _, _, _, _, _, _, _⟩, ⟨_, _, _, _, _, _, _, _⟩, _, h, h' => by
    cases h
    cases h'
    rfl
  | .bool b, ⟨_, _, _, _, _, _, _, _⟩, ⟨_, _, _, _, _, _, _, _⟩, _, h, h' => by
    cases b <;> cases h <;> cases h' <;> rfl
  | .number x, ⟨_, _, _, _, _, _, d, _⟩, ⟨_, _, _, _, _, _, d', _⟩, _, h, h' => by
    have hd : d = x := h.2.1
    subst hd
    cases h.1
    rw [Json.onlyNumbers, finite] at h'
    cases hfinite : pr.notFinite d with
    | false =>
      simp only [hfinite, Bool.not_false, if_true] at h'
      have hd' : d' = d := h'.2.1
      subst hd'
      cases h'.1
      rfl
    | true =>
      simp only [hfinite, Bool.not_true, Bool.false_eq_true, if_false] at h'
      cases h'
      show some (ascii "null") = some (numberString pr d).bytes
      rw [numberString, if_pos hfinite]
      rfl
  | .string s, ⟨_, _, _, _, _, _, _, _⟩, ⟨_, _, _, _, _, _, _, _⟩, _, ⟨hkind, b, hb, hs⟩,
      ⟨hkind', b', hb', hs'⟩ => by
    cases hkind
    cases hkind'
    cases hb
    cases hb'
    show b'.stringBytes.map quoted = b.stringBytes.map quoted
    rw [hs, hs']
  | .array vs, ⟨child, _, _, _, _, _, _, _⟩, ⟨child', _, _, _, _, _, _, _⟩, depth, h, h' => by
    have hvs := HoldsElements.text_congr format vs child child' (depth + 1) h.2 h'.2
    cases h.1
    cases h'.1
    rw [CJson.text, CJson.text]
    simp only [hvs]
  | .object ms, ⟨child, _, _, _, _, _, _, _⟩, ⟨child', _, _, _, _, _, _, _⟩, depth, h, h' => by
    have hms := HoldsMembers.text_congr format ms child child' (depth + 1) h.2 h'.2
    cases h.1
    cases h'.1
    rw [CJson.text, CJson.text]
    simp only [hms]

theorem HoldsElements.text_congr (format : Bool) : ∀ (vs : List (Json D))
    (items items' : List (CJSON D)) (depth : Nat), HoldsElements pr.toFloats vs items →
    HoldsElements pr.toFloats (Json.onlyElementNumbers (finite pr) vs) items' →
    elementsText pr format depth items' = elementsText pr format depth items
  | [], _, _, _, h, h' => by
    cases h
    cases h'
    rfl
  | v :: vs, _, _, depth, ⟨item, next, hitems, hv, hvs⟩, ⟨item', next', hitems', hv', hvs'⟩ => by
    have hempty : next'.isEmpty = next.isEmpty := by
      cases vs with
      | nil => cases hvs; cases hvs'; rfl
      | cons w ws =>
        obtain ⟨_, _, rfl, -⟩ := hvs
        obtain ⟨_, _, rfl, -⟩ := hvs'
        rfl
    cases hitems
    cases hitems'
    rw [elementsText, elementsText, hempty, Holds.text_congr format v item item' depth hv hv',
      HoldsElements.text_congr format vs next next' depth hvs hvs']

theorem HoldsMembers.text_congr (format : Bool) : ∀ (ms : List (Bytes × Json D))
    (items items' : List (CJSON D)) (depth : Nat), HoldsMembers pr.toFloats ms items →
    HoldsMembers pr.toFloats (Json.onlyMemberNumbers (finite pr) ms) items' →
    membersText pr format depth items' = membersText pr format depth items
  | [], _, _, _, h, h' => by
    cases h
    cases h'
    rfl
  | (k, v) :: ms, _, _, depth, ⟨item, next, b, hitems, hb, hk, hv, hms⟩,
      ⟨item', next', b', hitems', hb', hk', hv', hms'⟩ => by
    have hempty : next'.isEmpty = next.isEmpty := by
      cases ms with
      | nil => cases hms; cases hms'; rfl
      | cons m ms =>
        obtain ⟨_, _, _, rfl, -⟩ := hms
        obtain ⟨_, _, _, rfl, -⟩ := hms'
        rfl
    have hkey : stringText item'.string = stringText item.string := by
      rw [hb, hb', stringText, stringText, hk, hk']
    cases hitems
    cases hitems'
    rw [membersText, membersText, hempty, hkey, Holds.text_congr format v item item' depth hv hv',
      HoldsMembers.text_congr format ms next next' depth hms hms']

end

variable {v : Json D} {item : CJSON D}

/-- The printed text, read as the C string it is. -/
theorem print_text (hv : Holds pr.toFloats v item) {format reallocate : Bool} {b : Block}
    (hb : print pr item format reallocate = .ok (some b)) :
    ∃ s : CString, b.readString = .ok s ∧ text pr format 0 item = some s.bytes := by
  rw [print_eq pr hv.terminated] at hb
  cases ht : text pr format 0 item with
  | none =>
    rw [ht] at hb
    cases hb
  | some t =>
    rw [ht] at hb
    simp only at hb
    split at hb
    · cases hb
      have h0 : 0 ∉ t := zero_not_mem_text format item 0 ht
      exact ⟨⟨t, h0⟩, Block.readString_eq_ok.mpr (Block.stringBytes_cells_append h0 []), rfl⟩
    · cases hb

theorem exact_printOneDigit : Exact printOneDigit where
  number := by
    rintro (_ | d) hd n -
    · cases hd
    have hdigit : ∀ d : Fin 10, 48 ≤ UInt8.ofNat (48 + d.val) ∧ UInt8.ofNat (48 + d.val) ≤ 57 ∧
        (d ≠ 0 → UInt8.ofNat (48 + d.val) ≠ 48) := by decide
    obtain ⟨hge, hle, hne⟩ := hdigit d
    refine ⟨[], [UInt8.ofNat (48 + d.val)], [], [], rfl, Or.inl rfl, ?_, Or.inl rfl, Or.inl rfl⟩
    by_cases h0 : d = 0
    · exact Or.inl (by rw [h0]; rfl)
    · have hdigits : Json.Digits [UInt8.ofNat (48 + d.val)] :=
        ⟨List.cons_ne_nil _ _, fun c hc => by rw [List.mem_singleton.mp hc]; exact ⟨hge, hle⟩⟩
      exact Or.inr ⟨hdigits, fun h => hne h0 (Option.some.inj h)⟩
  fifteen := by
    rintro (_ | d) x hd - -
    · cases hd
    · revert d
      decide
  seventeen := by
    rintro (_ | d) hd
    · cases hd
    · revert d
      decide

theorem holds_sevenAndInfinity :
    Holds oneDigit (.array [.number (some 7), .number none]) sevenAndInfinity :=
  ⟨rfl, _, _, rfl, ⟨rfl, rfl, by decide⟩, _, _, rfl, ⟨rfl, rfl, by decide⟩, rfl⟩

theorem print_sevenAndInfinity : print printOneDigit sevenAndInfinity true false =
    .ok (some (cells (ascii "[7, null]") ++ [some 0])) :=
  print_eq printOneDigit terminated_sevenAndInfinity true false

/-- **What is printed is JSON**: a text of the standard for the value the item holds, with `null`
for numbers that are not finite. -/
theorem print_standard (h : Exact pr) (hv : Holds pr.toFloats v item) {format reallocate : Bool}
    {b : Block} (hb : print pr item format reallocate = .ok (some b)) :
    ∃ s : CString, b.readString = .ok s ∧
      (v.onlyNumbers (finite pr)).Text (standard pr.toFloats) s.bytes := by
  obtain ⟨s, hread, ht⟩ := print_text hv hb
  obtain ⟨t, ht', htext⟩ := hv.text h format v item 0
  cases ht.symm.trans ht'
  exact ⟨s, hread, htext⟩

theorem print_standard_sevenAndInfinity : ∃ s : CString,
    Block.readString (cells (ascii "[7, null]") ++ [some 0]) = .ok s ∧
      (Json.array [Json.number (some 7), Json.null]).Text (standard oneDigit) s.bytes :=
  print_standard exact_printOneDigit holds_sevenAndInfinity print_sevenAndInfinity

/-- **What is printed is parsed again**, to an item that holds the same value and prints the same
texts. -/
theorem parse_print (h : Exact pr) (hv : Holds pr.toFloats v item)
    (hdepth : v.depth ≤ CJSON_NESTING_LIMIT) {format reallocate : Bool} {b : Block}
    (hb : print pr item format reallocate = .ok (some b)) (requireNullTerminated : Bool) :
    ∃ s item', b.readString = .ok s ∧
      cJSONParseWithOpts pr.toFloats s requireNullTerminated =
        .ok { item := some item', parseEnd := s.length, errorPosition := none } ∧
      Holds pr.toFloats (v.onlyNumbers (finite pr)) item' ∧
      ∀ format reallocate, print pr item' format reallocate = print pr item format reallocate := by
  obtain ⟨s, hread, hs⟩ := print_text hv hb
  obtain ⟨t, ht', ht⟩ := hv.text h format v item 0
  cases hs.symm.trans ht'
  have hstrings : (v.onlyNumbers (finite pr)).mapStrings cut = v.onlyNumbers (finite pr) :=
    Json.mapStrings_eq_self (fun _ hs => takeWhile_ne_of_not_mem hs) _ hv.strings.onlyNumbers
  have hdepth' : (v.onlyNumbers (finite pr)).depth ≤ CJSON_NESTING_LIMIT := by
    rwa [Json.depth_onlyNumbers]
  have htext := ht.map (standard_reads pr.toFloats)
  rw [hstrings] at htext
  have hwhole : s.bytes = [] ++ [] ++ s.bytes ++ [] := (List.append_nil _).symm
  have hnil : Json.Blank (accepted pr.toFloats) [] := Json.Blank.nil
  obtain ⟨item', hrun, hv'⟩ := cJSONParseWithOpts_complete requireNullTerminated hwhole
    (Or.inl rfl) hnil htext hdepth' (fun _ _ => follow_blank hnil) fun _ => hnil
  have hend : (if requireNullTerminated then s.length else ([] ++ [] ++ s.bytes).length) =
      s.length := ite_self _
  rw [hend] at hrun
  refine ⟨s, item', hread, hrun, hv', fun format reallocate => ?_⟩
  rw [print_eq pr hv'.terminated, print_eq pr hv.terminated,
    Holds.text_congr format v item item' 0 hv hv']

theorem parse_print_sevenAndInfinity : ∃ s item',
    Block.readString (cells (ascii "[7, null]") ++ [some 0]) = .ok s ∧
      cJSONParseWithOpts oneDigit s true =
        .ok { item := some item', parseEnd := s.length, errorPosition := none } ∧
      Holds oneDigit (Json.array [Json.number (some 7), Json.null]) item' ∧
      ∀ format reallocate, print printOneDigit item' format reallocate =
        print printOneDigit sevenAndInfinity format reallocate :=
  parse_print exact_printOneDigit holds_sevenAndInfinity (by decide) print_sevenAndInfinity true

end Print

end VantiqMicro.CJson
