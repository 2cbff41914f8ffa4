import VantiqMicro.PercentCoding

/-! # JSON values and their texts

RFC 8259 as a relation between a value and the bytes that write it.  The grammar of
arrays, objects and white space is stated once, over what is taken for white space,
for a string and for a number (`Tokens`): `Tokens.rfc` is the standard's choice, and a
reader that is more liberal is another.  `Json.Text.map` carries a text from one choice
to another. -/

namespace CMem

/-- JSON values, with numbers in `D`.  An object may have a name more than once. -/
inductive Json (D : Type)
  | null
  | bool (b : Bool)
  | number (d : D)
  | string (s : Bytes)
  | array (elems : List (Json D))
  | object (members : List (Bytes × Json D))

/-- What a grammar takes for white space, and for the text of a string and of a number. -/
structure Tokens (D : Type) where
  space : UInt8 → Prop
  string : Bytes → Bytes → Prop
  number : Bytes → D → Prop

namespace Json
variable {D : Type}

/-- White space. -/
def Blank (G : Tokens D) (w : Bytes) : Prop := ∀ c ∈ w, G.space c

mutual

/-- The bytes `t` write the value. -/
def Text (G : Tokens D) : Json D → Bytes → Prop
  | null, t => t = ascii "null"
  | bool b, t => t = if b then ascii "true" else ascii "false"
  | number d, t => G.number t d
  | string s, t => G.string t s
  | array elems, t => ∃ body, t = 91 :: body ∧ Elements G elems body
  | object members, t => ∃ body, t = 123 :: body ∧ Members G members body

/-- The bytes `t` write the elements of an array and close it. -/
def Elements (G : Tokens D) : List (Json D) → Bytes → Prop
  | [], t => ∃ w, Blank G w ∧ t = w ++ [93]
  | v :: vs, t => ∃ w x w' y, Blank G w ∧ v.Text G x ∧ Blank G w' ∧ t = w ++ x ++ w' ++ y ∧
      (vs = [] ∧ y = [93] ∨ vs ≠ [] ∧ ∃ body, y = 44 :: body ∧ Elements G vs body)

/-- The bytes `t` write the members of an object and close it. -/
def Members (G : Tokens D) : List (Bytes × Json D) → Bytes → Prop
  | [], t => ∃ w, Blank G w ∧ t = w ++ [125]
  | (k, v) :: ms, t => ∃ w key w₁ w₂ x w' y, Blank G w ∧ G.string key k ∧ Blank G w₁ ∧
      Blank G w₂ ∧ v.Text G x ∧ Blank G w' ∧
      t = w ++ key ++ w₁ ++ 58 :: (w₂ ++ x ++ w' ++ y) ∧
      (ms = [] ∧ y = [125] ∨ ms ≠ [] ∧ ∃ body, y = 44 :: body ∧ Members G ms body)

end

mutual

/-- How deep arrays and objects are nested. -/
def depth : Json D → Nat
  | array elems => elementsDepth elems + 1
  | object members => membersDepth members + 1
  | _ => 0

def elementsDepth : List (Json D) → Nat
  | [] => 0
  | v :: vs => max v.depth (elementsDepth vs)

def membersDepth : List (Bytes × Json D) → Nat
  | [] => 0
  | (_, v) :: ms => max v.depth (membersDepth ms)

end

mutual

/-- The value with every string and every name replaced. -/
def mapStrings (f : Bytes → Bytes) : Json D → Json D
  | null => null
  | bool b => bool b
  | number d => number d
  | string s => string (f s)
  | array elems => array (mapElements f elems)
  | object members => object (mapMembers f members)

def mapElements (f : Bytes → Bytes) : List (Json D) → List (Json D)
  | [] => []
  | v :: vs => v.mapStrings f :: mapElements f vs

def mapMembers (f : Bytes → Bytes) : List (Bytes × Json D) → List (Bytes × Json D)
  | [] => []
  | (k, v) :: ms => (f k, v.mapStrings f) :: mapMembers f ms

end

mutual

/-- All strings and names satisfy `p`. -/
def Strings (p : Bytes → Prop) : Json D → Prop
  | string s => p s
  | array elems => ElementStrings p elems
  | object members => MemberStrings p members
  | _ => True

def ElementStrings (p : Bytes → Prop) : List (Json D) → Prop
  | [] => True
  | v :: vs => v.Strings p ∧ ElementStrings p vs

def MemberStrings (p : Bytes → Prop) : List (Bytes × Json D) → Prop
  | [] => True
  | (k, v) :: ms => p k ∧ v.Strings p ∧ MemberStrings p ms

end

mutual

/-- The value with `null` for every number that is not `p`. -/
def onlyNumbers (p : D → Bool) : Json D → Json D
  | null => null
  | bool b => bool b
  | number d => if p d then number d else null
  | string s => string s
  | array elems => array (onlyElementNumbers p elems)
  | object members => object (onlyMemberNumbers p members)

def onlyElementNumbers (p : D → Bool) : List (Json D) → List (Json D)
  | [] => []
  | v :: vs => v.onlyNumbers p :: onlyElementNumbers p vs

def onlyMemberNumbers (p : D → Bool) : List (Bytes × Json D) → List (Bytes × Json D)
  | [] => []
  | (k, v) :: ms => (k, v.onlyNumbers p) :: onlyMemberNumbers p ms

end

/-! ## From one grammar to another -/

section Map
variable {G G' : Tokens D} {f : Bytes → Bytes} {p : Bytes → Prop}

@[simp] theorem mapElements_eq_nil {vs : List (Json D)} : mapElements f vs = [] ↔ vs = [] := by
  cases vs <;> simp [mapElements]

@[simp] theorem mapMembers_eq_nil {ms : List (Bytes × Json D)} :
    mapMembers f ms = [] ↔ ms = [] := by
  cases ms with
  | nil => simp [mapMembers]
  | cons m ms => simp [mapMembers]

/-- The grammar `G'` reads what `G` reads, with the strings changed by `f`. -/
structure Reads (G G' : Tokens D) (f : Bytes → Bytes) : Prop where
  space : ∀ c, G.space c → G'.space c
  string : ∀ t s, G.string t s → G'.string t (f s)
  number : ∀ t d, G.number t d → G'.number t d

theorem Blank.nil : Blank G [] := fun _ h => absurd h List.not_mem_nil

theorem Blank.append {w w' : Bytes} (h : Blank G w) (h' : Blank G w') : Blank G (w ++ w') :=
  fun c hc => (List.mem_append.mp hc).elim (h c) (h' c)

theorem Blank.map {w : Bytes} (h : Reads G G' f) (hw : Blank G w) : Blank G' w :=
  fun c hc => h.space c (hw c hc)

mutual

/-- A text of one grammar is a text of a more liberal one. -/
theorem Text.map (h : Reads G G' f) : ∀ (v : Json D) (t : Bytes), v.Text G t →
    (v.mapStrings f).Text G' t
  | null, _, ht => ht
  | bool _, _, ht => ht
  | number d, t, ht => h.number t d ht
  | string s, t, ht => h.string t s ht
  | array elems, _, ⟨body, ht, hbody⟩ => ⟨body, ht, Elements.map h elems body hbody⟩
  | object members, _, ⟨body, ht, hbody⟩ => ⟨body, ht, Members.map h members body hbody⟩

theorem Elements.map (h : Reads G G' f) : ∀ (vs : List (Json D)) (t : Bytes),
    Elements G vs t → Elements G' (mapElements f vs) t
  | [], _, ⟨w, hw, ht⟩ => ⟨w, hw.map h, ht⟩
  | v :: vs, _, ⟨w, x, w', y, hw, hx, hw', ht, hy⟩ => by
    refine ⟨w, x, w', y, hw.map h, Text.map h v x hx, hw'.map h, ht, ?_⟩
    rcases hy with ⟨hvs, hy⟩ | ⟨hvs, body, hy, hbody⟩
    · exact Or.inl ⟨by simp [hvs], hy⟩
    · exact Or.inr ⟨by simpa using hvs, body, hy, Elements.map h vs body hbody⟩

theorem Members.map (h : Reads G G' f) : ∀ (ms : List (Bytes × Json D)) (t : Bytes),
    Members G ms t → Members G' (mapMembers f ms) t
  | [], _, ⟨w, hw, ht⟩ => ⟨w, hw.map h, ht⟩
  | (k, v) :: ms, _, ⟨w, key, w₁, w₂, x, w', y, hw, hkey, hw₁, hw₂, hx, hw', ht, hy⟩ => by
    refine ⟨w, key, w₁, w₂, x, w', y, hw.map h, h.string key k hkey, hw₁.map h, hw₂.map h,
      Text.map h v x hx, hw'.map h, ht, ?_⟩
    rcases hy with ⟨hms, hy⟩ | ⟨hms, body, hy, hbody⟩
    · exact Or.inl ⟨by simp [hms], hy⟩
    · exact Or.inr ⟨by simpa using hms, body, hy, Members.map h ms body hbody⟩

end

mutual

@[simp] theorem depth_mapStrings : ∀ v : Json D, (v.mapStrings f).depth = v.depth
  | null => rfl
  | bool _ => rfl
  | number _ => rfl
  | string _ => rfl
  | array elems => congrArg (· + 1) (elementsDepth_map elems)
  | object members => congrArg (· + 1) (membersDepth_map members)

theorem elementsDepth_map : ∀ vs : List (Json D),
    elementsDepth (mapElements f vs) = elementsDepth vs
  | [] => rfl
  | v :: vs => by
    rw [mapElements, elementsDepth, depth_mapStrings v, elementsDepth_map vs, elementsDepth]

theorem membersDepth_map : ∀ ms : List (Bytes × Json D),
    membersDepth (mapMembers f ms) = membersDepth ms
  | [] => rfl
  | (_, v) :: ms => by
    rw [mapMembers, membersDepth, depth_mapStrings v, membersDepth_map ms, membersDepth]

end

mutual

theorem mapStrings_eq_self (hf : ∀ s, p s → f s = s) : ∀ v : Json D, v.Strings p →
    v.mapStrings f = v
  | null, _ => rfl
  | bool _, _ => rfl
  | number _, _ => rfl
  | string s, h => congrArg string (hf s h)
  | array elems, h => congrArg array (mapElements_eq_self hf elems h)
  | object members, h => congrArg object (mapMembers_eq_self hf members h)

theorem mapElements_eq_self (hf : ∀ s, p s → f s = s) : ∀ vs : List (Json D),
    ElementStrings p vs → mapElements f vs = vs
  | [], _ => rfl
  | v :: vs, h => by
    rw [mapElements, mapStrings_eq_self hf v h.1, mapElements_eq_self hf vs h.2]

theorem mapMembers_eq_self (hf : ∀ s, p s → f s = s) : ∀ ms : List (Bytes × Json D),
    MemberStrings p ms → mapMembers f ms = ms
  | [], _ => rfl
  | (k, v) :: ms, h => by
    rw [mapMembers, hf k h.1, mapStrings_eq_self hf v h.2.1, mapMembers_eq_self hf ms h.2.2]

end

end Map

section Numbers
variable {p : D → Bool} {q : Bytes → Prop}

@[simp] theorem onlyElementNumbers_eq_nil {vs : List (Json D)} :
    onlyElementNumbers p vs = [] ↔ vs = [] := by
  cases vs <;> simp [onlyElementNumbers]

@[simp] theorem onlyMemberNumbers_eq_nil {ms : List (Bytes × Json D)} :
    onlyMemberNumbers p ms = [] ↔ ms = [] := by
  cases ms with
  | nil => simp [onlyMemberNumbers]
  | cons m ms => simp [onlyMemberNumbers]

mutual

@[simp] theorem depth_onlyNumbers : ∀ v : Json D, (v.onlyNumbers p).depth = v.depth
  | null | bool _ | string _ => rfl
  | number d => by
    rw [onlyNumbers]
    split <;> rfl
  | array elems => congrArg (· + 1) (elementsDepth_onlyNumbers elems)
  | object members => congrArg (· + 1) (membersDepth_onlyNumbers members)

theorem elementsDepth_onlyNumbers : ∀ vs : List (Json D),
    elementsDepth (onlyElementNumbers p vs) = elementsDepth vs
  | [] => rfl
  | v :: vs => by
    rw [onlyElementNumbers, elementsDepth, depth_onlyNumbers v, elementsDepth_onlyNumbers vs,
      elementsDepth]

theorem membersDepth_onlyNumbers : ∀ ms : List (Bytes × Json D),
    membersDepth (onlyMemberNumbers p ms) = membersDepth ms
  | [] => rfl
  | (_, v) :: ms => by
    rw [onlyMemberNumbers, membersDepth, depth_onlyNumbers v, membersDepth_onlyNumbers ms,
      membersDepth]

end

mutual

theorem Strings.onlyNumbers : ∀ {v : Json D}, v.Strings q → (v.onlyNumbers p).Strings q
  | null, h | bool _, h | string _, h => h
  | number d, _ => by
    rw [Json.onlyNumbers]
    split <;> exact trivial
  | array _, h => ElementStrings.onlyNumbers h
  | object _, h => MemberStrings.onlyNumbers h

theorem ElementStrings.onlyNumbers : ∀ {vs : List (Json D)}, ElementStrings q vs →
    ElementStrings q (onlyElementNumbers p vs)
  | [], _ => trivial
  | _ :: _, h => ⟨h.1.onlyNumbers, h.2.onlyNumbers⟩

theorem MemberStrings.onlyNumbers : ∀ {ms : List (Bytes × Json D)}, MemberStrings q ms →
    MemberStrings q (onlyMemberNumbers p ms)
  | [], _ => trivial
  | (_, _) :: _, h => ⟨h.1, h.2.1.onlyNumbers, h.2.2.onlyNumbers⟩

end

end Numbers

/-! ## The standard's strings and numbers -/

/-- The UTF-8 bytes of a code point. -/
def utf8 (n : Nat) : Bytes :=
  if n < 0x80 then [UInt8.ofNat n]
  else if n < 0x800 then [UInt8.ofNat (n / 64 + 0xC0), UInt8.ofNat (n % 64 + 0x80)]
  else if n < 0x10000 then
    [UInt8.ofNat (n / 4096 + 0xE0), UInt8.ofNat (n / 64 % 64 + 0x80), UInt8.ofNat (n % 64 + 0x80)]
  else
    [UInt8.ofNat (n / 262144 + 0xF0), UInt8.ofNat (n / 4096 % 64 + 0x80),
      UInt8.ofNat (n / 64 % 64 + 0x80), UInt8.ofNat (n % 64 + 0x80)]

theorem toNat_lt (c : Char) : c.toNat < 0x110000 := by
  rcases c.valid with h | h
  · exact Nat.lt_trans h (by decide)
  · exact h.2

theorem utf8_toNat (c : Char) : utf8 c.toNat = String.utf8EncodeChar c := by
  have hc := toNat_lt c
  show utf8 c.val.toNat = String.utf8EncodeChar c
  have hc' : c.val.toNat < 0x110000 := hc
  rw [utf8, String.utf8EncodeChar]
  generalize c.val.toNat = n at hc'
  by_cases h₁ : n < 0x80
  · rw [if_pos h₁, if_pos (Nat.le_of_lt_succ h₁)]
  rw [if_neg h₁, if_neg (show ¬ n ≤ 0x7F by omega)]
  by_cases h₂ : n < 0x800
  · rw [if_pos h₂, if_pos (Nat.le_of_lt_succ h₂), Nat.mod_eq_of_lt (a := n / 64) (by omega)]
  rw [if_neg h₂, if_neg (show ¬ n ≤ 0x7FF by omega)]
  by_cases h₃ : n < 0x10000
  · rw [if_pos h₃, if_pos (Nat.le_of_lt_succ h₃), Nat.mod_eq_of_lt (a := n / 4096) (by omega)]
  · rw [if_neg h₃, if_neg (show ¬ n ≤ 0xFFFF by omega),
      Nat.mod_eq_of_lt (a := n / 262144) (by omega)]

/-- The characters with a two-character escape sequence. -/
def shortEscapes : List (UInt8 × UInt8) :=
  [(34, 34), (92, 92), (47, 47), (98, 8), (102, 12), (110, 10), (114, 13), (116, 9)]

/-- Four hexadecimal digits, in either case. -/
def Hex4 (t : Bytes) (n : Nat) : Prop :=
  ∃ a b c d x y z w, t = [a, b, c, d] ∧ Percent.hexValue a = some x ∧
    Percent.hexValue b = some y ∧ Percent.hexValue c = some z ∧ Percent.hexValue d = some w ∧
    n = ((x * 16 + y) * 16 + z) * 16 + w

/-- The UTF-16 code units of a character. -/
def utf16 (c : Char) : List Nat :=
  if c.toNat < 0x10000 then [c.toNat]
  else [0xD800 + (c.toNat - 0x10000) / 0x400, 0xDC00 + (c.toNat - 0x10000) % 0x400]

/-- `t` is `\u` and four digits for each of the units. -/
def UnitEscapes : List Nat → Bytes → Prop
  | [], t => t = []
  | n :: ns, t => ∃ h rest, Hex4 h n ∧ UnitEscapes ns rest ∧ t = 92 :: 117 :: (h ++ rest)

/-- `t` writes the characters `s` of a string between its quotes.  Bytes stand for themselves:
whether those from 128 on are UTF-8 is not looked at. -/
inductive Chars : Bytes → Bytes → Prop
  | nil : Chars [] []
  | plain {c : UInt8} {t s : Bytes} : 32 ≤ c → c ≠ 34 → c ≠ 92 → Chars t s →
      Chars (c :: t) (c :: s)
  | short {e c : UInt8} {t s : Bytes} : (e, c) ∈ shortEscapes → Chars t s →
      Chars (92 :: e :: t) (c :: s)
  | unicode {u : Char} {x t s : Bytes} : UnitEscapes (utf16 u) x → Chars t s →
      Chars (x ++ t) (String.utf8EncodeChar u ++ s)

/-- One or more digits. -/
def Digits (t : Bytes) : Prop := t ≠ [] ∧ ∀ c ∈ t, 48 ≤ c ∧ c ≤ 57

/-- The syntax of numbers: `-`, an integer part without leading zeros, a fraction and an
exponent. -/
def NumberText (t : Bytes) : Prop :=
  ∃ sign int frac exp, t = sign ++ int ++ frac ++ exp ∧ (sign = [] ∨ sign = [45]) ∧
    (int = [48] ∨ Digits int ∧ int.head? ≠ some 48) ∧
    (frac = [] ∨ ∃ ds, Digits ds ∧ frac = 46 :: ds) ∧
    (exp = [] ∨ ∃ e s ds, (e = 101 ∨ e = 69) ∧ (s = [] ∨ s = [43] ∨ s = [45]) ∧ Digits ds ∧
      exp = e :: (s ++ ds))

end Json

/-- The standard's grammar over bytes, with numbers read by `value`; a text of the standard is
one of it in UTF-8. -/
def Tokens.rfc {D : Type} (value : Bytes → D → Prop) : Tokens D where
  space c := c = 32 ∨ c = 9 ∨ c = 10 ∨ c = 13
  string t s := ∃ body, t = 34 :: (body ++ [34]) ∧ Json.Chars body s
  number t d := Json.NumberText t ∧ value t d

end CMem
