import VantiqMicro.CJsonTokens

/-! # What the JSON parser accepts -/

namespace VantiqMicro.CJson
open CMem ParseBuffer

/-! ## The calls on a buffer -/

section Dispatch
variable {D : Type} {fl : Floats D} {item : CJSON D} {p r : Bytes} {d fuel : Nat}

theorem prefix_drop {t r : Bytes} (h : t.isPrefixOf r = true) : t ++ r.drop t.length = r := by
  obtain ⟨s, rfl⟩ := List.isPrefixOf_iff_prefix.mp h
  rw [List.drop_left]

/-- One of the three names. -/
theorem literal_between {t : Bytes} (h0 : 0 ∉ t) (p r : Bytes) (d : Nat)
    (x : Except Fault (Option (CJSON D) × ParseBuffer)) (item : CJSON D) :
    (if (between p r d).canRead t.length then do
        if ← (between p r d).startsWith 0 t then
          return (some item,
            { between p r d with offset := (between p r d).offset + t.length })
        x
      else x) =
      if t.isPrefixOf r then .ok (some item, between (p ++ t) (r.drop t.length) d) else x := by
  rw [canRead_between, startsWith_between h0, ok_bind]
  by_cases h : t.isPrefixOf r = true
  · have hlen : t.length ≤ r.length := (List.isPrefixOf_iff_prefix.mp h).length_le
    have hadvance := between_advance p t (r.drop t.length) d
    rw [prefix_drop h] at hadvance
    rw [if_pos h, if_pos (decide_eq_true (Nat.le_succ_of_le hlen)), if_pos h]
    exact congrArg (fun b => Except.ok (some item, b)) hadvance
  · simp [h]

theorem parseValue_between (item : CJSON D) (p r : Bytes) (d fuel : Nat) :
    parseValue fl (fuel + 1) item (between p r d) =
      if (ascii "null").isPrefixOf r then
        .ok (some { item with kind := .null }, between (p ++ ascii "null") (r.drop 4) d)
      else if (ascii "false").isPrefixOf r then
        .ok (some { item with kind := .false }, between (p ++ ascii "false") (r.drop 5) d)
      else if (ascii "true").isPrefixOf r then
        .ok (some { item with kind := .true, valueint := 1 },
          between (p ++ ascii "true") (r.drop 4) d)
      else match r with
        | [] => .ok (none, between p [] d)
        | c :: _ =>
          if c = 34 then parseString item (between p r d)
          else if c = 45 ∨ (48 ≤ c ∧ c ≤ 57) then parseNumber fl item (between p r d)
          else if c = 91 then parseArray fl fuel item (between p r d)
          else if c = 123 then parseObject fl fuel item (between p r d)
          else .ok (none, between p r d) := by
  have hrest : ∀ {x y z : Except Fault (Option (CJSON D) × ParseBuffer)} {c : Prop} [Decidable c],
      x = y → (if c then z else x) = if c then z else y := by
    rintro _ _ _ _ _ rfl
    rfl
  rw [parseValue]
  refine (literal_between (t := ascii "null") (by decide) p r d _ _).trans (hrest ?_)
  refine (literal_between (t := ascii "false") (by decide) p r d _ _).trans (hrest ?_)
  refine (literal_between (t := ascii "true") (by decide) p r d _ _).trans (hrest ?_)
  rw [canAccessAtIndex_between, if_pos (decide_eq_true (Nat.zero_le _)), atOffset_between]
  cases r with
  | nil => rfl
  | cons c r => rfl

end Dispatch

/-! ## Arrays and objects

Both are read in the same way: a bracket, the items with commas between them, and the other
bracket. -/

section Containers
variable {D : Type} {fl : Floats D} {p q r : Bytes} {c close : UInt8} {d fuel : Nat}

/-- What follows an item: white space, and a comma and the other items or the end. -/
def separated (next : ParseBuffer → Except Fault (Option (List (CJSON D)) × ParseBuffer)) :
    Option (CJSON D) × ParseBuffer → Except Fault (Option (List (CJSON D)) × ParseBuffer)
  | (none, b) => .ok (none, b)
  | (some currentItem, b) => do
    let b ← bufferSkipWhitespace b
    if ← b.peekIs 44 then
      match ← next b with
      | (none, b) => return (none, b)
      | (some items, b) => return (some (currentItem :: items), b)
    else
      return (some [currentItem], b)

/-- An element of an array. -/
def element (fl : Floats D) (fuel : Nat) (b : ParseBuffer) :
    Except Fault (Option (CJSON D) × ParseBuffer) := do
  let b ← bufferSkipWhitespace b
  parseValue fl fuel (cJSONNewItem fl) b

/-- A member of an object. -/
def member (fl : Floats D) (fuel : Nat) (b : ParseBuffer) :
    Except Fault (Option (CJSON D) × ParseBuffer) := do
  let b ← bufferSkipWhitespace b
  match ← parseString (cJSONNewItem fl) b with
  | (none, b) => return (none, b)
  | (some currentItem, b) =>
    let b ← bufferSkipWhitespace b
    if !(← b.peekIs 58) then
      return (none, b)
    let b ← bufferSkipWhitespace { b with offset := b.offset + 1 }
    parseValue fl fuel { currentItem with string := currentItem.valuestring, valuestring := none } b

/-- What follows the opening bracket. -/
def container (close : UInt8) (kind : Kind)
    (items : ParseBuffer → Except Fault (Option (List (CJSON D)) × ParseBuffer))
    (item : CJSON D) (b : ParseBuffer) : Except Fault (Option (CJSON D) × ParseBuffer) := do
  let b ← bufferSkipWhitespace b
  if ← b.peekIs close then
    return (some { item with kind := kind, child := [] },
      { b with depth := b.depth - 1, offset := b.offset + 1 })
  if !b.canAccessAtIndex 0 then
    return (none, { b with offset := b.offset - 1 })
  match ← items { b with offset := b.offset - 1 } with
  | (none, b) => return (none, b)
  | (some head, b) =>
    if ← b.peekIs close then
      return (some { item with kind := kind, child := head },
        { b with depth := b.depth - 1, offset := b.offset + 1 })
    else
      return (none, b)

theorem parseElements_eq (q r : Bytes) (c : UInt8) (d : Nat) :
    parseElements fl (fuel + 1) (between q (c :: r) d) =
      (element fl fuel (between (q ++ [c]) r d) >>= separated (parseElements fl fuel)) := by
  have hadvance := between_advance_one q c r d
  rw [parseElements, show (between q (c :: r) d).offset = q.length from rfl, hadvance, element,
    bufferSkipWhitespace_between, ok_bind, ok_bind]
  rfl

theorem parseMembers_eq (q r : Bytes) (c : UInt8) (d : Nat) :
    parseMembers fl (fuel + 1) (between q (c :: r) d) =
      (member fl fuel (between (q ++ [c]) r d) >>= separated (parseMembers fl fuel)) := by
  have hadvance := between_advance_one q c r d
  rw [parseMembers, show (between q (c :: r) d).offset = q.length from rfl, hadvance, member,
    bufferSkipWhitespace_between, ok_bind, ok_bind]
  rcases parseString (cJSONNewItem fl) (between ((q ++ [c]) ++ r.takeWhile isBlank)
      (r.dropWhile isBlank) d) with fault | ⟨_ | currentItem, b⟩
  · rfl
  · rfl
  · simp only [ok_bind]
    rcases bufferSkipWhitespace b with fault | b
    · rfl
    simp only [ok_bind]
    rcases b.peekIs 58 with fault | colon
    · rfl
    cases colon with
    | false => rfl
    | true =>
      simp only [ok_bind, Bool.not_true, Bool.false_eq_true, if_false]
      rcases bufferSkipWhitespace { b with offset := b.offset + 1 } with fault | b
      · rfl
      rfl

theorem parseArray_eq (item : CJSON D) (p r : Bytes) (hd : d < CJSON_NESTING_LIMIT) :
    parseArray fl (fuel + 1) item (between p (91 :: r) d) =
      container 93 .array (parseElements fl fuel) item (between (p ++ [91]) r (d + 1)) := by
  have hdepth : ¬ CJSON_NESTING_LIMIT ≤ (between p (91 :: r) d).depth := Nat.not_le.mpr hd
  have hat : (between p (91 :: r) (d + 1)).atOffset 0 = .ok 91 := atOffset_between _ _ _ 0
  rw [parseArray, if_neg hdepth, ← between_advance_one p 91 r (d + 1)]
  show ((between p (91 :: r) (d + 1)).atOffset 0 >>= _) = _
  rw [hat, ok_bind, if_neg (by decide)]
  rfl

theorem parseObject_eq (item : CJSON D) (p r : Bytes) (hd : d < CJSON_NESTING_LIMIT) :
    parseObject fl (fuel + 1) item (between p (123 :: r) d) =
      container 125 .object (parseMembers fl fuel) item (between (p ++ [123]) r (d + 1)) := by
  have hdepth : ¬ CJSON_NESTING_LIMIT ≤ (between p (123 :: r) d).depth := Nat.not_le.mpr hd
  have hpeek := peekIs_between p (123 :: r) (d + 1) (by decide : (123 : UInt8) ≠ 0)
  rw [parseObject, if_neg hdepth, ← between_advance_one p 123 r (d + 1)]
  show ((between p (123 :: r) (d + 1)).peekIs 123 >>= _) = _
  rw [hpeek, ok_bind, List.head?_cons, decide_eq_true rfl]
  rfl

end Containers

/-! ## What is taken, and what it means -/

/-- The call refuses, or takes `t` off the front of `r` and returns what `R` allows. -/
def Takes {α : Type} (R : Bytes → α → Prop) (p r : Bytes) (d : Nat)
    (x : Except Fault (Option α × ParseBuffer)) : Prop :=
  (∃ b, x = .ok (none, b) ∧ b.length = (between p r d).length) ∨
    ∃ t rest y, r = t ++ rest ∧ R t y ∧ x = .ok (some y, between (p ++ t) rest d)

section Takes
variable {D α β : Type} {fl : Floats D} {p r t w : Bytes} {d : Nat} {close : UInt8} {kind : Kind}
  {R R' : Bytes → α → Prop} {S : Bytes → β → Prop}
  {x : Except Fault (Option α × ParseBuffer)}

theorem length_between_append (p w r : Bytes) (d : Nat) :
    (between (p ++ w) r d).length = (between p (w ++ r) d).length := by
  simp [between, Nat.add_assoc]

/-- What has been taken before belongs to it. -/
theorem Takes.after (h : Takes R (p ++ w) r d x)
    (hR : ∀ t y, R t y → R' (w ++ t) y) : Takes R' p (w ++ r) d x := by
  rcases h with ⟨b, hx, hb⟩ | ⟨t, rest, y, hr, hy, hx⟩
  · exact Or.inl ⟨b, hx, by rw [hb, length_between_append]⟩
  · refine Or.inr ⟨w ++ t, rest, y, by rw [hr, List.append_assoc], hR t y hy, ?_⟩
    rwa [← List.append_assoc]

theorem Takes.bind {f : Option α × ParseBuffer → Except Fault (Option β × ParseBuffer)}
    (h : Takes R p r d x) (hnone : ∀ b, ∃ b', f (none, b) = .ok (none, b') ∧ b'.length = b.length)
    (hsome : ∀ t rest y, r = t ++ rest → R t y →
      Takes S p r d (f (some y, between (p ++ t) rest d))) : Takes S p r d (x >>= f) := by
  rcases h with ⟨b, rfl, hb⟩ | ⟨t, rest, y, hr, hy, rfl⟩
  · obtain ⟨b', hf, hb'⟩ := hnone b
    exact Or.inl ⟨b', hf, hb'.trans hb⟩
  · exact hsome t rest y hr hy

variable (fl) in
/-- White space is skipped and belongs to what comes after it. -/
theorem Takes.blanks {f : ParseBuffer → Except Fault (Option α × ParseBuffer)}
    (h : ∀ w y, r = w ++ y → Json.Blank (accepted fl) w →
      Takes R p r d (f (between (p ++ w) y d))) :
    Takes R p r d (bufferSkipWhitespace (between p r d) >>= f) := by
  rw [bufferSkipWhitespace_between, ok_bind]
  exact h _ _ List.takeWhile_append_dropWhile.symm (blank_takeWhile fl r)

theorem Takes.refused {b : ParseBuffer} (hb : b.length = (between p r d).length) :
    Takes R p r d (.ok (none, b)) :=
  Or.inl ⟨b, rfl, hb⟩

theorem eq_cons_of_head? {c : UInt8} (h : decide (r.head? = some c) = true) :
    ∃ r', r = c :: r' :=
  List.head?_eq_some_iff.mp (of_decide_eq_true h)

theorem separated_takes {R₁ : Bytes → CJSON D → Prop} {R : Bytes → List (CJSON D) → Prop}
    {next : ParseBuffer → Except Fault (Option (List (CJSON D)) × ParseBuffer)}
    {x : Except Fault (Option (CJSON D) × ParseBuffer)} (hx : Takes R₁ p r d x)
    (hnext : ∀ q c r, Takes R (q ++ [c]) r d (next (between q (c :: r) d)))
    (hlast : ∀ t w y, Json.Blank (accepted fl) w → R₁ t y → R (t ++ w) [y])
    (hmore : ∀ t w body y ys, Json.Blank (accepted fl) w → R₁ t y → R body ys →
      R (t ++ (w ++ 44 :: body)) (y :: ys)) :
    Takes R p r d (x >>= separated next) := by
  refine hx.bind (fun b => ⟨b, rfl, rfl⟩) ?_
  rintro t rest y rfl hy
  refine Takes.after (R := fun t' ys => R (t ++ t') ys) ?_ fun _ _ h => h
  refine Takes.blanks fl ?_
  rintro w rest rfl hw
  rw [peekIs_between _ _ _ (by decide), ok_bind]
  cases hcomma : decide (rest.head? = some 44) with
  | false =>
    exact Or.inr ⟨w, rest, [y], rfl, hlast t w y hw hy, rfl⟩
  | true =>
    obtain ⟨rest, rfl⟩ := eq_cons_of_head? hcomma
    rw [if_pos rfl]
    refine Takes.after (R := fun t' ys => R (t ++ (w ++ t')) ys) ?_ fun _ _ h => h
    refine Takes.after (w := [44]) (R := fun t' ys => R (t ++ (w ++ 44 :: t')) ys) ?_
      fun _ _ h => h
    refine (hnext _ 44 rest).bind (fun b => ⟨b, rfl, rfl⟩) ?_
    rintro body rest ys rfl hys
    exact Or.inr ⟨body, rest, y :: ys, rfl, hmore t w body y ys hw hy hys, rfl⟩

variable (fl) in
theorem container_takes {R : Bytes → List (CJSON D) → Prop} {R' : Bytes → CJSON D → Prop}
    {item : CJSON D} {c : UInt8}
    {items : ParseBuffer → Except Fault (Option (List (CJSON D)) × ParseBuffer)}
    (hclose : close ≠ 0)
    (hitems : ∀ q c r, Takes R (q ++ [c]) r (d + 1) (items (between q (c :: r) (d + 1))))
    (hempty : ∀ w, Json.Blank (accepted fl) w →
      R' (c :: (w ++ [close])) { item with kind := kind, child := [] })
    (hmore : ∀ w t ys, Json.Blank (accepted fl) w → R t ys →
      R' (c :: (w ++ t ++ [close])) { item with kind := kind, child := ys }) :
    Takes R' p (c :: r) d (container close kind items item (between (p ++ [c]) r (d + 1))) := by
  rw [container, bufferSkipWhitespace_between, ok_bind, peekIs_between _ _ _ hclose, ok_bind]
  have hw := blank_takeWhile fl r
  have hr : r.takeWhile isBlank ++ r.dropWhile isBlank = r := List.takeWhile_append_dropWhile
  generalize r.takeWhile isBlank = w at hw hr ⊢
  generalize r.dropWhile isBlank = y at hr ⊢
  subst hr
  cases hhead : decide (y.head? = some close) with
  | true =>
    obtain ⟨rest, rfl⟩ := eq_cons_of_head? hhead
    have hadvance := between_advance_one (p ++ [c] ++ w) close rest d
    refine Or.inr ⟨c :: (w ++ [close]), rest, _, by simp, hempty w hw, ?_⟩
    rw [if_pos rfl]
    refine congrArg (fun b => Except.ok (some _, b)) (hadvance.trans ?_)
    simp
  | false =>
    -- the items start at the byte before them
    obtain ⟨q, e, hq⟩ : ∃ q e, p ++ [c] ++ w = q ++ [e] :=
      ⟨_, _, (List.dropLast_append_getLast (by simp)).symm⟩
    have hback : { between (p ++ [c] ++ w) y (d + 1) with
        offset := (between (p ++ [c] ++ w) y (d + 1)).offset - 1 } =
          between q (e :: y) (d + 1) := by
      rw [hq, ← between_advance_one]
      rfl
    rw [if_neg (by decide), canAccessAtIndex_between, decide_eq_true (Nat.zero_le _),
      if_neg (by decide)]
    show Takes R' p (c :: (w ++ y)) d (items _ >>= _)
    rw [hback]
    rcases hitems q e y with ⟨b, hrun, hb⟩ | ⟨t, rest, ys, rfl, hys, hrun⟩
    · rw [hrun]
      exact Takes.refused (by rw [hb, ← hq, length_between_append, length_between_append]; rfl)
    · rw [hrun, ok_bind]
      show Takes R' p (c :: (w ++ (t ++ rest))) d
        ((between (q ++ [e] ++ t) rest (d + 1)).peekIs close >>= _)
      rw [peekIs_between _ _ _ hclose, ok_bind, ← hq]
      cases hend : decide (rest.head? = some close) with
      | false => exact Takes.refused (by
          rw [length_between_append, length_between_append, length_between_append]
          rfl)
      | true =>
        obtain ⟨rest, rfl⟩ := eq_cons_of_head? hend
        have hadvance := between_advance_one (p ++ [c] ++ w ++ t) close rest d
        refine Or.inr ⟨c :: (w ++ t ++ [close]), rest, _, by simp, hmore w t ys hw hys, ?_⟩
        rw [if_pos rfl]
        refine congrArg (fun b => Except.ok (some _, b)) (hadvance.trans ?_)
        simp

end Takes

/-! ## Soundness -/

section Sound
variable {D : Type} {fl : Floats D} {p r t w rest : Bytes} {d fuel : Nat} {item : CJSON D}
  {items : List (CJSON D)}

/-- The item holds a value that `t` writes; its name is as it was. -/
def ValueAt (fl : Floats D) (d : Nat) (name : Option Block) (t : Bytes) (item : CJSON D) : Prop :=
  ∃ v, Holds fl v item ∧ v.depth + d ≤ CJSON_NESTING_LIMIT ∧ item.string = name ∧
    v.Text (accepted fl) t

def ElementAt (fl : Floats D) (d : Nat) (t : Bytes) (item : CJSON D) : Prop :=
  ∃ v w x, Holds fl v item ∧ v.depth + d ≤ CJSON_NESTING_LIMIT ∧ t = w ++ x ∧
    Json.Blank (accepted fl) w ∧ v.Text (accepted fl) x

def MemberAt (fl : Floats D) (d : Nat) (t : Bytes) (item : CJSON D) : Prop :=
  ∃ k v w key w₁ w₂ x b, Holds fl v item ∧ v.depth + d ≤ CJSON_NESTING_LIMIT ∧
    item.string = some b ∧ b.stringBytes = some k ∧ t = w ++ key ++ w₁ ++ 58 :: (w₂ ++ x) ∧
    Json.Blank (accepted fl) w ∧ StringToken key k ∧ Json.Blank (accepted fl) w₁ ∧
    Json.Blank (accepted fl) w₂ ∧ v.Text (accepted fl) x

/-- The items hold what `t` writes up to the closing bracket. -/
def ElementsAt (fl : Floats D) (d : Nat) (t : Bytes) (items : List (CJSON D)) : Prop :=
  ∃ vs, vs ≠ [] ∧ HoldsElements fl vs items ∧ Json.elementsDepth vs + d ≤ CJSON_NESTING_LIMIT ∧
    Json.Elements (accepted fl) vs (t ++ [93])

def MembersAt (fl : Floats D) (d : Nat) (t : Bytes) (items : List (CJSON D)) : Prop :=
  ∃ ms, ms ≠ [] ∧ HoldsMembers fl ms items ∧ Json.membersDepth ms + d ≤ CJSON_NESTING_LIMIT ∧
    Json.Members (accepted fl) ms (t ++ [125])

theorem elementsAt_last {y : CJSON D} (hw : Json.Blank (accepted fl) w)
    (hy : ElementAt fl d t y) : ElementsAt fl d (t ++ w) [y] := by
  obtain ⟨v, w₀, x, hv, hdepth, rfl, hw₀, hx⟩ := hy
  refine ⟨[v], by simp, ⟨y, [], rfl, hv, rfl⟩, by simpa [Json.elementsDepth] using hdepth, ?_⟩
  exact ⟨w₀, x, w, [93], hw₀, hx, hw, rfl, Or.inl ⟨rfl, rfl⟩⟩

theorem elementsAt_more {body : Bytes} {y : CJSON D} {ys : List (CJSON D)}
    (hw : Json.Blank (accepted fl) w) (hy : ElementAt fl d t y) (hys : ElementsAt fl d body ys) :
    ElementsAt fl d (t ++ (w ++ 44 :: body)) (y :: ys) := by
  obtain ⟨v, w₀, x, hv, hdepth, rfl, hw₀, hx⟩ := hy
  obtain ⟨vs, hne, hvs, hvsdepth, hbody⟩ := hys
  refine ⟨v :: vs, by simp, ⟨y, ys, rfl, hv, hvs⟩, ?_, ?_⟩
  · rw [Json.elementsDepth]
    omega
  · exact ⟨w₀, x, w, 44 :: (body ++ [93]), hw₀, hx, hw, by simp, Or.inr ⟨hne, _, rfl, hbody⟩⟩

theorem membersAt_last {y : CJSON D} (hw : Json.Blank (accepted fl) w)
    (hy : MemberAt fl d t y) : MembersAt fl d (t ++ w) [y] := by
  obtain ⟨k, v, w₀, key, w₁, w₂, x, b, hv, hdepth, hb, hk, rfl, hw₀, hkey, hw₁, hw₂, hx⟩ := hy
  refine ⟨[(k, v)], by simp, ⟨y, [], b, rfl, hb, hk, hv, rfl⟩,
    by simpa [Json.membersDepth] using hdepth, ?_⟩
  exact ⟨w₀, key, w₁, w₂, x, w, [125], hw₀, hkey, hw₁, hw₂, hx, hw, by simp,
    Or.inl ⟨rfl, rfl⟩⟩

theorem membersAt_more {body : Bytes} {y : CJSON D} {ys : List (CJSON D)}
    (hw : Json.Blank (accepted fl) w) (hy : MemberAt fl d t y) (hys : MembersAt fl d body ys) :
    MembersAt fl d (t ++ (w ++ 44 :: body)) (y :: ys) := by
  obtain ⟨k, v, w₀, key, w₁, w₂, x, b, hv, hdepth, hb, hk, rfl, hw₀, hkey, hw₁, hw₂, hx⟩ := hy
  obtain ⟨ms, hne, hms, hmsdepth, hbody⟩ := hys
  refine ⟨(k, v) :: ms, by simp, ⟨y, ys, b, rfl, hb, hk, hv, hms⟩, ?_, ?_⟩
  · rw [Json.membersDepth]
    omega
  · exact ⟨w₀, key, w₁, w₂, x, w, 44 :: (body ++ [125]), hw₀, hkey, hw₁, hw₂, hx, hw, by simp,
      Or.inr ⟨hne, _, rfl, hbody⟩⟩

theorem Elements.blank {vs : List (Json D)} {G : Tokens D} (hw : Json.Blank G w)
    (ht : Json.Elements G vs t) : Json.Elements G vs (w ++ t) := by
  have hblank : ∀ {w' : Bytes}, Json.Blank G w' → Json.Blank G (w ++ w') := fun hw' c hc =>
    (List.mem_append.mp hc).elim (hw c) (hw' c)
  cases vs with
  | nil =>
    obtain ⟨w', hw', rfl⟩ := ht
    exact ⟨w ++ w', hblank hw', by simp⟩
  | cons v vs =>
    obtain ⟨w', x, w'', y, hw', hx, hw'', rfl, hy⟩ := ht
    exact ⟨w ++ w', x, w'', y, hblank hw', hx, hw'', by simp, hy⟩

theorem Members.blank {ms : List (Bytes × Json D)} {G : Tokens D} (hw : Json.Blank G w)
    (ht : Json.Members G ms t) : Json.Members G ms (w ++ t) := by
  have hblank : ∀ {w' : Bytes}, Json.Blank G w' → Json.Blank G (w ++ w') := fun hw' c hc =>
    (List.mem_append.mp hc).elim (hw c) (hw' c)
  cases ms with
  | nil =>
    obtain ⟨w', hw', rfl⟩ := ht
    exact ⟨w ++ w', hblank hw', by simp⟩
  | cons m ms =>
    obtain ⟨w', key, w₁, w₂, x, w'', y, hw', hkey, hw₁, hw₂, hx, hw'', rfl, hy⟩ := ht
    exact ⟨w ++ w', key, w₁, w₂, x, w'', y, hblank hw', hkey, hw₁, hw₂, hx, hw'', by simp, hy⟩

theorem parseString_takes (item : CJSON D) (p r : Bytes) (d : Nat) :
    Takes (fun t y => ∃ s b, StringToken t s ∧ b.stringBytes = some s ∧
      y = { item with kind := .string, valuestring := some b }) p r d
      (parseString item (between p r d)) := by
  rcases parseString_between item p r d with ⟨t, rest, s, b, hr, ht, hb, hrun⟩ |
    ⟨-, hrefused⟩
  · exact Or.inr ⟨t, rest, _, hr, ⟨s, b, ht, hb, rfl⟩, hrun⟩
  · exact Or.inl hrefused

theorem element_takes
    (hvalue : ∀ item p r, Takes (ValueAt fl d item.string) p r d
      (parseValue fl fuel item (between p r d))) (p r : Bytes) :
    Takes (ElementAt fl d) p r d (element fl fuel (between p r d)) := by
  rw [element]
  refine Takes.blanks fl ?_
  rintro w y rfl hw
  refine (hvalue _ _ y).after ?_
  rintro t item ⟨v, hv, hdepth, -, htext⟩
  exact ⟨v, w, t, hv, hdepth, rfl, hw, htext⟩

theorem member_takes
    (hvalue : ∀ item p r, Takes (ValueAt fl d item.string) p r d
      (parseValue fl fuel item (between p r d))) (p r : Bytes) :
    Takes (MemberAt fl d) p r d (member fl fuel (between p r d)) := by
  rw [member]
  refine Takes.blanks fl ?_
  rintro w y rfl hw
  refine Takes.after (w := w) (R := fun t => MemberAt fl d (w ++ t)) ?_ fun _ _ h => h
  refine (parseString_takes _ _ y d).bind (fun b => ⟨b, rfl, rfl⟩) ?_
  rintro key rest _ rfl ⟨k, b, hkey, hb, rfl⟩
  refine Takes.after (w := key) (R := fun t => MemberAt fl d (w ++ (key ++ t))) ?_
    fun _ _ h => h
  refine Takes.blanks fl ?_
  rintro w₁ y rfl hw₁
  rw [peekIs_between _ _ _ (by decide), ok_bind]
  cases hcolon : decide (y.head? = some 58) with
  | false => exact Takes.refused (length_between_append _ _ _ _)
  | true =>
    obtain ⟨y, rfl⟩ := eq_cons_of_head? hcolon
    refine Takes.after (w := w₁) (R := fun t => MemberAt fl d (w ++ (key ++ (w₁ ++ t)))) ?_
      fun _ _ h => h
    refine Takes.after (w := [58]) (r := y)
      (R := fun t => MemberAt fl d (w ++ (key ++ (w₁ ++ 58 :: t)))) ?_ fun _ _ h => h
    have hadvance := between_advance_one (p ++ w ++ key ++ w₁) 58 y d
    show Takes _ _ y d (bufferSkipWhitespace { between (p ++ w ++ key ++ w₁) (58 :: y) d with
      offset := (p ++ w ++ key ++ w₁).length + 1 } >>= _)
    rw [hadvance]
    refine Takes.blanks fl ?_
    rintro w₂ x rfl hw₂
    refine (hvalue _ _ x).after ?_
    rintro t item ⟨v, hv, hdepth, hname, htext⟩
    exact ⟨k, v, w, key, w₁, w₂, t, b, hv, hdepth, hname, hb, by simp, hw, hkey, hw₁, hw₂, htext⟩

theorem parseNumber_takes (hr : ∃ c ∈ r.head?, c = 45 ∨ (48 ≤ c ∧ c ≤ 57))
    (hd : d ≤ CJSON_NESTING_LIMIT) (item : CJSON D) (p : Bytes) :
    Takes (ValueAt fl d item.string) p r d (parseNumber fl item (between p r d)) := by
  rw [parseNumber_between]
  cases hx : fl.strtod (numberPart r) with
  | none => exact Takes.refused rfl
  | some xn =>
    obtain ⟨x, n⟩ := xn
    refine Or.inr ⟨r.take n, r.drop n, _, (List.take_append_drop n r).symm, ?_, rfl⟩
    exact ⟨.number x, ⟨rfl, rfl, rfl⟩, by simpa [Json.depth] using hd, rfl,
      numberToken_take hr hx⟩

theorem prefix_takes {lit : Bytes} {v : Json D} {name : Option Block}
    (hd : d ≤ CJSON_NESTING_LIMIT) (hr : lit.isPrefixOf r = true) (hv : Holds fl v item)
    (hdepth : v.depth = 0) (htext : v.Text (accepted fl) lit) (hname : item.string = name)
    (p : Bytes) :
    Takes (ValueAt fl d name) p r d
      (.ok (some item, between (p ++ lit) (r.drop lit.length) d)) :=
  Or.inr ⟨lit, _, item, (prefix_drop hr).symm,
    ⟨v, hv, by rwa [hdepth, Nat.zero_add], hname, htext⟩, rfl⟩

theorem parseArray_takes
    (helements : ∀ n < fuel, d + 1 ≤ CJSON_NESTING_LIMIT → ∀ q c r,
      Takes (ElementsAt fl (d + 1)) (q ++ [c]) r (d + 1)
        (parseElements fl n (between q (c :: r) (d + 1)))) (item : CJSON D) (p r : Bytes) :
    Takes (ValueAt fl d item.string) p (91 :: r) d
      (parseArray fl fuel item (between p (91 :: r) d)) := by
  obtain _ | fuel := fuel
  · rw [parseArray]
    exact Takes.refused rfl
  by_cases hd : d < CJSON_NESTING_LIMIT
  · rw [parseArray_eq item p r hd]
    refine container_takes fl (by decide) (helements fuel (Nat.lt_succ_self _) hd)
      ?_ ?_
    · intro w hw
      exact ⟨.array [], ⟨rfl, rfl⟩, by
        simpa [Json.depth, Json.elementsDepth, Nat.add_comm 1] using Nat.succ_le_of_lt hd,
        rfl, _, rfl, w, hw, rfl⟩
    · rintro w t ys hw ⟨vs, -, hvs, hdepth, htext⟩
      refine ⟨.array vs, ⟨rfl, hvs⟩, ?_, rfl, _, rfl, ?_⟩
      · rw [Json.depth]
        omega
      · rw [List.append_assoc]
        exact Elements.blank hw htext
  · rw [parseArray]
    have hdepth : CJSON_NESTING_LIMIT ≤ (between p (91 :: r) d).depth := Nat.not_lt.mp hd
    rw [if_pos hdepth]
    exact Takes.refused rfl

theorem parseObject_takes
    (hmembers : ∀ n < fuel, d + 1 ≤ CJSON_NESTING_LIMIT → ∀ q c r,
      Takes (MembersAt fl (d + 1)) (q ++ [c]) r (d + 1)
        (parseMembers fl n (between q (c :: r) (d + 1)))) (item : CJSON D) (p r : Bytes) :
    Takes (ValueAt fl d item.string) p (123 :: r) d
      (parseObject fl fuel item (between p (123 :: r) d)) := by
  obtain _ | fuel := fuel
  · rw [parseObject]
    exact Takes.refused rfl
  by_cases hd : d < CJSON_NESTING_LIMIT
  · rw [parseObject_eq item p r hd]
    refine container_takes fl (by decide) (hmembers fuel (Nat.lt_succ_self _) hd) ?_ ?_
    · intro w hw
      exact ⟨.object [], ⟨rfl, rfl⟩, by
        simpa [Json.depth, Json.membersDepth, Nat.add_comm 1] using Nat.succ_le_of_lt hd,
        rfl, _, rfl, w, hw, rfl⟩
    · rintro w t ys hw ⟨ms, -, hms, hdepth, htext⟩
      refine ⟨.object ms, ⟨rfl, hms⟩, ?_, rfl, _, rfl, ?_⟩
      · rw [Json.depth]
        omega
      · rw [List.append_assoc]
        exact Members.blank hw htext
  · rw [parseObject]
    have hdepth : CJSON_NESTING_LIMIT ≤ (between p (123 :: r) d).depth := Nat.not_lt.mp hd
    rw [if_pos hdepth]
    exact Takes.refused rfl

variable (fl) in
/-- **Nothing is read outside the text, and what is taken is well-formed.** -/
theorem parse_sound (fuel : Nat) : ∀ d ≤ CJSON_NESTING_LIMIT,
    (∀ item p r, Takes (ValueAt fl d item.string) p r d
      (parseValue fl fuel item (between p r d))) ∧
    (∀ q c r, Takes (ElementsAt fl d) (q ++ [c]) r d
      (parseElements fl fuel (between q (c :: r) d))) ∧
    ∀ q c r, Takes (MembersAt fl d) (q ++ [c]) r d
      (parseMembers fl fuel (between q (c :: r) d)) := by
  induction fuel using Nat.strong_induction_on with
  | _ fuel ih =>
  intro d hd
  obtain _ | fuel := fuel
  · refine ⟨fun _ _ _ => ?_, fun _ _ _ => ?_, fun _ _ _ => ?_⟩
    · rw [parseValue]
      exact Takes.refused rfl
    · rw [parseElements]
      exact Takes.refused (length_between_append _ [_] _ _).symm
    · rw [parseMembers]
      exact Takes.refused (length_between_append _ [_] _ _).symm
  have hvalue := (ih fuel (Nat.lt_succ_self _) d hd).1
  refine ⟨fun item p r => ?_, fun q c r => ?_, fun q c r => ?_⟩
  · rw [parseValue_between]
    split
    · rename_i h
      refine prefix_takes (v := .null) hd h ?_ rfl rfl ?_ p <;> rfl
    split
    · rename_i h
      refine prefix_takes (v := .bool false) hd h ?_ rfl rfl ?_ p <;> rfl
    split
    · rename_i h
      refine prefix_takes (v := .bool true) hd h ?_ rfl rfl ?_ p <;> rfl
    cases r with
    | nil => exact Takes.refused rfl
    | cons c r =>
      simp only
      split
      · rcases parseString_takes item p (c :: r) d with h | ⟨t, rest, y, hr, hy, hrun⟩
        · exact Or.inl h
        · obtain ⟨s, b, ht, hb, rfl⟩ := hy
          refine Or.inr ⟨t, rest, _, hr, ?_, hrun⟩
          exact ⟨.string s, ⟨rfl, b, rfl, hb⟩, by simpa [Json.depth] using hd, rfl, ht⟩
      split
      · rename_i h
        exact parseNumber_takes ⟨c, rfl, h⟩ hd item p
      split
      · rename_i h
        subst h
        exact parseArray_takes (fun n hn hd => (ih n (Nat.lt_succ_of_lt hn) _ hd).2.1) item p r
      split
      · rename_i h
        subst h
        exact parseObject_takes (fun n hn hd => (ih n (Nat.lt_succ_of_lt hn) _ hd).2.2) item p r
      · exact Takes.refused rfl
  · rw [parseElements_eq]
    exact separated_takes (element_takes hvalue _ _)
      (ih fuel (Nat.lt_succ_self _) d hd).2.1
      (fun _ _ _ hw hy => elementsAt_last hw hy)
      fun _ _ _ _ _ hw hy hys => elementsAt_more hw hy hys
  · rw [parseMembers_eq]
    exact separated_takes (member_takes hvalue _ _)
      (ih fuel (Nat.lt_succ_self _) d hd).2.2
      (fun _ _ _ hw hy => membersAt_last hw hy)
      fun _ _ _ _ _ hw hy hys => membersAt_more hw hy hys

end Sound

/-! ## Completeness -/

section Complete
variable {D : Type} {fl : Floats D} {p q r t w y rest : Bytes} {c close : UInt8} {d fuel : Nat}
  {item : CJSON D} {v : Json D}

theorem takeWhile_blank (hw : Json.Blank (accepted fl) w) (hc : isBlank c = false) (r : Bytes) :
    (w ++ c :: r).takeWhile isBlank = w := by
  rw [List.takeWhile_append_of_pos fun _ h => isBlank_iff.mpr (hw _ h),
    List.takeWhile_cons_of_neg (by rw [hc]; decide), List.append_nil]

theorem dropWhile_blank (hw : Json.Blank (accepted fl) w) (hc : isBlank c = false) (r : Bytes) :
    (w ++ c :: r).dropWhile isBlank = c :: r := by
  rw [List.dropWhile_append_of_pos fun _ h => isBlank_iff.mpr (hw _ h),
    List.dropWhile_cons_of_neg (by rw [hc]; decide)]

theorem skip_blank (hw : Json.Blank (accepted fl) w) (hc : isBlank c = false) (p r : Bytes)
    (d : Nat) : bufferSkipWhitespace (between p (w ++ c :: r) d) =
      .ok (between (p ++ w) (c :: r) d) := by
  rw [bufferSkipWhitespace_between, takeWhile_blank hw hc, dropWhile_blank hw hc]

theorem separated_last {next : ParseBuffer → Except Fault (Option (List (CJSON D)) × ParseBuffer)}
    (hw : Json.Blank (accepted fl) w) (hc : isBlank c = false) (hcomma : c ≠ 44) (y : CJSON D)
    (p r : Bytes) (d : Nat) :
    separated next (some y, between p (w ++ c :: r) d) =
      .ok (some [y], between (p ++ w) (c :: r) d) := by
  rw [separated, skip_blank hw hc, ok_bind, peekIs_between _ _ _ (by decide), ok_bind,
    List.head?_cons, decide_eq_false (by simpa using hcomma)]
  rfl

theorem separated_more {next : ParseBuffer → Except Fault (Option (List (CJSON D)) × ParseBuffer)}
    {b : ParseBuffer} {ys : List (CJSON D)} (hw : Json.Blank (accepted fl) w) (y : CJSON D)
    (hnext : next (between (p ++ w) (44 :: r) d) = .ok (some ys, b)) :
    separated next (some y, between p (w ++ 44 :: r) d) = .ok (some (y :: ys), b) := by
  rw [separated, skip_blank hw (by decide), ok_bind, peekIs_between _ _ _ (by decide), ok_bind,
    List.head?_cons, decide_eq_true rfl, if_pos rfl, hnext]
  rfl

theorem container_empty {kind : Kind}
    {items : ParseBuffer → Except Fault (Option (List (CJSON D)) × ParseBuffer)}
    (hw : Json.Blank (accepted fl) w) (hc : isBlank close = false) (hclose : close ≠ 0)
    (item : CJSON D) (p rest : Bytes) (d : Nat) :
    container close kind items item (between p (w ++ close :: rest) (d + 1)) =
      .ok (some { item with kind := kind, child := [] },
        between (p ++ (w ++ [close])) rest d) := by
  have hadvance := between_advance_one (p ++ w) close rest d
  rw [container, skip_blank hw hc, ok_bind, peekIs_between _ _ _ hclose, ok_bind, List.head?_cons,
    decide_eq_true rfl, if_pos rfl, ← List.append_assoc, ← hadvance]
  rfl

variable (t rest) in
theorem container_more (kind : Kind) {P : List (CJSON D) → Prop}
    {items : ParseBuffer → Except Fault (Option (List (CJSON D)) × ParseBuffer)}
    (hw : Json.Blank (accepted fl) w) (hc : isBlank c = false) (hclose : close ≠ 0)
    (hne : c ≠ close) (hp : p ≠ [])
    (hitems : ∀ q e, ∃ ys, P ys ∧ items (between q (e :: c :: (t ++ close :: rest)) (d + 1)) =
      .ok (some ys, between (q ++ e :: c :: t) (close :: rest) (d + 1))) (item : CJSON D) :
    ∃ ys, P ys ∧
      container close kind items item (between p (w ++ c :: (t ++ close :: rest)) (d + 1)) =
        .ok (some { item with kind := kind, child := ys },
          between (p ++ (w ++ c :: (t ++ [close]))) rest d) := by
  obtain ⟨q, e, hq⟩ : ∃ q e, p ++ w = q ++ [e] :=
    ⟨_, _, (List.dropLast_append_getLast (by simp [hp])).symm⟩
  have hback : { between (p ++ w) (c :: (t ++ close :: rest)) (d + 1) with
      offset := (between (p ++ w) (c :: (t ++ close :: rest)) (d + 1)).offset - 1 } =
        between q (e :: c :: (t ++ close :: rest)) (d + 1) := by
    rw [hq, ← between_advance_one]
    rfl
  have hadvance := between_advance_one (q ++ e :: c :: t) close rest d
  have hpath : p ++ (w ++ c :: (t ++ [close])) = q ++ e :: c :: t ++ [close] := by
    rw [← List.append_assoc, hq]
    simp
  obtain ⟨ys, hys, hrun⟩ := hitems q e
  refine ⟨ys, hys, ?_⟩
  rw [container, skip_blank hw hc, ok_bind, peekIs_between _ _ _ hclose, ok_bind, List.head?_cons,
    decide_eq_false (by simpa using hne), if_neg (by decide), canAccessAtIndex_between,
    decide_eq_true (Nat.zero_le _), if_neg (by decide)]
  show (items _ >>= _) = _
  rw [hback, hrun, ok_bind]
  show ((between (q ++ e :: c :: t) (close :: rest) (d + 1)).peekIs close >>= _) = _
  rw [peekIs_between _ _ _ hclose, ok_bind, List.head?_cons, decide_eq_true rfl, if_pos rfl,
    hpath, ← hadvance]
  rfl

theorem element_complete {item' : CJSON D} (hw : Json.Blank (accepted fl) w)
    (hc : isBlank c = false) (p : Bytes)
    (hvalue : parseValue fl fuel (cJSONNewItem fl) (between (p ++ w) (c :: (t ++ rest)) d) =
      .ok (some item', between (p ++ w ++ c :: t) rest d)) :
    element fl fuel (between p (w ++ c :: (t ++ rest)) d) =
      .ok (some item', between (p ++ w ++ c :: t) rest d) := by
  rw [element, skip_blank hw hc, ok_bind, hvalue]

theorem parseString_complete {s : Bytes} (h : StringToken t s) (item : CJSON D) (p rest : Bytes)
    (d : Nat) : ∃ b, b.stringBytes = some s ∧ parseString item (between p (t ++ rest) d) =
      .ok (some { item with kind := .string, valuestring := some b },
        between (p ++ t) rest d) := by
  rcases parseString_between item p (t ++ rest) d with ⟨t', rest', s', b, hr, ht', hb, hrun⟩ |
    ⟨hnone, -⟩
  · obtain ⟨rfl, rfl⟩ := h.unique ht' hr
    obtain rfl := List.append_cancel_left hr
    exact ⟨b, hb, hrun⟩
  · exact absurd h (hnone t rest s rfl)

theorem member_complete {key k w₁ w₂ : Bytes} {v : Json D} (hw : Json.Blank (accepted fl) w)
    (hkey : StringToken key k) (hw₁ : Json.Blank (accepted fl) w₁)
    (hw₂ : Json.Blank (accepted fl) w₂) (hc : isBlank c = false) (p : Bytes)
    (hvalue : ∀ item p, ∃ item', Holds fl v item' ∧ item'.string = item.string ∧
      parseValue fl fuel item (between p (c :: (t ++ rest)) d) =
        .ok (some item', between (p ++ c :: t) rest d)) :
    ∃ item' b, Holds fl v item' ∧ item'.string = some b ∧ b.stringBytes = some k ∧
      member fl fuel (between p (w ++ (key ++ (w₁ ++ 58 :: (w₂ ++ c :: (t ++ rest))))) d) =
        .ok (some item', between (p ++ (w ++ (key ++ (w₁ ++ 58 :: (w₂ ++ c :: t))))) rest d) := by
  obtain ⟨b, hb, hstring⟩ := parseString_complete hkey (cJSONNewItem fl) (p ++ w)
    (w₁ ++ 58 :: (w₂ ++ c :: (t ++ rest))) d
  obtain ⟨item', hv, hname, hrun⟩ := hvalue
    { cJSONNewItem fl with kind := .string, string := some b, valuestring := none }
    (p ++ w ++ key ++ w₁ ++ [58] ++ w₂)
  refine ⟨item', b, hv, hname, hb, ?_⟩
  have hquote : ∃ body, key = 34 :: body := by
    obtain ⟨body, _, _, hkey, -⟩ := hkey
    exact ⟨_, hkey⟩
  obtain ⟨body, rfl⟩ := hquote
  have hadvance := between_advance_one (p ++ w ++ 34 :: body ++ w₁) 58 (w₂ ++ c :: (t ++ rest)) d
  rw [member, List.cons_append, skip_blank hw (by decide), ok_bind, ← List.cons_append, hstring,
    ok_bind]
  simp only [skip_blank hw₁ (by decide : isBlank 58 = false), ok_bind]
  rw [peekIs_between _ _ _ (by decide), ok_bind, List.head?_cons, decide_eq_true rfl,
    if_neg (by decide)]
  show (bufferSkipWhitespace { between (p ++ w ++ 34 :: body ++ w₁)
    (58 :: (w₂ ++ c :: (t ++ rest))) d with
      offset := (p ++ w ++ 34 :: body ++ w₁).length + 1 } >>= _) = _
  rw [hadvance, skip_blank hw₂ hc, ok_bind]
  refine hrun.trans ?_
  simp

/-- What a text starts with. -/
theorem Text.head : ∀ {v : Json D} {t : Bytes}, v.Text (accepted fl) t →
    ∃ c t', t = c :: t' ∧ isBlank c = false ∧ c ≠ 93 ∧ c ≠ 125 ∧ c < 0x80
  | .null, _, rfl => ⟨110, _, rfl, by decide⟩
  | .bool true, _, rfl => ⟨116, _, rfl, by decide⟩
  | .bool false, _, rfl => ⟨102, _, rfl, by decide⟩
  | .string _, _, ⟨_, _, _, h, _⟩ => ⟨34, _, h, by decide⟩
  | .array _, _, ⟨_, h, _⟩ => ⟨91, _, h, by decide⟩
  | .object _, _, ⟨_, h, _⟩ => ⟨123, _, h, by decide⟩
  | .number _, t, ⟨⟨c, hc, hstart⟩, _⟩ => by
    obtain ⟨t', rfl⟩ := List.head?_eq_some_iff.mp hc
    have hrange : 45 ≤ c ∧ c ≤ 57 := by
      rcases hstart with rfl | ⟨hge, hle⟩
      · decide
      · exact ⟨UInt8.le_trans (by decide) hge, hle⟩
    have hblank : isBlank c = false := by
      rw [isBlank, decide_eq_false_iff_not]
      intro hle
      exact absurd (UInt8.le_trans hrange.1 hle) (by decide)
    refine ⟨c, t', rfl, hblank, ?_, ?_, UInt8.lt_of_le_of_lt hrange.2 (by decide)⟩
    all_goals
      rintro rfl
      exact absurd hrange (by decide)

theorem Elements.end : ∀ {vs : List (Json D)} {t : Bytes}, Json.Elements (accepted fl) vs t →
    ∃ t', t = t' ++ [93]
  | [], _, ⟨w, _, h⟩ => ⟨w, h⟩
  | _ :: _, _, ⟨w, x, w', y, _, _, _, h, hy⟩ => by
    rcases hy with ⟨-, rfl⟩ | ⟨-, body, rfl, hbody⟩
    · exact ⟨w ++ x ++ w', h⟩
    · obtain ⟨t', rfl⟩ := Elements.end hbody
      exact ⟨w ++ x ++ w' ++ 44 :: t', by rw [h]; simp⟩

theorem Members.end : ∀ {ms : List (Bytes × Json D)} {t : Bytes},
    Json.Members (accepted fl) ms t → ∃ t', t = t' ++ [125]
  | [], _, ⟨w, _, h⟩ => ⟨w, h⟩
  | (_, _) :: _, _, ⟨w, key, w₁, w₂, x, w', y, _, _, _, _, _, _, h, hy⟩ => by
    rcases hy with ⟨-, rfl⟩ | ⟨-, body, rfl, hbody⟩
    · exact ⟨w ++ key ++ w₁ ++ 58 :: (w₂ ++ x ++ w'), by rw [h]; simp⟩
    · obtain ⟨t', rfl⟩ := Members.end hbody
      exact ⟨w ++ key ++ w₁ ++ 58 :: (w₂ ++ x ++ w' ++ 44 :: t'), by rw [h]; simp⟩

/-- Where the items of an array start. -/
theorem Elements.open {vs : List (Json D)} {t : Bytes}
    (h : Json.Elements (accepted fl) (v :: vs) t) :
    ∃ w c t', t = w ++ c :: (t' ++ [93]) ∧ Json.Blank (accepted fl) w ∧ isBlank c = false ∧
      c ≠ 93 ∧ Json.Elements (accepted fl) (v :: vs) (c :: t' ++ [93]) := by
  obtain ⟨w, x, w', y, hw, hx, hw', rfl, hy⟩ := h
  have hrest : Json.Elements (accepted fl) (v :: vs) (x ++ w' ++ y) :=
    ⟨[], x, w', y, by simp [Json.Blank], hx, hw', rfl, hy⟩
  obtain ⟨t', ht'⟩ := Elements.end hrest
  obtain ⟨c, x', rfl, hc, hne, -⟩ := Text.head hx
  cases t' with
  | nil => exact absurd (List.cons.inj ht').1 hne
  | cons c' t' =>
    obtain ⟨rfl, hend⟩ := List.cons.inj ht'
    refine ⟨w, c, t', ?_, hw, hc, hne, ht' ▸ hrest⟩
    have hshape : w ++ c :: x' ++ w' ++ y = w ++ c :: (x'.append w' ++ y) := by simp
    rw [hshape]
    exact congrArg (fun s => w ++ c :: s) hend

/-- Where the members of an object start. -/
theorem Members.open {k : Bytes} {ms : List (Bytes × Json D)} {t : Bytes}
    (h : Json.Members (accepted fl) ((k, v) :: ms) t) :
    ∃ w t', t = w ++ 34 :: (t' ++ [125]) ∧ Json.Blank (accepted fl) w ∧
      Json.Members (accepted fl) ((k, v) :: ms) (34 :: t' ++ [125]) := by
  obtain ⟨w, key, w₁, w₂, x, w', y, hw, hkey, hw₁, hw₂, hx, hw', rfl, hy⟩ := h
  have hrest : Json.Members (accepted fl) ((k, v) :: ms)
      (key ++ w₁ ++ 58 :: (w₂ ++ x ++ w' ++ y)) :=
    ⟨[], key, w₁, w₂, x, w', y, by simp [Json.Blank], hkey, hw₁, hw₂, hx, hw', rfl, hy⟩
  obtain ⟨t', ht'⟩ := Members.end hrest
  obtain ⟨body, _, _, rfl, -⟩ := hkey
  cases t' with
  | nil => exact absurd (List.cons.inj ht').1 (by decide)
  | cons c' t' =>
    obtain ⟨rfl, hend⟩ := List.cons.inj ht'
    refine ⟨w, t', ?_, hw, ht' ▸ hrest⟩
    refine Eq.trans ?_ (congrArg (fun s => w ++ 34 :: s) hend)
    simp

theorem parseValue_cons (hc : c ≠ 110 ∧ c ≠ 102 ∧ c ≠ 116) (item : CJSON D) (p r : Bytes)
    (d fuel : Nat) : parseValue fl (fuel + 1) item (between p (c :: r) d) =
      if c = 34 then parseString item (between p (c :: r) d)
      else if c = 45 ∨ (48 ≤ c ∧ c ≤ 57) then parseNumber fl item (between p (c :: r) d)
      else if c = 91 then parseArray fl fuel item (between p (c :: r) d)
      else if c = 123 then parseObject fl fuel item (between p (c :: r) d)
      else .ok (none, between p (c :: r) d) := by
  have hstart : ∀ {c' : UInt8} {s : Bytes}, c ≠ c' → ¬ (c' :: s).isPrefixOf (c :: r) = true := by
    intro c' s h
    simp [Ne.symm h]
  rw [parseValue_between]
  exact (if_neg (hstart hc.1)).trans ((if_neg (hstart hc.2.1)).trans (if_neg (hstart hc.2.2)))

theorem parseValue_number (hc : c = 45 ∨ (48 ≤ c ∧ c ≤ 57)) (item : CJSON D) (p r : Bytes)
    (d fuel : Nat) : parseValue fl (fuel + 1) item (between p (c :: r) d) =
      parseNumber fl item (between p (c :: r) d) := by
  have hne : c ≠ 110 ∧ c ≠ 102 ∧ c ≠ 116 ∧ c ≠ 34 := by
    refine ⟨?_, ?_, ?_, ?_⟩
    all_goals
      rintro rfl
      exact absurd hc (by decide)
  rw [parseValue_cons ⟨hne.1, hne.2.1, hne.2.2.1⟩, if_neg hne.2.2.2, if_pos hc]

theorem follow_of_head? {c : UInt8} (hr : r.head? = some c) (hc : isNumberChar c = false) :
    Follow r := by
  intro c' hc'
  cases hr.symm.trans hc'
  exact hc

theorem parseNumber_complete {x : D} (h : NumberToken fl t x) (hfollow : Follow rest)
    (item : CJSON D) (p : Bytes) (d : Nat) :
    parseNumber fl item (between p (t ++ rest) d) =
      .ok (some { item with valuedouble := x, valueint := saturate fl x, kind := .number },
        between (p ++ t) rest d) := by
  obtain ⟨-, hall, hlen, hx⟩ := h
  rw [parseNumber_between, numberPart_append hall hlen hfollow, hx]
  simp

/-- What begins with a number is taken, more of it perhaps. -/
theorem parseNumber_begins {x : D} (h : NumberToken fl t x) (rest : Bytes) (item : CJSON D)
    (p : Bytes) (d : Nat) :
    ∃ item' b, parseNumber fl item (between p (t ++ rest) d) = .ok (some item', b) := by
  obtain ⟨x', n, hx⟩ := strtod_numberPart h rest
  rw [parseNumber_between, hx]
  exact ⟨_, _, rfl⟩

mutual

theorem parseValue_complete : ∀ (v : Json D) (t rest p : Bytes) (d fuel : Nat) (item : CJSON D),
    v.Text (accepted fl) t → (∀ x, v = .number x → Follow rest) →
    v.depth + d ≤ CJSON_NESTING_LIMIT → 3 * t.length ≤ fuel →
    ∃ item', Holds fl v item' ∧ item'.string = item.string ∧
      parseValue fl fuel item (between p (t ++ rest) d) =
        .ok (some item', between (p ++ t) rest d)
  | .array elems, _, rest, p, d, fuel, item, ⟨body, rfl, hbody⟩, hfollow, hdepth, hfuel => by
    rw [List.length_cons] at hfuel
    rw [Json.depth] at hdepth
    obtain ⟨fuel, rfl⟩ := Nat.exists_eq_add_of_le' (Nat.le_trans (by omega : 2 ≤ _) hfuel)
    rw [List.cons_append, parseValue_cons (by decide), if_neg (by decide), if_neg (by decide),
      if_pos rfl, parseArray_eq item p _ (by omega)]
    cases elems with
    | nil =>
      obtain ⟨w, hw, rfl⟩ := hbody
      refine ⟨{ item with kind := .array, child := [] }, ⟨rfl, rfl⟩, rfl, ?_⟩
      rw [List.append_assoc, List.singleton_append, container_empty hw (by decide) (by decide)]
      simp
    | cons v vs =>
      obtain ⟨w, c, t, rfl, hw, hc, hne, helements⟩ := Elements.open hbody
      obtain ⟨ys, hys, hrun⟩ := container_more t rest .array
        (p := p ++ [91]) hw hc (by decide) hne (by simp)
        (fun q e => parseElements_complete (v :: vs) (c :: t) rest q e (d + 1) fuel (by simp)
          helements (by omega) (by
            simp only [List.length_append, List.length_cons, List.length_nil] at hfuel ⊢
            omega)) item
      refine ⟨{ item with kind := .array, child := ys }, ⟨rfl, hys⟩, rfl, ?_⟩
      simpa using hrun
  | .object members, _, rest, p, d, fuel, item, ⟨body, rfl, hbody⟩, hfollow, hdepth, hfuel => by
    rw [List.length_cons] at hfuel
    rw [Json.depth] at hdepth
    obtain ⟨fuel, rfl⟩ := Nat.exists_eq_add_of_le' (Nat.le_trans (by omega : 2 ≤ _) hfuel)
    rw [List.cons_append, parseValue_cons (by decide), if_neg (by decide), if_neg (by decide),
      if_neg (by decide), if_pos rfl, parseObject_eq item p _ (by omega)]
    cases members with
    | nil =>
      obtain ⟨w, hw, rfl⟩ := hbody
      refine ⟨{ item with kind := .object, child := [] }, ⟨rfl, rfl⟩, rfl, ?_⟩
      rw [List.append_assoc, List.singleton_append, container_empty hw (by decide) (by decide)]
      simp
    | cons m ms =>
      obtain ⟨w, t, rfl, hw, hmembers⟩ := Members.open hbody
      obtain ⟨ys, hys, hrun⟩ := container_more t rest .object
        (p := p ++ [123]) hw (by decide : isBlank 34 = false) (by decide) (by decide) (by simp)
        (fun q e => parseMembers_complete (m :: ms) (34 :: t) rest q e (d + 1) fuel (by simp)
          hmembers (by omega) (by
            simp only [List.length_append, List.length_cons, List.length_nil] at hfuel ⊢
            omega)) item
      refine ⟨{ item with kind := .object, child := ys }, ⟨rfl, hys⟩, rfl, ?_⟩
      simpa using hrun
  | .null, t, rest, p, d, fuel, item, ht, hfollow, hdepth, hfuel => by
    subst ht
    obtain ⟨fuel, rfl⟩ := Nat.exists_eq_add_of_le' (Nat.le_trans (by decide : 1 ≤ _) hfuel)
    refine ⟨_, ?_, ?_, (parseValue_between item p _ d fuel).trans (if_pos rfl)⟩
    · rfl
    · rfl
  | .bool true, t, rest, p, d, fuel, item, ht, hfollow, hdepth, hfuel => by
    subst ht
    obtain ⟨fuel, rfl⟩ := Nat.exists_eq_add_of_le' (Nat.le_trans (by decide : 1 ≤ _) hfuel)
    refine ⟨_, ?_, ?_, (parseValue_between item p _ d fuel).trans
      ((if_neg (Bool.eq_false_iff.mp rfl)).trans
        ((if_neg (Bool.eq_false_iff.mp rfl)).trans (if_pos rfl)))⟩
    · rfl
    · rfl
  | .bool false, t, rest, p, d, fuel, item, ht, hfollow, hdepth, hfuel => by
    subst ht
    obtain ⟨fuel, rfl⟩ := Nat.exists_eq_add_of_le' (Nat.le_trans (by decide : 1 ≤ _) hfuel)
    refine ⟨_, ?_, ?_, (parseValue_between item p _ d fuel).trans
      ((if_neg (Bool.eq_false_iff.mp rfl)).trans (if_pos rfl))⟩
    · rfl
    · rfl
  | .string s, t, rest, p, d, fuel, item, ht, hfollow, hdepth, hfuel => by
    obtain ⟨b, hb, hrun⟩ := parseString_complete ht item p rest d
    obtain ⟨body, _, _, rfl, -⟩ := ht
    obtain ⟨fuel, rfl⟩ :=
      Nat.exists_eq_add_of_le' (Nat.le_trans (by rw [List.length_cons]; omega : 1 ≤ _) hfuel)
    refine ⟨{ item with kind := .string, valuestring := some b }, ⟨rfl, b, rfl, hb⟩, rfl, ?_⟩
    rw [List.cons_append, parseValue_cons (by decide), if_pos rfl, ← List.cons_append, hrun]
  | .number x, t, rest, p, d, fuel, item, ht, hfollow, hdepth, hfuel => by
    have hrun := parseNumber_complete ht (hfollow x rfl) item p d
    obtain ⟨⟨c, hc, hstart⟩, -⟩ := ht
    obtain ⟨t, rfl⟩ := List.head?_eq_some_iff.mp hc
    obtain ⟨fuel, rfl⟩ :=
      Nat.exists_eq_add_of_le' (Nat.le_trans (by rw [List.length_cons]; omega : 1 ≤ _) hfuel)
    refine ⟨{ item with valuedouble := x, valueint := saturate fl x, kind := .number },
      ⟨rfl, rfl, rfl⟩, rfl, ?_⟩
    rw [List.cons_append, parseValue_number hstart, ← List.cons_append, hrun]

theorem parseElements_complete : ∀ (vs : List (Json D)) (t rest q : Bytes) (e : UInt8)
    (d fuel : Nat), vs ≠ [] → Json.Elements (accepted fl) vs (t ++ [93]) →
    Json.elementsDepth vs + d ≤ CJSON_NESTING_LIMIT → 3 * (t.length + 1) + 1 ≤ fuel →
    ∃ ys, HoldsElements fl vs ys ∧
      parseElements fl fuel (between q (e :: (t ++ 93 :: rest)) d) =
        .ok (some ys, between (q ++ e :: t) (93 :: rest) d)
  | [], _, _, _, _, _, _, hne, _, _, _ => absurd rfl hne
  | v :: vs, t, rest, q, e, d, fuel, _, ⟨w, x, w', y, hw, hx, hw', ht, hy⟩, hdepth, hfuel => by
    obtain ⟨fuel, rfl⟩ := Nat.exists_eq_add_of_le' (Nat.le_trans (by omega : 1 ≤ _) hfuel)
    rw [Json.elementsDepth] at hdepth
    obtain ⟨c, x', rfl, hc, -⟩ := Text.head hx
    rw [parseElements_eq]
    rcases hy with ⟨rfl, rfl⟩ | ⟨hne, body, rfl, hbody⟩
    · obtain rfl := List.append_cancel_right ht
      simp only [List.length_append, List.length_cons] at hfuel
      obtain ⟨y, hv, -, hrun⟩ := parseValue_complete v (c :: x') (w' ++ 93 :: rest)
        (q ++ [e] ++ w) d fuel (cJSONNewItem fl) hx
        (fun _ _ => follow_of_blank hw' (follow_of_head? rfl rfl)) (by omega)
        (by rw [List.length_cons]; omega)
      have helement := element_complete hw hc (q ++ [e]) hrun
      refine ⟨[y], ⟨y, [], rfl, hv, rfl⟩, ?_⟩
      have hshape : w ++ c :: x' ++ w' ++ 93 :: rest = w ++ c :: (x' ++ (w' ++ 93 :: rest)) := by
        simp
      rw [hshape, helement, ok_bind, separated_last hw' (by decide) (by decide)]
      simp
    · obtain ⟨t', rfl⟩ := Elements.end hbody
      have ht' : t = w ++ c :: x' ++ w' ++ 44 :: t' := by
        apply (List.append_left_inj [93]).mp
        rw [ht]
        simp
      subst ht'
      simp only [List.length_append, List.length_cons] at hfuel
      obtain ⟨y, hv, -, hrun⟩ := parseValue_complete v (c :: x')
        (w' ++ 44 :: (t' ++ 93 :: rest)) (q ++ [e] ++ w) d fuel (cJSONNewItem fl) hx
        (fun _ _ => follow_of_blank hw' (follow_of_head? rfl rfl)) (by omega)
        (by rw [List.length_cons]; omega)
      have helement := element_complete hw hc (q ++ [e]) hrun
      obtain ⟨ys, hys, hnext⟩ := parseElements_complete vs t' rest
        (q ++ [e] ++ w ++ c :: x' ++ w') 44 d fuel hne hbody (by omega) (by omega)
      refine ⟨y :: ys, ⟨y, ys, rfl, hv, hys⟩, ?_⟩
      have hshape : w ++ c :: x' ++ w' ++ 44 :: t' ++ 93 :: rest =
          w ++ c :: (x' ++ (w' ++ 44 :: (t' ++ 93 :: rest))) := by
        simp
      rw [hshape, helement, ok_bind, separated_more hw' y hnext]
      simp

theorem parseMembers_complete : ∀ (ms : List (Bytes × Json D)) (t rest q : Bytes) (e : UInt8)
    (d fuel : Nat), ms ≠ [] → Json.Members (accepted fl) ms (t ++ [125]) →
    Json.membersDepth ms + d ≤ CJSON_NESTING_LIMIT → 3 * (t.length + 1) + 1 ≤ fuel →
    ∃ ys, HoldsMembers fl ms ys ∧
      parseMembers fl fuel (between q (e :: (t ++ 125 :: rest)) d) =
        .ok (some ys, between (q ++ e :: t) (125 :: rest) d)
  | [], _, _, _, _, _, _, hne, _, _, _ => absurd rfl hne
  | (k, v) :: ms, t, rest, q, e, d, fuel, _,
      ⟨w, key, w₁, w₂, x, w', y, hw, hkey, hw₁, hw₂, hx, hw', ht, hy⟩, hdepth, hfuel => by
    obtain ⟨fuel, rfl⟩ := Nat.exists_eq_add_of_le' (Nat.le_trans (by omega : 1 ≤ _) hfuel)
    rw [Json.membersDepth] at hdepth
    obtain ⟨c, x', rfl, hc, -⟩ := Text.head hx
    rw [parseMembers_eq]
    rcases hy with ⟨rfl, rfl⟩ | ⟨hne, body, rfl, hbody⟩
    · have ht' : t = w ++ key ++ w₁ ++ 58 :: (w₂ ++ c :: x' ++ w') := by
        apply (List.append_left_inj [125]).mp
        rw [ht]
        simp
      subst ht'
      simp only [List.length_append, List.length_cons] at hfuel
      obtain ⟨y, b, hv, hb, hk, hmember⟩ := member_complete hw hkey hw₁ hw₂ hc (q ++ [e])
        fun item p => parseValue_complete v (c :: x') (w' ++ 125 :: rest) p d fuel item hx
          (fun _ _ => follow_of_blank hw' (follow_of_head? rfl rfl)) (by omega)
          (by rw [List.length_cons]; omega)
      refine ⟨[y], ⟨y, [], b, rfl, hb, hk, hv, rfl⟩, ?_⟩
      have hshape : w ++ key ++ w₁ ++ 58 :: (w₂ ++ c :: x' ++ w') ++ 125 :: rest =
          w ++ (key ++ (w₁ ++ 58 :: (w₂ ++ c :: (x' ++ (w' ++ 125 :: rest))))) := by
        simp
      rw [hshape, hmember, ok_bind, separated_last hw' (by decide) (by decide)]
      simp
    · obtain ⟨t', rfl⟩ := Members.end hbody
      have ht' : t = w ++ key ++ w₁ ++ 58 :: (w₂ ++ c :: x' ++ w' ++ 44 :: t') := by
        apply (List.append_left_inj [125]).mp
        rw [ht]
        simp
      subst ht'
      simp only [List.length_append, List.length_cons] at hfuel
      obtain ⟨y, b, hv, hb, hk, hmember⟩ := member_complete hw hkey hw₁ hw₂ hc (q ++ [e])
        fun item p => parseValue_complete v (c :: x') (w' ++ 44 :: (t' ++ 125 :: rest)) p d fuel
          item hx (fun _ _ => follow_of_blank hw' (follow_of_head? rfl rfl)) (by omega)
          (by rw [List.length_cons]; omega)
      obtain ⟨ys, hys, hnext⟩ := parseMembers_complete ms t' rest
        (q ++ [e] ++ (w ++ (key ++ (w₁ ++ 58 :: (w₂ ++ c :: x')))) ++ w') 44 d fuel hne hbody
        (by omega) (by omega)
      refine ⟨y :: ys, ⟨y, ys, b, rfl, hb, hk, hv, hys⟩, ?_⟩
      have hshape : w ++ key ++ w₁ ++ 58 :: (w₂ ++ c :: x' ++ w' ++ 44 :: t') ++ 125 :: rest =
          w ++ (key ++ (w₁ ++ 58 :: (w₂ ++ c :: (x' ++ (w' ++ 44 :: (t' ++ 125 :: rest)))))) := by
        simp
      rw [hshape, hmember, ok_bind, separated_more hw' y hnext]
      simp

end

end Complete

/-! ## Texts -/

section Texts
variable {D : Type} {fl : Floats D} {r b w t w' rest : Bytes} {v : Json D}

/-- The mark that may be in front of a text. -/
def bom : Bytes := [0xEF, 0xBB, 0xBF]

theorem skipUtf8Bom_between (r : Bytes) : skipUtf8Bom (between [] r 0) =
    .ok (if 4 ≤ r.length ∧ bom.isPrefixOf r then between bom (r.drop 3) 0
      else between [] r 0) := by
  rw [skipUtf8Bom, canAccessAtIndex_between]
  by_cases hlen : 4 ≤ r.length
  · rw [if_pos (decide_eq_true hlen), startsWith_between (by decide), ok_bind]
    by_cases hbom : bom.isPrefixOf r = true
    · have hadvance := between_advance [] bom (r.drop bom.length) 0
      rw [prefix_drop hbom] at hadvance
      have hboth : 4 ≤ r.length ∧ bom.isPrefixOf r = true := ⟨hlen, hbom⟩
      rw [if_pos hboth]
      exact (if_pos hbom).trans (congrArg Except.ok hadvance)
    · have hnot : ¬ (4 ≤ r.length ∧ bom.isPrefixOf r = true) := fun h => hbom h.2
      rw [if_neg hnot]
      exact if_neg hbom
  · rw [if_neg fun h : decide (4 ≤ r.length) = true => hlen (of_decide_eq_true h),
      if_neg fun h => hlen h.1]
    rfl

variable (fl) in
/-- What is in front of the value. -/
theorem skip_front (r : Bytes) : ∃ b w y, r = b ++ w ++ y ∧ (b = [] ∨ b = bom) ∧
    Json.Blank (accepted fl) w ∧
    (skipUtf8Bom (between [] r 0) >>= bufferSkipWhitespace) = .ok (between (b ++ w) y 0) := by
  rw [skipUtf8Bom_between, ok_bind]
  split
  · rename_i h
    refine ⟨bom, _, _, ?_, Or.inr rfl, blank_takeWhile fl (r.drop 3),
      bufferSkipWhitespace_between _ _ _⟩
    rw [List.append_assoc, List.takeWhile_append_dropWhile]
    exact (prefix_drop h.2).symm
  · exact ⟨[], _, _, List.takeWhile_append_dropWhile.symm, Or.inl rfl, blank_takeWhile fl r,
      bufferSkipWhitespace_between _ _ _⟩

theorem skip_front_of (hb : b = [] ∨ b = bom) (hw : Json.Blank (accepted fl) w)
    (ht : v.Text (accepted fl) t) (rest : Bytes) :
    (skipUtf8Bom (between [] (b ++ w ++ t ++ rest) 0) >>= bufferSkipWhitespace) =
      .ok (between (b ++ w) (t ++ rest) 0) := by
  obtain ⟨c, t, rfl, hc, -, -, hsmall⟩ := Text.head ht
  rw [skipUtf8Bom_between, ok_bind]
  rcases hb with rfl | rfl
  · -- neither white space nor a value starts as the mark does
    have hhead : ¬ bom.isPrefixOf ([] ++ w ++ c :: t ++ rest) = true := by
      cases w with
      | nil =>
        have hne : (0xEF : UInt8) ≠ c := by
          rintro rfl
          exact absurd hsmall (by decide)
        simp [bom, hne]
      | cons e w =>
        have hle : e ≤ 32 := hw e List.mem_cons_self
        have hne : (0xEF : UInt8) ≠ e := by
          rintro rfl
          exact absurd hle (by decide)
        simp [bom, hne]
    rw [if_neg fun h => hhead h.2]
    have hshape : [] ++ w ++ c :: t ++ rest = w ++ c :: (t ++ rest) := by simp
    rw [hshape, skip_blank hw hc]
    rfl
  · have hlen : 4 ≤ (bom ++ w ++ c :: t ++ rest).length := by
      simp only [bom, List.length_append, List.length_cons]
      omega
    have hbom : bom.isPrefixOf (bom ++ w ++ c :: t ++ rest) = true := by
      rw [List.append_assoc, List.append_assoc]
      exact List.isPrefixOf_iff_prefix.mpr (List.prefix_append _ _)
    have hdrop : (bom ++ w ++ c :: t ++ rest).drop 3 = w ++ c :: (t ++ rest) := by
      simp [bom]
    rw [if_pos ⟨hlen, hbom⟩, hdrop, skip_blank hw hc]
    rfl

end Texts

section Parse
variable {D : Type} {fl : Floats D} {b w t rest : Bytes} {v : Json D}

/-- The text begins with the value, in the parser's grammar, and `e` is behind it, or the
terminator if it must be. -/
def ReadsTo (fl : Floats D) (requireNullTerminated : Bool) (v : Json D) (s : Bytes) (e : Nat) :
    Prop :=
  ∃ b w t rest, s = b ++ w ++ t ++ rest ∧ (b = [] ∨ b = bom) ∧ Json.Blank (accepted fl) w ∧
    v.Text (accepted fl) t ∧
    if requireNullTerminated then Json.Blank (accepted fl) rest ∧ e = s.length
    else e = (b ++ w ++ t).length

theorem parse_start (value : CString) :
    ParseBuffer.mk (value.bytes ++ [0]) (value.length + 1) 0 0 = between [] value.bytes 0 := by
  simp [between, CString.length]

theorem dropWhile_of_blank {w : Bytes} (hw : Json.Blank (accepted fl) w) :
    w.dropWhile isBlank = [] := by
  rw [List.dropWhile_eq_nil_iff]
  exact fun c hc => isBlank_iff.mpr (hw c hc)

theorem fail_parseEnd_le {value : CString} {b : ParseBuffer} (hb : b.length = value.length + 1) :
    (cJSONParseWithOpts.fail b : Parsed D).parseEnd ≤ value.length := by
  rw [cJSONParseWithOpts.fail]
  simp only
  split
  · omega
  · split
    · omega
    · exact Nat.zero_le _

section Value
variable {value : CString} {q : Bytes} {item : CJSON D}

/-- A value with only white space behind it is taken, and one with anything behind it unless the
text must end there. -/
theorem cJSONParseWithOpts_taken (requireNullTerminated : Bool)
    (hs : value.bytes = q ++ t ++ rest)
    (hfront : (skipUtf8Bom (between [] value.bytes 0) >>= bufferSkipWhitespace) =
      .ok (between q (t ++ rest) 0))
    (hrun : parseValue fl (4 * (value.length + 1)) (cJSONNewItem fl) (between q (t ++ rest) 0) =
      .ok (some item, between (q ++ t) rest 0))
    (hrest : requireNullTerminated = true → Json.Blank (accepted fl) rest) :
    cJSONParseWithOpts fl value requireNullTerminated = .ok
      { item := some item,
        parseEnd := if requireNullTerminated then value.length else (q ++ t).length,
        errorPosition := none } := by
  obtain ⟨start, hbom, hblank⟩ := bind_eq_ok.mp hfront
  rw [cJSONParseWithOpts]
  simp only [parse_start]
  rw [hbom, ok_bind, hblank, ok_bind, hrun, ok_bind]
  cases requireNullTerminated with
  | false => rfl
  | true =>
    have hrest := hrest rfl
    have hin : ¬ (between (q ++ t ++ rest) [] 0).length ≤
        (between (q ++ t ++ rest) [] 0).offset := by
      simp [between]
    have htake : rest.takeWhile isBlank = rest := by
      rw [List.takeWhile_eq_self_iff]
      exact fun c hc => isBlank_iff.mpr (hrest c hc)
    simp only [if_true, bufferSkipWhitespace_between, dropWhile_of_blank hrest, htake, ok_bind]
    rw [if_neg hin, atOffset_between, List.nil_append, byteAt_cons_zero, ok_bind,
      if_neg (by decide)]
    simp [between, CString.length, hs]

/-- A value with anything but white space behind it is refused where the text must end. -/
theorem cJSONParseWithOpts_refused (hs : value.bytes = q ++ t ++ rest)
    (hfront : (skipUtf8Bom (between [] value.bytes 0) >>= bufferSkipWhitespace) =
      .ok (between q (t ++ rest) 0))
    (hrun : parseValue fl (4 * (value.length + 1)) (cJSONNewItem fl) (between q (t ++ rest) 0) =
      .ok (some item, between (q ++ t) rest 0))
    (hrest : ¬ Json.Blank (accepted fl) rest) :
    ∃ b, cJSONParseWithOpts fl value true = .ok (cJSONParseWithOpts.fail b) ∧
      b.length = value.length + 1 := by
  obtain ⟨start, hbom, hblank⟩ := bind_eq_ok.mp hfront
  have hsplit : rest.takeWhile isBlank ++ rest.dropWhile isBlank = rest :=
    List.takeWhile_append_dropWhile
  have hskipped := blank_takeWhile fl rest
  rw [cJSONParseWithOpts]
  simp only [parse_start]
  rw [hbom, ok_bind, hblank, ok_bind, hrun, ok_bind]
  simp only [if_true, bufferSkipWhitespace_between, ok_bind]
  generalize rest.takeWhile isBlank = w at hsplit hskipped ⊢
  generalize rest.dropWhile isBlank = y at hsplit ⊢
  subst hsplit
  cases y with
  | nil =>
    rw [List.append_nil] at hrest
    exact absurd hskipped hrest
  | cons c y =>
    have hin : ¬ (between (q ++ t ++ w) (c :: y) 0).length ≤
        (between (q ++ t ++ w) (c :: y) 0).offset := by
      simp only [between]
      omega
    have hc : c ≠ 0 := by
      rintro rfl
      exact value.nulFree (by rw [hs]; simp)
    rw [if_neg hin, atOffset_between, List.cons_append, byteAt_cons_zero, ok_bind, if_pos hc]
    refine ⟨_, rfl, ?_⟩
    rw [length_between_append, between, CString.length, hs, @List.length_append _ (q ++ t),
      Nat.add_assoc]

end Value

variable (fl) in
/-- Whatever the text, nothing outside it is read; what is returned is in the text. -/
theorem cJSONParseWithOpts_sound (value : CString) (requireNullTerminated : Bool) :
    ∃ parsed, cJSONParseWithOpts fl value requireNullTerminated = .ok parsed ∧
      parsed.parseEnd ≤ value.length ∧
      match parsed.item with
      | none => parsed.errorPosition = some parsed.parseEnd
      | some item => parsed.errorPosition = none ∧ ∃ v, Holds fl v item ∧
          v.depth ≤ CJSON_NESTING_LIMIT ∧
          ReadsTo fl requireNullTerminated v value.bytes parsed.parseEnd := by
  obtain ⟨b, w, y, hs, hb, hw, hfront⟩ := skip_front fl value.bytes
  rcases (parse_sound fl (4 * (value.length + 1)) 0 (Nat.zero_le _)).1
    (cJSONNewItem fl) (b ++ w) y with ⟨e, hrun, he⟩ | ⟨t, rest, item, rfl, hitem, hrun⟩
  · obtain ⟨start, hbom, hblank⟩ := bind_eq_ok.mp hfront
    have hlength : e.length = value.length + 1 := by
      rw [he, between, CString.length, hs, @List.length_append _ (b ++ w), Nat.add_assoc]
    rw [cJSONParseWithOpts]
    simp only [parse_start]
    rw [hbom, ok_bind, hblank, ok_bind, hrun, ok_bind]
    exact ⟨_, rfl, fail_parseEnd_le hlength, rfl⟩
  obtain ⟨v, hv, hdepth, -, htext⟩ := hitem
  have hs' : value.bytes = b ++ w ++ t ++ rest := by rw [hs, List.append_assoc (b ++ w)]
  by_cases hrest : requireNullTerminated = true → Json.Blank (accepted fl) rest
  · refine ⟨_, cJSONParseWithOpts_taken requireNullTerminated hs' hfront hrun hrest, ?_, rfl,
      v, hv, hdepth, b, w, t, rest, hs', hb, hw, htext, ?_⟩
    · show (if requireNullTerminated then value.length else (b ++ w ++ t).length) ≤ value.length
      split
      · exact Nat.le_refl _
      · rw [CString.length, hs', @List.length_append _ (b ++ w ++ t)]
        exact Nat.le_add_right ..
    · cases requireNullTerminated with
      | false => rfl
      | true => exact ⟨hrest rfl, rfl⟩
  · obtain ⟨rfl, hmore⟩ := Classical.not_imp.mp hrest
    obtain ⟨e, hfail, he⟩ := cJSONParseWithOpts_refused hs' hfront hrun hmore
    exact ⟨_, hfail, fail_parseEnd_le he, rfl⟩

/-- What begins with a value of the grammar is parsed, up to the end it must have, unless the
value is a number and goes on. -/
theorem cJSONParseWithOpts_complete {value : CString} (requireNullTerminated : Bool)
    (hs : value.bytes = b ++ w ++ t ++ rest) (hb : b = [] ∨ b = bom)
    (hw : Json.Blank (accepted fl) w) (ht : v.Text (accepted fl) t)
    (hdepth : v.depth ≤ CJSON_NESTING_LIMIT) (hfollow : ∀ x, v = .number x → Follow rest)
    (hrest : requireNullTerminated = true → Json.Blank (accepted fl) rest) :
    ∃ item, cJSONParseWithOpts fl value requireNullTerminated = .ok
      { item := some item,
        parseEnd := if requireNullTerminated then value.length else (b ++ w ++ t).length,
        errorPosition := none } ∧
      Holds fl v item := by
  have hfuel : 3 * t.length ≤ 4 * (value.length + 1) := by
    rw [CString.length, hs]
    simp only [List.length_append]
    omega
  obtain ⟨item, hv, -, hrun⟩ := parseValue_complete v t rest (b ++ w) 0 (4 * (value.length + 1))
    (cJSONNewItem fl) ht hfollow hdepth hfuel
  have hfront := skip_front_of hb hw ht rest
  rw [← hs] at hfront
  exact ⟨item, cJSONParseWithOpts_taken requireNullTerminated hs hfront hrun hrest, hv⟩

/-- What begins with a number is parsed, to more of it perhaps. -/
theorem cJSONParseWithOpts_number {value : CString} {x : D}
    (hs : value.bytes = b ++ w ++ t ++ rest) (hb : b = [] ∨ b = bom)
    (hw : Json.Blank (accepted fl) w) (ht : NumberToken fl t x) :
    ∃ item e, cJSONParseWithOpts fl value false =
      .ok { item := some item, parseEnd := e, errorPosition := none } := by
  have htext : (Json.number x).Text (accepted fl) t := ht
  obtain ⟨start, hbom, hblank⟩ := bind_eq_ok.mp (skip_front_of hb hw htext rest)
  obtain ⟨item, e, hparse⟩ := parseNumber_begins ht rest (cJSONNewItem fl) (b ++ w) 0
  obtain ⟨⟨c, hc, hstart⟩, -⟩ := ht
  obtain ⟨t, rfl⟩ := List.head?_eq_some_iff.mp hc
  have hvalue : parseValue fl (4 * (value.length + 1)) (cJSONNewItem fl)
      (between (b ++ w) (c :: t ++ rest) 0) = .ok (some item, e) :=
    (parseValue_number hstart _ _ _ _ (4 * value.length + 3)).trans hparse
  refine ⟨item, e.offset, ?_⟩
  rw [cJSONParseWithOpts]
  simp only [parse_start]
  rw [hs, hbom, ok_bind, hblank, ok_bind, hvalue, ok_bind]
  rfl

/-- **Any text and either option**: nothing outside the text is read, and the end is in it.  An
item that is returned holds a value the text has up to there; where none is returned, the
text begins with no value that is not nested too deep. -/
theorem cJSONParseWithOpts_spec (value : CString) (requireNullTerminated : Bool) :
    ∃ parsed, cJSONParseWithOpts fl value requireNullTerminated = .ok parsed ∧
      parsed.parseEnd ≤ value.length ∧
      match parsed.item with
      | none => parsed.errorPosition = some parsed.parseEnd ∧
          ∀ v e, v.depth ≤ CJSON_NESTING_LIMIT → ¬ ReadsTo fl requireNullTerminated v value.bytes e
      | some item => parsed.errorPosition = none ∧ ∃ v, Holds fl v item ∧
          v.depth ≤ CJSON_NESTING_LIMIT ∧
          ReadsTo fl requireNullTerminated v value.bytes parsed.parseEnd := by
  obtain ⟨parsed, hrun, hend, hitem⟩ :=
    cJSONParseWithOpts_sound fl value requireNullTerminated
  refine ⟨parsed, hrun, hend, ?_⟩
  cases h : parsed.item with
  | some item =>
    rw [h] at hitem
    exact hitem
  | none =>
    rw [h] at hitem
    refine ⟨hitem, ?_⟩
    rintro v e hdepth ⟨b, w, t, rest, hs, hb, hw, ht, hrest⟩
    -- a number may go on behind its text, and is then parsed with what follows
    by_cases hnumber : requireNullTerminated = false ∧ ∃ x, v = .number x
    · obtain ⟨rfl, x, rfl⟩ := hnumber
      obtain ⟨item, e', hrun'⟩ := cJSONParseWithOpts_number hs hb hw ht
      cases hrun.symm.trans hrun'
      cases h
    · have hblank : requireNullTerminated = true → Json.Blank (accepted fl) rest := by
        rintro rfl
        exact hrest.1
      have hfollow : ∀ x, v = .number x → Follow rest := by
        intro x hx
        refine follow_blank (hblank ?_)
        exact (Bool.not_eq_false _).mp fun hfalse => hnumber ⟨hfalse, x, hx⟩
      obtain ⟨item, hrun', -⟩ := cJSONParseWithOpts_complete requireNullTerminated hs hb hw ht
        hdepth hfollow hblank
      cases hrun.symm.trans hrun'
      cases h

end Parse

/-! ## The texts of the standard -/

section Standard
variable {D : Type} {fl : Floats D} {t : Bytes} {x : D} {j : Json D}

/-- The standard's texts, as far as `strtod` reads their numbers. -/
def standard (fl : Floats D) : Tokens D :=
  .rfc fun t x => t.length ≤ 63 ∧ fl.strtod t = some (x, t.length)

/-- What a C string has of it. -/
def cut (s : Bytes) : Bytes := s.takeWhile (· != 0)

theorem isNumberChar_digit {c : UInt8} (h : 48 ≤ c ∧ c ≤ 57) : isNumberChar c = true :=
  decide_eq_true (Or.inl h)

theorem numberText_chars (ht : Json.NumberText t) :
    (∃ c ∈ t.head?, c = 45 ∨ (48 ≤ c ∧ c ≤ 57)) ∧ ∀ c ∈ t, isNumberChar c = true := by
  obtain ⟨sign, int, frac, exp, rfl, hsign, hint, hfrac, hexp⟩ := ht
  have hint' : int ≠ [] ∧ ∀ c ∈ int, 48 ≤ c ∧ c ≤ 57 := by
    rcases hint with rfl | ⟨h, -⟩
    · simp
    · exact h
  obtain ⟨c, int, rfl⟩ := List.exists_cons_of_ne_nil hint'.1
  constructor
  · rcases hsign with rfl | rfl
    · exact ⟨c, rfl, Or.inr (hint'.2 c List.mem_cons_self)⟩
    · exact ⟨45, rfl, Or.inl rfl⟩
  · have hsign' : ∀ e ∈ sign, isNumberChar e = true := by
      rcases hsign with rfl | rfl <;> simp [isNumberChar]
    have hfrac' : ∀ e ∈ frac, isNumberChar e = true := by
      rcases hfrac with rfl | ⟨ds, hds, rfl⟩
      · simp
      · exact List.forall_mem_cons.mpr ⟨rfl, fun e he => isNumberChar_digit (hds.2 e he)⟩
    have hexp' : ∀ e ∈ exp, isNumberChar e = true := by
      rcases hexp with rfl | ⟨e, s, ds, he, hs, hds, rfl⟩
      · simp
      · have hs' : ∀ e ∈ s, isNumberChar e = true := by
          rcases hs with rfl | rfl | rfl <;> simp [isNumberChar]
        refine List.forall_mem_cons.mpr ⟨by rcases he with rfl | rfl <;> rfl, fun e he => ?_⟩
        exact (List.mem_append.mp he).elim (hs' e) fun h => isNumberChar_digit (hds.2 e h)
    intro e he
    simp only [List.mem_append] at he
    rcases he with ((he | he) | he) | he
    · exact hsign' e he
    · exact isNumberChar_digit (hint'.2 e he)
    · exact hfrac' e he
    · exact hexp' e he

/-- The parser's grammar has the standard's texts. -/
theorem standard_reads (fl : Floats D) : Json.Reads (standard fl) (accepted fl) cut where
  space c hc := by
    have hle : c ≤ 32 := by rcases hc with rfl | rfl | rfl | rfl <;> decide
    exact hle
  string t s hs := by
    obtain ⟨body, rfl, hchars⟩ := hs
    obtain ⟨hbody, m, hm⟩ := Unescapes.of_chars hchars
    exact ⟨body, s, m, rfl, hm, hbody, rfl⟩
  number t x hx := by
    obtain ⟨ht, hlen, hstrtod⟩ := hx
    exact ⟨(numberText_chars ht).1, (numberText_chars ht).2, hlen, hstrtod⟩

/-- **The accepted texts are exactly those of the grammar**, when the text must end with the
value. -/
theorem cJSONParseWithOpts_iff (value : CString) (v : Json D) :
    (∃ parsed item, cJSONParseWithOpts fl value true = .ok parsed ∧ parsed.item = some item ∧
      Holds fl v item) ↔
      v.depth ≤ CJSON_NESTING_LIMIT ∧ ∃ b w t w', value.bytes = b ++ w ++ t ++ w' ∧
        (b = [] ∨ b = bom) ∧ Json.Blank (accepted fl) w ∧ v.Text (accepted fl) t ∧
        Json.Blank (accepted fl) w' := by
  constructor
  · rintro ⟨parsed, item, hrun, hitem, hv⟩
    obtain ⟨parsed', hrun', -, hparsed⟩ := cJSONParseWithOpts_sound fl value true
    cases hrun.symm.trans hrun'
    rw [hitem] at hparsed
    obtain ⟨-, v', hv', hdepth, b, w, t, w', hs, hb, hw, ht, hw', -⟩ := hparsed
    obtain rfl := hv.unique hv'
    exact ⟨hdepth, b, w, t, w', hs, hb, hw, ht, hw'⟩
  · rintro ⟨hdepth, b, w, t, w', hs, hb, hw, ht, hw'⟩
    obtain ⟨item, hrun, hv⟩ := cJSONParseWithOpts_complete true hs hb hw ht hdepth
      (fun _ _ => follow_blank hw') fun _ => hw'
    exact ⟨_, item, hrun, rfl, hv⟩

/-- **Every text of the standard is parsed to its value**, if it is not nested too deep; a
string ends at its first zero. -/
theorem cJSONParseWithOpts_standard {value : CString} {w w' : Bytes}
    (hs : value.bytes = w ++ t ++ w') (hw : Json.Blank (standard fl) w)
    (ht : j.Text (standard fl) t) (hw' : Json.Blank (standard fl) w')
    (hdepth : j.depth ≤ CJSON_NESTING_LIMIT) (requireNullTerminated : Bool) :
    ∃ item, cJSONParseWithOpts fl value requireNullTerminated = .ok
      { item := some item,
        parseEnd := if requireNullTerminated then value.length else (w ++ t).length,
        errorPosition := none } ∧
      Holds fl (j.mapStrings cut) item := by
  have hblank := hw'.map (standard_reads fl)
  exact cJSONParseWithOpts_complete requireNullTerminated hs (Or.inl rfl)
    (hw.map (standard_reads fl)) (ht.map (standard_reads fl)) (by rwa [Json.depth_mapStrings])
    (fun _ _ => follow_blank hblank) fun _ => hblank

theorem cJSONParseWithOpts_seven : ∃ item, cJSONParseWithOpts oneDigit (lit " [7]") false = .ok
    { item := some item, parseEnd := 4, errorPosition := none } ∧
      Holds oneDigit (.array [.number (some 7)]) item := by
  have hseven : (Json.number (some 7)).Text (standard oneDigit) [55] :=
    ⟨⟨[], [55], [], [], rfl, Or.inl rfl, Or.inr ⟨by simp [Json.Digits], by decide⟩,
      Or.inl rfl, Or.inl rfl⟩, by decide, rfl⟩
  have htext : (Json.array [Json.number (some 7)]).Text (standard oneDigit) (ascii "[7]") :=
    ⟨_, rfl, [], [55], [], [93], Json.Blank.nil, hseven, Json.Blank.nil, rfl, Or.inl ⟨rfl, rfl⟩⟩
  have hw : Json.Blank (standard oneDigit) [32] := by
    intro c hc
    exact Or.inl (List.mem_singleton.mp hc)
  have hs : (lit " [7]").bytes = [32] ++ ascii "[7]" ++ [] := rfl
  exact cJSONParseWithOpts_standard hs hw htext Json.Blank.nil (by decide) false

end Standard

end VantiqMicro.CJson
