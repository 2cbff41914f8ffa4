import VantiqMicro.CJsonPrint

/-! # What the JSON printer writes

The printer against the text of an item (`text`), which knows no buffer.  `Buffered` says
what is in the buffer and how much of it there is, and `Emits` what a function does from
there: it prints the text of its item, or the text has no room or does not exist. -/

namespace VantiqMicro.CJson
open CMem

/-- What stays as it is while a text is printed. -/
structure Sheet where
  format : Bool
  noalloc : Bool
  reallocate : Bool
  /-- As long as the buffer can get. -/
  cap : Nat
  /-- What the caller's block has behind it. -/
  rest : Block
  cap_le : cap ≤ INT_MAX.toNat
  grows : noalloc = false → cap = INT_MAX.toNat ∧ rest = []

/-- The bytes `s` are in front of the offset and the cells `w` behind it. -/
structure Buffered (S : Sheet) (depth : Nat) (s : Bytes) (w : Block) (p : PrintBuffer) :
    Prop where
  contents : ∃ spare, p.buffer = some (cells s ++ (w ++ (spare ++ S.rest))) ∧
    p.length = s.length + (w.length + spare.length)
  offset : p.offset = s.length
  depth : p.depth = depth
  format : p.format = S.format
  noalloc : p.noalloc = S.noalloc
  reallocate : p.reallocate = S.reallocate
  length_le : p.length ≤ S.cap
  full : S.noalloc = true → p.length = S.cap
  /-- `ensure` without `reallocate` copies one byte more than has been printed. -/
  copies : S.noalloc = false → S.reallocate = false → 0 < p.length

/-- The text `s` has been printed. -/
structure Printed (S : Sheet) (depth : Nat) (s : Bytes) (p : PrintBuffer) : Prop
    extends Buffered S depth s [] p where
  live : p.length = 0 ∨ s.length < p.length

/-- The text `s` has been printed with a zero behind it; the offset may be where its last value
starts. -/
def Wrote (S : Sheet) (depth : Nat) (s : Bytes) (p : PrintBuffer) : Prop :=
  s.length + 2 ≤ S.cap ∧
    ∃ s' t, s = s' ++ t ∧ 0 ∉ t ∧ Buffered S depth s' (cells t ++ [some 0]) p

/-- Whatever has been printed, the caller's block is whole. -/
def Framed (S : Sheet) (p : PrintBuffer) : Prop :=
  ∃ b, p.buffer = some (b ++ S.rest) ∧ p.length = b.length ∧ (S.noalloc = true → p.length = S.cap)

/-- From `s` on the text `o` is printed, or it does not fit. -/
def Emits (S : Sheet) (R : Bytes → PrintBuffer → Prop) (s : Bytes) (o : Option Bytes)
    (x : Except Fault (Bool × PrintBuffer)) : Prop :=
  ∃ ok p, x = .ok (ok, p) ∧ Framed S p ∧ (ok = true → ∃ t, o = some t ∧ R (s ++ t) p) ∧
    (ok = false → ∀ t, o = some t → S.cap < (s ++ t).length + 2)

section Buffered
variable {S : Sheet} {d n : Nat} {s t : Bytes} {w c : Block} {p : PrintBuffer}

theorem Buffered.forget (h : Buffered S d s (w ++ c) p) : Buffered S d s w p where
  contents := by
    obtain ⟨spare, hb, hlen⟩ := h.contents
    refine ⟨c ++ spare, by simpa using hb, ?_⟩
    rw [hlen, List.length_append, List.length_append, Nat.add_assoc]
  offset := h.offset
  depth := h.depth
  format := h.format
  noalloc := h.noalloc
  reallocate := h.reallocate
  length_le := h.length_le
  full := h.full
  copies := h.copies

theorem Buffered.framed (h : Buffered S d s w p) : Framed S p := by
  obtain ⟨spare, hb, hlen⟩ := h.contents
  refine ⟨cells s ++ (w ++ spare), by simpa using hb, ?_, h.full⟩
  rw [hlen, List.length_append, List.length_append, length_cells]

/-- The offset moves behind what has been stored. -/
theorem Buffered.advance (h : Buffered S d s (cells t ++ w) p) (hn : n = p.offset + t.length)
    (d' : Nat) : Buffered S d' (s ++ t) w { p with offset := n, depth := d' } where
  contents := by
    obtain ⟨spare, hb, hlen⟩ := h.contents
    refine ⟨spare, by simpa using hb, ?_⟩
    show p.length = _
    rw [hlen, List.length_append, List.length_append, length_cells]
    omega
  offset := by
    show n = _
    rw [hn, h.offset, List.length_append]
  depth := rfl
  format := h.format
  noalloc := h.noalloc
  reallocate := h.reallocate
  length_le := h.length_le
  full := h.full
  copies := h.copies

theorem Buffered.store (h : Buffered S d s w p)
    (hroom : s.length + (w.length + c.length) ≤ p.length) (hn : n = w.length) :
    ∃ p', p.store n c = .ok p' ∧ Buffered S d s (w ++ c) p' ∧ p'.length = p.length := by
  obtain ⟨spare, hb, hlen⟩ := h.contents
  have hle : c.length ≤ spare.length := by omega
  have hstore : (cells s ++ (w ++ (spare ++ S.rest))).store (p.offset + n) c =
      .ok (cells s ++ (w ++ (c ++ (spare.drop c.length ++ S.rest)))) := by
    have hoffset : p.offset + n = (cells s ++ w).length := by
      rw [h.offset, hn, List.length_append, length_cells]
    have hcells : cells s ++ (w ++ (spare ++ S.rest)) = (cells s ++ w) ++ (spare ++ S.rest) := by
      simp
    refine Block.store_eq_ok.mpr ⟨?_, ?_⟩
    · rw [hoffset, hcells, @List.length_append _ (cells s ++ w), @List.length_append _ spare]
      omega
    · rw [hoffset, hcells, List.take_left, List.drop_length_add_append, List.drop_append,
        Nat.sub_eq_zero_of_le hle]
      simp
  refine ⟨{ p with buffer := some (cells s ++ (w ++ (c ++ (spare.drop c.length ++ S.rest)))) },
    ?_, ?_, rfl⟩
  · rw [PrintBuffer.store, hb]
    simp only [hstore, ok_bind]
    rfl
  · refine ⟨⟨spare.drop c.length, by simp, ?_⟩, h.offset, h.depth, h.format, h.noalloc,
      h.reallocate, h.length_le, h.full, h.copies⟩
    show p.length = _
    rw [hlen, List.length_append, List.length_drop]
    omega

/-! ## `ensure` -/

theorem Printed.grow {b : Block} {k : Nat} (h : Printed S d s p) (hb : p.buffer = some b)
    (hS : S.noalloc = false) (hk : s.length < k) (hcap : k ≤ S.cap) :
    ∃ p', p.grow b k = .ok p' ∧ Printed S d s p' ∧ p'.length = k := by
  obtain ⟨spare, hb', hlen⟩ := h.contents
  have hcontents : b = cells s ++ spare := by
    have := Option.some.inj (hb.symm.trans hb')
    rwa [(S.grows hS).2, List.append_nil, List.nil_append] at this
  -- the first `s.length` cells are kept, whatever is behind them
  have hgrown : ∀ {spare'}, spare'.length = k - s.length → Printed S d s
      { p with length := k, buffer := some (cells s ++ spare') } := by
    intro spare' hspare'
    refine ⟨⟨⟨spare', by simp [(S.grows hS).2], ?_⟩, h.offset, h.depth, h.format, h.noalloc,
      h.reallocate, hcap, fun h => absurd (hS.symm.trans h) (by decide),
      fun _ _ => Nat.zero_lt_of_lt hk⟩, Or.inr hk⟩
    show k = _
    rw [hspare', List.length_nil]
    omega
  rw [PrintBuffer.grow]
  by_cases hreallocate : p.reallocate = true
  · have hrealloc : b.realloc k =
        cells s ++ (spare.take (k - s.length) ++ malloc (k - (s.length + spare.length))) := by
      rw [Block.realloc, hcontents, List.take_append, List.take_of_length_le (by simp; omega),
        List.length_append, length_cells, List.append_assoc]
    rw [if_pos hreallocate, hrealloc]
    refine ⟨_, rfl, hgrown ?_, rfl⟩
    rw [List.length_append, List.length_take, length_malloc]
    omega
  · have hspare : 0 < spare.length := by
      have hpos := h.copies hS (by rw [← h.reallocate]; exact Bool.eq_false_iff.mpr hreallocate)
      have hlive := h.live
      rw [List.length_nil] at hlen
      omega
    obtain ⟨x, spare, rfl⟩ := List.exists_cons_of_length_pos hspare
    have hcopy : (malloc k).memcpy 0 b 0 (p.offset + 1) =
        .ok (cells s ++ (x :: malloc (k - (s.length + 1)))) := by
      have hload : b.load 0 (p.offset + 1) = .ok (cells s ++ [x]) := by
        refine Block.load_eq_ok.mpr ⟨?_, ?_⟩
        · rw [hcontents, h.offset, List.length_append, length_cells, List.length_cons]
          omega
        · rw [hcontents, h.offset, List.drop_zero, ← length_cells s, List.take_length_add_append]
          rfl
      rw [Block.memcpy, hload, ok_bind]
      refine Block.store_eq_ok.mpr ⟨?_, ?_⟩
      · rw [List.length_append, length_cells, length_malloc, List.length_singleton]
        omega
      · simp [malloc]
    rw [if_neg hreallocate, hcopy, ok_bind]
    refine ⟨_, rfl, hgrown ?_, rfl⟩
    rw [List.length_cons, length_malloc]
    omega

/-- **`ensure` makes room exactly when there can be room.** -/
theorem ensure_spec (h : Printed S d s p) (needed : Nat) :
    ∃ ok p', ensure p needed = .ok (ok, p') ∧
      (ok = true → needed + (s.length + 1) ≤ S.cap ∧ needed + (s.length + 1) ≤ p'.length) ∧
      (ok = false → S.cap < needed + (s.length + 1)) ∧ Printed S d s p' := by
  obtain ⟨spare, hb, hlen⟩ := h.contents
  have hcap := S.cap_le
  have hle := h.length_le
  have hmax : INT_MAX.toNat = 2147483647 := rfl
  have hlive : ¬ (0 < p.length ∧ p.length ≤ p.offset) := by
    rw [h.offset]
    rcases h.live with h0 | hlt <;> omega
  rw [ensure, hb]
  simp only [if_neg hlive]
  by_cases hneeded : INT_MAX < (needed : Int)
  · refine ⟨false, p, if_pos hneeded, by simp, fun _ => ?_, h⟩
    simp only [INT_MAX] at hneeded
    omega
  rw [if_neg hneeded, h.offset]
  by_cases hroom : needed + (s.length + 1) ≤ p.length
  · exact ⟨true, p, if_pos hroom, fun _ => ⟨Nat.le_trans hroom hle, hroom⟩, by simp, h⟩
  rw [if_neg hroom]
  cases hS : S.noalloc with
  | true =>
    rw [h.noalloc, hS]
    refine ⟨false, p, rfl, by simp, fun _ => ?_, h⟩
    rw [← h.full hS]
    omega
  | false =>
    rw [h.noalloc, hS]
    have hmaxcap := (S.grows hS).1
    have hgrow := fun k hk hcap => h.grow (k := k) hb hS hk hcap
    simp only [Bool.false_eq_true, if_false]
    split
    · split
      · obtain ⟨p', hrun, hp', hlen'⟩ := hgrow INT_MAX.toNat (by simp only [INT_MAX] at *; omega)
          (by omega)
        rw [hrun, ok_bind]
        refine ⟨true, p', rfl, fun _ => ⟨?_, ?_⟩, by simp, hp'⟩ <;>
          simp only [INT_MAX] at * <;> omega
      · refine ⟨false, p, rfl, by simp, fun _ => ?_, h⟩
        simp only [INT_MAX] at *
        omega
    · obtain ⟨p', hrun, hp', hlen'⟩ := hgrow ((needed + (s.length + 1)) * 2) (by omega)
        (by simp only [INT_MAX] at *; omega)
      rw [hrun, ok_bind]
      refine ⟨true, p', rfl, fun _ => ⟨?_, ?_⟩, by simp, hp'⟩ <;>
        simp only [INT_MAX] at * <;> omega

end Buffered

/-! ## Rules for `Emits` -/

section Emits
variable {S : Sheet} {R R₁ : Bytes → PrintBuffer → Prop} {d n : Nat} {s t u : Bytes}
  {o o₁ o₂ : Option Bytes} {w c : Block} {p : PrintBuffer} {x : Except Fault (Bool × PrintBuffer)}
  {k : PrintBuffer → Except Fault (Bool × PrintBuffer)}
  {f : Bool × PrintBuffer → Except Fault (Bool × PrintBuffer)}

theorem Emits.done (ho : o = some t) (hp : Framed S p) (h : R (s ++ t) p) :
    Emits S R s o (.ok (true, p)) :=
  ⟨true, p, rfl, hp, fun _ => ⟨t, ho, h⟩, fun h => by cases h⟩

/-- An item without a text. -/
theorem Emits.refused (hp : Framed S p) : Emits S R s none (.ok (false, p)) :=
  ⟨false, p, rfl, hp, by simp, fun _ t h => by cases h⟩

/-- What is printed already. -/
theorem Emits.after (h : Emits S R (s ++ t) o₂ x) (ho : o = o₂.map (t ++ ·)) :
    Emits S R s o x := by
  obtain ⟨ok, p, hx, hp, htrue, hfalse⟩ := h
  refine ⟨ok, p, hx, hp, fun hok => ?_, fun hok u hu => ?_⟩
  · obtain ⟨u, rfl, hu⟩ := htrue hok
    exact ⟨t ++ u, ho, by rwa [← List.append_assoc]⟩
  · obtain ⟨u, rfl, rfl⟩ := Option.map_eq_some_iff.mp (ho.symm.trans hu)
    rw [← List.append_assoc]
    exact hfalse hok u rfl

variable (o₂) in
/-- Two texts one after the other; a failure is passed on. -/
theorem Emits.seq (hx : Emits S R₁ s o₁ x) (hf : ∀ p, f (false, p) = .ok (false, p))
    (hk : ∀ t p, o₁ = some t → R₁ (s ++ t) p → Emits S R (s ++ t) o₂ (f (true, p)))
    (ho : o = do
      let t ← o₁
      let u ← o₂
      return t ++ u) : Emits S R s o (x >>= f) := by
  obtain ⟨ok, p, rfl, hp, htrue, hfalse⟩ := hx
  rw [ok_bind]
  cases ok with
  | true =>
    obtain ⟨t, rfl, ht⟩ := htrue rfl
    exact (hk t p rfl ht).after (by rw [ho]; cases o₂ <;> rfl)
  | false =>
    refine ⟨false, p, hf p, hp, by simp, fun _ t ht => ?_⟩
    rw [ho] at ht
    cases o₁ with
    | none => cases ht
    | some t₁ =>
      cases o₂ with
      | none => cases ht
      | some t₂ =>
        cases ht
        have hlt := hfalse rfl t₁ rfl
        simp only [List.length_append] at hlt ⊢
        omega

/-- Room is made first; what is asked for is not more than the text. -/
theorem Emits.ensure {needed : Nat} (hp : Printed S d s p)
    (hf : ∀ p, f (false, p) = .ok (false, p)) (hneeded : ∀ t, o = some t → needed ≤ t.length + 1)
    (hk : ∀ p', Printed S d s p' → needed + (s.length + 1) ≤ p'.length →
      needed + (s.length + 1) ≤ S.cap → Emits S R s o (f (true, p'))) :
    Emits S R s o (CJson.ensure p needed >>= f) := by
  obtain ⟨ok, p', hrun, htrue, hfalse, hp'⟩ := ensure_spec hp needed
  rw [hrun, ok_bind]
  cases ok with
  | true =>
    obtain ⟨hcap, hroom⟩ := htrue rfl
    exact hk p' hp' hroom hcap
  | false =>
    refine ⟨false, p', hf p', hp'.framed, by simp, fun _ t ht => ?_⟩
    have hlt := hfalse rfl
    have hle := hneeded t ht
    rw [List.length_append]
    omega

theorem Emits.store (hp : Buffered S d s w p)
    (hroom : s.length + (w.length + c.length) ≤ p.length) (hn : n = w.length)
    (hk : ∀ p', Buffered S d s (w ++ c) p' → p'.length = p.length → Emits S R s o (k p')) :
    Emits S R s o (p.store n c >>= k) := by
  obtain ⟨p', hrun, hp', hlen⟩ := hp.store hroom hn
  rw [hrun, ok_bind]
  exact hk p' hp' hlen

/-- The end of what has been written is found by its zero. -/
theorem updateOffset_spec (hp : Wrote S d s p) :
    ∃ p', updateOffset p = .ok p' ∧ Buffered S d s [some 0] p' := by
  obtain ⟨-, s', t, rfl, h0, hp⟩ := hp
  obtain ⟨spare, hb, hlen⟩ := hp.contents
  have hread : Block.readString (((cells s' ++ (cells t ++ [some 0] ++ (spare ++ S.rest)))).drop
      p.offset) = .ok ⟨t, h0⟩ := by
    rw [hp.offset, ← length_cells s', List.drop_left, List.append_assoc]
    exact Block.readString_eq_ok.mpr (Block.stringBytes_cells_append h0 _)
  have hrun : updateOffset p = .ok { p with offset := p.offset + t.length } := by
    rw [updateOffset, hb]
    simp only [hread, ok_bind]
    rfl
  have hadvance := hp.advance (n := p.offset + t.length) rfl d
  rw [← hp.depth] at hadvance ⊢
  exact ⟨_, hrun, hadvance⟩

theorem Emits.updateOffset (hp : Wrote S d s p)
    (hk : ∀ p', Printed S d s p' → Emits S R s o (k p')) :
    Emits S R s o (CJson.updateOffset p >>= k) := by
  obtain ⟨p', hrun, hp'⟩ := updateOffset_spec hp
  obtain ⟨spare, -, hlen⟩ := hp'.contents
  rw [hrun, ok_bind]
  refine hk p' ⟨Buffered.forget (w := []) (c := [some 0]) hp', Or.inr ?_⟩
  rw [hlen, List.length_singleton]
  omega

end Emits

/-! ## Numbers and strings -/

section Leaves
variable {D : Type} {pr : Printing D} {S : Sheet} {d n : Nat} {s t : Bytes} {w : Block}
  {p : PrintBuffer}

theorem wrote_of (hp : Buffered S d s (cells t ++ [some 0]) p) (h0 : 0 ∉ t)
    (hcap : s.length + t.length + 2 ≤ S.cap) : Wrote S d (s ++ t) p :=
  ⟨by rwa [List.length_append], s, t, rfl, h0, hp⟩

/-- A text and its zero. -/
theorem emits_terminated (hp : Printed S d s p) (h0 : 0 ∉ t) :
    Emits S (Wrote S d) s (some t) (do
      let (ok, p) ← ensure p (t.length + 1)
      if !ok then
        return (false, p)
      let p ← p.store 0 (cells t ++ [some 0])
      return (true, p)) := by
  refine Emits.ensure hp (fun _ => rfl) ?_ ?_
  · rintro _ ⟨⟩
    exact Nat.le_refl _
  intro p hp hroom hcap
  refine Emits.store hp.toBuffered ?_ rfl ?_
  · rw [List.length_nil, List.length_append, length_cells, List.length_singleton]
    omega
  · intro p hp _
    exact Emits.done rfl hp.framed (wrote_of hp h0 (by omega))

theorem printLiteral_emits {name : String} (hp : Printed S d s p)
    (hlit : (lit name).bytes = ascii name) :
    Emits S (Wrote S d) s (some (ascii name)) (printLiteral name p) := by
  have hlen : (ascii name).length = name.length := by
    rw [ascii, List.length_map, String.length_toList]
  have h0 : 0 ∉ ascii name := hlit ▸ (lit name).nulFree
  rw [printLiteral, ← hlen, CString.toBlock, hlit]
  exact emits_terminated hp h0

theorem printRaw_emits {valuestring : Option Block} (hp : Printed S d s p)
    (hstring : StringOrNull valuestring) :
    Emits S (Wrote S d) s (valuestring.bind Block.stringBytes) (printRaw valuestring p) := by
  cases valuestring with
  | none => exact Emits.refused hp.framed
  | some b =>
    obtain ⟨u, hu⟩ := hstring b rfl
    have hread : b.readString = .ok ⟨u, Block.nulFree_of_stringBytes hu⟩ :=
      Block.readString_eq_ok.mpr hu
    rw [printRaw, hread, ok_bind, Option.bind_some, hu]
    exact emits_terminated hp (Block.nulFree_of_stringBytes hu)

theorem length_numberString_le (pr : Printing D) (x : D) : (numberString pr x).length ≤ 24 := by
  rw [numberString]
  split
  · decide
  · simp only
    split
    · split
      · exact pr.length_sprintf_le 15 (by decide) x
      · exact pr.length_sprintf_le 17 (by decide) x
    · exact pr.length_sprintf_le 17 (by decide) x

theorem printNumber_emits (hp : Printed S d s p) (x : D) :
    Emits S (Wrote S d) s (some (numberString pr x).bytes) (printNumber pr x p) := by
  have hlen := length_numberString_le pr x
  -- the decimal point is that of the "C" locale
  have hcopied : (numberString pr x).bytes.map (fun c => if c = getDecimalPoint then 46 else c) =
      (numberString pr x).bytes := by
    refine (List.map_congr_left fun c _ => ?_).trans (List.map_id _)
    split
    · rename_i h
      exact h.symm
    · rfl
  rw [printNumber, Block.strcpy_malloc (by omega), ok_bind, if_neg (by omega)]
  refine Emits.ensure hp (fun _ => rfl) ?_ ?_
  · rintro _ ⟨⟩
    exact Nat.le_refl _
  intro p hp hroom hcap
  simp only [hcopied]
  generalize numberString pr x = c at hroom hcap
  have hc : (cells c.bytes).length = c.length := length_cells _
  refine Emits.store hp.toBuffered (by rw [hc, List.length_nil]; omega) rfl ?_
  intro p hp hlen₁
  rw [List.nil_append] at hp
  refine Emits.store hp (by rw [hc, List.length_singleton]; omega) hc.symm ?_
  intro p hp hlen₂
  have hadvance := hp.advance (n := p.offset + c.length) rfl d
  rw [← hp.depth] at hadvance
  refine Emits.done rfl hp.framed ⟨?_, s ++ c.bytes, [], by simp, by simp, ?_⟩
  · rw [List.length_append]
    exact Nat.le_trans (by rw [CString.length]; omega) hcap
  · rw [← hp.depth]
    exact hadvance

/-! ### Escapes -/

/-- A character of a printed string. -/
def escape (c : UInt8) : Bytes :=
  if 31 < c ∧ c ≠ 34 ∧ c ≠ 92 then [c] else 92 :: escaped c

theorem quoted_eq (s : Bytes) : quoted s = 34 :: (s.flatMap escape ++ [34]) := rfl

theorem hexDigit_spec : ∀ n < 16, hexDigit n ≠ 0 ∧ Percent.hexValue (hexDigit n) = some n := by
  decide

theorem zero_not_mem_escaped (c : UInt8) : 0 ∉ escaped c := by
  have hc := c.toNat_lt
  have h₁ := (hexDigit_spec (c.toNat / 16) (by omega)).1
  have h₂ := (hexDigit_spec (c.toNat % 16) (Nat.mod_lt _ (by decide))).1
  rw [escaped]
  repeat' split
  all_goals simp [h₁.symm, h₂.symm]

theorem zero_not_mem_quoted (s : Bytes) : 0 ∉ quoted s := by
  have hescape : ∀ c, 0 ∉ escape c := by
    intro c
    rw [escape]
    split
    · rename_i h
      have hne : (0 : UInt8) ≠ c := by
        rintro rfl
        exact absurd h.1 (by decide)
      simpa using hne
    · simpa using zero_not_mem_escaped c
  simp [quoted_eq, List.mem_flatMap, hescape]

theorem length_escape (c : UInt8) : (escape c).length = escapeCharacters c + 1 := by
  have hlt : c < 32 ↔ ¬ 31 < c := by
    rw [UInt8.lt_iff_toNat_lt, UInt8.lt_iff_toNat_lt]
    exact Nat.lt_succ_iff.trans Nat.not_lt.symm
  rw [escape]
  split
  · rename_i h
    have hshort : ¬ (c = 34 ∨ c = 92 ∨ c = 8 ∨ c = 12 ∨ c = 10 ∨ c = 13 ∨ c = 9) := by
      rintro (rfl | rfl | rfl | rfl | rfl | rfl | rfl) <;> exact absurd h (by decide)
    rw [escapeCharacters, if_neg hshort, if_neg fun hc => hlt.mp hc h.1]
    rfl
  · rename_i h
    rw [escapeCharacters]
    by_cases hshort : c = 34 ∨ c = 92 ∨ c = 8 ∨ c = 12 ∨ c = 10 ∨ c = 13 ∨ c = 9
    · rcases hshort with rfl | rfl | rfl | rfl | rfl | rfl | rfl <;> rfl
    · rw [if_neg hshort]
      simp only [not_or] at hshort
      have hcontrol : c < 32 := hlt.mpr fun hc => h ⟨hc, hshort.1, hshort.2.1⟩
      simp [escaped, hshort, hcontrol]

theorem length_flatMap_escape (u : Bytes) :
    (u.flatMap escape).length = u.length + (u.map escapeCharacters).sum := by
  induction u with
  | nil => rfl
  | cons c u ih =>
    rw [List.flatMap_cons, List.length_append, length_escape, ih, List.map_cons, List.sum_cons,
      List.length_cons]
    omega

/-- Where nothing has to be escaped the string is copied as it is. -/
theorem flatMap_escape_of_sum_eq_zero {u : Bytes} (h : (u.map escapeCharacters).sum = 0) :
    u.flatMap escape = u := by
  induction u with
  | nil => rfl
  | cons c u ih =>
    rw [List.map_cons, List.sum_cons] at h
    have hc : escapeCharacters c = 0 := by omega
    have hescape : escape c = [c] := by
      have hlen := length_escape c
      rw [hc] at hlen
      rw [escape] at hlen ⊢
      split
      · rfl
      · rename_i hc'
        rw [if_neg hc', List.length_cons] at hlen
        have hempty : escaped c = [] := List.eq_nil_of_length_eq_zero (by omega)
        rw [escaped] at hempty
        repeat' split at hempty
        all_goals cases hempty
    rw [List.flatMap_cons, hescape, ih (by omega)]
    rfl

/-- The loop writes the escaped string; the zero of a `sprintf` is overwritten, the last one by
the quote for which there is room behind it. -/
theorem copyEscaped_spec {u : Bytes} (hp : Buffered S d s w p)
    (hroom : s.length + (w.length + ((u.flatMap escape).length + 1)) ≤ p.length)
    (hn : n = w.length) :
    ∃ p', copyEscaped p n u = .ok p' ∧ Buffered S d s (w ++ cells (u.flatMap escape)) p' ∧
      p'.length = p.length := by
  induction u generalizing p w n with
  | nil => exact ⟨p, rfl, by simpa using hp, rfl⟩
  | cons c u ih =>
    rw [List.flatMap_cons, List.length_append] at hroom
    rw [List.flatMap_cons, copyEscaped]
    by_cases hc : 31 < c ∧ c ≠ 34 ∧ c ≠ 92
    · have hescape : escape c = [c] := if_pos hc
      rw [hescape, List.length_singleton] at hroom
      obtain ⟨p₁, hrun₁, hp₁, hlen₁⟩ := hp.store (c := [some c])
        (by rw [List.length_singleton]; omega) hn
      obtain ⟨p₂, hrun₂, hp₂, hlen₂⟩ := ih (n := n + 1) hp₁
        (by rw [hlen₁, List.length_append, List.length_singleton]; omega)
        (by rw [List.length_append, hn, List.length_singleton])
      rw [if_pos hc, hrun₁, ok_bind, hrun₂, hescape]
      exact ⟨p₂, rfl, by simpa [cells] using hp₂, hlen₂.trans hlen₁⟩
    · have hescape : escape c = 92 :: escaped c := if_neg hc
      rw [hescape, List.length_cons] at hroom
      obtain ⟨p₁, hrun₁, hp₁, hlen₁⟩ := hp.store (c := [some 92])
        (by rw [List.length_singleton]; omega) hn
      have hzero : (if (escaped c).length = 5 then [some 0] else [] : Block).length ≤ 1 := by
        split <;> simp
      obtain ⟨p₂, hrun₂, hp₂, hlen₂⟩ := hp₁.store (n := n + 1)
        (c := cells (escaped c) ++ if (escaped c).length = 5 then [some 0] else [])
        (by
          rw [hlen₁, List.length_append, List.length_append, List.length_singleton, length_cells]
          omega)
        (by rw [List.length_append, hn, List.length_singleton])
      rw [← List.append_assoc] at hp₂
      obtain ⟨p₃, hrun₃, hp₃, hlen₃⟩ := ih (n := n + 1 + (escaped c).length) hp₂.forget
        (by
          rw [hlen₂, hlen₁, List.length_append, List.length_append, List.length_singleton,
            length_cells]
          omega)
        (by rw [List.length_append, List.length_append, hn, List.length_singleton, length_cells])
      rw [if_neg hc, hrun₁, ok_bind]
      simp only [hrun₂, ok_bind, hrun₃]
      exact ⟨p₃, rfl, by simpa [hescape, cells] using hp₃, (hlen₃.trans hlen₂).trans hlen₁⟩

theorem printStringPtr_emits {input : Option Block} (hp : Printed S d s p)
    (hstring : StringOrNull input) :
    Emits S (Wrote S d) s (stringText input) (printStringPtr input p) := by
  cases input with
  | none => exact emits_terminated (t := [34, 34]) hp (by decide)
  | some b =>
    obtain ⟨u, hu⟩ := hstring b rfl
    have hread : b.readString = .ok ⟨u, Block.nulFree_of_stringBytes hu⟩ :=
      Block.readString_eq_ok.mpr hu
    have hlength := length_flatMap_escape u
    have hquoted : (quoted u).length = (u.flatMap escape).length + 2 := by
      rw [quoted_eq, List.length_cons, List.length_append, List.length_singleton]
    rw [printStringPtr, hread, ok_bind, stringText, hu]
    refine Emits.ensure hp (fun _ => rfl) ?_ ?_
    · rintro _ ⟨⟩
      rw [hquoted, hlength]
      exact Nat.le_refl _
    intro p hp hroom hcap
    rw [CString.length, ← hlength] at hroom hcap
    refine Emits.store hp.toBuffered (by rw [List.length_nil, List.length_singleton]; omega) rfl ?_
    intro p hp hlen₁
    rw [List.nil_append] at hp
    have hbody : ∃ p', copyString p (u.map escapeCharacters).sum u = .ok p' ∧
        Buffered S d s ([some 34] ++ cells (u.flatMap escape)) p' ∧ p'.length = p.length := by
      rw [copyString]
      by_cases hsum : (u.map escapeCharacters).sum = 0
      · rw [if_pos hsum, flatMap_escape_of_sum_eq_zero hsum]
        refine hp.store ?_ rfl
        rw [flatMap_escape_of_sum_eq_zero hsum] at hroom
        rw [List.length_singleton, length_cells]
        omega
      · rw [if_neg hsum]
        exact copyEscaped_spec hp (by rw [List.length_singleton]; omega) rfl
    obtain ⟨p₂, hrun₂, hp₂, hlen₂⟩ := hbody
    show Emits S (Wrote S d) s (some (quoted u)) (copyString p (u.map escapeCharacters).sum u >>= _)
    rw [hrun₂, ok_bind, CString.length, ← hlength]
    refine Emits.store hp₂ ?_ ?_ ?_
    · simp only [List.length_append, List.length_singleton, length_cells]
      omega
    · rw [List.length_append, List.length_singleton, length_cells, Nat.add_comm]
    intro p₃ hp₃ hlen₃
    refine Emits.store hp₃ ?_ ?_ ?_
    · simp only [List.length_append, List.length_singleton, length_cells]
      omega
    · simp only [List.length_append, List.length_singleton, length_cells]
      omega
    intro p₄ hp₄ _
    refine Emits.done rfl hp₄.framed (wrote_of ?_ (zero_not_mem_quoted u) (by rw [hquoted]; omega))
    rw [quoted_eq]
    simpa [cells] using hp₄

end Leaves

/-! ## Values -/

section Values
variable {D : Type} {pr : Printing D} {S : Sheet} {d d' e n : Nat} {s t : Bytes} {w : Block}
  {o : Option Bytes} {p : PrintBuffer}

theorem Buffered.printed (h : Buffered S d s (cells t ++ w) p)
    (hlt : s.length + t.length < p.length) (hn : n = p.offset + t.length) (he : e = d') :
    Printed S d' (s ++ t) { p with offset := n, depth := e } := by
  subst he
  exact ⟨Buffered.forget (w := []) (h.advance hn e), Or.inr (by rwa [List.length_append])⟩

theorem Buffered.outdent (h : Buffered S (d + 1) s w p) :
    Buffered S d s w { p with depth := p.depth - 1 } :=
  ⟨h.contents, h.offset, by rw [h.depth]; rfl, h.format, h.noalloc, h.reallocate, h.length_le,
    h.full, h.copies⟩

/-- What is stored in front of something else. -/
theorem emits_prefix {c : Block} {f : PrintBuffer → Except Fault (Bool × PrintBuffer)}
    {R : Bytes → PrintBuffer → Prop} (o₂ : Option Bytes) (hp : Printed S d s p)
    (hc : c = cells t ++ w) (hroom : s.length + c.length ≤ p.length)
    (hk : ∀ p', Buffered S d s (cells t ++ w) p' → p'.length = p.length →
      Emits S R (s ++ t) o₂ (f p')) (ho : o = o₂.map (t ++ ·)) :
    Emits S R s o (p.store 0 c >>= f) := by
  refine Emits.store hp.toBuffered (by rwa [List.length_nil, Nat.zero_add]) rfl ?_
  intro p' hp' hlen
  rw [List.nil_append, hc] at hp'
  exact (hk p' hp' hlen).after ho

theorem printArray_emits {elements : PrintBuffer → Except Fault (Bool × PrintBuffer)}
    (hp : Printed S d s p)
    (helements : ∀ p, Printed S (d + 1) (s ++ [91]) p →
      Emits S (Printed S (d + 1)) (s ++ [91]) o (elements p)) :
    Emits S (Wrote S d) s (do
      let t ← o
      return 91 :: (t ++ [93])) (printArray elements p) := by
  rw [printArray]
  refine Emits.ensure hp (fun _ => rfl) (fun t _ => Nat.succ_le_succ (Nat.zero_le _)) ?_
  intro p hp hroom hcap
  refine emits_prefix (t := [91]) (w := []) (do
    let t ← o
    return t ++ [93]) hp rfl (by rw [List.length_singleton]; omega) ?_ (by cases o <;> rfl)
  intro p hp hlen
  have hopened : Printed S (d + 1) (s ++ [91])
      { p with offset := p.offset + 1, depth := p.depth + 1 } :=
    hp.printed (by rw [List.length_singleton]; omega) rfl (by rw [hp.depth])
  refine Emits.seq (some [93]) (helements _ hopened) (fun _ => rfl) ?_ rfl
  intro t p _ hp
  refine Emits.ensure hp (fun _ => rfl) ?_ ?_
  · rintro _ ⟨⟩
    exact Nat.le_refl _
  intro p hp hroom hcap
  refine Emits.store hp.toBuffered ?_ rfl ?_
  · simp only [List.length_nil, List.length_cons]
    omega
  intro p hp _
  exact Emits.done rfl hp.framed (wrote_of (t := [93]) hp.outdent (by decide)
    (by rw [List.length_singleton]; omega))

theorem printIndent_emits (hp : Printed S d s p) :
    Emits S (Printed S d) s (some (ifFormat S.format (tabs d))) (printIndent p) := by
  rw [printIndent, hp.format]
  cases hformat : S.format with
  | false => exact Emits.done rfl hp.framed (by simpa [ifFormat] using hp)
  | true =>
    have htabs : (tabs d).length = d := List.length_replicate
    rw [if_pos rfl, hp.depth]
    refine Emits.ensure hp (fun _ => rfl) ?_ ?_
    · rintro _ ⟨⟩
      show d ≤ (tabs d).length + 1
      omega
    intro p hp hroom hcap
    simp only [hp.depth]
    refine Emits.store hp.toBuffered ?_ rfl ?_
    · rw [List.length_nil, length_cells]
      omega
    intro p hp hlen
    exact Emits.done rfl hp.framed (Buffered.printed (t := tabs d) (w := [])
      (by simpa using hp) (by omega) (by rw [htabs, hp.depth]) hp.depth)

theorem printKey_emits {string : Option Block} (hp : Printed S d s p)
    (hstring : StringOrNull string) :
    Emits S (Printed S d) s (do
      let key ← stringText string
      return key ++ 58 :: ifFormat S.format [9]) (printKey string p) := by
  rw [printKey]
  refine Emits.seq (some (58 :: ifFormat S.format [9])) (printStringPtr_emits hp hstring)
    (fun _ => rfl) ?_ rfl
  intro t p _ hp
  refine Emits.updateOffset hp ?_
  intro p hp
  have hcolon : cells (if S.format then [58, 9] else [58]) =
      cells (58 :: ifFormat S.format [9]) := by
    cases S.format <;> rfl
  have hlength : (if S.format then 2 else 1) = (58 :: ifFormat S.format [9]).length := by
    cases S.format <;> rfl
  simp only [hp.format, hlength]
  refine Emits.ensure hp (fun _ => rfl) ?_ ?_
  · rintro _ ⟨⟩
    exact Nat.le_succ _
  intro p hp hroom hcap
  simp only [hp.format, hcolon]
  refine Emits.store hp.toBuffered (by rw [List.length_nil, length_cells]; omega) rfl ?_
  intro p hp hlen
  exact Emits.done rfl hp.framed
    (Buffered.printed (w := []) (by simpa using hp) (by omega) rfl hp.depth)

theorem printObject_emits {members : PrintBuffer → Except Fault (Bool × PrintBuffer)}
    (hp : Printed S d s p)
    (hmembers : ∀ p, Printed S (d + 1) (s ++ 123 :: ifFormat S.format [10]) p →
      Emits S (Printed S (d + 1)) (s ++ 123 :: ifFormat S.format [10]) o (members p)) :
    Emits S (Wrote S d) s (do
      let t ← o
      return 123 :: (ifFormat S.format [10] ++ t ++ ifFormat S.format (tabs d) ++ [125]))
      (printObject members p) := by
  have hbrace : cells (if S.format then [123, 10] else [123]) =
      cells (123 :: ifFormat S.format [10]) := by
    cases S.format <;> rfl
  have hlength : (if S.format then 2 else 1) = (123 :: ifFormat S.format [10]).length := by
    cases S.format <;> rfl
  rw [printObject]
  simp only [hp.format, hlength]
  refine Emits.ensure hp (fun _ => rfl) ?_ ?_
  · intro t ht
    cases o with
    | none => cases ht
    | some t' =>
      cases ht
      simp only [List.length_cons, List.length_append]
      omega
  intro p hp hroom hcap
  simp only [hp.format, hbrace]
  refine emits_prefix (t := 123 :: ifFormat S.format [10]) (w := []) (do
    let t ← o
    return t ++ (ifFormat S.format (tabs d) ++ [125])) hp (by simp)
    (by rw [length_cells]; omega) ?_ (by cases o <;> simp)
  intro p hp hlen
  refine Emits.seq (some (ifFormat S.format (tabs d) ++ [125]))
    (hmembers _ (hp.printed (by omega) rfl (by rw [hp.depth]))) (fun _ => rfl) ?_ rfl
  intro t p _ hp
  have hclose : (if S.format then d + 1 + 1 else 2) =
      (ifFormat S.format (tabs d) ++ [125]).length + 1 := by
    cases S.format <;> simp [ifFormat, tabs]
  simp only [hp.format, hp.depth, hclose]
  refine Emits.ensure hp (fun _ => rfl) ?_ ?_
  · rintro _ ⟨⟩
    exact Nat.le_refl _
  intro p hp hroom hcap
  have hindent : (if S.format then tabs (d + 1 - 1) else []) = ifFormat S.format (tabs d) := rfl
  simp only [hp.format, hp.depth, hindent]
  refine Emits.store hp.toBuffered ?_ rfl ?_
  · simp only [List.length_nil, @List.length_append _ (cells _), length_cells,
      List.length_singleton]
    omega
  intro p hp _
  refine Emits.done rfl hp.framed (wrote_of hp.outdent ?_ (by omega))
  cases S.format <;> simp [ifFormat, tabs]

/-- What is stored between two items or behind the last. -/
theorem emits_separator {needed : Nat} {f : Bool × PrintBuffer → Except Fault (Bool × PrintBuffer)}
    {k : PrintBuffer → Except Fault (Bool × PrintBuffer)} {o₂ : Option Bytes}
    (hp : Printed S d s p) (hneeded : needed = t.length + 1)
    (hf : ∀ p, f (false, p) = .ok (false, p))
    (hstore : ∀ p, p.format = S.format → f (true, p) = (do
      let p ← p.store 0 (cells t ++ [some 0])
      k { p with offset := p.offset + t.length }))
    (hk : ∀ p', Printed S d (s ++ t) p' → Emits S (Printed S d) (s ++ t) o₂ (k p')) :
    Emits S (Printed S d) s (o₂.map (t ++ ·)) (ensure p needed >>= f) := by
  subst hneeded
  refine Emits.ensure hp hf ?_ ?_
  · intro u hu
    obtain ⟨u', -, rfl⟩ := Option.map_eq_some_iff.mp hu
    rw [List.length_append]
    omega
  intro p hp hroom hcap
  rw [hstore p hp.format]
  refine emits_prefix o₂ hp rfl ?_ ?_ rfl
  · rw [List.length_append, length_cells, List.length_singleton]
    omega
  intro p hp hlen
  exact hk _ (hp.printed (by omega) rfl hp.depth)

mutual

/-- **The printer writes the text of an item**, if there is room for it and two more bytes. -/
theorem printValue_emits (pr : Printing D) : ∀ (item : CJSON D) {d : Nat} {s : Bytes}
    {p : PrintBuffer}, Terminated item → Printed S d s p →
    Emits S (Wrote S d) s (text pr S.format d item) (printValue pr item p)
  | ⟨child, kind, _, _, valuestring, _, valuedouble, _⟩, d, s, p, hitem, hp => by
    cases kind with
    | null => exact printLiteral_emits hp rfl
    | «false» => exact printLiteral_emits hp rfl
    | «true» => exact printLiteral_emits hp rfl
    | number => exact printNumber_emits hp valuedouble
    | raw => exact printRaw_emits hp hitem
    | string => exact printStringPtr_emits hp hitem
    | invalid => exact Emits.refused hp.framed
    | array => exact printArray_emits hp fun p hp => printElements_emits pr child hitem hp
    | object => exact printObject_emits hp fun p hp => printMembers_emits pr child hitem hp

theorem printElements_emits (pr : Printing D) : ∀ (items : List (CJSON D)) {d : Nat} {s : Bytes}
    {p : PrintBuffer}, ElementsTerminated items → Printed S d s p →
    Emits S (Printed S d) s (elementsText pr S.format d items) (printElements pr items p)
  | [], d, s, p, _, hp => Emits.done (t := []) rfl hp.framed (by rwa [List.append_nil])
  | item :: next, d, s, p, hitems, hp => by
    have hvalue := printValue_emits pr item hitems.1 hp
    rw [printElements]
    cases next with
    | nil =>
      refine Emits.seq (some []) hvalue (fun _ => rfl) ?_ ?_
      · intro t p _ hp
        refine Emits.updateOffset hp fun p hp => ?_
        exact Emits.done (t := []) rfl hp.framed (by rwa [List.append_nil])
      · rw [elementsText]
        cases text pr S.format d item <;> simp
    | cons item' next =>
      have hcomma : cells (if S.format then [44, 32] else [44]) =
          cells (44 :: ifFormat S.format [32]) := by
        cases S.format <;> rfl
      have hlength : (if S.format then 2 else 1) = (44 :: ifFormat S.format [32]).length := by
        cases S.format <;> rfl
      refine Emits.seq ((elementsText pr S.format d (item' :: next)).map
        (44 :: ifFormat S.format [32] ++ ·)) hvalue (fun _ => rfl) ?_ ?_
      · intro t p _ hp
        refine Emits.updateOffset hp fun p hp => ?_
        simp only [hp.format, hlength]
        refine emits_separator hp rfl (fun _ => rfl) (fun p hformat => ?_)
          fun p hp => printElements_emits pr (item' :: next) hitems.2 hp
        simp only [hformat, hcomma]
        rfl
      · rw [elementsText]
        cases text pr S.format d item <;> cases elementsText pr S.format d (item' :: next) <;> simp

theorem printMembers_emits (pr : Printing D) : ∀ (items : List (CJSON D)) {d : Nat} {s : Bytes}
    {p : PrintBuffer}, MembersTerminated items → Printed S d s p →
    Emits S (Printed S d) s (membersText pr S.format d items) (printMembers pr items p)
  | [], d, s, p, _, hp => Emits.done (t := []) rfl hp.framed (by rwa [List.append_nil])
  | item :: next, d, s, p, hitems, hp => by
    rw [printMembers]
    refine Emits.seq (do
      let key ← stringText item.string
      let t ← text pr S.format d item
      let ts ← membersText pr S.format d next
      return key ++ 58 :: (ifFormat S.format [9] ++ t ++
        ((if next.isEmpty then [] else [44]) ++ ifFormat S.format [10]) ++ ts))
      (printIndent_emits hp) (fun _ => rfl) ?_ ?_
    · intro _ p _ hp
      refine Emits.seq (do
        let t ← text pr S.format d item
        let ts ← membersText pr S.format d next
        return t ++ ((if next.isEmpty then [] else [44]) ++ ifFormat S.format [10]) ++ ts)
        (printKey_emits hp hitems.1) (fun _ => rfl) ?_ ?_
      · intro _ p _ hp
        refine Emits.seq ((membersText pr S.format d next).map
          ((if next.isEmpty then [] else [44]) ++ ifFormat S.format [10] ++ ·))
          (printValue_emits pr item hitems.2.1 hp) (fun _ => rfl) ?_ ?_
        · intro t p _ hp
          refine Emits.updateOffset hp fun p hp => ?_
          have hend : (if next.isEmpty then [] else [44]) ++ (if S.format then [10] else []) =
              (if next.isEmpty then [] else [44]) ++ ifFormat S.format [10] := rfl
          simp only [hp.format, hend]
          exact emits_separator hp rfl (fun _ => rfl) (fun _ _ => rfl)
            fun p hp => printMembers_emits pr next hitems.2.2 hp
        · cases text pr S.format d item <;> cases membersText pr S.format d next <;> simp
      · cases stringText item.string <;> cases text pr S.format d item <;>
          cases membersText pr S.format d next <;> simp
    · rw [membersText]
      cases stringText item.string <;> cases text pr S.format d item <;>
        cases membersText pr S.format d next <;> simp

end

end Values

/-! ## Whole texts -/

section Texts
variable {D : Type} {pr : Printing D} {item : CJSON D} {t : Bytes}

theorem terminated_sevenAndInfinity : Terminated sevenAndInfinity := ⟨trivial, trivial, trivial⟩

theorem Wrote.take {S : Sheet} {d : Nat} {p : PrintBuffer} {b : Block} (h : Wrote S d t p)
    (hb : p.buffer = some b) : b.take (t.length + 1) = cells t ++ [some 0] := by
  obtain ⟨-, s', t, rfl, -, hp⟩ := h
  obtain ⟨spare, hb', -⟩ := hp.contents
  obtain rfl := Option.some.inj (hb.symm.trans hb')
  have hsplit : cells s' ++ (cells t ++ [some 0] ++ (spare ++ S.rest)) =
      cells (s' ++ t) ++ (some 0 :: (spare ++ S.rest)) := by simp
  rw [hsplit, ← length_cells (s' ++ t), List.take_length_add_append]
  rfl

/-- A buffer of the printer's own. -/
def ownSheet (format reallocate : Bool) : Sheet where
  format := format
  noalloc := false
  reallocate := reallocate
  cap := INT_MAX.toNat
  rest := []
  cap_le := Nat.le_refl _
  grows _ := ⟨rfl, rfl⟩

/-- A buffer of `len` bytes of the caller's. -/
def callersSheet (format reallocate : Bool) (len : Nat) (rest : Block)
    (hlen : len ≤ INT_MAX.toNat) : Sheet where
  format := format
  noalloc := true
  reallocate := reallocate
  cap := len
  rest := rest
  cap_le := hlen
  grows h := by cases h

theorem printed_start {n : Nat} (format reallocate : Bool) (hn : n ≤ INT_MAX.toNat)
    (hcopies : reallocate = false → 0 < n) :
    Printed (ownSheet format reallocate) 0 []
      { buffer := some (malloc n), length := n, offset := 0, depth := 0, noalloc := false,
        format, reallocate } where
  contents := ⟨malloc n, by simp [ownSheet], by simp⟩
  offset := rfl
  depth := rfl
  format := rfl
  noalloc := rfl
  reallocate := rfl
  length_le := hn
  full h := by cases h
  copies _ h := hcopies h
  live := (Nat.eq_zero_or_pos n).imp_right id

/-- The text and nothing else is returned, or nothing. -/
theorem print_eq (pr : Printing D) (hitem : Terminated item) (format reallocate : Bool) :
    print pr item format reallocate = .ok (match text pr format 0 item with
      | some t => if t.length + 2 ≤ INT_MAX.toNat then some (cells t ++ [some 0]) else none
      | none => none) := by
  have hstart := printed_start (n := 256) format reallocate (by decide) fun _ => by decide
  obtain ⟨ok, p, hrun, -, htrue, hfalse⟩ := printValue_emits pr item hitem hstart
  have htext : text pr (ownSheet format reallocate).format 0 item = text pr format 0 item := rfl
  rw [htext] at htrue hfalse
  rw [print, hrun, ok_bind]
  cases ok with
  | false =>
    refine congrArg Except.ok ?_
    cases h : text pr format 0 item with
    | none => rfl
    | some t =>
      have hlt : INT_MAX.toNat < t.length + 2 := hfalse rfl t h
      exact (if_neg (Nat.not_le.mpr hlt)).symm
  | true =>
    obtain ⟨t, ht, hwrote⟩ := htrue rfl
    rw [List.nil_append] at hwrote
    obtain ⟨p', hrun', hp'⟩ := updateOffset_spec hwrote
    obtain ⟨spare, hb, hlen⟩ := hp'.contents
    have hcap : t.length + 2 ≤ INT_MAX.toNat := hwrote.1
    -- the block has been filled up to the zero
    generalize hblock : cells t ++ ([some 0] ++ (spare ++ (ownSheet format reallocate).rest)) = b
      at hb
    have htake : b.take (t.length + 1) = cells t ++ [some 0] := by
      rw [← hblock, ← length_cells t, List.take_length_add_append]
      rfl
    have hle : t.length + 1 ≤ b.length := by
      simp only [← hblock, List.length_append, length_cells, List.length_singleton]
      omega
    have hmin : min p'.length (t.length + 1) = t.length + 1 := by
      rw [hlen, List.length_singleton]
      omega
    rw [ht]
    simp only [if_pos hcap]
    show (updateOffset p >>= _) = _
    rw [hrun', ok_bind, hb]
    simp only [hp'.offset]
    cases reallocate with
    | true =>
      refine congrArg (fun b => Except.ok (some b)) ?_
      rw [Block.realloc, htake, Nat.sub_eq_zero_of_le hle]
      simp [malloc]
    | false =>
      have hstore : (cells t ++ [some 0]).store t.length [some 0] = .ok (cells t ++ [some 0]) := by
        have h := Block.store_byte (cells t) [] (some 0) (some 0)
        rwa [length_cells] at h
      rw [hmin, if_neg (by decide), Block.memcpy_malloc hle, ok_bind, htake, hstore]
      rfl

/-- **`cJSON_Print` and `cJSON_PrintUnformatted` return the text in a block of its size**, with
either kind of hooks, as long as the text and two more bytes are an `int`. -/
theorem cJSONPrint_eq (pr : Printing D) (hitem : Terminated item) (reallocate : Bool) :
    (cJSONPrint pr item reallocate = .ok (match text pr true 0 item with
      | some t => if t.length + 2 ≤ INT_MAX.toNat then some (cells t ++ [some 0]) else none
      | none => none)) ∧
      cJSONPrintUnformatted pr item reallocate = .ok (match text pr false 0 item with
        | some t => if t.length + 2 ≤ INT_MAX.toNat then some (cells t ++ [some 0]) else none
        | none => none) :=
  ⟨print_eq pr hitem true reallocate, print_eq pr hitem false reallocate⟩

theorem cJSONPrint_eq_sevenAndInfinity :
    Terminated sevenAndInfinity ∧
      cJSONPrint printOneDigit sevenAndInfinity false =
        .ok (some (cells (ascii "[7, null]") ++ [some 0])) ∧
      cJSONPrintUnformatted printOneDigit sevenAndInfinity false =
        .ok (some (cells (ascii "[7,null]") ++ [some 0])) :=
  ⟨terminated_sevenAndInfinity,
    (cJSONPrint_eq printOneDigit terminated_sevenAndInfinity false).1,
    (cJSONPrint_eq printOneDigit terminated_sevenAndInfinity false).2⟩

/-- **`cJSON_PrintPreallocated` stays in the bytes it was given**, and prints exactly when the text
and two more bytes fit. -/
theorem printPreallocated_spec (pr : Printing D) (hitem : Terminated item) {b : Block} {len : Int}
    (h0 : 0 ≤ len) (hmax : len ≤ INT_MAX) (hb : len.toNat ≤ b.length) (fmt reallocate : Bool) :
    ∃ ok b', cJSONPrintPreallocated pr item (some b) len fmt reallocate = .ok (ok, some b') ∧
      b'.length = b.length ∧ b'.drop len.toNat = b.drop len.toNat ∧
      (ok = true ↔ ∃ t, text pr fmt 0 item = some t ∧ t.length + 2 ≤ len.toNat) ∧
      (ok = true → ∀ t, text pr fmt 0 item = some t →
        b'.take (t.length + 1) = cells t ++ [some 0]) := by
  have hmax' : len.toNat ≤ INT_MAX.toNat := Int.toNat_le_toNat hmax
  have hstart : Printed (callersSheet fmt reallocate len.toNat (b.drop len.toNat) hmax') 0 []
      { buffer := some b, length := len.toNat, offset := 0, depth := 0, noalloc := true,
        format := fmt, reallocate } := by
    refine ⟨⟨⟨b.take len.toNat, by simp [callersSheet], by simp [hb]⟩, rfl, rfl, rfl, rfl, rfl,
      Nat.le_refl _, fun _ => rfl, fun h => by cases h⟩, ?_⟩
    exact (Nat.eq_zero_or_pos len.toNat).imp_right id
  obtain ⟨ok, p, hrun, ⟨b', hb', hlen', hcap⟩, htrue, hfalse⟩ :=
    printValue_emits pr item hitem hstart
  have hlen : b'.length = len.toNat := hlen'.symm.trans (hcap rfl)
  refine ⟨ok, b' ++ b.drop len.toNat, ?_, ?_, ?_, ?_, ?_⟩
  · rw [cJSONPrintPreallocated, if_neg (by simpa using h0)]
    simp only [hrun, ok_bind]
    rw [hb']
    rfl
  · rw [List.length_append, List.length_drop, hlen]
    omega
  · rw [← hlen, List.drop_left]
  · constructor
    · intro hok
      obtain ⟨t, ht, hfits, -⟩ := htrue hok
      exact ⟨t, ht, hfits⟩
    · rintro ⟨t, ht, hfits⟩
      cases ok with
      | true => rfl
      | false => exact absurd (hfalse rfl t ht) (Nat.not_lt.mpr hfits)
  · intro hok t ht
    obtain ⟨t', ht', hwrote⟩ := htrue hok
    cases ht.symm.trans ht'
    rw [List.nil_append] at hwrote
    exact hwrote.take hb'

theorem printPreallocated_sevenAndInfinity :
    ∃ ok b', cJSONPrintPreallocated printOneDigit sevenAndInfinity (some (malloc 16)) 11 true
        false = .ok (ok, some b') ∧
      b'.length = 16 ∧ b'.drop 11 = (malloc 16).drop 11 ∧
      (ok = true ↔ ∃ t, text printOneDigit true 0 sevenAndInfinity = some t ∧ t.length + 2 ≤ 11) ∧
      (ok = true → ∀ t, text printOneDigit true 0 sevenAndInfinity = some t →
        b'.take (t.length + 1) = cells t ++ [some 0]) :=
  printPreallocated_spec printOneDigit terminated_sevenAndInfinity (b := malloc 16)
    (show 0 ≤ (11 : Int) by decide) (by decide) (by decide) true false

/-- A buffer of no bytes, which `ensure` copies a byte of. -/
def emptyBuffer (format : Bool) : PrintBuffer where
  buffer := some (malloc 0)
  length := 0
  offset := 0
  depth := 0
  noalloc := false
  format := format
  reallocate := false

theorem ensure_emptyBuffer {format : Bool} {needed : Nat} (h : needed + 1 ≤ INT_MAX.toNat) :
    ensure (emptyBuffer format) needed = .error .outOfBounds := by
  have hmax : INT_MAX.toNat = 2147483647 := rfl
  have hgrow : ∀ k, (emptyBuffer format).grow (malloc 0) k = .error .outOfBounds := fun _ => rfl
  have h₁ : ¬ INT_MAX < (needed : Int) := by
    simp only [INT_MAX]
    omega
  have h₂ : ((needed + (0 + 1) : Nat) : Int) ≤ INT_MAX := by
    simp only [INT_MAX]
    omega
  have h₃ : ¬ needed + (0 + 1) ≤ 0 := by omega
  have h₄ : ¬ (0 < 0 ∧ 0 ≤ 0) := fun h => Nat.lt_irrefl 0 h.1
  rw [ensure]
  simp only [emptyBuffer, if_neg h₁, if_neg h₃, if_neg h₄, Bool.false_eq_true, if_false]
  by_cases hhalf : INT_MAX / 2 < ((needed + (0 + 1) : Nat) : Int)
  · refine (if_pos hhalf).trans ((if_pos h₂).trans ?_)
    exact congrArg (· >>= fun p => .ok (true, p)) (hgrow INT_MAX.toNat)
  · refine (if_neg hhalf).trans ?_
    exact congrArg (· >>= fun p => .ok (true, p)) (hgrow ((needed + (0 + 1)) * 2))

theorem printValue_emptyBuffer (pr : Printing D) (hitem : Terminated item) {format : Bool}
    (ht : text pr format 0 item = some t) (hfits : t.length + 2 ≤ INT_MAX.toNat) :
    printValue pr item (emptyBuffer format) = .error .outOfBounds := by
  obtain ⟨child, kind, _, _, valuestring, _, valuedouble, _⟩ := item
  cases kind with
  | invalid => cases ht
  | null | «false» | «true» =>
    cases ht
    rw [printValue]
    simp only [printLiteral]
    rw [ensure_emptyBuffer (by decide)]
    rfl
  | number =>
    cases ht
    have hlen := length_numberString_le pr valuedouble
    rw [printValue]
    simp only [printNumber]
    rw [Block.strcpy_malloc (by omega), ok_bind, if_neg (by omega),
      ensure_emptyBuffer
        (Nat.le_trans (Nat.add_le_add_right (Nat.succ_le_succ hlen) 1) (by decide))]
    rfl
  | raw =>
    cases valuestring with
    | none => cases ht
    | some b =>
      have ht' : b.stringBytes = some t := ht
      have hread : b.readString = .ok ⟨t, Block.nulFree_of_stringBytes ht'⟩ :=
        Block.readString_eq_ok.mpr ht'
      have hfits' : (⟨t, Block.nulFree_of_stringBytes ht'⟩ : CString).length + 1 + 1 ≤
          INT_MAX.toNat := hfits
      rw [printValue]
      simp only [printRaw]
      rw [hread, ok_bind, ensure_emptyBuffer hfits']
      rfl
  | string =>
    rw [printValue]
    cases valuestring with
    | none =>
      simp only [printStringPtr]
      rw [ensure_emptyBuffer (by decide)]
      rfl
    | some b =>
      obtain ⟨u, hu, rfl⟩ := Option.map_eq_some_iff.mp ht
      have hread : b.readString = .ok ⟨u, Block.nulFree_of_stringBytes hu⟩ :=
        Block.readString_eq_ok.mpr hu
      have hlength := length_flatMap_escape u
      rw [quoted_eq, List.length_cons, List.length_append, List.length_singleton] at hfits
      have hfits' : (⟨u, Block.nulFree_of_stringBytes hu⟩ : CString).length +
          (u.map escapeCharacters).sum + 3 + 1 ≤ INT_MAX.toNat := by
        show u.length + (u.map escapeCharacters).sum + 3 + 1 ≤ INT_MAX.toNat
        omega
      simp only [printStringPtr]
      rw [hread, ok_bind, ensure_emptyBuffer hfits']
      rfl
  | array =>
    rw [printValue]
    simp only [printArray]
    rw [ensure_emptyBuffer (by decide)]
    rfl
  | object =>
    rw [printValue]
    simp only [printObject]
    rw [ensure_emptyBuffer (by cases format <;> decide)]
    rfl

/-- **`cJSON_PrintBuffered` prints the same text**, whatever it starts with; but it reads outside
a buffer of no bytes where there is no `reallocate`. -/
theorem printBuffered_spec (pr : Printing D) (hitem : Terminated item) {prebuffer : Int}
    (h0 : 0 ≤ prebuffer) (hmax : prebuffer ≤ INT_MAX) (fmt reallocate : Bool)
    (ht : text pr fmt 0 item = some t) (hfits : t.length + 2 ≤ INT_MAX.toNat) :
    (∃ b, cJSONPrintBuffered pr item prebuffer fmt reallocate = .ok (some b) ∧
      b.take (t.length + 1) = cells t ++ [some 0]) ↔ 0 < prebuffer ∨ reallocate = true := by
  constructor
  · rintro ⟨b, hrun, -⟩
    by_contra hnot
    obtain ⟨hzero, hreallocate⟩ := not_or.mp hnot
    obtain rfl : prebuffer = 0 := by omega
    obtain rfl := Bool.eq_false_iff.mpr hreallocate
    have herror := printValue_emptyBuffer pr hitem ht hfits
    rw [cJSONPrintBuffered, if_neg (by decide)] at hrun
    simp only at hrun
    rw [show (Int.toNat 0) = 0 from rfl] at hrun
    have hrun' : (printValue pr item (emptyBuffer fmt) >>= fun x =>
        if !x.1 then pure none else pure x.2.buffer) = .ok (some b) := hrun
    rw [herror] at hrun'
    cases hrun'
  · intro hor
    have hcopies : reallocate = false → 0 < prebuffer.toNat := by
      rintro rfl
      rcases hor with h | h
      · omega
      · cases h
    have hstart := printed_start fmt reallocate (Int.toNat_le_toNat hmax) hcopies
    obtain ⟨ok, p, hrun, ⟨b, hb, -⟩, htrue, hfalse⟩ := printValue_emits pr item hitem hstart
    cases ok with
    | false => exact absurd (hfalse rfl t ht) (Nat.not_lt.mpr hfits)
    | true =>
      obtain ⟨t', ht', hwrote⟩ := htrue rfl
      cases ht.symm.trans ht'
      refine ⟨b, ?_, hwrote.take (by simpa [ownSheet] using hb)⟩
      rw [cJSONPrintBuffered, if_neg (Int.not_lt.mpr h0)]
      simp only [hrun, ok_bind]
      simpa [ownSheet] using hb

theorem printBuffered_sevenAndInfinity :
    (∃ b, cJSONPrintBuffered printOneDigit sevenAndInfinity 3 false false = .ok (some b) ∧
      b.take 9 = cells (ascii "[7,null]") ++ [some 0]) ↔ 0 < (3 : Int) ∨ false = true :=
  printBuffered_spec printOneDigit terminated_sevenAndInfinity
    (show 0 ≤ (3 : Int) by decide) (by decide) false false (t := ascii "[7,null]") rfl (by decide)

end Texts

end VantiqMicro.CJson
