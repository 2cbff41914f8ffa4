import Mathlib.Data.List.Induction
import VantiqMicro.Lifecycle

/-! # The count of a result

`vme_count` comes from a field of the client that a callback writes and
`prepare_result` reads and clears.  It is clean at the start of an operation if it
was clean at the start of the one before, and so, in any run, if `vme_init` left
it clean; `vc_init` itself reads no count, so whatever the authentication response
carried goes into the first result. -/

namespace VantiqMicro
open CMem

variable {σ : Type}

/-! ## Count headers -/

/-- The line's name is that of the count header, in some case. -/
def NamesCount (line : Bytes) : Prop :=
  ∃ name value, line = name ++ value ∧ name.map tolower = COUNT_HEADER.bytes.map tolower

/-- The line is a count header for `n`: the name, then at most 31 bytes that hold a
decimal number between white space. -/
def CountHeader (line : Bytes) (n : Nat) : Prop :=
  ∃ name spaces digits tail, line = name ++ (spaces ++ (digits ++ tail)) ∧
    name.map tolower = COUNT_HEADER.bytes.map tolower ∧ (∀ c ∈ spaces, isspace c = true) ∧
    (∀ c ∈ digits, isdigit c = true) ∧ digits ≠ [] ∧ (∀ c ∈ tail, isspace c = true) ∧
    (spaces ++ (digits ++ tail)).length ≤ 31 ∧ digitsValue digits = n ∧ n < 2 ^ 31

/-- The last count header among the lines is one for `n`, or `n` is 0 and there is
none. -/
def LastCountIs (lines : List Bytes) (n : Nat) : Prop :=
  (∃ pre line post, lines = pre ++ line :: post ∧ CountHeader line n ∧
      ∀ l ∈ post, ¬ NamesCount l) ∨
    (n = 0 ∧ ∀ l ∈ lines, ¬ NamesCount l)

section Line
variable {line name value : Bytes} {n : Nat}

theorem length_eq_of_map_tolower (h : name.map tolower = COUNT_HEADER.bytes.map tolower) :
    name.length = COUNT_HEADER.length := by
  have hl := congrArg List.length h
  rwa [List.length_map, List.length_map] at hl

/-- The comparison of `header_callback` finds the name. -/
theorem strncaseeq_of_names (h : name.map tolower = COUNT_HEADER.bytes.map tolower) :
    strncaseeq (name ++ value) COUNT_HEADER.bytes COUNT_HEADER.length = true := by
  have hlen := length_eq_of_map_tolower h
  rw [strncaseeq, decide_eq_true_eq, ← hlen, List.take_left, h, List.take_of_length_le]
  exact Nat.le_of_eq hlen.symm

/-- A line without the name leaves the count. -/
theorem countOf_of_not_names (h : ¬ NamesCount line) : countOf line = none := by
  rw [countOf, if_neg]
  rintro ⟨hlt, heq⟩
  rw [strncaseeq, decide_eq_true_eq, List.take_of_length_le (Nat.le_refl COUNT_HEADER.length)]
    at heq
  exact h ⟨_, _, (List.take_append_drop COUNT_HEADER.length line).symm, heq⟩

theorem ne_zero_of_isspace {c : UInt8} (h : isspace c = true) : c ≠ 0 := by
  rintro rfl
  exact absurd h (by decide)

theorem ne_zero_of_isdigit {c : UInt8} (h : isdigit c = true) : c ≠ 0 := by
  rintro rfl
  exact absurd h (by decide)

theorem not_isdigit_of_isspace {c : UInt8} (h : isspace c = true) : isdigit c = false := by
  cases hd : isdigit c with
  | false => rfl
  | true =>
    rw [not_isspace_of_isdigit hd] at h
    cases h

theorem ofInt_natCast : UInt32.ofInt n = UInt32.ofNat n := by
  have hmod : ((n : Int) % 2 ^ 32).toNat = n % 2 ^ 32 := by omega
  rw [UInt32.ofInt, hmod, UInt32.ofNat_mod_size]

/-- **The header callback reads the number of a count header.** -/
theorem countOf_of_countHeader (h : CountHeader line n) : countOf line = some (UInt32.ofNat n) := by
  obtain ⟨name, spaces, digits, tail, rfl, hname, hspaces, hdigits, hne, htail, -, rfl, -⟩ := h
  have hlen := length_eq_of_map_tolower hname
  have hpos : 0 < digits.length := List.length_pos_iff.mpr hne
  have hvalue : (spaces ++ (digits ++ tail)).takeWhile (· != 0) = spaces ++ (digits ++ tail) := by
    apply takeWhile_ne_of_not_mem
    intro h0
    simp only [List.mem_append] at h0
    rcases h0 with h0 | h0 | h0
    · exact ne_zero_of_isspace (hspaces 0 h0) rfl
    · exact ne_zero_of_isdigit (hdigits 0 h0) rfl
    · exact ne_zero_of_isspace (htail 0 h0) rfl
  have hatoi : atoi (spaces ++ (digits ++ tail)) = digitsValue digits :=
    atoi_of_digits hspaces hdigits hne fun c hc =>
      not_isdigit_of_isspace (htail c (List.mem_of_mem_head? hc))
  rw [countOf, if_pos ⟨by simp only [List.length_append]; omega, strncaseeq_of_names hname⟩,
    ← hlen, List.drop_left, hvalue, hatoi, ofInt_natCast]

/-- So its value fits the callback's buffer, as does a line that is not looked at. -/
theorem headerFits_of_countHeader (h : NamesCount line → ∃ n, CountHeader line n) :
    HeaderFits line := by
  intro htaken
  by_cases hnames : NamesCount line
  · obtain ⟨n, name, spaces, digits, tail, rfl, hname, -, -, -, -, hlen, -⟩ := h hnames
    rw [List.length_append, length_eq_of_map_tolower hname]
    omega
  · rw [countOf_of_not_names hnames] at htaken
    cases htaken

theorem CountHeader.lt (h : CountHeader line n) : n < 2 ^ 31 := by
  obtain ⟨_, _, _, _, -, -, -, -, -, -, -, -, hlt⟩ := h
  exact hlt

/-- A line without the name leaves the last count header the last one. -/
theorem LastCountIs.append_singleton {lines : List Bytes} (h : LastCountIs lines n)
    (hline : ¬ NamesCount line) : LastCountIs (lines ++ [line]) n := by
  have hsnoc : ∀ post : List Bytes, (∀ l ∈ post, ¬ NamesCount l) →
      ∀ l ∈ post ++ [line], ¬ NamesCount l := by
    intro post hpost l hl
    rcases List.mem_append.mp hl with hl | hl
    · exact hpost l hl
    · rwa [List.mem_singleton.mp hl]
  rcases h with ⟨pre, l, post, rfl, hl, hpost⟩ | ⟨rfl, hlines⟩
  · exact Or.inl ⟨pre, l, post ++ [line], by simp, hl, hsnoc post hpost⟩
  · exact Or.inr ⟨rfl, hsnoc lines hlines⟩

theorem lastCount_append_singleton {count : UInt32} {lines : List Bytes} :
    lastCount count (lines ++ [line]) = (countOf line).getD (lastCount count lines) := by
  rw [lastCount, List.foldl_append]
  rfl

/-- **Over a sequence of lines the callback keeps the last count.** -/
theorem lastCount_spec (lines : List Bytes)
    (h : ∀ line ∈ lines, NamesCount line → ∃ n, CountHeader line n) :
    ∃ n, LastCountIs lines n ∧ (lastCount 0 lines).toNat = n := by
  -- from the end: the last line decides, unless it is not a count header
  induction lines using List.reverseRecOn with
  | nil => exact ⟨0, Or.inr ⟨rfl, by simp⟩, rfl⟩
  | append_singleton lines line ih =>
    obtain ⟨n, hn, hcount⟩ := ih fun l hl => h l (List.mem_append_left _ hl)
    rw [lastCount_append_singleton]
    by_cases hnames : NamesCount line
    · obtain ⟨m, hm⟩ := h line (by simp) hnames
      refine ⟨m, Or.inl ⟨lines, line, [], rfl, hm, by simp⟩, ?_⟩
      rw [countOf_of_countHeader hm, Option.getD_some]
      exact UInt32.toNat_ofNat_of_lt' (Nat.lt_trans hm.lt (by decide))
    · refine ⟨n, hn.append_singleton hnames, ?_⟩
      rwa [countOf_of_not_names hnames, Option.getD_none]

end Line

/-! ## Over a run -/

/-- If the call is a `vme_init` that yields a handle, then its authentication response
leaves the count at 0: it carries no count header, or its last one is for 0. -/
def Call.AuthCountClear : Call σ → Prop
  | init _ a => a.Accepted → lastCount 0 a.auth.headers = 0
  | _ => True

namespace Sys
variable {lib : Libcurl} {s s' s₀ : Sys σ} {h : VME} {op : Op σ} {x : Transfer}
  {calls : List (Call σ)} {c : Call σ}

/-- One call keeps the count of every client clean. -/
theorem Step.count_clear (hstep : Step lib s c s') (hc : c.AuthCountClear)
    (hs : s.All fun _ vc => vc.resultCount = 0) : s'.All fun _ vc => vc.resultCount = 0 := by
  refine hstep.all ?_ (fun _ _ _ _ h => h) (fun _ _ _ _ _ _ _ _ hset => hset.resultCount) hs
  rintro addr a rfl - vc hacc - hcount -
  exact hcount.trans (hc hacc)

/-- So does a run. -/
theorem count_clear_run (h₀ : s₀.handles = []) (hrun : Run (Step lib) s₀ calls s)
    (hcalls : ∀ c ∈ calls, c.AuthCountClear) : s.All fun _ vc => vc.resultCount = 0 :=
  hrun.invariant (fun _ _ _ hst hc hi => hst.count_clear hc hi) hcalls (all_of_no_handles h₀)

/-- **In a run whose authentication responses leave the count clear, the count of a
result is that of the last count header of the operation's own transfer.**  A count
header of the kind the statement is about fits the header callback's buffer, so the
operation returns. -/
theorem count_of_request (op : Op σ) (h₀ : s₀.handles = []) (hrun : Run (Step lib) s₀ calls s)
    (hcalls : ∀ c ∈ calls, c.AuthCountClear) (hh : h ∈ s.handles)
    (hx : ∀ line ∈ x.headers, NamesCount line → ∃ n, CountHeader line n) :
    (∃ vc, s.world.heap h = .client vc ∧
      (op.Defined vc → ∃ r w', op.run lib s.world h x = .ok (some r, w'))) ∧
      ∀ r w', op.run lib s.world h x = .ok (r, w') →
        ∃ result e n, r = some result ∧ w'.wire = s.world.wire ++ [(h, e)] ∧
          LastCountIs e.headers n ∧ result.vmeCount.toNat = n := by
  have hs : Reachable lib s := ⟨s₀, calls, h₀, hrun⟩
  constructor
  · obtain ⟨-, vc, hp, -⟩ := hs.ready hh
    refine ⟨vc, hp, fun hop => ?_⟩
    exact hs.run_returns hh hp op x hop fun line hl => headerFits_of_countHeader (hx line hl)
  · intro r w' hr
    obtain ⟨-, vc, hp, -, hclear⟩ := count_clear_run h₀ hrun hcalls h hh
    obtain ⟨vc₁, p, vc', hp₁, -, rfl, rfl, -⟩ := hs.run_inv hh hr
    obtain rfl : vc = vc₁ := Referent.client.inj (hp.symm.trans hp₁)
    obtain ⟨n, hlast, hcount⟩ := lastCount_spec
      (p.exchange lib (s.world.setting vc) x).headers
      fun line hl => hx line (Intake.headers_subset hl)
    refine ⟨_, _, n, rfl, rfl, hlast, ?_⟩
    rw [← hcount]
    have hclean : (p.outcome (s.world.setting vc) x).1.count =
        lastCount vc.resultCount (p.exchange lib (s.world.setting vc) x).headers :=
      Intake.count_events
    rw [hclear] at hclean
    exact congrArg UInt32.toNat hclean

/-- A count header for 5. -/
def countLine : Bytes := (lit "x-Total-COUNT: 5\r\n").bytes

theorem countHeader_countLine : CountHeader countLine 5 :=
  ⟨(lit "x-Total-COUNT:").bytes, [32], [53], [13, 10], by decide, by decide,
    List.all_eq_true.mp rfl, List.all_eq_true.mp rfl, by decide, List.all_eq_true.mp rfl, by decide,
    by decide, by decide⟩

/-- A response without a body that has the header lines `lines`. -/
def headed (lines : List Bytes) : Transfer :=
  { events := lines.map .header, res := CURLE_OK, status := 200, errText := lit "" }

theorem count_of_request_five :
    ∃ (s : Sys Unit) (r : VmeResult) (w' : World Unit) (e : Exchange) (n : Nat),
      (Op.selectOne (lit "/r") none none).run .plain s.world 8 (headed [countLine]) =
        .ok (some r, w') ∧
      w'.wire = s.world.wire ++ [(8, e)] ∧ LastCountIs e.headers n ∧ r.vmeCount.toNat = n := by
  obtain ⟨s, vc, hrun, hh, -⟩ := exists_session [] 200 (by simp)
  have hclear : ∀ c ∈ [Call.sample [] 200], c.AuthCountClear := by
    intro c hc
    rw [List.mem_singleton.mp hc]
    exact fun _ => rfl
  have hx : ∀ line ∈ (headed [countLine]).headers, NamesCount line → ∃ n, CountHeader line n := by
    intro line hline _
    rw [List.mem_singleton.mp (show line ∈ [countLine] from hline)]
    exact ⟨5, countHeader_countLine⟩
  obtain ⟨⟨vc', -, hreturns⟩, hcount⟩ :=
    count_of_request (.selectOne (lit "/r") none none) rfl hrun hclear hh hx
  obtain ⟨r, w', hr⟩ := hreturns ⟨id, False.elim⟩
  obtain ⟨r', e, n, hsome, hwire, hlast, hn⟩ := hcount _ _ hr
  cases hsome
  exact ⟨s, r, w', e, n, hr, hwire, hlast, hn⟩

/-- The count of an authentication response is that of the first result. -/
theorem auth_count_reported :
    ∃ (s : Sys Unit) (r : VmeResult) (w' : World Unit) (e : Exchange),
      Run (Step .plain) ⟨World.fresh, []⟩ [.sample [countLine] 200] s ∧ 8 ∈ s.handles ∧
      (Op.selectOne (lit "/r") none none).run .plain s.world 8 (headed []) = .ok (some r, w') ∧
      w'.wire = s.world.wire ++ [(8, e)] ∧ e.headers = [] ∧ r.vmeCount = 5 ∧
      ¬ LastCountIs e.headers r.vmeCount.toNat := by
  obtain ⟨s, vc, hrun, hh, hp, -, -, hcount, -⟩ := exists_session [countLine] 200 (by decide)
  have hs : Reachable .plain s := ⟨_, _, rfl, hrun⟩
  obtain ⟨r, w', hr⟩ := hs.run_returns hh hp (.selectOne (lit "/r") none none)
    (headed []) ⟨id, False.elim⟩ (by decide)
  obtain ⟨vc₁, p, vc', hp₁, -, hres, rfl, -⟩ := hs.run_inv hh hr
  obtain rfl : vc = vc₁ := Referent.client.inj (hp.symm.trans hp₁)
  cases hres
  have hfive : vc.resultCount = 5 := hcount.trans (by decide)
  refine ⟨s, _, _, _, hrun, hh, hr, rfl, rfl, hfive, ?_⟩
  rintro (⟨pre, line, post, heq, -⟩ | ⟨hzero, -⟩)
  · cases pre <;> cases heq
  · have hne : vc.resultCount.toNat ≠ 0 := by
      rw [hfive]
      decide
    exact hne hzero

end Sys

end VantiqMicro
