import VantiqMicro.Lifecycle

/-! # What a result says about its request

A result is built from three independent things: the code of the transfer, the
bytes in the receive buffer, and the status, which is looked at only if there are
any.  This module says what comes of that: which failures a result reports, that
its data is the response body however it was cut up on the way, and which of its
texts are terminated. -/

namespace VantiqMicro
open CMem

variable {σ : Type}

section Result
variable {lib : Libcurl} {received : Bytes} {count : UInt32} {res : CURLcode} {errBuf : CString}
  {status : Nat}

/-- An error is reported for a failed transfer, and for a status from 400 on that
came with a body. -/
theorem isSome_vmeErrorMsg_resultOf :
    (resultOf lib received count res errBuf status).vmeErrorMsg.isSome = true ↔
      res ≠ CURLE_OK ∨ (received ≠ [] ∧ 400 ≤ status) := by
  unfold resultOf
  simp only
  split
  · rename_i h
    simp [h]
  · rename_i h
    split <;> simp_all

/-- Without a body the only text is that of the transfer's failure, and it is
terminated. -/
theorem texts_resultOf_nil (lib : Libcurl) (count : UInt32) (res : CURLcode) (errBuf : CString)
    (status : Nat) :
    (resultOf lib [] count res errBuf status).vmeJsonData = none ∧
      ∀ block, (resultOf lib [] count res errBuf status).vmeErrorMsg = some block →
        ∃ text : CString, block.string? = some text := by
  simp only [resultOf, ne_eq, not_true_eq_false, false_and, if_false, true_and]
  intro block hblock
  split at hblock
  · cases hblock
    exact ⟨_, Block.string?_toBlock _⟩
  · cases hblock

/-- With one, the body stands unterminated in the data or in the error. -/
theorem texts_resultOf_of_ne_nil (lib : Libcurl) (count : UInt32) (res : CURLcode)
    (errBuf : CString) (status : Nat) (hne : received ≠ []) :
    (status < 400 → (resultOf lib received count res errBuf status).vmeJsonData =
        some (cells received)) ∧
      (400 ≤ status → (resultOf lib received count res errBuf status).vmeErrorMsg =
        some (cells received)) := by
  constructor <;> intro h <;> simp [resultOf, hne, h]

end Result

namespace Plan
variable {p : Plan σ} {g : Setting σ} {x : Transfer}

theorem received_of_none (hcb : p.recvCallback = none) : (p.outcome g x).1.received = x.body := by
  rw [received_eq .plain, (exchange_of_none .plain hcb).1]

theorem received_of_ne_none (hcb : p.recvCallback ≠ none) :
    (p.outcome g x).1.received = [] := by
  obtain ⟨recvCallback, hcb⟩ := Option.ne_none_iff_exists'.mp hcb
  rw [received_eq .plain, (exchange_of_some .plain hcb).1]

/-- The body lands in the receive buffer unless a callback takes it. -/
theorem received_ne_nil_iff :
    (p.outcome g x).1.received ≠ [] ↔ p.recvCallback = none ∧ x.body ≠ [] := by
  by_cases hcb : p.recvCallback = none
  · simp [received_of_none hcb, hcb]
  · simp [received_of_ne_none hcb, hcb]

end Plan

namespace Sys
variable {lib : Libcurl} {s : Sys σ} {h : VME} {op : Op σ} {x : Transfer} {r : VmeResult}
  {w' : World σ}

/-! ## Which failures are reported -/

/-- **An operation reports every failure exactly when the transfer fails, or the
status is below 400, or a body lands in the receive buffer.**  Left are the
responses of status 400 and above whose body is empty or goes to the
application's callback. -/
theorem error_reported_iff (hs : Reachable lib s) (hh : h ∈ s.handles)
    (hrun : op.run lib s.world h x = .ok (some r, w')) :
    ∃ vc e, s.world.heap h = .client vc ∧ w'.wire = s.world.wire ++ [(h, e)] ∧
      e.status = x.status ∧
      ((r.vmeErrorMsg.isSome = true ↔ e.res ≠ CURLE_OK ∨ 400 ≤ e.status) ↔
        (x.res ≠ CURLE_OK ∨ Refused op.recvCallback vc.callbackState x s.world.user) ∨
          x.status < 400 ∨ (op.recvCallback = none ∧ x.body ≠ [])) := by
  obtain ⟨vc, p, vc', hp, hplan, hr, rfl, -⟩ := hs.run_inv hh hrun
  cases hr
  have hcb := Op.recvCallback_plan hplan
  have hres : p.res (s.world.setting vc) x ≠ CURLE_OK ↔
      x.res ≠ CURLE_OK ∨ Refused op.recvCallback vc.callbackState x s.world.user := by
    rw [← hcb, ne_eq, Plan.res_eq_ok_iff, not_and_or, not_not]
    rfl
  have hrec := Plan.received_ne_nil_iff (p := p) (g := s.world.setting vc) (x := x)
  rw [hcb] at hrec
  refine ⟨vc, p.exchange lib (s.world.setting vc) x, hp, rfl, rfl, ?_⟩
  rw [← hres, ← hrec, Plan.result, isSome_vmeErrorMsg_resultOf]
  by_cases hst : 400 ≤ x.status
  · simp [Plan.exchange, hst, Nat.not_lt.mpr hst]
  · simp [Plan.exchange, hst, Nat.lt_of_not_le hst]

/-- A response without header lines whose body comes in the pieces `chunks`. -/
def response (chunks : List Bytes) (status : Nat) : Transfer :=
  { events := chunks.map .body, res := CURLE_OK, status, errText := lit "" }

theorem error_reported_iff_delete :
    ∃ (s : Sys Unit) (r : VmeResult) (w' : World Unit) (e : Exchange),
      (Op.delete (lit "/r") none).run .plain s.world 8 (response [[123], [125]] 404) =
        .ok (some r, w') ∧
      w'.wire = s.world.wire ++ [(8, e)] ∧
      (r.vmeErrorMsg.isSome = true ↔ e.res ≠ CURLE_OK ∨ 400 ≤ e.status) := by
  obtain ⟨s, vc, p, w', hs, hh, -, -, -, hrun, -⟩ :=
    exists_request (.delete (lit "/r") none) (response [[123], [125]] 404) id (by decide)
  obtain ⟨vc, e, -, hwire, -, hiff⟩ := error_reported_iff hs hh hrun
  exact ⟨s, _, w', e, hrun, hwire, hiff.mpr (Or.inr (Or.inr ⟨rfl, by decide⟩))⟩

/-- A delete that is answered 404 without a body reports no error. -/
theorem not_found_unreported :
    ∃ (s : Sys Unit) (r : VmeResult) (w' : World Unit) (e : Exchange),
      Reachable .plain s ∧ 8 ∈ s.handles ∧
      (Op.delete (lit "/r") none).run .plain s.world 8 (response [] 404) = .ok (some r, w') ∧
      w'.wire = s.world.wire ++ [(8, e)] ∧ e.res = CURLE_OK ∧ e.status = 404 ∧
      ¬ (r.vmeErrorMsg.isSome = true ↔ e.res ≠ CURLE_OK ∨ 400 ≤ e.status) := by
  obtain ⟨s, vc, p, w', hs, hh, -, -, hplan, hrun, hwire⟩ :=
    exists_request (.delete (lit "/r") none) (response [] 404) id (by decide)
  obtain ⟨-, rfl⟩ := Op.plan_eq_some_iff.mp hplan
  refine ⟨s, _, w', _, hs, hh, hrun, hwire, rfl, rfl, ?_⟩
  intro hiff
  exact absurd (hiff.mpr (Or.inr (show 400 ≤ 404 by decide))) Bool.false_ne_true

/-! ## Which texts are terminated -/

/-- The texts of a result are strings: the data is the body, and so is the error
where it comes from a body of status 400 or above. -/
def TextsRead (op : Op σ) (r : VmeResult) (status : Nat) (body : CString) : Prop :=
  (∀ block, r.vmeJsonData = some block → block.string? = some body) ∧
    ∀ block, r.vmeErrorMsg = some block → ∃ text, block.string? = some text ∧
      (op.recvCallback = none → body.bytes ≠ [] → 400 ≤ status → text = body)

section Texts
variable {p : Plan σ} {g : Setting σ} {body : CString}

/-- A body that landed is returned without a terminator. -/
theorem not_textsRead_of_landed (hcb : p.recvCallback = none) (hbody : x.body = body.bytes)
    (hne : body.bytes ≠ []) : ¬ TextsRead op (p.result lib g x) x.status body := by
  intro htexts
  have hrec := Plan.received_of_none (g := g) (x := x) hcb
  have hnul := Block.string?_cells body.nulFree
  obtain ⟨hdata, herr⟩ := texts_resultOf_of_ne_nil lib (p.outcome g x).1.count
    (p.res g x) (p.errBuf lib g x) x.status hne
  rw [Plan.result, hrec, hbody] at htexts
  rcases Nat.lt_or_ge x.status 400 with hlt | hge
  · rw [htexts.1 _ (hdata hlt)] at hnul
    cases hnul
  · obtain ⟨text, htext, -⟩ := htexts.2 _ (herr hge)
    rw [htext] at hnul
    cases hnul

/-- Where none landed the only text there can be is a duplicated string. -/
theorem textsRead_of_not_landed (hrec : (p.outcome g x).1.received = [])
    (hland : ¬ (op.recvCallback = none ∧ body.bytes ≠ [])) :
    TextsRead op (p.result lib g x) x.status body := by
  rw [Plan.result, hrec]
  obtain ⟨hdata, herr⟩ := texts_resultOf_nil lib (p.outcome g x).1.count (p.res g x)
    (p.errBuf lib g x) x.status
  constructor
  · intro block hblock
    rw [hdata] at hblock
    cases hblock
  · intro block hblock
    obtain ⟨text, htext⟩ := herr block hblock
    exact ⟨text, htext, fun hnone hne _ => absurd ⟨hnone, hne⟩ hland⟩

end Texts

/-- **The texts of a result are strings exactly when none is a copy of the receive
buffer**: the body is empty, or the application's callback took it.  The text for
an invalid handle always is one. -/
theorem texts_read_iff (hs : Reachable lib s) (hh : h ∈ s.handles) {body : CString}
    (hbody : x.body = body.bytes) (hrun : op.run lib s.world h x = .ok (some r, w')) :
    (TextsRead op r x.status body ↔ body.bytes = [] ∨ op.recvCallback ≠ none) ∧
      ∀ h', vcFromVme s.world h' = .ok none → ∀ r',
        op.run lib s.world h' x = .ok (some r', s.world) → ∀ block,
          r'.vmeErrorMsg = some block → block.string? = some INVALID_HANDLE := by
  constructor
  · obtain ⟨vc, p, vc', hp, hplan, hr, rfl, -⟩ := hs.run_inv hh hrun
    cases hr
    have hcb := Op.recvCallback_plan hplan
    -- what decides is whether the body landed in the receive buffer
    by_cases hland : op.recvCallback = none ∧ body.bytes ≠ []
    · exact iff_of_false (not_textsRead_of_landed (hcb.trans hland.1) hbody hland.2)
        (by simp [hland.1, hland.2])
    · have hrec : (p.outcome (s.world.setting vc) x).1.received = [] := by
        by_contra hne
        rw [← ne_eq, Plan.received_ne_nil_iff, hcb, hbody] at hne
        exact hland hne
      refine iff_of_true (textsRead_of_not_landed hrec hland) ?_
      by_cases hne : body.bytes = []
      · exact Or.inl hne
      · exact Or.inr fun hnone => hland ⟨hnone, hne⟩
  · intro h' hv r' hr' block hblock
    have hinv : op.invalidHandle = some r' := (Op.run_invalid_inv hv hr').2.1.symm
    cases op <;> cases hinv <;> cases hblock <;> exact Block.string?_toBlock _

/-- A transfer that fails before anything is received. -/
def refusedConnection : Transfer :=
  { events := [], res := 7, status := 0, errText := lit "connection refused" }

/-- The text of a patch whose transfer fails is the one libcurl wrote. -/
theorem texts_read_iff_refused :
    ∃ (s : Sys Unit) (r : VmeResult) (w' : World Unit),
      (Op.patch (lit "/r") (some (lit "[]"))).run .plain s.world 8 refusedConnection =
        .ok (some r, w') ∧
      r.vmeErrorMsg = some (lit "connection refused").toBlock ∧
      TextsRead (Op.patch (lit "/r") (some (lit "[]")) : Op Unit) r 0 (lit "") := by
  obtain ⟨s, vc, p, w', hs, hh, -, -, hplan, hrun, -⟩ :=
    exists_request (.patch (lit "/r") (some (lit "[]"))) refusedConnection id (by decide)
  obtain ⟨-, rfl⟩ := Op.plan_eq_some_iff.mp hplan
  have hbody : refusedConnection.body = (lit "").bytes := rfl
  have hres : ((Op.patch (lit "/r") (some (lit "[]"))).outline 1).res (s.world.setting vc)
      refusedConnection ≠ CURLE_OK := show 7 ≠ 0 by decide
  refine ⟨s, _, w', hrun, ?_, (texts_read_iff hs hh hbody hrun).1.mpr (Or.inl rfl)⟩
  rw [Plan.result, Plan.errBuf_of_mem (List.mem_singleton.mpr rfl) hres]
  rfl

/-- The data of a select that is answered `{}` is no string. -/
theorem data_unterminated :
    ∃ (s : Sys Unit) (r : VmeResult) (w' : World Unit) (block : Block),
      Reachable .plain s ∧ 8 ∈ s.handles ∧
      (Op.selectOne (lit "/r") none none).run .plain s.world 8 (response [[123, 125]] 200) =
        .ok (some r, w') ∧
      r.vmeJsonData = some block ∧ block = cells (lit "\x7b\x7d").bytes ∧ block.string? = none := by
  obtain ⟨s, vc, p, w', hs, hh, -, -, hplan, hrun, -⟩ :=
    exists_request (.selectOne (lit "/r") none none) (response [[123, 125]] 200) id (by decide)
  obtain ⟨-, rfl⟩ := Op.plan_eq_some_iff.mp hplan
  exact ⟨s, _, w', _, hs, hh, hrun, rfl, rfl, rfl⟩

/-! ## How the body was cut up -/

/-- The field a response's data is in. -/
def dataField (r : VmeResult) (status : Nat) : Option Block :=
  if status < 400 then r.vmeJsonData else r.vmeErrorMsg

/-- The field of the two that a successful transfer leaves empty. -/
def otherField (r : VmeResult) (status : Nat) : Option Block :=
  if status < 400 then r.vmeErrorMsg else r.vmeJsonData

theorem fields_resultOf {received : Bytes} {count : UInt32} {errBuf : CString} {status : Nat} :
    dataField (resultOf lib received count CURLE_OK errBuf status) status =
        (if received = [] then none else some (cells received)) ∧
      otherField (resultOf lib received count CURLE_OK errBuf status) status = none := by
  by_cases hne : received = [] <;> by_cases hst : status < 400 <;>
    simp [dataField, otherField, resultOf, hne, hst, Nat.le_of_not_lt]

/-- **Cutting a response up does not change the download**, on any held handle and so
for whatever capacity earlier responses left the buffer with.  Without a callback
the result has the body's length and bytes; a callback that takes every chunk is
given the body, and the buffer stays empty.  Nothing overruns but an overlong
count header. -/
theorem download_whole (hs : Reachable lib s) (hh : h ∈ s.handles) (op : Op σ) (x : Transfer) :
    ∃ vc, s.world.heap h = .client vc ∧
      (op.Defined vc → (∀ line ∈ x.headers, HeaderFits line) →
        ∃ r w', op.run lib s.world h x = .ok (some r, w')) ∧
      ∀ r w', op.run lib s.world h x = .ok (some r, w') →
        ∃ e vc', w'.wire = s.world.wire ++ [(h, e)] ∧ w'.heap h = .client vc' ∧
          (op.recvCallback = none → x.res = CURLE_OK →
            r.vmeSize = x.body.length ∧
            dataField r x.status = (if x.body = [] then none else some (cells x.body)) ∧
            otherField r x.status = none) ∧
          ∀ callback, op.recvCallback = some callback →
            callback.accepts vc.callbackState x.chunks s.world.user = true →
            e.handed = x.chunks.map (vc.callbackState, ·) ∧
              e.handed.flatMap Prod.snd = x.body ∧ e.stored = [] ∧
              vc'.recvBuf.len = 0 ∧ r.vmeSize = 0 := by
  obtain ⟨-, vc, hp, -⟩ := hs.ready hh
  refine ⟨vc, hp, hs.run_returns hh hp op x, ?_⟩
  intro r w' hrun
  obtain ⟨vc₁, p, vc', hp₁, hplan, hr, rfl, hset⟩ := hs.run_inv hh hrun
  obtain rfl : vc = vc₁ := Referent.client.inj (hp.symm.trans hp₁)
  cases hr
  have hcb := Op.recvCallback_plan hplan
  refine ⟨_, vc', rfl, World.put_heap_self, ?_, ?_⟩
  · intro hnone hres
    have hrec := Plan.received_of_none (g := s.world.setting vc) (x := x) (hcb.trans hnone)
    have hcode := Plan.res_of_none (g := s.world.setting vc) (x := x) (hcb.trans hnone)
    rw [Plan.result, hrec, hcode, hres]
    exact ⟨rfl, fields_resultOf⟩
  · intro callback hsome hacc
    have hplancb := hcb.trans hsome
    obtain ⟨hstored, hrest⟩ :=
      Plan.exchange_of_some lib (g := s.world.setting vc) (x := x) hplancb
    have hrec := Plan.received_of_ne_none (g := s.world.setting vc) (x := x)
      (p := p) (by rw [hplancb]; exact Option.some_ne_none _)
    have hhanded := (hrest hacc).1
    refine ⟨hhanded, ?_, hstored, ?_, ?_⟩
    · rw [hhanded, List.flatMap_map]
      exact List.flatMap_id
    · rw [hset.holds.len_eq, hrec]
      rfl
    · rw [Plan.result, hrec]
      rfl

/-- A response of three chunks, one of them empty. -/
theorem download_whole_chunked :
    ∃ (s : Sys Unit) (r : VmeResult) (w' : World Unit),
      (Op.selectOne (lit "/r") none none).run .plain s.world 8
        (response [[91], [], [49, 93]] 200) = .ok (some r, w') ∧
      r.vmeSize = 3 ∧ r.vmeJsonData = some (cells [91, 49, 93]) := by
  obtain ⟨s, vc, p, w', hs, hh, -, -, -, hrun, -⟩ :=
    exists_request (.selectOne (lit "/r") none none) (response [[91], [], [49, 93]] 200) id
      (by decide)
  obtain ⟨vc, -, -, hall⟩ := download_whole hs hh (.selectOne (lit "/r") none none)
    (response [[91], [], [49, 93]] 200)
  obtain ⟨e, vc', -, -, hdata, -⟩ := hall _ _ hrun
  obtain ⟨hsize, hfield, -⟩ := hdata rfl rfl
  exact ⟨s, _, w', hrun, hsize, hfield⟩

end Sys

end VantiqMicro
