import VantiqMicro.Lifecycle

/-! # One handle, many requests

One client and one easy handle serve all operations, through four code paths that
each set and must unset options, callback, buffer and cursor.  Two runs that treat
a handle in entirely different ways nevertheless leave it so that the next
operation makes the same request and, of the same response, the same result.  The one
thing they leave is the cursor of an upload that was not read to its end: the message it
points into is freed, and a patch without a document sends from there. -/

namespace VantiqMicro
open CMem

variable {σ : Type}

/-! ## What a transfer depends on -/

namespace Intake
variable {k₁ k₂ : Hooks σ} {d₁ d₂ : Intake σ}

/-- Two transfers that their calls cannot tell apart, but for what the read callback has to
copy: what the application's callback sees matters only if there is one. -/
structure Agree (k₁ k₂ : Hooks σ) (d₁ d₂ : Intake σ) : Prop where
  recvCallback : k₁.recvCallback = k₂.recvCallback
  state : k₂.recvCallback ≠ none → k₁.callbackState = k₂.callbackState
  user : k₂.recvCallback ≠ none → d₁.user = d₂.user
  received : d₁.received = d₂.received

/-- One call does the same to both. -/
theorem Agree.event (h : Agree k₁ k₂ d₁ d₂) (ev : TransferEvent) :
    (d₁.event k₁ ev).2.2 = (d₂.event k₂ ev).2.2 ∧
      Agree k₁ k₂ (d₁.event k₁ ev).1 (d₂.event k₂ ev).1 := by
  obtain ⟨hcb, hstate, huser, hreceived⟩ := h
  cases ev with
  | header line => exact ⟨rfl, hcb, hstate, huser, hreceived⟩
  | body chunk =>
    simp only [Intake.event, hcb]
    cases hk : k₂.recvCallback with
    | none => exact ⟨rfl, hcb, hstate, huser, by simp only [hreceived]⟩
    | some recvCallback =>
      have hsome : k₂.recvCallback ≠ none := by rw [hk]; exact Option.some_ne_none _
      simp only [huser hsome, hstate hsome]
      exact ⟨trivial, hcb, hstate, fun _ => rfl, hreceived⟩
  | send capacity =>
    simp only [Intake.event]
    split <;> split <;> exact ⟨by trivial, hcb, hstate, huser, hreceived⟩

/-- **A transfer does the same to both**, and sees the same headers. -/
theorem Agree.events (h : Agree k₁ k₂ d₁ d₂) (evs : List TransferEvent) :
    (d₁.events k₁ evs).2.2 = (d₂.events k₂ evs).2.2 ∧
      (d₁.events k₁ evs).2.1.flatMap Callback.headerOf =
        (d₂.events k₂ evs).2.1.flatMap Callback.headerOf ∧
      Agree k₁ k₂ (d₁.events k₁ evs).1 (d₂.events k₂ evs).1 := by
  induction evs generalizing d₁ d₂ with
  | nil => exact ⟨rfl, rfl, h⟩
  | cons ev evs ih =>
    obtain ⟨hgo, hagree⟩ := h.event ev
    obtain ⟨hdone, hheaders, hrest⟩ := ih hagree
    simp only [Intake.events, hgo]
    -- both go on, or both stop at a chunk the callback refuses
    split
    · simp only [List.flatMap_append, headers_event, hheaders]
      exact ⟨hdone, trivial, hrest⟩
    · simp only [headers_event]
      exact ⟨trivial, trivial, hagree⟩

end Intake

/-- The bytes to be sent, unless they are left over. -/
def Method.document : Method → Bytes
  | get | delete | patch none => []
  | patch (some json) => json.bytes
  | post msg | put msg => msg.bytes

/-- With nothing left over the body is the document. -/
theorem Method.body_eq_document {m : Method} {left : VcSendstate}
    (hleft : m = .patch none → left.sizeleft = 0) : m.body left = cells m.document := by
  cases m with
  | patch json =>
    cases json with
    | some json => rfl
    | none =>
      simp only [body, VcSendstate.rest, hleft rfl, List.take_zero]
      split <;> rfl
  | _ => rfl

/-- What is left over of a freed message is no text. -/
theorem sizeleft_of_body {left : VcSendstate} {body : Bytes} (hbase : left.base = none)
    (hbody : (Method.patch none).body left = cells body) : left.sizeleft = 0 := by
  simp only [Method.body, VcSendstate.rest, hbase] at hbody
  cases hn : left.sizeleft with
  | zero => rfl
  | succ n =>
    rw [hn] at hbody
    cases body <;> cases hbody

namespace Plan
variable {lib : Libcurl} {p : Plan σ} {g₁ g₂ : Setting σ} {x : Transfer}

theorem opts_congr (hurl : g₁.account.serverUrl = g₂.account.serverUrl)
    (hhdrs : g₁.account.httpHdrs = g₂.account.httpHdrs) (hlog : g₁.logLevel = g₂.logLevel) :
    p.opts lib g₁ = p.opts lib g₂ := by
  have hp : p.url lib g₁ = p.url lib g₂ := by rw [url, url, hurl]
  rw [opts, opts, hhdrs, hlog, hp]

/-- The request depends on the server, the headers and the log level, and on what is left to
be sent if it has no document. -/
theorem request_congr (hurl : g₁.account.serverUrl = g₂.account.serverUrl)
    (hhdrs : g₁.account.httpHdrs = g₂.account.httpHdrs) (hlog : g₁.logLevel = g₂.logLevel)
    (hbody : p.method.body g₁.left = p.method.body g₂.left) :
    p.request lib g₁ = p.request lib g₂ := by
  have hp : p.url lib g₁ = p.url lib g₂ := by rw [url, url, hurl]
  rw [request, request, hp, opts_congr hurl hhdrs hlog, hhdrs, hbody]

/-- The result depends on these, and on the application's memory and the state
pointer if there is a callback; the count aside. -/
theorem result_congr (lib : Libcurl) (g₁ g₂ : Setting σ) (x : Transfer)
    (hurl : g₁.account.serverUrl = g₂.account.serverUrl)
    (hhdrs : g₁.account.httpHdrs = g₂.account.httpHdrs) (hlog : g₁.logLevel = g₂.logLevel)
    (hcb : p.recvCallback ≠ none →
      g₁.account.callbackState = g₂.account.callbackState ∧ g₁.user = g₂.user) :
    (HeadersFit (p.outcome g₁ x).2.1 ↔ HeadersFit (p.outcome g₂ x).2.1) ∧
      (p.result lib g₁ x).vmeSize = (p.result lib g₂ x).vmeSize ∧
      (p.result lib g₁ x).vmeJsonData = (p.result lib g₂ x).vmeJsonData ∧
      (p.result lib g₁ x).vmeErrorMsg = (p.result lib g₂ x).vmeErrorMsg := by
  have hstart : Intake.Agree
      ⟨p.recvCallback, g₁.account.callbackState, p.method.uploads⟩
      ⟨p.recvCallback, g₂.account.callbackState, p.method.uploads⟩
      ⟨[], g₁.count, g₁.user, p.send g₁⟩ ⟨[], g₂.count, g₂.user, p.send g₂⟩ :=
    ⟨rfl, fun h => (hcb h).1, fun h => (hcb h).2, rfl⟩
  obtain ⟨hdone, hheaders, hagree⟩ := hstart.events x.events
  have hdone : (p.outcome g₁ x).2.2 = (p.outcome g₂ x).2.2 := hdone
  have hreceived : (p.outcome g₁ x).1.received = (p.outcome g₂ x).1.received := hagree.received
  have hres : p.res g₁ x = p.res g₂ x := by rw [res, res, hdone]
  have herr : p.errBuf lib g₁ x = p.errBuf lib g₂ x := by
    rw [errBuf, errBuf, opts_congr hurl hhdrs hlog, hres]
  refine ⟨by rw [HeadersFit, HeadersFit]; exact iff_of_eq (by rw [outcome, outcome, hheaders]),
    ?_, ?_, ?_⟩ <;>
    simp only [result, resultOf, hreceived, hres, herr]

end Plan

/-! ## Runs -/

/-- The verb of an operation. -/
def Op.verb : Op σ → CString
  | select .. | selectOne .. | selectCount .. | selectCallback .. | aggregate .. => lit "GET"
  | delete .. | deleteCount .. => lit "DELETE"
  | insert .. | upsert .. | publish .. | execute .. | querySource .. => lit "POST"
  | update .. => lit "PUT"
  | patch .. => lit "PATCH"

theorem Op.verb_outline (op : Op σ) (v : UInt8) : (op.outline v).method.verb = op.verb := by
  cases op <;> rfl

/-- The client keeps its server, its headers and its API version. -/
def SameServer (a : Account) (vc : VantiqClient σ) : Prop :=
  vc.apiVersion = a.apiVersion ∧ vc.serverUrl = a.serverUrl ∧ vc.httpHdrs = a.httpHdrs

namespace Sys
variable {lib : Libcurl} {s s' : Sys σ} {h : VME} {calls : List (Call σ)} {a : Account}
  {op : Op σ}

/-- The state is one in which the handle is held and its client still the same. -/
def Keeps (h : VME) (a : Account) (logLevel : Int) (s : Sys σ) : Prop :=
  h ∈ s.handles ∧ s.world.logLevel = logLevel ∧ s.All fun q vc => q = h → SameServer a vc

/-- **Until it is torn down a handle's client keeps its server and headers.** -/
theorem keeps_run {logLevel : Int} (hrun : Run (Step lib) s calls s')
    (hcalls : ∀ left, Call.teardown h left ∉ calls) (hs : s.Keeps h a logLevel) :
    s'.Keeps h a logLevel := by
  refine hrun.invariant (P := fun c => ∀ left, c ≠ Call.teardown h left) ?_ ?_ hs
  · rintro s c t hst hc ⟨hh, hlog, hall⟩
    refine ⟨hst.mem_handles hh hc, (hst.logLevel hall).trans hlog, hst.all ?_ ?_ ?_ hall⟩
    · rintro addr i - hfree vc - - - - rfl
      exact absurd hh hfree
    · intro q state _ vc hsame hq
      exact hsame hq
    · intro q op x _ vc vc' received hsame hset hq
      obtain ⟨h₁, h₂, h₃⟩ := hsame hq
      have hacct := hset.account
      simp only [VantiqClient.account, Account.mk.injEq] at hacct
      exact ⟨hacct.1.trans h₁, hacct.2.1.trans h₂, hacct.2.2.1.trans h₃⟩
  · rintro c hc left rfl
    exact hcalls left hc

/-- A held handle of a reachable state has its client to keep. -/
theorem Reachable.keeps (hs : Reachable lib s) (hh : h ∈ s.handles) {vc : VantiqClient σ}
    (hp : s.world.heap h = .client vc) : s.Keeps h vc.account s.world.logLevel := by
  refine ⟨hh, rfl, ?_⟩
  intro q hq
  obtain ⟨hne, vc', hp', hrdy⟩ := hs.ready hq
  refine ⟨hne, vc', hp', hrdy, ?_⟩
  rintro rfl
  obtain rfl := Referent.client.inj (hp.symm.trans hp')
  exact ⟨rfl, rfl, rfl⟩

/-- The next request on the handle is the same in both states: an operation makes the same
request, of bytes that are what they are, and leaves no callback and no option behind; of the
same response it returns the same size, data and error, given the same application memory and
state pointer if it has a callback. -/
structure Alike (lib : Libcurl) (op : Op σ) (h : VME) (s₁ s₂ : Sys σ) (vc₁ vc₂ : VantiqClient σ) :
    Prop where
  request : ∀ x₁ x₂ r₁ r₂ w₁ w₂, op.run lib s₁.world h x₁ = .ok (some r₁, w₁) →
    op.run lib s₂.world h x₂ = .ok (some r₂, w₂) →
    ∃ e₁ e₂ body, w₁.wire = s₁.world.wire ++ [(h, e₁)] ∧ w₂.wire = s₂.world.wire ++ [(h, e₂)] ∧
      e₁.request = e₂.request ∧ e₁.request.body = cells body ∧ e₁.request.verb = op.verb
  settled : ∀ x r w, op.run lib s₁.world h x = .ok (some r, w) →
    ∃ vc' code, w.heap h = .client vc' ∧ vc'.recvCallback = none ∧
      vc'.curl = some { opts := {}, responseCode := code }
  result : (op.recvCallback ≠ none →
      vc₁.callbackState = vc₂.callbackState ∧ s₁.world.user = s₂.world.user) →
    ∀ x r₁ w₁, op.run lib s₁.world h x = .ok (some r₁, w₁) →
      ∃ r₂ w₂, op.run lib s₂.world h x = .ok (some r₂, w₂) ∧ r₁.vmeSize = r₂.vmeSize ∧
        r₁.vmeJsonData = r₂.vmeJsonData ∧ r₁.vmeErrorMsg = r₂.vmeErrorMsg

/-- A response that says nothing but that all went well. -/
def noContent : Transfer := { events := [], res := CURLE_OK, status := 204, errText := lit "" }

section Alike
variable {s₁ s₂ : Sys σ} {vc₁ vc₂ : VantiqClient σ}

/-- To a response without events every operation that gets there has a result. -/
theorem run_noContent (lib : Libcurl) (op : Op σ) {w : World σ} {vc : VantiqClient σ}
    (hp : w.heap h = .client vc) (hne : h ≠ NULL) (hr : vc.Ready)
    (hop : ¬ op.Faults vc.apiVersion) :
    ∃ r w', op.run lib w h noContent = .ok (some r, w') ∧
      w'.wire = w.wire ++
        [(h, (op.outline vc.apiVersion).exchange lib (w.setting vc) noContent)] := by
  obtain ⟨vc', hrun, -⟩ := Op.run_refines lib (x := noContent) hp hne hr
    (Op.plan_eq_some_iff.mpr ⟨hop, rfl⟩) Fits.nil
  exact ⟨_, _, hrun, rfl⟩

/-- A patch without a document whose body is text took nothing from a freed message. -/
theorem Alike.sizeleft (halike : Alike lib op h s₁ s₂ vc₁ vc₂) (hnull : op.PatchesNull)
    (hne : h ≠ NULL) (hp₁ : s₁.world.heap h = .client vc₁) (hr₁ : vc₁.Ready)
    (hp₂ : s₂.world.heap h = .client vc₂) (hr₂ : vc₂.Ready) :
    vc₁.sendState.sizeleft = 0 ∧ vc₂.sendState.sizeleft = 0 := by
  have hop (v : UInt8) : ¬ op.Faults v := by
    cases op <;> first | exact id | cases hnull
  have hmethod (v : UInt8) := (Op.patchesNull_iff (v := v)).mp hnull
  obtain ⟨r₁, w₁, hok₁, hwire₁⟩ := run_noContent lib op hp₁ hne hr₁ (hop _)
  obtain ⟨r₂, w₂, hok₂, hwire₂⟩ := run_noContent lib op hp₂ hne hr₂ (hop _)
  obtain ⟨e₁, e₂, body, he₁, he₂, heq, hbody, -⟩ := halike.request _ _ _ _ _ _ hok₁ hok₂
  obtain rfl : _ = e₁ := by simpa using hwire₁.symm.trans he₁
  obtain rfl : _ = e₂ := by simpa using hwire₂.symm.trans he₂
  rw [heq] at hbody
  have hbody₁ : (op.outline vc₁.apiVersion).method.body vc₁.sendState = cells body :=
    (congrArg Request.body heq).trans hbody
  have hbody₂ : (op.outline vc₂.apiVersion).method.body vc₂.sendState = cells body := hbody
  rw [hmethod] at hbody₁ hbody₂
  exact ⟨sizeleft_of_body hr₁.base hbody₁, sizeleft_of_body hr₂.base hbody₂⟩

/-- With nothing left over the states of one client are alike. -/
theorem alike_of_sizeleft (hne : h ≠ NULL) (hp₁ : s₁.world.heap h = .client vc₁)
    (hr₁ : vc₁.Ready) (hp₂ : s₂.world.heap h = .client vc₂) (hr₂ : vc₂.Ready)
    (hsame₁ : SameServer a vc₁) (hsame₂ : SameServer a vc₂)
    (hlog : s₁.world.logLevel = s₂.world.logLevel)
    (hleft : op.PatchesNull → vc₁.sendState.sizeleft = 0 ∧ vc₂.sendState.sizeleft = 0) :
    Alike lib op h s₁ s₂ vc₁ vc₂ := by
  have hv := hsame₁.1.trans hsame₂.1.symm
  have hurl := hsame₁.2.1.trans hsame₂.2.1.symm
  have hhdrs := hsame₁.2.2.trans hsame₂.2.2.symm
  refine ⟨?_, ?_, ?_⟩
  -- both operations have a plan of their own: the API version makes it the same one
  · intro x₁ x₂ r₁ r₂ w₁ w₂ hop₁ hop₂
    obtain ⟨p, vc', hplan₁, -, -, rfl, -⟩ := Op.run_inv hp₁ hne hr₁ hop₁
    obtain ⟨p', vc'', hplan₂, -, -, rfl, -⟩ := Op.run_inv hp₂ hne hr₂ hop₂
    rw [hv, hplan₂] at hplan₁
    obtain rfl := Option.some.inj hplan₁
    obtain ⟨-, rfl⟩ := Op.plan_eq_some_iff.mp hplan₂
    have hbody₁ : (op.outline vc₂.apiVersion).method.body vc₁.sendState = cells _ :=
      Method.body_eq_document fun hm => (hleft (Op.patchesNull_iff.mpr hm)).1
    have hbody₂ : (op.outline vc₂.apiVersion).method.body vc₂.sendState = cells _ :=
      Method.body_eq_document fun hm => (hleft (Op.patchesNull_iff.mpr hm)).2
    exact ⟨_, _, _, rfl, rfl, Plan.request_congr hurl hhdrs hlog (hbody₁.trans hbody₂.symm),
      hbody₁, op.verb_outline _⟩
  · intro x r w hop₁
    obtain ⟨p, vc', -, -, -, rfl, hset⟩ := Op.run_inv hp₁ hne hr₁ hop₁
    obtain ⟨code, hcode⟩ := hset.curl
    exact ⟨vc', code, World.put_heap_self, hset.recvCallback, hcode⟩
  · intro hcb x r₁ w₁ hop₁
    obtain ⟨p, vc', hplan, hfit, hr, -, -⟩ := Op.run_inv hp₁ hne hr₁ hop₁
    cases hr
    have hpcb : p.recvCallback ≠ none →
        vc₁.callbackState = vc₂.callbackState ∧ s₁.world.user = s₂.world.user := by
      rw [Op.recvCallback_plan hplan]
      exact hcb
    obtain ⟨hheaders, hsize, hdata, herr⟩ := Plan.result_congr lib (s₁.world.setting vc₁)
      (s₂.world.setting vc₂) x hurl hhdrs hlog hpcb
    rw [hv] at hplan
    obtain ⟨vc'', hop₂, -⟩ := Op.run_refines lib hp₂ hne hr₂ hplan
      (Op.fits_of_headers hplan (fun hnull => (hleft hnull).2) (hheaders.mp hfit.headers))
    exact ⟨_, _, hop₂, hsize, hdata, herr⟩

end Alike

/-- **The next request on a handle does not depend on what was done with it**, after any two
runs of calls that do not tear it down, unless it is a patch without a document and one of
them left an upload that was not read to its end. -/
theorem request_independent_iff {s₀ s₁ s₂ : Sys σ} {calls₁ calls₂ : List (Call σ)}
    (op : Op σ) (hs : Reachable lib s₀) (hh : h ∈ s₀.handles)
    (hrun₁ : Run (Step lib) s₀ calls₁ s₁) (hrun₂ : Run (Step lib) s₀ calls₂ s₂)
    (hlive₁ : ∀ left, Call.teardown h left ∉ calls₁)
    (hlive₂ : ∀ left, Call.teardown h left ∉ calls₂) :
    ∃ vc₁ vc₂, s₁.world.heap h = .client vc₁ ∧ s₂.world.heap h = .client vc₂ ∧
      (Alike lib op h s₁ s₂ vc₁ vc₂ ↔
        (op.PatchesNull → vc₁.sendState.sizeleft = 0 ∧ vc₂.sendState.sizeleft = 0)) := by
  obtain ⟨-, vc₀, hp₀, -⟩ := hs.ready hh
  obtain ⟨hh₁, hlog₁, hall₁⟩ := keeps_run hrun₁ hlive₁ (hs.keeps hh hp₀)
  obtain ⟨hh₂, hlog₂, hall₂⟩ := keeps_run hrun₂ hlive₂ (hs.keeps hh hp₀)
  obtain ⟨hne, vc₁, hp₁, hr₁, hsame₁⟩ := hall₁ h hh₁
  obtain ⟨-, vc₂, hp₂, hr₂, hsame₂⟩ := hall₂ h hh₂
  refine ⟨vc₁, vc₂, hp₁, hp₂, ?_, ?_⟩
  · intro halike hnull
    exact halike.sizeleft hnull hne hp₁ hr₁ hp₂ hr₂
  · exact alike_of_sizeleft hne hp₁ hr₁ hp₂ hr₂ (hsame₁ rfl) (hsame₂ rfl)
      (hlog₁.trans hlog₂.symm)

/-- An update of two bytes that breaks off after the first leaves the other. -/
theorem exists_leftover :
    ∃ (s₀ s₂ : Sys Unit) (vc₀ vc₂ : VantiqClient Unit), Reachable .plain s₀ ∧ 8 ∈ s₀.handles ∧
      Run (Step .plain) s₀ [.request 8 (.update (lit "/r") (some [91, 93])) brokenUpload] s₂ ∧
      s₀.world.heap 8 = .client vc₀ ∧ vc₀.Ready ∧ vc₀.sendState.sizeleft = 0 ∧
      s₂.world.heap 8 = .client vc₂ ∧ vc₂.Ready ∧ vc₂.sendState.sizeleft = 1 := by
  obtain ⟨s₀, vc₀, hrun₀, hh, hp₀, hr₀, -, -, hleft⟩ := exists_session [] 200 (by simp)
  have hs : Reachable .plain s₀ := ⟨_, _, rfl, hrun₀⟩
  obtain ⟨r, w, hupdate⟩ := hs.run_returns hh hp₀ (.update (lit "/r") (some [91, 93]))
    brokenUpload ⟨nofun, False.elim⟩ (by decide)
  obtain ⟨vc, p, vc₂, -, hplan, -, rfl, hset⟩ := hs.run_inv hh hupdate
  obtain ⟨-, rfl⟩ := Op.plan_eq_some_iff.mp hplan
  refine ⟨s₀, ⟨_, s₀.handles⟩, vc₀, vc₂, hs, hh, .cons (.request (Or.inr hh) hupdate) (.nil _),
    hp₀, hr₀, hleft, World.after_heap_self, hset.toReady, ?_⟩
  have hlen : (Message.ofBytes [91, 93]).buf.len = 2 := by
    rw [(Message.ofBytes _).holds.len_eq, (messageBuf_eq_ofBytes _).2]
    rfl
  rw [hset.send]
  show (Message.ofBytes [91, 93]).buf.len - min 1 (Message.ofBytes [91, 93]).buf.len = 1
  rw [hlen]
  rfl

/-- A patch right after `vme_init`, and one after an update that broke off. -/
theorem request_independent_iff_broken_update :
    ∃ (s₀ s₂ : Sys Unit) (r₁ r₂ : VmeResult) (w₁ w₂ : World Unit) (e₁ e₂ : Exchange),
      Run (Step .plain) s₀ [.request 8 (.update (lit "/r") (some [91, 93])) brokenUpload] s₂ ∧
      (Op.patch (lit "/r") (some (lit "[]"))).run .plain s₀.world 8 noContent =
        .ok (some r₁, w₁) ∧
      (Op.patch (lit "/r") (some (lit "[]"))).run .plain s₂.world 8 noContent =
        .ok (some r₂, w₂) ∧
      w₁.wire = s₀.world.wire ++ [(8, e₁)] ∧ w₂.wire = s₂.world.wire ++ [(8, e₂)] ∧
      e₁.request = e₂.request ∧ e₁.request.verb = lit "PATCH" ∧
      r₁.vmeErrorMsg = r₂.vmeErrorMsg := by
  obtain ⟨s₀, s₂, vc₀, -, hs, hh, hrun, hp₀, -⟩ := exists_leftover
  obtain ⟨r₁, w₁, h₁⟩ := hs.run_returns hh hp₀ (.patch (lit "/r") (some (lit "[]"))) noContent
    ⟨id, nofun⟩ (by decide)
  obtain ⟨vc₁, vc₂, -, -, halike⟩ := request_independent_iff
    (.patch (lit "/r") (some (lit "[]"))) hs hh (.nil s₀) hrun (by simp) (by simp)
  obtain ⟨hreq, -, hres⟩ := halike.mpr nofun
  obtain ⟨r₂, w₂, h₂, -, -, herr⟩ := hres (fun h => absurd rfl h) noContent r₁ w₁ h₁
  obtain ⟨e₁, e₂, body, hw₁, hw₂, heq, -, hverb⟩ := hreq _ _ _ _ _ _ h₁ h₂
  exact ⟨s₀, s₂, r₁, r₂, w₁, w₂, e₁, e₂, hrun, h₁, h₂, hw₁, hw₂, heq, hverb, herr⟩

/-- A patch without a document: right after `vme_init` it sends nothing, and after an update
that broke off a byte of the message that was freed. -/
theorem leftover_sent :
    ∃ (s₀ s₂ : Sys Unit) (r₁ r₂ : VmeResult) (w₁ w₂ : World Unit) (e₁ e₂ : Exchange),
      Reachable .plain s₀ ∧ 8 ∈ s₀.handles ∧
      Run (Step .plain) s₀ [.request 8 (.update (lit "/r") (some [91, 93])) brokenUpload] s₂ ∧
      (Op.patch (lit "/r") none).run .plain s₀.world 8 noContent = .ok (some r₁, w₁) ∧
      (Op.patch (lit "/r") none).run .plain s₂.world 8 noContent = .ok (some r₂, w₂) ∧
      w₁.wire = s₀.world.wire ++ [(8, e₁)] ∧ w₂.wire = s₂.world.wire ++ [(8, e₂)] ∧
      e₁.request.body = [] ∧ e₂.request.body = [none] ∧
      (∃ r, (Op.patch (lit "/r") none).run .plain s₀.world 8 brokenUpload = .ok r) ∧
      ∀ r, (Op.patch (lit "/r") none).run .plain s₂.world 8 brokenUpload ≠ .ok r := by
  obtain ⟨s₀, s₂, vc₀, vc₂, hs, hh, hrun, hp₀, hr₀, hleft₀, hp₂, hr₂, hleft₂⟩ := exists_leftover
  have hne : (8 : VME) ≠ NULL := by decide
  obtain ⟨r₁, w₁, h₁, hw₁⟩ := run_noContent .plain (.patch (lit "/r") none) hp₀ hne hr₀ id
  obtain ⟨r₂, w₂, h₂, hw₂⟩ := run_noContent .plain (.patch (lit "/r") none) hp₂ hne hr₂ id
  obtain ⟨r, w, hok⟩ := hs.run_returns hh hp₀ (.patch (lit "/r") none) brokenUpload
    ⟨id, fun _ => hleft₀⟩ (by decide)
  refine ⟨s₀, s₂, r₁, r₂, w₁, w₂, _, _, hs, hh, hrun, h₁, h₂, hw₁, hw₂, ?_, ?_, ⟨_, hok⟩, ?_⟩
  · show vc₀.sendState.rest = []
    rw [VcSendstate.rest, hr₀.base, hleft₀]
    rfl
  · show vc₂.sendState.rest = [none]
    rw [VcSendstate.rest, hr₂.base, hleft₂]
    rfl
  · intro r hrun₂
    have hdefined := (Op.defined_iff_returns .plain hp₂ hne hr₂).mpr ⟨r, hrun₂⟩
    have hzero := hdefined.left rfl
    rw [hleft₂] at hzero
    cases hzero

end Sys

end VantiqMicro
