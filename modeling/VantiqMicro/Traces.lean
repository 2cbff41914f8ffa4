import VantiqMicro.Tokens

/-! # What a run sends

The library as a translator: of each handle it knows an `Account`, and each call is
translated, with the account of its handle alone, into the requests it makes.  `trace` is
that, for a sequence of calls; buffers, easy handles and callbacks have no part in it, and by
`trace_unanswered` neither has what the server answered.  Every run of the library sends the
trace of its calls, as long as no patch goes without its document: its body is what an earlier
upload left.  By `trace_filter` the trace for one handle is that of its own calls, however they
are interleaved with those on others. -/

namespace VantiqMicro
open CMem

variable {σ : Type}

/-! ## The translator -/

/-- The account of each handle that is held. -/
abbrev Accounts := VME → Option Account

/-- The request of a plan, for an account. -/
def Plan.requestFor (lib : Libcurl) (logLevel : Int) (p : Plan σ) (account : Account) : Request :=
  let url := account.serverUrl ++ p.rsURI ++ queryText lib p.params
  { verb := p.method.verb
    url := some url
    headers := account.httpHdrs
    opts := ({} : CurlOpts).setopts
      (commonOptions logLevel account.httpHdrs ++ p.method.opts ++ [.url url] ++ p.method.late)
    body := p.method.body { base := none, readptr := 0, sizeleft := 0 } }

/-- The authentication request of `vc_init`. -/
def InitArgs.authRequest (a : InitArgs) (logLevel : Int) : Request :=
  VantiqMicro.authRequest (a.connected () logLevel)

/-- A call without what the server answers to it. -/
def Call.unanswered : Call σ → Call σ
  | .init addr a => .init addr { a with auth := emptyResponse }
  | .request h op _ => .request h op emptyResponse
  | c => c

/-- The call is a patch without a document. -/
def Call.PatchesNull : Call σ → Prop
  | .request _ op _ => op.PatchesNull
  | _ => False

/-- The handle a call is about. -/
def Call.handle : Call σ → VME
  | .init addr _ => addr
  | .teardown h _ => h
  | .callbackState h _ => h
  | .request h _ _ => h

namespace Accounts

def empty : Accounts := fun _ => none

def set (accounts : Accounts) (h : VME) (account : Option Account) : Accounts :=
  fun q => if q = h then account else accounts q

/-- The accounts after a call.  One that `vme_init` does not get accepted is not used. -/
def after (accounts : Accounts) : Call σ → Accounts
  | .init addr a => accounts.set addr (some a.account)
  | .teardown h _ => accounts.set h none
  | .callbackState h state =>
    accounts.set h ((accounts h).map fun account => { account with callbackState := state })
  | .request .. => accounts

/-- The requests a call makes. -/
def requests (lib : Libcurl) (logLevel : Int) (accounts : Accounts) :
    Call σ → List (VME × Request)
  | .init addr a => if a.Connects then [(addr, a.authRequest logLevel)] else []
  | .request h op _ =>
    match accounts h with
    | some account =>
      match op.plan account.apiVersion with
      | some p => [(h, p.requestFor lib logLevel account)]
      | none => []
    | none => []
  | .teardown .. => []
  | .callbackState .. => []

/-- The requests of a sequence of calls. -/
def trace (lib : Libcurl) (logLevel : Int) : Accounts → List (Call σ) → List (VME × Request)
  | _, [] => []
  | accounts, c :: calls =>
    accounts.requests lib logLevel c ++ (accounts.after c).trace lib logLevel calls

section Filter
variable {lib : Libcurl} {logLevel : Int} {accounts accounts' : Accounts} {q : VME} {c : Call σ}

@[simp] theorem set_self (account : Option Account) : accounts.set q account q = account :=
  if_pos rfl

theorem set_of_ne {h : VME} (hne : q ≠ h) (account : Option Account) :
    accounts.set h account q = accounts q := if_neg hne

/-- A call changes the account of its handle, by what that was. -/
theorem after_of_ne (hne : q ≠ c.handle) : accounts.after c q = accounts q := by
  cases c with
  | init addr a => exact set_of_ne hne _
  | teardown h left => exact set_of_ne hne _
  | callbackState h state => exact set_of_ne hne _
  | request h op x => rfl

theorem after_congr (h : accounts q = accounts' q) : accounts.after c q = accounts'.after c q := by
  by_cases hq : q = c.handle
  · subst hq
    cases c with
    | init addr a => simp only [after, Call.handle, set_self]
    | teardown h left => simp only [after, Call.handle, set_self]
    | callbackState p state =>
      have hp : accounts p = accounts' p := h
      simp only [after, Call.handle, set_self, hp]
    | request h' op x => exact h
  · rw [after_of_ne hq, after_of_ne hq, h]

/-- A call's requests are for its handle, and depend on its account. -/
theorem handle_of_mem_requests {r : VME × Request} (hr : r ∈ accounts.requests lib logLevel c) :
    r.1 = c.handle := by
  cases c with
  | init addr a =>
    simp only [requests] at hr
    split at hr
    · rw [List.mem_singleton.mp hr]
      rfl
    · cases hr
  | teardown h left => cases hr
  | callbackState h state => cases hr
  | request h op x =>
    simp only [requests] at hr
    split at hr
    · split at hr
      · rw [List.mem_singleton.mp hr]
        rfl
      · cases hr
    · cases hr

theorem requests_congr (h : accounts c.handle = accounts' c.handle) :
    accounts.requests lib logLevel c = accounts'.requests lib logLevel c := by
  cases c with
  | init addr a => rfl
  | teardown h left => rfl
  | callbackState h state => rfl
  | request p op x =>
    have hp : accounts p = accounts' p := h
    simp only [requests, hp]

/-- What is sent for a handle comes from the calls on it. -/
theorem filter_requests (hc : c.handle ≠ q) :
    (accounts.requests lib logLevel c).filter (·.1 = q) = [] :=
  List.filter_eq_nil_iff.mpr fun r hr => by
    simpa [handle_of_mem_requests hr] using hc

/-- **What is sent for a handle is the translation of the calls on it.** -/
theorem trace_filter (lib : Libcurl) (logLevel : Int) (calls : List (Call σ))
    (h : accounts q = accounts' q) :
    (accounts.trace lib logLevel calls).filter (·.1 = q) =
      accounts'.trace lib logLevel (calls.filter (·.handle = q)) := by
  induction calls generalizing accounts accounts' with
  | nil => rfl
  | cons c calls ih =>
    rw [trace, List.filter_append]
    by_cases hc : c.handle = q
    · have hall : (accounts.requests lib logLevel c).filter (·.1 = q) =
          accounts.requests lib logLevel c :=
        List.filter_eq_self.mpr fun r hr => by
          simpa [hc] using handle_of_mem_requests hr
      have hreq : accounts.requests lib logLevel c = accounts'.requests lib logLevel c :=
        requests_congr (by rw [hc, h])
      rw [hall, hreq, List.filter_cons_of_pos (by simpa using hc), trace, ih (after_congr h)]
    · rw [filter_requests hc, List.nil_append, List.filter_cons_of_neg (by simpa using hc)]
      exact ih ((after_of_ne fun heq => hc heq.symm).trans h)

/-- **What the server answers has no part in it.** -/
theorem trace_unanswered (lib : Libcurl) (logLevel : Int) (accounts : Accounts)
    (calls : List (Call σ)) :
    accounts.trace lib logLevel (calls.map Call.unanswered) =
      accounts.trace lib logLevel calls := by
  induction calls generalizing accounts with
  | nil => rfl
  | cons c calls ih =>
    have hafter : accounts.after c.unanswered = accounts.after c := by cases c <;> rfl
    have hrequests : accounts.requests lib logLevel c.unanswered =
        accounts.requests lib logLevel c := by cases c <;> rfl
    rw [List.map_cons, trace, hafter, hrequests, ih, ← trace]

end Filter

end Accounts

/-! ## The library is one -/

/-- The requests made, each with the handle whose client made it. -/
def World.requests (w : World σ) : List (VME × Request) :=
  w.wire.map fun qe => (qe.1, qe.2.request)

namespace Sys
variable {lib : Libcurl} {s s' s₀ s₁ s₂ : Sys σ} {c : Call σ} {calls calls₁ calls₂ : List (Call σ)}
  {accounts : Accounts} {q h : VME}

/-- The accounts are those of the clients behind the handles. -/
structure Tracks (s : Sys σ) (accounts : Accounts) : Prop where
  held : s.All fun q vc => accounts q = some vc.account
  null : accounts NULL = none

/-- A handle whose client and account a call leaves alone. -/
theorem Tracks.other (ht : s.Tracks accounts) (hq : q ∈ s.handles) {w : World σ}
    {accounts' : Accounts} (hheap : w.heap q = s.world.heap q)
    (hacct : accounts' q = accounts q) :
    q ≠ NULL ∧ ∃ vc, w.heap q = .client vc ∧ vc.Ready ∧ accounts' q = some vc.account := by
  rw [hacct]
  exact ht.held.of_heap hq hheap

/-- What one call does to the accounts, and what it sends. -/
structure Translates (lib : Libcurl) (s s' : Sys σ) (accounts : Accounts) (c : Call σ) : Prop where
  tracks : s'.Tracks (accounts.after c)
  sent : ∃ made, s'.world.requests = s.world.requests ++ made ∧ (∀ r ∈ made, r.1 = c.handle) ∧
    (¬ c.PatchesNull → made = accounts.requests lib s.world.logLevel c)

theorem requests_leave {w : World σ} {addr : Addr} {t : Session σ} :
    (w.leave addr t).requests =
      w.requests ++ (t.wire.map Exchange.request).map fun r => (addr, r) := by
  simp only [World.requests, World.leave, List.map_append, List.map_map]
  rfl

/-- A call that sends what the translator makes of it. -/
theorem Translates.of_requests (htracks : s'.Tracks (accounts.after c))
    (hsent : s'.world.requests =
      s.world.requests ++ accounts.requests lib s.world.logLevel c) :
    Translates lib s s' accounts c :=
  ⟨htracks, _, hsent, fun _ hr => Accounts.handle_of_mem_requests hr, fun _ => rfl⟩

theorem translates_init {addr : Addr} {a : InitArgs} (hstep : Step lib s (.init addr a) s')
    (ht : s.Tracks accounts) : Translates lib s s' accounts (.init addr a) := by
  cases hstep with
  | @init _ _ h w hne hfree hr =>
    obtain ⟨⟨returned, t⟩, hv, hret⟩ := bind_eq_ok.mp hr
    obtain ⟨rfl, rfl⟩ := Prod.mk.inj (Except.ok.inj hret)
    have hkept : ∀ q ∈ s.handles, q ≠ NULL ∧ ∃ vc,
        (s.world.leave addr t).heap q = .client vc ∧ vc.Ready ∧
          accounts.after (.init addr a : Call σ) q = some vc.account := by
      intro q hq
      have hqa := ht.held.ne_of_free hq hfree
      exact ht.other hq (World.leave_heap_of_ne hqa) (Accounts.set_of_ne hqa _)
    refine .of_requests ⟨?_, (Accounts.set_of_ne hne.symm _).trans ht.null⟩ ?_
    · cases returned with
      | false => exact hkept
      | true =>
        obtain ⟨hrdy, hacct, -⟩ := (InitArgs.vcInit_ok hv).2.2 rfl
        intro q hq
        simp only [if_true, if_neg hne, List.mem_cons] at hq
        rcases hq with rfl | hq
        · refine ⟨hne, t.vc, World.leave_heap_self, hrdy, ?_⟩
          show accounts.set q (some a.account) q = some t.vc.account
          rw [Accounts.set_self, hacct]
        · exact hkept q hq
    · show (s.world.leave addr t).requests = _
      rw [requests_leave, InitArgs.vcInit_requests hv, Accounts.requests]
      split <;> rfl

theorem translates_teardown {left : UInt8} (hstep : Step lib s (.teardown h left) s')
    (ht : s.Tracks accounts) : Translates lib s s' accounts (.teardown h left) := by
  cases hstep with
  | @teardown _ _ w husable hr =>
    have hw : w.wire = s.world.wire ∧ ∀ q, q ≠ h → w.heap q = s.world.heap q := by
      rcases husable.teardown ht.held hr with ⟨-, rfl⟩ | ⟨-, -, rfl⟩
      · exact ⟨rfl, fun _ _ => rfl⟩
      · exact ⟨rfl, fun _ hq => World.put_heap_of_ne hq⟩
    refine .of_requests ⟨fun q hq => ?_, ?_⟩ ?_
    · obtain ⟨hmem, hqh⟩ := List.mem_filter.mp hq
      have hne : q ≠ h := by simpa using hqh
      exact ht.other hmem (hw.2 q hne) (Accounts.set_of_ne hne _)
    · by_cases hnull : NULL = h
      · rw [hnull, Accounts.after, Accounts.set_self]
      · rw [Accounts.after, Accounts.set_of_ne hnull, ht.null]
    · show w.requests = _
      rw [World.requests, hw.1, Accounts.requests, List.append_nil]
      rfl

theorem translates_callbackState {state : Ptr} (hstep : Step lib s (.callbackState h state) s')
    (ht : s.Tracks accounts) : Translates lib s s' accounts (.callbackState h state) := by
  cases hstep with
  | @callbackState _ _ w husable hr =>
    rcases husable with rfl | hh
    · cases hr
      have hafter : accounts.after (.callbackState NULL state : Call σ) = accounts := by
        funext q
        by_cases hq : q = NULL
        · rw [hq, Accounts.after, Accounts.set_self, ht.null]
          rfl
        · rw [Accounts.after, Accounts.set_of_ne hq]
      exact .of_requests (by rw [hafter]; exact ht) (List.append_nil _).symm
    · obtain ⟨hne, vc, hp, hrdy, hacct⟩ := ht.held h hh
      rw [vmeCallbackState_client hp hne hrdy.magic] at hr
      cases hr
      refine .of_requests ⟨fun q hq => ?_, ?_⟩ requests_leave
      · by_cases hqh : q = h
        · subst hqh
          refine ⟨hne, _, World.leave_heap_self,
            ⟨hrdy.magic, hrdy.curl, hrdy.recvBuf, hrdy.recvCallback, hrdy.base⟩, ?_⟩
          show accounts.set q ((accounts q).map _) q = _
          rw [Accounts.set_self, hacct]
          rfl
        · exact ht.other hq (World.leave_heap_of_ne hqh) (Accounts.set_of_ne hqh _)
      · rw [Accounts.after, Accounts.set_of_ne hne.symm, ht.null]

/-- What a method sends does not depend on what an earlier upload left, unless it is a patch
without a document. -/
theorem body_congr {m : Method} (hm : m ≠ .patch none) (left left' : VcSendstate) :
    m.body left = m.body left' := by
  cases m with
  | patch json =>
    cases json with
    | none => exact absurd rfl hm
    | some json => rfl
  | _ => rfl

theorem request_eq_requestFor {p : Plan σ} {g : Setting σ} (hm : p.method ≠ .patch none) :
    p.request lib g = p.requestFor lib g.logLevel g.account := by
  rw [Plan.request, body_congr hm g.left { base := none, readptr := 0, sizeleft := 0 }]
  rfl

theorem translates_request {op : Op σ} {x : Transfer} (hstep : Step lib s (.request h op x) s')
    (ht : s.Tracks accounts) : Translates lib s s' accounts (.request h op x) := by
  cases hstep with
  | @request _ _ _ r w husable hr =>
    rcases husable with rfl | hh
    · obtain ⟨-, -, rfl⟩ := Op.run_invalid_inv vcFromVme_null hr
      refine .of_requests ht ?_
      simp only [Accounts.requests, ht.null, List.append_nil]
    · obtain ⟨hne, vc, hp, hrdy, hacct⟩ := ht.held h hh
      obtain ⟨p, vc', hplan, -, -, rfl, hset⟩ := Op.run_inv hp hne hrdy hr
      refine ⟨⟨fun q hq => ?_, ht.null⟩,
        [(h, p.request lib (s.world.setting vc))], List.map_append, ?_, fun hpatch => ?_⟩
      · by_cases hqh : q = h
        · subst hqh
          refine ⟨hne, vc', World.put_heap_self, hset.toReady, ?_⟩
          show accounts q = some vc'.account
          rw [hset.account, hacct]
        · exact ht.other hq (World.put_heap_of_ne hqh) rfl
      · rintro r hr
        rw [List.mem_singleton.mp hr]
        rfl
      · obtain ⟨-, rfl⟩ := Op.plan_eq_some_iff.mp hplan
        have hversion : vc.account.apiVersion = vc.apiVersion := rfl
        rw [request_eq_requestFor fun hm => hpatch (Op.patchesNull_iff.mpr hm)]
        simp only [Accounts.requests, hacct, hversion, hplan]
        rfl

/-- **One call of the library is one call of the translator.** -/
theorem Step.translates (hstep : Step lib s c s') (ht : s.Tracks accounts) :
    Translates lib s s' accounts c := by
  cases c with
  | init addr a => exact translates_init hstep ht
  | teardown h left => exact translates_teardown hstep ht
  | callbackState h state => exact translates_callbackState hstep ht
  | request h op x => exact translates_request hstep ht

/-- **What a run sends for some handles is the trace for them**, if no call on them is a patch
without a document. -/
theorem sent_of_run (hrun : Run (Step lib) s calls s') (ht : s.Tracks accounts)
    (keep : VME → Bool) :
    ∃ sent, s'.world.requests = s.world.requests ++ sent ∧
      ((∀ c ∈ calls, keep c.handle = true → ¬ c.PatchesNull) →
        sent.filter (keep ·.1) =
          (accounts.trace lib s.world.logLevel calls).filter (keep ·.1)) := by
  induction hrun generalizing accounts with
  | nil s => exact ⟨[], (List.append_nil _).symm, fun _ => rfl⟩
  | @cons s t u c calls hstep _ ih =>
    obtain ⟨htracks, made, hmade, hhandle, hrequests⟩ := hstep.translates ht
    obtain ⟨sent, hsent, hfilter⟩ := ih htracks
    refine ⟨made ++ sent, by rw [hsent, hmade, List.append_assoc], fun hpatch => ?_⟩
    obtain ⟨hc, hcalls⟩ := List.forall_mem_cons.mp hpatch
    have hfirst : made.filter (keep ·.1) =
        (accounts.requests lib s.world.logLevel c).filter (keep ·.1) := by
      by_cases hkeep : keep c.handle = true
      · rw [hrequests (hc hkeep)]
      -- neither the call nor its translation has anything for the handles kept
      · rw [List.filter_eq_nil_iff.mpr fun r hr => by rwa [hhandle r hr],
          List.filter_eq_nil_iff.mpr fun r hr => by
            rwa [Accounts.handle_of_mem_requests hr]]
    rw [List.filter_append, hfirst, hfilter hcalls, hstep.logLevel ht.held, Accounts.trace,
      List.filter_append]

theorem tracks_of_no_handles (h : s.handles = []) : s.Tracks .empty :=
  ⟨all_of_no_handles h, rfl⟩

/-- **What a run sends is the trace of its calls**, whatever was answered to them. -/
theorem requests_of_run (h₀ : s₀.handles = []) (hrun : Run (Step lib) s₀ calls s)
    (hpatch : ∀ c ∈ calls, ¬ c.PatchesNull) :
    s.world.requests = s₀.world.requests ++
      Accounts.empty.trace lib s₀.world.logLevel (calls.map Call.unanswered) := by
  obtain ⟨sent, hsent, hall⟩ := sent_of_run hrun (tracks_of_no_handles h₀) fun _ => true
  have htrace := hall fun c hc _ => hpatch c hc
  rw [List.filter_true, List.filter_true] at htrace
  rw [hsent, htrace, Accounts.trace_unanswered]

/-- A session and a delete on it. -/
theorem exists_delete :
    ∃ s : Sys Unit, Run (Step .plain) ⟨World.fresh, []⟩
      [.sample [] 200, .request 8 (.delete (lit "/r") none) emptyResponse] s := by
  obtain ⟨s, vc, hrun, hh, hp, -⟩ := exists_session [] 200 (by simp)
  have hs : Reachable .plain s := ⟨_, _, rfl, hrun⟩
  obtain ⟨r, w', hr⟩ := hs.run_returns hh hp (.delete (lit "/r") none) emptyResponse
    ⟨id, False.elim⟩ emptyResponse_fits
  exact ⟨⟨w', s.handles⟩, hrun.append (.cons (.request (Or.inr hh) hr) (.nil _))⟩

theorem requests_of_run_delete :
    ∃ s : Sys Unit, s.world.requests =
      [(8, (InitArgs.sample [] 200).authRequest 2),
        (8, (Plan.mk .delete (lit "/r") [] none : Plan Unit).requestFor .plain 2
          (InitArgs.sample [] 200).account)] := by
  obtain ⟨s, hrun⟩ := exists_delete
  have hpatch : ∀ c ∈ [Call.sample [] 200,
      .request 8 (.delete (lit "/r") none) emptyResponse], ¬ c.PatchesNull := by
    simp [Call.sample, Call.PatchesNull, Op.PatchesNull]
  exact ⟨s, requests_of_run rfl hrun hpatch⟩

/-- **Handles do not interfere**: what any two processes send for a handle is the same where
their calls on it are, whatever they do with others and whatever is answered. -/
theorem handles_isolated (h₁ : s₁.handles = []) (h₂ : s₂.handles = [])
    (hlog : s₁.world.logLevel = s₂.world.logLevel) (hrun₁ : Run (Step lib) s₁ calls₁ s)
    (hrun₂ : Run (Step lib) s₂ calls₂ s')
    (hcalls : (calls₁.filter (·.handle = q)).map Call.unanswered =
      (calls₂.filter (·.handle = q)).map Call.unanswered)
    (hpatch : ∀ c ∈ calls₁ ++ calls₂, c.handle = q → ¬ c.PatchesNull) :
    ∃ sent₁ sent₂ : List (VME × Request), s.world.requests = s₁.world.requests ++ sent₁ ∧
      s'.world.requests = s₂.world.requests ++ sent₂ ∧
      sent₁.filter (·.1 = q) = sent₂.filter (·.1 = q) := by
  obtain ⟨hpatch₁, hpatch₂⟩ := List.forall_mem_append.mp hpatch
  obtain ⟨sent₁, hsent₁, hall₁⟩ := sent_of_run hrun₁ (tracks_of_no_handles h₁) (· = q)
  obtain ⟨sent₂, hsent₂, hall₂⟩ := sent_of_run hrun₂ (tracks_of_no_handles h₂) (· = q)
  refine ⟨sent₁, sent₂, hsent₁, hsent₂, ?_⟩
  rw [hall₁ fun c hc hq => hpatch₁ c hc (of_decide_eq_true hq),
    hall₂ fun c hc hq => hpatch₂ c hc (of_decide_eq_true hq),
    Accounts.trace_filter lib _ calls₁ (q := q) rfl, Accounts.trace_filter lib _ calls₂ rfl,
    ← Accounts.trace_unanswered, hcalls, Accounts.trace_unanswered, hlog]

/-- A handle whose authentication was answered 401, obtained after an attempt at another address
has failed, and one without either. -/
theorem handles_isolated_failed :
    ∃ s s' : Sys Unit, s.handles = [8] ∧ s'.handles = [8] ∧
      s.world.requests.filter (·.1 = 8) = s'.world.requests.filter (·.1 = 8) := by
  let bad : InitArgs := { InitArgs.sample [] 200 with easyInit := false }
  obtain ⟨last, hlast⟩ := CString.exists_lastChar (s := bad.url)
    (show (lit "https://host/").bytes ≠ [] by decide)
  have hv : vcInit bad () World.fresh.logLevel = .ok (false, bad.session () World.fresh.logLevel) :=
    (InitArgs.vcInit_eq () _ hlast).1 (by simp [InitArgs.Connects, bad])
  have hbad : Step .plain ⟨World.fresh, []⟩ (.init 9 bad)
      ⟨World.fresh.leave 9 (bad.session () World.fresh.logLevel), []⟩ :=
    .init (h := NULL) (by decide) (fun vc h => by cases h) (by
      have huser : World.fresh.user = () := rfl
      rw [vmeInit, huser, hv]
      rfl)
  have hurl : (lit "https://host/").bytes ≠ [] := by decide
  obtain ⟨s, hrun, hh, -⟩ := exists_reachable .plain World.fresh 8 (.sample [] 200) (by decide)
    (fun vc h => by cases h) hurl (by decide) (by decide) (by decide)
  obtain ⟨s', hrun', hh', -⟩ := exists_reachable .plain
    (World.fresh.leave 9 (bad.session () World.fresh.logLevel)) 8 (.sample [] 401) (by decide)
    (fun vc h => by cases h) hurl (by decide) (by decide) (by decide)
  have hpatch : ∀ c ∈ [.init 8 (.sample [] 200)] ++ [.init 9 bad, .init 8 (.sample [] 401)],
      c.handle = 8 → ¬ (c : Call Unit).PatchesNull := by
    simp [Call.PatchesNull]
  obtain ⟨sent₁, sent₂, hs, hs', hsame⟩ :=
    handles_isolated (q := 8) rfl rfl rfl hrun (.cons hbad hrun') rfl hpatch
  refine ⟨s, s', hh, hh', ?_⟩
  rw [hs, hs']
  exact hsame

end Sys

end VantiqMicro
