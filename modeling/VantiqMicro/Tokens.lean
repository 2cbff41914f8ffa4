import VantiqMicro.QueryString
import VantiqMicro.Url

/-! # Where a token goes

`vme_init` is given a server and a token.  Both stay on the client, and every request is
made up from what is there: so in any run, with as many handles as the application likes and
addresses that are used again, the token a request carries and the server its URL starts with
are those of the call that gave the handle.  The authority of the URL is the server's as long
as what is written after it starts with a slash, which is up to the caller where the caller
gives the path.  The library asks for the peer's certificate each time; where a redirection
leads is up to libcurl. -/

namespace VantiqMicro
open CMem

variable {σ : Type}

/-- The request's URL goes on from the server `a` gives, and it has `a`'s token and no
other. -/
structure Request.BelongsTo (r : Request) (a : InitArgs) : Prop where
  url : ∃ rest, r.url = some (serverUrlOf a.url ++ rest)
  token : authHdr a.authToken ∈ r.headers
  headers : ∀ hdr ∈ r.headers,
    hdr = authHdr a.authToken ∨ hdr = JSON_CONTENTTYPE ∨ hdr = lit "Expect:"
  verified : r.opts.sslVerifyPeer = 1 ∧ r.opts.sslVerifyHost = 1

/-- The request's URL has the authority of the URL `a` gives. -/
def Request.GoesTo (r : Request) (a : InitArgs) : Prop :=
  ∀ host, Url.authority a.url.bytes = some host → host ≠ [] →
    ∃ url, r.url = some url ∧ Url.authority url.bytes = some host

/-- The path a caller gives starts with a slash, or with what ends a path. -/
def Op.Rooted (op : Op σ) : Prop := ∀ path, op.path = some path → Url.Continues path.bytes

/-- The client has the server and the headers of `a`. -/
def VantiqClient.Of (vc : VantiqClient σ) (a : InitArgs) : Prop :=
  vc.serverUrl = serverUrlOf a.url ∧ vc.httpHdrs = a.account.httpHdrs

/-! ## The requests of a client -/

section Requests
variable {lib : Libcurl} {auth : Transfer} {s : Session σ} {c : Curl} {a : InitArgs}

/-- The authentication request. -/
def authRequest (s : Session σ) : Request := (authSession s).request (authOpts s)

theorem authenticate_wire (hc : s.vc.curl = some c) (hbuf : s.vc.recvBuf.Holds [])
    (hcb : s.vc.recvCallback = none) (hbase : s.vc.sendState.base = none)
    {r : Bool × Session σ} (hr : authenticate auth s = .ok r) :
    ∃ e : Exchange, r.2.wire = s.wire ++ [e] ∧ e.request = authRequest s := by
  have hfit := headerFits_of_authenticate hc hbuf hcb hbase hr
  obtain ⟨s₁, h₁, -, hf₁⟩ := Session.callbacks_refines authOpts_spec.1
    (authSession_hooks hcb) (authSession_shows hbuf hbase)
    ((authOutcome_spec auth s).2.2.2.2.mpr hfit)
  rw [authenticate_eq (authUrl_fits ⟨r, hr⟩)] at hr
  obtain ⟨⟨s₂, res, errBuf⟩, hperform, hr⟩ := bind_eq_ok.mp hr
  simp only [Session.perform, authSession_curl hc, h₁, ok_bind, pure_eq_ok, Except.ok.injEq,
    Prod.mk.injEq] at hperform
  obtain ⟨rfl, -, -⟩ := hperform
  have hwire : s₁.wire = s.wire := hf₁.wire
  dsimp only at hr
  split_ifs at hr <;> cases hr <;> exact ⟨_, congrArg (· ++ _) hwire, rfl⟩

/-- The new client as it goes into the authentication. -/
def InitArgs.connected (a : InitArgs) (user : σ) (logLevel : Int) : Session σ :=
  { a.session user logLevel with vc.curl := some {} }

/-- What is written after the server's URL does not change who is addressed. -/
theorem goesTo_of_continues {r : Request} {rest : CString}
    (hurl : r.url = some (serverUrlOf a.url ++ rest)) (hrest : Url.Continues rest.bytes) :
    r.GoesTo a := by
  intro host hhost hne
  refine ⟨_, hurl, Url.authority_append ?_ hrest⟩
  rw [serverUrlOf]
  split
  · rename_i hslash
    refine Url.authority_of_append_slash ?_ hne
    rwa [List.dropLast_append_getLast? _ hslash]
  · exact hhost

theorem authRequest_url (a : InitArgs) (user : σ) (logLevel : Int) :
    (authRequest (a.connected user logLevel)).url =
      some (serverUrlOf a.url ++ AUTH_URL_PATH) := by
  simp only [authRequest, authOpts, setopts_commonOptions]
  rfl

theorem authRequest_belongsTo (a : InitArgs) (user : σ) (logLevel : Int) :
    (authRequest (a.connected user logLevel)).BelongsTo a := by
  constructor
  · exact ⟨AUTH_URL_PATH, authRequest_url a user logLevel⟩
  · simp only [authRequest, authOpts, setopts_commonOptions]
    exact List.mem_singleton.mpr rfl
  · simp only [authRequest, authOpts, setopts_commonOptions]
    intro hdr hhdr
    exact Or.inl (List.mem_singleton.mp hhdr)
  · simp only [authRequest, Session.request, authOpts, setopts_commonOptions]
    exact ⟨rfl, rfl⟩

/-- **`vc_init` makes no request but its own.** -/
theorem InitArgs.vcInit_requests {user : σ} {logLevel : Int} {returned : Bool}
    (hr : vcInit a user logLevel = .ok (returned, s)) :
    s.wire.map Exchange.request =
      if a.Connects then [authRequest (a.connected user logLevel)] else [] := by
  obtain ⟨last, hu⟩ := lastChar_of_vcInit hr
  obtain ⟨hnot, hyes⟩ := vcInit_eq user logLevel hu
  by_cases hc : a.Connects
  · rw [hyes hc] at hr
    obtain ⟨e, hwire, hreq⟩ := authenticate_wire rfl VmeBuf.holds_alloc rfl rfl hr
    have hwire' : s.wire = [e] := hwire
    rw [hwire', if_pos hc, List.map_singleton, hreq]
    rfl
  · obtain ⟨rfl, rfl⟩ := Prod.mk.inj (Except.ok.inj (hr.symm.trans (hnot hc)))
    rw [if_neg hc]
    rfl

theorem InitArgs.vcInit_belongs {user : σ} {logLevel : Int} {returned : Bool}
    (hr : vcInit a user logLevel = .ok (returned, s)) {e : Exchange} (he : e ∈ s.wire) :
    e.request.BelongsTo a ∧ e.request.GoesTo a := by
  have hmem := List.mem_map_of_mem (f := Exchange.request) he
  rw [vcInit_requests hr] at hmem
  split at hmem
  · rw [List.mem_singleton.mp hmem]
    have hpath : Url.Continues AUTH_URL_PATH.bytes := Url.continues_cons (Or.inl rfl) _
    exact ⟨authRequest_belongsTo a user logLevel,
      goesTo_of_continues (authRequest_url a user logLevel) hpath⟩
  · cases hmem

/-- A plan's request belongs to the client's call. -/
theorem Plan.request_belongsTo {p : Plan σ} {g : Setting σ}
    (hurl : g.account.serverUrl = serverUrlOf a.url)
    (hhdrs : g.account.httpHdrs = a.account.httpHdrs) : (p.request lib g).BelongsTo a := by
  constructor
  · refine ⟨p.rsURI ++ queryText lib p.params, ?_⟩
    rw [Plan.request, Plan.url, hurl, CString.append_assoc]
  · rw [Plan.request, hhdrs]
    simp [InitArgs.account]
  · rw [Plan.request, hhdrs]
    intro hdr hhdr
    simpa [InitArgs.account] using hhdr
  · rw [Plan.request]
    simp only [Plan.opts, CurlOpts.setopts_append, setopts_commonOptions]
    cases p.method <;> exact ⟨rfl, rfl⟩

theorem continues_queryText (params : List Param) :
    Url.Continues (queryText lib params).bytes := by
  rw [queryText]
  split
  · exact Url.continues_cons (Or.inr rfl) _
  · rintro c hc
    cases hc

/-- The paths an operation writes itself start with a slash. -/
theorem Op.Rooted.continues {op : Op σ} (hop : op.Rooted) (v : UInt8) :
    Url.Continues (op.outline v).rsURI.bytes := by
  cases op with
  | publish | execute | querySource => exact Url.continues_cons (Or.inl rfl) _
  | _ => exact hop _ rfl

/-- An operation's request goes to the client's server. -/
theorem Op.request_goesTo {op : Op σ} {g : Setting σ} {v : UInt8} (hop : op.Rooted)
    (hurl : g.account.serverUrl = serverUrlOf a.url) :
    ((op.outline v).request lib g).GoesTo a := by
  have hsent : ((op.outline v).request lib g).url = some
      (serverUrlOf a.url ++ ((op.outline v).rsURI ++ queryText lib (op.outline v).params)) := by
    rw [Plan.request, Plan.url, hurl, CString.append_assoc]
  exact goesTo_of_continues hsent
    (Url.continues_append (hop.continues v) (continues_queryText _))

end Requests

/-! ## The requests of a run -/

/-- The call gives the handle `q`, or takes it back. -/
def Call.Touches (q : VME) : Call σ → Prop
  | .init addr _ => addr = q
  | .teardown h _ => h = q
  | _ => False

/-- `a` gave the handle `q`: its `vme_init` was accepted, and no later call gave the handle
again or took it back. -/
def Gave (past : List (Call σ)) (q : VME) (a : InitArgs) : Prop :=
  ∃ before after, past = before ++ .init q a :: after ∧ a.Accepted ∧ ∀ c ∈ after, ¬ c.Touches q

theorem Gave.mono {past : List (Call σ)} {q : VME} {a : InitArgs} {c : Call σ}
    (h : Gave past q a) (hc : ¬ c.Touches q) : Gave (past ++ [c]) q a := by
  obtain ⟨before, after, rfl, ha, hafter⟩ := h
  refine ⟨before, after ++ [c], by simp, ha, ?_⟩
  simp only [List.forall_mem_append, List.forall_mem_singleton]
  exact ⟨hafter, hc⟩

/-- Whose requests a call makes: `vme_init` makes its own, an operation those of the call that
gave its handle. -/
inductive Call.MadeFor (past : List (Call σ)) : Call σ → VME → InitArgs → Prop
  | init {addr : Addr} {a : InitArgs} : MadeFor past (.init addr a) addr a
  | request {h : VME} {op : Op σ} {x : Transfer} {a : InitArgs} :
      Gave past h a → MadeFor past (.request h op x) h a

/-- The call gives no path that goes on the server's name. -/
def Call.Rooted : Call σ → Prop
  | .request _ op _ => op.Rooted
  | _ => True

namespace Sys
variable {lib : Libcurl} {s s' s₀ : Sys σ} {c : Call σ} {past calls : List (Call σ)} {q : VME}
  {P : VME → VantiqClient σ → Prop}

/-- The client is that of the call that gave its handle. -/
def OfCall (past : List (Call σ)) (q : VME) (vc : VantiqClient σ) : Prop :=
  ∃ a, Gave past q a ∧ vc.Of a

/-- A handle that is held before and after a call was neither given nor taken back by it. -/
theorem Step.spares (hstep : Step lib s c s') (hs : s.All P) (hq : q ∈ s.handles)
    (hq' : q ∈ s'.handles) : ¬ c.Touches q := by
  cases hstep with
  | init hne hfree hr => exact fun heq => hs.ne_of_free hq hfree heq.symm
  | teardown husable hr =>
    intro heq
    obtain ⟨-, hkept⟩ := List.mem_filter.mp hq'
    exact absurd heq.symm (by simpa using hkept)
  | callbackState | request => exact id

/-- The client is the one the call made, or was there before it. -/
def MadeOrKept (s : Sys σ) (past : List (Call σ)) (c : Call σ) (q : VME) (vc : VantiqClient σ) :
    Prop :=
  (∃ a, c = .init q a ∧ a.Accepted ∧ vc.Of a) ∨ (q ∈ s.handles ∧ OfCall past q vc)

theorem Step.madeOrKept (hstep : Step lib s c s') (hs : s.All (OfCall past)) :
    s'.All (s.MadeOrKept past c) := by
  have hold : s.All (s.MadeOrKept past c) := by
    intro q hq
    obtain ⟨hne, vc, hp, hrdy, hof⟩ := hs q hq
    exact ⟨hne, vc, hp, hrdy, Or.inr ⟨hq, hof⟩⟩
  refine hstep.all ?_ (fun _ _ _ _ h => h) ?_ hold
  · intro addr a hc _ vc ha hacct _ _
    have hurl := congrArg Account.serverUrl hacct
    exact Or.inl ⟨a, hc, ha, hurl, congrArg Account.httpHdrs hacct⟩
  · rintro h op x hc vc vc' d (⟨a, hinit, -⟩ | ⟨hq, a, hgave, hurl, hhdrs⟩) hset
    · rw [hc] at hinit
      cases hinit
    · exact Or.inr ⟨hq, a, hgave, (congrArg Account.serverUrl hset.account).trans hurl,
        (congrArg Account.httpHdrs hset.account).trans hhdrs⟩

/-- The clients keep what they were opened with. -/
theorem Step.ofCall (hstep : Step lib s c s') (hs : s.All (OfCall past)) :
    s'.All (OfCall (past ++ [c])) := by
  intro q hq
  obtain ⟨hne, vc, hp, hrdy, hof⟩ := hstep.madeOrKept hs q hq
  refine ⟨hne, vc, hp, hrdy, ?_⟩
  rcases hof with ⟨a, rfl, ha, hof⟩ | ⟨hmem, a, hgave, hof⟩
  · exact ⟨a, ⟨past, [], rfl, ha, fun c hc => nomatch hc⟩, hof⟩
  · exact ⟨a, hgave.mono (hstep.spares hs hmem hq), hof⟩

theorem ofCall_of_run (hrun : Run (Step lib) s calls s') (hs : s.All (OfCall past)) :
    s'.All (OfCall (past ++ calls)) := by
  induction hrun generalizing past with
  | nil s => rwa [List.append_nil]
  | cons hstep _ ih =>
    have hrest := ih (hstep.ofCall hs)
    rwa [List.append_assoc, List.singleton_append] at hrest

/-- What a call sends is made for the call that gave its handle. -/
theorem Step.made (hstep : Step lib s c s') (hs : s.All (OfCall past)) :
    ∃ made, s'.world.wire = s.world.wire ++ made ∧
      ∀ qe ∈ made, ∃ a, c.MadeFor past qe.1 a ∧ qe.2.request.BelongsTo a ∧
        (c.Rooted → qe.2.request.GoesTo a) := by
  cases hstep with
  | @init addr a h w hne hfree hr =>
    obtain ⟨⟨returned, t⟩, hv, hret⟩ := bind_eq_ok.mp hr
    obtain ⟨rfl, rfl⟩ := Prod.mk.inj (Except.ok.inj hret)
    refine ⟨_, rfl, fun qe hqe => ?_⟩
    obtain ⟨e, he, rfl⟩ := List.mem_map.mp hqe
    obtain ⟨hbelongs, hgoes⟩ := InitArgs.vcInit_belongs hv he
    exact ⟨a, .init, hbelongs, fun _ => hgoes⟩
  | teardown husable hr =>
    have hnone : ∀ {w : World σ}, w.wire = s.world.wire → w.wire = s.world.wire ++ [] := by simp
    rcases husable.teardown hs hr with ⟨-, rfl⟩ | ⟨-, -, rfl⟩ <;>
      exact ⟨[], hnone rfl, fun qe hqe => nomatch hqe⟩
  | callbackState husable hr =>
    rcases husable.callbackState hs hr with rfl | ⟨-, vc, -, -, -, rfl⟩
    · exact ⟨[], (List.append_nil _).symm, fun qe hqe => nomatch hqe⟩
    · exact ⟨[], rfl, fun qe hqe => nomatch hqe⟩
  | @request h op x r w husable hr =>
    rcases husable with rfl | hh
    · obtain ⟨-, -, rfl⟩ := Op.run_invalid_inv vcFromVme_null hr
      exact ⟨[], (List.append_nil _).symm, fun qe hqe => nomatch hqe⟩
    · obtain ⟨hne, vc, hp, hrdy, a, hgave, hurl, hhdrs⟩ := hs h hh
      obtain ⟨p, vc', hplan, -, -, rfl, -⟩ := Op.run_inv hp hne hrdy hr
      obtain ⟨-, rfl⟩ := Op.plan_eq_some_iff.mp hplan
      refine ⟨_, rfl, fun qe hqe => ?_⟩
      obtain rfl := List.mem_singleton.mp hqe
      exact ⟨a, .request hgave, Plan.request_belongsTo hurl hhdrs,
        fun hroot => Op.request_goesTo hroot hurl⟩

/-- **A token goes to the server it was given with**, and nowhere else: after any run from a
process that holds no handle, every request the next call makes, the authentications included,
starts with the server of the `vme_init` that gave its handle, carries the token of the same
call and beside it no header but two fixed ones, and has the peer's certificate checked.  It is
addressed to that server, unless the caller gives a path that goes on its name. -/
theorem token_to_its_server (h₀ : s₀.handles = []) (hrun : Run (Step lib) s₀ calls s)
    (hstep : Step lib s c s') :
    ∃ made, s'.world.wire = s.world.wire ++ made ∧
      ∀ qe ∈ made, ∃ a, c.MadeFor calls qe.1 a ∧ qe.2.request.BelongsTo a ∧
        (c.Rooted → qe.2.request.GoesTo a) := by
  have hall : s.All (OfCall ([] ++ calls)) := ofCall_of_run hrun (all_of_no_handles h₀)
  exact hstep.made hall

/-- A delete on a new handle. -/
theorem token_to_its_server_delete :
    ∃ (s : Sys Unit) (e : Exchange) (before : List (Addr × Exchange)),
      s.world.wire = before ++ [(8, e)] ∧ e.request.BelongsTo (.sample [] 200) ∧
      e.request.GoesTo (.sample [] 200) := by
  obtain ⟨s, vc, hrun, hh, hp, -⟩ := exists_session [] 200 (by simp)
  have hs : Reachable .plain s := ⟨_, _, rfl, hrun⟩
  obtain ⟨r, w', hr⟩ := hs.run_returns hh hp (.delete (lit "/r") none) emptyResponse
    ⟨id, False.elim⟩ emptyResponse_fits
  obtain ⟨vc₁, p, vc', -, -, -, hw, -⟩ := hs.run_inv hh hr
  have hstep : Step .plain s (.request 8 (.delete (lit "/r") none) emptyResponse)
      ⟨w', s.handles⟩ := .request (Or.inr hh) hr
  obtain ⟨made, hmade, hall⟩ := token_to_its_server rfl hrun hstep
  obtain rfl : made = [(8, p.exchange .plain (s.world.setting vc₁) emptyResponse)] :=
    List.append_cancel_left (hmade.symm.trans (congrArg World.wire hw))
  obtain ⟨a, hfor, hbelongs, hgoes⟩ := hall _ (List.mem_singleton.mpr rfl)
  cases hfor with
  | request hgave =>
    obtain ⟨before, after, hcalls, -⟩ := hgave
    obtain rfl : a = .sample [] 200 := by
      have hmem : Call.init 8 a ∈ [Call.sample [] 200] := hcalls ▸ by simp
      simpa [Call.sample] using hmem
    have hroot : (Op.delete (lit "/r") none : Op Unit).Rooted := by
      rintro path hpath
      obtain rfl := Option.some.inj hpath
      exact Url.continues_cons (Or.inl rfl) _
    exact ⟨⟨w', s.handles⟩, _, _, hmade, hbelongs, hgoes hroot⟩

end Sys

end VantiqMicro
