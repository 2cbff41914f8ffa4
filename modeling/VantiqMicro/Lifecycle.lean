import VantiqMicro.Operations
import VantiqMicro.PercentCoding
import VantiqMicro.Runs

/-! # Handles and the runs of an application

An application obtains handles from `vme_init`, uses them in any order, and gives
them up with `vme_teardown`.  `Sys.Step` is one such call, made with a handle the
application holds or with `NULL`; the network, the allocator and the
application's own arguments are free in every step.  `Sys.Step.all` is what every
later result about runs rests on: a property of clients that `vme_init`
establishes and the calls keep holds of every client behind a held handle, in
every reachable state. -/

namespace VantiqMicro
open CMem

variable {σ : Type}

/-! ## Initialisation -/

/-- The URL without its trailing slash. -/
def serverUrlOf (url : CString) : CString :=
  if url.bytes.getLast? = some 47 then
    ⟨url.bytes.dropLast, fun h => url.nulFree (List.mem_of_mem_take (List.dropLast_eq_take ▸ h))⟩
  else url

/-- The `Authorization` header. -/
def authHdr (authToken : CString) : CString := AUTH_HDR_KEY ++ authToken

theorem createAuthHdr_eq (token : CString) :
    createAuthHdr token = .ok ((authHdr token).toBlock ++ malloc 1) := by
  have hsize : token.length + (AUTH_HDR_KEY.length + 1) + 1 - (AUTH_HDR_KEY.length + 1) =
      token.length + 1 := by omega
  have hcpy := Block.strcpy_malloc (n := token.length + (AUTH_HDR_KEY.length + 1) + 1)
    (s := AUTH_HDR_KEY) (by omega)
  have hend := Block.strcpy_end (s := AUTH_HDR_KEY) (t := token) (k := token.length + 1) (by omega)
  rw [Nat.add_sub_cancel_left] at hend
  rw [hsize] at hcpy
  simp only [createAuthHdr, hcpy, ok_bind, Nat.add_sub_cancel (m := 1), hend]
  rfl

/-- The trailing slash is cut off in a block that has room for the terminator. -/
theorem trimSlash_eq {url : CString} (h : url.lastChar = .ok 47) :
    (do
      let serverUrl ← (malloc url.length).memcpy 0 (cells url.bytes) 0 (url.length - 1)
      serverUrl.store (url.length - 1) [some 0]) = .ok (serverUrlOf url).toBlock := by
  have hlast := CString.lastChar_eq_ok.mp h
  have hne : url.bytes ≠ [] := by
    rintro h0
    rw [h0] at hlast
    cases hlast
  have hpos : 0 < url.bytes.length := List.length_pos_iff.mpr hne
  have hload : (cells url.bytes).load 0 (url.length - 1) = .ok (cells url.bytes.dropLast) := by
    refine Block.load_eq_ok.mpr ⟨by simp [CString.length], ?_⟩
    rw [List.drop_zero, cells, cells, ← List.map_take, List.dropLast_eq_take, CString.length]
  have hlen : url.bytes.dropLast.length = url.length - 1 := List.length_dropLast
  have hcopy := fun d => Block.memcpy_terminate_eq_ok (n := url.length) (d := d) hload
  rw [hlen] at hcopy
  have hroom : url.length - (url.length - 1 + 1) = 0 := by
    unfold CString.length
    omega
  rw [(hcopy _).mpr ⟨by unfold CString.length; omega, rfl⟩, hroom, serverUrlOf, if_pos hlast]
  rfl

/-- **`vc_init` keeps the URL without its trailing slash**, unless it is empty. -/
theorem copyUrl_eq {url : CString} {last : UInt8} (hu : url.lastChar = .ok last) :
    copyUrl url = .ok (serverUrlOf url).toBlock := by
  simp only [copyUrl, hu, ok_bind]
  by_cases h47 : last = 47
  · rw [if_pos h47]
    exact trimSlash_eq (h47 ▸ hu)
  · have hlast := CString.lastChar_eq_ok.mp hu
    rw [if_neg h47, serverUrlOf, if_neg (by rw [hlast]; simpa using h47)]
    rfl

/-- The client `vc_init` builds before it connects. -/
def InitArgs.client (a : InitArgs) : VantiqClient σ where
  magic := VC_MAGIC
  apiVersion := a.apiVersion
  resultCount := 0
  curl := none
  serverUrl := serverUrlOf a.url
  httpHdrs := [authHdr a.authToken]
  recvBuf := vmebufAlloc
  recvCallback := none
  callbackState := 0
  sendState := { base := none, readptr := 0, sizeleft := 0 }

/-- What authentication leaves of the session `s`. -/
structure Session.Authenticated (s s' : Session σ) (auth : Transfer) : Prop where
  magic : s'.vc.magic = s.vc.magic
  apiVersion : s'.vc.apiVersion = s.vc.apiVersion
  serverUrl : s'.vc.serverUrl = s.vc.serverUrl
  httpHdrs : s'.vc.httpHdrs = s.vc.httpHdrs ++ [JSON_CONTENTTYPE] ++ [lit "Expect:"]
  callbackState : s'.vc.callbackState = s.vc.callbackState
  recvCallback : s'.vc.recvCallback = none
  curl : s'.vc.curl = some { opts := {}, responseCode := auth.status }
  recvBuf : s'.vc.recvBuf.Sound
  send : s'.vc.sendState = s.vc.sendState
  /-- The count of the authentication response stays behind. -/
  resultCount : s'.vc.resultCount = lastCount s.vc.resultCount auth.headers
  user : s'.user = s.user
  wire : ∃ e : Exchange, s'.wire = s.wire ++ [e] ∧ e.res = auth.res ∧ e.status = auth.status

section Authenticate
variable {auth : Transfer} {s s' : Session σ} {c : Curl}

/-- The options of the authentication request. -/
def authOpts (s : Session σ) : CurlOpts :=
  (({} : CurlOpts).setopts (commonOptions s.logLevel s.vc.httpHdrs)).setopts
    [.url (s.vc.serverUrl ++ AUTH_URL_PATH), .httpGet]

theorem authOpts_spec : (authOpts s).Hooked ∧ (authOpts s).uploads = false := by
  unfold authOpts
  rw [setopts_commonOptions]
  exact ⟨⟨rfl, rfl, rfl, rfl, rfl, rfl⟩, rfl⟩

/-- The session as it goes into the authentication transfer. -/
def authSession (s : Session σ) : Session σ :=
  { s with vc.curl := s.vc.curl.map fun c => { c with opts := authOpts s } }

theorem authUrl_length_lt (s : Session σ) :
    (s.vc.serverUrl ++ AUTH_URL_PATH).length <
      s.vc.serverUrl.length + (AUTH_URL_PATH.length + 1) := by
  rw [CString.length_append]
  omega

theorem authenticate_eq (hle : (s.vc.serverUrl ++ AUTH_URL_PATH).length ≤ INT_MAX) :
    authenticate auth s = (do
      let (s, result, _) ← (authSession s).perform auth
      let s := { s with vc.httpHdrs := s.vc.httpHdrs ++ [JSON_CONTENTTYPE] ++ [lit "Expect:"] }
      let httpCode : Nat := (s.vc.curl.map Curl.responseCode).getD 0
      if result ≠ CURLE_OK ∧ httpCode ≠ 200 then
        return (false, s.reset)
      else
        return (true, s.reset)) := by
  simp only [authenticate, commonCurlSetup, Session.setopts_eq, Session.reset, Session.setopt,
    Block.snprintf_of_le hle (authUrl_length_lt s), ok_bind, Block.readString_append, authSession,
    authOpts]
  cases hc : s.vc.curl <;> rfl

/-- A URL whose length is no `int` is not printed, and what stands in its place is no string. -/
theorem authUrl_fits (hr : ∃ r, authenticate auth s = .ok r) :
    (s.vc.serverUrl ++ AUTH_URL_PATH).length ≤ INT_MAX := by
  by_contra hlt
  obtain ⟨r, hr⟩ := hr
  simp only [authenticate, commonCurlSetup, Session.setopts_eq, Session.reset,
    Block.snprintf_of_lt (Nat.lt_of_not_le hlt), ok_bind, Block.readString_malloc,
    error_bind] at hr
  cases hr

/-- The authentication transfer's fold. -/
def authOutcome (auth : Transfer) (s : Session σ) : Intake σ × List Callback × Bool :=
  Intake.events ⟨none, s.vc.callbackState, false⟩
    ⟨[], s.vc.resultCount, s.user, s.vc.sendState⟩ auth.events

theorem authOutcome_spec (auth : Transfer) (s : Session σ) :
    (authOutcome auth s).2.2 = true ∧ (authOutcome auth s).1.user = s.user ∧
      (authOutcome auth s).1.count = lastCount s.vc.resultCount auth.headers ∧
      (authOutcome auth s).1.send = s.vc.sendState ∧
      (Fits s.vc.sendState (authOutcome auth s).2.1 ↔ ∀ line ∈ auth.headers, HeaderFits line) := by
  obtain ⟨hdone, huser, -, -, hheaders⟩ :
      (authOutcome auth s).2.2 = true ∧ (authOutcome auth s).1.user = s.user ∧ _ ∧ _ ∧
        (authOutcome auth s).2.1.flatMap Callback.headerOf = auth.headers :=
    Intake.events_of_none rfl
  have hcount : (authOutcome auth s).1.count =
      lastCount s.vc.resultCount ((authOutcome auth s).2.1.flatMap Callback.headerOf) :=
    Intake.count_events
  obtain ⟨hsend, hreads⟩ : (authOutcome auth s).1.send = s.vc.sendState ∧
      (authOutcome auth s).2.1.flatMap Callback.readOf = [] := Intake.events_of_not_uploads rfl
  have hheadersFit : HeadersFit (authOutcome auth s).2.1 ↔
      ∀ line ∈ auth.headers, HeaderFits line := by rw [HeadersFit, hheaders]
  rw [hheaders] at hcount
  refine ⟨hdone, huser, hcount, hsend, fun h => hheadersFit.mp h.headers, fun h => ?_⟩
  exact ⟨hheadersFit.mpr h, fun _ => hreads⟩

/-- The session is the fold's initial state. -/
theorem authSession_shows (hbuf : s.vc.recvBuf.Holds []) (hbase : s.vc.sendState.base = none) :
    (authSession s).Shows ⟨[], s.vc.resultCount, s.user, s.vc.sendState⟩ := by
  refine ⟨hbuf, rfl, rfl, rfl, fun base hb => ?_⟩
  rw [hbase] at hb
  cases hb

theorem authSession_hooks (hcb : s.vc.recvCallback = none) :
    (authSession s).hooks (authOpts s) = ⟨none, s.vc.callbackState, false⟩ := by
  rw [Session.hooks, authOpts_spec.2]
  simp only [authSession, hcb]

theorem authSession_curl (hc : s.vc.curl = some c) :
    (authSession s).vc.curl = some { c with opts := authOpts s } := by
  simp [authSession, hc]

/-- **Authentication passes unless transfer and status both fail**; a header line
that overruns and a URL that is not printed are the only faults. -/
theorem authenticate_refines (hc : s.vc.curl = some c) (hbuf : s.vc.recvBuf.Holds [])
    (hcb : s.vc.recvCallback = none) (hbase : s.vc.sendState.base = none)
    (hle : (s.vc.serverUrl ++ AUTH_URL_PATH).length ≤ INT_MAX)
    (hfit : ∀ line ∈ auth.headers, HeaderFits line) :
    ∃ s', authenticate auth s = .ok (decide (auth.res = CURLE_OK ∨ auth.status = 200), s') ∧
      s.Authenticated s' auth := by
  obtain ⟨hdone, huser, hcount, hsend, hfits⟩ := authOutcome_spec auth s
  obtain ⟨s₁, h₁, hs₁, hf₁⟩ := Session.callbacks_refines authOpts_spec.1
    (authSession_hooks hcb) (authSession_shows hbuf hbase) (hfits.mpr hfit)
  let e : Exchange :=
    { request := (authSession s).request (authOpts s), callbacks := (authOutcome auth s).2.1
      res := auth.res, status := auth.status }
  have hfinal : authenticate auth s = .ok (decide (auth.res = CURLE_OK ∨ auth.status = 200),
      Session.reset { s₁ with
        vc.curl := some { opts := authOpts s, responseCode := auth.status }
        vc.httpHdrs := s₁.vc.httpHdrs ++ [JSON_CONTENTTYPE] ++ [lit "Expect:"]
        wire := s₁.wire ++ [e] }) := by
    have hdone' : (Intake.events _ _ auth.events).2.2 = true := hdone
    rw [authenticate_eq hle]
    simp only [Session.perform, authSession_curl hc, h₁, ok_bind, hdone', if_true]
    by_cases hres : auth.res = CURLE_OK <;> by_cases hst : auth.status = 200 <;>
      simp [hres, hst, e, authOutcome]
  refine ⟨_, hfinal, hf₁.magic, hf₁.apiVersion, hf₁.serverUrl, ?_, hf₁.callbackState,
    hf₁.recvCallback.trans hcb, rfl, hs₁.recvBuf.toSound, hs₁.send.trans hsend,
    hs₁.resultCount.trans hcount, hs₁.user.trans huser, e, ?_, rfl, rfl⟩
  · exact congrArg (· ++ [JSON_CONTENTTYPE] ++ [lit "Expect:"]) hf₁.httpHdrs
  · exact congrArg (· ++ [e]) hf₁.wire

/-- Authentication that returns met no header line that overruns. -/
theorem headerFits_of_authenticate (hc : s.vc.curl = some c) (hbuf : s.vc.recvBuf.Holds [])
    (hcb : s.vc.recvCallback = none) (hbase : s.vc.sendState.base = none)
    {r : Bool × Session σ} (hr : authenticate auth s = .ok r) :
    ∀ line ∈ auth.headers, HeaderFits line := by
  rw [authenticate_eq (authUrl_fits ⟨r, hr⟩)] at hr
  obtain ⟨r₁, h₁, -⟩ := bind_eq_ok.mp hr
  simp only [Session.perform, authSession_curl hc] at h₁
  obtain ⟨r₂, h₂, -⟩ := bind_eq_ok.mp h₁
  exact (authOutcome_spec auth s).2.2.2.2.mp (Session.fits_of_callbacks authOpts_spec.1
    (authSession_hooks hcb) (authSession_shows hbuf hbase) h₂)

end Authenticate

namespace InitArgs
variable {a : InitArgs} {user : σ} {logLevel : Int} {returned : Bool} {s : Session σ}

/-- The HTTP stack came up, so the authentication request was made. -/
def Connects (a : InitArgs) : Prop := a.globalInit = CURLE_OK ∧ a.easyInit = true

/-- What `vc_init` goes by: it returns the client unless the transfer failed and the
status is not 200. -/
def Accepted (a : InitArgs) : Prop :=
  a.Connects ∧ (a.auth.res = CURLE_OK ∨ a.auth.status = 200)

instance (a : InitArgs) : Decidable a.Connects := inferInstanceAs (Decidable (_ ∧ _))

instance (a : InitArgs) : Decidable a.Accepted := inferInstanceAs (Decidable (_ ∧ _))

/-- The account of the client `vc_init` returns. -/
def account (a : InitArgs) : Account where
  apiVersion := a.apiVersion
  serverUrl := serverUrlOf a.url
  httpHdrs := [authHdr a.authToken] ++ [JSON_CONTENTTYPE] ++ [lit "Expect:"]
  callbackState := 0

/-- The URL of the authentication request. -/
def authUrl (a : InitArgs) : CString := serverUrlOf a.url ++ AUTH_URL_PATH

/-- The session of `vc_init` before it connects. -/
def session (a : InitArgs) (user : σ) (logLevel : Int) : Session σ :=
  { vc := a.client, user, logLevel, wire := [] }

theorem vcInit_eq {last : UInt8} (user : σ) (logLevel : Int) (hu : a.url.lastChar = .ok last) :
    (¬ a.Connects → vcInit a user logLevel = .ok (false, a.session user logLevel)) ∧
      (a.Connects → vcInit a user logLevel =
        authenticate a.auth { a.session user logLevel with vc.curl := some {} }) := by
  simp only [vcInit, createAuthHdr_eq, ok_bind, Block.readString_append, copyUrl_eq hu,
    Block.readString_toBlock, Connects]
  constructor
  · intro h
    by_cases hg : a.globalInit = CURLE_OK
    · have he : a.easyInit = false := by simpa [hg] using h
      rw [if_neg (not_not.mpr hg), if_pos he]
      rfl
    · rw [if_pos hg]
      rfl
  · rintro ⟨hg, he⟩
    rw [if_neg (not_not.mpr hg), if_neg (by simp [he])]
    rfl

/-- `vc_init` reads the URL's last character before anything else can fail. -/
theorem lastChar_of_vcInit (hr : vcInit a user logLevel = .ok (returned, s)) :
    ∃ last, a.url.lastChar = .ok last := by
  simp only [vcInit, createAuthHdr_eq, ok_bind, Block.readString_append] at hr
  obtain ⟨block, hcopy, -⟩ := bind_eq_ok.mp hr
  obtain ⟨last, hlast, -⟩ := bind_eq_ok.mp hcopy
  exact ⟨last, hlast⟩

/-- What the authentication request leaves of the new client. -/
theorem authenticated_spec
    (h : ({ a.session user logLevel with vc.curl := some {} } : Session σ).Authenticated s a.auth) :
    s.user = user ∧ s.vc.Ready ∧ s.vc.account = a.account ∧
      s.vc.resultCount = lastCount 0 a.auth.headers ∧ s.vc.sendState.sizeleft = 0 := by
  refine ⟨h.user, ⟨h.magic, ⟨_, h.curl⟩, h.recvBuf, h.recvCallback,
    congrArg VcSendstate.base h.send⟩, ?_, h.resultCount, congrArg VcSendstate.sizeleft h.send⟩
  simp only [VantiqClient.account, h.apiVersion, h.serverUrl, h.httpHdrs, h.callbackState]
  rfl

/-- **How `vc_init` returns**: with the client as it was set up if it cannot connect, else
with what the authentication leaves of it. -/
theorem vcInit_inv (hr : vcInit a user logLevel = .ok (returned, s)) :
    (¬ a.Connects ∧ returned = false ∧ s = a.session user logLevel) ∨
      (a.Connects ∧ returned = decide (a.auth.res = CURLE_OK ∨ a.auth.status = 200) ∧
        ({ a.session user logLevel with vc.curl := some {} } : Session σ).Authenticated s
          a.auth) := by
  obtain ⟨last, hu⟩ := lastChar_of_vcInit hr
  obtain ⟨hnot, hyes⟩ := vcInit_eq user logLevel hu
  by_cases hc : a.Connects
  · rw [hyes hc] at hr
    have hfit := headerFits_of_authenticate rfl VmeBuf.holds_alloc rfl rfl hr
    obtain ⟨s', hs', h'⟩ := authenticate_refines
      (s := { a.session user logLevel with vc.curl := some {} }) rfl VmeBuf.holds_alloc rfl rfl
      (authUrl_fits ⟨_, hr⟩) hfit
    obtain ⟨rfl, rfl⟩ := Prod.mk.inj (Except.ok.inj (hr.symm.trans hs'))
    exact Or.inr ⟨hc, rfl, h'⟩
  · obtain ⟨rfl, rfl⟩ := Prod.mk.inj (Except.ok.inj (hr.symm.trans (hnot hc)))
    exact Or.inl ⟨hc, rfl, rfl⟩

/-- **What `vc_init` returns, if it returns**: a client between operations, when it
goes by the authentication; the count of the authentication response is on it. -/
theorem vcInit_ok (hr : vcInit a user logLevel = .ok (returned, s)) :
    s.user = user ∧ (returned = true ↔ a.Accepted) ∧
      (returned = true → s.vc.Ready ∧ s.vc.account = a.account ∧
        s.vc.resultCount = lastCount 0 a.auth.headers ∧ s.vc.sendState.sizeleft = 0) := by
  rcases vcInit_inv hr with ⟨hc, rfl, rfl⟩ | ⟨hc, rfl, h⟩
  · exact ⟨rfl, by simp [Accepted, hc], fun h => absurd h (by decide)⟩
  · obtain ⟨huser, hrest⟩ := authenticated_spec h
    exact ⟨huser, by simp [Accepted, hc], fun _ => hrest⟩

/-- The client stands there marked as one, also when it is given up. -/
theorem magic_of_vcInit (hr : vcInit a user logLevel = .ok (returned, s)) :
    s.vc.magic = VC_MAGIC := by
  rcases vcInit_inv hr with ⟨-, -, rfl⟩ | ⟨-, -, h⟩
  · rfl
  · exact h.magic

/-- `vc_init` returns, for a URL that is not empty and can be printed. -/
theorem vcInit_returns (user : σ) (logLevel : Int) (hu : a.url.bytes ≠ [])
    (hle : a.authUrl.length ≤ INT_MAX) (hfit : ∀ line ∈ a.auth.headers, HeaderFits line)
    (ha : a.Accepted) : ∃ s : Session σ, vcInit a user logLevel = .ok (true, s) := by
  obtain ⟨last, hlast⟩ := CString.exists_lastChar hu
  obtain ⟨s', hs', -⟩ := authenticate_refines
    (s := { a.session user logLevel with vc.curl := some {} }) rfl VmeBuf.holds_alloc rfl rfl
    hle hfit
  exact ⟨s', by rw [(vcInit_eq user logLevel hlast).2 ha.1, hs', decide_eq_true ha.2]⟩

end InitArgs

/-! ## Runs -/

/-- A call an application makes, with what the network and the allocator do to it. -/
inductive Call (σ : Type)
  | init (addr : Addr) (a : InitArgs)
  | teardown (h : VME) (left : UInt8)
  | callbackState (h : VME) (state : Ptr)
  | request (h : VME) (op : Op σ) (x : Transfer)

/-- The process, and the handles the application holds: those `vme_init` returned
and that were not torn down. -/
structure Sys (σ : Type) where
  world : World σ
  handles : List VME

namespace Sys

/-- The application may pass `NULL` and the handles it holds. -/
def Usable (s : Sys σ) (h : VME) : Prop := h = NULL ∨ h ∈ s.handles

/-- One call that returns.  The allocator places a new client where none is. -/
inductive Step (lib : Libcurl) : Sys σ → Call σ → Sys σ → Prop
  | init {s : Sys σ} {addr : Addr} {a : InitArgs} {h : VME} {w : World σ} :
      addr ≠ NULL → (∀ vc, s.world.heap addr ≠ .client vc) → vmeInit s.world addr a = .ok (h, w) →
      Step lib s (.init addr a) ⟨w, if h = NULL then s.handles else h :: s.handles⟩
  | teardown {s : Sys σ} {h : VME} {left : UInt8} {w : World σ} :
      s.Usable h → vmeTeardown s.world h left = .ok w →
      Step lib s (.teardown h left) ⟨w, s.handles.filter (· ≠ h)⟩
  | callbackState {s : Sys σ} {h : VME} {state : Ptr} {w : World σ} :
      s.Usable h → vmeCallbackState s.world h state = .ok w →
      Step lib s (.callbackState h state) ⟨w, s.handles⟩
  | request {s : Sys σ} {h : VME} {op : Op σ} {x : Transfer} {r : Option VmeResult} {w : World σ} :
      s.Usable h → op.run lib s.world h x = .ok (r, w) →
      Step lib s (.request h op x) ⟨w, s.handles⟩

/-- Every held handle is that of a client between operations that satisfies `P`. -/
def All (P : VME → VantiqClient σ → Prop) (s : Sys σ) : Prop :=
  ∀ h ∈ s.handles, h ≠ NULL ∧ ∃ vc, s.world.heap h = .client vc ∧ vc.Ready ∧ P h vc

section Step
variable {lib : Libcurl} {s s' : Sys σ} {c : Call σ} {P : VME → VantiqClient σ → Prop}
  {w w' : World σ} {h q : VME} {vc : VantiqClient σ}

theorem vmeTeardown_client (hp : w.heap h = .client vc) (hne : h ≠ NULL)
    (hm : vc.magic = VC_MAGIC) (left : UInt8) :
    vmeTeardown w h left = .ok (w.put h (.other left)) := by
  simp only [vmeTeardown, vcFromVme_client hp hne hm, ok_bind, hp, pure_eq_ok]

theorem vmeCallbackState_client (hp : w.heap h = .client vc) (hne : h ≠ NULL)
    (hm : vc.magic = VC_MAGIC) (state : Ptr) :
    vmeCallbackState w h state =
      .ok (w.leave h { w.session vc with vc.callbackState := state }) := by
  simp only [vmeCallbackState, vcFromVme_client hp hne hm, ok_bind]
  rw [World.onClient_modify hp fun s => { s with vc.callbackState := state }]
  rfl

/-- A held handle is not where a new client is placed. -/
theorem All.ne_of_free (hs : s.All P) (hq : q ∈ s.handles) {addr : Addr}
    (hfree : ∀ vc, s.world.heap addr ≠ .client vc) : q ≠ addr := by
  rintro rfl
  obtain ⟨-, vc, hp, -⟩ := hs q hq
  exact hfree vc hp

/-- The clients behind the other handles are not touched. -/
theorem All.of_heap (hs : s.All P) (hq : q ∈ s.handles) (heq : w.heap q = s.world.heap q) :
    q ≠ NULL ∧ ∃ vc, w.heap q = .client vc ∧ vc.Ready ∧ P q vc := by
  rw [heq]
  exact hs q hq

/-- What a `vme_teardown` that returns did. -/
theorem Usable.teardown (hu : s.Usable h) (hs : s.All P) {left : UInt8}
    (hr : vmeTeardown s.world h left = .ok w) :
    (h = NULL ∧ w = s.world) ∨
      (h ∈ s.handles ∧ h ≠ NULL ∧ w = s.world.put h (.other left)) := by
  rcases hu with rfl | hh
  · cases hr
    exact Or.inl ⟨rfl, rfl⟩
  · obtain ⟨hne, vc, hp, hrdy, -⟩ := hs h hh
    rw [vmeTeardown_client hp hne hrdy.magic] at hr
    exact Or.inr ⟨hh, hne, (Except.ok.inj hr).symm⟩

/-- What a `vme_callback_state` that returns did. -/
theorem Usable.callbackState (hu : s.Usable h) (hs : s.All P) {state : Ptr}
    (hr : vmeCallbackState s.world h state = .ok w) :
    w = s.world ∨ h ∈ s.handles ∧ ∃ vc, h ≠ NULL ∧ vc.Ready ∧ P h vc ∧
      w = s.world.leave h { s.world.session vc with vc.callbackState := state } := by
  rcases hu with rfl | hh
  · cases hr
    exact Or.inl rfl
  · obtain ⟨hne, vc, hp, hrdy, hP⟩ := hs h hh
    rw [vmeCallbackState_client hp hne hrdy.magic] at hr
    exact Or.inr ⟨hh, vc, hne, hrdy, hP, (Except.ok.inj hr).symm⟩

/-- What an operation that returns did: nothing through `NULL`, and through a held
handle one exchange, which left a client between operations. -/
theorem Usable.request (hu : s.Usable h) (hs : s.All P) {op : Op σ} {x : Transfer}
    {r : Option VmeResult} (hr : op.run lib s.world h x = .ok (r, w)) :
    w = s.world ∨ h ∈ s.handles ∧ ∃ vc vc' d e, h ≠ NULL ∧ P h vc ∧
      vc'.Settled vc d ∧ w = s.world.after h vc' d.user e := by
  rcases hu with rfl | hh
  · exact Or.inl (Op.run_invalid_inv vcFromVme_null hr).2.2
  · obtain ⟨hne, vc, hp, hrdy, hP⟩ := hs h hh
    obtain ⟨p, vc', -, -, -, rfl, hset⟩ := Op.run_inv hp hne hrdy hr
    exact Or.inr ⟨hh, vc, vc', _, _, hne, hP, hset, rfl⟩

/-- **A property of clients that the calls keep holds behind every held handle.** -/
theorem Step.all (hstep : Step lib s c s')
    (hinit : ∀ addr a, c = .init addr a → addr ∉ s.handles → ∀ vc : VantiqClient σ, a.Accepted →
      vc.account = a.account → vc.resultCount = lastCount 0 a.auth.headers →
      vc.sendState.sizeleft = 0 → P addr vc)
    (hstate : ∀ h state, c = .callbackState h state → ∀ vc, P h vc →
      P h { vc with callbackState := state })
    (hrequest : ∀ h op x, c = .request h op x → ∀ (vc vc' : VantiqClient σ) d, P h vc →
      vc'.Settled vc d → P h vc')
    (hs : s.All P) : s'.All P := by
  cases hstep with
  | @init addr a h w hne hfree hr =>
    obtain ⟨⟨returned, t⟩, hv, hret⟩ := bind_eq_ok.mp hr
    obtain ⟨rfl, rfl⟩ := Prod.mk.inj (Except.ok.inj hret)
    obtain ⟨-, hacc, hready⟩ := InitArgs.vcInit_ok hv
    have hold : ∀ q ∈ s.handles, q ≠ NULL ∧ ∃ vc, (s.world.leave addr t).heap q = .client vc ∧
        vc.Ready ∧ P q vc := by
      intro q hq
      exact hs.of_heap hq (World.leave_heap_of_ne (hs.ne_of_free hq hfree))
    cases returned with
    -- a client that is given up stands at the address, but no handle leads there
    | false => exact hold
    | true =>
      obtain ⟨hrdy, hacct, hcount, hleft⟩ := hready rfl
      have hnew : addr ∉ s.handles := fun hq => hs.ne_of_free hq hfree rfl
      intro q hq
      simp only [if_true, if_neg hne, List.mem_cons] at hq
      rcases hq with rfl | hq
      · exact ⟨hne, t.vc, World.leave_heap_self, hrdy,
          hinit q a rfl hnew t.vc (hacc.mp rfl) hacct hcount hleft⟩
      · exact hold q hq
  | @teardown h left w husable hr =>
    intro q hq
    obtain ⟨hmem, hqh⟩ := List.mem_filter.mp hq
    rcases husable.teardown hs hr with ⟨-, rfl⟩ | ⟨-, -, rfl⟩
    · exact hs q hmem
    · exact hs.of_heap hmem (World.put_heap_of_ne (by simpa using hqh))
  | @callbackState h state w husable hr =>
    intro q hq
    rcases husable.callbackState hs hr with rfl | ⟨-, vc, hne, hrdy, hP, rfl⟩
    · exact hs q hq
    -- the client behind `h` changed; no other handle leads to it
    · by_cases hqh : q = h
      · subst hqh
        exact ⟨hne, _, World.leave_heap_self,
          ⟨hrdy.magic, hrdy.curl, hrdy.recvBuf, hrdy.recvCallback, hrdy.base⟩,
          hstate q state rfl vc hP⟩
      · exact hs.of_heap hq (World.leave_heap_of_ne hqh)
  | @request h op x r w husable hr =>
    intro q hq
    rcases husable.request hs hr with rfl | ⟨-, vc, vc', d, e, hne, hP, hset, rfl⟩
    · exact hs q hq
    · by_cases hqh : q = h
      · subst hqh
        exact ⟨hne, vc', World.put_heap_self, hset.toReady,
          hrequest q op x rfl vc vc' d hP hset⟩
      · exact hs.of_heap hq (World.put_heap_of_ne hqh)

/-- No call changes the log level. -/
theorem Step.logLevel (hstep : Step lib s c s') (hs : s.All P) :
    s'.world.logLevel = s.world.logLevel := by
  cases hstep with
  | init _ _ hr =>
    obtain ⟨⟨returned, t⟩, -, hret⟩ := bind_eq_ok.mp hr
    cases hret
    rfl
  | teardown husable hr =>
    rcases husable.teardown hs hr with ⟨-, rfl⟩ | ⟨-, -, rfl⟩ <;> rfl
  | callbackState husable hr =>
    rcases husable.callbackState hs hr with rfl | ⟨-, vc, -, -, -, rfl⟩ <;> rfl
  | request husable hr =>
    rcases husable.request hs hr with rfl | ⟨-, vc, vc', d, e, -, -, -, rfl⟩ <;> rfl

/-- A handle is held until it is torn down. -/
theorem Step.mem_handles (hstep : Step lib s c s') (hh : h ∈ s.handles)
    (hc : ∀ left, c ≠ .teardown h left) : h ∈ s'.handles := by
  cases hstep with
  | init _ _ _ =>
    simp only
    split
    · exact hh
    · exact List.mem_cons_of_mem _ hh
  | @teardown h' left w husable hr =>
    refine List.mem_filter.mpr ⟨hh, ?_⟩
    simp only [ne_eq, decide_not, Bool.not_eq_true', decide_eq_false_iff_not]
    rintro rfl
    exact hc left rfl
  | callbackState _ _ => exact hh
  | request _ _ => exact hh

end Step

/-! ## Reachable states -/

section Reachable
variable {lib : Libcurl} {s₀ s s' : Sys σ} {calls : List (Call σ)} {h : VME}

/-- The state of some run from a start without handles. -/
def Reachable (lib : Libcurl) (s : Sys σ) : Prop :=
  ∃ s₀ calls, s₀.handles = [] ∧ Run (Step lib) s₀ calls s

theorem all_of_no_handles {P : VME → VantiqClient σ → Prop} (h : s.handles = []) : s.All P := by
  intro q hq
  rw [h] at hq
  cases hq

/-- **Behind every held handle stands a client between operations**, in every
reachable state. -/
theorem Reachable.ready (hs : Reachable lib s) (hh : h ∈ s.handles) :
    h ≠ NULL ∧ ∃ vc, s.world.heap h = .client vc ∧ vc.Ready := by
  obtain ⟨s₀, calls, h₀, hrun⟩ := hs
  have hall : s.All fun _ _ => True := hrun.invariant
    (P := fun _ => True)
    (fun s c t hst _ hi => hst.all (fun _ _ _ _ _ _ _ _ _ => trivial) (fun _ _ _ _ _ => trivial)
      (fun _ _ _ _ _ _ _ _ _ => trivial) hi)
    (fun _ _ => trivial) (all_of_no_handles h₀)
  obtain ⟨hne, vc, hp, hrdy, -⟩ := hall h hh
  exact ⟨hne, vc, hp, hrdy⟩

/-- What an operation on a held handle did, if it returned. -/
theorem Reachable.run_inv (hs : Reachable lib s) (hh : h ∈ s.handles) {op : Op σ} {x : Transfer}
    {r : Option VmeResult} {w' : World σ} (hrun : op.run lib s.world h x = .ok (r, w')) :
    ∃ vc p vc', s.world.heap h = .client vc ∧ op.plan vc.apiVersion = some p ∧
      r = some (p.result lib (s.world.setting vc) x) ∧
      w' = s.world.after h vc' (p.outcome (s.world.setting vc) x).1.user
        (p.exchange lib (s.world.setting vc) x) ∧
      vc'.Settled vc (p.outcome (s.world.setting vc) x).1 := by
  obtain ⟨hne, vc, hp, hrdy⟩ := hs.ready hh
  obtain ⟨p, vc', hplan, -, hr, hw, hset⟩ := Op.run_inv hp hne hrdy hrun
  exact ⟨vc, p, vc', hp, hplan, hr, hw, hset⟩

/-- **An operation on a held handle returns**, unless its arguments make it fault, a header
line overruns, or a patch without a document finds that an earlier upload left something. -/
theorem Reachable.run_returns (hs : Reachable lib s) (hh : h ∈ s.handles) {vc : VantiqClient σ}
    (hp : s.world.heap h = .client vc) (op : Op σ) (x : Transfer) (hop : op.Defined vc)
    (hfit : ∀ line ∈ x.headers, HeaderFits line) :
    ∃ r w', op.run lib s.world h x = .ok (some r, w') := by
  obtain ⟨hne, vc', hp', hrdy⟩ := hs.ready hh
  obtain rfl := Referent.client.inj (hp.symm.trans hp')
  have hplan := Op.plan_eq_some_iff.mpr ⟨hop.faults, rfl⟩
  have hcalls : HeadersFit ((op.outline vc.apiVersion).outcome (s.world.setting vc) x).2.1 :=
    fun line hl => hfit line (Intake.headers_subset hl)
  obtain ⟨vc', hrun, -⟩ := Op.run_refines lib hp hne hrdy hplan
    (Op.fits_of_headers hplan hop.left hcalls)
  exact ⟨_, _, hrun⟩

/-- A handle from an accepted `vme_init`, in a state that is reachable. -/
theorem exists_reachable (lib : Libcurl) (w : World σ) (addr : Addr) (a : InitArgs)
    (hne : addr ≠ NULL) (hfree : ∀ vc, w.heap addr ≠ .client vc) (hu : a.url.bytes ≠ [])
    (hle : a.authUrl.length ≤ INT_MAX) (hfit : ∀ line ∈ a.auth.headers, HeaderFits line)
    (ha : a.Accepted) :
    ∃ s : Sys σ, Run (Step lib) ⟨w, []⟩ [.init addr a] s ∧ s.handles = [addr] ∧
      s.world.user = w.user ∧ ∃ vc, s.world.heap addr = .client vc ∧ vc.Ready ∧
        vc.account = a.account ∧ vc.resultCount = lastCount 0 a.auth.headers ∧
        vc.sendState.sizeleft = 0 := by
  obtain ⟨t, ht⟩ := InitArgs.vcInit_returns w.user w.logLevel hu hle hfit ha
  obtain ⟨huser, -, hready⟩ := InitArgs.vcInit_ok ht
  obtain ⟨hrdy, hspec⟩ := hready rfl
  have hinit : vmeInit w addr a = .ok (addr, w.leave addr t) := by
    rw [vmeInit, ht, ok_bind]
    rfl
  refine ⟨_, .cons (.init hne hfree hinit) (.nil _), by simp [hne], huser, t.vc,
    World.leave_heap_self, hrdy, hspec⟩

end Reachable

end Sys

/-! ## A first session

A process that has just called `vme_init` with success, to run the results below
on. -/

/-- A libcurl that escapes every byte but the unreserved ones. -/
def Libcurl.plain : Libcurl where
  easyEscape s _ := some (Percent.encodeString s)
  easyStrerror _ := lit "error"

/-- A process that has called nothing yet. -/
def World.fresh : World Unit where
  heap _ := .unmapped
  user := ()
  logLevel := 2
  wire := []

/-- A `vme_init` whose authentication response carries the header lines `headers`. -/
def InitArgs.sample (headers : List Bytes) (status : Nat) : InitArgs where
  url := lit "https://host/"
  authToken := lit "token"
  apiVersion := 1
  globalInit := CURLE_OK
  easyInit := true
  auth := { events := headers.map .header, res := CURLE_OK, status, errText := lit "" }

/-- The call itself, which is given the address 8. -/
def Call.sample (headers : List Bytes) (status : Nat) : Call Unit :=
  .init 8 (.sample headers status)

theorem Sys.exists_session (headers : List Bytes) (status : Nat)
    (hfit : ∀ line ∈ headers, HeaderFits line) :
    ∃ s vc, Run (Step Libcurl.plain) ⟨World.fresh, []⟩ [.sample headers status] s ∧
      8 ∈ s.handles ∧ s.world.heap 8 = .client vc ∧ vc.Ready ∧
      vc.account = (InitArgs.sample headers status).account ∧
      vc.resultCount = lastCount 0 headers ∧ vc.sendState.sizeleft = 0 := by
  have hheaders : (InitArgs.sample headers status).auth.headers = headers := by
    simp [InitArgs.sample, Transfer.headers, List.flatMap_map, TransferEvent.headerOf]
  have hfree : ∀ vc, World.fresh.heap 8 ≠ .client vc := by
    intro vc h
    cases h
  obtain ⟨s, hrun, hhandles, -, vc, hp, hrdy, hacct, hcount, hleft⟩ :=
    Sys.exists_reachable Libcurl.plain World.fresh 8 (.sample headers status)
      (by decide) hfree (show (lit "https://host/").bytes ≠ [] by decide)
      (show (serverUrlOf (lit "https://host/") ++ AUTH_URL_PATH).length ≤ INT_MAX by decide)
      (by rwa [hheaders])
      ⟨⟨rfl, rfl⟩, Or.inl rfl⟩
  rw [hheaders] at hcount
  exact ⟨s, vc, hrun, by simp [hhandles], hp, hrdy, hacct, hcount, hleft⟩

/-- One request on it. -/
theorem Sys.exists_request (op : Op Unit) (x : Transfer) (hop : ¬ op.Faults 1)
    (hfit : ∀ line ∈ x.headers, HeaderFits line) :
    ∃ s vc p w', Reachable Libcurl.plain s ∧ 8 ∈ s.handles ∧ s.world.heap 8 = .client vc ∧
      vc.account = (InitArgs.sample [] 200).account ∧ op.plan 1 = some p ∧
      op.run .plain s.world 8 x = .ok (some (p.result .plain (s.world.setting vc) x), w') ∧
      w'.wire = s.world.wire ++ [(8, p.exchange .plain (s.world.setting vc) x)] := by
  obtain ⟨s, vc, hrun, hh, hp, -, hacct, -, hleft⟩ := exists_session [] 200 (by simp)
  have hs : Reachable Libcurl.plain s := ⟨_, _, rfl, hrun⟩
  have hv : vc.apiVersion = 1 := congrArg Account.apiVersion hacct
  obtain ⟨r, w', hr⟩ := hs.run_returns hh hp op x ⟨by rwa [hv], fun _ => hleft⟩ hfit
  obtain ⟨vc', p, vc'', hp', hplan, hres, rfl, -⟩ := hs.run_inv hh hr
  obtain rfl := Referent.client.inj (hp.symm.trans hp')
  rw [hv] at hplan
  rw [hres] at hr
  exact ⟨s, vc, p, _, hs, hh, hp, hacct, hplan, hr, rfl⟩

end VantiqMicro
