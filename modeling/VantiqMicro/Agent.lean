import VantiqMicro.Tokens
import VantiqMicro.Vipo

/-! # What the agent sends (`vipo.c`)

The whole of `main`, from the configuration file to the requests: one for the authentication,
and if that is accepted and the packet inspector sent a message, one that publishes it.  The
file gives the server and the token of both, and the inspector the body of the second, which is
its message up to the first zero. -/

namespace VantiqMicro
open CMem

variable {σ : Type}

/-- What the server is told of a request. -/
structure Outgoing where
  verb : CString
  url : Option CString
  headers : List CString
  body : Block

def Request.outgoing (r : Request) : Outgoing := ⟨r.verb, r.url, r.headers, r.body⟩

/-- The authentication. -/
def authOutgoing (a : InitArgs) : Outgoing where
  verb := lit "GET"
  url := some (serverUrlOf a.url ++ lit "/authenticate")
  headers := [authHdr a.authToken]
  body := []

/-- The publication of a message. -/
def publishOutgoing (a : InitArgs) (json : Bytes) : Outgoing where
  verb := lit "POST"
  url := some (serverUrlOf a.url ++
    lit "/api/v1/resources/topics//ChinaUnicom/SmartHome/Discovery")
  headers := [authHdr a.authToken, lit "Content-Type: application/json", lit "Expect:"]
  body := cells json

/-- What the agent sends, given the message it received. -/
def agentRequests (a : InitArgs) (msg : Option CString) : List Outgoing :=
  (if a.Connects then [authOutgoing a] else []) ++
    match msg with
    | some json => if a.Accepted then [publishOutgoing a json.bytes] else []
    | none => []

/-- The agent is connected to the inspector, and `json` is the message it got, up to its first
zero. -/
def Fetched (m : Platform) (config : VmeConfig) (d : Inspector) (json : CString) : Prop :=
  connectDpi config d = .ok true ∧ ∃ block sent,
    fetchDiscoveryMsg m d.activity d.results d.sends = .ok (.returned (some block) sent) ∧
      block.readString = .ok json

section Setup
variable {w w' : World σ} {addr : Addr} {file : Option Bytes} {init : InitArgs}
  {config : VmeConfig} {vme : VME}

theorem outgoing_authRequest (a : InitArgs) (user : σ) (logLevel : Int) :
    (authRequest (a.connected user logLevel)).outgoing = authOutgoing a := by
  simp only [authRequest, authOpts, setopts_commonOptions]
  rfl

/-- What `main` goes by: the file's settings, what `vme_init` sent, and the handle. -/
structure SetUp (w : World σ) (addr : Addr) (file : Option Bytes) (init a : InitArgs)
    (config : VmeConfig) (vme : VME) (w' : World σ) : Prop where
  parsed : ∃ n level, vmeParseConfig 0 file = .ok (n, config, level)
  url : derefPath config.vantiqUrl = .ok a.url
  token : derefPath config.vantiqToken = .ok a.authToken
  args : a = { init with url := a.url, authToken := a.authToken, apiVersion := 1 }
  sent : ∃ es : List Exchange, w'.wire = w.wire ++ es.map (addr, ·) ∧
    es.map (·.request.outgoing) = if a.Connects then [authOutgoing a] else []
  handle : vme = if a.Accepted then addr else NULL
  client : a.Accepted → ∃ vc, w'.heap addr = .client vc ∧ vc.Ready ∧ vc.account = a.account

theorem setUp_of_vipoSetup (h : vipoSetup w addr file init = .ok (config, vme, w')) :
    ∃ a, SetUp w addr file init a config vme w' := by
  obtain ⟨⟨n, config₁, level⟩, hparse, h⟩ := bind_eq_ok.mp h
  obtain ⟨url, hurl, h⟩ := bind_eq_ok.mp h
  obtain ⟨authToken, htoken, h⟩ := bind_eq_ok.mp h
  obtain ⟨⟨vme₁, w₁⟩, hinit, h⟩ := bind_eq_ok.mp h
  obtain ⟨⟨returned, s⟩, hvc, hinit⟩ := bind_eq_ok.mp hinit
  cases h
  cases hinit
  let a : InitArgs := { init with url, authToken, apiVersion := 1 }
  obtain ⟨-, hacc, hready⟩ := InitArgs.vcInit_ok hvc
  refine ⟨a, ⟨n, level, hparse⟩, hurl, htoken, rfl, ⟨s.wire, rfl, ?_⟩, ?_, ?_⟩
  · have hreqs := congrArg (List.map Request.outgoing) (InitArgs.vcInit_requests hvc)
    rw [List.map_map] at hreqs
    refine hreqs.trans ?_
    rw [apply_ite (List.map Request.outgoing), List.map_singleton, outgoing_authRequest]
    rfl
  · by_cases ha : a.Accepted
    · rw [if_pos ha, if_pos (hacc.mpr ha)]
    · rw [if_neg ha, if_neg fun h => ha (hacc.mp h)]
  · intro ha
    obtain ⟨hrdy, hacct, -⟩ := hready (hacc.mpr ha)
    exact ⟨s.vc, World.leave_heap_self, hrdy, hacct⟩

end Setup

section Forward
variable {lib : Libcurl} {m : Platform} {config : VmeConfig} {vme : VME} {w w' : World σ}
  {d : Inspector} {x : Transfer} {left : UInt8} {s : Bytes} {addr : Addr} {file : Option Bytes}
  {init a : InitArgs} {code : Nat} {calls : List VipoCall}

theorem wire_vmeTeardown (h : vmeTeardown w vme left = .ok w') : w'.wire = w.wire := by
  obtain ⟨found, -, h⟩ := bind_eq_ok.mp h
  cases found with
  | none =>
    cases h
    rfl
  | some vc =>
    simp only at h
    split at h
    · cases h
      rfl
    · cases h

theorem discoveryPath_eq : topicPath 1 DISCOVERY_TOPIC =
    lit "/api/v1/resources/topics//ChinaUnicom/SmartHome/Discovery" := by
  decide

/-- A publication through the handle is one request. -/
theorem wire_vmePublish {vc : VantiqClient σ} {result : VmeResult} (hp : w.heap vme = .client vc)
    (hne : vme ≠ NULL) (hr : vc.Ready) (hacct : vc.account = a.account) (hv : a.apiVersion = 1)
    (h : vmePublish lib w vme DISCOVERY_TOPIC (some s) x = .ok (result, w')) :
    ∃ e : Exchange, w'.wire = w.wire ++ [(vme, e)] ∧ e.request.outgoing = publishOutgoing a s := by
  have hrun : (Op.publish DISCOVERY_TOPIC (some s)).run lib w vme x = .ok (some result, w') :=
    notNull_eq_ok.mpr ⟨result, h, rfl⟩
  obtain ⟨p, vc', hplan, -, -, rfl, -⟩ := Op.run_inv hp hne hr hrun
  obtain ⟨-, rfl⟩ := Op.plan_eq_some_iff.mp hplan
  have hversion : vc.apiVersion = 1 := (congrArg Account.apiVersion hacct).trans hv
  refine ⟨_, rfl, ?_⟩
  have hset : (w.setting vc).account = a.account := hacct
  have hpath : (Op.outline vc.apiVersion (.publish DISCOVERY_TOPIC (some s)) : Plan σ).rsURI = _ :=
    (congrArg (topicPath · DISCOVERY_TOPIC) hversion).trans discoveryPath_eq
  simp only [Request.outgoing, Plan.exchange, Plan.request, Plan.url, hset, hpath, publishOutgoing,
    Outgoing.mk.injEq]
  refine ⟨rfl, ?_, rfl, congrArg cells (messageBuf_eq_ofBytes s).2⟩
  exact congrArg some (CString.ext (List.append_nil _))

/-- **What the agent sends**: where its run with a configuration file comes to an end, it has
made the requests of `agentRequests`, for the message the inspector sent, if it could connect
to it. -/
theorem vipo_sends (haddr : addr ≠ NULL)
    (hrun : vipoMain lib m w 2 addr file init d x left = .ok (.exited code calls w')) :
    ∃ a config vme w₁ msg, SetUp w addr file init a config vme w₁ ∧
      (match msg with
        | some json => Fetched m config d json
        | none => connectDpi config d = .ok false) ∧
      ∃ es : List Exchange, w'.wire = w.wire ++ es.map (addr, ·) ∧
        es.map (·.request.outgoing) = agentRequests a msg := by
  rw [vipoMain, if_neg (by decide)] at hrun
  obtain ⟨⟨config, vme, w₁⟩, hsetup, hrun⟩ := bind_eq_ok.mp hrun
  obtain ⟨a, hset⟩ := setUp_of_vipoSetup hsetup
  obtain ⟨es, hwire, hes⟩ := hset.sent
  obtain ⟨dpic, hconnect, hforward⟩ := bind_eq_ok.mp hrun
  cases dpic with
  | false =>
    obtain ⟨w₂, hdown, hret⟩ := bind_eq_ok.mp hforward
    cases hret
    refine ⟨a, config, vme, w₁, none, hset, hconnect, es, ?_, ?_⟩
    · rw [wire_vmeTeardown hdown, hwire]
    · rw [hes, agentRequests, List.append_nil]
  | true =>
    obtain ⟨fetch, hfetch, hforward⟩ := bind_eq_ok.mp hforward
    cases fetch with
    | selecting => cases hforward
    | receiving buf avail => cases hforward
    | returned msg sent =>
      obtain ⟨json, hderef, hforward⟩ := bind_eq_ok.mp hforward
      obtain ⟨⟨result, w₂⟩, hpub, hforward⟩ := bind_eq_ok.mp hforward
      obtain ⟨⟨⟩, -, hforward⟩ := bind_eq_ok.mp hforward
      obtain ⟨w₃, hdown, hret⟩ := bind_eq_ok.mp hforward
      cases hret
      obtain ⟨block, rfl⟩ : ∃ block, msg = some block := by
        cases msg with
        | none => cases hderef
        | some block => exact ⟨block, rfl⟩
      refine ⟨a, config, vme, w₁, some json, hset, ⟨hconnect, block, sent, hfetch, hderef⟩, ?_⟩
      rw [wire_vmeTeardown hdown]
      by_cases ha : a.Accepted
      · obtain ⟨vc, hp, hr, hacct⟩ := hset.client ha
        obtain rfl : vme = addr := by rw [hset.handle, if_pos ha]
        have hv : a.apiVersion = 1 := congrArg InitArgs.apiVersion hset.args
        obtain ⟨e, hwire', he⟩ := wire_vmePublish hp haddr hr hacct hv hpub
        refine ⟨es ++ [e], ?_, ?_⟩
        · rw [hwire', hwire, List.append_assoc, List.map_append]
          rfl
        · simp only [agentRequests, if_pos ha, List.map_append, hes, List.map_singleton, he]
      · obtain rfl : vme = NULL := by rw [hset.handle, if_neg ha]
        rw [vmePublish_null] at hpub
        cases hpub
        refine ⟨es, hwire, ?_⟩
        simp only [agentRequests, if_neg ha, List.append_nil, hes]

end Forward

/-- The settings of `vipoFile`. -/
def vipoArgs : InitArgs :=
  { InitArgs.sample [] 200 with url := lit "h/", authToken := lit "t", apiVersion := 1 }

/-- What the inspector sends in two bytes. -/
theorem received_two :
    Received vipoPlatform vipoConfig (.sample .ready [.bytes [123, 125]]) [123, 125] := by
  have hm : vipoPlatform.size.Standard := show 65535 < 2 ^ 64 by decide
  have hend : ¬ EndsTransmission vipoPlatform [] [123, 125] := by decide
  have hread : fetchDiscoveryMsg vipoPlatform .ready [.bytes [123, 125]] true = _ :=
    fetchDiscoveryMsg_short hm (by decide)
  rw [if_neg (not_or.mpr ⟨by decide, hend⟩), if_pos rfl] at hread
  exact ⟨rfl, _, hread⟩

theorem fetched_two {config : VmeConfig} {json : CString}
    (h : Fetched vipoPlatform config (.sample .ready [.bytes [123, 125]]) json) :
    json.bytes = [123, 125] := by
  obtain ⟨-, block, sent, hfetch, hread⟩ := h
  obtain ⟨-, sent', hfetch'⟩ := received_two
  rw [hfetch'] at hfetch
  cases hfetch
  have hread' : Block.readString (cells [123, 125] ++ [some 0]) = .ok ⟨[123, 125], by decide⟩ :=
    Block.readString_eq_ok.mpr (Block.stringBytes_cells_zero [123, 125] [])
  rw [hread'] at hread
  cases hread
  rfl

theorem setUp_vipoFile {a : InitArgs} {config : VmeConfig} {vme : VME} {w w' : World Unit}
    (h : SetUp w 8 (some vipoFile) (.sample [] 200) a config vme w') :
    a = vipoArgs ∧ config = vipoConfig := by
  obtain ⟨n, level, hparse⟩ := h.parsed
  rw [parse_vipoFile] at hparse
  cases hparse
  have hurl : derefPath vipoConfig.vantiqUrl = .ok (lit "h/") :=
    Block.readString_toBlock (lit "h/")
  have htoken : derefPath vipoConfig.vantiqToken = .ok (lit "t") :=
    Block.readString_toBlock (lit "t")
  have hu : a.url = lit "h/" := Except.ok.inj (h.url.symm.trans hurl)
  have ht : a.authToken = lit "t" := Except.ok.inj (h.token.symm.trans htoken)
  refine ⟨h.args.trans ?_, rfl⟩
  rw [hu, ht]
  rfl

theorem vipo_sends_two :
    ∃ w', vipoMain .plain vipoPlatform World.fresh 2 8 (some vipoFile) (.sample [] 200)
        (.sample .ready [.bytes [123, 125]]) (Sys.response [] 200) 0 =
          .ok (.exited 0 [.publish DISCOVERY_TOPIC [123, 125], .teardown] w') ∧
      w'.wire.map (·.2.request.outgoing) =
        [authOutgoing vipoArgs, publishOutgoing vipoArgs [123, 125]] := by
  obtain ⟨w₁, hsetup⟩ := exists_vipoSetup
  have hanswered : Answered (Sys.response [] 200) :=
    ⟨by simp [Sys.response, Transfer.headers], by decide⟩
  obtain ⟨run, hforward⟩ := (@vipoForward_returns_iff _ .plain _ _ _ _ _ _ 0 _ received_two
    (opened_of_vipoSetup hsetup)).mpr (Or.inr hanswered)
  obtain ⟨w', rfl⟩ := exited_of_received received_two hforward
  have hrun := (vipoMain_of_setup hsetup).trans hforward
  obtain ⟨a, config, vme, w₂, msg, hset, hmsg, es, hwire, hes⟩ := vipo_sends (by decide) hrun
  obtain ⟨rfl, rfl⟩ := setUp_vipoFile hset
  refine ⟨w', hrun, ?_⟩
  rw [hwire, List.map_append, List.map_map]
  cases msg with
  | none => exact absurd (hmsg.symm.trans received_two.1) (by decide)
  | some json =>
    refine (hes.trans ?_ : es.map (·.request.outgoing) = _)
    rw [agentRequests, if_pos (by decide)]
    simp only [if_pos (show vipoArgs.Accepted by decide), fetched_two hmsg]
    rfl

end VantiqMicro
