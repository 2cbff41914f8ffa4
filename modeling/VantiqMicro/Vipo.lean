import VantiqMicro.ConfigGrammar
import VantiqMicro.Dpi
import VantiqMicro.Results

/-! # The agent (`vipo.c`)

`main` reads the configuration, opens a handle, connects to the packet inspector,
waits for one message, publishes it and tears the handle down.

`fetch_discovery_msg` returns `NULL` when the `select` times out or fails, when the
peer has closed the connection, and at the end of the transmission.  `main` does
not look: it takes the length of whatever was returned (`vipoForward_of_null`).  It
does what it should exactly where the connection is not made, or a message came
that `strlen` measures whole and whose publication gets past the two weak spots of
`vme_publish` (`vipo_forwards_iff`). -/

namespace VantiqMicro
open CMem

variable {σ : Type}

/-! ## The program -/

/-- How `socket` and `connect` go for one address. -/
inductive Attempt
  | noSocket
  | refused
  | connected
deriving DecidableEq, Repr

/-- What the agent finds at the packet inspector's end. -/
structure Inspector where
  /-- The addresses of the port, `none` if `getaddrinfo` fails. -/
  servinfo : Option (List Attempt)
  /-- The socket path. -/
  usock : Attempt
  activity : Activity
  results : List Recv
  sends : Bool

/-- Whether `init_dpi_inet_client` returns a client; `log_die` aborts. -/
def initDpiInetClient : Option (List Attempt) → Except Fault Bool
  | none => .error .aborted
  | some servinfo => .ok (servinfo.any (· = .connected))

/-- Whether `init_dpi_usock_client` returns a client. -/
def initDpiUsockClient (socketPath : Option Block) (usock : Attempt) : Except Fault Bool := do
  if usock = .noSocket then
    return false
  let _ ← derefPath socketPath
  return usock = .connected

/-- The loop of `main`, which is gone through once, as `retries` is 0. -/
def connectDpi (config : VmeConfig) (d : Inspector) : Except Fault Bool := do
  let dpic ←
    if config.dpiPort ≠ none then initDpiInetClient d.servinfo
    else initDpiUsockClient config.dpiSocketPath d.usock
  if dpic then
    return true
  -- the port or the path is printed
  let _ ← derefPath (if config.dpiPort ≠ none then config.dpiPort else config.dpiSocketPath)
  return false

def DISCOVERY_TOPIC : CString := lit "/ChinaUnicom/SmartHome/Discovery"

/-- A call `main` makes on its handle. -/
inductive VipoCall
  | publish (topic : CString) (json : Bytes)
  | teardown
deriving DecidableEq, Repr

/-- Where `main` is: blocked in `fetch_discovery_msg`, or past its `exit`, with the
calls it made. -/
inductive Vipo (σ : Type)
  | fetching (fetch : Fetch)
  | exited (code : Nat) (calls : List VipoCall) (w : World σ)

/-- `main` up to `vme_init`, which gives it the handle.  No level was set before. -/
def vipoSetup (w : World σ) (addr : Addr) (file : Option Bytes) (init : InitArgs) :
    Except Fault (VmeConfig × VME × World σ) := do
  let (_, config, logLevel) ← vmeParseConfig 0 file
  let url ← derefPath config.vantiqUrl
  let authToken ← derefPath config.vantiqToken
  let (vme, w) ← vmeInit { w with logLevel } addr { init with url, authToken, apiVersion := 1 }
  return (config, vme, w)

/-- `fprintf` prints the error, if there is one. -/
def printError (result : VmeResult) : Except Fault Unit :=
  match result.vmeErrorMsg with
  | some errMsg => do
    let _ ← errMsg.readString
    return ()
  | none => .ok ()

/-- `main` from there on; `left` is what the allocator leaves of the client. -/
def vipoForward (lib : Libcurl) (m : Platform) (config : VmeConfig) (vme : VME) (w : World σ)
    (d : Inspector) (x : Transfer) (left : UInt8) : Except Fault (Vipo σ) := do
  if ← connectDpi config d then
    match ← fetchDiscoveryMsg m d.activity d.results d.sends with
    | .returned msg _ =>
      -- `strlen(msg)`
      let json ← derefPath msg
      let (result, w) ← vmePublish lib w vme DISCOVERY_TOPIC (some json.bytes) x
      printError result
      let w ← vmeTeardown w vme left
      return .exited 0 [.publish DISCOVERY_TOPIC json.bytes, .teardown] w
    | fetch => return .fetching fetch
  else
    let w ← vmeTeardown w vme left
    return .exited 0 [.teardown] w

/-- `main`. -/
def vipoMain (lib : Libcurl) (m : Platform) (w : World σ) (argc : Nat) (addr : Addr)
    (file : Option Bytes) (init : InitArgs) (d : Inspector) (x : Transfer) (left : UInt8) :
    Except Fault (Vipo σ) := do
  if argc ≠ 2 then
    return .exited 1 [] w
  let (config, vme, w) ← vipoSetup w addr file init
  vipoForward lib m config vme w d x left

/-! ## What it should do -/

/-- `fetch_discovery_msg` was called and returned the bytes `s`, terminated. -/
def Received (m : Platform) (config : VmeConfig) (d : Inspector) (s : Bytes) : Prop :=
  connectDpi config d = .ok true ∧
    ∃ sent, fetchDiscoveryMsg m d.activity d.results d.sends =
      .ok (.returned (some (cells s ++ [some 0])) sent)

/-- It was not called, or returned `NULL`. -/
def NothingReceived (m : Platform) (config : VmeConfig) (d : Inspector) : Prop :=
  connectDpi config d = .ok false ∨
    connectDpi config d = .ok true ∧
      ∃ sent, fetchDiscoveryMsg m d.activity d.results d.sends = .ok (.returned none sent)

/-- A message received is published, byte for byte, nothing else is, and the handle is
torn down. -/
inductive Forwards (m : Platform) (config : VmeConfig) (d : Inspector) :
    Except Fault (Vipo σ) → Prop
  | message {s : Bytes} {w : World σ} : Received m config d s →
      Forwards m config d (.ok (.exited 0 [.publish DISCOVERY_TOPIC s, .teardown] w))
  | nothing {w : World σ} : NothingReceived m config d →
      Forwards m config d (.ok (.exited 0 [.teardown] w))

/-- The response to the publication has no header line that overruns, and no error
body that cannot be printed as a string. -/
def Answered (x : Transfer) : Prop :=
  (∀ line ∈ x.headers, HeaderFits line) ∧ (x.body ≠ [] → 400 ≤ x.status → 0 ∈ x.body)

/-! ## The publication -/

/-- A block of bytes can be read as a string if there is a zero among them. -/
theorem exists_readString_cells {s : Bytes} :
    (∃ text, Block.readString (cells s) = .ok text) ↔ 0 ∈ s := by
  constructor
  · rintro ⟨text, htext⟩
    by_contra h0
    rw [Block.readString_eq_ok, Block.stringBytes_cells h0] at htext
    cases htext
  · intro h0
    obtain ⟨pre, post, rfl, hpre⟩ := List.eq_append_cons_of_mem h0
    refine ⟨⟨pre, hpre⟩, Block.readString_eq_ok.mpr ?_⟩
    rw [cells_append, cells_cons]
    exact Block.stringBytes_cells_append hpre _

theorem printError_eq_ok {result : VmeResult} :
    printError result = .ok () ↔
      ∀ block, result.vmeErrorMsg = some block → ∃ text, block.readString = .ok text := by
  rw [printError]
  cases result.vmeErrorMsg with
  | none => simp
  | some errMsg =>
    simp only [bind_eq_ok, Option.some.injEq, forall_eq']
    exact ⟨fun ⟨text, htext, _⟩ => ⟨text, htext⟩, fun ⟨text, htext⟩ => ⟨text, htext, rfl⟩⟩

/-- The text printed is a string unless it is a body. -/
theorem printError_resultOf (lib : Libcurl) (received : Bytes) (count : UInt32) (res : CURLcode)
    (errBuf : CString) (status : Nat) :
    printError (resultOf lib received count res errBuf status) = .ok () ↔
      (received ≠ [] → 400 ≤ status → 0 ∈ received) := by
  rw [printError_eq_ok]
  by_cases hbody : received ≠ [] ∧ 400 ≤ status
  · obtain ⟨hne, hst⟩ := hbody
    simp only [(texts_resultOf_of_ne_nil lib count res errBuf status hne).2 hst, Option.some.injEq,
      forall_eq', exists_readString_cells, hne, hst, ne_eq, not_false_eq_true, true_implies]
  · refine iff_of_true ?_ fun hne hst => absurd ⟨hne, hst⟩ hbody
    intro block hblock
    simp only [resultOf, if_neg hbody] at hblock
    split at hblock
    · cases hblock
      exact ⟨_, Block.readString_toBlock _⟩
    · cases hblock

section Publish
variable {lib : Libcurl} {w w' : World σ} {vme : VME} {vc : VantiqClient σ} {topic : CString}
  {json : Bytes} {x : Transfer} {result : VmeResult}

theorem vmePublish_null (lib : Libcurl) (w : World σ) (topic : CString) (json : Bytes)
    (x : Transfer) :
    vmePublish lib w NULL topic (some json) x = .ok (vmeErrorResult INVALID_HANDLE, w) := by
  simp only [vmePublish, (messageBuf_eq_ofBytes json).1, vcFromVme_null, ok_bind, pure_eq_ok]

/-- The path of the topic is short. -/
theorem length_discoveryPath (v : UInt8) : (topicPath v DISCOVERY_TOPIC).length ≤ INT_MAX := by
  have hv : v.toNat < 1000 := Nat.lt_trans v.toNat_lt (by decide)
  have hlen := length_rsuriPathNoidNoname hv (lit "topics") DISCOVERY_TOPIC
  have hfixed : 21 + (lit "topics").length + DISCOVERY_TOPIC.length ≤ INT_MAX := by decide
  exact Nat.le_trans hlen hfixed

/-- When a publication through a handle returns and its error can be printed. -/
theorem vmePublish_answered (lib : Libcurl) (json : Bytes) (x : Transfer)
    (htopic : (topicPath vc.apiVersion topic).length ≤ INT_MAX)
    (hp : w.heap vme = .client vc) (hne : vme ≠ NULL) (hr : vc.Ready) :
    (∃ result w', vmePublish lib w vme topic (some json) x = .ok (result, w') ∧
      printError result = .ok ()) ↔ Answered x := by
  have hop : ¬ (Op.publish topic (some json) : Op σ).Faults vc.apiVersion := by
    rintro (hnone | hlt)
    · cases hnone
    · exact Nat.not_lt.mpr htopic hlt
  obtain ⟨p, hplan⟩ : ∃ p, (Op.publish topic (some json) : Op σ).plan vc.apiVersion = some p :=
    ⟨_, Op.plan_eq_some_iff.mpr ⟨hop, rfl⟩⟩
  have hcb : p.recvCallback = none := Op.recvCallback_plan hplan
  have hrec := Plan.received_of_none (g := w.setting vc) (x := x) hcb
  have hfits : HeadersFit (p.outcome (w.setting vc) x).2.1 ↔
      ∀ line ∈ x.headers, HeaderFits line := by
    rw [← (Plan.exchange_of_none lib (g := w.setting vc) (x := x) hcb).2.2]
    rfl
  have hprint : printError (p.result lib (w.setting vc) x) = .ok () ↔
      (x.body ≠ [] → 400 ≤ x.status → 0 ∈ x.body) := by
    rw [Plan.result, hrec]
    exact printError_resultOf ..
  rw [Answered, ← hfits, ← hprint]
  constructor
  · rintro ⟨result, w', hpub, herr⟩
    have hrun : (Op.publish topic (some json)).run lib w vme x = .ok (some result, w') :=
      notNull_eq_ok.mpr ⟨result, hpub, rfl⟩
    obtain ⟨p', vc', hplan', hfit, hres, -, -⟩ := Op.run_inv hp hne hr hrun
    obtain rfl : p = p' := Option.some.inj (hplan.symm.trans hplan')
    obtain rfl := Option.some.inj hres
    exact ⟨hfit.headers, herr⟩
  · rintro ⟨hfit, herr⟩
    obtain ⟨vc', hrun, -⟩ :=
      Op.run_refines lib hp hne hr hplan (Op.fits_of_headers hplan False.elim hfit)
    obtain ⟨result, hpub, hres⟩ := notNull_eq_ok.mp hrun
    obtain rfl := Option.some.inj hres
    exact ⟨_, _, hpub, herr⟩

/-- The handle can be torn down after it. -/
theorem vmePublish_teardown (hp : w.heap vme = .client vc) (hne : vme ≠ NULL) (hr : vc.Ready)
    (hpub : vmePublish lib w vme topic (some json) x = .ok (result, w')) (left : UInt8) :
    ∃ w'', vmeTeardown w' vme left = .ok w'' := by
  have hrun : (Op.publish topic (some json)).run lib w vme x = .ok (some result, w') :=
    notNull_eq_ok.mpr ⟨result, hpub, rfl⟩
  obtain ⟨p, vc', -, -, -, rfl, hset⟩ := Op.run_inv hp hne hr hrun
  have hp' : (w.after vme vc' (p.outcome (w.setting vc) x).1.user
      (p.exchange lib (w.setting vc) x)).heap vme = .client vc' := World.put_heap_self
  exact ⟨_, Sys.vmeTeardown_client hp' hne hset.magic left⟩

end Publish

/-! ## When it does -/

/-- The handle is `NULL`, or that of a client between operations. -/
def Opened (w : World σ) (vme : VME) : Prop :=
  vme = NULL ∨ vme ≠ NULL ∧ ∃ vc, w.heap vme = .client vc ∧ vc.Ready

section Forward
variable {lib : Libcurl} {m : Platform} {config : VmeConfig} {vme : VME} {w w' : World σ}
  {d : Inspector} {x : Transfer} {left : UInt8} {s : Bytes} {addr : Addr} {file : Option Bytes}
  {init : InitArgs}

/-- What `vme_init` gives `main`. -/
theorem opened_of_vipoSetup (h : vipoSetup w addr file init = .ok (config, vme, w')) :
    Opened w' vme := by
  obtain ⟨⟨n, config₁, level⟩, -, h⟩ := bind_eq_ok.mp h
  obtain ⟨url, -, h⟩ := bind_eq_ok.mp h
  obtain ⟨authToken, -, h⟩ := bind_eq_ok.mp h
  obtain ⟨⟨vme₁, w₁⟩, hinit, h⟩ := bind_eq_ok.mp h
  obtain ⟨⟨returned, s⟩, hvc, hinit⟩ := bind_eq_ok.mp hinit
  cases h
  cases hinit
  cases returned with
  | false => exact Or.inl rfl
  | true =>
    by_cases hnull : addr = NULL
    · exact Or.inl hnull
    · exact Or.inr ⟨hnull, s.vc, World.leave_heap_self, ((InitArgs.vcInit_ok hvc).2.2 rfl).1⟩

theorem Opened.teardown (h : Opened w vme) (left : UInt8) :
    ∃ w', vmeTeardown w vme left = .ok w' := by
  rcases h with rfl | ⟨hne, vc, hp, hr⟩
  · exact ⟨w, rfl⟩
  · exact ⟨_, Sys.vmeTeardown_client hp hne hr.magic left⟩

/-- **Where `fetch_discovery_msg` returned `NULL`, `main` reads through it.** -/
theorem vipoForward_of_null {sent : Bytes} (hc : connectDpi config d = .ok true)
    (hf : fetchDiscoveryMsg m d.activity d.results d.sends = .ok (.returned none sent)) :
    vipoForward lib m config vme w d x left = .error .nullPointer := by
  rw [vipoForward, hc, ok_bind, if_pos rfl, hf]
  rfl

theorem vipoForward_of_unconnected (lib : Libcurl) (m : Platform)
    (hc : connectDpi config d = .ok false) (h : Opened w vme) :
    ∃ w', vipoForward lib m config vme w d x left = .ok (.exited 0 [.teardown] w') := by
  obtain ⟨w', hw⟩ := h.teardown left
  exact ⟨w', by rw [vipoForward, hc, ok_bind, if_neg Bool.false_ne_true, hw]; rfl⟩

/-- A message is published up to its first zero. -/
theorem vipoForward_of_received (h : Received m config d s) :
    vipoForward lib m config vme w d x left = (do
      let (result, w) ← vmePublish lib w vme DISCOVERY_TOPIC (some (text s)) x
      printError result
      let w ← vmeTeardown w vme left
      return .exited 0 [.publish DISCOVERY_TOPIC (text s), .teardown] w) := by
  obtain ⟨hc, sent, hf⟩ := h
  have hread : Block.readString (cells s ++ [some 0]) = .ok ⟨text s, nulFree_takeWhile s⟩ :=
    Block.readString_eq_ok.mpr (Block.stringBytes_cells_zero s [])
  rw [vipoForward, hc, ok_bind, if_pos rfl, hf, ok_bind]
  simp only [derefPath, hread, ok_bind]

theorem exited_of_received (h : Received m config d s) {run : Vipo σ}
    (hrun : vipoForward lib m config vme w d x left = .ok run) :
    ∃ w', run = .exited 0 [.publish DISCOVERY_TOPIC (text s), .teardown] w' := by
  rw [vipoForward_of_received h] at hrun
  obtain ⟨⟨result, w₁⟩, -, hrun⟩ := bind_eq_ok.mp hrun
  obtain ⟨_, -, hrun⟩ := bind_eq_ok.mp hrun
  obtain ⟨w₂, -, hrun⟩ := bind_eq_ok.mp hrun
  cases hrun
  exact ⟨w₂, rfl⟩

/-- When `main` gets through with a message received. -/
theorem vipoForward_returns_iff (h : Received m config d s) (ho : Opened w vme) :
    (∃ run, vipoForward lib m config vme w d x left = .ok run) ↔ vme = NULL ∨ Answered x := by
  rw [vipoForward_of_received h]
  rcases ho with rfl | ⟨hne, vc, hp, hr⟩
  · refine iff_of_true ⟨.exited 0 [.publish DISCOVERY_TOPIC (text s), .teardown] w, ?_⟩
      (Or.inl rfl)
    rw [vmePublish_null]
    rfl
  · rw [or_iff_right hne,
      ← vmePublish_answered lib (text s) x (length_discoveryPath vc.apiVersion) hp hne hr]
    constructor
    · rintro ⟨run, hrun⟩
      obtain ⟨⟨result, w'⟩, hpub, hrun⟩ := bind_eq_ok.mp hrun
      obtain ⟨⟨⟩, hprint, -⟩ := bind_eq_ok.mp hrun
      exact ⟨result, w', hpub, hprint⟩
    · rintro ⟨result, w', hpub, hprint⟩
      obtain ⟨w'', hdown⟩ := vmePublish_teardown hp hne hr hpub left
      refine ⟨.exited 0 [.publish DISCOVERY_TOPIC (text s), .teardown] w'', ?_⟩
      simp only [hpub, hprint, hdown, ok_bind]
      rfl

theorem vipoMain_of_setup (h : vipoSetup w addr file init = .ok (config, vme, w')) :
    vipoMain lib m w 2 addr file init d x left = vipoForward lib m config vme w' d x left := by
  rw [vipoMain, if_neg (by decide), h]
  rfl

/-- **When `main` publishes what it received and nothing else.**  It must not connect,
or receive a message; the message must have no zero in it, and, if there is a handle,
the response to its publication no overlong count header and no error body without a
zero. -/
theorem vipo_forwards_iff (lib : Libcurl) (m : Platform) (d : Inspector) (x : Transfer)
    (left : UInt8) (hsetup : vipoSetup w addr file init = .ok (config, vme, w')) :
    Forwards m config d (vipoMain lib m w 2 addr file init d x left) ↔
      connectDpi config d = .ok false ∨
        (∃ s, Received m config d s ∧ 0 ∉ s) ∧ (vme = NULL ∨ Answered x) := by
  have ho := opened_of_vipoSetup hsetup
  rw [vipoMain_of_setup hsetup]
  constructor
  · intro h
    generalize hrun : vipoForward lib m config vme w' d x left = run at h
    cases h with
    | @message s _ hs =>
      obtain ⟨_, hcalls⟩ := exited_of_received hs hrun
      have htext : s = text s := by
        simp only [Vipo.exited.injEq, List.cons.injEq, VipoCall.publish.injEq] at hcalls
        exact hcalls.2.1.1.2
      refine Or.inr ⟨⟨s, hs, ?_⟩, (vipoForward_returns_iff hs ho).mp ⟨_, hrun⟩⟩
      rw [htext]
      exact nulFree_takeWhile s
    | nothing hn =>
      rcases hn with hc | ⟨hc, sent, hf⟩
      · exact Or.inl hc
      · rw [vipoForward_of_null hc hf] at hrun
        cases hrun
  · rintro (hc | ⟨⟨s, hs, h0⟩, hanswered⟩)
    · obtain ⟨_, hrun⟩ := vipoForward_of_unconnected lib m hc ho
      rw [hrun]
      exact .nothing (Or.inl hc)
    · obtain ⟨run, hrun⟩ := (vipoForward_returns_iff hs ho).mpr hanswered
      obtain ⟨_, rfl⟩ := exited_of_received hs hrun
      rw [hrun, text, takeWhile_ne_of_not_mem h0]
      exact .message hs

end Forward

/-! ## On a configuration -/

def vipoFile : Bytes := ascii "VANTIQ_BASEURL=h\nVANTIQTOKEN=t\nDPIPORT=1\n"

def vipoConfig : VmeConfig :=
  { VmeConfig.zero with
    dpiPort := some (lit "1").toBlock
    vantiqUrl := some (lit "h/").toBlock
    vantiqToken := some (lit "t").toBlock }

theorem parse_vipoFile : vmeParseConfig 0 (some vipoFile) = .ok (3, vipoConfig, LOG_WARN) := by
  have hlines : (lines vipoFile).filterMap setting =
      [(.vantiqUrl, ascii "h/"), (.vantiqToken, ascii "t"), (.dpiPort, ascii "1")] := by decide
  have hassigned : assigned vipoFile = _ :=
    assigned_eq_filterMap (by decide) (fits_of_all rfl)
  rw [vmeParseConfig_eq, hassigned, hlines]
  rfl

theorem vipoSetup_of_parse {w : World σ} {addr : Addr} {file : Option Bytes} {init : InitArgs}
    {config : VmeConfig} {n : Int} {level : Nat} {url authToken : CString} {s : Session σ}
    (hparse : vmeParseConfig 0 file = .ok (n, config, level))
    (hurl : derefPath config.vantiqUrl = .ok url)
    (htoken : derefPath config.vantiqToken = .ok authToken)
    (hinit : vcInit { init with url, authToken, apiVersion := 1 } w.user level = .ok (true, s)) :
    vipoSetup w addr file init =
      .ok (config, addr, { w with logLevel := level }.leave addr s) := by
  simp only [vipoSetup, hparse, hurl, htoken, ok_bind, vmeInit, hinit]
  rfl

/-- With it and an accepted authentication there is a handle. -/
theorem exists_vipoSetup :
    ∃ w', vipoSetup World.fresh 8 (some vipoFile) (.sample [] 200) =
      .ok (vipoConfig, 8, w') := by
  let a : InitArgs :=
    { InitArgs.sample [] 200 with url := lit "h/", authToken := lit "t", apiVersion := 1 }
  have hfit : ∀ line ∈ a.auth.headers, HeaderFits line := by
    simp [a, InitArgs.sample, Transfer.headers]
  obtain ⟨s, hs⟩ := a.vcInit_returns () (LOG_WARN : Int) (by decide) (by decide) hfit
    ⟨⟨rfl, rfl⟩, Or.inl rfl⟩
  have hurl : (lit "h/").toBlock.readString = .ok (lit "h/") := Block.readString_toBlock _
  have htoken : (lit "t").toBlock.readString = .ok (lit "t") := Block.readString_toBlock _
  exact ⟨_, vipoSetup_of_parse parse_vipoFile hurl htoken hs⟩

/-- A machine with zeros in its memory. -/
def vipoPlatform : Platform := { size := .bits 64, memory := fun _ => 0 }

/-- The second address of the port answers. -/
def Inspector.sample (activity : Activity) (results : List Recv) : Inspector :=
  { servinfo := some [.refused, .connected], usock := .noSocket, activity, results, sends := true }

/-- A message of two bytes comes, and is published. -/
theorem vipo_forwards_iff_two :
    Forwards vipoPlatform vipoConfig (.sample .ready [.bytes [123, 125]])
      (vipoMain .plain vipoPlatform World.fresh 2 8 (some vipoFile) (.sample [] 200)
        (.sample .ready [.bytes [123, 125]]) (Sys.response [] 200) 0) := by
  obtain ⟨w', hsetup⟩ := exists_vipoSetup
  have hm : vipoPlatform.size.Standard := show 65535 < 2 ^ 64 by decide
  have hend : ¬ EndsTransmission vipoPlatform [] [123, 125] := by decide
  have hread : fetchDiscoveryMsg vipoPlatform .ready [.bytes [123, 125]] true = _ :=
    fetchDiscoveryMsg_short hm (by decide)
  rw [if_neg (not_or.mpr ⟨by decide, hend⟩), if_pos rfl] at hread
  exact (vipo_forwards_iff .plain vipoPlatform _ _ 0 hsetup).mpr (Or.inr
    ⟨⟨_, ⟨rfl, _, hread⟩, by decide⟩, Or.inr ⟨by simp [Sys.response, Transfer.headers], by decide⟩⟩)

/-- The `select` times out, and `main` takes the length of `NULL`. -/
theorem vipo_timeout_crashes :
    ∃ w', vipoSetup World.fresh 8 (some vipoFile) (.sample [] 200) = .ok (vipoConfig, 8, w') ∧
      NothingReceived vipoPlatform vipoConfig (.sample .timedOut []) ∧
      vipoMain .plain vipoPlatform World.fresh 2 8 (some vipoFile) (.sample [] 200)
        (.sample .timedOut []) (Sys.response [] 200) 0 = .error .nullPointer ∧
      ¬ Forwards vipoPlatform vipoConfig (.sample .timedOut [])
        (vipoMain .plain vipoPlatform World.fresh 2 8 (some vipoFile) (.sample [] 200)
          (.sample .timedOut []) (Sys.response [] 200) 0) := by
  obtain ⟨w', hsetup⟩ := exists_vipoSetup
  have hcrash : vipoMain .plain vipoPlatform World.fresh 2 8 (some vipoFile) (.sample [] 200)
      (.sample .timedOut []) (Sys.response [] 200) 0 = .error .nullPointer :=
    (vipoMain_of_setup hsetup).trans (vipoForward_of_null rfl rfl)
  refine ⟨w', hsetup, Or.inr ⟨rfl, _, rfl⟩, hcrash, ?_⟩
  rw [hcrash]
  intro h
  cases h

end VantiqMicro
