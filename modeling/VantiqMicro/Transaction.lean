import VantiqMicro.Delivery

/-! # One request, start to finish

The five functions that make a request (`_putorpost`, `_getordelete`, `vc_patch`
and the two that choose a verb for them) do the same thing with different
arguments: set the handle up, address it, perform, turn what arrived into a
result, reset.  A `Plan` is those arguments; `Plan.exec` is the common procedure,
and each function of the source is an instance of it by an equation.

What a plan does on a client that is between operations (`VantiqClient.Ready`) is
`Plan.exec_refines`: it makes the exchange `Plan.exchange` and returns the result
`Plan.result`, both total functions of the client's `Account`, the plan and the
network.  The buffer's capacity and the handle's options before the request are no
arguments of them, and what is left of an earlier message is one only for a patch
without a document. -/

namespace VantiqMicro
open CMem

variable {σ : Type}

/-! ## The URL -/

/-- `key=value` as `create_url` writes it. -/
def paramText (lib : Libcurl) (p : Param) : CString :=
  p.key ++ lit "=" ++ (lib.easyEscape p.value (toInt p.value.length)).getD p.value

/-- The parameters, each but the last followed by `;`. -/
def paramsText (lib : Libcurl) : List Param → CString
  | [] => lit ""
  | p :: next => paramText lib p ++ (if next ≠ [] then lit ";" else lit "") ++ paramsText lib next

/-- What `create_url` writes after the path. -/
def queryText (lib : Libcurl) (params : List Param) : CString :=
  if params ≠ [] then lit "?" ++ paramsText lib params else lit ""

theorem urlParams_eq (lib : Libcurl) {urlbuf : VmeBuf} {s : Bytes} (h : urlbuf.Holds s)
    (params : List Param) :
    ∃ urlbuf', urlParams lib urlbuf params = .ok urlbuf' ∧
      urlbuf'.Holds (s ++ (paramsText lib params).bytes) := by
  induction params generalizing urlbuf s with
  | nil => exact ⟨urlbuf, rfl, by simpa [paramsText, lit, ascii] using h⟩
  | cons p next ih =>
    obtain ⟨b₁, h₁, hb₁⟩ := h.concat p.key.bytes (m := .exact) trivial
    obtain ⟨b₂, h₂, hb₂⟩ := hb₁.push (m := .exact) (c := 61) trivial
    obtain ⟨b₃, h₃, hb₃⟩ := hb₂.concat (m := .exact)
      ((lib.easyEscape p.value (toInt p.value.length)).getD p.value).bytes trivial
    have hp : b₃.Holds (s ++ (paramText lib p).bytes) := by
      simpa [paramText, lit, ascii] using hb₃
    by_cases hnext : next = []
    · obtain ⟨b₄, h₄, hb₄⟩ := ih hp
      refine ⟨b₄, ?_, ?_⟩
      · simp only [urlParams, h₁, h₂, h₃, ok_bind, hnext, ne_eq, not_true_eq_false, if_false]
        rwa [hnext] at h₄
      · simpa [paramsText, hnext, lit, ascii] using hb₄
    · obtain ⟨b₄, h₄, hb₄⟩ := hp.push (m := .exact) (c := 59) trivial
      obtain ⟨b₅, h₅, hb₅⟩ := ih hb₄
      refine ⟨b₅, ?_, by simpa [paramsText, hnext, lit, ascii] using hb₅⟩
      simp only [urlParams, h₁, h₂, h₃, ok_bind, ne_eq, hnext, not_false_eq_true, if_true, h₄, h₅]

/-- **`create_url` returns** the server, the path and the query, terminated. -/
theorem createUrl_eq (lib : Libcurl) (vc : VantiqClient σ) (rsURI : CString)
    (params : List Param) :
    createUrl lib vc rsURI params =
      .ok (vc.serverUrl ++ rsURI ++ queryText lib params).toBlock := by
  obtain ⟨h₀, -⟩ := VmeBuf.holds_ensureSize_none (vc.serverUrl.length + rsURI.length + 1)
  obtain ⟨b₁, h₁, hb₁⟩ := h₀.concat vc.serverUrl.bytes (m := .exact) trivial
  obtain ⟨b₂, h₂, hb₂⟩ := hb₁.concat rsURI.bytes (m := .exact) trivial
  have hpath : b₂.Holds (vc.serverUrl ++ rsURI).bytes := by simpa using hb₂
  by_cases hp : params = []
  · simp only [createUrl, h₁, h₂, ok_bind, hp, ne_eq, not_true_eq_false, if_false, urlParams,
      hpath.tostr (m := .exact) trivial]
    simp [CString.toBlock, queryText, lit, ascii]
  · obtain ⟨b₃, h₃, hb₃⟩ := hpath.push (m := .exact) (c := 63) trivial
    obtain ⟨b₄, h₄, hb₄⟩ := urlParams_eq lib hb₃ params
    simp only [createUrl, h₁, h₂, ok_bind, ne_eq, hp, not_false_eq_true, if_true, h₃, h₄,
      hb₄.tostr (m := .exact) trivial]
    simp [CString.toBlock, queryText, hp, lit, ascii]

/-! ## Plans -/

/-- A message buffer, as every upload builds one, with the bytes it holds. -/
structure Message where
  buf : VmeBuf
  bytes : Bytes
  holds : buf.Holds bytes

theorem messageBuf_eq (json : Bytes) :
    ∃ msg, messageBuf (some json) = .ok msg ∧ msg.Holds json := by
  obtain ⟨h₀, -⟩ := VmeBuf.holds_ensureSize_none json.length
  exact h₀.concat _ (m := .exact) trivial

/-- There is no message of `NULL`. -/
theorem messageBuf_none : messageBuf none = .error .assertion := rfl

theorem Message.holds_of_messageBuf {json : Bytes} {msg : VmeBuf}
    (h : messageBuf (some json) = .ok msg) : msg.Holds json := by
  obtain ⟨msg', h', hm⟩ := messageBuf_eq json
  obtain rfl := Except.ok.inj (h.symm.trans h')
  exact hm

/-- The message buffer of a document. -/
def Message.ofBytes (json : Bytes) : Message :=
  match h : messageBuf (some json) with
  | .ok buf => ⟨buf, json, holds_of_messageBuf h⟩
  | .error _ => ⟨vmebufAlloc, [], VmeBuf.holds_alloc⟩

theorem messageBuf_eq_ofBytes (json : Bytes) :
    messageBuf (some json) = .ok (Message.ofBytes json).buf ∧
      (Message.ofBytes json).bytes = json := by
  obtain ⟨msg, h, -⟩ := messageBuf_eq json
  unfold Message.ofBytes
  split
  · rename_i h'
    exact ⟨h', rfl⟩
  · rename_i h'
    rw [h] at h'
    cases h'

/-- How a request is made. -/
inductive Method
  | get
  | delete
  | patch (json : Option CString)
  | post (msg : Message)
  | put (msg : Message)

namespace Method

/-- The options that choose the verb. -/
def opts : Method → List CurlOpt
  | get => [.httpGet]
  | delete => [.customRequest (lit "DELETE")]
  | patch json => [.customRequest (lit "PATCH"), .postFields json]
  | post _ => [.post]
  | put _ => [.put]

/-- What the read callback has to send. -/
def message : Method → Option Message
  | post msg | put msg => some msg
  | _ => none

/-- The options set after the URL. -/
def late : Method → List CurlOpt
  | get | delete => []
  | patch _ => [.errorBuffer]
  | post msg | put msg => [.postFieldSize msg.buf.len, .errorBuffer]

/-- The verb of the request line. -/
def verb : Method → CString
  | get => lit "GET"
  | delete => lit "DELETE"
  | patch _ => lit "PATCH"
  | post _ => lit "POST"
  | put _ => lit "PUT"

/-- The read callback serves the transfer. -/
def uploads : Method → Bool
  | patch none | post _ | put _ => true
  | _ => false

/-- The send cursor the request starts with, on a client that was left with `left`. -/
def send (m : Method) (left : VcSendstate) : VcSendstate :=
  match m.message with
  | some msg => { base := some msg.buf.data, readptr := 0, sizeleft := msg.buf.len }
  | none => left

/-- The request body. -/
def body (m : Method) (left : VcSendstate) : Block :=
  match m with
  | get | delete => []
  | patch (some json) => cells json.bytes
  | patch none => left.rest
  | post msg | put msg => cells msg.bytes

/-- The request, behind which the message is freed. -/
def freeing {σ α : Type} (m : Method) (f : Session σ → Except Fault (α × Session σ)) :
    Session σ → Except Fault (α × Session σ) :=
  match m.message with
  | some _ => freeingMessage f
  | none => f

end Method

/-- What distinguishes one request from another. -/
structure Plan (σ : Type) where
  method : Method
  rsURI : CString
  params : List Param := []
  recvCallback : Option (UserCallback σ) := none

/-- The procedure the requests share. -/
def Plan.exec (lib : Libcurl) (p : Plan σ) (x : Transfer) :
    Session σ → Except Fault (VmeResult × Session σ) :=
  p.method.freeing fun s => do
    let s := (commonCurlSetup s).setopts p.method.opts
    let url ← createUrl lib s.vc p.rsURI p.params
    let s := s.setopt (.url (← url.readString))
    let s := { s with vc.sendState := p.method.send s.vc.sendState }
    let s := { s with vc.recvBuf := vmebufTruncate s.vc.recvBuf }
    let s := s.setopts p.method.late
    let (s, resCode, errBuf) ← s.perform x
    let (result, s) ← prepareResult lib resCode errBuf s
    return (result, s.reset)

section Instances
variable (lib : Libcurl) (rsURI : CString) (params : List Param) (x : Transfer) (s : Session σ)

theorem vcGet_eq_exec :
    vcGet lib rsURI params x s = Plan.exec lib { method := .get, rsURI, params } x s := rfl

theorem vcAggregate_eq_exec :
    vcAggregate lib rsURI params x s = Plan.exec lib { method := .get, rsURI, params } x s := rfl

theorem vcDelete_eq_exec :
    vcDelete lib rsURI params x s = Plan.exec lib { method := .delete, rsURI, params } x s := rfl

theorem vcPatch_eq_exec (json : Option CString) :
    vcPatch lib rsURI json x s = Plan.exec lib { method := .patch json, rsURI } x s := rfl

theorem vcPost_eq_exec (msg : Message) :
    freeingMessage (vcPost lib rsURI msg.buf params x) s =
      Plan.exec lib { method := .post msg, rsURI, params } x s := rfl

theorem vcPut_eq_exec (msg : Message) :
    freeingMessage (vcPut lib rsURI msg.buf params x) s =
      Plan.exec lib { method := .put msg, rsURI, params } x s := rfl

theorem vcExecute_eq_exec (argsDoc : CString) :
    vcExecute lib rsURI (some argsDoc) x s =
      Plan.exec lib { method := .post (.ofBytes argsDoc.bytes), rsURI } x s := by
  rw [vcExecute, derefString, ok_bind, (messageBuf_eq_ofBytes _).1, ok_bind]
  rfl

theorem vcQuery_eq_exec (qParams : CString) :
    vcQuery lib rsURI (some qParams) x s =
      Plan.exec lib { method := .post (.ofBytes qParams.bytes), rsURI } x s := by
  rw [vcQuery, derefString, ok_bind, (messageBuf_eq_ofBytes _).1, ok_bind]
  rfl

end Instances

/-! ## The exchange a plan makes and the result it returns -/

/-- What of a client its requests depend on. -/
structure Account where
  apiVersion : UInt8
  serverUrl : CString
  httpHdrs : List CString
  callbackState : Ptr
deriving DecidableEq, Repr

/-- What a request finds. -/
structure Setting (σ : Type) where
  account : Account
  logLevel : Int
  count : UInt32
  user : σ
  /-- What an earlier upload left to be sent. -/
  left : VcSendstate

def VantiqClient.account (vc : VantiqClient σ) : Account :=
  ⟨vc.apiVersion, vc.serverUrl, vc.httpHdrs, vc.callbackState⟩

def Session.setting (s : Session σ) : Setting σ :=
  ⟨s.vc.account, s.logLevel, s.vc.resultCount, s.user, s.vc.sendState⟩

/-- `prepare_result`, of the bytes received. -/
def resultOf (lib : Libcurl) (received : Bytes) (count : UInt32) (res : CURLcode)
    (errBuf : CString) (status : Nat) : VmeResult where
  vmeSize := received.length
  vmeCount := count
  vmeJsonData := if received ≠ [] ∧ status < 400 then some (cells received) else none
  vmeErrorMsg :=
    if received ≠ [] ∧ 400 ≤ status then some (cells received)
    else if res ≠ CURLE_OK then
      some (if 0 < errBuf.length then errBuf else lib.easyStrerror res).toBlock
    else none

namespace Plan
variable (lib : Libcurl) (p : Plan σ) (g : Setting σ) (x : Transfer)

def url : CString := g.account.serverUrl ++ p.rsURI ++ queryText lib p.params

/-- The options the transfer runs with. -/
def opts : CurlOpts :=
  ({} : CurlOpts).setopts
    (commonOptions g.logLevel g.account.httpHdrs ++ p.method.opts ++ [.url (p.url lib g)]
      ++ p.method.late)

def request : Request where
  verb := p.method.verb
  url := some (p.url lib g)
  headers := g.account.httpHdrs
  opts := p.opts lib g
  body := p.method.body g.left

/-- The send cursor the transfer starts with. -/
def send : VcSendstate := p.method.send g.left

/-- The transfer's fold, from an empty receive buffer. -/
def outcome : Intake σ × List Callback × Bool :=
  Intake.events ⟨p.recvCallback, g.account.callbackState, p.method.uploads⟩
    ⟨[], g.count, g.user, p.send g⟩ x.events

/-- The transfer's calls are those of one that returns. -/
def Fits : Prop := VantiqMicro.Fits (p.send g) (p.outcome g x).2.1

/-- The code `curl_easy_perform` returns. -/
def res : CURLcode := if (p.outcome g x).2.2 then x.res else CURLE_WRITE_ERROR

/-- The text it leaves in the operation's error buffer. -/
def errBuf : CString :=
  if (p.opts lib g).errorBuffer ∧ p.res g x ≠ CURLE_OK then x.errText else lit ""

def exchange : Exchange where
  request := p.request lib g
  callbacks := (p.outcome g x).2.1
  res := p.res g x
  status := x.status

def result : VmeResult :=
  resultOf lib (p.outcome g x).1.received (p.outcome g x).1.count (p.res g x) (p.errBuf lib g x)
    x.status

end Plan

/-! ## The options -/

/-- The handle's options after `common_curl_setup`. -/
theorem setopts_commonOptions (logLevel : Int) (httpHdrs : List CString) :
    ({} : CurlOpts).setopts (commonOptions logLevel httpHdrs) =
      { followLocation := true, sslVerifyPeer := 1, sslVerifyHost := 1
        verbose := logLevel ≤ LOG_DEBUG, httpHeader := httpHdrs
        readFunction := true, writeFunction := true, headerFunction := true
        readData := true, writeData := true, headerData := true
        lowSpeedTime := 60, lowSpeedLimit := 30 } := by
  unfold commonOptions
  split <;> simp_all [CurlOpts.setopts, CurlOpts.setopt]

theorem CurlOpts.setopts_append (o : CurlOpts) (l l' : List CurlOpt) :
    o.setopts (l ++ l') = (o.setopts l).setopts l' := List.foldl_append ..

namespace Plan
variable {lib : Libcurl} {p : Plan σ} {g : Setting σ} {x : Transfer}

/-- **The options say what the plan says**, and nothing of what came before. -/
theorem opts_spec (lib : Libcurl) (p : Plan σ) (g : Setting σ) :
    (p.opts lib g).Hooked ∧ (p.opts lib g).verb = p.method.verb ∧
      (p.opts lib g).url = some (p.url lib g) ∧
      (p.opts lib g).httpHeader = g.account.httpHdrs ∧
      (p.opts lib g).uploads = p.method.uploads ∧
      (p.opts lib g).postFields = (match p.method with | .patch json => json | _ => none) := by
  unfold opts
  simp only [CurlOpts.setopts_append, setopts_commonOptions]
  cases p.method with
  | patch json =>
    cases json <;> exact ⟨⟨rfl, rfl, rfl, rfl, rfl, rfl⟩, rfl, rfl, rfl, rfl, rfl⟩
  | _ => exact ⟨⟨rfl, rfl, rfl, rfl, rfl, rfl⟩, rfl, rfl, rfl, rfl, rfl⟩

/-- Uploads and patches register an error buffer. -/
theorem errBuf_of_mem (hlate : .errorBuffer ∈ p.method.late) (hres : p.res g x ≠ CURLE_OK) :
    p.errBuf lib g x = x.errText := by
  have herr : (p.opts lib g).errorBuffer = true := by
    unfold opts
    simp only [CurlOpts.setopts_append, setopts_commonOptions]
    cases hm : p.method with
    | get | delete =>
      rw [hm] at hlate
      cases hlate
    | _ => rfl
  rw [errBuf, if_pos ⟨herr, hres⟩]

end Plan

/-! ## The common procedure computes them -/

theorem Session.setopts_eq (s : Session σ) (l : List CurlOpt) :
    s.setopts l =
      { s with vc.curl := s.vc.curl.map fun c => { c with opts := c.opts.setopts l } } := by
  induction l generalizing s with
  | nil => simp [Session.setopts, CurlOpts.setopts]
  | cons o l ih =>
    rw [Session.setopts, List.foldl_cons, ← Session.setopts, ih]
    simp [Session.setopt, CurlOpts.setopts, Function.comp_def]

/-- **`prepare_result` reads the buffer, the status and the count**, and clears the
count. -/
theorem prepareResult_eq (lib : Libcurl) {s : Session σ} {received : Bytes} {c : Curl}
    (res : CURLcode) (errBuf : CString) (h : s.vc.recvBuf.Holds received)
    (hc : s.vc.curl = some c) :
    prepareResult lib res errBuf s =
      .ok (resultOf lib received s.vc.resultCount res errBuf c.responseCode,
        { s with vc.resultCount := 0 }) := by
  have hlen := h.len_eq
  -- the status is looked at only when something was received
  by_cases hne : received = []
  · subst hne
    simp only [prepareResult, hlen, List.length_nil, Nat.lt_irrefl, if_false, ok_bind, resultOf]
    split <;> simp_all
  · have hpos : 0 < received.length := List.length_pos_iff.mpr hne
    have hcopy : (malloc received.length).memcpy 0 s.vc.recvBuf.data 0 received.length =
        .ok (cells received) := by
      rw [Block.memcpy_malloc (by rw [h.allocated, ← hlen]; exact h.len_le), ← hlen, h.contents]
    simp only [prepareResult, hlen, hpos, if_true, hcopy, ok_bind, hc, Option.map_some,
      Option.getD_some, resultOf]
    by_cases hst : 400 ≤ c.responseCode
    · by_cases hres : res = CURLE_OK <;> simp [hst, hne, hres, Nat.not_lt.mpr hst]
    · have hlt := Nat.lt_of_not_le hst
      by_cases hres : res = CURLE_OK <;> simp [hst, hlt, hne, hres]

/-- A client between two operations. -/
structure VantiqClient.Ready (vc : VantiqClient σ) : Prop where
  magic : vc.magic = VC_MAGIC
  /-- The handle has its default options. -/
  curl : ∃ responseCode, vc.curl = some { opts := {}, responseCode }
  recvBuf : vc.recvBuf.Sound
  recvCallback : vc.recvCallback = none
  /-- The message of the last upload is freed. -/
  base : vc.sendState.base = none

/-- On such a client what is left to be sent is of a message that was freed. -/
theorem VantiqClient.Ready.stale_iff {vc : VantiqClient σ} (h : vc.Ready) :
    vc.sendState.Stale ↔ vc.sendState.sizeleft ≠ 0 := by
  rw [VcSendstate.Stale, h.base, eq_self_iff_true, true_and]

namespace Plan
variable {lib : Libcurl} {p : Plan σ} {x : Transfer} {s s' : Session σ}

/-- The session as it goes into `curl_easy_perform`. -/
def prepared (lib : Libcurl) (p : Plan σ) (s : Session σ) : Session σ :=
  { s with
    vc.curl := s.vc.curl.map fun c => { c with opts := p.opts lib s.setting }
    vc.recvBuf := vmebufTruncate s.vc.recvBuf
    vc.sendState := p.send s.setting }

/-- The session behind a request, its message freed. -/
def finished (p : Plan σ) (s : Session σ) : Session σ :=
  { s.reset with
    vc.sendState.base := if p.method.message.isSome then none else s.vc.sendState.base }

theorem exec_eq :
    p.exec lib x s = (do
      let (s, resCode, errBuf) ← (p.prepared lib s).perform x
      let (result, s) ← prepareResult lib resCode errBuf s
      return (result, p.finished s)) := by
  have hopts : p.opts lib s.setting =
      (((CurlOpts.setopts {} (commonOptions s.logLevel s.vc.httpHdrs)).setopts
        p.method.opts).setopt (.url (p.url lib s.setting))).setopts p.method.late := by
    simp only [opts, CurlOpts.setopts_append]
    rfl
  unfold exec Method.freeing finished prepared
  rw [hopts]
  cases hm : p.method.message with
  | none =>
    simp only [createUrl_eq, ok_bind, Block.readString_toBlock, commonCurlSetup,
      Session.setopts_eq, Session.setopt, Session.reset]
    cases hc : s.vc.curl <;> rfl
  | some msg =>
    simp only [freeingMessage, createUrl_eq, ok_bind, Block.readString_toBlock, commonCurlSetup,
      Session.setopts_eq, Session.setopt, Session.reset, bind_assoc, pure_bind]
    cases hc : s.vc.curl <;> rfl

/-- The message stands whole in front of the read callback; of a freed one nothing does. -/
theorem send_inBounds (g : Setting σ) (hbase : g.left.base = none) : (p.send g).InBounds := by
  intro base hb
  rw [send, Method.send] at hb ⊢
  cases hm : p.method.message with
  | none =>
    rw [hm] at hb
    rw [hbase] at hb
    cases hb
  | some msg =>
    have hlen := msg.holds.len_le
    rw [hm] at hb
    cases hb
    simp only [msg.holds.allocated]
    omega

/-- The prepared session is the fold's initial state. -/
theorem prepared_shows (hbuf : s.vc.recvBuf.Sound) (hbase : s.vc.sendState.base = none) :
    (p.prepared lib s).Shows ⟨[], s.vc.resultCount, s.user, p.send s.setting⟩ where
  recvBuf := ⟨⟨Nat.zero_le _, hbuf.min_le, hbuf.allocated⟩, rfl⟩
  resultCount := rfl
  user := rfl
  send := rfl
  inBounds := send_inBounds s.setting hbase

/-- The request the handle sends is the plan's. -/
theorem request_prepared :
    (p.prepared lib s).request (p.opts lib s.setting) = p.request lib s.setting := by
  obtain ⟨-, hverb, hurl, hhdr, hup, hpost⟩ := opts_spec lib p s.setting
  simp only [Session.request, request, hverb, hurl, hhdr, hup, hpost, prepared]
  congr 1
  unfold send
  cases hm : p.method with
  | get | delete => rfl
  | patch json => cases json <;> rfl
  | post msg | put msg => exact msg.holds.contents

/-- What a request leaves behind. -/
structure Leaves (lib : Libcurl) (p : Plan σ) (x : Transfer) (s s' : Session σ) : Prop where
  magic : s'.vc.magic = s.vc.magic
  account : s'.vc.account = s.vc.account
  curl : s'.vc.curl = some { opts := {}, responseCode := x.status }
  recvBuf : s'.vc.recvBuf.Holds (p.outcome s.setting x).1.received
  recvCallback : s'.vc.recvCallback = s.vc.recvCallback
  send : s'.vc.sendState = { (p.outcome s.setting x).1.send with base := none }
  resultCount : s'.vc.resultCount = 0
  user : s'.user = (p.outcome s.setting x).1.user
  logLevel : s'.logLevel = s.logLevel
  wire : s'.wire = s.wire ++ [p.exchange lib s.setting x]

/-- The hooks of the transfer are the plan's, whatever the handle was set to before. -/
theorem prepared_hooks (hcb : s.vc.recvCallback = p.recvCallback) :
    (p.prepared lib s).hooks (p.opts lib s.setting) =
      ⟨p.recvCallback, s.vc.callbackState, p.method.uploads⟩ := by
  obtain ⟨-, -, -, -, hup, -⟩ := opts_spec lib p s.setting
  rw [Session.hooks, hup]
  simp only [prepared, hcb]

theorem prepared_curl {c : Curl} (hc : s.vc.curl = some c) :
    (p.prepared lib s).vc.curl = some { c with opts := p.opts lib s.setting } := by
  simp [prepared, hc]

/-- The freed message is not what the next request starts from. -/
theorem sendState_finished {t : Session σ} (hbase : s.vc.sendState.base = none)
    (ht : t.vc.sendState = (p.outcome s.setting x).1.send) :
    (p.finished t).vc.sendState = { (p.outcome s.setting x).1.send with base := none } := by
  have houtcome : (p.outcome s.setting x).1.send.base = (p.send s.setting).base :=
    Intake.base_events
  rw [← ht] at houtcome ⊢
  rw [send, Method.send] at houtcome
  simp only [finished]
  cases hm : p.method.message with
  | none =>
    rw [hm] at houtcome
    rw [show t.vc.sendState.base = none from houtcome.trans hbase]
    rfl
  | some msg => rfl

/-- **A request makes the plan's exchange and returns the plan's result**, from any
state of the buffer and the handle's options, if no header line overruns and nothing is
read from a message that was freed. -/
theorem exec_refines (lib : Libcurl) {c : Curl} (hc : s.vc.curl = some c)
    (hbuf : s.vc.recvBuf.Sound) (hcb : s.vc.recvCallback = p.recvCallback)
    (hbase : s.vc.sendState.base = none) (hfit : p.Fits s.setting x) :
    ∃ s', p.exec lib x s = .ok (p.result lib s.setting x, s') ∧ p.Leaves lib x s s' := by
  obtain ⟨hooked, -⟩ := opts_spec lib p s.setting
  obtain ⟨s₁, h₁, hs₁, hf₁⟩ :=
    Session.callbacks_refines hooked (prepared_hooks hcb) (prepared_shows hbuf hbase) hfit
  have hperform : (p.prepared lib s).perform x = .ok
      ({ s₁ with
          vc.curl := some { opts := p.opts lib s.setting, responseCode := x.status }
          wire := s₁.wire ++ [p.exchange lib s.setting x] },
        p.res s.setting x, p.errBuf lib s.setting x) := by
    simp only [Session.perform, prepared_curl hc, h₁, ok_bind, request_prepared]
    rfl
  have hresult := prepareResult_eq lib (p.res s.setting x) (p.errBuf lib s.setting x)
    (s := { s₁ with
      vc.curl := some { opts := p.opts lib s.setting, responseCode := x.status }
      wire := s₁.wire ++ [p.exchange lib s.setting x] }) hs₁.recvBuf rfl
  have hexec : p.exec lib x s = .ok (p.result lib s.setting x, p.finished { s₁ with
      vc.curl := some { opts := p.opts lib s.setting, responseCode := x.status }
      vc.resultCount := 0
      wire := s₁.wire ++ [p.exchange lib s.setting x] }) := by
    rw [exec_eq]
    refine bind_eq_ok.mpr ⟨_, hperform, bind_eq_ok.mpr ⟨_, hresult, ?_⟩⟩
    simp only [hs₁.resultCount]
    rfl
  refine ⟨_, hexec, hf₁.magic, ?_, rfl, hs₁.recvBuf, hf₁.recvCallback,
    sendState_finished hbase hs₁.send, rfl, hs₁.user, hf₁.logLevel, ?_⟩
  · simp only [VantiqClient.account, finished, Session.reset, Account.mk.injEq]
    exact ⟨hf₁.apiVersion, hf₁.serverUrl, hf₁.httpHdrs, hf₁.callbackState⟩
  · exact congrArg (· ++ [p.exchange lib s.setting x]) hf₁.wire

/-- **A request that returns met no header line that overruns**, and read from no message that
was freed. -/
theorem fits_of_exec {c : Curl} (hc : s.vc.curl = some c) (hbuf : s.vc.recvBuf.Sound)
    (hcb : s.vc.recvCallback = p.recvCallback) (hbase : s.vc.sendState.base = none)
    {r : VmeResult × Session σ} (hr : p.exec lib x s = .ok r) : p.Fits s.setting x := by
  obtain ⟨hooked, -⟩ := opts_spec lib p s.setting
  rw [exec_eq] at hr
  obtain ⟨r₁, h₁, -⟩ := bind_eq_ok.mp hr
  simp only [Session.perform, prepared_curl hc] at h₁
  obtain ⟨r₂, h₂, -⟩ := bind_eq_ok.mp h₁
  exact Session.fits_of_callbacks hooked (prepared_hooks hcb) (prepared_shows hbuf hbase) h₂

/-- What a request that returns did. -/
theorem exec_ok {c : Curl} (hc : s.vc.curl = some c) (hbuf : s.vc.recvBuf.Sound)
    (hcb : s.vc.recvCallback = p.recvCallback) (hbase : s.vc.sendState.base = none)
    {r : VmeResult} (hr : p.exec lib x s = .ok (r, s')) :
    p.Fits s.setting x ∧ r = p.result lib s.setting x ∧ p.Leaves lib x s s' := by
  have hfit := fits_of_exec hc hbuf hcb hbase hr
  obtain ⟨s₁, h₁, hl⟩ := exec_refines lib hc hbuf hcb hbase hfit
  obtain ⟨rfl, rfl⟩ := Prod.mk.inj (Except.ok.inj (hr.symm.trans h₁))
  exact ⟨hfit, rfl, hl⟩

/-- What is left of a freed message matters only to a patch without a document. -/
theorem fits_of_headers {g : Setting σ} (hleft : p.method = .patch none → g.left.sizeleft = 0)
    (hheaders : HeadersFit (p.outcome g x).2.1) : p.Fits g x := by
  refine ⟨hheaders, fun hstale => ?_⟩
  rw [send, Method.send] at hstale
  have hoffline (hu : p.method.uploads = false) :
      (p.outcome g x).2.1.flatMap Callback.readOf = [] := (Intake.events_of_not_uploads hu).2
  cases hm : p.method with
  | get | delete => exact hoffline (by rw [hm]; rfl)
  | patch json =>
    cases json with
    | some json => exact hoffline (by rw [hm]; rfl)
    | none =>
      rw [hm] at hstale
      exact absurd (hleft hm) hstale.2
  | post msg | put msg =>
    rw [hm] at hstale
    cases hstale.1

end Plan

/-! ## What arrives -/

namespace Plan
variable {lib : Libcurl} {p : Plan σ} {g : Setting σ} {x : Transfer}

theorem received_eq (lib : Libcurl) :
    (p.outcome g x).1.received = (p.exchange lib g x).stored := by
  have h : (p.outcome g x).1.received = [] ++ (p.exchange lib g x).stored :=
    Intake.received_events
  rwa [List.nil_append] at h

/-- Without a callback the transfer ends as the network has it. -/
theorem res_of_none (hcb : p.recvCallback = none) : p.res g x = x.res := by
  have hdone : (p.outcome g x).2.2 = true := (Intake.events_of_none hcb).1
  rw [res, hdone, if_pos rfl]

/-- With one, a refusal ends it with an error. -/
theorem res_of_some {recvCallback : UserCallback σ} (hcb : p.recvCallback = some recvCallback) :
    p.res g x = if recvCallback.accepts g.account.callbackState x.chunks g.user = true
      then x.res else CURLE_WRITE_ERROR := by
  have hdone : (p.outcome g x).2.2 = recvCallback.accepts g.account.callbackState x.chunks g.user :=
    (Intake.events_of_some hcb).1
  rw [res, hdone]

/-- Without a callback the whole body is stored. -/
theorem exchange_of_none (lib : Libcurl) (hcb : p.recvCallback = none) :
    (p.exchange lib g x).stored = x.body ∧ (p.exchange lib g x).handed = [] ∧
      (p.exchange lib g x).headers = x.headers :=
  (Intake.events_of_none hcb).2.2

/-- With one nothing is stored, and unless it refuses one every chunk is handed
over. -/
theorem exchange_of_some (lib : Libcurl) {recvCallback : UserCallback σ}
    (hcb : p.recvCallback = some recvCallback) :
    (p.exchange lib g x).stored = [] ∧
      (recvCallback.accepts g.account.callbackState x.chunks g.user = true →
        (p.exchange lib g x).handed = x.chunks.map (g.account.callbackState, ·) ∧
          (p.exchange lib g x).headers = x.headers) := by
  have hdone : (p.outcome g x).2.2 = recvCallback.accepts g.account.callbackState x.chunks g.user :=
    (Intake.events_of_some hcb).1
  exact ⟨(Intake.events_of_some hcb).2.1,
    fun hacc => (Intake.events_of_some hcb).2.2 (hdone.trans hacc)⟩

/-- The code of the transfer. -/
theorem res_eq_ok_iff :
    p.res g x = CURLE_OK ↔
      x.res = CURLE_OK ∧ ¬ Refused p.recvCallback g.account.callbackState x g.user := by
  have hne : CURLE_WRITE_ERROR ≠ CURLE_OK := by decide
  cases hcb : p.recvCallback with
  | none => simp [res_of_none hcb, Refused]
  | some recvCallback =>
    rw [res_of_some hcb]
    simp only [Refused, Option.some.injEq, exists_eq_left']
    split <;> simp_all

end Plan

end VantiqMicro
