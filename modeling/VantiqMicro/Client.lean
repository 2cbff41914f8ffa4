import VantiqMicro.Buf
import VantiqMicro.Ctype
import VantiqMicro.Curl

/-! # The client (`vantiq_client.c`)

One `struct vantiq_client` and its one easy handle serve every operation.  A
function of the source that takes a `vantiq_client_t *` is a function on a
`Session` here: the client it points to, the application's memory (which only
the application's own callback changes), the process-wide log level, and the
exchanges made so far.

Sizes are exact in this module: the requests it makes of the buffer, and the
cast to `long`, are taken not to overflow.  The `int` length handed to
`curl_easy_escape` is reduced as C reduces it, and what `snprintf` returns is an
`int`. -/

namespace VantiqMicro
open CMem

def AUTH_HDR_KEY : CString := lit "Authorization: Bearer "
def AUTH_URL_PATH : CString := lit "/authenticate"
def JSON_CONTENTTYPE : CString := lit "Content-Type: application/json"
def VC_MAGIC : UInt8 := 0x07
def COUNT_HEADER : CString := lit "X-Total-Count:"
def LOG_DEBUG : Int := 1

/-! ## Data -/

/-- `vme_result_t`; an allocated text is the block it was allocated as. -/
structure VmeResult where
  vmeSize : Nat := 0
  vmeCount : UInt32 := 0
  vmeJsonData : Option Block := none
  vmeErrorMsg : Option Block := none
deriving DecidableEq, Repr

/-- A node of the parameter list; the list itself is a `List Param`. -/
structure Param where
  key : CString
  value : CString
deriving DecidableEq, Repr

/-- The application's receive callback: the state pointer, the data, and the
application's memory, to the size it returns and its memory afterwards. -/
abbrev UserCallback (σ : Type) := Ptr → Bytes → σ → Nat × σ

structure VantiqClient (σ : Type) where
  magic : UInt8
  apiVersion : UInt8
  resultCount : UInt32
  curl : Option Curl
  serverUrl : CString
  httpHdrs : List CString
  recvBuf : VmeBuf
  recvCallback : Option (UserCallback σ)
  callbackState : Ptr
  sendState : VcSendstate

/-- What a call on a client can reach. -/
structure Session (σ : Type) where
  vc : VantiqClient σ
  user : σ
  logLevel : Int
  wire : List Exchange

variable {σ : Type}

namespace Session

/-- `curl_easy_reset(vc->curl)`. -/
def reset (s : Session σ) : Session σ :=
  { s with vc.curl := s.vc.curl.map fun c => { c with opts := {} } }

/-- `curl_easy_setopt(vc->curl, ...)`. -/
def setopt (s : Session σ) (o : CurlOpt) : Session σ :=
  { s with vc.curl := s.vc.curl.map fun c => { c with opts := c.opts.setopt o } }

def setopts (s : Session σ) (l : List CurlOpt) : Session σ := l.foldl setopt s

end Session

/-! ## Parameters and headers -/

/-- `build_param`; `strdup` reads through both strings. -/
def buildParam (head : List Param) (key value : CString) : List Param := ⟨key, value⟩ :: head

def createAuthHdr (token : CString) : Except Fault Block := do
  let leadSz := AUTH_HDR_KEY.length + 1
  let hdr := malloc (token.length + leadSz + 1)
  let hdr ← hdr.strcpy 0 AUTH_HDR_KEY
  hdr.strcpy (leadSz - 1) token

/-! ## The callbacks -/

/-- `header_callback` on a header line of `size * nitems` bytes. -/
def headerCallback (vc : VantiqClient σ) (buffer : Bytes) : Except Fault (VantiqClient σ) := do
  let len := buffer.length
  let headerNameSz := COUNT_HEADER.length
  if headerNameSz < len ∧ strncaseeq buffer COUNT_HEADER.bytes headerNameSz = true then
    let pos := headerNameSz
    -- `char countBuf[32]`: the length of the value is not looked at
    let countBuf ← (malloc 32).memcpy 0 (cells buffer) pos (len - pos)
    let countBuf ← countBuf.store (len - pos) [some 0]
    let count ← countBuf.readString
    return { vc with resultCount := UInt32.ofInt (atoi count.bytes) }
  else
    return vc

/-- `write_callback`, with the size it returns. -/
def writeCallback (s : Session σ) (contents : Bytes) :
    Except Fault (Session σ × Callback × Nat) := do
  let realsize := contents.length
  match s.vc.recvCallback with
  | some recvCallback =>
    let (accepted, user) := recvCallback s.vc.callbackState contents s.user
    return ({ s with user }, .handed s.vc.callbackState contents accepted, accepted)
  | none =>
    -- `vmebuf_concat` asks for more room again, so this request is never the last one
    let recvBuf ← vmebufEnsureIncrSize .exact (some s.vc.recvBuf) realsize
    let recvBuf ← vmebufConcat .exact recvBuf contents
    return ({ s with vc.recvBuf := recvBuf }, .stored contents, realsize)

/-- `read_callback`, with the bytes it copies to the destination. -/
def readCallback (vc : VantiqClient σ) (bufferSize : Nat) :
    Except Fault (VantiqClient σ × Block) := do
  let ss := vc.sendState
  if ss.sizeleft ≠ 0 then
    let copyThisMuch := if bufferSize < ss.sizeleft then bufferSize else ss.sizeleft
    let base ← ss.base.elim (.error .badPointer) .ok
    let copied ← base.load ss.readptr copyThisMuch
    return ({ vc with
      sendState := { ss with
        readptr := ss.readptr + copyThisMuch
        sizeleft := ss.sizeleft - copyThisMuch } }, copied)
  else
    return (vc, [])

/-! ## `curl_easy_perform` -/

/-- One call libcurl makes, the record of it, and whether the transfer goes on. -/
def Session.callback (s : Session σ) (opts : CurlOpts) :
    TransferEvent → Except Fault (Session σ × List Callback × Bool)
  | .header line =>
    if opts.headerFunction && opts.headerData then do
      let vc ← headerCallback s.vc line
      return ({ s with vc }, [.header line], true)
    else
      .ok (s, [], true)
  | .body chunk =>
    if opts.writeFunction && opts.writeData then do
      let (s, cb, realsize) ← writeCallback s chunk
      return (s, [cb], realsize = chunk.length)
    else
      .ok (s, [], true)
  | .send capacity =>
    if opts.uploads then do
      let (vc, copied) ← readCallback s.vc capacity
      return ({ s with vc }, [.read capacity copied vc.sendState], true)
    else
      .ok (s, [], true)

/-- The calls of a transfer, until one ends it. -/
def Session.callbacks (s : Session σ) (opts : CurlOpts) :
    List TransferEvent → Except Fault (Session σ × List Callback × Bool)
  | [] => .ok (s, [], true)
  | ev :: evs => do
    let (s, cbs, goOn) ← s.callback opts ev
    if goOn then
      let (s, cbs', completed) ← s.callbacks opts evs
      return (s, cbs ++ cbs', completed)
    else
      return (s, cbs, false)

/-- The request the handle's options and the client's send state make. -/
def Session.request (s : Session σ) (opts : CurlOpts) : Request where
  verb := opts.verb
  url := opts.url
  headers := opts.httpHeader
  opts := opts
  body :=
    match opts.postFields with
    | some json => cells json.bytes
    | none => if opts.uploads then s.vc.sendState.rest else []

/-- `curl_easy_perform(vc->curl)`, with the text it leaves in the registered error
buffer (empty if none is). -/
def Session.perform (s : Session σ) (x : Transfer) :
    Except Fault (Session σ × CURLcode × CString) := do
  match s.vc.curl with
  | none => return (s, CURLE_BAD_FUNCTION_ARGUMENT, lit "")
  | some curl =>
    let request := s.request curl.opts
    let (s, callbacks, completed) ← s.callbacks curl.opts x.events
    let res := if completed then x.res else CURLE_WRITE_ERROR
    let errBuf := if curl.opts.errorBuffer ∧ res ≠ CURLE_OK then x.errText else lit ""
    return ({ s with
      vc.curl := some { curl with responseCode := x.status }
      wire := s.wire ++ [{ request, callbacks, res, status := x.status }] }, res, errBuf)

/-! ## The client's functions -/

/-- The parameter loop of `create_url`. -/
def urlParams (lib : Libcurl) (urlbuf : VmeBuf) : List Param → Except Fault VmeBuf
  | [] => .ok urlbuf
  | p :: next => do
    let urlbuf ← vmebufConcat .exact urlbuf p.key.bytes
    let urlbuf ← vmebufPush .exact urlbuf 61
    let value := (lib.easyEscape p.value (toInt p.value.length)).getD p.value
    let urlbuf ← vmebufConcat .exact urlbuf value.bytes
    let urlbuf ← if next ≠ [] then vmebufPush .exact urlbuf 59 else .ok urlbuf
    urlParams lib urlbuf next

def createUrl (lib : Libcurl) (vc : VantiqClient σ) (rsURI : CString) (params : List Param) :
    Except Fault Block := do
  let len := vc.serverUrl.length + rsURI.length + 1
  let urlbuf := vmebufEnsureSize none len
  let urlbuf ← vmebufConcat .exact urlbuf vc.serverUrl.bytes
  let urlbuf ← vmebufConcat .exact urlbuf rsURI.bytes
  let urlbuf ← if params ≠ [] then vmebufPush .exact urlbuf 63 else .ok urlbuf
  let urlbuf ← urlParams lib urlbuf params
  vmebufTostr .exact urlbuf

/-- The options `common_curl_setup` sets, in its order. -/
def commonOptions (logLevel : Int) (httpHdrs : List CString) : List CurlOpt :=
  [.followLocation true, .sslVerifyPeer 1, .sslVerifyHost 1]
    ++ (if logLevel ≤ LOG_DEBUG then [.verbose true] else [])
    ++ [.failOnError false, .httpHeader httpHdrs, .readFunction, .writeFunction, .headerFunction,
      .readData, .writeData, .headerData, .lowSpeedTime 60, .lowSpeedLimit 30]

def commonCurlSetup (s : Session σ) : Session σ :=
  s.reset.setopts (commonOptions s.logLevel s.vc.httpHdrs)

/-- `prepare_result`, on the session's client. -/
def prepareResult (lib : Libcurl) (resCode : CURLcode) (protErrMsg : CString) (s : Session σ) :
    Except Fault (VmeResult × Session σ) := do
  let result : VmeResult := {}
  let msg := if 0 < protErrMsg.length then protErrMsg else lib.easyStrerror resCode
  let result :=
    if resCode ≠ CURLE_OK then { result with vmeErrorMsg := some msg.toBlock } else result
  let len := s.vc.recvBuf.len
  let result ←
    if 0 < len then do
      -- some kind of response message: an error explanation or valid results
      let rc := (s.vc.curl.map Curl.responseCode).getD 0
      let result := { result with vmeSize := len }
      let copy ← (malloc len).memcpy 0 s.vc.recvBuf.data 0 len
      if 400 ≤ rc then
        .ok { result with vmeErrorMsg := some copy }
      else
        .ok { result with vmeJsonData := some copy }
    else
      .ok result
  return ({ result with vmeCount := s.vc.resultCount }, { s with vc.resultCount := 0 })

/-- `_putorpost`. -/
def _putorpost (lib : Libcurl) (rsURI : CString) (msg : VmeBuf) (params : List Param)
    (x : Transfer) (s : Session σ) : Except Fault (VmeResult × Session σ) := do
  let topicUrl ← createUrl lib s.vc rsURI params
  let s := s.setopt (.url (← topicUrl.readString))
  let s := { s with
    vc.sendState := { base := some msg.data, readptr := 0, sizeleft := msg.len } }
  let s := { s with vc.recvBuf := vmebufTruncate s.vc.recvBuf }
  let s := s.setopt (.postFieldSize s.vc.sendState.sizeleft)
  let s := s.setopt .errorBuffer
  let (s, resCode, errbuf) ← s.perform x
  let (result, s) ← prepareResult lib resCode errbuf s
  return (result, s.reset)

def vcPut (lib : Libcurl) (rsURI : CString) (msg : VmeBuf) (params : List Param)
    (x : Transfer) (s : Session σ) : Except Fault (VmeResult × Session σ) :=
  let s := commonCurlSetup s
  let s := s.setopt .put
  _putorpost lib rsURI msg params x s

def vcPost (lib : Libcurl) (rsURI : CString) (msg : VmeBuf) (params : List Param)
    (x : Transfer) (s : Session σ) : Except Fault (VmeResult × Session σ) :=
  let s := commonCurlSetup s
  let s := s.setopt .post
  _putorpost lib rsURI msg params x s

/-- `_getordelete`; it registers no error buffer, so `errBuf` stays empty. -/
def _getordelete (lib : Libcurl) (rsURI : CString) (params : List Param)
    (x : Transfer) (s : Session σ) : Except Fault (VmeResult × Session σ) := do
  let url ← createUrl lib s.vc rsURI params
  let s := s.setopt (.url (← url.readString))
  let s := { s with vc.recvBuf := { s.vc.recvBuf with len := 0 } }
  let (s, res, errBuf) ← s.perform x
  let (result, s) ← prepareResult lib res errBuf s
  return (result, s.reset)

def vcGet (lib : Libcurl) (rsURI : CString) (params : List Param)
    (x : Transfer) (s : Session σ) : Except Fault (VmeResult × Session σ) :=
  let s := commonCurlSetup s
  let s := s.setopt .httpGet
  _getordelete lib rsURI params x s

def vcDelete (lib : Libcurl) (rsURI : CString) (params : List Param)
    (x : Transfer) (s : Session σ) : Except Fault (VmeResult × Session σ) :=
  let s := commonCurlSetup s
  let s := s.setopt (.customRequest (lit "DELETE"))
  _getordelete lib rsURI params x s

def vcPatch (lib : Libcurl) (rsURI : CString) (json : Option CString)
    (x : Transfer) (s : Session σ) : Except Fault (VmeResult × Session σ) := do
  let s := commonCurlSetup s
  let s := s.setopt (.customRequest (lit "PATCH"))
  let s := s.setopt (.postFields json)
  let topicUrl ← createUrl lib s.vc rsURI []
  let s := s.setopt (.url (← topicUrl.readString))
  let s := { s with vc.recvBuf := vmebufTruncate s.vc.recvBuf }
  let s := s.setopt .errorBuffer
  let (s, resCode, errbuf) ← s.perform x
  let (result, s) ← prepareResult lib resCode errbuf s
  return (result, s.reset)

def vcAggregate (lib : Libcurl) (rsURI : CString) (params : List Param)
    (x : Transfer) (s : Session σ) : Except Fault (VmeResult × Session σ) :=
  let s := commonCurlSetup s
  let s := s.setopt .httpGet
  _getordelete lib rsURI params x s

/-- `vmebuf_ensure_size(NULL, size)` and `vmebuf_concat`, as every upload starts; the latter
asserts that there is a document. -/
def messageBuf (json : Option Bytes) : Except Fault VmeBuf := do
  assert (json ≠ none)
  let json := json.getD []
  vmebufConcat .exact (vmebufEnsureSize none json.length) json

/-- A request with a message, and `vmebuf_dealloc(msg)`: `send_state` goes on pointing where
the message was. -/
def freeingMessage {α : Type} (f : Session σ → Except Fault (α × Session σ)) (s : Session σ) :
    Except Fault (α × Session σ) := do
  let (result, s) ← f s
  return (result, { s with vc.sendState.base := none })

/-- A string that `strlen` or `strdup` reads through, whether it is `NULL` or not. -/
def derefString : Option CString → Except Fault CString
  | some s => .ok s
  | none => .error .nullPointer

def vcExecute (lib : Libcurl) (rsURI : CString) (argsDoc : Option CString)
    (x : Transfer) (s : Session σ) : Except Fault (VmeResult × Session σ) := do
  let argsDoc ← derefString argsDoc
  let msg ← messageBuf (some argsDoc.bytes)
  let s := commonCurlSetup s
  let s := s.setopt .post
  freeingMessage (_putorpost lib rsURI msg [] x) s

def vcQuery (lib : Libcurl) (rsURI : CString) (qParams : Option CString)
    (x : Transfer) (s : Session σ) : Except Fault (VmeResult × Session σ) := do
  let qParams ← derefString qParams
  let msg ← messageBuf (some qParams.bytes)
  let s := commonCurlSetup s
  let s := s.setopt .post
  freeingMessage (_putorpost lib rsURI msg [] x) s

/-- The part of `vc_init` that stores the server's URL. -/
def copyUrl (url : CString) : Except Fault Block := do
  let len := url.length
  if (← url.lastChar) = 47 then
    -- trim trailing slash
    let serverUrl ← (malloc len).memcpy 0 (cells url.bytes) 0 (len - 1)
    serverUrl.store (len - 1) [some 0]
  else
    return url.toBlock

/-- The part of `vc_init` that makes the authentication request, once there is a
handle.  The result says whether the client is returned. -/
def authenticate (auth : Transfer) (s : Session σ) : Except Fault (Bool × Session σ) := do
  let s := commonCurlSetup s
  let len := s.vc.serverUrl.length + (AUTH_URL_PATH.length + 1)
  let (_, authUrl) ← (malloc len).snprintf INT_MAX len (s.vc.serverUrl ++ AUTH_URL_PATH)
  let s := s.setopt (.url (← authUrl.readString))
  let s := s.setopt .httpGet
  let (s, result, _) ← s.perform auth
  let s := { s with vc.httpHdrs := s.vc.httpHdrs ++ [JSON_CONTENTTYPE] ++ [lit "Expect:"] }
  let httpCode : Nat := (s.vc.curl.map Curl.responseCode).getD 0
  let s := s.reset
  -- the handle is given up only if both went wrong
  if result ≠ CURLE_OK ∧ httpCode ≠ 200 then
    return (false, s)
  else
    return (true, s)

/-- The arguments of `vc_init` and what it runs into. -/
structure InitArgs where
  url : CString
  authToken : CString
  apiVersion : UInt8
  /-- What `curl_global_init` returns. -/
  globalInit : CURLcode
  /-- `curl_easy_init` returns a handle. -/
  easyInit : Bool
  /-- The authentication transfer. -/
  auth : Transfer
deriving DecidableEq, Repr

/-- `vc_init` in fresh memory.  The result says whether the client is returned; if
not, it is `NULL` that is returned, and the client stays behind in memory as it is
then. -/
def vcInit (a : InitArgs) (user : σ) (logLevel : Int) : Except Fault (Bool × Session σ) := do
  let authHdr ← createAuthHdr a.authToken
  let httpHdrs := [← authHdr.readString]
  let serverUrl ← copyUrl a.url
  let serverUrl ← serverUrl.readString
  let vc : VantiqClient σ :=
    { magic := VC_MAGIC, apiVersion := a.apiVersion, resultCount := 0, curl := none, serverUrl,
      httpHdrs, recvBuf := vmebufAlloc, recvCallback := none, callbackState := 0,
      sendState := { base := none, readptr := 0, sizeleft := 0 } }
  let s : Session σ := { vc, user, logLevel, wire := [] }
  if a.globalInit ≠ CURLE_OK then
    return (false, s)
  if a.easyInit = false then
    return (false, s)
  authenticate a.auth { s with vc.curl := some {} }

end VantiqMicro
