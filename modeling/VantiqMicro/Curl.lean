import VantiqMicro.Block

/-! # libcurl, as the client uses it

libcurl is not part of the repository.  What the client relies on is its
documented interface: an easy handle is a set of options, each set by
`curl_easy_setopt` and all put back to their defaults by `curl_easy_reset`; a
transfer calls the callbacks the options name, in whatever order the network
dictates, and ends with a code.

A `Transfer` is everything the network and the server decide: the calls, the
final code and status, the text for the error buffer.  Nothing is assumed about
it.  What libcurl decides is modelled with it: a write callback that does not
take its whole chunk ends the transfer with `CURLE_WRITE_ERROR`, and the read
callback is called only by an upload without `CURLOPT_POSTFIELDS`. -/

namespace VantiqMicro
open CMem

abbrev CURLcode := Nat

def CURLE_OK : CURLcode := 0
def CURLE_WRITE_ERROR : CURLcode := 23
def CURLE_BAD_FUNCTION_ARGUMENT : CURLcode := 43

/-- The two library functions whose results the client passes on. -/
structure Libcurl where
  /-- `curl_easy_escape(curl, string, length)`; `none` on failure. -/
  easyEscape : CString → Int → Option CString
  /-- `curl_easy_strerror`. -/
  easyStrerror : CURLcode → CString

/-! ## Options -/

/-- The request libcurl makes unless `CURLOPT_CUSTOMREQUEST` renames it. -/
inductive HttpReq
  | get
  | post
  | put
deriving DecidableEq, Repr

/-- The options of an easy handle.  A callback option is `true` once it is set to
the client's own function, a data option once it is set to the client. -/
structure CurlOpts where
  url : Option CString := none
  followLocation : Bool := false
  sslVerifyPeer : Nat := 1
  sslVerifyHost : Nat := 2
  verbose : Bool := false
  failOnError : Bool := false
  httpHeader : List CString := []
  httpReq : HttpReq := .get
  customRequest : Option CString := none
  /-- The caller's document, which libcurl does not copy.  Set to `NULL` it is as good as
  not set. -/
  postFields : Option CString := none
  postFieldSize : Int := -1
  readFunction : Bool := false
  writeFunction : Bool := false
  headerFunction : Bool := false
  readData : Bool := false
  writeData : Bool := false
  headerData : Bool := false
  lowSpeedTime : Nat := 0
  lowSpeedLimit : Nat := 0
  /-- Set to the operation's own buffer on the stack. -/
  errorBuffer : Bool := false
deriving DecidableEq, Repr

/-- A call of `curl_easy_setopt`, named after its `CURLOPT_` constant. -/
inductive CurlOpt
  | url (s : CString)
  | followLocation (on : Bool)
  | sslVerifyPeer (n : Nat)
  | sslVerifyHost (n : Nat)
  | verbose (on : Bool)
  | failOnError (on : Bool)
  | httpHeader (l : List CString)
  | httpGet
  | post
  | put
  | customRequest (verb : CString)
  | postFields (s : Option CString)
  | postFieldSize (n : Int)
  | readFunction
  | writeFunction
  | headerFunction
  | readData
  | writeData
  | headerData
  | lowSpeedTime (n : Nat)
  | lowSpeedLimit (n : Nat)
  | errorBuffer
deriving DecidableEq, Repr

namespace CurlOpts

/-- `curl_easy_setopt`.  `CURLOPT_POSTFIELDS` also makes the request a POST. -/
def setopt (o : CurlOpts) : CurlOpt → CurlOpts
  | .url s => { o with url := some s }
  | .followLocation on => { o with followLocation := on }
  | .sslVerifyPeer n => { o with sslVerifyPeer := n }
  | .sslVerifyHost n => { o with sslVerifyHost := n }
  | .verbose on => { o with verbose := on }
  | .failOnError on => { o with failOnError := on }
  | .httpHeader l => { o with httpHeader := l }
  | .httpGet => { o with httpReq := .get }
  | .post => { o with httpReq := .post }
  | .put => { o with httpReq := .put }
  | .customRequest verb => { o with customRequest := some verb }
  | .postFields s => { o with postFields := s, httpReq := .post }
  | .postFieldSize n => { o with postFieldSize := n }
  | .readFunction => { o with readFunction := true }
  | .writeFunction => { o with writeFunction := true }
  | .headerFunction => { o with headerFunction := true }
  | .readData => { o with readData := true }
  | .writeData => { o with writeData := true }
  | .headerData => { o with headerData := true }
  | .lowSpeedTime n => { o with lowSpeedTime := n }
  | .lowSpeedLimit n => { o with lowSpeedLimit := n }
  | .errorBuffer => { o with errorBuffer := true }

/-- A sequence of `curl_easy_setopt` calls. -/
def setopts (o : CurlOpts) (l : List CurlOpt) : CurlOpts := l.foldl setopt o

/-- The verb on the request line. -/
def verb (o : CurlOpts) : CString :=
  o.customRequest.getD
    (match o.httpReq with
      | .get => lit "GET"
      | .post => lit "POST"
      | .put => lit "PUT")

/-- The transfer takes its body from the client's read callback. -/
def uploads (o : CurlOpts) : Bool :=
  o.httpReq ≠ .get && o.postFields.isNone && o.readFunction && o.readData

end CurlOpts

/-- An easy handle: its options and what `CURLINFO_RESPONSE_CODE` reports. -/
structure Curl where
  opts : CurlOpts := {}
  responseCode : Nat := 0
deriving DecidableEq, Repr

/-! ## Transfers -/

/-- One call libcurl makes during a transfer. -/
inductive TransferEvent
  /-- One response header line, as received. -/
  | header (line : Bytes)
  /-- A piece of the response body. -/
  | body (chunk : Bytes)
  /-- Room for `capacity` bytes of the request body. -/
  | send (capacity : Nat)
deriving DecidableEq, Repr

/-- What the network and the server do to one `curl_easy_perform`. -/
structure Transfer where
  events : List TransferEvent
  res : CURLcode
  status : Nat
  /-- What a failing transfer writes to the error buffer. -/
  errText : CString
deriving DecidableEq, Repr

namespace TransferEvent

def chunkOf : TransferEvent → List Bytes
  | body chunk => [chunk]
  | _ => []

def headerOf : TransferEvent → List Bytes
  | header line => [line]
  | _ => []

def capacityOf : TransferEvent → List Nat
  | send capacity => [capacity]
  | _ => []

end TransferEvent

namespace Transfer

/-- The pieces the response body arrives in. -/
def chunks (x : Transfer) : List Bytes := x.events.flatMap TransferEvent.chunkOf

/-- The response body. -/
def body (x : Transfer) : Bytes := x.chunks.flatten

/-- The response header lines. -/
def headers (x : Transfer) : List Bytes := x.events.flatMap TransferEvent.headerOf

/-- The rooms offered to the read callback. -/
def capacities (x : Transfer) : List Nat := x.events.flatMap TransferEvent.capacityOf

end Transfer

/-! ## What goes over the wire -/

/-- A request as it is handed to libcurl.  `url` is the `CURLOPT_URL` string, before libcurl
normalises it and before any redirection. -/
structure Request where
  verb : CString
  url : Option CString
  headers : List CString
  opts : CurlOpts
  /-- The body: `CURLOPT_POSTFIELDS`, or what the read callback has to deliver. -/
  body : Block
deriving DecidableEq, Repr

/-- The message `readptr` points into, as long as it is not freed, where in it, and the bytes
left. -/
structure VcSendstate where
  base : Option Block
  readptr : Nat
  sizeleft : Nat
deriving DecidableEq, Repr

namespace VcSendstate

/-- What is left to be sent.  What stands in a message that was freed is anyone's. -/
def rest (ss : VcSendstate) : Block :=
  match ss.base with
  | some base => (base.drop ss.readptr).take ss.sizeleft
  | none => malloc ss.sizeleft

/-- Bytes are left of a message that was freed. -/
def Stale (ss : VcSendstate) : Prop := ss.base = none ∧ ss.sizeleft ≠ 0

end VcSendstate

/-- A pointer libvme only passes on. -/
abbrev Ptr := Nat

/-- A callback call as it happened. -/
inductive Callback
  | header (line : Bytes)
  /-- A chunk appended to the receive buffer. -/
  | stored (chunk : Bytes)
  /-- A chunk handed to the application's callback, and what that returned. -/
  | handed (state : Ptr) (chunk : Bytes) (accepted : Nat)
  /-- What the read callback copied into room for `capacity` bytes, and the send
  state it left. -/
  | read (capacity : Nat) (copied : Block) (left : VcSendstate)
deriving DecidableEq, Repr

namespace Callback

def headerOf : Callback → List Bytes
  | header line => [line]
  | _ => []

def storedOf : Callback → Bytes
  | stored chunk => chunk
  | _ => []

def handedOf : Callback → List (Ptr × Bytes)
  | handed state chunk _ => [(state, chunk)]
  | _ => []

def readOf : Callback → List (Nat × Block × VcSendstate)
  | read capacity copied left => [(capacity, copied, left)]
  | _ => []

end Callback

/-- A `curl_easy_perform`: the request, the calls it made, and its outcome. -/
structure Exchange where
  request : Request
  callbacks : List Callback
  res : CURLcode
  status : Nat
deriving DecidableEq, Repr

namespace Exchange

/-- The header lines received. -/
def headers (e : Exchange) : List Bytes := e.callbacks.flatMap Callback.headerOf

/-- The bytes appended to the receive buffer. -/
def stored (e : Exchange) : Bytes := e.callbacks.flatMap Callback.storedOf

/-- The chunks handed to the application's callback, with the state pointer. -/
def handed (e : Exchange) : List (Ptr × Bytes) := e.callbacks.flatMap Callback.handedOf

/-- The read callback's calls: capacity, bytes copied, send state left. -/
def reads (e : Exchange) : List (Nat × Block × VcSendstate) := e.callbacks.flatMap Callback.readOf

end Exchange

end VantiqMicro
