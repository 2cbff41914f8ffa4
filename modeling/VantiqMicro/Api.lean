import VantiqMicro.Client
import VantiqMicro.ResourceUri

/-! # The API (`vme.c`)

A `VME` handle is an address.  What stands there is a live client, or memory that
holds none: a freed block, an object of another kind.  `vc_from_vme` tells them
apart by the one byte it reads there, so the model keeps that byte.  A call on a
live client runs the client's functions on it (`World.onClient`); a call through
any other address that passes the check is a fault. -/

namespace VantiqMicro
open CMem

abbrev Addr := Nat

/-- The `void *` an application holds. -/
abbrev VME := Addr

def NULL : VME := 0

/-- What a handle can point to. -/
inductive Referent (σ : Type)
  | unmapped
  | client (vc : VantiqClient σ)
  /-- Readable memory that holds no live client, by its first byte. -/
  | other (first : UInt8)

/-- The process: its heap as far as handles see it, the application's memory, the
log level, and the exchanges made, each with the client that made it. -/
structure World (σ : Type) where
  heap : Addr → Referent σ
  user : σ
  logLevel : Int
  wire : List (Addr × Exchange)

variable {σ : Type}

/-- `w` with `r` standing at `p`. -/
def World.put (w : World σ) (p : Addr) (r : Referent σ) : World σ :=
  { w with heap := fun q => if q = p then r else w.heap q }

/-- The session of the client at `p`. -/
def World.session (w : World σ) (vc : VantiqClient σ) : Session σ :=
  { vc, user := w.user, logLevel := w.logLevel, wire := [] }

/-- The world after the client at `p` ended up in session `s`. -/
def World.leave (w : World σ) (p : Addr) (s : Session σ) : World σ :=
  { w.put p (.client s.vc) with
    user := s.user
    wire := w.wire ++ s.wire.map fun e => (p, e) }

/-- A function of the client `p` points to. -/
def World.onClient {α : Type} (w : World σ) (p : Addr)
    (f : Session σ → Except Fault (α × Session σ)) : Except Fault (α × World σ) :=
  match w.heap p with
  | .client vc => do
    let (a, s) ← f (w.session vc)
    return (a, w.leave p s)
  | _ => .error .badPointer

/-- `vc_is_valid`. -/
def vcIsValid (w : World σ) (vc : Addr) : Except Fault Bool :=
  if vc = NULL then .ok false
  else
    match w.heap vc with
    | .unmapped => .error .badPointer
    | .client c => .ok (c.magic == VC_MAGIC)
    | .other first => .ok (first == VC_MAGIC)

/-- `vc_from_vme`. -/
def vcFromVme (w : World σ) (vme : VME) : Except Fault (Option Addr) := do
  if (← vcIsValid w vme) then
    return some vme
  else
    return none

def vmeErrorResult (errMsg : CString) : VmeResult := { vmeErrorMsg := some errMsg.toBlock }

def INVALID_HANDLE : CString := lit "invalid VME handle"

/-! ## Setup and teardown -/

/-- `vme_init`, when the allocator places the client at `addr`. -/
def vmeInit (w : World σ) (addr : Addr) (a : InitArgs) : Except Fault (VME × World σ) := do
  let (returned, s) ← vcInit a w.user w.logLevel
  return (if returned then addr else NULL, w.leave addr s)

/-- `vme_teardown`; `left` is the byte the allocator leaves where the magic stood. -/
def vmeTeardown (w : World σ) (vme : VME) (left : UInt8) : Except Fault (World σ) := do
  match ← vcFromVme w vme with
  | none => return w
  | some vc =>
    match w.heap vc with
    -- the client is freed, and no longer readable as one
    | .client _ => return w.put vc (.other left)
    | _ => .error .badPointer

def vmeCallbackState (w : World σ) (vme : VME) (state : Ptr) : Except Fault (World σ) := do
  match ← vcFromVme w vme with
  | none => return w
  | some vc =>
    let ((), w) ← w.onClient vc fun s => .ok ((), { s with vc.callbackState := state })
    return w

/-- `vme_build_system_rsuri`. -/
def vmeBuildSystemRsuri (w : World σ) (vme : VME) (systype : VmeRstype)
    (rsName rsID : Option CString) : Except Fault (Option Block) := do
  match ← vcFromVme w vme with
  | none => return none
  | some vc =>
    match w.heap vc with
    | .client c =>
      let path ← buildRsuri INT_MAX c.apiVersion.toNat (← vmeMaptoRsname systype) rsName rsID
      return some path
    | _ => .error .badPointer

/-- `vme_build_custom_rsuri`. -/
def vmeBuildCustomRsuri (w : World σ) (vme : VME) (rsName rsID : Option CString) :
    Except Fault (Option Block) :=
  vmeBuildSystemRsuri w vme .CUSTOM rsName rsID

/-- A path that was built is used as a string; `NULL` would be read through. -/
def derefPath : Option Block → Except Fault CString
  | some path => path.readString
  | none => .error .nullPointer

/-! ## Selects -/

/-- `_select`. -/
def _select (lib : Libcurl) (w : World σ) (vme : VME) (rsURI : CString) (params : List Param)
    (x : Transfer) : Except Fault (VmeResult × World σ) := do
  match ← vcFromVme w vme with
  | none => return (vmeErrorResult INVALID_HANDLE, w)
  | some vc => w.onClient vc (vcGet lib rsURI params x)

/-- `if (value != NULL) params = build_param(params, key, value)`. -/
def buildOptParam (params : List Param) (key : CString) : Option CString → List Param
  | some value => buildParam params key value
  | none => params

/-- `if (n > 0) params = build_param(params, key, "%d")`. -/
def buildIntParam (params : List Param) (key : CString) (n : Int) : List Param :=
  if 0 < n then buildParam params key (decimal n.toNat) else params

def buildSelectParams (propSpecs whereClause sortSpec : Option CString) (page limit : Int) :
    List Param :=
  let params := []
  let params := buildOptParam params (lit "props") propSpecs
  let params := buildOptParam params (lit "where") whereClause
  let params := buildOptParam params (lit "sort") sortSpec
  let params := buildIntParam params (lit "page") page
  buildIntParam params (lit "limit") limit

def vmeSelect (lib : Libcurl) (w : World σ) (vme : VME) (rsURI : CString)
    (propSpecs whereClause sortSpec : Option CString) (page limit : Int) (x : Transfer) :
    Except Fault (VmeResult × World σ) :=
  let params := buildSelectParams propSpecs whereClause sortSpec page limit
  _select lib w vme rsURI params x

def vmeSelectCallback (lib : Libcurl) (w : World σ) (vme : VME) (rsURI : CString)
    (propSpecs whereClause sortSpec : Option CString) (page limit : Int)
    (callback : Option (UserCallback σ)) (x : Transfer) :
    Except Fault (VmeResult × World σ) := do
  match ← vcFromVme w vme with
  | none => return (vmeErrorResult INVALID_HANDLE, w)
  | some vc =>
    let ((), w) ← w.onClient vc fun s => .ok ((), { s with vc.recvCallback := callback })
    let (result, w) ← vmeSelect lib w vme rsURI propSpecs whereClause sortSpec page limit x
    let ((), w) ← w.onClient vc fun s => .ok ((), { s with vc.recvCallback := none })
    return (result, w)

def vmeSelectCount (lib : Libcurl) (w : World σ) (vme : VME) (rsURI : CString)
    (propSpecs whereClause sortSpec : Option CString) (x : Transfer) :
    Except Fault (VmeResult × World σ) := do
  match ← vcFromVme w vme with
  | none => return (vmeErrorResult INVALID_HANDLE, w)
  | some _ =>
    let params := buildSelectParams propSpecs whereClause sortSpec 0 0
    let params := buildParam params (lit "count") (lit "true")
    _select lib w vme rsURI params x

def vmeSelectOne (lib : Libcurl) (w : World σ) (vme : VME) (rsURI : CString)
    (props whereClause : Option CString) (x : Transfer) :
    Except Fault (VmeResult × World σ) :=
  vmeSelect lib w vme rsURI props whereClause none 0 1 x

/-! ## Deletes -/

/-- `_delete`. -/
def _delete (lib : Libcurl) (w : World σ) (vme : VME) (rsURI : CString)
    (whereClause : Option CString) (count : Bool) (x : Transfer) :
    Except Fault (VmeResult × World σ) := do
  match ← vcFromVme w vme with
  | none => return (vmeErrorResult INVALID_HANDLE, w)
  | some vc =>
    let params := buildOptParam [] (lit "where") whereClause
    let params := if count then buildParam params (lit "count") (lit "true") else params
    w.onClient vc (vcDelete lib rsURI params x)

def vmeDeleteCount (lib : Libcurl) (w : World σ) (vme : VME) (rsURI : CString)
    (whereClause : Option CString) (x : Transfer) : Except Fault (VmeResult × World σ) :=
  _delete lib w vme rsURI whereClause true x

def vmeDelete (lib : Libcurl) (w : World σ) (vme : VME) (rsURI : CString)
    (whereClause : Option CString) (x : Transfer) : Except Fault (VmeResult × World σ) :=
  _delete lib w vme rsURI whereClause false x

/-! ## Uploads

`json` is the `size` bytes at the pointer the caller passes, or `none` for `NULL`. -/

/-- `_insert`. -/
def _insert (lib : Libcurl) (w : World σ) (vme : VME) (rsURI : CString) (json : Option Bytes)
    (params : List Param) (x : Transfer) : Except Fault (VmeResult × World σ) := do
  match ← vcFromVme w vme with
  | none => return (vmeErrorResult INVALID_HANDLE, w)
  | some vc =>
    let msg ← messageBuf json
    w.onClient vc (freeingMessage (vcPost lib rsURI msg params x))

def vmeInsert (lib : Libcurl) (w : World σ) (vme : VME) (rsURI : CString) (json : Option Bytes)
    (x : Transfer) : Except Fault (VmeResult × World σ) :=
  _insert lib w vme rsURI json [] x

def vmeUpdate (lib : Libcurl) (w : World σ) (vme : VME) (rsURI : CString) (json : Option Bytes)
    (x : Transfer) : Except Fault (VmeResult × World σ) := do
  match ← vcFromVme w vme with
  | none => return (vmeErrorResult INVALID_HANDLE, w)
  | some vc =>
    let msg ← messageBuf json
    w.onClient vc (freeingMessage (vcPut lib rsURI msg [] x))

def vmeUpsert (lib : Libcurl) (w : World σ) (vme : VME) (rsURI : CString) (json : Option Bytes)
    (x : Transfer) : Except Fault (VmeResult × World σ) := do
  match ← vcFromVme w vme with
  | none => return (vmeErrorResult INVALID_HANDLE, w)
  | some vc =>
    let msg ← messageBuf json
    let params := buildParam [] (lit "upsert") (lit "true")
    w.onClient vc (freeingMessage (vcPost lib rsURI msg params x))

def vmePublish (lib : Libcurl) (w : World σ) (vme : VME) (topic : CString) (json : Option Bytes)
    (x : Transfer) : Except Fault (VmeResult × World σ) := do
  -- the message is built before the handle is checked
  let msg ← messageBuf json
  match ← vcFromVme w vme with
  | none => return (vmeErrorResult INVALID_HANDLE, w)
  | some vc =>
    let rsURI ← derefPath (← vmeBuildSystemRsuri w vme .TOPICS (some topic) none)
    w.onClient vc (freeingMessage (vcPost lib rsURI msg [] x))

/-! ## The other operations -/

/-- `vme_patch`, the one operation that returns `NULL` for an invalid handle. -/
def vmePatch (lib : Libcurl) (w : World σ) (vme : VME) (rsURI : CString) (json : Option CString)
    (x : Transfer) : Except Fault (Option VmeResult × World σ) := do
  match ← vcFromVme w vme with
  | none => return (none, w)
  | some vc =>
    let (result, w) ← w.onClient vc (vcPatch lib rsURI json x)
    return (some result, w)

/-- What `vme_query_source` prints. -/
def sourcePath (sourceID : CString) : CString := lit "/sources/" ++ sourceID ++ lit "/query"

/-- The `sourceURI` of `vme_query_source`, which does not look at what `snprintf` returns. -/
def querySourceURI (INT_MAX : Nat) (sourceID : CString) : Except Fault Block := do
  let len := ((lit "/sources/query/").length + 1) + sourceID.length
  let (_, sourceURI) ← (malloc len).snprintf INT_MAX len (sourcePath sourceID)
  return sourceURI

def vmeQuerySource (lib : Libcurl) (w : World σ) (vme : VME) (sourceID : CString)
    (qParams : Option CString) (x : Transfer) : Except Fault (VmeResult × World σ) := do
  match ← vcFromVme w vme with
  | none => return (vmeErrorResult INVALID_HANDLE, w)
  | some vc =>
    let sourceURI ← querySourceURI INT_MAX sourceID
    w.onClient vc (vcQuery lib (← sourceURI.readString) qParams x)

/-- The `aggRsURI` of `vme_aggregate`. -/
def aggregateRsURI (rsURI : CString) : Except Fault Block := do
  let len := rsURI.length
  let aggRsURI := malloc (len + ((lit "/aggregate").length + 1))
  let aggRsURI ← aggRsURI.strcpy 0 rsURI
  -- `rsURI[len - 1]`, which is in front of an empty string
  if (← rsURI.lastChar) = 47 then aggRsURI.strcat (lit "aggregate")
  else aggRsURI.strcat (lit "/aggregate")

/-- `vme_aggregate`; `build_param` reads through `pipeline` without a check. -/
def vmeAggregate (lib : Libcurl) (w : World σ) (vme : VME) (rsURI : CString)
    (pipeline : Option CString) (x : Transfer) : Except Fault (VmeResult × World σ) := do
  match ← vcFromVme w vme with
  | none => return (vmeErrorResult INVALID_HANDLE, w)
  | some vc =>
    let aggRsURI ← aggregateRsURI rsURI
    let params := buildParam [] (lit "pipeline") (← derefString pipeline)
    w.onClient vc (vcAggregate lib (← aggRsURI.readString) params x)

def vmeExecute (lib : Libcurl) (w : World σ) (vme : VME) (procID : CString)
    (argsDoc : Option CString) (x : Transfer) : Except Fault (VmeResult × World σ) := do
  match ← vcFromVme w vme with
  | none => return (vmeErrorResult INVALID_HANDLE, w)
  | some vc =>
    let rsURI ← derefPath (← vmeBuildSystemRsuri w vme .PROCEDURES (some procID) none)
    w.onClient vc (vcExecute lib rsURI argsDoc x)

/-! ## Operations as data -/

/-- A request operation and its arguments.  A document that may be missing is an `Option`;
paths, topics and identifiers are given. -/
inductive Op (σ : Type)
  | select (rsURI : CString) (propSpecs whereClause sortSpec : Option CString) (page limit : Int)
  | selectOne (rsURI : CString) (props whereClause : Option CString)
  | selectCount (rsURI : CString) (propSpecs whereClause sortSpec : Option CString)
  | selectCallback (rsURI : CString) (propSpecs whereClause sortSpec : Option CString)
      (page limit : Int) (callback : Option (UserCallback σ))
  | insert (rsURI : CString) (json : Option Bytes)
  | update (rsURI : CString) (json : Option Bytes)
  | upsert (rsURI : CString) (json : Option Bytes)
  | delete (rsURI : CString) (whereClause : Option CString)
  | deleteCount (rsURI : CString) (whereClause : Option CString)
  | patch (rsURI : CString) (json : Option CString)
  | publish (topic : CString) (json : Option Bytes)
  | execute (procID : CString) (argsDoc : Option CString)
  | querySource (sourceID : CString) (qParams : Option CString)
  | aggregate (rsURI : CString) (pipeline : Option CString)

/-- A result that is not `NULL`. -/
def notNull (r : Except Fault (VmeResult × World σ)) :
    Except Fault (Option VmeResult × World σ) := do
  let (result, w) ← r
  return (some result, w)

/-- Calling the operation on a handle. -/
def Op.run (lib : Libcurl) (w : World σ) (vme : VME) (x : Transfer) :
    Op σ → Except Fault (Option VmeResult × World σ)
  | select rsURI propSpecs whereClause sortSpec page limit =>
    notNull (vmeSelect lib w vme rsURI propSpecs whereClause sortSpec page limit x)
  | selectOne rsURI props whereClause => notNull (vmeSelectOne lib w vme rsURI props whereClause x)
  | selectCount rsURI propSpecs whereClause sortSpec =>
    notNull (vmeSelectCount lib w vme rsURI propSpecs whereClause sortSpec x)
  | selectCallback rsURI propSpecs whereClause sortSpec page limit callback =>
    notNull (vmeSelectCallback lib w vme rsURI propSpecs whereClause sortSpec page limit callback x)
  | insert rsURI json => notNull (vmeInsert lib w vme rsURI json x)
  | update rsURI json => notNull (vmeUpdate lib w vme rsURI json x)
  | upsert rsURI json => notNull (vmeUpsert lib w vme rsURI json x)
  | delete rsURI whereClause => notNull (vmeDelete lib w vme rsURI whereClause x)
  | deleteCount rsURI whereClause => notNull (vmeDeleteCount lib w vme rsURI whereClause x)
  | patch rsURI json => vmePatch lib w vme rsURI json x
  | publish topic json => notNull (vmePublish lib w vme topic json x)
  | execute procID argsDoc => notNull (vmeExecute lib w vme procID argsDoc x)
  | querySource sourceID qParams => notNull (vmeQuerySource lib w vme sourceID qParams x)
  | aggregate rsURI pipeline => notNull (vmeAggregate lib w vme rsURI pipeline x)

end VantiqMicro
