import Mathlib.Tactic.Abel
import VantiqMicro.Ledger
import VantiqMicro.Lifecycle

/-! # The blocks the library holds (`buf.c`, `vantiq_client.c`, `vme.c`)

The functions of the client and of the API once more, for the blocks they allocate, use and
free; what is stored there is the subject of the modules before.  They are given what
decides over blocks: their arguments, and how the transfer ended.

What the lengths of strings decide is not looked at again: an empty path, a path that cannot be
printed, a header that overruns.

A buffer has its data from the allocation of the buffer on, and where the code reallocates
it the new block keeps the old one's number.  `malloc` succeeds, `curl_slist_append` and
`curl_easy_init` allocate what they return. -/

namespace VantiqMicro.Held
open CMem

/-! ## What is held -/

/-- A `vmebuf_t` and its data. -/
structure BufBlocks where
  buf : Nat
  data : Nat

def BufBlocks.blocks (b : BufBlocks) : Multiset Nat := {b.buf} + {b.data}

/-- A `struct param` with its two strings. -/
structure ParamBlocks where
  param : Param
  node : Nat
  key : Nat
  value : Nat

def paramBlocks : List ParamBlocks → Multiset Nat
  | [] => 0
  | p :: next => {p.node} + {p.key} + {p.value} + paramBlocks next

/-- A `curl_slist` node with its string. -/
structure HeaderBlocks where
  node : Nat
  data : Nat

def headerBlocks : List HeaderBlocks → Multiset Nat
  | [] => 0
  | h :: next => {h.node} + {h.data} + headerBlocks next

/-- A `struct vantiq_client` and what it points to. -/
structure ClientBlocks where
  vc : Nat
  curl : Nat
  serverUrl : Nat
  httpHdrs : List HeaderBlocks
  recvBuf : BufBlocks

def ClientBlocks.blocks (c : ClientBlocks) : Multiset Nat :=
  {c.vc} + {c.curl} + {c.serverUrl} + headerBlocks c.httpHdrs + c.recvBuf.blocks

/-- A pointer that may be `NULL`. -/
def optBlock : Option Nat → Multiset Nat
  | none => 0
  | some p => {p}

/-- A `vme_result_t` and its texts. -/
structure ResultBlocks where
  result : Nat
  vmeJsonData : Option Nat
  vmeErrorMsg : Option Nat

def ResultBlocks.blocks (r : ResultBlocks) : Multiset Nat :=
  {r.result} + optBlock r.vmeJsonData + optBlock r.vmeErrorMsg

/-- What the blocks of a request depend on.  `prepare_result` goes by the code of the transfer,
the length of the receive buffer and the status of the response. -/
structure Ending where
  resCode : CURLcode
  len : Nat
  rc : Nat
  /-- The read callback copied something. -/
  copied : Bool

/-- What the read callback copies from. -/
inductive Source
  | none
  | message (msg : BufBlocks)
  /-- The message of an earlier upload, which was freed. -/
  | freed (copied : Bool)

/-! ## Buffers and lists -/

/-- `vmebuf_ensure_size(NULL, ...)`: the limit is 0, so the data is allocated. -/
def vmebufNew : Heaped BufBlocks := do
  let buf ← newBlock
  let data ← newBlock
  return ⟨buf, data⟩

/-- `vmebuf_push`, `vmebuf_concat`, `vmebuf_truncate`. -/
def vmebufWrite (b : BufBlocks) : Heaped Unit := do
  useBlock b.buf
  useBlock b.data

def vmebufTostr (b : BufBlocks) : Heaped Nat := do
  useBlock b.buf
  let str ← newBlock
  useBlock b.data
  return str

def vmebufDealloc (b : BufBlocks) : Heaped Unit := do
  useBlock b.buf
  freeBlock b.data
  freeBlock b.buf

def buildParam (head : List ParamBlocks) (key value : CString) : Heaped (List ParamBlocks) := do
  let p ← newBlock
  let k ← newBlock
  let v ← newBlock
  return ⟨⟨key, value⟩, p, k, v⟩ :: head

def freeParams : List ParamBlocks → Heaped Unit
  | [] => pure ()
  | p :: next => do
    useBlock p.node
    freeBlock p.key
    freeBlock p.value
    freeBlock p.node
    freeParams next

/-- `curl_slist_append`, which copies the string. -/
def curlSlistAppend (list : List HeaderBlocks) : Heaped (List HeaderBlocks) := do
  let node ← newBlock
  let data ← newBlock
  return list ++ [⟨node, data⟩]

def curlSlistFreeAll : List HeaderBlocks → Heaped Unit
  | [] => pure ()
  | h :: next => do
    useBlock h.node
    freeBlock h.data
    freeBlock h.node
    curlSlistFreeAll next

/-! ## The client -/

/-- The value of a parameter, escaped if `curl_easy_escape` can. -/
def urlValue (lib : Libcurl) (urlbuf : BufBlocks) (p : ParamBlocks) : Heaped Unit := do
  useBlock p.value
  match lib.easyEscape p.param.value (toInt p.param.value.length) with
  | some _ =>
    let value ← newBlock
    vmebufWrite urlbuf
    freeBlock value
  | none => vmebufWrite urlbuf

/-- The parameter loop of `create_url`. -/
def urlParams (lib : Libcurl) (urlbuf : BufBlocks) : List ParamBlocks → Heaped Unit
  | [] => pure ()
  | p :: next => do
    useBlock p.node
    useBlock p.key
    vmebufWrite urlbuf
    urlValue lib urlbuf p
    urlParams lib urlbuf next

def createUrl (lib : Libcurl) (vc : ClientBlocks) (params : List ParamBlocks) : Heaped Nat := do
  useBlock vc.vc
  useBlock vc.serverUrl
  let urlbuf ← vmebufNew
  vmebufWrite urlbuf
  urlParams lib urlbuf params
  let strUrl ← vmebufTostr urlbuf
  vmebufDealloc urlbuf
  return strUrl

/-- The options and the transfer: the handle, the client as the callbacks get it, its receive
buffer, and what the read callback copies from. -/
def perform (vc : ClientBlocks) (url : Nat) (source : Source) : Heaped Unit := do
  useBlock vc.vc
  useBlock vc.curl
  useBlock url
  vmebufWrite vc.recvBuf
  match source with
  | .message msg => vmebufWrite msg
  | .freed true => throw .badPointer
  | .freed false | .none => pure ()

/-- `strdup` of the transfer's error. -/
def protocolError (e : Ending) : Heaped (Option Nat) :=
  if e.resCode ≠ CURLE_OK then some <$> newBlock else pure none

def prepareResult (vc : ClientBlocks) (e : Ending) : Heaped ResultBlocks := do
  let result ← newBlock
  let msg ← protocolError e
  vmebufWrite vc.recvBuf
  if 0 < e.len then
    let copy ← newBlock
    if 400 ≤ e.rc then
      -- what `vme_error_msg` pointed to is lost
      return ⟨result, none, some copy⟩
    else
      return ⟨result, some copy, msg⟩
  else
    return ⟨result, none, msg⟩

/-- `_putorpost`, `_getordelete` and `vc_patch`; only the first has a message. -/
def request (lib : Libcurl) (vc : ClientBlocks) (source : Source)
    (params : List ParamBlocks) (e : Ending) : Heaped ResultBlocks := do
  let url ← createUrl lib vc params
  perform vc url source
  let result ← prepareResult vc e
  freeBlock url
  return result

/-- `vc_put`, `vc_post`. -/
def vcPost (lib : Libcurl) (vc : ClientBlocks) (msg : BufBlocks) (params : List ParamBlocks)
    (e : Ending) : Heaped ResultBlocks := request lib vc (.message msg) params e

/-- `vc_get`, `vc_delete`, `vc_aggregate`. -/
def vcGet (lib : Libcurl) (vc : ClientBlocks) (params : List ParamBlocks) (e : Ending) :
    Heaped ResultBlocks := request lib vc .none params e

/-- Without a document the transfer turns to the read callback. -/
def vcPatch (lib : Libcurl) (vc : ClientBlocks) (json : Option CString) (e : Ending) :
    Heaped ResultBlocks :=
  request lib vc (if json = none then .freed e.copied else .none) [] e

/-- A pointer that is read through. -/
def deref {α : Type} : Option α → Heaped α
  | some a => pure a
  | none => throw .nullPointer

theorem deref_some {α : Type} (a : α) : deref (some a) = pure a := rfl

/-- `vmebuf_ensure_size(NULL, size)` and `vmebuf_concat`, which asserts that there is a
document. -/
def messageBuf (json : Option Bytes) : Heaped BufBlocks := do
  let msg ← vmebufNew
  if json = none then
    throw .assertion
  vmebufWrite msg
  return msg

/-- `vc_execute`, `vc_query`. -/
def vcExecute (lib : Libcurl) (vc : ClientBlocks) (argsDoc : Option CString) (e : Ending) :
    Heaped ResultBlocks := do
  let argsDoc ← deref argsDoc
  let msg ← messageBuf (some argsDoc.bytes)
  let result ← vcPost lib vc msg [] e
  vmebufDealloc msg
  return result

/-- `vc_init` up to the handle. -/
def vcInitFront : Heaped (Nat × Nat × List HeaderBlocks × BufBlocks) := do
  let vc ← newBlock
  let authHdr ← newBlock
  let httpHdrs ← curlSlistAppend []
  freeBlock authHdr
  let serverUrl ← newBlock
  let recvBuf ← vmebufNew
  return (vc, serverUrl, httpHdrs, recvBuf)

/-- `vc_init`; where it returns `NULL` nothing is freed. -/
def vcInit (a : InitArgs) : Heaped (Option ClientBlocks) := do
  let (vc, serverUrl, httpHdrs, recvBuf) ← vcInitFront
  if a.globalInit ≠ CURLE_OK then
    return none
  else if a.easyInit = false then
    return none
  else
    let curl ← newBlock
    let authUrl ← newBlock
    perform ⟨vc, curl, serverUrl, httpHdrs, recvBuf⟩ authUrl .none
    let httpHdrs ← curlSlistAppend httpHdrs
    let httpHdrs ← curlSlistAppend httpHdrs
    freeBlock authUrl
    if a.auth.res ≠ CURLE_OK ∧ a.auth.status ≠ 200 then
      return none
    else
      return some ⟨vc, curl, serverUrl, httpHdrs, recvBuf⟩

/-- `vc_teardown`; `server_url` is not freed. -/
def vcTeardown (vc : ClientBlocks) : Heaped Unit := do
  useBlock vc.vc
  vmebufDealloc vc.recvBuf
  curlSlistFreeAll vc.httpHdrs
  freeBlock vc.curl
  freeBlock vc.vc

/-! ## The API -/

/-- `vc_from_vme` of `NULL` or of a client's handle. -/
def vcFromVme : Option ClientBlocks → Heaped (Option ClientBlocks)
  | none => pure none
  | some vc => do
    useBlock vc.vc
    return some vc

def vmeErrorResult : Heaped ResultBlocks := do
  let err ← newBlock
  let msg ← newBlock
  return ⟨err, none, some msg⟩

/-- What `f` returns for the client, or the error result. -/
def withClient (vme : Option ClientBlocks) (f : ClientBlocks → Heaped ResultBlocks) :
    Heaped ResultBlocks := do
  match ← vcFromVme vme with
  | none => vmeErrorResult
  | some vc => f vc

def vmeTeardown (vme : Option ClientBlocks) : Heaped Unit := do
  match ← vcFromVme vme with
  | none => pure ()
  | some vc => vcTeardown vc

def vmeCallbackState (vme : Option ClientBlocks) : Heaped Unit := do
  match ← vcFromVme vme with
  | none => pure ()
  | some vc => useBlock vc.vc

def vmeFreeResult : Option ResultBlocks → Heaped Unit
  | none => pure ()
  | some r => do
    useBlock r.result
    freeIf r.vmeJsonData
    freeIf r.vmeErrorMsg
    freeBlock r.result

/-- `vme_build_system_rsuri`, `vme_build_custom_rsuri`. -/
def vmeBuildSystemRsuri (vme : Option ClientBlocks) : Heaped (Option Nat) := do
  match ← vcFromVme vme with
  | none => return none
  | some vc =>
    useBlock vc.vc
    let path ← newBlock
    return some path

def buildOptParam (params : List ParamBlocks) (key : CString) :
    Option CString → Heaped (List ParamBlocks)
  | some value => buildParam params key value
  | none => pure params

def buildIntParam (params : List ParamBlocks) (key : CString) (n : Int) :
    Heaped (List ParamBlocks) :=
  if 0 < n then buildParam params key (decimal n.toNat) else pure params

def buildSelectParams (propSpecs whereClause sortSpec : Option CString) (page limit : Int) :
    Heaped (List ParamBlocks) := do
  let params ← buildOptParam [] (lit "props") propSpecs
  let params ← buildOptParam params (lit "where") whereClause
  let params ← buildOptParam params (lit "sort") sortSpec
  let params ← buildIntParam params (lit "page") page
  buildIntParam params (lit "limit") limit

/-- `_select`. -/
def _select (lib : Libcurl) (vme : Option ClientBlocks) (params : List ParamBlocks) (e : Ending) :
    Heaped ResultBlocks :=
  withClient vme fun vc => vcGet lib vc params e

/-- The parameters are built before the handle is looked at. -/
def vmeSelect (lib : Libcurl) (vme : Option ClientBlocks)
    (propSpecs whereClause sortSpec : Option CString) (page limit : Int) (e : Ending) :
    Heaped ResultBlocks := do
  let params ← buildSelectParams propSpecs whereClause sortSpec page limit
  let result ← _select lib vme params e
  freeParams params
  return result

def vmeSelectCallback (lib : Libcurl) (vme : Option ClientBlocks)
    (propSpecs whereClause sortSpec : Option CString) (page limit : Int) (e : Ending) :
    Heaped ResultBlocks :=
  withClient vme fun vc => do
    useBlock vc.vc
    let result ← vmeSelect lib vme propSpecs whereClause sortSpec page limit e
    useBlock vc.vc
    return result

def vmeSelectCount (lib : Libcurl) (vme : Option ClientBlocks)
    (propSpecs whereClause sortSpec : Option CString) (e : Ending) : Heaped ResultBlocks :=
  withClient vme fun _ => do
    let params ← buildSelectParams propSpecs whereClause sortSpec 0 0
    let params ← buildParam params (lit "count") (lit "true")
    let result ← _select lib vme params e
    freeParams params
    return result

/-- `_delete`. -/
def _delete (lib : Libcurl) (vme : Option ClientBlocks) (whereClause : Option CString)
    (count : Bool) (e : Ending) : Heaped ResultBlocks :=
  withClient vme fun vc => do
    let params ← buildOptParam [] (lit "where") whereClause
    let params ← if count then buildParam params (lit "count") (lit "true") else pure params
    let result ← vcGet lib vc params e
    freeParams params
    return result

/-- `_insert`, `vme_update`. -/
def _insert (lib : Libcurl) (vme : Option ClientBlocks) (json : Option Bytes) (e : Ending) :
    Heaped ResultBlocks :=
  withClient vme fun vc => do
    let msg ← messageBuf json
    let result ← vcPost lib vc msg [] e
    vmebufDealloc msg
    return result

def vmeUpsert (lib : Libcurl) (vme : Option ClientBlocks) (json : Option Bytes) (e : Ending) :
    Heaped ResultBlocks :=
  withClient vme fun vc => do
    let msg ← messageBuf json
    let params ← buildParam [] (lit "upsert") (lit "true")
    let result ← vcPost lib vc msg params e
    freeParams params
    vmebufDealloc msg
    return result

/-- The message is built before the handle is looked at, and not freed if that is invalid. -/
def vmePublish (lib : Libcurl) (vme : Option ClientBlocks) (json : Option Bytes) (e : Ending) :
    Heaped ResultBlocks := do
  let msg ← messageBuf json
  withClient vme fun vc => do
    let rsURI ← vmeBuildSystemRsuri vme
    let result ← vcPost lib vc msg [] e
    freeIf rsURI
    vmebufDealloc msg
    return result

/-- The one operation that returns `NULL` for an invalid handle. -/
def vmePatch (lib : Libcurl) (vme : Option ClientBlocks) (json : Option CString) (e : Ending) :
    Heaped (Option ResultBlocks) := do
  match ← vcFromVme vme with
  | none => return none
  | some vc =>
    let result ← vcPatch lib vc json e
    return some result

def vmeQuerySource (lib : Libcurl) (vme : Option ClientBlocks) (qParams : Option CString)
    (e : Ending) : Heaped ResultBlocks :=
  withClient vme fun vc => do
    let sourceURI ← newBlock
    let result ← vcExecute lib vc qParams e
    freeBlock sourceURI
    return result

/-- `strdup` reads through `pipeline`. -/
def vmeAggregate (lib : Libcurl) (vme : Option ClientBlocks) (pipeline : Option CString)
    (e : Ending) : Heaped ResultBlocks :=
  withClient vme fun vc => do
    let aggRsURI ← newBlock
    let params ← buildParam [] (lit "pipeline") (← deref pipeline)
    let result ← vcGet lib vc params e
    freeParams params
    freeBlock aggRsURI
    return result

def vmeExecute (lib : Libcurl) (vme : Option ClientBlocks) (argsDoc : Option CString)
    (e : Ending) : Heaped ResultBlocks :=
  withClient vme fun vc => do
    let rsURI ← vmeBuildSystemRsuri vme
    let result ← vcExecute lib vc argsDoc e
    freeIf rsURI
    return result

variable {σ : Type}

/-- An operation on a handle. -/
def run (lib : Libcurl) (vme : Option ClientBlocks) (e : Ending) :
    Op σ → Heaped (Option ResultBlocks)
  | .select _ propSpecs whereClause sortSpec page limit =>
    some <$> vmeSelect lib vme propSpecs whereClause sortSpec page limit e
  | .selectOne _ props whereClause => some <$> vmeSelect lib vme props whereClause none 0 1 e
  | .selectCount _ propSpecs whereClause sortSpec =>
    some <$> vmeSelectCount lib vme propSpecs whereClause sortSpec e
  | .selectCallback _ propSpecs whereClause sortSpec page limit _ =>
    some <$> vmeSelectCallback lib vme propSpecs whereClause sortSpec page limit e
  | .insert _ json => some <$> _insert lib vme json e
  | .update _ json => some <$> _insert lib vme json e
  | .upsert _ json => some <$> vmeUpsert lib vme json e
  | .delete _ whereClause => some <$> _delete lib vme whereClause false e
  | .deleteCount _ whereClause => some <$> _delete lib vme whereClause true e
  | .patch _ json => vmePatch lib vme json e
  | .publish _ json => some <$> vmePublish lib vme json e
  | .execute _ argsDoc => some <$> vmeExecute lib vme argsDoc e
  | .querySource _ qParams => some <$> vmeQuerySource lib vme qParams e
  | .aggregate _ pipeline => some <$> vmeAggregate lib vme pipeline e

/-! ## Buffers and lists, and their blocks -/

section Lists
variable {pre : Multiset Nat} {b : BufBlocks} {params : List ParamBlocks} {h : List HeaderBlocks}

theorem vmebufNew_turns (pre : Multiset Nat) :
    Turns vmebufNew pre fun b left => left = b.blocks + pre := by
  refine (Turns.newBlock pre).seq ?_
  rintro buf _ rfl
  refine (Turns.newBlock _).seq ?_
  rintro data _ rfl
  exact Turns.pure (by rw [BufBlocks.blocks]; abel)

theorem vmebufWrite_turns (hb : b.blocks ≤ pre) :
    Turns (vmebufWrite b) pre fun _ left => left = pre :=
  (Turns.useBlock (Multiset.mem_of_le hb (by simp [BufBlocks.blocks]))).step
    (Turns.useBlock (Multiset.mem_of_le hb (by simp [BufBlocks.blocks])))

theorem vmebufTostr_turns (hb : b.blocks ≤ pre) :
    Turns (vmebufTostr b) pre fun str left => left = {str} + pre := by
  refine (Turns.useBlock (Multiset.mem_of_le hb (by simp [BufBlocks.blocks]))).step ?_
  refine (Turns.newBlock pre).seq ?_
  rintro str _ rfl
  have hdata : b.data ∈ {str} + pre :=
    Multiset.mem_add.mpr (Or.inr (Multiset.mem_of_le hb (by simp [BufBlocks.blocks])))
  exact (Turns.useBlock hdata).step (Turns.pure rfl)

theorem vmebufDealloc_turns (pre : Multiset Nat) :
    Turns (vmebufDealloc b) (b.blocks + pre) fun _ left => left = pre := by
  refine (Turns.useBlock (by simp [BufBlocks.blocks])).step ?_
  refine (Turns.freeBlock ({b.buf} + pre) (by rw [BufBlocks.blocks]; abel)).step ?_
  exact Turns.freeBlock _ rfl

theorem buildParam_turns (key value : CString) (pre : Multiset Nat) :
    Turns (buildParam params key value) (paramBlocks params + pre) fun params' left =>
      left = paramBlocks params' + pre := by
  refine (Turns.newBlock _).seq ?_
  rintro p _ rfl
  refine (Turns.newBlock _).seq ?_
  rintro k _ rfl
  refine (Turns.newBlock _).seq ?_
  rintro v _ rfl
  exact Turns.pure (by rw [paramBlocks]; abel)

theorem freeParams_turns : ∀ (params : List ParamBlocks) (pre : Multiset Nat),
    Turns (freeParams params) (paramBlocks params + pre) fun _ left => left = pre
  | [], pre => Turns.pure (Multiset.zero_add pre)
  | p :: next, pre => by
    refine (Turns.useBlock (by simp [paramBlocks])).step ?_
    refine (Turns.freeBlock ({p.node} + {p.value} + (paramBlocks next + pre))
      (by rw [paramBlocks]; abel)).step ?_
    refine (Turns.freeBlock ({p.node} + (paramBlocks next + pre)) (by abel)).step ?_
    exact (Turns.freeBlock _ rfl).step (freeParams_turns next pre)

theorem headerBlocks_append (h h' : List HeaderBlocks) :
    headerBlocks (h ++ h') = headerBlocks h + headerBlocks h' := by
  induction h with
  | nil => exact (Multiset.zero_add _).symm
  | cons e h ih =>
    rw [List.cons_append, headerBlocks, ih, headerBlocks]
    abel

theorem curlSlistAppend_turns (h : List HeaderBlocks) (pre : Multiset Nat) :
    Turns (curlSlistAppend h) (headerBlocks h + pre) fun h' left =>
      h'.length = h.length + 1 ∧ left = headerBlocks h' + pre := by
  refine (Turns.newBlock _).seq ?_
  rintro node _ rfl
  refine (Turns.newBlock _).seq ?_
  rintro data _ rfl
  refine Turns.pure ⟨by simp, ?_⟩
  rw [headerBlocks_append, headerBlocks, headerBlocks]
  abel

theorem curlSlistFreeAll_turns : ∀ (h : List HeaderBlocks) (pre : Multiset Nat),
    Turns (curlSlistFreeAll h) (headerBlocks h + pre) fun _ left => left = pre
  | [], pre => Turns.pure (Multiset.zero_add pre)
  | e :: next, pre => by
    refine (Turns.useBlock (by simp [headerBlocks])).step ?_
    refine (Turns.freeBlock ({e.node} + (headerBlocks next + pre))
      (by rw [headerBlocks]; abel)).step ?_
    exact (Turns.freeBlock _ rfl).step (curlSlistFreeAll_turns next pre)

end Lists

/-! ## A request -/

section Request
variable {lib : Libcurl} {vc : ClientBlocks} {urlbuf : BufBlocks} {pre : Multiset Nat}
  {params : List ParamBlocks} {e : Ending}

theorem urlValue_turns {p : ParamBlocks} (hbuf : urlbuf.blocks ≤ pre) (hp : p.value ∈ pre) :
    Turns (urlValue lib urlbuf p) pre fun _ left => left = pre := by
  refine (Turns.useBlock hp).step ?_
  split
  · refine (Turns.newBlock pre).seq ?_
    rintro value _ rfl
    exact (vmebufWrite_turns (hbuf.trans (Multiset.le_add_left _ _))).step (Turns.freeBlock _ rfl)
  · exact vmebufWrite_turns hbuf

theorem urlParams_turns (hbuf : urlbuf.blocks ≤ pre) : ∀ {params : List ParamBlocks},
    paramBlocks params ≤ pre → Turns (urlParams lib urlbuf params) pre fun _ left => left = pre
  | [], _ => Turns.pure rfl
  | p :: next, hparams => by
    have hmem : ∀ {q}, q ∈ paramBlocks (p :: next) → q ∈ pre := Multiset.mem_of_le hparams
    have hnext : paramBlocks next ≤ pre :=
      le_trans (by rw [paramBlocks]; exact Multiset.le_add_left _ _) hparams
    refine (Turns.useBlock (hmem (by simp [paramBlocks]))).step ?_
    refine (Turns.useBlock (hmem (by simp [paramBlocks]))).step ?_
    refine (vmebufWrite_turns hbuf).step ?_
    exact (urlValue_turns hbuf (hmem (by simp [paramBlocks]))).step (urlParams_turns hbuf hnext)

/-- **`create_url` allocates the URL** and frees all else it allocates. -/
theorem createUrl_turns (hvc : vc.blocks ≤ pre) (hparams : paramBlocks params ≤ pre) :
    Turns (createUrl lib vc params) pre fun url left => left = {url} + pre := by
  have hmem : ∀ {q}, q ∈ vc.blocks → q ∈ pre := Multiset.mem_of_le hvc
  refine (Turns.useBlock (hmem (by simp [ClientBlocks.blocks]))).step ?_
  refine (Turns.useBlock (hmem (by simp [ClientBlocks.blocks]))).step ?_
  refine (vmebufNew_turns pre).seq ?_
  rintro urlbuf _ rfl
  have hbuf : urlbuf.blocks ≤ urlbuf.blocks + pre := Multiset.le_add_right _ _
  refine (vmebufWrite_turns hbuf).step ?_
  refine (urlParams_turns hbuf (hparams.trans (Multiset.le_add_left _ _))).step ?_
  refine (vmebufTostr_turns hbuf).seq ?_
  rintro url _ rfl
  have hleft : {url} + (urlbuf.blocks + pre) = urlbuf.blocks + ({url} + pre) := by abel
  rw [hleft]
  exact (vmebufDealloc_turns _).step (Turns.pure rfl)

end Request

/-- What a call returns, as far as blocks go: which texts the result has, and how many blocks
are lost on the way. -/
structure Answer where
  data : Bool
  error : Bool
  lost : Nat

/-- The answer of `prepare_result`.  Where the response is an error too, the transfer's error
is lost. -/
def Ending.answer (e : Ending) : Answer where
  data := decide (0 < e.len ∧ e.rc < 400)
  error := decide (e.resCode ≠ CURLE_OK ∨ 0 < e.len ∧ 400 ≤ e.rc)
  lost := if e.resCode ≠ CURLE_OK ∧ 0 < e.len ∧ 400 ≤ e.rc then 1 else 0

/-- The answer for an invalid handle. -/
def Answer.invalid : Answer := ⟨false, true, 0⟩

/-- The source is there to be copied from. -/
def Source.Readable (pre : Multiset Nat) : Source → Prop
  | .none => True
  | .message msg => msg.blocks ≤ pre
  | .freed copied => copied = false

/-- The result has the texts the answer says. -/
def ResultBlocks.Fits (r : ResultBlocks) (n : Answer) : Prop :=
  r.vmeJsonData.isSome = n.data ∧ r.vmeErrorMsg.isSome = n.error

/-- A result beside the blocks there were; those that are lost are in use, and nothing points
to them. -/
def Returns (n : Answer) (pre : Multiset Nat) (r : ResultBlocks) (left : Multiset Nat) : Prop :=
  r.Fits n ∧ ∃ lost : Multiset Nat, lost.card = n.lost ∧ left = r.blocks + lost + pre

section Results
variable {lib : Libcurl} {vc : ClientBlocks} {pre : Multiset Nat} {params : List ParamBlocks}
  {source : Source} {e : Ending} {n : Answer}

theorem Source.Readable.mono {more : Multiset Nat} (h : source.Readable pre) (hle : pre ≤ more) :
    source.Readable more := by
  cases source with
  | none => trivial
  | message msg => exact le_trans h hle
  | freed copied => exact h

theorem perform_turns {url : Nat} (hvc : vc.blocks ≤ pre) (hurl : url ∈ pre)
    (hsource : source.Readable pre) :
    Turns (perform vc url source) pre fun _ left => left = pre := by
  have hmem : ∀ {q}, q ∈ vc.blocks → q ∈ pre := Multiset.mem_of_le hvc
  refine (Turns.useBlock (hmem (by simp [ClientBlocks.blocks]))).step ?_
  refine (Turns.useBlock (hmem (by simp [ClientBlocks.blocks]))).step ?_
  refine (Turns.useBlock hurl).step ?_
  refine (vmebufWrite_turns (le_trans (Multiset.le_add_left _ _) hvc)).step ?_
  cases source with
  | none => exact Turns.pure rfl
  | message msg => exact vmebufWrite_turns hsource
  | freed copied =>
    obtain rfl : copied = false := hsource
    exact Turns.pure rfl

theorem protocolError_turns (e : Ending) (pre : Multiset Nat) :
    Turns (protocolError e) pre fun msg left =>
      left = optBlock msg + pre ∧ (msg.isSome = true ↔ e.resCode ≠ CURLE_OK) := by
  rw [protocolError]
  split
  · rename_i h
    refine (Turns.newBlock pre).map ?_
    rintro p _ rfl
    exact ⟨rfl, by simpa using h⟩
  · rename_i h
    exact Turns.pure ⟨(Multiset.zero_add pre).symm, by simpa using h⟩

theorem prepareResult_turns (hvc : vc.blocks ≤ pre) :
    Turns (prepareResult vc e) pre (Returns e.answer pre) := by
  refine (Turns.newBlock pre).seq ?_
  rintro result _ rfl
  refine (protocolError_turns e _).seq ?_
  rintro msg _ ⟨rfl, hmsg⟩
  refine (vmebufWrite_turns ?_).step ?_
  · have hbuf : vc.recvBuf.blocks ≤ vc.blocks := Multiset.le_add_left _ _
    exact (hbuf.trans hvc).trans ((Multiset.le_add_left _ _).trans (Multiset.le_add_left _ _))
  have hcard : (optBlock msg).card = if e.resCode ≠ CURLE_OK then 1 else 0 := by
    by_cases hres : e.resCode ≠ CURLE_OK
    · obtain ⟨p, rfl⟩ := Option.isSome_iff_exists.mp (hmsg.mpr hres)
      rw [if_pos hres]
      rfl
    · rw [if_neg hres, Option.not_isSome_iff_eq_none.mp fun h => hres (hmsg.mp h)]
      rfl
  have htext : msg.isSome = decide (e.resCode ≠ CURLE_OK) := by
    rw [Bool.eq_iff_iff, hmsg, decide_eq_true_iff]
  by_cases hlen : 0 < e.len
  · rw [if_pos hlen]
    refine (Turns.newBlock _).seq ?_
    rintro copy _ rfl
    by_cases hrc : 400 ≤ e.rc
    · rw [if_pos hrc]
      refine Turns.pure ⟨?_, optBlock msg, ?_, ?_⟩
      · simp [ResultBlocks.Fits, Ending.answer, hlen, hrc]
      · rw [hcard, Ending.answer]
        simp only [hlen, hrc, and_true]
      · rw [ResultBlocks.blocks, optBlock, optBlock]
        abel
    · rw [if_neg hrc]
      refine Turns.pure ⟨?_, 0, ?_, ?_⟩
      · simp [ResultBlocks.Fits, Ending.answer, hlen, hrc, htext, Nat.lt_of_not_le hrc]
      · rw [Ending.answer, if_neg fun h => hrc h.2.2]
        rfl
      · rw [ResultBlocks.blocks, optBlock]
        abel
  · rw [if_neg hlen]
    refine Turns.pure ⟨?_, 0, ?_, ?_⟩
    · simp [ResultBlocks.Fits, Ending.answer, hlen, htext]
    · rw [Ending.answer, if_neg fun h => hlen h.2.1]
      rfl
    · rw [ResultBlocks.blocks, optBlock]
      abel

theorem request_turns (hvc : vc.blocks ≤ pre) (hsource : source.Readable pre)
    (hparams : paramBlocks params ≤ pre) :
    Turns (request lib vc source params e) pre (Returns e.answer pre) := by
  refine (createUrl_turns hvc hparams).seq ?_
  rintro url _ rfl
  have hle : pre ≤ {url} + pre := Multiset.le_add_left _ _
  refine (perform_turns (hvc.trans hle) (by simp) (hsource.mono hle)).step ?_
  refine (prepareResult_turns (hvc.trans hle)).seq ?_
  rintro r _ ⟨hr, lost, hlost, rfl⟩
  refine (Turns.freeBlock (r.blocks + lost + pre) (by abel)).step ?_
  exact Turns.pure ⟨hr, lost, hlost, rfl⟩

/-- What is given to a request and freed behind it is not in use any more. -/
theorem Returns.freeing {m : Heaped ResultBlocks} {free : Heaped Unit} {given : Multiset Nat}
    (hm : Turns m (given + pre) (Returns n (given + pre)))
    (hfree : ∀ more, Turns free (given + more) fun _ left => left = more) :
    Turns (do let r ← m; free; return r) (given + pre) (Returns n pre) := by
  refine hm.seq ?_
  rintro r _ ⟨hr, lost, hlost, rfl⟩
  have hleft : r.blocks + lost + (given + pre) = given + (r.blocks + lost + pre) := by abel
  rw [hleft]
  exact (hfree _).step (Turns.pure ⟨hr, lost, hlost, rfl⟩)

theorem messageBuf_turns (json : Bytes) (pre : Multiset Nat) :
    Turns (messageBuf (some json)) pre fun msg left => left = msg.blocks + pre := by
  refine (vmebufNew_turns pre).seq ?_
  rintro msg _ rfl
  exact (vmebufWrite_turns (Multiset.le_add_right _ _)).step (Turns.pure rfl)

theorem vcExecute_turns (hvc : vc.blocks ≤ pre) (argsDoc : CString) :
    Turns (vcExecute lib vc (some argsDoc) e) pre (Returns e.answer pre) := by
  rw [vcExecute, deref_some, pure_bind]
  refine (messageBuf_turns argsDoc.bytes pre).seq ?_
  rintro b _ rfl
  have hb : b.blocks ≤ b.blocks + pre := Multiset.le_add_right _ _
  exact Returns.freeing
    (request_turns (hvc.trans (Multiset.le_add_left _ _)) hb (Multiset.zero_le _))
    vmebufDealloc_turns

end Results

/-! ## The handle -/

section Handle
variable {a : InitArgs} {vc : ClientBlocks} {pre : Multiset Nat}

/-- How many blocks a `vc_init` that returns `NULL` leaves: the client, the URL, the list of
headers and the buffer, and with a connection the handle and the rest of the list. -/
def initLost (a : InitArgs) : Nat := if a.globalInit = CURLE_OK ∧ a.easyInit = true then 11 else 6

/-- A client has eleven blocks. -/
def ClientBlocks.Whole (vc : ClientBlocks) : Prop := vc.httpHdrs.length = 3

theorem card_headerBlocks (h : List HeaderBlocks) : (headerBlocks h).card = 2 * h.length := by
  induction h with
  | nil => rfl
  | cons e h ih =>
    rw [headerBlocks, Multiset.card_add, Multiset.card_add, Multiset.card_singleton,
      Multiset.card_singleton, ih, List.length_cons]
    omega

theorem ClientBlocks.Whole.card_blocks (h : vc.Whole) : vc.blocks.card = 11 := by
  simp only [ClientBlocks.blocks, BufBlocks.blocks, Multiset.card_add, Multiset.card_singleton,
    card_headerBlocks, show vc.httpHdrs.length = 3 from h]

/-- What `vc_init` leaves: the client's blocks, or as many as it has lost. -/
def Made (a : InitArgs) (pre : Multiset Nat) (vc : Option ClientBlocks) (left : Multiset Nat) :
    Prop :=
  match vc with
  | some vc => vc.Whole ∧ left = vc.blocks + pre
  | none => ∃ lost : Multiset Nat, lost.card = initLost a ∧ left = lost + pre

theorem vcInitFront_turns (pre : Multiset Nat) :
    Turns vcInitFront pre fun (vc, serverUrl, httpHdrs, recvBuf) left => httpHdrs.length = 1 ∧
      left = {vc} + {serverUrl} + headerBlocks httpHdrs + recvBuf.blocks + pre := by
  refine (Turns.newBlock pre).seq ?_
  rintro vc _ rfl
  refine (Turns.newBlock _).seq ?_
  rintro authHdr _ rfl
  have hnil : {authHdr} + ({vc} + pre) = headerBlocks [] + ({authHdr} + ({vc} + pre)) :=
    (Multiset.zero_add _).symm
  rw [hnil]
  refine (curlSlistAppend_turns [] _).seq ?_
  rintro httpHdrs _ ⟨hlen, rfl⟩
  refine (Turns.freeBlock (headerBlocks httpHdrs + ({vc} + pre)) (by abel)).step ?_
  refine (Turns.newBlock _).seq ?_
  rintro serverUrl _ rfl
  refine (vmebufNew_turns _).seq ?_
  rintro recvBuf _ rfl
  exact Turns.pure ⟨hlen, by abel⟩

/-- **`vc_init` returns a client with all its blocks**, or leaves what it allocated behind. -/
theorem vcInit_turns (a : InitArgs) (pre : Multiset Nat) :
    Turns (vcInit a) pre fun vc left => (vc.isSome = true ↔ a.Accepted) ∧ Made a pre vc left := by
  refine (vcInitFront_turns pre).seq ?_
  rintro ⟨vc, serverUrl, httpHdrs, recvBuf⟩ _ ⟨hlen, rfl⟩
  have hfront : ({vc} + {serverUrl} + headerBlocks httpHdrs + recvBuf.blocks).card = 6 := by
    simp only [BufBlocks.blocks, Multiset.card_add, Multiset.card_singleton, card_headerBlocks,
      hlen]
  by_cases hg : a.globalInit ≠ CURLE_OK
  · simp only [if_pos hg]
    refine Turns.pure ⟨?_, _, ?_, rfl⟩
    · simp [InitArgs.Accepted, InitArgs.Connects, hg]
    · rw [hfront, initLost, if_neg fun h => hg h.1]
  simp only [if_neg hg]
  by_cases he : a.easyInit = false
  · simp only [if_pos he]
    refine Turns.pure ⟨?_, _, ?_, rfl⟩
    · simp [InitArgs.Accepted, InitArgs.Connects, he]
    · rw [hfront, initLost, if_neg fun h => by rw [he] at h; cases h.2]
  simp only [if_neg he]
  have hconnects : a.Connects := ⟨not_not.mp hg, by simpa using he⟩
  refine (Turns.newBlock _).seq ?_
  rintro curl _ rfl
  refine (Turns.newBlock _).seq ?_
  rintro authUrl _ rfl
  refine (perform_turns ?_ (by simp) (show Source.none.Readable _ from trivial)).step ?_
  · have hsplit : {authUrl} + ({curl} + ({vc} + {serverUrl} + headerBlocks httpHdrs +
        recvBuf.blocks + pre)) = (ClientBlocks.mk vc curl serverUrl httpHdrs recvBuf).blocks +
          ({authUrl} + pre) := by
      rw [ClientBlocks.blocks]
      abel
    rw [hsplit]
    exact Multiset.le_add_right _ _
  have hhdrs : {authUrl} + ({curl} + ({vc} + {serverUrl} + headerBlocks httpHdrs +
      recvBuf.blocks + pre)) = headerBlocks httpHdrs +
        ({authUrl} + ({curl} + {vc} + {serverUrl} + recvBuf.blocks + pre)) := by
    abel
  rw [hhdrs]
  refine (curlSlistAppend_turns _ _).seq ?_
  rintro httpHdrs₁ _ ⟨hlen₁, rfl⟩
  refine (curlSlistAppend_turns _ _).seq ?_
  rintro httpHdrs₂ _ ⟨hlen₂, rfl⟩
  have hwhole : (ClientBlocks.mk vc curl serverUrl httpHdrs₂ recvBuf).Whole := by
    show httpHdrs₂.length = 3
    omega
  refine (Turns.freeBlock
    ((ClientBlocks.mk vc curl serverUrl httpHdrs₂ recvBuf).blocks + pre)
    (by rw [ClientBlocks.blocks]; abel)).step ?_
  by_cases hauth : a.auth.res ≠ CURLE_OK ∧ a.auth.status ≠ 200
  · rw [if_pos hauth]
    refine Turns.pure ⟨?_, _, ?_, rfl⟩
    · simp [InitArgs.Accepted, hauth.1, hauth.2]
    · rw [hwhole.card_blocks, initLost]
      exact (if_pos hconnects).symm
  · rw [if_neg hauth]
    refine Turns.pure ⟨?_, hwhole, rfl⟩
    have hor : a.auth.res = CURLE_OK ∨ a.auth.status = 200 := by
      by_contra h
      exact hauth (not_or.mp h)
    simp [InitArgs.Accepted, hconnects, hor]

/-- **`vc_teardown` frees all of a client's blocks but the URL.** -/
theorem vcTeardown_turns (vc : ClientBlocks) (pre : Multiset Nat) :
    Turns (vcTeardown vc) (vc.blocks + pre) fun _ left => left = {vc.serverUrl} + pre := by
  refine (Turns.useBlock (by simp [ClientBlocks.blocks])).step ?_
  have hbuf : vc.blocks + pre = vc.recvBuf.blocks +
      (headerBlocks vc.httpHdrs + ({vc.curl} + ({vc.vc} + ({vc.serverUrl} + pre)))) := by
    rw [ClientBlocks.blocks]
    abel
  rw [hbuf]
  refine (vmebufDealloc_turns _).step ?_
  refine (curlSlistFreeAll_turns _ _).step ?_
  exact (Turns.freeBlock _ rfl).step (Turns.freeBlock _ rfl)

end Handle

/-! ## The operations -/

section Api
variable {lib : Libcurl} {vme : Option ClientBlocks} {vc : ClientBlocks} {pre : Multiset Nat}
  {params : List ParamBlocks} {e : Ending} {n : Answer} {f : ClientBlocks → Heaped ResultBlocks}

theorem vmeErrorResult_turns (pre : Multiset Nat) :
    Turns vmeErrorResult pre (Returns .invalid pre) := by
  refine (Turns.newBlock pre).seq ?_
  rintro err _ rfl
  refine (Turns.newBlock _).seq ?_
  rintro msg _ rfl
  refine Turns.pure ⟨⟨rfl, rfl⟩, 0, rfl, ?_⟩
  rw [ResultBlocks.blocks, optBlock, optBlock]
  abel

/-- The answer for the handle: `n` for a client's. -/
def answerBy (vme : Option ClientBlocks) (n : Answer) : Answer :=
  if vme.isSome then n else .invalid

/-- The handle's client, if there is one, is in use. -/
def Given (vme : Option ClientBlocks) (pre : Multiset Nat) : Prop := ∀ vc ∈ vme, vc.blocks ≤ pre

theorem Given.mono {more : Multiset Nat} (h : Given vme pre) (hle : pre ≤ more) : Given vme more :=
  fun vc hvc => (h vc hvc).trans hle

theorem Given.mem (h : Given (some vc) pre) : vc.vc ∈ pre :=
  Multiset.mem_of_le (h vc rfl) (by simp [ClientBlocks.blocks])

theorem withClient_turns (hvme : Given vme pre)
    (hf : ∀ vc, vme = some vc → Turns (f vc) pre (Returns n pre)) :
    Turns (withClient vme f) pre (Returns (answerBy vme n) pre) := by
  cases vme with
  | none => exact vmeErrorResult_turns pre
  | some vc =>
    have huse : Turns (vcFromVme (some vc)) pre fun found left => found = some vc ∧ left = pre :=
      (Turns.useBlock hvme.mem).step (Turns.pure ⟨rfl, rfl⟩)
    refine huse.seq ?_
    rintro _ _ ⟨rfl, rfl⟩
    exact hf vc rfl

theorem buildOptParam_turns (key : CString) (value : Option CString) (pre : Multiset Nat) :
    Turns (buildOptParam params key value) (paramBlocks params + pre) fun params' left =>
      left = paramBlocks params' + pre := by
  cases value with
  | none => exact Turns.pure rfl
  | some value => exact buildParam_turns key value pre

/-- The first parameter of a list. -/
theorem buildParam_nil_turns (key value : CString) (pre : Multiset Nat) :
    Turns (buildParam [] key value) pre fun params left => left = paramBlocks params + pre := by
  have h : Turns _ (paramBlocks [] + pre) _ := buildParam_turns key value pre
  rwa [paramBlocks, Multiset.zero_add] at h

theorem buildOptParam_nil_turns (key : CString) (value : Option CString) (pre : Multiset Nat) :
    Turns (buildOptParam [] key value) pre fun params left =>
      left = paramBlocks params + pre := by
  have h : Turns _ (paramBlocks [] + pre) _ := buildOptParam_turns key value pre
  rwa [paramBlocks, Multiset.zero_add] at h

theorem buildIntParam_turns (key : CString) (n : Int) (pre : Multiset Nat) :
    Turns (buildIntParam params key n) (paramBlocks params + pre) fun params' left =>
      left = paramBlocks params' + pre := by
  rw [buildIntParam]
  split
  · exact buildParam_turns key _ pre
  · exact Turns.pure rfl

theorem buildSelectParams_turns (propSpecs whereClause sortSpec : Option CString)
    (page limit : Int) (pre : Multiset Nat) :
    Turns (buildSelectParams propSpecs whereClause sortSpec page limit) pre fun params left =>
      left = paramBlocks params + pre := by
  refine (buildOptParam_nil_turns (lit "props") propSpecs pre).seq ?_
  rintro params _ rfl
  refine (buildOptParam_turns (lit "where") whereClause pre).seq ?_
  rintro params _ rfl
  refine (buildOptParam_turns (lit "sort") sortSpec pre).seq ?_
  rintro params _ rfl
  refine (buildIntParam_turns (lit "page") page pre).seq ?_
  rintro params _ rfl
  exact buildIntParam_turns (lit "limit") limit pre

theorem vcGet_turns (hvc : vc.blocks ≤ pre) (hparams : paramBlocks params ≤ pre) :
    Turns (vcGet lib vc params e) pre (Returns e.answer pre) :=
  request_turns hvc trivial hparams

theorem vcPost_turns {msg : BufBlocks} (hvc : vc.blocks ≤ pre) (hmsg : msg.blocks ≤ pre)
    (hparams : paramBlocks params ≤ pre) :
    Turns (vcPost lib vc msg params e) pre (Returns e.answer pre) :=
  request_turns hvc hmsg hparams

theorem _select_turns (hvme : Given vme pre) (hparams : paramBlocks params ≤ pre) :
    Turns (_select lib vme params e) pre (Returns (answerBy vme e.answer) pre) :=
  withClient_turns hvme fun vc hvc => vcGet_turns (hvme vc (Option.mem_def.mpr hvc)) hparams

theorem vmeSelect_turns (hvme : Given vme pre) (propSpecs whereClause sortSpec : Option CString)
    (page limit : Int) :
    Turns (vmeSelect lib vme propSpecs whereClause sortSpec page limit e) pre
      (Returns (answerBy vme e.answer) pre) := by
  refine (buildSelectParams_turns propSpecs whereClause sortSpec page limit pre).seq ?_
  rintro params _ rfl
  exact Returns.freeing
    (_select_turns (hvme.mono (Multiset.le_add_left _ _)) (Multiset.le_add_right _ _))
    (freeParams_turns params)

theorem vmeSelectCallback_turns (hvme : Given vme pre)
    (propSpecs whereClause sortSpec : Option CString) (page limit : Int) :
    Turns (vmeSelectCallback lib vme propSpecs whereClause sortSpec page limit e) pre
      (Returns (answerBy vme e.answer) pre) := by
  refine withClient_turns hvme fun vc hvc => ?_
  subst hvc
  refine (Turns.useBlock hvme.mem).step ?_
  refine (vmeSelect_turns hvme propSpecs whereClause sortSpec page limit).seq ?_
  rintro r _ ⟨hr, lost, hlost, rfl⟩
  have hmem : vc.vc ∈ r.blocks + lost + pre := Multiset.mem_add.mpr (Or.inr hvme.mem)
  exact (Turns.useBlock hmem).step (Turns.pure ⟨hr, lost, hlost, rfl⟩)

theorem vmeSelectCount_turns (hvme : Given vme pre)
    (propSpecs whereClause sortSpec : Option CString) :
    Turns (vmeSelectCount lib vme propSpecs whereClause sortSpec e) pre
      (Returns (answerBy vme e.answer) pre) := by
  refine withClient_turns hvme fun vc hvc => ?_
  refine (buildSelectParams_turns propSpecs whereClause sortSpec 0 0 pre).seq ?_
  rintro params _ rfl
  refine (buildParam_turns (lit "count") (lit "true") pre).seq ?_
  rintro params _ rfl
  have hselect : Turns (_select lib vme params e) (paramBlocks params + pre)
      (Returns (answerBy vme e.answer) (paramBlocks params + pre)) :=
    _select_turns (hvme.mono (Multiset.le_add_left pre _))
      (Multiset.le_add_right (paramBlocks params) pre)
  rw [hvc, answerBy, Option.isSome_some, if_pos rfl] at hselect
  rw [hvc]
  exact Returns.freeing hselect (freeParams_turns params)

theorem _delete_turns (hvme : Given vme pre) (whereClause : Option CString) (count : Bool) :
    Turns (_delete lib vme whereClause count e) pre (Returns (answerBy vme e.answer) pre) := by
  refine withClient_turns hvme fun vc hvc => ?_
  subst hvc
  have hfree : ∀ params : List ParamBlocks, Turns (do
      let result ← vcGet lib vc params e
      freeParams params
      return result) (paramBlocks params + pre) (Returns e.answer pre) := fun params =>
    Returns.freeing (vcGet_turns ((hvme vc rfl).trans (Multiset.le_add_left _ _))
      (Multiset.le_add_right _ _)) (freeParams_turns params)
  refine (buildOptParam_nil_turns (lit "where") whereClause pre).seq ?_
  rintro params _ rfl
  cases count with
  | false =>
    have hpure : Turns (pure params) (paramBlocks params + pre) fun params' left =>
        params' = params ∧ left = paramBlocks params + pre := Turns.pure ⟨rfl, rfl⟩
    exact hpure.seq fun _ _ ⟨h, h'⟩ => h ▸ h' ▸ hfree params
  | true =>
    refine (buildParam_turns (lit "count") (lit "true") pre).seq ?_
    rintro params _ rfl
    exact hfree params

theorem _insert_turns (hvme : Given vme pre) {json : Option Bytes}
    (hjson : vme.isSome = true → json ≠ none) :
    Turns (_insert lib vme json e) pre (Returns (answerBy vme e.answer) pre) := by
  refine withClient_turns hvme fun vc hvc => ?_
  obtain ⟨json, rfl⟩ := Option.ne_none_iff_exists'.mp (hjson (by rw [hvc]; rfl))
  refine (messageBuf_turns json pre).seq ?_
  rintro msg _ rfl
  have hmsg : msg.blocks ≤ msg.blocks + pre := Multiset.le_add_right _ _
  have hvc' := (hvme vc (Option.mem_def.mpr hvc)).trans (Multiset.le_add_left pre msg.blocks)
  exact Returns.freeing (vcPost_turns hvc' hmsg (Multiset.zero_le _)) vmebufDealloc_turns

theorem vmeUpsert_turns (hvme : Given vme pre) {json : Option Bytes}
    (hjson : vme.isSome = true → json ≠ none) :
    Turns (vmeUpsert lib vme json e) pre (Returns (answerBy vme e.answer) pre) := by
  refine withClient_turns hvme fun vc hvc => ?_
  have hvc' : vc.blocks ≤ pre := hvme vc (Option.mem_def.mpr hvc)
  obtain ⟨json, rfl⟩ := Option.ne_none_iff_exists'.mp (hjson (by rw [hvc]; rfl))
  refine (messageBuf_turns json pre).seq ?_
  rintro msg _ rfl
  have hmsg : msg.blocks ≤ msg.blocks + pre := Multiset.le_add_right _ _
  refine (buildParam_nil_turns (lit "upsert") (lit "true") _).seq ?_
  rintro params _ rfl
  have hle : msg.blocks + pre ≤ paramBlocks params + (msg.blocks + pre) := Multiset.le_add_left _ _
  refine (vcPost_turns ((hvc'.trans (Multiset.le_add_left _ _)).trans hle) (hmsg.trans hle)
    (Multiset.le_add_right _ _)).seq ?_
  rintro r _ ⟨hr, lost, hlost, rfl⟩
  have hleft : r.blocks + lost + (paramBlocks params + (msg.blocks + pre)) =
      paramBlocks params + (msg.blocks + (r.blocks + lost + pre)) := by abel
  rw [hleft]
  refine (freeParams_turns params _).step ?_
  exact (vmebufDealloc_turns _).step (Turns.pure ⟨hr, lost, hlost, rfl⟩)

/-- The path of a client's request. -/
theorem vmeBuildSystemRsuri_turns (hvc : vc.blocks ≤ pre) :
    Turns (vmeBuildSystemRsuri (some vc)) pre fun path left =>
      ∃ p, path = some p ∧ left = {p} + pre := by
  have hmem : vc.vc ∈ pre := Multiset.mem_of_le hvc (by simp [ClientBlocks.blocks])
  have huse : Turns (vcFromVme (some vc)) pre fun found left => found = some vc ∧ left = pre :=
    (Turns.useBlock hmem).step (Turns.pure ⟨rfl, rfl⟩)
  refine huse.seq ?_
  rintro _ _ ⟨rfl, rfl⟩
  refine (Turns.useBlock hmem).step ?_
  refine (Turns.newBlock _).seq ?_
  rintro p _ rfl
  exact Turns.pure ⟨p, rfl, rfl⟩

/-- The answer of `vme_publish`, which has the message allocated when it finds the handle
invalid. -/
def publishAnswer (vme : Option ClientBlocks) (e : Ending) : Answer :=
  if vme.isSome then e.answer else ⟨false, true, 2⟩

/-- **`vme_publish` loses the message when the handle is invalid.** -/
theorem vmePublish_turns (hvme : Given vme pre) (json : Bytes) :
    Turns (vmePublish lib vme (some json) e) pre (Returns (publishAnswer vme e) pre) := by
  refine (messageBuf_turns json pre).seq ?_
  rintro msg _ rfl
  have hmsg : msg.blocks ≤ msg.blocks + pre := Multiset.le_add_right _ _
  have hle : pre ≤ msg.blocks + pre := Multiset.le_add_left _ _
  cases vme with
  | none =>
    refine (withClient_turns (n := .invalid) (hvme.mono hle) (by simp)).mono ?_
    rintro r _ ⟨hr, lost, hlost, rfl⟩
    have hzero : lost.card = 0 := hlost
    refine ⟨hr, lost + msg.blocks, ?_, by abel⟩
    simp [hzero, BufBlocks.blocks, publishAnswer]
  | some vc =>
    have hfound : Turns (do
        let rsURI ← vmeBuildSystemRsuri (some vc)
        let result ← vcPost lib vc msg [] e
        freeIf rsURI
        vmebufDealloc msg
        return result) (msg.blocks + pre) (Returns e.answer pre) := by
      refine (vmeBuildSystemRsuri_turns ((hvme vc rfl).trans hle)).seq ?_
      rintro _ _ ⟨p, rfl, rfl⟩
      have hle' : msg.blocks + pre ≤ {p} + (msg.blocks + pre) := Multiset.le_add_left _ _
      refine (vcPost_turns (((hvme vc rfl).trans hle).trans hle') (hmsg.trans hle')
        (Multiset.zero_le _)).seq ?_
      rintro r _ ⟨hr, lost, hlost, rfl⟩
      refine (Turns.freeBlock (msg.blocks + (r.blocks + lost + pre)) (by abel)).step ?_
      exact (vmebufDealloc_turns _).step (Turns.pure ⟨hr, lost, hlost, rfl⟩)
    have huse : Turns (vcFromVme (some vc)) (msg.blocks + pre) fun found left =>
        found = some vc ∧ left = msg.blocks + pre :=
      (Turns.useBlock (hvme.mono hle).mem).step (Turns.pure ⟨rfl, rfl⟩)
    refine huse.seq ?_
    rintro _ _ ⟨rfl, rfl⟩
    exact hfound

theorem vmeQuerySource_turns (hvme : Given vme pre) {qParams : Option CString}
    (hdoc : vme.isSome = true → qParams ≠ none) :
    Turns (vmeQuerySource lib vme qParams e) pre (Returns (answerBy vme e.answer) pre) := by
  refine withClient_turns hvme fun vc hvc => ?_
  obtain ⟨qParams, rfl⟩ := Option.ne_none_iff_exists'.mp (hdoc (by rw [hvc]; rfl))
  refine (Turns.newBlock pre).seq ?_
  rintro sourceURI _ rfl
  have hvc' := (hvme vc (Option.mem_def.mpr hvc)).trans (Multiset.le_add_left pre {sourceURI})
  exact Returns.freeing (vcExecute_turns hvc' qParams) fun _ => Turns.freeBlock _ rfl

theorem vmeAggregate_turns (hvme : Given vme pre) {pipeline : Option CString}
    (hpipeline : vme.isSome = true → pipeline ≠ none) :
    Turns (vmeAggregate lib vme pipeline e) pre (Returns (answerBy vme e.answer) pre) := by
  refine withClient_turns hvme fun vc hvc => ?_
  have hvc' : vc.blocks ≤ pre := hvme vc (Option.mem_def.mpr hvc)
  obtain ⟨text, rfl⟩ := Option.ne_none_iff_exists'.mp (hpipeline (by rw [hvc]; rfl))
  refine (Turns.newBlock pre).seq ?_
  rintro aggRsURI _ rfl
  rw [deref_some, pure_bind]
  refine (buildParam_nil_turns (lit "pipeline") text _).seq ?_
  rintro params _ rfl
  refine (vcGet_turns ((hvc'.trans (Multiset.le_add_left _ _)).trans (Multiset.le_add_left _ _))
    (Multiset.le_add_right _ _)).seq ?_
  rintro r _ ⟨hr, lost, hlost, rfl⟩
  have hleft : r.blocks + lost + (paramBlocks params + ({aggRsURI} + pre)) =
      paramBlocks params + ({aggRsURI} + (r.blocks + lost + pre)) := by abel
  rw [hleft]
  refine (freeParams_turns params _).step ?_
  exact (Turns.freeBlock _ rfl).step (Turns.pure ⟨hr, lost, hlost, rfl⟩)

theorem vmeExecute_turns (hvme : Given vme pre) {argsDoc : Option CString}
    (hdoc : vme.isSome = true → argsDoc ≠ none) :
    Turns (vmeExecute lib vme argsDoc e) pre (Returns (answerBy vme e.answer) pre) := by
  refine withClient_turns hvme fun vc hvc => ?_
  have hvc' : vc.blocks ≤ pre := hvme vc (Option.mem_def.mpr hvc)
  subst hvc
  obtain ⟨argsDoc, rfl⟩ := Option.ne_none_iff_exists'.mp (hdoc rfl)
  refine (vmeBuildSystemRsuri_turns hvc').seq ?_
  rintro _ _ ⟨p, rfl, rfl⟩
  exact Returns.freeing (vcExecute_turns (hvc'.trans (Multiset.le_add_left _ _)) argsDoc)
    fun _ => Turns.freeBlock _ rfl

/-- Without a document nothing may be copied: the message it would come from was freed. -/
theorem vmePatch_turns (hvme : Given vme pre) {json : Option CString}
    (hjson : vme.isSome = true → json = none → e.copied = false) :
    Turns (vmePatch lib vme json e) pre fun r left =>
      match r with
      | some r => vme ≠ none ∧ Returns (answerBy vme e.answer) pre r left
      | none => left = pre ∧ vme = none := by
  cases vme with
  | none => exact Turns.pure ⟨rfl, rfl⟩
  | some vc =>
    have hsource : (if json = none then .freed e.copied else .none : Source).Readable pre := by
      split
      · rename_i hnone
        exact hjson rfl hnone
      · trivial
    have huse : Turns (vcFromVme (some vc)) pre fun found left => found = some vc ∧ left = pre :=
      (Turns.useBlock hvme.mem).step (Turns.pure ⟨rfl, rfl⟩)
    refine huse.seq ?_
    rintro _ _ ⟨rfl, rfl⟩
    refine (request_turns (hvme vc rfl) hsource (Multiset.zero_le _)).seq ?_
    rintro r _ hr
    exact Turns.pure ⟨by simp, hr⟩

/-- **`vme_free_result` frees what the result has.** -/
theorem vmeFreeResult_turns (r : ResultBlocks) (pre : Multiset Nat) :
    Turns (vmeFreeResult (some r)) (r.blocks + pre) fun _ left => left = pre := by
  have hopt : ∀ q : Option Nat, optBlock q = q.elim 0 fun p => {p} := by
    rintro (_ | p) <;> rfl
  refine (Turns.useBlock (by simp [ResultBlocks.blocks])).step ?_
  refine (Turns.freeIf ({r.result} + optBlock r.vmeErrorMsg + pre) ?_).step ?_
  · rw [ResultBlocks.blocks, ← hopt]
    abel
  refine (Turns.freeIf ({r.result} + pre) ?_).step (Turns.freeBlock _ rfl)
  rw [← hopt]
  abel

theorem vmeTeardown_turns (vc : ClientBlocks) (pre : Multiset Nat) :
    Turns (vmeTeardown (some vc)) (vc.blocks + pre) fun _ left => left = {vc.serverUrl} + pre := by
  have huse : Turns (vcFromVme (some vc)) (vc.blocks + pre) fun found left =>
      found = some vc ∧ left = vc.blocks + pre :=
    (Turns.useBlock (by simp [ClientBlocks.blocks])).step (Turns.pure ⟨rfl, rfl⟩)
  refine huse.seq ?_
  rintro _ _ ⟨rfl, rfl⟩
  exact vcTeardown_turns vc pre

theorem vmeCallbackState_turns (hvme : Given vme pre) :
    Turns (vmeCallbackState vme) pre fun _ left => left = pre := by
  cases vme with
  | none => exact Turns.pure rfl
  | some vc =>
    have huse : Turns (vcFromVme (some vc)) pre fun found left => found = some vc ∧ left = pre :=
      (Turns.useBlock hvme.mem).step (Turns.pure ⟨rfl, rfl⟩)
    refine huse.seq ?_
    rintro _ _ ⟨rfl, rfl⟩
    exact Turns.useBlock hvme.mem

/-! ## Every operation -/

/-- The answer of an operation. -/
def answer (vme : Option ClientBlocks) (e : Ending) : Op σ → Answer
  | .publish .. => publishAnswer vme e
  | _ => answerBy vme e.answer

/-- A result with the answer `n`, or `NULL` where `null` says so. -/
def Answers (n : Answer) (null : Prop) (pre : Multiset Nat) :
    Option ResultBlocks → Multiset Nat → Prop
  | some r, left => ¬ null ∧ Returns n pre r left
  | none, left => null ∧ left = pre

/-- What the operation reads through is there: its documents, and for a patch without one no
more than nothing. -/
def Backed (vme : Option ClientBlocks) (e : Ending) : Op σ → Prop
  | .insert _ json | .update _ json | .upsert _ json => vme.isSome = true → json ≠ none
  | .publish _ json => json ≠ none
  | .patch _ json => vme.isSome = true → json = none → e.copied = false
  | .execute _ doc | .querySource _ doc | .aggregate _ doc => vme.isSome = true → doc ≠ none
  | _ => True

theorem Backed.of_defined {op : Op σ} {v : UInt8} (hop : ¬ op.Faults v)
    (hcopied : op.PatchesNull → e.copied = false) : Backed vme e op := by
  cases op with
  | insert | update | upsert => exact fun _ => hop
  | publish => exact (not_or.mp hop).1
  | patch => exact fun _ => hcopied
  | execute | querySource | aggregate => exact fun _ => (not_or.mp hop).1
  | _ => trivial

theorem Backed.of_invalid {op : Op σ} (hop : ¬ op.PublishesNull) : Backed none e op := by
  cases op with
  | publish => exact hop
  | select | selectOne | selectCount | selectCallback | delete | deleteCount => trivial
  | _ => exact nofun

/-- **Every operation returns a result and gives back all else it allocates**, but for what its
answer says is lost. -/
theorem run_turns (op : Op σ) (hvme : Given vme pre) (hop : Backed vme e op) :
    Turns (run lib vme e op) pre
      (Answers (answer vme e op) (vme = none ∧ op.invalidHandle = none) pre) := by
  have hsome : ∀ {m : Heaped ResultBlocks} {n : Answer} {null : Prop},
      Turns m pre (Returns n pre) → ¬ null → Turns (some <$> m) pre (Answers n null pre) :=
    fun hm hnull => hm.map fun _ _ hr => ⟨hnull, hr⟩
  cases op with
  | select rsURI propSpecs whereClause sortSpec page limit =>
    exact hsome (vmeSelect_turns hvme propSpecs whereClause sortSpec page limit)
      (by simp [Op.invalidHandle])
  | selectOne rsURI props whereClause =>
    exact hsome (vmeSelect_turns hvme props whereClause none 0 1) (by simp [Op.invalidHandle])
  | selectCount rsURI propSpecs whereClause sortSpec =>
    exact hsome (vmeSelectCount_turns hvme propSpecs whereClause sortSpec)
      (by simp [Op.invalidHandle])
  | selectCallback rsURI propSpecs whereClause sortSpec page limit callback =>
    exact hsome (vmeSelectCallback_turns hvme propSpecs whereClause sortSpec page limit)
      (by simp [Op.invalidHandle])
  | insert rsURI json => exact hsome (_insert_turns hvme hop) (by simp [Op.invalidHandle])
  | update rsURI json => exact hsome (_insert_turns hvme hop) (by simp [Op.invalidHandle])
  | upsert rsURI json => exact hsome (vmeUpsert_turns hvme hop) (by simp [Op.invalidHandle])
  | delete rsURI whereClause =>
    exact hsome (_delete_turns hvme whereClause false) (by simp [Op.invalidHandle])
  | deleteCount rsURI whereClause =>
    exact hsome (_delete_turns hvme whereClause true) (by simp [Op.invalidHandle])
  | patch rsURI json =>
    refine (vmePatch_turns hvme hop).mono ?_
    rintro (_ | r) left hr
    · exact ⟨⟨hr.2, rfl⟩, hr.1⟩
    · exact ⟨fun hnull => hr.1 hnull.1, hr.2⟩
  | publish topic json =>
    obtain ⟨json, rfl⟩ := Option.ne_none_iff_exists'.mp hop
    exact hsome (vmePublish_turns hvme json) (by simp [Op.invalidHandle])
  | execute procID argsDoc =>
    exact hsome (vmeExecute_turns hvme hop) (by simp [Op.invalidHandle])
  | querySource sourceID qParams =>
    exact hsome (vmeQuerySource_turns hvme hop) (by simp [Op.invalidHandle])
  | aggregate rsURI pipeline =>
    exact hsome (vmeAggregate_turns hvme hop) (by simp [Op.invalidHandle])

end Api

end VantiqMicro.Held
