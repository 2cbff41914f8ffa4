import VantiqMicro.Api
import VantiqMicro.Transaction

/-! # The operations as plans

Each of the fourteen request operations checks its handle, works out a path and
parameters, and makes one request.  `Op.plan` says which: a table from the
operation and the client's API version to the plan it carries out, or `none`
where the operation faults before it makes a request.  `Op.run_refines` is the
theorem about all of them: on a client between operations, the operation makes
the exchange of its plan and returns its result, and the client is between
operations again. -/

namespace VantiqMicro
open CMem

variable {σ : Type}

/-- The path of an aggregate. -/
def aggregatePath (rsURI : CString) : CString :=
  if rsURI.bytes.getLast? = some 47 then rsURI ++ lit "aggregate" else rsURI ++ lit "/aggregate"

/-- The path of a topic. -/
def topicPath (apiVersion : UInt8) (topic : CString) : CString :=
  rsuriPathNoidNoname apiVersion.toNat (lit "topics") topic

/-- The path of a procedure. -/
def procedurePath (apiVersion : UInt8) (procID : CString) : CString :=
  rsuriPathNoidNoname apiVersion.toNat (lit "procedures") procID

/-- The request an operation makes, once it gets there. -/
def Op.outline (apiVersion : UInt8) : Op σ → Plan σ
  | select rsURI propSpecs whereClause sortSpec page limit =>
    let params := buildSelectParams propSpecs whereClause sortSpec page limit
    { method := .get, rsURI, params }
  | selectOne rsURI props whereClause =>
    { method := .get, rsURI, params := buildSelectParams props whereClause none 0 1 }
  | selectCount rsURI propSpecs whereClause sortSpec =>
    let params := buildSelectParams propSpecs whereClause sortSpec 0 0
    { method := .get, rsURI, params := buildParam params (lit "count") (lit "true") }
  | selectCallback rsURI propSpecs whereClause sortSpec page limit callback =>
    let params := buildSelectParams propSpecs whereClause sortSpec page limit
    { method := .get, rsURI, params, recvCallback := callback }
  | insert rsURI json => { method := .post (.ofBytes (json.getD [])), rsURI }
  | update rsURI json => { method := .put (.ofBytes (json.getD [])), rsURI }
  | upsert rsURI json =>
    let params := buildParam [] (lit "upsert") (lit "true")
    { method := .post (.ofBytes (json.getD [])), rsURI, params }
  | delete rsURI whereClause =>
    { method := .delete, rsURI, params := buildOptParam [] (lit "where") whereClause }
  | deleteCount rsURI whereClause =>
    let params := buildOptParam [] (lit "where") whereClause
    { method := .delete, rsURI, params := buildParam params (lit "count") (lit "true") }
  | patch rsURI json => { method := .patch json, rsURI }
  | publish topic json =>
    { method := .post (.ofBytes (json.getD [])), rsURI := topicPath apiVersion topic }
  | execute procID argsDoc =>
    { method := .post (.ofBytes (argsDoc.getD (lit "")).bytes)
      rsURI := procedurePath apiVersion procID }
  | querySource sourceID qParams =>
    { method := .post (.ofBytes (qParams.getD (lit "")).bytes), rsURI := sourcePath sourceID }
  | aggregate rsURI pipeline =>
    let params := buildParam [] (lit "pipeline") (pipeline.getD (lit ""))
    { method := .get, rsURI := aggregatePath rsURI, params }

/-- The arguments an operation does not survive: a document that is read through or asserted,
and is `NULL`; a path that `snprintf` cannot return the length of; the empty path of an
aggregate. -/
def Op.Faults (apiVersion : UInt8) : Op σ → Prop
  | insert _ json | update _ json | upsert _ json => json = none
  | publish topic json => json = none ∨ INT_MAX < (topicPath apiVersion topic).length
  | execute procID argsDoc => argsDoc = none ∨ INT_MAX < (procedurePath apiVersion procID).length
  | querySource sourceID qParams => qParams = none ∨ INT_MAX < (sourcePath sourceID).length
  | aggregate rsURI pipeline => pipeline = none ∨ rsURI.bytes = []
  | _ => False

instance Op.decidableFaults (apiVersion : UInt8) : (op : Op σ) → Decidable (op.Faults apiVersion)
  | insert _ json | update _ json | upsert _ json => inferInstanceAs (Decidable (json = none))
  | publish .. | execute .. | querySource .. | aggregate .. =>
    inferInstanceAs (Decidable (_ ∨ _))
  | select .. | selectOne .. | selectCount .. | selectCallback .. | delete .. | deleteCount ..
  | patch .. => inferInstanceAs (Decidable False)

/-- The request an operation makes; `none` if it faults first. -/
def Op.plan (apiVersion : UInt8) (op : Op σ) : Option (Plan σ) :=
  if op.Faults apiVersion then none else some (op.outline apiVersion)

theorem Op.plan_eq_none_iff {op : Op σ} {v : UInt8} : op.plan v = none ↔ op.Faults v := by
  rw [Op.plan]
  split <;> simp_all

theorem Op.plan_eq_some_iff {op : Op σ} {v : UInt8} {p : Plan σ} :
    op.plan v = some p ↔ ¬ op.Faults v ∧ p = op.outline v := by
  rw [Op.plan]
  split <;> simp_all [eq_comm]

/-- A patch without a document, whose transfer turns to the read callback. -/
def Op.PatchesNull : Op σ → Prop
  | patch _ json => json = none
  | _ => False

/-- A publication without a document, which is asserted before the handle is looked at. -/
def Op.PublishesNull : Op σ → Prop
  | publish _ json => json = none
  | _ => False

instance Op.decidablePatchesNull : (op : Op σ) → Decidable op.PatchesNull
  | patch _ json => inferInstanceAs (Decidable (json = none))
  | select .. | selectOne .. | selectCount .. | selectCallback .. | insert .. | update ..
  | upsert .. | delete .. | deleteCount .. | publish .. | execute .. | querySource ..
  | aggregate .. => inferInstanceAs (Decidable False)

theorem Op.PublishesNull.faults {op : Op σ} (h : op.PublishesNull) (v : UInt8) : op.Faults v := by
  cases op with
  | publish topic json => exact .inl h
  | _ => cases h

theorem Op.patchesNull_iff {op : Op σ} {v : UInt8} :
    op.PatchesNull ↔ (op.outline v).method = .patch none := by
  cases op <;> simp [PatchesNull, outline]

/-! ## Calls through a handle -/

namespace World
variable {w : World σ} {p q : Addr} {r r' : Referent σ} {vc : VantiqClient σ} {s s' : Session σ}

@[simp] theorem put_heap_self : (w.put p r).heap p = r := if_pos rfl

theorem put_heap_of_ne (h : q ≠ p) : (w.put p r).heap q = w.heap q := if_neg h

@[simp] theorem leave_heap_self : (w.leave p s).heap p = .client s.vc := if_pos rfl

theorem leave_heap_of_ne (h : q ≠ p) : (w.leave p s).heap q = w.heap q := if_neg h

/-- Two calls on one client are one call. -/
theorem leave_leave : (w.leave p s).leave p s' =
    w.leave p { s' with wire := s.wire ++ s'.wire } := by
  simp only [leave, put, World.mk.injEq, List.map_append, List.append_assoc, and_true]
  funext q
  split <;> rfl

end World

section Valid
variable {lib : Libcurl} {w w' : World σ} {h : VME} {vc : VantiqClient σ} {x : Transfer}

/-- A handle to a live client passes the check. -/
theorem vcFromVme_client (hp : w.heap h = .client vc) (hne : h ≠ NULL)
    (hm : vc.magic = VC_MAGIC) : vcFromVme w h = .ok (some h) := by
  simp only [vcFromVme, vcIsValid, if_neg hne, hp, hm, beq_self_eq_true, ok_bind, if_true,
    pure_eq_ok]

@[simp] theorem vcFromVme_null : vcFromVme w NULL = .ok none := rfl

theorem World.onClient_eq_ok {α : Type} {f : Session σ → Except Fault (α × Session σ)} {a : α}
    (hp : w.heap h = .client vc) :
    w.onClient h f = .ok (a, w') ↔ ∃ s, f (w.session vc) = .ok (a, s) ∧ w' = w.leave h s := by
  simp only [World.onClient, hp, bind_eq_ok, pure_eq_ok, Except.ok.injEq, Prod.mk.injEq]
  constructor
  · rintro ⟨⟨b, s⟩, hf, rfl, rfl⟩
    exact ⟨s, hf, rfl⟩
  · rintro ⟨s, hf, rfl⟩
    exact ⟨(a, s), hf, rfl, rfl⟩

theorem notNull_eq_ok {y : Except Fault (VmeResult × World σ)} {r : Option VmeResult} :
    notNull y = .ok (r, w') ↔ ∃ result, y = .ok (result, w') ∧ r = some result := by
  simp only [notNull, bind_eq_ok, pure_eq_ok, Except.ok.injEq, Prod.mk.injEq]
  constructor
  · rintro ⟨⟨result, w₁⟩, hy, rfl, rfl⟩
    exact ⟨result, hy, rfl⟩
  · rintro ⟨result, hy, rfl⟩
    exact ⟨(result, w'), hy, rfl, rfl⟩

section Path
variable {systype : VmeRstype} {ns : CString}

/-- The path of a topic or a procedure, as `vme_publish` and `vme_execute` build it. -/
theorem derefPath_build {name : CString} (hp : w.heap h = .client vc) (hne : h ≠ NULL)
    (hm : vc.magic = VC_MAGIC) (hns : vmeMaptoRsname systype = .ok ns)
    (hle : (rsuriPathNoidNoname vc.apiVersion.toNat ns name).length ≤ INT_MAX) :
    (vmeBuildSystemRsuri w h systype (some name) none >>= derefPath) =
      .ok (rsuriPathNoidNoname vc.apiVersion.toNat ns name) := by
  have hv : vc.apiVersion.toNat < 1000 := Nat.lt_trans vc.apiVersion.toNat_lt (by decide)
  have htext : rsuriPath vc.apiVersion.toNat ns (some name) none =
      some (rsuriPathNoidNoname vc.apiVersion.toNat ns name) := rfl
  obtain ⟨path, hpath, hread⟩ := buildRsuri_spec hv htext hle
  simp only [vmeBuildSystemRsuri, vcFromVme_client hp hne hm, ok_bind, hp, hns, hpath, pure_eq_ok,
    derefPath, hread]

/-- A longer one fails the assertion in `build_rsuri`. -/
theorem derefPath_build_of_lt {name : CString} (hp : w.heap h = .client vc) (hne : h ≠ NULL)
    (hm : vc.magic = VC_MAGIC) (hns : vmeMaptoRsname systype = .ok ns)
    (hlt : INT_MAX < (rsuriPathNoidNoname vc.apiVersion.toNat ns name).length) :
    (vmeBuildSystemRsuri w h systype (some name) none >>= derefPath) = .error .assertion := by
  have hv : vc.apiVersion.toNat < 1000 := Nat.lt_trans vc.apiVersion.toNat_lt (by decide)
  have htext : rsuriPath vc.apiVersion.toNat ns (some name) none =
      some (rsuriPathNoidNoname vc.apiVersion.toNat ns name) := rfl
  simp only [vmeBuildSystemRsuri, vcFromVme_client hp hne hm, ok_bind, hp, hns,
    buildRsuri_of_lt hv htext hlt, error_bind]

end Path

/-- `vme_aggregate` builds its path in place, unless the URI is empty. -/
theorem aggregateRsURI_eq {rsURI : CString} (hu : rsURI.bytes ≠ []) :
    ∃ spare, aggregateRsURI rsURI = .ok ((aggregatePath rsURI).toBlock ++ malloc spare) := by
  obtain ⟨last, hlastChar⟩ := CString.exists_lastChar hu
  have hlen : (lit "/aggregate").length = 10 := rfl
  have hlen' : (lit "aggregate").length = 9 := rfl
  have hlast := CString.lastChar_eq_ok.mp hlastChar
  have hroom : rsURI.length + ((lit "/aggregate").length + 1) - (rsURI.length + 1) = 10 := by
    omega
  have hcpy := Block.strcpy_malloc (n := rsURI.length + ((lit "/aggregate").length + 1))
    (s := rsURI) (by omega)
  rw [hroom] at hcpy
  refine ⟨if last = 47 then 1 else 0, ?_⟩
  simp only [aggregateRsURI, hcpy, hlastChar, ok_bind]
  by_cases h47 : last = 47
  · rw [if_pos h47, if_pos h47, Block.strcat_malloc (by omega), aggregatePath,
      if_pos (by rw [hlast, h47])]
    rfl
  · rw [if_neg h47, if_neg h47, Block.strcat_malloc (by omega), aggregatePath,
      if_neg (by rw [hlast]; simpa using h47)]
    rfl

/-- There is nothing to read in front of an empty one. -/
theorem aggregateRsURI_of_nil {rsURI : CString} (hu : rsURI.bytes = []) :
    aggregateRsURI rsURI = .error .outOfBounds := by
  have hcpy := Block.strcpy_malloc (n := rsURI.length + ((lit "/aggregate").length + 1))
    (s := rsURI) (by omega)
  simp only [aggregateRsURI, hcpy, ok_bind, CString.lastChar, hu, List.getLast?_nil, error_bind]

section Source
variable {INT_MAX : Nat} {sourceID : CString}

theorem length_sourcePath (sourceID : CString) :
    (sourcePath sourceID).length = 15 + sourceID.length := by
  have h₁ : (lit "/sources/").length = 9 := rfl
  have h₂ : (lit "/query").length = 6 := rfl
  simp only [sourcePath, CString.length_append]
  omega

/-- `vme_query_source` allocates for its path with the pieces the other way round: the
size is the same. -/
theorem querySourceURI_eq (h : (sourcePath sourceID).length ≤ INT_MAX) :
    querySourceURI INT_MAX sourceID = .ok (sourcePath sourceID).toBlock := by
  have hsize : (lit "/sources/query/").length + 1 + sourceID.length =
      (sourcePath sourceID).length + 1 := by
    rw [length_sourcePath, show (lit "/sources/query/").length = 15 from rfl]
    omega
  rw [querySourceURI, hsize, Block.snprintf_of_le h (Nat.lt_succ_self _), Nat.sub_self, malloc,
    List.replicate_zero, List.append_nil]
  rfl

/-- Where `snprintf` fails the block is passed on as it was allocated. -/
theorem querySourceURI_of_lt (h : INT_MAX < (sourcePath sourceID).length) :
    querySourceURI INT_MAX sourceID = .ok (malloc (16 + sourceID.length)) := by
  have hsize : (lit "/sources/query/").length + 1 + sourceID.length = 16 + sourceID.length := rfl
  rw [querySourceURI, hsize, Block.snprintf_of_lt h]
  rfl

end Source

/-- The operation is not `vme_select_callback`. -/
def Op.Plain : Op σ → Prop
  | selectCallback .. => False
  | _ => True

/-- **A plain operation is its plan's request**, made through the handle. -/
theorem Op.run_of_plain {op : Op σ} {p : Plan σ} (hp : w.heap h = .client vc) (hne : h ≠ NULL)
    (hm : vc.magic = VC_MAGIC) (hop : op.Plain) (hplan : op.plan vc.apiVersion = some p) :
    op.run lib w h x = notNull (w.onClient h (p.exec lib x)) := by
  have hv := vcFromVme_client hp hne hm
  obtain ⟨hfaults, rfl⟩ := plan_eq_some_iff.mp hplan
  cases op with
  | selectCallback => cases hop
  | select rsURI propSpecs whereClause sortSpec page limit =>
    simp only [Op.run, vmeSelect, _select, hv, ok_bind]
    rfl
  | selectOne rsURI props whereClause =>
    simp only [Op.run, vmeSelectOne, vmeSelect, _select, hv, ok_bind]
    rfl
  | selectCount rsURI propSpecs whereClause sortSpec =>
    simp only [Op.run, vmeSelectCount, _select, hv, ok_bind]
    rfl
  | insert rsURI json =>
    obtain ⟨json, rfl⟩ := Option.ne_none_iff_exists'.mp hfaults
    simp only [Op.run, vmeInsert, _insert, hv, ok_bind, (messageBuf_eq_ofBytes json).1]
    rfl
  | update rsURI json =>
    obtain ⟨json, rfl⟩ := Option.ne_none_iff_exists'.mp hfaults
    simp only [Op.run, vmeUpdate, hv, ok_bind, (messageBuf_eq_ofBytes json).1]
    rfl
  | upsert rsURI json =>
    obtain ⟨json, rfl⟩ := Option.ne_none_iff_exists'.mp hfaults
    simp only [Op.run, vmeUpsert, hv, ok_bind, (messageBuf_eq_ofBytes json).1]
    rfl
  | delete rsURI whereClause =>
    simp only [Op.run, vmeDelete, _delete, hv, ok_bind]
    rfl
  | deleteCount rsURI whereClause =>
    simp only [Op.run, vmeDeleteCount, _delete, hv, ok_bind]
    rfl
  | patch rsURI json =>
    simp only [Op.run, vmePatch, hv, ok_bind]
    rfl
  | publish topic json =>
    obtain ⟨hjson, hle⟩ := not_or.mp hfaults
    obtain ⟨json, rfl⟩ := Option.ne_none_iff_exists'.mp hjson
    have hpath := derefPath_build hp hne hm vmeMaptoRsname_topics (Nat.le_of_not_lt hle)
    simp only [Op.run, vmePublish, hv, ok_bind, (messageBuf_eq_ofBytes json).1]
    rw [← bind_assoc, hpath]
    rfl
  | execute procID argsDoc =>
    obtain ⟨hdoc, hle⟩ := not_or.mp hfaults
    obtain ⟨argsDoc, rfl⟩ := Option.ne_none_iff_exists'.mp hdoc
    have hpath := derefPath_build hp hne hm vmeMaptoRsname_procedures (Nat.le_of_not_lt hle)
    simp only [Op.run, vmeExecute, hv, ok_bind]
    rw [← bind_assoc, hpath]
    exact congrArg (fun f => notNull (w.onClient h f))
      (funext fun s => vcExecute_eq_exec lib _ x s argsDoc)
  | querySource sourceID qParams =>
    obtain ⟨hdoc, hle⟩ := not_or.mp hfaults
    obtain ⟨qParams, rfl⟩ := Option.ne_none_iff_exists'.mp hdoc
    simp only [Op.run, vmeQuerySource, hv, ok_bind, querySourceURI_eq (Nat.le_of_not_lt hle),
      Block.readString_toBlock]
    exact congrArg (fun f => notNull (w.onClient h f))
      (funext fun s => vcQuery_eq_exec lib _ x s qParams)
  | aggregate rsURI pipeline =>
    obtain ⟨hpipeline, hu⟩ := not_or.mp hfaults
    obtain ⟨pipeline, rfl⟩ := Option.ne_none_iff_exists'.mp hpipeline
    obtain ⟨spare, hagg⟩ := aggregateRsURI_eq hu
    simp only [Op.run, vmeAggregate, hv, ok_bind, hagg, derefString, Block.readString_append]
    rfl

/-- A function that only changes the session. -/
theorem World.onClient_modify (hp : w.heap h = .client vc) (f : Session σ → Session σ) :
    w.onClient h (fun s => .ok ((), f s)) = .ok ((), w.leave h (f (w.session vc))) :=
  (World.onClient_eq_ok hp).mpr ⟨_, rfl, rfl⟩

/-- `vme_select_callback` sets the callback, makes its plan's request and clears the
callback. -/
theorem Op.run_selectCallback_eq_ok {rsURI : CString}
    {propSpecs whereClause sortSpec : Option CString} {page limit : Int}
    {callback : Option (UserCallback σ)} {p : Plan σ} {r : Option VmeResult}
    (hp : w.heap h = .client vc) (hne : h ≠ NULL) (hm : vc.magic = VC_MAGIC)
    (hplan : (selectCallback rsURI propSpecs whereClause sortSpec page limit callback).plan
      vc.apiVersion = some p) :
    (selectCallback rsURI propSpecs whereClause sortSpec page limit callback).run lib w h x =
        .ok (r, w') ↔
      ∃ result s, p.exec lib x { w.session vc with vc.recvCallback := p.recvCallback } =
          .ok (result, s) ∧ r = some result ∧
        w' = w.leave h { s with vc.recvCallback := none } := by
  obtain ⟨-, rfl⟩ := plan_eq_some_iff.mp hplan
  have hset := World.onClient_modify hp fun s => { s with vc.recvCallback := callback }
  have hp₁ : (w.leave h { w.session vc with vc.recvCallback := callback }).heap h =
      .client { vc with recvCallback := callback } := World.leave_heap_self
  have hv₁ := vcFromVme_client hp₁ hne hm
  have hclear : ∀ s : Session σ,
      ((w.leave h { w.session vc with vc.recvCallback := callback }).leave h s).onClient h
        (fun s => .ok ((), { s with vc.recvCallback := none })) =
      .ok ((), w.leave h { s with vc.recvCallback := none }) := by
    intro s
    rw [World.onClient_modify World.leave_heap_self, World.leave_leave, World.leave_leave]
    simp [World.leave, World.session, World.put]
  simp only [Op.run, notNull_eq_ok, vmeSelectCallback, vcFromVme_client hp hne hm, ok_bind, hset,
    vmeSelect, _select, hv₁]
  constructor
  · rintro ⟨result, hrun, rfl⟩
    obtain ⟨⟨result', w₂⟩, hexec, hrun⟩ := bind_eq_ok.mp hrun
    obtain ⟨s, hs, rfl⟩ := (World.onClient_eq_ok hp₁).mp hexec
    simp only [hclear, ok_bind, pure_eq_ok, Except.ok.injEq, Prod.mk.injEq] at hrun
    obtain ⟨rfl, rfl⟩ := hrun
    exact ⟨result', s, hs, rfl, rfl⟩
  · rintro ⟨result, s, hs, rfl, rfl⟩
    refine ⟨result, bind_eq_ok.mpr ⟨_, (World.onClient_eq_ok hp₁).mpr ⟨s, hs, rfl⟩, ?_⟩, rfl⟩
    simp only [hclear, ok_bind, pure_eq_ok]

end Valid

/-! ## Every operation -/

/-- The callback the operation registers. -/
def Op.recvCallback : Op σ → Option (UserCallback σ)
  | selectCallback _ _ _ _ _ _ callback => callback
  | _ => none

theorem Op.recvCallback_plan {op : Op σ} {v : UInt8} {p : Plan σ} (h : op.plan v = some p) :
    p.recvCallback = op.recvCallback := by
  obtain ⟨-, rfl⟩ := plan_eq_some_iff.mp h
  cases op <;> rfl

/-- The world after the client at `h` made the exchange `e` and became `vc`. -/
def World.after (w : World σ) (h : Addr) (vc : VantiqClient σ) (user : σ) (e : Exchange) :
    World σ :=
  { w.put h (.client vc) with user, wire := w.wire ++ [(h, e)] }

@[simp] theorem World.after_heap_self {w : World σ} {h : Addr} {vc : VantiqClient σ} {user : σ}
    {e : Exchange} : (w.after h vc user e).heap h = .client vc := if_pos rfl

/-- `vc'` is what a request whose transfer ended in `d` leaves of `vc`. -/
structure VantiqClient.Settled (vc' vc : VantiqClient σ) (d : Intake σ) : Prop
    extends vc'.Ready where
  account : vc'.account = vc.account
  resultCount : vc'.resultCount = 0
  holds : vc'.recvBuf.Holds d.received
  /-- What was not sent is still counted. -/
  send : vc'.sendState = { d.send with base := none }

section Run
variable {lib : Libcurl} {w w' : World σ} {h : VME} {vc : VantiqClient σ} {x : Transfer}
  {op : Op σ} {p : Plan σ} {r : Option VmeResult}

/-- The client as the plan's request finds it. -/
def World.start (w : World σ) (vc : VantiqClient σ) (p : Plan σ) : Session σ :=
  { w.session vc with vc.recvCallback := p.recvCallback }

theorem Op.run_eq_ok (hp : w.heap h = .client vc) (hne : h ≠ NULL) (hr : vc.Ready)
    (hplan : op.plan vc.apiVersion = some p) :
    op.run lib w h x = .ok (r, w') ↔
      ∃ result s, p.exec lib x (w.start vc p) = .ok (result, s) ∧ r = some result ∧
        w' = w.leave h { s with vc.recvCallback := none } := by
  by_cases hop : op.Plain
  · have hcb : p.recvCallback = none := by
      rw [recvCallback_plan hplan]
      cases op <;> first | rfl | cases hop
    have hstart : w.start vc p = w.session vc := by
      rw [World.start, hcb, ← hr.recvCallback]
      rfl
    obtain ⟨code, hc⟩ := hr.curl
    -- a plain operation leaves the callback as it was, which is unset
    have hclear : ∀ result s, p.exec lib x (w.session vc) = .ok (result, s) →
        { s with vc.recvCallback := none } = s := by
      intro result s hs
      obtain ⟨-, -, hl⟩ := Plan.exec_ok (s := w.session vc) hc hr.recvBuf
        (hr.recvCallback.trans hcb.symm) hr.base hs
      have hnone : s.vc.recvCallback = none := hl.recvCallback.trans hr.recvCallback
      rw [← hnone]
    rw [run_of_plain hp hne hr.magic hop hplan, notNull_eq_ok, hstart]
    simp only [World.onClient_eq_ok hp]
    constructor
    · rintro ⟨result, ⟨s, hs, rfl⟩, rfl⟩
      exact ⟨result, s, hs, rfl, by rw [hclear _ _ hs]⟩
    · rintro ⟨result, s, hs, rfl, rfl⟩
      exact ⟨result, ⟨s, hs, by rw [hclear _ _ hs]⟩, rfl⟩
  · cases op with
    | selectCallback => exact run_selectCallback_eq_ok hp hne hr.magic hplan
    | _ => exact absurd trivial hop

/-- Nothing about the operation is left to what stands in memory: its arguments do not fault,
and a patch without a document finds nothing left over of an upload. -/
structure Op.Defined (op : Op σ) (vc : VantiqClient σ) : Prop where
  faults : ¬ op.Faults vc.apiVersion
  left : op.PatchesNull → vc.sendState.sizeleft = 0

/-- What the plan's request finds on the client. -/
def World.setting (w : World σ) (vc : VantiqClient σ) : Setting σ := (w.session vc).setting

/-- **On a client between operations an operation makes its plan's exchange and
returns its plan's result**, and leaves the client between operations. -/
theorem Op.run_refines (lib : Libcurl) (hp : w.heap h = .client vc) (hne : h ≠ NULL) (hr : vc.Ready)
    (hplan : op.plan vc.apiVersion = some p) (hfit : p.Fits (w.setting vc) x) :
    ∃ vc', op.run lib w h x = .ok (some (p.result lib (w.setting vc) x),
        w.after h vc' (p.outcome (w.setting vc) x).1.user (p.exchange lib (w.setting vc) x)) ∧
      vc'.Settled vc (p.outcome (w.setting vc) x).1 := by
  obtain ⟨code, hc⟩ := hr.curl
  obtain ⟨s, hs, hl⟩ :=
    Plan.exec_refines lib (s := w.start vc p) hc hr.recvBuf rfl hr.base hfit
  refine ⟨{ s.vc with recvCallback := none },
    (run_eq_ok hp hne hr hplan).mpr ⟨_, s, hs, rfl, ?_⟩,
    ⟨⟨hl.magic.trans hr.magic, ⟨_, hl.curl⟩, hl.recvBuf.toSound, rfl,
      congrArg VcSendstate.base hl.send⟩, hl.account, hl.resultCount, hl.recvBuf, hl.send⟩⟩
  simp only [World.after, World.leave, hl.user, hl.wire]
  rfl

/-- **An operation without a plan does not return.** -/
theorem Op.run_of_no_plan (lib : Libcurl) (hp : w.heap h = .client vc) (hne : h ≠ NULL)
    (hm : vc.magic = VC_MAGIC) (hplan : op.plan vc.apiVersion = none) :
    ∃ fault, op.run lib w h x = .error fault := by
  have hv := vcFromVme_client hp hne hm
  have hfaults := plan_eq_none_iff.mp hplan
  cases op with
  | insert rsURI json | update rsURI json | upsert rsURI json =>
    obtain rfl : json = none := hfaults
    simp only [Op.run, vmeInsert, _insert, vmeUpdate, vmeUpsert, hv, ok_bind, messageBuf_none,
      error_bind, notNull]
    exact ⟨_, rfl⟩
  | publish topic json =>
    cases json with
    | none => exact ⟨.assertion, rfl⟩
    | some json =>
      have hlt := hfaults.resolve_left (Option.some_ne_none _)
      have hpath := derefPath_build_of_lt hp hne hm vmeMaptoRsname_topics hlt
      simp only [Op.run, vmePublish, hv, ok_bind, (messageBuf_eq_ofBytes json).1]
      rw [← bind_assoc, hpath]
      exact ⟨_, rfl⟩
  | execute procID argsDoc =>
    by_cases hle : (procedurePath vc.apiVersion procID).length ≤ INT_MAX
    · obtain rfl := hfaults.resolve_right (Nat.not_lt.mpr hle)
      have hpath := derefPath_build hp hne hm vmeMaptoRsname_procedures hle
      refine ⟨.nullPointer, ?_⟩
      simp only [Op.run, vmeExecute, hv, ok_bind]
      rw [← bind_assoc, hpath]
      simp only [ok_bind, World.onClient, hp, vcExecute, derefString, error_bind, notNull]
    · have hpath := derefPath_build_of_lt hp hne hm vmeMaptoRsname_procedures
        (Nat.lt_of_not_le hle)
      simp only [Op.run, vmeExecute, hv, ok_bind]
      rw [← bind_assoc, hpath]
      exact ⟨_, rfl⟩
  | querySource sourceID qParams =>
    by_cases hle : (sourcePath sourceID).length ≤ INT_MAX
    · obtain rfl := hfaults.resolve_right (Nat.not_lt.mpr hle)
      refine ⟨.nullPointer, ?_⟩
      simp only [Op.run, vmeQuerySource, hv, ok_bind, querySourceURI_eq hle,
        Block.readString_toBlock, World.onClient, hp, vcQuery, derefString, error_bind, notNull]
    · refine ⟨.unterminated, ?_⟩
      simp only [Op.run, vmeQuerySource, hv, ok_bind, querySourceURI_of_lt (Nat.lt_of_not_le hle),
        Block.readString_malloc, error_bind, notNull]
  | aggregate rsURI pipeline =>
    by_cases hu : rsURI.bytes = []
    · refine ⟨.outOfBounds, ?_⟩
      simp only [Op.run, vmeAggregate, hv, ok_bind, aggregateRsURI_of_nil hu, error_bind, notNull]
    · obtain rfl := hfaults.resolve_right hu
      obtain ⟨spare, hagg⟩ := aggregateRsURI_eq hu
      refine ⟨.nullPointer, ?_⟩
      simp only [Op.run, vmeAggregate, hv, ok_bind, hagg, derefString, error_bind, notNull]
  | _ => cases hfaults

/-- **What an operation that returns did.** -/
theorem Op.run_inv (hp : w.heap h = .client vc) (hne : h ≠ NULL) (hr : vc.Ready)
    (hrun : op.run lib w h x = .ok (r, w')) :
    ∃ p vc', op.plan vc.apiVersion = some p ∧ p.Fits (w.setting vc) x ∧
      r = some (p.result lib (w.setting vc) x) ∧
      w' = w.after h vc' (p.outcome (w.setting vc) x).1.user (p.exchange lib (w.setting vc) x) ∧
      vc'.Settled vc (p.outcome (w.setting vc) x).1 := by
  cases hplan : op.plan vc.apiVersion with
  | none =>
    obtain ⟨fault, hf⟩ := run_of_no_plan lib (x := x) hp hne hr.magic hplan
    rw [hf] at hrun
    cases hrun
  | some p =>
    obtain ⟨code, hc⟩ := hr.curl
    obtain ⟨result, s, hs, -, -⟩ := (run_eq_ok hp hne hr hplan).mp hrun
    obtain ⟨hfit, -, -⟩ := Plan.exec_ok (s := w.start vc p) hc hr.recvBuf rfl hr.base hs
    obtain ⟨vc', hrun', hset⟩ := run_refines lib hp hne hr hplan hfit
    obtain ⟨rfl, rfl⟩ := Prod.mk.inj (Except.ok.inj (hrun.symm.trans hrun'))
    exact ⟨p, vc', rfl, hfit, rfl, rfl, hset⟩

/-- Only a patch without a document reads what an earlier upload left. -/
theorem Op.fits_of_headers (hplan : op.plan vc.apiVersion = some p)
    (hleft : op.PatchesNull → vc.sendState.sizeleft = 0)
    (hheaders : HeadersFit (p.outcome (w.setting vc) x).2.1) : p.Fits (w.setting vc) x := by
  obtain ⟨-, rfl⟩ := plan_eq_some_iff.mp hplan
  exact Plan.fits_of_headers (fun hm => hleft (patchesNull_iff.mpr hm)) hheaders

/-- An upload that breaks off after one byte. -/
def brokenUpload : Transfer :=
  { events := [.send 1], res := 55, status := 0, errText := lit "send failed" }

/-- Whether an operation is defined shows in a transfer that reads. -/
theorem Op.defined_iff_returns (lib : Libcurl) (hp : w.heap h = .client vc) (hne : h ≠ NULL)
    (hr : vc.Ready) : op.Defined vc ↔ ∃ r, op.run lib w h brokenUpload = .ok r := by
  constructor
  · rintro ⟨hop, hleft⟩
    have hplan := plan_eq_some_iff.mpr ⟨hop, rfl⟩
    have hheaders : HeadersFit ((op.outline vc.apiVersion).outcome (w.setting vc)
        brokenUpload).2.1 := fun line hl => nomatch Intake.headers_subset hl
    obtain ⟨vc', hrun, -⟩ := run_refines lib hp hne hr hplan (fits_of_headers hplan hleft hheaders)
    exact ⟨_, hrun⟩
  · rintro ⟨⟨r, w'⟩, hrun⟩
    obtain ⟨p, vc', hplan, hfit, -⟩ := run_inv hp hne hr hrun
    obtain ⟨hop, rfl⟩ := plan_eq_some_iff.mp hplan
    refine ⟨hop, fun hnull => ?_⟩
    by_contra hleft
    cases op with
    | patch rsURI json =>
      obtain rfl : json = none := hnull
      -- the transfer's one read would be from a message that was freed
      cases hfit.reads (hr.stale_iff.mpr hleft)
    | _ => cases hnull

/-- What an operation returns for an invalid handle. -/
def Op.invalidHandle : Op σ → Option VmeResult
  | patch .. => none
  | _ => some (vmeErrorResult INVALID_HANDLE)

/-- A publication without a document does not get to its handle. -/
theorem Op.run_of_publishesNull (hop : op.PublishesNull) :
    op.run lib w h x = .error .assertion := by
  cases op with
  | publish topic json =>
    obtain rfl : json = none := hop
    rfl
  | _ => cases hop

/-- **Through an invalid handle nothing is sent**, and nothing changes. -/
theorem Op.run_of_invalid (hv : vcFromVme w h = .ok none) (hop : ¬ op.PublishesNull) :
    op.run lib w h x = .ok (op.invalidHandle, w) := by
  cases op with
  | publish topic json =>
    obtain ⟨json, rfl⟩ := Option.ne_none_iff_exists'.mp hop
    simp only [Op.run, vmePublish, (messageBuf_eq_ofBytes _).1, ok_bind, hv]
    rfl
  | _ =>
    simp only [Op.run, vmeSelect, vmeSelectOne, vmeSelectCount, vmeSelectCallback, _select,
      vmeInsert, _insert, vmeUpdate, vmeUpsert, vmeDelete, vmeDeleteCount, _delete, vmePatch,
      vmeExecute, vmeQuerySource, vmeAggregate, ok_bind, hv]
    rfl

/-- Whatever returns through one did nothing else. -/
theorem Op.run_invalid_inv (hv : vcFromVme w h = .ok none)
    (hrun : op.run lib w h x = .ok (r, w')) :
    ¬ op.PublishesNull ∧ r = op.invalidHandle ∧ w' = w := by
  by_cases hop : op.PublishesNull
  · rw [run_of_publishesNull hop] at hrun
    cases hrun
  · rw [run_of_invalid hv hop] at hrun
    obtain ⟨rfl, rfl⟩ := Prod.mk.inj (Except.ok.inj hrun)
    exact ⟨hop, rfl, rfl⟩

end Run

end VantiqMicro
