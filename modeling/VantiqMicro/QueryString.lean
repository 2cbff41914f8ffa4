import VantiqMicro.Lifecycle

/-! # The query string of a request

Parameters are prepended to a list one optional branch at a time, and written with
separators placed by looking ahead.  What is sent is nevertheless the plain query
string of the pairs the caller supplied (`Op.supplied`), in the opposite order,
and it reads back as them whatever characters the values contain. -/

namespace VantiqMicro
open CMem

variable {σ : Type}

/-! ## Writing -/

/-- The pair a parameter stands for. -/
def Param.pair (p : Param) : Bytes × Bytes := (p.key.bytes, p.value.bytes)

/-- `curl_easy_escape` succeeds on the value and percent-encodes it. -/
def Libcurl.Escapes (lib : Libcurl) (value : CString) : Prop :=
  lib.easyEscape value (toInt value.length) = some (Percent.encodeString value)

theorem paramText_bytes {lib : Libcurl} {p : Param} (h : lib.Escapes p.value) :
    (paramText lib p).bytes = Percent.renderPair p.pair := by
  rw [paramText, h]
  simp [Percent.renderPair, Param.pair, Percent.encodeString, lit, ascii]

/-- The parameters are written as the rendering of their pairs. -/
theorem paramsText_bytes {lib : Libcurl} {params : List Param}
    (h : ∀ p ∈ params, lib.Escapes p.value) :
    (paramsText lib params).bytes = Percent.render (params.map Param.pair) := by
  induction params with
  | nil => rfl
  | cons p next ih =>
    obtain ⟨hp, hnext⟩ := List.forall_mem_cons.mp h
    -- the `;` comes before the rest and only if there is a rest, as in `Percent.render`
    rw [paramsText, CString.bytes_append, CString.bytes_append, paramText_bytes hp, ih hnext,
      List.map_cons, Percent.render_cons, List.append_assoc]
    cases next with
    | nil => rfl
    | cons q next => rfl

/-! ## What the caller supplied -/

/-- A parameter given by a string, unless that is `NULL`. -/
def given (key : CString) (value : Option CString) : List (Bytes × Bytes) :=
  (value.map fun v => (key.bytes, v.bytes)).toList

/-- A parameter given by a number, unless that is 0 or negative. -/
def givenInt (key : CString) (n : Int) : List (Bytes × Bytes) :=
  if 0 < n then [(key.bytes, (decimal n.toNat).bytes)] else []

/-- The parameters an operation is meant to send. -/
def Op.supplied : Op σ → List (Bytes × Bytes)
  | select _ propSpecs whereClause sortSpec page limit
  | selectCallback _ propSpecs whereClause sortSpec page limit _ =>
    given (lit "props") propSpecs ++ given (lit "where") whereClause ++ given (lit "sort") sortSpec
      ++ givenInt (lit "page") page ++ givenInt (lit "limit") limit
  | selectOne _ props whereClause =>
    given (lit "props") props ++ given (lit "where") whereClause
      ++ [((lit "limit").bytes, (lit "1").bytes)]
  | selectCount _ propSpecs whereClause sortSpec =>
    given (lit "props") propSpecs ++ given (lit "where") whereClause ++ given (lit "sort") sortSpec
      ++ [((lit "count").bytes, (lit "true").bytes)]
  | delete _ whereClause => given (lit "where") whereClause
  | deleteCount _ whereClause =>
    given (lit "where") whereClause ++ [((lit "count").bytes, (lit "true").bytes)]
  | upsert _ _ => [((lit "upsert").bytes, (lit "true").bytes)]
  | aggregate _ pipeline => given (lit "pipeline") pipeline
  | _ => []

@[simp] theorem given_none (key : CString) : given key none = [] := rfl

@[simp] theorem givenInt_zero (key : CString) : givenInt key 0 = [] := rfl

@[simp] theorem givenInt_one (key : CString) :
    givenInt key 1 = [(key.bytes, (lit "1").bytes)] := rfl

theorem map_pair_buildOptParam (params : List Param) (key : CString) (value : Option CString) :
    (buildOptParam params key value).map Param.pair =
      (given key value).reverse ++ params.map Param.pair := by
  cases value <;> rfl

theorem map_pair_buildIntParam (params : List Param) (key : CString) (n : Int) :
    (buildIntParam params key n).map Param.pair =
      (givenInt key n).reverse ++ params.map Param.pair := by
  unfold buildIntParam givenInt
  split <;> rfl

theorem map_pair_buildParam (params : List Param) (key value : CString) :
    (buildParam params key value).map Param.pair =
      (key.bytes, value.bytes) :: params.map Param.pair := rfl

/-- **The parameter list is what the caller supplied**, last first. -/
theorem Op.map_pair_plan {op : Op σ} {v : UInt8} {p : Plan σ} (h : op.plan v = some p) :
    p.params.map Param.pair = op.supplied.reverse := by
  obtain ⟨hop, rfl⟩ := plan_eq_some_iff.mp h
  cases op with
  | aggregate rsURI pipeline =>
    obtain ⟨text, rfl⟩ := Option.ne_none_iff_exists'.mp (not_or.mp hop).1
    rfl
  | _ =>
    simp [Op.outline, Op.supplied, buildSelectParams, map_pair_buildOptParam,
      map_pair_buildIntParam, map_pair_buildParam]

/-- The keys an operation can send. -/
def Op.keys : Op σ → List Bytes
  | select .. | selectCallback .. => ["props", "where", "sort", "page", "limit"].map ascii
  | selectOne .. => ["props", "where", "limit"].map ascii
  | selectCount .. => ["props", "where", "sort", "count"].map ascii
  | delete .. => ["where"].map ascii
  | deleteCount .. => ["where", "count"].map ascii
  | upsert .. => ["upsert"].map ascii
  | aggregate .. => ["pipeline"].map ascii
  | _ => []

theorem map_fst_given (key : CString) (value : Option CString) :
    ((given key value).map Prod.fst).Sublist [key.bytes] := by
  cases value with
  | none => exact List.nil_sublist _
  | some v => exact List.Sublist.refl _

theorem map_fst_givenInt (key : CString) (n : Int) :
    ((givenInt key n).map Prod.fst).Sublist [key.bytes] := by
  unfold givenInt
  split
  · exact List.Sublist.refl _
  · exact List.nil_sublist _

theorem Op.supplied_sublist (op : Op σ) :
    (op.supplied.map Prod.fst).Sublist op.keys := by
  cases op with
  | select rsURI propSpecs whereClause sortSpec page limit
  | selectCallback rsURI propSpecs whereClause sortSpec page limit callback =>
    simp only [supplied, List.map_append]
    exact ((((map_fst_given _ _).append (map_fst_given _ _)).append (map_fst_given _ _)).append
      (map_fst_givenInt _ _)).append (map_fst_givenInt _ _)
  | selectOne rsURI props whereClause =>
    simp only [supplied, List.map_append]
    exact ((map_fst_given _ _).append (map_fst_given _ _)).append (.refl _)
  | selectCount rsURI propSpecs whereClause sortSpec =>
    simp only [supplied, List.map_append]
    exact (((map_fst_given _ _).append (map_fst_given _ _)).append (map_fst_given _ _)).append
      (.refl _)
  | delete rsURI whereClause => exact map_fst_given _ _
  | deleteCount rsURI whereClause =>
    simp only [supplied, List.map_append]
    exact (map_fst_given _ _).append (.refl _)
  | aggregate rsURI pipeline => exact map_fst_given _ _
  | _ => exact .refl _

/-- The keys of a query are different, and made of letters. -/
theorem Op.keys_spec (op : Op σ) :
    op.keys.Nodup ∧ ∀ key ∈ op.keys, ∀ c ∈ key, Percent.unreserved c = true := by
  have hall : op.keys.all (·.all Percent.unreserved) = true := by cases op <;> rfl
  have hnodup : op.keys.Nodup := by cases op <;> simp only [keys] <;> decide
  refine ⟨hnodup, ?_⟩
  intro key hkey
  exact List.all_eq_true.mp (List.all_eq_true.mp hall key hkey)

/-- **A query string reads back as the parameters supplied.** -/
theorem Op.parse_query {lib : Libcurl} {op : Op σ} {v : UInt8} {p : Plan σ}
    (hplan : op.plan v = some p)
    (hesc : ∀ kv ∈ op.supplied, ∀ value : CString, value.bytes = kv.2 → lib.Escapes value) :
    ((queryText lib p.params).bytes = [] ↔ op.supplied = []) ∧
      (op.supplied ≠ [] → ∃ text, (queryText lib p.params).bytes = 63 :: text ∧
        Percent.parse text = op.supplied.reverse) := by
  have hpairs := map_pair_plan hplan
  have hparams : ∀ q ∈ p.params, lib.Escapes q.value := by
    intro q hq
    have hmem : q.pair ∈ op.supplied :=
      List.mem_reverse.mp (hpairs ▸ List.mem_map_of_mem hq)
    exact hesc _ hmem _ rfl
  have hnil : p.params = [] ↔ op.supplied = [] := by
    have hrev : op.supplied.reverse = [] ↔ op.supplied = [] := List.reverse_eq_nil_iff
    rw [← hrev, ← hpairs, List.map_eq_nil_iff]
  -- `create_url` writes the `?` only in front of a parameter
  by_cases hne : p.params = []
  · have hsupplied := hnil.mp hne
    simp [queryText, hne, hsupplied, lit, ascii]
  · have htext : (queryText lib p.params).bytes = 63 :: Percent.render op.supplied.reverse := by
      rw [queryText, if_pos hne, CString.bytes_append, paramsText_bytes hparams, hpairs]
      rfl
    have hsupplied : op.supplied ≠ [] := fun h => hne (hnil.mpr h)
    refine ⟨by simp [htext, hsupplied], fun _ => ⟨_, htext, ?_⟩⟩
    apply Percent.parse_render (by simpa using hsupplied)
    intro kv hkv
    exact (keys_spec op).2 _
      (op.supplied_sublist.subset (List.mem_map_of_mem (List.mem_reverse.mp hkv)))

/-! ## The URL of a request -/

/-- The path of an operation that is given one. -/
def Op.path : Op σ → Option CString
  | select rsURI .. | selectOne rsURI .. | selectCount rsURI .. | selectCallback rsURI ..
  | insert rsURI .. | update rsURI .. | upsert rsURI .. | delete rsURI .. | deleteCount rsURI ..
  | patch rsURI .. => some rsURI
  | aggregate rsURI _ => some (aggregatePath rsURI)
  | publish .. | execute .. | querySource .. => none

theorem Op.rsURI_plan {op : Op σ} {v : UInt8} {p : Plan σ} {path : CString}
    (h : op.plan v = some p) (hpath : op.path = some path) : p.rsURI = path := by
  obtain ⟨-, rfl⟩ := plan_eq_some_iff.mp h
  cases op <;> cases hpath <;> rfl

/-- The exchange's URL is the server, the path and a query that reads back as the
parameters supplied, each key once. -/
def Op.Decodes (op : Op σ) (serverUrl path : CString) (e : Exchange) : Prop :=
  (op.supplied.map Prod.fst).Nodup ∧
    ∃ query, e.request.url = some (serverUrl ++ path ++ query) ∧
      (query.bytes = [] ↔ op.supplied = []) ∧
      (op.supplied ≠ [] → ∃ text, query.bytes = 63 :: text ∧
        Percent.parse text = op.supplied.reverse)

theorem Op.decodes_exchange {lib : Libcurl} {op : Op σ} {v : UInt8} {p : Plan σ} {g : Setting σ}
    {x : Transfer} {path : CString} (hplan : op.plan v = some p) (hpath : op.path = some path)
    (hesc : ∀ kv ∈ op.supplied, ∀ value : CString, value.bytes = kv.2 → lib.Escapes value) :
    op.Decodes g.account.serverUrl path (p.exchange lib g x) := by
  refine ⟨op.supplied_sublist.nodup op.keys_spec.1, queryText lib p.params, ?_,
    parse_query hplan hesc⟩
  rw [← rsURI_plan hplan hpath]
  rfl

/-- A response without headers or a body. -/
def emptyResponse : Transfer :=
  { events := [], res := CURLE_OK, status := 200, errText := lit "" }

theorem emptyResponse_fits : ∀ line ∈ emptyResponse.headers, HeaderFits line :=
  fun _ hl => nomatch hl

namespace Sys
variable {lib : Libcurl} {s : Sys σ} {h : VME} {op : Op σ} {path : CString}

/-- **A query reads back as the parameters supplied**, for every operation that is given
a path, unless it is not defined: an aggregate of an empty path or without a pipeline reads
outside its arguments and sends nothing, and no upload goes without its document. -/
theorem query_decodes_iff (hs : Reachable lib s) (hh : h ∈ s.handles) (hpath : op.path = some path)
    (hesc : ∀ kv ∈ op.supplied, ∀ value : CString, value.bytes = kv.2 → lib.Escapes value) :
    ∃ vc, s.world.heap h = .client vc ∧
      ((∀ x : Transfer, (∀ line ∈ x.headers, HeaderFits line) →
        ∃ r w' e, op.run lib s.world h x = .ok (some r, w') ∧
          w'.wire = s.world.wire ++ [(h, e)] ∧ op.Decodes vc.serverUrl path e) ↔
        op.Defined vc) := by
  obtain ⟨hne, vc, hp, hrdy⟩ := hs.ready hh
  refine ⟨vc, hp, ?_, ?_⟩
  · intro hall
    obtain ⟨r, w', -, hrun, -⟩ := hall brokenUpload (fun _ hl => nomatch hl)
    exact (Op.defined_iff_returns lib hp hne hrdy).mpr ⟨_, hrun⟩
  · intro hop x hfit
    obtain ⟨r, w', hrun⟩ := hs.run_returns hh hp op x hop hfit
    obtain ⟨vc₁, p, vc', hp₁, hplan, -, rfl, -⟩ := hs.run_inv hh hrun
    obtain rfl : vc = vc₁ := Referent.client.inj (hp.symm.trans hp₁)
    exact ⟨r, _, _, hrun, rfl, Op.decodes_exchange (g := s.world.setting vc) hplan hpath hesc⟩

/-- A select whose clause holds the separators themselves. -/
theorem query_decodes_iff_separators :
    ∃ (s : Sys Unit) (r : VmeResult) (w' : World Unit) (e : Exchange) (vc : VantiqClient Unit),
      (Op.select (lit "/r") none (some (lit "a=1;b")) none 0 5).run .plain s.world 8
        emptyResponse = .ok (some r, w') ∧ w'.wire = s.world.wire ++ [(8, e)] ∧
      (Op.select (lit "/r") none (some (lit "a=1;b")) none 0 5 : Op Unit).Decodes vc.serverUrl
        (lit "/r") e ∧
      (Op.select (lit "/r") none (some (lit "a=1;b")) none 0 5 : Op Unit).supplied =
        [(ascii "where", ascii "a=1;b"), (ascii "limit", ascii "5")] := by
  obtain ⟨s, vc, hrun, hh, -⟩ := exists_session [] 200 (by simp)
  have hs : Reachable .plain s := ⟨_, _, rfl, hrun⟩
  have hpath : (Op.select (lit "/r") none (some (lit "a=1;b")) none 0 5 : Op Unit).path =
      some (lit "/r") := rfl
  obtain ⟨vc, -, hiff⟩ := query_decodes_iff hs hh hpath (fun _ _ _ _ => rfl)
  obtain ⟨r, w', e, hrun, hwire, hdec⟩ :=
    hiff.mpr ⟨id, False.elim⟩ emptyResponse emptyResponse_fits
  exact ⟨s, r, w', e, vc, hrun, hwire, hdec, rfl⟩

/-- An aggregate without a pipeline sends nothing: it reads through `NULL`.  One of an
empty path reads in front of it. -/
theorem aggregate_unsent :
    ∃ s : Sys Unit, Reachable .plain s ∧ 8 ∈ s.handles ∧
      (∀ x r, (Op.aggregate (lit "/r") none).run .plain s.world 8 x ≠ .ok r) ∧
      ∀ x r, (Op.aggregate (lit "") (some (lit "[]"))).run .plain s.world 8 x ≠ .ok r := by
  obtain ⟨s, vc, hrun, hh, hp, hrdy, -⟩ := exists_session [] 200 (by simp)
  have hfault : ∀ op : Op Unit, op.Faults vc.apiVersion →
      ∀ x r, op.run .plain s.world 8 x ≠ .ok r := by
    intro op hop x r hr
    obtain ⟨fault, hf⟩ := Op.run_of_no_plan .plain (x := x) hp (by decide) hrdy.magic
      (Op.plan_eq_none_iff.mpr hop)
    rw [hf] at hr
    cases hr
  exact ⟨s, ⟨_, _, rfl, hrun⟩, hh, hfault _ (Or.inl rfl), hfault _ (Or.inr rfl)⟩

end Sys

end VantiqMicro
