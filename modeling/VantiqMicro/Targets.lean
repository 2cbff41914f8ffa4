import VantiqMicro.QueryString
import VantiqMicro.Url

/-! # What the SDK's own URIs address

`build_rsuri` writes the URI of a resource type, of one of its resources or of an
instance, and three operations address resources by URIs of their own.  The
results below compare what they write with what they should: a path with no
empty part (`buildRsuri_segments_iff`), under the versioned prefix
(`target_versioned_iff`), in which the identifier is read back as it was given
(`identifier_in_path_iff`).  A path whose length is no `int` is not written at
all. -/

namespace VantiqMicro
open CMem

variable {σ : Type}

/-! ## The parts of a resource URI -/

/-- A part of a URI, which is left out when it is missing or empty. -/
def segment : Option CString → CString
  | none => lit ""
  | some s => if s.bytes = [] then lit "" else lit "/" ++ s

/-- The URI of a resource type, one of its resources or an instance. -/
def resourceUri (v : UInt8) (ns : CString) (rsName rsID : Option CString) : CString :=
  lit "/api/v" ++ decimal v.toNat ++ lit "/resources/" ++ ns ++ segment rsName ++ segment rsID

/-- The function returns a path, and the path reads `text`. -/
def Reads (r : Except Fault (Option Block)) (text : CString) : Prop :=
  ∃ path : Block, r = .ok (some path) ∧ path.readString = .ok text

theorem Reads.unique {r : Except Fault (Option Block)} {s t : CString} (hs : Reads r s)
    (ht : Reads r t) : s = t := by
  obtain ⟨path, hpath, hread⟩ := hs
  obtain ⟨path', hpath', hread'⟩ := ht
  rw [hpath] at hpath'
  obtain rfl := Option.some.inj (Except.ok.inj hpath')
  exact Except.ok.inj (hread.symm.trans hread')

theorem segment_some {s : CString} (h : s ≠ lit "") : segment (some s) = lit "/" ++ s := by
  have hne : s.bytes ≠ [] := fun hnil => h (CString.ext hnil)
  rw [segment, if_neg hne]

/-- An empty part is shorter than what stands for it in a format. -/
theorem length_segment_empty {s : CString} (h : s = lit "") :
    (segment (some s)).length < (lit "/" ++ s).length := by
  subst h
  decide

theorem length_segment_le (s : CString) : (segment (some s)).length ≤ (lit "/" ++ s).length := by
  by_cases h : s = lit ""
  · exact Nat.le_of_lt (length_segment_empty h)
  · rw [segment_some h]

/-- **The format leaves no empty part and no stray slash exactly when neither part
is the empty string.** -/
theorem rsuriPath_eq_iff {v : UInt8} {ns text : CString} {rsName rsID : Option CString}
    (hgiven : segment rsName ≠ lit "" ∨ segment rsID ≠ lit "")
    (ht : rsuriPath v.toNat ns rsName rsID = some text) :
    text = resourceUri v ns rsName rsID ↔ rsName ≠ some (lit "") ∧ rsID ≠ some (lit "") := by
  cases rsName with
  | none =>
    cases rsID with
    | none => cases ht
    | some rsID =>
      cases ht
      have hid : rsID ≠ lit "" := by
        rintro rfl
        exact hgiven.elim (· rfl) (· rfl)
      have htext : rsuriPathNoidNoname v.toNat ns rsID = resourceUri v ns none (some rsID) := by
        rw [resourceUri, segment_some hid, segment, CString.append_lit_empty,
          ← CString.append_assoc]
        rfl
      simp [htext, hid]
  | some rsName =>
    cases rsID with
    | none =>
      cases ht
      have hname : rsName ≠ lit "" := by
        rintro rfl
        exact hgiven.elim (· rfl) (· rfl)
      have htext : rsuriPathNoidNoname v.toNat ns rsName = resourceUri v ns (some rsName) none := by
        rw [resourceUri, segment_some hname, segment, CString.append_lit_empty,
          ← CString.append_assoc]
        rfl
      simp [htext, hname]
    | some rsID =>
      cases ht
      have hlen : (rsuriPathPrefix v.toNat ns rsName rsID).length + (segment (some rsName)).length +
          (segment (some rsID)).length = (resourceUri v ns (some rsName) (some rsID)).length +
            (lit "/" ++ rsName).length + (lit "/" ++ rsID).length := by
        simp only [rsuriPathPrefix, rsuriPathNoidNoname, resourceUri, CString.length_append]
        omega
      have hname := length_segment_le rsName
      have hid := length_segment_le rsID
      constructor
      · intro htext
        rw [htext] at hlen
        refine ⟨fun h => ?_, fun h => ?_⟩
        · have := length_segment_empty (Option.some.inj h)
          omega
        · have := length_segment_empty (Option.some.inj h)
          omega
      · rintro ⟨hname', hid'⟩
        rw [resourceUri, segment_some fun h => hname' (congrArg some h),
          segment_some fun h => hid' (congrArg some h), ← CString.append_assoc,
          ← CString.append_assoc]
        rfl

/-- No part that is given is empty, and the length of the URI is an `int`. -/
def Buildable (v : UInt8) (ns : CString) (rsName rsID : Option CString) : Prop :=
  rsName ≠ some (lit "") ∧ rsID ≠ some (lit "") ∧
    (resourceUri v ns rsName rsID).length ≤ INT_MAX

/-- What `build_rsuri` returns reads what it prints, if that has a length `snprintf` can
return. -/
theorem reads_buildRsuri_iff {v : UInt8} {ns text u : CString} {rsName rsID : Option CString}
    (ht : rsuriPath v.toNat ns rsName rsID = some text) :
    Reads (some <$> buildRsuri INT_MAX v.toNat ns rsName rsID) u ↔
      text = u ∧ text.length ≤ INT_MAX := by
  have hv : v.toNat < 1000 := Nat.lt_trans v.toNat_lt (by decide)
  by_cases hle : text.length ≤ INT_MAX
  · obtain ⟨path, hpath, hread⟩ := buildRsuri_spec hv ht hle
    rw [hpath]
    constructor
    · exact fun h => ⟨Reads.unique ⟨path, rfl, hread⟩ h, hle⟩
    · rintro ⟨rfl, -⟩
      exact ⟨path, rfl, hread⟩
  · rw [buildRsuri_of_lt hv ht (Nat.lt_of_not_le hle)]
    refine iff_of_false ?_ fun h => hle h.2
    rintro ⟨path, hpath, -⟩
    cases hpath

/-- Through a valid handle the API builds the URI with the client's version. -/
theorem vmeBuildSystemRsuri_eq {w : World σ} {vme : VME} {vc : VantiqClient σ}
    {systype : VmeRstype} {ns : CString} (hvalid : vcFromVme w vme = .ok (some vme))
    (hp : w.heap vme = .client vc) (hns : vmeMaptoRsname systype = .ok ns)
    (rsName rsID : Option CString) :
    vmeBuildSystemRsuri w vme systype rsName rsID =
      some <$> buildRsuri INT_MAX vc.apiVersion.toNat ns rsName rsID := by
  simp only [vmeBuildSystemRsuri, hvalid, ok_bind, hp, hns]
  cases buildRsuri INT_MAX vc.apiVersion.toNat ns rsName rsID <;> rfl

/-- **When `build_rsuri` returns the URI of what it is given**, and with it the two
functions of the API that call it: when no part is the empty string and the URI can be
printed. -/
theorem buildRsuri_segments_iff (v : UInt8) (ns : CString) (rsName rsID : Option CString)
    (hgiven : segment rsName ≠ lit "" ∨ segment rsID ≠ lit "") :
    (Reads (some <$> buildRsuri INT_MAX v.toNat ns rsName rsID) (resourceUri v ns rsName rsID) ↔
      Buildable v ns rsName rsID) ∧
    ∀ (w : World σ) (vme : VME) (vc : VantiqClient σ) (systype : VmeRstype),
      vcFromVme w vme = .ok (some vme) → w.heap vme = .client vc → vc.apiVersion = v →
      vmeMaptoRsname systype = .ok ns →
      (Reads (vmeBuildSystemRsuri w vme systype rsName rsID) (resourceUri v ns rsName rsID) ↔
        Buildable v ns rsName rsID) ∧
      (systype = .CUSTOM →
        (Reads (vmeBuildCustomRsuri w vme rsName rsID) (resourceUri v ns rsName rsID) ↔
          Buildable v ns rsName rsID)) := by
  have hsome : ¬ (rsName = none ∧ rsID = none) := by
    rintro ⟨rfl, rfl⟩
    exact hgiven.elim (· rfl) (· rfl)
  obtain ⟨text, ht⟩ := exists_rsuriPath v.toNat ns hsome
  have hiff : Reads (some <$> buildRsuri INT_MAX v.toNat ns rsName rsID)
      (resourceUri v ns rsName rsID) ↔ Buildable v ns rsName rsID := by
    rw [reads_buildRsuri_iff ht, Buildable, ← and_assoc, ← rsuriPath_eq_iff hgiven ht]
    exact and_congr_right fun heq => by rw [heq]
  refine ⟨hiff, ?_⟩
  rintro w vme vc systype hvalid hp rfl hns
  have hsystem := vmeBuildSystemRsuri_eq hvalid hp hns rsName rsID
  refine ⟨by rw [hsystem, hiff], ?_⟩
  rintro rfl
  rw [vmeBuildCustomRsuri, hsystem, hiff]

/-- An instance of a type. -/
theorem buildRsuri_segments_iff_instance :
    Reads (some <$> buildRsuri INT_MAX 1 (lit "custom") (some (lit "T")) (some (lit "7")))
      (lit "/api/v1/resources/custom/T/7") :=
  (buildRsuri_segments_iff (σ := Unit) 1 (lit "custom") (some (lit "T")) (some (lit "7"))
    (Or.inl (by decide))).1.mpr ⟨by decide, by decide, by decide⟩

/-- With an empty identifier the slash in front of it stays. -/
theorem buildRsuri_stray_slash :
    Reads (some <$> buildRsuri INT_MAX 1 (lit "custom") (some (lit "T")) (some (lit "")))
      (lit "/api/v1/resources/custom/T/") ∧
    ¬ Reads (some <$> buildRsuri INT_MAX 1 (lit "custom") (some (lit "T")) (some (lit "")))
      (resourceUri 1 (lit "custom") (some (lit "T")) (some (lit ""))) := by
  have ht : rsuriPath (1 : UInt8).toNat (lit "custom") (some (lit "T")) (some (lit "")) =
      some (lit "/api/v1/resources/custom/T/") := rfl
  have hstray := (reads_buildRsuri_iff ht).mpr ⟨rfl, by decide⟩
  exact ⟨hstray, fun h => absurd (hstray.unique h) (by decide)⟩

/-! ## The operations' own URIs -/

/-- What an operation that builds its own URI addresses: a resource of a collection,
and what is to be done with it. -/
structure Target where
  collection : CString
  identifier : CString
  action : CString
deriving DecidableEq, Repr

def Op.target : Op σ → Option Target
  | publish topic _ => some ⟨lit "topics", topic, lit ""⟩
  | execute procID _ => some ⟨lit "procedures", procID, lit ""⟩
  | querySource sourceID _ => some ⟨lit "sources", sourceID, lit "/query"⟩
  | _ => none

/-- The operation is `vme_query_source`. -/
def Op.QueriesSource : Op σ → Prop
  | querySource .. => True
  | _ => False

/-- The resources of a collection lie under this. -/
def collectionPath (v : UInt8) (collection : CString) : CString :=
  lit "/api/v" ++ decimal v.toNat ++ lit "/resources/" ++ collection ++ lit "/"

/-- The versioned path of a target. -/
def Target.path (v : UInt8) (t : Target) : CString :=
  collectionPath v t.collection ++ t.identifier ++ t.action

/-- An operation that takes an identifier sends it in a request without parameters;
the path is versioned unless it queries a source. -/
theorem Op.outline_target {op : Op σ} {t : Target} (ht : op.target = some t) (v : UInt8) :
    ¬ op.PatchesNull ∧ (op.outline v).params = [] ∧
      (¬ op.QueriesSource → t.action = lit "" ∧ (op.outline v).rsURI = t.path v) ∧
      (op.QueriesSource → (op.outline v).rsURI = lit "/sources/" ++ t.identifier ++ lit "/query")
    := by
  cases op with
  | publish topic json =>
    cases ht
    refine ⟨id, rfl, fun _ => ⟨rfl, ?_⟩, fun h => absurd h id⟩
    rw [Target.path, CString.append_lit_empty]
    rfl
  | execute procID argsDoc =>
    cases ht
    refine ⟨id, rfl, fun _ => ⟨rfl, ?_⟩, fun h => absurd h id⟩
    rw [Target.path, CString.append_lit_empty]
    rfl
  | querySource sourceID qParams =>
    cases ht
    exact ⟨id, rfl, fun h => absurd trivial h, fun _ => rfl⟩
  | _ => cases ht

/-- The path of a source query is not versioned. -/
theorem source_ne_versioned (v : UInt8) (collection id : CString) (s : CString) :
    lit "/sources/" ++ id ++ lit "/query" ≠ collectionPath v collection ++ s := by
  intro h
  have hbytes := congrArg (fun u : CString => u.bytes[1]?) h
  cases hbytes

namespace Sys
variable {lib : Libcurl} {s : Sys σ} {h : VME} {op : Op σ} {t : Target}

/-- **What an operation that takes an identifier sent, if it returned**: one request without
a query. -/
theorem Reachable.target_sent (hs : Reachable lib s) (hh : h ∈ s.handles) {vc : VantiqClient σ}
    (hp : s.world.heap h = .client vc) (ht : op.target = some t) {x : Transfer}
    {r : Option VmeResult} {w' : World σ} {e : Exchange}
    (hrun : op.run lib s.world h x = .ok (r, w')) (hwire : w'.wire = s.world.wire ++ [(h, e)]) :
    ¬ op.Faults vc.apiVersion ∧
      e.request.url = some (vc.serverUrl ++ (op.outline vc.apiVersion).rsURI) := by
  obtain ⟨vc₁, p, vc', hp₁, hplan, -, rfl, -⟩ := hs.run_inv hh hrun
  obtain rfl : vc = vc₁ := Referent.client.inj (hp.symm.trans hp₁)
  obtain ⟨hop, rfl⟩ := Op.plan_eq_some_iff.mp hplan
  have hlast := List.append_cancel_left hwire
  obtain rfl := congrArg Prod.snd (List.cons.inj hlast).1
  have hparams := (Op.outline_target ht vc.apiVersion).2.1
  have hurl : (op.outline vc.apiVersion).url lib (s.world.setting vc) =
      vc.serverUrl ++ (op.outline vc.apiVersion).rsURI := by
    rw [Plan.url, hparams]
    exact CString.append_lit_empty _
  exact ⟨hop, congrArg some hurl⟩

/-- **It returns** unless its arguments make it fault, or a header line overruns. -/
theorem Reachable.target_request (hs : Reachable lib s) (hh : h ∈ s.handles)
    {vc : VantiqClient σ} (hp : s.world.heap h = .client vc) (ht : op.target = some t)
    (hop : ¬ op.Faults vc.apiVersion) (x : Transfer)
    (hfit : ∀ line ∈ x.headers, HeaderFits line) :
    ∃ r w' e, op.run lib s.world h x = .ok (some r, w') ∧
      w'.wire = s.world.wire ++ [(h, e)] ∧
      e.request.url = some (vc.serverUrl ++ (op.outline vc.apiVersion).rsURI) := by
  have hpatch := (Op.outline_target ht vc.apiVersion).1
  obtain ⟨r, w', hrun⟩ := hs.run_returns hh hp op x ⟨hop, fun h => absurd h hpatch⟩ hfit
  obtain ⟨vc₁, p, vc', -, -, -, hw, -⟩ := hs.run_inv hh hrun
  have hwire := congrArg World.wire hw
  exact ⟨r, w', _, hrun, hwire, (hs.target_sent hh hp ht hrun hwire).2⟩

/-- **When an operation that builds its own URI requests the versioned path**: when
it does not query a source, and its arguments do not make it fault. -/
theorem target_versioned_iff (hs : Reachable lib s) (hh : h ∈ s.handles)
    (ht : op.target = some t) :
    ∃ vc, s.world.heap h = .client vc ∧
      ((∀ x : Transfer, (∀ line ∈ x.headers, HeaderFits line) →
        ∃ r w' e, op.run lib s.world h x = .ok (some r, w') ∧
          w'.wire = s.world.wire ++ [(h, e)] ∧
          e.request.url = some (vc.serverUrl ++ t.path vc.apiVersion)) ↔
        ¬ op.QueriesSource ∧ ¬ op.Faults vc.apiVersion) := by
  obtain ⟨-, vc, hp, -⟩ := hs.ready hh
  obtain ⟨-, -, hversioned, hsource⟩ := Op.outline_target ht vc.apiVersion
  refine ⟨vc, hp, ?_, ?_⟩
  · intro hall
    obtain ⟨r, w', e, hrun, hwire, hurl⟩ := hall emptyResponse emptyResponse_fits
    obtain ⟨hop, hsent⟩ := hs.target_sent hh hp ht hrun hwire
    refine ⟨fun hq => ?_, hop⟩
    have heq := Option.some.inj (hsent.symm.trans hurl)
    have hbytes := congrArg CString.bytes heq
    rw [hsource hq] at hbytes
    exact source_ne_versioned vc.apiVersion t.collection t.identifier (t.identifier ++ t.action)
      (CString.ext (by simpa [Target.path] using List.append_cancel_left hbytes))
  · rintro ⟨hq, hop⟩ x hfit
    obtain ⟨r, w', e, hrun, hwire, hurl⟩ := hs.target_request hh hp ht hop x hfit
    refine ⟨r, w', e, hrun, hwire, ?_⟩
    rw [hurl, (hversioned hq).2]

/-- The client of a first session. -/
theorem exists_client : ∃ (s : Sys Unit) (vc : VantiqClient Unit), Reachable .plain s ∧
    8 ∈ s.handles ∧ s.world.heap 8 = .client vc ∧ vc.apiVersion = 1 ∧
    vc.serverUrl = lit "https://host" := by
  obtain ⟨s, vc, hrun, hh, hp, -, hacct, -⟩ := exists_session [] 200 (by simp)
  have hurl : (InitArgs.sample [] 200).account.serverUrl = lit "https://host" := by decide
  exact ⟨s, vc, ⟨_, _, rfl, hrun⟩, hh, hp, congrArg Account.apiVersion hacct,
    (congrArg Account.serverUrl hacct).trans hurl⟩

/-- A topic below another. -/
theorem target_versioned_iff_topic :
    ∃ (s : Sys Unit) (r : VmeResult) (w' : World Unit) (e : Exchange),
      (Op.publish (lit "a/b") (some [])).run .plain s.world 8 emptyResponse = .ok (some r, w') ∧
      w'.wire = s.world.wire ++ [(8, e)] ∧
      e.request.url = some (lit "https://host/api/v1/resources/topics/a/b") := by
  obtain ⟨s, vc, hs, hh, hp, hv, hserver⟩ := exists_client
  have ht : (Op.publish (lit "a/b") (some []) : Op Unit).target =
      some ⟨lit "topics", lit "a/b", lit ""⟩ := rfl
  obtain ⟨vc', hp', hiff⟩ := target_versioned_iff hs hh ht
  obtain rfl : vc = vc' := Referent.client.inj (hp.symm.trans hp')
  rw [hv, hserver] at hiff
  obtain ⟨r, w', e, hrun, hwire, hurl⟩ :=
    hiff.mpr ⟨id, by decide⟩ emptyResponse emptyResponse_fits
  refine ⟨s, r, w', e, hrun, hwire, hurl.trans ?_⟩
  decide

/-- The query of a source goes to a path outside the versioned resources. -/
theorem source_query_unversioned :
    ∃ (s : Sys Unit) (r : VmeResult) (w' : World Unit) (e : Exchange),
      Reachable .plain s ∧ 8 ∈ s.handles ∧
      (Op.querySource (lit "s") (some (lit ""))).run .plain s.world 8 emptyResponse =
        .ok (some r, w') ∧
      w'.wire = s.world.wire ++ [(8, e)] ∧
      e.request.url = some (lit "https://host/sources/s/query") ∧
      e.request.url ≠ some (lit "https://host/api/v1/resources/sources/s/query") := by
  obtain ⟨s, vc, hs, hh, hp, hv, hserver⟩ := exists_client
  have ht : (Op.querySource (lit "s") (some (lit "")) : Op Unit).target =
      some ⟨lit "sources", lit "s", lit "/query"⟩ := rfl
  have hop : ¬ (Op.querySource (lit "s") (some (lit "")) : Op Unit).Faults vc.apiVersion := by
    rw [hv]
    decide
  obtain ⟨r, w', e, hrun, hwire, hurl⟩ :=
    hs.target_request hh hp ht hop emptyResponse emptyResponse_fits
  rw [hv, hserver] at hurl
  refine ⟨s, r, w', e, hs, hh, hrun, hwire, hurl.trans (by decide), ?_⟩
  rw [hurl]
  decide

end Sys

/-! ## The identifier in the URL -/

theorem Op.collection_plain {op : Op σ} {t : Target} (ht : op.target = some t)
    (hop : ¬ op.QueriesSource) : ∀ c ∈ t.collection.bytes, Url.Literal c := by
  have htopics : ∀ c ∈ (lit "topics").bytes, Url.Literal c := Url.literal_of_all (by decide)
  have hprocedures : ∀ c ∈ (lit "procedures").bytes, Url.Literal c :=
    Url.literal_of_all (by decide)
  cases op with
  | publish topic json =>
    cases ht
    exact htopics
  | execute procID argsDoc =>
    cases ht
    exact hprocedures
  | querySource sourceID qParams => exact absurd trivial hop
  | _ => cases ht

/-- The path above the resources of a collection, all of whose bytes stand for
themselves. -/
theorem collectionPath_spec (v : UInt8) {collection : CString}
    (hcollection : ∀ c ∈ collection.bytes, Url.Literal c) :
    ∃ above, (collectionPath v collection).bytes = 47 :: (above ++ [47]) ∧
      above.head? = some 97 ∧ ∀ c ∈ above, Url.Literal c := by
  have hapi : (lit "/api/v").bytes = 47 :: ascii "api/v" := rfl
  have hres : (lit "/resources/").bytes = ascii "/resources/" := rfl
  have hplain : ∀ c ∈ ascii "api/v" ++ ascii "/resources/", Url.Literal c :=
    Url.literal_of_all (by decide)
  refine ⟨ascii "api/v" ++ ((decimal v.toNat).bytes ++ (ascii "/resources/" ++ collection.bytes)),
    ?_, rfl, ?_⟩
  · simp only [collectionPath, CString.bytes_append, hapi, hres, List.cons_append,
      List.append_assoc]
    rfl
  · intro c hc
    simp only [List.mem_append] at hc
    rcases hc with hc | hc | hc | hc
    · exact hplain c (List.mem_append_left _ hc)
    · exact Url.literal_of_digit (mem_decimal hc).1 (mem_decimal hc).2
    · exact hplain c (List.mem_append_right _ hc)
    · exact hcollection c hc

/-- The URL goes on from the server's with the path `path` and nothing else. -/
def PathAfter (server path url : Bytes) : Prop :=
  (∃ p, Url.path server = some p ∧ Url.path url = some (p ++ path)) ∧
    Url.query url = none ∧ Url.fragment url = none

/-- An identifier after a path is read back when nothing in it has a meaning in a
URL. -/
theorem pathAfter_iff {server : Bytes} {above : Bytes} (hhead : above.head? = some 97)
    (habove : ∀ c ∈ above, Url.Literal c) (id : Bytes) :
    PathAfter server (47 :: (above ++ [47]) ++ id) (server ++ (47 :: (above ++ [47]) ++ id)) ↔
      ((∀ c ∈ server, Url.ends c = false ∧ Url.junk c = false) ∧ Url.hier server ≠ [47]) ∧
        (∀ c ∈ id, Url.ends c = false ∧ Url.junk c = false) ∧ ¬ Percent.Escaped id := by
  have hsplit : 47 :: (above ++ [47]) ++ id = 47 :: (above ++ 47 :: id) := by simp
  have hslash : (above ++ 47 :: id).head? ≠ some 47 := by
    rw [List.head?_append, hhead]
    show some (97 : UInt8) ≠ some 47
    decide
  have hdecode : Percent.decode (above ++ 47 :: id) = above ++ 47 :: id ↔
      ¬ Percent.Escaped id := by
    rw [Percent.decode_append rfl, Percent.decode_of_not_mem fun h => (habove 37 h).2.2 rfl,
      Percent.decode_cons (by decide), List.append_cancel_left_eq, List.cons_inj_right,
      Percent.decode_eq_self_iff]
  have hbytes : (∀ c ∈ server ++ 47 :: (above ++ 47 :: id),
        Url.ends c = false ∧ Url.junk c = false) ↔
      (∀ c ∈ server, Url.ends c = false ∧ Url.junk c = false) ∧
        ∀ c ∈ id, Url.ends c = false ∧ Url.junk c = false := by
    have h47 : Url.ends 47 = false ∧ Url.junk 47 = false := ⟨rfl, rfl⟩
    have hmid : ∀ c ∈ above, Url.ends c = false ∧ Url.junk c = false :=
      fun c hc => ⟨(habove c hc).1, (habove c hc).2.1⟩
    simp only [List.forall_mem_append, List.forall_mem_cons, h47, true_and]
    exact ⟨fun h => ⟨h.1, h.2.2⟩, fun h => ⟨h.1, hmid, h.2⟩⟩
  rw [PathAfter, hsplit, Url.path_append_iff hslash, hdecode, hbytes]
  exact and_and_and_comm

namespace Sys
variable {lib : Libcurl} {s : Sys σ} {h : VME} {op : Op σ} {t : Target}

/-- **When the identifier stays inside the URL's path**, exactly as it was given: when
the server's URL is one, has no query and no fragment and is not a lone slash after its
scheme, the identifier holds no blank, no control byte, no `?`, no `#` and no escape, and
the operation's arguments do not make it fault. -/
theorem identifier_in_path_iff (hs : Reachable lib s) (hh : h ∈ s.handles)
    (ht : op.target = some t) (hop : ¬ op.QueriesSource) :
    ∃ vc, s.world.heap h = .client vc ∧
      ((∀ x : Transfer, (∀ line ∈ x.headers, HeaderFits line) →
        ∃ r w' e url, op.run lib s.world h x = .ok (some r, w') ∧
          w'.wire = s.world.wire ++ [(h, e)] ∧ e.request.url = some url ∧
          PathAfter vc.serverUrl.bytes
            ((collectionPath vc.apiVersion t.collection).bytes ++ t.identifier.bytes) url.bytes) ↔
        (((∀ c ∈ vc.serverUrl.bytes, Url.ends c = false ∧ Url.junk c = false) ∧
            Url.hier vc.serverUrl.bytes ≠ [47]) ∧
          (∀ c ∈ t.identifier.bytes, Url.ends c = false ∧ Url.junk c = false) ∧
          ¬ Percent.Escaped t.identifier.bytes) ∧ ¬ op.Faults vc.apiVersion) := by
  obtain ⟨-, vc, hp, -⟩ := hs.ready hh
  obtain ⟨-, -, hversioned, -⟩ := Op.outline_target ht vc.apiVersion
  obtain ⟨haction, huri⟩ := hversioned hop
  obtain ⟨above, hpath, hhead, habove⟩ :=
    collectionPath_spec vc.apiVersion (Op.collection_plain ht hop)
  have hbytes : (vc.serverUrl ++ (op.outline vc.apiVersion).rsURI).bytes =
      vc.serverUrl.bytes ++ (47 :: (above ++ [47]) ++ t.identifier.bytes) := by
    rw [huri, Target.path, haction, CString.append_lit_empty, CString.bytes_append,
      CString.bytes_append, hpath]
  refine ⟨vc, hp, ?_⟩
  rw [← pathAfter_iff hhead habove, ← hbytes, hpath]
  constructor
  · intro hall
    obtain ⟨r, w', e, url, hrun, hwire, hurl, hafter⟩ := hall emptyResponse emptyResponse_fits
    obtain ⟨hfaults, hsent⟩ := hs.target_sent hh hp ht hrun hwire
    obtain rfl := Option.some.inj (hurl.symm.trans hsent)
    exact ⟨hafter, hfaults⟩
  · rintro ⟨hafter, hfaults⟩ x hfit
    obtain ⟨r, w', e, hrun, hwire, hsent⟩ := hs.target_request hh hp ht hfaults x hfit
    exact ⟨r, w', e, _, hrun, hwire, hsent, hafter⟩

/-- A topic with a slash and characters that separate in other places. -/
theorem identifier_in_path_iff_separators :
    ∃ (s : Sys Unit) (r : VmeResult) (w' : World Unit) (e : Exchange) (url : CString),
      (Op.publish (lit "a/b;c=d") (some [])).run .plain s.world 8 emptyResponse =
        .ok (some r, w') ∧
      w'.wire = s.world.wire ++ [(8, e)] ∧ e.request.url = some url ∧
      Url.path url.bytes = some (ascii "/api/v1/resources/topics/a/b;c=d") ∧
      Url.query url.bytes = none ∧ Url.fragment url.bytes = none := by
  obtain ⟨s, vc, hs, hh, hp, hv, hserver⟩ := exists_client
  have ht : (Op.publish (lit "a/b;c=d") (some []) : Op Unit).target =
      some ⟨lit "topics", lit "a/b;c=d", lit ""⟩ := rfl
  obtain ⟨vc', hp', hiff⟩ := identifier_in_path_iff hs hh ht id
  obtain rfl : vc = vc' := Referent.client.inj (hp.symm.trans hp')
  rw [hserver, hv] at hiff
  have hhost : ∀ c ∈ (lit "https://host").bytes, Url.Literal c := Url.literal_of_all (by decide)
  have htopic : ∀ c ∈ (lit "a/b;c=d").bytes, Url.Literal c := Url.literal_of_all (by decide)
  have hescape : ¬ Percent.Escaped (lit "a/b;c=d").bytes :=
    Percent.decode_eq_self_iff.mp (by decide)
  have hfaults : ¬ (Op.publish (lit "a/b;c=d") (some []) : Op Unit).Faults 1 := by decide
  obtain ⟨r, w', e, url, hrun, hwire, hurl, ⟨p, hserverPath, hpath⟩, hrest⟩ :=
    hiff.mpr ⟨⟨⟨fun c hc => ⟨(hhost c hc).1, (hhost c hc).2.1⟩, by decide⟩,
      fun c hc => ⟨(htopic c hc).1, (htopic c hc).2.1⟩, hescape⟩, hfaults⟩ emptyResponse
      emptyResponse_fits
  have hempty : Url.path (lit "https://host").bytes = some [] := by decide
  obtain rfl : [] = p := Option.some.inj (hempty.symm.trans hserverPath)
  exact ⟨s, r, w', e, url, hrun, hwire, hurl, hpath.trans (by decide), hrest⟩

/-- A question mark in a topic starts a query. -/
theorem topic_starts_query :
    ∃ (s : Sys Unit) (r : VmeResult) (w' : World Unit) (e : Exchange) (url : CString),
      Reachable .plain s ∧ 8 ∈ s.handles ∧
      (Op.publish (lit "a?b") (some [])).run .plain s.world 8 emptyResponse = .ok (some r, w') ∧
      w'.wire = s.world.wire ++ [(8, e)] ∧ e.request.url = some url ∧
      Url.path url.bytes = some (ascii "/api/v1/resources/topics/a") ∧
      Url.query url.bytes = some (ascii "b") := by
  obtain ⟨s, vc, hs, hh, hp, hv, hserver⟩ := exists_client
  have ht : (Op.publish (lit "a?b") (some []) : Op Unit).target =
      some ⟨lit "topics", lit "a?b", lit ""⟩ := rfl
  have hop : ¬ (Op.publish (lit "a?b") (some []) : Op Unit).Faults vc.apiVersion := by
    rw [hv]
    decide
  obtain ⟨r, w', e, hrun, hwire, hurl⟩ :=
    hs.target_request hh hp ht hop emptyResponse emptyResponse_fits
  rw [hserver, hv] at hurl
  exact ⟨s, r, w', e, _, hs, hh, hrun, hwire, hurl, by decide, by decide⟩

end Sys

end VantiqMicro
