import VantiqMicro.ConfigGrammar
import VantiqMicro.Independence

/-! # URLs with and without a trailing slash

The parser of the configuration appends a slash to a base URL that has none,
`vc_init` cuts one off, and `vme_aggregate` looks for one before it appends its
suffix.  Together they see to it that a trailing slash makes no difference: the
client's URL is what was written without it, whichever way it came, and so are the
URLs of all its requests (`trailing_slash_iff`).  What comes between is the length
of a line: of a URL that the parser cuts it keeps a piece. -/

namespace VantiqMicro
open CMem

variable {σ : Type}

/-! ## Ways to `vme_init` -/

/-- Where the URL that `vme_init` is given comes from. -/
inductive UrlSource
  | direct (url : CString)
  /-- A configuration file with these contents. -/
  | parsed (file : Bytes)

namespace UrlSource

/-- The URL `vme_init` is given, at a log level. -/
def argument (level : Nat) : UrlSource → Except Fault CString
  | direct url => .ok url
  | parsed file => do
    let (_, config, _) ← vmeParseConfig level (some file)
    derefPath config.vantiqUrl

/-- The URL is written `u` or `u/`; in a file, by the last line that assigns one. -/
def Writes (u : CString) : UrlSource → Prop
  | direct url => url = u ∨ url = u ++ lit "/"
  | parsed file => ∃ t, (t = u.bytes ∨ t = u.bytes ++ [47]) ∧
      lastValue ((lines file).filterMap setting) .vantiqUrl = some (ConfigKey.vantiqUrl.value t)

/-- The last assignment of a URL among the file's pieces is that of its lines. -/
def ReadAsWritten : UrlSource → Prop
  | direct _ => True
  | parsed file => lastValue (assigned file) .vantiqUrl =
      lastValue ((lines file).filterMap setting) .vantiqUrl

end UrlSource

/-- As long as a handle got with `url` is held, its client's URL is `u`, and whatever is
requested on it is requested from there. -/
def Serves (σ : Type) (lib : Libcurl) (url u : CString) : Prop :=
  ∀ (s t s' : Sys σ) (addr : Addr) (a : InitArgs) (calls : List (Call σ)), a.url = url →
    Sys.Reachable lib s → Sys.Step lib s (.init addr a) t → addr ∈ t.handles →
    Run (Sys.Step lib) t calls s' → (∀ left, Call.teardown addr left ∉ calls) →
    ∃ vc, s'.world.heap addr = .client vc ∧ vc.serverUrl = u ∧
      ∀ (op : Op σ) x r w', op.run lib s'.world addr x = .ok (r, w') →
        ∃ p e, op.plan a.apiVersion = some p ∧ w'.wire = s'.world.wire ++ [(addr, e)] ∧
          e.request.url = some (u ++ p.rsURI ++ queryText lib p.params)

/-- The URL stored as `server_url` is `u`, and so are those of the requests. -/
def UrlSource.Yields (σ : Type) (lib : Libcurl) (u : CString) (src : UrlSource) : Prop :=
  ∀ level, ∃ url serverUrl, src.argument level = .ok url ∧ copyUrl url = .ok serverUrl ∧
    serverUrl.readString = .ok u ∧ Serves σ lib url u

/-- An aggregate of `rsURI` or of `rsURI/` requests one URL, unless it has no pipeline to
read. -/
def AggregatesAt (lib : Libcurl) (s : Sys σ) (h : VME) (rsURI : CString) : Prop :=
  ∃ vc, s.world.heap h = .client vc ∧ ∀ uri, (uri = rsURI ∨ uri = rsURI ++ lit "/") →
    ∀ pipeline x,
      (∀ text, pipeline = some text → (∀ line ∈ x.headers, HeaderFits line) →
        ∃ r w', (Op.aggregate uri pipeline).run lib s.world h x = .ok (some r, w')) ∧
      ∀ r w', (Op.aggregate uri pipeline).run lib s.world h x = .ok (r, w') →
        ∃ text e, pipeline = some text ∧ w'.wire = s.world.wire ++ [(h, e)] ∧
          e.request.url = some (vc.serverUrl ++ rsURI ++ lit "/aggregate" ++
            queryText lib (buildParam [] (lit "pipeline") text))

/-! ## Slashes -/

section Slash
variable {u url rsURI : CString} {t : Bytes}

theorem bytes_slash (u : CString) : (u ++ lit "/").bytes = u.bytes ++ [47] :=
  CString.bytes_append u (lit "/")

theorem bytes_slash_ne_nil (u : CString) : (u ++ lit "/").bytes ≠ [] := by
  rw [bytes_slash]
  exact List.concat_ne_nil 47 u.bytes

theorem getLast?_slash (u : CString) : (u ++ lit "/").bytes.getLast? = some 47 := by
  rw [bytes_slash, List.getLast?_concat]

theorem serverUrlOf_slash (u : CString) : serverUrlOf (u ++ lit "/") = u := by
  apply CString.ext
  rw [serverUrlOf, if_pos (getLast?_slash u)]
  show (u ++ lit "/").bytes.dropLast = u.bytes
  rw [bytes_slash, List.dropLast_concat]

theorem serverUrlOf_of_ne (h : u.bytes.getLast? ≠ some 47) : serverUrlOf u = u := if_neg h

theorem value_slash (h : u.bytes.getLast? ≠ some 47) (ht : t = u.bytes ∨ t = u.bytes ++ [47]) :
    ConfigKey.vantiqUrl.value t = u.bytes ++ [47] := by
  rcases ht with rfl | rfl
  · exact if_neg h
  · exact if_pos (by simp)

/-- A base URL as the parser keeps it is what `vc_init` makes of it, and a slash. -/
theorem value_eq_serverUrlOf (h : url.bytes = ConfigKey.vantiqUrl.value t) :
    url.bytes = (serverUrlOf url).bytes ++ [47] := by
  have hlast : url.bytes.getLast? = some 47 := by
    rw [h, ConfigKey.value]
    split
    · assumption
    · simp
  have hne : url.bytes ≠ [] := by
    intro hnil
    rw [hnil] at hlast
    cases hlast
  rw [serverUrlOf, if_pos hlast]
  have h47 : url.bytes.getLast hne = 47 := by
    rwa [List.getLast?_eq_some_getLast hne, Option.some.injEq] at hlast
  rw [← h47]
  exact (List.dropLast_append_getLast hne).symm

theorem aggregatePath_slash (h : rsURI.bytes.getLast? ≠ some 47) {uri : CString}
    (huri : uri = rsURI ∨ uri = rsURI ++ lit "/") :
    aggregatePath uri = rsURI ++ lit "/aggregate" := by
  rcases huri with rfl | rfl
  · exact if_neg h
  · rw [aggregatePath, if_pos (getLast?_slash rsURI), CString.append_assoc]
    rfl

end Slash

/-! ## Ways that agree -/

/-- Where a new handle's client is, and its account. -/
theorem Sys.Step.account_of_init {lib : Libcurl} {s t : Sys σ} {addr : Addr} {a : InitArgs}
    (hstep : Sys.Step lib s (.init addr a) t) (hs : Sys.Reachable lib s)
    (hh : addr ∈ t.handles) :
    ∃ vc, t.world.heap addr = .client vc ∧ vc.account = a.account := by
  cases hstep with
  | @init _ _ h w hne hfree hr =>
    obtain ⟨⟨returned, vs⟩, hv, hret⟩ := bind_eq_ok.mp hr
    obtain ⟨rfl, rfl⟩ := Prod.mk.inj (Except.ok.inj hret)
    cases returned with
    | false =>
      obtain ⟨-, vc, hp, -⟩ := hs.ready hh
      exact absurd hp (hfree vc)
    | true => exact ⟨vs.vc, World.leave_heap_self, ((InitArgs.vcInit_ok hv).2.2 rfl).2.1⟩

/-- **The URL stored is that of every later request.** -/
theorem serves_of_serverUrlOf {lib : Libcurl} {url u : CString} (h : serverUrlOf url = u) :
    Serves σ lib url u := by
  intro s t s' addr a calls hurl hs hstep hh hrun hlive
  obtain ⟨vc₀, hp₀, hacct⟩ := hstep.account_of_init hs hh
  have ht : Sys.Reachable lib t := by
    obtain ⟨s₀, before, h₀, hbefore⟩ := hs
    exact ⟨s₀, _, h₀, hbefore.append (.cons hstep (.nil _))⟩
  obtain ⟨hh', -, hall⟩ := Sys.keeps_run hrun hlive (ht.keeps hh hp₀)
  obtain ⟨hne, vc, hp, hrdy, hsame⟩ := hall addr hh'
  obtain ⟨hv, hserver, -⟩ := hsame rfl
  rw [hacct] at hv hserver
  have hu : vc.serverUrl = u := by
    rw [hserver, ← h, ← hurl]
    rfl
  refine ⟨vc, hp, hu, ?_⟩
  intro op x r w' hop
  obtain ⟨p, vc', hplan, -, -, rfl, -⟩ := Op.run_inv hp hne hrdy hop
  rw [hv] at hplan
  refine ⟨p, _, hplan, rfl, ?_⟩
  rw [← hu]
  rfl

namespace UrlSource
variable {lib : Libcurl} {u url : CString} {src : UrlSource} {file : Bytes} {level : Nat}

/-- A file yields the URL that the last of its pieces to assign one does. -/
theorem argument_parsed :
    (parsed file).argument level = .ok url ↔
      lastValue (assigned file) .vantiqUrl = some url.bytes := by
  have hget := VmeConfig.get_setAll .zero (assigned file) .vantiqUrl
  rw [VmeConfig.get_zero, Option.or_none, VmeConfig.get] at hget
  simp only [argument, vmeParseConfig_eq, ok_bind, hget]
  cases hlast : lastValue (assigned file) .vantiqUrl with
  | none =>
    refine iff_of_false ?_ ?_ <;> intro h <;> cases h
  | some v =>
    have hread : Block.readString (cells v ++ [some 0]) = .ok ⟨text v, nulFree_takeWhile v⟩ :=
      Block.readString_eq_ok.mpr (Block.stringBytes_cells_zero v [])
    simp only [Option.map_some, derefPath, hread, text_of_lastValue hlast, Except.ok.injEq,
      Option.some.injEq, CString.ext_iff]

/-- A URL that is given yields `u` if it is `u` up to a slash. -/
theorem yields_of_argument (h : ∀ level, ∃ url, src.argument level = .ok url ∧
    url.bytes ≠ [] ∧ serverUrlOf url = u) : src.Yields σ lib u := by
  intro level
  obtain ⟨url, harg, hurl, hserver⟩ := h level
  obtain ⟨last, hlast⟩ := CString.exists_lastChar hurl
  exact ⟨url, _, harg, copyUrl_eq hlast, by rw [hserver]; exact Block.readString_toBlock u,
    serves_of_serverUrlOf hserver⟩

/-- **A URL that is written `u` or `u/` yields `u` if it is read as it is written.** -/
theorem yields_iff (lib : Libcurl) (hne : u.bytes ≠ []) (h47 : u.bytes.getLast? ≠ some 47)
    (hsrc : src.Writes u) : src.Yields σ lib u ↔ src.ReadAsWritten := by
  cases src with
  | direct url =>
    refine iff_of_true (yields_of_argument fun level => ⟨url, rfl, ?_⟩) trivial
    rcases hsrc with rfl | rfl
    · exact ⟨hne, serverUrlOf_of_ne h47⟩
    · exact ⟨bytes_slash_ne_nil u, serverUrlOf_slash u⟩
  | parsed file =>
    obtain ⟨t, ht, hwritten⟩ := hsrc
    rw [value_slash h47 ht] at hwritten
    rw [ReadAsWritten, hwritten]
    constructor
    · intro h
      obtain ⟨url, serverUrl, harg, hcopy, hread, -⟩ := h 0
      rw [argument_parsed] at harg
      obtain ⟨last, hlast, -⟩ := bind_eq_ok.mp hcopy
      rw [copyUrl_eq hlast, Except.ok.injEq] at hcopy
      rw [← hcopy, Block.readString_toBlock, Except.ok.injEq] at hread
      obtain ⟨t', hvalue, -⟩ := token_of_lastValue harg
      rw [harg, value_eq_serverUrlOf hvalue, hread]
    · intro h
      exact yields_of_argument fun level =>
        ⟨u ++ lit "/", argument_parsed.mpr h, bytes_slash_ne_nil u, serverUrlOf_slash u⟩

/-- A file whose lines fit the buffer is read as it is written. -/
theorem readAsWritten_of_fits (h0 : 0 ∉ file)
    (hfit : ∀ l ∈ lines file, l.length < MAXLINELENGTH) : (parsed file).ReadAsWritten := by
  rw [ReadAsWritten, assigned_eq_filterMap h0 hfit]

end UrlSource

/-- **An aggregate of a URI and of the URI with a slash request the same URL.** -/
theorem Sys.Reachable.aggregatesAt {lib : Libcurl} {s : Sys σ} {h : VME} {rsURI : CString}
    (hs : Sys.Reachable lib s) (hh : h ∈ s.handles) (hne : rsURI.bytes ≠ [])
    (h47 : rsURI.bytes.getLast? ≠ some 47) : AggregatesAt lib s h rsURI := by
  obtain ⟨-, vc, hp, -⟩ := hs.ready hh
  refine ⟨vc, hp, fun uri huri pipeline x => ⟨?_, ?_⟩⟩
  · rintro text rfl hfit
    refine hs.run_returns hh hp _ x ⟨?_, False.elim⟩ hfit
    rintro (hnone | hnil)
    · cases hnone
    · rcases huri with rfl | rfl
      · exact hne hnil
      · exact bytes_slash_ne_nil rsURI hnil
  · intro r w' hrun
    obtain ⟨vc₁, p, vc', hp₁, hplan, -, rfl, -⟩ := hs.run_inv hh hrun
    obtain rfl : vc = vc₁ := Referent.client.inj (hp.symm.trans hp₁)
    obtain ⟨hfaults, rfl⟩ := Op.plan_eq_some_iff.mp hplan
    obtain ⟨text, rfl⟩ := Option.ne_none_iff_exists'.mp (not_or.mp hfaults).1
    refine ⟨text, _, rfl, rfl, ?_⟩
    have hurl : vc.serverUrl ++ aggregatePath uri = vc.serverUrl ++ rsURI ++ lit "/aggregate" := by
      rw [aggregatePath_slash h47 huri, CString.append_assoc]
    rw [← hurl]
    rfl

/-- **When a trailing slash makes no difference**: always to the URL of an aggregate, and
to the base URL where it is given to `vme_init` directly, or where the last piece of the
file to assign one assigns what the file's last line to do so does. -/
theorem trailing_slash_iff (lib : Libcurl) {u : CString} {src : UrlSource} (hne : u.bytes ≠ [])
    (h47 : u.bytes.getLast? ≠ some 47) (hsrc : src.Writes u) :
    (src.Yields σ lib u ↔ src.ReadAsWritten) ∧
      ∀ (s : Sys σ) (h : VME) (rsURI : CString), Sys.Reachable lib s → h ∈ s.handles →
        rsURI.bytes ≠ [] → rsURI.bytes.getLast? ≠ some 47 → AggregatesAt lib s h rsURI :=
  ⟨UrlSource.yields_iff lib hne h47 hsrc, fun _ _ _ hs hh => hs.aggregatesAt hh⟩

/-- The slash is written, and given to `vme_init` as it is. -/
theorem trailing_slash_iff_direct :
    (UrlSource.direct (lit "https://host/")).Yields Unit .plain (lit "https://host") := by
  have hsrc : (UrlSource.direct (lit "https://host/")).Writes (lit "https://host") := Or.inr rfl
  exact (trailing_slash_iff .plain (by decide) (by decide) hsrc).1.mpr trivial

/-! ## A URL that does not fit a line -/

section Long
variable {s t : Bytes}

/-- A token ends at the first white space. -/
theorem token_append (hne : s ≠ []) (hs : ∀ c ∈ s, isspace c = false)
    (ht : ∀ c ∈ t.head?, isspace c = true) : token (s ++ t) = s := by
  have hdrop : (s ++ t).dropWhile isspace = s ++ t := by
    obtain ⟨c, s, rfl⟩ := List.exists_cons_of_ne_nil hne
    rw [List.cons_append]
    exact List.dropWhile_cons_of_neg (by simp [hs c (List.mem_cons_self ..)])
  have htake : t.takeWhile (fun c => !isspace c) = [] := by
    cases t with
    | nil => rfl
    | cons c t => exact List.takeWhile_cons_of_neg (by simp [ht c rfl])
  have hall : ∀ c ∈ s, (!isspace c) = true := by
    intro c hc
    rw [hs c hc]
    rfl
  rw [token, hdrop, List.takeWhile_append_of_pos hall, htake, List.append_nil]

/-- What a line assigns that writes a base URL right after the separator. -/
theorem setting_baseUrl (hne : s ≠ []) (hs : ∀ c ∈ s, isspace c = false)
    (ht : ∀ c ∈ t.head?, isspace c = true) :
    setting (ascii "VANTIQ_BASEURL=" ++ (s ++ t)) =
      some (.vantiqUrl, ConfigKey.vantiqUrl.value s) := by
  have hline : ascii "VANTIQ_BASEURL=" ++ (s ++ t) = ascii "VANTIQ_BASEURL" ++ 61 :: (s ++ t) := rfl
  have hkey : ConfigKey.ofToken (token (ascii "VANTIQ_BASEURL")) = some .vantiqUrl := rfl
  have hhead : (ascii "VANTIQ_BASEURL" ++ 61 :: (s ++ t)).head? ≠ some 35 :=
    show some (86 : UInt8) ≠ some 35 by decide
  rw [hline, setting_append hhead (by decide), token_append hne hs ht, if_neg hne,
    hkey]
  rfl

end Long

/-- A file that assigns the URL `s` and nothing else. -/
def urlFile (s : Bytes) : Bytes := ascii "VANTIQ_BASEURL=" ++ (s ++ [10])

section Cut
variable {s t : Bytes}

theorem not_mem_urlLine {c : UInt8} (hkey : c ∉ ascii "VANTIQ_BASEURL=") (h97 : c ≠ 97)
    (hs : ∀ c ∈ s, c = 97) : c ∉ ascii "VANTIQ_BASEURL=" ++ s := by
  rw [List.mem_append]
  rintro (h | h)
  · exact hkey h
  · exact h97 (hs c h)

theorem lines_urlFile (hs : ∀ c ∈ s, c = 97) : lines (urlFile s) = [urlFile s] := by
  have hnl : 10 ∉ ascii "VANTIQ_BASEURL=" ++ s := not_mem_urlLine (by decide) (by decide) hs
  rw [urlFile, ← List.append_assoc]
  exact lines_append_newline hnl

/-- What a line assigns that writes a URL of letters. -/
theorem setting_letters (hne : s ≠ []) (hs : ∀ c ∈ s, c = 97)
    (ht : ∀ c ∈ t.head?, isspace c = true) :
    setting (ascii "VANTIQ_BASEURL=" ++ (s ++ t)) = some (.vantiqUrl, s ++ [47]) := by
  have hvalue : ConfigKey.vantiqUrl.value s = s ++ [47] :=
    if_neg fun h => by cases hs _ (List.mem_of_getLast? h)
  rw [setting_baseUrl hne (fun c hc => by rw [hs c hc]; rfl) ht, hvalue]

/-- The parser reads two lines where the buffer is full after `s`, and the second assigns
nothing. -/
theorem assigned_urlFile (hne : s ≠ []) (hs : ∀ c ∈ s, c = 97) (ht : ∀ c ∈ t, c = 97)
    (hlen : (ascii "VANTIQ_BASEURL=" ++ s).length = MAXLINELENGTH - 1)
    (hrest : (t ++ [10]).length ≤ MAXLINELENGTH - 1) :
    assigned (urlFile (s ++ t)) = [(.vantiqUrl, s ++ [47])] := by
  have hsplit : urlFile (s ++ t) = (ascii "VANTIQ_BASEURL=" ++ s) ++ (t ++ [10]) := by
    simp only [urlFile, List.append_assoc]
  have hchunks : chunks (MAXLINELENGTH - 1) (urlFile (s ++ t)) =
      [ascii "VANTIQ_BASEURL=" ++ s, t ++ [10]] := by
    have hpos : 0 < MAXLINELENGTH - 1 := by decide
    rw [hsplit, chunks_of_ne_nil hpos (by simp), List.take_left' hlen, List.drop_left' hlen,
      chunks_of_length_le (by simp) hrest]
  -- no zero ends the first piece early
  have hfirst : text (ascii "VANTIQ_BASEURL=" ++ s) = ascii "VANTIQ_BASEURL=" ++ (s ++ []) := by
    rw [List.append_nil]
    exact takeWhile_ne_of_not_mem (not_mem_urlLine (by decide) (by decide) hs)
  have hset := setting_letters (t := []) hne hs (fun c hc => by cases hc)
  have hsecond : setting (text (t ++ [10])) = none := by
    apply setting_of_not_mem
    intro h
    rcases List.mem_append.mp ((List.takeWhile_prefix _).subset h) with h | h
    · cases ht _ h
    · exact absurd h (by decide)
  have hall : ∀ c ∈ s ++ t, c = 97 := by
    intro c hc
    exact (List.mem_append.mp hc).elim (hs c) (ht c)
  have hmem : urlFile (s ++ t) ∈ lines (urlFile (s ++ t)) := by
    rw [lines_urlFile hall]
    exact List.mem_singleton_self _
  rw [assigned_of_mem_lines hmem, hchunks]
  simp only [List.filterMap_cons, List.filterMap_nil, hfirst, hset, hsecond]

/-- A client set up from such a file does not get the URL that is written there. -/
theorem not_yields_urlFile {u : CString} (hu : u.bytes = s ++ t) (hne : s ≠ [])
    (hs : ∀ c ∈ s, c = 97) (ht : ∀ c ∈ t, c = 97) (hnet : t ≠ [])
    (hlen : (ascii "VANTIQ_BASEURL=" ++ s).length = MAXLINELENGTH - 1)
    (hrest : (t ++ [10]).length ≤ MAXLINELENGTH - 1) :
    u.bytes ≠ [] ∧ u.bytes.getLast? ≠ some 47 ∧ (UrlSource.parsed (urlFile u.bytes)).Writes u ∧
      ¬ (UrlSource.parsed (urlFile u.bytes)).Yields Unit .plain u := by
  have hall : ∀ c ∈ u.bytes, c = 97 := by
    intro c hc
    rw [hu] at hc
    exact (List.mem_append.mp hc).elim (hs c) (ht c)
  have hune : u.bytes ≠ [] := by simp [hu, hne]
  have h47 : u.bytes.getLast? ≠ some 47 := fun h => by cases hall _ (List.mem_of_getLast? h)
  have hgrammar : lastValue ((lines (urlFile u.bytes)).filterMap setting) .vantiqUrl =
      some (u.bytes ++ [47]) := by
    have hset : setting (urlFile u.bytes) = _ :=
      setting_letters hune hall (fun c hc => by cases hc; rfl)
    rw [lines_urlFile hall, List.filterMap_cons_some hset]
    rfl
  have hwrites : (UrlSource.parsed (urlFile u.bytes)).Writes u :=
    ⟨u.bytes, Or.inl rfl, by rw [hgrammar, value_slash h47 (Or.inl rfl)]⟩
  refine ⟨hune, h47, hwrites, ?_⟩
  rw [UrlSource.yields_iff .plain hune h47 hwrites, UrlSource.ReadAsWritten, hgrammar, hu,
    assigned_urlFile hne hs ht hlen hrest]
  intro h
  have hbytes : s ++ [47] = s ++ t ++ [47] := Option.some.inj h
  exact hnet (List.self_eq_append_right.mp (List.append_cancel_right hbytes))

end Cut

/-- A URL of 1100 letters, of which 1008 fit the buffer with the key. -/
def longUrl : CString :=
  ⟨List.replicate 1008 97 ++ List.replicate 92 97, fun h => by
    rcases List.mem_append.mp h with h | h <;> cases List.eq_of_mem_replicate h⟩

theorem longUrl_cut :
    longUrl.length = 1100 ∧ longUrl.bytes ≠ [] ∧ longUrl.bytes.getLast? ≠ some 47 ∧
    (UrlSource.parsed (urlFile longUrl.bytes)).Writes longUrl ∧
    assigned (urlFile longUrl.bytes) = [(.vantiqUrl, List.replicate 1008 97 ++ [47])] ∧
    ¬ (UrlSource.parsed (urlFile longUrl.bytes)).Yields Unit .plain longUrl := by
  have hs : ∀ c ∈ List.replicate 1008 (97 : UInt8), c = 97 := fun _ => List.eq_of_mem_replicate
  have ht : ∀ c ∈ List.replicate 92 (97 : UInt8), c = 97 := fun _ => List.eq_of_mem_replicate
  have hlen : (ascii "VANTIQ_BASEURL=" ++ List.replicate 1008 97).length = MAXLINELENGTH - 1 := by
    rw [List.length_append, List.length_replicate]
    rfl
  have hrest : (List.replicate 92 (97 : UInt8) ++ [10]).length ≤ MAXLINELENGTH - 1 := by
    rw [List.length_append, List.length_replicate]
    decide
  have hne : List.replicate 1008 (97 : UInt8) ≠ [] := List.cons_ne_nil _ _
  have hu : longUrl.bytes = List.replicate 1008 97 ++ List.replicate 92 97 := rfl
  obtain ⟨hune, h47, hwrites, hnot⟩ := not_yields_urlFile hu hne hs ht (List.cons_ne_nil _ _) hlen
    hrest
  refine ⟨?_, hune, h47, hwrites, ?_, hnot⟩
  · rw [CString.length, hu, List.length_append, List.length_replicate, List.length_replicate]
  · rw [hu]
    exact assigned_urlFile hne hs ht hlen hrest

end VantiqMicro
