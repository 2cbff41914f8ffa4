import VantiqMicro.ConfigGrammar
import VantiqMicro.Lifecycle

/-! # Strings in blocks sized by hand

Five functions compute the size of a block by one formula and write a string into
it by another.  The formulas agree in every branch, for strings of any length.

What can still go wrong is the `int` that `snprintf` returns: an expansion longer
than `INT_MAX` is refused with -1, which `build_rsuri` compares as a `size_t` and
`vme_query_source` does not look at (`handSized_whole_iff`). -/

namespace VantiqMicro
open CMem

/-- A call of one of the five. -/
inductive HandSized
  | rsuri (apiVers : Nat) (ns : CString) (rsName rsID : Option CString)
  | querySource (sourceID : CString)
  | aggregate (rsURI : CString)
  | authHdr (token : CString)
  | baseUrl (value : CString)

namespace HandSized

/-- A version below 1000 and a name or an ID; a URI and a value with a last byte. -/
def Valid : HandSized → Prop
  | rsuri apiVers _ rsName rsID => apiVers < 1000 ∧ ¬ (rsName = none ∧ rsID = none)
  | querySource _ => True
  | aggregate rsURI => rsURI.bytes ≠ []
  | authHdr _ => True
  | baseUrl value => value.bytes ≠ []

/-- The string that is to be written. -/
def text : HandSized → CString
  | rsuri apiVers ns rsName rsID => (rsuriPath apiVers ns rsName rsID).getD (lit "")
  | querySource sourceID => sourcePath sourceID
  | aggregate rsURI => aggregatePath rsURI
  | authHdr token => VantiqMicro.authHdr token
  | baseUrl value => if value.bytes.getLast? = some 47 then value else value ++ lit "/"

/-- The block the function returns or passes on. -/
def build (INT_MAX : Nat) : HandSized → Except Fault Block
  | rsuri apiVers ns rsName rsID => buildRsuri INT_MAX apiVers ns rsName rsID
  | querySource sourceID => querySourceURI INT_MAX sourceID
  | aggregate rsURI => aggregateRsURI rsURI
  | authHdr token => createAuthHdr token
  | baseUrl value => copyBaseUrl value

/-- How many bytes `snprintf` is asked for; `strcpy` has no such count. -/
def printed : HandSized → Nat
  | rsuri apiVers ns none rsID =>
    18 + (decimal apiVers).length + ns.length + rsID.elim 0 CString.length
  | rsuri apiVers ns (some rsName) none =>
    18 + (decimal apiVers).length + ns.length + rsName.length
  | rsuri apiVers ns (some rsName) (some rsID) =>
    19 + (decimal apiVers).length + ns.length + rsName.length + rsID.length
  | querySource sourceID => 15 + sourceID.length
  | aggregate _ | authHdr _ | baseUrl _ => 0

end HandSized

/-! ## What they write -/

section Text
variable {INT_MAX apiVers : Nat} {ns text : CString} {rsName rsID : Option CString}

theorem length_rsuriPath (ht : rsuriPath apiVers ns rsName rsID = some text) :
    text.length = (HandSized.rsuri apiVers ns rsName rsID).printed := by
  have h₁ : (lit "/api/v").length = 6 := rfl
  have h₂ : (lit "/resources/").length = 11 := rfl
  have h₃ : (lit "/").length = 1 := rfl
  cases rsName <;> cases rsID <;> cases ht <;>
    simp only [rsuriPathPrefix, rsuriPathNoidNoname, HandSized.printed, Option.elim,
      CString.length_append] <;>
    omega

theorem copyBaseUrl_toBlock {value : CString} (h : value.bytes ≠ []) :
    copyBaseUrl value = .ok (HandSized.baseUrl value).text.toBlock := by
  rw [copyBaseUrl_eq h, HandSized.text, ConfigKey.value]
  split <;> rfl

end Text

/-- **When the whole string is written, with its terminator, inside the block.** -/
theorem handSized_whole_iff (INT_MAX : Nat) {c : HandSized} (h : c.Valid) :
    (∃ spare, c.build INT_MAX = .ok (c.text.toBlock ++ malloc spare)) ↔
      c.printed ≤ INT_MAX := by
  cases c with
  | rsuri apiVers ns rsName rsID =>
    obtain ⟨hv, hgiven⟩ := h
    obtain ⟨text, ht⟩ := exists_rsuriPath apiVers ns hgiven
    rw [← length_rsuriPath ht, HandSized.build, HandSized.text, ht, Option.getD_some]
    by_cases hle : text.length ≤ INT_MAX
    · exact iff_of_true ⟨_, buildRsuri_eq hv ht hle⟩ hle
    · refine iff_of_false ?_ hle
      rintro ⟨spare, hbuild⟩
      rw [buildRsuri_of_lt hv ht (Nat.not_le.mp hle)] at hbuild
      cases hbuild
  | querySource sourceID =>
    rw [show (HandSized.querySource sourceID).printed = _ from (length_sourcePath sourceID).symm,
      HandSized.build, HandSized.text]
    by_cases hle : (sourcePath sourceID).length ≤ INT_MAX
    · refine iff_of_true ⟨0, ?_⟩ hle
      rw [querySourceURI_eq hle, malloc, List.replicate_zero, List.append_nil]
    · refine iff_of_false ?_ hle
      rintro ⟨spare, hbuild⟩
      rw [querySourceURI_of_lt (Nat.not_le.mp hle)] at hbuild
      exact Block.malloc_ne_toBlock _ _ _ (Except.ok.inj hbuild)
  | aggregate rsURI => exact iff_of_true (aggregateRsURI_eq h) (Nat.zero_le _)
  | authHdr token => exact iff_of_true ⟨1, createAuthHdr_eq token⟩ (Nat.zero_le _)
  | baseUrl value =>
    refine iff_of_true ⟨0, ?_⟩ (Nat.zero_le _)
    rw [HandSized.build, copyBaseUrl_toBlock h, malloc, List.replicate_zero, List.append_nil]

/-- An empty name and an ID, where not a byte is left over. -/
theorem handSized_whole_iff_tight :
    (HandSized.rsuri 999 (lit "types") (some (lit "")) (some (lit "x"))).Valid ∧
    ((∃ spare, (HandSized.rsuri 999 (lit "types") (some (lit "")) (some (lit "x"))).build 100 =
        .ok ((HandSized.rsuri 999 (lit "types") (some (lit "")) (some (lit "x"))).text.toBlock ++
          malloc spare)) ↔
      (HandSized.rsuri 999 (lit "types") (some (lit "")) (some (lit "x"))).printed ≤ 100) :=
  ⟨⟨by decide, fun h => by cases h.1⟩,
    handSized_whole_iff 100 ⟨by decide, fun h => by cases h.1⟩⟩

/-- With a name longer than an `int` can say, `build_rsuri` fails the assertion on
its size, and `vme_query_source` goes on with a block that holds no string. -/
theorem HandSized.overflow {INT_MAX : Nat} {name : CString} (h : INT_MAX < name.length) :
    (rsuri 1 (lit "types") (some name) none).Valid ∧
    (rsuri 1 (lit "types") (some name) none).build INT_MAX = .error .assertion ∧
    (querySource name).build INT_MAX = .ok (malloc (16 + name.length)) := by
  have hvalid : (rsuri 1 (lit "types") (some name) none).Valid :=
    ⟨by decide, fun hnone => by cases hnone.1⟩
  obtain ⟨text, ht⟩ := exists_rsuriPath 1 (lit "types") hvalid.2
  have hname : INT_MAX < text.length := by
    rw [length_rsuriPath ht, printed]
    omega
  have hsource : INT_MAX < (sourcePath name).length := by
    rw [length_sourcePath]
    omega
  exact ⟨hvalid, buildRsuri_of_lt hvalid.1 ht hname, querySourceURI_of_lt hsource⟩

/-- A name of `n` letters. -/
def longName (n : Nat) : CString :=
  ⟨List.replicate n 97, fun h => absurd (List.eq_of_mem_replicate h) (by decide)⟩

/-- An `int` of 32 bits and a name of 2^31 bytes. -/
theorem handSized_overflows :
    (HandSized.rsuri 1 (lit "types") (some (longName (2 ^ 31))) none).Valid ∧
    (HandSized.rsuri 1 (lit "types") (some (longName (2 ^ 31))) none).build 2147483647 =
      .error .assertion ∧
    (HandSized.querySource (longName (2 ^ 31))).build 2147483647 = .ok (malloc (16 + 2 ^ 31)) ∧
    ¬ ∀ c : HandSized, c.Valid →
      ∃ spare, c.build 2147483647 = .ok (c.text.toBlock ++ malloc spare) := by
  have hlen : (longName (2 ^ 31)).length = 2 ^ 31 := List.length_replicate ..
  generalize longName (2 ^ 31) = name at hlen
  have hlong : 2147483647 < name.length := by omega
  obtain ⟨hvalid, hfail, hblank⟩ := HandSized.overflow hlong
  rw [hlen] at hblank
  refine ⟨hvalid, hfail, hblank, ?_⟩
  intro hall
  obtain ⟨spare, hbuild⟩ := hall _ hvalid
  rw [hfail] at hbuild
  cases hbuild

end VantiqMicro
