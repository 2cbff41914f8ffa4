import VantiqMicro.Block

/-! # Resource URIs (`utils.c`)

`build_rsuri` computes an allocation size by one formula and writes the path by
another.  `buildRsuri_spec` says they agree: for a version below 1000 and at
least one of name and id given, the path it returns is the whole expansion of
the format it chose (`rsuriPath`).  What `snprintf` returns is an `int`, and an
expansion longer than `INT_MAX` fails the assertion on the size. -/

namespace VantiqMicro
open CMem

/-- `vme_rstype_t`. -/
inductive VmeRstype
  | USERS | TYPES | NAMESPACES | PROFILES | SCALARS | LOG_MESSAGES | DOCUMENTS | SOURCES
  | SOURCE_IMPLEMENTATIONS | TOPICS | RULES | CONFIGURATIONS | NODES | NODE_CONFIGURATIONS
  | COMPONENTS | PROCEDURES | EVENTS | TOKENS | ORGANIZATIONS | SERIES | PRODUCTS | AUDITS
  | SITUATIONS | PROJECTS | GROUPS | ACTIVITY_PATTERNS | COLLABORATIONS | COLLABORATION_TYPES
  | PAGESETS | SERVICES | CUSTOM | DEBUG_CONFIGURATIONS | SCHEDULED_EVENTS | EVENT_STREAMS
  | DELEGATED_REQUESTS | EVENT_DESIGNS | VAIL_SCRIPTS
deriving DecidableEq, Repr

def vmeSystemTypes : List CString :=
  [lit "users", lit "types", lit "namespaces", lit "profiles", lit "scalars", lit "logs",
    lit "documents", lit "sources", lit "sourceimpls", lit "topics", lit "rules",
    lit "configurations", lit "nodes", lit "nodeconfigs", lit "components", lit "procedures",
    lit "events", lit "tokens", lit "organizations", lit "series", lit "ArsProductMap",
    lit "audits", lit "situations", lit "projects", lit "groups", lit "activitypatterns",
    lit "collaborations", lit "collaborationtypes", lit "pagesets", lit "services", lit "custom",
    lit "debugconfigs", lit "scheduledevents", lit "eventstreams", lit "delegatedrequests",
    lit "eventdesigns", lit "scripts"]

def vmeMaptoRsname (type : VmeRstype) : Except Fault CString := do
  assert (type.ctorIdx < vmeSystemTypes.length)
  return vmeSystemTypes.getD type.ctorIdx default

def LONGEST_PREFIX : CString := lit "/api/vxxx/resources/"

/-- The expansion of `RSURI_PATH_NOID_NONAME`. -/
def rsuriPathNoidNoname (apiVers : Nat) (ns rs : CString) : CString :=
  lit "/api/v" ++ decimal apiVers ++ lit "/resources/" ++ ns ++ lit "/" ++ rs

/-- The expansion of `RSURI_PATH_PREFIX`. -/
def rsuriPathPrefix (apiVers : Nat) (ns rsName rsID : CString) : CString :=
  rsuriPathNoidNoname apiVers ns rsName ++ lit "/" ++ rsID

/-- What the format chosen by `build_rsuri` expands to. -/
def rsuriPath (apiVers : Nat) (ns : CString) : Option CString → Option CString → Option CString
  | none, none => none
  | none, some rsID => some (rsuriPathNoidNoname apiVers ns rsID)
  | some rsName, none => some (rsuriPathNoidNoname apiVers ns rsName)
  | some rsName, some rsID => some (rsuriPathPrefix apiVers ns rsName rsID)

/-- `NULL` for an empty string, as `optionalName` and `optionalID`. -/
def nonEmpty (s : Option CString) : Option CString := s.filter fun s => s.length ≠ 0

/-- The size `build_rsuri` allocates. -/
def rsuriSize (ns : CString) (rsName rsID : Option CString) : Nat :=
  (LONGEST_PREFIX.length + 1)
    + (ns.length + 1)
    + (nonEmpty rsName).elim 0 (fun s => s.length + 1)
    + (nonEmpty rsID).elim 0 (fun s => s.length)
    + 1

def buildRsuri (INT_MAX apiVers : Nat) (ns : CString) (rsName rsID : Option CString) :
    Except Fault Block := do
  assert (apiVers < 1000)
  assert (rsName ≠ none ∨ rsID ≠ none)
  let len := rsuriSize ns rsName rsID
  match rsuriPath apiVers ns rsName rsID with
  | none => .error .nullPointer
  | some text =>
    let (needed, path) ← (malloc len).snprintf INT_MAX len text
    -- as a `size_t` a negative number is larger than any length
    assert (0 ≤ needed ∧ needed ≤ len)
    return path

/-! ## The size is enough -/

theorem length_decimal_le {n : Nat} (h : n < 1000) : (decimal n).length ≤ 3 := by
  rw [decimal, CString.length, List.length_map]
  exact (Nat.length_toDigits_le_iff (by decide) (by decide)).mpr h

theorem length_rsuriPathNoidNoname {apiVers : Nat} (h : apiVers < 1000) (ns rs : CString) :
    (rsuriPathNoidNoname apiVers ns rs).length ≤ 21 + ns.length + rs.length := by
  have hd := length_decimal_le h
  have h₁ : (lit "/api/v").length = 6 := rfl
  have h₂ : (lit "/resources/").length = 11 := rfl
  have h₃ : (lit "/").length = 1 := rfl
  simp only [rsuriPathNoidNoname, CString.length_append]
  omega

/-- The term for an optional part is at least its length, empty or not. -/
theorem length_le_nonEmpty {f : CString → Nat} (hf : ∀ s : CString, s.length ≤ f s) (s : CString) :
    s.length ≤ (nonEmpty (some s)).elim 0 f := by
  unfold nonEmpty
  by_cases h : s.length = 0
  · simp [Option.filter, h]
  · simpa [Option.filter, h] using hf s

/-- **The path fits its allocation, terminator included**, in every shape of name
and id. -/
theorem length_rsuriPath_lt {apiVers : Nat} (h : apiVers < 1000) {ns text : CString}
    {rsName rsID : Option CString} (ht : rsuriPath apiVers ns rsName rsID = some text) :
    text.length < rsuriSize ns rsName rsID := by
  have hlen : LONGEST_PREFIX.length = 20 := rfl
  have h₁ : (lit "/").length = 1 := rfl
  have hn := length_le_nonEmpty (f := fun s => s.length + 1) fun s => Nat.le_succ s.length
  have hi := length_le_nonEmpty (f := fun s => s.length) fun s => Nat.le_refl s.length
  cases rsName with
  | none =>
    cases rsID with
    | none => cases ht
    | some rsID =>
      cases ht
      have hp := length_rsuriPathNoidNoname h ns rsID
      specialize hi rsID
      unfold rsuriSize
      omega
  | some rsName =>
    have hp := length_rsuriPathNoidNoname h ns rsName
    specialize hn rsName
    cases rsID with
    | none =>
      cases ht
      unfold rsuriSize
      omega
    | some rsID =>
      cases ht
      specialize hi rsID
      unfold rsuriSize
      simp only [rsuriPathPrefix, CString.length_append]
      omega

theorem exists_rsuriPath (apiVers : Nat) (ns : CString) {rsName rsID : Option CString}
    (h : ¬ (rsName = none ∧ rsID = none)) :
    ∃ text, rsuriPath apiVers ns rsName rsID = some text := by
  cases rsName with
  | none =>
    cases rsID with
    | none => exact absurd ⟨rfl, rfl⟩ h
    | some rsID => exact ⟨_, rfl⟩
  | some rsName =>
    cases rsID with
    | none => exact ⟨_, rfl⟩
    | some rsID => exact ⟨_, rfl⟩

section Build
variable {INT_MAX apiVers : Nat} {ns text : CString} {rsName rsID : Option CString}

theorem given_of_rsuriPath (ht : rsuriPath apiVers ns rsName rsID = some text) :
    rsName ≠ none ∨ rsID ≠ none := by
  cases rsName <;> cases rsID <;> simp_all [rsuriPath]

/-- The block `build_rsuri` returns: the path, and what is left of the allocation. -/
theorem buildRsuri_eq (h : apiVers < 1000) (ht : rsuriPath apiVers ns rsName rsID = some text)
    (hle : text.length ≤ INT_MAX) :
    buildRsuri INT_MAX apiVers ns rsName rsID =
      .ok (text.toBlock ++ malloc (rsuriSize ns rsName rsID - (text.length + 1))) := by
  have hlt := length_rsuriPath_lt h ht
  have hneeded : (0 : Int) ≤ text.length ∧ (text.length : Int) ≤ rsuriSize ns rsName rsID :=
    ⟨Int.natCast_nonneg _, Int.ofNat_le.mpr (Nat.le_of_lt hlt)⟩
  rw [buildRsuri, assert_of h, ok_bind, assert_of (given_of_rsuriPath ht), ok_bind]
  simp only [ht]
  rw [Block.snprintf_of_le hle hlt, ok_bind, assert_of hneeded]
  rfl

/-- **`build_rsuri` returns the whole path**, if its length is an `int`. -/
theorem buildRsuri_spec (h : apiVers < 1000) (ht : rsuriPath apiVers ns rsName rsID = some text)
    (hle : text.length ≤ INT_MAX) :
    ∃ path, buildRsuri INT_MAX apiVers ns rsName rsID = .ok path ∧ path.readString = .ok text :=
  ⟨_, buildRsuri_eq h ht hle, Block.readString_append text _⟩

/-- A longer path fails the assertion on the size. -/
theorem buildRsuri_of_lt (h : apiVers < 1000) (ht : rsuriPath apiVers ns rsName rsID = some text)
    (hlt : INT_MAX < text.length) :
    buildRsuri INT_MAX apiVers ns rsName rsID = .error .assertion := by
  rw [buildRsuri, assert_of h, ok_bind, assert_of (given_of_rsuriPath ht), ok_bind]
  simp only [ht]
  rw [Block.snprintf_of_lt hlt]
  rfl

end Build

@[simp] theorem vmeMaptoRsname_topics : vmeMaptoRsname .TOPICS = .ok (lit "topics") := rfl

@[simp] theorem vmeMaptoRsname_procedures :
    vmeMaptoRsname .PROCEDURES = .ok (lit "procedures") := rfl

end VantiqMicro
