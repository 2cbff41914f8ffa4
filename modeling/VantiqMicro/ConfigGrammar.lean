import Mathlib.Data.List.Induction
import VantiqMicro.Config

/-! # What a configuration file means

The grammar of the file, a line at a time: `setting` is the assignment a line
makes, and a later assignment to a key replaces an earlier one.  `parseLine_eq`
says that one pass of the parser's loop does what the grammar says of the text in
its buffer, and `parseKeysVals_eq` that the parser reads a file as the sequence
of its pieces.

Where every line fits the buffer the pieces are the lines, and the parser
implements the grammar (`vmeParseConfig_grammar`).  A longer line is read as
several, and means what it should only if these happen to assign what the whole
line does (`parseKeysVals_lineLength_iff`). -/

namespace VantiqMicro
open CMem

/-! ## The grammar -/

/-- The names a configuration file can assign to. -/
inductive ConfigKey
  | dpiPort | dpiSocketPath | vantiqUrl | vantiqToken | logLevel
deriving DecidableEq, Repr

namespace ConfigKey

def all : List ConfigKey := [dpiPort, dpiSocketPath, vantiqUrl, vantiqToken, logLevel]

def name : ConfigKey → CString
  | dpiPort => lit "DPIPORT"
  | dpiSocketPath => lit "DPISOCKETPATH"
  | vantiqUrl => lit "VANTIQ_BASEURL"
  | vantiqToken => lit "VANTIQTOKEN"
  | logLevel => lit "LOG_LEVEL"

/-- `t` is the name of the key, in whatever case. -/
def Named (t : Bytes) (k : ConfigKey) : Prop := t.map tolower = k.name.bytes.map tolower

instance (t : Bytes) (k : ConfigKey) : Decidable (Named t k) :=
  inferInstanceAs (Decidable (_ = _))

/-- The key a token names, if it names one. -/
def ofToken (t : Bytes) : Option ConfigKey := all.find? fun k => Named t k

/-- What is kept of a value: a base URL ends in a slash. -/
def value : ConfigKey → Bytes → Bytes
  | vantiqUrl, v => if v.getLast? = some 47 then v else v ++ [47]
  | _, v => v

end ConfigKey

/-- The first run of bytes that are no white space. -/
def token (s : Bytes) : Bytes := (s.dropWhile isspace).takeWhile fun c => !isspace c

/-- An assignment of a value to a key. -/
abbrev Assignment := ConfigKey × Bytes

/-- The assignment a line makes: none when it is a comment, has no `=`, no value
or no key that is known. -/
def setting (line : Bytes) : Option Assignment :=
  if line.head? = some 35 ∨ 61 ∉ line then none
  else
    let key := token (line.takeWhile (· != 61))
    let value := token (line.dropWhile (· != 61)).tail
    if value = [] then none else (ConfigKey.ofToken key).map fun k => (k, k.value value)

/-- The last value assigned to a key. -/
def lastValue (as : List Assignment) (k : ConfigKey) : Option Bytes := as.reverse.lookup k

/-! ## Records -/

namespace VmeConfig
variable {config : VmeConfig} {as : List Assignment} {k : ConfigKey} {v : Bytes}

def get (config : VmeConfig) : ConfigKey → Option Block
  | .dpiPort => config.dpiPort
  | .dpiSocketPath => config.dpiSocketPath
  | .vantiqUrl => config.vantiqUrl
  | .vantiqToken => config.vantiqToken
  | .logLevel => config.logLevel

/-- The field of a key holds a copy of the value. -/
def set (config : VmeConfig) (a : Assignment) : VmeConfig :=
  let copy := some (cells a.2 ++ [some 0])
  match a.1 with
  | .dpiPort => { config with dpiPort := copy }
  | .dpiSocketPath => { config with dpiSocketPath := copy }
  | .vantiqUrl => { config with vantiqUrl := copy }
  | .vantiqToken => { config with vantiqToken := copy }
  | .logLevel => { config with logLevel := copy }

def setAll (config : VmeConfig) (as : List Assignment) : VmeConfig := as.foldl set config

@[simp] theorem get_zero (k : ConfigKey) : zero.get k = none := by
  cases k <;> rfl

@[simp] theorem get_set_self (config : VmeConfig) (k : ConfigKey) (v : Bytes) :
    (config.set (k, v)).get k = some (cells v ++ [some 0]) := by
  cases k <;> rfl

theorem get_set_of_ne {k' : ConfigKey} (h : k' ≠ k) :
    (config.set (k, v)).get k' = config.get k' := by
  cases k <;> cases k' <;> first | rfl | exact absurd rfl h

@[simp] theorem setAll_nil (config : VmeConfig) : config.setAll [] = config := rfl

@[simp] theorem setAll_cons (config : VmeConfig) (a : Assignment) (as : List Assignment) :
    config.setAll (a :: as) = (config.set a).setAll as := rfl

theorem setAll_append (config : VmeConfig) (as bs : List Assignment) :
    config.setAll (as ++ bs) = (config.setAll as).setAll bs := List.foldl_append

/-- The last assignment to a key wins, and other keys stay as they are. -/
theorem get_setAll (config : VmeConfig) (as : List Assignment) (k : ConfigKey) :
    (config.setAll as).get k =
      ((lastValue as k).map fun v => cells v ++ [some 0]).or (config.get k) := by
  induction as using List.reverseRecOn with
  | nil => rfl
  | append_singleton as a ih =>
    obtain ⟨k', v⟩ := a
    rw [setAll_append, setAll_cons, setAll_nil, lastValue, List.reverse_append,
      List.reverse_singleton, List.singleton_append, List.lookup_cons]
    by_cases h : k = k'
    · rw [h, get_set_self]
      simp
    · rw [get_set_of_ne h, ih, beq_eq_false_iff_ne.mpr h]
      rfl

end VmeConfig

/-! ## Keys -/

theorem cmpLoop_eq {s t : Bytes} (hs : 0 ∉ s) (hlen : s.length = t.length) (hne : s ≠ []) :
    cmpLoop (s ++ [0]) (t ++ [0]) = .ok (decide (s.map tolower = t.map tolower)) := by
  induction s generalizing t with
  | nil => exact absurd rfl hne
  | cons c s ih =>
    cases t with
    | nil => cases hlen
    | cons d t =>
      have hlen' : s.length = t.length := Nat.succ.inj hlen
      rw [List.cons_append, List.cons_append, cmpLoop, List.map_cons, List.map_cons]
      by_cases hcd : tolower c = tolower d
      · rw [if_neg (not_not.mpr hcd)]
        cases s with
        | nil =>
          obtain rfl : t = [] := List.length_eq_zero_iff.mp hlen'.symm
          simp [hcd]
        | cons c' s =>
          cases t with
          | nil => cases hlen'
          | cons d' t =>
            have hs' : 0 ∉ c' :: s := fun h => hs (List.mem_cons_of_mem _ h)
            have hc' : c' ≠ 0 := fun h => hs' (h ▸ List.mem_cons_self ..)
            rw [List.cons_append, List.cons_append]
            show (if c' ≠ 0 ∨ d' ≠ 0 then _ else _) = _
            rw [if_pos (Or.inl hc'), ← List.cons_append, ← List.cons_append,
              ih hs' hlen' (List.cons_ne_nil _ _)]
            simp [hcd]
      · rw [if_pos hcd]
        simp [hcd]

/-- `cmp_strings` compares whole strings and lets case pass. -/
theorem cmpStrings_eq {s t : CString} (ht : t.bytes ≠ []) :
    cmpStrings s t = .ok (decide (s.bytes.map tolower = t.bytes.map tolower)) := by
  rw [cmpStrings]
  by_cases hlen : s.length = t.length
  · have hne : s.bytes ≠ [] := by
      intro h
      apply ht
      rw [← List.length_eq_zero_iff]
      have h0 : s.bytes.length = t.bytes.length := hlen
      rw [← h0, h, List.length_nil]
    rw [if_neg (not_not.mpr hlen), cmpLoop_eq s.nulFree hlen hne]
  · rw [if_pos hlen, decide_eq_false]
    intro h
    apply hlen
    simpa [CString.length] using congrArg List.length h

theorem cmpStrings_name (s : CString) (k : ConfigKey) :
    cmpStrings s k.name = .ok (decide (ConfigKey.Named s.bytes k)) := by
  apply cmpStrings_eq
  cases k <;> exact List.cons_ne_nil _ _

theorem copyBaseUrl_eq {v : CString} (hv : v.bytes ≠ []) :
    copyBaseUrl v = .ok (cells (ConfigKey.vantiqUrl.value v.bytes) ++ [some 0]) := by
  obtain ⟨c, hc⟩ := CString.exists_lastChar hv
  have hlast := CString.lastChar_eq_ok.mp hc
  rw [copyBaseUrl, hc, ok_bind, ConfigKey.value, hlast]
  by_cases h47 : c = 47
  · subst h47
    rfl
  have hsome : some c ≠ some (47 : UInt8) := fun h => h47 (Option.some.inj h)
  have h₁ : Block.strcpy (malloc (v.length + 2)) 0 v = .ok (v.toBlock ++ [none]) := by
    rw [Block.strcpy_malloc (by omega)]
    simp [malloc]
  have h₂ : (v.toBlock ++ [none]).store v.length [some 47] =
      .ok (cells v.bytes ++ [some 47, none]) := by
    rw [CString.toBlock, List.append_assoc, CString.length, ← length_cells]
    exact Block.store_byte ..
  have h₃ : (cells v.bytes ++ [some 47, none]).store (v.length + 1) [some 0] =
      .ok (cells v.bytes ++ [some 47, some 0]) := by
    have hlen : v.length + 1 = (cells v.bytes ++ [some (47 : UInt8)]).length := by
      simp [CString.length]
    have hsplit : ∀ x : Cell, cells v.bytes ++ [some 47, x] = (cells v.bytes ++ [some 47]) ++ [x] :=
      fun x => by rw [List.append_assoc]; rfl
    rw [hlen, hsplit, hsplit]
    exact Block.store_byte ..
  rw [if_pos h47, h₁, ok_bind, h₂, ok_bind, h₃, if_neg hsome, cells_append, List.append_assoc]
  rfl

/-- `set_config_param` makes the assignment of a key it knows. -/
theorem setConfigParam_eq (config : VmeConfig) (key : CString) {v : CString}
    (hv : v.bytes ≠ []) : setConfigParam config key v =
      .ok (match ConfigKey.ofToken key.bytes with
        | some k => (1, config.set (k, k.value v.bytes))
        | none => (0, config)) := by
  have hport : DPI_PORT = ConfigKey.dpiPort.name := rfl
  have hpath : DPI_SOCKET_PATH = ConfigKey.dpiSocketPath.name := rfl
  have hurl : VANTIQ_URL = ConfigKey.vantiqUrl.name := rfl
  have htoken : VANTIQ_TOKEN = ConfigKey.vantiqToken.name := rfl
  have hlevel : LOG_LEVEL = ConfigKey.logLevel.name := rfl
  simp only [setConfigParam, hport, hpath, hurl, htoken, hlevel, cmpStrings_name, ok_bind,
    copyBaseUrl_eq hv, ConfigKey.ofToken, ConfigKey.all, List.find?_cons, List.find?_nil,
    decide_eq_true_eq]
  by_cases h₁ : ConfigKey.Named key.bytes .dpiPort
  · simp [h₁, VmeConfig.set, ConfigKey.value, CString.toBlock]
  by_cases h₂ : ConfigKey.Named key.bytes .dpiSocketPath
  · simp [h₁, h₂, VmeConfig.set, ConfigKey.value, CString.toBlock]
  by_cases h₃ : ConfigKey.Named key.bytes .vantiqUrl
  · simp [h₁, h₂, h₃, VmeConfig.set]
  by_cases h₄ : ConfigKey.Named key.bytes .vantiqToken
  · simp [h₁, h₂, h₃, h₄, VmeConfig.set, ConfigKey.value, CString.toBlock]
  by_cases h₅ : ConfigKey.Named key.bytes .logLevel
  · simp [h₁, h₂, h₃, h₄, h₅, VmeConfig.set, ConfigKey.value, CString.toBlock]
  · simp [h₁, h₂, h₃, h₄, h₅]

/-! ## One line -/

section Line
variable {s pre post : Bytes}

/-- In a string the test for the terminator does not matter. -/
theorem takeWhile_and_ne_zero {p : UInt8 → Bool} (hs : 0 ∉ s) :
    s.takeWhile (fun c => p c && c != 0) = s.takeWhile p := by
  induction s with
  | nil => rfl
  | cons c s ih =>
    obtain ⟨hc, hs⟩ := not_or.mp fun h => hs (List.mem_cons.mpr h)
    simp [List.takeWhile_cons, ih hs, Ne.symm hc]

theorem mem_of_mem_token {c : UInt8} (h : c ∈ token s) : c ∈ s :=
  (List.dropWhile_suffix _).subset ((List.takeWhile_prefix _).subset h)

theorem setting_of_comment (h : s.head? = some 35) : setting s = none := if_pos (Or.inl h)

theorem setting_of_not_mem (h : 61 ∉ s) : setting s = none := if_pos (Or.inr h)

/-- What a line with a separator assigns. -/
theorem setting_append (h : (pre ++ 61 :: post).head? ≠ some 35) (hpre : 61 ∉ pre) :
    setting (pre ++ 61 :: post) =
      if token post = [] then none
      else (ConfigKey.ofToken (token pre)).map fun k => (k, k.value (token post)) := by
  have hcond : ¬ ((pre ++ 61 :: post).head? = some 35 ∨ 61 ∉ pre ++ 61 :: post) := by
    rintro (hc | hc)
    · exact h hc
    · exact hc (List.mem_append_right _ (List.mem_cons_self ..))
  rw [setting, if_neg hcond, takeWhile_ne_append hpre, dropWhile_ne_append hpre, List.tail_cons]

/-- What a line assigns is a token of it, or that with a slash. -/
theorem setting_eq_some {k : ConfigKey} {v : Bytes} (h : setting s = some (k, v)) :
    ∃ t, v = k.value t ∧ t ≠ [] ∧ ∀ c ∈ t, c ∈ s := by
  by_cases hc : s.head? = some 35 ∨ 61 ∉ s
  · rw [setting, if_pos hc] at h
    cases h
  rw [setting, if_neg hc] at h
  obtain ⟨hne, h⟩ := Option.ite_none_left_eq_some.mp h
  obtain ⟨k', -, hk⟩ := Option.map_eq_some_iff.mp h
  obtain ⟨rfl, rfl⟩ := Prod.mk.inj hk
  refine ⟨_, rfl, hne, fun c hc => ?_⟩
  exact (List.dropWhile_suffix _).subset (List.mem_of_mem_tail (mem_of_mem_token hc))

theorem findFirst_none {sep : UInt8} (hs : 0 ∉ s) (h : sep ∉ s) (b : Block) :
    findFirst (cells s ++ some 0 :: b) 0 sep = .ok none := by
  have hskip := Block.skipWhile_cells (p := fun c => c != sep && c != 0) (by simp) [] s b
  rw [List.nil_append, List.length_nil, Nat.zero_add, takeWhile_and_ne_zero hs,
    takeWhile_ne_of_not_mem h] at hskip
  rw [findFirst, hskip, ok_bind, ← length_cells s, Block.byte_append]
  rfl

/-- `find_first` stops at the first separator. -/
theorem findFirst_some {sep : UInt8} (hs : 0 ∉ pre ++ sep :: post) (h : sep ∉ pre) (b : Block) :
    findFirst (cells (pre ++ sep :: post) ++ some 0 :: b) 0 sep = .ok (some pre.length) := by
  have hsep : sep ≠ 0 := by
    rintro rfl
    exact hs (List.mem_append_right _ (List.mem_cons_self ..))
  have hskip := Block.skipWhile_cells (p := fun c => c != sep && c != 0) (by simp) []
    (pre ++ sep :: post) b
  rw [List.nil_append, List.length_nil, Nat.zero_add, takeWhile_and_ne_zero hs,
    takeWhile_ne_append h] at hskip
  have hbyte : (cells (pre ++ sep :: post) ++ some 0 :: b).byte pre.length = .ok sep := by
    rw [cells_append, List.append_assoc, ← length_cells pre]
    exact Block.byte_append ..
  rw [findFirst, hskip, ok_bind, hbyte, ok_bind, if_neg hsep]
  rfl

/-- `remove_spaces` leaves the token where it lies, terminated, and touches
nothing before the string or after it. -/
theorem removeSpaces_eq (hs : 0 ∉ s) (a b : Block) :
    ∃ blank junk : Block, removeSpaces (a ++ (cells s ++ some 0 :: b)) a.length =
        .ok (a.length + blank.length,
          a ++ (blank ++ (cells (token s) ++ some 0 :: (junk ++ b)))) ∧
      blank.length + ((token s).length + junk.length) = s.length := by
  have hspace : s.takeWhile isspace ++ s.dropWhile isspace = s := List.takeWhile_append_dropWhile
  generalize hr : s.dropWhile isspace = r at hspace
  generalize hw : s.takeWhile isspace = w at hspace
  have hr0 : 0 ∉ r := fun h => hs (hspace ▸ List.mem_append_right _ h)
  have htoken : token s = r.takeWhile fun c => !isspace c := by rw [token, hr]
  generalize ht : token s = t at htoken
  obtain ⟨tail, htail⟩ : t <+: r := htoken ▸ List.takeWhile_prefix _
  -- the two walks
  have hfirst : Block.skipWhile isspace (a ++ (cells s ++ some 0 :: b)) a.length =
      .ok (a.length + w.length) := by
    rw [Block.skipWhile_cells (by decide), hw]
  have hsecond : Block.skipWhile (fun c => !isspace c && c != 0)
      (a ++ (cells s ++ some 0 :: b)) (a.length + w.length) =
        .ok (a.length + w.length + t.length) := by
    have hskip := Block.skipWhile_cells (p := fun c => !isspace c && c != 0) (by decide)
      (a ++ cells w) r b
    rw [takeWhile_and_ne_zero hr0, ← htoken, List.length_append, length_cells] at hskip
    rw [← hspace, cells_append, List.append_assoc, ← List.append_assoc]
    exact hskip
  -- the terminator goes over what follows the token
  obtain ⟨x, junk, hx⟩ : ∃ x junk, cells tail ++ [some 0] = x :: junk :=
    List.exists_cons_of_ne_nil (by simp)
  have hstore : (a ++ (cells s ++ some 0 :: b)).store (a.length + w.length + t.length) [some 0] =
      .ok (a ++ (cells w ++ (cells t ++ some 0 :: (junk ++ b)))) := by
    have hblock : a ++ (cells s ++ some 0 :: b) =
        (a ++ cells w ++ cells t) ++ x :: (junk ++ b) := by
      have hcons : cells tail ++ some 0 :: b = x :: (junk ++ b) := by
        rw [← List.cons_append, ← hx, List.append_assoc]
        rfl
      rw [← hspace, ← htail, cells_append, cells_append, List.append_assoc, List.append_assoc,
        hcons, ← List.append_assoc, ← List.append_assoc]
    have hlen : a.length + w.length + t.length = (a ++ cells w ++ cells t).length := by
      rw [List.length_append, List.length_append, length_cells, length_cells]
    rw [hblock, hlen, Block.store_byte]
    simp
  refine ⟨cells w, junk, ?_, ?_⟩
  · rw [removeSpaces, hfirst, ok_bind, hsecond, ok_bind, hstore, length_cells]
    rfl
  · have hjunk : junk.length = tail.length := by
      have := congrArg List.length hx
      simpa using this.symm
    have hlen : s.length = w.length + (t.length + tail.length) := by
      rw [← hspace, ← htail, List.length_append, List.length_append]
    rw [length_cells, hjunk, hlen]

theorem readString_token (hs : 0 ∉ s) (b : Block) :
    Block.readString (cells (token s) ++ some 0 :: b) =
      .ok ⟨token s, fun h => hs (mem_of_mem_token h)⟩ :=
  Block.readString_eq_ok.mpr (Block.stringBytes_cells_append (fun h => hs (mem_of_mem_token h)) b)

/-- The key is trimmed, then the value, which starts right after the first terminator:
both tokens can be read where they lie, and the buffer keeps its size. -/
theorem removeSpaces_twice (hpre : 0 ∉ pre) (hpost : 0 ∉ post) (b : Block) :
    ∃ (key value : Nat) (mid last : Block),
      removeSpaces (cells pre ++ some 0 :: (cells post ++ some 0 :: b)) 0 = .ok (key, mid) ∧
      removeSpaces mid (pre.length + 1) = .ok (value, last) ∧
      Block.readString (last.drop key) = .ok ⟨token pre, fun h => hpre (mem_of_mem_token h)⟩ ∧
      Block.readString (last.drop value) = .ok ⟨token post, fun h => hpost (mem_of_mem_token h)⟩ ∧
      last.length = pre.length + 1 + (post.length + (b.length + 1)) := by
  obtain ⟨blank₁, junk₁, hkey, hlen₁⟩ := removeSpaces_eq hpre [] (cells post ++ some 0 :: b)
  -- what is in front of the value after the first trim
  obtain ⟨front, hfront⟩ : ∃ front, front = blank₁ ++ (cells (token pre) ++ some 0 :: junk₁) :=
    ⟨_, rfl⟩
  have hfrontlen : front.length = pre.length + 1 := by
    simp only [hfront, List.length_append, List.length_cons, length_cells]
    omega
  obtain ⟨blank₂, junk₂, hvalue, hlen₂⟩ := removeSpaces_eq hpost front b
  rw [hfrontlen] at hvalue
  refine ⟨blank₁.length, _, front ++ (cells post ++ some 0 :: b), _, ?_, hvalue, ?_, ?_, ?_⟩
  · simpa [hfront] using hkey
  · rw [hfront, List.append_assoc, List.drop_left, List.append_assoc, List.cons_append]
    exact readString_token hpre _
  · rw [← hfrontlen, ← List.drop_drop, List.drop_left, List.drop_left]
    exact readString_token hpost _
  · simp only [List.length_append, List.length_cons, length_cells, hfrontlen]
    omega

/-- The first byte of a string that is no comment is not the comment sign. -/
theorem byte_zero (h : s.head? ≠ some 35) (b : Block) :
    ∃ c, (cells s ++ some 0 :: b).byte 0 = .ok c ∧ c ≠ 35 := by
  cases s with
  | nil => exact ⟨0, rfl, by decide⟩
  | cons c s => exact ⟨c, rfl, fun hc => h (congrArg some hc)⟩

/-- What a pass does with a line that has a separator and is no comment. -/
theorem parseLine_append (hs : 0 ∉ pre ++ 61 :: post) (hpre : 61 ∉ pre)
    (h : (pre ++ 61 :: post).head? ≠ some 35) (b : Block) (config : VmeConfig) :
    ∃ b' : Block, parseLine (cells (pre ++ 61 :: post) ++ some 0 :: b) config =
        .ok ((setting (pre ++ 61 :: post)).toList.length, b',
          config.setAll (setting (pre ++ 61 :: post)).toList) ∧
      b'.length = (cells (pre ++ 61 :: post) ++ some 0 :: b).length := by
  have hs₁ : 0 ∉ pre := fun hm => hs (List.mem_append_left _ hm)
  have hs₂ : 0 ∉ post := fun hm => hs (List.mem_append_right _ (List.mem_cons_of_mem _ hm))
  have hsplit : cells (pre ++ 61 :: post) ++ some 0 :: b =
      cells pre ++ some 61 :: (cells post ++ some 0 :: b) := by
    rw [cells_append, cells_cons, List.append_assoc, List.cons_append]
  obtain ⟨c, hbyte, hc⟩ := byte_zero h b
  have hsep : (cells (pre ++ 61 :: post) ++ some 0 :: b).byte pre.length = .ok 61 := by
    rw [hsplit, ← length_cells pre]
    exact Block.byte_append ..
  have hstore : (cells (pre ++ 61 :: post) ++ some 0 :: b).store pre.length [some 0] =
      .ok (cells pre ++ some 0 :: (cells post ++ some 0 :: b)) := by
    rw [hsplit, ← length_cells pre]
    exact Block.store_byte ..
  obtain ⟨key, value, mid, last, hkey, hvalue, hname, htext, hlen⟩ := removeSpaces_twice hs₁ hs₂ b
  refine ⟨last, ?_, ?_⟩
  · rw [parseLine, hbyte, ok_bind, if_neg hc, findFirst_some hs hpre, ok_bind,
      setting_append h hpre]
    simp only [hsep, hstore, hkey, hvalue, htext, hname, ok_bind, ne_eq, not_true_eq_false,
      if_false]
    by_cases hnil : token post = []
    · simp [hnil, CString.length]
    have hpos : ¬ CString.length ⟨token post, fun hm => hs₂ (mem_of_mem_token hm)⟩ = 0 :=
      fun h0 => hnil (List.length_eq_zero_iff.mp h0)
    rw [if_neg hpos, if_neg hnil, setConfigParam_eq config _ hnil, ok_bind]
    cases ConfigKey.ofToken (token pre) with
    | none => rfl
    | some k => rfl
  · rw [hlen, hsplit]
    simp only [List.length_append, List.length_cons, length_cells]
    omega

/-- **One pass of the loop makes the assignment of the line in the buffer**, and
leaves a buffer of the same size. -/
theorem parseLine_eq (hs : 0 ∉ s) (b : Block) (config : VmeConfig) :
    ∃ b' : Block, parseLine (cells s ++ some 0 :: b) config =
        .ok ((setting s).toList.length, b', config.setAll (setting s).toList) ∧
      b'.length = (cells s ++ some 0 :: b).length := by
  by_cases h : s.head? = some 35
  · refine ⟨_, ?_, rfl⟩
    obtain ⟨s, rfl⟩ : ∃ t, s = 35 :: t := List.head?_eq_some_iff.mp h
    rw [setting_of_comment h]
    rfl
  by_cases hmem : 61 ∈ s
  · obtain ⟨pre, post, rfl, hpre⟩ := List.eq_append_cons_of_mem hmem
    exact parseLine_append hs hpre h b config
  · refine ⟨_, ?_, rfl⟩
    obtain ⟨c, hbyte, hc⟩ := byte_zero h b
    rw [parseLine, hbyte, ok_bind, if_neg hc, findFirst_none hs hmem, ok_bind,
      setting_of_not_mem hmem]
    rfl

end Line

/-! ## Whole files -/

/-- The C string that `s` and a terminator hold. -/
def text (s : Bytes) : Bytes := s.takeWhile (· != 0)

/-- The assignments the parser makes when it reads `file`: it goes by the pieces
that fit its buffer, each up to its first zero. -/
def assigned (file : Bytes) : List Assignment :=
  (pieces (MAXLINELENGTH - 1) file).filterMap fun p => setting (text p)

section File
variable {file line piece : Bytes}

theorem cells_text (s : Bytes) (b : Block) :
    ∃ b' : Block, cells s ++ some 0 :: b = cells (text s) ++ some 0 :: b' := by
  induction s with
  | nil => exact ⟨b, rfl⟩
  | cons c s ih =>
    by_cases hc : c = 0
    · exact ⟨cells s ++ some 0 :: b, by simp [text, hc, cells_cons]⟩
    · obtain ⟨b', hb'⟩ := ih
      refine ⟨b', ?_⟩
      have htext : text (c :: s) = c :: text s := List.takeWhile_cons_of_pos (bne_iff_ne.mpr hc)
      rw [htext, cells_cons, cells_cons, List.cons_append, List.cons_append, hb']

theorem assigned_of_mem_lines (h : line ∈ lines file) :
    assigned line = (chunks (MAXLINELENGTH - 1) line).filterMap fun p => setting (text p) := by
  rw [assigned, pieces_of_mem_lines h]

/-- The assignments of a file are those of its lines, in order. -/
theorem assigned_eq_flatMap (file : Bytes) : assigned file = (lines file).flatMap assigned := by
  rw [assigned, pieces, List.filterMap_flatMap]
  exact List.flatMap_congr fun l hl => (assigned_of_mem_lines hl).symm

theorem parseLoop_nil (buffer : Block) (config : VmeConfig) (n : Nat) :
    parseLoop [] buffer config n = .ok (n, config) := by
  rw [parseLoop]
  rfl

/-- The assignments of a file are that of its first piece and those of what the
piece leaves. -/
theorem assigned_of_ne_nil (h : file ≠ [])
    (hpiece : piece = uptoNewline (file.take (MAXLINELENGTH - 1))) :
    assigned file = (setting (text piece)).toList ++ assigned (file.drop piece.length) := by
  rw [assigned, pieces_cons (by decide : 0 < MAXLINELENGTH - 1) h, ← hpiece, List.filterMap_cons,
    ← assigned]
  cases setting (text piece) <;> rfl

/-- One turn of the loop: a piece is read, and what it assigns is assigned. -/
theorem parseLoop_of_ne_nil {buffer : Block} (hb : buffer.length = MAXLINELENGTH)
    (h : file ≠ []) (hpiece : piece = uptoNewline (file.take (MAXLINELENGTH - 1)))
    (config : VmeConfig) (n : Nat) :
    ∃ buffer' : Block, buffer'.length = MAXLINELENGTH ∧
      parseLoop file buffer config n =
        parseLoop (file.drop piece.length) buffer' (config.setAll (setting (text piece)).toList)
          (n + (setting (text piece)).toList.length) := by
  obtain ⟨tail, hread, hlen⟩ := fgets_of_ne_nil hb (by decide) h
  rw [← hpiece] at hread hlen
  obtain ⟨b, hb'⟩ := cells_text piece tail
  rw [hb'] at hread hlen
  obtain ⟨buffer', hline, hlen'⟩ := parseLine_eq (nulFree_takeWhile piece) b config
  refine ⟨buffer', hlen'.trans hlen, ?_⟩
  rw [parseLoop]
  split
  · rename_i heq
    rw [hread] at heq
    cases heq
  · rename_i heq
    rw [hread] at heq
    cases heq
  · rename_i heq
    rw [hread] at heq
    cases heq
    simp only [text, hline]

theorem parseLoop_eq (file : Bytes) {buffer : Block} (hb : buffer.length = MAXLINELENGTH)
    (config : VmeConfig) (n : Nat) :
    parseLoop file buffer config n =
      .ok (n + (assigned file).length, config.setAll (assigned file)) := by
  induction hk : file.length using Nat.strong_induction_on generalizing file buffer config n with
  | _ k ih =>
    by_cases h : file = []
    · rw [h, parseLoop_nil]
      rfl
    obtain ⟨piece, hpiece⟩ : ∃ p, p = uptoNewline (file.take (MAXLINELENGTH - 1)) := ⟨_, rfl⟩
    obtain ⟨buffer', hb', hturn⟩ := parseLoop_of_ne_nil hb h hpiece config n
    have hpos : 0 < piece.length := by
      rw [hpiece, uptoNewline_take, List.length_take]
      exact Nat.lt_min.mpr ⟨by decide, List.length_pos_iff.mpr (uptoNewline_ne_nil h)⟩
    have hshort : (file.drop piece.length).length < k := by
      rw [List.length_drop, ← hk]
      exact Nat.sub_lt (List.length_pos_iff.mpr h) hpos
    rw [hturn, ih _ hshort _ hb' _ _ rfl, assigned_of_ne_nil h hpiece, List.length_append,
      VmeConfig.setAll_append, Nat.add_assoc]

/-- **The parser makes the assignments of the pieces in order, and counts them.** -/
theorem parseKeysVals_eq (file : Bytes) (config : VmeConfig) :
    parseKeysVals file config = .ok ((assigned file).length, config.setAll (assigned file)) := by
  rw [parseKeysVals, parseLoop_eq file (length_malloc _), Nat.zero_add]

/-- What a file leaves: the number of its assignments, the last value of each
key, and the log level it names or `LOG_WARN`. -/
theorem vmeParseConfig_eq (level : Nat) (file : Bytes) :
    vmeParseConfig level (some file) =
      .ok (toInt (assigned file).length, VmeConfig.zero.setAll (assigned file),
        match lastValue (assigned file) .logLevel with
        | some v => vmeSetLogLevel level ⟨text v, nulFree_takeWhile v⟩
        | none => LOG_WARN) := by
  have hlevel := VmeConfig.get_setAll .zero (assigned file) .logLevel
  rw [VmeConfig.get_zero, Option.or_none, VmeConfig.get] at hlevel
  simp only [vmeParseConfig, parseKeysVals_eq, ok_bind, hlevel]
  cases lastValue (assigned file) .logLevel with
  | none => rfl
  | some v =>
    have hread : Block.readString (cells v ++ [some 0]) = .ok ⟨text v, nulFree_takeWhile v⟩ :=
      Block.readString_eq_ok.mpr (Block.stringBytes_cells_zero v [])
    simp only [Option.map_some, hread, ok_bind]
    rfl

/-- A value assigned comes from a token without a zero. -/
theorem token_of_lastValue {k : ConfigKey} {v : Bytes} (h : lastValue (assigned file) k = some v) :
    ∃ t, v = k.value t ∧ t ≠ [] ∧ 0 ∉ t := by
  obtain ⟨l, l', hsplit, -⟩ := List.lookup_eq_some_iff.mp h
  have hmem : (k, v) ∈ assigned file := by
    rw [← List.mem_reverse, hsplit]
    exact List.mem_append_right _ (List.mem_cons_self ..)
  obtain ⟨piece, -, hset⟩ := List.mem_filterMap.mp hmem
  obtain ⟨t, hv, hne, hsub⟩ := setting_eq_some hset
  exact ⟨t, hv, hne, fun h0 => nulFree_takeWhile piece (hsub 0 h0)⟩

theorem ConfigKey.nulFree_value {t : Bytes} (k : ConfigKey) (h : 0 ∉ t) : 0 ∉ k.value t := by
  cases k with
  | vantiqUrl =>
    rw [value]
    split
    · exact h
    · simpa using h
  | dpiPort | dpiSocketPath | vantiqToken | logLevel => exact h

/-- What a file assigns is read back whole. -/
theorem text_of_lastValue {k : ConfigKey} {v : Bytes} (h : lastValue (assigned file) k = some v) :
    text v = v := by
  obtain ⟨t, rfl, -, h0⟩ := token_of_lastValue h
  exact takeWhile_ne_of_not_mem (k.nulFree_value h0)

end File

/-! ## Lines that fit -/

theorem mem_of_mem_lines {file l : Bytes} {c : UInt8} (hl : l ∈ lines file) (hc : c ∈ l) :
    c ∈ file := by
  rw [← flatten_lines file]
  exact List.mem_flatten.mpr ⟨l, hl, hc⟩

/-- Whether the lines fit can be computed. -/
theorem fits_of_all {file : Bytes}
    (h : (lines file).all (fun l => l.length < MAXLINELENGTH) = true) :
    ∀ l ∈ lines file, l.length < MAXLINELENGTH := by
  intro l hl
  exact of_decide_eq_true (List.all_eq_true.mp h l hl)

/-- When every line fits, the assignments made are those the lines mean. -/
theorem assigned_eq_filterMap {file : Bytes} (h0 : 0 ∉ file)
    (hfit : ∀ l ∈ lines file, l.length < MAXLINELENGTH) :
    assigned file = (lines file).filterMap setting := by
  have hle : ∀ l ∈ lines file, l.length ≤ MAXLINELENGTH - 1 :=
    fun l hl => Nat.le_sub_one_of_lt (hfit l hl)
  rw [assigned, pieces_eq_lines hle]
  apply List.filterMap_congr
  intro l hl
  rw [text, takeWhile_ne_of_not_mem fun hc => h0 (mem_of_mem_lines hl hc)]

/-- **The parser implements the grammar of the file.**  It returns the number of
lines that assign to a key it knows, if an `int` counts that far, and each field holds
a copy of the last value its key is given, or `NULL`. -/
theorem vmeParseConfig_grammar (level : Nat) (file : Bytes) (h0 : 0 ∉ file)
    (hfit : ∀ l ∈ lines file, l.length < MAXLINELENGTH) :
    ∃ n config level', vmeParseConfig level (some file) = .ok (n, config, level') ∧
      (((lines file).filterMap setting).length ≤ INT_MAX →
        n = ((lines file).filterMap setting).length) ∧
      ∀ k, config.get k = (lastValue ((lines file).filterMap setting) k).map
        fun v => cells v ++ [some 0] := by
  have hassigned := assigned_eq_filterMap h0 hfit
  refine ⟨_, _, _, (vmeParseConfig_eq level file).trans (by rw [hassigned]), toInt_of_le, ?_⟩
  intro k
  rw [VmeConfig.get_setAll, VmeConfig.get_zero, Option.or_none]

/-- A comment, a key in lower case after a blank, a URL without a slash, a value
with a separator in it, a key given twice and no newline at the end. -/
def sampleConfig : Bytes :=
  ascii "#DPIPORT = 1\n dpiport=2\nVANTIQ_BASEURL = h\nVANTIQTOKEN=a=b c\r\nDPIPORT = 3"

theorem vmeParseConfig_grammar_sample :
    ∃ n config level', vmeParseConfig 0 (some sampleConfig) = .ok (n, config, level') ∧ n = 4 ∧
      config.dpiPort = some (cells (ascii "3") ++ [some 0]) ∧
      config.vantiqUrl = some (cells (ascii "h/") ++ [some 0]) ∧
      config.vantiqToken = some (cells (ascii "a=b") ++ [some 0]) ∧
      config.logLevel = none := by
  obtain ⟨n, config, level', hparse, hcount, hget⟩ :=
    vmeParseConfig_grammar 0 sampleConfig (by decide) (fits_of_all rfl)
  have hfour : ((lines sampleConfig).filterMap setting).length = 4 := by decide
  rw [hfour] at hcount
  exact ⟨n, config, level', hparse, hcount (by decide), hget .dpiPort, hget .vantiqUrl,
    hget .vantiqToken, hget .logLevel⟩

/-! ## Lines of any length -/

/-- Reading the line does to every record what the line means, however long it
is: a comment assigns nothing, and an assignment is made once, with its whole
value. -/
def ReadWhole (line : Bytes) : Prop :=
  ∀ config, parseKeysVals line config =
    .ok ((setting line).toList.length, config.setAll (setting line).toList)

/-- A further line is read. -/
def readLine (acc : Nat × VmeConfig) (line : Bytes) : Except Fault (Nat × VmeConfig) := do
  let (n, config) ← parseKeysVals line acc.2
  return (acc.1 + n, config)

/-- Lines read one after another make their assignments in order. -/
theorem foldlM_readLine (ls : List Bytes) (n : Nat) (config : VmeConfig) :
    ls.foldlM readLine (n, config) =
      .ok (n + (ls.flatMap assigned).length, config.setAll (ls.flatMap assigned)) := by
  induction ls generalizing n config with
  | nil => rfl
  | cons l ls ih =>
    have hl : readLine (n, config) l =
        .ok (n + (assigned l).length, config.setAll (assigned l)) := by
      rw [readLine, parseKeysVals_eq]
      rfl
    rw [List.foldlM_cons, hl, ok_bind, ih, List.flatMap_cons, List.length_append,
      VmeConfig.setAll_append, Nat.add_assoc]

theorem parseKeysVals_eq_foldlM (file : Bytes) (config : VmeConfig) :
    parseKeysVals file config = (lines file).foldlM readLine (0, config) := by
  rw [parseKeysVals_eq, foldlM_readLine, Nat.zero_add, ← assigned_eq_flatMap]

/-- The record shows which assignment was made. -/
theorem VmeConfig.set_zero_injective {a b : Assignment} (h : zero.set a = zero.set b) : a = b := by
  obtain ⟨k, v⟩ := a
  obtain ⟨k', v'⟩ := b
  have hget : (zero.set (k, v)).get k = (zero.set (k', v')).get k := by rw [h]
  by_cases hk : k = k'
  · subst hk
    rw [get_set_self, get_set_self, Option.some.injEq] at hget
    rw [cells_injective (List.append_cancel_right hget)]
  · rw [get_set_self, get_set_of_ne hk, get_zero] at hget
    cases hget

/-- A line is read whole exactly when its pieces assign what it means. -/
theorem readWhole_iff (line : Bytes) :
    ReadWhole line ↔ assigned line = (setting line).toList := by
  constructor
  · intro h
    have hzero := h .zero
    rw [parseKeysVals_eq, Except.ok.injEq, Prod.mk.injEq] at hzero
    obtain ⟨hlen, hset⟩ := hzero
    cases hs : setting line with
    | none =>
      rw [hs] at hlen
      exact List.length_eq_zero_iff.mp hlen
    | some b =>
      rw [hs] at hlen hset
      obtain ⟨a, ha⟩ := List.length_eq_one_iff.mp hlen
      rw [ha] at hset ⊢
      rw [VmeConfig.set_zero_injective hset]
      rfl
  · intro h config
    rw [parseKeysVals_eq, h]

/-- **When the length of a line changes nothing.**  A file is read line after
line; every line means to the parser what it means by itself exactly when its
pieces, each up to its first zero, assign what the whole line does. -/
theorem parseKeysVals_lineLength_iff (file : Bytes) :
    (∀ config, parseKeysVals file config = (lines file).foldlM readLine (0, config)) ∧
    ((∀ l ∈ lines file, ReadWhole l) ↔ ∀ l ∈ lines file,
      (chunks (MAXLINELENGTH - 1) l).filterMap (fun p => setting (text p)) =
        (setting l).toList) := by
  refine ⟨parseKeysVals_eq_foldlM file, forall₂_congr ?_⟩
  intro l hl
  rw [readWhole_iff, assigned_of_mem_lines hl]

/-- A comment as long as the buffer takes, with a setting right after. -/
def longComment : Bytes := 35 :: List.replicate 1022 97 ++ ascii "VANTIQTOKEN=x\n"

/-- The comment is one line, and reading it sets the token. -/
theorem longComment_sets_token :
    lines longComment = [longComment] ∧ longComment.head? = some 35 ∧
    parseKeysVals longComment .zero =
      .ok (1, { VmeConfig.zero with vantiqToken := some (cells (ascii "x") ++ [some 0]) }) ∧
    ¬ ∀ l ∈ lines longComment, ReadWhole l := by
  have hlines : lines longComment = [longComment] := by
    have hnl : (10 : UInt8) ∉ 35 :: List.replicate 1022 97 ++ ascii "VANTIQTOKEN=x" := by
      rw [List.mem_append, List.mem_cons, List.mem_replicate]
      decide
    have hsplit : longComment = 35 :: List.replicate 1022 97 ++ ascii "VANTIQTOKEN=x" ++ [10] := by
      rw [List.append_assoc]
      rfl
    rw [hsplit]
    exact lines_append_newline hnl
  have hmem : longComment ∈ lines longComment := hlines ▸ List.mem_singleton_self _
  -- the first piece is a comment, the second sets the token
  have hassigned : assigned longComment = [(.vantiqToken, ascii "x")] := by
    have hlen : (35 :: List.replicate 1022 97 : Bytes).length = MAXLINELENGTH - 1 := by
      rw [List.length_cons, List.length_replicate]
      rfl
    have hne : longComment ≠ [] := List.cons_ne_nil _ _
    have hpos : 0 < MAXLINELENGTH - 1 := by decide
    have hrest : chunks (MAXLINELENGTH - 1) (ascii "VANTIQTOKEN=x\n") = [ascii "VANTIQTOKEN=x\n"] :=
      chunks_of_length_le (List.cons_ne_nil _ _) (by decide)
    rw [assigned_of_mem_lines hmem, chunks_of_ne_nil hpos hne, longComment, List.take_left' hlen,
      List.drop_left' hlen, hrest, List.filterMap_cons]
    rfl
  refine ⟨hlines, rfl, ?_, ?_⟩
  · rw [parseKeysVals_eq, hassigned]
    rfl
  · intro h
    have hwhole := (readWhole_iff longComment).mp (h longComment hmem)
    rw [hassigned, setting_of_comment rfl] at hwhole
    cases hwhole

end VantiqMicro
