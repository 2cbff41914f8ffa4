import VantiqMicro.ConfigGrammar

/-! # The log level a file leaves

`vme_parse_config` sets the level to `LOG_WARN` when the file names none, and else
leaves it to `vme_set_log_level`, which looks for the name among the first five and
does nothing if it is not there.  So a name that is misspelt, and `FATAL`, leave the
level that was in force (`logLevel_documented_iff`). -/

namespace VantiqMicro
open CMem

/-- The level of a documented name; `LOG_WARN` for another, or for none. -/
def documentedLevel : Option Bytes → Nat
  | some v => (levelNames.findIdx? fun name => name.bytes = v).getD LOG_WARN
  | none => LOG_WARN

/-- No level is named, or one that `vme_set_log_level` looks for. -/
def Settles (v : Option Bytes) : Prop :=
  v = none ∨ ∃ name ∈ levelNames.take (LOG_ERROR + 1), v = some name.bytes

section Level
variable {file v : Bytes}

/-- Of the documented names `vme_set_log_level` does not look for the last. -/
theorem documentedLevel_eq (name : CString) :
    documentedLevel (some name.bytes) =
      (((levelNames.take (LOG_ERROR + 1)).findIdx? (· = name)).or
        (if lit "FATAL" = name then some 5 else none)).getD LOG_WARN := by
  have hsplit : levelNames = levelNames.take (LOG_ERROR + 1) ++ [lit "FATAL"] := rfl
  have hlen : (levelNames.take (LOG_ERROR + 1)).length = 5 := rfl
  have hsame : (fun n : CString => decide (n.bytes = name.bytes)) = fun n => decide (n = name) := by
    funext n
    exact decide_eq_decide.mpr CString.ext_iff.symm
  rw [documentedLevel, hsame, hsplit, List.findIdx?_append, hlen, ← hsplit]
  by_cases h : lit "FATAL" = name <;> simp [h]

/-- **When a name decides the level by itself**, and which one. -/
theorem vmeSetLogLevel_eq_iff (name : CString) (l : Nat) :
    (∀ level, vmeSetLogLevel level name = l) ↔
      Settles (some name.bytes) ∧ documentedLevel (some name.bytes) = l := by
  have hset : Settles (some name.bytes) ↔ name ∈ levelNames.take (LOG_ERROR + 1) := by
    constructor
    · rintro (h | ⟨n, hn, heq⟩)
      · cases h
      · rwa [CString.ext (Option.some.inj heq)]
    · exact fun h => Or.inr ⟨name, h, rfl⟩
  rw [hset, documentedLevel_eq]
  simp only [vmeSetLogLevel]
  cases hfind : (levelNames.take (LOG_ERROR + 1)).findIdx? (· = name) with
  | some i =>
    have hmem : name ∈ levelNames.take (LOG_ERROR + 1) := by
      have hsome := congrArg Option.isSome hfind
      rw [List.findIdx?_isSome, List.any_eq] at hsome
      obtain ⟨n, hn, heq⟩ := of_decide_eq_true hsome
      rwa [← of_decide_eq_true heq]
    simp [hmem]
  | none =>
    have hmem : name ∉ levelNames.take (LOG_ERROR + 1) := by
      intro hmem
      have hnone := List.findIdx?_eq_none_iff.mp hfind name hmem
      simp at hnone
    refine iff_of_false ?_ fun h => hmem h.1
    -- whatever level is asked for, another one stays
    intro hall
    exact absurd (hall (l + 1)) (Nat.succ_ne_self l)

/-- When a file leaves a level whatever level was in force. -/
theorem vmeParseConfig_level_iff (file : Bytes) (l : Nat) :
    (∀ level, ∃ n config, vmeParseConfig level (some file) = .ok (n, config, l)) ↔
      Settles (lastValue (assigned file) .logLevel) ∧
        documentedLevel (lastValue (assigned file) .logLevel) = l := by
  simp only [vmeParseConfig_eq, Except.ok.injEq, Prod.mk.injEq, exists_and_left, exists_eq_left']
  cases hlast : lastValue (assigned file) .logLevel with
  | none =>
    constructor
    · intro hall
      exact ⟨Or.inl rfl, by simpa [documentedLevel] using hall 0⟩
    · rintro ⟨-, rfl⟩ level
      simp [documentedLevel]
  | some v =>
    have hiff := vmeSetLogLevel_eq_iff ⟨text v, nulFree_takeWhile v⟩ l
    simp only [text_of_lastValue hlast] at hiff
    simpa [text_of_lastValue hlast] using hiff

end Level

/-! ## Which files settle the level -/

/-- **When the level after loading is the documented one, whatever was in force.**
The last assignment of a level among the file's pieces, if there is one, must name one up
to `ERROR`, and be that of the file's lines. -/
theorem logLevel_documented_iff (file : Bytes) :
    (∀ level, ∃ n config, vmeParseConfig level (some file) =
        .ok (n, config, documentedLevel (lastValue ((lines file).filterMap setting) .logLevel))) ↔
      Settles (lastValue (assigned file) .logLevel) ∧
        documentedLevel (lastValue (assigned file) .logLevel) =
          documentedLevel (lastValue ((lines file).filterMap setting) .logLevel) :=
  vmeParseConfig_level_iff file _

def fatalConfig : Bytes := ascii "LOG_LEVEL=FATAL\n"

/-- `FATAL` is documented, and a file that names it leaves the level as it was. -/
theorem logLevel_fatal_kept :
    (lines fatalConfig).filterMap setting = [(.logLevel, ascii "FATAL")] ∧
    documentedLevel (some (ascii "FATAL")) = 5 ∧
    (∀ level, vmeParseConfig level (some fatalConfig) =
      .ok (1, { VmeConfig.zero with logLevel := some (cells (ascii "FATAL") ++ [some 0]) },
        level)) ∧
    ¬ ∀ level, ∃ n config, vmeParseConfig level (some fatalConfig) =
      .ok (n, config,
        documentedLevel (lastValue ((lines fatalConfig).filterMap setting) .logLevel)) := by
  have hlines : (lines fatalConfig).filterMap setting = [(.logLevel, ascii "FATAL")] := by decide
  have hassigned : assigned fatalConfig = _ :=
    assigned_eq_filterMap (by decide) (fits_of_all rfl)
  rw [hlines] at hassigned
  have hkept : ∀ level, vmeParseConfig level (some fatalConfig) =
      .ok (1, { VmeConfig.zero with logLevel := some (cells (ascii "FATAL") ++ [some 0]) },
        level) := by
    intro level
    rw [vmeParseConfig_eq, hassigned]
    rfl
  refine ⟨hlines, rfl, hkept, ?_⟩
  intro hall
  obtain ⟨n, config, hparse⟩ := hall LOG_WARN
  rw [hkept, hlines] at hparse
  cases hparse

/-- Where the lines fit the buffer, the name decides alone. -/
theorem vmeParseConfig_level_of_fits {file : Bytes} (h0 : 0 ∉ file)
    (hfit : ∀ l ∈ lines file, l.length < MAXLINELENGTH)
    (hsettles : Settles (lastValue ((lines file).filterMap setting) .logLevel)) (level : Nat) :
    ∃ n config, vmeParseConfig level (some file) =
      .ok (n, config, documentedLevel (lastValue ((lines file).filterMap setting) .logLevel)) := by
  have hread := vmeParseConfig_level_iff file
    (documentedLevel (lastValue ((lines file).filterMap setting) .logLevel))
  rw [assigned_eq_filterMap h0 hfit] at hread
  exact hread.mpr ⟨hsettles, rfl⟩ level

end VantiqMicro
