import VantiqMicro.Ctype
import VantiqMicro.Stdio

/-! # The configuration file (`config.c`)

`parseKeysVals` reads the file into one buffer of `MAXLINELENGTH` bytes and cuts
each line up where it lies: a terminator goes over the separator and, by
`remove_spaces`, over the first white space after the key and after the value.
What is kept of a line are copies, so the record outlives the buffer.

`parseLine` is one pass of the loop.  The lines that set something are counted in an
`int`, which holds their number up to `INT_MAX`. -/

namespace VantiqMicro
open CMem

/-- `vmeconfig_t`. -/
structure VmeConfig where
  dpiPort : Option Block
  dpiSocketPath : Option Block
  vantiqUrl : Option Block
  vantiqToken : Option Block
  logLevel : Option Block
deriving DecidableEq, Repr

/-- After `memset(config, 0, sizeof(vmeconfig_t))`. -/
def VmeConfig.zero : VmeConfig := ⟨none, none, none, none, none⟩

def MAXLINELENGTH : Nat := 1024

def DPI_PORT : CString := lit "DPIPORT"
def VANTIQ_URL : CString := lit "VANTIQ_BASEURL"
def VANTIQ_TOKEN : CString := lit "VANTIQTOKEN"
def DPI_SOCKET_PATH : CString := lit "DPISOCKETPATH"
def LOG_LEVEL : CString := lit "LOG_LEVEL"

/-- The string the pointer to index `str` denotes is trimmed where it lies: the
index of its first byte that is no white space, and the buffer with a terminator
over the first white space after that. -/
def removeSpaces (buffer : Block) (str : Nat) : Except Fault (Nat × Block) := do
  let str ← Block.skipWhile isspace buffer str
  let last ← Block.skipWhile (fun c => !isspace c && c != 0) buffer str
  let buffer ← buffer.store last [some 0]
  return (str, buffer)

/-- The index of the first `sep`, or `none` for `NULL`. -/
def findFirst (buffer : Block) (confLine : Nat) (sep : UInt8) : Except Fault (Option Nat) := do
  let confLine ← Block.skipWhile (fun c => c != sep && c != 0) buffer confLine
  if (← buffer.byte confLine) = 0 then
    return none
  return some confLine

/-- The `do` loop of `cmp_strings`, on the bytes from its two pointers on. -/
def cmpLoop : Bytes → Bytes → Except Fault Bool
  | c₁ :: str1, c₂ :: str2 =>
    if tolower c₁ ≠ tolower c₂ then .ok false
    else match str1.head?, str2.head? with
      | some d₁, some d₂ => if d₁ ≠ 0 ∨ d₂ ≠ 0 then cmpLoop str1 str2 else .ok true
      | _, _ => .error .outOfBounds
  | _, _ => .error .outOfBounds

def cmpStrings (str1 str2 : CString) : Except Fault Bool :=
  if str1.length ≠ str2.length then .ok false
  else cmpLoop (str1.bytes ++ [0]) (str2.bytes ++ [0])

/-- What `set_config_param` keeps of a base URL. -/
def copyBaseUrl (value : CString) : Except Fault Block := do
  let len := value.length
  if (← value.lastChar) ≠ 47 then
    let url ← Block.strcpy (malloc (len + 2)) 0 value
    let url ← url.store len [some 47]
    url.store (len + 1) [some 0]
  else
    return value.toBlock

def setConfigParam (config : VmeConfig) (key value : CString) :
    Except Fault (Nat × VmeConfig) := do
  if ← cmpStrings key DPI_PORT then
    return (1, { config with dpiPort := some value.toBlock })
  else if ← cmpStrings key DPI_SOCKET_PATH then
    return (1, { config with dpiSocketPath := some value.toBlock })
  else if ← cmpStrings key VANTIQ_URL then
    return (1, { config with vantiqUrl := some (← copyBaseUrl value) })
  else if ← cmpStrings key VANTIQ_TOKEN then
    return (1, { config with vantiqToken := some value.toBlock })
  else if ← cmpStrings key LOG_LEVEL then
    return (1, { config with logLevel := some value.toBlock })
  else
    return (0, config)

/-- One pass of the loop of `parseKeysVals`: what it adds to `lines`, the buffer
it leaves and the record. -/
def parseLine (buffer : Block) (config : VmeConfig) :
    Except Fault (Nat × Block × VmeConfig) := do
  -- ignore commented lines
  if (← buffer.byte 0) = 35 then
    return (0, buffer, config)
  match ← findFirst buffer 0 61 with
  -- maybe a blank line or comment
  | none => return (0, buffer, config)
  | some sep =>
    if (← buffer.byte sep) ≠ 61 then
      return (0, buffer, config)
    let buffer ← buffer.store sep [some 0]
    let (key, buffer) ← removeSpaces buffer 0
    let (value, buffer) ← removeSpaces buffer (sep + 1)
    let value ← Block.readString (buffer.drop value)
    if value.length = 0 then
      return (0, buffer, config)
    let key ← Block.readString (buffer.drop key)
    let (set, config) ← setConfigParam config key value
    return (if set = 1 then 1 else 0, buffer, config)

/-- The loop of `parseKeysVals`. -/
def parseLoop (inp : Bytes) (buffer : Block) (config : VmeConfig) (lines : Nat) :
    Except Fault (Nat × VmeConfig) :=
  match _h : fgets buffer MAXLINELENGTH inp with
  | .error e => .error e
  | .ok none => .ok (lines, config)
  | .ok (some (buffer, inp)) =>
    match parseLine buffer config with
    | .error e => .error e
    | .ok (n, buffer, config) => parseLoop inp buffer config (lines + n)
termination_by inp.length
decreasing_by exact length_lt_of_fgets (by decide) _h

/-- The number of lines that set something, and the record. -/
def parseKeysVals (inp : Bytes) (config : VmeConfig) : Except Fault (Nat × VmeConfig) :=
  parseLoop inp (malloc MAXLINELENGTH) config 0

/-! ## The log level (`log.c`) -/

def levelNames : List CString :=
  [lit "TRACE", lit "DEBUG", lit "INFO", lit "WARN", lit "ERROR", lit "FATAL"]

def LOG_WARN : Nat := 3
def LOG_ERROR : Nat := 4

/-- The log level after `vme_set_log_level`, which leaves it alone unless the
name is one of the first `LOG_ERROR + 1`. -/
def vmeSetLogLevel (level : Nat) (logLevel : CString) : Nat :=
  ((levelNames.take (LOG_ERROR + 1)).findIdx? (· = logLevel)).getD level

/-- `vme_parse_config` for a file with the given contents, `none` when it cannot
be opened: what it returns, the record, and the log level it leaves. -/
def vmeParseConfig (level : Nat) (file : Option Bytes) : Except Fault (Int × VmeConfig × Nat) := do
  let config := VmeConfig.zero
  match file with
  | none => return (-1, config, level)
  | some inp =>
    let (parsedVals, config) ← parseKeysVals inp config
    match config.logLevel with
    | some name => return (toInt parsedVals, config, vmeSetLogLevel level (← name.readString))
    | none => return (toInt parsedVals, config, LOG_WARN)

end VantiqMicro
