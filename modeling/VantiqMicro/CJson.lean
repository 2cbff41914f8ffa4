import VantiqMicro.JsonText

/-! # The JSON parser (`cjson.c`)

The parser works on a `parse_buffer`: the text with its terminator, an offset into it,
and the depth of nesting.  A function that reads beyond the buffer, or writes beyond
the block it allocated, has no result here but a `Fault`.

The functions return `none` where the code returns `false`.  The items a failed parse
has built are deleted by the code; here they are dropped.  The list of a container's
items is a list.  The parser calls itself for every nested value and every further
element, and `fuel` counts these calls (`cJSONParseWithOpts` starts with more than
there can be). -/

namespace VantiqMicro.CJson
open CMem

/-- What the code uses of C's floating point numbers. -/
structure Floats (D : Type) where
  zero : D
  /-- `strtod`, with the number of characters it converts; `none` if it converts none. -/
  strtod : Bytes → Option (D × Nat)
  /-- `number >= i` -/
  ge : D → Int → Bool
  /-- `number <= i` -/
  le : D → Int → Bool
  /-- `(int)number` -/
  toInt : D → Int
  /-- At least one character is converted, and none that is not there. -/
  strtod_le : ∀ s d n, strtod s = some (d, n) → 0 < n ∧ n ≤ s.length
  /-- What is converted is converted the same on its own. -/
  strtod_take : ∀ s d n, strtod s = some (d, n) → strtod (s.take n) = some (d, n)
  /-- With more behind it, something is converted still. -/
  strtod_append : ∀ s r d n, strtod s = some (d, n) → ∃ d' n', strtod (s ++ r) = some (d', n')

theorem digit_lt {c : UInt8} (h : 48 ≤ c.toNat ∧ c.toNat < 58) : c.toNat - 48 < 10 := by
  omega

/-- Numbers of one digit, and an infinite one: small enough to run the code on. -/
def oneDigit : Floats (Option (Fin 10)) where
  zero := some ⟨0, Nat.succ_pos 9⟩
  strtod
    | [] => none
    | c :: _ =>
      if h : 48 ≤ c.toNat ∧ c.toNat < 58 then some (some ⟨c.toNat - 48, digit_lt h⟩, 1) else none
  ge d i := d.all fun d => decide (i ≤ d.val)
  le d i := d.any fun d => decide (d.val ≤ i)
  toInt d := d.elim 0 fun d => d.val
  strtod_le := by
    intro s d n h
    rcases s with _ | ⟨c, s⟩
    · cases h
    · simp only at h
      split at h
      · cases h
        exact ⟨Nat.one_pos, Nat.succ_le_succ (Nat.zero_le _)⟩
      · cases h
  strtod_take := by
    intro s d n h
    rcases s with _ | ⟨c, s⟩
    · cases h
    · simp only at h
      split at h
      · rename_i hc
        cases h
        exact dif_pos hc
      · cases h
  strtod_append := by
    intro s r d n h
    rcases s with _ | ⟨c, s⟩
    · cases h
    · exact ⟨d, n, h⟩

/-- The types of an item, without the two flags. -/
inductive Kind
  | invalid
  | false
  | true
  | null
  | number
  | string
  | array
  | object
  | raw
deriving DecidableEq, Repr

/-- `cJSON`. -/
structure CJSON (D : Type) where
  child : List (CJSON D)
  kind : Kind
  isReference : Bool
  stringIsConst : Bool
  valuestring : Option Block
  valueint : Int
  valuedouble : D
  string : Option Block

def INT_MAX : Int := 2147483647
def INT_MIN : Int := -2147483648
def CJSON_NESTING_LIMIT : Nat := 1000

/-- An integer for a double, by saturation. -/
def saturate {D : Type} (fl : Floats D) (number : D) : Int :=
  if fl.ge number INT_MAX then INT_MAX
  else if fl.le number INT_MIN then INT_MIN
  else fl.toInt number

/-- `cJSON_New_Item`. -/
def cJSONNewItem {D : Type} (fl : Floats D) : CJSON D where
  child := []
  kind := .invalid
  isReference := false
  stringIsConst := false
  valuestring := none
  valueint := 0
  valuedouble := fl.zero
  string := none

/-! ## The buffer -/

/-- `parse_buffer`, without the hooks. -/
structure ParseBuffer where
  content : Bytes
  length : Nat
  offset : Nat
  depth : Nat
deriving DecidableEq, Repr

/-- `content[i]`. -/
def byteAt (content : Bytes) (i : Nat) : Except Fault UInt8 :=
  match content[i]? with
  | some c => .ok c
  | none => .error .outOfBounds

namespace ParseBuffer

def canRead (b : ParseBuffer) (size : Nat) : Bool := b.offset + size ≤ b.length

def canAccessAtIndex (b : ParseBuffer) (index : Nat) : Bool := b.offset + index < b.length

/-- `buffer_at_offset(buffer)[i]`. -/
def atOffset (b : ParseBuffer) (i : Nat) : Except Fault UInt8 := byteAt b.content (b.offset + i)

/-- `can_access_at_index(buffer, 0) && buffer_at_offset(buffer)[0] == c`. -/
def peekIs (b : ParseBuffer) (c : UInt8) : Except Fault Bool := do
  if b.canAccessAtIndex 0 then
    return (← b.atOffset 0) = c
  else
    return false

/-- `strncmp` of what is at the offset with the whole of `s`, which has no zero. -/
def startsWith (b : ParseBuffer) (i : Nat) : Bytes → Except Fault Bool
  | [] => return true
  | c :: s => do
    if (← b.atOffset i) = c then b.startsWith (i + 1) s else return false

end ParseBuffer

/-- The loop of `buffer_skip_whitespace`, over the bytes that are left. -/
def skipSpaces (b : ParseBuffer) : Nat → Except Fault ParseBuffer
  | 0 => return b
  | n + 1 => do
    if b.canAccessAtIndex 0 then
      if (← b.atOffset 0) ≤ 32 then skipSpaces { b with offset := b.offset + 1 } n else return b
    else
      return b

/-- The terminator counts as white space; the offset stays on it. -/
def bufferSkipWhitespace (b : ParseBuffer) : Except Fault ParseBuffer := do
  let b ← skipSpaces b (b.length - b.offset)
  if b.offset = b.length then return { b with offset := b.offset - 1 } else return b

def skipUtf8Bom (b : ParseBuffer) : Except Fault ParseBuffer := do
  if b.canAccessAtIndex 4 then
    if ← b.startsWith 0 [0xEF, 0xBB, 0xBF] then
      return { b with offset := b.offset + 3 }
  return b

/-! ## Numbers -/

/-- The characters `parse_number` copies. -/
def isNumberChar (c : UInt8) : Bool :=
  (48 ≤ c ∧ c ≤ 57) ∨ c = 43 ∨ c = 45 ∨ c = 101 ∨ c = 69 ∨ c = 46

/-- `get_decimal_point`, without locales. -/
def getDecimalPoint : UInt8 := 46

/-- The copying loop of `parse_number`, with room for `n` more characters. -/
def copyNumber (b : ParseBuffer) (i : Nat) : Nat → Except Fault Bytes
  | 0 => return []
  | n + 1 => do
    if b.canAccessAtIndex i then
      let c ← b.atOffset i
      if isNumberChar c then
        let rest ← copyNumber b (i + 1) n
        return (if c = 46 then getDecimalPoint else c) :: rest
      else
        return []
    else
      return []

variable {D : Type}

/-- `number_c_string` has 64 characters, one of them for the terminator. -/
def parseNumber (fl : Floats D) (item : CJSON D) (b : ParseBuffer) :
    Except Fault (Option (CJSON D) × ParseBuffer) := do
  let numberCString ← copyNumber b 0 63
  match fl.strtod numberCString with
  | none => return (none, b)
  | some (number, n) =>
    let item :=
      { item with valuedouble := number, valueint := saturate fl number, kind := .number }
    return (some item, { b with offset := b.offset + n })

/-! ## Strings -/

/-- `parse_hex4`, from index `i` on: 0 if one of the four is no digit. -/
def parseHex4 (content : Bytes) (i : Nat) : Except Fault Nat := loop i 0 4
where
  loop (i h : Nat) : Nat → Except Fault Nat
    | 0 => return h
    | n + 1 => do
      match Percent.hexValue (← byteAt content i) with
      | none => return 0
      | some d =>
        let h := h + d
        loop (i + 1) (if n = 0 then h else h <<< 4) n

/-- `(codepoint | 0x80) & 0xBF`, stored as a byte. -/
def continuation (codepoint : Nat) : UInt8 := UInt8.ofNat ((codepoint ||| 0x80) &&& 0xBF)

/-- The loop that stores the bytes after the first: position `i + 1` first, 1 last. -/
def encodeTail (output : Block) (o : Nat) : Nat → Nat → Except Fault (Block × Nat)
  | 0, codepoint => return (output, codepoint)
  | i + 1, codepoint => do
    let output ← output.store (o + (i + 1)) [some (continuation codepoint)]
    encodeTail output o i (codepoint >>> 6)

/-- The end of `utf16_literal_to_utf8`: `codepoint` is stored from index `o` of the
output on.  The length is the number of bytes. -/
def encodeUtf8 (output : Block) (o codepoint : Nat) : Except Fault (Option (Block × Nat)) := do
  if codepoint < 0x80 then
    let output ← output.store o [some (UInt8.ofNat (codepoint &&& 0x7F))]
    return some (output, 1)
  else if codepoint < 0x800 then
    let (output, codepoint) ← encodeTail output o 1 codepoint
    let output ← output.store o [some (UInt8.ofNat ((codepoint ||| 0xC0) &&& 0xFF))]
    return some (output, 2)
  else if codepoint < 0x10000 then
    let (output, codepoint) ← encodeTail output o 2 codepoint
    let output ← output.store o [some (UInt8.ofNat ((codepoint ||| 0xE0) &&& 0xFF))]
    return some (output, 3)
  else if codepoint ≤ 0x10FFFF then
    let (output, codepoint) ← encodeTail output o 3 codepoint
    let output ← output.store o [some (UInt8.ofNat ((codepoint ||| 0xF0) &&& 0xFF))]
    return some (output, 4)
  else
    return none

/-- `utf16_literal_to_utf8`: the output, how many bytes were stored at `o`, and the length of
the sequence; `none` where the code returns 0. -/
def utf16LiteralToUtf8 (content : Bytes) (firstSequence inputEnd : Nat) (output : Block)
    (o : Nat) : Except Fault (Option (Block × Nat × Nat)) := do
  if inputEnd < firstSequence + 6 then
    return none
  let firstCode ← parseHex4 content (firstSequence + 2)
  if 0xDC00 ≤ firstCode ∧ firstCode ≤ 0xDFFF then
    return none
  if 0xD800 ≤ firstCode ∧ firstCode ≤ 0xDBFF then
    let secondSequence := firstSequence + 6
    if inputEnd < secondSequence + 6 then
      return none
    if (← byteAt content secondSequence) ≠ 92 then
      return none
    if (← byteAt content (secondSequence + 1)) ≠ 117 then
      return none
    let secondCode ← parseHex4 content (secondSequence + 2)
    if secondCode < 0xDC00 ∨ 0xDFFF < secondCode then
      return none
    let codepoint := 0x10000 + (((firstCode &&& 0x3FF) <<< 10) ||| (secondCode &&& 0x3FF))
    match ← encodeUtf8 output o codepoint with
    | none => return none
    | some (output, n) => return some (output, n, 12)
  else
    match ← encodeUtf8 output o firstCode with
    | none => return none
    | some (output, n) => return some (output, n, 6)

/-- The first loop of `parse_string`: the index of the closing quote and how many
backslashes were skipped; `n` bounds the steps. -/
def findEnd (content : Bytes) (length : Nat) (inputEnd skippedBytes : Nat) :
    Nat → Except Fault (Option (Nat × Nat))
  | 0 => return none
  | n + 1 => do
    if length ≤ inputEnd then
      return none
    let c ← byteAt content inputEnd
    if c = 34 then
      return some (inputEnd, skippedBytes)
    if c = 92 then
      if length ≤ inputEnd + 1 then
        return none
      findEnd content length (inputEnd + 2) (skippedBytes + 1) n
    else
      findEnd content length (inputEnd + 1) skippedBytes n

/-- The single characters that may follow a backslash, and what they stand for. -/
def escapeChar (c : UInt8) : Option UInt8 :=
  if c = 98 then some 8
  else if c = 102 then some 12
  else if c = 110 then some 10
  else if c = 114 then some 13
  else if c = 116 then some 9
  else if c = 34 ∨ c = 92 ∨ c = 47 then some c
  else none

/-- The second loop of `parse_string`, from `inputPointer` and index `o` of the output on: the
output and the length of the text, or where it failed. -/
def unescapeLoop (content : Bytes) (inputEnd inputPointer : Nat) (output : Block) (o : Nat) :
    Nat → Except Fault (Except Nat (Block × Nat))
  | 0 => return .error inputPointer
  | n + 1 => do
    if inputEnd ≤ inputPointer then
      return .ok (output, o)
    let c ← byteAt content inputPointer
    if c ≠ 92 then
      let output ← output.store o [some c]
      unescapeLoop content inputEnd (inputPointer + 1) output (o + 1) n
    else
      let e ← byteAt content (inputPointer + 1)
      if e = 117 then
        match ← utf16LiteralToUtf8 content inputPointer inputEnd output o with
        | none => return .error inputPointer
        | some (output, k, sequenceLength) =>
          unescapeLoop content inputEnd (inputPointer + sequenceLength) output (o + k) n
      else
        match escapeChar e with
        | none => return .error inputPointer
        | some c =>
          let output ← output.store o [some c]
          unescapeLoop content inputEnd (inputPointer + 2) output (o + 1) n

def parseString (item : CJSON D) (b : ParseBuffer) :
    Except Fault (Option (CJSON D) × ParseBuffer) := do
  let inputPointer := b.offset + 1
  if (← b.atOffset 0) ≠ 34 then
    return (none, { b with offset := inputPointer })
  match ← findEnd b.content b.length inputPointer 0 (b.length - b.offset) with
  | none => return (none, { b with offset := inputPointer })
  | some (inputEnd, skippedBytes) =>
    let allocationLength := inputEnd - b.offset - skippedBytes
    let output := malloc (allocationLength + 1)
    match ← unescapeLoop b.content inputEnd inputPointer output 0 (b.length - b.offset) with
    | .error inputPointer => return (none, { b with offset := inputPointer })
    | .ok (output, o) =>
      let output ← output.store o [some 0]
      let item := { item with kind := .string, valuestring := some output }
      return (some item, { b with offset := inputEnd + 1 })

/-! ## Values -/

mutual

def parseValue (fl : Floats D) : Nat → CJSON D → ParseBuffer →
    Except Fault (Option (CJSON D) × ParseBuffer)
  | 0, _, b => return (none, b)
  | fuel + 1, item, b => do
    if b.canRead 4 then
      if ← b.startsWith 0 (ascii "null") then
        return (some { item with kind := .null }, { b with offset := b.offset + 4 })
    if b.canRead 5 then
      if ← b.startsWith 0 (ascii "false") then
        return (some { item with kind := .false }, { b with offset := b.offset + 5 })
    if b.canRead 4 then
      if ← b.startsWith 0 (ascii "true") then
        return (some { item with kind := .true, valueint := 1 }, { b with offset := b.offset + 4 })
    if b.canAccessAtIndex 0 then
      let c ← b.atOffset 0
      if c = 34 then
        parseString item b
      else if c = 45 ∨ (48 ≤ c ∧ c ≤ 57) then
        parseNumber fl item b
      else if c = 91 then
        parseArray fl fuel item b
      else if c = 123 then
        parseObject fl fuel item b
      else
        return (none, b)
    else
      return (none, b)

def parseArray (fl : Floats D) : Nat → CJSON D → ParseBuffer →
    Except Fault (Option (CJSON D) × ParseBuffer)
  | 0, _, b => return (none, b)
  | fuel + 1, item, b => do
    if CJSON_NESTING_LIMIT ≤ b.depth then
      return (none, b)
    let b := { b with depth := b.depth + 1 }
    if (← b.atOffset 0) ≠ 91 then
      return (none, b)
    let b ← bufferSkipWhitespace { b with offset := b.offset + 1 }
    if ← b.peekIs 93 then
      let item := { item with kind := .array, child := [] }
      return (some item, { b with depth := b.depth - 1, offset := b.offset + 1 })
    if !b.canAccessAtIndex 0 then
      return (none, { b with offset := b.offset - 1 })
    match ← parseElements fl fuel { b with offset := b.offset - 1 } with
    | (none, b) => return (none, b)
    | (some head, b) =>
      if ← b.peekIs 93 then
        let item := { item with kind := .array, child := head }
        return (some item, { b with depth := b.depth - 1, offset := b.offset + 1 })
      else
        return (none, b)

/-- The loop of `parse_array`; the offset is that of the bracket or comma before. -/
def parseElements (fl : Floats D) : Nat → ParseBuffer →
    Except Fault (Option (List (CJSON D)) × ParseBuffer)
  | 0, b => return (none, b)
  | fuel + 1, b => do
    let b ← bufferSkipWhitespace { b with offset := b.offset + 1 }
    match ← parseValue fl fuel (cJSONNewItem fl) b with
    | (none, b) => return (none, b)
    | (some currentItem, b) =>
      let b ← bufferSkipWhitespace b
      if ← b.peekIs 44 then
        match ← parseElements fl fuel b with
        | (none, b) => return (none, b)
        | (some items, b) => return (some (currentItem :: items), b)
      else
        return (some [currentItem], b)

def parseObject (fl : Floats D) : Nat → CJSON D → ParseBuffer →
    Except Fault (Option (CJSON D) × ParseBuffer)
  | 0, _, b => return (none, b)
  | fuel + 1, item, b => do
    if CJSON_NESTING_LIMIT ≤ b.depth then
      return (none, b)
    let b := { b with depth := b.depth + 1 }
    if !(← b.peekIs 123) then
      return (none, b)
    let b ← bufferSkipWhitespace { b with offset := b.offset + 1 }
    if ← b.peekIs 125 then
      let item := { item with kind := .object, child := [] }
      return (some item, { b with depth := b.depth - 1, offset := b.offset + 1 })
    if !b.canAccessAtIndex 0 then
      return (none, { b with offset := b.offset - 1 })
    match ← parseMembers fl fuel { b with offset := b.offset - 1 } with
    | (none, b) => return (none, b)
    | (some head, b) =>
      if ← b.peekIs 125 then
        let item := { item with kind := .object, child := head }
        return (some item, { b with depth := b.depth - 1, offset := b.offset + 1 })
      else
        return (none, b)

/-- The loop of `parse_object`; the offset is that of the brace or comma before. -/
def parseMembers (fl : Floats D) : Nat → ParseBuffer →
    Except Fault (Option (List (CJSON D)) × ParseBuffer)
  | 0, b => return (none, b)
  | fuel + 1, b => do
    let b ← bufferSkipWhitespace { b with offset := b.offset + 1 }
    match ← parseString (cJSONNewItem fl) b with
    | (none, b) => return (none, b)
    | (some currentItem, b) =>
      let b ← bufferSkipWhitespace b
      -- the name was parsed as the value
      let currentItem :=
        { currentItem with string := currentItem.valuestring, valuestring := none }
      if !(← b.peekIs 58) then
        return (none, b)
      let b ← bufferSkipWhitespace { b with offset := b.offset + 1 }
      match ← parseValue fl fuel currentItem b with
      | (none, b) => return (none, b)
      | (some currentItem, b) =>
        let b ← bufferSkipWhitespace b
        if ← b.peekIs 44 then
          match ← parseMembers fl fuel b with
          | (none, b) => return (none, b)
          | (some items, b) => return (some (currentItem :: items), b)
        else
          return (some [currentItem], b)

end

/-! ## Texts -/

/-- What a call leaves: the item, `*return_parse_end` and `global_error.position`, as indices
into the text. -/
structure Parsed (D : Type) where
  item : Option (CJSON D)
  parseEnd : Nat
  errorPosition : Option Nat

/-- `cJSON_ParseWithOpts`, of a text that is not `NULL`. -/
def cJSONParseWithOpts (fl : Floats D) (value : CString) (requireNullTerminated : Bool) :
    Except Fault (Parsed D) := do
  let length := value.length + 1
  let buffer : ParseBuffer := { content := value.bytes ++ [0], length, offset := 0, depth := 0 }
  let buffer ← bufferSkipWhitespace (← skipUtf8Bom buffer)
  match ← parseValue fl (4 * length) (cJSONNewItem fl) buffer with
  | (none, buffer) => return fail buffer
  | (some item, buffer) =>
    if requireNullTerminated then
      let buffer ← bufferSkipWhitespace buffer
      if buffer.length ≤ buffer.offset then
        return fail buffer
      if (← buffer.atOffset 0) ≠ 0 then
        return fail buffer
      return { item := some item, parseEnd := buffer.offset, errorPosition := none }
    else
      return { item := some item, parseEnd := buffer.offset, errorPosition := none }
where
  fail (buffer : ParseBuffer) : Parsed D :=
    let position :=
      if buffer.offset < buffer.length then buffer.offset
      else if 0 < buffer.length then buffer.length - 1
      else 0
    { item := none, parseEnd := position, errorPosition := some position }

def cJSONParse (fl : Floats D) (value : CString) : Except Fault (Option (CJSON D)) := do
  let parsed ← cJSONParseWithOpts fl value false
  return parsed.item

/-! ## What an item holds -/

mutual

/-- The item holds the value. -/
def Holds (fl : Floats D) : Json D → CJSON D → Prop
  | .null, item => item.kind = .null
  | .bool b, item => item.kind = if b then .true else .false
  | .number x, item => item.kind = .number ∧ item.valuedouble = x ∧ item.valueint = saturate fl x
  | .string s, item => item.kind = .string ∧ ∃ b, item.valuestring = some b ∧ b.stringBytes = some s
  | .array elems, item => item.kind = .array ∧ HoldsElements fl elems item.child
  | .object members, item => item.kind = .object ∧ HoldsMembers fl members item.child

def HoldsElements (fl : Floats D) : List (Json D) → List (CJSON D) → Prop
  | [], items => items = []
  | v :: vs, items => ∃ item rest, items = item :: rest ∧ Holds fl v item ∧ HoldsElements fl vs rest

def HoldsMembers (fl : Floats D) : List (Bytes × Json D) → List (CJSON D) → Prop
  | [], items => items = []
  | (k, v) :: ms, items => ∃ item rest b, items = item :: rest ∧ item.string = some b ∧
      b.stringBytes = some k ∧ Holds fl v item ∧ HoldsMembers fl ms rest

end

section Holds
variable {fl : Floats D}

mutual

theorem Holds.unique : ∀ {v v' : Json D} {item : CJSON D}, Holds fl v item → Holds fl v' item →
    v = v'
  | .null, v', item, h, h' => by
    cases v' with
    | null => rfl
    | bool b => cases b <;> cases h.symm.trans h'
    | number | string | array | object => cases h.symm.trans h'.1
  | .bool b, v', item, h, h' => by
    cases v' with
    | null => cases b <;> cases h.symm.trans h'
    | bool b' => cases b <;> cases b' <;> first | rfl | cases h.symm.trans h'
    | number | string | array | object => cases b <;> cases h.symm.trans h'.1
  | .number x, v', item, h, h' => by
    cases v' with
    | null => cases h.1.symm.trans h'
    | bool b => cases b <;> cases h.1.symm.trans h'
    | number x' => rw [← h.2.1, h'.2.1]
    | string | array | object => cases h.1.symm.trans h'.1
  | .string s, v', item, ⟨hkind, b, hb, hs⟩, h' => by
    cases v' with
    | null => cases hkind.symm.trans h'
    | bool b => cases b <;> cases hkind.symm.trans h'
    | string s' =>
      obtain ⟨-, b', hb', hs'⟩ := h'
      cases hb.symm.trans hb'
      cases hs.symm.trans hs'
      rfl
    | number | array | object => cases hkind.symm.trans h'.1
  | .array vs, v', item, h, h' => by
    cases v' with
    | null => cases h.1.symm.trans h'
    | bool b => cases b <;> cases h.1.symm.trans h'
    | array vs' => rw [HoldsElements.unique h.2 h'.2]
    | number | string | object => cases h.1.symm.trans h'.1
  | .object ms, v', item, h, h' => by
    cases v' with
    | null => cases h.1.symm.trans h'
    | bool b => cases b <;> cases h.1.symm.trans h'
    | object ms' => rw [HoldsMembers.unique h.2 h'.2]
    | number | string | array => cases h.1.symm.trans h'.1

theorem HoldsElements.unique : ∀ {vs vs' : List (Json D)} {items : List (CJSON D)},
    HoldsElements fl vs items → HoldsElements fl vs' items → vs = vs'
  | [], vs', items, h, h' => by
    cases h
    cases vs' with
    | nil => rfl
    | cons v' vs' =>
      obtain ⟨_, _, hitems, -⟩ := h'
      cases hitems
  | v :: vs, vs', items, ⟨item, rest, hitems, hv, hvs⟩, h' => by
    subst hitems
    cases vs' with
    | nil => cases h'
    | cons v' vs' =>
      obtain ⟨_, _, hitems, hv', hvs'⟩ := h'
      cases hitems
      rw [Holds.unique hv hv', HoldsElements.unique hvs hvs']

theorem HoldsMembers.unique : ∀ {ms ms' : List (Bytes × Json D)} {items : List (CJSON D)},
    HoldsMembers fl ms items → HoldsMembers fl ms' items → ms = ms'
  | [], ms', items, h, h' => by
    cases h
    cases ms' with
    | nil => rfl
    | cons m' ms' =>
      obtain ⟨_, _, _, hitems, -⟩ := h'
      cases hitems
  | (k, v) :: ms, ms', items, ⟨item, rest, b, hitems, hb, hk, hv, hms⟩, h' => by
    subst hitems
    cases ms' with
    | nil => cases h'
    | cons m' ms' =>
      obtain ⟨k', v'⟩ := m'
      obtain ⟨_, _, b', hitems, hb', hk', hv', hms'⟩ := h'
      cases hitems
      cases hb.symm.trans hb'
      cases hk.symm.trans hk'
      rw [Holds.unique hv hv', HoldsMembers.unique hms hms']

end

end Holds

end VantiqMicro.CJson
