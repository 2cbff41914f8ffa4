import Mathlib.Algebra.Ring.Nat
import VantiqMicro.CJson

/-! # The JSON printer (`cjson.c`)

The printer writes behind an offset into a `printbuffer`, which `ensure` grows unless it
is the caller's own.  A value is written with a zero behind it and without moving the
offset (a number moves it); `update_offset` then finds the end by the zero.

The functions return whether they have printed, and what they leave of the buffer.  The
loops over the children of an array or an object are handed to the functions that print
what is around them. -/

namespace VantiqMicro.CJson
open CMem

/-- What the printer uses of C's floating point numbers and of `stdio`. -/
structure Printing (D : Type) extends Floats D where
  /-- `(d * 0) != 0`: infinite or no number. -/
  notFinite : D → Bool
  /-- `sprintf` of `%1.15g` or `%1.17g`; the number of digits is the first argument. -/
  sprintf : Nat → D → CString
  /-- `sscanf` of `%lg`. -/
  sscanf : CString → Option D
  /-- `test == d` -/
  eq : D → D → Bool
  /-- A sign, 17 digits, a point and an exponent of up to five characters. -/
  length_sprintf_le : ∀ n ≤ 17, ∀ d, (sprintf n d).length ≤ 24

/-- `oneDigit`, printed. -/
def printOneDigit : Printing (Option (Fin 10)) where
  toFloats := oneDigit
  notFinite := Option.isNone
  sprintf _ d := d.elim (lit "inf") fun d =>
    ⟨[UInt8.ofNat (48 + d.val)], by revert d; decide⟩
  sscanf s := (oneDigit.strtod s.bytes).map Prod.fst
  eq x d := x == d
  length_sprintf_le := by
    rintro n - (_ | d)
    · decide
    · show 1 ≤ 24
      decide

/-- An array of a digit and an infinite number. -/
def sevenAndInfinity : CJSON (Option (Fin 10)) :=
  let item := cJSONNewItem oneDigit
  { item with
    kind := .array
    child :=
      [{ item with kind := .number, valuedouble := some ⟨7, by decide⟩, valueint := 7 },
        { item with kind := .number, valuedouble := none, valueint := INT_MAX }] }

/-! ## The buffer -/

/-- `printbuffer`; of the hooks, whether there is a `reallocate`. -/
structure PrintBuffer where
  buffer : Option Block
  length : Nat
  offset : Nat
  depth : Nat
  noalloc : Bool
  format : Bool
  reallocate : Bool
deriving DecidableEq, Repr

/-- Stores from index `i` of the output pointer on, which is the buffer's at the offset. -/
def PrintBuffer.store (p : PrintBuffer) (i : Nat) (c : Block) : Except Fault PrintBuffer :=
  match p.buffer with
  | none => .error .nullPointer
  | some b => do
    let b ← b.store (p.offset + i) c
    return { p with buffer := some b }

/-- The reallocation at the end of `ensure`. -/
def PrintBuffer.grow (p : PrintBuffer) (b : Block) (newsize : Nat) :
    Except Fault PrintBuffer := do
  if p.reallocate then
    return { p with length := newsize, buffer := some (b.realloc newsize) }
  else
    let newbuffer ← (malloc newsize).memcpy 0 b 0 (p.offset + 1)
    return { p with length := newsize, buffer := some newbuffer }

/-- `ensure`: whether the output pointer is good for `needed` bytes. -/
def ensure (p : PrintBuffer) (needed : Nat) : Except Fault (Bool × PrintBuffer) :=
  match p.buffer with
  | none => return (false, p)
  | some b => do
    if 0 < p.length ∧ p.length ≤ p.offset then
      return (false, p)
    if INT_MAX < needed then
      return (false, p)
    let needed := needed + (p.offset + 1)
    if needed ≤ p.length then
      return (true, p)
    if p.noalloc then
      return (false, p)
    if INT_MAX / 2 < needed then
      if needed ≤ INT_MAX then
        return (true, ← p.grow b INT_MAX.toNat)
      else
        return (false, p)
    else
      return (true, ← p.grow b (needed * 2))

def updateOffset (p : PrintBuffer) : Except Fault PrintBuffer :=
  match p.buffer with
  | none => return p
  | some b => do
    let s ← Block.readString (b.drop p.offset)
    return { p with offset := p.offset + s.length }

/-! ## Numbers and strings -/

section Leaves
variable {D : Type}

/-- What `print_number` has in its own buffer. -/
def numberString (pr : Printing D) (d : D) : CString :=
  if pr.notFinite d then lit "null"
  else
    let numberBuffer := pr.sprintf 15 d
    match pr.sscanf numberBuffer with
    | some test => if pr.eq test d then numberBuffer else pr.sprintf 17 d
    | none => pr.sprintf 17 d

/-- `print_number`. -/
def printNumber (pr : Printing D) (d : D) (p : PrintBuffer) :
    Except Fault (Bool × PrintBuffer) := do
  let s := numberString pr d
  let _ ← Block.strcpy (malloc 26) 0 s
  if 25 < s.length then
    return (false, p)
  let (ok, p) ← ensure p (s.length + 1)
  if !ok then
    return (false, p)
  let copied := s.bytes.map fun c => if c = getDecimalPoint then 46 else c
  let p ← p.store 0 (cells copied)
  let p ← p.store s.length [some 0]
  return (true, { p with offset := p.offset + s.length })

/-- How many more characters a character needs than its own. -/
def escapeCharacters (c : UInt8) : Nat :=
  if c = 34 ∨ c = 92 ∨ c = 8 ∨ c = 12 ∨ c = 10 ∨ c = 13 ∨ c = 9 then 1
  else if c < 32 then 5
  else 0

/-- A digit of `%x`. -/
def hexDigit (n : Nat) : UInt8 := UInt8.ofNat (if n < 10 then 48 + n else 87 + n)

/-- What follows the backslash. -/
def escaped (c : UInt8) : Bytes :=
  if c = 92 then [92]
  else if c = 34 then [34]
  else if c = 8 then [98]
  else if c = 12 then [102]
  else if c = 10 then [110]
  else if c = 13 then [114]
  else if c = 9 then [116]
  else [117, 48, 48, hexDigit (c.toNat / 16), hexDigit (c.toNat % 16)]

/-- The copying loop of `print_string_ptr`, from index `o` of the output on.  `sprintf` stores
its zero too. -/
def copyEscaped (p : PrintBuffer) (o : Nat) : Bytes → Except Fault PrintBuffer
  | [] => return p
  | c :: s => do
    if 31 < c ∧ c ≠ 34 ∧ c ≠ 92 then
      let p ← p.store o [some c]
      copyEscaped p (o + 1) s
    else
      let p ← p.store o [some 92]
      let e := escaped c
      let p ← p.store (o + 1) (cells e ++ if e.length = 5 then [some 0] else [])
      copyEscaped p (o + 1 + e.length) s

/-- Between the quotes `print_string_ptr` copies what needs no escaping at once. -/
def copyString (p : PrintBuffer) (escapeCharacters : Nat) (s : Bytes) : Except Fault PrintBuffer :=
  if escapeCharacters = 0 then p.store 1 (cells s) else copyEscaped p 1 s

/-- `print_string_ptr`. -/
def printStringPtr (input : Option Block) (p : PrintBuffer) :
    Except Fault (Bool × PrintBuffer) :=
  match input with
  | none => do
    let (ok, p) ← ensure p 3
    if !ok then
      return (false, p)
    let p ← p.store 0 (cells [34, 34] ++ [some 0])
    return (true, p)
  | some b => do
    let s ← b.readString
    let escapeCharacters := (s.bytes.map escapeCharacters).sum
    let outputLength := s.length + escapeCharacters
    let (ok, p) ← ensure p (outputLength + 3)
    if !ok then
      return (false, p)
    let p ← p.store 0 [some 34]
    let p ← copyString p escapeCharacters s.bytes
    let p ← p.store (outputLength + 1) [some 34]
    let p ← p.store (outputLength + 2) [some 0]
    return (true, p)

/-- The three names. -/
def printLiteral (s : String) (p : PrintBuffer) : Except Fault (Bool × PrintBuffer) := do
  let (ok, p) ← ensure p (s.length + 1)
  if !ok then
    return (false, p)
  let p ← p.store 0 (lit s).toBlock
  return (true, p)

/-- `cJSON_Raw`, in `print_value`. -/
def printRaw (valuestring : Option Block) (p : PrintBuffer) : Except Fault (Bool × PrintBuffer) :=
  match valuestring with
  | none => return (false, p)
  | some b => do
    let s ← b.readString
    let (ok, p) ← ensure p (s.length + 1)
    if !ok then
      return (false, p)
    let p ← p.store 0 s.toBlock
    return (true, p)

end Leaves

/-! ## Values -/

/-- `print_array`; `elements` is its loop. -/
def printArray (elements : PrintBuffer → Except Fault (Bool × PrintBuffer)) (p : PrintBuffer) :
    Except Fault (Bool × PrintBuffer) := do
  let (ok, p) ← ensure p 1
  if !ok then
    return (false, p)
  let p ← p.store 0 [some 91]
  let (ok, p) ← elements { p with offset := p.offset + 1, depth := p.depth + 1 }
  if !ok then
    return (false, p)
  let (ok, p) ← ensure p 2
  if !ok then
    return (false, p)
  let p ← p.store 0 [some 93, some 0]
  return (true, { p with depth := p.depth - 1 })

/-- The tabs in front of a line. -/
def tabs (n : Nat) : Bytes := List.replicate n 9

/-- `print_object`; `members` is its loop. -/
def printObject (members : PrintBuffer → Except Fault (Bool × PrintBuffer)) (p : PrintBuffer) :
    Except Fault (Bool × PrintBuffer) := do
  let length := if p.format then 2 else 1
  let (ok, p) ← ensure p (length + 1)
  if !ok then
    return (false, p)
  let p ← p.store 0 (cells (if p.format then [123, 10] else [123]))
  let (ok, p) ← members { p with offset := p.offset + length, depth := p.depth + 1 }
  if !ok then
    return (false, p)
  let (ok, p) ← ensure p (if p.format then p.depth + 1 else 2)
  if !ok then
    return (false, p)
  let indent := if p.format then tabs (p.depth - 1) else []
  let p ← p.store 0 (cells (indent ++ [125]) ++ [some 0])
  return (true, { p with depth := p.depth - 1 })

/-- The tabs in front of a member, in the loop of `print_object`. -/
def printIndent (p : PrintBuffer) : Except Fault (Bool × PrintBuffer) := do
  if p.format then
    let (ok, p) ← ensure p p.depth
    if !ok then
      return (false, p)
    let p ← p.store 0 (cells (tabs p.depth))
    return (true, { p with offset := p.offset + p.depth })
  else
    return (true, p)

/-- The key of a member and the colon, in the loop of `print_object`. -/
def printKey (string : Option Block) (p : PrintBuffer) : Except Fault (Bool × PrintBuffer) := do
  let (ok, p) ← printStringPtr string p
  if !ok then
    return (false, p)
  let p ← updateOffset p
  let length := if p.format then 2 else 1
  let (ok, p) ← ensure p length
  if !ok then
    return (false, p)
  let p ← p.store 0 (cells (if p.format then [58, 9] else [58]))
  return (true, { p with offset := p.offset + length })

mutual

def printValue {D : Type} (pr : Printing D) : CJSON D → PrintBuffer →
    Except Fault (Bool × PrintBuffer)
  | ⟨child, kind, _, _, valuestring, _, valuedouble, _⟩, p =>
    match kind with
    | .null => printLiteral "null" p
    | .false => printLiteral "false" p
    | .true => printLiteral "true" p
    | .number => printNumber pr valuedouble p
    | .raw => printRaw valuestring p
    | .string => printStringPtr valuestring p
    | .array => printArray (printElements pr child) p
    | .object => printObject (printMembers pr child) p
    | .invalid => return (false, p)

/-- The loop of `print_array`. -/
def printElements {D : Type} (pr : Printing D) : List (CJSON D) → PrintBuffer →
    Except Fault (Bool × PrintBuffer)
  | [], p => return (true, p)
  | currentElement :: next, p => do
    let (ok, p) ← printValue pr currentElement p
    if !ok then
      return (false, p)
    let p ← updateOffset p
    if next.isEmpty then
      return (true, p)
    let length := if p.format then 2 else 1
    let (ok, p) ← ensure p (length + 1)
    if !ok then
      return (false, p)
    let p ← p.store 0 (cells (if p.format then [44, 32] else [44]) ++ [some 0])
    printElements pr next { p with offset := p.offset + length }

/-- The loop of `print_object`. -/
def printMembers {D : Type} (pr : Printing D) : List (CJSON D) → PrintBuffer →
    Except Fault (Bool × PrintBuffer)
  | [], p => return (true, p)
  | currentItem :: next, p => do
    let (ok, p) ← printIndent p
    if !ok then
      return (false, p)
    let (ok, p) ← printKey currentItem.string p
    if !ok then
      return (false, p)
    let (ok, p) ← printValue pr currentItem p
    if !ok then
      return (false, p)
    let p ← updateOffset p
    let end_ := (if next.isEmpty then [] else [44]) ++ if p.format then [10] else []
    let (ok, p) ← ensure p (end_.length + 1)
    if !ok then
      return (false, p)
    let p ← p.store 0 (cells end_ ++ [some 0])
    printMembers pr next { p with offset := p.offset + end_.length }

end

/-! ## Texts -/

section Texts
variable {D : Type}

/-- `print`; `reallocate` is whether the hooks have it. -/
def print (pr : Printing D) (item : CJSON D) (format reallocate : Bool) :
    Except Fault (Option Block) := do
  let buffer : PrintBuffer :=
    { buffer := some (malloc 256), length := 256, offset := 0, depth := 0, noalloc := false,
      format, reallocate }
  let (ok, buffer) ← printValue pr item buffer
  if !ok then
    return none
  let buffer ← updateOffset buffer
  match buffer.buffer with
  | none => .error .nullPointer
  | some b =>
    if reallocate then
      return some (b.realloc (buffer.offset + 1))
    else
      let copied := min buffer.length (buffer.offset + 1)
      let printed ← (malloc (buffer.offset + 1)).memcpy 0 b 0 copied
      let printed ← printed.store buffer.offset [some 0]
      return some printed

def cJSONPrint (pr : Printing D) (item : CJSON D) (reallocate : Bool) :
    Except Fault (Option Block) := print pr item true reallocate

def cJSONPrintUnformatted (pr : Printing D) (item : CJSON D) (reallocate : Bool) :
    Except Fault (Option Block) := print pr item false reallocate

def cJSONPrintBuffered (pr : Printing D) (item : CJSON D) (prebuffer : Int) (fmt : Bool)
    (reallocate : Bool) : Except Fault (Option Block) := do
  if prebuffer < 0 then
    return none
  let p : PrintBuffer :=
    { buffer := some (malloc prebuffer.toNat), length := prebuffer.toNat, offset := 0, depth := 0,
      noalloc := false, format := fmt, reallocate }
  let (ok, p) ← printValue pr item p
  if !ok then
    return none
  return p.buffer

/-- `cJSON_PrintPreallocated`: whether it has printed, and the caller's buffer. -/
def cJSONPrintPreallocated (pr : Printing D) (item : CJSON D) (buf : Option Block) (len : Int)
    (fmt : Bool) (reallocate : Bool) : Except Fault (Bool × Option Block) := do
  if len < 0 ∨ buf = none then
    return (false, buf)
  let p : PrintBuffer :=
    { buffer := buf, length := len.toNat, offset := 0, depth := 0, noalloc := true, format := fmt,
      reallocate }
  let (ok, p) ← printValue pr item p
  return (ok, p.buffer)

end Texts

/-! ## What is printed -/

section Text
variable {D : Type}

/-- A string between its quotes. -/
def quoted (s : Bytes) : Bytes :=
  34 :: (s.flatMap (fun c => if 31 < c ∧ c ≠ 34 ∧ c ≠ 92 then [c] else 92 :: escaped c) ++ [34])

/-- `NULL` is printed as the empty string. -/
def stringText : Option Block → Option Bytes
  | none => some (quoted [])
  | some b => b.stringBytes.map quoted

/-- What a formatted text has that the other has not. -/
def ifFormat (format : Bool) (t : Bytes) : Bytes := if format then t else []

mutual

/-- The text of an item at a depth of nesting; `none` if it has none. -/
def text (pr : Printing D) (format : Bool) : Nat → CJSON D → Option Bytes
  | depth, ⟨child, kind, _, _, valuestring, _, valuedouble, _⟩ =>
    match kind with
    | .null => some (ascii "null")
    | .false => some (ascii "false")
    | .true => some (ascii "true")
    | .number => some (numberString pr valuedouble).bytes
    | .raw => valuestring.bind Block.stringBytes
    | .string => stringText valuestring
    | .array => do
      let t ← elementsText pr format (depth + 1) child
      return 91 :: (t ++ [93])
    | .object => do
      let t ← membersText pr format (depth + 1) child
      return 123 :: (ifFormat format [10] ++ t ++ ifFormat format (tabs depth) ++ [125])
    | .invalid => none

def elementsText (pr : Printing D) (format : Bool) : Nat → List (CJSON D) → Option Bytes
  | _, [] => some []
  | depth, item :: next => do
    let t ← text pr format depth item
    if next.isEmpty then
      return t
    let ts ← elementsText pr format depth next
    return t ++ 44 :: (ifFormat format [32] ++ ts)

def membersText (pr : Printing D) (format : Bool) : Nat → List (CJSON D) → Option Bytes
  | _, [] => some []
  | depth, item :: next => do
    let key ← stringText item.string
    let t ← text pr format depth item
    let ts ← membersText pr format depth next
    return ifFormat format (tabs depth) ++ key ++ 58 :: (ifFormat format [9] ++ t ++
      ((if next.isEmpty then [] else [44]) ++ ifFormat format [10]) ++ ts)

end

/-- The block is a C string, if there is one. -/
def StringOrNull (b : Option Block) : Prop := ∀ b' ∈ b, ∃ s, b'.stringBytes = some s

mutual

/-- All that is printed as a string is one. -/
def Terminated : CJSON D → Prop
  | ⟨child, kind, _, _, valuestring, _, _, _⟩ =>
    match kind with
    | .raw => StringOrNull valuestring
    | .string => StringOrNull valuestring
    | .array => ElementsTerminated child
    | .object => MembersTerminated child
    | _ => True

def ElementsTerminated : List (CJSON D) → Prop
  | [] => True
  | item :: next => Terminated item ∧ ElementsTerminated next

def MembersTerminated : List (CJSON D) → Prop
  | [] => True
  | item :: next => StringOrNull item.string ∧ Terminated item ∧ MembersTerminated next

end

end Text

end VantiqMicro.CJson
