import Mathlib.Algebra.Group.Int.Defs
import Mathlib.Algebra.Group.Nat.Defs
import Mathlib.Data.List.Basic
import Mathlib.Data.List.TakeWhile

/-! # Blocks of memory and the C strings in them

The part of C's memory model that string and buffer code lives on: a heap object
is a list of cells as long as its allocation, a cell holds a byte once something
has been stored in it, and every access is checked against the allocation.  An
access outside it is not given a meaning; it is a `Fault`, like a failed
assertion.  Allocation itself is taken to succeed.

A C string is a byte list without a zero byte (`CString`); a block holds it when
its bytes are followed by a zero (`CString.toBlock`), and `Block.string?` is how
`strlen`, `strdup` or `%s` read it back. -/

namespace CMem

abbrev Bytes := List UInt8

/-- What a C function can run into instead of returning. -/
inductive Fault
  /-- An access outside the allocated block. -/
  | outOfBounds
  /-- A string without a terminator inside its block. -/
  | unterminated
  /-- `NULL` handed to a function that reads through it. -/
  | nullPointer
  /-- A pointer to something other than the live object it should point to. -/
  | badPointer
  /-- `assert`. -/
  | assertion
  /-- `abort`. -/
  | aborted
deriving DecidableEq, Repr

/-! ## Bytes before a separator -/

section Separator
variable {c : UInt8} {s : Bytes}

theorem takeWhile_ne_of_not_mem (h : c ∉ s) : s.takeWhile (· != c) = s := by
  rw [List.takeWhile_eq_self_iff]
  intro x hx
  rw [bne_iff_ne]
  rintro rfl
  exact h hx

theorem takeWhile_ne_append (h : c ∉ s) (t : Bytes) : (s ++ c :: t).takeWhile (· != c) = s := by
  rw [List.takeWhile_append_of_pos (List.takeWhile_eq_self_iff.mp (takeWhile_ne_of_not_mem h)),
    List.takeWhile_cons_of_neg (by simp), List.append_nil]

theorem dropWhile_ne_append (h : c ∉ s) (t : Bytes) :
    (s ++ c :: t).dropWhile (· != c) = c :: t := by
  rw [List.dropWhile_append_of_pos (List.takeWhile_eq_self_iff.mp (takeWhile_ne_of_not_mem h)),
    List.dropWhile_cons_of_neg (by simp)]

end Separator

/-! ## Sequencing -/

section Bind
variable {ε α β : Type} {x : Except ε α} {f : α → Except ε β} {a : α} {b : β}

@[simp] theorem pure_eq_ok : (pure a : Except ε α) = .ok a := rfl

@[simp] theorem ok_bind : ((Except.ok a : Except ε α) >>= f) = f a := rfl

@[simp] theorem error_bind {e : ε} : ((Except.error e : Except ε α) >>= f) = .error e := rfl

/-- A sequence returns exactly when its parts do. -/
theorem bind_eq_ok : (x >>= f) = .ok b ↔ ∃ a, x = .ok a ∧ f a = .ok b := by
  cases x with
  | error e => simp
  | ok a => simp

end Bind

/-- `assert(p)`. -/
def assert (p : Prop) [Decidable p] : Except Fault Unit :=
  if p then .ok () else .error .assertion

theorem assert_of {p : Prop} [Decidable p] (h : p) : assert p = .ok () := if_pos h

theorem assert_eq_ok {p : Prop} [Decidable p] {u : Unit} : assert p = .ok u ↔ p := by
  unfold assert
  split <;> simp_all

/-! ## Sizes -/

/-- How the machine stores a `size_t`: `exact` is the reading in which no size
wraps, `bits w` keeps the low `w` bits. -/
inductive SizeT
  | exact
  | bits (w : Nat)
deriving DecidableEq, Repr

namespace SizeT

/-- The stored value of a size computed as `n`. -/
def wrap : SizeT → Nat → Nat
  | exact, n => n
  | bits w, n => n % 2 ^ w

/-- No size up to `n` wraps. -/
def Fits : SizeT → Nat → Prop
  | exact, _ => True
  | bits w, n => n < 2 ^ w

variable {m : SizeT} {k n : Nat}

theorem Fits.wrap_eq (h : m.Fits n) : m.wrap n = n := by
  cases m with
  | exact => rfl
  | bits w => exact Nat.mod_eq_of_lt h

/-- A sum that is too large by less than a turn is stored as what it exceeds it by. -/
theorem wrap_bits_of_le {w : Nat} (h : 2 ^ w ≤ n) (hlt : n - 2 ^ w < 2 ^ w) :
    (bits w).wrap n = n - 2 ^ w := by
  rw [wrap, Nat.mod_eq_sub_mod h, Nat.mod_eq_of_lt hlt]

theorem Fits.mono (h : m.Fits n) (hk : k ≤ n) : m.Fits k := by
  cases m with
  | exact => trivial
  | bits w => exact Nat.lt_of_le_of_lt hk h

end SizeT

/-! ## Blocks -/

/-- One byte of allocated memory: `none` until something is stored there. -/
abbrev Cell := Option UInt8

/-- A heap object; its length is the allocated size. -/
abbrev Block := List Cell

/-- Cells holding the given bytes. -/
def cells (s : Bytes) : Block := s.map some

@[simp] theorem cells_nil : cells [] = [] := rfl

@[simp] theorem length_cells (s : Bytes) : (cells s).length = s.length := List.length_map ..

@[simp] theorem cells_append (s t : Bytes) : cells (s ++ t) = cells s ++ cells t :=
  List.map_append

theorem cells_cons (c : UInt8) (s : Bytes) : cells (c :: s) = some c :: cells s := rfl

theorem cells_injective : Function.Injective cells := by
  intro s t h
  exact List.map_injective_iff.mpr (fun _ _ => Option.some.inj) h

def malloc (n : Nat) : Block := List.replicate n none

@[simp] theorem length_malloc (n : Nat) : (malloc n).length = n := List.length_replicate ..

namespace Block

/-- `realloc`: what fits of the old contents is kept, the rest is fresh. -/
def realloc (b : Block) (n : Nat) : Block := b.take n ++ malloc (n - b.length)

/-- The `n` cells of `b` from index `i` on. -/
def load (b : Block) (i n : Nat) : Except Fault Block :=
  if i + n ≤ b.length then .ok ((b.drop i).take n) else .error .outOfBounds

/-- `b` with the cells `c` stored from index `i` on. -/
def store (b : Block) (i : Nat) (c : Block) : Except Fault Block :=
  if i + c.length ≤ b.length then .ok (b.take i ++ c ++ b.drop (i + c.length))
  else .error .outOfBounds

/-- `memcpy(dst + i, src + j, n)`. -/
def memcpy (dst : Block) (i : Nat) (src : Block) (j n : Nat) : Except Fault Block := do
  let c ← src.load j n
  dst.store i c

variable {b b' c : Block} {i j n : Nat}

@[simp] theorem length_realloc : (b.realloc n).length = n := by
  simp only [realloc, List.length_append, List.length_take, length_malloc]
  omega

theorem take_realloc (h : i ≤ n) (hb : i ≤ b.length) : (b.realloc n).take i = b.take i := by
  rw [realloc, List.take_append_of_le_length (by simp; omega), List.take_take, Nat.min_eq_left h]

theorem load_eq_ok : b.load i n = .ok c ↔ i + n ≤ b.length ∧ c = (b.drop i).take n := by
  unfold load
  split
  · rename_i h
    simp [h, eq_comm]
  · rename_i h
    simp [h]

theorem store_eq_ok : b.store i c = .ok b' ↔
    i + c.length ≤ b.length ∧ b' = b.take i ++ c ++ b.drop (i + c.length) := by
  unfold store
  split
  · rename_i h
    simp [h, eq_comm]
  · rename_i h
    simp [h]

theorem length_of_store (h : b.store i c = .ok b') : b'.length = b.length := by
  obtain ⟨hle, rfl⟩ := store_eq_ok.mp h
  simp only [List.length_append, List.length_take, List.length_drop]
  omega

/-- A store leaves what is before it and shows what it stored. -/
theorem take_of_store (h : b.store i c = .ok b') : b'.take (i + c.length) = b.take i ++ c := by
  obtain ⟨hle, rfl⟩ := store_eq_ok.mp h
  have hlen : (b.take i ++ c).length = i + c.length := by
    rw [List.length_append, List.length_take_of_le (by omega)]
  rw [List.take_append_of_le_length (Nat.le_of_eq hlen.symm),
    List.take_of_length_le (Nat.le_of_eq hlen)]

/-- Copying a whole block's first `n` cells into a fresh block of that size. -/
theorem memcpy_malloc (h : n ≤ b.length) : memcpy (malloc n) 0 b 0 n = .ok (b.take n) := by
  have hl : b.load 0 n = .ok (b.take n) := load_eq_ok.mpr ⟨by omega, by simp⟩
  rw [memcpy, hl, ok_bind]
  refine store_eq_ok.mpr ⟨?_, ?_⟩
  · rw [List.length_take_of_le h, length_malloc, Nat.zero_add]
  rw [List.length_take, Nat.min_eq_left h, List.drop_of_length_le (by simp)]
  simp

/-- Copying bytes into a fresh block and terminating them: possible exactly when
the block has room for both. -/
theorem memcpy_terminate_eq_ok {n j k : Nat} {v : Bytes} {d : Block}
    (hsrc : b.load j k = .ok (cells v)) :
    (do
      let dst ← memcpy (malloc n) 0 b j k
      dst.store v.length [some 0]) = .ok d ↔
    v.length < n ∧ d = cells v ++ some 0 :: malloc (n - (v.length + 1)) := by
  simp only [memcpy, hsrc, ok_bind, bind_eq_ok, store_eq_ok]
  have hmid : (malloc n).take 0 ++ cells v ++ (malloc n).drop (0 + (cells v).length) =
      cells v ++ malloc (n - v.length) := by
    simp [malloc]
  have hend : (cells v ++ malloc (n - v.length)).take v.length ++ [some 0] ++
      (cells v ++ malloc (n - v.length)).drop (v.length + [some (0 : UInt8)].length) =
      cells v ++ some 0 :: malloc (n - (v.length + 1)) := by
    have hdrop : (cells v).drop (v.length + 1) = [] := List.drop_of_length_le (by simp)
    simp [malloc, List.drop_append, hdrop, Nat.sub_sub]
  constructor
  · rintro ⟨b₁, ⟨h₁, rfl⟩, h₂, rfl⟩
    rw [hmid] at h₂ ⊢
    refine ⟨?_, hend⟩
    simp only [List.length_append, length_cells, length_malloc, List.length_singleton] at h₁ h₂
    omega
  · rintro ⟨hlt, rfl⟩
    refine ⟨_, ⟨?_, rfl⟩, ?_, ?_⟩
    · simp only [length_cells, length_malloc]
      omega
    · rw [hmid]
      simp only [List.length_append, length_cells, length_malloc, List.length_singleton]
      omega
    · rw [hmid, hend]

end Block

/-! ## C strings -/

/-- The characters of a C string, without its terminator. -/
structure CString where
  bytes : Bytes
  nulFree : 0 ∉ bytes
deriving DecidableEq, Repr

/-- The bytes of a string literal of ASCII characters. -/
def ascii (s : String) : Bytes := s.toList.map fun c => UInt8.ofNat c.toNat

theorem nulFree_takeWhile (s : Bytes) : 0 ∉ s.takeWhile (· != 0) := by
  intro h
  exact absurd (List.mem_takeWhile_imp h) (by simp)

/-- A string literal: the characters up to a zero, if it has one. -/
def lit (s : String) : CString := ⟨(ascii s).takeWhile (· != 0), nulFree_takeWhile _⟩

namespace CString

instance : Inhabited CString := ⟨⟨[], List.not_mem_nil⟩⟩

@[ext] theorem ext {s t : CString} (h : s.bytes = t.bytes) : s = t := by
  cases s; cases t; cases h; rfl

/-- `strlen`. -/
def length (s : CString) : Nat := s.bytes.length

instance : Append CString :=
  ⟨fun s t => ⟨s.bytes ++ t.bytes, by simp [s.nulFree, t.nulFree]⟩⟩

@[simp] theorem bytes_append (s t : CString) : (s ++ t).bytes = s.bytes ++ t.bytes := rfl

@[simp] theorem length_append (s t : CString) : (s ++ t).length = s.length + t.length :=
  List.length_append

theorem append_assoc (s t u : CString) : s ++ t ++ u = s ++ (t ++ u) :=
  ext (List.append_assoc ..)

@[simp] theorem append_lit_empty (s : CString) : s ++ lit "" = s := ext (List.append_nil _)

/-- `strdup`: the characters and the terminator. -/
def toBlock (s : CString) : Block := cells s.bytes ++ [some 0]

@[simp] theorem length_toBlock (s : CString) : s.toBlock.length = s.length + 1 := by
  simp [toBlock, length]

/-- `s[strlen(s) - 1]`, which for the empty string is outside it. -/
def lastChar (s : CString) : Except Fault UInt8 :=
  match s.bytes.getLast? with
  | some c => .ok c
  | none => .error .outOfBounds

theorem lastChar_eq_ok {s : CString} {c : UInt8} :
    s.lastChar = .ok c ↔ s.bytes.getLast? = some c := by
  unfold lastChar
  cases s.bytes.getLast? <;> simp

/-- Only the empty string has no last character. -/
theorem exists_lastChar {s : CString} (h : s.bytes ≠ []) : ∃ c, s.lastChar = .ok c :=
  ⟨s.bytes.getLast h, lastChar_eq_ok.mpr (List.getLast?_eq_some_getLast h)⟩

end CString

namespace Block

/-- The bytes up to the first zero. -/
def stringBytes : Block → Option Bytes
  | some c :: b => if c = 0 then some [] else (stringBytes b).map (c :: ·)
  | _ => none

theorem nulFree_of_stringBytes {b : Block} {s : Bytes} (h : b.stringBytes = some s) : 0 ∉ s := by
  induction b generalizing s with
  | nil => simp [stringBytes] at h
  | cons x b ih =>
    cases x with
    | none => simp [stringBytes] at h
    | some c =>
      rw [stringBytes] at h
      split at h
      · cases h
        exact List.not_mem_nil
      · obtain ⟨t, ht, rfl⟩ := Option.map_eq_some_iff.mp h
        simp only [List.mem_cons, not_or]
        exact ⟨fun h0 => ‹¬c = 0› h0.symm, ih ht⟩

/-- The string a pointer to the block's first byte denotes: the bytes up to the
first zero, which must stand inside the block. -/
def string? (b : Block) : Option CString :=
  match h : b.stringBytes with
  | some s => some ⟨s, nulFree_of_stringBytes h⟩
  | none => none

/-- `string?` for code that reads the string. -/
def readString (b : Block) : Except Fault CString :=
  match b.string? with
  | some s => .ok s
  | none => .error .unterminated

theorem string?_eq_some {b : Block} {s : CString} :
    b.string? = some s ↔ b.stringBytes = some s.bytes := by
  unfold string?
  split
  · rename_i t h
    simp [h, CString.ext_iff]
  · rename_i h
    simp [h]

/-- Terminated bytes are read up to their first zero. -/
theorem stringBytes_cells_zero (s : Bytes) (b : Block) :
    stringBytes (cells s ++ some 0 :: b) = some (s.takeWhile (· != 0)) := by
  induction s with
  | nil => simp [stringBytes]
  | cons c s ih =>
    rw [cells_cons, List.cons_append, stringBytes, ih]
    by_cases hc : c = 0 <;> simp [hc]

theorem stringBytes_cells_append {s : Bytes} (hs : 0 ∉ s) (b : Block) :
    stringBytes (cells s ++ some 0 :: b) = some s := by
  rw [stringBytes_cells_zero, takeWhile_ne_of_not_mem hs]

/-- Cells that hold no zero byte are no string. -/
theorem stringBytes_cells {s : Bytes} (hs : 0 ∉ s) : stringBytes (cells s) = none := by
  induction s with
  | nil => rfl
  | cons c s ih =>
    obtain ⟨hc, hs⟩ := not_or.mp (fun h => hs (List.mem_cons.mpr h))
    rw [cells_cons, stringBytes, if_neg (Ne.symm hc), ih hs]
    rfl

theorem string?_cells {s : Bytes} (hs : 0 ∉ s) : string? (cells s) = none := by
  rw [Option.eq_none_iff_forall_ne_some]
  intro t ht
  rw [string?_eq_some, stringBytes_cells hs] at ht
  cases ht

@[simp] theorem string?_toBlock (s : CString) : s.toBlock.string? = some s :=
  string?_eq_some.mpr (stringBytes_cells_append s.nulFree [])

theorem readString_eq_ok {b : Block} {s : CString} :
    b.readString = .ok s ↔ b.stringBytes = some s.bytes := by
  rw [← string?_eq_some, readString]
  cases b.string? <;> simp

/-- A terminated string is read back whatever follows its terminator. -/
theorem readString_append (s : CString) (b : Block) : (s.toBlock ++ b).readString = .ok s := by
  rw [readString_eq_ok, CString.toBlock, List.append_assoc]
  exact stringBytes_cells_append s.nulFree b

@[simp] theorem readString_toBlock (s : CString) : s.toBlock.readString = .ok s := by
  rw [readString, string?_toBlock]

/-- `strcpy(dst + i, src)`. -/
def strcpy (dst : Block) (i : Nat) (src : CString) : Except Fault Block :=
  dst.store i src.toBlock

/-- `strcat(dst, src)`. -/
def strcat (dst : Block) (src : CString) : Except Fault Block := do
  let s ← dst.readString
  dst.store s.length src.toBlock

/-- A string copied into a fresh block that has room for it. -/
theorem strcpy_malloc {n : Nat} {s : CString} (h : s.length < n) :
    strcpy (malloc n) 0 s = .ok (s.toBlock ++ malloc (n - (s.length + 1))) := by
  refine store_eq_ok.mpr ⟨by simp; omega, ?_⟩
  simp [malloc]

/-- A string copied over the terminator of another. -/
theorem strcpy_end {s t : CString} {k : Nat} (h : t.length ≤ k) :
    strcpy (s.toBlock ++ malloc k) s.length t =
      .ok ((s ++ t).toBlock ++ malloc (k - t.length)) := by
  refine store_eq_ok.mpr ⟨by simp; omega, ?_⟩
  have hl : s.length = (cells s.bytes).length := by simp [CString.length]
  have htake : (s.toBlock ++ malloc k).take s.length = cells s.bytes := by
    rw [CString.toBlock, List.append_assoc, hl, List.take_left]
  have hdrop : (s.toBlock ++ malloc k).drop (s.length + t.toBlock.length) =
      malloc (k - t.length) := by
    rw [List.drop_append, List.drop_of_length_le (by simp)]
    simp only [CString.length_toBlock, malloc, List.drop_replicate, List.nil_append]
    congr 1
    omega
  rw [htake, hdrop]
  simp [CString.toBlock]

theorem strcat_malloc {s t : CString} {k : Nat} (h : t.length ≤ k) :
    strcat (s.toBlock ++ malloc k) t = .ok ((s ++ t).toBlock ++ malloc (k - t.length)) := by
  rw [strcat, readString_append, ok_bind]
  exact strcpy_end h

/-- `snprintf(dst, size, ...)` for a format that expands to `text`: at most
`size - 1` characters and a terminator are written, and the length of the whole
expansion is returned.  Where that length is no `int` the call fails, and what it
leaves in the block is not specified. -/
def snprintf (INT_MAX : Nat) (dst : Block) (size : Nat) (text : CString) :
    Except Fault (Int × Block) := do
  if INT_MAX < text.length then
    return (-1, malloc dst.length)
  if size = 0 then
    return (text.length, dst)
  let dst ← dst.store 0 (cells (text.bytes.take (size - 1)) ++ [some 0])
  return (text.length, dst)

section Print
variable {INT_MAX size : Nat} {text : CString}

/-- An expansion that fits is written whole. -/
theorem snprintf_of_le (h : text.length ≤ INT_MAX) (hlt : text.length < size) :
    (malloc size).snprintf INT_MAX size text =
      .ok (text.length, text.toBlock ++ malloc (size - (text.length + 1))) := by
  have hs : (malloc size).store 0 text.toBlock =
      .ok (text.toBlock ++ malloc (size - (text.length + 1))) := by
    refine store_eq_ok.mpr ⟨by simp; omega, ?_⟩
    simp [malloc]
  have ht : cells (text.bytes.take (size - 1)) ++ [some 0] = text.toBlock := by
    rw [List.take_of_length_le (by unfold CString.length at hlt; omega), CString.toBlock]
  rw [snprintf, if_neg (Nat.not_lt.mpr h), if_neg (by omega), ht, hs]
  rfl

theorem snprintf_of_lt (h : INT_MAX < text.length) :
    (malloc size).snprintf INT_MAX size text = .ok (-1, malloc size) := by
  rw [snprintf, if_pos h, length_malloc]
  rfl

/-- A block nothing was stored in holds no string. -/
theorem malloc_ne_toBlock (n : Nat) (s : CString) (b : Block) : malloc n ≠ s.toBlock ++ b := by
  intro h
  have hmem : some 0 ∈ malloc n := by
    rw [h, CString.toBlock]
    simp
  cases List.eq_of_mem_replicate hmem

/-- Nor does one read as any. -/
theorem readString_malloc (n : Nat) : (malloc n).readString = .error .unterminated := by
  have hnone : (malloc n).string? = none := by
    rw [Option.eq_none_iff_forall_ne_some]
    intro s hs
    rw [string?_eq_some] at hs
    cases n <;> cases hs
  rw [readString, hnone]

end Print

/-! ## Pointers into a string -/

/-- `b[i]`, where something has been stored. -/
def byte (b : Block) (i : Nat) : Except Fault UInt8 :=
  match b[i]? with
  | some (some c) => .ok c
  | some none => .error .unterminated
  | none => .error .outOfBounds

/-- How far `while (p(*s)) s++` goes from the first byte. -/
def span (p : UInt8 → Bool) : Block → Except Fault Nat
  | some c :: b => if p c then (· + 1) <$> span p b else .ok 0
  | none :: _ => .error .unterminated
  | [] => .error .outOfBounds

/-- Where `while (p(*s)) s++` ends when it starts at index `i`. -/
def skipWhile (p : UInt8 → Bool) (b : Block) (i : Nat) : Except Fault Nat :=
  (i + ·) <$> span p (b.drop i)

theorem byte_append (a b : Block) (c : UInt8) :
    (a ++ some c :: b).byte a.length = .ok c := by
  simp [byte]

/-- A store of one byte over another. -/
theorem store_byte (a b : Block) (x y : Cell) :
    (a ++ x :: b).store a.length [y] = .ok (a ++ y :: b) := by
  refine store_eq_ok.mpr ⟨by simp, ?_⟩
  simp [List.drop_append]

/-- A walk that stops at the terminator stays inside the string. -/
theorem span_cells {p : UInt8 → Bool} (hp : p 0 = false) (s : Bytes) (b : Block) :
    span p (cells s ++ some 0 :: b) = .ok (s.takeWhile p).length := by
  induction s with
  | nil => simp [span, hp]
  | cons c s ih =>
    rw [cells_cons, List.cons_append, span, ih, List.takeWhile_cons]
    by_cases hc : p c <;> simp [hc]

theorem skipWhile_cells {p : UInt8 → Bool} (hp : p 0 = false) (a : Block) (s : Bytes)
    (b : Block) : skipWhile p (a ++ (cells s ++ some 0 :: b)) a.length =
      .ok (a.length + (s.takeWhile p).length) := by
  rw [skipWhile, List.drop_left, span_cells hp]
  rfl

end Block

/-! ## Decimal numerals -/

/-- The expansion of `%d` for a number that is not negative. -/
def decimal (n : Nat) : CString :=
  ⟨(Nat.toDigits 10 n).map fun c => UInt8.ofNat c.toNat, by
    intro h
    obtain ⟨c, hc, hz⟩ := List.mem_map.mp h
    have hd : c.isDigit := Nat.isDigit_of_mem_toDigits (by decide) (by decide) hc
    have hr : 48 ≤ c.toNat ∧ c.toNat ≤ 57 := by
      simp only [Char.isDigit, Bool.and_eq_true, decide_eq_true_eq] at hd
      exact ⟨UInt32.le_iff_toNat_le.mp hd.1, UInt32.le_iff_toNat_le.mp hd.2⟩
    have h0 : (UInt8.ofNat c.toNat).toNat = 0 := by rw [hz]; rfl
    rw [UInt8.toNat_ofNat', Nat.mod_eq_of_lt (by omega)] at h0
    omega⟩

/-- A numeral consists of digits. -/
theorem mem_decimal {n : Nat} {b : UInt8} (h : b ∈ (decimal n).bytes) :
    48 ≤ b.toNat ∧ b.toNat ≤ 57 := by
  obtain ⟨c, hc, rfl⟩ := List.mem_map.mp h
  have hd : c.isDigit := Nat.isDigit_of_mem_toDigits (by decide) (by decide) hc
  simp only [Char.isDigit, Bool.and_eq_true, decide_eq_true_eq] at hd
  have h48 : 48 ≤ c.toNat := UInt32.le_iff_toNat_le.mp hd.1
  have h57 : c.toNat ≤ 57 := UInt32.le_iff_toNat_le.mp hd.2
  rw [UInt8.toNat_ofNat', Nat.mod_eq_of_lt (by omega)]
  exact ⟨h48, h57⟩

end CMem
