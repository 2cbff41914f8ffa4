import VantiqMicro.Block

/-! # The growable buffer (`buf.c`)

`vmebuf_t` is a length, a limit and a heap block.  Its functions all size the
block through `vmebuf_ensure_size`, which grows it to a request it cannot hold,
leaves it, or shrinks it to a small request once it has reached a megabyte; the
request is a different sum in each caller, computed in the machine's `size_t`.
The functions return `Except`: a store outside the block and a failed `assert`
are faults.

`Holds b s` is what every caller relies on: `b` is sound and its first `len`
cells are the bytes `s`.  Each function has one lemma that says what it does to
`Holds` when no requested size wraps. -/

namespace VantiqMicro
open CMem

/-- `vmebuf_t`. -/
structure VmeBuf where
  /-- Current length of the buffer (used bytes). -/
  len : Nat
  /-- Maximum length of the buffer (allocated). -/
  limit : Nat
  data : Block
deriving DecidableEq, Repr

def MIN_BUF_SIZE : Nat := 64
def LRG_BUF_SIZE : Nat := 1024 * 1024
def SML_BUF_SIZE : Nat := 1024

/-! ## The functions -/

/-- `vmebuf_ensure_size`; `none` is the `NULL` that asks for a new buffer. -/
def vmebufEnsureSize (buf : Option VmeBuf) (newSize : Nat) : VmeBuf :=
  let buf := buf.getD { len := 0, limit := 0, data := [] }
  let newSize := if newSize < MIN_BUF_SIZE then MIN_BUF_SIZE else newSize
  if buf.limit < newSize then
    { buf with data := buf.data.realloc newSize, limit := newSize }
  else if newSize ≤ SML_BUF_SIZE ∧ LRG_BUF_SIZE ≤ buf.limit then
    -- shrink the buffer in case one outlying use is chewing up lots of mem
    { buf with data := buf.data.realloc newSize, limit := newSize }
  else
    buf

def vmebufAlloc : VmeBuf := vmebufEnsureSize none 0

def vmebufEnsureIncrSize (m : SizeT) (buf : Option VmeBuf) (incrsize : Nat) :
    Except Fault VmeBuf := do
  let result := vmebufEnsureSize buf (m.wrap ((buf.elim 0 VmeBuf.len) + incrsize))
  assert (result.len ≤ result.limit)
  return result

def vmebufTruncate (buf : VmeBuf) : VmeBuf := { buf with len := 0 }

/-- `buf->data[buf->len++] = c`. -/
def VmeBuf.append (m : SizeT) (buf : VmeBuf) (c : UInt8) : Except Fault VmeBuf := do
  let data ← buf.data.store buf.len [some c]
  return { buf with data, len := m.wrap (buf.len + 1) }

def vmebufPush (m : SizeT) (buf : VmeBuf) (c : UInt8) : Except Fault VmeBuf := do
  let buf := vmebufEnsureSize (some buf) (m.wrap (buf.len + MIN_BUF_SIZE))
  let buf ← buf.append m c
  assert (buf.len ≤ buf.limit)
  return buf

/-- The copying loop of `vmebuf_concat`. -/
def VmeBuf.appendAll (m : SizeT) (buf : VmeBuf) : Bytes → Except Fault VmeBuf
  | [] => .ok buf
  | c :: src => do
    let buf ← buf.append m c
    buf.appendAll m src

/-- `vmebuf_concat`; `src` is the `len` bytes at the source pointer. -/
def vmebufConcat (m : SizeT) (dst : VmeBuf) (src : Bytes) : Except Fault VmeBuf := do
  let len := src.length
  let dst := vmebufEnsureSize (some dst) (m.wrap (dst.len + len + len / 2))
  let dst ← dst.appendAll m src
  assert (dst.len ≤ dst.limit)
  return dst

def vmebufTostr (m : SizeT) (buf : VmeBuf) : Except Fault Block := do
  let str := malloc (m.wrap (buf.len + 1))
  let str ← str.memcpy 0 buf.data 0 buf.len
  str.store buf.len [some 0]

/-! ## Soundness and contents -/

/-- The buffer's own accounting is right. -/
structure VmeBuf.Sound (b : VmeBuf) : Prop where
  len_le : b.len ≤ b.limit
  min_le : MIN_BUF_SIZE ≤ b.limit
  allocated : b.data.length = b.limit

/-- The buffer is sound and holds exactly the bytes `s`. -/
structure VmeBuf.Holds (b : VmeBuf) (s : Bytes) : Prop extends b.Sound where
  contents : b.data.take b.len = cells s

namespace VmeBuf
variable {m : SizeT} {b b' : VmeBuf} {s src : Bytes} {n : Nat} {c : UInt8}

theorem Holds.len_eq (h : b.Holds s) : b.len = s.length := by
  have hl := congrArg List.length h.contents
  have := h.len_le
  rw [List.length_take, length_cells, h.allocated] at hl
  omega

/-- Resizing to at least the length in use keeps the contents. -/
theorem Holds.resize (h : b.Holds s) (hmin : MIN_BUF_SIZE ≤ n) (hn : b.len ≤ n) :
    Holds { b with data := b.data.realloc n, limit := n } s where
  len_le := hn
  min_le := hmin
  allocated := Block.length_realloc
  contents := by
    rw [← h.contents]
    exact Block.take_realloc hn (by rw [h.allocated]; exact h.len_le)

/-- **A request for at least the length in use keeps the contents** and makes
room for the request. -/
theorem Holds.ensureSize (h : b.Holds s) (hn : b.len ≤ n) :
    (vmebufEnsureSize (some b) n).Holds s ∧ n ≤ (vmebufEnsureSize (some b) n).limit := by
  unfold vmebufEnsureSize
  simp only [Option.getD_some]
  have hmin : MIN_BUF_SIZE ≤ (if n < MIN_BUF_SIZE then MIN_BUF_SIZE else n) := by split <;> omega
  have hle : n ≤ (if n < MIN_BUF_SIZE then MIN_BUF_SIZE else n) := by split <;> omega
  generalize (if n < MIN_BUF_SIZE then MIN_BUF_SIZE else n) = k at hmin hle
  split
  · exact ⟨h.resize hmin (Nat.le_trans hn hle), hle⟩
  · split
    -- shrinking keeps the contents because the request still covers the length in use
    · exact ⟨h.resize hmin (Nat.le_trans hn hle), hle⟩
    · exact ⟨h, by omega⟩

/-- A new buffer is empty and has the room it was asked for. -/
theorem holds_ensureSize_none (n : Nat) :
    (vmebufEnsureSize none n).Holds [] ∧ n ≤ (vmebufEnsureSize none n).limit := by
  unfold vmebufEnsureSize
  simp only [Option.getD_none]
  have hmin : MIN_BUF_SIZE ≤ (if n < MIN_BUF_SIZE then MIN_BUF_SIZE else n) := by split <;> omega
  have hle : n ≤ (if n < MIN_BUF_SIZE then MIN_BUF_SIZE else n) := by split <;> omega
  generalize (if n < MIN_BUF_SIZE then MIN_BUF_SIZE else n) = k at hmin hle
  have h64 : 0 < MIN_BUF_SIZE := by decide
  rw [if_pos (by omega)]
  exact ⟨⟨⟨Nat.zero_le _, hmin, Block.length_realloc⟩, rfl⟩, hle⟩

theorem holds_alloc : vmebufAlloc.Holds [] := (holds_ensureSize_none 0).1

theorem Holds.truncate (h : b.Holds s) : (vmebufTruncate b).Holds [] :=
  ⟨⟨Nat.zero_le _, h.min_le, h.allocated⟩, rfl⟩

theorem Holds.ensureIncrSize (h : b.Holds s) (hfit : m.Fits (s.length + n)) :
    ∃ b', vmebufEnsureIncrSize m (some b) n = .ok b' ∧ b'.Holds s ∧ s.length + n ≤ b'.limit := by
  have hreq : m.wrap (b.len + n) = s.length + n := by rw [h.len_eq]; exact hfit.wrap_eq
  obtain ⟨h', hlim⟩ := h.ensureSize (n := s.length + n) (by rw [h.len_eq]; omega)
  refine ⟨_, ?_, h', hlim⟩
  rw [vmebufEnsureIncrSize]
  simp only [Option.elim_some, hreq]
  rw [assert_of h'.len_le]
  rfl

/-- One store inside the limit appends one byte. -/
theorem Holds.append (h : b.Holds s) (hlt : s.length < b.limit) (hfit : m.Fits (s.length + 1)) :
    ∃ b', b.append m c = .ok b' ∧ b'.Holds (s ++ [c]) ∧ b'.limit = b.limit := by
  obtain ⟨data, hd⟩ : ∃ data, b.data.store b.len [some c] = .ok data :=
    ⟨_, Block.store_eq_ok.mpr ⟨by rw [h.allocated, h.len_eq]; exact hlt, rfl⟩⟩
  have hw : m.wrap (b.len + 1) = b.len + 1 := by rw [h.len_eq]; exact hfit.wrap_eq
  refine ⟨{ b with data, len := m.wrap (b.len + 1) }, by rw [VmeBuf.append, hd, ok_bind]; rfl,
    ⟨⟨?_, h.min_le, ?_⟩, ?_⟩, rfl⟩
  · show m.wrap (b.len + 1) ≤ b.limit
    rw [hw, h.len_eq]
    exact hlt
  · simp only [Block.length_of_store hd]; exact h.allocated
  · simp only [hw, cells_append, ← h.contents]
    exact Block.take_of_store hd

theorem Holds.appendAll (h : b.Holds s) (src : Bytes) (hle : s.length + src.length ≤ b.limit)
    (hfit : m.Fits (s.length + src.length)) :
    ∃ b', b.appendAll m src = .ok b' ∧ b'.Holds (s ++ src) ∧ b'.limit = b.limit := by
  induction src generalizing b s with
  | nil => exact ⟨b, rfl, by rwa [List.append_nil], rfl⟩
  | cons c src ih =>
    rw [List.length_cons] at hle hfit
    obtain ⟨b₁, hb₁, h₁, hl₁⟩ := h.append (c := c) (m := m) (by omega) (hfit.mono (by omega))
    obtain ⟨b₂, hb₂, h₂, hl₂⟩ := ih h₁
      (by rw [hl₁, List.length_append, List.length_singleton]; omega)
      (hfit.mono (by rw [List.length_append, List.length_singleton]; omega))
    refine ⟨b₂, by rw [VmeBuf.appendAll, hb₁, ok_bind, hb₂], ?_, hl₂.trans hl₁⟩
    rwa [List.append_assoc, List.singleton_append] at h₂

/-- **`vmebuf_push` appends one byte**, in bounds. -/
theorem Holds.push (h : b.Holds s) (hfit : m.Fits (s.length + MIN_BUF_SIZE)) :
    ∃ b', vmebufPush m b c = .ok b' ∧ b'.Holds (s ++ [c]) := by
  have h64 : 1 ≤ MIN_BUF_SIZE := by decide
  have hreq : m.wrap (b.len + MIN_BUF_SIZE) = s.length + MIN_BUF_SIZE := by
    rw [h.len_eq]; exact hfit.wrap_eq
  obtain ⟨h₁, hlim⟩ := h.ensureSize (n := s.length + MIN_BUF_SIZE) (by rw [h.len_eq]; omega)
  obtain ⟨b', hb', h', -⟩ := h₁.append (c := c) (m := m) (by omega) (hfit.mono (by omega))
  refine ⟨b', ?_, h'⟩
  rw [vmebufPush]
  simp only [hreq]
  rw [hb', ok_bind, assert_of h'.len_le]
  rfl

/-- **`vmebuf_concat` appends its source**, in bounds. -/
theorem Holds.concat (h : b.Holds s) (src : Bytes)
    (hfit : m.Fits (s.length + src.length + src.length / 2)) :
    ∃ b', vmebufConcat m b src = .ok b' ∧ b'.Holds (s ++ src) := by
  have hreq : m.wrap (b.len + src.length + src.length / 2) =
      s.length + src.length + src.length / 2 := by
    rw [h.len_eq]; exact hfit.wrap_eq
  obtain ⟨h₁, hlim⟩ := h.ensureSize (n := s.length + src.length + src.length / 2)
    (by rw [h.len_eq]; omega)
  obtain ⟨b', hb', h', -⟩ := h₁.appendAll src (m := m) (by omega) (hfit.mono (by omega))
  refine ⟨b', ?_, h'⟩
  rw [vmebufConcat]
  simp only [hreq]
  rw [hb', ok_bind, assert_of h'.len_le]
  rfl

/-- **`vmebuf_tostr` returns the contents and one zero byte.** -/
theorem Holds.tostr (h : b.Holds s) (hfit : m.Fits (s.length + 1)) :
    vmebufTostr m b = .ok (cells s ++ [some 0]) := by
  have hw : m.wrap (b.len + 1) = s.length + 1 := by rw [h.len_eq]; exact hfit.wrap_eq
  have hload : b.data.load 0 b.len = .ok (cells s) :=
    Block.load_eq_ok.mpr ⟨by rw [h.allocated, Nat.zero_add]; exact h.len_le, h.contents.symm⟩
  have hcopy : (malloc (s.length + 1)).memcpy 0 b.data 0 b.len = .ok (cells s ++ [none]) := by
    rw [Block.memcpy, hload, ok_bind]
    refine Block.store_eq_ok.mpr ⟨by simp, ?_⟩
    simp [malloc]
  rw [vmebufTostr]
  simp only [hw]
  rw [hcopy, ok_bind, h.len_eq]
  refine Block.store_eq_ok.mpr ⟨by simp, ?_⟩
  rw [List.take_left' (length_cells s), List.drop_of_length_le (by simp), List.append_nil]

end VmeBuf

end VantiqMicro
