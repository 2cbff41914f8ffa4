import VantiqMicro.Buf
import VantiqMicro.Runs

/-! # The growable buffer is a byte list

What the buffer is for has nothing to do with limits: appending adds bytes at
the end, truncating forgets them, and asking for room changes nothing
(`BufOp.spec`).  `alloc_refines_bytes` says that this is what any sequence of
calls computes, with every store in bounds, as long as no request wraps; the
policy that grows, keeps or shrinks the block cannot be observed.

The requests are for more than is needed, so one can wrap where the length does
not; `makesRoom_iff_requestStored` says when that does harm. -/

namespace VantiqMicro
open CMem

/-- A call on a buffer obtained from `vmebuf_alloc()`. -/
inductive BufOp
  | push (c : UInt8)
  | concat (src : Bytes)
  | ensureIncrSize (incrsize : Nat)
  | truncate
deriving DecidableEq, Repr

namespace BufOp

/-- The call, as `buf.c` makes it. -/
def run (m : SizeT) (buf : VmeBuf) : BufOp → Except Fault VmeBuf
  | push c => vmebufPush m buf c
  | concat src => vmebufConcat m buf src
  | ensureIncrSize incrsize => vmebufEnsureIncrSize m (some buf) incrsize
  | truncate => .ok (vmebufTruncate buf)

/-- The call on the bytes appended since the last truncation. -/
def spec (s : Bytes) : BufOp → Bytes
  | push c => s ++ [c]
  | concat src => s ++ src
  | ensureIncrSize _ => s
  | truncate => []

/-- The size the call requests of a buffer holding `s`. -/
def request (s : Bytes) : BufOp → Nat
  | push _ => s.length + MIN_BUF_SIZE
  | concat src => s.length + src.length + src.length / 2
  | ensureIncrSize incrsize => s.length + incrsize
  | truncate => 0

/-- No request of the sequence wraps. -/
def NoWrap (m : SizeT) (ops : List BufOp) : Prop :=
  Allowed spec (fun s op => m.Fits (op.request s)) [] ops

variable {m : SizeT}

/-- **One call refines its specification.** -/
theorem run_refines (b : VmeBuf) (s : Bytes) (op : BufOp) (h : b.Holds s)
    (hfit : m.Fits (op.request s)) : ∃ b', op.run m b = .ok b' ∧ b'.Holds (op.spec s) := by
  cases op with
  | push c => exact h.push hfit
  | concat src => exact h.concat src hfit
  | ensureIncrSize n =>
    obtain ⟨b', hb', h', -⟩ := h.ensureIncrSize hfit
    exact ⟨b', hb', h'⟩
  | truncate => exact ⟨_, rfl, h.truncate⟩

/-- **The buffer refines a byte list.**  After every step of every sequence of
calls whose requests do not wrap, no access was out of bounds and no assertion
failed, the limit is the allocated size, and the used part is the bytes appended
since the last truncation, which `vmebuf_tostr` returns with one zero byte. -/
theorem alloc_refines_bytes (m : SizeT) (ops : List BufOp) (hops : NoWrap m ops) :
    ∀ done rest, ops = done ++ rest →
      ∃ b, done.foldlM (BufOp.run m) vmebufAlloc = .ok b ∧
        b.len ≤ b.limit ∧ 64 ≤ b.limit ∧ b.data.length = b.limit ∧
        b.data.take b.len = cells (done.foldl spec []) ∧
        (m.Fits (b.len + 1) →
          vmebufTostr m b = .ok (cells (done.foldl spec []) ++ [some 0])) := by
  rintro done rest rfl
  obtain ⟨b, hb, h⟩ := foldlM_refines run_refines hops.left VmeBuf.holds_alloc
  refine ⟨b, hb, h.len_le, h.min_le, h.allocated, h.contents, ?_⟩
  intro hfit
  rw [h.len_eq] at hfit
  exact h.tostr hfit

/-- A buffer that grew to a megabyte and was then shrunk, on a 32-bit machine. -/
theorem alloc_refines_bytes_shrunk :
    ∃ b, [concat [1, 2], ensureIncrSize (1024 * 1024), push 3].foldlM
        (BufOp.run (.bits 32)) vmebufAlloc = .ok b ∧
      b.data.take b.len = cells [1, 2, 3] := by
  have hfits : NoWrap (.bits 32) [concat [1, 2], ensureIncrSize (1024 * 1024), push 3] := by
    refine ⟨?_, ?_, ?_, trivial⟩
    all_goals
      change (_ : Nat) < 2 ^ 32
      decide
  obtain ⟨b, hb, -, -, -, hcontents, -⟩ := alloc_refines_bytes (.bits 32) _ hfits _ []
    (List.append_nil _).symm
  exact ⟨b, hb, hcontents⟩

end BufOp

/-! ## One request of any size

The callers above never request less than the length in use.  `vmebuf_ensure_size` is
public, and takes any request. -/

namespace VmeBuf
variable {b : VmeBuf} {k newSize : Nat}

/-- `b'` is `b` with room for `newSize` bytes, and nothing lost. -/
structure Keeps (b : VmeBuf) (newSize : Nat) (b' : VmeBuf) : Prop where
  len_eq : b'.len = b.len
  contents : b'.data.take b.len = b.data.take b.len
  len_le : b'.len ≤ b'.limit
  allocated : b'.data.length = b'.limit
  room : newSize ≤ b'.limit

/-- Resizing keeps the buffer exactly if the new size covers the length in use. -/
theorem keeps_realloc_iff (hle : b.len ≤ b.limit) (hal : b.data.length = b.limit)
    (hroom : newSize ≤ k) :
    b.Keeps newSize { b with data := b.data.realloc k, limit := k } ↔ b.len ≤ k := by
  constructor
  · intro h
    exact h.len_le
  · intro h
    exact ⟨rfl, Block.take_realloc h (by rw [hal]; exact hle), h, Block.length_realloc, hroom⟩

/-- **A request loses nothing exactly when it does not shrink the buffer below the length
in use**: it is for more than 1 KiB, or the buffer has less than 1 MiB, or the length
is covered by the request or the minimal size. -/
theorem ensureSize_keeps_iff (hle : b.len ≤ b.limit) (hal : b.data.length = b.limit) :
    b.Keeps newSize (vmebufEnsureSize (some b) newSize) ↔
      SML_BUF_SIZE < newSize ∨ b.limit < LRG_BUF_SIZE ∨ b.len ≤ max newSize MIN_BUF_SIZE := by
  have hsml : MIN_BUF_SIZE ≤ SML_BUF_SIZE := by decide
  have hsize : (if newSize < MIN_BUF_SIZE then MIN_BUF_SIZE else newSize) =
      max newSize MIN_BUF_SIZE := by
    split <;> omega
  have hroom : newSize ≤ max newSize MIN_BUF_SIZE := Nat.le_max_left _ _
  simp only [vmebufEnsureSize, Option.getD_some, hsize]
  split
  · -- grown
    rename_i hgrow
    exact iff_of_true ((keeps_realloc_iff hle hal hroom).mpr (by omega)) (by omega)
  · split
    · -- shrunk
      rename_i hshrink
      rw [keeps_realloc_iff hle hal hroom]
      omega
    · exact iff_of_true ⟨rfl, rfl, hle, hal, by omega⟩ (by omega)

/-- Growing a buffer of three bytes. -/
theorem ensureSize_keeps_iff_grown :
    Keeps { len := 3, limit := 64, data := cells [1, 2, 3] ++ malloc 61 } 1000
      (vmebufEnsureSize (some { len := 3, limit := 64, data := cells [1, 2, 3] ++ malloc 61 })
        1000) :=
  (ensureSize_keeps_iff (by decide) rfl).mpr (Or.inr (Or.inl (by decide)))

/-- A megabyte with 2000 bytes in use, of which a request for nothing leaves 64. -/
theorem ensureSize_loses :
    ∃ b : VmeBuf, b.len ≤ b.limit ∧ b.data.length = b.limit ∧ b.limit = 1024 * 1024 ∧
      b.len = 2000 ∧ (vmebufEnsureSize (some b) 0).len = 2000 ∧
      (vmebufEnsureSize (some b) 0).limit = 64 ∧ ¬ b.Keeps 0 (vmebufEnsureSize (some b) 0) := by
  refine ⟨{ len := 2000, limit := 1024 * 1024, data := malloc (1024 * 1024) }, by decide,
    length_malloc _, rfl, rfl, rfl, rfl, ?_⟩
  intro h
  exact absurd h.len_le (show ¬ 2000 ≤ 64 by decide)

end VmeBuf

/-! ## Requests that wrap

`vmebuf_push` and `vmebuf_concat` ask for more room than they need.  The sum can wrap
where the length they need does not, and then the request is for too little, or small
enough to shrink the buffer. -/

namespace VmeBuf
variable {m : SizeT} {b : VmeBuf} {newSize : Nat} {src : Bytes}

/-- The limit a request leaves. -/
def limitFor (b : VmeBuf) (newSize : Nat) : Nat :=
  let newSize := max newSize MIN_BUF_SIZE
  if b.limit < newSize then newSize
  else if newSize ≤ SML_BUF_SIZE ∧ LRG_BUF_SIZE ≤ b.limit then newSize
  else b.limit

/-- A request changes the block and its limit, and nothing else. -/
theorem ensureSize_spec (hal : b.data.length = b.limit) (newSize : Nat) :
    (vmebufEnsureSize (some b) newSize).len = b.len ∧
      (vmebufEnsureSize (some b) newSize).limit = b.limitFor newSize ∧
      (vmebufEnsureSize (some b) newSize).data.length = b.limitFor newSize := by
  have hsize : (if newSize < MIN_BUF_SIZE then MIN_BUF_SIZE else newSize) =
      max newSize MIN_BUF_SIZE := by
    split <;> omega
  simp only [vmebufEnsureSize, Option.getD_some, hsize, limitFor]
  split
  · exact ⟨rfl, rfl, Block.length_realloc⟩
  · split
    · exact ⟨rfl, rfl, Block.length_realloc⟩
    · exact ⟨rfl, rfl, hal⟩

/-- In a buffer with room the loop stores the whole source. -/
theorem appendAll_room (hal : b.data.length = b.limit) (hfit : m.Fits (b.len + src.length))
    (hroom : b.len + src.length ≤ b.limit) :
    ∃ data : Block, data.length = b.limit ∧
      b.appendAll m src = .ok { b with len := b.len + src.length, data } := by
  induction src generalizing b with
  | nil => exact ⟨b.data, hal, rfl⟩
  | cons c src ih =>
    rw [List.length_cons] at hfit hroom
    obtain ⟨data, hd⟩ : ∃ data, b.data.store b.len [some c] = .ok data :=
      ⟨_, Block.store_eq_ok.mpr ⟨by rw [hal, List.length_singleton]; omega, rfl⟩⟩
    have hw : m.wrap (b.len + 1) = b.len + 1 := (hfit.mono (by omega)).wrap_eq
    have happend : b.append m c = .ok { b with len := b.len + 1, data } := by
      rw [VmeBuf.append, hd, ok_bind, hw]
      rfl
    have hnext : b.len + (src.length + 1) = b.len + 1 + src.length := by omega
    rw [hnext] at hfit hroom
    obtain ⟨data', hlen, hall⟩ := ih (b := { b with len := b.len + 1, data })
      ((Block.length_of_store hd).trans hal) hfit hroom
    refine ⟨data', hlen, ?_⟩
    rw [appendAll, happend, ok_bind, hall, List.length_cons, hnext]

/-- Without room it stores outside the block. -/
theorem appendAll_no_room (hal : b.data.length = b.limit) (hfit : m.Fits (b.len + src.length))
    (hne : src ≠ []) (hroom : b.limit < b.len + src.length) :
    b.appendAll m src = .error .outOfBounds := by
  induction src generalizing b with
  | nil => exact absurd rfl hne
  | cons c src ih =>
    rw [List.length_cons] at hfit hroom
    by_cases hlt : b.len < b.limit
    · have hw : m.wrap (b.len + 1) = b.len + 1 := (hfit.mono (by omega)).wrap_eq
      obtain ⟨data, hd⟩ : ∃ data, b.data.store b.len [some c] = .ok data :=
        ⟨_, Block.store_eq_ok.mpr ⟨by rw [hal, List.length_singleton]; omega, rfl⟩⟩
      have happend : b.append m c = .ok { b with len := b.len + 1, data } := by
        rw [VmeBuf.append, hd, ok_bind, hw]
        rfl
      have hnext : b.len + (src.length + 1) = b.len + 1 + src.length := by omega
      rw [hnext] at hfit hroom
      -- what is left of the source is not empty, or it would have had room
      have hsrc : src ≠ [] := by
        rintro rfl
        rw [List.length_nil] at hroom
        omega
      rw [appendAll, happend, ok_bind]
      exact ih (b := { b with len := b.len + 1, data }) ((Block.length_of_store hd).trans hal)
        hfit hsrc hroom
    · have hstore : b.data.store b.len [some c] = .error .outOfBounds :=
        if_neg (by rw [hal, List.length_singleton]; omega)
      rw [appendAll, VmeBuf.append, hstore, error_bind, error_bind]

/-- The loop, and the check after it, pass exactly when there is room. -/
theorem appendAll_checked_iff (src : Bytes) (hal : b.data.length = b.limit)
    (hfit : m.Fits (b.len + src.length)) :
    (∃ b', (do
        let b ← b.appendAll m src
        assert (b.len ≤ b.limit)
        return b) = Except.ok b' ∧
      b.len + src.length ≤ b'.limit ∧ b'.data.length = b'.limit) ↔
    b.len + src.length ≤ b.limit := by
  constructor
  · rintro ⟨b', hb', -, -⟩
    obtain ⟨b₁, hall, hb'⟩ := bind_eq_ok.mp hb'
    obtain ⟨_, hassert, -⟩ := bind_eq_ok.mp hb'
    rw [assert_eq_ok] at hassert
    by_contra hroom
    by_cases hnil : src = []
    · subst hnil
      obtain rfl : b = b₁ := Except.ok.inj hall
      exact hroom hassert
    · rw [appendAll_no_room hal hfit hnil (by omega)] at hall
      cases hall
  · intro hroom
    obtain ⟨data, hdata, hall⟩ := appendAll_room hal hfit hroom
    refine ⟨{ b with len := b.len + src.length, data }, ?_, hroom, hdata⟩
    rw [hall, ok_bind, assert_of hroom]
    rfl

/-- A request leaves a limit of at least its size. -/
theorem le_limitFor (b : VmeBuf) (newSize : Nat) : newSize ≤ b.limitFor newSize := by
  rw [limitFor]
  split
  · exact Nat.le_max_left ..
  · split
    · exact Nat.le_max_left ..
    · omega

end VmeBuf

namespace BufOp
variable {m : SizeT} {b : VmeBuf} {w : Nat}

/-- How many bytes the call appends, or makes room for. -/
def added : BufOp → Nat
  | push _ => 1
  | concat src => src.length
  | ensureIncrSize incrsize => incrsize
  | truncate => 0

/-- The size the call requests of a buffer of length `len`, before it is stored. -/
def requested (len : Nat) : BufOp → Nat
  | push _ => len + MIN_BUF_SIZE
  | concat src => len + src.length + src.length / 2
  | ensureIncrSize incrsize => len + incrsize
  | truncate => 0

/-- The call returns, with every store inside the block, a buffer whose limit covers
what it needs. -/
def MakesRoom (m : SizeT) (b : VmeBuf) (op : BufOp) : Prop :=
  ∃ b', op.run m b = .ok b' ∧ b.len + op.added ≤ b'.limit ∧ b'.data.length = b'.limit

/-- The sum a call requests can be stored; or, for `vmebuf_concat`, the room is there
already and what is stored of the sum is too much to shrink the buffer. -/
def RequestStored (w : Nat) (b : VmeBuf) : BufOp → Prop
  | push _ => b.len + MIN_BUF_SIZE < 2 ^ w
  | concat src =>
    b.len + src.length + src.length / 2 < 2 ^ w ∨
      (b.len + src.length ≤ b.limit ∧
        SML_BUF_SIZE < b.len + src.length + src.length / 2 - 2 ^ w)
  | ensureIncrSize _ => True
  | truncate => True

/-- **A call makes room exactly when the limit its request leaves covers what it
needs.** -/
theorem makesRoom_iff (hal : b.data.length = b.limit) (op : BufOp) (hop : op ≠ truncate)
    (hfit : m.Fits (b.len + op.added)) :
    op.MakesRoom m b ↔ b.len + op.added ≤ b.limitFor (m.wrap (op.requested b.len)) := by
  obtain ⟨b₁, hb₁⟩ : ∃ b₁, vmebufEnsureSize (some b) (m.wrap (op.requested b.len)) = b₁ := ⟨_, rfl⟩
  obtain ⟨hlen₁, hlim₁, hal₁⟩ := VmeBuf.ensureSize_spec hal (m.wrap (op.requested b.len))
  rw [hb₁] at hlen₁ hlim₁ hal₁
  rw [← hlim₁] at hal₁ ⊢
  cases op with
  | push c =>
    have hreq : vmebufEnsureSize (some b) (m.wrap (b.len + MIN_BUF_SIZE)) = b₁ := hb₁
    have hchecked := VmeBuf.appendAll_checked_iff (m := m) [c] hal₁ (by rwa [hlen₁])
    simp only [VmeBuf.appendAll, bind_assoc, ok_bind, hlen₁] at hchecked
    simp only [MakesRoom, run, vmebufPush, hreq]
    exact hchecked
  | concat src =>
    have hreq : vmebufEnsureSize (some b) (m.wrap (b.len + src.length + src.length / 2)) = b₁ := hb₁
    have hchecked := VmeBuf.appendAll_checked_iff (m := m) src hal₁ (by rwa [hlen₁])
    rw [hlen₁] at hchecked
    simp only [MakesRoom, run, vmebufConcat, hreq]
    exact hchecked
  | ensureIncrSize n =>
    have hreq : vmebufEnsureSize (some b) (m.wrap (b.len + n)) = b₁ := hb₁
    simp only [MakesRoom, run, vmebufEnsureIncrSize, Option.elim_some, hreq]
    constructor
    · rintro ⟨b', hb', hroom, -⟩
      obtain ⟨-, -, hret⟩ := bind_eq_ok.mp hb'
      rwa [← Except.ok.inj hret] at hroom
    · intro hroom
      have hle : b₁.len ≤ b₁.limit := by omega
      exact ⟨b₁, by rw [assert_of hle]; rfl, hroom, hal₁⟩
  | truncate => exact absurd rfl hop

/-- A request that is stored as it was computed leaves the room it was for. -/
theorem makesRoom_of_fits (hal : b.data.length = b.limit) (op : BufOp) (hop : op ≠ truncate)
    (hfit : m.Fits (op.requested b.len)) : op.MakesRoom m b := by
  have hadded : b.len + op.added ≤ op.requested b.len := by
    have h64 : 1 ≤ MIN_BUF_SIZE := by decide
    cases op <;> simp only [added, requested] <;> first | omega | exact absurd rfl hop
  rw [makesRoom_iff hal op hop (hfit.mono hadded), hfit.wrap_eq]
  exact Nat.le_trans hadded (VmeBuf.le_limitFor b _)

/-- A push onto a buffer so long that the request wraps shrinks it. -/
theorem not_makesRoom_push {c : UInt8} (hw : 32 ≤ w) (hle : b.len ≤ b.limit)
    (hal : b.data.length = b.limit) (hlen : b.len + 1 < 2 ^ w)
    (hwrap : 2 ^ w ≤ b.len + MIN_BUF_SIZE) :
    ¬ (push c).MakesRoom (.bits w) b := by
  have hpow : 2 ^ 32 ≤ 2 ^ w := Nat.pow_le_pow_right (by decide) hw
  have hmin : MIN_BUF_SIZE = 64 := rfl
  have hsml : SML_BUF_SIZE = 1024 := rfl
  have hlrg : LRG_BUF_SIZE = 1024 * 1024 := rfl
  have hstored : (SizeT.bits w).wrap ((push c).requested b.len) = b.len + MIN_BUF_SIZE - 2 ^ w :=
    SizeT.wrap_bits_of_le hwrap (show b.len + MIN_BUF_SIZE - 2 ^ w < 2 ^ w by omega)
  rw [makesRoom_iff (m := .bits w) hal (push c) (by simp) hlen, hstored, VmeBuf.limitFor,
    Nat.max_eq_right (by omega), if_neg (by omega), if_pos (by omega)]
  show ¬ b.len + 1 ≤ MIN_BUF_SIZE
  omega

/-- A `vmebuf_concat` whose request wraps gets no more room than there was. -/
theorem makesRoom_concat_iff {src : Bytes} (hw : 32 ≤ w) (hal : b.data.length = b.limit)
    (hlen : b.len + src.length < 2 ^ w)
    (hwrap : 2 ^ w ≤ b.len + src.length + src.length / 2) :
    (concat src).MakesRoom (.bits w) b ↔ b.len + src.length ≤ b.limit ∧
      SML_BUF_SIZE < b.len + src.length + src.length / 2 - 2 ^ w := by
  have hpow : 2 ^ 32 ≤ 2 ^ w := Nat.pow_le_pow_right (by decide) hw
  have hmin : MIN_BUF_SIZE = 64 := rfl
  have hsml : SML_BUF_SIZE = 1024 := rfl
  have hlrg : LRG_BUF_SIZE = 1024 * 1024 := rfl
  have hstored : (SizeT.bits w).wrap ((concat src).requested b.len) =
      b.len + src.length + src.length / 2 - 2 ^ w :=
    SizeT.wrap_bits_of_le hwrap (show b.len + src.length + src.length / 2 - 2 ^ w < 2 ^ w by omega)
  rw [makesRoom_iff (m := .bits w) hal (concat src) (by simp) hlen, hstored]
  show b.len + src.length ≤ b.limitFor (b.len + src.length + src.length / 2 - 2 ^ w) ↔ _
  generalize hr : b.len + src.length + src.length / 2 - 2 ^ w = r
  have hlt : max r MIN_BUF_SIZE < b.len + src.length := by omega
  rw [VmeBuf.limitFor]
  split
  · omega
  · split <;> omega

/-- **Which calls make room**, for a length that `size_t` can store: those whose request
it can store too, and a `vmebuf_concat` that needs no room and wraps by more than
a small size. -/
theorem makesRoom_iff_requestStored (hw : 32 ≤ w) (hle : b.len ≤ b.limit)
    (hal : b.data.length = b.limit) (op : BufOp) (hlen : b.len + op.added < 2 ^ w) :
    op.MakesRoom (.bits w) b ↔ op.RequestStored w b := by
  cases op with
  | push c =>
    by_cases hfit : b.len + MIN_BUF_SIZE < 2 ^ w
    · exact iff_of_true (makesRoom_of_fits hal _ (by simp) hfit) hfit
    · exact iff_of_false (not_makesRoom_push hw hle hal hlen (by omega)) hfit
  | concat src =>
    by_cases hfit : b.len + src.length + src.length / 2 < 2 ^ w
    · exact iff_of_true (makesRoom_of_fits hal _ (by simp) hfit) (Or.inl hfit)
    · rw [makesRoom_concat_iff hw hal hlen (by omega), RequestStored, or_iff_right hfit]
  | ensureIncrSize n => exact iff_of_true (makesRoom_of_fits hal _ (by simp) hlen) trivial
  | truncate => exact iff_of_true ⟨_, rfl, hle, hal⟩ trivial

/-- Three bytes onto a fresh buffer of a 32-bit machine. -/
theorem makesRoom_iff_requestStored_fresh :
    (concat [1, 2, 3]).MakesRoom (.bits 32) vmebufAlloc :=
  (makesRoom_iff_requestStored (by decide) (by decide) rfl _ (by decide)).mpr
    (Or.inl (show 0 + 3 + 3 / 2 < 2 ^ 32 by decide))

/-- Three billion bytes onto one: the sum wraps to less than a tenth of that, and the
loop runs out of the block. -/
theorem concat_overruns : ∃ src : Bytes, src.length = 3000000000 ∧
    vmebufAlloc.len + src.length < 2 ^ 32 ∧ ¬ (concat src).MakesRoom (.bits 32) vmebufAlloc ∧
    vmebufConcat (.bits 32) vmebufAlloc src = .error .outOfBounds := by
  obtain ⟨src, hsrc⟩ : ∃ src : Bytes, src.length = 3000000000 :=
    ⟨List.replicate 3000000000 0, List.length_replicate⟩
  have hlen : vmebufAlloc.len = 0 := rfl
  have hal : vmebufAlloc.data.length = vmebufAlloc.limit := rfl
  have hlim : vmebufAlloc.limit = 64 := rfl
  have hstored : (SizeT.bits 32).wrap (vmebufAlloc.len + src.length + src.length / 2) =
      205032704 := by
    rw [hlen, hsrc]
    rfl
  obtain ⟨hlen₁, hlim₁, hal₁⟩ := VmeBuf.ensureSize_spec hal 205032704
  have hlimit : vmebufAlloc.limitFor 205032704 = 205032704 := rfl
  rw [hlimit] at hlim₁ hal₁
  refine ⟨src, hsrc, by omega, ?_, ?_⟩
  · rw [makesRoom_concat_iff (by decide) hal (by omega) (by omega)]
    omega
  · have hne : src ≠ [] := List.ne_nil_of_length_pos (by omega)
    have hfit : (SizeT.bits 32).Fits
        ((vmebufEnsureSize (some vmebufAlloc) 205032704).len + src.length) := by
      rw [hlen₁, hlen, hsrc]
      show 0 + 3000000000 < 2 ^ 32
      decide
    have hall := VmeBuf.appendAll_no_room (hal₁.trans hlim₁.symm) hfit hne
      (by rw [hlim₁, hlen₁, hlen, hsrc]; decide)
    rw [vmebufConcat]
    simp only [hstored, hall, error_bind]

end BufOp

end VantiqMicro
