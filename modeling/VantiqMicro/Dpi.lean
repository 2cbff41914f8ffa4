import VantiqMicro.Buf

/-! # The deep packet inspector's client (`dpi_client.c`)

`fetch_discovery_msg` waits for its socket, reads until a `recv` returns less than
it was asked for, acknowledges, and returns what it read.  Its buffer is a
`vmebuf_t`, but the loop does its own growing: it doubles the limit after every
full read and never goes through `vmebuf_ensure_size`.

What the socket does is a parameter: the outcome of `select`, and one result for
each `recv`.  With fewer results than it makes calls the function is left in the
call it is blocked in, which is a value of `Fetch` like the others; `abort` is a
fault.  So is `memory`, what happens to be in the allocated memory that nothing has
been stored to: the comparison with the end of the transmission reads one byte
more than the peer sends.

`Listening buf avail got` is the loop invariant and `fetchRecv_full`,
`fetchRecv_short` what one `recv` does to it. -/

namespace CMem

namespace SizeT

/-- The difference of two sizes, as the machine stores it. -/
def sub : SizeT → Nat → Nat → Nat
  | exact, a, b => a - b
  | bits w, a, b => (2 ^ w + a - b) % 2 ^ w

/-- What the C standard promises of `SIZE_MAX`. -/
def Standard (m : SizeT) : Prop := m.Fits 65535

variable {m : SizeT} {a b n : Nat}

theorem Fits.sub_eq (h : m.Fits a) (hle : b ≤ a) : m.sub a b = a - b := by
  cases m with
  | exact => rfl
  | bits w =>
    have hlt : a < 2 ^ w := h
    rw [sub, Nat.add_sub_assoc hle, Nat.add_mod_left, Nat.mod_eq_of_lt (by omega)]

/-- A stored size that is not what was computed is less by a whole turn. -/
theorem wrap_le_of_not_fits (h : m.Fits a) (hn : ¬ m.Fits (2 * a)) : m.wrap (2 * a) ≤ a := by
  cases m with
  | exact => exact absurd trivial hn
  | bits w =>
    have hlt : a < 2 ^ w := h
    have hge : 2 ^ w ≤ 2 * a := Nat.le_of_not_lt hn
    rw [wrap, Nat.mod_eq_sub_mod hge, Nat.mod_eq_of_lt (by omega)]
    omega

/-- The difference to it then comes out as the size itself. -/
theorem sub_wrap_of_not_fits (h : m.Fits a) (hn : ¬ m.Fits (2 * a)) :
    m.sub (m.wrap (2 * a)) a = a := by
  cases m with
  | exact => exact absurd trivial hn
  | bits w =>
    have hlt : a < 2 ^ w := h
    have hge : 2 ^ w ≤ 2 * a := Nat.le_of_not_lt hn
    have hwrap : 2 * a % 2 ^ w = 2 * a - 2 ^ w := by
      rw [Nat.mod_eq_sub_mod hge, Nat.mod_eq_of_lt (by omega)]
    have hsub : 2 ^ w + (2 * a - 2 ^ w) - a = a := by omega
    rw [sub, wrap, hwrap, hsub, Nat.mod_eq_of_lt hlt]

end SizeT

/-- The first `n` bytes of a block, of which those nothing was stored to are what
`memory` has there. -/
def Block.peek (memory : Nat → UInt8) (b : Block) (n : Nat) : Except Fault Bytes := do
  let c ← b.load 0 n
  return c.mapIdx fun i cell => cell.getD (memory i)

/-- One byte past those stored the memory shows through. -/
theorem Block.peek_cells {memory : Nat → UInt8} {s : Bytes} {n r : Nat} (hn : n ≤ s.length + 1)
    (hr : n ≤ s.length + r) :
    Block.peek memory (cells s ++ malloc r) n = .ok ((s ++ [memory s.length]).take n) := by
  have hload : (cells s ++ malloc r).load 0 n = .ok ((cells s ++ malloc r).take n) :=
    Block.load_eq_ok.mpr ⟨by simpa using hr, rfl⟩
  rw [Block.peek, hload, ok_bind, pure_eq_ok, Except.ok.injEq]
  apply List.ext_getElem?
  intro i
  rw [List.getElem?_mapIdx, List.getElem?_take, List.getElem?_take]
  split
  · rcases Nat.lt_or_ge i s.length with hlt | hge
    · rw [List.getElem?_append_left (by simpa using hlt), List.getElem?_append_left hlt, cells,
        List.getElem?_map, List.getElem?_eq_getElem hlt]
      rfl
    · obtain rfl : i = s.length := by omega
      rw [List.getElem?_append_right (by simp), length_cells, Nat.sub_self, malloc,
        List.getElem?_replicate_of_lt (by omega), List.getElem?_concat_length]
      rfl
  · rfl

end CMem

namespace VantiqMicro
open CMem

def INITBUFSIZE : Nat := 512
def PROT_EOT : CString := lit "EOT"
def PROT_ACK : CString := lit "ACK"

/-! ## The function -/

/-- The outcome of `select`. -/
inductive Activity
  | timedOut
  | error
  | ready
deriving DecidableEq, Repr

/-- The result of a `recv`: the bytes it stored, or -1. -/
inductive Recv
  | bytes (data : Bytes)
  | error
deriving DecidableEq, Repr

/-- Where `fetch_discovery_msg` is. -/
inductive Fetch
  | selecting
  /-- In a `recv` for `avail` bytes at `data + len`. -/
  | receiving (buf : VmeBuf) (avail : Nat)
  /-- Past its return, with the bytes it has sent. -/
  | returned (msg : Option Block) (sent : Bytes)
deriving DecidableEq, Repr

/-- What the function depends on besides the calls on the socket. -/
structure Platform where
  size : SizeT
  memory : Nat → UInt8

/-- From `select` to the first `recv`. -/
def fetchSelect (m : Platform) : Activity → Fetch
  | .timedOut => .returned none []
  | .error => .returned none []
  | .ready =>
    let buf := vmebufEnsureSize none INITBUFSIZE
    .receiving buf (m.size.sub buf.limit buf.len)

/-- The body of the loop, after a full read of `numbytes`. -/
def VmeBuf.double (m : Platform) (buf : VmeBuf) (numbytes : Nat) : VmeBuf :=
  let len := m.size.wrap (buf.len + numbytes)
  let limit := m.size.wrap (buf.limit * 2)
  { len, limit, data := buf.data.realloc limit }

/-- `memcmp(buf->data, PROT_EOT, sizeof(PROT_EOT)) == 0`, evaluated only if the last
read returned as many bytes as the text has characters. -/
def VmeBuf.isEot (m : Platform) (buf : VmeBuf) (numbytes : Nat) : Except Fault Bool :=
  if numbytes = PROT_EOT.length then do
    let start ← buf.data.peek m.memory (PROT_EOT.length + 1)
    return start = PROT_EOT.bytes ++ [0]
  else
    .ok false

/-- What follows the loop, up to the terminator: the buffer, or `none` where there is no
message, the connection closed or the transmission at its end. -/
def fetchTerminate (m : Platform) (buf : VmeBuf) (numbytes : Nat) :
    Except Fault (Option VmeBuf) := do
  if numbytes = 0 ∧ buf.len = 0 then
    return none
  else if ← buf.isEot m numbytes then
    return none
  else
    let len := m.size.wrap (buf.len + numbytes)
    let data ← buf.data.store len [some 0]
    return some { buf with len, data }

/-- What follows the loop; `sends` says whether `send` succeeds. -/
def fetchFinish (m : Platform) (sends : Bool) (buf : VmeBuf) (numbytes : Nat) :
    Except Fault Fetch := do
  match ← fetchTerminate m buf numbytes with
  | none => return .returned none []
  | some buf =>
    -- the debug line prints the buffer as a string
    let _ ← buf.data.readString
    if sends then
      let msg ← vmebufTostr m.size buf
      return .returned (some msg) PROT_ACK.bytes
    else
      .error .aborted

/-- A `recv` that returns `result`, up to the next one or to the end. -/
def fetchRecv (m : Platform) (sends : Bool) (buf : VmeBuf) (avail : Nat) :
    Recv → Except Fault Fetch
  | .error => .error .aborted
  | .bytes bytes => do
    let data ← buf.data.store buf.len (cells bytes)
    let buf := { buf with data }
    -- only a full read asks for another one
    if bytes.length = avail then
      let buf := buf.double m bytes.length
      return .receiving buf (m.size.sub buf.limit buf.len)
    else
      fetchFinish m sends buf bytes.length

/-- The loop, as far as there are results for it. -/
def fetchLoop (m : Platform) (sends : Bool) : Fetch → List Recv → Except Fault Fetch
  | .receiving buf avail, result :: results => do
    let fetch ← fetchRecv m sends buf avail result
    fetchLoop m sends fetch results
  | fetch, _ => .ok fetch

/-- `fetch_discovery_msg`. -/
def fetchDiscoveryMsg (m : Platform) (activity : Activity) (results : List Recv)
    (sends : Bool) : Except Fault Fetch :=
  fetchLoop m sends (fetchSelect m activity) results

section Loop
variable {m : Platform} {sends : Bool} {fetch client : Fetch} {buf : VmeBuf} {avail : Nat}
  {results : List Recv} {result : Recv}

theorem fetchLoop_nil : fetchLoop m sends fetch [] = .ok fetch := by cases fetch <;> rfl

/-- One more result goes to the `recv` the loop is in. -/
theorem fetchLoop_concat (h : fetchLoop m sends fetch results = .ok (.receiving buf avail)) :
    fetchLoop m sends fetch (results ++ [result]) = fetchRecv m sends buf avail result := by
  induction results generalizing fetch with
  | nil =>
    rw [fetchLoop_nil] at h
    cases h
    rw [List.nil_append, fetchLoop]
    cases hr : fetchRecv m sends buf avail result with
    | error fault => rfl
    | ok client => rw [ok_bind, fetchLoop_nil]
  | cons r results ih =>
    cases fetch with
    | selecting => cases h
    | returned msg sent => cases h
    | receiving buf' avail' =>
      rw [fetchLoop] at h
      obtain ⟨fetch', hf, h⟩ := bind_eq_ok.mp h
      rw [List.cons_append, fetchLoop, hf, ok_bind, ih h]

/-- No read leads back to the `select`. -/
theorem fetchRecv_ne_selecting : fetchRecv m sends buf avail result ≠ .ok .selecting := by
  intro h
  cases result with
  | error => cases h
  | bytes bytes =>
    obtain ⟨data, -, h⟩ := bind_eq_ok.mp h
    split at h
    · cases h
    · rw [fetchFinish] at h
      obtain ⟨terminated, -, h⟩ := bind_eq_ok.mp h
      cases terminated with
      | none => cases h
      | some buf' =>
        obtain ⟨_, -, h⟩ := bind_eq_ok.mp h
        split at h
        · obtain ⟨_, -, h⟩ := bind_eq_ok.mp h
          cases h
        · cases h

end Loop

/-! ## One read -/

/-- The loop is in a `recv` that asks for all the room left, having read `got` and
stored nothing else, and the limit is a doubled initial size. -/
structure Listening (m : Platform) (buf : VmeBuf) (avail : Nat) (got : Bytes) : Prop where
  len_eq : buf.len = got.length
  data_eq : buf.data = cells got ++ malloc avail
  limit_eq : buf.limit = got.length + avail
  avail_pos : 0 < avail
  fits : m.size.Fits buf.limit
  doubled : ∃ k, buf.limit = INITBUFSIZE * 2 ^ k

/-- The read of `bytes` after `got` is taken for the end of the transmission: it has the
length of the text, and the first bytes of the buffer, of which the last may be one
that was not received, are the text and its terminator. -/
def EndsTransmission (m : Platform) (got bytes : Bytes) : Prop :=
  bytes.length = PROT_EOT.length ∧
    (got ++ bytes ++ [m.memory (got ++ bytes).length]).take (PROT_EOT.length + 1) =
      PROT_EOT.bytes ++ [0]

instance {m : Platform} {got bytes : Bytes} : Decidable (EndsTransmission m got bytes) :=
  inferInstanceAs (Decidable (_ ∧ _))

/-- The buffer when the terminator has been written: it is the byte after `got`, and within
the limit, a doubled initial size. -/
structure Terminated (buf : VmeBuf) (got : Bytes) : Prop where
  len_eq : buf.len = got.length
  len_lt : buf.len < buf.limit
  doubled : ∃ k, buf.limit = INITBUFSIZE * 2 ^ k
  allocated : buf.data.length = buf.limit
  contents : buf.data.take buf.len = cells got
  zero : buf.data[buf.len]? = some (some 0)

theorem Terminated.holds {buf : VmeBuf} {got : Bytes} (h : Terminated buf got) :
    buf.Holds got where
  len_le := Nat.le_of_lt h.len_lt
  min_le := by
    obtain ⟨k, hk⟩ := h.doubled
    rw [hk]
    exact Nat.le_trans (by decide) (Nat.le_mul_of_pos_right INITBUFSIZE (Nat.two_pow_pos k))
  allocated := h.allocated
  contents := h.contents

/-- So it can be read as a string. -/
theorem Terminated.readString {buf : VmeBuf} {got : Bytes} (h : Terminated buf got) :
    ∃ text, buf.data.readString = .ok text := by
  obtain ⟨hlt, hzero⟩ := List.getElem?_eq_some_iff.mp h.zero
  have hdata : buf.data = cells got ++ some 0 :: buf.data.drop (buf.len + 1) := by
    rw [← h.contents, ← hzero, List.getElem_cons_drop, List.take_append_drop]
  have hstring : buf.data.stringBytes = some (got.takeWhile (· != 0)) := by
    rw [hdata]
    exact Block.stringBytes_cells_zero got _
  exact ⟨⟨_, Block.nulFree_of_stringBytes hstring⟩, Block.readString_eq_ok.mpr hstring⟩

section Read
variable {m : Platform} {sends : Bool} {buf : VmeBuf} {avail : Nat} {got bytes : Bytes}

theorem listening_start (hm : m.size.Standard) :
    ∃ buf avail, fetchSelect m .ready = .receiving buf avail ∧ Listening m buf avail [] := by
  have hbuf : vmebufEnsureSize none INITBUFSIZE =
      { len := 0, limit := INITBUFSIZE, data := malloc INITBUFSIZE } := rfl
  have hfits : m.size.Fits INITBUFSIZE := hm.mono (by decide)
  refine ⟨_, _, by rw [fetchSelect, hbuf], rfl, ?_, ?_, ?_, hfits, 0, rfl⟩
  · rw [hfits.sub_eq (Nat.zero_le _)]
    rfl
  · rw [hfits.sub_eq (Nat.zero_le _)]
    rfl
  · rw [hfits.sub_eq (Nat.zero_le _)]
    decide

/-- The first `recv` asks for the whole buffer. -/
theorem Listening.le_avail (h : Listening m buf avail []) : INITBUFSIZE ≤ avail := by
  obtain ⟨k, hk⟩ := h.doubled
  have hlim := h.limit_eq
  rw [List.length_nil, Nat.zero_add] at hlim
  rw [← hlim, hk]
  exact Nat.le_mul_of_pos_right _ (Nat.two_pow_pos k)

/-- The bytes a `recv` returns are stored after those before. -/
theorem Listening.store (h : Listening m buf avail got) (hle : bytes.length ≤ avail) :
    buf.data.store buf.len (cells bytes) =
      .ok (cells (got ++ bytes) ++ malloc (avail - bytes.length)) := by
  refine Block.store_eq_ok.mpr ⟨?_, ?_⟩
  · rw [h.data_eq, h.len_eq]
    simp only [List.length_append, length_cells, length_malloc]
    omega
  · rw [h.data_eq, h.len_eq, length_cells, List.take_left' (length_cells got), cells_append]
    congr 1
    rw [← List.drop_drop, List.drop_left' (length_cells got), malloc, malloc, List.drop_replicate]

/-- **A full read doubles the buffer**, or leaves one that holds nothing more if the
doubled limit wraps. -/
theorem fetchRecv_full (sends : Bool) (h : Listening m buf avail got)
    (hlen : bytes.length = avail) :
    ∃ buf' avail', fetchRecv m sends buf avail (.bytes bytes) = .ok (.receiving buf' avail') ∧
      (m.size.Fits (buf.limit * 2) → Listening m buf' avail' (got ++ bytes)) ∧
      (¬ m.size.Fits (buf.limit * 2) → buf'.data.length ≤ buf'.len) := by
  have hlim : (got ++ bytes).length = buf.limit := by rw [List.length_append, hlen, h.limit_eq]
  have hpos : 0 < buf.limit := by
    rw [h.limit_eq]
    exact Nat.add_pos_right _ h.avail_pos
  have hwlen : m.size.wrap (got.length + bytes.length) = buf.limit := by
    rw [← List.length_append, hlim]
    exact h.fits.wrap_eq
  have hdata : cells (got ++ bytes) ++ malloc (avail - bytes.length) = cells (got ++ bytes) := by
    rw [hlen, Nat.sub_self]
    exact List.append_nil _
  let buf' := VmeBuf.double m { buf with data := cells (got ++ bytes) } bytes.length
  refine ⟨buf', m.size.sub buf'.limit buf'.len, ?_, ?_, ?_⟩
  -- `len` reaches the limit exactly when the limit is doubled
  · rw [fetchRecv, h.store (Nat.le_of_eq hlen), ok_bind, hdata]
    exact if_pos hlen
  · intro hfit
    have hw := hfit.wrap_eq
    have hsub : m.size.sub (buf.limit * 2) buf.limit = buf.limit := by
      rw [hfit.sub_eq (by omega)]
      omega
    obtain ⟨k, hk⟩ := h.doubled
    simp only [buf', VmeBuf.double, h.len_eq, hwlen, hw, hsub]
    refine ⟨hlim.symm, ?_, ?_, hpos, hfit, k + 1, ?_⟩
    · rw [Block.realloc, List.take_of_length_le (by rw [length_cells, hlim]; omega), length_cells,
        hlim]
      rw [Nat.mul_two, Nat.add_sub_cancel]
    · rw [hlim, Nat.mul_two]
    · simp only [hk, Nat.pow_succ, Nat.mul_assoc]
  · intro hfit
    simp only [buf', VmeBuf.double, Block.length_realloc, h.len_eq, hwlen]
    rw [Nat.mul_comm] at hfit ⊢
    exact SizeT.wrap_le_of_not_fits h.fits hfit

/-- A full read fills the buffer, doubles the limit, as the machine stores it, and asks for
all the room that leaves. -/
theorem fetchRecv_full_limit {buf' : VmeBuf} {avail' : Nat} (h : Listening m buf avail got)
    (hlen : bytes.length = avail)
    (hr : fetchRecv m sends buf avail (.bytes bytes) = .ok (.receiving buf' avail')) :
    buf'.len = buf.limit ∧ buf'.limit = m.size.wrap (buf.limit * 2) ∧
      avail' = m.size.sub buf'.limit buf.limit := by
  have hlim : buf.len + bytes.length = buf.limit := by rw [h.len_eq, hlen, h.limit_eq]
  rw [fetchRecv] at hr
  obtain ⟨data, -, hr⟩ := bind_eq_ok.mp hr
  simp only [if_pos hlen, VmeBuf.double, pure_eq_ok, hlim, h.fits.wrap_eq] at hr
  obtain ⟨rfl, rfl⟩ := Fetch.receiving.inj (Except.ok.inj hr)
  exact ⟨rfl, rfl, rfl⟩

/-- The comparison decides whether the read is taken for the end. -/
theorem VmeBuf.isEot_eq {len limit : Nat} (hlt : bytes.length < avail) :
    VmeBuf.isEot m { len, limit, data := cells (got ++ bytes) ++ malloc (avail - bytes.length) }
      bytes.length = .ok (decide (EndsTransmission m got bytes)) := by
  rw [VmeBuf.isEot]
  split
  · rename_i hlen
    have hle : PROT_EOT.length + 1 ≤ (got ++ bytes).length + 1 := by
      rw [List.length_append]
      omega
    have hroom : PROT_EOT.length + 1 ≤ (got ++ bytes).length + (avail - bytes.length) := by
      rw [List.length_append]
      omega
    rw [Block.peek_cells hle hroom, ok_bind]
    simp only [EndsTransmission, hlen, true_and]
    rfl
  · rename_i hlen
    simp only [EndsTransmission, hlen, false_and, decide_false]

/-- The terminator has room behind what was read. -/
theorem Listening.store_zero (h : Listening m buf avail got) (hlt : bytes.length < avail) :
    ∃ data, (cells (got ++ bytes) ++ malloc (avail - bytes.length)).store (got ++ bytes).length
        [some 0] = .ok data ∧
      Terminated { buf with len := (got ++ bytes).length, data } (got ++ bytes) := by
  have hlim : (got ++ bytes).length + (avail - bytes.length) = buf.limit := by
    rw [List.length_append, h.limit_eq]
    omega
  generalize got ++ bytes = s at hlim ⊢
  obtain ⟨r, hr⟩ : ∃ r, avail - bytes.length = r + 1 := ⟨avail - bytes.length - 1, by omega⟩
  refine ⟨cells s ++ some 0 :: malloc r, ?_, rfl, ?_, h.doubled, ?_, ?_, ?_⟩
  · refine Block.store_eq_ok.mpr ⟨by simp [hr], ?_⟩
    rw [List.take_left' (length_cells s), hr]
    simp [malloc, List.drop_append, List.replicate_succ]
  · show s.length < buf.limit
    omega
  · show (cells s ++ some 0 :: malloc r).length = buf.limit
    simp only [List.length_append, length_cells, List.length_cons, length_malloc]
    omega
  · exact List.take_left' (length_cells s)
  · show (cells s ++ some 0 :: malloc r)[s.length]? = some (some 0)
    rw [List.getElem?_append_right (by rw [length_cells]), length_cells, Nat.sub_self]
    rfl

/-- After a short read there is no message, if nothing was read before or it is what is taken
for the end of the transmission; else everything read is in the buffer, terminated. -/
theorem Listening.terminate (h : Listening m buf avail got) (hlt : bytes.length < avail) :
    ∃ buf', Terminated buf' (got ++ bytes) ∧
      fetchTerminate m { buf with data := cells (got ++ bytes) ++ malloc (avail - bytes.length) }
          bytes.length =
        .ok (if got ++ bytes = [] ∨ EndsTransmission m got bytes then none else some buf') := by
  have hfits : m.size.Fits (got ++ bytes).length := by
    refine h.fits.mono ?_
    rw [List.length_append, h.limit_eq]
    omega
  have hw : m.size.wrap (buf.len + bytes.length) = (got ++ bytes).length := by
    rw [h.len_eq, ← List.length_append]
    exact hfits.wrap_eq
  have hempty : bytes.length = 0 ∧ buf.len = 0 ↔ got ++ bytes = [] := by
    rw [h.len_eq, List.length_eq_zero_iff, List.length_eq_zero_iff, List.append_eq_nil_iff,
      and_comm]
  obtain ⟨data, hdata, hterm⟩ := h.store_zero hlt
  refine ⟨_, hterm, ?_⟩
  rw [fetchTerminate]
  by_cases hnil : got ++ bytes = []
  · rw [if_pos (hempty.mpr hnil), if_pos (Or.inl hnil)]
    rfl
  · rw [if_neg (mt hempty.mp hnil), VmeBuf.isEot_eq hlt, ok_bind]
    by_cases hend : EndsTransmission m got bytes
    · rw [if_pos (Or.inr hend), decide_eq_true hend]
      rfl
    · rw [if_neg (not_or.mpr ⟨hnil, hend⟩), decide_eq_false hend, if_neg Bool.false_ne_true]
      simp only [hw, hdata, ok_bind]
      rfl

/-- **A short read ends the loop.**  Nothing, if nothing was read before, and what is
taken for the end of the transmission yield `NULL`; anything else is acknowledged and
returned, with a terminator. -/
theorem fetchRecv_short (h : Listening m buf avail got) (hlt : bytes.length < avail) :
    fetchRecv m sends buf avail (.bytes bytes) =
      if got ++ bytes = [] ∨ EndsTransmission m got bytes then .ok (.returned none [])
      else if sends then
        .ok (.returned (some (cells (got ++ bytes) ++ [some 0])) PROT_ACK.bytes)
      else .error .aborted := by
  have hfits : m.size.Fits ((got ++ bytes).length + 1) := by
    refine h.fits.mono ?_
    rw [List.length_append, h.limit_eq]
    omega
  obtain ⟨buf', hterm, hbuf'⟩ := h.terminate hlt
  rw [fetchRecv, h.store (Nat.le_of_lt hlt), ok_bind]
  simp only [if_neg (Nat.ne_of_lt hlt)]
  rw [fetchFinish, hbuf', ok_bind]
  by_cases hnone : got ++ bytes = [] ∨ EndsTransmission m got bytes
  · rw [if_pos hnone, if_pos hnone]
    rfl
  · rw [if_neg hnone, if_neg hnone]
    obtain ⟨text, htext⟩ := hterm.readString
    simp only [htext, ok_bind]
    cases sends with
    | true => rw [if_pos rfl, if_pos rfl, hterm.holds.tostr hfits, ok_bind, pure_eq_ok]
    | false => rfl

/-- What comes of a transmission that is read at once. -/
theorem fetchDiscoveryMsg_short (hm : m.size.Standard) (hlt : bytes.length < INITBUFSIZE) :
    fetchDiscoveryMsg m .ready [.bytes bytes] sends =
      if bytes = [] ∨ EndsTransmission m [] bytes then .ok (.returned none [])
      else if sends then .ok (.returned (some (cells bytes ++ [some 0])) PROT_ACK.bytes)
      else .error .aborted := by
  obtain ⟨buf, avail, hstart, hl⟩ := listening_start hm
  have hshort : fetchRecv m sends buf avail (.bytes bytes) = _ :=
    fetchRecv_short hl (Nat.lt_of_lt_of_le hlt hl.le_avail)
  have hread : fetchLoop m sends (.receiving buf avail) ([] ++ [.bytes bytes]) = _ :=
    fetchLoop_concat fetchLoop_nil
  rw [fetchDiscoveryMsg, hstart]
  exact hread.trans hshort

end Read

end VantiqMicro
