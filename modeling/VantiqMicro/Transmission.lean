import VantiqMicro.Dialogue

/-! # One transmission, read by read

`fetch_discovery_msg` by itself, on any sequence of results its `recv` calls can
have.  `fetch_sound` follows the buffer through the loop and past it: before every
`recv` it is a doubled initial buffer with room, all of it asked for; after the last
one the terminator is written behind what was received, within the limit; and what is
returned is everything received with a terminator.

How the end of the transmission is recognised is the weak spot.  The comparison reads
one byte more than the text has, and looks at the start of the buffer where the
length is that of the last read (`eot_recognised_iff`). -/

namespace VantiqMicro
open CMem

/-- Where `fetch_discovery_msg` is when `recv` has returned the byte strings `reads`, one
after the other. -/
def fetchAfter (m : Platform) (sends : Bool) (reads : List Bytes) : Except Fault Fetch :=
  fetchDiscoveryMsg m .ready (reads.map .bytes) sends

/-- The results `recv` can have from there on: reads that are full, as long as twice the
limit can be stored, and then one that is not. -/
inductive RecvResults (m : Platform) (sends : Bool) : Fetch → List Bytes → Prop
  | nil {fetch : Fetch} : RecvResults m sends fetch []
  | short {buf : VmeBuf} {avail : Nat} {bytes : Bytes} :
      bytes.length < avail → RecvResults m sends (.receiving buf avail) [bytes]
  | full {buf : VmeBuf} {avail : Nat} {bytes : Bytes} {reads : List Bytes} :
      bytes.length = avail → m.size.Fits (buf.limit * 2) →
      (∀ fetch, fetchRecv m sends buf avail (.bytes bytes) = .ok fetch →
        RecvResults m sends fetch reads) →
      RecvResults m sends (.receiving buf avail) (bytes :: reads)

/-- The buffer before a `recv` for `avail` bytes, when `got` has been read. -/
structure BeforeRecv (buf : VmeBuf) (avail : Nat) (got : Bytes) : Prop where
  len_eq : buf.len = got.length
  len_lt : buf.len < buf.limit
  doubled : ∃ k, buf.limit = INITBUFSIZE * 2 ^ k
  allocated : buf.data.length = buf.limit
  contents : buf.data.take buf.len = cells got
  /-- All the room is asked for. -/
  avail_eq : avail = buf.limit - buf.len

/-- The loop has ended with the read of `last`, not for want of a message, and `buf` is its
buffer when the terminator has been written. -/
def LeavesLoop (m : Platform) (sends : Bool) (full : List Bytes) (last : Bytes)
    (buf : VmeBuf) : Prop :=
  ∃ before avail data,
    fetchAfter m sends full = .ok (.receiving before avail) ∧
    before.data.store before.len (cells last) = .ok data ∧
    fetchTerminate m { before with data } last.length = .ok (some buf)

/-- What holds of the function after the reads.  No access is out of bounds: the one fault is
the `abort` after an acknowledgement that could not be sent. -/
inductive FetchSound (m : Platform) (sends : Bool) : List Bytes → Except Fault Fetch → Prop
  | receiving {reads : List Bytes} {buf : VmeBuf} {avail : Nat} :
      BeforeRecv buf avail reads.flatten → FetchSound m sends reads (.ok (.receiving buf avail))
  /-- The connection was closed before anything came. -/
  | closed {full : List Bytes} {last : Bytes} : full.flatten ++ last = [] →
      FetchSound m sends (full ++ [last]) (.ok (.returned none []))
  | ended {full : List Bytes} {last : Bytes} : EndsTransmission m full.flatten last →
      FetchSound m sends (full ++ [last]) (.ok (.returned none []))
  | message {full : List Bytes} {last : Bytes} {buf : VmeBuf} : sends = true →
      LeavesLoop m sends full last buf → Terminated buf (full.flatten ++ last) →
      FetchSound m sends (full ++ [last])
        (.ok (.returned (some (cells (full.flatten ++ last) ++ [some 0])) PROT_ACK.bytes))
  | aborted {full : List Bytes} {last : Bytes} {buf : VmeBuf} : sends = false →
      LeavesLoop m sends full last buf → Terminated buf (full.flatten ++ last) →
      FetchSound m sends (full ++ [last]) (.error .aborted)

section Loop
variable {m : Platform} {sends : Bool} {buf buf' : VmeBuf} {avail avail' : Nat}
  {got bytes last : Bytes} {reads full done rest : List Bytes} {fetch : Fetch}

theorem Listening.beforeRecv (h : Listening m buf avail got) : BeforeRecv buf avail got where
  len_eq := h.len_eq
  len_lt := by
    rw [h.len_eq, h.limit_eq]
    exact Nat.lt_add_of_pos_right h.avail_pos
  doubled := h.doubled
  allocated := by
    rw [h.data_eq, List.length_append, length_cells, length_malloc, h.limit_eq]
  contents := by
    rw [h.data_eq, h.len_eq, List.take_left' (length_cells got)]
  avail_eq := by
    rw [h.limit_eq, h.len_eq, Nat.add_sub_cancel_left]

theorem fetchAfter_nil : fetchAfter m sends [] = .ok (fetchSelect m .ready) := fetchLoop_nil

/-- One more read goes to the `recv` the loop is in. -/
theorem fetchAfter_concat
    (hfull : fetchAfter m sends full = .ok (.receiving buf avail)) :
    fetchAfter m sends (full ++ [last]) = fetchRecv m sends buf avail (.bytes last) := by
  rw [fetchAfter, List.map_append]
  exact fetchLoop_concat hfull

/-- What one read that is not full comes to. -/
theorem Listening.fetchSound_short (hfull : fetchAfter m sends full = .ok (.receiving buf avail))
    (h : Listening m buf avail full.flatten) (hlt : last.length < avail) :
    FetchSound m sends (full ++ [last]) (fetchAfter m sends (full ++ [last])) := by
  rw [fetchAfter_concat hfull, fetchRecv_short h hlt]
  by_cases hnone : full.flatten ++ last = [] ∨ EndsTransmission m full.flatten last
  · rw [if_pos hnone]
    rcases hnone with hnil | hend
    · exact .closed hnil
    · exact .ended hend
  · rw [if_neg hnone]
    obtain ⟨buf', hterm, hbuf'⟩ := h.terminate hlt
    rw [if_neg hnone] at hbuf'
    have hleaves : LeavesLoop m sends full last buf' :=
      ⟨buf, avail, _, hfull, h.store (Nat.le_of_lt hlt), hbuf'⟩
    cases hsends : sends with
    | true =>
      rw [if_pos rfl, ← hsends]
      exact .message hsends hleaves hterm
    | false =>
      rw [if_neg Bool.false_ne_true, ← hsends]
      exact .aborted hsends hleaves hterm

/-- **The loop keeps its buffer sound**, from any `recv` on. -/
theorem RecvResults.fetchSound (h : RecvResults m sends fetch reads)
    (hdone : fetchAfter m sends done = .ok fetch) (hf : fetch = .receiving buf avail)
    (hl : Listening m buf avail done.flatten) :
    FetchSound m sends (done ++ reads) (fetchAfter m sends (done ++ reads)) := by
  induction h generalizing buf avail done with
  | nil =>
    rw [List.append_nil, hdone, hf]
    exact .receiving hl.beforeRecv
  | short hlt =>
    obtain ⟨rfl, rfl⟩ := Fetch.receiving.inj hf
    exact hl.fetchSound_short hdone hlt
  | @full buf₀ avail₀ bytes reads hlen hfit _ ih =>
    obtain ⟨rfl, rfl⟩ := Fetch.receiving.inj hf
    obtain ⟨buf', avail', hr, hl', -⟩ := fetchRecv_full sends hl hlen
    have hnext : fetchAfter m sends (done ++ [bytes]) = .ok (.receiving buf' avail') :=
      (fetchAfter_concat hdone).trans hr
    have hl'' : Listening m buf' avail' (done ++ [bytes]).flatten := by
      rw [List.flatten_append, List.flatten_singleton]
      exact hl' hfit
    rw [List.append_cons]
    exact ih _ hr hnext rfl hl''

/-- Earlier results are results too. -/
theorem RecvResults.of_append (h : RecvResults m sends fetch (done ++ rest)) :
    RecvResults m sends fetch done := by
  induction done generalizing fetch with
  | nil => exact .nil
  | cons bytes done ih =>
    rw [List.cons_append] at h
    generalize hl : done ++ rest = reads at h
    cases h with
    | short hlt =>
      obtain ⟨rfl, -⟩ := List.append_eq_nil_iff.mp hl
      exact .short hlt
    | full hlen hfit hnext =>
      subst hl
      exact .full hlen hfit fun fetch hr => ih (hnext fetch hr)

/-- **`fetch_discovery_msg` keeps its buffer sound** from the first `recv` to the terminator,
and returns everything it received. -/
theorem fetch_sound (hm : m.size.Standard) (h : RecvResults m sends (fetchSelect m .ready) reads) :
    ∀ done rest, reads = done ++ rest → FetchSound m sends done (fetchAfter m sends done) := by
  rintro done rest rfl
  obtain ⟨buf, avail, hstart, hl⟩ := listening_start hm
  have hsound : FetchSound m sends ([] ++ done) (fetchAfter m sends ([] ++ done)) :=
    h.of_append.fetchSound fetchAfter_nil hstart hl
  rwa [List.nil_append] at hsound

/-- A short message can be received at once. -/
theorem RecvResults.of_short (hm : m.size.Standard) (hlt : bytes.length < INITBUFSIZE) :
    RecvResults m sends (fetchSelect m .ready) [bytes] := by
  obtain ⟨buf, avail, hstart, hl⟩ := listening_start hm
  rw [hstart]
  exact .short (Nat.lt_of_lt_of_le hlt hl.le_avail)

/-- A message of two bytes. -/
theorem fetch_sound_two :
    FetchSound Dialogue.machine true [[123, 125]]
      (fetchAfter Dialogue.machine true [[123, 125]]) :=
  fetch_sound Dialogue.machine_standard (.of_short Dialogue.machine_standard (by decide))
    [[123, 125]] [] rfl

end Loop

/-! ## The end of the transmission -/

/-- The doubled limit wrapped, and the loop is in a `recv` past the end of its block. -/
structure Overrun (m : Platform) (buf : VmeBuf) (avail : Nat) : Prop where
  no_room : buf.data.length ≤ buf.len
  len_pos : 0 < buf.len
  avail_pos : 0 < avail
  fits : m.size.Fits buf.len

section Eot
variable {m : Platform} {sends : Bool} {buf buf' : VmeBuf} {avail avail' : Nat}
  {got bytes last : Bytes} {reads full : List Bytes} {client : Fetch}

/-- Nothing good comes of such a `recv`. -/
theorem Overrun.ne_ok (h : Overrun m buf avail) :
    fetchRecv m sends buf avail (.bytes bytes) ≠ .ok client := by
  by_cases hpos : 0 < bytes.length
  · exact Dialogue.fetchRecv_no_room h.no_room hpos
  · -- a closed connection: the terminator is what goes out of bounds
    obtain rfl : bytes = [] := List.eq_nil_of_length_eq_zero (by omega)
    intro hr
    rw [fetchRecv] at hr
    obtain ⟨data, hdata, hr⟩ := bind_eq_ok.mp hr
    have hlen : data.length = buf.data.length := Block.length_of_store hdata
    have hne : ([] : Bytes).length ≠ avail := Nat.ne_of_lt h.avail_pos
    have heot : VmeBuf.isEot m { buf with data } ([] : Bytes).length = .ok false :=
      if_neg (by decide)
    rw [if_neg hne, fetchFinish] at hr
    obtain ⟨terminated, hterm, -⟩ := bind_eq_ok.mp hr
    rw [fetchTerminate, if_neg fun hnil => Nat.ne_of_gt h.len_pos hnil.2, heot, ok_bind,
      if_neg Bool.false_ne_true] at hterm
    obtain ⟨data', hdata', -⟩ := bind_eq_ok.mp hterm
    have hwrap : m.size.wrap (buf.len + ([] : Bytes).length) = buf.len := h.fits.wrap_eq
    rw [hwrap] at hdata'
    obtain ⟨hle, -⟩ := Block.store_eq_ok.mp hdata'
    have hroom := h.no_room
    rw [List.length_singleton, hlen] at hle
    omega

/-- Only a full read leads to another, and to a doubled limit, stored or not. -/
theorem Listening.next (h : Listening m buf avail got)
    (hr : fetchRecv m sends buf avail (.bytes bytes) = .ok (.receiving buf' avail')) :
    bytes.length = avail ∧
      (Listening m buf' avail' (got ++ bytes) ∧ m.size.Fits (2 * (got ++ bytes).length) ∨
        Overrun m buf' avail' ∧ ¬ m.size.Fits (2 * (got ++ bytes).length)) := by
  have hle : bytes.length ≤ avail := by
    rw [fetchRecv] at hr
    obtain ⟨data, hdata, -⟩ := bind_eq_ok.mp hr
    obtain ⟨hle, -⟩ := Block.store_eq_ok.mp hdata
    rw [h.data_eq, h.len_eq, List.length_append, length_cells, length_cells, length_malloc] at hle
    omega
  rcases Nat.eq_or_lt_of_le hle with hlen | hlt
  · refine ⟨hlen, ?_⟩
    have hlim : buf.limit * 2 = 2 * (got ++ bytes).length := by
      rw [List.length_append, hlen, h.limit_eq, Nat.mul_comm]
    obtain ⟨buf₁, avail₁, hr₁, hfits, hwraps⟩ := fetchRecv_full sends h hlen
    obtain ⟨rfl, rfl⟩ := Fetch.receiving.inj (Except.ok.inj (hr₁.symm.trans hr))
    obtain ⟨hlen', hlimit', havail'⟩ := fetchRecv_full_limit h hlen hr
    rw [← hlim]
    by_cases hfit : m.size.Fits (buf.limit * 2)
    · exact Or.inl ⟨hfits hfit, hfit⟩
    · have hpos : 0 < buf.limit := by
        have := h.avail_pos
        rw [h.limit_eq]
        omega
      refine Or.inr ⟨⟨hwraps hfit, by rwa [hlen'], ?_, by rw [hlen']; exact h.fits⟩, hfit⟩
      rw [havail', hlimit', Nat.mul_comm, SizeT.sub_wrap_of_not_fits h.fits (by rwa [Nat.mul_comm])]
      exact hpos
  · rw [fetchRecv_short h hlt] at hr
    split at hr
    · cases hr
    · split at hr <;> cases hr

/-- Where full reads lead: to a `recv` with room, or past a limit that wrapped. -/
theorem Listening.after (h : Listening m buf avail got) (hne : reads ≠ [])
    (hr : fetchLoop m sends (.receiving buf avail) (reads.map .bytes) =
      .ok (.receiving buf' avail')) :
    avail ≤ reads.flatten.length ∧
      (Listening m buf' avail' (got ++ reads.flatten) ∧
          m.size.Fits (2 * (got ++ reads.flatten).length) ∨
        Overrun m buf' avail' ∧ ¬ m.size.Fits (2 * (got ++ reads.flatten).length)) := by
  induction reads generalizing buf avail got with
  | nil => exact absurd rfl hne
  | cons bytes reads ih =>
    rw [List.map_cons, fetchLoop] at hr
    obtain ⟨fetch, hfetch, hr⟩ := bind_eq_ok.mp hr
    cases fetch with
    | selecting => exact absurd hfetch fetchRecv_ne_selecting
    | returned msg sent =>
      cases reads <;> cases hr
    | receiving buf₁ avail₁ =>
      obtain ⟨hlen, hnext⟩ := h.next hfetch
      rw [List.flatten_cons, List.length_append, hlen, ← List.append_assoc]
      refine ⟨Nat.le_add_right _ _, ?_⟩
      by_cases hnil : reads = []
      · subst hnil
        rw [List.map_nil, fetchLoop_nil] at hr
        obtain ⟨rfl, rfl⟩ := Fetch.receiving.inj (Except.ok.inj hr)
        rwa [List.flatten_nil, List.append_nil]
      · rcases hnext with ⟨hl, -⟩ | ⟨hover, -⟩
        · exact (ih hl hnil hr).2
        · obtain ⟨bytes', reads', rfl⟩ := List.exists_cons_of_ne_nil hnil
          rw [List.map_cons, fetchLoop] at hr
          obtain ⟨fetch', hfetch', -⟩ := bind_eq_ok.mp hr
          exact absurd hfetch' hover.ne_ok

/-- What is taken for the end, of a transmission that is not empty. -/
theorem Listening.told_iff (h : Listening m buf avail got) (hlt : bytes.length < avail)
    (hne : got ++ bytes ≠ []) :
    fetchRecv m sends buf avail (.bytes bytes) = .ok (.returned none []) ↔
      EndsTransmission m got bytes := by
  rw [fetchRecv_short h hlt]
  by_cases hend : EndsTransmission m got bytes
  · exact iff_of_true (if_pos (Or.inr hend)) hend
  · refine iff_of_false ?_ hend
    rw [if_neg (not_or.mpr ⟨hne, hend⟩)]
    split <;> intro heq <;> cases heq

/-- The text at once is taken for the end if a zero happens to follow it. -/
theorem endsTransmission_nil :
    EndsTransmission m [] bytes ↔ bytes = PROT_EOT.bytes ∧ m.memory PROT_EOT.length = 0 := by
  unfold EndsTransmission
  rw [List.nil_append]
  constructor
  · rintro ⟨hlen, htake⟩
    rw [List.take_of_length_le (by rw [List.length_append, hlen, List.length_singleton])] at htake
    obtain ⟨rfl, hmem⟩ := List.append_inj htake hlen
    exact ⟨rfl, List.singleton_injective hmem⟩
  · rintro ⟨rfl, hmem⟩
    refine ⟨rfl, ?_⟩
    have hlen : PROT_EOT.bytes.length = PROT_EOT.length := rfl
    rw [hlen, hmem]
    rfl

/-- After full reads it is any three bytes, if what was read first is the text and a
zero. -/
theorem endsTransmission_of_le (hle : PROT_EOT.length + 1 ≤ got.length) :
    EndsTransmission m got bytes ↔
      bytes.length = PROT_EOT.length ∧
        got.take (PROT_EOT.length + 1) = PROT_EOT.bytes ++ [0] := by
  rw [EndsTransmission, List.append_assoc, List.take_append_of_le_length hle]

/-- **When the end of the transmission is recognised exactly**: a zero stands in memory
after the text, and no longer transmission starts with the text and a zero and
ends in a read of three bytes. -/
theorem eot_recognised_iff (hm : m.size.Standard)
    (hfull : fetchAfter m sends full = .ok (.receiving buf avail)) (hlast : last.length < avail)
    (hne : full.flatten ++ last ≠ []) :
    (fetchAfter m sends (full ++ [last]) = .ok (.returned none []) ↔
        full.flatten ++ last = PROT_EOT.bytes) ↔
      (full.flatten ++ last = PROT_EOT.bytes → m.memory PROT_EOT.length = 0) ∧
        ¬ (full ≠ [] ∧ last.length = PROT_EOT.length ∧
          full.flatten.take (PROT_EOT.length + 1) = PROT_EOT.bytes ++ [0] ∧
          m.size.Fits (2 * full.flatten.length)) := by
  rw [fetchAfter_concat hfull]
  obtain ⟨buf₀, avail₀, hstart, hl⟩ := listening_start hm
  rw [fetchAfter, fetchDiscoveryMsg, hstart] at hfull
  by_cases hnil : full = []
  · subst hnil
    rw [List.map_nil, fetchLoop_nil] at hfull
    obtain ⟨rfl, rfl⟩ := Fetch.receiving.inj (Except.ok.inj hfull)
    rw [hl.told_iff hlast hne, endsTransmission_nil]
    simp
  · obtain ⟨hlong, hstate⟩ := hl.after hnil hfull
    rw [List.nil_append] at hstate
    have hle : PROT_EOT.length + 1 ≤ full.flatten.length :=
      Nat.le_trans (by decide) (Nat.le_trans hl.le_avail hlong)
    -- a transmission this long is not the text
    have htext : full.flatten ++ last ≠ PROT_EOT.bytes := by
      intro heq
      have hlen := congrArg List.length heq
      rw [List.length_append] at hlen
      have h3 : PROT_EOT.bytes.length = PROT_EOT.length := rfl
      omega
    rcases hstate with ⟨hl', hfit⟩ | ⟨hover, hwrap⟩
    · rw [hl'.told_iff hlast hne, endsTransmission_of_le hle]
      simp only [htext, hnil, hfit, ne_eq, not_false_eq_true, iff_false, false_implies, true_and,
        and_true]
    · simp only [hover.ne_ok, htext, hwrap, and_false, not_false_eq_true, false_implies, and_true]

/-- The text, received at once. -/
theorem eot_recognised_iff_at_once :
    fetchAfter Dialogue.machine true ([] ++ [PROT_EOT.bytes]) = .ok (.returned none []) := by
  obtain ⟨buf, avail, hstart, hl⟩ := listening_start Dialogue.machine_standard
  have hfull : fetchAfter Dialogue.machine true [] = .ok (.receiving buf avail) := by
    rw [← hstart]
    exact fetchLoop_nil
  have hlast : PROT_EOT.bytes.length < avail := Nat.lt_of_lt_of_le (by decide) hl.le_avail
  exact ((eot_recognised_iff Dialogue.machine_standard hfull hlast (by decide)).mpr
    ⟨fun _ => rfl, fun h => h.1 rfl⟩).mpr rfl

/-- A 64-bit machine with ones in its memory. -/
def dirtyMachine : Platform := { size := .bits 64, memory := fun _ => 1 }

/-- There the same text is acknowledged and returned as a message. -/
theorem eot_acknowledged :
    fetchAfter dirtyMachine true [PROT_EOT.bytes] =
      .ok (.returned (some PROT_EOT.toBlock) PROT_ACK.bytes) := by
  have hm : dirtyMachine.size.Standard := show 65535 < 2 ^ 64 by decide
  have hend : ¬ EndsTransmission dirtyMachine [] PROT_EOT.bytes := by decide
  have hread : fetchAfter dirtyMachine true [PROT_EOT.bytes] = _ :=
    fetchDiscoveryMsg_short hm (by decide)
  rw [if_neg (not_or.mpr ⟨by decide, hend⟩), if_pos rfl] at hread
  exact hread

end Eot

end VantiqMicro
