import VantiqMicro.Dpi
import VantiqMicro.Runs

/-! # The dialogue with the packet inspector

The inspector sends a message on a stream socket and waits for `ACK`.  The stream
keeps the bytes and their order and nothing else: it hands them over when it likes,
and a `recv` returns as many of those that have arrived as it likes, up to what was
asked for.  A `Step` is one of these, or a step of `fetch_discovery_msg`, in any
interleaving.

The client cannot see where a message ends; it takes a read that returns less than
it asked for to be the last.  `returned_whole_iff` says what follows: what it
acknowledges is the message exactly when no read was cut short before the end. -/

namespace VantiqMicro
open CMem

/-- The state of both sides and of the socket between them. -/
structure Dialogue where
  /-- What the inspector has yet to send. -/
  unsent : Bytes
  /-- What has been sent and not been read. -/
  arrived : Bytes
  client : Fetch
deriving DecidableEq, Repr

namespace Dialogue

/-- What can happen next. -/
inductive Event
  | send (n : Nat)
  | select (activity : Activity)
  | recv (n : Nat)
deriving DecidableEq, Repr

/-- The inspector is about to send `msg`. -/
def start (msg : CString) : Dialogue :=
  { unsent := msg.bytes, arrived := [], client := .selecting }

/-- The bytes of the message that have not been read. -/
def rest (d : Dialogue) : Bytes := d.arrived ++ d.unsent

/-- One step.  `select` reports the socket once something has arrived; a `recv` returns
at least one byte, and blocks while there is none. -/
inductive Step (m : Platform) (sends : Bool) : Dialogue → Event → Dialogue → Prop
  | send {d : Dialogue} {n : Nat} : 0 < n → n ≤ d.unsent.length →
      Step m sends d (.send n)
        { d with unsent := d.unsent.drop n, arrived := d.arrived ++ d.unsent.take n }
  | select {d : Dialogue} {activity : Activity} : d.client = .selecting →
      (activity = .ready → d.arrived ≠ []) →
      Step m sends d (.select activity) { d with client := fetchSelect m activity }
  | recv {d : Dialogue} {n : Nat} {buf : VmeBuf} {avail : Nat} {client : Fetch} :
      d.client = .receiving buf avail → 0 < n → n ≤ avail → n ≤ d.arrived.length →
      fetchRecv m sends buf avail (.bytes (d.arrived.take n)) = .ok client →
      Step m sends d (.recv n) { d with arrived := d.arrived.drop n, client }

/-- The event is a read that returns less than it was asked for, and less than is still
to come. -/
def CutShort (d : Dialogue) (ev : Event) : Prop :=
  ∃ buf avail n, d.client = .receiving buf avail ∧ ev = .recv n ∧ n < avail ∧ n < d.rest.length

/-- The client has returned and there is more of the message. -/
def Truncated (d : Dialogue) : Prop :=
  (∃ msg sent, d.client = .returned msg sent) ∧ d.rest ≠ []

/-- What was read and what was not is the message, and what was returned is what was
read.  After a limit that wrapped, the loop is in a `recv` past the end of its block. -/
def Inv (m : Platform) (msg : Bytes) (d : Dialogue) : Prop :=
  match d.client with
  | .selecting => d.rest = msg
  | .receiving buf avail =>
    ∃ got, got ++ d.rest = msg ∧ (Listening m buf avail got ∨ buf.data.length ≤ buf.len)
  | .returned none _ => True
  | .returned (some block) sent =>
    sent = PROT_ACK.bytes ∧ ∃ got, got ++ d.rest = msg ∧ block = cells got ++ [some 0]

section Steps
variable {m : Platform} {sends : Bool} {msg : Bytes} {d d' : Dialogue} {ev : Event}

theorem rest_send {n : Nat} :
    rest { d with unsent := d.unsent.drop n, arrived := d.arrived ++ d.unsent.take n } =
      d.rest := by
  rw [rest, List.append_assoc, List.take_append_drop]
  rfl

/-- What a read returns is the start of what was left. -/
theorem rest_recv (d : Dialogue) (n : Nat) (client : Fetch) :
    d.arrived.take n ++ rest { d with arrived := d.arrived.drop n, client } = d.rest := by
  rw [rest, ← List.append_assoc, List.take_append_drop]
  rfl

/-- What one read comes to: another, with the buffer doubled, or the end. -/
theorem recv_cases {buf : VmeBuf} {avail n : Nat} {got bytes : Bytes} {client : Fetch}
    (h : Listening m buf avail got) (hlen : bytes.length = n) (hle : n ≤ avail)
    (hr : fetchRecv m sends buf avail (.bytes bytes) = .ok client) :
    (n = avail ∧ ∃ buf' avail', client = .receiving buf' avail' ∧
      (Listening m buf' avail' (got ++ bytes) ∨ buf'.data.length ≤ buf'.len)) ∨
    (n < avail ∧ (client = .returned none [] ∨
      client = .returned (some (cells (got ++ bytes) ++ [some 0])) PROT_ACK.bytes)) := by
  subst hlen
  rcases Nat.eq_or_lt_of_le hle with heq | hlt
  · obtain ⟨buf', avail', hfull, hfits, hwraps⟩ := fetchRecv_full sends h heq
    refine Or.inl ⟨heq, buf', avail', Except.ok.inj (hr.symm.trans hfull), ?_⟩
    by_cases hfit : m.size.Fits (buf.limit * 2)
    · exact Or.inl (hfits hfit)
    · exact Or.inr (hwraps hfit)
  · refine Or.inr ⟨hlt, ?_⟩
    rw [fetchRecv_short h hlt] at hr
    split at hr
    · exact Or.inl (Except.ok.inj hr).symm
    · split at hr
      · exact Or.inr (Except.ok.inj hr).symm
      · cases hr

/-- No read returns into a buffer that has no room. -/
theorem fetchRecv_no_room {buf : VmeBuf} {avail : Nat} {bytes : Bytes} {client : Fetch}
    (h : buf.data.length ≤ buf.len) (hpos : 0 < bytes.length) :
    fetchRecv m sends buf avail (.bytes bytes) ≠ .ok client := by
  intro hr
  rw [fetchRecv] at hr
  obtain ⟨data, hd, -⟩ := bind_eq_ok.mp hr
  obtain ⟨hle, -⟩ := Block.store_eq_ok.mp hd
  rw [length_cells] at hle
  omega

/-- **A step keeps what was read and what was not together.** -/
theorem Step.inv (hm : m.size.Standard) (hstep : Step m sends d ev d') (h : d.Inv m msg) :
    d'.Inv m msg := by
  cases hstep with
  | send hpos hle =>
    unfold Inv at h ⊢
    simpa only [rest_send] using h
  | @select activity hc hready =>
    simp only [Inv, hc] at h
    cases activity with
    | timedOut => trivial
    | error => trivial
    | ready =>
      obtain ⟨buf, avail, hb, hl⟩ := listening_start hm
      simp only [Inv, hb]
      exact ⟨[], h, Or.inl hl⟩
  | @recv n buf avail client hc hpos hle harr hr =>
    simp only [Inv, hc] at h
    obtain ⟨got, hgot, hl⟩ := h
    have hlen : (d.arrived.take n).length = n := List.length_take_of_le harr
    rw [← rest_recv d n client, ← List.append_assoc] at hgot
    rcases hl with hl | hl
    · rcases recv_cases hl hlen hle hr with
        ⟨-, buf', avail', rfl, hl'⟩ | ⟨-, rfl | rfl⟩
      · exact ⟨_, hgot, hl'⟩
      · trivial
      · exact ⟨rfl, _, hgot, rfl⟩
    · exact absurd hr (fetchRecv_no_room hl (by omega))

/-- A read that is cut short ends the fetch. -/
theorem Step.truncated_of_cutShort (hstep : Step m sends d ev d') (h : d.Inv m msg)
    (hcut : d.CutShort ev) : d'.Truncated := by
  obtain ⟨buf, avail, n, hc, rfl, hlt, hrest⟩ := hcut
  cases hstep with
  | @recv _ buf' avail' client hc' hpos hle harr hr =>
    obtain ⟨rfl, rfl⟩ := Fetch.receiving.inj (hc.symm.trans hc')
    simp only [Inv, hc] at h
    obtain ⟨got, -, hl⟩ := h
    have hlen : (d.arrived.take n).length = n := List.length_take_of_le harr
    constructor
    · rcases hl with hl | hl
      · rcases recv_cases hl hlen hle hr with ⟨heq, -⟩ | ⟨-, rfl | rfl⟩
        · omega
        · exact ⟨_, _, rfl⟩
        · exact ⟨_, _, rfl⟩
      · exact absurd hr (fetchRecv_no_room hl (by omega))
    · intro hnil
      have hsplit := rest_recv d n client
      rw [hnil, List.append_nil] at hsplit
      rw [← hsplit, hlen] at hrest
      omega

/-- And nothing more is read after it. -/
theorem Step.truncated (hstep : Step m sends d ev d') (h : d.Truncated) : d'.Truncated := by
  obtain ⟨⟨msg, sent, hc⟩, hne⟩ := h
  cases hstep with
  | send hpos hle => exact ⟨⟨msg, sent, hc⟩, by rwa [rest_send]⟩
  | select hc' _ => cases hc.symm.trans hc'
  | recv hc' _ _ _ _ => cases hc.symm.trans hc'

/-- A read that is not cut short returns a string only at the end of the message. -/
theorem Step.rest_eq_nil (hstep : Step m sends d ev d') (h : d.Inv m msg) (hcut : ¬ d.CutShort ev)
    (hd : ∀ block sent, d.client = .returned (some block) sent → d.rest = []) :
    ∀ block sent, d'.client = .returned (some block) sent → d'.rest = [] := by
  cases hstep with
  | send hpos hle => simpa only [rest_send] using hd
  | @select activity hc hready =>
    intro block sent hret
    cases activity <;> cases hret
  | @recv n buf avail client hc hpos hle harr hr =>
    rintro block sent rfl
    simp only [Inv, hc] at h
    obtain ⟨got, -, hl⟩ := h
    have hlen : (d.arrived.take n).length = n := List.length_take_of_le harr
    rcases hl with hl | hl
    · rcases recv_cases hl hlen hle hr with ⟨-, buf', avail', heq, -⟩ | ⟨hlt, -⟩
      · cases heq
      · have hrest : d.rest.length ≤ n :=
          Nat.le_of_not_lt fun hlt' => hcut ⟨buf, avail, n, hc, rfl, hlt, hlt'⟩
        have hsplit := congrArg List.length
          (rest_recv d n (.returned (some block) sent))
        rw [List.length_append, hlen] at hsplit
        exact List.eq_nil_of_length_eq_zero (by omega)
    · exact absurd hr (fetchRecv_no_room hl (by omega))

end Steps

/-! ## Whole dialogues -/

section Whole
variable {m : Platform} {sends : Bool} {msg : CString} {d : Dialogue} {evs : List Event}
  {block : Block} {sent : Bytes}

/-- The client has not begun, or is where `fetch_discovery_msg` gets on results that hand
it the message piece by piece. -/
def Fetches (m : Platform) (sends : Bool) (msg : CString) (d : Dialogue) : Prop :=
  (d.client = .selecting ∧ d.rest = msg.bytes) ∨
    ∃ (activity : Activity) (pieces : List Bytes),
      fetchDiscoveryMsg m activity (pieces.map .bytes) sends = .ok d.client ∧
      d.client ≠ .selecting ∧ pieces.flatten ++ d.rest = msg.bytes ∧
      ∀ piece ∈ pieces, piece ≠ []

/-- **The client of a dialogue is `fetch_discovery_msg`.** -/
theorem fetches_run (hrun : Run (Step m sends) (start msg) evs d) : d.Fetches m sends msg := by
  refine hrun.invariant (P := fun _ => True) ?_ (fun _ _ => trivial) (Or.inl ⟨rfl, rfl⟩)
  intro d ev d' hstep _ h
  cases hstep with
  | send hpos hle =>
    unfold Fetches at h ⊢
    simpa only [rest_send] using h
  | @select activity hc hready =>
    rcases h with ⟨-, hrest⟩ | ⟨_, _, -, hsel, -⟩
    · refine Or.inr ⟨activity, [], fetchLoop_nil, ?_, hrest, fun _ h => nomatch h⟩
      cases activity <;> exact Fetch.noConfusion
    · exact absurd hc hsel
  | @recv n buf avail client hc hpos hle harr hr =>
    rcases h with ⟨hsel, -⟩ | ⟨activity, pieces, hf, -, hrest, hne⟩
    · cases hc.symm.trans hsel
    · rw [hc] at hf
      refine Or.inr ⟨activity, pieces ++ [d.arrived.take n], ?_, ?_, ?_, ?_⟩
      · rw [List.map_append]
        exact (fetchLoop_concat hf).trans hr
      · rintro rfl
        exact fetchRecv_ne_selecting hr
      · rw [List.flatten_append, List.append_assoc, List.flatten_singleton, rest_recv, hrest]
      · intro piece hp
        rcases List.mem_append.mp hp with hp | hp
        · exact hne piece hp
        · rw [List.mem_singleton.mp hp]
          exact List.ne_nil_of_length_pos (by rw [List.length_take_of_le harr]; exact hpos)

theorem inv_run (hm : m.size.Standard) (hrun : Run (Step m sends) (start msg) evs d) :
    d.Inv m msg.bytes :=
  hrun.invariant (P := fun _ => True) (fun _ _ _ hst _ hi => hst.inv hm hi) (fun _ _ => trivial) rfl

/-- A dialogue in which no read is cut short returns a string only at the end. -/
theorem rest_eq_nil_run (hm : m.size.Standard)
    (hrun : Run (Run.Avoiding (Step m sends) CutShort) (start msg) evs d)
    (hd : d.client = .returned (some block) sent) : d.rest = [] := by
  have hboth := hrun.invariant (P := fun _ => True)
    (I := fun d => d.Inv m msg.bytes ∧
      ∀ block sent, d.client = .returned (some block) sent → d.rest = [])
    (fun _ _ _ hst _ hi => ⟨hst.1.inv hm hi.1, hst.1.rest_eq_nil hi.1 hst.2 hi.2⟩)
    (fun _ _ => trivial) ⟨rfl, fun _ _ h => nomatch h⟩
  exact hboth.2 block sent hd

/-- **The client acknowledges and returns the whole message exactly when no read is cut
short**, that is, no `recv` returns less than it was asked for before the message's
last byte. -/
theorem returned_whole_iff (hm : m.size.Standard)
    (hrun : Run (Step m sends) (start msg) evs d) (hd : d.client = .returned (some block) sent) :
    sent = PROT_ACK.bytes ∧
      (block = msg.toBlock ↔ Run (Run.Avoiding (Step m sends) CutShort) (start msg) evs d) := by
  have hinv := inv_run hm hrun
  simp only [Inv, hd] at hinv
  obtain ⟨hsent, got, hgot, hblock⟩ := hinv
  have hwhole : block = msg.toBlock ↔ d.rest = [] := by
    rw [hblock, CString.toBlock, List.append_left_inj, cells_injective.eq_iff, ← hgot]
    exact List.self_eq_append_right
  refine ⟨hsent, hwhole.trans ⟨?_, fun hclean => rest_eq_nil_run hm hclean hd⟩⟩
  intro hnil
  -- either no read was cut short, or one was and the rest stays unread to the end
  rcases hrun.avoiding_or (I := fun d => d.Inv m msg.bytes) (Q := Truncated)
    (fun _ _ _ hst hi => hst.inv hm hi)
    (fun _ _ _ hst hi hcut => hst.truncated_of_cutShort hi hcut)
    (fun _ _ _ hst hq => hst.truncated hq) rfl with hclean | htrunc
  · exact hclean
  · exact absurd hnil htrunc.2

/-- A message that arrives at once, and of which the first `n` bytes are read at once. -/
theorem exists_read (msg : CString) {n : Nat} (hm : m.size.Standard) (hpos : 0 < n)
    (hle : n ≤ msg.length) (hlt : n < INITBUFSIZE)
    (heot : ¬ EndsTransmission m [] (msg.bytes.take n)) :
    ∃ buf avail,
      Run (Run.Avoiding (Step m true) CutShort) (start msg) [.send msg.length, .select .ready]
        { unsent := [], arrived := msg.bytes, client := .receiving buf avail } ∧
      Step m true { unsent := [], arrived := msg.bytes, client := .receiving buf avail } (.recv n)
        { unsent := [], arrived := msg.bytes.drop n,
          client := .returned (some (cells (msg.bytes.take n) ++ [some 0])) PROT_ACK.bytes } := by
  obtain ⟨buf, avail, hb, hl⟩ := listening_start hm
  have havail : n < avail := Nat.lt_of_lt_of_le hlt hl.le_avail
  have hlen : (msg.bytes.take n).length = n := List.length_take_of_le hle
  have hne : msg.bytes ≠ [] := by
    intro hnil
    rw [CString.length, hnil, List.length_nil] at hle
    omega
  have hsend : Step m true (start msg) (.send msg.length)
      { unsent := [], arrived := msg.bytes, client := .selecting } := by
    have h : Step m true (start msg) (.send msg.length) _ :=
      .send (Nat.lt_of_lt_of_le hpos hle) (Nat.le_refl _)
    rwa [start, CString.length, List.take_length, List.drop_length, List.nil_append] at h
  refine ⟨buf, avail, .cons ⟨hsend, ?_⟩ (.cons ⟨?_, ?_⟩ (.nil _)), ?_⟩
  · rintro ⟨_, _, _, -, hev, -⟩
    cases hev
  · rw [← hb]
    exact .select rfl fun _ => hne
  · rintro ⟨_, _, _, -, hev, -⟩
    cases hev
  · refine .recv rfl hpos (Nat.le_of_lt havail) hle ?_
    have hshort : (msg.bytes.take n).length < avail := by omega
    rw [fetchRecv_short hl hshort, List.nil_append, if_neg, if_pos rfl]
    rintro (hnil | hend)
    · rw [hnil] at hlen
      exact absurd hlen (Nat.ne_of_lt hpos)
    · exact heot hend

end Whole

/-- A 64-bit machine with zeros in its memory. -/
def machine : Platform := { size := .bits 64, memory := fun _ => 0 }

theorem machine_standard : machine.size.Standard := show 65535 < 2 ^ 64 by decide

theorem returned_whole_iff_once :
    ∃ (d : Dialogue) (block : Block), ∃ evs,
      Run (Step machine true) (start (lit "\x7b\x7d")) evs d ∧
      d.client = .returned (some block) PROT_ACK.bytes ∧ block = (lit "\x7b\x7d").toBlock := by
  obtain ⟨buf, avail, hrun, hread⟩ := exists_read (lit "\x7b\x7d") (n := 2)
    machine_standard (by decide) (by decide) (by decide) (by decide)
  have hlast : ¬ CutShort { unsent := [], arrived := [123, 125], client := .receiving buf avail }
      (.recv 2) := by
    rintro ⟨_, _, _, -, hev, -, hlt⟩
    cases hev
    exact Nat.lt_irrefl 2 hlt
  have hwhole := hrun.append (.cons ⟨hread, hlast⟩ (.nil _))
  exact ⟨_, _, _, hwhole.of_avoiding, rfl,
    (returned_whole_iff machine_standard hwhole.of_avoiding rfl).2.mpr hwhole⟩

/-- A message of two bytes that arrive one after the other: the first is acknowledged and
returned. -/
theorem first_byte_returned :
    ∃ (d : Dialogue) (block : Block), ∃ evs,
      Run (Step machine true) (start (lit "\x7b\x7d")) evs d ∧
      d.client = .returned (some block) PROT_ACK.bytes ∧ block = (lit "\x7b").toBlock ∧
      block ≠ (lit "\x7b\x7d").toBlock := by
  obtain ⟨buf, avail, hrun, hread⟩ := exists_read (lit "\x7b\x7d") (n := 1)
    machine_standard (by decide) (by decide) (by decide) (by decide)
  exact ⟨_, _, _, hrun.of_avoiding.append (.cons hread (.nil _)), rfl, rfl, by decide⟩

end Dialogue

end VantiqMicro
