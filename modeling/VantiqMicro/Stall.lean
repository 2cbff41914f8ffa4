import VantiqMicro.Dialogue

/-! # Where the dialogue stalls

Once the inspector has sent its message it waits.  If `fetch_discovery_msg` has read
all of it and is in another `recv`, neither side can go on (`Stalled.no_step`), and
the time limit of `select` is long past.

The client asks for more exactly after a read that filled its buffer, and the buffer
has room for 512 bytes, then for 1024, and so on: `Filled`.  So the length of the
message alone decides whether some schedule of sends and reads stalls, and which. -/

namespace VantiqMicro
open CMem

namespace Dialogue

/-- The inspector is about to send the bytes `msg`. -/
def initial (msg : Bytes) : Dialogue := { unsent := msg, arrived := [], client := .selecting }

/-- Every byte of the message has been read, and the client, which has not acknowledged
it, is in another `recv`. -/
def Stalled (d : Dialogue) : Prop :=
  d.rest = [] ∧ ∃ buf avail, d.client = .receiving buf avail ∧ 0 < avail

/-- A client that is receiving has read nothing, or has just filled its buffer. -/
def Filled (m : Platform) (msg : Bytes) (d : Dialogue) : Prop :=
  ∀ buf avail, d.client = .receiving buf avail →
    d.rest = msg ∨ ∃ k, msg.length = INITBUFSIZE * 2 ^ k + d.rest.length ∧
      m.size.Fits (INITBUFSIZE * 2 ^ k)

section Steps
variable {m : Platform} {sends : Bool} {msg : Bytes} {d d' : Dialogue} {ev : Event}

/-- Nothing can happen in a dialogue that has stalled. -/
theorem Stalled.no_step (h : d.Stalled) : ¬ Step m sends d ev d' := by
  obtain ⟨hrest, buf, avail, hc, -⟩ := h
  obtain ⟨harr, huns⟩ := List.append_eq_nil_iff.mp hrest
  intro hstep
  cases hstep with
  | send hpos hle =>
    rw [huns, List.length_nil] at hle
    omega
  | select hc' _ => cases hc.symm.trans hc'
  | recv _ hpos _ hle _ =>
    rw [harr, List.length_nil] at hle
    omega

/-- **A step leaves a client that receives with a full buffer.** -/
theorem Step.filled (hstep : Step m sends d ev d') (h : d.Inv m msg) (hf : d.Filled m msg) :
    d'.Filled m msg := by
  cases hstep with
  | send hpos hle => simpa only [Filled, rest_send] using hf
  | select hc _ =>
    intro buf avail _
    simp only [Inv, hc] at h
    exact Or.inl h
  | @recv n buf avail client hc hpos hle harr hr =>
    rintro buf' avail' rfl
    simp only [Inv, hc] at h
    obtain ⟨got, hgot, hl⟩ := h
    have hlen : (d.arrived.take n).length = n := List.length_take_of_le harr
    rcases hl with hl | hl
    · rcases recv_cases hl hlen hle hr with ⟨rfl, -⟩ | ⟨-, heq | heq⟩
      · -- the read filled the buffer, whose limit is a doubled initial size
        obtain ⟨k, hk⟩ := hl.doubled
        have hfits := hl.fits
        rw [hk] at hfits
        refine Or.inr ⟨k, ?_, hfits⟩
        have hsplit := congrArg List.length (rest_recv d n (.receiving buf' avail'))
        rw [List.length_append, hlen] at hsplit
        have hlim := hl.limit_eq
        rw [← hgot, List.length_append]
        omega
      · cases heq
      · cases heq
    · exact absurd hr (fetchRecv_no_room hl (by omega))

end Steps

section Whole
variable {m : Platform} {sends : Bool} {msg : Bytes} {d : Dialogue} {evs : List Event}

theorem filled_run (hm : m.size.Standard) (hrun : Run (Step m sends) (initial msg) evs d) :
    d.Filled m msg := by
  have hboth := hrun.invariant (P := fun _ => True)
    (I := fun d => d.Inv m msg ∧ d.Filled m msg)
    (fun _ _ _ hst _ hi => ⟨hst.inv hm hi.1, hst.filled hi.1 hi.2⟩) (fun _ _ => trivial)
    ⟨rfl, fun _ _ h => nomatch h⟩
  exact hboth.2

/-- Of a message that arrives at once the client can fill its buffer again and again, as
long as there is more of it. -/
theorem exists_filled (sends : Bool) (hm : m.size.Standard) {j : Nat}
    (hle : INITBUFSIZE * 2 ^ j ≤ msg.length) (hfit : m.size.Fits (INITBUFSIZE * 2 ^ j)) :
    ∃ evs buf avail got rest, Run (Step m sends) (initial msg) evs
        { unsent := [], arrived := rest, client := .receiving buf avail } ∧
      got ++ rest = msg ∧ Listening m buf avail got ∧ buf.limit = INITBUFSIZE * 2 ^ j := by
  induction j with
  | zero =>
    obtain ⟨buf, avail, hb, hl⟩ := listening_start hm
    have hlim : buf.limit = INITBUFSIZE * 2 ^ 0 := by
      obtain ⟨rfl, -⟩ := Fetch.receiving.inj hb
      rfl
    have hpos : 0 < msg.length := Nat.lt_of_lt_of_le (by decide) hle
    have hsend : Step m sends (initial msg) (.send msg.length)
        { unsent := [], arrived := msg, client := .selecting } := by
      have h : Step m sends (initial msg) (.send msg.length) _ := .send hpos (Nat.le_refl _)
      rwa [initial, List.take_length, List.drop_length, List.nil_append] at h
    have hselect : Step m sends { unsent := [], arrived := msg, client := .selecting }
        (.select .ready) { unsent := [], arrived := msg, client := .receiving buf avail } := by
      rw [← hb]
      exact .select rfl fun _ => List.ne_nil_of_length_pos hpos
    exact ⟨_, buf, avail, [], msg, .cons hsend (.cons hselect (.nil _)), rfl, hl, hlim⟩
  | succ j ih =>
    have hdouble : INITBUFSIZE * 2 ^ (j + 1) = INITBUFSIZE * 2 ^ j * 2 := by
      rw [Nat.pow_succ, Nat.mul_assoc]
    obtain ⟨evs, buf, avail, got, rest, hrun, hgot, hl, hlim⟩ :=
      ih (by omega) (hfit.mono (by omega))
    have hsum := hl.limit_eq
    have harr : avail ≤ rest.length := by
      rw [← hgot, List.length_append] at hle
      omega
    have hlen : (rest.take avail).length = avail := List.length_take_of_le harr
    obtain ⟨buf', avail', hr, hfits, -⟩ := fetchRecv_full sends hl hlen
    rw [hlim, ← hdouble] at hfits
    obtain ⟨-, hlim', -⟩ := fetchRecv_full_limit hl hlen hr
    rw [hlim, ← hdouble, hfit.wrap_eq] at hlim'
    refine ⟨evs ++ [.recv avail], buf', avail', got ++ rest.take avail, rest.drop avail,
      hrun.append (.cons (.recv rfl hl.avail_pos (Nat.le_refl _) harr hr) (.nil _)), ?_,
      hfits hfit, hlim'⟩
    rw [List.append_assoc, List.take_append_drop, hgot]

/-- A message that fills the buffer exactly can stall the dialogue. -/
theorem exists_stalled (sends : Bool) (hm : m.size.Standard) {k : Nat}
    (hlen : msg.length = INITBUFSIZE * 2 ^ k) (hfit : m.size.Fits msg.length) :
    ∃ evs d, Run (Step m sends) (initial msg) evs d ∧ d.Stalled := by
  rw [hlen] at hfit
  obtain ⟨evs, buf, avail, got, rest, hrun, hgot, hl, hlim⟩ :=
    exists_filled sends hm (Nat.le_of_eq hlen.symm) hfit
  have hsum := hl.limit_eq
  have hrest : rest.length = avail := by
    have := congrArg List.length hgot
    rw [List.length_append] at this
    omega
  have hwhole : rest.take avail = rest := List.take_of_length_le (Nat.le_of_eq hrest)
  obtain ⟨buf', avail', hr, hfits, -⟩ := fetchRecv_full sends hl hrest
  have hpos : 0 < avail' := by
    by_cases hfit' : m.size.Fits (buf.limit * 2)
    · exact (hfits hfit').avail_pos
    · -- the doubled limit wraps, and so does the room
      obtain ⟨-, hlim', rfl⟩ := fetchRecv_full_limit hl hrest hr
      rw [hlim', Nat.mul_comm, SizeT.sub_wrap_of_not_fits hl.fits (by rwa [Nat.mul_comm])]
      have := hl.avail_pos
      omega
  rw [← hwhole] at hr
  refine ⟨_, _, hrun.append (.cons (.recv rfl hl.avail_pos (Nat.le_refl _)
    (Nat.le_of_eq hrest.symm) hr) (.nil _)), ?_, buf', avail', rfl, hpos⟩
  rw [Dialogue.rest, List.append_nil]
  exact List.drop_of_length_le (Nat.le_of_eq hrest)

/-- **The dialogue about a message never stalls exactly when the message does not fill the
buffer**: its length is not 512, or 1024, and so on, as far as the machine can store
such a limit. -/
theorem never_stalls_iff (hm : m.size.Standard) (hne : msg ≠ []) :
    (∀ evs d, Run (Step m sends) (initial msg) evs d → ¬ d.Stalled) ↔
      ¬ ∃ k, msg.length = INITBUFSIZE * 2 ^ k ∧ m.size.Fits msg.length := by
  constructor
  · rintro hnever ⟨k, hlen, hfit⟩
    obtain ⟨evs, d, hrun, hd⟩ := exists_stalled sends hm hlen hfit
    exact hnever evs d hrun hd
  · rintro hlen evs d hrun ⟨hrest, buf, avail, hc, -⟩
    rcases filled_run hm hrun buf avail hc with hnil | ⟨k, hk, hfit⟩
    · exact hne (hnil.symm.trans hrest)
    · rw [hrest, List.length_nil, Nat.add_zero] at hk
      exact hlen ⟨k, hk, by rwa [hk]⟩

/-- A message of two bytes never stalls. -/
theorem never_stalls_iff_two :
    ¬ ∃ evs d, Run (Step machine true) (initial [123, 125]) evs d ∧ d.Stalled := by
  rintro ⟨evs, d, hrun, hd⟩
  refine (never_stalls_iff machine_standard (by decide)).mpr ?_ evs d hrun hd
  rintro ⟨k, hlen, -⟩
  have hpow := Nat.two_pow_pos k
  simp only [List.length_cons, List.length_nil, INITBUFSIZE] at hlen
  omega

/-- A message of 512 bytes, read at once, does. -/
theorem stalled_at_512 :
    ∃ evs d, Run (Step machine true) (initial (List.replicate 512 123)) evs d ∧ d.Stalled := by
  have hlen : (List.replicate 512 (123 : UInt8)).length = INITBUFSIZE * 2 ^ 0 :=
    List.length_replicate
  have hfit : machine.size.Fits (List.replicate 512 (123 : UInt8)).length := by
    rw [List.length_replicate]
    show 512 < 2 ^ 64
    decide
  exact exists_stalled true machine_standard hlen hfit

end Whole

end Dialogue

end VantiqMicro
