import VantiqMicro.Client

/-! # What the callbacks of a transfer do

libcurl calls back an arbitrary number of times in an arbitrary order.  Seen from
outside, a transfer is a fold over those calls: the body received so far, the
count, the application's memory and the send cursor go in, and the same come out,
with the calls that were made.  `Intake.events` is that fold, a total function of
byte lists; the buffer, its capacity and its reallocations are not in it.
`Session.callbacks_refines` is the connection: the client's callbacks compute this
fold, and they fault exactly when a header line overruns the header callback's
buffer, or the read callback is to copy from a message that was freed. -/

namespace VantiqMicro
open CMem

variable {σ : Type}

/-! ## The header callback -/

/-- The count the header callback takes from a line. -/
def countOf (line : Bytes) : Option UInt32 :=
  if COUNT_HEADER.length < line.length ∧
      strncaseeq line COUNT_HEADER.bytes COUNT_HEADER.length = true then
    some (UInt32.ofInt (atoi ((line.drop COUNT_HEADER.length).takeWhile (· != 0))))
  else none

/-- The line's value and its terminator fit in the header callback's buffer. -/
def HeaderFits (line : Bytes) : Prop :=
  (countOf line).isSome = true → line.length - COUNT_HEADER.length < 32

instance : DecidablePred HeaderFits := fun line =>
  inferInstanceAs (Decidable ((countOf line).isSome = true → _))

/-- The bytes of a line from position `pos` on. -/
theorem load_cells {line : Bytes} {pos : Nat} (h : pos ≤ line.length) :
    (cells line).load pos (line.length - pos) = .ok (cells (line.drop pos)) := by
  refine Block.load_eq_ok.mpr ⟨by simp; omega, ?_⟩
  rw [List.take_of_length_le (by simp), cells, cells, List.map_drop]

theorem isSome_countOf {line : Bytes} : (countOf line).isSome = true ↔
    COUNT_HEADER.length < line.length ∧
      strncaseeq line COUNT_HEADER.bytes COUNT_HEADER.length = true := by
  unfold countOf
  split <;> simp_all

/-- **The header callback takes the count or faults**, and touches nothing else. -/
theorem headerCallback_eq_ok {vc vc' : VantiqClient σ} {line : Bytes} :
    headerCallback vc line = .ok vc' ↔
      HeaderFits line ∧ vc' = { vc with resultCount := (countOf line).getD vc.resultCount } := by
  rw [headerCallback, HeaderFits, countOf]
  split
  -- a count header: the terminator is stored behind the value, which must leave room for it
  · rename_i h
    have hpos : COUNT_HEADER.length ≤ line.length := Nat.le_of_lt h.1
    have hload : (cells line).load COUNT_HEADER.length (line.length - COUNT_HEADER.length) =
        .ok (cells (line.drop COUNT_HEADER.length)) := load_cells hpos
    have hcopy := fun d => Block.memcpy_terminate_eq_ok (n := 32) (d := d) hload
    rw [List.length_drop] at hcopy
    have hread : ∀ c : CString,
        (cells (line.drop COUNT_HEADER.length) ++
          some 0 :: malloc (32 - (line.length - COUNT_HEADER.length + 1))).readString = .ok c ↔
        c.bytes = (line.drop COUNT_HEADER.length).takeWhile (· != 0) := by
      intro c
      rw [Block.readString_eq_ok, Block.stringBytes_cells_zero, Option.some_inj, eq_comm]
    rw [← bind_assoc]
    simp only [bind_eq_ok (x := _ >>= _), hcopy, pure_eq_ok]
    constructor
    · rintro ⟨d, ⟨hlt, rfl⟩, h⟩
      obtain ⟨c, hc, hvc⟩ := bind_eq_ok.mp h
      rw [hread] at hc
      cases hvc
      exact ⟨fun _ => hlt, by rw [hc]; rfl⟩
    · rintro ⟨hlt, rfl⟩
      have hnul := nulFree_takeWhile (line.drop COUNT_HEADER.length)
      refine ⟨_, ⟨hlt rfl, rfl⟩, ?_⟩
      rw [(hread ⟨_, hnul⟩).mpr rfl]
      rfl
  · constructor
    · intro h
      cases h
      exact ⟨fun h => (Bool.false_ne_true h).elim, rfl⟩
    · rintro ⟨-, rfl⟩
      rfl

/-- A longer value is stored past the end, or its terminator is. -/
theorem headerCallback_overrun (vc : VantiqClient σ) {line : Bytes}
    (hname : strncaseeq line COUNT_HEADER.bytes COUNT_HEADER.length = true)
    (hlong : 31 < line.length - COUNT_HEADER.length) :
    headerCallback vc line = .error .outOfBounds := by
  have hlt : COUNT_HEADER.length < line.length := by omega
  have hload : (cells line).load COUNT_HEADER.length (line.length - COUNT_HEADER.length) =
      .ok (cells (line.drop COUNT_HEADER.length)) := load_cells (Nat.le_of_lt hlt)
  rw [headerCallback]
  simp only [if_pos (And.intro hlt hname), Block.memcpy, hload, ok_bind]
  by_cases h32 : line.length - COUNT_HEADER.length ≤ 32
  · -- the value fits and its terminator does not
    have hstore : (malloc 32).store 0 (cells (line.drop COUNT_HEADER.length)) =
        .ok (cells (line.drop COUNT_HEADER.length)) := by
      have hdrop : (malloc 32).drop (0 + (cells (line.drop COUNT_HEADER.length)).length) = [] :=
        List.drop_of_length_le (by simp only [length_malloc, length_cells, List.length_drop]; omega)
      refine Block.store_eq_ok.mpr ⟨by simpa using h32, ?_⟩
      rw [hdrop, List.take_zero, List.nil_append, List.append_nil]
    rw [hstore, ok_bind, Block.store, if_neg, error_bind]
    simp only [length_cells, List.length_drop, List.length_singleton]
    omega
  · rw [Block.store, if_neg, error_bind]
    simpa using h32

/-- **The header callback stays inside its buffer exactly on the lines that are no count
header, or one with at most 31 bytes after the name**; otherwise the copy or the
terminator is stored past the end. -/
theorem header_inside_iff (vc : VantiqClient σ) (line : Bytes) :
    ((∃ vc', headerCallback vc line = .ok vc') ↔
      ¬ (strncaseeq line COUNT_HEADER.bytes COUNT_HEADER.length = true ∧
        31 < line.length - COUNT_HEADER.length)) ∧
    (headerCallback vc line = .error .outOfBounds ↔
      strncaseeq line COUNT_HEADER.bytes COUNT_HEADER.length = true ∧
        31 < line.length - COUNT_HEADER.length) := by
  by_cases hlong : strncaseeq line COUNT_HEADER.bytes COUNT_HEADER.length = true ∧
      31 < line.length - COUNT_HEADER.length
  · have hfault := headerCallback_overrun vc hlong.1 hlong.2
    refine ⟨iff_of_false ?_ (not_not.mpr hlong), iff_of_true hfault hlong⟩
    rintro ⟨vc', hok⟩
    cases hfault.symm.trans hok
  · have hfits : HeaderFits line := by
      intro htaken
      rw [isSome_countOf] at htaken
      exact Nat.lt_succ_of_le (Nat.le_of_not_lt fun h => hlong ⟨htaken.2, h⟩)
    have hok : headerCallback vc line = .ok _ := headerCallback_eq_ok.mpr ⟨hfits, rfl⟩
    refine ⟨iff_of_true ⟨_, hok⟩ hlong, iff_of_false ?_ hlong⟩
    intro hfault
    cases hok.symm.trans hfault

/-- A count header of 32 digits: there is no room for the terminator. -/
theorem header_overruns :
    ∃ (vc : VantiqClient Unit) (line : Bytes),
      line = ascii "x-total-count:" ++ List.replicate 32 48 ∧
      headerCallback vc line = .error .outOfBounds := by
  let vc : VantiqClient Unit :=
    { magic := VC_MAGIC, apiVersion := 1, resultCount := 0, curl := none, serverUrl := lit ""
      httpHdrs := [], recvBuf := vmebufAlloc, recvCallback := none, callbackState := 0
      sendState := { base := none, readptr := 0, sizeleft := 0 } }
  exact ⟨vc, _, rfl, headerCallback_overrun vc (by decide) (by decide)⟩

/-! ## A transfer as a fold -/

/-- What the calls of a transfer consult and none of them changes. -/
structure Hooks (σ : Type) where
  recvCallback : Option (UserCallback σ)
  callbackState : Ptr
  uploads : Bool

/-- What they change. -/
structure Intake (σ : Type) where
  /-- The bytes in the receive buffer. -/
  received : Bytes
  count : UInt32
  user : σ
  /-- The send cursor, which only an upload has. -/
  send : VcSendstate

namespace Intake

/-- One call, the record of it, and whether the transfer goes on. -/
def event (k : Hooks σ) (d : Intake σ) : TransferEvent → Intake σ × List Callback × Bool
  | .header line => ({ d with count := (countOf line).getD d.count }, [.header line], true)
  | .body chunk =>
    match k.recvCallback with
    | some recvCallback =>
      let (accepted, user) := recvCallback k.callbackState chunk d.user
      ({ d with user }, [.handed k.callbackState chunk accepted], accepted = chunk.length)
    | none => ({ d with received := d.received ++ chunk }, [.stored chunk], true)
  | .send capacity =>
    if k.uploads then
      let n := min capacity d.send.sizeleft
      let left := { d.send with
        readptr := d.send.readptr + n
        sizeleft := d.send.sizeleft - n }
      ({ d with send := left }, [.read capacity (d.send.rest.take n) left], true)
    else
      (d, [], true)

/-- The calls of a transfer, until one ends it. -/
def events (k : Hooks σ) (d : Intake σ) : List TransferEvent → Intake σ × List Callback × Bool
  | [] => (d, [], true)
  | ev :: evs =>
    let r := d.event k ev
    if r.2.2 then
      let rs := r.1.events k evs
      (rs.1, r.2.1 ++ rs.2.1, rs.2.2)
    else
      (r.1, r.2.1, false)

end Intake

/-- Every header line among the calls fits. -/
def HeadersFit (cbs : List Callback) : Prop :=
  ∀ line ∈ cbs.flatMap Callback.headerOf, HeaderFits line

@[simp] theorem headersFit_nil : HeadersFit [] := by simp [HeadersFit]

@[simp] theorem headersFit_append {cbs cbs' : List Callback} :
    HeadersFit (cbs ++ cbs') ↔ HeadersFit cbs ∧ HeadersFit cbs' := by
  simp only [HeadersFit, List.flatMap_append, List.mem_append, or_imp, forall_and]

/-- The calls made in a transfer that returns: every header line fits, and none reads where
the message was freed. -/
structure Fits (send : VcSendstate) (cbs : List Callback) : Prop where
  headers : HeadersFit cbs
  reads : send.Stale → cbs.flatMap Callback.readOf = []

namespace Fits
variable {send : VcSendstate} {cbs cbs' : List Callback}

theorem nil : Fits send [] := ⟨headersFit_nil, fun _ => rfl⟩

theorem append_iff : Fits send (cbs ++ cbs') ↔ Fits send cbs ∧ Fits send cbs' := by
  constructor
  · rintro ⟨hheaders, hreads⟩
    rw [headersFit_append] at hheaders
    simp only [List.flatMap_append, List.append_eq_nil_iff] at hreads
    exact ⟨⟨hheaders.1, fun h => (hreads h).1⟩, ⟨hheaders.2, fun h => (hreads h).2⟩⟩
  · rintro ⟨h, h'⟩
    refine ⟨headersFit_append.mpr ⟨h.headers, h'.headers⟩, fun hs => ?_⟩
    rw [List.flatMap_append, h.reads hs, h'.reads hs, List.nil_append]

end Fits

/-- A message that is freed later was so before. -/
theorem Intake.stale_of_event {k : Hooks σ} {d : Intake σ} {ev : TransferEvent}
    (h : (d.event k ev).1.send.Stale) : d.send.Stale := by
  cases ev with
  | header line => exact h
  | body chunk =>
    simp only [Intake.event] at h
    split at h <;> exact h
  | send capacity =>
    simp only [Intake.event] at h
    split at h
    · exact ⟨h.1, fun h0 => h.2 (by simp [h0])⟩
    · exact h

/-- Unless it is read from, which does not return. -/
theorem Intake.event_of_stale {k : Hooks σ} {d : Intake σ} {ev : TransferEvent}
    (hs : d.send.Stale) (h : Fits d.send (d.event k ev).2.1) : (d.event k ev).1.send = d.send := by
  cases ev with
  | header line => rfl
  | body chunk =>
    simp only [Intake.event]
    split <;> rfl
  | send capacity =>
    have hreads := h.reads hs
    simp only [Intake.event] at hreads ⊢
    split
    · rename_i hu
      rw [if_pos hu] at hreads
      cases hreads
    · rfl

/-- The calls that follow fit from where the first one leaves the cursor. -/
theorem Fits.event_iff {k : Hooks σ} {d : Intake σ} {ev : TransferEvent} {cbs : List Callback}
    (h : Fits d.send (d.event k ev).2.1) :
    Fits (d.event k ev).1.send cbs ↔ Fits d.send cbs := by
  constructor
  · rintro ⟨hheaders, hreads⟩
    exact ⟨hheaders, fun hs => hreads (by rwa [Intake.event_of_stale hs h])⟩
  · rintro ⟨hheaders, hreads⟩
    exact ⟨hheaders, fun hs => hreads (Intake.stale_of_event hs)⟩

/-! ## The client's callbacks compute the fold -/

/-- Every callback option is set to the client's own function and the client. -/
structure CurlOpts.Hooked (o : CurlOpts) : Prop where
  readFunction : o.readFunction = true
  writeFunction : o.writeFunction = true
  headerFunction : o.headerFunction = true
  readData : o.readData = true
  writeData : o.writeData = true
  headerData : o.headerData = true

/-- What the session's callbacks consult. -/
def Session.hooks (s : Session σ) (opts : CurlOpts) : Hooks σ :=
  ⟨s.vc.recvCallback, s.vc.callbackState, opts.uploads⟩

/-- The cursor stays inside its buffer, if there is one. -/
def VcSendstate.InBounds (ss : VcSendstate) : Prop :=
  ∀ base, ss.base = some base → ss.readptr + ss.sizeleft ≤ base.length

/-- The session is in the state of the fold. -/
structure Session.Shows (s : Session σ) (d : Intake σ) : Prop where
  recvBuf : s.vc.recvBuf.Holds d.received
  resultCount : s.vc.resultCount = d.count
  user : s.user = d.user
  send : s.vc.sendState = d.send
  inBounds : d.send.InBounds

/-- What a transfer leaves as it was. -/
structure Session.Frame (s s' : Session σ) : Prop where
  magic : s'.vc.magic = s.vc.magic
  apiVersion : s'.vc.apiVersion = s.vc.apiVersion
  curl : s'.vc.curl = s.vc.curl
  serverUrl : s'.vc.serverUrl = s.vc.serverUrl
  httpHdrs : s'.vc.httpHdrs = s.vc.httpHdrs
  recvCallback : s'.vc.recvCallback = s.vc.recvCallback
  callbackState : s'.vc.callbackState = s.vc.callbackState
  base : s'.vc.sendState.base = s.vc.sendState.base
  logLevel : s'.logLevel = s.logLevel
  wire : s'.wire = s.wire

namespace Session
variable {s s' t : Session σ} {opts : CurlOpts} {d : Intake σ} {ev : TransferEvent}
  {evs : List TransferEvent}

theorem Frame.refl (s : Session σ) : s.Frame s :=
  ⟨rfl, rfl, rfl, rfl, rfl, rfl, rfl, rfl, rfl, rfl⟩

theorem Frame.trans (h : s.Frame s') (h' : s'.Frame t) : s.Frame t where
  magic := h'.magic.trans h.magic
  apiVersion := h'.apiVersion.trans h.apiVersion
  curl := h'.curl.trans h.curl
  serverUrl := h'.serverUrl.trans h.serverUrl
  httpHdrs := h'.httpHdrs.trans h.httpHdrs
  recvCallback := h'.recvCallback.trans h.recvCallback
  callbackState := h'.callbackState.trans h.callbackState
  base := h'.base.trans h.base
  logLevel := h'.logLevel.trans h.logLevel
  wire := h'.wire.trans h.wire

theorem Frame.hooks (h : s.Frame s') : s'.hooks opts = s.hooks opts := by
  rw [Session.hooks, Session.hooks, h.recvCallback, h.callbackState]

/-- The read callback copies what fits and advances both halves of the cursor. -/
theorem readCallback_eq_ok {vc : VantiqClient σ} {ss : VcSendstate} {capacity : Nat}
    (hss : vc.sendState = ss) (hb : ss.InBounds) (hs : ¬ ss.Stale) :
    readCallback vc capacity = .ok
      ({ vc with sendState := { ss with
          readptr := ss.readptr + min capacity ss.sizeleft
          sizeleft := ss.sizeleft - min capacity ss.sizeleft } },
        ss.rest.take (min capacity ss.sizeleft)) := by
  rw [readCallback, hss]
  simp only [pure_eq_ok, ne_eq, ite_not]
  split
  · rename_i h0
    simp only [h0, Nat.min_zero, Nat.add_zero, Nat.sub_self, List.take_zero]
    cases ss; cases h0
    rw [← hss]
  · rename_i h0
    have hmin : (if capacity < ss.sizeleft then capacity else ss.sizeleft) =
        min capacity ss.sizeleft := by split <;> omega
    cases hbase : ss.base with
    | none => exact absurd ⟨hbase, h0⟩ hs
    | some base =>
      have hload : base.load ss.readptr (min capacity ss.sizeleft) =
          .ok (ss.rest.take (min capacity ss.sizeleft)) := by
        have hin := hb base hbase
        refine Block.load_eq_ok.mpr ⟨by omega, ?_⟩
        rw [VcSendstate.rest, hbase, List.take_take, Nat.min_eq_left (Nat.min_le_right _ _)]
      simp only [Option.elim, ok_bind, hmin, hload]

/-- From a message that was freed it copies nothing. -/
theorem readCallback_of_stale {vc : VantiqClient σ} {capacity : Nat} (hs : vc.sendState.Stale) :
    readCallback vc capacity = .error .badPointer := by
  simp only [readCallback, if_pos hs.2, hs.1, Option.elim, error_bind]

/-- The write callback hands the chunk to the application's callback. -/
theorem writeCallback_handed {recvCallback : UserCallback σ} {chunk : Bytes}
    (hcb : s.vc.recvCallback = some recvCallback) :
    writeCallback s chunk = .ok
      ({ s with user := (recvCallback s.vc.callbackState chunk s.user).2 },
        .handed s.vc.callbackState chunk (recvCallback s.vc.callbackState chunk s.user).1,
        (recvCallback s.vc.callbackState chunk s.user).1) := by
  rw [writeCallback, hcb]
  rfl

/-- **Without one it appends the chunk to the receive buffer**, whatever the two
sizing calls make of the buffer's capacity. -/
theorem writeCallback_stored {t : Bytes} (chunk : Bytes) (hcb : s.vc.recvCallback = none)
    (h : s.vc.recvBuf.Holds t) :
    ∃ recvBuf, writeCallback s chunk =
        .ok ({ s with vc.recvBuf := recvBuf }, .stored chunk, chunk.length) ∧
      recvBuf.Holds (t ++ chunk) := by
  obtain ⟨b₁, h₁, hb₁, -⟩ := h.ensureIncrSize (m := .exact) (n := chunk.length) trivial
  obtain ⟨b₂, h₂, hb₂⟩ := hb₁.concat chunk (m := .exact) trivial
  refine ⟨b₂, ?_, hb₂⟩
  simp only [writeCallback, hcb, h₁, h₂, ok_bind, pure_eq_ok]

/-- **One call does what the fold's step does**, unless it is a header that overruns or a read
of a message that was freed. -/
theorem callback_refines (ho : opts.Hooked) (h : s.Shows d)
    (hfit : Fits d.send (d.event (s.hooks opts) ev).2.1) :
    ∃ s', s.callback opts ev = .ok (s', (d.event (s.hooks opts) ev).2) ∧
      s'.Shows (d.event (s.hooks opts) ev).1 ∧ s.Frame s' := by
  cases ev with
  | header line =>
    have hline : HeaderFits line := hfit.headers line (by simp [Intake.event, Callback.headerOf])
    simp only [Session.callback, ho.headerFunction, ho.headerData, Bool.and_self, if_true,
      headerCallback_eq_ok.mpr ⟨hline, rfl⟩, ok_bind, Intake.event]
    refine ⟨_, rfl, ⟨h.recvBuf, ?_, h.user, h.send, h.inBounds⟩,
      ⟨rfl, rfl, rfl, rfl, rfl, rfl, rfl, rfl, rfl, rfl⟩⟩
    simp only [h.resultCount]
  | body chunk =>
    simp only [Session.callback, ho.writeFunction, ho.writeData, Bool.and_self, if_true,
      Intake.event, Session.hooks]
    split
    · rename_i recvCallback hcb
      simp only [writeCallback_handed hcb, ok_bind, h.user]
      exact ⟨_, rfl, ⟨h.recvBuf, h.resultCount, rfl, h.send, h.inBounds⟩,
        ⟨rfl, rfl, rfl, rfl, rfl, rfl, rfl, rfl, rfl, rfl⟩⟩
    · rename_i hcb
      obtain ⟨recvBuf, hw, hb⟩ := writeCallback_stored chunk hcb h.recvBuf
      simp only [hw, ok_bind, decide_true]
      exact ⟨_, rfl, ⟨hb, h.resultCount, h.user, h.send, h.inBounds⟩,
        ⟨rfl, rfl, rfl, rfl, rfl, rfl, rfl, rfl, rfl, rfl⟩⟩
  | send capacity =>
    by_cases hu : opts.uploads = true
    · have hk : (s.hooks opts).uploads = true := hu
      have hs : ¬ d.send.Stale := by
        intro hs
        have hreads := hfit.reads hs
        simp only [Intake.event, hk, if_true] at hreads
        cases hreads
      simp only [Session.callback, Intake.event, hk, hu, if_true,
        readCallback_eq_ok h.send h.inBounds hs, ok_bind]
      refine ⟨_, rfl, ⟨h.recvBuf, h.resultCount, h.user, rfl, ?_⟩,
        ⟨rfl, rfl, rfl, rfl, rfl, rfl, rfl, by rw [h.send], rfl, rfl⟩⟩
      intro base hbase
      have hin := h.inBounds base hbase
      show d.send.readptr + _ + (d.send.sizeleft - _) ≤ base.length
      omega
    · simp only [Session.callback, Intake.event, Session.hooks, hu, Bool.false_eq_true, if_false]
      exact ⟨s, rfl, h, .refl s⟩

/-- A call that returns was none of these. -/
theorem fits_of_callback (ho : opts.Hooked) (h : s.Shows d)
    {r : Session σ × List Callback × Bool} (hr : s.callback opts ev = .ok r) :
    Fits d.send (d.event (s.hooks opts) ev).2.1 := by
  cases ev with
  | header l =>
    simp only [Session.callback, ho.headerFunction, ho.headerData, Bool.and_self, if_true,
      bind_eq_ok, headerCallback_eq_ok] at hr
    obtain ⟨vc, ⟨hfit, -⟩, -⟩ := hr
    refine ⟨fun line hl => ?_, fun _ => rfl⟩
    rw [List.mem_singleton.mp hl]
    exact hfit
  | body chunk =>
    simp only [Intake.event]
    split <;> exact ⟨fun line hl => by simp [Callback.headerOf] at hl, fun _ => rfl⟩
  | send capacity =>
    refine ⟨fun line hl => ?_, fun hs => ?_⟩
    · simp only [Intake.event] at hl
      split at hl <;> simp [Callback.headerOf] at hl
    · simp only [Intake.event]
      split
      · rename_i hk
        have hu : opts.uploads = true := hk
        rw [← h.send] at hs
        simp only [Session.callback, hu, if_true, readCallback_of_stale hs, error_bind] at hr
        cases hr
      · rfl

/-- **A transfer does what the fold does**, if its calls fit. -/
theorem callbacks_refines {k : Hooks σ} (ho : opts.Hooked) (hk : s.hooks opts = k)
    (h : s.Shows d) (hfit : Fits d.send (d.events k evs).2.1) :
    ∃ s', s.callbacks opts evs = .ok (s', (d.events k evs).2) ∧
      s'.Shows (d.events k evs).1 ∧ s.Frame s' := by
  induction evs generalizing s d with
  | nil => exact ⟨s, rfl, h, .refl s⟩
  | cons ev evs ih =>
    simp only [Session.callbacks, Intake.events] at hfit ⊢
    subst hk
    -- later calls are known to fit only if the transfer gets to them
    cases hgo : (d.event (s.hooks opts) ev).2.2 with
    | false =>
      simp only [hgo, Bool.false_eq_true, if_false] at hfit ⊢
      obtain ⟨s₁, h₁, hs₁, hf₁⟩ := callback_refines ho h hfit
      refine ⟨s₁, ?_, hs₁, hf₁⟩
      simp only [h₁, ok_bind, hgo]
      rfl
    | true =>
      simp only [hgo, if_true, Fits.append_iff] at hfit ⊢
      obtain ⟨s₁, h₁, hs₁, hf₁⟩ := callback_refines ho h hfit.1
      obtain ⟨s₂, h₂, hs₂, hf₂⟩ := ih hf₁.hooks hs₁ (hfit.1.event_iff.mpr hfit.2)
      refine ⟨s₂, ?_, hs₂, hf₁.trans hf₂⟩
      simp only [h₁, ok_bind, hgo, if_true, h₂]
      rfl

/-- **The calls of a transfer that returns fit.** -/
theorem fits_of_callbacks {k : Hooks σ} (ho : opts.Hooked) (hk : s.hooks opts = k)
    (h : s.Shows d) {r : Session σ × List Callback × Bool}
    (hr : s.callbacks opts evs = .ok r) : Fits d.send (d.events k evs).2.1 := by
  induction evs generalizing s d r with
  | nil => exact Fits.nil
  | cons ev evs ih =>
    subst hk
    rw [Session.callbacks, bind_eq_ok] at hr
    obtain ⟨r₁, h₁, hr⟩ := hr
    -- the first call returned, so it did what the fold does, and the rest can be looked at
    have hfit₁ := fits_of_callback ho h h₁
    obtain ⟨s₁, h₁', hs₁, hf₁⟩ := callback_refines ho h hfit₁
    obtain rfl := Except.ok.inj (h₁.symm.trans h₁')
    simp only [Intake.events]
    cases hgo : (d.event (s.hooks opts) ev).2.2 with
    | false => simpa using hfit₁
    | true =>
      simp only [hgo, if_true, bind_eq_ok] at hr ⊢
      obtain ⟨r₂, h₂, -⟩ := hr
      rw [Fits.append_iff]
      exact ⟨hfit₁, hfit₁.event_iff.mp (ih hf₁.hooks hs₁ h₂)⟩

end Session

/-! ## Laws of the fold -/

/-- The count after a sequence of header lines: the last one taken, or the old one. -/
def lastCount (count : UInt32) (lines : List Bytes) : UInt32 :=
  lines.foldl (fun count line => (countOf line).getD count) count

/-- The callback takes every chunk whole. -/
def UserCallback.accepts (recvCallback : UserCallback σ) (state : Ptr) : List Bytes → σ → Bool
  | [], _ => true
  | chunk :: chunks, user =>
    (recvCallback state chunk user).1 = chunk.length &&
      recvCallback.accepts state chunks (recvCallback state chunk user).2

/-- The application's callback, if there is one, does not take some chunk whole, which
ends the transfer. -/
def Refused (recvCallback : Option (UserCallback σ)) (state : Ptr) (x : Transfer) (user : σ) :
    Prop :=
  ∃ callback, recvCallback = some callback ∧ callback.accepts state x.chunks user = false

/-- The calls `reads` copy the message `msg` from position `pos` on: each takes
what is left up to its capacity, and leaves a cursor that accounts for the rest. -/
def ReadsFrom (msg : Bytes) : Nat → List (Nat × Block × VcSendstate) → Prop
  | _, [] => True
  | pos, (capacity, copied, left) :: reads =>
    copied = cells ((msg.drop pos).take capacity) ∧
      left.readptr = pos + copied.length ∧ left.readptr + left.sizeleft = msg.length ∧
      ReadsFrom msg left.readptr reads

namespace Intake
variable {k : Hooks σ} {d : Intake σ} {evs : List TransferEvent}

/-- The receive buffer grew by what was stored. -/
theorem received_events :
    (d.events k evs).1.received = d.received ++ (d.events k evs).2.1.flatMap Callback.storedOf := by
  induction evs generalizing d with
  | nil => simp [events]
  | cons ev evs ih =>
    have hev : (d.event k ev).1.received =
        d.received ++ (d.event k ev).2.1.flatMap Callback.storedOf := by
      cases ev <;> simp only [event] <;> try split
      all_goals simp [Callback.storedOf]
    simp only [events]
    split
    · rw [ih, hev, List.flatMap_append, List.append_assoc]
    · exact hev

/-- The count is that of the last line taken. -/
theorem count_events :
    (d.events k evs).1.count =
      lastCount d.count ((d.events k evs).2.1.flatMap Callback.headerOf) := by
  induction evs generalizing d with
  | nil => rfl
  | cons ev evs ih =>
    have hev : (d.event k ev).1.count =
        lastCount d.count ((d.event k ev).2.1.flatMap Callback.headerOf) := by
      cases ev <;> simp only [event] <;> try split
      all_goals rfl
    simp only [events]
    split
    · rw [ih, hev, List.flatMap_append, lastCount, lastCount, lastCount, List.foldl_append]
    · exact hev

/-- A header line is received by the header callback and by no other. -/
theorem headers_event {ev : TransferEvent} :
    (d.event k ev).2.1.flatMap Callback.headerOf = ev.headerOf := by
  cases ev <;> simp only [event] <;> try split
  all_goals rfl

/-- The header lines received are lines the server sent. -/
theorem headers_subset :
    (d.events k evs).2.1.flatMap Callback.headerOf ⊆ evs.flatMap TransferEvent.headerOf := by
  induction evs generalizing d with
  | nil => simp [events]
  | cons ev evs ih =>
    simp only [events, List.flatMap_cons]
    split
    · rw [List.flatMap_append, headers_event]
      exact List.append_subset_of_subset_of_subset (List.subset_append_left _ _)
        (List.Subset.trans ih (List.subset_append_right _ _))
    · rw [headers_event]
      exact List.subset_append_left _ _

/-- Without a receive callback a transfer runs to its end and stores the body. -/
theorem events_of_none (hk : k.recvCallback = none) :
    (d.events k evs).2.2 = true ∧ (d.events k evs).1.user = d.user ∧
      (d.events k evs).2.1.flatMap Callback.storedOf =
        (evs.flatMap TransferEvent.chunkOf).flatten ∧
      (d.events k evs).2.1.flatMap Callback.handedOf = [] ∧
      (d.events k evs).2.1.flatMap Callback.headerOf = evs.flatMap TransferEvent.headerOf := by
  induction evs generalizing d with
  | nil => simp [events]
  | cons ev evs ih =>
    have hev : (d.event k ev).2.2 = true ∧ (d.event k ev).1.user = d.user ∧
        (d.event k ev).2.1.flatMap Callback.storedOf = ev.chunkOf.flatten ∧
        (d.event k ev).2.1.flatMap Callback.handedOf = [] ∧
        (d.event k ev).2.1.flatMap Callback.headerOf = ev.headerOf := by
      cases ev with
      | header line => exact ⟨rfl, rfl, rfl, rfl, rfl⟩
      | body chunk => simp [event, hk, Callback.storedOf, Callback.handedOf, Callback.headerOf,
          TransferEvent.chunkOf, TransferEvent.headerOf]
      | send capacity => by_cases hu : k.uploads = true <;> simp [event, hu, Callback.storedOf,
          Callback.handedOf, Callback.headerOf, TransferEvent.chunkOf, TransferEvent.headerOf]
    obtain ⟨hgo, huser, hstored, hhanded, hheaders⟩ := hev
    obtain ⟨hgo', huser', hstored', hhanded', hheaders'⟩ := ih (d := (d.event k ev).1)
    simp only [events, hgo, if_true, List.flatMap_append, List.flatMap_cons, List.flatten_append]
    exact ⟨hgo', huser'.trans huser, by rw [hstored, hstored'], by rw [hhanded, hhanded']; rfl,
      by rw [hheaders, hheaders']⟩

/-- The read callback is called for every room offered, if the transfer uploads and
nothing can end it early. -/
theorem capacities_of_none (hk : k.recvCallback = none) (hu : k.uploads = true) :
    ((d.events k evs).2.1.flatMap Callback.readOf).map Prod.fst =
      evs.flatMap TransferEvent.capacityOf := by
  induction evs generalizing d with
  | nil => rfl
  | cons ev evs ih =>
    have hev : (d.event k ev).2.2 = true ∧
        ((d.event k ev).2.1.flatMap Callback.readOf).map Prod.fst = ev.capacityOf := by
      cases ev with
      | header line => exact ⟨rfl, rfl⟩
      | body chunk => simp [event, hk, Callback.readOf, TransferEvent.capacityOf]
      | send capacity => simp [event, hu, Callback.readOf, TransferEvent.capacityOf]
    simp only [events, hev.1, if_true, List.flatMap_append, List.map_append, hev.2, ih,
      List.flatMap_cons]

/-- With one, nothing is stored; the chunks are handed over in order, until one is
not taken whole. -/
theorem events_of_some {recvCallback : UserCallback σ} (hk : k.recvCallback = some recvCallback) :
    (d.events k evs).2.2 =
        recvCallback.accepts k.callbackState (evs.flatMap TransferEvent.chunkOf) d.user ∧
      (d.events k evs).2.1.flatMap Callback.storedOf = [] ∧
      ((d.events k evs).2.2 = true →
        (d.events k evs).2.1.flatMap Callback.handedOf =
            (evs.flatMap TransferEvent.chunkOf).map (k.callbackState, ·) ∧
          (d.events k evs).2.1.flatMap Callback.headerOf =
            evs.flatMap TransferEvent.headerOf) := by
  induction evs generalizing d with
  | nil => simp [events, UserCallback.accepts]
  | cons ev evs ih =>
    obtain ⟨hgo, hstored, hrest⟩ := ih (d := (d.event k ev).1)
    cases ev with
    | header line =>
      refine ⟨hgo, hstored, fun h => ⟨(hrest h).1, ?_⟩⟩
      exact congrArg (line :: ·) (hrest h).2
    | body chunk =>
      have hev : d.event k (.body chunk) =
          ({ d with user := (recvCallback k.callbackState chunk d.user).2 },
            [.handed k.callbackState chunk (recvCallback k.callbackState chunk d.user).1],
            decide ((recvCallback k.callbackState chunk d.user).1 = chunk.length)) := by
        simp only [event, hk]
      rw [hev] at hgo hstored hrest
      simp only [events, hev, List.flatMap_cons, TransferEvent.chunkOf, List.singleton_append,
        UserCallback.accepts]
      by_cases hacc : (recvCallback k.callbackState chunk d.user).1 = chunk.length
      · simp only [hacc, decide_true, if_true, Bool.true_and] at hgo hstored hrest ⊢
        refine ⟨hgo, hstored, fun h => ⟨?_, (hrest h).2⟩⟩
        exact congrArg ((k.callbackState, chunk) :: ·) (hrest h).1
      · simp [hacc, Callback.storedOf]
    | send capacity =>
      by_cases hu : k.uploads = true
      · simp only [events, event, hu, if_true] at hgo hstored hrest ⊢
        exact ⟨hgo, hstored, hrest⟩
      · simp only [events, event, hu, Bool.false_eq_true, if_false, if_true] at hgo hstored hrest ⊢
        exact ⟨hgo, hstored, hrest⟩

/-- A call that is not for the read callback leaves the cursor. -/
theorem event_of_not_send {ev : TransferEvent} (hev : ∀ capacity, ev ≠ .send capacity) :
    (d.event k ev).1.send = d.send ∧ (d.event k ev).2.1.flatMap Callback.readOf = [] := by
  cases ev with
  | header line => exact ⟨rfl, rfl⟩
  | body chunk => simp only [event]; split <;> exact ⟨rfl, rfl⟩
  | send capacity => exact absurd rfl (hev capacity)

/-- A transfer that does not upload leaves the cursor, and reads nothing. -/
theorem events_of_not_uploads (hu : k.uploads = false) :
    (d.events k evs).1.send = d.send ∧ (d.events k evs).2.1.flatMap Callback.readOf = [] := by
  induction evs generalizing d with
  | nil => exact ⟨rfl, rfl⟩
  | cons ev evs ih =>
    have hev : (d.event k ev).1.send = d.send ∧
        (d.event k ev).2.1.flatMap Callback.readOf = [] := by
      cases ev with
      | send capacity => simp [event, hu]
      | _ => exact event_of_not_send (by rintro capacity ⟨⟩)
    simp only [events]
    split
    · rw [List.flatMap_append, hev.2, List.nil_append, ← hev.1]
      exact ih
    · exact hev

/-- The message the cursor points into stays the same. -/
theorem base_events : (d.events k evs).1.send.base = d.send.base := by
  induction evs generalizing d with
  | nil => rfl
  | cons ev evs ih =>
    have hev : (d.event k ev).1.send.base = d.send.base := by
      cases ev <;> simp only [event] <;> try split
      all_goals rfl
    simp only [events]
    split
    · rw [ih, hev]
    · exact hev

/-- With nothing left nothing is copied. -/
theorem copied_of_sizeleft (hleft : d.send.sizeleft = 0) :
    ∀ r ∈ (d.events k evs).2.1.flatMap Callback.readOf, r.2.1 = [] := by
  induction evs generalizing d with
  | nil => simp [events]
  | cons ev evs ih =>
    have hev : (d.event k ev).1.send.sizeleft = 0 ∧
        ∀ r ∈ (d.event k ev).2.1.flatMap Callback.readOf, r.2.1 = [] := by
      by_cases hsend : ∃ capacity, ev = .send capacity
      · obtain ⟨capacity, rfl⟩ := hsend
        simp only [event]
        split <;> simp [hleft, Callback.readOf]
      · obtain ⟨h, hreads⟩ := event_of_not_send (k := k) (d := d) (not_exists.mp hsend)
        rw [h, hreads]
        exact ⟨hleft, by simp⟩
    simp only [events]
    split
    · simp only [List.flatMap_append, List.mem_append]
      rintro r (hr | hr)
      · exact hev.2 r hr
      · exact ih hev.1 r hr
    · exact hev.2

/-- **The read callback walks through the message**, and its cursor accounts for
every byte. -/
theorem readsFrom_events {msg : Bytes} {base : Block} (hu : k.uploads = true)
    (hbase : d.send.base = some base) (hmsg : base.take msg.length = cells msg)
    (hpos : d.send.readptr + d.send.sizeleft = msg.length) :
    ReadsFrom msg d.send.readptr ((d.events k evs).2.1.flatMap Callback.readOf) := by
  induction evs generalizing d with
  | nil => trivial
  | cons ev evs ih =>
    by_cases hev : ∃ capacity, ev = .send capacity
    · obtain ⟨capacity, rfl⟩ := hev
      have hcopied : d.send.rest.take (min capacity d.send.sizeleft) =
          cells ((msg.drop d.send.readptr).take capacity) := by
        have hleft : d.send.sizeleft = msg.length - d.send.readptr := by omega
        have hrest : d.send.rest = cells (msg.drop d.send.readptr) := by
          rw [VcSendstate.rest, hbase, hleft]
          show (base.drop _).take _ = _
          rw [← List.drop_take, hmsg]
          simp only [cells, List.map_drop]
        have hall : (cells (msg.drop d.send.readptr)).length = d.send.sizeleft := by
          rw [length_cells, List.length_drop, hleft]
        rw [hrest, ← List.take_take, List.take_of_length_le (Nat.le_of_eq hall)]
        simp only [cells, List.map_take]
      have hlen : ((msg.drop d.send.readptr).take capacity).length =
          min capacity d.send.sizeleft := by
        rw [List.length_take, List.length_drop]
        omega
      simp only [events, event, hu, if_true, List.flatMap_append]
      -- pointer and remainder move by the same amount, so their sum stays the length
      refine ⟨hcopied, ?_, ?_, ih (d := { d with send := _ }) hbase ?_⟩
      · rw [hcopied, length_cells, hlen]
      · simp only
        omega
      · simp only
        omega
    · obtain ⟨hsend, hreads⟩ := event_of_not_send (k := k) (d := d) (not_exists.mp hev)
      simp only [events]
      split
      · rw [List.flatMap_append, hreads, List.nil_append, ← hsend]
        exact ih (by rw [hsend]; exact hbase) (by rw [hsend]; exact hpos)
      · rw [hreads]
        trivial

end Intake

end VantiqMicro
