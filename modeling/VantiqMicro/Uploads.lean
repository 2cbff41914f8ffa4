import VantiqMicro.Lifecycle

/-! # What an upload sends

An upload copies the caller's document into a buffer and lets libcurl draw it out
through the read callback, in pieces of any size.  The laws of `ReadsFrom` say
what any sequence of such draws amounts to: a walk through the document from its
start, whose cursor always accounts for the rest. -/

namespace VantiqMicro
open CMem

variable {σ : Type}

/-! ## Walks through a message -/

/-- The bytes that a sequence of reads copied. -/
def sent (reads : List (Nat × Block × VcSendstate)) : Block := reads.flatMap fun r => r.2.1

@[simp] theorem sent_cons (r : Nat × Block × VcSendstate)
    (reads : List (Nat × Block × VcSendstate)) :
    sent (r :: reads) = r.2.1 ++ sent reads := rfl

namespace ReadsFrom
variable {msg : Bytes} {pos capacity : Nat} {copied : Block} {left : VcSendstate}
  {reads pre post : List (Nat × Block × VcSendstate)}

/-- The reads take one piece after the other. -/
theorem sent_eq (h : ReadsFrom msg pos reads) :
    sent reads = cells ((msg.drop pos).take (sent reads).length) := by
  induction reads generalizing pos with
  | nil => rfl
  | cons r reads ih =>
    obtain ⟨capacity, copied, left⟩ := r
    obtain ⟨hcopied, hptr, -, hrest⟩ := h
    have hc : copied = cells ((msg.drop pos).take copied.length) := by
      rw [hcopied, length_cells, List.length_take, ← List.take_eq_take_min]
    -- the next read starts where this one left the cursor
    have hs := ih hrest
    rw [hptr, ← List.drop_drop] at hs
    rw [sent_cons, List.length_append, List.take_add, cells_append, ← hc, ← hs]

/-- A walk can be cut anywhere: what follows starts where the first part ended. -/
theorem of_append (h : ReadsFrom msg pos (pre ++ post)) :
    ReadsFrom msg pos pre ∧ ReadsFrom msg (pos + (sent pre).length) post := by
  induction pre generalizing pos with
  | nil => exact ⟨trivial, h⟩
  | cons r pre ih =>
    obtain ⟨capacity, copied, left⟩ := r
    obtain ⟨hcopied, hptr, hleft, hrest⟩ := h
    obtain ⟨hpre, hpost⟩ := ih hrest
    refine ⟨⟨hcopied, hptr, hleft, hpre⟩, ?_⟩
    rw [hptr] at hpost
    rwa [sent_cons, List.length_append, ← Nat.add_assoc]

/-- From the start of the message the bytes copied are its first bytes. -/
theorem sent_eq_take (h : ReadsFrom msg 0 reads) :
    sent reads = cells (msg.take (sent reads).length) := h.sent_eq

end ReadsFrom

/-- The reads deliver the message: whatever was copied so far is an initial part of it,
a read that returns nothing has the whole of it before it, a read keeps to its
room and makes progress while bytes remain, and the cursor accounts for every
byte. -/
structure Delivers (msg : Bytes) (reads : List (Nat × Block × VcSendstate)) : Prop where
  initial : ∀ pre post, reads = pre ++ post → sent pre <+: cells msg
  whole : ∀ pre capacity left post, reads = pre ++ (capacity, [], left) :: post →
    0 < capacity → sent pre = cells msg
  room : ∀ pre capacity copied left post, reads = pre ++ (capacity, copied, left) :: post →
    copied.length ≤ capacity
  progress : ∀ pre capacity copied left post, reads = pre ++ (capacity, copied, left) :: post →
    0 < capacity → (sent pre).length < msg.length → 0 < copied.length
  cursor : ∀ pre capacity copied left post, reads = pre ++ (capacity, copied, left) :: post →
    left.readptr = (sent pre).length + copied.length ∧
      left.readptr + left.sizeleft = msg.length

/-- **A walk from the start delivers the message.** -/
theorem ReadsFrom.delivers {msg : Bytes} {reads : List (Nat × Block × VcSendstate)}
    (h : ReadsFrom msg 0 reads) : Delivers msg reads where
  initial := by
    rintro pre post rfl
    rw [h.of_append.1.sent_eq_take, cells, cells]
    exact (List.take_prefix _ _).map some
  whole := by
    rintro pre capacity left post rfl hpos
    obtain ⟨hpre, hempty, -⟩ := h.of_append
    have hlen := congrArg List.length hempty
    rw [Nat.zero_add, length_cells, List.length_take, List.length_drop, List.length_nil] at hlen
    rw [hpre.sent_eq_take, List.take_of_length_le (by omega)]
  room := by
    rintro pre capacity copied left post rfl
    obtain ⟨-, hcopied, -⟩ := h.of_append
    rw [hcopied, length_cells, List.length_take]
    exact Nat.min_le_left _ _
  progress := by
    rintro pre capacity copied left post rfl hpos hlt
    obtain ⟨-, hcopied, -⟩ := h.of_append
    rw [hcopied, length_cells, List.length_take, List.length_drop]
    omega
  cursor := by
    rintro pre capacity copied left post rfl
    obtain ⟨-, -, hptr, hleft, -⟩ := h.of_append
    rw [Nat.zero_add] at hptr
    exact ⟨hptr, hleft⟩

/-! ## The operations that upload -/

/-- The document an operation uploads through the read callback. -/
def Op.document : Op σ → Option Bytes
  | insert _ json | update _ json | upsert _ json | publish _ json => json
  | execute _ argsDoc => argsDoc.map CString.bytes
  | querySource _ qParams => qParams.map CString.bytes
  | _ => none

theorem Op.outline_of_document {op : Op σ} {json : Bytes} (hdoc : op.document = some json)
    (v : UInt8) :
    ∃ msg, (op.outline v).method.message = some msg ∧ msg.bytes = json ∧
      (op.outline v).recvCallback = none := by
  cases op with
  | insert rsURI doc | update rsURI doc | upsert rsURI doc | publish topic doc =>
    obtain rfl : doc = some json := hdoc
    exact ⟨_, rfl, (messageBuf_eq_ofBytes _).2, rfl⟩
  | execute name doc | querySource name doc =>
    obtain ⟨text, rfl, rfl⟩ := Option.map_eq_some_iff.mp hdoc
    exact ⟨_, rfl, (messageBuf_eq_ofBytes _).2, rfl⟩
  | _ => cases hdoc

namespace Plan
variable {lib : Libcurl} {p : Plan σ} {g : Setting σ} {x : Transfer} {msg : Message}

/-- The announced size is the document's. -/
theorem opts_postFieldSize (hm : p.method.message = some msg) :
    (p.opts lib g).postFieldSize = msg.bytes.length := by
  rw [← msg.holds.len_eq]
  unfold opts
  simp only [CurlOpts.setopts_append, setopts_commonOptions]
  cases hmeth : p.method <;> rw [hmeth] at hm <;> cases hm <;> rfl

theorem uploads_of_message (hm : p.method.message = some msg) : p.method.uploads = true := by
  cases hmeth : p.method <;> rw [hmeth] at hm <;> cases hm <;> rfl

theorem delivers_exchange (hm : p.method.message = some msg) :
    Delivers msg.bytes (p.exchange lib g x).reads := by
  have hsend : p.send g =
      { base := some msg.buf.data, readptr := 0, sizeleft := msg.buf.len } := by
    rw [send, Method.send, hm]
  have hlen := msg.holds.len_eq
  have hbase : (p.send g).base = some msg.buf.data := by rw [hsend]
  have hmsg : msg.buf.data.take msg.bytes.length = cells msg.bytes := by
    rw [← hlen]
    exact msg.holds.contents
  have hcursor : (p.send g).readptr + (p.send g).sizeleft = msg.bytes.length := by
    rw [hsend, ← hlen]
    exact Nat.zero_add _
  have hwalk : ReadsFrom msg.bytes (p.send g).readptr (p.exchange lib g x).reads :=
    Intake.readsFrom_events (d := ⟨[], g.count, g.user, p.send g⟩) (uploads_of_message hm) hbase
      hmsg hcursor
  have hstart : (p.send g).readptr = 0 := by rw [hsend]
  rw [hstart] at hwalk
  exact hwalk.delivers

end Plan

namespace Sys
variable {lib : Libcurl} {s : Sys σ} {h : VME} {op : Op σ} {x : Transfer} {json : Bytes}

/-- **An upload sends the caller's document**, drawn out in pieces of any sizes, and
announces its length.  It returns unless its path is longer than an `int` counts or a header
line of the response overruns. -/
theorem upload_whole (hs : Reachable lib s) (hh : h ∈ s.handles)
    (hdoc : op.document = some json) :
    (∃ vc, s.world.heap h = .client vc ∧ (¬ op.Faults vc.apiVersion →
        (∀ line ∈ x.headers, HeaderFits line) →
        ∃ r w', op.run lib s.world h x = .ok (some r, w'))) ∧
      ∀ r w', op.run lib s.world h x = .ok (some r, w') →
        ∃ e, w'.wire = s.world.wire ++ [(h, e)] ∧ e.reads.map Prod.fst = x.capacities ∧
          Delivers json e.reads ∧ e.request.body = cells json ∧
          e.request.opts.postFieldSize = (json.length : Int) := by
  obtain ⟨-, vc, hp, -⟩ := hs.ready hh
  have hpatch : ¬ op.PatchesNull := by
    cases op with
    | patch rsURI json => cases hdoc
    | _ => exact id
  refine ⟨⟨vc, hp, fun hop => hs.run_returns hh hp op x ⟨hop, fun h => absurd h hpatch⟩⟩, ?_⟩
  intro r w' hrun
  obtain ⟨vc₁, p, vc', -, hplan, -, rfl, -⟩ := hs.run_inv hh hrun
  obtain ⟨-, rfl⟩ := Op.plan_eq_some_iff.mp hplan
  obtain ⟨msg, hm, rfl, hcb⟩ := Op.outline_of_document hdoc vc₁.apiVersion
  refine ⟨_, rfl, Intake.capacities_of_none hcb (Plan.uploads_of_message hm),
    Plan.delivers_exchange hm, ?_, Plan.opts_postFieldSize hm⟩
  show (op.outline vc₁.apiVersion).method.body _ = cells msg.bytes
  cases hmeth : (op.outline vc₁.apiVersion).method <;> rw [hmeth] at hm <;> cases hm <;> rfl

/-- An insert drawn out one byte at a time. -/
theorem upload_whole_bytewise :
    ∃ (s : Sys Unit) (r : VmeResult) (w' : World Unit) (e : Exchange),
      (Op.insert (lit "/r") (some [91, 93])).run .plain s.world 8
        { events := [.send 1, .send 1, .send 1], res := CURLE_OK, status := 200
          errText := lit "" } = .ok (some r, w') ∧
      w'.wire = s.world.wire ++ [(8, e)] ∧ e.reads.map Prod.fst = [1, 1, 1] ∧
      Delivers [91, 93] e.reads ∧ e.request.opts.postFieldSize = 2 := by
  obtain ⟨s, vc, p, w', hs, hh, -, -, -, hrun, -⟩ :=
    exists_request (.insert (lit "/r") (some [91, 93]))
      { events := [.send 1, .send 1, .send 1], res := CURLE_OK, status := 200, errText := lit "" }
      (Option.some_ne_none _) (by decide)
  have hdoc : (Op.insert (lit "/r") (some [91, 93]) : Op Unit).document = some [91, 93] := rfl
  obtain ⟨-, hall⟩ := upload_whole
    (x := { events := [.send 1, .send 1, .send 1], res := CURLE_OK, status := 200
            errText := lit "" }) hs hh hdoc
  obtain ⟨e, hwire, hcap, hdel, -, hsize⟩ := hall _ _ hrun
  exact ⟨s, _, w', e, hrun, hwire, hcap, hdel, hsize⟩

end Sys

end VantiqMicro
