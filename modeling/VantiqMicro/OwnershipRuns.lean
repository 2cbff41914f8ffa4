import VantiqMicro.Ownership
import VantiqMicro.Results

/-! # What an application's runs leave in use

The system of `Sys.Step` once more, with the blocks: each call that returns is made on the
ledger too, and the application hands every result back once, to `vme_free_result`, in any
order.  `Process.Accounted` is the invariant: what is in use is the clients' blocks, those of
the results not handed back, and a number of blocks nothing points to, which is the sum of
what the calls lost. -/

namespace VantiqMicro.Held
open CMem

variable {σ : Type}

/-! ## The process and its steps -/

/-- How the call's transfer ended, as the world after it shows. -/
def ending (w : World σ) : Call σ → Ending
  | .request h _ _ =>
    match w.wire.getLast?, w.heap h with
    | some (_, e), .client vc =>
      ⟨e.res, vc.recvBuf.len, e.status, e.reads.any fun r => !r.2.1.isEmpty⟩
    | _, _ => ⟨CURLE_OK, 0, 0, false⟩
  | _ => ⟨CURLE_OK, 0, 0, false⟩

/-- The clients behind the handles. -/
abbrev Clients := List (VME × ClientBlocks)

def clientBlocks (clients : Clients) : Multiset Nat := (clients.map fun c => c.2.blocks).sum

def resultBlocks (results : List ResultBlocks) : Multiset Nat :=
  (results.map ResultBlocks.blocks).sum

/-- A call, the clients after it and the result it returns. -/
def invoke (lib : Libcurl) (clients : Clients) (e : Ending) :
    Call σ → Heaped (Clients × Option ResultBlocks)
  | .init addr a => do
    match ← vcInit a with
    | some vc => return ((addr, vc) :: clients, none)
    | none => return (clients, none)
  | .teardown h _ => do
    vmeTeardown (clients.lookup h)
    return (clients.filter (·.1 ≠ h), none)
  | .callbackState h _ => do
    vmeCallbackState (clients.lookup h)
    return (clients, none)
  | .request h op _ => do
    let r ← run lib (clients.lookup h) e op
    return (clients, r)

/-- The process: the handles, what stands behind them, and the results the application has
not handed back. -/
structure Process (σ : Type) where
  sys : Sys σ
  ledger : Ledger
  clients : Clients
  results : List ResultBlocks

/-- A call that returns, with the ending of its transfer, or a `vme_free_result`. -/
inductive Event (σ : Type)
  | call (c : Call σ) (e : Ending)
  | freeResult (r : ResultBlocks)

/-- How many blocks an event loses. -/
def Event.lost : Event σ → Nat
  | .call (.init _ a) _ => if a.Accepted then 0 else initLost a
  | .call (.teardown h _) _ => if h = NULL then 0 else 1
  | .call (.callbackState ..) _ => 0
  | .call (.request h op _) e =>
    if h ≠ NULL then e.answer.lost
    else
      match op with
      | .publish .. => 2
      | _ => 0
  | .freeResult _ => 0

namespace Process

/-- A process that has called nothing yet. -/
def start (w : World σ) : Process σ := ⟨⟨w, []⟩, .empty, [], []⟩

inductive Step (lib : Libcurl) : Process σ → Event σ → Process σ → Prop
  | call {p : Process σ} {c : Call σ} {s : Sys σ} {clients : Clients} {r : Option ResultBlocks}
      {l : Ledger} :
      Sys.Step lib p.sys c s →
      invoke lib p.clients (ending s.world c) c p.ledger = .ok ((clients, r), l) →
      Step lib p (.call c (ending s.world c)) ⟨s, l, clients, r.toList ++ p.results⟩
  | freeResult {p : Process σ} {r : ResultBlocks} {before after : List ResultBlocks}
      {l : Ledger} :
      p.results = before ++ r :: after → vmeFreeResult (some r) p.ledger = .ok ((), l) →
      Step lib p (.freeResult r) ⟨p.sys, l, p.clients, before ++ after⟩

def Reachable (lib : Libcurl) (p : Process σ) : Prop :=
  ∃ w events, Run (Step lib) (start w) events p

/-! ## The invariant -/

/-- Each handle has a whole client behind it, and no two the same. -/
structure Paired (handles : List VME) (clients : Clients) : Prop where
  handles : handles = clients.map Prod.fst
  nodup : (clients.map Prod.fst).Nodup
  whole : ∀ c ∈ clients, c.2.Whole

/-- What is in use is the clients' blocks, the results', and `n` more. -/
structure Accounted (p : Process σ) (n : Nat) : Prop extends Paired p.sys.handles p.clients where
  ready : p.sys.All fun _ _ => True
  live : ∃ lost : Multiset Nat, lost.card = n ∧
    p.ledger.live = clientBlocks p.clients + (resultBlocks p.results + lost)

end Process

/-- What stands behind a handle, and what stands behind the others. -/
theorem lookup_of_mem {clients : Clients} {h : VME} (hn : (clients.map Prod.fst).Nodup)
    (hh : h ∈ clients.map Prod.fst) :
    ∃ vc, (h, vc) ∈ clients ∧ clients.lookup h = some vc ∧
      clientBlocks clients = vc.blocks + clientBlocks (clients.filter (·.1 ≠ h)) := by
  induction clients with
  | nil => cases hh
  | cons c rest ih =>
    obtain ⟨k, vc⟩ := c
    obtain ⟨hk, hrest⟩ := List.nodup_cons.mp hn
    by_cases hkh : k = h
    · subst hkh
      have hfilter : rest.filter (·.1 ≠ k) = rest :=
        List.filter_eq_self.mpr fun c hc => by
          have hne : c.1 ≠ k := fun heq =>
            hk (List.mem_map.mpr ⟨c, hc, heq⟩)
          simpa using hne
      refine ⟨vc, List.mem_cons_self, List.lookup_cons_self, ?_⟩
      rw [List.filter_cons_of_neg (by simp), hfilter]
      rfl
    · have hmem : h ∈ rest.map Prod.fst :=
        (List.mem_cons.mp hh).resolve_left fun heq => hkh heq.symm
      obtain ⟨vc', hvc', hlookup, hblocks⟩ := ih hrest hmem
      refine ⟨vc', List.mem_cons_of_mem _ hvc', ?_, ?_⟩
      · have hbeq : (h == k) = false := beq_false_of_ne fun heq => hkh heq.symm
        rw [List.lookup_cons, hbeq]
        exact hlookup
      · rw [List.filter_cons_of_pos (by simpa using hkh)]
        show vc.blocks + clientBlocks rest = _
        rw [hblocks]
        show _ = vc'.blocks + (vc.blocks + _)
        abel

theorem lookup_of_notMem {clients : Clients} {h : VME} (hh : h ∉ clients.map Prod.fst) :
    clients.lookup h = none ∧ clients.filter (·.1 ≠ h) = clients := by
  have hne : ∀ c ∈ clients, c.1 ≠ h := fun c hc heq =>
    hh (List.mem_map.mpr ⟨c, hc, heq⟩)
  refine ⟨List.lookup_eq_none_iff.mpr fun c hc => ?_, List.filter_eq_self.mpr fun c hc => ?_⟩
  · simpa using (hne c hc).symm
  · simpa using hne c hc

section Calls
variable {lib : Libcurl} {s s' : Sys σ} {c : Call σ} {clients : Clients} {h : VME} {n : Nat}

/-- The clients and the result of a call, and what it loses. -/
def Invoked (s' : Sys σ) (n : Nat) (out : Clients × Option ResultBlocks) (left : Multiset Nat) :
    Prop :=
  Process.Paired s'.handles out.1 ∧ ∃ lost : Multiset Nat, lost.card = n ∧
    left = clientBlocks out.1 + (resultBlocks out.2.toList + lost)

open Process

/-- The blocks of the client behind a usable handle are among the clients'. -/
theorem Process.Paired.given (hp : Paired s.handles clients) :
    Given (clients.lookup h) (clientBlocks clients) := by
  intro vc hvc
  by_cases hh : h ∈ clients.map Prod.fst
  · obtain ⟨vc', -, hlookup, hblocks⟩ := lookup_of_mem hp.nodup hh
    rw [hlookup] at hvc
    cases hvc
    rw [hblocks]
    exact Multiset.le_add_right _ _
  · rw [(lookup_of_notMem hh).1] at hvc
    cases hvc

/-- `NULL` is no handle. -/
theorem null_notMem (hall : s.All fun _ _ => True) (hp : Paired s.handles clients) :
    NULL ∉ clients.map Prod.fst := by
  rw [← hp.handles]
  exact fun hmem => (hall NULL hmem).1 rfl

theorem init_turns {addr : Addr} {a : InitArgs} (hstep : Sys.Step lib s (.init addr a) s')
    (hall : s.All fun _ _ => True) (hp : Paired s.handles clients) (e : Ending) :
    Turns (invoke lib clients e (.init addr a : Call σ)) (clientBlocks clients)
      (Invoked s' (Event.call (.init addr a : Call σ) e).lost) := by
  cases hstep with
  | @init _ _ h w hne hfree hr =>
    obtain ⟨⟨returned, t⟩, hv, hret⟩ := bind_eq_ok.mp hr
    obtain ⟨rfl, rfl⟩ := Prod.mk.inj (Except.ok.inj hret)
    have hacc : returned = true ↔ a.Accepted := (InitArgs.vcInit_ok hv).2.1
    refine (vcInit_turns a _).seq ?_
    rintro (_ | vc) left ⟨hsome, hmade⟩
    · obtain ⟨lost, hlost, rfl⟩ := hmade
      have hnot : ¬ a.Accepted := fun h => by cases hsome.mpr h
      have hfalse : returned = false := by
        rw [← Bool.not_eq_true]
        exact fun h => hnot (hacc.mp h)
      subst hfalse
      refine Turns.pure ⟨hp, lost, ?_, ?_⟩
      · rw [hlost, Event.lost, if_neg hnot]
      · show _ = _ + (0 + lost)
        abel
    · obtain ⟨hwhole, rfl⟩ := hmade
      have hyes : a.Accepted := hsome.mp rfl
      obtain rfl : returned = true := hacc.mpr hyes
      have hnew : addr ∉ s.handles := fun hq => hall.ne_of_free hq hfree rfl
      refine Turns.pure ⟨⟨?_, ?_, ?_⟩, 0, ?_, ?_⟩
      · show (if addr = NULL then s.handles else addr :: s.handles) = _
        rw [if_neg hne, hp.handles]
        rfl
      · exact List.nodup_cons.mpr ⟨hp.handles ▸ hnew, hp.nodup⟩
      · intro c hc
        rcases List.mem_cons.mp hc with rfl | hc
        · exact hwhole
        · exact hp.whole c hc
      · rw [Event.lost, if_pos hyes]
        rfl
      · show _ = vc.blocks + clientBlocks clients + (0 + 0)
        abel

theorem teardown_turns {left : UInt8} (hstep : Sys.Step lib s (.teardown h left) s')
    (hall : s.All fun _ _ => True) (hp : Paired s.handles clients) (e : Ending) :
    Turns (invoke lib clients e (.teardown h left : Call σ)) (clientBlocks clients)
      (Invoked s' (Event.call (.teardown h left : Call σ) e).lost) := by
  have hnull := null_notMem hall hp
  cases hstep with
  | @teardown _ _ w husable hr =>
    have hpaired : Paired (s.handles.filter (· ≠ h)) (clients.filter (·.1 ≠ h)) := by
      refine ⟨?_, ?_, fun c hc => hp.whole c (List.mem_of_mem_filter hc)⟩
      · rw [hp.handles, List.filter_map]
        rfl
      · exact hp.nodup.sublist (List.filter_sublist.map _)
    rcases husable with rfl | hh
    · obtain ⟨hlookup, hfilter⟩ := lookup_of_notMem hnull
      rw [hfilter] at hpaired
      simp only [invoke, hlookup, hfilter]
      have hpure : Turns (pure ()) (clientBlocks clients) fun _ left =>
          left = clientBlocks clients := Turns.pure rfl
      refine hpure.step ?_
      refine Turns.pure ⟨hpaired, 0, by simp [Event.lost], ?_⟩
      show _ = _ + (0 + 0)
      abel
    · have hne : h ≠ NULL := (hall h hh).1
      obtain ⟨vc, -, hlookup, hblocks⟩ := lookup_of_mem hp.nodup (hp.handles ▸ hh)
      simp only [invoke, hlookup]
      rw [hblocks]
      refine (vmeTeardown_turns vc _).step ?_
      refine Turns.pure ⟨hpaired, {vc.serverUrl}, by simp [Event.lost, hne], ?_⟩
      show _ = _ + (0 + _)
      abel

theorem callbackState_turns {state : Ptr} (hstep : Sys.Step lib s (.callbackState h state) s')
    (hp : Paired s.handles clients) (e : Ending) :
    Turns (invoke lib clients e (.callbackState h state : Call σ)) (clientBlocks clients)
      (Invoked s' (Event.call (.callbackState h state : Call σ) e).lost) := by
  cases hstep with
  | callbackState _ _ =>
    refine (vmeCallbackState_turns hp.given).step ?_
    refine Turns.pure ⟨hp, 0, rfl, ?_⟩
    show _ = _ + (0 + 0)
    abel

end Calls

/-! ## The texts of a result -/

/-- Which texts a result has. -/
def texts (r : VmeResult) : Bool × Bool := (r.vmeJsonData.isSome, r.vmeErrorMsg.isSome)

/-- The same, by its blocks. -/
def ResultBlocks.texts (r : ResultBlocks) : Bool × Bool :=
  (r.vmeJsonData.isSome, r.vmeErrorMsg.isSome)

theorem ResultBlocks.Fits.texts {r : ResultBlocks} {n : Answer} (h : r.Fits n) :
    r.texts = (n.data, n.error) := Prod.ext h.1 h.2

theorem texts_resultOf (lib : Libcurl) (received : Bytes) (count : UInt32) (res : CURLcode)
    (errBuf : CString) (status : Nat) (copied : Bool) :
    texts (resultOf lib received count res errBuf status) =
      ((Ending.mk res received.length status copied).answer.data,
        (Ending.mk res received.length status copied).answer.error) := by
  have hlen : 0 < received.length ↔ received ≠ [] := List.length_pos_iff
  refine Prod.ext ?_ ?_
  · show (resultOf lib received count res errBuf status).vmeJsonData.isSome = _
    simp only [resultOf, Ending.answer, hlen]
    split <;> simp [*]
  · show (resultOf lib received count res errBuf status).vmeErrorMsg.isSome = _
    rw [Bool.eq_iff_iff, isSome_vmeErrorMsg_resultOf]
    simp only [Ending.answer, hlen, decide_eq_true_eq]

section Requests
variable {lib : Libcurl} {s s' : Sys σ} {clients : Clients} {h : VME} {op : Op σ} {x : Transfer}

open Process

/-- The result for an invalid handle has the texts of its blocks. -/
theorem texts_invalidHandle {e : Ending} {pre left : Multiset Nat} {out : Option ResultBlocks}
    (hout : Answers (answer none e op) (none = (none : Option ClientBlocks) ∧
      op.invalidHandle = none) pre out left) :
    op.invalidHandle.map texts = out.map ResultBlocks.texts := by
  have hanswer : (answer none e op).data = false ∧ (answer none e op).error = true := by
    cases op <;> exact ⟨rfl, rfl⟩
  cases out with
  | none => rw [hout.1.2]; rfl
  | some rb =>
    have htexts : rb.texts = (false, true) := by
      rw [hout.2.1.texts, hanswer.1, hanswer.2]
    rw [Option.map_some, htexts]
    cases op with
    | patch => exact absurd ⟨rfl, rfl⟩ hout.1
    | _ => rfl

/-- An operation loses what its answer says. -/
theorem lost_request {e : Ending} (vme : Option ClientBlocks) (hvme : vme = none ↔ h = NULL) :
    (Event.call (.request h op x) e).lost = (answer vme e op).lost := by
  cases vme with
  | none =>
    obtain rfl : h = NULL := hvme.mp rfl
    cases op <;> rfl
  | some vc =>
    have hne : h ≠ NULL := fun heq => by cases hvme.mpr heq
    cases op <;> exact if_pos hne

/-- A result beside the clients' blocks. -/
theorem Answers.invoked {n : Answer} {null : Prop} {r : Option ResultBlocks} {left : Multiset Nat}
    (hout : Answers n null (clientBlocks clients) r left) (hp : Paired s.handles clients)
    (hnull : null → n.lost = 0) : Invoked s n.lost (clients, r) left := by
  cases r with
  | none =>
    obtain ⟨h, rfl⟩ := hout
    refine ⟨hp, 0, (hnull h).symm, ?_⟩
    show _ = _ + (0 + 0)
    abel
  | some rb =>
    obtain ⟨-, -, lost, hlost, rfl⟩ := hout
    refine ⟨hp, lost, hlost, ?_⟩
    show _ = _ + (rb.blocks + 0 + lost)
    abel

/-- The texts of a result are what the ending of its transfer says, and what the operation read
through was there. -/
theorem texts_of_held (hall : s.All fun _ _ => True) (hh : h ∈ s.handles) {r : Option VmeResult}
    {w : World σ} (hr : op.run lib s.world h x = .ok (r, w)) (vme : Option ClientBlocks) :
    Backed vme (ending w (.request h op x)) op ∧ ∃ res, r = some res ∧
      texts res = ((ending w (.request h op x)).answer.data,
        (ending w (.request h op x)).answer.error) := by
  obtain ⟨hne, vc, hheap, hrdy, -⟩ := hall h hh
  obtain ⟨p, vc', hplan, hfit, rfl, rfl, hset⟩ := Op.run_inv hheap hne hrdy hr
  obtain ⟨hop, rfl⟩ := Op.plan_eq_some_iff.mp hplan
  have hending : ending (s.world.after h vc'
      ((op.outline vc.apiVersion).outcome (s.world.setting vc) x).1.user
      ((op.outline vc.apiVersion).exchange lib (s.world.setting vc) x)) (.request h op x) =
        ⟨(op.outline vc.apiVersion).res (s.world.setting vc) x,
          ((op.outline vc.apiVersion).outcome (s.world.setting vc) x).1.received.length, x.status,
          ((op.outline vc.apiVersion).exchange lib (s.world.setting vc) x).reads.any
            fun r => !r.2.1.isEmpty⟩ := by
    rw [← hset.holds.len_eq]
    simp [ending, World.after, World.put, Plan.exchange]
  rw [hending]
  refine ⟨Backed.of_defined hop fun hnull => ?_, _, rfl, texts_resultOf ..⟩
  -- a patch without a document that returned either made no read or had nothing left to copy
  have hm := (Op.patchesNull_iff (v := vc.apiVersion)).mp hnull
  have hcopied : ∀ r ∈ ((op.outline vc.apiVersion).exchange lib (s.world.setting vc) x).reads,
      r.2.1 = [] := by
    have hsend : (op.outline vc.apiVersion).send (s.world.setting vc) = vc.sendState := by
      rw [Plan.send, hm]
      rfl
    by_cases hleft : vc.sendState.sizeleft = 0
    · exact Intake.copied_of_sizeleft (by rw [hsend]; exact hleft)
    · have hreads := hfit.reads (by rw [hsend]; exact hrdy.stale_iff.mpr hleft)
      rw [show ((op.outline vc.apiVersion).exchange lib (s.world.setting vc) x).reads = [] from
        hreads]
      simp
  rw [List.any_eq_false]
  intro r hr'
  rw [hcopied r hr']
  decide

/-- **A request on the ledger** leaves the clients as they are, and returns blocks for the
texts its result has. -/
theorem request_invoked (hstep : Sys.Step lib s (.request h op x) s')
    (hall : s.All fun _ _ => True) (hp : Paired s.handles clients) :
    Turns (invoke lib clients (ending s'.world (.request h op x)) (.request h op x))
      (clientBlocks clients) fun out left =>
        Invoked s' (Event.call (.request h op x) (ending s'.world (.request h op x))).lost
            out left ∧
          ∀ r w, op.run lib s.world h x = .ok (r, w) →
            out.2.map ResultBlocks.texts = r.map texts := by
  have hnull := null_notMem hall hp
  cases hstep with
  | @request _ _ _ r w husable hr =>
    have hres : ∀ r' w', op.run lib s.world h x = .ok (r', w') → r' = r := by
      intro r' w' hr'
      rw [hr] at hr'
      cases hr'
      rfl
    rcases husable with rfl | hh
    · obtain ⟨hlookup, -⟩ := lookup_of_notMem hnull
      have hgiven := hp.given (h := NULL)
      rw [hlookup] at hgiven
      simp only [invoke, hlookup]
      obtain ⟨hop, -, -⟩ := Op.run_invalid_inv vcFromVme_null hr
      refine (run_turns op hgiven (Backed.of_invalid hop)).seq ?_
      rintro out left hout
      refine Turns.pure ⟨?_, fun r' w' hr' => ?_⟩
      · rw [lost_request none (by simp)]
        exact hout.invoked hp fun hnone => by
          cases op with
          | patch => rfl
          | _ => exact absurd hnone.2 (by simp [Op.invalidHandle])
      · obtain ⟨-, rfl, -⟩ := Op.run_invalid_inv vcFromVme_null hr'
        exact (texts_invalidHandle hout).symm
    · obtain ⟨vc, -, hlookup, -⟩ := lookup_of_mem hp.nodup (hp.handles ▸ hh)
      obtain ⟨hbacked, res, rfl, htexts⟩ := texts_of_held hall hh hr (some vc)
      have hgiven := hp.given (h := h)
      rw [hlookup] at hgiven
      simp only [invoke, hlookup]
      refine (run_turns op hgiven hbacked).seq ?_
      rintro out left hout
      refine Turns.pure ⟨?_, fun r' w' hr' => ?_⟩
      · rw [lost_request (some vc) (by simp [(hall h hh).1])]
        exact hout.invoked hp fun hnone => by cases hnone.1
      · obtain rfl := hres r' w' hr'
        cases out with
        | none => exact absurd hout.1.1 (by simp)
        | some rb =>
          have hanswer : answer (some vc) (ending w (.request h op x)) op =
              (ending w (.request h op x)).answer := by
            cases op <;> rfl
          rw [Option.map_some, Option.map_some, htexts, hout.2.1.texts, hanswer]

end Requests

/-! ## Every run -/

namespace Process
variable {lib : Libcurl} {p p' : Process σ} {c : Call σ} {s : Sys σ} {n : Nat} {ev : Event σ}
  {events : List (Event σ)} {w : World σ} {r : ResultBlocks}

theorem start_accounted (w : World σ) : Accounted (start w) 0 where
  handles := rfl
  nodup := List.nodup_nil
  whole c hc := by cases hc
  ready := Sys.all_of_no_handles rfl
  live := ⟨0, rfl, rfl⟩

theorem Accounted.turns (hp : p.Accounted n) (hstep : Sys.Step lib p.sys c s) :
    Turns (invoke lib p.clients (ending s.world c) c) (clientBlocks p.clients)
      (Invoked s (Event.call c (ending s.world c)).lost) := by
  cases c with
  | init addr a => exact init_turns hstep hp.ready hp.toPaired _
  | teardown h left => exact teardown_turns hstep hp.ready hp.toPaired _
  | callbackState h state => exact callbackState_turns hstep hp.toPaired _
  | request h op x =>
    exact (request_invoked hstep hp.ready hp.toPaired).mono fun _ _ hout => hout.1

/-- The result and those before and behind it. -/
theorem resultBlocks_split (before after : List ResultBlocks) (r : ResultBlocks) :
    resultBlocks (before ++ r :: after) = r.blocks + resultBlocks (before ++ after) := by
  simp only [resultBlocks, List.map_append, List.sum_append, List.map_cons, List.sum_cons]
  abel

theorem Accounted.freeResult_turns {before after : List ResultBlocks} (hp : p.Accounted n)
    (hr : p.results = before ++ r :: after) :
    ∃ l, vmeFreeResult (some r) p.ledger = .ok ((), l) ∧
      Accounted ⟨p.sys, l, p.clients, before ++ after⟩ n := by
  obtain ⟨lost, hlost, hlive⟩ := hp.live
  have hgiven : p.ledger.live =
      r.blocks + 0 + (clientBlocks p.clients + (resultBlocks (before ++ after) + lost)) := by
    rw [hlive, hr, resultBlocks_split]
    abel
  obtain ⟨⟨⟩, left, l, hrun, rfl, hl⟩ := vmeFreeResult_turns r 0 p.ledger _ hgiven
  refine ⟨l, hrun, hp.toPaired, hp.ready, lost, hlost, ?_⟩
  rw [hl, Multiset.zero_add]

/-- **The calls keep the account**, each with what it loses. -/
theorem Step.accounted (hstep : Step lib p ev p') (hp : p.Accounted n) :
    p'.Accounted (n + ev.lost) := by
  cases hstep with
  | @call c s clients r l hsys hrun =>
    obtain ⟨lost, hlost, hlive⟩ := hp.live
    obtain ⟨left, ⟨hpaired, more, hmore, rfl⟩, hl⟩ := (hp.turns hsys).of_ok hlive hrun
    refine ⟨hpaired, ?_, lost + more, by rw [Multiset.card_add, hlost, hmore], ?_⟩
    · exact hsys.all (fun _ _ _ _ _ _ _ _ _ => trivial) (fun _ _ _ _ _ => trivial)
        (fun _ _ _ _ _ _ _ _ _ => trivial) hp.ready
    · have hresults : resultBlocks (r.toList ++ p.results) =
          resultBlocks r.toList + resultBlocks p.results := by
        rw [resultBlocks, List.map_append, List.sum_append]
        rfl
      show l.live = clientBlocks clients + (resultBlocks (r.toList ++ p.results) + (lost + more))
      rw [hl, hresults]
      abel
  | @freeResult r before after l hr hrun =>
    obtain ⟨l', hrun', hacc⟩ := hp.freeResult_turns hr
    rw [hrun] at hrun'
    cases hrun'
    exact hacc

theorem accounted_of_run (hrun : Run (Step lib) p events p') (hp : p.Accounted n) :
    p'.Accounted (n + (events.map Event.lost).sum) := by
  induction hrun generalizing n with
  | nil p => exact hp
  | cons hstep _ ih =>
    rw [List.map_cons, List.sum_cons, ← Nat.add_assoc]
    exact ih (hstep.accounted hp)

theorem Reachable.accounted (hp : Reachable lib p) : ∃ n, p.Accounted n := by
  obtain ⟨w, events, hrun⟩ := hp
  exact ⟨_, accounted_of_run hrun (start_accounted w)⟩

/-- The ledger takes every call that returns. -/
theorem Accounted.call_returns (hp : p.Accounted n) (hstep : Sys.Step lib p.sys c s) :
    ∃ p', Step lib p (.call c (ending s.world c)) p' ∧ p'.sys = s := by
  obtain ⟨lost, -, hlive⟩ := hp.live
  obtain ⟨⟨clients, r⟩, left, l, hrun, -, -⟩ := hp.turns hstep p.ledger _ hlive
  exact ⟨_, .call hstep hrun, rfl⟩

/-- Only requests return results. -/
theorem Step.results {e : Ending} (hstep : Step lib p (.call c e) p')
    (hc : ∀ h op x, c ≠ .request h op x) : p'.results = p.results := by
  cases hstep with
  | @call c s clients r l hsys hrun =>
    suffices hnone : r = none by rw [hnone]; rfl
    cases c with
    | init addr a =>
      obtain ⟨⟨vc, l'⟩, -, hret⟩ := bind_eq_ok.mp hrun
      cases vc <;> cases hret <;> rfl
    | teardown h left =>
      obtain ⟨r', -, hret⟩ := bind_eq_ok.mp hrun
      cases hret
      rfl
    | callbackState h state =>
      obtain ⟨r', -, hret⟩ := bind_eq_ok.mp hrun
      cases hret
      rfl
    | request h op x => exact absurd rfl (hc h op x)

/-- A process that has just called `vme_init` with success. -/
theorem exists_session :
    ∃ (p : Process Unit) (e : Ending),
      Run (Step .plain) (start World.fresh) [.call (.sample [] 200) e] p ∧
        p.sys.handles = [8] ∧ p.results = [] ∧
        ∃ vc, p.sys.world.heap 8 = .client vc ∧ vc.Ready := by
  have hfree : ∀ vc, World.fresh.heap 8 ≠ .client vc := by
    intro vc h
    cases h
  obtain ⟨s, hrun, hhandles, -, vc, hp, hrdy, -⟩ :=
    Sys.exists_reachable Libcurl.plain World.fresh 8 (.sample [] 200) (by decide) hfree
      (show (lit "https://host/").bytes ≠ [] by decide)
      (show (serverUrlOf (lit "https://host/") ++ AUTH_URL_PATH).length ≤ INT_MAX by decide)
      (by decide) ⟨⟨rfl, rfl⟩, Or.inl rfl⟩
  cases hrun with
  | cons hsys hnil =>
    cases hnil
    obtain ⟨p, hstep, rfl⟩ := (start_accounted World.fresh).call_returns hsys
    have hresults : p.results = [] := hstep.results fun h op x heq => by cases heq
    exact ⟨p, _, .cons hstep (.nil p), hhandles, hresults, vc, hp, hrdy⟩

variable (lib) in
/-- The handle of it can be torn down. -/
theorem teardown_step {s : Sys σ} {h : VME} {vc : VantiqClient σ} (hs : s.handles = [h])
    (hp : s.world.heap h = .client vc) (hne : h ≠ NULL) (hr : vc.Ready) :
    ∃ s', Sys.Step lib s (.teardown h 0) s' ∧ s'.handles = [] := by
  refine ⟨_, .teardown (Or.inr (by simp [hs])) (Sys.vmeTeardown_client hp hne hr.magic 0), ?_⟩
  simp [hs]

/-- **No call that returns touches a block that is not in use**, nor frees one twice: in every
reachable state the ledger takes it, whatever call it is, and takes every result back that was
not handed back before. -/
theorem no_invalid_access (hp : Reachable lib p) :
    (∀ c s, Sys.Step lib p.sys c s →
      ∃ p', Step lib p (.call c (ending s.world c)) p' ∧ p'.sys = s) ∧
      ∀ r ∈ p.results, ∃ p', Step lib p (.freeResult r) p' := by
  obtain ⟨n, hacc⟩ := hp.accounted
  refine ⟨fun c s hstep => hacc.call_returns hstep, fun r hr => ?_⟩
  obtain ⟨before, after, hsplit⟩ := List.append_of_mem hr
  obtain ⟨l, hrun, -⟩ := hacc.freeResult_turns hsplit
  exact ⟨_, .freeResult hsplit hrun⟩

theorem no_invalid_access_teardown :
    ∃ p p' : Process Unit, p.sys.handles = [8] ∧ p'.sys.handles = [] ∧
      Step .plain p (.call (.teardown 8 0) ⟨CURLE_OK, 0, 0, false⟩) p' := by
  obtain ⟨p, e, hrun, hhandles, -, vc, hp, hrdy⟩ := exists_session
  obtain ⟨s, hsys, hs⟩ := teardown_step .plain hhandles hp (by decide) hrdy
  obtain ⟨p', hstep, rfl⟩ := (no_invalid_access ⟨_, _, hrun⟩).1 _ _ hsys
  exact ⟨p, p', hhandles, hs, hstep⟩

/-- **The blocks of a result are those of its texts**: what `vme_free_result` will free is what
the operation returned. -/
theorem result_texts (hp : Reachable lib p) {h : VME} {op : Op σ} {x : Transfer}
    {res : Option VmeResult} {w : World σ} {e : Ending}
    (hres : op.run lib p.sys.world h x = .ok (res, w))
    (hstep : Step lib p (.call (.request h op x) e) p') :
    ∃ r : Option ResultBlocks, p'.results = r.toList ++ p.results ∧
      r.map ResultBlocks.texts = res.map texts := by
  obtain ⟨n, hacc⟩ := hp.accounted
  cases hstep with
  | @call c s clients r l hsys hrun =>
    obtain ⟨lost, -, hlive⟩ := hacc.live
    obtain ⟨left, ⟨-, htexts⟩, -⟩ :=
      (request_invoked hsys hacc.ready hacc.toPaired).of_ok hlive hrun
    exact ⟨r, rfl, htexts res w hres⟩

theorem not_publishesNull : ¬ (Op.publish (lit "/t") (some []) : Op Unit).PublishesNull :=
  Option.some_ne_none _

/-- A topic is published through `NULL`. -/
theorem publish_step (s : Sys Unit) :
    Sys.Step .plain s (.request NULL (.publish (lit "/t") (some [])) (Sys.response [] 200)) s :=
  .request (Or.inl rfl) (Op.run_of_invalid vcFromVme_null not_publishesNull)

theorem result_texts_publish :
    ∃ (p : Process Unit) (r : ResultBlocks), p.results = [r] ∧ r.texts = (false, true) := by
  obtain ⟨p, hstep, -⟩ := (start_accounted World.fresh).call_returns (publish_step ⟨.fresh, []⟩)
  obtain ⟨r, hresults, htexts⟩ := result_texts (p := start World.fresh) ⟨_, _, .nil _⟩
    (Op.run_of_invalid vcFromVme_null not_publishesNull) hstep
  cases r with
  | none => cases htexts
  | some r => exact ⟨p, r, hresults, Option.some.inj htexts⟩

theorem card_clientBlocks {clients : Clients} (h : ∀ c ∈ clients, c.2.Whole) :
    (clientBlocks clients).card = 11 * clients.length := by
  induction clients with
  | nil => rfl
  | cons c rest ih =>
    obtain ⟨hc, hrest⟩ := List.forall_mem_cons.mp h
    show (c.2.blocks + clientBlocks rest).card = _
    rw [Multiset.card_add, hc.card_blocks, ih hrest, List.length_cons]
    omega

theorem card_resultBlocks (results : List ResultBlocks) :
    (resultBlocks results).card = (results.map fun r => r.blocks.card).sum := by
  induction results with
  | nil => rfl
  | cons r rest ih =>
    show (r.blocks + resultBlocks rest).card = _
    rw [Multiset.card_add, ih]
    rfl

/-- **What is in use after a run**: eleven blocks for each handle, those of the results not
handed back, and as many as the calls lost. -/
theorem card_live (hrun : Run (Step lib) (start w) events p) :
    p.ledger.live.card = 11 * p.sys.handles.length +
      (p.results.map fun r => r.blocks.card).sum + (events.map Event.lost).sum := by
  obtain ⟨⟨hhandles, -, hwhole⟩, -, lost, hlost, hlive⟩ :=
    accounted_of_run hrun (start_accounted w)
  rw [hlive, Multiset.card_add, Multiset.card_add, card_clientBlocks hwhole, card_resultBlocks,
    hlost, hhandles, List.length_map, Nat.zero_add, Nat.add_assoc]

/-- A handle, and a topic published through `NULL`. -/
theorem card_live_publish :
    ∃ p : Process Unit, p.sys.handles = [8] ∧
      p.ledger.live.card = 11 + (p.results.map fun r => r.blocks.card).sum + 2 := by
  obtain ⟨p, e, hrun, hhandles, -⟩ := exists_session
  obtain ⟨p', hstep, hsys⟩ :=
    (accounted_of_run hrun (start_accounted World.fresh)).call_returns (publish_step p.sys)
  have hcard := card_live (hrun.append (.cons hstep (.nil _)))
  rw [hsys, hhandles] at hcard
  exact ⟨p', hsys ▸ hhandles, hcard⟩

/-! ## Giving everything back -/

theorem length_teardown {handles : List VME} (hn : handles.Nodup) (h : VME) :
    handles.length ≤ (handles.filter (· ≠ h)).length + if h ∈ handles then 1 else 0 := by
  by_cases hh : h ∈ handles
  · have herase := hn.erase_eq_filter h
    have hlen := List.length_erase_of_mem hh
    have hpos : 0 < handles.length := List.length_pos_of_mem hh
    have hfilter : handles.filter (· ≠ h) = handles.filter (· != h) :=
      List.filter_congr fun q _ => by by_cases hq : q = h <;> simp [hq]
    rw [if_pos hh, hfilter, ← herase, hlen]
    omega
  · have hfilter : handles.filter (· ≠ h) = handles :=
      List.filter_eq_self.mpr fun q hq => by
        have hne : q ≠ h := fun heq => hh (heq ▸ hq)
        simpa using hne
    rw [if_neg hh, hfilter]
    exact Nat.le_add_right _ _

end Process

/-- How many handles an event obtains. -/
def Event.opened : Event σ → Nat
  | .call (.init _ a) _ => if a.Accepted then 1 else 0
  | _ => 0

namespace Process
variable {lib : Libcurl} {p p' : Process σ} {c : Call σ} {s : Sys σ} {n : Nat} {ev : Event σ}
  {events : List (Event σ)} {w : World σ} {r : ResultBlocks}

/-- A handle that is obtained is held, or something was lost. -/
theorem Step.opened (hstep : Step lib p ev p') (hp : p.Accounted n) :
    p.sys.handles.length + ev.opened ≤ p'.sys.handles.length + ev.lost := by
  cases hstep with
  | @call c s clients r l hsys hrun =>
    cases hsys with
    | @init addr a h w hne hfree hr =>
      obtain ⟨⟨returned, t⟩, hv, hret⟩ := bind_eq_ok.mp hr
      obtain ⟨rfl, rfl⟩ := Prod.mk.inj (Except.ok.inj hret)
      have hacc : returned = true ↔ a.Accepted := (InitArgs.vcInit_ok hv).2.1
      by_cases ha : a.Accepted
      · obtain rfl := hacc.mpr ha
        simp [Event.opened, Event.lost, ha, hne]
      · have hfalse : returned = false := by
          rw [← Bool.not_eq_true]
          exact fun h => ha (hacc.mp h)
        simp [Event.opened, ha, hfalse]
    | @teardown h left w husable hr =>
      have hn : p.sys.handles.Nodup := hp.handles ▸ hp.nodup
      refine le_trans (length_teardown hn h) (Nat.add_le_add_left ?_ _)
      by_cases hh : h ∈ p.sys.handles
      · simp [Event.lost, hh, (hp.ready h hh).1]
      · simp [hh]
    | callbackState _ _ => exact Nat.le_add_right _ _
    | request _ _ => exact Nat.le_add_right _ _
  | freeResult _ _ => exact Nat.le_refl _

theorem opened_of_run (hrun : Run (Step lib) p events p') (hp : p.Accounted n) :
    p.sys.handles.length + (events.map Event.opened).sum ≤
      p'.sys.handles.length + (events.map Event.lost).sum := by
  induction hrun generalizing n with
  | nil p => exact Nat.le_refl _
  | cons hstep _ ih =>
    have hfirst := hstep.opened hp
    have hrest := ih (hstep.accounted hp)
    simp only [List.map_cons, List.sum_cons]
    omega

/-- **An application that gives everything back** leaves in use what its calls lost: a block at
least for each handle it obtained, and none only if no call lost any. -/
theorem given_back (hrun : Run (Step lib) (start w) events p) (hhandles : p.sys.handles = [])
    (hresults : p.results = []) :
    p.ledger.live.card = (events.map Event.lost).sum ∧
      (events.map Event.opened).sum ≤ p.ledger.live.card ∧
      (p.ledger.live = 0 ↔ ∀ ev ∈ events, ev.lost = 0) := by
  obtain ⟨⟨hpaired, -, hwhole⟩, -, lost, hlost, hlive⟩ :=
    accounted_of_run hrun (start_accounted w)
  have hclients : p.clients = [] := by
    rw [hhandles] at hpaired
    exact List.map_eq_nil_iff.mp hpaired.symm
  have hcard : p.ledger.live.card = (events.map Event.lost).sum := by
    rw [hlive, hclients, hresults, Multiset.card_add, Multiset.card_add, hlost]
    show 0 + (0 + (0 + _)) = _
    omega
  have hopened := opened_of_run hrun (start_accounted w)
  rw [hhandles] at hopened
  refine ⟨hcard, ?_, ?_⟩
  · rw [hcard]
    simpa [start] using hopened
  · rw [← Multiset.card_eq_zero, hcard, List.sum_eq_zero_iff_forall_eq_nat]
    simp

theorem given_back_teardown :
    ∃ (p : Process Unit) (events : List (Event Unit)),
      Run (Step .plain) (start World.fresh) events p ∧ p.sys.handles = [] ∧ p.results = [] ∧
        p.ledger.live.card = 1 := by
  obtain ⟨p, e, hrun, hhandles, hresults, vc, hp, hrdy⟩ := exists_session
  obtain ⟨s, hsys, hs⟩ := teardown_step .plain hhandles hp (by decide) hrdy
  obtain ⟨p', hstep, rfl⟩ :=
    (accounted_of_run hrun (start_accounted World.fresh)).call_returns hsys
  have hresults' : p'.results = [] :=
    (hstep.results fun h op x heq => by cases heq).trans hresults
  have hrun' := hrun.append (.cons hstep (.nil _))
  refine ⟨p', _, hrun', hs, hresults', ?_⟩
  rw [(given_back hrun' hs hresults').1]
  rfl

end Process

end VantiqMicro.Held
