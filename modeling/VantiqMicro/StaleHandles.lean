import VantiqMicro.QueryString

/-! # Invalid and stale handles

A handle is an address, and `vc_is_valid` goes by the one byte it finds there.  A
handle that fails the check is reported by every operation but `vme_patch`, and by
`vme_publish` only if it gets that far (`Op.invalid_reported_iff`).

A handle that was torn down is such a handle only as long as that byte is not the
magic one.  `Process` keeps the handles an application has torn down beside those
it holds, lets it go on using both, and lets the rest of the process do what it
likes with memory that holds no client.  `Process.Step.safe_iff` says which steps
bring a stale handle back to life, and `Process.stale_handles_ignored_iff` that
without them stale handles stay dead in every run. -/

namespace VantiqMicro
open CMem

variable {σ : Type}

/-! ## Invalid handles -/

/-- The first byte of what stands at `p`, where it can be read. -/
def World.firstByte (w : World σ) (p : Addr) : Option UInt8 :=
  match w.heap p with
  | .unmapped => none
  | .client vc => some vc.magic
  | .other first => some first

/-- `NULL`, or the address of memory that does not start with the magic byte. -/
def World.Invalid (w : World σ) (h : VME) : Prop :=
  h = NULL ∨ ∃ first, w.firstByte h = some first ∧ first ≠ VC_MAGIC

/-- The operation is `vme_patch`. -/
def Op.Patches : Op σ → Prop
  | patch .. => True
  | _ => False

section Invalid
variable {lib : Libcurl} {w w' : World σ} {h : VME} {op : Op σ} {x : Transfer}

theorem vcFromVme_eq_none_iff : vcFromVme w h = .ok none ↔ w.Invalid h := by
  rw [vcFromVme, vcIsValid, World.Invalid, World.firstByte]
  by_cases hnull : h = NULL
  · simp [hnull]
  · rw [if_neg hnull]
    cases w.heap h with
    | unmapped => simp [hnull]
    | client vc => by_cases hm : vc.magic = VC_MAGIC <;> simp [hnull, hm]
    | other first => by_cases hm : first = VC_MAGIC <;> simp [hnull, hm]

/-- Whether a handle is invalid depends on what stands there. -/
theorem World.Invalid.congr (heq : w'.heap h = w.heap h) : w'.Invalid h ↔ w.Invalid h := by
  rw [World.Invalid, World.Invalid, World.firstByte, World.firstByte, heq]

theorem World.not_invalid_client {vc : VantiqClient σ} (hp : w.heap h = .client vc) (hne : h ≠ NULL)
    (hm : vc.magic = VC_MAGIC) : ¬ w.Invalid h := by
  rw [← vcFromVme_eq_none_iff, vcFromVme_client hp hne hm]
  intro hnone
  cases hnone

theorem World.invalid_other_iff {first : UInt8} (hp : w.heap h = .other first) (hne : h ≠ NULL) :
    w.Invalid h ↔ first ≠ VC_MAGIC := by
  simp [World.Invalid, World.firstByte, hp, hne]

/-- **Which operations report an invalid handle**: all but `vme_patch`, and a publication
that has a document, return a result with an error message, and send and change nothing. -/
theorem Op.invalid_reported_iff (lib : Libcurl) (hinv : w.Invalid h) (op : Op σ) (x : Transfer) :
    (∃ r, op.run lib w h x = .ok (some r, w) ∧ r.vmeErrorMsg.isSome = true) ↔
      ¬ op.Patches ∧ ¬ op.PublishesNull := by
  by_cases hop : op.PublishesNull
  · have hfault : op.run lib w h x = .error .assertion := run_of_publishesNull hop
    simp [hfault, hop]
  · rw [run_of_invalid (vcFromVme_eq_none_iff.mpr hinv) hop]
    cases op with
    | patch rsURI json => simp [invalidHandle, Patches]
    | _ => simp [invalidHandle, Patches, vmeErrorResult, hop]

/-- A select without a handle. -/
theorem Op.invalid_reported_iff_null :
    ∃ r, (Op.select (lit "/r") none none none 0 0).run .plain World.fresh NULL emptyResponse =
      .ok (some r, World.fresh) ∧ r.vmeErrorMsg.isSome = true :=
  (Op.invalid_reported_iff .plain (Or.inl rfl) _ emptyResponse).mpr ⟨id, id⟩

/-- A patch without a handle returns no result to read the error from. -/
theorem patch_unreported :
    (Op.patch (lit "/r") (some (lit "[]"))).run .plain World.fresh NULL emptyResponse =
      .ok (none, World.fresh) := rfl

/-- The handle is taken for an invalid one by every entry point: nothing is sent
through it, no client changes and none is freed.  A publication without a document does
not get to its handle (`Op.run_of_publishesNull`). -/
structure World.Ignores (lib : Libcurl) (w : World σ) (h : VME) : Prop where
  run : ∀ (op : Op σ) (x : Transfer), ¬ op.PublishesNull →
    op.run lib w h x = .ok (op.invalidHandle, w)
  teardown : ∀ left, vmeTeardown w h left = .ok w
  callbackState : ∀ state, vmeCallbackState w h state = .ok w
  build : ∀ systype rsName rsID, vmeBuildSystemRsuri w h systype rsName rsID = .ok none

theorem World.ignores_iff : w.Ignores lib h ↔ w.Invalid h := by
  rw [← vcFromVme_eq_none_iff]
  constructor
  · intro hi
    have hbuild := hi.build .TOPICS (some (lit "t")) none
    rw [vmeBuildSystemRsuri] at hbuild
    obtain ⟨found, hfound, hbuild⟩ := bind_eq_ok.mp hbuild
    cases found with
    | none => exact hfound
    | some vc =>
      simp only at hbuild
      split at hbuild
      · simp only [bind_eq_ok, pure_eq_ok] at hbuild
        obtain ⟨ns, -, path, -, hpath⟩ := hbuild
        cases hpath
      · cases hbuild
  · intro hv
    refine ⟨fun op x hop => Op.run_of_invalid hv hop, fun left => ?_, fun state => ?_,
      fun _ _ _ => ?_⟩
    · simp only [vmeTeardown, hv, ok_bind, pure_eq_ok]
    · simp only [vmeCallbackState, hv, ok_bind, pure_eq_ok]
    · simp only [vmeBuildSystemRsuri, hv, ok_bind, pure_eq_ok]

end Invalid

/-! ## Processes with stale handles -/

/-- A process, with the handles the application has torn down beside those it
holds. -/
structure Process (σ : Type) extends Sys σ where
  dead : List VME

/-- What happens in a process: a call of the library, or memory that holds no client
is changed by someone else. -/
inductive Event (σ : Type)
  | call (c : Call σ)
  | other (addr : Addr) (r : Referent σ)

/-- The handle a call tears down. -/
def Call.torn : Call σ → List VME
  | .teardown h _ => [h]
  | _ => []

namespace Process

/-- One event.  Calls are made through `NULL` and the handles the application holds,
as in `Sys.Step`, or through a handle it has torn down. -/
inductive Step (lib : Libcurl) : Process σ → Event σ → Process σ → Prop
  | live {s : Process σ} {c : Call σ} {t : Sys σ} :
      Sys.Step lib s.toSys c t → Step lib s (.call c) ⟨t, c.torn ++ s.dead⟩
  | staleTeardown {s : Process σ} {h : VME} {left : UInt8} {w : World σ} :
      h ∈ s.dead → vmeTeardown s.world h left = .ok w →
      Step lib s (.call (.teardown h left)) ⟨⟨w, s.handles.filter (· ≠ h)⟩, s.dead⟩
  | staleCallbackState {s : Process σ} {h : VME} {state : Ptr} {w : World σ} :
      h ∈ s.dead → vmeCallbackState s.world h state = .ok w →
      Step lib s (.call (.callbackState h state)) ⟨⟨w, s.handles⟩, s.dead⟩
  | staleRequest {s : Process σ} {h : VME} {op : Op σ} {x : Transfer} {r : Option VmeResult}
      {w : World σ} :
      h ∈ s.dead → op.run lib s.world h x = .ok (r, w) →
      Step lib s (.call (.request h op x)) ⟨⟨w, s.handles⟩, s.dead⟩
  | other {s : Process σ} {addr : Addr} {r : Referent σ} :
      (∀ vc, s.world.heap addr ≠ .client vc) → (∀ vc, r ≠ .client vc) →
      Step lib s (.other addr r) ⟨⟨s.world.put addr r, s.handles⟩, s.dead⟩

/-- Every stale handle is taken for an invalid one. -/
def Safe (lib : Libcurl) (s : Process σ) : Prop := ∀ h ∈ s.dead, s.world.Ignores lib h

/-- The event makes a stale handle pass the check, or makes the check itself fail: a
client is placed where one was torn down, the memory of a client that is torn down
keeps the magic byte, or the memory a stale handle points to gets it or can no
longer be read. -/
def Revives (s : Process σ) : Event σ → Prop
  | .call (.init addr _) => addr ∈ s.dead
  | .call (.teardown h left) => h ∈ s.handles ∧ left = VC_MAGIC
  | .other addr r =>
    addr ∈ s.dead ∧ addr ≠ NULL ∧ ∀ first, r = .other first → first = VC_MAGIC
  | _ => False

/-- Every held handle is that of a client between operations. -/
def Sound (s : Process σ) : Prop := s.toSys.All fun _ _ => True

section Step
variable {lib : Libcurl} {s t : Process σ} {e : Event σ} {h : VME}

theorem Sound.client (hs : s.Sound) (hh : h ∈ s.handles) :
    h ≠ NULL ∧ ∃ vc, s.world.heap h = .client vc ∧ vc.magic = VC_MAGIC := by
  obtain ⟨hne, vc, hp, hrdy, -⟩ := hs h hh
  exact ⟨hne, vc, hp, hrdy.magic⟩

/-- A held handle is not invalid. -/
theorem Sound.not_mem_handles (hs : s.Sound) (hinv : s.world.Invalid h) : h ∉ s.handles := by
  intro hh
  obtain ⟨hne, vc, hp, hm⟩ := hs.client hh
  exact World.not_invalid_client hp hne hm hinv

theorem safe_iff : s.Safe lib ↔ ∀ h ∈ s.dead, s.world.Invalid h :=
  forall₂_congr fun _ _ => World.ignores_iff

/-- A call through `NULL` or a held handle changes what that handle leads to, and
`vme_init` what stands at its address. -/
theorem heap_of_live {c : Call σ} {t : Sys σ} (hstep : Sys.Step lib s.toSys c t) (hs : s.Sound)
    {q : VME} (hq : q ∉ s.handles) (hinit : ∀ addr a, c = .init addr a → q ≠ addr) :
    t.world.heap q = s.world.heap q := by
  have hne : ∀ {h : VME}, h ∈ s.handles → q ≠ h := fun hh heq => hq (heq ▸ hh)
  cases hstep with
  | @init addr a h w _ _ hr =>
    obtain ⟨⟨returned, u⟩, -, hret⟩ := bind_eq_ok.mp hr
    cases hret
    exact World.leave_heap_of_ne (hinit addr a rfl)
  | @teardown h left w husable hr =>
    rcases husable.teardown hs hr with ⟨-, rfl⟩ | ⟨hh, -, rfl⟩
    · rfl
    · exact World.put_heap_of_ne (hne hh)
  | @callbackState h state w husable hr =>
    rcases husable.callbackState hs hr with rfl | ⟨hh, vc, -, -, -, rfl⟩
    · rfl
    · exact World.leave_heap_of_ne (hne hh)
  | @request h op x r w husable hr =>
    rcases husable.request hs hr with rfl | ⟨hh, vc, vc', user, e, received, -, -, -, rfl⟩
    · rfl
    · exact World.put_heap_of_ne (hne hh)

/-- The stale handles a live call leaves invalid: all, unless it places a client at
the address of one. -/
theorem invalid_of_live {c : Call σ} {t : Sys σ} (hstep : Sys.Step lib s.toSys c t) (hs : s.Sound)
    (hsafe : ∀ h ∈ s.dead, s.world.Invalid h)
    (hinit : ∀ addr a, c = .init addr a → addr ∉ s.dead) : ∀ q ∈ s.dead, t.world.Invalid q := by
  intro q hq
  have hheap := heap_of_live hstep hs (hs.not_mem_handles (hsafe q hq)) fun addr a hc heq =>
    hinit addr a hc (heq ▸ hq)
  exact (World.Invalid.congr hheap).mpr (hsafe q hq)

/-- A client placed at an address makes handles to it valid. -/
theorem not_invalid_of_init {addr : Addr} {a : InitArgs} {h : VME} {w w' : World σ}
    (hne : addr ≠ NULL) (hr : vmeInit w addr a = .ok (h, w')) : ¬ w'.Invalid addr := by
  obtain ⟨⟨returned, u⟩, hv, hret⟩ := bind_eq_ok.mp hr
  cases hret
  exact World.not_invalid_client World.leave_heap_self hne (InitArgs.magic_of_vcInit hv)

/-- A handle that is torn down becomes invalid unless the magic byte stays. -/
theorem invalid_of_teardown {left : UInt8} {w : World σ} (hs : s.Sound)
    (hu : s.toSys.Usable h) (hr : vmeTeardown s.world h left = .ok w) :
    w.Invalid h ↔ ¬ (h ∈ s.handles ∧ left = VC_MAGIC) := by
  rcases hu.teardown hs hr with ⟨rfl, -⟩ | ⟨hh, hne, rfl⟩
  · have hnull : NULL ∉ s.handles := fun hh => (hs.client hh).1 rfl
    exact ⟨fun _ hand => hnull hand.1, fun _ => Or.inl rfl⟩
  · rw [World.invalid_other_iff World.put_heap_self hne]
    exact ⟨fun hleft hand => hleft hand.2, fun hnot hleft => hnot ⟨hh, hleft⟩⟩

/-- Memory that is changed where a stale handle points leaves the handle invalid when
it can be read and does not start with the magic byte. -/
theorem invalid_put_iff {addr : Addr} {r : Referent σ} (w : World σ) (hr : ∀ vc, r ≠ .client vc)
    (hne : addr ≠ NULL) :
    (w.put addr r).Invalid addr ↔ ¬ ∀ first, r = .other first → first = VC_MAGIC := by
  cases r with
  | unmapped => simp [World.Invalid, World.firstByte, World.put, hne]
  | client vc => exact absurd rfl (hr vc)
  | other first =>
    rw [World.invalid_other_iff World.put_heap_self hne]
    simp

/-- A call through a stale handle changes nothing. -/
theorem eq_of_stale (hsafe : s.Safe lib) {w : World σ} (hh : h ∈ s.dead)
    (hr : (∃ left, vmeTeardown s.world h left = .ok w) ∨
      (∃ state, vmeCallbackState s.world h state = .ok w) ∨
      ∃ (op : Op σ) (x : Transfer) (r : Option VmeResult), op.run lib s.world h x = .ok (r, w)) :
    w = s.world := by
  have hi := hsafe h hh
  rcases hr with ⟨left, hr⟩ | ⟨state, hr⟩ | ⟨op, x, r, hr⟩
  · exact Except.ok.inj (hr.symm.trans (hi.teardown left))
  · exact Except.ok.inj (hr.symm.trans (hi.callbackState state))
  · have hv := vcFromVme_eq_none_iff.mpr (World.ignores_iff.mp hi)
    exact (Op.run_invalid_inv hv hr).2.2

theorem Step.sound (hstep : Step lib s e t) (hs : s.Sound) (hsafe : s.Safe lib) : t.Sound := by
  cases hstep with
  | live hcall =>
    exact hcall.all (fun _ _ _ _ _ _ _ _ _ => trivial) (fun _ _ _ _ _ => trivial)
      (fun _ _ _ _ _ _ _ _ _ => trivial) hs
  | staleTeardown hh hr =>
    obtain rfl := eq_of_stale hsafe hh (Or.inl ⟨_, hr⟩)
    exact fun q hq => hs q (List.mem_filter.mp hq).1
  | staleCallbackState hh hr =>
    obtain rfl := eq_of_stale hsafe hh (Or.inr (Or.inl ⟨_, hr⟩))
    exact hs
  | staleRequest hh hr =>
    obtain rfl := eq_of_stale hsafe hh (Or.inr (Or.inr ⟨_, _, _, hr⟩))
    exact hs
  | other hfree hr =>
    exact fun q hq => Sys.All.of_heap hs hq (World.put_heap_of_ne (Sys.All.ne_of_free hs hq hfree))

/-- **Which steps keep stale handles dead**: those that revive none. -/
theorem Step.safe_iff (hstep : Step lib s e t) (hs : s.Sound) (hsafe : s.Safe lib) :
    t.Safe lib ↔ ¬ s.Revives e := by
  have hinv := Process.safe_iff.mp hsafe
  cases hstep with
  | live hcall =>
    have hkeep := fun hinit => invalid_of_live hcall hs hinv hinit
    rw [Process.safe_iff]
    cases hcall with
    | @init addr a h w hne hfree hr =>
      constructor
      · exact fun hall hmem => not_invalid_of_init hne hr (hall addr hmem)
      · intro hmem
        exact hkeep fun addr' a' heq => by
          cases heq
          exact hmem
    | @teardown h left w husable hr =>
      have htorn := invalid_of_teardown hs husable hr
      constructor
      · exact fun hall => htorn.mp (hall h (List.mem_cons_self ..))
      · intro hnot q hq
        rcases List.mem_cons.mp hq with rfl | hq
        · exact htorn.mpr hnot
        · exact hkeep (fun _ _ heq => nomatch heq) q hq
    | callbackState husable hr => exact ⟨fun _ => id, fun _ => hkeep fun _ _ heq => nomatch heq⟩
    | request husable hr => exact ⟨fun _ => id, fun _ => hkeep fun _ _ heq => nomatch heq⟩
  | @staleTeardown h left w hh hr =>
    obtain rfl := eq_of_stale hsafe hh (Or.inl ⟨_, hr⟩)
    exact ⟨fun _ hand => hs.not_mem_handles (hinv h hh) hand.1, fun _ => hsafe⟩
  | staleCallbackState hh hr =>
    obtain rfl := eq_of_stale hsafe hh (Or.inr (Or.inl ⟨_, hr⟩))
    exact ⟨fun _ => id, fun _ => hsafe⟩
  | staleRequest hh hr =>
    obtain rfl := eq_of_stale hsafe hh (Or.inr (Or.inr ⟨_, _, _, hr⟩))
    exact ⟨fun _ => id, fun _ => hsafe⟩
  | @other addr r hfree hr =>
    rw [Process.safe_iff]
    constructor
    · rintro hall ⟨hmem, hne, hrevives⟩
      exact (invalid_put_iff s.world hr hne).mp (hall addr hmem) hrevives
    · intro hnot q hq
      by_cases hqa : q = addr
      · subst hqa
        by_cases hne : q = NULL
        · exact Or.inl hne
        · exact (invalid_put_iff s.world hr hne).mpr fun hall => hnot ⟨hq, hne, hall⟩
      · exact (World.Invalid.congr (World.put_heap_of_ne hqa)).mpr (hinv q hq)

end Step

/-! ## Runs -/

section Runs
variable {lib : Libcurl} {s₀ s : Process σ} {es : List (Event σ)}

/-- In a run without revivals held handles stay valid and stale ones invalid. -/
theorem sound_and_safe (h₀ : s₀.handles = []) (hd : s₀.dead = [])
    (hrun : Run (Run.Avoiding (Step lib) Revives) s₀ es s) : s.Sound ∧ s.Safe lib := by
  have hstart : s₀.Sound ∧ s₀.Safe lib := by
    refine ⟨Sys.all_of_no_handles h₀, ?_⟩
    intro h hh
    rw [hd] at hh
    cases hh
  refine hrun.invariant (I := fun s => s.Sound ∧ s.Safe lib) (P := fun _ => True) ?_
    (fun _ _ => trivial) hstart
  rintro s e t ⟨hstep, hkeeps⟩ - ⟨hs, hsafe⟩
  exact ⟨hstep.sound hs hsafe, (hstep.safe_iff hs hsafe).mpr hkeeps⟩

/-- **A torn-down handle is dead as long as no step revives one**: every entry point
takes it for an invalid handle in every state of such a run.  The first step that
revives one ends that. -/
theorem stale_handles_ignored_iff (h₀ : s₀.handles = []) (hd : s₀.dead = []) :
    (∀ es s, Run (Run.Avoiding (Step lib) Revives) s₀ es s →
      ∀ h ∈ s.dead, s.world.Ignores lib h) ∧
    ∀ es s e t, Run (Run.Avoiding (Step lib) Revives) s₀ es s → Step lib s e t →
      s.Revives e → ∃ h ∈ t.dead, ¬ t.world.Ignores lib h := by
  refine ⟨fun es s hrun => (sound_and_safe h₀ hd hrun).2, ?_⟩
  intro es s e t hrun hstep hrevives
  obtain ⟨hs, hsafe⟩ := sound_and_safe h₀ hd hrun
  by_contra hall
  push Not at hall
  exact (hstep.safe_iff hs hsafe).mp hall hrevives

/-- The process that has called nothing yet. -/
def fresh : Process Unit := ⟨⟨World.fresh, []⟩, []⟩

theorem exists_init (w : World Unit) (hfree : ∀ vc, w.heap 8 ≠ .client vc) :
    ∃ t : Sys Unit, Sys.Step .plain ⟨w, []⟩ (.sample [] 200) t ∧ t.handles = [8] ∧
      ∃ vc, t.world.heap 8 = .client vc ∧ vc.Ready := by
  obtain ⟨t, hrun, hhandles, -, vc, hp, hrdy, -⟩ := Sys.exists_reachable Libcurl.plain w 8
    (.sample [] 200) (by decide) hfree (show (lit "https://host/").bytes ≠ [] by decide)
    (by decide) (fun _ hl => nomatch hl) ⟨⟨rfl, rfl⟩, Or.inl rfl⟩
  cases hrun with
  | cons hstep hnil =>
    cases hnil
    exact ⟨t, hstep, hhandles, vc, hp, hrdy⟩

/-- A first session that was ended, its memory cleared. -/
theorem exists_torn : ∃ s : Process Unit,
    Run (Run.Avoiding (Step .plain) Revives) fresh
      [.call (.sample [] 200), .call (.teardown 8 0)] s ∧
    s.handles = [] ∧ s.dead = [8] ∧ s.world.heap 8 = .other 0 := by
  obtain ⟨t, hinit, hhandles, vc, hp, hrdy⟩ := exists_init World.fresh fun vc h => by cases h
  have hne : (8 : VME) ≠ NULL := by decide
  have hteardown := Sys.vmeTeardown_client hp hne hrdy.magic 0
  have husable : t.Usable 8 := Or.inr (by rw [hhandles]; exact List.mem_singleton_self 8)
  refine ⟨⟨⟨t.world.put 8 (.other 0), t.handles.filter (· ≠ 8)⟩, [8]⟩,
    .cons ⟨.live hinit, List.not_mem_nil⟩
      (.cons ⟨.live (.teardown husable hteardown), fun h => absurd h.2 (by decide)⟩ (.nil _)),
    ?_, rfl, World.put_heap_self⟩
  rw [hhandles]
  rfl

/-- The handle of a session that was ended. -/
theorem stale_handles_ignored_iff_torn : ∃ s : Process Unit,
    Run (Run.Avoiding (Step .plain) Revives) fresh
      [.call (.sample [] 200), .call (.teardown 8 0)] s ∧
    s.dead = [8] ∧ s.world.Ignores .plain 8 := by
  obtain ⟨s, hrun, -, hdead, -⟩ := exists_torn
  have hhandles : fresh.handles = [] := rfl
  have hignores := (stale_handles_ignored_iff hhandles rfl).1 _ s hrun 8
    (by rw [hdead]; exact List.mem_singleton_self 8)
  exact ⟨s, hrun, hdead, hignores⟩

/-- The next session gets the address of the one that was ended, and a request made
with the old handle is sent with the new client. -/
theorem stale_handle_sends : ∃ (s : Process Unit) (r : VmeResult) (w' : World Unit) (e : Exchange),
    Run (Step .plain) fresh
      [.call (.sample [] 200), .call (.teardown 8 0), .call (.sample [] 200)] s ∧
    8 ∈ s.dead ∧
    (Op.selectOne (lit "/r") none none).run .plain s.world 8 emptyResponse = .ok (some r, w') ∧
    w'.wire = s.world.wire ++ [(8, e)] := by
  obtain ⟨s, hrun, hhandles, hdead, hheap⟩ := exists_torn
  obtain ⟨t, hinit, -, vc, hp, hrdy⟩ := exists_init s.world fun vc h => by
    rw [hheap] at h
    cases h
  rw [← hhandles] at hinit
  have hplan : (Op.selectOne (lit "/r") none none : Op Unit).plan vc.apiVersion =
      some { method := .get, rsURI := lit "/r"
             params := buildSelectParams none none none 0 1 } := rfl
  obtain ⟨vc', hsend, -⟩ := Op.run_refines .plain (x := emptyResponse) hp (by decide) hrdy hplan
    (Op.fits_of_headers hplan False.elim fun _ hl => nomatch Intake.headers_subset hl)
  have hmem : 8 ∈ s.dead := by
    rw [hdead]
    exact List.mem_singleton_self 8
  exact ⟨⟨t, s.dead⟩, _, _, _,
    hrun.of_avoiding.append (.cons (.live hinit) (.nil _)), hmem, hsend, rfl⟩

end Runs

end Process

end VantiqMicro
