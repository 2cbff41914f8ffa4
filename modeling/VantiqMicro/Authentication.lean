import VantiqMicro.Lifecycle

/-! # Authenticated handles

`vc_init` gives up only if the authentication transfer failed *and* the status is
not 200.  Where the two agree, a handle is only ever returned for an accepted
token, and the requests of any run go out on authenticated handles; where they do
not, a rejected token yields a handle that works. -/

namespace VantiqMicro
open CMem

variable {σ : Type}

/-- If the call is a `vme_init` that makes its authentication request, then the
transfer fails exactly if the status is not 200. -/
def Call.AuthAgrees : Call σ → Prop
  | init _ a => a.Connects → (a.auth.res = CURLE_OK ↔ a.auth.status = 200)
  | _ => True

namespace Sys
variable {lib : Libcurl} {s s' s₀ : Sys σ} {h q : VME} {op : Op σ} {x : Transfer}
  {calls past : List (Call σ)} {c : Call σ}

/-- The last `vme_init` at `h` made its authentication request, and that ended with
`CURLE_OK` and status 200. -/
def AuthenticatedIn (calls : List (Call σ)) (h : VME) : Prop :=
  ∃ pre a post, calls = pre ++ .init h a :: post ∧ a.Connects ∧ a.auth.res = CURLE_OK ∧
    a.auth.status = 200 ∧ ∀ a', Call.init h a' ∉ post

/-- A call that is no `vme_init` at `h` does not matter to it. -/
theorem AuthenticatedIn.snoc (ha : AuthenticatedIn past h) (hc : ∀ a, c ≠ .init h a) :
    AuthenticatedIn (past ++ [c]) h := by
  obtain ⟨pre, a, post, rfl, hconn, hres, hst, hlast⟩ := ha
  refine ⟨pre, a, post ++ [c], by simp, hconn, hres, hst, ?_⟩
  intro a' hmem
  rcases List.mem_append.mp hmem with hmem | hmem
  · exact hlast a' hmem
  · exact hc a' (List.mem_singleton.mp hmem).symm

/-- One call keeps every held handle authenticated. -/
theorem Step.authenticated (hstep : Step lib s c s') (hc : c.AuthAgrees)
    (hs : s.All fun q _ => AuthenticatedIn past q) :
    s'.All fun q _ => AuthenticatedIn (past ++ [c]) q := by
  have hpast : s.All fun q _ => AuthenticatedIn (past ++ [c]) q := by
    intro q hq
    obtain ⟨hne, vc, hp, hrdy, hauth⟩ := hs q hq
    refine ⟨hne, vc, hp, hrdy, hauth.snoc ?_⟩
    -- a new client is never placed where a held handle's client stands
    rintro a rfl
    cases hstep with
    | init _ hfree _ => exact hfree vc hp
  refine hstep.all ?_ (fun _ _ _ _ h => h) (fun _ _ _ _ _ _ _ h _ => h) hpast
  rintro addr a rfl - vc ⟨hconn, hacc⟩ - - -
  have hagree := hc hconn
  refine ⟨past, a, [], rfl, hconn, ?_, ?_, fun _ => List.not_mem_nil⟩
  · exact hacc.elim id hagree.mpr
  · exact hacc.elim hagree.mp id

/-- So does a run. -/
theorem authenticated_run (past : List (Call σ)) (hrun : Run (Step lib) s calls s')
    (hcalls : ∀ c ∈ calls, c.AuthAgrees)
    (hs : s.All fun q _ => AuthenticatedIn past q) :
    s'.All fun q _ => AuthenticatedIn (past ++ calls) q := by
  induction hrun generalizing past with
  | nil s => rwa [List.append_nil]
  | @cons s t u c calls hstep _ ih =>
    obtain ⟨hc, hcalls⟩ := List.forall_mem_cons.mp hcalls
    have := ih (past ++ [c]) hcalls (hstep.authenticated hc hs)
    rwa [List.append_assoc, List.singleton_append] at this

/-- **In a run whose authentications agree every held handle is authenticated, and
nothing is requested on any other.** -/
theorem requests_authenticated (h₀ : s₀.handles = []) (hrun : Run (Step lib) s₀ calls s)
    (hcalls : ∀ c ∈ calls, c.AuthAgrees) :
    (∀ h ∈ s.handles, AuthenticatedIn calls h) ∧
      ∀ h op x s', Step lib s (.request h op x) s' →
        ∃ made, s'.world.wire = s.world.wire ++ made ∧
          ∀ qe ∈ made, qe.1 = h ∧ AuthenticatedIn calls qe.1 := by
  have hall := authenticated_run [] hrun hcalls (all_of_no_handles h₀)
  rw [List.nil_append] at hall
  constructor
  · intro h hh
    obtain ⟨-, vc, -, -, hauth⟩ := hall h hh
    exact hauth
  · intro h op x s' hstep
    cases hstep with
    | request husable hr =>
      rcases husable.request hall hr with rfl | ⟨-, vc, vc', d, e, -, hauth, -, rfl⟩
      · exact ⟨[], by simp, by simp⟩
      · refine ⟨[(h, e)], rfl, ?_⟩
        intro qe hqe
        rw [List.mem_singleton.mp hqe]
        exact ⟨rfl, hauth⟩

/-- A select with nothing to it. -/
def plainSelect : Op Unit := .selectOne (lit "/r") none none

theorem requests_authenticated_accepted :
    ∃ s : Sys Unit, Run (Step .plain) ⟨World.fresh, []⟩ [.sample [] 200] s ∧
      8 ∈ s.handles ∧ AuthenticatedIn [Call.sample [] 200] 8 := by
  obtain ⟨s, vc, hrun, hh, -⟩ := exists_session [] 200 (by simp)
  have hagree : ∀ c ∈ [Call.sample [] 200], c.AuthAgrees := by
    intro c hc
    rw [List.mem_singleton.mp hc]
    exact fun _ => iff_of_true rfl rfl
  exact ⟨s, hrun, hh, (requests_authenticated rfl hrun hagree).1 8 hh⟩

/-- A token rejected with 401 yields a handle, and a select is sent on it. -/
theorem rejected_token_used :
    ∃ (s s' : Sys Unit) (x : Transfer) (e : Exchange),
      Run (Step .plain) ⟨World.fresh, []⟩ [.sample [] 401] s ∧ 8 ∈ s.handles ∧
      Step .plain s (.request 8 plainSelect x) s' ∧
      s'.world.wire = s.world.wire ++ [(8, e)] ∧
      ¬ AuthenticatedIn [Call.sample [] 401] 8 := by
  obtain ⟨s, vc, hrun, hh, hp, -⟩ := exists_session [] 401 (by simp)
  have hs : Reachable .plain s := ⟨_, _, rfl, hrun⟩
  let x : Transfer := { events := [], res := CURLE_OK, status := 401, errText := lit "" }
  obtain ⟨r, w', hr⟩ := hs.run_returns hh hp plainSelect x ⟨id, False.elim⟩ (by decide)
  obtain ⟨vc₁, p, vc', -, -, -, rfl, -⟩ := hs.run_inv hh hr
  refine ⟨s, ⟨_, s.handles⟩, x, _, hrun, hh, .request (Or.inr hh) hr, rfl, ?_⟩
  rintro ⟨pre, a, post, heq, -, -, hst, -⟩
  have hmem : Call.init 8 a ∈ [Call.sample [] 401] := by
    rw [heq]
    simp
  obtain ⟨-, rfl⟩ := Call.init.inj (List.mem_singleton.mp hmem)
  exact absurd hst (by decide)

end Sys

end VantiqMicro
