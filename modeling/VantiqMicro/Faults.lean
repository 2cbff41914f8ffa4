import VantiqMicro.Lifecycle

/-! # The library's faults

Which calls return, in any state a run can lead to.  Strings that `Op` and `InitArgs` have no
`NULL` for are given, allocation succeeds and no size wraps.  Then what can still go wrong is
an empty server URL, a document that is `NULL`, a path or URL whose length is no `int`, an
aggregate on an empty path, a count header that overruns, and a patch without a document that
reads what an earlier upload left. -/

namespace VantiqMicro
open CMem

variable {σ : Type}

/-- The call does not run into one of the faults. -/
def Call.Returns (s : Sys σ) : Call σ → Prop
  | .init addr a => addr ≠ NULL ∧ (∀ vc, s.world.heap addr ≠ .client vc) ∧ a.url.bytes ≠ [] ∧
      (a.Connects → a.authUrl.length ≤ INT_MAX ∧ ∀ line ∈ a.auth.headers, HeaderFits line)
  | .teardown h _ => s.Usable h
  | .callbackState h _ => s.Usable h
  | .request h op x => s.Usable h ∧ (h = NULL → ¬ op.PublishesNull) ∧
      (h ∈ s.handles → ∀ vc, s.world.heap h = .client vc → ¬ op.Faults vc.apiVersion ∧
        (op.outline vc.apiVersion).Fits (s.world.setting vc) x)

namespace Sys
variable {lib : Libcurl} {s : Sys σ} {h : VME} {op : Op σ} {x : Transfer}

end Sys

end VantiqMicro
