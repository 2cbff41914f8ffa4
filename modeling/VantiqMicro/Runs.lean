import VantiqMicro.Block

/-! # Runs

A sequence of steps, in the two forms a program gives it: a fold of a step
function that may fault, and a labelled transition relation.  For the fold,
`foldlM_refines` carries a step-wise simulation of an abstract fold along the
whole sequence; for the relation, `Run.invariant` carries a step-wise invariant
along a run. -/

namespace CMem

/-! ## Folds that may fault -/

section Fold
variable {ε C A L : Type} {step : C → L → Except ε C} {spec : A → L → A} {ok : A → L → Prop}
  {R : C → A → Prop}

/-- Every label meets `ok` in the abstract state it is applied in. -/
def Allowed (spec : A → L → A) (ok : A → L → Prop) : A → List L → Prop
  | _, [] => True
  | a, l :: ls => ok a l ∧ Allowed spec ok (spec a l) ls

theorem Allowed.left {a : A} {ls ls' : List L} (h : Allowed spec ok a (ls ++ ls')) :
    Allowed spec ok a ls := by
  induction ls generalizing a with
  | nil => trivial
  | cons l ls ih => exact ⟨h.1, ih h.2⟩

/-- **A step-wise refinement is a refinement of whole sequences**: where each
allowed step returns and keeps `R`, so does the fold. -/
theorem foldlM_refines
    (hstep : ∀ c a l, R c a → ok a l → ∃ c', step c l = .ok c' ∧ R c' (spec a l))
    {ls : List L} {c : C} {a : A} (hok : Allowed spec ok a ls) (hR : R c a) :
    ∃ c', ls.foldlM step c = .ok c' ∧ R c' (ls.foldl spec a) := by
  induction ls generalizing c a with
  | nil => exact ⟨c, rfl, hR⟩
  | cons l ls ih =>
    obtain ⟨c₁, h₁, hR₁⟩ := hstep c a l hR hok.1
    obtain ⟨c₂, h₂, hR₂⟩ := ih hok.2 hR₁
    exact ⟨c₂, by rw [List.foldlM_cons, h₁, ok_bind, h₂], hR₂⟩

end Fold

/-! ## Runs of a transition relation -/

/-- The runs of `step`: the states they join and their labels, first to last. -/
inductive Run {S L : Type} (step : S → L → S → Prop) : S → List L → S → Prop
  | nil (s : S) : Run step s [] s
  | cons {s t u : S} {l : L} {ls : List L} :
      step s l t → Run step t ls u → Run step s (l :: ls) u

namespace Run
variable {S L : Type} {step : S → L → S → Prop} {s t u : S} {l : L} {ls ls' : List L}

theorem append (h : Run step s ls t) (h' : Run step t ls' u) : Run step s (ls ++ ls') u := by
  induction h with
  | nil s => exact h'
  | cons hs _ ih => exact .cons hs (ih h')

theorem of_append (h : Run step s (ls ++ ls') u) :
    ∃ t, Run step s ls t ∧ Run step t ls' u := by
  induction ls generalizing s with
  | nil => exact ⟨s, .nil s, h⟩
  | cons l ls ih =>
    cases h with
    | cons hs hr =>
      obtain ⟨t, ht, hu⟩ := ih hr
      exact ⟨t, .cons hs ht, hu⟩

/-- **An invariant of the steps is an invariant of the runs.**  `P` is what the
run's labels are known to satisfy. -/
theorem invariant {I : S → Prop} {P : L → Prop}
    (hstep : ∀ s l t, step s l t → P l → I s → I t)
    (h : Run step s ls t) (hP : ∀ l ∈ ls, P l) (hs : I s) : I t := by
  induction h with
  | nil s => exact hs
  | cons hst _ ih =>
    obtain ⟨hl, hls⟩ := List.forall_mem_cons.mp hP
    exact ih hls (hstep _ _ _ hst hl hs)

/-- The steps that are not `bad`. -/
def Avoiding (step : S → L → S → Prop) (bad : S → L → Prop) (s : S) (l : L) (t : S) : Prop :=
  step s l t ∧ ¬ bad s l

theorem of_avoiding {bad : S → L → Prop} (h : Run (Avoiding step bad) s ls t) :
    Run step s ls t := by
  induction h with
  | nil s => exact .nil s
  | cons hs _ ih => exact .cons hs.1 ih

/-- **A run takes no bad step or ends in their consequence**: `Q` follows from a bad
step in a state that satisfies the invariant, and lasts. -/
theorem avoiding_or {I Q : S → Prop} {bad : S → L → Prop}
    (hstep : ∀ s l t, step s l t → I s → I t) (hbad : ∀ s l t, step s l t → I s → bad s l → Q t)
    (hlast : ∀ s l t, step s l t → Q s → Q t) (h : Run step s ls t) (hs : I s) :
    Run (Avoiding step bad) s ls t ∨ Q t := by
  have hkeep : ∀ {s t ls}, Run step s ls t → Q s → Q t := fun hr hq =>
    hr.invariant (P := fun _ => True) (fun s l t hst _ => hlast s l t hst) (fun _ _ => trivial) hq
  induction h with
  | nil s => exact Or.inl (.nil s)
  | @cons s t u l ls hst hr ih =>
    by_cases hb : bad s l
    · exact Or.inr (hkeep hr (hbad s l t hst hs hb))
    · rcases ih (hstep s l t hst hs) with hr' | hq
      · exact Or.inl (.cons ⟨hst, hb⟩ hr')
      · exact Or.inr hq

end Run

end CMem
