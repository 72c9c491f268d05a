/-!
# Labelled runs

Finite runs of a labelled step relation. A step carries a list of events, a run
the concatenation of the lists of its steps, so a run of silent steps has the
empty trace.

The rules a client uses: `Run.invariant` (what every step preserves holds along
every run), `Run.relate` (an invariant about state and trace together) and
`Run.length_le` (a measure that pays for every event bounds the trace). What a system is
bound to come to is `Inevitably`, for which `Inevitably.of_measure` is the rule.
-/

universe u v w

variable {σ : Type u} {ε : Type v}

/-- `Run step s tr s'`: some steps lead from `s` to `s'` and emit `tr`. -/
inductive Run (step : σ → List ε → σ → Prop) : σ → List ε → σ → Prop
  | refl (s : σ) : Run step s [] s
  | snoc {s t t' : σ} {tr ev : List ε} :
      Run step s tr t → step t ev t' → Run step s (tr ++ ev) t'

namespace Run

variable {step step' : σ → List ε → σ → Prop} {s t u : σ} {tr tr' ev : List ε}

theorem single (h : step s ev t) : Run step s ev t := by
  simpa using Run.snoc (.refl s) h

theorem trans (h₁ : Run step s tr t) (h₂ : Run step t tr' u) : Run step s (tr ++ tr') u := by
  induction h₂ with
  | refl => simpa using h₁
  | snoc _ hs ih => simpa [List.append_assoc] using ih.snoc hs

theorem head (h₁ : step s ev t) (h₂ : Run step t tr u) : Run step s (ev ++ tr) u :=
  (single h₁).trans h₂

/-- A run under fewer possibilities is a run under more. -/
theorem mono (hle : ∀ a e b, step a e b → step' a e b) (h : Run step s tr t) :
    Run step' s tr t := by
  induction h with
  | refl => exact .refl _
  | snoc _ hs ih => exact ih.snoc (hle _ _ _ hs)

/-- What holds at the start and is preserved by every step holds at the end. -/
theorem invariant {I : σ → Prop} (h₀ : I s) (hstep : ∀ a e b, I a → step a e b → I b)
    (h : Run step s tr t) : I t := by
  induction h with
  | refl => exact h₀
  | snoc _ hs ih => exact hstep _ _ _ ih hs

/-- An invariant about the state reached and the events emitted on the way. -/
theorem relate {R : List ε → σ → Prop} (h₀ : R [] s)
    (hstep : ∀ tr a e b, R tr a → step a e b → R (tr ++ e) b)
    (h : Run step s tr t) : R tr t := by
  induction h with
  | refl => exact h₀
  | snoc _ hs ih => exact hstep _ _ _ _ ih hs

/-- A measure that pays for every event bounds the number of events. -/
theorem length_le {I : σ → Prop} (μ : σ → Nat) (h₀ : I s)
    (hstep : ∀ a e b, I a → step a e b → I b ∧ μ b + e.length ≤ μ a)
    (h : Run step s tr t) : tr.length ≤ μ s := by
  have hrel : I t ∧ μ t + tr.length ≤ μ s := by
    refine h.relate (R := fun tr t => I t ∧ μ t + tr.length ≤ μ s) ⟨h₀, by simp⟩ ?_
    rintro tr a e b ⟨ha, hle⟩ hs
    obtain ⟨hb, hlt⟩ := hstep a e b ha hs
    refine ⟨hb, ?_⟩
    rw [List.length_append]
    omega
  omega

end Run

/-! ### What is bound to happen -/

/-- Steps of `may`, whichever are made, lead to what `Q` says of the trace and the state: there is
no endless run, and till then a step of `can` is possible. A step that may happen but that nobody
can count on belongs to `may` only. -/
inductive Inevitably (can may : σ → List ε → σ → Prop) (Q : List ε → σ → Prop) :
    List ε → σ → Prop
  | now {tr : List ε} {s : σ} (h : Q tr s) : Inevitably can may Q tr s
  | later {tr : List ε} {s : σ} (hcan : ∃ ev t, can s ev t)
      (hall : ∀ ev t, may s ev t → Inevitably can may Q (tr ++ ev) t) : Inevitably can may Q tr s

/-- **A measure that every step decreases**, unless it leads to where the rest is known. -/
theorem Inevitably.of_measure {can may : σ → List ε → σ → Prop} {I Q : List ε → σ → Prop}
    {α : Type w} {r : α → α → Prop} (hwf : WellFounded r) (μ : σ → α)
    (hstep : ∀ tr a, I tr a → Q tr a ∨ ((∃ ev b, can a ev b) ∧ ∀ ev b, may a ev b →
      (I (tr ++ ev) b ∧ r (μ b) (μ a)) ∨ Inevitably can may Q (tr ++ ev) b))
    {tr : List ε} {s : σ} (h : I tr s) : Inevitably can may Q tr s := by
  obtain ⟨x, hx⟩ : ∃ x, μ s = x := ⟨_, rfl⟩
  induction x using hwf.induction generalizing tr s with
  | _ x ih =>
      rcases hstep tr s h with hq | ⟨hcan, hall⟩
      · exact .now hq
      · refine .later hcan fun ev t hs => ?_
        rcases hall ev t hs with ⟨ht, hlt⟩ | hknown
        · exact ih _ (hx ▸ hlt) ht rfl
        · exact hknown
