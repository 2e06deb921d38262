import Mathlib.Data.Finset.Image

/-!
# Labelled transition systems

Runs of a step relation `Step s e s'`, the induction rule for invariants, simulation, a
history of when a property was gained and of the step it is due to, and ghost state.
Nothing here is about a particular system.
-/

namespace Transition

variable {σ ε : Type*}

/-- A run from `s₀` over the events `es`, the newest event last. -/
inductive Run (Step : σ → ε → σ → Prop) (s₀ : σ) : List ε → σ → Prop
  | nil : Run Step s₀ [] s₀
  | snoc {es : List ε} {s : σ} {e : ε} {s' : σ} :
      Run Step s₀ es s → Step s e s' → Run Step s₀ (es ++ [e]) s'

def Reachable (Step : σ → ε → σ → Prop) (s₀ s : σ) : Prop := ∃ es, Run Step s₀ es s

variable {Step : σ → ε → σ → Prop} {s₀ s s' : σ} {es es' : List ε} {e : ε}

theorem Reachable.refl : Reachable Step s₀ s₀ := ⟨[], .nil⟩

theorem Reachable.step (h : Reachable Step s₀ s) (hs : Step s e s') : Reachable Step s₀ s' := by
  obtain ⟨es, hes⟩ := h
  exact ⟨es ++ [e], hes.snoc hs⟩

theorem Run.reachable (h : Run Step s₀ es s) : Reachable Step s₀ s := ⟨es, h⟩

theorem Run.single (h : Step s e s') : Run Step s [e] s' := .snoc .nil h

theorem Run.trans (h : Run Step s₀ es s) (h' : Run Step s es' s') : Run Step s₀ (es ++ es') s' := by
  induction h' with
  | nil => rw [List.append_nil]; exact h
  | snoc _ hs ih => rw [← List.append_assoc]; exact ih.snoc hs

theorem Run.mono {Step' : σ → ε → σ → Prop} (hmono : ∀ s e s', Step s e s' → Step' s e s')
    (h : Run Step s₀ es s) : Run Step' s₀ es s := by
  induction h with
  | nil => exact .nil
  | snoc _ hs ih => exact ih.snoc (hmono _ _ _ hs)

/-- A run over events for each of which one step relation gives the other. -/
theorem Run.mono_events {Step' : σ → ε → σ → Prop} (h : Run Step s₀ es s)
    (hmono : ∀ e ∈ es, ∀ s s', Step s e s' → Step' s e s') : Run Step' s₀ es s := by
  induction h with
  | nil => exact .nil
  | snoc _ hs ih =>
    exact (ih fun e he => hmono e (List.mem_append_left _ he)).snoc
      (hmono _ (List.mem_append_right _ (List.mem_singleton_self _)) _ _ hs)

/-- A run of a step function. -/
theorem Run.of_foldlM {f : σ → ε → Option σ} (h : es.foldlM f s₀ = some s) :
    Run (fun s e s' => f s e = some s') s₀ es s := by
  induction es generalizing s₀ with
  | nil => cases h; exact .nil
  | cons e es ih =>
    rw [List.foldlM_cons] at h
    obtain ⟨s₁, hs₁, h⟩ := Option.bind_eq_some_iff.1 h
    exact (Run.single hs₁).trans (ih h)

theorem Reachable.trans {s₁ : σ} (h : Reachable Step s₀ s₁) (h' : Reachable Step s₁ s) :
    Reachable Step s₀ s := by
  obtain ⟨es, hes⟩ := h
  obtain ⟨es', hes'⟩ := h'
  exact ⟨es ++ es', hes.trans hes'⟩

/-- What the start satisfies and every step from a reachable state keeps holds of every
reachable state. -/
theorem Reachable.invariant {I : σ → Prop} (h : Reachable Step s₀ s) (hinit : I s₀)
    (hstep : ∀ s e s', Reachable Step s₀ s → I s → Step s e s' → I s') : I s := by
  obtain ⟨es, hes⟩ := h
  induction hes with
  | nil => exact hinit
  | snoc hr hs ih => exact hstep _ _ _ hr.reachable ih hs

/-- A step relation between the states of `P` only. -/
def Within (Step : σ → ε → σ → Prop) (P : σ → Prop) (s : σ) (e : ε) (s' : σ) : Prop :=
  Step s e s' ∧ P s ∧ P s'

/-- A property a run has gained was gained by one step, and has held since. -/
theorem Run.gained {P : σ → Prop} (h : Run Step s₀ es s) (hinit : ¬ P s₀) (hP : P s) :
    ∃ es₁ s₁ e s₂ es₂, es = es₁ ++ e :: es₂ ∧ Run Step s₀ es₁ s₁ ∧ ¬ P s₁ ∧ Step s₁ e s₂ ∧
      P s₂ ∧ Run (Within Step P) s₂ es₂ s := by
  induction h with
  | nil => exact absurd hP hinit
  | @snoc es s e s' hr hs ih =>
    by_cases hPs : P s
    · obtain ⟨es₁, s₁, e₁, s₂, es₂, rfl, h1, h2, h3, h4, h5⟩ := ih hPs
      exact ⟨es₁, s₁, e₁, s₂, es₂ ++ [e], by simp, h1, h2, h3, h4, h5.snoc ⟨hs, hPs, hP⟩⟩
    · exact ⟨es, s, e, s', [], rfl, hr, hPs, hs, hP, .nil⟩

/-- A property that each step either found before it or brought about with an observation was
brought about by the last step with an observation, and every later step found it. -/
theorem Run.traced {P : σ → Prop} {Q : σ → ε → Prop} (h : Run Step s₀ es s) (hinit : ¬ P s₀)
    (hfound : ∀ s e s', Reachable Step s₀ s → Step s e s' → P s' → ¬ Q s e → P s) (hP : P s) :
    ∃ es₁ s₁ e s₂ es₂, es = es₁ ++ e :: es₂ ∧ Run Step s₀ es₁ s₁ ∧ Step s₁ e s₂ ∧ Q s₁ e ∧ P s₂ ∧
      Run (fun s e s' => Within Step P s e s' ∧ ¬ Q s e) s₂ es₂ s := by
  induction h with
  | nil => exact absurd hP hinit
  | @snoc es s e s' hr hs ih =>
    by_cases hQ : Q s e
    · exact ⟨es, s, e, s', [], rfl, hr, hs, hQ, hP, .nil⟩
    · have hPs := hfound s e s' hr.reachable hs hP hQ
      obtain ⟨es₁, s₁, e₁, s₂, es₂, rfl, h1, h2, h3, h4, h5⟩ := ih hPs
      exact ⟨es₁, s₁, e₁, s₂, es₂ ++ [e], by simp, h1, h2, h3, h4, h5.snoc ⟨⟨hs, hPs, hP⟩, hQ⟩⟩

/-- If every step of one system is matched by a run of another, so is every run. -/
theorem Reachable.simulate {τ δ : Type*} {Step' : τ → δ → τ → Prop} (f : σ → τ)
    (hstep : ∀ s e s', Reachable Step s₀ s → Step s e s' → Reachable Step' (f s) (f s'))
    (h : Reachable Step s₀ s) : Reachable Step' (f s₀) (f s) :=
  h.invariant (I := fun s => Reachable Step' (f s₀) (f s)) .refl
    fun s e s' hr ih hs => ih.trans (hstep s e s' hr hs)

/-- A system with a ghost beside its state: no step reads it. -/
def Ghosted {γ : Type*} (Step : σ → ε → σ → Prop) (next : γ → σ → ε → σ → γ)
    (a : σ × γ) (e : ε) (b : σ × γ) : Prop :=
  Step a.1 e b.1 ∧ b.2 = next a.2 a.1 e b.1

theorem Reachable.of_ghosted {γ : Type*} {next : γ → σ → ε → σ → γ} {g₀ : γ} {a : σ × γ}
    (h : Reachable (Ghosted Step next) (s₀, g₀) a) : Reachable Step s₀ a.1 :=
  h.simulate Prod.fst fun _ _ _ _ hs => Reachable.refl.step hs.1

/-- Every run carries a ghost. -/
theorem Run.ghosted {γ : Type*} (next : γ → σ → ε → σ → γ) (g₀ : γ) (h : Run Step s₀ es s) :
    ∃ g, Run (Ghosted Step next) (s₀, g₀) es (s, g) := by
  induction h with
  | nil => exact ⟨g₀, .nil⟩
  | @snoc es s e s' _ hs ih =>
    obtain ⟨g, hg⟩ := ih
    exact ⟨next g s e s', hg.snoc ⟨hs, rfl⟩⟩

end Transition
