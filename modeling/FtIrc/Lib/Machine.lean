import FtIrc.Lib.Transition

/-!
# State machines with output

A machine answers each input with its next state and what it says.  A system each of whose
steps reads some inputs, and says what the machine says on them, does so over a whole run
(`Machine.Follows.run`), and from its start it is the machine (`Machine.Follows.tracked`).  Nothing here
is about a particular system.
-/

namespace Machine

variable {σ ι ο : Type*} (respond : σ → ι → σ × List ο)

/-- The state after the inputs, oldest first. -/
def after (s : σ) : List ι → σ
  | [] => s
  | i :: is => after (respond s i).1 is

/-- What is said in answer to the inputs. -/
def said (s : σ) : List ι → List ο
  | [] => []
  | i :: is => (respond s i).2 ++ said (respond s i).1 is

variable {respond} {s : σ}

theorem after_append (s : σ) (is js : List ι) :
    after respond s (is ++ js) = after respond (after respond s is) js := by
  induction is generalizing s with
  | nil => rfl
  | cons i is ih => exact ih _

theorem said_append (s : σ) (is js : List ι) :
    said respond s (is ++ js) = said respond s is ++ said respond (after respond s is) js := by
  induction is generalizing s with
  | nil => rfl
  | cons i is ih =>
    show (respond s i).2 ++ said respond _ (is ++ js) = _
    rw [ih, ← List.append_assoc]
    rfl

/-- From `t` to `t'` a system reads some inputs and does what the machine does. -/
def Follows {τ : Type*} (respond : σ → ι → σ × List ο) (state : τ → σ) (inputs : τ → List ι)
    (heard : τ → List ο) (t t' : τ) : Prop :=
  ∃ is, inputs t' = inputs t ++ is ∧ state t' = after respond (state t) is ∧
    heard t' = heard t ++ said respond (state t) is

section

variable {τ ε : Type*} {Step : τ → ε → τ → Prop} {state : τ → σ} {inputs : τ → List ι}
  {heard : τ → List ο} {t₀ t t' t'' : τ}

theorem Follows.refl (t : τ) : Follows respond state inputs heard t t :=
  ⟨[], (List.append_nil _).symm, rfl, (List.append_nil _).symm⟩

theorem Follows.trans (h : Follows respond state inputs heard t t')
    (h' : Follows respond state inputs heard t' t'') : Follows respond state inputs heard t t'' := by
  obtain ⟨is, hinputs, hstate, hheard⟩ := h
  obtain ⟨js, hinputs', hstate', hheard'⟩ := h'
  refine ⟨is ++ js, ?_, ?_, ?_⟩
  · rw [hinputs', hinputs, List.append_assoc]
  · rw [hstate', hstate, after_append]
  · rw [hheard', hheard, hstate, said_append, List.append_assoc]

/-- **A system whose steps follow the machine follows it.** -/
theorem Follows.run
    (hstep : ∀ t e t', Transition.Reachable Step t₀ t → Step t e t' →
      Follows respond state inputs heard t t')
    (h : Transition.Reachable Step t₀ t) : Follows respond state inputs heard t₀ t :=
  h.invariant (I := fun t => Follows respond state inputs heard t₀ t) (.refl t₀)
    fun t e t' hr ih hs => ih.trans (hstep t e t' hr hs)

/-- **What has followed the machine from its start is the machine.** -/
theorem Follows.tracked (h : Follows respond state inputs heard t₀ t) (hinputs : inputs t₀ = [])
    (hheard : heard t₀ = []) :
    state t = after respond (state t₀) (inputs t) ∧ heard t = said respond (state t₀) (inputs t) := by
  obtain ⟨is, his, hstate, hsaid⟩ := h
  rw [hinputs, List.nil_append] at his
  rw [hheard, List.nil_append] at hsaid
  rw [his]
  exact ⟨hstate, hsaid⟩

end

end Machine
