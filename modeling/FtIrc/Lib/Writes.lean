import Mathlib.Data.Finset.Image

/-!
# Last writer wins

A store with components that writes set one at a time.  After a list of writes a component
has the value of the last write to it, and the same list a second time changes nothing.
-/

namespace Writes

variable {σ ω κ ν : Type*} [DecidableEq κ]

/-- `put` sets the component of a write to its value and leaves the others alone, for the
writes that are valid; which those are no write changes. -/
structure Lawful (get : σ → κ → ν) (put : σ → ω → σ) (component : ω → κ) (value : ω → ν)
    (Valid : σ → ω → Prop) : Prop where
  get_put : ∀ s w k, Valid s w → get (put s w) k = if component w = k then value w else get s k
  valid_put : ∀ s w w', Valid s w → Valid s w' → Valid (put s w) w'

/-- The value of the last write to `k`, if there is one. -/
def last (component : ω → κ) (value : ω → ν) (ws : List ω) (k : κ) : Option ν :=
  (ws.filter (component · = k)).getLast?.map value

namespace Lawful

variable {get : σ → κ → ν} {put : σ → ω → σ} {component : ω → κ} {value : ω → ν}
  {Valid : σ → ω → Prop} {s : σ} {ws : List ω}

theorem valid_foldl (h : Lawful get put component value Valid) (hws : ∀ w ∈ ws, Valid s w) {w : ω}
    (hw : Valid s w) : Valid (ws.foldl put s) w := by
  induction ws generalizing s with
  | nil => exact hw
  | cons x ws ih =>
    have hx := hws x List.mem_cons_self
    exact ih (fun y hy => h.valid_put s x y hx (hws y (List.mem_cons_of_mem _ hy))) (h.valid_put s x w hx hw)

/-- **A component has the value last written to it.** -/
theorem get_foldl (h : Lawful get put component value Valid) (hws : ∀ w ∈ ws, Valid s w) (k : κ) :
    get (ws.foldl put s) k = (last component value ws k).getD (get s k) := by
  induction ws using List.reverseRecOn with
  | nil => rfl
  | append_singleton ws w ih =>
    have hvalid := h.valid_foldl (fun x hx => hws x (List.mem_append_left _ hx))
      (hws w (List.mem_append_right _ (List.mem_singleton_self w)))
    rw [List.foldl_append, List.foldl_cons, List.foldl_nil, h.get_put _ _ _ hvalid]
    unfold last
    rw [List.filter_append]
    split
    · next hk => simp [hk]
    · next hk =>
      rw [ih fun x hx => hws x (List.mem_append_left _ hx)]
      simp [hk, last]

/-- **The same writes a second time change no component.** -/
theorem get_foldl_twice (h : Lawful get put component value Valid) (hws : ∀ w ∈ ws, Valid s w) (k : κ) :
    get (ws.foldl put (ws.foldl put s)) k = get (ws.foldl put s) k := by
  have hagain : ∀ w ∈ ws, Valid (ws.foldl put s) w := fun w hw => h.valid_foldl hws (hws w hw)
  rw [h.get_foldl hagain, h.get_foldl hws]
  cases last component value ws k <;> rfl

end Lawful

end Writes
