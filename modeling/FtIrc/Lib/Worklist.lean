import Mathlib.Algebra.GroupWithZero.Nat
import Mathlib.Data.Finset.Image

/-!
# Worklists

A list whose first item is taken at every step, while more may be added at its end.  When the
added items weigh less than the item they are added for, the list is worked off; and when
nothing is to be seen of them, what is seen on the way is what was to be seen at first.
-/

namespace Worklist

variable {α β : Type*} {Adds : α → List α → Prop} {todo : Nat → List α}

/-- `todo n` is what is left after `n` items, as long as there is any. -/
def Worked (Adds : α → List α → Prop) (todo : Nat → List α) : Prop :=
  ∀ n item rest, (∀ m < n, todo m ≠ []) → todo n = item :: rest →
    ∃ added, Adds item added ∧ todo (n + 1) = rest ++ added

/-- **The list is worked off.** -/
theorem Worked.ends (h : Worked Adds todo) {weight : α → Nat}
    (hweight : ∀ item added, Adds item added → (added.map weight).sum < weight item) :
    ∃ n, n ≤ ((todo 0).map weight).sum ∧ todo n = [] ∧ ∀ m < n, todo m ≠ [] := by
  induction hw : ((todo 0).map weight).sum using Nat.strong_induction_on generalizing todo with
  | _ w ih =>
    cases htodo : todo 0 with
    | nil => exact ⟨0, Nat.zero_le _, htodo, fun m hm => absurd hm (Nat.not_lt_zero m)⟩
    | cons item rest =>
      have hfirst : todo 0 ≠ [] := by
        rw [htodo]
        exact List.cons_ne_nil item rest
      obtain ⟨added, hadds, hnext⟩ := h 0 item rest (fun m hm => absurd hm (Nat.not_lt_zero m)) htodo
      have hless : ((todo 1).map weight).sum < w := by
        have := hweight item added hadds
        rw [← hw, htodo, hnext, List.map_append, List.sum_append, List.map_cons, List.sum_cons]
        omega
      have hlater {n : Nat} (hn : ∀ m < n, todo (m + 1) ≠ []) : ∀ m < n + 1, todo m ≠ [] := by
        intro m hm
        cases m with
        | zero => exact hfirst
        | succ m => exact hn m (by omega)
      have hlater' : Worked Adds fun n => todo (n + 1) := fun n item rest hn =>
        h (n + 1) item rest (hlater hn)
      obtain ⟨n, hn, hend, hbefore⟩ := ih _ hless hlater' rfl
      exact ⟨n + 1, by omega, hend, hlater hbefore⟩

/-- **What is seen on the way, and what is still to be seen, is what was to be seen at first.** -/
theorem Worked.seen (h : Worked Adds todo) {f : α → Option β}
    (hadded : ∀ item added, Adds item added → added.filterMap f = []) {n : Nat}
    (hn : ∀ m < n, todo m ≠ []) :
    (List.range n).filterMap (fun m => (todo m).head?.bind f) ++ (todo n).filterMap f =
      (todo 0).filterMap f := by
  induction n with
  | zero => rfl
  | succ n ih =>
    obtain ⟨item, rest, htodo⟩ := List.exists_cons_of_ne_nil (hn n (Nat.lt_succ_self n))
    have hbefore : ∀ m < n, todo m ≠ [] := fun m hm => hn m (Nat.lt_succ_of_lt hm)
    obtain ⟨added, hadds, hnext⟩ := h n item rest hbefore htodo
    rw [← ih hbefore, List.range_succ, List.filterMap_append, List.append_assoc,
      hnext, List.filterMap_append, hadded item added hadds, List.append_nil, htodo]
    cases hseen : f item with
    | none => simp [htodo, hseen]
    | some x => simp [htodo, hseen]

end Worklist
