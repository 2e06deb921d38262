import FtIrc.Lib.Transition

/-!
# Outboxes

A queue that takes items whole and gives up their encodings in pieces of any size.  It holds no
more than its capacity, and an item that does not fit is left out.  Whatever the order of
pushes and drains, what it has given up and what it holds are together the encodings of what
it has taken, in order.
-/

structure Outbox (ι β : Type*) where
  taken : List ι := []
  drained : List β := []
  pending : List β := []

namespace Outbox

variable {ι β : Type*}

inductive Op (ι : Type*) where
  | push (item : ι)
  | drain (length : Nat)

/-- Only an item that fits is pushed, and anything may be drained. -/
inductive Step (encode : ι → List β) (capacity : Nat) (b : Outbox ι β) : Op ι → Outbox ι β → Prop
  | push (item : ι) : b.pending.length + (encode item).length ≤ capacity →
      Step encode capacity b (.push item)
        { b with taken := b.taken ++ [item], pending := b.pending ++ encode item }
  | drain (length : Nat) : Step encode capacity b (.drain length)
      { b with
        drained := b.drained ++ b.pending.take length
        pending := b.pending.drop length }

/-- Nothing is lost, doubled or out of order, and nothing overflows. -/
structure Sound (encode : ι → List β) (capacity : Nat) (b : Outbox ι β) : Prop where
  conserved : b.drained ++ b.pending = b.taken.flatMap encode
  bounded : b.pending.length ≤ capacity

variable {encode : ι → List β} {capacity : Nat} {b b' : Outbox ι β} {op : Op ι}

theorem sound_empty : Sound encode capacity ({} : Outbox ι β) := ⟨rfl, Nat.zero_le _⟩

theorem Sound.step (h : Sound encode capacity b) (hs : Step encode capacity b op b') :
    Sound encode capacity b' := by
  cases hs with
  | push item hfits =>
    refine ⟨?_, ?_⟩
    · rw [List.flatMap_append, ← h.conserved]
      simp
    · rw [List.length_append]
      exact hfits
  | drain length =>
    refine ⟨?_, ?_⟩
    · rw [List.append_assoc, List.take_append_drop]
      exact h.conserved
    · rw [List.length_drop]
      exact (Nat.sub_le _ _).trans h.bounded

theorem Sound.reachable (h : Sound encode capacity b)
    (hr : Transition.Reachable (Step encode capacity) b b') : Sound encode capacity b' :=
  hr.invariant h fun _ _ _ _ ih hs => ih.step hs

end Outbox
