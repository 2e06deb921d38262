import FtIrc.Core
import FtIrc.Lib.History

/-!
# Disconnect requests in the history

A connection is marked from the first `requestDisconnect` on, and the history says the
same: `Requested`.  `Late` is what should not happen to a marked connection.
-/

namespace FtIrc

/-- The present connection on `fd` is to be disconnected. -/
def Requested (fd : Fd) (log : List Action) : Prop :=
  History.Since (fun a => ∃ reason, a = .disconnectRequested fd reason) (fun a => a = .accepted fd) log

/-- A command was dispatched for a connection that was to be disconnected. -/
def Late (fd : Fd) (log : List Action) : Prop :=
  History.Ever (fun before a => (∃ command, a = .dispatched fd command) ∧ Requested fd before) log

theorem requested_snoc {fd : Fd} {log : List Action} {a : Action} :
    Requested fd (log ++ [a]) ↔
      (∃ reason, a = .disconnectRequested fd reason) ∨ Requested fd log ∧ a ≠ .accepted fd :=
  History.since_snoc

theorem late_snoc {fd : Fd} {log : List Action} {a : Action} :
    Late fd (log ++ [a]) ↔ Late fd log ∨ (∃ command, a = .dispatched fd command) ∧ Requested fd log :=
  History.ever_snoc

namespace Wire

variable {w w' : Wire} {fd : Fd}

/-! ## Ports under an update -/

theorem port_modify_self {f : Port → Port} (h : (w.ports fd).isSome) :
    (w.modify fd f).port fd = f (w.port fd) := by
  obtain ⟨p, hp⟩ := Option.isSome_iff_exists.1 h
  unfold port modify
  simp [hp]

theorem port_modify_of_ne {x : Fd} {f : Port → Port} (h : fd ≠ x) :
    (w.modify fd f).port x = w.port x := by
  unfold port modify
  simp [h]

theorem isSome_modify (fd x : Fd) (f : Port → Port) :
    ((w.modify fd f).ports x).isSome = (w.ports x).isSome := by
  unfold modify
  by_cases hx : fd = x <;> simp [hx]

/-- A mark stays if the update keeps it. -/
theorem flag_modify {x : Fd} {f : Port → Port}
    (hf : ∀ p : Port, p.disconnectRequested = true → (f p).disconnectRequested = true)
    (h : (w.port x).disconnectRequested = true) :
    ((w.modify fd f).port x).disconnectRequested = true := by
  by_cases hfd : fd = x
  · subst hfd
    cases hp : w.ports fd with
    | none => simp [port, hp] at h
    | some p =>
      rw [port_modify_self (by rw [hp]; rfl)]
      exact hf _ h
  · rw [port_modify_of_ne hfd]
    exact h

/-! ## Marks and history -/

/-- A connection is marked when the history says so. -/
def Marked (w : Wire) : Prop :=
  ∀ fd, (w.ports fd).isSome → ((w.port fd).disconnectRequested = true ↔ Requested fd w.log)

theorem Marked.record (h : w.Marked) {a : Action} (hreq : ∀ fd reason, a ≠ .disconnectRequested fd reason)
    (hacc : ∀ fd, a ≠ .accepted fd) : (w.record a).Marked := by
  intro fd hfd
  refine (h fd hfd).trans ?_
  show _ ↔ Requested fd (w.log ++ [a])
  rw [requested_snoc]
  constructor
  · exact fun hr => Or.inr ⟨hr, hacc fd⟩
  · rintro (⟨reason, rfl⟩ | hr)
    · exact absurd rfl (hreq fd reason)
    · exact hr.1

theorem Marked.modify (h : w.Marked) (fd : Fd) {f : Port → Port}
    (hf : ∀ p, (f p).disconnectRequested = p.disconnectRequested) : (w.modify fd f).Marked := by
  intro x hx
  rw [isSome_modify] at hx
  refine Iff.trans ?_ (h x hx)
  by_cases hfd : fd = x
  · subst hfd
    rw [port_modify_self hx, hf]
  · rw [port_modify_of_ne hfd]

theorem Marked.requestDisconnect (h : w.Marked) (fd : Fd) (reason : Text) :
    (w.requestDisconnect fd reason).Marked := by
  intro x hx
  rw [show (w.requestDisconnect fd reason).ports = (w.modify fd _).ports from rfl,
    isSome_modify] at hx
  show (((w.modify fd _).port x).disconnectRequested = true) ↔ Requested x (w.log ++ [_])
  rw [requested_snoc]
  by_cases hfd : fd = x
  · subst hfd
    rw [port_modify_self hx]
    exact iff_of_true rfl (Or.inl ⟨reason, rfl⟩)
  · rw [port_modify_of_ne hfd, h x hx]
    constructor
    · exact fun hr => Or.inr ⟨hr, nofun⟩
    · rintro (⟨_, heq⟩ | hr)
      · cases heq
        exact absurd rfl hfd
      · exact hr.1

theorem Marked.signal (h : w.Marked) (x : Signal) : (w.signal x).Marked := by
  cases x with
  | line fd line =>
    rw [signal_line]
    unfold queueLine
    split
    · exact h.record nofun nofun
    split
    · exact (h.modify fd (f := fun p => { p with outputBuffer := p.outputBuffer ++ line.bytes })
        fun _ => rfl).record (a := .queued fd line true) nofun nofun
    · exact (h.requestDisconnect fd _).record nofun nofun
  | disconnect fd reason => exact h.requestDisconnect fd reason

theorem Marked.deliver (h : w.Marked) (signals : List Signal) : (w.deliver signals).Marked := by
  induction signals generalizing w with
  | nil => exact h
  | cons x signals ih => exact ih (h.signal x)

end Wire

end FtIrc
