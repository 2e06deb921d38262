import Mathlib.Data.Finset.Image

/-!
# Frames

A stream in which every frame ends with a separator.  Frames without a separator inside are
read back from the stream they are put together to.
-/

namespace Framing

variable {α : Type*} [DecidableEq α] {sep : α}

/-- The frames of a stream, and what stands behind the last separator. -/
def frames (sep : α) : List α → List (List α) × List α
  | [] => ([], [])
  | x :: xs =>
    if x = sep then ([] :: (frames sep xs).1, (frames sep xs).2)
    else
      match frames sep xs with
      | ([], rest) => ([], x :: rest)
      | (frame :: later, rest) => ((x :: frame) :: later, rest)

theorem frames_of_notMem {xs : List α} (h : sep ∉ xs) : frames sep xs = ([], xs) := by
  induction xs with
  | nil => rfl
  | cons x xs ih =>
    rw [List.mem_cons, not_or] at h
    rw [frames, if_neg (Ne.symm h.1), ih h.2]

/-- The first frame. -/
theorem frames_append {frame : List α} (h : sep ∉ frame) (rest : List α) :
    frames sep (frame ++ sep :: rest) = (frame :: (frames sep rest).1, (frames sep rest).2) := by
  induction frame with
  | nil => rw [List.nil_append, frames, if_pos rfl]
  | cons x frame ih =>
    rw [List.mem_cons, not_or] at h
    rw [List.cons_append, frames, if_neg (Ne.symm h.1), ih h.2]

/-- The frames in front are the first frames. -/
theorem frames_flatMap_append {stream : List (List α)} (h : ∀ frame ∈ stream, sep ∉ frame) (rest : List α) :
    frames sep (stream.flatMap (· ++ [sep]) ++ rest) =
      (stream ++ (frames sep rest).1, (frames sep rest).2) := by
  induction stream with
  | nil => rfl
  | cons frame stream ih =>
    rw [List.flatMap_cons, List.append_assoc, List.append_assoc, List.singleton_append,
      frames_append (h frame List.mem_cons_self), ih fun f hf => h f (List.mem_cons_of_mem _ hf)]
    rfl

/-- **What is put together is read back.** -/
theorem frames_flatMap {stream : List (List α)} (h : ∀ frame ∈ stream, sep ∉ frame) :
    frames sep (stream.flatMap (· ++ [sep])) = (stream, []) := by
  have hframes := frames_flatMap_append h []
  rwa [List.append_nil, frames, List.append_nil] at hframes

/-- Frames with a rest behind them. -/
theorem frames_flatMap_rest {stream : List (List α)} (h : ∀ frame ∈ stream, sep ∉ frame) {rest : List α}
    (hrest : sep ∉ rest) : frames sep (stream.flatMap (· ++ [sep]) ++ rest) = (stream, rest) := by
  rw [frames_flatMap_append h, frames_of_notMem hrest, List.append_nil]

/-- Every stream is put together from its frames. -/
theorem exists_frames (sep : α) (xs : List α) :
    ∃ (stream : List (List α)) (rest : List α), (∀ frame ∈ stream, sep ∉ frame) ∧ sep ∉ rest ∧
      xs = stream.flatMap (· ++ [sep]) ++ rest := by
  induction xs with
  | nil => exact ⟨[], [], by simp, by simp, rfl⟩
  | cons x xs ih =>
    obtain ⟨stream, rest, hstream, hrest, rfl⟩ := ih
    by_cases hx : x = sep
    · exact ⟨[] :: stream, rest, by simpa using hstream, hrest, by simp [hx]⟩
    cases stream with
    | nil => exact ⟨[], x :: rest, by simp, by simp [Ne.symm hx, hrest], rfl⟩
    | cons frame stream =>
      rw [List.forall_mem_cons] at hstream
      refine ⟨(x :: frame) :: stream, rest, ?_, hrest, rfl⟩
      rw [List.forall_mem_cons, List.mem_cons, not_or]
      exact ⟨⟨Ne.symm hx, hstream.1⟩, hstream.2⟩

theorem frames_eq_nil {xs : List α} : (frames sep xs).1 = [] ↔ sep ∉ xs := by
  constructor
  · obtain ⟨stream, rest, hstream, hrest, rfl⟩ := exists_frames sep xs
    rw [frames_flatMap_rest hstream hrest]
    rintro rfl
    exact hrest
  · intro h
    rw [frames_of_notMem h]

/-- No frame, and no rest, is longer than `n`. -/
def Within (sep : α) (n : Nat) (xs : List α) : Prop :=
  (∀ frame ∈ (frames sep xs).1, frame.length ≤ n) ∧ (frames sep xs).2.length ≤ n

/-- A beginning of a stream has no longer frames. -/
theorem Within.of_append {n : Nat} {xs ys : List α} (h : Within sep n (xs ++ ys)) : Within sep n xs := by
  obtain ⟨stream, rest, hstream, hrest, rfl⟩ := exists_frames sep xs
  unfold Within at h ⊢
  rw [List.append_assoc, frames_flatMap_append hstream] at h
  rw [frames_flatMap_rest hstream hrest]
  dsimp only at h ⊢
  refine ⟨fun frame hframe => h.1 frame (List.mem_append_left _ hframe), ?_⟩
  -- the rest goes on in the next frame, or in the new rest
  obtain ⟨later, rest', hlater, hrest', heq⟩ := exists_frames sep (rest ++ ys)
  rw [heq, frames_flatMap_rest hlater hrest'] at h
  dsimp only at h
  cases later with
  | nil =>
    have hlength := congrArg List.length heq
    rw [List.flatMap_nil, List.nil_append, List.length_append] at hlength
    have := h.2
    omega
  | cons frame later =>
    rw [List.flatMap_cons, List.append_assoc, List.append_assoc] at heq
    have hframe := h.1 frame (List.mem_append_right _ List.mem_cons_self)
    rcases List.append_eq_append_iff.1 heq with ⟨x, rfl, -⟩ | ⟨x, rfl, hx⟩
    · rw [List.length_append] at hframe
      omega
    · cases x with
      | nil => simpa using hframe
      | cons d x =>
        obtain rfl : sep = d := (List.cons.inj hx).1
        exact absurd (List.mem_append_right _ List.mem_cons_self) hrest

end Framing
