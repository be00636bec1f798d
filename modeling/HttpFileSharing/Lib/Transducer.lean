import Mathlib.Data.List.Basic

/-!
# Readers

A reader goes over a text one character at a time, keeps a state and writes
something down now and then. `emit` is what it has written by the end, with the
state it is left in.

`Emits` is how the pieces of a text are put together: what a piece makes the
reader write in the state it is reached in, and the state it leaves. A text is
cut where its writer put it together, each piece is followed by itself, and
`Emits.append` gives the whole.

## Main definitions

* `emit`: What a reader writes, and its state after it.
* `Emits`: What reading a piece of text gives.

## Theorems

* `emit_append`, `Emits.append`: Two pieces behind each other.
* `Emits.skip`: A piece that makes the reader write nothing.
* `emits_of_still`: A piece that leaves the reader where it is.
* `emits_flatMap`: Pieces of one kind behind each other.
-/

namespace HttpFileSharing

variable {σ α β : Type*}

/-- What a reader with this step writes, and its state after it. -/
def emit (step : σ → α → List β × σ) : σ → List α → List β × σ
  | s, [] => ([], s)
  | s, x :: xs =>
    ((step s x).1 ++ (emit step (step s x).2 xs).1, (emit step (step s x).2 xs).2)

/-- Reading `xs` from state `s` writes `ys` and leaves state `t`. -/
def Emits (step : σ → α → List β × σ) (s : σ) (xs : List α) (ys : List β) (t : σ) : Prop :=
  emit step s xs = (ys, t)

instance [DecidableEq σ] [DecidableEq β] (step : σ → α → List β × σ) (s : σ) (xs : List α)
    (ys : List β) (t : σ) : Decidable (Emits step s xs ys t) :=
  inferInstanceAs (Decidable (_ = _))

section Emits

variable (step : σ → α → List β × σ)

theorem emit_append (s : σ) (xs xs' : List α) :
    emit step s (xs ++ xs') = ((emit step s xs).1 ++ (emit step (emit step s xs).2 xs').1,
      (emit step (emit step s xs).2 xs').2) := by
  induction xs generalizing s with
  | nil => rfl
  | cons x xs ih =>
      rw [List.cons_append, emit, emit, ih]
      simp only [List.append_assoc]

variable {step}

/-- Two pieces behind each other. -/
theorem Emits.append {s t u : σ} {xs xs' : List α} {ys ys' : List β} (h : Emits step s xs ys t)
    (h' : Emits step t xs' ys' u) : Emits step s (xs ++ xs') (ys ++ ys') u := by
  unfold Emits at h h' ⊢
  rw [emit_append, h, h']

/-- A piece that makes the reader write nothing. -/
theorem Emits.skip {s t u : σ} {xs xs' : List α} {ys : List β} (h : Emits step s xs ys t)
    (h' : Emits step t xs' [] u) : Emits step s (xs ++ xs') ys u := by
  have happend := h.append h'
  rw [List.append_nil] at happend
  exact happend

/-- A piece that leaves the reader where it is. -/
theorem emits_of_still (s : σ) (xs : List α) (h : ∀ x ∈ xs, step s x = ([], s)) :
    Emits step s xs [] s := by
  unfold Emits
  induction xs with
  | nil => rfl
  | cons x xs ih =>
      rw [emit, h x List.mem_cons_self, ih (fun y hy => h y (List.mem_cons_of_mem x hy))]
      rfl

/-- Pieces of one kind behind each other. -/
theorem emits_flatMap {γ : Type*} (s : σ) (piece : γ → List α) (out : γ → List β) (zs : List γ)
    (h : ∀ z ∈ zs, Emits step s (piece z) (out z) s) :
    Emits step s (zs.flatMap piece) (zs.flatMap out) s := by
  induction zs with
  | nil => rfl
  | cons z zs ih =>
      rw [List.flatMap_cons, List.flatMap_cons]
      exact (h z List.mem_cons_self).append (ih (fun y hy => h y (List.mem_cons_of_mem z hy)))

end Emits

end HttpFileSharing
