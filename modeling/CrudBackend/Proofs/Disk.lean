import CrudBackend.Output
import CrudBackend.Proofs.Files.Effects

/-!
Computations on a file tree, seen through the tree that they leave behind, whether they fail or not.
A transitive relation that holds between the trees around each step of a computation holds between
the trees around the whole.
-/

namespace CrudBackend

namespace Disk

/-- The tree that a computation leaves, also when it fails. -/
def after {α : Type} (m : Disk α) (t : FileTree) : FileTree :=
  match m t with
  | .ok _ t' => t'
  | .error _ t' => t'

def quiet {α : Type} (m : Disk α) : Disk Unit := do
  let _ ← m
  return ()

def inTurn : List (Disk Unit) → Disk Unit
  | [] => pure ()
  | step :: rest => do
    step
    inTurn rest

variable {α β : Type} {m : Disk α} {f : α → Disk β} {t t' : FileTree} {a : α} {b : β}

theorem after_ok (h : m t = .ok a t') : m.after t = t' := by rw [after, h]

theorem exists_eq_ok (h : EStateM.run' m t = some a) : ∃ t', m t = .ok a t' := by
  delta EStateM.run' EStateM.run at h
  cases hm : m t with
  | ok a' t' =>
    rw [hm] at h
    cases h
    exact ⟨t', rfl⟩
  | error e t' =>
    rw [hm] at h
    cases h

theorem bind_ok (h : m t = .ok a t') : (m >>= f) t = f a t' := by
  change EStateM.bind m f t = _
  rw [EStateM.bind, h]

theorem bind_error {e : Failure} (h : m t = .error e t') : (m >>= f) t = .error e t' := by
  change EStateM.bind m f t = _
  rw [EStateM.bind, h]

theorem bind_eq_ok (h : (m >>= f) t = .ok b t') : ∃ a s, m t = .ok a s ∧ f a s = .ok b t' := by
  cases hm : m t with
  | ok a s => exact ⟨a, s, rfl, by rwa [bind_ok hm] at h⟩
  | error e s =>
    rw [bind_error hm] at h
    cases h

/-- A computation goes on in the same way after two that agree on the tree. -/
theorem bind_congr_left {m' : Disk α} (h : m t = m' t) : (m >>= f) t = (m' >>= f) t := by
  cases hm : m t with
  | ok a s => rw [bind_ok hm, bind_ok (h ▸ hm)]
  | error e s => rw [bind_error hm, bind_error (h ▸ hm)]

/-- What holds between the trees around two computations holds around both together. -/
theorem rel_bind {R : FileTree → FileTree → Prop} (htrans : ∀ {r s t}, R r s → R s t → R r t)
    (hm : R t (m.after t)) (hf : ∀ a s, m t = .ok a s → R t s → R s ((f a).after s)) :
    R t ((m >>= f).after t) := by
  cases h : m t with
  | ok a s =>
    rw [after_ok h] at hm
    rw [after, bind_ok h]
    exact htrans hm (hf a s h hm)
  | error e s =>
    rw [after, bind_error h]
    rwa [after, h] at hm

@[simp] theorem after_quiet (m : Disk α) (t : FileTree) : (quiet m).after t = m.after t := by
  cases h : m t with
  | ok a s =>
    rw [after, quiet, bind_ok h, after_ok h]
    rfl
  | error e s => rw [after, quiet, bind_error h, after, h]

theorem inTurn_append (steps more : List (Disk Unit)) :
    inTurn (steps ++ more) = (do inTurn steps; inTurn more) := by
  induction steps with
  | nil => rfl
  | cons step rest ih => simp only [List.cons_append, inTurn, ih, bind_assoc]

theorem after_bind (m m' : Disk Unit) (t : FileTree) :
    (do m; m').after t = m.after t ∨ m t = .ok () (m.after t) ∧
      (do m; m').after t = m'.after (m.after t) := by
  cases h : m t with
  | ok u s => exact Or.inr ⟨by rw [after_ok h], by rw [after_ok h, after, bind_ok h, after]⟩
  | error e s => exact Or.inl (by rw [after, bind_error h, after, h])

/-- What every step keeps is kept by steps that are taken one after the other. -/
theorem inv_inTurn {I : FileTree → Prop} {steps : List (Disk Unit)}
    (hstep : ∀ step ∈ steps, ∀ s, I s → I (step.after s)) (ht : I t) :
    I ((inTurn steps).after t) := by
  induction steps generalizing t with
  | nil => exact ht
  | cons step rest ih =>
    have hfirst := hstep step (List.mem_cons_self ..) t ht
    rcases after_bind step (inTurn rest) t with heq | ⟨-, heq⟩
    · rw [inTurn, heq]
      exact hfirst
    · rw [inTurn, heq]
      exact ih (fun other hother => hstep other (List.mem_cons_of_mem _ hother)) hfirst

theorem quiet_removeEach (remove : Path → Disk (List Path)) (paths : List Path) :
    quiet (Cleaning.removeEach remove paths) = inTurn (paths.map fun p => quiet (remove p)) := by
  induction paths with
  | nil => rfl
  | cons p rest ih =>
    rw [List.map_cons, inTurn, ← ih]
    simp only [quiet, Cleaning.removeEach, bind_assoc, pure_bind]

theorem quiet_performAll (dryRun : Bool) (pieces : List Piece) :
    quiet (Output.performAll dryRun pieces) =
      inTurn (pieces.map fun piece => quiet (Output.perform dryRun piece)) := by
  induction pieces with
  | nil => rfl
  | cons piece rest ih =>
    rw [List.map_cons, inTurn, ← ih]
    simp only [quiet, Output.performAll, bind_assoc, pure_bind]

end Disk

end CrudBackend
