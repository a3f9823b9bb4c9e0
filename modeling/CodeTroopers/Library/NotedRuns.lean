import CodeTroopers.Library.StreamProgram

set_option autoImplicit false

/-! # Runs and their notes

A handler `Logs` its notes if reading and writing keep them and a note is added behind those before.
Whatever was noted up to a point of a run is then noted at its end (`Logs.prefix_run`), so that a
property of the notes at the end, if it passes to every beginning of them, holds all along the run.

Two sequences with the same first part run alike if their second parts do wherever the first part
leads (`run_bind_congr`). The second part may assume what holds of the end of the whole run. -/

namespace StreamProgram

variable {ε ν α β σ : Type} {h : Handler ε ν σ}

/-- The handler adds what is noted to the notes, and does nothing else to them. -/
structure Logs (h : Handler ε ν σ) (notes : σ → List ν) : Prop where
  read : ∀ n s, notes (h.read n s).2 = notes s
  write : ∀ bytes s, notes (h.write bytes s).2 = notes s
  note : ∀ event s, notes (h.note event s) = notes s ++ [event]

theorem Logs.prefix_run {notes : σ → List ν} (hl : Logs h notes) (p : Prog ε ν α) (s : σ) :
    notes s <+: notes (run h p s).2 := by
  refine run_preserves (P := fun s' => notes s <+: notes s') (fun n s' hs => ?_)
    (fun bytes s' hs => ?_) (fun event s' hs => ?_) p s (List.prefix_refl _)
  · rw [hl.read]
    exact hs
  · rw [hl.write]
    exact hs
  · rw [hl.note]
    exact hs.trans (List.prefix_append ..)

theorem run_bind_congr {P : σ → Prop} {p : Prog ε ν α} {f f' : α → Prog ε ν β} {s : σ}
    (hend : P (run h (p.bind f) s).2)
    (hf : ∀ a s', run h p s = (.ok a, s') → P (run h (f a) s').2 →
      run h (f' a) s' = run h (f a) s') :
    run h (p.bind f') s = run h (p.bind f) s := by
  rw [run_bind] at hend
  rw [run_bind, run_bind]
  rcases hp : run h p s with ⟨e | a, s'⟩
  · rfl
  · rw [hp] at hend
    exact hf a s' hp hend

end StreamProgram
