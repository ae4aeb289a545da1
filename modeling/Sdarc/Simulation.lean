import Sdarc.Transition
set_option autoImplicit false

/-!
One machine refining another: its states are mapped to states there, and each of its steps is
one step there or none.
-/

namespace Transition

variable {σ τ α β : Type}

def trace (step : σ → α → Option σ) (event : σ → α → Option β) : σ → List α → List β
  | _, [] => []
  | s, a :: as =>
      match step s a with
      | none => []
      | some s' => (event s a).toList ++ trace step event s' as

def Follows (spec : τ → β → Option τ) (seen : Option β) (x y : τ) : Prop :=
  match seen with
  | none => y = x
  | some b => spec x b = some y

structure Refines (step : σ → α → Option σ) (spec : τ → β → Option τ) (event : σ → α → Option β)
    (view : σ → τ) (P : σ → Prop) : Prop where
  keeps : ∀ s a s', P s → step s a = some s' → P s'
  follows : ∀ s a s', P s → step s a = some s' → Follows spec (event s a) (view s) (view s')

theorem Refines.run {step : σ → α → Option σ} {spec : τ → β → Option τ}
    {event : σ → α → Option β} {view : σ → τ} {P : σ → Prop}
    (h : Refines step spec event view P) {as : List α} {s s' : σ} (hs : P s)
    (hrun : run step s as = some s') :
    P s' ∧ Transition.run spec (view s) (trace step event s as) = some (view s') := by
  induction as generalizing s with
  | nil =>
    obtain rfl : s = s' := by simpa [Transition.run] using hrun
    exact ⟨hs,rfl⟩
  | cons a as ih =>
    simp only [Transition.run,Option.bind_eq_some_iff] at hrun
    obtain ⟨s₁,hstep,hrest⟩ := hrun
    obtain ⟨hP,hspec⟩ := ih (h.keeps s a s₁ hs hstep) hrest
    refine ⟨hP,?_⟩
    have hfollows := h.follows s a s₁ hs hstep
    rw [trace,hstep]
    cases hevent : event s a with
    | none =>
      rw [hevent] at hfollows
      rw [show view s₁ = view s from hfollows] at hspec
      exact hspec
    | some b =>
      rw [hevent] at hfollows
      simp [Transition.run,show spec (view s) b = some (view s₁) from hfollows,hspec]

end Transition
