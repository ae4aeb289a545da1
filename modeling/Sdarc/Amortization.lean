import Mathlib.Order.Interval.Finset.Nat
import Mathlib.Tactic.Ring
set_option autoImplicit false

/-!
Counting the steps of a history. A step of one kind is charged to a potential, which only
steps of another kind can raise again.
-/

namespace Transition

variable (p : Nat → Prop) [DecidablePred p]

def stepsIn (a b : Nat) : Nat := ((Finset.Ico a b).filter p).card

theorem stepsIn_self (a : Nat) : stepsIn p a a = 0 := by
  simp [stepsIn]

theorem stepsIn_succ {a b : Nat} (hab : a ≤ b) :
    stepsIn p a (b+1) = stepsIn p a b + if p b then 1 else 0 := by
  unfold stepsIn
  rw [Nat.Ico_succ_right_eq_insert_Ico hab,Finset.filter_insert]
  split
  · rw [Finset.card_insert_of_notMem (by simp)]
  · rw [Nat.add_zero]

variable {p}

theorem stepsIn_le {q : Nat → Prop} [DecidablePred q] (potential : Nat → Nat) {a b : Nat}
    (hab : a ≤ b)
    (hstep : ∀ k, a ≤ k → k < b → (if p k then 1 else 0) + potential (k+1) ≤
      potential k + if q k then 1 else 0) :
    stepsIn p a b + potential b ≤ potential a + stepsIn q a b := by
  induction b, hab using Nat.le_induction with
  | base => simp [stepsIn_self]
  | succ b hab ih =>
    have hprev := ih (fun k hak hkb => hstep k hak (by omega))
    have hlast := hstep b hab (by omega)
    rw [stepsIn_succ p hab,stepsIn_succ q hab]
    omega

theorem stepsIn_le_potential (potential : Nat → Nat) {a b : Nat} (hab : a ≤ b)
    (hstep : ∀ k, a ≤ k → k < b → (if p k then 1 else 0) + potential (k+1) ≤ potential k) :
    stepsIn p a b + potential b ≤ potential a := by
  have hnone : stepsIn (fun _ => False) a b = 0 := by simp [stepsIn]
  have hle := stepsIn_le (p := p) (q := fun _ => False) potential hab
    (fun k hak hkb => by simpa using hstep k hak hkb)
  omega

end Transition
