import Mathlib.Data.Finset.Card
set_option autoImplicit false

/-!
Agents on a ladder. Whoever climbs past a rung finds it taken by another agent, so that no
one gets higher than the number of agents that are on the ladder at once.
-/

namespace Ladder

variable {ι : Type} {agents : Finset ι} {rung : ι → Option Nat}

def above (agents : Finset ι) (rung : ι → Option Nat) (i : Nat) : Finset ι :=
  agents.filter (fun a => (rung a).any (fun r => decide (i ≤ r)) = true)

theorem mem_above {a : ι} {i : Nat} :
    a ∈ above agents rung i ↔ a ∈ agents ∧ ∃ r, rung a = some r ∧ i ≤ r := by
  simp [above,Option.any_eq_true]

/-- The rungs below each agent leave room for all agents at its height among `bound`. -/
def Fits (agents : Finset ι) (rung : ι → Option Nat) (bound : Nat) : Prop :=
  ∀ a r, a ∈ agents → rung a = some r → r + (above agents rung r).card ≤ bound

variable {bound : Nat} {a : ι}

theorem Fits.lt (h : Fits agents rung bound) {r : Nat} (ha : a ∈ agents) (hr : rung a = some r) :
    r < bound := by
  have hmem : a ∈ above agents rung r := mem_above.mpr ⟨ha,r,hr,le_rfl⟩
  have hpos : 0 < (above agents rung r).card := Finset.card_pos.mpr ⟨a,hmem⟩
  have := h a r ha hr
  omega

section Steps

variable [DecidableEq ι]

def othersAbove (agents : Finset ι) (rung : ι → Option Nat) (a : ι) (i : Nat) : Finset ι :=
  (above agents rung i).erase a

theorem above_update_of_le {x : Option Nat} {i : Nat} (ha : a ∈ agents)
    (hx : ∃ r, x = some r ∧ i ≤ r) :
    (above agents (Function.update rung a x) i).card = (othersAbove agents rung a i).card + 1 := by
  have hmem : a ∈ above agents (Function.update rung a x) i :=
    mem_above.mpr ⟨ha,by simpa using hx⟩
  rw [← Finset.card_erase_add_one hmem]
  congr 2
  ext b
  simp only [othersAbove,Finset.mem_erase,mem_above]
  refine and_congr_right (fun hne => ?_)
  rw [Function.update_of_ne hne]

theorem above_update_of_not_le {x : Option Nat} {i : Nat} (hx : ∀ r, x = some r → ¬ i ≤ r) :
    above agents (Function.update rung a x) i = othersAbove agents rung a i := by
  ext b
  simp only [othersAbove,Finset.mem_erase,mem_above]
  by_cases hb : b = a
  · subst hb
    simp only [Function.update_self,ne_eq,not_true,false_and,iff_false]
    rintro ⟨-,r,hr,hle⟩
    exact hx r hr hle
  · simp [hb]

theorem othersAbove_card_le (i : Nat) :
    (othersAbove agents rung a i).card ≤ (above agents rung i).card :=
  Finset.card_le_card (Finset.erase_subset _ _)

theorem Fits.leave (h : Fits agents rung bound) (a : ι) :
    Fits agents (Function.update rung a none) bound := by
  intro b r hb hr
  have hne : b ≠ a := by
    rintro rfl
    simp at hr
  rw [Function.update_of_ne hne] at hr
  rw [above_update_of_not_le (by simp)]
  have hle : (othersAbove agents rung a r).card ≤ _ := othersAbove_card_le r
  have := h b r hb hr
  omega

theorem Fits.enter (h : Fits agents rung bound) (ha : a ∈ agents)
    (hbound : (above agents (Function.update rung a (some 0)) 0).card ≤ bound) :
    Fits agents (Function.update rung a (some 0)) bound := by
  intro b r hb hr
  rcases Nat.eq_zero_or_pos r with rfl | hpos
  · omega
  · have hne : b ≠ a := by
      rintro rfl
      simp at hr
      omega
    rw [Function.update_of_ne hne] at hr
    rw [above_update_of_not_le (by rintro _ ⟨⟩; omega)]
    have hle : (othersAbove agents rung a r).card ≤ _ := othersAbove_card_le r
    have := h b r hb hr
    omega

theorem othersAbove_add_le {i d : Nat}
    (htaken : ∀ r, i ≤ r → r < i + d → ∃ b, b ∈ agents ∧ b ≠ a ∧ rung b = some r) :
    (othersAbove agents rung a (i+d)).card + d ≤ (othersAbove agents rung a i).card := by
  induction d with
  | zero => simp
  | succ d ih =>
    obtain ⟨b,hb,hne,hr⟩ := htaken (i+d) (by omega) (by omega)
    have hnot : b ∉ othersAbove agents rung a (i+(d+1)) := by
      simp only [othersAbove,Finset.mem_erase,mem_above]
      rintro ⟨-,-,r,hr',hle⟩
      obtain rfl := Option.some.inj (hr.symm.trans hr')
      omega
    have hsub : insert b (othersAbove agents rung a (i+(d+1))) ⊆
        othersAbove agents rung a (i+d) := by
      intro c hc
      rcases Finset.mem_insert.mp hc with rfl | hc
      · exact Finset.mem_erase.mpr ⟨hne,mem_above.mpr ⟨hb,i+d,hr,le_rfl⟩⟩
      · obtain ⟨hca,hc⟩ := Finset.mem_erase.mp hc
        obtain ⟨hagent,r,hr',hle⟩ := mem_above.mp hc
        exact Finset.mem_erase.mpr ⟨hca,mem_above.mpr ⟨hagent,r,hr',by omega⟩⟩
    have hcard := Finset.card_le_card hsub
    rw [Finset.card_insert_of_notMem hnot] at hcard
    have hrest := ih (fun r h₁ h₂ => htaken r h₁ (by omega))
    omega

theorem Fits.climb (h : Fits agents rung bound) {low high : Nat} (ha : a ∈ agents)
    (hlow : rung a = some low) (hle : low ≤ high)
    (htaken : ∀ r, low ≤ r → r < high → ∃ b, b ∈ agents ∧ b ≠ a ∧ rung b = some r) :
    Fits agents (Function.update rung a (some high)) bound := by
  have hstart : low + ((othersAbove agents rung a low).card + 1) ≤ bound := by
    have hmem : a ∈ above agents rung low := mem_above.mpr ⟨ha,low,hlow,le_rfl⟩
    rw [othersAbove,Finset.card_erase_add_one hmem]
    exact h a low ha hlow
  intro b r hb hr
  rcases Nat.lt_or_ge high r with hhigh | hhigh
  · have hne : b ≠ a := by
      rintro rfl
      simp at hr
      omega
    rw [Function.update_of_ne hne] at hr
    rw [above_update_of_not_le (by rintro _ ⟨⟩; omega)]
    have hothers : (othersAbove agents rung a r).card ≤ _ := othersAbove_card_le r
    have := h b r hb hr
    omega
  · rw [above_update_of_le ha ⟨high,rfl,hhigh⟩]
    rcases Nat.lt_or_ge low r with hbetween | hbelow
    · obtain ⟨d,rfl⟩ := Nat.exists_eq_add_of_le hbetween.le
      have htaken' : ∀ r, low ≤ r → r < low + d → ∃ b, b ∈ agents ∧ b ≠ a ∧ rung b = some r :=
        fun r h₁ h₂ => htaken r h₁ (by omega)
      have := othersAbove_add_le htaken'
      omega
    · have hmem : a ∈ above agents rung r := mem_above.mpr ⟨ha,low,hlow,hbelow⟩
      have hcard : (othersAbove agents rung a r).card + 1 = (above agents rung r).card :=
        Finset.card_erase_add_one hmem
      by_cases hba : b = a
      · subst hba
        obtain rfl : high = r := by simpa using hr
        obtain rfl : low = high := by omega
        omega
      · rw [Function.update_of_ne hba] at hr
        rw [hcard]
        exact h b r hb hr

end Steps

end Ladder
