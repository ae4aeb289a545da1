import Mathlib.Algebra.Order.BigOperators.Group.Finset
import Sdarc.Reclamation
set_option autoImplicit false

/-!
A scan of the records whose reads may be late: what a reader signals after the scan has
begun may be missed. The scan still finds every reader that can matter, since one that
begins later only gets hold of an object that is not about to be freed.
-/

namespace Reclamation

variable {n : Nat} {v v' : View} {base base' : Nat → Int}

theorem QuietFrom.rebase (hb : Based n v base) (hb' : Based n v base')
    (h : QuietFrom n 0 v base) : QuietFrom n 0 v base' := by
  have hle : ∀ i ∈ Finset.range n, base' i ≤ base i := fun i hi => by
    obtain ⟨htag,hcount⟩ := h i (Nat.zero_le i) (Finset.mem_range.mp hi)
    exact hcount ▸ hb'.le i (Finset.mem_range.mp hi) htag
  have hsum : ∑ i ∈ Finset.range n, base' i = ∑ i ∈ Finset.range n, base i := by
    rw [hb.sum,hb'.sum]
  have heq := (Finset.sum_eq_sum_iff_of_le hle).mp hsum
  intro i hi hn
  obtain ⟨htag,hcount⟩ := h i hi hn
  exact ⟨htag,hcount.trans (heq i (Finset.mem_range.mpr hn)).symm⟩

/-- Of an object that is suspected to be dead: a read of the signals misses none of its
readers and none of its guards. `missed r` says that the reader of record `r` may not be
seen, `missedSlot r j` that the guard in slot `j` may not. -/
def Seen (n : Nat) (v : View) (missed : Nat → Prop) (missedSlot : Nat → Nat → Prop) : Prop :=
  ∃ base, Based n v base ∧ (QuietFrom n 0 v base → ¬ v.source →
    (∀ r, v.entering r → ¬ missed r) ∧ ∀ r j, v.guard r j → ¬ missedSlot r j)

section Seen

variable {missed missed' : Nat → Prop} {missedSlot missedSlot' : Nat → Nat → Prop}

theorem Seen.start {phase : Phase} (h : Holds n v .suspect phase)
    (he : ∀ r, v.entering r → ¬ missed r) (hg : ∀ r j, v.guard r j → ¬ missedSlot r j) :
    Seen n v missed missedSlot := by
  obtain ⟨base,hb,-⟩ := h
  exact ⟨base,hb,fun _ _ => ⟨he,hg⟩⟩

/-- Readers that were there before go on signalling; of those that come later none gets
hold of an object that stays quiet. -/
theorem Seen.stable (h : Seen n v missed missedSlot) (ha : v.Accounted n) (hr : Rely v v')
    (hc : RelyCounts v v')
    (he : ∀ r, v.entering r → v'.entering r → missed' r → missed r)
    (hg : ∀ r j, v.guard r j → v'.guard r j → missedSlot' r j → missedSlot r j) :
    Seen n v' missed' missedSlot' := by
  obtain ⟨base,hb,hseen⟩ := h
  refine ⟨base,hb.stable hc,fun hq hs => ?_⟩
  have hq₀ := hq.back hb hc
  have hs₀ : ¬ v.source := fun hsrc => hs (hr.source_stays hsrc)
  have hdead := not_alive_of_quiet hb ha hq₀ hs₀
  obtain ⟨hen,hgu⟩ := hseen hq₀ hs₀
  refine ⟨fun r he' hm => ?_,fun r j hg' hm => ?_⟩
  · have hold := (hr.entering r he').resolve_right hdead
    exact hen r hold (he r hold he' hm)
  · have hold := (hr.guard r j hg').resolve_right hdead
    exact hgu r j hold (hg r j hold hg' hm)

/-- Slot `j` of record `r` is read; a value other than the object's comes from a late read
only if it misses the guard. -/
theorem Seen.readSlot {stage : Stage} {len r j : Nat} {hazard hazard' : Prop}
    (hseen : stage = .suspect → Seen n v missed missedSlot)
    (h : Holds n v stage (.scanning len r j hazard)) (hold : hazard → hazard')
    (hfound : v.guard r j → missedSlot r j ∨ hazard') :
    Holds n v stage (.scanning len r (j+1) hazard') := by
  cases stage with
  | default => trivial
  | condemned => exact h
  | suspect =>
    obtain ⟨base',hb',hsee⟩ := hseen rfl
    obtain ⟨base,hb,hs⟩ := h
    refine ⟨base,hb,fun hq hsrc => ?_⟩
    obtain ⟨he,hg⟩ := hs hq hsrc
    obtain ⟨-,hgu⟩ := hsee (hq.rebase hb hb') hsrc
    refine ⟨he,fun r' j' hr' hgr => ?_⟩
    by_cases heq : r' = r ∧ j' = j
    · obtain ⟨rfl,rfl⟩ := heq
      exact (hfound hgr).resolve_left (hgu r' j' hgr)
    · exact hold (hg r' j' (by omega) hgr)

theorem Seen.poll {stage : Stage} {len r j : Nat} {hazard : Prop}
    (hseen : stage = .suspect → Seen n v missed missedSlot)
    (h : Holds n v stage (.scanning len r j hazard)) (he : v.entering r → missed r)
    (hg : ∀ j', v.guard r j' → j' < j) :
    Holds n v stage (.scanning len (r+1) 0 hazard) := by
  cases stage with
  | default => trivial
  | condemned => exact h
  | suspect =>
    obtain ⟨base',hb',hsee⟩ := hseen rfl
    obtain ⟨base,hb,hs⟩ := h
    refine ⟨base,hb,fun hq hsrc => ?_⟩
    obtain ⟨he',hg'⟩ := hs hq hsrc
    obtain ⟨hen,-⟩ := hsee (hq.rebase hb hb') hsrc
    refine ⟨fun r' hr' => ?_,fun r' j' hr' hgr => ?_⟩
    · by_cases heq : r' = r
      · subst heq
        exact fun hent => hen r' hent (he hent)
      · exact he' r' (by omega)
    · by_cases heq : r' = r
      · subst heq
        exact hg' r' j' (.inr (.inl ⟨rfl,hg j' hgr⟩)) hgr
      · exact hg' r' j' (by omega) hgr

end Seen

end Reclamation
