import Mathlib.Data.List.Nodup
import Mathlib.Data.List.Perm.Basic
import Mathlib.Logic.Equiv.Basic
set_option autoImplicit false

/-!
Tokens in the custody of holders: every live token is held once, by one holder.
-/

structure Custody {ι τ : Type} (live : τ → Prop) (held : ι → List τ) : Prop where
  live_iff : ∀ x, live x ↔ ∃ i, x ∈ held i
  unique : ∀ i j x, x ∈ held i → x ∈ held j → i = j
  nodup : ∀ i, (held i).Nodup

namespace Custody

variable {ι τ : Type} {live live' : τ → Prop} {held held' : ι → List τ} {i j : ι} {x : τ}

theorem live_of_mem (h : Custody live held) (hx : x ∈ held i) : live x :=
  (h.live_iff x).mpr ⟨i,hx⟩

theorem congr (h : Custody live held) (hheld : ∀ k, held' k = held k)
    (hlive : ∀ y, live' y ↔ live y) : Custody live' held' := by
  rw [show held' = held from funext hheld,
    show live' = live from funext (fun y => propext (hlive y))]
  exact h

theorem add (h : Custody live held) (hx : ¬ live x) (hi : (held' i).Perm (x :: held i))
    (hheld : ∀ k, k ≠ i → held' k = held k) (hlive : ∀ y, live' y ↔ y = x ∨ live y) :
    Custody live' held' := by
  have hmem : ∀ k y, y ∈ held' k ↔ (k = i ∧ y = x) ∨ y ∈ held k := by
    intro k y
    by_cases hk : k = i
    · subst hk
      rw [hi.mem_iff,List.mem_cons]
      simp
    · simp [hheld k hk,hk]
  have hnot : ∀ k, x ∉ held k := fun k hk => hx (h.live_of_mem hk)
  refine ⟨fun y => ?_,fun k l y hk hl => ?_,fun k => ?_⟩
  · rw [hlive,h.live_iff]
    constructor
    · rintro (rfl | ⟨k,hk⟩)
      · exact ⟨i,(hmem i y).mpr (.inl ⟨rfl,rfl⟩)⟩
      · exact ⟨k,(hmem k y).mpr (.inr hk)⟩
    · rintro ⟨k,hk⟩
      rcases (hmem k y).mp hk with ⟨-,rfl⟩ | hk
      · exact .inl rfl
      · exact .inr ⟨k,hk⟩
  · rcases (hmem k y).mp hk with ⟨rfl,rfl⟩ | hk
    · rcases (hmem l y).mp hl with ⟨rfl,-⟩ | hl
      · rfl
      · exact absurd hl (hnot l)
    · rcases (hmem l y).mp hl with ⟨rfl,rfl⟩ | hl
      · exact absurd hk (hnot k)
      · exact h.unique k l y hk hl
  · by_cases hk : k = i
    · subst hk
      rw [hi.nodup_iff]
      exact List.nodup_cons.mpr ⟨hnot k,h.nodup k⟩
    · rw [hheld k hk]
      exact h.nodup k

theorem remove (h : Custody live held) (hi : (held i).Perm (x :: held' i))
    (hheld : ∀ k, k ≠ i → held' k = held k) (hlive : ∀ y, live' y ↔ live y ∧ y ≠ x) :
    Custody live' held' := by
  have hxi : x ∈ held i := hi.mem_iff.mpr List.mem_cons_self
  have hcons : (x :: held' i).Nodup := hi.nodup_iff.mp (h.nodup i)
  have hmem : ∀ k y, y ∈ held' k ↔ y ∈ held k ∧ y ≠ x := by
    intro k y
    by_cases hk : k = i
    · subst hk
      rw [hi.mem_iff,List.mem_cons]
      constructor
      · intro hy
        exact ⟨.inr hy,fun hyx => (List.nodup_cons.mp hcons).1 (hyx ▸ hy)⟩
      · rintro ⟨hy | hy,hne⟩
        · exact absurd hy hne
        · exact hy
    · rw [hheld k hk]
      exact ⟨fun hy => ⟨hy,fun hyx => hk (h.unique k i x (hyx ▸ hy) hxi)⟩,And.left⟩
  refine ⟨fun y => ?_,fun k l y hk hl => ?_,fun k => ?_⟩
  · rw [hlive,h.live_iff]
    constructor
    · rintro ⟨⟨k,hk⟩,hne⟩
      exact ⟨k,(hmem k y).mpr ⟨hk,hne⟩⟩
    · rintro ⟨k,hk⟩
      exact ⟨⟨k,((hmem k y).mp hk).1⟩,((hmem k y).mp hk).2⟩
  · exact h.unique k l y ((hmem k y).mp hk).1 ((hmem l y).mp hl).1
  · by_cases hk : k = i
    · subst hk
      exact (List.nodup_cons.mp hcons).2
    · rw [hheld k hk]
      exact h.nodup k

theorem move [DecidableEq ι] (h : Custody live held) (hij : i ≠ j)
    (hi : (held i).Perm (x :: held' i)) (hj : (held' j).Perm (x :: held j))
    (hheld : ∀ k, k ≠ i → k ≠ j → held' k = held k) (hlive : ∀ y, live' y ↔ live y) :
    Custody live' held' := by
  have hx : live x := h.live_of_mem (hi.mem_iff.mpr List.mem_cons_self)
  have hout : Custody (fun y => live y ∧ y ≠ x) (Function.update held i (held' i)) :=
    h.remove (i := i) (by simpa using hi) (fun k hk => by simp [hk]) (fun y => Iff.rfl)
  refine hout.add (i := j) (x := x) (by simp) (by simpa [hij.symm] using hj) (fun k hk => ?_)
    (fun y => ?_)
  · by_cases hki : k = i
    · simp [hki]
    · simp [hki,hheld k hki hk]
  · rw [hlive]
    by_cases hy : y = x <;> simp [hy,hx]

theorem swap [DecidableEq ι] (h : Custody live held) (hi : held' i = held j)
    (hj : held' j = held i) (hheld : ∀ k, k ≠ i → k ≠ j → held' k = held k)
    (hlive : ∀ y, live' y ↔ live y) : Custody live' held' := by
  have hcomp : ∀ k, held' k = held (Equiv.swap i j k) := by
    intro k
    by_cases hki : k = i
    · rw [hki,Equiv.swap_apply_left,hi]
    · by_cases hkj : k = j
      · rw [hkj,Equiv.swap_apply_right,hj]
      · rw [Equiv.swap_apply_of_ne_of_ne hki hkj,hheld k hki hkj]
  refine ⟨fun y => ?_,fun k l y hk hl => ?_,fun k => ?_⟩
  · rw [hlive,h.live_iff]
    simp only [hcomp]
    constructor
    · rintro ⟨k,hk⟩
      exact ⟨Equiv.swap i j k,by rwa [Equiv.swap_apply_self]⟩
    · rintro ⟨k,hk⟩
      exact ⟨_,hk⟩
  · rw [hcomp] at hk hl
    exact (Equiv.swap i j).injective (h.unique _ _ y hk hl)
  · rw [hcomp]
    exact h.nodup _

end Custody
