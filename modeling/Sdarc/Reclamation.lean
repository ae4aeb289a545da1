import Mathlib.Algebra.BigOperators.Group.Finset.Basic
import Mathlib.Algebra.Order.BigOperators.Group.Finset
import Mathlib.Algebra.Order.Ring.Int
set_option autoImplicit false

/-!
Deferred reclamation of one shared object by two iterations over sharded, tagged
counts. The argument is a rely-guarantee one: `Rely` and `RelyCounts` bound what
mutators and readers may do to the object, and `Holds` is what the reclaimer knows
of it in each stage and phase. Nothing here depends on what the object is.
-/

namespace Reclamation

/-- What the protocol sees of one object. `source` means that it can be loaded from
a place that owns no count; record `r` is `entering` when its reader has loaded the
object and has not yet added a count; a `guard` protects it in a slot of a record. -/
structure View where
  count : Nat → Int
  tag : Nat → Bool
  owners : Int
  debt : Int
  source : Prop
  entering : Nat → Prop
  guard : Nat → Nat → Prop

namespace View

def Alive (v : View) : Prop := 0 < v.owners ∨ v.source

structure Dead (v : View) : Prop where
  owners : v.owners = 0
  source : ¬ v.source
  entering : ∀ r, ¬ v.entering r
  guard : ∀ r j, ¬ v.guard r j

structure Accounted (n : Nat) (v : View) : Prop where
  sum : ∑ i ∈ Finset.range n, v.count i = v.owners - v.debt
  debt_nonneg : 0 ≤ v.debt
  covered : v.debt < v.owners ∨ v.debt = 0 ∧ v.owners = 0

end View

structure Rely (v v' : View) : Prop where
  nonneg : 0 ≤ v'.owners
  owners : 0 < v'.owners → v.Alive ∨ ∃ r, v.entering r
  entering : ∀ r, v'.entering r → v.entering r ∨ v.Alive
  guard : ∀ r j, v'.guard r j → v.guard r j ∨ v.Alive
  source : v'.source → v.source ∨ 0 < v.owners
  source_stays : v.source → v'.source

/-- What they may do to its counts: only a decrement lowers one, and it leaves a tag. -/
structure RelyCounts (v v' : View) : Prop where
  tag : ∀ i, v.tag i = true → v'.tag i = true
  count : ∀ i, v'.tag i = false → v.count i ≤ v'.count i

theorem View.Dead.not_alive {v : View} (h : v.Dead) : ¬ v.Alive := by
  rintro (ho | hs)
  · exact absurd h.owners (by omega)
  · exact h.source hs

theorem View.Dead.stable {v v' : View} (h : v.Dead) (hr : Rely v v') : v'.Dead where
  owners := by
    by_contra hne
    have hnonneg := hr.nonneg
    rcases hr.owners (by omega) with ha | ⟨r,he⟩
    · exact h.not_alive ha
    · exact h.entering r he
  source hs := by
    rcases hr.source hs with hs | ho
    · exact h.source hs
    · exact absurd h.owners (by omega)
  entering r he := (hr.entering r he).elim (h.entering r) h.not_alive
  guard r j hg := (hr.guard r j hg).elim (h.guard r j) h.not_alive

theorem RelyCounts.untagged {v v' : View} (h : RelyCounts v v') {i : Nat}
    (ht : v'.tag i = false) : v.tag i = false := by
  cases hv : v.tag i with
  | false => rfl
  | true => rw [h.tag i hv] at ht; contradiction

/-- `base` is what a tag-clearing pass with sum zero read: an untagged shard has only
grown since. -/
structure Based (n : Nat) (v : View) (base : Nat → Int) : Prop where
  sum : ∑ i ∈ Finset.range n, base i = 0
  le : ∀ i, i < n → v.tag i = false → base i ≤ v.count i

/-- The shards from `k` on have not been touched since the tag-clearing pass. -/
def QuietFrom (n k : Nat) (v : View) (base : Nat → Int) : Prop :=
  ∀ i, k ≤ i → i < n → v.tag i = false ∧ v.count i = base i

theorem Based.stable {n : Nat} {v v' : View} {base : Nat → Int} (h : Based n v base)
    (hc : RelyCounts v v') : Based n v' base where
  sum := h.sum
  le i hi ht := (h.le i hi (hc.untagged ht)).trans (hc.count i ht)

theorem QuietFrom.back {n k : Nat} {v v' : View} {base : Nat → Int} (hb : Based n v base)
    (hc : RelyCounts v v') (h : QuietFrom n k v' base) : QuietFrom n k v base := by
  intro i hk hi
  obtain ⟨ht,heq⟩ := h i hk hi
  have htag := hc.untagged ht
  have hle := hb.le i hi htag
  have hle' := hc.count i ht
  exact ⟨htag,by omega⟩

theorem QuietFrom.owners_eq_zero {n : Nat} {v : View} {base : Nat → Int}
    (hb : Based n v base) (ha : v.Accounted n) (h : QuietFrom n 0 v base) :
    v.owners = 0 := by
  have hsum : ∑ i ∈ Finset.range n, v.count i = 0 := by
    rw [← hb.sum]
    exact Finset.sum_congr rfl (fun i hi => (h i (Nat.zero_le i) (Finset.mem_range.mp hi)).2)
  have hacc := ha.sum
  have hcov := ha.covered
  omega

inductive Stage where
  | default | suspect | condemned
  deriving DecidableEq, Repr

/-- Where the reclaimer stands with respect to the object. While it scans the `len`
records, `r` of them are done and `j` slots of the next one are read; `hazard` says
that the object has been found in a slot. -/
inductive Phase where
  | outside
  | scanning (len r j : Nat) (hazard : Prop)
  | pending (hazard : Prop)
  | clearing (k : Nat) (sum : Int)
  | rechecking (k : Nat) (sum : Int)
  | unlinking

def Suspicion (n : Nat) (v : View) (base : Nat → Int) : Phase → Prop
  | .scanning len r j hazard => QuietFrom n 0 v base → ¬ v.source →
      (∀ r', r' < r ∨ len ≤ r' → ¬ v.entering r') ∧
      (∀ r' j', r' < r ∨ r' = r ∧ j' < j ∨ len ≤ r' → v.guard r' j' → hazard)
  | .pending hazard => QuietFrom n 0 v base → ¬ v.source →
      (∀ r', ¬ v.entering r') ∧ (∀ r' j', v.guard r' j' → hazard)
  | .rechecking k sum =>
      ∑ i ∈ Finset.range k, base i ≤ sum ∧
      (sum = ∑ i ∈ Finset.range k, base i → QuietFrom n k v base → v.source ∨ v.Dead)
  | .unlinking => v.source ∨ v.Dead
  | .outside => True
  | .clearing _ _ => True

/-- The shards below `k` have been cleared, `sum` is what was read there. -/
def Clearing (v : View) (k : Nat) (sum : Int) : Prop :=
  ∃ base : Nat → Int, sum = ∑ i ∈ Finset.range k, base i ∧
    ∀ i, i < k → v.tag i = false → base i ≤ v.count i

def Holds (n : Nat) (v : View) : Stage → Phase → Prop
  | .default, .clearing k sum => Clearing v k sum
  | .default, _ => True
  | .suspect, phase => ∃ base, Based n v base ∧ Suspicion n v base phase
  | .condemned, _ => v.Dead

section Stable

variable {n : Nat} {v v' : View}

theorem Clearing.stable {k : Nat} {sum : Int} (h : Clearing v k sum)
    (hc : RelyCounts v v') : Clearing v' k sum := by
  obtain ⟨base,hsum,hle⟩ := h
  exact ⟨base,hsum,fun i hi ht => (hle i hi (hc.untagged ht)).trans (hc.count i ht)⟩

theorem not_alive_of_quiet {base : Nat → Int} (hb : Based n v base) (ha : v.Accounted n)
    (hq : QuietFrom n 0 v base) (hs : ¬ v.source) : ¬ v.Alive := by
  rintro (ho | hs')
  · have := hq.owners_eq_zero hb ha
    omega
  · exact hs hs'

theorem source_or_dead_stable (h : v.source ∨ v.Dead) (hr : Rely v v') :
    v'.source ∨ v'.Dead :=
  h.imp hr.source_stays (fun hd => hd.stable hr)

theorem Suspicion.stable {base : Nat → Int} {phase : Phase} (hb : Based n v base)
    (ha : v.Accounted n) (hr : Rely v v') (hc : RelyCounts v v')
    (h : Suspicion n v base phase) : Suspicion n v' base phase := by
  cases phase with
  | outside => trivial
  | clearing k sum => trivial
  | unlinking => exact source_or_dead_stable h hr
  | rechecking k sum =>
    exact ⟨h.1,fun hsum hq => source_or_dead_stable (h.2 hsum (hq.back hb hc)) hr⟩
  | scanning len r j hazard =>
    intro hq hs
    have hq₀ := hq.back hb hc
    have hs₀ : ¬ v.source := fun hsrc => hs (hr.source_stays hsrc)
    have hdead := not_alive_of_quiet hb ha hq₀ hs₀
    obtain ⟨he,hg⟩ := h hq₀ hs₀
    refine ⟨fun r' hr' he' => ?_,fun r' j' hr' hg' => ?_⟩
    · exact (hr.entering r' he').elim (he r' hr') hdead
    · exact (hr.guard r' j' hg').elim (hg r' j' hr') (fun hal => absurd hal hdead)
  | pending hazard =>
    intro hq hs
    have hq₀ := hq.back hb hc
    have hs₀ : ¬ v.source := fun hsrc => hs (hr.source_stays hsrc)
    have hdead := not_alive_of_quiet hb ha hq₀ hs₀
    obtain ⟨he,hg⟩ := h hq₀ hs₀
    refine ⟨fun r' he' => ?_,fun r' j' hg' => ?_⟩
    · exact (hr.entering r' he').elim (he r') hdead
    · exact (hr.guard r' j' hg').elim (hg r' j') (fun hal => absurd hal hdead)

theorem Holds.stable {stage : Stage} {phase : Phase} (ha : v.Accounted n)
    (hr : Rely v v') (hc : RelyCounts v v') (h : Holds n v stage phase) :
    Holds n v' stage phase := by
  cases stage with
  | default =>
    cases phase with
    | clearing k sum => exact Clearing.stable h hc
    | _ => trivial
  | suspect =>
    obtain ⟨base,hb,hs⟩ := h
    exact ⟨base,hb.stable hc,hs.stable hb ha hr hc⟩
  | condemned => exact View.Dead.stable h hr

end Stable

section Reclaimer

variable {n : Nat} {v v' : View}

theorem Holds.leave {stage : Stage} {phase : Phase} (h : Holds n v stage phase) :
    Holds n v stage .outside := by
  cases stage with
  | default => trivial
  | suspect =>
    obtain ⟨base,hb,-⟩ := h
    exact ⟨base,hb,trivial⟩
  | condemned => exact h

theorem Holds.startScan {stage : Stage} {phase : Phase} {len : Nat}
    (h : Holds n v stage phase) (he : ∀ r, len ≤ r → ¬ v.entering r)
    (hg : ∀ r j, len ≤ r → ¬ v.guard r j) (hazard : Prop) :
    Holds n v stage (.scanning len 0 0 hazard) := by
  cases stage with
  | default => trivial
  | suspect =>
    obtain ⟨base,hb,-⟩ := h
    refine ⟨base,hb,fun _ _ => ⟨fun r hr => he r (by omega),fun r j hr hgr => ?_⟩⟩
    exact absurd hgr (hg r j (by omega))
  | condemned => exact h

theorem Holds.readSlot {stage : Stage} {len r j : Nat} {hazard hazard' : Prop}
    (h : Holds n v stage (.scanning len r j hazard)) (hold : hazard → hazard')
    (hfound : v.guard r j → hazard') : Holds n v stage (.scanning len r (j+1) hazard') := by
  cases stage with
  | default => trivial
  | suspect =>
    obtain ⟨base,hb,hs⟩ := h
    refine ⟨base,hb,fun hq hsrc => ?_⟩
    obtain ⟨he,hg⟩ := hs hq hsrc
    refine ⟨he,fun r' j' hr' hgr => ?_⟩
    by_cases heq : r' = r ∧ j' = j
    · obtain ⟨rfl,rfl⟩ := heq
      exact hfound hgr
    · exact hold (hg r' j' (by omega) hgr)
  | condemned => exact h

theorem Holds.poll {stage : Stage} {len r j : Nat} {hazard : Prop}
    (h : Holds n v stage (.scanning len r j hazard)) (he : ¬ v.entering r)
    (hg : ∀ j', v.guard r j' → j' < j) :
    Holds n v stage (.scanning len (r+1) 0 hazard) := by
  cases stage with
  | default => trivial
  | suspect =>
    obtain ⟨base,hb,hs⟩ := h
    refine ⟨base,hb,fun hq hsrc => ?_⟩
    obtain ⟨he',hg'⟩ := hs hq hsrc
    refine ⟨fun r' hr' => ?_,fun r' j' hr' hgr => ?_⟩
    · by_cases heq : r' = r
      · exact heq ▸ he
      · exact he' r' (by omega)
    · by_cases heq : r' = r
      · subst heq
        exact hg' r' j' (.inr (.inl ⟨rfl,hg j' hgr⟩)) hgr
      · exact hg' r' j' (by omega) hgr
  | condemned => exact h

theorem Holds.endScan {stage : Stage} {len r j : Nat} {hazard : Prop}
    (h : Holds n v stage (.scanning len r j hazard)) (hr : len ≤ r) :
    Holds n v stage (.pending hazard) := by
  cases stage with
  | default => trivial
  | suspect =>
    obtain ⟨base,hb,hs⟩ := h
    refine ⟨base,hb,fun hq hsrc => ?_⟩
    obtain ⟨he,hg⟩ := hs hq hsrc
    exact ⟨fun r' => he r' (by omega),fun r' j' => hg r' j' (by omega)⟩
  | condemned => exact h

theorem clearing_start (v : View) : Clearing v 0 0 :=
  ⟨fun _ => 0,by simp,fun i hi => absurd hi (by omega)⟩

theorem Clearing.extend {k : Nat} {sum : Int} (h : Clearing v k sum)
    (hcount : ∀ i, v'.count i = v.count i) (htag : ∀ i, i ≠ k → v'.tag i = v.tag i) :
    Clearing v' (k+1) (sum + v.count k) := by
  obtain ⟨base,hsum,hle⟩ := h
  refine ⟨Function.update base k (v.count k),?_,fun i hi ht => ?_⟩
  · rw [Finset.sum_range_succ,Function.update_self,hsum]
    congr 1
    refine Finset.sum_congr rfl (fun i hi => ?_)
    rw [Function.update_of_ne (Finset.mem_range.mp hi).ne]
  · rw [hcount i]
    by_cases hik : i = k
    · subst hik
      rw [Function.update_self]
    · rw [Function.update_of_ne hik]
      exact hle i (by omega) (htag i hik ▸ ht)

theorem Clearing.finish (h : Clearing v n 0) : Holds n v .suspect .outside := by
  obtain ⟨base,hsum,hle⟩ := h
  exact ⟨base,⟨hsum.symm,hle⟩,trivial⟩

theorem Holds.startReCheck {hazard : Prop} (h : Holds n v .suspect (.pending hazard))
    (ha : v.Accounted n) (hno : ¬ hazard) : Holds n v .suspect (.rechecking 0 0) := by
  obtain ⟨base,hb,hs⟩ := h
  refine ⟨base,hb,by simp,fun _ hq => ?_⟩
  by_cases hsrc : v.source
  · exact .inl hsrc
  · obtain ⟨he,hg⟩ := hs hq hsrc
    exact .inr ⟨hq.owners_eq_zero hb ha,hsrc,he,fun r j hgr => hno (hg r j hgr)⟩

theorem Holds.reCheck {k : Nat} {sum : Int} (h : Holds n v .suspect (.rechecking k sum))
    (hk : k < n) (ht : v.tag k = false) :
    Holds n v .suspect (.rechecking (k+1) (sum + v.count k)) := by
  obtain ⟨base,hb,hle,hs⟩ := h
  have hk' := hb.le k hk ht
  refine ⟨base,hb,?_,?_⟩ <;> rw [Finset.sum_range_succ]
  · omega
  · intro heq hq
    refine hs (by omega) (fun i hki hi => ?_)
    by_cases hik : i = k
    · subst hik
      exact ⟨ht,by omega⟩
    · exact hq i (by omega) hi

theorem Holds.reCheck_nonneg {sum : Int} (h : Holds n v .suspect (.rechecking n sum)) :
    0 ≤ sum := by
  obtain ⟨base,hb,hle,-⟩ := h
  rwa [hb.sum] at hle

theorem Holds.endReCheck (h : Holds n v .suspect (.rechecking n 0)) :
    Holds n v .suspect .unlinking := by
  obtain ⟨base,hb,-,hs⟩ := h
  exact ⟨base,hb,hs hb.sum.symm (fun i hi hi' => absurd hi (by omega))⟩

theorem Holds.condemn (h : Holds n v .suspect .unlinking) (hno : ¬ v.source)
    (phase : Phase) : Holds n v .condemned phase := by
  obtain ⟨base,-,hs⟩ := h
  exact hs.resolve_left hno

theorem Holds.unlink {phase : Phase} (h : Holds n v .suspect phase)
    (hcount : v'.count = v.count) (htag : v'.tag = v.tag) :
    Holds n v' .suspect .outside := by
  obtain ⟨base,hb,-⟩ := h
  exact ⟨base,⟨hb.sum,by rw [hcount,htag]; exact hb.le⟩,trivial⟩

end Reclaimer

/-- What a re-checking pass has read of an object that was owned when it began: either more
than the clearing pass read, or some shard ahead has been touched. -/
def Doubted (n : Nat) (v : View) (k : Nat) (sum : Int) : Prop :=
  ∃ base, Based n v base ∧ ∑ i ∈ Finset.range k, base i ≤ sum ∧
    (sum = ∑ i ∈ Finset.range k, base i → ¬ QuietFrom n k v base)

section Doubted

variable {n : Nat} {v v' : View} {k : Nat} {sum : Int}

theorem Doubted.start {phase : Phase} (h : Holds n v .suspect phase) (ha : v.Accounted n)
    (ho : 0 < v.owners) : Doubted n v 0 0 := by
  obtain ⟨base,hb,-⟩ := h
  refine ⟨base,hb,by simp,fun _ hq => ?_⟩
  have hzero := hq.owners_eq_zero hb ha
  omega

theorem Doubted.stable (h : Doubted n v k sum) (hc : RelyCounts v v') : Doubted n v' k sum := by
  obtain ⟨base,hb,hle,hdoubt⟩ := h
  exact ⟨base,hb.stable hc,hle,fun heq hq => hdoubt heq (hq.back hb hc)⟩

theorem Doubted.reCheck (h : Doubted n v k sum) (hk : k < n) (ht : v.tag k = false) :
    Doubted n v (k+1) (sum + v.count k) := by
  obtain ⟨base,hb,hle,hdoubt⟩ := h
  have hk' := hb.le k hk ht
  refine ⟨base,hb,?_,?_⟩ <;> rw [Finset.sum_range_succ]
  · omega
  · intro heq hq
    refine hdoubt (by omega) (fun i hki hi => ?_)
    by_cases hik : i = k
    · subst hik
      exact ⟨ht,by omega⟩
    · exact hq i (by omega) hi

theorem Doubted.pos (h : Doubted n v n sum) : 0 < sum := by
  obtain ⟨base,hb,hle,hdoubt⟩ := h
  rw [hb.sum] at hle hdoubt
  have hne : sum ≠ 0 := fun heq => hdoubt heq (fun i hi hi' => absurd hi (by omega))
  omega

end Doubted

end Reclamation
