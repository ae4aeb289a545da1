import Mathlib.Data.Fintype.Card
import Mathlib.Data.Fintype.EquivFin
import Sdarc.Collection.Shallow
set_option autoImplicit false

/-!
A deep collection follows the drops of destructors down to the last garbage, unless a pointee
is left in `RequiresReChecking` with a tag when it starts: that one goes back to the default
state and is not re-checked.
-/

open Sdarc.System

namespace Sdarc.Collection

structure Settling (G : Graph) (S : Std.TreeSet Nat) (c : Collector Memory) : Prop where
  inPlace : InPlace G c []
  state : ∀ p e, p ∈ G.alive c.memory → c.tracked[G.countersPtr p]? = some e →
    e.state = .defaultState ∨ e.state = .requiresReChecking ∧
      G.sum c.memory (G.countersPtr p) = 0 ∧ G.tagged c.memory (G.countersPtr p) = false
  reCheck : ∀ p, p ∈ G.alive c.memory → G.sum c.memory (G.countersPtr p) = 0 →
    G.countersPtr p ∈ S

structure Overlooked (G : Graph) (p : Nat) (S : Std.TreeSet Nat) (c : Collector Memory) :
    Prop where
  inPlace : InPlace G c []
  alive : p ∈ G.alive c.memory
  sum : G.sum c.memory (G.countersPtr p) = 0
  notReChecked : G.countersPtr p ∉ S

section Deep

variable {G : Graph} {c c' : Collector Memory} {S S' : Std.TreeSet Nat} {p : Nat}

theorem InPlace.sum_eq_zero_iff {waiting : List Entry} (h : InPlace G c waiting)
    (hp : p ∈ G.alive c.memory) : G.sum c.memory (G.countersPtr p) = 0 ↔
      G.external p = 0 ∧ G.owners c.memory p = 0 := by
  have := h.balanced.counts p hp
  omega

theorem Pass.settling {todo : List Nat} (h : Pass G todo c c' S') (hc : InPlace G c [])
    (hvisited : ∀ p e, p ∈ G.alive c.memory → c.tracked[G.countersPtr p]? = some e →
      G.countersPtr p ∈ todo → e.state = .requiresReChecking →
      G.sum c.memory (G.countersPtr p) = 0 → G.tagged c.memory (G.countersPtr p) = false)
    (hrest : ∀ p e, p ∈ G.alive c.memory → c.tracked[G.countersPtr p]? = some e →
      G.countersPtr p ∉ todo →
      e.state = .defaultState ∧ G.sum c.memory (G.countersPtr p) ≠ 0) :
    Settling G S' c' := by
  have hc' := h.inPlace hc
  -- a sum that has become zero has done so by a drop in a destructor
  have hdropped : ∀ p, p ∈ G.alive c'.memory → G.sum c.memory (G.countersPtr p) ≠ 0 →
      G.sum c'.memory (G.countersPtr p) = 0 → G.countersPtr p ∈ S' := by
    intro p hp hne hzero
    have hold := h.subset hp
    obtain ⟨hexternal,howners'⟩ := (hc'.sum_eq_zero_iff hp).mp hzero
    have howners : G.owners c.memory p ≠ 0 := fun hz =>
      hne ((hc.sum_eq_zero_iff hold).mpr ⟨hexternal,hz⟩)
    obtain ⟨q,hq,hpq⟩ : ∃ q, q ∈ G.alive c.memory ∧ p ∈ G.fields q := by
      by_contra hnone
      exact howners (owners_eq_zero_iff.mpr (fun q hq hpq => hnone ⟨q,hq,hpq⟩))
    have hgone : q ∉ G.alive c'.memory := fun hq' => owners_eq_zero_iff.mp howners' q hq' hpq
    exact (h.reCheck _).mpr (.inr ⟨q,p,hq,hgone,hpq,rfl⟩)
  -- a visited pointee that is not freed
  have hnext : ∀ p e, p ∈ G.alive c'.memory → c.tracked[G.countersPtr p]? = some e →
      G.countersPtr p ∈ todo → G.next c (G.countersPtr p) e = .defaultState ∧
        G.sum c.memory (G.countersPtr p) ≠ 0 ∨
      G.next c (G.countersPtr p) e = .requiresReChecking ∧
        G.sum c.memory (G.countersPtr p) = 0 ∧ G.tagged c'.memory (G.countersPtr p) = false := by
    intro p e hp he htodo
    have hold := h.subset hp
    have halive := ((h.alive p).mp hp).2
    cases hs : e.state with
    | readyToFree => exact absurd hs (hc.notReady _ e he)
    | defaultState =>
      by_cases hsum : G.sum c.memory (G.countersPtr p) = 0
      · refine .inr ⟨by simp [Graph.next,hs,hsum],hsum,?_⟩
        have hunowned := owners_eq_zero_iff.mp ((hc.sum_eq_zero_iff hold).mp hsum).2
        by_contra hnot
        have htag := h.tagged p hp (fun q hq _ => hunowned q hq) (by simpa using hnot)
        exact htag.2 ⟨htodo,e,he,hs,hsum⟩
      · exact .inl ⟨by simp [Graph.next,hs,hsum],hsum⟩
    | requiresReChecking =>
      by_cases hsum : G.sum c.memory (G.countersPtr p) = 0
      · have huntagged := hvisited p e hold he htodo hs hsum
        have hunowned := owners_eq_zero_iff.mp ((hc.sum_eq_zero_iff hold).mp hsum).2
        have hlinked : c.weakRefs e.pointee = .linked := by
          by_contra hnot
          refine halive ⟨htodo,e,he,?_⟩
          simp [Graph.next,hs,huntagged,hsum,hnot]
        refine .inr ⟨by simp [Graph.next,hs,huntagged,hsum,hlinked],hsum,?_⟩
        by_contra hnot
        have htag := (h.tagged p hp (fun q hq _ => hunowned q hq) (by simpa using hnot)).1
        rw [huntagged] at htag
        contradiction
      · refine .inl ⟨?_,hsum⟩
        simp only [Graph.next,hs,hsum,if_false]
        split <;> rfl
  refine ⟨hc',fun p e' hp he' => ?_,fun p hp hzero => ?_⟩
  · obtain ⟨e,he,-⟩ := hc.tracked (h.subset hp)
    rw [h.tracked p hp] at he'
    by_cases htodo : G.countersPtr p ∈ todo
    · rw [if_pos htodo,he] at he'
      obtain rfl := Option.some.inj he'
      rcases hnext p e hp he htodo with ⟨hn,-⟩ | ⟨hn,hsum,huntagged⟩
      · exact .inl hn
      · refine .inr ⟨hn,?_,huntagged⟩
        obtain ⟨hexternal,howners⟩ := (hc.sum_eq_zero_iff (h.subset hp)).mp hsum
        have hle := owners_le h.subset p
        exact (hc'.sum_eq_zero_iff hp).mpr ⟨hexternal,by omega⟩
    · rw [if_neg htodo] at he'
      exact .inl (hrest p e' (h.subset hp) he' htodo).1
  · obtain ⟨e,he,-⟩ := hc.tracked (h.subset hp)
    by_cases htodo : G.countersPtr p ∈ todo
    · rcases hnext p e hp he htodo with ⟨-,hne⟩ | ⟨hn,-,-⟩
      · exact hdropped p hp hne hzero
      · exact (h.reCheck _).mpr (.inl ⟨htodo,e,he,hn⟩)
    · exact hdropped p hp (hrest p e (h.subset hp) he htodo).2 hzero

theorem Pass.overlooked {todo : List Nat} (h : Pass G todo c c' S') (hc : InPlace G c [])
    (hp : p ∈ G.alive c.memory) (hsum : G.sum c.memory (G.countersPtr p) = 0)
    (hdefault : G.countersPtr p ∈ todo → ∃ e, c.tracked[G.countersPtr p]? = some e ∧
      G.next c (G.countersPtr p) e = .defaultState) : Overlooked G p S' c' := by
  have hc' := h.inPlace hc
  have halive : p ∈ G.alive c'.memory := by
    refine (h.alive p).mpr ⟨hp,?_⟩
    rintro ⟨htodo,e,he,hn⟩
    obtain ⟨e',he',hn'⟩ := hdefault htodo
    rw [he] at he'
    obtain rfl := Option.some.inj he'
    rw [hn] at hn'
    contradiction
  obtain ⟨hexternal,howners⟩ := (hc.sum_eq_zero_iff hp).mp hsum
  have hle := owners_le h.subset p
  refine ⟨hc',halive,(hc'.sum_eq_zero_iff halive).mpr ⟨hexternal,by omega⟩,fun hS => ?_⟩
  rcases (h.reCheck _).mp hS with ⟨htodo,e,he,hn⟩ | ⟨q,r,hq,-,hr,hrp⟩
  · obtain ⟨e',he',hn'⟩ := hdefault htodo
    rw [he] at he'
    obtain rfl := Option.some.inj he'
    rw [hn] at hn'
    contradiction
  · have hrp : r = p := G.countersPtr_inj r p (G.fields_mem q r (mem_alive.mp hq).1 hr)
      (mem_alive.mp hp).1 hrp
    exact owners_eq_zero_iff.mp howners q hq (hrp ▸ hr)

theorem reCheckLoop_invariant {M : Type} {env : Environment M}
    (P : Std.TreeSet Nat → Collector M → Prop)
    (hstep : ∀ S c, P S c → ∃ S' c', env.updateSpecificCounters S c = .ok (S',c') ∧ P S' c')
    (remaining : Nat) :
    ∀ (loopCounter : Nat) {S : Std.TreeSet Nat} {c : Collector M}, P S c →
      ∃ last c', env.reCheckLoop remaining loopCounter S c = .ok (last,c') ∧
        P last.toReCheck c' := by
  induction remaining with
  | zero => exact fun _ _ _ h => ⟨_,_,rfl,h⟩
  | succ remaining ih =>
    intro loopCounter S c h
    cases hempty : S.isEmpty with
    | true =>
      refine ⟨⟨loopCounter,S⟩,c,?_,h⟩
      simp only [Environment.reCheckLoop,hempty,if_true]
    | false =>
      obtain ⟨S',c',hupdate,h'⟩ := hstep S c h
      obtain ⟨last,c'',hloop,hlast⟩ := ih (loopCounter + 1) h'
      refine ⟨last,c'',?_,hlast⟩
      simp only [Environment.reCheckLoop,hempty,Bool.false_eq_true,if_false,hupdate]
      exact hloop

theorem toList_nodup (S : Std.TreeSet Nat) : S.toList.Nodup :=
  Std.TreeSet.distinct_toList.imp fun hne heq => hne (by simp [heq])

theorem Settling.step (h : Settling G S c) :
    ∃ S' c', G.quiet.updateSpecificCounters S c = .ok (S',c') ∧ Settling G S' c' := by
  obtain ⟨S',c',hiter,hpass⟩ := innerIteration_quiet _ (toList_nodup S) h.inPlace.balanced
    h.inPlace.tracksAlive h.inPlace.notReady
  refine ⟨S',c',hiter,hpass.settling h.inPlace (fun p e hp he _ hs _ => ?_)
    (fun p e hp he htodo => ?_)⟩
  · rcases h.state p e hp he with hd | ⟨-,-,huntagged⟩
    · rw [hs] at hd
      contradiction
    · exact huntagged
  · have hne : G.sum c.memory (G.countersPtr p) ≠ 0 :=
      fun hzero => htodo (by simpa using h.reCheck p hp hzero)
    rcases h.state p e hp he with hd | ⟨-,hzero,-⟩
    · exact ⟨hd,hne⟩
    · exact absurd hzero hne

theorem Overlooked.step (h : Overlooked G p S c) :
    ∃ S' c', G.quiet.updateSpecificCounters S c = .ok (S',c') ∧ Overlooked G p S' c' := by
  obtain ⟨S',c',hiter,hpass⟩ := innerIteration_quiet _ (toList_nodup S) h.inPlace.balanced
    h.inPlace.tracksAlive h.inPlace.notReady
  refine ⟨S',c',hiter,hpass.overlooked h.inPlace h.alive h.sum (fun htodo => ?_)⟩
  exact absurd (by simpa using htodo) h.notReChecked

end Deep

namespace Graph

/-- No pointee owns itself, directly or through others. -/
def Acyclic (G : Graph) : Prop :=
  ∀ p, p ∈ G.nodes → ¬ Relation.TransGen (fun q r => r ∈ G.fields q) p p

/-- The pointee is in `RequiresReChecking` with a tag, and its counters add up to zero. -/
def Stale (G : Graph) (c : Collector Memory) (p : Nat) : Prop :=
  (∃ e, c.tracked[G.countersPtr p]? = some e ∧ e.state = .requiresReChecking) ∧
    G.tagged c.memory (G.countersPtr p) = true ∧ G.sum c.memory (G.countersPtr p) = 0

end Graph

section Complete

variable {G : Graph} {c c' : Collector Memory} {S : Std.TreeSet Nat} {p : Nat}

theorem InPlace.unreachable {waiting : List Entry} (h : InPlace G c waiting)
    (hp : p ∈ G.alive c.memory) (hsum : G.sum c.memory (G.countersPtr p) = 0) :
    ¬ G.Reachable p := by
  obtain ⟨hexternal,howners⟩ := (h.sum_eq_zero_iff hp).mp hsum
  intro hr
  cases hr with
  | root _ _ hpos => omega
  | field _ q hq hpq =>
    have hqalive := mem_alive.mpr (h.balanced.not_freed hq)
    exact owners_eq_zero_iff.mp howners q hqalive hpq

theorem Settling.reachable (h : Settling G S c) (hS : S.isEmpty = true)
    (hacyclic : G.Acyclic) (hp : p ∈ G.alive c.memory) : G.Reachable p := by
  let owns : {q // q ∈ G.alive c.memory} → {q // q ∈ G.alive c.memory} → Prop :=
    fun q r => Relation.TransGen (fun q r => r ∈ G.fields q) q.1 r.1
  have htrans : IsTrans _ owns := ⟨fun _ _ _ h₁ h₂ => h₁.trans h₂⟩
  have hirrefl : Std.Irrefl owns := ⟨fun q => hacyclic q.1 (mem_alive.mp q.2).1⟩
  have hwf := Finite.wellFounded_of_trans_of_irrefl owns
  -- by induction along ownership, from the owners down
  have hall : ∀ q : {q // q ∈ G.alive c.memory}, G.Reachable q.1 := by
    intro q
    induction q using hwf.induction with
    | _ q ih =>
      obtain ⟨q,hq⟩ := q
      by_contra hnot
      have hexternal : G.external q = 0 := by
        by_contra hne
        exact hnot (.root q (mem_alive.mp hq).1 (Nat.pos_of_ne_zero hne))
      have howners : G.owners c.memory q = 0 := by
        refine owners_eq_zero_iff.mpr (fun r hr hqr => ?_)
        exact hnot (.field q r (ih ⟨r,hr⟩ (.single hqr)) hqr)
      have hmem := h.reCheck q hq ((h.inPlace.sum_eq_zero_iff hq).mpr ⟨hexternal,howners⟩)
      exact Std.TreeSet.isEmpty_iff_forall_not_mem.mp hS _ hmem
  exact hall ⟨p,hp⟩

/-- A deep collection that ends with nothing to re-check has freed all garbage, each pointee
once with its slot given back, exactly if no pointee was stale when it began. -/
theorem deep_collection_complete_iff (G : Graph) (c : Collector Memory) (cap : Nat)
    (h : InPlace G c (G.waiting c.memory)) (hfresh : c.memory.freed = [])
    (hacyclic : G.Acyclic) {last : Environment.LoopEnd}
    (hrun : G.quiet.update cap true c = .ok (last,c'))
    (hend : last.toReCheck.isEmpty = true) :
    (∀ p, p ∈ G.nodes → ¬ G.Reachable p → c'.memory.freed.count p = 1 ∧
      c'.memory.usageFlags (G.countersPtr p) = false) ↔
    ∀ p, p ∈ G.nodes → ¬ G.Stale c p := by
  obtain ⟨c₁,htake,hin,htaken,-⟩ := takeNewCountersToTrack_quiet h
  obtain ⟨S,c₂,hiter,hpass⟩ := innerIteration_quiet c₁.tracked.keys
    Std.TreeMap.nodup_keys hin.balanced hin.tracksAlive hin.notReady
  simp only [Environment.update,htake,Environment.doCollectionInnerIterations,
    Environment.updateAllTrackedCounters,hiter,if_true] at hrun
  have hcounters : c₁.memory.counters = c.memory.counters := by rw [htaken.memory]
  have halive : ∀ p, p ∈ G.nodes → p ∈ G.alive c₁.memory := by
    intro p hp
    have hfreed : c₁.memory.freed = [] := by rw [htaken.memory,hfresh]
    exact mem_alive.mpr ⟨hp,by simp [hfreed]⟩
  have htodo : ∀ p e, c₁.tracked[G.countersPtr p]? = some e →
      G.countersPtr p ∈ c₁.tracked.keys := by
    intro p e he
    rw [Std.TreeMap.mem_keys]
    exact Std.TreeMap.mem_iff_isSome_getElem?.mpr (by simp [he])
  have hsum : ∀ key, G.sum c₁.memory key = G.sum c.memory key :=
    fun key => by simp only [Graph.sum,hcounters]
  have htagged : ∀ key, G.tagged c₁.memory key = G.tagged c.memory key :=
    fun key => by simp only [Graph.tagged,hcounters]
  constructor
  · rintro hall p hp ⟨⟨e,he,hs⟩,htag,hzero⟩
    have he₁ := htaken.old _ e he
    have hover : Overlooked G p S c₂ := hpass.overlooked hin (halive p hp)
      ((hsum _).trans hzero) (fun _ => ⟨e,he₁,by simp [Graph.next,hs,htagged,htag]⟩)
    obtain ⟨last',c'',hloop,hover'⟩ := reCheckLoop_invariant
      (fun S c => Overlooked G p S c) (fun _ _ ho => ho.step) cap 0 hover
    obtain ⟨-,rfl⟩ := Prod.mk.inj (Except.ok.inj (hrun.symm.trans hloop))
    have hunreachable := hover'.inPlace.unreachable hover'.alive hover'.sum
    have hfreed := (hall p hp hunreachable).1
    rw [List.count_eq_zero.mpr (mem_alive.mp hover'.alive).2] at hfreed
    omega
  · intro hstale p hp hunreachable
    have hsettling : Settling G S c₂ := by
      refine hpass.settling hin (fun q e hq he _ hs hzero => ?_) (fun q e _ he hnot => ?_)
      · by_contra htag
        rcases htaken.new _ e he with hold | ⟨-,hd⟩
        · refine hstale q (mem_alive.mp hq).1 ⟨⟨e,hold,hs⟩,?_,(hsum _).symm.trans hzero⟩
          rw [← htagged]
          simpa using htag
        · rw [hs] at hd
          contradiction
      · exact absurd (htodo q e he) hnot
    obtain ⟨last',c'',hloop,hsettling'⟩ := reCheckLoop_invariant
      (fun S c => Settling G S c) (fun _ _ hs => hs.step) cap 0 hsettling
    obtain ⟨rfl,rfl⟩ := Prod.mk.inj (Except.ok.inj (hrun.symm.trans hloop))
    have hbalanced := hsettling'.inPlace.balanced
    have hfreed : p ∈ c'.memory.freed := by
      by_contra hnot
      exact hunreachable (hsettling'.reachable hend hacyclic (mem_alive.mpr ⟨hp,hnot⟩))
    exact ⟨List.count_eq_one_of_mem hbalanced.freedNodup hfreed,hbalanced.released p hfreed⟩

end Complete

theorem twoNodes_acyclic : twoNodes.Acyclic := by
  have hless : ∀ p q, Relation.TransGen (fun q r => r ∈ twoNodes.fields q) p q → p = 0 ∧ q = 1 := by
    intro p q hpq
    have hone : ∀ p q, q ∈ twoNodes.fields p → p = 0 ∧ q = 1 := by
      intro p q hq
      simp only [twoNodes] at hq
      split at hq
      · exact ⟨‹p = 0›,by simpa using hq⟩
      · simp at hq
    induction hpq with
    | single hq => exact hone _ _ hq
    | tail _ hq ih => exact ⟨ih.1,(hone _ _ hq).2⟩
  intro p _ hpp
  have := hless p p hpp
  omega

theorem twoTracked_deep :
    ∃ last c', twoNodes.quiet.update MAX_INNER_ITERATIONS true (twoTracked .defaultState true) =
        .ok (last,c') ∧ c'.memory.freed.count 0 = 1 ∧ c'.memory.freed.count 1 = 1 := by
  have hend : (match twoNodes.quiet.update MAX_INNER_ITERATIONS true
        (twoTracked .defaultState true) with
      | .ok (last,_) => last.toReCheck.isEmpty
      | .error _ => false) = true := by decide +kernel
  have hfresh : ∀ p, p ∈ twoNodes.nodes → ¬ twoNodes.Stale (twoTracked .defaultState true) p := by
    rintro p - ⟨⟨e,he,hs⟩,-⟩
    rw [twoTracked_get] at he
    split at he
    · obtain rfl := Option.some.inj he
      contradiction
    · split at he
      · obtain rfl := Option.some.inj he
        contradiction
      · contradiction
  cases hrun : twoNodes.quiet.update MAX_INNER_ITERATIONS true
      (twoTracked .defaultState true) with
  | error site => simp [hrun] at hend
  | ok r =>
    obtain ⟨last,c'⟩ := r
    rw [hrun] at hend
    have hfreed := (deep_collection_complete_iff twoNodes (twoTracked .defaultState true)
      MAX_INNER_ITERATIONS (twoTracked_inPlace true (by simp)) rfl twoNodes_acyclic hrun
      hend).mpr hfresh
    exact ⟨last,c',rfl,(hfreed 0 (by decide) (twoNodes_unreachable 0)).1,
      (hfreed 1 (by decide) (twoNodes_unreachable 1)).1⟩

/-- The first node has been left in `RequiresReChecking` and then tagged: a deep collection
puts it back into the default state and ends. -/
theorem staleRoot_not_freed :
    ¬ ∀ (G : Graph) (c : Collector Memory) (last : Environment.LoopEnd) (c' : Collector Memory),
      InPlace G c (G.waiting c.memory) → c.memory.freed = [] → G.Acyclic →
      G.quiet.update MAX_INNER_ITERATIONS true c = .ok (last,c') →
      last.toReCheck.isEmpty = true →
      ∀ p, p ∈ G.nodes → ¬ G.Reachable p → c'.memory.freed.count p = 1 ∧
        c'.memory.usageFlags (G.countersPtr p) = false := by
  intro hall
  have hend : (match twoNodes.quiet.update MAX_INNER_ITERATIONS true
        (twoTracked .requiresReChecking true) with
      | .ok (last,c') => last.toReCheck.isEmpty && c'.memory.freed.isEmpty
      | .error _ => false) = true := by decide +kernel
  cases hrun : twoNodes.quiet.update MAX_INNER_ITERATIONS true
      (twoTracked .requiresReChecking true) with
  | error site => simp [hrun] at hend
  | ok r =>
    obtain ⟨last,c'⟩ := r
    rw [hrun] at hend
    obtain ⟨hlast,hfreed⟩ := Bool.and_eq_true_iff.mp hend
    have hcount := (hall twoNodes _ last c' (twoTracked_inPlace true (by simp)) rfl
      twoNodes_acyclic hrun hlast 0 (by decide) (twoNodes_unreachable 0)).1
    rw [List.isEmpty_iff.mp hfreed] at hcount
    simp at hcount

end Sdarc.Collection
