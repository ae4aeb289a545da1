import Mathlib.Algebra.BigOperators.Group.Finset.Basic
import Sdarc.Collection.Quiet
set_option autoImplicit false

/-!
What the counters add up to while pointees are freed: each pointee is counted for its
external handles and for the fields of the pointees that are still there.
-/

open Sdarc.System

namespace Sdarc.Collection

namespace Graph

variable (G : Graph)

def alive (m : Memory) : Finset Nat := G.nodes.filter (fun p => p ∉ m.freed)

def owners (m : Memory) (p : Nat) : Nat := ∑ q ∈ G.alive m, (G.fields q).count p

end Graph

structure Balanced (G : Graph) (m : Memory) : Prop where
  counts : ∀ p, p ∈ G.alive m →
    G.sum m (G.countersPtr p) = (G.external p : Int) + G.owners m p
  unowned : ∀ p q, p ∈ m.freed → q ∈ G.alive m → p ∉ G.fields q
  external : ∀ p, p ∈ m.freed → G.external p = 0
  released : ∀ p, p ∈ m.freed → m.usageFlags (G.countersPtr p) = false
  freedMem : ∀ p, p ∈ m.freed → p ∈ G.nodes
  freedNodup : m.freed.Nodup

/-- What has become of the counters of `m₀`: each has lost as many references as have been
dropped there, and a tag is old or comes with one of these drops. -/
structure Logged (G : Graph) (m₀ m : Memory) : Prop where
  refCount : ∀ p k, p ∈ G.nodes → (m.counters (G.countersPtr p) k).refCount =
    (m₀.counters (G.countersPtr p) k).refCount - m.drops.count (p,k)
  tag : ∀ p k, p ∈ G.nodes → (m.counters (G.countersPtr p) k).tag = true →
    (m₀.counters (G.countersPtr p) k).tag = true ∨ (p,k) ∈ m.drops
  drops : (m.drops.map Prod.fst).Perm (m.freed.flatMap G.fields)

section Drops

variable {G : Graph} {m m₀ : Memory} {p q key : Nat}

theorem mem_alive : p ∈ G.alive m ↔ p ∈ G.nodes ∧ p ∉ m.freed := by simp [Graph.alive]

theorem countersPtr_ne (hp : p ∈ G.nodes) (hq : q ∈ G.nodes) (hne : p ≠ q) :
    G.countersPtr p ≠ G.countersPtr q :=
  fun heq => hne (G.countersPtr_inj p q hp hq heq)

theorem dropSdarc_counters_of_ne (h : key ≠ G.countersPtr p) :
    (G.dropSdarc m p).counters key = m.counters key := Function.update_of_ne h _ _

theorem sum_dropSdarc : G.sum (G.dropSdarc m p) (G.countersPtr p) =
    G.sum m (G.countersPtr p) - 1 := by
  have hupdate := Transition.sum_update (fun _ (v : Counter) => v.refCount)
    (m.counters (G.countersPtr p)) (G.currShard_lt m.drops.length)
    (m.counters (G.countersPtr p) (G.currShard m.drops.length)).decrementAndSetTag
  simp only [Graph.sum,Graph.dropSdarc,Function.update_self]
  simp only [Counter.decrementAndSetTag] at hupdate ⊢
  omega

theorem sum_dropFields (ps : List Nat) (hps : ∀ q, q ∈ ps → q ∈ G.nodes) (hp : p ∈ G.nodes) :
    ∀ m, G.sum (G.dropFields ps m) (G.countersPtr p) =
      G.sum m (G.countersPtr p) - ps.count p := by
  induction ps with
  | nil => simp [Graph.dropFields]
  | cons q ps ih =>
    intro m
    rw [Graph.dropFields,ih (fun q' hq' => hps q' (List.mem_cons_of_mem _ hq'))]
    by_cases hqp : q = p
    · subst hqp
      rw [sum_dropSdarc,List.count_cons_self]
      omega
    · have hne := countersPtr_ne hp (hps q List.mem_cons_self) (Ne.symm hqp)
      rw [List.count_cons_of_ne hqp]
      simp only [Graph.sum,dropSdarc_counters_of_ne hne]

theorem dropFields_counters {ps : List Nat} (h : ∀ q, q ∈ ps → G.countersPtr q ≠ key) :
    ∀ m, (G.dropFields ps m).counters key = m.counters key := by
  induction ps with
  | nil => exact fun _ => rfl
  | cons q ps ih =>
    intro m
    rw [Graph.dropFields,ih (fun q' hq' => h q' (List.mem_cons_of_mem _ hq')),
      dropSdarc_counters_of_ne (Ne.symm (h q List.mem_cons_self))]

theorem dropFields_rest (ps : List Nat) : ∀ m, (G.dropFields ps m).pending = m.pending ∧
    (G.dropFields ps m).usageFlags = m.usageFlags ∧ (G.dropFields ps m).freed = m.freed := by
  induction ps with
  | nil => exact fun _ => ⟨rfl,rfl,rfl⟩
  | cons q ps ih => exact fun m => ih (G.dropSdarc m q)

theorem free_rest (m : Memory) (p : Nat) : (G.free m p).pending = m.pending ∧
    (G.free m p).usageFlags = Function.update m.usageFlags (G.countersPtr p) false ∧
    (G.free m p).freed = p :: m.freed := dropFields_rest _ _

theorem owners_eq_zero_iff : G.owners m p = 0 ↔ ∀ q, q ∈ G.alive m → p ∉ G.fields q := by
  simp [Graph.owners,Finset.sum_eq_zero_iff,List.count_eq_zero]

theorem Balanced.free (h : Balanced G m) (hp : p ∈ G.alive m)
    (hzero : G.sum m (G.countersPtr p) = 0) : Balanced G (G.free m p) := by
  obtain ⟨hpending,hflags,hfreed⟩ := free_rest (G := G) m p
  obtain ⟨hnode,hnot⟩ := mem_alive.mp hp
  have hcount := h.counts p hp
  have hexternal : G.external p = 0 := by omega
  have hnone : G.owners m p = 0 := by omega
  have hunowned := owners_eq_zero_iff.mp hnone
  have halive : G.alive (G.free m p) = (G.alive m).erase p := by
    ext q
    simp only [mem_alive,hfreed,List.mem_cons,Finset.mem_erase,not_or]
    tauto
  refine ⟨fun q hq => ?_,fun q r hq hr => ?_,fun q hq => ?_,fun q hq => ?_,fun q hq => ?_,?_⟩
  · rw [halive] at hq
    obtain ⟨hqp,hq⟩ := Finset.mem_erase.mp hq
    have hsum := sum_dropFields (G.fields p) (fun r hr => G.fields_mem p r hnode hr)
      (mem_alive.mp hq).1 { m with
        freed := p :: m.freed
        usageFlags := Function.update m.usageFlags (G.countersPtr p) false }
    have howners : (G.owners m q : Int) =
        (G.fields p).count q + G.owners (G.free m p) q := by
      rw [Graph.owners,Graph.owners,halive,← Finset.add_sum_erase _ _ hp]
      push_cast
      rfl
    have hcount := h.counts q hq
    change G.sum (G.free m p) (G.countersPtr q) = G.sum m (G.countersPtr q) - _ at hsum
    omega
  · rw [halive] at hr
    have hold := Finset.mem_of_mem_erase hr
    rw [hfreed] at hq
    rcases List.mem_cons.mp hq with rfl | hq
    · exact hunowned r hold
    · exact h.unowned q r hq hold
  · rw [hfreed] at hq
    rcases List.mem_cons.mp hq with rfl | hq
    · exact hexternal
    · exact h.external q hq
  · rw [hfreed] at hq
    rw [hflags]
    rcases List.mem_cons.mp hq with rfl | hq
    · exact Function.update_self _ _ _
    · have hqp : q ≠ p := fun heq => hnot (heq ▸ hq)
      rw [Function.update_of_ne (countersPtr_ne (h.freedMem q hq) hnode hqp)]
      exact h.released q hq
  · rw [hfreed] at hq
    rcases List.mem_cons.mp hq with rfl | hq
    · exact hnode
    · exact h.freedMem q hq
  · rw [hfreed]
    exact List.nodup_cons.mpr ⟨hnot,h.freedNodup⟩

theorem dropFields_logged (ps : List Nat) (hps : ∀ q, q ∈ ps → q ∈ G.nodes) :
    ∀ m, (∀ q k, q ∈ G.nodes → (m.counters (G.countersPtr q) k).refCount =
        (m₀.counters (G.countersPtr q) k).refCount - m.drops.count (q,k)) →
      (∀ q k, q ∈ G.nodes → (m.counters (G.countersPtr q) k).tag = true →
        (m₀.counters (G.countersPtr q) k).tag = true ∨ (q,k) ∈ m.drops) →
      (∀ q k, q ∈ G.nodes → ((G.dropFields ps m).counters (G.countersPtr q) k).refCount =
        (m₀.counters (G.countersPtr q) k).refCount - (G.dropFields ps m).drops.count (q,k)) ∧
      (∀ q k, q ∈ G.nodes → ((G.dropFields ps m).counters (G.countersPtr q) k).tag = true →
        (m₀.counters (G.countersPtr q) k).tag = true ∨ (q,k) ∈ (G.dropFields ps m).drops) ∧
      ((G.dropFields ps m).drops.map Prod.fst).Perm (ps ++ m.drops.map Prod.fst) := by
  induction ps with
  | nil => exact fun m hcount htag => ⟨hcount,htag,.refl _⟩
  | cons p ps ih =>
    intro m hcount htag
    have hp := hps p List.mem_cons_self
    have hother : ∀ q k, q ∈ G.nodes → ¬ (p = q ∧ G.currShard m.drops.length = k) →
        (G.dropSdarc m p).counters (G.countersPtr q) k = m.counters (G.countersPtr q) k := by
      intro q k hq hne
      by_cases hqp : q = p
      · subst hqp
        have hk : k ≠ G.currShard m.drops.length := fun heq => hne ⟨rfl,heq.symm⟩
        simp [Graph.dropSdarc,hk]
      · rw [dropSdarc_counters_of_ne (countersPtr_ne hq hp hqp)]
    have hself : (G.dropSdarc m p).counters (G.countersPtr p) (G.currShard m.drops.length) =
        (m.counters (G.countersPtr p) (G.currShard m.drops.length)).decrementAndSetTag := by
      simp [Graph.dropSdarc]
    have hdrops : (G.dropSdarc m p).drops = (p,G.currShard m.drops.length) :: m.drops := rfl
    obtain ⟨hcount',htag',hperm⟩ := ih (fun q hq => hps q (List.mem_cons_of_mem _ hq))
      (G.dropSdarc m p) (fun q k hq => by
        rw [hdrops]
        by_cases heq : p = q ∧ G.currShard m.drops.length = k
        · obtain ⟨rfl,rfl⟩ := heq
          have := hcount p (G.currShard m.drops.length) hq
          rw [hself,List.count_cons_self]
          simp only [Counter.decrementAndSetTag]
          omega
        · rw [hother q k hq heq,List.count_cons_of_ne (by simpa using heq)]
          exact hcount q k hq)
      (fun q k hq htagged => by
        rw [hdrops]
        by_cases heq : p = q ∧ G.currShard m.drops.length = k
        · obtain ⟨rfl,rfl⟩ := heq
          exact .inr List.mem_cons_self
        · rw [hother q k hq heq] at htagged
          exact (htag q k hq htagged).imp id (List.mem_cons_of_mem _))
    refine ⟨hcount',htag',hperm.trans ?_⟩
    rw [hdrops,List.map_cons,List.cons_append]
    exact List.perm_middle

theorem Logged.free (h : Logged G m₀ m) (hp : p ∈ G.nodes) : Logged G m₀ (G.free m p) := by
  obtain ⟨hcount,htag,hperm⟩ := dropFields_logged (G.fields p)
    (fun q hq => G.fields_mem p q hp hq) { m with
      freed := p :: m.freed
      usageFlags := Function.update m.usageFlags (G.countersPtr p) false } h.refCount h.tag
  refine ⟨hcount,htag,hperm.trans ?_⟩
  rw [(free_rest m p).2.2,List.flatMap_cons]
  exact List.Perm.append_left _ h.drops

end Drops

def Graph.TracksAlive (G : Graph) (c : Collector Memory) : Prop :=
  ∀ (key : Nat) e, c.tracked[key]? = some e →
    e.pointee ∈ G.alive c.memory ∧ G.countersPtr e.pointee = key

/-- What `free_pointers` makes of `c`, with the keys `toFree` of pointees without owners. -/
structure Freed (G : Graph) (toFree : List Nat) (c c' : Collector Memory)
    (toReCheck toReCheck' : List Nat) : Prop where
  balanced : Balanced G c'.memory
  logged : ∀ m₀, Logged G m₀ c.memory → Logged G m₀ c'.memory
  pending : c'.memory.pending = c.memory.pending
  tracked : ∀ key : Nat, c'.tracked[key]? = if key ∈ toFree then none else c.tracked[key]?
  weakRefs : c'.weakRefs = c.weakRefs
  alive : ∀ p, p ∈ G.alive c'.memory ↔ p ∈ G.alive c.memory ∧ G.countersPtr p ∉ toFree
  counters : ∀ key, (∀ p q, p ∈ G.alive c.memory → G.countersPtr p ∈ toFree → q ∈ G.fields p →
    G.countersPtr q ≠ key) → c'.memory.counters key = c.memory.counters key
  dropped : ∀ key, key ∈ toReCheck' ↔ key ∈ toReCheck ∨ ∃ p q, p ∈ G.alive c.memory ∧
    G.countersPtr p ∈ toFree ∧ q ∈ G.fields p ∧ G.countersPtr q = key

section Freed

variable {G : Graph}

theorem freePointers_quiet {toFree : List Nat} :
    ∀ {c : Collector Memory} (toReCheck : List Nat), Balanced G c.memory → G.TracksAlive c →
      toFree.Nodup → (∀ key : Nat, key ∈ toFree → ∃ e, c.tracked[key]? = some e ∧
        e.state = .readyToFree ∧ G.sum c.memory key = 0) →
      ∃ c' toReCheck', G.quiet.freePointers toFree c toReCheck = .ok (c',toReCheck') ∧
        Freed G toFree c c' toReCheck toReCheck' := by
  induction toFree with
  | nil =>
    intro c toReCheck hbalanced _ _ _
    exact ⟨c,toReCheck,rfl,hbalanced,fun _ h => h,rfl,by simp,rfl,by simp,fun _ _ => rfl,by simp⟩
  | cons key toFree ih =>
    intro c toReCheck hbalanced htracks hnodup hready
    obtain ⟨hnot,hrest⟩ := List.nodup_cons.mp hnodup
    obtain ⟨e,he,hstate,hzero⟩ := hready key List.mem_cons_self
    obtain ⟨hp,hkey⟩ := htracks key e he
    have hnode := (mem_alive.mp hp).1
    have hcount := hbalanced.counts e.pointee hp
    rw [hkey,hzero] at hcount
    have hunowned : ∀ q, q ∈ G.alive c.memory → e.pointee ∉ G.fields q :=
      owners_eq_zero_iff.mp (by omega)
    obtain ⟨hpending,-,hfreed⟩ := free_rest (G := G) c.memory e.pointee
    have halive : ∀ q, q ∈ G.alive (G.free c.memory e.pointee) ↔
        q ∈ G.alive c.memory ∧ G.countersPtr q ≠ key := by
      intro q
      rw [mem_alive,mem_alive,hfreed,List.mem_cons,not_or]
      refine ⟨fun ⟨hq,hne,hnf⟩ => ⟨⟨hq,hnf⟩,hkey ▸ countersPtr_ne hq hnode hne⟩,
        fun ⟨⟨hq,hnf⟩,hne⟩ => ⟨hq,fun heq => hne (heq ▸ hkey),hnf⟩⟩
    have hother : ∀ k : Nat, k ≠ key → (c.tracked.erase key)[k]? = c.tracked[k]? := by
      intro k hk
      rw [Std.TreeMap.getElem?_erase,if_neg (by simpa using Ne.symm hk)]
    have herased : ∀ k : Nat, (c.tracked.erase key)[k]? =
        if k = key then none else c.tracked[k]? := by
      intro k
      by_cases hk : k = key
      · simp [hk]
      · rw [if_neg hk,hother k hk]
    have htracks' : G.TracksAlive
        { c with memory := G.free c.memory e.pointee, tracked := c.tracked.erase key } := by
      intro k e' he'
      change (c.tracked.erase key)[k]? = some e' at he'
      rw [herased k] at he'
      split at he'
      · contradiction
      · rename_i hk
        obtain ⟨hp',hkey'⟩ := htracks k e' he'
        exact ⟨(halive _).mpr ⟨hp',hkey'.symm ▸ hk⟩,hkey'⟩
    have hkept : ∀ k, (∀ q, q ∈ G.fields e.pointee → G.countersPtr q ≠ k) →
        (G.free c.memory e.pointee).counters k = c.memory.counters k :=
      fun k hk => dropFields_counters hk _
    obtain ⟨c',toReCheck',hfree,hf⟩ := ih (toReCheck ++
        (G.fields e.pointee).map G.countersPtr) (hbalanced.free hp (hkey.symm ▸ hzero)) htracks'
      hrest (fun k hk => by
        obtain ⟨e',he',hs,hz⟩ := hready k (List.mem_cons_of_mem _ hk)
        have hne : k ≠ key := fun heq => hnot (heq ▸ hk)
        obtain ⟨hp',hkey'⟩ := htracks k e' he'
        have hcount' := hbalanced.counts e'.pointee hp'
        rw [hkey',hz] at hcount'
        have hunowned' := owners_eq_zero_iff.mp (by omega : G.owners c.memory e'.pointee = 0)
        refine ⟨e',(hother k hne).trans he',hs,?_⟩
        have hsame := hkept k (fun q hq heq => hunowned' e.pointee hp (by
          have := G.countersPtr_inj q e'.pointee (G.fields_mem _ q hnode hq) (mem_alive.mp hp').1
            (heq.trans hkey'.symm)
          exact this ▸ hq))
        simp only [Graph.sum,hsame]
        exact hz)
    refine ⟨c',toReCheck',?_,hf.balanced,fun m₀ hm => hf.logged m₀ (hm.free hnode),
      hf.pending.trans hpending,fun k => ?_,hf.weakRefs,fun q => ?_,fun k hk => ?_,fun k => ?_⟩
    · have hptr : G.quiet.countersPtr e.pointee = key := hkey
      simp only [Environment.freePointers,he,hstate,ne_eq,not_true_eq_false,if_false,hptr]
      exact hfree
    · rw [hf.tracked k]
      change (if k ∈ toFree then none else (c.tracked.erase key)[k]?) = _
      rw [herased k]
      by_cases hk : k = key
      · simp [hk]
      · simp [hk]
    · rw [hf.alive q]
      change q ∈ G.alive (G.free c.memory e.pointee) ∧ _ ↔ _
      rw [halive q,List.mem_cons,not_or,and_assoc]
    · refine (hf.counters k (fun p q hp' hk' hq => ?_)).trans (hkept k (fun q hq => ?_))
      · exact hk p q ((halive p).mp hp').1 (List.mem_cons_of_mem _ hk') hq
      · exact hk e.pointee q hp (hkey ▸ List.mem_cons_self) hq
    · rw [hf.dropped k,List.mem_append,List.mem_map]
      constructor
      · rintro ((hk | ⟨q,hq,hqk⟩) | ⟨p,q,hp',hk',hq,hqk⟩)
        · exact .inl hk
        · exact .inr ⟨e.pointee,q,hp,hkey ▸ List.mem_cons_self,hq,hqk⟩
        · exact .inr ⟨p,q,((halive p).mp hp').1,List.mem_cons_of_mem _ hk',hq,hqk⟩
      · rintro (hk | ⟨p,q,hp',hk',hq,hqk⟩)
        · exact .inl (.inl hk)
        · rcases List.mem_cons.mp hk' with hpk | hk'
          · have hpe : p = e.pointee :=
              G.countersPtr_inj p e.pointee (mem_alive.mp hp').1 hnode (hpk.trans hkey.symm)
            exact .inl (.inr ⟨q,hpe ▸ hq,hqk⟩)
          · have hne : G.countersPtr p ≠ key := fun heq => hnot (heq ▸ hk')
            exact .inr ⟨p,q,(halive p).mpr ⟨hp',hne⟩,hk',hq,hqk⟩

end Freed

end Sdarc.Collection
