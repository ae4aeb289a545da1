import Sdarc.Collection.QuietIteration
set_option autoImplicit false

/-! Shallow iterations free garbage level by level, four iterations for each. -/

open Sdarc.System

namespace Sdarc.Collection

namespace Graph

variable (G : Graph)

/-- From a handle or a cell outside the pointees the pointee can be reached. -/
inductive Reachable : Nat → Prop where
  | root (p : Nat) : p ∈ G.nodes → 0 < G.external p → Reachable p
  | field (p q : Nat) : Reachable q → p ∈ G.fields q → Reachable p

/-- An ownership chain of `n` unreachable pointees ends in `p`. -/
inductive ChainTo : Nat → Nat → Prop where
  | start (p : Nat) : p ∈ G.nodes → ¬ G.Reachable p → ChainTo 1 p
  | owns (n p q : Nat) : ChainTo n q → p ∈ G.fields q → ¬ G.Reachable p → ChainTo (n+1) p

/-- How many iterations a pointee without owners still takes. -/
def remaining (c : Collector Memory) (p : Nat) : Nat :=
  match c.tracked[G.countersPtr p]? with
  | none => 3
  | some e =>
      match e.state with
      | .defaultState => 3
      | .requiresReChecking =>
          if G.tagged c.memory (G.countersPtr p) = true then 4
          else if c.weakRefs p = .linked then 2 else 1
      | .readyToFree => 0

end Graph

def Environment.shallowIterations {M : Type} (env : Environment M) :
    Nat → Collector M → Except CollectorPanic (Collector M)
  | 0, c => .ok c
  | k + 1, c =>
      match env.update MAX_INNER_ITERATIONS false c with
      | .error site => .error site
      | .ok (_,c') => shallowIterations env k c'

structure Shallow (G : Graph) (c c' : Collector Memory) : Prop where
  inPlace : InPlace G c' (G.waiting c'.memory)
  logged : ∀ m₀, Logged G m₀ c.memory → Logged G m₀ c'.memory
  subset : G.alive c'.memory ⊆ G.alive c.memory
  progress : ∀ p, p ∈ G.alive c'.memory → G.owners c.memory p = 0 → G.external p = 0 →
    G.remaining c' p < G.remaining c p

section Shallow

variable {G : Graph} {c c' : Collector Memory} {p : Nat}

theorem owners_le {m m' : Memory} (h : G.alive m' ⊆ G.alive m) (p : Nat) :
    G.owners m' p ≤ G.owners m p :=
  Finset.sum_le_sum_of_subset h

theorem Pass.subset {todo : List Nat} {S : Std.TreeSet Nat} (h : Pass G todo c c' S) :
    G.alive c'.memory ⊆ G.alive c.memory := fun p hp => ((h.alive p).mp hp).1

theorem Pass.inPlace {todo : List Nat} {S : Std.TreeSet Nat} (h : Pass G todo c c' S)
    (hc : InPlace G c []) : InPlace G c' [] where
  balanced := h.balanced
  tracksAlive := h.tracksAlive
  notReady := h.notReady
  waits x hx := absurd hx List.not_mem_nil
  distinct := List.nodup_nil
  placed p hp := by
    obtain ⟨e,he⟩ : ∃ e, c.tracked[G.countersPtr p]? = some e := by
      rcases hc.placed p (h.subset hp) with he | ⟨x,hx,-⟩
      · exact he
      · exact absurd hx List.not_mem_nil
    rw [h.tracked p hp,he]
    split
    · exact .inl ⟨_,rfl⟩
    · exact .inl ⟨e,rfl⟩

theorem InPlace.tracked (h : InPlace G c []) (hp : p ∈ G.alive c.memory) :
    ∃ e, c.tracked[G.countersPtr p]? = some e ∧ e.pointee = p := by
  rcases h.placed p hp with ⟨e,he⟩ | ⟨x,hx,-⟩
  · exact ⟨e,he,TracksAlive.pointee h.tracksAlive (mem_alive.mp hp).1 he⟩
  · exact absurd hx List.not_mem_nil

theorem Pass.progress {todo : List Nat} {S : Std.TreeSet Nat} (h : Pass G todo c c' S)
    (hc : InPlace G c []) (hp : p ∈ G.alive c'.memory) (htodo : G.countersPtr p ∈ todo)
    (howners : G.owners c.memory p = 0) (hexternal : G.external p = 0) :
    G.remaining c' p < G.remaining c p := by
  have hold := h.subset hp
  obtain ⟨e,he,hpe⟩ := hc.tracked hold
  have hsum : G.sum c.memory (G.countersPtr p) = 0 := by
    have := hc.balanced.counts p hold
    omega
  have hunowned := owners_eq_zero_iff.mp howners
  have htag := h.tagged p hp (fun q hq _ => hunowned q hq)
  have htracked := h.tracked p hp
  rw [if_pos htodo,he] at htracked
  have hweak := h.weakRefs p e he hp
  have halive := ((h.alive p).mp hp).2
  have hnotReady : G.next c (G.countersPtr p) e ≠ .readyToFree :=
    fun hnext => halive ⟨htodo,e,he,hnext⟩
  simp only [Graph.remaining,htracked,he,Option.map_some]
  cases hs : e.state with
  | readyToFree => exact absurd hs (hc.notReady _ e he)
  | defaultState =>
    have hnext : G.next c (G.countersPtr p) e = .requiresReChecking := by
      simp [Graph.next,hs,hsum]
    have huntagged : G.tagged c'.memory (G.countersPtr p) = false := by
      by_contra hnot
      exact (htag (by simpa using hnot)).2 ⟨htodo,e,he,hs,hsum⟩
    simp only [hnext,huntagged,Bool.false_eq_true,if_false]
    split <;> omega
  | requiresReChecking =>
    cases htagged : G.tagged c.memory (G.countersPtr p) with
    | true =>
      have hnext : G.next c (G.countersPtr p) e = .defaultState := by
        simp [Graph.next,hs,htagged]
      simp [hnext]
    | false =>
      have huntagged : G.tagged c'.memory (G.countersPtr p) = false := by
        by_contra hnot
        have := (htag (by simpa using hnot)).1
        rw [htagged] at this
        contradiction
      by_cases hlinked : c.weakRefs p = .linked
      · have hnext : G.next c (G.countersPtr p) e = .requiresReChecking := by
          simp [Graph.next,hs,htagged,hsum,hpe,hlinked]
        rw [if_pos ⟨htodo,hs,hnext⟩] at hweak
        simp [hnext,huntagged,hweak,hlinked]
      · refine absurd ?_ hnotReady
        simp [Graph.next,hs,htagged,hsum,hpe,hlinked]

theorem update_shallow (cap : Nat) (h : InPlace G c (G.waiting c.memory)) :
    ∃ last c', G.quiet.update cap false c = .ok (last,c') ∧ Shallow G c c' := by
  obtain ⟨c₁,htake,hin,htaken,hwaiting⟩ := takeNewCountersToTrack_quiet h
  obtain ⟨S,c₂,hiter,hpass⟩ := innerIteration_quiet c₁.tracked.keys
    Std.TreeMap.nodup_keys hin.balanced hin.tracksAlive hin.notReady
  have halive : G.alive c₁.memory = G.alive c.memory := by
    rw [Graph.alive,htaken.memory,Graph.alive]
  have howners : ∀ p, G.owners c₁.memory p = G.owners c.memory p :=
    fun p => by rw [Graph.owners,halive,Graph.owners]
  have hcounters : c₁.memory.counters = c.memory.counters := by rw [htaken.memory]
  refine ⟨⟨0,∅⟩,c₂,?_,?_,fun m₀ hm => hpass.logged m₀ ?_,halive ▸ hpass.subset,
    fun p hp hown hext => ?_⟩
  · simp only [Environment.update,htake,Environment.doCollectionInnerIterations,
      Environment.updateAllTrackedCounters,hiter,Bool.false_eq_true,if_false]
  · have hnone : G.waiting c₂.memory = [] := by
      rw [Graph.waiting,hpass.pending]
      exact hwaiting
    rw [hnone]
    exact hpass.inPlace hin
  · have hdrops : c₁.memory.drops = c.memory.drops := by rw [htaken.memory]
    have hfreed : c₁.memory.freed = c.memory.freed := by rw [htaken.memory]
    refine ⟨?_,?_,?_⟩
    · rw [hcounters,hdrops]
      exact hm.refCount
    · rw [hcounters,hdrops]
      exact hm.tag
    · rw [hdrops,hfreed]
      exact hm.drops
  · obtain ⟨e,he,-⟩ := hin.tracked (hpass.subset hp)
    have htodo : G.countersPtr p ∈ c₁.tracked.keys := by
      rw [Std.TreeMap.mem_keys]
      exact Std.TreeMap.mem_iff_isSome_getElem?.mpr (by simp [he])
    refine (hpass.progress hin hp htodo ((howners p).trans hown) hext).trans_le ?_
    have htagged : G.tagged c₁.memory (G.countersPtr p) = G.tagged c.memory (G.countersPtr p) := by
      simp only [Graph.tagged,hcounters]
    rcases htaken.new _ e he with hold | ⟨hnone,hstate⟩
    · simp only [Graph.remaining,he,hold,htagged,htaken.weakRefs]
      exact le_rfl
    · simp only [Graph.remaining,he,hnone,hstate]
      exact le_rfl

theorem Balanced.not_freed {m : Memory} (h : Balanced G m) (hp : G.Reachable p) :
    p ∈ G.nodes ∧ p ∉ m.freed := by
  induction hp with
  | root p hp hexternal =>
    refine ⟨hp,fun hfreed => ?_⟩
    have := h.external p hfreed
    omega
  | field p q hq hpq ih =>
    obtain ⟨hnode,hnot⟩ := ih
    exact ⟨G.fields_mem q p hnode hpq,
      fun hfreed => h.unowned p q hfreed (mem_alive.mpr ⟨hnode,hnot⟩) hpq⟩

theorem remaining_le (G : Graph) (c : Collector Memory) (p : Nat) : G.remaining c p ≤ 4 := by
  unfold Graph.remaining
  split
  · omega
  · split
    · omega
    · split
      · omega
      · split <;> omega
    · omega

theorem InPlace.remaining_pos {waiting : List Entry} (h : InPlace G c waiting) (p : Nat) :
    0 < G.remaining c p := by
  unfold Graph.remaining
  cases he : c.tracked[G.countersPtr p]? with
  | none => simp
  | some e =>
    cases hs : e.state with
    | defaultState => simp [hs]
    | requiresReChecking =>
      simp only [hs]
      split
      · omega
      · split <;> omega
    | readyToFree => exact absurd hs (h.notReady _ e he)

structure ShallowRun (G : Graph) (k : Nat) (c c' : Collector Memory) : Prop where
  run : G.quiet.shallowIterations k c = .ok c'
  inPlace : InPlace G c' (G.waiting c'.memory)
  logged : ∀ m₀, Logged G m₀ c.memory → Logged G m₀ c'.memory
  subset : G.alive c'.memory ⊆ G.alive c.memory

theorem shallowIterations_quiet (k : Nat) :
    ∀ {c : Collector Memory}, InPlace G c (G.waiting c.memory) →
      ∃ c', ShallowRun G k c c' ∧ ∀ p, G.owners c.memory p = 0 → G.external p = 0 →
        G.remaining c p ≤ k → p ∉ G.alive c'.memory := by
  induction k with
  | zero =>
    intro c h
    refine ⟨c,⟨rfl,h,fun _ hm => hm,subset_rfl⟩,fun p _ _ hle => ?_⟩
    have := h.remaining_pos p
    omega
  | succ k ih =>
    intro c h
    obtain ⟨last,c₁,hupdate,hs⟩ := update_shallow MAX_INNER_ITERATIONS h
    obtain ⟨c',hrun,hgone⟩ := ih hs.inPlace
    refine ⟨c',⟨?_,hrun.inPlace,fun m₀ hm => hrun.logged m₀ (hs.logged m₀ hm),
      hrun.subset.trans hs.subset⟩,fun p hown hext hle hp => ?_⟩
    · simp only [Environment.shallowIterations,hupdate]
      exact hrun.run
    · have hless := hs.progress p (hrun.subset hp) hown hext
      have hown₁ := owners_le hs.subset p
      exact hgone p (by omega) hext (by omega) hp

theorem shallowIterations_add {j k : Nat} {c c₁ : Collector Memory}
    (h : G.quiet.shallowIterations j c = .ok c₁) :
    G.quiet.shallowIterations (j + k) c = G.quiet.shallowIterations k c₁ := by
  induction j generalizing c with
  | zero =>
    obtain rfl := Except.ok.inj h
    rw [Nat.zero_add]
  | succ j ih =>
    rw [Nat.add_right_comm]
    simp only [Environment.shallowIterations] at h ⊢
    cases hupdate : G.quiet.update MAX_INNER_ITERATIONS false c with
    | error site => simp [hupdate] at h
    | ok r =>
      simp only [hupdate] at h ⊢
      exact ih h

theorem ShallowRun.trans {j k : Nat} {c c₁ c₂ : Collector Memory} (h : ShallowRun G j c c₁)
    (h' : ShallowRun G k c₁ c₂) : ShallowRun G (j + k) c c₂ :=
  ⟨(shallowIterations_add h.run).trans h'.run,h'.inPlace,
    fun m₀ hm => h'.logged m₀ (h.logged m₀ hm),h'.subset.trans h.subset⟩

theorem shallowIterations_levels (k : Nat) {c : Collector Memory}
    (h : InPlace G c (G.waiting c.memory)) :
    ∃ c', ShallowRun G (4 * k) c c' ∧ ∀ p, ¬ G.Reachable p → (∀ n, G.ChainTo n p → n ≤ k) →
      p ∉ G.alive c'.memory := by
  induction k with
  | zero =>
    refine ⟨c,⟨rfl,h,fun _ hm => hm,subset_rfl⟩,fun p hp hchain halive => ?_⟩
    have := hchain 1 (.start p (mem_alive.mp halive).1 hp)
    omega
  | succ k ih =>
    obtain ⟨c₁,hrun,hgone⟩ := ih
    obtain ⟨c₂,hrun',hgone'⟩ := shallowIterations_quiet 4 hrun.inPlace
    refine ⟨c₂,hrun.trans hrun',fun p hp hchain halive => ?_⟩
    have hold := hrun'.subset halive
    have hexternal : G.external p = 0 := by
      by_contra hne
      exact hp (.root p (mem_alive.mp hold).1 (Nat.pos_of_ne_zero hne))
    -- the owners end shorter chains, so they have been freed four iterations ago
    have howners : G.owners c₁.memory p = 0 := by
      refine owners_eq_zero_iff.mpr (fun q hq hpq => ?_)
      have hunreachable : ¬ G.Reachable q := fun hr => hp (.field p q hr hpq)
      refine hgone q hunreachable (fun n hn => ?_) hq
      have := hchain (n+1) (.owns n p q hn hpq hp)
      omega
    exact hgone' p howners hexternal (remaining_le G c₁ p) halive

def Graph.fresh (m : Memory) : Prop := m.freed = [] ∧ m.drops = []

theorem Graph.fresh.logged {m : Memory} (h : Graph.fresh m) : Logged G m m where
  refCount p k _ := by simp [h.2]
  tag p k _ htag := .inl htag
  drops := by simp [h.1,h.2]

/-- After four iterations for each node of the longest chain all garbage has been freed, each
pointee once. Throughout, what is reachable is not freed, and its counters change by the drops
of the fields of what was freed and by clearing tags. -/
theorem shallow_iterations_free_garbage (G : Graph) (c : Collector Memory) (L : Nat)
    (h : InPlace G c (G.waiting c.memory)) (hfresh : Graph.fresh c.memory)
    (hchains : ∀ n p, G.ChainTo n p → n ≤ L) :
    (∃ c', G.quiet.shallowIterations (4 * L) c = .ok c' ∧
      ∀ p, p ∈ G.nodes → ¬ G.Reachable p → c'.memory.freed.count p = 1) ∧
    ∀ k, ∃ c', G.quiet.shallowIterations k c = .ok c' ∧ c'.memory.freed.Nodup ∧
      (∀ p, G.Reachable p → p ∉ c'.memory.freed) ∧ Logged G c.memory c'.memory := by
  constructor
  · obtain ⟨c',hrun,hgone⟩ := shallowIterations_levels L h
    refine ⟨c',hrun.run,fun p hp hunreachable => ?_⟩
    refine List.count_eq_one_of_mem hrun.inPlace.balanced.freedNodup ?_
    by_contra hnot
    exact hgone p hunreachable (fun n hn => hchains n p hn) (mem_alive.mpr ⟨hp,hnot⟩)
  · intro k
    obtain ⟨c',hrun,-⟩ := shallowIterations_quiet k h
    have hbalanced := hrun.inPlace.balanced
    exact ⟨c',hrun.run,hbalanced.freedNodup,fun p hp => (hbalanced.not_freed hp).2,
      hrun.logged _ hfresh.logged⟩

def twoNodes : Graph where
  nodes := {0,1}
  fields p := if p = 0 then [1] else []
  external _ := 0
  shards := 1
  ptr p := p
  countersPtr p := p
  currShard _ := 0
  currShard_lt _ := Nat.one_pos
  fields_mem p q _ hq := by
    split at hq
    · simp_all
    · simp at hq
  countersPtr_inj _ _ _ _ h := h

def twoTracked (state : TrackedCounterState) (tag : Bool) : Collector Memory where
  memory := {
    counters := fun key _ => if key = 0 then ⟨0,tag⟩ else ⟨1,false⟩
    pending := fun _ => []
    usageFlags := fun _ => true
    freed := []
    drops := [] }
  weakRefs _ := .uninit
  tracked := ((∅ : Std.TreeMap Nat TrackedCounter).insert 0 ⟨0,state⟩).insert 1 ⟨1,.defaultState⟩

theorem twoTracked_get (state : TrackedCounterState) (tag : Bool) (key : Nat) :
    (twoTracked state tag).tracked[key]? =
      if 1 = key then some ⟨1,.defaultState⟩ else if 0 = key then some ⟨0,state⟩ else none := by
  simp [twoTracked,Std.TreeMap.getElem?_insert]

theorem twoTracked_inPlace {state : TrackedCounterState} (tag : Bool)
    (hstate : state ≠ .readyToFree) :
    InPlace twoNodes (twoTracked state tag) (twoNodes.waiting (twoTracked state tag).memory) := by
  have halive : ∀ p, p ∈ twoNodes.alive (twoTracked state tag).memory ↔ p = 0 ∨ p = 1 := by
    simp [mem_alive,twoNodes,twoTracked]
  refine ⟨⟨fun p hp => ?_,by simp [twoTracked],by simp [twoTracked],by simp [twoTracked],
    by simp [twoTracked],by simp [twoTracked]⟩,fun key e he => ?_,fun key e he => ?_,
    fun x hx => ?_,?_,fun p hp => .inl ?_⟩
  · rcases (halive p).mp hp with rfl | rfl <;> rfl
  · rw [twoTracked_get] at he
    split at he
    · obtain rfl := Option.some.inj he
      exact ⟨(halive _).mpr (.inr rfl),‹1 = key›⟩
    · split at he
      · obtain rfl := Option.some.inj he
        exact ⟨(halive _).mpr (.inl rfl),‹0 = key›⟩
      · contradiction
  · rw [twoTracked_get] at he
    split at he
    · obtain rfl := Option.some.inj he
      simp
    · split at he
      · obtain rfl := Option.some.inj he
        exact hstate
      · contradiction
  · simp [Graph.waiting,twoNodes,twoTracked] at hx
  · simp [Graph.waiting,twoNodes,twoTracked]
  · change ∃ e, (twoTracked state tag).tracked[p]? = some e
    rw [twoTracked_get]
    rcases (halive p).mp hp with rfl | rfl
    · exact ⟨_,rfl⟩
    · exact ⟨_,rfl⟩

theorem twoNodes_unreachable (p : Nat) : ¬ twoNodes.Reachable p := by
  intro hp
  induction hp with
  | root p _ hexternal => exact absurd hexternal (by simp [twoNodes])
  | field p q _ _ ih => exact ih

theorem twoTracked_freed :
    ∃ c', twoNodes.quiet.shallowIterations 8 (twoTracked .requiresReChecking true) = .ok c' ∧
      c'.memory.freed.count 0 = 1 ∧ c'.memory.freed.count 1 = 1 := by
  have hchains : ∀ n p, twoNodes.ChainTo n p → n = 1 ∨ n = 2 ∧ p = 1 := by
    intro n p hn
    induction hn with
    | start p _ _ => exact .inl rfl
    | owns n p q _ hpq _ ih =>
      have hq : q = 0 ∧ p = 1 := by
        simp only [twoNodes] at hpq
        split at hpq
        · exact ⟨‹q = 0›,by simpa using hpq⟩
        · simp at hpq
      rcases ih with rfl | ⟨-,hq'⟩
      · exact .inr ⟨rfl,hq.2⟩
      · omega
  obtain ⟨⟨c',hrun,hfreed⟩,-⟩ := shallow_iterations_free_garbage twoNodes
    (twoTracked .requiresReChecking true) 2 (twoTracked_inPlace true (by simp)) ⟨rfl,rfl⟩
    (fun n p hn => by have := hchains n p hn; omega)
  exact ⟨c',hrun,hfreed 0 (by decide) (twoNodes_unreachable 0),
    hfreed 1 (by decide) (twoNodes_unreachable 1)⟩

end Shallow

end Sdarc.Collection
