import Sdarc.Collection.Freeing
set_option autoImplicit false

/-! One iteration in a quiet memory, and the taking of new counters before it. -/

open Sdarc.System

namespace Sdarc.Collection

/-- What an inner iteration over the keys `todo` makes of `c`; it leaves the keys `S` to be
re-checked. -/
structure Pass (G : Graph) (todo : List Nat) (c c' : Collector Memory) (S : Std.TreeSet Nat) :
    Prop where
  balanced : Balanced G c'.memory
  logged : ∀ m₀, Logged G m₀ c.memory → Logged G m₀ c'.memory
  pending : c'.memory.pending = c.memory.pending
  tracksAlive : G.TracksAlive c'
  notReady : ∀ (key : Nat) e, c'.tracked[key]? = some e → e.state ≠ .readyToFree
  alive : ∀ p, p ∈ G.alive c'.memory ↔ p ∈ G.alive c.memory ∧
    ¬ (G.countersPtr p ∈ todo ∧ ∃ e, c.tracked[G.countersPtr p]? = some e ∧
      G.next c (G.countersPtr p) e = .readyToFree)
  tracked : ∀ p, p ∈ G.alive c'.memory → c'.tracked[G.countersPtr p]? =
    if G.countersPtr p ∈ todo then (c.tracked[G.countersPtr p]?).map
      (fun e => { e with state := G.next c (G.countersPtr p) e })
    else c.tracked[G.countersPtr p]?
  weakRefs : ∀ p e, c.tracked[G.countersPtr p]? = some e → p ∈ G.alive c'.memory →
    c'.weakRefs p = if G.countersPtr p ∈ todo ∧ e.state = .requiresReChecking ∧
      G.next c (G.countersPtr p) e = .requiresReChecking then .cleared else c.weakRefs p
  tagged : ∀ p, p ∈ G.alive c'.memory →
    (∀ q, q ∈ G.alive c.memory → q ∉ G.alive c'.memory → p ∉ G.fields q) →
    G.tagged c'.memory (G.countersPtr p) = true →
    G.tagged c.memory (G.countersPtr p) = true ∧
      ¬ (G.countersPtr p ∈ todo ∧ G.Clears c (G.countersPtr p))
  reCheck : ∀ key : Nat, key ∈ S ↔
    (key ∈ todo ∧ ∃ e, c.tracked[key]? = some e ∧ G.next c key e = .requiresReChecking) ∨
    ∃ p q, p ∈ G.alive c.memory ∧ p ∉ G.alive c'.memory ∧ q ∈ G.fields p ∧ G.countersPtr q = key

section Pass

variable {G : Graph} {c₀ c : Collector Memory} {done : List Nat} {f : Found} {key p : Nat}

theorem TracksAlive.pointee (h : G.TracksAlive c) {e : TrackedCounter} (hp : p ∈ G.nodes)
    (he : c.tracked[G.countersPtr p]? = some e) : e.pointee = p := by
  obtain ⟨halive,hkey⟩ := h _ e he
  exact G.countersPtr_inj _ _ (mem_alive.mp halive).1 hp hkey

theorem Scanned.sum (h : Scanned G c₀ done c f) (key : Nat) :
    G.sum c.memory key = G.sum c₀.memory key := by
  refine Finset.sum_congr rfl (fun k _ => ?_)
  by_cases hc : key ∈ done ∧ G.Clears c₀ key
  · rw [h.cleared key hc.1 hc.2 k]
    split <;> rfl
  · rw [h.kept key hc]

theorem Scanned.alive (h : Scanned G c₀ done c f) : G.alive c.memory = G.alive c₀.memory := by
  rw [Graph.alive,h.memory,Graph.alive]

theorem Scanned.balanced (h : Scanned G c₀ done c f) (hb : Balanced G c₀.memory) :
    Balanced G c.memory := by
  have howners : ∀ p, G.owners c.memory p = G.owners c₀.memory p :=
    fun p => by rw [Graph.owners,h.alive,Graph.owners]
  have hfreed : c.memory.freed = c₀.memory.freed := by rw [h.memory]
  have hflags : c.memory.usageFlags = c₀.memory.usageFlags := by rw [h.memory]
  refine ⟨fun p hp => ?_,?_,?_,?_,?_,?_⟩
  · rw [h.alive] at hp
    rw [h.sum,howners]
    exact hb.counts p hp
  · rw [hfreed,h.alive]
    exact hb.unowned
  · rw [hfreed]
    exact hb.external
  · rw [hfreed,hflags]
    exact hb.released
  · rw [hfreed]
    exact hb.freedMem
  · rw [hfreed]
    exact hb.freedNodup

theorem Scanned.logged {m₀ : Memory} (h : Scanned G c₀ done c f)
    (hm : Logged G m₀ c₀.memory) : Logged G m₀ c.memory := by
  have hfreed : c.memory.freed = c₀.memory.freed := by rw [h.memory]
  have hdrops : c.memory.drops = c₀.memory.drops := by rw [h.memory]
  have hcounters : ∀ key k, (c.memory.counters key k).refCount =
      (c₀.memory.counters key k).refCount ∧
      ((c.memory.counters key k).tag = true → (c₀.memory.counters key k).tag = true) := by
    intro key k
    by_cases hc : key ∈ done ∧ G.Clears c₀ key
    · rw [h.cleared key hc.1 hc.2 k]
      split
      · exact ⟨rfl,fun htag => by simp [Counter.clearTag] at htag⟩
      · exact ⟨rfl,id⟩
    · rw [h.kept key hc]
      exact ⟨rfl,id⟩
  refine ⟨fun p k hp => ?_,fun p k hp htag => ?_,?_⟩
  · rw [hdrops,(hcounters _ k).1]
    exact hm.refCount p k hp
  · rw [hdrops]
    exact hm.tag p k hp ((hcounters _ k).2 htag)
  · rw [hdrops,hfreed]
    exact hm.drops

theorem Scanned.tagged (h : Scanned G c₀ done c f) (htag : G.tagged c.memory key = true) :
    G.tagged c₀.memory key = true ∧ ¬ (key ∈ done ∧ G.Clears c₀ key) := by
  obtain ⟨k,hk,htag⟩ := List.any_eq_true.mp htag
  have hnot : ¬ (key ∈ done ∧ G.Clears c₀ key) := by
    intro hc
    rw [h.cleared key hc.1 hc.2 k,if_pos hk] at htag
    simp [Counter.clearTag] at htag
  rw [h.kept key hnot] at htag
  exact ⟨List.any_eq_true.mpr ⟨k,hk,htag⟩,hnot⟩

theorem next_ready {e : TrackedCounter} (hne : e.state ≠ .readyToFree)
    (hnext : G.next c key e = .readyToFree) : G.sum c.memory key = 0 := by
  cases hs : e.state with
  | readyToFree => exact absurd hs hne
  | defaultState =>
    simp only [Graph.next,hs] at hnext
    split at hnext <;> contradiction
  | requiresReChecking =>
    simp only [Graph.next,hs] at hnext
    split at hnext
    · contradiction
    · split at hnext
      · assumption
      · contradiction

theorem innerIteration_quiet (todo : List Nat) (hnodup : todo.Nodup)
    (hb : Balanced G c.memory) (htracks : G.TracksAlive c)
    (hready : ∀ (key : Nat) e, c.tracked[key]? = some e → e.state ≠ .readyToFree) :
    ∃ S c', G.quiet.innerIteration todo c = .ok (S,c') ∧ Pass G todo c c' S := by
  have hsum : ∀ (key : Nat) e, c.tracked[key]? = some e → 0 ≤ G.sum c.memory key := by
    intro key e he
    obtain ⟨hp,hkey⟩ := htracks key e he
    have := hb.counts e.pointee hp
    rw [hkey] at this
    omega
  obtain ⟨c₁,f,hvisit,hscan⟩ := visitKeys_quiet todo
    (fun key e he => (htracks key e he).2) hready hsum [] (by simpa using hnodup) (.start G c)
  rw [List.append_nil] at hscan
  have hmem : ∀ k, k ∈ todo.reverse ↔ k ∈ todo := fun k => List.mem_reverse
  have htracked₁ : ∀ (key : Nat) e, c₁.tracked[key]? = some e →
      ∃ e₀, c.tracked[key]? = some e₀ ∧ e.pointee = e₀.pointee ∧
        e.state = if key ∈ todo then G.next c key e₀ else e₀.state := by
    intro key e he
    rw [hscan.tracked key] at he
    simp only [hmem] at he
    split at he
    · rename_i hkey
      obtain ⟨e₀,he₀,rfl⟩ := Option.map_eq_some_iff.mp he
      exact ⟨e₀,he₀,rfl,(if_pos hkey).symm⟩
    · rename_i hkey
      exact ⟨e,he,rfl,(if_neg hkey).symm⟩
  have htracks₁ : G.TracksAlive c₁ := by
    intro key e he
    obtain ⟨e₀,he₀,hp,-⟩ := htracked₁ key e he
    rw [hscan.alive,hp]
    exact htracks key e₀ he₀
  obtain ⟨c₂,toReCheck,hfree,hf⟩ := freePointers_quiet []
    (hscan.balanced hb) htracks₁ hscan.toFreeNodup (fun key hkey => by
      obtain ⟨hdone,e,he,hnext⟩ := (hscan.toFree key).mp hkey
      refine ⟨{ e with state := G.next c key e },?_,hnext,?_⟩
      · rw [hscan.tracked key,if_pos hdone,he]
        rfl
      · rw [hscan.sum]
        exact next_ready (hready key e he) hnext)
  have hfreed : ∀ key : Nat, key ∈ f.toFree ↔ key ∈ todo ∧
      ∃ e, c.tracked[key]? = some e ∧ G.next c key e = .readyToFree :=
    fun key => (hscan.toFree key).trans (and_congr_left' (hmem key))
  have halive : ∀ q, q ∈ G.alive c₂.memory ↔ q ∈ G.alive c.memory ∧ ¬ (G.countersPtr q ∈ todo ∧
      ∃ e, c.tracked[G.countersPtr q]? = some e ∧
        G.next c (G.countersPtr q) e = .readyToFree) := by
    intro q
    rw [hf.alive q,hscan.alive,hfreed]
  have hgone : ∀ q, q ∈ G.alive c.memory → (q ∉ G.alive c₂.memory ↔ G.countersPtr q ∈ f.toFree) := by
    intro q hq
    rw [hf.alive q,hscan.alive]
    simp [hq]
  have htracked₂ : ∀ q, q ∈ G.alive c₂.memory → c₂.tracked[G.countersPtr q]? =
      c₁.tracked[G.countersPtr q]? := by
    intro q hq
    rw [hf.tracked,if_neg ((hf.alive q).mp hq).2]
  refine ⟨f.newToReCheck.insertMany toReCheck,c₂,?_,hf.balanced,
    fun m₀ hm => hf.logged m₀ (hscan.logged hm),hf.pending.trans (by rw [hscan.memory]),
    fun k e he => ?_,fun k e he => ?_,halive,fun q hq => ?_,fun q e he hq => ?_,
    fun q hq hfields htag => ?_,fun k => ?_⟩
  · have htraverse : G.quiet.traverse c.memory = (∅,c.memory) := rfl
    simp only [Environment.innerIteration,htraverse,Collector.setMemory,hvisit,hfree]
  · rw [hf.tracked k] at he
    split at he
    · contradiction
    · rename_i hk
      obtain ⟨hp,hkey⟩ := htracks₁ k e he
      exact ⟨(hf.alive _).mpr ⟨hp,hkey.symm ▸ hk⟩,hkey⟩
  · rw [hf.tracked k] at he
    split at he
    · contradiction
    · rename_i hk
      obtain ⟨e₀,he₀,-,hstate⟩ := htracked₁ k e he
      rw [hstate]
      split
      · rename_i htodo
        exact fun hnext => hk ((hfreed k).mpr ⟨htodo,e₀,he₀,hnext⟩)
      · exact hready k e₀ he₀
  · rw [htracked₂ q hq,hscan.tracked]
    simp only [hmem]
  · have hpe := TracksAlive.pointee htracks (mem_alive.mp hq).1 he
    have hweak := hscan.weakRefs _ e he
    rw [hpe] at hweak
    rw [hf.weakRefs,hweak]
    simp only [hmem]
  · have hcounters := hf.counters (G.countersPtr q) (fun p r hp hfree hr heq => by
      rw [hscan.alive] at hp
      have hrq : r = q := G.countersPtr_inj r q (G.fields_mem p r (mem_alive.mp hp).1 hr)
        (mem_alive.mp hq).1 heq
      exact hfields p hp ((hgone p hp).mpr hfree) (hrq ▸ hr))
    have htag₁ : G.tagged c₁.memory (G.countersPtr q) = true := by
      simpa only [Graph.tagged,hcounters] using htag
    obtain ⟨htag₀,hnot⟩ := hscan.tagged htag₁
    rw [hmem] at hnot
    exact ⟨htag₀,hnot⟩
  · have hreCheck := (hscan.reCheck k).trans (and_congr_left' (hmem k))
    have hdropped : k ∈ toReCheck ↔ ∃ q r, q ∈ G.alive c.memory ∧ q ∉ G.alive c₂.memory ∧
        r ∈ G.fields q ∧ G.countersPtr r = k := by
      rw [hf.dropped k,hscan.alive]
      constructor
      · rintro (hk | ⟨q,r,hq,hqf,hr,hrk⟩)
        · exact absurd hk List.not_mem_nil
        · exact ⟨q,r,hq,(hgone q hq).mpr hqf,hr,hrk⟩
      · rintro ⟨q,r,hq,hqn,hr,hrk⟩
        exact .inr ⟨q,r,hq,(hgone q hq).mp hqn,hr,hrk⟩
    rw [Std.TreeSet.mem_insertMany_list,List.contains_iff_mem,hreCheck,hdropped]

end Pass

def Graph.waiting (G : Graph) (m : Memory) : List Entry := (List.range G.shards).flatMap m.pending

/-- Every pointee that is there is tracked or is in `waiting`. -/
structure InPlace (G : Graph) (c : Collector Memory) (waiting : List Entry) : Prop where
  balanced : Balanced G c.memory
  tracksAlive : G.TracksAlive c
  notReady : ∀ (key : Nat) e, c.tracked[key]? = some e → e.state ≠ .readyToFree
  waits : ∀ x, x ∈ waiting → x.pointee ∈ G.alive c.memory ∧
    x.countersPtr = G.countersPtr x.pointee ∧ c.tracked[x.countersPtr]? = none
  distinct : (waiting.map Entry.pointee).Nodup
  placed : ∀ p, p ∈ G.alive c.memory →
    (∃ e, c.tracked[G.countersPtr p]? = some e) ∨ ∃ x, x ∈ waiting ∧ x.pointee = p

/-- New counters are tracked from `c` to `c'`, and nothing else changes but `pending`. -/
structure Taken (c c' : Collector Memory) : Prop where
  memory : c'.memory = { c.memory with pending := c'.memory.pending }
  weakRefs : c'.weakRefs = c.weakRefs
  old : ∀ (key : Nat) e, c.tracked[key]? = some e → c'.tracked[key]? = some e
  new : ∀ (key : Nat) e, c'.tracked[key]? = some e →
    c.tracked[key]? = some e ∨ c.tracked[key]? = none ∧ e.state = .defaultState

section Taken

variable {G : Graph} {c c' c'' : Collector Memory}

theorem Taken.refl (c : Collector Memory) : Taken c c :=
  ⟨rfl,rfl,fun _ _ he => he,fun _ _ he => .inl he⟩

theorem Taken.trans (h : Taken c c') (h' : Taken c' c'') : Taken c c'' where
  memory := by rw [h'.memory,h.memory]
  weakRefs := h'.weakRefs.trans h.weakRefs
  old key e he := h'.old key e (h.old key e he)
  new key e he := by
    rcases h'.new key e he with he' | ⟨hnone,hstate⟩
    · exact h.new key e he'
    · refine .inr ⟨?_,hstate⟩
      cases hc : c.tracked[key]? with
      | none => rfl
      | some e₀ => simp [h.old key e₀ hc] at hnone

theorem InPlace.setPending {waiting : List Entry} (h : InPlace G c waiting)
    (pending : Nat → List Entry) :
    InPlace G (c.setMemory { c.memory with pending := pending }) waiting :=
  ⟨⟨h.balanced.counts,h.balanced.unowned,h.balanced.external,h.balanced.released,
    h.balanced.freedMem,h.balanced.freedNodup⟩,h.tracksAlive,h.notReady,h.waits,h.distinct,
    h.placed⟩

theorem insertTaken_quiet {taken waiting : List Entry} :
    ∀ {c : Collector Memory}, InPlace G c (taken ++ waiting) →
      ∃ c', Environment.insertTaken taken c = .ok c' ∧ InPlace G c' waiting ∧ Taken c c' ∧
        c'.memory = c.memory := by
  induction taken with
  | nil => exact fun h => ⟨_,rfl,h,.refl _,rfl⟩
  | cons x taken ih =>
    intro c h
    obtain ⟨halive,hkey,hnone⟩ := h.waits x List.mem_cons_self
    obtain ⟨hx,hdistinct⟩ := List.nodup_cons.mp h.distinct
    have hget : ∀ k : Nat, (c.tracked.insert x.countersPtr ⟨x.pointee,.defaultState⟩)[k]? =
        if x.countersPtr = k then some ⟨x.pointee,.defaultState⟩ else c.tracked[k]? := by
      intro k
      simp only [Std.TreeMap.getElem?_insert,Nat.compare_eq_eq]
    have hstep : InPlace G { c with
        tracked := c.tracked.insert x.countersPtr ⟨x.pointee,.defaultState⟩ }
        (taken ++ waiting) := by
      refine ⟨h.balanced,fun k e he => ?_,fun k e he => ?_,fun y hy => ?_,hdistinct,
        fun p hp => ?_⟩
      · change (c.tracked.insert x.countersPtr ⟨x.pointee,.defaultState⟩)[k]? = some e at he
        rw [hget] at he
        split at he
        · rename_i hk
          obtain rfl := Option.some.inj he
          exact ⟨halive,hkey.symm.trans hk⟩
        · exact h.tracksAlive k e he
      · change (c.tracked.insert x.countersPtr ⟨x.pointee,.defaultState⟩)[k]? = some e at he
        rw [hget] at he
        split at he
        · obtain rfl := Option.some.inj he
          simp
        · exact h.notReady k e he
      · obtain ⟨halive',hkey',hnone'⟩ := h.waits y (List.mem_cons_of_mem _ hy)
        refine ⟨halive',hkey',?_⟩
        change (c.tracked.insert x.countersPtr ⟨x.pointee,.defaultState⟩)[y.countersPtr]? = none
        have hne : x.pointee ≠ y.pointee := fun heq =>
          hx (heq ▸ List.mem_map_of_mem hy)
        rw [hget,if_neg]
        · exact hnone'
        · rw [hkey,hkey']
          exact countersPtr_ne (mem_alive.mp halive).1 (mem_alive.mp halive').1 hne
      · change (∃ e, (c.tracked.insert x.countersPtr
          ⟨x.pointee,.defaultState⟩)[G.countersPtr p]? = some e) ∨ _
        rw [hget]
        rcases h.placed p hp with ⟨e,he⟩ | ⟨y,hy,hyp⟩
        · refine .inl ?_
          split
          · exact ⟨_,rfl⟩
          · exact ⟨e,he⟩
        · rcases List.mem_cons.mp hy with rfl | hy
          · rw [← hyp,if_pos hkey]
            exact .inl ⟨_,rfl⟩
          · exact .inr ⟨y,hy,hyp⟩
    have hfirst : Taken c { c with
        tracked := c.tracked.insert x.countersPtr ⟨x.pointee,.defaultState⟩ } := by
      refine ⟨rfl,rfl,fun k e he => ?_,fun k e he => ?_⟩
      · change (c.tracked.insert x.countersPtr ⟨x.pointee,.defaultState⟩)[k]? = some e
        rw [hget,if_neg]
        · exact he
        · rintro rfl
          simp [hnone] at he
      · change (c.tracked.insert x.countersPtr ⟨x.pointee,.defaultState⟩)[k]? = some e at he
        rw [hget] at he
        split at he
        · rename_i hk
          obtain rfl := Option.some.inj he
          exact .inr ⟨hk ▸ hnone,rfl⟩
        · exact .inl he
    obtain ⟨c',hc',hin,htaken,hmem⟩ := ih hstep
    refine ⟨c',?_,hin,hfirst.trans htaken,hmem⟩
    simp only [Environment.insertTaken,hnone]
    exact hc'

theorem takeShards_quiet {shards : List Nat} :
    ∀ {c : Collector Memory}, shards.Nodup → InPlace G c (shards.flatMap c.memory.pending) →
      ∃ c', G.quiet.takeNewCountersToTrack shards c = .ok c' ∧ InPlace G c' [] ∧ Taken c c' ∧
        ∀ j, c'.memory.pending j = if j ∈ shards then [] else c.memory.pending j := by
  induction shards with
  | nil => exact fun _ h => ⟨_,rfl,h,.refl _,by simp⟩
  | cons shard shards ih =>
    intro c hnodup h
    obtain ⟨hnot,hrest⟩ := List.nodup_cons.mp hnodup
    rw [List.flatMap_cons] at h
    obtain ⟨c₁,hinsert,hin,htaken,hmem⟩ := insertTaken_quiet
      (h.setPending (Function.update c.memory.pending shard []))
    have hpending : c₁.memory.pending = Function.update c.memory.pending shard [] := by
      rw [hmem]
      rfl
    have hsame : shards.flatMap c₁.memory.pending = shards.flatMap c.memory.pending := by
      rw [hpending]
      refine List.flatMap_congr (fun j hj => Function.update_of_ne ?_ _ _)
      exact fun heq => hnot (heq ▸ hj)
    obtain ⟨c₂,htake,hin₂,htaken₂,hempty⟩ := ih hrest (hsame ▸ hin)
    have hfirst : Taken c (c.setMemory { c.memory with
        pending := Function.update c.memory.pending shard [] }) :=
      ⟨rfl,rfl,fun _ _ he => he,fun _ _ he => .inl he⟩
    refine ⟨c₂,?_,hin₂,(hfirst.trans htaken).trans htaken₂,fun j => ?_⟩
    · have hpend : G.quiet.takePending c.memory shard = (c.memory.pending shard,{ c.memory with
          pending := Function.update c.memory.pending shard [] }) := rfl
      simp only [Environment.takeNewCountersToTrack,hpend,hinsert]
      exact htake
    · rw [hempty j,hpending]
      by_cases hj : j = shard
      · simp [hj]
      · simp [hj]

theorem takeNewCountersToTrack_quiet (h : InPlace G c (G.waiting c.memory)) :
    ∃ c', G.quiet.takeNewCountersToTrack (List.range G.quiet.shards) c = .ok c' ∧
      InPlace G c' [] ∧ Taken c c' ∧ G.waiting c'.memory = [] := by
  obtain ⟨c',htake,hin,htaken,hpending⟩ := takeShards_quiet List.nodup_range h
  refine ⟨c',htake,hin,htaken,?_⟩
  refine List.flatMap_eq_nil_iff.mpr (fun j hj => ?_)
  rw [hpending j,if_pos hj]

end Taken

end Sdarc.Collection
