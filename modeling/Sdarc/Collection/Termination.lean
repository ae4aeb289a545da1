import Mathlib.Data.List.Nodup
import Sdarc.Collection.Iterations
set_option autoImplicit false

/-!
The loop of a deep collection comes to an end whatever happens in between: a key stays
for at most two iterations after one that frees something, as its `back_ref` is cleared only
once.
-/

open Sdarc.System

namespace Sdarc.Collection

variable {M : Type} {env : Environment M} {c c' : Collector M} {key p : Nat}

theorem getElem?_setTracked (c : Collector M) (key : Nat) (state : TrackedCounterState)
    (key' : Nat) :
    (c.setTracked key state).tracked[key']? =
      if key = key' then (c.tracked[key']?).map (fun e => { e with state := state })
      else c.tracked[key']? := by
  simp only [Collector.setTracked,Std.TreeMap.getElem?_modify,Nat.compare_eq_eq]
  split
  · rename_i h
    rw [h]
  · rfl

/-- Between two inner iterations no pointee is ready to free. -/
def Environment.Settled (env : Environment M) (c : Collector M) : Prop :=
  ∀ key e, c.tracked[key]? = some e → e.state ≠ .readyToFree ∧ env.countersPtr e.pointee = key

/-- The memory `m'` is what accesses of the inner iterations make of `m`. -/
inductive Environment.Accessed (env : Environment M) (m : M) : M → Prop where
  | refl : env.Accessed m m
  | traverse {m' : M} : env.Accessed m m' → env.Accessed m (env.traverse m').2
  | loadRelaxed {m' : M} (key shard : Nat) :
      env.Accessed m m' → env.Accessed m (env.loadRelaxed m' key shard).2
  | fetchAndClearTag {m' : M} (key shard : Nat) :
      env.Accessed m m' → env.Accessed m (env.fetchAndClearTag m' key shard).2
  | loadAcquire {m' : M} (key shard : Nat) :
      env.Accessed m m' → env.Accessed m (env.loadAcquire m' key shard).2
  | downgraded {m' : M} (p : Nat) :
      env.Accessed m m' → env.Accessed m (env.downgraded m' p).2
  | free {m' : M} (p : Nat) : env.Accessed m m' → env.Accessed m (env.free m' p).2

/-- Between `m` and the end of the run a pass without tags adds up to a negative number. -/
def Environment.ReadsNegative (env : Environment M) (m : M) : Prop :=
  ∃ key m₁ sum m₂, env.Accessed m m₁ ∧
    env.readRefCountSumIfAllTagsUnset key m₁ = (some sum,m₂) ∧ sum < 0

section Accessed

variable {m m₁ m₂ : M}

theorem Environment.Accessed.trans (h₁ : env.Accessed m m₁) (h₂ : env.Accessed m₁ m₂) :
    env.Accessed m m₂ := by
  induction h₂ with
  | refl => exact h₁
  | traverse _ ih => exact .traverse ih
  | loadRelaxed key shard _ ih => exact .loadRelaxed key shard ih
  | fetchAndClearTag key shard _ ih => exact .fetchAndClearTag key shard ih
  | loadAcquire key shard _ ih => exact .loadAcquire key shard ih
  | downgraded p _ ih => exact .downgraded p ih
  | free p _ ih => exact .free p ih

theorem Environment.ReadsNegative.before (h₁ : env.Accessed m m₁) (h : env.ReadsNegative m₁) :
    env.ReadsNegative m := by
  obtain ⟨key,m₂,sum,m₃,h₂,hread,hneg⟩ := h
  exact ⟨key,m₂,sum,m₃,h₁.trans h₂,hread,hneg⟩

theorem readRefCountSum_accessed {read : M → Nat → Counter × M}
    (hread : ∀ m₁ shard, env.Accessed m m₁ → env.Accessed m (read m₁ shard).2)
    (shards : List Nat) : ∀ {m₁ : M}, env.Accessed m m₁ →
      env.Accessed m (Environment.readRefCountSum read shards m₁).2 := by
  induction shards with
  | nil => exact fun h => h
  | cons shard shards ih => exact fun h => ih (hread _ shard h)

theorem readUntagged_accessed (key : Nat) (shards : List Nat) : ∀ {m₁ : M}, env.Accessed m m₁ →
    env.Accessed m (env.readUntagged key shards m₁).2 := by
  induction shards with
  | nil => exact fun h => h
  | cons shard shards ih =>
    intro m₁ h
    have hrest := ih (h.loadAcquire key shard)
    simp only [Environment.readUntagged]
    split
    · exact h.loadAcquire key shard
    · split
      · rename_i hnext
        rwa [hnext] at hrest
      · rename_i hnext
        rwa [hnext] at hrest

theorem clearWeakBackRef_accessed (p : Nat) (c : Collector M) :
    env.Accessed c.memory (env.clearWeakBackRef p c).2.memory := by
  have hread : env.Accessed c.memory (env.downgraded c.memory p).2 := .downgraded p .refl
  unfold Environment.clearWeakBackRef
  cases c.weakRefs p with
  | uninit =>
    dsimp only
    split <;> exact hread
  | _ => exact hread

theorem updateState_accessed {e : TrackedCounter} {state : TrackedCounterState}
    (h : env.updateState key e c = .ok (state,c')) : env.Accessed c.memory c'.memory := by
  unfold Environment.updateState at h
  cases hs : e.state with
  | defaultState =>
    have hrelaxed : env.Accessed c.memory (env.readRefCountSumRelaxed key c.memory).2 :=
      readRefCountSum_accessed (fun _ shard h => h.loadRelaxed key shard) _ .refl
    have hclear : env.Accessed c.memory (env.clearTagsAndReadRefCountSum key
        (env.readRefCountSumRelaxed key c.memory).2).2 :=
      readRefCountSum_accessed (fun _ shard h => h.fetchAndClearTag key shard) _ hrelaxed
    simp only [hs] at h
    split at h
    · split at h <;> obtain ⟨rfl,rfl⟩ := Prod.mk.inj (Except.ok.inj h) <;> exact hclear
    · obtain ⟨rfl,rfl⟩ := Prod.mk.inj (Except.ok.inj h)
      exact hrelaxed
  | requiresReChecking =>
    have hread : env.Accessed c.memory (env.readRefCountSumIfAllTagsUnset key c.memory).2 :=
      readUntagged_accessed key _ .refl
    simp only [hs] at h
    split at h
    · rename_i hnone
      rw [hnone] at hread
      obtain ⟨rfl,rfl⟩ := Prod.mk.inj (Except.ok.inj h)
      exact hread
    · rename_i sum m hsum
      rw [hsum] at hread
      split at h
      · have hclear := hread.trans (clearWeakBackRef_accessed e.pointee (c.setMemory m))
        split at h
        · rename_i hcleared
          rw [hcleared] at hclear
          obtain ⟨rfl,rfl⟩ := Prod.mk.inj (Except.ok.inj h)
          exact hclear
        · rename_i hcleared
          rw [hcleared] at hclear
          obtain ⟨rfl,rfl⟩ := Prod.mk.inj (Except.ok.inj h)
          exact hclear
      · split at h
        · obtain ⟨rfl,rfl⟩ := Prod.mk.inj (Except.ok.inj h)
          exact hread
        · contradiction
  | readyToFree =>
    simp only [hs] at h
    contradiction

end Accessed

theorem clearWeakBackRef_spec {r : ClearWeakBackRefResult}
    (h : env.clearWeakBackRef p c = (r,c')) :
    c'.tracked = c.tracked ∧ (∀ q, c.weakRefs q = .cleared → c'.weakRefs q = .cleared) ∧
      (r = .weakBackRefCleared → c.weakRefs p ≠ .cleared ∧ c'.weakRefs p = .cleared) := by
  have hcleared : ∀ m, c.weakRefs p ≠ .cleared →
      (.weakBackRefCleared,
        { c with memory := m, weakRefs := Function.update c.weakRefs p .cleared }) = (r,c') →
      c'.tracked = c.tracked ∧ (∀ q, c.weakRefs q = .cleared → c'.weakRefs q = .cleared) ∧
        (r = .weakBackRefCleared → c.weakRefs p ≠ .cleared ∧ c'.weakRefs p = .cleared) := by
    rintro m hp heq
    obtain ⟨rfl,rfl⟩ := Prod.mk.inj heq
    refine ⟨rfl,fun q hq => ?_,fun _ => ⟨hp,by simp⟩⟩
    by_cases hqp : q = p
    · simp [hqp]
    · simpa [hqp] using hq
  unfold Environment.clearWeakBackRef at h
  cases hweak : c.weakRefs p with
  | cleared =>
    simp only [hweak] at h
    obtain ⟨rfl,rfl⟩ := Prod.mk.inj h
    exact ⟨rfl,fun _ hq => hq,by simp⟩
  | linked =>
    simp only [hweak] at h
    exact hweak ▸ hcleared _ (by simp [hweak]) h
  | uninit =>
    simp only [hweak] at h
    split at h
    · exact hweak ▸ hcleared _ (by simp [hweak]) h
    · obtain ⟨rfl,rfl⟩ := Prod.mk.inj h
      exact ⟨rfl,fun _ hq => hq,by simp⟩

theorem updateState_ok {e : TrackedCounter} {state : TrackedCounterState}
    (h : env.updateState key e c = .ok (state,c')) :
    c'.tracked = c.tracked ∧ (∀ q, c.weakRefs q = .cleared → c'.weakRefs q = .cleared) ∧
      (state = .requiresReChecking → e.state = .defaultState ∨
        e.state = .requiresReChecking ∧ c.weakRefs e.pointee ≠ .cleared ∧
          c'.weakRefs e.pointee = .cleared) := by
  unfold Environment.updateState at h
  cases hs : e.state with
  | defaultState =>
    simp only [hs] at h
    split at h
    · split at h <;> obtain ⟨rfl,rfl⟩ := Prod.mk.inj (Except.ok.inj h) <;>
        exact ⟨rfl,fun _ hq => hq,fun _ => .inl rfl⟩
    · obtain ⟨rfl,rfl⟩ := Prod.mk.inj (Except.ok.inj h)
      exact ⟨rfl,fun _ hq => hq,fun _ => .inl rfl⟩
  | requiresReChecking =>
    simp only [hs] at h
    split at h
    · obtain ⟨rfl,rfl⟩ := Prod.mk.inj (Except.ok.inj h)
      exact ⟨rfl,fun _ hq => hq,by simp⟩
    · split at h
      · split at h
        · rename_i hclear
          obtain ⟨rfl,rfl⟩ := Prod.mk.inj (Except.ok.inj h)
          obtain ⟨htracked,hmono,hnew⟩ := clearWeakBackRef_spec hclear
          exact ⟨htracked,hmono,fun _ => .inr ⟨rfl,hnew rfl⟩⟩
        · rename_i hclear
          obtain ⟨rfl,rfl⟩ := Prod.mk.inj (Except.ok.inj h)
          obtain ⟨htracked,hmono,-⟩ := clearWeakBackRef_spec hclear
          exact ⟨htracked,hmono,by simp⟩
      · split at h
        · obtain ⟨rfl,rfl⟩ := Prod.mk.inj (Except.ok.inj h)
          exact ⟨rfl,fun _ hq => hq,by simp⟩
        · contradiction
  | readyToFree =>
    simp only [hs] at h
    contradiction

theorem updateState_error {e : TrackedCounter} {site : CollectorPanic}
    (h : env.updateState key e c = .error site) (he : e.state ≠ .readyToFree) :
    site = .updateState .negativeSumWithoutTag ∧ env.ReadsNegative c.memory := by
  unfold Environment.updateState at h
  cases hs : e.state with
  | defaultState =>
    simp only [hs] at h
    split at h
    · split at h <;> contradiction
    · contradiction
  | requiresReChecking =>
    simp only [hs] at h
    split at h
    · contradiction
    · rename_i sum m hread
      split at h
      · split at h <;> contradiction
      · split at h
        · contradiction
        · exact ⟨(Except.error.inj h).symm,key,c.memory,sum,m,.refl,hread,by omega⟩
  | readyToFree => exact absurd hs he

/-- What the loop over the keys `all` has made of `c₀`, with `todo` still to be visited. -/
structure Visited (env : Environment M) (c₀ : Collector M) (all todo : List Nat)
    (c : Collector M) (f : Found) : Prop where
  accessed : env.Accessed c₀.memory c.memory
  subset : ∀ key, key ∈ todo → key ∈ all
  size : c.tracked.size = c₀.tracked.size
  pointee : ∀ key : Nat, (c.tracked[key]?).map TrackedCounter.pointee =
    (c₀.tracked[key]?).map TrackedCounter.pointee
  rest : ∀ key : Nat, key ∈ todo → c.tracked[key]? = c₀.tracked[key]?
  visited : ∀ key, key ∈ f.newToReCheck → key ∈ all ∧ key ∉ todo
  toFreeNodup : f.toFree.Nodup
  ready : ∀ key : Nat, key ∈ f.toFree ↔ ∃ e, c.tracked[key]? = some e ∧ e.state = .readyToFree
  cleared : ∀ q, c₀.weakRefs q = .cleared → c.weakRefs q = .cleared
  reCheck : ∀ key : Nat, key ∈ f.newToReCheck → ∃ e₀ e, c₀.tracked[key]? = some e₀ ∧
    c.tracked[key]? = some e ∧ e.state = .requiresReChecking ∧ e.pointee = e₀.pointee ∧
    (e₀.state = .defaultState ∨
      c₀.weakRefs e.pointee ≠ .cleared ∧ c.weakRefs e.pointee = .cleared)

theorem Visited.start (hc : env.Settled c) (todo : List Nat) {m : M}
    (hm : env.Accessed c.memory m) : Visited env c todo todo (c.setMemory m) ⟨∅,[]⟩ where
  accessed := hm
  subset _ hkey := hkey
  size := rfl
  pointee _ := rfl
  rest _ _ := rfl
  visited _ hkey := absurd hkey Std.TreeSet.not_mem_emptyc
  toFreeNodup := List.nodup_nil
  ready key := ⟨fun h => absurd h List.not_mem_nil,fun ⟨e,he,hready⟩ =>
    absurd hready (hc key e he).1⟩
  cleared _ hq := hq
  reCheck _ hkey := absurd hkey Std.TreeSet.not_mem_emptyc

theorem Visited.skip {c₀ : Collector M} {all todo : List Nat} {f : Found}
    (h : Visited env c₀ all (key :: todo) c f) : Visited env c₀ all todo c f :=
  ⟨h.accessed,fun k hk => h.subset k (List.mem_cons_of_mem _ hk),h.size,h.pointee,
    fun k hk => h.rest k (List.mem_cons_of_mem _ hk),
    fun k hk => ⟨(h.visited k hk).1,fun hmem => (h.visited k hk).2 (List.mem_cons_of_mem _ hmem)⟩,
    h.toFreeNodup,h.ready,h.cleared,h.reCheck⟩

theorem Visited.visit {c₀ : Collector M} {all todo : List Nat} {f : Found}
    {e : TrackedCounter} (state : TrackedCounterState) (h : Visited env c₀ all (key :: todo) c f)
    (hnodup : (key :: todo).Nodup) (he : c.tracked[key]? = some e)
    (hready : e.state ≠ .readyToFree) (haccessed : env.Accessed c.memory c'.memory)
    (htracked : c'.tracked = c.tracked)
    (hcleared : ∀ q, c.weakRefs q = .cleared → c'.weakRefs q = .cleared)
    (hreCheck : state = .requiresReChecking → e.state = .defaultState ∨
      c.weakRefs e.pointee ≠ .cleared ∧ c'.weakRefs e.pointee = .cleared) :
    Visited env c₀ all todo (c'.setTracked key state) (f.classify key state) := by
  have hnot : key ∉ todo := (List.nodup_cons.mp hnodup).1
  have hself : (c'.setTracked key state).tracked[key]? = some { e with state := state } := by
    rw [getElem?_setTracked,if_pos rfl,htracked,he]
    rfl
  have hother : ∀ k, k ≠ key → (c'.setTracked key state).tracked[k]? = c.tracked[k]? := by
    intro k hk
    rw [getElem?_setTracked,if_neg (Ne.symm hk),htracked]
  have hfree : key ∉ f.toFree := by
    intro hmem
    obtain ⟨e',he',hr⟩ := (h.ready key).mp hmem
    rw [he] at he'
    exact hready (Option.some.inj he' ▸ hr)
  have hmem : ∀ k, k ∈ (f.classify key state).newToReCheck →
      k = key ∧ state = .requiresReChecking ∨ k ≠ key ∧ k ∈ f.newToReCheck := by
    intro k hk
    by_cases hkk : k = key
    · subst hkk
      refine .inl ⟨rfl,?_⟩
      cases state with
      | requiresReChecking => rfl
      | _ => exact absurd List.mem_cons_self (h.visited k hk).2
    · refine .inr ⟨hkk,?_⟩
      cases state with
      | requiresReChecking =>
        simpa [Found.classify,Std.TreeSet.mem_insert,Ne.symm hkk] using hk
      | _ => exact hk
  refine ⟨h.accessed.trans haccessed,fun k hk => h.subset k (List.mem_cons_of_mem _ hk),?_,
    fun k => ?_,fun k hk => ?_,
    fun k hk => ?_,?_,fun k => ?_,fun q hq => hcleared q (h.cleared q hq),fun k hk => ?_⟩
  · simp only [Collector.setTracked,Std.TreeMap.size_modify,htracked]
    exact h.size
  · by_cases hk : k = key
    · rw [hk,hself,← h.pointee,he]
      rfl
    · rw [hother k hk]
      exact h.pointee k
  · have hne : k ≠ key := fun heq => hnot (heq ▸ hk)
    rw [hother k hne]
    exact h.rest k (List.mem_cons_of_mem _ hk)
  · rcases hmem k hk with ⟨rfl,-⟩ | ⟨-,hk⟩
    · exact ⟨h.subset k List.mem_cons_self,hnot⟩
    · obtain ⟨hall,htodo⟩ := h.visited k hk
      exact ⟨hall,fun hmem => htodo (List.mem_cons_of_mem _ hmem)⟩
  · cases state with
    | readyToFree =>
      refine List.nodup_append.mpr ⟨h.toFreeNodup,by simp,fun k hk k' hk' heq => ?_⟩
      exact hfree (List.mem_singleton.mp hk' ▸ heq ▸ hk)
    | _ => exact h.toFreeNodup
  · by_cases hk : k = key
    · subst hk
      rw [hself]
      cases state <;> simp [Found.classify,hfree]
    · rw [hother k hk,← h.ready k]
      cases state <;> simp [Found.classify,hk]
  · rcases hmem k hk with ⟨rfl,hstate⟩ | ⟨hkk,hk⟩
    · have hold := h.rest k List.mem_cons_self
      rw [he] at hold
      exact ⟨e,_,hold.symm,hself,hstate,rfl,(hreCheck hstate).imp id
        (fun hw => ⟨fun hq => hw.1 (h.cleared _ hq),hw.2⟩)⟩
    · obtain ⟨e₀,e',he₀,he',hs,hp,hor⟩ := h.reCheck k hk
      exact ⟨e₀,e',he₀,(hother k hkk).trans he',hs,hp,hor.imp id
        (fun hw => ⟨hw.1,hcleared _ hw.2⟩)⟩

def Environment.Keyed (env : Environment M) (c : Collector M) : Prop :=
  ∀ (key : Nat) e, c.tracked[key]? = some e → env.countersPtr e.pointee = key

theorem visitKeys_spec {c₀ : Collector M} (hazard : Finset Nat) {all todo : List Nat} :
    ∀ {c : Collector M} {f : Found}, todo.Nodup →
      (∀ (key : Nat) e, c₀.tracked[key]? = some e → e.state ≠ .readyToFree) →
      Visited env c₀ all todo c f →
      (∀ c' f', env.visitKeys hazard todo c f = .ok (c',f') → Visited env c₀ all [] c' f') ∧
      ∀ site, env.visitKeys hazard todo c f = .error site →
        site = .updateState .negativeSumWithoutTag ∧ env.ReadsNegative c₀.memory := by
  induction todo with
  | nil =>
    intro c f _ _ h
    refine ⟨fun c' f' heq => ?_,fun site heq => by simp [Environment.visitKeys] at heq⟩
    obtain ⟨rfl,rfl⟩ := Prod.mk.inj (Except.ok.inj heq)
    exact h
  | cons key todo ih =>
    intro c f hnodup hready h
    have hrest := (List.nodup_cons.mp hnodup).2
    simp only [Environment.visitKeys]
    cases he : c.tracked[key]? with
    | none => exact ih hrest hready h.skip
    | some e =>
      have hne : e.state ≠ .readyToFree := by
        rw [h.rest key List.mem_cons_self] at he
        exact hready key e he
      by_cases hhazard : env.ptr e.pointee ∈ hazard
      · simp only [hhazard,if_true]
        exact ih hrest hready (h.visit .defaultState hnodup he hne .refl rfl (fun _ hq => hq) (by simp))
      · simp only [hhazard,if_false]
        cases hupdate : env.updateState key e c with
        | error site =>
          refine ⟨fun _ _ heq => by simp at heq,fun site' heq => ?_⟩
          obtain ⟨hsite,hneg⟩ := updateState_error hupdate hne
          exact ⟨Except.error.inj heq ▸ hsite,hneg.before h.accessed⟩
        | ok r =>
          obtain ⟨htracked,hcleared,hreCheck⟩ := updateState_ok hupdate
          exact ih hrest hready (h.visit _ hnodup he hne (updateState_accessed hupdate) htracked hcleared
            (fun hs => (hreCheck hs).imp id (fun hw => hw.2)))

theorem freePointers_spec {toFree : List Nat} :
    ∀ {c : Collector M} (toReCheck : List Nat), toFree.Nodup → env.Keyed c →
      (∀ key : Nat, key ∈ toFree → ∃ e, c.tracked[key]? = some e ∧ e.state = .readyToFree) →
      ∃ c' toReCheck', env.freePointers toFree c toReCheck = .ok (c',toReCheck') ∧
        c'.tracked.size + toFree.length = c.tracked.size ∧
        (∀ key : Nat, c'.tracked[key]? = if key ∈ toFree then none else c.tracked[key]?) ∧
        c'.weakRefs = c.weakRefs ∧ (toFree = [] → toReCheck' = toReCheck) ∧
        env.Accessed c.memory c'.memory := by
  induction toFree with
  | nil =>
    intro c toReCheck _ _ _
    exact ⟨c,toReCheck,rfl,rfl,by simp,rfl,fun _ => rfl,.refl⟩
  | cons key toFree ih =>
    intro c toReCheck hnodup hkeyed hready
    obtain ⟨hnot,hrest⟩ := List.nodup_cons.mp hnodup
    obtain ⟨e,he,hstate⟩ := hready key List.mem_cons_self
    have hother : ∀ k : Nat, k ≠ key → (c.tracked.erase key)[k]? = c.tracked[k]? := by
      intro k hk
      rw [Std.TreeMap.getElem?_erase,if_neg (by simpa using Ne.symm hk)]
    have hkeyed' : env.Keyed
        { c with memory := (env.free c.memory e.pointee).2, tracked := c.tracked.erase key } := by
      intro k e' he'
      by_cases hk : k = key
      · subst hk
        simp at he'
      · exact hkeyed k e' ((hother k hk).symm.trans he')
    obtain ⟨c',toReCheck',hfree,hsize,htracked,hweak,-,haccessed⟩ := ih
      (toReCheck ++ (env.free c.memory e.pointee).1) hrest hkeyed'
      (fun k hk => by
        obtain ⟨e',he',hs⟩ := hready k (List.mem_cons_of_mem _ hk)
        exact ⟨e',(hother k (fun heq => hnot (heq ▸ hk))).trans he',hs⟩)
    have hfirst : env.Accessed c.memory (env.free c.memory e.pointee).2 := .free _ .refl
    refine ⟨c',toReCheck',?_,?_,fun k => ?_,hweak,by simp,hfirst.trans haccessed⟩
    · simp only [Environment.freePointers,he,hstate,ne_eq,not_true_eq_false,if_false,
        hkeyed key e he]
      exact hfree
    · have hmem : key ∈ c.tracked := Std.TreeMap.mem_iff_isSome_getElem?.mpr (by simp [he])
      have hpos : c.tracked.size ≠ 0 := by
        intro hzero
        have hempty : c.tracked.isEmpty = true := by
          rw [Std.TreeMap.isEmpty_eq_size_eq_zero,hzero]
          rfl
        exact Std.TreeMap.isEmpty_iff_forall_not_mem.mp hempty key hmem
      rw [Std.TreeMap.size_erase,if_pos (Std.TreeMap.contains_iff_mem.mpr hmem)] at hsize
      rw [List.length_cons]
      omega
    · rw [htracked k]
      by_cases hk : k = key
      · subst hk
        simp
      · simp [hk,hother k hk]

theorem innerIteration_spec {todo : List Nat} (hnodup : todo.Nodup) (hc : env.Settled c) :
    (∀ S c', env.innerIteration todo c = .ok (S,c') →
      env.Settled c' ∧ env.Accessed c.memory c'.memory ∧
      (∀ q, c.weakRefs q = .cleared → c'.weakRefs q = .cleared) ∧
      (c'.tracked.size < c.tracked.size ∨
        c'.tracked.size = c.tracked.size ∧ ∀ key : Nat, key ∈ S → key ∈ todo ∧ ∃ e₀ e,
          c.tracked[key]? = some e₀ ∧ c'.tracked[key]? = some e ∧
          e.state = .requiresReChecking ∧ e.pointee = e₀.pointee ∧
          (e₀.state = .defaultState ∨
            c.weakRefs e.pointee ≠ .cleared ∧ c'.weakRefs e.pointee = .cleared))) ∧
    ∀ site, env.innerIteration todo c = .error site →
      site = .updateState .negativeSumWithoutTag ∧ env.ReadsNegative c.memory := by
  obtain ⟨hok,herror⟩ := visitKeys_spec (env.traverse c.memory).1 hnodup
    (fun key e he => (hc key e he).1) (Visited.start hc todo (.traverse .refl))
  simp only [Environment.innerIteration]
  cases hvisit : env.visitKeys (env.traverse c.memory).1 todo
      (c.setMemory (env.traverse c.memory).2) ⟨∅,[]⟩ with
  | error site =>
    refine ⟨fun _ _ heq => by simp at heq,fun site' heq => ?_⟩
    exact Except.error.inj heq ▸ herror site hvisit
  | ok r =>
    obtain ⟨c₁,f⟩ := r
    have h := hok c₁ f hvisit
    have hkeyed : env.Keyed c₁ := by
      intro key e he
      have hp := h.pointee key
      rw [he] at hp
      obtain ⟨e₀,he₀,hsame⟩ := Option.map_eq_some_iff.mp hp.symm
      rw [← hsame]
      exact (hc key e₀ he₀).2
    obtain ⟨c₂,toReCheck,hfree,hsize,htracked,hweak,hnone,haccessed⟩ := freePointers_spec
      [] h.toFreeNodup hkeyed (fun key hkey => (h.ready key).mp hkey)
    have hsub : ∀ (key : Nat) e, c₂.tracked[key]? = some e →
        key ∉ f.toFree ∧ c₁.tracked[key]? = some e := by
      intro key e he
      rw [htracked key] at he
      split at he
      · contradiction
      · exact ⟨‹_›,he⟩
    simp only [hfree]
    refine ⟨fun S c' heq => ?_,fun site heq => by simp at heq⟩
    obtain ⟨rfl,rfl⟩ := Prod.mk.inj (Except.ok.inj heq)
    refine ⟨fun key e he => ?_,h.accessed.trans haccessed,
      fun q hq => hweak ▸ h.cleared q hq,?_⟩
    · obtain ⟨hnot,he₁⟩ := hsub key e he
      exact ⟨fun hready => hnot ((h.ready key).mpr ⟨e,he₁,hready⟩),hkeyed key e he₁⟩
    · cases hf : f.toFree with
      | cons key rest =>
        rw [hf,List.length_cons] at hsize
        have := h.size
        exact .inl (by omega)
      | nil =>
        rw [hf,List.length_nil] at hsize
        refine .inr ⟨hsize.trans h.size,fun key hkey => ?_⟩
        have hkey : key ∈ f.newToReCheck := by
          rw [hnone hf] at hkey
          simpa using hkey
        obtain ⟨e₀,e,he₀,he,hs,hp,hor⟩ := h.reCheck key hkey
        refine ⟨(h.visited key hkey).1,e₀,e,he₀,?_,hs,hp,hweak ▸ hor⟩
        rw [htracked key,hf]
        simpa using he

def ReCheckedWithin (c : Collector M) (S : Std.TreeSet Nat) : Nat → Prop
  | 0 => S.isEmpty = true
  | 1 => ∀ (key : Nat) e, key ∈ S → c.tracked[key]? = some e →
      e.state = .requiresReChecking ∧ c.weakRefs e.pointee = .cleared
  | 2 => ∀ (key : Nat) e, key ∈ S → c.tracked[key]? = some e → e.state = .requiresReChecking
  | _ => True

theorem ReCheckedWithin.next {S S' : Std.TreeSet Nat} {r : Nat} (hr : r ≤ 3)
    (h : ReCheckedWithin c S r) (hsome : S.isEmpty = false) (hc : env.Settled c)
    (hupdate : env.updateSpecificCounters S c = .ok (S',c')) :
    env.Settled c' ∧ env.Accessed c.memory c'.memory ∧ ∃ r', r' ≤ 3 ∧ ReCheckedWithin c' S' r' ∧
      3 * c'.tracked.size + r' + 1 ≤ 3 * c.tracked.size + r := by
  have hnodup : S.toList.Nodup :=
    Std.TreeSet.distinct_toList.imp fun hne heq => hne (by simp [heq])
  obtain ⟨hc',haccessed,-,hlt | ⟨hsize,hkeys⟩⟩ := (innerIteration_spec hnodup hc).1 S' c' hupdate
  · refine ⟨hc',haccessed,3,le_rfl,trivial,?_⟩
    have hpos : 0 < r := by
      rcases Nat.eq_zero_or_pos r with rfl | hpos
      · simp [ReCheckedWithin,hsome] at h
      · exact hpos
    omega
  · have hkey : ∀ (key : Nat) e, key ∈ S' → c'.tracked[key]? = some e → ∃ e₀, key ∈ S ∧
        c.tracked[key]? = some e₀ ∧ e.state = .requiresReChecking ∧ e.pointee = e₀.pointee ∧
        (e₀.state = .defaultState ∨
          c.weakRefs e.pointee ≠ .cleared ∧ c'.weakRefs e.pointee = .cleared) := by
      intro key e hmem he
      obtain ⟨htodo,e₀,e',he₀,he',hs,hp,hor⟩ := hkeys key hmem
      obtain rfl : e = e' := Option.some.inj (he.symm.trans he')
      exact ⟨e₀,by simpa using htodo,he₀,hs,hp,hor⟩
    match r, hr, h with
    | 0, _, h => simp [ReCheckedWithin,hsome] at h
    | 1, _, h =>
      refine ⟨hc',haccessed,0,by omega,?_,by omega⟩
      refine Std.TreeSet.isEmpty_iff_forall_not_mem.mpr (fun key hmem => ?_)
      obtain ⟨-,e₀,e,he₀,he,-⟩ := hkeys key hmem
      obtain ⟨e₁,hS,he₁,-,hp,hor⟩ := hkey key e hmem he
      obtain ⟨hstate,hcleared⟩ := h key e₁ hS he₁
      rcases hor with hdefault | ⟨hnot,-⟩
      · rw [hstate] at hdefault
        contradiction
      · exact hnot (hp ▸ hcleared)
    | 2, _, h =>
      refine ⟨hc',haccessed,1,by omega,fun key e hmem he => ?_,by omega⟩
      obtain ⟨e₀,hS,he₀,hs,-,hor⟩ := hkey key e hmem he
      refine ⟨hs,?_⟩
      rcases hor with hdefault | ⟨-,hcleared⟩
      · rw [h key e₀ hS he₀] at hdefault
        contradiction
      · exact hcleared
    | 3, _, _ =>
      refine ⟨hc',haccessed,2,by omega,fun key e hmem he => ?_,by omega⟩
      obtain ⟨e₀,-,-,hs,-⟩ := hkey key e hmem he
      exact hs

end Sdarc.Collection
