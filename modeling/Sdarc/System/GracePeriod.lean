import Sdarc.System.HazardRecords
import Sdarc.System.HeavyFence
set_option autoImplicit false

/-!
What one traversal of the hazard records waits for and what it finds, over the whole
history of the delayed process: it ends after every reader that was in its critical section
at the heavy fence has left, and each slot is read at some instant since the fence.
-/

namespace Sdarc.System
open Transition

def State.isTraversing (s : State) : Bool :=
  match s.collector with
  | .traversing _ _ _ _ => true
  | _ => false

structure State.ReadsIn (s : State) (t r : Nat) : Prop where
  inSection : (s.threads t).pc.inSection
  record : (s.threads t).record = .held r

section Reader

variable {cfg : Config} {s s' : State} {t r : Nat}

theorem State.ReadsIn.flag (h : s.ReadsIn t r) (hr : Records s) :
    (s.records r).flag = true ∧ r < s.recordCount :=
  ⟨(hr.holding h.record).2.flag.mpr h.inSection,(hr.holding h.record).1⟩

theorem ThreadStep.readsIn {op : Op} (hs : ThreadStep cfg s t op s') (h : s.ReadsIn t r)
    (hop : op ≠ .leaveSection) : s'.ReadsIn t r := by
  obtain ⟨hin,hrec⟩ := h
  cases hs with
  | stay => exact ⟨hin,hrec⟩
  | loadNull src after hpc _ => exact ⟨by simp [ThreadPc.inSection],by simpa using hrec⟩
  | loadPointer src after p hpc _ => exact ⟨by simp [ThreadPc.inSection],by simpa using hrec⟩
  | loadIncrement src after p shard hpc _ =>
    exact ⟨by simp [ThreadPc.inSection],by simpa using hrec⟩
  | leaveSection => contradiction
  | leaveSectionDrop => contradiction
  | sdarcNew _ _ _ _ hstart | clone _ _ hstart | dropHandle _ hstart | swap _ _ _ hstart
    | store _ _ _ hstart | loadOwned _ hstart | syncTo _ _ hstart | borrow _ _ hstart
    | dropGuard _ _ _ hstart | release _ hstart | releaseFailed _ hstart | setNull _ _ hstart
    | compareAndSet _ _ _ hstart | downgrade _ hstart | collectorUpdateNowAndWait hstart =>
    simp [hstart.1,ThreadPc.inSection] at hin
  | obtain hnone => simp [hnone] at hrec
  | recordUsed _ _ hscan | claimRecord _ _ hscan | pushRecord _ _ hscan =>
    simp [hscan] at hrec
  | _ => simp_all [ThreadPc.inSection]

theorem SystemStep.readsIn {a : Action} (hs : SystemStep cfg s a s') (h : s.ReadsIn t r)
    (ha : a ≠ .thread t .leaveSection) : s'.ReadsIn t r := by
  cases hs with
  | thread u op _ _ hs =>
    by_cases hu : t = u
    · subst hu
      exact hs.readsIn h (fun hop => ha (by rw [hop]))
    · exact ⟨by rw [hs.others hu]; exact h.inSection,by rw [hs.others hu]; exact h.record⟩
  | collector _ hs =>
    exact ⟨hs.sameRecord.inSection.mpr h.inSection,hs.sameRecord.record.trans h.record⟩
  | finishDestructor => exact ⟨h.inSection,h.record⟩

theorem DelayedStep.readsIn {heavy : Bool} {s s' : Delayed} {a : DelayedAction}
    (hs : DelayedStep heavy cfg s a s') (h : s.process.ReadsIn t r)
    (ha : a ≠ .process (.thread t .leaveSection)) : s'.process.ReadsIn t r := by
  cases hs with
  | advance a process _ hs _ => exact hs.readsIn h (fun heq => ha (by rw [heq]))
  | beginTraversal a process hs _ _ => exact hs.readsIn h (fun heq => ha (by rw [heq]))
  | spin => exact h
  | _ => exact ⟨h.inSection,h.record⟩

end Reader

section Hazards

variable {cfg : Config}

theorem Hazards.traverse {s : State} {it it' : Iter} {len r j r' j' : Nat}
    (h : Hazards cfg s) (hc : s.collector = .traversing it len r j)
    (htodo : it'.todo = it.todo) (hfree : it'.toFree = it.toFree) :
    Hazards cfg (s.goto (.traversing it' len r' j')) where
  tracking :=
    ⟨h.tracking.places.of_same (.of_goto (by simp [hc,CollectorPc.taken])),
      h.tracking.lists.traverse hc rfl rfl htodo hfree⟩
  born := ⟨h.born.live,h.born.cells,h.born.backRef,h.born.weakInnerRef,h.born.threads⟩
  records := h.records.of_same (fun _ => .refl _) rfl rfl (fun _ _ => rfl) le_rfl
  owned := ⟨h.owned.owner,h.owned.published⟩

theorem Hazards.delayed {heavy : Bool} {s s' : Delayed} {a : DelayedAction}
    (h : Hazards cfg s.process) (hs : DelayedStep heavy cfg s a s') :
    Hazards cfg s'.process := by
  cases hs with
  | advance a process _ hs _ => exact h.step hs
  | beginTraversal a process hs _ _ => exact h.step hs
  | readEmptySlot it len r j hc _ _ => exact h.traverse hc rfl rfl
  | readSlot it len r j address hc _ _ => exact h.traverse hc rfl rfl
  | spin => exact h
  | poll it len r j hc _ _ _ => exact h.traverse hc rfl rfl

end Hazards

theorem CollectorStep.begins {cfg : Config} {s s' : State} (hs : CollectorStep cfg s s')
    (hb : s.beginsTraversal s' = true) :
    ∃ it, s'.collector = .traversing it s'.recordCount 0 0 ∧ it.hazard = ∅ := by
  have hresume : ∀ (s₁ : State) (it : Iter) (key : Nat) (result : UpdateResult),
      s.beginsTraversal (s₁.resume it key result) = false := by
    intro s₁ it key result
    unfold State.beginsTraversal
    cases result <;> simp [State.resume] <;> split <;> simp_all
  cases hs with
  | startIteration shard hc _ => exact ⟨_,rfl,rfl⟩
  | nextIteration it hc _ _ _ => exact ⟨_,rfl,rfl⟩
  | readEmptySlot it len r j hc => simp [State.beginsTraversal,hc] at hb
  | readSlot it len r j address hc => simp [State.beginsTraversal,hc] at hb
  | poll it len r j hc => simp [State.beginsTraversal,hc] at hb
  | spin it len r j hc => simp [State.beginsTraversal,hc] at hb
  | startUpdate => simp [hresume] at hb
  | readShard => simp [hresume] at hb
  | finishPass => simp [hresume] at hb
  | weakRefNotInvolved => simp [hresume] at hb
  | weakBackRefCleared => simp [hresume] at hb
  | weakBackRefWasAlreadyNull => simp [hresume] at hb
  | _ =>
    unfold State.beginsTraversal at hb
    split at hb <;> simp_all

theorem CollectorStep.endsTraversal {cfg : Config} {s s' : State} (hs : CollectorStep cfg s s')
    {it : Iter} {len r j : Nat} (hc : s.collector = .traversing it len r j)
    (hread : s.readsSignal = false) : s' = s ∨ len ≤ r ∧ s' = s.goto (.visiting it) := by
  have hlen : len ≤ r := by simpa [State.readsSignal,hc] using hread
  cases hs with
  | endTraversal it' len' r' j' hc' _ =>
    obtain ⟨rfl,rfl,rfl,rfl⟩ := CollectorPc.traversing.inj (hc.symm.trans hc')
    exact .inr ⟨hlen,rfl⟩
  | readEmptySlot it' len' r' j' hc' hr =>
    obtain ⟨rfl,rfl,rfl,rfl⟩ := CollectorPc.traversing.inj (hc.symm.trans hc')
    omega
  | readSlot it' len' r' j' address hc' hr =>
    obtain ⟨rfl,rfl,rfl,rfl⟩ := CollectorPc.traversing.inj (hc.symm.trans hc')
    omega
  | poll it' len' r' j' hc' hr =>
    obtain ⟨rfl,rfl,rfl,rfl⟩ := CollectorPc.traversing.inj (hc.symm.trans hc')
    omega
  | spin => exact .inl rfl
  | _ => simp_all

theorem State.not_begins_of_traversing {s : State} (hin : s.isTraversing = true) (s' : State) :
    s.beginsTraversal s' = false := by
  unfold isTraversing at hin
  unfold beginsTraversal
  split at hin <;> simp_all

theorem State.not_begins_of_collector {s s' : State} (h : s'.collector = s.collector) :
    s.beginsTraversal s' = false := by
  cases hc : s.collector <;> simp [beginsTraversal,h,hc]

theorem Delayed.after_process (s : Delayed) : s.after s.process = s := by
  simp [after,noteStore]

section Moves

variable {cfg : Config} {s s' : Delayed} {b : DelayedAction}

theorem DelayedStep.begins (hs : DelayedStep true cfg s b s')
    (hb : s.process.beginsTraversal s'.process = true) :
    s' = s'.heavyFence ∧
      ∃ it, s'.process.collector = .traversing it s'.process.recordCount 0 0 ∧
        it.hazard = ∅ := by
  have hnot : s.process.isTraversing = false := by
    cases hin : s.process.isTraversing with
    | false => rfl
    | true => rw [State.not_begins_of_traversing hin] at hb; contradiction
  cases hs with
  | advance a process _ _ hnot' =>
    simp only [Bool.true_and] at hnot'
    exact absurd hb (by simp [Delayed.after,hnot'])
  | beginTraversal a process hs _ hbegins =>
    refine ⟨rfl,?_⟩
    cases hs with
    | thread t op _ _ hs =>
      rw [State.not_begins_of_collector hs.collector.1] at hbegins
      contradiction
    | collector _ hs => exact hs.begins hbegins
    | finishDestructor panicked it p hc _ _ => simp [State.beginsTraversal,hc] at hbegins
  | readEmptySlot it len r j hc _ _ => simp [State.isTraversing,hc] at hnot
  | readSlot it len r j address hc _ _ => simp [State.isTraversing,hc] at hnot
  | spin =>
    rw [State.not_begins_of_collector rfl] at hb
    contradiction
  | poll it len r j hc _ _ _ => simp [State.isTraversing,hc] at hnot

inductive TraversalStep (s s' : Delayed) : Prop where
  | stay : s'.process.collector = s.process.collector → s' = s.after s'.process →
      TraversalStep s s'
  | readSlot (it it' : Iter) (len r j : Nat) (slot : Option Nat) :
      s.process.collector = .traversing it len r j →
      s' = s.goto (.traversing it' len r (j+1)) → slot ∈ s.slots r j →
      it.hazard ⊆ it'.hazard → (∀ address, slot = some address → address ∈ it'.hazard) →
      (∀ address, address ∈ it'.hazard → address ∈ it.hazard ∨ slot = some address) →
      TraversalStep s s'
  | poll (it : Iter) (len r j : Nat) :
      s.process.collector = .traversing it len r j → HZ_PTR_SLOT_COUNT ≤ j →
      s' = s.goto (.traversing it len (r+1) 0) → false ∈ s.flags r → TraversalStep s s'
  | ends (it : Iter) (len r j : Nat) :
      s.process.collector = .traversing it len r j → len ≤ r →
      s'.process.collector = .visiting it → TraversalStep s s'

theorem DelayedStep.traversalStep (hs : DelayedStep true cfg s b s')
    (hin : s.process.isTraversing = true) : TraversalStep s s' := by
  cases hs with
  | advance a process hread hs _ =>
    cases hs with
    | thread t op _ _ hs => exact .stay hs.collector.1 rfl
    | collector _ hs =>
      have hreads : s.process.readsSignal = false := by simpa using hread
      unfold State.isTraversing at hin
      split at hin
      · rename_i it len r j hc
        rcases hs.endsTraversal hc hreads with rfl | ⟨hlen,rfl⟩
        · exact .stay rfl rfl
        · exact .ends it len r j hc hlen rfl
      · contradiction
    | finishDestructor panicked it p hc _ _ => simp [State.isTraversing,hc] at hin
  | beginTraversal a process _ _ hbegins =>
    rw [State.not_begins_of_traversing hin] at hbegins
    contradiction
  | readEmptySlot it len r j hc _ hslot =>
    exact .readSlot it it len r j none hc rfl hslot (fun _ h => h) (by simp) (fun _ => .inl)
  | readSlot it len r j address hc _ hslot =>
    refine .readSlot it _ len r j (some address) hc rfl hslot (Finset.subset_insert _ _) ?_ ?_
    · rintro x ⟨⟩
      exact Finset.mem_insert_self _ _
    · intro x hx
      rcases Finset.mem_insert.mp hx with rfl | hx
      · exact .inr rfl
      · exact .inl hx
  | spin => exact .stay rfl s.after_process.symm
  | poll it len r j hc _ hj hflag => exact .poll it len r j hc hj rfl hflag

end Moves

section Scan

variable {cfg : Config} {N a k : Nat}

/-- `P` has held of the process at an instant after step `a` and up to step `k`. -/
def Since (e : Execution (delayedStep true cfg) N) (a k : Nat) (P : State → Prop) : Prop :=
  ∃ m, a < m ∧ m ≤ k ∧ P (e.state m).process

variable {e : Execution (delayedStep true cfg) N}

theorem Since.later {P : State → Prop} (h : Since e a k P) : Since e a (k+1) P := by
  obtain ⟨m,ham,hmk,hm⟩ := h
  exact ⟨m,ham,by omega,hm⟩

theorem Since.now {P : State → Prop} (hak : a < k) (h : P (e.state k).process) :
    Since e a k P :=
  ⟨k,hak,le_rfl,h⟩

/-- The traversal that step `a` has begun, up to step `k`: what can be read, what has been
polled and read, and what has been found. -/
structure Scanned (e : Execution (delayedStep true cfg) N) (a k : Nat) : Prop where
  flags : ∀ r flag, flag ∈ (e.state k).flags r →
    Since e a k (fun s => (s.records r).flag = flag)
  slots : ∀ r j slot, slot ∈ (e.state k).slots r j →
    Since e a k (fun s => (s.records r).slots j = slot)
  length : ∀ it len r j, (e.state k).process.collector = .traversing it len r j →
    len = (e.state (a+1)).process.recordCount
  polled : ∀ it len r j, (e.state k).process.collector = .traversing it len r j →
    ∀ r', r' < r → Since e a k (fun s => (s.records r').flag = false)
  read : ∀ it len r j, (e.state k).process.collector = .traversing it len r j →
    ∀ r' j', r' < r ∨ r' = r ∧ j' < j → j' < HZ_PTR_SLOT_COUNT →
      ∃ slot, Since e a k (fun s => (s.records r').slots j' = slot) ∧
        ∀ address, slot = some address → address ∈ it.hazard
  found : ∀ it len r j, (e.state k).process.collector = .traversing it len r j →
    ∀ address, address ∈ it.hazard →
      ∃ r' j', Since e a k (fun s => (s.records r').slots j' = some address)

theorem mem_noteStore_cases {β : Type} [DecidableEq β] {old new x : β} {values : List β}
    (hx : x ∈ noteStore old new values) : x = new ∨ x ∈ values := by
  unfold noteStore at hx
  split at hx
  · exact .inr hx
  · exact List.mem_cons.mp hx

theorem Scanned.stay (h : Scanned e a k) (hak : a < k)
    (hcollector : (e.state (k+1)).process.collector = (e.state k).process.collector)
    (hnext : e.state (k+1) = (e.state k).after (e.state (k+1)).process) :
    Scanned e a (k+1) where
  flags r flag hf := by
    rw [hnext] at hf
    rcases mem_noteStore_cases hf with rfl | hold
    · exact .now (by omega) rfl
    · exact (h.flags r flag hold).later
  slots r j slot hs := by
    rw [hnext] at hs
    rcases mem_noteStore_cases hs with rfl | hold
    · exact .now (by omega) rfl
    · exact (h.slots r j slot hold).later
  length it len r j hc := h.length it len r j (hcollector ▸ hc)
  polled it len r j hc r' hr' := (h.polled it len r j (hcollector ▸ hc) r' hr').later
  read it len r j hc r' j' hlt hj' := by
    obtain ⟨slot,hs,haddress⟩ := h.read it len r j (hcollector ▸ hc) r' j' hlt hj'
    exact ⟨slot,hs.later,haddress⟩
  found it len r j hc address hmem := by
    obtain ⟨r',j',hs⟩ := h.found it len r j (hcollector ▸ hc) address hmem
    exact ⟨r',j',hs.later⟩

theorem Scanned.readSlot {it it' : Iter} {len r j : Nat} {slot : Option Nat}
    (h : Scanned e a k) (hc : (e.state k).process.collector = .traversing it len r j)
    (hnext : e.state (k+1) = (e.state k).goto (.traversing it' len r (j+1)))
    (hslot : slot ∈ (e.state k).slots r j) (hold : it.hazard ⊆ it'.hazard)
    (hnew : ∀ address, slot = some address → address ∈ it'.hazard)
    (hfound : ∀ address, address ∈ it'.hazard → address ∈ it.hazard ∨ slot = some address) :
    Scanned e a (k+1) where
  flags r₀ flag hf := (h.flags r₀ flag (by rwa [hnext] at hf)).later
  slots r₀ j₀ slot₀ hs := (h.slots r₀ j₀ slot₀ (by rwa [hnext] at hs)).later
  length it₀ len₀ r₀ j₀ hc₀ := by
    rw [hnext] at hc₀
    obtain ⟨-,rfl,-,-⟩ := CollectorPc.traversing.inj hc₀
    exact h.length it len r j hc
  polled it₀ len₀ r₀ j₀ hc₀ r' hr' := by
    rw [hnext] at hc₀
    obtain ⟨-,-,rfl,-⟩ := CollectorPc.traversing.inj hc₀
    exact (h.polled it len r j hc r' hr').later
  read it₀ len₀ r₀ j₀ hc₀ r' j' hlt hj' := by
    rw [hnext] at hc₀
    obtain ⟨rfl,-,rfl,rfl⟩ := CollectorPc.traversing.inj hc₀
    by_cases hthis : r' = r ∧ j' = j
    · obtain ⟨rfl,rfl⟩ := hthis
      exact ⟨slot,(h.slots r' j' slot hslot).later,hnew⟩
    · obtain ⟨slot₀,hs,haddress⟩ := h.read it len r j hc r' j' (by omega) hj'
      exact ⟨slot₀,hs.later,fun address heq => hold (haddress address heq)⟩
  found it₀ len₀ r₀ j₀ hc₀ address hmem := by
    rw [hnext] at hc₀
    obtain ⟨rfl,-,-,-⟩ := CollectorPc.traversing.inj hc₀
    rcases hfound address hmem with hmem | rfl
    · obtain ⟨r',j',hs⟩ := h.found it len r j hc address hmem
      exact ⟨r',j',hs.later⟩
    · exact ⟨r,j,(h.slots r j _ hslot).later⟩

theorem Scanned.poll {it : Iter} {len r j : Nat} (h : Scanned e a k)
    (hc : (e.state k).process.collector = .traversing it len r j)
    (hj : HZ_PTR_SLOT_COUNT ≤ j)
    (hnext : e.state (k+1) = (e.state k).goto (.traversing it len (r+1) 0))
    (hflag : false ∈ (e.state k).flags r) : Scanned e a (k+1) where
  flags r₀ flag hf := (h.flags r₀ flag (by rwa [hnext] at hf)).later
  slots r₀ j₀ slot₀ hs := (h.slots r₀ j₀ slot₀ (by rwa [hnext] at hs)).later
  length it₀ len₀ r₀ j₀ hc₀ := by
    rw [hnext] at hc₀
    obtain ⟨-,rfl,-,-⟩ := CollectorPc.traversing.inj hc₀
    exact h.length it len r j hc
  polled it₀ len₀ r₀ j₀ hc₀ r' hr' := by
    rw [hnext] at hc₀
    obtain ⟨-,-,rfl,-⟩ := CollectorPc.traversing.inj hc₀
    by_cases hthis : r' = r
    · subst hthis
      exact (h.flags r' false hflag).later
    · exact (h.polled it len r j hc r' (by omega)).later
  read it₀ len₀ r₀ j₀ hc₀ r' j' hlt hj' := by
    rw [hnext] at hc₀
    obtain ⟨rfl,-,rfl,rfl⟩ := CollectorPc.traversing.inj hc₀
    obtain ⟨slot,hs,haddress⟩ := h.read it len r j hc r' j' (by omega) hj'
    exact ⟨slot,hs.later,haddress⟩
  found it₀ len₀ r₀ j₀ hc₀ address hmem := by
    rw [hnext] at hc₀
    obtain ⟨rfl,-,-,-⟩ := CollectorPc.traversing.inj hc₀
    obtain ⟨r',j',hs⟩ := h.found it len r j hc address hmem
    exact ⟨r',j',hs.later⟩

theorem Scanned.start (ha : a < N)
    (hbegin : (e.state a).process.beginsTraversal (e.state (a+1)).process = true) :
    Scanned e a (a+1) := by
  obtain ⟨hfence,it₀,hc₀,hempty⟩ := (delayedStep_cases (e.enabled a ha)).begins hbegin
  have hposition : ∀ it len r j, (e.state (a+1)).process.collector = .traversing it len r j →
      len = (e.state (a+1)).process.recordCount ∧ r = 0 ∧ j = 0 ∧ it.hazard = ∅ := by
    intro it len r j hc
    obtain ⟨rfl,rfl,rfl,rfl⟩ := CollectorPc.traversing.inj (hc₀.symm.trans hc)
    exact ⟨rfl,rfl,rfl,hempty⟩
  constructor
  · intro r flag hf
    rw [hfence] at hf
    exact .now (by omega) (List.mem_singleton.mp hf).symm
  · intro r j slot hs
    rw [hfence] at hs
    exact .now (by omega) (List.mem_singleton.mp hs).symm
  · exact fun it len r j hc => (hposition it len r j hc).1
  · intro it len r j hc r' hr'
    have := (hposition it len r j hc).2.1
    omega
  · intro it len r j hc r' j' hlt
    obtain ⟨-,rfl,rfl,-⟩ := hposition it len r j hc
    omega
  · intro it len r j hc address hmem
    rw [(hposition it len r j hc).2.2.2] at hmem
    simp at hmem

theorem Scanned.step (h : Scanned e a k) (hak : a < k) (hk : k < N)
    (hin : (e.state k).process.isTraversing = true)
    (hin' : (e.state (k+1)).process.isTraversing = true) : Scanned e a (k+1) := by
  cases (delayedStep_cases (e.enabled k hk)).traversalStep hin with
  | stay hcollector hnext => exact h.stay hak hcollector hnext
  | readSlot it it' len r j slot hc hnext hslot hold hnew hfound =>
    exact h.readSlot hc hnext hslot hold hnew hfound
  | poll it len r j hc hj hnext hflag => exact h.poll hc hj hnext hflag
  | ends it len r j _ _ hend => simp [State.isTraversing,hend] at hin'

/-- A traversal that step `a` begins and step `b` ends. -/
structure Traversal (e : Execution (delayedStep true cfg) N) (a b : Nat) : Prop where
  order : a < b
  bound : b < N
  begins : (e.state a).process.beginsTraversal (e.state (a+1)).process = true
  inside : ∀ m, a < m → m ≤ b → (e.state m).process.isTraversing = true
  ends : (e.state (b+1)).process.isTraversing = false

variable {b : Nat}

theorem Traversal.scanned (h : Traversal e a b) (hak : a < k) (hkb : k ≤ b) :
    Scanned e a k := by
  have hbound := h.bound
  induction k, Nat.succ_le_of_lt hak using Nat.le_induction with
  | base => exact .start (by omega) h.begins
  | succ k hle ih =>
    have hprev := ih (by omega) (by omega)
    exact hprev.step hle (by omega) (h.inside k hle (by omega)) (h.inside (k+1) hak hkb)

theorem Traversal.readsIn (h : Traversal e a b) {t r : Nat}
    (hreads : (e.state (a+1)).process.ReadsIn t r)
    (hstays : ∀ m, a < m → m < b → e.action m ≠ .process (.thread t .leaveSection))
    (hak : a < k) (hkb : k ≤ b) : (e.state k).process.ReadsIn t r := by
  have hbound := h.bound
  induction k, Nat.succ_le_of_lt hak using Nat.le_induction with
  | base => exact hreads
  | succ k hle ih =>
    exact (delayedStep_cases (e.enabled k (by omega))).readsIn (ih (by omega) (by omega))
      (hstays k hle (by omega))

/-- A traversal of the hazard records ends only after every reader that was in its critical
section at the heavy fence has left it. What a slot has held all the time is found, and
what is found has been in a slot since the fence. -/
theorem grace_period (h₀ : e.state 0 = .initial) (h : Traversal e a b) :
    ∃ it, (e.state (b+1)).process.collector = .visiting it ∧
      (∀ t, ((e.state (a+1)).process.threads t).pc.inSection →
        ∃ m, a < m ∧ m < b ∧ e.action m = .process (.thread t .leaveSection)) ∧
      (∀ r j address, r < (e.state (a+1)).process.recordCount → j < HZ_PTR_SLOT_COUNT →
        (∀ m, a < m → m ≤ b → ((e.state m).process.records r).slots j = some address) →
        address ∈ it.hazard) ∧
      ∀ address, address ∈ it.hazard →
        ∃ m r j, a < m ∧ m ≤ b ∧ ((e.state m).process.records r).slots j = some address := by
  have hbound := h.bound
  have horder := h.order
  have hhazards : ∀ k, k ≤ N → Hazards cfg (e.state k).process := fun k hk =>
    e.invariant (fun k => Hazards cfg (e.state k).process) (h₀ ▸ hazards_initial cfg)
      (fun _ _ hprev hs => hprev.delayed (delayedStep_cases hs)) hk
  have hscan := h.scanned horder le_rfl
  have hends := h.ends
  cases (delayedStep_cases (e.enabled b hbound)).traversalStep (h.inside b horder le_rfl) with
  | stay hcollector =>
    have hinside := h.inside b horder le_rfl
    rw [State.isTraversing,hcollector] at hends
    rw [State.isTraversing,hends] at hinside
    contradiction
  | readSlot it it' len r j slot _ hnext =>
    rw [hnext] at hends
    contradiction
  | poll it len r j _ _ hnext =>
    rw [hnext] at hends
    contradiction
  | ends it len r j hc hlen hend =>
    have hcount := hscan.length it len r j hc
    refine ⟨it,hend,fun t hin => ?_,fun r' j' address hr' hj' hheld => ?_,fun address hmem => ?_⟩
    · by_contra hnone
      obtain ⟨r',hrec⟩ := (hhazards (a+1) (by omega)).records.held (.inl hin)
      have hreads : ∀ m, a < m → m ≤ b → (e.state m).process.ReadsIn t r' := fun m ham hmb =>
        h.readsIn ⟨hin,hrec⟩ (fun i hai hib heq => hnone ⟨i,hai,hib,heq⟩) ham hmb
      have hr' := ((hreads (a+1) (by omega) (by omega)).flag (hhazards _ (by omega)).records).2
      obtain ⟨m,ham,hmb,hunset⟩ := hscan.polled it len r j hc r' (by omega)
      have hset := ((hreads m ham hmb).flag (hhazards m (by omega)).records).1
      rw [hunset] at hset
      contradiction
    · obtain ⟨slot,⟨m,ham,hmb,hm⟩,hfound⟩ :=
        hscan.read it len r j hc r' j' (.inl (by omega)) hj'
      exact hfound address (hm.symm.trans (hheld m ham hmb))
    · obtain ⟨r',j',m,ham,hmb,hm⟩ := hscan.found it len r j hc address hmem
      exact ⟨m,r',j',ham,hmb,hm⟩

end Scan

instance : Inhabited DelayedAction := ⟨.process .collector⟩

/-- Thread 1 holds a guard and thread 2 is in its critical section when a traversal begins;
the collector polls thread 2 twice, since it leaves only after the first poll. -/
def pollTwice : List DelayedAction :=
  List.map DelayedAction.process
    ([.thread 1 (.sdarcNew 10 100 0 []),.thread 1 (.onNewSdarcAllocated 0),
      .thread 1 (.swap 0 (some 0) false),.thread 1 (.borrow (.cell 0)),.thread 1 .obtain,
      .thread 1 .obtainNext,.thread 1 .publish,.thread 1 .reload,
      .thread 2 (.loadOwned (.cell 0)),.thread 2 .obtain,.thread 2 .obtainNext,
      .thread 2 .obtainNext,.thread 2 .enterSection,.thread 2 .loadPointer] ++
      List.replicate 4 .collector) ++
  .readSlot (some 10) :: List.replicate 14 (.readSlot none) ++ .pollFlag false ::
  List.replicate 15 (.readSlot none) ++
  [.pollFlag true,.process (.thread 2 (.loadIncrement 0)),.process (.thread 2 .leaveSection),
    .pollFlag false,.process .collector]

def pollTwiceRun : Execution (delayedStep true ⟨1,3,1,by decide⟩) pollTwice.length :=
  .ofRun _ .initial pollTwice (by rfl)

theorem pollTwice_waits : ∃ it, (pollTwiceRun.state 54).process.collector = .visiting it ∧
    10 ∈ it.hazard ∧
    ∃ m, 17 < m ∧ m < 53 ∧ pollTwiceRun.action m = .process (.thread 2 .leaveSection) := by
  have htraversal : Traversal pollTwiceRun 17 53 :=
    ⟨by decide,by decide,by rfl,fun m ham hmb => (by decide +kernel : ∀ m, m ≤ 53 → 17 < m →
      (pollTwiceRun.state m).process.isTraversing = true) m hmb ham,by rfl⟩
  have hpc : ((pollTwiceRun.state 18).process.threads 2).pc =
      .loadIncrement (.cell 0) none 0 := by rfl
  obtain ⟨it,hc,hleft,hfound,-⟩ := grace_period rfl htraversal
  exact ⟨it,hc,hfound 0 0 10 (by decide) (by decide) (fun m ham hmb =>
    (by decide +kernel : ∀ m, m ≤ 53 → 17 < m →
      ((pollTwiceRun.state m).process.records 0).slots 0 = some 10) m hmb ham),
    hleft 2 (hpc ▸ trivial)⟩

end Sdarc.System
