import Sdarc.Reclamation.LateReads
import Sdarc.System.Guards
set_option autoImplicit false

/-!
The process on a machine where the stores to the flags and to the slots of the hazard
records reach the collector late, as their relaxed order and the light fence allow. What
orders them is `membarrier2::heavy` at the start of a traversal: a read after it returns
what the location held then, or anything that was stored there later.
-/

namespace Sdarc.System
open Transition Reclamation

/-- The process, with what each flag and each slot has held since the last heavy fence,
latest first. -/
structure Delayed where
  process : State
  flags : Nat → List Bool
  slots : Nat → Nat → List (Option Nat)

def noteStore {β : Type} [DecidableEq β] (old new : β) (values : List β) : List β :=
  if new = old then values else new :: values

theorem mem_noteStore {β : Type} [DecidableEq β] {old new x : β} {values : List β}
    (hx : x ∈ noteStore old new values) (heq : new = old) : x ∈ values := by
  rwa [noteStore,if_pos heq] at hx

theorem latest_mem_noteStore {β : Type} [DecidableEq β] {old new : β} {values : List β}
    (h : old ∈ values) : new ∈ noteStore old new values := by
  unfold noteStore
  split
  · simp_all
  · simp

namespace State

def readsSignal (s : State) : Bool :=
  match s.collector with
  | .traversing _ len r _ => r < len
  | _ => false

/-- The step from `s` to `s'` has begun `traverse_atomic_reader_signals`. -/
def beginsTraversal (s s' : State) : Bool :=
  match s.collector,s'.collector with
  | .traversing _ _ _ _,_ => false
  | _,.traversing _ _ _ _ => true
  | _,_ => false

end State

namespace Delayed

def initial : Delayed where
  process := .initial
  flags _ := [false]
  slots _ _ := [none]

@[simp] def goto (s : Delayed) (pc : CollectorPc) : Delayed :=
  { s with process := s.process.goto pc }

def after (s : Delayed) (process : State) : Delayed where
  process := process
  flags r := noteStore (s.process.records r).flag (process.records r).flag (s.flags r)
  slots r j :=
    noteStore ((s.process.records r).slots j) ((process.records r).slots j) (s.slots r j)

/-- `membarrier2::heavy`: of what was stored before, only the latest can be read. -/
def heavyFence (s : Delayed) : Delayed where
  process := s.process
  flags r := [(s.process.records r).flag]
  slots r j := [(s.process.records r).slots j]

/-- Any step of the process that does not read a signal. `heavy` is `true` in the program. -/
def advance (heavy : Bool) (cfg : Config) (s : Delayed) (a : Action) : Option Delayed :=
  if a = .collector ∧ s.process.readsSignal = true then none
  else
    (step cfg s.process a).map (fun process =>
      if heavy && s.process.beginsTraversal process then (s.after process).heavyFence
      else s.after process)

def readSlot (s : Delayed) (slot : Option Nat) : Option Delayed :=
  match s.process.collector with
  | .traversing it len r j =>
      if r < len ∧ j < HZ_PTR_SLOT_COUNT ∧ slot ∈ s.slots r j then
        let it' := match slot with
          | none => it
          | some address => { it with hazard := insert address it.hazard }
        some (s.goto (.traversing it' len r (j+1)))
      else none
  | _ => none

def pollFlag (s : Delayed) (flag : Bool) : Option Delayed :=
  match s.process.collector with
  | .traversing it len r j =>
      if r < len ∧ HZ_PTR_SLOT_COUNT ≤ j ∧ flag ∈ s.flags r then
        if flag then some s
        else some (s.goto (.traversing it len (r+1) 0))
      else none
  | _ => none

end Delayed

inductive DelayedAction where
  | process (a : Action)
  | readSlot (slot : Option Nat)
  | pollFlag (flag : Bool)
  deriving DecidableEq, Repr

def delayedStep (heavy : Bool) (cfg : Config) (s : Delayed) : DelayedAction → Option Delayed
  | .process a => s.advance heavy cfg a
  | .readSlot slot => s.readSlot slot
  | .pollFlag flag => s.pollFlag flag

def Delayed.covered (cfg : Config) (s : Delayed) : DelayedAction → Prop
  | .process a => s.process.covered cfg a
  | _ => True

instance (cfg : Config) (s : Delayed) (a : DelayedAction) : Decidable (s.covered cfg a) :=
  match a with
  | .process a => inferInstanceAs (Decidable (s.process.covered cfg a))
  | .readSlot _ => isTrue trivial
  | .pollFlag _ => isTrue trivial

inductive DelayedStep (heavy : Bool) (cfg : Config) (s : Delayed) :
    DelayedAction → Delayed → Prop where
  | advance (a : Action) (process : State) :
      ¬ (a = .collector ∧ s.process.readsSignal = true) →
      SystemStep cfg s.process a process →
      (heavy && s.process.beginsTraversal process) = false →
      DelayedStep heavy cfg s (.process a) (s.after process)
  | beginTraversal (a : Action) (process : State) :
      SystemStep cfg s.process a process →
      heavy = true → s.process.beginsTraversal process = true →
      DelayedStep heavy cfg s (.process a) (s.after process).heavyFence
  | readEmptySlot (it : Iter) (len r j : Nat) :
      s.process.collector = .traversing it len r j → r < len → none ∈ s.slots r j →
      DelayedStep heavy cfg s (.readSlot none)
        (s.goto (.traversing it len r (j+1)))
  | readSlot (it : Iter) (len r j address : Nat) :
      s.process.collector = .traversing it len r j → r < len → some address ∈ s.slots r j →
      DelayedStep heavy cfg s (.readSlot (some address))
        (s.goto (.traversing { it with hazard := insert address it.hazard } len r (j+1)))
  | spin : DelayedStep heavy cfg s (.pollFlag true) s
  | poll (it : Iter) (len r j : Nat) :
      s.process.collector = .traversing it len r j → r < len → HZ_PTR_SLOT_COUNT ≤ j →
      false ∈ s.flags r →
      DelayedStep heavy cfg s (.pollFlag false)
        (s.goto (.traversing it len (r+1) 0))

section Step

variable {heavy : Bool} {cfg : Config} {s s' : Delayed}

theorem delayedStep_cases {a : DelayedAction} (h : delayedStep heavy cfg s a = some s') :
    DelayedStep heavy cfg s a s' := by
  cases a with
  | process a =>
    simp only [delayedStep,Delayed.advance] at h
    split at h
    · contradiction
    · rename_i hread
      obtain ⟨process,hstep,rfl⟩ := Option.map_eq_some_iff.mp h
      cases hb : heavy && s.process.beginsTraversal process with
      | false => exact .advance a process hread (step_cases hstep) hb
      | true =>
        obtain ⟨hheavy,hbegins⟩ := Bool.and_eq_true_iff.mp hb
        exact .beginTraversal a process (step_cases hstep) hheavy hbegins
  | readSlot slot =>
    simp only [delayedStep,Delayed.readSlot] at h
    split at h
    · simp only [Option.ite_none_right_eq_some,Option.some.injEq] at h
      obtain ⟨⟨hr,-,hslot⟩,rfl⟩ := h
      cases slot with
      | none => exact .readEmptySlot _ _ _ _ ‹_› hr hslot
      | some address => exact .readSlot _ _ _ _ _ ‹_› hr hslot
    · contradiction
  | pollFlag flag =>
    simp only [delayedStep,Delayed.pollFlag] at h
    split at h
    · simp only [Option.ite_none_right_eq_some] at h
      obtain ⟨⟨hr,hj,hflag⟩,h⟩ := h
      cases flag with
      | true =>
        obtain rfl := Option.some.inj h
        exact .spin
      | false =>
        obtain rfl := Option.some.inj h
        exact .poll _ _ _ _ ‹_› hr hj hflag
    · contradiction

end Step

section Safety

variable {cfg : Config} {s s' : State}

theorem Referenced.flag_of_entering {rule : Int → Nat → Nat → Prop} {p r : Nat}
    (h : Referenced rule cfg s) (he : (s.view cfg p).entering r) :
    (s.records r).flag = true := by
  obtain ⟨t,hrec,hpc⟩ := he
  exact (h.records.holding hrec).2.flag.mpr (ThreadPc.entering_inSection hpc)

theorem Referenced.slot_of_guard {rule : Int → Nat → Nat → Prop} {p r j : Nat}
    (h : Referenced rule cfg s) (hg : (s.view cfg p).guard r j) :
    j < HZ_PTR_SLOT_COUNT ∧ (s.records r).slots j = some (s.heap p).ptr := by
  obtain ⟨t,hrec,hguard⟩ := hg
  obtain ⟨hj,-,hslot⟩ := (h.records.holding hrec).2.guards j p hguard
  exact ⟨hj,hslot⟩

theorem Safe.traverse {it it' : Iter} {len r j r' j' : Nat} (h : Safe cfg s)
    (hc : s.collector = .traversing it len r j) (htodo : it'.todo = it.todo)
    (hfree : it'.toFree = it.toFree)
    (hknown : ∀ (key : Nat) e, s.tracked[key]? = some e →
      Holds cfg.shards (s.view cfg e.pointee) e.state.stage
        (.scanning len r j ((s.heap e.pointee).ptr ∈ it.hazard)) →
      Holds cfg.shards (s.view cfg e.pointee) e.state.stage
        (.scanning len r' j' ((s.heap e.pointee).ptr ∈ it'.hazard))) :
    Safe cfg (s.goto (.traversing it' len r' j')) where
  tracking :=
    ⟨h.tracking.places.of_same (.of_goto (by simp [hc,CollectorPc.taken])),
      h.tracking.lists.traverse hc rfl rfl htodo hfree⟩
  references := SameMemory.references h.references (by constructor <;> rfl)
  known key e he :=
    h.known_move (by constructor <;> rfl) rfl
      (fun key e he hk => hknown key e he (by rwa [hc] at hk)) he
  position := by simp
  unlinking := by simp [State.unlinksTracked]
  notPanicked := by simp

end Safety

namespace Delayed

variable {cfg : Config} {s : Delayed}

def missesReader (s : Delayed) (r : Nat) : Prop := false ∈ s.flags r

def missesGuard (s : Delayed) (p r j : Nat) : Prop :=
  ∃ slot, slot ∈ s.slots r j ∧ slot ≠ some (s.process.heap p).ptr

/-- The traversal under way will see who uses `p`, if it is dead otherwise. -/
def Sees (cfg : Config) (s : Delayed) (p : Nat) : Prop :=
  Seen cfg.shards (s.process.view cfg p) s.missesReader (s.missesGuard p)

end Delayed

structure DelayedSafe (cfg : Config) (s : Delayed) : Prop where
  safe : Safe cfg s.process
  sees : ∀ it len r j, s.process.collector = .traversing it len r j →
    ∀ (key : Nat) e, s.process.tracked[key]? = some e → e.state.stage = .suspect →
      s.Sees cfg e.pointee

section Invariant

variable {cfg : Config} {s s' : Delayed} {process : State}

theorem Delayed.Sees.thread {t p : Nat} {op : Op} (h : s.Sees cfg p)
    (hsafe : Safe cfg s.process) (hsafe' : Safe cfg process) (ht : t < cfg.threads)
    (hs : ThreadStep cfg s.process t op process)
    (hstage : (s.process.heap p).stage = .allocated) : (s.after process).Sees cfg p := by
  have hplaces := hsafe.tracking.places
  have hborn : p ≠ s.process.nextPointee :=
    (hplaces.lt_nextPointee (by rw [hstage]; decide)).ne
  obtain ⟨hptr,hcounters,-⟩ := hs.frame (.inl hborn)
  have ha := hsafe.references.accountStep ht hs
  refine Seen.stable h (hsafe.references.accounted p hstage)
    (hs.rely hsafe.references ht (.inl hborn)) (ha.relyCounts hplaces hstage hcounters) ?_ ?_
  · intro r he he' hm
    exact mem_noteStore hm ((hsafe'.references.flag_of_entering he').trans
      (hsafe.references.flag_of_entering he).symm)
  · rintro r j hg hg' ⟨slot,hm,hne⟩
    have hold := (hsafe.references.slot_of_guard hg).2
    have hnew := (hsafe'.references.slot_of_guard hg').2
    rw [hptr] at hnew
    exact ⟨slot,mem_noteStore hm (hnew.trans hold.symm),hptr ▸ hne⟩

theorem Delayed.sees_of_heavyFence (hsafe : Safe cfg s.process) {key : Nat}
    {e : TrackedCounter} (he : s.process.tracked[key]? = some e)
    (hstage : e.state.stage = .suspect) : s.heavyFence.Sees cfg e.pointee := by
  have hknown := hsafe.known key e he
  rw [State.Known,hstage] at hknown
  refine Seen.start hknown (fun r hen hm => ?_) ?_
  · have hflag := hsafe.references.flag_of_entering hen
    simp [missesReader,heavyFence,hflag] at hm
  · rintro r j hg ⟨slot,hm,hne⟩
    have hslot := (hsafe.references.slot_of_guard hg).2
    simp only [heavyFence,hslot,List.mem_singleton] at hm
    exact hne hm

theorem CollectorStep.traversing {s s' : State} (hs : CollectorStep cfg s s') {it : Iter}
    {len r j : Nat} (hc : s'.collector = .traversing it len r j) :
    s.readsSignal = true ∨ s.beginsTraversal s' = true ∨ s' = s := by
  have hresume : ∀ (s₁ : State) (it' : Iter) (key : Nat) (result : UpdateResult),
      (s₁.resume it' key result).collector ≠ .traversing it len r j := by
    intro s₁ it' key result
    cases result <;> simp [State.resume]
  cases hs with
  | startIteration shard hc₀ _ => exact .inr (.inl (by simp [State.beginsTraversal,hc₀]))
  | nextIteration it' hc₀ _ _ _ => exact .inr (.inl (by simp [State.beginsTraversal,hc₀]))
  | readEmptySlot it' len' r' j' hc₀ hr _ _ =>
    exact .inl (by simp [State.readsSignal,hc₀,hr])
  | readSlot it' len' r' j' address hc₀ hr _ _ =>
    exact .inl (by simp [State.readsSignal,hc₀,hr])
  | poll it' len' r' j' hc₀ hr _ _ => exact .inl (by simp [State.readsSignal,hc₀,hr])
  | spin => exact .inr (.inr rfl)
  | startUpdate => exact absurd hc (hresume _ _ _ _)
  | readShard => exact absurd hc (hresume _ _ _ _)
  | finishPass => exact absurd hc (hresume _ _ _ _)
  | weakRefNotInvolved => exact absurd hc (hresume _ _ _ _)
  | weakBackRefCleared => exact absurd hc (hresume _ _ _ _)
  | weakBackRefWasAlreadyNull => exact absurd hc (hresume _ _ _ _)
  | _ => contradiction

theorem DelayedSafe.readSlot {it it' : Iter} {len r j : Nat} {slot : Option Nat}
    (h : DelayedSafe cfg s) (hc : s.process.collector = .traversing it len r j)
    (hslot : slot ∈ s.slots r j) (htodo : it'.todo = it.todo) (hfree : it'.toFree = it.toFree)
    (hhazard : ∀ address, address ∈ it.hazard ∨ slot = some address → address ∈ it'.hazard) :
    DelayedSafe cfg (s.goto (.traversing it' len r (j+1))) where
  safe := h.safe.traverse hc htodo hfree (fun key e he hknown =>
    Seen.readSlot (h.sees it len r j hc key e he) hknown (fun hmem => hhazard _ (.inl hmem))
      (fun hg => by
        by_cases heq : slot = some (s.process.heap e.pointee).ptr
        · exact .inr (hhazard _ (.inr heq))
        · exact .inl ⟨slot,hslot,heq⟩))
  sees _ _ _ _ _ key e he hstage := h.sees it len r j hc key e he hstage

theorem DelayedSafe.poll {it : Iter} {len r j : Nat} (h : DelayedSafe cfg s)
    (hc : s.process.collector = .traversing it len r j) (hj : HZ_PTR_SLOT_COUNT ≤ j)
    (hflag : false ∈ s.flags r) : DelayedSafe cfg (s.goto (.traversing it len (r+1) 0)) where
  safe := h.safe.traverse hc rfl rfl (fun key e he hknown =>
    Seen.poll (h.sees it len r j hc key e he) hknown (fun _ => hflag)
      (fun _ hg => (h.safe.references.slot_of_guard hg).1.trans_le hj))
  sees _ _ _ _ _ key e he hstage := h.sees it len r j hc key e he hstage

theorem DelayedSafe.advance {a : Action} (h : DelayedSafe cfg s)
    (hcov : s.process.covered cfg a) (hread : ¬ (a = .collector ∧ s.process.readsSignal = true))
    (hs : SystemStep cfg s.process a process)
    (hbegins : s.process.beginsTraversal process = false) :
    DelayedSafe cfg (s.after process) := by
  have hsafe' := h.safe.step hcov hs
  refine ⟨hsafe',fun it len r j hc key e he hstage => ?_⟩
  cases hs with
  | thread t op _ ht hs =>
    obtain ⟨hcollector,htracked⟩ := hs.collector
    simp only [Delayed.after,hcollector,htracked] at hc he
    exact (h.sees it len r j hc key e he hstage).thread h.safe hsafe' ht hs
      (h.safe.tracking.places.trackedOk key e he).1
  | collector _ hs =>
    rcases hs.traversing hc with hreads | hbegin | rfl
    · exact absurd ⟨rfl,hreads⟩ hread
    · rw [hbegins] at hbegin
      contradiction
    · have hsame : s.after s.process = s := by simp [Delayed.after,noteStore]
      rw [hsame] at hc he ⊢
      exact h.sees it len r j hc key e he hstage
  | finishDestructor => contradiction

theorem DelayedSafe.step {a : DelayedAction} (h : DelayedSafe cfg s) (hcov : s.covered cfg a)
    (hs : DelayedStep true cfg s a s') : DelayedSafe cfg s' := by
  cases hs with
  | advance a process hread hs hbegins => exact h.advance hcov hread hs hbegins
  | beginTraversal a process hs _ hbegins =>
    have hsafe' : Safe cfg (s.after process).process := h.safe.step hcov hs
    exact ⟨hsafe',fun _ _ _ _ _ key e he hstage => Delayed.sees_of_heavyFence hsafe' he hstage⟩
  | readEmptySlot it len r j hc _ hslot =>
    refine h.readSlot hc hslot rfl rfl (fun address hmem => ?_)
    exact hmem.resolve_right (by simp)
  | readSlot it len r j address hc _ hslot =>
    refine h.readSlot hc hslot rfl rfl (fun x hmem => ?_)
    rcases hmem with hmem | heq
    · exact Finset.mem_insert_of_mem hmem
    · obtain rfl := Option.some.inj heq
      exact Finset.mem_insert_self _ _
  | spin => exact h
  | poll it len r j hc _ hj hflag => exact h.poll hc hj hflag

theorem delayedSafe_initial (cfg : Config) : DelayedSafe cfg .initial :=
  ⟨safe_initial cfg,fun it len r j hc => by contradiction⟩

theorem delayedSafe_of_reach
    (h : Reach (delayedStep true cfg) (Delayed.covered cfg) .initial s) : DelayedSafe cfg s :=
  h.invariant (DelayedSafe cfg) (delayedSafe_initial cfg)
    (fun _ _ _ hsafe hcov hs => hsafe.step hcov (delayedStep_cases hs))

end Invariant

section Prompt

variable {heavy : Bool} {cfg : Config} {s : Delayed} {process : State}

structure Delayed.Current (s : Delayed) : Prop where
  flag : ∀ r, (s.process.records r).flag ∈ s.flags r
  slot : ∀ r j, (s.process.records r).slots j ∈ s.slots r j

theorem Delayed.Current.after (h : s.Current) (process : State) : (s.after process).Current where
  flag r := latest_mem_noteStore (h.flag r)
  slot r j := latest_mem_noteStore (h.slot r j)

theorem Delayed.current_heavyFence (s : Delayed) : s.heavyFence.Current := by
  constructor <;> simp [heavyFence]

theorem Delayed.Current.traverse (h : s.Current) {it : Iter} {len r j : Nat}
    (hc : s.process.collector = .traversing it len r j) (hr : r < len) :
    ∃ b s', delayedStep heavy cfg s b = some s' ∧ s.covered cfg b ∧
      s'.process = s.process.traverse it len r j ∧ s'.Current := by
  have hstay : ∀ pc, (s.goto pc).Current := fun _ => ⟨h.flag,h.slot⟩
  by_cases hj : j < HZ_PTR_SLOT_COUNT
  · have hslot := h.slot r j
    cases hvalue : (s.process.records r).slots j with
    | none =>
      rw [hvalue] at hslot
      exact ⟨.readSlot none,s.goto (.traversing it len r (j+1)),
        by simp [delayedStep,readSlot,hc,hr,hj,hslot],trivial,
        by simp [State.traverse,hr,hj,hvalue],hstay _⟩
    | some address =>
      rw [hvalue] at hslot
      exact ⟨.readSlot (some address),
        s.goto (.traversing { it with hazard := insert address it.hazard } len r (j+1)),
        by simp [delayedStep,readSlot,hc,hr,hj,hslot],trivial,
        by simp [State.traverse,hr,hj,hvalue],hstay _⟩
  · have hflag := h.flag r
    cases hvalue : (s.process.records r).flag with
    | true =>
      rw [hvalue] at hflag
      exact ⟨.pollFlag true,s,by simp [delayedStep,pollFlag,hc,hr,Nat.not_lt.mp hj,hflag],
        trivial,by simp [State.traverse,hr,hj,hvalue],h⟩
    | false =>
      rw [hvalue] at hflag
      exact ⟨.pollFlag false,s.goto (.traversing it len (r+1) 0),
        by simp [delayedStep,pollFlag,hc,hr,Nat.not_lt.mp hj,hflag],trivial,
        by simp [State.traverse,hr,hj,hvalue],hstay _⟩

theorem Delayed.Current.step {a : Action} (h : s.Current) (hcov : s.process.covered cfg a)
    (hs : step cfg s.process a = some process) :
    ∃ b s', delayedStep heavy cfg s b = some s' ∧ s.covered cfg b ∧ s'.process = process ∧
      s'.Current := by
  by_cases hread : a = .collector ∧ s.process.readsSignal = true
  · obtain ⟨rfl,hreads⟩ := hread
    unfold State.readsSignal at hreads
    split at hreads
    · rename_i it len r j hc
      simp only [System.step,State.collect,hc,Option.some.injEq] at hs
      exact hs ▸ h.traverse hc (by simpa using hreads)
    · contradiction
  · have hadvance : delayedStep heavy cfg s (.process a) =
        some (if heavy && s.process.beginsTraversal process then (s.after process).heavyFence
          else s.after process) := by
      simp only [delayedStep,advance]
      rw [if_neg hread,hs,Option.map_some]
    refine ⟨.process a,_,hadvance,hcov,?_⟩
    split
    · exact ⟨rfl,(s.after process).current_heavyFence⟩
    · exact ⟨rfl,h.after process⟩

theorem delayed_of_reach {s : State} (h : Reach (step cfg) (State.covered cfg) .initial s) :
    ∃ d, Reach (delayedStep heavy cfg) (Delayed.covered cfg) .initial d ∧ d.process = s ∧
      d.Current :=
  h.invariant
    (fun s => ∃ d, Reach (delayedStep heavy cfg) (Delayed.covered cfg) .initial d ∧
      d.process = s ∧ d.Current)
    ⟨.initial,.refl,rfl,by constructor <;> simp [Delayed.initial,State.initial]⟩
    (by
      rintro t a t' ⟨d,hr,rfl,hcur⟩ hcov hs
      obtain ⟨b,d',hb,hcov',hp,hcur'⟩ := hcur.step hcov hs
      exact ⟨d',hr.tail ⟨b,hcov',hb⟩,hp,hcur'⟩)

end Prompt

section Runs

variable {cfg : Config} {s : Delayed}

/-- With the heavy fence, nothing refers to a freed pointee and no step touches one, however
late the signals of the readers arrive; and no assertion fails. -/
theorem late_signals_safe
    (h : Reach (delayedStep true cfg) (Delayed.covered cfg) .initial s) :
    (∀ p, s.process.freed p → s.process.Unreferenced p ∧
      ∀ a s', delayedStep true cfg s (.process a) = some s' → ¬ s.process.accesses p a) ∧
    s.process.assertionFailed = false ∧ ∀ site, s.process.collector ≠ .panicked site := by
  have hsafe := (delayedSafe_of_reach h).safe
  refine ⟨fun p hp => ⟨hsafe.unreferenced hp,fun a s' hs => ?_⟩,hsafe.references.asserts,
    hsafe.notPanicked⟩
  simp only [delayedStep,Delayed.advance,Option.ite_none_left_eq_some,
    Option.map_eq_some_iff] at hs
  obtain ⟨-,process,hstep,-⟩ := hs
  exact not_accessed_of_freed hsafe hp hstep

/-- A reader enters its critical section while the collector traverses the records, and stays
there; the cell is emptied and the old handle dropped. -/
def lateEntry : List Action :=
  [.thread 1 (.sdarcNew 10 100 0 []),.thread 1 (.onNewSdarcAllocated 0),
    .thread 1 (.swap 0 (some 0) false),.thread 2 (.loadOwned (.cell 0)),.thread 2 .obtain,
    .thread 2 .obtainNext] ++ List.replicate 4 .collector ++
  [.thread 2 .enterSection,.thread 2 .loadPointer,.thread 1 (.swap 0 none true),
    .thread 1 (.dropLoad 0),.thread 1 (.dropExchange false)]

def missedReader : List DelayedAction :=
  List.replicate HZ_PTR_SLOT_COUNT (.readSlot none) ++ [.pollFlag false]

/-- The collector misses the reader, takes the count for zero and begins to suspect the
pointee; the next traversal has to wait. -/
theorem missedReader_safe :
    ∃ s, run (guarded (delayedStep true ⟨1,3,1,by decide⟩) (Delayed.covered ⟨1,3,1,by decide⟩))
        .initial (lateEntry.map .process ++ missedReader ++
          List.replicate 11 (.process .collector)) = some s ∧
      (s.process.threads 2).pc = .loadIncrement (.cell 0) none 0 ∧
      (s.process.tracked[100]?).map TrackedCounter.state = some .requiresReChecking ∧
      ¬ s.process.freed 0 := by
  have hsome : (run (guarded (delayedStep true ⟨1,3,1,by decide⟩)
      (Delayed.covered ⟨1,3,1,by decide⟩)) .initial (lateEntry.map .process ++ missedReader ++
        List.replicate 11 (.process .collector))).isSome = true := by rfl
  refine ⟨_,(Option.some_get hsome).symm,by rfl,by rfl,fun hf => ?_⟩
  exact ((late_signals_safe (reach_guarded hsome)).1 0 hf).1.entering 2 (by rfl)

/-- Without the heavy fence the reader is missed a second time, and the collector frees the
pointee whose counter the reader is about to increment. -/
theorem freed_without_heavy_fence :
    ∃ s, Reach (delayedStep false ⟨1,3,1,by decide⟩) (Delayed.covered ⟨1,3,1,by decide⟩)
        .initial s ∧ s.process.freed 0 ∧ s.process.accesses 0 (.thread 2 (.loadIncrement 0)) :=
  ⟨(run (guarded (delayedStep false ⟨1,3,1,by decide⟩) (Delayed.covered ⟨1,3,1,by decide⟩))
      .initial (lateEntry.map .process ++ missedReader ++
        List.replicate 11 (.process .collector) ++ missedReader ++
        List.replicate 8 (.process .collector))).get (by rfl),
    reach_guarded (by rfl),.inl (by rfl),by rfl⟩

end Runs

end Sdarc.System
