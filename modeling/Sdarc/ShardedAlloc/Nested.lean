import Sdarc.ShardedAlloc.Unwinding
set_option autoImplicit false

/-!
`init_func`, and the destructors that the unwind guard runs, are called under the mutex of the
group that is allocated from. They may themselves allocate, with any results of
`curr_shard_index`, drop boxes and wait for the collector.
-/

namespace Sdarc.ShardedAlloc

/-- What one call of `init_func` or of a destructor does in a run; the value of a destructor is
not looked at. An allocation has callbacks of its own, and goes on with `next` whether it
returned or unwound; a panic that is not caught is a `next` that panics. -/
inductive Callback (T : Type) where
  | returns (v : T)
  | panics
  | allocates (shard : Nat) (init destructor : Nat → Callback T) (next : Callback T)
  -- a box of `boxes`, or without one a value from outside of the allocator
  | dropsBox (i : Nat) (destructor : Nat → Callback T) (next : Callback T)
  | waitsForCollector (next : Callback T)

namespace Heap

variable {T : Type} (h : Heap T)

/-- `FullShardAlloc::allocate_and_init` by a thread that holds the mutexes `held`. -/
def allocateAndInit (n : Nat) (held : List Nat) (shard : Nat) (init : InitFunc T) :
    Outcome ShardedDataPtr × Heap T :=
  if shard ∈ held then (.deadlocked,h)
  else
    match (h.groups shard).allocate n init h with
    | (o,g,h') => (o,{ h' with groups := Function.update h'.groups shard g })

def allocateDataInEachShard (n : Nat) (held : List Nat) (shard : Nat) (init : InitFunc T) :
    Outcome ShardedDataPtr × Heap T :=
  match h.allocateAndInit n held shard init with
  | (.done ptr,h') =>
      (.done ptr,{ h' with boxes := ptr :: h'.boxes, returned := ptr :: h'.returned })
  | r => r

def dropBox (n : Nat) (destructor : Destructor T) (ptr : ShardedDataPtr) :
    Outcome Unit × Heap T :=
  match { h with boxes := h.boxes.erase ptr }.dropCells destructor ptr (List.range n) with
  | (.done (),h') => h'.deallocateWithoutDropping ptr
  | r => r

def dropValues (destructor : Destructor T) : List Nat → Heap T → Outcome Unit × Heap T
  | [], h => (.done (),h)
  | k :: ks, h =>
      match destructor k h with
      | (.done (),h') => dropValues destructor ks h'
      | r => r

end Heap

def Outcome.void {α : Type} : Outcome α → Outcome Unit
  | .done _ => .done ()
  | .unwound => .unwound
  | .deadlocked => .deadlocked
  | .aborted site => .aborted site

def goOn {T α β : Type} (next : Heap T → Outcome β × Heap T) :
    Outcome α × Heap T → Outcome β × Heap T
  | (.done _,h) => next h
  | (.unwound,h) => next h
  | (.deadlocked,h) => (.deadlocked,h)
  | (.aborted site,h) => (.aborted site,h)

namespace Callback

variable {T : Type}

/-- A wait for the collector does not end while the thread holds the mutex of a group, if the
iterations of the collector lock the groups: they do, unless their maintenance is disabled. -/
def run (n : Nat) (locksGroups : Bool) : Callback T → List Nat → Heap T → Outcome T × Heap T
  | .returns v, _, h => (.done v,h)
  | .panics, _, h => (.unwound,h)
  | .allocates shard init destructor next, held, h =>
      goOn (fun h' => next.run n locksGroups held h')
        (h.allocateDataInEachShard n held shard
          ⟨fun k h' => (init k).run n locksGroups (shard :: held) h',
            fun k h' => ((destructor k).run n locksGroups (shard :: held) h').map
              Outcome.void id⟩)
  | .dropsBox i destructor next, held, h =>
      let destructors : Destructor T := fun k h' =>
        ((destructor k).run n locksGroups held h').map Outcome.void id
      goOn (fun h' => next.run n locksGroups held h')
        (match h.boxes[i]? with
          | some ptr => h.dropBox n destructors ptr
          | none => Heap.dropValues destructors (List.range n) h)
  | .waitsForCollector next, held, h =>
      if locksGroups = true ∧ held ≠ [] then (.deadlocked,h)
      else next.run n locksGroups held h

end Callback

/-- Of the shards from `j` on one does `R`, and those before it are `fine`. -/
def ReachedFrom (j n : Nat) (fine R : Nat → Prop) : Prop :=
  ∃ k, j ≤ k ∧ k < n ∧ (∀ i, j ≤ i → i < k → fine i) ∧ R k

/-- What the unwind guard runs into when `init_func` has panicked at shard `k`. -/
def GuardStops (k : Nat) (fine R : Nat → Prop) : Prop :=
  ReachedFrom 0 k fine R ∨ ∃ d, d < k ∧ ¬ fine d

def ShardStops {T : Type} (R : Nat → Prop) (out : Nat → Option T) (D fine : Nat → Prop)
    (k : Nat) : Prop :=
  R k ∨ out k = none ∧ GuardStops k fine D

namespace Callback

variable {T : Type}

/-- The user's code of an allocation by a thread that then holds the mutexes `held`. -/
def initFunc (n : Nat) (locksGroups : Bool) (held : List Nat)
    (init destructor : Nat → Callback T) : InitFunc T where
  call k h := (init k).run n locksGroups held h
  destructor k h := ((destructor k).run n locksGroups held h).map Outcome.void id

end Callback

structure Heap.Ok {T : Type} (n : Nat) (h : Heap T) : Prop where
  units : ∀ shard unit, unit ∈ (h.groups shard).allUnits → unit < h.nextUnit
  boxes : ∀ p, p ∈ h.boxes →
    h.usageFlags p = true ∧ p.unit < h.nextUnit ∧ ∀ k, k < n → (h.cells p k).isSome
  nodup : h.boxes.Nodup

structure Heap.OffLimits {T : Type} (h : Heap T) (p : ShardedDataPtr) : Prop where
  unit_lt : p.unit < h.nextUnit
  notBox : p ∉ h.boxes
  guarded : h.usageFlags p = true ∨ ∀ shard, p.unit ∉ (h.groups shard).allUnits

/-- Between `h` and `h'` no slot that was off limits has been touched, other than `own`. -/
structure Frame {T : Type} (own : ShardedDataPtr → Prop) (h h' : Heap T) : Prop where
  nextUnit_le : h.nextUnit ≤ h'.nextUnit
  kept : ∀ p, ¬ own p → h.OffLimits p →
    h'.OffLimits p ∧ h'.usageFlags p = h.usageFlags p ∧ h'.cells p = h.cells p
  returned : ∃ new, h'.returned = new ++ h.returned ∧ ∀ p, p ∈ new → ¬ h.OffLimits p

def Ends {α : Type} (stops succeeds : Prop) : Outcome α → Prop
  | .done _ => ¬ stops ∧ succeeds
  | .unwound => ¬ stops ∧ ¬ succeeds
  | .deadlocked => stops
  | .aborted _ => stops

/-- A call that leaves the heap in order and touches nothing that is off limits. -/
structure Sound {α T : Type} (n : Nat) (h : Heap T) (stops succeeds : Prop)
    (r : Outcome α × Heap T) : Prop where
  ends : Ends stops succeeds r.1
  ok : r.2.Ok n
  frame : Frame (fun _ => False) h r.2

section Frame

variable {T : Type} {n : Nat} {h h' h'' : Heap T} {ptr : ShardedDataPtr}

theorem Frame.refl (own : ShardedDataPtr → Prop) (h : Heap T) : Frame own h h where
  nextUnit_le := le_rfl
  kept _ _ hp := ⟨hp,rfl,rfl⟩
  returned := ⟨[],rfl,by simp⟩

theorem Frame.trans {own : ShardedDataPtr → Prop} (h₁ : Frame own h h')
    (h₂ : Frame (fun _ => False) h' h'') (hown : ∀ p, own p → h'.OffLimits p) :
    Frame own h h'' where
  nextUnit_le := h₁.nextUnit_le.trans h₂.nextUnit_le
  kept p hp hoff := by
    obtain ⟨hoff',hflag,hcells⟩ := h₁.kept p hp hoff
    obtain ⟨hoff'',hflag',hcells'⟩ := h₂.kept p (fun hf => hf) hoff'
    exact ⟨hoff'',hflag'.trans hflag,hcells'.trans hcells⟩
  returned := by
    obtain ⟨new,hnew,hnot⟩ := h₁.returned
    obtain ⟨new',hnew',hnot'⟩ := h₂.returned
    refine ⟨new' ++ new,by rw [hnew',hnew,List.append_assoc],fun p hp hoff => ?_⟩
    rcases List.mem_append.mp hp with hp | hp
    · by_cases hpo : own p
      · exact hnot' p hp (hown p hpo)
      · exact hnot' p hp (h₁.kept p hpo hoff).1
    · exact hnot p hp hoff

theorem Frame.of_slot (hnext : h'.nextUnit = h.nextUnit) (hboxes : h'.boxes = h.boxes)
    (hgroups : h'.groups = h.groups) (hreturned : h'.returned = h.returned)
    (hflags : ∀ p, p ≠ ptr → h'.usageFlags p = h.usageFlags p)
    (hcells : ∀ p, p ≠ ptr → h'.cells p = h.cells p) : Frame (· = ptr) h h' where
  nextUnit_le := hnext.ge
  kept p hp hoff := by
    refine ⟨⟨?_,?_,?_⟩,hflags p hp,hcells p hp⟩
    · rw [hnext]
      exact hoff.unit_lt
    · rw [hboxes]
      exact hoff.notBox
    · rw [hflags p hp,hgroups]
      exact hoff.guarded
  returned := ⟨[],hreturned,by simp⟩

theorem Frame.comp {own : ShardedDataPtr → Prop} (h₁ : Frame own h h') (h₂ : Frame own h' h'')
    (hsame : h''.returned = h'.returned) : Frame own h h'' where
  nextUnit_le := h₁.nextUnit_le.trans h₂.nextUnit_le
  kept p hp hoff := by
    obtain ⟨hoff',hflag,hcells⟩ := h₁.kept p hp hoff
    obtain ⟨hoff'',hflag',hcells'⟩ := h₂.kept p hp hoff'
    exact ⟨hoff'',hflag'.trans hflag,hcells'.trans hcells⟩
  returned := by
    rw [hsame]
    exact h₁.returned

end Frame

/-- The slot `ptr` is in the hands of an allocation that has written its first cells. -/
structure Claimed {T : Type} (n : Nat) (ptr : ShardedDataPtr) (h h' : Heap T) (written : Nat) :
    Prop where
  ok : h'.Ok n
  frame : Frame (· = ptr) h h'
  offLimits : h'.OffLimits ptr
  used : h'.usageFlags ptr = true
  cells : ∀ k, k < written → (h'.cells ptr k).isSome

section Claimed

variable {T : Type} {n written : Nat} {h h' h'' : Heap T} {ptr : ShardedDataPtr}

theorem Claimed.callback (hc : Claimed n ptr h h' written) (hok : h''.Ok n)
    (hframe : Frame (fun _ => False) h' h'') : Claimed n ptr h h'' written := by
  obtain ⟨hoff,hflag,hcells⟩ := hframe.kept ptr (fun hf => hf) hc.offLimits
  refine ⟨hok,hc.frame.trans hframe (by rintro p rfl; exact hc.offLimits),hoff,
    hflag.trans hc.used,?_⟩
  rw [hcells]
  exact hc.cells

theorem Claimed.write (hc : Claimed n ptr h h' written) (v : T) :
    Claimed n ptr h (h'.setCell ptr written (some v)) (written + 1) where
  ok := by
    refine ⟨hc.ok.units,fun p hp => ?_,hc.ok.nodup⟩
    have hne : p ≠ ptr := fun heq => hc.offLimits.notBox (heq ▸ hp)
    simpa [hne] using hc.ok.boxes p hp
  frame := hc.frame.comp (.of_slot rfl rfl rfl rfl (fun _ _ => rfl)
    (fun p hp => by simp [hp])) rfl
  offLimits := ⟨hc.offLimits.unit_lt,hc.offLimits.notBox,hc.offLimits.guarded⟩
  used := hc.used
  cells k hk := by
    by_cases hkw : k = written
    · simp [hkw]
    · simpa [hkw] using hc.cells k (by omega)

theorem Claimed.weaken (hc : Claimed n ptr h h' written) : Claimed n ptr h h' 0 :=
  ⟨hc.ok,hc.frame,hc.offLimits,hc.used,fun _ hk => absurd hk (Nat.not_lt_zero _)⟩

theorem Claimed.dropInPlace (hc : Claimed n ptr h h' 0) (k : Nat) (v : T) :
    Claimed n ptr h (h'.dropInPlace ptr k v) 0 where
  ok := by
    refine ⟨hc.ok.units,fun p hp => ?_,hc.ok.nodup⟩
    have hne : p ≠ ptr := fun heq => hc.offLimits.notBox (heq ▸ hp)
    simpa [hne] using hc.ok.boxes p hp
  frame := hc.frame.comp (.of_slot rfl rfl rfl rfl (fun _ _ => rfl)
    (fun p hp => by simp [hp])) rfl
  offLimits := ⟨hc.offLimits.unit_lt,hc.offLimits.notBox,hc.offLimits.guarded⟩
  used := hc.used
  cells _ hk := absurd hk (Nat.not_lt_zero _)

theorem reachedFrom_succ {j m : Nat} {fine R : Nat → Prop} (hnot : ¬ R j) (hfine : fine j) :
    ReachedFrom j m fine R ↔ ReachedFrom (j+1) m fine R := by
  constructor
  · rintro ⟨k,hjk,hkm,hbefore,hk⟩
    have hne : j ≠ k := by
      rintro rfl
      exact hnot hk
    exact ⟨k,by omega,hkm,fun i hi => hbefore i (by omega),hk⟩
  · rintro ⟨k,hjk,hkm,hbefore,hk⟩
    refine ⟨k,by omega,hkm,fun i hi hik => ?_,hk⟩
    by_cases hij : i = j
    · exact hij ▸ hfine
    · exact hbefore i (by omega) hik

theorem ReachedFrom.here {j m : Nat} {fine R : Nat → Prop} (hj : j < m) (hR : R j) :
    ReachedFrom j m fine R :=
  ⟨j,le_rfl,hj,fun i hi hij => absurd hij (by omega),hR⟩

theorem ReachedFrom.of_not_fine {j m : Nat} {fine R : Nat → Prop} (hnot : ¬ fine j)
    (h : ReachedFrom j m fine R) : R j := by
  obtain ⟨k,hjk,-,hbefore,hk⟩ := h
  rcases Nat.eq_or_lt_of_le hjk with rfl | hlt
  · exact hk
  · exact absurd (hbefore j le_rfl hlt) hnot

theorem forall_succ {j m : Nat} {fine : Nat → Prop} (hfine : fine j) :
    (∀ k, j ≤ k → k < m → fine k) ↔ ∀ k, j + 1 ≤ k → k < m → fine k := by
  constructor
  · exact fun hall k hk => hall k (by omega)
  · intro hall k hk hkm
    by_cases hkj : k = j
    · exact hkj ▸ hfine
    · exact hall k (by omega) hkm

section Destructors

variable {destructor : Destructor T} {D fine : Nat → Prop}

/-- Dropping the values of the shards from `j` on. `D` says of which shard the destructor
stops, and `fine` which one does not panic. -/
theorem Claimed.dropCells
    (hd : ∀ k h', h'.Ok n → Sound n h' (D k) (fine k) (destructor k h')) (m : Nat) :
    ∀ j h', Claimed n ptr h h' 0 → (∀ k, j ≤ k → k < j + m → (h'.cells ptr k).isSome) →
      ∃ o h'', h'.dropCells destructor ptr (List.range' j m) = (o,h'') ∧
        Claimed n ptr h h'' 0 ∧
        Ends (ReachedFrom j (j+m) fine D) (∀ k, j ≤ k → k < j + m → fine k) o := by
  induction m with
  | zero =>
    intro j h' hc _
    refine ⟨.done (),h',rfl,hc,?_,fun k h₁ h₂ => by omega⟩
    rintro ⟨k,h₁,h₂,-⟩
    omega
  | succ m ih =>
    intro j h' hc hcells
    obtain ⟨v,hv⟩ := Option.isSome_iff_exists.mp (hcells j le_rfl (by omega))
    have hc₀ := hc.dropInPlace j v
    have hsound := hd j _ hc₀.ok
    have hlast : j + (m + 1) = j + 1 + m := by omega
    rw [List.range'_succ,hlast]
    simp only [Heap.dropCells,hv]
    cases hcall : destructor j (h'.dropInPlace ptr j v) with
    | mk o h₁ =>
      rw [hcall] at hsound
      have hc₁ := hc₀.callback hsound.ok hsound.frame
      have hkept : h₁.cells ptr = _ := (hsound.frame.kept ptr (fun hf => hf) hc₀.offLimits).2.2
      have hends := hsound.ends
      cases o with
      | done u =>
        obtain ⟨hnot,hfine⟩ := hends
        rw [reachedFrom_succ hnot hfine,forall_succ hfine]
        refine ih (j+1) h₁ hc₁ (fun k hk hkm => ?_)
        have hkj : k ≠ j := by omega
        rw [hkept]
        simpa [hkj] using hcells k (by omega) (by omega)
      | unwound =>
        obtain ⟨hnot,hpanic⟩ := hends
        exact ⟨.unwound,h₁,rfl,hc₁,fun hr => hnot (hr.of_not_fine hpanic),
          fun hall => hpanic (hall j le_rfl (by omega))⟩
      | deadlocked => exact ⟨.deadlocked,h₁,rfl,hc₁,.here (by omega) hends⟩
      | aborted site => exact ⟨.aborted site,h₁,rfl,hc₁,.here (by omega) hends⟩

theorem Claimed.deallocate (hc : Claimed n ptr h h' 0) :
    ∃ h'', h'.deallocateWithoutDropping ptr = (.done (),h'') ∧ h''.Ok n ∧
      Frame (· = ptr) h h'' ∧ h''.usageFlags ptr = false := by
  refine ⟨h'.setFlag ptr false,?_,?_,?_,by simp⟩
  · simp only [Heap.deallocateWithoutDropping,hc.used,if_true]
  · refine ⟨hc.ok.units,fun p hp => ?_,hc.ok.nodup⟩
    have hne : p ≠ ptr := fun heq => hc.offLimits.notBox (heq ▸ hp)
    simpa [hne] using hc.ok.boxes p hp
  · exact hc.frame.comp (.of_slot rfl rfl rfl rfl (fun p hp => by simp [hp]) (fun _ _ => rfl)) rfl

theorem Claimed.unwind
    (hd : ∀ k h', h'.Ok n → Sound n h' (D k) (fine k) (destructor k h'))
    (hc : Claimed n ptr h h' written) :
    ∃ o h'', h'.unwind destructor ptr written = (o,h'') ∧ h''.Ok n ∧ Frame (· = ptr) h h'' ∧
      (o = .done () ∧ ¬ GuardStops written fine D ∧ h''.usageFlags ptr = false ∨
        (o = .deadlocked ∨ ∃ site, o = .aborted site) ∧ GuardStops written fine D) := by
  obtain ⟨o,d,hdrop,hc',hends⟩ := Claimed.dropCells hd written 0 h' hc.weaken
    (fun k _ hk => hc.cells k (by omega))
  rw [← List.range_eq_range'] at hdrop
  rw [Nat.zero_add] at hends
  simp only [Heap.unwind,hdrop]
  cases o with
  | done u =>
    obtain ⟨h'',hdealloc,hok,hframe,hflag⟩ := hc'.deallocate
    refine ⟨.done (),h'',hdealloc,hok,hframe,.inl ⟨rfl,?_,hflag⟩⟩
    rintro (hreach | ⟨d,hlt,hpanic⟩)
    · exact hends.1 hreach
    · exact hpanic (hends.2 d (Nat.zero_le d) hlt)
  | unwound =>
    have hpanic : ∃ d, d < written ∧ ¬ fine d := by simpa using hends.2
    exact ⟨_,d,rfl,hc'.ok,hc'.frame,.inr ⟨.inr ⟨_,rfl⟩,.inr hpanic⟩⟩
  | deadlocked => exact ⟨_,d,rfl,hc'.ok,hc'.frame,.inr ⟨.inl rfl,.inl hends⟩⟩
  | aborted site => exact ⟨_,d,rfl,hc'.ok,hc'.frame,.inr ⟨.inr ⟨site,rfl⟩,.inl hends⟩⟩

end Destructors

end Claimed

/-- The calls of `init_func` and the destructors are sound. `R` and `D` say of which shard they
stop, `out` what a call returns and `fine` which destructor does not panic. -/
structure InitFunc.Behaves {T : Type} (n : Nat) (init : InitFunc T) (R : Nat → Prop)
    (out : Nat → Option T) (D fine : Nat → Prop) : Prop where
  call : ∀ k h, h.Ok n → Sound n h (R k) (out k).isSome (init.call k h)
  destructor : ∀ k h, h.Ok n → Sound n h (D k) (fine k) (init.destructor k h)

section Calls

variable {T : Type} {n : Nat} {h : Heap T} {ptr : ShardedDataPtr} {init : InitFunc T}
  {R D fine : Nat → Prop} {out : Nat → Option T}

theorem Claimed.writeCells (hinit : init.Behaves n R out D fine) (m : Nat) :
    ∀ j h', j + m = n → Claimed n ptr h h' j →
      ∃ o h'', Heap.writeCells init ptr (List.range' j m) h' = (o,h'') ∧
        Ends (ReachedFrom j n (fun k => (out k).isSome) (ShardStops R out D fine))
          (∀ k, j ≤ k → k < n → (out k).isSome) o ∧
        h''.Ok n ∧ Frame (· = ptr) h h'' ∧
        (o = .done () → Claimed n ptr h h'' n) ∧
        (o = .unwound → h''.usageFlags ptr = false) := by
  induction m with
  | zero =>
    intro j h' hj hc
    obtain rfl : j = n := hj
    refine ⟨.done (),h',rfl,⟨?_,?_⟩,hc.ok,hc.frame,fun _ => hc,by simp⟩
    · rintro ⟨k,h₁,h₂,-⟩
      omega
    · intro k h₁ h₂
      omega
  | succ m ih =>
    intro j h' hj hc
    have hsound := hinit.call j h' hc.ok
    have hjn : j < n := by omega
    rw [List.range'_succ]
    simp only [Heap.writeCells]
    cases hcall : init.call j h' with
    | mk o h₁ =>
      rw [hcall] at hsound
      have hc₁ := hc.callback hsound.ok hsound.frame
      have hends := hsound.ends
      cases o with
      | done v =>
        obtain ⟨hnot,hsome⟩ := hends
        -- the first shard decides nothing
        have hgoes : ¬ ShardStops R out D fine j := by
          rintro (hR | ⟨hnone,-⟩)
          · exact hnot hR
          · simp [hnone] at hsome
        rw [@reachedFrom_succ j n (fun k => (out k).isSome) _ hgoes hsome,
          @forall_succ j n (fun k => (out k).isSome) hsome]
        exact ih (j+1) _ (by omega) (hc₁.write v)
      | unwound =>
        obtain ⟨hnot,hpanic⟩ := hends
        have hnone : out j = none := by simpa using hpanic
        obtain ⟨o',h₂,hunwind,hok,hframe,hguard⟩ := hc₁.unwind hinit.destructor
        rcases hguard with ⟨rfl,hgoes,hflag⟩ | ⟨rfl | ⟨site,rfl⟩,hstops⟩
        · refine ⟨.unwound,h₂,by simp only [hunwind],⟨fun hr => ?_,fun hall => ?_⟩,hok,hframe,
            by simp,fun _ => hflag⟩
          · exact (@ReachedFrom.of_not_fine j n (fun k => (out k).isSome) _ hpanic hr).elim hnot
              (fun hs => hgoes hs.2)
          · exact hpanic (hall j le_rfl hjn)
        · exact ⟨.deadlocked,h₂,by simp only [hunwind],.here hjn (.inr ⟨hnone,hstops⟩),hok,hframe,
            by simp,by simp⟩
        · exact ⟨.aborted site,h₂,by simp only [hunwind],.here hjn (.inr ⟨hnone,hstops⟩),hok,
            hframe,by simp,by simp⟩
      | deadlocked =>
        exact ⟨.deadlocked,h₁,rfl,.here hjn (.inl hends),hsound.ok,hc₁.frame,by simp,by simp⟩
      | aborted site =>
        exact ⟨.aborted site,h₁,rfl,.here hjn (.inl hends),hsound.ok,hc₁.frame,by simp,by simp⟩

theorem Claimed.start (ptr : ShardedDataPtr) {h₀ : Heap T} (hok : h₀.Ok n) (hunit : ptr.unit < h₀.nextUnit)
    (hfree : h₀.usageFlags ptr = false) :
    Claimed n ptr (h₀.setFlag ptr true) (h₀.setFlag ptr true) 0 := by
  have hbox : ptr ∉ h₀.boxes := by
    intro hp
    rw [(hok.boxes ptr hp).1] at hfree
    contradiction
  refine ⟨⟨hok.units,fun p hp => ?_,hok.nodup⟩,.refl _ _,⟨hunit,hbox,.inl (by simp)⟩,by simp,
    fun k hk => absurd hk (by omega)⟩
  have hne : p ≠ ptr := fun heq => hbox (heq ▸ hp)
  simpa [hne] using hok.boxes p hp

theorem Frame.claim {h₀ h' : Heap T} (hframe : Frame (· = ptr) (h₀.setFlag ptr true) h')
    (hnot : ¬ h₀.OffLimits ptr) : Frame (fun _ => False) h₀ h' := by
  have hclaim : ∀ p, h₀.OffLimits p → p ≠ ptr ∧ (h₀.setFlag ptr true).OffLimits p := by
    intro p hp
    have hne : p ≠ ptr := fun heq => hnot (heq ▸ hp)
    exact ⟨hne,hp.unit_lt,hp.notBox,by simpa [hne] using hp.guarded⟩
  refine ⟨hframe.nextUnit_le,fun p _ hp => ?_,?_⟩
  · obtain ⟨hne,hoff⟩ := hclaim p hp
    obtain ⟨hoff',hflag,hcells⟩ := hframe.kept p hne hoff
    exact ⟨hoff',hflag.trans (by simp [hne]),hcells⟩
  · obtain ⟨new,hnew,hnew'⟩ := hframe.returned
    exact ⟨new,hnew,fun p hp hoff => hnew' p hp (hclaim p hoff).2⟩

structure Allocates (n : Nat) (h : Heap T) (stops succeeds : Prop) (g : AllocUnitGroup)
    (r : Outcome ShardedDataPtr × AllocUnitGroup × Heap T) : Prop where
  ends : Ends stops succeeds r.1
  ok : r.2.2.Ok n
  frame : Frame (fun _ => False) h r.2.2
  units : r.2.1.allUnits = g.allUnits ∨
    r.2.1.allUnits = g.allUnits ++ [h.nextUnit] ∧ h.nextUnit < r.2.2.nextUnit
  claimed : ∀ ptr, r.1 = .done ptr →
    ¬ h.OffLimits ptr ∧ r.2.2.OffLimits ptr ∧ r.2.2.usageFlags ptr = true ∧
    (∀ k, k < n → (r.2.2.cells ptr k).isSome) ∧
    ∃ new, r.2.2.returned = new ++ h.returned ∧ ptr ∉ new

theorem Claimed.returned {h₀ h' : Heap T} (hc : Claimed n ptr (h₀.setFlag ptr true) h' n)
    (hunit : ptr.unit < h₀.nextUnit) (hbox : ptr ∉ h₀.boxes) :
    h'.OffLimits ptr ∧ h'.usageFlags ptr = true ∧ (∀ k, k < n → (h'.cells ptr k).isSome) ∧
      ∃ new, h'.returned = new ++ h₀.returned ∧ ptr ∉ new := by
  obtain ⟨new,hnew,hnot⟩ := hc.frame.returned
  exact ⟨hc.offLimits,hc.used,hc.cells,new,hnew,
    fun hp => hnot ptr hp ⟨hunit,hbox,.inl (by simp)⟩⟩

theorem Heap.Ok.newUnit (hok : h.Ok n) : h.newUnit.Ok n where
  units shard unit hunit := Nat.lt_succ_of_lt (hok.units shard unit hunit)
  boxes p hp := by
    obtain ⟨hflag,hlt,hcells⟩ := hok.boxes p hp
    exact ⟨by simpa [hlt.ne] using hflag,Nat.lt_succ_of_lt hlt,hcells⟩
  nodup := hok.nodup

theorem Frame.newUnit (h : Heap T) : Frame (fun _ => False) h h.newUnit where
  nextUnit_le := Nat.le_succ _
  kept p _ hp := by
    have hne := hp.unit_lt.ne
    refine ⟨⟨Nat.lt_succ_of_lt hp.unit_lt,hp.notBox,?_⟩,by simp [hne],rfl⟩
    simpa [hne] using hp.guarded
  returned := ⟨[],rfl,by simp⟩

theorem Sound.void {stops succeeds : Prop} {r : Outcome T × Heap T}
    (hs : Sound n h stops succeeds r) : Sound n h stops succeeds (r.map Outcome.void id) where
  ends := by
    obtain ⟨o,h'⟩ := r
    cases o <;> exact hs.ends
  ok := hs.ok
  frame := hs.frame

section Destructors

variable {destructor : Destructor T}

end Destructors

theorem Sound.next {α β : Type} {stops stops' succeeds succeeds' : Prop}
    {r : Outcome α × Heap T} {rest : Heap T → Outcome β × Heap T}
    (hr : Sound n h stops succeeds r)
    (hrest : ∀ h', h'.Ok n → Sound n h' stops' succeeds' (rest h')) :
    Sound n h (stops ∨ stops') succeeds' (goOn rest r) := by
  obtain ⟨o,h'⟩ := r
  obtain ⟨hends,hok,hframe⟩ := hr
  have hgoes : ¬ stops → Sound n h (stops ∨ stops') succeeds' (rest h') := by
    intro hnot
    obtain ⟨hends',hok',hframe'⟩ := hrest h' hok
    rw [or_iff_right hnot]
    exact ⟨hends',hok',hframe.trans hframe' (fun _ hf => hf.elim)⟩
  cases o with
  | done a => exact hgoes hends.1
  | unwound => exact hgoes hends.1
  | deadlocked => exact ⟨.inl hends,hok,hframe⟩
  | aborted site => exact ⟨.inl hends,hok,hframe⟩

end Calls

end Sdarc.ShardedAlloc
