import Sdarc.System.Release
set_option autoImplicit false

/-!
The safety invariant of the whole process: the collector knows of each tracked pointee
what the reclamation protocol asks for, so it only frees what has no references left.
-/

namespace Sdarc
open Reclamation

def TrackedCounterState.stage : TrackedCounterState → Stage
  | .defaultState => .default
  | .requiresReChecking => .suspect
  | .readyToFree => .condemned

def UpdatePc.phase : UpdatePc → Phase
  | .readRelaxed _ _ => .outside
  | .clearTags k sum => .clearing k sum
  | .readIfUntagged k sum => .rechecking k sum
  | .clearWeakBackRef => .unlinking

/-- What a step of `update_state` leaves known of the pointee it runs on. -/
def UpdateResult.Known (n : Nat) (v : View) (state : TrackedCounterState) :
    UpdateResult → Prop
  | .goto pc => Holds n v state.stage pc.phase
  | .done state => Holds n v state.stage .outside
  | .panic _ => False

section UpdateState

variable {n : Nat} {v : View}

theorem UpdateResult.ne_panic_of_known {state : TrackedCounterState}
    {result : UpdateResult} (h : result.Known n v state) (site : UpdatePanic) :
    result ≠ .panic site := by
  rintro rfl
  exact h

theorem UpdatePc.start_known {state : TrackedCounterState} {hazard : Prop}
    (h : Holds n v state.stage (.pending hazard)) (ha : v.Accounted n) (hno : ¬ hazard)
    (hstate : state ≠ .readyToFree) : (UpdatePc.start state).Known n v state := by
  cases state with
  | defaultState => trivial
  | requiresReChecking => exact h.startReCheck ha hno
  | readyToFree => contradiction

theorem UpdatePc.visit_known {pc : UpdatePc} {k : Nat} {c : Counter}
    (h : Holds n v pc.expects.stage pc.phase) (hk : pc.shard = some k) (hkn : k < n)
    (hcount : v.count k = c.refCount) (htag : v.tag k = c.tag)
    (hclear : pc.clearsTag = false) : (pc.visit c).Known n v pc.expects := by
  cases pc with
  | readRelaxed j sum => trivial
  | clearTags j sum => simp [clearsTag] at hclear
  | readIfUntagged j sum =>
    obtain rfl : j = k := by simpa [shard] using hk
    simp only [visit]
    split
    · trivial
    · rename_i hc
      rw [← hcount]
      exact h.reCheck hkn (htag.trans (Bool.of_not_eq_true hc))
  | clearWeakBackRef => simp [shard] at hk

theorem UpdatePc.finish_known {pc : UpdatePc}
    (h : Holds n v pc.expects.stage pc.phase) (hk : pc.shard = some n) :
    pc.finish.Known n v pc.expects := by
  cases pc with
  | readRelaxed j sum =>
    simp only [finish]
    split
    · exact clearing_start v
    · trivial
  | clearTags j sum =>
    obtain rfl : j = n := by simpa [shard] using hk
    simp only [finish]
    split
    · rename_i hsum
      subst hsum
      exact Clearing.finish h
    · trivial
  | readIfUntagged j sum =>
    obtain rfl : j = n := by simpa [shard] using hk
    have hnonneg := Holds.reCheck_nonneg h
    simp only [finish]
    split
    · rename_i hsum
      subst hsum
      exact Holds.endReCheck h
    · split
      · trivial
      · omega
  | clearWeakBackRef => simp [shard] at hk

end UpdateState

end Sdarc

namespace Sdarc.System
open Transition Reclamation

def Iter.phase (it : Iter) (key address : Nat) : Phase :=
  if key ∈ it.todo then .pending (address ∈ it.hazard) else .outside

/-- Where the collector stands with respect to the pointee at `address` with counters
`key`. -/
def CollectorPc.phase (key address : Nat) : CollectorPc → Phase
  | .traversing it len r j => .scanning len r j (address ∈ it.hazard)
  | .visiting it => it.phase key address
  | .checking it k pc => if k = key then pc.phase else it.phase key address
  | .unlinking it k _ => if k = key then .unlinking else it.phase key address
  | _ => .outside

def State.Known (cfg : Config) (s : State) (key : Nat) (e : TrackedCounter) : Prop :=
  Holds cfg.shards (s.view cfg e.pointee) e.state.stage
    (s.collector.phase key (s.heap e.pointee).ptr)

def State.unlinksTracked (s : State) : Prop :=
  ∀ it key w, s.collector = .unlinking it key w →
    ∃ e, s.tracked[key]? = some e ∧ (s.heap e.pointee).weakInnerRef = .initialized w

structure Safe (cfg : Config) (s : State) : Prop where
  tracking : Tracking cfg s
  references : References cfg s
  known : ∀ key e, s.tracked[key]? = some e → s.Known cfg key e
  position : ∀ it key pc k, s.collector = .checking it key pc → pc.shard = some k →
    k ≤ cfg.shards
  unlinking : s.unlinksTracked
  notPanicked : ∀ site, s.collector ≠ .panicked site

section Thread

variable {cfg : Config} {s s' : State} {t : Nat}

theorem ThreadStep.collector {op : Op} (hs : ThreadStep cfg s t op s') :
    s'.collector = s.collector ∧ s'.tracked = s.tracked := by
  cases hs <;> exact ⟨rfl,rfl⟩

theorem ThreadStep.unlinking {rule : Int → Nat → Nat → Prop} {op : Op}
    (h : Referenced rule cfg s) (hplaces : Places cfg s) (hs : ThreadStep cfg s t op s')
    (hold : s.unlinksTracked) : s'.unlinksTracked := by
  obtain ⟨hcollector,htracked⟩ := hs.collector
  unfold State.unlinksTracked
  rw [hcollector,htracked]
  intro it key w hc
  obtain ⟨e,he,hw⟩ := hold it key w hc
  refine ⟨e,he,?_⟩
  have hother : e.pointee ≠ s.nextPointee :=
    (hplaces.lt_nextPointee (by rw [(hplaces.trackedOk key e he).1]; decide)).ne
  cases hs with
  | sdarcNew => simpa [hother] using hw
  | newWeakInner => simpa [hother] using hw
  | startInit p hpc huninit =>
    have hne : e.pointee ≠ p := by
      rintro rfl
      rw [hw] at huninit
      contradiction
    simpa [hne] using hw
  | setWeakInner p w' hpc =>
    have hrun := h.weak.running t p (by simp [hpc,ThreadPc.initializes])
    have hne : e.pointee ≠ p := by
      rintro rfl
      rw [hw] at hrun
      contradiction
    simpa [hne] using hw
  | _ => exact hw

theorem Safe.thread {op : Op} (h : Safe cfg s) (ht : t < cfg.threads)
    (hcov : s.covered cfg (.thread t op)) (hs : ThreadStep cfg s t op s') :
    Safe cfg s' := by
  have hplaces := h.tracking.places
  obtain ⟨hcollector,htracked⟩ := hs.collector
  have hborn : ∀ (key : Nat) e, s.tracked[key]? = some e →
      e.pointee ≠ s.nextPointee := by
    intro key e he
    exact (hplaces.lt_nextPointee (by rw [(hplaces.trackedOk key e he).1]; decide)).ne
  refine ⟨h.tracking.thread ht hs,h.references.thread hplaces ht hcov hs,?_,?_,?_,?_⟩
  · intro key e he
    rw [htracked] at he
    obtain ⟨hstage,-⟩ := hplaces.trackedOk key e he
    obtain ⟨hptr,hcounters,-⟩ := hs.frame (.inl (hborn key e he))
    have ha := h.references.accountStep ht hs
    unfold State.Known
    rw [hcollector,hptr]
    exact (h.known key e he).stable (h.references.accounted _ hstage)
      (hs.rely h.references ht (.inl (hborn key e he)))
      (ha.relyCounts hplaces hstage hcounters)
  · rw [hcollector]
    exact h.position
  · exact hs.unlinking h.references hplaces h.unlinking
  · rw [hcollector]
    exact h.notPanicked

end Thread

section Collector

variable {cfg : Config} {s s' : State}

theorem Iter.phase_congr {it it' : Iter} (htodo : it'.todo = it.todo)
    (hhazard : it'.hazard = it.hazard) (key address : Nat) :
    it'.phase key address = it.phase key address := by
  rw [Iter.phase,Iter.phase,htodo,hhazard]

theorem Iter.classify_hazard (it : Iter) (key : Nat) (state : TrackedCounterState) :
    (it.classify key state).hazard = it.hazard := by
  cases state <;> simp only [Iter.classify]
  split <;> rfl

theorem Iter.phase_shorter {n : Nat} {v : View} {stage : Reclamation.Stage} {it : Iter}
    {todo : List Nat} {key address : Nat} (hsub : ∀ k, k ∈ todo → k ∈ it.todo)
    (h : Holds n v stage (it.phase key address)) :
    Holds n v stage (Iter.phase { it with todo := todo } key address) := by
  unfold Iter.phase
  split
  · rename_i hmem
    rwa [Iter.phase,if_pos (hsub key hmem)] at h
  · exact h.leave

theorem Safe.dead_of_ready (h : Safe cfg s) {key : Nat} {e : TrackedCounter}
    (he : s.tracked[key]? = some e) (hready : e.state = .readyToFree) :
    (s.view cfg e.pointee).Dead := by
  have hk := h.known key e he
  rwa [State.Known,hready] at hk

theorem sum_of_heap (hcounters : s'.counters = s.counters)
    (hptr : ∀ p, (s'.heap p).countersPtr = (s.heap p).countersPtr) (p : Nat) :
    s'.sum cfg p = s.sum cfg p := by
  simp only [State.sum,State.counter,hcounters,hptr]

theorem Referenced.collector {rule : Int → Nat → Nat → Prop} (hr : Referenced rule cfg s)
    (hs : CollectorStep cfg s s') (hunlinking : s.unlinksTracked)
    (hdropping : ∀ it p phase, s.collector = .dropping it p phase →
      (s.heap p).stage ≠ .allocated)
    (hdead : ∀ it (key : Nat) toFree e, s.collector = .freeing it → it.toFree = key :: toFree →
      s.tracked[key]? = some e → e.state = .readyToFree → (s.view cfg e.pointee).Dead) :
    Referenced rule cfg s' := by
  cases hs with
  | clearTag it key k sum hc hk =>
    exact hr.of_links ⟨rfl,rfl,rfl,rfl,fun _ => rfl,fun _ => rfl,fun _ => rfl⟩ rfl rfl rfl
      (fun p => sum_clearTag key k p) (fun _ => id) hr.dead
  | weakBackRefCleared it key w origin p hc hdata =>
    obtain ⟨e,-,hw⟩ := hunlinking it key w hc
    exact (SameMemory.resume it key _).references (hr.clear hw hdata)
  | endOuterIteration it hc hf hnot =>
    have hclear : SameMemory s { s with countersToReCheck := ∅ } := by constructor <;> rfl
    exact (hclear.references hr).endOuterIteration
  | free it key toFree e hc hf he hready hptr =>
    refine hr.of_links (.of_setInner rfl rfl rfl rfl rfl rfl rfl rfl) rfl rfl rfl
      (sum_of_heap rfl (field_update SdarcInner.countersPtr rfl)) (fun q hq => ?_)
      (fun q hq => ?_)
    · by_cases hqe : q = e.pointee
      · simp [hqe] at hq
      · simpa [hqe] using hq
    · by_cases hqe : q = e.pointee
      · exact hqe ▸ hdead it key toFree e hc hf he hready
      · exact hr.dead q (by simpa [hqe] using hq)
  | dropCounters it p hc =>
    have hstage : ∀ q, ((s.setInner p { s.heap p with slotReleased := true }).heap q).stage =
        (s.heap q).stage := field_update SdarcInner.stage rfl
    exact hr.of_links (.of_setInner rfl rfl rfl rfl rfl rfl rfl rfl) rfl rfl rfl
      (sum_of_heap rfl (field_update SdarcInner.countersPtr rfl)) (fun q hq => hstage q ▸ hq)
      (fun q hq => hr.dead q (hstage q ▸ hq))
  | dropMemory it p hc =>
    refine hr.of_links (.of_setInner rfl rfl rfl rfl rfl rfl rfl rfl) rfl rfl rfl
      (sum_of_heap rfl (field_update SdarcInner.countersPtr rfl)) (fun q hq => ?_)
      (fun q hq => ?_)
    · by_cases hqp : q = p
      · simp [hqp] at hq
      · simpa [hqp] using hq
    · by_cases hqp : q = p
      · exact hqp ▸ hr.dead p (hdropping it p _ hc)
      · exact hr.dead q (by simpa [hqp] using hq)
  | dropWeakInnerRef it p w hc hw hidle =>
    have hmem : SameMemory
        ((s.setInner p { s.heap p with weakInnerRef := .uninit }).setPc 0 (.drop w))
        (((s.setInner p { s.heap p with weakInnerRef := .uninit }).setPc 0 (.drop w)).goto
          (.dropping it p .data)) := by constructor <;> rfl
    exact hmem.references (hr.unset hw (hdropping it p _ hc) hidle)
  | dropWeakSdarcInner it p origin backRef hc hdata hidle =>
    have hnone : backRef = none := by
      cases backRef with
      | none => rfl
      | some q =>
        have howners : (s.owners cfg p : Int) = 0 := (hr.dead p (hdropping it p _ hc)).owners
        obtain ⟨-,-,hi | ⟨t,hm⟩⟩ := hr.weak.backRef p origin q hdata
        · have : 0 < s.owners cfg p :=
            weakInner_owned (hr.weak.born (by rw [hi]; simp)) hi
          omega
        · have := (hr.alone t q p hm).1
          omega
    subst hnone
    refine SameMemory.references hr ⟨rfl,rfl,rfl,rfl,rfl,rfl,rfl,rfl,?_⟩
    simp
  | startUpdate it key todo e hc htodo he _ => exact (SameMemory.resume _ key _).references hr
  | readShard it key k pc hc _ _ _ => exact (SameMemory.resume it key _).references hr
  | finishPass it key k pc hc _ _ => exact (SameMemory.resume it key _).references hr
  | weakRefNotInvolved it key e hc _ _ => exact (SameMemory.resume it key _).references hr
  | weakBackRefWasAlreadyNull it key w hc _ =>
    exact (SameMemory.resume it key _).references hr
  | _ => exact SameMemory.references hr (by constructor <;> rfl)

theorem Safe.references_collector (h : Safe cfg s) (hs : CollectorStep cfg s s') :
    References cfg s' :=
  Referenced.collector h.references hs h.unlinking
    (fun it p phase hc => by rw [h.tracking.lists.dropping it p phase hc]; decide)
    (fun _ _ _ _ _ _ he hready => h.dead_of_ready he hready)

theorem outside_transfer {n : Nat} {v v' : View} {stage : Reclamation.Stage} {phase : Phase}
    (h : Holds n v stage phase) (hcount : v'.count = v.count) (htag : v'.tag = v.tag)
    (hdead : v.Dead → v'.Dead) : Holds n v' stage .outside := by
  cases stage with
  | default => trivial
  | suspect => exact h.unlink hcount htag
  | condemned => exact hdead h

theorem Safe.known_outside {key : Nat} {e : TrackedCounter} (h : Safe cfg s) (hmore : NoMore cfg s s')
    (hcounters : s'.counters = s.counters)
    (hptr : ∀ p, (s'.heap p).countersPtr = (s.heap p).countersPtr)
    (htracked : ∀ (key : Nat) e, s'.tracked[key]? = some e →
      s.tracked[key]? = some e ∨ e.state = .defaultState)
    (hphase : ∀ key address, s'.collector.phase key address = .outside)
    (he : s'.tracked[key]? = some e) : s'.Known cfg key e := by
  unfold State.Known
  rw [hphase]
  rcases htracked key e he with hold | hdefault
  · refine outside_transfer (h.known key e hold) ?_ ?_ hmore.dead
    · funext i
      simp only [State.view,State.counter,hcounters,hptr]
    · funext i
      simp only [State.view,State.counter,hcounters,hptr]
  · rw [hdefault]
    trivial

theorem Safe.known_move {key : Nat} {e : TrackedCounter} (h : Safe cfg s) (hs : SameMemory s s')
    (htracked : s'.tracked = s.tracked)
    (hmove : ∀ (key : Nat) e, s.tracked[key]? = some e →
      Holds cfg.shards (s.view cfg e.pointee) e.state.stage
        (s.collector.phase key (s.heap e.pointee).ptr) →
      Holds cfg.shards (s.view cfg e.pointee) e.state.stage
        (s'.collector.phase key (s.heap e.pointee).ptr))
    (he : s'.tracked[key]? = some e) : s'.Known cfg key e := by
  rw [htracked] at he
  unfold State.Known
  rw [hs.view,hs.heap]
  exact hmove key e he (h.known key e he)

theorem known_resume {it : Iter} {key k : Nat} {e e' : TrackedCounter}
    {result : UpdateResult}
    (hothers : ∀ (k : Nat) e', k ≠ key → s.tracked[k]? = some e' →
      Holds cfg.shards (s.view cfg e'.pointee) e'.state.stage
        (it.phase k (s.heap e'.pointee).ptr))
    (he : s.tracked[key]? = some e)
    (hkey : result.Known cfg.shards (s.view cfg e.pointee) e.state)
    (hnot : key ∉ it.todo)
    (he' : (s.resume it key result).tracked[k]? = some e') :
    (s.resume it key result).Known cfg k e' := by
  have hmem := SameMemory.resume (s := s) it key result
  unfold State.Known
  rw [hmem.view,hmem.heap]
  cases result with
  | goto pc =>
    change s.tracked[k]? = some e' at he'
    change Holds _ _ _ (if key = k then pc.phase else it.phase k _)
    split
    · rename_i hk
      subst hk
      obtain rfl : e = e' := Option.some.inj (he.symm.trans he')
      exact hkey
    · rename_i hk
      exact hothers k e' (Ne.symm hk) he'
  | done state =>
    change (s.setTracked key state).tracked[k]? = some e' at he'
    rw [tracked_setTracked] at he'
    change Holds _ _ _ ((it.classify key state).phase k _)
    rw [Iter.phase_congr (it.classify_todo key state) (it.classify_hazard key state)]
    split at he'
    · rename_i hk
      subst hk
      rw [he] at he'
      obtain rfl := Option.some.inj he'
      rw [Iter.phase,if_neg hnot]
      exact hkey
    · rename_i hk
      exact hothers k e' (Ne.symm hk) he'
  | panic site => exact hkey.elim

theorem References.startScan (h : References cfg s) {p : Nat} {stage : Reclamation.Stage}
    {phase : Phase} (hk : Holds cfg.shards (s.view cfg p) stage phase) (hazard : Prop) :
    Holds cfg.shards (s.view cfg p) stage (.scanning s.recordCount 0 0 hazard) := by
  refine hk.startScan ?_ ?_ hazard
  · rintro r hr ⟨t,hrec,-⟩
    have := (h.records.holding hrec).1
    omega
  · rintro r j hr ⟨t,hrec,-⟩
    have := (h.records.holding hrec).1
    omega

theorem Safe.checking_others (h : Safe cfg s) {it : Iter} {key : Nat} {pc : UpdatePc}
    (hc : s.collector = .checking it key pc) (k : Nat) (e : TrackedCounter) (hk : k ≠ key)
    (he : s.tracked[k]? = some e) :
    Holds cfg.shards (s.view cfg e.pointee) e.state.stage
      (it.phase k (s.heap e.pointee).ptr) := by
  have hknown := h.known k e he
  rwa [State.Known,hc,CollectorPc.phase,if_neg (Ne.symm hk)] at hknown

theorem Safe.unlinking_others (h : Safe cfg s) {it : Iter} {key w : Nat}
    (hc : s.collector = .unlinking it key w) (k : Nat) (e : TrackedCounter) (hk : k ≠ key)
    (he : s.tracked[k]? = some e) :
    Holds cfg.shards (s.view cfg e.pointee) e.state.stage
      (it.phase k (s.heap e.pointee).ptr) := by
  have hknown := h.known k e he
  rwa [State.Known,hc,CollectorPc.phase,if_neg (Ne.symm hk)] at hknown

theorem Safe.visiting_others (h : Safe cfg s) {it : Iter} {key : Nat} {todo : List Nat}
    (hc : s.collector = .visiting it) (htodo : it.todo = key :: todo) (k : Nat)
    (e : TrackedCounter) (he : s.tracked[k]? = some e) :
    Holds cfg.shards (s.view cfg e.pointee) e.state.stage
      (Iter.phase { it with todo := todo } k (s.heap e.pointee).ptr) := by
  have hknown := h.known k e he
  rw [State.Known,hc,CollectorPc.phase] at hknown
  refine Iter.phase_shorter (fun k hk => ?_) hknown
  rw [htodo]
  exact List.mem_cons_of_mem key hk

theorem Safe.checking_known (h : Safe cfg s) {it : Iter} {key : Nat} {pc : UpdatePc}
    (hc : s.collector = .checking it key pc) :
    ∃ e, s.tracked[key]? = some e ∧ e.state = pc.expects ∧ key ∉ it.todo ∧
      (s.heap e.pointee).countersPtr = key ∧
      Holds cfg.shards (s.view cfg e.pointee) pc.expects.stage pc.phase := by
  obtain ⟨hat,e,he,hst⟩ := h.tracking.lists.checking hc
  have hknown := h.known key e he
  rw [State.Known,hc,CollectorPc.phase,if_pos rfl,hst] at hknown
  exact ⟨e,he,hst,hat.notTodo,(h.tracking.places.trackedOk key e he).2,hknown⟩

theorem Safe.known_start (h : Safe cfg s) {it : Iter} {key : Nat} {todo : List Nat}
    {e : TrackedCounter} (hc : s.collector = .visiting it) (htodo : it.todo = key :: todo)
    (he : s.tracked[key]? = some e) (hno : (s.heap e.pointee).ptr ∉ it.hazard) :
    (UpdatePc.start e.state).Known cfg.shards (s.view cfg e.pointee) e.state := by
  have hk := h.known key e he
  rw [State.Known,hc,CollectorPc.phase,Iter.phase,htodo,if_pos List.mem_cons_self] at hk
  exact UpdatePc.start_known hk
    (h.references.accounted _ (h.tracking.places.trackedOk key e he).1) hno
    (h.tracking.lists.visiting hc htodo he).2

theorem Safe.known_visit (h : Safe cfg s) {it : Iter} {key k : Nat} {pc : UpdatePc}
    (hc : s.collector = .checking it key pc) (hk : pc.shard = some k) (hlt : k < cfg.shards)
    (hclear : pc.clearsTag = false) : ∃ e, s.tracked[key]? = some e ∧ key ∉ it.todo ∧
      (pc.visit (s.counters key k)).Known cfg.shards (s.view cfg e.pointee) e.state := by
  obtain ⟨e,he,hst,hnot,hptr,hknown⟩ := h.checking_known hc
  refine ⟨e,he,hnot,?_⟩
  rw [hst]
  refine UpdatePc.visit_known hknown hk hlt ?_ ?_ hclear <;>
    simp only [State.view,State.counter,hptr]

theorem Safe.known_finish (h : Safe cfg s) {it : Iter} {key k : Nat} {pc : UpdatePc}
    (hc : s.collector = .checking it key pc) (hk : pc.shard = some k) (hge : cfg.shards ≤ k) :
    ∃ e, s.tracked[key]? = some e ∧ key ∉ it.todo ∧
      pc.finish.Known cfg.shards (s.view cfg e.pointee) e.state := by
  obtain ⟨e,he,hst,hnot,-,hknown⟩ := h.checking_known hc
  have hle := h.position it key pc k hc hk
  refine ⟨e,he,hnot,?_⟩
  rw [hst]
  exact UpdatePc.finish_known hknown (hk.trans (by rw [show k = cfg.shards by omega]))

theorem erase_subset {m : Std.TreeMap Nat TrackedCounter} {k key : Nat} {e : TrackedCounter}
    (h : (m.erase k)[key]? = some e) : m[key]? = some e := by
  rw [Std.TreeMap.getElem?_erase] at h
  split at h
  · contradiction
  · exact h

theorem Safe.known_clearTag (h : Safe cfg s) {it : Iter} {key k : Nat} {sum : Int}
    (hc : s.collector = .checking it key (.clearTags k sum))
    (hs : s' = (s.setCounter key k (s.counters key k).clearTag).goto
      (.checking it key (.clearTags (k+1) (sum + (s.counters key k).refCount))))
    (key₀ : Nat) (e₀ : TrackedCounter) (he₀ : s.tracked[key₀]? = some e₀) :
    s'.Known cfg key₀ e₀ := by
  subst hs
  obtain ⟨e,he,hst,-,hptr,hknown⟩ := h.checking_known hc
  have hcounter : ∀ p i, (s.setCounter key k (s.counters key k).clearTag).counter p i =
      if (s.heap p).countersPtr = key ∧ i = k then (s.counters key k).clearTag
      else s.counter p i :=
    fun p i => counters_setCounter s key k _ (s.heap p).countersPtr i
  by_cases hkey : key₀ = key
  · subst hkey
    obtain rfl : e = e₀ := Option.some.inj (he.symm.trans he₀)
    have hclear : Clearing (s.view cfg e.pointee) k sum := hknown
    change Holds _ _ e.state.stage (if key₀ = key₀ then _ else _)
    rw [if_pos rfl,hst]
    have hcount : (s.view cfg e.pointee).count k = (s.counters key₀ k).refCount := by
      simp only [State.view,State.counter,hptr]
    rw [← hcount]
    refine hclear.extend (fun i => ?_) (fun i hi => ?_)
    · change ((s.setCounter key₀ k _).counter e.pointee i).refCount = _
      rw [hcounter]
      split
      · rename_i hi
        rw [hi.2,hcount]
        rfl
      · rfl
    · change ((s.setCounter key₀ k _).counter e.pointee i).tag = _
      rw [hcounter,if_neg (fun hboth => hi hboth.2)]
      rfl
  · have hother : ∀ i, (s.setCounter key k (s.counters key k).clearTag).counter e₀.pointee i =
        s.counter e₀.pointee i := by
      intro i
      rw [hcounter,if_neg]
      rw [(h.tracking.places.trackedOk key₀ e₀ he₀).2]
      exact fun hboth => hkey hboth.1
    have hold := h.checking_others hc key₀ e₀ hkey he₀
    change Holds _ _ e₀.state.stage (if key = key₀ then _ else _)
    rw [if_neg (Ne.symm hkey)]
    refine hold.stable (h.references.accounted _ (h.tracking.places.trackedOk key₀ e₀ he₀).1)
      ((SameLinks.noMore (by constructor <;> first | rfl | exact fun _ => rfl)).rely id)
      ⟨fun i hi => ?_,fun i _ => ?_⟩
    · change ((s.setCounter key k _).counter e₀.pointee i).tag = true
      rw [hother]
      exact hi
    · change _ ≤ ((s.setCounter key k _).counter e₀.pointee i).refCount
      rw [hother]
      exact le_rfl

theorem Safe.known_clear (h : Safe cfg s) {it : Iter} {key w origin p : Nat}
    (hc : s.collector = .unlinking it key w)
    (hdata : (s.heap w).data = .weakSdarcInner origin (some p)) (key₀ : Nat)
    (e₀ : TrackedCounter)
    (he₀ : ((s.setInner w { s.heap w with data := .weakSdarcInner origin none }).resume it key
      (.done .requiresReChecking)).tracked[key₀]? = some e₀) :
    ((s.setInner w { s.heap w with data := .weakSdarcInner origin none }).resume it key
      (.done .requiresReChecking)).Known cfg key₀ e₀ := by
  obtain ⟨hat,e,he,hst⟩ := h.tracking.lists.unlinking hc
  obtain ⟨e',he',hw⟩ := h.unlinking it key w hc
  obtain rfl : e = e' := Option.some.inj (he.symm.trans he')
  have hplaces := h.tracking.places
  have hptr : ∀ q, ((s.setInner w { s.heap w with
      data := .weakSdarcInner origin none }).heap q).ptr = (s.heap q).ptr :=
    field_update SdarcInner.ptr rfl
  have hcounter : ∀ q i, (s.setInner w { s.heap w with
      data := .weakSdarcInner origin none }).counter q i = s.counter q i := by
    intro q i
    by_cases hq : q = w <;> simp [State.counter,hq]
  have hmore : NoMore cfg s (s.setInner w { s.heap w with
      data := .weakSdarcInner origin none }) := .clear hdata
  refine known_resume (fun k x hk hx => ?_) he ?_ hat.notTodo he₀
  · have hx₀ : s.tracked[k]? = some x := hx
    obtain ⟨hstage,hkx⟩ := hplaces.trackedOk k x hx₀
    rw [hptr]
    refine (h.unlinking_others hc k x hk hx₀).stable (h.references.accounted _ hstage)
      (hmore.rely ?_) ⟨fun i hi => ?_,fun i _ => ?_⟩
    · rintro ⟨v,hv,hload⟩
      have hvw : v ≠ w := by
        rintro rfl
        obtain ⟨b,hb⟩ := h.references.weak.initialized _ _ hw
        obtain ⟨o,ho⟩ := load_backRef.mp hload
        obtain ⟨rfl,-⟩ := h.references.weak.backRef v o x.pointee ho
        rw [ho] at hb
        obtain ⟨hsame,-⟩ : x.pointee = e.pointee ∧ _ := by simpa using hb
        rw [hsame,(hplaces.trackedOk key e he).2] at hkx
        exact hk hkx.symm
      refine ⟨v,?_,?_⟩
      · by_cases hxw : x.pointee = w
        · simpa [hxw] using hv
        · simpa [hxw] using hv
      · rw [load_backRef] at hload ⊢
        simpa [hvw] using hload
    · change ((s.setInner w _).counter x.pointee i).tag = true
      rw [hcounter]
      exact hi
    · change _ ≤ ((s.setInner w _).counter x.pointee i).refCount
      rw [hcounter]
      exact le_rfl
  · have hknown := h.known key e he
    rw [State.Known,hc,CollectorPc.phase,if_pos rfl,hst] at hknown
    refine hknown.unlink ?_ ?_
    · funext i
      simp only [State.view,hcounter]
    · funext i
      simp only [State.view,hcounter]

theorem Safe.known_collector (h : Safe cfg s) (hs : CollectorStep cfg s s') :
    ∀ (key : Nat) e, s'.tracked[key]? = some e → s'.Known cfg key e := by
  have hr := h.references
  intro key₀ e₀ he₀
  cases hs with
  | track shard e rest hc hnone =>
    refine h.known_outside (SameLinks.noMore (by constructor <;> first | rfl | exact fun _ => rfl))
      rfl (fun _ => rfl) (fun key x hx => ?_) (fun _ _ => rfl) he₀
    simp only [Std.TreeMap.getElem?_insert] at hx
    split at hx
    · obtain rfl := Option.some.inj hx
      exact .inr rfl
    · exact .inl hx
  | startIteration shard hc _ =>
    exact h.known_move (by constructor <;> rfl) rfl (fun key e _ hk => hr.startScan hk _) he₀
  | nextIteration it hc _ _ _ =>
    exact h.known_move (by constructor <;> rfl) rfl (fun key e _ hk => hr.startScan hk _) he₀
  | readEmptySlot it len r j hc _ _ hempty =>
    refine h.known_move (by constructor <;> rfl) rfl (fun key e _ hk => ?_) he₀
    rw [hc] at hk
    refine Holds.readSlot hk id ?_
    rintro ⟨t,hrec,hg⟩
    have := ((hr.records.holding hrec).2.guards j e.pointee hg).2.2
    rw [hempty] at this
    contradiction
  | readSlot it len r j address hc _ _ hslot =>
    refine h.known_move (by constructor <;> rfl) rfl (fun key e _ hk => ?_) he₀
    rw [hc] at hk
    refine Holds.readSlot hk (fun hmem => Finset.mem_insert_of_mem hmem) ?_
    rintro ⟨t,hrec,hg⟩
    have hptr := ((hr.records.holding hrec).2.guards j e.pointee hg).2.2
    rw [hslot] at hptr
    obtain rfl := Option.some.inj hptr
    exact Finset.mem_insert_self _ _
  | spin it len r j hc _ => exact h.known key₀ e₀ he₀
  | poll it len r j hc _ hj hflag =>
    refine h.known_move (by constructor <;> rfl) rfl (fun key e _ hk => ?_) he₀
    rw [hc] at hk
    refine Holds.poll hk ?_ ?_
    · rintro ⟨t,hrec,he⟩
      have hset := (hr.records.holding hrec).2.flag.mpr (ThreadPc.entering_inSection he)
      rw [hflag] at hset
      contradiction
    · rintro j' ⟨t,hrec,hg⟩
      have := ((hr.records.holding hrec).2.guards j' e.pointee hg).1
      omega
  | endTraversal it len r j hc hlen =>
    refine h.known_move (by constructor <;> rfl) rfl (fun key e _ hk => ?_) he₀
    rw [hc] at hk
    have hend := Holds.endScan hk hlen
    change Holds _ _ _ (if key ∈ it.todo then _ else _)
    split
    · exact hend
    · exact hend.leave
  | skip it key todo hc htodo _ =>
    exact h.known_move (by constructor <;> rfl) rfl
      (fun k e he _ => h.visiting_others hc htodo k e he) he₀
  | hazard it key todo e hc htodo he _ =>
    obtain ⟨hat,-⟩ := h.tracking.lists.visiting hc htodo he
    exact show (s.resume { it with todo := todo } key (.done .defaultState)).Known cfg key₀ e₀
      from known_resume (fun k e' _ he' => h.visiting_others hc htodo k e' he') he trivial
        hat.notTodo he₀
  | startUpdate it key todo e hc htodo he hno =>
    obtain ⟨hat,-⟩ := h.tracking.lists.visiting hc htodo he
    exact known_resume (fun k e' _ he' => h.visiting_others hc htodo k e' he') he
      (h.known_start hc htodo he hno) hat.notTodo he₀
  | readShard it key k pc hc hk hlt hclear =>
    obtain ⟨e,he,hnot,hknown⟩ := h.known_visit hc hk hlt hclear
    exact known_resume (h.checking_others hc) he hknown hnot he₀
  | finishPass it key k pc hc hk hge =>
    obtain ⟨e,he,hnot,hknown⟩ := h.known_finish hc hk hge
    exact known_resume (h.checking_others hc) he hknown hnot he₀
  | clearTag it key k sum hc hk => exact h.known_clearTag hc rfl key₀ e₀ he₀
  | untracked it key hc hnone =>
    obtain ⟨e,he,-⟩ := h.checking_known hc
    rw [hnone] at he
    contradiction
  | weakRefNotInvolved it key e hc he hnot =>
    obtain ⟨e',he',hst,hmem,-,hknown⟩ := h.checking_known hc
    obtain rfl : e = e' := Option.some.inj (he.symm.trans he')
    refine known_resume (h.checking_others hc) he ?_ hmem he₀
    refine Holds.condemn hknown ?_ .outside
    rintro ⟨w,hw,-⟩
    exact hnot w hw
  | foundWeakInner it key w e hc he hw =>
    obtain ⟨e',he',hst,hmem,-,hknown⟩ := h.checking_known hc
    refine h.known_move (by constructor <;> rfl) rfl (fun k x hx hk => ?_) he₀
    rw [hc] at hk
    exact hk
  | weakBackRefCleared it key w origin p hc hdata => exact h.known_clear hc hdata key₀ e₀ he₀
  | weakBackRefWasAlreadyNull it key w hc hnull =>
    obtain ⟨hat,e,he,hst⟩ := h.tracking.lists.unlinking hc
    obtain ⟨e',he',hw⟩ := h.unlinking it key w hc
    obtain rfl : e = e' := Option.some.inj (he.symm.trans he')
    have hknown := h.known key e he
    rw [State.Known,hc,CollectorPc.phase,if_pos rfl,hst] at hknown
    refine known_resume (h.unlinking_others hc) he ?_ hat.notTodo he₀
    refine Holds.condemn hknown ?_ .outside
    rintro ⟨w',hw',hload⟩
    obtain rfl : w = w' := OnceLock.initialized.inj (hw.symm.trans hw')
    obtain ⟨o,ho⟩ := load_backRef.mp hload
    exact hnull o _ ho
  | endOuterIteration it hc hf hnot =>
    have hmore : NoMore cfg { s with countersToReCheck := ∅ } _ := .endOuterIteration _
    exact h.known_outside ⟨hmore.owners,hmore.debt,hmore.linked,hmore.record,hmore.guards,
      hmore.entering,hmore.makes⟩ rfl (fun _ => rfl) (fun _ _ => .inl) (fun _ _ => rfl) he₀
  | free it key toFree e hc hf he hready hptr =>
    exact h.known_outside
      (SameLinks.noMore (.of_setInner rfl rfl rfl rfl rfl rfl rfl rfl)) rfl
      (field_update SdarcInner.countersPtr rfl) (fun _ _ hx => .inl (erase_subset hx))
      (fun _ _ => rfl) he₀
  | dropCounters it p hc =>
    exact h.known_outside
      (SameLinks.noMore (.of_setInner rfl rfl rfl rfl rfl rfl rfl rfl)) rfl
      (field_update SdarcInner.countersPtr rfl) (fun _ _ => .inl) (fun _ _ => rfl) he₀
  | dropWeakInnerRef it p w hc hw hidle =>
    have hmore : NoMore cfg s _ := .unset (hr.weak.born (p := p) (by rw [hw]; simp)) hw hidle
    exact h.known_outside ⟨hmore.owners,hmore.debt,hmore.linked,hmore.record,hmore.guards,
      hmore.entering,hmore.makes⟩ rfl (field_update SdarcInner.countersPtr rfl)
      (fun _ _ => .inl) (fun _ _ => rfl) he₀
  | dropMemory it p hc =>
    exact h.known_outside
      (SameLinks.noMore (.of_setInner rfl rfl rfl rfl rfl rfl rfl rfl)) rfl
      (field_update SdarcInner.countersPtr rfl) (fun _ _ => .inl) (fun _ _ => rfl) he₀
  | notReadyToFree it key toFree e hc hf he hne =>
    exact h.known_outside (SameLinks.noMore (by constructor <;> first | rfl | exact fun _ => rfl))
      rfl (fun _ => rfl) (fun _ _ hx => .inl (erase_subset hx)) (fun _ _ => rfl) he₀
  | countersPtrMismatch it key toFree e hc hf he hne =>
    exact h.known_outside (SameLinks.noMore (by constructor <;> first | rfl | exact fun _ => rfl))
      rfl (fun _ => rfl) (fun _ _ hx => .inl (erase_subset hx)) (fun _ _ => rfl) he₀
  | _ =>
    exact h.known_outside (SameLinks.noMore (by constructor <;> first | rfl | exact fun _ => rfl))
      rfl (fun _ => rfl) (fun _ _ => .inl) (fun _ _ => rfl) he₀

theorem resume_checking {it it' : Iter} {key key' : Nat} {result : UpdateResult}
    {pc : UpdatePc} (h : (s.resume it key result).collector = .checking it' key' pc) :
    result = .goto pc := by
  cases result with
  | goto pc' =>
    obtain ⟨-,-,rfl⟩ := CollectorPc.checking.inj h
    rfl
  | done state => contradiction
  | panic site => contradiction

theorem resume_panicked {it : Iter} {key : Nat} {result : UpdateResult}
    {site : CollectorPanic} (h : (s.resume it key result).collector = .panicked site) :
    ∃ site', result = .panic site' := by
  cases result with
  | goto pc => contradiction
  | done state => contradiction
  | panic site' => exact ⟨site',rfl⟩

theorem Safe.not_panicked_collector (h : Safe cfg s) (hs : CollectorStep cfg s s')
    (site : CollectorPanic) : s'.collector ≠ .panicked site := by
  intro hp
  obtain rfl := (h.tracking.step (.collector _ hs)).lists.panic site hp
  cases hs with
  | startUpdate it key todo e hc htodo he hno =>
    obtain ⟨site',hsite⟩ := resume_panicked hp
    exact UpdateResult.ne_panic_of_known (h.known_start hc htodo he hno) site' hsite
  | readShard it key k pc hc hk hlt hclear =>
    obtain ⟨site',hsite⟩ := resume_panicked hp
    obtain ⟨e,-,-,hknown⟩ := h.known_visit hc hk hlt hclear
    exact UpdateResult.ne_panic_of_known hknown site' hsite
  | finishPass it key k pc hc hk hge =>
    obtain ⟨site',hsite⟩ := resume_panicked hp
    obtain ⟨e,-,-,hknown⟩ := h.known_finish hc hk hge
    exact UpdateResult.ne_panic_of_known hknown site' hsite
  | spin it len r j hc _ =>
    rw [hc] at hp
    contradiction
  | _ => simp [State.resume] at hp

theorem CollectorStep.position (hs : CollectorStep cfg s s') {it : Iter}
    {key k : Nat} {pc : UpdatePc} (hc : s'.collector = .checking it key pc)
    (hk : pc.shard = some k) : k ≤ cfg.shards := by
  cases hs with
  | startUpdate it' key' todo e _ _ _ _ =>
    have hstart := UpdatePc.start_shard (resume_checking hc) hk
    omega
  | readShard it' key' k' pc' hc' hk' hlt _ =>
    have hvisit := UpdatePc.visit_shard (resume_checking hc) hk' hk
    omega
  | clearTag it' key' k' sum hc' hlt =>
    obtain ⟨-,-,rfl⟩ := CollectorPc.checking.inj hc
    obtain rfl : k' + 1 = k := by simpa [UpdatePc.shard] using hk
    omega
  | finishPass it' key' k' pc' hc' hk' _ =>
    have hfinish := UpdatePc.finish_shard (resume_checking hc) hk
    omega
  | spin it' len r j hc' _ =>
    rw [hc'] at hc
    contradiction
  | _ => contradiction

theorem CollectorStep.unlinking (hs : CollectorStep cfg s s') {it : Iter}
    {key w : Nat} (hc : s'.collector = .unlinking it key w) :
    ∃ e, s'.tracked[key]? = some e ∧ (s'.heap e.pointee).weakInnerRef = .initialized w := by
  have hresume : ∀ (s₁ : State) (it' : Iter) (key' : Nat) (result : UpdateResult),
      (s₁.resume it' key' result).collector ≠ .unlinking it key w := by
    intro s₁ it' key' result
    cases result <;> simp [State.resume]
  cases hs with
  | foundWeakInner it' key' w' e hc' he hw =>
    obtain ⟨rfl,rfl,rfl⟩ := CollectorPc.unlinking.inj hc
    exact ⟨e,he,hw⟩
  | startUpdate => exact absurd hc (hresume _ _ _ _)
  | readShard => exact absurd hc (hresume _ _ _ _)
  | finishPass => exact absurd hc (hresume _ _ _ _)
  | spin it' len r j hc' _ =>
    rw [hc'] at hc
    contradiction
  | _ => contradiction

end Collector

section Run

variable {cfg : Config} {s s' : State}

theorem Safe.step {a : Action} (h : Safe cfg s) (hcov : s.covered cfg a)
    (hs : SystemStep cfg s a s') : Safe cfg s' := by
  cases hs with
  | thread t op _ ht hs => exact h.thread ht hcov hs
  | collector _ hs =>
    exact ⟨h.tracking.step (.collector _ hs),h.references_collector hs,h.known_collector hs,
      fun it key pc k hc hk => hs.position hc hk,
      fun it key w hc => hs.unlinking hc,h.not_panicked_collector hs⟩
  | finishDestructor panicked it p hc hweak hidle =>
    refine ⟨h.tracking.step (.finishDestructor panicked it p hc hweak hidle),
      SameMemory.references h.references (by constructor <;> rfl),fun key e he => ?_,?_,?_,?_⟩
    · exact h.known_outside (SameLinks.noMore (by constructor <;> first | rfl | exact fun _ => rfl))
        rfl (fun _ => rfl) (fun _ _ => .inl) (fun _ _ => rfl) he
    all_goals simp [State.unlinksTracked]

theorem safe_initial (cfg : Config) : Safe cfg .initial := by
  have hrecords : Records .initial := by
    refine ⟨fun t => ⟨?_,?_,?_⟩,?_,?_⟩ <;>
      simp [State.initial,ThreadPc.inSection,ThreadPc.slot]
  have hhandles : Handles cfg .initial := by
    constructor <;> simp [State.initial,ThreadPc.pins]
  have hweak : Weak .initial := by
    constructor <;> simp [State.initial,State.isWeakSdarcInner,ThreadPc.initializes,
      ThreadPc.makes,ThreadPc.downgrades,ThreadPc.upgrades]
  have hdead : ∀ p, (State.initial.view cfg p).Dead := by
    intro p
    constructor <;> simp [State.initial,State.view,State.owners,State.linked,cellsIn,ownedIn,
      weakIn,ThreadPc.owned]
  refine ⟨tracking_initial cfg,⟨hrecords,hhandles,hweak,?_,?_,fun p _ => hdead p,rfl⟩,
    ?_,?_,?_,?_⟩ <;> simp [State.initial,State.unlinksTracked,ThreadPc.makes]

theorem safe_of_reach (h : Reach (step cfg) (State.covered cfg) .initial s) : Safe cfg s :=
  h.invariant (Safe cfg) (safe_initial cfg)
    (fun _ _ _ hsafe hcov hs => hsafe.step hcov (step_cases hs))

end Run

end Sdarc.System
