import Sdarc.CollectorMain.Threads
set_option autoImplicit false

/-! A request is in one place at a time, and no call keeps another from going on. -/

namespace Sdarc.CollectorMain
open Transition

def CallerPc.unpushed : CallerPc → Option Nat
  | .locking x => some x
  | .pushing x => some x
  | _ => none

def Phase.serving : Phase → Bool
  | .taking _ _ _ => true
  | .collecting _ => true
  | .notifying => true
  | _ => false

/-- All senders that have been pushed, as often as they are or have been anywhere. -/
def State.requests (s : State) : List Nat := s.collectionWaiting ++ s.toNotify ++ s.sent

/-- The collector is certain to look at `collection_waiting` before it parks for good. -/
def State.Awake (s : State) : Prop :=
  s.unparkToken = true ∨ (∃ t x, s.threads t = .unparking x) ∨
    s.collector = .starting ∨ s.collector = .requesting

structure Requests (s : State) : Prop where
  nodup : s.requests.Nodup
  fresh : ∀ x, x ∈ s.requests → x < s.nextSender
  unpushed : ∀ t x, (s.threads t).unpushed = some x → x < s.nextSender ∧ x ∉ s.requests
  distinct : ∀ t u x, (s.threads t).unpushed = some x → (s.threads u).unpushed = some x → t = u
  serving : s.toNotify ≠ [] → s.collector.serving = true
  awake : s.collectionWaiting ≠ [] → s.Awake

section Requests

variable {cfg : Config} {s s' : State}

theorem CollectorStep.requests (h : CollectorStep cfg s s') (hs : Requests s) :
    s'.requests.Perm s.requests := by
  cases h with
  | takeRequests hc _ =>
    have hnone : s.toNotify = [] := by
      by_contra hsome
      simpa [hc,Phase.serving] using hs.serving hsome
    simp [State.requests,hnone]
  | notify x rest _ hx =>
    simp only [State.requests,hx,List.append_assoc]
    refine List.Perm.append_left _ ?_
    rw [← List.append_assoc]
    exact List.perm_append_singleton x _
  | _ => exact .refl _

theorem CollectorStep.serving (h : CollectorStep cfg s s')
    (hs : s.toNotify ≠ [] → s.collector.serving = true) :
    s'.toNotify ≠ [] → s'.collector.serving = true := by
  cases h with
  | startIteration hc => simpa [hc,Phase.serving] using hs
  | notify x rest hc => exact fun _ => by simp [hc,Phase.serving]
  | finishNotifying _ hnone => exact fun hsome => absurd hnone hsome
  | park hc => simpa [hc,Phase.serving] using hs
  | unpark hc =>
    rcases hc with hc | hc <;> simpa [hc,Phase.serving] using hs
  | free deep p hc => exact fun _ => by simp [hc,Phase.serving]
  | _ => exact fun _ => rfl

theorem CollectorStep.awake (h : CollectorStep cfg s s') (hthreads : s'.threads = s.threads)
    (hs : s.collectionWaiting ≠ [] → s.Awake) : s'.collectionWaiting ≠ [] → s'.Awake := by
  have hkeep : ∀ t : State, t.collectionWaiting = s.collectionWaiting →
      t.threads = s.threads → t.unparkToken = s.unparkToken →
      s.collector ≠ .starting → s.collector ≠ .requesting →
      t.collectionWaiting ≠ [] → t.Awake := by
    intro t hwaiting hthreads htoken hstart hrequest hsome
    rcases hs (hwaiting ▸ hsome) with htok | hcaller | hc | hc
    · exact .inl (htoken ▸ htok)
    · exact .inr (.inl (hthreads ▸ hcaller))
    · exact absurd hc hstart
    · exact absurd hc hrequest
  cases h with
  | startIteration => exact fun _ => .inr (.inr (.inr rfl))
  | takeRequests => exact fun hsome => absurd rfl hsome
  | unpark => exact fun _ => .inr (.inr (.inl rfl))
  | _ => exact hkeep _ rfl rfl rfl (by simp_all) (by simp_all)

theorem CollectorStep.request_state (h : CollectorStep cfg s s')
    (hthreads : s'.threads = s.threads) (hnext : s'.nextSender = s.nextSender)
    (hs : Requests s) : Requests s' := by
  have hperm := h.requests hs
  refine ⟨hperm.nodup_iff.mpr hs.nodup,fun x hx => ?_,fun t x hx => ?_,fun t u x ht hu => ?_,
    h.serving hs.serving,h.awake hthreads hs.awake⟩
  · rw [hnext]
    exact hs.fresh x (hperm.mem_iff.mp hx)
  · rw [hthreads] at hx
    rw [hnext,hperm.mem_iff]
    exact hs.unpushed t x hx
  · rw [hthreads] at ht hu
    exact hs.distinct t u x ht hu

theorem Requests.of_caller {t : Nat} {pc : CallerPc} (hs : Requests s)
    (hthreads : s'.threads = Function.update s.threads t pc)
    (hsame : s'.requests = s.requests) (hnext : s.nextSender ≤ s'.nextSender)
    (hunpushed : ∀ x, pc.unpushed = some x → x < s'.nextSender ∧ x ∉ s.requests ∧
      ∀ u, u ≠ t → (s.threads u).unpushed ≠ some x)
    (hserving : s'.toNotify ≠ [] → s'.collector.serving = true)
    (hawake : s'.collectionWaiting ≠ [] → s'.Awake) : Requests s' where
  nodup := hsame ▸ hs.nodup
  fresh x hx := (hs.fresh x (hsame ▸ hx)).trans_le hnext
  unpushed u x hx := by
    rw [hsame]
    by_cases hu : u = t
    · subst hu
      rw [hthreads,Function.update_self] at hx
      exact ⟨(hunpushed x hx).1,(hunpushed x hx).2.1⟩
    · rw [hthreads,Function.update_of_ne hu] at hx
      exact ⟨(hs.unpushed u x hx).1.trans_le hnext,(hs.unpushed u x hx).2⟩
  distinct u v x hu hv := by
    rw [hthreads] at hu hv
    by_cases hut : u = t <;> by_cases hvt : v = t
    · rw [hut,hvt]
    · subst hut
      rw [Function.update_self] at hu
      rw [Function.update_of_ne hvt] at hv
      exact absurd hv ((hunpushed x hu).2.2 v hvt)
    · subst hvt
      rw [Function.update_self] at hv
      rw [Function.update_of_ne hut] at hu
      exact absurd hu ((hunpushed x hv).2.2 u hut)
    · rw [Function.update_of_ne hut] at hu
      rw [Function.update_of_ne hvt] at hv
      exact hs.distinct u v x hu hv
  serving := hserving
  awake := hawake

theorem State.Awake.of_caller {t : Nat} {pc : CallerPc} (ha : s.Awake)
    (hthreads : s'.threads = Function.update s.threads t pc)
    (ht : ∀ x, s.threads t ≠ .unparking x) (htoken : s'.unparkToken = s.unparkToken)
    (hcollector : s'.collector = s.collector) : s'.Awake := by
  rcases ha with htok | ⟨u,x,hu⟩ | hc | hc
  · exact .inl (htoken ▸ htok)
  · have hne : u ≠ t := fun heq => ht x (heq ▸ hu)
    exact .inr (.inl ⟨u,x,by rw [hthreads,Function.update_of_ne hne,hu]⟩)
  · exact .inr (.inr (.inl (hcollector ▸ hc)))
  · exact .inr (.inr (.inr (hcollector ▸ hc)))

theorem Requests.push {t x : Nat} (hs : Requests s) (ht : s.threads t = .pushing x) :
    Requests { s.setThread t (.unparking x) with
      collectionWaiting := s.collectionWaiting ++ [x] } := by
  have hpushed : (s.threads t).unpushed = some x := by rw [ht]; rfl
  obtain ⟨hlt,hnew⟩ := hs.unpushed t x hpushed
  have hperm : (State.requests { s.setThread t (.unparking x) with
      collectionWaiting := s.collectionWaiting ++ [x] }).Perm (x :: s.requests) := by
    simp only [State.requests,List.append_assoc,List.singleton_append]
    exact List.perm_middle
  have hother : ∀ u y, (Function.update s.threads t (.unparking x) u).unpushed = some y →
      u ≠ t ∧ (s.threads u).unpushed = some y := by
    intro u y hu
    by_cases hut : u = t
    · subst hut
      simp [CallerPc.unpushed] at hu
    · rw [Function.update_of_ne hut] at hu
      exact ⟨hut,hu⟩
  refine ⟨hperm.nodup_iff.mpr (List.nodup_cons.mpr ⟨hnew,hs.nodup⟩),fun y hy => ?_,
    fun u y hu => ?_,fun u v y hu hv => ?_,hs.serving,fun _ => ?_⟩
  · rcases List.mem_cons.mp (hperm.mem_iff.mp hy) with rfl | hy
    · exact hlt
    · exact hs.fresh y hy
  · obtain ⟨hut,hold⟩ := hother u y hu
    refine ⟨(hs.unpushed u y hold).1,fun hy => ?_⟩
    rcases List.mem_cons.mp (hperm.mem_iff.mp hy) with rfl | hy
    · exact hut (hs.distinct u t y hold hpushed)
    · exact (hs.unpushed u y hold).2 hy
  · exact hs.distinct u v y (hother u y hu).2 (hother v y hv).2
  · exact .inr (.inl ⟨t,x,by simp⟩)

theorem Requests.call {t : Nat} (hs : Requests s) (h : s.call t = some s') : Requests s' := by
  unfold State.call at h
  have hnone : ∀ {pc : CallerPc}, pc.unpushed = none → ∀ x, pc.unpushed = some x →
      x < s'.nextSender ∧ x ∉ s.requests ∧ ∀ u, u ≠ t → (s.threads u).unpushed ≠ some x :=
    fun hpc x hx => absurd hx (by rw [hpc]; simp)
  split at h
  case h_1 ht =>
    obtain rfl := Option.some.inj h
    refine hs.of_caller rfl rfl (Nat.le_succ _) (fun x hx => ?_) hs.serving
      (fun hsome => (hs.awake hsome).of_caller rfl (by simp [ht]) rfl rfl)
    obtain rfl := Option.some.inj hx
    exact ⟨Nat.lt_succ_self _,fun hmem => (hs.fresh _ hmem).ne rfl,
      fun u _ hu => (hs.unpushed u _ hu).1.ne rfl⟩
  case h_2 x ht =>
    obtain ⟨-,rfl⟩ := by simpa using h
    have hx : (s.threads t).unpushed = some x := by rw [ht]; rfl
    refine hs.of_caller rfl rfl le_rfl (fun y hy => ?_) hs.serving
      (fun hsome => (hs.awake hsome).of_caller rfl (by simp [ht]) rfl rfl)
    obtain rfl := Option.some.inj hy
    exact ⟨(hs.unpushed t x hx).1,(hs.unpushed t x hx).2,
      fun u hut hu => hut (hs.distinct u t x hu hx)⟩
  case h_3 x ht =>
    obtain rfl := Option.some.inj h
    exact hs.push ht
  case h_4 x ht =>
    obtain rfl := Option.some.inj h
    exact hs.of_caller rfl rfl le_rfl (hnone rfl) hs.serving (fun _ => .inl rfl)
  case h_5 x ht =>
    obtain rfl := Option.some.inj h
    exact hs.of_caller rfl rfl le_rfl (hnone rfl) hs.serving
      (fun hsome => (hs.awake hsome).of_caller rfl (by simp [ht]) rfl rfl)
  case h_6 x ht =>
    obtain ⟨-,rfl⟩ := by simpa using h
    exact hs.of_caller rfl rfl le_rfl (hnone rfl) hs.serving
      (fun hsome => (hs.awake hsome).of_caller rfl (by simp [ht]) rfl rfl)

theorem Requests.step {a : Action} (hs : Requests s) (h : step cfg s a = some s') :
    Requests s' := by
  rcases step_cases h with ⟨t,-,-,hcall⟩ | ⟨shard,-,hnew⟩ | ⟨hc,hthreads,hnext,-⟩
  · exact hs.call hcall
  · unfold State.onNewSdarcAllocated at hnew
    obtain ⟨-,rfl⟩ := by simpa using hnew
    exact ⟨hs.nodup,hs.fresh,hs.unpushed,hs.distinct,hs.serving,hs.awake⟩
  · exact hc.request_state hthreads hnext hs

theorem requests_initial : Requests .initial where
  nodup := List.nodup_nil
  fresh _ hx := absurd hx List.not_mem_nil
  unpushed _ _ hx := nomatch hx
  distinct _ _ _ ht := nomatch ht
  serving h := absurd rfl h
  awake h := absurd rfl h

def CallerPc.locks : CallerPc → Bool
  | .pushing _ => true
  | .unparking _ => true
  | .unlocking _ => true
  | _ => false

def State.LockHeld (cfg : Config) (s : State) : Prop :=
  ∀ t, s.lock = some t → t < cfg.threads ∧ (s.threads t).locks = true

theorem State.LockHeld.of_caller {t : Nat} {pc : CallerPc} (hs : s.LockHeld cfg)
    (hthreads : s'.threads = Function.update s.threads t pc) (hlock : s'.lock = s.lock)
    (hpc : (s.threads t).locks = true → pc.locks = true) : s'.LockHeld cfg := by
  intro u hu
  obtain ⟨hlt,hold⟩ := hs u (hlock ▸ hu)
  refine ⟨hlt,?_⟩
  rw [hthreads]
  by_cases hut : u = t
  · subst hut
    simpa using hpc hold
  · rwa [Function.update_of_ne hut]

theorem State.LockHeld.step {a : Action} (hs : s.LockHeld cfg)
    (h : CollectorMain.step cfg s a = some s') : s'.LockHeld cfg := by
  rcases step_cases h with ⟨t,-,ht,hcall⟩ | ⟨shard,-,hnew⟩ | ⟨-,hthreads,-,hlock⟩
  · unfold State.call at hcall
    split at hcall
    case h_1 hpc =>
      obtain rfl := Option.some.inj hcall
      exact hs.of_caller rfl rfl (by simp [hpc,CallerPc.locks])
    case h_2 x hpc =>
      obtain ⟨-,rfl⟩ := by simpa using hcall
      intro u hu
      obtain rfl : t = u := Option.some.inj hu
      exact ⟨ht,by simp [CallerPc.locks]⟩
    case h_3 x hpc =>
      obtain rfl := Option.some.inj hcall
      exact hs.of_caller rfl rfl (fun _ => rfl)
    case h_4 x hpc =>
      obtain rfl := Option.some.inj hcall
      exact hs.of_caller rfl rfl (fun _ => rfl)
    case h_5 x hpc =>
      obtain rfl := Option.some.inj hcall
      exact fun u hu => nomatch hu
    case h_6 x hpc =>
      obtain ⟨-,rfl⟩ := by simpa using hcall
      exact hs.of_caller rfl rfl (by simp [hpc,CallerPc.locks])
  · unfold State.onNewSdarcAllocated at hnew
    obtain ⟨-,rfl⟩ := by simpa using hnew
    exact hs
  · intro t ht
    rw [hthreads]
    exact hs t (hlock ▸ ht)

theorem collect_isSome (hrequest : s.collector = .requesting → s.lock = none)
    (hcollect : ∀ deep, s.collector ≠ .collecting deep) (hpark : s.collector ≠ .parked) :
    (s.collect cfg).isSome = true := by
  unfold State.collect
  split
  case h_2 hc => simp [hrequest hc]
  case h_4 => split <;> rfl
  case h_5 deep hc => exact absurd hc (hcollect deep)
  case h_6 => split <;> rfl
  case h_7 => split <;> rfl
  case h_8 hc => exact absurd hc hpark
  all_goals rfl

def State.CanGoOn (cfg : Config) (s : State) : Prop :=
  ∃ a, (step cfg s a).isSome = true ∧
    (a = .collect ∨ a = .finishCollection ∨ a = .timeout ∨ ∃ t, s.lock = some t ∧ a = .call t)

theorem State.LockHeld.canGoOn (hs : s.LockHeld cfg) : s.CanGoOn cfg := by
  cases hc : s.collector with
  | requesting =>
    cases hlock : s.lock with
    | none => exact ⟨.collect,collect_isSome (fun _ => hlock) (by simp [hc]) (by simp [hc]),.inl rfl⟩
    | some t =>
      obtain ⟨ht,hlocks⟩ := hs t hlock
      have hnext : (s.call t).isSome = true := by
        cases hpc : s.threads t with
        | pushing x => simp [State.call,hpc]
        | unparking x => simp [State.call,hpc]
        | unlocking x => simp [State.call,hpc]
        | _ => simp [hpc,CallerPc.locks] at hlocks
      exact ⟨.call t,by simpa [CollectorMain.step,ht] using hnext,.inr (.inr (.inr ⟨t,hlock,rfl⟩))⟩
  | collecting deep =>
    exact ⟨.finishCollection,by simp [CollectorMain.step,State.finishCollection,hc],
      .inr (.inl rfl)⟩
  | parked =>
    exact ⟨.timeout,by simp [CollectorMain.step,State.timeout,hc],.inr (.inr (.inl rfl))⟩
  | _ => exact ⟨.collect,collect_isSome (by simp [hc]) (by simp [hc]) (by simp [hc]),.inl rfl⟩

end Requests

end Sdarc.CollectorMain
