import Sdarc.CollectorMain.Requests
set_option autoImplicit false

/-!
A request is served by an outer iteration that has begun after it and has tracked what was
registered before it.
-/

namespace Sdarc.CollectorMain
open Transition

def Phase.taken : Phase → List Nat
  | .taking _ _ taken => taken
  | _ => []

def Phase.nextShard (cfg : Config) : Phase → Nat
  | .taking _ shard _ => shard
  | .collecting _ => cfg.shards
  | .notifying => cfg.shards
  | _ => 0

def State.InHand (s : State) (p : Nat) : Prop :=
  p ∈ s.collector.taken ∨ p ∈ s.trackedCounters ∨ p ∈ s.freed

/-- The pointee is pending in some shard from `first` on, or past the pending shards. -/
def State.Placed (cfg : Config) (first : Nat) (s : State) (p : Nat) : Prop :=
  (∃ j, first ≤ j ∧ j < cfg.shards ∧ p ∈ s.pendingToTrack j) ∨ s.InHand p

def State.Registered (cfg : Config) (s : State) (p : Nat) : Prop := s.Placed cfg 0 p

def State.Covers (cfg : Config) (s : State) (p : Nat) : Prop :=
  s.Placed cfg (s.collector.nextShard cfg) p

section Placed

variable {cfg : Config} {s s' : State} {p : Nat}

theorem CollectorStep.inHand (h : CollectorStep cfg s s') (hp : s.InHand p) : s'.InHand p := by
  cases h with
  | track deep shard q taken hc =>
    simp only [State.InHand,hc,Phase.taken,List.mem_cons,List.mem_append,
      List.not_mem_nil,or_false] at hp ⊢
    tauto
  | free deep q hc hq =>
    simp only [State.InHand,hc,Phase.taken,List.mem_cons] at hp ⊢
    by_cases hpq : p = q
    · exact .inr (.inr (.inl hpq))
    · rw [List.mem_erase_of_ne hpq]
      tauto
  | notify x rest hc => simpa [State.InHand,hc,Phase.taken] using hp
  | unpark hc =>
    rcases hc with hc | hc <;> simpa [State.InHand,hc,Phase.taken] using hp
  | _ => simp_all [State.InHand,Phase.taken]

theorem CollectorStep.pending {j : Nat} (h : CollectorStep cfg s s')
    (hp : p ∈ s.pendingToTrack j) :
    s'.InHand p ∨ p ∈ s'.pendingToTrack j ∧
      (s.collector.nextShard cfg ≤ j → j < cfg.shards → s'.collector.nextShard cfg ≤ j) := by
  cases h with
  | takePending deep shard hc hshard =>
    by_cases hj : j = shard
    · subst hj
      exact .inl (.inl hp)
    · refine .inr ⟨by simpa [hj] using hp,fun hle _ => ?_⟩
      simp only [hc,Phase.nextShard] at hle ⊢
      omega
  | startCollection deep shard hc hle =>
    refine .inr ⟨hp,fun hle' hlt => ?_⟩
    simp only [hc,Phase.nextShard] at hle'
    omega
  | finishCollection deep hc =>
    exact .inr ⟨hp,fun hle _ => by simpa [hc,Phase.nextShard] using hle⟩
  | track deep shard q taken hc =>
    exact .inr ⟨hp,fun hle _ => by simpa [hc,Phase.nextShard] using hle⟩
  | free => exact .inr ⟨hp,fun hle _ => hle⟩
  | notify => exact .inr ⟨hp,fun hle _ => hle⟩
  | _ => exact .inr ⟨hp,fun _ _ => Nat.zero_le j⟩

theorem step_placed {a : Action} (h : step cfg s a = some s') :
    (s.Registered cfg p → s'.Registered cfg p) ∧ (s.Covers cfg p → s'.Covers cfg p) := by
  have hstep : (s.InHand p → s'.InHand p) ∧ ∀ j, p ∈ s.pendingToTrack j →
      s'.InHand p ∨ p ∈ s'.pendingToTrack j ∧
        (s.collector.nextShard cfg ≤ j → j < cfg.shards → s'.collector.nextShard cfg ≤ j) := by
    have hout : Outside s s' → (s.InHand p → s'.InHand p) ∧ ∀ j, p ∈ s.pendingToTrack j →
        s'.InHand p ∨ p ∈ s'.pendingToTrack j ∧
          (s.collector.nextShard cfg ≤ j → j < cfg.shards →
            s'.collector.nextShard cfg ≤ j) := by
      intro ho
      refine ⟨fun hp => ?_,fun j hp => .inr ⟨ho.pending j p hp,fun hle _ => ?_⟩⟩
      · simpa only [State.InHand,ho.collector,ho.trackedCounters,ho.freed] using hp
      · rwa [ho.collector]
    rcases step_cases h with ⟨t,-,-,hcall⟩ | ⟨shard,-,hnew⟩ | ⟨hc,-,-,-⟩
    · exact hout (call_outside hcall)
    · exact hout (onNewSdarcAllocated_outside hnew)
    · exact ⟨hc.inHand,fun _ hp => hc.pending hp⟩
  constructor
  · rintro (⟨j,hle,hlt,hp⟩ | hp)
    · rcases hstep.2 j hp with hp' | ⟨hp',-⟩
      · exact .inr hp'
      · exact .inl ⟨j,hle,hlt,hp'⟩
    · exact .inr (hstep.1 hp)
  · rintro (⟨j,hle,hlt,hp⟩ | hp)
    · rcases hstep.2 j hp with hp' | ⟨hp',hle'⟩
      · exact .inr hp'
      · exact .inl ⟨j,hle' hle hlt,hlt,hp'⟩
    · exact .inr (hstep.1 hp)

theorem State.Covers.tracked {deep : Bool} (h : s.Covers cfg p)
    (hc : s.collector = .collecting deep) : p ∈ s.trackedCounters ∨ p ∈ s.freed := by
  rcases h with ⟨j,hle,hlt,-⟩ | hp
  · simp only [hc,Phase.nextShard] at hle
    omega
  · simpa [State.InHand,hc,Phase.taken] using hp

end Placed

def Pushes {cfg : Config} {N : Nat} (e : Execution (step cfg) N) (k x : Nat) : Prop :=
  ∃ t, e.action k = .call t ∧ (e.state k).threads t = .pushing x

def Sends {cfg : Config} {N : Nat} (e : Execution (step cfg) N) (k x : Nat) : Prop :=
  e.action k = .collect ∧ (e.state k).collector = .notifying ∧
    (e.state k).toNotify.head? = some x

def Phase.servingDeep : Phase → Prop
  | .taking deep _ _ => deep = true
  | .collecting deep => deep = true
  | .notifying => True
  | _ => False

/-- Between the steps `a` and `c` one outer iteration began to take new counters and made a
deep collection, through which what was registered before `a` was tracked or freed. -/
def ServedBetween {cfg : Config} {N : Nat} (e : Execution (step cfg) N) (a c : Nat) : Prop :=
  ∃ b d, a < b ∧ b < d ∧ d < c ∧
    (e.state b).collector = .requesting ∧ (e.state (b+1)).collector = .taking true 0 [] ∧
    (e.state d).collector = .collecting true ∧
    ∀ m, b < m → m ≤ c →
      (e.state m).outerIterationCounter = (e.state b).outerIterationCounter ∧
      (e.state m).collector.servingDeep ∧
      ∀ i p, i ≤ a → (e.state i).Registered cfg p → (e.state m).collector = .collecting true →
        p ∈ (e.state m).trackedCounters ∨ p ∈ (e.state m).freed

/-- The outer iteration that began at `b`, after `a`, is under way before step `k`. -/
structure InPass {cfg : Config} {N : Nat} (e : Execution (step cfg) N) (a b k : Nat) : Prop where
  after : a < b
  before : b < k
  requesting : (e.state b).collector = .requesting
  taking : (e.state (b+1)).collector = .taking true 0 []
  counter : ∀ m, b < m → m ≤ k →
    (e.state m).outerIterationCounter = (e.state b).outerIterationCounter
  serving : ∀ m, b < m → m ≤ k → (e.state m).collector.servingDeep
  covers : ∀ m, b < m → m ≤ k → ∀ p, (e.state a).Registered cfg p → (e.state m).Covers cfg p
  collected : (e.state k).collector = .notifying →
    ∃ d, b < d ∧ d < k ∧ (e.state d).collector = .collecting true

def Located {cfg : Config} {N : Nat} (e : Execution (step cfg) N) (x a k : Nat) : Prop :=
  (x ∈ (e.state k).collectionWaiting ∧
    ((e.state k).outerIterationCounter = (e.state a).outerIterationCounter ∨
      (e.state k).outerIterationCounter = (e.state a).outerIterationCounter + 1 ∧
        (e.state k).collector = .requesting)) ∨
  (x ∈ (e.state k).toNotify ∧
    (e.state k).outerIterationCounter ≤ (e.state a).outerIterationCounter + 1 ∧
    ∃ b, InPass e a b k) ∨
  x ∈ (e.state k).sent

section History

variable {cfg : Config} {N : Nat} {e : Execution (step cfg) N} {x a b k : Nat}

theorem registered_mono {i p : Nat} (hik : i ≤ k) (hk : k ≤ N)
    (hp : (e.state i).Registered cfg p) : (e.state k).Registered cfg p := by
  induction k, hik using Nat.le_induction with
  | base => exact hp
  | succ k _ ih => exact (step_placed (e.enabled k (by omega))).1 (ih (by omega))

theorem CollectorStep.servingDeep {s s' : State} (h : CollectorStep cfg s s')
    (hs : s.collector.servingDeep) (hsome : s'.toNotify ≠ []) :
    s'.collector.servingDeep ∧ s'.outerIterationCounter = s.outerIterationCounter ∧
      (s'.collector = .notifying → s.collector = .notifying ∨ s.collector = .collecting true) := by
  cases h with
  | track deep shard p taken hc =>
    exact ⟨by simpa [hc,Phase.servingDeep] using hs,rfl,by simp⟩
  | takePending deep shard hc =>
    exact ⟨by simpa [hc,Phase.servingDeep] using hs,rfl,by simp⟩
  | startCollection deep shard hc =>
    exact ⟨by simpa [hc,Phase.servingDeep] using hs,rfl,by simp⟩
  | free deep p hc => exact ⟨hs,rfl,by simp [hc]⟩
  | finishCollection deep hc =>
    obtain rfl : deep = true := by simpa [hc,Phase.servingDeep] using hs
    exact ⟨trivial,rfl,fun _ => .inr hc⟩
  | notify y rest hc => exact ⟨hs,rfl,fun _ => .inl hc⟩
  | finishNotifying hc hnone => exact absurd hnone hsome
  | startIteration hc => simp [hc,Phase.servingDeep] at hs
  | takeRequests hc => simp [hc,Phase.servingDeep] at hs
  | park hc => simp [hc,Phase.servingDeep] at hs
  | unpark hc => rcases hc with hc | hc <;> simp [hc,Phase.servingDeep] at hs

theorem CollectorStep.waiting {s s' : State} (h : CollectorStep cfg s s')
    (hx : x ∈ s.collectionWaiting) :
    (s.collector = .requesting ∧ x ∈ s'.toNotify ∧
      s'.outerIterationCounter = s.outerIterationCounter ∧ s'.collector = .taking true 0 []) ∨
    (x ∈ s'.collectionWaiting ∧ s.collector ≠ .requesting ∧
      (s'.outerIterationCounter = s.outerIterationCounter ∨
        s'.outerIterationCounter = s.outerIterationCounter + 1 ∧ s'.collector = .requesting)) := by
  cases h with
  | startIteration hc => exact .inr ⟨hx,by simp [hc],.inr ⟨rfl,rfl⟩⟩
  | takeRequests hc =>
    have hsome : s.collectionWaiting ≠ [] := List.ne_nil_of_mem hx
    exact .inl ⟨hc,hx,rfl,by simp [hsome]⟩
  | unpark hc => exact .inr ⟨hx,by rcases hc with hc | hc <;> simp [hc],.inl rfl⟩
  | _ => exact .inr ⟨hx,by simp_all,.inl rfl⟩

theorem CollectorStep.toNotify {s s' : State} (h : CollectorStep cfg s s')
    (hs : s.collector.servingDeep) (hx : x ∈ s.toNotify) : x ∈ s'.toNotify ∨ x ∈ s'.sent := by
  cases h with
  | takeRequests hc => simp [hc,Phase.servingDeep] at hs
  | notify y rest _ hy =>
    rcases List.mem_cons.mp (hy ▸ hx) with rfl | hx
    · exact .inr (by simp)
    · exact .inl hx
  | _ => exact .inl hx

theorem CollectorStep.sent {s s' : State} (h : CollectorStep cfg s s') (hx : x ∈ s.sent) :
    x ∈ s'.sent := by
  cases h with
  | notify y rest => exact List.mem_append_left _ hx
  | _ => exact hx

theorem InPass.next (h : InPass e a b k) (hk : k < N)
    (hserving : (e.state (k+1)).collector.servingDeep)
    (hcounter : (e.state (k+1)).outerIterationCounter = (e.state k).outerIterationCounter)
    (hcollected : (e.state (k+1)).collector = .notifying →
      (e.state k).collector = .notifying ∨ (e.state k).collector = .collecting true) :
    InPass e a b (k+1) := by
  refine ⟨h.after,Nat.lt_succ_of_lt h.before,h.requesting,h.taking,fun m hbm hm => ?_,
    fun m hbm hm => ?_,fun m hbm hm p hp => ?_,fun hn => ?_⟩
  · rcases Nat.le_succ_iff.mp hm with hm | rfl
    · exact h.counter m hbm hm
    · rw [hcounter]
      exact h.counter k h.before le_rfl
  · rcases Nat.le_succ_iff.mp hm with hm | rfl
    · exact h.serving m hbm hm
    · exact hserving
  · rcases Nat.le_succ_iff.mp hm with hm | rfl
    · exact h.covers m hbm hm p hp
    · exact (step_placed (e.enabled k hk)).2 (h.covers k h.before le_rfl p hp)
  · rcases hcollected hn with hc | hc
    · obtain ⟨d,hbd,hdk,hd⟩ := h.collected hc
      exact ⟨d,hbd,Nat.lt_succ_of_lt hdk,hd⟩
    · exact ⟨k,h.before,Nat.lt_succ_self k,hc⟩

theorem InPass.start (hak : a < k) (hk : k < N) (hc : (e.state k).collector = .requesting)
    (hcounter : (e.state (k+1)).outerIterationCounter = (e.state k).outerIterationCounter)
    (htaking : (e.state (k+1)).collector = .taking true 0 []) : InPass e a k (k+1) := by
  have hm : ∀ m, k < m → m ≤ k + 1 → m = k + 1 := fun m h h' => by omega
  refine ⟨hak,Nat.lt_succ_self k,hc,htaking,fun m h h' => ?_,fun m h h' => ?_,
    fun m h h' p hp => ?_,fun hn => ?_⟩
  · rw [hm m h h',hcounter]
  · rw [hm m h h',htaking]
    exact rfl
  · rw [hm m h h']
    have hcov : (e.state k).Covers cfg p := by
      have hreg := registered_mono hak.le hk.le hp
      simpa [State.Covers,State.Registered,hc,Phase.nextShard] using hreg
    exact (step_placed (e.enabled k hk)).2 hcov
  · rw [htaking] at hn
    contradiction

theorem Located.next (h : Located e x a k) (hak : a < k) (hk : k < N) :
    Located e x a (k+1) := by
  have hstep := e.enabled k hk
  have hout : Outside (e.state k) (e.state (k+1)) → Located e x a (k+1) := by
    intro ho
    rcases h with ⟨hx,hcount⟩ | ⟨hx,hcount,b,hpass⟩ | hx
    · refine .inl ⟨ho.waiting x hx,?_⟩
      rwa [ho.counter,ho.collector]
    · refine .inr (.inl ⟨ho.toNotify ▸ hx,ho.counter ▸ hcount,b,hpass.next hk ?_ ho.counter ?_⟩)
      · rw [ho.collector]
        exact hpass.serving k hpass.before le_rfl
      · rw [ho.collector]
        exact .inl
    · exact .inr (.inr (ho.sent ▸ hx))
  rcases step_cases hstep with ⟨t,-,-,hcall⟩ | ⟨shard,-,hnew⟩ | ⟨hc,-,-,-⟩
  · exact hout (call_outside hcall)
  · exact hout (onNewSdarcAllocated_outside hnew)
  · rcases h with ⟨hx,hcount⟩ | ⟨hx,hcount,b,hpass⟩ | hx
    · rcases hc.waiting hx with ⟨hreq,hx',hcounter,htaking⟩ | ⟨hx',hnot,hcounter⟩
      · refine .inr (.inl ⟨hx',?_,k,.start hak hk hreq hcounter htaking⟩)
        omega
      · have hsame : (e.state k).outerIterationCounter = (e.state a).outerIterationCounter :=
          hcount.resolve_right (fun hcount => hnot hcount.2)
        refine .inl ⟨hx',?_⟩
        rwa [hsame] at hcounter
    · have hserving := hpass.serving k hpass.before le_rfl
      rcases hc.toNotify hserving hx with hx' | hx'
      · obtain ⟨hserving',hcounter,hcollected⟩ :=
          hc.servingDeep hserving (List.ne_nil_of_mem hx')
        exact .inr (.inl ⟨hx',hcounter ▸ hcount,b,
          hpass.next hk hserving' hcounter hcollected⟩)
      · exact .inr (.inr hx')
    · exact .inr (.inr (hc.sent hx))

theorem requests_of_initial (h₀ : e.state 0 = .initial) (hk : k ≤ N) : Requests (e.state k) :=
  e.invariant (fun k => Requests (e.state k)) (h₀ ▸ requests_initial)
    (fun _ _ hs hstep => hs.step hstep) hk

theorem lockHeld_of_initial (h₀ : e.state 0 = .initial) (hk : k ≤ N) :
    (e.state k).LockHeld cfg :=
  e.invariant (fun k => (e.state k).LockHeld cfg)
    (h₀ ▸ fun t (ht : State.initial.lock = some t) => nomatch ht)
    (fun _ _ hs hstep => hs.step hstep) hk

theorem Pushes.state (h : Pushes e a x) (ha : a < N) :
    x ∈ (e.state (a+1)).collectionWaiting ∧
      (e.state (a+1)).outerIterationCounter = (e.state a).outerIterationCounter := by
  obtain ⟨t,hact,ht⟩ := h
  have hstep := e.enabled a ha
  simp only [hact,step,Option.ite_none_right_eq_some,State.call,ht,Option.some.injEq] at hstep
  obtain ⟨-,hs⟩ := hstep
  simp [← hs]

theorem Pushes.located (h : Pushes e a x) (hak : a < k) (hk : k ≤ N) : Located e x a k := by
  induction k, hak using Nat.le_induction with
  | base =>
    obtain ⟨hx,hcounter⟩ := h.state hk
    exact .inl ⟨hx,.inl hcounter⟩
  | succ k hak ih => exact (ih (by omega)).next hak hk

theorem Located.mem_requests (h : Located e x a k) : x ∈ (e.state k).requests := by
  rcases h with ⟨hx,-⟩ | ⟨hx,-⟩ | hx <;> simp [State.requests,hx]

theorem sent_mono {c : Nat} (hck : c ≤ k) (hk : k ≤ N) (hx : x ∈ (e.state c).sent) :
    x ∈ (e.state k).sent := by
  induction k, hck using Nat.le_induction with
  | base => exact hx
  | succ k _ ih =>
    have hx := ih (by omega)
    rcases step_cases (e.enabled k (by omega)) with ⟨t,-,-,hcall⟩ | ⟨shard,-,hnew⟩ | ⟨hc,-,-,-⟩
    · exact (call_outside hcall).sent ▸ hx
    · exact (onNewSdarcAllocated_outside hnew).sent ▸ hx
    · exact hc.sent hx

theorem Sends.state {c : Nat} (h : Sends e c x) (hc : c < N) :
    x ∈ (e.state c).toNotify ∧ x ∈ (e.state (c+1)).sent := by
  obtain ⟨hact,hphase,hhead⟩ := h
  obtain ⟨rest,hrest⟩ : ∃ rest, (e.state c).toNotify = x :: rest := by
    cases hn : (e.state c).toNotify with
    | nil => simp [hn] at hhead
    | cons y rest => exact ⟨rest,by simp_all⟩
  have hstep := e.enabled c hc
  simp only [hact,step,State.collect,hphase,hrest,Option.some.injEq] at hstep
  exact ⟨by simp [hrest],by simp [← hstep]⟩

theorem Sends.after {c : Nat} (h : Sends e c x) (hpush : Pushes e a x) (hreq : Requests (e.state a))
    (ha : a ≤ N) (hc : c < N) : a < c := by
  obtain ⟨t,hact,ht⟩ := hpush
  have hnew := (hreq.unpushed t x (by rw [ht]; rfl)).2
  by_contra hle
  rcases Nat.lt_or_eq_of_le (Nat.not_lt.mp hle) with hlt | rfl
  · exact hnew (by simp [State.requests,sent_mono hlt ha (h.state hc).2])
  · exact hnew (by simp [State.requests,(h.state hc).1])

theorem InPass.servedBetween {c : Nat} (h : InPass e a b c) (hc : c ≤ N)
    (hphase : (e.state c).collector = .notifying) : ServedBetween e a c := by
  obtain ⟨d,hbd,hdc,hd⟩ := h.collected hphase
  refine ⟨b,d,h.after,hbd,hdc,h.requesting,h.taking,hd,fun m hbm hmc => ?_⟩
  refine ⟨h.counter m hbm hmc,h.serving m hbm hmc,fun i p hi hp hm => ?_⟩
  have hreg := registered_mono hi (h.after.le.trans (h.before.le.trans hc)) hp
  exact (h.covers m hbm hmc p hreg).tracked hm

/-- A request is in one place from its push on and has been sent to when the second outer
iteration after it begins; it is sent to once, after a deep collection that has begun to take
new counters after the push. The collector is never parked on a request that it may miss, and
nothing stops it but a caller that holds the lock and can go on. -/
theorem requests_served (e : Execution (step cfg) N) (h₀ : e.state 0 = .initial) :
    (∀ k, k ≤ N → (e.state k).CanGoOn cfg ∧
      ((e.state k).collector = .parked → (e.state k).unparkToken = false →
        (e.state k).collectionWaiting ≠ [] → ∃ t x, (e.state k).threads t = .unparking x)) ∧
    ∀ a x, a < N → Pushes e a x →
      (∀ k, a < k → k ≤ N → (e.state k).requests.count x = 1 ∧
        ((e.state a).outerIterationCounter + 2 ≤ (e.state k).outerIterationCounter →
          (e.state k).sent.count x = 1)) ∧
      ∀ c, c < N → Sends e c x → ServedBetween e a c := by
  refine ⟨fun k hk => ⟨(lockHeld_of_initial h₀ hk).canGoOn,fun hpark htoken hsome => ?_⟩,
    fun a x ha hpush => ⟨fun k hak hk => ⟨?_,fun hlater => ?_⟩,fun c hc hsends => ?_⟩⟩
  · rcases (requests_of_initial h₀ hk).awake hsome with htok | hcaller | hphase | hphase
    · rw [htoken] at htok
      contradiction
    · exact hcaller
    · rw [hpark] at hphase
      contradiction
    · rw [hpark] at hphase
      contradiction
  · exact List.count_eq_one_of_mem (requests_of_initial h₀ hk).nodup
      (hpush.located hak hk).mem_requests
  · have hnodup := (requests_of_initial h₀ hk).nodup
    refine List.count_eq_one_of_mem (List.nodup_append.mp hnodup).2.1 ?_
    rcases hpush.located hak hk with ⟨-,hcount | ⟨hcount,-⟩⟩ | ⟨-,hcount,-⟩ | hx
    · omega
    · omega
    · omega
    · exact hx
  · have hac := hsends.after hpush (requests_of_initial h₀ ha.le) ha.le hc
    have hnodup := (requests_of_initial h₀ hc.le).nodup
    have hto := (hsends.state hc).1
    rcases hpush.located hac hc.le with ⟨hx,-⟩ | ⟨-,-,b,hpass⟩ | hx
    · have hdisj := (List.nodup_append.mp (List.nodup_append.mp hnodup).1).2.2
      exact absurd rfl (hdisj x hx x hto)
    · exact hpass.servedBetween hc.le hsends.2.1
    · have hdisj := (List.nodup_append.mp hnodup).2.2
      exact absurd rfl (hdisj x (List.mem_append_right _ hto) x hx)

end History

def lateRequest : List Action :=
  [.onNewSdarcAllocated 0,.collect,.collect,.collect,.collect,.collect,.call 0,.call 0,.call 0,
    .call 0,.call 0,.finishCollection,.collect,.collect,.collect,.collect,.collect,.collect,
    .free 0,.finishCollection,.collect,.collect,.call 0,.collect]

theorem lateRequest_served :
    ∃ e : Execution (step ⟨1,1⟩) 24,
      e.state 24 = (run (step ⟨1,1⟩) .initial lateRequest).getD .initial ∧
      (e.state 24).requests.count 0 = 1 ∧ ServedBetween e 8 20 := by
  have hserved := (requests_served
    (Execution.ofRun (step ⟨1,1⟩) .initial lateRequest (by decide +kernel)) rfl).2 8 0
    (by decide) ⟨0,rfl,by decide +kernel⟩
  exact ⟨_,rfl,(hserved.1 24 (by decide) (by decide)).1,
    hserved.2 20 (by decide) ⟨rfl,by decide +kernel,by decide +kernel⟩⟩

end Sdarc.CollectorMain
