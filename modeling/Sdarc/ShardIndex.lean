import Mathlib.Data.Nat.Log
import Mathlib.Data.Set.Basic
import Mathlib.Data.List.Nodup
import Mathlib.Tactic.Ring
set_option autoImplicit false

/-!
Shard counts, shard indices and the address that a `ShardedBox` computes from an
index. `usize` is a 64-bit word.
-/

namespace Sdarc

def MAX_SHARD_COUNT : Nat := 256
def MIN_EXPONENT : Nat := 0
def MAX_EXPONENT : Nat := 8

/-- A power of two up to `MAX_SHARD_COUNT` with the mask that takes remainders by it. -/
structure ShardCount where
  shardCount : Nat
  mask : Nat
  adjusted : ∃ e, e ≤ MAX_EXPONENT ∧ shardCount = 2^e ∧ mask = 2^e - 1
  deriving DecidableEq

structure ShardIndex where
  value : UInt8
  deriving DecidableEq, Repr

def ShardIndex.asUsize (i : ShardIndex) : Nat := i.value.toNat

inductive ShardCountPanic where
  | zeroShardCount
  | tooLarge (num : UInt64)
  | notAnUnsignedInteger
  deriving DecidableEq, Repr

def countOnes (num : UInt64) : Nat :=
  (List.range 64).countP (fun i => num.toNat.testBit i)

def trailingZeros (num : UInt64) : Nat :=
  ((List.range 64).find? (fun i => num.toNat.testBit i)).getD 64

def ilog2 (num : UInt64) : Nat := num.toNat.log2

namespace ShardCount

def fromExponentAdjusted (exponent : Nat) : ShardCount where
  shardCount := 1 <<< max MIN_EXPONENT (min exponent MAX_EXPONENT)
  mask := 1 <<< max MIN_EXPONENT (min exponent MAX_EXPONENT) - 1
  adjusted := ⟨max MIN_EXPONENT (min exponent MAX_EXPONENT),
    by simp [MIN_EXPONENT],by simp [Nat.one_shiftLeft],by simp [Nat.one_shiftLeft]⟩

def fromUsizeAdjusted (num : UInt64) : Except ShardCountPanic ShardCount :=
  if num = 0 then .error .zeroShardCount
  else if countOnes num = 1 then .ok (fromExponentAdjusted (trailingZeros num))
  else .ok (fromExponentAdjusted (ilog2 num + 1))

def modulo (c : ShardCount) (num : UInt64) : ShardIndex :=
  ⟨UInt8.ofNat (num.toNat &&& c.mask)⟩

end ShardCount

inductive EnvVar where
  | absent
  | unparsable
  | parsed (num : UInt64)
  deriving DecidableEq, Repr

def shardCountFromEnvVar : EnvVar → Except ShardCountPanic (Option ShardCount)
  | .absent => .ok none
  | .unparsable => .error .notAnUnsignedInteger
  | .parsed num =>
      if MAX_SHARD_COUNT < num.toNat then .error (.tooLarge num)
      else if num = 0 then .error .zeroShardCount
      else (ShardCount.fromUsizeAdjusted num).map some

/-- `available` is `none` where the system does not tell its parallelism. -/
def initShardCount (env : EnvVar) (available : Option UInt64) :
    Except ShardCountPanic ShardCount :=
  match shardCountFromEnvVar env with
  | .error panic => .error panic
  | .ok (some c) => .ok c
  | .ok none =>
      let availableParallelism := available.getD 1
      if availableParallelism = 0 then .error .zeroShardCount
      else ShardCount.fromUsizeAdjusted availableParallelism

structure Process where
  env : EnvVar
  available : Option UInt64
  getShardCount : ShardCount
  init : initShardCount env available = .ok getShardCount

/-- Where `curr_shard_index` takes its number from on each platform. -/
inductive CurrShardSource where
  | processorNumber (cpuIndex : UInt32)
  | schedGetcpu (cpuIndex : Int32)
  | random (value : UInt64)
  | threadIdHash (value : UInt64)
  | threadLocalGone
  deriving DecidableEq, Repr

namespace ShardIndex

def fromUsize (p : Process) (value : UInt64) : ShardIndex := p.getShardCount.modulo value

def fromU64 (p : Process) (value : UInt64) : ShardIndex := fromUsize p value

end ShardIndex

def shardIndexes (p : Process) : List ShardIndex :=
  (List.range p.getShardCount.shardCount).map (fun i => ⟨UInt8.ofNat i⟩)

/-- `none` when the assertion on the bound fails. -/
def shardIndexesUntil (p : Process) (bound : ShardIndex) : Option (List ShardIndex) :=
  if bound.asUsize ≤ p.getShardCount.shardCount then
    some ((List.range bound.asUsize).map (fun i => ⟨UInt8.ofNat i⟩))
  else none

def currShardIndex (p : Process) : CurrShardSource → ShardIndex
  | .processorNumber cpuIndex => p.getShardCount.modulo cpuIndex.toUInt64
  | .schedGetcpu cpuIndex => p.getShardCount.modulo cpuIndex.toInt64.toUInt64
  | .random value => ShardIndex.fromU64 p value
  | .threadIdHash value => ShardIndex.fromU64 p value
  | .threadLocalGone => ShardIndex.fromUsize p 0

inductive CountCall where
  | fromUsizeAdjusted (num : UInt64)
  | fromExponentAdjusted (exponent : UInt32)
  | getShardCount

/-- `none` when the call panics. -/
def CountCall.eval (p : Process) : CountCall → Option ShardCount
  | .fromUsizeAdjusted num => (ShardCount.fromUsizeAdjusted num).toOption
  | .fromExponentAdjusted exponent => some (ShardCount.fromExponentAdjusted exponent.toNat)
  | .getShardCount => some p.getShardCount

/-- A chain of public calls that ends in a `ShardIndex`. -/
inductive IndexCall where
  | modulo (count : CountCall) (value : UInt64)
  | fromUsize (value : UInt64)
  | fromU64 (value : UInt64)
  | shardIndexes (position : Nat)
  | shardIndexesUntil (bound : IndexCall) (position : Nat)
  | currShardIndex (source : CurrShardSource)

def IndexCall.eval (p : Process) : IndexCall → Option ShardIndex
  | .modulo count value => (count.eval p).map (fun c => c.modulo value)
  | .fromUsize value => some (ShardIndex.fromUsize p value)
  | .fromU64 value => some (ShardIndex.fromU64 p value)
  | .shardIndexes position => (Sdarc.shardIndexes p)[position]?
  | .shardIndexesUntil bound position =>
      (bound.eval p).bind fun b => (Sdarc.shardIndexesUntil p b).bind fun is => is[position]?
  | .currShardIndex source => some (Sdarc.currShardIndex p source)

def IndexCall.uses (counts : Set CountCall) : IndexCall → Prop
  | .modulo count _ => count ∈ counts
  | .shardIndexesUntil bound _ => bound.uses counts
  | _ => True

def SLOT_COUNT_PER_UNIT : Nat := 16

def dataLenInBytes (shardCount : Nat) : Nat := SLOT_COUNT_PER_UNIT * (1 + shardCount) * 8

/-- `ptr_at_shard` from the address of the slot's usage flag. -/
def ptrAtShard (basePtr : Nat) (shard : Nat) : Nat :=
  basePtr + 8 * (SLOT_COUNT_PER_UNIT * (shard + 1))

structure BoxPtr where
  dataPtr : Nat
  slot : Nat
  slot_lt : slot < SLOT_COUNT_PER_UNIT

def BoxPtr.basePtr (b : BoxPtr) : Nat := b.dataPtr + 8 * b.slot

def BoxPtr.Contains (b : BoxPtr) (shardCount address : Nat) : Prop :=
  b.dataPtr ≤ address ∧ address + 8 ≤ b.dataPtr + dataLenInBytes shardCount

theorem BoxPtr.contains_ptrAtShard_iff (b : BoxPtr) (shardCount shard : Nat) :
    b.Contains shardCount (ptrAtShard b.basePtr shard) ↔ shard < shardCount := by
  have hslot := b.slot_lt
  simp only [Contains,ptrAtShard,basePtr,dataLenInBytes,SLOT_COUNT_PER_UNIT] at hslot ⊢
  omega

namespace ShardCount

theorem shardCount_pos (c : ShardCount) : 0 < c.shardCount := by
  obtain ⟨e,-,hc,-⟩ := c.adjusted
  rw [hc]
  exact Nat.two_pow_pos e

theorem shardCount_le (c : ShardCount) : c.shardCount ≤ MAX_SHARD_COUNT := by
  obtain ⟨e,he,hc,-⟩ := c.adjusted
  rw [hc]
  exact Nat.pow_le_pow_right (by decide) he

theorem asUsize_modulo (c : ShardCount) (num : UInt64) :
    (c.modulo num).asUsize = num.toNat % c.shardCount := by
  have hlt := Nat.mod_lt num.toNat c.shardCount_pos
  have hle := c.shardCount_le
  obtain ⟨e,-,hc,hm⟩ := c.adjusted
  have hand : num.toNat &&& c.mask = num.toNat % c.shardCount := by
    rw [hm,hc,Nat.and_two_pow_sub_one_eq_mod]
  simp only [modulo,ShardIndex.asUsize,hand,UInt8.toNat_ofNat']
  simp only [MAX_SHARD_COUNT] at hle
  omega

theorem fromExponentAdjusted_shardCount (exponent : Nat) :
    (fromExponentAdjusted exponent).shardCount = 2 ^ min exponent MAX_EXPONENT := by
  simp [fromExponentAdjusted,MIN_EXPONENT,Nat.one_shiftLeft]

end ShardCount

theorem testBit_log2 {num : UInt64} (h : num ≠ 0) : num.toNat.testBit (ilog2 num) = true :=
  Nat.testBit_log2 (fun hz => h (UInt64.toNat_inj.mp hz))

theorem eq_two_pow_of_countOnes {num : UInt64} (h : countOnes num = 1) :
    num.toNat = 2 ^ trailingZeros num := by
  rw [countOnes,List.countP_eq_length_filter,List.length_eq_one_iff] at h
  obtain ⟨t,ht⟩ := h
  have hmem : ∀ i, i < 64 → (num.toNat.testBit i = true ↔ i = t) := by
    intro i hi
    have hfilter : i ∈ (List.range 64).filter (fun i => num.toNat.testBit i) ↔ i = t := by
      rw [ht,List.mem_singleton]
    rw [← hfilter,List.mem_filter,List.mem_range]
    exact ⟨fun hb => ⟨hi,hb⟩,fun hb => hb.2⟩
  have htz : trailingZeros num = t := by
    rw [trailingZeros,← List.head?_filter,ht]
    rfl
  have ht64 : t < 64 := by
    have : t ∈ (List.range 64).filter (fun i => num.toNat.testBit i) := by simp [ht]
    exact List.mem_range.mp (List.mem_filter.mp this).1
  rw [htz]
  refine Nat.eq_of_testBit_eq (fun i => ?_)
  rw [Nat.testBit_two_pow]
  rcases Nat.lt_or_ge i 64 with hi | hi
  · rw [Bool.eq_iff_iff,hmem i hi,decide_eq_true_eq]
    exact eq_comm
  · have hbig : num.toNat < 2^i :=
      num.toNat_lt.trans_le (Nat.pow_le_pow_right (by decide) hi)
    rw [Nat.testBit_lt_two_pow hbig,eq_comm,decide_eq_false_iff_not]
    omega

theorem countOnes_of_eq_two_pow {num : UInt64} {k : Nat} (h : num.toNat = 2^k) :
    countOnes num = 1 := by
  have hk : k < 64 := by
    have := num.toNat_lt
    rw [h] at this
    exact (Nat.pow_lt_pow_iff_right (by decide)).mp this
  have hbits : ∀ i, num.toNat.testBit i = (i == k) := by
    intro i
    rw [h,Nat.testBit_two_pow,Bool.eq_iff_iff,decide_eq_true_eq,beq_iff_eq]
    exact eq_comm
  simp only [countOnes,hbits]
  exact List.count_eq_one_of_mem List.nodup_range (List.mem_range.mpr hk)

/-- The smallest power of two that is at least `num`, capped at `MAX_SHARD_COUNT`. -/
def roundedUp (num : Nat) : Nat := min (2 ^ Nat.clog 2 num) MAX_SHARD_COUNT

theorem ShardCount.fromUsizeAdjusted_shardCount {num : UInt64} {c : ShardCount}
    (h : fromUsizeAdjusted num = .ok c) : c.shardCount = roundedUp num.toNat := by
  have hcap : ∀ e, 2 ^ min e MAX_EXPONENT = min (2^e) MAX_SHARD_COUNT := by
    intro e
    exact Monotone.map_min (fun _ _ hle => Nat.pow_le_pow_right (by decide) hle)
  simp only [fromUsizeAdjusted] at h
  split at h
  · contradiction
  · rename_i hz
    split at h <;> rename_i hone <;> obtain rfl := Except.ok.inj h
    · have hpow := eq_two_pow_of_countOnes hone
      rw [fromExponentAdjusted_shardCount,hcap,roundedUp,hpow,Nat.clog_pow 2 _ (by decide)]
    · have hlog : Nat.clog 2 num.toNat = ilog2 num + 1 := by
        refine le_antisymm ?_ ?_
        · rw [Nat.clog_le_iff_le_pow (by decide)]
          exact Nat.lt_log2_self.le
        · rw [Nat.succ_le_iff,Nat.lt_clog_iff_pow_lt (by decide)]
          have hle : 2 ^ ilog2 num ≤ num.toNat :=
            Nat.log2_self_le (fun h0 => hz (UInt64.toNat_inj.mp h0))
          exact hle.lt_of_ne (fun heq => hone (countOnes_of_eq_two_pow heq.symm))
      rw [fromExponentAdjusted_shardCount,hcap,roundedUp,hlog]

/-- The argument of the caller, rounded up to a power of two and capped. -/
def CountCall.adjusted (p : Process) : CountCall → Nat
  | .fromUsizeAdjusted num => roundedUp num.toNat
  | .fromExponentAdjusted exponent => 2 ^ min exponent.toNat MAX_EXPONENT
  | .getShardCount => p.getShardCount.shardCount

theorem CountCall.eval_shardCount {p : Process} {count : CountCall} {c : ShardCount}
    (h : count.eval p = some c) : c.shardCount = count.adjusted p := by
  cases count with
  | fromUsizeAdjusted num =>
    refine ShardCount.fromUsizeAdjusted_shardCount ?_
    cases hf : ShardCount.fromUsizeAdjusted num with
    | error panic => simp [eval,hf,Except.toOption] at h
    | ok c' => simpa [eval,hf,Except.toOption] using h
  | fromExponentAdjusted exponent =>
    obtain rfl := Option.some.inj h
    exact ShardCount.fromExponentAdjusted_shardCount exponent.toNat
  | getShardCount =>
    obtain rfl := Option.some.inj h
    rfl

theorem CountCall.adjusted_of_none {p : Process} {count : CountCall} (h : count.eval p = none) :
    count.adjusted p = 1 := by
  cases count with
  | fromUsizeAdjusted num =>
    by_cases hz : num = 0
    · subst hz
      rfl
    · simp only [eval,ShardCount.fromUsizeAdjusted,if_neg hz] at h
      split at h <;> contradiction
  | fromExponentAdjusted exponent => contradiction
  | getShardCount => contradiction

theorem asUsize_modulo_lt (p : Process) (value : UInt64) :
    (p.getShardCount.modulo value).asUsize < p.getShardCount.shardCount := by
  rw [ShardCount.asUsize_modulo]
  exact Nat.mod_lt _ p.getShardCount.shardCount_pos

theorem asUsize_currShardIndex_lt (p : Process) (source : CurrShardSource) :
    (currShardIndex p source).asUsize < p.getShardCount.shardCount := by
  cases source <;> exact asUsize_modulo_lt p _

theorem asUsize_of_getElem? {p : Process} {m position : Nat} {i : ShardIndex}
    (hm : m ≤ p.getShardCount.shardCount)
    (h : ((List.range m).map (fun i => (⟨UInt8.ofNat i⟩ : ShardIndex)))[position]? = some i) :
    i.asUsize < p.getShardCount.shardCount := by
  simp only [List.getElem?_map,Option.map_eq_some_iff,List.getElem?_eq_some_iff,
    List.length_range,List.getElem_range] at h
  obtain ⟨_,⟨hpos,rfl⟩,rfl⟩ := h
  have hle := p.getShardCount.shardCount_le
  simp only [MAX_SHARD_COUNT] at hle
  simp only [ShardIndex.asUsize,UInt8.toNat_ofNat']
  omega

theorem IndexCall.asUsize_lt {p : Process} {counts : Set CountCall}
    (hcounts : ∀ count, count ∈ counts → count.adjusted p ≤ p.getShardCount.shardCount)
    {call : IndexCall} {i : ShardIndex} (huses : call.uses counts) (h : call.eval p = some i) :
    i.asUsize < p.getShardCount.shardCount := by
  cases call with
  | modulo count value =>
    simp only [eval,Option.map_eq_some_iff] at h
    obtain ⟨c,hc,rfl⟩ := h
    have hle := hcounts count huses
    rw [← CountCall.eval_shardCount hc] at hle
    rw [ShardCount.asUsize_modulo]
    exact (Nat.mod_lt _ c.shardCount_pos).trans_le hle
  | fromUsize value =>
    obtain rfl := Option.some.inj h
    exact asUsize_modulo_lt p value
  | fromU64 value =>
    obtain rfl := Option.some.inj h
    exact asUsize_modulo_lt p value
  | shardIndexes position => exact asUsize_of_getElem? le_rfl h
  | shardIndexesUntil bound position =>
    simp only [eval,Option.bind_eq_some_iff] at h
    obtain ⟨b,-,is,his,hi⟩ := h
    simp only [Sdarc.shardIndexesUntil] at his
    split at his
    · rename_i hb
      obtain rfl := Option.some.inj his
      exact asUsize_of_getElem? hb hi
    · contradiction
  | currShardIndex source =>
    obtain rfl := Option.some.inj h
    exact asUsize_currShardIndex_lt p source

theorem CountCall.adjusted_le {p : Process} {count : CountCall}
    (h : ∀ value i, (IndexCall.modulo count value).eval p = some i →
      i.asUsize < p.getShardCount.shardCount) :
    count.adjusted p ≤ p.getShardCount.shardCount := by
  cases hc : count.eval p with
  | none =>
    rw [adjusted_of_none hc]
    exact p.getShardCount.shardCount_pos
  | some c =>
    rw [← eval_shardCount hc]
    have hpos := c.shardCount_pos
    have hle := c.shardCount_le
    have hlast := h (UInt64.ofNat (c.shardCount - 1)) _ (by rw [IndexCall.eval,hc]; rfl)
    rw [MAX_SHARD_COUNT] at hle
    rw [ShardCount.asUsize_modulo,UInt64.toNat_ofNat',Nat.mod_eq_of_lt (by omega),
      Nat.mod_eq_of_lt (by omega)] at hlast
    omega

/-- Every index that can be built with the counts in `counts` is smaller than the shard count
of the process, and addresses an element of every `ShardedBox` inside its unit, exactly if no
count exceeds that of the process once it is rounded up and capped. -/
theorem shardIndexes_in_range_iff (p : Process) (counts : Set CountCall) :
    (∀ (call : IndexCall) (i : ShardIndex) (b : BoxPtr), call.uses counts →
      call.eval p = some i → i.asUsize < p.getShardCount.shardCount ∧
        b.Contains p.getShardCount.shardCount (ptrAtShard b.basePtr i.asUsize)) ↔
    ∀ count, count ∈ counts → count.adjusted p ≤ p.getShardCount.shardCount := by
  refine ⟨fun h count hcount => ?_,fun hcounts call i b huses h => ?_⟩
  · exact CountCall.adjusted_le (fun value i hi =>
      (h (.modulo count value) i ⟨0,0,by decide⟩ hcount hi).1)
  · rw [b.contains_ptrAtShard_iff,and_self]
    exact IndexCall.asUsize_lt hcounts huses h

def fourShardProcess : Process := ⟨.parsed 4,none,.fromExponentAdjusted 2,by decide⟩

theorem three_adjusted_in_range : ∀ value : UInt64, ∃ i,
    (IndexCall.modulo (.fromUsizeAdjusted 3) value).eval fourShardProcess = some i ∧
      i.asUsize < 4 := by
  intro value
  have h := (shardIndexes_in_range_iff fourShardProcess {.fromUsizeAdjusted 3}).mpr
    (fun count hcount => by rw [Set.mem_singleton_iff.mp hcount]; decide)
  exact ⟨_,rfl,(h (.modulo (.fromUsizeAdjusted 3) value) _ ⟨0,0,by decide⟩ rfl rfl).1⟩

def oneShardProcess : Process := ⟨.parsed 1,none,.fromExponentAdjusted 0,rfl⟩

theorem foreign_modulo_out_of_range :
    ¬ ∀ (p : Process) (call : IndexCall) (i : ShardIndex) (b : BoxPtr),
      call.eval p = some i → i.asUsize < p.getShardCount.shardCount ∧
        b.Contains p.getShardCount.shardCount (ptrAtShard b.basePtr i.asUsize) := by
  intro h
  have hlt := (h oneShardProcess (.modulo (.fromUsizeAdjusted 256) 255) ⟨255⟩ ⟨0,0,by decide⟩
    rfl).1
  exact absurd hlt (by decide)

namespace ShardCount

theorem mask_eq (c : ShardCount) : c.mask = c.shardCount - 1 := by
  obtain ⟨e,-,hc,hm⟩ := c.adjusted
  rw [hc,hm]

theorem asUsize_modulo_eq_and (c : ShardCount) (num : UInt64) :
    (c.modulo num).asUsize = num.toNat &&& c.mask := by
  rw [asUsize_modulo]
  obtain ⟨e,-,hc,hm⟩ := c.adjusted
  rw [hm,hc,Nat.and_two_pow_sub_one_eq_mod]

theorem fromUsizeAdjusted_isOk {num : UInt64} (h : num ≠ 0) :
    ∃ c, fromUsizeAdjusted num = .ok c := by
  simp only [fromUsizeAdjusted,if_neg h]
  split
  · exact ⟨_,rfl⟩
  · exact ⟨_,rfl⟩

end ShardCount

theorem isLeast_two_pow_clog (n : Nat) :
    IsLeast {q | (∃ e, q = 2^e) ∧ n ≤ q} (2 ^ Nat.clog 2 n) := by
  refine ⟨⟨⟨_,rfl⟩,Nat.le_pow_clog (by decide) n⟩,?_⟩
  rintro _ ⟨⟨e,rfl⟩,hle⟩
  exact Nat.pow_le_pow_right (by decide) ((Nat.clog_le_iff_le_pow (by decide)).mpr hle)

theorem asUsize_shardIndexes (p : Process) :
    (shardIndexes p).map ShardIndex.asUsize = List.range p.getShardCount.shardCount := by
  have hle := p.getShardCount.shardCount_le
  simp only [MAX_SHARD_COUNT] at hle
  rw [shardIndexes,List.map_map]
  conv_rhs => rw [← List.map_id (List.range p.getShardCount.shardCount)]
  refine List.map_congr_left (fun i hi => ?_)
  have hlt := List.mem_range.mp hi
  simp only [Function.comp_apply,ShardIndex.asUsize,UInt8.toNat_ofNat',id]
  omega

theorem asUsize_schedGetcpu_failed (p : Process) :
    (currShardIndex p (.schedGetcpu (-1))).asUsize = p.getShardCount.shardCount - 1 := by
  have hmax : (-1 : Int32).toInt64.toUInt64.toNat = 2^64 - 1 := by decide
  obtain ⟨e,he,hc,-⟩ := p.getShardCount.adjusted
  simp only [MAX_EXPONENT] at he
  rw [currShardIndex,ShardCount.asUsize_modulo,hmax,hc]
  have hpos := Nat.two_pow_pos e
  have hsplit : 2^64 - 1 = 2^e * (2^(64-e) - 1) + (2^e - 1) := by
    have hpow : 2^64 = 2^e * 2^(64-e) := by
      rw [← Nat.pow_add]
      congr 1
      omega
    have hle : 2^e ≤ 2^e * 2^(64-e) := Nat.le_mul_of_pos_right _ (Nat.two_pow_pos _)
    rw [hpow,Nat.mul_sub_one]
    omega
  rw [hsplit,Nat.mul_add_mod,Nat.mod_eq_of_lt (by omega)]

/-- Rounding up and reduction are exact for every word. -/
theorem shardCount_exact (num : UInt64) (h : num ≠ 0) :
    ∃ c, ShardCount.fromUsizeAdjusted num = .ok c ∧
      (∃ power, IsLeast {q | (∃ e, q = 2^e) ∧ num.toNat ≤ q} power ∧
        c.shardCount = min power MAX_SHARD_COUNT) ∧
      c.mask = c.shardCount - 1 ∧
      (∀ m : UInt64, (c.modulo m).asUsize = m.toNat % c.shardCount ∧
        (c.modulo m).asUsize < c.shardCount ∧ (c.modulo m).asUsize = m.toNat &&& c.mask) ∧
      (∃ p : Process, p.getShardCount = c) ∧
      ∀ p : Process, p.getShardCount = c →
        (currShardIndex p (.schedGetcpu (-1))).asUsize = c.shardCount - 1 ∧
        (shardIndexes p).map ShardIndex.asUsize = List.range c.shardCount := by
  obtain ⟨c,hc⟩ := ShardCount.fromUsizeAdjusted_isOk h
  refine ⟨c,hc,⟨_,isLeast_two_pow_clog num.toNat,ShardCount.fromUsizeAdjusted_shardCount hc⟩,
    c.mask_eq,fun m => ?_,⟨⟨.absent,some num,c,?_⟩,rfl⟩,?_⟩
  · have hmod := c.asUsize_modulo m
    exact ⟨hmod,hmod ▸ Nat.mod_lt _ c.shardCount_pos,c.asUsize_modulo_eq_and m⟩
  · simp only [initShardCount,shardCountFromEnvVar,Option.getD_some,if_neg h]
    exact hc
  · rintro p rfl
    exact ⟨asUsize_schedGetcpu_failed p,asUsize_shardIndexes p⟩

theorem shardCount_exact_above_largest_power :
    ∃ c, ShardCount.fromUsizeAdjusted 9223372036854775809 = .ok c ∧
      c.shardCount = MAX_SHARD_COUNT ∧ c.mask = MAX_SHARD_COUNT - 1 := by
  obtain ⟨c,hc,⟨power,hpower,hcount⟩,hmask,-⟩ :=
    shardCount_exact 9223372036854775809 (by decide)
  have hle : 9223372036854775809 ≤ power := hpower.1.2
  have hmax : c.shardCount = MAX_SHARD_COUNT := by
    rw [hcount,MAX_SHARD_COUNT]
    omega
  exact ⟨c,hc,hmax,hmax ▸ hmask⟩

end Sdarc
