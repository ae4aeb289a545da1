import Mathlib.Algebra.Group.Int.Defs
import Mathlib.Data.Nat.Bits
set_option autoImplicit false

namespace Sdarc

/-- What a tagged word stands for: the reference count of one shard, of either
sign, and whether a decrement happened since the tag was last cleared. -/
structure Counter where
  refCount : Int
  tag : Bool
  deriving DecidableEq, Repr

def Counter.new : Counter := ⟨0,false⟩

def Counter.increment (c : Counter) : Counter := { c with refCount := c.refCount + 1 }

def Counter.decrementAndSetTag (c : Counter) : Counter := ⟨c.refCount - 1,true⟩

def Counter.clearTag (c : Counter) : Counter := { c with tag := false }

/-- Higher 63 bits is a signed counter. The lowest 1 bit is tag. -/
structure TaggedCounter where
  word : BitVec 64
  deriving DecidableEq, Repr

namespace TaggedCounter

/-- `self.0 >> 1`, the sign is preserved. -/
def refCount (c : TaggedCounter) : Int := (c.word.sshiftRight 1).toInt

def tag (c : TaggedCounter) : Bool := c.word &&& 1#64 != 0#64

def new : TaggedCounter := ⟨0#64⟩

def maskForClearingTag : BitVec 64 := ~~~1#64

/-- The word that `fetch_add(2)` leaves behind. -/
def increment (c : TaggedCounter) : TaggedCounter := ⟨c.word + 2#64⟩

/-- The `new_value` of the compare-exchange loop. -/
def decrementAndSetTag (c : TaggedCounter) : TaggedCounter := ⟨(c.word ||| 1#64) - 2#64⟩

def clearTag (c : TaggedCounter) : TaggedCounter := ⟨c.word &&& maskForClearingTag⟩

def value (c : TaggedCounter) : Counter := ⟨c.refCount,c.tag⟩

theorem and_one_toNat (w : BitVec 64) : (w &&& 1#64).toNat = w.toNat % 2 := by
  simp [BitVec.toNat_and,Nat.and_one_is_mod]

theorem high_add_low (w b : BitVec 64) :
    (w &&& maskForClearingTag) + (b &&& 1#64) =
      (w &&& maskForClearingTag) ||| (b &&& 1#64) := by
  apply BitVec.add_eq_or_of_and_eq_zero
  ext i hi
  simp only [maskForClearingTag,BitVec.getElem_and,BitVec.getElem_not,BitVec.getElem_zero]
  cases w[i] <;> cases b[i] <;> cases (1#64)[i] <;> rfl

theorem word_eq_high_add_low (w : BitVec 64) :
    w = (w &&& maskForClearingTag) + (w &&& 1#64) := by
  rw [high_add_low]
  ext i hi
  simp only [maskForClearingTag,BitVec.getElem_or,BitVec.getElem_and,BitVec.getElem_not]
  cases w[i] <;> cases (1#64)[i] <;> rfl

theorem or_one_eq_high_add_one (w : BitVec 64) :
    w ||| 1#64 = (w &&& maskForClearingTag) + (1#64 &&& 1#64) := by
  rw [high_add_low]
  ext i hi
  simp only [maskForClearingTag,BitVec.getElem_or,BitVec.getElem_and,BitVec.getElem_not]
  cases w[i] <;> cases (1#64)[i] <;> rfl

theorem high_toNat (w : BitVec 64) :
    (w &&& maskForClearingTag).toNat = w.toNat - w.toNat % 2 := by
  have hsplit := congrArg BitVec.toNat (word_eq_high_add_low w)
  have hlow := and_one_toNat w
  have hle : (w &&& maskForClearingTag).toNat ≤ w.toNat := by
    rw [BitVec.toNat_and]
    exact Nat.and_le_left
  have hlt := w.isLt
  rw [BitVec.toNat_add] at hsplit
  omega

theorem or_one_toNat (w : BitVec 64) :
    (w ||| 1#64).toNat = w.toNat - w.toNat % 2 + 1 := by
  have hlt := w.isLt
  rw [or_one_eq_high_add_one,BitVec.toNat_add,high_toNat,and_one_toNat,BitVec.toNat_ofNat]
  omega

theorem tag_eq (c : TaggedCounter) : c.tag = decide (c.word.toNat % 2 = 1) := by
  have hlow := and_one_toNat c.word
  by_cases hodd : c.word.toNat % 2 = 1
  · have hne : c.word &&& 1#64 ≠ 0#64 := by
      intro h0
      rw [h0,BitVec.toNat_ofNat] at hlow
      omega
    simp [tag,hne,hodd]
  · have h0 : c.word &&& 1#64 = 0#64 := by
      apply BitVec.eq_of_toNat_eq
      rw [hlow,BitVec.toNat_ofNat]
      omega
    simp [tag,h0,hodd]

theorem toInt_eq (c : TaggedCounter) :
    c.word.toInt = 2 * c.refCount + if c.tag then 1 else 0 := by
  have hlt := c.word.isLt
  rw [tag_eq,refCount,BitVec.toInt_sshiftRight,Int.shiftRight_eq_div_pow,
    BitVec.toInt_eq_toNat_cond]
  split <;> split <;> simp_all <;> omega

theorem refCount_bounds (c : TaggedCounter) :
    -2^62 ≤ c.refCount ∧ c.refCount < 2^62 := by
  have hw := toInt_eq c
  have hlo := BitVec.le_toInt c.word
  have hhi := BitVec.toInt_lt (x := c.word)
  split at hw <;> omega

theorem value_new : new.value = Counter.new := by decide

theorem value_eq_of_toInt {c : TaggedCounter} {v : Counter}
    (h : c.word.toInt = 2 * v.refCount + if v.tag then 1 else 0) : c.value = v := by
  have hc := toInt_eq c
  rcases v with ⟨r,t⟩
  simp only [value,Counter.mk.injEq]
  cases ht : c.tag <;> cases t <;> simp_all <;> omega

theorem exists_value {v : Counter} (hlo : -2^62 ≤ v.refCount) (hhi : v.refCount < 2^62) :
    ∃ c : TaggedCounter, c.value = v := by
  refine ⟨⟨BitVec.ofInt 64 (2 * v.refCount + if v.tag then 1 else 0)⟩,value_eq_of_toInt ?_⟩
  rw [BitVec.toInt_ofInt]
  exact Int.bmod_eq_of_le_mul_two (by split <;> omega) (by split <;> omega)

theorem value_increment (c : TaggedCounter) (h : c.refCount < 2^62 - 1) :
    c.increment.value = c.value.increment := by
  apply value_eq_of_toInt
  have hc := toInt_eq c
  have hb := refCount_bounds c
  have hbit : (if c.tag then (1 : Int) else 0) ≤ 1 := by split <;> omega
  have hnn : (0 : Int) ≤ if c.tag then 1 else 0 := by split <;> omega
  have htwo : (2#64).toInt = 2 := rfl
  simp only [increment,Counter.increment,value,BitVec.toInt_add,hc,htwo]
  have hpow : ((2^64 : Nat) : Int) = 18446744073709551616 := rfl
  rw [Int.bmod_eq_of_le_mul_two (by rw [hpow]; omega) (by rw [hpow]; omega)]
  split <;> simp_all <;> omega

theorem value_decrementAndSetTag (c : TaggedCounter) (h : -2^62 < c.refCount) :
    c.decrementAndSetTag.value = c.value.decrementAndSetTag := by
  apply value_eq_of_toInt
  have hc := toInt_eq c
  have hb := refCount_bounds c
  have htag := tag_eq c
  have hlt := c.word.isLt
  rw [BitVec.toInt_eq_toNat_cond] at hc ⊢
  simp only [decrementAndSetTag,Counter.decrementAndSetTag,value,BitVec.toNat_sub,
    or_one_toNat,BitVec.toNat_ofNat]
  by_cases hodd : c.word.toNat % 2 = 1 <;> simp only [hodd,htag] at hc ⊢ <;>
    split at hc <;> split <;> simp at * <;> omega

theorem value_clearTag (c : TaggedCounter) : c.clearTag.value = c.value.clearTag := by
  apply value_eq_of_toInt
  have hc := toInt_eq c
  have htag := tag_eq c
  have hlt := c.word.isLt
  rw [BitVec.toInt_eq_toNat_cond] at hc ⊢
  simp only [clearTag,Counter.clearTag,value,high_toNat]
  by_cases hodd : c.word.toNat % 2 = 1 <;> simp only [hodd,htag] at hc ⊢ <;>
    split at hc <;> split <;> simp at * <;> omega

theorem toInt_or_one (c : TaggedCounter) :
    (c.word ||| 1#64).toInt = 2 * c.refCount + 1 := by
  have hc := toInt_eq c
  have htag := tag_eq c
  have hlt := c.word.isLt
  rw [BitVec.toInt_eq_toNat_cond] at hc ⊢
  rw [or_one_toNat]
  by_cases hodd : c.word.toNat % 2 = 1 <;> simp only [hodd,htag] at hc ⊢ <;>
    split at hc <;> split <;> simp at * <;> omega

theorem not_ssubOverflow (c : TaggedCounter) (h : -2^62 < c.refCount) :
    (c.word ||| 1#64).ssubOverflow 2#64 = false := by
  have hb := refCount_bounds c
  have htwo : (2#64).toInt = 2 := rfl
  simp only [BitVec.ssubOverflow,toInt_or_one,htwo,Bool.or_eq_false_iff,decide_eq_false_iff_not]
  omega

end TaggedCounter

end Sdarc
