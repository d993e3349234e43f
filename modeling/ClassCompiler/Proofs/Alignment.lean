import Mathlib.Data.Nat.Bitwise
import Mathlib.Order.Bounds.Defs
import ClassCompiler.Assembly.Line

/-!
# Sizes as numbers

Sizes are computed in machine words, with a mask for the rounding. As numbers, they are sums and
multiples that wrap around where they no longer fit.

Results:
1. `toNat_alignUp`: rounding up with a mask is a division without its rest.
2. `toNat_stringObjectSize`, `toNat_instanceSize`: the sizes of objects.
3. `alignment_exact`: as long as no size wraps around, rounding up gives the least multiple.
-/

namespace ClassCompiler.Assembly

/-- The least multiple of `unit` that is not below `value`. -/
def roundUp (unit value : Nat) : Nat := (value + (unit - 1)) / unit * unit

theorem le_roundUp {unit : Nat} (hunit : 0 < unit) (value : Nat) : value ≤ roundUp unit value := by
  have hdiv := Nat.div_add_mod (value + (unit - 1)) unit
  have hrest := Nat.mod_lt (value + (unit - 1)) hunit
  rw [roundUp, Nat.mul_comm]
  omega

theorem roundUp_add {unit start : Nat} (hunit : 0 < unit) (h : unit ∣ start) (value : Nat) :
    roundUp unit (start + value) = start + roundUp unit value := by
  obtain ⟨n, rfl⟩ := h
  rw [roundUp, roundUp, Nat.add_assoc, Nat.mul_add_div hunit, Nat.add_mul, Nat.mul_comm n]

theorem roundUp_of_dvd {unit value : Nat} (hunit : 0 < unit) (h : unit ∣ value) :
    roundUp unit value = value := by
  have hzero : roundUp unit 0 = 0 := by
    rw [roundUp, Nat.div_eq_of_lt (by omega), Nat.zero_mul]
  rw [← Nat.add_zero value, roundUp_add hunit h, hzero]

theorem roundUp_mono (unit : Nat) {value value' : Nat} (h : value ≤ value') :
    roundUp unit value ≤ roundUp unit value' :=
  Nat.mul_le_mul_right _ (Nat.div_le_div_right (Nat.add_le_add_right h _))

theorem roundUp_le (unit value : Nat) : roundUp unit value ≤ value + (unit - 1) :=
  Nat.div_mul_le_self _ _

theorem isLeast_roundUp {unit : Nat} (hunit : 0 < unit) (value : Nat) :
    IsLeast {m | unit ∣ m ∧ value ≤ m} (roundUp unit value) := by
  refine ⟨⟨Nat.dvd_mul_left _ _, le_roundUp hunit value⟩, ?_⟩
  rintro m ⟨hdvd, hle⟩
  calc roundUp unit value
      ≤ roundUp unit m := roundUp_mono unit hle
    _ = m := roundUp_of_dvd hunit hdvd

/-! ## Words that wrap around -/

/-- A multiple of what divides the modulus is taken before or after wrapping around. -/
theorem div_mul_mod {unit size : Nat} (h : unit ∣ size) (value : Nat) :
    value / unit * unit % size = value % size / unit * unit := by
  obtain ⟨n, rfl⟩ := h
  rw [Nat.mod_mul_right_div_self, Nat.mul_comm unit n, Nat.mul_mod_mul_right]

theorem roundUp_mod {unit size : Nat} (h : unit ∣ size) (value : Nat) :
    roundUp unit (value % size) % size = roundUp unit value % size := by
  rw [roundUp, roundUp, div_mul_mod h, div_mul_mod h, Nat.mod_add_mod]

/-- Clearing the low bits of a word takes away its rest. -/
theorem and_mask_eq {k bits : Nat} (hk : k ≤ bits) {value : Nat} (hvalue : value < 2 ^ bits) :
    value &&& (2 ^ bits - 1 - (2 ^ k - 1)) = value / 2 ^ k * 2 ^ k := by
  have hpow : 2 ^ k ≤ 2 ^ bits := Nat.pow_le_pow_right (by decide) hk
  have hpos : 0 < 2 ^ k := Nat.two_pow_pos k
  have hmask : 2 ^ bits - 1 - (2 ^ k - 1) = 2 ^ bits - (2 ^ k - 1 + 1) := by omega
  apply Nat.eq_of_testBit_eq
  intro i
  rw [Nat.testBit_and, hmask, Nat.testBit_two_pow_sub_succ (by omega),
    Nat.testBit_two_pow_sub_one, Nat.testBit_mul_two_pow, Nat.testBit_div_two_pow]
  by_cases hi : k ≤ i
  · rw [Nat.sub_add_cancel hi]
    -- Above the word, the value has no bits either.
    by_cases hbits : i < bits
    · simp [hi, hbits]
    · have hzero : value.testBit i = false :=
        Nat.testBit_lt_two_pow (hvalue.trans_le (Nat.pow_le_pow_right (by decide) (by omega)))
      simp [hzero]
  · simp [hi, Nat.lt_of_not_le hi]

theorem two_pow_dvd_size {k : Nat} (hk : k < 64) : 2 ^ k ∣ UInt64.size :=
  Nat.pow_dvd_pow 2 (Nat.le_of_lt hk)

/-- Rounding up to a power of two, where the sum may wrap around. -/
theorem toNat_alignUp {k : Nat} (hk : k < 64) {align : UInt64} (halign : align.toNat = 2 ^ k)
    (value : UInt64) :
    (alignUp value align).toNat = roundUp (2 ^ k) value.toNat % UInt64.size := by
  have hle : (1 : UInt64) ≤ align := by
    rw [UInt64.le_iff_toNat_le, halign]
    exact Nat.two_pow_pos k
  have hmask : (align - 1).toNat = 2 ^ k - 1 := by
    rw [UInt64.toNat_sub_of_le _ _ hle, halign]
    rfl
  have hsum : (value + align - 1).toNat = (value.toNat + (2 ^ k - 1)) % UInt64.size := by
    rw [UInt64.sub_eq_add_neg, UInt64.add_assoc, ← UInt64.sub_eq_add_neg, UInt64.toNat_add, hmask]
  calc (alignUp value align).toNat
      = (value + align - 1).toNat &&& (UInt64.size - 1 - (2 ^ k - 1)) := by
        rw [alignUp, UInt64.toNat_and, UInt64.toNat_not, hmask]
    _ = (value + align - 1).toNat / 2 ^ k * 2 ^ k :=
        and_mask_eq (Nat.le_of_lt hk) (UInt64.toNat_lt _)
    _ = roundUp (2 ^ k) value.toNat % UInt64.size := by
        rw [hsum, roundUp, div_mul_mod (two_pow_dvd_size hk)]

theorem toNat_alignUp_of_fits {k : Nat} (hk : k < 64) {value : UInt64}
    (hfits : value.toNat + 2 ^ k - 1 < 2 ^ 64) :
    (alignUp value (UInt64.ofNat (2 ^ k))).toNat = roundUp (2 ^ k) value.toNat := by
  have hpow : 2 ^ k < UInt64.size := Nat.pow_lt_pow_right (by decide) hk
  have hle : roundUp (2 ^ k) value.toNat ≤ value.toNat + 2 ^ k - 1 := by
    rw [Nat.add_sub_assoc (Nat.two_pow_pos k)]
    exact roundUp_le _ _
  rw [toNat_alignUp hk (UInt64.toNat_ofNat_of_lt' hpow)]
  exact Nat.mod_eq_of_lt (hle.trans_lt hfits)

/-! ## Objects -/

theorem toNat_stringObjectSize (bytes : Nat) :
    (stringObjectSize bytes.toUInt64).toNat = roundUp 4 (17 + bytes) % UInt64.size := by
  have hbase : (stringBaseSize + bytes.toUInt64).toNat = (17 + bytes) % UInt64.size := by
    rw [UInt64.toNat_add, Nat.toUInt64, UInt64.toNat_ofNat', Nat.add_mod_mod]
    rfl
  rw [stringObjectSize, toNat_alignUp (by decide : 2 < 64) rfl, hbase]
  exact roundUp_mod (two_pow_dvd_size (by decide)) _

theorem toNat_instanceSize (fields : Nat) :
    (instanceSize fields.toUInt64).toNat = (12 + 4 * fields) % UInt64.size := by
  rw [instanceSize, UInt64.toNat_add, UInt64.toNat_mul, Nat.toUInt64, UInt64.toNat_ofNat',
    Nat.mul_mod_mod, Nat.add_mod_mod]
  rfl

theorem toNat_stringObjectSize_of_fits {bytes : UInt64} (hfits : 20 + bytes.toNat < 2 ^ 64) :
    (stringObjectSize bytes).toNat = roundUp 4 (17 + bytes.toNat) := by
  have hle : roundUp 4 (17 + bytes.toNat) ≤ 17 + bytes.toNat + 3 := roundUp_le 4 _
  have hlt : roundUp 4 (17 + bytes.toNat) < UInt64.size :=
    hle.trans_lt (by omega : 17 + bytes.toNat + 3 < 2 ^ 64)
  have hsize := toNat_stringObjectSize bytes.toNat
  rwa [Nat.toUInt64, UInt64.ofNat_toNat, Nat.mod_eq_of_lt hlt] at hsize

/-- As long as the padded value fits a word, rounding up with a mask gives the least multiple of a
power of two that is not below the value. On the way the alignment is added before one is taken off
again, and this sum may wrap around although the padded value fits; it does so silently, as in a
build without overflow checks. Rounding a second time changes nothing, and a greater value is rounded
to no less. So a string object has its bytes, a header, a length and the final NUL, and is padded
with three bytes at most. -/
theorem alignment_exact :
    (∀ k < 64, ∀ value : UInt64, value.toNat + 2 ^ k - 1 < 2 ^ 64 →
      let align := UInt64.ofNat (2 ^ k)
      IsLeast {m | 2 ^ k ∣ m ∧ value.toNat ≤ m} (alignUp value align).toNat ∧
      alignUp (alignUp value align) align = alignUp value align ∧
      ∀ smaller ≤ value, alignUp smaller align ≤ alignUp value align) ∧
    ∀ bytes : UInt64, 20 + bytes.toNat < 2 ^ 64 →
      let size := (stringObjectSize bytes).toNat
      4 ∣ size ∧ 17 + bytes.toNat ≤ size ∧ size < 21 + bytes.toNat := by
  constructor
  · intro k hk value hfits align
    have hpos : 0 < 2 ^ k := Nat.two_pow_pos k
    have halign : align.toNat = 2 ^ k :=
      UInt64.toNat_ofNat_of_lt' (Nat.pow_lt_pow_right (by decide) hk)
    have hvalue : (alignUp value align).toNat = roundUp (2 ^ k) value.toNat :=
      toNat_alignUp_of_fits hk hfits
    refine ⟨hvalue ▸ isLeast_roundUp hpos _, UInt64.toNat_inj.mp ?_, fun smaller hsmaller => ?_⟩
    · -- A multiple is its own rounding, also where the sum on the way wraps around.
      rw [toNat_alignUp hk halign, roundUp_of_dvd hpos (hvalue ▸ Nat.dvd_mul_left _ _)]
      exact Nat.mod_eq_of_lt (UInt64.toNat_lt _)
    · have hle : smaller.toNat ≤ value.toNat := UInt64.le_iff_toNat_le.mp hsmaller
      rw [UInt64.le_iff_toNat_le, hvalue, toNat_alignUp_of_fits hk (by omega)]
      exact roundUp_mono _ hle
  · intro bytes hfits size
    have hsize : size = roundUp 4 (17 + bytes.toNat) := toNat_stringObjectSize_of_fits hfits
    have hle : roundUp 4 (17 + bytes.toNat) ≤ 17 + bytes.toNat + 3 := roundUp_le 4 _
    rw [hsize]
    exact ⟨Nat.dvd_mul_left _ _, le_roundUp (by decide) _, by omega⟩

/-- The last value that can be rounded to pages of 4096 bytes, which is a page short of what a word
can count; the greatest power of two; and the longest string. -/
theorem alignment_exact_edge :
    (18446744073709547520 + 4096 = 2 ^ 64 ∧
      IsLeast {m | 2 ^ 12 ∣ m ∧ 18446744073709547520 ≤ m}
        (alignUp 18446744073709547520 (UInt64.ofNat (2 ^ 12))).toNat) ∧
    (alignUp 1 (UInt64.ofNat (2 ^ 63)) = 9223372036854775808 ∧
      alignUp 1 (UInt64.ofNat (2 ^ 63)) ≤ alignUp 9223372036854775808 (UInt64.ofNat (2 ^ 63))) ∧
    (stringObjectSize 18446744073709551595).toNat < 2 ^ 64 ∧
      4 ∣ (stringObjectSize 18446744073709551595).toNat := by
  obtain ⟨halign, hstring⟩ := alignment_exact
  obtain ⟨hpage, -, -⟩ := halign 12 (by decide) 18446744073709547520 (by decide)
  obtain ⟨-, -, hmono⟩ := halign 63 (by decide) 9223372036854775808 (by decide)
  obtain ⟨hwords, -, hlt⟩ := hstring 18446744073709551595 (by decide)
  exact ⟨⟨by decide, hpage⟩, ⟨by decide, hmono 1 (by decide)⟩, hlt, hwords⟩

end ClassCompiler.Assembly
