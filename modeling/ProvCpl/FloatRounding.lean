import ProvCpl.FloatText
import Mathlib.Algebra.Order.Field.Basic
import Mathlib.Algebra.Order.Field.Power
import Mathlib.Data.Rat.Cast.Order
import Mathlib.Tactic.FieldSimp
import Mathlib.Tactic.Linarith
import Mathlib.Tactic.NormNum
import Mathlib.Tactic.Positivity
import Mathlib.Tactic.Ring

/-! # Rounding to a binary format

The integer steps of a rounding stand for steps on rational numbers: a fraction is scaled by a
power of two that its size determines and replaced by the nearest integer. A fraction that is
closer than half a unit to a mantissa is rounded to it. -/
namespace FloatRounding

open FloatText

def value : BinaryFloat → Option ℚ
  | .finite negative m e => some ((if negative then -1 else 1) * (m * 2 ^ e))
  | .infinite _ => none
  | .nan => none

theorem finite_of_value {x : BinaryFloat} {q : ℚ} (h : value x = some q) :
    ∃ s m e, x = .finite s m e := by
  cases x with
  | finite s m e => exact ⟨s, m, e, rfl⟩
  | infinite s => cases h
  | nan => cases h

section Nearest

variable {n d m : ℕ}

theorem quotient_eq (hd : 0 < d) : (n : ℚ) / d = (n / d : ℕ) + (n % d : ℕ) / d := by
  have hq : (d : ℚ) ≠ 0 := by exact_mod_cast hd.ne'
  have hn : (n : ℚ) = d * (n / d : ℕ) + (n % d : ℕ) := by exact_mod_cast (Nat.div_add_mod n d).symm
  rw [eq_comm, add_div' _ _ _ hq, div_left_inj' hq]
  linarith

theorem roundHalfEven_near (hd : 0 < d) : |(n : ℚ) / d - roundHalfEven n d| ≤ 1 / 2 := by
  have hq : (0 : ℚ) < d := by exact_mod_cast hd
  have hr : ((n % d : ℕ) : ℚ) / d < 1 := by
    rw [div_lt_one hq]
    exact_mod_cast Nat.mod_lt n hd
  have h0 : (0 : ℚ) ≤ ((n % d : ℕ) : ℚ) / d := by positivity
  have hlow : 2 * (n % d) ≤ d → ((n % d : ℕ) : ℚ) / d ≤ 1 / 2 := by
    intro h
    rw [div_le_iff₀ hq]
    have : (2 : ℚ) * (n % d : ℕ) ≤ d := by exact_mod_cast h
    linarith
  have hhigh : d ≤ 2 * (n % d) → 1 / 2 ≤ ((n % d : ℕ) : ℚ) / d := by
    intro h
    rw [le_div_iff₀ hq]
    have : (d : ℚ) ≤ 2 * (n % d : ℕ) := by exact_mod_cast h
    linarith
  rw [quotient_eq hd, abs_le]
  unfold roundHalfEven
  dsimp only
  split_ifs with h1 h2
  · have := hlow h1.le
    constructor <;> linarith
  · have := hhigh (by omega)
    push_cast
    constructor <;> linarith
  · have := hlow (by omega)
    constructor <;> linarith
  · have := hhigh (by omega)
    push_cast
    constructor <;> linarith

theorem roundHalfEven_eq (hd : 0 < d) (h : |(n : ℚ) / d - m| < 1 / 2) : roundHalfEven n d = m := by
  have hnear := roundHalfEven_near (n := n) hd
  rw [abs_le] at hnear
  rw [abs_lt] at h
  have hlow : (roundHalfEven n d : ℚ) < m + 1 := by linarith
  have hhigh : (m : ℚ) < roundHalfEven n d + 1 := by linarith
  have hlow' : roundHalfEven n d < m + 1 := by exact_mod_cast hlow
  have hhigh' : m < roundHalfEven n d + 1 := by exact_mod_cast hhigh
  omega

end Nearest

section Scaling

variable {n d : ℕ}

theorem scale_pos (hd : 0 < d) (e : ℤ) : 0 < (scale n d e).2 := by
  unfold scale
  split
  · exact hd
  · exact Nat.mul_pos hd (Nat.two_pow_pos _)

theorem scale_eq (hd : 0 < d) (e : ℤ) :
    ((scale n d e).1 : ℚ) / (scale n d e).2 = n / d * 2 ^ e := by
  have hq : (d : ℚ) ≠ 0 := by exact_mod_cast hd.ne'
  unfold scale
  split
  · next he =>
    obtain ⟨k, rfl⟩ := Int.eq_ofNat_of_zero_le he
    push_cast
    rw [Int.toNat_natCast, zpow_natCast]
    ring
  · next he =>
    obtain ⟨k, hk⟩ := Int.eq_ofNat_of_zero_le (show 0 ≤ -e by omega)
    obtain rfl : e = -(k : ℤ) := by omega
    push_cast
    rw [neg_neg, Int.toNat_natCast, zpow_neg, zpow_natCast]
    field_simp

theorem binaryExponent_spec (hn : 0 < n) (hd : 0 < d) :
    (2 : ℚ) ^ binaryExponent n d ≤ n / d ∧ (n : ℚ) / d < 2 ^ (binaryExponent n d + 1) := by
  have hq : (0 : ℚ) < d := by exact_mod_cast hd
  have hn1 : (2 : ℚ) ^ Nat.log2 n ≤ n := by exact_mod_cast Nat.log2_self_le hn.ne'
  have hn2 : (n : ℚ) < 2 ^ (Nat.log2 n + 1) := by exact_mod_cast Nat.lt_log2_self
  have hd1 : (2 : ℚ) ^ Nat.log2 d ≤ d := by exact_mod_cast Nat.log2_self_le hd.ne'
  have hd2 : (d : ℚ) < 2 ^ (Nat.log2 d + 1) := by exact_mod_cast Nat.lt_log2_self
  have hscale := scale_eq (n := n) hd (-((Nat.log2 n : ℤ) - Nat.log2 d))
  have hpos : (0 : ℚ) < (scale n d (-((Nat.log2 n : ℤ) - Nat.log2 d))).2 := by
    exact_mod_cast scale_pos hd _
  have htest : (scale n d (-((Nat.log2 n : ℤ) - Nat.log2 d))).2 ≤
      (scale n d (-((Nat.log2 n : ℤ) - Nat.log2 d))).1 ↔
        (2 : ℚ) ^ ((Nat.log2 n : ℤ) - Nat.log2 d) ≤ n / d := by
    rw [← @Nat.cast_le ℚ, ← one_le_div hpos, hscale, zpow_neg, ← div_eq_mul_inv,
      one_le_div (zpow_pos two_pos _)]
  have hlow : (2 : ℚ) ^ ((Nat.log2 n : ℤ) - Nat.log2 d - 1) ≤ n / d := by
    rw [le_div_iff₀ hq]
    calc (2 : ℚ) ^ ((Nat.log2 n : ℤ) - Nat.log2 d - 1) * d
        ≤ 2 ^ ((Nat.log2 n : ℤ) - Nat.log2 d - 1) * 2 ^ (Nat.log2 d + 1) := by gcongr
      _ = 2 ^ Nat.log2 n := by
        rw [← zpow_natCast, ← zpow_natCast, ← zpow_add₀ two_ne_zero]
        congr 1
        push_cast
        ring
      _ ≤ n := hn1
  have hhigh : (n : ℚ) / d < 2 ^ ((Nat.log2 n : ℤ) - Nat.log2 d + 1) := by
    rw [div_lt_iff₀ hq]
    calc (n : ℚ) < 2 ^ (Nat.log2 n + 1) := hn2
      _ = 2 ^ ((Nat.log2 n : ℤ) - Nat.log2 d + 1) * 2 ^ Nat.log2 d := by
        rw [← zpow_natCast, ← zpow_natCast, ← zpow_add₀ two_ne_zero]
        congr 1
        push_cast
        ring
      _ ≤ 2 ^ ((Nat.log2 n : ℤ) - Nat.log2 d + 1) * d := by gcongr
  unfold binaryExponent
  dsimp only
  split
  · next h => exact ⟨htest.mp h, hhigh⟩
  · next h =>
    rw [sub_add_cancel]
    exact ⟨hlow, not_le.mp fun hle => h (htest.mpr hle)⟩

theorem binaryExponent_eq (hn : 0 < n) (hd : 0 < d) {k : ℤ} (hlow : (2 : ℚ) ^ k ≤ n / d)
    (hhigh : (n : ℚ) / d < 2 ^ (k + 1)) : binaryExponent n d = k := by
  obtain ⟨h1, h2⟩ := binaryExponent_spec hn hd
  have hlt : (1 : ℚ) < 2 := by norm_num
  have h3 := (zpow_lt_zpow_iff_right₀ hlt).mp (hlow.trans_lt h2)
  have h4 := (zpow_lt_zpow_iff_right₀ hlt).mp (h1.trans_lt hhigh)
  omega

end Scaling

def unitExponent (f : Format) (n d : ℕ) : ℤ :=
  max f.minExponent (binaryExponent n d - f.precision + 1)

def mantissa (f : Format) (n d : ℕ) : ℕ :=
  roundHalfEven (scale n d (-unitExponent f n d)).1 (scale n d (-unitExponent f n d)).2

/-- A number of the format: a mantissa within the precision, and the size within the range. -/
def Represents (f : Format) (q : ℚ) : Prop :=
  ∃ m : ℕ, ∃ e : ℤ, m < 2 ^ f.precision ∧ f.minExponent ≤ e ∧ q = m * 2 ^ e ∧
    q < 2 ^ (f.maxExponent + 1)

def InFormat (f : Format) : BinaryFloat → Prop
  | .finite _ m e =>
    m < 2 ^ f.precision ∧ f.minExponent ≤ e ∧ e + f.precision ≤ f.maxExponent + 1
  | .infinite _ => False
  | .nan => False

section Rounding

variable {f : Format} {negative : Bool} {n d m : ℕ}

theorem represents_of_inFormat {e : ℤ} (h : InFormat f (.finite negative m e)) :
    Represents f (m * 2 ^ e) := by
  obtain ⟨hm, hlow, hhigh⟩ := h
  refine ⟨m, e, hm, hlow, rfl, ?_⟩
  calc (m : ℚ) * 2 ^ e < 2 ^ f.precision * 2 ^ e := by
        apply mul_lt_mul_of_pos_right _ (zpow_pos two_pos _)
        exact_mod_cast hm
    _ = 2 ^ (e + f.precision) := by rw [add_comm, zpow_add₀ two_ne_zero, zpow_natCast]
    _ ≤ 2 ^ (f.maxExponent + 1) := zpow_le_zpow_right₀ (by norm_num) hhigh

theorem value_inj {s : Bool} {m m' : ℕ} {e e' : ℤ} :
    value (.finite s m e) = value (.finite s m' e') ↔ (m : ℚ) * 2 ^ e = m' * 2 ^ e' := by
  cases s <;> simp [value]

theorem units_eq (hd : 0 < d) (e : ℤ) :
    ((scale n d (-e)).1 : ℚ) / (scale n d (-e)).2 = n / d / 2 ^ e := by
  rw [scale_eq hd, zpow_neg, ← div_eq_mul_inv]

theorem fits_of_lt {e k : ℤ} (h : (m : ℚ) * 2 ^ e < 2 ^ (k + 1)) (hm : 0 < m) :
    binaryExponent m 1 + e ≤ k := by
  have hspec := (binaryExponent_spec (d := 1) hm one_pos).1
  rw [Nat.cast_one, div_one] at hspec
  have hlt : (2 : ℚ) ^ (binaryExponent m 1 + e) < 2 ^ (k + 1) := by
    rw [zpow_add₀ two_ne_zero]
    exact (mul_le_mul_of_nonneg_right hspec (zpow_nonneg zero_le_two _)).trans_lt h
  have := (zpow_lt_zpow_iff_right₀ (by norm_num : (1 : ℚ) < 2)).mp hlt
  omega

theorem round_eq (hn : 0 < n) : f.round negative n d =
    if f.maxExponent < binaryExponent (mantissa f n d) 1 + unitExponent f n d then
      .infinite negative
    else .finite negative (mantissa f n d) (unitExponent f n d) :=
  if_neg hn.ne'

theorem mantissa_near (hd : 0 < d) :
    |(n : ℚ) / d / 2 ^ unitExponent f n d - mantissa f n d| ≤ 1 / 2 := by
  rw [← units_eq hd]
  exact roundHalfEven_near (scale_pos hd _)

variable (negative) in
theorem round_eq_of_near (hn : 0 < n) (hd : 0 < d)
    (hnear : |(n : ℚ) / d / 2 ^ unitExponent f n d - m| < 1 / 2)
    (hfit : binaryExponent m 1 + unitExponent f n d ≤ f.maxExponent) :
    f.round negative n d = .finite negative m (unitExponent f n d) := by
  have hm : mantissa f n d = m := by
    apply roundHalfEven_eq (scale_pos hd _)
    rwa [units_eq hd]
  rw [round_eq hn, hm, if_neg (not_lt.mpr hfit)]

theorem round_finite (hn : 0 < n) {s : Bool} {e : ℤ} (h : f.round negative n d = .finite s m e) :
    s = negative ∧ m = mantissa f n d ∧ e = unitExponent f n d ∧
      binaryExponent m 1 + e ≤ f.maxExponent := by
  rw [round_eq hn] at h
  split at h
  · cases h
  · next hfit =>
    obtain ⟨rfl, rfl, rfl⟩ := BinaryFloat.finite.inj h
    exact ⟨rfl, rfl, rfl, not_lt.mp hfit⟩

theorem units_lt (hn : 0 < n) (hd : 0 < d) :
    (n : ℚ) / d / 2 ^ unitExponent f n d < 2 ^ f.precision := by
  rw [div_lt_iff₀ (zpow_pos two_pos _)]
  calc (n : ℚ) / d < 2 ^ (binaryExponent n d + 1) := (binaryExponent_spec hn hd).2
    _ ≤ 2 ^ ((f.precision : ℤ) + unitExponent f n d) := by
      apply zpow_le_zpow_right₀ one_le_two
      unfold unitExponent
      omega
    _ = 2 ^ f.precision * 2 ^ unitExponent f n d := by rw [zpow_add₀ two_ne_zero, zpow_natCast]

theorem unitExponent_le (hn : 0 < n) (hd : 0 < d) {a : ℕ} {b : ℤ} (ha : a < 2 ^ f.precision)
    (hb : f.minExponent ≤ b) (hq : (n : ℚ) / d = a * 2 ^ b) : unitExponent f n d ≤ b := by
  have hlt : (2 : ℚ) ^ binaryExponent n d < 2 ^ ((f.precision : ℤ) + b) := by
    calc (2 : ℚ) ^ binaryExponent n d ≤ n / d := (binaryExponent_spec hn hd).1
      _ = a * 2 ^ b := hq
      _ < 2 ^ f.precision * 2 ^ b := by
        apply mul_lt_mul_of_pos_right _ (zpow_pos two_pos _)
        exact_mod_cast ha
      _ = 2 ^ ((f.precision : ℤ) + b) := by rw [zpow_add₀ two_ne_zero, zpow_natCast]
  have := (zpow_lt_zpow_iff_right₀ (by norm_num : (1 : ℚ) < 2)).mp hlt
  unfold unitExponent
  omega

variable (negative) in
/-- A number of the format is not changed. -/
theorem round_exact (hn : 0 < n) (hd : 0 < d) (h : Represents f (n / d)) :
    ∃ m : ℕ, f.round negative n d = .finite negative m (unitExponent f n d) ∧
      (m : ℚ) * 2 ^ unitExponent f n d = n / d := by
  obtain ⟨a, b, ha, hb, hq, hmax⟩ := h
  have hle := unitExponent_le hn hd ha hb hq
  obtain ⟨k, hk⟩ := Int.eq_ofNat_of_zero_le (show 0 ≤ b - unitExponent f n d by omega)
  have hm : ((a * 2 ^ k : ℕ) : ℚ) * 2 ^ unitExponent f n d = n / d := by
    rw [hq, show b = (k : ℤ) + unitExponent f n d by omega, zpow_add₀ two_ne_zero, zpow_natCast]
    push_cast
    ring
  refine ⟨a * 2 ^ k, ?_, hm⟩
  have hpos : 0 < a * 2 ^ k := by
    apply Nat.pos_of_ne_zero
    intro h0
    rw [h0, Nat.cast_zero, zero_mul, eq_comm, div_eq_zero_iff] at hm
    have hn' : (n : ℚ) ≠ 0 := by exact_mod_cast hn.ne'
    have hd' : (d : ℚ) ≠ 0 := by exact_mod_cast hd.ne'
    exact hm.elim hn' hd'
  apply round_eq_of_near negative hn hd
  · rw [← hm, mul_div_cancel_right₀ _ (zpow_ne_zero _ two_ne_zero), sub_self, abs_zero]
    norm_num
  · exact fits_of_lt (by rw [hm]; exact hmax) hpos

theorem represents_of_round (hn : 0 < n) (hd : 0 < d) {s : Bool} {e : ℤ}
    (h : f.round negative n d = .finite s m e) (hv : (m : ℚ) * 2 ^ e = n / d) :
    Represents f (n / d) := by
  obtain ⟨-, -, rfl, hfit⟩ := round_finite hn h
  have hunits := units_lt (f := f) hn hd
  rw [← hv, mul_div_cancel_right₀ _ (zpow_ne_zero _ two_ne_zero)] at hunits
  have hm : m < 2 ^ f.precision := by exact_mod_cast hunits
  have hpos : 0 < m := by
    apply Nat.pos_of_ne_zero
    intro h0
    have hq : (0 : ℚ) < n / d := div_pos (by exact_mod_cast hn) (by exact_mod_cast hd)
    rw [← hv, h0, Nat.cast_zero, zero_mul] at hq
    exact lt_irrefl _ hq
  have hbits := (binaryExponent_spec (d := 1) hpos one_pos).2
  rw [Nat.cast_one, div_one] at hbits
  refine ⟨m, unitExponent f n d, hm, le_max_left _ _, hv.symm, ?_⟩
  calc (n : ℚ) / d = m * 2 ^ unitExponent f n d := hv.symm
    _ < 2 ^ (binaryExponent m 1 + 1) * 2 ^ unitExponent f n d :=
      mul_lt_mul_of_pos_right hbits (zpow_pos two_pos _)
    _ = 2 ^ (binaryExponent m 1 + unitExponent f n d + 1) := by
      rw [← zpow_add₀ two_ne_zero]
      congr 1
      ring
    _ ≤ 2 ^ (f.maxExponent + 1) := zpow_le_zpow_right₀ one_le_two (by omega)

theorem mantissa_le (hn : 0 < n) (hd : 0 < d) : mantissa f n d ≤ 2 ^ f.precision := by
  have hnear := mantissa_near (f := f) (n := n) hd
  have hunits := units_lt (f := f) hn hd
  rw [abs_le] at hnear
  have hlt : (mantissa f n d : ℚ) < 2 ^ f.precision + 1 := by linarith
  have : mantissa f n d < 2 ^ f.precision + 1 := by exact_mod_cast hlt
  omega

theorem round_inRange (hn : 0 < n) (hd : 0 < d)
    (h : unitExponent f n d + f.precision ≤ f.maxExponent) :
    f.round negative n d = .finite negative (mantissa f n d) (unitExponent f n d) := by
  have hm := mantissa_le (f := f) hn hd
  have hlog : Nat.log2 (mantissa f n d) ≤ f.precision := by
    by_cases h0 : mantissa f n d = 0
    · rw [h0]
      exact Nat.zero_le _
    · by_contra hbig
      have hself := Nat.log2_self_le h0
      have := Nat.pow_lt_pow_right (a := 2) (by decide) (not_le.mp hbig)
      omega
  have hle := binaryExponent_le (mantissa f n d) 1
  rw [round_eq hn, if_neg (by omega)]

end Rounding

end FloatRounding
