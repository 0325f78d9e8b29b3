import ProvCpl.FloatRounding

/-! # Numbers with six decimals

The text of a finite value says its sign and the nearest multiple of a millionth, and is read as
the value nearest to that multiple. From 2 ^ 33 on the multiples are closer to each other than
the values, below they may be further apart. -/
namespace DecimalText

open FloatText FloatRounding

def millionths (m : ℕ) (e : ℤ) : ℕ :=
  roundHalfEven (scale (m * 10 ^ 6) 1 e).1 (scale (m * 10 ^ 6) 1 e).2

def decimalDigits (n : ℕ) : List Char :=
  (Nat.repr (n / 10 ^ 6)).toList ++ '.' :: (sixDigits (n % 10 ^ 6)).toList

/-- What is returned for a number that was read; one out of range throws. -/
def inRange : BinaryFloat → Option BinaryFloat
  | .infinite _ => none
  | x => some x

theorem toList_toText (negative : Bool) (m : ℕ) (e : ℤ) :
    (toText (.finite negative m e)).toList =
      (signText negative).toList ++ decimalDigits (millionths m e) := by
  simp only [toText, decimalDigits, millionths, String.toList_append, List.append_assoc]
  rfl

section Digits

theorem digitsValue_append (a b : List Char) :
    digitsValue (a ++ b) = 10 ^ b.length * digitsValue a + digitsValue b :=
  (Nat.ofDigitChars_append (b := 10) (l := a) (m := b) 0).trans
    Nat.ofDigitChars_eq_ofDigitChars_zero

theorem digitsValue_repr (n : ℕ) : digitsValue (Nat.repr n).toList = n := by
  rw [Nat.toList_repr]
  exact Nat.ofDigitChars_ten_toDigits

theorem digitsValue_sixDigits (n : ℕ) : digitsValue (sixDigits n).toList = n := by
  have hzeros : ∀ k, digitsValue (List.replicate k '0') = 0 := by
    intro k
    show Nat.ofDigitChars 10 (List.replicate k '0') 0 = 0
    rw [Nat.ofDigitChars_replicate_zero, Nat.mul_zero]
  rw [sixDigits, String.toList_append, String.toList_ofList, digitsValue_append, hzeros,
    digitsValue_repr]
  omega

theorem isDigit_repr (n : ℕ) : ∀ c ∈ (Nat.repr n).toList, c.isDigit = true := by
  intro c hc
  rw [Nat.toList_repr] at hc
  exact Nat.isDigit_of_mem_toDigits (by decide) (by decide) hc

theorem isDigit_sixDigits (n : ℕ) : ∀ c ∈ (sixDigits n).toList, c.isDigit = true := by
  intro c hc
  rw [sixDigits, String.toList_append, String.toList_ofList] at hc
  rcases List.mem_append.mp hc with hc | hc
  · rw [(List.mem_replicate.mp hc).2]
    decide
  · exact isDigit_repr n c hc

theorem takeWhile_decimalDigits (n : ℕ) :
    (decimalDigits n).takeWhile Char.isDigit = (Nat.repr (n / 10 ^ 6)).toList := by
  rw [decimalDigits, List.takeWhile_append_of_pos (isDigit_repr _)]
  simp [show Char.isDigit '.' = false by decide]

theorem dropWhile_decimalDigits (n : ℕ) :
    (decimalDigits n).dropWhile Char.isDigit = '.' :: (sixDigits (n % 10 ^ 6)).toList := by
  rw [decimalDigits, List.dropWhile_append_of_pos (isDigit_repr _)]
  simp [show Char.isDigit '.' = false by decide]

theorem digitsValue_decimalDigits (n : ℕ) :
    digitsValue ((Nat.repr (n / 10 ^ 6)).toList ++ (sixDigits (n % 10 ^ 6)).toList) = n := by
  have hlen : (sixDigits (n % 10 ^ 6)).toList.length = 6 := by
    rw [String.length_toList]
    exact length_sixDigits (Nat.mod_lt _ (by decide))
  rw [digitsValue_append, digitsValue_repr, digitsValue_sixDigits, hlen]
  exact Nat.div_add_mod n (10 ^ 6)

theorem decimalDigits_injective {n n' : ℕ} (h : decimalDigits n = decimalDigits n') : n = n' := by
  have hwhole := takeWhile_decimalDigits n
  have hrest := dropWhile_decimalDigits n
  rw [h, takeWhile_decimalDigits] at hwhole
  rw [h, dropWhile_decimalDigits] at hrest
  have hsix : (sixDigits (n' % 10 ^ 6)).toList = (sixDigits (n % 10 ^ 6)).toList :=
    (List.cons.inj hrest).2
  rw [← digitsValue_decimalDigits n, ← digitsValue_decimalDigits n', hwhole, hsix]

theorem head_decimalDigits (n : ℕ) : ∃ c cs, decimalDigits n = c :: cs ∧ c.isDigit = true := by
  obtain ⟨c, cs, hcs⟩ := List.exists_cons_of_ne_nil
    (show (Nat.repr (n / 10 ^ 6)).toList ≠ [] by rw [Nat.toList_repr]; exact Nat.toDigits_ne_nil)
  refine ⟨c, cs ++ '.' :: (sixDigits (n % 10 ^ 6)).toList, ?_, ?_⟩
  · rw [decimalDigits, hcs, List.cons_append]
  · exact isDigit_repr (n / 10 ^ 6) c (by rw [hcs]; exact List.mem_cons_self)

theorem head_sign (negative : Bool) (n : ℕ) :
    ((signText negative).toList ++ decimalDigits n).head? = some '-' ↔ negative = true := by
  cases negative with
  | true => simp [signText]
  | false =>
    obtain ⟨c, cs, hcs, hc⟩ := head_decimalDigits n
    constructor
    · intro h
      rw [hcs] at h
      cases h
      exact absurd hc (by decide)
    · intro h
      cases h

theorem toText_inj {s s' : Bool} {m m' : ℕ} {e e' : ℤ} :
    toText (.finite s m e) = toText (.finite s' m' e') ↔
      s = s' ∧ millionths m e = millionths m' e' := by
  rw [← String.toList_inj, toList_toText, toList_toText]
  constructor
  · intro h
    have hsign : s = s' := by
      rw [Bool.eq_iff_iff, ← head_sign s (millionths m e), h, head_sign]
    subst hsign
    exact ⟨rfl, decimalDigits_injective (List.append_cancel_left h)⟩
  · rintro ⟨rfl, h⟩
    rw [h]

theorem ofText_toText (negative : Bool) (m : ℕ) (e : ℤ) :
    ofText (toText (.finite negative m e)) =
      inRange (double.round negative (millionths m e) (10 ^ 6)) := by
  have hlen : (sixDigits (millionths m e % 10 ^ 6)).toList.length = 6 := by
    rw [String.length_toList]
    exact length_sixDigits (Nat.mod_lt _ (by decide))
  have hneg : ((toText (.finite negative m e)).toList.head? = some '-') ↔ negative = true := by
    rw [toList_toText, head_sign]
  have hbody : (if negative = true then (toText (.finite negative m e)).toList.tail
      else (toText (.finite negative m e)).toList) = decimalDigits (millionths m e) := by
    rw [toList_toText]
    cases negative <;> simp [signText]
  have hword : ∀ cs : List Char, (∀ c ∈ cs.head?, c.isDigit = false) →
      decimalDigits (millionths m e) ≠ cs := by
    intro cs hcs h
    obtain ⟨c, cs', hc, hdigit⟩ := head_decimalDigits (millionths m e)
    rw [← h, hc] at hcs
    rw [hcs c rfl] at hdigit
    cases hdigit
  have hinf := hword "inf".toList (by simp)
  have hnan := hword "nan".toList (by simp)
  have hwhole : (Nat.repr (millionths m e / 10 ^ 6)).toList ≠ [] := by
    rw [Nat.toList_repr]
    exact Nat.toDigits_ne_nil
  unfold ofText
  simp only [hneg, hbody, if_neg hinf, if_neg hnan, takeWhile_decimalDigits,
    dropWhile_decimalDigits,
    List.head?_cons, if_true, List.tail_cons,
    List.takeWhile_eq_self_iff.mpr (isDigit_sixDigits _), hwhole, false_and, if_false,
    digitsValue_decimalDigits, hlen, Bool.decide_eq_true]
  cases double.round negative (millionths m e) (10 ^ 6) <;> rfl

end Digits

section Millionths

variable {m n : ℕ} {e : ℤ}

theorem millionths_scale : ((scale (m * 10 ^ 6) 1 e).1 : ℚ) / (scale (m * 10 ^ 6) 1 e).2 =
    m * 2 ^ e * 10 ^ 6 := by
  rw [scale_eq one_pos]
  push_cast
  ring

theorem millionths_near (m : ℕ) (e : ℤ) : |(m : ℚ) * 2 ^ e * 10 ^ 6 - millionths m e| ≤ 1 / 2 := by
  rw [← millionths_scale]
  exact roundHalfEven_near (scale_pos one_pos _)

theorem millionths_eq (h : |(m : ℚ) * 2 ^ e * 10 ^ 6 - n| < 1 / 2) : millionths m e = n := by
  apply roundHalfEven_eq (scale_pos one_pos _)
  rwa [millionths_scale]

theorem millionths_exact (h : (m : ℚ) * 2 ^ e = n / 10 ^ 6) : millionths m e = n := by
  apply millionths_eq
  rw [h, div_mul_cancel₀ _ (by norm_num), sub_self, abs_zero]
  norm_num

end Millionths

section Reading

variable {negative : Bool} {m n : ℕ} {e : ℤ}

def ReadsBack (x : BinaryFloat) : Prop := ∃ y, ofText (toText x) = some y ∧ value y = value x

theorem readsBack_of_round (m' : ℕ) {e' : ℤ}
    (h : double.round negative (millionths m e) (10 ^ 6) = .finite negative m' e')
    (hv : (m' : ℚ) * 2 ^ e' = m * 2 ^ e) : ReadsBack (.finite negative m e) := by
  refine ⟨.finite negative m' e', ?_, value_inj.mpr hv⟩
  rw [ofText_toText, h]
  rfl

theorem readsBack_exact (hx : Represents double (m * 2 ^ e))
    (h : (m : ℚ) * 2 ^ e = n / 10 ^ 6) : ReadsBack (.finite negative m e) := by
  have hn := millionths_exact h
  by_cases h0 : n = 0
  · subst h0
    have hzero : (m : ℚ) * 2 ^ e = 0 := by rw [h, Nat.cast_zero, zero_div]
    have hround : double.round negative 0 (10 ^ 6) = .finite negative 0 0 := rfl
    apply readsBack_of_round 0
    · rw [hn]
      exact hround
    · rw [hzero, Nat.cast_zero, zero_mul]
  · have hq : ((n : ℚ) / (10 ^ 6 : ℕ)) = m * 2 ^ e := by
      rw [h]
      push_cast
      rfl
    obtain ⟨m', hround, hv⟩ := round_exact (f := double) negative
      (Nat.pos_of_ne_zero h0) (by decide : 0 < 10 ^ 6) (by rwa [hq])
    apply readsBack_of_round m'
    · rw [hn, hround]
    · rw [hv, hq]

theorem readsBack_integer {N : ℕ} (hx : Represents double (m * 2 ^ e))
    (h : (m : ℚ) * 2 ^ e = N) : ReadsBack (.finite negative m e) := by
  apply readsBack_exact (n := N * 10 ^ 6) hx
  rw [h]
  push_cast
  ring

theorem large_form (hx : Represents double (m * 2 ^ e)) (hlarge : (2 : ℚ) ^ 33 ≤ m * 2 ^ e) :
    ∃ M : ℕ, ∃ E : ℤ, (M : ℚ) * 2 ^ E = m * 2 ^ e ∧ 2 ^ 52 ≤ M ∧ M < 2 ^ 53 ∧ -19 ≤ E ∧
      E ≤ 971 := by
  have hq : ((scale m 1 e).1 : ℚ) / (scale m 1 e).2 = m * 2 ^ e := by
    rw [scale_eq one_pos, Nat.cast_one, div_one]
  have hd : 0 < (scale m 1 e).2 := scale_pos one_pos e
  have hn : 0 < (scale m 1 e).1 := by
    apply Nat.pos_of_ne_zero
    intro h0
    rw [h0, Nat.cast_zero, zero_div] at hq
    rw [← hq] at hlarge
    norm_num at hlarge
  obtain ⟨M, -, hM⟩ := round_exact (f := double) false hn hd (by rwa [hq])
  obtain ⟨hlow, hhigh⟩ := binaryExponent_spec hn hd
  obtain ⟨a, b, -, -, -, hmax⟩ := hx
  have htwo : (1 : ℚ) < 2 := by norm_num
  have hk : 33 < binaryExponent (scale m 1 e).1 (scale m 1 e).2 + 1 := by
    apply (zpow_lt_zpow_iff_right₀ htwo).mp
    calc (2 : ℚ) ^ (33 : ℤ) = 2 ^ 33 := by norm_num
      _ ≤ m * 2 ^ e := hlarge
      _ = _ := hq.symm
      _ < _ := hhigh
  have hk' : binaryExponent (scale m 1 e).1 (scale m 1 e).2 < 1024 := by
    apply (zpow_lt_zpow_iff_right₀ htwo).mp
    exact hlow.trans_lt (by rw [hq]; exact hmax)
  have hunit : unitExponent double (scale m 1 e).1 (scale m 1 e).2 =
      binaryExponent (scale m 1 e).1 (scale m 1 e).2 - 52 := by
    have h1 : double.minExponent = -1074 := rfl
    have h2 : (double.precision : ℤ) = 53 := rfl
    unfold unitExponent
    omega
  generalize binaryExponent (scale m 1 e).1 (scale m 1 e).2 = k at hlow hhigh hk hk' hunit
  rw [hunit] at hM
  rw [← hM] at hlow hhigh
  have hpos : (0 : ℚ) < 2 ^ (k - 52) := zpow_pos two_pos _
  refine ⟨M, k - 52, hM.trans hq, ?_, ?_, by omega, by omega⟩
  · have : (2 : ℚ) ^ 52 * 2 ^ (k - 52) ≤ M * 2 ^ (k - 52) := by
      rw [← zpow_natCast, ← zpow_add₀ two_ne_zero]
      convert hlow using 2
      push_cast
      ring
    exact_mod_cast le_of_mul_le_mul_right this hpos
  · have : (M : ℚ) * 2 ^ (k - 52) < 2 ^ 53 * 2 ^ (k - 52) := by
      rw [← zpow_natCast 2 53, ← zpow_add₀ two_ne_zero]
      convert hhigh using 2
      push_cast
      ring
    exact_mod_cast lt_of_mul_lt_mul_right this hpos.le

/-- Between two powers of two the nearest multiple of a millionth has the same nearest value. -/
theorem round_millionths {M : ℕ} {E : ℤ} (hv : (M : ℚ) * 2 ^ E = m * 2 ^ e) (hlow : 2 ^ 52 < M)
    (hhigh : M < 2 ^ 53) (hE : -19 ≤ E) (hE' : E ≤ 971) :
    double.round negative (millionths m e) (10 ^ 6) = .finite negative M E := by
  have hnear := millionths_near m e
  rw [← hv, abs_le] at hnear
  have hu : (1 : ℚ) / 524288 ≤ 2 ^ E := by
    calc (1 : ℚ) / 524288 = 2 ^ (-19 : ℤ) := by norm_num
      _ ≤ 2 ^ E := zpow_le_zpow_right₀ one_le_two hE
  have hM1 : ((2 : ℚ) ^ 52 + 1) * 2 ^ E ≤ M * 2 ^ E := by
    apply mul_le_mul_of_nonneg_right _ (by linarith)
    exact_mod_cast hlow
  have hM2 : (M : ℚ) * 2 ^ E ≤ (2 ^ 53 - 1) * 2 ^ E := by
    apply mul_le_mul_of_nonneg_right _ (by linarith)
    have : (M : ℚ) + 1 ≤ 2 ^ 53 := by exact_mod_cast hhigh
    linarith
  have hpow52 : (2 : ℚ) ^ (E + 52) = 2 ^ 52 * 2 ^ E := by
    rw [zpow_add₀ two_ne_zero, mul_comm]
    norm_num
  have hpow53 : (2 : ℚ) ^ (E + 52 + 1) = 2 ^ 53 * 2 ^ E := by
    rw [zpow_add₀ two_ne_zero, hpow52]
    ring
  have hn : 0 < millionths m e := by
    have : (0 : ℚ) < millionths m e := by linarith
    exact_mod_cast this
  have hk : binaryExponent (millionths m e) (10 ^ 6) = E + 52 := by
    apply binaryExponent_eq hn (by decide)
    · rw [hpow52]
      push_cast
      linarith
    · rw [hpow53]
      push_cast
      linarith
  have hunit : unitExponent double (millionths m e) (10 ^ 6) = E := by
    have h1 : double.minExponent = -1074 := rfl
    have h2 : (double.precision : ℤ) = 53 := rfl
    unfold unitExponent
    omega
  have hfit : (M : ℚ) * 2 ^ E < 2 ^ (double.maxExponent + 1) := by
    have hmax : (2 : ℚ) ^ (E + 53) ≤ 2 ^ (double.maxExponent + 1) := by
      apply zpow_le_zpow_right₀ one_le_two
      show E + 53 ≤ 1024
      omega
    have h53 : (2 : ℚ) ^ (E + 53) = 2 ^ 53 * 2 ^ E := by rw [← hpow53, add_assoc]; rfl
    linarith
  have hround := round_eq_of_near (f := double) negative (m := M) hn
    (by decide : 0 < 10 ^ 6) (by
      rw [hunit, abs_lt]
      push_cast
      rw [lt_sub_iff_add_lt, lt_div_iff₀ (by linarith), sub_lt_iff_lt_add,
        div_lt_iff₀ (by linarith)]
      constructor <;> linarith) (by rw [hunit]; exact fits_of_lt hfit (by omega))
  rw [hround, hunit]

/-- From 2 ^ 33 on the millionths are finer than the mantissas. -/
theorem readsBack_large (hx : InFormat double (.finite negative m e))
    (hlarge : (2 : ℚ) ^ 33 ≤ m * 2 ^ e) : ReadsBack (.finite negative m e) := by
  have hrep := represents_of_inFormat hx
  obtain ⟨M, E, hv, hlow, hhigh, hE, hE'⟩ := large_form hrep hlarge
  by_cases hint : ∃ N : ℕ, (M : ℚ) * 2 ^ E = N
  · obtain ⟨N, hN⟩ := hint
    exact readsBack_integer hrep (hv.symm.trans hN)
  · have hne : M ≠ 2 ^ 52 := by
      intro h
      apply hint
      obtain ⟨j, hj⟩ := Int.eq_ofNat_of_zero_le (show 0 ≤ 52 + E by omega)
      refine ⟨2 ^ j, ?_⟩
      calc (M : ℚ) * 2 ^ E = 2 ^ (52 : ℤ) * 2 ^ E := by rw [h]; norm_num
        _ = 2 ^ (52 + E) := (zpow_add₀ two_ne_zero _ _).symm
        _ = ((2 ^ j : ℕ) : ℚ) := by rw [hj]; push_cast; exact zpow_natCast 2 j
    exact readsBack_of_round _ (round_millionths hv (by omega) hhigh hE hE') hv

/-- A small value that is nearest to a multiple of a millionth is printed as that multiple. -/
theorem millionths_of_round {k m' : ℕ} {e' : ℤ} {s : Bool} (hk : 0 < k)
    (hround : double.round negative k (10 ^ 6) = .finite s m' e')
    (hv : (m' : ℚ) * 2 ^ e' = m * 2 ^ e) (hsmall : (m : ℚ) * 2 ^ e < 2 ^ 33) :
    millionths m e = k := by
  obtain ⟨-, hm, he, -⟩ := round_finite hk hround
  have hnear := mantissa_near (f := double) (n := k) (by decide : 0 < 10 ^ 6)
  rw [← hm, ← he] at hnear
  have hlow := (binaryExponent_spec hk (by decide : 0 < 10 ^ 6)).1
  have hpos : (0 : ℚ) < 2 ^ e' := zpow_pos two_pos _
  rw [abs_le, le_sub_iff_add_le, le_div_iff₀ hpos, sub_le_iff_le_add, div_le_iff₀ hpos] at hnear
  have hbound : e' ≤ -20 := by
    by_contra hbig
    have hk' : binaryExponent k (10 ^ 6) = e' + 52 := by
      have h1 : double.minExponent = -1074 := rfl
      have h2 : (double.precision : ℤ) = 53 := rfl
      unfold unitExponent at he
      omega
    have hpow : (2 : ℚ) ^ (e' + 52) = 2 ^ 52 * 2 ^ e' := by
      rw [zpow_add₀ two_ne_zero, mul_comm]
      norm_num
    rw [hk', hpow] at hlow
    have hm : ((2 : ℚ) ^ 52 - 1) * 2 ^ e' < m' * 2 ^ e' := by linarith
    have hm' : 2 ^ 52 ≤ m' := by
      have : (2 : ℚ) ^ 52 < m' + 1 := by linarith [lt_of_mul_lt_mul_right hm hpos.le]
      have : 2 ^ 52 < m' + 1 := by exact_mod_cast this
      omega
    have hlarge : (2 : ℚ) ^ 52 * 2 ^ (-19 : ℤ) ≤ m' * 2 ^ e' := by
      apply mul_le_mul _ _ (zpow_nonneg zero_le_two _) (Nat.cast_nonneg _)
      · exact_mod_cast hm'
      · exact zpow_le_zpow_right₀ one_le_two (by omega)
    norm_num at hlarge hsmall
    linarith
  have hu : (2 : ℚ) ^ e' ≤ 1 / 1048576 := by
    calc (2 : ℚ) ^ e' ≤ 2 ^ (-20 : ℤ) := zpow_le_zpow_right₀ one_le_two hbound
      _ = 1 / 1048576 := by norm_num
  apply millionths_eq
  rw [← hv, abs_lt]
  push_cast at hnear
  constructor <;> linarith

theorem readsBack_iff (hx : InFormat double (.finite negative m e)) :
    ReadsBack (.finite negative m e) ↔
      ∃ k : ℕ, value (double.round negative k (10 ^ 6)) = value (.finite negative m e) := by
  constructor
  · intro ⟨y, hy, hv⟩
    rw [ofText_toText] at hy
    refine ⟨millionths m e, ?_⟩
    cases hr : double.round negative (millionths m e) (10 ^ 6) with
    | infinite s =>
      rw [hr] at hy
      cases hy
    | finite s m' e' =>
      rw [hr] at hy
      cases hy
      exact hv
    | nan =>
      rw [hr] at hy
      cases hy
      exact hv
  · intro ⟨k, hk⟩
    obtain ⟨s, m', e', hr⟩ := finite_of_value hk
    by_cases hlarge : (2 : ℚ) ^ 33 ≤ m * 2 ^ e
    · exact readsBack_large hx hlarge
    · have hprinted : millionths m e = k := by
        by_cases h0 : k = 0
        · subst h0
          have hzero : value (.finite negative 0 0) = value (.finite negative m e) := hk
          rw [value_inj, Nat.cast_zero, zero_mul] at hzero
          exact millionths_exact (by rw [← hzero, Nat.cast_zero, zero_div])
        · obtain ⟨rfl, -, -, -⟩ := round_finite (Nat.pos_of_ne_zero h0) hr
          rw [hr, value_inj] at hk
          exact millionths_of_round (Nat.pos_of_ne_zero h0) hr hk (not_le.mp hlarge)
      refine ⟨.finite s m' e', ?_, by rw [← hr, hk]⟩
      rw [ofText_toText, hprinted, hr]
      rfl

theorem length_repr_le {k : ℕ} (hk : 0 < k) (h : n < 10 ^ k) : (Nat.repr n).length ≤ k :=
  (Nat.length_repr_le_iff hk).mpr h

theorem length_toText_lt {x : BinaryFloat} (hx : InFormat double x) : (toText x).length < 600 := by
  cases x with
  | infinite s => exact hx.elim
  | nan => exact hx.elim
  | finite negative m e =>
    obtain ⟨-, -, -, -, -, hmax⟩ := represents_of_inFormat hx
    have hnear := millionths_near m e
    rw [abs_le] at hnear
    have hbig : (2 : ℚ) ^ (double.maxExponent + 1) * 10 ^ 6 + 1 ≤ 10 ^ 520 := by
      have hpow : (2 : ℚ) ^ (double.maxExponent + 1) ≤ 10 ^ 512 := by
        calc (2 : ℚ) ^ (double.maxExponent + 1) = 2 ^ 1024 := zpow_natCast 2 1024
          _ = (2 ^ 4) ^ 256 := by rw [← pow_mul]
          _ ≤ (10 ^ 2) ^ 256 := pow_le_pow_left₀ (by norm_num) (by norm_num) 256
          _ = 10 ^ 512 := by rw [← pow_mul]
      have hone : (1 : ℚ) ≤ 10 ^ 512 := one_le_pow₀ (by norm_num)
      have hsplit : (10 : ℚ) ^ 520 = 10 ^ 512 * 10 ^ 8 := by rw [← pow_add]
      rw [hsplit]
      generalize (10 : ℚ) ^ 512 = t at hpow hone
      generalize (2 : ℚ) ^ (double.maxExponent + 1) = u at hpow
      linarith
    have hn : millionths m e < 10 ^ 520 := by
      have hlt : (millionths m e : ℚ) < 2 ^ (double.maxExponent + 1) * 10 ^ 6 + 1 := by linarith
      rw [← @Nat.cast_lt ℚ, Nat.cast_pow, Nat.cast_ofNat]
      exact hlt.trans_le hbig
    have hwhole : (Nat.repr (millionths m e / 10 ^ 6)).toList.length ≤ 520 := by
      rw [String.length_toList]
      exact length_repr_le (by decide) ((Nat.div_le_self _ _).trans_lt hn)
    have hsix : (sixDigits (millionths m e % 10 ^ 6)).toList.length = 6 := by
      rw [String.length_toList]
      exact length_sixDigits (Nat.mod_lt _ (by decide))
    have hsign : (signText negative).toList.length ≤ 1 := by cases negative <;> decide
    rw [← String.length_toList, toList_toText, List.length_append, decimalDigits,
      List.length_append, List.length_cons, hsix]
    omega

end Reading

end DecimalText
