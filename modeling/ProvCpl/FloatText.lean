import Mathlib.Data.Nat.Log
import Mathlib.Data.String.Basic
import Mathlib.Data.List.TakeWhile

/-! # Binary floating point and its decimal text

Finite values are exact: a sign, a mantissa and a binary exponent. Every rounding is to
nearest with ties to even. `toText` is the six-decimal text of `std::to_string`, and
`ofText` reads such a text back as `std::stod` does. -/
namespace FloatText

inductive BinaryFloat where
  | finite (negative : Bool) (mantissa : ℕ) (exponent : ℤ)
  | infinite (negative : Bool)
  | nan
  deriving DecidableEq, Repr

/-- A binary format: precision, least exponent of a mantissa unit, greatest exponent of a value. -/
structure Format where
  precision : ℕ
  minExponent : ℤ
  maxExponent : ℤ

def float : Format := ⟨24, -149, 127⟩
def double : Format := ⟨53, -1074, 1023⟩

/-- The integer nearest to `n / d`. -/
def roundHalfEven (n d : ℕ) : ℕ :=
  let q := n / d
  let r := n % d
  if 2 * r < d then q else if 2 * r > d then q + 1 else if q % 2 = 0 then q else q + 1

def scale (n d : ℕ) (e : ℤ) : ℕ × ℕ :=
  if 0 ≤ e then (n * 2 ^ e.toNat, d) else (n, d * 2 ^ (-e).toNat)

/-- The greatest `k` with `2 ^ k ≤ n / d`, for positive `n` and `d`. -/
def binaryExponent (n d : ℕ) : ℤ :=
  let k : ℤ := (Nat.log2 n : ℤ) - (Nat.log2 d : ℤ)
  let s := scale n d (-k)
  if s.2 ≤ s.1 then k else k - 1

/-- The value of the format nearest to `± n / d`. -/
def Format.round (f : Format) (negative : Bool) (n d : ℕ) : BinaryFloat :=
  if n = 0 then .finite negative 0 0
  else
    let e := max f.minExponent (binaryExponent n d - f.precision + 1)
    let s := scale n d (-e)
    let m := roundHalfEven s.1 s.2
    if f.maxExponent < binaryExponent m 1 + e then .infinite negative else .finite negative m e

/-- Conversion of a value to a format, as by a cast. -/
def Format.cast (f : Format) : BinaryFloat → BinaryFloat
  | .finite negative m e =>
    let s := scale m 1 e
    f.round negative s.1 s.2
  | .infinite negative => .infinite negative
  | .nan => .nan

def Format.ofInt (f : Format) (n : ℤ) : BinaryFloat := f.round (n < 0) n.natAbs 1

def signText (negative : Bool) : String := if negative then "-" else ""

def sixDigits (n : ℕ) : String :=
  let digits := Nat.repr n
  String.ofList (List.replicate (6 - digits.length) '0') ++ digits

/-- `std::to_string` of a double. -/
def toText : BinaryFloat → String
  | .finite negative m e =>
    let s := scale (m * 10 ^ 6) 1 e
    let n := roundHalfEven s.1 s.2
    signText negative ++ Nat.repr (n / 10 ^ 6) ++ "." ++ sixDigits (n % 10 ^ 6)
  | .infinite negative => signText negative ++ "inf"
  | .nan => "nan"

/-- `std::to_string` of a bool, which prints the promoted integer. -/
def boolText (b : Bool) : String := if b then "1" else "0"

def digitsValue (cs : List Char) : ℕ := cs.foldl (fun n c => 10 * n + (c.toNat - '0'.toNat)) 0

/-- `std::stod` on texts of the form `[-]digits[.digits]`, `[-]inf` and `nan`; none when it
throws, for lack of a digit or because the value is out of range. -/
def ofText (text : String) : Option BinaryFloat :=
  let negative := text.toList.head? = some '-'
  let body := if negative then text.toList.tail else text.toList
  if body = "inf".toList then some (.infinite negative)
  else if body = "nan".toList then some .nan
  else
    let whole := body.takeWhile Char.isDigit
    let rest := body.dropWhile Char.isDigit
    let decimals := if rest.head? = some '.' then rest.tail.takeWhile Char.isDigit else []
    if whole = [] ∧ decimals = [] then none
    else
      match double.round negative (digitsValue (whole ++ decimals)) (10 ^ decimals.length) with
      | .infinite _ => none
      | x => some x

example : toText (float.cast (.finite false 5 (-1))) = "2.500000" := by decide
example : (ofText "2.500000").map toText = some "2.500000" := by decide

/-- A finite value does not exceed the greatest exponent of the format. -/
def Format.Fits (f : Format) : BinaryFloat → Prop
  | .finite _ m e => binaryExponent m 1 + e ≤ f.maxExponent
  | _ => True

theorem fits_round (negative : Bool) (n d : ℕ) : float.Fits (float.round negative n d) := by
  unfold Format.round
  split
  · show binaryExponent 0 1 + 0 ≤ 127
    decide
  · dsimp only
    split
    · trivial
    · exact Int.not_lt.mp ‹_›

theorem fits_ofInt (n : ℤ) : float.Fits (float.ofInt n) := fits_round _ _ _

theorem fits_cast (x : BinaryFloat) : float.Fits (float.cast x) := by
  cases x with
  | finite negative m e => exact fits_round _ _ _
  | infinite negative => trivial
  | nan => trivial

theorem roundHalfEven_le (n d : ℕ) : roundHalfEven n d ≤ n / d + 1 := by
  unfold roundHalfEven
  dsimp only
  split_ifs <;> omega

theorem binaryExponent_le (n d : ℕ) : binaryExponent n d ≤ Nat.log2 n := by
  unfold binaryExponent
  dsimp only
  split <;> omega

theorem le_binaryExponent (n : ℕ) : (Nat.log2 n : ℤ) - 1 ≤ binaryExponent n 1 := by
  have h1 : Nat.log2 1 = 0 := by decide
  unfold binaryExponent
  dsimp only
  split <;> omega

theorem log2_lt_of_lt {n k : ℕ} (h : n < 2 ^ k) (hk : 0 < k) : Nat.log2 n < k := by
  by_cases hn : n = 0
  · subst hn
    simpa using hk
  · exact (Nat.log2_lt hn).mpr h

/-- A value of the small format is below 2 ^ 129, so its millionths are below this bound. -/
theorem millionths_le {m : ℕ} {e : ℤ} (h : binaryExponent m 1 + e ≤ 127) :
    (scale (m * 10 ^ 6) 1 e).1 / (scale (m * 10 ^ 6) 1 e).2 ≤ 2 ^ 129 * 10 ^ 6 := by
  have hlog : (Nat.log2 m : ℤ) + e ≤ 128 := by
    have := le_binaryExponent m
    omega
  have hm : m < 2 ^ (Nat.log2 m + 1) := Nat.lt_log2_self
  unfold scale
  split
  · next he =>
    have hp : m * 2 ^ e.toNat ≤ 2 ^ 129 := by
      calc m * 2 ^ e.toNat ≤ 2 ^ (Nat.log2 m + 1) * 2 ^ e.toNat :=
            Nat.mul_le_mul_right _ (Nat.le_of_lt hm)
        _ = 2 ^ (Nat.log2 m + 1 + e.toNat) := by rw [← Nat.pow_add]
        _ ≤ 2 ^ 129 := Nat.pow_le_pow_right (by decide) (by omega)
    rw [Nat.div_one, Nat.mul_right_comm]
    exact Nat.mul_le_mul_right _ hp
  · next he =>
    have hp : m ≤ 2 ^ 129 * 2 ^ (-e).toNat := by
      calc m ≤ 2 ^ (Nat.log2 m + 1) := Nat.le_of_lt hm
        _ ≤ 2 ^ (129 + (-e).toNat) := Nat.pow_le_pow_right (by decide) (by omega)
        _ = 2 ^ 129 * 2 ^ (-e).toNat := by rw [← Nat.pow_add]
    rw [Nat.one_mul]
    refine Nat.div_le_of_le_mul ?_
    calc m * 10 ^ 6 ≤ 2 ^ 129 * 2 ^ (-e).toNat * 10 ^ 6 := Nat.mul_le_mul_right _ hp
      _ = 2 ^ (-e).toNat * (2 ^ 129 * 10 ^ 6) := by
        rw [Nat.mul_comm (2 ^ 129) (2 ^ (-e).toNat), Nat.mul_assoc]

theorem length_sixDigits {n : ℕ} (h : n < 10 ^ 6) : (sixDigits n).length = 6 := by
  have hl : (Nat.repr n).length ≤ 6 := (Nat.length_repr_le_iff (by decide)).mpr h
  simp only [sixDigits, String.length_append, String.length_ofList, List.length_replicate]
  omega

theorem toText_finite {negative : Bool} {m : ℕ} {e : ℤ} (h : float.Fits (.finite negative m e)) :
    ∃ c cs, (toText (.finite negative m e)).toList = (signText negative).toList ++ c :: cs ∧
      c.isDigit = true ∧ cs.length ≤ 46 := by
  have hn := (roundHalfEven_le _ _).trans (Nat.succ_le_succ (millionths_le h))
  simp only [toText]
  generalize roundHalfEven (scale (m * 10 ^ 6) 1 e).1 (scale (m * 10 ^ 6) 1 e).2 = n at hn
  have hwhole : (Nat.repr (n / 10 ^ 6)).length ≤ 40 :=
    (Nat.length_repr_le_iff (by decide)).mpr (by omega)
  have hsix : (sixDigits (n % 10 ^ 6)).length = 6 :=
    length_sixDigits (Nat.mod_lt _ (by decide))
  obtain ⟨c, cs, hcs⟩ := List.exists_cons_of_ne_nil
    (show (Nat.repr (n / 10 ^ 6)).toList ≠ [] by rw [Nat.toList_repr]; exact Nat.toDigits_ne_nil)
  have hlen : cs.length + 1 ≤ 40 := by
    rw [← String.length_toList, hcs, List.length_cons] at hwhole
    exact hwhole
  refine ⟨c, cs ++ '.' :: (sixDigits (n % 10 ^ 6)).toList, ?_, ?_, ?_⟩
  · simp only [String.toList_append, hcs, List.append_assoc, List.cons_append]
    rfl
  · refine Nat.isDigit_of_mem_toDigits (b := 10) (n := n / 10 ^ 6) (by decide) (by decide) ?_
    rw [← Nat.toList_repr, hcs]
    exact List.mem_cons_self
  · simp only [List.length_append, List.length_cons, String.length_toList, hsix]
    omega

theorem digitsValue_lt {cs : List Char} (h : ∀ c ∈ cs, c.isDigit = true) :
    digitsValue cs < 10 ^ cs.length := by
  have main : ∀ (cs : List Char) n k, (∀ c ∈ cs, c.isDigit = true) → n < 10 ^ k →
      cs.foldl (fun n c => 10 * n + (c.toNat - '0'.toNat)) n < 10 ^ (k + cs.length) := by
    intro cs
    induction cs with
    | nil => exact fun n k _ hn => hn
    | cons c cs ih =>
      intro n k hd hn
      have hc : c.toNat - '0'.toNat ≤ 9 := by
        have hdigit := hd c List.mem_cons_self
        simp only [Char.isDigit, Bool.and_eq_true, decide_eq_true_eq] at hdigit
        have hle : c.toNat ≤ 57 := hdigit.2
        have h0 : '0'.toNat = 48 := rfl
        omega
      have hstep : 10 * n + (c.toNat - '0'.toNat) < 10 ^ (k + 1) := by
        rw [Nat.pow_succ]
        omega
      have := ih _ (k + 1) (fun d hd' => hd d (List.mem_cons_of_mem _ hd')) hstep
      rwa [Nat.add_assoc, Nat.add_comm 1] at this
  simpa [digitsValue] using main cs 0 0 h (by decide)

theorem double_round_finite (negative : Bool) {n : ℕ} (d : ℕ) (h : n < 2 ^ 160) :
    ∃ x, double.round negative n d = x ∧ ∀ s, x ≠ .infinite s := by
  refine ⟨_, rfl, fun s hs => ?_⟩
  unfold Format.round at hs
  split at hs
  · cases hs
  dsimp only at hs
  split at hs
  · next hbig =>
    have hbe : binaryExponent n d ≤ 159 := by
      have := binaryExponent_le n d
      have := log2_lt_of_lt h (by decide)
      omega
    generalize he : max double.minExponent (binaryExponent n d - double.precision + 1) = e at hbig
    have hlow : double.minExponent = -1074 := rfl
    have hprec : (double.precision : ℤ) = 53 := rfl
    have hmax : double.maxExponent = 1023 := rfl
    have hup : e ≤ 107 := by omega
    have hm := binaryExponent_le (roundHalfEven (scale n d (-e)).1 (scale n d (-e)).2) 1
    have hr := roundHalfEven_le (scale n d (-e)).1 (scale n d (-e)).2
    generalize roundHalfEven (scale n d (-e)).1 (scale n d (-e)).2 = m at hbig hm hr
    have hdiv : (scale n d (-e)).1 / (scale n d (-e)).2 ≤ (scale n d (-e)).1 :=
      Nat.div_le_self _ _
    have hnum : (scale n d (-e)).1 < 2 ^ (160 + (-e).toNat) := by
      unfold scale
      split
      · rw [Nat.pow_add]
        exact Nat.mul_lt_mul_of_pos_right h (Nat.two_pow_pos _)
      · exact h.trans_le (Nat.pow_le_pow_right (by decide) (by omega))
    have hm2 : m < 2 ^ (161 + (-e).toNat) := by
      have : 2 ^ (161 + (-e).toNat) = 2 * 2 ^ (160 + (-e).toNat) := by
        rw [show 161 + (-e).toNat = 160 + (-e).toNat + 1 by omega, Nat.pow_succ, Nat.mul_comm]
      omega
    have hlog := log2_lt_of_lt hm2 (by omega)
    omega
  · cases hs

theorem ofText_number {text : String} {negative : Bool} {c : Char} {cs : List Char}
    (ht : text.toList = (signText negative).toList ++ c :: cs) (hc : c.isDigit = true)
    (hl : cs.length ≤ 46) : (ofText text).isSome := by
  have hne : c ≠ '-' := fun h => by subst h; simp [Char.isDigit] at hc
  have hbody :
      (if text.toList.head? = some '-' then text.toList.tail else text.toList) = c :: cs := by
    cases negative
    · simp [ht, signText, hne]
    · simp [ht, signText]
  have hword : ∀ d ds, (c :: cs) = d :: ds → d.isDigit = true := fun d ds h => by
    cases h
    exact hc
  have hinf : c :: cs ≠ "inf".toList := fun h => absurd (hword 'i' ['n', 'f'] h) (by decide)
  have hnan : c :: cs ≠ "nan".toList := fun h => absurd (hword 'n' ['a', 'n'] h) (by decide)
  unfold ofText
  simp only [hbody, if_neg hinf, if_neg hnan]
  have hwhole : (c :: cs).takeWhile Char.isDigit ≠ [] := by simp [hc]
  rw [if_neg fun h => hwhole h.1]
  generalize hd : (if ((c :: cs).dropWhile Char.isDigit).head? = some '.' then
    ((c :: cs).dropWhile Char.isDigit).tail.takeWhile Char.isDigit else []) = decimals
  have hdecimals : (∀ d ∈ decimals, d.isDigit = true) ∧
      decimals.length ≤ ((c :: cs).dropWhile Char.isDigit).length := by
    rw [← hd]
    split
    · refine ⟨fun d hm => List.mem_takeWhile_imp hm, ?_⟩
      exact ((List.takeWhile_sublist _).trans (List.tail_sublist _)).length_le
    · exact ⟨by simp, Nat.zero_le _⟩
  have hsmall : digitsValue ((c :: cs).takeWhile Char.isDigit ++ decimals) < 2 ^ 160 := by
    have hdigits : ∀ d ∈ (c :: cs).takeWhile Char.isDigit ++ decimals, d.isDigit = true := by
      intro d hm
      rcases List.mem_append.mp hm with hm | hm
      · exact List.mem_takeWhile_imp hm
      · exact hdecimals.1 d hm
    refine (digitsValue_lt hdigits).trans_le ((Nat.pow_le_pow_right (by decide) ?_).trans
      (show 10 ^ 47 ≤ 2 ^ 160 by decide))
    have hsplit := congrArg List.length
      (List.takeWhile_append_dropWhile (p := Char.isDigit) (l := c :: cs))
    simp only [List.length_append, List.length_cons] at hsplit ⊢
    omega
  obtain ⟨x, hx, hfin⟩ := double_round_finite (decide (text.toList.head? = some '-'))
    (10 ^ decimals.length) hsmall
  rw [hx]
  cases x with
  | infinite s => exact absurd rfl (hfin s)
  | finite s m e => rfl
  | nan => rfl

theorem toText_reads {x : BinaryFloat} (h : float.Fits x) :
    (toText x).length ≤ 48 ∧ (ofText (toText x)).isSome := by
  cases x with
  | finite negative m e =>
    obtain ⟨c, cs, ht, hc, hl⟩ := toText_finite h
    refine ⟨?_, ofText_number ht hc hl⟩
    rw [← String.length_toList, ht, List.length_append, List.length_cons]
    have : (signText negative).toList.length ≤ 1 := by cases negative <;> decide
    omega
  | infinite negative => cases negative <;> decide
  | nan => decide

end FloatText
