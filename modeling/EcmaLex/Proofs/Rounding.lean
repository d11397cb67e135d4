import EcmaLex.Number.Binary64
import Mathlib.Algebra.Order.Field.Power
import Mathlib.Tactic.Linarith
import Mathlib.Tactic.Positivity
import Mathlib.Tactic.Ring

/-!
# Rounding to doubles

The bits of the nonnegative doubles count them in the order of their magnitudes, through the
subnormal numbers and from each power of two to the next (`magnitude`). Rounding a number is to find
the place nearest to it on this scale. From half a place beyond the largest double on, that is a
place of no finite double any more, and the number rounds to infinity.

* `RoundsTo`: a double is the nearest one to a number, the one with an even last bit where two are
  equally near. `RoundsTo.unique`: there is one at most.
* `roundsTo_ofRatio`: quotients are rounded so.
* `roundsTo_mul`, `roundsTo_add`: so are products and sums.
* `value?_of_roundsTo_natCast`: what is a natural number of at most fifty-three bits is not rounded.
-/

namespace EcmaLex.Binary64

/-! ## The scale of doubles -/

/-- The first place that no finite double has, which is that of infinity. -/
def places : ℕ := 0x7FF * 2 ^ 52

/-- The number at a place of the scale of doubles, which goes on beyond the largest double as
before. -/
def magnitude (n : ℕ) : ℚ :=
  if n / 2 ^ 52 = 0 then n * 2 ^ (-1074 : ℤ)
  else (2 ^ 52 + n % 2 ^ 52 : ℕ) * 2 ^ ((n / 2 ^ 52 : ℕ) - 1075 : ℤ)

/-- Within a binade and at its ends, places are significands. -/
theorem magnitude_place {k m : ℕ} (hle : m ≤ 2 ^ 53) (hnormal : k = 0 ∨ 2 ^ 52 ≤ m) :
    magnitude (k * 2 ^ 52 + m) = m * 2 ^ (k - 1074 : ℤ) := by
  have hdiv : (k * 2 ^ 52 + m) / 2 ^ 52 = k + m / 2 ^ 52 := by omega
  have hmod : (k * 2 ^ 52 + m) % 2 ^ 52 = m % 2 ^ 52 := by omega
  unfold magnitude
  rw [hdiv, hmod]
  obtain hm | hm | rfl : m < 2 ^ 52 ∨ (2 ^ 52 ≤ m ∧ m < 2 ^ 53) ∨ m = 2 ^ 53 := by omega
  · obtain rfl : k = 0 := by omega
    rw [if_pos (by omega)]
    simp
  · rw [if_neg (by omega), show m / 2 ^ 52 = 1 by omega, show 2 ^ 52 + m % 2 ^ 52 = m by omega]
    congr 2
    push_cast
    ring
  · -- the end of a binade is the beginning of the next one
    rw [if_neg (by omega), show (k - 1074 : ℤ) = ((k + 2 ^ 53 / 2 ^ 52 : ℕ) - 1075 : ℤ) - 1 by
      push_cast; ring, zpow_sub_one₀ (by norm_num)]
    norm_num
    ring

theorem exists_place (n : ℕ) :
    ∃ k m, n = k * 2 ^ 52 + m ∧ m < 2 ^ 53 ∧ (k = 0 ∨ 2 ^ 52 ≤ m) := by
  by_cases h : n < 2 ^ 52
  · exact ⟨0, n, by omega, by omega, .inl rfl⟩
  · exact ⟨n / 2 ^ 52 - 1, 2 ^ 52 + n % 2 ^ 52, by omega, by omega, .inr (by omega)⟩

theorem strictMono_magnitude : StrictMono magnitude := by
  refine strictMono_nat_of_lt_succ fun n => ?_
  obtain ⟨k, m, rfl, hlt, hnormal⟩ := exists_place n
  rw [add_assoc, magnitude_place hlt.le hnormal, magnitude_place (by omega) (by omega)]
  gcongr
  omega

@[simp] theorem magnitude_zero : magnitude 0 = 0 := by simp [magnitude]

theorem magnitude_nonneg (n : ℕ) : 0 ≤ magnitude n :=
  magnitude_zero ▸ strictMono_magnitude.monotone n.zero_le

/-- The natural numbers of at most fifty-three bits have places. -/
theorem exists_magnitude_eq {n : ℕ} (h : n < 2 ^ 53) : ∃ i < places, magnitude i = n := by
  obtain rfl | hpos := Nat.eq_zero_or_pos n
  · exact ⟨0, by decide, by simp⟩
  have hlog : n.log2 < 53 := (Nat.log2_lt hpos.ne').mpr h
  have hle : 2 ^ n.log2 ≤ n := Nat.log2_self_le hpos.ne'
  have hlt : n < 2 ^ (n.log2 + 1) := Nat.lt_log2_self
  have hsplit : 2 ^ n.log2 * 2 ^ (52 - n.log2) = 2 ^ 52 := by
    rw [← pow_add]
    congr 1
    omega
  refine ⟨(1022 + n.log2) * 2 ^ 52 + n * 2 ^ (52 - n.log2), ?_, ?_⟩
  · have : n * 2 ^ (52 - n.log2) < 2 ^ (n.log2 + 1) * 2 ^ (52 - n.log2) := by gcongr
    rw [pow_succ, mul_right_comm, hsplit] at this
    unfold places
    omega
  · have hlow : 2 ^ 52 ≤ n * 2 ^ (52 - n.log2) := hsplit ▸ Nat.mul_le_mul_right _ hle
    have hhigh : n * 2 ^ (52 - n.log2) ≤ 2 ^ 53 := by
      have := Nat.mul_le_mul_right (2 ^ (52 - n.log2)) hlt.le
      rw [pow_succ, mul_right_comm, hsplit] at this
      omega
    rw [magnitude_place hhigh (.inr hlow)]
    push_cast
    rw [mul_assoc, ← zpow_natCast, ← zpow_add₀ (by norm_num)]
    rw [show ((52 - n.log2 : ℕ) : ℤ) + (1022 + n.log2 - 1074) = 0 by omega]
    simp

/-! ## The nearest place -/

/-- A natural number is at most a half from another number, and even if it is a half. -/
structure IsHalfEven (q : ℚ) (m : ℕ) : Prop where
  dist_le : |q - m| ≤ 1 / 2
  even : |q - m| = 1 / 2 → Even m

/-- No place is nearer to the number, and another one as near only if this one is even. -/
def IsNearest (v : ℚ) (n : ℕ) : Prop :=
  ∀ i, |v - magnitude n| < |v - magnitude i| ∨
    |v - magnitude n| = |v - magnitude i| ∧ (i = n ∨ Even n)

section Place
variable {v q : ℚ} {k m n : ℕ}

theorem IsHalfEven.of_lt (h : |q - m| < 1 / 2) : IsHalfEven q m :=
  ⟨h.le, fun heq => absurd heq h.ne⟩

/-- Other natural numbers are farther away, or as far and the half is to the even one. -/
theorem IsHalfEven.nearest (h : IsHalfEven q m) (i : ℕ) :
    |q - m| < |q - i| ∨ |q - m| = |q - i| ∧ (i = m ∨ Even m) := by
  by_cases hi : i = m
  · exact .inr ⟨by rw [hi], .inl hi⟩
  have hone : (1 : ℚ) ≤ |(m : ℚ) - i| := by
    have : (1 : ℤ) ≤ |(m : ℤ) - i| := Int.one_le_abs (by omega)
    exact_mod_cast this
  have htriangle : |(m : ℚ) - i| ≤ |q - m| + |q - i| := by
    rw [abs_sub_comm q m]
    simpa using abs_sub_le (m : ℚ) q i
  have hle := h.dist_le
  rcases lt_or_ge (|q - m|) (|q - i|) with hlt | hge
  · exact .inl hlt
  · exact .inr ⟨by linarith, .inr (h.even (by linarith))⟩

/-- The bounds of a rounded number, where these are natural numbers. -/
theorem IsHalfEven.le_of_le (h : IsHalfEven q m) {a : ℕ} (ha : a ≤ q) : a ≤ m := by
  have := (abs_le.mp h.dist_le).2
  by_contra hlt
  have hle : (m : ℚ) + 1 ≤ a := by exact_mod_cast (by omega : m + 1 ≤ a)
  linarith

theorem IsHalfEven.le_of_ge (h : IsHalfEven q m) {a : ℕ} (ha : q ≤ a) : m ≤ a := by
  have := (abs_le.mp h.dist_le).1
  by_contra hlt
  have hle : (a : ℚ) + 1 ≤ m := by exact_mod_cast (by omega : a + 1 ≤ m)
  linarith

/-- Places before one that does not exceed the number are farther away. -/
theorem dist_lt_of_lt_of_le {i j : ℕ} (hi : i < j) (hj : magnitude j ≤ v) :
    |v - magnitude j| < |v - magnitude i| := by
  have hlt := strictMono_magnitude hi
  rw [abs_of_nonneg (by linarith), abs_of_nonneg (by linarith)]
  linarith

/-- So are those behind one that the number does not exceed. -/
theorem dist_lt_of_le_of_lt {i j : ℕ} (hj : v ≤ magnitude j) (hi : j < i) :
    |v - magnitude j| < |v - magnitude i| := by
  have hlt := strictMono_magnitude hi
  rw [abs_of_nonpos (by linarith), abs_of_nonpos (by linarith)]
  linarith

/-- **Rounding within a binade.** The places outside are farther away than the ends of the
binade. -/
theorem isNearest_place (hm : IsHalfEven q m) (hv : v = q * 2 ^ (k - 1074 : ℤ))
    (hle : q ≤ 2 ^ 53) (hnormal : k = 0 ∨ 2 ^ 52 ≤ q) : IsNearest v (k * 2 ^ 52 + m) := by
  have hmle : m ≤ 2 ^ 53 := hm.le_of_ge (by exact_mod_cast hle)
  have hmnormal : k = 0 ∨ 2 ^ 52 ≤ m := hnormal.imp_right fun h => hm.le_of_le (by exact_mod_cast h)
  have hu : (0 : ℚ) < 2 ^ (k - 1074 : ℤ) := by positivity
  have heven : Even m → Even (k * 2 ^ 52 + m) := by
    intro h
    exact (Even.mul_left (by decide) k).add h
  -- distances to the places of the binade
  have hinside {j : ℕ} (hj : j ≤ 2 ^ 53) (hjnormal : k = 0 ∨ 2 ^ 52 ≤ j) :
      |v - magnitude (k * 2 ^ 52 + j)| = |q - j| * 2 ^ (k - 1074 : ℤ) := by
    rw [magnitude_place hj hjnormal, hv, ← sub_mul, abs_mul, abs_of_pos hu]
  have hend {j : ℕ} (hj : j ≤ 2 ^ 53) (hjnormal : k = 0 ∨ 2 ^ 52 ≤ j) :
      |q - m| * 2 ^ (k - 1074 : ℤ) ≤ |v - magnitude (k * 2 ^ 52 + j)| := by
    rw [hinside hj hjnormal]
    refine mul_le_mul_of_nonneg_right ?_ hu.le
    rcases hm.nearest j with hlt | ⟨heq, -⟩
    · exact hlt.le
    · exact heq.le
  rw [IsNearest, hinside hmle hmnormal]
  intro i
  obtain ⟨hlow, hi⟩ | ⟨j, rfl, hj, hjnormal⟩ | hi :
      (2 ^ 52 ≤ q ∧ i < k * 2 ^ 52 + 2 ^ 52) ∨
        (∃ j, i = k * 2 ^ 52 + j ∧ j ≤ 2 ^ 53 ∧ (k = 0 ∨ 2 ^ 52 ≤ j)) ∨
        k * 2 ^ 52 + 2 ^ 53 < i := by
    by_cases hhigh : k * 2 ^ 52 + 2 ^ 53 < i
    · exact .inr (.inr hhigh)
    · by_cases hlow : k = 0 ∨ k * 2 ^ 52 + 2 ^ 52 ≤ i
      · exact .inr (.inl ⟨i - k * 2 ^ 52, by omega, by omega, by omega⟩)
      · exact .inl ⟨hnormal.resolve_left (by omega), by omega⟩
  · have hbefore : magnitude (k * 2 ^ 52 + 2 ^ 52) ≤ v := by
      rw [magnitude_place (by norm_num) (.inr le_rfl), hv]
      exact mul_le_mul_of_nonneg_right (by exact_mod_cast hlow) hu.le
    exact .inl ((hend (by norm_num) (.inr le_rfl)).trans_lt (dist_lt_of_lt_of_le hi hbefore))
  · rw [hinside hj hjnormal]
    rcases hm.nearest j with hlt | ⟨heq, heven'⟩
    · exact .inl (by gcongr)
    · exact .inr ⟨by rw [heq], heven'.imp (by rintro rfl; rfl) heven⟩
  · have hafter : v ≤ magnitude (k * 2 ^ 52 + 2 ^ 53) := by
      rw [magnitude_place le_rfl (.inr (by norm_num)), hv]
      exact mul_le_mul_of_nonneg_right (by exact_mod_cast hle) hu.le
    exact .inl ((hend le_rfl (.inr (by norm_num))).trans_lt (dist_lt_of_le_of_lt hafter hi))

end Place

/-! ## Doubles -/

/-- The number that a finite double is. -/
def value? (x : Binary64) : Option ℚ :=
  match x.parts with
  | .finite negative significand exponent =>
    some ((if negative then -1 else 1) * significand * 2 ^ exponent)
  | _ => none

/-- Without its sign bit a double is the place of its magnitude. -/
theorem value?_eq (x : Binary64) :
    x.value? = if x.bits.toNat % 2 ^ 63 < places then
      some ((if 2 ^ 63 ≤ x.bits.toNat then -1 else 1) * magnitude (x.bits.toNat % 2 ^ 63))
    else none := by
  have hlt := x.bits.toNat_lt
  unfold value? parts
  generalize x.bits.toNat = n at hlt ⊢
  have hdiv : n % 2 ^ 63 / 2 ^ 52 = n / 2 ^ 52 % 2 ^ 11 := by omega
  have hmod : n % 2 ^ 63 % 2 ^ 52 = n % 2 ^ 52 := by omega
  have hfinite : n % 2 ^ 63 < places ↔ n / 2 ^ 52 % 2 ^ 11 ≠ 0x7FF := by
    unfold places
    omega
  simp only [hfinite, magnitude, hdiv, hmod, Nat.pow_eq]
  by_cases hmax : n / 2 ^ 52 % 2 ^ 11 = 0x7FF
  · rw [if_pos hmax, if_neg (not_not.mpr hmax)]
    split_ifs <;> rfl
  rw [if_neg hmax, if_pos hmax]
  by_cases hzero : n / 2 ^ 52 % 2 ^ 11 = 0
  · have hsmall : n % 2 ^ 63 = n % 2 ^ 52 := by omega
    simp only [if_pos hzero, hsmall, decide_eq_true_eq, mul_assoc]
  · simp only [if_neg hzero, decide_eq_true_eq, mul_assoc]

/-- The places of finite doubles. -/
theorem value?_of_lt {n : ℕ} (h : n < places) :
    (⟨UInt64.ofNat n⟩ : Binary64).value? = some (magnitude n) := by
  have hlt : n < 2 ^ 63 := h.trans (by decide)
  have hbits : (UInt64.ofNat n).toNat = n := UInt64.toNat_ofNat_of_lt (hlt.trans (by decide))
  rw [value?_eq, hbits, Nat.mod_eq_of_lt hlt, if_pos h, if_neg (by omega), one_mul]

/-- A finite double is the number at a place, or the negation of that number. -/
theorem exists_magnitude_of_value? {x : Binary64} {a : ℚ} (h : x.value? = some a) :
    ∃ n < places, x.bits.toNat % 2 ^ 63 = n ∧
      (x.bits.toNat < 2 ^ 63 ∧ a = magnitude n ∨ 2 ^ 63 ≤ x.bits.toNat ∧ a = -magnitude n) := by
  rw [value?_eq] at h
  split at h
  · next hlt =>
    refine ⟨_, hlt, rfl, ?_⟩
    split at h <;> simp at h <;> simp [*] <;> omega
  · simp at h

/-- A double is the nearest one to a number: the one with an even last bit where two are equally
near, and infinity from half a place beyond the largest double on. -/
structure RoundsTo (v : ℚ) (x : Binary64) : Prop where
  /-- The sign bit is not set. -/
  positive : x.bits.toNat < 2 ^ 63
  overflow : 2 ^ 1024 - 2 ^ 970 ≤ v → x = infinity
  nearest : v < 2 ^ 1024 - 2 ^ 970 → ∃ a, x.value? = some a ∧
    ∀ (y : Binary64) (b : ℚ), y.value? = some b →
      |v - a| < |v - b| ∨ |v - a| = |v - b| ∧ (b = a ∨ Even x.bits.toNat)

/-- Half a place beyond the largest double. -/
theorem magnitude_midpoint :
    magnitude (places - 1) + magnitude places = 2 * (2 ^ 1024 - 2 ^ 970) := by
  have hlast : places - 1 = 2045 * 2 ^ 52 + (2 ^ 53 - 1) := by decide
  have hend : places = 2045 * 2 ^ 52 + 2 ^ 53 := by decide
  have hexp : (2 : ℚ) ^ (((2045 : ℕ) : ℤ) - 1074) = 2 ^ 970 * 2 := by
    rw [← pow_succ, ← zpow_natCast]
    norm_num
  have hpow : (2 : ℚ) ^ 1024 = 2 ^ 54 * 2 ^ 970 := by rw [← pow_add]
  rw [hlast, hend, magnitude_place (by norm_num) (.inr (by norm_num)),
    magnitude_place le_rfl (.inr (by norm_num)), hexp, hpow]
  generalize (2 : ℚ) ^ 970 = u
  norm_num
  ring

section Doubles
variable {v : ℚ} {n : ℕ} {x y : Binary64}

/-- The nearest place is that of a finite double up to half a place beyond the largest one. There
the place of infinity is as near, and even. -/
theorem IsNearest.places_le_iff (h : IsNearest v n) : places ≤ n ↔ 2 ^ 1024 - 2 ^ 970 ≤ v := by
  have hmid := magnitude_midpoint
  generalize (2 : ℚ) ^ 1024 - 2 ^ 970 = t at hmid ⊢
  have hlt : magnitude (places - 1) < magnitude places := strictMono_magnitude (by decide)
  constructor
  · intro hn
    by_contra hv
    have hbeyond := strictMono_magnitude.monotone hn
    have hdist : |v - magnitude (places - 1)| < |v - magnitude n| := by
      rw [abs_lt, abs_of_nonpos (by linarith)]
      constructor <;> linarith
    rcases h (places - 1) with hnear | ⟨hnear, -⟩ <;> linarith
  · intro hv
    by_contra hn
    have hwithin : magnitude n ≤ magnitude (places - 1) :=
      strictMono_magnitude.monotone (by omega)
    have hdist : |v - magnitude places| ≤ |v - magnitude n| := by
      rw [abs_le, abs_of_nonneg (by linarith)]
      constructor <;> linarith
    rcases h places with hnear | ⟨hnear, rfl | heven⟩
    · linarith
    · omega
    · -- the two are equally near, so this is the last place, which is odd
      have hlast : magnitude n = magnitude (places - 1) := by
        rw [abs_of_nonneg (by linarith)] at hnear
        rcases abs_cases (v - magnitude places) with ⟨heq, -⟩ | ⟨heq, -⟩ <;> linarith
      rw [strictMono_magnitude.injective hlast] at heven
      exact absurd heven (by decide)

/-- The nearest place to zero is that of zero. -/
theorem IsNearest.magnitude_eq_zero (h : IsNearest 0 n) : magnitude n = 0 := by
  rcases h 0 with hlt | ⟨heq, -⟩
  · rw [magnitude_zero, sub_zero, abs_zero] at hlt
    exact absurd hlt (not_lt.mpr (abs_nonneg _))
  · simpa using heq

/-- A negative number is not nearer than its absolute value. -/
theorem IsNearest.neg (hv : 0 ≤ v) (h : IsNearest v n) (i : ℕ) :
    |v - magnitude n| < |v - -magnitude i| ∨
      |v - magnitude n| = |v - -magnitude i| ∧ (-magnitude i = magnitude n ∨ Even n) := by
  have hfar : |v - magnitude i| ≤ |v - -magnitude i| := by
    have := magnitude_nonneg i
    rw [sub_neg_eq_add, abs_of_nonneg (add_nonneg hv this), abs_le]
    constructor <;> linarith
  rcases h i with hlt | ⟨heq, hi⟩
  · exact .inl (hlt.trans_le hfar)
  rcases hfar.lt_or_eq with hlt | heq'
  · exact .inl (heq.trans_lt hlt)
  refine .inr ⟨heq.trans heq', hi.imp_left ?_⟩
  -- as near as its negation is only zero
  rintro rfl
  have hzero : magnitude i = 0 := by
    rcases abs_eq_abs.mp heq' with heq | heq
    · linarith
    · obtain rfl : v = 0 := by linarith
      exact h.magnitude_eq_zero
  rw [hzero, neg_zero]

/-- **The nearest place is that of the rounded number**, and the places without a finite double are
infinity. -/
theorem roundsTo_of_isNearest (hv : 0 ≤ v) (h : IsNearest v n) :
    RoundsTo v ⟨UInt64.ofNat (min n places)⟩ := by
  have hbits : (UInt64.ofNat (min n places)).toNat = min n places :=
    UInt64.toNat_ofNat_of_lt ((min_le_right _ _).trans_lt (by decide))
  refine ⟨by rw [hbits]; exact (min_le_right _ _).trans_lt (by decide), ?_, ?_⟩
  · intro hover
    rw [min_eq_right (h.places_le_iff.mpr hover)]
    rfl
  · intro hfinite
    have hn : n < places := by
      by_contra hn
      exact absurd hfinite (not_lt.mpr (h.places_le_iff.mp (by omega)))
    rw [min_eq_left hn.le] at hbits ⊢
    refine ⟨_, value?_of_lt hn, fun y b hb => ?_⟩
    simp only [hbits]
    obtain ⟨i, -, -, ⟨-, rfl⟩ | ⟨-, rfl⟩⟩ := exists_magnitude_of_value? hb
    · exact (h i).imp_right (And.imp_right (Or.imp_left (by rintro rfl; rfl)))
    · exact h.neg hv i

/-- A rounded number that is not too large has the nearest place of a finite double. -/
theorem RoundsTo.nearest_place (h : RoundsTo v x) (hv : v < 2 ^ 1024 - 2 ^ 970) :
    x.bits.toNat < places ∧ x.value? = some (magnitude x.bits.toNat) ∧ ∀ i < places,
      |v - magnitude x.bits.toNat| < |v - magnitude i| ∨
        |v - magnitude x.bits.toNat| = |v - magnitude i| ∧
          (i = x.bits.toNat ∨ Even x.bits.toNat) := by
  obtain ⟨a, ha, hnear⟩ := h.nearest hv
  have hpositive := h.positive
  obtain ⟨n, hn, hmod, ⟨-, rfl⟩ | ⟨hneg, -⟩⟩ := exists_magnitude_of_value? ha
  · rw [Nat.mod_eq_of_lt hpositive] at hmod
    subst hmod
    refine ⟨hn, ha, fun i hi => ?_⟩
    refine (hnear _ _ (value?_of_lt hi)).imp_right (And.imp_right (Or.imp_left fun heq => ?_))
    exact strictMono_magnitude.injective heq
  · omega

theorem RoundsTo.bits_not_lt (hx : RoundsTo v x) (hy : RoundsTo v y) (hv : v < 2 ^ 1024 - 2 ^ 970) :
    ¬x.bits.toNat < y.bits.toNat := by
  intro hlt
  obtain ⟨hxlt, -, hxnear⟩ := hx.nearest_place hv
  obtain ⟨hylt, -, hynear⟩ := hy.nearest_place hv
  -- both are equally near and even, so there is a place between them, which is nearer
  have hdist : |v - magnitude x.bits.toNat| = |v - magnitude y.bits.toNat| := by
    rcases hxnear _ hylt with h | h <;> rcases hynear _ hxlt with h' | h' <;> grind
  have hxeven : Even x.bits.toNat := by
    rcases hxnear _ hylt with h | ⟨-, h⟩
    · exact absurd hdist h.ne
    · exact h.resolve_left hlt.ne'
  have hyeven : Even y.bits.toNat := by
    rcases hynear _ hxlt with h | ⟨-, h⟩
    · exact absurd hdist.symm h.ne
    · exact h.resolve_left hlt.ne
  have hbetween : x.bits.toNat + 1 < y.bits.toNat := by grind
  have hlow := strictMono_magnitude (Nat.lt_add_one x.bits.toNat)
  have hhigh := strictMono_magnitude hbetween
  have hnearer : |v - magnitude (x.bits.toNat + 1)| < |v - magnitude x.bits.toNat| := by
    rcases abs_eq_abs.mp hdist with heq | heq
    · linarith
    · rw [abs_lt, abs_of_nonneg (by linarith)]
      constructor <;> linarith
  rcases hxnear (x.bits.toNat + 1) (by omega) with h | ⟨h, -⟩ <;> linarith

/-- **A number is rounded to one double only.** -/
theorem RoundsTo.unique (hx : RoundsTo v x) (hy : RoundsTo v y) : x = y := by
  rcases le_or_gt (2 ^ 1024 - 2 ^ 970) v with hv | hv
  · rw [hx.overflow hv, hy.overflow hv]
  have hbits : x.bits.toNat = y.bits.toNat :=
    le_antisymm (not_lt.mp (hy.bits_not_lt hx hv)) (not_lt.mp (hx.bits_not_lt hy hv))
  cases x
  cases y
  rw [mk.injEq]
  exact UInt64.toNat_inj.mp hbits

/-- What is a finite double is not rounded. -/
theorem RoundsTo.value?_eq (h : RoundsTo v x) (hn : n < places) (hv : v = magnitude n) :
    x.value? = some v := by
  have hfinite : v < 2 ^ 1024 - 2 ^ 970 := by
    have hmid := magnitude_midpoint
    have hlast := strictMono_magnitude.monotone (show n ≤ places - 1 by omega)
    have hlt : magnitude (places - 1) < magnitude places := strictMono_magnitude (by decide)
    generalize (2 : ℚ) ^ 1024 - 2 ^ 970 = t at hmid ⊢
    linarith
  obtain ⟨-, hx, hnear⟩ := h.nearest_place hfinite
  rw [hx]
  have hzero : |v - magnitude x.bits.toNat| ≤ 0 := by
    have := hnear n hn
    rw [hv, sub_self, abs_zero] at this
    rw [hv]
    rcases this with h | ⟨h, -⟩
    · exact h.le
    · exact h.le
  rw [abs_nonpos_iff, sub_eq_zero] at hzero
  rw [← hzero]

end Doubles

/-- Numbers beyond the largest double round to infinity. -/
theorem roundsTo_infinity {v : ℚ} (h : 2 ^ 1024 ≤ v) : RoundsTo v infinity := by
  have hpos : (0 : ℚ) < 2 ^ 970 := by positivity
  have hle : 2 ^ 1024 - 2 ^ 970 ≤ v := (sub_le_self _ hpos.le).trans h
  exact ⟨by decide, fun _ => rfl, fun hlt => absurd hlt (not_lt.mpr hle)⟩

/-- Numbers of at most half the least place round to zero. -/
theorem roundsTo_zero {v : ℚ} (hv : 0 ≤ v) (h : v ≤ 2 ^ (-1075 : ℤ)) : RoundsTo v zero := by
  have hu : (0 : ℚ) < 2 ^ (-1074 : ℤ) := by positivity
  have hhalf : v / 2 ^ (-1074 : ℤ) ≤ 1 / 2 := by
    rw [div_le_iff₀ hu, one_div, ← zpow_neg_one, ← zpow_add₀ (by norm_num)]
    exact h
  have hround : IsHalfEven (v / 2 ^ (-1074 : ℤ)) 0 := by
    refine ⟨?_, fun _ => .zero⟩
    rw [Nat.cast_zero, sub_zero, abs_of_nonneg (by positivity)]
    exact hhalf
  refine roundsTo_of_isNearest (n := 0 * 2 ^ 52 + 0) hv (isNearest_place hround ?_ ?_ (.inl rfl))
  · exact (div_mul_cancel₀ _ hu.ne').symm
  · linarith

/-! ## Quotients -/

section Quotients
variable {a b : ℕ}

/-- The quotient of natural numbers is rounded half to even. -/
theorem isHalfEven_roundDiv (hb : 0 < b) : IsHalfEven (a / b : ℚ) (roundDiv a b) := by
  have hbpos : (0 : ℚ) < b := by exact_mod_cast hb
  have hsplit : (a / b : ℚ) = (a / b : ℕ) + (a % b : ℕ) / b := by
    rw [eq_comm, add_comm, div_add' _ _ _ hbpos.ne']
    congr 1
    exact_mod_cast Nat.mod_add_div' a b
  rw [hsplit]
  unfold roundDiv
  dsimp only
  generalize a / b = q
  have hlt : a % b < b := Nat.mod_lt a hb
  generalize a % b = r at hlt ⊢
  have hone : (r / b : ℚ) < 1 := (div_lt_one hbpos).mpr (by exact_mod_cast hlt)
  have hnonneg : (0 : ℚ) ≤ r / b := by positivity
  split_ifs with hlow hhigh
  · have hhalf : (r / b : ℚ) < 1 / 2 := by
      rw [div_lt_div_iff₀ hbpos (by norm_num)]
      exact_mod_cast (by omega : r * 2 < 1 * b)
    exact .of_lt (by rw [abs_lt]; constructor <;> linarith)
  · have hhalf : (1 / 2 : ℚ) < r / b := by
      rw [div_lt_div_iff₀ (by norm_num) hbpos]
      exact_mod_cast (by omega : 1 * b < r * 2)
    exact .of_lt (by rw [abs_lt]; constructor <;> push_cast <;> linarith)
  · have hhalf : (r / b : ℚ) = 1 / 2 := by
      rw [div_eq_div_iff hbpos.ne' (by norm_num)]
      exact_mod_cast (by omega : r * 2 = 1 * b)
    refine ⟨?_, fun _ => by rw [Nat.even_iff]; omega⟩
    rcases Nat.mod_two_eq_zero_or_one q with h | h <;> rw [hhalf, h] <;> norm_num

/-- The logarithm of a quotient, rounded down. -/
theorem zpow_floorLog2_le (ha : 0 < a) (hb : 0 < b) :
    2 ^ floorLog2 a b ≤ (a / b : ℚ) ∧ (a / b : ℚ) < 2 ^ (floorLog2 a b + 1) := by
  have hbpos : (0 : ℚ) < b := by exact_mod_cast hb
  have hreached (k : ℤ) : (2 : ℚ) ^ k ≤ a / b ↔
      if 0 ≤ k then b * 2 ^ k.toNat ≤ a else b ≤ a * 2 ^ (-k).toNat := by
    rw [le_div_iff₀ hbpos]
    split
    · next hk =>
      obtain ⟨n, rfl⟩ := Int.eq_ofNat_of_zero_le hk
      rw [zpow_natCast, mul_comm]
      exact_mod_cast Iff.rfl
    · next hk =>
      obtain ⟨n, hn⟩ := Int.eq_ofNat_of_zero_le (show 0 ≤ -k by omega)
      rw [hn, ← neg_neg k, hn, zpow_neg, zpow_natCast, inv_mul_le_iff₀ (by positivity), mul_comm]
      exact_mod_cast Iff.rfl
  have hlow : (2 : ℚ) ^ ((a.log2 : ℤ) - b.log2 - 1) ≤ a / b := by
    have hnum : (2 : ℚ) ^ (a.log2 : ℤ) ≤ a := by
      rw [zpow_natCast]
      exact_mod_cast Nat.log2_self_le ha.ne'
    have hden : (b : ℚ) ≤ 2 ^ (b.log2 + 1 : ℤ) := by
      exact_mod_cast Nat.lt_log2_self.le
    rw [sub_sub, zpow_sub₀ (by norm_num)]
    gcongr
  have hhigh : (a / b : ℚ) < 2 ^ ((a.log2 : ℤ) - b.log2 + 1) := by
    have hnum : (a : ℚ) < 2 ^ (a.log2 + 1 : ℤ) := by
      exact_mod_cast Nat.lt_log2_self
    have hden : (2 : ℚ) ^ (b.log2 : ℤ) ≤ b := by
      rw [zpow_natCast]
      exact_mod_cast Nat.log2_self_le hb.ne'
    rw [sub_add_eq_add_sub, zpow_sub₀ (by norm_num)]
    gcongr
  unfold floorLog2
  dsimp only
  generalize (a.log2 : ℤ) - b.log2 = k at hlow hhigh ⊢
  simp only [Nat.pow_eq, ← hreached]
  split
  · next h => exact ⟨h, hhigh⟩
  · next h => exact ⟨hlow, by rw [sub_add_cancel]; exact not_le.mp h⟩

/-- **Quotients are rounded.** -/
theorem roundsTo_ofRatio (hb : 0 < b) : RoundsTo (a / b) (ofRatio a b) := by
  unfold ofRatio
  split
  · next ha =>
    subst ha
    rw [Nat.cast_zero, zero_div]
    exact roundsTo_zero le_rfl (by positivity)
  next ha =>
  obtain ⟨hlow, hhigh⟩ := zpow_floorLog2_le (Nat.pos_of_ne_zero ha) hb
  have hplace : lastPlace a b = max (-1074) (floorLog2 a b - 52) := rfl
  dsimp only
  generalize lastPlace a b = e at hplace ⊢
  have hm : IsHalfEven (a / b / 2 ^ e : ℚ)
      (if 0 ≤ e then roundDiv a (b * Nat.pow 2 e.toNat)
        else roundDiv (a * Nat.pow 2 (-e).toNat) b) := by
    split
    · next he =>
      obtain ⟨n, rfl⟩ := Int.eq_ofNat_of_zero_le he
      rw [zpow_natCast, div_div]
      exact_mod_cast isHalfEven_roundDiv (a := a) (Nat.mul_pos hb (Nat.pow_pos Nat.two_pos))
    · next he =>
      obtain ⟨n, hn⟩ := Int.eq_ofNat_of_zero_le (show 0 ≤ -e by omega)
      rw [hn, ← neg_neg e, hn, zpow_neg, zpow_natCast, div_inv_eq_mul, div_mul_eq_mul_div]
      exact_mod_cast isHalfEven_roundDiv (a := a * 2 ^ n) hb
  generalize (if 0 ≤ e then roundDiv a (b * Nat.pow 2 e.toNat)
    else roundDiv (a * Nat.pow 2 (-e).toNat) b) = m at hm ⊢
  have hk : ((e + 1074).toNat : ℤ) - 1074 = e := by omega
  have hpow (n : ℕ) : (2 : ℚ) ^ n * 2 ^ e = 2 ^ (n + e) := by
    rw [zpow_add₀ (by norm_num), zpow_natCast]
  apply roundsTo_of_isNearest (by positivity)
  refine isNearest_place hm ?_ ?_ ?_
  · rw [hk, div_mul_cancel₀ _ (by positivity)]
  · rw [div_le_iff₀ (by positivity), hpow]
    refine hhigh.le.trans (zpow_le_zpow_right₀ (by norm_num) ?_)
    push_cast
    omega
  · refine or_iff_not_imp_left.mpr fun hne => ?_
    rw [le_div_iff₀ (by positivity), hpow]
    refine le_trans (zpow_le_zpow_right₀ (by norm_num) ?_) hlow
    push_cast
    omega

end Quotients

/-! ## Numbers that are not rounded -/

section Exact
variable {a b : ℚ} {n : ℕ} {x y : Binary64}

theorem roundsTo_ofNat (n : ℕ) : RoundsTo n (ofNat n) := by
  simpa [ofNat] using roundsTo_ofRatio (a := n) one_pos

theorem value?_of_roundsTo_natCast (hlt : n < 2 ^ 53) (h : RoundsTo n x) : x.value? = some n := by
  obtain ⟨i, hi, heq⟩ := exists_magnitude_eq hlt
  exact h.value?_eq hi heq.symm

theorem value?_ofNat (hlt : n < 2 ^ 53) : (ofNat n).value? = some n :=
  value?_of_roundsTo_natCast hlt (roundsTo_ofNat n)

/-- The quotient that the magnitude of a finite double is. -/
theorem exists_toRatio?_of_value? (h : x.value? = some a) (ha : 0 ≤ a) :
    ∃ p q, x.toRatio? = some (p, q) ∧ 0 < q ∧ a = p / q := by
  rw [value?] at h
  rw [toRatio?]
  cases hparts : x.parts with
  | nan => simp [hparts] at h
  | infinite negative => simp [hparts] at h
  | finite negative m e =>
    rw [hparts] at h
    have hvalue : a = m * 2 ^ e := by
      obtain rfl := Option.some.inj h
      cases negative with
      | false => simp
      | true =>
        -- a number that is negated and not negative is zero
        have hm : (0 : ℚ) ≤ m * 2 ^ e := by positivity
        simp only [if_true, neg_mul, one_mul] at ha ⊢
        linarith
    rw [hvalue]
    dsimp only
    split
    · next he =>
      obtain ⟨n, rfl⟩ := Int.eq_ofNat_of_zero_le he
      exact ⟨_, _, rfl, one_pos, by simp⟩
    · next he =>
      obtain ⟨n, hn⟩ := Int.eq_ofNat_of_zero_le (show 0 ≤ -e by omega)
      refine ⟨_, _, rfl, Nat.pow_pos Nat.two_pos, ?_⟩
      rw [hn, ← neg_neg e, hn, zpow_neg, zpow_natCast, ← div_eq_mul_inv]
      simp

/-- Products and sums of magnitudes are rounded. -/
theorem roundsTo_mul (hx : x.value? = some a) (hy : y.value? = some b) (ha : 0 ≤ a) (hb : 0 ≤ b) :
    RoundsTo (a * b) (x.mul y) := by
  obtain ⟨p, q, hp, hq, rfl⟩ := exists_toRatio?_of_value? hx ha
  obtain ⟨r, s, hr, hs, rfl⟩ := exists_toRatio?_of_value? hy hb
  rw [mul, hp, hr, div_mul_div_comm]
  exact_mod_cast roundsTo_ofRatio (Nat.mul_pos hq hs)

theorem roundsTo_add (hx : x.value? = some a) (hy : y.value? = some b) (ha : 0 ≤ a) (hb : 0 ≤ b) :
    RoundsTo (a + b) (x.add y) := by
  obtain ⟨p, q, hp, hq, rfl⟩ := exists_toRatio?_of_value? hx ha
  obtain ⟨r, s, hr, hs, rfl⟩ := exists_toRatio?_of_value? hy hb
  rw [add, hp, hr, div_add_div _ _ (by positivity) (by positivity)]
  have := roundsTo_ofRatio (a := p * s + r * q) (Nat.mul_pos hq hs)
  push_cast at this
  rwa [mul_comm (q : ℚ) r]

end Exact

end EcmaLex.Binary64
