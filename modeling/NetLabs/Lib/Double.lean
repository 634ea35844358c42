import Mathlib.Data.Int.Log
import Mathlib.Data.Rat.Floor
import Mathlib.Tactic.Linarith
import Mathlib.Tactic.FieldSimp
import Mathlib.Tactic.Ring

/-!
# Rounding to `double`

The value of an operation on doubles, in their normal range: the exact value rounded to the nearest multiple of its
unit in the last place, halves to the even multiple.  Small integers are exact (`round_natCast`), and `ceil` of a
rounded quotient of integers is `ceil` of the quotient when the quotient is far enough from the precision of a double
(`ceil_round_div`).
-/

namespace Double

/-- The nearest integer; halves go to the even one. -/
def nearest (q : ℚ) : ℤ :=
  if 2 * Int.fract q < 1 then ⌊q⌋
  else if 1 < 2 * Int.fract q ∨ ⌊q⌋ % 2 = 1 then ⌊q⌋ + 1
  else ⌊q⌋

/-- The unit in the last place of a number: it has 53 significant bits. -/
def ulp (q : ℚ) : ℚ := 2 ^ (Int.log 2 |q| - 52)

/-- Rounding to a double. -/
def round (q : ℚ) : ℚ := nearest (q / ulp q) * ulp q

theorem nearest_intCast (k : ℤ) : nearest k = k := by
  simp [nearest]

theorem abs_nearest_sub (q : ℚ) : |(nearest q : ℚ) - q| ≤ 1 / 2 := by
  have hq : q = ⌊q⌋ + Int.fract q := (Int.floor_add_fract q).symm
  have h0 := Int.fract_nonneg q
  have h1 := Int.fract_lt_one q
  unfold nearest
  rw [abs_le]
  split
  · constructor <;> linarith
  · split
    · push_cast
      constructor <;> linarith
    · rename_i hup
      rw [not_or, not_lt] at hup
      constructor <;> linarith [hup.1]

theorem ulp_pos (q : ℚ) : 0 < ulp q := zpow_pos (by norm_num) _

/-- Rounding moves a number by half a unit in the last place at most. -/
theorem abs_round_sub (q : ℚ) : |round q - q| ≤ ulp q / 2 := by
  have hu := ulp_pos q
  have hsplit : round q - q = (nearest (q / ulp q) - q / ulp q) * ulp q := by
    rw [round]
    field_simp
  rw [hsplit, abs_mul, abs_of_pos hu]
  have := mul_le_mul_of_nonneg_right (abs_nearest_sub (q / ulp q)) hu.le
  linarith

theorem ulp_le {q : ℚ} {k : ℕ} (h0 : 0 < q) (hk : q < 2 ^ k) : ulp q ≤ 2 ^ ((k : ℤ) - 53) := by
  have hlog : Int.log 2 |q| < k := by
    rw [abs_of_pos h0]
    refine (Int.lt_zpow_iff_log_lt (by norm_num) h0).1 ?_
    exact_mod_cast hk
  exact zpow_le_zpow_right₀ (by norm_num) (by omega)

theorem ulp_le_self {q : ℚ} (h0 : 0 < q) : ulp q ≤ q := by
  have hlog : (2 : ℚ) ^ Int.log 2 q ≤ q := by exact_mod_cast Int.zpow_log_le_self (b := 2) (by norm_num) h0
  rw [ulp, abs_of_pos h0]
  exact (zpow_le_zpow_right₀ (by norm_num) (by omega)).trans hlog

/-- Rounding does not make a number much smaller. -/
theorem half_le_round {q : ℚ} (h0 : 0 < q) : q / 2 ≤ round q := by
  have hround := abs_le.1 (abs_round_sub q)
  have hulp := ulp_le_self h0
  linarith [hround.1]

/-- An integer of at most 53 bits is a double. -/
theorem round_natCast {n : ℕ} (hn : n < 2 ^ 53) : round n = n := by
  obtain ⟨m, hm⟩ : ∃ m : ℤ, (n : ℚ) / ulp n = m := by
    have hlog : Nat.log 2 n ≤ 52 := by
      rcases Nat.eq_zero_or_pos n with rfl | hpos
      · simp
      · exact Nat.le_of_lt_succ (Nat.log_lt_of_lt_pow (by omega) hn)
    refine ⟨n * 2 ^ (52 - Nat.log 2 n), ?_⟩
    have hexp : ((Nat.log 2 n : ℕ) : ℤ) - 52 = -((52 - Nat.log 2 n : ℕ) : ℤ) := by omega
    rw [ulp, Nat.abs_cast, Int.log_natCast, hexp, zpow_neg, zpow_natCast, div_inv_eq_mul]
    push_cast
    rfl
  have hu := ulp_pos n
  rw [round, hm, nearest_intCast, ← hm]
  field_simp

@[simp] theorem round_zero : round 0 = 0 := by
  simpa using round_natCast (n := 0) (by norm_num)

/-- `ceil` of a quotient does not feel the rounding. -/
theorem ceil_round_div {n d k : ℕ} (hd : 0 < d) (hn : n < d * 2 ^ k) (hk : d * 2 ^ k ≤ 2 ^ 53) :
    ⌈round ((n : ℚ) / d)⌉ = ⌈(n : ℚ) / d⌉ := by
  have hd' : (0 : ℚ) < d := by exact_mod_cast hd
  by_cases hdvd : d ∣ n
  · obtain ⟨m, rfl⟩ := hdvd
    have hm : m < 2 ^ 53 := by
      have : d * m < d * 2 ^ k := hn
      have : m < 2 ^ k := Nat.lt_of_mul_lt_mul_left this
      have : 2 ^ k ≤ d * 2 ^ k := Nat.le_mul_of_pos_left _ hd
      omega
    have hquot : ((d * m : ℕ) : ℚ) / d = m := by
      push_cast
      field_simp
    rw [hquot, round_natCast hm]
  · -- the quotient is at least `1 / d` away from the integers on both sides
    have hpos : 0 < n := Nat.pos_of_ne_zero fun h => hdvd (h ▸ Nat.dvd_zero d)
    have hq : (0 : ℚ) < n / d := div_pos (by exact_mod_cast hpos) hd'
    have hlt : (n : ℚ) / d < 2 ^ k := by
      rw [div_lt_iff₀ hd', mul_comm]
      exact_mod_cast hn
    have herror : |round ((n : ℚ) / d) - n / d| * d ≤ 1 / 2 := by
      have hround := (abs_round_sub ((n : ℚ) / d)).trans (div_le_div_of_nonneg_right (ulp_le hq hlt) (by norm_num))
      have hscale := mul_le_mul_of_nonneg_right hround hd'.le
      have hpow : (2 : ℚ) ^ ((k : ℤ) - 53) * d ≤ 1 := by
        rw [zpow_sub₀ (by norm_num), zpow_natCast, div_mul_eq_mul_div, div_le_one (by positivity), mul_comm]
        exact_mod_cast hk
      calc |round ((n : ℚ) / d) - n / d| * d ≤ 2 ^ ((k : ℤ) - 53) / 2 * d := hscale
        _ = 2 ^ ((k : ℤ) - 53) * d / 2 := by ring
        _ ≤ 1 / 2 := by linarith
    have hbelow : (n : ℚ) + 1 ≤ ⌈(n : ℚ) / d⌉ * d := by
      have hle := (div_le_iff₀ hd').1 (Int.le_ceil ((n : ℚ) / d))
      have hne : (n : ℤ) ≠ ⌈(n : ℚ) / d⌉ * d := fun h =>
        hdvd (Int.natCast_dvd_natCast.1 ⟨⌈(n : ℚ) / d⌉, by rw [h]; ring⟩)
      have hint : (n : ℤ) ≤ ⌈(n : ℚ) / d⌉ * d := by exact_mod_cast hle
      exact_mod_cast Int.add_one_le_of_lt (lt_of_le_of_ne hint hne)
    have habove : ((⌈(n : ℚ) / d⌉ : ℚ) - 1) * d + 1 ≤ n := by
      have hlt := (lt_div_iff₀ hd').1 (sub_lt_iff_lt_add.2 (Int.ceil_lt_add_one ((n : ℚ) / d)))
      have hint : (⌈(n : ℚ) / d⌉ - 1) * (d : ℤ) < n := by exact_mod_cast hlt
      exact_mod_cast Int.add_one_le_of_lt hint
    have hquot : (n : ℚ) / d * d = n := div_mul_cancel₀ _ hd'.ne'
    rw [← abs_of_pos hd', ← abs_mul, abs_of_pos hd', abs_le, sub_mul, hquot] at herror
    refine Int.ceil_eq_iff.2 ⟨?_, ?_⟩
    · refine lt_of_mul_lt_mul_right (a := (d : ℚ)) ?_ hd'.le
      linarith [herror.1]
    · refine le_of_mul_le_mul_right (a := (d : ℚ)) ?_ hd'
      linarith [herror.2]

end Double
