import Mathlib
import CodeIndex.Store.Session

/-!
# Sums that leave the signed numbers

Tokens are unsigned 64 bit numbers, and are counted as the signed numbers with the same bits. Two of them add up
to the signed number for their sum, unless both are below the end of the signed numbers and their sum is not: then
the sum is rounded. Rounding keeps 53 bits, so it may take something from either of the two and from their sum.
It never takes so much that the result would be a signed number again (`le_round_add`, `le_round`).

Main results:
  * `add_exact` — sums that do not cross the end of the signed numbers in this way are exact;
  * `add_crossing`, `add_rounded` — those that do are rounded, and stay so.
-/

namespace CodeIndex.Served

/-! ## §1. Exact sums. -/

variable {sum n : Nat}

/-- Two numbers below the end of the signed numbers, the sum of which is not. -/
def Crosses (sum n : Nat) : Prop := sum < signedEnd ∧ n < signedEnd ∧ signedEnd ≤ sum + n

/-- **A sum that does not cross** the end of the signed numbers is exact. -/
theorem add_exact (hfits : sum + n < unsignedEnd) (h : ¬ Crosses sum n) :
    (Served.exact (signed64 sum)).add (signed64 n) = .exact (signed64 (sum + n)) := by
  have hsum : signed64 sum + signed64 n = signed64 (sum + n) := by
    unfold Crosses signedEnd at h
    unfold unsignedEnd at hfits
    unfold signed64 signedEnd unsignedEnd
    split_ifs <;> omega
  have hsigned : isSigned64 (signed64 (sum + n)) = true := by
    unfold unsignedEnd at hfits
    unfold isSigned64 signed64 signedEnd unsignedEnd
    rw [Bool.and_eq_true, decide_eq_true_eq, decide_eq_true_eq]
    split_ifs <;> omega
  unfold add
  simp only [hsum, hsigned, if_true]

/-- What is exact is read as it is. -/
theorem tokens_exact (h : sum < unsignedEnd) : (Served.exact (signed64 sum)).tokens = .ok sum := by
  have hsame : unsigned64 (signed64 sum) = sum := by
    unfold unsignedEnd at h
    unfold unsigned64 signed64 signedEnd unsignedEnd
    split_ifs <;> omega
  show Except.ok (unsigned64 (signed64 sum)) = _
  rw [hsame]

/-! ## §2. Rounding. -/

/-- The distance between rounded numbers of a size. -/
def unit (m : Nat) : Nat := 2 ^ (Nat.log2 m + 1 - precision)

theorem unit_pos (m : Nat) : 0 < unit m := Nat.two_pow_pos _

/-- A number is rounded to a multiple of the unit that is no more than half a unit below it, and even if it is half
a unit below. -/
theorem round_natCast (m : Nat) : ∃ c : Nat, round (m : Int) = ((c * unit m : Nat) : Int) ∧ m / unit m ≤ c ∧
    2 * m ≤ 2 * (c * unit m) + unit m ∧ (2 * m = 2 * (c * unit m) + unit m → c % 2 = 0) := by
  have hsplit : m = m / unit m * unit m + m % unit m := by
    rw [Nat.mul_comm]
    exact (Nat.div_add_mod m (unit m)).symm
  have hrest : m % unit m < unit m := Nat.mod_lt _ (unit_pos m)
  have hround : round (m : Int) = (((if unit m < 2 * (m % unit m)
      || (2 * (m % unit m) == unit m && m / unit m % 2 == 1) then m / unit m + 1 else m / unit m) * unit m : Nat)
        : Int) := by
    unfold round
    rw [Int.natAbs_natCast, if_neg (Int.not_lt.mpr (Int.natCast_nonneg m))]
    rfl
  by_cases hup : (decide (unit m < 2 * (m % unit m))
      || (2 * (m % unit m) == unit m && m / unit m % 2 == 1)) = true
  · refine ⟨m / unit m + 1, by rw [hround, if_pos hup], Nat.le_succ _, ?_, ?_⟩
    · rw [Nat.add_mul]
      omega
    · intro htie
      rw [Nat.add_mul] at htie
      omega
  · refine ⟨m / unit m, by rw [hround, if_neg hup], le_rfl, ?_, ?_⟩
    · simp only [Bool.or_eq_true, decide_eq_true_eq, not_or] at hup
      omega
    · intro htie
      simp only [Bool.or_eq_true, decide_eq_true_eq, Bool.and_eq_true, beq_iff_eq, not_or, not_and] at hup
      have hhalf : 2 * (m % unit m) = unit m := by omega
      have hodd := hup.2 hhalf
      omega

theorem unit_upper {m : Nat} (h : 4611686018427387904 ≤ m) (h' : m < signedEnd) : unit m = 1024 := by
  have hlog : Nat.log2 m = 62 := by
    rw [Nat.log2_eq_iff (by omega)]
    unfold signedEnd at h'
    omega
  unfold unit
  rw [hlog]
  rfl

theorem unit_lower {m : Nat} (h : m < 4611686018427387904) : unit m ∣ 512 := by
  have hlog : Nat.log2 m < 62 := by
    by_cases hzero : m = 0
    · rw [hzero]
      decide
    · rw [Nat.log2_lt hzero]
      exact h
  show 2 ^ _ ∣ 2 ^ 9
  apply Nat.pow_dvd_pow
  unfold precision
  omega

/-- A number from the end of the signed numbers on is not rounded to less: its unit divides the greatest power of
two in it. -/
theorem le_round_of_le {m : Nat} (h : signedEnd ≤ m) : (signedEnd : Int) ≤ round (m : Int) := by
  obtain ⟨c, hround, hquotient, -⟩ := round_natCast m
  have hne : m ≠ 0 := by
    unfold signedEnd at h
    omega
  have hlog : 63 ≤ Nat.log2 m := by
    rw [Nat.le_log2 hne]
    exact h
  have hpower : 2 ^ 52 * unit m = 2 ^ Nat.log2 m := by
    unfold unit precision
    rw [← Nat.pow_add]
    congr 1
    omega
  have hmany : 2 ^ 52 ≤ m / unit m := by
    rw [Nat.le_div_iff_mul_le (unit_pos m), hpower]
    exact Nat.log2_self_le hne
  rw [hround]
  norm_cast
  calc signedEnd = 2 ^ 63 := rfl
    _ ≤ 2 ^ Nat.log2 m := Nat.pow_le_pow_right (by decide) hlog
    _ = 2 ^ 52 * unit m := hpower.symm
    _ ≤ c * unit m := Nat.mul_le_mul_right _ (hmany.trans hquotient)

/-- **Rounding does not lead back** below the end of the signed numbers: half a unit before it is rounded up. -/
theorem le_round {y : Int} (h : (signedEnd : Int) ≤ y + 512) : (signedEnd : Int) ≤ round y := by
  obtain ⟨m, rfl⟩ : ∃ m : Nat, y = m := by
    unfold signedEnd at h
    exact ⟨y.toNat, by omega⟩
  by_cases hpast : signedEnd ≤ m
  · exact le_round_of_le hpast
  · have hbelow : m < signedEnd := Nat.not_le.mp hpast
    obtain ⟨c, hround, -, herror, htie⟩ := round_natCast m
    rw [hround]
    norm_cast at h ⊢
    rw [unit_upper (by unfold signedEnd at h; omega) hbelow] at herror htie ⊢
    unfold signedEnd at h hbelow ⊢
    omega

/-- Two rounded numbers are short of the end by no more than half of the greater unit, if the smaller unit divides
that half: what is missing is then a multiple of the smaller one. -/
theorem le_add_of_dvd {a b u : Nat} (hdvd : u ∣ 512)
    (hshort : 2 * signedEnd ≤ 2 * (a * 1024) + 1024 + (2 * (b * u) + u)) :
    signedEnd ≤ a * 1024 + b * u + 512 := by
  by_contra hmissing
  have hmultiple : u ∣ signedEnd - (a * 1024 + b * u + 512) := by
    apply Nat.dvd_sub
    · exact hdvd.trans (by decide)
    · have hwhole : u ∣ a * 1024 := Dvd.dvd.mul_left (hdvd.trans (by decide)) a
      exact (hwhole.add (Nat.dvd_mul_left u b)).add hdvd
  have hleast := Nat.le_of_dvd (by omega) hmultiple
  omega

/-- Rounding two numbers takes no more than half a unit from a sum that crosses the end of the signed numbers. -/
theorem le_round_add (h : Crosses sum n) : (signedEnd : Int) ≤ round (sum : Int) + round (n : Int) + 512 := by
  -- the sum is symmetric, so let the first number be the greater one
  wlog hle : n ≤ sum generalizing sum n
  · have hswapped : Crosses n sum := ⟨h.2.1, h.1, by rw [Nat.add_comm]; exact h.2.2⟩
    have hother := this hswapped (Nat.le_of_not_le hle)
    rwa [Int.add_comm (round (n : Int))] at hother
  obtain ⟨hsum, hn, hend⟩ := h
  obtain ⟨a, hround, hquotient, herror, -⟩ := round_natCast sum
  obtain ⟨b, hround', hquotient', herror', -⟩ := round_natCast n
  have hupper : 4611686018427387904 ≤ sum := by
    unfold signedEnd at hend
    omega
  rw [hround, hround']
  norm_cast
  rw [unit_upper hupper hsum] at hquotient herror ⊢
  by_cases hboth : 4611686018427387904 ≤ n
  · -- neither is rounded to less than half of the end
    rw [unit_upper hboth hn] at hquotient' herror' ⊢
    unfold signedEnd
    omega
  · exact le_add_of_dvd (unit_lower (Nat.not_le.mp hboth)) (by omega)

/-! ## §3. Rounded sums. -/

theorem ofRounded_eq {x : Int} (h : (signedEnd : Int) ≤ x) : ofRounded x = .rounded x := by
  have hpast : isSigned64 (x + 1) = false := by
    unfold isSigned64
    rw [Bool.and_eq_false_iff]
    right
    rw [decide_eq_false_iff_not]
    omega
  unfold ofRounded
  rw [hpast, Bool.and_false, if_neg Bool.false_ne_true]

/-- **A sum that crosses** the end of the signed numbers is rounded. -/
theorem add_crossing (h : Crosses sum n) :
    ∃ x, (Served.exact (signed64 sum)).add (signed64 n) = .rounded x ∧ (signedEnd : Int) ≤ x := by
  have hx := le_round (le_round_add h)
  obtain ⟨hsum, hn, hend⟩ := h
  have hout : isSigned64 ((sum : Int) + (n : Int)) = false := by
    unfold isSigned64
    rw [Bool.and_eq_false_iff]
    right
    rw [decide_eq_false_iff_not]
    omega
  refine ⟨_, ?_, hx⟩
  unfold signed64
  rw [if_pos hsum, if_pos hn]
  unfold add
  simp only [hout, Bool.false_eq_true, if_false]
  exact ofRounded_eq hx

/-- **A rounded sum** stays one as it grows. -/
theorem add_rounded {x : Int} (hx : (signedEnd : Int) ≤ x) (hn : n < signedEnd) :
    ∃ y, (Served.rounded x).add (signed64 n) = .rounded y ∧ (signedEnd : Int) ≤ y := by
  obtain ⟨c, hround, -⟩ := round_natCast n
  have hy : (signedEnd : Int) ≤ round (x + round (n : Int)) := by
    apply le_round
    rw [hround]
    omega
  refine ⟨_, ?_, hy⟩
  unfold signed64
  rw [if_pos hn]
  exact ofRounded_eq hy

end CodeIndex.Served
