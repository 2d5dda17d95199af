import MailThread.Number.Binary64
import Mathlib.Algebra.Order.Ring.Rat
import Mathlib.Tactic.FieldSimp

namespace MailThread.Binary64

theorem nearestEven_one (n : Nat) : nearestEven n 1 = n := by
  simp [nearestEven, Nat.mod_one]

theorem lt_limit {n : Nat} (h : n < 2 ^ 53) : (n : Rat) < (limit : Rat) := by
  have hlimit : 2 ^ 53 ≤ limit := by decide +kernel
  exact Nat.cast_lt.2 (h.trans_le hlimit)

theorem unitExponent_whole {n : Nat} (hn : n ≠ 0) : unitExponent n 1 = (n.log2 : Int) - 52 := by
  have hlow : 2 ^ n.log2 ≤ n := Nat.log2_self_le hn
  have hone : Nat.log2 1 = 0 := by decide
  unfold unitExponent
  simp only [hone, Nat.cast_zero, sub_zero, Nat.cast_nonneg, if_true, Int.toNat_natCast, one_mul,
    Nat.pow_eq, hlow, decide_true]
  rw [if_neg (by omega)]

theorem roundQuotient_whole {n : Nat} (hn : n ≠ 0) (h : n < 2 ^ 53) : roundQuotient n 1 = n := by
  have hlog : n.log2 < 53 := (Nat.log2_lt hn).2 h
  unfold roundQuotient
  rw [unitExponent_whole hn]
  -- the unit is one or a part of one, so that no bit is lost
  obtain he | he : (n.log2 : Int) - 52 = 0 ∨ (n.log2 : Int) - 52 < 0 := by omega
  · have hvalue : nearestEven n (1 * Nat.pow 2 (0 : Int).toNat) * Nat.pow 2 (0 : Int).toNat = n := by
      change nearestEven n 1 * 1 = n
      rw [nearestEven_one, Nat.mul_one]
    rw [he]
    simp only [le_refl, if_true, hvalue, if_pos (lt_limit h)]
  · have hvalue : ∀ k, mkRat (nearestEven (n * Nat.pow 2 k) 1) (Nat.pow 2 k) = n := by
      intro k
      rw [nearestEven_one, Rat.mkRat_eq_div, Nat.pow_eq]
      push_cast
      field_simp
    simp only [if_neg (not_le.2 he), hvalue, if_pos (lt_limit h)]

theorem round_whole {n : Int} (h : n.natAbs < 2 ^ 53) : round n = n := by
  unfold round
  rw [Rat.num_intCast, Rat.den_intCast]
  obtain hneg | rfl | hpos := lt_trichotomy n 0
  · rw [if_neg hneg.ne, if_neg hneg.le.not_gt, roundQuotient_whole (by omega) h, ← Int.cast_natCast,
      Int.ofNat_natAbs_of_nonpos hneg.le, Int.cast_neg, neg_neg]
  · rfl
  · rw [if_neg hpos.ne', if_pos hpos, roundQuotient_whole (by omega) h, ← Int.cast_natCast,
      Int.natAbs_of_nonneg hpos.le]

theorem truncate_intCast (n : Int) : truncate (n : Rat) = n := by
  simp [truncate]

theorem truncate_natCast (n : Nat) : truncate (n : Rat) = n := truncate_intCast n

end MailThread.Binary64
