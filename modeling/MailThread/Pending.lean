namespace MailThread

/-- What the stack of a walk holds: an entry that is still to be gone to, and the number of links on the
way down to it. -/
structure Pending (α : Type) where
  entry : α
  depth : Nat
deriving DecidableEq, Repr

namespace Pending

variable {α : Type} {stack : List (Pending α)} {entries : List α} {bound : Nat}

/-- Entries that lie one link below one at `depth`, the first of them on top. -/
def below (depth : Nat) (entries : List α) : List (Pending α) := entries.map (⟨·, depth + 1⟩)

/-- A bound for what is left of a walk in which at most `bound` entries lie below any other, and none
lies `bound` links down. -/
def weight (bound : Nat) : List (Pending α) → Nat
  | [] => 0
  | p :: stack => Nat.pow (bound + 1) (bound - p.depth) + weight bound stack

theorem weight_below_append (depth : Nat) (entries : List α) :
    weight bound (below depth entries ++ stack) =
      entries.length * Nat.pow (bound + 1) (bound - (depth + 1)) + weight bound stack := by
  induction entries with
  | nil => rw [List.length_nil, Nat.zero_mul, Nat.zero_add, below, List.map_nil, List.nil_append]
  | cons e entries ih =>
    rw [below, List.map_cons, List.cons_append, weight, ← below, ih, List.length_cons, Nat.succ_mul,
      Nat.add_comm _ (Nat.pow _ _), Nat.add_assoc]

theorem weight_below_lt {p : Pending α} (hlen : entries.length ≤ bound) (hdepth : p.depth < bound) :
    weight bound (below p.depth entries ++ stack) < weight bound (p :: stack) := by
  have hpow : Nat.pow (bound + 1) (bound - p.depth) =
      Nat.pow (bound + 1) (bound - (p.depth + 1)) * (bound + 1) := by
    rw [show bound - p.depth = bound - (p.depth + 1) + 1 by omega]
    rfl
  have hpos : 0 < Nat.pow (bound + 1) (bound - (p.depth + 1)) := Nat.pow_pos (Nat.succ_pos bound)
  have hle := Nat.mul_le_mul_right (Nat.pow (bound + 1) (bound - (p.depth + 1))) hlen
  rw [weight_below_append, weight, hpow, Nat.mul_succ, Nat.mul_comm _ bound]
  omega

end Pending

end MailThread
