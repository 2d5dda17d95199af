namespace MailThread.Binary64

/-- The natural number nearest to `n / d`, a half going to the even neighbour. -/
def nearestEven (n d : Nat) : Nat :=
  let q := n / d
  let r := n % d
  if 2 * r < d then q
  else if d < 2 * r then q + 1
  else if q % 2 = 0 then q else q + 1

/-- Stands for every number too large for the format. -/
def limit : Nat := Nat.pow 2 1024

/-- The exponent of the last bit kept of `n / d`, for positive `n` and `d`. -/
def unitExponent (n d : Nat) : Int :=
  let k : Int := (n.log2 : Int) - d.log2
  let reached : Bool :=
    if 0 ≤ k then d * Nat.pow 2 k.toNat ≤ n else d ≤ n * Nat.pow 2 (-k).toNat
  let e := (if reached then k else k - 1) - 52
  if e < -1074 then -1074 else e

def roundQuotient (n d : Nat) : Rat :=
  let e := unitExponent n d
  let value : Rat :=
    if 0 ≤ e then (nearestEven n (d * Nat.pow 2 e.toNat) * Nat.pow 2 e.toNat : Nat)
    else mkRat (nearestEven (n * Nat.pow 2 (-e).toNat) d) (Nat.pow 2 (-e).toNat)
  if value < (limit : Rat) then value else (limit : Rat)

/-- The 64-bit number nearest to `q`, a half going to the even neighbour; beyond the format it is
`limit` with the sign of `q`. The format has 53 significant bits and the least unit `2 ^ (-1074)`.
Numbers are exact rationals elsewhere: only arithmetic on dates has to lose bits. -/
def round (q : Rat) : Rat :=
  if q.num = 0 then 0
  else if 0 < q.num then roundQuotient q.num.natAbs q.den
  else -roundQuotient q.num.natAbs q.den

def isFinite (q : Rat) : Bool :=
  -(limit : Rat) < q && q < (limit : Rat)

def isWhole (q : Rat) : Bool :=
  q.den = 1 && isFinite q

def sub (a b : Rat) : Rat := round (a - b)

def mul (a b : Rat) : Rat := round (a * b)

def div (a b : Rat) : Rat := round (a / b)

def truncate (q : Rat) : Int :=
  Int.tdiv q.num q.den

end MailThread.Binary64
