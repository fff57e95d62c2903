import Mathlib.Tactic

/-!
Token buckets that fill at a rate and let debts be paid by waiting.

* `Conforms rate start b`: what was paid and what is left does not exceed what the time since
  `start` was worth, besides a rounding of less than the rate for each debt.
* `Conforms.pay`, `Conforms.owe`, `Conforms.reset`: what a payment, a debt and another clock do.

An account is conforming when everything that came in, the time since the start at the rate, covers
what went out and what is left; a payment lowers the tokens by what it adds to the paid.  A debt
sets the clock ahead by the missing tokens divided by the rate, which rounds down, and so gives away
less than the rate each time.
-/

namespace TokenBucket

/-- The time up to which a bucket was filled, its tokens, what was paid, the number of debts, and
the time that counted twice because the clock was set back. -/
structure Account where
  clock : ℕ
  tokens : ℕ
  paid : ℕ
  debts : ℕ
  twice : ℕ

variable {rate now available cost tokens : ℕ} {start b : Account}

/-- What was paid since `start` is not more than the time was worth. -/
def Conforms (rate : ℕ) (start b : Account) : Prop :=
  b.paid + b.tokens + rate * (start.clock + start.twice) + start.debts * (rate - 1)
    ≤ start.paid + start.tokens + rate * (b.clock + b.twice) + b.debts * (rate - 1)

lemma Conforms.refl (rate : ℕ) (b : Account) : Conforms rate b b := le_refl _

/-- A payment that the tokens are enough for; some of the rest may be lost. -/
theorem Conforms.pay (h : Conforms rate start b) (hclock : b.clock ≤ now)
    (havailable : available ≤ b.tokens + rate * (now - b.clock)) (hcost : cost ≤ available)
    (htokens : tokens ≤ available - cost) :
    Conforms rate start { b with clock := now, tokens := tokens, paid := b.paid + cost } := by
  rw [Conforms] at h ⊢
  dsimp only
  have hfill : rate * (now - b.clock) + rate * (b.clock + b.twice) = rate * (now + b.twice) := by
    rw [← Nat.mul_add]
    congr 1
    omega
  omega

/-- A payment that exceeds the tokens; the debt is paid by waiting. -/
theorem Conforms.owe (h : Conforms rate start b) (hrate : 0 < rate) (hclock : b.clock ≤ now)
    (havailable : available ≤ b.tokens + rate * (now - b.clock)) (hcost : available < cost) :
    Conforms rate start { b with clock := now + (cost - available) / rate
                                 tokens := 0
                                 paid := b.paid + cost
                                 debts := b.debts + 1 } := by
  rw [Conforms] at h ⊢
  dsimp only
  have hwait : cost - available ≤ rate * ((cost - available) / rate) + (rate - 1) := by
    have := Nat.div_add_mod (cost - available) rate
    have := Nat.mod_lt (cost - available) hrate
    omega
  have hfill : rate * (now - b.clock) + rate * (b.clock + b.twice) = rate * (now + b.twice) := by
    rw [← Nat.mul_add]
    congr 1
    omega
  have hlong : rate * (now + (cost - available) / rate + b.twice)
      = rate * (now + b.twice) + rate * ((cost - available) / rate) := by
    rw [← Nat.mul_add]
    congr 1
    omega
  rw [Nat.add_one_mul, hlong]
  omega

/-- More debts allow for more rounding. -/
lemma Conforms.mono {debts : ℕ} (h : Conforms rate start b) (hdebts : b.debts ≤ debts) :
    Conforms rate start { b with debts := debts } := by
  rw [Conforms] at h ⊢
  dsimp only
  have := Nat.mul_le_mul_right (rate - 1) hdebts
  omega

/-- Another clock; time that the bucket was filled for already counts twice. -/
theorem Conforms.reset {clock twice : ℕ} (h : Conforms rate start b)
    (hclock : b.clock + b.twice ≤ clock + twice) :
    Conforms rate start { b with clock := clock, twice := twice } := by
  rw [Conforms] at h ⊢
  dsimp only
  have := Nat.mul_le_mul_left rate hclock
  omega

end TokenBucket
