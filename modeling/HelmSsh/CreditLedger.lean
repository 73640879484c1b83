/-
# Window credit as a ledger

A sender that may have at most a window of unconfirmed units keeps each unit in
one of four accounts: free to take, held by a transmission under way, lent to
the other side, and owed back once the other side has confirmed it.  Whatever
the order of the moves, a unit is only ever moved, so the four accounts add up
to the window (`CreditLedger.reach_total`).

Nothing here depends on how the accounts are stored: a component shows that each
of its steps is a few moves of this ledger and inherits the sum.
-/

import Mathlib.Logic.Relation
import Mathlib.Tactic.Common

/-- The four accounts of a window of credit. -/
structure CreditLedger where
  /-- Credit that a transmission can take. -/
  free : ℕ
  /-- Credit taken by a transmission that has not been counted as sent. -/
  held : ℕ
  /-- Credit of what was sent and not confirmed. -/
  lent : ℕ
  /-- Credit that was confirmed and not made free again. -/
  owed : ℕ
  deriving DecidableEq

namespace CreditLedger

/-- The credit of all four accounts. -/
def total (l : CreditLedger) : ℕ :=
  l.free + l.held + l.lent + l.owed

/-- One transfer of `k` units from an account to the next, told by the accounts
before and after. -/
inductive Move (l l' : CreditLedger) : Prop
  /-- A transmission takes free credit. -/
  | take (k : ℕ) (hfree : l.free = l'.free + k) (hheld : l'.held = l.held + k)
      (hlent : l'.lent = l.lent) (howed : l'.owed = l.owed)
  /-- A transmission is given up and its credit is free again. -/
  | giveBack (k : ℕ) (hfree : l'.free = l.free + k) (hheld : l.held = l'.held + k)
      (hlent : l'.lent = l.lent) (howed : l'.owed = l.owed)
  /-- A transmission is counted as sent. -/
  | lend (k : ℕ) (hfree : l'.free = l.free) (hheld : l.held = l'.held + k)
      (hlent : l'.lent = l.lent + k) (howed : l'.owed = l.owed)
  /-- The other side confirms. -/
  | settle (k : ℕ) (hfree : l'.free = l.free) (hheld : l'.held = l.held)
      (hlent : l.lent = l'.lent + k) (howed : l'.owed = l.owed + k)
  /-- Confirmed credit is made free. -/
  | repay (k : ℕ) (hfree : l'.free = l.free + k) (hheld : l'.held = l.held)
      (hlent : l'.lent = l.lent) (howed : l.owed = l'.owed + k)

/-- Any number of moves. -/
abbrev Reach : CreditLedger → CreditLedger → Prop :=
  Relation.ReflTransGen Move

theorem Move.total_eq {l l' : CreditLedger} (h : Move l l') : l'.total = l.total := by
  cases h <;> simp only [total] <;> omega

/-- **Credit is conserved** by any sequence of moves. -/
theorem reach_total {l l' : CreditLedger} (h : Reach l l') : l'.total = l.total := by
  induction h with
  | refl => rfl
  | tail _ hmove ih => rw [hmove.total_eq, ih]

end CreditLedger
