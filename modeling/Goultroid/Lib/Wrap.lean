import Mathlib.Data.Int.ModEq

/-!
# Accounts in wrapping arithmetic

An account is charged and refunded in 64-bit arithmetic, and a refund that leaves nothing positive
clears it. While no sum leaves the range the account is the outstanding.
-/

namespace Wrap

def refund (account amount : Int64) : Int64 := if account - amount ≤ 0 then 0 else account - amount

section Exact

variable {account amount : Int64}

theorem toInt_charge (haccount : 0 ≤ account.toInt) (hamount : 0 ≤ amount.toInt) (hsum : account.toInt + amount.toInt < 2 ^ 63) :
    (account + amount).toInt = account.toInt + amount.toInt := by
  rw [Int64.toInt_add]
  apply Int.bmod_eq_of_le <;> omega

theorem toInt_refund (hamount : 0 ≤ amount.toInt) (hle : amount.toInt ≤ account.toInt) :
    (refund account amount).toInt = account.toInt - amount.toInt := by
  have hlt := account.toInt_lt
  have hleft : (account - amount).toInt = account.toInt - amount.toInt := by
    rw [Int64.toInt_sub]
    apply Int.bmod_eq_of_le <;> omega
  unfold refund
  split_ifs with hnone
  · rw [Int64.le_iff_toInt_le, hleft, Int64.toInt_zero] at hnone
    rw [Int64.toInt_zero]
    omega
  · exact hleft

end Exact

end Wrap
