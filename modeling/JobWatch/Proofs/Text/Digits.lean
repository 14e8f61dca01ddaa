import JobWatch.Text.Digits

/-!
# Decimal forms hold digits

The decimal form of a number, padded or not, consists of digits, and the number is read off them
whatever zeros stand in front. Zeros behind it count.
-/

set_option autoImplicit false

namespace JobWatch.Text

theorem isDigit_digitChar {d : Nat} (h : d < 10) : isDigit (digitChar d) = true := by
  have all : ∀ e ∈ List.range 10, isDigit (digitChar e) = true := by decide
  exact all d (List.mem_range.mpr h)

theorem isDigit_of_mem_decimal (n : Nat) : ∀ c ∈ decimal n, isDigit c = true := by
  induction n using Nat.strongRecOn with
  | ind n ih =>
    intro c hc
    rw [decimal] at hc
    by_cases hsmall : n < 10
    · rw [if_pos hsmall, List.mem_singleton] at hc
      rw [hc]
      exact isDigit_digitChar hsmall
    · rw [if_neg hsmall, List.mem_append, List.mem_singleton] at hc
      cases hc with
      | inl hfront => exact ih (n / 10) (by omega) c hfront
      | inr hlast =>
        rw [hlast]
        exact isDigit_digitChar (Nat.mod_lt n (by omega))

theorem length_decimal_of_lt {n : Nat} (hn : n < 10) : (decimal n).length = 1 := by
  rw [decimal, if_pos hn, List.length_singleton]

theorem length_decimal_le (width : Nat) :
    ∀ n, n < Nat.pow 10 (width + 1) → (decimal n).length ≤ width + 1 := by
  induction width with
  | zero =>
    intro n hn
    have hone := length_decimal_of_lt hn
    omega
  | succ width ih =>
    intro n hn
    by_cases hsmall : n < 10
    · have hone := length_decimal_of_lt hsmall
      omega
    · have hpow : Nat.pow 10 (width + 1 + 1) = Nat.pow 10 (width + 1) * 10 := rfl
      have hfront := ih (n / 10) (by omega)
      rw [decimal, if_neg hsmall, List.length_append, List.length_singleton]
      omega

theorem isDigit_of_mem_padded (width n : Nat) : ∀ c ∈ padded width n, isDigit c = true := by
  intro c hc
  rw [padded, List.mem_append] at hc
  cases hc with
  | inl hzero =>
    rw [List.eq_of_mem_replicate hzero]
    decide
  | inr hdigit => exact isDigit_of_mem_decimal n c hdigit

theorem length_padded {width n : Nat} (h : (decimal n).length ≤ width) :
    (padded width n).length = width := by
  rw [padded, List.length_append, List.length_replicate]
  omega

theorem padded_ne_nil (width n : Nat) : padded width n ≠ [] := by
  have hdecimal : decimal n ≠ [] := by
    rw [decimal]
    by_cases hsmall : n < 10 <;> simp [hsmall]
  simp [padded, hdecimal]

theorem ofDecimal_padded (width n : Nat) : ofDecimal (padded width n) = n := by
  have hzeros : ∀ k, (List.replicate k '0').foldl (fun v c => 10 * v + digitValue c) 0 = 0 := by
    intro k
    induction k with
    | zero => rfl
    | succ k ih =>
      rw [List.replicate_succ, List.foldl_cons]
      exact ih
  rw [padded, ofDecimal, List.foldl_append, hzeros]
  exact ofDecimal_decimal n

theorem ofDecimal_append_zeros (digits : List Char) (k : Nat) :
    ofDecimal (digits ++ List.replicate k '0') = ofDecimal digits * Nat.pow 10 k := by
  induction k with
  | zero => simp
  | succ k ih =>
    have hpow : Nat.pow 10 (k + 1) = Nat.pow 10 k * 10 := rfl
    have hzero : digitValue '0' = 0 := by decide
    rw [List.replicate_succ', ← List.append_assoc, ofDecimal_append_one, ih, hzero, hpow]
    rw [Nat.add_zero, Nat.mul_comm 10, Nat.mul_assoc]

end JobWatch.Text
