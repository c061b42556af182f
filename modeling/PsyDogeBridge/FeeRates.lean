import PsyDogeBridge.ProgramState

/-! The fee of an amount against the exact integer, and how the fees and the net amounts of two
amounts compare. -/
namespace FeeRates

open ProgramState

variable {total flat num den : UInt64} {r : FeeResult}

def exactFee (total flat num den : UInt64) : ℕ :=
  total.toNat * num.toNat / den.toNat + flat.toNat

theorem product_lt (total num : UInt64) : total.toNat * num.toNat ≤ (2 ^ 64 - 1) * (2 ^ 64 - 1) :=
  Nat.mul_le_mul (Nat.le_pred_of_lt total.toNat_lt) (Nat.le_pred_of_lt num.toNat_lt)

theorem exactFee_lt (total flat num den : UInt64) : exactFee total flat num den < 2 ^ 128 := by
  have hproduct := product_lt total num
  have hquotient := Nat.div_le_self (total.toNat * num.toNat) den.toNat
  have hflat := flat.toNat_lt
  unfold exactFee
  omega

/-- The checks of the 128-bit steps never fail; only the cut to 64 bits can lose something. -/
theorem calcuateFee_eq (hden : den ≠ 0) :
    calcuateFee total flat num den =
      if UInt64.ofNat (exactFee total flat num den) ≤ total then
        some ⟨UInt64.ofNat (exactFee total flat num den),
          total - UInt64.ofNat (exactFee total flat num den)⟩
      else none := by
  have hnat : den.toNat ≠ 0 := fun h0 => hden (UInt64.toNat_inj.mp h0)
  have hproduct : total.toNat * num.toNat < 2 ^ 128 := by
    have hle := product_lt total num
    omega
  have hsum : total.toNat * num.toNat / den.toNat + flat.toNat < 2 ^ 128 :=
    exactFee_lt total flat num den
  simp only [calcuateFee, checked128, checkedDiv, if_pos hproduct, if_neg hnat,
    Option.bind_eq_bind, Option.bind_some, if_pos hsum]
  rfl

theorem calcuateFee_eq_some :
    calcuateFee total flat num den = some r ↔ den ≠ 0 ∧
      r.feesGenerated.toNat = exactFee total flat num den % 2 ^ 64 ∧
      r.amountAfterFees.toNat + r.feesGenerated.toNat = total.toNat := by
  have hcut : (UInt64.ofNat (exactFee total flat num den)).toNat =
      exactFee total flat num den % 2 ^ 64 := UInt64.toNat_ofNat'
  constructor
  · intro h
    have hden := calcuateFee_den h
    refine ⟨hden, ?_, calcuateFee_add h⟩
    rw [calcuateFee_eq hden] at h
    split at h
    · cases h
      exact hcut
    · cases h
  · rintro ⟨hden, hfees, hadd⟩
    have hfee : UInt64.ofNat (exactFee total flat num den) = r.feesGenerated :=
      UInt64.toNat_inj.mp (hcut.trans hfees.symm)
    have hle : r.feesGenerated ≤ total := UInt64.le_iff_toNat_le.mpr (by omega)
    have hnet : total - r.feesGenerated = r.amountAfterFees := by
      apply UInt64.toNat_inj.mp
      rw [UInt64.toNat_sub_of_le _ _ hle]
      omega
    rw [calcuateFee_eq hden, hfee, if_pos hle, hnet]

/-- A result is there exactly if the exact fee can be paid, and then it has that fee. -/
structure Exact (result : Option FeeResult) (total flat num den : UInt64) : Prop where
  isSome : result.isSome = true ↔ den ≠ 0 ∧ exactFee total flat num den ≤ total.toNat
  fees : ∀ r ∈ result, r.feesGenerated.toNat = exactFee total flat num den
  net : ∀ r ∈ result, r.amountAfterFees.toNat = total.toNat - exactFee total flat num den

theorem calcuateFee_isSome :
    (calcuateFee total flat num den).isSome = true ↔
      den ≠ 0 ∧ exactFee total flat num den % 2 ^ 64 ≤ total.toNat := by
  rw [Option.isSome_iff_exists]
  constructor
  · rintro ⟨r, hr⟩
    obtain ⟨hden, hfees, hadd⟩ := calcuateFee_eq_some.mp hr
    exact ⟨hden, by omega⟩
  · rintro ⟨hden, hle⟩
    have hcut : UInt64.ofNat (exactFee total flat num den) ≤ total :=
      UInt64.le_iff_toNat_le.mpr (UInt64.toNat_ofNat'.trans_le hle)
    exact ⟨_, (calcuateFee_eq hden).trans (if_pos hcut)⟩

theorem exact_calcuateFee_iff :
    Exact (calcuateFee total flat num den) total flat num den ↔
      den = 0 ∨ exactFee total flat num den < 2 ^ 64 ∨
        total.toNat < exactFee total flat num den % 2 ^ 64 := by
  have htotal := total.toNat_lt
  constructor
  · intro h
    by_cases hden : den = 0
    · exact .inl hden
    by_cases hcut : exactFee total flat num den % 2 ^ 64 ≤ total.toNat
    · obtain ⟨-, hle⟩ := h.isSome.mp (calcuateFee_isSome.mpr ⟨hden, hcut⟩)
      exact .inr (.inl (by omega))
    · exact .inr (.inr (by omega))
  · intro h
    refine ⟨?_, ?_, ?_⟩
    · rw [calcuateFee_isSome]
      rcases h with rfl | h | h
      · simp
      · rw [Nat.mod_eq_of_lt h]
      · have hmod := Nat.mod_le (exactFee total flat num den) (2 ^ 64)
        constructor
        · rintro ⟨-, hle⟩
          omega
        · rintro ⟨-, hle⟩
          omega
    all_goals
      intro r hr
      obtain ⟨hden, hfees, hadd⟩ := calcuateFee_eq_some.mp hr
      have hlt : exactFee total flat num den < 2 ^ 64 := by
        rcases h with h | h | h
        · exact absurd h hden
        · exact h
        · omega
      rw [Nat.mod_eq_of_lt hlt] at hfees
      omega

/-- The functions compute the exact fee on all inputs but those on which the cut to 64 bits turns
a fee that cannot be paid into one that can. -/
theorem fees_exact_iff (total flat num den : UInt64) :
    Exact (calcuateDepositFee total flat num den) total flat num den ∧
        Exact (calcuateWithdrawalFee total flat num den) total flat num den ↔
      den = 0 ∨ exactFee total flat num den < 2 ^ 64 ∨
        total.toNat < exactFee total flat num den % 2 ^ 64 := by
  constructor
  · rintro ⟨h, -⟩
    exact exact_calcuateFee_iff.mp h
  · intro h
    exact ⟨exact_calcuateFee_iff.mpr h, exact_calcuateFee_iff.mpr h⟩

/-- A flat fee of `2 ^ 64 - 1` and a rate of one: ten sats pay nine. -/
theorem unpayable_fee_paid :
    calcuateDepositFee 10 18446744073709551615 1 1 = some ⟨9, 1⟩ ∧
      calcuateWithdrawalFee 10 18446744073709551615 1 1 = some ⟨9, 1⟩ ∧
      exactFee 10 18446744073709551615 1 1 = 2 ^ 64 + 9 := by
  decide +kernel

section Splitting

variable {a b : UInt64}

/-- Rounding down twice loses at most one unit against rounding down once. -/
theorem add_div_le (x y : ℕ) {d : ℕ} (hd : 0 < d) : (x + y) / d ≤ x / d + y / d + 1 := by
  rw [Nat.add_div hd]
  split <;> omega

theorem exactFee_mono (hrate : num ≤ den) (hden : 0 < den.toNat) (h : a ≤ b) :
    exactFee a flat num den ≤ exactFee b flat num den ∧
      exactFee b flat num den + a.toNat ≤ exactFee a flat num den + b.toNat := by
  have hle := UInt64.le_iff_toNat_le.mp h
  have hrate' := UInt64.le_iff_toNat_le.mp hrate
  obtain ⟨k, hk⟩ := Nat.exists_eq_add_of_le hle
  have hsplit : b.toNat * num.toNat = a.toNat * num.toNat + k * num.toNat := by
    rw [hk, Nat.add_mul]
  have hgrowth : (a.toNat * num.toNat + k * num.toNat) / den.toNat ≤
      a.toNat * num.toNat / den.toNat + k := by
    have hk : k * num.toNat ≤ k * den.toNat := Nat.mul_le_mul_left k hrate'
    calc (a.toNat * num.toNat + k * num.toNat) / den.toNat
        ≤ (a.toNat * num.toNat + k * den.toNat) / den.toNat :=
          Nat.div_le_div_right (Nat.add_le_add_left hk _)
      _ = a.toNat * num.toNat / den.toNat + k := Nat.add_mul_div_right _ _ hden
  have hmono : a.toNat * num.toNat / den.toNat ≤ b.toNat * num.toNat / den.toNat :=
    Nat.div_le_div_right (hsplit ▸ Nat.le_add_right _ _)
  unfold exactFee
  rw [hsplit] at hmono ⊢
  omega

theorem net_mono {ra rb : FeeResult} (hrate : num ≤ den) (h : a ≤ b)
    (ha : calcuateFee a flat num den = some ra) (hb : calcuateFee b flat num den = some rb) :
    ra.amountAfterFees ≤ rb.amountAfterFees := by
  obtain ⟨hden, hafees, haadd⟩ := calcuateFee_eq_some.mp ha
  obtain ⟨-, hbfees, hbadd⟩ := calcuateFee_eq_some.mp hb
  have hpos : 0 < den.toNat := Nat.pos_of_ne_zero fun h0 => hden (UInt64.toNat_inj.mp h0)
  obtain ⟨hmono, hgrowth⟩ : exactFee a flat num den ≤ exactFee b flat num den ∧
      exactFee b flat num den + a.toNat ≤ exactFee a flat num den + b.toNat :=
    exactFee_mono hrate hpos h
  have hle := UInt64.le_iff_toNat_le.mp h
  rw [UInt64.le_iff_toNat_le]
  -- where only the larger fee is cut, the cut raises the net amount of the larger amount
  omega

theorem fee_subadditive {ra rb : FeeResult} (hflat : 1 ≤ flat)
    (hfits : a.toNat + b.toNat < 2 ^ 64) (hfee : exactFee (a + b) flat num den < 2 ^ 64)
    (ha : calcuateFee a flat num den = some ra) (hb : calcuateFee b flat num den = some rb) :
    ∃ r, calcuateFee (a + b) flat num den = some r ∧
      r.feesGenerated.toNat ≤ ra.feesGenerated.toNat + rb.feesGenerated.toNat ∧
      ra.amountAfterFees.toNat + rb.amountAfterFees.toNat ≤ r.amountAfterFees.toNat := by
  obtain ⟨hden, hafees, haadd⟩ := calcuateFee_eq_some.mp ha
  obtain ⟨-, hbfees, hbadd⟩ := calcuateFee_eq_some.mp hb
  have hpos : 0 < den.toNat := Nat.pos_of_ne_zero fun h0 => hden (UInt64.toNat_inj.mp h0)
  have hflat' : 1 ≤ flat.toNat := UInt64.le_iff_toNat_le.mp hflat
  have hsum : (a + b).toNat = a.toNat + b.toNat := by
    rw [UInt64.toNat_add, Nat.mod_eq_of_lt hfits]
  have hproduct : (a + b).toNat * num.toNat = a.toNat * num.toNat + b.toNat * num.toNat := by
    rw [hsum, Nat.add_mul]
  have hslack := add_div_le (a.toNat * num.toNat) (b.toNat * num.toNat) hpos
  have hparts : a.toNat * num.toNat / den.toNat + b.toNat * num.toNat / den.toNat ≤
      (a.toNat * num.toNat + b.toNat * num.toNat) / den.toNat := Nat.div_add_div_le_add_div
  obtain ⟨r, hr⟩ : ∃ r, calcuateFee (a + b) flat num den = some r := by
    rw [← Option.isSome_iff_exists, calcuateFee_isSome]
    refine ⟨hden, ?_⟩
    unfold exactFee at hafees hbfees hfee ⊢
    rw [hproduct] at hfee ⊢
    -- the fee of the sum is not cut, so neither are those of the parts
    generalize a.toNat * num.toNat / den.toNat = x at *
    generalize b.toNat * num.toNat / den.toNat = y at *
    omega
  obtain ⟨-, hfees, hadd⟩ := calcuateFee_eq_some.mp hr
  refine ⟨r, hr, ?_⟩
  unfold exactFee at hafees hbfees hfee hfees
  rw [hproduct] at hfee hfees
  generalize a.toNat * num.toNat / den.toNat = x at *
  generalize b.toNat * num.toNat / den.toNat = y at *
  omega

/-- With a flat fee and a rate of at most one nobody pays less by splitting an amount, and a larger
amount never leaves a smaller net amount. -/
theorem splitting_costs {fee : UInt64 → UInt64 → UInt64 → UInt64 → Option FeeResult}
    (hfunction : fee = calcuateDepositFee ∨ fee = calcuateWithdrawalFee) {num den flat : UInt64}
    (hrate : num ≤ den) (hflat : 1 ≤ flat) :
    (∀ b c : UInt64, b.toNat + c.toNat < 2 ^ 64 →
      (b.toNat + c.toNat) * num.toNat / den.toNat + flat.toNat < 2 ^ 64 →
      ∀ rb rc, fee b flat num den = some rb → fee c flat num den = some rc →
        ∃ r, fee (b + c) flat num den = some r ∧
          r.feesGenerated.toNat ≤ rb.feesGenerated.toNat + rc.feesGenerated.toNat ∧
          rb.amountAfterFees.toNat + rc.amountAfterFees.toNat ≤ r.amountAfterFees.toNat) ∧
    ∀ b c rb rc, b ≤ c → fee b flat num den = some rb → fee c flat num den = some rc →
      rb.amountAfterFees ≤ rc.amountAfterFees := by
  obtain rfl : fee = calcuateFee := by
    rcases hfunction with rfl | rfl
    · rfl
    · rfl
  constructor
  · intro b c hfits hfee rb rc hb hc
    refine fee_subadditive hflat hfits ?_ hb hc
    rw [exactFee, UInt64.toNat_add, Nat.mod_eq_of_lt hfits]
    exact hfee
  · intro b c rb rc hle hb hc
    exact net_mono hrate hle hb hc

/-- One percent and ten sats, on 150 and 250 sats. -/
theorem splitting_costs_400 :
    ∃ r, calcuateDepositFee (150 + 250) 10 1 100 = some r ∧
      r.feesGenerated.toNat ≤ (11 : UInt64).toNat + (12 : UInt64).toNat ∧
      (139 : UInt64).toNat + (238 : UInt64).toNat ≤ r.amountAfterFees.toNat := by
  have hsplit := (splitting_costs (.inl rfl) (by decide : (1 : UInt64) ≤ 100)
    (by decide : (1 : UInt64) ≤ 10)).1
  exact hsplit 150 250 (by decide) (by decide) ⟨11, 139⟩ ⟨12, 238⟩ (by decide +kernel)
    (by decide +kernel)

end Splitting

end FeeRates
