import Polyshield.Vault.Conservation

/-!
# The token of the Vault

Each call makes at most one transfer of the token, between the Vault and one
other account (`moved_exec`).
-/

namespace Polyshield

variable {F Proof Sig : Type} [Field F] [DecidableEq F] {E : Env F Proof Sig}

/-! ## The transfer of a call -/

structure Transfer where
  src : Address
  dst : Address
  amount : ℕ

def Transfer.apply (t : Transfer) (balanceOf : Address → ℕ) : Address → ℕ :=
  movedBalances balanceOf t.src t.dst t.amount

theorem Transfer.apply_dst {t : Transfer} (hne : t.dst ≠ t.src) (b : Address → ℕ) :
    t.apply b t.dst = b t.dst + t.amount := by
  simp [Transfer.apply, movedBalances, hne]

theorem Transfer.apply_src {t : Transfer} (hne : t.dst ≠ t.src) (b : Address → ℕ) :
    t.apply b t.src = b t.src - t.amount := by
  simp [Transfer.apply, movedBalances, hne.symm]

def Call.transfer? (E : Env F Proof Sig) (m : Msg) (s : VaultState F) :
    Call F Proof Sig → Option Transfer
  | .deposit _ _ amount => some ⟨m.sender, E.vault, amount⟩
  | .withdraw _ inputs recipientAddress => some ⟨E.vault, recipientAddress,
      inputs.withdrawalAmount.toNat - s.feeConfig.withdrawalFeeUSDC.toNat⟩
  | .withdrawFees amount => some ⟨E.vault, m.sender, amount⟩
  | .adminSweep recipient amount => some ⟨E.vault, recipient, amount⟩
  | .fundPolymarketWallet amount => some ⟨E.vault, s.depositWallet, amount⟩
  | _ => none

/-- The balances after the transfer of a call, if it makes one. -/
def Moved (t : Option Transfer) (b b' : Address → ℕ) : Prop :=
  match t with
  | none => b' = b
  | some t => t.amount ≤ b t.src ∧ b' = t.apply b

theorem Moved.le_src {t : Transfer} {b b' : Address → ℕ} (h : Moved (some t) b b') :
    b t.src ≤ b' t.src + t.amount := by
  obtain ⟨hle, rfl⟩ := h
  by_cases heq : t.dst = t.src
  · simp only [Transfer.apply, movedBalances, heq, Function.update_self]
    omega
  · rw [Transfer.apply_src heq]
    omega

theorem Moved.dst_eq {t : Transfer} {b b' : Address → ℕ} (h : Moved (some t) b b')
    (hne : t.dst ≠ t.src) : b' t.dst = b t.dst + t.amount := by
  obtain ⟨-, rfl⟩ := h
  exact Transfer.apply_dst hne b

section Calls

variable (htoken : E.token.Spec) {s s' : VaultState F} {m : Msg} {proof : Proof}

include htoken

theorem moved_deposit {commitment : F} {amount : ℕ}
    (h : deposit E m s proof commitment amount = .ok s') :
    Moved (some ⟨m.sender, E.vault, amount⟩) s.usdc.balanceOf s'.usdc.balanceOf := by
  simp only [deposit, whenNotPaused, Except.bind_eq_ok, revertIf_eq_ok, Except.pure_eq_ok,
    exists_const] at h
  obtain ⟨-, cum, -, -, -, usdc', htr, s1, hins, rfl⟩ := h
  obtain ⟨r, t', -, rfl⟩ := insertLeaf_ok hins
  exact (htoken.transferFrom_moves (safeTransferFrom_eq_ok.mp htr)).2

theorem moved_withdraw {inputs : WithdrawalPublicInputs F} {a : Address}
    (h : withdraw E s proof inputs a = .ok s') :
    Moved (some ⟨E.vault, a, inputs.withdrawalAmount.toNat - s.feeConfig.withdrawalFeeUSDC.toNat⟩)
      s.usdc.balanceOf s'.usdc.balanceOf := by
  simp only [withdraw, whenNotPaused, requireUnspentKnownRoot, Except.bind_eq_ok, revertIf_eq_ok,
    Except.pure_eq_ok, exists_const] at h
  obtain ⟨-, -, -, -, -, -, s1, hspend, acc, -, payout, hpay, usdc', htr, rfl⟩ := h
  obtain ⟨-, t', -, rfl⟩ := spendAndInsert_ok hspend
  have hpayout := checkedSub256_ok hpay
  obtain rfl : payout
      = inputs.withdrawalAmount.toNat - s.feeConfig.withdrawalFeeUSDC.toNat := by omega
  exact (htoken.transfer_moves (safeTransfer_eq_ok.mp htr)).2

omit [Field F] [DecidableEq F] in
theorem moved_withdrawFees {amount : ℕ} (h : withdrawFees E m s amount = .ok s') :
    Moved (some ⟨E.vault, m.sender, amount⟩) s.usdc.balanceOf s'.usdc.balanceOf := by
  simp only [withdrawFees, Except.bind_eq_ok, revertIf_eq_ok, Except.pure_eq_ok,
    exists_const] at h
  obtain ⟨-, -, acc, -, usdc', htr, rfl⟩ := h
  exact (htoken.transfer_moves (safeTransfer_eq_ok.mp htr)).2

omit htoken in
theorem Credits.usdc {i : BetCancelPublicInputs F} {record' : BetRecord F} {fee' : UInt64}
    {acc' : ℕ} {events : List (Event F)} (h : Credits E s s' i record' fee' acc' events) :
    s'.usdc.balanceOf = s.usdc.balanceOf := by
  obtain ⟨t', -, rfl⟩ := h.effect
  rfl

/-- Each call moves the token by its transfer and by nothing else. -/
theorem moved_exec {c : Call F Proof Sig} (h : exec E m s c = .ok s') :
    Moved (c.transfer? E m s) s.usdc.balanceOf s'.usdc.balanceOf := by
  cases c <;> simp only [exec] at h <;> simp only [Call.transfer?]
  case deposit => exact moved_deposit htoken h
  case withdraw => exact moved_withdraw htoken h
  case withdrawFees => exact moved_withdrawFees htoken h
  case authorizeBet =>
    obtain ⟨-, -, fee, -, -, t', -, rfl⟩ := authorizeBet_ok h
    exact rfl
  case creditSettlement => exact (creditSettlement_ok h).1.usdc
  case betCancellationCredit => exact (betCancellationCredit_ok h).1.usdc
  case naCancellationCredit => exact (naCancellationCredit_ok h).1.usdc
  case closePosition =>
    obtain ⟨delta, credit, hcr, -⟩ := closePosition_ok h
    exact hcr.usdc
  case partialFillCredit => exact (partialFillCredit_ok h).1.usdc
  case consolidate =>
    obtain ⟨-, -, -, -, spent', r, t', -, -, rfl⟩ := consolidate_ok h
    exact rfl
  case adminCancelBet =>
    obtain ⟨-, -, -, rfl⟩ := adminCancelBet_ok h
    exact rfl
  all_goals
    simp only [resolveMarket, registerCondition, setFeeParams, setSigningLayerOperator,
      setDeploymentCap, setAdminCancelTimelock, pause, unpause, adminSweep, fundPolymarketWallet,
      acknowledgePolymarketReturn, onlyOwner, whenNotPaused, Except.bind_eq_ok, revertIf_eq_ok,
      Except.pure_eq_ok, exists_const] at h
  case resolveMarket =>
    obtain ⟨-, -, -, slots, -, -, -, rfl⟩ := h
    exact rfl
  case registerCondition | setSigningLayerOperator | setDeploymentCap =>
    obtain ⟨-, rfl⟩ := h
    exact rfl
  case setFeeParams =>
    obtain ⟨-, -, -, rfl⟩ := h
    exact rfl
  case setAdminCancelTimelock | pause | unpause =>
    obtain ⟨-, -, rfl⟩ := h
    exact rfl
  case acknowledgePolymarketReturn =>
    obtain ⟨-, -, dep, -, rfl⟩ := h
    exact rfl
  case adminSweep =>
    obtain ⟨-, -, usdc', htr, rfl⟩ := h
    exact (htoken.transfer_moves (safeTransfer_eq_ok.mp htr)).2
  case fundPolymarketWallet =>
    obtain ⟨-, -, -, dep, -, -, usdc', htr, rfl⟩ := h
    exact (htoken.transfer_moves (safeTransfer_eq_ok.mp htr)).2

end Calls

end Polyshield
