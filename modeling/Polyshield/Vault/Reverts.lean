import Polyshield.Vault.Contract

/-!
# What a call reverts with

The errors of the parts that the calls share, and from them which call can revert
with the errors for amounts: a withdrawal below the minimum, a fill or a sale out
of the bounds of the bet.
-/

namespace Polyshield

variable {F Proof Sig : Type} [Field F] [DecidableEq F] {E : Env F Proof Sig}
  {s : VaultState F} {proof : Proof} {att : OperatorAttestation F} {sig : Sig} {e : Revert}

/-! ## The shared parts -/

theorem checkedAdd_error {a b : UInt64} (h : checkedAdd a b = .error e) :
    e = .arithmeticPanic := by
  unfold checkedAdd at h
  split at h <;> cases h
  rfl

theorem checkedSub_error {a b : UInt64} (h : checkedSub a b = .error e) :
    e = .arithmeticPanic := by
  unfold checkedSub at h
  split at h <;> cases h
  rfl

theorem checkedAdd256_error {a b : ℕ} (h : checkedAdd256 a b = .error e) :
    e = .arithmeticPanic := by
  unfold checkedAdd256 at h
  split at h <;> cases h
  rfl

theorem checkedSub256_error {a b : ℕ} (h : checkedSub256 a b = .error e) :
    e = .arithmeticPanic := by
  unfold checkedSub256 at h
  split at h <;> cases h
  rfl

omit [Field F] [DecidableEq F] in
theorem safeTransfer_error {t : Usdc} {src dst : Address} {amount : ℕ}
    (h : safeTransfer E t src dst amount = .error e) : e = .transferFailed := by
  unfold safeTransfer at h
  split at h <;> cases h
  rfl

theorem spendAndInsert_error {nullifier commitment : F}
    (h : spendAndInsert E s nullifier commitment = .error e) :
    e = .alreadySpent ∨ e = .treeFull := by
  rcases Except.bind_eq_error.mp h with h | ⟨a, -, h⟩
  · unfold spendNullifier markSpent at h
    split at h <;> cases h
    exact .inl rfl
  · split at h
    · cases h
    · unfold insertLeaf at h
      split at h <;> cases h
      exact .inr rfl

omit [Field F] in
theorem checkAttestation_error {nob : F} {primaryType altType : UInt8}
    (h : checkAttestation E s att sig nob primaryType altType = .error e) :
    e = .attestationMismatch ∨ e = .ecdsaInvalidSignature ∨ e = .invalidAttestation := by
  simp only [checkAttestation, Except.bind_eq_error, revertIf_eq_error, revertIf_eq_ok] at h
  rcases h with ⟨-, rfl⟩ | ⟨-, -, ⟨-, rfl⟩ | ⟨-, -, h⟩⟩
  · exact .inl rfl
  · exact .inl rfl
  · split at h
    · cases h
      exact .inr (.inl rfl)
    · exact .inr (.inr (revertIf_eq_error.mp h).2.symm)

/-! ## The amounts -/

/-- The error is one that a call has for an amount, so none of the shared parts reverts with it. -/
def Revert.OfAmount (e : Revert) : Prop :=
  e = .belowMinimum ∨ e = .invalidFilledShares ∨ e = .invalidSpentAmount ∨ e = .invalidSoldShares

section OfAmount

variable (he : e.OfAmount)

include he

theorem checkedAdd_ne (a b : UInt64) : checkedAdd a b ≠ .error e := by
  intro h
  rcases he with rfl | rfl | rfl | rfl <;> cases checkedAdd_error h

theorem checkedSub_ne (a b : UInt64) : checkedSub a b ≠ .error e := by
  intro h
  rcases he with rfl | rfl | rfl | rfl <;> cases checkedSub_error h

theorem checkedAdd256_ne (a b : ℕ) : checkedAdd256 a b ≠ .error e := by
  intro h
  rcases he with rfl | rfl | rfl | rfl <;> cases checkedAdd256_error h

theorem checkedSub256_ne (a b : ℕ) : checkedSub256 a b ≠ .error e := by
  intro h
  rcases he with rfl | rfl | rfl | rfl <;> cases checkedSub256_error h

omit [Field F] [DecidableEq F] in
theorem safeTransfer_ne (t : Usdc) (src dst : Address) (amount : ℕ) :
    safeTransfer E t src dst amount ≠ .error e := by
  intro h
  rcases he with rfl | rfl | rfl | rfl <;> cases safeTransfer_error h

theorem spendAndInsert_ne (s : VaultState F) (nullifier commitment : F) :
    spendAndInsert E s nullifier commitment ≠ .error e := by
  intro h
  rcases he with rfl | rfl | rfl | rfl <;> rcases spendAndInsert_error h with h | h <;> cases h

omit [Field F] in
theorem checkAttestation_ne (nob : F) (primaryType altType : UInt8) :
    checkAttestation E s att sig nob primaryType altType ≠ .error e := by
  intro h
  rcases he with rfl | rfl | rfl | rfl <;> rcases checkAttestation_error h with h | h | h <;>
    cases h

omit [Field F] in
theorem releaseProtocolFee_ne (s : VaultState F) (nullifierOfBet : F) :
    releaseProtocolFee s nullifierOfBet ≠ .error e := by
  intro h
  simp only [releaseProtocolFee] at h
  split at h
  · cases h
  · rcases Except.bind_eq_error.mp h with h | ⟨a, -, h⟩
    · exact checkedAdd256_ne he _ _ h
    · cases h

end OfAmount

/-- The minimum is looked at after the pause and the note. -/
theorem withdraw_belowMinimum_iff {inputs : WithdrawalPublicInputs F}
    {recipientAddress : Address} :
    withdraw E s proof inputs recipientAddress = .error .belowMinimum ↔
      s.paused = false ∧ s.spent inputs.nullifier = false ∧
        s.tree.isKnownRoot inputs.merkleRoot = true ∧
        inputs.withdrawalAmount < s.feeConfig.minWithdrawal := by
  have he : Revert.belowMinimum.OfAmount := .inl rfl
  simp only [withdraw, whenNotPaused, requireUnspentKnownRoot, Except.bind_eq_error,
    revertIf_eq_error, revertIf_eq_ok, Except.bind_eq_ok, exists_const, spendAndInsert_ne he,
    checkedAdd256_ne he, checkedSub256_ne he, safeTransfer_ne he, reduceCtorEq, and_false, false_or,
    or_false, Bool.not_eq_true, Bool.not_eq_false, and_true, pure, Except.pure, exists_false]
  tauto

/-- A partial fill within the bounds of the bet is not refused for its amounts. -/
theorem partialFillCredit_ne {inputs : PartialFillPublicInputs F}
    (he : e = .invalidFilledShares ∨ e = .invalidSpentAmount)
    (hfilled : 0 < att.amountA ∧ att.amountA < (s.betRecords inputs.nullifierOfBet).expectedShares)
    (hspent : 0 < att.amountB ∧ att.amountB ≤ (s.betRecords inputs.nullifierOfBet).betAmount) :
    partialFillCredit E s proof inputs att sig ≠ .error e := by
  have hof : e.OfAmount := he.elim (fun h => .inr (.inl h)) fun h => .inr (.inr (.inl h))
  have hfilled' : ¬(att.amountA = 0 ∨
      (s.betRecords inputs.nullifierOfBet).expectedShares ≤ att.amountA) := by
    rw [not_or, UInt64.not_le]
    exact ⟨(UInt64.ne_of_lt hfilled.1).symm, hfilled.2⟩
  have hspent' : ¬(att.amountB = 0 ∨
      (s.betRecords inputs.nullifierOfBet).betAmount < att.amountB) := by
    rw [not_or, UInt64.not_lt]
    exact ⟨(UInt64.ne_of_lt hspent.1).symm, hspent.2⟩
  intro h
  simp only [partialFillCredit, VaultLogic.partialFillCredit, whenNotPaused,
    requireUnspentKnownRoot, Except.bind_eq_error, Except.bind_eq_ok, revertIf_eq_error,
    revertIf_eq_ok, checkAttestation_ne hof, spendAndInsert_ne hof, checkedAdd_ne hof,
    checkedSub_ne hof, checkedAdd256_ne hof, hfilled', hspent', false_and, and_false, exists_false,
    or_false, false_or, pure, Except.pure, reduceCtorEq] at h
  rcases he with rfl | rfl <;> simp at h

theorem closePosition_ne {inputs : ClosePublicInputs F}
    (hsold : (s.betRecords inputs.nullifierOfBet).soldShares < att.amountA ∧
      att.amountA ≤ (s.betRecords inputs.nullifierOfBet).expectedShares) :
    closePosition E s proof inputs att sig ≠ .error .invalidSoldShares := by
  have hof : Revert.invalidSoldShares.OfAmount := .inr (.inr (.inr rfl))
  have hsold' : ¬(att.amountA ≤ (s.betRecords inputs.nullifierOfBet).soldShares ∨
      (s.betRecords inputs.nullifierOfBet).expectedShares < att.amountA) := by
    rw [not_or, UInt64.not_le, UInt64.not_lt]
    exact hsold
  intro h
  rcases Except.bind_eq_error.mp h with h | ⟨u, -, h⟩
  · cases (revertIf_eq_error.mp h).2
  · rcases Except.bind_eq_error.mp h with h | ⟨⟨fullClose, s'⟩, -, h⟩
    · simp only [VaultLogic.closePosition, requireUnspentKnownRoot, Except.bind_eq_error,
        revertIf_eq_error, checkAttestation_ne hof, spendAndInsert_ne hof, checkedSub_ne hof,
        hsold', false_and, and_false, exists_false, or_false, pure, Except.pure, reduceCtorEq] at h
    · simp only at h
      split at h
      · exact releaseProtocolFee_ne hof _ _ h
      · cases h

end Polyshield
