import Polyshield.Vault.Logic

/-!
# The Vault

The external functions of `Vault.sol`, then `exec`: one transaction is a call by
a sender at a block time, and a call that reverts changes nothing. Calls are
atomic, which is what `nonReentrant` gives them.
-/

namespace Polyshield

variable {F Proof Sig : Type} [Field F] [DecidableEq F] (E : Env F Proof Sig)

def depositCap : ℕ := 50000 * 1000000

/-! ## Deployment -/

/-- The arguments of `initialize` that the modelled functions read. -/
structure InitArgs where
  usdc : Usdc
  ctf : Ctf
  signingLayerOperator : Address
  depositWallet : Address
  owner : Address

/-- The storage `initialize` writes: the fee defaults, and the rest empty. -/
def initialState (args : InitArgs) : VaultState F where
  tree := CommitmentMerkleTree.initializeTree E.circomlib.poseidon2
  spent := fun _ => false
  usdc := args.usdc
  ctf := args.ctf
  signingLayerOperator := args.signingLayerOperator
  depositWallet := args.depositWallet
  owner := args.owner
  paused := false
  betRecords := fun _ => .unset
  cumulativeDeposits := fun _ => 0
  pendingCredit := fun _ _ => 0
  marketResolvedAt := fun _ => 0
  betCreatedAt := fun _ => 0
  adminCancelTimelock := 86400
  deployedToPolymarket := 0
  deploymentCap := 2 ^ 256 - 1
  feeConfig :=
    { betFeeBps := 20
      relayGasFeeUSDC := 0
      minBet := 1000000
      withdrawalFeeUSDC := 100000
      minWithdrawal := 1000000
      feeRecipient := args.owner }
  feeAccumulator := 0
  conditionIdOf := fun _ => 0
  betProtocolFee := fun _ => 0
  logs := []

/-- `initialize`. -/
def initializeVault (args : InitArgs) : Except Revert (VaultState F) := do
  revertIf (args.signingLayerOperator = 0 ∨ args.depositWallet = 0 ∨ args.owner = 0) .zeroAddress
  return initialState E args

omit [Field F] [DecidableEq F] in
def initializeV2 (s : VaultState F) : VaultState F := { s with adminCancelTimelock := 7 * 86400 }

def deploy (args : InitArgs) : Except Revert (VaultState F) := do
  let s ← initializeVault E args
  return initializeV2 s

theorem deploy_ok {args : InitArgs} {s : VaultState F} (h : deploy E args = .ok s) :
    s = initializeV2 (initialState E args) := by
  simp only [deploy, initializeVault, Except.bind_eq_ok, Except.pure_eq_ok, revertIf_eq_ok,
    exists_const] at h
  obtain ⟨s0, ⟨-, rfl⟩, rfl⟩ := h
  rfl

/-! ## Administration -/

section Admin

omit [Field F] [DecidableEq F]

def onlyOwner (m : Msg) (s : VaultState F) : Except Revert Unit :=
  revertIf (m.sender ≠ s.owner) .ownableUnauthorizedAccount

def whenNotPaused (s : VaultState F) : Except Revert Unit :=
  revertIf (s.paused = true) .enforcedPause

def setSigningLayerOperator (m : Msg) (s : VaultState F) (operator : Address) :
    Except Revert (VaultState F) := do
  onlyOwner m s
  return { s with signingLayerOperator := operator }

def setDeploymentCap (m : Msg) (s : VaultState F) (cap : ℕ) : Except Revert (VaultState F) := do
  onlyOwner m s
  return { s with deploymentCap := cap }

def setFeeParams (m : Msg) (s : VaultState F) (c : FeeConfig) : Except Revert (VaultState F) := do
  onlyOwner m s
  revertIf (c.feeRecipient = 0) .zeroAddress
  revertIf (c.minWithdrawal < c.withdrawalFeeUSDC) .invalidAmount
  let s := { s with feeConfig := c }
  return s.emit (.feeParamsUpdated c)

def withdrawFees (m : Msg) (s : VaultState F) (amount : ℕ) : Except Revert (VaultState F) := do
  revertIf (m.sender ≠ s.feeConfig.feeRecipient) .notFeeRecipient
  revertIf (s.feeAccumulator < amount) .invalidAmount
  let feeAccumulator ← checkedSub256 s.feeAccumulator amount
  let usdc ← safeTransfer E s.usdc E.vault m.sender amount
  let s := { s with feeAccumulator := feeAccumulator, usdc := usdc }
  return s.emit (.feesWithdrawn m.sender amount)

def setAdminCancelTimelock (m : Msg) (s : VaultState F) (seconds : ℕ) :
    Except Revert (VaultState F) := do
  onlyOwner m s
  revertIf (seconds < 3 * 86400) .timelockTooShort
  return { s with adminCancelTimelock := seconds }

def pause (m : Msg) (s : VaultState F) : Except Revert (VaultState F) := do
  onlyOwner m s
  whenNotPaused s
  return { s with paused := true }

def unpause (m : Msg) (s : VaultState F) : Except Revert (VaultState F) := do
  onlyOwner m s
  revertIf (s.paused = false) .expectedPause
  return { s with paused := false }

def adminSweep (m : Msg) (s : VaultState F) (recipient : Address) (amount : ℕ) :
    Except Revert (VaultState F) := do
  onlyOwner m s
  revertIf (recipient = 0) .zeroAddress
  let usdc ← safeTransfer E s.usdc E.vault recipient amount
  let s := { s with usdc := usdc }
  return s.emit (.adminSwept recipient amount)

def fundPolymarketWallet (m : Msg) (s : VaultState F) (amount : ℕ) :
    Except Revert (VaultState F) := do
  whenNotPaused s
  revertIf (m.sender ≠ s.signingLayerOperator) .onlyOperator
  revertIf (s.usdc.balanceOf E.vault < amount) .insufficientVaultLiquidity
  let deployed ← checkedAdd256 s.deployedToPolymarket amount
  revertIf (s.deploymentCap < deployed) .deployCapExceeded
  let usdc ← safeTransfer E s.usdc E.vault s.depositWallet amount
  let s := { s with deployedToPolymarket := deployed, usdc := usdc }
  return s.emit (.fundedPolymarketWallet amount)

def acknowledgePolymarketReturn (m : Msg) (s : VaultState F) (amount : ℕ) :
    Except Revert (VaultState F) := do
  revertIf (m.sender ≠ s.signingLayerOperator) .onlyOperator
  revertIf (s.deployedToPolymarket < amount) .invalidAmount
  let deployed ← checkedSub256 s.deployedToPolymarket amount
  let s := { s with deployedToPolymarket := deployed }
  return s.emit (.polymarketReturnAcknowledged amount (s.usdc.balanceOf E.vault))

end Admin

/-! ## Deposits, bets and withdrawals -/

def deposit (m : Msg) (s : VaultState F) (proof : Proof) (commitment : F) (amount : ℕ) :
    Except Revert (VaultState F) := do
  whenNotPaused s
  let cumulative ← checkedAdd256 (s.cumulativeDeposits m.sender) amount
  revertIf (depositCap < cumulative) .depositCapExceeded
  revertIf (verifyDeposit E proof commitment amount m.sender = false) .invalidProof
  let usdc ← safeTransferFrom E s.usdc m.sender E.vault amount
  let s := { s with
    cumulativeDeposits := Function.update s.cumulativeDeposits m.sender cumulative
    usdc := usdc }
  let s ← insertLeaf E s commitment
  return s.emit (.deposited m.sender commitment amount)

omit [Field F] [DecidableEq F] in
/-- The protocol component of the fee; the cast to `uint64` truncates. -/
def protocolFeeOf (fc : FeeConfig) (betAmount : UInt64) : UInt64 :=
  UInt64.ofNat (betAmount.toNat * fc.betFeeBps.toNat / 10000)

omit [Field F] [DecidableEq F] in
/-- The record `authorizeBet` creates. -/
def BetAuthPublicInputs.record (inputs : BetAuthPublicInputs F) : BetRecord F where
  marketId := inputs.marketId
  conditionId := inputs.marketId
  positionId := inputs.positionId
  expectedShares := inputs.expectedShares
  betAmount := inputs.betAmount
  outcomeSide := inputs.outcomeSide
  status := .active
  sellProceeds := 0
  soldShares := 0
  filledShares := 0
  spentAmount := 0

def authorizeBet (m : Msg) (s : VaultState F) (proof : Proof) (inputs : BetAuthPublicInputs F) :
    Except Revert (VaultState F) := do
  whenNotPaused s
  requireUnspentKnownRoot s inputs.nullifier inputs.merkleRoot
  let fc := s.feeConfig
  revertIf (inputs.betAmount < fc.minBet) .belowMinimum
  let protocolFee := protocolFeeOf fc inputs.betAmount
  let relayFee := fc.relayGasFeeUSDC
  let fee ← checkedAdd protocolFee relayFee
  revertIf (verifyBetAuth E proof inputs fee = false) .invalidProof
  let s ← spendAndInsert E s inputs.nullifier inputs.newCommitment
  let feeAccumulator ← checkedAdd256 s.feeAccumulator relayFee.toNat
  let s := { s with feeAccumulator := feeAccumulator }
  let s := s.setRecord inputs.nullifier inputs.record
  let s := s.setProtocolFee inputs.nullifier protocolFee
  let s := { s with
    betCreatedAt := Function.update s.betCreatedAt inputs.nullifier (UInt64.ofNat m.timestamp) }
  return s.emit (.betAuthorized inputs.nullifier inputs.marketId inputs.positionId
    inputs.expectedShares inputs.betAmount.toNat inputs.price inputs.outcomeSide
    inputs.newCommitment protocolFee relayFee)

def withdraw (s : VaultState F) (proof : Proof) (inputs : WithdrawalPublicInputs F)
    (recipientAddress : Address) : Except Revert (VaultState F) := do
  whenNotPaused s
  requireUnspentKnownRoot s inputs.nullifier inputs.merkleRoot
  let fc := s.feeConfig
  revertIf (inputs.withdrawalAmount < fc.minWithdrawal) .belowMinimum
  revertIf (verifyWithdrawal E proof inputs = false) .invalidProof
  let computedHash := E.circomlib.poseidon2 (recipientAddress.toNat : F) 0
  revertIf (computedHash ≠ inputs.recipientHash) .badRecipient
  let available := s.usdc.balanceOf E.vault
  revertIf (available < inputs.withdrawalAmount.toNat)
    (.insufficientLiquidity available inputs.withdrawalAmount.toNat)
  let s ← spendAndInsert E s inputs.nullifier inputs.newCommitment
  let feeAccumulator ← checkedAdd256 s.feeAccumulator fc.withdrawalFeeUSDC.toNat
  let payout ← checkedSub256 inputs.withdrawalAmount.toNat fc.withdrawalFeeUSDC.toNat
  let usdc ← safeTransfer E s.usdc E.vault recipientAddress payout
  let s := { s with feeAccumulator := feeAccumulator, usdc := usdc }
  return s.emit (.withdrawn inputs.nullifier recipientAddress inputs.withdrawalAmount.toNat
    inputs.newCommitment)

/-! ## Bet administration and market resolution -/

def adminCancelBet (m : Msg) (s : VaultState F) (nullifierOfBet : F) :
    Except Revert (VaultState F) := do
  onlyOwner m s
  let record := s.betRecords nullifierOfBet
  revertIf (record.marketId = 0) .betNotFound
  revertIf (record.status ≠ .active) .betNotActive
  let unlockedAt ← checkedAdd256 (s.betCreatedAt nullifierOfBet).toNat s.adminCancelTimelock
  revertIf (m.timestamp < unlockedAt) .betTimeoutNotElapsed
  let s := s.setRecord nullifierOfBet { record with status := .failed }
  return s.emit (.adminBetCancelled nullifierOfBet)

/-- What the loop of `resolveMarket` accumulates. -/
structure PayoutLoop where
  payouts : UInt8 → UInt64
  anyNonZero : Bool
  anyNonZeroAfterDiv : Bool

def payoutStep (ctf : Ctf) (marketId denominator : ℕ) (acc : PayoutLoop) (i : ℕ) :
    Except Revert PayoutLoop := do
  let numerator := ctf.payoutNumerators marketId i
  let ratio := numerator / denominator
  revertIf (2 ^ 64 - 1 < ratio) .ppsOverflow
  let pps := UInt64.ofNat ratio
  return {
    payouts := Function.update acc.payouts (UInt8.ofNat i) pps
    anyNonZero := acc.anyNonZero || decide (0 < numerator)
    anyNonZeroAfterDiv := acc.anyNonZeroAfterDiv || decide (0 < pps) }

def resolveMarket (m : Msg) (s : VaultState F) (marketId : ℕ) : Except Revert (VaultState F) := do
  revertIf (m.sender ≠ s.signingLayerOperator) .onlyOperator
  let key : F := circuitKey marketId
  revertIf (s.marketResolvedAt key ≠ 0) .marketAlreadyResolved
  let denominator := s.ctf.payoutDenominator marketId
  revertIf (denominator = 0) .conditionNotResolved
  let slots ← (List.range (s.ctf.getOutcomeSlotCount marketId)).foldlM
    (payoutStep s.ctf marketId denominator) ⟨s.pendingCredit key, false, false⟩
  revertIf (slots.anyNonZero = false) .notNA
  revertIf (slots.anyNonZeroAfterDiv = false) .payoutRoundsToZero
  let resolvedAt := UInt64.ofNat m.timestamp
  let s := { s with
    pendingCredit := Function.update s.pendingCredit key slots.payouts
    marketResolvedAt := Function.update s.marketResolvedAt key resolvedAt
    conditionIdOf := Function.update s.conditionIdOf key marketId }
  return s.emit (.marketResolved key resolvedAt)

def registerCondition (m : Msg) (s : VaultState F) (conditionId : ℕ) :
    Except Revert (VaultState F) := do
  revertIf (m.sender ≠ s.signingLayerOperator) .onlyOperator
  let key : F := circuitKey conditionId
  let s := { s with conditionIdOf := Function.update s.conditionIdOf key conditionId }
  return s.emit (.conditionRegistered key conditionId)

/-! ## Credits -/

def releaseProtocolFee (s : VaultState F) (nullifierOfBet : F) : Except Revert (VaultState F) := do
  let pf := s.betProtocolFee nullifierOfBet
  if pf = 0 then .ok s
  else
    let feeAccumulator ← checkedAdd256 s.feeAccumulator pf.toNat
    let s := s.setProtocolFee nullifierOfBet 0
    return { s with feeAccumulator := feeAccumulator }

def creditSettlement (s : VaultState F) (proof : Proof) (inputs : SettlementPublicInputs F)
    (att : OperatorAttestation F) (sig : Sig) : Except Revert (VaultState F) := do
  whenNotPaused s
  let s ← VaultLogic.creditSettlement E s proof inputs att sig
  releaseProtocolFee s inputs.nullifierOfBet

def betCancellationCredit (s : VaultState F) (proof : Proof) (inputs : BetCancelPublicInputs F)
    (att : OperatorAttestation F) (sig : Sig) : Except Revert (VaultState F) := do
  whenNotPaused s
  VaultLogic.betCancellationCredit E s proof inputs att sig

def naCancellationCredit (s : VaultState F) (proof : Proof) (inputs : NACancelPublicInputs F)
    (att : OperatorAttestation F) (sig : Sig) : Except Revert (VaultState F) := do
  whenNotPaused s
  let s ← VaultLogic.naCancellationCredit E s proof inputs att sig
  releaseProtocolFee s inputs.nullifierOfBet

def closePosition (s : VaultState F) (proof : Proof) (inputs : ClosePublicInputs F)
    (att : OperatorAttestation F) (sig : Sig) : Except Revert (VaultState F) := do
  whenNotPaused s
  let (fullClose, s) ← VaultLogic.closePosition E s proof inputs att sig
  if fullClose then releaseProtocolFee s inputs.nullifierOfBet else .ok s

def partialFillCredit (s : VaultState F) (proof : Proof) (inputs : PartialFillPublicInputs F)
    (att : OperatorAttestation F) (sig : Sig) : Except Revert (VaultState F) := do
  whenNotPaused s
  let (protocolEarned, s) ← VaultLogic.partialFillCredit E s proof inputs att sig
  let feeAccumulator ← checkedAdd256 s.feeAccumulator protocolEarned.toNat
  return { s with feeAccumulator := feeAccumulator }

def consolidate (s : VaultState F) (proof : Proof) (inputs : ConsolidatePublicInputs F) :
    Except Revert (VaultState F) := do
  whenNotPaused s
  VaultLogic.consolidate E s proof inputs

/-! ## Transactions -/

inductive Call (F Proof Sig : Type) where
  | deposit (proof : Proof) (commitment : F) (amount : ℕ)
  | authorizeBet (proof : Proof) (inputs : BetAuthPublicInputs F)
  | withdraw (proof : Proof) (inputs : WithdrawalPublicInputs F) (recipientAddress : Address)
  | creditSettlement (proof : Proof) (inputs : SettlementPublicInputs F)
      (att : OperatorAttestation F) (sig : Sig)
  | betCancellationCredit (proof : Proof) (inputs : BetCancelPublicInputs F)
      (att : OperatorAttestation F) (sig : Sig)
  | naCancellationCredit (proof : Proof) (inputs : NACancelPublicInputs F)
      (att : OperatorAttestation F) (sig : Sig)
  | closePosition (proof : Proof) (inputs : ClosePublicInputs F)
      (att : OperatorAttestation F) (sig : Sig)
  | partialFillCredit (proof : Proof) (inputs : PartialFillPublicInputs F)
      (att : OperatorAttestation F) (sig : Sig)
  | consolidate (proof : Proof) (inputs : ConsolidatePublicInputs F)
  | adminCancelBet (nullifierOfBet : F)
  | resolveMarket (marketId : ℕ)
  | registerCondition (conditionId : ℕ)
  | setFeeParams (c : FeeConfig)
  | withdrawFees (amount : ℕ)
  | setSigningLayerOperator (operator : Address)
  | setDeploymentCap (cap : ℕ)
  | setAdminCancelTimelock (seconds : ℕ)
  | pause
  | unpause
  | adminSweep (recipient : Address) (amount : ℕ)
  | fundPolymarketWallet (amount : ℕ)
  | acknowledgePolymarketReturn (amount : ℕ)

/-- The function a call names. -/
def exec (m : Msg) (s : VaultState F) : Call F Proof Sig → Except Revert (VaultState F)
  | .deposit proof commitment amount => deposit E m s proof commitment amount
  | .authorizeBet proof inputs => authorizeBet E m s proof inputs
  | .withdraw proof inputs recipientAddress => withdraw E s proof inputs recipientAddress
  | .creditSettlement proof inputs att sig => creditSettlement E s proof inputs att sig
  | .betCancellationCredit proof inputs att sig => betCancellationCredit E s proof inputs att sig
  | .naCancellationCredit proof inputs att sig => naCancellationCredit E s proof inputs att sig
  | .closePosition proof inputs att sig => closePosition E s proof inputs att sig
  | .partialFillCredit proof inputs att sig => partialFillCredit E s proof inputs att sig
  | .consolidate proof inputs => consolidate E s proof inputs
  | .adminCancelBet nullifierOfBet => adminCancelBet m s nullifierOfBet
  | .resolveMarket marketId => resolveMarket m s marketId
  | .registerCondition conditionId => registerCondition m s conditionId
  | .setFeeParams c => setFeeParams m s c
  | .withdrawFees amount => withdrawFees E m s amount
  | .setSigningLayerOperator operator => setSigningLayerOperator m s operator
  | .setDeploymentCap cap => setDeploymentCap m s cap
  | .setAdminCancelTimelock seconds => setAdminCancelTimelock m s seconds
  | .pause => pause m s
  | .unpause => unpause m s
  | .adminSweep recipient amount => adminSweep E m s recipient amount
  | .fundPolymarketWallet amount => fundPolymarketWallet E m s amount
  | .acknowledgePolymarketReturn amount => acknowledgePolymarketReturn E m s amount

/-- What happens on chain: a call to the Vault, or a change of the contracts it reads. -/
inductive Action (F Proof Sig : Type) where
  | call (m : Msg) (c : Call F Proof Sig)
  | world (usdc : Usdc) (ctf : Ctf)

/-- A call that did not revert, with the states before and after it. -/
structure Executed (F Proof Sig : Type) where
  pre : VaultState F
  msg : Msg
  call : Call F Proof Sig
  post : VaultState F

structure Chain (F Proof Sig : Type) where
  state : VaultState F
  trace : List (Executed F Proof Sig)

/-- One action; a call that reverts leaves the state as it was. -/
def advance (ch : Chain F Proof Sig) : Action F Proof Sig → Chain F Proof Sig
  | .call m c =>
    match exec E m ch.state c with
    | .ok s => ⟨s, ch.trace ++ [⟨ch.state, m, c, s⟩]⟩
    | .error _ => ch
  | .world usdc ctf => { ch with state := { ch.state with usdc := usdc, ctf := ctf } }

def extend (ch : Chain F Proof Sig) (as : List (Action F Proof Sig)) : Chain F Proof Sig :=
  as.foldl (advance E) ch

def runActions (s : VaultState F) (as : List (Action F Proof Sig)) : Chain F Proof Sig :=
  extend E ⟨s, []⟩ as

theorem runActions_append (s : VaultState F) (as bs : List (Action F Proof Sig)) :
    runActions E s (as ++ bs) = extend E (runActions E s as) bs :=
  List.foldl_append ..

variable {E} in
theorem runActions_snoc {s₀ s s' : VaultState F} {as : List (Action F Proof Sig)}
    {tr : List (Executed F Proof Sig)} (h : runActions E s₀ as = ⟨s, tr⟩) {m : Msg}
    {c : Call F Proof Sig} (hx : exec E m s c = .ok s') :
    runActions E s₀ (as ++ [.call m c]) = ⟨s', tr ++ [⟨s, m, c, s'⟩]⟩ := by
  rw [runActions_append, h]
  simp only [extend, List.foldl_cons, List.foldl_nil, advance, hx]

variable {E} in
theorem runActions_world {s₀ s : VaultState F} {as : List (Action F Proof Sig)}
    {tr : List (Executed F Proof Sig)} (h : runActions E s₀ as = ⟨s, tr⟩) (usdc : Usdc)
    (ctf : Ctf) :
    runActions E s₀ (as ++ [.world usdc ctf]) = ⟨{ s with usdc := usdc, ctf := ctf }, tr⟩ := by
  rw [runActions_append, h]
  rfl

/-- What every successful call and every outside change keeps holds after every run. -/
theorem extend_invariant {P : Chain F Proof Sig → Prop} {ch : Chain F Proof Sig} (hinit : P ch)
    (hcall : ∀ ch m c s', P ch → exec E m ch.state c = .ok s' →
      P ⟨s', ch.trace ++ [⟨ch.state, m, c, s'⟩]⟩)
    (hworld : ∀ ch usdc ctf, P ch →
      P { ch with state := { ch.state with usdc := usdc, ctf := ctf } })
    (as : List (Action F Proof Sig)) : P (extend E ch as) := by
  unfold extend
  induction as generalizing ch with
  | nil => exact hinit
  | cons a as ih =>
    apply ih
    cases a with
    | world usdc ctf => exact hworld ch usdc ctf hinit
    | call m c =>
      simp only [advance]
      split
      · exact hcall ch m c _ hinit ‹_›
      · exact hinit

end Polyshield
