import Polyshield.Wallet.Deposits

/-!
# Recovery of the wallet's notes

`recoverNotesWithClient`: the notes of a wallet, from the logs of the Vault, a
few reads of its current state and the wallet's secrets. Each deposit is matched
to a derivation index; then every lineage is replayed over the sorted logs, once
to learn the balances that consolidations merged (`discover`) and once for the
notes (`final`). A `bytes32` is a field element, a `bigint` an integer.
-/

namespace Polyshield.Wallet

/-- The events of the replay, in the order in which their logs are fetched. -/
inductive ReplayKind where
  | bet
  | settle
  | betCancel
  | naCancel
  | partialFill
  | close
  | consolidate
  | withdraw
  deriving DecidableEq, Repr

def replayKinds : List ReplayKind :=
  [.bet, .settle, .betCancel, .naCancel, .partialFill, .close, .consolidate, .withdraw]

/-- The kind under which an event is replayed; of the withdrawals only those to the wallet. -/
def replayKind {F : Type} (address : Address) : Event F → Option ReplayKind
  | .betAuthorized .. => some .bet
  | .settlementCredited .. => some .settle
  | .betCancellationCredited .. => some .betCancel
  | .naCancellationCredited .. => some .naCancel
  | .partialFillCredited .. => some .partialFill
  | .positionClosed .. => some .close
  | .consolidated .. => some .consolidate
  | .withdrawn _ recipient _ _ => if recipient = address then some .withdraw else none
  | _ => none

structure ChainNoteState (F : Type) where
  secret : F
  depositIndex : ℕ
  balance : ℤ
  nonce : ℕ
  commitment : F
  nullifier : F
  kind : NoteKind
  spent : Bool

structure FreeNote (F : Type) where
  kind : NoteKind
  depositIndex : ℕ
  balance : ℤ
  nonce : ℕ
  commitment : F
  nullifier : F
  spent : Bool
  derivationVersion : DerivationVersion

structure Receipt (F : Type) where
  depositIndex : ℕ
  balance : ℤ
  nonce : ℕ
  nullifier : F
  nullifierOfBet : F
  positionId : F
  conditionId : F
  marketId : F
  betAmount : ℤ
  expectedShares : ℤ
  side : Option BetSide
  spent : Bool
  derivationVersion : DerivationVersion
  protocolFee : Option ℤ

inductive StoredNote (F : Type) where
  | free (note : FreeNote F)
  | receipt (receipt : Receipt F)

structure Sale where
  proceeds : ℤ
  soldShares : ℤ

inductive ReplayMode where
  | discover
  | final
  deriving DecidableEq, Repr

structure ReplayContext (F : Type) where
  client : RecoveryClient F
  address : Address
  mode : ReplayMode
  index : ℕ
  version : DerivationVersion

structure Replay (F : Type) where
  state : ChainNoteState F
  /-- What this lineage pushes onto `recovered`. -/
  recovered : List (StoredNote F)
  /-- The place in `recovered` of the receipt of a bet. -/
  receiptByBetNullifier : F → Option ℕ
  soldByBet : F → List Sale
  balanceByNullifier : F → Option ℤ

variable {F : Type} [Field F] [DecidableEq F] (C : Circomlib F)

omit [Field F] [DecidableEq F] in
/-- A balance is not searched for. -/
def inferBalanceFromCommitment (_secret : F) (_nonce : ℕ) (_owner : Address) (_commitment : F) :
    Option ℤ := none

/-! ## One event -/

namespace Replay

/-- The event spends the current note of the lineage. -/
def spends (r : Replay F) (nullifier : F) : Bool := nullifier = r.state.nullifier ∧ ¬r.state.spent

omit [Field F] [DecidableEq F] in
def pushFree (r : Replay F) (version : DerivationVersion) (s : ChainNoteState F) : Replay F :=
  { r with
    recovered := r.recovered ++ [.free {
      kind := s.kind
      depositIndex := s.depositIndex
      balance := s.balance
      nonce := s.nonce
      commitment := s.commitment
      nullifier := s.nullifier
      spent := s.spent
      derivationVersion := version }] }

omit [Field F] [DecidableEq F] in
def spendState (r : Replay F) (version : DerivationVersion) : Replay F :=
  pushFree { r with state := { r.state with spent := true } } version { r.state with spent := true }

def advance (r : Replay F) (kind : NoteKind) (balance : ℤ) (commitment : F) : Replay F :=
  { r with
    state := {
      r.state with
      balance
      nonce := r.state.nonce + 1
      commitment
      nullifier := computeNullifier C r.state.secret (r.state.nonce + 1)
      kind
      spent := false } }

omit [Field F] [DecidableEq F] in
def receipt? (r : Replay F) (nullifierOfBet : F) : Option (Receipt F) :=
  (r.receiptByBetNullifier nullifierOfBet).bind fun i =>
    match r.recovered[i]? with
    | some (.receipt receipt) => some receipt
    | _ => none

omit [Field F] [DecidableEq F] in
def updateReceipt (r : Replay F) (nullifierOfBet : F) (f : Receipt F → Receipt F) : Replay F :=
  match r.receiptByBetNullifier nullifierOfBet with
  | some i =>
    { r with
      recovered := r.recovered.modify i fun
        | .receipt receipt => .receipt (f receipt)
        | note => note }
  | none => r

omit [Field F] in
def pushReceipt (r : Replay F) (receipt : Receipt F) : Replay F :=
  { r with
    recovered := r.recovered ++ [.receipt receipt]
    receiptByBetNullifier :=
      Function.update r.receiptByBetNullifier receipt.nullifierOfBet (some r.recovered.length) }

end Replay

variable (ctx : ReplayContext F)

/-- The balance after a bet: short of the stake and of the fees the event carries, or else of the
current fee, or of no fee if the commitment has none. -/
def balanceAfterBet (state : ChainNoteState F) (betAmount : ℤ) (newCommitment : F)
    (protocolFee relayFee : Option ℤ) : ℤ :=
  match protocolFee with
  | some protocolFee => state.balance - betAmount - protocolFee - relayFee.getD 0
  | none =>
    let fee := match ctx.client.feeConfig with
      | some fc => (betAmount * fc.betFeeBps.toNat).tdiv 10000 + fc.relayGasFeeUSDC.toNat
      | none => 0
    if 0 < fee ∧ computeCommitment C state.secret (state.balance - betAmount - fee)
        (state.nonce + 1) ctx.address ≠ newCommitment then state.balance - betAmount
    else state.balance - betAmount - fee

def replayBet (r : Replay F) (betNull marketId positionId : F) (expectedShares betAmount : ℤ)
    (newCommitment : F) (protocolFee relayFee : Option ℤ) : Replay F :=
  ((r.spendState ctx.version).pushReceipt {
      depositIndex := ctx.index
      balance := betAmount
      nonce := r.state.nonce
      nullifier := betNull
      nullifierOfBet := betNull
      positionId
      conditionId := marketId
      marketId
      betAmount
      expectedShares
      side := none
      spent := false
      derivationVersion := ctx.version
      protocolFee }).advance C .betOutput
    (balanceAfterBet C ctx r.state betAmount newCommitment protocolFee relayFee) newCommitment

omit [Field F] [DecidableEq F] in
def balanceAfterCredit (state : ChainNoteState F) (kind : ReplayKind) (receipt : Option (Receipt F))
    (newCommitment : F) : ℤ :=
  let inferred := (inferBalanceFromCommitment state.secret (state.nonce + 1) ctx.address
    newCommitment).getD state.balance
  match receipt with
  | some receipt =>
    if kind = .settle ∧ receipt.expectedShares ≠ 0 then
      match ctx.client.pendingCredit receipt.conditionId
          (if receipt.side = some .no then 1 else 0) with
      | some payout => state.balance + receipt.expectedShares * payout.toNat
      | none => inferred
    else if receipt.betAmount ≠ 0 then
      state.balance + receipt.betAmount
        + if kind = .betCancel then receipt.protocolFee.getD 0 else 0
    else inferred
  | none => inferred

def replayCredit (r : Replay F) (kind : ReplayKind) (betNull newCommitment : F) : Replay F :=
  ((r.updateReceipt betNull fun receipt => { receipt with spent := true }).spendState
      ctx.version).advance C (if kind = .settle then .settleCredit else .cancelCredit)
    (balanceAfterCredit ctx r.state kind (r.receipt? betNull) newCommitment) newCommitment

omit [Field F] [DecidableEq F] in
/-- The refund of a partial fill whose normalized stake was read. -/
def partialRefund (receipt : Option (Receipt F)) (normSpent : ℤ) : ℤ :=
  let committed := (receipt.map Receipt.betAmount).getD 0
  let protocolFee := (receipt.bind Receipt.protocolFee).getD 0
  if normSpent < committed then
    committed - normSpent
      + if 0 < committed then (protocolFee * (committed - normSpent)).tdiv committed else 0
  else 0

omit [Field F] [DecidableEq F] in
def balanceAfterPartial (state : ChainNoteState F) (receipt : Option (Receipt F))
    (record : Option (BetRecord F)) (newCommitment : F) : ℤ :=
  match record with
  | some record => state.balance + partialRefund receipt record.betAmount.toNat
  | none =>
    (inferBalanceFromCommitment state.secret (state.nonce + 1) ctx.address
      newCommitment).getD state.balance

omit [Field F] [DecidableEq F] in
/-- The receipt is normalized to the fill, and stays open. -/
def Receipt.normalize (record : Option (BetRecord F)) (receipt : Receipt F) : Receipt F :=
  match record with
  | some record =>
    { receipt with
      expectedShares := record.expectedShares.toNat
      betAmount := record.betAmount.toNat }
  | none => receipt

def replayPartial (r : Replay F) (betNull newCommitment : F) : Replay F :=
  ((r.updateReceipt betNull (Receipt.normalize (ctx.client.betRecords betNull))).spendState
      ctx.version).advance C .cancelCredit
    (balanceAfterPartial ctx r.state (r.receipt? betNull) (ctx.client.betRecords betNull)
      newCommitment) newCommitment

omit [Field F] [DecidableEq F] in
/-- What a close does to the receipt. -/
def Receipt.close (fullClose : Bool) (sale : Option Sale) (receipt : Receipt F) : Receipt F :=
  if fullClose then { receipt with spent := true }
  else match sale with
    | some sale => { receipt with expectedShares := receipt.expectedShares - sale.soldShares }
    | none => receipt

omit [Field F] in
/-- `shift`: the first sale of the bet is taken off its queue. -/
def Replay.shiftSale (r : Replay F) (betNull : F) : Replay F :=
  { r with soldByBet := Function.update r.soldByBet betNull (r.soldByBet betNull).tail }

def replayClose (r : Replay F) (betNull newCommitment : F) (fullClose : Bool) : Replay F :=
  let sale := (r.soldByBet betNull).head?
  (((r.shiftSale betNull).updateReceipt betNull (Receipt.close fullClose sale)).spendState
      ctx.version).advance C .settleCredit
    (r.state.balance + (sale.map Sale.proceeds).getD 0) newCommitment

def replayWithdraw (r : Replay F) (amount : ℤ) (newCommitment : F) : Replay F :=
  let spent := r.spendState ctx.version
  if newCommitment = 0 then
    { spent with state := { spent.state with balance := 0, spent := true } }
  else spent.advance C .betOutput (r.state.balance - amount) newCommitment

omit [Field F] in
/-- `balanceByNullifier.set`. -/
def Replay.recordBalance (r : Replay F) : Replay F :=
  { r with
    balanceByNullifier :=
      Function.update r.balanceByNullifier r.state.nullifier (some r.state.balance) }

/-- The sum of the recorded balances of the active slots. -/
def mergedBalance (balanceByNullifier : F → Option ℤ) (nullifiers : Fin 4 → F) : ℤ :=
  (((List.ofFn nullifiers).filter (· ≠ 0)).map fun n => (balanceByNullifier n).getD 0).sum

def replayConsolidate (r : Replay F) (nullifiers : Fin 4 → F) (newCommitment : F) : Replay F :=
  let spent := r.recordBalance.spendState ctx.version
  -- A contributor ends here, and so does every input in the discovery pass.
  if r.state.nullifier ≠ nullifiers 0 ∨ ctx.mode = .discover then spent
  else spent.advance C .betOutput (mergedBalance spent.balanceByNullifier nullifiers) newCommitment

def replayEvent (r : Replay F) : Event F → Replay F
  | .betAuthorized nullifier marketId positionId expectedShares betAmount _ _ newCommitment
      protocolFee relayFee =>
    if r.spends nullifier then
      replayBet C ctx r nullifier marketId positionId expectedShares.toNat betAmount newCommitment
        (some protocolFee.toNat) (some relayFee.toNat)
    else r
  | .settlementCredited nullifier betNull newCommitment =>
    if r.spends nullifier then replayCredit C ctx r .settle betNull newCommitment else r
  | .betCancellationCredited nullifier betNull newCommitment =>
    if r.spends nullifier then replayCredit C ctx r .betCancel betNull newCommitment else r
  | .naCancellationCredited nullifier betNull newCommitment =>
    if r.spends nullifier then replayCredit C ctx r .naCancel betNull newCommitment else r
  | .partialFillCredited nullifier betNull newCommitment =>
    if r.spends nullifier then replayPartial C ctx r betNull newCommitment else r
  | .positionClosed nullifier betNull newCommitment fullClose =>
    if r.spends nullifier then replayClose C ctx r betNull newCommitment fullClose else r
  | .withdrawn nullifier _ amount newCommitment =>
    if r.spends nullifier then replayWithdraw C ctx r amount newCommitment else r
  | .consolidated nullifiers newCommitment =>
    if (∃ j, r.spends (nullifiers j)) then replayConsolidate C ctx r nullifiers newCommitment else r
  | _ => r

/-! ## One lineage -/

omit [Field F] [DecidableEq F] in
/-- The logs of the replay, merged from those of each kind. -/
def RecoveryClient.timeline (client : RecoveryClient F) (address : Address) : List (Event F) :=
  ((replayKinds.flatMap fun kind =>
      client.logs.filter fun log => replayKind address log.event = some kind).mergeSort
    Log.upTo).map Log.event

def saleOf (nullifierOfBet : F) : Event F → Option Sale
  | .betSold bet soldShares proceeds =>
    if bet = nullifierOfBet then some ⟨proceeds.toNat, soldShares.toNat⟩ else none
  | _ => none

omit [Field F] [DecidableEq F] in
def isBetSold : Event F → Bool
  | .betSold .. => true
  | _ => false

/-- `buildSoldByBet`: the sales of each bet, in their order. -/
def RecoveryClient.buildSoldByBet (client : RecoveryClient F) (nullifierOfBet : F) : List Sale :=
  ((client.logs.filter fun log => isBetSold log.event).mergeSort Log.upTo).filterMap fun log =>
    saleOf nullifierOfBet log.event

structure Pass (F : Type) where
  recovered : List (StoredNote F)
  soldByBet : F → List Sale
  balanceByNullifier : F → Option ℤ

def startReplay (lineage : Lineage F) (soldByBet : F → List Sale)
    (balanceByNullifier : F → Option ℤ) : Replay F where
  state := {
    secret := lineage.secret
    depositIndex := lineage.index
    balance := lineage.amount
    nonce := 0
    commitment := lineage.commitment
    nullifier := computeNullifier C lineage.secret 0
    kind := .deposit
    spent := false }
  recovered := []
  receiptByBetNullifier := fun _ => none
  soldByBet
  balanceByNullifier

omit [Field F] [DecidableEq F] in
/-- A current note with a balance is emitted at the end. -/
def Replay.finish (r : Replay F) (version : DerivationVersion) : Replay F :=
  if r.state.spent = false ∧ 0 < r.state.balance then r.pushFree version r.state else r

def replayLineage (client : RecoveryClient F) (address : Address) (mode : ReplayMode)
    (pass : Pass F) (lineage : Lineage F) : Pass F :=
  let ctx : ReplayContext F := ⟨client, address, mode, lineage.index, lineage.version⟩
  let r := ((client.timeline address).foldl (replayEvent C ctx)
    (startReplay C lineage pass.soldByBet pass.balanceByNullifier)).finish lineage.version
  ⟨pass.recovered ++ r.recovered, r.soldByBet, r.balanceByNullifier⟩

/-- `deriveSecretV2` is `none` when the master seed is refused. -/
def recoverNotesWithClient (address : Address) (deriveSecretV2 : Option (ℕ → F))
    (deriveSecret : ℕ → F) (client : RecoveryClient F) (gapLimit hardCap : ℕ) :
    List (StoredNote F) :=
  let lineages := scanDeposits C address (client.deposits address) deriveSecretV2 deriveSecret
    gapLimit hardCap
  let discovered := lineages.foldl (replayLineage C client address .discover)
    ⟨[], client.buildSoldByBet, fun _ => none⟩
  (lineages.foldl (replayLineage C client address .final)
    ⟨[], client.buildSoldByBet, discovered.balanceByNullifier⟩).recovered

end Polyshield.Wallet
