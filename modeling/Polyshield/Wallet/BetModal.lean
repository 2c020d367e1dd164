import Polyshield.Vault.Bettable
import Polyshield.Wallet.Pricing
import Polyshield.Wallet.Withdraw

/-!
# The bet modal

`BetModal.tsx`: the gates of `submit`, the notes it merges where the largest one
does not cover the stake and the fee, the inputs of the bet, and what it records
once the bet is confirmed. `shares`, the fee and the minimum come from the one
preview. The proofs and the relay go through.
-/

namespace Polyshield.Wallet

variable {F Proof Sig : Type}

def roundToTick (price : ℚ) (tick : Option ℚ) : ℚ :=
  clean (mathRound (price / safeTick tick) * safeTick tick)

inductive OrderKind where
  | market
  | limit
  deriving DecidableEq

structure BetModal (F Proof Sig : Type) where
  session : Session F Proof Sig
  /-- The cache when the modal was opened, which `maxBettable` is of. -/
  opened : List (Note F)
  marketId : MarketLabel F
  conditionId : ℕ
  /-- `positionToField(conditionId, side)`. -/
  positionId : F
  side : BetSide
  price : ℚ
  tickSize : Option ℚ
  bestAsk : Option ℚ
  levels : List BookLevel
  orderKind : OrderKind
  limitCents : ℚ
  /-- The stake, or `null` for a text that is no amount. -/
  amountMicro : Option ℤ
  feeConfigData : Option FeeConfig
  slippageBps : ℚ
  takerFeeBps : ℤ

inductive BetError where
  | loadingFees
  | belowMinimum (effectiveMinBet : ℤ)
  | belowMinShares (shares : ℤ)
  | noCash
  | exceedsBalance (fee maxBettable : ℤ)
  | cannotCombine (error : String)
  | uncovered (fee : ℤ)

/-- A bet that is proved and relayed. `consolidated` are the notes merged before, if any. -/
structure Bet (F : Type) where
  consolidated : List (Note F)
  cashNote : Note F
  stake : ℤ
  fee : ℤ
  priceScaled : ℤ
  shares : ℤ
  marketId : MarketLabel F
  conditionId : ℕ
  positionId : F
  side : BetSide

inductive BetOutcome (F : Type) where
  | ignored
  | failed (error : BetError)
  | bets (b : Bet F)

namespace BetModal

variable (modal : BetModal F Proof Sig)

/-- The price that the proof commits to: the ceiling of a market order, or the limit. -/
def effectivePrice : ℚ :=
  match modal.orderKind with
  | .market =>
    marketBuyCeilingFromBook modal.levels (some (modal.amountMicro.getD 0 / 10 ^ 6)) modal.tickSize
      (some (modal.bestAsk.getD modal.price)) modal.slippageBps
  | .limit => roundToTick (modal.limitCents / 100) modal.tickSize

def priceScaled : ℤ := mathRound (modal.effectivePrice * 10 ^ 8)

def betFeeBps : ℤ := modal.feeConfigData.elim 0 fun fc => fc.betFeeBps.toNat

def relayGasFeeUSDC : ℤ := modal.feeConfigData.elim 0 fun fc => fc.relayGasFeeUSDC.toNat

/-- One dollar until the configuration is loaded. -/
def minBet : ℤ := modal.feeConfigData.elim 1000000 fun fc => fc.minBet.toNat

def preview : Option OrderPreview :=
  computeOrderPreview {
    amountMicro := modal.amountMicro.getD 0
    effectivePrice := modal.effectivePrice
    protocolFeeBps := modal.betFeeBps
    relayGasMicro := modal.relayGasFeeUSDC
    takerFeeBps := modal.takerFeeBps
    minBetMicro := modal.minBet }

def combinableBalance : ℤ :=
  topNsum (getFreeNotes modal.opened modal.session.address) maxConsolidateInputs

/-- The largest bet that the balance covers with its fee. -/
def maxBettable : ℤ :=
  if modal.combinableBalance ≤ modal.relayGasFeeUSDC then 0
  else ((modal.combinableBalance - modal.relayGasFeeUSDC) * 10000).tdiv (10000 + modal.betFeeBps)

def bet (consolidated : List (Note F)) (cashNote : Note F) (amount : ℤ) (p : OrderPreview) :
    Bet F where
  consolidated
  cashNote
  stake := amount
  fee := p.totalFeeMicro
  priceScaled := modal.priceScaled
  shares := p.shares
  marketId := modal.marketId
  conditionId := modal.conditionId
  positionId := modal.positionId
  side := modal.side

variable [Field F] [DecidableEq F] (C : Circomlib F)

/-- The cache after the reconcile, which may throw. -/
def reconciled (r : Option (ReconcileReads F)) : List (Note F) :=
  match r with
  | some r => reconcileSpentStatus modal.session.cache modal.session.address r
  | none => modal.session.cache

/-- The notes are merged first where the largest one does not cover the cost. -/
def submitFrom (hidden : F → Bool) (cache : List (Note F)) (cashNote : Note F) (amount : ℤ)
    (p : OrderPreview) : BetOutcome F :=
  if amount + p.totalFeeMicro ≤ cashNote.balance then .bets (modal.bet [] cashNote amount p)
  else
    match selectNotesForAmount cache hidden modal.session.address (amount + p.totalFeeMicro)
        ⟨none, none⟩ with
    | .error e => .failed (.cannotCombine e)
    | .ok selection =>
      match consolidateNotes C modal.session selection.notes with
      | .error e => .failed (.cannotCombine e)
      | .ok merged =>
        if merged.balance < amount + p.totalFeeMicro then .failed (.uncovered p.totalFeeMicro)
        else .bets (modal.bet selection.notes merged amount p)

/-- A preview that throws leaves no modal to submit. -/
def submit (hidden : F → Bool) (r : Option (ReconcileReads F)) : BetOutcome F :=
  match modal.amountMicro, modal.preview with
  | none, _ | _, none => .ignored
  | some amount, some p =>
    if amount ≤ 0 then .ignored
    else if modal.feeConfigData = none then .failed .loadingFees
    else if amount < p.effectiveMinBetMicro then .failed (.belowMinimum p.effectiveMinBetMicro)
    else if p.shares < minShares then .failed (.belowMinShares p.shares)
    else
      match getCurrentCashNote (modal.reconciled r) modal.session.address with
      | none => .failed .noCash
      | some cashNote =>
        if modal.maxBettable < amount then
          .failed (.exceedsBalance p.totalFeeMicro modal.maxBettable)
        else modal.submitFrom C hidden (modal.reconciled r) cashNote amount p

end BetModal

/-! ## The bet -/

def BetSide.outcomeSide : BetSide → UInt8
  | .yes => 0
  | .no => 1

namespace Bet

variable [Field F] (C : Circomlib F) (ses : Session F Proof Sig) (b : Bet F)

omit [Field F] in
def secret : F := ses.noteSecret b.cashNote.depositIndex (b.cashNote.derivationVersion.getD .v1)

omit [Field F] in
def newBalance : ℤ := b.cashNote.balance - b.stake - b.fee

def newCommitment : F :=
  computeCommitment C (b.secret ses) b.newBalance (b.cashNote.nonce + 1) ses.address

def nullifier : F := computeNullifier C (b.secret ses) b.cashNote.nonce

def inputs (merkle : MerkleProof F) : BetAuthInputs F where
  secret := b.secret ses
  balance := b.cashNote.balance
  nonce := b.cashNote.nonce
  merklePath := merkle.path
  merklePathIndices := merkle.pathIndices.map fun bit => if bit then 1 else 0
  ownerAddress := ses.address
  merkleRoot := merkle.root
  nullifier := b.nullifier C ses
  newCommitment := b.newCommitment C ses
  shareRemainder := (b.stake * 100000000).tmod b.priceScaled
  betAmount := b.stake
  price := b.priceScaled
  expectedShares := b.shares
  marketId := circuitKey b.conditionId
  outcomeSide := b.side.outcomeSide
  positionId := b.positionId
  fee := b.fee

/-- The `BET_OUTPUT` that is left of the note. -/
def output : Note F where
  id := .commitment (b.newCommitment C ses)
  kind := .betOutput
  ownerAddress := ses.address
  depositIndex := b.cashNote.depositIndex
  balance := b.newBalance
  nonce := b.cashNote.nonce + 1
  commitment := .commitment (b.newCommitment C ses)
  nullifier := computeNullifier C (b.secret ses) (b.cashNote.nonce + 1)
  spent := false
  marketId := none
  side := some b.side
  expectedShares := none
  nullifierOfBet := none
  positionId := none
  conditionId := none
  rawConditionId := none
  betAmount := none
  protocolFee := none
  derivationVersion := some (b.cashNote.derivationVersion.getD .v1)

def receipt : Note F where
  id := .receipt (b.nullifier C ses)
  kind := .betReceipt
  ownerAddress := ses.address
  depositIndex := b.cashNote.depositIndex
  balance := b.stake
  nonce := b.cashNote.nonce
  commitment := .receipt (b.nullifier C ses)
  nullifier := b.nullifier C ses
  spent := false
  marketId := some b.marketId
  side := some b.side
  expectedShares := some b.shares
  nullifierOfBet := some (b.nullifier C ses)
  positionId := some b.positionId
  conditionId := some (circuitKey b.conditionId)
  rawConditionId := some b.conditionId
  betAmount := some b.stake
  protocolFee := none
  derivationVersion := some (b.cashNote.derivationVersion.getD .v1)

/-- The cache once the bet is confirmed; what was merged for it is recorded before. -/
def record [DecidableEq F] (cache : List (Note F)) : List (Note F) :=
  addNote (addNote (markNoteSpent cache b.cashNote.commitment) (b.output C ses)) (b.receipt C ses)

end Bet

/-! ## What the gates leave -/

/-- A bet that `submit` goes on with, with the fees it was shown. -/
structure BetModal.Places (modal : BetModal F Proof Sig) (fc : FeeConfig) (b : Bet F) : Prop where
  feeConfig : modal.feeConfigData = some fc
  amount : modal.amountMicro = some b.stake
  stake_pos : 0 < b.stake
  minimum : (fc.minBet.toNat : ℤ) ≤ b.stake
  fee : b.fee = b.stake * fc.betFeeBps.toNat / 10000 + fc.relayGasFeeUSDC.toNat
  price_pos : 0 < b.priceScaled
  shares : b.shares = b.stake * 100000000 / b.priceScaled
  minShares : minShares ≤ b.shares
  covers : b.stake + b.fee ≤ b.cashNote.balance

section Gates

variable {modal : BetModal F Proof Sig}

theorem mathRound_nonneg {x : ℚ} (h : 0 ≤ x) : 0 ≤ mathRound x := by
  rw [mathRound, Int.floor_nonneg]
  linarith

/-- A preview of enough shares has a positive price, and its numbers are the Vault's. -/
theorem preview_of_shares {input : OrderPreviewInput} {p : OrderPreview}
    (h : computeOrderPreview input = some p) (hamount : 0 < input.amountMicro)
    (hbps : 0 ≤ input.protocolFeeBps) (hshares : minShares ≤ p.shares) :
    0 < mathRound (input.effectivePrice * 10 ^ 8) ∧
      p.shares = input.amountMicro * 10 ^ 8 / mathRound (input.effectivePrice * 10 ^ 8) ∧
      p.totalFeeMicro
        = input.amountMicro * input.protocolFeeBps / 10000 + input.relayGasMicro ∧
      input.minBetMicro ≤ p.effectiveMinBetMicro := by
  obtain ⟨shares, hp, rfl⟩ := Option.map_eq_some_iff.mp h
  have hpos : 0 < shares := lt_of_lt_of_le (by decide) hshares
  unfold previewShares at hp
  split at hp
  case isFalse =>
    obtain rfl := Option.some.inj hp
    exact absurd hpos (lt_irrefl _)
  case isTrue hprice =>
    split at hp
    · cases hp
    next hne =>
      have hround : 0 < mathRound (input.effectivePrice * 10 ^ 8) :=
        lt_of_le_of_ne (mathRound_nonneg (by have := hprice.2; positivity)) (Ne.symm hne)
      have hdiv := Option.some.inj hp
      rw [Int.tdiv_eq_ediv_of_nonneg (by positivity)] at hdiv
      refine ⟨hround, hdiv.symm, ?_, le_max_left _ _⟩
      simp only [if_pos hamount]
      rw [Int.tdiv_eq_ediv_of_nonneg (by positivity)]

variable [Field F] [DecidableEq F] {C : Circomlib F} {hidden : F → Bool}
  {r : Option (ReconcileReads F)} {b : Bet F}

omit [DecidableEq F] in
theorem submitFrom_bets {cache : List (Note F)} {cashNote : Note F} {amount : ℤ} {p : OrderPreview}
    (h : modal.submitFrom C hidden cache cashNote amount p = .bets b) :
    ∃ consolidated note, b = modal.bet consolidated note amount p ∧
      amount + p.totalFeeMicro ≤ note.balance ∧
      ((consolidated = [] ∧ note = cashNote) ∨
        ∃ total, consolidateNotes C modal.session consolidated = .ok note ∧
          selectNotesForAmount cache hidden modal.session.address (amount + p.totalFeeMicro)
            ⟨none, none⟩ = .ok ⟨consolidated, total⟩) := by
  unfold BetModal.submitFrom at h
  split at h
  next hle =>
    obtain rfl := BetOutcome.bets.inj h
    exact ⟨[], cashNote, rfl, hle, .inl ⟨rfl, rfl⟩⟩
  · split at h
    · cases h
    next selection hsel =>
      split at h
      · cases h
      next merged hmerged =>
        split at h
        · cases h
        next hcovers =>
          obtain rfl := BetOutcome.bets.inj h
          exact ⟨_, _, rfl, not_lt.mp hcovers, .inr ⟨selection.total, hmerged, hsel⟩⟩

theorem submit_bets (h : modal.submit C hidden r = .bets b) :
    (∃ fc, modal.Places fc b) ∧
      ((b.consolidated = [] ∧
          b.cashNote ∈ getFreeNotes (modal.reconciled r) modal.session.address) ∨
        ∃ total, consolidateNotes C modal.session b.consolidated = .ok b.cashNote ∧
          selectNotesForAmount (modal.reconciled r) hidden modal.session.address (b.stake + b.fee)
            ⟨none, none⟩ = .ok ⟨b.consolidated, total⟩) := by
  unfold BetModal.submit at h
  split at h
  · cases h
  · cases h
  next amount p hamount hpreview =>
    split at h
    · cases h
    next hpos =>
      split at h
      · cases h
      next hfc =>
        split at h
        · cases h
        next hmin =>
          split at h
          · cases h
          next hshares =>
            split at h
            · cases h
            next cashNote hnote =>
              split at h
              · cases h
              next =>
                obtain ⟨consolidated, note, rfl, hcovers, hnotes⟩ := submitFrom_bets h
                obtain ⟨fc, hfc⟩ := Option.ne_none_iff_exists'.mp hfc
                have hamount' : modal.amountMicro.getD 0 = amount := by rw [hamount]; rfl
                have hstake : 0 < modal.amountMicro.getD 0 := hamount'.symm ▸ not_le.mp hpos
                have hbps : 0 ≤ modal.betFeeBps := by
                  rw [BetModal.betFeeBps, hfc]
                  exact Int.natCast_nonneg _
                obtain ⟨hprice, heq, hfee, hle⟩ :=
                  preview_of_shares hpreview hstake hbps (not_lt.mp hshares)
                simp only [hamount', BetModal.betFeeBps, BetModal.relayGasFeeUSDC, BetModal.minBet,
                  hfc, Option.elim_some] at heq hfee hle
                refine ⟨⟨fc, hfc, hamount, not_le.mp hpos, hle.trans (not_lt.mp hmin), hfee, hprice,
                  heq, not_lt.mp hshares, hcovers⟩, hnotes.imp ?_ fun hmerge => hmerge⟩
                rintro ⟨rfl, rfl⟩
                exact ⟨rfl, mem_sortByBalance.mp (List.mem_of_head? hnote)⟩

end Gates

end Polyshield.Wallet
