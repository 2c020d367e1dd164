import Polyshield.Vault.Credits
import Polyshield.Vault.Spendable

/-!
# A bet can be placed from an unspent note

`authorizeBet` takes the stake and the fee from a note. For the owner's inputs
it succeeds as soon as the note covers both, the stake is no less than the
minimum and the price gives the shares that it promises, unless the Vault is
paused or the tree is full.
-/

namespace Polyshield

variable {F Proof Sig : Type} [Field F] [DecidableEq F] {E : Env F Proof Sig}

/-! ## What a bet asks for -/

/-- The checks of `authorizeBet`, in its order, with the fee it charges. -/
structure BetChecks (E : Env F Proof Sig) (s : VaultState F) (proof : Proof)
    (inputs : BetAuthPublicInputs F) (fee : UInt64) : Prop where
  unpaused : s.paused = false
  unspent : s.spent inputs.nullifier = false
  known : s.tree.isKnownRoot inputs.merkleRoot = true
  minimum : s.feeConfig.minBet ≤ inputs.betAmount
  fee_eq : fee.toNat = (protocolFeeOf s.feeConfig inputs.betAmount).toNat
    + s.feeConfig.relayGasFeeUSDC.toNat
  verifies : verifyBetAuth E proof inputs fee = true
  room : inputs.newCommitment ≠ 0 → s.tree.nextIndex < 2 ^ treeDepth
  accumulates : s.feeAccumulator + s.feeConfig.relayGasFeeUSDC.toNat < 2 ^ 256

theorem authorizeBet_succeeds_iff {m : Msg} {s : VaultState F} {proof : Proof}
    {inputs : BetAuthPublicInputs F} :
    (∃ s', authorizeBet E m s proof inputs = .ok s') ↔ ∃ fee, BetChecks E s proof inputs fee := by
  constructor
  · rintro ⟨s', h⟩
    simp only [authorizeBet, whenNotPaused, requireUnspentKnownRoot, Except.bind_eq_ok,
      revertIf_eq_ok, Except.pure_eq_ok, exists_const, Bool.not_eq_true, Bool.not_eq_false,
      UInt64.not_lt] at h
    obtain ⟨hp, ⟨hun, hroot⟩, hmin, fee, hfee, hv, s1, hspend, acc, hacc, -⟩ := h
    obtain ⟨-, t', ht, rfl⟩ := spendAndInsert_ok hspend
    refine ⟨fee, hp, hun, hroot, hmin, checkedAdd_ok hfee, hv, ht.nextIndex_lt, ?_⟩
    unfold checkedAdd256 at hacc
    split at hacc
    · assumption
    · cases hacc
  · rintro ⟨fee, h⟩
    obtain ⟨t', -, hspend⟩ := spendAndInsert_eq_ok (E := E) h.unspent h.room
    have hfee := checkedAdd_eq_ok.mpr h.fee_eq
    simp only [authorizeBet, whenNotPaused, requireUnspentKnownRoot, Except.bind_eq_ok,
      revertIf_eq_ok, Except.pure_eq_ok, exists_const, Bool.not_eq_true, Bool.not_eq_false,
      UInt64.not_lt]
    exact ⟨_, h.unpaused, ⟨h.unspent, h.known⟩, h.minimum, fee, hfee, h.verifies, _, hspend, _,
      if_pos h.accumulates, rfl⟩

/-! ## A note of a reachable Vault -/

/-- What a bet of the stake costs on top: the protocol's share and the gas of the relay, over the
integers. -/
def FeeConfig.betFee (c : FeeConfig) (stake : ℕ) : ℕ :=
  stake * c.betFeeBps.toNat / 10000 + c.relayGasFeeUSDC.toNat

/-- A fee that a note covers with the stake is the one that the Vault computes. -/
theorem FeeConfig.protocolFeeOf_add {c : FeeConfig} {stake : UInt64}
    (h : c.betFee stake.toNat < 2 ^ 64) :
    (protocolFeeOf c stake).toNat + c.relayGasFeeUSDC.toNat = c.betFee stake.toNat := by
  unfold FeeConfig.betFee at h ⊢
  rw [protocolFeeOf, UInt64.toNat_ofNat', Nat.mod_eq_of_lt (by omega)]

theorem FeeConfig.betFee_lt (c : FeeConfig) (stake : UInt64) : c.betFee stake.toNat < 2 ^ 128 := by
  have hbps : c.betFeeBps.toNat < 2 ^ 16 := c.betFeeBps.toNat_lt
  have hrelay := c.relayGasFeeUSDC.toNat_lt
  have hmul : stake.toNat * c.betFeeBps.toNat ≤ 2 ^ 64 * 2 ^ 16 :=
    Nat.mul_le_mul stake.toNat_lt.le hbps.le
  have hdiv : stake.toNat * c.betFeeBps.toNat / 10000 ≤ stake.toNat * c.betFeeBps.toNat :=
    Nat.div_le_self ..
  unfold FeeConfig.betFee
  omega

def BetAuthInputs.publicInputs (i : BetAuthInputs F) : BetAuthPublicInputs F where
  merkleRoot := i.merkleRoot
  nullifier := i.nullifier
  newCommitment := i.newCommitment
  betAmount := UInt64.ofNat i.betAmount.toNat
  price := UInt64.ofNat i.price.toNat
  expectedShares := UInt64.ofNat i.expectedShares.toNat
  marketId := i.marketId
  outcomeSide := i.outcomeSide
  positionId := i.positionId

/-- The bet is on record, where no bet was, with the shares that its stake buys at the price; the
note goes on less the stake and the fee. -/
structure PlacesBet (E : Env F Proof Sig) (s s' : VaultState F) (n : Note F) (i : BetAuthInputs F)
    (stake price : ℕ) : Prop where
  continues : ∃ next, Continues E.circomlib s' n next ∧
    next.balance + stake + s.feeConfig.betFee stake = n.balance
  first : s.betRecords (n.nullifier E.circomlib) = .unset
  record : s'.betRecords (n.nullifier E.circomlib) = i.publicInputs.record
  stake_eq : (s'.betRecords (n.nullifier E.circomlib)).betAmount.toNat = stake
  shares_eq : (s'.betRecords (n.nullifier E.circomlib)).expectedShares.toNat
    = stake * pricePrecision / price
  fee : s'.feeAccumulator + (s'.betProtocolFee (n.nullifier E.circomlib)).toNat
    = s.feeAccumulator + s.feeConfig.betFee stake

section Reachable

variable (hE : E.Ideal) {s : VaultState F} (hs : BooksInv E s) (hres : Reserves E s) {n : Note F}
  {stake price : UInt64} {i : BetAuthInputs F}
  (hi : i.Of E.circomlib n stake.toNat price.toNat (s.feeConfig.betFee stake.toNat))
  (hn : n ∈ hiddenNotes E.circomlib s.tree) (hun : s.spent (n.nullifier E.circomlib) = false)

include hi

omit [DecidableEq F] in
theorem BetAuthInputs.Of.publicInputs_amount : i.publicInputs.betAmount = stake := by
  show UInt64.ofNat i.betAmount.toNat = stake
  rw [hi.betAmount, Int.toNat_natCast, UInt64.ofNat_toNat]

omit [DecidableEq F] in
theorem BetAuthInputs.Of.publicInputs_price : i.publicInputs.price = price := by
  show UInt64.ofNat i.price.toNat = price
  rw [hi.price, Int.toNat_natCast, UInt64.ofNat_toNat]

omit [DecidableEq F] in
theorem BetAuthInputs.Of.publicInputs_shares
    (h : stake.toNat * pricePrecision / price.toNat < 2 ^ 64) :
    i.publicInputs.expectedShares.toNat = stake.toNat * pricePrecision / price.toNat := by
  show (UInt64.ofNat i.expectedShares.toNat).toNat = _
  rw [hi.expectedShares, Int.toNat_natCast, UInt64.toNat_ofNat', Nat.mod_eq_of_lt h]

include hE hs hres hn hun

theorem placesBet_authorizeBet {m : Msg} {proof : Proof} {s' : VaultState F}
    (hle : stake.toNat + s.feeConfig.betFee stake.toNat ≤ n.balance)
    (hshares : stake.toNat * pricePrecision / price.toNat < 2 ^ 64)
    (h : authorizeBet E m s proof i.publicInputs = .ok s') :
    PlacesBet E s s' n i stake.toNat price.toNat := by
  obtain ⟨-, -, fee, -, -, t', ht, rfl⟩ := authorizeBet_ok h
  have hbal := n.balance_lt
  have hnul : i.publicInputs.nullifier = n.nullifier E.circomlib := hi.spends.nullifier
  let next : Note F := ⟨n.secret, n.owner,
    n.balance - (stake.toNat + s.feeConfig.betFee stake.toNat), n.nonce + 1, by omega,
    hres.nonce_succ_lt hn⟩
  have hcom : i.publicInputs.newCommitment = next.commitment E.circomlib := hi.rest hle
  rw [hcom] at ht
  have hunset : s.betRecords (n.nullifier E.circomlib) = .unset := by
    refine (hs.bets.unset _ fun hmem => ?_).1
    rw [hs.bets.spent _ hmem] at hun
    cases hun
  have hrecord : Function.update s.betRecords i.publicInputs.nullifier i.publicInputs.record
      (n.nullifier E.circomlib) = i.publicInputs.record := by
    rw [hnul, Function.update_self]
  refine ⟨⟨next, .of_grows hE hs hn hun ⟨rfl, rfl, rfl⟩ ht ?_, ?_⟩, hunset, hrecord, ?_, ?_, ?_⟩
  · rw [hnul]
  · show n.balance - (stake.toNat + s.feeConfig.betFee stake.toNat) + stake.toNat
      + s.feeConfig.betFee stake.toNat = n.balance
    omega
  · show (Function.update s.betRecords _ _ _).betAmount.toNat = stake.toNat
    rw [hrecord]
    exact congrArg UInt64.toNat hi.publicInputs_amount
  · show (Function.update s.betRecords _ _ _).expectedShares.toNat = _
    rw [hrecord]
    exact hi.publicInputs_shares hshares
  · show s.feeAccumulator + s.feeConfig.relayGasFeeUSDC.toNat
      + (Function.update s.betProtocolFee _ _ _).toNat = _
    rw [hnul, Function.update_self, hi.publicInputs_amount,
      ← FeeConfig.protocolFeeOf_add (by omega)]
    omega

/-- The owner's inputs place the bet exactly when nothing that the Vault or the note lacks stands in
the way. -/
theorem authorizeBet_proved_iff {m : Msg} (hroot : s.tree.isKnownRoot i.merkleRoot = true) :
    (i.Proves E.circomlib ∧ ∃ proof s', authorizeBet E m s proof i.publicInputs = .ok s' ∧
        PlacesBet E s s' n i stake.toNat price.toNat) ↔
      s.paused = false ∧ s.feeConfig.minBet ≤ stake ∧
        stake.toNat + s.feeConfig.betFee stake.toNat ≤ n.balance ∧ 0 < price.toNat ∧
        stake.toNat * pricePrecision / price.toNat < 2 ^ 64 ∧
        s.tree.leaves.length < 2 ^ treeDepth := by
  have hproves := hi.proves_iff hE.spec hE.wide stake.toNat_lt price.toNat_lt
    (s.feeConfig.betFee_lt stake) (hres.nonce_succ_lt hn)
  have hleaves := hs.notes.history.frontier.nextIndex
  have hbal := n.balance_lt
  have hnonzero (hle : stake.toNat + s.feeConfig.betFee stake.toNat ≤ n.balance) :
      i.newCommitment ≠ 0 := by
    rw [hi.rest hle]
    exact hE.injective.poseidon4_ne_zero _ _ _ _
  constructor
  · rintro ⟨hp, proof, s', hx, -⟩
    obtain ⟨hpos, hshares, hle⟩ := hproves.mp hp
    obtain ⟨fee, hc⟩ := authorizeBet_succeeds_iff.mp ⟨s', hx⟩
    have hmin := hc.minimum
    rw [hi.publicInputs_amount] at hmin
    refine ⟨hc.unpaused, hmin, hle, hpos, hshares, ?_⟩
    rw [← hleaves]
    exact hc.room (hnonzero hle)
  · rintro ⟨hp, hmin, hle, hpos, hshares, hroom⟩
    have hprove := hproves.mpr ⟨hpos, hshares, hle⟩
    have hfee : (UInt64.ofNat (s.feeConfig.betFee stake.toNat)).toNat
        = s.feeConfig.betFee stake.toNat := by
      rw [UInt64.toNat_ofNat', Nat.mod_eq_of_lt (by omega)]
    have hu (x : UInt64) {z : ℤ} (hz : z = x.toNat) : (z : F) = u64 x := by
      rw [hz, Int.cast_natCast]
      rfl
    have hw : HasWitness E.circomlib .betAuth [i.merkleRoot, i.nullifier, i.newCommitment,
        u64 i.publicInputs.betAmount, u64 i.publicInputs.price, u64 i.publicInputs.expectedShares,
        i.marketId, (i.outcomeSide.toNat : F), i.positionId,
        u64 (UInt64.ofNat (s.feeConfig.betFee stake.toNat))] := by
      refine ⟨i.signals, (i.shareRemainder : F), ?_⟩
      rw [← hu i.publicInputs.betAmount (z := i.betAmount) ?_,
        ← hu i.publicInputs.price (z := i.price) ?_,
        ← hu i.publicInputs.expectedShares (z := i.expectedShares) ?_,
        ← hu (UInt64.ofNat (s.feeConfig.betFee stake.toNat)) (z := i.fee) ?_]
      · exact hprove
      · rw [hi.fee, hfee]
      · rw [hi.expectedShares, hi.publicInputs_shares hshares]
      · rw [hi.price, hi.publicInputs_price]
      · rw [hi.betAmount, hi.publicInputs_amount]
    obtain ⟨proof, hv⟩ := (hE.verify_iff _ _).mpr hw
    have hchecks : BetChecks E s proof i.publicInputs
        (UInt64.ofNat (s.feeConfig.betFee stake.toNat)) := {
      unpaused := hp
      unspent := by
        show s.spent i.nullifier = false
        rw [hi.spends.nullifier]
        exact hun
      known := hroot
      minimum := by rwa [hi.publicInputs_amount]
      fee_eq := by
        rw [hfee, hi.publicInputs_amount]
        exact (FeeConfig.protocolFeeOf_add (by omega)).symm
      verifies := hv
      room := fun _ => by rwa [hleaves]
      accumulates := by
        have hacc := hres.feeAccumulator_lt (n := 0) hs.bets
          s.feeConfig.relayGasFeeUSDC.toNat_lt
        omega }
    obtain ⟨s', hx⟩ := (authorizeBet_succeeds_iff (m := m)).mpr ⟨_, hchecks⟩
    exact ⟨hprove, proof, s', hx, placesBet_authorizeBet hE hs hres hi hn hun hle hshares hx⟩

end Reachable

/-- The owner of a committed note has inputs for any bet from it, with a path to the current
root. -/
theorem Reserves.exists_betAuthInputs {s : VaultState F} (hres : Reserves E s)
    (ht : CommitmentMerkleTree.History E.circomlib.poseidon2 s.tree) {n : Note F}
    (hn : n ∈ hiddenNotes E.circomlib s.tree) {a : Address} (ha : (a.toNat : F) = n.owner)
    (stake price fee : ℕ) (marketId : F) (outcomeSide : UInt8) (positionId : F) :
    ∃ i : BetAuthInputs F, i.Of E.circomlib n stake price fee ∧ i.ownerAddress = a ∧
      i.merkleRoot = s.tree.currentRoot ∧ i.marketId = marketId ∧ i.outcomeSide = outcomeSide ∧
      i.positionId = positionId := by
  obtain ⟨i, hi, howner, hroot⟩ := hres.exists_spendInputs ht hn ha
  let next := NoteCommitment E.circomlib n.secret ((n.balance - (stake + fee) : ℕ) : F)
    ((n.nonce + 1 : ℕ) : F) n.owner
  exact ⟨⟨i, next, (stake * pricePrecision % price : ℕ), stake, price,
    (stake * pricePrecision / price : ℕ), marketId, outcomeSide, positionId, fee⟩,
    ⟨hi, rfl, rfl, rfl, fun _ => rfl, rfl, rfl⟩, howner, hroot, rfl, rfl, rfl⟩

/-! ## A bet of one dollar -/

def twoDollarArgs : InitArgs := { oneDollarArgs with usdc := ⟨fun _ => 2000000, fun _ => 2000000⟩ }

def twoDollarNote : Note ℚ := { oneDollarNote with balance := 2000000, balance_lt := by decide }

noncomputable def twoDollarVault : VaultState ℚ :=
  initializeV2 (initialState encodingEnv twoDollarArgs)

def twoDollarDeposit : Action ℚ Unit (OperatorAttestation ℚ × Address) :=
  .call ⟨7, 1⟩ (.deposit () (twoDollarNote.commitment encodingCircomlib) 2000000)

theorem runActions_two_dollar_deposit :
    let s := (runActions encodingEnv twoDollarVault [twoDollarDeposit]).state
    hiddenNotes encodingCircomlib s.tree = [twoDollarNote] ∧ s.tree.leaves.length = 1 ∧
      s.spent (twoDollarNote.nullifier encodingCircomlib) = false ∧ s.paused = false ∧
      s.signingLayerOperator = 1 ∧ s.feeConfig = twoDollarVault.feeConfig := by
  intro s
  have hdeploy : deploy encodingEnv twoDollarArgs = .ok twoDollarVault := rfl
  have hbooks := (notesHistory_deploy (E := encodingEnv) hdeploy).books
  have ht : CommitmentMerkleTree.Frontier encodingCircomlib.poseidon2 twoDollarVault.tree [] :=
    CommitmentMerkleTree.frontier_initializeTree _
  obtain ⟨⟨⟩, s', hx⟩ := deposit_available encodingEnv_ideal (m := ⟨7, 1⟩) twoDollarNote rfl rfl
    rfl (by decide) (le_refl _) (le_refl _) (by decide) ht (by decide)
  have hx' : exec encodingEnv ⟨7, 1⟩ twoDollarVault
      (.deposit () (twoDollarNote.commitment encodingCircomlib) 2000000) = .ok s' := hx
  have hrun : s = s' := by
    simp only [s, twoDollarDeposit, runActions, extend, List.foldl_cons, List.foldl_nil, advance,
      hx']
  obtain ⟨n, hn, hcom, -⟩ := starts_deposit encodingEnv_ideal hbooks hx
  obtain rfl := Note.commitment_inj encodingEnv_ideal.injective encodingEnv_ideal.wide hcom
  have hnil : twoDollarVault.tree.leaves = [] := by
    simp [twoDollarVault, initializeV2, initialState, CommitmentMerkleTree.leaves,
      CommitmentMerkleTree.initializeTree]
  have hhidden := hn.hidden
  rw [hiddenNotes, show encodingEnv.circomlib = encodingCircomlib from rfl] at hhidden
  obtain ⟨-, -, r, t', usdc', hins, rfl⟩ := deposit_ok hx
  rw [hrun]
  refine ⟨?_, ?_, rfl, rfl, rfl, rfl⟩
  · rw [hiddenNotes, hhidden]
    simp only [hiddenNotes, hnil, List.filterMap_nil, List.nil_append]
  · show t'.leaves.length = 1
    rw [CommitmentMerkleTree.insert_ok_leaves hbooks.notes.history hins, hnil]
    rfl

theorem exec_two_dollar : ∃ s', exec encodingEnv ⟨7, 1⟩ twoDollarVault
      (.deposit () (twoDollarNote.commitment encodingCircomlib) 2000000) = .ok s' ∧
    s' = (runActions encodingEnv twoDollarVault [twoDollarDeposit]).state := by
  cases hx : exec encodingEnv ⟨7, 1⟩ twoDollarVault
      (.deposit () (twoDollarNote.commitment encodingCircomlib) 2000000) with
  | ok s' =>
    refine ⟨s', rfl, ?_⟩
    simp only [twoDollarDeposit, runActions, extend, List.foldl_cons, List.foldl_nil, advance, hx]
  | error e =>
    obtain ⟨-, hleaves, -⟩ := runActions_two_dollar_deposit
    simp only [twoDollarDeposit, runActions, extend, List.foldl_cons, List.foldl_nil, advance,
      hx] at hleaves
    simp [twoDollarVault, initializeV2, initialState, CommitmentMerkleTree.leaves,
      CommitmentMerkleTree.initializeTree] at hleaves

def dollarBetRecord : BetRecord ℚ where
  marketId := 5
  conditionId := 5
  positionId := 6
  expectedShares := 2000000
  betAmount := 1000000
  outcomeSide := 0
  status := .active
  sellProceeds := 0
  soldShares := 0
  filledShares := 0
  spentAmount := 0

def dollarBetInputs (root : ℚ) : BetAuthPublicInputs ℚ where
  merkleRoot := root
  nullifier := twoDollarNote.nullifier encodingCircomlib
  newCommitment := NoteCommitment encodingCircomlib 11 998000 1 ((7 : Address).toNat : ℚ)
  betAmount := 1000000
  price := 50000000
  expectedShares := 2000000
  marketId := 5
  outcomeSide := 0
  positionId := 6

theorem exec_dollar_bet {s : VaultState ℚ} (hs : BooksInv encodingEnv s)
    (hres : Reserves encodingEnv s) (time : ℕ)
    (hn : twoDollarNote ∈ hiddenNotes encodingCircomlib s.tree)
    (hun : s.spent (twoDollarNote.nullifier encodingCircomlib) = false)
    (hpaused : s.paused = false) (hfees : s.feeConfig = twoDollarVault.feeConfig)
    (hroom : s.tree.leaves.length < 2 ^ treeDepth) :
    ∃ (i : BetAuthInputs ℚ) (t : CommitmentMerkleTree ℚ) (next : Note ℚ) (s' : VaultState ℚ),
      i.publicInputs = dollarBetInputs i.merkleRoot ∧
      t.leaves.length = s.tree.leaves.length + 1 ∧
      Continues encodingCircomlib s' twoDollarNote next ∧ next.balance = 998000 ∧
      exec encodingEnv ⟨1, time⟩ s (.authorizeBet () i.publicInputs) = .ok s' ∧ s' = { s with
        tree := t
        spent := Function.update s.spent (twoDollarNote.nullifier encodingCircomlib) true
        betRecords := Function.update s.betRecords (twoDollarNote.nullifier encodingCircomlib)
          dollarBetRecord
        betProtocolFee := Function.update s.betProtocolFee
          (twoDollarNote.nullifier encodingCircomlib) 2000
        betCreatedAt := Function.update s.betCreatedAt
          (twoDollarNote.nullifier encodingCircomlib) (UInt64.ofNat time)
        logs := s.logs ++ [.betAuthorized (twoDollarNote.nullifier encodingCircomlib) 5 6 2000000
          1000000 50000000 0 i.newCommitment 2000 0] } := by
  obtain ⟨i, hi, -, hroot, hmarket, hside, hposition⟩ :=
    hres.exists_betAuthInputs hs.notes.history hn (a := 7) rfl (UInt64.toNat 1000000)
      (UInt64.toNat 50000000) (s.feeConfig.betFee (UInt64.toNat 1000000)) 5 0 6
  have hknown : s.tree.isKnownRoot i.merkleRoot = true := by
    rw [hroot]
    exact hres.isKnownRoot_currentRoot hs.notes.history encodingEnv_ideal
  have hiff := authorizeBet_proved_iff encodingEnv_ideal hs hres (m := ⟨1, time⟩) hi hn hun hknown
  obtain ⟨-, ⟨⟩, s', hx, hplaces⟩ := hiff.mpr (by
    rw [hfees]
    refine ⟨hpaused, ?_, ?_, ?_, ?_, hroom⟩ <;> decide)
  obtain ⟨next, hcont, hbalance⟩ := hplaces.continues
  have hcost : s.feeConfig.betFee (UInt64.toNat 1000000) = 2000 := by
    rw [hfees]
    rfl
  have hbal : next.balance + 1000000 + 2000 = 2000000 := by
    rw [hcost] at hbalance
    exact hbalance
  have hcom : i.newCommitment
      = NoteCommitment encodingCircomlib 11 998000 1 ((7 : Address).toNat : ℚ) := by
    rw [hi.rest (by rw [hfees]; decide), hcost]
    rfl
  have hpublic : i.publicInputs = dollarBetInputs i.merkleRoot := by
    have hshares : UInt64.ofNat i.expectedShares.toNat = 2000000 :=
      UInt64.toNat_inj.mp (hi.publicInputs_shares (by decide))
    have hamount : UInt64.ofNat i.betAmount.toNat = 1000000 := hi.publicInputs_amount
    have hprice : UInt64.ofNat i.price.toNat = 50000000 := hi.publicInputs_price
    have hnul : i.nullifier = twoDollarNote.nullifier encodingCircomlib := hi.spends.nullifier
    simp only [BetAuthInputs.publicInputs, dollarBetInputs, hshares, hamount, hprice, hnul, hcom,
      hmarket, hside, hposition]
  have hne : (dollarBetInputs i.merkleRoot).newCommitment ≠ 0 :=
    encodingEnv_ideal.injective.poseidon4_ne_zero _ _ _ _
  have hx' : authorizeBet encodingEnv ⟨1, time⟩ s () (dollarBetInputs i.merkleRoot) = .ok s' :=
    hpublic ▸ hx
  have hfee : protocolFeeOf s.feeConfig 1000000 = 2000 ∧ s.feeConfig.relayGasFeeUSDC = 0 := by
    rw [hfees]
    exact ⟨rfl, rfl⟩
  obtain ⟨-, -, fee, -, -, t', ht, rfl⟩ := authorizeBet_ok hx'
  refine ⟨i, t', next, _, hpublic, ?_, hcont, by omega, hx, ?_⟩
  · rw [ht.leaves_eq hne hs.notes.history, List.length_append]
    rfl
  · rw [show (dollarBetInputs i.merkleRoot).betAmount = 1000000 from rfl, hfee.1, hfee.2, hcom]
    rfl

def twoDollarBet (i : BetAuthInputs ℚ) : Action ℚ Unit (OperatorAttestation ℚ × Address) :=
  .call ⟨1, 1⟩ (.authorizeBet () i.publicInputs)

theorem exists_two_dollar_bet :
    ∃ i : BetAuthInputs ℚ,
      let s := (runActions encodingEnv twoDollarVault [twoDollarDeposit, twoDollarBet i]).state
      let nob := twoDollarNote.nullifier encodingCircomlib
      twoDollarNote ∈ hiddenNotes encodingCircomlib s.tree ∧ s.tree.leaves.length = 2 ∧
        s.paused = false ∧ s.signingLayerOperator = 1 ∧ (s.betRecords nob).status = .active ∧
        (s.betRecords nob).marketId = 5 ∧ (s.betRecords nob).betAmount = 1000000 ∧
        s.betProtocolFee nob = 2000 ∧
        ∃ next, Continues encodingCircomlib s twoDollarNote next ∧ next.balance = 998000 := by
  have hdeploy : deploy encodingEnv twoDollarArgs = .ok twoDollarVault := rfl
  obtain ⟨hhidden, hleaves, hun, hpaused, hoperator, hfee⟩ := runActions_two_dollar_deposit
  have hbooks := (notesHistory_runActions encodingEnv_ideal hdeploy [twoDollarDeposit]).books
  have hres := reserves_runActions encodingEnv_ideal hdeploy [twoDollarDeposit]
  generalize hrun : runActions encodingEnv twoDollarVault [twoDollarDeposit] = ch at *
  have hn : twoDollarNote ∈ hiddenNotes encodingCircomlib ch.state.tree :=
    hhidden ▸ List.mem_singleton_self _
  obtain ⟨i, t, next, s', -, hlen, hcont, hbalance, hx, hs'⟩ :=
    exec_dollar_bet hbooks hres 1 hn hun hpaused hfee (by rw [hleaves]; decide)
  have hstep : runActions encodingEnv twoDollarVault [twoDollarDeposit, twoDollarBet i] = _ :=
    (runActions_snoc hrun hx :)
  have hmem := mem_hiddenNotes_exec encodingEnv_ideal hbooks hx hn
  refine ⟨i, ?_⟩
  rw [hstep]
  refine ⟨hmem, ?_, ?_, ?_, ?_, ?_, ?_, ?_, next, hcont, hbalance⟩
  all_goals
    show _ = _
    rw [hs']
  · rw [hlen, hleaves]
  · exact hpaused
  · exact hoperator
  all_goals
    simp only [Function.update_self]
  all_goals
    rfl

end Polyshield
