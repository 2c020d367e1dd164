import Polyshield.Vault.CreditLands
import Polyshield.Vault.Mergeable
import Polyshield.Vault.Token

/-!
# The ledger of a run

Over every run the Vault's ledger balances, and the notes that it has committed
are in lineages. A run with a bet, a settlement and a merge is one of them.
-/

namespace Polyshield

/-! ## A run with a bet, a settlement and a merge -/

def pooledArgs : InitArgs := { oneDollarArgs with usdc := ⟨fun _ => 3000000, fun _ => 3000000⟩ }

noncomputable def pooledVault : VaultState ℚ := initializeV2 (initialState encodingEnv pooledArgs)

def otherDollarNote : Note ℚ := { oneDollarNote with secret := 13 }

def firstSideWon : Ctf := ⟨fun _ i => if i = 0 then 1 else 0, fun _ => 1, fun _ => 2⟩

def pooledFilled : OperatorAttestation ℚ :=
  ⟨twoDollarNote.nullifier encodingCircomlib, reportFilled, 0, 0⟩

/-- Two dollars and one are deposited, one is bet and doubled, and the lineages are merged; the
operator takes a dollar out and three come back, and the owner sweeps a little. -/
def pooledRun (bet : BetAuthInputs ℚ) (credit : CreditInputs ℚ) (merge : ConsolidateInputs ℚ) :
    List (Action ℚ Unit (OperatorAttestation ℚ × Address)) :=
  [.call ⟨7, 1⟩ (.deposit () (twoDollarNote.commitment encodingCircomlib) 2000000),
    .call ⟨7, 2⟩ (.deposit () (otherDollarNote.commitment encodingCircomlib) 1000000),
    .call ⟨1, 3⟩ (.authorizeBet () bet.publicInputs),
    .call ⟨1, 4⟩ (.fundPolymarketWallet 1000000),
    .world ⟨fun _ => 8000000, fun _ => 0⟩ firstSideWon,
    .call ⟨1, 5⟩ (.acknowledgePolymarketReturn 1000000),
    .call ⟨1, 6⟩ (.resolveMarket 5),
    .call ⟨7, 7⟩
      (CreditKind.settlement.call credit.core 5 2000000 () pooledFilled (pooledFilled, 1)),
    .call ⟨7, 8⟩ (.consolidate () merge.publicInputs),
    .call ⟨3, 9⟩ (.adminSweep 4 1000)]

section Stages

variable {s s' : VaultState ℚ}

theorem exec_pooled_deposit (hs : BooksInv encodingEnv s) {n : Note ℚ} (time : ℕ)
    (hnonce : n.nonce = 0) (howner : n.owner = ((7 : Address).toNat : ℚ))
    (hpaused : s.paused = false) (hcap : s.cumulativeDeposits 7 + n.balance ≤ depositCap)
    (hallow : n.balance ≤ s.usdc.allowance 7) (hbal : n.balance ≤ s.usdc.balanceOf 7)
    (hroom : s.tree.leaves.length < 2 ^ treeDepth) :
    ∃ t s', t.leaves.length = s.tree.leaves.length + 1 ∧ n ∈ hiddenNotes encodingCircomlib t ∧
      exec encodingEnv ⟨7, time⟩ s (.deposit () (n.commitment encodingCircomlib) n.balance)
        = .ok s' ∧
        s' = { s with
          tree := t
          usdc := ⟨movedBalances s.usdc.balanceOf 7 9 n.balance,
            Function.update s.usdc.allowance 7 (s.usdc.allowance 7 - n.balance)⟩
          cumulativeDeposits := Function.update s.cumulativeDeposits 7
            (s.cumulativeDeposits 7 + n.balance)
          logs := s.logs ++ [.deposited 7 (n.commitment encodingCircomlib) n.balance] } := by
  have hfrontier := hs.notes.history.frontier
  obtain ⟨⟨⟩, s', hx⟩ := deposit_available encodingEnv_ideal (m := ⟨7, time⟩) n hnonce howner
    hpaused hcap hallow hbal (by decide : (7 : Address) ≠ 0) hfrontier hroom
  obtain ⟨n', hn', hcom, -⟩ := starts_deposit encodingEnv_ideal hs hx
  obtain rfl := Note.commitment_inj encodingEnv_ideal.injective encodingEnv_ideal.wide hcom
  have hhidden := hn'.hidden
  have htoken : s'.usdc = ⟨movedBalances s.usdc.balanceOf 7 9 n'.balance,
      Function.update s.usdc.allowance 7 (s.usdc.allowance 7 - n'.balance)⟩ := by
    have hx' := hx
    simp only [deposit, whenNotPaused, Except.bind_eq_ok, revertIf_eq_ok, Except.pure_eq_ok,
      exists_const] at hx'
    obtain ⟨-, cum, -, -, -, usdc', htr, s1, hins, rfl⟩ := hx'
    obtain ⟨r, t', -, rfl⟩ := insertLeaf_ok hins
    have hmoved := safeTransferFrom_eq_ok.mp htr
    simp only [encodingEnv, plainErc20, Option.ite_none_left_eq_some] at hmoved
    exact (Option.some.inj hmoved.2).symm
  obtain ⟨-, -, r, t', usdc', hins, rfl⟩ := deposit_ok hx
  refine ⟨t', _, ?_, ?_, hx, ?_⟩
  · rw [CommitmentMerkleTree.insert_ok_leaves hs.notes.history hins, List.length_append]
    rfl
  · have hmem : n' ∈ hiddenNotes encodingEnv.circomlib t' := by
      rw [show hiddenNotes encodingEnv.circomlib t' = _ from hhidden]
      exact List.mem_append_right _ (List.mem_singleton_self _)
    exact hmem
  · have husdc : usdc' = ⟨movedBalances s.usdc.balanceOf 7 9 n'.balance,
        Function.update s.usdc.allowance 7 (s.usdc.allowance 7 - n'.balance)⟩ := htoken
    rw [← husdc]
    rfl

theorem exec_settle_won (hs : BooksInv encodingEnv s) (hres : Reserves encodingEnv s) (time : ℕ)
    {n : Note ℚ} (hn : n ∈ hiddenNotes encodingCircomlib s.tree)
    (hun : s.spent (n.nullifier encodingCircomlib) = false) (hfollows : n.Follows twoDollarNote)
    (hbalance : n.balance = 998000) (hpaused : s.paused = false)
    (hroom : s.tree.leaves.length < 2 ^ treeDepth) (hoperator : s.signingLayerOperator = 1)
    (hrecord : s.betRecords (twoDollarNote.nullifier encodingCircomlib) = dollarBetRecord)
    (hresolved : s.marketResolvedAt 5 ≠ 0) (hpays : s.pendingCredit 5 0 = 1) :
    ∃ (i : CreditInputs ℚ) (t : CommitmentMerkleTree ℚ) (next : Note ℚ) (s' : VaultState ℚ),
      t.leaves.length = s.tree.leaves.length + 1 ∧
      Continues encodingCircomlib s' n next ∧ next.balance = 2998000 ∧
      i.nullifier = n.nullifier encodingCircomlib ∧
      i.nullifierOfBet = twoDollarNote.nullifier encodingCircomlib ∧
      exec encodingEnv ⟨7, time⟩ s (CreditKind.settlement.call i.core 5 2000000 () pooledFilled
        (pooledFilled, 1)) = .ok s' ∧ s' = { s with
          tree := t
          spent := Function.update s.spent (n.nullifier encodingCircomlib) true
          betRecords := Function.update s.betRecords (twoDollarNote.nullifier encodingCircomlib)
            { dollarBetRecord with status := .credited }
          betProtocolFee := Function.update s.betProtocolFee
            (twoDollarNote.nullifier encodingCircomlib) 0
          feeAccumulator := s.feeAccumulator
            + (s.betProtocolFee (twoDollarNote.nullifier encodingCircomlib)).toNat
          logs := s.logs ++ [.settlementCredited (n.nullifier encodingCircomlib)
            (twoDollarNote.nullifier encodingCircomlib) i.newCommitment] } := by
  obtain ⟨hsec, howner, hnonce⟩ := hfollows
  have hsigner : encodingEnv.recover pooledFilled (pooledFilled, 1)
      = some s.signingLayerOperator := by
    rw [hoperator]
    simp [encodingEnv]
  have hdue : Due encodingEnv s (twoDollarNote.nullifier encodingCircomlib) pooledFilled
      (pooledFilled, 1) .settlement (UInt64.toNat 2000000) := by
    have h : Due encodingEnv s (twoDollarNote.nullifier encodingCircomlib) pooledFilled
        (pooledFilled, 1) .settlement _ :=
      .settlement (.inr ⟨by rw [hrecord]; rfl, rfl, .inl rfl, hsigner⟩)
        (by rw [hrecord]; exact hresolved)
    rw [hrecord, show dollarBetRecord.marketId = 5 from rfl,
      show dollarBetRecord.outcomeSide = 0 from rfl, hpays] at h
    exact h
  obtain ⟨i, ⟨⟩, s', hi, hx, hcredited⟩ := hres.exists_credit encodingEnv_ideal hs hn hun hsec
    (by rw [hnonce]; decide) (a := 7) howner.symm hrecord (by norm_num [dollarBetRecord])
    (by decide) hdue hpaused (by rw [hbalance]; decide) hroom ⟨7, time⟩
  obtain ⟨next, hcont, hnext⟩ := hcredited.continues
  have hx' : creditSettlement encodingEnv s () ⟨i.merkleRoot, i.nullifier, i.newCommitment,
      i.nullifierOfBet, 5, 2000000⟩ pooledFilled (pooledFilled, 1) = .ok s' := hx
  have hbal : next.balance = 2998000 := by
    rw [hnext, hbalance]
    rfl
  have hcom : i.newCommitment = next.commitment encodingCircomlib := by
    obtain ⟨hsec', howner', hnonce'⟩ := hcont.follows
    rw [hi.next (by rw [hbalance]; decide), Polyshield.Note.commitment, hsec', howner', hnonce',
      hbal, hbalance]
    rfl
  have hne : i.newCommitment ≠ 0 := by
    rw [hcom]
    exact encodingEnv_ideal.injective.poseidon4_ne_zero _ _ _ _
  obtain ⟨t', ht, rfl⟩ := (creditSettlement_ok hx').1.effect
  refine ⟨i, t', next, _, ?_, hcont, hbal, hi.spends.nullifier, hi.nullifierOfBet, hx', ?_⟩
  · rw [ht.leaves_eq hne hs.notes.history, List.length_append]
    rfl
  · simp only [SettlementPublicInputs.core, released]
    rw [show i.nullifier = n.nullifier encodingCircomlib from hi.spends.nullifier,
      show i.nullifierOfBet = twoDollarNote.nullifier encodingCircomlib from hi.nullifierOfBet,
      hrecord]

theorem exec_merge (hs : BooksInv encodingEnv s) (hres : Reserves encodingEnv s) (time : ℕ)
    {n k : Note ℚ} (hn : n ∈ hiddenNotes encodingCircomlib s.tree)
    (hk : k ∈ hiddenNotes encodingCircomlib s.tree)
    (hnun : s.spent (n.nullifier encodingCircomlib) = false)
    (hkun : s.spent (k.nullifier encodingCircomlib) = false)
    (hnowner : n.owner = ((7 : Address).toNat : ℚ)) (hkowner : k.owner = ((7 : Address).toNat : ℚ))
    (hsecrets : n.secret ≠ k.secret) (hsum : n.balance + k.balance < 2 ^ 64)
    (hpaused : s.paused = false) (hroom : s.tree.leaves.length < 2 ^ treeDepth) :
    ∃ (i : ConsolidateInputs ℚ) (t : CommitmentMerkleTree ℚ) (spent : ℚ → Bool)
        (s' : VaultState ℚ),
      t.leaves.length = s.tree.leaves.length + 1 ∧
      i.nullifier 0 = n.nullifier encodingCircomlib ∧
      i.nullifier 1 = k.nullifier encodingCircomlib ∧ i.nullifier 2 = 0 ∧ i.nullifier 3 = 0 ∧
      exec encodingEnv ⟨7, time⟩ s (.consolidate () i.publicInputs) = .ok s' ∧ s' = { s with
        tree := t
        spent := spent
        logs := s.logs ++ [.consolidated i.nullifier i.newCommitment] } := by
  obtain ⟨first, hfirst, hfirst7, hroot⟩ :=
    hres.exists_spendInputs hs.notes.history hn (a := 7) hnowner.symm
  obtain ⟨second, hsecond, hsecond7, hroot'⟩ :=
    hres.exists_spendInputs hs.notes.history hk (a := 7) hkowner.symm
  have hmerge : MergeOf encodingCircomlib first [second] n [k] :=
    ⟨.cons hfirst (.cons hsecond .nil), fun i hi => by
      rw [List.mem_singleton.mp hi, hfirst7, hsecond7], by simp⟩
  have hknown : s.tree.isKnownRoot first.merkleRoot = true := by
    rw [hroot]
    exact hres.isKnownRoot_currentRoot hs.notes.history encodingEnv_ideal
  have hmem : ∀ m ∈ [n, k], m ∈ hiddenNotes encodingCircomlib s.tree ∧
      s.spent (m.nullifier encodingCircomlib) = false := by
    intro m hm
    rcases List.mem_cons.mp hm with rfl | hm
    · exact ⟨hn, hnun⟩
    · rw [List.mem_singleton.mp hm]
      exact ⟨hk, hkun⟩
  have hdistinct : ([n, k].map fun m => m.nullifier encodingCircomlib).Nodup := by
    refine List.nodup_cons.mpr ⟨fun heq => ?_, List.nodup_singleton _⟩
    exact hsecrets (encodingEnv_ideal.injective.poseidon2_inj (List.mem_singleton.mp heq)).1
  obtain ⟨-, ⟨⟩, s', hx, -⟩ := (consolidate_proved_iff encodingEnv_ideal hs hres hmerge hmem
    hknown).mpr ⟨hpaused, fun i hi => by rw [List.mem_singleton.mp hi, hroot, hroot'], hdistinct,
      by simpa using hsum, hroom⟩
  obtain ⟨-, -, -, -, spent', r, t', -, hins, rfl⟩ := consolidate_ok hx
  refine ⟨consolidateInputs encodingCircomlib first [second], t', spent', _, ?_,
    hfirst.nullifier, hsecond.nullifier, rfl, rfl, hx, rfl⟩
  rw [CommitmentMerkleTree.insert_ok_leaves hs.notes.history hins, List.length_append]
  rfl

theorem exec_fund_dollar (time : ℕ) (hpaused : s.paused = false)
    (hoperator : s.signingLayerOperator = 1) (hwallet : s.depositWallet = 2)
    (hdeployed : s.deployedToPolymarket = 0) (hcap : s.deploymentCap = 2 ^ 256 - 1)
    (hheld : 1000000 ≤ s.usdc.balanceOf 9) :
    ∃ s', exec encodingEnv ⟨1, time⟩ s (.fundPolymarketWallet 1000000) = .ok s' ∧ s' = { s with
      deployedToPolymarket := 1000000
      usdc := ⟨movedBalances s.usdc.balanceOf 9 2 1000000, s.usdc.allowance⟩
      logs := s.logs ++ [.fundedPolymarketWallet 1000000] } := by
  refine ⟨_, ?_, rfl⟩
  simp only [exec, fundPolymarketWallet, whenNotPaused, Except.bind_eq_ok, revertIf_eq_ok,
    Except.pure_eq_ok, exists_const, hpaused, hoperator, hwallet, hdeployed, hcap]
  refine ⟨Bool.false_ne_true, fun h => h rfl, not_lt.mpr hheld, 1000000, rfl, by decide, _,
    safeTransfer_eq_ok.mpr (if_neg (not_or.mpr ⟨by decide, not_lt.mpr hheld⟩)), rfl⟩

theorem exec_acknowledge_dollar (time : ℕ) (hoperator : s.signingLayerOperator = 1)
    (hdeployed : s.deployedToPolymarket = 1000000) :
    ∃ s', exec encodingEnv ⟨1, time⟩ s (.acknowledgePolymarketReturn 1000000) = .ok s' ∧
      s' = { s with
        deployedToPolymarket := 0
        logs := s.logs ++ [.polymarketReturnAcknowledged 1000000 (s.usdc.balanceOf 9)] } := by
  refine ⟨_, ?_, rfl⟩
  simp only [exec, acknowledgePolymarketReturn, Except.bind_eq_ok, revertIf_eq_ok,
    Except.pure_eq_ok, exists_const, hoperator, hdeployed]
  exact ⟨fun h => h rfl, lt_irrefl _, 0, rfl, rfl⟩

theorem exec_resolve_first (time : ℕ) (hctf : s.ctf = firstSideWon)
    (hoperator : s.signingLayerOperator = 1) (hunresolved : s.marketResolvedAt 5 = 0) :
    ∃ payouts s', payouts 0 = 1 ∧ exec encodingEnv ⟨1, time⟩ s (.resolveMarket 5) = .ok s' ∧
      s' = { s with
        pendingCredit := Function.update s.pendingCredit 5 payouts
        marketResolvedAt := Function.update s.marketResolvedAt 5 (UInt64.ofNat time)
        conditionIdOf := Function.update s.conditionIdOf 5 5
        logs := s.logs ++ [.marketResolved 5 (UInt64.ofNat time)] } := by
  have hkey : circuitKey 5 = (5 : ℚ) := by norm_num [circuitKey, bn254P]
  refine ⟨(payoutsOf s.ctf 5 2 (s.pendingCredit 5)).payouts, _, by rw [hctf]; rfl,
    (resolveMarket_eq_ok ?_).mpr ⟨hoperator.symm, ?_, ?_, ⟨⟨0, ?_⟩, fun i _ => ?_⟩, rfl⟩, ?_⟩
  · rw [hctf]
    decide
  · rw [hkey]
    exact hunresolved
  · rw [hctf]
    decide
  · rw [hctf]
    decide
  · have hle : s.ctf.quotient 5 i ≤ 1 := by
      rw [hctf, Ctf.quotient, firstSideWon]
      simp only [Nat.div_one]
      split <;> omega
    omega
  · rw [resolvedState, hkey, hctf]
    rfl

theorem exec_sweep (time : ℕ) (howner : s.owner = 3) (hheld : 1000 ≤ s.usdc.balanceOf 9) :
    ∃ s', exec encodingEnv ⟨3, time⟩ s (.adminSweep 4 1000) = .ok s' ∧ s' = { s with
      usdc := ⟨movedBalances s.usdc.balanceOf 9 4 1000, s.usdc.allowance⟩
      logs := s.logs ++ [.adminSwept 4 1000] } := by
  refine ⟨_, ?_, rfl⟩
  simp only [exec, adminSweep, onlyOwner, Except.bind_eq_ok, revertIf_eq_ok, Except.pure_eq_ok,
    exists_const, howner]
  exact ⟨fun h => h rfl, by decide, _,
    safeTransfer_eq_ok.mpr (if_neg (not_or.mpr ⟨by decide, not_lt.mpr hheld⟩)), rfl⟩

end Stages

/-- Every call of the run is accepted; `s k` is the state after `k` actions. -/
structure PooledRun (bet : BetAuthInputs ℚ) (credit : CreditInputs ℚ) (merge : ConsolidateInputs ℚ)
    (s : ℕ → VaultState ℚ) : Prop where
  start : s 0 = pooledVault
  deposits : exec encodingEnv ⟨7, 1⟩ (s 0)
    (.deposit () (twoDollarNote.commitment encodingCircomlib) 2000000) = .ok (s 1)
  deposits' : exec encodingEnv ⟨7, 2⟩ (s 1)
    (.deposit () (otherDollarNote.commitment encodingCircomlib) 1000000) = .ok (s 2)
  bets : exec encodingEnv ⟨1, 3⟩ (s 2) (.authorizeBet () bet.publicInputs) = .ok (s 3)
  funds : exec encodingEnv ⟨1, 4⟩ (s 3) (.fundPolymarketWallet 1000000) = .ok (s 4)
  funded : (s 4).usdc.balanceOf 9 = 5000000
  world : s 5 = { s 4 with usdc := ⟨fun _ => 8000000, fun _ => 0⟩, ctf := firstSideWon }
  acknowledges : exec encodingEnv ⟨1, 5⟩ (s 5) (.acknowledgePolymarketReturn 1000000) = .ok (s 6)
  resolves : exec encodingEnv ⟨1, 6⟩ (s 6) (.resolveMarket 5) = .ok (s 7)
  settles : exec encodingEnv ⟨7, 7⟩ (s 7) (CreditKind.settlement.call credit.core 5 2000000 ()
    pooledFilled (pooledFilled, 1)) = .ok (s 8)
  settlesBet : credit.nullifierOfBet = twoDollarNote.nullifier encodingCircomlib
  won : (s 7).betRecords (twoDollarNote.nullifier encodingCircomlib) = dollarBetRecord
  merges : exec encodingEnv ⟨7, 8⟩ (s 8) (.consolidate () merge.publicInputs) = .ok (s 9)
  merged : merge.nullifier 1 = otherDollarNote.nullifier encodingCircomlib
  sweeps : exec encodingEnv ⟨3, 9⟩ (s 9) (.adminSweep 4 1000) = .ok (s 10)
  settled : (s 10).betRecords (twoDollarNote.nullifier encodingCircomlib)
    = { dollarBetRecord with status := .credited }
  logs : (s 10).logs = [
    .deposited 7 (twoDollarNote.commitment encodingCircomlib) 2000000,
    .deposited 7 (otherDollarNote.commitment encodingCircomlib) 1000000,
    .betAuthorized (twoDollarNote.nullifier encodingCircomlib) 5 6 2000000 1000000 50000000 0
      bet.newCommitment 2000 0,
    .fundedPolymarketWallet 1000000,
    .polymarketReturnAcknowledged 1000000 8000000,
    .marketResolved 5 6,
    .settlementCredited credit.nullifier (twoDollarNote.nullifier encodingCircomlib)
      credit.newCommitment,
    .consolidated merge.nullifier merge.newCommitment,
    .adminSwept 4 1000]

/-- The bet is open: what is left of the two dollars and the other dollar are unspent. -/
structure BetOpen (s : VaultState ℚ) (next : Note ℚ) : Prop where
  reached : ∃ as tr, runActions encodingEnv pooledVault as = ⟨s, tr⟩
  next_mem : next ∈ hiddenNotes encodingCircomlib s.tree
  other_mem : otherDollarNote ∈ hiddenNotes encodingCircomlib s.tree
  follows : next.Follows twoDollarNote
  balance : next.balance = 998000
  spent : s.spent
    = Function.update (fun _ => false) (twoDollarNote.nullifier encodingCircomlib) true
  leaves : s.tree.leaves.length = 3
  record : s.betRecords (twoDollarNote.nullifier encodingCircomlib) = dollarBetRecord
  paused : s.paused = false
  operator : s.signingLayerOperator = 1
  owner : s.owner = 3

theorem invariants_of_reached {s : VaultState ℚ}
    (h : ∃ as tr, runActions encodingEnv pooledVault as = ⟨s, tr⟩) :
    BooksInv encodingEnv s ∧ Reserves encodingEnv s := by
  obtain ⟨as, tr, h⟩ := h
  have hdeploy : deploy encodingEnv pooledArgs = .ok pooledVault := rfl
  have hbooks := (notesHistory_runActions encodingEnv_ideal hdeploy as).books
  have hres := reserves_runActions encodingEnv_ideal hdeploy as
  rw [h] at hbooks hres
  exact ⟨hbooks, hres⟩

theorem exists_betOpen : ∃ (bet : BetAuthInputs ℚ) (next : Note ℚ) (s₁ s₂ s₃ : VaultState ℚ),
    exec encodingEnv ⟨7, 1⟩ pooledVault
      (.deposit () (twoDollarNote.commitment encodingCircomlib) 2000000) = .ok s₁ ∧
    exec encodingEnv ⟨7, 2⟩ s₁
      (.deposit () (otherDollarNote.commitment encodingCircomlib) 1000000) = .ok s₂ ∧
    exec encodingEnv ⟨1, 3⟩ s₂ (.authorizeBet () bet.publicInputs) = .ok s₃ ∧
    BetOpen s₃ next ∧ s₃.usdc.balanceOf 9 = 6000000 ∧ s₃.depositWallet = 2 ∧
    s₃.deployedToPolymarket = 0 ∧ s₃.deploymentCap = 2 ^ 256 - 1 ∧ s₃.marketResolvedAt 5 = 0 ∧
    s₃.logs = [
      .deposited 7 (twoDollarNote.commitment encodingCircomlib) 2000000,
      .deposited 7 (otherDollarNote.commitment encodingCircomlib) 1000000,
      .betAuthorized (twoDollarNote.nullifier encodingCircomlib) 5 6 2000000 1000000 50000000 0
        bet.newCommitment 2000 0] := by
  have h0 : runActions encodingEnv pooledVault [] = ⟨pooledVault, []⟩ := rfl
  have hleaves0 : pooledVault.tree.leaves.length = 0 := by
    simp [pooledVault, initializeV2, initialState, CommitmentMerkleTree.leaves,
      CommitmentMerkleTree.initializeTree]
  obtain ⟨t1, s1, hleaves1, hn1, hx1, hs1⟩ := exec_pooled_deposit
    (invariants_of_reached ⟨_, _, h0⟩).1 (n := twoDollarNote) 1 rfl rfl rfl (by decide)
    (by decide) (by decide) (by rw [hleaves0]; decide)
  have h1 := runActions_snoc h0 hx1
  have hmoney1 : s1.cumulativeDeposits 7 = 2000000 ∧ s1.usdc.allowance 7 = 1000000 ∧
      s1.usdc.balanceOf 7 = 1000000 := by
    rw [hs1]
    exact ⟨rfl, rfl, rfl⟩
  obtain ⟨hcum1, hallow1, hbal1⟩ := hmoney1
  have htree1 : s1.tree = t1 := by rw [hs1]
  obtain ⟨t2, s2, hleaves2, hk2, hx2, hs2⟩ := exec_pooled_deposit
    (invariants_of_reached ⟨_, _, h1⟩).1 (n := otherDollarNote) 2 rfl rfl
    (by rw [hs1]; rfl) (by rw [hcum1]; decide) (by rw [hallow1]; decide) (by rw [hbal1]; decide)
    (by rw [htree1, hleaves1, hleaves0]; decide)
  have h2 := runActions_snoc h1 hx2
  have htree2 : s2.tree = t2 := by rw [hs2]
  have hspent2 : s2.spent = fun _ => false := by rw [hs2, hs1]; rfl
  have hn2 : twoDollarNote ∈ hiddenNotes encodingCircomlib s2.tree :=
    mem_hiddenNotes_exec encodingEnv_ideal (invariants_of_reached ⟨_, _, h1⟩).1 hx2
      (by rw [htree1]; exact hn1)
  have hlen2 : s2.tree.leaves.length = 2 := by rw [htree2, hleaves2, htree1, hleaves1, hleaves0]
  obtain ⟨hbooks2, hres2⟩ := invariants_of_reached ⟨_, _, h2⟩
  obtain ⟨bet, t3, next, s3, -, hleaves3, hcont, hbal3, hx3, hs3⟩ :=
    exec_dollar_bet hbooks2 hres2 3 hn2 (by rw [hspent2]) (by rw [hs2, hs1]; rfl)
      (by rw [hs2, hs1]; rfl) (by rw [hlen2]; decide)
  have hother : otherDollarNote ∈ hiddenNotes encodingCircomlib s3.tree :=
    mem_hiddenNotes_exec encodingEnv_ideal hbooks2 hx3 (by rw [htree2]; exact hk2)
  have hheld : s3.usdc.balanceOf 9 = 6000000 := by
    rw [hs3, hs2, hs1]
    simp [movedBalances, pooledVault, initializeV2, initialState, pooledArgs, twoDollarNote,
      otherDollarNote, oneDollarNote]
  have hopen : BetOpen s3 next := by
    refine ⟨⟨_, _, runActions_snoc h2 hx3⟩, hcont.mem, hother, hcont.follows, hbal3, ?_,
      ?_, ?_, ?_, ?_, ?_⟩
    · rw [hs3, ← hspent2]
    · rw [hs3, hleaves3, hlen2]
    · rw [hs3]
      simp only [Function.update_self]
    all_goals
      rw [hs3, hs2, hs1]
      rfl
  refine ⟨bet, next, s1, s2, s3, hx1, hx2, hx3, hopen, hheld, ?_, ?_, ?_, ?_, ?_⟩ <;>
  · rw [hs3, hs2, hs1]
    rfl

theorem BetOpen.exists_resolved {s₃ : VaultState ℚ} {next : Note ℚ} (h : BetOpen s₃ next)
    (hheld : s₃.usdc.balanceOf 9 = 6000000) (hwallet : s₃.depositWallet = 2)
    (hdeployed : s₃.deployedToPolymarket = 0) (hcap : s₃.deploymentCap = 2 ^ 256 - 1)
    (hunresolved : s₃.marketResolvedAt 5 = 0) : ∃ s₄ s₆ s₇,
      exec encodingEnv ⟨1, 4⟩ s₃ (.fundPolymarketWallet 1000000) = .ok s₄ ∧
      s₄.usdc.balanceOf 9 = 5000000 ∧
      exec encodingEnv ⟨1, 5⟩
        { s₄ with usdc := ⟨fun _ => 8000000, fun _ => 0⟩, ctf := firstSideWon }
        (.acknowledgePolymarketReturn 1000000) = .ok s₆ ∧
      exec encodingEnv ⟨1, 6⟩ s₆ (.resolveMarket 5) = .ok s₇ ∧ BetOpen s₇ next ∧
      s₇.marketResolvedAt 5 ≠ 0 ∧ s₇.pendingCredit 5 0 = 1 ∧ s₇.usdc.balanceOf 9 = 8000000 ∧
      s₇.logs = s₃.logs ++ [.fundedPolymarketWallet 1000000,
        .polymarketReturnAcknowledged 1000000 8000000, .marketResolved 5 6] := by
  obtain ⟨as, tr, h3⟩ := h.reached
  obtain ⟨s4, hx4, hs4⟩ := exec_fund_dollar 4 h.paused h.operator hwallet hdeployed hcap
    (by rw [hheld]; decide)
  have h4 := runActions_snoc h3 hx4
  have h5 := runActions_world h4 ⟨fun _ => 8000000, fun _ => 0⟩ firstSideWon
  obtain ⟨s6, hx6, hs6⟩ := exec_acknowledge_dollar (s := { s4 with
    usdc := ⟨fun _ => 8000000, fun _ => 0⟩, ctf := firstSideWon }) 5
    (by rw [hs4]; exact h.operator) (by rw [hs4])
  have h6 := runActions_snoc h5 hx6
  obtain ⟨payouts, s7, hpayouts, hx7, hs7⟩ := exec_resolve_first (s := s6) 6
    (by rw [hs6]) (by rw [hs6, hs4]; exact h.operator) (by rw [hs6, hs4]; exact hunresolved)
  have h7 := runActions_snoc h6 hx7
  have hopen : BetOpen s7 next := by
    have hsame : s7.tree = s₃.tree ∧ s7.spent = s₃.spent ∧ s7.betRecords = s₃.betRecords ∧
        s7.paused = s₃.paused ∧ s7.signingLayerOperator = s₃.signingLayerOperator ∧
        s7.owner = s₃.owner := by
      rw [hs7, hs6, hs4]
      exact ⟨rfl, rfl, rfl, rfl, rfl, rfl⟩
    obtain ⟨htree, hspent, hrecords, hpaused, hoperator, howner⟩ := hsame
    refine ⟨⟨_, _, h7⟩, ?_, ?_, h.follows, h.balance, ?_, ?_, ?_, ?_, ?_, ?_⟩
    · rw [htree]
      exact h.next_mem
    · rw [htree]
      exact h.other_mem
    · rw [hspent]
      exact h.spent
    · rw [htree]
      exact h.leaves
    · rw [hrecords]
      exact h.record
    · rw [hpaused]
      exact h.paused
    · rw [hoperator]
      exact h.operator
    · rw [howner]
      exact h.owner
  refine ⟨s4, s6, s7, hx4, ?_, hx6, hx7, hopen, ?_, ?_, ?_, ?_⟩
  · have hmoved : movedBalances s₃.usdc.balanceOf 9 2 1000000 9
        = s₃.usdc.balanceOf 9 - 1000000 := by
      simp [movedBalances]
    rw [hs4]
    show movedBalances s₃.usdc.balanceOf 9 2 1000000 9 = 5000000
    rw [hmoved, hheld]
  · rw [hs7]
    simp only [Function.update_self]
    decide
  · rw [hs7]
    simp only [Function.update_self]
    exact hpayouts
  · rw [hs7, hs6]
  · rw [hs7, hs6, hs4]
    simp only [List.append_assoc]
    rfl

theorem BetOpen.exists_merged {s₇ : VaultState ℚ} {next : Note ℚ} (h : BetOpen s₇ next)
    (hresolved : s₇.marketResolvedAt 5 ≠ 0) (hpays : s₇.pendingCredit 5 0 = 1)
    (hheld : s₇.usdc.balanceOf 9 = 8000000) :
    ∃ (credit : CreditInputs ℚ) (merge : ConsolidateInputs ℚ) (s₈ s₉ s₁₀ : VaultState ℚ),
      exec encodingEnv ⟨7, 7⟩ s₇ (CreditKind.settlement.call credit.core 5 2000000 ()
        pooledFilled (pooledFilled, 1)) = .ok s₈ ∧
      credit.nullifierOfBet = twoDollarNote.nullifier encodingCircomlib ∧
      exec encodingEnv ⟨7, 8⟩ s₈ (.consolidate () merge.publicInputs) = .ok s₉ ∧
      merge.nullifier 1 = otherDollarNote.nullifier encodingCircomlib ∧
      exec encodingEnv ⟨3, 9⟩ s₉ (.adminSweep 4 1000) = .ok s₁₀ ∧
      s₁₀.betRecords (twoDollarNote.nullifier encodingCircomlib)
        = { dollarBetRecord with status := .credited } ∧
      s₁₀.logs = s₇.logs ++ [.settlementCredited credit.nullifier
          (twoDollarNote.nullifier encodingCircomlib) credit.newCommitment,
        .consolidated merge.nullifier merge.newCommitment, .adminSwept 4 1000] := by
  obtain ⟨as, tr, h7⟩ := h.reached
  obtain ⟨hbooks7, hres7⟩ := invariants_of_reached h.reached
  have hne {n m : Note ℚ} (hnm : n.secret ≠ m.secret ∨ n.nonce ≠ m.nonce) :
      n.nullifier encodingCircomlib ≠ m.nullifier encodingCircomlib := fun heq => by
    obtain ⟨hsecret, hnonce⟩ :=
      Note.nullifier_inj encodingEnv_ideal.injective encodingEnv_ideal.wide heq
    exact hnm.elim (fun hs => hs hsecret) fun hn => hn hnonce
  have hunspent {n : Note ℚ} (hn : n.secret ≠ twoDollarNote.secret ∨ n.nonce ≠ 0) :
      s₇.spent (n.nullifier encodingCircomlib) = false := by
    rw [h.spent, Function.update_of_ne (hne hn)]
  have hnextNonce : next.nonce = 1 := h.follows.nonce
  obtain ⟨credit, t8, last, s8, hleaves8, hcont8, hbal8, hspends8, hbet8, hx8, hs8⟩ :=
    exec_settle_won hbooks7 hres7 7 h.next_mem
      (hunspent (.inr (by rw [hnextNonce]; decide))) h.follows h.balance h.paused
      (by rw [h.leaves]; decide) h.operator h.record hresolved hpays
  have h8 := runActions_snoc h7 hx8
  obtain ⟨hbooks8, hres8⟩ := invariants_of_reached ⟨_, _, h8⟩
  have hspent8 : s8.spent = Function.update s₇.spent (next.nullifier encodingCircomlib) true := by
    rw [hs8]
  have hother : otherDollarNote.secret ≠ twoDollarNote.secret := by
    norm_num [otherDollarNote, twoDollarNote, oneDollarNote]
  have hlastSecret : last.secret = twoDollarNote.secret :=
    hcont8.follows.secret.trans h.follows.secret
  have hotherNext : otherDollarNote.secret ≠ next.secret := by
    rw [h.follows.secret]
    exact hother
  obtain ⟨merge, t9, spent9, s9, hleaves9, -, hmerge1, -, -, hx9, hs9⟩ :=
    exec_merge hbooks8 hres8 8 (n := last) (k := otherDollarNote)
      hcont8.mem (mem_hiddenNotes_exec encodingEnv_ideal hbooks7 hx8 h.other_mem)
      hcont8.unspent
      (by
        rw [hspent8, Function.update_of_ne (hne (.inl hotherNext))]
        exact hunspent (.inl hother))
      (hcont8.follows.owner.trans h.follows.owner) rfl
      (fun heq => hother (heq.symm.trans hlastSecret)) (by rw [hbal8]; decide)
      (by rw [hs8]; exact h.paused)
      (by rw [show s8.tree = t8 by rw [hs8], hleaves8, h.leaves]; decide)
  have hsame9 : s9.owner = 3 ∧ s9.usdc.balanceOf 9 = 8000000 := by
    rw [hs9, hs8]
    exact ⟨h.owner, hheld⟩
  obtain ⟨s10, hx10, hs10⟩ := exec_sweep 9 hsame9.1 (by rw [hsame9.2]; decide)
  refine ⟨credit, merge, s8, s9, s10, hx8, hbet8, hx9, hmerge1, hx10, ?_, ?_⟩
  · rw [hs10, hs9, hs8]
    simp only [Function.update_self]
  · rw [hs10, hs9, hs8, hspends8]
    simp only [List.append_assoc]
    rfl

theorem exists_pooledRun : ∃ bet credit merge s, PooledRun bet credit merge s := by
  obtain ⟨bet, next, s1, s2, s3, hx1, hx2, hx3, hopen3, hheld3, hwallet, hdeployed, hcap,
    hunresolved, hlogs3⟩ := exists_betOpen
  obtain ⟨s4, s6, s7, hx4, hheld4, hx6, hx7, hopen7, hresolved, hpays, hheld7, hlogs7⟩ :=
    hopen3.exists_resolved hheld3 hwallet hdeployed hcap hunresolved
  obtain ⟨credit, merge, s8, s9, s10, hx8, hbet, hx9, hmerged, hx10, hsettled, hlogs⟩ :=
    hopen7.exists_merged hresolved hpays hheld7
  refine ⟨bet, credit, merge, fun k => [pooledVault, s1, s2, s3, s4, { s4 with
    usdc := ⟨fun _ => 8000000, fun _ => 0⟩, ctf := firstSideWon }, s6, s7, s8, s9, s10].getD k
    pooledVault, rfl, hx1, hx2, hx3, hx4, hheld4, rfl, hx6, hx7, hx8, hbet, hopen7.record, hx9,
    hmerged,
    hx10, hsettled, ?_⟩
  show s10.logs = _
  rw [hlogs, hlogs7, hlogs3]
  rfl

theorem PooledRun.runActions {bet : BetAuthInputs ℚ} {credit : CreditInputs ℚ}
    {merge : ConsolidateInputs ℚ} {s : ℕ → VaultState ℚ} (h : PooledRun bet credit merge s) :
    runActions encodingEnv pooledVault (pooledRun bet credit merge) = ⟨s 10, [
      ⟨s 0, ⟨7, 1⟩, .deposit () (twoDollarNote.commitment encodingCircomlib) 2000000, s 1⟩,
      ⟨s 1, ⟨7, 2⟩, .deposit () (otherDollarNote.commitment encodingCircomlib) 1000000, s 2⟩,
      ⟨s 2, ⟨1, 3⟩, .authorizeBet () bet.publicInputs, s 3⟩,
      ⟨s 3, ⟨1, 4⟩, .fundPolymarketWallet 1000000, s 4⟩,
      ⟨s 5, ⟨1, 5⟩, .acknowledgePolymarketReturn 1000000, s 6⟩,
      ⟨s 6, ⟨1, 6⟩, .resolveMarket 5, s 7⟩,
      ⟨s 7, ⟨7, 7⟩, CreditKind.settlement.call credit.core 5 2000000 () pooledFilled
        (pooledFilled, 1), s 8⟩,
      ⟨s 8, ⟨7, 8⟩, .consolidate () merge.publicInputs, s 9⟩,
      ⟨s 9, ⟨3, 9⟩, .adminSweep 4 1000, s 10⟩]⟩ := by
  have h5 := runActions_world (runActions_snoc (runActions_snoc (runActions_snoc (runActions_snoc
    (show Polyshield.runActions encodingEnv pooledVault [] = ⟨s 0, []⟩ by rw [h.start]; rfl)
    h.deposits) h.deposits') h.bets) h.funds) ⟨fun _ => 8000000, fun _ => 0⟩ firstSideWon
  rw [← h.world] at h5
  exact runActions_snoc (runActions_snoc (runActions_snoc (runActions_snoc (runActions_snoc h5
    h.acknowledges) h.resolves) h.settles) h.merges) h.sweeps

/-! ## Conservation -/

variable {F Proof Sig : Type} [Field F] [DecidableEq F] {E : Env F Proof Sig}

/-- In every state a run reaches, the unspent notes, the claimable and provisional
fees and the open stakes are worth at most what was deposited, less what was paid
out, plus what settlements and closes credited, less the stakes of the bets that
ended so; and exactly that while no two committed notes share a nullifier. -/
theorem ledger_conservation (hE : E.Ideal) {args : InitArgs} {s : VaultState F}
    (h : deploy E args = .ok s) (as : List (Action F Proof Sig)) :
    let ch := runActions E s as
    let owed : ℤ := ch.state.notesValue E + ch.state.feeAccumulator + ch.state.provisionalFees
      + ch.state.openStakes
    let backed : ℤ := total Executed.deposited ch.trace - total Executed.paidOut ch.trace
      + total Executed.credited ch.trace - ch.state.settledStakes
    owed ≤ backed ∧ (DistinctNullifiers E.circomlib ch.state.tree → owed = backed) := by
  have hch := chainPosts_runActions hE h as
  have hle := hch.le
  unfold VaultState.books at hle
  refine ⟨by omega, fun hd => ?_⟩
  have heq := hch.eq hd
  unfold VaultState.books at heq
  omega

theorem PooledRun.settledStakes {bet : BetAuthInputs ℚ} {credit : CreditInputs ℚ}
    {merge : ConsolidateInputs ℚ} {s : ℕ → VaultState ℚ} (h : PooledRun bet credit merge s) :
    (s 10).settledStakes = 1000000 := by
  have hbets : (s 10).bets = {twoDollarNote.nullifier encodingCircomlib} := by
    rw [VaultState.bets, VaultState.betList, h.logs]
    rfl
  rw [VaultState.settledStakes, hbets, Finset.sum_singleton, h.settled]
  rfl

/-- A bet of one dollar has won two. -/
theorem ledger_conservation_pooled : ∃ bet credit merge,
    let ch := runActions encodingEnv pooledVault (pooledRun bet credit merge)
    total Executed.deposited ch.trace = 3000000 ∧ total Executed.credited ch.trace = 2000000 ∧
    ch.state.settledStakes = 1000000 ∧
    let owed : ℤ := ch.state.notesValue encodingEnv + ch.state.feeAccumulator
      + ch.state.provisionalFees + ch.state.openStakes
    let backed : ℤ := total Executed.deposited ch.trace - total Executed.paidOut ch.trace
      + total Executed.credited ch.trace - ch.state.settledStakes
    owed ≤ backed ∧ (DistinctNullifiers encodingCircomlib ch.state.tree → owed = backed) := by
  obtain ⟨bet, credit, merge, s, h⟩ := exists_pooledRun
  have hs : deploy encodingEnv pooledArgs = .ok pooledVault := rfl
  refine ⟨bet, credit, merge, ?_, ?_, ?_, ledger_conservation encodingEnv_ideal hs _⟩
  · rw [h.runActions]
    simp [total, Executed.deposited, CreditKind.call]
  · rw [h.runActions]
    simp [total, Executed.credited, CreditKind.call]
  · rw [h.runActions]
    exact h.settledStakes

/-! ## Lineages -/

/-- In every state a run reaches, the committed notes are in lineages. A note continues one of
each nonce before its own, all of them spent, so an unspent note is the last of its lineage. What
is spent is a note, the notes of nonce 0 are the deposits, and nullifiers are distinct exactly when
no two deposits share a secret. -/
theorem notes_in_lineages (hE : E.Ideal) {args : InitArgs} {s : VaultState F}
    (h : deploy E args = .ok s) (as : List (Action F Proof Sig)) :
    let s' := (runActions E s as).state
    let notes := hiddenNotes E.circomlib s'.tree
    (∀ n ∈ notes, ∀ k < n.nonce, ∃ m ∈ notes, m.nonce = k ∧ m.secret = n.secret ∧
      m.owner = n.owner ∧ s'.spent (m.nullifier E.circomlib) = true) ∧
    (∀ n ∈ notes, s'.spent (n.nullifier E.circomlib) = false →
      ∀ m ∈ notes, m.secret = n.secret → m.nonce ≤ n.nonce) ∧
    (∀ x, s'.spent x = true → ∃ n ∈ notes, n.nullifier E.circomlib = x) ∧
    (∀ depositor c amount, .deposited depositor c amount ∈ s'.logs ↔ ∃ n ∈ notes, n.nonce = 0 ∧
      n.owner = (depositor.toNat : F) ∧ n.commitment E.circomlib = c ∧ n.balance = amount) ∧
    (DistinctNullifiers E.circomlib s'.tree ↔
      ((notes.filter (·.nonce = 0)).map Note.secret).Nodup) := by
  have hch := notesHistory_runActions hE h as
  refine ⟨fun n hn k hk => ?_, fun n hn hun m hm hsec => ?_, hch.books.notes.spentNotes,
    fun depositor c amount => ⟨hch.committed depositor c amount, ?_⟩, nodup_secrets_of_distinct,
    hch.distinct⟩
  · obtain ⟨m, hm, hnon, hsec, howner⟩ := hch.chain n hn k hk.le
    refine ⟨m, hm, hnon, hsec, howner, ?_⟩
    rw [Note.nullifier, hsec, hnon]
    exact hch.earlier n hn k hk
  · by_contra hlt
    have := hch.earlier m hm n.nonce (not_le.mp hlt)
    rw [hsec] at this
    exact absurd (hun.symm.trans this) (by decide)
  · rintro ⟨n, hn, h0, howner, rfl, rfl⟩
    obtain ⟨depositor', howner', hmem⟩ := hch.deposited n hn h0
    have heq : depositor' = depositor := BitVec.eq_of_toNat_eq (hE.wide.eq
      (depositor'.isLt.trans (by decide)) (depositor.isLt.trans (by decide))
      (howner'.symm.trans howner))
    rwa [heq] at hmem

/-- Two lineages are deposited, one is bet on, credited and merged with the other. -/
theorem notes_in_lineages_pooled : ∃ bet credit merge,
    let s' := (runActions encodingEnv pooledVault (pooledRun bet credit merge)).state
    let notes := hiddenNotes encodingCircomlib s'.tree
    s'.logs.length = 9 ∧
    (∀ n ∈ notes, ∀ k < n.nonce, ∃ m ∈ notes, m.nonce = k ∧ m.secret = n.secret ∧
      m.owner = n.owner ∧ s'.spent (m.nullifier encodingCircomlib) = true) ∧
    (∀ n ∈ notes, s'.spent (n.nullifier encodingCircomlib) = false →
      ∀ m ∈ notes, m.secret = n.secret → m.nonce ≤ n.nonce) ∧
    (∀ x, s'.spent x = true → ∃ n ∈ notes, n.nullifier encodingCircomlib = x) ∧
    (∀ depositor c amount, .deposited depositor c amount ∈ s'.logs ↔ ∃ n ∈ notes, n.nonce = 0 ∧
      n.owner = (depositor.toNat : ℚ) ∧ n.commitment encodingCircomlib = c ∧ n.balance = amount) ∧
    (DistinctNullifiers encodingCircomlib s'.tree ↔
      ((notes.filter (·.nonce = 0)).map Note.secret).Nodup) := by
  obtain ⟨bet, credit, merge, s, h⟩ := exists_pooledRun
  have hs : deploy encodingEnv pooledArgs = .ok pooledVault := rfl
  refine ⟨bet, credit, merge, ?_, notes_in_lineages encodingEnv_ideal hs _⟩
  rw [h.runActions, h.logs]
  rfl

end Polyshield
