import Polyshield.Wallet.Refinement
import Polyshield.Wallet.Submitted

/-!
# What the app offers lands

The chain of an app is a run of the Vault, so what holds in every run holds next
to it: what a page lets through from an unspent note of the cache is proved and
accepted, but for what only the Vault can know.
-/

namespace Polyshield.Wallet

variable {F Proof Sig : Type} [Field F] [DecidableEq F] {E : Env F Proof Sig}
  {ses : Session F Proof Sig}

/-! ## The chain of the app -/

/-- Every step of the app is a step of the chain, or none. -/
theorem AppRun.exists_actions {Others : VaultState F → VaultState F → Prop} {s₀ : VaultState F}
    {t : AppState F Proof Sig} (h : AppRun E ses Others s₀ t) :
    ∃ as, t.chain = runActions E s₀ as := by
  induction h with
  | initial => exact ⟨[], rfl⟩
  | step _ hstep ih =>
    obtain ⟨as, has⟩ := ih
    cases hstep with
    | others a _ =>
      refine ⟨as ++ [a], ?_⟩
      rw [runActions_append, ← has]
      rfl
    | @land op _ _ m merkle proof v _ hexec =>
      refine ⟨as ++ [.call m (op.call E.circomlib ses merkle proof)], ?_⟩
      rw [runActions_append, ← has]
      simp only [extend, List.foldl_cons, List.foldl_nil, advance, hexec]
    | submit | abandon | confirm | lose | reconcile | retire => exact ⟨as, has⟩

theorem AppRun.reserves (hE : E.Ideal) {Others : VaultState F → VaultState F → Prop}
    {args : InitArgs} {s₀ : VaultState F} (hdeploy : deploy E args = .ok s₀)
    {t : AppState F Proof Sig} (h : AppRun E ses Others s₀ t) : Reserves E t.chain.state := by
  obtain ⟨as, has⟩ := h.exists_actions
  rw [has]
  exact reserves_runActions hE hdeploy as

/-! ## Paths -/

/-- The indices as the provers take them. -/
def MerkleProof.indices (p : MerkleProof F) : List ℤ :=
  p.pathIndices.map fun bit => if bit then 1 else 0

/-- The path is of the commitment, to a root that the Vault knows. -/
structure MerkleProof.Opens (C : Circomlib F) (s : VaultState F) (p : MerkleProof F)
    (commitment : F) : Prop where
  path : PoseidonMerklePath C.poseidon2 treeDepth commitment p.path (p.indices.map Int.cast) p.root
  known : s.tree.isKnownRoot p.root = true

theorem exists_opens (hE : E.Ideal) {s : VaultState F} (hs : BooksInv E s) (hres : Reserves E s)
    {n : Polyshield.Note F} (hn : n ∈ hiddenNotes E.circomlib s.tree) :
    ∃ p : MerkleProof F, p.Opens E.circomlib s (n.commitment E.circomlib) := by
  obtain ⟨i, hi, hleaf⟩ := List.getElem_of_mem (commitment_mem_leaves hn)
  let path := Merkle.authPath E.circomlib.poseidon2 (Merkle.padded 0 s.tree.leaves) treeDepth 0 i
  refine ⟨⟨path.map Prod.fst, path.map Prod.snd, s.tree.currentRoot⟩, ?_,
    hres.isKnownRoot_currentRoot hs.notes.history hE⟩
  have h := satisfies_of_authPath E.circomlib.poseidon2 hi hres.leaves
    (p := ⟨path.map Prod.fst, path.map fun x => (x.2.toNat : ℤ), s.tree.currentRoot, i⟩) rfl rfl
  rw [hleaf, ← hs.notes.history.frontier.currentRoot] at h
  have hindices : MerkleProof.indices ⟨path.map Prod.fst, path.map Prod.snd, s.tree.currentRoot⟩
      = path.map fun x => (x.2.toNat : ℤ) := by
    rw [MerkleProof.indices, List.map_map]
    exact List.map_congr_left fun ⟨_, bit⟩ _ => by cases bit <;> rfl
  rw [hindices]
  exact h

/-! ## Bets -/

section Bets

variable {modal : BetModal F Proof Sig} {fc : FeeConfig} {b : Bet F} {c : Polyshield.Note F}
  {s : VaultState F} {merkle : MerkleProof F}

theorem Bet.inputs_spends {C : Circomlib F} (hs : b.cashNote.Shows C ses c)
    (hpath : merkle.Opens C s (c.commitment C)) :
    (b.inputs C ses merkle).toSpendInputs.Of C c where
  secret := hs.secret.symm
  balance := hs.balance
  nonce := hs.nonce
  owner := hs.owner.symm
  nullifier := hs.nullifier_eq.trans hs.nullifier
  path := hpath.path

/-- What the modal hands to the prover is a bet of its stake at its price. -/
theorem BetModal.Places.inputs_of {C : Circomlib F} (h : modal.Places fc b)
    (hs : b.cashNote.Shows C ses c) (hpath : merkle.Opens C s (c.commitment C)) :
    (b.inputs C ses merkle).Of C c b.stake.toNat b.priceScaled.toNat (fc.betFee b.stake.toNat) := by
  obtain ⟨stake, hstake⟩ := Int.eq_ofNat_of_zero_le h.stake_pos.le
  obtain ⟨price, hprice⟩ := Int.eq_ofNat_of_zero_le h.price_pos.le
  have hfee : b.fee = (fc.betFee stake : ℕ) := by
    rw [h.fee, hstake, FeeConfig.betFee]
    push_cast
    rfl
  have hshares := h.shares
  refine ⟨Bet.inputs_spends hs hpath, ?_, ?_, ?_, fun hle => ?_, ?_, ?_⟩
  · show b.stake = _
    rw [hstake, Int.toNat_natCast]
  · show b.shares = _
    rw [hshares, hstake, hprice, Int.toNat_natCast, Int.toNat_natCast]
    rfl
  · show (b.stake * 100000000).tmod b.priceScaled = _
    rw [hstake, hprice, Int.toNat_natCast, Int.toNat_natCast]
    rfl
  · rw [hstake, Int.toNat_natCast] at hle ⊢
    have hbal : b.newBalance = (c.balance - (stake + fc.betFee stake) : ℕ) := by
      rw [Bet.newBalance, hs.balance, hstake, hfee, Nat.cast_sub hle]
      push_cast
      ring
    show computeCommitment C (b.secret ses) b.newBalance (b.cashNote.nonce + 1) ses.address = _
    rw [hbal, computeCommitment, hs.owner, hs.nonce, ← show c.secret = b.secret ses from hs.secret,
      Int.cast_natCast]
  · show b.priceScaled = _
    rw [hprice, Int.toNat_natCast]
  · show b.fee = _
    rw [hfee, hstake, Int.toNat_natCast]

omit [Field F] [DecidableEq F] in
/-- A price of which the stake buys the smallest order is no large number. -/
theorem BetModal.Places.price_lt (h : modal.Places fc b) (hstake : b.stake < 2 ^ 64) :
    b.priceScaled.toNat < 2 ^ 253 := by
  have hmin := h.minShares
  rw [h.shares, Int.le_ediv_iff_mul_le h.price_pos] at hmin
  unfold Wallet.minShares at hmin
  omega

omit [DecidableEq F] in
/-- The price of a bet that is proved is a number of 64 bits. -/
theorem price_lt_of_proves {C : Circomlib F} (hC : C.Spec) (hF : Wide F) {i : BetAuthInputs F}
    {stake price fee : ℕ} (hi : i.Of C c stake price fee) (hprice : price < 2 ^ 253)
    (hp : i.Proves C) : price < 2 ^ 64 := by
  have hbits := hp.priceBits
  rw [hi.price, Int.cast_natCast] at hbits
  exact AssertBits.lt hC hF (by decide) hprice hbits

theorem exists_uint64 {k : ℕ} (h : k < 2 ^ 64) : ∃ x : UInt64, x.toNat = k :=
  ⟨UInt64.ofNat k, by rw [UInt64.toNat_ofNat', Nat.mod_eq_of_lt h]⟩

/-- A bet that the modal lets through, from an unspent note of the cache and with the fees of the
Vault, is proved and accepted exactly when the Vault is not paused, the price and the shares are
numbers of 64 bits and the tree has a leaf left. -/
theorem offered_bet_lands (hE : E.Ideal) {args : InitArgs} {s₀ : VaultState F}
    (hdeploy : deploy E args = .ok s₀) {Others : VaultState F → VaultState F → Prop}
    {t : AppState F Proof Sig} (hrun : AppRun E modal.session Others s₀ t) {hidden : F → Bool}
    {r : Option (ReconcileReads F)} (hsubmit : modal.submit E.circomlib hidden r = .bets b)
    (hfees : modal.feeConfigData = some t.chain.state.feeConfig)
    (hnote : b.cashNote ∈ cashNotes t.cache)
    (hun : t.chain.state.spent b.cashNote.nullifier = false) :
    let s := t.chain.state
    ∃ n ∈ hiddenNotes E.circomlib s.tree, b.cashNote.Shows E.circomlib modal.session n ∧
      (∃ p : MerkleProof F, p.Opens E.circomlib s (n.commitment E.circomlib)) ∧
      ∀ (m : Msg) (p : MerkleProof F), p.Opens E.circomlib s (n.commitment E.circomlib) →
        let i := b.inputs E.circomlib modal.session p
        ((i.Proves E.circomlib ∧ ∃ proof s', authorizeBet E m s proof i.publicInputs = .ok s' ∧
            PlacesBet E s s' n i b.stake.toNat b.priceScaled.toNat) ↔
          s.paused = false ∧ b.priceScaled < 2 ^ 64 ∧ b.shares < 2 ^ 64 ∧
            s.tree.leaves.length < 2 ^ treeDepth) := by
  intro s
  obtain ⟨⟨fc, hplaces⟩, -⟩ := submit_bets hsubmit
  obtain rfl : fc = s.feeConfig := Option.some.inj (hplaces.feeConfig.symm.trans hfees)
  have hA := hrun.tracks hE hdeploy
  have hs : BooksInv E s := hA.history.books
  have hres : Reserves E s := hrun.reserves hE hdeploy
  obtain ⟨n, hn, hshows⟩ := hA.backed _ hnote
  refine ⟨n, hn, hshows, exists_opens hE hs hres hn, fun m p hp => ?_⟩
  intro i
  have hof := hplaces.inputs_of hshows hp
  have hspent : s.spent (n.nullifier E.circomlib) = false := hshows.nullifier ▸ hun
  have hstake_pos := hplaces.stake_pos
  have hcovers := hplaces.covers
  have hbal := n.balance_lt
  have hbalance := hshows.balance
  have hfee : b.fee = (s.feeConfig.betFee b.stake.toNat : ℕ) := hof.fee
  have hstake : b.stake < 2 ^ 64 := by omega
  have hpos := hplaces.price_pos
  have hshares : b.shares.toNat = b.stake.toNat * pricePrecision / b.priceScaled.toNat := by
    have heq : b.shares = _ := hof.expectedShares
    rw [heq, Int.toNat_natCast]
  have hmin := hplaces.minimum
  have hprice : i.Proves E.circomlib → b.priceScaled.toNat < 2 ^ 64 :=
    price_lt_of_proves hE.spec hE.wide hof (hplaces.price_lt hstake)
  have hmin_shares := hplaces.minShares
  unfold Wallet.minShares at hmin_shares
  obtain ⟨stake, hstake'⟩ := exists_uint64 (k := b.stake.toNat) (by omega)
  -- In numbers of 64 bits, it is a bet of a reachable Vault.
  have hiff (h : b.priceScaled.toNat < 2 ^ 64) :
      (i.Proves E.circomlib ∧ ∃ proof s', authorizeBet E m s proof i.publicInputs = .ok s' ∧
        PlacesBet E s s' n i b.stake.toNat b.priceScaled.toNat) ↔
      s.paused = false ∧ b.shares < 2 ^ 64 ∧ s.tree.leaves.length < 2 ^ treeDepth := by
    obtain ⟨price, hprice'⟩ := exists_uint64 h
    rw [← hstake', ← hprice'] at hof ⊢
    rw [authorizeBet_proved_iff hE hs hres hof hn hspent hp.known, UInt64.le_iff_toNat_le,
      hstake', hprice', ← hshares]
    constructor
    · rintro ⟨hp, -, -, -, hlt, hroom⟩
      exact ⟨hp, by omega, hroom⟩
    · rintro ⟨hp, hlt, hroom⟩
      exact ⟨hp, by omega, by omega, by omega, by omega, hroom⟩
  constructor
  · rintro ⟨hproves, haccepted⟩
    obtain ⟨hp, hlt, hroom⟩ := (hiff (hprice hproves)).mp ⟨hproves, haccepted⟩
    have := hprice hproves
    exact ⟨hp, by omega, hlt, hroom⟩
  · rintro ⟨hp, hlt, hrest⟩
    exact (hiff (by omega)).mpr ⟨hp, hrest⟩

end Bets

/-! ## A quarter of a dollar -/

noncomputable def twoDollarSession : Session ℚ Unit (OperatorAttestation ℚ × Address) :=
  { oneDollarSession with
    cache := [Operation.depositNote encodingCircomlib oneDollarSession 5 2000000] }

noncomputable def quarterModal : BetModal ℚ Unit (OperatorAttestation ℚ × Address) where
  session := twoDollarSession
  opened := twoDollarSession.cache
  marketId := .hex 5
  conditionId := 5
  positionId := 6
  side := .yes
  price := 1 / 4
  tickSize := none
  bestAsk := none
  levels := []
  orderKind := .limit
  limitCents := 25
  amountMicro := some 1250000
  feeConfigData := some twoDollarVault.feeConfig
  slippageBps := 100
  takerFeeBps := 0

theorem quarterModal_price : quarterModal.effectivePrice = 1 / 4 := by
  norm_num [BetModal.effectivePrice, quarterModal, roundToTick, safeTick, defaultTick, clean,
    mathRound]

def quarterPreview : OrderPreview :=
  ⟨5000000, 5000000, 2500, 0, 2500, 1252500, false, 1250000, false⟩

theorem quarterModal_preview : quarterModal.preview = some quarterPreview := by
  have hfee : quarterModal.betFeeBps = 20 := rfl
  have hrelay : quarterModal.relayGasFeeUSDC = 0 := rfl
  have hmin : quarterModal.minBet = 1000000 := rfl
  have hround : mathRound (quarterModal.effectivePrice * 10 ^ 8) = 25000000 := by
    rw [quarterModal_price]
    norm_num [mathRound]
  have hshares : previewShares 1250000 quarterModal.effectivePrice = some 5000000 := by
    rw [previewShares, hround, quarterModal_price]
    norm_num
    decide
  show computeOrderPreview ⟨1250000, _, _, _, 0, _⟩ = _
  rw [computeOrderPreview, hshares, hfee, hrelay, hmin]
  rfl

theorem quarterModal_free : getFreeNotes twoDollarSession.cache 7
    = [Operation.depositNote encodingCircomlib oneDollarSession 5 2000000] := rfl

theorem quarterModal_maxBettable : quarterModal.maxBettable = 1996007 := by
  have hbalance : quarterModal.combinableBalance = 2000000 := by
    show topNsum (getFreeNotes twoDollarSession.cache 7) maxConsolidateInputs = 2000000
    rw [quarterModal_free, topNsum_of_length_le (by decide)]
    rfl
  have hfee : quarterModal.betFeeBps = 20 := rfl
  have hrelay : quarterModal.relayGasFeeUSDC = 0 := rfl
  rw [BetModal.maxBettable, hbalance, hfee, hrelay]
  decide

noncomputable def quarterBet : Bet ℚ :=
  quarterModal.bet [] (Operation.depositNote encodingCircomlib oneDollarSession 5 2000000) 1250000
    quarterPreview

theorem quarterModal_submit :
    quarterModal.submit encodingCircomlib (fun _ => false) none = .bets quarterBet := by
  have hamount : quarterModal.amountMicro = some 1250000 := rfl
  have hfees : quarterModal.feeConfigData ≠ none := nofun
  have hcash : getCurrentCashNote (quarterModal.reconciled none) quarterModal.session.address
      = some (Operation.depositNote encodingCircomlib oneDollarSession 5 2000000) := by
    show (sortByBalance (getFreeNotes twoDollarSession.cache 7)).head? = _
    rw [quarterModal_free, sortByBalance, List.mergeSort_singleton]
    rfl
  have hpreview : quarterPreview.effectiveMinBetMicro = 1250000 ∧
      quarterPreview.shares = 5000000 ∧ quarterPreview.totalFeeMicro = 2500 := ⟨rfl, rfl, rfl⟩
  have hcovers : (1250000 : ℤ) + 2500
      ≤ (Operation.depositNote encodingCircomlib oneDollarSession 5 2000000).balance := by
    show (1250000 : ℤ) + 2500 ≤ (2000000 : ℕ)
    decide
  obtain ⟨hmin, hshares, hfee⟩ := hpreview
  simp only [BetModal.submit, hamount, quarterModal_preview, hfees, hcash, hmin, hshares,
    quarterModal_maxBettable, BetModal.submitFrom, hfee, hcovers, minShares, if_true, if_false,
    show ¬(1250000 : ℤ) ≤ 0 by decide, lt_irrefl, show ¬(1996007 : ℤ) < 1250000 by decide]
  rfl

/-- The bet of the quarter lands. -/
theorem offered_bet_lands_quarter :
    ∃ t, AppRun encodingEnv twoDollarSession (fun _ _ => False) twoDollarVault t ∧
      quarterModal.submit encodingCircomlib (fun _ => false) none = .bets quarterBet ∧
      ∃ (p : MerkleProof ℚ) (s' : VaultState ℚ), authorizeBet encodingEnv ⟨1, 1⟩ t.chain.state ()
        (quarterBet.inputs encodingCircomlib twoDollarSession p).publicInputs = .ok s' := by
  obtain ⟨s', hx, hs'⟩ := exec_two_dollar
  obtain ⟨hhidden, hleaves, hun, hpaused, -, hfees⟩ := runActions_two_dollar_deposit
  have hcom : computeCommitment encodingCircomlib (twoDollarSession.noteSecret 5 .v2)
      (2000000 : ℕ) 0 twoDollarSession.address = twoDollarNote.commitment encodingCircomlib := by
    norm_num [computeCommitment, Polyshield.Note.commitment, twoDollarNote, oneDollarNote,
      twoDollarSession, oneDollarSession]
  rw [← hcom] at hx
  have hstart : AppRun encodingEnv twoDollarSession (fun _ _ => False) twoDollarVault _ := .initial
  obtain ⟨x, hrun⟩ := hstart.operation ⟨rfl, rfl⟩ (.deposit 5 2000000) ⟨[], [], 0⟩ ()
    (fun n hn => by cases hn) (fun n hn => by cases hn) trivial hx
  have hs : deploy encodingEnv twoDollarArgs = .ok twoDollarVault := rfl
  have hnullifier : quarterBet.cashNote.nullifier = twoDollarNote.nullifier encodingCircomlib := by
    show computeNullifier encodingCircomlib (oneDollarSession.noteSecret 5 .v2) 0 = _
    norm_num [computeNullifier, Polyshield.Note.nullifier, NullifierHash, twoDollarNote,
      oneDollarNote, oneDollarSession]
  rw [← hs'] at hleaves hun hpaused hfees
  rw [← hnullifier] at hun
  have hprice : quarterBet.priceScaled = 25000000 := by
    show mathRound (quarterModal.effectivePrice * 10 ^ 8) = 25000000
    rw [quarterModal_price]
    norm_num [mathRound]
  have hrun' : AppRun encodingEnv quarterModal.session (fun _ _ => False) twoDollarVault _ := hrun
  obtain ⟨n, -, -, ⟨p, hp⟩, hall⟩ := offered_bet_lands encodingEnv_ideal hs hrun'
    quarterModal_submit (congrArg some hfees.symm) (List.mem_singleton_self _) hun
  obtain ⟨-, ⟨⟩, s₁, hx₁, -⟩ := (hall ⟨1, 1⟩ p hp).mpr (by
    rw [hprice]
    refine ⟨hpaused, by decide, by decide, ?_⟩
    show s'.tree.leaves.length < 2 ^ treeDepth
    rw [hleaves]
    decide)
  exact ⟨_, hrun, quarterModal_submit, p, s₁, hx₁⟩

end Polyshield.Wallet
