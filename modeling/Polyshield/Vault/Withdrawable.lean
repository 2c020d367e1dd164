import Polyshield.Vault.Spendable
import Polyshield.Vault.Token

/-!
# An unspent note can be withdrawn

The owner of an unspent note has a path for it under the current root, and the
prover accepts the inputs that withdraw any amount the note covers. The Vault
then pays, unless it is paused, the amount is below the minimum, the token is
short, or a remainder finds the tree full.
-/

namespace Polyshield

variable {F Proof Sig : Type} [Field F] [DecidableEq F] {E : Env F Proof Sig}

/-! ## What a withdrawal asks for -/

/-- The checks of `withdraw`, in its order. -/
structure WithdrawChecks (E : Env F Proof Sig) (s : VaultState F) (proof : Proof)
    (inputs : WithdrawalPublicInputs F) (recipientAddress : Address) : Prop where
  unpaused : s.paused = false
  unspent : s.spent inputs.nullifier = false
  known : s.tree.isKnownRoot inputs.merkleRoot = true
  minimum : s.feeConfig.minWithdrawal ≤ inputs.withdrawalAmount
  verifies : verifyWithdrawal E proof inputs = true
  recipientHash : E.circomlib.poseidon2 (recipientAddress.toNat : F) 0 = inputs.recipientHash
  liquid : inputs.withdrawalAmount.toNat ≤ s.usdc.balanceOf E.vault
  room : inputs.newCommitment ≠ 0 → s.tree.nextIndex < 2 ^ treeDepth
  accumulates : s.feeAccumulator + s.feeConfig.withdrawalFeeUSDC.toNat < 2 ^ 256
  fee : s.feeConfig.withdrawalFeeUSDC ≤ inputs.withdrawalAmount
  recipient : recipientAddress ≠ 0

theorem withdraw_succeeds_iff (hE : E.Ideal) {s : VaultState F} {proof : Proof}
    {inputs : WithdrawalPublicInputs F} {a : Address} :
    (∃ s', withdraw E s proof inputs a = .ok s') ↔ WithdrawChecks E s proof inputs a := by
  constructor
  · rintro ⟨s', h⟩
    simp only [withdraw, whenNotPaused, requireUnspentKnownRoot, Except.bind_eq_ok, revertIf_eq_ok,
      Except.pure_eq_ok, exists_const, Bool.not_eq_true, Bool.not_eq_false, not_not, not_lt,
      UInt64.not_lt] at h
    obtain ⟨hp, ⟨hun, hroot⟩, hmin, hv, hrec, hliq, s1, hspend, acc, hacc, payout, hpay, usdc', htr,
      -⟩ := h
    obtain ⟨-, t', ht, rfl⟩ := spendAndInsert_ok hspend
    refine ⟨hp, hun, hroot, hmin, hv, hrec, hliq, ht.nextIndex_lt, ?_, ?_, fun h0 => ?_⟩
    · unfold checkedAdd256 at hacc
      split at hacc
      · assumption
      · cases hacc
    · have := checkedSub256_ok hpay
      rw [UInt64.le_iff_toNat_le]
      omega
    · exact (hE.token.transfer_moves (safeTransfer_eq_ok.mp htr)).1 h0
  · intro h
    obtain ⟨t', -, hspend⟩ := spendAndInsert_eq_ok (E := E) h.unspent h.room
    have hfee := UInt64.le_iff_toNat_le.mp h.fee
    have hpays : inputs.withdrawalAmount.toNat - s.feeConfig.withdrawalFeeUSDC.toNat
        ≤ s.usdc.balanceOf E.vault := (Nat.sub_le ..).trans h.liquid
    obtain ⟨usdc', htr⟩ := hE.token.transfer_succeeds hE.vault_ne h.recipient hpays
    simp only [withdraw, whenNotPaused, requireUnspentKnownRoot, Except.bind_eq_ok, revertIf_eq_ok,
      Except.pure_eq_ok, exists_const, Bool.not_eq_true, Bool.not_eq_false, not_not, not_lt,
      UInt64.not_lt]
    exact ⟨_, h.unpaused, ⟨h.unspent, h.known⟩, h.minimum, h.verifies, h.recipientHash, h.liquid, _,
      hspend, _, if_pos h.accumulates, _, if_pos hfee, usdc', safeTransfer_eq_ok.mpr htr, rfl⟩

/-! ## A note of a reachable Vault -/

def WithdrawalInputs.publicInputs (i : WithdrawalInputs F) : WithdrawalPublicInputs F where
  merkleRoot := i.merkleRoot
  nullifier := i.nullifier
  withdrawalAmount := UInt64.ofNat i.withdrawalAmount.toNat
  recipientHash := i.recipientHash
  newCommitment := i.newCommitment

/-- The note is spent, the account has the amount less the fee, and what is left of the note is an
unspent note of its lineage. -/
structure PaysOut (E : Env F Proof Sig) (s s' : VaultState F) (n : Note F) (a : Address)
    (amount : ℕ) : Prop where
  spent : s'.spent (n.nullifier E.circomlib) = true
  paid : a ≠ E.vault → s'.usdc.balanceOf a
    = s.usdc.balanceOf a + (amount - s.feeConfig.withdrawalFeeUSDC.toNat)
  rest : amount < n.balance →
    ∃ m, Continues E.circomlib s' n m ∧ m.balance + amount = n.balance

section Reachable

variable (hE : E.Ideal) {s : VaultState F} (hs : BooksInv E s) (hres : Reserves E s) {n : Note F}
  {amount : UInt64} {i : WithdrawalInputs F} (hi : i.Of E.circomlib n amount.toNat)
  (hn : n ∈ hiddenNotes E.circomlib s.tree) (hun : s.spent (n.nullifier E.circomlib) = false)

include hi

omit [DecidableEq F] in
theorem WithdrawalInputs.Of.publicInputs_amount : i.publicInputs.withdrawalAmount = amount := by
  show UInt64.ofNat i.withdrawalAmount.toNat = amount
  rw [hi.withdrawalAmount, Int.toNat_natCast, UInt64.ofNat_toNat]

include hE hs hres hn hun

theorem paysOut_withdraw {proof : Proof} {s' : VaultState F}
    (h : withdraw E s proof i.publicInputs i.recipientAddress = .ok s') :
    PaysOut E s s' n i.recipientAddress amount.toNat := by
  have hmoved := moved_withdraw hE.token h
  obtain ⟨-, -, -, -, -, t', usdc', ht, rfl⟩ := withdraw_ok h
  have hnul : i.publicInputs.nullifier = n.nullifier E.circomlib := hi.spends.nullifier
  rw [hi.publicInputs_amount] at hmoved
  refine ⟨?_, fun ha => hmoved.dst_eq ha, fun hlt => ?_⟩
  · rw [hnul]
    exact Function.update_self ..
  · have hb := n.balance_lt
    let m : Note F := ⟨n.secret, n.owner, n.balance - amount.toNat, n.nonce + 1, by omega,
      hres.nonce_succ_lt hn⟩
    have hcom : i.publicInputs.newCommitment = m.commitment E.circomlib := hi.rest hlt
    rw [hcom] at ht
    refine ⟨m, .of_grows hE hs hn hun ⟨rfl, rfl, rfl⟩ ht ?_, ?_⟩
    · rw [hnul]
    · show n.balance - amount.toNat + amount.toNat = n.balance
      omega

theorem withdraw_proved_iff (hroot : s.tree.isKnownRoot i.merkleRoot = true) :
    (i.Proves E.circomlib ∧ ∃ proof s',
        withdraw E s proof i.publicInputs i.recipientAddress = .ok s' ∧
          PaysOut E s s' n i.recipientAddress amount.toNat) ↔
      s.paused = false ∧ s.feeConfig.minWithdrawal ≤ amount ∧ amount.toNat ≤ n.balance ∧
        amount.toNat ≤ s.usdc.balanceOf E.vault ∧ i.recipientAddress ≠ 0 ∧
        (amount.toNat < n.balance → s.tree.leaves.length < 2 ^ treeDepth) := by
  have hproves := hi.proves_iff hE.spec amount.toNat_lt (hres.nonce_succ_lt hn)
  have hleaves := hs.notes.history.frontier.nextIndex
  constructor
  · rintro ⟨hp, proof, s', hw, -⟩
    have hc := (withdraw_succeeds_iff hE).mp ⟨s', hw⟩
    have hmin := hc.minimum
    have hliq := hc.liquid
    rw [hi.publicInputs_amount] at hmin hliq
    refine ⟨hc.unpaused, hmin, hproves.mp hp, hliq, hc.recipient, fun hlt => ?_⟩
    rw [← hleaves]
    refine hc.room ?_
    show i.newCommitment ≠ 0
    rw [hi.rest hlt]
    exact hE.injective.poseidon4_ne_zero _ _ _ _
  · rintro ⟨hp, hmin, hle, hliq, hrec, hroom⟩
    have hprove := hproves.mpr hle
    have hw : HasWitness E.circomlib .withdrawal [i.merkleRoot, i.nullifier, u64 amount,
        i.recipientHash, i.newCommitment] := by
      obtain ⟨isPartial, hcons⟩ := hprove
      rw [hi.withdrawalAmount, Int.cast_natCast] at hcons
      exact ⟨_, _, isPartial, hcons⟩
    obtain ⟨proof, hv⟩ := (hE.verify_iff _ _).mpr hw
    have hfee : s.feeConfig.withdrawalFeeUSDC ≤ amount := UInt64.le_trans hres.fees hmin
    have hchecks : WithdrawChecks E s proof i.publicInputs i.recipientAddress := {
      unpaused := hp
      unspent := by
        show s.spent i.nullifier = false
        rw [hi.spends.nullifier]
        exact hun
      known := hroot
      minimum := by rwa [hi.publicInputs_amount]
      verifies := by
        show E.verify .withdrawal proof [i.merkleRoot, i.nullifier,
          u64 i.publicInputs.withdrawalAmount, i.recipientHash, i.newCommitment] = true
        rw [hi.publicInputs_amount]
        exact hv
      recipientHash := hi.recipientHash.symm
      liquid := by rwa [hi.publicInputs_amount]
      room := fun hne => by
        rw [hleaves]
        exact hroom (lt_of_le_of_ne hle fun heq => hne (hi.full heq))
      accumulates := by
        have hacc := hres.feeAccumulator_lt (n := 0) hs.bets
          s.feeConfig.withdrawalFeeUSDC.toNat_lt
        omega
      fee := by rwa [hi.publicInputs_amount]
      recipient := hrec }
    obtain ⟨s', hs'⟩ := (withdraw_succeeds_iff hE).mpr hchecks
    exact ⟨hprove, proof, s', hs', paysOut_withdraw hE hs hres hi hn hun hs'⟩

end Reachable

theorem Reserves.exists_withdrawalInputs {s : VaultState F} (hres : Reserves E s)
    (ht : CommitmentMerkleTree.History E.circomlib.poseidon2 s.tree) {n : Note F}
    (hn : n ∈ hiddenNotes E.circomlib s.tree) {a : Address} (ha : (a.toNat : F) = n.owner)
    (amount : ℕ) : ∃ i : WithdrawalInputs F, i.Of E.circomlib n amount ∧ i.ownerAddress = a ∧
      i.merkleRoot = s.tree.currentRoot := by
  let rest := NoteCommitment E.circomlib n.secret ((n.balance - amount : ℕ) : F)
    ((n.nonce + 1 : ℕ) : F) n.owner
  obtain ⟨i, hi, howner, hroot⟩ := hres.exists_spendInputs ht hn ha
  refine ⟨⟨i, if amount = n.balance then 0 else rest, a, amount,
    RecipientHash E.circomlib (a.toNat : F)⟩, ?_, howner, hroot⟩
  exact ⟨hi, howner.symm, rfl, rfl, fun heq => if_pos heq, fun hlt => if_neg hlt.ne⟩

/-- In every state a run reaches, the owner of an unspent note has inputs to withdraw any amount,
and they lead to a withdrawal exactly when the Vault is not paused, the note and the token of the
Vault cover the amount, it is no less than the minimum, the owner is an account, and there is a
leaf for what is left, if anything is. -/
theorem note_withdrawable (hE : E.Ideal) {args : InitArgs} {s₀ : VaultState F}
    (hdeploy : deploy E args = .ok s₀) (as : List (Action F Proof Sig)) {n : Note F} {a : Address}
    (ha : (a.toNat : F) = n.owner) (amount : UInt64)
    (hn : n ∈ hiddenNotes E.circomlib (runActions E s₀ as).state.tree)
    (hun : (runActions E s₀ as).state.spent (n.nullifier E.circomlib) = false) :
    let s := (runActions E s₀ as).state
    let WithdrawsBy := fun i : WithdrawalInputs F => i.Of E.circomlib n amount.toNat ∧
      i.ownerAddress = a ∧ s.tree.isKnownRoot i.merkleRoot = true
    (∃ i, WithdrawsBy i ∧ i.merkleRoot = s.tree.currentRoot) ∧
      ∀ i, WithdrawsBy i →
        ((i.Proves E.circomlib ∧ ∃ proof s', withdraw E s proof i.publicInputs a = .ok s' ∧
            PaysOut E s s' n a amount.toNat) ↔
          s.paused = false ∧ s.feeConfig.minWithdrawal ≤ amount ∧ amount.toNat ≤ n.balance ∧
            amount.toNat ≤ s.usdc.balanceOf E.vault ∧ a ≠ 0 ∧
            (amount.toNat < n.balance → s.tree.leaves.length < 2 ^ treeDepth)) := by
  intro s WithdrawsBy
  have hs : BooksInv E s := (notesHistory_runActions hE hdeploy as).books
  have hres : Reserves E s := reserves_runActions hE hdeploy as
  constructor
  · obtain ⟨i, hi, howner, hroot⟩ :=
      hres.exists_withdrawalInputs hs.notes.history hn ha amount.toNat
    refine ⟨i, ⟨hi, howner, ?_⟩, hroot⟩
    rw [hroot]
    exact hres.isKnownRoot_currentRoot hs.notes.history hE
  · rintro i ⟨hi, howner, hroot⟩
    have hrecipient : i.recipientAddress = a := hi.recipient.trans howner
    have hiff := withdraw_proved_iff hE hs hres hi hn hun hroot
    rwa [hrecipient] at hiff

/-- The one dollar can be withdrawn, once the minimum is no more than that. -/
theorem note_withdrawable_one_dollar :
    let as := [.call ⟨7, 1⟩ (.deposit () (oneDollarNote.commitment encodingCircomlib) 1000000)]
    let s := (runActions encodingEnv oneDollarVault as).state
    ∃ i : WithdrawalInputs ℚ, i.Proves encodingCircomlib ∧
      ∃ proof s', withdraw encodingEnv s proof i.publicInputs 7 = .ok s' ∧
        PaysOut encodingEnv s s' oneDollarNote 7 1000000 := by
  intro as s
  have hs : deploy encodingEnv oneDollarArgs = .ok oneDollarVault := rfl
  have hstate : hiddenNotes encodingCircomlib s.tree = [oneDollarNote] ∧
      s.spent (oneDollarNote.nullifier encodingCircomlib) = false ∧ s.paused = false ∧
      s.feeConfig.minWithdrawal ≤ 1000000 ∧ 1000000 ≤ s.usdc.balanceOf 9 := by
    obtain ⟨s', hx⟩ := exec_one_dollar
    have hx' : deposit encodingEnv ⟨7, 1⟩ oneDollarVault ()
        (oneDollarNote.commitment encodingCircomlib) 1000000 = .ok s' := hx
    have hrun : s = s' := by
      simp only [s, as, runActions, extend, List.foldl_cons, List.foldl_nil, advance, hx]
    obtain ⟨n, hn, hcom, -⟩ := starts_deposit encodingEnv_ideal (notesHistory_deploy hs).books hx'
    obtain rfl := Note.commitment_inj encodingEnv_ideal.injective encodingEnv_ideal.wide hcom
    have hhidden := hn.hidden
    have hnil : hiddenNotes encodingEnv.circomlib oneDollarVault.tree = [] := by
      simp [hiddenNotes, oneDollarVault, initializeV2, initialState, CommitmentMerkleTree.leaves,
        CommitmentMerkleTree.initializeTree]
    rw [hnil, List.nil_append] at hhidden
    have hmoved := (moved_deposit encodingEnv_ideal.token hx').dst_eq (by decide)
    obtain ⟨-, -, r, t', usdc', -, rfl⟩ := deposit_ok hx'
    rw [hrun]
    refine ⟨hhidden, rfl, rfl, ?_, ?_⟩
    · show (1000000 : UInt64) ≤ 1000000
      decide
    · exact hmoved ▸ Nat.le_add_left ..
  obtain ⟨hhidden, hun, hpaused, hmin, hliquid⟩ := hstate
  obtain ⟨⟨i, hi, -⟩, hall⟩ := note_withdrawable encodingEnv_ideal hs as (a := 7)
    (n := oneDollarNote) rfl 1000000 (hhidden ▸ List.mem_singleton_self _) hun
  refine ⟨i, (hall i hi).mpr ⟨hpaused, hmin, le_rfl, hliquid, by decide, fun hlt => ?_⟩⟩
  exact absurd hlt (lt_irrefl _)

end Polyshield
