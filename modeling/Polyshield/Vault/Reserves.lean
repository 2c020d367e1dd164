import Polyshield.Vault.NoteSteps

/-!
# What a reachable Vault does not run out of

Every deposit and every credit of an outcome adds a leaf, and the tree has room
for `2 ^ 32` of them. This bounds the nonces, the books, and with them the fee
accumulator, whose checked additions never overflow.
-/

namespace Polyshield

variable {F Proof Sig : Type} [Field F] [DecidableEq F] {E : Env F Proof Sig}

/-- The withdrawal fee is no more than the least withdrawal. -/
def FeeConfig.CoversFee (c : FeeConfig) : Prop := c.withdrawalFeeUSDC ≤ c.minWithdrawal

theorem Grows.tree_eq_or_insert {t t' : CommitmentMerkleTree F} {x : F} (h : Grows E t x t') :
    t' = t ∨ ∃ y r, t.insert E.circomlib.poseidon2 rootWindow y = .ok (r, t') := by
  cases h with
  | none => exact .inl rfl
  | leaf _ h => exact .inr ⟨_, _, h⟩

/-- A call inserts at most one leaf, and the fees stay below the least withdrawal. -/
theorem tree_exec {s s' : VaultState F} {m : Msg} {c : Call F Proof Sig}
    (h : exec E m s c = .ok s') :
    (s'.tree = s.tree ∨
      ∃ x r, s.tree.insert E.circomlib.poseidon2 rootWindow x = .ok (r, s'.tree)) ∧
    (s.feeConfig.CoversFee → s'.feeConfig.CoversFee) := by
  by_cases hc : c.isAdministrative = true
  · refine ⟨.inl (administrative_ok hc h).1.tree, ?_⟩
    cases c <;> simp only [Call.isAdministrative, Bool.false_eq_true] at hc <;>
      simp only [exec, resolveMarket, registerCondition, setFeeParams, setSigningLayerOperator,
        setDeploymentCap, setAdminCancelTimelock, pause, unpause, adminSweep,
        fundPolymarketWallet, acknowledgePolymarketReturn, onlyOwner, whenNotPaused,
        Except.bind_eq_ok, revertIf_eq_ok, Except.pure_eq_ok, exists_const] at h
    case setFeeParams c =>
      obtain ⟨-, -, hfee, rfl⟩ := h
      intro _
      show c.withdrawalFeeUSDC ≤ c.minWithdrawal
      exact UInt64.not_lt.mp hfee
    case resolveMarket =>
      obtain ⟨-, -, -, slots, -, -, -, rfl⟩ := h
      exact id
    case registerCondition | setSigningLayerOperator | setDeploymentCap =>
      obtain ⟨-, rfl⟩ := h
      exact id
    case setAdminCancelTimelock | pause | unpause =>
      obtain ⟨-, -, rfl⟩ := h
      exact id
    case adminSweep =>
      obtain ⟨-, -, usdc', -, rfl⟩ := h
      exact id
    case fundPolymarketWallet =>
      obtain ⟨-, -, -, dep, -, -, usdc', -, rfl⟩ := h
      exact id
    case acknowledgePolymarketReturn =>
      obtain ⟨-, -, dep, -, rfl⟩ := h
      exact id
  · cases c <;> simp only [Call.isAdministrative, not_true_eq_false] at hc <;>
      simp only [exec] at h
    case deposit =>
      obtain ⟨-, -, r, t', usdc', ht, rfl⟩ := deposit_ok h
      exact ⟨.inr ⟨_, r, ht⟩, id⟩
    case authorizeBet =>
      obtain ⟨-, -, fee, -, -, t', ht, rfl⟩ := authorizeBet_ok h
      exact ⟨ht.tree_eq_or_insert, id⟩
    case withdraw =>
      obtain ⟨-, -, -, -, -, t', usdc', ht, rfl⟩ := withdraw_ok h
      exact ⟨ht.tree_eq_or_insert, id⟩
    case creditSettlement =>
      obtain ⟨t', ht, rfl⟩ := (creditSettlement_ok h).1.effect
      exact ⟨ht.tree_eq_or_insert, id⟩
    case betCancellationCredit =>
      obtain ⟨t', ht, rfl⟩ := (betCancellationCredit_ok h).1.effect
      exact ⟨ht.tree_eq_or_insert, id⟩
    case naCancellationCredit =>
      obtain ⟨t', ht, rfl⟩ := (naCancellationCredit_ok h).1.effect
      exact ⟨ht.tree_eq_or_insert, id⟩
    case closePosition =>
      obtain ⟨delta, credit, hcr, -⟩ := closePosition_ok h
      obtain ⟨t', ht, rfl⟩ := hcr.effect
      exact ⟨ht.tree_eq_or_insert, id⟩
    case partialFillCredit =>
      obtain ⟨t', ht, rfl⟩ := (partialFillCredit_ok h).1.effect
      exact ⟨ht.tree_eq_or_insert, id⟩
    case consolidate =>
      obtain ⟨-, -, -, -, spent', r, t', -, ht, rfl⟩ := consolidate_ok h
      exact ⟨.inr ⟨_, r, ht⟩, id⟩
    case adminCancelBet =>
      obtain ⟨-, -, -, rfl⟩ := adminCancelBet_ok h
      exact ⟨.inl rfl, id⟩
    case withdrawFees =>
      obtain ⟨-, usdc', rfl⟩ := withdrawFees_ok h
      exact ⟨.inl rfl, id⟩

/-- What comes in with a call is less than `2 ^ 64` for each note it commits. -/
theorem income_exec (hE : E.Ideal) {s s' : VaultState F} (hs : BooksInv E s) {m : Msg}
    {c : Call F Proof Sig} (h : exec E m s c = .ok s') :
    Executed.deposited ⟨s, m, c, s'⟩ + Executed.credited ⟨s, m, c, s'⟩
        + 2 ^ 64 * (hiddenNotes E.circomlib s.tree).length
      ≤ 2 ^ 64 * (hiddenNotes E.circomlib s'.tree).length := by
  have hgrows : (hiddenNotes E.circomlib s.tree).length
      ≤ (hiddenNotes E.circomlib s'.tree).length := by
    obtain ⟨ms, events, hc⟩ := commits_exec hE hs h
    rw [hc.hidden, List.length_append]
    omega
  cases c
  case deposit proof commitment amount =>
    simp only [exec] at h
    obtain ⟨n, hn, -, -, hbal⟩ := starts_deposit hE hs h
    have hlt := n.balance_lt
    rw [hn.hidden, List.length_append, List.length_singleton]
    simp only [Executed.deposited, Executed.credited]
    omega
  case creditSettlement proof inputs att sig =>
    simp only [exec] at h
    obtain ⟨hcr, -, -, -, -, hv⟩ := creditSettlement_ok h
    obtain ⟨n, next, hn, -⟩ := hcr.advances hE hs (hE.sound hv)
    have hlt := inputs.totalCredit.toNat_lt
    rw [hn.hidden, List.length_append, Option.toList_some, List.length_singleton]
    simp only [Executed.deposited, Executed.credited]
    omega
  case closePosition proof inputs att sig =>
    simp only [exec] at h
    obtain ⟨delta, credit, hcr, -, -, -, -, -, -, -, -, hv⟩ := closePosition_ok h
    obtain ⟨n, next, hn, -⟩ := hcr.advances hE hs (hE.sound hv)
    have hlt := att.amountB.toNat_lt
    rw [hn.hidden, List.length_append, Option.toList_some, List.length_singleton]
    simp only [Executed.deposited, Executed.credited]
    omega
  all_goals
    simp only [Executed.deposited, Executed.credited]
    omega

omit [Field F] in
theorem known_currentRoot_of_insert_ok [Zero F] {hash : F → F → F} {t t' : CommitmentMerkleTree F}
    {window : ℕ} {x r : F} (h : t.insert hash window x = .ok (r, t')) :
    t'.knownRoots t'.currentRoot = true := by
  unfold CommitmentMerkleTree.insert at h
  split at h
  · cases h
  · simp only [Except.ok.injEq, Prod.mk.injEq] at h
    obtain ⟨-, rfl⟩ := h
    simp [CommitmentMerkleTree.rollWindow]

/-- The bounds of a chain. -/
structure ChainReserves (E : Env F Proof Sig) (ch : Chain F Proof Sig) : Prop where
  current : ch.state.tree.knownRoots ch.state.tree.currentRoot = true
  leaves : ch.state.tree.nextIndex ≤ 2 ^ treeDepth
  income : total Executed.deposited ch.trace + total Executed.credited ch.trace
    ≤ 2 ^ 64 * (hiddenNotes E.circomlib ch.state.tree).length
  fees : ch.state.feeConfig.CoversFee

theorem chainReserves_deploy {args : InitArgs} {s : VaultState F} (h : deploy E args = .ok s) :
    ChainReserves E ⟨s, []⟩ := by
  obtain rfl := deploy_ok E h
  refine ⟨?_, Nat.zero_le _, by simp [total], ?_⟩
  · simp [initializeV2, initialState, CommitmentMerkleTree.initializeTree]
  show (100000 : UInt64) ≤ 1000000
  decide

theorem ChainReserves.call (hE : E.Ideal) {ch : Chain F Proof Sig} (h : ChainReserves E ch)
    (hs : BooksInv E ch.state) {m : Msg} {c : Call F Proof Sig} {s' : VaultState F}
    (hx : exec E m ch.state c = .ok s') :
    ChainReserves E ⟨s', ch.trace ++ [⟨ch.state, m, c, s'⟩]⟩ := by
  obtain ⟨htree, hfees⟩ := tree_exec hx
  refine ⟨?_, ?_, ?_, hfees h.fees⟩
  · rcases htree with heq | ⟨x, r, hins⟩
    · show s'.tree.knownRoots s'.tree.currentRoot = true
      rw [heq]
      exact h.current
    · exact known_currentRoot_of_insert_ok hins
  · rcases htree with heq | ⟨x, r, hins⟩
    · show s'.tree.nextIndex ≤ _
      rw [heq]
      exact h.leaves
    · have hlt := CommitmentMerkleTree.lt_of_insert_ok hins
      have hf := hs.notes.history.frontier
      have hlen := (hf.insert_ok hins).nextIndex
      rw [List.length_append, List.length_singleton, ← hf.nextIndex] at hlen
      show s'.tree.nextIndex ≤ _
      omega
  · have hin := income_exec hE hs hx
    have hold := h.income
    simp only [total_append]
    omega

theorem chainReserves_runActions (hE : E.Ideal) {args : InitArgs} {s : VaultState F}
    (h : deploy E args = .ok s) (as : List (Action F Proof Sig)) :
    ChainReserves E (runActions E s as) := by
  have hall : NotesHistory E (runActions E s as) ∧ ChainReserves E (runActions E s as) := by
    refine extend_invariant E (P := fun ch => NotesHistory E ch ∧ ChainReserves E ch)
      ⟨notesHistory_deploy h, chainReserves_deploy h⟩ ?_ ?_ as
    · intro ch m c s' hch hx
      exact ⟨hch.1.call hE hx, hch.2.call hE hch.1.books hx⟩
    · intro ch usdc ctf hch
      exact ⟨hch.1.world usdc ctf, hch.2.current, hch.2.leaves, hch.2.income, hch.2.fees⟩
  exact hall.2

/-- What holds of a state that a run reaches. -/
structure Reserves (E : Env F Proof Sig) (s : VaultState F) : Prop where
  current : s.tree.knownRoots s.tree.currentRoot = true
  leaves : s.tree.leaves.length ≤ 2 ^ treeDepth
  nonce : ∀ n ∈ hiddenNotes E.circomlib s.tree, n.nonce < 2 ^ treeDepth
  books : s.books E ≤ 2 ^ 96
  fees : s.feeConfig.CoversFee

theorem reserves_runActions (hE : E.Ideal) {args : InitArgs} {s : VaultState F}
    (h : deploy E args = .ok s) (as : List (Action F Proof Sig)) :
    Reserves E (runActions E s as).state := by
  have hch := notesHistory_runActions hE h as
  have hres := chainReserves_runActions hE h as
  have hlen : (runActions E s as).state.tree.leaves.length ≤ 2 ^ treeDepth := by
    rw [← hch.books.notes.history.frontier.nextIndex]
    exact hres.leaves
  have hhidden : (hiddenNotes E.circomlib (runActions E s as).state.tree).length
      ≤ (runActions E s as).state.tree.leaves.length := List.length_filterMap_le ..
  refine ⟨hres.current, hlen, fun n hn => ?_, ?_, hres.fees⟩
  · -- The nonces up to its own are those of committed notes.
    have hsub : List.range (n.nonce + 1)
        ⊆ (hiddenNotes E.circomlib (runActions E s as).state.tree).map Note.nonce := by
      intro k hk
      obtain ⟨m, hm, hnonce, -⟩ :=
        hch.chain n hn k (Nat.lt_succ_iff.mp (List.mem_range.mp hk))
      exact List.mem_map.mpr ⟨m, hm, hnonce⟩
    have hle := (List.nodup_range.subperm hsub).length_le
    rw [List.length_range, List.length_map] at hle
    omega
  · have hposts := (chainPosts_runActions hE h as).le
    have hincome := hres.income
    have htree : treeDepth = 32 := rfl
    rw [htree] at hlen
    omega

namespace Reserves

variable {s : VaultState F} (h : Reserves E s)

include h

theorem feeAccumulator_lt {n : F} (hs : BetInv s) {x : ℕ} (hx : x < 2 ^ 64) :
    s.feeAccumulator + (s.betProtocolFee n).toNat + x < 2 ^ 256 := by
  have hacc : s.feeAccumulator + (s.betProtocolFee n).toNat ≤ s.books E := by
    have hfee : (s.betProtocolFee n).toNat ≤ s.provisionalFees := by
      by_cases hn : n ∈ s.bets
      · exact Finset.single_le_sum (f := fun n => (s.betProtocolFee n).toNat)
          (fun _ _ => Nat.zero_le _) hn
      · rw [(hs.unset n hn).2]
        exact Nat.zero_le _
    unfold VaultState.books
    omega
  have hbooks := h.books
  omega

theorem nonce_succ_lt {n : Note F} (hn : n ∈ hiddenNotes E.circomlib s.tree) :
    n.nonce + 1 < 2 ^ 64 := by
  have hlt := h.nonce n hn
  have htree : treeDepth = 32 := rfl
  rw [htree] at hlt
  omega

end Reserves

end Polyshield
