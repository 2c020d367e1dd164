import Polyshield.Vault.Ledger

/-!
# Solvency

The Vault's own balance of the token after a run is what it was, with what was
deposited and what others sent, less what its calls paid out, funded and swept.
With the conservation of value, what the Vault owes is covered by its balance
and by what is deployed, up to the credits and acknowledgements that the
collateral which came back and the stakes of the settled bets do not cover.
-/

namespace Polyshield

variable {F Proof Sig : Type} [Field F] [DecidableEq F] {E : Env F Proof Sig}

namespace Executed

def funded (x : Executed F Proof Sig) : ℕ :=
  match x.call with
  | .fundPolymarketWallet amount => amount
  | _ => 0

def acknowledged (x : Executed F Proof Sig) : ℕ :=
  match x.call with
  | .acknowledgePolymarketReturn amount => amount
  | _ => 0

def swept (x : Executed F Proof Sig) : ℕ :=
  match x.call with
  | .adminSweep _ amount => amount
  | _ => 0

end Executed

/-! ## One step -/

section Step

variable {s s' : VaultState F} {m : Msg} {c : Call F Proof Sig}

theorem deployed_exec (h : exec E m s c = .ok s') :
    s'.deployedToPolymarket + Executed.acknowledged ⟨s, m, c, s'⟩
      = s.deployedToPolymarket + Executed.funded ⟨s, m, c, s'⟩ := by
  have hdeployed := (frame_exec h).1.2.2
  cases c
  case acknowledgePolymarketReturn amount =>
    simp only [exec, acknowledgePolymarketReturn, Except.bind_eq_ok, revertIf_eq_ok, exists_const,
      not_lt] at h
    have hle := h.2.1
    simp only [Call.deployed] at hdeployed
    simp only [Executed.acknowledged, Executed.funded]
    omega
  all_goals
    simp only [Call.deployed] at hdeployed
    simp only [Executed.acknowledged, Executed.funded]
    omega

/-- A call of another account leaves the Vault its balance, but for what the call pays. -/
theorem balance_exec (htoken : E.token.Spec) (hm : m.sender ≠ E.vault) (h : exec E m s c = .ok s') :
    s.usdc.balanceOf E.vault + Executed.deposited ⟨s, m, c, s'⟩
      ≤ s'.usdc.balanceOf E.vault + Executed.paidOut ⟨s, m, c, s'⟩
        + Executed.funded ⟨s, m, c, s'⟩ + Executed.swept ⟨s, m, c, s'⟩ := by
  have hmoved := moved_exec htoken h
  cases c <;> simp only [Call.transfer?] at hmoved
  case deposit proof commitment amount =>
    have hdst := hmoved.dst_eq hm.symm
    simp only [Executed.deposited] at hdst ⊢
    omega
  case withdraw | withdrawFees | adminSweep | fundPolymarketWallet =>
    have hsrc := hmoved.le_src
    simp only [Executed.deposited, Executed.paidOut, Executed.funded, Executed.swept] at hsrc ⊢
    omega
  all_goals
    have hb : s'.usdc.balanceOf = s.usdc.balanceOf := hmoved
    simp only [Executed.deposited]
    rw [hb]
    omega

end Step

/-! ## Every run -/

/-- An action of others: a call of an account that is not the Vault, or a change outside that takes
nothing from the Vault, which gives no allowance. -/
def ByOthers (E : Env F Proof Sig) (s : VaultState F) : Action F Proof Sig → Prop
  | .call m _ => m.sender ≠ E.vault
  | .world usdc _ => s.usdc.balanceOf E.vault ≤ usdc.balanceOf E.vault

/-- Every action of a run is one of others. -/
def AllByOthers (E : Env F Proof Sig) : Chain F Proof Sig → List (Action F Proof Sig) → Prop
  | _, [] => True
  | ch, a :: as => ByOthers E ch.state a ∧ AllByOthers E (advance E ch a) as

/-- What an action outside the Vault sends to it. -/
def sentToVault (E : Env F Proof Sig) (s : VaultState F) : Action F Proof Sig → ℕ
  | .call _ _ => 0
  | .world usdc _ => usdc.balanceOf E.vault - s.usdc.balanceOf E.vault

def received (E : Env F Proof Sig) : Chain F Proof Sig → List (Action F Proof Sig) → ℕ
  | _, [] => 0
  | ch, a :: as => sentToVault E ch.state a + received E (advance E ch a) as

namespace Chain

/-- The balance of the Vault, with all that its calls have moved out. -/
def outlays (E : Env F Proof Sig) (ch : Chain F Proof Sig) : ℕ :=
  ch.state.usdc.balanceOf E.vault + total Executed.paidOut ch.trace
    + total Executed.funded ch.trace + total Executed.swept ch.trace

end Chain

theorem outlays_advance (htoken : E.token.Spec) {ch : Chain F Proof Sig} {a : Action F Proof Sig}
    (h : ByOthers E ch.state a) :
    ch.outlays E + total Executed.deposited (advance E ch a).trace + sentToVault E ch.state a
      ≤ (advance E ch a).outlays E + total Executed.deposited ch.trace := by
  cases a with
  | world usdc ctf =>
    have hle : ch.state.usdc.balanceOf E.vault ≤ usdc.balanceOf E.vault := h
    simp only [Chain.outlays, advance, sentToVault]
    omega
  | call m c =>
    simp only [advance, sentToVault]
    split
    · have hx := balance_exec htoken h ‹_›
      simp only [Chain.outlays, total_append]
      omega
    · omega

theorem outlays_extend (htoken : E.token.Spec) {ch : Chain F Proof Sig}
    {as : List (Action F Proof Sig)} (h : AllByOthers E ch as) :
    ch.outlays E + total Executed.deposited (extend E ch as).trace + received E ch as
      ≤ (extend E ch as).outlays E + total Executed.deposited ch.trace := by
  induction as generalizing ch with
  | nil =>
    show ch.outlays E + total Executed.deposited ch.trace + 0 ≤ _
    exact le_rfl
  | cons a as ih =>
    have hstep := outlays_advance htoken h.1
    have hrest := ih h.2
    show _ + total Executed.deposited (extend E (advance E ch a) as).trace
      + (sentToVault E ch.state a + received E (advance E ch a) as)
      ≤ (extend E (advance E ch a) as).outlays E + _
    omega

/-- What is deployed is what was funded, less what was acknowledged. -/
theorem deployed_runActions {args : InitArgs} {s : VaultState F} (h : deploy E args = .ok s)
    (as : List (Action F Proof Sig)) :
    (runActions E s as).state.deployedToPolymarket
        + total Executed.acknowledged (runActions E s as).trace
      = total Executed.funded (runActions E s as).trace := by
  refine extend_invariant E (P := fun ch => ch.state.deployedToPolymarket
      + total Executed.acknowledged ch.trace = total Executed.funded ch.trace) ?_ ?_ ?_ as
  · obtain rfl := deploy_ok E h
    rfl
  · intro ch m c s' hch hx
    have hstep := deployed_exec hx
    simp only [total_append]
    omega
  · exact fun _ _ _ hch => hch

/-- In every run of others, what the Vault owes and the stakes of the bets that ended settled or
closed, with what it held at first and what was sent to it, are covered by its balance, what is
deployed, and what was acknowledged, swept and credited. So its balance and what is deployed cover
what it owes, while what was sent and those stakes cover what was acknowledged, swept and
credited. -/
theorem vault_solvent (hE : E.Ideal) {args : InitArgs} {s : VaultState F}
    (h : deploy E args = .ok s) (as : List (Action F Proof Sig))
    (hothers : AllByOthers E ⟨s, []⟩ as) :
    let ch := runActions E s as
    let owed := ch.state.notesValue E + ch.state.feeAccumulator + ch.state.provisionalFees
      + ch.state.openStakes
    let outside := total Executed.acknowledged ch.trace + total Executed.swept ch.trace
      + total Executed.credited ch.trace
    owed + ch.state.settledStakes + s.usdc.balanceOf E.vault + received E ⟨s, []⟩ as
        ≤ ch.state.usdc.balanceOf E.vault + ch.state.deployedToPolymarket + outside ∧
      (outside ≤ received E ⟨s, []⟩ as + ch.state.settledStakes →
        owed ≤ ch.state.usdc.balanceOf E.vault + ch.state.deployedToPolymarket) := by
  intro ch owed outside
  have hposts : ch.state.books E + total Executed.paidOut ch.trace
      ≤ total Executed.deposited ch.trace + total Executed.credited ch.trace :=
    (chainPosts_runActions hE h as).le
  have hbooks : ch.state.books E = owed + ch.state.settledStakes := rfl
  have hdeployed : ch.state.deployedToPolymarket + total Executed.acknowledged ch.trace
      = total Executed.funded ch.trace := deployed_runActions h as
  have hout : s.usdc.balanceOf E.vault + total Executed.deposited ch.trace
      + received E ⟨s, []⟩ as ≤ ch.outlays E := by
    have hle := outlays_extend hE.token hothers
    simp only [Chain.outlays, total, List.map_nil, List.sum_nil, Nat.add_zero] at hle
    exact hle
  unfold Chain.outlays at hout
  constructor
  · omega
  · intro hcovered
    omega

theorem received_pooled {bet : BetAuthInputs ℚ} {credit : CreditInputs ℚ}
    {merge : ConsolidateInputs ℚ} {s : ℕ → VaultState ℚ} (h : PooledRun bet credit merge s) :
    AllByOthers encodingEnv ⟨pooledVault, []⟩ (pooledRun bet credit merge) ∧
      received encodingEnv ⟨pooledVault, []⟩ (pooledRun bet credit merge) = 3000000 := by
  have hsent : ByOthers encodingEnv (s 4) (.world ⟨fun _ => 8000000, fun _ => 0⟩ firstSideWon) ∧
      sentToVault encodingEnv (s 4) (.world ⟨fun _ => 8000000, fun _ => 0⟩ firstSideWon)
        = 3000000 := by
    show (s 4).usdc.balanceOf 9 ≤ 8000000 ∧ 8000000 - (s 4).usdc.balanceOf 9 = 3000000
    rw [h.funded]
    decide
  have hother : (7 : Address) ≠ 9 ∧ (1 : Address) ≠ 9 ∧ (3 : Address) ≠ 9 := by decide
  obtain ⟨h7, h1, h3⟩ := hother
  have hcall (t : VaultState ℚ) (m : Msg) (c : Call ℚ Unit (OperatorAttestation ℚ × Address)) :
      sentToVault encodingEnv t (.call m c) = 0 := rfl
  rw [← h.start]
  simp only [pooledRun, AllByOthers, received, advance, h.deposits, h.deposits', h.bets, h.funds,
    ← h.world, h.acknowledges, h.resolves, h.settles, h.merges, hcall, hsent.2, Nat.zero_add,
    Nat.add_zero, and_true]
  exact ⟨h7, h7, h1, h1, hsent.1, h1, h1, h7, h7, h3⟩

/-- A dollar is out and acknowledged, three have come back, and a little is swept; a bet of a
dollar has won two. -/
theorem vault_solvent_pooled : ∃ bet credit merge,
    let as := pooledRun bet credit merge
    let ch := runActions encodingEnv pooledVault as
    let owed := ch.state.notesValue encodingEnv + ch.state.feeAccumulator
      + ch.state.provisionalFees + ch.state.openStakes
    let outside := total Executed.acknowledged ch.trace + total Executed.swept ch.trace
      + total Executed.credited ch.trace
    ch.state.settledStakes = 1000000 ∧ outside = 3001000 ∧
    received encodingEnv ⟨pooledVault, []⟩ as = 3000000 ∧
    owed + ch.state.settledStakes + pooledVault.usdc.balanceOf encodingEnv.vault
        + received encodingEnv ⟨pooledVault, []⟩ as
        ≤ ch.state.usdc.balanceOf encodingEnv.vault + ch.state.deployedToPolymarket + outside ∧
      (outside ≤ received encodingEnv ⟨pooledVault, []⟩ as + ch.state.settledStakes →
        owed ≤ ch.state.usdc.balanceOf encodingEnv.vault + ch.state.deployedToPolymarket) := by
  obtain ⟨bet, credit, merge, s, h⟩ := exists_pooledRun
  have hs : deploy encodingEnv pooledArgs = .ok pooledVault := rfl
  obtain ⟨hothers, hreceived⟩ := received_pooled h
  refine ⟨bet, credit, merge, ?_, ?_, hreceived, vault_solvent encodingEnv_ideal hs _ hothers⟩
  · rw [h.runActions]
    exact h.settledStakes
  · rw [h.runActions]
    simp [total, Executed.acknowledged, Executed.swept, Executed.credited, CreditKind.call]

end Polyshield
