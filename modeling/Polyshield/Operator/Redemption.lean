import Polyshield.Lib.Runs
import Polyshield.Vault.Exits

/-!
# Acknowledging what Polymarket returned

Step 2 of `runRedemptionPipeline`, run for several markets at a time over the
Vault. A run redeems shares for pUSD, unwraps the pUSD into the Vault, and
acknowledges what the Vault's balance has grown by since the run first read it.
Each run carries, as ghosts, what it really redeemed and unwrapped, and what
everyone else moved into the two balances since it read them.
-/

namespace Polyshield.Operator

variable {F Proof Sig : Type} [Field F] [DecidableEq F] (E : Env F Proof Sig)

inductive RedeemStage where
  /-- `usdcRo.balanceOf(vault)`. -/
  | usdcBefore
  /-- `collectPositionIds`. -/
  | positions (usdcBefore : ℕ)
  /-- `hasVaultShares`. -/
  | shares (usdcBefore : ℕ) (positionIds : List ℕ)
  | pusdBefore (usdcBefore : ℕ)
  /-- `redeemViaExecutor`. -/
  | redeeming (usdcBefore pusdBefore : ℕ)
  | pusdAfter (usdcBefore pusdBefore : ℕ)
  /-- `offrampPusdToVault`; `landed` once the batch is on chain. -/
  | unwrapping (usdcBefore redeemedPusd : ℕ) (landed : Bool)
  | usdcAfter (usdcBefore redeemedPusd : ℕ)
  /-- `vault.deployedToPolymarket()`. -/
  | deployed (returned : ℕ)
  /-- `acknowledgePolymarketReturn` is sent. -/
  | acknowledging (ack : ℕ)
  deriving DecidableEq

structure RedeemRun where
  stage : RedeemStage
  /-- pUSD the run's redemption minted. -/
  redeemed : ℕ
  /-- pUSD the run unwrapped into the Vault. -/
  unwrapped : ℕ
  /-- What others moved into the Vault since the run read its balance. -/
  foreignUsdc : ℤ
  /-- What others moved into the deposit wallet since the run read its balance. -/
  foreignPusd : ℤ
  deriving DecidableEq

structure RedeemConfig where
  depositWalletSet : Bool
  pusdSet : Bool
  offrampSet : Bool

/-- An amount passed to `acknowledgePolymarketReturn`, with what the run had done. -/
structure AckRecord where
  ack : ℕ
  redeemed : ℕ
  unwrapped : ℕ
  deriving DecidableEq

structure Redeemer (F : Type) where
  config : RedeemConfig
  vault : VaultState F
  wallet : Address
  /-- The deposit wallet's pUSD. -/
  pusd : ℕ
  runs : List RedeemRun
  /-- What the Vault has sent to the deposit wallet, what has come back, what was acknowledged. -/
  funded : ℕ
  returned : ℕ
  acknowledged : ℕ
  acks : List AckRecord

namespace RedeemRun

def setStage (r : RedeemRun) (stage : RedeemStage) : RedeemRun := { r with stage := stage }

def start : RedeemRun := ⟨.usdcBefore, 0, 0, 0, 0⟩

/-- Others moved the two balances. -/
def shift (usdc pusd : ℤ) (r : RedeemRun) : RedeemRun :=
  { r with foreignUsdc := r.foreignUsdc + usdc, foreignPusd := r.foreignPusd + pusd }

end RedeemRun

namespace Redeemer

def setRuns (s : Redeemer F) (runs : List RedeemRun) : Redeemer F := { s with runs := runs }

def setVault (s : Redeemer F) (vault : VaultState F) : Redeemer F := { s with vault := vault }

def setPusd (s : Redeemer F) (pusd : ℕ) : Redeemer F := { s with pusd := pusd }

def update (s : Redeemer F) (i : ℕ) (r : RedeemRun) : Redeemer F :=
  s.setRuns (s.runs.eraseIdx i ++ [r])

def drop (s : Redeemer F) (i : ℕ) : Redeemer F := s.setRuns (s.runs.eraseIdx i)

/-- Replace a run whose step the others see as a movement. -/
def updateMoving (s : Redeemer F) (i : ℕ) (r : RedeemRun) (usdc pusd : ℤ) : Redeemer F :=
  s.setRuns ((s.runs.eraseIdx i).map (RedeemRun.shift usdc pusd) ++ [r])

def usdc (s : Redeemer F) : ℕ := s.vault.usdc.balanceOf E.vault

/-- The run goes on to the second read of the Vault's balance when it has nothing to unwrap. -/
def afterRedeem (s : Redeemer F) (usdcBefore redeemedPusd : ℕ) : RedeemStage :=
  if redeemedPusd = 0 ∨ s.config.offrampSet = false ∨ s.config.depositWalletSet = false then
    .usdcAfter usdcBefore redeemedPusd
  else .unwrapping usdcBefore redeemedPusd false

/-- A read of the Vault's balance; `none` ends the run. -/
def usdcRead (s : Redeemer F) (r : RedeemRun) : Option (Option RedeemRun) :=
  match r.stage with
  | .usdcBefore => some (some { r.setStage (.positions (s.usdc E)) with foreignUsdc := 0 })
  | .usdcAfter usdcBefore redeemedPusd =>
    if 0 < redeemedPusd ∧ s.usdc E ≤ usdcBefore then some none
    else if usdcBefore < s.usdc E then
      some (some (r.setStage (.deployed (s.usdc E - usdcBefore))))
    else some none
  | _ => none

/-- A read of the deposit wallet's pUSD. -/
def pusdRead (s : Redeemer F) (r : RedeemRun) : Option RedeemRun :=
  match r.stage with
  | .pusdBefore usdcBefore =>
    some { r.setStage (.redeeming usdcBefore s.pusd) with foreignPusd := 0 }
  | .pusdAfter usdcBefore pusdBefore =>
    some (r.setStage (s.afterRedeem usdcBefore (s.pusd - pusdBefore)))
  | _ => none

end Redeemer

inductive RedeemAction (F Proof Sig : Type) where
  /-- `runRedemptionPipeline` reaches step 2. -/
  | run
  | usdcRead (i : ℕ)
  | positionsRead (i : ℕ) (positionIds : List ℕ)
  | balancesRead (i : ℕ) (bals : List (Option ℕ))
  | pusdRead (i : ℕ)
  /-- `redeemPositions` lands and mints pUSD. -/
  | redeemed (i amount : ℕ)
  /-- The executor returns, or throws and is caught. -/
  | redeemReturned (i : ℕ)
  /-- The approve and unwrap batch lands. -/
  | unwrapped (i : ℕ)
  | unwrapReturned (i : ℕ)
  | deployedRead (i : ℕ)
  /-- `acknowledgePolymarketReturn` is mined, or fails. -/
  | acknowledged (i timestamp : ℕ) (mined : Bool)
  /-- Something the run waits for throws, and ends it. -/
  | threw (i : ℕ)
  | vaultCall (m : Msg) (c : Call F Proof Sig)
  /-- Transfers of USDC and of pUSD that the Vault and the runs do not make. -/
  | moveUsdc (usdc : Usdc)
  | movePusd (pusd : ℕ)

/-- The calls that acknowledge a return; only the pipeline makes them. -/
def acknowledges : Call F Proof Sig → Bool
  | .acknowledgePolymarketReturn _ => true
  | _ => false

end Polyshield.Operator
