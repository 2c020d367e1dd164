import Polyshield.Vault.State
import Polyshield.Wallet.Notes

/-!
# The deposits of a wallet

The index of a new deposit, as the deposit page picks it, and the match of the
wallet's deposits to the indices of its secrets, as recovery scans for them: the
V2 secrets first, then the legacy ones. A `bytes32` is a field element.
-/

namespace Polyshield.Wallet

/-- `getSafeNextDepositIndex`: at least the local counter, and at least the number of deposits
that the recovery index reports, if it answers. -/
def getSafeNextDepositIndex (localIndex : ℕ) (deposits : Option ℕ) : ℕ :=
  match deposits with
  | some count => max localIndex count
  | none => localIndex

/-- The guard of `handleDeriveAndDeposit`: indices whose nullifier is read as spent are skipped. -/
def skipSpent (spent : ℕ → Bool) : ℕ → ℕ → ℕ
  | 0, index => index
  | guard + 1, index => if spent index then skipSpent spent guard (index + 1) else index

/-- The index that a deposit is made at; the guard looks at 20 indices. -/
def nextDepositIndex (localIndex : ℕ) (deposits : Option ℕ) (spent : ℕ → Bool) : ℕ :=
  skipSpent spent 20 (getSafeNextDepositIndex localIndex deposits)

theorem le_skipSpent (spent : ℕ → Bool) (guard index : ℕ) :
    index ≤ skipSpent spent guard index := by
  induction guard generalizing index with
  | zero => exact le_rfl
  | succ guard ih =>
    rw [skipSpent]
    split
    · exact (Nat.le_succ index).trans (ih (index + 1))
    · exact le_rfl

/-- No index below the reported number of deposits is handed out. -/
theorem le_nextDepositIndex (localIndex count : ℕ) (spent : ℕ → Bool) :
    count ≤ nextDepositIndex localIndex (some count) spent :=
  (le_max_right localIndex count).trans (le_skipSpent spent 20 _)

structure Log (F : Type) where
  block : ℕ
  logIndex : ℕ
  event : Event F

/-- `byBlockThenLogIndex`. -/
def Log.upTo {F : Type} (a b : Log F) : Bool :=
  a.block < b.block ∨ a.block = b.block ∧ a.logIndex ≤ b.logIndex

/-- What recovery reads through its client: the logs in the order of their blocks, and the
Vault's state, where `none` is a call that throws. -/
structure RecoveryClient (F : Type) where
  logs : List (Log F)
  feeConfig : Option FeeConfig
  pendingCredit : F → UInt8 → Option UInt64
  betRecords : F → Option (BetRecord F)

variable {F : Type} [Field F] [DecidableEq F] (C : Circomlib F)

def computeCommitment (secret : F) (balance : ℤ) (nonce : ℕ) (owner : Address) : F :=
  NoteCommitment C secret (balance : F) (nonce : F) (owner.toNat : F)

def computeNullifier (secret : F) (nonce : ℕ) : F := NullifierHash C secret (nonce : F)

/-- A deposit of the wallet with its index, its secret and the version of its derivation. -/
structure Lineage (F : Type) where
  index : ℕ
  version : DerivationVersion
  secret : F
  commitment : F
  amount : ℕ

/-! ## The scan -/

omit [Field F] [DecidableEq F] in
def RecoveryClient.deposits (client : RecoveryClient F) (address : Address) : List (F × ℕ) :=
  client.logs.filterMap fun log =>
    match log.event with
    | .deposited depositor commitment amount =>
      if depositor = address then some (commitment, amount) else none
    | _ => none

structure DepositScan (F : Type) where
  /-- `depositByIndex`, `secretByIndex` and `versionByIndex`. -/
  lineages : List (Lineage F)
  matched : List F
  consecutiveEmpty : ℕ

def findDeposit (address : Address) (deposits : List (F × ℕ)) (matched : List F) (secret : F) :
    Option (F × ℕ) :=
  deposits.find? fun d => d.1 ∉ matched ∧ computeCommitment C secret d.2 0 address = d.1

def scanIndex (address : Address) (deposits : List (F × ℕ)) (version : DerivationVersion)
    (secret : F) (scan : DepositScan F) (index : ℕ) : DepositScan F :=
  match findDeposit C address deposits scan.matched secret with
  | none => { scan with consecutiveEmpty := scan.consecutiveEmpty + 1 }
  | some d =>
    ⟨scan.lineages ++ [⟨index, version, secret, d.1, d.2⟩], scan.matched ++ [d.1], 0⟩

/-- The loop over the indices; the fallback skips those claimed already. -/
def scanIndices (address : Address) (deposits : List (F × ℕ)) (gapLimit : ℕ)
    (version : DerivationVersion) (secret : ℕ → F) : List ℕ → DepositScan F → DepositScan F
  | [], scan => scan
  | index :: rest, scan =>
    if scan.matched.length < deposits.length ∧ scan.consecutiveEmpty < gapLimit then
      if version = .v1 ∧ (∃ l ∈ scan.lineages, l.index = index) then
        scanIndices address deposits gapLimit version secret rest scan
      else
        scanIndices address deposits gapLimit version secret rest
          (scanIndex C address deposits version (secret index) scan index)
    else scan

/-- The V2 pass, and the V1 fallback for what it did not match. -/
def scanDeposits (address : Address) (deposits : List (F × ℕ)) (deriveSecretV2 : Option (ℕ → F))
    (deriveSecret : ℕ → F) (gapLimit hardCap : ℕ) : List (Lineage F) :=
  let scan := match deriveSecretV2 with
    | some deriveSecretV2 =>
      scanIndices C address deposits gapLimit .v2 deriveSecretV2 (List.range hardCap) ⟨[], [], 0⟩
    | none => ⟨[], [], 0⟩
  let scan :=
    if scan.matched.length < deposits.length then
      scanIndices C address deposits gapLimit .v1 deriveSecret (List.range hardCap)
        ⟨scan.lineages, scan.matched, 0⟩
    else scan
  scan.lineages.mergeSort fun a b => a.index ≤ b.index

end Polyshield.Wallet
