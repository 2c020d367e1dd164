import Polyshield.Vault.Types

/-!
# The note cache

The `Note` of `notes.ts` and the readers of the cache. An address is compared by
its value, as `sameAddress` does; a `bytes32` is a field element and a `bigint`
an integer. The texts that are only displayed are left out.
-/

namespace Polyshield.Wallet

inductive NoteKind where
  | deposit
  | betOutput
  | settleCredit
  | cancelCredit
  | betReceipt
  deriving DecidableEq, Repr

inductive BetSide where
  | yes
  | no
  deriving DecidableEq, Repr

/-- Which derivation a lineage's secret has. -/
inductive DerivationVersion where
  | v1
  | v2
  deriving DecidableEq, Repr

/-- A hex commitment, or the `receipt-0x…` that a receipt has in its place. -/
inductive NoteId (F : Type) where
  | commitment (hash : F)
  | receipt (nullifier : F)
  deriving DecidableEq

/-- `marketId`: a hex text, or a slug. -/
inductive MarketLabel (F : Type) where
  | hex (id : F)
  | slug (label : String)
  deriving DecidableEq

structure Note (F : Type) where
  id : NoteId F
  kind : NoteKind
  ownerAddress : Address
  depositIndex : ℕ
  balance : ℤ
  nonce : ℕ
  commitment : NoteId F
  nullifier : F
  spent : Bool
  marketId : Option (MarketLabel F)
  side : Option BetSide
  expectedShares : Option ℤ
  nullifierOfBet : Option F
  positionId : Option F
  conditionId : Option F
  rawConditionId : Option ℕ
  betAmount : Option ℤ
  protocolFee : Option ℤ
  derivationVersion : Option DerivationVersion
  deriving DecidableEq

variable {F : Type}

/-- The bet that a receipt is for, `nullifier_of_bet ?? nullifier`. -/
def Note.bet (n : Note F) : F := n.nullifierOfBet.getD n.nullifier

def getWalletNotes (cache : List (Note F)) (wallet : Address) : List (Note F) :=
  cache.filter fun n => n.ownerAddress = wallet

/-- The notes that hold cash. -/
def getFreeNotes (cache : List (Note F)) (wallet : Address) : List (Note F) :=
  cache.filter fun n => ¬n.spent ∧ n.kind ≠ .betReceipt ∧ n.ownerAddress = wallet

/-- `hidden` is the set of the receipts that the user has hidden. -/
def getOpenBetReceipts (cache : List (Note F)) (hidden : F → Bool) (wallet : Address) :
    List (Note F) :=
  cache.filter fun n =>
    ¬n.spent ∧ n.kind = .betReceipt ∧ n.ownerAddress = wallet ∧ ¬hidden n.bet

/-- The notes of the larger balance first; the sort is stable. -/
def sortByBalance (notes : List (Note F)) : List (Note F) :=
  notes.mergeSort fun a b => b.balance ≤ a.balance

theorem sortByBalance_perm (notes : List (Note F)) : (sortByBalance notes).Perm notes :=
  List.mergeSort_perm notes _

@[simp] theorem mem_sortByBalance {notes : List (Note F)} {n : Note F} :
    n ∈ sortByBalance notes ↔ n ∈ notes :=
  (sortByBalance_perm notes).mem_iff

theorem sortByBalance_pairwise (notes : List (Note F)) :
    (sortByBalance notes).Pairwise fun a b => b.balance ≤ a.balance := by
  have h := @List.pairwise_mergeSort _ (fun a b : Note F => decide (b.balance ≤ a.balance))
    (fun a b c hab hbc => by
      simp only [decide_eq_true_eq] at hab hbc ⊢
      exact hbc.trans hab)
    (fun a b => by
      simp only [Bool.or_eq_true, decide_eq_true_eq]
      exact le_total _ _) notes
  simpa only [sortByBalance, decide_eq_true_eq] using h

end Polyshield.Wallet
