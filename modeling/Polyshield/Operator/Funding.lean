import Polyshield.Lib.Runs
import Mathlib.Tactic

/-!
# Just-in-time funding

`jitFunding.ts` and the top-up of `bufferManager.ts`. Both decide what to fund on
one promise chain, so only the first call in line acts. A call that returns
`true` promises its bet amount to an order, which spends it at some later time;
the chain does not wait for that, nor for a transaction whose job has given up.
-/

namespace Polyshield.Operator

inductive FundJob where
  /-- `fundOnce`. -/
  | jit (betAmount : ℕ)
  /-- `topUpOnce`. -/
  | buffer
  deriving DecidableEq

/-- A transaction is under way, mined, or will never be: it reverted, or was not broadcast. -/
inductive TxStatus where
  | sent
  | mined
  | dropped
  deriving DecidableEq

inductive FundStage where
  | waiting
  /-- `balanceOf` has answered. -/
  | read (balance : ℕ)
  /-- `fundPolymarketWallet(amount)`. -/
  | funding (amount : ℕ) (tx : TxStatus)
  /-- `wrapUsdcToPusd(amount)`. -/
  | wrapping (amount : ℕ) (tx : TxStatus)
  deriving DecidableEq

structure FundConfig where
  /-- The pUSD, deposit wallet and onramp addresses are set. -/
  addressesSet : Bool
  bufferLowWaterUsdc : ℕ
  bufferTargetUsdc : ℕ
  deriving DecidableEq

/-- A top-up as it is mined: what the job needs in the wallet, what is there, and what other
top-ups have sent that is not wrapped. -/
structure TopUp where
  need : ℕ
  pusd : ℕ
  underway : ℕ
  amount : ℕ
  deriving DecidableEq

structure FundState where
  config : FundConfig
  /-- `fundingChain`. -/
  queue : List (FundJob × FundStage)
  pusd : ℕ
  /-- USDC in the deposit wallet that was funded and not wrapped. -/
  awaiting : ℕ
  /-- Fundings under way whose jobs have given up. -/
  strayFunds : List (FundJob × ℕ)
  /-- Wraps under way whose jobs have given up. -/
  strayWraps : List ℕ
  /-- What the orders of the calls that returned `true` have left to spend. -/
  promises : List ℕ
  topUps : List TopUp
  deriving DecidableEq

namespace FundState

/-- The target of the buffer, not below the low-water mark. -/
def target (s : FundState) : ℕ :=
  if s.config.bufferTargetUsdc < s.config.bufferLowWaterUsdc then s.config.bufferLowWaterUsdc
  else s.config.bufferTargetUsdc

/-- The balance a job wants in the wallet. -/
def need (s : FundState) : FundJob → ℕ
  | .jit betAmount => betAmount
  | .buffer => s.target

/-- The balance that lets a job do without a top-up. -/
def enough (s : FundState) : FundJob → ℕ
  | .jit betAmount => betAmount
  | .buffer => s.config.bufferLowWaterUsdc

def setQueue (s : FundState) (queue : List (FundJob × FundStage)) : FundState :=
  { s with queue := queue }

def succeed (s : FundState) (rest : List (FundJob × FundStage)) : FundJob → FundState
  | .jit betAmount => { s with queue := rest, promises := s.promises ++ [betAmount] }
  | .buffer => s.setQueue rest

/-- `_running`: a check of the buffer is under way. -/
def running (s : FundState) : Bool := s.queue.any fun x => x.1 = .buffer

/-- What a job makes of the balance it has read. -/
def decide (s : FundState) (job : FundJob) (balance : ℕ) (rest : List (FundJob × FundStage)) :
    FundState :=
  if s.enough job ≤ balance then s.succeed rest job
  else s.setQueue ((job, .funding (s.need job - balance) .sent) :: rest)

def fund (s : FundState) (job : FundJob) (amount : ℕ) : FundState :=
  { s with
    awaiting := s.awaiting + amount
    topUps := s.topUps
      ++ [⟨s.need job, s.pusd, s.awaiting + (s.strayFunds.map Prod.snd).sum, amount⟩] }

def wrap (s : FundState) (amount : ℕ) : FundState :=
  { s with
    awaiting := s.awaiting - amount
    pusd := s.pusd + amount }

def spend (s : FundState) (j left amount : ℕ) : FundState :=
  { s with
    pusd := s.pusd - amount
    promises := s.promises.set j (left - amount) }

def close (s : FundState) (j : ℕ) : FundState := { s with promises := s.promises.eraseIdx j }

end FundState

inductive FundAction where
  /-- `ensureDepositWalletFunded`. -/
  | ensureFunded (betAmount : ℕ)
  /-- A check of the buffer, by its timer or after a funding. -/
  | runTick
  /-- `balanceOf` answers, or throws. -/
  | balanceRead (ok : Bool)
  | decide
  | fundMined
  | fundDropped
  /-- `tx.wait` returns, or the send or the wait throws. -/
  | fundReturned (ok : Bool)
  | wrapMined
  | wrapDropped
  | wrapReturned (ok : Bool)
  /-- A funding is mined after its job has given up. -/
  | strayMined (i : ℕ)
  | strayDropped (i : ℕ)
  | strayWrapMined (i : ℕ)
  | strayWrapDropped (i : ℕ)
  | spend (order amount : ℕ)
  | close (order : ℕ)
  deriving DecidableEq

/-- With `k` more, the wallet has what the job needs; a bet is topped up while nothing is
promised. -/
def Lacks (s : FundState) (k : ℕ) : FundJob → Prop
  | .jit betAmount => s.promises.sum = 0 ∧ k + s.pusd = betAmount
  | .buffer => k + s.pusd ≤ s.target

/-- The balance that was read covers what is promised and the bet, or nothing is promised. -/
def Reads (s : FundState) (balance : ℕ) : FundJob → Prop
  | .jit betAmount =>
    s.promises.sum + betAmount ≤ s.pusd ∨ s.promises.sum = 0 ∧ s.pusd = balance
  | .buffer => True

/-- What the first job in line has to do with the wallet. -/
def HeadOk (s : FundState) : List (FundJob × FundStage) → Prop
  | (job, .read balance) :: _ => s.awaiting = 0 ∧ s.pusd ≤ balance ∧ Reads s balance job
  | (job, .funding amount tx) :: _ =>
    s.awaiting = (if tx = .mined then amount else 0) ∧ Lacks s amount job
  | (job, .wrapping amount tx) :: _ =>
    s.awaiting = (if tx = .mined then 0 else amount) ∧
      Lacks s (if tx = .mined then 0 else amount) job
  | _ => s.awaiting = 0

structure FundInv (s : FundState) : Prop where
  backed : s.promises.sum ≤ s.pusd
  head : HeadOk s s.queue
  tail : ∀ x ∈ s.queue.tail, x.2 = .waiting
  topUps : ∀ t ∈ s.topUps, t.amount + t.pusd + t.underway ≤ t.need
  noFunds : s.strayFunds = []
  noWraps : s.strayWraps = []

/-- The balance that a call reads covers what is promised as well as its bet, or nothing is
promised; a funding throws only when it is not mined and will not be; and a wrap throws only when it
is mined. -/
def FundTidy (s : FundState) : FundAction → Prop
  | .balanceRead true =>
    match s.queue with
    | (.jit betAmount, .waiting) :: _ =>
      s.promises.sum = 0 ∨ s.promises.sum + betAmount ≤ s.pusd
    | _ => True
  | .fundReturned false =>
    match s.queue with
    | (_, .funding _ tx) :: _ => tx = .dropped
    | _ => True
  | .wrapReturned false =>
    match s.queue with
    | (_, .wrapping _ tx) :: _ => tx = .mined
    | _ => True
  | _ => True

instance (s : FundState) (a : FundAction) : Decidable (FundTidy s a) := by
  unfold FundTidy
  split <;> (try split) <;> infer_instance

/-! ## What spending changes -/

section Spending

variable {s : FundState} {promises : List ℕ} {amount : ℕ}
  (hsum : promises.sum + amount ≤ s.promises.sum)

include hsum

theorem Lacks.spent {k : ℕ} {job : FundJob} (h : Lacks s k job) :
    Lacks { s with pusd := s.pusd - amount, promises := promises } k job := by
  cases job with
  | jit betAmount =>
    obtain ⟨h0, hk⟩ := h
    refine ⟨?_, ?_⟩
    · show promises.sum = 0
      omega
    · show k + (s.pusd - amount) = betAmount
      omega
  | buffer =>
    have hk : k + s.pusd ≤ s.target := h
    show k + (s.pusd - amount) ≤ s.target
    omega

theorem Reads.spent {balance : ℕ} {job : FundJob} (hle : amount ≤ s.pusd)
    (h : Reads s balance job) :
    Reads { s with pusd := s.pusd - amount, promises := promises } balance job := by
  cases job with
  | buffer => trivial
  | jit betAmount =>
    show promises.sum + betAmount ≤ s.pusd - amount ∨
      promises.sum = 0 ∧ s.pusd - amount = balance
    rcases h with h | ⟨h0, hb⟩
    · left
      omega
    · right
      omega

/-- Where orders spend no more than is promised, the first job in line is as it was. -/
theorem HeadOk.spent {queue : List (FundJob × FundStage)} (hle : amount ≤ s.pusd)
    (h : HeadOk s queue) :
    HeadOk { s with pusd := s.pusd - amount, promises := promises } queue := by
  cases queue with
  | nil => exact h
  | cons x queue =>
    obtain ⟨job, stage⟩ := x
    cases stage with
    | waiting => exact h
    | read balance =>
      obtain ⟨h0, hb, hr⟩ := h
      refine ⟨h0, ?_, hr.spent hsum hle⟩
      show s.pusd - amount ≤ balance
      omega
    | funding a tx => exact ⟨h.1, h.2.spent hsum⟩
    | wrapping a tx => exact ⟨h.1, h.2.spent hsum⟩

end Spending

namespace FundInv

variable {s : FundState} {job : FundJob} {rest : List (FundJob × FundStage)}

/-! ## The line -/

/-- The first job in line is over, and the next one has not started. -/
theorem headOk_waiting (h : ∀ x ∈ rest, x.2 = .waiting) (h0 : s.awaiting = 0) : HeadOk s rest := by
  cases rest with
  | nil => exact h0
  | cons x rest =>
    obtain ⟨job, stage⟩ := x
    obtain rfl : stage = .waiting := h _ (List.mem_cons_self ..)
    exact h0

theorem tail_of_cons {x : FundJob × FundStage} (hs : FundInv s) (hq : s.queue = x :: rest) :
    ∀ y ∈ rest, y.2 = .waiting := by
  have := hs.tail
  rwa [hq] at this

theorem tail_tail {l : List (FundJob × FundStage)} (h : ∀ y ∈ l, y.2 = .waiting) :
    ∀ y ∈ l.tail, y.2 = .waiting := fun y hy => h y (List.mem_of_mem_tail hy)

theorem advance {x y : FundJob × FundStage} (hs : FundInv s) (hq : s.queue = x :: rest)
    (hy : HeadOk s (y :: rest)) : FundInv (s.setQueue (y :: rest)) := by
  refine ⟨hs.backed, ?_, hs.tail_of_cons hq, hs.topUps, hs.noFunds, hs.noWraps⟩
  obtain ⟨job, stage⟩ := y
  cases stage <;> exact hy

theorem leave {x : FundJob × FundStage} (hs : FundInv s) (hq : s.queue = x :: rest)
    (h0 : s.awaiting = 0) : FundInv (s.setQueue rest) :=
  ⟨hs.backed, headOk_waiting (hs.tail_of_cons hq) h0, tail_tail (hs.tail_of_cons hq), hs.topUps,
    hs.noFunds, hs.noWraps⟩

theorem succeed {x : FundJob × FundStage} (hs : FundInv s) (hq : s.queue = x :: rest)
    (h0 : s.awaiting = 0) (hb : ∀ b, job = .jit b → s.promises.sum + b ≤ s.pusd) :
    FundInv (s.succeed rest job) := by
  cases job with
  | buffer => exact hs.leave hq h0
  | jit b =>
    refine ⟨?_, headOk_waiting (hs.tail_of_cons hq) h0, tail_tail (hs.tail_of_cons hq), hs.topUps,
      hs.noFunds, hs.noWraps⟩
    simpa [FundState.succeed] using hb b rfl

theorem enough_le_need (s : FundState) (job : FundJob) : s.enough job ≤ s.need job := by
  cases job with
  | jit b => exact le_rfl
  | buffer =>
    simp only [FundState.enough, FundState.need, FundState.target]
    split <;> omega

theorem balanceRead (hs : FundInv s) (hq : s.queue = (job, .waiting) :: rest)
    (hc : FundTidy s (.balanceRead true)) :
    FundInv (s.setQueue ((job, .read s.pusd) :: rest)) := by
  have h0 : s.awaiting = 0 := by
    have := hs.head
    rwa [hq] at this
  apply hs.advance hq
  refine ⟨h0, le_rfl, ?_⟩
  cases job with
  | buffer => trivial
  | jit b =>
    simp only [FundTidy, hq] at hc
    rcases hc with hc | hc
    · exact .inr ⟨hc, rfl⟩
    · exact .inl hc

theorem decide {balance : ℕ} (hs : FundInv s) (hq : s.queue = (job, .read balance) :: rest) :
    FundInv (s.decide job balance rest) := by
  have hhead := hs.head
  rw [hq] at hhead
  obtain ⟨h0, hle, hreads⟩ := hhead
  unfold FundState.decide
  split
  · rename_i henough
    refine hs.succeed hq h0 fun b hb => ?_
    subst hb
    have henough' : b ≤ balance := henough
    rcases hreads with h | ⟨hp, hb⟩ <;> omega
  · rename_i hlt
    have hneed := enough_le_need s job
    apply hs.advance hq
    refine ⟨h0, ?_⟩
    cases job with
    | buffer =>
      have hneed' : s.config.bufferLowWaterUsdc ≤ s.target := hneed
      have hlt' : balance < s.config.bufferLowWaterUsdc := not_le.mp hlt
      show s.target - balance + s.pusd ≤ s.target
      omega
    | jit b =>
      have hlt' : balance < b := not_le.mp hlt
      show s.promises.sum = 0 ∧ b - balance + s.pusd = b
      rcases hreads with h | ⟨hp, hb⟩ <;> omega

theorem need_le {k : ℕ} (h : Lacks s k job) : k + s.pusd ≤ s.need job := by
  cases job with
  | jit b => exact h.2.le
  | buffer => exact h

theorem fundMined {amount : ℕ} (hs : FundInv s)
    (hq : s.queue = (job, .funding amount .sent) :: rest) :
    FundInv ((s.fund job amount).setQueue ((job, .funding amount .mined) :: rest)) := by
  have hhead := hs.head
  rw [hq] at hhead
  obtain ⟨h0, hlacks⟩ := hhead
  have h0' : s.awaiting = 0 := h0
  refine ⟨hs.backed, ⟨?_, ?_⟩, hs.tail_of_cons hq, fun t ht => ?_, hs.noFunds, hs.noWraps⟩
  · show s.awaiting + amount = amount
    omega
  · cases job <;> exact hlacks
  · rcases List.mem_append.mp ht with ht | ht
    · exact hs.topUps t ht
    · have hneed := need_le hlacks
      rw [List.mem_singleton.mp ht]
      show amount + s.pusd + (s.awaiting + (s.strayFunds.map Prod.snd).sum) ≤ s.need job
      rw [hs.noFunds, h0']
      simpa using hneed

theorem wrapMined {amount : ℕ} (hs : FundInv s)
    (hq : s.queue = (job, .wrapping amount .sent) :: rest) :
    FundInv ((s.wrap amount).setQueue ((job, .wrapping amount .mined) :: rest)) := by
  have hhead := hs.head
  rw [hq] at hhead
  obtain ⟨h0, hlacks⟩ := hhead
  have h0' : s.awaiting = amount := h0
  refine ⟨hs.backed.trans (Nat.le_add_right _ _), ⟨?_, ?_⟩, hs.tail_of_cons hq, hs.topUps,
    hs.noFunds, hs.noWraps⟩
  · show s.awaiting - amount = 0
    omega
  · cases job with
    | jit b =>
      obtain ⟨hp, hb⟩ := hlacks
      have hb' : amount + s.pusd = b := hb
      refine ⟨hp, ?_⟩
      show 0 + (s.pusd + amount) = b
      omega
    | buffer =>
      have hb : amount + s.pusd ≤ s.target := hlacks
      show 0 + (s.pusd + amount) ≤ s.target
      omega

theorem spent {promises : List ℕ} {amount : ℕ} (hs : FundInv s) (hle : amount ≤ s.pusd)
    (hsum : promises.sum + amount ≤ s.promises.sum) :
    FundInv { s with pusd := s.pusd - amount, promises := promises } := by
  have hbacked := hs.backed
  refine ⟨?_, hs.head.spent hsum hle, hs.tail, hs.topUps, hs.noFunds, hs.noWraps⟩
  show promises.sum ≤ s.pusd - amount
  omega

end FundInv

def FundState.start (config : FundConfig) (pusd : ℕ) : FundState :=
  ⟨config, [], pusd, 0, [], [], [], []⟩

end Polyshield.Operator
