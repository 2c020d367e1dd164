import Polyshield.Vault.Reverts
import Polyshield.Wallet.Liquidation

/-!
# The withdraw page

The gates of the page and its `submit`: the notes are reconciled, up to four of
them merged where the largest one does not cover the amount, and the amount is
withdrawn from one note. Where this would drain a lineage with an open position,
one unit is left for the payout to land on. The proofs and the relay go through.
-/

namespace Polyshield.Wallet

variable {F Proof Sig : Type}

def getCashBalance (cache : List (Note F)) (wallet : Address) : ℤ :=
  sumBalances (getFreeNotes cache wallet)

def getCurrentCashNote (cache : List (Note F)) (wallet : Address) : Option (Note F) :=
  (sortByBalance (getFreeNotes cache wallet)).head?

def topNsum (notes : List (Note F)) (k : ℕ) : ℤ := sumBalances ((sortByBalance notes).take k)

/-! ## The gates -/

/-- What the page is rendered from. The portfolio state is of the cache of the session. -/
structure WithdrawPage (F Proof Sig : Type) where
  session : Session F Proof Sig
  openPositionDeposits : Finset ℕ
  feeConfigData : Option FeeConfig

namespace WithdrawPage

variable (page : WithdrawPage F Proof Sig)

def free : List (Note F) := getFreeNotes page.session.cache page.session.address

def cashNote : Option (Note F) := getCurrentCashNote page.session.cache page.session.address

def cashBalance : ℤ := getCashBalance page.session.cache page.session.address

def minWithdrawal : ℤ :=
  match page.feeConfigData with
  | some fc => fc.minWithdrawal.toNat
  | none => 0

def maxSingleStep : ℤ := topNsum page.free maxConsolidateInputs

/-- The best of the four largest clear notes, and of an open lineage with the three largest. -/
def safeMax : ℤ :=
  let clear := clearNotes page.free page.openPositionDeposits
  page.openPositionDeposits.fold max (topNsum clear maxConsolidateInputs) fun d =>
    sumBalances (page.free.filter fun n => n.depositIndex = d) +
      topNsum clear (maxConsolidateInputs - 1)

/-- An amount that the balance covers, above a bound. -/
def exceeds (bound requestedAmount : ℤ) : Prop :=
  0 < requestedAmount ∧ requestedAmount ≤ page.cashBalance ∧ bound < requestedAmount

instance (bound requestedAmount : ℤ) : Decidable (page.exceeds bound requestedAmount) :=
  inferInstanceAs (Decidable (_ ∧ _))

abbrev fragmented (requestedAmount : ℤ) : Prop := page.exceeds page.maxSingleStep requestedAmount

abbrev hardBlocked (requestedAmount : ℤ) : Prop := page.exceeds page.safeMax requestedAmount

abbrev belowMin (requestedAmount : ℤ) : Prop :=
  0 < requestedAmount ∧ requestedAmount < page.minWithdrawal

abbrev invalidAmount (requestedAmount : ℤ) : Prop :=
  requestedAmount ≤ 0 ∨ page.cashBalance < requestedAmount ∨ page.belowMin requestedAmount

/-- `submit` goes on with the amount; a text that is no amount does not get here. -/
abbrev Passes (requestedAmount : ℤ) : Prop :=
  ¬page.invalidAmount requestedAmount ∧ ¬page.fragmented requestedAmount ∧
    ¬page.hardBlocked requestedAmount

theorem passes_iff {requestedAmount : ℤ} :
    page.Passes requestedAmount ↔
      0 < requestedAmount ∧ requestedAmount ≤ page.cashBalance ∧
        page.minWithdrawal ≤ requestedAmount ∧ requestedAmount ≤ page.maxSingleStep ∧
        requestedAmount ≤ page.safeMax := by
  simp only [Passes, invalidAmount, belowMin, fragmented, hardBlocked, exceeds]
  omega

end WithdrawPage

/-! ## Submitting -/

/-- A withdrawal that is relayed. `consolidated` are the notes merged before, if any. -/
structure Withdrawal (F : Type) where
  consolidated : List (Note F)
  spendNote : Note F
  effectiveWithdrawal : ℤ

inductive SubmitOutcome (F : Type) where
  | ignored
  | failed (error : String)
  | withdrew (w : Withdrawal F)

section Submit

variable [Field F] (C : Circomlib F) (ses : Session F Proof Sig)

def consolidateNotes (notes : List (Note F)) : Except String (Note F) :=
  match notes with
  | first :: _ :: _ =>
    if maxConsolidateInputs < notes.length then
      .error ("consolidateNotes accepts at most " ++ toString maxConsolidateInputs ++ " notes")
    else .ok (mergedNote C ses first notes)
  | _ => .error "consolidateNotes requires at least 2 notes"

/-- `nextNote`: what remains, in the lineage of the note. -/
def nextNote (spendNote : Note F) (remainingBalance : ℤ) : Note F where
  id := .commitment (computeCommitment C
    (ses.noteSecret spendNote.depositIndex (spendNote.derivationVersion.getD .v1)) remainingBalance
    (spendNote.nonce + 1) ses.address)
  kind := .betOutput
  ownerAddress := ses.address
  depositIndex := spendNote.depositIndex
  balance := remainingBalance
  nonce := spendNote.nonce + 1
  commitment := .commitment (computeCommitment C
    (ses.noteSecret spendNote.depositIndex (spendNote.derivationVersion.getD .v1)) remainingBalance
    (spendNote.nonce + 1) ses.address)
  nullifier := computeNullifier C
    (ses.noteSecret spendNote.depositIndex (spendNote.derivationVersion.getD .v1))
    (spendNote.nonce + 1)
  spent := false
  marketId := none
  side := none
  expectedShares := none
  nullifierOfBet := none
  positionId := none
  conditionId := none
  rawConditionId := none
  betAmount := none
  protocolFee := none
  derivationVersion := some (spendNote.derivationVersion.getD .v1)

namespace Withdrawal

variable (w : Withdrawal F)

omit [Field F] in
def remainingBalance : ℤ := w.spendNote.balance - w.effectiveWithdrawal

def remainder : Option (Note F) :=
  if 0 < w.remainingBalance then some (nextNote C ses w.spendNote w.remainingBalance) else none

def record [DecidableEq F] (cache : List (Note F)) : List (Note F) :=
  let merged := match w.consolidated with
    | [] => cache
    | notes =>
      addNote (notes.foldl (fun cache n => markNoteSpent cache n.commitment) cache) w.spendNote
  let spent := markNoteSpent merged w.spendNote.commitment
  match w.remainder C ses with
  | some next => addNote spent next
  | none => spent

omit [Field F] in
/-- The notes that the withdrawal ends; a merged note is made on the way. -/
def inputs : List (Note F) :=
  match w.consolidated with
  | [] => [w.spendNote]
  | notes => notes

def held [DecidableEq F] (free : List (Note F)) : List (Note F) :=
  free.filter (fun n => n ∉ w.inputs) ++ (w.remainder C ses).toList

end Withdrawal

namespace WithdrawPage

variable (page : WithdrawPage F Proof Sig)

omit [Field F] in
/-- A full drain of a lineage with an open position leaves one unit. -/
def effectiveWithdrawal (spendNote : Note F) (requestedAmount : ℤ) : ℤ :=
  if spendNote.depositIndex ∈ page.openPositionDeposits ∧ spendNote.balance ≤ requestedAmount ∧
      1 < spendNote.balance then
    spendNote.balance - 1
  else requestedAmount

omit [Field F] in
def withdrawFrom (consolidated : List (Note F)) (spendNote : Note F) (requestedAmount : ℤ) :
    Withdrawal F where
  consolidated
  spendNote
  effectiveWithdrawal := page.effectiveWithdrawal spendNote requestedAmount

variable [DecidableEq F]

def reconciled (r : ReconcileReads F) : List (Note F) :=
  reconcileSpentStatus page.session.cache page.session.address r

def spendable (r : ReconcileReads F) : List (Note F) :=
  getFreeNotes (page.reconciled r) page.session.address

def submit (hidden : F → Bool) (r : ReconcileReads F) (requestedAmount : ℤ) : SubmitOutcome F :=
  match page.cashNote with
  | none => .ignored
  | some cashNote =>
    if page.Passes requestedAmount then
      if requestedAmount ≤ cashNote.balance then
        .withdrew (page.withdrawFrom [] cashNote requestedAmount)
      else
        match selectNotesForAmount (page.reconciled r) hidden page.session.address requestedAmount
            ⟨some page.openPositionDeposits, some cashNote.depositIndex⟩ with
        | .error e => .failed e
        | .ok selection =>
          match consolidateNotes C page.session selection.notes with
          | .error e => .failed e
          | .ok merged => .withdrew (page.withdrawFrom selection.notes merged requestedAmount)
    else .ignored

end WithdrawPage

end Submit

/-! ## What the gates and the selection agree on -/

section Notes

variable {free : List (Note F)} {openDeposits : Finset ℕ} {x : ℤ}

theorem take_sortByBalance_nodup (hfree : free.Nodup) (k : ℕ) :
    ((sortByBalance free).take k).Nodup :=
  (List.take_sublist ..).nodup ((sortByBalance_perm free).nodup_iff.mpr hfree)

theorem mem_of_mem_take_sortByBalance {n : Note F} {k : ℕ}
    (hn : n ∈ (sortByBalance free).take k) : n ∈ free :=
  mem_sortByBalance.mp (List.mem_of_mem_take hn)

theorem topNsum_of_length_le {notes : List (Note F)} {k : ℕ} (h : notes.length ≤ k) :
    topNsum notes k = sumBalances notes := by
  have hperm := sortByBalance_perm notes
  rw [topNsum, List.take_of_length_le (hperm.length_eq.trans_le h)]
  exact sumBalances_perm hperm

theorem length_filter_lineage_le (hone : (free.map Note.depositIndex).Nodup) (d : ℕ) :
    (free.filter fun n => n.depositIndex = d).length ≤ 1 := by
  have hcount := List.nodup_iff_count_le_one.mp hone d
  rw [List.count, List.countP_map, List.countP_eq_length_filter] at hcount
  refine le_of_eq_of_le (congrArg List.length (List.filter_congr fun n _ => ?_)) hcount
  exact (beq_eq_decide ..).symm

/-- An amount that `safeMax` admits is one that some merge covers. -/
theorem exists_mergeable_of_le_safeMax {page : WithdrawPage F Proof Sig}
    (hone : (page.free.map Note.depositIndex).Nodup) (h : x ≤ page.safeMax) :
    ∃ s, Mergeable page.free page.openPositionDeposits s ∧ x ≤ sumBalances s := by
  have hfree : page.free.Nodup := List.Nodup.of_map _ hone
  have hclear : (clearNotes page.free page.openPositionDeposits).Nodup := hfree.filter _
  have hmem (k : ℕ) : ∀ n ∈ (sortByBalance (clearNotes page.free page.openPositionDeposits)).take k,
      n ∈ page.free ∧ n.depositIndex ∉ page.openPositionDeposits := fun n hn =>
    mem_clearNotes.mp (mem_of_mem_take_sortByBalance hn)
  have hnone (k : ℕ) : openNotes ((sortByBalance (clearNotes page.free
      page.openPositionDeposits)).take k) page.openPositionDeposits = [] := by
    refine List.filter_eq_nil_iff.mpr fun n hn => ?_
    simpa using (hmem k n hn).2
  rcases Finset.le_fold_max _ |>.mp h with hle | ⟨d, hd, hle⟩
  · refine ⟨_, ⟨take_sortByBalance_nodup hclear _, fun n hn => (hmem _ n hn).1,
      List.length_take_le .., ?_⟩, hle⟩
    show (openNotes _ _).length ≤ 1
    rw [hnone]
    exact Nat.zero_le 1
  · have hlineage := length_filter_lineage_le hone d
    refine ⟨(page.free.filter fun n => n.depositIndex = d) ++
      (sortByBalance (clearNotes page.free page.openPositionDeposits)).take
        (maxConsolidateInputs - 1), ⟨?_, ?_, ?_, ?_⟩, ?_⟩
    · refine List.nodup_append.mpr ⟨hfree.filter _, take_sortByBalance_nodup hclear _, ?_⟩
      rintro n hn _ hm rfl
      have hnd : n.depositIndex = d := by simpa using (List.mem_filter.mp hn).2
      exact (hmem _ n hm).2 (hnd ▸ hd)
    · intro n hn
      rcases List.mem_append.mp hn with hn | hn
      · exact (List.mem_filter.mp hn).1
      · exact (hmem _ n hn).1
    · have htake := List.length_take_le (maxConsolidateInputs - 1)
        (sortByBalance (clearNotes page.free page.openPositionDeposits))
      rw [List.length_append]
      simp only [maxConsolidateInputs] at htake ⊢
      omega
    · rw [List.filter_append]
      have hrest := hnone (maxConsolidateInputs - 1)
      unfold openNotes at hrest
      rw [hrest, List.append_nil]
      exact (List.length_filter_le ..).trans hlineage
    · rw [sumBalances_eq_weight, Greedy.weight_append]
      exact hle

/-- A note of an open lineage is in the pool only where the clear notes do not suffice, and then
it is the largest one. -/
theorem pickFrom_open {all : List (Note F)} {n : Note F} (hn : n ∈ pickFrom all openDeposits x)
    (hopen : n.depositIndex ∈ openDeposits) :
    ∃ rest, openNotes all openDeposits = n :: rest ∧
      sumBalances ((clearNotes all openDeposits).take maxConsolidateInputs) < x ∧
      pickFrom all openDeposits x = sortByBalance (clearNotes all openDeposits ++ [n]) := by
  have hpick : pickFrom all openDeposits x = selectionPool all openDeposits x :=
    if_pos ⟨_, hopen⟩
  rw [hpick] at hn ⊢
  cases hlist : openNotes all openDeposits with
  | nil =>
    rw [selectionPool, hlist] at hn
    exact absurd hopen (mem_clearNotes.mp hn).2
  | cons largest rest =>
    by_cases hcovers : x ≤ sumBalances ((clearNotes all openDeposits).take maxConsolidateInputs)
    · simp only [selectionPool, hlist, List.head?_cons, if_pos hcovers] at hn
      exact absurd hopen (mem_clearNotes.mp hn).2
    · simp only [selectionPool, hlist, List.head?_cons, if_neg hcovers, mem_sortByBalance,
        List.mem_append, List.mem_singleton] at hn ⊢
      rcases hn with hn | rfl
      · exact absurd hopen (mem_clearNotes.mp hn).2
      · exact ⟨rest, rfl, not_le.mp hcovers, rfl⟩

theorem pickFrom_eq {all : List (Note F)} {largest : Note F} {rest : List (Note F)}
    (hlist : openNotes all openDeposits = largest :: rest)
    (hlt : sumBalances ((clearNotes all openDeposits).take maxConsolidateInputs) < x) :
    pickFrom all openDeposits x = sortByBalance (clearNotes all openDeposits ++ [largest]) := by
  have hmem : largest ∈ openNotes all openDeposits := hlist ▸ List.mem_cons_self
  rw [pickFrom, if_pos ⟨_, (mem_openNotes.mp hmem).2⟩, selectionPool, hlist]
  exact if_neg (not_le.mpr hlt)

end Notes

/-! ## After the reconcile -/

section Reconcile

variable [DecidableEq F] [Zero F] {cache : List (Note F)} {wallet : Address} {r : ReconcileReads F}

theorem healsReceipt_free {n : Note F} (hn : n ∈ getFreeNotes cache wallet) :
    healsReceipt wallet r n = false := by
  have hkind : n.kind ≠ .betReceipt := (of_decide_eq_true (List.mem_filter.mp hn).2).2.1
  simp [healsReceipt, hkind]

/-- A reconcile takes the notes away whose nullifiers it has found spent. -/
theorem getFreeNotes_reconcile :
    getFreeNotes (reconcileSpentStatus cache wallet r) wallet =
      (getFreeNotes cache wallet).filter fun n => ¬inSpentSet cache wallet r n.nullifier := by
  have hfilter : ∀ n ∈ cache,
      ((fun n : Note F => decide (¬n.spent ∧ n.kind ≠ .betReceipt ∧ n.ownerAddress = wallet)) ∘
        fun n => if ¬n.spent ∧ n.kind ≠ .betReceipt ∧ inSpentSet cache wallet r n.nullifier then
            n.markSpent
          else if healsReceipt wallet r n then { n with spent := false } else n) n =
      (decide (¬inSpentSet cache wallet r n.nullifier) &&
        decide (¬n.spent ∧ n.kind ≠ .betReceipt ∧ n.ownerAddress = wallet)) := by
    intro n _
    rw [Function.comp_apply]
    split
    next h => simp [Note.markSpent, h.2.2]
    next h =>
      split
      next hheal =>
        have hkind : n.kind = .betReceipt := by
          simp only [healsReceipt, Bool.and_eq_true, decide_eq_true_eq] at hheal
          exact hheal.1.1.2
        simp [hkind]
      · by_cases hspent : inSpentSet cache wallet r n.nullifier
        · simp only [hspent, and_true] at h
          simp only [hspent, not_true, decide_false, Bool.false_and, decide_eq_false_iff_not]
          exact fun hfree => h ⟨hfree.1, hfree.2.1⟩
        · simp [hspent]
  unfold getFreeNotes reconcileSpentStatus
  rw [List.filter_map, List.filter_congr hfilter, ← List.filter_filter]
  refine (List.map_congr_left fun n hn => ?_).trans (List.map_id _)
  obtain ⟨hfree, hspent⟩ := List.mem_filter.mp hn
  rw [if_neg (fun h => of_decide_eq_true hspent h.2.2), healsReceipt_free hfree]
  rfl

end Reconcile

/-! ## One withdrawal -/

/-- The notes that a withdrawal ends are free and not empty, one of them is of the lineage that it
goes on with, and so is every one of an open lineage. -/
structure Spends (free : List (Note F)) (openDeposits : Finset ℕ) (w : Withdrawal F) : Prop where
  subset : w.inputs ⊆ free
  anchor : ∃ n ∈ w.inputs, n.depositIndex = w.spendNote.depositIndex
  open_anchor : ∀ n ∈ w.inputs, n.depositIndex ∈ openDeposits →
    n.depositIndex = w.spendNote.depositIndex
  pos : ∀ n ∈ w.inputs, 1 ≤ n.balance

section Withdrawal

variable [Field F] [DecidableEq F] (C : Circomlib F) (page : WithdrawPage F Proof Sig)

/-- Every open lineage with a free note still holds one that is not empty. -/
def KeepsOpenLineages (free : List (Note F)) (w : Withdrawal F) : Prop :=
  ∀ d ∈ page.openPositionDeposits, (∃ n ∈ free, n.depositIndex = d) →
    ∃ n ∈ w.held C page.session free, n.depositIndex = d ∧ 1 ≤ n.balance

omit [Field F] [DecidableEq F] in
/-- The withdrawal is of all that an open lineage has. -/
def Drains (spendNote : Note F) (x : ℤ) : Prop :=
  spendNote.depositIndex ∈ page.openPositionDeposits ∧ spendNote.balance ≤ x

variable {C page} {free : List (Note F)} {w : Withdrawal F} {x : ℤ}

variable (page) in
omit [Field F] [DecidableEq F] in
theorem effectiveWithdrawal_cases (n : Note F) (hle : x ≤ n.balance) :
    (page.effectiveWithdrawal n x = x - 1 ∧ Drains page n x ∧ n.balance = x ∧ 1 < x) ∨
    (page.effectiveWithdrawal n x = x ∧ ¬(Drains page n x ∧ 1 < x)) := by
  unfold WithdrawPage.effectiveWithdrawal Drains
  split
  next h => exact .inl ⟨by omega, ⟨h.1, h.2.1⟩, by omega, by omega⟩
  next h =>
    refine .inr ⟨rfl, fun hd => h ⟨hd.1.1, hd.1.2, ?_⟩⟩
    omega

theorem mem_held {n : Note F} :
    n ∈ w.held C page.session free ↔ (n ∈ free ∧ n ∉ w.inputs) ∨
      (0 < w.remainingBalance ∧
        n = nextNote C page.session w.spendNote w.remainingBalance) := by
  unfold Withdrawal.held Withdrawal.remainder
  by_cases h : 0 < w.remainingBalance <;> simp [h, @eq_comm _ n]

theorem withdrawal_iff (hone : (free.map Note.depositIndex).Nodup)
    (hs : Spends free page.openPositionDeposits w)
    (hw : w.effectiveWithdrawal = page.effectiveWithdrawal w.spendNote x)
    (hle : x ≤ w.spendNote.balance) (hmin : page.minWithdrawal ≤ x) :
    (KeepsOpenLineages C page free w ∧ page.minWithdrawal ≤ w.effectiveWithdrawal) ↔
      (∀ n ∈ free, n.depositIndex ∈ page.openPositionDeposits → 1 ≤ n.balance) ∧
      (Drains page w.spendNote x → 1 < x ∧ page.minWithdrawal < x) := by
  obtain ⟨a, ha, hlineage⟩ := hs.anchor
  have hremaining : w.remainingBalance = w.spendNote.balance - w.effectiveWithdrawal := rfl
  have hcases := effectiveWithdrawal_cases page w.spendNote hle
  rw [← hw] at hcases
  constructor
  · rintro ⟨hkeeps, hpaid⟩
    constructor
    · intro n hn hopen
      by_cases hin : n ∈ w.inputs
      · exact hs.pos n hin
      · obtain ⟨m, hm, hmn, hbal⟩ := hkeeps _ hopen ⟨n, hn, rfl⟩
        rcases mem_held.mp hm with ⟨hm, -⟩ | ⟨-, rfl⟩
        · exact List.inj_on_of_nodup_map hone hm hn hmn ▸ hbal
        · -- The remainder is in the lineage of an input, which is the only free note of it.
          have heq : a = n :=
            List.inj_on_of_nodup_map hone (hs.subset ha) hn (hlineage.trans hmn)
          exact absurd (heq ▸ ha) hin
    · intro hdrains
      obtain ⟨m, hm, hmn, hbal⟩ := hkeeps _ hdrains.1 ⟨a, hs.subset ha, hlineage⟩
      rcases mem_held.mp hm with ⟨hm, hout⟩ | ⟨hpos, -⟩
      · have heq : m = a :=
          List.inj_on_of_nodup_map hone hm (hs.subset ha) (hmn.trans hlineage.symm)
        exact absurd (heq ▸ ha) hout
      · have hdrained := hdrains.2
        rcases hcases with ⟨heff, -, -, hlt⟩ | ⟨heff, -⟩ <;> omega
  · rintro ⟨halive, habove⟩
    constructor
    · rintro d hd ⟨n, hn, rfl⟩
      by_cases hin : n ∈ w.inputs
      · have hsame := hs.open_anchor n hin hd
        have hpos : 0 < w.remainingBalance := by
          rcases hcases with ⟨heff, -, hbal, -⟩ | ⟨heff, hno⟩
          · omega
          · by_contra hle'
            have hdrains : Drains page w.spendNote x := ⟨hsame ▸ hd, by omega⟩
            exact hno ⟨hdrains, (habove hdrains).1⟩
        exact ⟨_, mem_held.mpr (.inr ⟨hpos, rfl⟩), hsame.symm, hpos⟩
      · exact ⟨n, mem_held.mpr (.inl ⟨hn, hin⟩), rfl, halive n hn hd⟩
    · rcases hcases with ⟨heff, hdrains, -, -⟩ | ⟨heff, -⟩
      · have habove := (habove hdrains).2
        omega
      · omega

end Withdrawal

/-! ## The cache after the withdrawal -/

section Record

variable [DecidableEq F]

/-- A commitment is of one note of the cache. -/
def Identified (cache : List (Note F)) : Prop :=
  ∀ commitment, cache.Pairwise fun a b => ¬(a.isOf commitment ∧ b.isOf commitment)

theorem isOf_iff_of_identified {cache : List (Note F)} (h : Identified cache) {m n : Note F}
    (hm : m ∈ cache) (hn : n ∈ cache) : n.isOf m.commitment ↔ n = m := by
  constructor
  · intro hof
    by_contra hne
    have hsymm : Std.Symm fun a b : Note F => ¬(a.isOf m.commitment ∧ b.isOf m.commitment) :=
      ⟨fun a b hab hba => hab hba.symm⟩
    exact (h m.commitment).forall hn hm hne ⟨hof, .inl rfl⟩
  · rintro rfl
    exact .inl rfl

/-- What a note is found by. -/
def Note.key (n : Note F) : NoteId F × NoteId F := (n.commitment, n.id)

theorem map_key_markNoteSpent (cache : List (Note F)) (commitment : NoteId F) :
    (markNoteSpent cache commitment).map Note.key = cache.map Note.key := by
  refine List.lookmap_map_eq _ _ (fun a b hb => ?_) cache
  obtain ⟨-, hb⟩ := Option.ite_none_right_eq_some.mp hb
  rw [← Option.some.inj hb]
  rfl

theorem map_key_foldl_markNoteSpent (notes cache : List (Note F)) :
    (notes.foldl (fun cache n => markNoteSpent cache n.commitment) cache).map Note.key =
      cache.map Note.key := by
  induction notes generalizing cache with
  | nil => rfl
  | cons n notes ih => rw [List.foldl_cons, ih, map_key_markNoteSpent]

omit [DecidableEq F] in
theorem Identified.of_map_key {cache cache' : List (Note F)} (h : Identified cache)
    (hkeys : cache'.map Note.key = cache.map Note.key) : Identified cache' := by
  intro c
  have hpair : (cache.map Note.key).Pairwise fun a b =>
      ¬((a.1 = c ∨ a.2 = c) ∧ (b.1 = c ∨ b.2 = c)) := List.pairwise_map.mpr (h c)
  rw [← hkeys] at hpair
  exact List.pairwise_map.mp hpair

theorem markNoteSpent_cons_of_isOf {n : Note F} {commitment : NoteId F} (hn : n.isOf commitment)
    (cache : List (Note F)) : markNoteSpent (n :: cache) commitment = n.markSpent :: cache :=
  List.lookmap_cons_some _ _ (if_pos hn)

theorem markNoteSpent_cons_of_not_isOf {n : Note F} {commitment : NoteId F}
    (hn : ¬n.isOf commitment) (cache : List (Note F)) :
    markNoteSpent (n :: cache) commitment = n :: markNoteSpent cache commitment :=
  List.lookmap_cons_none _ _ (if_neg hn)

theorem getFreeNotes_markNoteSpent {cache : List (Note F)} {commitment : NoteId F}
    (h : cache.Pairwise fun a b => ¬(a.isOf commitment ∧ b.isOf commitment)) (wallet : Address) :
    getFreeNotes (markNoteSpent cache commitment) wallet =
      (getFreeNotes cache wallet).filter fun n => ¬n.isOf commitment := by
  induction cache with
  | nil => rfl
  | cons a cache ih =>
    rw [List.pairwise_cons] at h
    by_cases hof : a.isOf commitment
    · have hrest : ∀ n ∈ cache, ¬n.isOf commitment := fun n hn hn' => h.1 n hn ⟨hof, hn'⟩
      rw [markNoteSpent_cons_of_isOf hof, getFreeNotes, getFreeNotes, List.filter_filter,
        List.filter_cons_of_neg (by simp [Note.markSpent]),
        List.filter_cons_of_neg (by simp [hof])]
      refine List.filter_congr fun n hn => ?_
      simp [hrest n hn]
    · have ih := ih h.2
      unfold getFreeNotes at ih ⊢
      rw [markNoteSpent_cons_of_not_isOf hof, List.filter_cons, ih, List.filter_cons]
      split
      · rw [List.filter_cons_of_pos (by simpa using hof)]
      · rfl

omit [DecidableEq F] in
theorem getFreeNotes_addNote (cache : List (Note F)) (note : Note F) (wallet : Address) :
    getFreeNotes (addNote cache note) wallet =
      getFreeNotes cache wallet ++ getFreeNotes [note] wallet :=
  List.filter_append ..

theorem getFreeNotes_foldl_markNoteSpent {wallet : Address} (notes : List (Note F))
    {cache : List (Note F)} (h : Identified cache) :
    getFreeNotes (notes.foldl (fun cache n => markNoteSpent cache n.commitment) cache) wallet =
      (getFreeNotes cache wallet).filter fun n => ∀ m ∈ notes, ¬n.isOf m.commitment := by
  induction notes generalizing cache with
  | nil => simp
  | cons m notes ih =>
    rw [List.foldl_cons, ih (h.of_map_key (map_key_markNoteSpent ..)),
      getFreeNotes_markNoteSpent (h _), List.filter_filter]
    refine List.filter_congr fun n _ => ?_
    simp [Bool.and_comm]

theorem filter_isOf_eq {cache notes : List (Note F)} {wallet : Address} (hcache : Identified cache)
    (hnotes : notes ⊆ getFreeNotes cache wallet) :
    (getFreeNotes cache wallet).filter (fun n => ∀ m ∈ notes, ¬n.isOf m.commitment) =
      (getFreeNotes cache wallet).filter fun n => n ∉ notes := by
  refine List.filter_congr fun n hn => ?_
  rw [decide_eq_decide]
  constructor
  · intro h hmem
    exact h n hmem (.inl rfl)
  · intro h m hm hof
    have heq := (isOf_iff_of_identified hcache (List.mem_of_mem_filter (hnotes hm))
      (List.mem_of_mem_filter hn)).mp hof
    exact h (heq ▸ hm)

variable [Field F] {C : Circomlib F} {ses : Session F Proof Sig} {cache : List (Note F)}
  {w : Withdrawal F}

omit [DecidableEq F] in
theorem getFreeNotes_nextNote (spendNote : Note F) (remainingBalance : ℤ) :
    getFreeNotes [nextNote C ses spendNote remainingBalance] ses.address =
      [nextNote C ses spendNote remainingBalance] :=
  List.filter_cons_of_pos (by simp [nextNote])

omit [DecidableEq F] in
theorem getFreeNotes_remainder (spent : List (Note F)) :
    getFreeNotes (match w.remainder C ses with
      | some next => addNote spent next
      | none => spent) ses.address =
    getFreeNotes spent ses.address ++ (w.remainder C ses).toList := by
  unfold Withdrawal.remainder
  by_cases hpos : 0 < w.remainingBalance
  · simp only [if_pos hpos, getFreeNotes_addNote, getFreeNotes_nextNote, Option.toList_some]
  · simp only [if_neg hpos, Option.toList_none, List.append_nil]

omit [Field F] in
theorem getFreeNotes_merged {notes : List (Note F)} {n : Note F} (hcache : Identified cache)
    (hfresh : ∀ m ∈ cache, ¬m.isOf n.commitment) (wallet : Address) :
    getFreeNotes (markNoteSpent (addNote
      (notes.foldl (fun cache n => markNoteSpent cache n.commitment) cache) n) n.commitment) wallet
      = (getFreeNotes cache wallet).filter fun n => ∀ m ∈ notes, ¬n.isOf m.commitment := by
  have hkeys := map_key_foldl_markNoteSpent notes cache
  have hfresh' : ∀ m ∈ notes.foldl (fun cache n => markNoteSpent cache n.commitment) cache,
      ¬m.isOf n.commitment := by
    intro m hm
    obtain ⟨a, ha, hkey⟩ := List.mem_map.mp (hkeys ▸ List.mem_map_of_mem (f := Note.key) hm)
    have hof := hfresh a ha
    obtain ⟨hcommitment, hid⟩ := Prod.mk.inj hkey
    rwa [Note.isOf, hcommitment, hid] at hof
  rw [getFreeNotes_markNoteSpent, getFreeNotes_addNote, List.filter_append,
    getFreeNotes_foldl_markNoteSpent _ hcache, List.filter_filter]
  · have hlast : (getFreeNotes [n] wallet).filter (fun m => ¬m.isOf n.commitment) = [] := by
      refine List.filter_eq_nil_iff.mpr fun m hm => ?_
      rw [List.mem_singleton.mp (List.mem_of_mem_filter hm)]
      simp [Note.isOf]
    rw [hlast, List.append_nil]
    refine List.filter_congr fun m hm => ?_
    simp [hfresh m (List.mem_of_mem_filter hm)]
  · refine List.pairwise_append.mpr ⟨(hcache.of_map_key hkeys) _, List.pairwise_singleton .., ?_⟩
    rintro m hm _ _ ⟨hof, -⟩
    exact hfresh' m hm hof

/-- The cache is written to what the wallet holds. -/
theorem getFreeNotes_record (hcache : Identified cache)
    (hinputs : w.inputs ⊆ getFreeNotes cache ses.address)
    (hfresh : w.consolidated ≠ [] → ∀ n ∈ cache, ¬n.isOf w.spendNote.commitment) :
    getFreeNotes (w.record C ses cache) ses.address =
      w.held C ses (getFreeNotes cache ses.address) := by
  have hinputs' := filter_isOf_eq hcache hinputs
  rw [Withdrawal.record, getFreeNotes_remainder, Withdrawal.held, ← hinputs']
  congr 1
  cases hnotes : w.consolidated with
  | nil => simp [Withdrawal.inputs, hnotes, getFreeNotes_markNoteSpent (hcache _)]
  | cons first others =>
    simp only [Withdrawal.inputs, hnotes]
    exact getFreeNotes_merged hcache (hfresh (by simp [hnotes])) _

end Record

/-! ## The withdrawal that is submitted -/

section Gated

variable [Field F] [DecidableEq F] {C : Circomlib F} {page : WithdrawPage F Proof Sig}
  {hidden : F → Bool} {r : ReconcileReads F} {x : ℤ} {c : Note F}

theorem spendable_sublist : (page.spendable r).Sublist page.free := by
  rw [WithdrawPage.spendable, WithdrawPage.reconciled, getFreeNotes_reconcile]
  exact List.filter_sublist

theorem spendable_lineages (hone : (page.free.map Note.depositIndex).Nodup) :
    ((page.spendable r).map Note.depositIndex).Nodup :=
  (spendable_sublist.map _).nodup hone

omit [Field F] [DecidableEq F] in
theorem le_cashNote (hc : page.cashNote = some c) {n : Note F} (hn : n ∈ page.free) :
    n.balance ≤ c.balance := by
  have hsorted := sortByBalance_pairwise page.free
  obtain ⟨rest, hrest⟩ := List.head?_eq_some_iff.mp hc
  have hrest : sortByBalance page.free = c :: rest := hrest
  have hmem := mem_sortByBalance.mpr hn
  rw [hrest] at hmem hsorted
  rcases List.mem_cons.mp hmem with rfl | hmem
  · exact le_rfl
  · exact (List.pairwise_cons.mp hsorted).1 n hmem

omit [Field F] [DecidableEq F] in
theorem exists_cashNote (hpass : page.Passes x) : ∃ c, page.cashNote = some c := by
  have hgates := page.passes_iff.mp hpass
  cases hc : page.cashNote with
  | some c => exact ⟨c, rfl⟩
  | none =>
    have hsort : sortByBalance page.free = [] := List.head?_eq_none_iff.mp hc
    have hnil : page.free = [] := List.Perm.nil_eq (hsort ▸ sortByBalance_perm page.free) |>.symm
    have hzero : page.cashBalance = sumBalances page.free := rfl
    rw [hnil] at hzero
    have : sumBalances ([] : List (Note F)) = 0 := rfl
    omega

variable (C hidden r) in
theorem submit_direct (hpass : page.Passes x) (hc : page.cashNote = some c)
    (hle : x ≤ c.balance) :
    page.submit C hidden r x = .withdrew (page.withdrawFrom [] c x) := by
  simp only [WithdrawPage.submit, hc, if_pos hpass, if_pos hle]

/-- The notes of a merge, as `submit` makes it. -/
structure Merges (page : WithdrawPage F Proof Sig) (r : ReconcileReads F) (x : ℤ)
    (notes : List (Note F)) : Prop where
  mergeable : Mergeable (page.spendable r) page.openPositionDeposits notes
  covers : x ≤ sumBalances notes
  openFirst : OpenFirst page.openPositionDeposits notes
  shortest : ∃ n ≤ maxConsolidateInputs,
    Greedy.FirstCover Note.balance x
      (pickFrom (sortByBalance (page.spendable r)) page.openPositionDeposits x) n ∧
    notes.Perm ((pickFrom (sortByBalance (page.spendable r)) page.openPositionDeposits x).take n)

variable (C hidden r) in
/-- More than the largest note: two notes or more are merged, unless no merge covers it. -/
theorem submit_merge (hone : (page.free.map Note.depositIndex).Nodup) (hpass : page.Passes x)
    (hc : page.cashNote = some c) (hlt : c.balance < x) :
    (∃ e, page.submit C hidden r x = .failed e ∧
      ∀ s, Mergeable (page.spendable r) page.openPositionDeposits s → sumBalances s < x) ∨
    ∃ first second others, Merges page r x (first :: second :: others) ∧
      page.submit C hidden r x = .withdrew (page.withdrawFrom (first :: second :: others)
        (mergedNote C page.session first (first :: second :: others)) x) := by
  have hpos : 0 < x := (page.passes_iff.mp hpass).1
  have hlineages := spendable_lineages (r := r) hone
  cases hsel : selectNotesForAmount (page.reconciled r) hidden page.session.address x
      ⟨some page.openPositionDeposits, some c.depositIndex⟩ with
  | error e =>
    refine .inl ⟨e, ?_, fun s hs => selectNotesForAmount_error hpos hsel hs⟩
    simp only [WithdrawPage.submit, hc, if_pos hpass, if_neg (not_le.mpr hlt), hsel]
  | ok sel =>
    obtain ⟨hmergeable, -, hcovers, hfirst⟩ := selectNotesForAmount_ok hlineages hsel
    have hshortest := selectNotesForAmount_firstCover hsel
    right
    cases hnotes : sel.notes with
    | nil =>
      rw [hnotes] at hcovers
      exact absurd hcovers (not_le.mpr hpos)
    | cons first others =>
      cases others with
      | nil =>
        have hmem : first ∈ sel.notes := by rw [hnotes]; exact List.mem_cons_self
        have hle := le_cashNote hc (spendable_sublist.subset (hmergeable.free hmem))
        rw [hnotes] at hcovers
        simp only [sumBalances, List.map_cons, List.map_nil, List.sum_cons, List.sum_nil] at hcovers
        omega
      | cons second others =>
        rw [hnotes] at hmergeable hcovers hfirst hshortest
        refine ⟨first, second, others, ⟨hmergeable, hcovers, hfirst, hshortest⟩, ?_⟩
        simp only [WithdrawPage.submit, hc, if_pos hpass, if_neg (not_le.mpr hlt), hsel, hnotes,
          consolidateNotes, if_neg (not_lt.mpr hmergeable.length_le)]

theorem spends_direct (hx : 0 < x) (hle : x ≤ c.balance) (hc : c ∈ page.spendable r) :
    Spends (page.spendable r) page.openPositionDeposits (page.withdrawFrom [] c x) where
  subset := by
    intro n hn
    rwa [List.mem_singleton.mp hn]
  anchor := ⟨c, List.mem_singleton_self c, rfl⟩
  open_anchor := by
    intro n hn _
    rw [List.mem_singleton.mp hn]
  pos := by
    intro n hn
    have hnc : n = c := List.mem_singleton.mp hn
    rw [hnc]
    omega

theorem Merges.spends {first second : Note F} {others : List (Note F)}
    (h : Merges page r x (first :: second :: others)) :
    Spends (page.spendable r) page.openPositionDeposits
      (page.withdrawFrom (first :: second :: others)
        (mergedNote C page.session first (first :: second :: others)) x) where
  subset := h.mergeable.free
  anchor := ⟨first, List.mem_cons_self, rfl⟩
  open_anchor := by
    intro n hn hopen
    obtain ⟨i, hi⟩ := List.mem_iff_getElem?.mp hn
    obtain rfl := h.openFirst i n hi hopen
    obtain rfl : first = n := Option.some.inj hi
    rfl
  pos := by
    intro n hn
    obtain ⟨k, -, hcover, hperm⟩ := h.shortest
    exact hcover.pos (falling_pickFrom (sortByBalance_pairwise _)) n (hperm.mem_iff.mp hn)

/-- What the merge would leave is nothing: the largest open note and clear notes, as few of the
largest as cover the amount, sum to it. -/
def MergeDrains (page : WithdrawPage F Proof Sig) (r : ReconcileReads F) (x : ℤ) : Prop :=
  let all := sortByBalance (page.spendable r)
  let clear := clearNotes all page.openPositionDeposits
  ∃ largest rest, openNotes all page.openPositionDeposits = largest :: rest ∧
    sumBalances (clear.take maxConsolidateInputs) < x ∧
    ∃ k ≤ maxConsolidateInputs,
      Greedy.FirstCover Note.balance x (sortByBalance (clear ++ [largest])) k ∧
      largest ∈ (sortByBalance (clear ++ [largest])).take k ∧
      sumBalances ((sortByBalance (clear ++ [largest])).take k) = x

theorem Merges.drains_iff {first : Note F} {others : List (Note F)}
    (h : Merges page r x (first :: others)) :
    Drains page (mergedNote C page.session first (first :: others)) x ↔ MergeDrains page r x := by
  obtain ⟨k, hk, hcover, hperm⟩ := h.shortest
  have hsum := sumBalances_perm hperm
  constructor
  · rintro ⟨hopen, hle⟩
    have hmem := hperm.mem_iff.mp (List.mem_cons_self : first ∈ first :: others)
    obtain ⟨rest, hlist, hlt, hpool⟩ := pickFrom_open (List.mem_of_mem_take hmem) hopen
    rw [hpool] at hcover hmem hsum
    exact ⟨first, rest, hlist, hlt, k, hk, hcover, hmem,
      hsum.symm.trans (le_antisymm hle h.covers)⟩
  · rintro ⟨largest, rest, hlist, hlt, k', -, hcover', hmem, htotal⟩
    have hpool := pickFrom_eq hlist hlt
    rw [← hpool] at hcover' hmem htotal
    obtain rfl := hcover.unique hcover'
    have hopen : largest.depositIndex ∈ page.openPositionDeposits :=
      (mem_openNotes.mp (hlist ▸ List.mem_cons_self)).2
    obtain ⟨i, hi⟩ := List.mem_iff_getElem?.mp (hperm.mem_iff.mpr hmem)
    obtain rfl := h.openFirst i largest hi hopen
    obtain rfl : first = largest := Option.some.inj hi
    exact ⟨hopen, (hsum.trans htotal).le⟩

/-- Still, after the reconcile, the notes to spend are there. -/
def Covered (page : WithdrawPage F Proof Sig) (r : ReconcileReads F) (x : ℤ) (c : Note F) : Prop :=
  if x ≤ c.balance then c ∈ page.spendable r
  else ∃ s, Mergeable (page.spendable r) page.openPositionDeposits s ∧ x ≤ sumBalances s

/-- The withdrawal takes all that a lineage with an open position has. -/
def DrainsOpen (page : WithdrawPage F Proof Sig) (r : ReconcileReads F) (x : ℤ) (c : Note F) :
    Prop :=
  if x ≤ c.balance then c.depositIndex ∈ page.openPositionDeposits ∧ x = c.balance
  else MergeDrains page r x

/-- A Vault with the fees that the page has read does not revert for the minimum. -/
def AboveMinimum (page : WithdrawPage F Proof Sig) (w : Withdrawal F) : Prop :=
  page.minWithdrawal ≤ w.effectiveWithdrawal ∧
    ∀ (E : Env F Proof Sig) (s : VaultState F) (proof : Proof) (inputs : WithdrawalPublicInputs F)
      (recipientAddress : Address), page.feeConfigData = some s.feeConfig →
      inputs.withdrawalAmount.toNat = w.effectiveWithdrawal →
      withdraw E s proof inputs recipientAddress ≠ .error .belowMinimum

/-- `submit` withdraws the amount, or one unit less from an open lineage that it would drain, of
notes that are not spent; the lineages with an open position are kept, and the amount is no less
than the minimum. -/
def Succeeds (C : Circomlib F) (page : WithdrawPage F Proof Sig) (hidden : F → Bool)
    (r : ReconcileReads F) (x : ℤ) : Prop :=
  ∃ w, page.submit C hidden r x = .withdrew w ∧ w.inputs ⊆ page.spendable r ∧
    KeepsOpenLineages C page (page.spendable r) w ∧
    (w.effectiveWithdrawal = x ∨
      w.effectiveWithdrawal = x - 1 ∧ Drains page w.spendNote x) ∧
    AboveMinimum page w

theorem aboveMinimum_of_le {w : Withdrawal F} (h : page.minWithdrawal ≤ w.effectiveWithdrawal) :
    AboveMinimum page w := by
  refine ⟨h, fun E s proof inputs recipientAddress hfee hamount hrevert => ?_⟩
  have hlt := (withdraw_belowMinimum_iff.mp hrevert).2.2.2
  have hmin : page.minWithdrawal = s.feeConfig.minWithdrawal.toNat := by
    rw [WithdrawPage.minWithdrawal, hfee]
  rw [UInt64.lt_iff_toNat_lt] at hlt
  omega

theorem succeeds_iff {w : Withdrawal F} (hone : (page.free.map Note.depositIndex).Nodup)
    (hsubmit : page.submit C hidden r x = .withdrew w)
    (hs : Spends (page.spendable r) page.openPositionDeposits w)
    (hw : w.effectiveWithdrawal = page.effectiveWithdrawal w.spendNote x)
    (hle : x ≤ w.spendNote.balance) (hmin : page.minWithdrawal ≤ x) :
    Succeeds C page hidden r x ↔
      (∀ n ∈ page.spendable r, n.depositIndex ∈ page.openPositionDeposits → 1 ≤ n.balance) ∧
      (Drains page w.spendNote x → 1 < x ∧ page.minWithdrawal < x) := by
  rw [← withdrawal_iff (C := C) (spendable_lineages hone) hs hw hle hmin]
  constructor
  · rintro ⟨w', hw', -, hkeeps, -, hpaid⟩
    obtain rfl : w = w' := SubmitOutcome.withdrew.inj (hsubmit.symm.trans hw')
    exact ⟨hkeeps, hpaid.1⟩
  · rintro ⟨hkeeps, hpaid⟩
    refine ⟨w, hsubmit, hs.subset, hkeeps, ?_, aboveMinimum_of_le hpaid⟩
    rw [hw]
    rcases effectiveWithdrawal_cases page w.spendNote hle with
      ⟨heff, hdrains, -⟩ | ⟨heff, -⟩
    · exact .inr ⟨heff, hdrains⟩
    · exact .inl heff

/-- The gated withdrawal succeeds exactly when the notes to spend are still there after the
reconcile, no note of an open lineage is empty, and a withdrawal of all that an open lineage has
is of more than one unit and of more than the minimum. A reconcile that finds no note spent leaves
the notes there. -/
theorem gated_withdrawal_iff (C : Circomlib F) (page : WithdrawPage F Proof Sig)
    (hidden : F → Bool) (r : ReconcileReads F) (x : ℤ)
    (hone : (page.free.map Note.depositIndex).Nodup) (hpass : page.Passes x) :
    ∃ c, page.cashNote = some c ∧
      (Succeeds C page hidden r x ↔
        Covered page r x c ∧
        (∀ n ∈ page.spendable r, n.depositIndex ∈ page.openPositionDeposits → 1 ≤ n.balance) ∧
        (DrainsOpen page r x c → 1 < x ∧ page.minWithdrawal < x)) ∧
      (page.spendable r = page.free → Covered page r x c) := by
  obtain ⟨hpos, -, hmin, -, hsafe⟩ := page.passes_iff.mp hpass
  obtain ⟨c, hc⟩ := exists_cashNote hpass
  have hcfree : c ∈ page.free := mem_sortByBalance.mp (List.mem_of_head? hc)
  refine ⟨c, hc, ?_, fun hsame => ?_⟩
  · by_cases hle : x ≤ c.balance
    · have hsubmit := submit_direct C hidden r hpass hc hle
      rw [Covered, DrainsOpen, if_pos hle, if_pos hle]
      by_cases hspendable : c ∈ page.spendable r
      · rw [succeeds_iff hone hsubmit (spends_direct hpos hle hspendable) rfl hle hmin]
        have hdrains : Drains page c x ↔
            c.depositIndex ∈ page.openPositionDeposits ∧ x = c.balance :=
          and_congr_right fun _ => ⟨le_antisymm hle, ge_of_eq⟩
        show _ ∧ (Drains page c x → _) ↔ _
        rw [hdrains]
        exact (and_iff_right hspendable).symm
      · refine ⟨?_, fun h => absurd h.1 hspendable⟩
        rintro ⟨w, hw, hinputs, -⟩
        obtain rfl := SubmitOutcome.withdrew.inj (hsubmit.symm.trans hw)
        exact absurd (hinputs (List.mem_singleton_self c)) hspendable
    · rw [Covered, DrainsOpen, if_neg hle, if_neg hle]
      rcases submit_merge C hidden r hone hpass hc (not_le.mp hle) with
        ⟨e, hfailed, hnone⟩ | ⟨first, second, others, hmerges, hsubmit⟩
      · constructor
        · rintro ⟨w, hw, -⟩
          cases hfailed.symm.trans hw
        · rintro ⟨⟨s, hs, hcovers⟩, -⟩
          exact absurd hcovers (not_le.mpr (hnone s hs))
      · rw [succeeds_iff hone hsubmit hmerges.spends rfl hmerges.covers hmin]
        show _ ∧ (Drains page (mergedNote C page.session _ _) x → _) ↔ _
        rw [hmerges.drains_iff]
        exact (and_iff_right ⟨_, hmerges.mergeable, hmerges.covers⟩).symm
  · rw [Covered, hsame]
    split
    · exact hcfree
    · exact exists_mergeable_of_le_safeMax hone hsafe

theorem spendable_eq_free (h : ∀ nullifier, r.spent nullifier = false) :
    page.spendable r = page.free := by
  rw [WithdrawPage.spendable, WithdrawPage.reconciled, getFreeNotes_reconcile]
  exact List.filter_eq_self.mpr fun n _ => by simp [inSpentSet, h]

end Gated

/-- The page of the bettor, with a position open in the lineage 0 and the fees of the deployment. -/
def mockPage (cache : List (Note (ZMod 101))) : WithdrawPage (ZMod 101) Unit Unit where
  session := {
    address := 7
    cache
    noteSecret := fun _ _ => (3 : ℕ)
    reads := ⟨fun _ => none, fun _ => none, fun _ _ => none, fun _ => none, fun _ _ => none,
      fun _ => none⟩
    prove := fun _ => some ()
    noAttestation := ⟨⟨0, 0, 0, 0⟩, ()⟩ }
  openPositionDeposits := {0}
  feeConfigData := some ⟨200, 50000, 1000000, 100000, 1000000, 9⟩

def nothingSpent : ReconcileReads (ZMod 101) := ⟨fun _ => false, fun _ => none, false⟩

def mockClear : Note (ZMod 101) :=
  { mockChange with
    id := .commitment 9
    depositIndex := 1
    balance := 2000000
    commitment := .commitment 9
    nullifier := 15 }

/-- Four of five dollars, of which three are in the open lineage. -/
theorem gated_withdrawal_merge :
    Succeeds mockCircomlib (mockPage [mockChange, mockClear]) (fun _ => false) nothingSpent
      4000000 := by
  have hsafe : 4000000 ≤ (mockPage [mockChange, mockClear]).safeMax := by
    refine Finset.le_fold_max _ |>.mpr (.inr ⟨0, by decide, ?_⟩)
    rw [topNsum_of_length_le (by decide)]
    decide
  have hpass : (mockPage [mockChange, mockClear]).Passes 4000000 := by
    refine (WithdrawPage.passes_iff _).mpr ⟨by decide, by decide, by decide, ?_, hsafe⟩
    rw [WithdrawPage.maxSingleStep, topNsum_of_length_le (by decide)]
    decide
  obtain ⟨c, -, hiff, hcovered⟩ := gated_withdrawal_iff mockCircomlib
    (mockPage [mockChange, mockClear]) (fun _ => false) nothingSpent 4000000 (by decide) hpass
  have hsame : (mockPage [mockChange, mockClear]).spendable nothingSpent =
      (mockPage [mockChange, mockClear]).free := spendable_eq_free fun _ => rfl
  refine hiff.mpr ⟨hcovered hsame, ?_, fun _ => by decide⟩
  rw [hsame]
  decide

/-- All of the only note, which is just the minimum. -/
theorem minimum_drain_fails :
    let page := mockPage [{ mockChange with balance := 1000000 }]
    (page.free.map Note.depositIndex).Nodup ∧ page.Passes 1000000 ∧
      ¬Succeeds mockCircomlib page (fun _ => false) nothingSpent 1000000 := by
  intro page
  have hfree : page.free = [{ mockChange with balance := 1000000 }] := by decide
  have hcash : page.cashNote = some { mockChange with balance := 1000000 } := by
    show (sortByBalance page.free).head? = _
    rw [hfree, sortByBalance, List.mergeSort_singleton]
    rfl
  have hsafe : 1000000 ≤ page.safeMax := by
    refine Finset.le_fold_max _ |>.mpr (.inr ⟨0, by decide, ?_⟩)
    rw [topNsum_of_length_le (by decide)]
    decide
  have hpass : page.Passes 1000000 := by
    refine (WithdrawPage.passes_iff _).mpr ⟨by decide, by decide, by decide, ?_, hsafe⟩
    rw [WithdrawPage.maxSingleStep, topNsum_of_length_le (by decide)]
    decide
  refine ⟨by decide, hpass, ?_⟩
  rintro ⟨w, hw, -, -, -, hmin, -⟩
  obtain rfl := SubmitOutcome.withdrew.inj
    ((submit_direct _ _ _ hpass hcash (by decide)).symm.trans hw)
  exact absurd hmin (by decide)

end Polyshield.Wallet
