import Polyshield.Wallet.App

/-!
# Operations that land

A cash note of the cache is backed where a committed note of the wallet has its
balance, its nonce and its nullifier. An operation on backed notes that lands
spends them, and the note that the app makes for it is backed from then on.
-/

namespace Polyshield.Wallet

variable {F Proof Sig : Type} [Field F]

/-! ## What a note of the cache shows -/

/-- The cash note shows a committed note of the wallet. -/
structure Note.Shows (C : Circomlib F) (ses : Session F Proof Sig) (n : Note F)
    (c : Polyshield.Note F) : Prop where
  secret : c.secret = n.secret ses
  owner : c.owner = (ses.address.toNat : F)
  balance : n.balance = c.balance
  nonce : n.nonce = c.nonce
  commitment : n.commitment = .commitment (c.commitment C)
  nullifier : n.nullifier = c.nullifier C

/-- What the note shows is committed. -/
def Note.Backed [DecidableEq F] (C : Circomlib F) (ses : Session F Proof Sig) (v : VaultState F)
    (n : Note F) : Prop :=
  ∃ c ∈ hiddenNotes C v.tree, n.Shows C ses c

/-- A note as the app makes it. -/
structure Note.Fresh (C : Circomlib F) (ses : Session F Proof Sig) (n : Note F) : Prop where
  cash : n.IsCash ses
  id : n.id = n.commitment
  unspent : n.spent = false
  commitment : n.commitment
    = .commitment (computeCommitment C (n.secret ses) n.balance n.nonce ses.address)
  nullifier : n.nullifier = computeNullifier C (n.secret ses) n.nonce

section Shows

variable {C : Circomlib F} {ses : Session F Proof Sig} {n : Note F} {c : Polyshield.Note F}

/-- A note as the app makes it shows the one with its commitment, if its numbers are in range. -/
theorem Note.Fresh.shows (hI : C.Injective) (hF : Wide F) (hn : n.Fresh C ses)
    (h : c.commitment C = computeCommitment C (n.secret ses) n.balance n.nonce ses.address)
    (hpos : 0 ≤ n.balance) (hlt : n.balance < 2 ^ 253) (hnonce : n.nonce < 2 ^ 253) :
    n.Shows C ses c := by
  obtain ⟨hsec, hbal, hnon, howner⟩ := hI.poseidon4_inj h
  obtain ⟨k, hk⟩ := Int.eq_ofNat_of_zero_le hpos
  have hbal' : c.balance = k := by
    rw [hk, Int.cast_natCast] at hbal
    exact hF.eq (lt_253_of_lt_64 c.balance_lt) (by omega) hbal
  have hnon' : c.nonce = n.nonce := hF.eq (lt_253_of_lt_64 c.nonce_lt) hnonce hnon
  refine ⟨hsec, howner, by rw [hk, hbal'], hnon'.symm, by rw [hn.commitment, h], ?_⟩
  rw [hn.nullifier, Polyshield.Note.nullifier, hsec, hnon']
  rfl

theorem Note.Shows.unique (hI : C.Injective) (hF : Wide F) {c' : Polyshield.Note F}
    (h : n.Shows C ses c) (h' : n.Shows C ses c') : c = c' := by
  refine Note.commitment_inj hI hF ?_
  have heq := h.commitment.symm.trans h'.commitment
  exact NoteId.commitment.inj heq

theorem Note.Shows.balance_lt (h : n.Shows C ses c) : 0 ≤ n.balance ∧ n.balance < 2 ^ 64 := by
  have := c.balance_lt
  have := h.balance
  omega

theorem Note.Shows.nullifier_eq (h : n.Shows C ses c) :
    computeNullifier C (n.secret ses) n.nonce = n.nullifier := by
  rw [h.nullifier, Polyshield.Note.nullifier, h.secret, h.nonce]
  rfl

end Shows

/-! ## What the app makes -/

section Made

variable (C : Circomlib F) (ses : Session F Proof Sig)

open Operation

theorem fresh_depositNote (depositIndex amount : ℕ) :
    (depositNote C ses depositIndex amount).Fresh C ses := by
  refine ⟨⟨by simp [depositNote], rfl⟩, rfl, rfl, ?_, rfl⟩
  simp [depositNote, Note.secret]

theorem fresh_output (b : Bet F) : (b.output C ses).Fresh C ses :=
  ⟨⟨by simp [Bet.output], rfl⟩, rfl, rfl, rfl, rfl⟩

theorem fresh_mergedNote (first : Note F) (notes : List (Note F)) :
    (mergedNote C ses first notes).Fresh C ses :=
  ⟨⟨by simp [mergedNote], rfl⟩, rfl, rfl, rfl, rfl⟩

theorem fresh_nextNote (spendNote : Note F) (remainingBalance : ℤ) :
    (nextNote C ses spendNote remainingBalance).Fresh C ses :=
  ⟨⟨by simp [nextNote], rfl⟩, rfl, rfl, rfl, rfl⟩

variable {C ses}

theorem fresh_creditedNote {sub : Submission F Proof Sig} {receipt : Note F}
    (hcash : sub.note.IsCash ses)
    (h : (Operation.credit sub receipt).Admits C ses) :
    (creditedNote C sub receipt).Fresh C ses := by
  obtain ⟨-, hsec, -, hcom⟩ := h
  have hsecret : (creditedNote C sub receipt).secret ses = sub.secret := hsec.symm
  refine ⟨⟨?_, hcash.2⟩, rfl, rfl, ?_, ?_⟩
  · unfold creditedNote
    cases sub.call <;> simp
  · rw [hsecret]
    exact congrArg NoteId.commitment hcom
  · rw [hsecret]
    rfl

end Made

/-! ## An operation that lands -/

variable [DecidableEq F]

/-- The operation has spent its notes and committed what it makes. -/
structure Operation.Lands (C : Circomlib F) (ses : Session F Proof Sig) (s v : VaultState F)
    (op : Operation F Proof Sig) : Prop where
  hidden : ∃ cs, hiddenNotes C v.tree = hiddenNotes C s.tree ++ cs ∧
    List.Forall₂ (fun m c => m.Shows C ses c) (op.made C ses).toList cs
  spent : ∀ x, v.spent x = true ↔ s.spent x = true ∨ ∃ n ∈ op.ends, n.nullifier = x

section Lands

variable {E : Env F Proof Sig} {ses : Session F Proof Sig} (hE : E.Ideal) {s v : VaultState F}
  (hs : BooksInv E s)

omit [Field F] in
theorem spent_update_iff {spent : F → Bool} {y : F} (x : F) :
    Function.update spent y true x = true ↔ spent x = true ∨ y = x := by
  rw [Function.update_apply]
  split
  next h => simp [h]
  next h => simp [Ne.symm h]

include hE in
/-- A call that goes on from the note of an operation lands it. -/
theorem Operation.lands_of_advances {op : Operation F Proof Sig} {note m : Note F}
    {n next : Polyshield.Note F} (hends : op.ends = [note])
    (hmade : op.made E.circomlib ses = some m) (hfresh : m.Fresh E.circomlib ses)
    (hadv : Advances E.circomlib s v n (some next))
    (hnul : n.nullifier E.circomlib = note.nullifier)
    (hcom : next.commitment E.circomlib
      = computeCommitment E.circomlib (m.secret ses) m.balance m.nonce ses.address)
    (hpos : 0 ≤ m.balance) (hlt : m.balance < 2 ^ 253) (hnonce : m.nonce < 2 ^ 253) :
    op.Lands E.circomlib ses s v where
  hidden := by
    refine ⟨[next], hadv.hidden, ?_⟩
    rw [hmade]
    exact .cons (hfresh.shows hE.injective hE.wide hcom hpos hlt hnonce) .nil
  spent := fun x => by
    rw [hadv.spent, hnul, spent_update_iff, hends]
    simp

omit [DecidableEq F] in
theorem lt_253_of_shows {C : Circomlib F} {n : Note F} {c : Polyshield.Note F}
    (h : n.Shows C ses c) : n.nonce + 1 < 2 ^ 253 := by
  have := c.nonce_lt
  have := h.nonce
  have : (2 : ℕ) ^ 64 < 2 ^ 253 := by decide
  omega

include hE hs

theorem lands_deposit {depositIndex amount : ℕ} {m : Msg} {proof : Proof}
    (h : deposit E m s proof (computeCommitment E.circomlib (ses.noteSecret depositIndex .v2) amount
      0 ses.address) amount = .ok v) :
    (Operation.deposit depositIndex amount : Operation F Proof Sig).Lands E.circomlib ses s v := by
  obtain ⟨n, hn, hcom, -, hbal⟩ := starts_deposit hE hs h
  have hfresh := fresh_depositNote E.circomlib ses depositIndex amount
  have hlt := n.balance_lt
  refine ⟨⟨[n], hn.hidden, .cons (hfresh.shows hE.injective hE.wide hcom ?_ ?_ ?_) .nil⟩,
    fun x => ?_⟩
  · exact Int.natCast_nonneg _
  · show (amount : ℤ) < 2 ^ 253
    omega
  · exact Nat.two_pow_pos 253
  · rw [hn.spent]
    simp [Operation.ends]

theorem lands_bet {b : Bet F} {m : Msg} {merkle : MerkleProof F} {proof : Proof}
    (hb : b.cashNote.Backed E.circomlib ses s)
    (hadmits : 0 ≤ b.newBalance ∧ b.newBalance ≤ b.cashNote.balance)
    (h : authorizeBet E m s proof (b.inputs E.circomlib ses merkle).publicInputs = .ok v) :
    (Operation.bet b : Operation F Proof Sig).Lands E.circomlib ses s v := by
  obtain ⟨c, -, hc⟩ := hb
  have hbal := hc.balance_lt
  obtain ⟨n, next, hadv, hnul, hcom, -⟩ := advances_authorizeBet hE hs h
  refine Operation.lands_of_advances hE rfl rfl (fresh_output ..) hadv ?_ hcom hadmits.1 ?_
    (lt_253_of_shows hc)
  · exact hnul.trans hc.nullifier_eq
  · show b.newBalance < 2 ^ 253
    omega

theorem lands_withdraw {spendNote : Note F} {effectiveWithdrawal : ℤ} {merkle : MerkleProof F}
    {proof : Proof} (hb : spendNote.Backed E.circomlib ses s)
    (hadmits : 0 ≤ effectiveWithdrawal ∧ effectiveWithdrawal ≤ spendNote.balance)
    (h : withdraw E s proof {
      merkleRoot := merkle.root
      nullifier := spendNote.nullifier
      withdrawalAmount := UInt64.ofNat effectiveWithdrawal.toNat
      recipientHash := RecipientHash E.circomlib (ses.address.toNat : F)
      newCommitment := Operation.remainderCommitment E.circomlib ses spendNote
        effectiveWithdrawal } ses.address = .ok v) :
    (Operation.withdraw spendNote effectiveWithdrawal : Operation F Proof Sig).Lands
      E.circomlib ses s v := by
  obtain ⟨c, -, hc⟩ := hb
  have hbal := hc.balance_lt
  obtain ⟨n, next, hadv, hnul, -, hnext⟩ := advances_withdraw hE hs h
  by_cases hpos : 0 < spendNote.balance - effectiveWithdrawal
  · have hrem : Operation.remainderCommitment E.circomlib ses spendNote effectiveWithdrawal
        = computeCommitment E.circomlib (spendNote.secret ses)
          (spendNote.balance - effectiveWithdrawal) (spendNote.nonce + 1) ses.address := if_pos hpos
    have hmade : (Operation.withdraw spendNote effectiveWithdrawal : Operation F Proof Sig).made
        E.circomlib ses
          = some (nextNote E.circomlib ses spendNote (spendNote.balance - effectiveWithdrawal)) :=
      if_pos hpos
    cases next with
    | none =>
      have hzero : computeCommitment E.circomlib _ _ _ _ = (0 : F) := hrem.symm.trans hnext.1
      exact absurd hzero (hE.injective.poseidon4_ne_zero _ _ _ _)
    | some next =>
      refine Operation.lands_of_advances hE rfl hmade (fresh_nextNote ..) hadv hnul
        (hnext.1.trans hrem) hpos.le ?_ (lt_253_of_shows hc)
      show spendNote.balance - effectiveWithdrawal < 2 ^ 253
      omega
  · have hrem : Operation.remainderCommitment E.circomlib ses spendNote effectiveWithdrawal = 0 :=
      if_neg hpos
    have hmade : (Operation.withdraw spendNote effectiveWithdrawal : Operation F Proof Sig).made
        E.circomlib ses = none := if_neg hpos
    cases next with
    | some next =>
      exact absurd (hnext.1.trans hrem) (next.commitment_ne_zero hE.injective)
    | none =>
      refine ⟨⟨[], hadv.hidden, ?_⟩, fun x => ?_⟩
      · rw [hmade]
        exact .nil
      · rw [hadv.spent, hnul, spent_update_iff]
        simp [Operation.ends]

omit [Field F] [DecidableEq F] hE hs in
theorem sumBalances_bounds (notes : List (Note F))
    (h : ∀ n ∈ notes, 0 ≤ n.balance ∧ n.balance < 2 ^ 64) :
    0 ≤ sumBalances notes ∧ sumBalances notes ≤ notes.length * 2 ^ 64 := by
  induction notes with
  | nil => simp [sumBalances]
  | cons n notes ih =>
    have hn := h n List.mem_cons_self
    obtain ⟨hlo, hhi⟩ := ih fun m hm => h m (List.mem_cons_of_mem _ hm)
    simp only [sumBalances, List.map_cons, List.sum_cons, List.length_cons, Nat.cast_add,
      Nat.cast_one] at hlo hhi ⊢
    constructor
    · omega
    · omega

theorem lands_merge {first : Note F} {others : List (Note F)} {m : Msg} {root : F}
    {proof : Proof} (hb : ∀ n ∈ first :: others, n.Backed E.circomlib ses s)
    (hlength : others.length < maxConsolidateInputs)
    (h : exec E m s (consolidateCall E.circomlib ses first (first :: others) root proof) = .ok v) :
    (Operation.merge first others : Operation F Proof Sig).Lands E.circomlib ses s v := by
  have hbounds := sumBalances_bounds (first :: others) fun n hn => by
    obtain ⟨c, -, hc⟩ := hb n hn
    exact hc.balance_lt
  have hlen : (first :: others).length ≤ 4 := hlength
  obtain ⟨slot, n, next, hcons, hcom⟩ := consolidation_consolidate hE hs h
  obtain ⟨c, -, hc⟩ := hb first List.mem_cons_self
  have hsum : sumBalances (first :: others) < 2 ^ 253 := by
    have : (4 : ℤ) * 2 ^ 64 < 2 ^ 253 := by decide
    have : ((first :: others).length : ℤ) ≤ 4 := by exact_mod_cast hlen
    omega
  refine ⟨⟨[next], hcons.hidden, .cons ((fresh_mergedNote ..).shows hE.injective hE.wide hcom
    hbounds.1 hsum (lt_253_of_shows hc)) .nil⟩, fun x => ?_⟩
  rw [hcons.spent]
  refine or_congr_right ⟨?_, ?_⟩
  · rintro ⟨hne, j, hj⟩
    dsimp only at hj
    split at hj
    next k hk =>
      obtain ⟨ck, -, hck⟩ := hb k (List.mem_of_getElem? hk)
      exact ⟨k, List.mem_of_getElem? hk, hck.nullifier_eq.symm.trans hj⟩
    · exact absurd hj.symm hne
  · rintro ⟨k, hk, rfl⟩
    obtain ⟨ck, -, hck⟩ := hb k hk
    refine ⟨by rw [hck.nullifier]; exact ck.nullifier_ne_zero hE.injective, ?_⟩
    obtain ⟨j, hj, hget⟩ := List.getElem_of_mem hk
    have hsome : (first :: others)[j]? = some k := List.getElem?_eq_some_iff.mpr ⟨hj, hget⟩
    refine ⟨⟨j, hj.trans_le hlen⟩, ?_⟩
    simp only [hsome]
    exact hck.nullifier_eq

/-- A credit that the app submits goes on from the note of its inputs. -/
theorem advances_creditCall {c : CreditCall F Sig} {m : Msg} {proof : Proof}
    (h : exec E m s (c.call proof) = .ok v) :
    ∃ n next, Advances E.circomlib s v n (some next) ∧
      n.nullifier E.circomlib = c.core.nullifier ∧
      next.commitment E.circomlib = c.core.newCommitment := by
  cases c with
  | settle inputs att sig =>
    obtain ⟨hcr, -, -, -, -, hv⟩ := creditSettlement_ok h
    obtain ⟨n, next, hadv, hnul, hcom, -⟩ := hcr.advances hE hs (hE.sound hv)
    exact ⟨n, next, hadv, hnul, hcom⟩
  | cancel inputs att sig =>
    obtain ⟨hcr, -, refund, -, hv⟩ := betCancellationCredit_ok h
    obtain ⟨n, next, hadv, hnul, hcom, -⟩ := hcr.advances hE hs (hE.sound hv)
    exact ⟨n, next, hadv, hnul, hcom⟩
  | close inputs att sig =>
    obtain ⟨delta, credit, hcr, -, -, -, -, -, -, -, -, hv⟩ := closePosition_ok h
    obtain ⟨n, next, hadv, hnul, hcom, -⟩ := hcr.advances hE hs (hE.sound hv)
    exact ⟨n, next, hadv, hnul, hcom⟩
  | partialFill inputs att sig =>
    obtain ⟨hcr, -, -, -, -, -, -, refund, -, hv⟩ := partialFillCredit_ok h
    obtain ⟨n, next, hadv, hnul, hcom, -⟩ := hcr.advances hE hs (hE.sound hv)
    exact ⟨n, next, hadv, hnul, hcom⟩

theorem lands_credit {sub : Submission F Proof Sig} {receipt : Note F} {m : Msg}
    (hcash : sub.note.IsCash ses) (hb : sub.note.Backed E.circomlib ses s)
    (hadmits : (Operation.credit sub receipt).Admits E.circomlib ses)
    (h : exec E m s (sub.call.call sub.proof) = .ok v) :
    (Operation.credit sub receipt).Lands E.circomlib ses s v := by
  have hfresh := fresh_creditedNote hcash hadmits
  obtain ⟨⟨credit, hpos, hlt, hnew⟩, hsec, hnul, hcom⟩ := hadmits
  obtain ⟨c, -, hc⟩ := hb
  have hbal := hc.balance_lt
  obtain ⟨n, next, hadv, hn, hnext⟩ := advances_creditCall hE hs h
  have hsecret : (creditedNote E.circomlib sub receipt).secret ses = sub.secret := hsec.symm
  refine Operation.lands_of_advances hE rfl rfl hfresh hadv (hn.trans hnul) ?_ ?_ ?_
    (lt_253_of_shows hc)
  · rw [hsecret]
    exact hnext.trans hcom
  · show 0 ≤ sub.newBalance
    omega
  · show sub.newBalance < 2 ^ 253
    omega

theorem Operation.lands {op : Operation F Proof Sig} {m : Msg} {merkle : MerkleProof F}
    {proof : Proof} (hb : ∀ n ∈ op.ends, n.IsCash ses ∧ n.Backed E.circomlib ses s)
    (hadmits : op.Admits E.circomlib ses)
    (h : exec E m s (op.call E.circomlib ses merkle proof) = .ok v) :
    op.Lands E.circomlib ses s v := by
  cases op with
  | deposit depositIndex amount => exact lands_deposit hE hs h
  | bet b => exact lands_bet hE hs (hb _ (List.mem_singleton_self _)).2 hadmits h
  | merge first others => exact lands_merge hE hs (fun n hn => (hb n hn).2) hadmits.2 h
  | withdraw spendNote effectiveWithdrawal =>
    exact lands_withdraw hE hs (hb _ (List.mem_singleton_self _)).2 hadmits h
  | credit sub receipt =>
    obtain ⟨hcash, hbacked⟩ := hb _ (List.mem_singleton_self _)
    exact lands_credit hE hs hcash hbacked hadmits h

end Lands

end Polyshield.Wallet
