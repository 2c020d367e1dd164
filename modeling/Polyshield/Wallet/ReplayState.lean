import Polyshield.Vault.Exits
import Polyshield.Vault.NoteSteps
import Polyshield.Wallet.Replay

/-!
# What a replay says of the Vault

The replay of one lineage next to a state of the Vault: the current note is the
last one of the lineage (`Current`), the receipts show its bets (`Receipts`), the
sales that are left are those not credited yet (`Sales`), and the client reads
what the state will keep (`ReadsVault`). Under these the replay's balances are the
ones that the Vault's credits prove.
-/

namespace Polyshield.Wallet

open Merkle CommitmentMerkleTree

variable {F Proof Sig : Type} [Field F] [DecidableEq F] {C : Circomlib F} {E : Env F Proof Sig}

/-- A nullifier of the lineage. -/
def Lineage.Owns (C : Circomlib F) (l : Lineage F) (x : F) : Prop :=
  ∃ k : ℕ, x = computeNullifier C l.secret k

omit [DecidableEq F] in
theorem owns_nullifier {l : Lineage F} {n : Polyshield.Note F} (h : n.secret = l.secret) :
    l.Owns C (n.nullifier C) :=
  ⟨n.nonce, by rw [computeNullifier, ← h]; rfl⟩

omit [DecidableEq F] in
theorem not_owns (hI : C.Injective) {l : Lineage F} {secret x : F} (h : secret ≠ l.secret) :
    ¬l.Owns C (NullifierHash C secret x) := by
  rintro ⟨k, hk⟩
  exact h (hI.poseidon2_inj hk).1

/-! ## The current note -/

/-- The current note of a replay is the last one of the lineage, which starts with its deposit. -/
structure Current (C : Circomlib F) (s : VaultState F) (address : Address) (l : Lineage F)
    (st : ChainNoteState F) : Prop where
  depositIndex : st.depositIndex = l.index
  secret : st.secret = l.secret
  nullifier : st.nullifier = computeNullifier C l.secret st.nonce
  note : ∀ n ∈ hiddenNotes C s.tree, n.secret = l.secret → n.nonce = st.nonce →
    n.owner = (address.toNat : F) ∧ st.commitment = n.commitment C ∧
      (st.spent = false → st.balance = n.balance)
  latest : ∀ n ∈ hiddenNotes C s.tree, n.secret = l.secret → n.nonce ≤ st.nonce
  present : (∃ n ∈ hiddenNotes C s.tree, n.secret = l.secret) ∨ st.nonce ≠ 0 →
    ∃ n ∈ hiddenNotes C s.tree, n.secret = l.secret ∧ n.nonce = st.nonce
  first : st.nonce = 0 → st.commitment = l.commitment ∧ (st.spent = false → st.balance = l.amount)
  spent : s.spent st.nullifier = st.spent

/-- Only the wallet deposits under the secret of the lineage, and only this deposit. -/
structure OwnDeposit (C : Circomlib F) (s : VaultState F) (address : Address) (l : Lineage F) :
    Prop where
  commitment : l.commitment = computeCommitment C l.secret l.amount 0 address
  first : ∀ n ∈ hiddenNotes C s.tree, n.secret = l.secret → n.nonce = 0 →
    n.owner = (address.toNat : F) ∧ n.balance = l.amount

section Current

variable {s s' : VaultState F} {address : Address} {l : Lineage F} {st : ChainNoteState F}

theorem Current.of_unspent {ch : Chain F Proof Sig} (hch : NotesHistory E ch)
    (h : Current E.circomlib ch.state address l st) {n : Polyshield.Note F}
    (hn : n ∈ hiddenNotes E.circomlib ch.state.tree) (hsec : n.secret = l.secret)
    (hun : ch.state.spent (n.nullifier E.circomlib) = false) :
    n.nonce = st.nonce ∧ n.nullifier E.circomlib = st.nullifier ∧ st.spent = false ∧
      st.balance = n.balance ∧ n.owner = (address.toNat : F) ∧
      st.commitment = n.commitment E.circomlib := by
  obtain ⟨n', hn', hsec', hnon'⟩ := h.present (.inl ⟨n, hn, hsec⟩)
  have hnon : n.nonce = st.nonce := by
    rcases (h.latest n hn hsec).lt_or_eq with hlt | heq
    · have := hch.earlier n' hn' n.nonce (hnon' ▸ hlt)
      rw [hsec', ← hsec] at this
      exact absurd (hun.symm.trans this) (by decide)
    · exact heq
  have hnul : n.nullifier E.circomlib = st.nullifier := by
    rw [h.nullifier, computeNullifier, ← hsec, ← hnon]
    rfl
  have hspent : st.spent = false := by
    rw [← h.spent, ← hnul]
    exact hun
  obtain ⟨howner, hcom, hbal⟩ := h.note n hn hsec hnon
  exact ⟨hnon, hnul, hspent, hbal hspent, howner, hcom⟩

omit [DecidableEq F] in
theorem Current.not_owns_of_ne (hI : C.Injective) (h : Current C s address l st)
    {n : Polyshield.Note F} (hsec : n.secret ≠ l.secret) : n.nullifier C ≠ st.nullifier :=
  fun heq => not_owns hI hsec ⟨st.nonce, (heq.trans h.nullifier : NullifierHash C n.secret _ = _)⟩

omit [DecidableEq F] in
/-- Nothing happens to the notes of the lineage, but that the current one may be spent. -/
theorem Current.frame (h : Current C s address l st) (ms : List (Polyshield.Note F))
    (hhidden : hiddenNotes C s'.tree = hiddenNotes C s.tree ++ ms)
    (hms : ∀ m ∈ ms, m.secret ≠ l.secret) {st' : ChainNoteState F}
    (hst : st' = st ∨ ∃ b, st' = { st with balance := b, spent := true })
    (hspent : s'.spent st.nullifier = st'.spent) : Current C s' address l st' := by
  have hmem : ∀ n ∈ hiddenNotes C s'.tree, n.secret = l.secret → n ∈ hiddenNotes C s.tree := by
    intro n hn hsec
    rw [hhidden] at hn
    exact (List.mem_append.mp hn).resolve_right fun hn => hms n hn hsec
  have hpresent : (∃ n ∈ hiddenNotes C s'.tree, n.secret = l.secret) ∨ st.nonce ≠ 0 →
      ∃ n ∈ hiddenNotes C s'.tree, n.secret = l.secret ∧ n.nonce = st.nonce := by
    intro hp
    obtain ⟨n, hn, hrest⟩ := h.present (hp.imp_left fun ⟨n, hn, hsec⟩ => ⟨n, hmem n hn hsec, hsec⟩)
    exact ⟨n, hhidden ▸ List.mem_append_left _ hn, hrest⟩
  rcases hst with rfl | ⟨b, rfl⟩
  · exact ⟨h.depositIndex, h.secret, h.nullifier, fun n hn hsec => h.note n (hmem n hn hsec) hsec,
      fun n hn hsec => h.latest n (hmem n hn hsec) hsec, hpresent, h.first, hspent⟩
  · refine ⟨h.depositIndex, h.secret, h.nullifier, fun n hn hsec hnon => ?_,
      fun n hn hsec => h.latest n (hmem n hn hsec) hsec, hpresent, fun h0 => ?_, hspent⟩
    · obtain ⟨howner, hcom, -⟩ := h.note n (hmem n hn hsec) hsec hnon
      exact ⟨howner, hcom, nofun⟩
    · exact ⟨(h.first h0).1, nofun⟩

/-- A deposit is another lineage's, or the lineage's own. -/
theorem Current.starts (h : Current C s address l st) {n : Polyshield.Note F}
    (hn : Starts C s s' n) (hown : OwnDeposit C s' address l) : Current C s' address l st := by
  have hmem : n ∈ hiddenNotes C s'.tree := by simp [hn.hidden]
  by_cases hsec : n.secret = l.secret
  · obtain ⟨howner, hbal⟩ := hown.first n hmem hsec hn.nonce
    have hcom : l.commitment = n.commitment C := by
      rw [hown.commitment, computeCommitment, Polyshield.Note.commitment, hsec, hbal, hn.nonce,
        howner]
      simp
    refine ⟨h.depositIndex, h.secret, h.nullifier, fun n' hn' hsec' hnon => ?_,
      fun n' hn' hsec' => ?_, fun _ => ?_, h.first, by rw [hn.spent]; exact h.spent⟩
    · rw [hn.hidden] at hn'
      rcases List.mem_append.mp hn' with hn' | hn'
      · exact h.note n' hn' hsec' hnon
      · obtain rfl := List.mem_singleton.mp hn'
        obtain ⟨hcom', hbal'⟩ := h.first (hnon ▸ hn.nonce)
        exact ⟨howner, hcom'.trans hcom, fun hs => by rw [hbal' hs, hbal]⟩
    · rw [hn.hidden] at hn'
      rcases List.mem_append.mp hn' with hn' | hn'
      · exact h.latest n' hn' hsec'
      · rw [List.mem_singleton.mp hn', hn.nonce]
        exact Nat.zero_le _
    · by_cases h0 : st.nonce = 0
      · exact ⟨n, hmem, hsec, hn.nonce.trans h0.symm⟩
      · obtain ⟨n', hn', hrest⟩ := h.present (.inr h0)
        exact ⟨n', by rw [hn.hidden]; exact List.mem_append_left _ hn', hrest⟩
  · refine h.frame _ hn.hidden (fun m hm => ?_) (.inl rfl) (by rw [hn.spent]; exact h.spent)
    rw [List.mem_singleton.mp hm]
    exact hsec

/-- Another lineage's note is spent. -/
theorem Current.advances_other (hI : C.Injective) (h : Current C s address l st)
    {n : Polyshield.Note F} {next : Option (Polyshield.Note F)} (hn : Advances C s s' n next)
    (hsec : n.secret ≠ l.secret) : Current C s' address l st := by
  refine h.frame _ hn.hidden (fun m hm => ?_) (.inl rfl) ?_
  · rw [(hn.follows m (Option.mem_toList.mp hm)).secret]
    exact hsec
  · rw [hn.spent, Function.update_of_ne (h.not_owns_of_ne hI hsec).symm]
    exact h.spent

/-- The state of a replay that goes on with the next note. -/
def ChainNoteState.next (C : Circomlib F) (st : ChainNoteState F) (kind : NoteKind) (balance : ℤ)
    (commitment : F) : ChainNoteState F :=
  { st with
    balance
    nonce := st.nonce + 1
    commitment
    nullifier := computeNullifier C st.secret (st.nonce + 1)
    kind
    spent := false }

/-- The lineage goes on with the note `m`, which continues the current one. -/
theorem Current.next {ch : Chain F Proof Sig} (hch : NotesHistory E ch)
    (h : Current E.circomlib ch.state address l st) {n m : Polyshield.Note F}
    (hn : n ∈ hiddenNotes E.circomlib ch.state.tree) (hsec : n.secret = l.secret)
    (hun : ch.state.spent (n.nullifier E.circomlib) = false) (hm : m.Follows n)
    (hhidden : hiddenNotes E.circomlib s'.tree = hiddenNotes E.circomlib ch.state.tree ++ [m])
    (hspent : s'.spent (m.nullifier E.circomlib) = false) (kind : NoteKind) :
    Current E.circomlib s' address l
      (st.next E.circomlib kind m.balance (m.commitment E.circomlib)) := by
  obtain ⟨hnon, hnul, hst, -, howner, -⟩ := h.of_unspent hch hn hsec hun
  have hmsec : m.secret = l.secret := hm.secret.trans hsec
  have hmnon : m.nonce = st.nonce + 1 := by rw [hm.nonce, hnon]
  have hnul' : computeNullifier E.circomlib st.secret (st.nonce + 1)
      = m.nullifier E.circomlib := by
    rw [computeNullifier, h.secret, ← hmsec, ← hmnon]
    rfl
  refine ⟨h.depositIndex, h.secret, ?_, fun n' hn' hsec' hnon' => ?_, fun n' hn' hsec' => ?_,
    fun _ => ⟨m, ?_, hmsec, hmnon⟩, nofun, ?_⟩
  · simp only [ChainNoteState.next, h.secret]
  · rw [hhidden] at hn'
    rcases List.mem_append.mp hn' with hn' | hn'
    · have := h.latest n' hn' hsec'
      simp only [ChainNoteState.next] at hnon'
      omega
    · obtain rfl := List.mem_singleton.mp hn'
      exact ⟨hm.owner.trans howner, rfl, fun _ => rfl⟩
  · rw [hhidden] at hn'
    rcases List.mem_append.mp hn' with hn' | hn'
    · exact (h.latest n' hn' hsec').trans (Nat.le_succ _)
    · rw [List.mem_singleton.mp hn', hmnon]
      exact le_rfl
  · rw [hhidden]
    exact List.mem_append_right _ (List.mem_singleton_self m)
  · simp only [ChainNoteState.next, hnul']
    exact hspent

/-- The lineage's own note is spent for the next one. -/
theorem Current.advances {ch : Chain F Proof Sig} (hE : E.Ideal) (hch : NotesHistory E ch)
    (h : Current E.circomlib ch.state address l st) {n m : Polyshield.Note F}
    (hn : Advances E.circomlib ch.state s' n (some m)) (hsec : n.secret = l.secret)
    (kind : NoteKind) :
    Current E.circomlib s' address l
      (st.next E.circomlib kind m.balance (m.commitment E.circomlib)) := by
  have hm := hn.follows m rfl
  refine h.next hch hn.mem hsec hn.unspent hm hn.hidden ?_ kind
  have hfresh := hch.books.notes.fresh_next hE.injective hE.wide hm hn.unspent
  have hne : m.nullifier E.circomlib ≠ n.nullifier E.circomlib := fun heq =>
    hfresh (heq ▸ List.mem_map_of_mem hn.mem)
  rw [hn.spent, Function.update_of_ne hne]
  exact hch.books.notes.unspent_of_fresh hfresh

end Current

/-! ## The receipts -/

/-- A receipt shows the bet as the Vault has it. -/
structure Receipt.Shows (rc : Receipt F) (bet : Bet F) : Prop where
  conditionId : rc.conditionId = bet.record.marketId
  side : rc.side = none
  betAmount : rc.betAmount = bet.record.betAmount.toNat
  spent : rc.spent = true ↔ bet.record.status.Terminal
  expectedShares : ¬bet.record.status.Terminal →
    rc.expectedShares = bet.record.expectedShares.toNat - bet.record.soldShares.toNat
  /-- Until a credit, nothing is sold and the fee is the one of the event. -/
  fee : bet.record.status = .active ∨ bet.record.status = .failed →
    rc.protocolFee = some (bet.fee.toNat : ℤ) ∧ bet.record.soldShares = 0
  sold_le : bet.record.soldShares ≤ bet.record.expectedShares
  free : bet.record.betAmount = 0 → bet.fee = 0

theorem not_terminal_active : ¬BetStatus.active.Terminal := by decide

theorem not_terminal_filled : ¬BetStatus.filled.Terminal := by decide

theorem not_terminal_failed : ¬BetStatus.failed.Terminal := by decide

namespace Receipt.Shows

variable {rc : Receipt F} {bet : Bet F} (h : rc.Shows bet)

include h

omit [Field F] [DecidableEq F]

theorem ended {status : BetStatus} (ht : status.Terminal) :
    ({ rc with spent := true } : Receipt F).Shows ⟨{ bet.record with status := status }, 0⟩ where
  conditionId := h.conditionId
  side := h.side
  betAmount := h.betAmount
  spent := by simp [ht]
  expectedShares := fun hopen => absurd ht hopen
  fee := fun hst => by
    rcases hst with rfl | rfl <;> exact absurd ht (by decide)
  sold_le := h.sold_le
  free := fun _ => rfl

theorem cancelled (hst : bet.record.status = .active) :
    rc.Shows ⟨{ bet.record with status := .failed }, bet.fee⟩ where
  conditionId := h.conditionId
  side := h.side
  betAmount := h.betAmount
  spent := by
    rw [h.spent, hst]
    simp only [not_terminal_active, not_terminal_failed]
  expectedShares := fun _ => h.expectedShares (hst ▸ not_terminal_active)
  fee := fun _ => h.fee (.inl hst)
  sold_le := h.sold_le
  free := h.free

theorem partialFill (hst : bet.record.status = .active) {f q : UInt64} {r : BetRecord F}
    (hf : r.expectedShares = f) (hq : r.betAmount = q) :
    (rc.normalize (some r)).Shows ⟨normalizedRecord bet.record f q, 0⟩ where
  conditionId := h.conditionId
  side := h.side
  betAmount := by rw [← hq]; rfl
  spent := by
    have := h.spent
    rw [hst] at this
    simp only [Receipt.normalize, normalizedRecord, this, not_terminal_active,
      not_terminal_filled]
  expectedShares := fun _ => by
    simp [Receipt.normalize, normalizedRecord, hf, (h.fee (.inl hst)).2]
  fee := fun hst => by simp [normalizedRecord] at hst
  sold_le := by
    simp only [normalizedRecord, (h.fee (.inl hst)).2]
    exact UInt64.zero_le
  free := fun _ => rfl

theorem close (hst : bet.record.status = .active ∨ bet.record.status = .filled) {a p : UInt64}
    (hhi : a ≤ bet.record.expectedShares) {sale : Sale}
    (hsold : sale.soldShares + bet.record.soldShares.toNat = a.toNat) :
    (rc.close (decide (a = bet.record.expectedShares)) (some sale)).Shows
      ⟨closedRecord bet.record a p, if a = bet.record.expectedShares then 0 else bet.fee⟩ := by
  have hopen : ¬bet.record.status.Terminal := by rcases hst with hst | hst <;> rw [hst] <;> decide
  by_cases hfull : a = bet.record.expectedShares
  · have hnew : (closedRecord bet.record a p).status = .closedCredited := if_pos hfull
    have hterm : (closedRecord bet.record a p).status.Terminal := by rw [hnew]; decide
    simp only [hfull, decide_true, ↓reduceIte, Receipt.close]
    rw [hfull] at hnew hterm
    exact ⟨h.conditionId, h.side, h.betAmount, by simp [hterm], fun ho => absurd hterm ho,
      fun hs => by rw [hnew] at hs; simp at hs, UInt64.le_refl _, fun _ => rfl⟩
  · have hnew : (closedRecord bet.record a p).status = .filled := if_neg hfull
    have hspent : rc.spent ≠ true := fun hs => hopen (h.spent.mp hs)
    simp only [hfull, decide_false, ↓reduceIte, Receipt.close, Bool.false_eq_true]
    refine ⟨h.conditionId, h.side, h.betAmount, ?_, fun _ => ?_,
      fun hs => by rw [hnew] at hs; simp at hs, hhi, h.free⟩
    · rw [hnew]
      exact ⟨fun hs => absurd hs hspent, fun hs => absurd hs not_terminal_filled⟩
    · have := h.expectedShares hopen
      simp only [closedRecord]
      omega

end Receipt.Shows

/-- The receipts that a replay has pushed are those of the bets of the lineage. -/
structure Receipts (C : Circomlib F) (s : VaultState F) (l : Lineage F) (r : Replay F) : Prop where
  indexed : r.Indexed
  shows : ∀ rc, .receipt rc ∈ r.recovered → l.Owns C rc.nullifierOfBet ∧
    rc.nullifierOfBet ∈ s.betList ∧ rc.Shows (s.bet rc.nullifierOfBet)
  all : ∀ b ∈ s.betList, l.Owns C b → ∃ rc, .receipt rc ∈ r.recovered ∧ rc.nullifierOfBet = b
  spent : ∀ f, .free f ∈ r.recovered → f.spent = true

/-- The sales that are left of a bet are those after the credited ones. -/
structure Sales (C : Circomlib F) (s : VaultState F) (l : Lineage F) (queue : F → List Sale)
    (r : Replay F) : Prop where
  left : ∀ b, l.Owns C b → r.soldByBet b = (queue b).drop (s.logs.filterMap (saleOf b)).length
  other : ∀ b, ¬l.Owns C b → r.soldByBet b = queue b

section Receipts

variable {s s' : VaultState F} {l : Lineage F} {r r' : Replay F} {queue : F → List Sale} {b : F}
  {f : Receipt F → Receipt F}

omit [DecidableEq F]

theorem Receipts.receipt? (h : Receipts C s l r) (hb : b ∈ s.betList) (hown : l.Owns C b) :
    ∃ rc, r.receipt? b = some rc ∧ rc.Shows (s.bet b) := by
  obtain ⟨rc, hrc, rfl⟩ := h.all b hb hown
  exact ⟨rc, h.indexed.receipt? hrc, (h.shows rc hrc).2.2⟩

/-- The bets of the lineage stay, or change by nothing that a receipt shows. -/
theorem Receipts.frame (h : Receipts C s l r)
    (hlist : ∀ x, l.Owns C x → (x ∈ s'.betList ↔ x ∈ s.betList))
    (hshows : ∀ x, l.Owns C x → ∀ rc : Receipt F, rc.Shows (s.bet x) → rc.Shows (s'.bet x)) :
    Receipts C s' l r where
  indexed := h.indexed
  shows := fun rc hrc => by
    obtain ⟨hown, hmem, hs⟩ := h.shows rc hrc
    exact ⟨hown, (hlist _ hown).mpr hmem, hshows _ hown rc hs⟩
  all := fun x hx hown => h.all x ((hlist x hown).mp hx) hown
  spent := h.spent

theorem Receipts.of_eq (h : Receipts C s l r) (hrec : r'.recovered = r.recovered)
    (hby : r'.receiptByBetNullifier = r.receiptByBetNullifier) : Receipts C s l r' where
  indexed := h.indexed.of_eq hrec hby
  shows := by rw [hrec]; exact h.shows
  all := by rw [hrec]; exact h.all
  spent := by rw [hrec]; exact h.spent

theorem Receipts.spendState (h : Receipts C s l r) (version : DerivationVersion) :
    Receipts C s l (r.spendState version) where
  indexed := h.indexed.spendState
  shows := fun rc hrc => h.shows rc (by simpa [Replay.spendState, Replay.pushFree] using hrc)
  all := fun x hx hown => by
    obtain ⟨rc, hrc, hbet⟩ := h.all x hx hown
    exact ⟨rc, List.mem_append_left _ hrc, hbet⟩
  spent := fun n hn => by
    simp only [Replay.spendState, Replay.pushFree, List.mem_append, List.mem_singleton,
      StoredNote.free.injEq] at hn
    rcases hn with hn | rfl
    · exact h.spent n hn
    · rfl

theorem Receipts.updateReceipt (h : Receipts C s l r) (hlist : s'.betList = s.betList)
    (hother : ∀ x, x ≠ b → s'.bet x = s.bet x)
    (hf : ∀ rc : Receipt F, (f rc).nullifierOfBet = rc.nullifierOfBet)
    (hshows : ∀ rc : Receipt F, rc.Shows (s.bet b) → (f rc).Shows (s'.bet b)) :
    Receipts C s' l (r.updateReceipt b f) where
  indexed := h.indexed.updateReceipt hf
  shows := fun rc hrc => by
    obtain ⟨rc', hrc', ⟨rfl, rfl⟩ | ⟨hne, rfl⟩⟩ := h.indexed.mem_updateReceipt.mp hrc
    · obtain ⟨hown, hmem, hs⟩ := h.shows rc' hrc'
      rw [hf]
      exact ⟨hown, hlist ▸ hmem, hshows rc' hs⟩
    · obtain ⟨hown, hmem, hs⟩ := h.shows rc hrc'
      rw [hother _ hne]
      exact ⟨hown, hlist ▸ hmem, hs⟩
  all := fun x hx hown => by
    rw [hlist] at hx
    obtain ⟨rc, hrc, rfl⟩ := h.all x hx hown
    by_cases hb : rc.nullifierOfBet = b
    · exact ⟨f rc, h.indexed.mem_updateReceipt.mpr ⟨rc, hrc, .inl ⟨hb, rfl⟩⟩, hf rc⟩
    · exact ⟨rc, h.indexed.mem_updateReceipt.mpr ⟨rc, hrc, .inr ⟨hb, rfl⟩⟩, rfl⟩
  spent := fun n hn => h.spent n (Replay.mem_free_updateReceipt.mp hn)

theorem Receipts.pushReceipt [DecidableEq F] (h : Receipts C s l r) {rc : Receipt F}
    (hlist : s'.betList = s.betList ++ [rc.nullifierOfBet])
    (hnew : rc.nullifierOfBet ∉ s.betList) (hown : l.Owns C rc.nullifierOfBet)
    (hother : ∀ x, x ≠ rc.nullifierOfBet → s'.bet x = s.bet x)
    (hshows : rc.Shows (s'.bet rc.nullifierOfBet)) : Receipts C s' l (r.pushReceipt rc) where
  indexed := h.indexed.pushReceipt fun rc' hrc' heq => hnew (heq ▸ (h.shows rc' hrc').2.1)
  shows := fun rc' hrc' => by
    rw [hlist]
    simp only [Replay.pushReceipt, List.mem_append, List.mem_singleton,
      StoredNote.receipt.injEq] at hrc'
    rcases hrc' with hrc' | rfl
    · obtain ⟨hown', hmem, hs⟩ := h.shows rc' hrc'
      rw [hother _ fun heq => hnew (heq ▸ hmem)]
      exact ⟨hown', List.mem_append_left _ hmem, hs⟩
    · exact ⟨hown, List.mem_append_right _ (List.mem_singleton_self _), hshows⟩
  all := fun x hx hownx => by
    rw [hlist] at hx
    rcases List.mem_append.mp hx with hx | hx
    · obtain ⟨rc', hrc', hbet⟩ := h.all x hx hownx
      exact ⟨rc', List.mem_append_left _ hrc', hbet⟩
    · exact ⟨rc, List.mem_append_right _ (List.mem_singleton_self _),
        (List.mem_singleton.mp hx).symm⟩
  spent := fun n hn => h.spent n (by simpa [Replay.pushReceipt] using hn)

/-- The events report no sale of the lineage's bets. -/
theorem Sales.frame [DecidableEq F] (h : Sales C s l queue r) {events : List (Event F)}
    (hlogs : s'.logs = s.logs ++ events)
    (hsales : ∀ b, l.Owns C b → events.filterMap (saleOf b) = [])
    (hr : r'.soldByBet = r.soldByBet) : Sales C s' l queue r' where
  left := fun b hown => by
    rw [hr, hlogs, List.filterMap_append, hsales b hown, List.append_nil]
    exact h.left b hown
  other := fun b hown => by
    rw [hr]
    exact h.other b hown

theorem Sales.shift [DecidableEq F] (h : Sales C s l queue r) (sale : Sale)
    {events : List (Event F)} (hown : l.Owns C b) (hlogs : s'.logs = s.logs ++ events)
    (hself : events.filterMap (saleOf b) = [sale])
    (hsales : ∀ x, x ≠ b → events.filterMap (saleOf x) = [])
    (hqueue : s'.logs.filterMap (saleOf b) <+: queue b) :
    (r.soldByBet b).head? = some sale ∧
      ∀ r' : Replay F, r'.soldByBet = (r.shiftSale b).soldByBet → Sales C s' l queue r' := by
  obtain ⟨rest, hrest⟩ := hqueue
  rw [hlogs, List.filterMap_append, hself] at hrest
  have hleft : r.soldByBet b = sale :: rest := by
    rw [h.left b hown, ← hrest, List.append_assoc, List.drop_left' rfl]
    rfl
  refine ⟨by rw [hleft]; rfl, fun r' hr' => ⟨fun x hx => ?_, fun x hx => ?_⟩⟩
  · rw [hr', Replay.soldByBet_shiftSale, hlogs, List.filterMap_append]
    by_cases hxb : x = b
    · subst hxb
      rw [Function.update_self, hleft, hself, ← hrest, List.drop_left' rfl]
      rfl
    · rw [Function.update_of_ne hxb, hsales x hxb, List.append_nil]
      exact h.left x hx
  · rw [hr', Replay.soldByBet_shiftSale, Function.update_of_ne fun hxb : x = b => hx (hxb ▸ hown)]
    exact h.other x hx

end Receipts

/-! ## The state that the replay reads -/

/-- The client reads the payouts of the resolved markets, and the records that were filled or
have failed. -/
structure ReadsVault (client : RecoveryClient F) (s : VaultState F) : Prop where
  payouts : ∀ key side, s.marketResolvedAt key ≠ 0 →
    client.pendingCredit key side = some (s.pendingCredit key side)
  records : ∀ b, (s.betRecords b).status ≠ .active → ∃ record, client.betRecords b = some record ∧
    record.expectedShares = (s.betRecords b).expectedShares ∧
    record.betAmount = (s.betRecords b).betAmount

omit [DecidableEq F] in
/-- Once a bet is not active, its shares and its stake stay. -/
theorem BetStep.normalized {b b' : Bet F} {e : BetEvent F} (h : BetStep b e b')
    (hst : b.record.status ≠ .active) :
    b'.record.status ≠ .active ∧ b'.record.expectedShares = b.record.expectedShares ∧
      b'.record.betAmount = b.record.betAmount := by
  cases h with
  | create => exact absurd rfl hst
  | settle | cancel | naCancel => exact ⟨by simp, rfl, rfl⟩
  | close =>
    refine ⟨?_, rfl, rfl⟩
    simp only [closedRecord]
    split <;> simp
  | partialFill h | adminCancel h => exact absurd h hst

/-- What is read in a state was so before the call that led to it. -/
theorem ReadsVault.before {client : RecoveryClient F} {s s' : VaultState F} (hs : BetInv s)
    {m : Msg} {c : Call F Proof Sig} (hx : exec E m s c = .ok s') (h : ReadsVault client s') :
    ReadsVault client s where
  payouts := fun key side hres => by
    have hkept : s'.pendingCredit key = s.pendingCredit key ∧
        s'.marketResolvedAt key = s.marketResolvedAt key := by
      rcases (frame_exec hx).2 with ⟨h1, h2⟩ | ⟨c', h0, -, hkeep⟩
      · exact ⟨congrFun h1 key, congrFun h2 key⟩
      · exact hkeep key fun hk => hres (hk ▸ h0)
    rw [← hkept.1]
    exact h.payouts key side (hkept.2 ▸ hres)
  records := fun b hst => by
    have hstep := betStep_exec (n := b) hs hx
    cases he : c.betEvent? s b with
    | none =>
      rw [he] at hstep
      have hrec : s'.betRecords b = s.betRecords b := congrArg Bet.record hstep
      rw [← hrec] at hst ⊢
      exact h.records b hst
    | some e =>
      rw [he] at hstep
      obtain ⟨hst', hshares, hstake⟩ := BetStep.normalized hstep hst
      obtain ⟨record, hrec, h1, h2⟩ := h.records b hst'
      exact ⟨record, hrec, h1.trans hshares, h2.trans hstake⟩

/-- A settlement pays what the replay reads: the payout of side 0 for the shares held, and the
stake where none is held. -/
def PaysAsReplayed (s : VaultState F) (b : F) : Prop :=
  let record := s.betRecords b
  if record.soldShares = record.expectedShares then record.betAmount = 0
  else s.pendingCredit record.marketId 0 = s.pendingCredit record.marketId record.outcomeSide

section Balances

variable (ctx : ReplayContext F) (st : ChainNoteState F) (newCommitment : F) {rc : Receipt F}
  {s : VaultState F} {b : F}

omit [Field F] [DecidableEq F] in
theorem stake_ne_zero_iff {bet : Bet F} (h : rc.Shows bet) :
    rc.betAmount ≠ 0 ↔ bet.record.betAmount ≠ 0 := by
  rw [h.betAmount, not_iff_not, Int.natCast_eq_zero, ← UInt64.toNat_inj]
  rfl

omit [Field F] [DecidableEq F] in
theorem balanceAfterCredit_settle (h : rc.Shows (s.bet b))
    (hopen : ¬(s.betRecords b).status.Terminal) (hpays : PaysAsReplayed s b)
    (hread : ctx.client.pendingCredit (s.betRecords b).marketId 0
      = some (s.pendingCredit (s.betRecords b).marketId 0)) :
    balanceAfterCredit ctx st .settle (some rc) newCommitment
      = st.balance + (((s.betRecords b).expectedShares.toNat - (s.betRecords b).soldShares.toNat)
        * (s.pendingCredit (s.betRecords b).marketId (s.betRecords b).outcomeSide).toNat : ℕ) := by
  have hshares := h.expectedShares hopen
  have hle := UInt64.le_iff_toNat_le.mp h.sold_le
  simp only [VaultState.bet] at hshares hle
  simp only [PaysAsReplayed] at hpays
  simp only [balanceAfterCredit, true_and, h.side, reduceCtorEq, ↓reduceIte, h.conditionId]
  split at hpays
  next heq =>
    rw [heq] at hshares ⊢
    have h0 : rc.expectedShares = 0 := by omega
    have hstake : rc.betAmount = 0 := by
      rw [h.betAmount, VaultState.bet, hpays]
      rfl
    simp [h0, hstake, inferBalanceFromCommitment]
  next hne =>
    have h0 : rc.expectedShares ≠ 0 := fun h0 =>
      hne (UInt64.toNat_inj.mp (by omega))
    rw [if_pos h0]
    simp only [VaultState.bet, hread]
    rw [hshares, hpays, Nat.cast_mul, Nat.cast_sub hle]

omit [Field F] [DecidableEq F] in
theorem balanceAfterCredit_cancel (h : rc.Shows (s.bet b))
    (hst : (s.betRecords b).status = .active ∨ (s.betRecords b).status = .failed) :
    balanceAfterCredit ctx st .betCancel (some rc) newCommitment
      = st.balance + ((s.betRecords b).betAmount.toNat + (s.betProtocolFee b).toNat : ℕ) := by
  simp only [balanceAfterCredit, reduceCtorEq, false_and, ↓reduceIte, (h.fee hst).1,
    Option.getD_some]
  split
  next hstake =>
    rw [h.betAmount]
    simp only [VaultState.bet]
    push_cast
    ring
  next hstake =>
    have hzero : (s.bet b).record.betAmount = 0 := by
      by_contra hne
      exact hstake ((stake_ne_zero_iff h).mpr hne)
    have hfee := h.free hzero
    simp only [VaultState.bet] at hzero hfee
    simp [hzero, hfee, inferBalanceFromCommitment]

omit [Field F] [DecidableEq F] in
theorem balanceAfterCredit_naCancel (h : rc.Shows (s.bet b)) :
    balanceAfterCredit ctx st .naCancel (some rc) newCommitment
      = st.balance + ((s.betRecords b).betAmount.toNat : ℕ) := by
  simp only [balanceAfterCredit, reduceCtorEq, false_and, ↓reduceIte, add_zero]
  split
  next hstake =>
    rw [h.betAmount]
    rfl
  next hstake =>
    have hzero : (s.bet b).record.betAmount = 0 := by
      by_contra hne
      exact hstake ((stake_ne_zero_iff h).mpr hne)
    simp only [VaultState.bet] at hzero
    simp [hzero, inferBalanceFromCommitment]

omit [Field F] [DecidableEq F] in
theorem balanceAfterPartial_eq (h : rc.Shows (s.bet b)) (hst : (s.betRecords b).status = .active)
    {q : UInt64} (hq : q ≤ (s.betRecords b).betAmount) {record : BetRecord F}
    (hrecord : record.betAmount = q) :
    balanceAfterPartial ctx st (some rc) (some record) newCommitment
      = st.balance + ((s.betRecords b).betAmount.toNat - q.toNat
        + refundedFee (s.betProtocolFee b).toNat (s.betRecords b).betAmount.toNat q.toNat : ℕ) := by
  have hle := UInt64.le_iff_toNat_le.mp hq
  have hstake : rc.betAmount = ((s.betRecords b).betAmount.toNat : ℤ) := h.betAmount
  have hfee : rc.protocolFee = some ((s.betProtocolFee b).toNat : ℤ) := (h.fee (.inl hst)).1
  simp only [balanceAfterPartial, partialRefund, Option.map_some, Option.getD_some,
    Option.bind_some, hfee, hstake, hrecord]
  congr 1
  rw [← Nat.cast_sub hle]
  by_cases hlt : q.toNat < (s.betRecords b).betAmount.toNat
  · rw [if_pos (Nat.cast_lt.mpr hlt), if_pos (Nat.cast_pos.mpr (by omega)), refundedFee,
      ← Nat.cast_mul, Int.tdiv_eq_ediv_of_nonneg (Int.natCast_nonneg _)]
    push_cast
    rfl
  · have heq : (s.betRecords b).betAmount.toNat - q.toNat = 0 := by omega
    rw [if_neg fun h => hlt (Nat.cast_lt.mp h)]
    simp [refundedFee, heq]

end Balances

end Polyshield.Wallet
