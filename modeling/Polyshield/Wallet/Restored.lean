import Polyshield.Wallet.Notes
import Polyshield.Wallet.Replay

/-!
# What a recovery saves

The notes that `recoverNotesWithClient` hands to `saveAll`, from all that it has
read. Of the cash notes the last one of a lineage alone may be unspent, and is so
only when the logs hold no spend of it after the one that made it.
-/

namespace Polyshield.Wallet

variable {F : Type}

def StoredNote.note (address : Address) : StoredNote F → Note F
  | .free f =>
    { id := .commitment f.commitment
      kind := f.kind
      ownerAddress := address
      depositIndex := f.depositIndex
      balance := f.balance
      nonce := f.nonce
      commitment := .commitment f.commitment
      nullifier := f.nullifier
      spent := f.spent
      marketId := none
      side := none
      expectedShares := none
      nullifierOfBet := none
      positionId := none
      conditionId := none
      rawConditionId := none
      betAmount := none
      protocolFee := none
      derivationVersion := some f.derivationVersion }
  | .receipt rc =>
    { id := .receipt rc.nullifierOfBet
      kind := .betReceipt
      ownerAddress := address
      depositIndex := rc.depositIndex
      balance := rc.balance
      nonce := rc.nonce
      commitment := .receipt rc.nullifierOfBet
      nullifier := rc.nullifier
      spent := rc.spent
      marketId := some (.hex rc.marketId)
      side := rc.side
      expectedShares := some rc.expectedShares
      nullifierOfBet := some rc.nullifierOfBet
      positionId := some rc.positionId
      conditionId := some rc.conditionId
      rawConditionId := none
      betAmount := some rc.betAmount
      protocolFee := rc.protocolFee
      derivationVersion := some rc.derivationVersion }

/-- What a recovery has read when it ends: the logs and the Vault, and the secrets that the wallet
signed for. -/
structure RecoveryReads (F : Type) where
  client : RecoveryClient F
  deriveSecretV2 : Option (ℕ → F)
  deriveSecret : ℕ → F
  gapLimit : ℕ
  hardCap : ℕ

/-- The nullifiers that an event of a replay spends. -/
def nullifiersOf : Event F → List F
  | .betAuthorized nullifier .. => [nullifier]
  | .settlementCredited nullifier .. => [nullifier]
  | .betCancellationCredited nullifier .. => [nullifier]
  | .naCancellationCredited nullifier .. => [nullifier]
  | .partialFillCredited nullifier .. => [nullifier]
  | .positionClosed nullifier .. => [nullifier]
  | .withdrawn nullifier .. => [nullifier]
  | .consolidated nullifiers _ => List.ofFn nullifiers
  | _ => []

variable [Field F] [DecidableEq F] (C : Circomlib F)

namespace RecoveryReads

variable (reads : RecoveryReads F) (wallet : Address)

def lineages : List (Lineage F) :=
  scanDeposits C wallet (reads.client.deposits wallet) reads.deriveSecretV2 reads.deriveSecret
    reads.gapLimit reads.hardCap

def recovered : List (Note F) :=
  (recoverNotesWithClient C wallet reads.deriveSecretV2 reads.deriveSecret reads.client
    reads.gapLimit reads.hardCap).map (StoredNote.note wallet)

/-- The logs lead a lineage of the wallet to the note, and none after them spends it. -/
def ShowsUnspent (c : NoteId F) : Prop :=
  ∃ l ∈ reads.lineages C wallet, ∃ (sold : F → List Sale) (balances : F → Option ℤ)
    (before after : List (Event F)) (st : ChainNoteState F),
    reads.client.timeline wallet = before ++ after ∧
      (before.foldl (replayEvent C ⟨reads.client, wallet, .final, l.index, l.version⟩)
        (startReplay C l sold balances)).state = st ∧
      c = .commitment st.commitment ∧ st.spent = false ∧ ∀ e ∈ after, st.nullifier ∉ nullifiersOf e

end RecoveryReads

theorem RecoveryReads.ownerAddress_recovered {C : Circomlib F} {reads : RecoveryReads F}
    {wallet : Address} {n : Note F} (hn : n ∈ reads.recovered C wallet) :
    n.ownerAddress = wallet := by
  obtain ⟨x, -, rfl⟩ := List.mem_map.mp hn
  cases x <;> rfl

/-! ## The flags of the notes that are emitted -/

section Flags

variable {C} {ctx : ReplayContext F} {r : Replay F}

theorem replayEvent_of_not_spends {e : Event F} (h : ∀ x ∈ nullifiersOf e, r.spends x = false) :
    replayEvent C ctx r e = r := by
  cases e <;> simp only [replayEvent, nullifiersOf, List.mem_singleton, forall_eq] at h ⊢
  case consolidated nullifiers c =>
    rw [if_neg]
    rintro ⟨j, hj⟩
    rw [h _ (List.mem_ofFn.mpr ⟨j, rfl⟩)] at hj
    cases hj
  all_goals rw [h, if_neg Bool.false_ne_true]

/-- The events after the last one that spends the current note. -/
theorem exists_last_spend (ctx : ReplayContext F) (r : Replay F) (es : List (Event F)) :
    ∃ before after, es = before ++ after ∧
      es.foldl (replayEvent C ctx) r = before.foldl (replayEvent C ctx) r ∧
      ∀ e ∈ after, ∀ x ∈ nullifiersOf e, (before.foldl (replayEvent C ctx) r).spends x = false := by
  induction es using List.reverseRecOn with
  | nil => exact ⟨[], [], rfl, rfl, fun _ he => absurd he List.not_mem_nil⟩
  | append_singleton es e ih =>
    obtain ⟨before, after, hes, hfold, hafter⟩ := ih
    rw [List.foldl_append]
    by_cases hspends : ∀ x ∈ nullifiersOf e, (es.foldl (replayEvent C ctx) r).spends x = false
    · refine ⟨before, after ++ [e], by rw [hes, List.append_assoc], ?_, fun e' he' => ?_⟩
      · show replayEvent C ctx (es.foldl (replayEvent C ctx) r) e = _
        rw [replayEvent_of_not_spends hspends, hfold]
      · rcases List.mem_append.mp he' with he' | he'
        · exact hafter e' he'
        · rw [List.mem_singleton.mp he', ← hfold]
          exact hspends
    · refine ⟨es ++ [e], [], (List.append_nil _).symm, ?_, fun _ he => absurd he List.not_mem_nil⟩
      rw [List.foldl_append]

/-- Every cash note that the events have emitted is spent. -/
def AllSpent (r : Replay F) : Prop := ∀ f, .free f ∈ r.recovered → f.spent = true

omit [Field F] [DecidableEq F] in
theorem AllSpent.of_recovered {r' : Replay F} (h : AllSpent r) (hr : r'.recovered = r.recovered) :
    AllSpent r' := by
  unfold AllSpent
  rw [hr]
  exact h

omit [Field F] [DecidableEq F] in
theorem AllSpent.spendState (h : AllSpent r) (version : DerivationVersion) :
    AllSpent (r.spendState version) := by
  intro f hf
  rcases List.mem_append.mp hf with hf | hf
  · exact h f hf
  · rw [StoredNote.free.inj (List.mem_singleton.mp hf)]

omit [Field F] [DecidableEq F] in
theorem AllSpent.updateReceipt (h : AllSpent r) (b : F) (f : Receipt F → Receipt F) :
    AllSpent (r.updateReceipt b f) := fun n hn => h n (Replay.mem_free_updateReceipt.mp hn)

theorem AllSpent.replayEvent (h : AllSpent r) (e : Event F) :
    AllSpent (replayEvent C ctx r e) := by
  unfold Wallet.replayEvent
  split
  case h_1 =>
    split
    · intro f hf
      rcases List.mem_append.mp hf with hf | hf
      · exact h.spendState _ f hf
      · cases List.mem_singleton.mp hf
    · exact h
  case h_2 | h_3 | h_4 =>
    split
    · exact ((h.updateReceipt _ _).spendState _).of_recovered rfl
    · exact h
  case h_5 =>
    split
    · exact ((h.updateReceipt _ _).spendState _).of_recovered rfl
    · exact h
  case h_6 =>
    split
    · have hshift : ∀ bet, AllSpent (r.shiftSale bet) := fun _ => h.of_recovered rfl
      exact (((hshift _).updateReceipt _ _).spendState _).of_recovered rfl
    · exact h
  case h_7 =>
    split
    · unfold replayWithdraw
      split
      · exact (h.spendState _).of_recovered rfl
      · exact (h.spendState _).of_recovered rfl
    · exact h
  case h_8 =>
    split
    · unfold replayConsolidate
      have hrecord : AllSpent r.recordBalance := h.of_recovered rfl
      split
      · exact hrecord.spendState _
      · exact (hrecord.spendState _).of_recovered rfl
    · exact h
  case h_9 => exact h

theorem AllSpent.foldl (h : AllSpent r) (es : List (Event F)) :
    AllSpent (es.foldl (Wallet.replayEvent C ctx) r) := by
  induction es generalizing r with
  | nil => exact h
  | cons e es ih => exact ih (h.replayEvent e)

/-- A recovered note was emitted by the replay of a lineage. -/
theorem mem_foldl_replayLineage {client : RecoveryClient F} {address : Address} {mode : ReplayMode}
    {x : StoredNote F} (ls : List (Lineage F)) (p : Pass F)
    (hx : x ∈ (ls.foldl (replayLineage C client address mode) p).recovered) :
    x ∈ p.recovered ∨ ∃ l ∈ ls, ∃ sold balances,
      x ∈ (((client.timeline address).foldl
        (Wallet.replayEvent C ⟨client, address, mode, l.index, l.version⟩)
        (startReplay C l sold balances)).finish l.version).recovered := by
  induction ls generalizing p with
  | nil => exact .inl hx
  | cons l ls ih =>
    rcases ih _ hx with hx | ⟨l', hl', h⟩
    · rcases List.mem_append.mp hx with hx | hx
      · exact .inl hx
      · exact .inr ⟨l, List.mem_cons_self, _, _, hx⟩
    · exact .inr ⟨l', List.mem_cons_of_mem _ hl', h⟩

/-- An unspent cash note is listed only when the logs show it unspent. -/
theorem RecoveryReads.showsUnspent {reads : RecoveryReads F} {wallet : Address} {n : Note F}
    (hn : n ∈ reads.recovered C wallet) (hkind : n.kind ≠ .betReceipt) (hspent : n.spent = false) :
    reads.ShowsUnspent C wallet n.commitment := by
  obtain ⟨x, hx, rfl⟩ := List.mem_map.mp hn
  cases x with
  | receipt => exact absurd rfl hkind
  | free f =>
    rcases mem_foldl_replayLineage _ _ hx with hx | ⟨l, hl, sold, balances, hx⟩
    · cases hx
    · obtain ⟨before, after, htimeline, hfold, hafter⟩ := exists_last_spend (C := C)
        ⟨reads.client, wallet, .final, l.index, l.version⟩
        (startReplay C l sold balances) (reads.client.timeline wallet)
      have hall : AllSpent ((reads.client.timeline wallet).foldl
          (Wallet.replayEvent C ⟨reads.client, wallet, .final, l.index, l.version⟩)
          (startReplay C l sold balances)) := AllSpent.foldl (fun _ hf => by cases hf) _
      -- What the events emit is spent, so the note is the one that is emitted at the end.
      unfold Replay.finish at hx
      split at hx
      · rename_i hcurrent
        rcases List.mem_append.mp hx with hx | hx
        · have hflag : f.spent = false := hspent
          rw [hall f hx] at hflag
          cases hflag
        · have hf := StoredNote.free.inj (List.mem_singleton.mp hx)
          rw [hfold] at hcurrent hf
          refine ⟨l, hl, sold, balances, before, after, _, htimeline, rfl, ?_, hcurrent.1, ?_⟩
          · rw [hf]
            rfl
          · intro e he hmem
            have hno := hafter e he _ hmem
            simp [Replay.spends, hcurrent.1] at hno
      · have hflag : f.spent = false := hspent
        rw [hall f hx] at hflag
        cases hflag

end Flags

end Polyshield.Wallet
