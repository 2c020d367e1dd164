import Polyshield.Wallet.Recovery

/-!
# The parts of a replay

What each operation of the replay leaves of its five parts. The receipts of a
replay are found where they were pushed (`Indexed`), so an update changes the
receipt of one bet and no other entry.
-/

namespace Polyshield.Wallet

variable {F : Type} [Field F] [DecidableEq F] {C : Circomlib F}

namespace Replay

variable (r : Replay F) (version : DerivationVersion) (st : ChainNoteState F) (b : F)
  (f : Receipt F → Receipt F)

section Simp

omit [Field F] [DecidableEq F]

@[simp] theorem state_pushFree : (r.pushFree version st).state = r.state := rfl

@[simp] theorem soldByBet_pushFree : (r.pushFree version st).soldByBet = r.soldByBet := rfl

@[simp] theorem balanceByNullifier_pushFree :
    (r.pushFree version st).balanceByNullifier = r.balanceByNullifier := rfl

@[simp] theorem state_spendState :
    (r.spendState version).state = { r.state with spent := true } := rfl

@[simp] theorem soldByBet_spendState : (r.spendState version).soldByBet = r.soldByBet := rfl

@[simp] theorem balanceByNullifier_spendState :
    (r.spendState version).balanceByNullifier = r.balanceByNullifier := rfl

@[simp] theorem state_updateReceipt : (r.updateReceipt b f).state = r.state := by
  unfold updateReceipt
  split <;> rfl

@[simp] theorem soldByBet_updateReceipt : (r.updateReceipt b f).soldByBet = r.soldByBet := by
  unfold updateReceipt
  split <;> rfl

@[simp] theorem balanceByNullifier_updateReceipt :
    (r.updateReceipt b f).balanceByNullifier = r.balanceByNullifier := by
  unfold updateReceipt
  split <;> rfl

@[simp] theorem receiptByBetNullifier_updateReceipt :
    (r.updateReceipt b f).receiptByBetNullifier = r.receiptByBetNullifier := by
  unfold updateReceipt
  split <;> rfl

end Simp

section Advance

variable (kind : NoteKind) (balance : ℤ) (commitment : F)

omit [DecidableEq F]

@[simp] theorem recovered_advance :
    (r.advance C kind balance commitment).recovered = r.recovered := rfl

@[simp] theorem receiptByBetNullifier_advance :
    (r.advance C kind balance commitment).receiptByBetNullifier = r.receiptByBetNullifier := rfl

@[simp] theorem soldByBet_advance :
    (r.advance C kind balance commitment).soldByBet = r.soldByBet := rfl

@[simp] theorem balanceByNullifier_advance :
    (r.advance C kind balance commitment).balanceByNullifier = r.balanceByNullifier := rfl

end Advance

section Push

variable (rc : Receipt F)

omit [Field F]

@[simp] theorem state_pushReceipt : (r.pushReceipt rc).state = r.state := rfl

@[simp] theorem soldByBet_pushReceipt : (r.pushReceipt rc).soldByBet = r.soldByBet := rfl

@[simp] theorem balanceByNullifier_pushReceipt :
    (r.pushReceipt rc).balanceByNullifier = r.balanceByNullifier := rfl

@[simp] theorem state_shiftSale : (r.shiftSale b).state = r.state := rfl

@[simp] theorem recovered_shiftSale : (r.shiftSale b).recovered = r.recovered := rfl

@[simp] theorem receiptByBetNullifier_shiftSale :
    (r.shiftSale b).receiptByBetNullifier = r.receiptByBetNullifier := rfl

@[simp] theorem soldByBet_shiftSale :
    (r.shiftSale b).soldByBet = Function.update r.soldByBet b (r.soldByBet b).tail := rfl

@[simp] theorem balanceByNullifier_shiftSale :
    (r.shiftSale b).balanceByNullifier = r.balanceByNullifier := rfl

@[simp] theorem state_recordBalance : r.recordBalance.state = r.state := rfl

@[simp] theorem recovered_recordBalance : r.recordBalance.recovered = r.recovered := rfl

@[simp] theorem receiptByBetNullifier_recordBalance :
    r.recordBalance.receiptByBetNullifier = r.receiptByBetNullifier := rfl

@[simp] theorem soldByBet_recordBalance : r.recordBalance.soldByBet = r.soldByBet := rfl

end Push

/-! ## Receipts where they were pushed -/

section Indexed

omit [Field F] [DecidableEq F]

/-- The receipt of each bet is the one entry of the bet, at the place that the map has. -/
def Indexed (r : Replay F) : Prop :=
  ∀ b i, r.receiptByBetNullifier b = some i ↔
    ∃ rc, r.recovered[i]? = some (.receipt rc) ∧ rc.nullifierOfBet = b

variable {r version st b f} {rc : Receipt F}

theorem Indexed.of_eq {r' : Replay F} (h : r.Indexed) (hrec : r'.recovered = r.recovered)
    (hby : r'.receiptByBetNullifier = r.receiptByBetNullifier) : r'.Indexed := by
  unfold Indexed at h ⊢
  rw [hrec, hby]
  exact h

theorem Indexed.unique (h : r.Indexed) {rc' : Receipt F} (hrc : .receipt rc ∈ r.recovered)
    (hrc' : .receipt rc' ∈ r.recovered) (heq : rc.nullifierOfBet = rc'.nullifierOfBet) :
    rc = rc' := by
  obtain ⟨i, hi⟩ := List.mem_iff_getElem?.mp hrc
  obtain ⟨j, hj⟩ := List.mem_iff_getElem?.mp hrc'
  have h1 := (h _ i).mpr ⟨rc, hi, rfl⟩
  have h2 := (h _ j).mpr ⟨rc', hj, rfl⟩
  rw [heq, h2] at h1
  obtain rfl := Option.some.inj h1
  rw [hi] at hj
  exact StoredNote.receipt.inj (Option.some.inj hj)

theorem Indexed.receipt? (h : r.Indexed) (hrc : .receipt rc ∈ r.recovered) :
    r.receipt? rc.nullifierOfBet = some rc := by
  obtain ⟨i, hi⟩ := List.mem_iff_getElem?.mp hrc
  rw [Replay.receipt?, (h _ i).mpr ⟨rc, hi, rfl⟩]
  simp [hi]

theorem getElem?_concat_eq_some {α : Type} {l : List α} {x y : α} {i : ℕ} :
    (l ++ [x])[i]? = some y ↔ l[i]? = some y ∨ i = l.length ∧ x = y := by
  rw [List.getElem?_append]
  split
  next hi => exact ⟨.inl, fun h => h.resolve_right fun h => absurd h.1 hi.ne⟩
  next hi =>
    rw [List.getElem?_eq_none (not_lt.mp hi), List.getElem?_singleton]
    split
    next hz => simp [show i = l.length by omega]
    next hz => simp [show i ≠ l.length by omega]

theorem Indexed.pushFree (h : r.Indexed) : (r.pushFree version st).Indexed := fun b i => by
  refine (h b i).trans (exists_congr fun rc => and_congr_left fun _ => ?_)
  simp only [Replay.pushFree, getElem?_concat_eq_some, reduceCtorEq, and_false, or_false]

theorem Indexed.spendState (h : r.Indexed) : (r.spendState version).Indexed := by
  have hstate : ({ r with state := { r.state with spent := true } } : Replay F).Indexed :=
    h.of_eq rfl rfl
  exact hstate.pushFree

theorem Indexed.pushReceipt [DecidableEq F] (h : r.Indexed)
    (hfresh : ∀ rc', .receipt rc' ∈ r.recovered → rc'.nullifierOfBet ≠ rc.nullifierOfBet) :
    (r.pushReceipt rc).Indexed := fun b i => by
  simp only [Replay.pushReceipt, Function.update_apply, getElem?_concat_eq_some]
  split
  next hb =>
    subst hb
    constructor
    · intro hi
      exact ⟨rc, .inr ⟨(Option.some.inj hi).symm, rfl⟩, rfl⟩
    · rintro ⟨rc', hi | ⟨rfl, -⟩, hb⟩
      · exact absurd hb (hfresh rc' (List.mem_of_getElem? hi))
      · rfl
  next hb =>
    refine (h b i).trans (exists_congr fun rc' => ⟨fun ⟨hi, hbet⟩ => ⟨.inl hi, hbet⟩, ?_⟩)
    rintro ⟨hi | ⟨-, heq⟩, hbet⟩
    · exact ⟨hi, hbet⟩
    · obtain rfl := StoredNote.receipt.inj heq
      exact absurd hbet.symm hb

theorem Indexed.getElem?_updateReceipt (h : r.Indexed) {i : ℕ} :
    (r.updateReceipt b f).recovered[i]? = some (.receipt rc) ↔
      ∃ rc', r.recovered[i]? = some (.receipt rc') ∧
        (rc'.nullifierOfBet = b ∧ rc = f rc' ∨ rc'.nullifierOfBet ≠ b ∧ rc = rc') := by
  unfold Replay.updateReceipt
  cases hb : r.receiptByBetNullifier b with
  | none =>
    have hne : ∀ rc', r.recovered[i]? = some (.receipt rc') → rc'.nullifierOfBet ≠ b :=
      fun rc' hi heq => by simpa [hb] using (h b i).mpr ⟨rc', hi, heq⟩
    constructor
    · exact fun hi => ⟨rc, hi, .inr ⟨hne rc hi, rfl⟩⟩
    · rintro ⟨rc', hi, ⟨hbet, -⟩ | ⟨-, rfl⟩⟩
      · exact absurd hbet (hne rc' hi)
      · exact hi
  | some j =>
    obtain ⟨rc₀, hj, hbet₀⟩ := (h b j).mp hb
    simp only [List.getElem?_modify]
    by_cases hij : j = i
    · subst hij
      simp only [↓reduceIte, hj, Option.map_eq_map, Option.map_some, Option.some.injEq,
        StoredNote.receipt.injEq, exists_eq_left', hbet₀, true_and, ne_eq, not_true_eq_false,
        false_and, or_false]
      exact eq_comm
    · have hne : ∀ rc', r.recovered[i]? = some (.receipt rc') → rc'.nullifierOfBet ≠ b :=
        fun rc' hi heq => hij (Option.some.inj (hb.symm.trans ((h b i).mpr ⟨rc', hi, heq⟩)))
      simp only [hij, ↓reduceIte, Option.map_eq_map, Option.map_id_fun', id_eq]
      constructor
      · exact fun hi => ⟨rc, hi, .inr ⟨hne rc hi, rfl⟩⟩
      · rintro ⟨rc', hi, ⟨hbet, -⟩ | ⟨-, rfl⟩⟩
        · exact absurd hbet (hne rc' hi)
        · exact hi

theorem Indexed.updateReceipt (h : r.Indexed)
    (hf : ∀ rc, (f rc).nullifierOfBet = rc.nullifierOfBet) : (r.updateReceipt b f).Indexed :=
  fun b' i => by
    rw [receiptByBetNullifier_updateReceipt, h b' i]
    constructor
    · rintro ⟨rc, hi, hbet⟩
      by_cases hb : rc.nullifierOfBet = b
      · exact ⟨f rc, h.getElem?_updateReceipt.mpr ⟨rc, hi, .inl ⟨hb, rfl⟩⟩, (hf rc).trans hbet⟩
      · exact ⟨rc, h.getElem?_updateReceipt.mpr ⟨rc, hi, .inr ⟨hb, rfl⟩⟩, hbet⟩
    · rintro ⟨rc, hi, hbet⟩
      obtain ⟨rc', hi', ⟨-, rfl⟩ | ⟨-, rfl⟩⟩ := h.getElem?_updateReceipt.mp hi
      · exact ⟨rc', hi', (hf rc').symm.trans hbet⟩
      · exact ⟨rc, hi', hbet⟩

theorem Indexed.mem_updateReceipt (h : r.Indexed) :
    .receipt rc ∈ (r.updateReceipt b f).recovered ↔ ∃ rc', .receipt rc' ∈ r.recovered ∧
      (rc'.nullifierOfBet = b ∧ rc = f rc' ∨ rc'.nullifierOfBet ≠ b ∧ rc = rc') := by
  simp only [List.mem_iff_getElem?, h.getElem?_updateReceipt]
  constructor
  · rintro ⟨i, rc', hi, hrc⟩
    exact ⟨rc', ⟨i, hi⟩, hrc⟩
  · rintro ⟨rc', ⟨i, hi⟩, hrc⟩
    exact ⟨i, rc', hi, hrc⟩

theorem mem_free_updateReceipt {n : FreeNote F} :
    .free n ∈ (r.updateReceipt b f).recovered ↔ .free n ∈ r.recovered := by
  unfold Replay.updateReceipt
  split
  · simp only [List.mem_iff_getElem?, List.getElem?_modify]
    refine exists_congr fun i => ?_
    split
    · cases r.recovered[i]? with
      | none => simp
      | some note => cases note <;> simp
    · simp
  · rfl

end Indexed

end Replay

end Polyshield.Wallet
