import Polyshield.Lib.NotePool
import Polyshield.Vault.Steps

/-!
# The bets of the Vault

A bet is a nullifier `authorizeBet` has logged. Every other entry of the two bet
mappings is unset, so totals over the bets are totals over the whole mappings,
and a call that writes one entry changes them by the difference of that entry.
-/

namespace Polyshield

variable {F Proof Sig : Type} [Field F] [DecidableEq F] {E : Env F Proof Sig}

def Event.createdBet? : Event F → Option F
  | .betAuthorized nullifier _ _ _ _ _ _ _ _ _ => some nullifier
  | _ => none

def VaultState.betList (s : VaultState F) : List F := s.logs.filterMap Event.createdBet?

def VaultState.bets (s : VaultState F) : Finset F := s.betList.toFinset

/-- The stake of a bet that can still be credited. -/
def BetRecord.openStake (record : BetRecord F) : ℕ :=
  if record.status = .active ∨ record.status = .filled ∨ record.status = .failed
  then record.betAmount.toNat else 0

/-- The recorded stake of a bet that ended settled or fully closed. -/
def BetRecord.settledStake (record : BetRecord F) : ℕ :=
  if record.status = .credited ∨ record.status = .closedCredited
  then record.betAmount.toNat else 0

namespace VaultState

def provisionalFees (s : VaultState F) : ℕ := ∑ n ∈ s.bets, (s.betProtocolFee n).toNat

def openStakes (s : VaultState F) : ℕ := ∑ n ∈ s.bets, (s.betRecords n).openStake

def settledStakes (s : VaultState F) : ℕ := ∑ n ∈ s.bets, (s.betRecords n).settledStake

end VaultState

/-- Only bets have entries, each bet is created once, and its nullifier is spent. -/
structure BetInv (s : VaultState F) : Prop where
  nodup : s.betList.Nodup
  unset : ∀ n, n ∉ s.bets → s.betRecords n = .unset ∧ s.betProtocolFee n = 0
  spent : ∀ n ∈ s.bets, s.spent n = true

theorem BetInv.mem_of_found {s : VaultState F} (h : BetInv s) {n : F}
    (hn : (s.betRecords n).marketId ≠ 0) : n ∈ s.bets := by
  by_contra hmem
  rw [(h.unset n hmem).1] at hn
  exact hn rfl

theorem betInv_deploy {args : InitArgs} {s : VaultState F} (h : deploy E args = .ok s) :
    BetInv s := by
  obtain rfl := deploy_ok E h
  exact ⟨List.nodup_nil, fun n _ => ⟨rfl, rfl⟩, fun n hn => by
    simp [VaultState.bets, VaultState.betList, initializeV2, initialState] at hn⟩

/-! ## How a call changes the books -/

/-- `s'` has the bets of `s`, with one record and one fee entry rewritten. -/
structure RewritesBet (s s' : VaultState F) (n : F) (record' : BetRecord F) (fee' : UInt64) :
    Prop where
  mem : n ∈ s.bets
  betList : s'.betList = s.betList
  betRecords : s'.betRecords = Function.update s.betRecords n record'
  betProtocolFee : s'.betProtocolFee = Function.update s.betProtocolFee n fee'
  spent : ∀ x, s.spent x = true → s'.spent x = true

/-- `s'` has one more bet. -/
structure CreatesBet (s s' : VaultState F) (n : F) (record' : BetRecord F) (fee' : UInt64) :
    Prop where
  unspent : s.spent n = false
  betList : s'.betList = s.betList ++ [n]
  betRecords : s'.betRecords = Function.update s.betRecords n record'
  betProtocolFee : s'.betProtocolFee = Function.update s.betProtocolFee n fee'
  spent_self : s'.spent n = true
  spent : ∀ x, s.spent x = true → s'.spent x = true

/-- `s'` has the same bets with the same entries. -/
structure KeepsBets (s s' : VaultState F) : Prop where
  betList : s'.betList = s.betList
  betRecords : s'.betRecords = s.betRecords
  betProtocolFee : s'.betProtocolFee = s.betProtocolFee
  spent : ∀ x, s.spent x = true → s'.spent x = true

variable {s s' : VaultState F} {n : F} {record' : BetRecord F} {fee' : UInt64}

namespace RewritesBet

variable (h : RewritesBet s s' n record' fee')

include h

omit [Field F] in
theorem bets : s'.bets = s.bets := by
  rw [VaultState.bets, h.betList, VaultState.bets]

theorem betInv (hs : BetInv s) : BetInv s' where
  nodup := by rw [h.betList]; exact hs.nodup
  unset := fun x hx => by
    rw [h.bets] at hx
    have hne : x ≠ n := fun e => hx (e ▸ h.mem)
    rw [h.betRecords, h.betProtocolFee, Function.update_of_ne hne, Function.update_of_ne hne]
    exact hs.unset x hx
  spent := fun x hx => by
    rw [h.bets] at hx
    exact h.spent x (hs.spent x hx)

omit [Field F] in
theorem provisionalFees :
    s'.provisionalFees + (s.betProtocolFee n).toNat = s.provisionalFees + fee'.toNat := by
  unfold VaultState.provisionalFees
  rw [h.bets, h.betProtocolFee]
  exact sum_update h.mem _ _ UInt64.toNat

omit [Field F] in
theorem openStakes :
    s'.openStakes + (s.betRecords n).openStake = s.openStakes + record'.openStake := by
  unfold VaultState.openStakes
  rw [h.bets, h.betRecords]
  exact sum_update h.mem _ _ BetRecord.openStake

omit [Field F] in
theorem settledStakes :
    s'.settledStakes + (s.betRecords n).settledStake
      = s.settledStakes + record'.settledStake := by
  unfold VaultState.settledStakes
  rw [h.bets, h.betRecords]
  exact sum_update h.mem _ _ BetRecord.settledStake

end RewritesBet

namespace CreatesBet

variable (h : CreatesBet s s' n record' fee')

include h

omit [Field F] in
theorem bets : s'.bets = insert n s.bets := by
  ext x
  simp [VaultState.bets, h.betList]

theorem not_mem (hs : BetInv s) : n ∉ s.bets := fun hm => by
  have := hs.spent n hm
  rw [h.unspent] at this
  cases this

theorem betInv (hs : BetInv s) : BetInv s' where
  nodup := by
    rw [h.betList, List.nodup_append]
    refine ⟨hs.nodup, List.nodup_singleton _, fun x hx y hy e => ?_⟩
    obtain rfl := List.mem_singleton.mp hy
    exact h.not_mem hs (List.mem_toFinset.mpr (e ▸ hx))
  unset := fun x hx => by
    rw [h.bets, Finset.mem_insert, not_or] at hx
    rw [h.betRecords, h.betProtocolFee, Function.update_of_ne hx.1, Function.update_of_ne hx.1]
    exact hs.unset x hx.2
  spent := fun x hx => by
    rw [h.bets, Finset.mem_insert] at hx
    rcases hx with rfl | hx
    · exact h.spent_self
    · exact h.spent x (hs.spent x hx)

theorem provisionalFees (hs : BetInv s) :
    s'.provisionalFees = s.provisionalFees + fee'.toNat := by
  unfold VaultState.provisionalFees
  rw [h.bets, h.betProtocolFee]
  exact sum_insert_update (h.not_mem hs) _ _ UInt64.toNat

theorem openStakes (hs : BetInv s) : s'.openStakes = s.openStakes + record'.openStake := by
  unfold VaultState.openStakes
  rw [h.bets, h.betRecords]
  exact sum_insert_update (h.not_mem hs) _ _ BetRecord.openStake

theorem settledStakes (hs : BetInv s) :
    s'.settledStakes = s.settledStakes + record'.settledStake := by
  unfold VaultState.settledStakes
  rw [h.bets, h.betRecords]
  exact sum_insert_update (h.not_mem hs) _ _ BetRecord.settledStake

end CreatesBet

namespace KeepsBets

variable (h : KeepsBets s s')

include h

theorem betInv (hs : BetInv s) : BetInv s' where
  nodup := by rw [h.betList]; exact hs.nodup
  unset := by
    rw [VaultState.bets, h.betList, h.betRecords, h.betProtocolFee]
    exact hs.unset
  spent := fun x hx => by
    rw [VaultState.bets, h.betList] at hx
    exact h.spent x (hs.spent x hx)

omit [Field F] in
theorem totals : s'.provisionalFees = s.provisionalFees ∧ s'.openStakes = s.openStakes ∧
    s'.settledStakes = s.settledStakes := by
  unfold VaultState.provisionalFees VaultState.openStakes VaultState.settledStakes VaultState.bets
  rw [h.betList, h.betRecords, h.betProtocolFee]
  exact ⟨rfl, rfl, rfl⟩

end KeepsBets

/-! ## Which change each function makes -/

omit [Field F] in
theorem spent_update_mono {spent : F → Bool} {k : F} (x : F) (hx : spent x = true) :
    Function.update spent k true x = true := by
  rw [Function.update_apply, hx, ite_self]

theorem SpendsSlots.mono {nullifier : Fin 4 → F} {js : List (Fin 4)} {spent spent' : F → Bool}
    (h : SpendsSlots nullifier js spent spent') (x : F) (hx : spent x = true) :
    spent' x = true := by
  induction h with
  | nil => exact hx
  | skip _ _ ih => exact ih hx
  | spend _ _ _ ih => exact ih (spent_update_mono x hx)

theorem Credits.rewritesBet {i : BetCancelPublicInputs F} {acc' : ℕ} {events : List (Event F)}
    (h : Credits E s s' i record' fee' acc' events) (hs : BetInv s)
    (he : events.filterMap Event.createdBet? = []) :
    RewritesBet s s' i.nullifierOfBet record' fee' := by
  obtain ⟨t', -, rfl⟩ := h.effect
  refine ⟨hs.mem_of_found h.found, ?_, rfl, rfl, fun x hx => spent_update_mono x hx⟩
  simp only [VaultState.betList, List.filterMap_append, he, List.append_nil]

theorem createsBet_authorizeBet {m : Msg} {proof : Proof} {inputs : BetAuthPublicInputs F}
    (h : authorizeBet E m s proof inputs = .ok s') :
    CreatesBet s s' inputs.nullifier inputs.record
      (protocolFeeOf s.feeConfig inputs.betAmount) := by
  obtain ⟨hs, -, fee, -, -, t', -, rfl⟩ := authorizeBet_ok h
  refine ⟨hs, ?_, rfl, rfl, Function.update_self .., fun x hx => spent_update_mono x hx⟩
  simp [VaultState.betList, Event.createdBet?]

theorem rewritesBet_adminCancelBet {m : Msg} (h : adminCancelBet m s n = .ok s') (hs : BetInv s) :
    RewritesBet s s' n { s.betRecords n with status := .failed } (s.betProtocolFee n) := by
  obtain ⟨-, hf, -, rfl⟩ := adminCancelBet_ok h
  refine ⟨hs.mem_of_found hf, ?_, rfl, (Function.update_eq_self ..).symm, fun x hx => hx⟩
  simp [VaultState.betList, Event.createdBet?]

theorem keepsBets_deposit {m : Msg} {proof : Proof} {c : F} {amount : ℕ}
    (h : deposit E m s proof c amount = .ok s') : KeepsBets s s' := by
  obtain ⟨-, -, r, t', usdc', -, rfl⟩ := deposit_ok h
  exact ⟨by simp [VaultState.betList, Event.createdBet?], rfl, rfl, fun x hx => hx⟩

theorem keepsBets_withdraw {proof : Proof} {inputs : WithdrawalPublicInputs F} {a : Address}
    (h : withdraw E s proof inputs a = .ok s') : KeepsBets s s' := by
  obtain ⟨-, -, -, -, -, t', usdc', -, rfl⟩ := withdraw_ok h
  exact ⟨by simp [VaultState.betList, Event.createdBet?], rfl, rfl,
    fun x hx => spent_update_mono x hx⟩

theorem keepsBets_consolidate {proof : Proof} {inputs : ConsolidatePublicInputs F}
    (h : consolidate E s proof inputs = .ok s') : KeepsBets s s' := by
  obtain ⟨-, -, -, -, spent', r, t', hsp, -, rfl⟩ := consolidate_ok h
  exact ⟨by simp [VaultState.betList, Event.createdBet?], rfl, rfl, hsp.mono⟩

omit [Field F] [DecidableEq F] in
theorem keepsBets_withdrawFees {m : Msg} {amount : ℕ}
    (h : withdrawFees E m s amount = .ok s') : KeepsBets s s' := by
  obtain ⟨-, usdc', rfl⟩ := withdrawFees_ok h
  exact ⟨by simp [VaultState.betList, Event.createdBet?], rfl, rfl, fun x hx => hx⟩

theorem keepsBets_administrative {m : Msg} {c : Call F Proof Sig} (hc : c.isAdministrative = true)
    (h : exec E m s c = .ok s') : KeepsBets s s' := by
  obtain ⟨hb, events, hlogs, he⟩ := administrative_ok hc h
  refine ⟨?_, hb.betRecords, hb.betProtocolFee, fun x hx => by rw [hb.spent]; exact hx⟩
  have hnil : events.filterMap Event.createdBet? = [] := by
    rw [List.filterMap_eq_nil_iff]
    intro e hmem
    cases e
    case betAuthorized => exact absurd rfl (he _ hmem _ _ _ _ _ _ _ _ _ _)
    all_goals rfl
  simp only [VaultState.betList, hlogs, List.filterMap_append, hnil, List.append_nil]

omit [Field F] [DecidableEq F] in
theorem keepsBets_world (s : VaultState F) (usdc : Usdc) (ctf : Ctf) :
    KeepsBets s { s with usdc := usdc, ctf := ctf } :=
  ⟨rfl, rfl, rfl, fun _ hx => hx⟩

theorem BetInv.exec {m : Msg} {c : Call F Proof Sig} (hs : BetInv s)
    (h : Polyshield.exec E m s c = .ok s') : BetInv s' := by
  by_cases hc : c.isAdministrative = true
  · exact (keepsBets_administrative hc h).betInv hs
  · cases c <;> simp only [Call.isAdministrative, not_true_eq_false] at hc <;>
      simp only [Polyshield.exec] at h
    case deposit => exact (keepsBets_deposit h).betInv hs
    case authorizeBet => exact (createsBet_authorizeBet h).betInv hs
    case withdraw => exact (keepsBets_withdraw h).betInv hs
    case creditSettlement =>
      exact ((creditSettlement_ok h).1.rewritesBet hs rfl).betInv hs
    case betCancellationCredit =>
      exact ((betCancellationCredit_ok h).1.rewritesBet hs rfl).betInv hs
    case naCancellationCredit =>
      exact ((naCancellationCredit_ok h).1.rewritesBet hs rfl).betInv hs
    case closePosition =>
      obtain ⟨delta, credit, hcr, -⟩ := closePosition_ok h
      exact (hcr.rewritesBet hs rfl).betInv hs
    case partialFillCredit =>
      exact ((partialFillCredit_ok h).1.rewritesBet hs rfl).betInv hs
    case consolidate => exact (keepsBets_consolidate h).betInv hs
    case adminCancelBet => exact (rewritesBet_adminCancelBet h hs).betInv hs
    case withdrawFees => exact (keepsBets_withdrawFees h).betInv hs

end Polyshield
