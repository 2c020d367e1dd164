import Polyshield.Vault.Conservation
import Polyshield.Wallet.Deposits

/-!
# The deposits of one wallet, from several tabs and devices

The deposit page: a tab reads the local counter of its device, then the recovery
index and the spent nullifiers, and so picks an index; it submits the deposit,
the Vault accepts it, and the confirmation effect raises the counter. Any number
of tabs do so at once. The recovery index may lag or be unavailable, a read of a
nullifier may miss that it is spent, and the page may report a failure of a
deposit that is accepted all the same.
-/

namespace Polyshield.Wallet

inductive DepositPage where
  /-- It can be submitted, also after a failure. -/
  | ready
  | submitted
  /-- The confirmation effect has run. -/
  | saved
  /-- The tab is closed, or begins another deposit. -/
  | abandoned
  deriving DecidableEq, Repr

/-- How far a deposit has come: its transactions that are under way, and those that the Vault has
accepted. -/
inductive AttemptStage where
  /-- The counter is read, and `fetch` is awaited. -/
  | reading
  | picked (page : DepositPage) (pending accepted : ℕ)
  deriving DecidableEq, Repr

structure Attempt where
  device : ℕ
  localIndex : ℕ
  deposits : Option ℕ
  spent : List ℕ
  stage : AttemptStage
  deriving DecidableEq, Repr

namespace Attempt

def index (a : Attempt) : ℕ := nextDepositIndex a.localIndex a.deposits (· ∈ a.spent)

def accepted (a : Attempt) : ℕ :=
  match a.stage with
  | .reading => 0
  | .picked _ _ accepted => accepted

/-- The transactions that are accepted or may be. -/
def live (a : Attempt) : ℕ :=
  match a.stage with
  | .reading => 0
  | .picked _ pending accepted => pending + accepted

/-- The deposits that it comes to if it goes on; a page that is open submits at least one. -/
def uses (a : Attempt) : ℕ :=
  match a.stage with
  | .reading => 0
  | .picked .ready pending accepted | .picked .submitted pending accepted =>
    max 1 (pending + accepted)
  | .picked _ pending accepted => pending + accepted

end Attempt

structure FlowState where
  /-- The local counter of each device. -/
  counter : ℕ → ℕ
  /-- The number of legacy deposits. -/
  legacy : ℕ
  attempts : List Attempt
  /-- The indices whose nonce-0 nullifier is spent. -/
  spentIndices : List ℕ

namespace FlowState

/-- The indices of the deposits that the Vault has accepted, in the order in which they were
begun. -/
def accepted (s : FlowState) : List ℕ :=
  s.attempts.flatMap fun a => List.replicate a.accepted a.index

def depositCount (s : FlowState) : ℕ := s.legacy + s.accepted.length

def setStage (s : FlowState) (k : ℕ) (a : Attempt) (stage : AttemptStage) : FlowState :=
  { s with attempts := s.attempts.set k { a with stage := stage } }

/-- The counter is raised past the index of a confirmed deposit. -/
def recordDepositIndexUsed (s : FlowState) (a : Attempt) : FlowState :=
  { s with
    counter := Function.update s.counter a.device (max (s.counter a.device) (a.index + 1)) }

end FlowState

inductive FlowAction where
  | start (device : ℕ)
  /-- The reads of an attempt return; `none` is a recovery index that is unavailable. -/
  | derive (k : ℕ) (deposits : Option ℕ) (spent : List ℕ)
  | submit (k : ℕ)
  /-- The page reports a failure: the wallet refuses, or the receipt query does not succeed. -/
  | fail (k : ℕ)
  /-- A transaction reverts, or is never mined. -/
  | drop (k : ℕ)
  | accept (k : ℕ)
  | confirm (k : ℕ)
  | abandon (k : ℕ)
  | clear (device : ℕ)
  | spend (index : ℕ)

def flowStep (s : FlowState) : FlowAction → Option FlowState
  | .start device =>
    some { s with attempts := s.attempts ++ [⟨device, s.counter device, none, [], .reading⟩] }
  | .derive k deposits spent =>
    match s.attempts[k]? with
    | some a =>
      if a.stage = .reading ∧ (∀ count ∈ deposits, count ≤ s.depositCount) ∧
          spent ⊆ s.spentIndices then
        some (s.setStage k { a with deposits := deposits, spent := spent } (.picked .ready 0 0))
      else none
    | none => none
  | .submit k => do
    let a ← s.attempts[k]?
    match a.stage with
    | .picked .ready pending accepted =>
      some (s.setStage k a (.picked .submitted (pending + 1) accepted))
    | _ => none
  | .fail k => do
    let a ← s.attempts[k]?
    match a.stage with
    | .picked .submitted pending accepted =>
      some (s.setStage k a (.picked .ready pending accepted))
    | _ => none
  | .drop k => do
    let a ← s.attempts[k]?
    match a.stage with
    | .picked page (pending + 1) accepted => some (s.setStage k a (.picked page pending accepted))
    | _ => none
  | .accept k => do
    let a ← s.attempts[k]?
    match a.stage with
    | .picked page (pending + 1) accepted =>
      some (s.setStage k a (.picked page pending (accepted + 1)))
    | _ => none
  | .confirm k => do
    let a ← s.attempts[k]?
    match a.stage with
    | .picked .ready pending (accepted + 1) | .picked .submitted pending (accepted + 1) =>
      some ((s.setStage k a (.picked .saved pending (accepted + 1))).recordDepositIndexUsed a)
    | _ => none
  | .abandon k => do
    let a ← s.attempts[k]?
    match a.stage with
    | .picked _ pending accepted => some (s.setStage k a (.picked .abandoned pending accepted))
    | _ => none
  | .clear device => some { s with counter := Function.update s.counter device 0 }
  | .spend index =>
    if index ∈ s.accepted then some { s with spentIndices := index :: s.spentIndices } else none

def runFlow (s : FlowState) (acts : List FlowAction) : Option FlowState := acts.foldlM flowStep s

/-- A wallet with its legacy deposits only, on fresh devices. -/
def FlowState.initial (legacy : ℕ) : FlowState := ⟨fun _ => 0, legacy, [], []⟩

/-! ## When a picked index is new -/

/-- The reads of an attempt steer it past the index `i`: it is below the counter or the reported
number of deposits, or the walk over the spent nullifiers stops before it, or passes it. -/
def SteersPast (localIndex : ℕ) (deposits : Option ℕ) (spent : List ℕ) (i : ℕ) : Prop :=
  i < getSafeNextDepositIndex localIndex deposits ∨
  (∃ j < i, getSafeNextDepositIndex localIndex deposits ≤ j ∧
    j < getSafeNextDepositIndex localIndex deposits + 20 ∧ j ∉ spent) ∨
  (i < getSafeNextDepositIndex localIndex deposits + 20 ∧ i ∈ spent) ∨
  getSafeNextDepositIndex localIndex deposits + 20 < i

/-- The walk stops at the first index that is not read as spent, or at its limit. -/
theorem skipSpent_spec (spent : ℕ → Bool) (guard index : ℕ) :
    skipSpent spent guard index ≤ index + guard ∧
    (∀ j, index ≤ j → j < skipSpent spent guard index → spent j) ∧
    (skipSpent spent guard index < index + guard → ¬spent (skipSpent spent guard index)) := by
  induction guard generalizing index with
  | zero =>
    exact ⟨le_rfl, fun j h1 h2 => absurd h1 (not_le.mpr h2), fun h => absurd h (lt_irrefl _)⟩
  | succ guard ih =>
    rw [skipSpent]
    split
    next hspent =>
      obtain ⟨hle, hskipped, hstop⟩ := ih (index + 1)
      refine ⟨by omega, fun j hlow hhigh => ?_, fun hlt => hstop (by omega)⟩
      rcases Nat.eq_or_lt_of_le hlow with rfl | hlow
      · exact hspent
      · exact hskipped j hlow hhigh
    next hspent => exact ⟨by omega, fun j h1 h2 => absurd h1 (not_le.mpr h2), fun _ => hspent⟩

theorem nextDepositIndex_ne_iff (localIndex : ℕ) (deposits : Option ℕ) (spent : List ℕ) (i : ℕ) :
    nextDepositIndex localIndex deposits (· ∈ spent) ≠ i ↔
      SteersPast localIndex deposits spent i := by
  unfold nextDepositIndex SteersPast
  generalize getSafeNextDepositIndex localIndex deposits = base
  obtain ⟨hle, hskipped, hstop⟩ := skipSpent_spec (fun j => decide (j ∈ spent)) 20 base
  have hbase := le_skipSpent (fun j => decide (j ∈ spent)) 20 base
  simp only [decide_eq_true_eq] at hskipped hstop
  generalize skipSpent (fun j => decide (j ∈ spent)) 20 base = stop at *
  constructor
  · intro hne
    rcases lt_trichotomy stop i with hlt | heq | hgt
    · rcases Nat.lt_or_ge stop (base + 20) with hshort | hlong
      · exact .inr (.inl ⟨stop, hlt, hbase, hshort, hstop hshort⟩)
      · exact .inr (.inr (.inr (by omega)))
    · exact absurd heq hne
    · rcases Nat.lt_or_ge i base with hlow | hhigh
      · exact .inl hlow
      · exact .inr (.inr (.inl ⟨by omega, hskipped i hhigh hgt⟩))
  · rintro (hlow | ⟨j, hj, hlow, hhigh, hspent⟩ | ⟨hhigh, hspent⟩ | hfar) rfl
    · omega
    · exact hspent (hskipped j hlow hj)
    · exact hstop hhigh hspent
    · omega

/-! ## The indices in use -/

namespace FlowState

/-- The indices of the deposits that the attempts come to if they go on. -/
def inUse (s : FlowState) : List ℕ := s.attempts.flatMap fun a => List.replicate a.uses a.index

end FlowState

/-- At a derivation, the reads steer past every index in use; and a deposit is submitted when no
earlier transaction of it is accepted or may be. -/
def FlowAction.Covered (s : FlowState) : FlowAction → Prop
  | .derive k deposits spent =>
    ∀ a, s.attempts[k]? = some a → ∀ i ∈ s.inUse, SteersPast a.localIndex deposits spent i
  | .submit k => ∀ a, s.attempts[k]? = some a → a.live = 0
  | _ => True

/-- An action that lets the deposits already begun go on. -/
def FlowAction.Proceeds (s : FlowState) (x : FlowAction) : Prop :=
  x.Covered s ∧ ∀ k deposits spent, x ≠ .derive k deposits spent

/-- Every action of a run is of a kind, in the state that it is performed in. -/
def Along (P : FlowState → FlowAction → Prop) : FlowState → List FlowAction → Prop
  | _, [] => True
  | s, x :: xs => P s x ∧ ∀ s', flowStep s x = some s' → Along P s' xs

instance (localIndex : ℕ) (deposits : Option ℕ) (spent : List ℕ) (i : ℕ) :
    Decidable (SteersPast localIndex deposits spent i) := by
  unfold SteersPast
  infer_instance

instance (s : FlowState) : (x : FlowAction) → Decidable (x.Covered s)
  | .derive k deposits spent => inferInstanceAs (Decidable (∀ a ∈ s.attempts[k]?, ∀ i ∈ s.inUse,
      SteersPast a.localIndex deposits spent i))
  | .submit k => inferInstanceAs (Decidable (∀ a ∈ s.attempts[k]?, a.live = 0))
  | .start _ | .fail _ | .drop _ | .accept _ | .confirm _ | .abandon _ | .clear _ | .spend _ =>
    .isTrue trivial

instance decidableAlong (P : FlowState → FlowAction → Prop) [∀ s x, Decidable (P s x)] :
    (s : FlowState) → (acts : List FlowAction) → Decidable (Along P s acts)
  | _, [] => .isTrue trivial
  | s, x :: xs =>
    have := fun s' => decidableAlong P s' xs
    inferInstanceAs (Decidable (P s x ∧ ∀ s' ∈ flowStep s x, Along P s' xs))

/-- The deposits already begun go on, without another derivation. -/
def GoesOn : FlowState → FlowState → Prop :=
  Relation.ReflTransGen fun s s' => ∃ x : FlowAction, x.Proceeds s ∧ flowStep s x = some s'

section Lists

variable {α : Type} {l : List α} {k : ℕ} {a b : α} {f : α → List ℕ}

theorem exists_split_of_getElem? (h : l[k]? = some a) :
    ∃ before after, l = before ++ a :: after ∧ ∀ b, l.set k b = before ++ b :: after := by
  obtain ⟨hk, rfl⟩ := List.getElem?_eq_some_iff.mp h
  refine ⟨l.take k, l.drop (k + 1), ?_, fun b => ?_⟩
  · rw [List.getElem_cons_drop, List.take_append_drop]
  · rw [List.set_eq_take_append_cons_drop, if_pos hk]

theorem flatMap_set_sublist (h : l[k]? = some a) (hab : (f b).Sublist (f a)) :
    ((l.set k b).flatMap f).Sublist (l.flatMap f) := by
  obtain ⟨before, after, hsplit, hset⟩ := exists_split_of_getElem? h
  rw [hset, hsplit]
  simp only [List.flatMap_append, List.flatMap_cons]
  exact ((hab.append (List.Sublist.refl _))).append_left _

theorem flatMap_set_congr (h : l[k]? = some a) (hab : f b = f a) :
    (l.set k b).flatMap f = l.flatMap f := by
  obtain ⟨before, after, hsplit, hset⟩ := exists_split_of_getElem? h
  rw [hset, hsplit]
  simp only [List.flatMap_append, List.flatMap_cons, hab]

theorem flatMap_set_perm (h : l[k]? = some a) (ha : f a = []) :
    ((l.set k b).flatMap f).Perm (f b ++ l.flatMap f) := by
  obtain ⟨before, after, hsplit, hset⟩ := exists_split_of_getElem? h
  rw [hset, hsplit]
  simp only [List.flatMap_append, List.flatMap_cons, ha, List.nil_append]
  rw [← List.append_assoc, ← List.append_assoc]
  exact List.Perm.append_right _ List.perm_append_comm

theorem sublist_flatMap_set (h : l[k]? = some a) : (f b).Sublist ((l.set k b).flatMap f) := by
  obtain ⟨before, after, -, hset⟩ := exists_split_of_getElem? h
  rw [hset]
  simp only [List.flatMap_append, List.flatMap_cons]
  exact (List.sublist_append_left _ _).trans (List.sublist_append_right _ _)

end Lists

section Stages

variable {s : FlowState} {k : ℕ} {a : Attempt} {stage : AttemptStage}

theorem FlowState.inUse_setStage_sublist (h : s.attempts[k]? = some a)
    (hle : { a with stage := stage }.uses ≤ a.uses) :
    (s.setStage k a stage).inUse.Sublist s.inUse :=
  flatMap_set_sublist h ((List.replicate_sublist_replicate a.index).mpr hle)

theorem FlowState.inUse_setStage (h : s.attempts[k]? = some a)
    (heq : { a with stage := stage }.uses = a.uses) : (s.setStage k a stage).inUse = s.inUse :=
  flatMap_set_congr h (congrArg (fun n => List.replicate n a.index) heq)

end Stages

/-- An action that lets the deposits go on puts no index in use. -/
theorem inUse_sublist_of_proceeds {s s' : FlowState} {x : FlowAction} (hx : x.Proceeds s)
    (h : flowStep s x = some s') : s'.inUse.Sublist s.inUse := by
  obtain ⟨hcov, hnew⟩ := hx
  cases x with
  | start device =>
    cases h
    simp [FlowState.inUse, Attempt.uses, List.flatMap_append]
  | derive k deposits spent => exact absurd rfl (hnew k deposits spent)
  | submit k =>
    obtain ⟨a, hk, h⟩ := Option.bind_eq_some_iff.mp h
    split at h
    case h_2 => cases h
    next pending accepted hstage =>
      cases h
      have hlive : a.live = 0 := hcov a hk
      apply FlowState.inUse_setStage_sublist hk
      simp only [Attempt.live, hstage] at hlive
      simp only [Attempt.uses, hstage]
      omega
  | fail k =>
    obtain ⟨a, hk, h⟩ := Option.bind_eq_some_iff.mp h
    split at h
    case h_2 => cases h
    next pending accepted hstage =>
      cases h
      apply FlowState.inUse_setStage_sublist hk
      simp only [Attempt.uses, hstage, le_refl]
  | drop k =>
    obtain ⟨a, hk, h⟩ := Option.bind_eq_some_iff.mp h
    split at h
    case h_2 => cases h
    next page pending accepted hstage =>
      cases h
      apply FlowState.inUse_setStage_sublist hk
      cases page <;> simp only [Attempt.uses, hstage] <;> omega
  | accept k =>
    obtain ⟨a, hk, h⟩ := Option.bind_eq_some_iff.mp h
    split at h
    case h_2 => cases h
    next page pending accepted hstage =>
      cases h
      apply FlowState.inUse_setStage_sublist hk
      cases page <;> simp only [Attempt.uses, hstage] <;> omega
  | confirm k =>
    obtain ⟨a, hk, h⟩ := Option.bind_eq_some_iff.mp h
    split at h
    case h_3 => cases h
    all_goals
      next pending accepted hstage =>
        cases h
        apply FlowState.inUse_setStage_sublist hk
        simp only [Attempt.uses, hstage]
        omega
  | abandon k =>
    obtain ⟨a, hk, h⟩ := Option.bind_eq_some_iff.mp h
    split at h
    case h_2 => cases h
    next page pending accepted hstage =>
      cases h
      apply FlowState.inUse_setStage_sublist hk
      cases page <;> simp only [Attempt.uses, hstage] <;> omega
  | clear device =>
    cases h
    exact List.Sublist.refl _
  | spend index =>
    simp only [flowStep, Option.ite_none_right_eq_some, Option.some.injEq] at h
    obtain ⟨-, rfl⟩ := h
    exact List.Sublist.refl _

theorem GoesOn.inUse_sublist {s s' : FlowState} (h : GoesOn s s') : s'.inUse.Sublist s.inUse := by
  induction h with
  | refl => exact List.Sublist.refl _
  | tail _ hstep ih =>
    obtain ⟨x, hx, hstep⟩ := hstep
    exact (inUse_sublist_of_proceeds hx hstep).trans ih

theorem inUse_derive {s s' : FlowState} {k : ℕ} {deposits : Option ℕ} {spent : List ℕ}
    (h : flowStep s (.derive k deposits spent) = some s') : ∃ a, s.attempts[k]? = some a ∧
      s'.inUse.Perm (nextDepositIndex a.localIndex deposits (· ∈ spent) :: s.inUse) := by
  simp only [flowStep] at h
  split at h
  case h_2 => cases h
  next a hk =>
    simp only [Option.ite_none_right_eq_some, Option.some.injEq] at h
    obtain ⟨⟨hreading, -⟩, rfl⟩ := h
    exact ⟨a, hk, flatMap_set_perm hk (by simp [Attempt.uses, hreading])⟩

/-- Only an action that is covered keeps the indices in use different. -/
theorem nodup_inUse_iff {s s' : FlowState} {x : FlowAction} (h : flowStep s x = some s')
    (hs : s.inUse.Nodup) : s'.inUse.Nodup ↔ x.Covered s := by
  by_cases hderive : ∀ k deposits spent, x ≠ .derive k deposits spent
  · refine ⟨fun hnodup => ?_, fun hcov =>
      (inUse_sublist_of_proceeds ⟨hcov, hderive⟩ h).nodup hs⟩
    cases x with
    | submit k =>
      intro a hk
      simp only [flowStep, hk, Option.bind_eq_bind, Option.bind_some] at h
      split at h
      case h_2 => cases h
      next pending accepted hstage =>
        cases h
        -- a second transaction of one deposit
        have hsub : (List.replicate (max 1 (pending + 1 + accepted)) a.index).Sublist
            (s.setStage k a (.picked .submitted (pending + 1) accepted)).inUse :=
          sublist_flatMap_set (f := fun a => List.replicate a.uses a.index)
            (b := { a with stage := .picked .submitted (pending + 1) accepted }) hk
        have htwice := hsub.nodup hnodup
        rw [List.nodup_replicate] at htwice
        simp only [Attempt.live, hstage]
        omega
    | derive k deposits spent => exact absurd rfl (hderive k deposits spent)
    | start | fail | drop | accept | confirm | abandon | clear | spend => trivial
  · push Not at hderive
    obtain ⟨k, deposits, spent, rfl⟩ := hderive
    obtain ⟨a, hk, hperm⟩ := inUse_derive h
    rw [hperm.nodup_iff, List.nodup_cons]
    constructor
    · rintro ⟨hnew, -⟩ a' hk' i hi
      obtain rfl := Option.some.inj (hk.symm.trans hk')
      refine (nextDepositIndex_ne_iff _ _ _ i).mp ?_
      rintro rfl
      exact hnew hi
    · intro hcov
      exact ⟨fun hmem => (nextDepositIndex_ne_iff _ _ _ _).mpr (hcov a hk _ hmem) rfl, hs⟩

/-- Over a run, the indices in use stay different at every point exactly when every derivation and
every submission is covered. -/
theorem along_covered_iff {s s' : FlowState} {acts : List FlowAction}
    (h : runFlow s acts = some s') (hs : s.inUse.Nodup) :
    (∀ past s₁, past <+: acts → runFlow s past = some s₁ → s₁.inUse.Nodup) ↔
      Along FlowAction.Covered s acts := by
  induction acts generalizing s with
  | nil =>
    refine ⟨fun _ => trivial, fun _ past s₁ hpast hrun => ?_⟩
    obtain rfl := List.prefix_nil.mp hpast
    cases hrun
    exact hs
  | cons x xs ih =>
    rw [runFlow, List.foldlM_cons] at h
    obtain ⟨s₂, hx, hxs⟩ := Option.bind_eq_some_iff.mp h
    have hcons {past : List FlowAction} : runFlow s (x :: past) = runFlow s₂ past := by
      rw [runFlow, List.foldlM_cons, hx]
      rfl
    have hiff := nodup_inUse_iff hx hs
    constructor
    · intro hall
      have hnodup : s₂.inUse.Nodup :=
        hall [x] s₂ ⟨xs, rfl⟩ (hcons.trans rfl)
      refine ⟨hiff.mp hnodup, fun s₃ hs₃ => ?_⟩
      obtain rfl := Option.some.inj (hx.symm.trans hs₃)
      refine (ih hxs hnodup).mp fun past s₁ hpast hrun => hall (x :: past) s₁ ?_ (hcons.trans hrun)
      exact List.cons_prefix_cons.mpr ⟨rfl, hpast⟩
    · rintro ⟨hcov, hrest⟩ past s₁ hpast hrun
      cases past with
      | nil =>
        cases hrun
        exact hs
      | cons y past =>
        obtain ⟨rfl, hpast'⟩ := List.cons_prefix_cons.mp hpast
        exact (ih hxs (hiff.mpr hcov)).mpr (hrest s₂ hx) past s₁ hpast' (hcons.symm.trans hrun)

theorem accepted_sublist_inUse (s : FlowState) : s.accepted.Sublist s.inUse := by
  rw [FlowState.accepted, FlowState.inUse]
  induction s.attempts with
  | nil => exact List.Sublist.refl _
  | cons a l ih =>
    simp only [List.flatMap_cons]
    refine List.Sublist.append ((List.replicate_sublist_replicate _).mpr ?_) ih
    unfold Attempt.accepted Attempt.uses
    cases a.stage with
    | reading => exact le_rfl
    | picked page pending accepted => cases page <;> dsimp only <;> omega

/-! ## Every deposit begun can be accepted -/

section Settle

variable {s : FlowState} {k : ℕ} {a : Attempt}

theorem GoesOn.single {s s' : FlowState} {x : FlowAction} (h : flowStep s x = some s')
    (hx : x.Proceeds s) : GoesOn s s' :=
  Relation.ReflTransGen.single ⟨x, hx, h⟩

theorem getElem?_setStage (hk : s.attempts[k]? = some a) (stage : AttemptStage) :
    (s.setStage k a stage).attempts[k]? = some { a with stage := stage } := by
  have hlt := (List.getElem?_eq_some_iff.mp hk).1
  simp [FlowState.setStage, hlt]

theorem setStage_setStage (stage stage' : AttemptStage) :
    (s.setStage k a stage).setStage k { a with stage := stage } stage'
      = s.setStage k a stage' := by
  simp [FlowState.setStage]

theorem setStage_self (hk : s.attempts[k]? = some a) : s.setStage k a a.stage = s := by
  obtain ⟨hlt, rfl⟩ := List.getElem?_eq_some_iff.mp hk
  show { s with attempts := s.attempts.set k s.attempts[k] } = s
  rw [List.set_getElem_self]

theorem goesOn_accept (hk : s.attempts[k]? = some a) (page : DepositPage) (pending accepted : ℕ) :
    GoesOn (s.setStage k a (.picked page pending accepted))
      (s.setStage k a (.picked page 0 (pending + accepted))) := by
  induction pending generalizing accepted with
  | zero =>
    rw [Nat.zero_add]
    exact Relation.ReflTransGen.refl
  | succ pending ih =>
    have hstep : flowStep (s.setStage k a (.picked page (pending + 1) accepted)) (.accept k)
        = some (s.setStage k a (.picked page pending (accepted + 1))) := by
      simp [flowStep, getElem?_setStage hk, setStage_setStage]
    have hgo := (GoesOn.single hstep ⟨trivial, nofun⟩).trans (ih (accepted + 1))
    rwa [show pending + (accepted + 1) = pending + 1 + accepted by omega] at hgo

/-- A page that is ready submits a first deposit, and it is accepted. -/
theorem goesOn_ready (hk : s.attempts[k]? = some a) :
    GoesOn (s.setStage k a (.picked .ready 0 0)) (s.setStage k a (.picked .submitted 0 1)) := by
  have hget := getElem?_setStage hk (.picked .ready 0 0)
  have hstep : flowStep (s.setStage k a (.picked .ready 0 0)) (.submit k)
      = some (s.setStage k a (.picked .submitted 1 0)) := by
    simp [flowStep, hget, setStage_setStage]
  have hcov : FlowAction.Covered (s.setStage k a (.picked .ready 0 0)) (.submit k) := by
    intro b hb
    obtain rfl := Option.some.inj (hget.symm.trans hb)
    rfl
  exact (GoesOn.single hstep ⟨hcov, nofun⟩).trans (goesOn_accept hk .submitted 1 0)

/-- An attempt whose transactions are all accepted. -/
def Attempt.Settled (a : Attempt) : Prop := a.accepted = a.uses

theorem exists_settled (hk : s.attempts[k]? = some a) :
    ∃ stage, GoesOn s (s.setStage k a stage) ∧ { a with stage := stage }.Settled ∧
      { a with stage := stage }.uses = a.uses := by
  have hself := setStage_self hk
  cases hstage : a.stage with
  | reading =>
    rw [hstage] at hself
    refine ⟨.reading, ?_, rfl, by simp [Attempt.uses, hstage]⟩
    rw [hself]
    exact Relation.ReflTransGen.refl
  | picked page pending accepted =>
    rw [hstage] at hself
    by_cases hlive : pending + accepted = 0 ∧ (page = .ready ∨ page = .submitted)
    · obtain ⟨h0, hpage⟩ := hlive
      obtain ⟨rfl, rfl⟩ : pending = 0 ∧ accepted = 0 := by omega
      refine ⟨.picked .submitted 0 1, ?_, rfl, by rcases hpage with rfl | rfl <;>
        simp [Attempt.uses, hstage]⟩
      rcases hpage with rfl | rfl
      · have hgo := goesOn_ready hk
        rwa [hself] at hgo
      · have hstep : flowStep s (.fail k) = some (s.setStage k a (.picked .ready 0 0)) := by
          simp [flowStep, hk, hstage]
        exact (GoesOn.single hstep ⟨trivial, nofun⟩).trans (goesOn_ready hk)
    · refine ⟨.picked page 0 (pending + accepted), ?_, ?_, ?_⟩
      · have hgo := goesOn_accept hk page pending accepted
        rwa [hself] at hgo
      · cases page <;> simp only [Attempt.Settled, Attempt.accepted, Attempt.uses] <;>
          simp at hlive ⊢ <;> omega
      · cases page <;> simp [Attempt.uses, hstage]

theorem exists_settled_first (s : FlowState) (n : ℕ) :
    ∃ s', GoesOn s s' ∧ s'.inUse = s.inUse ∧ s'.attempts.length = s.attempts.length ∧
      ∀ k < n, ∀ a, s'.attempts[k]? = some a → a.Settled := by
  induction n with
  | zero => exact ⟨s, Relation.ReflTransGen.refl, rfl, rfl, by simp⟩
  | succ n ih =>
    obtain ⟨s₁, hgo, hinUse, hlen, hsettled⟩ := ih
    cases hn : s₁.attempts[n]? with
    | none =>
      refine ⟨s₁, hgo, hinUse, hlen, fun k hk a ha => ?_⟩
      rcases Nat.lt_succ_iff_lt_or_eq.mp hk with hk | rfl
      · exact hsettled k hk a ha
      · rw [hn] at ha
        cases ha
    | some b =>
      obtain ⟨stage, hgo', hsettle, huses⟩ := exists_settled hn
      refine ⟨_, hgo.trans hgo', (FlowState.inUse_setStage hn huses).trans hinUse,
        by simpa [FlowState.setStage] using hlen, fun k hk a ha => ?_⟩
      rcases Nat.lt_succ_iff_lt_or_eq.mp hk with hk | rfl
      · refine hsettled k hk a ?_
        rwa [FlowState.setStage, List.getElem?_set_ne hk.ne'] at ha
      · rw [getElem?_setStage hn] at ha
        cases ha
        exact hsettle

theorem exists_all_accepted (s : FlowState) : ∃ s', GoesOn s s' ∧ s'.accepted = s.inUse := by
  obtain ⟨s', hgo, hinUse, hlen, hsettled⟩ := exists_settled_first s s.attempts.length
  refine ⟨s', hgo, ?_⟩
  rw [← hinUse, FlowState.accepted, FlowState.inUse]
  refine List.flatMap_congr fun a ha => ?_
  obtain ⟨k, hk, rfl⟩ := List.getElem_of_mem ha
  rw [hsettled k (hlen ▸ hk) _ (List.getElem?_eq_getElem hk)]

end Settle

/-! ## Fresh secrets -/

section Fresh

variable {F : Type} [Field F] {C : Circomlib F} {secret : ℕ → F}

/-- No two of the accepted deposits are at one index, so no two of their notes share the
nullifier; an index is four bytes of what the secret is derived from. -/
def FreshDeposits (C : Circomlib F) (secret : ℕ → F) (s : FlowState) : Prop :=
  s.accepted.Nodup ∧ ((∀ i ∈ s.accepted, i < 2 ^ 32) →
    (s.accepted.map fun i => computeNullifier C (secret i) 0).Nodup)

theorem freshDeposits_of_nodup (hI : C.Injective)
    (hsecret : Set.InjOn secret {i | i < 2 ^ 32}) {s : FlowState} (h : s.accepted.Nodup) :
    FreshDeposits C secret s := by
  refine ⟨h, fun hlt => h.map_on fun i hi j hj heq => ?_⟩
  exact hsecret (hlt i hi) (hlt j hj) (hI.poseidon2_inj heq).1

/-- However the deposits begun so far go on, at whatever point of a run, no index is used twice
exactly when each derivation of the run was steered past the indices then in use, and each deposit
was submitted when no earlier transaction of it was accepted or could be. -/
theorem deposits_fresh_iff (hI : C.Injective) (hsecret : Set.InjOn secret {i | i < 2 ^ 32})
    {legacy : ℕ} {acts : List FlowAction} {s : FlowState}
    (hrun : runFlow (.initial legacy) acts = some s) :
    (∀ past s₁, past <+: acts → runFlow (.initial legacy) past = some s₁ →
        ∀ s', GoesOn s₁ s' → FreshDeposits C secret s') ↔
      Along FlowAction.Covered (.initial legacy) acts := by
  rw [← along_covered_iff hrun List.nodup_nil]
  refine forall₄_congr fun past s₁ hpast hpastRun => ?_
  constructor
  · intro hfresh
    obtain ⟨s', hgo, hall⟩ := exists_all_accepted s₁
    rw [← hall]
    exact (hfresh s' hgo).1
  · intro hnodup s' hgo
    exact freshDeposits_of_nodup hI hsecret
      ((accepted_sublist_inUse s').nodup (hgo.inUse_sublist.nodup hnodup))

end Fresh

/-- One device; a deposit that reverts, is submitted again and confirmed before the next one
begins. -/
def inTurn : List FlowAction :=
  [.start 0, .derive 0 none [], .submit 0, .drop 0, .fail 0, .submit 0, .accept 0, .confirm 0,
    .start 0, .derive 1 none [], .submit 1, .accept 1]

theorem deposits_fresh_inTurn :
    ∃ s, runFlow (.initial 0) inTurn = some s ∧ s.accepted = [0, 1] ∧
      ∀ past s₁, past <+: inTurn → runFlow (.initial 0) past = some s₁ →
        ∀ s', GoesOn s₁ s' → FreshDeposits encodingCircomlib (fun i => (i : ℚ)) s' := by
  have hrun := (Option.some_get (by decide : (runFlow (.initial 0) inTurn).isSome)).symm
  refine ⟨_, hrun, by decide, (deposits_fresh_iff encodingEnv_ideal.injective ?_ hrun).mpr ?_⟩
  · exact fun i _ j _ h => Nat.cast_injective h
  · decide

/-- Two tabs begin before either deposit is accepted; all reads are true. -/
def twoTabs : List FlowAction :=
  [.start 0, .start 0, .derive 0 (some 0) [], .derive 1 (some 0) [], .submit 0, .submit 1,
    .accept 0, .accept 1]

/-- The receipt query fails while the deposit is pending, and it is submitted again. -/
def retried : List FlowAction :=
  [.start 0, .derive 0 (some 0) [], .submit 0, .fail 0, .submit 0, .accept 0, .accept 0]

theorem not_fresh_of_accepted {s : FlowState} (h : s.accepted = [0, 0]) :
    ¬FreshDeposits encodingCircomlib (fun i => (i : ℚ)) s := by
  rintro ⟨hnodup, -⟩
  rw [h] at hnodup
  simp at hnodup

theorem two_tabs_one_secret :
    (∃ s, runFlow (.initial 0) twoTabs = some s ∧
      ¬FreshDeposits encodingCircomlib (fun i => (i : ℚ)) s) ∧
    ∃ s, runFlow (.initial 0) retried = some s ∧
      ¬FreshDeposits encodingCircomlib (fun i => (i : ℚ)) s := by
  have htabs := (Option.some_get (by decide : (runFlow (.initial 0) twoTabs).isSome)).symm
  have hretried := (Option.some_get (by decide : (runFlow (.initial 0) retried).isSome)).symm
  exact ⟨⟨_, htabs, not_fresh_of_accepted (by decide)⟩,
    ⟨_, hretried, not_fresh_of_accepted (by decide)⟩⟩

end Polyshield.Wallet
