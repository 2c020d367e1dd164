import Polyshield.Vault.Conservation
import Polyshield.Wallet.Deposits

/-!
# Which deposits recovery finds

A wallet with legacy deposits at the first indices and then deposits at the
indices that the deposit page hands out. The scan for them stops after a run of
`gapLimit` indices without a deposit of the pass's own scheme, while the page
counts the deposits of both schemes: recovery finds all deposits exactly when no
such run precedes one of the later ones, and no two of these share an index.
-/

namespace Polyshield.Wallet

variable {F : Type} [Field F] [DecidableEq F] (C : Circomlib F)

/-- What the deposit page reads before a deposit: the counter, and which nullifiers are spent. -/
structure DepositReads where
  localIndex : ℕ
  spent : ℕ → Bool
  amount : ℕ

/-- The deposits of a wallet, in their order: the amounts of the legacy ones, then the others. -/
structure DepositHistory where
  legacy : List ℕ
  later : List DepositReads

/-- The secrets of both derivations. -/
structure WalletSecrets (F : Type) where
  v1 : ℕ → F
  v2 : ℕ → F

def WalletSecrets.of (secrets : WalletSecrets F) : DerivationVersion → ℕ → F
  | .v1 => secrets.v1
  | .v2 => secrets.v2

/-- No two of the secrets below the cap are the same. -/
def WalletSecrets.Distinct (secrets : WalletSecrets F) (hardCap : ℕ) : Prop :=
  ∀ v i w j, i < hardCap → j < hardCap → secrets.of v i = secrets.of w j → v = w ∧ i = j

def lineageAt (address : Address) (secrets : WalletSecrets F) (version : DerivationVersion)
    (index amount : ℕ) : Lineage F where
  index
  version
  secret := secrets.of version index
  commitment := computeCommitment C (secrets.of version index) amount 0 address
  amount

/-- The indices of later deposits, of which the first has `count` deposits before it. -/
def laterIndices (count : ℕ) : List DepositReads → List ℕ
  | [] => []
  | r :: rest => nextDepositIndex r.localIndex (some count) r.spent :: laterIndices (count + 1) rest

/-- The later deposits with their own indices, version and secrets. -/
def laterLineages (address : Address) (secrets : WalletSecrets F) (count : ℕ) :
    List DepositReads → List (Lineage F)
  | [] => []
  | r :: rest =>
    lineageAt C address secrets .v2 (nextDepositIndex r.localIndex (some count) r.spent) r.amount
      :: laterLineages address secrets (count + 1) rest

def legacyLineages (address : Address) (secrets : WalletSecrets F) (legacy : List ℕ) :
    List (Lineage F) :=
  legacy.zipIdx.map fun d => lineageAt C address secrets .v1 d.2 d.1

namespace DepositHistory

def indices (h : DepositHistory) : List ℕ := laterIndices h.legacy.length h.later

def lineages (h : DepositHistory) (address : Address) (secrets : WalletSecrets F) :
    List (Lineage F) :=
  legacyLineages C address secrets h.legacy
    ++ laterLineages C address secrets h.legacy.length h.later

end DepositHistory

/-- No `gapLimit` indices in a row are skipped before an index of the list. -/
def Unbroken (gapLimit : ℕ) (indices : List ℕ) : Prop :=
  ∀ i ∈ indices, ∀ j, j + gapLimit ≤ i → ∃ k ∈ indices, j ≤ k ∧ k < j + gapLimit

/-! ## Deposits and their lineages -/

section Made

variable (address : Address) (secrets : WalletSecrets F)

/-- The lineages are of deposits at indices below the cap. -/
structure Made (hardCap : ℕ) (L : List (Lineage F)) : Prop where
  own : ∀ l ∈ L, l = lineageAt C address secrets l.version l.index l.amount
  index_lt : ∀ l ∈ L, l.index < hardCap

end Made

omit [Field F] [DecidableEq F] in
def depositsOf (L : List (Lineage F)) : List (F × ℕ) := L.map fun l => (l.commitment, l.amount)

section Find

variable {C} {address : Address} {secrets : WalletSecrets F} {hardCap : ℕ} {L : List (Lineage F)}
  (hI : C.Injective) (hS : secrets.Distinct hardCap) (hL : Made C address secrets hardCap L)

omit [DecidableEq F] in
include hI hS hL in
theorem Made.opens_iff {l : Lineage F} (hl : l ∈ L) {v : DerivationVersion} {i : ℕ}
    (hi : i < hardCap) :
    computeCommitment C (secrets.of v i) l.amount 0 address = l.commitment ↔
      l.version = v ∧ l.index = i := by
  have hown := hL.own l hl
  have hcom : l.commitment
      = computeCommitment C (secrets.of l.version l.index) l.amount 0 address :=
    congrArg Lineage.commitment hown
  constructor
  · intro h
    rw [hcom] at h
    obtain ⟨hv, hij⟩ := hS v i l.version l.index hi (hL.index_lt l hl) (hI.poseidon4_inj h).1
    exact ⟨hv.symm, hij.symm⟩
  · rintro ⟨rfl, rfl⟩
    exact hcom.symm

omit [DecidableEq F] in
include hI hS hL in
theorem Made.commitment_inj {l l' : Lineage F} (hl : l ∈ L) (hl' : l' ∈ L)
    (h : l.commitment = l'.commitment) : l.version = l'.version ∧ l.index = l'.index := by
  have hcom : l'.commitment
      = computeCommitment C (secrets.of l'.version l'.index) l'.amount 0 address :=
    congrArg Lineage.commitment (hL.own l' hl')
  have hcom' : l.commitment
      = computeCommitment C (secrets.of l.version l.index) l.amount 0 address :=
    congrArg Lineage.commitment (hL.own l hl)
  rw [hcom, hcom'] at h
  exact hS _ _ _ _ (hL.index_lt l hl) (hL.index_lt l' hl') (hI.poseidon4_inj h).1

include hI hS hL in
theorem Made.findDeposit_some {v : DerivationVersion} {i : ℕ} (hi : i < hardCap) {M : List F}
    {d : F × ℕ} (h : findDeposit C address (depositsOf L) M (secrets.of v i) = some d) :
    ⟨i, v, secrets.of v i, d.1, d.2⟩ ∈ L ∧ d.1 ∉ M := by
  have hmem := List.mem_of_find?_eq_some h
  have hp := List.find?_some h
  simp only [decide_eq_true_eq] at hp
  obtain ⟨l, hl, rfl⟩ := List.mem_map.mp hmem
  obtain ⟨rfl, rfl⟩ := (hL.opens_iff hI hS hl hi).mp hp.2
  have hown := hL.own l hl
  refine ⟨?_, hp.1⟩
  rw [show l.commitment
    = computeCommitment C (secrets.of l.version l.index) l.amount 0 address from
    congrArg Lineage.commitment hown]
  exact hown ▸ hl

include hI hS hL in
theorem Made.findDeposit_none {v : DerivationVersion} {i : ℕ} (hi : i < hardCap) {M : List F}
    (h : findDeposit C address (depositsOf L) M (secrets.of v i) = none) {l : Lineage F}
    (hl : l ∈ L) (hv : l.version = v) (hli : l.index = i) : l.commitment ∈ M := by
  have hnone := List.find?_eq_none.mp h (l.commitment, l.amount) (List.mem_map_of_mem hl)
  simp only [decide_eq_true_eq] at hnone
  by_contra hM
  exact hnone ⟨hM, (hL.opens_iff hI hS hl hi).mpr ⟨hv, hli⟩⟩

end Find

/-! ## The scan -/

/-- The scan has found lineages of the list, at different indices. -/
structure ScanOf (L : List (Lineage F)) (scan : DepositScan F) : Prop where
  subset : scan.lineages ⊆ L
  nodup : (scan.lineages.map Lineage.index).Nodup
  matched : scan.matched = scan.lineages.map Lineage.commitment

omit [Field F] [DecidableEq F] in
theorem ScanOf.full {L : List (Lineage F)} {scan : DepositScan F} (h : ScanOf L scan)
    (hfull : ¬scan.matched.length < (depositsOf L).length) : L ⊆ scan.lineages := by
  have hsub := List.subperm_of_subset (List.Nodup.of_map _ h.nodup) h.subset
  have hlen : L.length ≤ scan.lineages.length := by
    rw [h.matched, depositsOf, List.length_map, List.length_map] at hfull
    exact not_lt.mp hfull
  exact (hsub.perm_of_length_le hlen).symm.subset

omit [Field F] [DecidableEq F] in
theorem ScanOf.miss {L : List (Lineage F)} {scan : DepositScan F} (h : ScanOf L scan) :
    ScanOf L { scan with consecutiveEmpty := scan.consecutiveEmpty + 1 } :=
  ⟨h.subset, h.nodup, h.matched⟩

section Scan

variable {C} {address : Address} {secrets : WalletSecrets F} {hardCap gapLimit : ℕ}
  {L : List (Lineage F)} {v : DerivationVersion} {scan : DepositScan F}
  (hI : C.Injective) (hS : secrets.Distinct hardCap) (hL : Made C address secrets hardCap L)

include hI hS hL

theorem scanIndex_cases (h : ScanOf L scan) {i : ℕ} (hi : i < hardCap)
    (hfresh : ∀ l ∈ scan.lineages, l.index ≠ i) :
    ((∀ l ∈ L, l.version = v → l.index ≠ i) ∧
      scanIndex C address (depositsOf L) v (secrets.of v i) scan i =
        { scan with consecutiveEmpty := scan.consecutiveEmpty + 1 }) ∨
    ∃ l ∈ L, l.version = v ∧ l.index = i ∧
      scanIndex C address (depositsOf L) v (secrets.of v i) scan i =
        ⟨scan.lineages ++ [l], scan.matched ++ [l.commitment], 0⟩ ∧
      ScanOf L ⟨scan.lineages ++ [l], scan.matched ++ [l.commitment], 0⟩ := by
  cases hfind : findDeposit C address (depositsOf L) scan.matched (secrets.of v i) with
  | none =>
    refine .inl ⟨fun l hl hv hli => ?_, by simp [scanIndex, hfind]⟩
    have hmem := hL.findDeposit_none hI hS hi hfind hl hv hli
    rw [h.matched] at hmem
    obtain ⟨l', hl', hcom⟩ := List.mem_map.mp hmem
    have hindex := (hL.commitment_inj hI hS (h.subset hl') hl hcom).2
    exact hfresh l' hl' (hindex.trans hli)
  | some d =>
    obtain ⟨hmem, -⟩ := hL.findDeposit_some hI hS hi hfind
    refine .inr ⟨_, hmem, rfl, rfl, by simp [scanIndex, hfind], ?_, ?_, ?_⟩
    · exact List.append_subset.mpr ⟨h.subset, by simpa using hmem⟩
    · rw [List.map_append, List.map_singleton, List.nodup_append]
      refine ⟨h.nodup, List.nodup_singleton _, fun a ha b hb hab => ?_⟩
      obtain ⟨l, hl, rfl⟩ := List.mem_map.mp ha
      exact hfresh l hl (hab.trans (List.mem_singleton.mp hb))
    · rw [h.matched, List.map_append, List.map_singleton]

theorem scanIndices_of (h : ScanOf L scan) {indices : List ℕ} (hcap : ∀ i ∈ indices, i < hardCap)
    (hnodup : indices.Nodup)
    (hfresh : v = .v2 → ∀ l ∈ scan.lineages, l.index ∉ indices) :
    ScanOf L (scanIndices C address (depositsOf L) gapLimit v (secrets.of v) indices scan) ∧
    scan.lineages ⊆
      (scanIndices C address (depositsOf L) gapLimit v (secrets.of v) indices scan).lineages ∧
    ∀ l ∈ (scanIndices C address (depositsOf L) gapLimit v (secrets.of v) indices scan).lineages,
      l ∈ scan.lineages ∨ l.version = v := by
  induction indices generalizing scan with
  | nil => exact ⟨h, fun _ hl => hl, fun _ hl => .inl hl⟩
  | cons i rest ih =>
    rw [List.nodup_cons] at hnodup
    have hrest : ∀ j ∈ rest, j < hardCap := fun j hj => hcap j (List.mem_cons_of_mem i hj)
    have hfresh' : v = .v2 → ∀ l ∈ scan.lineages, l.index ∉ rest := fun hv l hl hmem =>
      hfresh hv l hl (List.mem_cons_of_mem i hmem)
    rw [scanIndices]
    split
    · split
      · exact ih h hrest hnodup.2 hfresh'
      next hclaimed =>
        have hi : ∀ l ∈ scan.lineages, l.index ≠ i := by
          intro l hl hli
          cases v with
          | v1 => exact hclaimed ⟨rfl, l, hl, hli⟩
          | v2 => exact hfresh rfl l hl (by simp [hli])
        rcases scanIndex_cases hI hS hL (v := v) h (hcap i (by simp)) hi with
          ⟨-, heq⟩ | ⟨l, -, hv, hli, heq, hof⟩
        · rw [heq]
          exact ih h.miss hrest hnodup.2 hfresh'
        · rw [heq]
          have hfresh'' : v = .v2 → ∀ l' ∈ scan.lineages ++ [l], l'.index ∉ rest := by
            intro hv2 l' hl'
            rcases List.mem_append.mp hl' with hl' | hl'
            · exact hfresh' hv2 l' hl'
            · rw [List.mem_singleton.mp hl', hli]
              exact hnodup.1
          obtain ⟨h1, h2, h3⟩ := ih hof hrest hnodup.2 hfresh''
          refine ⟨h1, fun l' hl' => h2 (List.mem_append_left _ hl'), fun l' hl' => ?_⟩
          rcases h3 l' hl' with hl' | hl'
          · rcases List.mem_append.mp hl' with hl' | hl'
            · exact .inl hl'
            · exact .inr (by rw [List.mem_singleton.mp hl', hv])
          · exact .inr hl'
    · exact ⟨h, fun _ hl => hl, fun _ hl => .inl hl⟩

/-- A pass over all indices finds every deposit of its scheme, if none lies behind a run of
`gapLimit` indices without one. `e` is the length of the run that ends before `i`. -/
theorem scanIndices_complete (hone : ∀ l ∈ L, ∀ l' ∈ L, l.version = v → l'.version = v →
      l.index = l'.index → l = l')
    (hunbroken : ∀ l ∈ L, l.version = v → ∀ j, j + gapLimit ≤ l.index →
      ∃ k ∈ L, k.version = v ∧ j ≤ k.index ∧ k.index < j + gapLimit)
    (h : ScanOf L scan) {i n : ℕ} (hcap : i + n ≤ hardCap)
    (hfresh : ∀ l ∈ scan.lineages, l.index < i)
    (hdone : ∀ l ∈ L, l.version = v → l.index < i → l ∈ scan.lineages)
    (hrun : scan.consecutiveEmpty ≤ i)
    (hmissed : ∀ l ∈ L, l.version = v → l.index < i → l.index + scan.consecutiveEmpty < i) :
    ∀ l ∈ L, l.version = v → l.index < i + n → l ∈ (scanIndices C address (depositsOf L) gapLimit v
      (secrets.of v) (List.range' i n) scan).lineages := by
  induction n generalizing i scan with
  | zero => exact fun l hl hv hlt => hdone l hl hv (by omega)
  | succ n ih =>
    intro l hl hv hlt
    rw [List.range'_succ, scanIndices]
    split
    · rw [if_neg fun hclaimed => ?_]
      · rcases scanIndex_cases hI hS hL (v := v) h (by omega : i < hardCap)
          (fun l' hl' => (hfresh l' hl').ne) with ⟨hmiss, heq⟩ | ⟨l', hl', hv', hli, heq, hof⟩
        · have hlow : ∀ l ∈ L, l.version = v → l.index < i + 1 → l.index < i :=
            fun l hl hv hlt => by have := hmiss l hl hv; omega
          rw [heq]
          refine ih h.miss (by omega)
            (fun l hl => (hfresh l hl).trans (Nat.lt_succ_self i))
            (fun l hl hv hlt => hdone l hl hv (hlow l hl hv hlt)) ?_ ?_ l hl hv (by omega)
          · exact Nat.succ_le_succ hrun
          · intro l hl hv hlt
            have := hmissed l hl hv (hlow l hl hv hlt)
            simp only
            omega
        · rw [heq]
          refine ih hof (by omega) ?_ ?_ (Nat.zero_le _) ?_ l hl hv (by omega)
          · intro l'' hl''
            rcases List.mem_append.mp hl'' with hl'' | hl''
            · exact (hfresh l'' hl'').trans (Nat.lt_succ_self i)
            · rw [List.mem_singleton.mp hl'', hli]
              exact Nat.lt_succ_self i
          · intro l'' hl'' hv'' hlt''
            rcases Nat.lt_succ_iff_lt_or_eq.mp hlt'' with hlt'' | heq''
            · exact List.mem_append_left _ (hdone l'' hl'' hv'' hlt'')
            · rw [hone l'' hl'' l' hl' hv'' hv' (heq''.trans hli.symm)]
              exact List.mem_append_right _ (List.mem_singleton_self l')
          · exact fun _ _ _ hlt'' => hlt''
      · obtain ⟨-, l', hl', hli⟩ := hclaimed
        exact absurd hli (hfresh l' hl').ne
    next hstop =>
      by_cases hfull : scan.matched.length < (depositsOf L).length
      · -- The run is long enough, so no deposit of the scheme is left.
        have hempty : gapLimit ≤ scan.consecutiveEmpty := not_lt.mp fun hlt => hstop ⟨hfull, hlt⟩
        refine hdone l hl hv (not_le.mp fun hle => ?_)
        obtain ⟨k, hk, hkv, hlow, hhigh⟩ := hunbroken l hl hv (i - gapLimit) (by omega)
        have := hmissed k hk hkv (by omega)
        omega
      · exact h.full hfull hl

/-- The fallback finds the deposits at the first `m` indices, where it misses none. -/
theorem scanIndices_consecutive {m : ℕ} (hgap : 0 < gapLimit)
    (hone : ∀ l ∈ L, ∀ l' ∈ L, l.index < m → l.index = l'.index → l = l')
    (hall : ∀ i < m, ∃ l ∈ L, l.version = v ∧ l.index = i)
    (h : ScanOf L scan) {i n : ℕ} (hcap : i + n ≤ hardCap) (hm : m ≤ i + n)
    (hfresh : v = .v2 → ∀ l ∈ scan.lineages, l.index < i)
    (hdone : ∀ l ∈ L, l.index < m → l.index < i → l ∈ scan.lineages)
    (hrun : i < m → scan.consecutiveEmpty = 0) :
    ∀ l ∈ L, l.index < m → l ∈ (scanIndices C address (depositsOf L) gapLimit v
      (secrets.of v) (List.range' i n) scan).lineages := by
  induction n generalizing i scan with
  | zero => exact fun l hl hlt => hdone l hl hlt (by omega)
  | succ n ih =>
    intro l hl hlt
    by_cases him : i < m
    · obtain ⟨own, hown, hownv, howni⟩ := hall i him
      rw [List.range'_succ, scanIndices]
      split
      · split
        next hclaimed =>
          obtain ⟨-, l', hl', hli⟩ := hclaimed
          obtain rfl := hone own hown l' (h.subset hl') (by omega) (howni.trans hli.symm)
          refine ih h (by omega) (by omega) (fun hv l hl => (hfresh hv l hl).trans_le (by omega))
            ?_ (fun _ => hrun him) l hl hlt
          intro l'' hl'' hm'' hlt''
          rcases Nat.lt_succ_iff_lt_or_eq.mp hlt'' with hlt'' | heq''
          · exact hdone l'' hl'' hm'' hlt''
          · rwa [hone l'' hl'' own hown hm'' (heq''.trans howni.symm)]
        next hclaimed =>
          have hi : ∀ l ∈ scan.lineages, l.index ≠ i := by
            intro l hl hli
            cases v with
            | v1 => exact hclaimed ⟨rfl, l, hl, hli⟩
            | v2 => exact absurd hli (hfresh rfl l hl).ne
          rcases scanIndex_cases hI hS hL (v := v) h (by omega : i < hardCap) hi with
            ⟨hmiss, -⟩ | ⟨l', hl', hv', hli, heq, hof⟩
          · exact absurd howni (hmiss own hown hownv)
          · rw [heq]
            refine ih hof (by omega) (by omega) ?_ ?_ (fun _ => rfl) l hl hlt
            · intro hv l'' hl''
              rcases List.mem_append.mp hl'' with hl'' | hl''
              · exact (hfresh hv l'' hl'').trans (Nat.lt_succ_self i)
              · rw [List.mem_singleton.mp hl'', hli]
                exact Nat.lt_succ_self i
            · intro l'' hl'' hm'' hlt''
              rcases Nat.lt_succ_iff_lt_or_eq.mp hlt'' with hlt'' | heq''
              · exact List.mem_append_left _ (hdone l'' hl'' hm'' hlt'')
              · rw [hone l'' hl'' l' hl' hm'' (heq''.trans hli.symm)]
                exact List.mem_append_right _ (List.mem_singleton_self l')
      next hstop =>
        refine h.full (fun hlt => hstop ⟨hlt, ?_⟩) hl
        rwa [hrun him]
    · refine (scanIndices_of hI hS hL h (fun j hj => ?_) List.nodup_range' ?_).2.1
        (hdone l hl hlt (by omega))
      · have := (List.mem_range'_1.mp hj).2
        omega
      · intro hv l hl hmem
        have := hfresh hv l hl
        have := (List.mem_range'_1.mp hmem).1
        omega

/-- A pass finds nothing behind a run of `gapLimit` indices without a deposit of its scheme. -/
theorem scanIndices_stops {j : ℕ} (hbroken : ∀ l ∈ L, l.version = v → j ≤ l.index →
      j + gapLimit ≤ l.index)
    (h : ScanOf L scan) {i n : ℕ} (hcap : i + n ≤ hardCap)
    (hfresh : ∀ l ∈ scan.lineages, l.index < i) (hrun : i ≤ j + scan.consecutiveEmpty)
    (hlow : ∀ l ∈ scan.lineages, l.index < j + gapLimit) :
    ∀ l ∈ (scanIndices C address (depositsOf L) gapLimit v (secrets.of v) (List.range' i n)
      scan).lineages, l.index < j + gapLimit := by
  induction n generalizing i scan with
  | zero => exact hlow
  | succ n ih =>
    rw [List.range'_succ, scanIndices]
    split
    next hgo =>
      rw [if_neg fun hclaimed => ?_]
      · rcases scanIndex_cases hI hS hL (v := v) h (by omega : i < hardCap)
          (fun l' hl' => (hfresh l' hl').ne) with ⟨-, heq⟩ | ⟨l', hl', hv', hli, heq, hof⟩
        · rw [heq]
          refine ih h.miss (by omega)
            (fun l hl => (hfresh l hl).trans (Nat.lt_succ_self i)) ?_ hlow
          simp only
          omega
        · rw [heq]
          have hbefore : i < j := by
            by_contra hge
            have := hbroken l' hl' hv' (by omega)
            omega
          refine ih hof (by omega) (fun l hl => ?_) (by simp only; omega) (fun l hl => ?_)
          · rcases List.mem_append.mp hl with hl | hl
            · exact (hfresh l hl).trans (Nat.lt_succ_self i)
            · rw [List.mem_singleton.mp hl, hli]
              exact Nat.lt_succ_self i
          · rcases List.mem_append.mp hl with hl | hl
            · exact hlow l hl
            · rw [List.mem_singleton.mp hl, hli]
              omega
      · obtain ⟨-, l', hl', hli⟩ := hclaimed
        exact absurd hli (hfresh l' hl').ne
    · exact hlow

end Scan

/-! ## Histories -/

section History

variable {C} {address : Address} {secrets : WalletSecrets F}

theorem le_of_mem_laterIndices {count i : ℕ} {later : List DepositReads}
    (h : i ∈ laterIndices count later) : count ≤ i := by
  induction later generalizing count with
  | nil => simp [laterIndices] at h
  | cons r rest ih =>
    rcases List.mem_cons.mp h with rfl | h
    · exact le_nextDepositIndex _ _ _
    · exact (Nat.le_succ count).trans (ih h)

variable (C address secrets) in
omit [DecidableEq F] in
theorem map_index_laterLineages (count : ℕ) (later : List DepositReads) :
    (laterLineages C address secrets count later).map Lineage.index = laterIndices count later := by
  induction later generalizing count with
  | nil => rfl
  | cons r rest ih => simp [laterLineages, laterIndices, ih, lineageAt]

omit [DecidableEq F] in
theorem mem_laterLineages {count : ℕ} {later : List DepositReads} {l : Lineage F}
    (h : l ∈ laterLineages C address secrets count later) :
    l.version = .v2 ∧ l = lineageAt C address secrets l.version l.index l.amount := by
  induction later generalizing count with
  | nil => simp [laterLineages] at h
  | cons r rest ih =>
    rcases List.mem_cons.mp h with rfl | h
    · exact ⟨rfl, rfl⟩
    · exact ih h

omit [DecidableEq F] in
theorem mem_legacyLineages {legacy : List ℕ} {l : Lineage F} :
    l ∈ legacyLineages C address secrets legacy ↔
      ∃ i a, legacy[i]? = some a ∧ l = lineageAt C address secrets .v1 i a := by
  simp only [legacyLineages, List.mem_map, Prod.exists, List.mem_zipIdx_iff_getElem?]
  constructor
  · rintro ⟨a, i, hia, rfl⟩
    exact ⟨i, a, hia, rfl⟩
  · rintro ⟨i, a, hia, rfl⟩
    exact ⟨a, i, hia, rfl⟩

omit [DecidableEq F] in
theorem map_index_legacyLineages (legacy : List ℕ) :
    (legacyLineages C address secrets legacy).map Lineage.index = List.range legacy.length := by
  rw [legacyLineages, List.map_map, List.range_eq_range', ← List.zipIdx_map_snd 0 legacy]
  rfl

variable {h : DepositHistory}

namespace DepositHistory

omit [DecidableEq F] in
theorem map_index_lineages :
    (h.lineages C address secrets).map Lineage.index = List.range h.legacy.length ++ h.indices := by
  rw [lineages, List.map_append, map_index_legacyLineages, map_index_laterLineages, indices]

/-- The later indices are past the legacy ones. -/
theorem le_of_mem_indices {i : ℕ} (hi : i ∈ h.indices) : h.legacy.length ≤ i :=
  le_of_mem_laterIndices hi

variable (C address secrets) in
omit [DecidableEq F] in
theorem nodup_index_lineages_iff :
    ((h.lineages C address secrets).map Lineage.index).Nodup ↔ h.indices.Nodup := by
  rw [map_index_lineages, List.nodup_append]
  refine ⟨fun hn => hn.2.1, fun hn => ⟨List.nodup_range, hn, fun a ha b hb hab => ?_⟩⟩
  have := le_of_mem_indices hb
  have := List.mem_range.mp ha
  omega

omit [DecidableEq F] in
theorem mem_lineages {l : Lineage F} (hl : l ∈ h.lineages C address secrets) :
    (l.version = .v1 ∧ l.index < h.legacy.length ∨ l.version = .v2 ∧ l.index ∈ h.indices) ∧
      l = lineageAt C address secrets l.version l.index l.amount := by
  rcases List.mem_append.mp hl with hl | hl
  · obtain ⟨i, a, hia, rfl⟩ := mem_legacyLineages.mp hl
    exact ⟨.inl ⟨rfl, (List.getElem?_eq_some_iff.mp hia).1⟩, rfl⟩
  · refine ⟨.inr ⟨(mem_laterLineages hl).1, ?_⟩, (mem_laterLineages hl).2⟩
    rw [indices, ← map_index_laterLineages C address secrets]
    exact List.mem_map_of_mem hl

variable (C address secrets) in
omit [DecidableEq F] in
theorem exists_of_mem_indices {i : ℕ} (hi : i ∈ h.indices) :
    ∃ l ∈ h.lineages C address secrets, l.version = .v2 ∧ l.index = i := by
  rw [indices, ← map_index_laterLineages C address secrets] at hi
  obtain ⟨l, hl, rfl⟩ := List.mem_map.mp hi
  exact ⟨l, List.mem_append_right _ hl, (mem_laterLineages hl).1, rfl⟩

omit [DecidableEq F] in
theorem exists_legacy {i : ℕ} (hi : i < h.legacy.length) :
    ∃ l ∈ h.lineages C address secrets, l.version = .v1 ∧ l.index = i :=
  ⟨_, List.mem_append_left _ (mem_legacyLineages.mpr ⟨i, _, List.getElem?_eq_getElem hi, rfl⟩),
    rfl, rfl⟩

end DepositHistory

/-! ## Coverage -/

def firstPass (C : Circomlib F) (address : Address) (deposits : List (F × ℕ)) (v2 : ℕ → F)
    (gapLimit hardCap : ℕ) : DepositScan F :=
  scanIndices C address deposits gapLimit .v2 v2 (List.range' 0 hardCap) ⟨[], [], 0⟩

def secondPass (C : Circomlib F) (address : Address) (deposits : List (F × ℕ)) (v1 : ℕ → F)
    (gapLimit hardCap : ℕ) (scan : DepositScan F) : DepositScan F :=
  if scan.matched.length < deposits.length then
    scanIndices C address deposits gapLimit .v1 v1 (List.range' 0 hardCap)
      ⟨scan.lineages, scan.matched, 0⟩
  else scan

theorem scanDeposits_perm (deposits : List (F × ℕ)) (gapLimit hardCap : ℕ) :
    (scanDeposits C address deposits (some secrets.v2) secrets.v1 gapLimit hardCap).Perm
      (secondPass C address deposits secrets.v1 gapLimit hardCap
        (firstPass C address deposits secrets.v2 gapLimit hardCap)).lineages := by
  simp only [scanDeposits, secondPass, firstPass, List.range_eq_range']
  exact List.mergeSort_perm _ _

section Passes

variable {hardCap gapLimit : ℕ} {L : List (Lineage F)} (hI : C.Injective)
  (hS : secrets.Distinct hardCap) (hL : Made C address secrets hardCap L)

omit [Field F] [DecidableEq F] in
theorem scanOf_empty (L : List (Lineage F)) : ScanOf L ⟨[], [], 0⟩ := ⟨by simp, by simp, rfl⟩

omit [Field F] [DecidableEq F] in
theorem ScanOf.restart {scan : DepositScan F} (h : ScanOf L scan) :
    ScanOf L ⟨scan.lineages, scan.matched, 0⟩ :=
  ⟨h.subset, h.nodup, h.matched⟩

theorem forall_mem_range'_lt (n : ℕ) : ∀ i ∈ List.range' 0 n, i < n := fun i hi => by
  simpa using (List.mem_range'_1.mp hi).2

include hI hS hL

variable (gapLimit) in
theorem firstPass_of :
    ScanOf L (firstPass C address (depositsOf L) secrets.v2 gapLimit hardCap) :=
  (scanIndices_of hI hS hL (v := .v2) (scanOf_empty L)
    (forall_mem_range'_lt hardCap) List.nodup_range' (by simp)).1

variable (gapLimit) in
theorem secondPass_of {scan : DepositScan F} (h : ScanOf L scan) :
    ScanOf L (secondPass C address (depositsOf L) secrets.v1 gapLimit hardCap scan) ∧
    scan.lineages ⊆
      (secondPass C address (depositsOf L) secrets.v1 gapLimit hardCap scan).lineages ∧
    ∀ l ∈ (secondPass C address (depositsOf L) secrets.v1 gapLimit hardCap scan).lineages,
      l ∈ scan.lineages ∨ l.version = .v1 := by
  unfold secondPass
  split
  · exact scanIndices_of hI hS hL (v := .v1) h.restart (forall_mem_range'_lt hardCap)
      List.nodup_range' (by simp)
  · exact ⟨h, fun _ hl => hl, fun _ hl => .inl hl⟩

end Passes

section Matches

variable {hardCap gapLimit : ℕ} (hI : C.Injective) (hgap : 0 < gapLimit)
  (hS : secrets.Distinct hardCap) (hlegacy : h.legacy.length ≤ hardCap)
  (hcap : ∀ i ∈ h.indices, i < hardCap)

variable (C address secrets) in
omit [DecidableEq F] in
include hlegacy hcap in
theorem DepositHistory.made : Made C address secrets hardCap (h.lineages C address secrets) where
  own := fun _ hl => (mem_lineages hl).2
  index_lt := fun l hl => by
    rcases (mem_lineages hl).1 with ⟨-, hlt⟩ | ⟨-, hmem⟩
    · omega
    · exact hcap _ hmem

include hI hS hlegacy hcap

variable (address) in
/-- The first pass finds every later deposit, if the indices are distinct and unbroken. -/
theorem firstPass_complete (hnodup : h.indices.Nodup) (hunbroken : Unbroken gapLimit h.indices) :
    ∀ l ∈ h.lineages C address secrets, l.version = .v2 →
      l ∈ (firstPass C address (depositsOf (h.lineages C address secrets)) secrets.v2 gapLimit
        hardCap).lineages := by
  have hone := List.inj_on_of_nodup_map
    ((DepositHistory.nodup_index_lineages_iff C address secrets).mpr hnodup)
  have hL := DepositHistory.made C address secrets hlegacy hcap
  intro l hl hv
  refine scanIndices_complete hI hS hL (fun l hl l' hl' _ _ heq => hone hl hl' heq) ?_
    (scanOf_empty _) (by omega) (by simp) (by simp) (Nat.zero_le _) (by simp) l hl hv
    (by simpa using hL.index_lt l hl)
  intro l hl hv j hj
  rcases (DepositHistory.mem_lineages hl).1 with ⟨hv', -⟩ | ⟨-, hmem⟩
  · rw [hv] at hv'; cases hv'
  · obtain ⟨k, hk, hlow, hhigh⟩ := hunbroken l.index hmem j hj
    obtain ⟨l', hl', hv', rfl⟩ := DepositHistory.exists_of_mem_indices C address
      secrets hk
    exact ⟨l', hl', hv', hlow, hhigh⟩

/-- Every deposit is matched only if the later indices are distinct and unbroken. -/
theorem nodup_unbroken_of_perm
    (hperm : (scanDeposits C address (depositsOf (h.lineages C address secrets))
      (some secrets.v2) secrets.v1 gapLimit hardCap).Perm (h.lineages C address secrets)) :
    h.indices.Nodup ∧ Unbroken gapLimit h.indices := by
  have hL := DepositHistory.made C address secrets hlegacy hcap
  have hfirst := firstPass_of gapLimit hI hS hL
  obtain ⟨hsecond, -, hadded⟩ := secondPass_of gapLimit hI hS hL hfirst
  rw [(scanDeposits_perm _ _ _).congr_left] at hperm
  refine ⟨(DepositHistory.nodup_index_lineages_iff C address secrets).mp
    ((hperm.map Lineage.index).nodup_iff.mp hsecond.nodup), fun i hi j hj => ?_⟩
  by_contra hnone
  push Not at hnone
  obtain ⟨l, hl, hv, rfl⟩ := DepositHistory.exists_of_mem_indices C address
    secrets hi
  have hmem := hadded l (hperm.symm.subset hl)
  rw [hv] at hmem
  refine absurd (scanIndices_stops hI hS hL ?_ (scanOf_empty _) (by omega) (by simp)
    (Nat.zero_le _) (by simp) l (hmem.resolve_right (by decide))) (not_lt.mpr hj)
  intro k hk hkv hlow
  rcases (DepositHistory.mem_lineages hk).1 with ⟨hv', -⟩ | ⟨-, hkmem⟩
  · rw [hkv] at hv'; cases hv'
  · exact hnone k.index hkmem hlow

include hgap in
theorem perm_of_nodup_unbroken (hnodup : h.indices.Nodup)
    (hunbroken : Unbroken gapLimit h.indices) :
    (scanDeposits C address (depositsOf (h.lineages C address secrets)) (some secrets.v2)
      secrets.v1 gapLimit hardCap).Perm (h.lineages C address secrets) := by
  have hL := DepositHistory.made C address secrets hlegacy hcap
  have hfirst := firstPass_of gapLimit hI hS hL
  obtain ⟨hsecond, hkept, -⟩ := secondPass_of gapLimit hI hS hL hfirst
  have hmaps := (DepositHistory.nodup_index_lineages_iff C address secrets).mpr hnodup
  have hone := List.inj_on_of_nodup_map hmaps
  have hcomplete := firstPass_complete address hI hS hlegacy hcap hnodup hunbroken
  rw [(scanDeposits_perm _ _ _).congr_left]
  refine (List.perm_ext_iff_of_nodup (List.Nodup.of_map _ hsecond.nodup)
    (List.Nodup.of_map _ hmaps)).mpr fun l => ⟨fun hl => hsecond.subset hl, fun hl => ?_⟩
  rcases (DepositHistory.mem_lineages hl).1 with ⟨hv, hlt⟩ | ⟨hv, -⟩
  · unfold secondPass
    split
    · exact scanIndices_consecutive hI hS hL (v := .v1) hgap
        (fun l hl l' hl' _ heq => hone hl hl' heq) (fun i hi => DepositHistory.exists_legacy hi)
        hfirst.restart (by omega) (by omega) (by simp) (by simp) (fun _ => rfl) l hl hlt
    next hfull => exact hfirst.full hfull hl
  · exact hkept (hcomplete l hl hv)

include hgap in
/-- Recovery matches each deposit to the index, the version and the secret that made it, and each
once, exactly when the later indices are distinct and unbroken. -/
theorem scanDeposits_matches_iff (client : RecoveryClient F)
    (hlogs : client.deposits address = depositsOf (h.lineages C address secrets)) :
    (scanDeposits C address (client.deposits address) (some secrets.v2) secrets.v1 gapLimit
      hardCap).Perm (h.lineages C address secrets) ↔
    h.indices.Nodup ∧ Unbroken gapLimit h.indices := by
  rw [hlogs]
  exact ⟨nodup_unbroken_of_perm hI hS hlegacy hcap,
    fun hcond => perm_of_nodup_unbroken hI hgap hS hlegacy hcap hcond.1 hcond.2⟩

end Matches

end History

/-! ## A client, and secrets -/

def depositClient (address : Address) (L : List (Lineage F)) : RecoveryClient F where
  logs := L.map fun l => ⟨0, 0, .deposited address l.commitment l.amount⟩
  feeConfig := none
  pendingCredit := fun _ _ => none
  betRecords := fun _ => none

omit [Field F] [DecidableEq F] in
theorem deposits_depositClient (address : Address) (L : List (Lineage F)) :
    (depositClient address L).deposits address = depositsOf L := by
  rw [RecoveryClient.deposits, depositClient, List.filterMap_map, depositsOf,
    ← List.filterMap_eq_map]
  congr 1
  funext l
  simp

def paritySecrets : WalletSecrets ℚ where
  v1 := fun i => ((2 * i : ℕ) : ℚ)
  v2 := fun i => ((2 * i + 1 : ℕ) : ℚ)

theorem paritySecrets_distinct (hardCap : ℕ) : paritySecrets.Distinct hardCap := by
  intro v i w j _ _ heq
  have hcast : ∀ {a b : ℕ}, (a : ℚ) = b → a = b := fun h => Nat.cast_injective h
  cases v <;> cases w <;> have heq := hcast heq
  · exact ⟨rfl, by omega⟩
  · omega
  · omega
  · exact ⟨rfl, by omega⟩

def threeDeposits : DepositHistory := ⟨[5000000], [⟨0, fun _ => false, 1000000⟩,
  ⟨3, fun _ => false, 2000000⟩]⟩

theorem scanDeposits_matches_three :
    (scanDeposits encodingCircomlib 7
      ((depositClient 7 (threeDeposits.lineages encodingCircomlib 7 paritySecrets)).deposits 7)
      (some paritySecrets.v2) paritySecrets.v1 5 1000).Perm
      (threeDeposits.lineages encodingCircomlib 7 paritySecrets) :=
  (scanDeposits_matches_iff encodingEnv_ideal.injective (by decide) (paritySecrets_distinct 1000)
    (by decide) (by decide) _ (deposits_depositClient 7 _)).mpr
    ⟨by decide, fun i hi j hj => by
      have hle : ∀ i ∈ threeDeposits.indices, i < 5 := by decide
      have := hle i hi
      omega⟩

def fiveLegacy : DepositHistory :=
  ⟨List.replicate 5 1000000, [⟨0, fun _ => false, 1000000⟩]⟩

/-- The later deposit is at index 5, and the pass for it stops before index 5. -/
theorem later_deposit_lost :
    fiveLegacy.indices = [5] ∧
    (depositClient 7 (fiveLegacy.lineages encodingCircomlib 7 paritySecrets)).deposits 7 =
      depositsOf (fiveLegacy.lineages encodingCircomlib 7 paritySecrets) ∧
    ¬(scanDeposits encodingCircomlib 7
      ((depositClient 7 (fiveLegacy.lineages encodingCircomlib 7 paritySecrets)).deposits 7)
      (some paritySecrets.v2) paritySecrets.v1 5 1000).Perm
      (fiveLegacy.lineages encodingCircomlib 7 paritySecrets) := by
  refine ⟨by decide, deposits_depositClient 7 _, fun hperm => ?_⟩
  rw [deposits_depositClient] at hperm
  obtain ⟨k, hk, -, hlt⟩ := (nodup_unbroken_of_perm encodingEnv_ideal.injective
    (paritySecrets_distinct 1000) (by decide) (by decide) hperm).2 5 (by decide) 0 le_rfl
  have hfive : ∀ i ∈ fiveLegacy.indices, 5 ≤ i := by decide
  have := hfive k hk
  omega

end Polyshield.Wallet
