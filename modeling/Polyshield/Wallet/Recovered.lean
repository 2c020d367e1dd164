import Polyshield.Lib.SortedKinds
import Polyshield.Vault.Ledger
import Polyshield.Wallet.DepositCoverage
import Polyshield.Wallet.ReplayRun

/-!
# Recovery reproduces the wallet's notes

The logs that recovery reads are those of a run of the Vault, each at its own
position, so the timeline and the sales are those of the run. The discovery pass
records true balances, the final pass then knows what is merged into each
lineage, and what it emits are the unspent notes and the open bets of the wallet.
-/

namespace Polyshield.Wallet

open Merkle CommitmentMerkleTree

variable {F Proof Sig : Type} [Field F] [DecidableEq F] {C : Circomlib F} {E : Env F Proof Sig}

/-! ## The logs -/

/-- The logs of the client are the events of the chain, in their order on it. -/
structure ReadsLogs (client : RecoveryClient F) (events : List (Event F)) : Prop where
  events : client.logs.map Log.event = events
  ordered : client.logs.Pairwise fun a b =>
    a.block < b.block ∨ a.block = b.block ∧ a.logIndex < b.logIndex

section Logs

omit [Field F] [DecidableEq F]

variable {client : RecoveryClient F} {events : List (Event F)}

theorem Log.upTo_of_before {a b : Log F}
    (h : a.block < b.block ∨ a.block = b.block ∧ a.logIndex < b.logIndex) : a.upTo b = true := by
  simp only [Log.upTo, decide_eq_true_eq]
  omega

theorem Log.upTo_trans (a b c : Log F) (hab : a.upTo b = true) (hbc : b.upTo c = true) :
    a.upTo c = true := by
  simp only [Log.upTo, decide_eq_true_eq] at *
  omega

theorem Log.upTo_total (a b : Log F) : (a.upTo b || b.upTo a) = true := by
  simp only [Log.upTo, Bool.or_eq_true, decide_eq_true_eq]
  omega

theorem ReadsLogs.eq_of_upTo (h : ReadsLogs client events) {a b : Log F} (ha : a ∈ client.logs)
    (hb : b ∈ client.logs) (hab : a.upTo b = true) (hba : b.upTo a = true) : a = b := by
  have hpos : (client.logs.map fun log => (log.block, log.logIndex)).Nodup :=
    List.pairwise_map.mpr (h.ordered.imp fun hxy heq => by
      obtain ⟨hblock, hindex⟩ := Prod.mk.inj heq
      omega)
  simp only [Log.upTo, decide_eq_true_eq] at hab hba
  exact List.inj_on_of_nodup_map hpos ha hb (Prod.ext (by omega) (by omega))

theorem ReadsLogs.pairwise_upTo (h : ReadsLogs client events) :
    client.logs.Pairwise fun a b => a.upTo b = true :=
  h.ordered.imp fun hab => Log.upTo_of_before hab

theorem replayKind_isSome_iff {address : Address} {e : Event F} :
    (∃ k ∈ replayKinds, replayKind address e = some k) ↔ (replayKind address e).isSome := by
  constructor
  · rintro ⟨k, -, hk⟩
    simp [hk]
  · intro h
    obtain ⟨k, hk⟩ := Option.isSome_iff_exists.mp h
    exact ⟨k, by cases k <;> decide, hk⟩

/-- The timeline is what is replayed of the events, in their order. -/
theorem ReadsLogs.timeline (h : ReadsLogs client events) (address : Address) :
    client.timeline address = events.filter fun e => (replayKind address e).isSome := by
  have hsorted := mergeSort_kinds Log.upTo_trans Log.upTo_total
    (fun log : Log F => replayKind address log.event) h.pairwise_upTo
    (fun a ha b hb => h.eq_of_upTo ha hb) (by decide : replayKinds.Nodup)
  rw [RecoveryClient.timeline, hsorted, ← h.events, List.filter_map]
  congr 1
  exact List.filter_congr fun log _ => by
    rw [Bool.eq_iff_iff]
    simp [replayKind_isSome_iff]

/-- The replay over the timeline is that over the logs of the chain. -/
theorem ReadsLogs.foldl_timeline [Field F] [DecidableEq F] (h : ReadsLogs client events)
    (ctx : ReplayContext F) (r : Replay F) :
    (client.timeline ctx.address).foldl (replayEvent C ctx) r
      = events.foldl (replayLog C ctx) r := by
  rw [h.timeline, List.foldl_filter]
  rfl

theorem saleOf_of_not_isBetSold [DecidableEq F] {e : Event F} (he : isBetSold e = false) (b : F) :
    saleOf b e = none := by
  cases e <;> first | rfl | cases he

theorem ReadsLogs.buildSoldByBet [DecidableEq F] (h : ReadsLogs client events) (b : F) :
    client.buildSoldByBet b = events.filterMap (saleOf b) := by
  rw [RecoveryClient.buildSoldByBet, List.mergeSort_of_pairwise (h.pairwise_upTo.filter _),
    ← h.events, List.filterMap_map, List.filterMap_filter]
  refine List.filterMap_congr fun log _ => ?_
  simp only [Function.comp_apply]
  cases hsold : isBetSold log.event with
  | true => rfl
  | false => rw [saleOf_of_not_isBetSold hsold]; rfl

omit [DecidableEq F] in
theorem mem_deposits {address : Address} {c : F} {amount : ℕ} :
    (c, amount) ∈ client.deposits address ↔
      ∃ log ∈ client.logs, log.event = .deposited address c amount := by
  simp only [RecoveryClient.deposits, List.mem_filterMap]
  refine exists_congr fun log => and_congr_right fun _ => ?_
  cases log.event <;> simp

end Logs

/-! ## The wallet -/

omit [DecidableEq F] in
/-- Two lineages share a nullifier only if they share their secret. -/
theorem secret_eq_of_owns (hI : C.Injective) {l l' : Lineage F} {x : F} (hx : l.Owns C x)
    (hx' : l'.Owns C x) : l.secret = l'.secret := by
  obtain ⟨k, rfl⟩ := hx
  obtain ⟨k', hk'⟩ := hx'
  exact (hI.poseidon2_inj hk').1

/-- A wallet on a chain that recovery reads. Its deposits are those of the lineages, under secrets
that nobody else deposits with; settlements pay what the replay reads; and what is merged into a
lineage was never merged into itself, or is replayed before it. -/
structure WalletOn (E : Env F Proof Sig) (secrets : WalletSecrets F) (hardCap : ℕ)
    (address : Address) (L : List (Lineage F)) (client : RecoveryClient F)
    (ch : Chain F Proof Sig) : Prop where
  distinct : secrets.Distinct hardCap
  made : Made E.circomlib address secrets hardCap L
  indices : (L.map Lineage.index).Nodup
  deposits : client.deposits address = depositsOf L
  own : ∀ n ∈ hiddenNotes E.circomlib ch.state.tree, n.nonce = 0 → ∀ l ∈ L,
    n.secret = l.secret → n.owner = (address.toNat : F)
  logs : ReadsLogs client ch.state.logs
  reads : ReadsVault client ch.state
  settles : ∀ l ∈ L, ∀ x ∈ ch.trace, SettlesAsReplayed E.circomlib l x
  merges : ∀ l ∈ L, ∀ l' ∈ L, l' ≠ l → ∀ before nullifiers newCommitment after,
    ch.state.logs = before ++ .consolidated nullifiers newCommitment :: after →
      l.Owns E.circomlib (nullifiers 0) → ∀ j, l'.Owns E.circomlib (nullifiers j) →
        MergesInto E.circomlib l' before → l'.index < l.index

section Wallet

variable {secrets : WalletSecrets F} {hardCap : ℕ} {address : Address} {L : List (Lineage F)}
  {client : RecoveryClient F} {ch : Chain F Proof Sig}

namespace WalletOn

variable (hE : E.Ideal) (hch : NotesHistory E ch)
  (h : WalletOn E secrets hardCap address L client ch)

include h

omit [DecidableEq F] in
theorem secret_inj {l l' : Lineage F} (hl : l ∈ L) (hl' : l' ∈ L) (heq : l.secret = l'.secret) :
    l = l' := by
  have hsec : ∀ l ∈ L, l.secret = secrets.of l.version l.index := fun l hl =>
    congrArg Lineage.secret (h.made.own l hl)
  rw [hsec l hl, hsec l' hl'] at heq
  have hindex := (h.distinct _ _ _ _ (h.made.index_lt l hl) (h.made.index_lt l' hl') heq).2
  exact List.inj_on_of_nodup_map h.indices hl hl' hindex

omit [DecidableEq F] in
theorem commitment_eq {l : Lineage F} (hl : l ∈ L) :
    l.commitment = computeCommitment E.circomlib l.secret l.amount 0 address := by
  have hown := h.made.own l hl
  rw [show l.commitment = computeCommitment E.circomlib (secrets.of l.version l.index) l.amount 0
    address from congrArg Lineage.commitment hown, show l.secret = secrets.of l.version l.index from
    congrArg Lineage.secret hown]

omit [DecidableEq F] in
theorem deposited_iff {c : F} {amount : ℕ} : .deposited address c amount ∈ ch.state.logs ↔
    ∃ l ∈ L, l.commitment = c ∧ l.amount = amount := by
  have hmem : (c, amount) ∈ client.deposits address ↔ (c, amount) ∈ depositsOf L := by
    rw [h.deposits]
  rw [mem_deposits, depositsOf, List.mem_map] at hmem
  rw [← h.logs.events, List.mem_map, hmem]
  exact exists_congr fun l => and_congr_right fun _ => Prod.ext_iff

include hE hch

theorem lineage_of_first {n : Polyshield.Note F}
    (hn : n ∈ hiddenNotes E.circomlib ch.state.tree) (h0 : n.nonce = 0)
    (howner : n.owner = (address.toNat : F)) :
    ∃ l ∈ L, n.secret = l.secret ∧ n.balance = l.amount := by
  obtain ⟨depositor, hdep, hmem⟩ := hch.deposited n hn h0
  have heq : depositor = address := BitVec.eq_of_toNat_eq (hE.wide.eq
    (depositor.isLt.trans (by decide)) (address.isLt.trans (by decide)) (hdep.symm.trans howner))
  rw [heq] at hmem
  obtain ⟨l, hl, hcom, hamount⟩ := h.deposited_iff.mp hmem
  rw [h.commitment_eq hl] at hcom
  exact ⟨l, hl, (hE.injective.poseidon4_inj hcom).1.symm, hamount.symm⟩

/-- A committed note of the address is of a lineage. -/
theorem lineage_of_owner {n : Polyshield.Note F}
    (hn : n ∈ hiddenNotes E.circomlib ch.state.tree) (howner : n.owner = (address.toNat : F)) :
    ∃ l ∈ L, n.secret = l.secret := by
  obtain ⟨m, hm, h0, hsec, hmowner⟩ := hch.chain n hn 0 (Nat.zero_le _)
  obtain ⟨l, hl, hsec', -⟩ := h.lineage_of_first hE hch hm h0 (hmowner.trans howner)
  exact ⟨l, hl, hsec.symm.trans hsec'⟩

omit hE in
theorem owner_of_lineage {l : Lineage F} (hl : l ∈ L) {n : Polyshield.Note F}
    (hn : n ∈ hiddenNotes E.circomlib ch.state.tree) (hsec : n.secret = l.secret) :
    n.owner = (address.toNat : F) := by
  obtain ⟨m, hm, h0, hmsec, hmowner⟩ := hch.chain n hn 0 (Nat.zero_le _)
  rw [← hmowner]
  exact h.own m hm h0 l hl (hmsec.trans hsec)

/-- The deposit of a lineage is its first note, and the only one. -/
theorem ownDeposit {l : Lineage F} (hl : l ∈ L) : OwnDeposit E.circomlib ch.state address l := by
  refine ⟨h.commitment_eq hl, fun n hn hsec h0 => ?_⟩
  have howner := h.own n hn h0 l hl hsec
  obtain ⟨l', hl', hsec', hbal⟩ := h.lineage_of_first hE hch hn h0 howner
  obtain rfl := h.secret_inj hl hl' (hsec.symm.trans hsec')
  exact ⟨howner, hbal⟩

theorem exists_first {l : Lineage F} (hl : l ∈ L) :
    ∃ n ∈ hiddenNotes E.circomlib ch.state.tree, n.secret = l.secret := by
  obtain ⟨n, hn, -, -, hcom, -⟩ := hch.committed _ _ _ (h.deposited_iff.mpr ⟨l, hl, rfl, rfl⟩)
  refine ⟨n, hn, ?_⟩
  rw [h.commitment_eq hl] at hcom
  exact (hE.injective.poseidon4_inj hcom).1

theorem unique {l : Lineage F} (hl : l ∈ L) {n n' : Polyshield.Note F}
    (hn : n ∈ hiddenNotes E.circomlib ch.state.tree)
    (hn' : n' ∈ hiddenNotes E.circomlib ch.state.tree) (hsec : n.secret = l.secret)
    (hsec' : n'.secret = l.secret) (hnon : n.nonce = n'.nonce) : n = n' := by
  refine hch.unique l.secret (fun a ha b hb hsa hsb h0 h0' => ?_) n hn n' hn' hsec hsec' hnon
  obtain ⟨howner, hbal⟩ := (h.ownDeposit hE hch hl).first a ha hsa h0
  obtain ⟨howner', hbal'⟩ := (h.ownDeposit hE hch hl).first b hb hsb h0'
  exact Note.commitment_inj hE.injective hE.wide (by
    rw [Polyshield.Note.commitment, Polyshield.Note.commitment, hsa, hsb, hbal, hbal', h0, h0',
      howner, howner'])

/-- What is merged into a lineage is of a lineage. -/
theorem lineage_of_merged {l : Lineage F} (hl : l ∈ L) {nullifiers : Fin 4 → F} {c : F}
    (hmem : .consolidated nullifiers c ∈ ch.state.logs) (hown : l.Owns E.circomlib (nullifiers 0))
    {j : Fin 4} (hj : nullifiers j ≠ 0) : ∃ l' ∈ L, l'.Owns E.circomlib (nullifiers j) := by
  obtain ⟨owner, hall⟩ := hch.merged nullifiers c hmem
  have hne : nullifiers 0 ≠ 0 := by
    obtain ⟨k, hk⟩ := hown
    rw [hk]
    exact hE.injective.poseidon2_ne_zero _ _
  obtain ⟨n₀, hn₀, hnul₀, howner₀⟩ := hall 0 hne
  have hsec₀ : n₀.secret = l.secret := by
    rw [← hnul₀] at hown
    by_contra hsec
    exact not_owns hE.injective hsec hown
  obtain ⟨n, hn, hnul, howner⟩ := hall j hj
  obtain ⟨l', hl', hsec⟩ := h.lineage_of_owner hE hch hn
    (howner.trans (howner₀.symm.trans (h.owner_of_lineage hch hl hn₀ hsec₀)))
  exact ⟨l', hl', hnul ▸ owns_nullifier hsec⟩

end WalletOn

/-! ## The passes -/

/-- A recovered note is a committed one of the lineage. -/
structure FreeNote.Shows (C : Circomlib F) (f : FreeNote F) (l : Lineage F)
    (n : Polyshield.Note F) : Prop where
  depositIndex : f.depositIndex = l.index
  derivationVersion : f.derivationVersion = l.version
  secret : n.secret = l.secret
  balance : f.balance = n.balance
  nonce : f.nonce = n.nonce
  commitment : f.commitment = n.commitment C
  nullifier : f.nullifier = n.nullifier C

/-- The free notes that a wallet can spend. -/
def StoredNote.unspent? : StoredNote F → Option (FreeNote F)
  | .free f => if f.spent = false then some f else none
  | .receipt _ => none

def StoredNote.receipt? : StoredNote F → Option (Receipt F)
  | .free _ => none
  | .receipt rc => some rc

/-- The recovered notes of some lineages: their unspent notes, and the receipts of their bets,
each once. -/
structure Reproduces (C : Circomlib F) (s : VaultState F) (L : List (Lineage F))
    (notes : List (StoredNote F)) : Prop where
  free : ∀ f ∈ notes.filterMap StoredNote.unspent?, ∃ l ∈ L, ∃ n ∈ hiddenNotes C s.tree,
    s.spent (n.nullifier C) = false ∧ 0 < n.balance ∧ f.Shows C l n
  every : ∀ l ∈ L, ∀ n ∈ hiddenNotes C s.tree, n.secret = l.secret →
    s.spent (n.nullifier C) = false → 0 < n.balance →
      ∃ f ∈ notes.filterMap StoredNote.unspent?, f.Shows C l n
  once : ((notes.filterMap StoredNote.unspent?).map FreeNote.nullifier).Nodup
  receipt : ∀ rc ∈ notes.filterMap StoredNote.receipt?, ∃ l ∈ L,
    l.Owns C rc.nullifierOfBet ∧ rc.nullifierOfBet ∈ s.betList ∧ rc.Shows (s.bet rc.nullifierOfBet)
  bets : ∀ l ∈ L, ∀ b ∈ s.betList, l.Owns C b →
    ∃ rc ∈ notes.filterMap StoredNote.receipt?, rc.nullifierOfBet = b
  receiptOnce : ((notes.filterMap StoredNote.receipt?).map Receipt.nullifierOfBet).Nodup

omit [DecidableEq F] in
theorem reproduces_nil (C : Circomlib F) (s : VaultState F) : Reproduces C s [] [] := by
  constructor <;> simp

omit [DecidableEq F] in
theorem Reproduces.of_perm {s : VaultState F} {L L' : List (Lineage F)}
    {notes : List (StoredNote F)} (h : Reproduces C s L notes) (hperm : L.Perm L') :
    Reproduces C s L' notes where
  free := fun f hf => by
    obtain ⟨l, hl, hrest⟩ := h.free f hf
    exact ⟨l, hperm.subset hl, hrest⟩
  every := fun l hl => h.every l (hperm.symm.subset hl)
  once := h.once
  receipt := fun rc hrc => by
    obtain ⟨l, hl, hrest⟩ := h.receipt rc hrc
    exact ⟨l, hperm.subset hl, hrest⟩
  bets := fun l hl => h.bets l (hperm.symm.subset hl)
  receiptOnce := h.receiptOnce

omit [Field F] [DecidableEq F] in
theorem mem_unspent {notes : List (StoredNote F)} {f : FreeNote F} :
    f ∈ notes.filterMap StoredNote.unspent? ↔ .free f ∈ notes ∧ f.spent = false := by
  rw [List.mem_filterMap]
  constructor
  · rintro ⟨note, hmem, hf⟩
    cases note with
    | free f' =>
      obtain ⟨hs, heq⟩ := Option.ite_none_right_eq_some.mp hf
      obtain rfl := Option.some.inj heq
      exact ⟨hmem, hs⟩
    | receipt rc => cases hf
  · rintro ⟨hmem, hs⟩
    exact ⟨_, hmem, if_pos hs⟩

omit [Field F] [DecidableEq F] in
theorem mem_receipts {notes : List (StoredNote F)} {rc : Receipt F} :
    rc ∈ notes.filterMap StoredNote.receipt? ↔ .receipt rc ∈ notes := by
  rw [List.mem_filterMap]
  constructor
  · rintro ⟨note, hmem, hrc⟩
    cases note with
    | free f => cases hrc
    | receipt rc' =>
      obtain rfl := Option.some.inj hrc
      exact hmem
  · exact fun hmem => ⟨_, hmem, rfl⟩

omit [DecidableEq F] in
/-- The lineages do not share a secret, so their notes and bets are different. -/
theorem Reproduces.append (hE : E.Ideal) {s : VaultState F} {done : List (Lineage F)}
    {l : Lineage F} {notes notes' : List (StoredNote F)}
    (h : Reproduces E.circomlib s done notes) (h' : Reproduces E.circomlib s [l] notes')
    (hne : ∀ k ∈ done, k.secret ≠ l.secret) :
    Reproduces E.circomlib s (done ++ [l]) (notes ++ notes') where
  free := fun f hf => by
    rw [List.filterMap_append] at hf
    rcases List.mem_append.mp hf with hf | hf
    · obtain ⟨k, hk, hrest⟩ := h.free f hf
      exact ⟨k, List.mem_append_left _ hk, hrest⟩
    · obtain ⟨k, hk, hrest⟩ := h'.free f hf
      exact ⟨k, List.mem_append_right _ hk, hrest⟩
  every := fun k hk n hn hsec hun hpos => by
    rw [List.filterMap_append]
    rcases List.mem_append.mp hk with hk | hk
    · obtain ⟨f, hf, hshows⟩ := h.every k hk n hn hsec hun hpos
      exact ⟨f, List.mem_append_left _ hf, hshows⟩
    · obtain ⟨f, hf, hshows⟩ := h'.every k hk n hn hsec hun hpos
      exact ⟨f, List.mem_append_right _ hf, hshows⟩
  once := by
    rw [List.filterMap_append, List.map_append, List.nodup_append]
    refine ⟨h.once, h'.once, fun x hx y hy heq => ?_⟩
    obtain ⟨f, hf, rfl⟩ := List.mem_map.mp hx
    obtain ⟨f', hf', rfl⟩ := List.mem_map.mp hy
    obtain ⟨k, hk, n, -, -, -, hshows⟩ := h.free f hf
    obtain ⟨k', hk', n', -, -, -, hshows'⟩ := h'.free f' hf'
    obtain rfl := List.mem_singleton.mp hk'
    rw [hshows.nullifier, hshows'.nullifier] at heq
    have hsec := (Note.nullifier_inj hE.injective hE.wide heq).1
    exact hne k hk (hshows.secret.symm.trans (hsec.trans hshows'.secret))
  receipt := fun rc hrc => by
    rw [List.filterMap_append] at hrc
    rcases List.mem_append.mp hrc with hrc | hrc
    · obtain ⟨k, hk, hrest⟩ := h.receipt rc hrc
      exact ⟨k, List.mem_append_left _ hk, hrest⟩
    · obtain ⟨k, hk, hrest⟩ := h'.receipt rc hrc
      exact ⟨k, List.mem_append_right _ hk, hrest⟩
  bets := fun k hk b hb hown => by
    rw [List.filterMap_append]
    rcases List.mem_append.mp hk with hk | hk
    · obtain ⟨rc, hrc, hbet⟩ := h.bets k hk b hb hown
      exact ⟨rc, List.mem_append_left _ hrc, hbet⟩
    · obtain ⟨rc, hrc, hbet⟩ := h'.bets k hk b hb hown
      exact ⟨rc, List.mem_append_right _ hrc, hbet⟩
  receiptOnce := by
    rw [List.filterMap_append, List.map_append, List.nodup_append]
    refine ⟨h.receiptOnce, h'.receiptOnce, fun x hx y hy heq => ?_⟩
    obtain ⟨rc, hrc, rfl⟩ := List.mem_map.mp hx
    obtain ⟨rc', hrc', rfl⟩ := List.mem_map.mp hy
    obtain ⟨k, hk, hown, -⟩ := h.receipt rc hrc
    obtain ⟨k', hk', hown', -⟩ := h'.receipt rc' hrc'
    obtain rfl := List.mem_singleton.mp hk'
    exact hne k hk (secret_eq_of_owns hE.injective hown (heq ▸ hown'))

omit [Field F] [DecidableEq F] in
theorem Replay.Indexed.receiptOnce {r : Replay F} (h : r.Indexed) :
    ((r.recovered.filterMap StoredNote.receipt?).map Receipt.nullifierOfBet).Nodup := by
  refine List.pairwise_map.mpr (List.pairwise_filterMap.mpr
    (List.pairwise_iff_getElem.mpr fun i j hi hj hij rc hrc rc' hrc' heq => ?_))
  have hat : ∀ (k : ℕ) (hk : k < r.recovered.length) (rc : Receipt F),
      r.recovered[k].receipt? = some rc →
        r.receiptByBetNullifier rc.nullifierOfBet = some k := by
    intro k hk rc hrc
    refine (h _ k).mpr ⟨rc, ?_, rfl⟩
    rw [List.getElem?_eq_getElem hk]
    cases hnote : r.recovered[k] with
    | free f =>
      rw [hnote] at hrc
      cases hrc
    | receipt rc' =>
      rw [hnote] at hrc
      obtain rfl := Option.some.inj hrc
      rfl
  have hi' := hat i hi rc hrc
  have hj' := hat j hj rc' hrc'
  rw [heq, hj'] at hi'
  exact absurd (Option.some.inj hi') hij.ne'

/-- The replay of a lineage, when it is at its end, has the lineage's notes. -/
theorem Follows.reproduces (hch : NotesHistory E ch) {l : Lineage F} {queue : F → List Sale}
    {r : Replay F} (h : Follows E.circomlib ch.state address l queue r)
    (hfirst : ∃ n ∈ hiddenNotes E.circomlib ch.state.tree, n.secret = l.secret) :
    Reproduces E.circomlib ch.state [l] (r.finish l.version).recovered := by
  obtain ⟨n, hn, hsec, hnon⟩ := h.current.present (.inl hfirst)
  obtain ⟨howner, hcom, hbal⟩ := h.current.note n hn hsec hnon
  have hnul : n.nullifier E.circomlib = r.state.nullifier := by
    rw [h.current.nullifier, computeNullifier, ← hsec, ← hnon]
    rfl
  have hold : r.recovered.filterMap StoredNote.unspent? = [] := by
    refine List.eq_nil_iff_forall_not_mem.mpr fun f hf => ?_
    obtain ⟨hmem, hs⟩ := mem_unspent.mp hf
    exact absurd (hs.symm.trans (h.receipts.spent f hmem)) (by decide)
  have hunspent : (r.finish l.version).recovered.filterMap StoredNote.unspent?
      = if r.state.spent = false ∧ 0 < r.state.balance then
          [⟨r.state.kind, r.state.depositIndex, r.state.balance, r.state.nonce, r.state.commitment,
            r.state.nullifier, r.state.spent, l.version⟩] else [] := by
    unfold Replay.finish
    split
    next hgo => simp [Replay.pushFree, hold, StoredNote.unspent?, hgo.1]
    next => exact hold
  have hreceipts : (r.finish l.version).recovered.filterMap StoredNote.receipt?
      = r.recovered.filterMap StoredNote.receipt? := by
    unfold Replay.finish
    split
    · simp [Replay.pushFree, StoredNote.receipt?]
    · rfl
  refine ⟨fun f hf => ?_, fun k hk m hm hmsec hun hpos => ?_, ?_, fun rc hrc => ?_,
    fun k hk b hb hown => ?_, ?_⟩
  · rw [hunspent] at hf
    split at hf
    next hgo =>
      obtain rfl := List.mem_singleton.mp hf
      have hb := hbal hgo.1
      refine ⟨l, List.mem_singleton_self l, n, hn, by rw [hnul, h.current.spent, hgo.1], ?_,
        h.current.depositIndex, rfl, hsec, hb, hnon.symm, hcom, hnul.symm⟩
      have := hgo.2
      omega
    next => cases hf
  · obtain rfl := List.mem_singleton.mp hk
    obtain ⟨hmnon, hmnul, hst, hmbal, -, hmcom⟩ := h.current.of_unspent hch hm hmsec hun
    rw [hunspent, if_pos ⟨hst, by omega⟩]
    exact ⟨_, List.mem_singleton_self _, h.current.depositIndex, rfl, hmsec, hmbal, hmnon.symm,
      hmcom, hmnul.symm⟩
  · rw [hunspent]
    split <;> simp
  · rw [hreceipts] at hrc
    exact ⟨l, List.mem_singleton_self l, h.receipts.shows rc (mem_receipts.mp hrc)⟩
  · obtain rfl := List.mem_singleton.mp hk
    obtain ⟨rc, hrc, hbet⟩ := h.receipts.all b hb hown
    exact ⟨rc, hreceipts ▸ mem_receipts.mpr hrc, hbet⟩
  · rw [hreceipts]
    exact h.receipts.indexed.receiptOnce

/-- What both passes keep: the recorded balances are true, and no sale is taken of the bets of the
lineages to come. -/
structure PassInv (E : Env F Proof Sig) (ch : Chain F Proof Sig) (L done : List (Lineage F))
    (p : Pass F) : Prop where
  trueBalances : TrueBalances E.circomlib ch.state p.balanceByNullifier
  sales : ∀ l ∈ L, l ∉ done → ∀ b, l.Owns E.circomlib b →
    p.soldByBet b = ch.state.logs.filterMap (saleOf b)

omit [Field F] [DecidableEq F] in
@[simp] theorem soldByBet_finish (r : Replay F) (version : DerivationVersion) :
    (r.finish version).soldByBet = r.soldByBet := by
  unfold Replay.finish
  split <;> rfl

omit [Field F] [DecidableEq F] in
@[simp] theorem balanceByNullifier_finish (r : Replay F) (version : DerivationVersion) :
    (r.finish version).balanceByNullifier = r.balanceByNullifier := by
  unfold Replay.finish
  split <;> rfl

theorem replayLineage_eq {events : List (Event F)} (h : ReadsLogs client events)
    (address : Address) (mode : ReplayMode) (p : Pass F) (l : Lineage F) :
    replayLineage C client address mode p l =
      let r := events.foldl (replayLog C ⟨client, address, mode, l.index, l.version⟩)
        (startReplay C l p.soldByBet p.balanceByNullifier)
      ⟨p.recovered ++ (r.finish l.version).recovered, r.soldByBet, r.balanceByNullifier⟩ := by
  simp only [replayLineage, soldByBet_finish, balanceByNullifier_finish]
  rw [← h.foldl_timeline ⟨client, address, mode, l.index, l.version⟩]

section Passes

variable (hE : E.Ideal) {args : InitArgs} {s₀ : VaultState F} (hdeploy : deploy E args = .ok s₀)
  (as : List (Action F Proof Sig))
  (h : WalletOn E secrets hardCap address L client (runActions E s₀ as))

include hE hdeploy h

theorem PassInv.replayLineage (mode : ReplayMode) {done : List (Lineage F)} {p : Pass F}
    (hinv : PassInv E (runActions E s₀ as) L done p) {l : Lineage F} (hl : l ∈ L) (hnew : l ∉ done)
    (hneeds : mode = .final → ∀ nullifiers newCommitment,
      .consolidated nullifiers newCommitment ∈ (runActions E s₀ as).state.logs →
        l.Owns E.circomlib (nullifiers 0) → ∀ j, nullifiers j ≠ 0 →
          l.Owns E.circomlib (nullifiers j) ∨ (p.balanceByNullifier (nullifiers j)).isSome) :
    ∃ r, replayLineage E.circomlib client address mode p l
        = ⟨p.recovered ++ (r.finish l.version).recovered, r.soldByBet, r.balanceByNullifier⟩ ∧
      Replayed E.circomlib ⟨client, address, mode, l.index, l.version⟩ l p.soldByBet
        p.balanceByNullifier (runActions E s₀ as).state r ∧
      PassInv E (runActions E s₀ as) L (done ++ [l])
        (replayLineage E.circomlib client address mode p l) := by
  have hch := notesHistory_runActions hE hdeploy as
  have hrun := replayed_runActions hE hdeploy as
    (⟨h.ownDeposit hE hch hl, h.reads, fun b hown => by rw [hinv.sales l hl hnew b hown],
      h.settles l hl, hinv.trueBalances, hneeds⟩ :
      Replayable E ⟨client, address, mode, l.index, l.version⟩ l p.soldByBet
        p.balanceByNullifier (runActions E s₀ as))
  refine ⟨_, replayLineage_eq h.logs address mode p l, hrun, ?_⟩
  rw [replayLineage_eq h.logs]
  refine ⟨hrun.recorded.true hE.injective hE.wide hinv.trueBalances fun n hn n' hn' hsec hsec' =>
    h.unique hE hch hl hn hn' hsec hsec', fun l' hl' hnot b hown => ?_⟩
  have hnot' : l' ∉ done ∧ l' ≠ l := by simpa [not_or] using hnot
  rw [← hinv.sales l' hl' hnot'.1 b hown]
  exact hrun.others b fun hown' =>
    hnot'.2 (h.secret_inj hl' hl (secret_eq_of_owns hE.injective hown hown'))

end Passes

/-- The discovery pass has the balance of every note that was merged, up to the first note merged
into its own lineage. -/
structure Discovered (E : Env F Proof Sig) (ch : Chain F Proof Sig) (L done : List (Lineage F))
    (p : Pass F) : Prop extends PassInv E ch L done p where
  covers : ∀ l ∈ done, ∀ before nullifiers newCommitment after,
    ch.state.logs = before ++ .consolidated nullifiers newCommitment :: after →
      ¬MergesInto E.circomlib l before → ∀ j, l.Owns E.circomlib (nullifiers j) →
        (p.balanceByNullifier (nullifiers j)).isSome

/-- The final pass has the balance of every merged note of the lineages behind it, and their
notes. -/
structure Finalized (E : Env F Proof Sig) (ch : Chain F Proof Sig) (L : List (Lineage F))
    (known : F → Option ℤ) (done : List (Lineage F)) (p : Pass F) : Prop
    extends PassInv E ch L done p where
  keeps : ∀ x, (known x).isSome → (p.balanceByNullifier x).isSome
  covers : ∀ l ∈ done, ∀ nullifiers newCommitment,
    .consolidated nullifiers newCommitment ∈ ch.state.logs → ∀ j,
      l.Owns E.circomlib (nullifiers j) → (p.balanceByNullifier (nullifiers j)).isSome
  notes : Reproduces E.circomlib ch.state done p.recovered

section Folds

variable (hE : E.Ideal) {args : InitArgs} {s₀ : VaultState F} (hdeploy : deploy E args = .ok s₀)
  (as : List (Action F Proof Sig))
  (h : WalletOn E secrets hardCap address L client (runActions E s₀ as))

include hE hdeploy h

theorem Discovered.replayLineage {done : List (Lineage F)} {p : Pass F}
    (hinv : Discovered E (runActions E s₀ as) L done p) {l : Lineage F} (hl : l ∈ L)
    (hnew : l ∉ done) :
    Discovered E (runActions E s₀ as) L (done ++ [l])
      (replayLineage E.circomlib client address .discover p l) := by
  obtain ⟨r, heq, hrun, hpass⟩ :=
    hinv.toPassInv.replayLineage hE hdeploy as h .discover hl hnew nofun
  refine ⟨hpass, fun k hk before ns c after hsplit hnot j hown => ?_⟩
  rw [heq]
  rcases List.mem_append.mp hk with hk | hk
  · exact hrun.recorded.isSome (hinv.covers k hk before ns c after hsplit hnot j hown)
  · obtain rfl := List.mem_singleton.mp hk
    exact hrun.covers before ns c after hsplit (fun _ => hnot) j hown

theorem Discovered.foldl {done rest : List (Lineage F)} {p : Pass F}
    (hinv : Discovered E (runActions E s₀ as) L done p) (hsub : rest ⊆ L)
    (hnodup : (done ++ rest).Nodup) :
    Discovered E (runActions E s₀ as) L (done ++ rest)
      (rest.foldl (Wallet.replayLineage E.circomlib client address .discover) p) := by
  induction rest generalizing done p with
  | nil =>
    rw [List.append_nil]
    exact hinv
  | cons l rest ih =>
    have hnew : l ∉ done := fun hmem =>
      (List.nodup_append.mp hnodup).2.2 l hmem l (List.mem_cons_self ..) rfl
    have hstep := hinv.replayLineage hE hdeploy as h (hsub (List.mem_cons_self ..)) hnew
    rw [List.append_cons] at hnodup ⊢
    exact ih hstep (fun x hx => hsub (List.mem_cons_of_mem l hx)) hnodup

/-- The final pass knows what is merged into the next lineage. -/
theorem Finalized.needs {ls done rest : List (Lineage F)} {l : Lineage F} {d p : Pass F}
    (hd : Discovered E (runActions E s₀ as) L ls d) (hls : ls = done ++ l :: rest)
    (hperm : ls.Perm L) (hsorted : ls.Pairwise fun a b => a.index ≤ b.index)
    (hinv : Finalized E (runActions E s₀ as) L d.balanceByNullifier done p)
    (nullifiers : Fin 4 → F) (c : F)
    (hmem : .consolidated nullifiers c ∈ (runActions E s₀ as).state.logs)
    (hown : l.Owns E.circomlib (nullifiers 0)) (j : Fin 4) (hj : nullifiers j ≠ 0) :
    l.Owns E.circomlib (nullifiers j) ∨ (p.balanceByNullifier (nullifiers j)).isSome := by
  have hch := notesHistory_runActions hE hdeploy as
  have hl : l ∈ L := hperm.subset (by simp [hls])
  obtain ⟨l', hl', hown'⟩ := h.lineage_of_merged hE hch hl hmem hown hj
  by_cases heq : l' = l
  · exact .inl (heq ▸ hown')
  · obtain ⟨before, after, hsplit⟩ := List.append_of_mem hmem
    refine .inr ?_
    by_cases hmerged : MergesInto E.circomlib l' before
    · -- It is replayed already.
      have hlt := h.merges l hl l' hl' heq before nullifiers c after hsplit hown j hown' hmerged
      refine hinv.covers l' ?_ nullifiers c hmem j hown'
      have hmem' : l' ∈ done ++ l :: rest := hls ▸ hperm.symm.subset hl'
      rw [hls] at hsorted
      rcases List.mem_append.mp hmem' with hdone | hrest
      · exact hdone
      · have hle := (List.pairwise_append.mp hsorted).2.1
        rcases List.mem_cons.mp hrest with rfl | hrest
        · exact absurd rfl heq
        · have := List.rel_of_pairwise_cons hle hrest
          omega
    · exact hinv.keeps _ (hd.covers l' (hperm.symm.subset hl') before nullifiers c after hsplit
        hmerged j hown')

theorem Finalized.replayLineage {ls done rest : List (Lineage F)} {l : Lineage F} {d p : Pass F}
    (hd : Discovered E (runActions E s₀ as) L ls d) (hls : ls = done ++ l :: rest)
    (hperm : ls.Perm L) (hsorted : ls.Pairwise fun a b => a.index ≤ b.index) (hnew : l ∉ done)
    (hinv : Finalized E (runActions E s₀ as) L d.balanceByNullifier done p) :
    Finalized E (runActions E s₀ as) L d.balanceByNullifier (done ++ [l])
      (replayLineage E.circomlib client address .final p l) := by
  have hch := notesHistory_runActions hE hdeploy as
  have hl : l ∈ L := hperm.subset (by simp [hls])
  obtain ⟨r, heq, hrun, hpass⟩ :=
    hinv.toPassInv.replayLineage hE hdeploy as h .final hl hnew
      fun _ => Finalized.needs hE hdeploy as h hd hls hperm hsorted hinv
  refine ⟨hpass, fun x hx => ?_, fun k hk ns c hmem j hown => ?_, ?_⟩ <;> rw [heq]
  · exact hrun.recorded.isSome (hinv.keeps x hx)
  · rcases List.mem_append.mp hk with hk | hk
    · exact hrun.recorded.isSome (hinv.covers k hk ns c hmem j hown)
    · obtain rfl := List.mem_singleton.mp hk
      obtain ⟨before, after, hsplit⟩ := List.append_of_mem hmem
      exact hrun.covers before ns c after hsplit nofun j hown
  · refine hinv.notes.append hE ?_ fun k hk hsec => ?_
    · exact (hrun.follows (.inl rfl)).reproduces hch (h.exists_first hE hch hl)
    · have hkL : k ∈ L := hperm.subset (by rw [hls]; exact List.mem_append_left _ hk)
      exact hnew (h.secret_inj hkL hl hsec ▸ hk)

theorem Finalized.foldl {ls done rest : List (Lineage F)} {d p : Pass F}
    (hd : Discovered E (runActions E s₀ as) L ls d) (hls : ls = done ++ rest)
    (hperm : ls.Perm L) (hsorted : ls.Pairwise fun a b => a.index ≤ b.index) (hnodup : ls.Nodup)
    (hinv : Finalized E (runActions E s₀ as) L d.balanceByNullifier done p) :
    Finalized E (runActions E s₀ as) L d.balanceByNullifier ls
      (rest.foldl (Wallet.replayLineage E.circomlib client address .final) p) := by
  induction rest generalizing done p with
  | nil =>
    rw [hls, List.append_nil]
    exact hinv
  | cons l rest ih =>
    have hnew : l ∉ done := fun hmem =>
      (List.nodup_append.mp (hls ▸ hnodup)).2.2 l hmem l (List.mem_cons_self ..) rfl
    have hstep := Finalized.replayLineage hE hdeploy as h hd hls hperm hsorted hnew hinv
    exact ih (by rw [hls, List.append_cons]) hstep

end Folds

end Wallet

/-- The scan leaves the lineages in the order of their indices. -/
theorem scanDeposits_sorted (C : Circomlib F) (address : Address) (deposits : List (F × ℕ))
    (v2 : Option (ℕ → F)) (v1 : ℕ → F) (gapLimit hardCap : ℕ) :
    (scanDeposits C address deposits v2 v1 gapLimit hardCap).Pairwise
      fun a b => a.index ≤ b.index := by
  unfold scanDeposits
  refine (List.pairwise_mergeSort (fun a b c hab hbc => ?_) (fun a b => ?_) _).imp fun hab => ?_
  · simp only [decide_eq_true_eq] at hab hbc ⊢
    exact hab.trans hbc
  · simpa using Nat.le_total a.index b.index
  · simpa using hab

/-- From the logs of any run, a few reads and the wallet's secrets, recovery emits the unspent notes
of the wallet and the receipts of its bets, each once and with its values on the chain, if no index
of a deposit is used twice or lies behind a gap, the settlements pay what the replay reads, and
what is merged into a lineage was not merged into itself or has the lower index. -/
theorem recovery_reproduces_notes (hE : E.Ideal) {args : InitArgs} {s₀ : VaultState F}
    (hdeploy : deploy E args = .ok s₀) (as : List (Action F Proof Sig))
    {secrets : WalletSecrets F} {hardCap gapLimit : ℕ} {address : Address} (d : DepositHistory)
    {client : RecoveryClient F} (hgap : 0 < gapLimit) (hlegacy : d.legacy.length ≤ hardCap)
    (hcap : ∀ i ∈ d.indices, i < hardCap) (hunbroken : Unbroken gapLimit d.indices)
    (h : WalletOn E secrets hardCap address (d.lineages E.circomlib address secrets) client
      (runActions E s₀ as)) :
    Reproduces E.circomlib (runActions E s₀ as).state (d.lineages E.circomlib address secrets)
      (recoverNotesWithClient E.circomlib address (some secrets.v2) secrets.v1 client gapLimit
        hardCap) := by
  have hnodup := (DepositHistory.nodup_index_lineages_iff E.circomlib address secrets).mp h.indices
  have hperm : (scanDeposits E.circomlib address (client.deposits address) (some secrets.v2)
      secrets.v1 gapLimit hardCap).Perm (d.lineages E.circomlib address secrets) := by
    rw [h.deposits]
    exact perm_of_nodup_unbroken hE.injective hgap h.distinct hlegacy hcap hnodup hunbroken
  generalize hls : scanDeposits E.circomlib address (client.deposits address) (some secrets.v2)
    secrets.v1 gapLimit hardCap = ls at hperm
  have hsorted : ls.Pairwise fun a b => a.index ≤ b.index := hls ▸ scanDeposits_sorted ..
  have hdistinct : ls.Nodup :=
    List.Nodup.of_map _ ((hperm.map Lineage.index).nodup_iff.mpr h.indices)
  have hd : Discovered E (runActions E s₀ as) (d.lineages E.circomlib address secrets) ([] ++ ls)
      (ls.foldl (replayLineage E.circomlib client address .discover)
        ⟨[], client.buildSoldByBet, fun _ => none⟩) :=
    Discovered.foldl hE hdeploy as h
      ⟨⟨fun _ _ _ => nofun, fun _ _ _ b _ => h.logs.buildSoldByBet b⟩, by simp⟩
      hperm.subset hdistinct
  have hf := Finalized.foldl hE hdeploy as h hd rfl hperm hsorted hdistinct
    (⟨⟨hd.trueBalances, fun _ _ _ b _ => h.logs.buildSoldByBet b⟩, fun _ hx => hx, by simp,
      reproduces_nil _ _⟩ : Finalized E (runActions E s₀ as) _ _ [] ⟨[], client.buildSoldByBet, _⟩)
  rw [recoverNotesWithClient, hls]
  exact hf.notes.of_perm hperm

/-! ## A bet and a merge that are recovered -/

section ChainClient

omit [Field F] [DecidableEq F]

/-- A client that reads the logs and the state of a chain, an event a block. -/
def chainClient (s : VaultState F) : RecoveryClient F where
  logs := s.logs.zipIdx.map fun e => ⟨e.2, 0, e.1⟩
  feeConfig := some s.feeConfig
  pendingCredit key side := some (s.pendingCredit key side)
  betRecords b := some (s.betRecords b)

theorem readsLogs_chainClient (s : VaultState F) : ReadsLogs (chainClient s) s.logs := by
  refine ⟨?_, ?_⟩
  · rw [chainClient, List.map_map]
    exact List.zipIdx_map_fst ..
  · refine List.pairwise_map.mpr ((List.pairwise_iff_getElem.mpr ?_).imp fun hab => .inl hab)
    intro i j hi hj hij
    simpa using hij

theorem readsVault_chainClient (s : VaultState F) : ReadsVault (chainClient s) s :=
  ⟨fun _ _ _ => rfl, fun b _ => ⟨s.betRecords b, rfl, rfl, rfl⟩⟩

end ChainClient

/-- The deposits of two dollars and of one, at the indices 5 and 6. -/
def pooledHistory : DepositHistory :=
  ⟨[], [⟨5, fun _ => false, 2000000⟩, ⟨6, fun _ => false, 1000000⟩]⟩

theorem pooled_lineages : pooledHistory.lineages encodingCircomlib 7 paritySecrets
    = [⟨5, .v2, 11, twoDollarNote.commitment encodingCircomlib, 2000000⟩,
      ⟨6, .v2, 13, otherDollarNote.commitment encodingCircomlib, 1000000⟩] := by
  have hindex : nextDepositIndex 5 (some 0) (fun _ => false) = 5 ∧
      nextDepositIndex 6 (some 1) (fun _ => false) = 6 := by decide
  have hsecret : paritySecrets.v2 5 = 11 ∧ paritySecrets.v2 6 = 13 := by
    norm_num [paritySecrets]
  simp [DepositHistory.lineages, legacyLineages, laterLineages, pooledHistory, hindex, lineageAt,
    WalletSecrets.of, hsecret, computeCommitment, Polyshield.Note.commitment, twoDollarNote,
    otherDollarNote, oneDollarNote]

theorem walletOn_pooled {bet : BetAuthInputs ℚ} {credit : CreditInputs ℚ}
    {merge : ConsolidateInputs ℚ} {s : ℕ → VaultState ℚ} (h : PooledRun bet credit merge s) :
    WalletOn encodingEnv paritySecrets 1000 7
      (pooledHistory.lineages encodingCircomlib 7 paritySecrets) (chainClient (s 10))
      (runActions encodingEnv pooledVault (pooledRun bet credit merge)) := by
  have hs : deploy encodingEnv pooledArgs = .ok pooledVault := rfl
  have hnotes := notesHistory_runActions encodingEnv_ideal hs (pooledRun bet credit merge)
  rw [h.runActions] at hnotes ⊢
  refine ⟨paritySecrets_distinct 1000, DepositHistory.made _ _ _ (by decide) (by decide),
    (DepositHistory.nodup_index_lineages_iff ..).mpr (by decide), ?_, ?_,
    readsLogs_chainClient _, readsVault_chainClient _, ?_, ?_⟩
  · rw [pooled_lineages, RecoveryClient.deposits, chainClient, h.logs]
    rfl
  · intro n hn h0 _ _ _
    obtain ⟨depositor, howner, hmem⟩ := hnotes.deposited n hn h0
    have hdepositor : depositor = 7 := by
      rw [h.logs] at hmem
      simp only [List.mem_cons, Event.deposited.injEq, reduceCtorEq, List.not_mem_nil, or_false]
        at hmem
      exact hmem.elim And.left And.left
    rw [howner, hdepositor]
  · intro l _ x hx
    simp only [List.mem_cons, List.not_mem_nil, or_false] at hx
    rcases hx with rfl | rfl | rfl | rfl | rfl | rfl | rfl | rfl | rfl
    case inr.inr.inr.inr.inr.inr.inl =>
      intro _
      show PaysAsReplayed (s 7) credit.nullifierOfBet
      rw [PaysAsReplayed, h.settlesBet, h.won]
      rfl
    all_goals
      trivial
  · intro l _ l' _ _ before ns c after hsplit _ j _ hmerged
    obtain ⟨nullifiers, newCommitment, hmem, -⟩ := hmerged
    have honce := congrArg (fun es => (es.filter isConsolidation).length) hsplit
    have hbefore : 0 < (before.filter isConsolidation).length :=
      List.length_pos_of_mem (List.mem_filter.mpr ⟨hmem, rfl⟩)
    have hafter : 0 < ((Event.consolidated ns c :: after).filter isConsolidation).length :=
      List.length_pos_of_mem (List.mem_filter.mpr ⟨List.mem_cons_self .., rfl⟩)
    have htotal : ((s 10).logs.filter isConsolidation).length = 1 := by
      rw [h.logs]
      rfl
    simp only [htotal, List.filter_append, List.length_append] at honce
    omega

/-- The bet has won, its credit is merged with the other deposit, and all of it is recovered. -/
theorem recovery_reproduces_pooled : ∃ bet credit merge,
    let ch := runActions encodingEnv pooledVault (pooledRun bet credit merge)
    ch.trace.length = 9 ∧ Reproduces encodingCircomlib ch.state
      (pooledHistory.lineages encodingCircomlib 7 paritySecrets)
      (recoverNotesWithClient encodingCircomlib 7 (some paritySecrets.v2) paritySecrets.v1
        (chainClient ch.state) 20 1000) := by
  obtain ⟨bet, credit, merge, s, h⟩ := exists_pooledRun
  have hs : deploy encodingEnv pooledArgs = .ok pooledVault := rfl
  have hwallet := walletOn_pooled h
  have hstate : (runActions encodingEnv pooledVault (pooledRun bet credit merge)).state = s 10 := by
    rw [h.runActions]
  refine ⟨bet, credit, merge, by rw [h.runActions]; rfl, recovery_reproduces_notes
    encodingEnv_ideal hs _ pooledHistory (by decide) (by decide) (by decide)
    (fun i hi j hj => ?_) (hstate ▸ hwallet)⟩
  have hle : ∀ i ∈ pooledHistory.indices, i < 20 := by decide
  have := hle i hi
  omega

end Polyshield.Wallet
