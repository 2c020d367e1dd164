import Polyshield.Wallet.Holdings
import Polyshield.Wallet.Recovered

/-!
# The cache refines the chain

The cash notes of the cache are committed notes of the wallet, and what is
marked is spent, whatever anyone does and whenever the app dies. Where nobody
else has the wallet's secrets, the cash notes of the cache and of what is not
recorded yet are the notes that the wallet has, each of them once.
-/

namespace Polyshield.Wallet

variable {F Proof Sig : Type} [Field F]

/-! ## The notes of the wallet -/

/-- The committed note is of a lineage of the wallet. -/
def Session.Owns (ses : Session F Proof Sig) (c : Polyshield.Note F) : Prop :=
  c.owner = (ses.address.toNat : F) ∧ ∃ depositIndex version,
    c.secret = ses.noteSecret depositIndex version

variable [DecidableEq F]

open Classical in
/-- The unspent notes of the wallet. -/
noncomputable def walletNotes (C : Circomlib F) (ses : Session F Proof Sig) (v : VaultState F) :
    List (Polyshield.Note F) :=
  (hiddenNotes C v.tree).filter fun c => ses.Owns c ∧ v.spent (c.nullifier C) = false

/-- No note of the wallet is committed or spent. -/
structure LeavesWallet (C : Circomlib F) (ses : Session F Proof Sig) (v v' : VaultState F) :
    Prop where
  notes : ∀ c ∈ hiddenNotes C v'.tree, ses.Owns c → c ∈ hiddenNotes C v.tree
  spent : ∀ c, ses.Owns c → v'.spent (c.nullifier C) = true → v.spent (c.nullifier C) = true

/-- Notes are added, and nullifiers spent. -/
structure Onward (C : Circomlib F) (v v' : VaultState F) : Prop where
  hidden : ∃ cs, hiddenNotes C v'.tree = hiddenNotes C v.tree ++ cs
  spent : ∀ x, v.spent x = true → v'.spent x = true

section Notes

variable {C : Circomlib F} {ses : Session F Proof Sig} {v v' : VaultState F} {n e : Note F}
  {c : Polyshield.Note F}

omit [DecidableEq F] in
theorem mem_walletNotes : c ∈ walletNotes C ses v ↔
    c ∈ hiddenNotes C v.tree ∧ ses.Owns c ∧ v.spent (c.nullifier C) = false := by
  simp [walletNotes]

omit [DecidableEq F] in
theorem Note.Shows.owns (h : n.Shows C ses c) : ses.Owns c :=
  ⟨h.owner, n.depositIndex, n.derivationVersion.getD .v1, h.secret⟩

omit [DecidableEq F] in
theorem Onward.mem (h : Onward C v v') (hc : c ∈ hiddenNotes C v.tree) :
    c ∈ hiddenNotes C v'.tree := by
  obtain ⟨cs, hcs⟩ := h.hidden
  rw [hcs]
  exact List.mem_append_left _ hc

theorem Note.Backed.mono (h : n.Backed C ses v) (hg : Onward C v v') : n.Backed C ses v' := by
  obtain ⟨c, hc, hs⟩ := h
  exact ⟨c, hg.mem hc, hs⟩

theorem Operation.Sound.mono {op : Operation F Proof Sig} (h : op.Sound C ses v)
    (hg : Onward C v v') : op.Sound C ses v' :=
  ⟨h.admits, fun n hn => ⟨(h.ends n hn).1, (h.ends n hn).2.mono hg⟩, h.receipts⟩

omit [DecidableEq F] in
theorem Onward.distinct (h : Onward C v v') (hd : DistinctNullifiers C v'.tree) :
    DistinctNullifiers C v.tree := by
  obtain ⟨cs, hcs⟩ := h.hidden
  unfold DistinctNullifiers at hd ⊢
  rw [hcs, List.map_append] at hd
  exact hd.of_append_left

theorem nullifier_eq_of_commitment (hI : C.Injective) (hF : Wide F) (hn : n.Backed C ses v)
    (he : e.Backed C ses v) (h : n.commitment = e.commitment) : n.nullifier = e.nullifier := by
  obtain ⟨c, -, hc⟩ := hn
  obtain ⟨c', -, hc'⟩ := he
  have heq := (hc.commitment.symm.trans h).trans hc'.commitment
  obtain rfl := Note.commitment_inj hI hF (NoteId.commitment.inj heq)
  exact hc.nullifier.trans hc'.nullifier.symm

theorem commitment_eq_of_nullifier (hd : DistinctNullifiers C v.tree) (hn : n.Backed C ses v)
    (he : e.Backed C ses v) (h : n.nullifier = e.nullifier) : n.commitment = e.commitment := by
  obtain ⟨c, hmem, hc⟩ := hn
  obtain ⟨c', hmem', hc'⟩ := he
  have heq := (hc.nullifier.symm.trans h).trans hc'.nullifier
  obtain rfl := List.inj_on_of_nodup_map hd hmem hmem' heq
  exact hc.commitment.trans hc'.commitment.symm

end Notes

section Onward

variable {E : Env F Proof Sig} (hE : E.Ideal) {ch : Chain F Proof Sig} (hch : NotesHistory E ch)

include hE hch

theorem onward_exec {m : Msg} {c : Call F Proof Sig} {v : VaultState F}
    (h : exec E m ch.state c = .ok v) : Onward E.circomlib ch.state v := by
  obtain ⟨ms, events, hc⟩ := commits_exec hE hch.books h
  exact ⟨⟨ms, hc.hidden⟩, hc.mono⟩

theorem onward_advance (a : Action F Proof Sig) :
    Onward E.circomlib ch.state (advance E ch a).state ∧ NotesHistory E (advance E ch a) := by
  cases a with
  | world usdc ctf => exact ⟨⟨⟨[], (List.append_nil _).symm⟩, fun _ h => h⟩, hch.world usdc ctf⟩
  | call m c =>
    simp only [advance]
    split
    next v h => exact ⟨onward_exec hE hch h, hch.call hE h⟩
    · exact ⟨⟨⟨[], (List.append_nil _).symm⟩, fun _ h => h⟩, hch⟩

end Onward

/-! ## What is not recorded -/

/-- The operation has landed: its notes are spent, and what it makes is committed. -/
structure Operation.Done (C : Circomlib F) (ses : Session F Proof Sig) (v : VaultState F)
    (op : Operation F Proof Sig) : Prop where
  ends : ∀ n ∈ op.ends, v.spent n.nullifier = true
  made : ∀ m ∈ op.made C ses, m.Backed C ses v

def AppState.made (C : Circomlib F) (ses : Session F Proof Sig) (t : AppState F Proof Sig) :
    List (Note F) :=
  t.unrecorded.flatMap fun op => (op.made C ses).toList

section Done

variable {C : Circomlib F} {ses : Session F Proof Sig} {v v' : VaultState F}
  {op : Operation F Proof Sig} {t : AppState F Proof Sig}

theorem Operation.Done.mono (h : op.Done C ses v) (hg : Onward C v v') : op.Done C ses v' :=
  ⟨fun n hn => hg.spent _ (h.ends n hn), fun m hm => (h.made m hm).mono hg⟩

omit [DecidableEq F] in
theorem Operation.Lands.onward (h : op.Lands C ses v v') : Onward C v v' := by
  obtain ⟨cs, hcs, -⟩ := h.hidden
  exact ⟨⟨cs, hcs⟩, fun x hx => (h.spent x).mpr (.inl hx)⟩

theorem Operation.Lands.done (h : op.Lands C ses v v') : op.Done C ses v' where
  ends := fun n hn => (h.spent _).mpr (.inr ⟨n, hn, rfl⟩)
  made := fun m hm => by
    obtain ⟨cs, hcs, hall⟩ := h.hidden
    obtain ⟨c, hc, hm⟩ := Related.exists_of_mem_left hall (Option.mem_toList.mpr hm)
    exact ⟨c, hcs ▸ List.mem_append_right _ hc, hm⟩

omit [DecidableEq F] in
theorem AppState.mem_made {m : Note F} :
    m ∈ t.made C ses ↔ ∃ op ∈ t.unrecorded, m ∈ op.made C ses := by
  simp [AppState.made]

end Done

/-! ## What is in the cache is on chain -/

structure Tracks (E : Env F Proof Sig) (ses : Session F Proof Sig) (t : AppState F Proof Sig) :
    Prop where
  history : NotesHistory E t.chain
  keyed : ∀ n ∈ t.cache, n.Keyed ses
  backed : ∀ n ∈ cashNotes t.cache, n.Backed E.circomlib ses t.chain.state
  marked : ∀ n ∈ cashNotes t.cache, n.spent = true → t.chain.state.spent n.nullifier = true
  submitted : ∀ op ∈ t.submitted, op.Sound E.circomlib ses t.chain.state
  unrecorded : ∀ op ∈ t.unrecorded,
    op.Sound E.circomlib ses t.chain.state ∧ op.Done E.circomlib ses t.chain.state

theorem cashNotes_reconcile (cache : List (Note F)) (wallet : Address) (r : ReconcileReads F) :
    cashNotes (reconcileSpentStatus cache wallet r) = (cashNotes cache).map fun n =>
      if ¬n.spent ∧ inSpentSet cache wallet r n.nullifier then n.markSpent else n := by
  unfold cashNotes reconcileSpentStatus
  rw [List.filter_map]
  have hfilter : ∀ f : Note F → Note F, (∀ n, (f n).kind = n.kind) →
      cache.filter ((fun n => decide (n.kind ≠ .betReceipt)) ∘ f)
        = cache.filter fun n => n.kind ≠ .betReceipt := fun f hf =>
    List.filter_congr fun n _ => by simp [hf]
  rw [hfilter]
  · refine List.map_congr_left fun n hn => ?_
    have hkind : n.kind ≠ .betReceipt := of_decide_eq_true (List.mem_filter.mp hn).2
    have hheals : healsReceipt wallet r n = false := by simp [healsReceipt, hkind]
    simp [hkind, hheals]
  · intro n
    split
    · rfl
    · split <;> rfl

theorem keyed_reconcile {ses : Session F Proof Sig} {cache : List (Note F)} {wallet : Address}
    {r : ReconcileReads F} (hkeyed : ∀ n ∈ cache, n.Keyed ses) :
    ∀ n ∈ reconcileSpentStatus cache wallet r, n.Keyed ses := by
  intro n hn
  obtain ⟨n₀, hn₀, rfl⟩ := List.mem_map.mp hn
  have h := hkeyed n₀ hn₀
  split
  · exact h
  · split <;> exact h

omit [DecidableEq F] in
theorem Note.Marks.shows {C : Circomlib F} {ses : Session F Proof Sig} {sound : Note F → Prop}
    {n₀ n : Note F} {c : Polyshield.Note F} (h : n₀.Marks sound n) (hs : n₀.Shows C ses c) :
    n.Shows C ses c := by
  rcases h with rfl | ⟨-, rfl⟩
  · exact hs
  · exact ⟨hs.secret, hs.owner, hs.balance, hs.nonce, hs.commitment, hs.nullifier⟩

theorem Note.Marks.backed {C : Circomlib F} {ses : Session F Proof Sig} {v : VaultState F}
    {sound : Note F → Prop} {n₀ n : Note F} (h : n₀.Marks sound n) (hb : n₀.Backed C ses v) :
    n.Backed C ses v := by
  obtain ⟨c, hc, hs⟩ := hb
  exact ⟨c, hc, h.shows hs⟩

section Rest

variable {t : AppState F Proof Sig} {op op' : Operation F Proof Sig}
  {before after : List (Operation F Proof Sig)}

omit [Field F] [DecidableEq F] in
theorem mem_of_mem_rest (h : op' ∈ before ++ after) : op' ∈ before ++ op :: after :=
  (List.sublist_cons_self op after).append_left before |>.subset h

omit [Field F] [DecidableEq F] in
theorem unrecorded_perm (hop : t.landed = before ++ op :: after) :
    t.unrecorded.Perm (op :: ((before ++ after) ++ t.lost)) := by
  unfold AppState.unrecorded
  rw [hop]
  exact List.perm_middle.append_right _

end Rest

namespace Tracks

variable {E : Env F Proof Sig} {ses : Session F Proof Sig} {t : AppState F Proof Sig}
  (h : Tracks E ses t) {op : Operation F Proof Sig} {before after : List (Operation F Proof Sig)}

include h

theorem id_eq {n : Note F} (hn : n ∈ cashNotes t.cache) : n.id = n.commitment :=
  ((h.keyed n (mem_cashNotes.mp hn).1).cash (mem_cashNotes.mp hn).2).2

theorem submit (hnotes : ∀ n ∈ op.ends, n ∈ t.cache ∧ n.IsCash ses)
    (hreceipts : ∀ n ∈ op.receipts, n ∈ t.cache ∧ n.kind = .betReceipt)
    (hadmits : op.Admits E.circomlib ses) :
    Tracks E ses { t with submitted := t.submitted ++ [op] } where
  history := h.history
  keyed := h.keyed
  backed := h.backed
  marked := h.marked
  unrecorded := h.unrecorded
  submitted := fun op' hop' => by
    rcases List.mem_append.mp hop' with hop' | hop'
    · exact h.submitted op' hop'
    · obtain rfl := List.mem_singleton.mp hop'
      refine ⟨hadmits, fun n hn => ?_, fun n hn => ?_⟩
      · obtain ⟨hmem, hcash⟩ := hnotes n hn
        exact ⟨hcash, h.backed n (mem_cashNotes.mpr ⟨hmem, hcash.1⟩)⟩
      · exact ⟨(hreceipts n hn).2, h.keyed n (hreceipts n hn).1⟩

theorem abandon (hop : t.submitted = before ++ op :: after) :
    Tracks E ses { t with submitted := before ++ after } :=
  ⟨h.history, h.keyed, h.backed, h.marked,
    fun op' hop' => h.submitted op' (hop ▸ mem_of_mem_rest hop'), h.unrecorded⟩

theorem rewrite {cache : List (Note F)} (hkeyed : ∀ n ∈ cache, n.Keyed ses)
    (hcash : ∀ n ∈ cashNotes cache, n.Backed E.circomlib ses t.chain.state ∧
      (n.spent = true → t.chain.state.spent n.nullifier = true)) :
    Tracks E ses { t with cache := cache } :=
  ⟨h.history, hkeyed, fun n hn => (hcash n hn).1, fun n hn => (hcash n hn).2, h.submitted,
    h.unrecorded⟩

theorem lose (hop : t.landed = before ++ op :: after) :
    Tracks E ses { t with landed := before ++ after, lost := t.lost ++ [op] } :=
  ⟨h.history, h.keyed, h.backed, h.marked, h.submitted, fun op' hop' =>
    h.unrecorded op' ((unrecorded_perm hop).mem_iff.mpr (by
      simp only [AppState.unrecorded, List.mem_append, List.mem_cons] at hop' ⊢
      tauto))⟩

theorem reconcile {r : ReconcileReads F}
    (hr : ∀ x, r.spent x = true → t.chain.state.spent x = true) :
    Tracks E ses { t with cache := reconcileSpentStatus t.cache ses.address r } := by
  refine h.rewrite (keyed_reconcile h.keyed) fun n hn => ?_
  rw [cashNotes_reconcile] at hn
  obtain ⟨n₀, hn₀, rfl⟩ := List.mem_map.mp hn
  split
  next hmark =>
    obtain ⟨m, -, hm⟩ := List.any_eq_true.mp hmark.2
    have hmarks : Note.Marks (fun _ => True) n₀ n₀.markSpent := .inr ⟨trivial, rfl⟩
    exact ⟨hmarks.backed (h.backed n₀ hn₀), fun _ => hr _ (of_decide_eq_true hm).2⟩
  · exact ⟨h.backed n₀ hn₀, h.marked n₀ hn₀⟩

theorem retire (bet : F) :
    Tracks E ses { t with cache := markBetReceiptSpent t.cache bet } := by
  refine h.rewrite (keyed_markBetReceiptSpent h.keyed bet) fun n hn => ?_
  rw [cashNotes_markBetReceiptSpent] at hn
  exact ⟨h.backed n hn, h.marked n hn⟩

variable (hE : E.Ideal)

include hE

theorem others (a : Action F Proof Sig) :
    Tracks E ses { t with chain := advance E t.chain a } := by
  obtain ⟨hg, hch⟩ := onward_advance hE h.history a
  exact {
    history := hch
    keyed := h.keyed
    backed := fun n hn => (h.backed n hn).mono hg
    marked := fun n hn hspent => hg.spent _ (h.marked n hn hspent)
    submitted := fun op hop => (h.submitted op hop).mono hg
    unrecorded := fun op hop => ⟨(h.unrecorded op hop).1.mono hg, (h.unrecorded op hop).2.mono hg⟩ }

section Land

variable (hop : t.submitted = before ++ op :: after) {m : Msg} {merkle : MerkleProof F}
  {proof : Proof} {v : VaultState F}
  (hexec : exec E m t.chain.state (op.call E.circomlib ses merkle proof) = .ok v)

include hop hexec

theorem lands : op.Lands E.circomlib ses t.chain.state v := by
  have hsound := h.submitted op (hop ▸ List.mem_append_right _ List.mem_cons_self)
  exact Operation.lands hE h.history.books hsound.ends hsound.admits hexec

theorem land : Tracks E ses { t with
    chain := ⟨v, t.chain.trace ++ [⟨t.chain.state, m, op.call E.circomlib ses merkle proof, v⟩]⟩
    submitted := before ++ after
    landed := t.landed ++ [op] } := by
  have hlands := h.lands hE hop hexec
  have hg := hlands.onward
  refine ⟨h.history.call hE hexec, h.keyed, fun n hn => (h.backed n hn).mono hg,
    fun n hn hspent => hg.spent _ (h.marked n hn hspent),
    fun op' hop' => (h.submitted op' (hop ▸ mem_of_mem_rest hop')).mono hg, fun op' hop' => ?_⟩
  have hcases : op' ∈ t.unrecorded ∨ op' = op := by
    simp only [AppState.unrecorded, List.mem_append, List.mem_singleton] at hop' ⊢
    tauto
  rcases hcases with hop' | rfl
  · obtain ⟨hsound, hdone⟩ := h.unrecorded op' hop'
    exact ⟨hsound.mono hg, hdone.mono hg⟩
  · have hsound := h.submitted op' (hop ▸ List.mem_append_right _ List.mem_cons_self)
    exact ⟨hsound.mono hg, hlands.done⟩

end Land

theorem cash_of_markAll (hop : op ∈ t.unrecorded) :
    ∀ n ∈ markAll (cashNotes t.cache) op.ends, n.Backed E.circomlib ses t.chain.state ∧
      (n.spent = true → t.chain.state.spent n.nullifier = true) := by
  obtain ⟨hsound, hdone⟩ := h.unrecorded op hop
  intro n hn
  obtain ⟨n₀, hn₀, hm⟩ := Related.exists_of_mem_right marks_markAll hn
  refine ⟨hm.backed (h.backed n₀ hn₀), fun hspent => ?_⟩
  rcases hm with rfl | ⟨⟨e, he, hof⟩, rfl⟩
  · exact h.marked n hn₀ hspent
  · have hcom : n₀.commitment = e.commitment :=
      hof.elim id fun hid => (h.id_eq hn₀).symm.trans hid
    have hnul := nullifier_eq_of_commitment hE.injective hE.wide (h.backed n₀ hn₀)
      (hsound.ends e he).2 hcom
    exact hnul ▸ hdone.ends e he

theorem confirm (hop : t.landed = before ++ op :: after) :
    Tracks E ses { t with
      cache := op.record E.circomlib ses t.cache
      landed := before ++ after } := by
  have hmem : op ∈ t.unrecorded :=
    (unrecorded_perm hop).mem_iff.mpr List.mem_cons_self
  obtain ⟨hsound, hdone⟩ := h.unrecorded op hmem
  have hcache := h.rewrite (hsound.keyed_record h.keyed) fun n hn => by
    rw [hsound.cashNotes_record h.keyed] at hn
    rcases List.mem_append.mp hn with hn | hn
    · exact h.cash_of_markAll hE hmem n hn
    · have hn := Option.mem_toList.mp hn
      refine ⟨hdone.made n hn, fun hspent => ?_⟩
      exact absurd hspent (by simp [(hsound.fresh hn).unspent])
  exact ⟨hcache.history, hcache.keyed, hcache.backed, hcache.marked, hcache.submitted,
    fun op' hop' => h.unrecorded op' ((unrecorded_perm hop).mem_iff.mpr
      (List.mem_cons_of_mem _ hop'))⟩

theorem step {Others : VaultState F → VaultState F → Prop} {t' : AppState F Proof Sig}
    (hstep : AppStep E ses Others t t') : Tracks E ses t' := by
  cases hstep with
  | others a _ => exact h.others hE a
  | submit hnotes hreceipts hadmits => exact h.submit hnotes hreceipts hadmits
  | land hop hexec => exact h.land hE hop hexec
  | abandon hop => exact h.abandon hop
  | confirm hop => exact h.confirm hE hop
  | lose hop => exact h.lose hop
  | reconcile hr => exact h.reconcile hr
  | retire bet => exact h.retire bet

end Tracks

theorem tracks_initial {E : Env F Proof Sig} {ses : Session F Proof Sig} {args : InitArgs}
    {s₀ : VaultState F} (h : deploy E args = .ok s₀) : Tracks E ses (.initial s₀) where
  history := notesHistory_deploy h
  keyed := fun n hn => by cases hn
  backed := fun n hn => by cases hn
  marked := fun n hn => by cases hn
  submitted := fun op hop => by cases hop
  unrecorded := fun op hop => by cases hop

theorem AppRun.tracks {E : Env F Proof Sig} (hE : E.Ideal) {ses : Session F Proof Sig}
    {Others : VaultState F → VaultState F → Prop} {args : InitArgs} {s₀ : VaultState F}
    (hdeploy : deploy E args = .ok s₀) {t : AppState F Proof Sig} (h : AppRun E ses Others s₀ t) :
    Tracks E ses t := by
  induction h with
  | initial => exact tracks_initial hdeploy
  | step _ hstep ih => exact ih.step hE hstep

/-- The cash notes and what is not recorded are committed. -/
theorem Tracks.backed_of_known {E : Env F Proof Sig} {ses : Session F Proof Sig}
    {t : AppState F Proof Sig} (hA : Tracks E ses t) {n : Note F}
    (hn : n ∈ cashNotes t.cache ++ t.made E.circomlib ses) :
    n.Backed E.circomlib ses t.chain.state := by
  rcases List.mem_append.mp hn with hn | hn
  · exact hA.backed n hn
  · obtain ⟨op, hop, hm⟩ := AppState.mem_made.mp hn
    exact (hA.unrecorded op hop).2.made n hm

/-! ## What is on chain is in the cache -/

/-- The notes of the wallet are those of the cache and of what is not recorded. -/
structure Holds (E : Env F Proof Sig) (ses : Session F Proof Sig) (t : AppState F Proof Sig) :
    Prop where
  once : ((cashNotes t.cache ++ t.made E.circomlib ses).map Note.commitment).Nodup
  shown : ∀ c ∈ hiddenNotes E.circomlib t.chain.state.tree, ses.Owns c →
    ∃ n ∈ cashNotes t.cache ++ t.made E.circomlib ses, n.Shows E.circomlib ses c
  /-- What is submitted stays in the cache. -/
  held : ∀ op ∈ t.submitted, ∀ e ∈ op.ends,
    e.commitment ∈ (cashNotes t.cache).map Note.commitment
  ended : ∀ n ∈ cashNotes t.cache, t.chain.state.spent n.nullifier = true →
    n.spent = true ∨ ∃ op ∈ t.unrecorded, ∃ e ∈ op.ends, e.commitment = n.commitment
  /-- Only a note of the cache can be spent. -/
  unspent : ∀ m ∈ t.made E.circomlib ses, t.chain.state.spent m.nullifier = false

namespace Holds

variable {E : Env F Proof Sig} {ses : Session F Proof Sig} {t : AppState F Proof Sig}
  (h : Holds E ses t) {op : Operation F Proof Sig} {before after : List (Operation F Proof Sig)}

include h

omit [DecidableEq F] in
theorem submit (hnotes : ∀ n ∈ op.ends, n ∈ t.cache ∧ n.IsCash ses) :
    Holds E ses { t with submitted := t.submitted ++ [op] } where
  once := h.once
  shown := h.shown
  ended := h.ended
  unspent := h.unspent
  held := fun op' hop' e he => by
    rcases List.mem_append.mp hop' with hop' | hop'
    · exact h.held op' hop' e he
    · obtain rfl := List.mem_singleton.mp hop'
      obtain ⟨hmem, hcash⟩ := hnotes e he
      exact List.mem_map_of_mem (mem_cashNotes.mpr ⟨hmem, hcash.1⟩)

omit [DecidableEq F] in
theorem abandon (hop : t.submitted = before ++ op :: after) :
    Holds E ses { t with submitted := before ++ after } :=
  ⟨h.once, h.shown, fun op' hop' => h.held op' (hop ▸ mem_of_mem_rest hop'), h.ended, h.unspent⟩

omit [DecidableEq F] in
theorem rewrite {cache : List (Note F)}
    (hm : List.Forall₂ (Note.Marks fun _ => True) (cashNotes t.cache) (cashNotes cache)) :
    Holds E ses { t with cache := cache } := by
  have hcom := map_commitment_of_marks hm
  refine ⟨?_, fun c hc howns => ?_, fun op hop e he => ?_, fun n hn hspent => ?_, h.unspent⟩
  · have := h.once
    rw [List.map_append] at this ⊢
    rwa [hcom]
  · obtain ⟨n, hn, hs⟩ := h.shown c hc howns
    rcases List.mem_append.mp hn with hn | hn
    · obtain ⟨n', hn', hmark⟩ := Related.exists_of_mem_left hm hn
      exact ⟨n', List.mem_append_left _ hn', hmark.shows hs⟩
    · exact ⟨n, List.mem_append_right _ hn, hs⟩
  · rw [hcom]
    exact h.held op hop e he
  · obtain ⟨n₀, hn₀, hmark⟩ := Related.exists_of_mem_right hm hn
    have hnul : n.nullifier = n₀.nullifier := hmark.nullifier
    rcases h.ended n₀ hn₀ (hnul ▸ hspent) with hs | ⟨op, hop, e, he, heq⟩
    · exact .inl (hmark.spent hs)
    · exact .inr ⟨op, hop, e, he, heq.trans hmark.commitment.symm⟩

omit [DecidableEq F] in
theorem lose (hop : t.landed = before ++ op :: after) :
    Holds E ses { t with landed := before ++ after, lost := t.lost ++ [op] } := by
  have hperm : t.unrecorded.Perm ((before ++ after) ++ (t.lost ++ [op])) := by
    refine (unrecorded_perm hop).trans ?_
    rw [← List.append_assoc]
    exact (List.perm_append_singleton ..).symm
  have hmade : (t.made E.circomlib ses).Perm
      (AppState.made E.circomlib ses { t with
        landed := before ++ after, lost := t.lost ++ [op] }) := hperm.flatMap_right _
  refine ⟨?_, fun c hc howns => ?_, h.held, fun n hn hspent => ?_, fun m hm => ?_⟩
  · exact ((hmade.append_left _).map _).nodup_iff.mp h.once
  · obtain ⟨n, hn, hs⟩ := h.shown c hc howns
    exact ⟨n, (hmade.append_left _).mem_iff.mp hn, hs⟩
  · exact (h.ended n hn hspent).imp_right fun ⟨op', hop', hrest⟩ =>
      ⟨op', hperm.mem_iff.mp hop', hrest⟩
  · exact h.unspent m (hmade.mem_iff.mpr hm)

variable (hA : Tracks E ses t)

include hA

theorem confirm (hop : t.landed = before ++ op :: after) :
    Holds E ses { t with
      cache := op.record E.circomlib ses t.cache
      landed := before ++ after } := by
  have hmem : op ∈ t.unrecorded := (unrecorded_perm hop).mem_iff.mpr List.mem_cons_self
  have hcash := (hA.unrecorded op hmem).1.cashNotes_record hA.keyed
  have hmarks : List.Forall₂ _ (cashNotes t.cache) (markAll (cashNotes t.cache) op.ends) :=
    marks_markAll
  have hcom := map_commitment_of_marks hmarks
  have hmade : (t.made E.circomlib ses).Perm ((op.made E.circomlib ses).toList
      ++ AppState.made E.circomlib ses { t with
        cache := op.record E.circomlib ses t.cache
        landed := before ++ after }) := (unrecorded_perm hop).flatMap_right _
  have hnodup : ((cashNotes t.cache).map Note.commitment).Nodup := by
    have := h.once
    rw [List.map_append] at this
    exact this.of_append_left
  refine ⟨?_, fun c hc howns => ?_, fun op' hop' e he => ?_, fun n hn hspent => ?_, fun m hm => ?_⟩
  · show ((cashNotes (op.record E.circomlib ses t.cache) ++ _).map Note.commitment).Nodup
    rw [hcash, List.append_assoc, List.map_append, hcom, ← List.map_append]
    exact ((hmade.append_left _).map _).nodup_iff.mp h.once
  · show ∃ n ∈ cashNotes (op.record E.circomlib ses t.cache) ++ _, n.Shows E.circomlib ses c
    rw [hcash, List.append_assoc]
    obtain ⟨n, hn, hs⟩ := h.shown c hc howns
    rcases List.mem_append.mp hn with hn | hn
    · obtain ⟨n', hn', hmark⟩ := Related.exists_of_mem_left hmarks hn
      exact ⟨n', List.mem_append_left _ hn', hmark.shows hs⟩
    · exact ⟨n, List.mem_append_right _ (hmade.mem_iff.mp hn), hs⟩
  · show e.commitment ∈ (cashNotes (op.record E.circomlib ses t.cache)).map Note.commitment
    rw [hcash, List.map_append, hcom]
    exact List.mem_append_left _ (h.held op' hop' e he)
  · have hn' : n ∈ cashNotes (op.record E.circomlib ses t.cache) := hn
    rw [hcash] at hn'
    rcases List.mem_append.mp hn' with hn | hn
    · obtain ⟨n₀, hn₀, hmark⟩ := Related.exists_of_mem_right hmarks hn
      have hnul : n.nullifier = n₀.nullifier := hmark.nullifier
      rcases h.ended n₀ hn₀ (hnul ▸ hspent) with hs | ⟨op', hop', e, he, heq⟩
      · exact .inl (hmark.spent hs)
      · rcases List.mem_cons.mp ((unrecorded_perm hop).mem_iff.mp hop') with rfl | hop'
        · exact .inl (spent_markAll (fun n hn => hA.id_eq hn) hnodup hn he
            (hmark.commitment.trans heq.symm))
        · exact .inr ⟨op', hop', e, he, heq.trans hmark.commitment.symm⟩
    · have hm := hmade.mem_iff.mpr (List.mem_append_left _ hn)
      exact absurd hspent (by simp [h.unspent n hm])
  · exact h.unspent m (hmade.mem_iff.mpr (List.mem_append_right _ hm))

/-- Others who leave the notes of the wallet leave what it holds. -/
theorem others {a : Action F Proof Sig}
    (hleaves : LeavesWallet E.circomlib ses t.chain.state (advance E t.chain a).state) :
    Holds E ses { t with chain := advance E t.chain a } := by
  have hspent : ∀ n : Note F, n.Backed E.circomlib ses t.chain.state →
      (advance E t.chain a).state.spent n.nullifier = true →
        t.chain.state.spent n.nullifier = true := by
    rintro n ⟨c, -, hs⟩ hn
    rw [hs.nullifier] at hn ⊢
    exact hleaves.spent c hs.owns hn
  refine ⟨h.once, fun c hc howns => h.shown c (hleaves.notes c hc howns) howns, h.held,
    fun n hn hn' => h.ended n hn (hspent n (hA.backed n hn) hn'), fun m hm => ?_⟩
  obtain ⟨op, hop, hm'⟩ := AppState.mem_made.mp hm
  have hbacked := (hA.unrecorded op hop).2.made m hm'
  have hun := h.unspent m hm
  by_contra hne
  have := hspent m hbacked (by simpa using hne)
  exact absurd (hun.symm.trans this) (by decide)

end Holds

section Land

variable {E : Env F Proof Sig} (hE : E.Ideal) {ses : Session F Proof Sig} {s v : VaultState F}
  {op : Operation F Proof Sig} (hlands : op.Lands E.circomlib ses s v)
  (hd : DistinctNullifiers E.circomlib v.tree) {m : Note F} (hm : m ∈ op.made E.circomlib ses)

include hlands hd hm

omit [DecidableEq F] in
/-- What an operation makes has a nullifier of its own. -/
theorem Operation.Lands.new_nullifier {c : Polyshield.Note F}
    (hc : c ∈ hiddenNotes E.circomlib s.tree) : c.nullifier E.circomlib ≠ m.nullifier := by
  obtain ⟨cs, hcs, hall⟩ := hlands.hidden
  obtain ⟨c', hc', hs⟩ := Related.exists_of_mem_left hall (Option.mem_toList.mpr hm)
  unfold DistinctNullifiers at hd
  rw [hcs, List.map_append, List.nodup_append] at hd
  rw [hs.nullifier]
  exact hd.2.2 _ (List.mem_map_of_mem hc) _ (List.mem_map_of_mem hc')

theorem Operation.Lands.new_commitment (hE : E.Ideal) {n : Note F}
    (hn : n.Backed E.circomlib ses s) : m.commitment ≠ n.commitment := by
  intro heq
  have hnul := nullifier_eq_of_commitment hE.injective hE.wide (hlands.done.made m hm)
    (hn.mono hlands.onward) heq
  obtain ⟨c, hc, hs⟩ := hn
  exact hlands.new_nullifier hd hm hc (hs.nullifier.symm.trans hnul.symm)

end Land

namespace Holds

variable {E : Env F Proof Sig} (hE : E.Ideal) {ses : Session F Proof Sig}
  {t : AppState F Proof Sig} (h : Holds E ses t) (hA : Tracks E ses t)
  {op : Operation F Proof Sig} {before after : List (Operation F Proof Sig)}

include hE h hA

theorem land (hop : t.submitted = before ++ op :: after) {m : Msg} {merkle : MerkleProof F}
    {proof : Proof} {v : VaultState F}
    (hexec : exec E m t.chain.state (op.call E.circomlib ses merkle proof) = .ok v)
    (hd : DistinctNullifiers E.circomlib v.tree) : Holds E ses { t with
      chain := ⟨v, t.chain.trace ++ [⟨t.chain.state, m, op.call E.circomlib ses merkle proof, v⟩]⟩
      submitted := before ++ after
      landed := t.landed ++ [op] } := by
  have hlands := hA.lands hE hop hexec
  have hds := hlands.onward.distinct hd
  have hmem : op ∈ t.submitted := hop ▸ List.mem_append_right _ List.mem_cons_self
  have hsound := hA.submitted op hmem
  have hperm : (t.landed ++ [op] ++ t.lost).Perm (op :: t.unrecorded) := by
    rw [List.append_assoc]
    exact List.perm_middle
  have hmade : (AppState.made E.circomlib ses { t with
      chain := ⟨v, t.chain.trace ++ [⟨t.chain.state, m, op.call E.circomlib ses merkle proof, v⟩]⟩
      submitted := before ++ after
      landed := t.landed ++ [op] }).Perm
        ((op.made E.circomlib ses).toList ++ t.made E.circomlib ses) := hperm.flatMap_right _
  have hall := (hmade.append_left (cashNotes t.cache)).trans
    (List.perm_append_comm_assoc ..)
  refine ⟨?_, fun c hc howns => ?_, fun op' hop' => h.held op' (hop ▸ mem_of_mem_rest hop'),
    fun n hn hspent => ?_, fun m' hm' => ?_⟩
  · rw [(hall.map _).nodup_iff, List.map_append, List.nodup_append]
    refine ⟨by cases op.made E.circomlib ses <;> simp, h.once, fun x hx y hy => ?_⟩
    obtain ⟨m', hm', rfl⟩ := List.mem_map.mp hx
    obtain ⟨n, hn, rfl⟩ := List.mem_map.mp hy
    exact hlands.new_commitment hd (Option.mem_toList.mp hm') hE (hA.backed_of_known hn)
  · obtain ⟨cs, hcs, hshows⟩ := hlands.hidden
    rcases List.mem_append.mp (hcs ▸ hc) with hc | hc
    · obtain ⟨n, hn, hs⟩ := h.shown c hc howns
      exact ⟨n, hall.mem_iff.mpr (List.mem_append_right _ hn), hs⟩
    · obtain ⟨n, hn, hs⟩ := Related.exists_of_mem_right hshows hc
      exact ⟨n, hall.mem_iff.mpr (List.mem_append_left _ hn), hs⟩
  · rcases (hlands.spent _).mp hspent with hspent | ⟨e, he, heq⟩
    · exact (h.ended n hn hspent).imp_right fun ⟨op', hop', hrest⟩ =>
        ⟨op', hperm.mem_iff.mpr (List.mem_cons_of_mem _ hop'), hrest⟩
    · exact .inr ⟨op, hperm.mem_iff.mpr List.mem_cons_self, e, he,
        commitment_eq_of_nullifier hds (hsound.ends e he).2 (hA.backed n hn) heq⟩
  · by_contra hne
    have hspent : v.spent m'.nullifier = true := by simpa using hne
    rcases List.mem_append.mp (hmade.mem_iff.mp hm') with hm' | hm'
    · have hm' := Option.mem_toList.mp hm'
      rcases (hlands.spent _).mp hspent with hspent | ⟨e, he, heq⟩
      · obtain ⟨c, hc, hnul⟩ := hA.history.books.notes.spentNotes _ hspent
        exact hlands.new_nullifier hd hm' hc hnul
      · obtain ⟨c, hc, hs⟩ := (hsound.ends e he).2
        exact hlands.new_nullifier hd hm' hc (hs.nullifier.symm.trans heq)
    · rcases (hlands.spent _).mp hspent with hspent | ⟨e, he, heq⟩
      · exact absurd ((h.unspent m' hm').symm.trans hspent) (by decide)
      · have hcom := commitment_eq_of_nullifier hds (hsound.ends e he).2
          (hA.backed_of_known (List.mem_append_right _ hm')) heq
        have honce := h.once
        rw [List.map_append, List.nodup_append] at honce
        exact honce.2.2 _ (h.held op hmem e he) _ (List.mem_map_of_mem hm') hcom

/-- Every step of the app keeps it, and so does what others do to their own notes. -/
theorem step {Others : VaultState F → VaultState F → Prop}
    (hothers : ∀ s s', Others s s' → LeavesWallet E.circomlib ses s s')
    {t' : AppState F Proof Sig} (hstep : AppStep E ses Others t t')
    (hd : DistinctNullifiers E.circomlib t'.chain.state.tree) : Holds E ses t' := by
  cases hstep with
  | others a ha => exact h.others hA (hothers _ _ ha)
  | submit hnotes => exact h.submit hnotes
  | land hop hexec => exact h.land hE hA hop hexec hd
  | abandon hop => exact h.abandon hop
  | confirm hop => exact h.confirm hA hop
  | lose hop => exact h.lose hop
  | reconcile =>
    refine h.rewrite ?_
    rw [cashNotes_reconcile, List.forall₂_map_right_iff]
    refine List.forall₂_same.mpr fun n _ => ?_
    split
    · exact .inr ⟨trivial, rfl⟩
    · exact .inl rfl
  | retire bet =>
    refine h.rewrite ?_
    rw [cashNotes_markBetReceiptSpent]
    exact marks_refl _

end Holds

section Runs

variable {E : Env F Proof Sig} (hE : E.Ideal) {ses : Session F Proof Sig}
  {Others : VaultState F → VaultState F → Prop}

include hE

theorem AppStep.onward {t t' : AppState F Proof Sig} (hA : Tracks E ses t)
    (hstep : AppStep E ses Others t t') : Onward E.circomlib t.chain.state t'.chain.state := by
  cases hstep with
  | others a _ => exact (onward_advance hE hA.history a).1
  | land _ hexec => exact onward_exec hE hA.history hexec
  | submit | abandon | confirm | lose | reconcile | retire =>
    exact ⟨⟨[], (List.append_nil _).symm⟩, fun _ h => h⟩

theorem AppRun.holds (hothers : ∀ s s', Others s s' → LeavesWallet E.circomlib ses s s')
    {args : InitArgs} {s₀ : VaultState F} (hdeploy : deploy E args = .ok s₀)
    {t : AppState F Proof Sig} (h : AppRun E ses Others s₀ t)
    (hd : DistinctNullifiers E.circomlib t.chain.state.tree) : Holds E ses t := by
  induction h with
  | initial =>
    obtain rfl := deploy_ok E hdeploy
    refine ⟨List.nodup_nil, fun c hc => ?_, fun op hop => ?_, fun n hn => ?_, fun m hm => ?_⟩
    · simp [AppState.initial, hiddenNotes, initializeV2, initialState, CommitmentMerkleTree.leaves,
        CommitmentMerkleTree.initializeTree] at hc
    · cases hop
    · cases hn
    · cases hm
  | step hrun hstep ih =>
    have hA := hrun.tracks hE hdeploy
    exact (ih ((hstep.onward hE hA).distinct hd)).step hE hA hothers hstep hd

end Runs

/-! ## The refinement -/

def AppState.notes (C : Circomlib F) (ses : Session F Proof Sig) (t : AppState F Proof Sig) :
    List (Note F) :=
  (getFreeNotes t.cache ses.address).filter
    (fun n => ∀ op ∈ t.unrecorded, ∀ e ∈ op.ends, e.commitment ≠ n.commitment) ++ t.made C ses

section Refinement

variable {E : Env F Proof Sig} {ses : Session F Proof Sig} {t : AppState F Proof Sig}

omit [Field F] [DecidableEq F] in
theorem mem_getFreeNotes_iff {cache : List (Note F)} {wallet : Address} {n : Note F} :
    n ∈ getFreeNotes cache wallet ↔
      n ∈ cashNotes cache ∧ n.spent = false ∧ n.ownerAddress = wallet := by
  simp only [getFreeNotes, cashNotes, List.mem_filter, decide_eq_true_eq, Bool.not_eq_true]
  tauto

theorem AppState.notes_sublist :
    (t.notes E.circomlib ses).Sublist (cashNotes t.cache ++ t.made E.circomlib ses) := by
  refine List.Sublist.append_right (List.filter_sublist.trans ?_) _
  have hfree : getFreeNotes t.cache ses.address
      = (cashNotes t.cache).filter fun n => ¬n.spent ∧ n.ownerAddress = ses.address := by
    unfold getFreeNotes cashNotes
    rw [List.filter_filter]
    refine List.filter_congr fun n _ => ?_
    simp only [← Bool.decide_and]
    exact decide_eq_decide.mpr (by tauto)
  rw [hfree]
  exact List.filter_sublist

omit [DecidableEq F] in
theorem sumBalances_shows {C : Circomlib F} {ns : List (Note F)} {cs : List (Polyshield.Note F)}
    (h : List.Forall₂ (fun n c => n.Shows C ses c) ns cs) :
    sumBalances ns = ((cs.map fun c => c.balance).sum : ℕ) := by
  rw [sumBalances, Related.map_eq (fun _ _ hs => hs.balance) h, Nat.cast_list_sum, List.map_map]
  rfl

/-- After a reconcile that misses nothing, what is free is unspent. -/
theorem Tracks.shows_of_reconciled (hE : E.Ideal) (hA : Tracks E ses t) {r : ReconcileReads F}
    (hr : ∀ n ∈ t.cache, r.spent n.nullifier = t.chain.state.spent n.nullifier) {n : Note F}
    (hn : n ∈ getFreeNotes (reconcileSpentStatus t.cache ses.address r) ses.address) :
    ∃ c ∈ walletNotes E.circomlib ses t.chain.state, n.Shows E.circomlib ses c := by
  obtain ⟨hmem, hun, howner⟩ := mem_getFreeNotes_iff.mp hn
  rw [cashNotes_reconcile] at hmem
  obtain ⟨n₀, hn₀, rfl⟩ := List.mem_map.mp hmem
  obtain ⟨c, hc, hs⟩ := hA.backed n₀ hn₀
  obtain ⟨hcache, hkind⟩ := mem_cashNotes.mp hn₀
  split at hun
  · exact absurd hun (by simp [Note.markSpent])
  next hmark =>
    rw [if_neg hmark] at howner ⊢
    refine ⟨c, mem_walletNotes.mpr ⟨hc, hs.owns, ?_⟩, hs⟩
    by_contra hne
    have hspent : t.chain.state.spent n₀.nullifier = true := by
      rw [hs.nullifier]
      simpa using hne
    refine hmark ⟨by simp [hun], List.any_eq_true.mpr ⟨n₀, ?_, ?_⟩⟩
    · have hne0 : n₀.nullifier ≠ 0 := hs.nullifier ▸ c.nullifier_ne_zero hE.injective
      simp [reconcileCandidates, hcache, hun, hkind, howner, hne0]
    · simp [hr n₀ hcache, hspent]

theorem Holds.unspent_of_mem_notes (h : Holds E ses t) {n : Note F}
    (hn : n ∈ t.notes E.circomlib ses) : t.chain.state.spent n.nullifier = false := by
  rcases List.mem_append.mp hn with hn | hn
  · obtain ⟨hfree, hended⟩ := List.mem_filter.mp hn
    obtain ⟨hmem, hunspent, -⟩ := mem_getFreeNotes_iff.mp hfree
    by_contra hne
    rcases h.ended n hmem (by simpa using hne) with hspent | ⟨op, hop, e, he, heq⟩
    · exact absurd (hunspent.symm.trans hspent) (by decide)
    · exact of_decide_eq_true hended op hop e he heq
  · exact h.unspent n hn

theorem Tracks.mem_notes (hE : E.Ideal) (hA : Tracks E ses t) {n : Note F}
    (hn : n ∈ cashNotes t.cache ++ t.made E.circomlib ses)
    (hspent : t.chain.state.spent n.nullifier = false) : n ∈ t.notes E.circomlib ses := by
  rcases List.mem_append.mp hn with hn | hn
  · refine List.mem_append_left _ (List.mem_filter.mpr ⟨mem_getFreeNotes_iff.mpr ⟨hn, ?_, ?_⟩, ?_⟩)
    · by_contra hne
      exact absurd (hspent.symm.trans (hA.marked n hn (by simpa using hne))) (by decide)
    · exact ((hA.keyed n (mem_cashNotes.mp hn).1).cash (mem_cashNotes.mp hn).2).1.2
    · refine decide_eq_true fun op hop e he heq => ?_
      obtain ⟨hsound, hdone⟩ := hA.unrecorded op hop
      have hnul := nullifier_eq_of_commitment hE.injective hE.wide (hsound.ends e he).2
        (hA.backed n hn) heq
      exact absurd (hspent.symm.trans (hnul ▸ hdone.ends e he)) (by decide)
  · exact List.mem_append_right _ hn

omit [DecidableEq F] in
theorem map_commitment_of_shows {C : Circomlib F} {ns : List (Note F)}
    {cs : List (Polyshield.Note F)} (h : List.Forall₂ (fun n c => n.Shows C ses c) ns cs) :
    ns.map Note.commitment = cs.map fun c => .commitment (c.commitment C) :=
  Related.map_eq (fun _ _ hs => hs.commitment) h

theorem Holds.notes_perm (hE : E.Ideal) (h : Holds E ses t) (hA : Tracks E ses t)
    (hd : DistinctNullifiers E.circomlib t.chain.state.tree) :
    ∃ cs, cs.Perm (walletNotes E.circomlib ses t.chain.state) ∧
      List.Forall₂ (fun n c => n.Shows E.circomlib ses c) (t.notes E.circomlib ses) cs := by
  have hbacked : ∀ n ∈ t.notes E.circomlib ses, n.Backed E.circomlib ses t.chain.state :=
    fun n hn => hA.backed_of_known (AppState.notes_sublist.subset hn)
  obtain ⟨cs, hcs⟩ := Related.exists_forall₂ (R := fun (n : Note F) c =>
    c ∈ hiddenNotes E.circomlib t.chain.state.tree ∧ n.Shows E.circomlib ses c) hbacked
  have hshows : List.Forall₂ (fun n c => n.Shows E.circomlib ses c) (t.notes E.circomlib ses) cs :=
    hcs.imp fun _ _ hc => hc.2
  refine ⟨cs, ?_, hshows⟩
  have hnodup : cs.Nodup := by
    refine List.Nodup.of_map (fun c => NoteId.commitment (c.commitment E.circomlib)) ?_
    rw [← map_commitment_of_shows hshows]
    exact h.once.sublist (AppState.notes_sublist.map _)
  have hwallet : (walletNotes E.circomlib ses t.chain.state).Nodup :=
    (List.Nodup.of_map _ hd).filter _
  refine (List.perm_ext_iff_of_nodup hnodup hwallet).mpr fun c => ⟨fun hc => ?_, fun hc => ?_⟩
  · obtain ⟨n, hn, hmem, hs⟩ := Related.exists_of_mem_right hcs hc
    exact mem_walletNotes.mpr ⟨hmem, hs.owns, hs.nullifier ▸ h.unspent_of_mem_notes hn⟩
  · obtain ⟨hmem, howns, hspent⟩ := mem_walletNotes.mp hc
    obtain ⟨n, hn, hs⟩ := h.shown c hmem howns
    obtain ⟨c', hc', hs'⟩ :=
      Related.exists_of_mem_left hshows (hA.mem_notes hE hn (hs.nullifier ▸ hspent))
    rwa [hs.unique hE.injective hE.wide hs']

/-- In every run of the app next to a chain on which anyone acts, a cash note of the cache is a
committed note of the wallet, marked only when it is spent, and what a complete reconcile leaves
free is unspent. Where others leave the wallet's notes alone, its unspent notes are those of the
cache and of what is not recorded, each once, so the balance that is shown is what the wallet
has as soon as everything is recorded. -/
theorem cache_refines_chain (hE : E.Ideal) {args : InitArgs} {s₀ : VaultState F}
    (hdeploy : deploy E args = .ok s₀) {Others : VaultState F → VaultState F → Prop}
    (h : AppRun E ses Others s₀ t) :
    let v := t.chain.state
    (∀ n ∈ cashNotes t.cache, n.Backed E.circomlib ses v ∧
      (n.spent = true → v.spent n.nullifier = true)) ∧
    (∀ r : ReconcileReads F, (∀ n ∈ t.cache, r.spent n.nullifier = v.spent n.nullifier) →
      ∀ n ∈ getFreeNotes (reconcileSpentStatus t.cache ses.address r) ses.address,
        ∃ c ∈ walletNotes E.circomlib ses v, n.Shows E.circomlib ses c) ∧
    ((∀ s s', Others s s' → LeavesWallet E.circomlib ses s s') →
      DistinctNullifiers E.circomlib v.tree →
      (∃ cs, cs.Perm (walletNotes E.circomlib ses v) ∧
        List.Forall₂ (fun n c => n.Shows E.circomlib ses c) (t.notes E.circomlib ses) cs) ∧
      (t.unrecorded = [] → getCashBalance t.cache ses.address
        = (((walletNotes E.circomlib ses v).map fun c => c.balance).sum : ℕ))) := by
  have hA := h.tracks hE hdeploy
  refine ⟨fun n hn => ⟨hA.backed n hn, hA.marked n hn⟩, fun r hr n hn =>
    hA.shows_of_reconciled hE hr hn, fun hothers hd => ?_⟩
  obtain ⟨cs, hperm, hshows⟩ := (h.holds hE hothers hdeploy hd).notes_perm hE hA hd
  refine ⟨⟨cs, hperm, hshows⟩, fun hnone => ?_⟩
  have hnotes : t.notes E.circomlib ses = getFreeNotes t.cache ses.address := by
    simp [AppState.notes, AppState.made, hnone]
  rw [hnotes] at hshows
  rw [getCashBalance, sumBalances_shows hshows, (hperm.map _).sum_eq]

end Refinement

noncomputable def oneDollarSession : Session ℚ Unit (OperatorAttestation ℚ × Address) where
  address := 7
  cache := []
  noteSecret := fun index _ => 1 + 2 * (index : ℚ)
  reads := ⟨fun _ => none, fun _ => none, fun _ _ => none, fun _ => none, fun _ _ => none,
    fun _ => none⟩
  prove := fun _ => some ()
  noAttestation := ⟨⟨0, 0, 0, 0⟩, ⟨0, 0, 0, 0⟩, 0⟩

/-- An operation that lands right after it is submitted is recorded. -/
theorem AppRun.operation {E : Env F Proof Sig} {ses : Session F Proof Sig}
    {Others : VaultState F → VaultState F → Prop} {s₀ v : VaultState F} {t : AppState F Proof Sig}
    (h : AppRun E ses Others s₀ t) (hidle : t.submitted = [] ∧ t.landed = [])
    (op : Operation F Proof Sig) (merkle : MerkleProof F) (proof : Proof)
    (hnotes : ∀ n ∈ op.ends, n ∈ t.cache ∧ n.IsCash ses)
    (hreceipts : ∀ n ∈ op.receipts, n ∈ t.cache ∧ n.kind = .betReceipt)
    (hadmits : op.Admits E.circomlib ses) {m : Msg}
    (hexec : exec E m t.chain.state (op.call E.circomlib ses merkle proof) = .ok v) :
    ∃ x, AppRun E ses Others s₀
      ⟨⟨v, t.chain.trace ++ [x]⟩, op.record E.circomlib ses t.cache, [], [], t.lost⟩ := by
  obtain ⟨chain, cache, submitted, landed, lost⟩ := t
  obtain ⟨rfl, rfl⟩ := hidle
  have hsubmit := h.step (.submit hnotes hreceipts hadmits)
  have hland := hsubmit.step (.land (List.nil_append _).symm hexec)
  have hconfirm := hland.step (.confirm (List.nil_append _).symm)
  exact ⟨_, hconfirm⟩

noncomputable def twoDollarCash : Note ℚ :=
  Operation.depositNote encodingCircomlib oneDollarSession 5 2000000

noncomputable def dollarBet : Bet ℚ where
  consolidated := []
  cashNote := twoDollarCash
  stake := 1000000
  fee := 2000
  priceScaled := 50000000
  shares := 2000000
  marketId := .hex 5
  conditionId := 5
  positionId := 6
  side := .yes

def dollarFailed : OperatorAttestation ℚ :=
  ⟨twoDollarNote.nullifier encodingCircomlib, reportFailed, 0, 0⟩

noncomputable def dollarRefund (i : CreditInputs ℚ) :
    Submission ℚ Unit (OperatorAttestation ℚ × Address) where
  call := .cancel i.core dollarFailed (dollarFailed, 1)
  proof := ()
  note := dollarBet.output encodingCircomlib oneDollarSession
  secret := 11
  newBalance := 2000000
  retires := true

theorem dollarBet_inputs (root : ℚ) : (dollarBet.inputs encodingCircomlib oneDollarSession
    ⟨[], [], root⟩).publicInputs = dollarBetInputs root := by
  have hsecret : dollarBet.secret oneDollarSession = 11 := by
    norm_num [Bet.secret, dollarBet, twoDollarCash, oneDollarSession, Operation.depositNote]
  have hkey : circuitKey 5 = (5 : ℚ) := by norm_num [circuitKey, bn254P]
  have hnul : dollarBet.nullifier encodingCircomlib oneDollarSession
      = twoDollarNote.nullifier encodingCircomlib := by
    rw [Bet.nullifier, hsecret]
    rfl
  have hcom : dollarBet.newCommitment encodingCircomlib oneDollarSession
      = NoteCommitment encodingCircomlib 11 998000 1 ((7 : Address).toNat : ℚ) := by
    rw [Bet.newCommitment, hsecret, show dollarBet.newBalance = 998000 from rfl]
    show NoteCommitment encodingCircomlib 11 ((998000 : ℤ) : ℚ) ((1 : ℕ) : ℚ) _ = _
    rw [Nat.cast_one]
    rfl
  simp only [Bet.inputs, BetAuthInputs.publicInputs, hnul, hcom, show dollarBet.conditionId = 5
    from rfl, hkey]
  rfl

/-- The bet failed, and the stake and the fee are credited. -/
theorem exec_cancel_dollar {s : VaultState ℚ} (hs : BooksInv encodingEnv s)
    (hres : Reserves encodingEnv s) {n : Polyshield.Note ℚ}
    (hcont : Continues encodingCircomlib s twoDollarNote n) (hbalance : n.balance = 998000)
    (hpaused : s.paused = false) (hroom : s.tree.leaves.length < 2 ^ treeDepth)
    (hoperator : s.signingLayerOperator = 1)
    (hrecord : s.betRecords (twoDollarNote.nullifier encodingCircomlib) = dollarBetRecord)
    (hfee : s.betProtocolFee (twoDollarNote.nullifier encodingCircomlib) = 2000) :
    ∃ (i : CreditInputs ℚ) (next : Polyshield.Note ℚ) (s' : VaultState ℚ),
      i.nullifier = n.nullifier encodingCircomlib ∧
      i.newCommitment = NoteCommitment encodingCircomlib 11 2000000 2 ((7 : Address).toNat : ℚ) ∧
      exec encodingEnv ⟨7, 2⟩ s (.betCancellationCredit () i.core dollarFailed (dollarFailed, 1))
        = .ok s' ∧ Continues encodingCircomlib s' n next := by
  obtain ⟨hsec, howner, hnonce⟩ := hcont.follows
  have hsigner : encodingEnv.recover dollarFailed (dollarFailed, 1)
      = some s.signingLayerOperator := by
    rw [hoperator]
    simp [encodingEnv]
  have hdue : Due encodingEnv s (twoDollarNote.nullifier encodingCircomlib) dollarFailed
      (dollarFailed, 1) .cancel (UInt64.toNat 1002000) := by
    have h : Due encodingEnv s _ dollarFailed (dollarFailed, 1) .cancel _ :=
      .cancel (.inr ⟨(congrArg BetRecord.status hrecord).trans rfl, rfl, .inl rfl, hsigner⟩)
    rw [hrecord, hfee] at h
    exact h
  obtain ⟨i, ⟨⟩, s', hi, hx, hcredited⟩ := hres.exists_credit encodingEnv_ideal hs hcont.mem
    hcont.unspent hsec (by rw [hnonce]; decide) (a := 7) howner.symm hrecord
    (by norm_num [dollarBetRecord]) (by decide) hdue hpaused (by rw [hbalance]; decide) hroom
    ⟨7, 2⟩
  obtain ⟨next, hnext, -⟩ := hcredited.continues
  refine ⟨i, next, s', hi.spends.nullifier, ?_, hx, hnext⟩
  rw [hi.next (by rw [hbalance]; decide), hsec, howner, hnonce, hbalance]
  rfl

theorem exists_refunded : ∃ (i : BetAuthInputs ℚ) (c : CreditInputs ℚ) (s₁ s₂ s₃ : VaultState ℚ),
    exec encodingEnv ⟨7, 1⟩ twoDollarVault
      (.deposit () (twoDollarNote.commitment encodingCircomlib) 2000000) = .ok s₁ ∧
    exec encodingEnv ⟨1, 1⟩ s₁ (.authorizeBet () (dollarBetInputs i.merkleRoot)) = .ok s₂ ∧
    exec encodingEnv ⟨7, 2⟩ s₂ (.betCancellationCredit () c.core dollarFailed (dollarFailed, 1))
      = .ok s₃ ∧
    c.nullifier = NullifierHash encodingCircomlib 11 1 ∧
    c.newCommitment = NoteCommitment encodingCircomlib 11 2000000 2 ((7 : Address).toNat : ℚ) ∧
    DistinctNullifiers encodingCircomlib s₃.tree := by
  have hdeploy : deploy encodingEnv twoDollarArgs = .ok twoDollarVault := rfl
  obtain ⟨s₁, hx₁, hs₁⟩ := exec_two_dollar
  obtain ⟨hhidden, hleaves, hun, hpaused, hoperator, hfees⟩ := runActions_two_dollar_deposit
  rw [← hs₁] at hhidden hleaves hun hpaused hoperator hfees
  have hrun₀ : runActions encodingEnv twoDollarVault [] = ⟨twoDollarVault, []⟩ := rfl
  have hrun₁ : runActions encodingEnv twoDollarVault [twoDollarDeposit] = _ :=
    (runActions_snoc hrun₀ hx₁ :)
  have hch₁ := notesHistory_runActions encodingEnv_ideal hdeploy [twoDollarDeposit]
  have hres₁ := reserves_runActions encodingEnv_ideal hdeploy [twoDollarDeposit]
  rw [hrun₁] at hch₁ hres₁
  obtain ⟨i, t, n, s₂, hpublic, hlen, hcont, hbalance, hx₂, hs₂⟩ := exec_dollar_bet hch₁.books hres₁
    1 (hhidden ▸ List.mem_singleton_self _) hun hpaused hfees (by rw [hleaves]; decide)
  have hrun₂ : runActions encodingEnv twoDollarVault [twoDollarDeposit, twoDollarBet i] = _ :=
    (runActions_snoc hrun₁ hx₂ :)
  have hch₂ := notesHistory_runActions encodingEnv_ideal hdeploy [twoDollarDeposit, twoDollarBet i]
  have hres₂ := reserves_runActions encodingEnv_ideal hdeploy [twoDollarDeposit, twoDollarBet i]
  rw [hrun₂] at hch₂ hres₂
  obtain ⟨c, next, s₃, hnul, hcom, hx₃, hcont'⟩ := exec_cancel_dollar hch₂.books hres₂ hcont
    hbalance (by rw [hs₂]; exact hpaused) (by rw [hs₂, hlen, hleaves]; decide)
    (by rw [hs₂]; exact hoperator) (by simp only [hs₂, Function.update_self])
    (by simp only [hs₂, Function.update_self])
  refine ⟨i, c, s₁, s₂, s₃, hx₁, hpublic ▸ hx₂, hx₃, ?_, hcom, ?_⟩
  · rw [hnul, Polyshield.Note.nullifier, hcont.follows.secret, hcont.follows.nonce]
    norm_num [twoDollarNote, oneDollarNote]
  · have hall : [twoDollarNote, n, next] ⊆ hiddenNotes encodingCircomlib s₃.tree := by
      have hfirst := mem_hiddenNotes_exec encodingEnv_ideal hch₂.books hx₃
        (mem_hiddenNotes_exec encodingEnv_ideal hch₁.books hx₂
          (hhidden ▸ List.mem_singleton_self _))
      have hsecond := mem_hiddenNotes_exec encodingEnv_ideal hch₂.books hx₃ hcont.mem
      exact List.cons_subset.mpr ⟨hfirst, List.cons_subset.mpr ⟨hsecond, by
        simpa using hcont'.mem⟩⟩
    have hlength : (hiddenNotes encodingCircomlib s₃.tree).length ≤ 3 := by
      have h₁ : (hiddenNotes encodingCircomlib s₁.tree).length = 1 := by rw [hhidden]; rfl
      have h₂ := length_hiddenNotes_exec encodingEnv_ideal hch₁.books hx₂
      have h₃ := length_hiddenNotes_exec encodingEnv_ideal hch₂.books hx₃
      have h₂' : (hiddenNotes encodingCircomlib s₂.tree).length ≤ 1 + 1 := h₁ ▸ h₂
      exact h₃.trans (Nat.succ_le_succ h₂')
    have hne {a b : Polyshield.Note ℚ} (hab : a.nonce ≠ b.nonce) :
        a.nullifier encodingCircomlib ≠ b.nullifier encodingCircomlib := fun heq =>
      hab (Note.nullifier_inj encodingEnv_ideal.injective encodingEnv_ideal.wide heq).2
    have hnonce : twoDollarNote.nonce = 0 ∧ n.nonce = 1 ∧ next.nonce = 2 := by
      refine ⟨rfl, hcont.follows.nonce, ?_⟩
      rw [hcont'.follows.nonce, hcont.follows.nonce]
      rfl
    obtain ⟨h0, h1, h2⟩ := hnonce
    have hnodup :
        ([twoDollarNote, n, next].map (Polyshield.Note.nullifier encodingCircomlib)).Nodup := by
      simp only [List.map_cons, List.map_nil, List.nodup_cons, List.mem_cons, List.not_mem_nil,
        or_false, not_or, not_false_eq_true, List.nodup_nil, and_true]
      exact ⟨⟨hne (by omega), hne (by omega)⟩, hne (by omega)⟩
    exact ((List.subperm_of_subset hnodup (List.map_subset _ hall)).perm_of_length_le
      (by simpa using hlength)).nodup_iff.mp hnodup

/-- A bet has failed and is credited back; once all of it is recorded, the balance is what the
wallet has. -/
theorem cache_refines_two_dollars :
    ∃ t, AppRun encodingEnv oneDollarSession (LeavesWallet encodingCircomlib oneDollarSession)
        twoDollarVault t ∧ t.chain.trace.length = 3 ∧
      getCashBalance t.cache 7 = (((walletNotes encodingCircomlib oneDollarSession
        t.chain.state).map fun c => c.balance).sum : ℕ) := by
  have hs : deploy encodingEnv twoDollarArgs = .ok twoDollarVault := rfl
  obtain ⟨i, c, s₁, s₂, s₃, hx₁, hx₂, hx₃, hnul, hcom, hdistinct⟩ := exists_refunded
  have hdeposit : computeCommitment encodingCircomlib (oneDollarSession.noteSecret 5 .v2)
      (2000000 : ℕ) 0 oneDollarSession.address = twoDollarNote.commitment encodingCircomlib := by
    norm_num [computeCommitment, Polyshield.Note.commitment, twoDollarNote, oneDollarNote,
      oneDollarSession]
  rw [← hdeposit] at hx₁
  rw [← dollarBet_inputs] at hx₂
  have hsecret : oneDollarSession.noteSecret 5 .v2 = 11 := by norm_num [oneDollarSession]
  have hadmits : (.bet dollarBet : Operation ℚ Unit (OperatorAttestation ℚ × Address)).Admits
      encodingCircomlib oneDollarSession := by
    show (0 : ℤ) ≤ 998000 ∧ (998000 : ℤ) ≤ (2000000 : ℕ)
    decide
  have hcredit : (Operation.credit (dollarRefund c) (dollarBet.receipt encodingCircomlib
      oneDollarSession)).Admits encodingCircomlib oneDollarSession := by
    refine ⟨⟨1002000, by decide, by decide, rfl⟩, hsecret.symm, ?_, ?_⟩
    · show c.nullifier = computeNullifier encodingCircomlib (oneDollarSession.noteSecret 5 .v2) 1
      rw [hnul, hsecret, computeNullifier, Nat.cast_one]
    · show c.newCommitment = computeCommitment encodingCircomlib 11 2000000 2 7
      rw [hcom]
      rfl
  have hstart : AppRun encodingEnv oneDollarSession
      (LeavesWallet encodingCircomlib oneDollarSession) twoDollarVault _ := .initial
  obtain ⟨x₁, hrun₁⟩ := hstart.operation ⟨rfl, rfl⟩ (.deposit 5 2000000) ⟨[], [], 0⟩ ()
    (fun n hn => by cases hn) (fun n hn => by cases hn) trivial hx₁
  obtain ⟨x₂, hrun₂⟩ := hrun₁.operation ⟨rfl, rfl⟩ (.bet dollarBet) ⟨[], [], i.merkleRoot⟩ ()
    (fun n hn => List.mem_singleton.mp hn ▸ ⟨List.mem_singleton_self _, by rintro ⟨⟩, rfl⟩)
    (fun n hn => by cases hn) hadmits hx₂
  obtain ⟨x₃, hrun₃⟩ := hrun₂.operation ⟨rfl, rfl⟩
    (.credit (dollarRefund c) (dollarBet.receipt encodingCircomlib oneDollarSession))
    ⟨[], [], 0⟩ ()
    (fun n hn => List.mem_singleton.mp hn ▸ ⟨List.mem_append_left _
      (List.mem_append_right _ (List.mem_singleton_self _)), by rintro ⟨⟩, rfl⟩)
    (fun n hn => List.mem_singleton.mp hn ▸ ⟨List.mem_append_right _ (List.mem_singleton_self _),
      rfl⟩) hcredit hx₃
  refine ⟨_, hrun₃, rfl, ?_⟩
  exact ((cache_refines_chain encodingEnv_ideal hs hrun₃).2.2 (fun _ _ h => h) hdistinct).2 rfl

end Polyshield.Wallet
