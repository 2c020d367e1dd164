import Polyshield.Operator.Settlement
import Polyshield.Vault.Exits

/-!
# What the settlement poll has given up on

A key that the poll no longer looks at is resolved at the Vault, or its
condition is N/A and registered, as long as no transaction of the poll fails and
no batch of numerators loses the ones that are not zero. The invariant says what
each stage of a tick already knows about its market.
-/

namespace Polyshield.Operator

variable {F Proof Sig : Type} [Field F] [DecidableEq F] {E : Env F Proof Sig}

/-! ## What the chain never takes back -/

/-- The log is of a successful `registerCondition` for the condition. -/
def registers (conditionId : ℕ) : Event F → Bool
  | .conditionRegistered _ c => c = conditionId
  | _ => false

/-- `registerCondition` has succeeded for the condition. -/
def isRegistered (v : VaultState F) (conditionId : ℕ) : Bool := v.logs.any (registers conditionId)

/-- The CTF has taken a report of the condition. -/
def isReported (v : VaultState F) (conditionId : ℕ) : Prop :=
  v.ctf.payoutDenominator conditionId ≠ 0

instance (v : VaultState F) (conditionId : ℕ) : Decidable (isReported v conditionId) :=
  inferInstanceAs (Decidable (_ ≠ _))

instance (ctf : Ctf) (conditionId : ℕ) : Decidable (ctf.IsNA conditionId) := by
  unfold Ctf.IsNA
  infer_instance

def isResolved (v : VaultState F) (key : ℕ) : Prop := v.marketResolvedAt (key : F) ≠ 0

instance (v : VaultState F) (key : ℕ) : Decidable (isResolved v key) :=
  inferInstanceAs (Decidable (_ ≠ _))

structure Progress (v v' : VaultState F) : Prop where
  resolved : ∀ key, v.marketResolvedAt key ≠ 0 → v'.marketResolvedAt key = v.marketResolvedAt key
  reported : ∀ c, isReported v c →
    v'.ctf.payoutDenominator c = v.ctf.payoutDenominator c ∧
      v'.ctf.payoutNumerators c = v.ctf.payoutNumerators c ∧
      v'.ctf.getOutcomeSlotCount c = v.ctf.getOutcomeSlotCount c
  registered : ∀ c, isRegistered v c = true → isRegistered v' c = true

namespace Progress

variable {v v' : VaultState F} {c : ℕ}

omit [DecidableEq F] in
theorem isResolved {key : ℕ} (h : Progress v v') (hr : isResolved v key) :
    Operator.isResolved v' key := by
  unfold Operator.isResolved
  rw [h.resolved _ hr]
  exact hr

omit [Field F] [DecidableEq F] in
theorem isReported (h : Progress v v') (hr : isReported v c) : Operator.isReported v' c := by
  unfold Operator.isReported
  rw [(h.reported c hr).1]
  exact hr

omit [Field F] [DecidableEq F] in
theorem isNA_iff (h : Progress v v') (hr : Operator.isReported v c) :
    v'.ctf.IsNA c ↔ v.ctf.IsNA c := by
  obtain ⟨-, h2, h3⟩ := h.reported c hr
  unfold Ctf.IsNA
  rw [h2, h3]

theorem exec {m : Msg} {call : Call F Proof Sig} (h : exec E m v call = .ok v') :
    Progress v v' := by
  obtain ⟨⟨hctf, ⟨events, hlogs⟩, -⟩, hpay⟩ := frame_exec h
  refine ⟨fun key hkey => ?_, fun c _ => ?_, fun c hc => ?_⟩
  · rcases hpay with ⟨-, h2⟩ | ⟨c', h0, -, hkeep⟩
    · rw [h2]
    · exact (hkeep key fun e => hkey (e ▸ h0)).2
  · rw [hctf]
    exact ⟨rfl, rfl, rfl⟩
  · unfold isRegistered at hc ⊢
    rw [hlogs, List.any_append, hc, Bool.true_or]

section

omit [Field F] [DecidableEq F]

theorem report {numerators : List ℕ} {denominator : ℕ} (h : v.ctf.payoutDenominator c = 0) :
    Progress v { v with ctf := reportPayouts v.ctf c numerators denominator } := by
  refine ⟨fun _ _ => rfl, fun c' hc' => ?_, fun _ hc => hc⟩
  have hne : c' ≠ c := fun e => hc' (e ▸ h)
  exact ⟨Function.update_of_ne hne .., Function.update_of_ne hne .., Function.update_of_ne hne ..⟩

theorem setUsdc (usdc : Usdc) : Progress v { v with usdc := usdc } :=
  ⟨fun _ _ => rfl, fun _ _ => ⟨rfl, rfl, rfl⟩, fun _ h => h⟩

theorem refl (v : VaultState F) : Progress v v :=
  ⟨fun _ _ => rfl, fun _ _ => ⟨rfl, rfl, rfl⟩, fun _ h => h⟩

end

end Progress

/-! ## Batches tell the truth -/

/-- A number other than zero in a batch is the value read. -/
structure Batch.Truthful (v : VaultState F) (b : Batch) : Prop where
  length_le : b.results.length ≤ b.reads.length
  value : ∀ (j : ℕ) (read : UintRead) (n : ℕ), b.reads[j]? = some read →
    b.results[j]? = some (some n) → n ≠ 0 → read.eval v = n

namespace Batch.Truthful

variable {v v' : VaultState F} {b b' : Batch}

section

omit [DecidableEq F]

theorem start (reads : List UintRead) : Truthful v (Batch.start reads) :=
  ⟨Nat.zero_le _, fun j read n _ h => by simp [Batch.start] at h⟩

theorem result_eq {read : UintRead} {succeeded : Bool} {n : ℕ}
    (h : Batch.result v read succeeded = some n) : read.eval v = n := by
  unfold Batch.result at h
  split at h
  · exact Option.some.inj h
  · cases h

theorem answer {a : BatchAnswer} (hb : Truthful v b) (h : b.answer v a = some b') :
    Truthful v b' ∧ b'.reads = b.reads := by
  cases a with
  | aggregate succeeded =>
    simp only [Batch.answer, Option.ite_none_right_eq_some, Option.some.injEq] at h
    obtain ⟨⟨-, hlen⟩, rfl⟩ := h
    refine ⟨⟨?_, fun j read n hread hres _ => ?_⟩, rfl⟩
    · simp [List.length_zipWith]
    · simp only [List.getElem?_zipWith] at hres hread
      rw [hread] at hres
      cases hs : succeeded[j]? with
      | none => rw [hs] at hres; cases hres
      | some ok =>
        rw [hs] at hres
        exact result_eq (Option.some.inj hres)
  | single succeeded =>
    simp only [Batch.answer] at h
    split at h
    case h_2 => cases h
    case h_1 read hread =>
      cases h
      have hlt := (List.getElem?_eq_some_iff.mp hread).1
      refine ⟨⟨?_, fun j read' n hread' hres hn => ?_⟩, rfl⟩
      · simp only [List.length_append, List.length_singleton]
        omega
      · rw [List.getElem?_append] at hres
        split at hres
        · exact hb.value j read' n hread' hres hn
        · -- the new result is the last one
          obtain ⟨hlast, hres⟩ := List.getElem?_eq_some_iff.mp hres
          obtain rfl : j = b.results.length := by simp at hlast; omega
          rw [hread] at hread'
          cases hread'
          simp only [Nat.sub_self, List.getElem_singleton] at hres
          exact result_eq hres

theorem mono (hb : Truthful v b) (hp : ∀ read ∈ b.reads, read.eval v ≠ 0 →
    read.eval v' = read.eval v) : Truthful v' b := by
  refine ⟨hb.length_le, fun j read n hread hres hn => ?_⟩
  have hv := hb.value j read n hread hres hn
  rw [hp read (List.mem_of_getElem? hread) (hv ▸ hn), hv]

/-- The results of a batch of one kind of read, next to what was read. -/
theorem zip {α : Type} {f : α → UintRead} {l : List α} (hb : Truthful v b)
    (hreads : b.reads = l.map f) {x : α} {r : Option ℕ} (hx : (x, r) ∈ l.zip b.results)
    (hr : r.getD 0 ≠ 0) : (f x).eval v ≠ 0 := by
  obtain ⟨j, hj⟩ := List.mem_iff_getElem?.mp hx
  obtain ⟨h1, h2⟩ := List.getElem?_zip_eq_some.mp hj
  cases r with
  | none => exact absurd rfl hr
  | some n =>
    rw [Option.getD_some] at hr
    have hread : b.reads[j]? = some (f x) := by rw [hreads, List.getElem?_map, h1]; rfl
    rw [hb.value j _ n hread h2 hr]
    exact hr

end

end Batch.Truthful

/-! ## The invariant -/

/-- A key the poll may forget. -/
def Finished (v : VaultState F) (key : ℕ) : Prop :=
  isResolved v key ∨ ∃ c, toFieldSafe c = key ∧ isReported v c ∧ v.ctf.IsNA c ∧
    isRegistered v c = true

/-- What a tick knows about its market at each stage. -/
def StageOk (v : VaultState F) (m : Checkable) : Stage → Prop
  | .blockNumber | .slotCount => True
  | .numerators b =>
    b.reads = Resolver.numeratorReads m.raw (v.ctf.getOutcomeSlotCount m.raw) ∧ b.Truthful v
  | .registering mined => v.ctf.IsNA m.raw ∧ (mined = true → isRegistered v m.raw = true)
  | .resolvedAt => ¬ v.ctf.IsNA m.raw
  | .pipelineSlotCount resolvedAt =>
    ¬ v.ctf.IsNA m.raw ∧ (resolvedAt ≠ 0 → isResolved v m.reducedKey)
  | .pipelineNumerators resolvedAt b =>
    ¬ v.ctf.IsNA m.raw ∧ (resolvedAt ≠ 0 → isResolved v m.reducedKey) ∧
      b.reads = Resolver.numeratorReads m.raw (v.ctf.getOutcomeSlotCount m.raw) ∧ b.Truthful v
  | .denominator resolvedAt numerators =>
    (resolvedAt ≠ 0 → isResolved v m.reducedKey) ∧ ∃ n ∈ numerators, n ≠ 0
  | .resolving mined => mined = true → isResolved v m.reducedKey
  | .redeeming => isResolved v m.reducedKey

/-- The markets a loop still has to handle are reported. -/
def RestOk (v : VaultState F) (rest : List (Checkable × Option ℕ)) : Prop :=
  ∀ x ∈ rest, x.2.getD 0 ≠ 0 → isReported v x.1.raw

def TickOk (v : VaultState F) (now : ℕ) : TickTask → Prop
  | .resolvedAts nowMs eligible b =>
    nowMs ≤ now ∧ b.reads = eligible.map (fun m => .marketResolvedAt m.reducedKey) ∧ b.Truthful v
  | .denominators nowMs checkable b =>
    nowMs ≤ now ∧ b.reads = checkable.map (fun c => .payoutDenominator c.raw) ∧ b.Truthful v
  | .handling nowMs m stage rest =>
    nowMs ≤ now ∧ isReported v m.raw ∧ RestOk v rest ∧ StageOk v m stage

structure PollInv (s : Resolver F) : Prop where
  /-- The CTF reports no condition without slots. -/
  prepared : ∀ c, isReported s.vault c → s.vault.ctf.getOutcomeSlotCount c ≠ 0
  finished : ∀ key ∈ s.resolvedMarkets, Finished s.vault key
  ticks : ∀ t ∈ s.ticks, TickOk s.vault s.now t
  backoff : ∀ b ∈ s.settleBackoff, b.nextAt ≤ s.now + settleBackoffMaxMs

section Mono

variable {v v' : VaultState F}

section

omit [DecidableEq F]

theorem Finished.mono (hp : Progress v v') {key : ℕ} (h : Finished v key) : Finished v' key := by
  rcases h with h | ⟨c, hc, hr, hna, hreg⟩
  · exact .inl (hp.isResolved h)
  · exact .inr ⟨c, hc, hp.isReported hr, (hp.isNA_iff hr).mpr hna, hp.registered c hreg⟩

theorem Batch.Truthful.mono_numerators (hp : Progress v v') {c : ℕ} (hr : isReported v c)
    {b : Batch} (hreads : b.reads = Resolver.numeratorReads c (v.ctf.getOutcomeSlotCount c))
    (h : b.Truthful v) :
    b.reads = Resolver.numeratorReads c (v'.ctf.getOutcomeSlotCount c) ∧ b.Truthful v' := by
  obtain ⟨-, hnum, hslots⟩ := hp.reported c hr
  refine ⟨by rw [hslots, hreads], h.mono fun read hread _ => ?_⟩
  rw [hreads, Resolver.numeratorReads] at hread
  obtain ⟨i, -, rfl⟩ := List.mem_map.mp hread
  exact congrFun hnum i

theorem StageOk.mono (hp : Progress v v') {m : Checkable} (hr : isReported v m.raw) {stage : Stage}
    (h : StageOk v m stage) : StageOk v' m stage := by
  cases stage with
  | blockNumber | slotCount => trivial
  | numerators b => exact Batch.Truthful.mono_numerators hp hr h.1 h.2
  | registering mined => exact ⟨(hp.isNA_iff hr).mpr h.1, fun hm => hp.registered _ (h.2 hm)⟩
  | resolvedAt => exact fun hna => h ((hp.isNA_iff hr).mp hna)
  | pipelineSlotCount resolvedAt =>
    exact ⟨fun hna => h.1 ((hp.isNA_iff hr).mp hna), fun hm => hp.isResolved (h.2 hm)⟩
  | pipelineNumerators resolvedAt b =>
    exact ⟨fun hna => h.1 ((hp.isNA_iff hr).mp hna), fun hm => hp.isResolved (h.2.1 hm),
      Batch.Truthful.mono_numerators hp hr h.2.2.1 h.2.2.2⟩
  | denominator resolvedAt numerators => exact ⟨fun hm => hp.isResolved (h.1 hm), h.2⟩
  | resolving mined => exact fun hm => hp.isResolved (h hm)
  | redeeming => exact hp.isResolved h

theorem TickOk.mono (hp : Progress v v') {now now' : ℕ} (hn : now ≤ now') {t : TickTask}
    (h : TickOk v now t) : TickOk v' now' t := by
  cases t with
  | resolvedAts nowMs eligible b =>
    obtain ⟨h1, h2, h3⟩ := h
    refine ⟨h1.trans hn, h2, h3.mono fun read hread h0 => ?_⟩
    rw [h2] at hread
    obtain ⟨m, -, rfl⟩ := List.mem_map.mp hread
    have hres : v.marketResolvedAt (m.reducedKey : F) ≠ 0 := fun e => h0 (by
      rw [UintRead.eval, e]
      rfl)
    exact congrArg UInt64.toNat (hp.resolved _ hres)
  | denominators nowMs checkable b =>
    obtain ⟨h1, h2, h3⟩ := h
    refine ⟨h1.trans hn, h2, h3.mono fun read hread h0 => ?_⟩
    rw [h2] at hread
    obtain ⟨c, -, rfl⟩ := List.mem_map.mp hread
    exact (hp.reported c.raw h0).1
  | handling nowMs m stage rest =>
    obtain ⟨h1, h2, h3, h4⟩ := h
    exact ⟨h1.trans hn, hp.isReported h2, fun x hx hd => hp.isReported (h3 x hx hd), h4.mono hp h2⟩

theorem PollInv.setVault {s : Resolver F} (hs : PollInv s) (hp : Progress s.vault v')
    (hprep : ∀ c, isReported v' c → v'.ctf.getOutcomeSlotCount c ≠ 0) :
    PollInv (s.setVault v') :=
  ⟨hprep, fun key hkey => (hs.finished key hkey).mono hp,
    fun t ht => (hs.ticks t ht).mono hp le_rfl, hs.backoff⟩

end

end Mono

/-! ## What each part of a tick keeps -/

namespace PollInv

variable {s : Resolver F} {nowMs : ℕ}

section

omit [DecidableEq F]

theorem addTick (hs : PollInv s) {t : TickTask} (ht : TickOk s.vault s.now t) :
    PollInv (s.addTick t) :=
  ⟨hs.prepared, hs.finished, fun t' ht' => (List.mem_append.mp ht').elim (hs.ticks t') fun h =>
    List.mem_singleton.mp h ▸ ht, hs.backoff⟩

theorem dropTick (hs : PollInv s) (i : ℕ) : PollInv (s.dropTick i) :=
  ⟨hs.prepared, hs.finished, fun t ht => hs.ticks t (List.mem_of_mem_eraseIdx ht), hs.backoff⟩

theorem addResolved (hs : PollInv s) {key : ℕ} (h : Finished s.vault key) :
    PollInv (s.addResolved key) :=
  ⟨hs.prepared, fun k hk => (List.mem_insert_iff.mp hk).elim (fun e => e ▸ h) (hs.finished k),
    hs.ticks, hs.backoff⟩

theorem deleteBackoff (hs : PollInv s) (key : ℕ) : PollInv (s.deleteBackoff key) :=
  ⟨hs.prepared, hs.finished, hs.ticks, fun b hb => hs.backoff b (List.mem_of_mem_filter hb)⟩

theorem backoffMarket (hs : PollInv s) (key : ℕ) (hn : nowMs ≤ s.now) :
    PollInv (s.backoffMarket key nowMs) := by
  refine ⟨hs.prepared, hs.finished, hs.ticks, fun b hb => ?_⟩
  rcases List.mem_append.mp hb with hb | hb
  · exact hs.backoff b (List.mem_of_mem_filter hb)
  · rw [List.mem_singleton.mp hb]
    exact Nat.add_le_add hn (Nat.min_le_left _ _)

theorem loop (hs : PollInv s) (hn : nowMs ≤ s.now) {rest : List (Checkable × Option ℕ)}
    (hrest : RestOk s.vault rest) : PollInv (s.loop nowMs rest) := by
  induction rest generalizing s with
  | nil => exact hs
  | cons x rest ih =>
    obtain ⟨m, denom⟩ := x
    have htail : RestOk s.vault rest := fun y hy => hrest y (List.mem_cons_of_mem _ hy)
    unfold Resolver.loop
    split
    · exact ih (hs.backoffMarket m.reducedKey hn) hn htail
    · exact hs.addTick ⟨hn, hrest _ (List.mem_cons_self ..) ‹_›, htail, trivial⟩

theorem settled (hs : PollInv s) (hn : nowMs ≤ s.now) {m : Checkable}
    {rest : List (Checkable × Option ℕ)} (hrest : RestOk s.vault rest)
    (h : Finished s.vault m.reducedKey) : PollInv (s.settled nowMs m rest) :=
  ((hs.addResolved h).deleteBackoff m.reducedKey).loop hn hrest

theorem settlementFailed (hs : PollInv s) (hn : nowMs ≤ s.now) {m : Checkable}
    {rest : List (Checkable × Option ℕ)} (hrest : RestOk s.vault rest) :
    PollInv (s.settlementFailed nowMs m rest) :=
  (hs.backoffMarket m.reducedKey hn).loop hn hrest

theorem collect (hs : PollInv s) (hn : nowMs ≤ s.now) (eligible : List TrackedMarket) :
    PollInv (s.collect nowMs eligible).1 ∧ (s.collect nowMs eligible).1.vault = s.vault ∧
      (s.collect nowMs eligible).1.now = s.now := by
  induction eligible generalizing s with
  | nil => exact ⟨hs, rfl, rfl⟩
  | cons m ms ih =>
    unfold Resolver.collect
    split
    · exact ih (hs.backoffMarket m.reducedKey hn) hn
    · exact ih hs hn

theorem startDenominators (hs : PollInv s) (hn : nowMs ≤ s.now) (eligible : List TrackedMarket) :
    PollInv (s.startDenominators nowMs eligible) := by
  obtain ⟨h1, h2, h3⟩ := hs.collect hn eligible
  simp only [Resolver.startDenominators]
  split
  · exact h1
  · exact h1.addTick ⟨h3 ▸ hn, rfl, .start _⟩

theorem tick (hs : PollInv s) : PollInv s.tick := by
  unfold Resolver.tick
  dsimp only
  split
  · exact hs
  · split
    · exact hs.startDenominators le_rfl _
    · exact hs.addTick ⟨le_rfl, rfl, .start _⟩

theorem dropResolved (hs : PollInv s) {l : List (TrackedMarket × Option ℕ)}
    (hl : ∀ x ∈ l, x.2.getD 0 ≠ 0 → isResolved s.vault x.1.reducedKey) :
    PollInv (s.dropResolved l).1 ∧ (s.dropResolved l).1.now = s.now := by
  induction l generalizing s with
  | nil => exact ⟨hs, rfl⟩
  | cons x l ih =>
    obtain ⟨m, at_⟩ := x
    have htail := fun y hy => hl y (List.mem_cons_of_mem _ hy)
    unfold Resolver.dropResolved
    split
    · rename_i hpos
      have hres := hl _ (List.mem_cons_self ..) (Nat.pos_iff_ne_zero.mp hpos)
      exact ih ((hs.addResolved (.inl hres)).deleteBackoff m.reducedKey) htail
    · exact ih hs htail

theorem classify (hs : PollInv s) (hn : nowMs ≤ s.now) {m : Checkable}
    {rest : List (Checkable × Option ℕ)} (hrest : RestOk s.vault rest)
    (hr : isReported s.vault m.raw) {numerators : List ℕ}
    (hnum : numerators ≠ [])
    (hna : (∀ n ∈ numerators, n = 0) ↔ s.vault.ctf.IsNA m.raw) :
    PollInv (s.classify nowMs m rest numerators) := by
  unfold Resolver.classify
  split
  · rename_i h
    have h0 : ∀ n ∈ numerators, n = 0 := by simpa using h.2
    exact hs.addTick ⟨hn, hr, hrest, hna.mp h0, fun h => by cases h⟩
  · rename_i h
    refine hs.addTick ⟨hn, hr, hrest, fun hna' => h ⟨List.length_pos_of_ne_nil hnum, ?_⟩⟩
    simpa using hna.mpr hna'

theorem pipeline (hs : PollInv s) (hn : nowMs ≤ s.now) {m : Checkable}
    {rest : List (Checkable × Option ℕ)} (hrest : RestOk s.vault rest)
    (hr : isReported s.vault m.raw) {resolvedAt : ℕ} {numerators : List ℕ}
    (hat : resolvedAt ≠ 0 → isResolved s.vault m.reducedKey) (hnum : ∃ n ∈ numerators, n ≠ 0) :
    PollInv (s.pipeline nowMs m rest resolvedAt numerators
      (s.vault.ctf.payoutDenominator m.raw)) := by
  obtain ⟨n, hmem, hn0⟩ := hnum
  unfold Resolver.pipeline
  rw [if_neg hr, if_neg fun h => hn0 (by simpa using List.all_eq_true.mp h n hmem)]
  split
  · exact hs.addTick ⟨hn, hr, hrest, hat (Nat.pos_iff_ne_zero.mp ‹_›)⟩
  · exact hs.addTick ⟨hn, hr, hrest, fun h => by cases h⟩

end

end PollInv

/-! ## Every run -/

/-- The numerators of a complete batch tell whether the condition is N/A. -/
def KeepsNumerators (v : VaultState F) (raw : ℕ) : Option Batch → Prop
  | some b => b.complete → v.ctf.IsNA raw ∨ ∃ n ∈ b.values, n ≠ 0
  | none => True

instance (v : VaultState F) (raw : ℕ) (b : Option Batch) : Decidable (KeepsNumerators v raw b) := by
  unfold KeepsNumerators
  split <;> infer_instance

/-- No batch of numerators loses every one that is not zero, `registerCondition` fails only for a
registered condition, and `resolveMarket` only for a resolved market. -/
def PollTidy (s : Resolver F) : PollAction F Proof Sig → Prop
  | .batch i a =>
    match s.ticks[i]? with
    | some (.handling _ m (.numerators b) _) => KeepsNumerators s.vault m.raw (b.answer s.vault a)
    | some (.handling _ m (.pipelineNumerators _ b) _) =>
      KeepsNumerators s.vault m.raw (b.answer s.vault a)
    | _ => True
  | .returned i false =>
    match s.ticks[i]? with
    | some (.handling _ m (.registering _) _) => isRegistered s.vault m.raw = true
    | some (.handling _ m (.resolving _) _) => isResolved s.vault m.reducedKey
    | _ => True
  | _ => True

instance (s : Resolver F) (a : PollAction F Proof Sig) : Decidable (PollTidy s a) := by
  unfold PollTidy
  split <;> (try split) <;> infer_instance

namespace Batch.Truthful

variable {v : VaultState F} {b : Batch} {raw : ℕ}

omit [DecidableEq F] in
/-- A numerator other than zero was read, so the condition is not N/A. -/
theorem not_isNA (hb : b.Truthful v)
    (hreads : b.reads = Resolver.numeratorReads raw (v.ctf.getOutcomeSlotCount raw))
    (h : ∃ n ∈ b.values, n ≠ 0) : ¬ v.ctf.IsNA raw := by
  obtain ⟨n, hn, hn0⟩ := h
  obtain ⟨r, hr, rfl⟩ := List.mem_map.mp hn
  obtain ⟨j, hj⟩ := List.mem_iff_getElem?.mp hr
  cases r with
  | none => exact absurd rfl hn0
  | some n =>
    have hlt := (List.getElem?_eq_some_iff.mp hj).1.trans_le hb.length_le
    rw [hreads, Resolver.numeratorReads, List.length_map, List.length_range] at hlt
    have hread : b.reads[j]? = some (.payoutNumerators raw j) := by
      rw [hreads, Resolver.numeratorReads, List.getElem?_map, List.getElem?_range hlt]
      rfl
    have hv : v.ctf.payoutNumerators raw j = n := hb.value j _ n hread hj hn0
    intro hna
    rw [hna j hlt] at hv
    exact hn0 hv.symm

omit [DecidableEq F] in
theorem values_zero_iff (hb : b.Truthful v)
    (hreads : b.reads = Resolver.numeratorReads raw (v.ctf.getOutcomeSlotCount raw))
    (h : v.ctf.IsNA raw ∨ ∃ n ∈ b.values, n ≠ 0) :
    (∀ n ∈ b.values, n = 0) ↔ v.ctf.IsNA raw := by
  constructor
  · intro h0
    rcases h with h | ⟨n, hn, hn0⟩
    · exact h
    · exact absurd (h0 n hn) hn0
  · intro hna n hn
    by_contra hn0
    exact hb.not_isNA hreads ⟨n, hn, hn0⟩ hna

omit [Field F] [DecidableEq F] in
theorem values_ne_nil
    (hreads : b.reads = Resolver.numeratorReads raw (v.ctf.getOutcomeSlotCount raw))
    (hslots : v.ctf.getOutcomeSlotCount raw ≠ 0) (hc : b.complete) : b.values ≠ [] := by
  intro h
  have hlen : b.values.length = v.ctf.getOutcomeSlotCount raw := by
    rw [Batch.values, List.length_map, hc, hreads, Resolver.numeratorReads, List.length_map,
      List.length_range]
  rw [h] at hlen
  exact hslots hlen.symm

end Batch.Truthful

namespace PollInv

variable {s : Resolver F}

omit [DecidableEq F] in
theorem batchAnswered (hs : PollInv s) {i : ℕ} {t : TickTask} {b b' : Batch} {a : BatchAnswer}
    (ht : s.ticks[i]? = some t) (hb : t.batch? = some b) (ha : b.answer s.vault a = some b')
    (hc : PollTidy s (.batch i a : PollAction F Proof Sig)) :
    PollInv (s.batchAnswered i t b') := by
  have hok := hs.ticks t (List.mem_of_getElem? ht)
  have hd := hs.dropTick i
  unfold Resolver.batchAnswered
  cases t with
  | resolvedAts nowMs eligible b₀ =>
    cases hb
    obtain ⟨h1, h2, h3⟩ := hok
    obtain ⟨hb', hreads⟩ := h3.answer ha
    have hreads' := hreads.trans h2
    split
    · simp only [Resolver.batchDone]
      obtain ⟨h4, h5⟩ := hd.dropResolved (l := eligible.zip b'.results) fun x hx hx0 h0 =>
        hb'.zip hreads' hx hx0 (congrArg UInt64.toNat h0)
      split
      · exact h4
      · exact h4.startDenominators (h5 ▸ h1) _
    · exact hd.addTick ⟨h1, hreads', hb'⟩
  | denominators nowMs checkable b₀ =>
    cases hb
    obtain ⟨h1, h2, h3⟩ := hok
    obtain ⟨hb', hreads⟩ := h3.answer ha
    have hreads' := hreads.trans h2
    split
    · exact hd.loop h1 fun x hx hx0 => hb'.zip hreads' hx hx0
    · exact hd.addTick ⟨h1, hreads', hb'⟩
  | handling nowMs m stage rest =>
    obtain ⟨h1, hr, hrest, hstage⟩ := hok
    cases stage <;> simp only [TickTask.batch?, reduceCtorEq, Option.some.injEq] at hb <;> subst hb
    case numerators =>
      obtain ⟨h2, h3⟩ := hstage
      obtain ⟨hb', hreads⟩ := h3.answer ha
      have hreads' := hreads.trans h2
      simp only [PollTidy, ht, ha, KeepsNumerators] at hc
      split
      · exact hd.classify h1 hrest hr
          (Batch.Truthful.values_ne_nil hreads' (hs.prepared _ hr) ‹_›)
          (hb'.values_zero_iff hreads' (hc ‹_›))
      · exact hd.addTick ⟨h1, hr, hrest, hreads', hb'⟩
    case pipelineNumerators =>
      obtain ⟨hna, hat, h2, h3⟩ := hstage
      obtain ⟨hb', hreads⟩ := h3.answer ha
      have hreads' := hreads.trans h2
      simp only [PollTidy, ht, ha, KeepsNumerators] at hc
      split
      · exact hd.addTick ⟨h1, hr, hrest, hat, (hc ‹_›).resolve_left hna⟩
      · exact hd.addTick ⟨h1, hr, hrest, hna, hat, hreads', hb'⟩

omit [DecidableEq F] in
theorem answered (hs : PollInv s) {i nowMs : ℕ} {m : Checkable} {stage : Stage}
    {rest : List (Checkable × Option ℕ)} {s' : Resolver F}
    (ht : s.ticks[i]? = some (.handling nowMs m stage rest))
    (h : (s.dropTick i).answered nowMs m rest stage = some s') : PollInv s' := by
  obtain ⟨h1, hr, hrest, hstage⟩ := hs.ticks _ (List.mem_of_getElem? ht)
  have hd := hs.dropTick i
  have hslots : (s.dropTick i).vault.ctf.getOutcomeSlotCount m.raw ≠ 0 := hs.prepared _ hr
  cases stage <;> simp only [Resolver.answered, reduceCtorEq, Option.some.injEq] at h <;> subst h
  case blockNumber => exact hd.addTick ⟨h1, hr, hrest, trivial⟩
  case slotCount =>
    rw [if_neg hslots]
    exact hd.addTick ⟨h1, hr, hrest, rfl, .start _⟩
  case resolvedAt =>
    refine hd.addTick ⟨h1, hr, hrest, hstage, fun h0 => ?_⟩
    unfold isResolved
    rw [m.reduced]
    exact fun e => h0 (congrArg UInt64.toNat e)
  case pipelineSlotCount =>
    rw [if_neg hslots]
    exact hd.addTick ⟨h1, hr, hrest, hstage.1, hstage.2, rfl, .start _⟩
  case denominator => exact hd.pipeline h1 hrest hr hstage.1 hstage.2

theorem mined (hs : PollInv s) {i nowMs timestamp : ℕ} {m : Checkable} {stage stage' : Stage}
    {rest : List (Checkable × Option ℕ)} {call : Call F Proof Sig} {v' : VaultState F}
    (ht : s.ticks[i]? = some (.handling nowMs m stage rest))
    (hp : Resolver.pending? m stage = some (call, stage'))
    (hx : exec E ⟨s.wallet, timestamp⟩ s.vault call = .ok v')
    (ht0 : 0 < timestamp) (ht1 : timestamp < 2 ^ 64) :
    PollInv (((s.dropTick i).addTick (.handling nowMs m stage' rest)).setVault v') := by
  obtain ⟨h1, hr, hrest, hstage⟩ := hs.ticks _ (List.mem_of_getElem? ht)
  have hprog : Progress s.vault v' := .exec hx
  have hctf : v'.ctf = s.vault.ctf := (frame_exec hx).1.1
  -- the transaction is mined first, then the tick notices
  refine ((hs.dropTick i).setVault hprog fun c hc => ?_).addTick
    ⟨h1, hprog.isReported hr, fun x hx hd => hprog.isReported (hrest x hx hd), ?_⟩
  · rw [hctf]
    exact hs.prepared c (by rwa [isReported, hctf] at hc)
  · cases stage with
    | registering mined =>
      cases mined with
      | true => cases hp
      | false =>
        cases hp
        refine ⟨(hprog.isNA_iff hr).mpr hstage.1, fun _ => ?_⟩
        simp only [exec, registerCondition, Except.bind_eq_ok, revertIf_eq_ok, exists_const,
          Except.pure_eq_ok] at hx
        obtain ⟨-, rfl⟩ := hx
        simp [isRegistered, VaultState.emit, registers, Resolver.setVault]
    | resolving mined =>
      cases mined with
      | true => cases hp
      | false =>
        cases hp
        intro _
        simp only [exec, resolveMarket, Except.bind_eq_ok, revertIf_eq_ok, exists_const,
          Except.pure_eq_ok] at hx
        obtain ⟨-, -, -, slots, -, -, -, rfl⟩ := hx
        unfold isResolved
        rw [m.reduced]
        change Function.update s.vault.marketResolvedAt (circuitKey m.raw) _ (circuitKey m.raw) ≠ 0
        rw [Function.update_self]
        intro h0
        have := congrArg UInt64.toNat h0
        rw [UInt64.toNat_ofNat', Nat.mod_eq_of_lt ht1] at this
        exact ht0.ne' this
    | _ => cases hp

omit [DecidableEq F] in
theorem refreshResolvedFromIndex (hs : PollInv s) {ids : List ℕ}
    (h : ∀ id ∈ ids, isResolved s.vault (toFieldSafe id)) :
    PollInv (s.refreshResolvedFromIndex (some ids)) := by
  have hfold : PollInv (ids.foldl (fun s id => s.addResolved (toFieldSafe id)) s) := by
    induction ids generalizing s with
    | nil => exact hs
    | cons id ids ih =>
      exact ih (hs.addResolved (.inl (h id (List.mem_cons_self ..))))
        fun id' hid => h id' (List.mem_cons_of_mem _ hid)
  exact ⟨hfold.prepared, hfold.finished, hfold.ticks, hfold.backoff⟩

end PollInv

theorem pollInv_step {s s' : Resolver F} {a : PollAction F Proof Sig} (hs : PollInv s)
    (hc : PollTidy s a) (h : pollStep E s a = some s') : PollInv s' := by
  cases a with
  | tick => cases h; exact hs.tick
  | seeded ids =>
    simp only [pollStep, Option.ite_none_right_eq_some, Option.some.injEq] at h
    obtain ⟨hids, rfl⟩ := h
    cases ids with
    | none => exact hs
    | some ids =>
      exact hs.refreshResolvedFromIndex fun id hid =>
        of_decide_eq_true (List.all_eq_true.mp hids id hid)
  | batch i a =>
    simp only [pollStep] at h
    split at h
    case h_2 => cases h
    case h_1 t ht =>
      split at h
      case h_2 => cases h
      case h_1 b hb =>
        split at h
        case h_2 => cases h
        case h_1 b' ha =>
          cases h
          exact hs.batchAnswered ht hb ha hc
  | answered i ok =>
    simp only [pollStep] at h
    split at h
    case h_2 => cases h
    case h_1 nowMs m stage rest ht =>
      split at h
      case h_2 => cases h
      case h_1 s₁ hs₁ =>
        cases h
        split
        · exact hs.answered ht hs₁
        · obtain ⟨h1, -, hrest, -⟩ := hs.ticks _ (List.mem_of_getElem? ht)
          exact (hs.dropTick i).settlementFailed h1 hrest
  | mined i timestamp =>
    simp only [pollStep] at h
    split at h
    case h_2 => cases h
    case h_1 nowMs m stage rest ht =>
      split at h
      case h_2 => cases h
      case h_1 call stage' hp =>
        split at h
        case h_2 => cases h
        case h_1 v' hx =>
          simp only [Option.ite_none_right_eq_some, Option.some.injEq] at h
          obtain ⟨⟨h0, h1⟩, rfl⟩ := h
          exact hs.mined ht hp hx h0 h1
  | returned i ok =>
    simp only [pollStep] at h
    split at h
    case h_3 => cases h
    case h_1 nowMs m mined rest ht =>
      obtain ⟨h1, hr, hrest, hna, hreg⟩ := hs.ticks _ (List.mem_of_getElem? ht)
      simp only [Option.ite_none_left_eq_some, Option.some.injEq] at h
      obtain ⟨hm, rfl⟩ := h
      refine (hs.dropTick i).settled h1 hrest (.inr ⟨m.raw, m.reduced.symm, hr, hna, ?_⟩)
      cases ok with
      | true => exact hreg (by simpa using hm)
      | false =>
        simp only [PollTidy, ht] at hc
        exact hc
    case h_2 nowMs m mined rest ht =>
      obtain ⟨h1, hr, hrest, hres⟩ := hs.ticks _ (List.mem_of_getElem? ht)
      simp only [Option.ite_none_left_eq_some, Option.some.injEq] at h
      obtain ⟨hm, rfl⟩ := h
      refine (hs.dropTick i).addTick ⟨h1, hr, hrest, ?_⟩
      cases ok with
      | true => exact hres (by simpa using hm)
      | false =>
        simp only [PollTidy, ht] at hc
        exact hc
  | redeemed i ok =>
    simp only [pollStep] at h
    split at h
    case h_2 => cases h
    case h_1 nowMs m rest ht =>
      obtain ⟨h1, -, hrest, hres⟩ := hs.ticks _ (List.mem_of_getElem? ht)
      cases h
      split
      · exact (hs.dropTick i).settled h1 hrest (.inl hres)
      · exact (hs.dropTick i).settlementFailed h1 hrest
  | vaultCall m c =>
    simp only [pollStep] at h
    split at h
    case h_2 => cases h
    case h_1 v' hx =>
      cases h
      have hctf : v'.ctf = s.vault.ctf := (frame_exec hx).1.1
      refine hs.setVault (.exec hx) fun c hc => ?_
      rw [hctf]
      exact hs.prepared c (by rwa [isReported, hctf] at hc)
  | setUsdc usdc =>
    cases h
    exact hs.setVault (.setUsdc usdc) hs.prepared
  | report c numerators denominator =>
    simp only [pollStep, Option.ite_none_right_eq_some, Option.some.injEq] at h
    obtain ⟨⟨h0, hne⟩, rfl⟩ := h
    refine hs.setVault (.report h0) fun c' hc' => ?_
    by_cases hcc : c' = c
    · subst hcc
      simpa [reportPayouts] using hne
    · simp only [isReported, reportPayouts, Function.update_of_ne hcc] at hc' ⊢
      exact hs.prepared c' hc'
  | track m => cases h; exact ⟨hs.prepared, hs.finished, hs.ticks, hs.backoff⟩
  | register row => cases h; exact ⟨hs.prepared, hs.finished, hs.ticks, hs.backoff⟩
  | pass ms =>
    cases h
    refine ⟨hs.prepared, hs.finished, fun t ht => ?_, fun b hb => ?_⟩
    · exact (hs.ticks t ht).mono (.refl _) (Nat.le_add_right _ _)
    · exact (hs.backoff b hb).trans (Nat.add_le_add_right (Nat.le_add_right _ _) _)
  | restart =>
    cases h
    exact ⟨hs.prepared, fun _ h => (by cases h), fun _ h => (by cases h), fun _ h => (by cases h)⟩

structure Resolver.Fresh (s : Resolver F) : Prop where
  resolvedMarkets : s.resolvedMarkets = []
  ticks : s.ticks = []
  settleBackoff : s.settleBackoff = []
  /-- The CTF reports no condition without slots. -/
  prepared : ∀ c, isReported s.vault c → s.vault.ctf.getOutcomeSlotCount c ≠ 0

/-- The poll has given up on no market that still needs it. -/
structure NeverGivesUp (s : Resolver F) : Prop where
  finished : ∀ key ∈ s.resolvedMarkets, Finished s.vault key
  /-- A market whose conditions pay something is looked at until it is resolved: it stays eligible
  but for its end date and a pause of at most `settleBackoffMaxMs`. -/
  retried : ∀ m ∈ s.tracked, ¬ isResolved s.vault m.reducedKey →
    (∀ c, toFieldSafe c = m.reducedKey → isReported s.vault c → ¬ s.vault.ctf.IsNA c) →
      ∀ later, s.now + settleBackoffMaxMs ≤ later → (∀ d, m.endDate = some d → d ≤ later / 1000) →
        s.isEligible later m = true

omit [DecidableEq F] in
theorem PollInv.neverGivesUp {s : Resolver F} (hs : PollInv s) : NeverGivesUp s := by
  refine ⟨hs.finished, fun m _ hm hpay later hlater hend => ?_⟩
  have hkey : m.reducedKey ∉ s.resolvedMarkets := fun hmem => by
    rcases hs.finished _ hmem with h | ⟨c, hc, hr, hna, -⟩
    · exact hm h
    · exact hpay c hc hr hna
  have hdate : ¬ m.endDate.any (later / 1000 < ·) = true := by
    cases hd : m.endDate with
    | none => simp
    | some d => simpa using hend d hd
  have hback : ¬ (s.backoff? m.reducedKey).any (later < ·.nextAt) = true := by
    cases hb : s.backoff? m.reducedKey with
    | none => simp
    | some b =>
      have := hs.backoff b (List.mem_of_find?_eq_some hb)
      simp
      omega
  simp [Resolver.isEligible, hkey, hdate, hback]

/-- The poll never gives up on an unresolved market, in a run in which no transaction of the poll
fails and no batch of numerators loses those that are not zero. -/
theorem settlement_poll_never_gives_up {s₀ s : Resolver F} (h₀ : s₀.Fresh)
    (h : (settlementPoll E).Run PollTidy s₀ s) : NeverGivesUp s := by
  refine (h.invariant (I := PollInv) ⟨h₀.prepared, ?_, ?_, ?_⟩ fun _ _ _ hs hc hx =>
    pollInv_step hs hc hx).neverGivesUp
  · rw [h₀.resolvedMarkets]
    exact fun _ h => by cases h
  · rw [h₀.ticks]
    exact fun _ h => by cases h
  · rw [h₀.settleBackoff]
    exact fun _ h => by cases h

/-! ## One market of a mock deployment -/

def mockCondition : ℕ := bn254P + 11

def mockResolver : Resolver (ZMod 101) where
  vault := mockDeployed (mockEnv [])
  wallet := 1
  tracked := [⟨11, mockCondition, none, by decide⟩]
  registry := []
  resolvedMarkets := []
  resolvedSeededAt := 0
  settleBackoff := []
  ticks := []
  now := 1000000

theorem mockResolver_fresh : mockResolver.Fresh :=
  ⟨rfl, rfl, rfl, fun _ _ => Nat.succ_ne_zero 1⟩

/-- The actions of a tick until it has read the numerators a first time. -/
def mockTick (first : List Bool) : List (PollAction (ZMod 101) Unit Unit) :=
  [.tick, .batch 0 (.aggregate [true]), .batch 0 (.single true), .answered 0 true,
    .answered 0 true, .batch 0 (.aggregate first)]

/-- The pipeline until it has sent `resolveMarket`. -/
def mockPipeline : List (PollAction (ZMod 101) Unit Unit) :=
  [.answered 0 true, .answered 0 true, .batch 0 (.aggregate [true, true]), .answered 0 true]

/-- A market that gets resolved, with one numerator, a zero, lost on the way. -/
def mockResolved : List (PollAction (ZMod 101) Unit Unit) :=
  mockTick [true, false] ++ mockPipeline
    ++ [.mined 0 5, .returned 0 true, .redeemed 0 true]

theorem settlement_poll_never_gives_up_resolved :
    ((settlementPoll (mockEnv [])).checkFrom PollTidy mockResolver mockResolved).map
        (fun s => (s.resolvedMarkets, s.vault.marketResolvedAt 11)) = some ([11], 5) ∧
      ∃ s, (settlementPoll (mockEnv [])).checkFrom PollTidy mockResolver mockResolved = some s ∧
        NeverGivesUp s := by
  apply Machine.checkFrom_seen
  · decide +kernel
  · exact fun s h => settlement_poll_never_gives_up mockResolver_fresh h

/-- `resolveMarket` fails and the market is given up; or the numerator that is not zero is lost,
the condition is taken for N/A, and the market is given up. -/
theorem settlement_poll_gives_up :
    ((settlementPoll (mockEnv [])).runFrom mockResolver (mockTick [true, true] ++ mockPipeline
        ++ [.returned 0 false, .redeemed 0 true])).map
        (fun s => (s.resolvedMarkets, s.vault.marketResolvedAt 11,
          decide (s.vault.ctf.IsNA mockCondition))) = some ([11], 0, false) ∧
      ((settlementPoll (mockEnv [])).runFrom mockResolver (mockTick [false, true]
        ++ [.mined 0 5, .returned 0 true])).map
        (fun s => (s.resolvedMarkets, s.vault.marketResolvedAt 11,
          decide (s.vault.ctf.IsNA mockCondition))) = some ([11], 0, false) := by
  decide +kernel

end Polyshield.Operator
