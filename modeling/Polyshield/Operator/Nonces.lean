import Polyshield.Lib.EcmaText
import Polyshield.Lib.Runs

/-!
# The operator's nonces

`nonceManager.ts` and the `NonceManager` of `relayer.ts`. Every call to `send`
(`sendWithNonce`) takes a nonce from a counter in memory, which is seeded by the
pending count of the node, and broadcasts one transaction with it. One action is
what a call does between two awaits. The two managers differ in one point: the
relay's takes the nonce under a lock.
-/

namespace Polyshield.Operator

/-! ## Nonce errors -/

def nonceErrorPatterns : List String :=
  ["nonce too low", "nonce too high", "replacement underpriced", "NONCE_EXPIRED", "already known",
    "invalid nonce"]

def isNonceError (err : String) : Bool :=
  nonceErrorPatterns.any fun p => includes (toLowerCase err.toList) (toLowerCase p.toList)

/-! ## The manager and its calls -/

/-- Where a call is; `retry` once its first broadcast was answered with a nonce error. -/
inductive NonceCall where
  /-- Behind the lock. -/
  | waiting (retry : Bool)
  /-- `getTransactionCount(address, "pending")` is on its way. -/
  | reading (retry : Bool)
  /-- The count has been answered, and is not stored. -/
  | counted (count : ℕ) (retry : Bool)
  /-- `fn(nonce)` is running. -/
  | sending (nonce : ℕ) (retry : Bool)
  deriving DecidableEq, Repr

def NonceCall.nonce? : NonceCall → Option ℕ
  | .sending n _ => some n
  | _ => none

def NonceCall.isWaiting : NonceCall → Bool
  | .waiting _ => true
  | _ => false

def NonceCall.hasLock : NonceCall → Bool
  | .reading _ | .counted _ _ => true
  | _ => false

/-- The manager's counter, the calls that have not returned, in the order they asked for the
lock, and the nonces of the transactions the node took. -/
structure NonceState where
  nonce : Option ℕ
  calls : List NonceCall
  broadcast : List ℕ
  /-- The pending count at the start. -/
  base : ℕ

namespace NonceState

/-- The pending count of the node: the first nonce without a transaction. -/
def pendingCount (s : NonceState) : ℕ :=
  s.base + ((List.range s.broadcast.length).find? fun i => s.base + i ∉ s.broadcast).getD
    s.broadcast.length

def leave (s : NonceState) (i : ℕ) : NonceState := { s with calls := s.calls.eraseIdx i }

def join (s : NonceState) (c : NonceCall) : NonceState := { s with calls := s.calls ++ [c] }

def setNonce (s : NonceState) (nonce : Option ℕ) : NonceState := { s with nonce := nonce }

def accept (s : NonceState) (n : ℕ) : NonceState := { s with broadcast := s.broadcast ++ [n] }

/-- `getAndIncrement`, up to its first await or to the end. -/
def getAndIncrement (s : NonceState) (retry : Bool) : NonceState :=
  match s.nonce with
  | some n => (s.setNonce (some (n + 1))).join (.sending n retry)
  | none => s.join (.reading retry)

/-- A call asks for a nonce; the relay's manager puts it behind the lock. -/
def acquire (serialized : Bool) (s : NonceState) (retry : Bool) : NonceState :=
  if serialized then s.join (.waiting retry) else s.getAndIncrement retry

def reset (s : NonceState) : NonceState := s.setNonce none

def decrement (s : NonceState) : NonceState :=
  match s.nonce with
  | some n => if 0 < n then s.setNonce (some (n - 1)) else s
  | none => s

/-- `fn(nonce)` of the call `i` has thrown. -/
def failed (serialized : Bool) (s : NonceState) (i : ℕ) (retry : Bool) (err : String) :
    NonceState :=
  if retry then s.leave i
  else if isNonceError err then (s.leave i).reset.acquire serialized true
  else (s.leave i).decrement

end NonceState

inductive NonceAction where
  /-- A new call to `send`. -/
  | send
  /-- The call gets the lock. -/
  | locked (i : ℕ)
  /-- The node reads the pending count. -/
  | counted (i : ℕ)
  /-- The call stores the count it read and takes it as its nonce. -/
  | resumed (i : ℕ)
  /-- The node takes the transaction, and the call returns. -/
  | accepted (i : ℕ)
  | failed (i : ℕ) (err : String)
  deriving DecidableEq

open NonceState in
def nonceStep (serialized : Bool) (s : NonceState) : NonceAction → Option NonceState
  | .send => some (s.acquire serialized false)
  | .locked i =>
    match s.calls[i]? with
    | some (.waiting retry) =>
      if s.calls.any NonceCall.hasLock ∨ (s.calls.take i).any NonceCall.isWaiting then none
      else some ((s.leave i).getAndIncrement retry)
    | _ => none
  | .counted i =>
    match s.calls[i]? with
    | some (.reading retry) => some ((s.leave i).join (.counted s.pendingCount retry))
    | _ => none
  | .resumed i =>
    match s.calls[i]? with
    | some (.counted count retry) =>
      some (((s.leave i).setNonce (some (count + 1))).join (.sending count retry))
    | _ => none
  | .accepted i =>
    match s.calls[i]? with
    | some (.sending n _) => some ((s.leave i).accept n)
    | _ => none
  | .failed i err =>
    match s.calls[i]? with
    | some (.sending _ retry) => some (s.failed serialized i retry err)
    | _ => none

def signingLayerNonceManager : Machine NonceState NonceAction := ⟨nonceStep false⟩

def relayNonceManager : Machine NonceState NonceAction := ⟨nonceStep true⟩

def NonceState.start (base : ℕ) : NonceState := ⟨none, [], [], base⟩

/-! ## The counter is in order -/

namespace NonceState

/-- The nonces of the broadcast transactions and of the calls that still hold one. -/
def handedOut (s : NonceState) : List ℕ := s.broadcast ++ s.calls.filterMap NonceCall.nonce?

variable {s : NonceState} {i : ℕ} {c : NonceCall}

theorem handedOut_leave (h : s.calls[i]? = some c) :
    s.handedOut.Perm (c.nonce?.toList ++ (s.leave i).handedOut) := by
  obtain ⟨hi, rfl⟩ := List.getElem?_eq_some_iff.mp h
  have hp := (List.getElem_cons_eraseIdx_perm hi).symm.filterMap NonceCall.nonce?
  refine (hp.append_left s.broadcast).trans ?_
  cases hc : s.calls[i].nonce? with
  | none => simp [handedOut, leave, hc]
  | some n =>
    simp only [List.filterMap_cons, hc, handedOut, leave, Option.toList_some]
    exact List.perm_middle

theorem handedOut_join : (s.join c).handedOut = s.handedOut ++ c.nonce?.toList := by
  cases hc : c.nonce? <;> simp [handedOut, join, hc]

/-- Every nonce below the pending count has its transaction. -/
theorem mem_broadcast_of_lt_pendingCount {n : ℕ} (h0 : s.base ≤ n) (h : n < s.pendingCount) :
    n ∈ s.broadcast := by
  obtain ⟨j, rfl⟩ := Nat.exists_eq_add_of_le h0
  unfold pendingCount at h
  cases hf : (List.range s.broadcast.length).find? fun i => s.base + i ∉ s.broadcast with
  | none =>
    rw [hf, Option.getD_none] at h
    simpa using List.find?_range_eq_none.mp hf j (by omega)
  | some k =>
    rw [hf, Option.getD_some] at h
    obtain ⟨-, -, hlt⟩ := List.find?_range_eq_some.mp hf
    simpa using hlt j (by omega)

theorem base_le_pendingCount : s.base ≤ s.pendingCount := Nat.le_add_right _ _

/-- The nonces handed out are distinct and are those below the counter, and a count that was
read is still justified by the transactions. -/
structure Counted (s : NonceState) : Prop where
  nodup : s.handedOut.Nodup
  base_le : ∀ n ∈ s.handedOut, s.base ≤ n
  counter : ∀ k, s.nonce = some k → s.base ≤ k ∧ ∀ n, n ∈ s.handedOut ↔ s.base ≤ n ∧ n < k
  counts : ∀ v retry, NonceCall.counted v retry ∈ s.calls →
    s.base ≤ v ∧ ∀ n, s.base ≤ n → n < v → n ∈ s.broadcast

/-- Moreover an unseeded counter is about to be seeded, or no nonce was ever handed out. -/
structure InOrder (s : NonceState) : Prop extends Counted s where
  unseeded : s.nonce = none → s.handedOut = [] ∨ ∃ c ∈ s.calls, c.nonce? = none

theorem mem_calls_of_leave {c' : NonceCall} (h : c' ∈ (s.leave i).calls) : c' ∈ s.calls :=
  List.mem_of_mem_eraseIdx h

theorem Counted.leave (hs : Counted s) (h : s.calls[i]? = some c) (hc : c.nonce? = none) :
    Counted (s.leave i) := by
  have hp := handedOut_leave h
  rw [hc, Option.toList_none, List.nil_append] at hp
  refine ⟨hp.nodup_iff.mp hs.nodup, fun n hn => hs.base_le n (hp.mem_iff.mpr hn), fun k hk => ?_,
    fun v retry hv => ?_⟩
  · obtain ⟨h1, h2⟩ := hs.counter k hk
    exact ⟨h1, fun n => hp.mem_iff.symm.trans (h2 n)⟩
  · exact hs.counts v retry (mem_calls_of_leave hv)

theorem Counted.join (hs : Counted s) (hc : c.nonce? = none)
    (hcount : ∀ v retry, c = .counted v retry →
      s.base ≤ v ∧ ∀ n, s.base ≤ n → n < v → n ∈ s.broadcast) : InOrder (s.join c) := by
  have hp : (s.join c).handedOut = s.handedOut := by
    rw [handedOut_join, hc, Option.toList_none, List.append_nil]
  refine ⟨⟨hp ▸ hs.nodup, hp ▸ hs.base_le, fun k hk => hp ▸ hs.counter k hk, fun v retry hv => ?_⟩,
    fun _ => .inr ⟨c, ?_, hc⟩⟩
  · rcases List.mem_append.mp hv with hv | hv
    · exact hs.counts v retry hv
    · exact hcount v retry (List.mem_singleton.mp hv).symm
  · exact List.mem_append_right _ (List.mem_singleton.mpr rfl)

theorem Counted.take {n : ℕ} {retry : Bool} (hs : Counted s)
    (hn : s.base ≤ n ∧ ∀ m, m ∈ s.handedOut ↔ s.base ≤ m ∧ m < n) :
    InOrder ((s.setNonce (some (n + 1))).join (.sending n retry)) := by
  have hp : ((s.setNonce (some (n + 1))).join (.sending n retry)).handedOut = s.handedOut ++ [n] :=
    handedOut_join
  refine ⟨⟨?_, fun m hm => ?_, fun k hk => ?_, fun v r hv => ?_⟩, fun h0 => by cases h0⟩
  · rw [hp, List.nodup_append_comm]
    refine List.nodup_cons.mpr ⟨fun hmem => ?_, hs.nodup⟩
    exact absurd ((hn.2 n).mp hmem).2 (lt_irrefl n)
  · rcases List.mem_append.mp (hp ▸ hm) with hm | hm
    · exact hs.base_le m hm
    · exact List.mem_singleton.mp hm ▸ hn.1
  · obtain rfl : n + 1 = k := Option.some.inj hk
    refine ⟨hn.1.trans (Nat.le_succ n), fun m => ?_⟩
    rw [hp, List.mem_append, List.mem_singleton, hn.2 m]
    have := hn.1
    change s.base ≤ m ∧ m < n ∨ m = n ↔ s.base ≤ m ∧ m < n + 1
    omega
  · rcases List.mem_append.mp hv with hv | hv
    · exact hs.counts v r hv
    · cases List.mem_singleton.mp hv

theorem Counted.getAndIncrement {retry : Bool} (hs : Counted s) :
    InOrder (s.getAndIncrement retry) := by
  unfold NonceState.getAndIncrement
  split
  · exact hs.take (hs.counter _ ‹_›)
  · exact hs.join rfl fun v r h => by cases h

theorem Counted.acquire {serialized retry : Bool} (hs : Counted s) :
    InOrder (s.acquire serialized retry) := by
  unfold NonceState.acquire
  split
  · exact hs.join rfl fun v r h => by cases h
  · exact hs.getAndIncrement

/-- What is left of the order when a call gives up its nonce. -/
theorem InOrder.release {n : ℕ} {retry : Bool} (hs : InOrder s)
    (h : s.calls[i]? = some (.sending n retry)) :
    (s.leave i).handedOut.Nodup ∧ n ∉ (s.leave i).handedOut ∧
      (∀ m, m ∈ s.handedOut ↔ m = n ∨ m ∈ (s.leave i).handedOut) ∧
      (s.nonce = none → ∃ c ∈ (s.leave i).calls, c.nonce? = none) := by
  have hp : s.handedOut.Perm (n :: (s.leave i).handedOut) := handedOut_leave h
  have hd := List.nodup_cons.mp (hp.nodup_iff.mp hs.nodup)
  refine ⟨hd.2, hd.1, fun m => hp.mem_iff.trans List.mem_cons, fun h0 => ?_⟩
  rcases hs.unseeded h0 with h | ⟨c, hc, hcn⟩
  · rw [h] at hp
    exact absurd hp.length_eq (by simp)
  · refine ⟨c, ?_, hcn⟩
    obtain ⟨hi, hsend⟩ := List.getElem?_eq_some_iff.mp h
    have hmem := (List.getElem_cons_eraseIdx_perm hi).mem_iff.mpr hc
    rcases List.mem_cons.mp hmem with rfl | hmem
    · rw [hsend] at hcn
      cases hcn
    · exact hmem

theorem InOrder.accept {n : ℕ} {retry : Bool} (hs : InOrder s)
    (h : s.calls[i]? = some (.sending n retry)) : InOrder ((s.leave i).accept n) := by
  obtain ⟨hnd, hn, hmem, hseed⟩ := hs.release h
  have hp : ((s.leave i).accept n).handedOut.Perm (n :: (s.leave i).handedOut) := by
    simp only [handedOut, NonceState.accept, List.append_assoc, List.singleton_append]
    exact List.perm_middle
  have hiff : ∀ m, m ∈ ((s.leave i).accept n).handedOut ↔ m ∈ s.handedOut := fun m => by
    rw [hp.mem_iff, List.mem_cons, hmem]
  refine ⟨⟨hp.nodup_iff.mpr (List.nodup_cons.mpr ⟨hn, hnd⟩),
    fun m hm => hs.base_le m ((hiff m).mp hm), fun k hk => ?_, fun v r hv => ?_⟩,
    fun h0 => .inr (hseed h0)⟩
  · obtain ⟨h1, h2⟩ := hs.counter k hk
    exact ⟨h1, fun m => (hiff m).trans (h2 m)⟩
  · obtain ⟨h1, h2⟩ := hs.counts v r (mem_calls_of_leave hv)
    exact ⟨h1, fun m hm hmv => List.mem_append_left _ (h2 m hm hmv)⟩

theorem InOrder.drop {n : ℕ} {retry : Bool} (hs : InOrder s)
    (h : s.calls[i]? = some (.sending n retry)) : Counted (s.leave i).reset := by
  obtain ⟨hnd, -, hmem, -⟩ := hs.release h
  refine ⟨hnd, fun m hm => hs.base_le m ((hmem m).mpr (.inr hm)), fun k hk => (by cases hk),
    fun v r hv => hs.counts v r (mem_calls_of_leave hv)⟩

theorem InOrder.leave_unseeded {n : ℕ} {retry : Bool} (hs : InOrder s)
    (h : s.calls[i]? = some (.sending n retry)) (h0 : s.nonce = none) : InOrder (s.leave i) := by
  obtain ⟨-, -, -, hseed⟩ := hs.release h
  have he : s.leave i = (s.leave i).reset := by simp only [leave, h0, reset, setNonce]
  rw [he]
  exact ⟨hs.drop h, fun _ => .inr (hseed h0)⟩

theorem InOrder.giveBack {n : ℕ} {retry : Bool} (hs : InOrder s)
    (h : s.calls[i]? = some (.sending n retry)) (hlast : s.nonce = none ∨ s.nonce = some (n + 1)) :
    InOrder (s.leave i).decrement := by
  obtain ⟨hnd, hn, hmem, -⟩ := hs.release h
  have hdrop := hs.drop h
  rcases hlast with h0 | hk
  · have he : (s.leave i).decrement = s.leave i := by simp only [decrement, leave, h0]
    rw [he]
    exact hs.leave_unseeded h h0
  · have he : (s.leave i).decrement = (s.leave i).setNonce (some n) := by
      simp [decrement, leave, hk, setNonce]
    rw [he]
    refine ⟨⟨hnd, hdrop.base_le, fun k hk' => ?_, hdrop.counts⟩, fun h0 => by cases h0⟩
    cases hk'
    obtain ⟨h1, h2⟩ := hs.counter _ hk
    refine ⟨hs.base_le n ((hmem n).mpr (.inl rfl)), fun m => ⟨fun hm => ?_, fun ⟨h3, h4⟩ => ?_⟩⟩
    · have := (h2 m).mp ((hmem m).mpr (.inr hm))
      have hne : m ≠ n := fun e => hn (e ▸ hm)
      exact ⟨this.1, by omega⟩
    · rcases (hmem m).mp ((h2 m).mpr ⟨h3, by omega⟩) with rfl | hm
      · omega
      · exact hm

end NonceState

/-! ## Every run -/

open NonceState in
/-- A count that gets stored is above every nonce handed out, and a call that fails for good gives
back the last nonce, or the counter is unseeded. -/
def NonceState.Tidy (s : NonceState) : NonceAction → Prop
  | .resumed i =>
    match s.calls[i]? with
    | some (.counted count _) => ∀ n ∈ s.handedOut, n < count
    | _ => True
  | .failed i err =>
    match s.calls[i]? with
    | some (.sending n false) => isNonceError err ∨ s.nonce = none ∨ s.nonce = some (n + 1)
    | some (.sending _ true) => s.nonce = none
    | _ => True
  | _ => True

instance : ∀ s a, Decidable (NonceState.Tidy s a) := fun s a => by
  unfold NonceState.Tidy
  split <;> (try split) <;> infer_instance

open NonceState in
theorem inOrder_step {serialized : Bool} {s s' : NonceState} {a : NonceAction} (hs : InOrder s)
    (hc : s.Tidy a) (h : nonceStep serialized s a = some s') : InOrder s' := by
  cases a with
  | send =>
    cases h
    exact hs.toCounted.acquire
  | locked i =>
    simp only [nonceStep] at h
    split at h
    · split at h
      · cases h
      · cases h
        exact (hs.toCounted.leave ‹_› rfl).getAndIncrement
    · cases h
  | counted i =>
    simp only [nonceStep] at h
    split at h
    · cases h
      refine (hs.toCounted.leave ‹_› rfl).join rfl fun v r hv => ?_
      cases hv
      exact ⟨base_le_pendingCount, fun n => mem_broadcast_of_lt_pendingCount⟩
    · cases h
  | resumed i =>
    simp only [nonceStep] at h
    split at h
    case h_2 => cases h
    case h_1 count retry hi =>
      cases h
      have hc' : ∀ n ∈ s.handedOut, n < count := by simpa only [Tidy, hi] using hc
      obtain ⟨h0, hcount⟩ := hs.counts count retry (List.mem_of_getElem? hi)
      have hp : s.handedOut.Perm (s.leave i).handedOut := handedOut_leave hi
      refine (hs.toCounted.leave hi rfl).take ⟨h0, fun m => ⟨fun hm => ?_, fun ⟨hm0, hm⟩ => ?_⟩⟩
      · have hm' := hp.mem_iff.mpr hm
        exact ⟨hs.base_le m hm', hc' m hm'⟩
      · exact hp.mem_iff.mp (List.mem_append_left _ (hcount m hm0 hm))
  | accepted i =>
    simp only [nonceStep] at h
    split at h
    case h_2 => cases h
    case h_1 n retry hi =>
      cases h
      exact hs.accept hi
  | failed i err =>
    simp only [nonceStep] at h
    split at h
    case h_2 => cases h
    case h_1 n retry hi =>
      cases h
      simp only [Tidy, hi] at hc
      unfold NonceState.failed
      cases retry with
      | true => exact hs.leave_unseeded hi hc
      | false =>
        by_cases herr : isNonceError err = true
        · simp only [herr, Bool.false_eq_true, ↓reduceIte]
          exact (hs.drop hi).acquire
        · simp only [herr, Bool.false_eq_true, ↓reduceIte]
          exact hs.giveBack hi (hc.resolve_left herr)

theorem inOrder_start (base : ℕ) : (NonceState.start base).InOrder :=
  ⟨⟨List.nodup_nil, fun _ h => (by cases h), fun _ h => (by cases h), fun _ _ h => (by cases h)⟩,
    fun _ => .inl rfl⟩

theorem base_step {serialized : Bool} {s s' : NonceState} {a : NonceAction}
    (h : nonceStep serialized s a = some s') : s'.base = s.base := by
  have hget (t : NonceState) (r : Bool) : (t.getAndIncrement r).base = t.base := by
    unfold NonceState.getAndIncrement
    split <;> rfl
  have hacq (t : NonceState) (r : Bool) : (t.acquire serialized r).base = t.base := by
    unfold NonceState.acquire
    split
    · rfl
    · exact hget t r
  cases a <;> simp only [nonceStep] at h
  case send => cases h; exact hacq s false
  case failed i err =>
    split at h
    case h_2 => cases h
    case h_1 =>
      cases h
      unfold NonceState.failed
      split
      · rfl
      · split
        · exact hacq ((s.leave i).reset) true
        · unfold NonceState.decrement
          split
          · split <;> rfl
          · rfl
  case locked =>
    split at h
    case h_2 => cases h
    case h_1 =>
      split at h
      · cases h
      · cases h
        exact hget _ _
  all_goals
    split at h
    · cases h
      rfl
    · cases h

/-- The broadcast nonces are distinct, and once every call has returned they are contiguous from
the initial pending count. -/
structure GapFree (base : ℕ) (s : NonceState) : Prop where
  nodup : s.broadcast.Nodup
  contiguous : s.calls = [] →
    ∀ n, n ∈ s.broadcast ↔ base ≤ n ∧ n < base + s.broadcast.length

theorem NonceState.InOrder.gapFree {s : NonceState} (hs : s.InOrder) : GapFree s.base s := by
  have hnd : s.broadcast.Nodup := (List.nodup_append.mp hs.nodup).1
  refine ⟨hnd, fun hcalls n => ?_⟩
  have hall : s.handedOut = s.broadcast := by
    rw [NonceState.handedOut, hcalls, List.filterMap_nil, List.append_nil]
  cases hk : s.nonce with
  | none =>
    rcases hs.unseeded hk with h | ⟨c, hc, -⟩
    · rw [hall] at h
      rw [h, List.length_nil, Nat.add_zero]
      exact ⟨fun hn => (by cases hn), fun ⟨h1, h2⟩ => absurd h1 h2.not_ge⟩
    · rw [hcalls] at hc
      cases hc
  | some k =>
    obtain ⟨h1, h2⟩ := hs.counter k hk
    rw [hall] at h2
    -- a list without duplicates of the nonces from the base to the counter has their number
    have hlen : s.broadcast.length = k - s.base := by
      rw [← List.toFinset_card_of_nodup hnd, ← Nat.card_Ico]
      congr 1
      ext m
      rw [List.mem_toFinset, h2, Finset.mem_Ico]
    rw [h2, hlen, Nat.add_sub_cancel' h1]

theorem gapFree_run {serialized : Bool} {base : ℕ} {s : NonceState}
    (h : (Machine.mk (nonceStep serialized)).Run NonceState.Tidy (.start base) s) :
    GapFree base s := by
  have hinv : s.InOrder ∧ s.base = base := by
    refine h.invariant (I := fun s => s.InOrder ∧ s.base = base) ⟨inOrder_start base, rfl⟩ ?_
    rintro s a s' ⟨hs, hbase⟩ hc hx
    exact ⟨inOrder_step hs hc hx, (base_step hx).trans hbase⟩
  exact hinv.2 ▸ hinv.1.gapFree

/-- Both managers keep their nonces unique and gap-free in a run whose counts are above the nonces
handed out when they are stored, and whose failing calls hold the last nonce. -/
theorem nonces_gap_free {base : ℕ} {s : NonceState}
    (h : signingLayerNonceManager.Run NonceState.Tidy (.start base) s ∨
      relayNonceManager.Run NonceState.Tidy (.start base) s) : GapFree base s :=
  h.elim gapFree_run gapFree_run

/-- Three calls at the relay: the second fails before its broadcast, the third is answered with a
nonce error and retries. -/
def threeCalls : List NonceAction :=
  [.send, .locked 0, .counted 0, .send, .resumed 0, .locked 0, .accepted 0,
    .failed 0 "estimateGas reverted", .send, .locked 0, .failed 0 "Nonce too low", .locked 0,
    .counted 0, .resumed 0, .accepted 0]

theorem nonces_gap_free_three_calls :
    (relayNonceManager.checkFrom NonceState.Tidy (.start 5) threeCalls).map (·.broadcast)
        = some [5, 6] ∧
      ∃ s, relayNonceManager.checkFrom NonceState.Tidy (.start 5) threeCalls = some s ∧
        GapFree 5 s := by
  apply Machine.checkFrom_seen
  · decide +kernel
  · exact fun s h => nonces_gap_free (.inr h)

/-- Two first calls at the signing layer both store the count they read and broadcast with it. At
the relay a call that fails after a later one took its nonce leaves a gap. -/
theorem nonces_not_gap_free :
    ((signingLayerNonceManager.runFrom (.start 5)
        [.send, .send, .counted 0, .counted 0, .resumed 0, .resumed 0, .accepted 0,
          .accepted 0]).map fun s => (s.calls, s.broadcast)) = some ([], [5, 5]) ∧
      ((relayNonceManager.runFrom (.start 5)
        [.send, .locked 0, .counted 0, .send, .resumed 0, .locked 0,
          .failed 0 "estimateGas reverted", .accepted 0]).map fun s => (s.calls, s.broadcast))
        = some ([], [6]) := by
  decide +kernel

end Polyshield.Operator
