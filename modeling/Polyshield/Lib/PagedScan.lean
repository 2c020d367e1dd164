import Mathlib.Data.List.Basic
import Mathlib.Tactic

/-!
# Paged scans

Records at integer positions are read window by window. A window that is served
moves the scan on to the next one; a window that fails is made smaller and asked
for again, unless the error is one to rethrow or the window has a single
position. `Source` is what is read: the records in the order of their positions,
and which request fails with which error. `scan_spec` is the rule of the loop.
-/

namespace PagedScan

variable {α ε : Type*}

/-- How a scan ended, and after how many requests. -/
structure Ended (ε α : Type*) where
  requests : ℕ
  result : Except ε (List α)

/-- The loop from the position `first` on, after `n` requests. -/
def scan (shrink : ℤ → ℤ) (rethrow : ε → Bool) (last : ℤ)
    (request : ℕ → ℤ → ℤ → Except ε (List α)) :
    ℕ → ℕ → ℤ → ℤ → List α → Option (Ended ε α)
  | 0, _, _, _, _ => none
  | fuel + 1, n, first, span, out =>
    if first ≤ last then
      let stop := min (first + span - 1) last
      match request n first stop with
      | .ok records =>
        scan shrink rethrow last request fuel (n + 1) (stop + 1) span (out ++ records)
      | .error e =>
        if rethrow e ∨ stop = first then some ⟨n + 1, .error e⟩
        else scan shrink rethrow last request fuel (n + 1) first (shrink span) out
    else some ⟨n, .ok out⟩

/-- A window of more than one position gets smaller and does not vanish. -/
def Shrinks (shrink : ℤ → ℤ) : Prop := ∀ span, 1 < span → 1 ≤ shrink span ∧ shrink span < span

structure Source (ε α : Type*) where
  records : List α
  pos : α → ℤ
  sorted : records.Pairwise fun a b => pos a ≤ pos b
  /-- The error of a request for a window; each request may fail in a way of its own. -/
  fails : ℕ → ℤ → ℤ → Option ε

namespace Source

variable (src : Source ε α)

/-- The records of the positions `first` to `last`, in order. -/
def within (first last : ℤ) : List α :=
  src.records.filter fun a => first ≤ src.pos a ∧ src.pos a ≤ last

def request (n : ℕ) (first last : ℤ) : Except ε (List α) :=
  match src.fails n first last with
  | some e => .error e
  | none => .ok (src.within first last)

/-- The windows of at most `limit` positions are served. -/
def ServesUpTo (limit : ℤ) : Prop :=
  ∀ n first last, last - first + 1 ≤ limit → src.fails n first last = none

variable {src} {first stop last : ℤ}

theorem within_of_lt (h : last < first) : src.within first last = [] := by
  simp only [within, List.filter_eq_nil_iff, decide_eq_true_eq]
  intro a _ ha
  omega

theorem within_append (h₁ : first ≤ stop + 1) (h₂ : stop ≤ last) :
    src.within first stop ++ src.within (stop + 1) last = src.within first last := by
  suffices ∀ records : List α, (records.Pairwise fun a b => src.pos a ≤ src.pos b) →
      records.filter (fun a => first ≤ src.pos a ∧ src.pos a ≤ stop) ++
        records.filter (fun a => stop + 1 ≤ src.pos a ∧ src.pos a ≤ last) =
      records.filter (fun a => first ≤ src.pos a ∧ src.pos a ≤ last) from this _ src.sorted
  intro records hsorted
  induction records with
  | nil => rfl
  | cons a records ih =>
    rw [List.pairwise_cons] at hsorted
    have ih := ih hsorted.2
    by_cases ha : src.pos a ≤ stop
    · -- `a` is of the left window or of none.
      have hright : ¬(stop + 1 ≤ src.pos a ∧ src.pos a ≤ last) := by omega
      have hiff : (first ≤ src.pos a ∧ src.pos a ≤ last)
          ↔ (first ≤ src.pos a ∧ src.pos a ≤ stop) := by omega
      simp only [List.filter_cons, hright, hiff, decide_false, Bool.false_eq_true, if_false]
      split
      · rw [List.cons_append, ih]
      · exact ih
    · -- No record after `a` is of the left window.
      have hnil : records.filter (fun b => first ≤ src.pos b ∧ src.pos b ≤ stop) = [] := by
        simp only [List.filter_eq_nil_iff, decide_eq_true_eq]
        intro b hb
        have := hsorted.1 b hb
        omega
      have hleft : ¬(first ≤ src.pos a ∧ src.pos a ≤ stop) := fun h => ha h.2
      have hiff : (stop + 1 ≤ src.pos a ∧ src.pos a ≤ last)
          ↔ (first ≤ src.pos a ∧ src.pos a ≤ last) := by omega
      rw [hnil, List.nil_append] at ih
      simp only [List.filter_cons, hleft, hiff, hnil, ih, decide_false, Bool.false_eq_true,
        if_false, List.nil_append]

theorem request_eq_error {n : ℕ} {e : ε} (h : src.request n first last = .error e) :
    src.fails n first last = some e := by
  unfold request at h
  split at h
  · rename_i e' he
    cases h
    exact he
  · cases h

theorem request_eq_ok {n : ℕ} {records : List α} (h : src.request n first last = .ok records) :
    records = src.within first last := by
  unfold request at h
  split at h <;> cases h
  rfl

end Source

section Scan

variable {shrink : ℤ → ℤ} {rethrow : ε → Bool} {last : ℤ}
  {request : ℕ → ℤ → ℤ → Except ε (List α)} {fuel n : ℕ} {first span : ℤ} {out : List α}

theorem scan_end (h : last < first) :
    scan shrink rethrow last request (fuel + 1) n first span out = some ⟨n, .ok out⟩ := by
  rw [scan, if_neg (not_le.mpr h)]

theorem scan_served {records : List α} (h : first ≤ last)
    (hreq : request n first (min (first + span - 1) last) = .ok records) :
    scan shrink rethrow last request (fuel + 1) n first span out
      = scan shrink rethrow last request fuel (n + 1) (min (first + span - 1) last + 1) span
          (out ++ records) := by
  rw [scan, if_pos h]
  simp only [hreq]

theorem scan_failed {e : ε} (h : first ≤ last)
    (hreq : request n first (min (first + span - 1) last) = .error e) :
    scan shrink rethrow last request (fuel + 1) n first span out
      = if rethrow e ∨ min (first + span - 1) last = first then some ⟨n + 1, .error e⟩
        else scan shrink rethrow last request fuel (n + 1) first (shrink span) out := by
  rw [scan, if_pos h]
  simp only [hreq]

theorem scan_mono {fuel' : ℕ} {ended : Ended ε α} (hfuel : fuel ≤ fuel')
    (h : scan shrink rethrow last request fuel n first span out = some ended) :
    scan shrink rethrow last request fuel' n first span out = some ended := by
  induction fuel generalizing fuel' n first span out with
  | zero => cases h
  | succ fuel ih =>
    cases fuel' with
    | zero => omega
    | succ fuel' =>
      have hfuel : fuel ≤ fuel' := Nat.le_of_succ_le_succ hfuel
      by_cases hmore : first ≤ last
      · cases hreq : request n first (min (first + span - 1) last) with
        | ok records =>
          rw [scan_served hmore hreq] at h ⊢
          exact ih hfuel h
        | error e =>
          rw [scan_failed hmore hreq] at h ⊢
          split at h
          case isTrue hthrow => rwa [if_pos hthrow]
          case isFalse hthrow =>
            rw [if_neg hthrow]
            exact ih hfuel h
      · rw [scan_end (not_le.mp hmore)] at h ⊢
        exact h

end Scan

/-- The scan ends: it returns the records that were left, or throws the error of a request that is
to be rethrown or was for a single position. -/
theorem scan_spec {shrink : ℤ → ℤ} (hshrink : Shrinks shrink) (rethrow : ε → Bool)
    (src : Source ε α) (last : ℤ) {fuel : ℕ} (n : ℕ) (first span : ℤ) (out : List α)
    (hspan : 1 ≤ span) (hfuel : (last + 1 - first).toNat + span.toNat < fuel) :
    ∃ ended, scan shrink rethrow last src.request fuel n first span out = some ended ∧
      ended.requests ≤ n + (last + 1 - first).toNat + span.toNat ∧
      (ended.result = .ok (out ++ src.within first last) ∨
        ∃ e i lo hi, ended.result = .error e ∧ i < ended.requests ∧ src.fails i lo hi = some e ∧
          (rethrow e = true ∨ lo = hi)) := by
  induction fuel generalizing n first span out with
  | zero => omega
  | succ fuel ih =>
    by_cases hmore : first ≤ last
    · have hstop : first ≤ min (first + span - 1) last := by omega
      cases hreq : src.request n first (min (first + span - 1) last) with
      | ok records =>
        -- The position grows.
        rw [scan_served hmore hreq]
        obtain ⟨ended, hended, hle, hresult⟩ := ih (n + 1) (min (first + span - 1) last + 1) span
          (out ++ records) hspan (by omega)
        have happend : src.within first (min (first + span - 1) last) ++
            src.within (min (first + span - 1) last + 1) last = src.within first last :=
          src.within_append (by omega) (by omega)
        rw [Source.request_eq_ok hreq, List.append_assoc, happend] at hresult
        exact ⟨ended, hended, by omega, hresult⟩
      | error e =>
        rw [scan_failed hmore hreq]
        by_cases hthrow : rethrow e = true ∨ min (first + span - 1) last = first
        · rw [if_pos hthrow]
          refine ⟨_, rfl, ?_, .inr ⟨e, n, _, _, rfl, Nat.lt_succ_self n,
            Source.request_eq_error hreq, hthrow.imp_right Eq.symm⟩⟩
          show n + 1 ≤ _
          omega
        · -- The position stays and the window shrinks.
          rw [if_neg hthrow]
          rw [not_or] at hthrow
          obtain ⟨hpos, hlt⟩ := hshrink span (by omega)
          obtain ⟨ended, hended, hle, hresult⟩ := ih (n + 1) first _ out hpos (by omega)
          exact ⟨ended, hended, by omega, hresult⟩
    · rw [scan_end (by omega)]
      refine ⟨_, rfl, ?_, .inl ?_⟩
      · show n ≤ _
        omega
      · rw [src.within_of_lt (by omega), List.append_nil]

end PagedScan
