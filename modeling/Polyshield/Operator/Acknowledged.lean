import Polyshield.Operator.Redemption

/-!
# What gets acknowledged has come back

When no run's second read of a balance catches more of other people's money
coming in than going out, a run acknowledges at most what it redeemed and
unwrapped. Then `deployedToPolymarket` never falls below what was sent less what
came back.
-/

namespace Polyshield.Operator

variable {F Proof Sig : Type} [Field F] [DecidableEq F] {E : Env F Proof Sig}

/-! ## What a run knows -/

/-- The two balances in terms of what the run read, did, and what others moved since. -/
def RedeemRun.Ok (usdc pusd : ℕ) (r : RedeemRun) : Prop :=
  match r.stage with
  | .usdcBefore => r.redeemed = 0 ∧ r.unwrapped = 0
  | .positions before | .shares before _ | .pusdBefore before =>
    r.redeemed = 0 ∧ r.unwrapped = 0 ∧ (usdc : ℤ) = before + r.foreignUsdc
  | .redeeming before pusdBefore | .pusdAfter before pusdBefore =>
    r.unwrapped = 0 ∧ (usdc : ℤ) = before + r.foreignUsdc ∧
      (pusd : ℤ) = pusdBefore + r.redeemed + r.foreignPusd
  | .unwrapping before amount landed =>
    (usdc : ℤ) = before + r.unwrapped + r.foreignUsdc ∧ amount ≤ r.redeemed ∧
      r.unwrapped = if landed then amount else 0
  | .usdcAfter before _ =>
    (usdc : ℤ) = before + r.unwrapped + r.foreignUsdc ∧ r.unwrapped ≤ r.redeemed
  | .deployed returned => returned ≤ r.unwrapped ∧ r.unwrapped ≤ r.redeemed
  | .acknowledging ack => ack ≤ r.unwrapped

theorem RedeemRun.Ok.shift {usdc pusd usdc' pusd' : ℕ} {r : RedeemRun} {δ ε : ℤ}
    (h : r.Ok usdc pusd) (hu : (usdc' : ℤ) = usdc + δ) (hp : (pusd' : ℤ) = pusd + ε) :
    (r.shift δ ε).Ok usdc' pusd' := by
  obtain ⟨stage, redeemed, unwrapped, foreignUsdc, foreignPusd⟩ := r
  cases stage <;> simp only [RedeemRun.Ok, RedeemRun.shift] at h ⊢ <;> omega

def Redeemer.unwrapped (s : Redeemer F) : ℕ := (s.runs.map (·.unwrapped)).sum

structure RedeemInv (E : Env F Proof Sig) (s : Redeemer F) : Prop where
  runs : ∀ r ∈ s.runs, r.Ok (s.usdc E) s.pusd
  returned : s.acknowledged + s.unwrapped ≤ s.returned
  deployed : s.vault.deployedToPolymarket + s.acknowledged = s.funded
  acks : ∀ x ∈ s.acks, x.ack ≤ x.redeemed ∧ x.ack ≤ x.unwrapped

namespace RedeemInv

variable {s : Redeemer F} {i : ℕ} {r r' : RedeemRun}

omit [Field F] [DecidableEq F] in
theorem sum_eraseIdx (h : s.runs[i]? = some r) :
    s.unwrapped = r.unwrapped + ((s.runs.eraseIdx i).map (·.unwrapped)).sum := by
  obtain ⟨hi, rfl⟩ := List.getElem?_eq_some_iff.mp h
  exact ((List.getElem_cons_eraseIdx_perm hi).symm.map _).sum_eq

omit [Field F] [DecidableEq F] in
theorem mem_of_eraseIdx (hs : RedeemInv E s) {x : RedeemRun} (h : x ∈ s.runs.eraseIdx i) :
    x.Ok (s.usdc E) s.pusd := hs.runs x (List.mem_of_mem_eraseIdx h)

theorem sum_append_singleton (l : List RedeemRun) (r : RedeemRun) :
    ((l ++ [r]).map (·.unwrapped)).sum = (l.map (·.unwrapped)).sum + r.unwrapped := by
  simp

theorem sum_shift (l : List RedeemRun) (δ ε : ℤ) :
    ((l.map (RedeemRun.shift δ ε)).map (·.unwrapped)).sum = (l.map (·.unwrapped)).sum := by
  rw [List.map_map]
  rfl

theorem sum_moving (l : List RedeemRun) (δ ε : ℤ) (r : RedeemRun) :
    ((l.map (RedeemRun.shift δ ε) ++ [r]).map (·.unwrapped)).sum
      = (l.map (·.unwrapped)).sum + r.unwrapped := by
  rw [sum_append_singleton, sum_shift]

section

omit [Field F] [DecidableEq F]

theorem drop (hs : RedeemInv E s) (h : s.runs[i]? = some r) : RedeemInv E (s.drop i) := by
  have hsum := sum_eraseIdx h
  refine ⟨fun x hx => hs.mem_of_eraseIdx hx, ?_, hs.deployed, hs.acks⟩
  have := hs.returned
  change s.acknowledged + ((s.runs.eraseIdx i).map (·.unwrapped)).sum ≤ s.returned
  omega

theorem update (hs : RedeemInv E s) (h : s.runs[i]? = some r) (hr : r'.Ok (s.usdc E) s.pusd)
    (hu : r'.unwrapped = r.unwrapped) : RedeemInv E (s.update i r') := by
  have hsum := sum_eraseIdx h
  refine ⟨fun x hx => ?_, ?_, hs.deployed, hs.acks⟩
  · rcases List.mem_append.mp hx with hx | hx
    · exact hs.mem_of_eraseIdx hx
    · exact List.mem_singleton.mp hx ▸ hr
  · have := hs.returned
    have hnew := sum_append_singleton (s.runs.eraseIdx i) r'
    change s.acknowledged + ((s.runs.eraseIdx i ++ [r']).map (·.unwrapped)).sum ≤ s.returned
    omega

theorem redeemed {amount before pusdBefore : ℕ} (hs : RedeemInv E s) (h : s.runs[i]? = some r)
    (hst : r.stage = .redeeming before pusdBefore) :
    RedeemInv E ((s.updateMoving i { r with redeemed := r.redeemed + amount } 0 amount).setPusd
      (s.pusd + amount)) := by
  have hsum := sum_eraseIdx h
  have hr := hs.runs r (List.mem_of_getElem? h)
  refine ⟨fun x hx => ?_, ?_, hs.deployed, hs.acks⟩
  · rcases List.mem_append.mp hx with hx | hx
    · obtain ⟨y, hy, rfl⟩ := List.mem_map.mp hx
      exact (hs.mem_of_eraseIdx hy).shift (Int.add_zero _).symm (Nat.cast_add _ _)
    · rw [List.mem_singleton.mp hx]
      simp only [RedeemRun.Ok, hst] at hr ⊢
      refine ⟨hr.1, hr.2.1, ?_⟩
      change ((s.pusd + amount : ℕ) : ℤ) = _
      have := hr.2.2
      push_cast at this ⊢
      omega
  · have := hs.returned
    change s.acknowledged + (((s.runs.eraseIdx i).map (RedeemRun.shift 0 amount)
      ++ [{ r with redeemed := r.redeemed + amount }]).map RedeemRun.unwrapped).sum ≤ s.returned
    rw [sum_moving]
    change s.acknowledged + (_ + r.unwrapped) ≤ s.returned
    omega

end

end RedeemInv

/-! ## Every run -/

/-- A second read of a balance finds that others moved no more in than out since the first. -/
def QuietReads (s : Redeemer F) : RedeemAction F Proof Sig → Prop
  | .usdcRead i =>
    match s.runs[i]? with
    | some ⟨.usdcAfter _ _, _, _, foreignUsdc, _⟩ => foreignUsdc ≤ 0
    | _ => True
  | .pusdRead i =>
    match s.runs[i]? with
    | some ⟨.pusdAfter _ _, _, _, _, foreignPusd⟩ => foreignPusd ≤ 0
    | _ => True
  | _ => True

instance (s : Redeemer F) (a : RedeemAction F Proof Sig) : Decidable (QuietReads s a) := by
  unfold QuietReads
  split <;> (try split) <;> infer_instance

namespace RedeemInv

variable {s : Redeemer F} {i : ℕ} {r : RedeemRun}

omit [Field F] [DecidableEq F] in
/-- What a read of the Vault's balance lets a run go on with. -/
theorem usdcRead {r' : RedeemRun} (hs : RedeemInv E s) (h : s.runs[i]? = some r)
    (hc : QuietReads s (.usdcRead i : RedeemAction F Proof Sig))
    (hr : s.usdcRead E r = some (some r')) : RedeemInv E (s.update i r') := by
  have hok := hs.runs r (List.mem_of_getElem? h)
  obtain ⟨stage, redeemed, unwrapped, foreignUsdc, foreignPusd⟩ := r
  cases stage <;> simp only [Redeemer.usdcRead, reduceCtorEq, Option.some.injEq] at hr
  case usdcBefore =>
    subst hr
    exact hs.update h ⟨hok.1, hok.2, (Int.add_zero _).symm⟩ rfl
  case usdcAfter before redeemedPusd =>
    simp only [QuietReads, h] at hc
    split at hr
    · cases hr
    · split at hr
      · cases hr
        obtain ⟨h1, h2⟩ := hok
        refine hs.update h ⟨?_, h2⟩ rfl
        simp only at h1
        change s.usdc E - before ≤ unwrapped
        omega
      · cases hr

omit [Field F] [DecidableEq F] in
theorem pusdRead {r' : RedeemRun} (hs : RedeemInv E s) (h : s.runs[i]? = some r)
    (hc : QuietReads s (.pusdRead i : RedeemAction F Proof Sig))
    (hr : s.pusdRead r = some r') : RedeemInv E (s.update i r') := by
  have hok := hs.runs r (List.mem_of_getElem? h)
  obtain ⟨stage, redeemed, unwrapped, foreignUsdc, foreignPusd⟩ := r
  cases stage <;> simp only [Redeemer.pusdRead, reduceCtorEq, Option.some.injEq] at hr <;>
    subst hr
  case pusdBefore before =>
    obtain ⟨h1, h2, h3⟩ := hok
    refine hs.update h ⟨h2, h3, ?_⟩ rfl
    simp only at h1
    simp [RedeemRun.setStage, h1]
  case pusdAfter before pusdBefore =>
    simp only [QuietReads, h] at hc
    obtain ⟨h1, h2, h3⟩ := hok
    refine hs.update h ?_ rfl
    simp only at h1 h2 h3
    simp only [RedeemRun.setStage, Redeemer.afterRedeem]
    split
    · refine ⟨?_, ?_⟩ <;> simp only <;> omega
    · refine ⟨?_, ?_, h1⟩ <;> simp only <;> omega

end RedeemInv

namespace RedeemInv

section Step

variable {s s' : Redeemer F} {i : ℕ} (hs : RedeemInv E s)

include hs

end Step

end RedeemInv

structure Redeemer.Fresh (s : Redeemer F) : Prop where
  runs : s.runs = []
  acks : s.acks = []
  acknowledged : s.acknowledged = 0
  deployed : s.vault.deployedToPolymarket = s.funded

end Polyshield.Operator
