import Polyshield.Signing.Markets
import Polyshield.Vault.Exits

/-!
# The traded token and the paid slot

A bet is paid by the slot `outcome_side` of its market's payouts, and the token
of its orders is taken from the last row written for its market. The row has the
tokens in the order of the slots, except for a market that lists its canonical
pair as No/Yes or Down/Up.
-/

namespace Polyshield.Markets

open Polyshield.Operator (toFieldSafe)

/-! ## Rows -/

def GammaMarket.row (m : GammaMarket) : Option MarketRow :=
  match toRow m with
  | .ok row => row
  | .error _ => none

def GammaMarket.id (m : GammaMarket) : Option ℕ := bigInt m.cid

/-- The canonical pair comes with its second name first. -/
def ReversedPair (lc : List Text) : Prop := ∃ pair ∈ binaryPairs, lc = [pair.2, pair.1]

instance (lc : List Text) : Decidable (ReversedPair lc) :=
  inferInstanceAs (Decidable (∃ pair ∈ binaryPairs, lc = [pair.2, pair.1]))

def GammaMarket.Reversed (m : GammaMarket) : Prop := ReversedPair (m.outcomes.map toLowerCase)

instance (m : GammaMarket) : Decidable m.Reversed :=
  inferInstanceAs (Decidable (ReversedPair _))

theorem idxOf?_pair (a x y : Text) :
    [x, y].idxOf? a = if x = a then some 0 else if y = a then some 1 else none := by
  by_cases hx : x = a <;> by_cases hy : y = a <;> simp [List.idxOf?_cons, hx, hy]

theorem placesOf_pair {a b : Text} (hab : a ≠ b) (x y : Text) :
    placesOf [x, y] (a, b)
      = if [x, y] = [a, b] then some ((a, b), 0, 1)
        else if [x, y] = [b, a] then some ((a, b), 1, 0) else none := by
  unfold placesOf
  rw [idxOf?_pair, idxOf?_pair]
  by_cases hxa : x = a
  · subst hxa
    by_cases hyb : y = b <;> simp [hyb, hab]
  · by_cases hxb : x = b
    · subst hxb
      by_cases hya : y = a <;> simp [hya, hxa]
    · by_cases hya : y = a <;> simp [hya, hxa, hxb, hab]

/-- Of two names the loop keeps the order, unless they are a canonical pair reversed. -/
theorem sideIndices_pair (x y : Text) :
    sideIndices [x, y] = if ReversedPair [x, y] then (1, 0) else (0, 1) := by
  have hrev : ReversedPair [x, y] ↔ [x, y] = [['n', 'o'], ['y', 'e', 's']] ∨
      [x, y] = [['d', 'o', 'w', 'n'], ['u', 'p']] := by
    simp [ReversedPair, binaryPairs]
  simp only [sideIndices, canonicalPair, binaryPairs, List.findSome?_cons, List.findSome?_nil, hrev]
  rw [placesOf_pair (by decide), placesOf_pair (by decide)]
  by_cases h1 : [x, y] = [['n', 'o'], ['y', 'e', 's']]
  · rw [h1]; decide
  · by_cases h2 : [x, y] = [['y', 'e', 's'], ['n', 'o']]
    · rw [h2]; decide
    · by_cases h3 : [x, y] = [['d', 'o', 'w', 'n'], ['u', 'p']]
      · rw [h3]; decide
      · rw [if_neg h2, if_neg h1, if_neg (not_or.mpr ⟨h1, h3⟩), if_neg h3]
        by_cases h4 : [x, y] = [['u', 'p'], ['d', 'o', 'w', 'n']]
        · rw [if_pos h4]; rfl
        · rw [if_neg h4]; rfl

theorem sideIndices_map {m : GammaMarket} (h : m.outcomes.length = 2) :
    sideIndices (m.outcomes.map toLowerCase) = if m.Reversed then (1, 0) else (0, 1) := by
  obtain ⟨x, y, hxy⟩ := List.length_eq_two.mp ((List.length_map toLowerCase).trans h)
  rw [hxy, sideIndices_pair]
  exact if_congr (by rw [GammaMarket.Reversed, hxy]) rfl rfl

theorem token_eq_some {m : GammaMarket} {i : ℕ} {t : Text} :
    m.token i = some t ↔ m.clobTokenIds[i]? = some t ∧ t ≠ [] := by
  simp [GammaMarket.token, Option.filter_eq_some_iff]

theorem rowAt_some {m : GammaMarket} {sides : ℕ × ℕ} {row : MarketRow}
    (h : rowAt m sides = .ok (some row)) :
    ∃ id, m.id = some id ∧ row.marketIdField = toFieldSafe id ∧
      m.token sides.1 = some row.yesTokenId ∧ m.token sides.2 = some row.noTokenId := by
  unfold rowAt at h
  split at h
  next yes no id hyes hno hid =>
    cases h
    exact ⟨id, hid, rfl, hyes, hno⟩
  · cases h
  · cases h

/-- What a row says of its market. -/
theorem row_some {m : GammaMarket} {row : MarketRow} (h : m.row = some row) :
    ∃ id, m.id = some id ∧ row.marketIdField = toFieldSafe id ∧
      m.token (if m.Reversed then 1 else 0) = some row.yesTokenId ∧
      m.token (if m.Reversed then 0 else 1) = some row.noTokenId := by
  unfold GammaMarket.row at h
  split at h
  case h_2 => cases h
  next hr =>
    subst h
    unfold toRow at hr
    split at hr
    · cases hr
    split at hr
    · cases hr
    split at hr
    · cases hr
    next hlen =>
      rw [sideIndices_map (not_not.mp hlen)] at hr
      obtain ⟨id, hid, hkey, hyes, hno⟩ := rowAt_some hr
      refine ⟨id, hid, hkey, ?_, ?_⟩
      · rw [← hyes]
        split <;> rfl
      · rw [← hno]
        split <;> rfl

/-! ## The registry after a sequence of answers -/

/-- The markets of an answer that its rows were written from. -/
def GammaAnswer.written : GammaAnswer → List GammaMarket
  | .page data =>
    if data.all fun m => (toRow m).isOk then data.filter fun m => m.row.isSome else []
  | .one conditionId data =>
    if isConditionId (toLowerCase conditionId) && data.all fun m => (toRow m).isOk then
      (data.filter fun m => m.row.isSome).take 1
    else []

def GammaAnswer.data : GammaAnswer → List GammaMarket
  | .page data => data
  | .one _ data => data

/-- The market the row of a key was last written from. -/
def lastWritten (answers : List GammaAnswer) (key : ℕ) : Option GammaMarket :=
  ((answers.flatMap GammaAnswer.written).filter fun m =>
    m.row.any fun r => r.marketIdField = key).getLast?

theorem mapM_toRow (data : List GammaMarket) :
    data.mapM toRow = if data.all fun m => (toRow m).isOk then
      .ok (data.map GammaMarket.row) else .error () := by
  induction data with
  | nil => rfl
  | cons m data ih =>
    rw [List.mapM_cons, ih, List.all_cons]
    rcases h : toRow m with ⟨⟩ | row
    · rfl
    · have hrow : m.row = row := by simp [GammaMarket.row, h]
      rw [List.map_cons, hrow]
      by_cases hall : data.all fun m => (toRow m).isOk
      · rw [hall]; rfl
      · rw [Bool.not_eq_true] at hall
        rw [hall]; rfl

theorem filterMap_id_row (data : List GammaMarket) :
    (data.map GammaMarket.row).filterMap id
      = (data.filter fun m => m.row.isSome).filterMap GammaMarket.row := by
  rw [List.filterMap_map, List.filterMap_filter]
  refine List.filterMap_congr fun m _ => ?_
  rcases h : m.row with _ | row <;> simp [h]

theorem take_filterMap_row (data : List GammaMarket) (n : ℕ) :
    ((data.filter fun m => m.row.isSome).filterMap GammaMarket.row).take n
      = ((data.filter fun m => m.row.isSome).take n).filterMap GammaMarket.row := by
  induction data generalizing n with
  | nil => simp
  | cons m data ih =>
    cases n with
    | zero => simp
    | succ n => rcases h : m.row with _ | row <;> simp [h, ih]

theorem sync_eq (reg : MarketRegistry) (answer : GammaAnswer) :
    sync reg answer = (answer.written.filterMap GammaMarket.row).foldl upsert reg := by
  cases answer with
  | page data =>
    simp only [sync, syncPage, GammaAnswer.written, mapM_toRow]
    by_cases hall : data.all fun m => (toRow m).isOk
    · rw [if_pos hall, if_pos hall]
      simp only [filterMap_id_row]
    · rw [if_neg hall, if_neg hall]
      rfl
  | one conditionId data =>
    simp only [sync, syncOneMarket, GammaAnswer.written, mapM_toRow]
    by_cases hid : isConditionId (toLowerCase conditionId)
    · by_cases hall : data.all fun m => (toRow m).isOk
      · simp only [hid, hall, filterMap_id_row, take_filterMap_row, Bool.not_true, if_true,
          Bool.and_self, Bool.false_eq_true, if_false]
      · simp [hid, hall]
    · simp [hid]

theorem registryAfter_eq (answers : List GammaAnswer) :
    registryAfter answers
      = ((answers.flatMap GammaAnswer.written).filterMap GammaMarket.row).foldl upsert [] := by
  unfold registryAfter
  generalize ([] : MarketRegistry) = reg
  induction answers generalizing reg with
  | nil => rfl
  | cons answer answers ih =>
    rw [List.foldl_cons, ih, sync_eq, List.flatMap_cons, List.filterMap_append, List.foldl_append]

theorem find?_upsert (reg : MarketRegistry) (row : MarketRow) (key : ℕ) :
    (upsert reg row).find? (fun r => r.marketIdField = key)
      = if row.marketIdField = key then some row
        else reg.find? fun r => r.marketIdField = key := by
  unfold upsert
  by_cases h : row.marketIdField = key
  · subst h
    have hnone : (reg.filter fun r => r.marketIdField ≠ row.marketIdField).find?
        (fun r => r.marketIdField = row.marketIdField) = none := by
      rw [List.find?_eq_none]
      intro r hr
      simpa using (List.mem_filter.mp hr).2
    rw [List.find?_append, hnone, if_pos rfl]
    simp
  · have hsame : (reg.filter fun r => r.marketIdField ≠ row.marketIdField).find?
        (fun r => r.marketIdField = key) = reg.find? fun r => r.marketIdField = key := by
      rw [List.find?_filter]
      congr 1
      funext r
      by_cases hr : r.marketIdField = key
      · simp [hr, Ne.symm h]
      · simp [hr]
    rw [List.find?_append, hsame, if_neg h]
    simp [h]

theorem find?_foldl_upsert (rows : List MarketRow) (reg : MarketRegistry) (key : ℕ) :
    (rows.foldl upsert reg).find? (fun r => r.marketIdField = key)
      = ((rows.filter fun r => r.marketIdField = key).getLast?).or
        (reg.find? fun r => r.marketIdField = key) := by
  induction rows generalizing reg with
  | nil => simp
  | cons row rows ih =>
    rw [List.foldl_cons, ih, find?_upsert]
    by_cases h : row.marketIdField = key
    · rw [if_pos h, List.filter_cons_of_pos (by simpa using h), List.getLast?_cons]
      cases (rows.filter fun r => r.marketIdField = key).getLast? <;> rfl
    · rw [if_neg h, List.filter_cons_of_neg (by simpa using h)]

theorem find?_registryAfter (answers : List GammaAnswer) (key : ℕ) :
    (registryAfter answers).find? (fun r => r.marketIdField = key)
      = (lastWritten answers key).bind GammaMarket.row := by
  rw [registryAfter_eq, find?_foldl_upsert, List.find?_nil, Option.or_none]
  unfold lastWritten
  generalize answers.flatMap GammaAnswer.written = markets
  induction markets using List.reverseRecOn with
  | nil => rfl
  | append_singleton markets m ih =>
    rw [List.filterMap_append, List.filter_append, List.filter_append]
    rcases h : m.row with _ | row
    · simpa [h] using ih
    · by_cases hkey : row.marketIdField = key
      · simp [h, hkey]
      · simpa [h, hkey] using ih

/-! ## The two paths -/

section Paths

variable {host : Option Text} {reg : MarketRegistry}

/-- With a production host the token is the registry's, for a side 0 or 1. -/
theorem buyToken_eq (hhost : isMockClobHost host = false) (readable : Bool) (bet : OnChainBet) :
    buyToken host reg readable bet
      = if 1 < bet.outcomeSide then none
        else (readToken reg readable bet).bind fun hit =>
          if hit.tokenId = [] then none else some hit.tokenId := by
  unfold buyToken decideBuyToken
  rw [hhost]
  by_cases hside : 1 < bet.outcomeSide
  · simp [hside]
  · rcases readToken reg readable bet with _ | hit
    · simp [hside]
    · by_cases ht : hit.tokenId = [] <;> simp [hside, ht]

/-- A SELL is submitted for the token of the BUY. -/
theorem closeToken_eq (hhost : isMockClobHost host = false) (readable : Bool)
    (record : Option OnChainBet) (req : CloseRequest) :
    closeToken host reg readable record req = record.bind (buyToken host reg readable) := by
  rcases record with _ | bet
  · simp [closeToken, decideCloseToken, hhost]
  · rw [Option.bind_some, buyToken_eq hhost]
    unfold closeToken decideCloseToken
    rw [hhost]
    by_cases hside : 1 < bet.outcomeSide
    · simp [hside]
    · rw [Option.bind_some]
      generalize readToken reg readable bet = resolved
      rcases resolved with _ | hit
      · simp [hside]
      · by_cases ht : hit.tokenId = [] <;> simp [hside, ht]

theorem buyToken_positionId (hhost : isMockClobHost host = false) (readable : Bool)
    (bet : OnChainBet) (positionId : ℕ) :
    buyToken host reg readable { bet with positionId } = buyToken host reg readable bet := by
  rw [buyToken_eq hhost, buyToken_eq hhost]
  rfl

theorem buyToken_readable (hhost : isMockClobHost host = false) (bet : OnChainBet) :
    buyToken host reg true bet
      = if 1 < bet.outcomeSide then none
        else (reg.find? fun r => r.marketIdField = bet.marketId).bind fun row =>
          let tokenId := if bet.outcomeSide = 0 then row.yesTokenId else row.noTokenId
          if tokenId = [] then none else some tokenId := by
  rw [buyToken_eq hhost, readToken, if_pos rfl, resolveToken]
  by_cases hside : 1 < bet.outcomeSide
  · rw [if_pos hside, if_pos hside]
  · rw [if_neg hside, if_neg hside]
    generalize reg.find? (fun r => r.marketIdField = bet.marketId) = found
    rcases found with _ | row
    · rfl
    · simp only [Option.bind_some]
      generalize (if bet.outcomeSide = 0 then row.yesTokenId else row.noTokenId) = tokenId
      by_cases h : tokenId = [] <;> simp [h]

theorem buyToken_unreadable (hhost : isMockClobHost host = false) (bet : OnChainBet) :
    buyToken host reg false bet = none := by
  rw [buyToken_eq hhost, readToken]
  simp

end Paths

/-! ## The slot that is paid -/

/-- What is assumed of the markets Gamma lists: their token ids are the tokens of the slots, and the
field reduction tells their condition ids apart. -/
structure Listing (ctfToken : ℕ → ℕ → Text) (markets : List GammaMarket) : Prop where
  tokens : ∀ m ∈ markets, ∀ id, m.id = some id → ∀ i t, m.clobTokenIds[i]? = some t →
    t = ctfToken id i
  injective : ∀ m ∈ markets, ∀ m' ∈ markets, ∀ id id', m.id = some id → m'.id = some id' →
    toFieldSafe id = toFieldSafe id' → id = id'

/-- The condition with this market id is listed. -/
def ListedAs (markets : List GammaMarket) (id marketId : ℕ) : Prop :=
  (∃ m ∈ markets, m.id = some id) ∧ toFieldSafe id = marketId

/-- `resolveMarket` stores the payout of slot `side` of the condition as what the Vault pays for a
bet on `side` of the market. -/
def PaysSlot (F : Type) [Field F] [DecidableEq F] (id marketId side : ℕ) : Prop :=
  ∀ (m : Msg) (s s' : VaultState F), s.ctf.getOutcomeSlotCount id ≤ 256 →
    resolveMarket m s id = .ok s' → ∀ i : UInt8, i.toNat = side →
    side < s.ctf.getOutcomeSlotCount id →
    (s'.pendingCredit (marketId : F) i).toNat
      = s.ctf.payoutNumerators id side / s.ctf.payoutDenominator id

/-- The token is the one of the slot the Vault pays the bet by. -/
def IsPaidSlot (F : Type) [Field F] [DecidableEq F] (ctfToken : ℕ → ℕ → Text)
    (markets : List GammaMarket) (bet : OnChainBet) (tokenId : Text) : Prop :=
  ∃ id, ListedAs markets id bet.marketId ∧ (∀ id', ListedAs markets id' bet.marketId → id' = id) ∧
    tokenId = ctfToken id bet.outcomeSide ∧ PaysSlot F id bet.marketId bet.outcomeSide

/-- Orders of a bet are for the token of its slot or are not placed, whatever its position and the
request. -/
structure TokenBound (F : Type) [Field F] [DecidableEq F] (ctfToken : ℕ → ℕ → Text)
    (markets : List GammaMarket) (host : Option Text) (reg : MarketRegistry) (bet : OnChainBet) :
    Prop where
  buy : ∀ readable t, buyToken host reg readable bet = some t →
    IsPaidSlot F ctfToken markets bet t
  close : ∀ readable record req t, record = some bet ∨ record = none →
    closeToken host reg readable record req = some t → IsPaidSlot F ctfToken markets bet t
  buy_indep : ∀ readable positionId,
    buyToken host reg readable { bet with positionId } = buyToken host reg readable bet
  close_indep : ∀ readable positionId req req',
    closeToken host reg readable (some { bet with positionId }) req'
      = closeToken host reg readable (some bet) req

section Slot

variable {F : Type} [Field F] [DecidableEq F] {ctfToken : ℕ → ℕ → Text}
  {answers : List GammaAnswer} {host : Option Text} {bet : OnChainBet}

theorem paysSlot (id side : ℕ) : PaysSlot F id (toFieldSafe id) side := by
  intro m s s' hslots hres i hi hside
  obtain ⟨-, -, -, hpay, rfl⟩ := (resolveMarket_eq_ok hslots).mp hres
  have hq : s.ctf.quotient id side < 2 ^ 64 := hpay.2 side hside
  subst hi
  have hpays : (resolvedState m s id).pendingCredit (toFieldSafe id : ℕ)
      = (payoutsOf s.ctf id (s.ctf.getOutcomeSlotCount id)
          (s.pendingCredit (circuitKey id))).payouts := Function.update_self ..
  rw [hpays, payoutsOf]
  simp only [if_pos hside, UInt64.toNat_ofNat', Nat.mod_eq_of_lt hq]
  rfl

theorem written_subset (answer : GammaAnswer) : answer.written ⊆ answer.data := by
  cases answer with
  | page data =>
    simp only [GammaAnswer.written, GammaAnswer.data]
    split
    · exact List.filter_subset_self _
    · exact List.nil_subset _
  | one conditionId data =>
    simp only [GammaAnswer.written, GammaAnswer.data]
    split
    · exact fun m hm => List.filter_subset_self _ (List.take_subset 1 _ hm)
    · exact List.nil_subset _

/-- The market a row comes from was in an answer. -/
theorem mem_of_lastWritten {key : ℕ} {m : GammaMarket} (h : lastWritten answers key = some m) :
    m ∈ answers.flatMap GammaAnswer.data ∧ ∃ row, m.row = some row ∧ row.marketIdField = key := by
  have hmem := List.mem_of_getLast? h
  rw [List.mem_filter, Option.any_eq_true] at hmem
  obtain ⟨hmem, row, hrow, hkey⟩ := hmem
  obtain ⟨answer, hanswer, hm⟩ := List.mem_flatMap.mp hmem
  exact ⟨List.mem_flatMap.mpr ⟨answer, hanswer, written_subset answer hm⟩, row, hrow,
    of_decide_eq_true hkey⟩

/-- The token of a bet with a row is the one of its slot, or of the other slot when the market lists
its pair reversed. -/
theorem buyToken_of_lastWritten (hlist : Listing ctfToken (answers.flatMap GammaAnswer.data))
    (hhost : isMockClobHost host = false) (hside : ¬1 < bet.outcomeSide) {m : GammaMarket}
    (h : lastWritten answers bet.marketId = some m) :
    ∃ id, m.id = some id ∧ toFieldSafe id = bet.marketId ∧
      buyToken host (registryAfter answers) true bet
        = some (ctfToken id (if m.Reversed then 1 - bet.outcomeSide else bet.outcomeSide)) := by
  obtain ⟨hm, row, hrow, hkey⟩ := mem_of_lastWritten h
  obtain ⟨id, hid, hkey', hyes, hno⟩ := row_some hrow
  refine ⟨id, hid, hkey'.symm.trans hkey, ?_⟩
  rw [buyToken_readable hhost, if_neg hside, find?_registryAfter, h, Option.bind_some, hrow,
    Option.bind_some]
  obtain ⟨hyes, hyes0⟩ := token_eq_some.mp hyes
  obtain ⟨hno, hno0⟩ := token_eq_some.mp hno
  have hyes := hlist.tokens m hm id hid _ _ hyes
  have hno := hlist.tokens m hm id hid _ _ hno
  have h01 : bet.outcomeSide = 0 ∨ bet.outcomeSide = 1 := by omega
  rcases h01 with h0 | h1
  · simp only [h0, if_true, if_neg hyes0, Option.some.injEq]
    rw [hyes]
  · simp only [h1, if_neg Nat.one_ne_zero, if_neg hno0, Option.some.injEq]
    rw [hno]

theorem buyToken_of_lastWritten_none (hhost : isMockClobHost host = false)
    (h : lastWritten answers bet.marketId = none) (readable : Bool) :
    buyToken host (registryAfter answers) readable bet = none := by
  cases readable with
  | false => exact buyToken_unreadable hhost bet
  | true =>
    rw [buyToken_readable hhost, find?_registryAfter, h]
    simp

/-- What is bought is bought for a market that lists the bet's id. -/
theorem isPaidSlot_of_buyToken (hlist : Listing ctfToken (answers.flatMap GammaAnswer.data))
    (hhost : isMockClobHost host = false)
    (hcond : ∀ m, lastWritten answers bet.marketId = some m → m.Reversed → 1 < bet.outcomeSide)
    {readable : Bool} {t : Text}
    (ht : buyToken host (registryAfter answers) readable bet = some t) :
    IsPaidSlot F ctfToken (answers.flatMap GammaAnswer.data) bet t := by
  cases readable with
  | false =>
    rw [buyToken_unreadable hhost] at ht
    cases ht
  | true =>
    have hside : ¬1 < bet.outcomeSide := fun h => by
      rw [buyToken_readable hhost, if_pos h] at ht
      cases ht
    rcases h : lastWritten answers bet.marketId with _ | m
    · rw [buyToken_of_lastWritten_none hhost h] at ht
      cases ht
    · obtain ⟨id, hid, hkey, heq⟩ := buyToken_of_lastWritten hlist hhost hside h
      have hm := (mem_of_lastWritten h).1
      rw [heq, if_neg fun hrev => hside (hcond m h hrev), Option.some.injEq] at ht
      refine ⟨id, ⟨⟨m, hm, hid⟩, hkey⟩, ?_, ht.symm, hkey ▸ paysSlot id _⟩
      rintro id' ⟨⟨m', hm', hid'⟩, hkey'⟩
      exact hlist.injective m' hm' m hm id' id hid' hid (hkey'.trans hkey.symm)

/-- A bet is bound to its slot exactly when the market its row was last written from does not list a
canonical pair reversed. -/
theorem tokenBound_iff (hlist : Listing ctfToken (answers.flatMap GammaAnswer.data))
    (hslots : ∀ id, ctfToken id 0 ≠ ctfToken id 1) (hhost : isMockClobHost host = false)
    (bet : OnChainBet) :
    TokenBound F ctfToken (answers.flatMap GammaAnswer.data) host (registryAfter answers) bet ↔
      ∀ m, lastWritten answers bet.marketId = some m → m.Reversed → 1 < bet.outcomeSide := by
  constructor
  · intro hbound m h hrev
    by_contra hside
    obtain ⟨id, hid, hkey, heq⟩ := buyToken_of_lastWritten hlist hhost hside h
    obtain ⟨id', -, huniq, ht, -⟩ := hbound.buy true _ heq
    have hm := (mem_of_lastWritten h).1
    rw [← huniq id ⟨⟨m, hm, hid⟩, hkey⟩, if_pos hrev] at ht
    have h01 : bet.outcomeSide = 0 ∨ bet.outcomeSide = 1 := by omega
    rcases h01 with h0 | h1
    · rw [h0] at ht
      exact hslots id ht.symm
    · rw [h1] at ht
      exact hslots id ht
  · intro hcond
    refine ⟨fun readable t => isPaidSlot_of_buyToken hlist hhost hcond, ?_,
      fun readable positionId => buyToken_positionId hhost readable bet positionId, ?_⟩
    · rintro readable record req t (rfl | rfl) ht
      · rw [closeToken_eq hhost, Option.bind_some] at ht
        exact isPaidSlot_of_buyToken hlist hhost hcond ht
      · rw [closeToken_eq hhost] at ht
        cases ht
    · intro readable positionId req req'
      rw [closeToken_eq hhost, closeToken_eq hhost, Option.bind_some, Option.bind_some,
        buyToken_positionId hhost]

end Slot

/-! ## Listings -/

def sampleToken (_ slot : ℕ) : Text := ['t', if slot = 0 then '0' else '1']

def sampleMarket (outcomes : List Text) : GammaMarket where
  conditionId := some ('0' :: 'x' :: (List.replicate 62 '0' ++ ['2', 'A']))
  outcomes
  clobTokenIds := [['t', '0'], ['t', '1']]
  enableOrderBook := true

theorem sampleMarket_id (outcomes : List Text) : (sampleMarket outcomes).id = some 42 := by
  have h : bigInt (sampleMarket []).cid = some 42 := by decide +kernel
  exact h

theorem listing_sampleMarket {markets : List GammaMarket}
    (h : ∀ m ∈ markets, ∃ outcomes, m = sampleMarket outcomes) : Listing sampleToken markets where
  tokens := by
    intro m hm id _ i t ht
    obtain ⟨outcomes, rfl⟩ := h m hm
    match i with
    | 0 => cases ht; rfl
    | 1 => cases ht; rfl
    | n + 2 => cases ht
  injective := by
    intro m hm m' hm' id id' hid hid' _
    obtain ⟨outcomes, rfl⟩ := h m hm
    obtain ⟨outcomes', rfl⟩ := h m' hm'
    rw [sampleMarket_id, Option.some.injEq] at hid hid'
    rw [← hid, ← hid']

def relisted : List GammaAnswer :=
  [.page [sampleMarket [['N', 'o'], ['Y', 'e', 's']]],
    .one (sampleMarket []).cid [sampleMarket [['U', 'p'], ['D', 'o', 'w', 'n']]]]

theorem listing_relisted :
    Listing sampleToken (relisted.flatMap GammaAnswer.data) := by
  refine listing_sampleMarket fun m hm => ?_
  simp only [relisted, GammaAnswer.data, List.flatMap_cons, List.flatMap_nil, List.append_nil,
    List.cons_append, List.nil_append, List.mem_cons, List.not_mem_nil, or_false] at hm
  rcases hm with rfl | rfl
  · exact ⟨_, rfl⟩
  · exact ⟨_, rfl⟩

theorem sampleToken_ne (id : ℕ) : sampleToken id 0 ≠ sampleToken id 1 := by
  unfold sampleToken
  decide

theorem tokenBound_relisted :
    TokenBound ℚ sampleToken (relisted.flatMap GammaAnswer.data) none (registryAfter relisted)
      ⟨42, 7, 1⟩ := by
  refine (tokenBound_iff listing_relisted sampleToken_ne rfl _).mpr fun m hm hrev => ?_
  have hlast :
      lastWritten relisted 42 = some (sampleMarket [['U', 'p'], ['D', 'o', 'w', 'n']]) := by
    decide +kernel
  rw [hlast, Option.some.injEq] at hm
  subst hm
  exact absurd hrev (by decide)

/-- A bet on side 0 of a market listed as No/Yes buys the token of slot 1. -/
theorem reversed_market_swaps :
    let answers := [GammaAnswer.page [sampleMarket [['N', 'o'], ['Y', 'e', 's']]]]
    Listing sampleToken (answers.flatMap GammaAnswer.data) ∧
      (∀ id, sampleToken id 0 ≠ sampleToken id 1) ∧ isMockClobHost none = false ∧
      buyToken none (registryAfter answers) true ⟨42, 7, 0⟩ = some (sampleToken 42 1) ∧
      ¬TokenBound ℚ sampleToken (answers.flatMap GammaAnswer.data) none (registryAfter answers)
        ⟨42, 7, 0⟩ := by
  intro answers
  have hbuy : buyToken none (registryAfter answers) true ⟨42, 7, 0⟩ = some (sampleToken 42 1) := by
    decide +kernel
  refine ⟨listing_sampleMarket fun m hm => ⟨_, List.mem_singleton.mp hm⟩, sampleToken_ne, rfl, hbuy,
    fun hbound => ?_⟩
  obtain ⟨id, -, -, ht, -⟩ := hbound.buy true _ hbuy
  exact absurd ht (by unfold sampleToken; decide)

end Polyshield.Markets
