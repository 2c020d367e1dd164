import Polyshield.Signing.Run

/-!
# What a step can do

`Steps` lists the steps with their guards and their effect, and `steps_of_step`
reads them off `step`. The later modules argue by cases on `Steps`.
-/

namespace Polyshield.Signing

open SigningLayer

inductive PostMoves (posts : List Post) : Post → PostState → Prop
  | accept {p : Post} {id : OrderId} {live : Bool} {taken : ℕ} (hsent : p.state = .sent)
      (hfresh : ∀ q ∈ posts, q.orderID? ≠ some id) (hsize : taken ≤ p.size) :
      PostMoves posts p (.book id live taken 0)
  | refuse {p : Post} (hsent : p.state = .sent) : PostMoves posts p .refused
  | fill {p : Post} {id : OrderId} {taken made taken' made' : ℕ}
      (hbook : p.state = .book id true taken made) (htaken : taken ≤ taken') (hmade : made ≤ made')
      (hsize : taken' + made' ≤ p.size) : PostMoves posts p (.book id true taken' made')
  | close {p : Post} {id : OrderId} {taken made : ℕ} (hbook : p.state = .book id true taken made) :
      PostMoves posts p (.book id false taken made)

def Action.onBook : Action → Bool
  | .clobAccept .. | .clobRefuse .. | .clobFill .. | .clobClose .. => true
  | _ => false

inductive Steps (s : SigningLayer) : Action → SigningLayer → Prop
  | handleBetRecord {r : BetAuthorizedRecord} (hidle : s.listener = .idle) (hlog : s.authentic r) :
      Steps s (.handleBetRecord r) (s.handleBetRecord r)
  | confirmed {r : BetAuthorizedRecord} {resolved : Option RegistryHit}
      (hl : s.listener = .confirming r) :
      Steps s (.confirmed (some resolved)) (s.confirmed r resolved)
  | confirmThrew {r : BetAuthorizedRecord} (hl : s.listener = .confirming r) :
      Steps s (.confirmed none) (s.setListener .idle)
  | funded {e : BetAuthorizedEvent} {t : OrderType} {ok : Bool} (hl : s.listener = .funding e t) :
      Steps s (.funded ok) (s.funded e t ok)
  | prepared {e : BetAuthorizedEvent} {t : OrderType} {size : Option ℕ}
      (hl : s.listener = .preparing e t) : Steps s (.prepared size) (s.prepared e t size)
  | fakResponded {e : BetAuthorizedEvent} {i : ℕ} {p : Post} {resp : Option ClobResponse}
      (hl : s.listener = .posting e .fak i) (hp : s.posts[i]? = some p)
      (htrue : ∀ r ∈ resp, r.truthful p) :
      Steps s (.responded resp) (s.fakResponded e p.size resp)
  | limitResponded {e : BetAuthorizedEvent} {t : OrderType} {i : ℕ} {p : Post}
      {resp : Option ClobResponse} (ht : t ≠ .fak) (hl : s.listener = .posting e t i)
      (hp : s.posts[i]? = some p) (htrue : ∀ r ∈ resp, r.truthful p) :
      Steps s (.responded resp) (s.limitResponded e t resp)
  | crossed {e : BetAuthorizedEvent} {t : OrderType} {id : OrderId} {fee : Option ℕ}
      (hl : s.listener = .crossing e t id) : Steps s (.crossed fee) (s.crossed e t id fee)
  | limitOrder {n : Hex32} {t : OrderType} : Steps s (.limitOrder n t) (s.recordLimitOrder n t)
  | cancelBet {n : Hex32} : Steps s (.cancelBet n) (s.cancelBet n)
  | closeRequest {req : CloseRequest} {t : OrderType} :
      Steps s (.closeRequest req t) (s.closeRequest req t)
  | signed {i : ℕ} {input : AttestationInput} {after : AfterAttest} {signature : String}
      (ht : s.tasks[i]? = some (.signing input after)) :
      Steps s (.signed i (some signature))
        (((s.dropTask i).insertAttestation input signature).afterAttest after)
  | signThrew {i : ℕ} {input : AttestationInput} {after : AfterAttest}
      (ht : s.tasks[i]? = some (.signing input after)) :
      Steps s (.signed i none) ((s.dropTask i).afterAttest after)
  | attested {i : ℕ} {after : AfterAttest} (ht : s.tasks[i]? = some (.attested after)) :
      Steps s (.attested i) ((s.dropTask i).afterAttest after)
  | cancelClient {i : ℕ} {n : Hex32} {client : Bool} (ht : s.tasks[i]? = some (.cancelClient n)) :
      Steps s (.cancelClient i client) ((s.dropTask i).cancelTrackedOrder n client)
  | cancelled {i : ℕ} {o : TrackedOrder} {canceled : Bool} {od : OrderAnswer} {trades : Option ℕ}
      {spent : ℕ} {s' : SigningLayer} (ht : s.tasks[i]? = some (.cancelling o))
      (htrue : s.answersTruly o canceled od trades)
      (hs : (s.dropTask i).cancelled o od trades spent = some s') :
      Steps s (.cancelled i canceled od trades spent) s'
  | reconciled {i : ℕ} {o : TrackedOrder} {od : OrderAnswer} {trades : Option ℕ} {spent : ℕ}
      {s' : SigningLayer} (ht : s.tasks[i]? = some (.reconciling o))
      (htrue : s.answersTruly o false od trades)
      (hs : (s.dropTask i).reconciled o od trades spent = some s') :
      Steps s (.reconciled i od trades spent) s'
  | marketClient {i : ℕ} {n : Hex32} {sub : MarketSubmission} {client : Bool}
      (ht : s.tasks[i]? = some (.marketClient n sub)) :
      Steps s (.marketClient i client) ((s.dropTask i).reconcileMarketSubmission n sub client)
  | marketQueried {i : ℕ} {n : Hex32} {id : OrderId} {od : OrderAnswer} {spent : ℕ}
      {s' : SigningLayer} (ht : s.tasks[i]? = some (.marketQuery n id))
      (hs : (s.dropTask i).marketQueried n id od spent = some s') :
      Steps s (.marketQueried i od spent) s'
  | sell {i : ℕ} {req : CloseRequest} {t : OrderType} {client : Bool}
      {resolved : Option RegistryHit} {bestBid : ℕ} (ht : s.tasks[i]? = some (.selling req t)) :
      Steps s (.sell i client resolved bestBid) ((s.dropTask i).sell req t client resolved bestBid)
  | sellThrew {i : ℕ} {req : CloseRequest} {t : OrderType} {c : ℕ} {k : TokenId} {price j : ℕ}
      {confirmed : Bool} {fee : ℕ} (ht : s.tasks[i]? = some (.sellPosted req t c k price j)) :
      Steps s (.sellResponded i none confirmed fee) (s.dropTask i)
  | marketSold {i : ℕ} {req : CloseRequest} {c : ℕ} {k : TokenId} {price j : ℕ} {p : Post}
      {r : ClobResponse} {confirmed : Bool} {fee : ℕ}
      (ht : s.tasks[i]? = some (.sellPosted req .fak c k price j)) (hp : s.posts[j]? = some p)
      (htrue : r.truthful p) :
      Steps s (.sellResponded i (some r) confirmed fee)
        ((s.dropTask i).marketSold req price r confirmed fee)
  | limitSellResponded {i : ℕ} {req : CloseRequest} {t : OrderType} {c : ℕ} {k : TokenId}
      {price j : ℕ} {p : Post} {r : ClobResponse} {confirmed : Bool} {fee : ℕ} (hfak : t ≠ .fak)
      (ht : s.tasks[i]? = some (.sellPosted req t c k price j)) (hp : s.posts[j]? = some p)
      (htrue : r.truthful p) :
      Steps s (.sellResponded i (some r) confirmed fee)
        ((s.dropTask i).limitSellResponded req t c k r)
  | sellCrossed {i : ℕ} {req : CloseRequest} {t : OrderType} {c : ℕ} {k : TokenId} {id : OrderId}
      {fee : ℕ} (ht : s.tasks[i]? = some (.sellFee req t c k id)) :
      Steps s (.sellCrossed i (some fee)) ((s.dropTask i).trackOrder (sellTracked req t c k id fee))
  | sellCrossThrew {i : ℕ} {req : CloseRequest} {t : OrderType} {c : ℕ} {k : TokenId} {id : OrderId}
      (ht : s.tasks[i]? = some (.sellFee req t c k id)) :
      Steps s (.sellCrossed i none) (s.dropTask i)
  | message {i : ℕ} {p : Post} {id : OrderId} {taken made : ℕ}
      {withOrderID withAssetId withSize : Bool} (hp : s.posts[i]? = some p)
      (hstate : p.state = .book id false taken made) :
      Steps s (.message i withOrderID withAssetId withSize)
        (s.handleOne (p.message withOrderID withAssetId withSize))
  | reconcile {o : TrackedOrder} (ho : o ∈ s.byOrderId) : Steps s (.reconcile o) (s.reconcileOne o)
  | marketResolved {c : ℕ} : Steps s (.marketResolved c) (s.cancelOrdersForMarket c)
  | restart : Steps s .restart s.restart
  | clob {a : Action} {i : ℕ} {p : Post} {state : PostState} (hp : s.posts[i]? = some p)
      (hm : PostMoves s.posts p state) (ha : a.onBook = true) :
      Steps s a (s.setPost i { p with state })
  | authorizeBet {bet : ChainBet} (hnew : ∀ b ∈ s.bets, b.nullifier ≠ bet.nullifier) :
      Steps s (.authorizeBet bet) { s with bets := s.bets ++ [bet] }
  | setBetStatus {n : ℕ} {status : BetStatus} :
      Steps s (.setBetStatus n status)
        { s with bets := s.bets.map fun b => if b.nullifier = n then { b with status } else b }
  | tick {ms : ℕ} : Steps s (.tick ms) { s with now := s.now + ms }

theorem steps_of_step {s s' : SigningLayer} {a : Action} (h : machine.step s a = some s') :
    Steps s a s' := by
  simp only [machine] at h
  cases a <;> simp only [step] at h
  case handleBetRecord r =>
    obtain ⟨⟨hidle, hlog⟩, rfl⟩ := by simpa using h
    exact .handleBetRecord hidle hlog
  case confirmed answer =>
    split at h
    · rename_i r hl
      cases answer <;> cases h
      · exact .confirmThrew hl
      · exact .confirmed hl
    · cases h
  case funded ok =>
    split at h <;> cases h
    exact .funded ‹_›
  case prepared size =>
    split at h <;> cases h
    exact .prepared ‹_›
  case responded resp =>
    split at h
    · rename_i e t i hl
      split at h
      · rename_i p hp
        split at h
        · rename_i htrue
          have htrue' : ∀ r ∈ resp, r.truthful p := by
            cases resp <;> simp_all
          cases t <;> cases h
          · exact .fakResponded hl hp htrue'
          · exact .limitResponded (by decide) hl hp htrue'
          · exact .limitResponded (by decide) hl hp htrue'
        · cases h
      · cases h
    · cases h
  case crossed fee =>
    split at h <;> cases h
    exact .crossed ‹_›
  case limitOrder n t =>
    cases h
    exact .limitOrder
  case cancelBet n =>
    cases h
    exact .cancelBet
  case closeRequest req t =>
    cases h
    exact .closeRequest
  case signed i signature =>
    split at h
    · rename_i input after ht
      cases signature <;> cases h
      · exact .signThrew ht
      · exact .signed ht
    · cases h
  case attested i =>
    split at h <;> cases h
    exact .attested ‹_›
  case cancelClient i client =>
    split at h <;> cases h
    exact .cancelClient ‹_›
  case cancelled i canceled od trades spent =>
    split at h
    · rename_i o ht
      split at h
      · exact .cancelled ht ‹_› h
      · cases h
    · cases h
  case reconciled i od trades spent =>
    split at h
    · rename_i o ht
      split at h
      · exact .reconciled ht ‹_› h
      · cases h
    · cases h
  case marketClient i client =>
    split at h <;> cases h
    exact .marketClient ‹_›
  case marketQueried i od spent =>
    split at h
    · exact .marketQueried ‹_› h
    · cases h
  case sell i client resolved bestBid =>
    split at h <;> cases h
    exact .sell ‹_›
  case sellResponded i resp confirmed fee =>
    split at h
    · rename_i req t c k price j ht
      split at h
      · cases h
        exact .sellThrew ht
      · rename_i p r hp
        split at h
        · rename_i htrue
          cases t <;> cases h
          · exact .marketSold ht hp htrue
          · exact .limitSellResponded (by decide) ht hp htrue
          · exact .limitSellResponded (by decide) ht hp htrue
        · cases h
      · cases h
    · cases h
  case sellCrossed i fee =>
    split at h
    · rename_i req t c k id ht
      cases fee <;> cases h
      · exact .sellCrossThrew ht
      · exact .sellCrossed ht
    · cases h
  case message i a b c =>
    split at h
    · rename_i p hp
      split at h <;> cases h
      exact .message hp ‹_›
    · cases h
  case reconcile o =>
    obtain ⟨ho, rfl⟩ := by simpa using h
    exact .reconcile ho
  case marketResolved c =>
    cases h
    exact .marketResolved
  case restart =>
    cases h
    exact .restart
  case clobAccept i id live taken =>
    split at h
    · rename_i p hp
      split at h <;> cases h
      rename_i hg
      exact .clob hp (.accept hg.1 hg.2.1 hg.2.2) rfl
    · cases h
  case clobRefuse i =>
    split at h
    · rename_i p hp
      split at h <;> cases h
      exact .clob hp (.refuse ‹_›) rfl
    · cases h
  case clobFill i amount asMaker =>
    split at h
    · rename_i p hp
      split at h
      · rename_i id taken made hbook
        split at h <;> cases h
        rename_i hsize
        cases asMaker
        · exact .clob hp (.fill hbook (by omega) le_rfl (by omega)) rfl
        · exact .clob hp (.fill hbook le_rfl (by omega) (by omega)) rfl
      · cases h
    · cases h
  case clobClose i =>
    split at h
    · rename_i p hp
      split at h <;> cases h
      exact .clob hp (.close ‹_›) rfl
    · cases h
  case authorizeBet bet =>
    split at h <;> cases h
    rename_i hnew
    exact .authorizeBet (by simpa using hnew)
  case setBetStatus n status =>
    cases h
    exact .setBetStatus
  case tick ms =>
    cases h
    exact .tick

end Polyshield.Signing
