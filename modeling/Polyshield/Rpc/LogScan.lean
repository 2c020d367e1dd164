import Polyshield.Lib.PagedScan
import Polyshield.Operator.Nonces

/-!
# Paged log reads

`getLogsChunked` of the relay's `merkle.ts`, `queryFilterChunked` of the signing
layer's `logScan.ts` and `getLogsPaged` of the wallet's `notes.ts`. Each reads
the logs of a range of blocks in windows that get smaller as requests fail; the
first two give up on a rate limit, which the provider has retried already. A
request is numbered, since the same window may fail at one time and be served at
another; the pauses between requests are left out.
-/

namespace Polyshield.Rpc

open PagedScan Operator

/-! ## Errors -/

/-- `code` of an error: a number of JSON-RPC or HTTP, or a name. -/
inductive ErrorCode where
  | number (code : ℤ)
  | name (code : String)
  deriving DecidableEq, Repr

structure NodeError where
  code : Option ErrorCode
  message : Option String

structure RpcError where
  error : Option NodeError
  code : Option ErrorCode
  shortMessage : Option String
  message : Option String

/-- `e?.error?.code ?? e?.code`. -/
def RpcError.code? (e : RpcError) : Option ErrorCode := (e.error.bind NodeError.code).or e.code

def RpcError.text (e : RpcError) : String :=
  (((e.error.bind NodeError.message).or e.shortMessage).or e.message).getD ""

def rateLimitPatterns : List String :=
  ["compute unit", "rate limit", "too many requests", "429", "throughput"]

def isRateLimit (err : RpcError) : Bool :=
  err.code? = some (.number 429) || err.code? = some (.number (-32005)) ||
    rateLimitPatterns.any fun p => includes (toLowerCase err.text.toList) p.toList

/-! ## The loops -/

section Loops

variable {Log : Type} (getLogs : ℕ → ℤ → ℤ → Except RpcError (List Log))
  (fromBlock toBlock chunk : ℤ) (fuel : ℕ)

/-- `Math.max(1, Math.floor(chunk / 2))`. -/
def halveChunk (chunk : ℤ) : ℤ := max 1 (chunk / 2)

/-- `span / 2n > 0n ? span / 2n : 1n`; the division of a `bigint` truncates. -/
def halveSpan (span : ℤ) : ℤ := if 0 < span.tdiv 2 then span.tdiv 2 else 1

def getLogsChunked : Option (Ended RpcError Log) :=
  scan halveChunk isRateLimit toBlock getLogs fuel 0 fromBlock (max 1 chunk) []

def queryFilterChunked : Option (Ended RpcError Log) :=
  scan halveChunk isRateLimit toBlock getLogs fuel 0 (max 0 fromBlock) (max 1 chunk) []

def getLogsPaged : Option (Ended RpcError Log) :=
  scan halveSpan (fun _ => false) toBlock getLogs fuel 0 fromBlock chunk []

end Loops

theorem shrinks_halveChunk : Shrinks halveChunk := by
  intro span hspan
  unfold halveChunk
  omega

theorem shrinks_halveSpan : Shrinks halveSpan := by
  intro span hspan
  unfold halveSpan
  rw [Int.tdiv_eq_ediv_of_nonneg (by omega)]
  split <;> omega

/-! ## What they read -/

/-- The provider, for the logs that match a filter: the logs of the chain in their order, and the
requests that fail. -/
structure Provider (Log : Type) extends Source RpcError Log where
  pos_nonneg : ∀ log, 0 ≤ pos log

variable {Log : Type}

theorem Provider.within_max_zero (provider : Provider Log) (fromBlock toBlock : ℤ) :
    provider.within (max 0 fromBlock) toBlock = provider.within fromBlock toBlock := by
  unfold Source.within
  refine List.filter_congr fun log _ => ?_
  have := provider.pos_nonneg log
  simp only [max_le_iff, this, true_and]

/-- The most requests that a read can make. -/
def requestBound (fromBlock toBlock chunk : ℤ) : ℕ :=
  (toBlock + 1 - fromBlock).toNat + chunk.toNat

/-- The loop ends, and it returns every log of the range once, in the order of the chain, or throws
an error that is rethrown or of a window of one block. If all windows of some size are served and no
error is rethrown, it returns. -/
structure ReadsExactly (provider : Provider Log) (rethrow : RpcError → Bool)
    (fromBlock toBlock chunk : ℤ) (read : ℕ → Option (Ended RpcError Log)) : Prop where
  ends : ∃ ended, (∀ fuel, requestBound fromBlock toBlock chunk < fuel → read fuel = some ended) ∧
    ended.requests ≤ requestBound fromBlock toBlock chunk ∧
    (ended.result = .ok (provider.within fromBlock toBlock) ∨
      ∃ e i lo hi, ended.result = .error e ∧ i < ended.requests ∧ provider.fails i lo hi = some e ∧
        (rethrow e = true ∨ lo = hi))
  returns : ∀ limit, 1 ≤ limit → provider.ServesUpTo limit →
    (∀ i lo hi e, provider.fails i lo hi = some e → rethrow e = false) →
    ∃ requests, ∀ fuel, requestBound fromBlock toBlock chunk < fuel →
      read fuel = some ⟨requests, .ok (provider.within fromBlock toBlock)⟩

/-- A loop that starts at a block of the range with nothing to read before it. -/
theorem readsExactly_scan {shrink : ℤ → ℤ} (hshrink : Shrinks shrink) (rethrow : RpcError → Bool)
    (provider : Provider Log) {fromBlock toBlock chunk first span : ℤ}
    (hfirst : fromBlock ≤ first) (hspan : 1 ≤ span) (hchunk : span ≤ chunk)
    (hrange : provider.within first toBlock = provider.within fromBlock toBlock) :
    ReadsExactly provider rethrow fromBlock toBlock chunk
      fun fuel => scan shrink rethrow toBlock provider.request fuel 0 first span [] := by
  have hbound :
      (toBlock + 1 - first).toNat + span.toNat ≤ requestBound fromBlock toBlock chunk := by
    unfold requestBound
    omega
  obtain ⟨ended, hended, hrequests, hresult⟩ := scan_spec hshrink rethrow provider.toSource toBlock
    0 first span [] hspan (Nat.lt_succ_of_le hbound)
  have hread : ∀ fuel, requestBound fromBlock toBlock chunk < fuel →
      scan shrink rethrow toBlock provider.request fuel 0 first span [] = some ended :=
    fun fuel hfuel => scan_mono hfuel hended
  rw [List.nil_append, hrange] at hresult
  refine ⟨⟨ended, hread, by omega, hresult⟩, fun limit hlimit hserves hfails => ?_⟩
  refine ⟨ended.requests, fun fuel hfuel => ?_⟩
  rcases hresult with hok | ⟨e, i, lo, hi, -, -, he, hthrow | rfl⟩
  · rw [hread fuel hfuel, ← hok]
  · rw [hfails i lo hi e he] at hthrow
    cases hthrow
  · rw [hserves i lo lo (by omega)] at he
    cases he

theorem paged_log_reads_exact (provider : Provider Log) (fromBlock toBlock chunk : ℤ)
    (hchunk : 1 ≤ chunk) :
    ReadsExactly provider isRateLimit fromBlock toBlock chunk
        (getLogsChunked provider.request fromBlock toBlock chunk) ∧
      ReadsExactly provider isRateLimit fromBlock toBlock chunk
        (queryFilterChunked provider.request fromBlock toBlock chunk) ∧
      ReadsExactly provider (fun _ => false) fromBlock toBlock chunk
        (getLogsPaged provider.request fromBlock toBlock chunk) := by
  have hmax : max 1 chunk = chunk := max_eq_right hchunk
  refine ⟨?_, ?_, ?_⟩
  · exact readsExactly_scan shrinks_halveChunk _ provider le_rfl (le_max_left ..) hmax.le rfl
  · exact readsExactly_scan shrinks_halveChunk _ provider (le_max_right ..) (le_max_left ..) hmax.le
      (provider.within_max_zero ..)
  · exact readsExactly_scan shrinks_halveSpan _ provider le_rfl hchunk le_rfl rfl

def rangeTooLarge : RpcError where
  error := some ⟨some (.number (-32600)), some "eth_getLogs is limited to a 10 block range"⟩
  code := some (.name "UNKNOWN_ERROR")
  shortMessage := none
  message := none

/-- Logs at these blocks, on a node that serves ten blocks at a time. -/
def cappedProvider (blocks : List ℕ) (h : blocks.Pairwise (· ≤ ·)) : Provider ℕ where
  records := blocks
  pos := fun block => block
  sorted := h.imp Int.ofNat_le.mpr
  fails := fun _ lo hi => if hi - lo + 1 ≤ 10 then none else some rangeTooLarge
  pos_nonneg := fun _ => Int.natCast_nonneg _

theorem paged_log_reads_exact_capped :
    let provider := cappedProvider [3, 25, 25, 40] (by decide)
    ReadsExactly provider isRateLimit 0 40 9000 (getLogsChunked provider.request 0 40 9000) ∧
      ReadsExactly provider isRateLimit 0 40 9000 (queryFilterChunked provider.request 0 40 9000) ∧
      ReadsExactly provider (fun _ => false) 0 40 9000 (getLogsPaged provider.request 0 40 9000) :=
  paged_log_reads_exact _ 0 40 9000 (by decide)

end Polyshield.Rpc
