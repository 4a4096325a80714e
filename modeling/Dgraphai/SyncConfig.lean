import Dgraphai.ProxyWire
import Mathlib.Algebra.Order.Ring.Int
import Mathlib.Algebra.Order.Ring.Nat

/-!
# What an accepted configuration makes of the sync loop (`internal/config/config.go`, `internal/sync/syncer.go`)

`Load` turns a batch size that is no number into 0, takes negative sizes and intervals as they are, and checks
neither. A batch size that is not positive drains nothing, so every `sync` is a heartbeat; an interval that is not
positive is a panic of the ticker, and one of 2^62 ns or more doubles to a negative backoff. Nothing else goes wrong
(`accepted_iff`). A `none` of the loop is a panic.
-/

namespace Dgraphai.Proxy

/-! ### `strconv.Atoi` and `time.ParseDuration` -/

def digit (c : Char) : ℕ := c.toNat - '0'.toNat

/-- A sign, and what follows it. -/
def signed : List Char → Bool × List Char
  | '-' :: s => (true, s)
  | '+' :: s => (false, s)
  | s => (false, s)

/-- `strconv.Atoi` with an `int` of 64 bits. -/
def atoi (text : List Char) : Option ℤ :=
  let (neg, s) := signed text
  if s = [] ∨ s.any (fun c => ! c.isDigit) then none
  else
    let n : ℤ := if neg then - (Nat.ofDigitChars 10 s 0 : ℤ) else Nat.ofDigitChars 10 s 0
    if -2 ^ 63 ≤ n ∧ n < 2 ^ 63 then some n else none

/-- `leadingInt`; `none` is an overflow. -/
def leadingInt : ℕ → List Char → Option (ℕ × List Char)
  | x, [] => some (x, [])
  | x, c :: s =>
    if c.isDigit then
      if x > 2 ^ 63 / 10 ∨ x * 10 + digit c > 2 ^ 63 then none else leadingInt (x * 10 + digit c) s
    else some (x, c :: s)

/-- `leadingFraction`: the digits that fit, and the power of ten under them. -/
def leadingFraction : ℕ → Float → Bool → List Char → ℕ × Float × List Char
  | x, scale, _, [] => (x, scale, [])
  | x, scale, overflow, c :: s =>
    if c.isDigit then
      if overflow = true ∨ x > (2 ^ 63 - 1) / 10 ∨ x * 10 + digit c > 2 ^ 63 then leadingFraction x scale true s
      else leadingFraction (x * 10 + digit c) (scale * 10) false s
    else (x, scale, c :: s)

/-- `unitMap`, in nanoseconds. -/
def unitMap : List Char → Option ℕ
  | ['n', 's'] => some 1
  | ['u', 's'] | ['\u00b5', 's'] | ['\u03bc', 's'] => some 1000
  | ['m', 's'] => some 1000000
  | ['s'] => some 1000000000
  | ['m'] => some 60000000000
  | ['h'] => some 3600000000000
  | _ => none

/-- `uint64(float64(f) * (float64(unit) / scale))`. -/
def fraction (f unit : ℕ) (scale : Float) : ℕ := (f.toUInt64.toFloat * (unit.toUInt64.toFloat / scale)).toUInt64.toNat

/-- A number with its unit, and what follows it. -/
def durationUnit (text : List Char) : Option (ℕ × List Char) := do
  let c ← text.head?
  if c ≠ '.' ∧ ¬ c.isDigit then none
  let (v, rest) ← leadingInt 0 text
  let pre := decide (rest.length ≠ text.length)
  let (f, scale, rest, post) := match rest with
    | '.' :: s =>
      let (f, scale, rest) := leadingFraction 0 1 false s
      (f, scale, rest, decide (rest.length ≠ s.length))
    | rest => (0, 1, rest, false)
  if pre = false ∧ post = false then none
  let (u, rest) := rest.span fun c => c ≠ '.' ∧ ¬ c.isDigit
  let unit ← unitMap u
  if v > 2 ^ 63 / unit then none
  let v := if f > 0 then v * unit + fraction f unit scale else v * unit
  if v > 2 ^ 63 then none
  pure (v, rest)

/-- The loop over the numbers with their units, on a `uint64`. A round takes a unit off the text, so the length of the
text bounds them. -/
def durationUnits : ℕ → ℕ → List Char → Option ℕ
  | _, d, [] => some d
  | 0, _, _ :: _ => none
  | rounds + 1, d, c :: s =>
    (durationUnit (c :: s)).bind fun r =>
      if (d + r.1) % 2 ^ 64 > 2 ^ 63 then none else durationUnits rounds ((d + r.1) % 2 ^ 64) r.2

/-- `time.ParseDuration`, in nanoseconds. -/
def parseDuration (text : List Char) : Option ℤ :=
  let (neg, s) := signed text
  if s = ['0'] then some 0
  else if s = [] then none
  else do
    let d ← durationUnits s.length 0 s
    if neg then some (-d)
    else if d > 2 ^ 63 - 1 then none
    else some d

example : parseDuration ['1', 'h', '3', '0', 'm'] = some (90 * 60 * 1000000000) := by decide

/-! ### `Load` -/

structure Environment where
  /-- `os.Getenv`; an unset variable is empty. -/
  getenv : String → String
  hostname : String
  /-- `%q`. -/
  quote : String → String

structure Config where
  tenantID : String
  agentID : String
  proxyID : String
  dataDir : String
  storeMode : String
  cloudURL : String
  cloudToken : String
  syncInterval : ℤ
  syncBatchSize : ℤ
  listenAddr : String
  tlsCertFile : String
  tlsKeyFile : String
  jwtSecret : String
  maxQueryResults : ℤ
  queryTimeoutSec : ℤ
  metricsAddr : String
  logLevel : String
  logFormat : String
  airGapped : Bool
  deriving DecidableEq, Repr

variable (E : Environment)

def envOr (key default : String) : String := if E.getenv key ≠ "" then E.getenv key else default

def envBool (key : String) : Bool := E.getenv key = "1" ∨ E.getenv key = "true" ∨ E.getenv key = "yes"

def mustInt (s : String) : ℤ := (atoi s.toList).getD 0

def mustDuration (s : String) : ℤ := (parseDuration s.toList).getD (5 * 60 * 1000000000)

/-- The `cfg` that `Load` begins with. -/
def read : Config where
  tenantID := E.getenv "DGPROXY_TENANT_ID"
  agentID := envOr E "DGPROXY_AGENT_ID" "default"
  proxyID := envOr E "DGPROXY_PROXY_ID" E.hostname
  dataDir := envOr E "DGPROXY_DATA_DIR" "./data"
  storeMode := envOr E "DGPROXY_STORE_MODE" "badger"
  cloudURL := envOr E "DGPROXY_CLOUD_URL" ""
  cloudToken := envOr E "DGPROXY_CLOUD_TOKEN" ""
  syncInterval := mustDuration (envOr E "DGPROXY_SYNC_INTERVAL" "5m")
  syncBatchSize := mustInt (envOr E "DGPROXY_SYNC_BATCH_SIZE" "500")
  listenAddr := envOr E "DGPROXY_LISTEN_ADDR" "127.0.0.1:7433"
  tlsCertFile := envOr E "DGPROXY_TLS_CERT" ""
  tlsKeyFile := envOr E "DGPROXY_TLS_KEY" ""
  jwtSecret := envOr E "DGPROXY_JWT_SECRET" ""
  maxQueryResults := mustInt (envOr E "DGPROXY_MAX_QUERY_RESULTS" "10000")
  queryTimeoutSec := mustInt (envOr E "DGPROXY_QUERY_TIMEOUT_SEC" "30")
  metricsAddr := envOr E "DGPROXY_METRICS_ADDR" ":9091"
  logLevel := envOr E "DGPROXY_LOG_LEVEL" "info"
  logFormat := envOr E "DGPROXY_LOG_FORMAT" "json"
  airGapped := envBool E "DGPROXY_AIR_GAPPED"

def load : Except String Config :=
  let cfg := read E
  if cfg.tenantID = "" then .error "DGPROXY_TENANT_ID is required"
  else if cfg.storeMode ≠ "badger" ∧ cfg.storeMode ≠ "bolt" then
    .error ("unknown DGPROXY_STORE_MODE " ++ E.quote cfg.storeMode ++ " (badger|bolt)")
  else if cfg.airGapped = false ∧ cfg.cloudURL = "" then .ok { cfg with airGapped := true }
  else .ok cfg

/-! ### `Run` and `sync` -/

/-- `time.NewTicker` and `Reset`, which panic unless the interval is positive. -/
def ticker (d : ℤ) : Option Unit := if 0 < d then some () else none

def maxBackoff : ℤ := 30 * 60 * 1000000000

/-- `time.Duration(math.Min(float64(backoff*2), float64(maxBackoff)))`; the product is an `int64`, and the floats are
exact below `maxBackoff` unless it is negative, where `Reset` panics on any. -/
def nextBackoff (backoff : ℤ) : ℤ := min (Int.bmod (backoff * 2) (2 ^ 64)) maxBackoff

/-- The ticks of `Run`, by whether `sync` returns without an error. -/
def runTicks (interval : ℤ) : ℤ → List Bool → Option Unit
  | _, [] => some ()
  | backoff, ok :: ticks =>
    let backoff := if ok then interval else nextBackoff backoff
    (ticker backoff).bind fun _ => runTicks interval backoff ticks

def run (cfg : Config) (ticks : List Bool) : Option Unit :=
  if cfg.airGapped then some ()
  else (ticker cfg.syncInterval).bind fun _ => runTicks cfg.syncInterval cfg.syncInterval ticks

/-- The loop of `DrainDeltas`. -/
def drainLoop (tenantID : String) (n : ℤ) : List (String × Value) → List DeltaRecord → List DeltaRecord
  | [], deltas => deltas
  | item :: items, deltas =>
    if (deltas.length : ℤ) < n then drainLoop tenantID n items (deltas ++ (scanDelta tenantID item.1 item.2).toList)
    else deltas

def Store.drainDeltas (s : Store) (n : ℤ) : List DeltaRecord := drainLoop s.tenantID n s.kv.toList []

inductive Posted where
  | heartbeat
  | batch (deltas : List DeltaRecord) (body : Json)

/-- What a `sync` posts. -/
def sync (rfc3339 : Time → String) (cfg : Config) (batchSeq : ℕ) (sentAt : Time) (s : Store) : Posted :=
  let pending := s.drainDeltas cfg.syncBatchSize
  if pending = [] then .heartbeat
  else .batch pending (encodeBatch rfc3339 ⟨cfg.proxyID, cfg.tenantID, cfg.agentID⟩ pending batchSeq sentAt)

/-- `Run` does not panic, and a `sync` on a store with pending deltas posts some of them. -/
structure CanSync (cfg : Config) : Prop where
  runs : ∀ ticks : List Bool, run cfg ticks = some ()
  posts : ∀ (rfc3339 : Time → String) (batchSeq : ℕ) (sentAt : Time) (s : Store), s.pending ≠ [] →
    ∃ deltas body, sync rfc3339 cfg batchSeq sentAt s = .batch deltas body ∧ deltas ≠ []

/-- The environment is accepted for syncing with a cloud. -/
def Connected : Prop :=
  E.getenv "DGPROXY_TENANT_ID" ≠ "" ∧
    (envOr E "DGPROXY_STORE_MODE" "badger" = "badger" ∨ envOr E "DGPROXY_STORE_MODE" "badger" = "bolt") ∧
      envBool E "DGPROXY_AIR_GAPPED" = false ∧ E.getenv "DGPROXY_CLOUD_URL" ≠ ""

/-- The batch size is a positive number, and the interval no duration, or one from 1 ns to below 2^62 ns. -/
def Sane : Prop :=
  (∃ n, atoi (envOr E "DGPROXY_SYNC_BATCH_SIZE" "500").toList = some n ∧ 0 < n) ∧
    ∀ d, parseDuration (envOr E "DGPROXY_SYNC_INTERVAL" "5m").toList = some d → 0 < d ∧ d < 2 ^ 62

/-! ### Parsed durations -/

/-- A duration is an `int64`. -/
theorem parseDuration_lt {text : List Char} {d : ℤ} (h : parseDuration text = some d) : d < 2 ^ 63 := by
  unfold parseDuration at h
  simp only at h
  split_ifs at h with hzero hempty hneg
  · obtain rfl := Option.some.inj h
    decide
  · obtain ⟨n, -, hd⟩ := Option.bind_eq_some_iff.1 h
    obtain rfl := Option.some.inj hd
    omega
  · obtain ⟨n, -, hd⟩ := Option.bind_eq_some_iff.1 h
    split_ifs at hd with hover
    obtain rfl := Option.some.inj hd
    omega

theorem mustDuration_lt (s : String) : mustDuration s < 2 ^ 63 := by
  unfold mustDuration
  cases h : parseDuration s.toList with
  | none => decide
  | some d => exact parseDuration_lt h

/-! ### Draining -/

theorem drainLoop_eq (tenantID : String) (n : ℤ) (items : List (String × Value)) (deltas : List DeltaRecord) :
    drainLoop tenantID n items deltas =
      deltas ++ (items.filterMap fun item => scanDelta tenantID item.1 item.2).take (n - deltas.length).toNat := by
  induction items generalizing deltas with
  | nil => rw [drainLoop, List.filterMap_nil, List.take_nil, List.append_nil]
  | cons item items ih =>
    rw [drainLoop]
    split_ifs with hroom
    · rw [ih, List.filterMap_cons]
      cases scanDelta tenantID item.1 item.2 with
      | none => rw [Option.toList_none, List.append_nil]
      | some d =>
        have hlen : (n - deltas.length).toNat = (n - (deltas ++ [d]).length).toNat + 1 := by
          simp only [List.length_append, List.length_singleton]
          omega
        rw [hlen, Option.toList_some, List.take_succ_cons, List.append_assoc, List.singleton_append]
    · rw [show (n - deltas.length).toNat = 0 by omega, List.take_zero, List.append_nil]

/-- The first `n` pending deltas. -/
theorem drainDeltas_eq (s : Store) (n : ℤ) : s.drainDeltas n = s.pending.take n.toNat := by
  rw [Store.drainDeltas, drainLoop_eq, List.nil_append, Store.pending]
  simp

/-- A store with one delta in its queue. -/
def oneDelta (d : DeltaRecord) : Store := { Store.open "t" with kv := KV.put ∅ (deltaKey "t" 0) (some (.delta d)) }

theorem mem_oneDelta_pending (d : DeltaRecord) : d ∈ (oneDelta d).pending := by
  have hget : (oneDelta d).kv[deltaKey "t" 0]? = some (.delta d) := by
    rw [oneDelta, KV.getElem?_put, if_pos rfl]
  exact List.mem_filterMap.2
    ⟨_, Std.TreeMap.mem_toList_iff_getElem?_eq_some.2 hget, scanDelta_deltaKey "t" 0 d⟩

/-- A `sync` with pending deltas posts some exactly when the batch size is positive. -/
theorem posts_iff (cfg : Config) :
    (∀ (rfc3339 : Time → String) (batchSeq : ℕ) (sentAt : Time) (s : Store), s.pending ≠ [] →
      ∃ deltas body, sync rfc3339 cfg batchSeq sentAt s = .batch deltas body ∧ deltas ≠ []) ↔
      0 < cfg.syncBatchSize := by
  constructor
  · intro h
    let d := Txn.delta ⟨.deleteNode "n1", 0, some 0⟩ "t" 0
    obtain ⟨deltas, body, hsync, -⟩ := h (fun _ => "") 0 0 (oneDelta d) (List.ne_nil_of_mem (mem_oneDelta_pending d))
    by_contra hneg
    have hdrain : (oneDelta d).drainDeltas cfg.syncBatchSize = [] := by
      rw [drainDeltas_eq, show cfg.syncBatchSize.toNat = 0 by omega, List.take_zero]
    simp only [sync, if_pos hdrain] at hsync
    cases hsync
  · intro hpos rfc3339 batchSeq sentAt s hpending
    have hdrain : s.drainDeltas cfg.syncBatchSize ≠ [] := by
      rw [drainDeltas_eq, ne_eq, List.take_eq_nil_iff]
      rintro (hzero | hnil)
      · omega
      · exact hpending hnil
    exact ⟨_, _, if_neg hdrain, hdrain⟩

/-! ### The ticker -/

theorem ticker_eq_some_iff {d : ℤ} : ticker d = some () ↔ 0 < d := by
  rw [ticker]
  split_ifs with hpos
  · exact ⟨fun _ => hpos, fun _ => rfl⟩
  · exact ⟨(nomatch ·), fun h => absurd h hpos⟩

theorem nextBackoff_pos {backoff : ℤ} (hpos : 0 < backoff) (hlt : backoff < 2 ^ 62) :
    0 < nextBackoff backoff ∧ nextBackoff backoff < 2 ^ 62 := by
  have hbmod : Int.bmod (backoff * 2) (2 ^ 64) = backoff * 2 := Int.bmod_eq_of_le (by omega) (by omega)
  rw [nextBackoff, hbmod, maxBackoff]
  omega

/-- The double overflows. -/
theorem nextBackoff_neg {backoff : ℤ} (hle : 2 ^ 62 ≤ backoff) (hlt : backoff < 2 ^ 63) : nextBackoff backoff < 0 := by
  have hbmod : Int.bmod (backoff * 2) (2 ^ 64) = backoff * 2 - 2 ^ 64 := by
    rw [Int.bmod_def]
    omega
  rw [nextBackoff, hbmod]
  omega

theorem runTicks_eq {interval : ℤ} (hpos : 0 < interval) (hlt : interval < 2 ^ 62) (ticks : List Bool) {backoff : ℤ}
    (hb : 0 < backoff) (hb' : backoff < 2 ^ 62) : runTicks interval backoff ticks = some () := by
  induction ticks generalizing backoff with
  | nil => rfl
  | cons ok ticks ih =>
    cases ok with
    | true => exact (congrArg (Option.bind · _) (ticker_eq_some_iff.2 hpos)).trans (ih hpos hlt)
    | false =>
      obtain ⟨hnext, hnext'⟩ := nextBackoff_pos hb hb'
      exact (congrArg (Option.bind · _) (ticker_eq_some_iff.2 hnext)).trans (ih hnext hnext')

/-- `Run` does not panic exactly when the interval and its double are positive. -/
theorem runs_iff {cfg : Config} (hair : cfg.airGapped = false) (hlt : cfg.syncInterval < 2 ^ 63) :
    (∀ ticks, run cfg ticks = some ()) ↔ 0 < cfg.syncInterval ∧ cfg.syncInterval < 2 ^ 62 := by
  constructor
  · intro h
    have hfail := h [false]
    rw [run, hair, if_neg Bool.false_ne_true] at hfail
    obtain ⟨⟨⟩, hnew, hticks⟩ := Option.bind_eq_some_iff.1 hfail
    obtain ⟨⟨⟩, hreset, -⟩ := Option.bind_eq_some_iff.1 hticks
    have hpos := ticker_eq_some_iff.1 hnew
    have hnext : 0 < nextBackoff cfg.syncInterval := ticker_eq_some_iff.1 hreset
    refine ⟨hpos, ?_⟩
    by_contra hbig
    have hneg := nextBackoff_neg (by omega) hlt
    omega
  · rintro ⟨hpos, hlt⟩ ticks
    rw [run, hair, if_neg Bool.false_ne_true, ticker_eq_some_iff.2 hpos]
    exact runTicks_eq hpos hlt ticks hpos hlt

theorem canSync_iff {cfg : Config} (hair : cfg.airGapped = false) (hlt : cfg.syncInterval < 2 ^ 63) :
    CanSync cfg ↔ (0 < cfg.syncInterval ∧ cfg.syncInterval < 2 ^ 62) ∧ 0 < cfg.syncBatchSize := by
  rw [← runs_iff hair hlt, ← posts_iff]
  exact ⟨fun h => ⟨h.runs, h.posts⟩, fun h => ⟨h.1, h.2⟩⟩

/-! ### Accepted configurations -/

theorem load_iff (cfg : Config) : load E = .ok cfg ∧ cfg.airGapped = false ↔ Connected E ∧ cfg = read E := by
  have hurl : (read E).cloudURL = E.getenv "DGPROXY_CLOUD_URL" := by
    simp only [read, envOr]
    split_ifs with hset
    · rfl
    · exact (not_not.1 hset).symm
  constructor
  · rintro ⟨hload, hair⟩
    simp only [load] at hload
    split_ifs at hload with htenant hmode hlocal
    · obtain rfl := Except.ok.inj hload
      cases hair
    · obtain rfl := Except.ok.inj hload
      refine ⟨⟨htenant, ?_, hair, fun hempty => hlocal ⟨hair, hurl.trans hempty⟩⟩, rfl⟩
      exact or_iff_not_imp_left.2 fun hbadger => not_not.1 fun hbolt => hmode ⟨hbadger, hbolt⟩
  · rintro ⟨⟨htenant, hmode, hair, hset⟩, rfl⟩
    have hread : ¬ ((read E).storeMode ≠ "badger" ∧ (read E).storeMode ≠ "bolt") := fun h => hmode.elim h.1 h.2
    have hlocal : ¬ ((read E).airGapped = false ∧ (read E).cloudURL = "") := fun h => hset (hurl.symm.trans h.2)
    exact ⟨(if_neg htenant).trans ((if_neg hread).trans (if_neg hlocal)), hair⟩

/-- What `mustInt` and `mustDuration` make of the two texts is in range exactly when the environment is sane. -/
theorem sane_iff :
    Sane E ↔ (0 < (read E).syncInterval ∧ (read E).syncInterval < 2 ^ 62) ∧ 0 < (read E).syncBatchSize := by
  rw [Sane, and_comm]
  refine and_congr ?_ ?_
  · change _ ↔ 0 < mustDuration _ ∧ mustDuration _ < _
    rw [mustDuration]
    cases parseDuration (envOr E "DGPROXY_SYNC_INTERVAL" "5m").toList with
    | none => exact iff_of_true (fun d hd => nomatch hd) (by decide)
    | some d => exact ⟨fun h => h d rfl, fun h d' hd' => Option.some.inj hd' ▸ h⟩
  · change _ ↔ 0 < mustInt _
    rw [mustInt]
    cases atoi (envOr E "DGPROXY_SYNC_BATCH_SIZE" "500").toList with
    | none => exact iff_of_false (fun ⟨n, hn, _⟩ => nomatch hn) (by decide)
    | some n => exact ⟨fun ⟨n', hn', hpos⟩ => Option.some.inj hn' ▸ hpos, fun h => ⟨n, rfl, h⟩⟩

theorem accepted_iff :
    (∀ cfg, load E = .ok cfg → cfg.airGapped = false → CanSync cfg) ↔ (Connected E → Sane E) := by
  have hcan : Connected E → (CanSync (read E) ↔ Sane E) := fun hc =>
    (canSync_iff ((load_iff E _).2 ⟨hc, rfl⟩).2 (mustDuration_lt _)).trans (sane_iff E).symm
  constructor
  · intro h hc
    obtain ⟨hload, hair⟩ := (load_iff E _).2 ⟨hc, rfl⟩
    exact (hcan hc).1 (h _ hload hair)
  · rintro h cfg hload hair
    obtain ⟨hc, rfl⟩ := (load_iff E cfg).1 ⟨hload, hair⟩
    exact (hcan hc).2 (h hc)

/-- A batch size as an operator may write it. -/
def sizeInK : Environment where
  getenv key :=
    if key = "DGPROXY_TENANT_ID" then "t"
    else if key = "DGPROXY_CLOUD_URL" then "http://cloud"
    else if key = "DGPROXY_SYNC_BATCH_SIZE" then "1k"
    else ""
  hostname := "h"
  quote s := s

/-- It is accepted, and every `sync` is a heartbeat. -/
theorem batch_size_unread :
    ¬ ∀ cfg, load sizeInK = .ok cfg → cfg.airGapped = false → CanSync cfg := by
  intro h
  have hc : Connected sizeInK := ⟨by decide, .inl rfl, rfl, by decide⟩
  obtain ⟨hload, hair⟩ := (load_iff sizeInK _).2 ⟨hc, rfl⟩
  have hpos := (posts_iff _).1 (h _ hload hair).posts
  exact absurd hpos (by decide)

end Dgraphai.Proxy
