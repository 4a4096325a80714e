import Dgraphai.Lib.Runs
import Dgraphai.Lib.SortedSets

/-!
# The rate limiter of the gateway (`agent-go/cmd/dgraph-gateway/main.go`)

`Allow` prunes the sorted set of its key, counts it, adds its own timestamp and renews the time to live. The
four commands leave as a pipeline, which is no transaction: a `System` is the Redis server with the calls of
all replicas, and every command is a step of its own. `withinLimit_of_counts` says that the limit holds as long
as a call that counts finds an entry for each call already let through in one window with it.
-/

namespace Dgraphai.Gateway

open SortedSet

def rateLimits : List (List Char × ℕ × ℤ) := [
  ("/api/auth/login".toList, 10, 60),
  ("/api/auth/signup".toList, 5, 60),
  ("/api/auth/forgot-password".toList, 5, 60),
  ("/api/auth/reset-password".toList, 5, 60),
  ("/graphql".toList, 60, 60),
  ("/api/search".toList, 30, 60),
  ("/api/stream".toList, 5, 60)]

def defaultRateLimit : ℕ := 300
def defaultRateWindow : ℤ := 60

/-- `getLimit`. The prefixes exclude one another, so the order in which the map is read does not matter
(`getLimit_of_mem`). -/
def getLimit (path : List Char) : ℕ × ℤ :=
  match rateLimits.find? fun rule => rule.1.isPrefixOf path with
  | some rule => rule.2
  | none => (defaultRateLimit, defaultRateWindow)

/-- `UnixMicro` of a time in nanoseconds. -/
def unixMicro (now : ℤ) : ℤ := now / 1000

/-- The clock of the server, in milliseconds. -/
def serverMs (now : ℤ) : ℤ := now / 1000000

/-- `rl:{ip}:{path}`. -/
def limiterKey (ip path : List Char) : List Char := "rl:".toList ++ ip ++ ':' :: path

abbrev LimiterDb := SortedSet.Db (List Char) ℤ

/-! ### One call -/

/-- The last command of a call that has run, with what it counted. -/
inductive Stage where
  | sent
  | pruned
  | counted (count : ℕ)
  | added (count : ℕ)
  | returned (allowed : Bool)
  deriving DecidableEq, Repr

/-- A call of `Allow`; `now` is its `time.Now()`, in nanoseconds. -/
structure Call where
  ip : List Char
  path : List Char
  now : ℤ
  stage : Stage
  deriving DecidableEq, Repr

namespace Call
variable (c d : Call)

def max : ℕ := (getLimit c.path).1

def window : ℤ := (getLimit c.path).2

/-- The window in nanoseconds. -/
def span : ℤ := c.window * 1000000000

def key : List Char := limiterKey c.ip c.path

/-- The next command of the pipeline, run by the server at time `at'`. -/
def command (db : LimiterDb) (at' : ℤ) : Option (Stage × LimiterDb) :=
  match c.stage with
  | .sent => some (.pruned, db.zRemRangeByScore c.key 0 (unixMicro (c.now - c.span)) (serverMs at'))
  | .pruned => some (.counted (db.zCard c.key (serverMs at')), db)
  | .counted count => some (.added count, db.zAdd c.key (unixMicro c.now) c.now (serverMs at'))
  | .added count => some (.returned (count < c.max), db.expire c.key (c.window * 2) (serverMs at'))
  | .returned _ => none

/-- The count of the call is below its limit. -/
def Granted : Prop :=
  match c.stage with
  | .sent | .pruned => False
  | .counted count | .added count => count < c.max
  | .returned allowed => allowed = true

instance : Decidable c.Granted := by
  unfold Granted
  split <;> infer_instance

/-- The calls of one address and path whose time lies in the window from `start` on. -/
def InWindow (ip path : List Char) (start : ℤ) : Prop :=
  c.ip = ip ∧ c.path = path ∧ start ≤ c.now ∧ c.now < start + c.span

instance (ip path : List Char) (start : ℤ) : Decidable (c.InWindow ip path start) :=
  inferInstanceAs (Decidable (_ ∧ _))

/-- Some window holds both calls. -/
def Meets : Prop := d.ip = c.ip ∧ d.path = c.path ∧ d.now < c.now + c.span ∧ c.now < d.now + c.span

instance : Decidable (c.Meets d) := inferInstanceAs (Decidable (_ ∧ _))

end Call

/-- A call whose four commands the server runs in a row. -/
def allow (db : LimiterDb) (ip path : List Char) (now at' : ℤ) : Bool × LimiterDb :=
  let c : Call := ⟨ip, path, now, .sent⟩
  let db := db.zRemRangeByScore c.key 0 (unixMicro (c.now - c.span)) (serverMs at')
  let count := db.zCard c.key (serverMs at')
  let db := db.zAdd c.key (unixMicro c.now) c.now (serverMs at')
  (count < c.max, db.expire c.key (c.window * 2) (serverMs at'))

/-! ### The calls of all replicas -/

structure System where
  db : LimiterDb
  clock : ℤ
  calls : List Call

inductive Action where
  | allow (ip path : List Char) (now : ℤ)
  /-- The next command of a call. -/
  | command (index : ℕ) (now : ℤ)
  deriving DecidableEq, Repr

def Action.now : Action → ℤ
  | .allow _ _ now | .command _ now => now

namespace System

def new (start : ℤ) : System := ⟨fun _ => none, start, []⟩

variable (s : System)

def step (a : Action) : Option System :=
  if s.clock ≤ a.now then
    match a with
    | .allow ip path now => some { s with clock := now, calls := s.calls ++ [⟨ip, path, now, .sent⟩] }
    | .command index now => s.calls[index]?.bind fun c => (c.command s.db now).map fun next =>
        ⟨next.2, now, s.calls.set index { c with stage := next.1 }⟩
  else none

/-- In every window at most `max` calls of an address and path returned true. -/
def WithinLimit : Prop := ∀ ip path start,
  (s.calls.countP fun c => c.stage = .returned true ∧ c.InWindow ip path start) ≤ (getLimit path).1

/-- The calls let through so far that lie in one window with `c`. -/
def rivals (c : Call) : List Call := s.calls.filter fun d => d.Granted ∧ c.Meets d

/-- A call that counts finds an entry of its own for every call let through in one window with it, or a set
that is full. -/
def Counts : Action → Prop
  | .command index now => ∀ c ∈ s.calls[index]?, c.stage = .pruned →
      c.max ≤ s.db.zCard c.key (serverMs now) ∨
        ((s.rivals c).map Call.now).Nodup ∧
          ∀ d ∈ s.rivals c, ∃ e ∈ s.db.entries c.key (serverMs now), e.1 = d.now
  | .allow .. => True

instance : (a : Action) → Decidable (s.Counts a)
  | .command _ _ => inferInstanceAs (Decidable (∀ _ ∈ _, _))
  | .allow .. => inferInstanceAs (Decidable True)

end System

variable {s s' : System} {a : Action} {c d : Call} {db db' : LimiterDb} {stage : Stage} {now : ℤ}
  {ip path : List Char}

/-! ### Limits -/

theorem rateLimits_comparable : ∀ rule ∈ rateLimits, ∀ rule' ∈ rateLimits,
    rule.1.isPrefixOf rule'.1 = true → rule = rule' := by
  decide +kernel

theorem getLimit_of_mem {rule : List Char × ℕ × ℤ} (hmem : rule ∈ rateLimits) (h : rule.1 <+: path) :
    getLimit path = rule.2 := by
  unfold getLimit
  split
  next rule' hfind =>
    have hmem' : rule' ∈ rateLimits := List.mem_of_find?_eq_some hfind
    have h' : rule'.1 <+: path :=
      List.isPrefixOf_iff_prefix.1
        (List.find?_some (p := fun rule : List Char × ℕ × ℤ => rule.1.isPrefixOf path) hfind)
    rcases List.prefix_or_prefix_of_prefix h h' with hle | hle
    · rw [rateLimits_comparable rule hmem rule' hmem' (List.isPrefixOf_iff_prefix.2 hle)]
    · rw [rateLimits_comparable rule' hmem' rule hmem (List.isPrefixOf_iff_prefix.2 hle)]
  next hnone => exact absurd (List.isPrefixOf_iff_prefix.2 h) (List.find?_eq_none.1 hnone rule hmem)

theorem getLimit_window (path : List Char) : (getLimit path).2 = 60 := by
  have hall : ∀ rule ∈ rateLimits, rule.2.2 = 60 := by decide +kernel
  unfold getLimit
  split
  next rule hfind => exact hall rule (List.mem_of_find?_eq_some hfind)
  next => rfl

/-! ### One command -/

theorem Call.command_cases (h : c.command db now = some (stage, db')) :
    c.stage ≠ .pruned ∧ (Granted { c with stage := stage } ↔ c.Granted) ∨
      c.stage = .pruned ∧ stage = .counted (db.zCard c.key (serverMs now)) ∧ db' = db := by
  unfold command at h
  split at h
  next hstage =>
    obtain ⟨rfl, -⟩ := Prod.mk.inj (Option.some.inj h)
    exact .inl ⟨by simp [hstage], by simp [Granted, hstage]⟩
  next hstage =>
    obtain ⟨rfl, rfl⟩ := Prod.mk.inj (Option.some.inj h)
    exact .inr ⟨hstage, rfl, rfl⟩
  next count hstage =>
    obtain ⟨rfl, -⟩ := Prod.mk.inj (Option.some.inj h)
    exact .inl ⟨by simp [hstage], by simp [Granted, hstage, max]⟩
  next count hstage =>
    obtain ⟨rfl, -⟩ := Prod.mk.inj (Option.some.inj h)
    refine .inl ⟨by simp [hstage], ?_⟩
    simp only [Granted, hstage]
    exact decide_eq_true_iff
  next => cases h

theorem Call.meets_of_inWindow {start : ℤ} (hc : c.InWindow ip path start) (hd : d.InWindow ip path start) :
    c.Meets d := by
  obtain ⟨rfl, rfl, hc₁, hc₂⟩ := hc
  obtain ⟨hip, hpath, hd₁, hd₂⟩ := hd
  have hspan : d.span = c.span := by rw [span, window, hpath, span, window]
  refine ⟨hip, hpath, ?_, ?_⟩ <;> omega

/-! ### A call alone -/

theorem cutoff_eq (path : List Char) (now : ℤ) :
    unixMicro (now - (getLimit path).2 * 1000000000) = unixMicro now - 60000000 := by
  rw [getLimit_window, unixMicro, unixMicro]
  omega

theorem allow_other {other : List Char} (h : other ≠ limiterKey ip path) (now at' ms : ℤ) :
    (allow db ip path now at').2.entries other ms = db.entries other ms := by
  unfold allow
  dsimp only [Call.key]
  rw [Db.expire, Db.entries_update_of_ne h, Db.zAdd, Db.entries_update_of_ne h, Db.zRemRangeByScore,
    Db.entries_update_of_ne h]

/-- What the key shows afterwards: what the call did not prune, and its own entry. -/
theorem mem_allow {now at' ms : ℤ} {e : ℤ × ℤ} :
    e ∈ (allow db ip path now at').2.entries (limiterKey ip path) ms ↔
      (e ∈ db.entries (limiterKey ip path) (serverMs at') ∧ ¬ (0 ≤ e.2 ∧ e.2 ≤ unixMicro now - 60000000) ∧
          e.1 ≠ now ∨ e = (now, unixMicro now)) ∧ ms ≤ serverMs at' + 120000 := by
  have hexpire : serverMs at' + 1000 * ((getLimit path).2 * 2) = serverMs at' + 120000 := by
    rw [getLimit_window]
    rfl
  unfold allow
  dsimp only [Call.key, Call.span, Call.window]
  rw [Db.mem_entries_expire, Db.mem_entries_zAdd, Db.mem_entries_zRemRangeByScore _ _ (Int.le_refl _), cutoff_eq,
    hexpire, and_assoc]

/-- A call that is let through counts less than the limit. -/
theorem length_lt_of_allow {now at' : ℤ} {l : List ℤ} (h : (allow db ip path now at').1 = true) (hl : l.Nodup)
    (hmem : ∀ m ∈ l, ∃ score, (m, score) ∈ db.entries (limiterKey ip path) (serverMs at') ∧
      unixMicro now - 60000000 < score) : l.length < (getLimit path).1 := by
  have hlt := of_decide_eq_true h
  dsimp only [Call.key, Call.span, Call.window, Call.max] at hlt
  refine lt_of_le_of_lt (Db.length_le_zCard hl fun m hm => ?_) hlt
  obtain ⟨score, hscore, hkept⟩ := hmem m hm
  refine ⟨score, (Db.mem_entries_zRemRangeByScore _ _ (Int.le_refl _)).2 ⟨hscore, ?_⟩⟩
  rw [cutoff_eq]
  omega

/-! ### One step -/

namespace System

theorem step_cases (h : s.step a = some s') :
    (∃ ip path now, a = .allow ip path now ∧
      s' = { s with clock := now, calls := s.calls ++ [⟨ip, path, now, .sent⟩] }) ∨
    ∃ index now c stage db, a = .command index now ∧ s.calls[index]? = some c ∧
      c.command s.db now = some (stage, db) ∧ s' = ⟨db, now, s.calls.set index { c with stage := stage }⟩ := by
  unfold step at h
  split_ifs at h
  cases a with
  | allow ip path now => exact .inl ⟨ip, path, now, rfl, (Option.some.inj h).symm⟩
  | command index now =>
    obtain ⟨c, hc, h⟩ := Option.bind_eq_some_iff.1 h
    obtain ⟨next, hnext, rfl⟩ := Option.map_eq_some_iff.1 h
    exact .inr ⟨index, now, c, next.1, next.2, rfl, hc, hnext, rfl⟩

/-- The calls around the one at an index. -/
theorem exists_around {l : List Call} {index : ℕ} (h : l[index]? = some c) :
    ∃ before after, l = before ++ c :: after ∧ ∀ c', l.set index c' = before ++ c' :: after := by
  induction l generalizing index with
  | nil => cases h
  | cons b l ih =>
    cases index with
    | zero =>
      obtain rfl : b = c := Option.some.inj h
      exact ⟨[], l, rfl, fun _ => rfl⟩
    | succ index =>
      obtain ⟨before, after, rfl, hset⟩ := ih h
      refine ⟨b :: before, after, rfl, fun c' => ?_⟩
      rw [List.set_cons_succ, hset c', List.cons_append]

/-- The next command of the last call. -/
theorem step_last (db : LimiterDb) (c : Call) (calls : List Call) {clock now : ℤ} (h : clock ≤ now) :
    step ⟨db, clock, calls ++ [c]⟩ (.command calls.length now) =
      (c.command db now).map fun next => ⟨next.2, now, calls ++ [{ c with stage := next.1 }]⟩ := by
  have hset : ∀ c' : Call, (calls ++ [c]).set calls.length c' = calls ++ [c'] := by
    intro c'
    rw [List.set_append_right _ _ (Nat.le_refl _), Nat.sub_self]
    rfl
  refine (if_pos h).trans ?_
  simp only [List.getElem?_concat_length, Option.bind_some, hset]

/-- The steps of a call that comes alone are those of `allow`. -/
theorem run_allow (s : System) {now at' : ℤ} (hnow : s.clock ≤ now) (hat : now ≤ at') :
    Runs.run step s (.allow ip path now :: List.replicate 4 (.command s.calls.length at')) =
      some ⟨(allow s.db ip path now at').2, at',
        s.calls ++ [⟨ip, path, now, .returned (allow s.db ip path now at').1⟩]⟩ := by
  have hsent : step s (.allow ip path now) = some ⟨s.db, now, s.calls ++ [⟨ip, path, now, .sent⟩]⟩ := if_pos hnow
  have hpruned := step_last s.db ⟨ip, path, now, .sent⟩ s.calls hat
  have hrest := fun db c => step_last db c s.calls (Int.le_refl at')
  -- one command for each stage of the call
  simp only [List.replicate, Runs.run, hsent, Option.bind_some, hpruned, Call.command, Option.map_some, hrest]
  rfl

/-! ### What is let through -/

/-- The calls let through in a window, returned or not, are no more than `max`. -/
def Bounded (s : System) : Prop := ∀ ip path start,
  (s.calls.countP fun c => c.Granted ∧ c.InWindow ip path start) ≤ (getLimit path).1

theorem Bounded.withinLimit (h : s.Bounded) : s.WithinLimit := by
  intro ip path start
  refine (List.countP_mono_left fun c _ hc => ?_).trans (h ip path start)
  rw [decide_eq_true_iff] at hc ⊢
  refine ⟨?_, hc.2⟩
  rw [Call.Granted, hc.1]

/-- A call whose count is below its limit has fewer rivals than that. -/
theorem length_rivals_lt {index : ℕ} (h : s.Counts (.command index now)) (hc : s.calls[index]? = some c)
    (hstage : c.stage = .pruned) (hlt : s.db.zCard c.key (serverMs now) < c.max) : (s.rivals c).length < c.max := by
  obtain hfull | ⟨hnodup, hown⟩ := h c hc hstage
  · omega
  · have hle : ((s.rivals c).map Call.now).length ≤ s.db.zCard c.key (serverMs now) := by
      refine Db.length_le_zCard hnodup fun m hm => ?_
      obtain ⟨d, hd, rfl⟩ := List.mem_map.1 hm
      obtain ⟨e, he, heq⟩ := hown d hd
      exact ⟨e.2, heq ▸ he⟩
    rw [List.length_map] at hle
    omega

/-- What a window holds before a call counts, and what after. -/
theorem countP_set {index : ℕ} (c' : Call) (start : ℤ) (hc : s.calls[index]? = some c)
    (hin : c'.InWindow ip path start ↔ c.InWindow ip path start) :
    (s.calls.set index c').countP (fun d => d.Granted ∧ d.InWindow ip path start) +
        (if c.Granted ∧ c.InWindow ip path start then 1 else 0) =
      s.calls.countP (fun d => d.Granted ∧ d.InWindow ip path start) +
        if c'.Granted ∧ c.InWindow ip path start then 1 else 0 := by
  obtain ⟨before, after, hcalls, hset⟩ := exists_around hc
  rw [hset, hcalls]
  simp only [List.countP_append, List.countP_cons, hin, decide_eq_true_iff]
  omega

theorem Bounded.step (hs : s.Bounded) (hok : s.Counts a) (h : s.step a = some s') : s'.Bounded := by
  intro ip path start
  rcases step_cases h with ⟨ip', path', now, rfl, rfl⟩ | ⟨index, now, c, stage, db, rfl, hc, hcommand, rfl⟩
  · have hsent : ¬ Call.Granted ⟨ip', path', now, .sent⟩ := id
    simpa [List.countP_append, hsent] using hs ip path start
  · have hbound := hs ip path start
    have hcount := countP_set { c with stage := stage } start hc (Iff.rfl : _ ↔ c.InWindow ip path start)
    rcases Call.command_cases hcommand with ⟨-, hsame⟩ | ⟨hstage, rfl, rfl⟩
    · simp only [hsame] at hcount
      dsimp only
      omega
    · have hno : ¬ c.Granted := by rw [Call.Granted, hstage]; exact id
      rw [if_neg fun h => hno h.1, Nat.add_zero] at hcount
      dsimp only
      rw [hcount]
      split_ifs with hnew
      · -- the call is let through: all others of the window are rivals
        obtain ⟨hgranted, hin⟩ := hnew
        have hlt := length_rivals_lt hok hc hstage hgranted
        have hothers : s.calls.countP (fun d => d.Granted ∧ d.InWindow ip path start) ≤ (s.rivals c).length := by
          rw [rivals, ← List.countP_eq_length_filter]
          refine List.countP_mono_left fun d _ hd => ?_
          rw [decide_eq_true_iff] at hd ⊢
          exact ⟨hd.1, Call.meets_of_inWindow hin hd.2⟩
        have hmax : c.max = (getLimit path).1 := by rw [Call.max, hin.2.1]
        omega
      · exact hbound

/-- In a run whose counts find an entry for each call already let through in one window with the call that
counts, no window lets more than `max` calls through. -/
theorem withinLimit_of_counts (start : ℤ) (as : List Action) (h : Runs.Along step Counts (new start) as) :
    Runs.Always step WithinLimit (new start) as := by
  have hnew : (new start).Bounded := fun ip path start => Nat.zero_le _
  exact Runs.always_of_along (fun s a s' hs hok hstep => hs.step hok hstep) (fun s hs => hs.withinLimit) hnew h

/-- Calls at the times `0`, `1`, … -/
def arrivals (n : ℕ) (ip path : List Char) : List Action := (List.range n).map fun i => .allow ip path i

/-- The next command of each of `n` calls. -/
def round (n : ℕ) (now : ℤ) : List Action := (List.range n).map fun i => .command i now

/-- Six calls whose pipelines run side by side. -/
def sideBySide : List Action :=
  arrivals 6 ['a'] "/api/stream".toList ++ (round 6 10 ++ round 6 10 ++ round 6 10 ++ round 6 10)

theorem sideBySide_not_withinLimit : ¬ ∀ start as, Runs.Always step WithinLimit (new start) as := by
  intro h
  have hrun : (Runs.run step (new 0) sideBySide).any (fun s =>
      (s.calls.countP fun c => c.stage = .returned true ∧ c.InWindow ['a'] "/api/stream".toList 0) = 6) = true := by
    decide +kernel
  obtain ⟨s, hs, hsix⟩ := (Option.any_eq_true _ _).1 hrun
  have hle := h 0 sideBySide sideBySide s List.prefix_rfl hs ['a'] "/api/stream".toList 0
  rw [of_decide_eq_true hsix] at hle
  revert hle
  decide +kernel

/-- Two calls one after the other. -/
def inTurn : List Action :=
  .allow ['a'] "/graphql".toList 0 :: ((List.replicate 4 (.command 0 1)) ++
    .allow ['a'] "/graphql".toList 2 :: List.replicate 4 (.command 1 3))

theorem inTurn_withinLimit : Runs.Always step WithinLimit (new 0) inTurn :=
  withinLimit_of_counts 0 inTurn (by decide +kernel)

end System
end Dgraphai.Gateway
