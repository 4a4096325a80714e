import Dgraphai.Gateway
import Dgraphai.RateLimiter

/-!
# Limits for one client

Requests that come one at a time. The key of the limiter is made of the whole `RemoteAddr`, port included, and
the whole path, so a client has the limit once for each connection and each suffix. `withinLimits_of_sameKey`
says what binds a client: that its requests under a prefix share one key as long as they lie in one window.
-/

namespace Dgraphai.Gateway

open SortedSet

/-- A request with the time at which `Allow` begins. The server runs its commands at time `served`; there is
none where the pipeline fails. -/
structure Arrival where
  request : Request
  now : ℤ
  served : Option ℤ

/-- The requests so far with their answers. -/
structure Gate where
  db : LimiterDb
  clock : ℤ
  log : List (Arrival × Answer)

def Answer.RateLimited : Answer → Prop
  | .refused status _ _ => status = 429
  | _ => False

instance : (answer : Answer) → Decidable answer.RateLimited
  | .refused .. => inferInstanceAs (Decidable (_ = _))
  | .health | .forwarded .. => inferInstanceAs (Decidable False)

/-- The deadline of `Allow`. -/
def pipelineTimeout : ℤ := 50000000

namespace Arrival
variable (a : Arrival)

def ip : Text := a.request.remoteAddr.ip

def key : Text := limiterKey a.request.remoteAddr.text a.request.path

/-- What `limiter.Allow` says, and leaves in Redis. It lets a request pass when Redis fails. -/
def allow (db : LimiterDb) : Bool × LimiterDb :=
  match a.served with
  | some at' => Gateway.allow db a.request.remoteAddr.text a.request.path a.now at'
  | none => (true, db)

/-- A request of one client under the prefix of a rule. -/
def Under (ip : Text) (rule : Text × ℕ × ℤ) : Prop := a.ip = ip ∧ rule.1 <+: a.request.path

instance (ip : Text) (rule : Text × ℕ × ℤ) : Decidable (a.Under ip rule) := inferInstanceAs (Decidable (_ ∧ _))

end Arrival

namespace Gate

def new (start : ℤ) : Gate := ⟨fun _ => none, start, []⟩

variable (parse : Text → Option DGraphClaims) (g : Gate)

def step (a : Arrival) : Option Gate :=
  let done := a.served.getD a.now
  if g.clock ≤ a.now ∧ a.now ≤ done ∧ done ≤ a.now + pipelineTimeout then
    if a.request.path = healthPath then some ⟨g.db, done, g.log ++ [(a, .health)]⟩
    else some ⟨(a.allow g.db).2, done, g.log ++ [(a, serve parse (a.allow g.db).1 a.request)]⟩
  else none

/-- The requests of a client under the prefix of a rule that were not answered 429. -/
def admitted (ip : Text) (rule : Text × ℕ × ℤ) : List Arrival :=
  (g.log.filter fun e => e.1.Under ip rule ∧ ¬ e.2.RateLimited).map Prod.fst

/-- In every window at most `max` requests of a client under a prefix are admitted. -/
def WithinLimits : Prop := ∀ ip, ∀ rule ∈ rateLimits, ∀ start : ℤ,
  ((g.admitted ip rule).countP fun b => start ≤ b.now ∧ b.now < start + rule.2.2 * 1000000000) ≤ rule.2.1

/-- A request under a limited prefix that Redis counts, and that has the address, port and path of every one of
its client admitted less than a window before. These have other timestamps, and are less than a window old in
whole microseconds, too. -/
def SameKey (a : Arrival) : Prop := ∀ rule ∈ rateLimits, rule.1 <+: a.request.path →
  a.served ≠ none ∧ ∀ b ∈ g.admitted a.ip rule, a.now < b.now + rule.2.2 * 1000000000 →
    b.request.remoteAddr = a.request.remoteAddr ∧ b.request.path = a.request.path ∧ b.now ≠ a.now ∧
      unixMicro a.now < unixMicro b.now + rule.2.2 * 1000000

instance (a : Arrival) : Decidable (g.SameKey a) := inferInstanceAs (Decidable (∀ _ ∈ _, _))

/-- What Redis still holds of the requests. -/
structure Inv : Prop where
  past : ∀ e ∈ g.log, e.1.now ≤ g.clock
  counted : ∀ ip, ∀ rule ∈ rateLimits, ∀ b ∈ g.admitted ip rule, b.served ≠ none
  distinct : ∀ ip, ∀ rule ∈ rateLimits, ((g.admitted ip rule).map Arrival.now).Nodup
  /-- The entry of a request is there for every call whose window holds the request. -/
  kept : ∀ e ∈ g.log, e.1.request.path ≠ healthPath → e.1.served ≠ none → ∀ now at', g.clock ≤ now → now ≤ at' →
    at' ≤ now + pipelineTimeout → unixMicro now < unixMicro e.1.now + 60000000 →
      (e.1.now, unixMicro e.1.now) ∈ g.db.entries e.1.key (serverMs at')
  bounded : g.WithinLimits

end Gate

variable {parse : Text → Option DGraphClaims} {g g' : Gate} {a b : Arrival} {ip : Text} {rule : Text × ℕ × ℤ}

/-! ### One request -/

theorem rateLimited_serve {allowed : Bool} {r : Request} (hpath : r.path ≠ healthPath) :
    (serve parse allowed r).RateLimited ↔ allowed = false := by
  rw [serve, if_neg hpath, handle]
  cases allowed with
  | false =>
    rw [if_neg Bool.false_ne_true, if_neg Bool.false_ne_true]
    split_ifs <;> exact iff_of_true rfl rfl
  | true =>
    refine iff_of_false ?_ (fun h => by cases h)
    rw [if_pos rfl, if_pos rfl]
    split_ifs
    · exact id
    · split
      · exact id
      · exact (by decide : (401 : ℕ) ≠ 429)

theorem ne_healthPath (hmem : rule ∈ rateLimits) {path : Text} (h : rule.1 <+: path) : path ≠ healthPath := by
  have hall : ∀ rule ∈ rateLimits, ¬ rule.1 <+: healthPath := by decide +kernel
  rintro rfl
  exact hall rule hmem h

namespace Gate

theorem step_cases (h : g.step parse a = some g') :
    g.clock ≤ a.now ∧ a.now ≤ g'.clock ∧ g'.clock = a.served.getD a.now ∧ g'.clock ≤ a.now + pipelineTimeout ∧
      (a.request.path = healthPath ∧ g'.db = g.db ∧ g'.log = g.log ++ [(a, .health)] ∨
        a.request.path ≠ healthPath ∧ g'.db = (a.allow g.db).2 ∧
          g'.log = g.log ++ [(a, serve parse (a.allow g.db).1 a.request)]) := by
  unfold step at h
  dsimp only at h
  split_ifs at h with htime hpath
  · obtain rfl := Option.some.inj h
    exact ⟨htime.1, htime.2.1, rfl, htime.2.2, .inl ⟨hpath, rfl, rfl⟩⟩
  · obtain rfl := Option.some.inj h
    exact ⟨htime.1, htime.2.1, rfl, htime.2.2, .inr ⟨hpath, rfl, rfl⟩⟩

/-- The requests admitted after a step. -/
theorem admitted_step (h : g.step parse a = some g') (ip : Text) (hmem : rule ∈ rateLimits) :
    g'.admitted ip rule = g.admitted ip rule ∨
      a.Under ip rule ∧ (a.allow g.db).1 = true ∧ g'.admitted ip rule = g.admitted ip rule ++ [a] := by
  have hadmitted : ∀ answer, g'.log = g.log ++ [(a, answer)] → a.Under ip rule ∧ ¬ answer.RateLimited ∧
        g'.admitted ip rule = g.admitted ip rule ++ [a] ∨
      ¬ (a.Under ip rule ∧ ¬ answer.RateLimited) ∧ g'.admitted ip rule = g.admitted ip rule := by
    intro answer hlog
    unfold admitted
    rw [hlog, List.filter_append, List.map_append]
    by_cases hnew : a.Under ip rule ∧ ¬ answer.RateLimited
    · exact .inl ⟨hnew.1, hnew.2, by simp [hnew]⟩
    · exact .inr ⟨hnew, by simp [hnew]⟩
  obtain ⟨-, -, -, -, ⟨hpath, -, hlog⟩ | ⟨hpath, -, hlog⟩⟩ := step_cases h
  · rcases hadmitted _ hlog with ⟨hunder, -, -⟩ | ⟨-, heq⟩
    · exact absurd hpath (ne_healthPath hmem hunder.2)
    · exact .inl heq
  · rcases hadmitted _ hlog with ⟨hunder, hanswer, heq⟩ | ⟨-, heq⟩
    · rw [rateLimited_serve hpath, Bool.not_eq_false] at hanswer
      exact .inr ⟨hunder, hanswer, heq⟩
    · exact .inl heq

theorem mem_log_of_admitted (h : b ∈ g.admitted ip rule) : b.Under ip rule ∧ ∃ answer, (b, answer) ∈ g.log := by
  obtain ⟨⟨b, answer⟩, he, rfl⟩ := List.mem_map.1 h
  obtain ⟨hlog, hcond⟩ := List.mem_filter.1 he
  exact ⟨(of_decide_eq_true hcond).1, answer, hlog⟩

/-! ### Invariant -/

theorem Inv.kept_step (hs : g.Inv) (h : g.step parse a = some g') : ∀ e ∈ g'.log, e.1.request.path ≠ healthPath →
    e.1.served ≠ none → ∀ now at', g'.clock ≤ now → now ≤ at' → at' ≤ now + pipelineTimeout →
      unixMicro now < unixMicro e.1.now + 60000000 →
        (e.1.now, unixMicro e.1.now) ∈ g'.db.entries e.1.key (serverMs at') := by
  intro e he hpath hserved now at' hnow hat hdeadline hwindow
  obtain ⟨hclock, hdone, hdone', hlimit, hcase⟩ := step_cases h
  -- what was sent before is still there, as far as the call leaves the key alone
  have hold : ∀ e ∈ g.log, e.1.request.path ≠ healthPath → e.1.served ≠ none →
      unixMicro now < unixMicro e.1.now + 60000000 →
      (e.1.now, unixMicro e.1.now) ∈ g.db.entries e.1.key (serverMs at') := by
    intro e he hpath hserved hwindow
    exact hs.kept e he hpath hserved now at' (by omega) hat hdeadline hwindow
  rcases hcase with ⟨hhealth, hdb, hlog⟩ | ⟨-, hdb, hlog⟩
  · rw [hdb]
    rw [hlog, List.mem_append, List.mem_singleton] at he
    rcases he with he | rfl
    · exact hold e he hpath hserved hwindow
    · exact absurd hhealth hpath
  · rw [hlog, List.mem_append, List.mem_singleton] at he
    rw [hdb, Arrival.allow]
    cases hat₀ : a.served with
    | none =>
      rcases he with he | rfl
      · exact hold e he hpath hserved hwindow
      · exact absurd hat₀ hserved
    | some at₀ =>
      rw [hat₀, Option.getD_some] at hdone'
      rw [hdone'] at hdone hlimit hnow
      dsimp only
      by_cases hkey : e.1.key = a.key
      · rw [hkey, Arrival.key, mem_allow]
        unfold unixMicro serverMs pipelineTimeout at *
        rcases he with he | rfl
        · have hpast := hs.past e he
          refine ⟨?_, by omega⟩
          by_cases hsame : e.1.now = a.now
          · exact .inr (by rw [hsame])
          · have hthen := hs.kept e he hpath hserved a.now at₀ hclock hdone hlimit
            rw [hkey, Arrival.key] at hthen
            unfold unixMicro serverMs at hthen
            exact .inl ⟨hthen (by omega), by omega, hsame⟩
        · exact ⟨.inr rfl, by dsimp only at hwindow; omega⟩
      · rw [allow_other hkey]
        rcases he with he | rfl
        · exact hold e he hpath hserved hwindow
        · exact absurd rfl hkey

theorem span_pos (hmem : rule ∈ rateLimits) : 0 < rule.2.2 * 1000000000 := by
  have hall : ∀ rule ∈ rateLimits, 0 < rule.2.2 * 1000000000 := by decide +kernel
  exact hall rule hmem

/-- A request let through has fewer admitted ones of its client before it in the window than the limit. -/
theorem Inv.length_lt (hs : g.Inv) (hok : g.SameKey a) (h : g.step parse a = some g') (hmem : rule ∈ rateLimits)
    (hunder : a.Under ip rule) (hallow : (a.allow g.db).1 = true) :
    ((g.admitted ip rule).filter fun b => a.now < b.now + rule.2.2 * 1000000000).length < rule.2.1 := by
  obtain ⟨hip, hprefix⟩ := hunder
  obtain ⟨hserved, hsame⟩ := hok rule hmem hprefix
  obtain ⟨hclock, hdone, hdone', hlimit, -⟩ := step_cases h
  obtain ⟨at₀, hat₀⟩ := Option.ne_none_iff_exists'.1 hserved
  rw [hat₀, Option.getD_some] at hdone'
  rw [hdone'] at hdone hlimit
  rw [Arrival.allow, hat₀] at hallow
  have hlimits := getLimit_of_mem hmem hprefix
  have hsixty : rule.2.2 = 60 := by rw [← hlimits, getLimit_window]
  suffices hlt : (((g.admitted ip rule).filter fun b =>
      a.now < b.now + rule.2.2 * 1000000000).map Arrival.now).length < (getLimit a.request.path).1 by
    rwa [List.length_map, hlimits] at hlt
  refine length_lt_of_allow hallow ?_ fun m hm => ?_
  · exact (hs.distinct ip rule hmem).sublist (List.filter_sublist.map _)
  · obtain ⟨b, hb, rfl⟩ := List.mem_map.1 hm
    obtain ⟨hb, hwindow⟩ := List.mem_filter.1 hb
    obtain ⟨hbunder, answer, hlog⟩ := mem_log_of_admitted hb
    obtain ⟨haddr, hpath, -, hmicro⟩ := hsame b (hip ▸ hb) (of_decide_eq_true hwindow)
    rw [hsixty] at hmicro
    have hkept := hs.kept (b, answer) hlog (ne_healthPath hmem hbunder.2) (hs.counted ip rule hmem b hb) a.now at₀
      hclock hdone hlimit (by simpa using hmicro)
    rw [Arrival.key, haddr, hpath] at hkept
    exact ⟨unixMicro b.now, hkept, by omega⟩

theorem Inv.step (hs : g.Inv) (hok : g.SameKey a) (h : g.step parse a = some g') : g'.Inv := by
  obtain ⟨hclock, hdone, -, -, hcase⟩ := step_cases h
  refine ⟨?_, ?_, ?_, hs.kept_step h, ?_⟩
  · have hlog : ∃ answer, g'.log = g.log ++ [(a, answer)] := by
      rcases hcase with ⟨-, -, hlog⟩ | ⟨-, -, hlog⟩ <;> exact ⟨_, hlog⟩
    obtain ⟨answer, hlog⟩ := hlog
    intro e he
    rw [hlog, List.mem_append, List.mem_singleton] at he
    rcases he with he | rfl
    · have := hs.past e he
      omega
    · exact hdone
  · intro ip rule hmem b hb
    rcases admitted_step h ip hmem with heq | ⟨hunder, -, heq⟩
    · exact hs.counted ip rule hmem b (heq ▸ hb)
    · rw [heq, List.mem_append, List.mem_singleton] at hb
      rcases hb with hb | rfl
      · exact hs.counted ip rule hmem b hb
      · exact (hok rule hmem hunder.2).1
  · intro ip rule hmem
    rcases admitted_step h ip hmem with heq | ⟨hunder, -, heq⟩
    · rw [heq]
      exact hs.distinct ip rule hmem
    · rw [heq, List.map_append, List.nodup_append]
      refine ⟨hs.distinct ip rule hmem, List.nodup_singleton _, ?_⟩
      rintro _ hm _ hnew
      obtain rfl := List.mem_singleton.1 hnew
      obtain ⟨b, hb, rfl⟩ := List.mem_map.1 hm
      intro hsame
      have hpos := span_pos hmem
      exact ((hok rule hmem hunder.2).2 b (hunder.1 ▸ hb) (by omega)).2.2.1 hsame
  · intro ip rule hmem start
    have hbound := hs.bounded ip rule hmem start
    rcases admitted_step h ip hmem with heq | ⟨hunder, hallow, heq⟩
    · rw [heq]
      exact hbound
    · rw [heq, List.countP_append, List.countP_singleton]
      split_ifs with hin
      · have hlt := hs.length_lt hok h hmem hunder hallow
        rw [← List.countP_eq_length_filter] at hlt
        have hle : ((g.admitted ip rule).countP fun b =>
              start ≤ b.now ∧ b.now < start + rule.2.2 * 1000000000) ≤
            (g.admitted ip rule).countP fun b => a.now < b.now + rule.2.2 * 1000000000 := by
          refine List.countP_mono_left fun b _ hb => ?_
          rw [decide_eq_true_iff] at hb hin ⊢
          omega
        omega
      · exact hbound

/-! ### Sequences of requests -/

/-- Where the requests of a client under one prefix share their key as long as they lie in one window, no window
admits more than the limit of the prefix. -/
theorem withinLimits_of_sameKey (parse : Text → Option DGraphClaims) (start : ℤ) (as : List Arrival)
    (h : Runs.Along (step parse) SameKey (new start) as) : Runs.Always (step parse) WithinLimits (new start) as := by
  have hnew : (new start).Inv := by
    refine ⟨?_, ?_, ?_, ?_, ?_⟩
    · exact fun e he => absurd he List.not_mem_nil
    · exact fun _ _ _ b hb => absurd hb List.not_mem_nil
    · exact fun _ _ _ => List.nodup_nil
    · exact fun e he => absurd he List.not_mem_nil
    · exact fun _ _ _ _ => Nat.zero_le _
  exact Runs.always_of_along (fun g a g' hs hok hstep => hs.step hok hstep) (fun g hs => hs.bounded) hnew h

/-- A request of one client over the connection from `port`, at time `now`. -/
def request (path : Text) (port : ℕ) (now : ℤ) : Arrival :=
  ⟨⟨⟨"10.0.0.1".toList, port⟩, path, fun _ => []⟩, now, some now⟩

/-- Six signups in a second, each over its own connection. -/
def sixSignups : List Arrival :=
  (List.range 6).map fun i => request "/api/auth/signup".toList (40000 + i) i

theorem sixSignups_not_withinLimits :
    ¬ ∀ parse start as, Runs.Always (step parse) WithinLimits (new start) as := by
  intro h
  have hrun : (Runs.run (step fun _ => none) (new 0) sixSignups).any (fun g =>
      ((g.admitted "10.0.0.1".toList ("/api/auth/signup".toList, 5, 60)).countP fun b =>
        0 ≤ b.now ∧ b.now < 0 + 60 * 1000000000) = 6) = true := by
    decide +kernel
  obtain ⟨g, hg, hsix⟩ := (Option.any_eq_true _ _).1 hrun
  have hle := h (fun _ => none) 0 sixSignups sixSignups g List.prefix_rfl hg "10.0.0.1".toList
    ("/api/auth/signup".toList, 5, 60) (.tail _ (.head _)) 0
  rw [of_decide_eq_true hsix] at hle
  revert hle
  decide

/-- Two logins over one connection. -/
def twoLogins : List Arrival := [request "/api/auth/login".toList 40000 0, request "/api/auth/login".toList 40000 1]

theorem twoLogins_withinLimits : Runs.Always (step fun _ => none) WithinLimits (new 0) twoLogins :=
  withinLimits_of_sameKey _ 0 twoLogins (by decide +kernel)

end Gate
end Dgraphai.Gateway
