import Dgraphai.Lib.PyJson
import Mathlib.Data.List.Chain
import Mathlib.Data.List.Pairwise
import Mathlib.Algebra.Order.Ring.Int

/-!
# Evaluating an alert rule again and again (`alerts/engine.py`)

`evaluate_rule` asks `last_fired_at` of the rule whether it still cools down, and does not set it when the rule fires;
nothing else does either. So a rule fires whenever it is due by what was stored before the first call, and two alerts
keep their distance only if the calls do at which it is due (`cooldown_iff`). The task of `tasks/alerts.py` that should
drive the engine never gets as far as a rule: it imports an `async_session` that `db/session.py` does not have, and
would build `AlertEngine` with an argument, which the class does not take.
-/

namespace Dgraphai.Alerts

/-- Microseconds. -/
abbrev Time := ℤ

abbrev Row := Json.Fields

/-- `AlertRule`, as far as an evaluation reads it. -/
structure AlertRule where
  id : String
  name : String
  severity : String
  cypher : String
  cypherParams : Option Json.Fields
  thresholdCount : Option ℤ
  lastFiredAt : Option Time
  messageTemplate : Option String
  suppressUntil : Option Time
  cooldownMinutes : Option ℤ
  deriving DecidableEq

structure Alert where
  ruleID : String
  tenantID : String
  severity : String
  title : String
  message : String
  context : List Row × ℕ
  rowCount : ℕ
  deriving DecidableEq

structure TemplateContext where
  rowCount : ℕ
  summary : String
  rows : List Row

structure Rendering where
  /-- `{v!r}`. -/
  pyRepr : Json → String
  /-- `jinja.from_string(template).render(**context)`; `none` raises. -/
  render : String → TemplateContext → Option String

/-- A call of `evaluate_rule`: what the clock says at its two readings, and what the backend answers, where `none`
raises. -/
structure Call where
  now : Time
  nowAgain : Time
  backend : String → Json.Fields → String → Option (List Row)
  tenantID : String

variable (R : Rendering)

/-! ### `evaluate_rule` -/

/-- `x or default`. -/
def intOr (x : Option ℤ) (default : ℤ) : ℤ := if x.getD 0 = 0 then default else x.getD 0

def textOr (x : Option String) (default : String) : String := if x.getD "" = "" then default else x.getD ""

def minutes (n : ℤ) : Time := n * 60 * 1000000

def AlertRule.cooldown (rule : AlertRule) : Time := minutes (intOr rule.cooldownMinutes 60)

def AlertRule.coolsDown (rule : AlertRule) (now : Time) : Bool :=
  rule.lastFiredAt.any fun last => now - last < rule.cooldown

def AlertRule.suppressed (rule : AlertRule) (now : Time) : Bool := rule.suppressUntil.any fun snooze => snooze > now

/-- `_build_summary`. -/
def buildSummary : List Row → String
  | [] => "no details available"
  | first :: rest =>
    let parts := (first.take 3).filterMap fun e => if e.2 ≠ .null then some (e.1 ++ "=" ++ R.pyRepr e.2) else none
    String.intercalate ", " parts ++ if rest ≠ [] then " (+" ++ toString rest.length ++ " more)" else ""

/-- `_render_template`. -/
def renderTemplate (template : String) (context : TemplateContext) : String := (R.render template context).getD template

/-- The alert, and the rule as the call leaves it. -/
def evaluateRule (rule : AlertRule) (call : Call) : Option Alert × AlertRule :=
  if rule.coolsDown call.now then (none, rule)
  else if rule.suppressed call.nowAgain then (none, rule)
  else
    match call.backend rule.cypher (rule.cypherParams.getD []) call.tenantID with
    | none => (none, rule)
    | some rows =>
      if rows.length < intOr rule.thresholdCount 1 then (none, rule)
      else
        let summary := buildSummary R (rows.take 5)
        let message := renderTemplate R (textOr rule.messageTemplate "\x7b\x7brow_count\x7d\x7d item(s) found")
          ⟨rows.length, summary, rows.take 10⟩
        (some ⟨rule.id, call.tenantID, rule.severity, rule.name, message, (rows.take 50, rows.length), rows.length⟩,
          rule)

/-- The alerts of calls one after another, each with its time; a call finds the rule as the last one left it. -/
def alerts : AlertRule → List Call → List (Time × Alert)
  | _, [] => []
  | rule, call :: calls =>
    let result := evaluateRule R rule call
    (result.1.map fun a => (call.now, a)).toList ++ alerts result.2 calls

/-- Calls at nondecreasing times. -/
structure History where
  calls : List Call
  chronological : calls.Pairwise fun a b => a.now ≤ b.now

/-- The rule neither cools down from its stored `last_fired_at` nor is suppressed, and the query finds enough rows. -/
def AlertRule.Due (rule : AlertRule) (call : Call) : Prop :=
  (rule.coolsDown call.now = false ∧ rule.suppressed call.nowAgain = false) ∧
    ∃ rows, call.backend rule.cypher (rule.cypherParams.getD []) call.tenantID = some rows ∧
      intOr rule.thresholdCount 1 ≤ rows.length

/-! ### Events at nondecreasing times -/

/-- Neighbours keep a distance exactly if all do. -/
theorem isChain_apart_iff {α : Type*} (time : α → ℤ) (d : ℤ) {l : List α}
    (h : l.Pairwise fun a b => time a ≤ time b) :
    l.IsChain (fun a b => d ≤ time b - time a) ↔ l.Pairwise fun a b => d ≤ time b - time a := by
  refine ⟨fun hchain => ?_, List.Pairwise.isChain⟩
  induction l with
  | nil => exact List.Pairwise.nil
  | cons a l ih =>
    obtain ⟨-, hl⟩ := List.pairwise_cons.1 h
    cases l with
    | nil => exact List.pairwise_singleton _ _
    | cons b l =>
      obtain ⟨hab, hbl⟩ := List.isChain_cons_cons.1 hchain
      refine List.pairwise_cons.2 ⟨fun c hc => ?_, ih hl hbl⟩
      rcases List.mem_cons.1 hc with rfl | hc
      · exact hab
      · have hbc := (List.pairwise_cons.1 hl).1 c hc
        omega

/-! ### The alerts of a history -/

variable {R} {rule : AlertRule} {call : Call}

/-- No call writes the rule. -/
theorem evaluateRule_rule : (evaluateRule R rule call).2 = rule := by
  unfold evaluateRule
  split_ifs with hcool hsuppressed
  · rfl
  · rfl
  · cases call.backend rule.cypher (rule.cypherParams.getD []) call.tenantID with
    | none => rfl
    | some rows =>
      dsimp only
      split_ifs <;> rfl

theorem evaluateRule_isSome : (evaluateRule R rule call).1.isSome ↔ rule.Due call := by
  unfold evaluateRule AlertRule.Due
  split_ifs with hcool hsuppressed
  · exact iff_of_false Bool.false_ne_true fun hdue => absurd (hcool.symm.trans hdue.1.1) (by decide)
  · exact iff_of_false Bool.false_ne_true fun hdue => absurd (hsuppressed.symm.trans hdue.1.2) (by decide)
  · rw [and_iff_right ⟨Bool.eq_false_of_not_eq_true hcool, Bool.eq_false_of_not_eq_true hsuppressed⟩]
    cases hrows : call.backend rule.cypher (rule.cypherParams.getD []) call.tenantID with
    | none => exact iff_of_false Bool.false_ne_true fun ⟨rows, hsome, _⟩ => nomatch hsome
    | some rows =>
      dsimp only
      split_ifs with hfew
      · refine iff_of_false Bool.false_ne_true fun ⟨rows', hsome, henough⟩ => ?_
        obtain rfl := Option.some.inj hsome
        omega
      · exact iff_of_true rfl ⟨rows, rfl, not_lt.1 hfew⟩

/-- The alerts of a rule that stays as it is. -/
theorem alerts_eq (calls : List Call) :
    alerts R rule calls = calls.filterMap fun call => (evaluateRule R rule call).1.map fun a => (call.now, a) := by
  induction calls with
  | nil => rfl
  | cons call calls ih =>
    simp only [alerts, evaluateRule_rule, ih, List.filterMap_cons]
    cases (evaluateRule R rule call).1 <;> rfl

theorem mem_alert {p : Time × Alert} :
    (evaluateRule R rule call).1.map (fun a => (call.now, a)) = some p → rule.Due call ∧ p.1 = call.now := by
  intro h
  obtain ⟨alert, halert, rfl⟩ := Option.map_eq_some_iff.1 h
  exact ⟨evaluateRule_isSome.1 (Option.isSome_iff_exists.2 ⟨alert, halert⟩), rfl⟩

variable (R) in
/-- Alerts are at least `cooldown_minutes` apart exactly if the calls are at which the rule is due. -/
theorem cooldown_iff (rule : AlertRule) (h : History) :
    (alerts R rule h.calls).IsChain (fun a b => rule.cooldown ≤ b.1 - a.1) ↔
      h.calls.Pairwise fun a b => rule.Due a → rule.Due b → rule.cooldown ≤ b.now - a.now := by
  have hchron : (alerts R rule h.calls).Pairwise fun a b => a.1 ≤ b.1 := by
    rw [alerts_eq, List.pairwise_filterMap]
    refine h.chronological.imp fun hle p hp q hq => ?_
    rw [(mem_alert hp).2, (mem_alert hq).2]
    exact hle
  rw [isChain_apart_iff Prod.fst rule.cooldown hchron, alerts_eq, List.pairwise_filterMap]
  constructor
  · refine List.Pairwise.imp fun hapart hdue hdue' => ?_
    obtain ⟨alert, halert⟩ := Option.isSome_iff_exists.1 (evaluateRule_isSome.2 hdue)
    obtain ⟨alert', halert'⟩ := Option.isSome_iff_exists.1 (evaluateRule_isSome.2 hdue')
    exact hapart _ (Option.map_eq_some_iff.2 ⟨alert, halert, rfl⟩) _ (Option.map_eq_some_iff.2 ⟨alert', halert', rfl⟩)
  · refine List.Pairwise.imp fun hapart p hp q hq => ?_
    obtain ⟨hdue, hp⟩ := mem_alert hp
    obtain ⟨hdue', hq⟩ := mem_alert hq
    rw [hp, hq]
    exact hapart hdue hdue'

/-- A rule with the defaults of its columns. -/
def hourly : AlertRule :=
  ⟨"r", "exposed secrets", "medium", "MATCH (f:File) RETURN f.path AS path", none, some 1, none, none, none, some 60⟩

def fiveMinutesApart : History where
  calls := [0, 5].map fun n => ⟨minutes n, minutes n, fun _ _ _ => some [[("path", .str "/a")]], "t"⟩
  chronological := by decide

/-- For the default template and rows of texts without quotes. -/
def plain : Rendering where
  pyRepr j := match j with
    | .str s => "'" ++ s ++ "'"
    | _ => ""
  render _ context := some (toString context.rowCount ++ " item(s) found")

/-- The rule fires at both calls. -/
theorem fires_while_cooling_down :
    ¬ (alerts plain hourly fiveMinutesApart.calls).IsChain fun a b => hourly.cooldown ≤ b.1 - a.1 := by
  intro h
  have htimes : (alerts plain hourly fiveMinutesApart.calls).map Prod.fst = [minutes 0, minutes 5] := rfl
  have hchain : ((alerts plain hourly fiveMinutesApart.calls).map Prod.fst).IsChain fun a b => hourly.cooldown ≤ b - a :=
    (List.isChain_map Prod.fst).2 h
  rw [htimes] at hchain
  exact absurd (List.isChain_pair.1 hchain) (by decide)

end Dgraphai.Alerts
