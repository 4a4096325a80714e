import Dgraphai.InventoryQueries
import Dgraphai.Lib.CypherRestrict
import Dgraphai.TenantScope

/-!
# Tenants in the inventory

`isolated_iff` says for which categories the query sent shows one tenant's nodes only and does not depend on
the nodes of others, as long as the filters are `Restrictive`: for all but the key files.
-/

namespace Dgraphai.Inventory

open Cypher PyText PropertyGraph GraphBackend

variable (U : Unicode) (R : Reading) (c : Category) (filters : List Filter) (p : Paging)

/-- Every row is a node of the tenant. -/
def Isolated : Prop :=
  ∀ text ∈ finalQuery U c filters p, ∀ g tid, TenantGraph g →
    ∀ rows ∈ graphQuery R g text (tidParams tid), ∀ n ∈ rows, Owned tid n

/-- A graph of several tenants without relationships between them. -/
structure SeparateGraph (g : Graph) : Prop extends TenantGraph g where
  separate : ∀ r ∈ g.rels, ∀ n ∈ g.nodes, ∀ m ∈ g.nodes, n.eid = r.source → m.eid = r.target →
    n.props "tenant_id" = m.props "tenant_id"

/-- Nodes of other tenants, added or removed, make no difference. -/
def Undisturbed : Prop :=
  ∀ text ∈ finalQuery U c filters p, ∀ g g' tid, SeparateGraph g → SeparateGraph g' →
    g.restrict (Owned tid ·) = g'.restrict (Owned tid ·) →
      graphQuery R g text (tidParams tid) = graphQuery R g' text (tidParams tid)

/-- The database does not refuse the query. -/
def Answered : Prop := ∃ text ∈ finalQuery U c filters p, ∃ g tid, graphQuery R g text (tidParams tid) ≠ none

variable {U R c filters p} {s : Parts} {us : List Token} {q : Query} {g : Graph} {tid : String} {text : Text}

/-! ### Rows of one tenant -/

theorem graphQuery_eq_some {rows : List Node} {P : Params} (h : graphQuery R g text P = some rows) :
    ∃ ts q, lex text = some ts ∧ parseQuery ts = some q ∧ q.accepted R P = true ∧ rows = q.rows R P g := by
  obtain ⟨ts, hlex, h⟩ := Option.bind_eq_some_iff.1 h
  obtain ⟨q, hq, h⟩ := Option.bind_eq_some_iff.1 h
  unfold Query.run at h
  split_ifs at h with hacc
  exact ⟨ts, q, hlex, hq, hacc, (Option.some.inj h).symm⟩

theorem tidParams_tid : tidParams tid "tid".toList = some (.str tid) := if_pos rfl

theorem isAtom_tenantAtom (x : Text) : IsAtom (tenantAtom x) where
  depth := rfl
  or := by simp [tenantAtom]
  xor := by simp [tenantAtom]
  and := by simp [tenantAtom]
  not := by simp [tenantAtom]
  bracket := by simp [tenantAtom]

/-- The variable's node is the tenant's. -/
theorem owned_of_tenantAtom {x : Text} (hx : x.head?.any Char.isDigit = false) {b : Binding} {n : Node}
    (hn : b.lookup x = some n) (h : evalAtom R (tidParams tid) g b (parseAtom (tenantAtom x)) = some true) :
    Owned tid n := by
  have hparse : parseAtom (tenantAtom x) = .compare x "tenant_id".toList .eq (.param "tid".toList) := by
    show (if x.head?.any Char.isDigit || "tenant_id".toList.head?.any Char.isDigit then _ else _) = _
    rw [hx]
    rfl
  have hkey : String.ofList "tenant_id".toList = "tenant_id" := String.ofList_toList
  rw [hparse] at h
  simp only [evalAtom, hn, Option.bind_eq_bind, Option.bind_some, Operand.value, tidParams_tid, hkey] at h
  rcases hprop : n.props "tenant_id" with _ | v
  · rw [hprop] at h
    cases h
  · rw [hprop, Option.bind_some, compareValues_eq_str] at h
    rw [Owned, hprop, h]

/-- Where the predicate holds, the variable is bound to a node of the tenant. -/
theorem Parts.Sent.owned (h : s.Sent p us q) (hof : s.Of c.cypher.toList) (hs : s.Scoped) {b : Binding}
    (hb : q.holds R (tidParams tid) g b = true) {n : Node} (hn : b.lookup s.var = some n) : Owned tid n := by
  have hpred : evalPred R (tidParams tid) g b (s.pred ++ us) = some true := by
    rw [Query.holds, h.pred, Option.all_some] at hb
    exact of_decide_eq_true hb
  have hne : s.pred ≠ [] := by
    intro hnil
    have htenant := hs.tenant
    rw [hnil] at htenant
    cases List.mem_singleton.1 htenant
  have hatom := evalAtom_of_splice hne hs.or hs.xor hof.opening.predDepth hs.tenant (isAtom_tenantAtom s.var)
    h.conjunctive h.and hpred
  exact owned_of_tenantAtom hs.letter hn hatom

theorem isolated_of_scoped (hof : s.Of c.cypher.toList) (hs : s.Scoped) (hr : Restrictive U filters) :
    Isolated U R c filters p := by
  intro text htext g tid _ rows hrows n hn
  obtain ⟨ts, q, hlex, hq, -, rfl⟩ := graphQuery_eq_some hrows
  obtain ⟨us, hsent⟩ := hof.exists_sent hr htext hlex hq
  obtain ⟨b, hb, hlookup⟩ := Query.exists_answer hn
  rw [hsent.var] at hlookup
  exact hsent.owned hof hs (List.mem_filter.1 hb).2 hlookup

theorem SeparateGraph.apart (h : SeparateGraph g) (tid : String) : g.Apart (Owned tid ·) := by
  intro r hr n hn m hm hsource htarget
  refine decide_eq_decide.2 ?_
  unfold Owned
  rw [h.separate r hr n hn m hm hsource htarget]

theorem exists_lookup_of_mem_candidates {pattern : Pattern} {b : Binding} {x : Text} (h : b ∈ pattern.candidates g)
    (hx : x ∈ pattern.vars) : ∃ n, b.lookup x = some n := by
  have hkeys : b.map (·.1) = pattern.vars := by
    cases pattern with
    | node y label =>
      obtain ⟨n, -, rfl⟩ := List.mem_map.1 h
      rfl
    | path y label type z label' =>
      obtain ⟨r, -, h⟩ := List.mem_flatMap.1 h
      obtain ⟨n, -, h⟩ := List.mem_flatMap.1 h
      obtain ⟨m, -, rfl⟩ := List.mem_map.1 h
      rfl
  rw [← hkeys] at hx
  obtain ⟨xn, hxn, rfl⟩ := List.mem_map.1 hx
  exact Option.isSome_iff_exists.1 (List.lookup_isSome_iff.2 ⟨xn, hxn, beq_self_eq_true _⟩)

theorem undisturbed_of_scoped (hlocal : R.Local) (hof : s.Of c.cypher.toList) (hs : s.Scoped)
    (hr : Restrictive U filters) : Undisturbed U R c filters p := by
  intro text htext g g' tid hg hg' hsame
  unfold graphQuery
  rcases hlex : lex text with _ | ts
  · rfl
  rcases hq : parseQuery ts with _ | q
  · simp [hq]
  obtain ⟨us, hsent⟩ := hof.exists_sent hr htext hlex hq
  have hrun : ∀ g, SeparateGraph g → q.run R (tidParams tid) (g.restrict (Owned tid ·)) = q.run R (tidParams tid) g := by
    intro g hg
    refine Query.run_restrict hlocal (hg.apart tid) fun b hb hholds => ?_
    have hvar : s.var ∈ q.pattern.vars := hsent.pattern ▸ hof.var
    obtain ⟨n, hn⟩ := exists_lookup_of_mem_candidates hb hvar
    exact ⟨_, mem_of_lookup hn, decide_eq_true (hsent.owned hof hs hholds hn)⟩
  simp only [Option.bind_eq_bind, Option.bind_some, hq]
  rw [← hrun g hg, ← hrun g' hg', hsame]

/-! ### Key files -/

/-- A file of a tenant with the extension of a key. -/
def keyFile (tid : String) (eid : Nat) : Node where
  eid := eid
  labels := ["File"]
  props := fun k => if k = "extension" then some (.str ".key") else if k = "tenant_id" then some (.str tid) else none

/-- So many key files of a tenant. -/
def keyGraph (tid : String) (n : Nat) : Graph := ⟨(List.range n).map (keyFile tid), [], n⟩

theorem separateGraph_keyGraph (tid : String) (n : Nat) : SeparateGraph (keyGraph tid n) where
  valid := by
    refine ⟨?_, fun r hr => by cases hr⟩
    have hids : ((keyGraph tid n).nodes.map (·.eid)) = List.range n := by
      rw [keyGraph, List.map_map]
      exact List.map_id' _
    rw [hids]
    exact List.nodup_range
  tenant m hm := by
    obtain ⟨i, -, rfl⟩ := List.mem_map.1 hm
    exact ⟨tid, rfl⟩
  separate r hr := by cases hr

theorem isAtom_keyAtom : IsAtom keyAtom where
  depth := rfl
  or := by simp [keyAtom]
  xor := by simp [keyAtom]
  and := by simp [keyAtom]
  not := by simp [keyAtom]
  bracket := by simp [keyAtom]

theorem evalAtom_keyAtom {P : Params} (owner : String) (i : Nat) :
    evalAtom R P g [(['f'], keyFile owner i)] (parseAtom keyAtom) = some true := by
  have hparse : parseAtom keyAtom = .inList ['f'] "extension".toList [".key".toList, ".der".toList] := rfl
  rw [hparse]
  simp [evalAtom, keyFile]

/-- Whoever asks, the page has a row when there are key files enough. -/
theorem Parts.Sent.exists_row (h : s.Sent p us q) (hkeys : s.KeyFiles) (hof : s.Of c.cypher.toList) {P : Params}
    (owner : String) : ∃ n ∈ q.rows R P (keyGraph owner (p.page * p.pageSize + 1)), ∃ i, n = keyFile owner i := by
  set skip := p.page * p.pageSize with hskip
  obtain ⟨second, hsecond⟩ := hkeys.alternative
  have hpred : q.pred = some (keyAtom ++ .kw .or :: (second ++ us)) := by
    rw [h.pred, ← hsecond]
    simp
  have halternative : keyAtom ∈ splitAll .or 0 (keyAtom ++ .kw .or :: (second ++ us)) := by
    rw [splitAll_append rfl]
    exact List.mem_append_left _ (List.mem_singleton_self keyAtom)
  have hholds : ∀ i, q.holds R P (keyGraph owner (skip + 1)) [(['f'], keyFile owner i)] = true := by
    intro i
    rw [Query.holds, hpred, Option.all_some]
    exact decide_eq_true (evalPred_of_alternative halternative isAtom_keyAtom (by simp [keyAtom]) (evalAtom_keyAtom owner i))
  have hvar : s.var = ['f'] := by
    have hmem := hof.var
    rw [hkeys.pattern] at hmem
    exact List.mem_singleton.1 hmem
  have hlabelled : (keyGraph owner (skip + 1)).labelled "File" = (List.range (skip + 1)).map (keyFile owner) := by
    refine List.filter_eq_self.2 fun n hn => ?_
    obtain ⟨i, -, rfl⟩ := List.mem_map.1 hn
    rfl
  have hanswers : (q.answers R P (keyGraph owner (skip + 1))).filterMap (·.lookup q.var) =
      (List.range (skip + 1)).map (keyFile owner) := by
    have hfile : String.ofList "File".toList = "File" := String.ofList_toList
    have hcandidates : q.pattern.candidates (keyGraph owner (skip + 1)) =
        (List.range (skip + 1)).map fun i => [(['f'], keyFile owner i)] := by
      rw [h.pattern, hkeys.pattern, Pattern.candidates, hfile, hlabelled, List.map_map]
      rfl
    have hall : (q.pattern.candidates (keyGraph owner (skip + 1))).filter (q.holds R P (keyGraph owner (skip + 1))) =
        q.pattern.candidates (keyGraph owner (skip + 1)) := by
      refine List.filter_eq_self.2 fun b hb => ?_
      rw [hcandidates] at hb
      obtain ⟨i, -, rfl⟩ := List.mem_map.1 hb
      exact hholds i
    rw [Query.answers, hall, hcandidates, h.var, hvar, List.filterMap_map]
    have hlookup : ((fun b : Binding => b.lookup ['f']) ∘ fun i => [(['f'], keyFile owner i)]) =
        some ∘ keyFile owner := by
      funext i
      simp
    rw [hlookup, List.filterMap_eq_map]
  have hrows : q.rows R P (keyGraph owner (skip + 1)) = q.page ((List.range (skip + 1)).map (keyFile owner)) := by
    have hdistinct : q.distinct = false := by
      rw [h.distinct, hkeys.item]
      rfl
    rw [Query.rows, hanswers, hdistinct]
    rfl
  have hpage : q.page ((List.range (skip + 1)).map (keyFile owner)) = [keyFile owner skip] := by
    have hlast : ((List.range (skip + 1)).map (keyFile owner)).drop skip = [keyFile owner skip] := by
      rw [List.range_succ, List.map_append, List.drop_left' (by simp)]
      rfl
    obtain ⟨m, hm⟩ : ∃ m, p.pageSize = m + 1 := ⟨p.pageSize - 1, by have := p.one_le; omega⟩
    have hvalue : ∀ k, Nat.ofDigitChars 10 (Nat.toDigits 10 k) 0 = k := fun k =>
      Nat.ofDigitChars_toDigits (by decide) (by decide)
    rw [Query.page, h.skip, h.limit]
    simp only [Option.map_some, Option.getD_some, hvalue]
    rw [← hskip, hlast, hm]
    simp
  exact ⟨keyFile owner skip, by rw [hrows, hpage]; exact List.mem_singleton_self _, skip, rfl⟩

/-- Where the database answers at all, another tenant's key files are shown. -/
theorem exists_foreign_row (hof : s.Of c.cypher.toList) (hkeys : s.KeyFiles) (hr : Restrictive U filters)
    (h : Answered U R c filters p) :
    ∃ text ∈ finalQuery U c filters p, ∃ tid owner n, tid ≠ owner ∧
      ∃ rows ∈ graphQuery R (keyGraph owner n) text (tidParams tid), ∃ i, keyFile owner i ∈ rows := by
  obtain ⟨text, htext, g, tid, hanswer⟩ := h
  obtain ⟨rows, hrows⟩ := Option.ne_none_iff_exists'.1 hanswer
  obtain ⟨ts, q, hlex, hq, hacc, rfl⟩ := graphQuery_eq_some hrows
  obtain ⟨us, hsent⟩ := hof.exists_sent hr htext hlex hq
  have hother : tid ≠ tid ++ "'" := by
    intro heq
    have hlength := congrArg String.length heq
    rw [String.length_append] at hlength
    have hone : "'".length = 1 := rfl
    omega
  obtain ⟨n, hn, i, rfl⟩ := hsent.exists_row hkeys hof (R := R) (P := tidParams tid) (tid ++ "'")
  refine ⟨text, htext, tid, tid ++ "'", p.page * p.pageSize + 1, hother, _, ?_, i, hn⟩
  simp only [graphQuery, hlex, hq, Option.bind_eq_bind, Option.bind_some]
  exact if_pos hacc

theorem not_isolated (hof : s.Of c.cypher.toList) (hkeys : s.KeyFiles) (hr : Restrictive U filters)
    (h : Answered U R c filters p) : ¬ Isolated U R c filters p := by
  intro hisolated
  obtain ⟨text, htext, tid, owner, n, hne, rows, hrows, i, hi⟩ := exists_foreign_row hof hkeys hr h
  have howned : Owned tid (keyFile owner i) :=
    hisolated text htext _ tid (separateGraph_keyGraph owner n).toTenantGraph rows hrows _ hi
  have hprop : some (Json.str owner) = some (Json.str tid) := howned
  exact hne (Json.str.inj (Option.some.inj hprop)).symm

theorem not_undisturbed (hof : s.Of c.cypher.toList) (hkeys : s.KeyFiles) (hr : Restrictive U filters)
    (h : Answered U R c filters p) : ¬ Undisturbed U R c filters p := by
  intro hundisturbed
  obtain ⟨text, htext, tid, owner, n, hne, rows, hrows, i, hi⟩ := exists_foreign_row hof hkeys hr h
  have hnone : ∀ n, (keyGraph owner n).restrict (Owned tid ·) = ⟨[], [], 0⟩ := by
    intro n
    have hnodes : (keyGraph owner n).nodes.filter (Owned tid ·) = [] := by
      refine List.filter_eq_nil_iff.2 fun m hm howned => ?_
      obtain ⟨j, -, rfl⟩ := List.mem_map.1 hm
      have hprop : some (Json.str owner) = some (Json.str tid) := of_decide_eq_true howned
      exact hne (Json.str.inj (Option.some.inj hprop)).symm
    rw [PropertyGraph.Graph.restrict, hnodes]
    rfl
  have hsame := hundisturbed text htext _ (keyGraph owner 0) tid (separateGraph_keyGraph owner n)
    (separateGraph_keyGraph owner 0) ((hnone n).trans (hnone 0).symm)
  rw [hsame] at hrows
  -- no row comes from a graph without nodes
  obtain ⟨ts, q, -, -, -, rfl⟩ := graphQuery_eq_some hrows
  obtain ⟨b, hb, hlookup⟩ := Query.exists_answer hi
  have hmem := (mem_candidates (p := fun _ => true) (List.mem_filter.1 hb).1).1 _ (mem_of_lookup hlookup)
  cases hmem

/-! ### The categories -/

/-- Filters that only restrict the predicate keep a category to the tenant, unless it is that of the key
files; of these the alternative shows other tenants' as well, whenever the database answers. -/
theorem isolated_iff (hc : c ∈ allCategories) (hr : Restrictive U filters) :
    (Isolated U R c filters p ↔ ¬ (c.id = "certs-keys" ∧ Answered U R c filters p)) ∧
      (R.Local → (Undisturbed U R c filters p ↔ ¬ (c.id = "certs-keys" ∧ Answered U R c filters p))) := by
  obtain ⟨s, hof, -, hkeys, hscoped⟩ := exists_parts hc
  by_cases hid : c.id = "certs-keys"
  · have hquiet : ¬ Answered U R c filters p →
        ∀ text ∈ finalQuery U c filters p, ∀ g tid, graphQuery R g text (tidParams tid) = none := by
      intro hno text htext g tid
      by_contra hsome
      exact hno ⟨text, htext, g, tid, hsome⟩
    constructor
    · refine ⟨fun h hand => not_isolated hof (hkeys hid) hr hand.2 h, fun hno text htext g tid _ rows hrows => ?_⟩
      rw [hquiet (fun ha => hno ⟨hid, ha⟩) text htext g tid] at hrows
      cases hrows
    · intro _
      refine ⟨fun h hand => not_undisturbed hof (hkeys hid) hr hand.2 h, fun hno text htext g g' tid _ _ _ => ?_⟩
      have hnone := hquiet (fun ha => hno ⟨hid, ha⟩) text htext
      rw [hnone g tid, hnone g' tid]
  · exact ⟨iff_of_true (isolated_of_scoped hof (hscoped hid) hr) fun h => hid h.1,
      fun hlocal => iff_of_true (undisturbed_of_scoped hlocal hof (hscoped hid) hr) fun h => hid h.1⟩

/-- A database that takes every expression and decides none beyond those read here. -/
def plainReading : Reading := ⟨fun _ => none, fun _ _ _ => none, fun _ _ => true, fun _ _ _ _ => none⟩

def mkvFilter : Filter := ⟨some "extension".toList, some ['='], some ".mkv".toList⟩

theorem video_isolated : Isolated ascii plainReading video [mkvFilter] Paging.default ∧
    Undisturbed ascii plainReading video [mkvFilter] Paging.default := by
  have hmem : video ∈ allCategories := List.mem_append_left _ List.mem_cons_self
  have hrestrictive : Restrictive ascii [mkvFilter] := by decide +kernel
  have hid : ¬ (video.id = "certs-keys" ∧ Answered ascii plainReading video [mkvFilter] Paging.default) :=
    fun h => absurd h.1 (by decide)
  have hiff := isolated_iff (R := plainReading) (p := Paging.default) hmem hrestrictive
  exact ⟨hiff.1.2 hid, (hiff.2 fun _ _ _ _ _ => rfl).2 hid⟩

theorem keys_not_isolated : ∃ c ∈ allCategories, ¬ Isolated ascii plainReading c [] Paging.default := by
  obtain ⟨c, hc, hid, hanswer⟩ : ∃ c ∈ allCategories, c.id = "certs-keys" ∧
      ((finalQuery ascii c [] Paging.default).any fun text =>
        (graphQuery plainReading empty text (tidParams "a")).isSome) = true := by
    decide +kernel
  obtain ⟨s, hof, -, hkeys, -⟩ := exists_parts hc
  refine ⟨c, hc, not_isolated hof (hkeys hid) (by decide) ?_⟩
  obtain ⟨text, htext, hsome⟩ := (Option.any_eq_true _ _).1 hanswer
  exact ⟨text, htext, empty, "a", Option.ne_none_iff_isSome.2 hsome⟩

end Dgraphai.Inventory
