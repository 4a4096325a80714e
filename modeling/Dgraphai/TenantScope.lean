import Dgraphai.GraphBackend
import Dgraphai.Lib.CypherGeneric

/-!
# The tenant scope of user queries

`scoped_iff` says for which queries `MATCH … RETURN …` the text `Neo4jBackend.query` sends shows only nodes
of the caller's tenant, and is no other query where the graph is that tenant's: the WHERE line has to land
behind the paths of a MATCH that binds `n` and has no WHERE, and `n` has to be the only node shown.
-/

namespace Dgraphai.GraphBackend

open Cypher PropertyGraph

/-- A graph of several tenants. -/
structure TenantGraph (g : Graph) : Prop where
  valid : g.Valid
  tenant : ∀ n ∈ g.nodes, ∃ t, n.props "tenant_id" = some (.str t)

def Owned (tid : String) (n : Node) : Prop := n.props "tenant_id" = some (.str tid)

instance (tid : String) (n : Node) : Decidable (Owned tid n) := inferInstanceAs (Decidable (_ = _))

/-- The rows show the caller's nodes only, and are those of the query as written where no other tenant has
nodes. -/
def Scoped (R : Reading) (cypher : Text) (params : Params) (tid : String) : Prop :=
  ∀ order : List Row → List Row, (∀ rows, (order rows).Perm rows) → ∀ g, TenantGraph g →
    (∀ rows, query R order g cypher params (some tid) = some rows →
      ∀ row ∈ rows, ∀ n ∈ Row.nodes row, Owned tid n) ∧
    ((∀ n ∈ g.nodes, Owned tid n) →
      query R order g cypher params (some tid) = sessionRun R order g cypher (withTid params tid))

/-! ### The condition -/

/-- The WHERE line is not put in, or into a comment. -/
def SentAsWritten (cypher : Text) : Prop :=
  Mentions cypher ∨ breakLines (linesOf cypher) = none ∨
    ∃ a b ts, breakLines (linesOf cypher) = some (a, b) ∧ scan .code (unlines a ++ ['\n']) = (ts, .block)

/-- The MATCH line ends behind whole clauses, the last of which has no WHERE. -/
def Placed (cypher : Text) (cs : List Clause) (paths : List PathPattern) : Prop :=
  ∃ a b ts us, breakLines (linesOf cypher) = some (a, b) ∧ scan .code (unlines a ++ ['\n']) = (ts, .code) ∧
    lex (unlines b) = some us ∧ endDepth 0 ts = 0 ∧ splitFirst .return 0 ts = none ∧
    parseClauses ts = some (cs ++ [⟨paths, none⟩]) ∧ ClauseEnds us

/-- The variable, if any, is bound to something of the tenant. -/
def keep (tid : String) (x : Option Text) (b : Bound) : Bool :=
  x.all fun y => (b.lookup y).any fun e => Owned tid e.record

/-- The query has a WHERE or a `tenant_id` in a map, which may keep its rows to a tenant. -/
def HasOwnScope (q : Statement) : Prop :=
  (∃ c ∈ q.clauses, c.pred ≠ none) ∨ ∃ e ∈ entriesOf q.clauses, String.ofList e.1 = "tenant_id"

/-- No node but that of the variable is shown: there are no rows, or no other node variable is returned, or
the query's own conditions see to it. -/
def Confines (R : Reading) (P : Params) (tid : String) (q : Statement) (x : Option Text) : Prop :=
  q.limit = some 0 ∨ ¬ Satisfiable R P q.clauses ∨
    (∀ y ∈ x, y ∈ nodeVars q.clauses) ∧
      ((∀ it ∈ q.items, it.var ∈ nodeVars q.clauses → some it.var = x) ∨
        HasOwnScope q ∧ ∀ g, TenantGraph g → ∀ b ∈ q.answers R P g, keep tid x b = true →
          ∀ n ∈ Row.nodes (q.row b), Owned tid n)

def Confined (R : Reading) (P : Params) (tid : String) (cypher : Text) (q : Statement) : Prop :=
  (SentAsWritten cypher ∧ Confines R P tid q none) ∨
    (¬ Mentions cypher ∧ ∃ cs paths, Placed cypher cs paths ∧ ['n'] ∈ vars (cs ++ [⟨paths, none⟩]) ∧
      Confines R P tid q (some ['n']))

/-- The MATCH line ends outside literals, brackets and names, and `n` is no relationship of a query with a
WHERE. -/
def CleanBreak (cypher : Text) (q : Statement) : Prop :=
  SentAsWritten cypher ∨
    (∃ a b ts, breakLines (linesOf cypher) = some (a, b) ∧ scan .code (unlines a ++ ['\n']) = (ts, .code) ∧
      endDepth 0 ts = 0) ∧ (['n'] ∉ relVars q.clauses ∨ ∀ c ∈ q.clauses, c.pred = none)

/-! ### The statement sent -/

section Sent

variable {R : Reading} {order : List Row → List Row} {g : Graph} {cypher : Text} {params : Params} {tid : String}
  {ts : List Token} {q : Statement}

theorem sessionRun_eq {P : Params} (hlex : lex cypher = some ts) (hq : parseStatement ts = some q) :
    sessionRun R order g cypher P = q.run R P g order := by
  simp [sessionRun, hlex, hq]

theorem run_of_accepted {P : Params} (h : q.accepted R P = true) :
    q.run R P g order = some (q.page (order ((q.answers R P g).map q.row))) := if_pos h

theorem exists_of_sessionRun {P : Params} {rows : List Row} (h : sessionRun R order g cypher P = some rows) :
    ∃ ts q, lex cypher = some ts ∧ parseStatement ts = some q ∧ q.accepted R P = true := by
  obtain ⟨ts, hlex, h⟩ := Option.bind_eq_some_iff.1 h
  obtain ⟨q, hq, h⟩ := Option.bind_eq_some_iff.1 h
  unfold Statement.run at h
  split_ifs at h with hacc
  exact ⟨ts, q, hlex, hq, hacc⟩

theorem SentAsWritten.lex_sent (h : SentAsWritten cypher) :
    lex (if Mentions cypher then cypher else injectTenantScope cypher) = lex cypher := by
  split_ifs with hmentions
  · rfl
  · rcases h with h | h | ⟨a, b, us, hbreak, hscan⟩
    · exact absurd h hmentions
    · rw [injectTenantScope_of_none h, lex_strip]
    · exact lex_of_block hbreak hscan

theorem scopePred_plain : ∀ t ∈ scopePred, t.Plain ∧ ∀ k, t ≠ .kw k := by
  intro t ht
  simp only [scopePred, List.mem_cons, List.not_mem_nil, or_false] at ht
  rcases ht with rfl | rfl | rfl | rfl | rfl | rfl <;> exact ⟨fun _ => rfl, nofun⟩

theorem withTid_tid : withTid params tid "__tid".toList = some (.str tid) := Function.update_self ..

theorem parseAtom_scopePred :
    parseAtom scopePred = .compare ['n'] "tenant_id".toList .eq (.param "__tid".toList) := rfl

theorem isAtom_scopePred : IsAtom scopePred where
  depth := endDepth_of_plain fun t ht => (scopePred_plain t ht).1
  or h := (scopePred_plain _ h).2 _ rfl
  xor h := (scopePred_plain _ h).2 _ rfl
  and h := (scopePred_plain _ h).2 _ rfl
  not := by simp [scopePred]
  bracket := by simp [scopePred]

theorem evalPred_scopePred {P : Params} {b : Binding} :
    evalPred R P g b scopePred = evalAtom R P g b (parseAtom scopePred) := by
  have hone : evalExpr (fun a => evalAtom R P g b (parseAtom a)) (5 + 1) (List.intercalate [.kw .or] [scopePred]) =
      any3 ([scopePred].map fun a => evalAtom R P g b (parseAtom a)) :=
    evalExpr_or (List.cons_ne_nil scopePred []) (List.forall_mem_singleton.2 isAtom_scopePred)
  rw [List.intercalate_singleton, List.map_singleton, any3_singleton] at hone
  exact hone

theorem compareValues_eq_str {v : Json} {s : String} : compareValues R .eq v (.str s) = some true ↔ v = .str s := by
  cases v <;> simp [compareValues]

/-- The value of the predicate put in. -/
theorem holds_scopePred {paths : List PathPattern} {b : Bound} :
    Clause.holds R (withTid params tid) g ⟨paths, some scopePred⟩ b = keep tid (some ['n']) b := by
  have hkey : String.ofList "tenant_id".toList = "tenant_id" := String.ofList_toList
  rw [Clause.holds, Option.all_some, evalPred_scopePred, parseAtom_scopePred, keep, Option.all_some]
  rw [Bool.eq_iff_iff, decide_eq_true_eq]
  simp only [evalAtom, lookup_records, Operand.value, withTid_tid, hkey]
  rcases b.lookup ['n'] with _ | e
  · simp
  · simp only [Option.map_some, Option.bind_eq_bind, Option.bind_some, Option.any_some, decide_eq_true_eq]
    show _ ↔ e.record.props "tenant_id" = some (.str tid)
    rcases e.record.props "tenant_id" with _ | v
    · simp
    · rw [Option.bind_some, compareValues_eq_str, Option.some.injEq]

end Sent

/-! ### The answers of the statement sent -/

section Answers

variable {R : Reading} {order : List Row → List Row} {g : Graph} {cypher : Text} {params : Params} {tid : String}
  {ts : List Token} {q : Statement} {cs ds : List Clause} {paths : List PathPattern}

variable (R cypher params tid q) in
/-- The rows sent back are those of the answers that keep a variable to the tenant. -/
def Keeps (x : Option Text) : Prop :=
  ∀ (order : List Row → List Row) (g : Graph), query R order g cypher params (some tid) =
    some (q.page (order (((q.answers R (withTid params tid) g).filter (keep tid x)).map q.row)))

theorem keeps_of_sentAsWritten (h : SentAsWritten cypher) (hlex : lex cypher = some ts)
    (hq : parseStatement ts = some q) (hacc : q.accepted R (withTid params tid) = true) :
    Keeps R cypher params tid q none := by
  intro order g
  have hkeep : keep tid none = fun _ => true := rfl
  rw [hkeep, List.filter_true, query, sessionRun_eq (h.lex_sent.trans hlex) hq]
  exact run_of_accepted hacc

/-- The predicate put in is accepted where `n` is in scope. -/
theorem accepts_scopePred {xs : List Text} : ((exprAtoms scopePred.length scopePred).all fun a =>
    acceptsAtom R (withTid params tid) xs (parseAtom a)) = true ↔ ['n'] ∈ xs := by
  have hatoms : exprAtoms scopePred.length scopePred = [scopePred] := rfl
  rw [hatoms, List.all_cons, List.all_nil, Bool.and_true, parseAtom_scopePred]
  show (xs.contains ['n'] && (withTid params tid "__tid".toList).isSome) = true ↔ _
  rw [withTid_tid]
  simp

theorem answers_scopePred (hscope : ['n'] ∈ vars (cs ++ [⟨paths, none⟩])) :
    answersFrom R (withTid params tid) g [] (cs ++ ⟨paths, some scopePred⟩ :: ds) =
      (answersFrom R (withTid params tid) g [] (cs ++ ⟨paths, none⟩ :: ds)).filter (keep tid (some ['n'])) := by
  refine answersFrom_pred (fun b _ => holds_scopePred) fun b hb b₁ => ?_
  obtain ⟨e, he⟩ := exists_lookup_of_answersFrom hb hscope
  simp only [keep, Option.all_some, he, lookup_append_of_some he]

theorem keeps_of_placed (hmentions : ¬ Mentions cypher) (h : Placed cypher cs paths)
    (hscope : ['n'] ∈ vars (cs ++ [⟨paths, none⟩])) (hlex : lex cypher = some ts) (hq : parseStatement ts = some q)
    (hacc : q.accepted R (withTid params tid) = true) : Keeps R cypher params tid q (some ['n']) := by
  obtain ⟨a, b, us, vs, hbreak, hscan, hb, hdepth, hret, hcs, hends⟩ := h
  obtain ⟨hcypher, hsent⟩ := lex_of_code hbreak hscan
  rw [hb, Option.map_some] at hcypher hsent
  obtain rfl := Option.some.inj (hlex.symm.trans hcypher)
  obtain ⟨ds, hclauses, hq'⟩ := parseStatement_insert scopePred_plain hdepth hret hcs hends hq
  obtain ⟨clauses, items, limit⟩ := q
  obtain rfl : clauses = cs ++ ⟨paths, none⟩ :: ds := hclauses
  have hacc' :
      Statement.accepted R (withTid params tid) ⟨cs ++ ⟨paths, some scopePred⟩ :: ds, items, limit⟩ = true := by
    rw [accepted_pred, hacc, Bool.true_and, accepts_scopePred]
    exact mem_scopeAfter.2 (.inr hscope)
  intro order g
  rw [query, if_neg hmentions, sessionRun_eq hsent hq', run_of_accepted hacc']
  show some (Statement.page _ (order ((answersFrom _ _ g [] _).map _))) = _
  rw [answers_scopePred hscope]
  rfl

end Answers

/-! ### What the rows show -/

section Rows

variable {R : Reading} {P : Params} {g : Graph} {cypher : Text} {params : Params} {tid : String} {q : Statement}
  {x : Option Text} {b : Bound}

theorem mem_of_mem_page {rows : List Row} {row : Row} (h : row ∈ q.page rows) : row ∈ rows := by
  unfold Statement.page at h
  split at h
  · exact List.mem_of_mem_take h
  · exact h

theorem page_eq_nil (h : q.limit = some 0) (rows : List Row) : q.page rows = [] := by
  rw [Statement.page, h]
  rfl

/-- The first row is on every page but the empty one. -/
theorem mem_page_cons (h : q.limit ≠ some 0) (row : Row) (rows : List Row) : row ∈ q.page (row :: rows) := by
  unfold Statement.page
  split
  · rename_i l hl
    cases l with
    | zero => exact absurd hl h
    | succ l => exact List.mem_cons_self
  · exact List.mem_cons_self

/-- A node in a row is that of a node variable among the items. -/
theorem exists_item (h : b ∈ q.answers R P g) {n : Node} (hn : n ∈ Row.nodes (q.row b)) :
    ∃ it ∈ q.items, it.var ∈ nodeVars q.clauses ∧ b.lookup it.var = some (.node n) := by
  obtain ⟨cell, hcell, hnode⟩ := List.mem_filterMap.1 hn
  obtain ⟨it, hit, hcell⟩ := List.mem_filterMap.1 hcell
  obtain ⟨e, he, rfl⟩ := Option.map_eq_some_iff.1 hcell
  cases e with
  | rel i e => cases hnode
  | node m =>
    obtain rfl := Option.some.inj hnode
    obtain ⟨b₁, rfl, hbinds, -⟩ := Binds.of_answersFrom h
    refine ⟨it, hit, ?_, he⟩
    rcases hbinds.entity _ (mem_of_lookup he) with ⟨_, -, -, p, hp, hvar⟩ | ⟨_, _, -, heq, -⟩
    · exact List.mem_filterMap.2 ⟨p, hp, hvar⟩
    · cases heq

theorem mem_nodes_row {it : Item} {n : Node} (hit : it ∈ q.items) (h : b.lookup it.var = some (.node n)) :
    n ∈ Row.nodes (q.row b) :=
  List.mem_filterMap.2 ⟨⟨it.column, .node n, it.key⟩, List.mem_filterMap.2 ⟨it, hit, by rw [h]; rfl⟩, rfl⟩

theorem keep_iff : keep tid x b = true ↔ ∀ y ∈ x, ∃ e, b.lookup y = some e ∧ Owned tid e.record := by
  cases x with
  | none => simp [keep]
  | some y => simp [keep, Option.any_eq_true]

theorem vars_of_accepted (h : q.accepted R P = true) :
    (relVars q.clauses).Nodup ∧ ∀ y ∈ relVars q.clauses, y ∉ nodeVars q.clauses := by
  unfold Statement.accepted at h
  simp only [Bool.and_eq_true] at h
  exact of_decide_eq_true h.1.1.1

/-- A variable for nodes is bound to one of the graph. -/
theorem lookup_node (hacc : q.accepted R P = true) (hids : (g.nodes.map (·.eid)).Nodup) (h : b ∈ q.answers R P g)
    {y : Text} (hy : y ∈ nodeVars q.clauses) : ∃ n ∈ g.nodes, b.lookup y = some (.node n) := by
  obtain ⟨-, hdisjoint⟩ := vars_of_accepted hacc
  obtain ⟨b₁, rfl, hbinds, hcoherent⟩ := Binds.of_answersFrom h
  obtain ⟨n, hn, hlookup, -⟩ := hbinds.lookup_node (hcoherent .nil) hids hy fun hrel => hdisjoint y hrel hy
  exact ⟨n, hn, hlookup⟩

/-! ### The condition is enough -/

theorem scoped_of_confines (hacc : q.accepted R (withTid params tid) = true) (hkeeps : Keeps R cypher params tid q x)
    {ts : List Token} (hlex : lex cypher = some ts) (hq : parseStatement ts = some q)
    (h : Confines R (withTid params tid) tid q x) : Scoped R cypher params tid := by
  intro order hperm g hg
  rw [hkeeps order g, sessionRun_eq hlex hq, run_of_accepted hacc]
  have hrows : ∀ rows : List Row, ∀ row ∈ q.page (order rows), row ∈ rows := fun rows row hrow =>
    (hperm rows).mem_iff.1 (mem_of_mem_page hrow)
  rcases h with hlimit | hunsat | ⟨hvar, hshown⟩
  · rw [page_eq_nil hlimit, page_eq_nil hlimit]
    refine ⟨fun rows heq row hrow => ?_, fun _ => rfl⟩
    obtain rfl := Option.some.inj heq
    cases hrow
  · have hnone : q.answers R (withTid params tid) g = [] := by
      refine List.eq_nil_iff_forall_not_mem.2 fun b hb => hunsat ?_
      exact satisfiable_of_mem hg.valid.eids (vars_of_accepted hacc).2 hb
    rw [hnone]
    refine ⟨fun rows heq row hrow => ?_, fun _ => rfl⟩
    obtain rfl := Option.some.inj heq
    cases hrows _ _ hrow
  · constructor
    · intro rows heq row hrow n hn
      obtain rfl := Option.some.inj heq
      obtain ⟨b, hb, rfl⟩ := List.mem_map.1 (hrows _ _ hrow)
      obtain ⟨hb, hkeep⟩ := List.mem_filter.1 hb
      rcases hshown with hitems | ⟨-, hown⟩
      · obtain ⟨it, hit, hitvar, hlookup⟩ := exists_item hb hn
        obtain ⟨e, he, howned⟩ := keep_iff.1 hkeep it.var (hitems it hit hitvar).symm
        obtain rfl := Option.some.inj (hlookup.symm.trans he)
        exact howned
      · exact hown g hg b hb hkeep n hn
    · intro hall
      have hkeepAll :
          (q.answers R (withTid params tid) g).filter (keep tid x) = q.answers R (withTid params tid) g := by
        refine List.filter_eq_self.2 fun b hb => keep_iff.2 fun y hy => ?_
        obtain ⟨n, hn, hlookup⟩ := lookup_node hacc hg.valid.eids hb (hvar y hy)
        exact ⟨.node n, hlookup, hall n hn⟩
      rw [hkeepAll]

/-! ### The condition is needed -/

/-- Some order of rows begins with a given one. -/
theorem exists_order {rows : List Row} {row : Row} (h : row ∈ rows) :
    ∃ order : List Row → List Row, (∀ l, (order l).Perm l) ∧ ∃ rest, order rows = row :: rest := by
  classical
  obtain ⟨s, t, rfl⟩ := List.append_of_mem h
  refine ⟨fun l => if l = s ++ row :: t then row :: (s ++ t) else l, fun l => ?_, s ++ t, if_pos rfl⟩
  dsimp only
  split_ifs with heq
  · rw [heq]
    exact List.perm_middle.symm
  · exact List.Perm.refl l

/-- A kept answer of a scoped query shows the tenant's nodes only. -/
theorem Scoped.owned (h : Scoped R cypher params tid) (hkeeps : Keeps R cypher params tid q x)
    (hlimit : q.limit ≠ some 0) (hg : TenantGraph g) (hb : b ∈ q.answers R (withTid params tid) g)
    (hkeep : keep tid x b = true) : ∀ n ∈ Row.nodes (q.row b), Owned tid n := by
  have hmem : q.row b ∈ ((q.answers R (withTid params tid) g).filter (keep tid x)).map q.row :=
    List.mem_map_of_mem (List.mem_filter.2 ⟨hb, hkeep⟩)
  obtain ⟨order, hperm, rest, horder⟩ := exists_order hmem
  refine (h order hperm g hg).1 _ (hkeeps order g) (q.row b) ?_
  rw [horder]
  exact mem_page_cons hlimit _ _

/-- Values that give every place a tenant. -/
def owners (v : Values) (owner : Place → String) : Values :=
  v.withOwner "tenant_id" fun pl => some (.str (owner pl))

theorem tenantGraph_generic {cs : List Clause} {v : Values} {owner : Place → String} :
    TenantGraph (genericGraph cs (owners v owner)) where
  valid := valid_genericGraph
  tenant n hn := by
    obtain ⟨pl, -, rfl⟩ := List.mem_map.1 hn
    exact ⟨owner pl, props_withOwner⟩

theorem owned_genericNode {cs : List Clause} {v : Values} {owner : Place → String} {pl : Place} :
    Owned tid (genericNode cs (owners v owner) pl) ↔ owner pl = tid := by
  rw [Owned, owners, props_withOwner, Option.some.injEq, Json.str.injEq]

/-- In a graph where no relationship has the property, an answer is kept only for a node. -/
theorem not_keep_rel (hacc : q.accepted R P = true) {y : Text} (hy : y ∈ relVars q.clauses)
    (hrels : ∀ e ∈ g.rels, e.props "tenant_id" = none) (hb : b ∈ q.answers R P g) :
    keep tid (some y) b = false := by
  refine eq_false_of_ne_true fun hkeep => ?_
  obtain ⟨e, he, howned⟩ := keep_iff.1 hkeep y rfl
  obtain ⟨b₁, rfl, hbinds, -⟩ := Binds.of_answersFrom hb
  obtain ⟨i, r, hr, hlookup⟩ := hbinds.lookup_rel hy ((vars_of_accepted hacc).2 y hy)
  obtain rfl := Option.some.inj (he.symm.trans hlookup)
  have hprops : r.props "tenant_id" = some (.str tid) := howned
  rw [hrels r hr] at hprops
  cases hprops

theorem exists_string_ne (s : String) : ∃ t : String, t ≠ s :=
  ⟨s.push 'x', fun h => by
    have hlength := congrArg String.length h
    simp at hlength⟩

/-- Without predicates, maps that agree give an answer in a graph with any owners of the nodes. -/
theorem exists_generic_answer (hacc : q.accepted R P = true)
    (hkey : ∀ e ∈ entriesOf q.clauses, String.ofList e.1 ≠ "tenant_id") (hpred : ∀ c ∈ q.clauses, c.pred = none)
    (hsat : Satisfiable R P q.clauses) : ∃ v : Values, ∀ owner,
      ∃ b ∈ q.answers R P (genericGraph q.clauses (owners v owner)), ∀ y ∈ nodeVars q.clauses,
        b.lookup y = some (.node (genericNode q.clauses (owners v owner) (.var y))) := by
  obtain ⟨v, hv⟩ := hsat
  obtain ⟨hnodup, hdisjoint⟩ := vars_of_accepted hacc
  refine ⟨v, fun owner => ?_⟩
  have hfit : (owners v owner).Fit R P q.clauses := hv.withOwner hkey
  exact ⟨_, genericBound_mem hfit hpred hnodup hdisjoint,
    fun y hy => lookup_genericBound hfit hpred hnodup hdisjoint hy⟩

section Scoped

variable {ts : List Token} (hacc : q.accepted R (withTid params tid) = true)
  (hkey : ∀ e ∈ entriesOf q.clauses, String.ofList e.1 ≠ "tenant_id") (hpred : ∀ c ∈ q.clauses, c.pred = none)
  (hsat : Satisfiable R (withTid params tid) q.clauses) (hlimit : q.limit ≠ some 0)
  (hkeeps : Keeps R cypher params tid q x) (h : Scoped R cypher params tid)

include hacc hkey hpred hsat hlimit hkeeps h

/-- Were the variable a relationship's, every row of a graph of one tenant would be dropped. -/
theorem nodeVar_of_scoped (hlex : lex cypher = some ts) (hq : parseStatement ts = some q)
    (hx : ∀ y ∈ x, y ∈ vars q.clauses) : ∀ y ∈ x, y ∈ nodeVars q.clauses := by
  intro y hy
  by_contra hnode
  have hrel : y ∈ relVars q.clauses := (List.mem_append.1 (hx y hy)).resolve_left hnode
  obtain rfl : x = some y := hy
  obtain ⟨v, hv⟩ := exists_generic_answer hacc hkey hpred hsat
  obtain ⟨b, hb, -⟩ := hv fun _ => tid
  have hall : ∀ n ∈ (genericGraph q.clauses (owners v fun _ => tid)).nodes, Owned tid n := by
    intro n hn
    obtain ⟨pl, -, rfl⟩ := List.mem_map.1 hn
    exact owned_genericNode.2 rfl
  have hsame := (h id (fun l => List.Perm.refl l) _ tenantGraph_generic).2 hall
  have hnone : (q.answers R (withTid params tid) (genericGraph q.clauses (owners v fun _ => tid))).filter
      (keep tid (some y)) = [] := by
    refine List.filter_eq_nil_iff.2 fun b hb => ?_
    rw [not_keep_rel hacc hrel (fun e he => rel_props_withOwner he) hb]
    exact Bool.false_ne_true
  rw [hkeeps id, sessionRun_eq hlex hq, run_of_accepted hacc, hnone] at hsame
  obtain ⟨b', bs, hbs⟩ := List.exists_cons_of_ne_nil (List.ne_nil_of_mem hb)
  have hrow : q.row b' ∈ q.page (id ((b' :: bs).map q.row)) := mem_page_cons hlimit (q.row b') (bs.map q.row)
  rw [← hbs, ← Option.some.inj hsame] at hrow
  cases mem_of_mem_page hrow

/-- Another node shown may be another tenant's. -/
theorem items_of_scoped (hnode : ∀ y ∈ x, y ∈ nodeVars q.clauses) :
    ∀ it ∈ q.items, it.var ∈ nodeVars q.clauses → some it.var = x := by
  intro it hit hitvar
  by_contra hne
  obtain ⟨t, ht⟩ := exists_string_ne tid
  obtain ⟨v, hv⟩ := exists_generic_answer hacc hkey hpred hsat
  obtain ⟨b, hb, hlookup⟩ := hv fun pl => if pl = .var it.var then t else tid
  have hkeep : keep tid x b = true := by
    refine keep_iff.2 fun y hy => ⟨_, hlookup y (hnode y hy), owned_genericNode.2 (if_neg fun heq => hne ?_)⟩
    rw [← Place.var.inj heq]
    exact Eq.symm hy
  have howned := h.owned hkeeps hlimit tenantGraph_generic hb hkeep _ (mem_nodes_row hit (hlookup it.var hitvar))
  have htid : (if Place.var it.var = .var it.var then t else tid) = tid := owned_genericNode.1 howned
  rw [if_pos rfl] at htid
  exact ht htid

end Scoped

/-- A scoped query shows the nodes of its one variable only, or has a WHERE that sees to it. -/
theorem confines_of_scoped (hacc : q.accepted R (withTid params tid) = true) {ts : List Token}
    (hlex : lex cypher = some ts) (hq : parseStatement ts = some q)
    (hx : ∀ y ∈ x, y ∈ vars q.clauses)
    (hown : (∀ y ∈ x, y ∉ relVars q.clauses) ∨ ¬ HasOwnScope q)
    (hkeeps : Keeps R cypher params tid q x) (h : Scoped R cypher params tid) :
    Confines R (withTid params tid) tid q x := by
  by_cases hlimit : q.limit = some 0
  · exact .inl hlimit
  by_cases hsat : Satisfiable R (withTid params tid) q.clauses
  swap
  · exact .inr (.inl hsat)
  refine .inr (.inr ?_)
  by_cases hscope : HasOwnScope q
  · have hnode : ∀ y ∈ x, y ∈ nodeVars q.clauses := fun y hy =>
      (List.mem_append.1 (hx y hy)).resolve_right (hown.resolve_right (not_not_intro hscope) y hy)
    exact ⟨hnode, .inr ⟨hscope, fun g hg b hb hkeep => h.owned hkeeps hlimit hg hb hkeep⟩⟩
  · have hpred : ∀ c ∈ q.clauses, c.pred = none := by
      intro c hc
      by_contra hne
      exact hscope (.inl ⟨c, hc, hne⟩)
    have hkey : ∀ e ∈ entriesOf q.clauses, String.ofList e.1 ≠ "tenant_id" :=
      fun e he heq => hscope (.inr ⟨e, he, heq⟩)
    have hnode := nodeVar_of_scoped hacc hkey hpred hsat hlimit hkeeps h hlex hq hx
    exact ⟨hnode, .inl (items_of_scoped hacc hkey hpred hsat hlimit hkeeps h hnode)⟩

end Rows

/-! ### The queries that are scoped -/

section Main

variable {R : Reading} {cypher : Text} {params : Params} {tid : String} {ts : List Token} {q : Statement}

/-- A query that names no tenant has no `tenant_id` in a map. -/
theorem key_ne_of_not_mentions (h : ¬ Mentions cypher) (hlex : lex cypher = some ts)
    (hq : parseStatement ts = some q) : ∀ e ∈ entriesOf q.clauses, String.ofList e.1 ≠ "tenant_id" := by
  intro e he heq
  have hinfix := infix_of_mem_lex hlex (parseStatement_key hq he)
  have htext : e.1 = "tenant_id".toList := by
    rw [← heq, String.toList_ofList]
  rw [htext] at hinfix
  exact h (.inr hinfix)

/-- No rest of a path may follow the predicate. -/
theorem refuses_rest (hR : R.RefusesPaths) {c₁ c₂ : List Token} {xs : List Text} {paths paths' : List PathPattern}
    (hpaths' : parsePatterns c₁ = some paths') (hpaths : parsePatterns (c₁ ++ c₂) = some paths)
    (h : ((exprAtoms (scopePred ++ c₂).length (scopePred ++ c₂)).all fun a =>
      acceptsAtom R (withTid params tid) xs (parseAtom a)) = true) : c₂ = [] := by
  rcases c₂ with _ | ⟨t, c₂⟩
  · rfl
  · exfalso
    have hkw : ∀ k, .kw k ∉ scopePred ++ t :: c₂ := by
      intro k hk
      rcases List.mem_append.1 hk with hk | hk
      · exact (scopePred_plain _ hk).2 k rfl
      · exact parsePatterns_kw hpaths k (List.mem_append_right c₁ hk)
    have hatoms : exprAtoms (scopePred ++ t :: c₂).length (scopePred ++ t :: c₂) = [scopePred ++ t :: c₂] :=
      exprAtoms_of_not_mem hkw (by simp [scopePred])
    have hparse : parseAtom (scopePred ++ t :: c₂) = .compare ['n'] "tenant_id".toList .eq
        (.literal (.sym '$' :: .name "__tid".toList :: t :: c₂)) := rfl
    rw [hatoms, List.all_cons, hparse] at h
    have hliteral := hR "__tid".toList c₁ (t :: c₂) (List.cons_ne_nil t c₂) (by rw [hpaths']; rfl)
      (by rw [hpaths]; rfl)
    have hvalue : (R.literal (.sym '$' :: .name "__tid".toList :: t :: c₂)).isSome = true :=
      (Bool.and_eq_true_iff.1 (Bool.and_eq_true_iff.1 h).1).2
    rw [hliteral] at hvalue
    cases hvalue

/-- What is sent for a scoped query can be read: the WHERE line stands where it may, and binds `n`. -/
theorem placed_of_scoped (hR : R.RefusesPaths) (hmentions : ¬ Mentions cypher) (hlex : lex cypher = some ts)
    (hq : parseStatement ts = some q) (hacc : q.accepted R (withTid params tid) = true) {a b : List Text}
    {us : List Token} (hbreak : breakLines (linesOf cypher) = some (a, b))
    (hscan : scan .code (unlines a ++ ['\n']) = (us, .code)) (hdepth : endDepth 0 us = 0)
    (h : Scoped R cypher params tid) :
    ∃ cs paths, Placed cypher cs paths ∧ ['n'] ∈ vars (cs ++ [⟨paths, none⟩]) := by
  obtain ⟨hcypher, hsent⟩ := lex_of_code hbreak hscan
  obtain ⟨vs, hb, rfl⟩ := Option.map_eq_some_iff.1 (hcypher.symm.trans hlex)
  rw [hb, Option.map_some] at hsent
  -- on the graph without nodes the query as written has an answer, so the one sent has one
  have hempty : TenantGraph empty :=
    ⟨⟨List.nodup_nil, fun _ he => absurd he List.not_mem_nil⟩, fun _ hn => absurd hn List.not_mem_nil⟩
  have hsame := (h id (fun l => List.Perm.refl l) empty hempty).2 fun _ hn => absurd hn List.not_mem_nil
  rw [sessionRun_eq hlex hq, run_of_accepted hacc, query, if_neg hmentions] at hsame
  obtain ⟨ts', q', hlex', hq', hacc'⟩ := exists_of_sessionRun hsame
  obtain rfl := Option.some.inj (hsent.symm.trans hlex')
  obtain ⟨hret, cs, c₁, c₂, paths, paths', ds, hpaths, hpaths', hcs, hclauses, hends⟩ :=
    parse_insert_where scopePred_plain hdepth hq hq'
  obtain ⟨clauses, items, limit⟩ := q'
  obtain rfl : clauses = cs ++ ⟨paths', some (scopePred ++ c₂)⟩ :: ds := hclauses
  rw [accepted_pred, Bool.and_eq_true] at hacc'
  obtain ⟨-, hatoms⟩ := hacc'
  obtain rfl : c₂ = [] := refuses_rest hR hpaths' hpaths hatoms
  rw [List.append_nil, accepts_scopePred] at hatoms
  exact ⟨cs, paths', ⟨a, b, us, vs, hbreak, hscan, hb, hdepth, hret, hcs, hends rfl⟩,
    (mem_scopeAfter.1 hatoms).resolve_left List.not_mem_nil⟩

/-- The query binds what the clauses up to the break bind. -/
theorem Placed.vars_subset {cs : List Clause} {paths : List PathPattern} (h : Placed cypher cs paths)
    (hlex : lex cypher = some ts) (hq : parseStatement ts = some q) {x : Text}
    (hx : x ∈ vars (cs ++ [⟨paths, none⟩])) : x ∈ vars q.clauses := by
  obtain ⟨a, b, us, vs, hbreak, hscan, hb, hdepth, hret, hcs, hends⟩ := h
  obtain ⟨hcypher, -⟩ := lex_of_code hbreak hscan
  rw [hb, Option.map_some] at hcypher
  obtain rfl := Option.some.inj (hlex.symm.trans hcypher)
  obtain ⟨ds, hclauses, -⟩ := parseStatement_insert scopePred_plain hdepth hret hcs hends hq
  rw [hclauses, List.append_cons]
  exact mem_vars_append.2 (.inl hx)

theorem scoped_iff (hR : R.RefusesPaths) (hlex : lex cypher = some ts) (hq : parseStatement ts = some q)
    (hacc : q.accepted R (withTid params tid) = true) :
    (Confined R (withTid params tid) tid cypher q → Scoped R cypher params tid) ∧
      (CleanBreak cypher q → Scoped R cypher params tid → Confined R (withTid params tid) tid cypher q) := by
  constructor
  · rintro (⟨hsent, hconfines⟩ | ⟨hmentions, cs, paths, hplaced, hscope, hconfines⟩)
    · exact scoped_of_confines hacc (keeps_of_sentAsWritten hsent hlex hq hacc) hlex hq hconfines
    · exact scoped_of_confines hacc (keeps_of_placed hmentions hplaced hscope hlex hq hacc) hlex hq hconfines
  · intro hclean h
    by_cases hsent : SentAsWritten cypher
    · refine .inl ⟨hsent, ?_⟩
      exact confines_of_scoped hacc hlex hq (fun _ hy => nomatch hy) (.inl fun _ hy => nomatch hy)
        (keeps_of_sentAsWritten hsent hlex hq hacc) h
    · obtain ⟨⟨a, b, us, hbreak, hscan, hdepth⟩, hn⟩ := hclean.resolve_left hsent
      have hmentions : ¬ Mentions cypher := fun hm => hsent (.inl hm)
      obtain ⟨cs, paths, hplaced, hscope⟩ := placed_of_scoped hR hmentions hlex hq hacc hbreak hscan hdepth h
      refine .inr ⟨hmentions, cs, paths, hplaced, hscope, ?_⟩
      have hkeeps := keeps_of_placed hmentions hplaced hscope hlex hq hacc
      refine confines_of_scoped hacc hlex hq ?_ ?_ hkeeps h
      · intro y hy
        obtain rfl := Option.some.inj hy
        exact hplaced.vars_subset hlex hq hscope
      · rcases hn with hn | hpred
        · exact .inl fun y hy => by rwa [← Option.some.inj hy]
        · refine .inr ?_
          rintro (⟨c, hc, hne⟩ | ⟨e, he, heq⟩)
          · exact hne (hpred c hc)
          · exact key_ne_of_not_mentions hmentions hlex hq e he heq

end Main

/-- Integers are the only operands but strings, booleans and parameters. -/
def integersOnly : Reading where
  literal
    | [.word w] => some (.num (Nat.ofDigitChars 10 w 0))
    | _ => none
  compare _ _ _ := none
  accepts _ _ := false
  other _ _ _ _ := none

theorem refusesPaths_integersOnly : integersOnly.RefusesPaths := fun _ _ _ _ _ _ => rfl

/-- A query laid out as the rewriting needs it. -/
def fileQuery : Text := "MATCH (n:File)\nRETURN n LIMIT 10".toList

theorem fileQuery_scoped : Scoped integersOnly fileQuery (fun _ => none) "t1" := by
  have hpaths : parseClauses [.kw .match, .sym '(', .word ['n'], .sym ':', .name "File".toList, .sym ')'] =
      some [⟨[⟨⟨some ['n'], ["File".toList], []⟩, []⟩], none⟩] := rfl
  have hparse : parseStatement ((lex fileQuery).getD []) =
      some ⟨[⟨[⟨⟨some ['n'], ["File".toList], []⟩, []⟩], none⟩], [⟨['n'], none, ['n']⟩], some 10⟩ := rfl
  have hmentions : ¬ Mentions fileQuery := by decide +kernel
  have hbreak : breakLines (linesOf fileQuery) = some (["MATCH (n:File)".toList], ["RETURN n LIMIT 10".toList]) := by
    decide +kernel
  refine (scoped_iff refusesPaths_integersOnly rfl hparse rfl).1 (.inr ⟨hmentions, [], _,
    ⟨_, _, _, _, hbreak, rfl, rfl, rfl, rfl, hpaths, .inl rfl⟩, List.mem_cons_self,
    .inr (.inr ⟨fun y hy => ?_, .inl fun it hit _ => ?_⟩)⟩)
  · obtain rfl := Option.some.inj hy
    exact List.mem_cons_self
  · obtain rfl := List.mem_singleton.1 hit
    rfl

/-- Two files, of two tenants. -/
def twoFiles : Graph where
  nodes :=
    [⟨0, ["File"], Props.ofMap [("tenant_id", .str "t1")]⟩, ⟨1, ["File"], Props.ofMap [("tenant_id", .str "t2")]⟩]
  rels := []
  nextEid := 2

def pairQuery : Text := "MATCH (a:File), (n:File)\nRETURN a".toList

def oneLineQuery : Text := "MATCH (n:File) RETURN n".toList

/-- The WHERE line limits `n` where another variable is returned, and stands behind RETURN in a query on one
line, which the database refuses. -/
theorem not_scoped : ¬ Scoped integersOnly pairQuery (fun _ => none) "t1" ∧
    ¬ Scoped integersOnly oneLineQuery (fun _ => none) "t1" := by
  constructor
  · intro h
    have hg : TenantGraph twoFiles := by
      refine ⟨⟨by decide, fun _ he => absurd he List.not_mem_nil⟩, ?_⟩
      simp [twoFiles, Props.ofMap, Json.field?]
    have hrun : query integersOnly id twoFiles pairQuery (fun _ => none) (some "t1") =
        some ([0, 1].map fun i => [⟨['a'], .node (twoFiles.nodes.getD i ⟨0, [], fun _ => none⟩), none⟩]) := rfl
    have howned := (h id (fun l => List.Perm.refl l) twoFiles hg).1 _ hrun
      [⟨['a'], .node ⟨1, ["File"], Props.ofMap [("tenant_id", .str "t2")]⟩, none⟩] (by simp [twoFiles])
      ⟨1, ["File"], Props.ofMap [("tenant_id", .str "t2")]⟩ List.mem_cons_self
    exact absurd howned (by decide)
  · intro h
    have hg : TenantGraph empty :=
      ⟨⟨List.nodup_nil, fun _ he => absurd he List.not_mem_nil⟩, fun _ hn => absurd hn List.not_mem_nil⟩
    have hsame := (h id (fun l => List.Perm.refl l) empty hg).2 fun _ hn => absurd hn List.not_mem_nil
    have hsent : query integersOnly id empty oneLineQuery (fun _ => none) (some "t1") = none := rfl
    have hwritten : sessionRun integersOnly id empty oneLineQuery (withTid (fun _ => none) "t1") = some [] := rfl
    rw [hsent, hwritten] at hsame
    cases hsame

end Dgraphai.GraphBackend
