import Dgraphai.Lib.CypherRun

/-!
# Scope filters (`rbac/engine.py`)

`buildScopeFilter` collects the scopes of a user's role assignments and `scopeFilterToCypher` writes them as one
predicate over `n`. For values that cannot leave their literal, `denotes_iff` says which lists of
assignments the predicate means what it should for.
-/

namespace Dgraphai.Rbac

open Cypher (Text Token Reads Reading Params)
open PropertyGraph (Graph Node Props)

/-- `RoleAssignment.scope_value`; a `dict` keeps the order of its entries. -/
structure ScopeValue where
  connectorIDs : Option (List String)
  tags : Option (List String)
  filters : Option (List (String × String))
  deriving DecidableEq, Repr

structure RoleAssignment where
  scopeType : Option String
  scopeValue : ScopeValue
  deriving DecidableEq, Repr

/-- An entry of `conditions`. -/
inductive Condition where
  | connector (ids : List String)
  | tag (tags : List String)
  | attribute (filters : List (String × String))
  deriving DecidableEq, Repr

structure ScopeFilter where
  operator : String
  conditions : List Condition
  deriving DecidableEq, Repr

/-- The filter of one scoped assignment. -/
def RoleAssignment.condition? (a : RoleAssignment) : Option Condition :=
  if a.scopeType = some "connector" then some (.connector (a.scopeValue.connectorIDs.getD []))
  else if a.scopeType = some "tag" then some (.tag (a.scopeValue.tags.getD []))
  else if a.scopeType = some "attribute" then some (.attribute (a.scopeValue.filters.getD []))
  else none

def buildScopeFilter (assignments : List RoleAssignment) (_resourceType : String) : Option ScopeFilter :=
  let scopedAssignments := assignments.filter fun a => a.scopeType ≠ none
  if scopedAssignments = [] then none
  else
    let filters := scopedAssignments.filterMap (·.condition?)
    if filters = [] then none else some ⟨"OR", filters⟩

/-- What a condition appends to `clauses`. -/
def Condition.clauses : Condition → List Text
  | .connector ids =>
    ["n.connector_id IN [".toList ++ List.intercalate ", ".toList (ids.map fun i => '"' :: i.toList ++ ['"']) ++
      "]".toList]
  | .tag tags => tags.map fun tag => '\'' :: tag.toList ++ "' IN n.tags".toList
  | .attribute filters => filters.map fun kv => "n.".toList ++ kv.1.toList ++ " = '".toList ++ kv.2.toList ++ "'".toList

def scopeFilterToCypher : Option ScopeFilter → Text
  | none => []
  | some filter =>
    let clauses := filter.conditions.flatMap Condition.clauses
    if clauses = [] then []
    else "(".toList ++ List.intercalate (" ".toList ++ filter.operator.toList ++ " ".toList) clauses ++ ")".toList

/-! ### What the filter should mean -/

/-- The scope of the assignment covers the node: it is on one of the connectors, has one of the tags, or has all of
the attributes. -/
def RoleAssignment.Covers (a : RoleAssignment) (n : Node) : Prop :=
  match a.condition? with
  | some (.connector ids) => ∃ id ∈ ids, n.props "connector_id" = some (.str id)
  | some (.tag tags) => ∃ tag ∈ tags, .str tag ∈ n.props.items "tags"
  | some (.attribute filters) => filters ≠ [] ∧ ∀ kv ∈ filters, n.props kv.1 = some (.str kv.2)
  | none => False

/-- The node passes a predicate over `n`; the empty predicate restricts nothing. -/
def Satisfies (R : Reading) (P : Params) (g : Graph) (predicate : Text) (n : Node) : Prop :=
  predicate = [] ∨ (Cypher.lex predicate).map (Cypher.evalPred R P g [(['n'], n)]) = some (some true)

/-- The predicate admits exactly the file nodes that some assignment grants. -/
def Denotes (R : Reading) (P : Params) (g : Graph) (assignments : List RoleAssignment) (resourceType : String) :
    Prop :=
  ∀ n : Node, "File" ∈ n.labels →
    (Satisfies R P g (scopeFilterToCypher (buildScopeFilter assignments resourceType)) n ↔
      ∃ a ∈ assignments, a.scopeType = none ∨ a.Covers n)

/-- Neither the quote nor a backslash. -/
def LiteralSafe (q : Char) (s : String) : Prop := ∀ c ∈ s.toList, c ≠ q ∧ c ≠ '\\'

def IsIdentifier (s : String) : Prop :=
  s.toList ≠ [] ∧ (∀ c ∈ s.toList, Cypher.isWordChar c = true) ∧ ∀ c ∈ s.toList.head?, c.isDigit = false

def Condition.Plain : Condition → Prop
  | .connector ids => ∀ id ∈ ids, LiteralSafe '"' id
  | .tag tags => ∀ tag ∈ tags, LiteralSafe '\'' tag
  | .attribute filters => ∀ kv ∈ filters, IsIdentifier kv.1 ∧ LiteralSafe '\'' kv.2

/-- All values stay inside their literals, and attributes are identifiers. -/
def Plain (assignments : List RoleAssignment) : Prop := ∀ a ∈ assignments, ∀ c ∈ a.condition?, c.Plain

/-! ### Clauses -/

/-- One clause of the predicate. -/
inductive Clause where
  | connector (ids : List String)
  | tag (t : String)
  | equals (key value : String)
  deriving DecidableEq, Repr

def Condition.parts : Condition → List Clause
  | .connector ids => [.connector ids]
  | .tag tags => tags.map .tag
  | .attribute filters => filters.map fun kv => .equals kv.1 kv.2

namespace Clause

def text : Clause → Text
  | .connector ids =>
    "n.connector_id IN [".toList ++ List.intercalate ", ".toList (ids.map fun i => '"' :: i.toList ++ ['"']) ++
      "]".toList
  | .tag t => '\'' :: t.toList ++ "' IN n.tags".toList
  | .equals key value => "n.".toList ++ key.toList ++ " = '".toList ++ value.toList ++ "'".toList

def tokens : Clause → List Token
  | .connector ids =>
    [.word ['n'], .sym '.', .name "connector_id".toList, .kw .in, .sym '['] ++
      List.intercalate [.sym ','] (ids.map fun i => [.str i.toList]) ++ [.sym ']']
  | .tag t => [.str t.toList, .kw .in, .word ['n'], .sym '.', .name "tags".toList]
  | .equals key value => [.word ['n'], .sym '.', .name key.toList, .sym '=', .str value.toList]

def Plain : Clause → Prop
  | .connector ids => ∀ id ∈ ids, LiteralSafe '"' id
  | .tag t => LiteralSafe '\'' t
  | .equals key value => IsIdentifier key ∧ LiteralSafe '\'' value

/-- The nodes a clause is true of. -/
def Admits (n : Node) : Clause → Prop
  | .connector ids => ∃ id ∈ ids, n.props "connector_id" = some (.str id)
  | .tag t => .str t ∈ n.props.items "tags"
  | .equals key value => n.props key = some (.str value)

end Clause

theorem Condition.clauses_eq (c : Condition) : c.clauses = c.parts.map Clause.text := by
  cases c with
  | connector ids => rfl
  | tag tags => rw [parts, List.map_map]; rfl
  | _ filters => rw [parts, List.map_map]; rfl

theorem Condition.plain_iff (c : Condition) : c.Plain ↔ ∀ p ∈ c.parts, p.Plain := by
  cases c with
  | connector ids => simp [Plain, parts, Clause.Plain]
  | tag tags => simp [Plain, parts, Clause.Plain]
  | _ filters =>
    rw [parts, List.forall_mem_map]
    rfl

namespace Clause

theorem reads {c : Clause} (h : c.Plain) : Reads c.text c.tokens := by
  cases c with
  | connector ids =>
    have hhead : Cypher.scan .code "n.connector_id IN [".toList =
        ([.word ['n'], .sym '.', .name "connector_id".toList, .kw .in, .sym '['], .code) := by
      simp only [String.reduceToList]
      decide
    have hitems : Reads (List.intercalate ", ".toList (ids.map fun i => '"' :: i.toList ++ ['"']))
        (List.intercalate [.sym ','] (ids.map fun i => [.str i.toList])) :=
      Cypher.reads_intercalate (fun i : String => '"' :: i.toList ++ ['"']) (fun i => [.str i.toList]) ',' [' ']
        (by decide) (by decide) fun i hi =>
          Cypher.reads_of_code (Cypher.scan_plain_literal (.inr rfl) (h i hi))
    have hclose : Cypher.scan .code [']'] = ([.sym ']'], .code) := by decide
    have htail : Cypher.scan .code (_ ++ [']']) = _ := hitems.append (by decide)
    rw [hclose] at htail
    refine Cypher.reads_of_code ?_
    show Cypher.scan .code ("n.connector_id IN [".toList ++ _ ++ "]".toList) = _
    rw [List.append_assoc, Cypher.scan_append_of_code hhead]
    show (_ ++ (Cypher.scan .code (_ ++ [']'])).1, (Cypher.scan .code (_ ++ [']'])).2) = _
    rw [htail, ← List.append_assoc]
    rfl
  | tag t =>
    have htail : Reads " IN n.tags".toList [.kw .in, .word ['n'], .sym '.', .name "tags".toList] := by
      simp only [Reads, String.reduceToList]
      decide
    have hliteral := Cypher.scan_plain_literal (.inl rfl) h
    have htext : '\'' :: t.toList ++ "' IN n.tags".toList = ('\'' :: t.toList ++ ['\'']) ++ " IN n.tags".toList := by
      simp
    unfold Reads at htail ⊢
    show (Cypher.pending (Cypher.scan .code ('\'' :: t.toList ++ "' IN n.tags".toList)).2).map
      ((Cypher.scan .code ('\'' :: t.toList ++ "' IN n.tags".toList)).1 ++ ·) = _
    rw [htext, Cypher.scan_append_of_code hliteral]
    obtain ⟨owed, howed, heq⟩ := Option.map_eq_some_iff.1 htail
    rw [howed, Option.map_some, List.append_assoc, heq]
    rfl
  | equals key value =>
    obtain ⟨⟨hne, hkey, -⟩, hvalue⟩ := h
    have hn : Cypher.scan .code "n.".toList = ([.word ['n'], .sym '.'], .dot) := by
      simp only [String.reduceToList]
      decide
    have hword := Cypher.scan_dot_word hne hkey
    have heq : Cypher.scan .code "= ".toList = ([.sym '='], .code) := by
      simp only [String.reduceToList]
      decide
    have hliteral := Cypher.scan_plain_literal (.inl rfl) hvalue
    have htext : "n.".toList ++ key.toList ++ " = '".toList ++ value.toList ++ "'".toList =
        "n.".toList ++ (key.toList ++ [' '] ++ ("= ".toList ++ ('\'' :: value.toList ++ ['\'']))) := by
      simp
    refine Cypher.reads_of_code ?_
    show Cypher.scan .code ("n.".toList ++ key.toList ++ " = '".toList ++ value.toList ++ "'".toList) = _
    rw [htext, Cypher.scan_append, hn]
    dsimp only
    rw [Cypher.scan_append_of_code hword, Cypher.scan_append_of_code heq, hliteral]
    rfl

/-- The items of a list of strings. -/
def itemTokens (ids : List String) : List Token := List.intercalate [.sym ','] (ids.map fun i => [.str i.toList])

theorem tokens_connector (ids : List String) : (connector ids).tokens =
    [.word ['n'], .sym '.', .name "connector_id".toList, .kw .in] ++ (.sym '[' :: itemTokens ids ++ [.sym ']']) := by
  show [_, _, _, _, _] ++ _ ++ _ = _
  rw [itemTokens, List.append_assoc]
  rfl

theorem plain_str (s : Text) : (Token.str s).Plain := fun _ => rfl

theorem mem_itemTokens {ids : List String} {t : Token} (h : t ∈ itemTokens ids) :
    t = .sym ',' ∨ ∃ s, t = .str s := by
  induction ids with
  | nil => simp [itemTokens] at h
  | cons i ids ih =>
    cases ids with
    | nil =>
      have ht : t = .str i.toList := by simpa [itemTokens] using h
      exact .inr ⟨_, ht⟩
    | cons j ids =>
      have hsplit : itemTokens (i :: j :: ids) = [.str i.toList] ++ [.sym ','] ++ itemTokens (j :: ids) := by
        simp [itemTokens]
      rw [hsplit, List.mem_append, List.mem_append, List.mem_singleton, List.mem_singleton] at h
      rcases h with (h | h) | h
      · exact .inr ⟨_, h⟩
      · exact .inl h
      · exact ih h

theorem nested_itemTokens (ids : List String) : Cypher.Nested (itemTokens ids) := by
  refine .of_plain fun t ht => ?_
  rcases mem_itemTokens ht with rfl | ⟨s, rfl⟩
  · exact fun _ => rfl
  · exact plain_str s

theorem nested_tokens (c : Clause) : Cypher.Nested c.tokens := by
  cases c with
  | connector ids =>
    rw [tokens_connector]
    refine .append (.of_plain fun t ht => ?_) (.bracket (fun _ => rfl) (fun _ => rfl) (nested_itemTokens ids))
    simp only [List.mem_cons, List.not_mem_nil, or_false] at ht
    rcases ht with rfl | rfl | rfl | rfl <;> exact fun _ => rfl
  | tag t =>
    show Cypher.Nested [_, _, _, _, _]
    refine .of_plain fun u hu => ?_
    simp only [List.mem_cons, List.not_mem_nil, or_false] at hu
    rcases hu with rfl | rfl | rfl | rfl | rfl <;> exact fun _ => rfl
  | equals key value =>
    show Cypher.Nested [_, _, _, _, _]
    refine .of_plain fun u hu => ?_
    simp only [List.mem_cons, List.not_mem_nil, or_false] at hu
    rcases hu with rfl | rfl | rfl | rfl | rfl <;> exact fun _ => rfl

theorem kw_not_mem_tokens (c : Clause) {k : Cypher.Keyword} (hk : k ≠ .in) : .kw k ∉ c.tokens := by
  have hin : Token.kw k ≠ .kw .in := fun h => hk (Token.kw.inj h)
  cases c with
  | connector ids =>
    rw [tokens_connector]
    intro h
    rcases List.mem_append.1 h with h | h
    · simp [hk] at h
    · rcases List.mem_append.1 h with h | h
      · rcases List.mem_cons.1 h with h | h
        · cases h
        · rcases mem_itemTokens h with h | ⟨s, h⟩ <;> cases h
      · simp at h
  | tag t =>
    show _ ∉ [_, _, _, _, _]
    simp [hk]
  | equals key value =>
    show _ ∉ [_, _, _, _, _]
    simp

theorem isAtom_tokens (c : Clause) : Cypher.IsAtom c.tokens where
  depth := by
    cases c with
    | connector ids =>
      rw [tokens_connector, Cypher.endDepth_append, List.cons_append]
      show Cypher.endDepth 1 _ = 0
      rw [Cypher.endDepth_append, (nested_itemTokens ids).depth 0]
      rfl
    | _ => rfl
  or := c.kw_not_mem_tokens (by decide)
  xor := c.kw_not_mem_tokens (by decide)
  and := c.kw_not_mem_tokens (by decide)
  not := by cases c <;> exact fun h => Token.noConfusion (Option.some.inj h)
  bracket := by cases c <;> exact fun h => Token.noConfusion (Option.some.inj h)

theorem stringItems_itemTokens {ids : List String} (hne : ids ≠ []) :
    Cypher.stringItems (itemTokens ids ++ [.sym ']']) = some (ids.map String.toList) := by
  induction ids with
  | nil => exact absurd rfl hne
  | cons i ids ih =>
    cases ids with
    | nil => simp [itemTokens, Cypher.stringItems]
    | cons j ids =>
      have hsplit : itemTokens (i :: j :: ids) = [.str i.toList] ++ [.sym ','] ++ itemTokens (j :: ids) := by
        simp [itemTokens]
      have hrest := ih (List.cons_ne_nil j ids)
      rw [hsplit]
      show Cypher.stringItems (.str i.toList :: .sym ',' :: (itemTokens (j :: ids) ++ [.sym ']'])) = _
      rw [Cypher.stringItems, hrest]
      rfl

theorem parseAtom_connector (ids : List String) :
    Cypher.parseAtom (connector ids).tokens = .inList ['n'] "connector_id".toList (ids.map String.toList) := by
  rw [tokens_connector]
  cases ids with
  | nil => rfl
  | cons i ids =>
    obtain ⟨rest, hrest⟩ : ∃ rest, itemTokens (i :: ids) ++ [.sym ']'] = .str i.toList :: rest := by
      cases ids <;> exact ⟨_, rfl⟩
    have hitems := stringItems_itemTokens (List.cons_ne_nil i ids)
    rw [hrest] at hitems
    show Cypher.parseAtom ([_, _, _, _] ++ .sym '[' :: (itemTokens (i :: ids) ++ [.sym ']'])) = _
    rw [hrest]
    exact Cypher.propertyAtom_inList hitems

variable {R : Reading} {P : Params} {g : Graph} {n : Node}

/-- A clause is true of the nodes it admits. -/
theorem evalAtom_tokens {c : Clause} (h : c.Plain) :
    Cypher.evalAtom R P g [(['n'], n)] (Cypher.parseAtom c.tokens) = some true ↔ c.Admits n := by
  have hstr : ∀ s : String, String.ofList s.toList = s := fun s => String.ofList_toList
  cases c with
  | connector ids =>
    rw [parseAtom_connector]
    show ((n.props (String.ofList "connector_id".toList)).bind fun v =>
      some ((ids.map String.toList).any fun s => v = .str (String.ofList s))) = some true ↔
        ∃ id ∈ ids, n.props "connector_id" = some (.str id)
    rw [hstr]
    cases n.props "connector_id" with
    | none => simp
    | some v => simp [hstr]
  | tag t =>
    have hparse : Cypher.parseAtom (tag t).tokens = .memberOf t.toList ['n'] "tags".toList := rfl
    rw [hparse, Cypher.evalAtom_memberOf, hstr, hstr]
    rfl
  | equals key value =>
    have hparse : Cypher.parseAtom (equals key value).tokens =
        .compare ['n'] key.toList .eq (.str value.toList) := by
      have hkey : key.toList.head?.any Char.isDigit = false := by
        rcases hhead : key.toList.head? with _ | c
        · rfl
        · exact h.1.2.2 c hhead
      show (if (['n'] : Text).head?.any Char.isDigit || key.toList.head?.any Char.isDigit then _ else _) = _
      rw [hkey]
      rfl
    rw [hparse]
    show ((n.props (String.ofList key.toList)).bind fun v =>
      Cypher.compareValues R .eq v (.str (String.ofList value.toList))) = some true ↔ n.props key = some (.str value)
    rw [hstr, hstr]
    rcases n.props key with _ | (_ | _ | _ | _ | _ | _ | _) <;> simp [Cypher.compareValues]

end Clause

/-! ### The predicate -/

/-- The clauses of a list of assignments. -/
def parts (assignments : List RoleAssignment) : List Clause :=
  (assignments.filterMap (·.condition?)).flatMap Condition.parts

variable {assignments : List RoleAssignment} {resourceType : String}

theorem condition?_of_unscoped {a : RoleAssignment} (h : a.scopeType = none) : a.condition? = none := by
  simp [RoleAssignment.condition?, h]

theorem buildScopeFilter_eq : buildScopeFilter assignments resourceType =
    if assignments.filterMap (·.condition?) = [] then none
    else some ⟨"OR", assignments.filterMap (·.condition?)⟩ := by
  have hscoped : (assignments.filter fun a => a.scopeType ≠ none).filterMap (·.condition?) =
      assignments.filterMap (·.condition?) := by
    rw [List.filterMap_filter]
    refine List.filterMap_congr fun a _ => ?_
    by_cases ha : a.scopeType = none
    · simp [ha, condition?_of_unscoped ha]
    · simp [ha]
  unfold buildScopeFilter
  dsimp only
  rw [hscoped]
  by_cases hnone : (assignments.filter fun a => a.scopeType ≠ none) = []
  · have hnil : assignments.filterMap (·.condition?) = [] := by
      rw [← hscoped, hnone]
      rfl
    rw [if_pos hnone, if_pos hnil]
  · rw [if_neg hnone]

theorem scopeFilterToCypher_eq :
    scopeFilterToCypher (buildScopeFilter assignments resourceType) =
      if parts assignments = [] then []
      else '(' :: List.intercalate " OR ".toList ((parts assignments).map Clause.text) ++ [')'] := by
  have hclauses : (assignments.filterMap (·.condition?)).flatMap Condition.clauses =
      (parts assignments).map Clause.text := by
    rw [parts, List.map_flatMap]
    exact congrArg (List.flatMap · _) (funext Condition.clauses_eq)
  rw [buildScopeFilter_eq]
  by_cases hnone : assignments.filterMap (·.condition?) = []
  · have hparts : parts assignments = [] := by rw [parts, hnone]; rfl
    rw [if_pos hnone, if_pos hparts]
    rfl
  · rw [if_neg hnone]
    show (if _ = [] then [] else "(".toList ++ List.intercalate (" ".toList ++ "OR".toList ++ " ".toList) _ ++ ")".toList) = _
    rw [hclauses]
    by_cases hparts : parts assignments = []
    · rw [if_pos hparts, if_pos (by rw [hparts]; rfl)]
    · rw [if_neg hparts, if_neg fun h => hparts (List.map_eq_nil_iff.1 h)]
      rfl

theorem Plain.parts (h : Plain assignments) : ∀ c ∈ parts assignments, c.Plain := by
  intro c hc
  obtain ⟨cond, hcond, hc⟩ := List.mem_flatMap.1 hc
  obtain ⟨a, ha, hcond⟩ := List.mem_filterMap.1 hcond
  exact cond.plain_iff.1 (h a ha cond hcond) c hc

variable {R : Reading} {P : Params} {g : Graph} {n : Node}

/-- The predicate admits the nodes that some clause admits, and every node if there is no clause. -/
theorem satisfies_iff (h : Plain assignments) :
    Satisfies R P g (scopeFilterToCypher (buildScopeFilter assignments resourceType)) n ↔
      parts assignments = [] ∨ ∃ c ∈ parts assignments, c.Admits n := by
  rw [scopeFilterToCypher_eq]
  by_cases hparts : parts assignments = []
  · rw [if_pos hparts]
    exact iff_of_true (.inl rfl) (.inl hparts)
  rw [if_neg hparts]
  have hmap : (parts assignments).map Clause.tokens ≠ [] := fun hm => hparts (List.map_eq_nil_iff.1 hm)
  -- the tokens of the predicate
  have hreads : Reads (List.intercalate " OR ".toList ((parts assignments).map Clause.text))
      (List.intercalate [.kw .or] ((parts assignments).map Clause.tokens)) :=
    Cypher.reads_intercalate Clause.text Clause.tokens ' ' ['O', 'R', ' '] (by decide) (by decide)
      fun c hc => Clause.reads (h.parts c hc)
  have hclose : Cypher.scan .code [')'] = ([.sym ')'], .code) := by decide
  have hopen : Cypher.scan .code ['('] = ([.sym '('], .code) := by decide
  have hlex : Cypher.lex ('(' :: List.intercalate " OR ".toList ((parts assignments).map Clause.text) ++ [')']) =
      some (.sym '(' :: List.intercalate [.kw .or] ((parts assignments).map Clause.tokens) ++ [.sym ')']) := by
    have htail : Cypher.scan .code (_ ++ [')']) = _ := hreads.append (by decide)
    rw [hclose] at htail
    show Cypher.lex (['('] ++ (_ ++ [')'])) = _
    rw [Cypher.lex_append_of_code hopen, Cypher.lex, htail]
    simp [Cypher.finish]
  -- its value
  have hnested : Cypher.Nested (List.intercalate [.kw .or] ((parts assignments).map Clause.tokens)) :=
    .intercalate (.plain fun _ => rfl) fun ts hts => by
      obtain ⟨c, -, rfl⟩ := List.mem_map.1 hts
      exact c.nested_tokens
  rw [Satisfies, hlex, Option.map_some, Option.some_inj, Cypher.evalPred]
  rw [List.length_append, List.length_cons, List.length_singleton, Cypher.evalExpr_brackets hnested,
    Cypher.evalExpr_or hmap fun ts hts => by
      obtain ⟨c, -, rfl⟩ := List.mem_map.1 hts
      exact c.isAtom_tokens]
  rw [Cypher.any3_eq_true, List.map_map, List.mem_map, or_iff_right hparts]
  have hne : '(' :: List.intercalate " OR ".toList ((parts assignments).map Clause.text) ++ [')'] ≠ [] := by simp
  rw [or_iff_right hne]
  exact exists_congr fun c => and_congr_right fun hc => Clause.evalAtom_tokens (h.parts c hc)

/-! ### The union of the grants -/

/-- The grants of a list of assignments that the predicate can express: with a global grant there is no clause to
narrow it; otherwise there is a clause, and each attribute filter stands alone in one of the scopes (or names a
connector that is granted). -/
def Expressible (assignments : List RoleAssignment) : Prop :=
  if ∃ a ∈ assignments, a.scopeType = none then parts assignments = []
  else parts assignments ≠ [] ∧ ∀ key value, .equals key value ∈ parts assignments →
    (∃ a ∈ assignments, ∃ filters, a.condition? = some (.attribute filters) ∧ (key, value) ∈ filters ∧
      ∀ kv ∈ filters, kv = (key, value)) ∨
    (∃ ids, .connector ids ∈ parts assignments ∧ key = "connector_id" ∧ value ∈ ids)

/-- A file with only these properties. -/
def fileWith (props : Props) : Node := ⟨0, ["File"], props⟩

theorem not_admits_bare (c : Clause) : ¬ c.Admits (fileWith fun _ => none) := by
  cases c <;> simp [Clause.Admits, fileWith, Props.items]

theorem mem_parts {c : Clause} : c ∈ parts assignments ↔
    ∃ a ∈ assignments, ∃ cond, a.condition? = some cond ∧ c ∈ cond.parts := by
  simp only [parts, List.mem_flatMap, List.mem_filterMap]
  exact ⟨fun ⟨cond, ⟨a, ha, hcond⟩, hc⟩ => ⟨a, ha, cond, hcond, hc⟩,
    fun ⟨a, ha, cond, hcond, hc⟩ => ⟨cond, ⟨a, ha, hcond⟩, hc⟩⟩

/-- A clause of its assignment admits what the assignment covers. -/
theorem RoleAssignment.Covers.admits {a : RoleAssignment} (h : a.Covers n) (ha : a ∈ assignments) :
    ∃ c ∈ parts assignments, c.Admits n := by
  unfold Covers at h
  rcases hcond : a.condition? with _ | (ids | tags | filters)
  · rw [hcond] at h
    exact h.elim
  · rw [hcond] at h
    exact ⟨.connector ids, mem_parts.2 ⟨a, ha, _, hcond, List.mem_singleton_self _⟩, h⟩
  · rw [hcond] at h
    obtain ⟨t, ht, hmem⟩ := h
    exact ⟨.tag t, mem_parts.2 ⟨a, ha, _, hcond, List.mem_map_of_mem ht⟩, hmem⟩
  · rw [hcond] at h
    obtain ⟨kv, hkv⟩ := List.exists_mem_of_ne_nil _ h.1
    exact ⟨.equals kv.1 kv.2, mem_parts.2 ⟨a, ha, _, hcond, List.mem_map.2 ⟨kv, hkv, rfl⟩⟩, h.2 kv hkv⟩

/-- The grants that cover a file with one text property. -/
theorem covers_single {a : RoleAssignment} {key value : String}
    (h : a.Covers (fileWith fun k => if k = key then some (.str value) else none)) :
    (∃ filters, a.condition? = some (.attribute filters) ∧ (key, value) ∈ filters ∧
      ∀ kv ∈ filters, kv = (key, value)) ∨
    (∃ ids, a.condition? = some (.connector ids) ∧ key = "connector_id" ∧ value ∈ ids) := by
  unfold RoleAssignment.Covers at h
  rcases hcond : a.condition? with _ | (ids | tags | filters)
  · rw [hcond] at h
    exact h.elim
  · rw [hcond] at h
    obtain ⟨id, hid, hprop⟩ := h
    obtain ⟨hkey, hvalue⟩ : "connector_id" = key ∧ value = id := by simpa [fileWith] using hprop
    exact .inr ⟨ids, rfl, hkey.symm, hvalue ▸ hid⟩
  · rw [hcond] at h
    obtain ⟨t, -, hmem⟩ := h
    by_cases hkey : "tags" = key <;> simp [fileWith, Props.items, hkey] at hmem
  · rw [hcond] at h
    have hall : ∀ kv ∈ filters, kv = (key, value) := by
      intro kv hkv
      obtain ⟨hk, hv⟩ : kv.1 = key ∧ value = kv.2 := by simpa [fileWith] using h.2 kv hkv
      exact Prod.ext hk hv.symm
    obtain ⟨kv, hkv⟩ := List.exists_mem_of_ne_nil _ h.1
    exact .inl ⟨filters, rfl, hall kv hkv ▸ hkv, hall⟩

/-- For values that stay in their literals, the predicate denotes the union of the grants exactly if
they are expressible. -/
theorem denotes_iff (R : Reading) (P : Params) (g : Graph) (assignments : List RoleAssignment) (resourceType : String)
    (h : Plain assignments) : Denotes R P g assignments resourceType ↔ Expressible assignments := by
  have hdenotes : Denotes R P g assignments resourceType ↔ ∀ n : Node, "File" ∈ n.labels →
      ((parts assignments = [] ∨ ∃ c ∈ parts assignments, c.Admits n) ↔
        ∃ a ∈ assignments, a.scopeType = none ∨ a.Covers n) :=
    forall₂_congr fun n _ => iff_congr (satisfies_iff h) Iff.rfl
  have hfile : ∀ props, "File" ∈ (fileWith props).labels := fun _ => List.mem_singleton_self _
  rw [hdenotes, Expressible]
  by_cases hglobal : ∃ a ∈ assignments, a.scopeType = none
  · obtain ⟨a, ha, hnone⟩ := hglobal
    rw [if_pos ⟨a, ha, hnone⟩]
    constructor
    · intro hall
      rcases (hall _ (hfile fun _ => none)).2 ⟨a, ha, .inl hnone⟩ with hparts | ⟨c, -, hc⟩
      · exact hparts
      · exact absurd hc (not_admits_bare c)
    · intro hparts n _
      exact iff_of_true (.inl hparts) ⟨a, ha, .inl hnone⟩
  · rw [if_neg hglobal]
    have hcovers : ∀ n, (∃ a ∈ assignments, a.scopeType = none ∨ a.Covers n) ↔ ∃ a ∈ assignments, a.Covers n :=
      fun n => exists_congr fun a => and_congr_right fun ha => or_iff_right fun hnone => hglobal ⟨a, ha, hnone⟩
    simp only [hcovers]
    constructor
    · intro hall
      refine ⟨fun hparts => ?_, fun key value hpart => ?_⟩
      · -- without a clause the bare file passes
        obtain ⟨a, ha, hcov⟩ := (hall _ (hfile fun _ => none)).1 (.inl hparts)
        obtain ⟨c, -, hc⟩ := hcov.admits ha
        exact not_admits_bare c hc
      · -- the file that has this attribute and nothing else passes
        obtain ⟨a, ha, hcov⟩ := (hall _ (hfile fun k => if k = key then some (.str value) else none)).1
          (.inr ⟨_, hpart, if_pos rfl⟩)
        rcases covers_single hcov with ⟨filters, hcond, hmem, hsame⟩ | ⟨ids, hcond, hkey, hvalue⟩
        · exact .inl ⟨a, ha, filters, hcond, hmem, hsame⟩
        · exact .inr ⟨ids, mem_parts.2 ⟨a, ha, _, hcond, List.mem_singleton_self _⟩, hkey, hvalue⟩
    · rintro ⟨hne, hexpr⟩ n -
      rw [or_iff_right hne]
      refine ⟨fun ⟨c, hc, hadm⟩ => ?_, fun ⟨a, ha, hcov⟩ => hcov.admits ha⟩
      obtain ⟨a, ha, cond, hcond, hmem⟩ := mem_parts.1 hc
      have hcovered : ∀ {b : RoleAssignment} {ids : List String}, b.condition? = some (.connector ids) →
          (∃ id ∈ ids, n.props "connector_id" = some (.str id)) → b.Covers n := fun hb hid => by
        rw [RoleAssignment.Covers, hb]
        exact hid
      rcases cond with ids | tags | filters
      · obtain rfl := List.mem_singleton.1 hmem
        exact ⟨a, ha, hcovered hcond hadm⟩
      · obtain ⟨t, ht, rfl⟩ := List.mem_map.1 hmem
        refine ⟨a, ha, ?_⟩
        rw [RoleAssignment.Covers, hcond]
        exact ⟨t, ht, hadm⟩
      · obtain ⟨kv, hkv, rfl⟩ := List.mem_map.1 hmem
        rcases hexpr _ _ hc with ⟨b, hb, filters', hcond', hin, hsame⟩ | ⟨ids, hids, hkey, hvalue⟩
        · refine ⟨b, hb, ?_⟩
          rw [RoleAssignment.Covers, hcond']
          refine ⟨List.ne_nil_of_mem hin, fun kv' hkv' => ?_⟩
          rw [hsame kv' hkv']
          exact hadm
        · obtain ⟨b, hb, cond', hcond', hin⟩ := mem_parts.1 hids
          have heq : cond' = .connector ids := by
            rcases cond' with ids' | tags' | filters'
            · rw [Clause.connector.inj (List.mem_singleton.1 hin)]
            · obtain ⟨t, -, ht⟩ := List.mem_map.1 hin
              cases ht
            · obtain ⟨kv', -, hkv'⟩ := List.mem_map.1 hin
              cases hkv'
          rw [heq] at hcond'
          have hprop : n.props kv.1 = some (.str kv.2) := hadm
          rw [hkey] at hprop
          exact ⟨b, hb, hcovered hcond' ⟨kv.2, hvalue, hprop⟩⟩

/-! ### Some lists of assignments -/

def globalGrant : RoleAssignment := ⟨none, ⟨none, none, none⟩⟩

def connectorGrant (ids : List String) : RoleAssignment := ⟨some "connector", ⟨some ids, none, none⟩⟩

def tagGrant (tags : List String) : RoleAssignment := ⟨some "tag", ⟨none, some tags, none⟩⟩

/-- A database that reads nothing but comparisons of text. -/
def textOnly : Reading := ⟨fun _ => none, fun _ _ _ => none, fun _ _ => false, fun _ _ _ _ => none⟩

/-- One connector and one tag, with a quote of the other kind. -/
theorem denotes_two_scopes :
    Denotes textOnly (fun _ => none) PropertyGraph.empty [connectorGrant ["nas"], tagGrant ["owner:\"it\""]] "graph" := by
  refine (denotes_iff _ _ _ _ _ ?_).2 ?_
  · unfold Plain
    simp [connectorGrant, tagGrant, RoleAssignment.condition?, Condition.Plain, LiteralSafe]
  · simp [Expressible, connectorGrant, tagGrant, parts, RoleAssignment.condition?, Condition.parts]

/-- A global grant is narrowed by a grant of one connector, and a tag with an apostrophe is lost. -/
theorem scope_filter_misreads :
    ¬ Denotes textOnly (fun _ => none) PropertyGraph.empty [globalGrant, connectorGrant ["nas"]] "graph" ∧
      ¬ Denotes textOnly (fun _ => none) PropertyGraph.empty [tagGrant ["it's"]] "graph" := by
  refine ⟨fun h => ?_, fun h => ?_⟩
  · have hplain : Plain [globalGrant, connectorGrant ["nas"]] := by
      unfold Plain
      simp [globalGrant, connectorGrant, RoleAssignment.condition?, Condition.Plain, LiteralSafe]
    have hbare := (h (fileWith fun _ => none) (List.mem_singleton_self _)).2 ⟨globalGrant, List.mem_cons_self, .inl rfl⟩
    rcases (satisfies_iff hplain).1 hbare with hnone | ⟨c, -, hc⟩
    · revert hnone
      decide
    · exact not_admits_bare c hc
  · have htagged := (h (fileWith fun k => if k = "tags" then some (.arr [.str "it's"]) else none)
      (List.mem_singleton_self _)).2 ⟨tagGrant ["it's"], List.mem_singleton_self _, .inr (by
        simp [RoleAssignment.Covers, RoleAssignment.condition?, tagGrant, fileWith, Props.items])⟩
    have hlex : Cypher.lex (scopeFilterToCypher (buildScopeFilter [tagGrant ["it's"]] "graph")) = none := by
      decide
    rcases htagged with hnil | htrue
    · revert hnil
      decide
    · rw [hlex] at htrue
      cases htrue

end Dgraphai.Rbac
