import Dgraphai.Lib.CypherMatch

/-!
# Reading statements

`parseStatement` reads the tokens of `MATCH paths [WHERE predicate] … RETURN items [LIMIT n]`. No part of a
path pattern is a keyword, so a WHERE put between two tokens of a statement is the predicate of the clause
it falls into or makes the statement unreadable (`parse_insert_where`, `parseStatement_insert`).
-/

namespace Cypher

/-! ### Paths -/

/-- A word, or a name in backticks. -/
def asVar : Token → Option Text
  | .word x => if x.head?.any Char.isDigit then none else some x
  | .name x => some x
  | _ => none

def parseVar : List Token → Option Text × List Token
  | [] => (none, [])
  | t :: ts =>
    match asVar t with
    | some x => (some x, ts)
    | none => (none, t :: ts)

def parseLabels : List Token → List Text × List Token
  | .sym ':' :: .name l :: ts => (l :: (parseLabels ts).1, (parseLabels ts).2)
  | ts => ([], ts)

/-- `:A|B`, or `:A|:B`. -/
def parseAlternatives : List Token → List Text × List Token
  | .sym '|' :: .word t :: ts => (t :: (parseAlternatives ts).1, (parseAlternatives ts).2)
  | .sym '|' :: .name t :: ts => (t :: (parseAlternatives ts).1, (parseAlternatives ts).2)
  | .sym '|' :: .sym ':' :: .name t :: ts => (t :: (parseAlternatives ts).1, (parseAlternatives ts).2)
  | ts => ([], ts)

def parseTypes : List Token → List Text × List Token
  | .sym ':' :: .name t :: ts => (t :: (parseAlternatives ts).1, (parseAlternatives ts).2)
  | ts => ([], ts)

def isNumber (w : Text) : Bool := w.head?.any Char.isDigit

/-- A literal or a parameter after a colon. -/
def parseValue : List Token → Option Operand
  | [.str s] => some (.str s)
  | [.sym '$', .name p] => some (.param p)
  | [.name w] =>
    if Keyword.ofText? w = some .true then some (.bool true)
    else if Keyword.ofText? w = some .false then some (.bool false)
    else if isNumber w then some (.literal [.word w]) else none
  | [.sym '-', .word w] => if isNumber w then some (.literal [.sym '-', .word w]) else none
  | [.name w, .sym '.', .name f] => if isNumber w then some (.literal [.word w, .sym '.', .name f]) else none
  | _ => none

def parseEntry : List Token → Option (Text × Operand)
  | .word k :: .sym ':' :: ts => (parseValue ts).map (k, ·)
  | .name k :: .sym ':' :: ts => (parseValue ts).map (k, ·)
  | _ => none

def parseMap : List Token → Option Entries
  | [] => some []
  | [.sym '\x7b', .sym '\x7d'] => some []
  | .sym '\x7b' :: ts =>
    if ts.getLast? = some (.sym '\x7d') then (ts.dropLast.splitOn (.sym ',')).mapM parseEntry else none
  | _ => none

/-- The inside of a bracket, and what follows it. -/
def cut (c : Char) : List Token → Option (List Token × List Token)
  | [] => none
  | t :: ts => if t = .sym c then some ([], ts) else (cut c ts).map fun p => (t :: p.1, p.2)

def parseNode : List Token → Option (NodePattern × List Token)
  | .sym '(' :: ts => do
    let (inner, rest) ← cut ')' ts
    let (x, inner) := parseVar inner
    let (labels, inner) := parseLabels inner
    let props ← parseMap inner
    pure (⟨x, labels, props⟩, rest)
  | _ => none

/-- What a relationship has in brackets, in a direction. -/
def parseDetail (d : Direction) : List Token → Option (RelPattern × List Token)
  | .sym '[' :: ts => do
    let (inner, rest) ← cut ']' ts
    let (x, inner) := parseVar inner
    let (types, inner) := parseTypes inner
    let props ← parseMap inner
    pure (⟨x, types, props, d⟩, rest)
  | ts => some (⟨none, [], [], d⟩, ts)

def parseRel : List Token → Option (RelPattern × List Token)
  | .sym '<' :: .sym '-' :: ts => do
    let (r, rest) ← parseDetail .left ts
    match rest with
    | .sym '-' :: rest => some (r, rest)
    | _ => none
  | .sym '-' :: ts => do
    let (r, rest) ← parseDetail .both ts
    match rest with
    | .sym '-' :: .sym '>' :: rest => some (⟨r.var, r.types, r.props, .right⟩, rest)
    | .sym '-' :: rest => some (r, rest)
    | _ => none
  | _ => none

def parseHops : Nat → List Token → Option (List (RelPattern × NodePattern) × List Token)
  | 0, ts => some ([], ts)
  | fuel + 1, ts =>
    match parseRel ts with
    | none => some ([], ts)
    | some (r, ts) => do
      let (p, ts) ← parseNode ts
      let (hops, rest) ← parseHops fuel ts
      pure ((r, p) :: hops, rest)

def parsePaths : Nat → List Token → Option (List PathPattern)
  | 0, _ => none
  | fuel + 1, ts => do
    let (start, ts) ← parseNode ts
    let (hops, rest) ← parseHops ts.length ts
    match rest with
    | [] => some [⟨start, hops⟩]
    | .sym ',' :: rest => (parsePaths fuel rest).map (⟨start, hops⟩ :: ·)
    | _ => none

/-- There are no more paths than tokens. -/
def parsePatterns (ts : List Token) : Option (List PathPattern) := parsePaths ts.length ts

/-! ### Clauses -/

def parseClause (ts : List Token) : Option Clause :=
  match splitFirst .where 0 ts with
  | some (paths, pred) =>
    if clauseFree 0 pred then (parsePatterns paths).map (⟨·, some pred⟩) else none
  | none => (parsePatterns ts).map (⟨·, none⟩)

def parseClauses (ts : List Token) : Option (List Clause) :=
  match splitAll .match 0 ts with
  | [] :: c :: cs => (c :: cs).mapM parseClause
  | _ => none

def parseColumn : List Token → Option Item
  | [t] => (asVar t).map fun x => ⟨x, none, x⟩
  | [t, .kw .as, u] => do
    let x ← asVar t
    let y ← asVar u
    pure ⟨x, none, y⟩
  | [t, .sym '.', .name k] => (asVar t).map fun x => ⟨x, some k, x ++ '.' :: k⟩
  | [t, .sym '.', .name k, .kw .as, u] => do
    let x ← asVar t
    let y ← asVar u
    pure ⟨x, some k, y⟩
  | _ => none

/-- The items, of which `*` is one for every variable. -/
def parseColumns (xs : List Text) (ts : List Token) : Option (List Item) :=
  if ts = [.sym '*'] then some (xs.eraseDups.map fun x => ⟨x, none, x⟩)
  else (ts.splitOn (.sym ',')).mapM parseColumn

def parseProjection (xs : List Text) (ts : List Token) : Option (List Item × Option Nat) :=
  match splitFirst .limit 0 ts with
  | some (body, [.word l]) =>
    if l.all Char.isDigit then (parseColumns xs body).map (·, some (Nat.ofDigitChars 10 l 0)) else none
  | some _ => none
  | none => (parseColumns xs ts).map (·, none)

def parseStatement (ts : List Token) : Option Statement := do
  let (head, ret) ← splitFirst .return 0 ts
  let cs ← parseClauses head
  let (items, limit) ← parseProjection (vars cs) ret
  pure ⟨cs, items, limit⟩

/-- No operand is a parameter and the rest of a path. -/
def Reading.RefusesPaths (R : Reading) : Prop :=
  ∀ p c₁ c₂, c₂ ≠ [] → (parsePatterns c₁).isSome → (parsePatterns (c₁ ++ c₂)).isSome →
    R.literal (.sym '$' :: .name p :: c₂) = none

/-! ### Patterns hold no keywords -/

theorem flatten_splitOn {α : Type*} [BEq α] [LawfulBEq α] (x : α) (l : List α) :
    (l.splitOn x).flatten = l.filter (· != x) := by
  rw [List.splitOn_eq_splitOnP]
  induction l with
  | nil => rfl
  | cons a l ih =>
    rw [List.splitOnP_cons_eq_if_modifyHead, List.filter_cons]
    split_ifs with heq hne hne
    · simp_all
    · exact ih
    · rcases hsplit : l.splitOnP (· == x) with _ | ⟨part, parts⟩
      · exact absurd hsplit (List.splitOnP_ne_nil _ l)
      · rw [hsplit] at ih
        rw [List.modifyHead_cons, ← ih]
        rfl
    · simp_all

theorem mem_of_mapM {α β : Type*} {f : α → Option β} {l : List α} {l' : List β} (h : l.mapM f = some l') :
    (∀ a ∈ l, ∃ b ∈ l', f a = some b) ∧ ∀ b ∈ l', ∃ a ∈ l, f a = some b := by
  induction l generalizing l' with
  | nil =>
    obtain rfl := Option.some.inj h
    simp
  | cons a l ih =>
    rw [List.mapM_cons, Option.bind_eq_bind, Option.bind_eq_some_iff] at h
    obtain ⟨b, hb, h⟩ := h
    rw [Option.bind_eq_bind, Option.bind_eq_some_iff] at h
    obtain ⟨bs, hbs, h⟩ := h
    obtain rfl := Option.some.inj h
    obtain ⟨hl, hbs⟩ := ih hbs
    constructor
    · intro c hc
      rcases List.mem_cons.1 hc with rfl | hc
      · exact ⟨b, List.mem_cons_self, hb⟩
      · obtain ⟨d, hd, hcd⟩ := hl c hc
        exact ⟨d, List.mem_cons_of_mem b hd, hcd⟩
    · intro d hd
      rcases List.mem_cons.1 hd with rfl | hd
      · exact ⟨a, List.mem_cons_self, hb⟩
      · obtain ⟨c, hc, hcd⟩ := hbs d hd
        exact ⟨c, List.mem_cons_of_mem a hc, hcd⟩

/-- Tokens read as a part of a pattern: no keyword, and the keys of its properties. -/
structure Spent (used : List Token) (es : Entries) : Prop where
  kw : ∀ k, .kw k ∉ used
  key : ∀ e ∈ es, .word e.1 ∈ used ∨ .name e.1 ∈ used

namespace Spent

variable {used used' ts rest : List Token} {es es' : Entries}

theorem nil : Spent [] [] := ⟨fun _ => List.not_mem_nil, fun _ h => absurd h List.not_mem_nil⟩

theorem append (h : Spent used es) (h' : Spent used' es') : Spent (used ++ used') (es ++ es') where
  kw k hk := (List.mem_append.1 hk).elim (h.kw k) (h'.kw k)
  key e he := by
    rcases List.mem_append.1 he with he | he
    · exact (h.key e he).imp (List.mem_append_left used') (List.mem_append_left used')
    · exact (h'.key e he).imp (List.mem_append_right used) (List.mem_append_right used)

theorem cons {t : Token} (ht : ∀ k, t ≠ .kw k) (h : Spent used es) : Spent (t :: used) es where
  kw k hk := (List.mem_cons.1 hk).elim (fun heq => ht k heq.symm) (h.kw k)
  key e he := (h.key e he).imp (List.mem_cons_of_mem t) (List.mem_cons_of_mem t)

theorem sym {c : Char} (h : Spent used es) : Spent (.sym c :: used) es := h.cons fun _ => nofun

theorem word {w : Text} (h : Spent used es) : Spent (.word w :: used) es := h.cons fun _ => nofun

theorem name {w : Text} (h : Spent used es) : Spent (.name w :: used) es := h.cons fun _ => nofun

theorem snoc {c : Char} (h : Spent used es) : Spent (used ++ [.sym c]) es := by
  have hlast := h.append (Spent.nil.sym (c := c))
  rwa [List.append_nil] at hlast

theorem parseVar (ts : List Token) : ∃ used, ts = used ++ (parseVar ts).2 ∧ Spent used [] := by
  cases ts with
  | nil => exact ⟨[], rfl, nil⟩
  | cons t ts =>
    rcases hvar : asVar t with _ | x
    · exact ⟨[], by rw [Cypher.parseVar, hvar]; rfl, nil⟩
    · refine ⟨[t], by rw [Cypher.parseVar, hvar]; rfl, nil.cons ?_⟩
      rintro k rfl
      cases hvar

theorem parseLabels (ts : List Token) : ∃ used, ts = used ++ (parseLabels ts).2 ∧ Spent used [] := by
  fun_induction Cypher.parseLabels ts with
  | case1 l ts ih =>
    obtain ⟨used, hts, hused⟩ := ih
    exact ⟨.sym ':' :: .name l :: used, congrArg (.sym ':' :: .name l :: ·) hts, hused.name.sym⟩
  | case2 ts => exact ⟨[], rfl, nil⟩

theorem parseAlternatives (ts : List Token) : ∃ used, ts = used ++ (parseAlternatives ts).2 ∧ Spent used [] := by
  fun_induction Cypher.parseAlternatives ts with
  | case1 t ts ih =>
    obtain ⟨used, hts, hused⟩ := ih
    exact ⟨.sym '|' :: .word t :: used, congrArg (.sym '|' :: .word t :: ·) hts, hused.word.sym⟩
  | case2 t ts ih =>
    obtain ⟨used, hts, hused⟩ := ih
    exact ⟨.sym '|' :: .name t :: used, congrArg (.sym '|' :: .name t :: ·) hts, hused.name.sym⟩
  | case3 t ts ih =>
    obtain ⟨used, hts, hused⟩ := ih
    exact ⟨.sym '|' :: .sym ':' :: .name t :: used, congrArg (.sym '|' :: .sym ':' :: .name t :: ·) hts,
      hused.name.sym.sym⟩
  | case4 ts => exact ⟨[], rfl, nil⟩

theorem parseTypes (ts : List Token) : ∃ used, ts = used ++ (parseTypes ts).2 ∧ Spent used [] := by
  unfold Cypher.parseTypes
  split
  · rename_i t ts
    obtain ⟨used, hts, hused⟩ := parseAlternatives ts
    exact ⟨.sym ':' :: .name t :: used, congrArg (.sym ':' :: .name t :: ·) hts, hused.name.sym⟩
  · exact ⟨[], rfl, nil⟩

theorem parseValue {v : Operand} (h : parseValue ts = some v) : Spent ts [] := by
  refine ⟨fun k hk => ?_, fun _ he => absurd he List.not_mem_nil⟩
  unfold Cypher.parseValue at h
  split at h <;> simp_all

theorem parseEntry {e : Text × Operand} (h : parseEntry ts = some e) : Spent ts [e] := by
  unfold Cypher.parseEntry at h
  split at h
  · obtain ⟨v, hv, rfl⟩ := Option.map_eq_some_iff.1 h
    refine ⟨(parseValue hv).sym.word.kw, fun e he => ?_⟩
    obtain rfl := List.mem_singleton.1 he
    exact .inl List.mem_cons_self
  · obtain ⟨v, hv, rfl⟩ := Option.map_eq_some_iff.1 h
    refine ⟨(parseValue hv).sym.name.kw, fun e he => ?_⟩
    obtain rfl := List.mem_singleton.1 he
    exact .inr List.mem_cons_self
  · cases h

theorem of_parts {parts : List (List Token)} (hts : parts.flatten = ts.filter (· != .sym ','))
    (h : parts.mapM Cypher.parseEntry = some es) : Spent ts es := by
  obtain ⟨hparts, hes⟩ := mem_of_mapM h
  have hmem : ∀ t ∈ ts, t ≠ .sym ',' → ∃ part ∈ parts, t ∈ part := by
    intro t ht hne
    have hflat : t ∈ parts.flatten := by
      rw [hts]
      exact List.mem_filter.2 ⟨ht, by simpa using hne⟩
    exact List.mem_flatten.1 hflat
  constructor
  · intro k hk
    obtain ⟨part, hpart, hk⟩ := hmem _ hk nofun
    obtain ⟨e, -, he⟩ := hparts part hpart
    exact (parseEntry he).kw k hk
  · intro e he
    obtain ⟨part, hpart, hpe⟩ := hes e he
    have hsub : ∀ t ∈ part, t ∈ ts := by
      intro t ht
      have hflat : t ∈ parts.flatten := List.mem_flatten.2 ⟨part, hpart, ht⟩
      rw [hts] at hflat
      exact (List.mem_filter.1 hflat).1
    exact ((parseEntry hpe).key e (List.mem_singleton_self e)).imp (hsub _) (hsub _)

theorem parseMap (h : parseMap ts = some es) : Spent ts es := by
  unfold Cypher.parseMap at h
  split at h
  · obtain rfl := Option.some.inj h
    exact nil
  · obtain rfl := Option.some.inj h
    exact nil.sym.sym
  · rename_i ts _
    split_ifs at h with hlast
    have hts : ts.dropLast ++ [.sym '\x7d'] = ts := List.dropLast_append_getLast? _ hlast
    rw [← hts]
    exact (of_parts (flatten_splitOn _ _) h).snoc.sym
  · cases h

theorem cut {c : Char} {p : List Token × List Token} (h : cut c ts = some p) : ts = p.1 ++ .sym c :: p.2 := by
  induction ts generalizing p with
  | nil => cases h
  | cons t ts ih =>
    rw [Cypher.cut] at h
    split_ifs at h with ht
    · obtain rfl := Option.some.inj h
      rw [ht]
      rfl
    · obtain ⟨q, hq, rfl⟩ := Option.map_eq_some_iff.1 h
      rw [ih hq]
      rfl

theorem parseNode {p : NodePattern} (h : parseNode ts = some (p, rest)) :
    ∃ used, ts = used ++ rest ∧ Spent used p.props := by
  unfold Cypher.parseNode at h
  split at h
  · rename_i ts
    simp only [Option.bind_eq_bind, Option.bind_eq_some_iff, Option.pure_def, Option.some.injEq, Prod.mk.injEq] at h
    obtain ⟨⟨inner, rest'⟩, hcut, props, hprops, rfl, rfl⟩ := h
    obtain ⟨used, hvar, hused⟩ := parseVar inner
    obtain ⟨used', hlabels, hused'⟩ := parseLabels (Cypher.parseVar inner).2
    have hinner : Spent inner props := by
      rw [hvar, hlabels]
      exact hused.append (hused'.append (parseMap hprops))
    refine ⟨.sym '(' :: inner ++ [.sym ')'], ?_, hinner.sym.snoc⟩
    rw [cut hcut]
    simp
  · cases h

theorem parseDetail {d : Direction} {r : RelPattern} (h : parseDetail d ts = some (r, rest)) :
    ∃ used, ts = used ++ rest ∧ Spent used r.props := by
  unfold Cypher.parseDetail at h
  split at h
  · rename_i ts
    simp only [Option.bind_eq_bind, Option.bind_eq_some_iff, Option.pure_def, Option.some.injEq, Prod.mk.injEq] at h
    obtain ⟨⟨inner, rest'⟩, hcut, props, hprops, rfl, rfl⟩ := h
    obtain ⟨used, hvar, hused⟩ := parseVar inner
    obtain ⟨used', htypes, hused'⟩ := parseTypes (Cypher.parseVar inner).2
    have hinner : Spent inner props := by
      rw [hvar, htypes]
      exact hused.append (hused'.append (parseMap hprops))
    refine ⟨.sym '[' :: inner ++ [.sym ']'], ?_, hinner.sym.snoc⟩
    rw [cut hcut]
    simp
  · simp only [Option.some.injEq, Prod.mk.injEq] at h
    obtain ⟨rfl, rfl⟩ := h
    exact ⟨[], rfl, nil⟩

theorem parseRel {r : RelPattern} (h : parseRel ts = some (r, rest)) :
    ∃ used, ts = used ++ rest ∧ Spent used r.props := by
  unfold Cypher.parseRel at h
  split at h
  · simp only [Option.bind_eq_bind, Option.bind_eq_some_iff] at h
    obtain ⟨⟨r', rest'⟩, hdetail, h⟩ := h
    obtain ⟨used, hts, hused⟩ := parseDetail hdetail
    split at h
    · simp only [Option.some.injEq, Prod.mk.injEq] at h
      obtain ⟨rfl, rfl⟩ := h
      exact ⟨.sym '<' :: .sym '-' :: used ++ [.sym '-'], by simp_all, hused.sym.sym.snoc⟩
    · cases h
  · simp only [Option.bind_eq_bind, Option.bind_eq_some_iff] at h
    obtain ⟨⟨r', rest'⟩, hdetail, h⟩ := h
    obtain ⟨used, hts, hused⟩ := parseDetail hdetail
    split at h
    · simp only [Option.some.injEq, Prod.mk.injEq] at h
      obtain ⟨rfl, rfl⟩ := h
      exact ⟨.sym '-' :: used ++ [.sym '-'] ++ [.sym '>'], by simp_all, hused.sym.snoc.snoc⟩
    · simp only [Option.some.injEq, Prod.mk.injEq] at h
      obtain ⟨rfl, rfl⟩ := h
      exact ⟨.sym '-' :: used ++ [.sym '-'], by simp_all, hused.sym.snoc⟩
    · cases h
  · cases h

theorem parseHops {fuel : Nat} {hops : List (RelPattern × NodePattern)} (h : parseHops fuel ts = some (hops, rest)) :
    ∃ used, ts = used ++ rest ∧ Spent used (hops.flatMap fun hop => hop.1.props ++ hop.2.props) := by
  induction fuel generalizing ts hops with
  | zero =>
    simp only [Cypher.parseHops, Option.some.injEq, Prod.mk.injEq] at h
    obtain ⟨rfl, rfl⟩ := h
    exact ⟨[], rfl, nil⟩
  | succ fuel ih =>
    unfold Cypher.parseHops at h
    split at h
    · simp only [Option.some.injEq, Prod.mk.injEq] at h
      obtain ⟨rfl, rfl⟩ := h
      exact ⟨[], rfl, nil⟩
    · rename_i r ts' hrel
      simp only [Option.bind_eq_bind, Option.bind_eq_some_iff, Option.pure_def, Option.some.injEq,
        Prod.mk.injEq] at h
      obtain ⟨⟨p, ts₂⟩, hnode, ⟨hops', rest'⟩, hhops, rfl, rfl⟩ := h
      obtain ⟨used, rfl, hused⟩ := parseRel hrel
      obtain ⟨used', rfl, hused'⟩ := parseNode hnode
      obtain ⟨used₂, rfl, hused₂⟩ := ih hhops
      exact ⟨used ++ used' ++ used₂, by simp, (hused.append hused').append hused₂⟩

theorem parsePaths {fuel : Nat} {paths : List PathPattern} (h : parsePaths fuel ts = some paths) :
    Spent ts (paths.flatMap fun p => p.start.props ++ p.hops.flatMap fun hop => hop.1.props ++ hop.2.props) := by
  induction fuel generalizing ts paths with
  | zero => cases h
  | succ fuel ih =>
    unfold Cypher.parsePaths at h
    simp only [Option.bind_eq_bind, Option.bind_eq_some_iff] at h
    obtain ⟨⟨start, ts₁⟩, hnode, ⟨hops, rest⟩, hhops, h⟩ := h
    obtain ⟨used, rfl, hused⟩ := parseNode hnode
    obtain ⟨used', rfl, hused'⟩ := parseHops hhops
    dsimp only at h
    split at h
    · obtain rfl := Option.some.inj h
      rw [List.append_nil, List.flatMap_singleton]
      exact hused.append hused'
    · obtain ⟨paths', hpaths, rfl⟩ := Option.map_eq_some_iff.1 h
      rw [← List.append_assoc, List.flatMap_cons]
      exact (hused.append hused').append (ih hpaths).sym
    · cases h

end Spent

theorem parsePatterns_kw {ts : List Token} {paths : List PathPattern} (h : parsePatterns ts = some paths)
    (k : Keyword) : .kw k ∉ ts := (Spent.parsePaths h).kw k

/-- The keys of the properties of a pattern stand in it. -/
theorem parsePatterns_key {ts : List Token} {paths : List PathPattern} (h : parsePatterns ts = some paths)
    {e : Text × Operand} (he : e ∈ (paths.flatMap (·.nodes)).flatMap (·.props) ++ (paths.flatMap (·.rels)).flatMap (·.props)) :
    .word e.1 ∈ ts ∨ .name e.1 ∈ ts := by
  refine (Spent.parsePaths h).key e ?_
  simp only [PathPattern.nodes, PathPattern.rels, List.mem_append, List.mem_flatMap, List.mem_cons,
    List.mem_map] at he ⊢
  rcases he with ⟨_, ⟨p, hp, rfl | ⟨hop, hhop, rfl⟩⟩, he⟩ | ⟨_, ⟨p, hp, ⟨hop, hhop, rfl⟩⟩, he⟩
  · exact ⟨p, hp, .inl he⟩
  · exact ⟨p, hp, .inr ⟨hop, hhop, .inr he⟩⟩
  · exact ⟨p, hp, .inr ⟨hop, hhop, .inl he⟩⟩

/-! ### A WHERE between two tokens -/

section Insert

variable {k : Keyword} {d : Nat} {a b c h w x ts ret : List Token} {init rest : List (List Token)}

theorem eq_of_splitAll_singleton (hs : splitAll k d a = [c]) : c = a := by
  induction a generalizing d c with
  | nil =>
    obtain rfl := (List.cons.inj hs).1
    rfl
  | cons t a ih =>
    rw [splitAll] at hs
    split_ifs at hs
    · exact absurd (List.cons.inj hs).2 splitAll_ne_nil
    · rcases hsplit : splitAll k (t.depth d) a with _ | ⟨g, gs⟩
      · exact absurd hsplit splitAll_ne_nil
      · rw [hsplit] at hs
        obtain ⟨rfl, rfl⟩ := List.cons.inj hs
        rw [ih hsplit]

/-- Parts begin outside brackets, so the last one ends at the depth the whole ends at. -/
theorem endDepth_last (hs : splitAll k d a = init ++ [c]) (hd : d = 0 ∨ init ≠ []) :
    endDepth 0 c = endDepth d a := by
  induction a generalizing d init c with
  | nil =>
    obtain ⟨rfl, hlast⟩ := List.append_eq_singleton_iff.1 hs.symm |>.resolve_right (by simp)
    cases hlast
    rw [hd.resolve_right (fun hne => hne rfl)]
  | cons t a ih =>
    rw [splitAll] at hs
    split_ifs at hs with hk
    · cases init with
      | nil => exact absurd (List.cons.inj hs).2 splitAll_ne_nil
      | cons g init =>
        have hdepth : t.depth d = 0 := by
          rw [hk.1, hk.2]
          rfl
        rw [ih (List.cons.inj hs).2 (.inl rfl), endDepth, hdepth]
    · rcases hsplit : splitAll k (t.depth d) a with _ | ⟨g, gs⟩
      · exact absurd hsplit splitAll_ne_nil
      · rw [hsplit] at hs
        cases init with
        | nil =>
          obtain ⟨rfl, rfl⟩ := List.cons.inj hs
          rw [eq_of_splitAll_singleton hsplit, hd.resolve_right fun hne => hne rfl]
        | cons i init =>
          obtain ⟨rfl, rfl⟩ := List.cons.inj hs
          have hgs : splitAll k (t.depth d) a = (g :: init) ++ [c] := hsplit
          exact ih hgs (.inr (List.cons_ne_nil g init))

theorem clauseFree_of_not_mem (h : ∀ k, .kw k ∉ ts) : clauseFree d ts = true := by
  fun_induction clauseFree d ts with
  | case1 => rfl
  | case2 d ts ih => exact absurd List.mem_cons_self (h .starts)
  | case3 d ts ih => exact absurd List.mem_cons_self (h .ends)
  | case4 d k ts _ _ ih => exact absurd List.mem_cons_self (h k)
  | case5 d t ts _ _ _ ih => exact ih fun k hk => h k (List.mem_cons_of_mem t hk)

theorem parseClauses_eq_some {cs : List Clause} : parseClauses ts = some cs ↔
    ∃ parts, splitAll .match 0 ts = [] :: parts ∧ parts ≠ [] ∧ parts.mapM parseClause = some cs := by
  unfold parseClauses
  constructor
  · intro hcs
    split at hcs
    · rename_i c parts hsplit
      exact ⟨c :: parts, hsplit, List.cons_ne_nil c parts, hcs⟩
    · cases hcs
  · rintro ⟨parts, hsplit, hne, hcs⟩
    cases parts with
    | nil => exact absurd rfl hne
    | cons c parts =>
      rw [hsplit]
      exact hcs

theorem mapM_append_cons_eq_some {α β : Type*} {f : α → Option β} {l₁ l₂ : List α} {e : α} {l : List β} :
    (l₁ ++ e :: l₂).mapM f = some l ↔
      ∃ l₁' e' l₂', l₁.mapM f = some l₁' ∧ f e = some e' ∧ l₂.mapM f = some l₂' ∧ l = l₁' ++ e' :: l₂' := by
  simp only [List.mapM_append, List.mapM_cons, Option.bind_eq_bind, Option.bind_eq_some_iff, Option.pure_def,
    Option.some.injEq]
  constructor
  · rintro ⟨l₁', h₁, _, ⟨e', he, l₂', h₂, rfl⟩, rfl⟩
    exact ⟨l₁', e', l₂', h₁, he, h₂, rfl⟩
  · rintro ⟨l₁', e', l₂', h₁, he, h₂, rfl⟩
    exact ⟨l₁', h₁, _, ⟨e', he, l₂', h₂, rfl⟩, rfl⟩

/-- What is put between two parts of a text, outside brackets and before RETURN, lands in one clause. -/
theorem splitAll_insert (ha : splitAll .match 0 a = init ++ [c]) (hdepth : endDepth 0 a = 0)
    (hx : splitAll .match 0 x = [x]) (hxdepth : endDepth 0 x = 0) {c₂ : List Token}
    (hh : splitAll .match 0 h = c₂ :: rest) : splitAll .match 0 (a ++ x ++ h) = init ++ (c ++ x ++ c₂) :: rest := by
  have hax : splitAll .match 0 (a ++ x) = init ++ [c ++ x] :=
    splitAll_append_of_snoc ha (by rw [hdepth, hx])
  exact splitAll_append_of_snoc hax (by rw [endDepth_append, hdepth, hxdepth, hh])

theorem splitFirst_insert (hret : splitFirst .return 0 a = none) (hdepth : endDepth 0 a = 0)
    (hx : splitFirst .return 0 x = none) (hxdepth : endDepth 0 x = 0) :
    splitFirst .return 0 (a ++ x ++ b) = (splitFirst .return 0 b).map fun p => (a ++ x ++ p.1, p.2) := by
  have hax : splitFirst .return 0 (a ++ x) = none := by
    rw [splitFirst_append_of_none hret, hdepth, hx]
    rfl
  rw [splitFirst_append_of_none hax, endDepth_append, hdepth, hxdepth]

end Insert

/-! ### Reading a statement with a WHERE put in -/

theorem parseStatement_eq_some {ts : List Token} {q : Statement} : parseStatement ts = some q ↔
    ∃ head ret parts, splitFirst .return 0 ts = some (head, ret) ∧ splitAll .match 0 head = [] :: parts ∧
      parts ≠ [] ∧ parts.mapM parseClause = some q.clauses ∧
      parseProjection (vars q.clauses) ret = some (q.items, q.limit) := by
  simp only [parseStatement, Option.bind_eq_bind, Option.bind_eq_some_iff, Option.pure_def, Option.some.injEq,
    parseClauses_eq_some]
  constructor
  · rintro ⟨⟨head, ret⟩, hret, cs, ⟨parts, hsplit, hne, hcs⟩, ⟨items, limit⟩, hitems, rfl⟩
    exact ⟨head, ret, parts, hret, hsplit, hne, hcs, hitems⟩
  · rintro ⟨head, ret, parts, hret, hsplit, hne, hcs, hitems⟩
    exact ⟨(head, ret), hret, q.clauses, ⟨parts, hsplit, hne, hcs⟩, (q.items, q.limit), hitems, rfl⟩

theorem asVar_kw {k : Keyword} : asVar (.kw k) = none := rfl

theorem parseColumn_where {ts : List Token} {it : Item} (h : parseColumn ts = some it) : .kw .where ∉ ts := by
  intro hwhere
  unfold parseColumn at h
  split at h
  · obtain rfl := List.mem_singleton.1 hwhere
    cases h
  · simp only [List.mem_cons, reduceCtorEq, Token.kw.injEq, List.not_mem_nil, or_false, false_or] at hwhere
    rcases hwhere with rfl | rfl <;> simp [asVar_kw] at h
  · simp only [List.mem_cons, reduceCtorEq, List.not_mem_nil, or_false] at hwhere
    subst hwhere
    cases h
  · simp only [List.mem_cons, reduceCtorEq, Token.kw.injEq, List.not_mem_nil, or_false, false_or] at hwhere
    rcases hwhere with rfl | rfl <;> simp [asVar_kw] at h
  · cases h

theorem parseColumns_where {xs : List Text} {ts : List Token} {items : List Item}
    (h : parseColumns xs ts = some items) : .kw .where ∉ ts := by
  intro hwhere
  unfold parseColumns at h
  split_ifs at h with hstar
  · rw [hstar] at hwhere
    cases List.mem_singleton.1 hwhere
  · have hflat : Token.kw .where ∈ (ts.splitOn (.sym ',')).flatten := by
      rw [flatten_splitOn]
      exact List.mem_filter.2 ⟨hwhere, rfl⟩
    obtain ⟨part, hpart, hmem⟩ := List.mem_flatten.1 hflat
    obtain ⟨it, -, hit⟩ := (mem_of_mapM h).1 part hpart
    exact parseColumn_where hit hmem

theorem parseProjection_where {xs : List Text} {ts : List Token} {p : List Item × Option Nat}
    (h : parseProjection xs ts = some p) : .kw .where ∉ ts := by
  intro hwhere
  unfold parseProjection at h
  split at h
  · rename_i body l hlimit
    split_ifs at h
    obtain ⟨items, hitems, -⟩ := Option.map_eq_some_iff.1 h
    obtain ⟨rfl, -⟩ := splitFirst_eq_some hlimit
    rcases List.mem_append.1 hwhere with hmem | hmem
    · exact parseColumns_where hitems hmem
    · simp at hmem
  · cases h
  · obtain ⟨items, hitems, -⟩ := Option.map_eq_some_iff.1 h
    exact parseColumns_where hitems hwhere

/-- A clause into which a WHERE is put outside brackets. -/
theorem parseClause_insert {c₁ c₂ w : List Token} {cl cl' : Clause} (hdepth : endDepth 0 c₁ = 0)
    (hw : ∀ t ∈ w, t.Plain) (hcl : parseClause (c₁ ++ c₂) = some cl)
    (hcl' : parseClause (c₁ ++ .kw .where :: w ++ c₂) = some cl') :
    ∃ paths paths', parsePatterns (c₁ ++ c₂) = some paths ∧ parsePatterns c₁ = some paths' ∧
      parseClause c₁ = some ⟨paths', none⟩ ∧ cl = ⟨paths, none⟩ ∧ cl' = ⟨paths', some (w ++ c₂)⟩ := by
  have hfirst : splitFirst .where 0 (.kw .where :: w ++ c₂) = some ([], w ++ c₂) := by
    rw [List.cons_append, splitFirst, if_pos ⟨rfl, rfl⟩]
  rw [List.append_assoc] at hcl'
  rcases hwhere : splitFirst .where 0 c₁ with _ | ⟨paths₁, pred₁⟩
  · have hsplit : splitFirst .where 0 (c₁ ++ (.kw .where :: w ++ c₂)) = some (c₁, w ++ c₂) := by
      rw [splitFirst_append_of_none hwhere, hdepth, hfirst, Option.map_some, List.append_nil]
    rw [parseClause, hsplit] at hcl'
    dsimp only at hcl'
    split_ifs at hcl' with hfree
    obtain ⟨paths', hpaths', rfl⟩ := Option.map_eq_some_iff.1 hcl'
    have hrest : splitFirst .where 0 c₂ = none := by
      have hnone := splitFirst_of_clauseFree (k := .where) (by decide) (by decide) hfree
      have hwnone : splitFirst .where 0 w = none := by
        rcases hs : splitFirst .where 0 w with _ | p
        · rfl
        · rw [splitFirst_append_of_some hs] at hnone
          cases hnone
      rw [splitFirst_append_of_none hwnone, endDepth_of_plain hw] at hnone
      exact Option.map_eq_none_iff.1 hnone
    have hwhole : splitFirst .where 0 (c₁ ++ c₂) = none := by
      rw [splitFirst_append_of_none hwhere, hdepth, hrest, Option.map_none]
    rw [parseClause, hwhole] at hcl
    obtain ⟨paths, hpaths, rfl⟩ := Option.map_eq_some_iff.1 hcl
    refine ⟨paths, paths', hpaths, hpaths', ?_, rfl, rfl⟩
    rw [parseClause, hwhere, hpaths']
    rfl
  -- a second WHERE outside brackets
  · exfalso
    have hsplit := splitFirst_append_of_some (b := .kw .where :: w ++ c₂) hwhere
    rw [parseClause, hsplit] at hcl'
    dsimp only at hcl'
    split_ifs at hcl' with hfree
    have hnone := splitFirst_of_clauseFree (k := .where) (by decide) (by decide) hfree
    obtain ⟨hc₁, -, hpaths₁⟩ := splitFirst_eq_some hwhere
    have hpred₁ : endDepth 0 pred₁ = 0 := by
      rw [hc₁, endDepth_append, hpaths₁] at hdepth
      exact hdepth
    rcases hs : splitFirst .where 0 pred₁ with _ | p
    · rw [splitFirst_append_of_none hs, hpred₁, hfirst] at hnone
      cases hnone
    · rw [splitFirst_append_of_some hs] at hnone
      cases hnone

/-- RETURN, or the next MATCH. -/
def ClauseEnds (ts : List Token) : Prop := ts.head? = some (.kw .return) ∨ ts.head? = some (.kw .match)

section Insert

variable {a b w : List Token} {q q' : Statement}

theorem splitAll_eq_snoc (k : Keyword) (d : Nat) (ts : List Token) : ∃ init c, splitAll k d ts = init ++ [c] :=
  ⟨_, _, (List.dropLast_append_getLast splitAll_ne_nil).symm⟩

theorem head_of_splitAll_nil {k : Keyword} {h : List Token} {rest : List (List Token)}
    (hs : splitAll k 0 h = [] :: rest) : h = [] ∨ h.head? = some (.kw k) := by
  cases h with
  | nil => exact .inl rfl
  | cons t ts =>
    rw [splitAll] at hs
    split_ifs at hs with hk
    · exact .inr (congrArg some hk.2)
    · rcases hsplit : splitAll k (t.depth 0) ts with _ | ⟨g, gs⟩
      · exact absurd hsplit splitAll_ne_nil
      · rw [hsplit] at hs
        cases (List.cons.inj hs).1

theorem splitAll_where (hw : ∀ t ∈ w, t.Plain ∧ ∀ k, t ≠ .kw k) :
    splitAll .match 0 (.kw .where :: w) = [.kw .where :: w] :=
  splitAll_of_plain (List.forall_mem_cons.2 ⟨⟨fun _ => rfl, nofun⟩, fun t ht => ⟨(hw t ht).1, (hw t ht).2 _⟩⟩)

theorem splitFirst_where (hw : ∀ t ∈ w, t.Plain ∧ ∀ k, t ≠ .kw k) :
    splitFirst .return 0 (.kw .where :: w) = none :=
  splitFirst_of_plain (List.forall_mem_cons.2 ⟨⟨fun _ => rfl, nofun⟩, fun t ht => ⟨(hw t ht).1, (hw t ht).2 _⟩⟩)

theorem endDepth_where (hw : ∀ t ∈ w, t.Plain ∧ ∀ k, t ≠ .kw k) : endDepth 0 (.kw .where :: w) = 0 :=
  endDepth_of_plain fun t ht => (List.mem_cons.1 ht).elim (fun heq => heq ▸ fun _ => rfl) fun ht => (hw t ht).1

/-- A WHERE behind the paths of a clause. -/
theorem parseClause_where {c : List Token} {paths : List PathPattern} (hdepth : endDepth 0 c = 0)
    (hw : ∀ t ∈ w, t.Plain ∧ ∀ k, t ≠ .kw k) (hc : parseClause c = some ⟨paths, none⟩) :
    parseClause (c ++ .kw .where :: w) = some ⟨paths, some w⟩ := by
  have hpaths : splitFirst .where 0 c = none ∧ parsePatterns c = some paths := by
    unfold parseClause at hc
    split at hc
    · split_ifs at hc
      obtain ⟨paths', -, heq⟩ := Option.map_eq_some_iff.1 hc
      cases heq
    · rename_i hnone
      obtain ⟨paths', hpaths, heq⟩ := Option.map_eq_some_iff.1 hc
      cases heq
      exact ⟨hnone, hpaths⟩
  have hfirst : splitFirst .where 0 (.kw .where :: w) = some ([], w) := if_pos ⟨rfl, rfl⟩
  have hsplit : splitFirst .where 0 (c ++ .kw .where :: w) = some (c, w) := by
    rw [splitFirst_append_of_none hpaths.1, hdepth, hfirst, Option.map_some, List.append_nil]
  have hfree : clauseFree 0 w = true := clauseFree_of_not_mem fun k hk => (hw _ hk).2 k rfl
  rw [parseClause, hsplit]
  dsimp only
  rw [if_pos hfree, hpaths.2]
  rfl

/-- A statement that is still read with a WHERE put between two of its tokens, outside brackets: the WHERE
stands behind paths of a clause that has no other, and makes what follows them a part of its predicate. -/
theorem parse_insert_where (hw : ∀ t ∈ w, t.Plain ∧ ∀ k, t ≠ .kw k) (ha : endDepth 0 a = 0)
    (hq : parseStatement (a ++ b) = some q) (hq' : parseStatement (a ++ .kw .where :: w ++ b) = some q') :
    splitFirst .return 0 a = none ∧ ∃ cs c₁ c₂ paths paths' ds,
      parsePatterns (c₁ ++ c₂) = some paths ∧ parsePatterns c₁ = some paths' ∧
      parseClauses a = some (cs ++ [⟨paths', none⟩]) ∧ q'.clauses = cs ++ ⟨paths', some (w ++ c₂)⟩ :: ds ∧
      (c₂ = [] → ClauseEnds b) := by
  obtain ⟨head, ret, parts, hret, hsplit, -, hclauses, -⟩ := parseStatement_eq_some.1 hq
  obtain ⟨head', ret', parts', hret', hsplit', -, hclauses', hitems'⟩ := parseStatement_eq_some.1 hq'
  have hnone : splitFirst .return 0 a = none := by
    rcases hs : splitFirst .return 0 a with _ | p
    · rfl
    -- behind RETURN there is no WHERE
    · exfalso
      rw [List.append_assoc, splitFirst_append_of_some hs] at hret'
      obtain ⟨-, rfl⟩ := Prod.mk.inj (Option.some.inj hret')
      exact parseProjection_where hitems' (List.mem_append_right _ List.mem_cons_self)
  refine ⟨hnone, ?_⟩
  rw [splitFirst_append_of_none hnone, ha] at hret
  obtain ⟨⟨h, r⟩, hb, heq⟩ := Option.map_eq_some_iff.1 hret
  obtain ⟨rfl, rfl⟩ := Prod.mk.inj heq
  rw [splitFirst_insert hnone ha (splitFirst_where hw) (endDepth_where hw), hb] at hret'
  obtain ⟨rfl, rfl⟩ := Prod.mk.inj (Option.some.inj hret')
  obtain ⟨init, c₁, hinit⟩ := splitAll_eq_snoc .match 0 a
  have hne : splitAll .match 0 h ≠ [] := splitAll_ne_nil
  obtain ⟨c₂, rest, hrest⟩ := List.exists_cons_of_ne_nil hne
  rw [splitAll_insert hinit ha (splitAll_where hw) (endDepth_where hw) hrest] at hsplit'
  rw [splitAll_append_of_snoc hinit (by rw [ha, hrest])] at hsplit
  cases init with
  | nil =>
    have hhead := (List.cons.inj hsplit').1
    simp at hhead
  | cons i init =>
    obtain ⟨rfl, rfl⟩ := List.cons.inj hsplit
    obtain ⟨-, rfl⟩ := List.cons.inj hsplit'
    obtain ⟨cs, cl, ds, hcs, hcl, hds, -⟩ := mapM_append_cons_eq_some.1 hclauses
    obtain ⟨cs', cl', ds', hcs', hcl', hds', hq'⟩ := mapM_append_cons_eq_some.1 hclauses'
    have hdepth : endDepth 0 c₁ = 0 := (endDepth_last hinit (.inl rfl)).trans ha
    obtain ⟨paths, paths', hpaths, hpaths', hc₁, rfl, rfl⟩ :=
      parseClause_insert hdepth (fun t ht => (hw t ht).1) hcl hcl'
    refine ⟨cs', c₁, c₂, paths, paths', ds', hpaths, hpaths', ?_, hq', ?_⟩
    · refine parseClauses_eq_some.2 ⟨init ++ [c₁], hinit, by simp, ?_⟩
      exact mapM_append_cons_eq_some.2 ⟨cs', _, [], hcs', hc₁, rfl, rfl⟩
    · rintro rfl
      obtain ⟨hb, -, -⟩ := splitFirst_eq_some hb
      rcases head_of_splitAll_nil hrest with rfl | hhead
      · exact .inl (by rw [hb]; rfl)
      · refine .inr ?_
        rw [hb, List.head?_append, hhead]
        rfl

/-- A WHERE put behind the paths of a clause that has none. -/
theorem parseStatement_insert (hw : ∀ t ∈ w, t.Plain ∧ ∀ k, t ≠ .kw k) (ha : endDepth 0 a = 0)
    (hnone : splitFirst .return 0 a = none) {cs : List Clause} {paths : List PathPattern}
    (hcs : parseClauses a = some (cs ++ [⟨paths, none⟩])) (hends : ClauseEnds b)
    (hq : parseStatement (a ++ b) = some q) : ∃ ds, q.clauses = cs ++ ⟨paths, none⟩ :: ds ∧
      parseStatement (a ++ .kw .where :: w ++ b) = some ⟨cs ++ ⟨paths, some w⟩ :: ds, q.items, q.limit⟩ := by
  obtain ⟨head, ret, parts, hret, hsplit, -, hclauses, hitems⟩ := parseStatement_eq_some.1 hq
  rw [splitFirst_append_of_none hnone, ha] at hret
  obtain ⟨⟨h, r⟩, hb, heq⟩ := Option.map_eq_some_iff.1 hret
  obtain ⟨rfl, rfl⟩ := Prod.mk.inj heq
  obtain ⟨parts₁, hparts₁, hne, hcs⟩ := parseClauses_eq_some.1 hcs
  obtain ⟨init, c₁, rfl⟩ : ∃ init c₁, parts₁ = init ++ [c₁] :=
    ⟨_, _, (List.dropLast_append_getLast hne).symm⟩
  obtain ⟨cs', cl, ds₀, hcs', hcl, hds₀, heq⟩ := mapM_append_cons_eq_some.1 hcs
  obtain rfl : ds₀ = [] := (Option.some.inj hds₀).symm
  obtain ⟨rfl, hlast⟩ := List.append_inj' heq rfl
  obtain rfl := (List.cons.inj hlast).1
  -- what follows begins a clause, so nothing is added to the last one
  obtain ⟨rest, hrest⟩ : ∃ rest, splitAll .match 0 h = [] :: rest := by
    obtain ⟨hbr, hnoReturn, -⟩ := splitFirst_eq_some hb
    cases h with
    | nil => exact ⟨[], rfl⟩
    | cons t ts =>
      have ht : b.head? = some t := by
        rw [hbr]
        rfl
      rcases hends with hends | hends <;> obtain rfl := Option.some.inj (ht.symm.trans hends)
      · have hsome : splitFirst .return 0 (.kw .return :: ts) = some ([], ts) := if_pos ⟨rfl, rfl⟩
        rw [hsome] at hnoReturn
        cases hnoReturn
      · exact ⟨_, if_pos ⟨rfl, rfl⟩⟩
  have hsnoc : splitAll .match 0 a = ([] :: init) ++ [c₁] := hparts₁
  rw [splitAll_append_of_snoc hsnoc (by rw [ha, hrest]), List.append_nil] at hsplit
  obtain rfl := (List.cons.inj hsplit).2
  obtain ⟨cs₁, cl, ds, hcs₁, hcl₁, hds, hclauses⟩ := mapM_append_cons_eq_some.1 hclauses
  obtain rfl := Option.some.inj (hcs'.symm.trans hcs₁)
  obtain rfl := Option.some.inj (hcl.symm.trans hcl₁)
  refine ⟨ds, hclauses, parseStatement_eq_some.2 ⟨a ++ .kw .where :: w ++ h, r,
    init ++ (c₁ ++ .kw .where :: w) :: rest, ?_, ?_, by simp, ?_, ?_⟩⟩
  · rw [splitFirst_insert hnone ha (splitFirst_where hw) (endDepth_where hw), hb]
    rfl
  · rw [splitAll_insert hsnoc ha (splitAll_where hw) (endDepth_where hw) hrest, List.append_nil]
    rfl
  · refine mapM_append_cons_eq_some.2 ⟨cs, _, ds, hcs', ?_, hds, rfl⟩
    exact parseClause_where (endDepth_last hsnoc (.inl rfl) |>.trans ha) hw hcl
  · have hvars : vars (cs ++ ⟨paths, some w⟩ :: ds) = vars q.clauses := by
      rw [hclauses]
      simp [vars, nodeVars, relVars, nodesOf, relsOf]
    rw [hvars]
    exact hitems

end Insert

/-! ### The keys a statement names -/

theorem mem_of_mem_splitAll {k : Keyword} {d : Nat} {ts part : List Token} (hpart : part ∈ splitAll k d ts) {t : Token}
    (ht : t ∈ part) : t ∈ ts := by
  induction ts generalizing d part with
  | nil =>
    obtain rfl := List.mem_singleton.1 hpart
    exact ht
  | cons u ts ih =>
    rw [splitAll] at hpart
    split_ifs at hpart
    · rcases List.mem_cons.1 hpart with rfl | hpart
      · cases ht
      · exact List.mem_cons_of_mem u (ih hpart ht)
    · rcases hsplit : splitAll k (u.depth d) ts with _ | ⟨g, gs⟩
      · exact absurd hsplit splitAll_ne_nil
      · rw [hsplit] at hpart
        rcases List.mem_cons.1 hpart with rfl | hpart
        · rcases List.mem_cons.1 ht with rfl | ht
          · exact List.mem_cons_self
          · exact List.mem_cons_of_mem u (ih (hsplit ▸ List.mem_cons_self) ht)
        · exact List.mem_cons_of_mem u (ih (hsplit ▸ List.mem_cons_of_mem g hpart) ht)

theorem parseClause_patterns {ts : List Token} {c : Clause} (h : parseClause ts = some c) :
    ∃ ps, parsePatterns ps = some c.paths ∧ ∀ t ∈ ps, t ∈ ts := by
  unfold parseClause at h
  split at h
  · rename_i ps pred hsplit
    split_ifs at h
    obtain ⟨paths, hpaths, rfl⟩ := Option.map_eq_some_iff.1 h
    refine ⟨ps, hpaths, fun t ht => ?_⟩
    rw [(splitFirst_eq_some hsplit).1]
    exact List.mem_append_left _ ht
  · obtain ⟨paths, hpaths, rfl⟩ := Option.map_eq_some_iff.1 h
    exact ⟨ts, hpaths, fun _ => id⟩

theorem parseStatement_key {ts : List Token} {q : Statement} (h : parseStatement ts = some q)
    {e : Text × Operand} (he : e ∈ entriesOf q.clauses) : .word e.1 ∈ ts ∨ .name e.1 ∈ ts := by
  obtain ⟨head, ret, parts, hret, hsplit, -, hclauses, -⟩ := parseStatement_eq_some.1 h
  obtain ⟨c, hc, hec⟩ : ∃ c ∈ q.clauses, e ∈ (c.paths.flatMap (·.nodes)).flatMap (·.props) ++
      (c.paths.flatMap (·.rels)).flatMap (·.props) := by
    simp only [entriesOf, nodesOf, relsOf, List.mem_append, List.mem_flatMap] at he ⊢
    rcases he with ⟨p, ⟨c, hc, path, hpath, hp⟩, he⟩ | ⟨r, ⟨c, hc, path, hpath, hr⟩, he⟩
    · exact ⟨c, hc, .inl ⟨p, ⟨path, hpath, hp⟩, he⟩⟩
    · exact ⟨c, hc, .inr ⟨r, ⟨path, hpath, hr⟩, he⟩⟩
  obtain ⟨part, hpart, hparse⟩ := (mem_of_mapM hclauses).2 c hc
  obtain ⟨ps, hps, hsub⟩ := parseClause_patterns hparse
  have hmem : ∀ t ∈ ps, t ∈ ts := by
    intro t ht
    rw [(splitFirst_eq_some hret).1]
    refine List.mem_append_left _ (mem_of_mem_splitAll (k := .match) (d := 0) ?_ (hsub t ht))
    rw [hsplit]
    exact List.mem_cons_of_mem _ hpart
  exact (parsePatterns_key hps hec).imp (hmem _) (hmem _)

end Cypher
