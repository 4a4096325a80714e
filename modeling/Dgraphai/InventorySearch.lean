import Dgraphai.InventoryIsolation
import Dgraphai.Lib.CypherScan
import Dgraphai.Lib.UrlQuote

/-!
# The search for a category (`api/inventory_search.py`), and links to the query page

A text is looked up among the categories by name, by the phrases of `KEYWORD_MAP` and by a score; where nothing is
found, a link opens a query for files whose name contains it. A link gives its query back the way the pages read it
(`param_queryUrl`, `pageQuery_append`), and the query of a search that finds no category shows files of the tenant
only, whatever was typed (`noMatch_query`).
-/

namespace Dgraphai.InventorySearch

open Cypher PropertyGraph
open GraphBackend (Owned sessionRun strip)
open Inventory (isAtom_tenantAtom tenantAtom)
open UrlQuote (formDecode param quote)

/-! ### Links -/

/-- The characters `urllib.parse.quote` leaves as they are. -/
def isSafe (c : Char) : Bool := c.isAlphanum || c = '_' || c = '.' || c = '-' || c = '~' || c = '/'

/-- `f"/query?q={urllib.parse.quote(cypher)}"`. -/
def queryUrl (cypher : Text) : Text := "/query?q=".toList ++ quote isSafe cypher

/-- `f"/query?q={urllib.parse.quote(cypher)}&category={id}"`. -/
def categoryUrl (cypher id : Text) : Text := queryUrl cypher ++ "&category=".toList ++ id

/-- What stands before and after the first occurrence of a separator. -/
def cutAt (sep : Text) : Text → Option (Text × Text)
  | [] => if sep = [] then some ([], []) else none
  | c :: cs =>
    if sep.isPrefixOf (c :: cs) then some ([], (c :: cs).drop sep.length)
    else (cutAt sep cs).map fun p => (c :: p.1, p.2)

/-- `url.split('?q=')[1]?.split('&')[0]`, and the value a query page reads from it. -/
def pageQuery (url : Text) : Option Text :=
  (cutAt "?q=".toList url).bind fun p =>
    formDecode ((((cutAt "?q=".toList p.2).map (·.1)).getD p.2).takeWhile (· ≠ '&'))

/-! ### The search -/

/-- A category as the search reads it. -/
structure Entry where
  id : Text
  name : Text
  description : Text
  tags : List Text
  deriving DecidableEq, Repr

structure Candidate where
  cat : Entry
  score : ℕ
  deriving DecidableEq, Repr

/-- The tables of the search, and `str.lower`. -/
structure Tables where
  /-- `ALL_CATEGORIES`. -/
  categories : List Entry
  /-- `get_category`. -/
  getCategory : Text → Option Entry
  /-- `KEYWORD_MAP`. -/
  keywords : List (List Text × Text)
  lower : Text → Text

inductive Response where
  | hit (cat : Entry) (matchedKeyword : Option Text) (isFuzzy : Bool) (suggestions : List Candidate)
      (navigateUrl : Text)
  /-- `_hit` without a category. -/
  | noCategory
  | noMatch (suggestions : List Candidate) (queryUrl : Text)
  deriving DecidableEq, Repr

/-- `s.split()`. -/
def words (s : Text) : List Text := (s.splitOnP isSpace).filter (· ≠ [])

variable (T : Tables)

/-- The score of a category in twentieths: sums of 0.9, 0.5, 0.3 and 0.15, rounded to three places. -/
def score (q : Text) (cat : Entry) : ℕ :=
  let ws := (words q).filter fun w => 3 ≤ w.length
  let nl := T.lower cat.name
  let dl := T.lower cat.description
  (if q <:+: nl then 18 else if q <:+: dl then 10 else 0) +
    (ws.map fun w => (if w <:+: nl then 6 else 0) + (if w <:+: dl then 3 else 0)).foldl (· + ·) 0 +
    (cat.tags.map fun tag => if tag <:+: q ∨ ∃ w ∈ ws, w <:+: tag then 3 else 0).foldl (· + ·) 0

/-- `_score_all`. -/
def scoreAll (q : Text) : List Candidate :=
  ((T.categories.map fun cat => ⟨cat, score T q cat⟩).filter fun c => 0 < c.score).mergeSort
    fun a b => decide (b.score ≤ a.score)

/-- `_hit`. -/
def hit (cat : Option Entry) (q : Text) (keyword : Option Text) (isFuzzy : Bool) (suggestions : List Candidate) : Response :=
  match cat with
  | none => .noCategory
  | some cat =>
    .hit cat keyword isFuzzy (if suggestions = [] then (scoreAll T q).take 6 else suggestions)
      ("/inventory?cat=".toList ++ cat.id)

/-- `len(phrase) + n_words * 4`. -/
def phraseScore (phrase : Text) : ℕ := phrase.length + (words phrase).length * 4

/-- The phrases of known categories that occur in a text, in the order of the loops. -/
def phrasesIn (q : Text) : List (Entry × Text) :=
  T.keywords.flatMap fun row =>
    match T.getCategory row.2 with
    | none => []
    | some cat => (row.1.filter (· <:+: q)).map (cat, ·)

/-- `if best is None or score > best[0]: best = (score, cat, phrase)`. -/
def better (best : Option (Entry × Text)) (p : Entry × Text) : Option (Entry × Text) :=
  match best with
  | none => some p
  | some b => if phraseScore b.2 < phraseScore p.2 then some p else some b

/-- `_san`. -/
def san (q : Text) : Text :=
  (q.filter fun c => !(c = '\'' || c = '"' || c = '\\' || c = '\n' || c = '\r' || c = ';')).take 100

/-- The query of a search that found nothing. -/
def fallback (q : Text) : Text :=
  "MATCH (f:File) WHERE toLower(f.name) CONTAINS toLower('".toList ++ san q ++
    "') AND f.tenant_id = $tid RETURN f LIMIT 50".toList

/-- `resolve_query`. -/
def resolveQuery (query : Text) : Response :=
  let q := T.lower (strip query)
  match T.categories.find? fun cat => T.lower cat.name = q with
  | some cat => hit T (some cat) q none false []
  | none =>
    match (phrasesIn T q).foldl better none with
    | some (cat, phrase) => hit T (some cat) q (some phrase) false []
    | none =>
      match scoreAll T q with
      | c :: cs =>
        if 8 ≤ c.score then hit T (T.getCategory c.cat.id) q none true ((c :: cs).take 6)
        else .noMatch ((c :: cs).take 6) (queryUrl (fallback q))
      | [] => .noMatch [] (queryUrl (fallback q))

/-! ### Links keep their query -/

section Links

variable {cypher id tail t : Text} {c : Char}

/-- No mark of a URL is left in a text that is quoted. -/
theorem not_mem_quote (h : c ∈ ['?', '#', '&', '=']) : c ∉ quote isSafe t := by
  have hall : (['?', '#', '&', '='].all fun c => c != '%' && !c.isAlphanum && !isSafe c) = true := by decide
  have hc := List.all_eq_true.1 hall c h
  simp only [Bool.and_eq_true, bne_iff_ne, ne_eq, Bool.not_eq_true'] at hc
  exact UrlQuote.not_mem_quote hc.1.1 hc.1.2 hc.2

theorem formDecode_quote : formDecode (quote isSafe t) = some t := UrlQuote.formDecode_quote rfl rfl t

theorem formDecode_q : formDecode "q".toList = some "q".toList :=
  UrlQuote.formDecode_of_not_mem (by decide) (by decide)

theorem fields_q : UrlQuote.fields ("q=".toList ++ quote isSafe cypher) = [("q".toList, quote isSafe cypher)] := by
  have hquote : '&' ∉ quote isSafe cypher := not_mem_quote (by decide)
  have hname : '=' ∉ ['q'] := by decide
  refine UrlQuote.fields_single hname ?_
  simp [hquote]

theorem search_queryUrl (hmark : '#' ∉ tail) :
    UrlQuote.search (queryUrl cypher ++ tail) = "q=".toList ++ quote isSafe cypher ++ tail := by
  have hquote : '#' ∉ quote isSafe cypher := not_mem_quote (by decide)
  have hpath : '?' ∉ "/query".toList := by decide
  have hhash : '#' ∉ "/query".toList ++ '?' :: ("q=".toList ++ quote isSafe cypher ++ tail) := by
    simp [hquote, hmark]
  exact UrlQuote.search_append hpath hhash

theorem cutAt_of_not_mem {sep : Text} (h : '?' ∉ t) : cutAt ('?' :: sep) t = none := by
  induction t with
  | nil => rfl
  | cons c t ih =>
    obtain ⟨hc, ht⟩ := List.ne_and_not_mem_of_not_mem_cons h
    rw [cutAt, ih ht, if_neg (by simp [hc])]
    rfl

/-- The pages cut a link at the right places. -/
theorem pageQuery_append (hmark : '?' ∉ tail) (htail : tail.head? = none ∨ tail.head? = some '&') :
    pageQuery (queryUrl cypher ++ tail) = some cypher := by
  have hcut : cutAt "?q=".toList (queryUrl cypher ++ tail) = some ("/query".toList, quote isSafe cypher ++ tail) := rfl
  have hrest : cutAt "?q=".toList (quote isSafe cypher ++ tail) = none :=
    cutAt_of_not_mem (List.not_mem_append (not_mem_quote (by decide)) hmark)
  have hamp : '&' ∉ quote isSafe cypher := not_mem_quote (by decide)
  have htake : (quote isSafe cypher ++ tail).takeWhile (· ≠ '&') = quote isSafe cypher := by
    cases tail with
    | nil => rw [List.append_nil, UrlQuote.takeWhile_ne hamp]
    | cons c tail =>
      obtain rfl : c = '&' := by simpa using htail
      exact UrlQuote.takeWhile_ne_append_cons hamp
  rw [pageQuery, hcut, Option.bind_some, hrest, Option.map_none, Option.getD_none, htake, formDecode_quote]

theorem pageQuery_queryUrl : pageQuery (queryUrl cypher) = some cypher := by
  have h : pageQuery (queryUrl cypher ++ []) = some cypher := pageQuery_append List.not_mem_nil (.inl rfl)
  rwa [List.append_nil] at h

theorem param_queryUrl : param "q".toList (queryUrl cypher) = some cypher := by
  have hsearch : UrlQuote.search (queryUrl cypher) = "q=".toList ++ quote isSafe cypher := by
    have h : UrlQuote.search (queryUrl cypher ++ []) = "q=".toList ++ quote isSafe cypher ++ [] :=
      search_queryUrl List.not_mem_nil
    rwa [List.append_nil, List.append_nil] at h
  rw [UrlQuote.param_of_name (by rw [hsearch, fields_q]) formDecode_q, formDecode_quote]

/-- An id that a link can hold as it is. -/
def PlainId (id : Text) : Prop := ∀ c ∈ id, isSafe c = true

theorem PlainId.not_mem (h : PlainId id) (hc : c ∈ ['?', '#', '&', '=', '%', '+']) : c ∉ id := by
  have hall : (['?', '#', '&', '=', '%', '+'].all fun c => !isSafe c) = true := by decide
  have hunsafe := List.all_eq_true.1 hall c hc
  intro hmem
  rw [h c hmem] at hunsafe
  cases hunsafe

theorem fields_categoryUrl (hid : PlainId id) : UrlQuote.fields (UrlQuote.search (categoryUrl cypher id)) =
    [("q".toList, quote isSafe cypher), ("category".toList, id)] := by
  have hmark : '#' ∉ "&category=".toList ++ id := by simp [hid.not_mem (c := '#') (by decide)]
  have hurl : categoryUrl cypher id = queryUrl cypher ++ ("&category=".toList ++ id) := List.append_assoc ..
  have htail : "&category=".toList ++ id = '&' :: ("category".toList ++ '=' :: id) := rfl
  have hname : '=' ∉ "category".toList := by decide
  have hamp : '&' ∉ "category".toList ++ '=' :: id := by simp [hid.not_mem (c := '&') (by decide)]
  rw [hurl, search_queryUrl hmark, htail, UrlQuote.fields_append, fields_q, UrlQuote.fields_single hname hamp]
  rfl

theorem plainId_of_getCategory {cid : String} {cat : Inventory.Category} (h : Inventory.getCategory cid = some cat) :
    PlainId cid.toList := by
  have hall : Inventory.allCategories.all (fun c => c.id.toList.all isSafe) = true := by decide
  unfold Inventory.getCategory at h
  have hfound := List.find?_some h
  have hid : cat.id = cid := of_decide_eq_true hfound
  rw [← hid]
  exact List.all_eq_true.1 (List.all_eq_true.1 hall cat (List.mem_reverse.1 (List.mem_of_find?_eq_some h)))

/-- Links give back the query and the category they were made for, to a browser and to the pages that cut them. -/
theorem links_keep (cypher : Text) (cid : String) (cat : Inventory.Category) (h : Inventory.getCategory cid = some cat) :
    (param "q".toList (queryUrl cypher) = some cypher ∧ pageQuery (queryUrl cypher) = some cypher) ∧
      param "q".toList (categoryUrl cypher cid.toList) = some cypher ∧
        param "category".toList (categoryUrl cypher cid.toList) = some cid.toList ∧
          pageQuery (categoryUrl cypher cid.toList) = some cypher := by
  have hid := plainId_of_getCategory h
  have hfields : UrlQuote.fields (UrlQuote.search (categoryUrl cypher cid.toList)) =
      [("q".toList, quote isSafe cypher), ("category".toList, cid.toList)] := fields_categoryUrl hid
  have hpage : pageQuery (categoryUrl cypher cid.toList) = some cypher := by
    have hmark : '?' ∉ "&category=".toList ++ cid.toList := by simp [hid.not_mem (c := '?') (by decide)]
    rw [categoryUrl, List.append_assoc]
    exact pageQuery_append hmark (.inr rfl)
  have hquery : param "q".toList (categoryUrl cypher cid.toList) = some cypher :=
    (UrlQuote.param_of_name hfields formDecode_q).trans formDecode_quote
  have hcategory : param "category".toList (categoryUrl cypher cid.toList) = some cid.toList := by
    have hname : formDecode "category".toList = some "category".toList :=
      UrlQuote.formDecode_of_not_mem (by decide) (by decide)
    have hne : formDecode "q".toList ≠ some "category".toList := by
      rw [formDecode_q]
      decide
    have hvalue : formDecode cid.toList = some cid.toList :=
      UrlQuote.formDecode_of_not_mem (hid.not_mem (by decide)) (hid.not_mem (by decide))
    rw [UrlQuote.param_of_name_ne hfields hne, List.find?_cons]
    simp only [hname, decide_true, Option.bind_some, hvalue]
  exact ⟨⟨param_queryUrl, pageQuery_queryUrl⟩, hquery, hcategory, hpage⟩

theorem links_keep_video : pageQuery (categoryUrl Inventory.video.cypher.toList "video".toList) =
    some Inventory.video.cypher.toList :=
  (links_keep Inventory.video.cypher.toList "video" Inventory.video rfl).2.2.2

end Links

/-! ### The query of a search that found nothing -/

section Fallback

variable {T : Tables} {q s : Text} {R : Reading} {P : Params} {g : Graph} {order : List Row → List Row} {tid : String}

/-- `toLower(f.name) CONTAINS toLower('…')`. -/
def nameTokens (s : Text) : List Token :=
  [.word "toLower".toList, .sym '(', .word ['f'], .sym '.', .name "name".toList, .sym ')', .kw .contains,
    .word "toLower".toList, .sym '(', .str s, .sym ')']

def fallbackPred (s : Text) : List Token := nameTokens s ++ .kw .and :: tenantAtom ['f']

theorem unquoted_san : ∀ c ∈ san q, c ≠ '\'' ∧ c ≠ '\\' := by
  intro c hc
  have hkeep := (List.mem_filter.1 (List.mem_of_mem_take hc)).2
  constructor
  all_goals
    rintro rfl
    revert hkeep
    decide

theorem isAtom_nameTokens : IsAtom (nameTokens s) where
  depth := rfl
  or := by simp [nameTokens]
  xor := by simp [nameTokens]
  and := by simp [nameTokens]
  not := by simp [nameTokens]
  bracket := by simp [nameTokens]

theorem lex_fallback : lex (fallback q) = some (.kw .match :: (Piece.node ['f'] "File".toList).tokens ++
    .kw .where :: fallbackPred (san q) ++ .kw .return :: [.word ['f'], .kw .limit, .word ['5', '0']]) := by
  have hhead : scan .code "MATCH (f:File) WHERE toLower(f.name) CONTAINS toLower(".toList =
      (.kw .match :: (Piece.node ['f'] "File".toList).tokens ++ .kw .where :: (nameTokens []).take 9, .code) := by decide
  have hliteral : scan .code ('\'' :: san q ++ ['\'']) = ([.str (san q)], .code) := scan_plain_literal (.inl rfl) unquoted_san
  have htail : lex ") AND f.tenant_id = $tid RETURN f LIMIT 50".toList =
      some (.sym ')' :: .kw .and :: tenantAtom ['f'] ++ .kw .return :: [.word ['f'], .kw .limit, .word ['5', '0']]) := by
    decide
  have htext : fallback q = "MATCH (f:File) WHERE toLower(f.name) CONTAINS toLower(".toList ++
      (('\'' :: san q ++ ['\'']) ++ ") AND f.tenant_id = $tid RETURN f LIMIT 50".toList) := by
    have hopen : "MATCH (f:File) WHERE toLower(f.name) CONTAINS toLower('".toList =
        "MATCH (f:File) WHERE toLower(f.name) CONTAINS toLower(".toList ++ ['\''] := by decide
    have hclose : "') AND f.tenant_id = $tid RETURN f LIMIT 50".toList =
        '\'' :: ") AND f.tenant_id = $tid RETURN f LIMIT 50".toList := by decide
    have hmove : ∀ a b s : Text, (a ++ ['\'']) ++ s ++ '\'' :: b = a ++ (('\'' :: s ++ ['\'']) ++ b) := by simp
    exact (congrArg₂ (fun a b => a ++ san q ++ b) hopen hclose).trans (hmove _ _ _)
  rw [htext, lex_append_of_code hhead, lex_append_of_code hliteral, htail]
  rfl

theorem parse_fallback : (lex (fallback q)).bind parseStatement =
    some (scanStatement ['f'] "File".toList (fallbackPred (san q)) 50) := by
  have hvar : IsVar ['f'] := by decide
  have hlabel : IsName "File".toList := by decide
  have hfree : clauseFree 0 (fallbackPred (san q)) = true := rfl
  have hdepth : endDepth 0 (fallbackPred (san q)) = 0 := rfl
  have hcount : Nat.ofDigitChars 10 ['5', '0'] 0 = 50 := by decide
  rw [lex_fallback, Option.bind_some, parse_scan hvar hlabel hfree hdepth (by decide), hcount]

theorem evalAtom_tenantAtom {x : Text} {n : Node} (hx : x.head?.any Char.isDigit = false)
    (hP : P "tid".toList = some (.str tid)) :
    evalAtom R P g [(x, n)] (parseAtom (tenantAtom x)) = some true ↔ Owned tid n := by
  have hparse : parseAtom (tenantAtom x) = .compare x "tenant_id".toList .eq (.param "tid".toList) := by
    show (if x.head?.any Char.isDigit || "tenant_id".toList.head?.any Char.isDigit then _ else _) = _
    rw [hx]
    rfl
  have hkey : String.ofList "tenant_id".toList = "tenant_id" := String.ofList_toList
  have hlookup : List.lookup x [(x, n)] = some n := List.lookup_cons_self
  rw [hparse, Owned]
  simp only [evalAtom, hlookup, Option.bind_eq_bind, Option.bind_some, Operand.value, hP, hkey]
  rcases n.props "tenant_id" with _ | v
  · simp
  · rw [Option.bind_some, GraphBackend.compareValues_eq_str, Option.some.injEq]

theorem predAtoms_fallback : predAtoms (fallbackPred s) = [nameTokens s, tenantAtom ['f']] := by
  rw [fallbackPred, isAtom_nameTokens.single.predAtoms_and (isAtom_tenantAtom _).single, isAtom_nameTokens.predAtoms,
    (isAtom_tenantAtom _).predAtoms]
  rfl

theorem evalPred_fallback {n : Node} (hP : P "tid".toList = some (.str tid)) :
    evalPred R P g [(['f'], n)] (fallbackPred s) = some true ↔
      R.other g P [(['f'], n)] (nameTokens s) = some true ∧ Owned tid n := by
  rw [fallbackPred, isAtom_nameTokens.single.evalPred_and (isAtom_tenantAtom _).single, isAtom_nameTokens.evalPred,
    (isAtom_tenantAtom _).evalPred, evalAtom_tenantAtom rfl hP]
  rfl

/-- The rows of the query: the first 50 files of the tenant whose name the database takes to contain the text. -/
theorem run_fallback (hP : P "tid".toList = some (.str tid)) : sessionRun R order g (fallback q) P =
    if R.accepts (nameTokens (san q)) [['f']] = true then
      some ((order ((g.nodes.filter fun n => "File" ∈ n.labels ∧ Owned tid n ∧
        R.other g P [(['f'], n)] (nameTokens (san q)) = some true).map (nodeRow ['f']))).take 50)
    else none := by
  have hsession : sessionRun R order g (fallback q) P = ((lex (fallback q)).bind parseStatement).bind fun st =>
      st.run R P g order := by
    rw [sessionRun, Option.bind_assoc]
    rfl
  have hscope : acceptsAtom R P [['f']] (parseAtom (tenantAtom ['f'])) = true := by
    show ([['f']].contains ['f'] && (P "tid".toList).isSome) = true
    rw [hP]
    rfl
  have hname : acceptsAtom R P [['f']] (parseAtom (nameTokens (san q))) = R.accepts (nameTokens (san q)) [['f']] := rfl
  have hlabel : String.ofList "File".toList = "File" := String.ofList_toList
  rw [hsession, parse_fallback, Option.bind_some, run_scan, predAtoms_fallback]
  simp only [List.all_cons, List.all_nil, hscope, hname, Bool.and_true, evalPred_fallback hP, hlabel, and_comm (b := Owned tid _)]

theorem hit_ne_noMatch {cat : Option Entry} {keyword : Option Text} {isFuzzy : Bool} {suggestions cs : List Candidate}
    {url : Text} : hit T cat q keyword isFuzzy suggestions ≠ .noMatch cs url := by
  cases cat <;> simp [hit]

theorem url_of_noMatch {query url : Text} {suggestions : List Candidate}
    (h : resolveQuery T query = .noMatch suggestions url) : url = queryUrl (fallback (T.lower (strip query))) := by
  unfold resolveQuery at h
  dsimp only at h
  split at h
  · exact absurd h hit_ne_noMatch
  · split at h
    · exact absurd h hit_ne_noMatch
    · split at h
      · split_ifs at h with hscore
        · exact absurd h hit_ne_noMatch
        · exact (Response.noMatch.inj h).2.symm
      · exact (Response.noMatch.inj h).2.symm

/-- A search that finds no category links to a query of the caller's files, whatever was typed. -/
theorem noMatch_query (T : Tables) (query : Text) (suggestions : List Candidate) (url : Text)
    (h : resolveQuery T query = .noMatch suggestions url) :
    ∃ cypher, param "q".toList url = some cypher ∧ pageQuery url = some cypher ∧
      ∀ R P g order tid, P "tid".toList = some (.str tid) → sessionRun R order g cypher P =
        if R.accepts (nameTokens (san (T.lower (strip query)))) [['f']] = true then
          some ((order ((g.nodes.filter fun n => "File" ∈ n.labels ∧ Owned tid n ∧
            R.other g P [(['f'], n)] (nameTokens (san (T.lower (strip query)))) = some true).map
              (nodeRow ['f']))).take 50)
        else none := by
  refine ⟨fallback (T.lower (strip query)), ?_, ?_, fun R P g order tid hP => run_fallback hP⟩
  · rw [url_of_noMatch h, param_queryUrl]
  · rw [url_of_noMatch h, pageQuery_queryUrl]

/-- A search among no categories. -/
theorem resolveQuery_nil (lower : Text → Text) (query : Text) : resolveQuery ⟨[], fun _ => none, [], lower⟩ query =
    .noMatch [] (queryUrl (fallback (lower (strip query)))) := by
  simp [resolveQuery, phrasesIn, scoreAll]

theorem noMatch_query_quoted : ∃ cypher,
    param "q".toList (queryUrl (fallback (strip "o'neill".toList))) = some cypher := by
  obtain ⟨cypher, hparam, -⟩ := noMatch_query _ _ _ _ (resolveQuery_nil id "o'neill".toList)
  exact ⟨cypher, hparam⟩

end Fallback

end Dgraphai.InventorySearch
