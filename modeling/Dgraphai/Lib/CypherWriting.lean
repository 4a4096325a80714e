import Dgraphai.Lib.CypherPredicate
import Dgraphai.Lib.CypherStatement

/-!
# Writing statements

Texts put together from names, and what they are read as: path patterns with commas between them (`reads_piece`,
`parsePatterns_pieces`), a predicate that is a conjunction (`Conjoins`), and a statement of one clause
(`parseStatement_written`). What a text says so far cannot be taken back by what follows (`pred_of_parseStatement`,
`Conjoins.of_append`).
-/

namespace Cypher

open PropertyGraph (Graph Node)

variable {a b v w : Text} {c : Char} {m : Mode} {ts us vs : List Token}

/-! ### Names -/

/-- What may stand behind a dot or a colon. -/
structure IsName (w : Text) : Prop where
  ne : w ≠ []
  chars : w.all isWordChar = true
  number : isNumber w = false

/-- The name of a variable. -/
structure IsVar (w : Text) : Prop extends IsName w where
  keyword : Keyword.ofText? w = none

instance (w : Text) : Decidable (IsName w) :=
  decidable_of_iff (w ≠ [] ∧ w.all isWordChar = true ∧ isNumber w = false)
    ⟨fun h => ⟨h.1, h.2.1, h.2.2⟩, fun h => ⟨h.ne, h.chars, h.number⟩⟩

instance (w : Text) : Decidable (IsVar w) :=
  decidable_of_iff (IsName w ∧ Keyword.ofText? w = none) ⟨fun h => ⟨h.1, h.2⟩, fun h => ⟨h.toIsName, h.keyword⟩⟩

theorem IsName.forall (h : IsName w) : ∀ c ∈ w, isWordChar c = true := List.all_eq_true.1 h.chars

/-! ### Texts one behind the other -/

/-- The tokens of a text wherever a character outside words follows it. -/
def tokensOf (t : Text) : Option (List Token) := (pending (scan .code t).2).map ((scan .code t).1 ++ ·)

theorem reads_iff : Reads a ts ↔ tokensOf a = some ts := Iff.rfl

instance (t : Text) (ts : List Token) : Decidable (Reads t ts) := inferInstanceAs (Decidable (_ = some ts))

theorem reads_nil : Reads [] [] := rfl

theorem Reads.after_code (h : scan .code a = (ts, .code)) (hb : Reads b us) : Reads (a ++ b) (ts ++ us) := by
  unfold Reads at hb ⊢
  obtain ⟨owed, howed, rfl⟩ := Option.map_eq_some_iff.1 hb
  rw [scan_append_of_code h, howed, Option.map_some, List.append_assoc]

/-- The second text begins outside words. -/
theorem Reads.trans (ha : Reads a ts) (hc : isWordChar c = false) (hb : Reads (c :: b) us) :
    Reads (a ++ c :: b) (ts ++ us) := by
  unfold Reads at hb ⊢
  obtain ⟨owed, howed, rfl⟩ := Option.map_eq_some_iff.1 hb
  rw [ha.append hc, howed, Option.map_some, List.append_assoc]

theorem Reads.lex (h : Reads a ts) : lex a = some ts := by
  obtain ⟨owed, howed, rfl⟩ := Option.map_eq_some_iff.1 h
  have hfinish : finish (scan .code a).2 = some owed := by
    generalize (scan .code a).2 = m at howed
    cases m with
    | code | word => exact howed
    | _ => cases howed
  rw [Cypher.lex, hfinish, Option.map_some]

theorem lex_append_of_reads (h : Reads a ts) (hb : ∀ c ∈ b.head?, isWordChar c = false) :
    lex (a ++ b) = (lex b).map (ts ++ ·) := by
  cases b with
  | nil =>
    rw [List.append_nil, h.lex]
    exact congrArg some (List.append_nil ts).symm
  | cons c b =>
    rw [Cypher.lex, h.append (hb c rfl), Cypher.lex]
    rcases finish (scan .code (c :: b)).2 with _ | us
    · rfl
    · simp only [Option.map_some, List.append_assoc]

theorem scan_code_open (hne : w ≠ []) (h : ∀ c ∈ w, isWordChar c = true) :
    scan .code w = ([], .word false w.reverse) := by
  obtain ⟨c, w, rfl⟩ := List.exists_cons_of_ne_nil hne
  obtain ⟨hc, hw⟩ := List.forall_mem_cons.1 h
  have hfirst : step .code c = ([], .word false [c]) := by
    rw [step, codeStep, isSpace_of_isWordChar hc, hc]
    rfl
  rw [scan, hfirst, scan_word hw, List.reverse_cons]
  rfl

theorem reads_word (hne : w ≠ []) (h : ∀ c ∈ w, isWordChar c = true) (hkw : Keyword.ofText? w = none) :
    Reads w [.word w] := by
  rw [Reads, scan_code_open hne h]
  show some ([] ++ [flush false w.reverse]) = _
  rw [flush, List.reverse_reverse, hkw]
  rfl

/-- What begins with a word goes on with it. -/
theorem lex_word {acc t : Text} (h : (scan (.word false acc) t) = (us, m)) (hm : finish m = some vs) :
    ∃ w rest, us ++ vs = flush false w :: rest ∧ ∀ c ∈ acc, c ∈ w := by
  induction t generalizing acc us with
  | nil =>
    obtain ⟨rfl, rfl⟩ := Prod.mk.inj h
    obtain rfl := Option.some.inj hm
    exact ⟨acc, [], rfl, fun _ => id⟩
  | cons c t ih =>
    by_cases hc : isWordChar c = true
    · have hstep : step (.word false acc) c = ([], .word false (c :: acc)) := if_pos hc
      rw [scan, hstep] at h
      obtain ⟨w, rest, hw, hacc⟩ := ih h
      exact ⟨w, rest, hw, fun d hd => hacc d (List.mem_cons_of_mem c hd)⟩
    · have hstep : step (.word false acc) c = (flush false acc :: (codeStep false c).1, (codeStep false c).2) := if_neg hc
      rw [scan, hstep] at h
      obtain ⟨rfl, -⟩ := Prod.mk.inj h
      exact ⟨acc, _, rfl, fun _ => id⟩

theorem reads_digits (hne : w ≠ []) (h : ∀ c ∈ w, c.isDigit = true) : Reads w [.word w] :=
  reads_word hne (fun c hc => isWordChar_of_isDigit (h c hc)) (ofText?_digits hne h)

/-- Digits that a point or a letter follows are no number of digits. -/
theorem lex_digits_append (hne : w ≠ []) (h : ∀ c ∈ w, c.isDigit = true) (hc : c = '.' ∨ isWordChar c = true)
    (hdigit : c.isDigit = false) (hlex : lex (w ++ c :: b) = some [.word v]) : ∃ d ∈ v, d.isDigit = false := by
  rcases hc with rfl | hc
  · have hpoint : lex ('.' :: b) = (finish (scan .dot b).2).map (.sym '.' :: (scan .dot b).1 ++ ·) := rfl
    rw [lex_append_of_reads (reads_digits hne h) (by simp [show isWordChar '.' = false from rfl]), hpoint,
      Option.map_map] at hlex
    obtain ⟨us, -, heq⟩ := Option.map_eq_some_iff.1 hlex
    cases (List.cons.inj heq).2
  · obtain ⟨us, hus, heq⟩ := Option.map_eq_some_iff.1 hlex
    have hall : ∀ d ∈ w ++ [c], isWordChar d = true := by
      intro d hd
      rcases List.mem_append.1 hd with hd | hd
      · exact isWordChar_of_isDigit (h d hd)
      · rwa [List.mem_singleton.1 hd]
    have hscan : scan .code (w ++ c :: b) = scan (.word false (w ++ [c]).reverse) b := by
      rw [List.append_cons, scan_append, scan_code_open (by simp) hall]
      rfl
    rw [hscan] at hus heq
    obtain ⟨w'', rest, hword, hacc⟩ := lex_word rfl hus
    rw [hword] at heq
    have hv : v = w''.reverse := isWord_flush (.inl (List.cons.inj heq).1)
    refine ⟨c, ?_, hdigit⟩
    rw [hv]
    exact List.mem_reverse.2 (hacc c (by simp))

theorem forall_mem_intercalate {α : Type*} {P : α → Prop} {sep : List α} {l : List (List α)} (hsep : ∀ x ∈ sep, P x)
    (h : ∀ a ∈ l, ∀ x ∈ a, P x) : ∀ x ∈ List.intercalate sep l, P x := by
  induction l with
  | nil => exact List.forall_mem_nil _
  | cons a l ih =>
    obtain ⟨ha, hl⟩ := List.forall_mem_cons.1 h
    cases l with
    | nil => simpa using ha
    | cons b l =>
      rw [List.intercalate_cons_of_ne_nil (List.cons_ne_nil b l)]
      exact List.forall_mem_append.2 ⟨List.forall_mem_append.2 ⟨ha, hsep⟩, ih hl⟩

/-- Texts, each with a separator behind it. -/
theorem scan_flatMap {α : Type*} {text : α → Text} {tokens : α → List Token} {x : Char} {sep : Text}
    (hx : isWordChar x = false) (hsep : scan .code (x :: sep) = (us, .code)) {l : List α}
    (h : ∀ a ∈ l, Reads (text a) (tokens a)) :
    scan .code (l.flatMap fun a => text a ++ x :: sep) = (l.flatMap fun a => tokens a ++ us, .code) := by
  induction l with
  | nil => rfl
  | cons a l ih =>
    obtain ⟨ha, hl⟩ := List.forall_mem_cons.1 h
    have hfirst : scan .code (text a ++ x :: sep) = (tokens a ++ us, .code) := by
      rw [ha.append hx, hsep]
    rw [List.flatMap_cons, List.flatMap_cons, scan_append_of_code hfirst, ih hl]

theorem intercalate_append_cons {α β : Type*} (f : α → List β) (sep : List β) (l r : List α) (a : α) :
    List.intercalate sep ((l ++ a :: r).map f) =
      l.flatMap (fun x => f x ++ sep) ++ (f a ++ r.flatMap fun x => sep ++ f x) := by
  have hright : ∀ (b : α) (r : List α), List.intercalate sep ((b :: r).map f) = f b ++ r.flatMap fun x => sep ++ f x := by
    intro b r
    induction r generalizing b with
    | nil => simp
    | cons d r ih =>
      rw [List.map_cons, List.map_cons, List.intercalate_cons_cons, ← List.map_cons, ih]
      simp
  induction l with
  | nil => exact hright a r
  | cons b l ih =>
    rw [List.cons_append, List.map_cons, List.intercalate_cons_of_ne_nil (by simp), ih]
    simp

theorem reads_var (h : IsVar w) : Reads w [.word w] := reads_word h.ne h.forall h.keyword

/-- A name behind a dot or a colon. -/
theorem reads_name (hc : step .code c = ([.sym c], .dot)) (h : IsName w) : Reads (c :: w) [.sym c, .name w] := by
  rcases hw : w with _ | ⟨d, w'⟩
  · exact absurd hw h.ne
  · have hchars := h.forall
    rw [hw] at hchars
    obtain ⟨hd, hw'⟩ := List.forall_mem_cons.1 hchars
    have hfirst : step .dot d = ([], .word true [d]) := by
      rw [step, codeStep, isSpace_of_isWordChar hd, hd]
      rfl
    rw [Reads, scan, hc, scan, hfirst, scan_word hw']
    show some ([.sym c] ++ [] ++ [flush true (w'.reverse ++ [d])]) = _
    rw [flush, if_pos rfl]
    simp

/-! ### Patterns -/

/-- `(x:label)`, or `(x)-[:type]->(y)` with an arrow or without. -/
inductive Piece where
  | node (x label : Text)
  | link (x type : Text) (directed : Bool) (y : Text)

namespace Piece

def text : Piece → Text
  | node x label => '(' :: (x ++ ':' :: (label ++ [')']))
  | link x type directed y =>
    '(' :: (x ++ [')', '-', '['] ++ ':' :: (type ++ (if directed then [']', '-', '>', '('] else [']', '-', '(']) ++
      (y ++ [')'])))

def tokens : Piece → List Token
  | node x label => [.sym '(', .word x, .sym ':', .name label, .sym ')']
  | link x type directed y =>
    [.sym '(', .word x, .sym ')', .sym '-', .sym '[', .sym ':', .name type, .sym ']', .sym '-'] ++
      (if directed then [.sym '>', .sym '('] else [.sym '(']) ++ [.word y, .sym ')']

def path : Piece → PathPattern
  | node x label => ⟨⟨some x, [label], []⟩, []⟩
  | link x type directed y =>
    ⟨⟨some x, [], []⟩, [(⟨none, [type], [], if directed then .right else .both⟩, ⟨some y, [], []⟩)]⟩

def Valid : Piece → Prop
  | node x label => IsVar x ∧ IsName label
  | link x type _ y => IsVar x ∧ IsName type ∧ IsVar y

end Piece

theorem reads_piece {p : Piece} (h : p.Valid) : Reads p.text p.tokens := by
  have hopen : scan .code ['('] = ([.sym '('], .code) := rfl
  have hclose : Reads [')'] [.sym ')'] := rfl
  cases p with
  | node x label =>
    obtain ⟨hx, hlabel⟩ := h
    have hlast : Reads (':' :: (label ++ [')'])) [.sym ':', .name label, .sym ')'] :=
      (reads_name rfl hlabel).trans rfl hclose
    exact (((reads_var hx).trans rfl hlast).after_code hopen :)
  | link x type directed y =>
    obtain ⟨hx, htype, hy⟩ := h
    have hend : Reads (y ++ [')']) [.word y, .sym ')'] := (reads_var hy).trans rfl hclose
    have hcode : scan .code [')', '-', '['] = ([.sym ')', .sym '-', .sym '['], .code) := rfl
    cases directed with
    | true =>
      have harrow : Reads ([']', '-', '>', '('] ++ (y ++ [')'])) ([.sym ']', .sym '-', .sym '>', .sym '('] ++ [.word y, .sym ')']) :=
        hend.after_code rfl
      have htail := ((reads_name (c := ':') rfl htype).trans rfl harrow).after_code hcode
      have hall := ((reads_var hx).trans rfl htail).after_code hopen
      simpa [Piece.text, Piece.tokens] using hall
    | false =>
      have harrow : Reads ([']', '-', '('] ++ (y ++ [')'])) ([.sym ']', .sym '-', .sym '('] ++ [.word y, .sym ')']) :=
        hend.after_code rfl
      have htail := ((reads_name (c := ':') rfl htype).trans rfl harrow).after_code hcode
      have hall := ((reads_var hx).trans rfl htail).after_code hopen
      simpa [Piece.text, Piece.tokens] using hall

theorem asVar_word (h : IsVar w) : asVar (.word w) = some w := by
  have hnumber : w.head?.any Char.isDigit = false := h.number
  rw [asVar, hnumber]
  rfl

/-- Where a path ends. -/
def PathEnds (ts : List Token) : Prop := ts = [] ∨ ts.head? = some (.sym ',')

theorem parseHops_of_pathEnds (h : PathEnds ts) (n : ℕ) : parseHops n ts = some ([], ts) := by
  cases n with
  | zero => rfl
  | succ n =>
    have hrel : parseRel ts = none := by
      rcases h with rfl | h
      · rfl
      · cases ts with
        | nil => rfl
        | cons t ts =>
          obtain rfl := Option.some.inj h
          rfl
    rw [parseHops, hrel]

theorem parseNode_var (h : IsVar w) (ts : List Token) :
    parseNode (.sym '(' :: .word w :: .sym ')' :: ts) = some (⟨some w, [], []⟩, ts) := by
  simp [parseNode, cut, parseVar, asVar_word h, parseLabels, parseMap]

theorem parse_piece {p : Piece} (h : p.Valid) (hts : PathEnds ts) :
    ∃ rest, parseNode (p.tokens ++ ts) = some (p.path.start, rest) ∧
      parseHops rest.length rest = some (p.path.hops, ts) := by
  cases p with
  | node x label =>
    refine ⟨ts, ?_, parseHops_of_pathEnds hts _⟩
    simp [Piece.tokens, Piece.path, parseNode, cut, parseVar, asVar_word h.1, parseLabels, parseMap]
  | link x type directed y =>
    obtain ⟨hx, -, hy⟩ := h
    have hrel : parseRel ((Piece.link x type directed y).tokens.drop 3 ++ ts) =
        some (⟨none, [type], [], if directed then .right else .both⟩, .sym '(' :: .word y :: .sym ')' :: ts) := by
      cases directed <;> rfl
    have htokens : (Piece.link x type directed y).tokens ++ ts =
        .sym '(' :: .word x :: .sym ')' :: ((Piece.link x type directed y).tokens.drop 3 ++ ts) := rfl
    refine ⟨_, htokens ▸ parseNode_var hx _, ?_⟩
    obtain ⟨n, hn⟩ : ∃ n, ((Piece.link x type directed y).tokens.drop 3 ++ ts).length = n + 1 := ⟨_, rfl⟩
    rw [hn, parseHops, hrel]
    simp only [Option.bind_eq_bind, Option.bind_some, parseNode_var hy, parseHops_of_pathEnds hts]
    rfl

theorem parsePaths_pieces {ps : List Piece} (hne : ps ≠ []) (h : ∀ p ∈ ps, p.Valid) {n : ℕ} (hn : ps.length ≤ n) :
    parsePaths n (List.intercalate [.sym ','] (ps.map Piece.tokens)) = some (ps.map Piece.path) := by
  induction ps generalizing n with
  | nil => exact absurd rfl hne
  | cons p ps ih =>
    obtain ⟨hp, hps⟩ := List.forall_mem_cons.1 h
    obtain ⟨n, rfl⟩ : ∃ m, n = m + 1 := ⟨n - 1, by rw [List.length_cons] at hn; omega⟩
    cases ps with
    | nil =>
      obtain ⟨rest, hnode, hhops⟩ := parse_piece hp (.inl rfl)
      rw [List.append_nil] at hnode
      rw [List.map_singleton, List.intercalate_singleton, parsePaths, hnode]
      simp only [Option.bind_eq_bind, Option.bind_some, hhops]
      rfl
    | cons q ps =>
      have hlast := ih (List.cons_ne_nil q ps) hps (Nat.le_of_succ_le_succ hn)
      have hends : PathEnds (.sym ',' :: List.intercalate [.sym ','] ((q :: ps).map Piece.tokens)) := .inr rfl
      obtain ⟨rest, hnode, hhops⟩ := parse_piece hp hends
      rw [List.map_cons, List.intercalate_cons_of_ne_nil (by simp), List.append_assoc, List.singleton_append, parsePaths,
        hnode]
      simp only [Option.bind_eq_bind, Option.bind_some, hhops, hlast]
      rfl

theorem parsePatterns_pieces {ps : List Piece} (hne : ps ≠ []) (h : ∀ p ∈ ps, p.Valid) :
    parsePatterns (List.intercalate [.sym ','] (ps.map Piece.tokens)) = some (ps.map Piece.path) := by
  refine parsePaths_pieces hne h ?_
  clear hne h
  induction ps with
  | nil => exact Nat.zero_le _
  | cons p ps ih =>
    have hp : 1 ≤ p.tokens.length := by cases p <;> simp [Piece.tokens]
    cases ps with
    | nil => simpa using hp
    | cons q ps =>
      rw [List.map_cons, List.intercalate_cons_of_ne_nil (by simp), List.length_append, List.length_cons]
      have hle := ih
      rw [List.length_append]
      omega

theorem endDepth_piece (p : Piece) : endDepth 0 p.tokens = 0 := by
  cases p with
  | node x label => rfl
  | link x type directed y => cases directed <;> rfl

theorem endDepth_intercalate {l : List (List Token)} (hus : endDepth 0 us = 0) (h : ∀ a ∈ l, endDepth 0 a = 0) :
    endDepth 0 (List.intercalate us l) = 0 := by
  induction l with
  | nil => rfl
  | cons a l ih =>
    obtain ⟨ha, hl⟩ := List.forall_mem_cons.1 h
    cases l with
    | nil => simpa using ha
    | cons b l =>
      rw [List.intercalate_cons_of_ne_nil (List.cons_ne_nil b l), endDepth_append, endDepth_append, ha, hus]
      exact ih hl

/-! ### Comparisons -/

def Comparison.tokens : Comparison → List Token
  | .eq => [.sym '=']
  | .ne => [.sym '<', .sym '>']
  | .lt => [.sym '<']
  | .le => [.sym '<', .sym '=']
  | .gt => [.sym '>']
  | .ge => [.sym '>', .sym '=']
  | .contains => [.kw .contains]
  | .startsWith => [.kw .starts, .kw .with]
  | .endsWith => [.kw .ends, .kw .with]

/-- A token that is no part of an operator. -/
def BeginsValue (t : Token) : Prop := ∀ c ∈ ['~', '=', '>'], t ≠ .sym c

theorem comparison_tokens {t : Token} (h : BeginsValue t) (op : Comparison) (ts : List Token) :
    comparison (op.tokens ++ t :: ts) = some (op, t :: ts) := by
  have htilde := h '~' (by simp)
  have heq := h '=' (by simp)
  have hgt := h '>' (by simp)
  cases op <;> simp [Comparison.tokens, comparison, htilde, heq, hgt]

theorem propertyAtom_compare {t : Token} (h : BeginsValue t) (x key : Text) (op : Comparison) (ts : List Token) :
    propertyAtom x key (op.tokens ++ t :: ts) = .compare x key op (operand (t :: ts)) := by
  simp only [propertyAtom, comparison_tokens h]

theorem operand_str_cons {s : Text} (ts : List Token) :
    (∀ v, operand (.str s :: ts) = .str v → s = v) ∧ ∀ p, operand (.str s :: ts) ≠ .param p := by
  cases ts with
  | nil => exact ⟨fun v h => Operand.str.inj h, nofun⟩
  | cons t ts => exact ⟨nofun, nofun⟩

theorem parseAtom_property {x key : Text} (hx : isNumber x = false) (hkey : isNumber key = false) (ts : List Token) :
    parseAtom (.word x :: .sym '.' :: .name key :: ts) = propertyAtom x key ts := by
  have hx' : x.head?.any Char.isDigit = false := hx
  have hkey' : key.head?.any Char.isDigit = false := hkey
  rw [parseAtom, hx', hkey']
  rfl

/-! ### Conjunctions -/

/-- A predicate that is these atoms with AND between them. -/
structure Conjoins (ts : List Token) (atoms : List Atom) : Prop where
  single : Single ts
  isAtom : ∀ a ∈ splitAll .and 0 ts, IsAtom a
  parts : (splitAll .and 0 ts).map parseAtom = atoms

theorem splitAll_intercalate {k : Keyword} {l : List (List Token)} (hne : l ≠ [])
    (h : ∀ a ∈ l, endDepth 0 a = 0 ∧ .kw k ∉ a) : splitAll k 0 (List.intercalate [.kw k] l) = l := by
  induction l with
  | nil => exact absurd rfl hne
  | cons a l ih =>
    obtain ⟨⟨hdepth, hk⟩, hl⟩ := List.forall_mem_cons.1 h
    cases l with
    | nil => simpa using splitAll_of_not_mem hk
    | cons b l =>
      rw [List.intercalate_cons_of_ne_nil (List.cons_ne_nil b l), List.append_assoc, List.singleton_append,
        splitAll_append hdepth, splitAll_of_not_mem hk, ih (List.cons_ne_nil b l) hl]
      rfl

theorem single_intercalate {l : List (List Token)} (hne : l ≠ []) (h : ∀ a ∈ l, IsAtom a) :
    Single (List.intercalate [.kw .and] l) := by
  induction l with
  | nil => exact absurd rfl hne
  | cons a l ih =>
    obtain ⟨ha, hl⟩ := List.forall_mem_cons.1 h
    cases l with
    | nil => simpa using ha.single
    | cons b l =>
      rw [List.intercalate_cons_of_ne_nil (List.cons_ne_nil b l), List.append_assoc, List.singleton_append]
      exact ha.single.append (ih (List.cons_ne_nil b l) hl)

namespace Conjoins

variable {R : Reading} {P : Params} {g : Graph} {bind : Binding} {atoms : List Atom} {l : List (List Token)}

theorem evalPred (h : Conjoins ts atoms) :
    evalPred R P g bind ts = some true ↔ ∀ at' ∈ atoms, evalAtom R P g bind at' = some true := by
  rw [h.single.evalPred_eq le_rfl, all3_eq_true, List.forall_mem_map, ← h.parts, List.forall_mem_map]
  refine forall₂_congr fun a ha => ?_
  rw [(h.isAtom a ha).factor]

theorem intercalate (hne : l ≠ []) (h : ∀ a ∈ l, IsAtom a) :
    Conjoins (List.intercalate [.kw .and] l) (l.map parseAtom) := by
  have hsplit := splitAll_intercalate hne fun a ha => ⟨(h a ha).depth, (h a ha).and⟩
  refine ⟨single_intercalate hne h, ?_, ?_⟩
  · rwa [hsplit]
  · rw [hsplit]

/-- The atoms before a part of the predicate are its first ones, and the part is the beginning of the next. -/
theorem of_append (hl : ∀ a ∈ l, IsAtom a) (hdepth : endDepth 0 ts = 0) (hand : .kw .and ∉ ts)
    (h : Conjoins (List.intercalate [.kw .and] (l ++ [ts]) ++ us) atoms) :
    ∃ vs rest, atoms = l.map parseAtom ++ parseAtom (ts ++ vs) :: rest := by
  have hparts : ∀ a ∈ l ++ [ts], endDepth 0 a = 0 ∧ .kw .and ∉ a := by
    intro a ha
    rcases List.mem_append.1 ha with ha | ha
    · exact ⟨(hl a ha).depth, (hl a ha).and⟩
    · rw [List.mem_singleton.1 ha]
      exact ⟨hdepth, hand⟩
  have hsplit := splitAll_intercalate (by simp) hparts
  have hclosed : endDepth 0 (List.intercalate [.kw .and] (l ++ [ts])) = 0 :=
    endDepth_intercalate rfl fun a ha => (hparts a ha).1
  have hne : splitAll .and 0 us ≠ [] := splitAll_ne_nil
  obtain ⟨vs, rest, hrest⟩ := List.exists_cons_of_ne_nil hne
  refine ⟨vs, rest.map parseAtom, ?_⟩
  rw [← h.parts, splitAll_append_of_snoc hsplit (by rw [hclosed, hrest]), List.map_append, List.map_cons]

end Conjoins

/-- A text that is one atom of a conjunction. -/
structure Conjunct (t : Text) (ts : List Token) (at' : Atom) : Prop where
  reads : Reads t ts
  isAtom : IsAtom ts
  free : clauseFree 0 ts = true
  head : ts.head? ≠ some (.kw .with)
  parse : parseAtom ts = at'

/-- No bracket, and no keyword but the booleans. -/
def OfValue (t : Token) : Prop := t.Plain ∧ ∀ k, t = .kw k → k = .true ∨ k = .false

theorem clauseFree_of_value (h : ∀ t ∈ ts, OfValue t) : clauseFree 0 ts = true := by
  induction ts with
  | nil => rfl
  | cons t ts ih =>
    obtain ⟨⟨hplain, hkw⟩, hts⟩ := List.forall_mem_cons.1 h
    cases t with
    | kw k => rcases hkw k rfl with rfl | rfl <;> exact ih hts
    | word w | name w | str w => exact ih hts
    | sym c =>
      have hdepth := hplain 0
      rw [clauseFree, hdepth]
      · exact ih hts
      all_goals (intros; contradiction)

section Property

variable {x key : Text} {op : Comparison} {t : Token}

theorem IsAtom.of_quiet (h : ∀ u ∈ ts, u.Plain ∧ u ≠ .kw .or ∧ u ≠ .kw .xor ∧ u ≠ .kw .and) :
    IsAtom (.word x :: .sym '.' :: .name key :: ts) where
  depth := by
    show endDepth 0 ts = 0
    exact endDepth_of_plain fun u hu => (h u hu).1
  or hmem := (h (.kw .or) (by simpa using hmem)).2.1 rfl
  xor hmem := (h (.kw .xor) (by simpa using hmem)).2.2.1 rfl
  and hmem := (h (.kw .and) (by simpa using hmem)).2.2.2 rfl
  not := by simp
  bracket := by simp

theorem isAtom_compare (h : ∀ u ∈ ts, OfValue u) :
    IsAtom (.word x :: .sym '.' :: .name key :: (op.tokens ++ ts)) := by
  refine .of_quiet fun u hu => ?_
  rcases List.mem_append.1 hu with hu | hu
  · cases op
    all_goals
      simp only [Comparison.tokens, List.mem_cons, List.not_mem_nil, or_false] at hu
      rcases hu with rfl | rfl <;> exact ⟨fun _ => rfl, by simp, by simp, by simp⟩
  · obtain ⟨hplain, hkw⟩ := h u hu
    refine ⟨hplain, ?_, ?_, ?_⟩
    all_goals
      rintro rfl
      rcases hkw _ rfl with h | h <;> cases h

theorem clauseFree_compare (h : ∀ u ∈ ts, OfValue u) :
    clauseFree 0 (.word x :: .sym '.' :: .name key :: (op.tokens ++ ts)) = true := by
  have hts := clauseFree_of_value h
  cases op <;> exact hts

theorem conjunct_compare {a v : Text} (hx : isNumber x = false) (hkey : isNumber key = false)
    (ha : Reads a (.word x :: .sym '.' :: .name key :: op.tokens)) (hv : Reads v (t :: ts)) (hbegin : BeginsValue t)
    (h : ∀ u ∈ t :: ts, OfValue u) : Conjunct (a ++ ' ' :: v) (.word x :: .sym '.' :: .name key :: (op.tokens ++ t :: ts))
      (.compare x key op (operand (t :: ts))) where
  reads := by
    have hspace : Reads (' ' :: v) (t :: ts) := hv.after_code (a := [' ']) rfl
    exact ha.trans rfl hspace
  isAtom := isAtom_compare h
  free := clauseFree_compare h
  head := by simp
  parse := by rw [parseAtom_property hx hkey, propertyAtom_compare hbegin]

end Property

theorem clauseFree_intercalate {l : List (List Token)} (h : ∀ a ∈ l, endDepth 0 a = 0 ∧ clauseFree 0 a = true)
    (hwith : ∀ a ∈ l, a.head? ≠ some (.kw .with)) : clauseFree 0 (List.intercalate [.kw .and] l) = true := by
  induction l with
  | nil => rfl
  | cons a l ih =>
    obtain ⟨⟨hdepth, ha⟩, hl⟩ := List.forall_mem_cons.1 h
    obtain ⟨-, hlwith⟩ := List.forall_mem_cons.1 hwith
    cases l with
    | nil => simpa using ha
    | cons b l =>
      rw [List.intercalate_cons_of_ne_nil (List.cons_ne_nil b l), List.append_assoc, List.singleton_append]
      refine clauseFree_append ha ?_ (by simp)
      rw [hdepth]
      exact ih hl hlwith

/-! ### Columns -/

/-- Variables with commas between them. -/
def columnTokens (xs : List Text) : List Token := List.intercalate [.sym ','] (xs.map fun x => [.word x])

theorem plain_columnTokens {xs : List Text} : ∀ t ∈ columnTokens xs, t.Plain ∧ ∀ k, t ≠ .kw k := by
  refine forall_mem_intercalate (List.forall_mem_singleton.2 ⟨fun _ => rfl, nofun⟩) fun a ha => ?_
  obtain ⟨x, -, rfl⟩ := List.mem_map.1 ha
  exact List.forall_mem_singleton.2 ⟨fun _ => rfl, nofun⟩

theorem parseColumns_columnTokens {xs ys : List Text} (hne : xs ≠ []) (h : ∀ x ∈ xs, IsVar x) :
    parseColumns ys (columnTokens xs) = some (xs.map fun x => ⟨x, none, x⟩) := by
  have hsplit : (columnTokens xs).splitOn (.sym ',') = xs.map fun x => [.word x] := by
    refine List.splitOn_intercalate _ (fun a ha => ?_) (by simpa using hne)
    obtain ⟨x, -, rfl⟩ := List.mem_map.1 ha
    simp
  have hstar : columnTokens xs ≠ [.sym '*'] := by
    intro heq
    rw [heq] at hsplit
    have hparts : [[Token.sym '*']] = xs.map fun x => [Token.word x] := hsplit
    cases xs with
    | nil => cases hparts
    | cons x xs => cases (List.cons.inj hparts).1
  rw [parseColumns, if_neg hstar, hsplit]
  clear hsplit hstar hne
  induction xs with
  | nil => rfl
  | cons x xs ih =>
    obtain ⟨hx, hxs⟩ := List.forall_mem_cons.1 h
    have hcolumn : parseColumn [.word x] = some ⟨x, none, x⟩ := by
      rw [parseColumn, asVar_word hx]
      rfl
    rw [List.map_cons, List.mapM_cons, hcolumn, ih hxs]
    rfl

/-- No limit, or a number of rows. -/
def IsLimit (ls : List Token) : Prop := ls = [] ∨ ∃ l, ls = [.kw .limit, .word l] ∧ l.all Char.isDigit = true

theorem parseProjection_columnTokens {xs ys : List Text} (hne : xs ≠ []) (h : ∀ x ∈ xs, IsVar x) (hts : IsLimit ts) :
    ∃ limit, parseProjection ys (columnTokens xs ++ ts) = some (xs.map fun x => ⟨x, none, x⟩, limit) := by
  have hnone : splitFirst .limit 0 (columnTokens xs) = none :=
    splitFirst_of_plain fun t ht => ⟨(plain_columnTokens t ht).1, (plain_columnTokens t ht).2 _⟩
  have hdepth : endDepth 0 (columnTokens xs) = 0 := endDepth_of_plain fun t ht => (plain_columnTokens t ht).1
  rcases hts with rfl | ⟨l, rfl, hl⟩
  · rw [List.append_nil, parseProjection, hnone, parseColumns_columnTokens hne h]
    exact ⟨none, rfl⟩
  · have hsplit : splitFirst .limit 0 (columnTokens xs ++ [.kw .limit, .word l]) = some (columnTokens xs, [.word l]) := by
      rw [splitFirst_append_of_none hnone, hdepth, splitFirst, if_pos ⟨rfl, rfl⟩, Option.map_some, List.append_nil]
    rw [parseProjection, hsplit]
    dsimp only
    rw [if_pos hl, parseColumns_columnTokens hne h]
    exact ⟨_, rfl⟩

theorem isLimit_of_parseProjection {xs ys : List Text} {p : List Item × Option Nat}
    (h : parseProjection ys (columnTokens xs ++ .kw .limit :: ts) = some p) : IsLimit (.kw .limit :: ts) := by
  have hnone : splitFirst .limit 0 (columnTokens xs) = none :=
    splitFirst_of_plain fun t ht => ⟨(plain_columnTokens t ht).1, (plain_columnTokens t ht).2 _⟩
  have hdepth : endDepth 0 (columnTokens xs) = 0 := endDepth_of_plain fun t ht => (plain_columnTokens t ht).1
  have hsplit : splitFirst .limit 0 (columnTokens xs ++ .kw .limit :: ts) = some (columnTokens xs, ts) := by
    rw [splitFirst_append_of_none hnone, hdepth, splitFirst, if_pos ⟨rfl, rfl⟩, Option.map_some, List.append_nil]
  rw [parseProjection, hsplit] at h
  split at h
  · rename_i body l heq
    obtain ⟨-, rfl⟩ := Prod.mk.inj (Option.some.inj heq)
    split_ifs at h with hl
    exact .inr ⟨l, rfl, hl⟩
  · cases h
  · rename_i heq
    cases heq

/-! ### Statements of one clause -/

section Written

variable {pat pred ret : List Token} {paths : List PathPattern} {items : List Item} {limit : Option Nat} {q : Statement}

theorem splitAll_match_where (hpat : ∀ k, .kw k ∉ pat) (hdepth : endDepth 0 pat = 0) (hpred : clauseFree 0 pred = true) :
    splitAll .match 0 (pat ++ .kw .where :: pred) = [pat ++ .kw .where :: pred] := by
  refine splitAll_append_of_one (splitAll_of_not_mem (hpat _)) ?_
  have hrest : splitAll .match 0 pred = [pred] := by
    have hnone := splitFirst_of_clauseFree (k := .match) (by decide) (by decide) hpred
    clear hpred hdepth hpat
    generalize 0 = d at hnone ⊢
    induction pred generalizing d with
    | nil => rfl
    | cons t pred ih =>
      rw [splitFirst] at hnone
      split_ifs at hnone with ht
      rw [splitAll, if_neg ht, ih _ (Option.map_eq_none_iff.1 hnone)]
      rfl
  rw [hdepth, splitAll, if_neg (by simp)]
  exact congrArg (consHead (.kw .where)) hrest

theorem splitFirst_where_append (hpat : ∀ k, .kw k ∉ pat) (hdepth : endDepth 0 pat = 0) :
    splitFirst .where 0 (pat ++ .kw .where :: pred) = some (pat, pred) := by
  rw [splitFirst_append_of_none (splitFirst_of_not_mem (hpat _)), hdepth, splitFirst, if_pos ⟨rfl, rfl⟩, Option.map_some,
    List.append_nil]

theorem splitFirst_return_none (hpat : ∀ k, .kw k ∉ pat) (hdepth : endDepth 0 pat = 0) (hpred : clauseFree 0 pred = true) :
    splitFirst .return 0 (.kw .match :: pat ++ .kw .where :: pred) = none := by
  have hmatch : splitFirst .return 0 (.kw .match :: pat) = none :=
    splitFirst_of_not_mem fun hmem => by
      rcases List.mem_cons.1 hmem with heq | hmem
      · cases heq
      · exact hpat _ hmem
  have hdepth' : endDepth 0 (.kw .match :: pat) = 0 := hdepth
  have hwhere : splitFirst .return 0 (.kw .where :: pred) =
      (splitFirst .return 0 pred).map fun p => (.kw .where :: p.1, p.2) := rfl
  rw [splitFirst_append_of_none hmatch, hdepth', hwhere, splitFirst_of_clauseFree (by decide) (by decide) hpred]
  rfl

theorem endDepth_match_where (hdepth : endDepth 0 pat = 0) (hpred : endDepth 0 pred = 0) :
    endDepth 0 (.kw .match :: pat ++ .kw .where :: pred) = 0 := by
  rw [endDepth_append]
  show endDepth (endDepth 0 pat) (.kw .where :: pred) = 0
  rw [hdepth]
  exact hpred

theorem parseStatement_written (hpaths : parsePatterns pat = some paths) (hdepth : endDepth 0 pat = 0)
    (hpred : clauseFree 0 pred = true) (hpredDepth : endDepth 0 pred = 0) :
    parseStatement (.kw .match :: pat ++ .kw .where :: pred ++ .kw .return :: ret) =
      (parseProjection (vars [⟨paths, some pred⟩]) ret).map fun p => ⟨[⟨paths, some pred⟩], p.1, p.2⟩ := by
  have hpat : ∀ k, .kw k ∉ pat := parsePatterns_kw hpaths
  have hreturn : splitFirst .return 0 (.kw .match :: pat ++ .kw .where :: pred ++ .kw .return :: ret) =
      some (.kw .match :: pat ++ .kw .where :: pred, ret) := by
    rw [splitFirst_append_of_none (splitFirst_return_none hpat hdepth hpred), endDepth_match_where hdepth hpredDepth,
      splitFirst, if_pos ⟨rfl, rfl⟩, Option.map_some, List.append_nil]
  have hclause : parseClause (pat ++ .kw .where :: pred) = some ⟨paths, some pred⟩ := by
    rw [parseClause, splitFirst_where_append hpat hdepth]
    dsimp only
    rw [if_pos hpred, hpaths]
    rfl
  have hclauses : parseClauses (.kw .match :: pat ++ .kw .where :: pred) = some [⟨paths, some pred⟩] := by
    refine parseClauses_eq_some.2 ⟨[pat ++ .kw .where :: pred], ?_, List.cons_ne_nil _ _, ?_⟩
    · rw [List.cons_append, splitAll, if_pos ⟨rfl, rfl⟩, splitAll_match_where hpat hdepth hpred]
    · rw [List.mapM_cons, hclause]
      rfl
  rw [parseStatement, hreturn]
  simp only [Option.bind_eq_bind, Option.bind_some, hclauses]
  rcases parseProjection (vars [⟨paths, some pred⟩]) ret with _ | p <;> rfl

/-- A statement of one clause has the predicate that its text begins with. -/
theorem pred_of_parseStatement {us rest : List Token} (hpat : ∀ k, .kw k ∉ pat) (hdepth : endDepth 0 pat = 0)
    (hus : clauseFree 0 us = true) (husDepth : endDepth 0 us = 0)
    (h : parseStatement (.kw .match :: pat ++ .kw .where :: us ++ rest) = some q)
    (hq : q.clauses = [⟨paths, some pred⟩]) : ∃ vs, pred = us ++ vs := by
  obtain ⟨head, ret, parts, hret, hsplit, -, hclauses, -⟩ := parseStatement_eq_some.1 h
  rw [splitFirst_append_of_none (splitFirst_return_none hpat hdepth hus), endDepth_match_where hdepth husDepth] at hret
  obtain ⟨⟨head', ret'⟩, -, heq⟩ := Option.map_eq_some_iff.1 hret
  obtain ⟨rfl, rfl⟩ := Prod.mk.inj heq
  have hne : splitAll .match 0 head' ≠ [] := splitAll_ne_nil
  obtain ⟨vs, more, hmore⟩ := List.exists_cons_of_ne_nil hne
  have hbegin : splitAll .match 0 (.kw .match :: pat ++ .kw .where :: us) = [[]] ++ [pat ++ .kw .where :: us] := by
    rw [List.cons_append, splitAll, if_pos ⟨rfl, rfl⟩, splitAll_match_where hpat hdepth hus]
    rfl
  rw [splitAll_append_of_snoc hbegin (by rw [endDepth_match_where hdepth husDepth, hmore]), List.singleton_append] at hsplit
  obtain ⟨-, rfl⟩ := List.cons.inj hsplit
  rw [hq, List.mapM_cons, Option.bind_eq_bind, Option.bind_eq_some_iff] at hclauses
  obtain ⟨cl, hcl, hrest⟩ := hclauses
  rw [Option.bind_eq_bind, Option.bind_eq_some_iff] at hrest
  obtain ⟨cls, -, heq⟩ := hrest
  obtain ⟨rfl, -⟩ := List.cons.inj (Option.some.inj heq)
  rw [List.append_assoc, List.cons_append, parseClause, splitFirst_where_append hpat hdepth] at hcl
  dsimp only at hcl
  split_ifs at hcl
  obtain ⟨paths', -, heq⟩ := Option.map_eq_some_iff.1 hcl
  cases heq
  exact ⟨vs, rfl⟩

end Written

end Cypher
