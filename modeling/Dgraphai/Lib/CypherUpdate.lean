import Dgraphai.Lib.CypherStatement

/-!
# Updating statements

`parseUpdate` reads `MERGE (x:label {key}) [SET …]` and `MATCH (a {key}) MATCH (b {key}) MERGE (a)-[r:type]->(b)
SET r += $map`; what the database does with other texts is a parameter. A label spliced into a text without
backticks is its label exactly if it is an identifier: a name in a text without backticks is one word
(`name_of_mem_lex`), and no name has a backtick in it (`tick_not_mem_of_name`).
-/

namespace Cypher

open PropertyGraph (Graph Props)

/-- What the database decides about statements that are not read here; `none` raises. -/
structure Database extends Reading where
  run : Text → Params → Option (Graph → Graph)

/-- An item of SET. -/
inductive Assignment where
  /-- `x += $p`. -/
  | add (p : Text)
  /-- `x.k = v`. -/
  | put (k : Text) (v : Operand)
  deriving DecidableEq, Repr

inductive Update where
  | node (label : Text) (key : Entries) (sets : List Assignment)
  | rel (source target : Entries) (type : Text) (props : Text)
  deriving DecidableEq, Repr

/-- The label or the type of what is merged. -/
def Update.label : Update → Text
  | node label _ _ => label
  | rel _ _ type _ => type

/-! ### Reading -/

/-- An item of SET about `x`. -/
def parseAssignment (x : Text) : List Token → Option Assignment
  | [.word y, .sym '+', .sym '=', .sym '$', .name p] => if y = x then some (.add p) else none
  | .word y :: .sym '.' :: .name k :: .sym '=' :: v => if y = x then some (.put k (operand v)) else none
  | _ => none

/-- A label or a type; without backticks it does not begin with a digit. -/
def asLabel : List Text → Option Text
  | [l] => if isNumber l then none else some l
  | _ => none

/-- What stands after `MERGE` in a merge of a node. -/
def parseMergeNode (ts : List Token) : Option Update := do
  let (n, rest) ← parseNode ts
  let label ← asLabel n.labels
  match n.var, rest with
  | _, [] => some (.node label n.props [])
  | some x, .kw .set :: items => ((items.splitOn (.sym ',')).mapM (parseAssignment x)).map (.node label n.props)
  | _, _ => none

/-- What stands after `MERGE` in a merge of a relationship between `x` and `y`. -/
def parseMergeRel (x y : Text) (source target : Entries) (ts : List Token) : Option Update := do
  let (a, ts) ← parseNode ts
  let (r, ts) ← parseRel ts
  let (b, ts) ← parseNode ts
  let type ← asLabel r.types
  match ts with
  | [.kw .set, .word z, .sym '+', .sym '=', .sym '$', .name p] =>
    if a = ⟨some x, [], []⟩ ∧ b = ⟨some y, [], []⟩ ∧ r.var = some z ∧ z ≠ x ∧ z ≠ y ∧ r.props = [] ∧
        r.direction = .right then some (.rel source target type p) else none
  | _ => none

def parseUpdate : List Token → Option Update
  | .kw .merge :: ts => parseMergeNode ts
  | .kw .match :: ts => do
    let (a, ts) ← parseNode ts
    match ts with
    | .kw .match :: ts => do
      let (b, ts) ← parseNode ts
      match a.var, b.var, ts with
      | some x, some y, .kw .merge :: ts =>
        if a.labels = [] ∧ b.labels = [] ∧ x ≠ y then parseMergeRel x y a.props b.props ts else none
      | _, _, _ => none
    | _ => none
  | _ => none

def readUpdate (text : Text) : Option Update := (lex text).bind parseUpdate

/-- A text is one `MERGE` with this label. -/
def OneMerge (text label : Text) : Prop := ∃ u, readUpdate text = some u ∧ u.label = label

/-! ### What a statement does -/

section Effect

variable (D : Database) (P : Params)

/-- The map of a pattern. -/
def fieldsOf (es : Entries) : Option Json.Fields :=
  es.mapM fun e => (e.2.value D.toReading P).map (String.ofList e.1, ·)

def Assignment.apply : Assignment → Option (Props → Props)
  | add p =>
    match P p with
    | some (.obj m) => some (·.add m)
    | _ => none
  | put k v => (v.value D.toReading P).map fun j n => n.set (String.ofList k) j

/-- `MERGE` on a property that is null raises. -/
def Update.effect : Update → Option (Graph → Graph)
  | node label key sets => do
    let key ← fieldsOf D P key
    let sets ← sets.mapM (Assignment.apply D P)
    if key.any (·.2 = .null) then none
    else
      let set := fun n : Props => sets.foldl (fun n f => f n) n
      some fun g => g.merge (String.ofList label) key set set
  | rel source target type p => do
    let source ← fieldsOf D P source
    let target ← fieldsOf D P target
    match P p with
    | some (.obj m) => some fun g => g.mergeRels (String.ofList type) m source target
    | _ => none

/-- `session.run` of an update. -/
def Database.exec (text : Text) : Option (Graph → Graph) :=
  match readUpdate text with
  | some u => u.effect D P
  | none => D.run text P

end Effect

/-! ### Names in a text -/

section Names

variable {m : Mode} {c : Char} {cs w : Text} {t : Token} {us : List Token}

theorem held_step_tick (m : Mode) : (step m '\x60').2.held = [] := by
  have hcode : ∀ named, (codeStep named '\x60').2.held = [] := by
    intro named
    cases named <;> rfl
  cases m with
  | code => exact hcode false
  | dot => exact hcode true
  | word isName acc => exact hcode false
  | slash => exact hcode false
  | unicode q acc left value => rfl
  | escape q acc => rfl
  | quoted q acc =>
    rw [step]
    split_ifs <;> rfl
  | tick acc => rfl
  | line | block | star | bad => rfl

theorem tick_not_mem_held_step (h : '\x60' ∉ m.held) : '\x60' ∉ (step m c).2.held := by
  by_cases hc : c = '\x60'
  · rw [hc, held_step_tick]
    exact List.not_mem_nil
  · intro hmem
    rcases List.mem_append.1 ((held_step m c).subset hmem) with hmem | hmem
    · exact h hmem
    · exact hc (List.mem_singleton.1 hmem).symm

/-- The tokens a text leaves behind a mode that holds no backtick. -/
theorem tick_not_mem_of_scan (h : '\x60' ∉ m.held) (hfinish : finish (scan m cs).2 = some us)
    (ht : t ∈ (scan m cs).1 ++ us) (hw : t.IsWord w) : '\x60' ∉ w := by
  induction cs generalizing m with
  | nil =>
    have hword := infix_of_mem_scan hfinish ht hw
    rw [List.append_nil] at hword
    exact fun hmem => h (hword.subset hmem)
  | cons c cs ih =>
    rw [scan, List.append_assoc] at ht
    rcases List.mem_append.1 ht with ht | ht
    · rw [isWord_step ht hw]
      exact h
    · exact ih (tick_not_mem_held_step h) hfinish ht

theorem tick_not_mem_of_name (h : lex cs = some us) (hw : .name w ∈ us) : '\x60' ∉ w := by
  obtain ⟨owed, hfinish, rfl⟩ := Option.map_eq_some_iff.1 h
  exact tick_not_mem_of_scan List.not_mem_nil hfinish hw (.inr rfl)

/-- A mode reached without a backtick: it holds a word, or nothing. -/
def Mode.Bare : Mode → Prop
  | .word _ acc => acc ≠ [] ∧ ∀ c ∈ acc, isWordChar c = true
  | .tick _ => False
  | _ => True

theorem bare_codeStep (named : Bool) (hc : c ≠ '\x60') : (codeStep named c).2.Bare := by
  unfold codeStep
  by_cases hword : isWordChar c = true
  · rw [if_neg (by simp [isSpace_of_isWordChar hword]), if_pos hword]
    exact ⟨List.cons_ne_nil c [], fun d hd => List.mem_singleton.1 hd ▸ hword⟩
  · rw [if_neg hword, if_neg hc]
    split_ifs
    · cases named <;> trivial
    all_goals trivial

theorem Mode.Bare.step (h : m.Bare) (hc : c ≠ '\x60') : (step m c).2.Bare := by
  cases m with
  | code => exact bare_codeStep false hc
  | dot => exact bare_codeStep true hc
  | word isName acc =>
    rw [Cypher.step]
    split_ifs with hword
    · exact ⟨List.cons_ne_nil c acc, List.forall_mem_cons.2 ⟨hword, h.2⟩⟩
    · exact bare_codeStep false hc
  | slash =>
    rw [Cypher.step]
    split_ifs
    · trivial
    · trivial
    · exact bare_codeStep false hc
  | escape q acc =>
    rw [Cypher.step]
    split_ifs
    · trivial
    · cases unescape c <;> trivial
  | unicode q acc left value =>
    rw [Cypher.step]
    cases hexValue c with
    | none => trivial
    | some d =>
      dsimp only
      split_ifs <;> trivial
  | quoted q acc | line | block | star =>
    rw [Cypher.step]
    split_ifs <;> trivial
  | bad => trivial
  | tick acc => exact h.elim

/-- The names without backticks are words. -/
theorem name_of_scan (h : m.Bare) (htick : '\x60' ∉ cs) (hfinish : finish (scan m cs).2 = some us)
    (ht : .name w ∈ (scan m cs).1 ++ us) : w ≠ [] ∧ ∀ c ∈ w, isWordChar c = true := by
  have hheld : ∀ {isName acc}, Mode.Bare (.word isName acc) → w = acc.reverse →
      w ≠ [] ∧ ∀ c ∈ w, isWordChar c = true := by
    rintro isName acc hbare rfl
    exact ⟨fun hnil => hbare.1 (List.reverse_eq_nil_iff.1 hnil), fun c hc => hbare.2 c (List.mem_reverse.1 hc)⟩
  induction cs generalizing m with
  | nil =>
    have ht : .name w ∈ us := ht
    have hfinish : finish m = some us := hfinish
    cases m with
    | word isName acc =>
      obtain rfl := Option.some.inj hfinish
      exact hheld h (isWord_flush (.inr (List.mem_singleton.1 ht).symm))
    | slash =>
      obtain rfl := Option.some.inj hfinish
      cases List.mem_singleton.1 ht
    | code | dot | line =>
      obtain rfl := Option.some.inj hfinish
      cases ht
    | _ => cases hfinish
  | cons c cs ih =>
    rw [scan, List.append_assoc] at ht
    rcases List.mem_append.1 ht with ht | ht
    · rcases mode_of_isWord_step ht (.inr rfl) with ⟨isName, acc, rfl⟩ | ⟨acc, rfl⟩
      · exact hheld h (isWord_step ht (.inr rfl))
      · exact h.elim
    · have hc : c ≠ '\x60' := fun hc => htick (hc ▸ List.mem_cons_self)
      exact ih (h.step hc) (fun hmem => htick (List.mem_cons_of_mem c hmem)) hfinish ht

theorem name_of_mem_lex (h : lex cs = some us) (htick : '\x60' ∉ cs) (hw : .name w ∈ us) :
    w ≠ [] ∧ ∀ c ∈ w, isWordChar c = true := by
  obtain ⟨owed, hfinish, rfl⟩ := Option.map_eq_some_iff.1 h
  exact name_of_scan (m := .code) trivial htick hfinish hw

/-- A word after a colon, and a character behind it that ends it. -/
theorem scan_dot_name (hne : w ≠ []) (hw : ∀ c ∈ w, isWordChar c = true) (hc : isWordChar c = false) :
    scan .dot (w ++ c :: cs) = (.name w :: (scan .code (c :: cs)).1, (scan .code (c :: cs)).2) := by
  rcases w with _ | ⟨d, w⟩
  · exact absurd rfl hne
  have hd : isWordChar d = true := hw d List.mem_cons_self
  have hfirst : step .dot d = ([], .word true [d]) := by
    rw [step, codeStep, isSpace_of_isWordChar hd, hd]
    rfl
  have hlast : step (.word true (w.reverse ++ [d])) c = (.name (d :: w) :: (codeStep false c).1, (codeStep false c).2) := by
    rw [step, if_neg (by simp [hc]), flush, if_pos rfl]
    simp
  rw [List.cons_append, scan, hfirst, scan_append, scan_word fun e he => hw e (List.mem_cons_of_mem d he), scan, scan,
    hlast, step]
  simp

/-- A word between a colon and a character that ends it. -/
theorem lex_name_between {pre post : Text} {ts : List Token} (hpre : scan .code pre = (ts, .dot)) (hne : w ≠ [])
    (hw : ∀ c ∈ w, isWordChar c = true) (hc : isWordChar c = false) (hpost : lex (c :: post) = some us) :
    lex (pre ++ w ++ c :: post) = some (ts ++ .name w :: us) := by
  obtain ⟨owed, hfinish, rfl⟩ := Option.map_eq_some_iff.1 hpost
  rw [lex, List.append_assoc, scan_append, hpre, scan_dot_name hne hw hc, hfinish]
  simp

end Names

/-! ### Labels are names -/

/-- A text that stands for its label where a label is expected. -/
def Identifier (w : Text) : Prop := w ≠ [] ∧ isNumber w = false ∧ ∀ c ∈ w, isWordChar c = true

theorem identifier_iff {w : Text} : (!w.isEmpty && !isNumber w && w.all isWordChar) = true ↔ Identifier w := by
  simp [Identifier, and_assoc]

instance (w : Text) : Decidable (Identifier w) := decidable_of_iff _ identifier_iff

section Labels

variable {ts rest : List Token} {l : Text}

theorem name_of_parseLabels (h : l ∈ (parseLabels ts).1) : .name l ∈ ts := by
  fun_induction parseLabels ts with
  | case1 l' ts ih =>
    rcases List.mem_cons.1 h with rfl | h
    · exact List.mem_cons_of_mem _ List.mem_cons_self
    · exact List.mem_cons_of_mem _ (List.mem_cons_of_mem _ (ih h))
  | case2 ts => exact absurd h List.not_mem_nil

theorem name_of_parseTypes (h : (parseTypes ts).1 = [l]) : .name l ∈ ts := by
  unfold parseTypes at h
  split at h
  · rename_i t ts
    obtain ⟨rfl, -⟩ := List.cons.inj h
    exact List.mem_cons_of_mem _ List.mem_cons_self
  · cases h

theorem name_of_parseNode {n : NodePattern} (h : parseNode ts = some (n, rest)) (hl : l ∈ n.labels) : .name l ∈ ts := by
  unfold parseNode at h
  split at h
  · rename_i ts
    simp only [Option.bind_eq_bind, Option.bind_eq_some_iff, Option.pure_def, Option.some.injEq, Prod.mk.injEq] at h
    obtain ⟨⟨inner, rest'⟩, hcut, props, hprops, rfl, rfl⟩ := h
    obtain ⟨used, hvar, -⟩ := Spent.parseVar inner
    have hmem : .name l ∈ inner := by
      rw [hvar]
      exact List.mem_append_right used (name_of_parseLabels hl)
    rw [Spent.cut hcut]
    exact List.mem_cons_of_mem _ (List.mem_append_left _ hmem)
  · cases h

theorem name_of_parseDetail {d : Direction} {r : RelPattern} (h : parseDetail d ts = some (r, rest))
    (hl : r.types = [l]) : .name l ∈ ts := by
  unfold parseDetail at h
  split at h
  · rename_i ts
    simp only [Option.bind_eq_bind, Option.bind_eq_some_iff, Option.pure_def, Option.some.injEq, Prod.mk.injEq] at h
    obtain ⟨⟨inner, rest'⟩, hcut, props, hprops, rfl, rfl⟩ := h
    obtain ⟨used, hvar, -⟩ := Spent.parseVar inner
    have hmem : .name l ∈ inner := by
      rw [hvar]
      exact List.mem_append_right used (name_of_parseTypes hl)
    rw [Spent.cut hcut]
    exact List.mem_cons_of_mem _ (List.mem_append_left _ hmem)
  · obtain ⟨rfl, -⟩ := Prod.mk.inj (Option.some.inj h)
    cases hl

theorem name_of_parseRel {r : RelPattern} (h : parseRel ts = some (r, rest)) (hl : r.types = [l]) : .name l ∈ ts := by
  unfold parseRel at h
  split at h
  · simp only [Option.bind_eq_bind, Option.bind_eq_some_iff] at h
    obtain ⟨⟨r', rest'⟩, hdetail, h⟩ := h
    split at h
    · obtain ⟨rfl, -⟩ := Prod.mk.inj (Option.some.inj h)
      exact List.mem_cons_of_mem _ (List.mem_cons_of_mem _ (name_of_parseDetail hdetail hl))
    · cases h
  · simp only [Option.bind_eq_bind, Option.bind_eq_some_iff] at h
    obtain ⟨⟨r', rest'⟩, hdetail, h⟩ := h
    split at h
    · obtain ⟨rfl, -⟩ := Prod.mk.inj (Option.some.inj h)
      exact List.mem_cons_of_mem _ (name_of_parseDetail hdetail hl)
    · obtain ⟨rfl, -⟩ := Prod.mk.inj (Option.some.inj h)
      exact List.mem_cons_of_mem _ (name_of_parseDetail hdetail hl)
    · cases h
  · cases h

theorem asLabel_eq_some {ls : List Text} (h : asLabel ls = some l) : ls = [l] ∧ isNumber l = false := by
  unfold asLabel at h
  split at h
  · split_ifs at h with hnumber
    obtain rfl := Option.some.inj h
    exact ⟨rfl, eq_false_of_ne_true hnumber⟩
  · cases h

theorem parseMergeNode_label {u : Update} (h : parseMergeNode ts = some u) :
    .name u.label ∈ ts ∧ isNumber u.label = false := by
  unfold parseMergeNode at h
  simp only [Option.bind_eq_bind, Option.bind_eq_some_iff] at h
  obtain ⟨⟨n, rest⟩, hnode, label, hlabel, h⟩ := h
  obtain ⟨hlabels, hnumber⟩ := asLabel_eq_some hlabel
  have hu : u.label = label := by
    split at h
    · obtain rfl := Option.some.inj h
      rfl
    · obtain ⟨sets, -, rfl⟩ := Option.map_eq_some_iff.1 h
      rfl
    · cases h
  rw [hu]
  exact ⟨name_of_parseNode hnode (hlabels ▸ List.mem_singleton_self label), hnumber⟩

theorem parseMergeRel_label {x y : Text} {source target : Entries} {u : Update}
    (h : parseMergeRel x y source target ts = some u) : .name u.label ∈ ts ∧ isNumber u.label = false := by
  unfold parseMergeRel at h
  simp only [Option.bind_eq_bind, Option.bind_eq_some_iff] at h
  obtain ⟨⟨a, ts₁⟩, ha, ⟨r, ts₂⟩, hr, ⟨b, ts₃⟩, -, type, htype, h⟩ := h
  obtain ⟨htypes, hnumber⟩ := asLabel_eq_some htype
  have hu : u.label = type := by
    split at h
    · split_ifs at h
      obtain rfl := Option.some.inj h
      rfl
    · cases h
  obtain ⟨used, rfl, -⟩ := Spent.parseNode ha
  rw [hu]
  exact ⟨List.mem_append_right used (name_of_parseRel hr htypes), hnumber⟩

theorem parseUpdate_label {u : Update} (h : parseUpdate ts = some u) : .name u.label ∈ ts ∧ isNumber u.label = false := by
  unfold parseUpdate at h
  split at h
  · exact (parseMergeNode_label h).imp (List.mem_cons_of_mem _) id
  · simp only [Option.bind_eq_bind, Option.bind_eq_some_iff] at h
    obtain ⟨⟨a, ts₁⟩, ha, h⟩ := h
    obtain ⟨used, rfl, -⟩ := Spent.parseNode ha
    dsimp only at h
    split at h
    · simp only [Option.bind_eq_some_iff] at h
      obtain ⟨⟨b, ts₂⟩, hb, h⟩ := h
      obtain ⟨used', rfl, -⟩ := Spent.parseNode hb
      dsimp only at h
      split at h
      · split_ifs at h
        refine (parseMergeRel_label h).imp (fun hmem => ?_) id
        simp [hmem]
      · cases h
    · cases h
  · cases h

/-- A text in which a label stands unquoted is one `MERGE` with that label only if it is an identifier. -/
theorem identifier_of_oneMerge {pre post w : Text} (hpre : '\x60' ∉ pre) (hpost : '\x60' ∉ post)
    (h : OneMerge (pre ++ w ++ post) w) : Identifier w := by
  obtain ⟨u, hu, rfl⟩ := h
  obtain ⟨ts, hlex, hparse⟩ := Option.bind_eq_some_iff.1 hu
  obtain ⟨hname, hnumber⟩ := parseUpdate_label hparse
  have htick : '\x60' ∉ pre ++ u.label ++ post := by
    simp only [List.mem_append, not_or]
    exact ⟨⟨hpre, tick_not_mem_of_name hlex hname⟩, hpost⟩
  obtain ⟨hne, hchars⟩ := name_of_mem_lex hlex htick hname
  exact ⟨hne, hnumber, hchars⟩

end Labels

end Cypher
