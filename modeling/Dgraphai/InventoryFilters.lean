import Dgraphai.InventoryQueries

/-!
# The filters the inventory offers

The operators of `_ops_for_kind`, with values without a backslash, are `Restrictive`
(`restrictive_of_offered`): the texts put in are literals, numbers and null tests between ANDs.
-/

namespace Dgraphai.Inventory

open Cypher PyText

variable {U : Unicode}

/-! ### Literals and numbers without ` LIMIT n` -/

/-- What is removed is white space, digits and letters of the word. -/
theorem numbered?_eq_append {w t rest : Text} (h : numbered? U w t = some rest) :
    ∃ a, t = a ++ rest ∧ ∀ d ∈ a, isSpace d = true ∨ U.isDecimal d = true ∨ ∃ k ∈ w, ignoreCase k d = true := by
  have hmany : ∀ {f : Char → Bool} {t rest : Text}, many f t = some rest → ∃ a, t = a ++ rest ∧ ∀ d ∈ a, f d = true := by
    intro f t rest hm
    cases t with
    | nil => cases hm
    | cons d t =>
      rw [many] at hm
      split_ifs at hm with hd
      cases hm
      refine ⟨d :: t.takeWhile f, by rw [List.cons_append, List.takeWhile_append_dropWhile], ?_⟩
      exact List.forall_mem_cons.2 ⟨hd, fun e he => List.mem_takeWhile_imp he⟩
  have hword : ∀ {w t : Text} {q : Text × Text}, word? w t = some q →
      ∃ a, t = a ++ q.2 ∧ ∀ d ∈ a, ∃ k ∈ w, ignoreCase k d = true := by
    intro w
    induction w with
    | nil =>
      intro t q hq
      cases hq
      exact ⟨[], rfl, by simp⟩
    | cons k w ih =>
      intro t q hq
      cases t with
      | nil => cases hq
      | cons d t =>
        rw [word?] at hq
        split_ifs at hq with hd
        obtain ⟨q', hq', rfl⟩ := Option.map_eq_some_iff.1 hq
        obtain ⟨a, rfl, ha⟩ := ih hq'
        refine ⟨d :: a, rfl, List.forall_mem_cons.2 ⟨⟨k, List.mem_cons_self, hd⟩, fun e he => ?_⟩⟩
        obtain ⟨l, hl, hle⟩ := ha e he
        exact ⟨l, List.mem_cons_of_mem k hl, hle⟩
  obtain ⟨t₁, h1, h⟩ := Option.bind_eq_some_iff.1 h
  obtain ⟨q, h2, h⟩ := Option.bind_eq_some_iff.1 h
  obtain ⟨t₂, h3, h4⟩ := Option.bind_eq_some_iff.1 h
  obtain ⟨a₁, rfl, ha₁⟩ := hmany h1
  obtain ⟨a₂, rfl, ha₂⟩ := hword h2
  obtain ⟨a₃, heq, ha₃⟩ := hmany h3
  obtain ⟨a₄, rfl, ha₄⟩ := hmany h4
  refine ⟨a₁ ++ (a₂ ++ (a₃ ++ a₄)), by rw [heq]; simp, fun d hd => ?_⟩
  simp only [List.mem_append] at hd
  rcases hd with hd | hd | hd | hd
  · exact .inl (ha₁ d hd)
  · exact .inr (.inr (ha₂ d hd))
  · exact .inl (ha₃ d hd)
  · exact .inr (.inl (ha₄ d hd))

theorem escaped_of_append {a b : Text} (h : Escaped (a ++ b)) (ha : '\\' ∉ a) : Escaped b := by
  induction a with
  | nil => exact h
  | cons c a ih =>
    have hc : c ≠ '\\' := fun heq => ha (heq ▸ List.mem_cons_self)
    rw [List.cons_append] at h
    generalize a ++ b = t at h ih
    cases h with
    | plain _ _ _ _ h => exact ih h fun hmem => ha (List.mem_cons_of_mem c hmem)
    | quote => exact absurd rfl hc

/-- The removal leaves a literal closed. -/
theorem escaped_removeLimit {w : Text} (h : Escaped w) : Escaped (removeNumbered U "LIMIT".toList w) := by
  induction hn : w.length using Nat.strongRecOn generalizing w with
  | _ n ih =>
    have hspace : ∀ {d : Char} {t : Text}, isSpace d = false → numbered? U "LIMIT".toList (d :: t) = none := by
      intro d t hd
      rw [numbered?, many, hd]
      rfl
    cases h with
    | nil => exact .nil
    | plain c cs hq hb hcs =>
      rcases hnum : numbered? U "LIMIT".toList (c :: cs) with _ | rest
      · rw [removeNumbered_of_none hnum]
        exact .plain c _ hq hb (ih cs.length (by rw [← hn]; exact Nat.lt_succ_self _) hcs rfl)
      · rw [removeNumbered_of_some hnum]
        obtain ⟨a, ha, hchars⟩ := numbered?_eq_append hnum
        have hrest : Escaped rest := by
          refine escaped_of_append (a := a) (ha ▸ .plain c cs hq hb hcs) fun hmem => ?_
          rcases hchars _ hmem with h | h | ⟨k, hk, h⟩
          · revert h
            decide
          · simp [Unicode.isDecimal] at h
          · have hno : "LIMIT".toList.all (fun k => ignoreCase k '\\' = false) = true := by decide
            have hk := of_decide_eq_true (List.all_eq_true.1 hno k hk)
            rw [hk] at h
            cases h
        refine ih rest.length ?_ hrest rfl
        rw [← hn]
        exact Nat.lt_succ_of_le (suffix_of_numbered? hnum).length_le
    | quote cs hcs =>
      rw [removeNumbered_of_none (hspace (by decide)), removeNumbered_of_none (hspace (by decide))]
      refine .quote _ (ih cs.length ?_ hcs rfl)
      rw [← hn]
      exact Nat.lt_succ_of_lt (Nat.lt_succ_self _)

/-! ### Numbers -/

/-- After the characters of a number. -/
def NumberMode (U : Unicode) : Mode → Prop
  | .code | .dot => True
  | .word _ acc => ∀ d ∈ acc, isNumberChar U d = true
  | _ => False

/-- A keyword other than IN has a letter that no number has. -/
theorem not_numberLetters (k : Keyword) (h : k ≠ .in) : ∃ d ∈ k.text, d.isUpper = true ∧ d.toLower ∉ numberLetters := by
  have hany : k.text.any (fun d => d.isUpper = true ∧ d.toLower ∉ numberLetters) = true := by
    revert h
    cases k <;> decide
  simpa using hany

/-- The tokens a number is made of. -/
def NumberToken (U : Unicode) : Token → Prop
  | .kw k => k = .in
  | .str _ => False
  | .sym d => isNumberChar U d = true
  | .word _ | .name _ => True

theorem letter_of_isUpper {d : Char} (h : isNumberChar U d = true) (hupper : d.toUpper.isUpper = true) :
    d.toUpper.toLower ∈ numberLetters := by
  have hsmall : d.toNat < 128 := by
    by_contra hlarge
    have hlower : ¬ (d.val ≥ 'a'.val ∧ d.val ≤ 'z'.val) := by
      rintro ⟨-, hle⟩
      have hle : d.toNat ≤ 122 := hle
      omega
    have hsame : d.toUpper = d := dif_neg hlower
    rw [hsame] at hupper
    have hbounds : d.val ≥ 'A'.val ∧ d.val ≤ 'Z'.val := of_decide_eq_true hupper
    have hle : d.toNat ≤ 90 := hbounds.2
    omega
  have hascii : isNumberChar ascii d = true := by
    have hlarge : ¬ 128 ≤ d.toNat := Nat.not_le.2 hsmall
    simpa [isNumberChar, Unicode.isDecimal, hlarge] using h
  have hall : ∀ n < 128, isNumberChar ascii (Char.ofNat n) = true → (Char.ofNat n).toUpper.isUpper = true →
      (Char.ofNat n).toUpper.toLower ∈ numberLetters := by decide
  have hchar := hall d.toNat hsmall
  rw [Char.ofNat_toNat] at hchar
  exact hchar hascii hupper

theorem ignoreCase_number {d : Char} (h : isNumberChar U d = true) : ignoreCase 'L' d = false := by
  refine eq_false_of_ne_true fun hcase => ?_
  have hupper : d.toUpper = 'L' := by simpa [ignoreCase] using hcase
  have hletter := letter_of_isUpper h (by rw [hupper]; decide)
  rw [hupper] at hletter
  revert hletter
  decide

theorem plain_of_number {t : Token} (h : NumberToken U t) : t.Plain := by
  intro depth
  cases t with
  | sym d =>
    have hno : ∀ e ∈ ['(', '[', '\x7b', ')', ']', '\x7d'], isNumberChar U e = false := by
      simp [isNumberChar, Unicode.isDecimal, isSpace, numberLetters]
    have hd : isNumberChar U d = true := h
    rw [Token.depth, if_neg, if_neg]
    all_goals
      rintro (rfl | rfl | rfl) <;> rw [hno _ (by simp)] at hd <;> cases hd
  | _ => rfl

theorem mild_of_number {ts : List Token} (h : ∀ t ∈ ts, NumberToken U t) : Mild ts := by
  induction ts with
  | nil => exact .nil
  | cons t ts ih =>
    obtain ⟨ht, hts⟩ := List.forall_mem_cons.1 h
    refine .cons t ts (plain_of_number ht) (fun k hk => ?_) (ih hts)
    subst hk
    obtain rfl : k = .in := ht
    decide

theorem flush_number {isName : Bool} {acc : Text} (h : ∀ d ∈ acc, isNumberChar U d = true) :
    NumberToken U (flush isName acc) := by
  unfold flush
  split_ifs
  · trivial
  · split
    · rename_i k hk
      have htext := Keyword.text_of_ofText? hk
      by_contra hno
      obtain ⟨d, hd, hupper, hletter⟩ := not_numberLetters k hno
      rw [htext] at hd
      obtain ⟨e, he, rfl⟩ := List.mem_map.1 hd
      exact hletter (letter_of_isUpper (h e (List.mem_reverse.1 he)) hupper)
    · trivial

theorem number_codeStep {named : Bool} {d : Char} (h : isNumberChar U d = true) :
    (∀ t ∈ (codeStep named d).1, NumberToken U t) ∧ NumberMode U (codeStep named d).2 := by
  have hquote : d ≠ '\'' ∧ d ≠ '"' ∧ d ≠ '\x60' ∧ d ≠ '/' := by
    have hno : ∀ e ∈ ['\'', '"', '\x60', '/'], isNumberChar U e = false := by
      simp [isNumberChar, Unicode.isDecimal, isSpace, numberLetters]
    refine ⟨?_, ?_, ?_, ?_⟩ <;> rintro rfl <;> rw [hno _ (by simp)] at h <;> cases h
  have hsym : ∀ t ∈ [Token.sym d], NumberToken U t := List.forall_mem_singleton.2 h
  unfold codeStep
  rw [if_neg (by simp [hquote] : ¬ (d = '\'' ∨ d = '"')), if_neg hquote.2.2.1, if_neg hquote.2.2.2]
  split_ifs
  · exact ⟨by simp, trivial⟩
  · exact ⟨by simp, trivial⟩
  · exact ⟨by simp, List.forall_mem_singleton.2 h⟩
  · exact ⟨hsym, trivial⟩
  · exact ⟨hsym, trivial⟩

theorem number_step {m : Mode} {d : Char} (hm : NumberMode U m) (h : isNumberChar U d = true) :
    (∀ t ∈ (step m d).1, NumberToken U t) ∧ NumberMode U (step m d).2 := by
  cases m with
  | code | dot => exact number_codeStep h
  | word isName acc =>
    rw [step]
    split_ifs
    · exact ⟨by simp, List.forall_mem_cons.2 ⟨h, hm⟩⟩
    · obtain ⟨htokens, hmode⟩ : (∀ t ∈ (codeStep false d).1, NumberToken U t) ∧ NumberMode U (codeStep false d).2 :=
        number_codeStep h
      exact ⟨List.forall_mem_cons.2 ⟨flush_number hm, htokens⟩, hmode⟩
  | _ => cases hm

theorem number_scan {m : Mode} {t : Text} (hm : NumberMode U m) (h : ∀ d ∈ t, isNumberChar U d = true) :
    (∀ u ∈ (scan m t).1, NumberToken U u) ∧ NumberMode U (scan m t).2 := by
  induction t generalizing m with
  | nil => exact ⟨by simp [scan], hm⟩
  | cons d t ih =>
    obtain ⟨hd, ht⟩ := List.forall_mem_cons.1 h
    obtain ⟨htokens, hmode⟩ := number_step hm hd
    obtain ⟨htokens', hmode'⟩ := ih hmode ht
    exact ⟨List.forall_mem_append.2 ⟨htokens, htokens'⟩, hmode'⟩

/-- A number and a space. -/
theorem number_scan_space {named : Bool} {t : Text} (h : ∀ d ∈ t, isNumberChar U d = true) :
    (∀ u ∈ (scan (if named then .dot else .code) (t ++ [' '])).1, NumberToken U u) ∧
      ((scan (if named then .dot else .code) (t ++ [' '])).2 = .code ∨
        (scan (if named then .dot else .code) (t ++ [' '])).2 = .dot) := by
  have hstart : NumberMode U (if named then .dot else .code) := by cases named <;> trivial
  obtain ⟨htokens, hmode⟩ := number_scan hstart h
  rw [scan_append]
  generalize hscan : scan (if named then .dot else .code) t = out at htokens hmode ⊢
  obtain ⟨ts, m⟩ := out
  cases m with
  | code => exact ⟨List.forall_mem_append.2 ⟨htokens, by simp [scan, step, codeStep, isSpace]⟩, .inl rfl⟩
  | dot => exact ⟨List.forall_mem_append.2 ⟨htokens, by simp [scan, step, codeStep, isSpace]⟩, .inr rfl⟩
  | word isName acc =>
    exact ⟨List.forall_mem_append.2 ⟨htokens, List.forall_mem_singleton.2 (flush_number hmode)⟩, .inl rfl⟩
  | _ => cases hmode

theorem gentle_number {t : Text} (h : ∀ d ∈ t, isNumberChar U d = true) : Gentle (t ++ [' ']) := fun _ =>
  ⟨mild_of_number (number_scan_space h).1, (number_scan_space h).2⟩

/-! ### Offered filters -/

/-- The operators of `_ops_for_kind` for any kind, and ENDS WITH. -/
def offeredOps : List Text :=
  ["= true".toList, "= false".toList, "=".toList, ">".toList, ">=".toList, "<".toList, "<=".toList, "<>".toList,
    "IS NOT NULL".toList, "IS NULL".toList, "CONTAINS".toList, "STARTS WITH".toList, "ENDS WITH".toList]

theorem mem_offeredOps {kind op : String} (h : op ∈ opsForKind kind) : op.toList ∈ offeredOps := by
  have hops : opsForKind kind ⊆ ["= true", "= false", "=", ">", ">=", "<", "<=", "<>", "IS NOT NULL", "IS NULL",
      "CONTAINS", "STARTS WITH"] := by
    unfold opsForKind
    split_ifs <;> simp
  have hmem := hops h
  simp only [List.mem_cons, List.not_mem_nil, or_false] at hmem
  rcases hmem with rfl | rfl | rfl | rfl | rfl | rfl | rfl | rfl | rfl | rfl | rfl | rfl <;> simp [offeredOps]

/-- An operator that is offered, and a value without a backslash. -/
structure Filter.Offered (f : Filter) : Prop where
  op : f.op.getD ['='] ∈ offeredOps
  value : '\\' ∉ f.value.getD []

theorem scan_op {op : Text} (h : op ∈ offeredOps) : ∃ ts, scan .code (op ++ [' ']) = (ts, .code) ∧ Mild ts := by
  have hall : ∀ op ∈ offeredOps, (scan .code (op ++ [' '])).2 = .code ∧ isMild (scan .code (op ++ [' '])).1 = true := by
    decide
  obtain ⟨hmode, hmild⟩ := hall op h
  exact ⟨_, Prod.ext rfl hmode, mild_of_isMild hmild⟩

theorem isWordChar_of_isWord {d : Char} (h : U.isWord d = true) : isWordChar d = true := by
  simp only [Unicode.isWord, isWordChar, Bool.or_eq_true, Bool.and_eq_true] at h ⊢
  tauto

/-- The start of a clause. -/
def fieldText (field : Text) : Text := 'f' :: '.' :: (field ++ [' '])

theorem scan_fieldText {field : Text} (hne : field ≠ []) (hfield : ∀ d ∈ field, U.isWord d = true) :
    scan .code (fieldText field) = ([.word ['f'], .sym '.', .name field], .code) := by
  have hname := scan_dot_word hne fun d hd => isWordChar_of_isWord (hfield d hd)
  show ([.word ['f'], .sym '.'] ++ (scan .dot (field ++ [' '])).1, (scan .dot (field ++ [' '])).2) = _
  rw [hname]
  rfl

section Clause

variable {field op rest : Text}

theorem gentle_clause (hne : field ≠ []) (hfield : ∀ d ∈ field, U.isWord d = true) (hop : op ∈ offeredOps)
    {ts : List Token} {m : Mode} (hrest : scan .code rest = (ts, m)) (hts : Mild ts) (hm : m = .code ∨ m = .dot) :
    Gentle (fieldText field ++ ((op ++ [' ']) ++ rest)) := by
  obtain ⟨us, hscan, hus⟩ := scan_op hop
  have hname := scan_dot_word hne fun d hd => isWordChar_of_isWord (hfield d hd)
  have htail : scan .code ((op ++ [' ']) ++ rest) = (us ++ ts, m) := by rw [scan_append_of_code hscan, hrest]
  have hmild : Mild (us ++ ts) := hus.append hts
  intro named
  have hhead : ∃ t : Token, Mild [t] ∧ scan (if named then .dot else .code) (fieldText field) =
      ([t, .sym '.', .name field], .code) := by
    cases named with
    | false => exact ⟨.word ['f'], mild_of_isMild rfl, scan_fieldText hne hfield⟩
    | true =>
      refine ⟨.name ['f'], mild_of_isMild rfl, ?_⟩
      show ([.name ['f'], .sym '.'] ++ (scan .dot (field ++ [' '])).1, (scan .dot (field ++ [' '])).2) = _
      rw [hname]
      rfl
  obtain ⟨t, ht, hhead⟩ := hhead
  rw [scan_append_of_code hhead, htail]
  exact ⟨(ht.append (mild_of_isMild rfl : Mild [.sym '.', .name field])).append hmild, hm⟩

theorem quiet_of_forall {k : Char} {after : Bool} {t : Text} (h : ∀ d ∈ t, ignoreCase k d = false) :
    quiet k after t = true := by
  induction t generalizing after with
  | nil => rfl
  | cons d t ih =>
    obtain ⟨hd, ht⟩ := List.forall_mem_cons.1 h
    unfold quiet
    split_ifs
    · exact ih ht
    · rw [hd, ih ht]
      simp

theorem quiet_clause (hfield : ∀ d ∈ field, U.isWord d = true) (hop : op ∈ offeredOps)
    (hrest : quiet 'L' true rest = true) : quiet 'L' false (fieldText field ++ ((op ++ [' ']) ++ rest)) = true := by
  have hword : ∀ {a b : Text}, (∀ d ∈ a, isSpace d = false) → quiet 'L' false (a ++ b) = quiet 'L' false b := by
    intro a b ha
    induction a with
    | nil => rfl
    | cons d a ih =>
      obtain ⟨hd, ha⟩ := List.forall_mem_cons.1 ha
      rw [List.cons_append, quiet, hd, ih ha]
      rfl
  have hspaces : ∀ d ∈ 'f' :: '.' :: field, isSpace d = false := by
    refine List.forall_mem_cons.2 ⟨rfl, List.forall_mem_cons.2 ⟨rfl, fun d hd => ?_⟩⟩
    exact isSpace_of_isWordChar (isWordChar_of_isWord (hfield d hd))
  have htext : fieldText field ++ ((op ++ [' ']) ++ rest) =
      ('f' :: '.' :: field) ++ (' ' :: (op ++ ' ' :: rest)) := by
    simp [fieldText]
  rw [htext, hword hspaces]
  simp only [offeredOps, List.mem_cons, List.not_mem_nil, or_false] at hop
  rcases hop with rfl | rfl | rfl | rfl | rfl | rfl | rfl | rfl | rfl | rfl | rfl | rfl | rfl <;> exact hrest

/-- A clause whose value is quoted. -/
theorem gentle_quoted (hne : field ≠ []) (hfield : ∀ d ∈ field, U.isWord d = true) (hop : op ∈ offeredOps)
    {val : Text} (hval : '\\' ∉ val) :
    Gentle (removeNumbered U "LIMIT".toList (fieldText field ++ ((op ++ [' ']) ++ (quoted val ++ [' '])))) := by
  have htext : fieldText field ++ ((op ++ [' ']) ++ (quoted val ++ [' '])) =
      (fieldText field ++ ((op ++ [' ']) ++ [])) ++ '\'' :: (escapeQuotes val ++ '\'' :: [' ']) := by
    simp [quoted]
  have hquote : ∀ t, removeNumbered U "LIMIT".toList ('\'' :: t) = '\'' :: removeNumbered U "LIMIT".toList t :=
    fun t => removeNumbered_of_none rfl
  have hspace : removeNumbered U "LIMIT".toList [' '] = [' '] := removeLimit_of_quiet rfl
  have hescaped := escaped_removeLimit (U := U) (escaped_escapeQuotes hval)
  obtain ⟨lit, hlit⟩ := scan_literal hescaped
  rw [htext, removeLimit_append (by decide), hquote, removeLimit_append (by decide), hquote, hspace,
    removeLimit_of_quiet (quiet_clause hfield hop rfl), List.append_nil, List.append_assoc]
  exact gentle_clause hne hfield hop hlit (mild_of_isMild rfl) (.inl rfl)

/-- A clause without a quoted value and without a LIMIT. -/
theorem gentle_bare (hne : field ≠ []) (hfield : ∀ d ∈ field, U.isWord d = true) (hop : op ∈ offeredOps)
    (hquiet : quiet 'L' true rest = true) {ts : List Token} {m : Mode} (hrest : scan .code rest = (ts, m))
    (hts : Mild ts) (hm : m = .code ∨ m = .dot) :
    Gentle (removeNumbered U "LIMIT".toList (fieldText field ++ ((op ++ [' ']) ++ rest))) := by
  rw [removeLimit_of_quiet (quiet_clause hfield hop hquiet)]
  exact gentle_clause hne hfield hop hrest hts hm

end Clause

/-! ### The text put in -/

theorem tame_escapeQuotes {val : Text} (h : '\\' ∉ val) : Template.Tame (escapeQuotes val) := by
  induction val with
  | nil => exact .nil
  | cons d val ih =>
    have hd : d ≠ '\\' := fun heq => h (heq ▸ List.mem_cons_self)
    have hval := ih fun hmem => h (List.mem_cons_of_mem d hmem)
    unfold escapeQuotes
    split_ifs
    · exact .quote _ hval
    · exact .plain d _ hd hval

theorem tame_quoted {val : Text} (h : '\\' ∉ val) : Template.Tame (quoted val ++ [' ']) := by
  have hquote : Template.Tame ['\'', ' '] := .of_not_mem (by decide)
  have htext : quoted val ++ [' '] = '\'' :: (escapeQuotes val ++ ['\'', ' ']) := by simp [quoted]
  rw [htext]
  exact .plain _ _ (by decide) ((tame_escapeQuotes h).append hquote)

theorem tame_clause {field op rest : Text} (hfield : ∀ d ∈ field, U.isWord d = true) (hop : op ∈ offeredOps)
    (hrest : Template.Tame rest) : Template.Tame (fieldText field ++ ((op ++ [' ']) ++ rest)) := by
  have hhead : '\\' ∉ fieldText field ++ (op ++ [' ']) := by
    have hops : ∀ op ∈ offeredOps, '\\' ∉ op := by decide
    have hname : '\\' ∉ field := fun hmem => absurd (isWordChar_of_isWord (hfield _ hmem)) (by decide)
    simp [fieldText, hops op hop, hname]
  rw [← List.append_assoc]
  exact (Template.Tame.of_not_mem hhead).append hrest

/-- A clause of an offered filter and a space: its own expansion, and mild tokens without its LIMIT. -/
theorem Filter.Offered.spec {f : Filter} (h : f.Offered) {t : Text} (ht : f.clause U = some t) :
    Template.Tame (t ++ [' ']) ∧ Gentle (removeNumbered U "LIMIT".toList (t ++ [' '])) := by
  obtain ⟨hop, hval⟩ := h
  unfold Filter.clause at ht
  dsimp only at ht
  generalize f.op.getD ['='] = op at hop ht
  generalize f.value.getD [] = val at hval ht
  have hfield : ∀ d ∈ (f.field.getD []).filter U.isWord, U.isWord d = true := fun d hd => (List.mem_filter.1 hd).2
  generalize (f.field.getD []).filter U.isWord = field at hfield ht
  have hquoted := tame_quoted hval
  have hone : ∀ rest, 'f' :: '.' :: field ++ ' ' :: op ++ ' ' :: rest ++ [' '] =
      fieldText field ++ ((op ++ [' ']) ++ (rest ++ [' '])) := by
    intro rest
    simp [fieldText]
  split_ifs at ht with hnone hnull <;> cases ht
  · have htext : 'f' :: '.' :: field ++ ' ' :: op ++ [' '] = fieldText field ++ ((op ++ [' ']) ++ []) := by
      simp [fieldText]
    rw [htext]
    exact ⟨tame_clause hfield hop .nil, gentle_bare hnone hfield hop rfl rfl .nil (.inl rfl)⟩
  · rw [hone]
    unfold operandText
    split_ifs with hstring hbool hfloat
    · exact ⟨tame_clause hfield hop hquoted, gentle_quoted hnone hfield hop hval⟩
    · have htame : Template.Tame (lower val ++ [' ']) := .of_not_mem (by rcases hbool with h | h <;> rw [h] <;> decide)
      refine ⟨tame_clause hfield hop htame, ?_⟩
      rcases hbool with h | h <;> rw [h]
      · exact gentle_bare hnone hfield hop rfl rfl (mild_of_isMild rfl : Mild [.kw .true]) (.inl rfl)
      · exact gentle_bare hnone hfield hop rfl rfl (mild_of_isMild rfl : Mild [.kw .false]) (.inl rfl)
    · have hchars := isNumberChar_of_isFloat hfloat
      have htame : Template.Tame (val ++ [' ']) := .of_not_mem (by simpa using hval)
      obtain ⟨hmild, hmode⟩ := gentle_number hchars false
      refine ⟨tame_clause hfield hop htame, gentle_bare hnone hfield hop (quiet_of_forall ?_) rfl hmild hmode⟩
      intro d hd
      rcases List.mem_append.1 hd with hd | hd
      · exact ignoreCase_number (hchars d hd)
      · cases List.mem_singleton.1 hd
        rfl
    · exact ⟨tame_clause hfield hop hquoted, gentle_quoted hnone hfield hop hval⟩

/-- The clauses with ANDs between them, one by one. -/
theorem joined_spec {ts : List Text} (hne : ts ≠ []) (hhead : ∀ t ∈ ts, t.head? = some 'f')
    (h : ∀ t ∈ ts, Template.Tame (t ++ [' ']) ∧ Gentle (removeNumbered U "LIMIT".toList (t ++ [' ']))) :
    Template.Tame (List.intercalate " AND ".toList ts ++ [' ']) ∧
      Gentle (removeNumbered U "LIMIT".toList (List.intercalate " AND ".toList ts ++ [' '])) := by
  induction ts with
  | nil => exact absurd rfl hne
  | cons t ts ih =>
    obtain ⟨ht, hts⟩ := List.forall_mem_cons.1 h
    cases ts with
    | nil => simpa using ht
    | cons u us =>
      obtain ⟨htame, hgentle⟩ := ih (List.cons_ne_nil u us) (fun v hv => hhead v (List.mem_cons_of_mem t hv)) hts
      obtain ⟨rest, hrest⟩ : ∃ rest, List.intercalate " AND ".toList (u :: us) ++ [' '] = 'f' :: rest := by
        have hu := hhead u (List.mem_cons_of_mem t List.mem_cons_self)
        obtain ⟨u', rfl⟩ : ∃ u', u = 'f' :: u' := by
          cases u with
          | nil => cases hu
          | cons d u' => exact ⟨u', by rw [Option.some.inj hu]⟩
        cases us with
        | nil => exact ⟨u' ++ [' '], by simp⟩
        | cons v vs => exact ⟨_, by rw [List.intercalate_cons_of_ne_nil (List.cons_ne_nil v vs)]; rfl⟩
      have hand : " AND ".toList = [' ', 'A', 'N', 'D', ' '] := rfl
      have htext : List.intercalate " AND ".toList (t :: u :: us) ++ [' '] =
          (t ++ [' ']) ++ 'A' :: (['N', 'D', ' '] ++ 'f' :: rest) := by
        rw [List.intercalate_cons_of_ne_nil (List.cons_ne_nil u us), hand, List.append_assoc, ← hand, hrest]
        simp
      have hword : Gentle ['A', 'N', 'D', ' '] := by
        intro named
        cases named
        · exact ⟨mild_of_isMild rfl, .inl rfl⟩
        · exact ⟨mild_of_isMild rfl, .inl rfl⟩
      have hquiet : removeNumbered U "LIMIT".toList ['A', 'N', 'D', ' '] = ['A', 'N', 'D', ' '] := removeLimit_of_quiet rfl
      rw [hrest] at htame hgentle
      rw [htext]
      refine ⟨ht.1.append (.append (a := ['A', 'N', 'D', ' ']) (.of_not_mem (by decide)) htame), ?_⟩
      have hsplit : removeNumbered U "LIMIT".toList ('A' :: (['N', 'D', ' '] ++ 'f' :: rest)) =
          ['A', 'N', 'D', ' '] ++ removeNumbered U "LIMIT".toList ('f' :: rest) := by
        rw [← List.cons_append, removeLimit_append (by decide) ['A', 'N', 'D', ' '] rest, hquiet]
      rw [removeLimit_append (by decide) (t ++ [' ']) (['N', 'D', ' '] ++ 'f' :: rest), hsplit]
      exact ht.2.append (hword.append hgentle)

theorem restrictive_of_offered {filters : List Filter} (h : ∀ f ∈ filters, f.Offered) : Restrictive U filters := by
  intro added hadded
  unfold addition at hadded
  split_ifs at hadded with hnone
  · cases hadded
    exact Mild.nil.conjunctive
  · have hspec : ∀ t ∈ clauses U filters, t.head? = some 'f' ∧
        Template.Tame (t ++ [' ']) ∧ Gentle (removeNumbered U "LIMIT".toList (t ++ [' '])) := by
      intro t ht
      obtain ⟨f, hf, hclause⟩ := List.mem_filterMap.1 ht
      exact ⟨head_of_clause hclause, (h f hf).spec hclause⟩
    obtain ⟨htame, hgentle⟩ := joined_spec hnone (fun t ht => (hspec t ht).1) fun t ht => (hspec t ht).2
    have hrun : Template.run ["RETURN".toList, "RETURN".toList] .text (extra U filters ++ [' ']) =
        some (extra U filters ++ [' '], .text) := htame.run
    rw [hrun] at hadded
    obtain rfl := Option.some.inj hadded
    have hand : scan .code "AND ".toList = ([.kw .and], .code) := rfl
    have hmild : Mild [.kw .and] := mild_of_isMild rfl
    rw [scan_append_of_code hand]
    exact (hmild.append (hgentle false).1).conjunctive

end Dgraphai.Inventory
