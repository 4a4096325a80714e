import Dgraphai.Lib.CypherText

/-!
# Text put between quotes as it is

A text without a quote and a backslash between single quotes is read as itself (`scan_plain_literal`). Any other is read
as another text or not at all (`lex_misread`): the literal ends in it, is shorter than it by an escape, or goes on
behind it up to the blank before the next quote.
-/

namespace Cypher

/-- Without a single quote and a backslash. -/
def Unquoted (t : Text) : Prop := '\'' ∉ t ∧ '\\' ∉ t

instance (t : Text) : Decidable (Unquoted t) := inferInstanceAs (Decidable (_ ∧ _))

variable {a b t value rest : Text} {c : Char} {n : ℕ} {m : Mode} {ts us : List Token}

theorem Unquoted.nil : Unquoted [] := ⟨List.not_mem_nil, List.not_mem_nil⟩

theorem unquoted_append : Unquoted (a ++ b) ↔ Unquoted a ∧ Unquoted b := by
  simp only [Unquoted, List.mem_append, not_or]
  tauto

theorem unquoted_cons : Unquoted (c :: t) ↔ (c ≠ '\'' ∧ c ≠ '\\') ∧ Unquoted t := by
  simp only [Unquoted, List.mem_cons, not_or, ne_eq, eq_comm]
  tauto

theorem unquoted_of_forall (h : ∀ c ∈ t, c ≠ '\'' ∧ c ≠ '\\') : Unquoted t :=
  ⟨fun hc => (h _ hc).1 rfl, fun hc => (h _ hc).2 rfl⟩

theorem unquoted_of_all {p : Char → Bool} (h : t.all p = true) (hq : p '\'' = false) (hb : p '\\' = false) :
    Unquoted t := by
  refine unquoted_of_forall fun c hc => ⟨?_, ?_⟩
  all_goals
    rintro rfl
    have hc' := List.all_eq_true.1 h _ hc
    simp_all

theorem Unquoted.forall (h : Unquoted t) : ∀ c ∈ t, c ≠ '\'' ∧ c ≠ '\\' :=
  fun _ hc => ⟨fun heq => h.1 (heq ▸ hc), fun heq => h.2 (heq ▸ hc)⟩

theorem scan_unquoted (h : Unquoted t) (acc : Text) :
    scan (.quoted '\'' acc) t = ([], .quoted '\'' (t.reverse ++ acc)) := by
  induction t generalizing acc with
  | nil => rfl
  | cons c t ih =>
    obtain ⟨⟨hq, hb⟩, ht⟩ := unquoted_cons.1 h
    rw [scan, step, if_neg hq, if_neg hb, ih ht, List.reverse_cons, List.append_assoc]
    rfl

theorem scan_bad (t : Text) : scan .bad t = ([], .bad) := by
  induction t with
  | nil => rfl
  | cons c t ih =>
    rw [scan, step, ih]
    rfl

/-! ### Behind an escape -/

/-- In a literal of fewer characters than have been read. -/
def Mode.Lags (n : ℕ) : Mode → Prop
  | .quoted q acc | .escape q acc | .unicode q acc _ _ => q = '\'' ∧ acc.length < n
  | .bad => True
  | _ => False

theorem lags_step (h : m.Lags n) (c : Char) : (∃ s, step m c = ([.str s], .code) ∧ s.length < n) ∨
    (step m c).1 = [] ∧ (step m c).2.Lags (n + 1) := by
  cases m with
  | quoted q acc =>
    obtain ⟨rfl, hlt⟩ := h
    rw [step]
    split_ifs
    · exact .inl ⟨acc.reverse, rfl, by simpa using hlt⟩
    · exact .inr ⟨rfl, rfl, Nat.lt_succ_of_lt hlt⟩
    · exact .inr ⟨rfl, rfl, Nat.succ_lt_succ hlt⟩
  | escape q acc =>
    obtain ⟨rfl, hlt⟩ := h
    rw [step]
    split_ifs
    · exact .inr ⟨rfl, rfl, Nat.lt_succ_of_lt hlt⟩
    · rcases unescape c with _ | c'
      · exact .inr ⟨rfl, trivial⟩
      · exact .inr ⟨rfl, rfl, Nat.succ_lt_succ hlt⟩
  | unicode q acc left value =>
    obtain ⟨rfl, hlt⟩ := h
    rw [step]
    rcases hexValue c with _ | d
    · exact .inr ⟨rfl, trivial⟩
    · dsimp only
      split_ifs
      · exact .inr ⟨rfl, rfl, Nat.succ_lt_succ hlt⟩
      · exact .inr ⟨rfl, rfl, Nat.lt_succ_of_lt hlt⟩
  | bad => exact .inr ⟨rfl, trivial⟩
  | code | dot | word | tick | slash | line | block | star => exact h.elim

theorem lags_scan (h : m.Lags n) (t : Text) :
    (∃ s ts, (scan m t).1 = .str s :: ts ∧ s.length < n + t.length) ∨
      (scan m t).1 = [] ∧ (scan m t).2.Lags (n + t.length) := by
  induction t generalizing m n with
  | nil => exact .inr ⟨rfl, h⟩
  | cons c t ih =>
    rw [List.length_cons, scan]
    rcases lags_step h c with ⟨s, hstep, hs⟩ | ⟨htokens, hmode⟩
    · rw [hstep]
      exact .inl ⟨s, _, rfl, by omega⟩
    · rw [htokens, List.nil_append]
      rcases ih hmode with ⟨s, ts, hscan, hs⟩ | ⟨hscan, hlags⟩
      · exact .inl ⟨s, ts, hscan, by omega⟩
      · refine .inr ⟨hscan, ?_⟩
        rwa [show n + (t.length + 1) = n + 1 + t.length from by omega]

theorem escape_step {q : Char} {acc : Text} (h : (step m c).2 = .escape q acc) : c = '\\' := by
  have hcode : ∀ named, (codeStep named c).2 ≠ .escape q acc := by
    intro named
    unfold codeStep
    split_ifs <;> simp
  cases m with
  | code => exact absurd h (hcode false)
  | dot => exact absurd h (hcode true)
  | quoted q' acc' =>
    rw [step] at h
    split_ifs at h with _ hc
    exact hc
  | word isName acc' =>
    rw [step] at h
    split_ifs at h
    exact absurd h (hcode false)
  | slash =>
    rw [step] at h
    split_ifs at h
    exact absurd h (hcode false)
  | escape q' acc' =>
    rw [step] at h
    split_ifs at h
    rcases hu : unescape c with _ | c' <;> rw [hu] at h <;> cases h
  | unicode q' acc' left value =>
    rw [step] at h
    rcases hd : hexValue c with _ | d <;> rw [hd] at h
    · cases h
    · dsimp only at h
      split_ifs at h
  | tick acc' | line | block | star =>
    rw [step] at h
    split_ifs at h
  | bad => cases h

/-- Where an escape has begun, the last character is a backslash. -/
theorem getLast_of_escape {q : Char} {acc : Text} (ht : t ≠ []) (h : (scan m t).2 = .escape q acc) :
    t.getLast? = some '\\' := by
  obtain ⟨init, c, rfl⟩ : ∃ init c, t = init ++ [c] := ⟨_, _, (List.dropLast_append_getLast ht).symm⟩
  rw [scan_append] at h
  rw [List.getLast?_append, escape_step (c := c) h]
  rfl

/-! ### A quote or a backslash in the text -/

/-- No quote follows, or the next one follows a blank, and before it no backslash. -/
def Trailing (t : Text) : Prop := Unquoted t ∨ ∃ r t', Unquoted r ∧ t = r ++ ' ' :: '\'' :: t'

theorem Unquoted.trailing_append (ha : Unquoted a) (ht : Trailing t) : Trailing (a ++ t) := by
  rcases ht with ht | ⟨r, t', hr, rfl⟩
  · exact .inl (unquoted_append.2 ⟨ha, ht⟩)
  · exact .inr ⟨a ++ r, t', unquoted_append.2 ⟨ha, hr⟩, (List.append_assoc ..).symm⟩

theorem exists_mark (h : ¬ Unquoted t) : ∃ a c b, t = a ++ c :: b ∧ Unquoted a ∧ (c = '\'' ∨ c = '\\') := by
  induction t with
  | nil => exact absurd .nil h
  | cons c t ih =>
    by_cases hc : c ≠ '\'' ∧ c ≠ '\\'
    · obtain ⟨a, d, b, rfl, ha, hd⟩ := ih fun ht => h (unquoted_cons.2 ⟨hc, ht⟩)
      exact ⟨c :: a, d, b, rfl, unquoted_cons.2 ⟨hc, ha⟩, hd⟩
    · exact ⟨[], c, t, rfl, .nil, by tauto⟩

/-- A literal that has gone on behind the text ends in a blank. -/
theorem scan_trailing {acc : Text} (ht : Trailing t) (h : (finish (scan (.quoted '\'' acc) t).2).isSome) :
    ∃ s ts, (scan (.quoted '\'' acc) t).1 = .str s :: ts ∧ s.getLast? = some ' ' := by
  rcases ht with ht | ⟨r, t', hr, rfl⟩
  · rw [scan_unquoted ht] at h
    cases h
  · have hopen : scan (.quoted '\'' acc) (r ++ [' ']) = ([], .quoted '\'' (' ' :: (r.reverse ++ acc))) := by
      rw [scan_append, scan_unquoted hr]
      rfl
    have hquote : ∀ acc', scan (.quoted '\'' acc') ('\'' :: t') = (.str acc'.reverse :: (scan .code t').1, (scan .code t').2) :=
      fun acc' => rfl
    rw [List.append_cons, scan_append, hopen, hquote]
    exact ⟨_, _, rfl, by simp⟩

theorem scan_misread (hvalue : ¬ Unquoted value) (hrest : Trailing rest)
    (h : (finish (scan (.quoted '\'' []) (value ++ '\'' :: rest)).2).isSome) :
    ∃ s ts, (scan (.quoted '\'' []) (value ++ '\'' :: rest)).1 = .str s :: ts ∧ s ≠ value := by
  obtain ⟨a, c, b, rfl, ha, hc⟩ := exists_mark hvalue
  have hopen : scan (.quoted '\'' []) a = ([], .quoted '\'' a.reverse) := by
    rw [scan_unquoted ha, List.append_nil]
  rcases hc with rfl | rfl
  -- it ends at its first quote
  · rw [List.append_assoc, scan_append, hopen]
    refine ⟨a, (scan .code (b ++ '\'' :: rest)).1, ?_, fun heq => ?_⟩
    · show [] ++ (Token.str a.reverse.reverse :: _) = _
      rw [List.reverse_reverse]
      rfl
    · have hlength := congrArg List.length heq
      simp at hlength
  · have hlags : (Mode.escape '\'' a.reverse).Lags (a.length + 1) := ⟨rfl, by simp⟩
    have hscan : scan (.quoted '\'' []) (a ++ '\\' :: b) = scan (.escape '\'' a.reverse) b := by
      rw [scan_append, hopen]
      rfl
    rw [scan_append, hscan] at h ⊢
    rcases lags_scan hlags b with ⟨s, ts, htokens, hs⟩ | ⟨htokens, hmode⟩
    · rw [htokens]
      refine ⟨s, _, rfl, fun heq => ?_⟩
      rw [heq, List.length_append, List.length_cons] at hs
      omega
    · rw [htokens, List.nil_append]
      generalize hm : (scan (.escape '\'' a.reverse) b).2 = m at h hmode
      cases m with
      | quoted q acc =>
        obtain ⟨rfl, hlt⟩ := hmode
        refine ⟨acc.reverse, (scan .code rest).1, rfl, fun heq => ?_⟩
        rw [← List.length_reverse, heq, List.length_append, List.length_cons] at hlt
        omega
      -- the quote behind the text is escaped
      | escape q acc =>
        obtain ⟨rfl, -⟩ := hmode
        have hgoes : (finish (scan (.quoted '\'' ('\'' :: acc)) rest).2).isSome := h
        obtain ⟨s, ts, hs, hlast⟩ := scan_trailing hrest hgoes
        refine ⟨s, ts, hs, fun heq => ?_⟩
        have hend : (a ++ '\\' :: b).getLast? = some '\\' :=
          getLast_of_escape (m := .quoted '\'' []) (by simp) (by rw [hscan, hm])
        rw [heq, hend] at hlast
        cases hlast
      | unicode q acc left value =>
        have hbad : scan (.unicode q acc left value) ('\'' :: rest) = scan .bad rest := rfl
        rw [hbad, scan_bad] at h
        cases h
      | bad =>
        rw [scan_bad] at h
        cases h
      | code | dot | word | tick | slash | line | block | star => exact hmode.elim

/-- A text with a quote or a backslash, put between quotes as it is, is not read as itself. -/
theorem lex_misread (ha : scan .code a = (us, .code)) (hvalue : ¬ Unquoted value) (hrest : Trailing rest)
    (h : lex (a ++ '\'' :: (value ++ '\'' :: rest)) = some ts) :
    ∃ s vs, ts = us ++ .str s :: vs ∧ s ≠ value := by
  rw [lex_append_of_code ha] at h
  obtain ⟨vs, hvs, rfl⟩ := Option.map_eq_some_iff.1 h
  obtain ⟨ws, hfinish, rfl⟩ := Option.map_eq_some_iff.1 hvs
  have hquote : scan .code ('\'' :: (value ++ '\'' :: rest)) = scan (.quoted '\'' []) (value ++ '\'' :: rest) := rfl
  rw [hquote] at hfinish ⊢
  obtain ⟨s, ts, hts, hne⟩ := scan_misread hvalue hrest (Option.isSome_iff_exists.2 ⟨ws, hfinish⟩)
  exact ⟨s, ts ++ ws, by rw [hts, List.cons_append], hne⟩

end Cypher
