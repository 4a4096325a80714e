import Dgraphai.Lib.PyText

/-!
# Substitution

A pattern of `re` is the list of its steps (`matchSteps`), and `substitute` is `re.sub` under `re.IGNORECASE`. No
step gives back what it took: what follows a run of spaces, letters or digits never begins with one of them.
-/

namespace PyText

open Cypher (Text isSpace)

inductive Step where
  /-- A word without a space. -/
  | word (w : Text)
  /-- One space. -/
  | blank
  /-- `\s+`, `\w+` and `\d+`. -/
  | spaces | letters | digits
  /-- `\b` behind a letter. -/
  | boundary
  deriving DecidableEq

def Step.run (U : Unicode) : Step → Text → Option Text
  | .word w, t => (word? w t).map Prod.snd
  | .blank, t => if t.head? = some ' ' then some t.tail else none
  | .spaces, t => many isSpace t
  | .letters, t => many U.isWord t
  | .digits, t => many U.isDecimal t
  | .boundary, t => if t.head?.any U.isWord then none else some t

/-- What follows a match at the start of a text. -/
def matchSteps (U : Unicode) : List Step → Text → Option Text
  | [], t => some t
  | s :: pat, t => (s.run U t).bind (matchSteps U pat)

/-- The substitution, where so many characters are still part of the last match. -/
def substituteFrom (U : Unicode) (pat : List Step) (new : Text) : Nat → Text → Text
  | _, [] => []
  | skip + 1, _ :: t => substituteFrom U pat new skip t
  | 0, c :: t =>
    (matchSteps U pat (c :: t)).elim (c :: substituteFrom U pat new 0 t) fun rest =>
      new ++ substituteFrom U pat new (t.length - rest.length) t

/-- `re.sub(pat, new, t, flags=re.IGNORECASE)`, of a pattern that takes a character. -/
def substitute (U : Unicode) (pat : List Step) (new t : Text) : Text := substituteFrom U pat new 0 t

/-- `\s+w\s+\d+`. -/
def numberedSteps (w : Text) : List Step := [.spaces, .word w, .spaces, .digits]

variable {U : Unicode} {pat : List Step} {new a b t w : Text}

/-! ### Texts without a match -/

theorem matchSteps_numberedSteps : matchSteps U (numberedSteps w) t = numbered? U w t := by
  simp only [numberedSteps, matchSteps, Step.run, numbered?]
  refine Option.bind_congr fun u _ => ?_
  rcases word? w u with _ | p
  · rfl
  · simp

theorem substituteFrom_numberedSteps (skip : Nat) :
    substituteFrom U (numberedSteps w) [] skip t = removeFrom U w skip t := by
  induction t generalizing skip with
  | nil => cases skip <;> rfl
  | cons c t ih =>
    cases skip with
    | succ skip => exact ih skip
    | zero =>
      simp only [substituteFrom, removeFrom, matchSteps_numberedSteps, List.nil_append]
      rcases numbered? U w (c :: t) with _ | rest
      · exact congrArg (c :: ·) (ih 0)
      · exact ih _

theorem substitute_numberedSteps : substitute U (numberedSteps w) [] t = removeNumbered U w t :=
  substituteFrom_numberedSteps 0

/-- No match begins in the first text. -/
theorem substitute_append_of_none
    (h : ∀ r, r <:+ a → r ≠ [] → matchSteps U pat (r ++ b) = none) :
    substitute U pat new (a ++ b) = a ++ substitute U pat new b := by
  induction a with
  | nil => rfl
  | cons c a ih =>
    have hnone := h (c :: a) List.suffix_rfl (List.cons_ne_nil c a)
    rw [List.cons_append] at hnone
    rw [List.cons_append, substitute, substituteFrom, hnone]
    exact congrArg (c :: ·) (ih fun r hr => h r (hr.trans (List.suffix_cons c a)))

theorem substitute_of_none (h : ∀ r, r <:+ t → matchSteps U pat r = none) : substitute U pat new t = t := by
  have hempty := @substitute_append_of_none U pat new t [] fun r hr _ => by rw [List.append_nil, h r hr]
  have hnil : substitute U pat new [] = [] := by
    rw [substitute, substituteFrom.eq_def]
  rwa [List.append_nil, hnil, List.append_nil] at hempty

/-! ### Texts apart from a word -/

/-- The text differs from the word before either ends. -/
def differs : Text → Text → Bool
  | k :: w, c :: t => !ignoreCase k c || differs w t
  | _, _ => false

/-- The word begins nowhere in the text, whatever follows. -/
def clear (w : Text) : Text → Bool
  | [] => true
  | c :: t => differs w (c :: t) && clear w t

theorem word?_of_differs (h : differs w t = true) : word? w (t ++ b) = none := by
  fun_induction differs w t with
  | case1 k w c t ih =>
    rw [List.cons_append, word?]
    split_ifs with hk
    · rw [ih (by simpa [hk] using h), Option.map_none]
    · rfl
  | case2 => cases h

theorem differs_of_clear (h : clear w t = true) {r : Text} (hr : r <:+ t) (hne : r ≠ []) : differs w r = true := by
  induction t with
  | nil => exact absurd (List.suffix_nil.1 hr) hne
  | cons c t ih =>
    rw [clear, Bool.and_eq_true] at h
    rcases List.suffix_cons_iff.1 hr with rfl | hr
    · exact h.1
    · exact ih h.2 hr

theorem substitute_append_of_clear (h : clear w a = true) :
    substitute U (.word w :: pat) new (a ++ b) = a ++ substitute U (.word w :: pat) new b :=
  substitute_append_of_none fun r hr hne => by
    rw [matchSteps, Step.run, word?_of_differs (differs_of_clear h hr hne)]
    rfl

/-! ### A text that ends in a space -/

/-- A word of the pattern has no space. -/
def Step.spaceless : Step → Bool
  | .word w => w.all fun k => !ignoreCase k ' '
  | _ => true

theorem isWord_space : U.isWord ' ' = false := by simp [Unicode.isWord]

theorem isDecimal_space : U.isDecimal ' ' = false := by simp [Unicode.isDecimal]

/-- White space is taken up to the last space, or with it. -/
theorem many_isSpace_space (hb : ∀ c ∈ b.head?, isSpace c = false) :
    many isSpace (a ++ ' ' :: b) = none ∨
      (∃ a', many isSpace (a ++ ' ' :: b) = some (a' ++ ' ' :: b) ∧ many isSpace (a ++ [' ']) = some (a' ++ [' '])) ∨
        many isSpace (a ++ ' ' :: b) = some b ∧ many isSpace (a ++ [' ']) = some [] := by
  have hspace : isSpace ' ' = true := rfl
  have hrest : b.dropWhile isSpace = b := by
    cases b with
    | nil => rfl
    | cons c b => rw [List.dropWhile_cons, hb c rfl, if_neg (by simp)]
  cases a with
  | nil => exact .inr (.inr ⟨by simp [many, hspace, hrest], rfl⟩)
  | cons c a =>
    rw [List.cons_append, List.cons_append, many, many, List.dropWhile_append, List.dropWhile_append]
    split_ifs with hc hdrop
    · rw [List.isEmpty_iff] at hdrop
      exact .inr (.inr ⟨by simp [hspace, hrest], rfl⟩)
    · exact .inr (.inl ⟨a.dropWhile isSpace, rfl, rfl⟩)
    · exact .inl rfl

/-- A step that takes a text up to its last space, or goes on behind it. -/
theorem Step.run_space {s : Step} (hs : s.spaceless = true) (hb : ∀ c ∈ b.head?, isSpace c = false)
    (h : s.run U (a ++ ' ' :: b) = some t) :
    (∃ a', s.run U (a ++ [' ']) = some (a' ++ [' ']) ∧ t = a' ++ ' ' :: b) ∨
      s.run U (a ++ [' ']) = some [] ∧ t = b := by
  have hmany : ∀ {p : Char → Bool}, p ' ' = false → many p (a ++ ' ' :: b) = some t →
      ∃ a', many p (a ++ [' ']) = some (a' ++ [' ']) ∧ t = a' ++ ' ' :: b := by
    intro p hp hsome
    have happend : ∀ d, many p (a ++ ' ' :: d) = (many p a).map (· ++ ' ' :: d) := fun d => many_append fun c hc => by
      cases hc
      exact hp
    rw [happend] at hsome ⊢
    obtain ⟨a', ha, rfl⟩ := Option.map_eq_some_iff.1 hsome
    exact ⟨a', by rw [ha]; rfl, rfl⟩
  cases s with
  | word w =>
    have hword : ∀ d, word? w (a ++ ' ' :: d) = (word? w a).map fun q => (q.1, q.2 ++ ' ' :: d) := fun d =>
      word?_append fun c hc k hk => by
        cases hc
        simpa using List.all_eq_true.1 hs k hk
    rw [Step.run, hword, Option.map_map] at h
    obtain ⟨q, hq, rfl⟩ := Option.map_eq_some_iff.1 h
    exact .inl ⟨q.2, by rw [Step.run, hword, hq]; rfl, rfl⟩
  | blank =>
    cases a with
    | nil => exact .inr ⟨rfl, (Option.some.inj h).symm⟩
    | cons c a =>
      rw [Step.run] at h ⊢
      split_ifs at h with hc
      exact .inl ⟨a, if_pos hc, (Option.some.inj h).symm⟩
  | spaces =>
    have h : many isSpace (a ++ ' ' :: b) = some t := h
    rcases @many_isSpace_space a b hb with hnone | ⟨a', hsome, hshort⟩ | ⟨hsome, hshort⟩
    · rw [hnone] at h
      cases h
    · exact .inl ⟨a', hshort, Option.some.inj (h.symm.trans hsome)⟩
    · exact .inr ⟨hshort, Option.some.inj (h.symm.trans hsome)⟩
  | letters => exact .inl (hmany isWord_space h)
  | digits => exact .inl (hmany isDecimal_space h)
  | boundary =>
    rw [Step.run] at h
    have hhead : ∀ d, (a ++ ' ' :: d).head?.any U.isWord = a.head?.any U.isWord := by
      intro d
      cases a with
      | nil => exact isWord_space
      | cons c a => rfl
    rw [hhead] at h
    split_ifs at h with hword
    refine .inl ⟨a, ?_, (Option.some.inj h).symm⟩
    rw [Step.run, hhead, if_neg hword]

/-- A match in a text that ends in a space and what follows is one in the text, or its last steps are one in what
follows. -/
theorem matchSteps_space (hpat : pat.all Step.spaceless = true) (hb : ∀ c ∈ b.head?, isSpace c = false)
    (h : (matchSteps U pat (a ++ ' ' :: b)).isSome) :
    (matchSteps U pat (a ++ [' '])).isSome ∨
      ∃ last ∈ pat.tails.tail, last ≠ [] ∧ (matchSteps U last b).isSome := by
  induction pat generalizing a with
  | nil => exact .inl rfl
  | cons s pat ih =>
    obtain ⟨hs, hpat⟩ := Bool.and_eq_true_iff.1 hpat
    obtain ⟨t, ht⟩ := Option.isSome_iff_exists.1 h
    obtain ⟨u, hu, hrest⟩ := Option.bind_eq_some_iff.1 ht
    rcases Step.run_space hs hb hu with ⟨a', hrun, rfl⟩ | ⟨hrun, rfl⟩
    · rcases ih hpat (Option.isSome_iff_exists.2 ⟨t, hrest⟩) with hshort | ⟨last, hlast, hne, hsome⟩
      · refine .inl ?_
        rw [matchSteps, hrun]
        exact hshort
      · exact .inr ⟨last, by simpa using List.mem_of_mem_tail hlast, hne, hsome⟩
    · cases pat with
      | nil =>
        refine .inl ?_
        rw [matchSteps, hrun]
        rfl
      | cons s' pat => exact .inr ⟨s' :: pat, by simp, List.cons_ne_nil s' pat, Option.isSome_iff_exists.2 ⟨t, hrest⟩⟩

/-- No match begins in a text that ends in a space, where it has none and none of the pattern goes on behind it. -/
theorem substitute_append_of_space (hpat : pat.all Step.spaceless = true) (hb : ∀ c ∈ b.head?, isSpace c = false)
    (ha : a = [] ∨ ∃ u, a = u ++ [' ']) (hnone : ∀ r, r <:+ a → matchSteps U pat r = none)
    (hlast : (pat.tails.tail.all fun last => last.isEmpty || (matchSteps U last b).isNone) = true) :
    substitute U pat new (a ++ b) = a ++ substitute U pat new b := by
  refine substitute_append_of_none fun r hr hne => ?_
  obtain ⟨u, rfl⟩ : ∃ u, r = u ++ [' '] := by
    rcases ha with rfl | ⟨v, rfl⟩
    · exact absurd (List.suffix_nil.1 hr) hne
    · obtain ⟨u, hu, -⟩ := (List.suffix_concat_iff.1 hr).resolve_left hne
      exact ⟨u, hu⟩
  by_contra hsome
  rw [List.append_assoc, List.singleton_append, ← ne_eq, Option.ne_none_iff_isSome] at hsome
  rcases matchSteps_space hpat hb hsome with hshort | ⟨last, hmem, hne, hlater⟩
  · rw [hnone _ hr] at hshort
    cases hshort
  · have hdead := List.all_eq_true.1 hlast last hmem
    rw [Bool.or_eq_true, List.isEmpty_iff, Option.isNone_iff_eq_none] at hdead
    rw [hdead.resolve_left hne] at hlater
    cases hlater

end PyText
