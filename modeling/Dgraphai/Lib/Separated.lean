import Mathlib.Data.List.Basic

/-!
# Fields behind a separator

A field in which the separator does not occur is told from what stands in front of its separator. Fields in which
it may occur are told apart, once joined, exactly if no two of them cut one row of pieces in different places
(`intercalate_inj_iff`).
-/

namespace Separated

variable {α : Type*} {sep : α} {a a' b b' : List α}

/-- A last field that reaches further to the left would hold the separator. -/
theorem append_sep_ne {c : List α} {x : α} (hb : sep ∉ b) : sep :: b ≠ x :: c ++ sep :: b' := by
  intro h
  refine hb ?_
  rw [(List.cons.inj h).2]
  exact List.mem_append_right _ List.mem_cons_self

theorem append_sep_inj (h : a ++ sep :: b = a' ++ sep :: b') (hb : sep ∉ b) (hb' : sep ∉ b') :
    a = a' ∧ b = b' := by
  rcases List.append_eq_append_iff.1 h with ⟨c, rfl, hc⟩ | ⟨c, rfl, hc⟩
  · obtain _ | ⟨x, c⟩ := c
    · rw [List.append_nil]
      exact ⟨rfl, (List.cons.inj hc).2⟩
    · exact absurd hc (append_sep_ne hb)
  · obtain _ | ⟨x, c⟩ := c
    · rw [List.append_nil]
      exact ⟨rfl, (List.cons.inj hc).2.symm⟩
    · exact absurd hc (append_sep_ne hb')

/-! ### Joined fields -/

section Joined

variable [BEq α] [LawfulBEq α] {fs gs : List (List α)}

theorem sep_not_mem_of_mem_splitOn {s x : List α} (h : x ∈ s.splitOn sep) : sep ∉ x := by
  induction s generalizing x with
  | nil =>
    obtain rfl := List.mem_singleton.1 h
    exact List.not_mem_nil
  | cons c s ih =>
    rw [List.splitOn_cons_eq_if_modifyHead] at h
    split_ifs at h with hc
    · rcases List.mem_cons.1 h with rfl | h
      · exact List.not_mem_nil
      · exact ih h
    · obtain ⟨y, ys, hys⟩ := List.exists_cons_of_ne_nil (List.splitOn_ne_nil sep s)
      rw [hys, List.modifyHead_cons] at h
      rcases List.mem_cons.1 h with rfl | h
      · have hy : sep ∉ y := ih (by rw [hys]; exact List.mem_cons_self)
        refine fun hmem => ?_
        rcases List.mem_cons.1 hmem with rfl | hmem
        · exact hc (beq_self_eq_true _)
        · exact hy hmem
      · exact ih (by rw [hys]; exact List.mem_cons_of_mem _ h)

/-- Fields that each stand in front of a separator. -/
theorem splitOn_flatMap {β : Type*} {f : β → List α} {bs : List β} (hf : ∀ b ∈ bs, sep ∉ f b) (rest : List α) :
    ((bs.flatMap fun b => f b ++ [sep]) ++ rest).splitOn sep = bs.map f ++ rest.splitOn sep := by
  induction bs with
  | nil => rfl
  | cons b bs ih =>
    obtain ⟨hb, hbs⟩ := List.forall_mem_cons.1 hf
    rw [List.flatMap_cons, List.append_assoc, List.append_assoc, List.singleton_append,
      List.splitOn_append_cons_self_of_not_mem hb, ih hbs]
    rfl

/-- The pieces of all the fields, cut at each separator. -/
def pieces (sep : α) (fs : List (List α)) : List (List α) := fs.flatMap fun f => f.splitOn sep

/-- How many pieces each field has. -/
def pieceCounts (sep : α) (fs : List (List α)) : List ℕ := fs.map fun f => (f.splitOn sep).length

theorem splitOn_intercalate (hne : fs ≠ []) : ([sep].intercalate fs).splitOn sep = pieces sep fs := by
  induction fs with
  | nil => exact absurd rfl hne
  | cons f fs ih =>
    obtain _ | ⟨g, fs⟩ := fs
    · simp [pieces]
    · rw [List.intercalate_cons_cons, List.append_assoc, List.singleton_append, List.splitOn_append_cons_self,
        ih (List.cons_ne_nil _ _)]
      rfl

theorem intercalate_eq_iff (hf : fs ≠ []) (hg : gs ≠ []) :
    [sep].intercalate fs = [sep].intercalate gs ↔ pieces sep fs = pieces sep gs := by
  constructor
  · intro h
    rw [← splitOn_intercalate hf, ← splitOn_intercalate hg, h]
  · intro h
    rw [← splitOn_intercalate hf, ← splitOn_intercalate hg] at h
    have hjoin := congrArg [sep].intercalate h
    rw [List.intercalate_splitOn, List.intercalate_splitOn] at hjoin
    exact hjoin

theorem eq_of_pieces (h : pieces sep fs = pieces sep gs) (hcounts : pieceCounts sep fs = pieceCounts sep gs) :
    fs = gs := by
  induction fs generalizing gs with
  | nil => exact (List.map_eq_nil_iff.1 hcounts.symm).symm
  | cons f fs ih =>
    obtain _ | ⟨g, gs⟩ := gs
    · cases hcounts
    · obtain ⟨hfg, hrest⟩ := List.cons.inj hcounts
      obtain ⟨hhead, htail⟩ := List.append_inj h hfg
      have hsplit : f.splitOn sep = g.splitOn sep := hhead
      have hjoin := congrArg [sep].intercalate hsplit
      rw [List.intercalate_splitOn, List.intercalate_splitOn] at hjoin
      rw [hjoin, ih htail hrest]

theorem intercalate_inj_iff (hf : fs ≠ []) (hg : gs ≠ []) :
    ([sep].intercalate fs = [sep].intercalate gs → fs = gs) ↔
      (pieces sep fs = pieces sep gs → pieceCounts sep fs = pieceCounts sep gs) := by
  rw [intercalate_eq_iff hf hg]
  exact ⟨fun h hp => by rw [h hp], fun h hp => eq_of_pieces hp (h hp)⟩

end Joined

end Separated
