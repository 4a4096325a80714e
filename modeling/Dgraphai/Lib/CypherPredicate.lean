import Dgraphai.Lib.CypherRestrict
import Dgraphai.Lib.CypherSplice
import Mathlib.Data.List.Nodup

/-!
# Predicates put together

The bound of `evalExpr` on the levels of brackets does not matter from the number of tokens on
(`evalExpr_bound`), so a predicate with OR or AND between two others has the value and the atoms of its parts
(`evalPred_or`, `evalPred_and`, `predAtoms_or`, `predAtoms_and`). `Query.ofParts` is the query a text is read as.
-/

namespace Cypher

open PropertyGraph (Graph Node)

variable {k : Keyword} {a b ts us part inner : List Token} {d n m : Nat} {t : Token}

/-! ### Lengths -/

theorem length_le_of_mem_splitAll (h : part ∈ splitAll k d ts) : part.length ≤ ts.length := by
  induction ts generalizing d part with
  | nil =>
    rw [List.mem_singleton.1 h]
  | cons t ts ih =>
    rw [splitAll] at h
    split_ifs at h
    · rcases List.mem_cons.1 h with rfl | h
      · exact Nat.zero_le _
      · exact Nat.le_succ_of_le (ih h)
    · rcases hsplit : splitAll k (t.depth d) ts with _ | ⟨g, gs⟩
      · exact absurd hsplit splitAll_ne_nil
      · rw [hsplit, consHead] at h
        rcases List.mem_cons.1 h with rfl | h
        · exact Nat.succ_le_succ (ih (hsplit ▸ List.mem_cons_self))
        · exact Nat.le_succ_of_le (ih (hsplit ▸ List.mem_cons_of_mem g h))

theorem length_lt_of_closing {p : List Token × List Token} (h : closing d ts = some p) :
    p.1.length < ts.length := by
  induction ts generalizing d p with
  | nil => cases h
  | cons t ts ih =>
    rw [closing] at h
    split_ifs at h
    · cases h
      exact Nat.succ_pos _
    · obtain ⟨q, hq, rfl⟩ := Option.map_eq_some_iff.1 h
      exact Nat.succ_lt_succ (ih hq)

theorem length_lt_of_enclosed (h : enclosed ts = some inner) : inner.length < ts.length := by
  unfold enclosed at h
  split at h
  · split at h
    · rename_i ts' inner' heq
      cases h
      exact Nat.lt_succ_of_lt (length_lt_of_closing heq)
    · cases h
  · cases h

/-! ### Levels of brackets -/

section Bound

variable {atom : List Token → Truth}

theorem all3_singleton (p : Truth) : all3 [p] = p := by
  rcases p with _ | _ | _ <;> rfl

theorem evalFactor_bound {sub sub' : List Token → Truth} (h : ∀ us, us.length < ts.length → sub us = sub' us) :
    evalFactor atom sub ts = evalFactor atom sub' ts := by
  induction ts using factorAtoms.induct with
  | case1 ts ih =>
    show not3 _ = not3 _
    rw [ih fun us hus => h us (Nat.lt_succ_of_lt hus)]
  | case2 ts hnot inner henclosed =>
    rw [evalFactor, evalFactor, henclosed]
    · exact h inner (length_lt_of_enclosed henclosed)
    all_goals exact hnot
  | case3 ts hnot henclosed =>
    rw [evalFactor, evalFactor, henclosed]
    all_goals exact hnot

theorem factorAtoms_bound {sub sub' : List Token → List (List Token)}
    (h : ∀ us, us.length < ts.length → sub us = sub' us) : factorAtoms sub ts = factorAtoms sub' ts := by
  induction ts using factorAtoms.induct with
  | case1 ts ih => exact ih fun us hus => h us (Nat.lt_succ_of_lt hus)
  | case2 ts hnot inner henclosed =>
    rw [factorAtoms, factorAtoms, henclosed]
    · exact h inner (length_lt_of_enclosed henclosed)
    all_goals exact hnot
  | case3 ts hnot henclosed =>
    rw [factorAtoms, factorAtoms, henclosed]
    all_goals exact hnot

theorem evalExpr_nil : evalExpr atom n [] = atom [] := by
  cases n with
  | zero => rfl
  | succ n => exact (any3_singleton _).trans ((one3_singleton _).trans (all3_singleton _))

theorem exprAtoms_nil : exprAtoms n [] = [[]] := by
  cases n <;> rfl

theorem evalExpr_bound (hn : ts.length ≤ n) (hm : ts.length ≤ m) : evalExpr atom n ts = evalExpr atom m ts := by
  induction n generalizing m ts with
  | zero =>
    obtain rfl := List.eq_nil_of_length_eq_zero (Nat.le_zero.1 hn)
    rw [evalExpr_nil, evalExpr_nil]
  | succ n ih =>
    cases m with
    | zero =>
      obtain rfl := List.eq_nil_of_length_eq_zero (Nat.le_zero.1 hm)
      rw [evalExpr_nil, evalExpr_nil]
    | succ m =>
      unfold evalExpr
      congr 1
      refine List.map_congr_left fun t ht => ?_
      congr 1
      refine List.map_congr_left fun u hu => ?_
      congr 1
      refine List.map_congr_left fun v hv => ?_
      have hlength : v.length ≤ ts.length := (length_le_of_mem_splitAll hv).trans
        ((length_le_of_mem_splitAll hu).trans (length_le_of_mem_splitAll ht))
      exact evalFactor_bound fun us hus => ih (by omega) (by omega)

theorem exprAtoms_bound (hn : ts.length ≤ n) (hm : ts.length ≤ m) : exprAtoms n ts = exprAtoms m ts := by
  induction n generalizing m ts with
  | zero =>
    obtain rfl := List.eq_nil_of_length_eq_zero (Nat.le_zero.1 hn)
    rw [exprAtoms_nil, exprAtoms_nil]
  | succ n ih =>
    cases m with
    | zero =>
      obtain rfl := List.eq_nil_of_length_eq_zero (Nat.le_zero.1 hm)
      rw [exprAtoms_nil, exprAtoms_nil]
    | succ m =>
      unfold exprAtoms
      refine List.flatMap_congr fun t ht => List.flatMap_congr fun u hu => List.flatMap_congr fun v hv => ?_
      have hlength : v.length ≤ ts.length := (length_le_of_mem_splitAll hv).trans
        ((length_le_of_mem_splitAll hu).trans (length_le_of_mem_splitAll ht))
      exact factorAtoms_bound fun us hus => ih (by omega) (by omega)

end Bound

/-! ### OR and AND between predicates -/

/-- The atoms of a predicate. -/
def predAtoms (ts : List Token) : List (List Token) := exprAtoms ts.length ts

section Parts

variable {R : Reading} {P : Params} {g : Graph} {bind : Binding}

/-- One alternative: a predicate without OR and XOR outside brackets. -/
structure Single (ts : List Token) : Prop where
  or : splitAll .or 0 ts = [ts]
  xor : splitAll .xor 0 ts = [ts]
  depth : endDepth 0 ts = 0

instance (ts : List Token) : Decidable (Single ts) :=
  decidable_of_iff (splitAll .or 0 ts = [ts] ∧ splitAll .xor 0 ts = [ts] ∧ endDepth 0 ts = 0)
    ⟨fun h => ⟨h.1, h.2.1, h.2.2⟩, fun h => ⟨h.or, h.xor, h.depth⟩⟩

theorem evalPred_eq (hn : ts.length ≤ n) : evalPred R P g bind ts =
    any3 ((splitAll .or 0 ts).map fun t => one3 ((splitAll .xor 0 t).map fun u =>
      all3 ((splitAll .and 0 u).map (evalFactor (fun a => evalAtom R P g bind (parseAtom a))
        (evalExpr (fun a => evalAtom R P g bind (parseAtom a)) n))))) := by
  have hbound : evalPred R P g bind ts = evalExpr (fun a => evalAtom R P g bind (parseAtom a)) (n + 1) ts :=
    evalExpr_bound le_rfl (Nat.le_succ_of_le hn)
  rw [hbound, evalExpr]

theorem predAtoms_eq (hn : ts.length ≤ n) : predAtoms ts = (splitAll .or 0 ts).flatMap fun t =>
    (splitAll .xor 0 t).flatMap fun u => (splitAll .and 0 u).flatMap (factorAtoms (exprAtoms n)) := by
  have hbound : predAtoms ts = exprAtoms (n + 1) ts := exprAtoms_bound le_rfl (Nat.le_succ_of_le hn)
  rw [hbound, exprAtoms]

theorem evalPred_or (ha : endDepth 0 a = 0) : evalPred R P g bind (a ++ .kw .or :: b) = some true ↔
    evalPred R P g bind a = some true ∨ evalPred R P g bind b = some true := by
  have hla : a.length ≤ (a ++ .kw .or :: b).length := by simp
  have hlb : b.length ≤ (a ++ .kw .or :: b).length := by simp; omega
  rw [evalPred_eq le_rfl, evalPred_eq hla, evalPred_eq hlb, splitAll_append ha]
  simp only [any3_eq_true, List.map_append, List.mem_append]

theorem predAtoms_or (ha : endDepth 0 a = 0) : predAtoms (a ++ .kw .or :: b) = predAtoms a ++ predAtoms b := by
  have hla : a.length ≤ (a ++ .kw .or :: b).length := by simp
  have hlb : b.length ≤ (a ++ .kw .or :: b).length := by simp; omega
  rw [predAtoms_eq le_rfl, predAtoms_eq hla, predAtoms_eq hlb, splitAll_append ha, List.flatMap_append]

namespace Single

theorem append (ha : Single a) (hb : Single b) : Single (a ++ .kw .and :: b) where
  or := by
    refine splitAll_append_of_one ha.or ?_
    rw [ha.depth, splitAll, if_neg (by simp)]
    show consHead _ (splitAll .or 0 b) = _
    rw [hb.or]
    rfl
  xor := by
    refine splitAll_append_of_one ha.xor ?_
    rw [ha.depth, splitAll, if_neg (by simp)]
    show consHead _ (splitAll .xor 0 b) = _
    rw [hb.xor]
    rfl
  depth := by
    rw [endDepth_append, ha.depth]
    exact hb.depth

theorem evalPred_eq (h : Single ts) (hn : ts.length ≤ n) : evalPred R P g bind ts =
    all3 ((splitAll .and 0 ts).map (evalFactor (fun a => evalAtom R P g bind (parseAtom a))
      (evalExpr (fun a => evalAtom R P g bind (parseAtom a)) n))) := by
  rw [Cypher.evalPred_eq hn, h.or, List.map_singleton, any3_singleton, h.xor, List.map_singleton, one3_singleton]

theorem predAtoms_eq (h : Single ts) (hn : ts.length ≤ n) :
    predAtoms ts = (splitAll .and 0 ts).flatMap (factorAtoms (exprAtoms n)) := by
  rw [Cypher.predAtoms_eq hn, h.or, List.flatMap_singleton, h.xor, List.flatMap_singleton]

theorem evalPred_and (ha : Single a) (hb : Single b) : evalPred R P g bind (a ++ .kw .and :: b) = some true ↔
    evalPred R P g bind a = some true ∧ evalPred R P g bind b = some true := by
  have hla : a.length ≤ (a ++ .kw .and :: b).length := by simp
  have hlb : b.length ≤ (a ++ .kw .and :: b).length := by simp; omega
  rw [(ha.append hb).evalPred_eq le_rfl, ha.evalPred_eq hla, hb.evalPred_eq hlb, splitAll_append ha.depth]
  simp only [all3_eq_true, List.map_append, List.mem_append]
  exact ⟨fun h => ⟨fun p hp => h p (.inl hp), fun p hp => h p (.inr hp)⟩,
    fun h p hp => hp.elim (h.1 p) (h.2 p)⟩

theorem predAtoms_and (ha : Single a) (hb : Single b) :
    predAtoms (a ++ .kw .and :: b) = predAtoms a ++ predAtoms b := by
  have hla : a.length ≤ (a ++ .kw .and :: b).length := by simp
  have hlb : b.length ≤ (a ++ .kw .and :: b).length := by simp; omega
  rw [(ha.append hb).predAtoms_eq le_rfl, ha.predAtoms_eq hla, hb.predAtoms_eq hlb, splitAll_append ha.depth,
    List.flatMap_append]

end Single

theorem IsAtom.single (h : IsAtom ts) : Single ts where
  or := splitAll_of_not_mem h.or
  xor := splitAll_of_not_mem h.xor
  depth := h.depth

theorem IsAtom.evalPred (h : IsAtom ts) : evalPred R P g bind ts = evalAtom R P g bind (parseAtom ts) := by
  rw [h.single.evalPred_eq le_rfl, splitAll_of_not_mem h.and, List.map_singleton, h.factor, all3_singleton]

theorem IsAtom.predAtoms (h : IsAtom ts) : predAtoms ts = [ts] := by
  have hfactor : factorAtoms (exprAtoms ts.length) ts = [ts] := by
    cases ts with
    | nil => rfl
    | cons t ts =>
      have hnot : t ≠ .kw .not := fun ht => h.not (by rw [ht]; rfl)
      have hbracket : t ≠ .sym '(' := fun ht => h.bracket (by rw [ht]; rfl)
      have henclosed : enclosed (t :: ts) = none := by
        unfold enclosed
        split
        · rename_i heq
          exact absurd (List.cons.inj heq).1 hbracket
        · rfl
      rw [factorAtoms, henclosed]
      intro us hus
      exact hnot (List.cons.inj hus).1
  rw [h.single.predAtoms_eq le_rfl, splitAll_of_not_mem h.and, List.flatMap_singleton, hfactor]

/-- Atoms, each behind an AND. -/
def conjoined (atoms : List (List Token)) : List Token := atoms.flatMap (.kw .and :: ·)

variable {atoms : List (List Token)}

theorem conjoined_cons (a : List Token) : conjoined (a :: atoms) = .kw .and :: a ++ conjoined atoms := rfl

/-- A predicate with atoms put at its end. -/
theorem Single.conjoined_spec (h : Single ts) (hatoms : ∀ a ∈ atoms, IsAtom a) :
    Single (ts ++ conjoined atoms) ∧ predAtoms (ts ++ conjoined atoms) = predAtoms ts ++ atoms ∧
      (Cypher.evalPred R P g bind (ts ++ conjoined atoms) = some true ↔ Cypher.evalPred R P g bind ts = some true ∧
        ∀ a ∈ atoms, evalAtom R P g bind (parseAtom a) = some true) := by
  induction atoms generalizing ts with
  | nil =>
    refine ⟨?_, ?_, ?_⟩
    all_goals rw [conjoined, List.flatMap_nil, List.append_nil]
    · exact h
    · rw [List.append_nil]
    · simp
  | cons a atoms ih =>
    obtain ⟨ha, hrest⟩ := List.forall_mem_cons.1 hatoms
    have htext : ts ++ conjoined (a :: atoms) = (ts ++ .kw .and :: a) ++ conjoined atoms := by
      rw [conjoined_cons]
      simp
    obtain ⟨hsingle, hall, hvalue⟩ := ih (h.append ha.single) hrest
    rw [htext]
    refine ⟨hsingle, ?_, ?_⟩
    · rw [hall, h.predAtoms_and ha.single, ha.predAtoms, List.append_assoc, List.singleton_append]
    · rw [hvalue, h.evalPred_and ha.single, ha.evalPred, List.forall_mem_cons, and_assoc]

end Parts

/-! ### The query of a text -/

theorem clauseFree_append (ha : clauseFree d a = true) (hb : clauseFree (endDepth d a) b = true)
    (hwith : b.head? ≠ some (.kw .with)) : clauseFree d (a ++ b) = true := by
  induction d, a using clauseFree.induct with
  | case1 d => exact hb
  | case2 d ts ih => exact ih ha hb
  | case3 d ts ih => exact ih ha hb
  | case4 d k ts hstarts hends ih =>
    rw [clauseFree] at ha
    · rw [Bool.and_eq_true] at ha
      have hrest : clauseFree d (ts ++ b) = true := ih ha.2 hb
      rw [List.cons_append, clauseFree, hrest, ha.1]
      · rfl
      all_goals
        rintro ts' htail rfl
        cases ts with
        | nil => exact hwith (by rw [List.nil_append] at htail; rw [htail]; rfl)
        | cons t ts =>
          obtain ⟨rfl, -⟩ := List.cons.inj htail
          first
            | exact hstarts ts rfl rfl
            | exact hends ts rfl rfl
    · exact hstarts
    · exact hends
  | case5 d t ts hstarts hends hkw ih =>
    rw [clauseFree] at ha
    · have hrest : clauseFree (t.depth d) (ts ++ b) = true := ih ha hb
      rw [List.cons_append, clauseFree, hrest]
      · rintro ts' rfl
        exact absurd rfl (hkw .starts)
      · rintro ts' rfl
        exact absurd rfl (hkw .ends)
      · exact hkw
    · exact hstarts
    · exact hends
    · exact hkw

/-- The tokens put in close their brackets and begin no clause: they stand at the end of the predicate. -/
theorem parseQuery_eq {mat pred item : List Token} {pattern : Pattern} (h : Opening mat pred pattern)
    (hclause : clauseFree 0 us = true) (hdepth : endDepth 0 us = 0) (hwith : us.head? ≠ some (.kw .with)) :
    parseQuery (mat ++ .kw .where :: (pred ++ us) ++ .kw .return :: item) =
      parseReturn pattern (some (pred ++ us)) item := by
  have hfree : clauseFree 0 (pred ++ us) = true := clauseFree_append h.clause (by rwa [h.predDepth]) hwith
  have hnone : splitFirst .return 0 (mat ++ .kw .where :: (pred ++ us)) = none := by
    have hpred : splitFirst .return 0 (pred ++ us) = none := splitFirst_of_clauseFree (by decide) (by decide) hfree
    have hwhere : splitFirst .return 0 (.kw .where :: (pred ++ us)) =
        (splitFirst .return 0 (pred ++ us)).map fun p => (.kw .where :: p.1, p.2) := rfl
    rw [splitFirst_append_of_none h.noReturn, h.matDepth, hwhere, hpred]
    rfl
  have hclosed : endDepth 0 (mat ++ .kw .where :: (pred ++ us)) = 0 := by
    rw [endDepth_append, h.matDepth]
    show endDepth 0 (pred ++ us) = 0
    rw [endDepth_append, h.predDepth, hdepth]
  have hreturn : splitFirst .return 0 (mat ++ .kw .where :: (pred ++ us) ++ .kw .return :: item) =
      some (mat ++ .kw .where :: (pred ++ us), item) := by
    rw [splitFirst_append_of_none hnone, hclosed, splitFirst, if_pos ⟨rfl, rfl⟩, Option.map_some, List.append_nil]
  have hwhere : splitFirst .where 0 (mat ++ .kw .where :: (pred ++ us)) = some (mat, pred ++ us) := by
    rw [splitFirst_append_of_none h.noWhere, h.matDepth, splitFirst, if_pos ⟨rfl, rfl⟩, Option.map_some,
      List.append_nil]
  rw [parseQuery, hreturn]
  simp only [Option.bind_eq_bind, Option.bind_some, hwhere, h.parse, if_pos hfree]

/-! ### Atoms every database takes -/

/-- Such an atom is read here: its variable is bound, and its operand is a literal or one of the parameters. -/
def Atom.settled (params vars : List Text) : Atom → Bool
  | .compare x _ _ (.str _) | .compare x _ _ (.bool _) => vars.contains x
  | .compare x _ _ (.param p) => vars.contains x && params.contains p
  | .compare .. | .other _ => false
  | .isNull x _ _ | .inList x _ _ | .memberOf _ x _ | .related x _ _ => vars.contains x

theorem acceptsAtom_of_settled {R : Reading} {P : Params} {params vars : List Text} {at' : Atom}
    (h : at'.settled params vars = true) (hP : ∀ p ∈ params, (P p).isSome = true) :
    acceptsAtom R P vars at' = true := by
  cases at' with
  | compare x key op rhs =>
    cases rhs with
    | str s | bool b =>
      rw [acceptsAtom, show vars.contains x = true from h]
      rfl
    | param p =>
      obtain ⟨hx, hp⟩ := Bool.and_eq_true_iff.1 (show (vars.contains x && params.contains p) = true from h)
      rw [acceptsAtom, hx]
      exact hP p (List.contains_iff_mem.1 hp)
    | literal ts => cases h
  | other ts => cases h
  | _ => exact h

/-! ### Rows of a part -/

theorem distinctNodes_filter {ns : List Node} {keep : Node → Bool} (h : ∀ n ∈ ns, ∀ m ∈ ns, n.eid = m.eid → n = m) :
    distinctNodes (ns.filter keep) = (distinctNodes ns).filter keep := by
  induction ns with
  | nil => rfl
  | cons n ns ih =>
    have hrest := ih fun a ha b hb => h a (List.mem_cons_of_mem n ha) b (List.mem_cons_of_mem n hb)
    have hcomm : ∀ l : List Node,
        (l.filter keep).filter (·.eid ≠ n.eid) = (l.filter (·.eid ≠ n.eid)).filter keep := by
      intro l
      rw [List.filter_filter, List.filter_filter]
      exact List.filter_congr fun a _ => Bool.and_comm _ _
    rw [List.filter_cons, distinctNodes, List.filter_cons]
    split_ifs with hn
    · rw [distinctNodes, hrest, hcomm]
    · rw [hrest, ← hcomm]
      refine (List.filter_eq_self.2 fun m hm => ?_).symm
      obtain ⟨hm, hkeep⟩ := List.mem_filter.1 hm
      refine decide_eq_true fun heid => ?_
      rw [h m (List.mem_cons_of_mem n (mem_of_mem_distinctNodes hm)) n List.mem_cons_self heid] at hkeep
      exact hn hkeep

theorem filterMap_filter_of_all {α β : Type} {f : α → Option β} {keep : β → Bool} (l : List α) :
    (l.filter fun a => (f a).all keep).filterMap f = (l.filterMap f).filter keep := by
  induction l with
  | nil => rfl
  | cons a l ih =>
    rcases hf : f a with _ | b
    · rw [List.filter_cons, hf, Option.all_none, if_pos rfl, List.filterMap_cons_none hf,
        List.filterMap_cons_none hf, ih]
    · rw [List.filter_cons, hf, Option.all_some, List.filterMap_cons_some hf, List.filter_cons]
      split_ifs
      · rw [List.filterMap_cons_some hf, ih]
      · exact ih

theorem Query.rows_filter {R : Reading} {P : Params} {g : Graph} {q q' : Query} {keep : Node → Bool}
    (hids : (g.nodes.map (·.eid)).Nodup) (hpattern : q'.pattern = q.pattern) (hvar : q'.var = q.var)
    (hdistinct : q'.distinct = q.distinct) (hpage : q.skip = none ∧ q.limit = none)
    (hpage' : q'.skip = none ∧ q'.limit = none)
    (h : ∀ b ∈ q.pattern.candidates g, q'.holds R P g b = (q.holds R P g b && (b.lookup q.var).all keep)) :
    q'.rows R P g = (q.rows R P g).filter keep := by
  have hanswers : q'.answers R P g = (q.answers R P g).filter fun b => (b.lookup q.var).all keep := by
    rw [answers, answers, hpattern, List.filter_filter]
    exact List.filter_congr fun b hb => (h b hb).trans (Bool.and_comm _ _)
  have hall : ∀ {rows : List Node}, q.page rows = rows := by
    intro rows
    rw [page, hpage.1, hpage.2]
    rfl
  have hall' : ∀ {rows : List Node}, q'.page rows = rows := by
    intro rows
    rw [page, hpage'.1, hpage'.2]
    rfl
  have hnodes : ∀ n ∈ (q.answers R P g).filterMap (·.lookup q.var), n ∈ g.nodes := by
    intro n hn
    obtain ⟨b, hb, hlookup⟩ := List.mem_filterMap.1 hn
    exact (mem_candidates (p := fun _ => true) (List.mem_filter.1 hb).1).1 _ (mem_of_lookup hlookup)
  rw [rows, rows, hall, hall', hanswers, hvar, hdistinct, filterMap_filter_of_all]
  split_ifs
  · exact distinctNodes_filter fun n hn m hm heid => List.inj_on_of_nodup_map hids (hnodes n hn) (hnodes m hm) heid
  · rfl

end Cypher
