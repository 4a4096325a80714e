import Mathlib.Data.Fintype.Card
import Mathlib.Data.Set.Finite.Basic
import Mathlib.Logic.Relation

/-!
# Walks of a deterministic machine

`next s` is the state after one step, `none` where the machine stops by itself. `walk n s` lists the
states it is in over at most `n` of them.
-/

namespace Walk

variable {σ τ : Type*} (next : σ → Option σ)

def walk : Nat → σ → List σ
  | 0, _ => []
  | n + 1, s =>
    s :: match next s with
      | some s' => walk n s'
      | none => []

/-- The machine stops by itself. -/
def Ends (s : σ) : Prop := ∃ n, (walk next n s).length < n

variable {next} {n : Nat} {s s' t : σ}

theorem walk_succ_of_none (h : next s = none) : walk next (n + 1) s = [s] := by
  rw [walk, h]

theorem walk_succ_of_some (h : next s = some s') : walk next (n + 1) s = s :: walk next n s' := by
  rw [walk, h]

/-- Whatever the walk is in, it came to by steps. -/
theorem reach_of_mem (h : t ∈ walk next n s) :
    Relation.ReflTransGen (fun a b => next a = some b) s t := by
  induction n generalizing s with
  | zero => cases h
  | succ n ih =>
    rcases hnext : next s with _ | s'
    · rw [walk_succ_of_none hnext] at h
      rw [List.mem_singleton.1 h]
    · rw [walk_succ_of_some hnext] at h
      rcases List.mem_cons.1 h with rfl | h
      · exact .refl
      · exact .head hnext (ih h)

/-- What every step keeps holds along the walk. -/
theorem inv_walk {Inv : σ → Prop} (hstep : ∀ a b, Inv a → next a = some b → Inv b) (hs : Inv s)
    (h : t ∈ walk next n s) : Inv t := by
  have hreach := reach_of_mem h
  clear h
  induction hreach with
  | refl => exact hs
  | tail _ hlast ih => exact hstep _ _ ih hlast

/-- What a step from a good state gives holds between neighbours on the walk. -/
theorem isChain_walk_of_inv {Inv : σ → Prop} {r : σ → σ → Prop} (hstep : ∀ a b, Inv a → next a = some b → Inv b ∧ r a b)
    (hs : Inv s) : (walk next n s).IsChain r := by
  induction n generalizing s with
  | zero => exact .nil
  | succ n ih =>
    rcases hnext : next s with _ | s'
    · rw [walk_succ_of_none hnext]
      exact .singleton s
    · obtain ⟨hs', hr⟩ := hstep s s' hs hnext
      have hrest := ih hs'
      rw [walk_succ_of_some hnext]
      cases n with
      | zero => exact .singleton s
      | succ n =>
        rw [walk] at hrest ⊢
        exact .cons_cons hr hrest

/-- A machine whose steps go down a well-founded part of a relation stops. -/
theorem ends_of_acc {r : τ → τ → Prop} (f : σ → τ) (hstep : ∀ a b, next a = some b → r (f b) (f a))
    (h : Acc r (f s)) : Ends next s := by
  generalize hx : f s = x at h
  induction h generalizing s with
  | intro x _ ih =>
    subst hx
    rcases hnext : next s with _ | s'
    · exact ⟨2, by rw [walk_succ_of_none hnext]; simp⟩
    · obtain ⟨n, hn⟩ := ih (f s') (hstep s s' hnext) rfl
      refine ⟨n + 1, ?_⟩
      rw [walk_succ_of_some hnext, List.length_cons]
      omega

/-- Where finitely many places lead on, and none that is reached from `s` leads back to itself, every chain
from `s` comes to an end. -/
theorem acc_of_acyclic {r : σ → σ → Prop} (hfin : {a | ∃ b, r a b}.Finite)
    (h : ∀ a, Relation.ReflTransGen r s a → ¬ Relation.TransGen r a a) : Acc (fun b a => r a b) s := by
  let Place := {a // Relation.ReflTransGen r s a ∧ ∃ b, r a b}
  have hplaces : Finite Place := (hfin.subset fun a ha => ha.2).to_subtype
  have htrans : IsTrans Place fun b a => Relation.TransGen r a.1 b.1 := ⟨fun _ _ _ hab hbc => hbc.trans hab⟩
  have hirrefl : Std.Irrefl fun (b a : Place) => Relation.TransGen r a.1 b.1 := ⟨fun a => h a.1 a.2.1⟩
  have hwf : WellFounded fun (b a : Place) => Relation.TransGen r a.1 b.1 :=
    Finite.wellFounded_of_trans_of_irrefl _
  have hplace : ∀ a : Place, Acc (fun b a => r a b) a.1 := by
    intro a
    induction a using hwf.induction with
    | _ a ih =>
      refine ⟨_, fun b hab => ?_⟩
      by_cases hb : ∃ c, r b c
      · exact ih ⟨b, a.2.1.tail hab, hb⟩ (.single hab)
      · exact ⟨_, fun c hbc => absurd ⟨c, hbc⟩ hb⟩
  by_cases hs : ∃ b, r s b
  · exact hplace ⟨s, .refl, hs⟩
  · exact ⟨_, fun b hb => absurd ⟨b, hb⟩ hs⟩

/-- A machine that always has a step to a state of the same kind never stops. -/
theorem not_ends {C : σ → Prop} (hstep : ∀ a, C a → ∃ b, next a = some b ∧ C b) (hs : C s) :
    ¬ Ends next s := by
  rintro ⟨n, hn⟩
  induction n generalizing s with
  | zero => omega
  | succ n ih =>
    obtain ⟨s', hnext, hs'⟩ := hstep s hs
    rw [walk_succ_of_some hnext, List.length_cons] at hn
    exact ih hs' (by omega)

end Walk
