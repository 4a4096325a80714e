import Mathlib.Data.List.Nodup
import Mathlib.Tactic.SplitIfs

/-!
# Python dictionaries

In insertion order; a key that is there keeps its place when its value is set again.
-/

structure PyDict (κ α : Type*) where
  entries : List (κ × α)
  keyed : (entries.map Prod.fst).Nodup

namespace PyDict

variable {κ α : Type*} [DecidableEq κ]

def empty : PyDict κ α := ⟨[], List.nodup_nil⟩

def keys (d : PyDict κ α) : List κ := d.entries.map Prod.fst

def values (d : PyDict κ α) : List α := d.entries.map Prod.snd

/-- `d.get(k)`. -/
def get? (d : PyDict κ α) (k : κ) : Option α := (d.entries.find? fun e => e.1 = k).map Prod.snd

/-- `d[k] = v` on the entries. -/
def setEntries (entries : List (κ × α)) (k : κ) (v : α) : List (κ × α) :=
  if k ∈ entries.map Prod.fst then entries.map fun e => if e.1 = k then (k, v) else e else entries ++ [(k, v)]

theorem map_fst_setEntries (entries : List (κ × α)) (k : κ) (v : α) :
    (setEntries entries k v).map Prod.fst =
      if k ∈ entries.map Prod.fst then entries.map Prod.fst else entries.map Prod.fst ++ [k] := by
  unfold setEntries
  split_ifs with hk
  · rw [List.map_map]
    refine List.map_congr_left fun e _ => ?_
    rw [Function.comp_apply]
    split_ifs with he
    · exact he.symm
    · rfl
  · rw [List.map_append, List.map_singleton]

theorem nodup_setEntries {entries : List (κ × α)} (h : (entries.map Prod.fst).Nodup) (k : κ) (v : α) :
    ((setEntries entries k v).map Prod.fst).Nodup := by
  rw [map_fst_setEntries]
  split_ifs with hk
  · exact h
  · exact List.nodup_append'.2 ⟨h, List.nodup_singleton _, List.disjoint_singleton.2 hk⟩

/-- `d[k] = v`. -/
def set (d : PyDict κ α) (k : κ) (v : α) : PyDict κ α := ⟨setEntries d.entries k v, nodup_setEntries d.keyed k v⟩

/-- `del d[k]`, where `k` is there. -/
def erase (d : PyDict κ α) (k : κ) : PyDict κ α :=
  ⟨d.entries.filter fun e => e.1 ≠ k, d.keyed.sublist (List.filter_sublist.map Prod.fst)⟩

/-- `d.update(d')`. -/
def update (d d' : PyDict κ α) : PyDict κ α := d'.entries.foldl (fun d e => d.set e.1 e.2) d

variable {d : PyDict κ α} {k k' : κ} {v v' : α}

theorem mem_set (h : (k', v') ∈ (d.set k v).entries) : (k', v') = (k, v) ∨ (k', v') ∈ d.entries := by
  have hmem : (k', v') ∈ setEntries d.entries k v := h
  unfold setEntries at hmem
  split_ifs at hmem with hk
  · obtain ⟨e, he, heq⟩ := List.mem_map.1 hmem
    split_ifs at heq
    · exact .inl heq.symm
    · exact .inr (heq ▸ he)
  · rcases List.mem_append.1 hmem with hmem | hmem
    · exact .inr hmem
    · exact .inl (List.mem_singleton.1 hmem)

theorem mem_set_self (d : PyDict κ α) (k : κ) (v : α) : (k, v) ∈ (d.set k v).entries := by
  show (k, v) ∈ setEntries d.entries k v
  unfold setEntries
  split_ifs with hk
  · obtain ⟨e, he, rfl⟩ := List.mem_map.1 hk
    exact List.mem_map.2 ⟨e, he, if_pos rfl⟩
  · exact List.mem_append_right _ (.head _)

theorem mem_keys_set : k' ∈ (d.set k v).keys ↔ k' = k ∨ k' ∈ d.keys := by
  rw [keys, set, map_fst_setEntries]
  split_ifs with hk
  · constructor
    · exact .inr
    · rintro (rfl | h)
      · exact hk
      · exact h
  · rw [List.mem_append, List.mem_singleton, or_comm]
    rfl

theorem mem_values_set (h : v' ∈ (d.set k v).values) : v' = v ∨ v' ∈ d.values := by
  obtain ⟨⟨k', _⟩, he, rfl⟩ := List.mem_map.1 h
  rcases mem_set he with heq | he
  · exact .inl (Prod.mk.inj heq).2
  · exact .inr (List.mem_map.2 ⟨_, he, rfl⟩)

theorem mem_values_foldl_set {l : List (κ × α)} {d : PyDict κ α}
    (h : v' ∈ (l.foldl (fun d e => d.set e.1 e.2) d).values) : v' ∈ l.map Prod.snd ∨ v' ∈ d.values := by
  induction l generalizing d with
  | nil => exact .inr h
  | cons e l ih =>
    rw [List.map_cons, List.mem_cons]
    rcases ih h with hl | hset
    · exact .inl (.inr hl)
    · rcases mem_values_set hset with rfl | hd
      · exact .inl (.inl rfl)
      · exact .inr hd

theorem mem_values_update {d' : PyDict κ α} (h : v' ∈ (d.update d').values) : v' ∈ d'.values ∨ v' ∈ d.values :=
  mem_values_foldl_set h

theorem mem_values_erase (h : v' ∈ (d.erase k).values) : v' ∈ d.values := by
  obtain ⟨e, he, rfl⟩ := List.mem_map.1 h
  exact List.mem_map_of_mem (List.mem_filter.1 he).1

theorem get?_of_mem (h : (k, v) ∈ d.entries) : d.get? k = some v := by
  unfold get?
  cases hfind : d.entries.find? fun e => e.1 = k with
  | none => exact absurd (decide_eq_true rfl) (List.find?_eq_none.1 hfind _ h)
  | some e =>
    have hfound := List.find?_some hfind
    have hkey : e.1 = k := of_decide_eq_true hfound
    rw [List.inj_on_of_nodup_map d.keyed (List.mem_of_find?_eq_some hfind) h hkey]
    rfl

theorem get?_eq_none (h : k ∉ d.keys) : d.get? k = none := by
  rw [get?, Option.map_eq_none_iff, List.find?_eq_none]
  intro e he hkey
  exact h (List.mem_map.2 ⟨e, he, of_decide_eq_true hkey⟩)

theorem mem_of_get? (h : d.get? k = some v) : (k, v) ∈ d.entries := by
  obtain ⟨e, hfind, hv⟩ := Option.map_eq_some_iff.1 h
  have hfound := List.find?_some hfind
  have hkey : e.1 = k := of_decide_eq_true hfound
  rw [← hkey, ← hv]
  exact List.mem_of_find?_eq_some hfind

theorem get?_eq_some_iff : d.get? k = some v ↔ (k, v) ∈ d.entries := ⟨mem_of_get?, get?_of_mem⟩

theorem get?_set_self (d : PyDict κ α) (k : κ) (v : α) : (d.set k v).get? k = some v := get?_of_mem (mem_set_self d k v)

theorem get?_set_of_ne (h : k' ≠ k) : (d.set k v).get? k' = d.get? k' := by
  refine Option.ext fun v' => ?_
  rw [get?_eq_some_iff, get?_eq_some_iff]
  constructor
  · intro hmem
    rcases mem_set hmem with heq | hmem
    · exact absurd (Prod.mk.inj heq).1 h
    · exact hmem
  · intro hmem
    show (k', v') ∈ setEntries d.entries k v
    unfold setEntries
    split_ifs with hk
    · exact List.mem_map.2 ⟨(k', v'), hmem, if_neg h⟩
    · exact List.mem_append_left _ hmem

theorem get?_erase (d : PyDict κ α) (k k' : κ) : (d.erase k).get? k' = if k' = k then none else d.get? k' := by
  split_ifs with h
  · refine get?_eq_none fun hmem => ?_
    obtain ⟨e, he, hkey⟩ := List.mem_map.1 hmem
    exact of_decide_eq_true (List.mem_filter.1 he).2 (hkey.trans h)
  · refine Option.ext fun v => ?_
    rw [get?_eq_some_iff, get?_eq_some_iff]
    refine ⟨fun hmem => (List.mem_filter.1 hmem).1, fun hmem => List.mem_filter.2 ⟨hmem, decide_eq_true h⟩⟩

theorem get?_foldl_set (l : List (κ × α)) (hl : (l.map Prod.fst).Nodup) (d : PyDict κ α) (k : κ) :
    (l.foldl (fun d e => d.set e.1 e.2) d).get? k = ((l.find? fun e => e.1 = k).map Prod.snd).or (d.get? k) := by
  induction l generalizing d with
  | nil => rfl
  | cons e l ih =>
    obtain ⟨hnew, hl⟩ := List.nodup_cons.1 hl
    rw [List.foldl_cons, ih hl, List.find?_cons]
    by_cases hk : e.1 = k
    · subst hk
      have hnone : l.find? (fun e' => e'.1 = e.1) = none := List.find?_eq_none.2 fun e' he' heq =>
        hnew (List.mem_map.2 ⟨e', he', of_decide_eq_true heq⟩)
      rw [hnone, get?_set_self, decide_eq_true rfl]
      rfl
    · rw [decide_eq_false hk, get?_set_of_ne (Ne.symm hk)]

theorem get?_update (d d' : PyDict κ α) (k : κ) : (d.update d').get? k = (d'.get? k).or (d.get? k) :=
  get?_foldl_set d'.entries d'.keyed d k

/-- Keys that are all new are set one behind the other. -/
theorem entries_foldl_set (l : List (κ × α)) (d : PyDict κ α) (h : (d.keys ++ l.map Prod.fst).Nodup) :
    (l.foldl (fun d e => d.set e.1 e.2) d).entries = d.entries ++ l := by
  induction l generalizing d with
  | nil => rw [List.foldl_nil, List.append_nil]
  | cons e l ih =>
    have hnew : e.1 ∉ d.keys := fun hmem =>
      List.disjoint_of_nodup_append h hmem (List.mem_map_of_mem List.mem_cons_self)
    have hset : (d.set e.1 e.2).entries = d.entries ++ [e] := if_neg hnew
    rw [List.foldl_cons, ih, hset, List.append_assoc, List.singleton_append]
    rwa [keys, hset, List.map_append, List.append_assoc]

/-- A dictionary is read in the order of its keys. -/
theorem map_get?_keys (d : PyDict κ α) : d.keys.map d.get? = d.values.map some := by
  rw [keys, values, List.map_map, List.map_map]
  exact List.map_congr_left fun e he => get?_of_mem he

end PyDict
