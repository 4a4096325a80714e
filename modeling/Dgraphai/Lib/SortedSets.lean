import Mathlib.Data.List.Nodup
import Mathlib.Data.List.Perm.Subperm
import Mathlib.Data.Int.Notation
import Mathlib.Logic.Function.Basic
import Mathlib.Tactic.SplitIfs

/-!
# Sorted sets under keys with a time to live

The commands of Redis on sorted sets. A `SortedSet` keeps each member once, with its score; a `Db` holds a
set under a key. A key is gone once its time to live has passed, or with the last member of its set. Each
command is described by what it makes of the `entries` that a key shows from then on.
-/

structure SortedSet (α : Type*) where
  entries : List (α × ℤ)
  nodup : (entries.map Prod.fst).Nodup

namespace SortedSet

variable {α κ : Type*}

def empty : SortedSet α := ⟨[], List.nodup_nil⟩

theorem nodup_filter (s : SortedSet α) (p : α × ℤ → Bool) : ((s.entries.filter p).map Prod.fst).Nodup :=
  s.nodup.sublist (List.filter_sublist.map Prod.fst)

def remRangeByScore (s : SortedSet α) (min max : ℤ) : SortedSet α :=
  ⟨s.entries.filter fun e => ¬ (min ≤ e.2 ∧ e.2 ≤ max), s.nodup_filter _⟩

theorem nodup_add [DecidableEq α] (s : SortedSet α) (score : ℤ) (m : α) :
    ((s.entries.filter (·.1 ≠ m) ++ [(m, score)]).map Prod.fst).Nodup := by
  rw [List.map_append, List.nodup_append]
  refine ⟨s.nodup_filter _, List.nodup_singleton m, ?_⟩
  rintro _ ha b hb
  obtain ⟨e, he, rfl⟩ := List.mem_map.1 ha
  obtain rfl : b = m := by simpa using hb
  simpa using (List.mem_filter.1 he).2

def add [DecidableEq α] (s : SortedSet α) (score : ℤ) (m : α) : SortedSet α :=
  ⟨s.entries.filter (·.1 ≠ m) ++ [(m, score)], s.nodup_add score m⟩

/-- A set with the time it expires at, in milliseconds. -/
structure Stored (α : Type*) where
  set : SortedSet α
  expireAt : Option ℤ

def Stored.Live (v : Stored α) (ms : ℤ) : Prop := ∀ t ∈ v.expireAt, ms ≤ t

instance (v : Stored α) (ms : ℤ) : Decidable (v.Live ms) := inferInstanceAs (Decidable (∀ _ ∈ _, _))

abbrev Db (κ α : Type*) := κ → Option (Stored α)

namespace Db

/-- What is stored under a key at a time. -/
def live (db : Db κ α) (key : κ) (ms : ℤ) : Option (Stored α) := (db key).filter fun v => v.Live ms

/-- The entries a key shows at a time. -/
def entries (db : Db κ α) (key : κ) (ms : ℤ) : List (α × ℤ) :=
  match db.live key ms with
  | some v => v.set.entries
  | none => []

/-- ZCARD. -/
def zCard (db : Db κ α) (key : κ) (ms : ℤ) : ℕ := (db.entries key ms).length

/-- ZREMRANGEBYSCORE. -/
def zRemRangeByScore [DecidableEq κ] (db : Db κ α) (key : κ) (min max ms : ℤ) : Db κ α :=
  Function.update db key (((db.live key ms).map fun v => { v with set := v.set.remRangeByScore min max }).filter
    fun v => v.set.entries ≠ [])

/-- ZADD. -/
def zAdd [DecidableEq κ] [DecidableEq α] (db : Db κ α) (key : κ) (score : ℤ) (m : α) (ms : ℤ) : Db κ α :=
  Function.update db key (some (match db.live key ms with
    | some v => { v with set := v.set.add score m }
    | none => ⟨empty.add score m, none⟩))

/-- EXPIRE, for a positive number of seconds. -/
def expire [DecidableEq κ] (db : Db κ α) (key : κ) (seconds ms : ℤ) : Db κ α :=
  Function.update db key ((db.live key ms).map fun v => { v with expireAt := some (ms + 1000 * seconds) })

/-! ### What a key shows -/

variable {db : Db κ α} {key other : κ} {ms ms' : ℤ} {v : Stored α}

theorem live_eq_some : db.live key ms = some v ↔ db key = some v ∧ v.Live ms := by
  rw [live, Option.filter_eq_some_iff, decide_eq_true_iff]

theorem mem_entries {e : α × ℤ} :
    e ∈ db.entries key ms ↔ ∃ v, db key = some v ∧ v.Live ms ∧ e ∈ v.set.entries := by
  unfold entries
  split
  next v hv =>
    rw [live_eq_some] at hv
    simp [hv.1, hv.2]
  next hnone =>
    simp only [List.not_mem_nil, false_iff, not_exists, not_and]
    intro v hv hlive
    rw [live_eq_some.2 ⟨hv, hlive⟩] at hnone
    cases hnone

/-- What is live later is live now. -/
theorem live_mono (h : v.Live ms') (hle : ms ≤ ms') : v.Live ms :=
  fun t ht => Int.le_trans hle (h t ht)

/-- Different members of a set count once each. -/
theorem length_le_zCard {l : List α} (hl : l.Nodup) (h : ∀ m ∈ l, ∃ score, (m, score) ∈ db.entries key ms) :
    l.length ≤ db.zCard key ms := by
  have hsub : l ⊆ (db.entries key ms).map Prod.fst := by
    intro m hm
    obtain ⟨score, hscore⟩ := h m hm
    exact List.mem_map.2 ⟨(m, score), hscore, rfl⟩
  calc l.length ≤ ((db.entries key ms).map Prod.fst).length := (List.subperm_of_subset hl hsub).length_le
    _ = db.zCard key ms := List.length_map ..

variable [DecidableEq κ]

theorem entries_update_of_ne {o : Option (Stored α)} (h : other ≠ key) (ms : ℤ) :
    entries (Function.update db key o) other ms = db.entries other ms := by
  unfold entries live
  rw [Function.update_of_ne h]

theorem mem_entries_zRemRangeByScore {e : α × ℤ} (min max : ℤ) (hle : ms ≤ ms') :
    e ∈ (db.zRemRangeByScore key min max ms).entries key ms' ↔
      e ∈ db.entries key ms' ∧ ¬ (min ≤ e.2 ∧ e.2 ≤ max) := by
  have hkept : ∀ v : Stored α, e ∈ (v.set.remRangeByScore min max).entries ↔
      e ∈ v.set.entries ∧ ¬ (min ≤ e.2 ∧ e.2 ≤ max) := by
    intro v
    rw [remRangeByScore, List.mem_filter, decide_eq_true_iff]
  simp only [mem_entries, zRemRangeByScore, Function.update_self, Option.filter_eq_some_iff, Option.map_eq_some_iff,
    live_eq_some, decide_eq_true_iff]
  constructor
  · rintro ⟨_, ⟨⟨v, ⟨hv, -⟩, rfl⟩, -⟩, hlive, he⟩
    exact ⟨⟨v, hv, hlive, ((hkept v).1 he).1⟩, ((hkept v).1 he).2⟩
  · rintro ⟨⟨v, hv, hlive, he⟩, hout⟩
    have he' := (hkept v).2 ⟨he, hout⟩
    exact ⟨_, ⟨⟨v, ⟨hv, live_mono hlive hle⟩, rfl⟩, List.ne_nil_of_mem he'⟩, hlive, he'⟩

theorem mem_entries_zAdd [DecidableEq α] {e : α × ℤ} (score : ℤ) (m : α) :
    e ∈ (db.zAdd key score m ms).entries key ms ↔ e ∈ db.entries key ms ∧ e.1 ≠ m ∨ e = (m, score) := by
  have hadded : ∀ s : SortedSet α, e ∈ (s.add score m).entries ↔ e ∈ s.entries ∧ e.1 ≠ m ∨ e = (m, score) := by
    intro s
    rw [add, List.mem_append, List.mem_filter, List.mem_singleton, decide_eq_true_iff]
  rw [mem_entries, zAdd, Function.update_self]
  rcases hlive : db.live key ms with _ | v
  · have hnone : e ∉ db.entries key ms := by simp [entries, hlive]
    simp only [Option.some.injEq, exists_eq_left', hadded, hnone, false_and, false_or]
    simp [Stored.Live, empty]
  · have hsome : e ∈ db.entries key ms ↔ e ∈ v.set.entries := by simp [entries, hlive]
    simp only [Option.some.injEq, exists_eq_left', hadded, hsome]
    exact and_iff_right (live_eq_some.1 hlive).2

theorem mem_entries_expire {e : α × ℤ} (seconds : ℤ) :
    e ∈ (db.expire key seconds ms).entries key ms' ↔ e ∈ db.entries key ms ∧ ms' ≤ ms + 1000 * seconds := by
  simp only [mem_entries, expire, Function.update_self, Option.map_eq_some_iff, live_eq_some]
  constructor
  · rintro ⟨_, ⟨v, hv, rfl⟩, hlive, he⟩
    exact ⟨⟨v, hv.1, hv.2, he⟩, hlive _ rfl⟩
  · rintro ⟨⟨v, hv, hlive, he⟩, hle⟩
    refine ⟨_, ⟨v, ⟨hv, hlive⟩, rfl⟩, fun t ht => ?_, he⟩
    obtain rfl : ms + 1000 * seconds = t := Option.some.inj ht
    exact hle

end Db
end SortedSet
