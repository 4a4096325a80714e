import Mathlib.Data.List.Induction

/-!
# Layers over a keyed list

A layer lists some keys and supplies items under (some of) them; laying it over a list drops every
old item whose key the layer lists and puts the layer's items in front. `mem_overlays`: after a
sequence of layers an item is present iff the last layer that lists its key supplies it, or no layer
lists the key and the item was there from the start.
-/

namespace Overlay

/-- The keys a layer speaks about, and the items it supplies under them. -/
structure Layer {α κ : Type*} (key : α → κ) where
  keys : List κ
  items : List α
  key_mem : ∀ x ∈ items, key x ∈ keys

variable {α κ : Type*} [DecidableEq κ] {key : α → κ}

/-- `l` laid over `old`. -/
def overlay (old : List α) (l : Layer key) : List α :=
  l.items ++ old.filter (fun x => key x ∉ l.keys)

/-- The layers `ls` laid over `old`, first layer lowest. -/
def overlays (old : List α) (ls : List (Layer key)) : List α :=
  ls.foldl overlay old

/-- The topmost layer of `ls` that lists `k`. -/
def topmost (ls : List (Layer key)) (k : κ) : Option (Layer key) :=
  ls.reverse.find? (fun l => k ∈ l.keys)

theorem mem_overlay {old : List α} {l : Layer key} {x : α} :
    x ∈ overlay old l ↔ x ∈ l.items ∨ x ∈ old ∧ key x ∉ l.keys := by
  simp [overlay]

theorem mem_overlay_of_listed {old : List α} {l : Layer key} {x : α} (h : key x ∈ l.keys) :
    x ∈ overlay old l ↔ x ∈ l.items := by
  rw [mem_overlay]
  exact ⟨fun hx => hx.elim id fun hx => absurd h hx.2, .inl⟩

theorem mem_overlay_of_not_listed {old : List α} {l : Layer key} {x : α} (h : key x ∉ l.keys) :
    x ∈ overlay old l ↔ x ∈ old := by
  rw [mem_overlay]
  exact ⟨fun hx => hx.elim (fun hx => absurd (l.key_mem x hx) h) And.left, fun hx => .inr ⟨hx, h⟩⟩

theorem overlays_concat (old : List α) (ls : List (Layer key)) (l : Layer key) :
    overlays old (ls ++ [l]) = overlay (overlays old ls) l := by
  simp [overlays]

theorem topmost_concat (ls : List (Layer key)) (l : Layer key) (k : κ) :
    topmost (ls ++ [l]) k = if k ∈ l.keys then some l else topmost ls k := by
  by_cases h : k ∈ l.keys <;> simp [topmost, h]

theorem mem_overlays (old : List α) (ls : List (Layer key)) (x : α) :
    x ∈ overlays old ls ↔
      match topmost ls (key x) with
      | some l => x ∈ l.items
      | none => x ∈ old := by
  induction ls using List.reverseRecOn with
  | nil => exact Iff.rfl
  | append_singleton ls l ih =>
    rw [overlays_concat, topmost_concat]
    by_cases h : key x ∈ l.keys
    · rw [if_pos h, mem_overlay_of_listed h]
    · rw [if_neg h, mem_overlay_of_not_listed h, ih]

/-- The earlier layers leave no trace under the last one iff, for every key the last layer does not
list, the topmost earlier layer listing it supplies what `old` already had. -/
theorem overlays_eq_overlay_last (old : List α) (ls : List (Layer key)) (l : Layer key) :
    (∀ x, x ∈ overlays old (ls ++ [l]) ↔ x ∈ overlay old l) ↔
      ∀ k, k ∉ l.keys → ∀ t, topmost ls k = some t → ∀ x, key x = k → (x ∈ t.items ↔ x ∈ old) := by
  rw [overlays_concat]
  constructor
  · rintro h k hk t ht x rfl
    have hx := h x
    rw [mem_overlay_of_not_listed hk, mem_overlay_of_not_listed hk, mem_overlays, ht] at hx
    exact hx
  · intro h x
    by_cases hk : key x ∈ l.keys
    · rw [mem_overlay_of_listed hk, mem_overlay_of_listed hk]
    · rw [mem_overlay_of_not_listed hk, mem_overlay_of_not_listed hk, mem_overlays]
      cases ht : topmost ls (key x) with
      | none => exact Iff.rfl
      | some t => exact h _ hk t ht x rfl

end Overlay
