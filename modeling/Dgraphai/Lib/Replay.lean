import Mathlib.Data.List.Induction
import Mathlib.Data.List.Sort
import Mathlib.Logic.Function.Basic

/-!
# Replaying keyed changes

A `Change` writes or deletes one key. Replaying a list of changes over a table leaves at each key the
effect of the last change of that key (`replay_apply`). `replay_byStamp_concat_iff` is what an entry with a stamp of its own
changes when the list is replayed in stamp order and not in the order of arrival, and `replay_of_settled` when entries may
be replayed more than once.
-/

namespace Replay

structure Change (κ ν : Type*) where
  key : κ
  /-- `none` deletes the key. -/
  value : Option ν

variable {κ ν : Type*} [DecidableEq κ]

abbrev Table (κ ν : Type*) := κ → Option ν

def Change.put (t : Table κ ν) (c : Change κ ν) : Table κ ν :=
  Function.update t c.key c.value

def replay (t : Table κ ν) (cs : List (Change κ ν)) : Table κ ν :=
  cs.foldl Change.put t

/-- The changes of key `k`, in order. -/
def changesOf (k : κ) (cs : List (Change κ ν)) : List (Change κ ν) :=
  cs.filter fun c => c.key = k

theorem replay_concat (t : Table κ ν) (cs : List (Change κ ν)) (c : Change κ ν) :
    replay t (cs ++ [c]) = Function.update (replay t cs) c.key c.value := by
  simp [replay, Change.put]

theorem changesOf_concat (k : κ) (cs : List (Change κ ν)) (c : Change κ ν) :
    changesOf k (cs ++ [c]) = changesOf k cs ++ if c.key = k then [c] else [] := by
  by_cases h : c.key = k <;> simp [changesOf, h]

theorem replay_apply (t : Table κ ν) (cs : List (Change κ ν)) (k : κ) :
    replay t cs k = match (changesOf k cs).getLast? with
      | some c => c.value
      | none => t k := by
  induction cs using List.reverseRecOn with
  | nil => rfl
  | append_singleton cs c ih =>
    rw [replay_concat, changesOf_concat]
    by_cases h : c.key = k
    · subst h; simp
    · rw [Function.update_of_ne (Ne.symm h), ih, if_neg h, List.append_nil]

/-! ### Changes that carry a stamp -/

section
variable {δ : Type*} {stamp : δ → ℕ} {change : δ → Change κ ν}

def byStamp (stamp : δ → ℕ) (l : List δ) : List δ :=
  l.insertionSort fun a b => stamp a ≤ stamp b

/-- `d` is the entry of `l` with the highest stamp among those of its key. -/
def Latest (stamp : δ → ℕ) (change : δ → Change κ ν) (l : List δ) (d : δ) : Prop :=
  d ∈ l ∧ ∀ d' ∈ l, (change d').key = (change d).key → stamp d' ≤ stamp d

theorem exists_latest (stamp : δ → ℕ) (change : δ → Change κ ν) {l : List δ} {d : δ} (hd : d ∈ l) :
    ∃ m, Latest stamp change l m ∧ (change m).key = (change d).key := by
  induction l generalizing d with
  | nil => simp at hd
  | cons a l ih =>
    by_cases hl : ∃ b ∈ l, (change b).key = (change d).key
    · obtain ⟨b, hb, hbk⟩ := hl
      obtain ⟨m, ⟨hm, hmax⟩, hmk⟩ := ih hb
      by_cases ham : (change a).key = (change m).key ∧ stamp m < stamp a
      · refine ⟨a, ⟨by simp, fun d' hd' hk => ?_⟩, ham.1.trans (hmk.trans hbk)⟩
        rcases List.mem_cons.1 hd' with rfl | hd'
        · exact Nat.le_refl _
        · exact (hmax d' hd' (hk.trans ham.1)).trans (Nat.le_of_lt ham.2)
      · refine ⟨m, ⟨by simp [hm], fun d' hd' hk => ?_⟩, hmk.trans hbk⟩
        rcases List.mem_cons.1 hd' with rfl | hd'
        · exact Nat.le_of_not_lt fun hlt => ham ⟨hk, hlt⟩
        · exact hmax d' hd' hk
    · -- no entry of the tail has this key, so `d` is the head
      rcases List.mem_cons.1 hd with rfl | hd
      · refine ⟨d, ⟨by simp, fun d' hd' hk => ?_⟩, rfl⟩
        rcases List.mem_cons.1 hd' with rfl | hd'
        · exact Nat.le_refl _
        · exact absurd ⟨d', hd', hk⟩ hl
      · exact absurd ⟨d, hd, rfl⟩ hl

theorem byStamp_pairwise (stamp : δ → ℕ) (l : List δ) :
    (byStamp stamp l).Pairwise fun a b => stamp a ≤ stamp b := by
  have : IsTrans δ fun a b => stamp a ≤ stamp b := ⟨fun _ _ _ => Nat.le_trans⟩
  have : Std.Total fun a b : δ => stamp a ≤ stamp b := ⟨fun a b => Nat.le_total _ _⟩
  exact List.pairwise_insertionSort _ l

theorem mem_byStamp {l : List δ} {d : δ} : d ∈ byStamp stamp l ↔ d ∈ l :=
  (List.perm_insertionSort _ l).mem_iff

theorem byStamp_eq_of_perm {l l' : List δ} (hp : l'.Perm l) (hn : (l.map stamp).Nodup) :
    byStamp stamp l' = byStamp stamp l := by
  have hperm : (byStamp stamp l').Perm (byStamp stamp l) :=
    ((List.perm_insertionSort _ l').trans hp).trans (List.perm_insertionSort _ l).symm
  refine List.Perm.eq_of_pairwise ?_ (byStamp_pairwise stamp l') (byStamp_pairwise stamp l) hperm
  intro a b ha hb hab hba
  exact List.inj_on_of_nodup_map hn (hp.mem_iff.1 (mem_byStamp.1 ha)) (mem_byStamp.1 hb)
    (Nat.le_antisymm hab hba)

/-- In stamp order, a key is left with the effect of its latest entry. -/
theorem replay_byStamp_of_latest (t : Table κ ν) {l : List δ} (hn : (l.map stamp).Nodup) {m : δ}
    (hm : Latest stamp change l m) :
    replay t ((byStamp stamp l).map change) (change m).key = (change m).value := by
  have hfilter : changesOf (change m).key ((byStamp stamp l).map change) =
      ((byStamp stamp l).filter fun d => (change d).key = (change m).key).map change := by
    rw [changesOf, List.filter_map]; rfl
  have hmem : m ∈ (byStamp stamp l).filter fun d => (change d).key = (change m).key := by
    simp [mem_byStamp, hm.1]
  obtain ⟨pre, z, hz⟩ := (List.eq_nil_or_concat _).resolve_left (List.ne_nil_of_mem hmem)
  rw [List.concat_eq_append] at hz
  have hsorted := (byStamp_pairwise stamp l).filter fun d => (change d).key = (change m).key
  have hzl : z ∈ (byStamp stamp l).filter fun d => (change d).key = (change m).key := by simp [hz]
  obtain ⟨hzl, hzk⟩ : z ∈ l ∧ (change z).key = (change m).key := by
    simpa [mem_byStamp] using hzl
  have hle : stamp m ≤ stamp z := by
    rw [hz] at hmem hsorted
    rcases List.mem_append.1 hmem with h | h
    · exact (List.pairwise_append.1 hsorted).2.2 m h z (by simp)
    · rw [List.mem_singleton.1 h]
  have hzm : z = m :=
    List.inj_on_of_nodup_map hn hzl hm.1 (Nat.le_antisymm (hm.2 z hzl hzk) hle)
  rw [replay_apply, hfilter, hz, hzm]
  simp

theorem replay_byStamp_of_not_mem (t : Table κ ν) {l : List δ} {k : κ}
    (hk : ∀ d ∈ l, (change d).key ≠ k) : replay t ((byStamp stamp l).map change) k = t k := by
  have : changesOf k ((byStamp stamp l).map change) = [] := by
    refine List.filter_eq_nil_iff.2 fun c hc => ?_
    obtain ⟨d, hd, rfl⟩ := List.mem_map.1 hc
    simpa using hk d (mem_byStamp.1 hd)
  rw [replay_apply, this]
  rfl

/-- Replaying one more entry in stamp order is replaying it last, exactly if no later-stamped entry of
its key has another effect. -/
theorem replay_byStamp_concat_iff (t : Table κ ν) {l : List δ} {d : δ}
    (hn : ((l ++ [d]).map stamp).Nodup) :
    replay t ((byStamp stamp (l ++ [d])).map change) =
        Function.update (replay t ((byStamp stamp l).map change)) (change d).key (change d).value ↔
      ∀ m, Latest stamp change l m → (change m).key = (change d).key → stamp d < stamp m →
        (change m).value = (change d).value := by
  have hnl : (l.map stamp).Nodup := (List.nodup_append.1 (by simpa using hn)).1
  have hext : ∀ {m}, Latest stamp change l m → ((change m).key = (change d).key → stamp d ≤ stamp m) →
      Latest stamp change (l ++ [d]) m := fun {m} hm hle => ⟨by simp [hm.1], fun d' hd' hk => by
    rcases List.mem_append.1 hd' with h | h
    · exact hm.2 d' h hk
    · rw [List.mem_singleton.1 h] at hk ⊢
      exact hle hk.symm⟩
  constructor
  · intro h m hm hk hlt
    have hm' := hext hm fun _ => Nat.le_of_lt hlt
    have := congrFun h (change d).key
    rw [Function.update_self, ← hk, replay_byStamp_of_latest t hn hm'] at this
    exact this
  · intro h
    funext k
    by_cases hk : k = (change d).key
    · subst hk
      rw [Function.update_self]
      by_cases hlate : ∃ d' ∈ l, (change d').key = (change d).key ∧ stamp d < stamp d'
      · obtain ⟨d', hd', hk', hlt⟩ := hlate
        obtain ⟨m, hm, hmk⟩ := exists_latest stamp change hd'
        have hlt' : stamp d < stamp m := Nat.lt_of_lt_of_le hlt (hm.2 d' hd' hmk.symm)
        have hkey := hmk.trans hk'
        rw [← hkey, replay_byStamp_of_latest t hn (hext hm fun _ => Nat.le_of_lt hlt')]
        exact h m hm hkey hlt'
      · refine replay_byStamp_of_latest t hn ⟨by simp, fun d' hd' hk' => ?_⟩
        rcases List.mem_append.1 hd' with hd' | hd'
        · exact Nat.le_of_not_lt fun hlt => hlate ⟨d', hd', hk', hlt⟩
        · rw [List.mem_singleton.1 hd']
    · rw [Function.update_of_ne hk]
      by_cases hmem : ∃ d' ∈ l, (change d').key = k
      · obtain ⟨d', hd', rfl⟩ := hmem
        obtain ⟨m, hm, hmk⟩ := exists_latest stamp change hd'
        rw [← hmk] at hk ⊢
        rw [replay_byStamp_of_latest t hn (hext hm fun h => absurd h hk),
          replay_byStamp_of_latest t hnl hm]
      · have hnone : ∀ d' ∈ l, (change d').key ≠ k := fun d' hd' e => hmem ⟨d', hd', e⟩
        rw [replay_byStamp_of_not_mem t hnone, replay_byStamp_of_not_mem t fun d' hd' => ?_]
        rcases List.mem_append.1 hd' with hd' | hd'
        · exact hnone d' hd'
        · rw [List.mem_singleton.1 hd']; exact Ne.symm hk

end

/-! ### Logs that arrive more than once -/

section
variable {δ : Type*} {stamp : δ → ℕ} {change : δ → Change κ ν} {l l' log : List δ} {d : δ}

/-- `d` stands in `l` with nothing older of its key behind it. -/
def Settled (stamp : δ → ℕ) (change : δ → Change κ ν) (l : List δ) (d : δ) : Prop :=
  ∃ pre post, l = pre ++ d :: post ∧ ∀ e ∈ post, (change e).key = (change d).key → stamp d ≤ stamp e

omit [DecidableEq κ] in
theorem Settled.append (h : Settled stamp change l d)
    (hl' : ∀ e ∈ l', (change e).key = (change d).key → stamp d ≤ stamp e) : Settled stamp change (l ++ l') d := by
  obtain ⟨pre, post, rfl, hpost⟩ := h
  refine ⟨pre, post ++ l', by simp, fun e he hkey => ?_⟩
  rcases List.mem_append.1 he with he | he
  · exact hpost e he hkey
  · exact hl' e he hkey

omit [DecidableEq κ] in
theorem settled_append_of_pairwise (hl' : l'.Pairwise fun a b => stamp a ≤ stamp b) (hd : d ∈ l') :
    Settled stamp change (l ++ l') d := by
  obtain ⟨pre, post, rfl⟩ := List.append_of_mem hd
  refine ⟨l ++ pre, post, by simp, fun e he _ => ?_⟩
  exact List.rel_of_pairwise_cons (List.pairwise_append.1 hl').2.1 he

/-- Entries of a log, in any order and any number of times, replay as the log does if the latest of each key
is settled among them. -/
theorem replay_of_settled (t : Table κ ν) (hn : (log.map stamp).Nodup) (hmem : ∀ e ∈ l, e ∈ log)
    (hlatest : ∀ m, Latest stamp change log m → Settled stamp change l m) :
    replay t (l.map change) = replay t ((byStamp stamp log).map change) := by
  funext k
  by_cases hk : ∃ d ∈ log, (change d).key = k
  · obtain ⟨d, hd, rfl⟩ := hk
    obtain ⟨m, hm, hmk⟩ := exists_latest stamp change hd
    rw [← hmk, replay_byStamp_of_latest t hn hm, replay_apply]
    obtain ⟨pre, post, rfl, hpost⟩ := hlatest m hm
    -- what follows `m` under its key is `m` again
    have hsame : ∀ c ∈ changesOf (change m).key (post.map change), c = change m := by
      intro c hc
      obtain ⟨hc, hkey⟩ := List.mem_filter.1 hc
      obtain ⟨e, he, rfl⟩ := List.mem_map.1 hc
      have hkey := of_decide_eq_true hkey
      have he' : e ∈ log := hmem e (by simp [he])
      have heq : e = m :=
        List.inj_on_of_nodup_map hn he' hm.1 (Nat.le_antisymm (hm.2 e he' hkey) (hpost e he hkey))
      rw [heq]
    have hsplit : changesOf (change m).key ((pre ++ m :: post).map change) =
        changesOf (change m).key (pre.map change) ++ change m :: changesOf (change m).key (post.map change) := by
      simp [changesOf]
    rcases List.eq_nil_or_concat (changesOf (change m).key (post.map change)) with hnil | ⟨cs, c, hcs⟩
    · rw [hsplit, hnil, List.getLast?_concat]
    · rw [List.concat_eq_append] at hcs
      have hc : c = change m := hsame c (by simp [hcs])
      rw [hsplit, hcs, ← List.cons_append, ← List.append_assoc, List.getLast?_concat, hc]
  · have hnone : ∀ d ∈ log, (change d).key ≠ k := fun d hd e => hk ⟨d, hd, e⟩
    have hl : changesOf k (l.map change) = [] := by
      refine List.filter_eq_nil_iff.2 fun c hc => ?_
      obtain ⟨e, he, rfl⟩ := List.mem_map.1 hc
      simpa using hnone e (hmem e he)
    rw [replay_byStamp_of_not_mem t hnone, replay_apply, hl]
    rfl

end

end Replay
