import Dgraphai.Deprovisioning
import Dgraphai.Lib.PySlice
import Mathlib.Data.List.Infix

/-!
# Listing users for SCIM (`auth/scim.py`)

`list_scim_users` looks for `userName eq` in the lower-cased filter, where it never is, and takes the page as a slice,
whose indices count from the end where they are negative. `listScimUsers_iff` says for which users, indices and counts
the answer is a page of the users asked for, and when following the pages visits them.
-/

namespace Dgraphai.Provisioning

open Auth (Uuid Time serverError User)
open PySlice (clamp slice)

structure ListResponse where
  totalResults : ℕ
  startIndex : ℤ
  itemsPerPage : ℕ
  resources : List User
  deriving DecidableEq

/-- `select(User).where(User.tenant_id == …, User.is_active == True)`. -/
def Directory.activeOf (d : Directory) (tenantID : Uuid) : List User :=
  d.auth.users.filter fun u => u.tenantID = tenantID ∧ u.isActive = true

/-- The users a filter selects; `none` is the `IndexError` of `filter.split('"')[1]`. -/
def applyFilter (S : Services) (filter : Option String) (users : List User) : Option (List User) :=
  let filter := filter.getD ""
  if filter ≠ "" ∧ "userName eq".toList <:+: (S.lower filter).toList then
    (filter.toList.splitOn '"')[1]?.map fun email => users.filter fun u => u.email = String.ofList email
  else some users

def listScimUsers (S : Services) (now : Time) (tenantID : String) (authorization : Option String)
    (startIndex count : ℤ) (filter : Option String) : Provision ListResponse := do
  let tenant ← getScimTenant S now tenantID authorization
  let rows ← Txn.read fun d => applyFilter S filter (d.activeOf tenant)
  let users ← Txn.ofOption serverError rows
  let paged := slice users (startIndex - 1) (startIndex - 1 + count)
  pure ⟨users.length, startIndex, paged.length, paged⟩

/-- A client that follows the pages from an index on, `fuel` requests at most. -/
def crawl (S : Services) (now : Time) (tenantID : String) (authorization : Option String) (count : ℤ)
    (filter : Option String) : ℕ → ℤ → Provision (List User)
  | 0, _ => pure []
  | fuel + 1, startIndex => do
    let page ← listScimUsers S now tenantID authorization startIndex count filter
    if page.itemsPerPage = 0 then pure []
    else do
      let rest ← crawl S now tenantID authorization count filter fuel (startIndex + page.itemsPerPage)
      pure (page.resources ++ rest)

/-! ### What a listing should be -/

/-- `userName eq "e"`. -/
def eqFilter (email : String) : String := "userName eq \"" ++ email ++ "\""

/-- The active users with the email, if one is asked for. -/
def Directory.matching (d : Directory) (tenantID : Uuid) (email : Option String) : List User :=
  (d.activeOf tenantID).filter fun u => email.all fun e => u.email = e

/-- The page of RFC 7644: an index below 1 is 1, and a count below 0 is 0. -/
def page (users : List User) (startIndex count : ℤ) : List User :=
  (users.drop (max startIndex 1 - 1).toNat).take (max count 0).toNat

def ListResponse.IsPage (answer : ListResponse) (users : List User) (startIndex count : ℤ) : Prop :=
  answer.totalResults = users.length ∧ answer.resources = page users startIndex count

instance (answer : ListResponse) (users : List User) (startIndex count : ℤ) :
    Decidable (answer.IsPage users startIndex count) := inferInstanceAs (Decidable (_ ∧ _))

/-- Where a slice of `n` users is the page. -/
def Pageable (n : ℕ) (startIndex count : ℤ) : Prop :=
  if 1 ≤ startIndex then 0 ≤ count ∨ 0 ≤ startIndex - 1 + count ∨ n + count ≤ 0
  else count ≤ 0 ∨ n = 0 ∨ (n = 1 - startIndex ∧ count < 1 - startIndex) ∨
    (n ≤ 1 - startIndex ∧ n + 1 - startIndex ≤ count)

instance (n : ℕ) (startIndex count : ℤ) : Decidable (Pageable n startIndex count) := by
  unfold Pageable
  infer_instance

variable {S : Services} {now : Time} {tenantID : String} {authorization : Option String} {d d₁ : Directory}
  {tenant : Uuid} {email : Option String} {startIndex count : ℤ}

theorem page_of_count_le {users : List User} (hc : count ≤ 0) : page users startIndex count = [] := by
  rw [page, Int.max_eq_right hc]
  exact List.take_zero

theorem slice_eq_page_of_one_le {users : List User} (hs : 1 ≤ startIndex) :
    slice users (startIndex - 1) (startIndex - 1 + count) = page users startIndex count ↔
      0 ≤ count ∨ 0 ≤ startIndex - 1 + count ∨ users.length + count ≤ 0 := by
  rcases Int.lt_or_le count 0 with hc | hc
  · rw [page_of_count_le hc.le, PySlice.slice_eq_nil_iff, PySlice.clamp_of_nonneg (a := startIndex - 1) (by omega)]
    rcases Int.lt_or_le (startIndex - 1 + count) 0 with hb | hb
    · rw [PySlice.clamp_of_neg hb]
      omega
    · rw [PySlice.clamp_of_nonneg hb]
      omega
  · rw [page, PySlice.slice_of_nonneg (by omega) hc, Int.max_eq_left hs, Int.max_eq_left hc]
    exact iff_of_true rfl (.inl hc)

theorem slice_eq_page_of_lt_one {users : List User} (hnodup : users.Nodup) (hs : startIndex < 1) :
    slice users (startIndex - 1) (startIndex - 1 + count) = page users startIndex count ↔
      count ≤ 0 ∨ users.length = 0 ∨ (users.length = 1 - startIndex ∧ count < 1 - startIndex) ∨
        (users.length ≤ 1 - startIndex ∧ users.length + 1 - startIndex ≤ count) := by
  have ha : startIndex - 1 < 0 := by omega
  rcases Int.lt_or_le 0 count with hc | hc
  · have hpage : page users startIndex count = (users.drop 0).take (min count.toNat users.length) := by
      rw [page, Int.max_eq_right (a := startIndex) (by omega), Int.max_eq_left hc.le, List.drop_zero,
        ← List.take_eq_take_min]
      rfl
    have hstop : clamp users.length (startIndex - 1 + count) ≤ users.length := PySlice.clamp_le
    rw [hpage, slice, PySlice.take_drop_inj hnodup (by rw [PySlice.clamp_of_neg ha]; omega) (by omega),
      PySlice.clamp_of_neg ha]
    rcases Int.lt_or_le (startIndex - 1 + count) 0 with hb | hb
    · rw [PySlice.clamp_of_neg hb]
      omega
    · rw [PySlice.clamp_of_nonneg hb]
      omega
  · rw [page_of_count_le hc, PySlice.slice_eq_nil_iff, PySlice.clamp_of_neg ha, PySlice.clamp_of_neg (by omega)]
    omega

theorem slice_eq_page_iff {users : List User} (hnodup : users.Nodup) :
    slice users (startIndex - 1) (startIndex - 1 + count) = page users startIndex count ↔
      Pageable users.length startIndex count := by
  rw [Pageable]
  split_ifs with hs
  · exact slice_eq_page_of_one_le hs
  · exact slice_eq_page_of_lt_one hnodup (Int.not_le.1 hs)

theorem matching_eq (h : ∀ e ∈ email, ∀ u ∈ d.activeOf tenant, u.email = e) :
    d.matching tenant email = d.activeOf tenant := by
  refine List.filter_eq_self.2 fun u hu => ?_
  cases email with
  | none => rfl
  | some e => exact decide_eq_true (h e rfl u hu)

theorem length_matching :
    (d.matching tenant email).length = (d.activeOf tenant).length ↔ ∀ e ∈ email, ∀ u ∈ d.activeOf tenant, u.email = e := by
  constructor
  · rintro hlength e he u hu
    have hmem := List.length_filter_eq_length_iff.1 hlength u hu
    rw [Option.mem_def.1 he] at hmem
    exact of_decide_eq_true hmem
  · intro h
    rw [matching_eq h]

/-! ### The filter -/

theorem mem_of_infix {c : Char} {s t : List Char} (hc : c ∈ s) (h : s <:+: t) : c ∈ t := h.subset hc

section
variable (hlower : ∀ x, ∀ c ∈ (S.lower x).toList, ¬ ('A' ≤ c ∧ c ≤ 'Z'))
include hlower

/-- A lower-cased filter holds no `N`. -/
theorem applyFilter_eq (filter : Option String) (users : List User) : applyFilter S filter users = some users := by
  refine if_neg fun h => ?_
  have hmem : 'N' ∈ (S.lower (filter.getD "")).toList := mem_of_infix (by decide) h.2
  exact hlower _ _ hmem (by decide)

theorem listScimUsers_eq_ok (startIndex count : ℤ) (filter : Option String)
    (h : getScimTenant S now tenantID authorization d = (.ok tenant, d₁)) {answer : ListResponse} {d' : Directory} :
    listScimUsers S now tenantID authorization startIndex count filter d = (.ok answer, d') ↔
      answer = ⟨(d.activeOf tenant).length, startIndex,
        (slice (d.activeOf tenant) (startIndex - 1) (startIndex - 1 + count)).length,
        slice (d.activeOf tenant) (startIndex - 1) (startIndex - 1 + count)⟩ ∧ d' = d₁ := by
  have hactive : d₁.activeOf tenant = d.activeOf tenant := by
    obtain ⟨configs, rfl⟩ := getScimTenant_frame h
    rfl
  rw [listScimUsers, Txn.bind_eq_ok]
  simp only [h, Txn.read_bind_eq_ok, Txn.ofOption_bind_eq_ok, Txn.pure_eq_ok, applyFilter_eq hlower]
  constructor
  · rintro ⟨t, d₂, heq, users, husers, rfl, rfl⟩
    obtain ⟨ht, rfl⟩ := Prod.mk.inj heq
    obtain rfl := Except.ok.inj ht
    obtain rfl := Option.some.inj husers
    exact ⟨by rw [hactive], rfl⟩
  · rintro ⟨rfl, rfl⟩
    exact ⟨tenant, _, rfl, _, rfl, by rw [hactive], rfl⟩

end

/-! ### Following the pages -/

theorem filter_map_update {α : Type} {p : α → Prop} [DecidablePred p] {f : α → α} (hf : ∀ a, p a → p (f a)) (l : List α) :
    (l.map fun a => if p a then f a else a).filter (fun a => p a) = (l.filter fun a => p a).map f := by
  induction l with
  | nil => rfl
  | cons a l ih =>
    rw [List.map_cons, List.filter_cons, List.filter_cons, ih]
    by_cases ha : p a
    · rw [if_pos ha, if_pos (decide_eq_true (hf a ha)), if_pos (decide_eq_true ha), List.map_cons]
    · rw [if_neg ha, if_neg (by simpa using ha), if_neg (by simpa using ha)]

/-- An accepted request is accepted again. -/
theorem getScimTenant_again (h : getScimTenant S now tenantID authorization d = (.ok tenant, d₁)) :
    ∃ d₂, getScimTenant S now tenantID authorization d₁ = (.ok tenant, d₂) := by
  unfold getScimTenant at h ⊢
  simp only [Txn.raiseIf_bind_eq_ok, Txn.ofOption_bind_eq_ok, Txn.read_bind_eq_ok, scalar_bind_eq_ok,
    Txn.write_bind_eq_ok, Txn.pure_eq_ok] at h ⊢
  obtain ⟨hbearer, id, hid, o, ho, config, rfl, row, hrow, rfl, rfl⟩ := h
  refine ⟨_, hbearer, id, hid, some { config with lastUsedAt := some now }, ?_, _, rfl, row, hrow, rfl, rfl⟩
  have hupdate := filter_map_update (f := fun c : SCIMConfig => { c with lastUsedAt := some now })
    (p := fun c : SCIMConfig => c.tenantID = id ∧ c.tokenHash = S.env.hashToken (String.ofList ((authorization.getD "").toList.drop 7)) ∧
      c.isActive = true) (fun _ hc => hc) d.scimConfigs
  refine hupdate.trans ?_
  rw [ho]
  rfl

section
variable (hlower : ∀ x, ∀ c ∈ (S.lower x).toList, ¬ ('A' ≤ c ∧ c ≤ 'Z'))
include hlower

theorem crawl_eq_ok (filter : Option String) (hcount : 1 ≤ count) (fuel k : ℕ)
    (h : getScimTenant S now tenantID authorization d = (.ok tenant, d₁))
    (hfuel : (d.activeOf tenant).length < k + fuel) :
    ∃ d', crawl S now tenantID authorization count filter fuel (k + 1) d = (.ok ((d.activeOf tenant).drop k), d') := by
  induction fuel generalizing k d d₁ with
  | zero =>
    rw [List.drop_eq_nil_of_le (by omega)]
    exact ⟨d, rfl⟩
  | succ fuel ih =>
    have hslice : slice (d.activeOf tenant) (k + 1 - 1) (k + 1 - 1 + count) =
        ((d.activeOf tenant).drop k).take count.toNat := by
      rw [PySlice.slice_of_nonneg (by omega) (by omega), Int.add_sub_cancel, Int.toNat_natCast]
    have hpage := (listScimUsers_eq_ok hlower (k + 1) count filter h).2 ⟨rfl, rfl⟩
    rw [hslice] at hpage
    rw [crawl]
    by_cases hend : (d.activeOf tenant).length ≤ k
    · rw [List.drop_eq_nil_of_le hend] at hpage ⊢
      refine ⟨d₁, Txn.bind_eq_ok.2 ⟨_, _, hpage, ?_⟩⟩
      rw [if_pos (by simp)]
      rfl
    · have hactive : d₁.activeOf tenant = d.activeOf tenant := by
        obtain ⟨configs, rfl⟩ := getScimTenant_frame h
        rfl
      obtain ⟨d₂, h₂⟩ := getScimTenant_again h
      obtain ⟨m, hm⟩ : ∃ m, m = min count.toNat ((d.activeOf tenant).length - k) := ⟨_, rfl⟩
      have hlength : (((d.activeOf tenant).drop k).take count.toNat).length = m := by
        rw [List.length_take, List.length_drop, hm]
      have hrest : ((d.activeOf tenant).drop k).drop m = (d.activeOf tenant).drop (k + m) := List.drop_drop
      have htake : ((d.activeOf tenant).drop k).take count.toNat = ((d.activeOf tenant).drop k).take m := by
        rw [hm, ← List.length_drop, ← List.take_eq_take_min]
      obtain ⟨d', hd'⟩ := ih (k + m) h₂ (by rw [hactive]; omega)
      rw [hactive] at hd'
      refine ⟨d', Txn.bind_eq_ok.2 ⟨_, _, hpage, ?_⟩⟩
      have hne : ¬ m = 0 := by omega
      rw [if_neg (by rw [hlength]; exact hne)]
      refine Txn.bind_eq_ok.2 ⟨(d.activeOf tenant).drop (k + m), d', ?_, Txn.pure_eq_ok.2 ⟨?_, rfl⟩⟩
      · have hnext : (k : ℤ) + 1 + m = (k + m : ℕ) + 1 := by omega
        rw [hlength, hnext]
        exact hd'
      · rw [htake, ← hrest]
        exact List.take_append_drop m _

/-- With the primary keys of the users: an answer is the page asked for exactly if all active users have the email of
the filter and the slice is the page, and following the pages visits the users asked for exactly if the former. -/
theorem listScimUsers_iff (hkeys : (d.auth.users.map (·.id)).Nodup)
    (htenant : getScimTenant S now tenantID authorization d = (.ok tenant, d₁)) (email : Option String) :
    (∀ startIndex count, (∃ answer d',
        listScimUsers S now tenantID authorization startIndex count (email.map eqFilter) d = (.ok answer, d') ∧
          answer.IsPage (d.matching tenant email) startIndex count) ↔
      (∀ e ∈ email, ∀ u ∈ d.activeOf tenant, u.email = e) ∧ Pageable (d.activeOf tenant).length startIndex count) ∧
    ∀ count, 1 ≤ count → ∀ fuel, (d.activeOf tenant).length < fuel →
      ((∃ d', crawl S now tenantID authorization count (email.map eqFilter) fuel 1 d =
          (.ok (d.matching tenant email), d')) ↔
        ∀ e ∈ email, ∀ u ∈ d.activeOf tenant, u.email = e) := by
  have hnodup : (d.activeOf tenant).Nodup := (List.Nodup.of_map _ hkeys).filter _
  refine ⟨fun startIndex count => ?_, fun count hcount fuel hfuel => ?_⟩
  · simp only [listScimUsers_eq_ok hlower _ _ _ htenant]
    constructor
    · rintro ⟨_, _, ⟨rfl, rfl⟩, htotal, hpage⟩
      have hall := length_matching.1 htotal.symm
      rw [matching_eq hall] at hpage
      exact ⟨hall, (slice_eq_page_iff hnodup).1 hpage⟩
    · rintro ⟨hall, hpage⟩
      refine ⟨_, _, ⟨rfl, rfl⟩, ?_⟩
      rw [matching_eq hall]
      exact ⟨rfl, (slice_eq_page_iff hnodup).2 hpage⟩
  · obtain ⟨d', hd'⟩ := crawl_eq_ok hlower (email.map eqFilter) hcount fuel 0 htenant (by omega)
    have hfirst : ((0 : ℕ) : ℤ) + 1 = 1 := rfl
    rw [hfirst, List.drop_zero] at hd'
    rw [hd']
    constructor
    · rintro ⟨d₂, h⟩
      have hvisited : d.activeOf tenant = d.matching tenant email := Except.ok.inj (Prod.mk.inj h).1
      exact length_matching.1 (congrArg List.length hvisited).symm
    · intro hall
      exact ⟨d', by rw [matching_eq hall]⟩

end

/-! ### Two users -/

/-- Lower-cases ASCII. -/
def lowerServices : Services := { sampleServices with lower := fun x => String.ofList (x.toList.map Char.toLower) }

theorem lowerServices_lower (x : String) : ∀ c ∈ (lowerServices.lower x).toList, ¬ ('A' ≤ c ∧ c ≤ 'Z') := by
  have htext : (lowerServices.lower x).toList = x.toList.map Char.toLower := String.toList_ofList
  rw [htext, List.forall_mem_map]
  intro c _
  by_cases hc : c.val ≥ 'A'.val ∧ c.val ≤ 'Z'.val
  · have hlower : c.toLower = ⟨c.val + ('a'.val - 'A'.val), _⟩ := dif_pos hc
    rw [hlower]
    rintro ⟨-, hle⟩
    have hcapital : 65 ≤ c.toNat ∧ c.toNat ≤ 90 := by simpa [UInt32.le_iff_toNat_le] using hc
    have hsmall : (c.toNat + 32) % 4294967296 ≤ 90 := by simpa [Char.le_def, UInt32.le_iff_toNat_le] using hle
    omega
  · have hsame : c.toLower = c := dif_neg hc
    rw [hsame]
    exact hc

theorem getScimTenant_sample : ∃ d₁,
    getScimTenant lowerServices 0 "t1" (some "Bearer scim") sampleDirectory = (.ok "t1", d₁) := ⟨_, rfl⟩

/-- The second of the two users. -/
theorem second_user_listed : ∃ answer d',
    listScimUsers lowerServices 0 "t1" (some "Bearer scim") 2 1 ((none : Option String).map eqFilter) sampleDirectory =
        (.ok answer, d') ∧
      answer.IsPage (sampleDirectory.matching "t1" none) 2 1 := by
  obtain ⟨d₁, h⟩ := getScimTenant_sample
  exact ((listScimUsers_iff lowerServices_lower (by decide) h none).1 2 1).2 ⟨nofun, by decide⟩

/-- A filter for nobody's email lists everybody, and a page from index 0 on is empty. -/
theorem not_page :
    (¬ ∃ answer d', listScimUsers lowerServices 0 "t1" (some "Bearer scim") 1 100 (some (eqFilter "eve@acme.com"))
        sampleDirectory = (.ok answer, d') ∧
      answer.IsPage (sampleDirectory.matching "t1" (some "eve@acme.com")) 1 100) ∧
    ¬ ∃ answer d', listScimUsers lowerServices 0 "t1" (some "Bearer scim") 0 1 none sampleDirectory = (.ok answer, d') ∧
      answer.IsPage (sampleDirectory.matching "t1" none) 0 1 := by
  obtain ⟨d₁, h⟩ := getScimTenant_sample
  simp only [listScimUsers_eq_ok lowerServices_lower _ _ _ h]
  constructor
  · rintro ⟨_, _, ⟨rfl, rfl⟩, hpage⟩
    exact absurd hpage (by decide)
  · rintro ⟨_, _, ⟨rfl, rfl⟩, hpage⟩
    exact absurd hpage (by decide)

end Dgraphai.Provisioning
