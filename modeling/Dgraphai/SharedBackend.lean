import Dgraphai.InventoryCounts
import Dgraphai.Lib.Runs
import Dgraphai.Usage

/-!
# One backend under several coroutines (`graph/backends/neo4j.py`, `api/usage.py`, `api/inventory.py`)

`async with backend` keeps its driver in `self._driver`: entering makes a new one, leaving closes whatever driver is
there and puts None. The coroutines that `asyncio.gather` runs on one backend enter and leave it in any order, from
await to await. A coroutine that is left without its driver takes the error for a count of 0 or an empty page; it
returns what it returns alone exactly as long as the driver it uses is there and open (`returns_iff`).
-/

namespace Dgraphai.GraphBackend

open Cypher Inventory Metering PropertyGraph Runs

/-! ### The coroutines -/

/-- A value of a row; a node of the driver is not a dict. -/
inductive Cell where
  | json (j : Json)
  | node (n : Node)

abbrev Record := List (String × Cell)

/-- A database: the rows of a query, or `none` for an error. -/
abbrev Database := Text → Params → Option (List Record)

/-- `backend.query(cypher, {"tid": tid}, auth.tenant_id)` with a session. -/
def ask (db : Database) (tid : String) (cypher : Text) : Option (List Record) :=
  db (if Mentions cypher then cypher else injectTenantScope cypher) (withTid (tidParams tid) tid)

/-- A coroutine: the rows its query has, what it makes of rows, and what it returns on an exception. -/
structure Coroutine (β : Type) where
  rows : Option (List Record)
  read : List Record → β
  failed : β

/-- What the coroutine returns on a backend of its own. -/
def Coroutine.value {β : Type} (c : Coroutine β) : β :=
  match c.rows with
  | some rows => c.read rows
  | none => c.failed

/-- `rows[0].get(key, 0) if rows else 0`. -/
def firstOf (key : String) : List Record → Cell
  | [] => .json (.num 0)
  | row :: _ => (row.lookup key).getD (.json (.num 0))

/-- `q` of `_build_snapshot`. -/
def snapshotCoroutine (db : Database) (tid : String) (q : CountQuery) : Coroutine Cell :=
  ⟨ask db tid q.text.toList, firstOf "c", .json (.num 0)⟩

/-- What the coroutines of `get_category_detail` return. -/
inductive Detail where
  | total (n : Option Cell)
  | nodes (nodes : List Record)
  | subcategory (id : String) (n : Option Cell)

/-- `_extract_node`. -/
def extractNode (row : Record) : Record :=
  let dict? : Cell → Option (List (String × Json))
    | .json (.obj fields) => some fields
    | _ => none
  match ["f", "a", "p", "fc", "n"].findSome? fun key => (row.lookup key).bind dict? with
  | some fields => fields.map fun (k, v) => (k, .json v)
  | none => row.filter fun (_, v) => match v with
    | .json (.obj _) | .json (.arr _) => false
    | _ => true

section Detail
variable (U : PyText.Unicode) (db : Database) (tid : String)

def getTotal (cypher : Text) : Coroutine Detail :=
  ⟨ask db tid (countCypher U cypher), fun rows => .total (some (firstOf "total" rows)), .total none⟩

def getNodes (cypher : Text) (p : Paging) : Coroutine Detail :=
  ⟨ask db tid (cypherWithPagination U cypher (p.page * p.pageSize) p.pageSize),
    fun rows => .nodes (rows.map extractNode), .nodes []⟩

def countSubcat (id : String) (cypher : Text) : Coroutine Detail :=
  ⟨ask db tid (countCypher U cypher), fun rows => .subcategory id (some (firstOf "total" rows)), .subcategory id none⟩

end Detail

/-! ### The backend they share -/

/-- Where a coroutine waits. -/
inductive Phase (β : Type) where
  | idle
  /-- In `verify_connectivity` of its driver. -/
  | connecting (driver : ℕ)
  /-- In a session of the driver. -/
  | querying (driver : ℕ)
  /-- In `close` of a driver, with the value to return. -/
  | closing (v : β)
  | done (v : β)

/-- The value a coroutine will return, once it is settled. -/
def Phase.value? {β : Type} : Phase β → Option β
  | .closing v | .done v => some v
  | _ => none

/-- Drivers are numbered as they are made. -/
structure Shared (ι β : Type) where
  /-- `self._driver`. -/
  driver : Option ℕ
  made : ℕ
  /-- The drivers whose `close` was called. -/
  closed : List ℕ
  phase : ι → Phase β

/-- A coroutine runs to its next await. What the driver does that another coroutine has closed is open: its methods
may raise. -/
inductive Act (ι : Type) where
  | enter (i : ι)
  /-- `verify_connectivity` ends, and `session()` is called. -/
  | verified (i : ι) (verifyRaises sessionRaises : Bool)
  /-- The rows have arrived, the session is left, and `close` is called. -/
  | fetched (i : ι) (raises : Bool)
  | closed (i : ι)
  deriving DecidableEq, Repr

namespace Shared

variable {ι β : Type} [DecidableEq ι] (coroutine : ι → Coroutine β) (s : Shared ι β) (i : ι)

def put (phase : Phase β) : Shared ι β := { s with phase := Function.update s.phase i phase }

/-- `__aexit__` with the value to return, to its await. -/
def leave (v : β) : Shared ι β :=
  match s.driver with
  | some d => { s.put i (.closing v) with closed := d :: s.closed }
  | none => s.put i (.done v)

def step : Act ι → Option (Shared ι β)
  | .enter i => match s.phase i with
    | .idle => some { s.put i (.connecting s.made) with driver := some s.made, made := s.made + 1 }
    | _ => none
  | .verified i verifyRaises sessionRaises => match s.phase i with
    | .connecting d =>
      -- an exception of `__aenter__`: the backend is not left
      if d ∈ s.closed ∧ verifyRaises = true then some (s.put i (.done (coroutine i).failed))
      else match s.driver with
        -- 'NoneType' object has no attribute 'session'
        | none => some (s.put i (.done (coroutine i).failed))
        | some d' =>
          if d' ∈ s.closed ∧ sessionRaises = true then some (s.leave i (coroutine i).failed)
          else some (s.put i (.querying d'))
    | _ => none
  | .fetched i raises => match s.phase i with
    | .querying d => some (s.leave i (if d ∈ s.closed ∧ raises = true then (coroutine i).failed else (coroutine i).value))
    | _ => none
  | .closed i => match s.phase i with
    | .closing v => some { s.put i (.done v) with driver := none }
    | _ => none

/-- The driver that the coroutine uses is there, and none of the others has closed it, or it works all the same. -/
def Undisturbed : Act ι → Prop
  | .verified i verifyRaises sessionRaises => match s.phase i with
    | .connecting d => ¬ (d ∈ s.closed ∧ verifyRaises = true) ∧
      match s.driver with
      | none => False
      | some d' => ¬ (d' ∈ s.closed ∧ sessionRaises = true)
    | _ => True
  | .fetched i raises => match s.phase i with
    | .querying d => ¬ (d ∈ s.closed ∧ raises = true)
    | _ => True
  | .enter _ | .closed _ => True

/-- No coroutine has begun, and the next driver is a new one. -/
structure Ready : Prop where
  idle : ∀ i, s.phase i = .idle
  fresh : ∀ d ∈ s.closed, d < s.made

/-- The steps of the coroutines one after another, each to its end. -/
def sequential (order : List ι) : List (Act ι) :=
  order.flatMap fun i => [.enter i, .verified i true true, .fetched i true, .closed i]

variable {coroutine s} {s' t u : Shared ι β} {a : Act ι} {as : List (Act ι)} {i}

/-! ### What a step settles -/

theorem phase_leave (v : β) : ∃ p, (s.leave i v).phase = Function.update s.phase i p ∧ p.value? = some v := by
  rw [leave]
  cases s.driver with
  | none => exact ⟨.done v, rfl, rfl⟩
  | some d => exact ⟨.closing v, rfl, rfl⟩

/-- What a step does to the coroutine it is of. -/
def Settles (coroutine : ι → Coroutine β) (s : Shared ι β) (a : Act ι) (i : ι) (p : Phase β) : Prop :=
  s.Undisturbed a ∧ (p.value? = (s.phase i).value? ∨
      (s.phase i).value? = none ∧ p.value? = some (coroutine i).value) ∨
    ¬ s.Undisturbed a ∧ (s.phase i).value? = none ∧ p.value? = some (coroutine i).failed

/-- A step is of one coroutine. If it is undisturbed, a value it settles is the coroutine's own; otherwise it
settles the error's value. -/
theorem step_settles (h : step coroutine s a = some s') :
    ∃ i p, s'.phase = Function.update s.phase i p ∧ Settles coroutine s a i p := by
  cases a with
  | enter i =>
    rw [step] at h
    split at h
    case h_2 => cases h
    case h_1 hphase =>
      cases h
      exact ⟨i, _, rfl, .inl ⟨trivial, .inl (by rw [hphase]; rfl)⟩⟩
  | verified i verifyRaises sessionRaises =>
    rw [step] at h
    split at h
    case h_2 => cases h
    case h_1 d hphase =>
      have hnone : (s.phase i).value? = none := by rw [hphase]; rfl
      simp only [Settles, Undisturbed, hphase]
      split at h
      case isTrue hverify =>
        cases h
        exact ⟨i, _, rfl, .inr ⟨fun hu => hu.1 hverify, hnone, rfl⟩⟩
      case isFalse hverify =>
        split at h
        case h_1 hdriver =>
          cases h
          exact ⟨i, _, rfl, .inr ⟨fun hu => hu.2, hnone, rfl⟩⟩
        case h_2 d' hdriver =>
          split at h
          case isTrue hsession =>
            cases h
            obtain ⟨p, hp, hvalue⟩ := phase_leave (s := s) (i := i) (coroutine i).failed
            exact ⟨i, p, hp, .inr ⟨fun hu => hu.2 hsession, hnone, hvalue⟩⟩
          case isFalse hsession =>
            cases h
            exact ⟨i, _, rfl, .inl ⟨⟨hverify, hsession⟩, .inl hnone.symm⟩⟩
  | fetched i raises =>
    rw [step] at h
    split at h
    case h_2 => cases h
    case h_1 d hphase =>
      cases h
      obtain ⟨p, hp, hvalue⟩ := phase_leave (s := s) (i := i)
        (if d ∈ s.closed ∧ raises = true then (coroutine i).failed else (coroutine i).value)
      refine ⟨i, p, hp, ?_⟩
      simp only [Settles, Undisturbed, hphase]
      by_cases hraises : d ∈ s.closed ∧ raises = true
      · rw [if_pos hraises] at hvalue
        exact .inr ⟨fun hu => hu hraises, rfl, hvalue⟩
      · rw [if_neg hraises] at hvalue
        exact .inl ⟨hraises, .inr ⟨rfl, hvalue⟩⟩
  | closed i =>
    rw [step] at h
    split at h
    case h_2 => cases h
    case h_1 v hphase =>
      cases h
      exact ⟨i, _, rfl, .inl ⟨trivial, .inl (by rw [hphase]; rfl)⟩⟩

/-- The values settled so far are the coroutines' own. -/
def Faithful (coroutine : ι → Coroutine β) (s : Shared ι β) : Prop :=
  ∀ i v, (s.phase i).value? = some v → v = (coroutine i).value

theorem value?_step (h : step coroutine s a = some s') {j : ι} {v : β} (hv : (s.phase j).value? = some v) :
    (s'.phase j).value? = some v := by
  obtain ⟨i, p, hphase, hsettles⟩ := step_settles h
  rw [hphase]
  by_cases hj : j = i
  · subst hj
    rw [Function.update_self]
    obtain ⟨-, hsame | ⟨hnone, -⟩⟩ | ⟨-, hnone, -⟩ := hsettles
    · exact hsame.trans hv
    · exact absurd hv (by rw [hnone]; exact fun h => by cases h)
    · exact absurd hv (by rw [hnone]; exact fun h => by cases h)
  · rw [Function.update_of_ne hj]
    exact hv

theorem faithful_step (h : step coroutine s a = some s') (hs : Faithful coroutine s) (ha : s.Undisturbed a) :
    Faithful coroutine s' := by
  obtain ⟨i, p, hphase, hsettles⟩ := step_settles h
  intro j v hv
  rw [hphase] at hv
  by_cases hj : j = i
  · subst hj
    rw [Function.update_self] at hv
    obtain ⟨-, hsame | ⟨-, hvalue⟩⟩ | ⟨hnot, -⟩ := hsettles
    · exact hs j v (hsame.symm.trans hv)
    · exact Option.some.inj (hv.symm.trans hvalue)
    · exact absurd ha hnot
  · rw [Function.update_of_ne hj] at hv
    exact hs j v hv

/-- Where no coroutine's own value is its error's, a disturbed step shows. -/
theorem undisturbed_of_faithful (hne : ∀ i, (coroutine i).failed ≠ (coroutine i).value)
    (h : step coroutine s a = some s') (hs' : Faithful coroutine s') : s.Undisturbed a := by
  obtain ⟨i, p, hphase, ⟨hu, -⟩ | ⟨-, -, hfailed⟩⟩ := step_settles h
  · exact hu
  · refine absurd (hs' i (coroutine i).failed ?_) (hne i)
    rw [hphase, Function.update_self, hfailed]

/-! ### Runs -/

theorem value?_run (h : run (step coroutine) s as = some t) {i : ι} {v : β} (hv : (s.phase i).value? = some v) :
    (t.phase i).value? = some v := by
  have hstep : ∀ s a s', (s.phase i).value? = some v → step coroutine s a = some s' → (s'.phase i).value? = some v :=
    fun _ _ _ hv hs => value?_step hs hv
  exact inv_run hstep h hv

/-- A coroutine that has not returned can go on. -/
theorem exists_step (h : ∀ v, s.phase i ≠ .done v) : ∃ a s', step coroutine s a = some s' := by
  cases hphase : s.phase i with
  | idle => exact ⟨.enter i, _, by rw [step, hphase]⟩
  | connecting d =>
    refine ⟨.verified i false false, Option.isSome_iff_exists.1 ?_⟩
    cases hdriver : s.driver <;> simp [step, hphase, hdriver]
  | querying d => exact ⟨.fetched i false, _, by rw [step, hphase]⟩
  | closing v => exact ⟨.closed i, _, by rw [step, hphase]⟩
  | done v => exact absurd hphase (h v)

/-- The backend after a coroutine that ran on it alone and returned `v`. -/
def afterAlone (s : Shared ι β) (i : ι) (v : β) : Shared ι β where
  driver := none
  made := s.made + 1
  closed := s.made :: s.closed
  phase := Function.update s.phase i (.done v)

theorem phase_afterAlone (v : β) : (s.afterAlone i v).phase = Function.update s.phase i (.done v) := rfl

theorem run_alone (hidle : s.phase i = .idle) (hfresh : ∀ d ∈ s.closed, d < s.made) :
    run (step coroutine) s [.enter i, .verified i true true, .fetched i true, .closed i] =
      some (s.afterAlone i (coroutine i).value) := by
  have hnew : s.made ∉ s.closed := fun hmem => Nat.lt_irrefl _ (hfresh _ hmem)
  simp [run, step, hidle, put, leave, hnew, afterAlone]

theorem afterAlone_fresh (v : β) (hfresh : ∀ d ∈ s.closed, d < s.made) :
    ∀ d ∈ (s.afterAlone i v).closed, d < (s.afterAlone i v).made := by
  intro d hd
  rcases List.mem_cons.1 hd with rfl | hd
  · exact Nat.lt_succ_self _
  · exact Nat.lt_succ_of_lt (hfresh d hd)

theorem run_sequential {order : List ι} (hidle : ∀ i ∈ order, s.phase i = .idle) (hnodup : order.Nodup)
    (hfresh : ∀ d ∈ s.closed, d < s.made) : ∃ u, run (step coroutine) s (sequential order) = some u ∧
      ∀ i, u.phase i = if i ∈ order then .done (coroutine i).value else s.phase i := by
  induction order generalizing s with
  | nil => exact ⟨s, rfl, fun i => rfl⟩
  | cons j order ih =>
    rw [List.forall_mem_cons] at hidle
    obtain ⟨hj, hnodup⟩ := List.nodup_cons.1 hnodup
    have hidle' : ∀ i ∈ order, (s.afterAlone j (coroutine j).value).phase i = .idle := by
      intro i hi
      have hij : i ≠ j := fun hij => hj (hij ▸ hi)
      rw [phase_afterAlone, Function.update_of_ne hij]
      exact hidle.2 i hi
    obtain ⟨u, hu, hphase⟩ := ih hidle' hnodup (afterAlone_fresh _ hfresh)
    refine ⟨u, ?_, fun i => ?_⟩
    · rw [sequential, List.flatMap_cons, run_append, run_alone hidle.1 hfresh, Option.bind_some]
      exact hu
    · rw [hphase i, phase_afterAlone]
      by_cases hi : i = j
      · subst hi
        rw [if_neg hj, Function.update_self, if_pos List.mem_cons_self]
      · simp only [Function.update_of_ne hi, List.mem_cons, or_iff_right hi]

/-- A run of coroutines that share a backend, and a run of them one after another. In the first they return what they
return in the second if it is undisturbed; where no coroutine's own value is its error's, then only. -/
theorem returns_iff {order : List ι} (hs : s.Ready) (hnodup : order.Nodup) (hall : ∀ i, i ∈ order)
    (ht : run (step coroutine) s as = some t) (hu : run (step coroutine) s (sequential order) = some u) :
    (Along (step coroutine) Undisturbed s as → ∀ i v, t.phase i = .done v → u.phase i = .done v) ∧
      ((∀ i, (coroutine i).failed ≠ (coroutine i).value) → (∀ i, ∃ v, t.phase i = .done v ∧ u.phase i = .done v) →
        Along (step coroutine) Undisturbed s as) := by
  obtain ⟨u', hu', hphase⟩ := run_sequential (fun i _ => hs.idle i) hnodup hs.fresh
  obtain rfl : u' = u := Option.some.inj (hu'.symm.trans hu)
  have hvalue : ∀ i, u'.phase i = .done (coroutine i).value := fun i => (hphase i).trans (if_pos (hall i))
  have hstart : Faithful coroutine s := fun i v hv => by rw [hs.idle i] at hv; cases hv
  constructor
  · intro halong i v hv
    have halways : Always (step coroutine) (Faithful coroutine) s as :=
      always_of_along (fun _ _ _ hs ha h => faithful_step h hs ha) (fun _ h => h) hstart halong
    have hfaithful := halways as t (List.prefix_refl as) ht
    rw [hvalue i, hfaithful i v (by rw [hv]; rfl)]
  · intro hne hdone
    have hiff : Always (step coroutine) (Faithful coroutine) s as ↔ Along (step coroutine) Undisturbed s as :=
      always_iff_along (fun _ _ _ _ _ => trivial)
        (fun _ _ _ _ hs h => ⟨undisturbed_of_faithful hne h, faithful_step h hs⟩) trivial hstart
    refine hiff.1 fun bs r hbs hr => ?_
    -- a value settled at `r` is the one returned at the end
    obtain ⟨cs, rfl⟩ := hbs
    rw [run_append, hr, Option.bind_some] at ht
    intro i v hv
    obtain ⟨w, hw, hw'⟩ := hdone i
    have hlast := value?_run ht hv
    rw [hw] at hlast
    rw [hvalue i] at hw'
    cases hlast
    cases hw'
    rfl

end Shared

/-! ### The coroutines of a snapshot -/

/-- A graph as a database, for the queries of `_build_snapshot`. -/
def snapshotDatabase (g : Graph) : Database := fun text params =>
  (snapshotQueries.find? fun q => q.text.toList = text).map fun q =>
    [[("c", .json (.num (q.count (fun name => params name.toList) g)))]]

variable {g : Graph} {tid : String} {q : CountQuery}

theorem snapshotQueries_nodup : (snapshotQueries.map CountQuery.text).Nodup := by
  rw [snapshotQueries_text]
  decide +kernel

/-- Alone, the coroutine of a query returns its count. -/
theorem value_snapshotCoroutine (h : q ∈ snapshotQueries) :
    (snapshotCoroutine (snapshotDatabase g) tid q).value = .json (.num (q.count (tidParam tid) g)) := by
  have hparams : ∀ q ∈ snapshotQueries, ∀ c ∈ q.conditions, c.param?.all (· = "tid") = true := by decide
  have hcount : q.count (fun name => withTid (tidParams tid) tid name.toList) g = q.count (tidParam tid) g := by
    refine CountQuery.count_congr_params fun c hc p hp => ?_
    have hall := hparams q h c hc
    rw [hp, Option.all_some, decide_eq_true_iff] at hall
    rw [hall]
    rfl
  have hask : ask (snapshotDatabase g) tid q.text.toList =
      some [[("c", .json (.num (q.count (tidParam tid) g)))]] := by
    rw [ask, if_pos (mentions_of_mem_snapshotQueries h), snapshotDatabase,
      CountQuery.find?_text snapshotQueries_nodup h, Option.map_some, hcount]
  rw [Coroutine.value, snapshotCoroutine, hask]
  rfl

/-- A tenant with a file that is not enriched, and a face. -/
def album : Graph := ⟨[⟨0, ["File"], Props.ofMap [("tenant_id", .str "a")]⟩,
  ⟨1, ["FaceCluster"], Props.ofMap [("tenant_id", .str "a")]⟩], [], 2⟩

/-- The coroutines for its files and its faces. -/
def albumCoroutine (faces : Bool) : Coroutine Cell :=
  snapshotCoroutine (snapshotDatabase album) "a" (if faces then unknownClustersQuery else filesRawQuery)

def unused : Shared Bool Cell := ⟨none, 0, [], fun _ => .idle⟩

theorem unused_ready : unused.Ready := ⟨fun _ => rfl, fun _ h => absurd h List.not_mem_nil⟩

/-- Both enter before either leaves, and have their rows before either closes the driver they share. -/
theorem album_overlapping : ∃ t u : Shared Bool Cell,
    run (Shared.step albumCoroutine) unused [.enter false, .enter true, .verified false true true,
      .verified true true true, .fetched false true, .fetched true false, .closed false, .closed true] = some t ∧
    run (Shared.step albumCoroutine) unused (Shared.sequential [false, true]) = some u ∧
    ∀ i v, t.phase i = .done v → u.phase i = .done v := by
  obtain ⟨t, ht⟩ : ∃ t, run (Shared.step albumCoroutine) unused [.enter false, .enter true, .verified false true true,
    .verified true true true, .fetched false true, .fetched true false, .closed false, .closed true] = some t := ⟨_, rfl⟩
  obtain ⟨u, hu⟩ : ∃ u, run (Shared.step albumCoroutine) unused (Shared.sequential [false, true]) = some u := ⟨_, rfl⟩
  refine ⟨t, u, ht, hu, (Shared.returns_iff unused_ready (by decide) (by decide) ht hu).1 ?_⟩
  have hopen (b : Bool) (d : ℕ) : ¬ (d ∈ ([] : List ℕ) ∧ b = true) := fun h => absurd h.1 List.not_mem_nil
  refine (along_cons_of_step rfl).2 ⟨trivial, (along_cons_of_step rfl).2 ⟨trivial, ?_⟩⟩
  refine (along_cons_of_step rfl).2 ⟨⟨hopen _ _, hopen _ _⟩, ?_⟩
  refine (along_cons_of_step rfl).2 ⟨⟨hopen _ _, hopen _ _⟩, ?_⟩
  refine (along_cons_of_step rfl).2 ⟨hopen _ _, ?_⟩
  refine (along_cons_of_step rfl).2 ⟨fun h => Bool.false_ne_true h.2, ?_⟩
  exact (along_cons_of_step rfl).2 ⟨trivial, (along_cons_of_step rfl).2 ⟨trivial, trivial⟩⟩

theorem filesRaw_mem : filesRawQuery ∈ snapshotQueries := List.mem_cons_of_mem _ List.mem_cons_self

/-- The first coroutine leaves while the second waits in `verify_connectivity`, and the second has no driver. -/
theorem album_miscounted : ¬ ∀ (coroutine : Bool → Coroutine Cell) (s t u : Shared Bool Cell) (as : List (Act Bool)),
    s.Ready → run (Shared.step coroutine) s as = some t →
      run (Shared.step coroutine) s (Shared.sequential [false, true]) = some u →
        ∀ i v, t.phase i = .done v → u.phase i = .done v := by
  intro h
  obtain ⟨t, ht, hzero⟩ : ∃ t, run (Shared.step albumCoroutine) unused [.enter false, .enter true,
      .verified true false false, .fetched true false, .closed true, .verified false false false] = some t ∧
      t.phase false = .done (.json (.num 0)) := ⟨_, rfl, rfl⟩
  obtain ⟨u, hu, hvalue⟩ : ∃ u, run (Shared.step albumCoroutine) unused (Shared.sequential [false, true]) = some u ∧
      u.phase false = .done (albumCoroutine false).value := ⟨_, rfl, rfl⟩
  have hsame := h albumCoroutine unused t u _ unused_ready ht hu false _ hzero
  have hone : (albumCoroutine false).value = .json (.num 1) := value_snapshotCoroutine filesRaw_mem
  rw [hvalue, hone] at hsame
  cases hsame

end Dgraphai.GraphBackend
