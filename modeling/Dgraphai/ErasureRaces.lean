import Dgraphai.Erasure

/-!
# Erasure jobs at the same time (`tasks/gdpr.py`)

Celery workers run the jobs of a tenant side by side, each in a read-committed transaction: the statements of a job
see what is committed and the job's own writes (`Db.erase` over the committed tables), and its locks keep two jobs from
writing one user or one e-mail. So each of two jobs may count the user of the other as active, and nobody erases the
graph. That cannot happen in a run in which no job is the last to count while the users it still sees are only those
of jobs that have counted before it (`graph_erased`).
-/

namespace Dgraphai.Gdpr

open Auth (Uuid Time)

/-- The arguments of `erase_user_data`. -/
structure Job where
  uid : Uuid
  tenantID : Uuid
  jobID : Uuid
  deriving DecidableEq, Repr

/-- How far the transaction of a job has come; `idle` before it is queued. -/
inductive Phase where
  | idle | queued | written | counted | committed
  deriving DecidableEq, Repr

def Phase.InFlight (p : Phase) : Prop := p = .written ∨ p = .counted

instance (p : Phase) : Decidable p.InFlight := inferInstanceAs (Decidable (_ ∨ _))

/-- The job has not counted the other users yet. -/
def Phase.ToCount (p : Phase) : Prop := p = .queued ∨ p = .written

instance (p : Phase) : Decidable p.ToCount := inferInstanceAs (Decidable (_ ∨ _))

/-- `world` is what is committed, `jobs` the jobs queued so far. -/
structure Workers where
  world : World
  jobs : List Job
  phase : Job → Phase
  /-- The tenants for which `_erase_graph_data` has returned. -/
  erased : List Uuid

inductive WorkerAction where
  /-- `queue_erasure_job`, or a delivery once more. -/
  | queue (job : Job)
  /-- The statements up to `update(User)`. -/
  | write (job : Job)
  /-- The check for other users, and `_erase_graph_data` if there are none. -/
  | count (job : Job)
  | commit (job : Job) (now : Time)
  /-- The job raises: it is rolled back, marked as failed and retried. -/
  | fail (job : Job) (error : String)

def Workers.setPhase (s : Workers) (job : Job) (p : Phase) : Workers :=
  { s with phase := Function.update s.phase job p }

/-- The row of the user and its new index entry are not locked by another job. -/
def Workers.Unlocked (s : Workers) (job : Job) : Prop :=
  ∀ k ∈ s.jobs, k ≠ job → (s.phase k).InFlight → k.uid ≠ job.uid ∧ (k.tenantID = job.tenantID →
    shortID k.uid ≠ shortID job.uid)

instance (s : Workers) (job : Job) : Decidable (s.Unlocked job) :=
  inferInstanceAs (Decidable (∀ k ∈ s.jobs, _))

/-- The other active users that a job sees. -/
def Workers.othersSeen (s : Workers) (job : Job) : List User :=
  (s.world.db.erase job.uid job.jobID).otherUsers job.uid job.tenantID

def Workers.retry (s : Workers) (job : Job) (error : String) : Workers :=
  { s.setPhase job .queued with world := { s.world with db := s.world.db.fail job.jobID error } }

/-- The job row is added and the task is sent. -/
def Workers.enqueue (s : Workers) (job : Job) : Workers :=
  let row : GDPRErasureJob := ⟨job.uid, job.tenantID, .pending, none, none⟩
  { s.setPhase job .queued with
    jobs := if job ∈ s.jobs then s.jobs else job :: s.jobs
    world :=
      { s.world with db := { s.world.db with jobs := Function.update s.world.db.jobs job.jobID (some row) } } }

/-- The check for other users has passed, and left the graph of `w`. -/
def Workers.counted (s : Workers) (job : Job) (w : World) : Workers :=
  { s.setPhase job .counted with
    world := w
    erased := if s.othersSeen job = [] then job.tenantID :: s.erased else s.erased }

def Workers.committed (s : Workers) (job : Job) (now : Time) : Workers :=
  { s.setPhase job .committed with
    world := { s.world with db := (s.world.db.erase job.uid job.jobID).complete job.jobID now } }

def Workers.step (E : Env) (s : Workers) : WorkerAction → Option Workers
  | .queue job =>
    if (s.phase job = .idle ∨ s.phase job = .committed) ∧
        ∃ u ∈ s.world.db.users, u.id = job.uid ∧ u.tenantID = job.tenantID then
      some (s.enqueue job)
    else none
  | .write job =>
    if s.phase job = .queued ∧ s.Unlocked job ∧ s.world.db.PlaceholderFree job.uid then
      some (s.setPhase job .written)
    else none
  | .count job =>
    if s.phase job = .written then
      match eraseIfLast E job.tenantID (s.othersSeen job) s.world with
      | (.ok (), w) => some (s.counted job w)
      | (.error e, w) => some ({ s with world := { s.world with graph := w.graph } }.retry job e)
    else none
  | .commit job now =>
    if s.phase job = .counted then some (s.committed job now) else none
  | .fail job error => if s.phase job = .idle ∨ s.phase job = .committed then none else some (s.retry job error)

/-- No job has been queued. -/
def Workers.start (w : World) : Workers := ⟨w, [], fun _ => .idle, []⟩

/-! ### The claim on the jobs of a tenant -/

/-- Where every job of a tenant has committed and no user of it is active, the graph data are erased. -/
def GraphErased (s : Workers) : Prop :=
  ∀ tenantID, (∃ j ∈ s.jobs, j.tenantID = tenantID) →
    (∀ j ∈ s.jobs, j.tenantID = tenantID → s.phase j = .committed) →
    (∀ u ∈ s.world.db.users, u.tenantID = tenantID → u.isActive = false) →
    tenantID ∈ s.erased ∧ ((s.world.db.tenants tenantID).isSome → tenantID ∉ s.world.graph)

/-- A job that counts and sees other active users is not the last one to count, or sees a user whom no job that has
counted deactivates; or the graph has been erased before. -/
def Workers.Safe (s : Workers) : WorkerAction → Prop
  | .count job =>
    s.othersSeen job = [] ∨ job.tenantID ∈ s.erased ∨
      (∃ k ∈ s.jobs, k ≠ job ∧ k.tenantID = job.tenantID ∧ (s.phase k).ToCount) ∨
      ∃ u ∈ s.othersSeen job, ∀ k ∈ s.jobs, k.uid = u.id → s.phase k ≠ .counted
  | _ => True

instance (s : Workers) : ∀ a, Decidable (s.Safe a)
  | .count _ => inferInstanceAs (Decidable (_ ∨ _ ∨ (∃ k ∈ s.jobs, _) ∨ ∃ u ∈ s.othersSeen _, ∀ k ∈ s.jobs, _))
  | .queue _ | .write _ | .commit _ _ | .fail _ _ => .isTrue trivial

/-! ### Invariant -/

/-- No job of the tenant is still to count, and its active users are those of jobs about to commit. -/
structure Settled (s : Workers) (tenantID : Uuid) : Prop where
  some_job : ∃ j ∈ s.jobs, j.tenantID = tenantID
  counted : ∀ j ∈ s.jobs, j.tenantID = tenantID → ¬ (s.phase j).ToCount
  active : ∀ u ∈ s.world.db.users, u.tenantID = tenantID → u.isActive = true →
    ∃ k ∈ s.jobs, k.uid = u.id ∧ s.phase k = .counted

structure Workers.Inv (s : Workers) : Prop where
  keys : (s.world.db.users.map (·.id)).Nodup
  owners : ∀ j ∈ s.jobs, ∀ u ∈ s.world.db.users, u.id = j.uid → u.tenantID = j.tenantID
  listed : ∀ j, s.phase j ≠ .idle → j ∈ s.jobs
  graph : ∀ t ∈ s.erased, (s.world.db.tenants t).isSome → t ∉ s.world.graph
  last : ∀ t, Settled s t → t ∈ s.erased

section
variable {E : Env} {s s' : Workers} {job : Job} {t : Uuid}

theorem Workers.Inv.graphErased (h : s.Inv) : GraphErased s := by
  intro t hjob hall hinactive
  have hsettled : Settled s t := by
    refine ⟨hjob, fun j hj hjt hcount => ?_, fun u hu hut hactive => ?_⟩
    · rw [hall j hj hjt] at hcount
      rcases hcount with hcount | hcount <;> cases hcount
    · rw [hinactive u hu hut] at hactive
      cases hactive
  have hmem := h.last t hsettled
  exact ⟨hmem, h.graph t hmem⟩

/-- A job that is to count keeps its tenant unsettled, and does not matter to another one. -/
theorem Settled.of_toCount {p : Phase} (hp : p.ToCount) (hphase : s'.phase = Function.update s.phase job p)
    (hjobs : ∀ k, k ∈ s'.jobs ↔ k = job ∨ k ∈ s.jobs) (husers : s'.world.db.users = s.world.db.users)
    (h : Settled s' t) : Settled s t := by
  have hself : s'.phase job = p := by rw [hphase, Function.update_self]
  have hother : ∀ k, k ≠ job → s'.phase k = s.phase k := fun k hne => by rw [hphase, Function.update_of_ne hne]
  have htenant : job.tenantID ≠ t := by
    intro heq
    refine h.counted job ((hjobs job).2 (.inl rfl)) heq ?_
    rw [hself]
    exact hp
  have hne : ∀ k : Job, k.tenantID = t → k ≠ job := fun k hk heq => htenant (heq ▸ hk)
  refine ⟨?_, fun j hj hjt => ?_, fun u hu hut hactive => ?_⟩
  · obtain ⟨j, hj, hjt⟩ := h.some_job
    exact ⟨j, ((hjobs j).1 hj).resolve_left (hne j hjt), hjt⟩
  · rw [← hother j (hne j hjt)]
    exact h.counted j ((hjobs j).2 (.inr hj)) hjt
  · obtain ⟨k, hk, hku, hkp⟩ := h.active u (husers ▸ hu) hut hactive
    have hkne : k ≠ job := by
      rintro rfl
      rw [hself] at hkp
      rw [hkp] at hp
      rcases hp with hp | hp <;> cases hp
    exact ⟨k, ((hjobs k).1 hk).resolve_left hkne, hku, by rw [← hother k hkne]; exact hkp⟩

theorem Workers.Inv.of_toCount (h : s.Inv) {p : Phase} (hp : p.ToCount)
    (hphase : s'.phase = Function.update s.phase job p) (hjobs : ∀ k, k ∈ s'.jobs ↔ k = job ∨ k ∈ s.jobs)
    (husers : s'.world.db.users = s.world.db.users) (htenants : s'.world.db.tenants = s.world.db.tenants)
    (hgraph : s'.world.graph.Sublist s.world.graph) (herased : s'.erased = s.erased)
    (howner : ∀ u ∈ s.world.db.users, u.id = job.uid → u.tenantID = job.tenantID) : s'.Inv where
  keys := by rw [husers]; exact h.keys
  owners j hj u hu huid := by
    rw [husers] at hu
    rcases (hjobs j).1 hj with rfl | hj
    · exact howner u hu huid
    · exact h.owners j hj u hu huid
  listed j hj := by
    rw [hphase] at hj
    by_cases hne : j = job
    · exact (hjobs j).2 (.inl hne)
    · rw [Function.update_of_ne hne] at hj
      exact (hjobs j).2 (.inr (h.listed j hj))
  graph t ht hsome hmem := by
    rw [herased] at ht
    rw [htenants] at hsome
    exact h.graph t ht hsome (hgraph.subset hmem)
  last t ht := by
    rw [herased]
    exact h.last t (ht.of_toCount hp hphase hjobs husers)

theorem eraseLoop_sublist (E : Env) (backend : String) (tenantID : Uuid) (fuel batch : Nat) (graph : List Uuid) :
    (eraseLoop E backend tenantID fuel batch graph).2.Sublist graph := by
  induction fuel generalizing batch graph with
  | zero => exact List.Sublist.refl graph
  | succ fuel ih =>
    rw [eraseLoop]
    cases E.graphError backend batch with
    | some e => exact List.Sublist.refl graph
    | none =>
      have hsub : (removeFirst tenantID 10000 graph).Sublist graph := removeFirst_sublist 10000 graph
      dsimp only
      split_ifs
      · exact hsub
      · exact (ih (batch + 1) _).trans hsub

theorem eraseIfLast_graph {others : List User} {r : Except String Unit} {w w' : World}
    (h : eraseIfLast E t others w = (r, w')) : w'.graph.Sublist w.graph := by
  unfold eraseIfLast at h
  split_ifs at h
  · unfold eraseGraphData at h
    cases htenant : w.db.tenants t with
    | none =>
      simp only [htenant, Prod.mk.injEq] at h
      rw [← h.2]
    | some tenant =>
      have hsub := eraseLoop_sublist E tenant.backend t (w.graph.length + 1) 0 w.graph
      simp only [htenant, Prod.mk.injEq] at h
      rw [← h.2]
      exact hsub
  · cases h
    exact List.Sublist.refl _

@[simp] theorem Workers.erased_counted {w : World} : (s.counted job w).erased =
    if s.othersSeen job = [] then job.tenantID :: s.erased else s.erased := rfl

@[simp] theorem Workers.users_committed {now : Time} : (s.committed job now).world.db.users =
    s.world.db.users.map fun u => if u.id = job.uid then u.anonymize else u := rfl

theorem Workers.Inv.count (h : s.Inv) (hphase : s.phase job = .written) (hsafe : s.Safe (.count job)) {w : World}
    (hlast : eraseIfLast E job.tenantID (s.othersSeen job) s.world = (.ok (), w)) : (s.counted job w).Inv := by
  have hdb : w.db = s.world.db := eraseIfLast_db hlast
  have hjob : job ∈ s.jobs := h.listed job (by rw [hphase]; intro hno; cases hno)
  have hself : Function.update s.phase job .counted job = .counted := Function.update_self ..
  have hother : ∀ k, k ≠ job → Function.update s.phase job .counted k = s.phase k :=
    fun k hne => Function.update_of_ne hne ..
  have hmono : ∀ t, t ∈ s.erased → t ∈ if s.othersSeen job = [] then job.tenantID :: s.erased else s.erased := by
    intro t ht
    split_ifs
    · exact List.mem_cons_of_mem _ ht
    · exact ht
  refine ⟨?_, fun j hj u hu => ?_, fun j hj => ?_, fun t ht hsome hmem => ?_, fun t ht => ?_⟩
  · show (w.db.users.map (·.id)).Nodup
    rw [hdb]
    exact h.keys
  · have hu : u ∈ w.db.users := hu
    rw [hdb] at hu
    exact h.owners j hj u hu
  · have hj : Function.update s.phase job .counted j ≠ .idle := hj
    by_cases hne : j = job
    · rw [hne]; exact hjob
    · rw [hother j hne] at hj
      exact h.listed j hj
  · have hsome : (w.db.tenants t).isSome := hsome
    have hmem : t ∈ w.graph := hmem
    rw [hdb] at hsome
    by_cases hnone : s.othersSeen job = []
    · have ht : t ∈ job.tenantID :: s.erased := by simpa [hnone] using ht
      rcases List.mem_cons.1 ht with rfl | ht
      · rw [eraseIfLast, if_pos hnone] at hlast
        obtain ⟨tenant, htenant⟩ := Option.isSome_iff_exists.1 hsome
        rw [(eraseGraphData_spec hlast).2 tenant htenant] at hmem
        simp at hmem
      · exact h.graph t ht hsome ((eraseIfLast_graph hlast).subset hmem)
    · have ht : t ∈ s.erased := by simpa [hnone] using ht
      exact h.graph t ht hsome ((eraseIfLast_graph hlast).subset hmem)
  · obtain ⟨⟨i, hi, hit⟩, hcounted, hactive⟩ := ht
    simp only [Workers.counted, Workers.setPhase, hdb] at hi hcounted hactive
    by_cases htenant : job.tenantID = t
    · subst htenant
      rcases hsafe with hnone | herased | ⟨k, hk, hne, hkt, hcount⟩ | ⟨u, hu, hfree⟩
      · simp [hnone]
      · exact hmono _ herased
      · refine absurd ?_ (hcounted k hk hkt)
        rw [hother k hne]
        exact hcount
      · -- the user that is seen is active, and not that of this job
        obtain ⟨hmem, hseen⟩ := List.mem_filter.1 hu
        obtain ⟨hut, hne, hact⟩ := of_decide_eq_true hseen
        rw [users_erase, List.mem_map] at hmem
        obtain ⟨v, hv, rfl⟩ := hmem
        have hvne : v.id ≠ job.uid := by
          intro heq
          rw [if_pos heq] at hne
          exact hne heq
        rw [if_neg hvne] at hut hact hfree
        obtain ⟨k, hk, hku, hkp⟩ := hactive v hv hut hact
        have hkne : k ≠ job := by
          rintro rfl
          exact hvne hku.symm
        rw [hother k hkne] at hkp
        exact absurd hkp (hfree k hk hku)
    · refine hmono t (h.last t ⟨⟨i, hi, hit⟩, fun j hj hjt => ?_, fun u hu hut hact => ?_⟩)
      · have hne : j ≠ job := by
          rintro rfl
          exact htenant hjt
        rw [← hother j hne]
        exact hcounted j hj hjt
      · obtain ⟨k, hk, hku, hkp⟩ := hactive u hu hut hact
        have hne : k ≠ job := by
          rintro rfl
          exact htenant ((h.owners k hjob u hu hku.symm).symm.trans hut)
        rw [hother k hne] at hkp
        exact ⟨k, hk, hku, hkp⟩

theorem Workers.Inv.commit (h : s.Inv) (hphase : s.phase job = .counted) (now : Time) :
    (s.committed job now).Inv := by
  have hjob : job ∈ s.jobs := h.listed job (by rw [hphase]; intro hno; cases hno)
  have hself : Function.update s.phase job .committed job = .committed := Function.update_self ..
  have hother : ∀ k, k ≠ job → Function.update s.phase job .committed k = s.phase k :=
    fun k hne => Function.update_of_ne hne ..
  have hids : ∀ u : User, (if u.id = job.uid then u.anonymize else u).id = u.id ∧
      (if u.id = job.uid then u.anonymize else u).tenantID = u.tenantID := by
    intro u
    split_ifs <;> exact ⟨rfl, rfl⟩
  refine ⟨?_, fun j hj u hu huid => ?_, fun j hj => ?_, h.graph, fun t ht => ?_⟩
  · rw [Workers.users_committed, List.map_map]
    simpa only [Function.comp_def, hids] using h.keys
  · rw [Workers.users_committed, List.mem_map] at hu
    obtain ⟨v, hv, rfl⟩ := hu
    rw [(hids v).1] at huid
    rw [(hids v).2]
    exact h.owners j hj v hv huid
  · have hj : Function.update s.phase job .committed j ≠ .idle := hj
    by_cases hne : j = job
    · rw [hne]; exact hjob
    · rw [hother j hne] at hj
      exact h.listed j hj
  · obtain ⟨hi, hcounted, hactive⟩ := ht
    simp only [Workers.committed, Workers.setPhase] at hi hcounted hactive
    refine h.last t ⟨hi, fun j hj hjt => ?_, fun u hu hut hact => ?_⟩
    · by_cases hne : j = job
      · rw [hne, hphase]
        decide
      · rw [← hother j hne]
        exact hcounted j hj hjt
    · by_cases huid : u.id = job.uid
      · exact ⟨job, hjob, huid.symm, hphase⟩
      · have hu' : u ∈ ((s.world.db.erase job.uid job.jobID).complete job.jobID now).users := by
          rw [users_complete, users_erase, List.mem_map]
          exact ⟨u, hu, if_neg huid⟩
        obtain ⟨k, hk, hku, hkp⟩ := hactive u hu' hut hact
        have hne : k ≠ job := by
          rintro rfl
          rw [hself] at hkp
          cases hkp
        rw [hother k hne] at hkp
        exact ⟨k, hk, hku, hkp⟩

theorem Workers.Inv.step (h : s.Inv) {a : WorkerAction} (hsafe : s.Safe a) (hstep : s.step E a = some s') :
    s'.Inv := by
  have hlisted : ∀ {j : Job}, s.phase j ≠ .idle → ∀ k, k ∈ s.jobs ↔ k = j ∨ k ∈ s.jobs := by
    intro j hj k
    constructor
    · exact .inr
    · rintro (rfl | hk)
      · exact h.listed k hj
      · exact hk
  cases a with
  | queue job =>
    simp only [Workers.step] at hstep
    split_ifs at hstep with hguard
    obtain ⟨-, v, hv, hvid, hvt⟩ := hguard
    obtain rfl := Option.some.inj hstep
    refine h.of_toCount (.inl rfl) rfl (fun k => ?_) rfl rfl (List.Sublist.refl _) rfl fun u hu huid => ?_
    · show k ∈ (if job ∈ s.jobs then s.jobs else job :: s.jobs) ↔ k = job ∨ k ∈ s.jobs
      split_ifs with hmem
      · constructor
        · exact .inr
        · rintro (rfl | hk)
          · exact hmem
          · exact hk
      · exact List.mem_cons
    · rw [List.inj_on_of_nodup_map h.keys hu hv (huid.trans hvid.symm), hvt]
  | write job =>
    simp only [Workers.step] at hstep
    split_ifs at hstep with hguard
    obtain rfl := Option.some.inj hstep
    have hphase : s.phase job ≠ .idle := by rw [hguard.1]; decide
    exact h.of_toCount (.inr rfl) rfl (hlisted hphase) rfl rfl (List.Sublist.refl _) rfl
      (h.owners job (h.listed job hphase))
  | count job =>
    simp only [Workers.step] at hstep
    split_ifs at hstep with hguard
    have hphase : s.phase job ≠ .idle := by rw [hguard]; decide
    split at hstep
    · rename_i w hlast
      obtain rfl := Option.some.inj hstep
      exact h.count hguard hsafe hlast
    · rename_i e w hlast
      obtain rfl := Option.some.inj hstep
      have hgraph : w.graph.Sublist s.world.graph := eraseIfLast_graph hlast
      exact h.of_toCount (.inl rfl) rfl (hlisted hphase) rfl rfl hgraph rfl (h.owners job (h.listed job hphase))
  | commit job now =>
    simp only [Workers.step] at hstep
    split_ifs at hstep with hguard
    obtain rfl := Option.some.inj hstep
    exact h.commit hguard now
  | fail job error =>
    simp only [Workers.step] at hstep
    split_ifs at hstep with hguard
    obtain rfl := Option.some.inj hstep
    have hphase : s.phase job ≠ .idle := fun hidle => hguard (.inl hidle)
    exact h.of_toCount (.inl rfl) rfl (hlisted hphase) rfl rfl (List.Sublist.refl _) rfl
      (h.owners job (h.listed job hphase))

end

theorem Workers.inv_start {w : World} (hkeys : (w.db.users.map (·.id)).Nodup) : (Workers.start w).Inv where
  keys := hkeys
  owners j hj := by cases hj
  listed j hj := absurd rfl hj
  graph t ht := by cases ht
  last t ht := by
    obtain ⟨j, hj, -⟩ := ht.some_job
    cases hj

/-- In every run whose counts are safe, the graph data of a tenant are erased once all its jobs have committed and none
of its users is active. -/
theorem graph_erased (E : Env) (w : World) (hkeys : (w.db.users.map (·.id)).Nodup) (as : List WorkerAction)
    (h : Runs.Along (Workers.step E) Workers.Safe (Workers.start w) as) :
    Runs.Always (Workers.step E) GraphErased (Workers.start w) as :=
  Runs.always_of_along (fun _ _ _ hinv hsafe hstep => hinv.step hsafe hstep) (fun _ hinv => hinv.graphErased)
    (Workers.inv_start hkeys) h

/-! ### One job alone, and two at once -/

/-- `_erase_graph_data` reads only the tenants. -/
theorem eraseIfLast_congr {E : Env} {t : Uuid} {others : List User} (w : World) {db : Db}
    (htenants : db.tenants = w.db.tenants) : eraseIfLast E t others { w with db := db } =
      ((eraseIfLast E t others w).1, { (eraseIfLast E t others w).2 with db := db }) := by
  by_cases hnone : others = []
  · have hdef : eraseIfLast E t others = eraseGraphData E t := if_pos hnone
    rw [hdef]
    unfold eraseGraphData
    dsimp only
    rw [htenants]
    cases w.db.tenants t <;> rfl
  · have hdef : eraseIfLast E t others = pure () := if_neg hnone
    rw [hdef]
    rfl

/-- A job that nobody meets does what `_erase_user_data_async` does. -/
theorem Workers.run_alone {E : Env} {s : Workers} {job : Job} {now : Time} {w : World} (hphase : s.phase job = .queued)
    (halone : ∀ k ∈ s.jobs, ¬ (s.phase k).InFlight)
    (h : eraseUserDataAsync E now job.uid job.tenantID job.jobID s.world = (.ok (), w)) :
    ∃ s', Runs.run (Workers.step E) s [.write job, .count job, .commit job now] = some s' ∧ s'.world = w := by
  obtain ⟨hfree, w₁, hlast, rfl⟩ := eraseUserData_eq_ok.1 (eraseUserDataAsync_eq_ok.1 h)
  have hunlocked : s.Unlocked job := fun k hk _ hflight => absurd hflight (halone k hk)
  have hwrite : s.step E (.write job) = some (s.setPhase job .written) := if_pos ⟨hphase, hunlocked, hfree⟩
  have hwritten : (s.setPhase job .written).phase job = .written := Function.update_self ..
  have hsame : eraseIfLast E job.tenantID (s.othersSeen job)
      { s.world with db := s.world.db.erase job.uid job.jobID } =
        ((eraseIfLast E job.tenantID (s.othersSeen job) s.world).1,
          { (eraseIfLast E job.tenantID (s.othersSeen job) s.world).2 with
            db := s.world.db.erase job.uid job.jobID }) := eraseIfLast_congr s.world tenants_erase
  obtain ⟨hok, rfl⟩ := Prod.mk.inj (hsame.symm.trans hlast)
  obtain ⟨w₂, heval⟩ : ∃ w₂, eraseIfLast E job.tenantID (s.othersSeen job) s.world = (.ok (), w₂) :=
    ⟨_, Prod.ext hok rfl⟩
  have hcount : (s.setPhase job .written).step E (.count job) = some ((s.setPhase job .written).counted job w₂) := by
    have heval' : eraseIfLast E job.tenantID ((s.setPhase job .written).othersSeen job)
        (s.setPhase job .written).world = (.ok (), w₂) := heval
    simp only [Workers.step, hwritten, if_true, heval']
  have hcounted : ((s.setPhase job .written).counted job w₂).phase job = .counted := Function.update_self ..
  refine ⟨((s.setPhase job .written).counted job w₂).committed job now, ?_, ?_⟩
  · simp only [Runs.run, hwrite, Option.bind_some, hcount]
    simp only [Workers.step, hcounted, if_true, Option.bind_some]
  · have hdb : w₂.db = s.world.db := eraseIfLast_db heval
    show (⟨(w₂.db.erase job.uid job.jobID).complete job.jobID now, w₂.graph⟩ : World) = _
    rw [hdb, heval]

def annJob : Job := ⟨"u1", "t1", "j1"⟩

def bobJob : Job := ⟨"u2", "t1", "j2"⟩

def twoActive : World where
  db :=
    { tenants := Function.update (fun _ => none) "t1" (some ⟨none⟩)
      users :=
        [⟨"u1", "t1", "ann@acme.com", some "Ann", none, none, true⟩,
          ⟨"u2", "t1", "bob@acme.com", some "Bob", none, none, true⟩]
      authRows := fun _ => []
      auditLogs := []
      userInvites := []
      jobs := fun _ => none }
  graph := ["t1", "t1"]

def sideBySide : List WorkerAction :=
  [.queue annJob, .queue bobJob, .write annJob, .write bobJob, .count annJob, .count bobJob, .commit annJob 0,
    .commit bobJob 0]

/-- Two jobs that count before either has committed: no user is left, and the graph stays. -/
theorem graph_not_erased : ¬ Runs.Always (Workers.step upEnv) GraphErased (Workers.start twoActive) sideBySide := by
  intro h
  have hlast := h sideBySide _ (List.prefix_refl _) rfl "t1" ⟨annJob, by decide, rfl⟩ (by decide) (by decide)
  have hmem := hlast.1
  revert hmem
  decide

/-- One after the other. -/
theorem graph_erased_in_turn : Runs.Always (Workers.step upEnv) GraphErased (Workers.start twoActive)
    [.queue annJob, .queue bobJob, .write annJob, .count annJob, .commit annJob 0, .write bobJob, .count bobJob,
      .commit bobJob 0] := by
  refine graph_erased upEnv twoActive (by decide) _ ?_
  decide

end Dgraphai.Gdpr
