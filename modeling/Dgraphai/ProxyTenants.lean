import Dgraphai.ProxyReplay

/-!
# Stores of several tenants in one data directory (`dgraph-proxy/internal/store/store.go`)

A key names its tenant between two colons, and both a tenant id and a node id may hold colons. Keys of different
tenants are apart exactly where neither tenant id with its colon begins the other (`not_under_both`), and there the
stores are (`partitioned_iff`); delta keys end in digits and never meet.
-/

namespace Dgraphai.Proxy

/-- The data directory with the store that has it open, and the sequences of the tenants. -/
structure Directory where
  store : Store
  sequences : String → ℕ

def Directory.start (tenantID : String) : Directory := ⟨Store.open tenantID, fun _ => 0⟩

inductive DirectoryAction where
  | op (a : Action)
  /-- The store is closed and one of a tenant is opened; `lost` numbers of the lease are never used. -/
  | openAs (tenantID : String) (lost : ℕ)

def Directory.step (d : Directory) : DirectoryAction → Option Directory
  | .op a => (d.store.step a).map fun store => { d with store := store }
  | .openAs tenantID lost =>
    let sequences := Function.update d.sequences d.store.tenantID (d.store.nextSeq + lost)
    some ⟨{ Store.open tenantID with kv := d.store.kv, nextSeq := sequences tenantID }, sequences⟩

/-! ### Readers -/

/-- The items under `<space><tenant>:`. -/
def Store.scan (s : Store) (space : String) : List (String × Value) :=
  s.kv.toList.filter fun item => (space ++ s.tenantID ++ ":").toList.isPrefixOf item.1.toList

inductive Reader where
  | getNode (id : String)
  | scanNodes
  | scanEdges
  | drainDeltas (n : ℤ)
  | pendingDeltaCount

/-- The records that a reader returns or counts. -/
def Reader.records (s : Store) : Reader → List Value
  | .getNode id => s.kv[nodeKey s.tenantID id]?.toList
  | .scanNodes => (s.scan "n:").map Prod.snd
  | .scanEdges => (s.scan "e:").map Prod.snd
  | .drainDeltas n => (s.pending.take n.toNat).map .delta
  | .pendingDeltaCount => (s.scan "d:").map Prod.snd

/-- The tenant that a record was written for. -/
def Value.tenant? : Value → Option String
  | .data (.obj fields) =>
    match fields.lookup "tenant_id" with
    | some (.str tenantID) => some tenantID
    | _ => none
  | .data _ => none
  | .delta d => some d.tenantID

/-- While the store of `tenantID` is open, it shows and changes no record of `other`. -/
def Partitioned (tenantID other : String) : Prop :=
  ∀ (first : String) (actions : List DirectoryAction) (d : Directory),
    Runs.run Directory.step (Directory.start first) actions = some d → d.store.tenantID = tenantID →
      (∀ r : Reader, ∀ v ∈ r.records d.store, v.tenant? ≠ some other) ∧
        ∀ a s', d.store.step a = some s' → ∀ (key : String) v, d.store.kv[key]? = some v → v.tenant? = some other →
          s'.kv[key]? = some v

/-- Neither id with its colon begins the other. -/
def Separate (t t' : String) : Prop :=
  ¬ t.toList ++ [':'] <+: t'.toList ++ [':'] ∧ ¬ t'.toList ++ [':'] <+: t.toList ++ [':']

instance (t t' : String) : Decidable (Separate t t') := inferInstanceAs (Decidable (_ ∧ _))

/-! ### Keys of a tenant -/

/-- The key is of one of the three spaces of a tenant. -/
def Under (t key : String) : Prop := ∃ c rest, key.toList = c :: ':' :: (t.toList ++ ':' :: rest)

variable {t t' key : String}

theorem under_encode (t : String) (k : GraphKey) : Under t (k.encode t) := by
  cases k with
  | node id => exact ⟨'n', id.toList, by simp [GraphKey.encode, nodeKey]⟩
  | edge id => exact ⟨'e', id.toList, by simp [GraphKey.encode, edgeKey]⟩

theorem under_deltaKey (t : String) (n : ℕ) : Under t (deltaKey t n) :=
  ⟨'d', (pad20 n).toList, by simp [deltaKey]⟩

theorem under_of_isPrefixOf {space : String} {c : Char} (hspace : space.toList = [c, ':'])
    (h : (space ++ t ++ ":").toList.isPrefixOf key.toList = true) : Under t key := by
  obtain ⟨rest, hrest⟩ := List.isPrefixOf_iff_prefix.1 h
  refine ⟨c, rest, ?_⟩
  rw [← hrest]
  simp [hspace]

/-- A key in the spaces of two tenants begins with both ids. -/
theorem not_under_both (h : Separate t t') (hkey : Under t key) : ¬ Under t' key := by
  rintro ⟨c', rest', hkey'⟩
  obtain ⟨c, rest, hkey⟩ := hkey
  rw [hkey] at hkey'
  have htail : t.toList ++ ':' :: rest = t'.toList ++ ':' :: rest' := (List.cons.inj (List.cons.inj hkey').2).2
  have hpre : t.toList ++ [':'] <+: t.toList ++ ':' :: rest := ⟨rest, by rw [List.append_assoc]; rfl⟩
  have hpre' : t'.toList ++ [':'] <+: t.toList ++ ':' :: rest := ⟨rest', by rw [htail, List.append_assoc]; rfl⟩
  rcases List.prefix_or_prefix_of_prefix hpre hpre' with hp | hp
  · exact h.1 hp
  · exact h.2 hp

/-! ### What a step writes -/

theorem tenant?_update (call : Call) (tenantID : String) (now : Time) {j : Json}
    (h : (call.update tenantID now).value = some j) : (Value.data j).tenant? = some tenantID := by
  cases call with
  | upsertNode node uuid =>
    obtain rfl := Option.some.inj h
    rfl
  | deleteNode id => cases h
  | upsertEdge edge uuid =>
    obtain rfl := Option.some.inj h
    rfl

theorem tenant?_delta (t : Txn) (tenantID : String) (n : ℕ) : (Value.delta (t.delta tenantID n)).tenant? = some tenantID := by
  cases t with
  | mk call now seq => cases call <;> rfl

/-- An item as it was, or one of the tenant: gone, or written for it. -/
def Touches (tenantID : String) (kv kv' : KV) (key : String) : Prop :=
  kv'[key]? = kv[key]? ∨ Under tenantID key ∧ ∀ v, kv'[key]? = some v → v.tenant? = some tenantID

variable {s s' : Store}

theorem touches_write (s : Store) (txn : Txn) (n : ℕ) (key : String) :
    Touches s.tenantID s.kv (s.write txn n) key := by
  unfold Touches
  rw [Store.getElem?_write]
  split_ifs with hdelta hgraph
  · right
    refine ⟨hdelta ▸ under_deltaKey s.tenantID n, fun v hv => ?_⟩
    rw [← Option.some.inj hv]
    exact tenant?_delta txn s.tenantID n
  · right
    refine ⟨hgraph ▸ under_encode s.tenantID _, fun v hv => ?_⟩
    obtain ⟨j, hj, rfl⟩ := Option.map_eq_some_iff.1 hv
    exact tenant?_update txn.call s.tenantID txn.now hj
  · exact .inl rfl

theorem touches_ackDeltas (s : Store) (seqs : List ℕ) (key : String) :
    (seqs.foldl Store.ackOne s).tenantID = s.tenantID ∧ Touches s.tenantID s.kv (seqs.foldl Store.ackOne s).kv key := by
  induction seqs generalizing s with
  | nil => exact ⟨rfl, .inl rfl⟩
  | cons n seqs ih =>
    obtain ⟨htenant, hrest⟩ := ih (s.ackOne n)
    refine ⟨htenant, ?_⟩
    have hone : (s.ackOne n).kv[key]? = if deltaKey s.tenantID n = key then none else s.kv[key]? :=
      KV.getElem?_put s.kv _ key none
    rcases hrest with hsame | hown
    · by_cases hkey : deltaKey s.tenantID n = key
      · refine .inr ⟨hkey ▸ under_deltaKey s.tenantID n, fun v hv => ?_⟩
        rw [List.foldl_cons, hsame, hone, if_pos hkey] at hv
        cases hv
      · left
        rw [List.foldl_cons, hsame, hone, if_neg hkey]
    · exact .inr hown

theorem step_touches {a : Action} (h : s.step a = some s') (key : String) :
    s'.tenantID = s.tenantID ∧ Touches s.tenantID s.kv s'.kv key := by
  cases a with
  | call g c now =>
    simp only [Store.step] at h
    split at h
    · cases h; exact ⟨rfl, .inl rfl⟩
    · cases h
  | next g =>
    simp only [Store.step] at h
    split at h
    · cases h; exact ⟨rfl, .inl rfl⟩
    · cases h
  | commit g =>
    simp only [Store.step] at h
    split at h
    · cases h; exact ⟨rfl, touches_write s _ _ key⟩
    · cases h
  | fail g =>
    simp only [Store.step] at h
    split at h
    · cases h; exact ⟨rfl, .inl rfl⟩
    · cases h
  | ackDeltas seqs =>
    cases h
    exact touches_ackDeltas s seqs key
  | reopen lost => cases h; exact ⟨rfl, .inl rfl⟩

/-! ### Partition -/

/-- Every record lies in the spaces of its tenant. -/
def Stamped (kv : KV) : Prop := ∀ (key : String) v, kv[key]? = some v → ∃ t, v.tenant? = some t ∧ Under t key

theorem Stamped.of_touches {kv kv' : KV} (h : Stamped kv) (htouches : ∀ key, Touches t kv kv' key) : Stamped kv' := by
  intro key v hv
  rcases htouches key with hsame | ⟨hunder, htenant⟩
  · exact h key v (hsame ▸ hv)
  · exact ⟨t, htenant v hv, hunder⟩

theorem stamped_step {d d' : Directory} {a : DirectoryAction} (h : Stamped d.store.kv) (hstep : d.step a = some d') :
    Stamped d'.store.kv := by
  cases a with
  | op a =>
    obtain ⟨store, hstore, rfl⟩ := Option.map_eq_some_iff.1 hstep
    exact h.of_touches fun key => (step_touches hstore key).2
  | openAs tenantID lost =>
    obtain rfl := Option.some.inj hstep
    exact h

theorem stamped_run {first : String} {actions : List DirectoryAction} {d : Directory}
    (h : Runs.run Directory.step (Directory.start first) actions = some d) : Stamped d.store.kv := by
  refine Runs.inv_run (fun _ _ _ hd hstep => stamped_step hd hstep) h ?_
  intro key v hv
  exact absurd hv (by simp [Directory.start, Store.open])

/-- A reader takes its records from the spaces of its tenant. -/
theorem exists_key_of_mem_records {r : Reader} {v : Value} (h : v ∈ r.records s) :
    ∃ key, s.kv[key]? = some v ∧ Under s.tenantID key := by
  have hscan : ∀ {space : String} {c : Char}, space.toList = [c, ':'] → v ∈ (s.scan space).map Prod.snd →
      ∃ key, s.kv[key]? = some v ∧ Under s.tenantID key := by
    intro space c hspace hv
    obtain ⟨item, hitem, rfl⟩ := List.mem_map.1 hv
    obtain ⟨hmem, hprefix⟩ := List.mem_filter.1 hitem
    exact ⟨item.1, Std.TreeMap.mem_toList_iff_getElem?_eq_some.1 hmem, under_of_isPrefixOf hspace hprefix⟩
  cases r with
  | getNode id => exact ⟨_, Option.mem_toList.1 h, under_encode s.tenantID (.node id)⟩
  | scanNodes => exact hscan (c := 'n') rfl h
  | scanEdges => exact hscan (c := 'e') rfl h
  | drainDeltas n =>
    obtain ⟨d, hd, rfl⟩ := List.mem_map.1 h
    obtain ⟨item, hitem, hread⟩ := List.mem_filterMap.1 (List.mem_of_mem_take hd)
    have hvalue := scanDelta_eq_some hread
    rw [hvalue, scanDelta] at hread
    split_ifs at hread with hprefix
    have hspace : "d:".toList = ['d', ':'] := rfl
    refine ⟨item.1, ?_, under_of_isPrefixOf hspace hprefix⟩
    rw [← hvalue]
    exact Std.TreeMap.mem_toList_iff_getElem?_eq_some.1 hitem
  | pendingDeltaCount => exact hscan (c := 'd') rfl h

theorem partitioned_of_separate (h : Separate t t') : Partitioned t t' := by
  intro first actions d hrun htenant
  have hstamped := stamped_run hrun
  constructor
  · intro r v hv hother
    obtain ⟨key, hkey, hunder⟩ := exists_key_of_mem_records hv
    obtain ⟨owner, howner, hunder'⟩ := hstamped key v hkey
    obtain rfl := Option.some.inj (hother.symm.trans howner)
    exact not_under_both h (htenant ▸ hunder) hunder'
  · intro a s' hstep key v hkey hother
    obtain ⟨owner, howner, hunder'⟩ := hstamped key v hkey
    obtain rfl := Option.some.inj (hother.symm.trans howner)
    rcases (step_touches hstep key).2 with hsame | ⟨hunder, -⟩
    · rw [hsame, hkey]
    · exact absurd hunder' (not_under_both h (htenant ▸ hunder))

/-- A store writes a node, and the store of `t` is opened after it. -/
def writeThenOpen (t id : String) : List DirectoryAction :=
  [.op (.call 0 (.upsertNode ⟨id, "", [], [], 1, 1, none, ""⟩ "") 1), .op (.next 0), .op (.commit 0), .openAs t 0]

theorem run_writeThenOpen (t t' : String) {id : String} (hid : id ≠ "") :
    ∃ d v, Runs.run Directory.step (Directory.start t') (writeThenOpen t id) = some d ∧ d.store.tenantID = t ∧
      d.store.kv[nodeKey t' id]? = some v ∧ v.tenant? = some t' := by
  let txn : Txn := ⟨.upsertNode ⟨id, "", [], [], 1, 1, none, ""⟩ "", 1, some 0⟩
  have hrun : ∃ d, Runs.run Directory.step (Directory.start t') (writeThenOpen t id) = some d ∧
      d.store.tenantID = t ∧ d.store.kv = (Store.open t').write txn 0 := ⟨_, rfl, rfl, rfl⟩
  obtain ⟨d, hrun, htenant, hkv⟩ := hrun
  have hkey : (txn.call.update t' txn.now).key.encode t' = nodeKey t' id := by
    show nodeKey t' (if id = "" then "" else id) = _
    rw [if_neg hid]
  have hvalue : ∃ j, (txn.call.update t' txn.now).value = some j := ⟨_, rfl⟩
  obtain ⟨j, hj⟩ := hvalue
  refine ⟨d, .data j, hrun, htenant, ?_, tenant?_update _ _ _ hj⟩
  rw [hkv, Store.getElem?_write]
  have htenant' : (Store.open t').tenantID = t' := rfl
  rw [htenant', hkey, if_neg fun h => GraphKey.encode_ne_deltaKey t' (.node id) 0 h.symm, if_pos rfl, hj]
  rfl

theorem exists_nodeKey_of_not_separate (h : ¬ Separate t t') : ∃ id id', id' ≠ "" ∧ nodeKey t id = nodeKey t' id' := by
  have hkey : ∀ {t t' : String} {rest : List Char}, t.toList ++ [':'] ++ rest = t'.toList ++ [':'] →
      nodeKey t (String.ofList rest ++ "x") = nodeKey t' "x" := by
    intro t t' rest hrest
    have hmore := congrArg (· ++ ['x']) hrest
    refine String.toList_inj.1 ?_
    simpa [nodeKey] using hmore
  by_cases hbegins : t.toList ++ [':'] <+: t'.toList ++ [':']
  · obtain ⟨rest, hrest⟩ := hbegins
    exact ⟨_, "x", by decide, hkey hrest⟩
  · have hbegun : t'.toList ++ [':'] <+: t.toList ++ [':'] := by
      by_contra hnot
      exact h ⟨hbegins, hnot⟩
    obtain ⟨rest, hrest⟩ := hbegun
    refine ⟨"x", _, fun hempty => ?_, (hkey hrest).symm⟩
    have hlist := congrArg String.toList hempty
    simp at hlist

theorem separate_of_partitioned (h : Partitioned t t') : Separate t t' := by
  by_contra hmixed
  obtain ⟨id, id', hid', hkey⟩ := exists_nodeKey_of_not_separate hmixed
  obtain ⟨d, v, hrun, htenant, hv, hother⟩ := run_writeThenOpen t t' hid'
  refine (h t' _ d hrun htenant).1 (.getNode id) v (Option.mem_toList.2 ?_) hother
  rw [htenant, hkey]
  exact hv

/-- The stores of two tenants are apart exactly if neither id with its colon begins the other. -/
theorem partitioned_iff (t t' : String) : Partitioned t t' ↔ Separate t t' :=
  ⟨separate_of_partitioned, partitioned_of_separate⟩

/-- `n:a:b:1` is the node `b:1` of `a` and the node `1` of `a:b`. -/
theorem tenant_within_tenant : "a" ≠ "a:b" ∧ ¬ Partitioned "a" "a:b" :=
  ⟨by decide, fun h => absurd (separate_of_partitioned h) (by decide)⟩

end Dgraphai.Proxy
