import Dgraphai.Lib.Tally
import Dgraphai.Usage
import Mathlib.Algebra.BigOperators.Ring.Finset

/-!
# Billing tiers (`licensing/metering.py`, `api/usage.py`)

`NODE_TYPE_TIER` says which tier a label is billed at, and the queries of `_build_snapshot` say it again. They
differ at three labels: a `Vulnerability` is counted with the enrichable nodes, a `Person` who is not known is
counted nowhere, and a `FaceCluster` is unknown people. What the documentation says about the last two is a
parameter: the table's comments have them enrichable, the comments of `UsageSnapshot` have them unknown.
-/

namespace Dgraphai.Metering

open PropertyGraph Tally

/-! ### The table -/

/-- `NODE_TYPE_TIER`. -/
def nodeTypeTier : List (String × Tier) :=
  [("Directory", .standard), ("Tag", .standard), ("Collection", .standard), ("Event", .standard),
    ("Vendor", .standard), ("License", .standard), ("Topic", .standard), ("Organization", .standard),
    ("File", .enrichable), ("Application", .enrichable), ("Dependency", .enrichable), ("Certificate", .enrichable),
    ("FaceCluster", .enrichable), ("Binary", .enrichable), ("MediaItem", .enrichable), ("Version", .standard),
    ("Product", .standard), ("Person", .identity), ("Vulnerability", .standard), ("Location", .standard)]

def nodeTypes : List String := nodeTypeTier.map (·.1)

/-- The node counts of a snapshot. -/
inductive Bucket where
  | standard | enrichable | aiEnriched | identified | unknown
  deriving DecidableEq, Repr

namespace Bucket

def all : List Bucket := [standard, enrichable, aiEnriched, identified, unknown]

theorem nodup_all : all.Nodup := by decide

theorem mem_all (b : Bucket) : b ∈ all := by cases b <;> decide

instance : Fintype Bucket := ⟨⟨all, nodup_all⟩, mem_all⟩

end Bucket

namespace UsageSnapshot
variable (s : UsageSnapshot)

def count : Bucket → ℤ
  | .standard => s.standardNodes
  | .enrichable => s.enrichableNodes
  | .aiEnriched => s.aiEnrichedNodes
  | .identified => s.identifiedPeople
  | .unknown => s.unknownPeople

theorem totalNodes_eq_sum : s.totalNodes = ∑ b, s.count b := by
  show _ = s.standardNodes + (s.enrichableNodes + (s.aiEnrichedNodes + (s.identifiedPeople + (s.unknownPeople + 0))))
  rw [totalNodes]
  ring

end UsageSnapshot

/-- Where a face or a person counts that is not identified. -/
inductive Unidentified where
  | enrichable | unknown
  deriving DecidableEq, Repr

def Unidentified.bucket : Unidentified → Bucket
  | .enrichable => .enrichable
  | .unknown => .unknown

variable (person cluster : Unidentified)

/-- A node through the table, with the overrides of its comments. -/
def tierBucket (label : String) (props : Props) : Option Bucket :=
  (nodeTypeTier.lookup label).bind fun
    | .standard => some .standard
    | .enrichable =>
      if label = "File" then some (if (props "summary").isSome then .aiEnriched else .enrichable)
      else if label = "FaceCluster" then some cluster.bucket
      else some .enrichable
    | .identity => some (if props "known" = some (.bool true) then .identified else person.bucket)
    | .aiEnriched => some .aiEnriched
    | .graphEdges => none

/-- The count that the queries put a node with the label into. -/
def queriedBucket (label : String) (props : Props) : Option Bucket :=
  if label ∈ standardLabels then some .standard
  else if label ∈ enrichableLabels then some .enrichable
  else if label = "File" then some (if (props "summary").isSome then .aiEnriched else .enrichable)
  else if label = "Person" ∧ props "known" = some (.bool true) then some .identified
  else if label = "FaceCluster" then some .unknown
  else none

/-- The label of the node that the table has. -/
def nodeType? (n : Node) : Option String := n.labels.find? (nodeTypes.contains ·)

def classify (n : Node) : Option Bucket := (nodeType? n).bind fun label => tierBucket person cluster label n.props

def queried (n : Node) : Option Bucket := (nodeType? n).bind fun label => queriedBucket label n.props

/-- The nodes of the tenant. -/
def ownedNodes (g : Graph) (tid : String) : List Node := g.nodes.filter (isOwned tid)

/-- Each node of the tenant carries exactly one label of the table. -/
def Typed (g : Graph) (tid : String) : Prop :=
  ∀ n ∈ ownedNodes g tid, ∃ label, n.labels.filter (nodeTypes.contains ·) = [label]

/-- The counts of the snapshot are those of the table, and each node counts once. -/
structure FollowsTable (g : Graph) (tid : String) : Prop where
  counts : ∀ b, (buildSnapshot g tid).count b = tally (classify person cluster) (ownedNodes g tid) b
  total : (buildSnapshot g tid).totalNodes = (ownedNodes g tid).length

variable {person cluster} {g : Graph} {tid : String} {n : Node} {label : String} {props : Props}

/-! ### Label by label -/

/-- The table and the queries agree on every label but three. -/
theorem queriedBucket_eq (h : label ∈ nodeTypes) (hv : label ≠ "Vulnerability") (hp : label ≠ "Person")
    (hf : label ≠ "FaceCluster") : queriedBucket label props = tierBucket person cluster label props := by
  simp only [nodeTypes, nodeTypeTier, List.map_cons, List.map_nil, List.mem_cons, List.not_mem_nil, or_false] at h
  rcases h with rfl | rfl | rfl | rfl | rfl | rfl | rfl | rfl | rfl | rfl | rfl | rfl | rfl | rfl | rfl | rfl | rfl |
    rfl | rfl | rfl
  all_goals first | rfl | contradiction

theorem queriedBucket_person :
    queriedBucket "Person" props = if props "known" = some (.bool true) then some .identified else none := by
  simp [queriedBucket, standardLabels, enrichableLabels]

theorem tierBucket_person : tierBucket person cluster "Person" props =
    some (if props "known" = some (.bool true) then .identified else person.bucket) := rfl

theorem queriedBucket_enrichable_iff : queriedBucket label props = some .enrichable ↔
    label = "File" ∧ props "summary" = none ∨ label ∈ enrichableLabels := by
  have hstandard : ∀ l ∈ standardLabels, l ≠ "File" ∧ l ∉ enrichableLabels := by decide
  have hfile : "File" ∉ enrichableLabels := by decide
  rw [queriedBucket]
  split_ifs with h1 h2 h3 h4 h5 h6
  · simp [hstandard label h1]
  · simp [h2]
  · have hsome : props "summary" ≠ none := Option.isSome_iff_ne_none.1 h4
    simp [h2, hsome]
  · simp [h3, Option.not_isSome_iff_eq_none.1 h4]
  all_goals simp [h2, h3]

theorem tierBucket_isSome (h : label ∈ nodeTypes) : (tierBucket person cluster label props).isSome = true := by
  simp only [nodeTypes, nodeTypeTier, List.map_cons, List.map_nil, List.mem_cons, List.not_mem_nil, or_false] at h
  rcases h with rfl | rfl | rfl | rfl | rfl | rfl | rfl | rfl | rfl | rfl | rfl | rfl | rfl | rfl | rfl | rfl | rfl |
    rfl | rfl | rfl
  all_goals rfl

/-! ### The queries -/

theorem nodeType?_eq (h : n.labels.filter (nodeTypes.contains ·) = [label]) :
    nodeType? n = some label ∧ label ∈ nodeTypes ∧ ∀ l ∈ nodeTypes, n.labels.contains l = decide (l = label) := by
  have hmem : ∀ l, l ∈ n.labels ∧ l ∈ nodeTypes ↔ l = label := by
    intro l
    rw [← List.mem_singleton, ← h, List.mem_filter, List.contains_iff_mem]
  refine ⟨?_, ((hmem label).2 rfl).2, fun l hl => ?_⟩
  · rw [nodeType?, ← List.head?_filter, h]
    rfl
  · rw [Bool.eq_iff_iff, List.contains_iff_mem, decide_eq_true_iff, ← hmem l]
    exact (and_iff_left hl).symm

theorem any_contains_eq {ls : List String} (hls : ∀ l ∈ ls, l ∈ nodeTypes)
    (h : ∀ l ∈ nodeTypes, n.labels.contains l = decide (l = label)) :
    (ls.any fun l => n.labels.contains l) = decide (label ∈ ls) := by
  rw [Bool.eq_iff_iff, List.any_eq_true, decide_eq_true_iff]
  constructor
  · rintro ⟨l, hl, hn⟩
    rw [h l (hls l hl), decide_eq_true_iff] at hn
    exact hn ▸ hl
  · exact fun hl => ⟨label, hl, by rw [h label (hls label hl), decide_eq_true_iff]⟩

/-- What a query counts, label by label. -/
theorem count_eq {q : CountQuery} {pattern : Option String} (htyped : Typed g tid) (p : String → Props → Bool)
    (h : q.pattern = .node pattern) (hc : ofTenant ∈ q.conditions)
    (hp : ∀ (n : Node) (label : String), isOwned tid n = true →
      (∀ l ∈ nodeTypes, n.labels.contains l = decide (l = label)) →
        (pattern.all (n.labels.contains ·) && q.admits (tidParam tid) n.labels n.props) = p label n.props) :
    q.count (tidParam tid) g = (ownedNodes g tid).countP fun n => (nodeType? n).any fun l => p l n.props := by
  rw [count_ofTenant h hc]
  refine List.countP_congr fun n hn => ?_
  obtain ⟨label, hlabel⟩ := htyped n hn
  obtain ⟨htype, -, hlabels⟩ := nodeType?_eq hlabel
  rw [hp n label (List.mem_filter.1 hn).2 hlabels, htype, Option.any_some]

theorem tally_queried (b : Bucket) : tally queried (ownedNodes g tid) b =
    (ownedNodes g tid).countP fun n => (nodeType? n).any fun l => decide (queriedBucket l n.props = some b) := by
  refine List.countP_congr fun n _ => ?_
  rw [queried]
  cases nodeType? n with
  | none => simp only [Option.bind_none, Option.any_none, reduceCtorEq, decide_false]
  | some l => rfl

/-- A query whose nodes are those of a count. -/
theorem count_eq_tally {q : CountQuery} {pattern : Option String} {b : Bucket} (htyped : Typed g tid)
    (h : q.pattern = .node pattern) (hc : ofTenant ∈ q.conditions)
    (hb : ∀ (n : Node) (label : String), isOwned tid n = true →
      (∀ l ∈ nodeTypes, n.labels.contains l = decide (l = label)) →
        ((pattern.all (n.labels.contains ·) && q.admits (tidParam tid) n.labels n.props) = true ↔
          queriedBucket label n.props = some b)) :
    q.count (tidParam tid) g = tally queried (ownedNodes g tid) b := by
  rw [tally_queried]
  refine count_eq htyped (fun l props => decide (queriedBucket l props = some b)) h hc fun n label ho hlabels => ?_
  rw [Bool.eq_iff_iff, decide_eq_true_iff]
  exact hb n label ho hlabels

theorem standard_count (h : Typed g tid) :
    standardQuery.count (tidParam tid) g = tally queried (ownedNodes g tid) .standard := by
  refine count_eq_tally (q := standardQuery) h rfl List.mem_cons_self fun n label ho hlabels => ?_
  show (ofTenant.holds (tidParam tid) n.labels n.props &&
    ((standardLabels.any fun l => n.labels.contains l) && true)) = true ↔ _
  rw [holds_ofTenant, ho, any_contains_eq (by decide) hlabels, queriedBucket]
  split_ifs <;> simp_all

theorem enriched_count (h : Typed g tid) :
    filesEnrichedQuery.count (tidParam tid) g = tally queried (ownedNodes g tid) .aiEnriched := by
  have hfile : "File" ∉ standardLabels ∧ "File" ∉ enrichableLabels := by decide
  refine count_eq_tally (q := filesEnrichedQuery) h rfl List.mem_cons_self fun n label ho hlabels => ?_
  show (n.labels.contains "File" && (ofTenant.holds (tidParam tid) n.labels n.props &&
    ((n.props "summary").isSome && true))) = true ↔ _
  rw [holds_ofTenant, ho, hlabels "File" (by decide), queriedBucket]
  split_ifs <;> grind

theorem people_count (h : Typed g tid) :
    identifiedPeopleQuery.count (tidParam tid) g = tally queried (ownedNodes g tid) .identified := by
  have hperson : "Person" ∉ standardLabels ∧ "Person" ∉ enrichableLabels := by decide
  refine count_eq_tally (q := identifiedPeopleQuery) h rfl List.mem_cons_self fun n label ho hlabels => ?_
  show (n.labels.contains "Person" && (ofTenant.holds (tidParam tid) n.labels n.props &&
    (decide (n.props "known" = some (.bool true)) && true))) = true ↔ _
  rw [holds_ofTenant, ho, hlabels "Person" (by decide), queriedBucket]
  split_ifs <;> grind

theorem clusters_count (h : Typed g tid) :
    unknownClustersQuery.count (tidParam tid) g = tally queried (ownedNodes g tid) .unknown := by
  have hcluster : "FaceCluster" ∉ standardLabels ∧ "FaceCluster" ∉ enrichableLabels := by decide
  refine count_eq_tally (q := unknownClustersQuery) h rfl List.mem_cons_self fun n label ho hlabels => ?_
  show (n.labels.contains "FaceCluster" && (ofTenant.holds (tidParam tid) n.labels n.props && true)) = true ↔ _
  rw [holds_ofTenant, ho, hlabels "FaceCluster" (by decide), queriedBucket]
  split_ifs <;> grind

/-- The files that are not enriched, and the other labels. -/
theorem enrichable_count (h : Typed g tid) :
    filesRawQuery.count (tidParam tid) g + otherEnrichableQuery.count (tidParam tid) g =
      tally queried (ownedNodes g tid) .enrichable := by
  have hraw := count_eq (q := filesRawQuery) h (fun l props => decide (l = "File" ∧ props "summary" = none)) rfl
    List.mem_cons_self fun n label ho hlabels => by
      show (n.labels.contains "File" && (ofTenant.holds (tidParam tid) n.labels n.props &&
        (decide (n.props "summary" = none) && true))) = _
      rw [holds_ofTenant, ho, hlabels "File" (by decide), Bool.true_and, Bool.and_true, ← Bool.decide_and]
      exact decide_eq_decide.2 (and_congr_left' eq_comm)
  have hother := count_eq (q := otherEnrichableQuery) h (fun l _ => decide (l ∈ enrichableLabels)) rfl
    List.mem_cons_self fun n label ho hlabels => by
      show (ofTenant.holds (tidParam tid) n.labels n.props &&
        ((enrichableLabels.any fun l => n.labels.contains l) && true)) = _
      rw [holds_ofTenant, ho, any_contains_eq (by decide) hlabels, Bool.true_and, Bool.and_true]
  rw [hraw, hother, tally_queried, countP_add]
  · refine List.countP_congr fun n _ => ?_
    cases nodeType? n with
    | none => rfl
    | some label =>
      simp only [Option.any_some, Bool.or_eq_true, decide_eq_true_iff]
      exact queriedBucket_enrichable_iff.symm
  · intro n _ hfile
    cases htype : nodeType? n with
    | none => rfl
    | some label =>
      rw [htype, Option.any_some, decide_eq_true_iff] at hfile
      rw [Option.any_some, hfile.1]
      decide

/-- The snapshot's counts are the nodes that the queries put into each. -/
theorem count_buildSnapshot (h : Typed g tid) (b : Bucket) :
    (buildSnapshot g tid).count b = tally queried (ownedNodes g tid) b := by
  cases b with
  | standard => exact congrArg Nat.cast (standard_count h)
  | enrichable => exact (Nat.cast_add ..).symm.trans (congrArg Nat.cast (enrichable_count h))
  | aiEnriched => exact congrArg Nat.cast (enriched_count h)
  | identified => exact congrArg Nat.cast (people_count h)
  | unknown => exact congrArg Nat.cast (clusters_count h)

theorem totalNodes_buildSnapshot (h : Typed g tid) :
    (buildSnapshot g tid).totalNodes = (∑ b, tally queried (ownedNodes g tid) b : ℕ) := by
  rw [UsageSnapshot.totalNodes_eq_sum, Nat.cast_sum]
  exact Finset.sum_congr rfl fun b _ => count_buildSnapshot h b

/-! ### The table against the queries -/

/-- A node that the queries count as the table says. -/
structure CountedAsTable (cluster : Unidentified) (n : Node) : Prop where
  vulnerability : "Vulnerability" ∉ n.labels
  person : "Person" ∈ n.labels → n.props "known" = some (.bool true)
  cluster : cluster = .enrichable → "FaceCluster" ∉ n.labels

theorem queried_eq_classify (hn : n.labels.filter (nodeTypes.contains ·) = [label])
    (h : CountedAsTable cluster n) : queried n = classify person cluster n := by
  obtain ⟨htype, hmem, -⟩ := nodeType?_eq hn
  have hlabel : label ∈ n.labels := (List.mem_filter.1 (hn ▸ List.mem_singleton_self label)).1
  rw [queried, classify, htype, Option.bind_some, Option.bind_some]
  by_cases hp : label = "Person"
  · subst hp
    rw [queriedBucket_person, tierBucket_person, if_pos (h.person hlabel), if_pos (h.person hlabel)]
  by_cases hf : label = "FaceCluster"
  · subst hf
    cases hc : cluster with
    | enrichable => exact absurd hlabel (h.cluster hc)
    | unknown => rfl
  exact queriedBucket_eq hmem (fun hv => h.vulnerability (hv ▸ hlabel)) hp hf

theorem queried_isSome_iff (hn : n.labels.filter (nodeTypes.contains ·) = [label]) :
    (queried n).isSome = true ↔ (label = "Person" → n.props "known" = some (.bool true)) := by
  obtain ⟨htype, hmem, -⟩ := nodeType?_eq hn
  rw [queried, htype, Option.bind_some]
  by_cases hp : label = "Person"
  · subst hp
    rw [queriedBucket_person]
    split_ifs with hknown <;> simp [hknown]
  refine iff_of_true ?_ fun h => absurd h hp
  by_cases hv : label = "Vulnerability"
  · subst hv
    rfl
  by_cases hf : label = "FaceCluster"
  · subst hf
    rfl
  have hbucket : queriedBucket label n.props = tierBucket .unknown .unknown label n.props :=
    queriedBucket_eq hmem hv hp hf
  rw [hbucket]
  exact tierBucket_isSome hmem

/-- Nodes the queries count as standard are standard in the table, and no vulnerability is. -/
theorem standard_of_queried (hn : n.labels.filter (nodeTypes.contains ·) = [label])
    (h : queried n = some .standard) : classify person cluster n = some .standard := by
  obtain ⟨htype, hmem, -⟩ := nodeType?_eq hn
  rw [queried, htype, Option.bind_some] at h
  rw [classify, htype, Option.bind_some]
  have hv : label ≠ "Vulnerability" := by
    rintro rfl
    cases h
  have hp : label ≠ "Person" := by
    rintro rfl
    rw [queriedBucket_person] at h
    split_ifs at h
    cases h
  have hf : label ≠ "FaceCluster" := by
    rintro rfl
    cases h
  rw [← queriedBucket_eq hmem hv hp hf, h]

/-- Nodes that the table has as unknown people are counted so by the queries, where they count at all. -/
theorem unknown_of_classify (hn : n.labels.filter (nodeTypes.contains ·) = [label])
    (hsome : (queried n).isSome = true) (h : classify person cluster n = some .unknown) :
    queried n = some .unknown := by
  have hknown := (queried_isSome_iff hn).1 hsome
  obtain ⟨htype, hmem, -⟩ := nodeType?_eq hn
  rw [classify, htype, Option.bind_some] at h
  rw [queried, htype, Option.bind_some]
  by_cases hf : label = "FaceCluster"
  · subst hf
    rfl
  have hv : label ≠ "Vulnerability" := by
    rintro rfl
    cases h
  have hp : label ≠ "Person" := by
    intro hp
    rw [hp, tierBucket_person, if_pos (hknown hp)] at h
    cases h
  rw [queriedBucket_eq hmem hv hp hf, h]

theorem mem_labels_iff {l : String} (hn : n.labels.filter (nodeTypes.contains ·) = [label]) (hl : l ∈ nodeTypes) :
    l ∈ n.labels ↔ l = label := by
  obtain ⟨-, -, hlabels⟩ := nodeType?_eq hn
  rw [← List.contains_iff_mem, hlabels l hl, decide_eq_true_iff]

/-- The snapshot of a tenant follows the table exactly if it has no vulnerabilities, all of its people are known,
and, where a face that is not identified is enrichable, it has no faces. -/
theorem followsTable_iff (h : Typed g tid) :
    FollowsTable person cluster g tid ↔ ∀ n ∈ ownedNodes g tid, CountedAsTable cluster n := by
  constructor
  · rintro ⟨hcounts, htotal⟩ n hn
    have htally (b : Bucket) :
        tally queried (ownedNodes g tid) b = tally (classify person cluster) (ownedNodes g tid) b :=
      Int.ofNat_inj.1 ((count_buildSnapshot h b).symm.trans (hcounts b))
    have hsome : ∀ n ∈ ownedNodes g tid, (queried n).isSome = true := by
      rw [← sum_tally_eq_length_iff]
      exact Int.ofNat_inj.1 ((totalNodes_buildSnapshot h).symm.trans htotal)
    have hkept : ∀ n ∈ ownedNodes g tid, queried n = some .standard → classify person cluster n = some .standard := by
      intro n hn hq
      obtain ⟨label, hlabel⟩ := h n hn
      exact standard_of_queried hlabel hq
    have hstandard := (tally_eq_iff hkept).1 (htally .standard)
    have hunknown := (tally_eq_iff fun n hn hc => (h n hn).elim fun label hlabel =>
      unknown_of_classify hlabel (hsome n hn) hc).1 (htally .unknown).symm
    obtain ⟨label, hlabel⟩ := h n hn
    obtain ⟨htype, -, -⟩ := nodeType?_eq hlabel
    refine ⟨?_, ?_, ?_⟩
    · rw [mem_labels_iff hlabel (by decide)]
      rintro rfl
      have hc : classify person cluster n = some .standard := by
        rw [classify, htype]
        rfl
      have hq := hstandard n hn hc
      rw [queried, htype] at hq
      cases hq
    · rw [mem_labels_iff hlabel (by decide)]
      exact fun hp => (queried_isSome_iff hlabel).1 (hsome n hn) hp.symm
    · rw [mem_labels_iff hlabel (by decide)]
      rintro rfl rfl
      have hq : queried n = some .unknown := by
        rw [queried, htype]
        rfl
      have hc := hunknown n hn hq
      rw [classify, htype] at hc
      cases hc
  · intro hall
    have hsame : ∀ n ∈ ownedNodes g tid, queried n = classify person cluster n := fun n hn =>
      (h n hn).elim fun label hlabel => queried_eq_classify hlabel (hall n hn)
    refine ⟨fun b => by rw [count_buildSnapshot h, tally_congr hsame], ?_⟩
    rw [totalNodes_buildSnapshot h, Nat.cast_inj, sum_tally_eq_length_iff]
    intro n hn
    obtain ⟨label, hlabel⟩ := h n hn
    refine (queried_isSome_iff hlabel).2 fun hp => (hall n hn).person ?_
    exact hp ▸ (List.mem_filter.1 (hlabel ▸ List.mem_singleton_self label)).1

/-- A node of the tenant `a`. -/
def nodeOf (label : String) (props : List (String × Json)) : Node :=
  ⟨0, [label], Props.ofMap (("tenant_id", .str "a") :: props)⟩

theorem typed_of_nodes {nodes : List Node} {rels : List Rel} {next : ℕ}
    (h : ∀ n ∈ nodes, ∃ label ∈ nodeTypes, n.labels = [label]) : Typed ⟨nodes, rels, next⟩ tid := by
  intro n hn
  obtain ⟨label, hmem, hlabels⟩ := h n (List.mem_filter.1 hn).1
  refine ⟨label, ?_⟩
  rw [hlabels, List.filter_cons_of_pos (List.contains_iff_mem.2 hmem), List.filter_nil]

/-- An enriched file and a known person. -/
def household : Graph :=
  ⟨[nodeOf "File" [("summary", .str "letter")], nodeOf "Person" [("known", .bool true)]], [], 1⟩

theorem household_followsTable : FollowsTable .unknown .enrichable household "a" := by
  refine (followsTable_iff (typed_of_nodes ?_)).2 ?_
  · intro n hn
    simp only [List.mem_cons, List.not_mem_nil, or_false] at hn
    rcases hn with rfl | rfl
    · exact ⟨"File", by decide, rfl⟩
    · exact ⟨"Person", by decide, rfl⟩
  · intro n hn
    have hmem := (List.mem_filter.1 hn).1
    simp only [List.mem_cons, List.not_mem_nil, or_false] at hmem
    rcases hmem with rfl | rfl
    · exact ⟨by decide, fun h => absurd h (by decide), fun _ => by decide⟩
    · exact ⟨by decide, fun _ => rfl, fun _ => by decide⟩

/-- Whatever the documentation means by a person or a face that is not identified. -/
theorem vulnerability_not_standard :
    ¬ ∃ person cluster, ∀ g tid, Typed g tid → FollowsTable person cluster g tid := by
  rintro ⟨person, cluster, h⟩
  have htyped : Typed ⟨[nodeOf "Vulnerability" []], [], 1⟩ "a" := by
    refine typed_of_nodes fun n hn => ⟨"Vulnerability", by decide, ?_⟩
    rw [List.mem_singleton.1 hn]
    rfl
  have hzero : (buildSnapshot ⟨[nodeOf "Vulnerability" []], [], 1⟩ "a").count .standard = 0 := by decide +kernel
  have hcount := (h _ _ htyped).counts .standard
  rw [hzero] at hcount
  have hone : tally (classify person cluster) (ownedNodes ⟨[nodeOf "Vulnerability" []], [], 1⟩ "a") .standard = 1 := by
    cases person <;> cases cluster <;> decide +kernel
  rw [hone] at hcount
  exact absurd hcount (by decide)

end Dgraphai.Metering
