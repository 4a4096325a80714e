import Dgraphai.FileMetadata
import Dgraphai.Lib.Separated

/-!
# Ids made of joined fields (`make_node_id` of `graph/dedup.py`, `stable_id` of `connectors/sdk.py`)

Without a hash of its contents a file is identified by the digest of its fields, joined with colons. The fields may
hold colons themselves, so two files share an id exactly if their fields cut one row of colon-free pieces in
different places (`nodeIdentity_iff`); no id of this kind is the id of a file with a hash.
-/

namespace Dgraphai.NodeIdentity

open Dedup (Env makeNodeID)
open FileMetadata (ConnectorFileRecord)

/-- The props of a file: the connector and the path are texts, and so is the hash where there is one. -/
structure FileProps (E : Env) where
  fields : Json.Fields
  connectorID : String
  path : String
  sha256 : String
  connectorID_eq : Json.getD fields "connector_id" (.str "") = .str connectorID
  path_eq : Json.getD fields "path" (.str "") = .str path
  sha256_eq : (Json.getD fields "sha256" (.str "")).truthy E.isZero →
    Json.getD fields "sha256" (.str "") = .str sha256
  unhashed : (Json.getD fields "sha256" (.str "")).truthy E.isZero = false → sha256 = ""

variable {E : Env}

/-- The hash has the length of a SHA-256. -/
def FileProps.Hashed (p : FileProps E) : Prop := p.sha256.length = 64

instance (p : FileProps E) : Decidable p.Hashed := inferInstanceAs (Decidable (_ = _))

/-- Fields as the keys join them. -/
def joinFields (fields : List String) : List Char := [':'].intercalate (fields.map String.toList)

def nodeFields (p : FileProps E) : List String := [p.connectorID, p.path]

/-- The fields of `stable_id`. -/
def recordFields (connectorID : String) (r : ConnectorFileRecord) : List String :=
  [connectorID, r.host, r.share, r.bucket, r.path]

def stableDigest (E : Env) (r : ConnectorFileRecord) (connectorID : String) : String :=
  E.hexdigest (connectorID ++ ":" ++ r.host ++ ":" ++ r.share ++ ":" ++ r.bucket ++ ":" ++ r.path)

/-- The fields do not cut one row of colon-free pieces in different places. -/
def CutAlike (fs gs : List String) : Prop :=
  Separated.pieces ':' (fs.map String.toList) = Separated.pieces ':' (gs.map String.toList) →
    Separated.pieceCounts ':' (fs.map String.toList) = Separated.pieceCounts ':' (gs.map String.toList)

instance (fs gs : List String) : Decidable (CutAlike fs gs) := inferInstanceAs (Decidable (_ → _))

theorem joinFields_inj_iff {fs gs : List String} (hf : fs ≠ []) (hg : gs ≠ []) :
    (joinFields fs = joinFields gs → fs = gs) ↔ CutAlike fs gs := by
  rw [CutAlike, ← Separated.intercalate_inj_iff (mt List.map_eq_nil_iff.1 hf) (mt List.map_eq_nil_iff.1 hg)]
  have hmap : fs.map String.toList = gs.map String.toList ↔ fs = gs :=
    (List.map_injective_iff.2 fun _ _ h => String.toList_inj.1 h).eq_iff
  rw [hmap]
  rfl

theorem FileProps.makeNodeID_of_hashed {p : FileProps E} (h : p.Hashed) :
    makeNodeID E p.fields = some ("sha256:" ++ p.sha256) := by
  cases htruthy : (Json.getD p.fields "sha256" (.str "")).truthy E.isZero with
  | false =>
    rw [Hashed, p.unhashed htruthy] at h
    cases h
  | true =>
    rw [makeNodeID, if_pos htruthy, p.sha256_eq htruthy]
    exact congrArg some (if_pos h)

theorem FileProps.makeNodeID_of_not_hashed {p : FileProps E} (h : ¬ p.Hashed) :
    makeNodeID E p.fields = some ("path:" ++ E.hexdigest (p.connectorID ++ ":" ++ p.path)) := by
  cases htruthy : (Json.getD p.fields "sha256" (.str "")).truthy E.isZero with
  | false =>
    rw [makeNodeID, if_neg (by rw [htruthy]; exact Bool.false_ne_true), p.connectorID_eq, p.path_eq]
    rfl
  | true =>
    rw [makeNodeID, if_pos htruthy, p.sha256_eq htruthy, p.connectorID_eq, p.path_eq]
    exact congrArg some (if_neg h)

theorem FileProps.makeNodeID_inj_iff (hinj : Function.Injective E.hexdigest) {p q : FileProps E}
    (hp : ¬ p.Hashed) (hq : ¬ q.Hashed) :
    makeNodeID E p.fields = makeNodeID E q.fields ↔ joinFields (nodeFields p) = joinFields (nodeFields q) := by
  have hjoin : ∀ r : FileProps E, (r.connectorID ++ ":" ++ r.path).toList = joinFields (nodeFields r) := by
    intro r
    simp [joinFields, nodeFields, List.intercalate]
  rw [makeNodeID_of_not_hashed hp, makeNodeID_of_not_hashed hq, Option.some_inj, String.append_right_inj, hinj.eq_iff,
    ← String.toList_inj, hjoin, hjoin]

theorem stableDigest_inj_iff (hinj : Function.Injective E.hexdigest) {c c' : String} {r r' : ConnectorFileRecord} :
    stableDigest E r c = stableDigest E r' c' ↔ joinFields (recordFields c r) = joinFields (recordFields c' r') := by
  have hjoin : ∀ (c : String) (r : ConnectorFileRecord),
      (c ++ ":" ++ r.host ++ ":" ++ r.share ++ ":" ++ r.bucket ++ ":" ++ r.path).toList =
        joinFields (recordFields c r) := by
    intro c r
    simp [joinFields, recordFields, List.intercalate]
  rw [stableDigest, stableDigest, hinj.eq_iff, ← String.toList_inj, hjoin, hjoin]

theorem FileProps.makeNodeID_ne_of_hashed {p q : FileProps E} (hp : ¬ p.Hashed) (hq : q.Hashed) :
    makeNodeID E p.fields ≠ makeNodeID E q.fields := by
  rw [makeNodeID_of_not_hashed hp, makeNodeID_of_hashed hq]
  intro h
  have hhead := congrArg (fun s => s.toList.head?) (Option.some.inj h)
  simp at hhead

/-- Two ids are apart exactly if the fields behind them are cut alike. -/
theorem nodeIdentity_iff (E : Env) (hinj : Function.Injective E.hexdigest) :
    (∀ p q : FileProps E, ¬ p.Hashed → ¬ q.Hashed →
      ((makeNodeID E p.fields = makeNodeID E q.fields → p.connectorID = q.connectorID ∧ p.path = q.path) ↔
        CutAlike [p.connectorID, p.path] [q.connectorID, q.path])) ∧
    (∀ p q : FileProps E, ¬ p.Hashed → q.Hashed → makeNodeID E p.fields ≠ makeNodeID E q.fields) ∧
    ∀ (c c' : String) (r r' : ConnectorFileRecord),
      (stableDigest E r c = stableDigest E r' c' →
        c = c' ∧ r.host = r'.host ∧ r.share = r'.share ∧ r.bucket = r'.bucket ∧ r.path = r'.path) ↔
        CutAlike [c, r.host, r.share, r.bucket, r.path] [c', r'.host, r'.share, r'.bucket, r'.path] := by
  refine ⟨fun p q hp hq => ?_, fun p q => FileProps.makeNodeID_ne_of_hashed, fun c c' r r' => ?_⟩
  · rw [FileProps.makeNodeID_inj_iff hinj hp hq, ← joinFields_inj_iff (List.cons_ne_nil _ _) (List.cons_ne_nil _ _)]
    simp [nodeFields]
  · rw [stableDigest_inj_iff hinj, ← joinFields_inj_iff (List.cons_ne_nil _ _) (List.cons_ne_nil _ _)]
    simp [recordFields]

/-! ### Two files, and two that collide -/

/-- SHA-256 on the keys of the two files below, and an injective text elsewhere. -/
def sampleDigest (text : String) : String :=
  if text = "c1:/a" then "4605e8153d5e26ca9af92a91f7cc458d3db1989612d0e6d4223d97c7b1683646"
  else if text = "c1:/b" then "7e89e93adeff1409d1aaf6a253b66a841c07c7950ed26d7e1a855aa28d93c324"
  else "#" ++ text

def sample : Env := ⟨sampleDigest, fun _ => "", fun _ => false⟩

theorem sampleDigest_injective : Function.Injective sampleDigest := by
  have hne : ∀ t d : String, d.toList.head? ≠ some '#' → "#" ++ t ≠ d := by
    rintro t d hd rfl
    exact hd (by simp)
  intro s t h
  unfold sampleDigest at h
  split_ifs at h
  all_goals first
    | exact (String.append_right_inj "#").1 h
    | exact absurd h (hne _ _ (by decide))
    | exact absurd h.symm (hne _ _ (by decide))
    | exact absurd h (by decide)
    | simp_all only

def fileProps (connectorID path : String) : FileProps sample where
  fields := [("connector_id", .str connectorID), ("path", .str path)]
  connectorID := connectorID
  path := path
  sha256 := ""
  connectorID_eq := rfl
  path_eq := rfl
  sha256_eq _ := rfl
  unhashed _ := rfl

theorem twoFiles_apart : Function.Injective sample.hexdigest ∧
    (makeNodeID sample (fileProps "c1" "/a").fields = makeNodeID sample (fileProps "c1" "/b").fields →
      "c1" = "c1" ∧ "/a" = "/b") :=
  ⟨sampleDigest_injective,
    ((nodeIdentity_iff sample sampleDigest_injective).1 (fileProps "c1" "/a") (fileProps "c1" "/b")
      (by decide) (by decide)).2 (by decide)⟩

/-- A file of the connector `c1` whose name begins like a drive, and the file of the connector `c1:C`; a host
with an IPv6 address, and a host whose share holds the rest of it. -/
theorem joined_fields_collide :
    makeNodeID sample (fileProps "c1" "C:/a").fields = makeNodeID sample (fileProps "c1:C" "/a").fields ∧
      stableDigest sample
          ⟨"/a", "a", 1, "0.0", false, none, "", "::1", "data", "", "", "", []⟩ "c1" =
        stableDigest sample
          ⟨"/a", "a", 1, "0.0", false, none, "", "", ":1:data", "", "", "", []⟩ "c1" :=
  ⟨rfl, rfl⟩

end Dgraphai.NodeIdentity
