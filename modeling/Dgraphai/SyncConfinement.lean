import Dgraphai.AgentDelivery
import Dgraphai.Lib.GraphPart
import Dgraphai.SyncText

/-!
# A scanner writes to its own tenant

Over label names every statement of `sync_delta` has the tenant in the key of what it merges, and the tenant of
the chunk overwrites one in the props, so nothing changes outside the tenant (`syncDelta_rest`). The type is
part of the text, and the text is one `MERGE` with the type for its label exactly if the type is an identifier
(`confined_iff`).
-/

namespace Dgraphai.SyncText

open Cypher (Text Params Database OneMerge Identifier)
open Dedup (Env Scanner DeltaChunk Outcome Row State Statement)
open PropertyGraph (Graph Node Props)

/-- The nodes of a tenant. -/
def own (tenantID : String) (n : Node) : Bool := n.props "tenant_id" = some (.str tenantID)

/-- What `sync_delta` promises to the other tenants: their part of the graph is as before, and each statement it
sends is one `MERGE` with the type for its label. -/
structure Confined (D : Database) (E : Env) (scanner : Scanner) (chunk : DeltaChunk) (O : Outcome) (s : State) :
    Prop where
  rest : (syncDelta D E scanner chunk O s).2.graph.rest (own scanner.tenantID) = s.graph.rest (own scanner.tenantID)
  merges : ∀ call ∈ calls E scanner chunk O, OneMerge call.text call.type.toList

variable {E : Env} {scanner : Scanner} {chunk : DeltaChunk} {O : Outcome} {s : State} {tenantID : String} {g : Graph}

/-! ### Over label names -/

theorem own_iff {n : Node} : own tenantID n = true ↔ n.props "tenant_id" = some (.str tenantID) := decide_eq_true_iff

theorem own_of_matches {n : Node} {label : Option String} {key : Json.Fields} (h : n.Matches label key)
    (hkey : ("tenant_id", .str tenantID) ∈ key) : own tenantID n = true := own_iff.2 (h.2 _ hkey)

theorem rest_upsertRow (tenantID agentID datetime : String) (row : Row) :
    (Dedup.upsertRow tenantID agentID datetime g row).rest (own tenantID) = g.rest (own tenantID) := by
  rw [AgentSync.upsertRow_eq]
  refine Graph.rest_merge (own_iff.2 ?_) fun n hn => ?_
  · show AgentSync.createdProps row tenantID agentID datetime "tenant_id" = _
    rw [AgentSync.createdProps, Props.set_ne (by decide), Props.set_ne (by decide), Props.set_ne (by decide)]
    exact Props.set_self (by simp)
  · have hown : own tenantID n = true := own_of_matches hn (by simp [Dedup.fileKey])
    refine ⟨hown, own_iff.2 ?_⟩
    exact (AgentSync.matchedProps_of_key _ (.inr (.inr rfl))).trans (own_iff.1 hown)

theorem rest_upsertNode (tenantID label : String) (id : Json) (props : Json.Fields) :
    (Dedup.upsertNode tenantID label id props g).rest (own tenantID) = g.rest (own tenantID) := by
  -- the tenant of the chunk comes after the props
  have hadd : ∀ n : Props, n.add (Dedup.withTenant props tenantID) "tenant_id" = some (.str tenantID) := by
    intro n
    rw [Props.add, Dedup.withTenant, Json.field?_concat, if_pos rfl]
    rfl
  exact Graph.rest_merge (own_iff.2 (hadd _)) fun n hn => ⟨own_of_matches hn (by simp), own_iff.2 (hadd n.props)⟩

/-- A statement over label names changes nothing outside the tenant. -/
theorem Pass.labelled_rest {pass : Pass} {effect : Graph → Graph} (h : pass.labelled tenantID = .runs effect)
    (hg : g.Sound) : (effect g).Sound ∧ (effect g).rest (own tenantID) = g.rest (own tenantID) := by
  rcases pass with _ | _ | (⟨type, id, props⟩ | ⟨type, source, target, props⟩)
  · cases h
  · cases h
  · dsimp only [Pass.labelled] at h
    split_ifs at h
    cases h
    exact ⟨hg.merge, rest_upsertNode tenantID type id props⟩
  · cases h
    exact Graph.rest_mergeRels hg (fun n hn => own_of_matches hn (by simp)) fun n hn => own_of_matches hn (by simp)

/-- The graphs that differ from `g` in the tenant only. -/
def Within (tenantID : String) (g g' : Graph) : Prop := g'.Sound ∧ g'.rest (own tenantID) = g.rest (own tenantID)

/-- `sync_delta` over label names. -/
theorem syncDelta_rest (E : Env) (scanner : Scanner) (chunk : DeltaChunk) (O : Outcome) (hs : s.graph.Sound) :
    (Dedup.syncDelta E scanner chunk O s).2.graph.rest (own scanner.tenantID) =
      s.graph.rest (own scanner.tenantID) := by
  by_cases htenant : scanner.tenantID = chunk.tenantID
  · rw [htenant]
    refine (inv_syncDelta (Within chunk.tenantID s.graph) E scanner chunk O (fun g row hg => ?_)
      (fun g pass effect hpass hg => ?_) ⟨hs, rfl⟩).2
    · exact ⟨hg.1.merge, (rest_upsertRow chunk.tenantID scanner.id O.datetime row).trans hg.2⟩
    · obtain ⟨hsound, hrest⟩ := Pass.labelled_rest hpass hg.1
      exact ⟨hsound, hrest.trans hg.2⟩
  · rw [Dedup.syncDelta, if_pos htenant]

/-! ### Over texts -/

theorem tick_not_mem (call : Call) : '\x60' ∉ call.before ∧ '\x60' ∉ call.after := by
  have hnode : '\x60' ∉ (Call.node "" .null []).before ∧ '\x60' ∉ (Call.node "" .null []).after := by
    decide +kernel
  have hrel : '\x60' ∉ (Call.rel "" .null .null []).before ∧ '\x60' ∉ (Call.rel "" .null .null []).after := by
    decide +kernel
  cases call with
  | node type id props => exact hnode
  | rel type source target props => exact hrel

theorem oneMerge_iff (call : Call) : OneMerge call.text call.type.toList ↔ Identifier call.type.toList := by
  constructor
  · intro h
    have htext : OneMerge (call.before ++ call.type.toList ++ call.after) call.type.toList := h
    exact Cypher.identifier_of_oneMerge (tick_not_mem call).1 (tick_not_mem call).2 htext
  · intro h
    rcases call with ⟨type, id, props⟩ | ⟨type, source, target, props⟩
    · have hid : Identifier type.toList := h
      exact ⟨_, readUpdate_node hid, rfl⟩
    · have hid : Identifier type.toList := h
      exact ⟨_, readUpdate_rel hid, rfl⟩

/-- A delivery is confined to the tenant of the scanner exactly if all types it is run with are identifiers. -/
theorem confined_iff (D : Database) (E : Env) (scanner : Scanner) (chunk : DeltaChunk) (O : Outcome) (s : State)
    (hs : s.graph.Sound) :
    Confined D E scanner chunk O s ↔ ∀ call ∈ calls E scanner chunk O, Identifier call.type.toList := by
  constructor
  · exact fun h call hcall => (oneMerge_iff call).1 (h.merges call hcall)
  · intro h
    refine ⟨?_, fun call hcall => (oneMerge_iff call).2 (h call hcall)⟩
    rw [syncDelta_eq D E scanner chunk O s h]
    exact syncDelta_rest E scanner chunk O hs

/-! ### A node of a scanner -/

/-- A database that refuses what was not read here. -/
def refusing : Database := ⟨⟨fun _ => none, fun _ _ _ => none, fun _ _ => false, fun _ _ _ _ => none⟩, fun _ _ => none⟩

/-- The graph has a file of another tenant. -/
def otherTenant : State :=
  ⟨⟨[⟨0, ["File"], Props.ofMap [("id", .str "f"), ("tenant_id", .str "B")]⟩], [], 1⟩, fun _ => none⟩

def oneNode (type : String) : DeltaChunk where
  scannerID := "scanner"
  tenantID := "A"
  scanJobID := "job"
  chunkIndex := 0
  isFinal := true
  scannedAt := "2024-01-01"
  stats := []
  nodes := [[("op", .str "upsert"), ("type", .str type), ("id", .str "n"), ("props", .obj [("tenant_id", .str "B")])]]
  edges := []

def allAccepted : Outcome := ⟨true, true, true, "2024-01-01", true, fun _ => true⟩

theorem sound_otherTenant : otherTenant.graph.Sound where
  valid := ⟨List.nodup_singleton 0, fun _ hr => absurd hr List.not_mem_nil⟩
  fresh n hn := by
    obtain rfl := List.mem_singleton.1 hn
    exact Nat.zero_lt_one

/-- A directory is confined, with another tenant in its props. -/
theorem directory_confined :
    Confined refusing Dedup.plainEnv ⟨"scanner", "A"⟩ (oneNode "Directory") allAccepted otherTenant :=
  (confined_iff refusing Dedup.plainEnv ⟨"scanner", "A"⟩ (oneNode "Directory") allAccepted otherTenant
    sound_otherTenant).2 (by decide +kernel)

/-- The type ends the pattern and sets the tenant of all files to the tenant of the scanner. -/
theorem takeover_not_confined :
    ¬ ∀ (D : Database) (E : Env) (scanner : Scanner) (chunk : DeltaChunk) (O : Outcome) (s : State), s.graph.Sound →
        Confined D E scanner chunk O s := by
  intro h
  have hrest := (h refusing Dedup.plainEnv ⟨"scanner", "A"⟩ (oneNode "File) SET n.tenant_id = $tenant_id //") allAccepted
    otherTenant sound_otherTenant).rest
  have hlength := congrArg (fun p => p.1.length) hrest
  revert hlength
  decide +kernel

end Dgraphai.SyncText
