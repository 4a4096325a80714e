import Dgraphai.AgentDelivery

/-!
# The properties of stored files

No File node is ever matched, so what a delivery does to the File nodes is to add one with `createdProps` for each
row it applies (`fileProps_run`).
-/

namespace Dgraphai.StoredFiles

open AgentSync (createdProps)
open Dedup (Env Delivery Outcome Row State Tracks Appends files)
open PropertyGraph (Graph Props)

variable {E : Env} {g g' : Graph} {log added : List (String × String)} {s : State}

/-- The properties of the File nodes, in the order of their creation. -/
def fileProps (g : Graph) : List Props := (files g).map (·.props)

theorem fileProps_upsertRow (h : Tracks g log) (tenantID agentID datetime : String) (row : Row) :
    fileProps (Dedup.upsertRow tenantID agentID datetime g row) =
      fileProps g ++ [createdProps row tenantID agentID datetime] := by
  have hfiles : files (Dedup.upsertRow tenantID agentID datetime g row) = files g ++
      [g.created "File" (Dedup.fileKey row.nodeID tenantID) fun _ => createdProps row tenantID agentID datetime] := by
    rw [AgentSync.upsertRow_eq]
    exact Graph.labelled_merge_of_matched_eq_nil (h.matched_eq_nil row.nodeID tenantID)
  rw [fileProps, hfiles, List.map_append]
  rfl

theorem fileProps_bulkUpsert (h : Tracks g log) (tenantID agentID datetime : String) (rows : List Row) :
    fileProps (Dedup.bulkUpsert rows tenantID agentID datetime g) =
      fileProps g ++ rows.map fun row => createdProps row tenantID agentID datetime := by
  induction rows generalizing g log with
  | nil => exact (List.append_nil _).symm
  | cons row rows ih =>
    have hrest := ih (h.upsertRow tenantID agentID datetime row).tracks
    rw [fileProps_upsertRow h, List.append_assoc] at hrest
    exact hrest

theorem fileProps_of_appends_nil (h : Appends g g' log []) : fileProps g' = fileProps g := by
  obtain ⟨new, hfiles, hlength, -⟩ := h.files
  rw [List.eq_nil_of_length_eq_zero hlength, List.append_nil] at hfiles
  rw [fileProps, hfiles, fileProps]

theorem fileProps_syncFiles (h : Tracks g log) (E : Env) (d : Delivery) (nodes : List Json.Fields) :
    fileProps (Dedup.syncFiles E d.scanner d.chunk d.outcome nodes g).1 = fileProps g ++
      (if d.outcome.filesAccepted = true then (Dedup.fileRows E nodes).getD [] else []).map fun row =>
        createdProps row d.chunk.tenantID d.scanner.id d.outcome.datetime := by
  unfold Dedup.syncFiles
  by_cases hempty : nodes = []
  · have hrows : (if d.outcome.filesAccepted = true then (Dedup.fileRows E nodes).getD [] else []) = [] := by
      rw [hempty]
      exact ite_self _
    rw [if_pos hempty, hrows]
    exact (List.append_nil _).symm
  · rw [if_neg hempty]
    rcases hrows : Dedup.fileRows E nodes with _ | rows
    · dsimp only [Option.getD_none]
      rw [ite_self, List.map_nil, List.append_nil]
    · cases haccepted : d.outcome.filesAccepted with
      | true => exact fileProps_bulkUpsert h d.chunk.tenantID d.scanner.id d.outcome.datetime rows
      | false => exact (List.append_nil _).symm

/-- A delivery adds a File node for each row it applies. -/
theorem fileProps_run (h : Tracks s.graph log) (d : Delivery) :
    fileProps (d.run E s).graph = fileProps s.graph ++
      (d.appliedRows E).map fun row => createdProps row d.chunk.tenantID d.scanner.id d.outcome.datetime := by
  rcases Dedup.syncDelta_cases E d.scanner d.chunk d.outcome s with
    ⟨⟨e, hr⟩, hrefused⟩ | ⟨nodes, others, hsplit, ⟨htenant, hfound, hknown⟩, hr⟩
  · rw [Delivery.run, hr, Dedup.appliedRows_of_refused hrefused]
    exact (List.append_nil _).symm
  · rw [Dedup.appliedRows_of_split htenant hfound hknown hsplit, ← fileProps_syncFiles h E d nodes]
    rcases hr with ⟨-, hr⟩ | ⟨-, response, lastHealth, hr, -⟩ <;> rw [Delivery.run, hr]
    have htracks := (Dedup.syncFiles_appends E d.scanner d.chunk d.outcome nodes h).tracks
    exact fileProps_of_appends_nil (Dedup.syncBackend_appends d.chunk d.outcome
      (Dedup.syncFiles E d.scanner d.chunk d.outcome nodes s.graph).2 (Dedup.splitNodes_others hsplit) htracks)

end Dgraphai.StoredFiles
