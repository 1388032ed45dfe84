import Runscope.Executors

/-!
Artifact rows and the objects they describe.

The row of an artifact is committed after its object is stored, by the one
executor its run ever has, in the commit that finishes the run; after that
nothing is stored under the run's keys again.
-/

namespace Runscope

open Transact

variable {rt : Runtime} {settings : Settings} {templates : Table TrainingTemplate.id}
  {w w' : Cluster} {a : Action Kind Input}

/-- Artifact rows are never deleted. -/
theorem artifacts_step (hstep : w.step (system rt settings) a = some w') :
    w.state.db.artifacts <+: w'.state.db.artifacts := by
  rcases World.records_step hstep with ⟨pid, i, p, pt, next, -, -, -, hstate, -⟩ |
    ⟨pid, i, p, pt, c, next, -, -, -, hstate, -⟩ | ⟨hstate, -⟩
  · change w'.state = storage.applyAll w.state p.session.writes at hstate
    rw [hstate, artifacts_applyAll]
    exact List.prefix_append _ _
  · have hdb : w'.state.db = w.state.db := hstate ▸ c.perform_db i w.state
    exact hdb ▸ List.prefix_refl _
  · exact hstate ▸ List.prefix_refl _

/-- A step stores nothing under the key of an artifact row. -/
theorem Reachable.kept (h : Reachable rt settings templates w)
    (hstep : w.step (system rt settings) a = some w') {x : Artifact} (hx : x ∈ w.state.db.artifacts) :
    w'.state.content x.storageKey = w.state.content x.storageKey := by
  rcases h.okSole.guar hstep with heq | ⟨pid, i, p, pt, -, -, -, hguar⟩
  · rw [heq]
  · exact hguar.kept trivial x hx

/-- Every artifact row tells the size and the checksum of what is stored under
its key, and that is never replaced. -/
theorem artifact_rows_described (h : Reachable rt settings templates w) :
    ∀ x ∈ w.state.db.artifacts,
      (∃ data, w.state.content x.storageKey = some data ∧ data.size = x.sizeBytes ∧
        rt.sha256 data = x.checksum) ∧
      ∀ w', Reach (system rt settings) (fun _ _ _ => True) w w' →
        x ∈ w'.state.db.artifacts ∧ w'.state.content x.storageKey = w.state.content x.storageKey := by
  intro x hx
  refine ⟨((h.okSole.inv.artifacts trivial x hx).2).content, fun w' hreach => ?_⟩
  induction hreach with
  | refl => exact ⟨hx, rfl⟩
  | step hreach hstep _ ih =>
      obtain ⟨hmem, hcontent⟩ := ih
      refine ⟨(artifacts_step hstep).subset hmem, ?_⟩
      exact ((h.later hreach).1.kept hstep hmem).trans hcontent

theorem artifact_rows_described_executed : ∃ w x,
    Reachable Demo.runtime Demo.settings Demo.templates w ∧ x ∈ w.state.db.artifacts ∧
    ∃ data, w.state.content x.storageKey = some data ∧ data.size = x.sizeBytes := by
  have h : (Demo.exec Demo.executed).any fun w => !w.state.db.artifacts.isEmpty := by decide +kernel
  obtain ⟨w, hw, hne⟩ := Demo.reachable h
  obtain ⟨x, hx⟩ := List.exists_mem_of_ne_nil w.state.db.artifacts (by simpa using hne)
  obtain ⟨⟨data, hdata, hsize, -⟩, -⟩ := artifact_rows_described hw x hx
  exact ⟨w, x, hw, hx, data, hdata, hsize⟩

end Runscope
