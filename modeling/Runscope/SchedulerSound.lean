import Runscope.AssignmentSound
import Runscope.RecoverySound

/-!
A scheduler pass keeps the contract: the recovery of expired leases and the
assignment of queued runs are one transaction.
-/

namespace Runscope

open Transact RunStatus

variable {m : Mode} {t : Session} {p : Platform}

/-- The runs of the queue, as the pass that locks them sees them. -/
theorem queued_of_queue {runs : List Run} {free : Run → Bool}
    (hruns : (t.view storage p).db.queue free = runs)
    (hacc : storage.firstError p t.writes = none) :
    (∀ run ∈ runs, Queued (t.lock (runs.map fun r => .run r.id)) p [] run) ∧
      (runs.map Run.id).Nodup := by
  subst hruns
  have hperm := List.perm_insertionSort Run.precedes
    ((t.view storage p).db.runs.rows.filter fun r => r.status = .queued ∧ free r)
  constructor
  · intro run hrun
    have hmem := hperm.mem_iff.mp (List.mem_of_mem_take hrun)
    obtain ⟨hrow, hqueued⟩ := List.mem_filter.mp hmem
    simp only [decide_eq_true_eq] at hqueued
    have hget : (t.view storage p).db.runs.get? run.id = some run := Table.get?_of_mem hrow
    refine ⟨List.mem_append_left _ (List.mem_map_of_mem hrun), ?_, hqueued.1⟩
    rw [List.append_nil]
    exact (congrArg RunView.run (runView_applyAll hacc run.id)).symm.trans hget
  · have hnodup := (t.view storage p).db.runs.nodup.sublist
      ((List.filter_sublist (p := fun r => r.status = .queued ∧ free r)).map Run.id)
    exact ((hperm.map Run.id).nodup_iff.mpr hnodup).sublist ((List.take_sublist _ _).map _)

theorem scheduleOnce_holds {Q : Outcome ℕ} (hQ : ∀ x t p, Q x t p) {settings : Settings}
    (ht : t.writes = []) : Holds m .schedule Q (scheduleOnce settings) t p := by
  have hf (p : Platform) : Fails m Q p := .of_forall hQ p
  refine .bind (recoverExpiredAllocations_holds (hf p).then ht
    fun p₁ t₁ recovered pending hI₁ _ hpass₁ hupkeep => ?_)
  refine .datetimeNow fun p₂ t₂ now ht₂ hp₂ => ?_
  have hpass₂ := (hpass₁.stable hp₂).idle ht₂
  refine .flush' (hf p₂) (upkeep_not_insertAllocation hupkeep) fun p₃ i₃ hp₃ _ => ?_
  have hpass₃ := (hpass₂.stable hp₃).flush i₃
  generalize (t₂.begin i₃).write storage (t₂.stamped storage i₃ pending) = t₃ at *
  refine .selectForUpdate (hf p₃) fun p₄ i₄ free hp₄ => ?_
  have hpass₄ := (hpass₃.stable hp₄).begin i₄
  generalize hruns : (t₃.view storage p₄).db.queue free = runs
  obtain ⟨hqueued, hnodup⟩ := @queued_of_queue (t₃.begin i₄) p₄ runs free hruns hp₄.accepted
  refine .bind (assignRuns_holds (hf p₄).then hp₄.inv
    ((hpass₄.lock _).mono fun _ _ => .inr) (by simp) hqueued hnodup
    fun p₅ t₅ n pending' hI₅ _ hpass₅ hactive₅ => ?_)
  refine .commitAll (hf p₅) hactive₅ (fun p₆ i t₆ h₆ => ?_) fun _ _ _ _ _ _ => hQ _ _ _
  have hpass₆ := (hpass₅.stable h₆.meanwhile).flushed h₆.locks h₆.writes fun w hw r hr =>
    h₆.owned w (List.mem_append_right _ hw) r hr
  exact h₆.writes ▸ hpass₆.lawful fun _ _ hroom => hroom

end Runscope
