import Runscope.Reachable

/-!
Retries: who is whose parent, and what a retry leaves alone.

A retry is stored with a failed parent, and a failed run stays failed whatever
its executor or the scheduler still does, so a run stands at the end of a
chain of failed ones, numbered by attempt.
-/

namespace Runscope

open Transact RunStatus

variable {rt : Runtime} {settings : Settings} {templates : Table TrainingTemplate.id}
  {w w' : Cluster}

/-- The runs before this one: its parent, the parent's parent, and so on. -/
inductive Lineage (db : Db) : Run → List Run → Prop where
  | first (run : Run) (hparent : run.parentRunId = none) : Lineage db run []
  | retry (run parent : Run) (ancestors : List Run) (hparent : run.parentRunId = some parent.id)
      (hget : db.runs.get? parent.id = some parent) (h : Lineage db parent ancestors) :
      Lineage db run (parent :: ancestors)

section Chains

variable {db : Db} {run : Run} {ancestors : List Run}

theorem Parented.first (h : Parented db run) (hparent : run.parentRunId = none) :
    run.attemptNumber = 1 := by
  simpa [Parented, hparent] using h

theorem Parented.retry (h : Parented db run) {r : Uuid} (hparent : run.parentRunId = some r) :
    ∃ parent, db.runs.get? r = some parent ∧ parent.status = failed ∧
      run.attemptNumber = parent.attemptNumber + 1 ∧ run.experimentId = parent.experimentId ∧
      run.templateId = parent.templateId ∧ run.priority = parent.priority ∧
      run.requestedCpu = parent.requestedCpu ∧ run.requestedMemoryMb = parent.requestedMemoryMb := by
  simpa [Parented, hparent] using h

/-- Attempts are counted down to the first. -/
theorem Lineage.exists_of_parented (h : ∀ r run, db.runs.get? r = some run → Parented db run)
    {r : Uuid} (hget : db.runs.get? r = some run) : ∃ ancestors, Lineage db run ancestors := by
  induction hn : run.attemptNumber generalizing r run with
  | zero =>
      cases hparent : run.parentRunId with
      | none => exact ⟨[], .first run hparent⟩
      | some p =>
          obtain ⟨parent, -, -, hattempt, -⟩ := (h r run hget).retry hparent
          omega
  | succ n ih =>
      cases hparent : run.parentRunId with
      | none => exact ⟨[], .first run hparent⟩
      | some p =>
          obtain ⟨parent, hgetParent, -, hattempt, -⟩ := (h r run hget).retry hparent
          obtain rfl := Table.key_of_get? hgetParent
          obtain ⟨ancestors, hancestors⟩ := ih hgetParent (by omega)
          exact ⟨parent :: ancestors, .retry run parent ancestors hparent hgetParent hancestors⟩

theorem Lineage.stored (h : Lineage db run ancestors) :
    ∀ x ∈ ancestors, db.runs.get? x.id = some x := by
  induction h with
  | first run hparent => simp
  | retry run parent ancestors hparent hget h ih =>
      intro x hx
      rcases List.mem_cons.mp hx with rfl | hx
      · exact hget
      · exact ih x hx

/-- A chain of parents is as long as the attempts before, and all of it has
failed. -/
theorem Lineage.attempts (h : ∀ r run, db.runs.get? r = some run → Parented db run)
    (hchain : Lineage db run ancestors) {r : Uuid} (hget : db.runs.get? r = some run) :
    ancestors.length + 1 = run.attemptNumber ∧
      ∀ x ∈ ancestors, x.status = failed ∧ x.attemptNumber < run.attemptNumber := by
  induction hchain generalizing r with
  | first run hparent =>
      have hfirst := (h r run hget).first hparent
      simp [hfirst]
  | retry run parent ancestors hparent hgetParent _ ih =>
      obtain ⟨parent', hget', hfailed, hattempt, -⟩ := (h r run hget).retry hparent
      obtain rfl := Option.some.inj (hgetParent.symm.trans hget')
      obtain ⟨hlength, hancestors⟩ := ih hgetParent
      refine ⟨by rw [List.length_cons]; omega, fun x hx => ?_⟩
      rcases List.mem_cons.mp hx with rfl | hx
      · exact ⟨hfailed, by omega⟩
      · obtain ⟨hx, hlt⟩ := hancestors x hx
        exact ⟨hx, by omega⟩

/-- Nobody is their own ancestor. -/
theorem Lineage.nodup (h : ∀ r run, db.runs.get? r = some run → Parented db run)
    (hchain : Lineage db run ancestors) {r : Uuid} (hget : db.runs.get? r = some run) :
    ((run :: ancestors).map Run.id).Nodup := by
  induction hchain generalizing r with
  | first run hparent => simp
  | retry run parent ancestors hparent hgetParent hchain ih =>
      rw [List.map_cons, List.nodup_cons]
      refine ⟨fun hmem => ?_, ih hgetParent⟩
      have hthis : Lineage db run (parent :: ancestors) := .retry run parent _ hparent hgetParent hchain
      obtain ⟨x, hx, hid⟩ := List.mem_map.mp hmem
      have hlt := ((hthis.attempts h hget).2 x hx).2
      have hgetx := hthis.stored x hx
      obtain rfl := Table.key_of_get? hget
      rw [hid, hget] at hgetx
      obtain rfl := Option.some.inj hgetx
      exact absurd hlt (lt_irrefl _)

end Chains

/-- A session that stores new runs leaves the others alone. -/
theorem Moves.of_submits {κ : Kind} {r : Uuid} {v v' : RunView} (h : Moves κ r v v')
    (hκ : κ.submits) (hv : v.run.isSome) : v' = v := by
  cases h with
  | refl => rfl
  | pass hschedule => simp [hschedule, Kind.submits] at hκ
  | single l hl h =>
      cases l with
      | create =>
          cases h with
          | create => simp [RunView.absent] at hv
      | _ => cases κ <;> first | exact hl.elim | cases hκ

/-- A first attempt has no parent; a later one has a failed parent with the
same terms, so its ancestors are failed attempts, one for each number; and
what a retry commits leaves every run there is as it was. -/
theorem retry_lineage (h : Reachable rt settings templates w) :
    (∀ r run, w.state.db.runs.get? r = some run →
      (run.parentRunId = none → run.attemptNumber = 1) ∧
      (∀ parentId, run.parentRunId = some parentId → ∃ parent,
        w.state.db.runs.get? parentId = some parent ∧ parent.status = failed ∧
        run.attemptNumber = parent.attemptNumber + 1 ∧ run.experimentId = parent.experimentId ∧
        run.templateId = parent.templateId ∧ run.priority = parent.priority ∧
        run.requestedCpu = parent.requestedCpu ∧
        run.requestedMemoryMb = parent.requestedMemoryMb) ∧
      (∃ ancestors, Lineage w.state.db run ancestors) ∧
      ∀ ancestors, Lineage w.state.db run ancestors →
        ancestors.length = run.attemptNumber - 1 ∧ (∀ x ∈ ancestors, x.status = failed) ∧
        ((run :: ancestors).map Run.id).Nodup) ∧
    ∀ (pid : ℕ) i w' (p : Process) parentId body user correlationId,
      w.step (system rt settings) (.run pid i) = some w' → w.procs[pid]? = some p →
      p.kind = .retryRun parentId body user correlationId →
      ∀ r run, w.state.db.runs.get? r = some run →
        w'.state.db.runs.get? r = some run ∧ w'.state.db.historyOf r = w.state.db.historyOf r := by
  have hparented := h.inv.parented
  refine ⟨fun r run hget => ⟨(hparented r run hget).first, fun parentId => (hparented r run hget).retry,
    Lineage.exists_of_parented hparented hget, fun ancestors hchain => ?_⟩, ?_⟩
  · obtain ⟨hlength, hancestors⟩ := hchain.attempts hparented hget
    exact ⟨by omega, fun x hx => (hancestors x hx).1, hchain.nodup hparented hget⟩
  · intro pid i w' p parentId body user correlationId hstep hp hkind r run hget
    rcases h.ok.guar hstep with heq | ⟨pid', i', p', pt, heq, hp', -, hguar⟩
    · rw [heq]
      exact ⟨hget, rfl⟩
    · obtain ⟨rfl, rfl⟩ : pid' = pid ∧ i' = i := by simpa [eq_comm] using heq
      obtain rfl := Option.some.inj (hp'.symm.trans hp)
      have hκ : p'.kind.submits := by rw [hkind]; rfl
      have hview := (hguar.runs r).of_submits hκ (by simp [Db.runView, hget])
      exact ⟨(congrArg RunView.run hview).trans hget, hguar.frame hκ r (by simp [hget])⟩

namespace Demo

/-- A run whose executor was lost is retried. -/
def retriedRun : List (Action Kind Input) :=
  lost ++ salvage ++ .spawn (.retryRun 201 ⟨[]⟩ ⟨5, .researcher⟩ requestId) :: steps 6 100000100 12

end Demo

/-- The second attempt has the first as its only ancestor. -/
theorem retry_lineage_retried : ∃ w child parent,
    Reachable Demo.runtime Demo.settings Demo.templates w ∧
    w.state.db.runs.get? 100000103 = some child ∧ child.parentRunId = some 201 ∧
    w.state.db.runs.get? 201 = some parent ∧ parent.status = failed ∧
    child.attemptNumber = parent.attemptNumber + 1 ∧
    ∃ ancestors, Lineage w.state.db child ancestors ∧ ancestors.length = 1 := by
  have h : (Demo.exec Demo.retriedRun).any fun w =>
      (w.state.db.runs.get? 100000103).any fun child =>
        child.parentRunId = some 201 ∧ child.attemptNumber = 2 := by decide +kernel
  obtain ⟨w, hw, hlast⟩ := Demo.reachable h
  obtain ⟨child, hget, hchild⟩ := (Option.any_eq_true _ _).mp hlast
  obtain ⟨hparent, hattempt⟩ := of_decide_eq_true hchild
  obtain ⟨-, hretried, ⟨ancestors, hlineage⟩, hchain⟩ := (retry_lineage hw).1 _ child hget
  obtain ⟨parent, hgetParent, hfailed, hnumber, -⟩ := hretried 201 hparent
  have hlength := (hchain ancestors hlineage).1
  rw [hattempt] at hlength
  exact ⟨w, child, parent, hw, hget, hparent, hgetParent, hfailed, hnumber, ancestors, hlineage,
    hlength⟩

end Runscope
