import Runscope.Commits

/-!
Copies of runs that sessions hold, and why they are current when they are
written: the update of a run is accepted only at the version loaded, and each
step in the life of a run stores a new one.
-/

namespace Runscope

open Transact RunStatus

variable {α : Type} {m : Mode} {κ : Kind} {p p' : Platform}

/-- `run` was loaded when the run's view was `v`. -/
structure Loaded (v : RunView) (run : Run) (p : Platform) : Prop where
  inv : v.Inv
  row : v.run = some run
  lives : Lives (fun _ => True) v (p.db.runView run.id)

theorem Loaded.of_get {r : Uuid} {run : Run} (hI : Invariant m p)
    (h : p.db.runs.get? r = some run) : Loaded (p.db.runView run.id) run p := by
  obtain rfl := Table.key_of_get? h
  exact ⟨hI.runs run.id, h, .refl⟩

theorem Loaded.later {v : RunView} {run : Run} (h : Loaded v run p) (hp : Later p p') :
    Loaded v run p' := ⟨h.inv, h.row, h.lives.trans (hp run.id)⟩

/-- If the row has the version of the copy, nothing has happened to the run. -/
theorem Loaded.current {v : RunView} {run : Run} (h : Loaded v run p)
    (hversion : (p.db.runs.get? run.id).map Run.version = some run.version) :
    p.db.runView run.id = v := by
  refine h.lives.eq_of_version ?_
  have : (p.db.runView run.id).run.map Run.version = some run.version := hversion
  simp [RunView.version, this, h.row]

theorem version_of_check {run : Run} (h : (Write.updateRun run).check p = none) :
    (p.db.runs.get? run.id).map Run.version = some run.version := by
  simp only [Write.check] at h
  split at h
  · assumption
  · simp at h

/-- An accepted update tells the version of the committed row, if nothing was
written to the run before it. -/
theorem version_of_accepted {before after : List Write} {run : Run}
    (h : storage.firstError p (before ++ .updateRun run :: after) = none)
    (hbefore : ∀ w ∈ before, w.run? ≠ some run.id) :
    (p.db.runs.get? run.id).map Run.version = some run.version := by
  obtain ⟨hpre, hrest⟩ := storage.firstError_append_eq_none.mp h
  have hcheck := (storage.firstError_cons_eq_none.mp hrest).1
  have hview := runView_applyAll hpre run.id
  rw [onRun_of_forall_ne hbefore] at hview
  have hget := congrArg RunView.run hview
  simp only [Db.runView] at hget
  rw [← hget]
  exact version_of_check hcheck

/-- A loaded copy whose update is accepted is current. -/
theorem Loaded.of_accepted {v : RunView} {run changed : Run} (h : Loaded v run p)
    (before after : List Write)
    (hacc : storage.firstError p (before ++ .updateRun changed :: after) = none)
    (hbefore : ∀ w ∈ before, w.run? ≠ some run.id) (hid : changed.id = run.id)
    (hversion : changed.version = run.version) : p.db.runView run.id = v := by
  refine h.current ?_
  rw [← hid, ← hversion]
  exact version_of_accepted hacc (hid ▸ hbefore)

/-- The update comes first. -/
theorem Loaded.of_accepted_head {v : RunView} {run changed : Run} {after : List Write}
    (h : Loaded v run p) (hacc : storage.firstError p (.updateRun changed :: after) = none)
    (hid : changed.id = run.id) (hversion : changed.version = run.version) :
    p.db.runView run.id = v := h.of_accepted [] after hacc (by simp) hid hversion

/-! ### Reads and transitions -/

section Rules

variable {Q : Outcome α} {β : Type} {pt : Point} {t : Session}

/-- Reading a run outside any transaction of one's own. -/
theorem Holds.getRun {k : Option Run → Program α} {runId : Uuid} (hf : Fails m Q p)
    (h : ∀ p' i, Meanwhile m κ pt t p p' →
      Holds m κ Q (k ((t.view storage p').db.runs.get? runId)) (t.begin i) p') :
    Holds m κ Q (session.getRun pt runId >>= k) t p := .select hf h

theorem Holds.refreshRun {Q : Outcome Run} {run : Run} (hf : Fails m Q p)
    (h : ∀ p' i run', Meanwhile m κ pt t p p' →
      (t.view storage p').db.runs.get? run.id = some run' → Q (.ok run') (t.begin i) p') :
    Holds m κ Q (session.refreshRun pt run) t p := by
  refine .getRun hf fun p' i hp' => ?_
  cases hget : (t.view storage p').db.runs.get? run.id with
  | none => exact hf _ _ _ hp'.inv (.of_meanwhile hp')
  | some run' => exact h p' i run' hp' hget

/-- A transition that is not in the table raises; the others go through. -/
theorem Holds.transitionRun {k : Run × RunEvent → Program α} {run : Run} {target : RunStatus}
    {eventType : String} {metadata : Record} (hf : Fails m Q p) (hI : Invariant m p)
    (h : ∀ p' t' now, Idle t t' → Meanwhile m κ pt t p p' →
      target ∈ validTransitions run.status →
      Holds m κ Q (k (run.transitioned target now, run.transitionEvent target eventType metadata))
        t' p') :
    Holds m κ Q (transitionRun pt run target eventType metadata >>= k) t p := by
  refine .bind (.ofExcept hf.then hI fun _ hvalid => .datetimeNow fun p' t' now ht' hp' => ?_)
  refine h p' t' now ht' hp' ?_
  simp only [validateTransition] at hvalid
  split at hvalid
  · assumption
  · simp at hvalid

end Rules

end Runscope
