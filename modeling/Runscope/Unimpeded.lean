import Runscope.Entries
import Runscope.Executors
import Runscope.Transact.Regime

/-!
What may get in the way of an executor.

A session that has started a run is `Unimpeded` where nothing happens to it
that it is not prepared for: the update of the run it is about to flush is
still current and goes with artifacts of different names, a store that fails
does so with the exception a demonstration catches, or before a classification
has added a row, and the failure handler finds the run not being cancelled. The
rules here are those for programs whose session meets nothing else.
-/

namespace Runscope

open Transact RunStatus

variable {α β : Type}

/-- The template of the run is the slow demonstration. -/
def Db.demonstrates (db : Db) (r : Uuid) : Bool :=
  (db.runs.get? r).any fun run =>
    (db.templates.get? run.templateId).any fun template => template.key = "slow-demonstration"

/-- A finished run stays finished. -/
theorem Lives.finished {L : Label → Prop} {r : Uuid} {db db' : Db}
    (h : Lives L (db.runView r) (db'.runView r)) (hdb : db.finished r) : db'.finished r := by
  have hv : ∃ run, (db.runView r).run = some run ∧ run.status.finished := hdb
  exact h.preserves (P := fun v => ∃ run, v.run = some run ∧ run.status.finished)
    (fun _ _ _ _ hstep => hstep.finished) hv

/-- The executor of run `r` is prepared for what the statement meets. A
demonstration catches what a store raises for want of storage; a classification
survives a failing store only as long as a rollback leaves its rows loaded. -/
def Clear (r : Uuid) (pt : Point) (p : Platform) (i : Input) :
    Stmt Platform RowKey Write Call → Prop
  | .flush ws => ∀ run, .updateRun run ∈ ws → run.id = r →
      (p.db.runs.get? r).map Run.version = some run.version ∧
        ((recordsIn (entries r ws)).2.2.map Artifact.name).Nodup
  | .call (.put _ _) => i.failure = none ∨
      if p.db.demonstrates r then ∃ message, i.failure = some (.artifactStorage message)
      else pt.begun = false
  | .select => p.db.demonstrates r = false →
      ∀ run, p.db.runs.get? r = some run → run.status ≠ cancelling
  | _ => True

/-- What may happen to the state between two statements of a session, as long
as run `r` is not finished. -/
structure Beside (rt : Runtime) (κ : Kind) (r : Uuid) (pt : Point) (t : Session)
    (p p' : Platform) : Prop where
  meanwhile : Meanwhile (.sole rt) κ pt t p p'
  workers : ∀ id, (p.db.workers.get? id).isSome → (p'.db.workers.get? id).isSome
  unfinished : ¬ p'.db.finished r
  bare : (p'.db.runView r).entered running = 0 → p'.db.recordsOf r = ([], [], [])

theorem Beside.trans {rt : Runtime} {κ : Kind} {r : Uuid} {pt : Point} {t : Session}
    {p₁ p₂ p₃ : Platform} (h₁ : Beside rt κ r pt t p₁ p₂) (h₂ : Beside rt κ r pt t p₂ p₃) :
    Beside rt κ r pt t p₁ p₃ where
  meanwhile := h₁.meanwhile.trans h₂.meanwhile
  workers id hid := h₂.workers id (h₁.workers id hid)
  unfinished := h₂.unfinished
  bare := h₂.bare

theorem Idle.beside {rt : Runtime} {κ : Kind} {r : Uuid} {pt : Point} {t t' : Session}
    {p p' : Platform} (h : Idle t t') (hp : Beside rt κ r pt t' p p') : Beside rt κ r pt t p p' :=
  ⟨h.meanwhile hp.meanwhile, hp.workers, hp.unfinished, hp.bare⟩

/-- A flush, and what others do after it. -/
theorem Beside.flush {rt : Runtime} {κ : Kind} {r : Uuid} {pt : Point} {t : Session}
    {p p₁ p₂ : Platform} {i : Input} {pending : List Write} (h₁ : Beside rt κ r pt t p p₁)
    (h₂ : Beside rt κ r pt ((t.begin i).write storage (t.stamped storage i pending)) p₁ p₂) :
    Beside rt κ r pt t p p₂ :=
  ⟨(Flushed.of_flush h₁.meanwhile h₂.meanwhile).meanwhile,
    fun id hid => h₂.workers id (h₁.workers id hid), h₂.unfinished, h₂.bare⟩

/-- The connection is kept from the start of run `r` on, and what stands in
the way of nobody is all that happens. The message counts as processed when
the run is done with, if it has been started. -/
def regime (rt : Runtime) (κ : Kind) (r : Uuid) :
    Regime Platform RowKey Write Call Input Point where
  rely := Beside rt κ r
  admits pt st t p i := 0 < startsOf r t.committed → Clear r pt p i st
  loses t := startsOf r t.committed = 0
  need st t _ := ∀ ws message, st = .flush ws → .insertProcessed message ∈ ws →
    startsOf r t.committed = 0
  rely_trans := .trans

abbrev Finishes (rt : Runtime) (κ : Kind) (r : Uuid) (Q : Outcome α) (c : Program α) :
    Session → Platform → Prop := c.Meets storage (regime rt κ r) Q

/-- Before the run is started, any exception is fine. -/
def Spares (r : Uuid) (t : Session) (Q : Outcome α) : Prop :=
  startsOf r t.committed = 0 → ∀ e p, Q (.error e) t.close p

theorem Spares.of_started {r : Uuid} {t : Session} {Q : Outcome α}
    (h : 0 < startsOf r t.committed) : Spares r t Q := fun hzero => absurd hzero (by omega)

/-- The outcome of a part of a program from which the rest `k` finishes. -/
def Rest (rt : Runtime) (κ : Kind) (r : Uuid) (Q : Outcome β) (k : α → Program β) : Outcome α
  | .ok a, t, p => Finishes rt κ r Q (k a) t p
  | .error e, t, p => Q (.error e) t p

section Rules

variable {rt : Runtime} {κ : Kind} {r : Uuid} {Q : Outcome β} {pt : Point} {t : Session}
  {p : Platform}

theorem Spares.rest {k : α → Program β} (h : Spares r t Q) : Spares r t (Rest rt κ r Q k) := h

namespace Finishes

/-- A part of a program, then the rest. -/
theorem bind {c : Program α} {k : α → Program β} (h : Finishes rt κ r (Rest rt κ r Q k) c t p) :
    Finishes rt κ r Q (c >>= k) t p :=
  Prog.Meets.bind (Prog.Meets.mono (fun x _ _ hx => by cases x <;> exact hx) h)

theorem select {query : Db → α} {k : α → Program β} (hf : Spares r t Q)
    (h : ∀ p' i, Beside rt κ r pt t p p' →
      (0 < startsOf r t.committed → Clear r pt p' i (.select)) →
      Finishes rt κ r Q (k (query (t.view storage p').db)) (t.begin i) p') :
    Finishes rt κ r Q (session.select pt query >>= k) t p :=
  Prog.Meets.bind (.stmt fun p' hp' => ⟨by simp [regime], fun ht => hf ht _ _,
    fun i hclear => h p' i hp' hclear⟩)

theorem selectForUpdate {skip : Bool} {key : α → RowKey}
    {query : Db → (α → Bool) → List α} {k : List α → Program β} (hf : Spares r t Q)
    (h : ∀ p' i (free : α → Bool), Beside rt κ r pt t p p' →
      Finishes rt κ r Q (k (query (t.view storage p').db free))
        ((t.begin i).lock ((query (t.view storage p').db free).map key)) p') :
    Finishes rt κ r Q (session.selectForUpdate pt skip key query >>= k) t p :=
  Prog.Meets.bind (.stmt fun p' hp' => ⟨by simp [regime], fun ht => hf ht _ _,
    fun i _ free => h p' i _ hp'⟩)

theorem flush {pending : List Write} {k : Unit → Program β} (hf : Spares r t Q)
    (hneed : ∀ message, .insertProcessed message ∈ pending → startsOf r t.committed = 0)
    (herror : ∀ p' i e, Beside rt κ r pt t p p' →
      (0 < startsOf r t.committed → Clear r pt p' i (.flush pending)) →
      storage.firstError (t.view storage p') (t.stamped storage i pending) = some e →
      Q (.error e) t.close p')
    (h : ∀ p' i, Beside rt κ r pt t p p' →
      storage.firstError (t.view storage p') (t.stamped storage i pending) = none →
      Finishes rt κ r Q (k ()) ((t.begin i).write storage (t.stamped storage i pending)) p') :
    Finishes rt κ r Q (session.flush pt pending >>= k) t p := by
  refine Prog.Meets.bind (.stmt fun p' hp' => ⟨?_, fun ht => hf ht _ _, fun i hclear => ?_⟩)
  · rintro ws message hws hmem
    obtain rfl := Stmt.flush.inj hws
    exact hneed message hmem
  · exact ⟨fun e he => herror p' i e hp' hclear he, fun hacc => h p' i hp' hacc⟩

theorem rollback {k : Unit → Program β} (hf : Spares r t Q)
    (h : ∀ p', Beside rt κ r pt t p p' → Finishes rt κ r Q (k ()) t.close p') :
    Finishes rt κ r Q (session.rollback pt >>= k) t p :=
  Prog.Meets.bind (.stmt fun p' hp' => ⟨by simp [regime], fun ht => hf ht _ _,
    fun _ _ => h p' hp'⟩)

/-- A flush of what is pending, then the commit of everything. -/
theorem commit {pending : List Write} {k : Unit → Program β} (hf : Spares r t Q)
    (hneed : ∀ message, .insertProcessed message ∈ pending → startsOf r t.committed = 0)
    (herror : ∀ p' i e, Beside rt κ r pt t p p' →
      (0 < startsOf r t.committed → Clear r pt p' i (.flush pending)) →
      storage.firstError (t.view storage p') (t.stamped storage i pending) = some e →
      Q (.error e) t.close p')
    (h : ∀ p' i t', Beside rt κ r pt t p p' → t'.writes = [] →
      t'.committed = t.committed ++ (t.writes ++ t.stamped storage i pending) →
      storage.firstError p' (t.writes ++ t.stamped storage i pending) = none →
      Finishes rt κ r Q (k ()) t'
        (storage.applyAll p' (t.writes ++ t.stamped storage i pending))) :
    Finishes rt κ r Q (session.commit pt pending >>= k) t p := by
  refine Prog.Meets.bind (flush hf hneed herror fun p₁ i hp₁ hacc => ?_)
  refine .stmt fun p₂ hp₂ => ⟨by simp [regime], fun ht => hf ht _ _, fun _ _ => ?_⟩
  exact h p₂ i _ (hp₁.flush hp₂) rfl rfl hp₂.meanwhile.accepted

theorem call {c : Call} {f : Reply Platform RowKey Input → α} {k : α → Program β}
    (hf : Spares r t Q)
    (h : ∀ p' i, Beside rt κ r pt t p p' →
      (0 < startsOf r t.committed → Clear r pt p' i (.call c)) →
      Finishes rt κ r Q (k (f ⟨t.view storage (c.perform i p'), fun _ => true, i⟩)) (t.record c)
        (c.perform i p')) :
    Finishes rt κ r Q (Prog.stmt pt (.call c) f >>= k) t p :=
  Prog.Meets.bind (.stmt fun p' hp' => ⟨by simp [regime], fun ht => hf ht _ _,
    fun i hclear => h p' i hp' hclear⟩)

theorem datetimeNow {k : Time → Program β} (hf : Spares r t Q)
    (h : ∀ p' t' now, Idle t t' → Beside rt κ r pt t p p' → Finishes rt κ r Q (k now) t' p') :
    Finishes rt κ r Q (Runscope.datetimeNow pt >>= k) t p :=
  .call hf fun p' _ hp' _ => h p' _ _ (.record t) hp'

theorem ofExcept {x : Except Exc α} {k : α → Program β} (herror : ∀ e, x = .error e → Q (.error e) t p)
    (h : ∀ a, x = .ok a → Finishes rt κ r Q (k a) t p) :
    Finishes rt κ r Q (Prog.ofExcept x >>= k) t p := by
  cases x with
  | ok a => exact h a rfl
  | error e => exact herror e rfl

/-- A transition of the table goes through. -/
theorem transitionRun {k : Run × RunEvent → Program β} {run : Run} {target : RunStatus}
    {eventType : String} {metadata : Record} (hf : Spares r t Q)
    (hvalid : target ∈ validTransitions run.status)
    (h : ∀ p' t' now, Idle t t' → Beside rt κ r pt t p p' →
      Finishes rt κ r Q (k (run.transitioned target now,
        run.transitionEvent target eventType metadata)) t' p') :
    Finishes rt κ r Q (Runscope.transitionRun pt run target eventType metadata >>= k) t p :=
  .bind (.ofExcept (by simp [validateTransition, hvalid]) fun _ _ =>
    .datetimeNow hf.rest fun p' t' now ht' hp' => h p' t' now ht' hp')

/-- Nothing follows once the run is finished. -/
theorem of_finished {c : Program β} (hQ : ∀ x t p, p.db.finished r → Q x t p)
    (hp : p.db.finished r) : Finishes rt κ r Q c t p := by
  cases c with
  | ret a => exact hQ _ _ _ hp
  | raise e => exact hQ _ _ _ hp
  | step pt st next =>
      exact fun p' hp' => absurd ((hp'.meanwhile.rely.runs r).finished hp) hp'.unfinished

theorem getRun {k : Option Run → Program β} {runId : Uuid} (hf : Spares r t Q)
    (h : ∀ p' i, Beside rt κ r pt t p p' →
      (0 < startsOf r t.committed → Clear r pt p' i .select) →
      Finishes rt κ r Q (k ((t.view storage p').db.runs.get? runId)) (t.begin i) p') :
    Finishes rt κ r Q (session.getRun pt runId >>= k) t p := select hf h

theorem refreshRun {Q : Outcome Run} {run : Run} (hf : Spares r t Q)
    (h : ∀ p' i, Beside rt κ r pt t p p' → ∃ run', (t.view storage p').db.runs.get? run.id = some run' ∧
      Q (.ok run') (t.begin i) p') :
    Finishes rt κ r Q (session.refreshRun pt run) t p := by
  refine getRun hf fun p' i hp' _ => ?_
  obtain ⟨run', hget, hQ⟩ := h p' i hp'
  rw [hget]
  exact hQ

end Finishes

end Rules

end Runscope
