import Runscope.Attendance
import Runscope.Coupling
import Runscope.Entries
import Runscope.Transact.Outcomes
import Runscope.Unimpeded

/-!
What becomes of an assignment.

A message is entered as processed only when its lease does not wait for it any
more. So as long as a run waits to be started, its assignment is neither
recorded nor handled by any delivery, however many copies are delivered; and a
run that is being worked on was started by a delivery that has not returned.
-/

namespace Runscope

open Transact RunStatus

/-- Nothing waits for what is entered as processed. -/
def Entered (p : Platform) : Prop :=
  ∀ x ∈ p.db.processed, Taken x.consumerName.2 x.eventId p

/-- Nothing is entered as processed. -/
def aloof : Contract Platform RowKey Write Call Input Point where
  rely _ _ _ _ := True
  guar _ _ p p' := p'.db.processed ⊆ p.db.processed
  need _ _ _ := True
  rely_refl := trivial
  rely_trans _ _ := trivial

/-- Deliveries enter their own message, and no other session enters any. -/
def recording : Kind → Contract Platform RowKey Write Call Input Point
  | .processEvent e _ => attending e
  | _ => aloof

/-- What a session of the kind leaves behind. -/
def Kind.Leaves : Kind → Except Exc Unit → Session → Platform → Prop
  | .processEvent e workerId, outcome, t, p => Resolved e workerId outcome t p
  | _, _, _, _ => True

section Worlds

variable {rt : Runtime} {settings : Settings} {templates : Table TrainingTemplate.id}
  {w w' : Cluster} {a : Action Kind Input} {r : Uuid}

/-! ### The sessions -/

/-- A write that enters no message as processed. -/
def Write.Unprocessed (x : Write) : Prop := ∀ message, x ≠ .insertProcessed message

theorem unprocessed_stamp (i : Input) (x : Write) (h : x.Unprocessed) : (x.stamp i).Unprocessed := by
  cases x with
  | insertProcessed message => exact absurd rfl (h message)
  | _ => exact nofun

theorem processed_unprocessed {ws : List Write} (h : ∀ x ∈ ws, x.Unprocessed) (p : Platform) :
    (storage.applyAll p ws).db.processed = p.db.processed := by
  induction ws generalizing p with
  | nil => rfl
  | cons x ws ih =>
      refine (ih (fun y hy => h y (by simp [hy])) _).trans ?_
      cases x with
      | insertProcessed message => exact absurd rfl (h _ (by simp) message)
      | _ => rfl

theorem unprocessed_covers : Covers .any Write.Unprocessed := by
  rintro x - hordinary message rfl
  exact hordinary

theorem code_recording (κ : Kind) (p : Platform)
    (hpending : ∀ e workerId, κ = .processEvent e workerId → ∀ k, Pending k e p) :
    Sound storage (fun _ => True) (recording κ) κ.Leaves (κ.code rt settings) .fresh p := by
  by_cases hκ : ∃ e workerId, κ = .processEvent e workerId
  · obtain ⟨e, workerId, rfl⟩ := hκ
    refine Sound.bind ((processEvent_attends (hpending e workerId rfl)).mono fun outcome t p h => ?_)
    cases outcome with
    | ok a => exact fun _ _ => h a rfl
    | error x => exact .error
  · have hstores : Stores .any Write.Unprocessed (fun _ => True) (κ.code rt settings) :=
      stores_code unprocessed_covers (fun _ _ _ _ => trivial) (fun _ _ _ _ _ _ _ => trivial)
        (fun _ _ => trivial) (fun e workerId heq => absurd ⟨e, workerId, heq⟩ hκ)
        fun _ _ _ _ _ => nofun
    have haloof : recording κ = aloof := by
      cases κ with
      | processEvent e workerId => exact absurd ⟨e, workerId, rfl⟩ hκ
      | _ => rfl
    rw [haloof]
    refine (hstores.sound unprocessed_stamp (fun _ _ _ _ => noted_any _) (fun _ _ => noted_any _)
      (fun _ _ _ => trivial) (fun _ t p _ ht => ⟨?_, trivial⟩) (fun _ _ p c i _ => ⟨?_, trivial⟩)
      (by simp) p).mono fun _ _ _ _ => ?_
    · exact fun _ hx => processed_unprocessed ht p ▸ hx
    · exact fun _ hx => congrArg Db.processed (c.perform_db i p) ▸ hx
    · cases κ with
      | processEvent e workerId => exact absurd ⟨e, workerId, rfl⟩ hκ
      | _ => exact trivial

/-! ### One step -/

/-- A message that is delivered is in the outbox. -/
theorem Reachable.known (h : Reachable rt settings templates w) {p : Process} (hp : p ∈ w.procs)
    {e : EventEnvelope} {workerId : Option Uuid} (hkind : p.kind = .processEvent e workerId) :
    ∃ r, e ∈ w.state.db.messagesOf r := by
  obtain ⟨w₁, hbefore, hadmits, hafter⟩ := Reach.admitted h hp
  have hbefore : Reachable rt settings templates w₁ := hbefore
  change p.kind.admits w₁.state at hadmits
  rw [hkind] at hadmits
  obtain ⟨r, hmessage⟩ := hbefore.inv.topic e hadmits
  exact ⟨r, ((hbefore.later hafter).2 r).messages hmessage⟩

theorem Reachable.closed (h : Reachable rt settings templates w) (r : Uuid) :
    (w.state.db.runView r).Closed := by
  induction h with
  | refl => exact fun _ _ h => by cases h
  | step hbefore hstep _ ih =>
      have hbefore : Reachable rt settings templates _ := hbefore
      exact ((hbefore.later (.step .refl hstep trivial)).2 r).closed ih

/-- A run whose end a session has committed is over. -/
theorem Reachable.ended (h : Reachable rt settings templates w) {j : ℕ} {q : Process}
    (hq : w.procs[j]? = some q) (hended : Ended r q.session.committed) : w.state.db.finished r := by
  obtain ⟨event, target, hmem, hrun, hnew, hfinished⟩ := hended
  have hentry : .transition event.previousStatus (some target) ∈ entries r q.session.committed :=
    List.mem_filterMap.mpr ⟨_, hmem, by simp [Write.entered?, hrun, hnew]⟩
  exact h.closed r _ _ (h.transitions hq hentry) hfinished

theorem not_waiting_of_finished {k : Uuid} {e : EventEnvelope} {p : Platform}
    (hr : e.runId = some r) (hfinished : p.db.finished r) : ¬ Waiting k e p := by
  obtain ⟨run, hget, hfinished⟩ := hfinished
  refine not_waiting_of_status hr hget fun hstatus => ?_
  simp [hstatus, RunStatus.finished] at hfinished

/-- The facts about two worlds that what is taken rests on. -/
theorem Reachable.taken_later (h : Reachable rt settings templates w)
    (hstep : w.step (system rt settings) a = some w') {k eventId : Uuid}
    (htaken : Taken k eventId w.state) : Taken k eventId w'.state :=
  htaken.later h.inv (h.step hstep).inv (h.later (.step .refl hstep trivial)).2

theorem Reachable.entered_step (h : Reachable rt settings templates w)
    (hok : w.Ok (system rt settings) (fun _ => True) recording) (hentered : Entered w.state)
    (hstep : w.step (system rt settings) a = some w') : Entered w'.state := by
  have hold {x : ProcessedMessage} (hx : x ∈ w.state.db.processed) :
      Taken x.consumerName.2 x.eventId w'.state := h.taken_later hstep (hentered x hx)
  rcases hok.guar hstep with heq | ⟨pid, i, p, pt, rfl, hp, -, hguar⟩
  · rwa [heq]
  intro x hx
  cases hkind : p.kind with
  | processEvent e workerId =>
      rw [hkind] at hguar
      rcases hguar x hx with hx | ⟨k, r, rfl, hr, htaken | hended⟩
      · exact hold hx
      · exact htaken
      · obtain ⟨r', hknown⟩ := h.known (List.mem_of_getElem? hp) hkind
        have hlater := (h.later (.step .refl hstep trivial)).2
        refine ⟨r', e, (hlater r').messages hknown, rfl, ?_⟩
        exact not_waiting_of_finished hr ((hlater r).finished (h.ended hp hended))
  | _ =>
      rw [hkind] at hguar
      exact hold (hguar hx)

/-- No step undoes what deliveries rely on. -/
theorem Reachable.relied (h : Reachable rt settings templates w)
    (hstep : w.step (system rt settings) a = some w') (pid : ℕ) :
    w.Relied recording pid w'.state := by
  intro j q pt hq _ _
  cases hkind : q.kind with
  | processEvent e workerId =>
      refine fun k => ⟨fun hpending => ⟨?_, ?_⟩, h.taken_later hstep⟩
      · exact List.pairwise_map.mpr (pairwise_activeAllocations (h.step hstep).inv)
      · obtain ⟨r, hknown⟩ := hpending.known
        exact ⟨r, ((h.later (.step .refl hstep trivial)).2 r).messages hknown⟩
  | _ => exact trivial

/-- Rows of `processed_messages` stay. -/
theorem World.processed_step (hstep : w.step (system rt settings) a = some w') :
    w.state.db.processed ⊆ w'.state.db.processed := by
  rcases World.commits_step hstep with ⟨_, _, q, _, _, -, -, -, hstate, -⟩ |
    ⟨hstate | ⟨c, i, hstate⟩, -⟩
  · rw [hstate]
    exact Consumer.processed_applyAll q.session.writes w.state
  · rw [hstate]
    exact List.Subset.refl _
  · rw [hstate]
    exact Consumer.processed_perform c i w.state

/-- What holds of every reachable world. -/
structure Attending (rt : Runtime) (settings : Settings) (w : Cluster) : Prop where
  ok : w.Ok (system rt settings) (fun _ => True) recording
  ends : w.Ends (system rt settings) (fun _ => True) recording Kind.Leaves
  entered : Entered w.state

theorem Attending.step (h : Attending rt settings w) (hreach : Reachable rt settings templates w)
    (hstep : w.step (system rt settings) a = some w') : Attending rt settings w' := by
  have hentered := hreach.entered_step h.ok h.entered hstep
  have hrelied := hreach.relied hstep
  have hcode (κ : Kind) (hadmits : κ.admits w.state) :
      Sound storage (fun _ => True) (recording κ) κ.Leaves (κ.code rt settings) .fresh w.state := by
    refine code_recording κ w.state fun e workerId hκ k => ⟨?_, ?_⟩
    · exact List.pairwise_map.mpr (pairwise_activeAllocations hreach.inv)
    · subst hκ
      exact hreach.inv.topic e hadmits
  have hcompatible : Compatible (system rt settings) (fun _ => True) recording
      fun v _ v' => v = w ∧ v' = w' := by
    rintro _ _ pid i p pt - - ⟨rfl, rfl⟩ - - -
    exact hrelied pid
  refine ⟨?_, ?_, hentered⟩
  · exact h.ok.step (fun κ hadmits => (hcode κ hadmits).mono fun _ _ _ _ => trivial) hcompatible
      hstep ⟨rfl, rfl⟩
  · refine h.ends.step h.ok hcode (fun κ t s => ?_) (fun q outcome hpost => ?_)
      (fun pid _ _ => .inr (hrelied pid)) trivial hstep
    · cases κ with
      | processEvent e workerId => exact .error
      | _ => exact trivial
    · cases hkind : q.kind with
      | processEvent e workerId =>
          rw [hkind] at hpost
          intro x hx
          obtain ⟨hrecorded, hended⟩ := hpost x hx
          exact ⟨fun k haddressed hworker =>
            World.processed_step hstep (hrecorded k haddressed hworker), hended⟩
      | _ => exact trivial

theorem Reachable.attending (h : Reachable rt settings templates w) : Attending rt settings w := by
  induction h with
  | refl =>
      refine ⟨⟨trivial, ?_, ?_, ?_, ?_⟩, ?_, ?_⟩
      · simp [World.initial]
      · simp [World.initial]
      · simp [World.initial]
      · simp [World.initial]
      · simp [World.Ends, World.initial]
      · exact fun _ h => by cases h
  | step hbefore hstep _ ih => exact ih.step hbefore hstep

/-! ### Whole runs -/

/-- The message that announces an open lease. -/
theorem Reachable.announced (h : Reachable rt settings templates w) {a : ResourceAllocation}
    (ha : a ∈ w.state.db.activeAllocations) :
    ∃ m ∈ w.state.db.outbox.rows, Promises m.envelope a := by
  obtain ⟨run, hget, -⟩ := leased_of_active h.inv ha
  have hassigned := ((h.inv.runs a.runId).present run hget).assigned
  obtain ⟨e, he, hcarries⟩ := exists_of_mem_right hassigned
    (mem_leases_of_active (mem_active_of_row ha))
  obtain ⟨he, hrun⟩ := List.mem_filter.mp (List.mem_filter.mp he).1
  obtain ⟨m, hm, rfl⟩ := List.mem_map.mp he
  exact ⟨m, hm, by simpa using hrun, hcarries⟩

/-- If no two messages have the same id, what is taken is not waited for. -/
theorem not_waiting_of_taken {k : Uuid} {p : Platform} {m : OutboxMessage}
    (hids : (p.db.outbox.rows.map fun m => m.envelope.eventId).Nodup) (hm : m ∈ p.db.outbox.rows)
    (h : Taken k m.envelope.eventId p) : ¬ Waiting k m.envelope p := by
  obtain ⟨r, e, he, hid, hwaiting⟩ := h
  obtain ⟨m', hm', rfl⟩ := List.mem_map.mp (List.mem_filter.mp he).1
  obtain rfl := List.inj_on_of_nodup_map hids hm' hm hid
  exact hwaiting

/-- The session that has started a run with a lease. -/
theorem Reachable.starter_of_begun (h : Reachable rt settings templates w) {run : Run}
    (hget : w.state.db.runs.get? r = some run) (hbegun : run.status.begun) :
    ∃ (pid : ℕ) (q : Process), w.procs[pid]? = some q ∧ 0 < startsOf r q.session.committed := by
  by_contra hnone
  have hzero : ∀ n ∈ w.records.map fun x => startsOf r x.1, n = 0 := by
    intro n hn
    obtain ⟨x, hx, rfl⟩ := List.mem_map.mp hn
    obtain ⟨q, hq, rfl⟩ := List.mem_map.mp hx
    obtain ⟨pid, hpid⟩ := List.getElem?_of_mem hq
    by_contra hpos
    exact hnone ⟨pid, q, hpid, Nat.pos_of_ne_zero hpos⟩
  have hstarted := ((h.inv.runs r).present run hget).started
  rw [if_pos hbegun, ← h.tallied.started r, List.sum_eq_zero hzero] at hstarted
  cases hstarted

/-- A run that waits under a lease has an assignment that is not recorded. -/
theorem Reachable.awaited (h : Reachable rt settings templates w)
    (hids : (w.state.db.outbox.rows.map fun m => m.envelope.eventId).Nodup)
    {a : ResourceAllocation} (ha : a ∈ w.state.db.activeAllocations) {run : Run}
    (hget : w.state.db.runs.get? a.runId = some run) (hstatus : run.status = scheduling) :
    ∃ m ∈ w.state.db.outbox.rows, Promises m.envelope a ∧
      Consumer.record a.workerId m.envelope ∉ w.state.db.processed := by
  obtain ⟨m, hm, hpromises⟩ := h.announced ha
  refine ⟨m, hm, hpromises, fun hmem => ?_⟩
  exact not_waiting_of_taken hids hm (h.attending.entered _ hmem)
    ⟨a, ha, rfl, hpromises, run, hget, hstatus⟩

theorem Promises.announces {e : EventEnvelope} {a : ResourceAllocation} (h : Promises e a) :
    Announces e a := ⟨h.runId, h.carries.workerId, h.carries.payload⟩

theorem Promises.addressed {e : EventEnvelope} {a : ResourceAllocation} (h : Promises e a) :
    Consumer.Addressed a.workerId e := by
  refine ⟨h.carries.eventType, ?_, h.carries.workerId⟩
  rw [h.runId]
  rfl

/-- A run that is being worked on has been started by one delivery, which has
not returned. -/
theorem Reachable.worked (h : Reachable rt settings templates w) {a : ResourceAllocation}
    (ha : a ∈ w.state.db.activeAllocations) {run : Run}
    (hget : w.state.db.runs.get? a.runId = some run) (hbegun : run.status.begun)
    (hfinished : ¬ run.status.finished) :
    ∃ (pid : ℕ) (q : Process) (e : EventEnvelope) (workerId : Option Uuid),
      w.procs[pid]? = some q ∧ q.kind = .processEvent e workerId ∧ e.runId = some a.runId ∧
        e.fences workerId a.lease ∧ q.prog ≠ .ret () ∧
        0 < startsOf a.runId q.session.committed := by
  obtain ⟨pid, q, hq, hstarted⟩ := h.starter_of_begun hget hbegun
  obtain ⟨e, workerId, hkind, hrun, _, -, -, hfences⟩ := h.keeps hq hstarted
  refine ⟨pid, q, e, workerId, hq, hkind, hrun, hfences _ (mem_active_of_row ha), fun hret => ?_,
    hstarted⟩
  have hresolved := h.attending.ends.ret hq hret
  rw [hkind] at hresolved
  obtain ⟨run', hget', hfinished'⟩ := h.ended hq ((hresolved () rfl).2 a.runId hrun hstarted)
  obtain rfl := Option.some.inj (hget.symm.trans hget')
  exact hfinished hfinished'

/-- A run under a lease waits or is being worked on. -/
theorem begun_of_leased {status : RunStatus} (hleased : status.leased) (hne : status ≠ scheduling) :
    status ∈ [running, cancelling] ∧ status.begun ∧ ¬ status.finished := by
  revert hleased hne
  cases status <;> simp [RunStatus.leased, RunStatus.begun, RunStatus.finished]

/-- A run that waits under a lease has an assignment that is neither entered as
processed nor handled by a delivery that has returned; a run that is being
worked on has been started by one delivery, of a message with the token of the
lease to the worker that holds it, and this delivery has not returned. -/
theorem assignments_attended (h : Reachable rt settings templates w)
    (hids : (w.state.db.outbox.rows.map fun m => m.envelope.eventId).Nodup)
    {a : ResourceAllocation} (ha : a ∈ w.state.db.activeAllocations) :
    ∃ run, w.state.db.runs.get? a.runId = some run ∧
      ((run.status = scheduling ∧ ∃ m ∈ w.state.db.outbox.rows, Announces m.envelope a ∧
          Consumer.record a.workerId m.envelope ∉ w.state.db.processed ∧
          ∀ q ∈ w.procs, ∀ workerId, q.kind = .processEvent m.envelope workerId →
            workerId = none ∨ workerId = some a.workerId → q.prog ≠ .ret ()) ∨
        (run.status ∈ [running, cancelling] ∧ ∃ (pid : ℕ) (q : Process) (e : EventEnvelope)
          (workerId : Option Uuid), w.procs[pid]? = some q ∧ q.kind = .processEvent e workerId ∧
          e.runId = some a.runId ∧ e.fences workerId a.lease ∧ q.prog ≠ .ret () ∧
          0 < startsOf a.runId q.session.committed ∧ ∀ (j : ℕ) (q' : Process),
            w.procs[j]? = some q' → j ≠ pid → startsOf a.runId q'.session.committed = 0)) := by
  obtain ⟨run, hget, hleased, -⟩ := leased_of_active h.inv ha
  refine ⟨run, hget, ?_⟩
  by_cases hstatus : run.status = scheduling
  · refine .inl ⟨hstatus, ?_⟩
    obtain ⟨m, hm, hpromises, hunrecorded⟩ := h.awaited hids ha hget hstatus
    refine ⟨m, hm, hpromises.announces, hunrecorded,
      fun q hq workerId hkind hworker hret => hunrecorded ?_⟩
    obtain ⟨pid, hpid⟩ := List.getElem?_of_mem hq
    have hresolved := h.attending.ends.ret hpid hret
    rw [hkind] at hresolved
    exact (hresolved () rfl).1 a.workerId hpromises.addressed hworker
  · obtain ⟨hworked, hbegun, hfinished⟩ := begun_of_leased hleased hstatus
    obtain ⟨pid, q, e, workerId, hq, hkind, hrun, hfences, hret, hstarted⟩ :=
      h.worked ha hget hbegun hfinished
    exact .inr ⟨hworked, pid, q, e, workerId, hq, hkind, hrun, hfences, hret, hstarted,
      fun j q' hq' hj => h.sole hq' hq (Ne.symm hj) hstarted⟩

end Worlds

/-- The assignment is being delivered, and the run still waits. -/
theorem assignments_attended_delivered : ∃ w, Reachable Demo.runtime Demo.settings Demo.templates w ∧
    ∃ a ∈ w.state.db.activeAllocations, ∃ run, w.state.db.runs.get? a.runId = some run ∧
      run.status = scheduling ∧ ∃ m ∈ w.state.db.outbox.rows, Announces m.envelope a ∧
        Consumer.record a.workerId m.envelope ∉ w.state.db.processed := by
  have h : (Demo.exec (Demo.delivered Demo.slow 3)).any fun w =>
      (w.state.db.outbox.rows.map fun m => m.envelope.eventId).Nodup ∧
        w.state.db.activeAllocations.any fun a => (w.state.db.runs.get? a.runId).any fun run =>
          run.status = scheduling := by decide +kernel
  obtain ⟨w, hw, hlast⟩ := Demo.reachable h
  obtain ⟨hids, hlast⟩ := of_decide_eq_true hlast
  obtain ⟨a, ha, hlast⟩ := List.any_eq_true.mp hlast
  obtain ⟨run, hget, hstatus⟩ := (Option.any_eq_true _ _).mp hlast
  have hstatus := of_decide_eq_true hstatus
  obtain ⟨run', hget', hcases⟩ := assignments_attended hw hids ha
  obtain rfl := Option.some.inj (hget.symm.trans hget')
  rcases hcases with ⟨-, m, hm, hannounces, hunrecorded, -⟩ | ⟨hstarted, -⟩
  · exact ⟨w, hw, a, ha, run, hget, hstatus, m, hm, hannounces, hunrecorded⟩
  · simp [hstatus] at hstarted

end Runscope
