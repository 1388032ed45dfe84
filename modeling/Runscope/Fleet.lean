import Runscope.Assignments
import Runscope.Dispatchers
import Runscope.Streams.Offsets

/-!
The worker processes (`run_worker`), and what becomes of the leases they hold.

A process registers under its name, joins the consumer group of its worker and
handles one message after the other; it may crash at any time and be started
again under the same name. Everything else of the system goes on beside it.
-/

namespace Runscope

open Transact RunStatus Streams

/-- Where the loop over `consumer.events()` stands. A position is, for each
partition, the offset of the next message. -/
inductive WorkerLoop where
  /-- Before `await self._consumer.start()`, or about to reconnect. -/
  | connecting
  | polling (position : ℕ → ℕ)
  /-- Between `yield` and the next request; a session processes the message. -/
  | processing (position : ℕ → ℕ) (event : EventEnvelope) (pid : ℕ)
  /-- The generator is resumed after its `yield`. -/
  | resumed (position : ℕ → ℕ)

inductive WorkerProcess where
  | down
  | registering (pid : ℕ)
  | up (workerId : Uuid) (loop : WorkerLoop)

/-- All sessions, the offsets that the group of each worker has committed, the
process under each name, and the messages whose processing the workers have
logged as failed. -/
structure Fleet where
  cluster : Cluster
  committed : Uuid → ℕ → ℕ
  workers : String → WorkerProcess
  failures : List (Uuid × EventEnvelope)

/-- What happens next in the fleet. -/
inductive Deed where
  /-- A session goes on, or one that is not a worker's starts or is lost. -/
  | act (a : Action Kind Input)
  | launch (name : String) (totals : WorkerTotals)
  | registered (name : String)
  | heartbeat (name : String)
  | connect (name : String)
  | fetch (name : String) (partition : ℕ)
  /-- `process_event` has returned, or its exception is logged. -/
  | settle (name : String)
  /-- `await self._consumer.commit()` -/
  | commit (name : String)
  /-- The generator ends with an exception of the broker. -/
  | disconnect (name : String)
  | crash (name : String)

/-- The sessions that `run_worker` waits for. -/
def Kind.awaited : Kind → Bool
  | .registerWorker .. | .processEvent .. => true
  | _ => false

/-- The sessions that only a worker process starts. -/
def Kind.ofWorker : Kind → Bool
  | .heartbeat _ => true
  | κ => κ.awaited

namespace Fleet

def start (templates : Table TrainingTemplate.id) : Fleet where
  cluster := .initial (.empty templates)
  committed _ _ := 0
  workers _ := .down
  failures := []

/-- The messages of a partition; the producer's key is the run. -/
def log (partitionOf : Uuid → ℕ) (p : Platform) (k : ℕ) : List EventEnvelope :=
  p.topic.filter fun e => e.runId.map partitionOf = some k

def setWorker (f : Fleet) (name : String) (process : WorkerProcess) : Fleet :=
  { f with workers := Function.update f.workers name process }

@[simp] theorem workers_setWorker_self (f : Fleet) (name : String) (process : WorkerProcess) :
    (f.setWorker name process).workers name = process := Function.update_self ..

theorem workers_setWorker_of_ne (f : Fleet) {name other : String} (process : WorkerProcess)
    (h : other ≠ name) : (f.setWorker name process).workers other = f.workers other :=
  Function.update_of_ne h ..

/-- Whether the session may go on, start or be lost by itself. -/
def permits (f : Fleet) : Action Kind Input → Bool
  | .spawn κ => !κ.ofWorker
  | .kill pid => (f.cluster.procs[pid]?).all fun q => !q.kind.awaited
  | _ => true

/-- What is left of the process is gone. -/
def lose (sys : System Kind Platform RowKey Write Call Input Exc Point) (f : Fleet) (name : String)
    (pid : ℕ) : Option Fleet :=
  (f.cluster.step sys (.kill pid)).map fun w => { f.setWorker name .down with cluster := w }

def step (sys : System Kind Platform RowKey Write Call Input Exc Point) (partitionOf : Uuid → ℕ)
    (f : Fleet) : Deed → Option Fleet
  | .act a =>
      if f.permits a then (f.cluster.step sys a).map fun w => { f with cluster := w } else none
  | .launch name totals =>
      match f.workers name with
      | .down => (f.cluster.step sys (.spawn (.registerWorker name totals))).map fun w =>
          { f.setWorker name (.registering f.cluster.procs.length) with cluster := w }
      | _ => none
  | .registered name =>
      match f.workers name with
      | .registering pid =>
          match (f.cluster.procs[pid]?).map Proc.prog,
            f.cluster.state.db.workers.rows.find? fun x => x.name = name with
          | some (.ret _), some worker => some (f.setWorker name (.up worker.id .connecting))
          | _, _ => none
      | _ => none
  | .heartbeat name =>
      match f.workers name with
      | .up workerId _ => (f.cluster.step sys (.spawn (.heartbeat workerId))).map fun w =>
          { f with cluster := w }
      | _ => none
  | .connect name =>
      match f.workers name with
      | .up workerId .connecting =>
          some (f.setWorker name (.up workerId (.polling (f.committed workerId))))
      | _ => none
  | .fetch name k =>
      match f.workers name with
      | .up workerId (.polling position) =>
          match (log partitionOf f.cluster.state k)[position k]? with
          | some event =>
              (f.cluster.step sys (.spawn (.processEvent event (some workerId)))).map fun w =>
                { f.setWorker name (.up workerId (.processing
                    (Function.update position k (position k + 1)) event f.cluster.procs.length)) with
                  cluster := w }
          | none => none
      | _ => none
  | .settle name =>
      match f.workers name with
      | .up workerId (.processing position event pid) =>
          match (f.cluster.procs[pid]?).map Proc.prog with
          | some (.ret _) => some (f.setWorker name (.up workerId (.resumed position)))
          | some (.raise _) =>
              some { f.setWorker name (.up workerId (.resumed position)) with
                failures := f.failures ++ [(workerId, event)] }
          | _ => none
      | _ => none
  | .commit name =>
      match f.workers name with
      | .up workerId (.resumed position) =>
          some { f.setWorker name (.up workerId (.polling position)) with
            committed := Function.update f.committed workerId position }
      | _ => none
  | .disconnect name =>
      match f.workers name with
      | .up workerId (.polling _) | .up workerId (.resumed _) =>
          some (f.setWorker name (.up workerId .connecting))
      | _ => none
  | .crash name =>
      match f.workers name with
      | .down => none
      | .registering pid | .up _ (.processing _ _ pid) => f.lose sys name pid
      | .up _ _ => some (f.setWorker name .down)

def exec (sys : System Kind Platform RowKey Write Call Input Exc Point) (partitionOf : Uuid → ℕ)
    (f : Fleet) : List Deed → Option Fleet
  | [] => some f
  | d :: ds =>
    match f.step sys partitionOf d with
    | none => none
    | some f' => f'.exec sys partitionOf ds

/-- Fleets that come about from an empty database, with no process running. -/
inductive Reachable (rt : Runtime) (settings : Settings) (maxAttempts : ℕ)
    (templates : Table TrainingTemplate.id) (partitionOf : Uuid → ℕ) : Fleet → Prop where
  | start : Reachable rt settings maxAttempts templates partitionOf (.start templates)
  | step {f f' : Fleet} {d : Deed} :
      Reachable rt settings maxAttempts templates partitionOf f →
      f.step (deployed rt settings maxAttempts) partitionOf d = some f' →
      Reachable rt settings maxAttempts templates partitionOf f'

/-! ### What holds of every fleet -/

/-- The worker need not see the message again: it is none of its assignments,
or is entered as processed, or the worker has logged a failure. -/
def Dealt (f : Fleet) (k : Uuid) (e : EventEnvelope) : Prop :=
  (Consumer.Addressed k e → Consumer.record k e ∈ f.cluster.state.db.processed) ∨
    (k, e) ∈ f.failures

section Invariants

variable {rt : Runtime} {settings : Settings} {maxAttempts : ℕ}
  {templates : Table TrainingTemplate.id} {partitionOf : Uuid → ℕ} {f f' : Fleet} {k : Uuid}

/-- What lies before the position is dealt with. -/
abbrev Below (partitionOf : Uuid → ℕ) (f : Fleet) (k : Uuid) (position : ℕ → ℕ)
    (pending : Option EventEnvelope) : Prop :=
  Before (log partitionOf f.cluster.state) (f.Dealt k) position pending

/-- What holds of a process in its loop. -/
def Stands (partitionOf : Uuid → ℕ) (f : Fleet) (k : Uuid) : WorkerLoop → Prop
  | .connecting => True
  | .polling position => f.Below partitionOf k position none
  | .processing position event pid => f.Below partitionOf k position (some event) ∧
      ∃ q, f.cluster.procs[pid]? = some q ∧ q.kind = .processEvent event (some k)
  | .resumed position => f.Below partitionOf k position none

/-- Nothing that was sent, entered, logged or started is lost. -/
structure Grows (f f' : Fleet) : Prop where
  topic : f.cluster.state.topic <+: f'.cluster.state.topic
  processed : f.cluster.state.db.processed ⊆ f'.cluster.state.db.processed
  failures : f.failures ⊆ f'.failures
  kinds : ∀ (pid : ℕ) (q : Process), f.cluster.procs[pid]? = some q →
    ∃ q', f'.cluster.procs[pid]? = some q' ∧ q'.kind = q.kind

theorem Grows.dealt (h : f.Grows f') {e : EventEnvelope} (he : f.Dealt k e) : f'.Dealt k e :=
  he.imp (fun hrecorded haddressed => h.processed (hrecorded haddressed)) fun hfailed =>
    h.failures hfailed

theorem Grows.below (h : f.Grows f') {position : ℕ → ℕ} {pending : Option EventEnvelope}
    (hbelow : f.Below partitionOf k position pending) :
    f'.Below partitionOf k position pending :=
  hbelow.grow (fun _ => h.topic.filter _) fun _ => h.dealt

theorem Grows.stands (h : f.Grows f') {loop : WorkerLoop} (hloop : f.Stands partitionOf k loop) :
    f'.Stands partitionOf k loop := by
  cases loop with
  | connecting => exact trivial
  | polling position | resumed position => exact h.below hloop
  | processing position event pid =>
      obtain ⟨hbelow, q, hq, hkind⟩ := hloop
      obtain ⟨q', hq', hkind'⟩ := h.kinds pid q hq
      exact ⟨h.below hbelow, q', hq', hkind'.trans hkind⟩

/-- The cluster goes on beside the processes. -/
theorem Grows.of_step (h : Deployed rt settings maxAttempts templates f.cluster) {w : Cluster}
    {a : Action Kind Input}
    (hstep : f.cluster.step (deployed rt settings maxAttempts) a = some w) (hcluster : f'.cluster = w)
    (hfailures : f.failures ⊆ f'.failures) : f.Grows f' where
  topic := hcluster ▸ (h.evolves (.step .refl hstep trivial)).topic
  processed := hcluster ▸ World.processed_step (World.step_restrict hstep)
  failures := hfailures
  kinds _ _ hq := hcluster ▸ World.kind_step hstep hq

theorem Grows.of_same (hcluster : f'.cluster = f.cluster) (hfailures : f.failures ⊆ f'.failures) :
    f.Grows f' where
  topic := hcluster ▸ List.prefix_rfl
  processed := hcluster ▸ List.Subset.refl _
  failures := hfailures
  kinds _ q hq := ⟨q, hcluster ▸ hq, rfl⟩

/-- What every reachable fleet satisfies. -/
structure Kept (rt : Runtime) (settings : Settings) (maxAttempts : ℕ)
    (templates : Table TrainingTemplate.id) (partitionOf : Uuid → ℕ) (f : Fleet) : Prop where
  reached : Deployed rt settings maxAttempts templates f.cluster
  committed : ∀ k, f.Below partitionOf k (f.committed k) none
  loops : ∀ name k loop, f.workers name = .up k loop → f.Stands partitionOf k loop
  /-- A message is being processed only by the process that has fetched it. -/
  delivering : ∀ (pid : ℕ) (q : Process) (e : EventEnvelope) (workerId : Option Uuid),
    f.cluster.procs[pid]? = some q → q.kind = .processEvent e workerId → q.prog.point?.isSome →
    ∃ name k position, workerId = some k ∧ f.workers name = .up k (.processing position e pid)

/-- The process under one name moves on. -/
theorem Kept.next (h : Kept rt settings maxAttempts templates partitionOf f)
    (hreached : Deployed rt settings maxAttempts templates f'.cluster) (hgrows : f.Grows f')
    (name : String) (hothers : ∀ other, other ≠ name → f'.workers other = f.workers other)
    (hcommitted : ∀ k, f'.committed k = f.committed k ∨
      f'.Below partitionOf k (f'.committed k) none)
    (hname : ∀ k loop, f'.workers name = .up k loop →
      f.workers name = .up k loop ∨ f'.Stands partitionOf k loop)
    (hdelivering : ∀ (pid : ℕ) (q : Process) (e : EventEnvelope) (workerId : Option Uuid),
      f'.cluster.procs[pid]? = some q → q.kind = .processEvent e workerId →
      q.prog.point?.isSome →
      (∃ q₀, f.cluster.procs[pid]? = some q₀ ∧ q₀.kind = .processEvent e workerId ∧
        q₀.prog.point?.isSome ∧ ∀ k position, f.workers name = .up k (.processing position e pid) →
          f'.workers name = f.workers name) ∨
      ∃ k position, workerId = some k ∧ f'.workers name = .up k (.processing position e pid)) :
    Kept rt settings maxAttempts templates partitionOf f' where
  reached := hreached
  committed k := by
    rcases hcommitted k with hsame | hbelow
    · exact hsame ▸ hgrows.below (h.committed k)
    · exact hbelow
  loops other k loop hloop := by
    by_cases hother : other = name
    · subst hother
      rcases hname k loop hloop with hsame | hstands
      · exact hgrows.stands (h.loops _ k loop hsame)
      · exact hstands
    · exact hgrows.stands (h.loops other k loop (hothers other hother ▸ hloop))
  delivering pid q e workerId hq hkind hrunning := by
    rcases hdelivering pid q e workerId hq hkind hrunning with
      ⟨q₀, hq₀, hkind₀, hrunning₀, hsame⟩ | ⟨k, position, hk, hloop⟩
    · obtain ⟨other, k, position, hk, hloop⟩ := h.delivering pid q₀ e workerId hq₀ hkind₀ hrunning₀
      refine ⟨other, k, position, hk, ?_⟩
      by_cases hother : other = name
      · subst hother
        exact (hsame k position hloop).trans hloop
      · exact (hothers other hother).trans hloop
    · exact ⟨name, k, position, hk, hloop⟩

/-- Only the process under one name moves, and is not busy with a message. -/
theorem Kept.of_same (h : Kept rt settings maxAttempts templates partitionOf f) (name : String)
    (hcluster : f'.cluster = f.cluster) (hfailures : f.failures ⊆ f'.failures)
    (hothers : ∀ other, other ≠ name → f'.workers other = f.workers other)
    (hcommitted : ∀ k, f'.committed k = f.committed k ∨
      f'.Below partitionOf k (f'.committed k) none)
    (hname : ∀ k loop, f'.workers name = .up k loop → f'.Stands partitionOf k loop)
    (hidle : ∀ (k : Uuid) (position : ℕ → ℕ) (e : EventEnvelope) (pid : ℕ) (q : Process),
      f.workers name = .up k (.processing position e pid) → f.cluster.procs[pid]? = some q →
      ¬ q.prog.point?.isSome) :
    Kept rt settings maxAttempts templates partitionOf f' := by
  refine h.next (hcluster ▸ h.reached) (.of_same hcluster hfailures) name hothers hcommitted
    (fun k loop hloop => .inr (hname k loop hloop)) fun pid q e workerId hq hkind hrunning => ?_
  rw [hcluster] at hq
  exact .inl ⟨q, hq, hkind, hrunning, fun k position hloop =>
    absurd hrunning (hidle k position e pid q hloop hq)⟩

/-- A session takes a step, or is started or lost with the process under one
name. -/
theorem Kept.of_step (h : Kept rt settings maxAttempts templates partitionOf f) (name : String)
    {a : Action Kind Input} {w : Cluster}
    (hstep : f.cluster.step (deployed rt settings maxAttempts) a = some w) (hcluster : f'.cluster = w)
    (hfailures : f'.failures = f.failures) (hcommitted : f'.committed = f.committed)
    (hothers : ∀ other, other ≠ name → f'.workers other = f.workers other)
    (hname : ∀ k loop, f'.workers name = .up k loop →
      f.workers name = .up k loop ∨ f'.Stands partitionOf k loop)
    (hspawned : ∀ e workerId, a = .spawn (.processEvent e workerId) → ∃ k position,
      workerId = some k ∧ f'.workers name = .up k (.processing position e f.cluster.procs.length))
    (hlost : ∀ k position e pid, f.workers name = .up k (.processing position e pid) →
      f'.workers name = f.workers name ∨ a = .kill pid) :
    Kept rt settings maxAttempts templates partitionOf f' := by
  refine h.next (hcluster ▸ .step h.reached hstep trivial)
    (.of_step h.reached hstep hcluster (hfailures ▸ List.Subset.refl _)) name hothers
    (fun k => .inl (by rw [hcommitted])) hname fun pid q e workerId hq hkind hrunning => ?_
  rw [hcluster] at hq
  rcases World.running_step hstep hq hrunning with
    ⟨hkill, q₀, hq₀, hkind₀, hrunning₀⟩ | ⟨κ, rfl, hκ, rfl⟩
  · refine .inl ⟨q₀, hq₀, hkind₀.trans hkind, hrunning₀, fun k position hloop => ?_⟩
    exact (hlost k position e pid hloop).resolve_right hkill
  · exact .inr (hspawned e workerId (by rw [← hκ, hkind]))

/-! #### One step -/

theorem Kept.start : Kept rt settings maxAttempts templates partitionOf (Fleet.start templates) where
  reached := .refl
  committed k := .start ..
  loops _ _ _ h := by cases h
  delivering _ _ _ _ h := by simp [Fleet.start, World.initial] at h

/-- Beside the processes, only deliveries do not start by themselves. -/
theorem Kept.act (h : Kept rt settings maxAttempts templates partitionOf f)
    {a : Action Kind Input} (hpermits : f.permits a) {w : Cluster}
    (hstep : f.cluster.step (Runscope.deployed rt settings maxAttempts) a = some w) :
    Kept rt settings maxAttempts templates partitionOf { f with cluster := w } := by
  refine h.of_step "" hstep rfl rfl rfl (fun _ _ => rfl) (fun _ _ => .inl) ?_ fun _ _ _ _ _ => .inl rfl
  rintro e workerId rfl
  cases hpermits

/-- A process comes up, and its session that registers starts. -/
theorem Kept.launch (h : Kept rt settings maxAttempts templates partitionOf f) {name : String}
    {totals : WorkerTotals} (hdown : f.workers name = .down) {w : Cluster}
    (hstep : f.cluster.step (Runscope.deployed rt settings maxAttempts)
      (.spawn (.registerWorker name totals)) = some w) (pid : ℕ) :
    Kept rt settings maxAttempts templates partitionOf
      { f.setWorker name (.registering pid) with cluster := w } := by
  refine h.of_step name hstep rfl rfl rfl (fun _ => f.workers_setWorker_of_ne _) ?_ ?_ ?_
  · intro k loop hloop
    rw [show _ = WorkerProcess.registering pid from f.workers_setWorker_self ..] at hloop
    cases hloop
  · rintro e workerId ⟨⟩
  · intro k position e pid' hloop
    rw [hdown] at hloop
    cases hloop

theorem Kept.heartbeat (h : Kept rt settings maxAttempts templates partitionOf f) {k : Uuid}
    {w : Cluster} (hstep : f.cluster.step (Runscope.deployed rt settings maxAttempts)
      (.spawn (.heartbeat k)) = some w) :
    Kept rt settings maxAttempts templates partitionOf { f with cluster := w } :=
  h.of_step "" hstep rfl rfl rfl (fun _ _ => rfl) (fun _ _ => .inl) (by rintro e workerId ⟨⟩)
    fun _ _ _ _ _ => .inl rfl

/-- The process takes the next message of a partition. -/
theorem Kept.fetch (h : Kept rt settings maxAttempts templates partitionOf f) {name : String}
    {k : Uuid} {position : ℕ → ℕ} (hup : f.workers name = .up k (.polling position)) {j : ℕ}
    {event : EventEnvelope} (hget : (log partitionOf f.cluster.state j)[position j]? = some event)
    {w : Cluster} (hstep : f.cluster.step (Runscope.deployed rt settings maxAttempts)
      (.spawn (.processEvent event (some k))) = some w) :
    Kept rt settings maxAttempts templates partitionOf
      { f.setWorker name (.up k (.processing (Function.update position j (position j + 1)) event
          f.cluster.procs.length)) with cluster := w } := by
  set f' : Fleet := { f.setWorker name (.up k (.processing
    (Function.update position j (position j + 1)) event f.cluster.procs.length)) with cluster := w }
  have hname : f'.workers name = .up k (.processing (Function.update position j (position j + 1))
      event f.cluster.procs.length) := f.workers_setWorker_self ..
  have hgrows : f.Grows f' := .of_step h.reached hstep rfl (List.Subset.refl _)
  refine h.of_step name hstep rfl rfl rfl (fun _ => f.workers_setWorker_of_ne _) ?_ ?_ ?_
  · intro k' loop hloop
    rw [hname] at hloop
    cases hloop
    refine .inr ⟨hgrows.below ((h.loops name k _ hup).take hget), ?_⟩
    exact ⟨_, World.getElem?_spawn hstep, rfl⟩
  · rintro e workerId ⟨⟩
    exact ⟨k, _, rfl, hname⟩
  · intro k' position' e pid hloop
    rw [hup] at hloop
    cases hloop

/-- The process is lost, and with it the session it waits for. -/
theorem Kept.lose (h : Kept rt settings maxAttempts templates partitionOf f) {name : String}
    {pid : ℕ} (hpid : ∀ k position e pid', f.workers name = .up k (.processing position e pid') →
      pid' = pid)
    (hlose : f.lose (Runscope.deployed rt settings maxAttempts) name pid = some f') :
    Kept rt settings maxAttempts templates partitionOf f' := by
  obtain ⟨w, hw, rfl⟩ := Option.map_eq_some_iff.mp hlose
  refine h.of_step name hw rfl rfl rfl (fun _ => f.workers_setWorker_of_ne _) ?_ ?_ ?_
  · intro k loop hloop
    rw [show _ = WorkerProcess.down from f.workers_setWorker_self ..] at hloop
    cases hloop
  · rintro e workerId ⟨⟩
  · intro k position e pid' hloop
    exact .inr (by rw [hpid k position e pid' hloop])

/-- A process that is busy with no message moves on by itself. -/
theorem Kept.idle (h : Kept rt settings maxAttempts templates partitionOf f) {name : String}
    {process : WorkerProcess}
    (hidle : ∀ k position e pid, f.workers name ≠ .up k (.processing position e pid))
    (hprocess : ∀ k loop, process = .up k loop → f.Stands partitionOf k loop) :
    Kept rt settings maxAttempts templates partitionOf (f.setWorker name process) := by
  refine h.of_same name rfl (List.Subset.refl _) (fun _ => f.workers_setWorker_of_ne _)
    (fun _ => .inl rfl) (fun k loop hloop => ?_) fun k position e pid q hup => ?_
  · rw [workers_setWorker_self] at hloop
    have hstands := hprocess k loop hloop
    exact (Grows.of_same rfl (List.Subset.refl _) : f.Grows (f.setWorker name process)).stands hstands
  · exact absurd hup (hidle k position e pid)

/-- A delivery that has returned has dealt with its message. -/
theorem Kept.dealt_of_ret (h : Kept rt settings maxAttempts templates partitionOf f) {pid : ℕ}
    {q : Process} {e : EventEnvelope} {k : Uuid} (hq : f.cluster.procs[pid]? = some q)
    (hkind : q.kind = .processEvent e (some k)) (hret : q.prog = .ret ()) : f.Dealt k e := by
  have hresolved := h.reached.reachable.attending.ends.ret hq hret
  rw [hkind] at hresolved
  exact .inl fun haddressed => (hresolved () rfl).1 k haddressed (.inr rfl)

/-- The message is dealt with, or its failure is logged. -/
theorem Kept.settle (h : Kept rt settings maxAttempts templates partitionOf f) {name : String}
    {k : Uuid} {position : ℕ → ℕ} {e : EventEnvelope} {pid : ℕ} {q : Process}
    (hup : f.workers name = .up k (.processing position e pid))
    (hq : f.cluster.procs[pid]? = some q) (hended : ¬ q.prog.point?.isSome)
    {failures : List (Uuid × EventEnvelope)} (hfailures : f.failures ⊆ failures)
    (hdealt : q.kind = .processEvent e (some k) → f.Dealt k e ∨ (k, e) ∈ failures) :
    Kept rt settings maxAttempts templates partitionOf
      { f.setWorker name (.up k (.resumed position)) with failures } := by
  refine h.of_same name rfl hfailures (fun _ => f.workers_setWorker_of_ne _) (fun _ => .inl rfl)
    (fun k' loop hloop => ?_) fun k' position' e' pid' q' hup' hq' => ?_
  · rw [show _ = WorkerProcess.up k (.resumed position) from f.workers_setWorker_self ..] at hloop
    cases hloop
    obtain ⟨hbelow, q', hq', hkind⟩ := h.loops name k _ hup
    obtain rfl := Option.some.inj (hq.symm.trans hq')
    have hgrows : f.Grows { f.setWorker name (.up k (.resumed position)) with failures } :=
      .of_same rfl hfailures
    refine (hgrows.below hbelow).settle ?_
    rcases hdealt hkind with hdealt | hfailed
    · exact hgrows.dealt hdealt
    · exact .inr hfailed
  · rw [hup] at hup'
    cases hup'
    obtain rfl := Option.some.inj (hq.symm.trans hq')
    exact hended

/-- What lies before the offset that is committed is dealt with. -/
theorem Kept.commit (h : Kept rt settings maxAttempts templates partitionOf f) {name : String}
    {k : Uuid} {position : ℕ → ℕ} (hup : f.workers name = .up k (.resumed position)) :
    Kept rt settings maxAttempts templates partitionOf
      { f.setWorker name (.up k (.polling position)) with
        committed := Function.update f.committed k position } := by
  have hbelow : f.Below partitionOf k position none := h.loops name k _ hup
  refine h.of_same name rfl (List.Subset.refl _) (fun _ => f.workers_setWorker_of_ne _)
    (fun k' => ?_) (fun k' loop hloop => ?_) fun k' position' e pid q hup' => ?_
  · by_cases hk : k' = k
    · subst hk
      refine .inr ?_
      change f.Below partitionOf k' (Function.update f.committed k' position k') none
      rwa [Function.update_self]
    · exact .inl (Function.update_of_ne hk ..)
  · rw [show _ = WorkerProcess.up k (.polling position) from f.workers_setWorker_self ..] at hloop
    cases hloop
    exact hbelow
  · rw [hup] at hup'
    cases hup'

theorem Kept.step (h : Kept rt settings maxAttempts templates partitionOf f) {d : Deed}
    (hstep : f.step (Runscope.deployed rt settings maxAttempts) partitionOf d = some f') :
    Kept rt settings maxAttempts templates partitionOf f' := by
  cases d with
  | act a =>
      simp only [Fleet.step, Option.ite_none_right_eq_some, Option.map_eq_some_iff] at hstep
      obtain ⟨hpermits, w, hw, rfl⟩ := hstep
      exact h.act hpermits hw
  | launch name totals =>
      simp only [Fleet.step] at hstep
      split at hstep
      case h_1 hdown =>
        obtain ⟨w, hw, rfl⟩ := Option.map_eq_some_iff.mp hstep
        exact h.launch hdown hw _
      case h_2 => cases hstep
  | registered name =>
      simp only [Fleet.step] at hstep
      split at hstep
      case h_1 pid hup =>
        split at hstep
        case h_1 =>
          cases hstep
          refine h.idle (by simp [hup]) fun k loop hloop => ?_
          cases hloop
          exact trivial
        case h_2 => cases hstep
      case h_2 => cases hstep
  | heartbeat name =>
      simp only [Fleet.step] at hstep
      split at hstep
      case h_1 =>
        obtain ⟨w, hw, rfl⟩ := Option.map_eq_some_iff.mp hstep
        exact h.heartbeat hw
      case h_2 => cases hstep
  | connect name =>
      simp only [Fleet.step] at hstep
      split at hstep
      case h_1 k hup =>
        cases hstep
        refine h.idle (by simp [hup]) fun k' loop hloop => ?_
        cases hloop
        exact h.committed k
      case h_2 => cases hstep
  | fetch name j =>
      simp only [Fleet.step] at hstep
      split at hstep
      case h_1 k position hup =>
        split at hstep
        case h_1 event hget =>
          obtain ⟨w, hw, rfl⟩ := Option.map_eq_some_iff.mp hstep
          exact h.fetch hup hget hw
        case h_2 => cases hstep
      case h_2 => cases hstep
  | settle name =>
      simp only [Fleet.step] at hstep
      split at hstep
      case h_1 k position event pid hup =>
        split at hstep
        case h_1 hprog =>
          cases hstep
          obtain ⟨q, hq, hret⟩ := Option.map_eq_some_iff.mp hprog
          exact h.settle hup hq (by simp [hret, Prog.point?]) (List.Subset.refl _) fun hkind =>
            .inl (h.dealt_of_ret hq hkind hret)
        case h_2 hprog =>
          cases hstep
          obtain ⟨q, hq, hraise⟩ := Option.map_eq_some_iff.mp hprog
          exact h.settle hup hq (by simp [hraise, Prog.point?]) (List.subset_append_left ..) fun _ =>
            .inr (by simp)
        case h_3 => cases hstep
      case h_2 => cases hstep
  | commit name =>
      simp only [Fleet.step] at hstep
      split at hstep
      case h_1 k position hup =>
        cases hstep
        exact h.commit hup
      case h_2 => cases hstep
  | disconnect name =>
      simp only [Fleet.step] at hstep
      split at hstep
      case h_1 k position hup | h_2 k position hup =>
        cases hstep
        refine h.idle (by simp [hup]) fun k' loop hloop => ?_
        cases hloop
        exact trivial
      case h_3 => cases hstep
  | crash name =>
      simp only [Fleet.step] at hstep
      split at hstep
      case h_1 => cases hstep
      case h_2 pid hup => exact h.lose (by simp [hup]) hstep
      case h_3 k position e pid hup =>
        refine h.lose (fun k' position' e' pid' hup' => ?_) hstep
        rw [hup] at hup'
        cases hup'
        rfl
      case h_4 k loop hbusy hup =>
        cases hstep
        refine h.idle (fun k' position e pid hup' => ?_) (by rintro k loop ⟨⟩)
        rw [hup] at hup'
        cases hup'
        exact hbusy _ _ _ rfl

theorem Reachable.kept (h : Reachable rt settings maxAttempts templates partitionOf f) :
    Kept rt settings maxAttempts templates partitionOf f := by
  induction h with
  | start => exact .start
  | step _ hstep ih => exact ih.step hstep

end Invariants

end Fleet

/-- The loop has not got past this message of the partition. -/
def WorkerLoop.Faces (k n : ℕ) (e : EventEnvelope) : WorkerLoop → Prop
  | .connecting => True
  | .polling position | .resumed position => position k ≤ n
  | .processing position event _ => position k ≤ n ∨ event = e

/-- Neither the offset that the group of the worker has committed nor a process
of the worker is past this message of the partition. -/
structure Fleet.Ahead (f : Fleet) (workerId : Uuid) (k n : ℕ) (e : EventEnvelope) : Prop where
  committed : f.committed workerId k ≤ n
  loops : ∀ name loop, f.workers name = .up workerId loop → loop.Faces k n e

section Leases

variable {rt : Runtime} {settings : Settings} {maxAttempts : ℕ}
  {templates : Table TrainingTemplate.id} {partitionOf : Uuid → ℕ} {f : Fleet}

/-- A message that is not dealt with is still ahead. -/
theorem Fleet.Kept.ahead (h : Fleet.Kept rt settings maxAttempts templates partitionOf f)
    {workerId : Uuid} {k n : ℕ} {e : EventEnvelope}
    (hget : (Fleet.log partitionOf f.cluster.state k)[n]? = some e) (hdealt : ¬ f.Dealt workerId e) :
    f.Ahead workerId k n e where
  committed := (h.committed workerId).ahead hget hdealt
  loops name loop hup := by
    have hstands := h.loops name workerId loop hup
    cases loop with
    | connecting => exact trivial
    | polling position | resumed position => exact Streams.Before.ahead hstands hget hdealt
    | processing position event pid =>
        obtain ⟨hbelow, -⟩ := hstands
        by_contra hpast
        obtain ⟨hlt, hother⟩ := not_or.mp hpast
        rcases hbelow.settled k n e (not_le.mp hlt) hget with hdone | hpending
        · exact hdealt hdone
        · exact hother (Option.some.inj hpending)

/-- However processes crash, restart, lose the broker and take messages again,
every lease is accounted for. While its run waits, its assignment is not
published yet, or lies ahead of the worker, or the worker has logged a failure
to process it. While its run is worked on, the delivery that has started it is
what a process of the worker is busy with, or was lost or has failed. -/
theorem leases_accounted
    (h : Fleet.Reachable rt settings maxAttempts templates partitionOf f)
    (hids : (f.cluster.state.db.outbox.rows.map fun m => m.envelope.eventId).Nodup)
    {a : ResourceAllocation} (ha : a ∈ f.cluster.state.db.activeAllocations) :
    ∃ run, f.cluster.state.db.runs.get? a.runId = some run ∧
      ((run.status = scheduling ∧ ∃ m ∈ f.cluster.state.db.outbox.rows, Announces m.envelope a ∧
          (m.publishedAt = none ∨ (a.workerId, m.envelope) ∈ f.failures ∨ ∃ n,
            (Fleet.log partitionOf f.cluster.state (partitionOf a.runId))[n]? = some m.envelope ∧
              f.Ahead a.workerId (partitionOf a.runId) n m.envelope)) ∨
        (run.status ∈ [running, cancelling] ∧ ∃ (pid : ℕ) (q : Process) (e : EventEnvelope)
          (workerId : Option Uuid), f.cluster.procs[pid]? = some q ∧
          q.kind = .processEvent e workerId ∧ e.runId = some a.runId ∧
          e.fences workerId a.lease ∧ 0 < startsOf a.runId q.session.committed ∧
          ((∃ name position, f.workers name = .up a.workerId (.processing position e pid)) ∨
            ∃ exc, q.prog = .raise exc))) := by
  have hkept := h.kept
  have hreach := hkept.reached.reachable
  obtain ⟨run, hget, hleased, -⟩ := leased_of_active hreach.inv ha
  refine ⟨run, hget, ?_⟩
  by_cases hstatus : run.status = scheduling
  · refine .inl ⟨hstatus, ?_⟩
    obtain ⟨m, hm, hpromises, hunrecorded⟩ := hreach.awaited hids ha hget hstatus
    refine ⟨m, hm, hpromises.announces, ?_⟩
    by_cases hfailed : (a.workerId, m.envelope) ∈ f.failures
    · exact .inr (.inl hfailed)
    cases hpublished : m.publishedAt with
    | none => exact .inl rfl
    | some instant =>
        have htopic : m.envelope ∈ f.cluster.state.topic :=
          (hkept.reached.okDispatching.inv m hm).2 (by simp [hpublished])
        have hlog : m.envelope ∈ Fleet.log partitionOf f.cluster.state (partitionOf a.runId) :=
          List.mem_filter.mpr ⟨htopic, by simp [hpromises.runId]⟩
        obtain ⟨n, hn⟩ := List.getElem?_of_mem hlog
        refine .inr (.inr ⟨n, hn, hkept.ahead hn ?_⟩)
        rintro (hrecorded | hlogged)
        · exact hunrecorded (hrecorded hpromises.addressed)
        · exact hfailed hlogged
  · obtain ⟨hworked, hbegun, hfinished⟩ := begun_of_leased hleased hstatus
    obtain ⟨pid, q, e, workerId, hq, hkind, hrun, hfences, hret, hstarted⟩ :=
      hreach.worked ha hget hbegun hfinished
    refine .inr ⟨hworked, pid, q, e, workerId, hq, hkind, hrun, hfences, hstarted, ?_⟩
    cases hprog : q.prog with
    | ret result => exact absurd hprog hret
    | raise exc => exact .inr ⟨exc, rfl⟩
    | step pt st next =>
        obtain ⟨name, k, position, rfl, hup⟩ :=
          hkept.delivering pid q e workerId hq hkind (by rw [hprog]; rfl)
        obtain ⟨-, w, -, hworker⟩ := hfences
        obtain rfl : a.workerId = k := hworker
        exact .inl ⟨name, position, hup⟩

end Leases

theorem Fleet.Reachable.of_exec {rt : Runtime} {settings : Settings} {maxAttempts : ℕ}
    {templates : Table TrainingTemplate.id} {partitionOf : Uuid → ℕ} {f f' : Fleet}
    {ds : List Deed} (h : Fleet.Reachable rt settings maxAttempts templates partitionOf f)
    (hexec : f.exec (deployed rt settings maxAttempts) partitionOf ds = some f') :
    Fleet.Reachable rt settings maxAttempts templates partitionOf f' := by
  induction ds generalizing f with
  | nil => exact Option.some.inj hexec ▸ h
  | cons d ds ih =>
      simp only [Fleet.exec] at hexec
      split at hexec
      case h_1 => cases hexec
      case h_2 f₁ hstep => exact ih (.step h hstep) hexec

namespace Demo

def acts (as : List (Action Kind Input)) : List Deed := as.map .act

/-- The worker has begun to work on a run when its process crashes. The process
that is started after it gets the assignment again, finds the run running and
commits the offset. -/
def restarted : List Deed :=
  .launch "worker" totals :: acts (steps 0 100 7) ++ [.registered "worker", .connect "worker"] ++
    acts (.spawn (.createRun slow 5 requestId) :: steps 1 200 10 ++
      .spawn .schedule :: steps 2 300 19 ++ .spawn (.dispatchBatch 10 5) :: steps 3 400 7) ++
    [.fetch "worker" 0, .settle "worker", .commit "worker"] ++
    .fetch "worker" 0 :: acts (steps 5 500 12) ++
    .crash "worker" :: .launch "worker" totals :: acts (steps 6 600 7) ++
    [.registered "worker", .connect "worker"] ++
    .fetch "worker" 0 :: acts (steps 7 700 4) ++ [.settle "worker", .commit "worker"]

end Demo

/-- The offset is past the assignment, and the run is left to the scheduler. -/
theorem leases_accounted_restarted : ∃ f : Fleet,
    Fleet.Reachable Demo.runtime Demo.settings 5 Demo.templates (fun _ => 0) f ∧
    f.committed 102 0 = 2 ∧ ∃ a ∈ f.cluster.state.db.activeAllocations, ∃ run,
      f.cluster.state.db.runs.get? a.runId = some run ∧ run.status = running ∧
      ∃ (pid : ℕ) (q : Process) (e : EventEnvelope), f.cluster.procs[pid]? = some q ∧
        0 < startsOf a.runId q.session.committed ∧
        ((∃ name position, f.workers name = .up a.workerId (.processing position e pid)) ∨
          ∃ exc, q.prog = .raise exc) := by
  have h : ((Fleet.start Demo.templates).exec (deployed Demo.runtime Demo.settings 5) (fun _ => 0)
      Demo.restarted).any fun f =>
        (f.cluster.state.db.outbox.rows.map fun m => m.envelope.eventId).Nodup ∧
          f.committed 102 0 = 2 ∧ f.cluster.state.db.activeAllocations.any fun a =>
            (f.cluster.state.db.runs.get? a.runId).any fun run => run.status = running := by
    decide +kernel
  obtain ⟨f, hexec, hlast⟩ := (Option.any_eq_true _ _).mp h
  obtain ⟨hids, hcommitted, hlast⟩ := of_decide_eq_true hlast
  obtain ⟨a, ha, hlast⟩ := List.any_eq_true.mp hlast
  obtain ⟨run, hget, hstatus⟩ := (Option.any_eq_true _ _).mp hlast
  have hstatus := of_decide_eq_true hstatus
  have hreach := Fleet.Reachable.start.of_exec hexec
  obtain ⟨run', hget', hcases⟩ := leases_accounted hreach hids ha
  obtain rfl := Option.some.inj (hget.symm.trans hget')
  rcases hcases with ⟨hwaits, -⟩ | ⟨-, pid, q, e, -, hq, -, -, -, hstarted, hends⟩
  · simp [hstatus] at hwaits
  · exact ⟨f, hreach, hcommitted, a, ha, run, hget, hstatus, pid, q, e, hq, hstarted, hends⟩

end Runscope
