import Mathlib.Data.List.Pairwise
import Runscope.Abandonment
import Runscope.Transact.Opening

/-!
How a lease ends.

It is ended by the session that has started its run, or by a pass of the
scheduler. A pass reads the clock first and locks the leases it finds expired
at that time, after it has locked the workers it finds stale; so both are still
so when it commits, whatever heartbeats the others have sent meanwhile.
-/

namespace Runscope

open Transact RunStatus

/-- At this time the scheduler may take the lease away: it has expired, or its
worker is ONLINE and has been silent for too long. -/
def Db.Forfeits (db : Db) (settings : Settings) (now : Time) (a : ResourceAllocation) : Prop :=
  a.leaseExpiresAt < now ∨ ∃ w, db.workers.get? a.workerId = some w ∧ w.status = .online ∧
    w.lastHeartbeatAt < now - seconds settings.workerStaleSeconds

/-- The write releases a lease of one of these runs, if it releases any. -/
def Write.Frees (runIds : List Uuid) (x : Write) : Prop :=
  ∀ a time, x = .releaseAllocation a time → a.runId ∈ runIds

/-- A commit that releases the lease of a run finds the run's lease forfeit. -/
def Overseen (settings : Settings) (now : Time) (st : Stmt Platform RowKey Write Call) (t : Session)
    (p : Platform) : Prop :=
  st = .commit → ∀ a time, .releaseAllocation a time ∈ t.writes →
    ∃ b ∈ p.db.activeAllocations, b.runId = a.runId ∧ p.db.Forfeits settings now b

section Passes

variable {settings : Settings} {runIds : List Uuid} {pt : Point} {α β : Type}

/-- A part of a pass that releases leases of these runs only. -/
abbrev Releases (runIds : List Uuid) (Q : α → Prop) (c : Program α) : Prop :=
  Prog.Part (Write.Frees runIds) Q c

theorem frees_stamp (i : Input) (x : Write) (h : x.Frees runIds) :
    (storage.stamp i x).Frees runIds := by
  intro a time heq
  cases x <;> cases heq
  exact h a time rfl

theorem frees_workerUpdate (loaded changed : Worker) :
    ∀ x ∈ workerUpdate loaded changed, x.Frees runIds := by
  intro x hx
  unfold workerUpdate at hx
  split at hx
  · cases hx
  · obtain rfl := List.mem_singleton.mp hx
    simp [Write.Frees]

theorem releases_select {query : Db → α} :
    Releases runIds (fun _ => True) (session.select pt query) :=
  .stmt (by simp) (by simp) (by simp) fun _ => trivial

theorem releases_selectForUpdate {skip : Bool} {key : α → RowKey}
    {query : Db → (α → Bool) → List α} :
    Releases runIds (fun _ => True) (session.selectForUpdate pt skip key query) :=
  .stmt (by simp) (by simp) (by simp) fun _ => trivial

theorem releases_datetimeNow : Releases runIds (fun _ => True) (datetimeNow pt) :=
  .stmt (by simp) (by simp) (by simp) fun _ => trivial

theorem releases_uuid4 : Releases runIds (fun _ => True) (uuid4 pt) :=
  .stmt (by simp) (by simp) (by simp) fun _ => trivial

theorem releases_flush {ws : List Write} (h : ∀ x ∈ ws, x.Frees runIds) :
    Releases runIds (fun _ => True) (session.flush pt ws) := .flush h fun _ => trivial

theorem releases_transitionRun {run : Run} {target : RunStatus} {eventType : String}
    {metadata : Record} :
    Releases runIds (fun _ => True) (transitionRun pt run target eventType metadata) :=
  .bind (.ofExcept (Q := fun _ => True) fun _ _ => trivial) fun _ _ =>
    releases_datetimeNow.bind fun _ _ => .ret trivial

theorem releases_refreshWorkerCapacity {worker : Worker} :
    Releases runIds (fun _ => True) (refreshWorkerCapacity pt worker) := by
  unfold refreshWorkerCapacity
  exact releases_select.bind fun _ _ => .ret trivial

theorem releases_recoverRun {allocation : ResourceAllocation} {run : Run} :
    Releases runIds (fun pending => ∀ x ∈ pending, x.Frees runIds) (recoverRun allocation run) := by
  have htransition {run : Run} {target : RunStatus} {eventType : String} {metadata : Record}
      (change : Run → Run) : Releases runIds (fun pending => ∀ x ∈ pending, x.Frees runIds)
        (transitionRun {} run target eventType metadata >>= fun x =>
          Prog.ret [Write.updateRun (change x.1), .insertEvent x.2]) :=
    releases_transitionRun.bind fun _ _ => .ret (by simp [Write.Frees])
  unfold recoverRun
  split
  · exact htransition fun run => { run with assignedWorkerId := none }
  · exact htransition id
  · exact htransition id
  · exact .ret (by simp)

theorem releases_releaseAllocation {runId : Uuid} {pending : List Write} {loaded : List Worker}
    (hrun : runId ∈ runIds) (h : ∀ x ∈ pending, x.Frees runIds) :
    Releases runIds (fun x => ∀ y ∈ x.2.2, y.Frees runIds)
      (releaseAllocation runId pending loaded) := by
  refine (releases_flush h).bind fun _ _ => ?_
  refine .bind (R := fun found => ∀ a ∈ found, a.runId = runId)
    (.stmt (by simp) (by simp) (by simp) fun reply a ha => by simpa using (List.mem_filter.mp ha).2)
    fun found hfound => ?_
  cases found with
  | nil => exact .ret (by simp)
  | cons allocation rest =>
      refine releases_datetimeNow.bind fun now _ => (releases_flush ?_).bind fun _ _ => ?_
      · refine List.forall_mem_singleton.mpr fun a time heq => ?_
        cases heq
        rwa [hfound allocation (by simp)]
      lift_lets
      intro released join
      have hjoin (worker? : Option Worker) :
          Releases runIds (fun x => ∀ y ∈ x.2.2, y.Frees runIds) (join worker?) := by
        cases worker? with
        | none => exact .ret (by simp)
        | some worker =>
            exact releases_refreshWorkerCapacity.bind fun refreshed _ =>
              .ret (frees_workerUpdate worker refreshed)
      cases loaded.find? fun w => w.id = allocation.workerId with
      | some worker =>
          exact .bind (p := .ret (some worker)) (R := fun _ => True) (.ret trivial)
            fun _ _ => hjoin _
      | none => exact releases_select.bind fun _ _ => hjoin _

theorem releases_recoverAllocations {loaded : List Worker} {pending : List Write}
    {allocations : List ResourceAllocation} (hruns : ∀ a ∈ allocations, a.runId ∈ runIds)
    (h : ∀ x ∈ pending, x.Frees runIds) :
    Releases runIds (fun x => ∀ y ∈ x.2, y.Frees runIds)
      (recoverAllocations loaded pending allocations) := by
  induction allocations generalizing loaded pending with
  | nil => exact .ret h
  | cons allocation rest ih =>
      have hrest {pending : List Write} (h : ∀ x ∈ pending, x.Frees runIds) :
          Releases runIds (fun x => ∀ y ∈ x.2, y.Frees runIds)
            (releaseAllocation allocation.runId pending loaded >>= fun x =>
              recoverAllocations x.2.1 x.2.2 rest) :=
        (releases_releaseAllocation (hruns allocation (by simp)) h).bind fun x hx =>
          ih (fun a ha => hruns a (by simp [ha])) hx
      refine (releases_flush h).bind fun _ _ => releases_select.bind fun found _ => ?_
      cases found with
      | none => exact hrest (by simp)
      | some run => exact releases_recoverRun.bind fun pending hpending => hrest hpending

theorem releases_refreshWorkers {pending : List Write} {workers : List Worker}
    (h : ∀ x ∈ pending, x.Frees runIds) :
    Releases runIds (fun pending => ∀ x ∈ pending, x.Frees runIds)
      (refreshWorkers pending workers) := by
  induction workers generalizing pending with
  | nil => exact .ret h
  | cons worker rest ih =>
      exact (releases_flush h).bind fun _ _ => releases_refreshWorkerCapacity.bind fun refreshed _ =>
        ih (frees_workerUpdate worker refreshed)

theorem releases_assignmentEvent {run : Run} {worker : Worker} {allocation : ResourceAllocation} :
    Releases runIds (fun _ => True) (assignmentEvent settings run worker allocation) :=
  releases_uuid4.bind fun _ _ => releases_uuid4.bind fun _ _ => releases_datetimeNow.bind fun _ _ =>
    releases_uuid4.bind fun _ _ => .ret trivial

theorem releases_assignRuns {now healthyAfter : Time} {pending : List Write} {runs : List Run}
    (h : ∀ x ∈ pending, x.Frees runIds) :
    Releases runIds (fun x => ∀ y ∈ x.2, y.Frees runIds)
      (assignRuns settings now healthyAfter pending runs) := by
  induction runs generalizing pending with
  | nil => exact .ret h
  | cons run rest ih =>
      refine (releases_flush h).bind fun _ _ => releases_selectForUpdate.bind fun found _ => ?_
      cases found with
      | nil => exact ih (by simp)
      | cons worker _ =>
          refine releases_uuid4.bind fun id _ => releases_uuid4.bind fun leaseToken _ => ?_
          refine (releases_flush (by simp [Write.Frees])).bind fun _ _ => ?_
          refine releases_transitionRun.bind fun x _ => releases_assignmentEvent.bind fun message _ => ?_
          refine (ih fun y hy => ?_).bind fun x hx => .ret hx
          simp only [List.cons_append, List.nil_append, List.mem_cons, List.mem_append,
            List.not_mem_nil, or_false] at hy
          rcases hy with rfl | rfl | hy | rfl
          · simp [Write.Frees]
          · simp [Write.Frees]
          · exact frees_workerUpdate worker _ y hy
          · simp [Write.Frees]

/-! ### A pass from its first reading of the clock on -/

abbrev Watched (settings : Settings) (now : Time) (Q : Except Exc α → Session → Platform → Prop) :
    Program α → Session → Platform → Prop :=
  Sound storage (fun _ => True)
    (.asking (Overseen settings now) : Contract Platform RowKey Write Call Input Point) Q

variable {now : Time} {t : Session} {p : Platform}

theorem overseen_of_ne (st : Stmt Platform RowKey Write Call) (t : Session) (p : Platform)
    (h : st ≠ .commit) : Overseen settings now st t p := fun heq => absurd heq h

/-- The leases a pass has locked are forfeit as long as it holds on to them and
to the stale workers. -/
structure Seized (settings : Settings) (now : Time) (rows : List RowKey)
    (allocations : List ResourceAllocation) (p : Platform) : Prop where
  active : ∀ a ∈ allocations, a ∈ p.db.activeAllocations ∧ RowKey.allocation a.id ∈ rows
  forfeit : ∀ a ∈ allocations, a.leaseExpiresAt < now ∨ ∃ w, RowKey.worker w.id ∈ rows ∧
    w.id = a.workerId ∧ p.db.workers.get? w.id = some w ∧ w.status = .online ∧
    w.lastHeartbeatAt < now - seconds settings.workerStaleSeconds

theorem Seized.overseen {rows : List RowKey} {allocations : List ResourceAllocation}
    {p₀ : Platform} (h : Seized settings now rows allocations p₀)
    (hretains : Retains storage rows p₀ t p)
    (hwrites : ∀ x ∈ t.writes, x.Frees (allocations.map ResourceAllocation.runId))
    (st : Stmt Platform RowKey Write Call) : Overseen settings now st t p := by
  intro _ a time hmem
  obtain ⟨b, hb, hrun⟩ := List.mem_map.mp (hwrites _ hmem a time rfl)
  obtain ⟨hactive, hlocked⟩ := h.active b hb
  have hmem' := List.mem_filter.mp hactive
  have hget : p.db.allocations.get? b.id = some b :=
    (hretains _ hlocked).2.symm.trans (Table.get?_of_mem hmem'.1)
  refine ⟨b, List.mem_filter.mpr ⟨Table.mem_of_get? hget, hmem'.2⟩, hrun, ?_⟩
  rcases h.forfeit b hb with hexpired | ⟨w, hworker, hid, hstored, honline, hsilent⟩
  · exact .inl hexpired
  · exact .inr ⟨w, hid ▸ (hretains _ hworker).2.symm.trans hstored, honline, hsilent⟩

/-- A part of a pass. -/
theorem watched_part {rows : List RowKey} {p₀ : Platform} {R : β → Prop} {c : Program β}
    {k : β → Program α} {Q : Except Exc α → Session → Platform → Prop}
    (herror : ∀ e t p, Q (.error e) t p) (hc : Releases runIds R c)
    (hwrites : ∀ x ∈ t.writes, x.Frees runIds) (hretains : Retains storage rows p₀ t p)
    (h : ∀ b t p, R b → (∀ x ∈ t.writes, x.Frees runIds) → Retains storage rows p₀ t p →
      Watched settings now Q (k b) t p) : Watched settings now Q (c >>= k) t p := by
  refine Sound.bind ((hc.sound frees_stamp overseen_of_ne hwrites hretains).mono fun x t p hx => ?_)
  cases x with
  | error e => exact herror e t p
  | ok b =>
      obtain ⟨hb, hwrites, hretains⟩ := hx b rfl
      exact h b t p hb hwrites hretains

theorem watched_selectForUpdate {key : β → RowKey} {query : Db → (β → Bool) → List β}
    {k : List β → Program α} {Q : Except Exc α → Session → Platform → Prop}
    (herror : ∀ e t p, Q (.error e) t p)
    (h : ∀ p' i (free : RowKey → Bool), Interferes storage (fun _ => True)
      (.asking (Overseen settings now) : Contract Platform RowKey Write Call Input Point) pt t p p' →
      Watched settings now Q (k (query (t.view storage p').db fun x => free (key x)))
        ((t.begin i).lock ((query (t.view storage p').db fun x => free (key x)).map key)) p') :
    Watched settings now Q (session.selectForUpdate pt true key query >>= k) t p := by
  refine Sound.bind (Sound.stmt fun p' hp' => ⟨overseen_of_ne _ _ _ (by simp), ?_⟩)
  exact ⟨herror _ _ _, fun i free => h p' i free hp'⟩

/-- Whatever the pass has released, and whatever it is still to release with
what is pending, belongs to leases that it has found forfeit and has locked. -/
def Vigilant (settings : Settings) (now : Time) (pending : List Write) (t : Session)
    (p : Platform) : Prop :=
  ∃ rows allocations p₀, Seized settings now rows allocations p₀ ∧ Retains storage rows p₀ t p ∧
    (∀ x ∈ t.writes, x.Frees (allocations.map ResourceAllocation.runId)) ∧
    ∀ x ∈ pending, x.Frees (allocations.map ResourceAllocation.runId)

/-- What recovers leases reads the clock, and is vigilant from then on. -/
theorem recoverExpiredAllocations_watched (settings : Settings) : ∃ k : Time → Program (ℕ × List Write),
    recoverExpiredAllocations settings = datetimeNow {} >>= k ∧
      ∀ now t p, t.writes = [] → Watched settings now
        (fun x t p => ∀ y, x = .ok y → Vigilant settings now y.2 t p) (k now) t p := by
  refine ⟨_, rfl, fun now t p ht => ?_⟩
  have herror (e : Exc) (t : Session) (p : Platform) (y : ℕ × List Write)
      (h : (Except.error e : Except Exc (ℕ × List Write)) = .ok y) : Vigilant settings now y.2 t p := by
    cases h
  refine watched_selectForUpdate herror fun p₁ i₁ free hp₁ => ?_
  rw [Session.view, ht, Storage.applyAll_nil]
  generalize hfound : (p₁.db.workers.rows.filter fun w => w.status = .online ∧
    w.lastHeartbeatAt < now - seconds settings.workerStaleSeconds ∧ free (.worker w.id)) = stale
  have hstale : ∀ w ∈ stale, p₁.db.workers.get? w.id = some w ∧ w.status = .online ∧
      w.lastHeartbeatAt < now - seconds settings.workerStaleSeconds := by
    intro w hw
    obtain ⟨hmem, hw⟩ := List.mem_filter.mp (hfound ▸ hw)
    obtain ⟨honline, hsilent, -⟩ := of_decide_eq_true hw
    exact ⟨Table.get?_of_mem hmem, honline, hsilent⟩
  have hlocked : Retains storage (stale.map fun w => .worker w.id) p₁
      ((t.begin i₁).lock (stale.map fun w => .worker w.id)) p₁ := fun r hr =>
    ⟨List.mem_append_left _ hr, (storage.same_equiv r).refl p₁⟩
  have hnone : ∀ x ∈ ((t.begin i₁).lock (stale.map fun w => .worker w.id)).writes,
      ∃ loaded changed, x = .updateWorker loaded changed := by
    simp [ht]
  -- the stale workers are marked, which leaves the leases alone
  have hmark : Prog.Part (fun x => ∃ loaded changed, x = Write.updateWorker loaded changed)
      (fun _ => True) (session.flush {} (stale.flatMap fun w => workerUpdate w w.markStale)) :=
    .flush (fun x hx => (Stale.update hx).2.2) fun _ => trivial
  extract_lets staleIds marked
  have hstamp : ∀ (i : Input) (x : Write), (∃ loaded changed, x = .updateWorker loaded changed) →
      ∃ loaded changed, storage.stamp i x = .updateWorker loaded changed := by
    rintro i _ ⟨loaded, changed, rfl⟩
    exact ⟨loaded, changed, rfl⟩
  refine Sound.bind ((hmark.sound hstamp overseen_of_ne hnone hlocked).mono fun x t₂ p₂ hx => ?_)
  cases x with
  | error e => exact herror _ _ _
  | ok _ =>
      obtain ⟨-, hupdates, hheld⟩ := hx _ rfl
      refine watched_selectForUpdate herror fun p₃ i₃ free' hp₃ => ?_
      have hheld₃ := hheld.interfered hp₃
      have hsame : (t₂.view storage p₃).db.activeAllocations = p₃.db.activeAllocations := by
        rw [Db.activeAllocations, Session.view, allocations_applyAll hupdates, Db.activeAllocations]
      rw [hsame]
      generalize hexpired : (p₃.db.activeAllocations.filter fun a =>
        (a.leaseExpiresAt < now ∨ a.workerId ∈ staleIds) ∧ free' (.allocation a.id)) = allocations
      have hseized : Seized settings now ((allocations.map fun a => .allocation a.id) ++
          stale.map fun w => .worker w.id) allocations p₃ := by
        constructor
        · intro a ha
          exact ⟨List.mem_of_mem_filter (hexpired ▸ ha),
            List.mem_append_left _ (List.mem_map_of_mem ha)⟩
        · intro a ha
          have hfilter := (List.mem_filter.mp (hexpired ▸ ha)).2
          obtain ⟨hdue, -⟩ := of_decide_eq_true hfilter
          refine hdue.imp_right fun hmem => ?_
          obtain ⟨w, hw, hid⟩ := List.mem_map.mp hmem
          obtain ⟨hget, honline, hsilent⟩ := hstale w hw
          have hrow : RowKey.worker w.id ∈ stale.map fun w => .worker w.id := List.mem_map_of_mem hw
          exact ⟨w, List.mem_append_right _ hrow, hid, (hheld₃ _ hrow).2.symm.trans hget, honline,
            hsilent⟩
      have hretains : Retains storage ((allocations.map fun a => .allocation a.id) ++
          stale.map fun w => .worker w.id) p₃
          ((t₂.begin i₃).lock (allocations.map fun a => .allocation a.id)) p₃ := by
        intro r hr
        refine ⟨?_, (storage.same_equiv r).refl p₃⟩
        rcases List.mem_append.mp hr with hr | hr
        · exact List.mem_append_left _ hr
        · exact List.mem_append_right _ (hheld₃ r hr).1
      have hwrites : ∀ x ∈ ((t₂.begin i₃).lock (allocations.map fun a => .allocation a.id)).writes,
          x.Frees (allocations.map ResourceAllocation.runId) := by
        intro x hx a time heq
        obtain ⟨loaded, changed, rfl⟩ := hupdates x hx
        cases heq
      have hrest : Releases (allocations.map ResourceAllocation.runId)
          (fun y => ∀ x ∈ y.2, x.Frees (allocations.map ResourceAllocation.runId))
          (recoverAllocations marked [] allocations >>= fun x =>
            refreshWorkers x.2 x.1 >>= fun pending => Prog.ret (allocations.length, pending)) :=
        (releases_recoverAllocations (fun a ha => List.mem_map_of_mem ha) (by simp)).bind fun x hx =>
          (releases_refreshWorkers hx).bind fun pending hpending => .ret hpending
      refine (hrest.sound frees_stamp overseen_of_ne hwrites hretains).mono fun x t p hx y hy => ?_
      obtain ⟨hpending, hwrites, hretains⟩ := hx y hy
      exact ⟨_, allocations, p₃, hseized, hretains, hwrites, hpending⟩

/-- A pass keeps watch from its first statement on. -/
theorem schedule_watched (rt : Runtime) (free : RowKey → Bool) (i : Input) {prog : Program Unit}
    {t : Session} {p p' : Platform}
    (hexec : (Kind.code rt settings .schedule).exec storage free i .fresh p = some (prog, t, p')) :
    Watched settings i.clock (fun _ _ _ => True) prog t p' := by
  obtain ⟨k, hk, hwatched⟩ := recoverExpiredAllocations_watched settings
  simp only [Kind.code, scheduleOnce, hk] at hexec
  cases hexec
  refine Sound.bind (Sound.bind ((hwatched _ _ _ rfl).mono fun x t p hx => ?_))
  cases x with
  | error e => exact trivial
  | ok y =>
      obtain ⟨rows, allocations, p₀, hseized, hretains, hwrites, hpending⟩ := hx y rfl
      refine watched_part (fun _ _ _ => trivial) releases_datetimeNow hwrites hretains
        fun now t p _ hwrites hretains => ?_
      refine watched_part (fun _ _ _ => trivial) (releases_flush hpending) hwrites hretains
        fun _ t p _ hwrites hretains => ?_
      refine watched_part (fun _ _ _ => trivial) releases_selectForUpdate hwrites hretains
        fun queue t p _ hwrites hretains => ?_
      refine watched_part (fun _ _ _ => trivial) (releases_assignRuns (by simp)) hwrites hretains
        fun y t p hpending hwrites hretains => ?_
      refine Sound.bind (watched_part (fun _ _ _ => trivial) (releases_flush hpending) hwrites
        hretains fun _ t p _ hwrites hretains => Sound.stmt fun p' hp' => ?_)
      exact ⟨hseized.overseen (hretains.interfered hp') hwrites _, trivial, trivial, trivial,
        fun i => trivial⟩

end Passes

/-! ### In a reachable world -/

section Worlds

variable {rt : Runtime} {settings : Settings} {templates : Table TrainingTemplate.id}
  {w w' : Cluster} {a : Action Kind Input} {r : Uuid}

/-- A lease that a step ends was given back to the queue or ended with its run. -/
theorem RunStep.keeps {l : Label} {v v' : RunView} {x : Lease} (h : RunStep l v v')
    (hx : x ∈ v.active) : x ∈ v'.active ∨ (∃ lease, l = .requeue lease) ∨
      ∃ target lease, l = .finish target lease := by
  cases h with
  | create => simp [RunView.absent, RunView.active] at hx
  | edit | start | requestCancel => exact .inl hx
  | assign =>
      obtain ⟨hmem, hactive⟩ := List.mem_filter.mp hx
      exact .inl (List.mem_filter.mpr ⟨List.mem_append_left _ hmem, hactive⟩)
  | requeue v run lease => exact .inr (.inl ⟨lease, rfl⟩)
  | finish v run target lease => exact .inr (.inr ⟨target, lease, rfl⟩)

/-- Writes that release no lease of the run leave its leases alone. -/
theorem active_onRun {ws : List Write} {v : RunView} {x : Lease}
    (h : ∀ a time, .releaseAllocation a time ∈ ws → a.runId ≠ r) (hx : x ∈ v.active) :
    x ∈ (onRun r ws v).active := by
  induction ws generalizing v with
  | nil => exact hx
  | cons y ws ih =>
      rw [onRun_cons]
      refine ih (fun a time hmem => h a time (List.mem_cons_of_mem _ hmem)) ?_
      cases y with
      | insertAllocation a =>
          simp only [Write.onRun]
          split
          · obtain ⟨hmem, hactive⟩ := List.mem_filter.mp hx
            exact List.mem_filter.mpr ⟨List.mem_append_left _ hmem, hactive⟩
          · exact hx
      | releaseAllocation a time =>
          rwa [Write.onRun, if_neg (h a time List.mem_cons_self)]
      | insertRun | updateRun | insertEvent | insertOutbox =>
          simp only [Write.onRun]
          split <;> exact hx
      | _ => exact hx

theorem lease_mem_active {db : Db} {b : ResourceAllocation} (h : b ∈ db.activeAllocations) :
    b.lease ∈ (db.runView b.runId).active := by
  rw [active_runView]
  exact List.mem_map.mpr ⟨b, by simp [h], rfl⟩

theorem mem_of_lease_active {db : Db} {x : Lease} (h : x ∈ (db.runView r).active) :
    ∃ b ∈ db.activeAllocations, b.id = x.id := by
  rw [active_runView] at h
  obtain ⟨b, hb, rfl⟩ := List.mem_map.mp h
  exact ⟨b, (List.mem_filter.mp hb).1, rfl⟩

/-- A lease is ended by its executor or by a pass. -/
theorem Reachable.lease_ended (h : Reachable rt settings templates w)
    (hstep : w.step (system rt settings) a = some w') {b : ResourceAllocation}
    (hheld : b ∈ w.state.db.activeAllocations)
    (hended : b.lease ∉ (w'.state.db.runView b.runId).active) :
    ∃ (j : ℕ) (i : Input) (p : Process), a = .run j i ∧ w'.procs[j]? = some p ∧
      (p.kind.delivers b.runId ∧ 0 < startsOf b.runId p.session.committed ∨ p.kind = .schedule) := by
  have hlease := lease_mem_active hheld
  rcases h.ok.guar hstep with heq | ⟨j, i, q, pt, rfl, hq, -, hguar⟩
  · exact absurd (heq ▸ hlease) hended
  obtain ⟨p, hp, hkind⟩ := World.kind_step hstep hq
  refine ⟨j, i, p, rfl, hp, ?_⟩
  rcases World.db_step hstep with ⟨j', i', q', p', ha, hq', hp', -, hcommitted, hstate⟩ | hsame
  swap
  · exact absurd (hsame ▸ hlease) hended
  obtain ⟨rfl, rfl⟩ : j = j' ∧ i = i' := by simpa using ha
  obtain rfl := Option.some.inj (hq.symm.trans hq')
  obtain rfl := Option.some.inj (hp.symm.trans hp')
  have htransitions := transitionsOf_applyAll w.state q.session.writes b.runId
  rw [← hstate] at htransitions
  have hmoves : Moves q.kind b.runId (w.state.db.runView b.runId) (w'.state.db.runView b.runId) :=
    hguar.runs b.runId
  generalize hv : w.state.db.runView b.runId = v at hmoves hlease
  generalize hv' : w'.state.db.runView b.runId = v' at hmoves hended
  cases hmoves with
  | refl => exact absurd hlease hended
  | pass hκ _ => exact .inr (hkind.trans hκ)
  | single l hl hmove =>
      rcases hmove.keeps hlease with hkept | ⟨lease, rfl⟩ | ⟨target, lease, rfl⟩
      · exact absurd hkept hended
      · right
        rw [hkind]
        cases hκ : q.kind <;> rw [hκ] at hl <;> first | rfl | cases hl
      · rcases ends_of_allows hl with hdelivers | ⟨hκ, -⟩
        · -- what ends the run enters so
          left
          rw [← hkind] at hdelivers
          have hentered := hmove.entered target
          have hsome : entries b.runId q.session.writes ≠ [] := by
            intro hnone
            rw [hnone, List.filterMap_nil, List.append_nil] at htransitions
            have hsame : v'.transitions = v.transitions := by
              rw [← hv, ← hv']
              exact htransitions
            simp [RunView.entered, hsame, Label.enters] at hentered
          obtain ⟨entry, hentry⟩ := List.exists_mem_of_ne_nil _ hsome
          have hcommits : entry ∈ entries b.runId p.session.committed := by
            rw [hcommitted, entries_append]
            exact List.mem_append_right _ hentry
          exact ⟨hdelivers, (h.step hstep).started_of_entered hp hdelivers hcommits⟩
        · exact .inr (hkind.trans hκ)

/-- A lease is ended by the session that has started its run, or by a pass of
the scheduler if the lease is forfeit at the time that the pass has read from
the clock with its first statement: and it is so by what is committed at the
moment the pass commits, with every heartbeat that has come in meanwhile. -/
theorem leases_respected {as : List (Action Kind Input)}
    (hexec : (World.initial (.empty templates)).exec (system rt settings) as = some w)
    (hstep : w.step (system rt settings) a = some w') {b : ResourceAllocation}
    (hheld : b ∈ w.state.db.activeAllocations)
    (hended : ∀ b' ∈ w'.state.db.activeAllocations, b'.id ≠ b.id) :
    ∃ (j : ℕ) (i : Input) (p : Process), a = .run j i ∧ w'.procs[j]? = some p ∧
      (p.kind.delivers b.runId ∧ 0 < startsOf b.runId p.session.committed ∨
        p.kind = .schedule ∧ ∃ i₀, Begins as j i₀ ∧
          w.state.db.Forfeits settings i₀.clock b) := by
  have h : Reachable rt settings templates w := Reach.refl.of_exec hexec
  have hlost : b.lease ∉ (w'.state.db.runView b.runId).active := by
    intro hmem
    obtain ⟨b', hb', hid⟩ := mem_of_lease_active hmem
    exact hended b' hb' hid
  obtain ⟨j, i, p, rfl, hp, hexecutor | hκ⟩ := h.lease_ended hstep hheld hlost
  · exact ⟨j, i, p, rfl, hp, .inl hexecutor⟩
  refine ⟨j, i, p, rfl, hp, .inr ⟨hκ, ?_⟩⟩
  have hlease := lease_mem_active hheld
  rcases World.commits_step hstep with ⟨j', i', q, pt, next, ha, hq, hprog, hstate, -⟩ |
    ⟨hstate | ⟨c, i', hstate⟩, -⟩
  · obtain ⟨rfl, rfl⟩ : j = j' ∧ i = i' := by simpa using ha
    have hkind : q.kind = .schedule := by
      obtain ⟨p', hp', hkind⟩ := World.kind_step hstep hq
      obtain rfl := Option.some.inj (hp.symm.trans hp')
      exact hkind.symm.trans hκ
    have hcompat : Compatible (system rt settings) (Invariant (.plain rt)) (contract (.plain rt))
        fun _ _ _ => True := fun w w' pid i p pt hok hstep _ =>
      compatible (m := .plain rt) w w' pid i p pt hok hstep undisturbed_plain
    have hfirst (free : RowKey → Bool) (i : Input) (prog : Program Unit) (t : Session)
        (p p' : Platform) (_ : Invariant (.plain rt) p) (hexec : ((system rt settings).code
          .schedule).exec storage free i .fresh p = some (prog, t, p')) :
        Watched settings i.clock (fun _ _ _ => True) prog t p' := schedule_watched rt free i hexec
    have hopened : Opened (system rt settings) (fun i => Overseen settings i.clock) as j q w.state :=
      World.opened hcompat rfl hfirst (fun κ p => code_holds κ p) invariant_empty hexec hq hkind
    obtain ⟨b₀, time, hwrite, hrun⟩ : ∃ b₀ time,
        .releaseAllocation b₀ time ∈ q.session.writes ∧ b₀.runId = b.runId := by
      by_contra hnone
      refine hlost ?_
      have hview : w'.state.db.runView b.runId =
          onRun b.runId q.session.writes (w.state.db.runView b.runId) := by
        rw [hstate]
        exact runView_applyAll (h.ok.accepted j q hq) b.runId
      rw [hview]
      exact active_onRun (fun b₀ time hmem hrun => hnone ⟨b₀, time, hmem, hrun⟩) hlease
    cases hopened with
    | fresh hfresh =>
        rw [hprog, hkind] at hfresh
        cases hfresh
    | ended hover => simp [hprog] at hover
    | opened i₀ hbegins hsound =>
        refine ⟨i₀, hbegins, ?_⟩
        rw [hprog] at hsound
        have hneed : Overseen settings i₀.clock .commit q.session w.state :=
          (hsound w.state (.refl trivial (h.ok.owned j q hq) (h.ok.accepted j q hq))).1
        obtain ⟨b', hb', hrun', hforfeits⟩ := hneed rfl b₀ time hwrite
        -- it is the one lease of the run
        obtain rfl : b' = b := by
          by_contra hne
          have : Std.Symm fun a b : ResourceAllocation => a.runId ≠ b.runId := ⟨fun _ _ => Ne.symm⟩
          exact (pairwise_activeAllocations h.inv).forall hb' hheld hne (hrun'.trans hrun)
        exact hforfeits
  · exact absurd (hstate ▸ hlease) hlost
  · rw [hstate] at hlost
    exact absurd (by rwa [show ((system rt settings).storage.perform c i' w.state).db = w.state.db
      from c.perform_db i' w.state]) hlost

end Worlds

namespace Demo

/-- A run is assigned, and a pass that begins much later is about to commit. -/
def expiring : List (Action Kind Input) :=
  assigned slow ++ .spawn .schedule :: steps 3 100000000 20

end Demo

/-- The pass ends the lease, which was forfeit at the time it had read. -/
theorem leases_respected_expired : ∃ (w w' : Cluster) (b : ResourceAllocation),
    Demo.exec Demo.expiring = some w ∧
    w.step (system Demo.runtime Demo.settings) (.run 3 (Demo.input 100000020)) = some w' ∧
    b ∈ w.state.db.activeAllocations ∧ w'.state.db.activeAllocations = [] ∧
    ∃ i₀, Begins Demo.expiring 3 i₀ ∧ w.state.db.Forfeits Demo.settings i₀.clock b := by
  have h : (Demo.exec Demo.expiring).any fun w =>
      (w.state.db.activeAllocations.head?.any fun b => b.runId = 201) ∧
      (w.step (system Demo.runtime Demo.settings) (.run 3 (Demo.input 100000020))).any fun w' =>
        w'.state.db.activeAllocations.isEmpty ∧
        w'.procs[3]?.any fun p => startsOf 201 p.session.committed = 0 := by decide +kernel
  obtain ⟨w, hexec, hlast⟩ := (Option.any_eq_true _ _).mp h
  obtain ⟨hhead, hlater⟩ := of_decide_eq_true hlast
  obtain ⟨b, hb, hrun⟩ := (Option.any_eq_true _ _).mp hhead
  obtain ⟨w', hstep, hended⟩ := (Option.any_eq_true _ _).mp hlater
  obtain ⟨hnone, hproc⟩ := of_decide_eq_true hended
  obtain ⟨p, hp, hidle⟩ := (Option.any_eq_true _ _).mp hproc
  have hnone : w'.state.db.activeAllocations = [] := List.isEmpty_iff.mp hnone
  have hmem : b ∈ w.state.db.activeAllocations := List.mem_of_mem_head? hb
  refine ⟨w, w', b, hexec, hstep, hmem, hnone, ?_⟩
  obtain ⟨j, i, p', heq, hp', ⟨-, hstarted⟩ | ⟨-, hforfeit⟩⟩ :=
    leases_respected hexec hstep hmem (by simp [hnone])
  all_goals cases heq
  · obtain rfl := Option.some.inj (hp.symm.trans hp')
    rw [of_decide_eq_true hrun, of_decide_eq_true hidle] at hstarted
    cases hstarted
  · exact hforfeit

end Runscope
