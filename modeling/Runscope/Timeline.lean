import Runscope.Ledger
import Runscope.Transact.Records

/-!
The order in which the events of a run are listed.

An event bears the time at which its transaction began, and `list_events` sorts
by that alone. Events are in the order in which they happened as long as no
transaction commits two transitions of one run and each one begins after the
transaction of the run's transition before. Two services, or a pass of the
scheduler that recovers a run and assigns it again, need not keep to that.
-/

namespace Runscope

open Transact RunStatus

variable {rt : Runtime} {settings : Settings} {templates : Table TrainingTemplate.id}
  {w w' : Cluster} {a : Action Kind Input}

namespace Db

/-- What `list_events` may return: `order_by(RunEvent.created_at)` leaves the
order of rows open that bear the same time. -/
structure ListEvents (db : Db) (runId : Uuid) (rows : List RunEvent) : Prop where
  run : (db.runs.get? runId).isSome
  perm : rows.Perm (db.events.filter fun e => e.runId = runId)
  sorted : rows.Pairwise fun e e' => e.createdAt ≤ e'.createdAt

/-- The rows of `transitionsOf`. -/
def transitionRows (db : Db) (runId : Uuid) : List RunEvent :=
  db.events.filter fun e => e.runId = runId ∧ e.newStatus.isSome

end Db

/-- The transitions among the rows of a list. -/
def timeline (rows : List RunEvent) : List (Option RunStatus × Option RunStatus) :=
  (rows.filter fun e => e.newStatus.isSome).map fun e => (e.previousStatus, e.newStatus)

/-- However the events of a run are listed, the transitions among them form a
chain from its draft to its status. -/
def Db.Chronological (db : Db) (runId : Uuid) : Prop :=
  ∀ rows run, db.ListEvents runId rows → db.runs.get? runId = some run →
    IsPath (fun _ _ => True) (some draft) (timeline rows) (some run.status)

/-- The transition of the run that a write records. -/
def Write.transition? (runId : Uuid) : Write → Option RunEvent
  | insertEvent e => if e.runId = runId ∧ e.newStatus.isSome then some e else none
  | _ => none

/-- The transitions of the run among what is about to be committed. -/
def transitionsIn (runId : Uuid) (ws : List Write) : List RunEvent :=
  ws.filterMap (Write.transition? runId)

/-- A commit brings at most one transition of a run, and its transaction began
after the ones of all transitions the run has made. -/
def Timely (w : Cluster) (a : Action Kind Input) (_ : Cluster) : Prop :=
  ∀ pid i p pt next b, a = .run pid i → w.procs[pid]? = some p → p.prog = .step pt .commit next →
    p.session.began = some b → ∀ r, (transitionsIn r p.session.writes).length ≤ 1 ∧
      (transitionsIn r p.session.writes ≠ [] →
        ∀ e ∈ w.state.db.transitionRows r, e.createdAt < b.clock)

/-! ### What a step adds -/

theorem transitionRows_applyDb (x : Write) (db : Db) (r : Uuid) :
    (x.applyDb db).transitionRows r = db.transitionRows r ++ (x.transition? r).toList := by
  cases x
  case insertEvent e =>
    show (db.events ++ [e]).filter _ = _
    rw [List.filter_append, Write.transition?]
    by_cases h : e.runId = r ∧ e.newStatus.isSome <;> simp [Db.transitionRows, h]
  all_goals exact (List.append_nil _).symm

theorem transitionRows_applyAll (ws : List Write) (p : Platform) (r : Uuid) :
    (storage.applyAll p ws).db.transitionRows r = p.db.transitionRows r ++ transitionsIn r ws := by
  induction ws generalizing p with
  | nil => exact (List.append_nil _).symm
  | cons x ws ih =>
      have hrest : (storage.applyAll p (x :: ws)).db.transitionRows r =
          (x.applyDb p.db).transitionRows r ++ transitionsIn r ws := ih (x.apply p)
      rw [hrest, transitionRows_applyDb, List.append_assoc, transitionsIn, transitionsIn,
        List.filterMap_cons]
      cases x.transition? r <;> rfl

/-- The transitions of a run bear the times at which their transactions began,
each later than the one before. -/
def Successive (db : Db) (r : Uuid) : Prop :=
  (db.transitionRows r).Pairwise fun e e' => e.createdAt < e'.createdAt

/-- One step keeps the order. -/
theorem Successive.step {r : Uuid} (h : Successive w.state.db r)
    (hstamped : ∀ p ∈ w.procs, p.session.Stamped storage)
    (hstep : w.step (system rt settings) a = some w') (htimely : Timely w a w') :
    Successive w'.state.db r := by
  rcases World.records_step hstep with ⟨pid, i, p, pt, next, rfl, hp, hprog, hstate, -⟩ |
    ⟨pid, i, p, pt, c, next, -, -, -, hstate, -⟩ | ⟨hstate, -⟩
  · have hrows : w'.state.db.transitionRows r =
        w.state.db.transitionRows r ++ transitionsIn r p.session.writes :=
      hstate ▸ transitionRows_applyAll p.session.writes w.state r
    rw [Successive, hrows]
    -- what is committed bears the time of the transaction's first statement
    have hclock : ∀ e ∈ transitionsIn r p.session.writes, ∃ b, p.session.began = some b ∧
        e.createdAt = b.clock := by
      intro e he
      obtain ⟨x, hx, hxe⟩ := List.mem_filterMap.mp he
      obtain ⟨b, y, hbegan, rfl⟩ := hstamped p (List.mem_of_getElem? hp) x hx
      refine ⟨b, hbegan, ?_⟩
      cases y
      case insertEvent e' =>
        have hcond : (if e'.runId = r ∧ e'.newStatus.isSome then
          some { e' with createdAt := b.clock } else none) = some e := hxe
        split at hcond
        · obtain rfl := Option.some.inj hcond
          rfl
        · cases hcond
      all_goals cases hxe
    match hnew : transitionsIn r p.session.writes with
    | [] => rwa [List.append_nil]
    | [e] =>
      obtain ⟨b, hbegan, htime⟩ := hclock e (by simp [hnew])
      have hlater := (htimely pid i p pt next b rfl hp hprog hbegan r).2 (by simp [hnew])
      refine List.pairwise_append.mpr ⟨h, List.pairwise_singleton _ _, fun x hx y hy => ?_⟩
      obtain rfl := List.mem_singleton.mp hy
      exact htime ▸ hlater x hx
    | e :: e' :: more =>
      obtain ⟨b, hbegan, -⟩ := hclock e (by simp [hnew])
      have hfew := (htimely pid i p pt next b rfl hp hprog hbegan r).1
      rw [hnew] at hfew
      simp at hfew
  · have hdb : w'.state.db = w.state.db := hstate ▸ c.perform_db i w.state
    rwa [hdb]
  · rwa [hstate]

/-! ### The list -/

/-- Rows in the order of their times are in the order of the events, if the
times differ. -/
theorem Successive.timeline_eq {db : Db} {r : Uuid} (h : Successive db r) {rows : List RunEvent}
    (hrows : db.ListEvents r rows) : timeline rows = db.transitionsOf r := by
  have hfilter : (db.events.filter fun e => e.runId = r).filter (fun e => e.newStatus.isSome) =
      db.transitionRows r := by
    rw [List.filter_filter, Db.transitionRows]
    exact List.filter_congr fun e _ => by simp [Bool.and_comm]
  have hperm : (rows.filter fun e => e.newStatus.isSome).Perm (db.transitionRows r) :=
    hfilter ▸ hrows.perm.filter _
  have heq : rows.filter (fun e => e.newStatus.isSome) = db.transitionRows r := by
    have hsorted := hrows.sorted.sublist (List.filter_sublist (p := fun e => e.newStatus.isSome))
    have hnodup : ((db.transitionRows r).map RunEvent.createdAt).Nodup :=
      List.pairwise_map.mpr (h.imp ne_of_lt)
    refine hperm.eq_of_pairwise (fun e e' he he' hle hge => ?_) hsorted (h.imp le_of_lt)
    exact List.inj_on_of_nodup_map hnodup (hperm.subset he) he' (le_antisymm hle hge)
  rw [timeline, heq]
  rfl

/-- In a run of the system whose commits are all timely, the transitions of a
run are listed in the order in which they happened. -/
theorem timeline_ordered (h : Reach (system rt settings) Timely (.initial (.empty templates)) w)
    (r : Uuid) : w.state.db.Chronological r := by
  have hreach : Reachable rt settings templates w := h.mono fun _ _ _ _ => trivial
  have hsuccessive : Successive w.state.db r := by
    induction h with
    | refl => exact List.Pairwise.nil
    | step hbefore hstep htimely ih =>
        exact (ih (hbefore.mono fun _ _ _ _ => trivial)).step hbefore.stamped hstep htimely
  intro rows run hrows hget
  rw [hsuccessive.timeline_eq hrows]
  exact ((lifecycle_ledger hreach).1 r run hget).1.mono fun _ _ _ => trivial

/-- Some run's transition. -/
def Write.isTransition : Write → Bool
  | insertEvent e => e.newStatus.isSome
  | _ => false

theorem transitionsIn_filter (r : Uuid) (ws : List Write) :
    transitionsIn r (ws.filter Write.isTransition) = transitionsIn r ws := by
  refine List.filterMap_filter.trans (List.filterMap_congr fun x _ => ?_)
  cases x
  case insertEvent e _ =>
    rw [Write.isTransition, Write.transition?]
    cases e.newStatus <;> simp
  all_goals rfl

namespace Demo

/-- A check that holds of timely steps only. -/
def timely (w : Cluster) (a : Action Kind Input) (_ : Cluster) : Bool :=
  match a with
  | .run pid _ => w.procs[pid]?.all fun p =>
      let new := p.session.writes.filter Write.isTransition
      new = [] ∨ new.length ≤ 1 ∧
        p.session.began.all fun b => w.state.db.events.all fun e => e.createdAt < b.clock
  | _ => true

theorem timely_sound {w w' : Cluster} {a : Action Kind Input} (h : timely w a w') :
    Timely w a w' := by
  rintro pid i p pt next b rfl hp - hbegan r
  rw [timely, hp] at h
  simp only [Option.all_some, hbegan, decide_eq_true_eq, List.all_eq_true] at h
  rw [← transitionsIn_filter]
  rcases h with hnone | ⟨hfew, hlater⟩
  · simp [hnone, transitionsIn]
  · refine ⟨(List.length_filterMap_le _ _).trans hfew, fun _ e he => ?_⟩
    exact hlater e (List.mem_of_mem_filter he)

/-- The worker falls silent, another one registers, and a pass recovers the run
and assigns it again. -/
def reassigned : List (Action Kind Input) :=
  assigned slow ++ .spawn (.registerWorker "other" totals) :: steps 3 90000000 7 ++
    .spawn .schedule :: steps 4 100000000 29

end Demo

/-- Submitted and assigned one after the other. -/
theorem timeline_ordered_assigned : ∃ w,
    Reach (system Demo.runtime Demo.settings) Timely (.initial (.empty Demo.templates)) w ∧
    (w.state.db.transitionRows 201).length = 2 ∧ w.state.db.Chronological 201 := by
  have h : ((World.initial (.empty Demo.templates)).execIf (system Demo.runtime Demo.settings)
      Demo.timely (Demo.assigned Demo.slow)).any fun w =>
      (w.state.db.transitionRows 201).length = 2 := by decide +kernel
  obtain ⟨w, hexec, hrows⟩ := (Option.any_eq_true _ _).mp h
  have hreach := Reach.of_execIf (fun _ _ _ => Demo.timely_sound) .refl hexec
  exact ⟨w, hreach, of_decide_eq_true hrows, timeline_ordered hreach 201⟩

/-- The two transitions of that pass bear one time, so they may be listed the
other way round. -/
theorem timeline_ordered_reassigned : ∃ w,
    Reachable Demo.runtime Demo.settings Demo.templates w ∧ ¬ w.state.db.Chronological 201 := by
  have h : (Demo.exec Demo.reassigned).any fun w =>
      let rows := w.state.db.events.take 2 ++ (w.state.db.events.drop 2).reverse
      timeline rows = [(some draft, some queued), (some queued, some scheduling),
        (some queued, some scheduling), (some scheduling, some queued)] ∧
      rows.Pairwise (fun e e' => e.createdAt ≤ e'.createdAt) ∧
      w.state.db.events.all (fun e => e.runId = 201) ∧ (w.state.db.runs.get? 201).isSome := by
    decide +kernel
  obtain ⟨w, hw, hlast⟩ := Demo.reachable h
  simp only [decide_eq_true_eq] at hlast
  obtain ⟨htimeline, hsorted, hevents, hrun⟩ := hlast
  refine ⟨w, hw, fun hchronological => ?_⟩
  obtain ⟨run, hget⟩ := Option.isSome_iff_exists.mp hrun
  have hperm : (w.state.db.events.take 2 ++ (w.state.db.events.drop 2).reverse).Perm
      (w.state.db.events.filter fun e => e.runId = 201) := by
    rw [List.filter_eq_self.mpr (List.all_eq_true.mp hevents)]
    conv_rhs => rw [← List.take_append_drop 2 w.state.db.events]
    exact List.Perm.append_left _ (List.reverse_perm _)
  have hpath := hchronological _ run ⟨hrun, hperm, hsorted⟩ hget
  rw [htimeline] at hpath
  -- the third row starts where the second one started
  exact absurd hpath.2.2.2.2.1 (by decide)

end Runscope
