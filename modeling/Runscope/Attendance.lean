import Mathlib.Data.List.Nodup
import Runscope.Annotations
import Runscope.Consumer
import Runscope.Reconciliation
import Runscope.Transact.Writing

/-!
What a delivery that returns leaves behind.

An assignment message announces a lease. While its delivery waits for the run,
nobody else starts the run under that lease. So when `process_event` returns,
the lease is not held by the worker any more: it was given up before the
delivery looked, or the delivery itself has committed the end of the run.
-/

namespace Runscope

open Transact RunStatus

/-- The message announces the allocation. -/
structure Promises (e : EventEnvelope) (a : ResourceAllocation) : Prop where
  runId : e.runId = some a.runId
  carries : Carries e a.lease

/-- The worker holds the lease that the message announces, and the run has not
been started. -/
def Waiting (k : Uuid) (e : EventEnvelope) (p : Platform) : Prop :=
  ∃ a ∈ p.db.activeAllocations, a.workerId = k ∧ Promises e a ∧
    ∃ run, p.db.runs.get? a.runId = some run ∧ run.status = scheduling

/-- Some message with this id is known that nothing waits for any more. -/
def Taken (k eventId : Uuid) (p : Platform) : Prop :=
  ∃ r, ∃ e ∈ p.db.messagesOf r, e.eventId = eventId ∧ ¬ Waiting k e p

/-- The writes end the run. -/
def Ended (r : Uuid) (ws : List Write) : Prop :=
  ∃ e target, .insertEvent e ∈ ws ∧ e.runId = r ∧ e.newStatus = some target ∧ target.finished

theorem Ended.mono {r : Uuid} {ws ws' : List Write} (h : Ended r ws) (hws : ws ⊆ ws') :
    Ended r ws' := by
  obtain ⟨e, target, he, hrest⟩ := h
  exact ⟨e, target, hws he, hrest⟩

/-- The message has been sent, and no run has two leases. -/
structure Pending (k : Uuid) (e : EventEnvelope) (p : Platform) : Prop where
  tokens : (p.db.activeAllocations.map ResourceAllocation.runId).Nodup
  known : ∃ r, e ∈ p.db.messagesOf r

section Observed

variable {rt : Runtime} {k r : Uuid} {e : EventEnvelope} {p p' : Platform} {a : ResourceAllocation}

/-- The lease that is announced is that of the message's run. -/
theorem Promises.run (h : Promises e a) (hr : e.runId = some r) : a.runId = r :=
  Option.some.inj (h.runId.symm.trans hr)

theorem run_of_known (h : e ∈ p.db.messagesOf r) : e.runId = some r := by
  simpa using (List.mem_filter.mp h).2

theorem mem_active_of_row (ha : a ∈ p.db.activeAllocations) :
    a.lease ∈ (p.db.runView a.runId).active := by
  rw [active_runView]
  exact List.mem_map.mpr ⟨a, by simp [ha], rfl⟩

/-- A lease that waits for its message has waited for it ever since the message
is known. -/
theorem Waiting.before (hI : Invariant (.plain rt) p) (hI' : Invariant (.plain rt) p')
    (hlater : Later p p') (hknown : e ∈ p.db.messagesOf r) (h : Waiting k e p') : Waiting k e p := by
  obtain ⟨a', ha', hworker, hpromises, run', hget', hstatus'⟩ := h
  obtain rfl := hpromises.run (run_of_known hknown)
  obtain ⟨ha', hopen'⟩ := List.mem_filter.mp ha'
  cases hget : p.db.runs.get? a'.runId with
  | none =>
      have hempty : p.db.messagesOf a'.runId = [] :=
        congrArg RunView.messages ((hI.runs _).absent hget)
      rw [hempty] at hknown
      cases hknown
  | some run =>
  have hcoherent := (hI.runs _).present run hget
  have hsent : e ∈ (p.db.runView a'.runId).sent "run.assigned" :=
    List.mem_filter.mpr ⟨hknown, decide_eq_true hpromises.carries.eventType⟩
  obtain ⟨x, hx, hcarries⟩ := carries_of_mem hcoherent.assigned hsent
  have htoken : x.leaseToken = a'.leaseToken :=
    Option.some.inj (Except.ok.inj (hcarries.leaseToken.symm.trans hpromises.carries.leaseToken))
  -- had it been released, it would be so now
  have hopen : x.releasedAt.isNone := by
    by_contra hreleased
    rw [Option.isNone_iff_eq_none] at hreleased
    obtain ⟨x', hx', heq, hreleased'⟩ :=
      (hlater _).released hx (Option.isSome_iff_ne_none.mpr hreleased)
    obtain ⟨b, hb, rfl⟩ := List.mem_map.mp hx'
    have hba : b = a' := List.inj_on_of_nodup_map hI'.tokens (List.mem_filter.mp hb).1 ha'
      ((congrArg Lease.leaseToken heq).trans htoken)
    subst hba
    rw [ResourceAllocation.active, Option.isNone_iff_eq_none] at hopen'
    exact absurd hopen' (Option.isSome_iff_ne_none.mp hreleased')
  obtain ⟨a, ha, rfl⟩ := List.mem_map.mp hx
  obtain ⟨ha, hrun⟩ := List.mem_filter.mp ha
  have hrun : a.runId = a'.runId := by simpa using hrun
  have hactive : a ∈ p.db.activeAllocations := List.mem_filter.mpr ⟨ha, hopen⟩
  have hcarried : a.workerId = a'.workerId :=
    Option.some.inj (hcarries.workerId.symm.trans hpromises.carries.workerId)
  refine ⟨a, hactive, hcarried.trans hworker, ⟨hrun ▸ hpromises.runId, hcarries⟩, run,
    hrun ▸ hget, ?_⟩
  -- a run that has been started does not wait again
  by_contra hstatus
  obtain ⟨run₀, hget₀, hleased, -⟩ := leased_of_active hI hactive
  obtain rfl := Option.some.inj ((hrun ▸ hget).symm.trans hget₀)
  have hbegun : run.status.begun := by
    revert hleased hstatus
    cases run.status <;> simp [RunStatus.leased, RunStatus.begun]
  obtain ⟨run₁, hget₁, hbegun₁, -⟩ := (hlater a'.runId).held (P := fun _ => True)
    ⟨run, hget, hbegun, fun _ _ => trivial⟩
  obtain rfl := Option.some.inj (hget'.symm.trans hget₁)
  simp [hstatus', RunStatus.begun] at hbegun₁

theorem Taken.later {eventId : Uuid} (hI : Invariant (.plain rt) p) (hI' : Invariant (.plain rt) p')
    (hlater : Later p p') (h : Taken k eventId p) : Taken k eventId p' := by
  obtain ⟨r, e, he, hid, hwaiting⟩ := h
  exact ⟨r, e, (hlater r).messages he, hid, fun h => hwaiting (h.before hI hI' hlater he)⟩

theorem Pending.taken (h : Pending k e p) (hwaiting : ¬ Waiting k e p) : Taken k e.eventId p := by
  obtain ⟨r, he⟩ := h.known
  exact ⟨r, e, he, rfl, hwaiting⟩

/-! What a delivery sees when it does not go on with the run. -/

theorem not_waiting_of_none (hr : e.runId = some r) (hnone : p.db.runs.get? r = none) :
    ¬ Waiting k e p := by
  rintro ⟨a, -, -, hpromises, run, hget, -⟩
  rw [hpromises.run hr, hnone] at hget
  cases hget

theorem not_waiting_of_status (hr : e.runId = some r) {run : Run}
    (hget : p.db.runs.get? r = some run) (hstatus : run.status ≠ scheduling) : ¬ Waiting k e p := by
  rintro ⟨a, -, -, hpromises, run', hget', hstatus'⟩
  rw [hpromises.run hr, hget] at hget'
  exact hstatus (Option.some.inj hget' ▸ hstatus')

theorem not_waiting_of_unleased (hr : e.runId = some r)
    (hnone : (p.db.activeAllocations.find? fun a => a.runId = r) = none) : ¬ Waiting k e p := by
  rintro ⟨a, ha, -, hpromises, -⟩
  exact List.find?_eq_none.mp hnone a ha (decide_eq_true (hpromises.run hr))

/-- The one lease of the run is not the one announced. -/
theorem Pending.not_waiting_of_unclaimed (h : Pending k e p) (hr : e.runId = some r)
    {token : Option Uuid} (htoken : e.leaseToken = .ok token)
    (hfound : (p.db.activeAllocations.find? fun a => a.runId = r) = some a)
    (hunclaimed : ¬ a.claimedBy (some k) token) : ¬ Waiting k e p := by
  rintro ⟨b, hb, hworker, hpromises, -⟩
  have hfoundRun : a.runId = r := by simpa using List.find?_some hfound
  have hba : b = a := List.inj_on_of_nodup_map h.tokens hb (List.mem_of_find?_eq_some hfound)
    ((hpromises.run hr).trans hfoundRun.symm)
  subst hba
  rw [hpromises.carries.leaseToken] at htoken
  obtain rfl := Except.ok.inj htoken
  exact hunclaimed (by simp [ResourceAllocation.claimedBy, hworker, ResourceAllocation.lease])

end Observed

/-! ### The contract -/

/-- The others keep what is taken taken. The delivery enters nothing but its own
message, and that when it is taken or its run is over. -/
def attending (e : EventEnvelope) : Contract Platform RowKey Write Call Input Point where
  rely _ _ p p' := ∀ k, (Pending k e p → Pending k e p') ∧
    (Taken k e.eventId p → Taken k e.eventId p')
  guar _ t p p' := ∀ x ∈ p'.db.processed, x ∈ p.db.processed ∨ ∃ k r, x = Consumer.record k e ∧
    e.runId = some r ∧ (Taken k e.eventId p' ∨ Ended r t.committed)
  need _ _ _ := True
  rely_refl _ := ⟨id, id⟩
  rely_trans h h' k := ⟨(h' k).1 ∘ (h k).1, (h' k).2 ∘ (h k).2⟩

abbrev Attends {α : Type} (e : EventEnvelope) (Q : Except Exc α → Session → Platform → Prop) :
    Program α → Session → Platform → Prop :=
  Sound storage (fun _ => True) (attending e) Q

section Rules

variable {α β : Type} {rt : Runtime} {k r : Uuid} {e : EventEnvelope} {t : Session} {p : Platform}
  {pt : Point}

theorem processed_ordinary {x : Write} (hx : x.Ordinary) (p : Platform) :
    (x.apply p).db.processed = p.db.processed := by
  cases x with
  | insertProcessed => exact hx.elim
  | _ => rfl

theorem processed_applyAll_ordinary {ws : List Write} (h : ∀ x ∈ ws, x.Ordinary) (p : Platform) :
    (storage.applyAll p ws).db.processed = p.db.processed := by
  induction ws generalizing p with
  | nil => rfl
  | cons x ws ih =>
      exact (ih (fun y hy => h y (by simp [hy])) _).trans (processed_ordinary (h x (by simp)) p)

theorem attending_guar {p' : Platform} (h : p'.db.processed = p.db.processed) :
    (attending e).guar pt t p p' := fun _ hx => .inl (h ▸ hx)

theorem ordinary_covers : Covers .any Write.Ordinary := fun _ _ h => h

/-- A program that only stores ordinary writes attends to nothing. -/
theorem Attends.left {R : α → Prop} {c : Program α} (h : Stores .any Write.Ordinary R c)
    (ht : ∀ x ∈ t.writes, x.Ordinary) :
    Attends e (fun outcome t _ => Left Write.Ordinary R outcome t) c t p :=
  h.sound ordinary_stamp (fun _ _ _ _ => noted_any _) (fun _ _ => noted_any _)
    (fun _ _ _ => trivial)
    (fun _ _ p _ ht => ⟨attending_guar (processed_applyAll_ordinary ht p), trivial⟩)
    (fun _ _ p c i _ => ⟨attending_guar (congrArg Db.processed (c.perform_db i p)), trivial⟩) ht p

theorem Attends.stores {Q : Except Exc α → Session → Platform → Prop} {R : β → Prop}
    {c : Program β} {f : β → Program α} (h : Stores .any Write.Ordinary R c)
    (ht : ∀ x ∈ t.writes, x.Ordinary)
    (hQ : ∀ x t p, (∀ x ∈ t.writes, x.Ordinary) → Q (.error x) t p)
    (hf : ∀ b t p, (∀ x ∈ t.writes, x.Ordinary) → R b → Attends e Q (f b) t p) :
    Attends e Q (c.bind f) t p := by
  refine Sound.bind ((Attends.left h ht).mono fun outcome t p hleft => ?_)
  cases outcome with
  | ok b => exact hf b t p hleft.1 (hleft.2 b rfl)
  | error x => exact hQ x t p hleft.1

theorem Attends.commit {Q : Except Exc α → Session → Platform → Prop} {pending : List Write}
    {f : Unit → Program α} (hpending : ∀ x ∈ pending, x.Ordinary)
    (ht : ∀ x ∈ t.writes, x.Ordinary)
    (hQ : ∀ x t p, (∀ x ∈ t.writes, x.Ordinary) → Q (.error x) t p)
    (hf : ∀ i t' p, t'.writes = [] →
      t'.committed = t.committed ++ (t.writes ++ t.stamped storage i pending) →
      Attends e Q (f ()) t' p) :
    Attends e Q (session.commit pt pending >>= f) t p := by
  refine Sound.bind (Sound.bind (Sound.stmt fun p₁ h₁ => ⟨trivial, hQ _ _ _ (by simp), fun i =>
    ⟨fun x _ => hQ _ _ _ (by simp), fun _ => ?_⟩⟩))
  refine Sound.stmt fun p₂ h₂ => ⟨trivial, hQ _ _ _ (by simp), attending_guar ?_, trivial,
    fun j => hf i _ _ rfl rfl⟩
  refine processed_applyAll_ordinary (fun x hx => ?_) p₂
  rcases List.mem_append.mp hx with hx | hx
  · exact ht x hx
  · obtain ⟨y, hy, rfl⟩ := List.mem_map.mp hx
    exact ordinary_stamp _ y (hpending y hy)

/-! ### The end of a run -/

/-- Nothing but ordinary writes is left to commit, and a run that is returned is
`r`, whose end is committed. -/
def Concluded (r : Uuid) (outcome : Except Exc Run) (t : Session) (_ : Platform) : Prop :=
  (∀ x ∈ t.writes, x.Ordinary) ∧
    ∀ run, outcome = .ok run → run.id = r ∧ Ended r t.committed

theorem Concluded.error {x : Exc} (ht : ∀ x ∈ t.writes, x.Ordinary) :
    Concluded r (.error x) t p := ⟨ht, fun _ h => by cases h⟩

theorem refreshRun_stores {run : Run} :
    Stores .any Write.Ordinary (fun run' => run'.id = run.id) (session.refreshRun pt run) := by
  refine .bind (R := fun found => ∀ run', found = some run' → run'.id = run.id)
    (.stmt nofun fun reply _ run' hget => Table.key_of_get? hget) fun found hfound => ?_
  cases found with
  | none => exact trivial
  | some run' => exact hfound run' rfl

theorem transitionRun_stores {run : Run} {target : RunStatus} {eventType : String}
    {metadata : Record} :
    Stores .any Write.Ordinary (fun x => x.1.id = run.id ∧ x.2.runId = run.id ∧
      x.2.newStatus = some target) (transitionRun pt run target eventType metadata) :=
  .bind (.ofExcept (Q := fun _ => True) fun _ _ => trivial) fun _ _ =>
    stores_call.bind fun _ _ => ⟨rfl, rfl, rfl⟩

/-- A release is part of a transaction. -/
theorem releaseAllocation_within {runId : Uuid} {pending : List Write} {loaded : List Worker} :
    (releaseAllocation runId pending loaded).Within := by
  refine .bind (.stmt (by simp) (by simp)) fun _ => .bind (.stmt (by simp) (by simp)) fun found => ?_
  cases found with
  | nil => exact trivial
  | cons allocation rest =>
      refine .bind (.stmt (by simp) (by simp)) fun now => .bind (.stmt (by simp) (by simp)) fun _ => ?_
      lift_lets
      intro released join
      have hjoin (worker? : Option Worker) : (join worker?).Within := by
        cases worker? with
        | none => exact trivial
        | some worker =>
            exact .bind (.bind (.stmt (by simp) (by simp)) fun _ => trivial) fun _ => trivial
      cases loaded.find? fun w => w.id = allocation.workerId with
      | some worker => exact .bind (p := .ret (some worker)) trivial hjoin
      | none => exact .bind (.stmt (by simp) (by simp)) hjoin

theorem finishRun_attends {run : Run} {target : RunStatus} {eventType : String} {metadata : Record}
    {added : List Write} (hid : run.id = r) (htarget : target.finished)
    (hadded : ∀ x ∈ added, x.Ordinary) (ht : ∀ x ∈ t.writes, x.Ordinary) :
    Attends e (Concluded r) (finishRun run target eventType metadata added) t p := by
  refine Attends.stores transitionRun_stores ht (fun _ _ _ => .error) fun x t p ht hx => ?_
  obtain ⟨changed, event⟩ := x
  obtain ⟨hchanged, hevent, hnew⟩ := hx
  have hpending : ∀ x ∈ added ++ [Write.updateRun changed, .insertEvent event], x.Ordinary := by
    intro x hx
    rcases List.mem_append.mp hx with hx | hx
    · exact hadded x hx
    · simp only [List.mem_cons, List.not_mem_nil, or_false] at hx
      rcases hx with rfl | rfl <;> exact trivial
  have hstores : Stores .any Write.Ordinary (fun x => ∀ y ∈ x.2.2, y.Ordinary)
      (releaseAllocation changed.id (added ++ [.updateRun changed, .insertEvent event]) []) :=
    stores_releaseAllocation ordinary_covers hpending
  have hrelease := (Attends.left (e := e) (p := p) hstores ht).flushed releaseAllocation_within
  refine Sound.bind (hrelease.mono fun outcome t₁ p₁ h => ?_)
  obtain ⟨⟨ht₁, hleft⟩, hflushed⟩ := h
  cases outcome with
  | error x => exact .error ht₁
  | ok y =>
      obtain ⟨-, i, hi⟩ := hflushed y rfl
      refine Attends.commit (hleft y rfl) ht₁ (fun _ _ _ => .error) fun j t₂ p₂ hwrites hdone => ?_
      refine ⟨by simp [hwrites], fun run' hrun' => ?_⟩
      cases hrun'
      have hmem : Write.stamp (t.began.getD i) (.insertEvent event) ∈ t₂.committed := by
        rw [hdone]
        refine List.mem_append_right _ (List.mem_append_left _ (hi.mem (List.mem_append_right _ ?_)))
        exact List.mem_map_of_mem (by simp)
      exact ⟨hchanged.trans hid, _, target, hmem, hevent.trans hid, hnew, htarget⟩

theorem getRun_stores {runId : Uuid} :
    Stores .any Write.Ordinary (fun found => ∀ run, found = some run → run.id = runId)
      (session.getRun pt runId) :=
  .stmt nofun fun _ _ _ hget => Table.key_of_get? hget

/-- A run whose end is committed is loaded again. -/
theorem reload_attends {run : Run} (h : Concluded r (.ok run) t p) :
    Attends e (Concluded r) (session.refreshRun pt run) t p := by
  obtain ⟨hid, hended⟩ := h.2 run rfl
  have hstores : Stores .any Write.Ordinary (fun run' => run'.id = run.id)
      (session.refreshRun pt run) := refreshRun_stores
  have hprefix := (Attends.left (e := e) (p := p) hstores h.1).grows
    (List.prefix_rfl (l := t.committed))
  refine hprefix.mono fun outcome t' p' h' => ⟨h'.1.1, fun run' hrun' => ?_⟩
  exact ⟨(h'.1.2 run' hrun').trans hid, hended.mono (h'.2.subset)⟩

/-- What ends a run and loads it again. -/
theorem finishRun_reload_attends {run : Run} {target : RunStatus} {eventType : String}
    {metadata : Record} {added : List Write} (hid : run.id = r) (htarget : target.finished)
    (hadded : ∀ x ∈ added, x.Ordinary) (ht : ∀ x ∈ t.writes, x.Ordinary) :
    Attends e (Concluded r) (do
      let run ← finishRun run target eventType metadata added
      session.refreshRun pt run) t p := by
  refine Sound.bind ((finishRun_attends hid htarget hadded ht).mono fun outcome t p h => ?_)
  cases outcome with
  | ok run => exact reload_attends h
  | error x => exact .error h.1

theorem executeFailed_attends {run : Run} {begun : Bool} {exc : Exc} (hid : run.id = r)
    (ht : ∀ x ∈ t.writes, x.Ordinary) :
    Attends e (Concluded r) (executeFailed run begun exc) t p := by
  refine Attends.stores (R := fun _ => True) (.stmt nofun fun _ _ => trivial) ht
    (fun _ _ _ => .error) fun _ t p ht _ => ?_
  split
  · exact .error ht
  · refine Attends.stores getRun_stores ht (fun _ _ _ => .error) fun found t p ht hfound => ?_
    cases found with
    | none => exact .error ht
    | some run' =>
        have hid' := (hfound run' rfl).trans hid
        cases exc with
        | _ => exact finishRun_attends hid' rfl (by simp) ht

theorem executeTemplate_attends {definition : TemplateDefinition} {run : Run} (hid : run.id = r)
    (ht : ∀ x ∈ t.writes, x.Ordinary) :
    Attends e (Concluded r) (executeTemplate rt definition run) t p := by
  unfold executeTemplate
  split
  case isFalse => exact executeFailed_attends hid ht
  case isTrue =>
  refine Attends.stores stores_call ht (fun _ _ _ => .error) fun input t p ht _ => ?_
  cases input.failure with
  | some exc => exact executeFailed_attends hid ht
  | none =>
      refine Attends.stores (stores_putArtifacts ordinary_covers) ht (fun _ _ _ => .error)
        fun artifacts t p ht hartifacts => ?_
      cases artifacts with
      | error failure => exact executeFailed_attends hid ht
      | ok artifacts =>
          refine Sound.tryCatch ((finishRun_attends hid rfl (fun x hx => ?_) ht).mono
            fun outcome t p h => ?_)
          · rcases List.mem_append.mp hx with hx | hx
            · rcases List.mem_append.mp hx with hx | hx
              · exact covered_logRows ordinary_covers x hx
              · exact covered_metricRows ordinary_covers x hx
            · exact hartifacts artifacts rfl x hx
          · cases outcome with
            | ok run => exact h
            | error x => exact .error h.1

/-- A run that is cancelled at a checkpoint is over. -/
def Checked (r : Uuid) (outcome : Except Exc (Bool × Run)) (t : Session) (p : Platform) : Prop :=
  (∀ x ∈ t.writes, x.Ordinary) ∧ ∀ x, outcome = .ok x → x.2.id = r ∧
    (x.1 → Concluded r (.ok x.2) t p)

theorem Checked.error {x : Exc} (ht : ∀ x ∈ t.writes, x.Ordinary) : Checked r (.error x) t p :=
  ⟨ht, fun _ h => by cases h⟩

theorem slowCheckpoints_attends {run : Run} {totalSteps : ℕ} {steps : List ℕ} (hid : run.id = r)
    (ht : ∀ x ∈ t.writes, x.Ordinary) :
    Attends e (Checked r) (slowCheckpoints run totalSteps steps) t p := by
  induction steps generalizing run t p with
  | nil =>
      refine ⟨ht, fun x hx => ?_⟩
      cases hx
      exact ⟨hid, fun h => by cases h⟩
  | cons step steps ih =>
      unfold slowCheckpoints
      refine Attends.stores refreshRun_stores ht (fun _ _ _ => .error) fun run' t p ht hid' => ?_
      replace hid := hid'.trans hid
      split
      · refine Sound.bind ((finishRun_attends hid rfl (by simp [Write.Ordinary]) ht).mono
          fun outcome t p h => ?_)
        cases outcome with
        | error x => exact .error h.1
        | ok run =>
            refine Sound.bind ((reload_attends h).mono fun outcome t p h => ?_)
            cases outcome with
            | error x => exact .error h.1
            | ok run =>
                refine ⟨h.1, fun x hx => ?_⟩
                cases hx
                exact ⟨(h.2 run rfl).1, fun _ => h⟩
      · exact Attends.commit (by simp [Write.Ordinary]) ht (fun _ _ _ => .error)
          fun i t p hwrites _ => ih hid (by simp [hwrites])

theorem finishSlowRun_attends {run : Run} {parameters : SlowDemoParameters} {totalSteps : ℕ}
    (hid : run.id = r) (ht : ∀ x ∈ t.writes, x.Ordinary) :
    Attends e (Concluded r) (finishSlowRun rt run parameters totalSteps) t p := by
  unfold finishSlowRun
  split
  · exact finishRun_reload_attends (by exact hid) rfl (by simp) ht
  · refine Attends.stores stores_call ht (fun _ _ _ => .error) fun input t p ht _ => ?_
    cases input.failure with
    | none => exact finishRun_reload_attends hid rfl (by simp [Write.Ordinary]) ht
    | some exc =>
        cases exc with
        | artifactStorage message => exact finishRun_reload_attends (by exact hid) rfl (by simp) ht
        | _ => exact .error ht

/-- Work on a run that returns has ended it. -/
theorem executeStarted_attends {run : Run} {template : TrainingTemplate} {validated : Parameters}
    (hid : run.id = r) (ht : ∀ x ∈ t.writes, x.Ordinary) :
    Attends e (Concluded r) (executeStarted rt run template validated) t p := by
  refine Attends.stores (.ofExcept (Q := fun _ => True) fun _ _ => trivial) ht (fun _ _ _ => .error)
    fun definition t p ht _ => ?_
  split
  · cases validated with
    | classification _ => exact .error ht
    | slowDemo parameters =>
        refine Attends.stores stores_call ht (fun _ _ _ => .error) fun _ t p ht _ => ?_
        refine Attends.commit (by simp [Write.Ordinary]) ht (fun _ _ _ => .error)
          fun i t p hwrites _ => ?_
        refine Sound.bind ((slowCheckpoints_attends hid (by simp [hwrites])).mono
          fun outcome t p h => ?_)
        cases outcome with
        | error x => exact .error h.1
        | ok x =>
            obtain ⟨hid, hcancelled⟩ := h.2 x rfl
            dsimp only
            split
            · next hx => exact hcancelled hx
            · exact finishSlowRun_attends hid h.1
  · refine Sound.bind ((executeTemplate_attends hid ht).mono fun outcome t p h => ?_)
    cases outcome with
    | ok run => exact reload_attends h
    | error exc => exact .error h.1

/-! ### The delivery -/

/-- Nothing has been written yet. -/
def Unwritten (t : Session) : Prop := t.writes = [] ∧ t.committed = []

theorem Unwritten.ordinary (h : Unwritten t) : ∀ x ∈ t.writes, x.Ordinary := by simp [h.1]

/-- The message is taken by another or given up, or the run that it announces is
over. -/
def Attended (k : Uuid) (e : EventEnvelope) (outcome : Except Exc α) (t : Session) (p : Platform) :
    Prop :=
  ∀ a, outcome = .ok a → (Unwritten t ∧ Taken k e.eventId p) ∨
    ((∀ x ∈ t.writes, x.Ordinary) ∧ ∃ r, e.runId = some r ∧ Ended r t.committed)

theorem Attended.error {x : Exc} : Attended (α := α) k e (.error x) t p := fun _ h => by cases h

/-- A statement that only reads, in a session that has written nothing. -/
theorem Attends.select {Q : Except Exc α → Session → Platform → Prop} {query : Db → β}
    {f : β → Program α} (ht : Unwritten t) (hQ : ∀ x t p, Q (.error x) t p)
    (hf : ∀ t' p', Unwritten t' → (∀ k, Pending k e p → Pending k e p') →
      Attends e Q (f (query p'.db)) t' p') :
    Attends e Q (session.select pt query >>= f) t p := by
  refine Sound.bind (Sound.stmt fun p' hp' => ⟨trivial, hQ _ _ _, fun i => ?_⟩)
  have hview : t.view storage p' = p' := by rw [Transact.Session.view, ht.1]; rfl
  simp only [Except.map, hview]
  exact hf (t.begin i) p' ht fun k => (hp'.rely k).1

theorem executeExistingRun_attends {token : Option Uuid} (hr : e.runId = some r)
    (htoken : e.leaseToken = .ok token) (ht : Unwritten t) (hpending : Pending k e p) :
    Attends e (Attended k e) (executeExistingRun rt r (some k) token) t p := by
  have hidle {t : Session} {p : Platform} {x : Option Run} (ht : Unwritten t) (h : Pending k e p)
      (hwaiting : ¬ Waiting k e p) : Attended k e (.ok x) t p :=
    fun _ _ => .inl ⟨ht, h.taken hwaiting⟩
  unfold executeExistingRun
  refine Attends.select ht (fun _ _ _ => .error) fun t p ht hlater => ?_
  replace hpending := hlater k hpending
  cases hget : p.db.runs.get? r with
  | none => exact hidle ht hpending (not_waiting_of_none hr hget)
  | some run =>
  have hid : run.id = r := Table.key_of_get? hget
  dsimp only
  split
  case isFalse hstatus => exact hidle ht hpending (not_waiting_of_status hr hget hstatus)
  case isTrue hstatus =>
  refine Attends.select ht (fun _ _ _ => .error) fun t p ht hlater => ?_
  replace hpending := hlater k hpending
  rw [hid]
  split
  case h_1 hnone => exact hidle ht hpending (not_waiting_of_unleased hr hnone)
  case h_2 allocation hfound =>
  split
  case isFalse hunclaimed =>
    exact hidle ht hpending (hpending.not_waiting_of_unclaimed hr htoken hfound hunclaimed)
  case isTrue =>
  refine Attends.select ht (fun _ _ _ => .error) fun t p ht _ => ?_
  cases p.db.templates.get? run.templateId with
  | none => exact .error
  | some template =>
  refine Attends.select ht (fun _ _ _ => .error) fun t p ht _ => ?_
  refine Attends.stores (.ofExcept (Q := fun _ => True) fun _ _ => trivial) ht.ordinary
    (fun _ _ _ _ => .error) fun validated t p ht _ => ?_
  refine Attends.stores transitionRun_stores ht (fun _ _ _ _ => .error) fun x t p ht hx => ?_
  obtain ⟨changed, event⟩ := x
  have hid' : changed.flushed.id = r := hx.1.trans hid
  refine Attends.commit (by simp [Write.Ordinary]) ht (fun _ _ _ _ => .error)
    fun i t p hwrites _ => ?_
  refine Sound.bind ((executeStarted_attends hid' (by simp [hwrites])).mono fun outcome t p h => ?_)
  -- the delivery has gone on with the run, so it returns only once the run is over
  cases outcome with
  | ok run => exact fun _ _ => .inr ⟨h.1, r, hr, (h.2 run rfl).2⟩
  | error x => exact .error

/-- What a delivery that returns leaves behind: an assignment of the worker is
entered as processed, and a run it has started is over. -/
def Resolved (e : EventEnvelope) (workerId : Option Uuid) (outcome : Except Exc α) (t : Session)
    (p : Platform) : Prop :=
  ∀ a, outcome = .ok a →
    (∀ k, Consumer.Addressed k e → workerId = none ∨ workerId = some k →
      Consumer.record k e ∈ p.db.processed) ∧
    ∀ r, e.runId = some r → 0 < startsOf r t.committed → Ended r t.committed

theorem Resolved.error {x : Exc} {workerId : Option Uuid} :
    Resolved (α := α) e workerId (.error x) t p := fun _ h => by cases h

theorem startsOf_unwritten (ht : Unwritten t) : ¬ 0 < startsOf r t.committed := by
  simp [ht.2, startsOf]

/-- The message is entered as processed once it is attended to. -/
theorem record_attends {a : α} {workerId : Option Uuid} (hworker : e.workerId = some k)
    (hrun : e.runId = some r) (ht : (Unwritten t ∧ Taken k e.eventId p) ∨
      ((∀ x ∈ t.writes, x.Ordinary) ∧ ∃ r, e.runId = some r ∧ Ended r t.committed)) :
    Attends e (Resolved e workerId) (do
      session.commit {} [.insertProcessed (Consumer.record k e)]
      .ret a) t p := by
  refine Sound.bind (Sound.bind (Sound.stmt fun p₁ h₁ => ⟨trivial, .error, fun i =>
    ⟨fun x _ => .error, fun _ => ?_⟩⟩))
  have hordinary : ∀ x ∈ t.writes, x.Ordinary := by
    rcases ht with ⟨ht, -⟩ | ⟨hwrites, -⟩
    · exact ht.ordinary
    · exact hwrites
  have hprocessed (p₂ : Platform) : (storage.applyAll p₂ (t.writes ++
      [.insertProcessed (Consumer.record k e)])).db.processed =
      p₂.db.processed ++ [Consumer.record k e] := by
    rw [Storage.applyAll_append]
    exact congrArg (· ++ [Consumer.record k e]) (processed_applyAll_ordinary hordinary p₂)
  refine Sound.stmt fun p₂ h₂ => ⟨trivial, .error, fun x hx => ?_, trivial, fun j => ?_⟩
  · rcases List.mem_append.mp (hprocessed p₂ ▸ hx) with hx | hx
    · exact .inl hx
    refine .inr ⟨k, r, List.mem_singleton.mp hx, hrun, ?_⟩
    rcases ht with ⟨ht, htaken⟩ | ⟨-, r', hr', hended⟩
    · -- to enter the message changes neither leases nor runs
      left
      have htaken₂ : Taken k e.eventId p₂ := (h₂.rely k).2 ((h₁.rely k).2 htaken)
      change Taken k e.eventId (storage.applyAll p₂ (t.writes ++ _))
      rw [ht.1]
      exact htaken₂
    · exact .inr (Option.some.inj (hrun.symm.trans hr') ▸ hended)
  · refine fun _ _ => ⟨fun k' haddressed _ => ?_, fun r' hr' hstarted => ?_⟩
    · obtain rfl : k = k' := Option.some.inj (hworker.symm.trans haddressed.2.2)
      exact hprocessed p₂ ▸ List.mem_append_right _ (List.mem_singleton_self _)
    · rcases ht with ⟨ht, -⟩ | ⟨-, r, hr, hended⟩
      · change 0 < startsOf r' (t.committed ++ (t.writes ++ _)) at hstarted
        simp [ht.1, ht.2, startsOf, Transact.Session.stamped, storage, Write.stamp] at hstarted
      · obtain rfl : r = r' := Option.some.inj (hr.symm.trans hr')
        exact hended.mono (List.subset_append_left _ _)

/-- Whatever the others do meanwhile, a delivery enters its message as processed
only when it is taken or its run is over, and returns only when it has. -/
theorem processEvent_attends {workerId : Option Uuid} (hpending : ∀ k, Pending k e p) :
    Attends e (Resolved e workerId) (processEvent rt e workerId) .fresh p := by
  have hunstarted {t : Session} (ht : Unwritten t) {r : Uuid} (h : 0 < startsOf r t.committed) :
      Ended r t.committed := absurd h (startsOf_unwritten ht)
  have hfresh : Unwritten .fresh := ⟨rfl, rfl⟩
  unfold processEvent
  split
  case isTrue hother =>
    refine fun _ _ => ⟨fun k haddressed hworker => ?_, fun r _ => hunstarted hfresh⟩
    obtain ⟨htype, hrun, heventWorker⟩ := haddressed
    rcases hother with h | h | h | ⟨h, h'⟩
    · exact absurd htype h
    · simp [h] at hrun
    · simp [h] at heventWorker
    · exact absurd (hworker.resolve_left h) fun hk => h' (heventWorker.trans hk.symm)
  case isFalse hsame =>
  unfold processAssignment
  split
  case h_2 hnone =>
    refine fun _ _ => ⟨fun k haddressed _ => ?_, fun r _ => hunstarted hfresh⟩
    obtain ⟨r, hr⟩ := Option.isSome_iff_exists.mp haddressed.2.1
    exact absurd haddressed.2.2 (hnone r k hr)
  case h_1 r k hr hk =>
  have hactive : workerId.getD k = k := by
    cases workerId with
    | none => rfl
    | some k' =>
        by_contra hne
        refine hsame (.inr (.inr (.inr ⟨Option.some_ne_none _, fun heq => hne ?_⟩)))
        exact (Option.some.inj (hk.symm.trans heq)).symm
  rw [hactive]
  refine Attends.select hfresh (fun _ _ _ => .error) fun t p ht hlater => ?_
  replace hpending := fun k => hlater k (hpending k)
  split
  case isTrue hprocessed =>
    refine fun _ _ => ⟨fun k' haddressed _ => ?_, fun r _ => hunstarted ht⟩
    obtain rfl : k = k' := Option.some.inj (hk.symm.trans haddressed.2.2)
    exact of_decide_eq_true hprocessed
  case isFalse =>
  refine Sound.bind ?_
  cases htoken : e.leaseToken with
  | error x => exact .error
  | ok token =>
      refine Sound.bind ((executeExistingRun_attends hr htoken ht (hpending k)).mono
        fun outcome t p h => ?_)
      cases outcome with
      | error x => exact .error
      | ok found => exact record_attends hk hr (h found rfl)

end Rules

end Runscope
