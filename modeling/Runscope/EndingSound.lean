import Runscope.CommandsSound
import Runscope.ReleaseSound

/-!
The endings of an execution keep the contract: the transition, what was
recorded before it and the release of the lease are committed together, and
only if nobody has written to the run since it was loaded.
-/

namespace Runscope

open Transact RunStatus

variable {m : Mode} {κ : Kind} {t : Session} {p : Platform}

theorem Write.records_inert {w : Write} {r : Uuid} (h : w.records? = some r) :
    w.run? = none ∧ w.worker? = none ∧ (∀ i, w.stamp i = w) ∧ (∀ x, w ≠ .insertOutbox x) ∧
      ∀ a, w ≠ .insertAllocation a := by
  cases w with
  | insertLog | insertMetric | insertArtifact => exact ⟨rfl, rfl, fun _ => rfl, nofun, nofun⟩
  | _ => cases h

/-- What the ending of a run writes before it releases the lease. -/
def endingWrites (added : List Write) (run : Run) (event : RunEvent) : List Write :=
  added ++ [.updateRun run, .insertEvent event]

/-- The ending of a run that was loaded when its view was `v`: the changed
copy, the transition, what is recorded and the lease that is released. -/
structure RunEnding (κ : Kind) (v : RunView) (loaded run : Run) (target : RunStatus) (lease : Lease)
    (added : List Write) (event : RunEvent) (a : ResourceAllocation) : Prop where
  row : v.run = some loaded
  active : v.active = [lease]
  status : (loaded.status, target) ∈
    [(running, succeeded), (running, failed), (cancelling, cancelled)]
  changed : ∃ now, run = { loaded with
    status := target, completedAt := some now, failureCode := run.failureCode
    failureMessage := run.failureMessage }
  code : run.failureCode.isSome ↔ target = failed
  message : run.failureMessage.isSome ↔ target = failed
  added : ∀ w ∈ added, w.records? = some loaded.id
  eventRun : event.runId = loaded.id
  previous : event.previousStatus = some loaded.status
  new : event.newStatus = some target
  allocation : a.lease = lease
  allocationRun : a.runId = loaded.id
  allows : κ.allows loaded.id (.finish target lease)

section Ending

variable {v : RunView} {loaded run : Run} {target : RunStatus} {lease : Lease}
  {added pending : List Write} {event : RunEvent} {a : ResourceAllocation} {time : Time}

theorem endingWrites_cases {w : Write} (h : w ∈ endingWrites added run event) :
    w ∈ added ∨ w = .updateRun run ∨ w = .insertEvent event := by
  simpa [endingWrites] using h

theorem endingWrites_stamp (hadded : ∀ w ∈ added, w.records? = some loaded.id) (i : Input) :
    (endingWrites added run event).map (Write.stamp i) =
      endingWrites added run { event with createdAt := i.clock } := by
  have hsame : added.map (Write.stamp i) = added :=
    (List.map_congr_left fun w hw => (Write.records_inert (hadded w hw)).2.2.1 i).trans
      (List.map_id added)
  rw [endingWrites, List.map_append, hsame]
  rfl

theorem onRun_added (hadded : ∀ w ∈ added, w.records? = some loaded.id) (v : RunView) :
    onRun loaded.id added v = v :=
  onRun_of_forall_ne (fun w hw => by simp [(Write.records_inert (hadded w hw)).1]) v

/-- Up to the release, the lease stays. -/
theorem endingWrites_active (hadded : ∀ w ∈ added, w.records? = some loaded.id) :
    (onRun loaded.id (endingWrites added run event) v).active = v.active := by
  rw [endingWrites, onRun_append, onRun_added hadded]
  simp only [onRun_cons, onRun_nil, Write.onRun]
  split_ifs <;> rfl

theorem endingWrites_worker (hadded : ∀ w ∈ added, w.records? = some loaded.id) {w : Write}
    (hw : w ∈ endingWrites added run event) : w.worker? = none := by
  rcases endingWrites_cases hw with hw | rfl | rfl
  · exact (Write.records_inert (hadded w hw)).2.1
  · rfl
  · rfl

theorem endingWrites_onWorker (hadded : ∀ w ∈ added, w.records? = some loaded.id) (id : Uuid)
    (v : WorkerView) : onWorker id (endingWrites added run event) v = v :=
  onWorker_of_forall_ne (fun w hw => by simp [endingWrites_worker hadded hw]) v

/-- The ending of a run keeps the books of its worker. -/
theorem ending_worker (hadded : ∀ w ∈ added, w.records? = some loaded.id)
    (hpending : ∃ worker, (p.db.workerView a.workerId).row = some worker ∧ worker.id = a.workerId ∧
      pending = [.updateWorker worker (worker.withLeases
        ((p.db.workerView a.workerId).leases.filter fun l => l.id ≠ a.id))]) :
    let v' := onWorker a.workerId (endingWrites added run event ++ [.releaseAllocation a time] ++ pending)
      (p.db.workerView a.workerId)
    v'.Balanced ∧ (p.db.workerView a.workerId).Shrinks v' := by
  obtain ⟨worker, hrow, hid, rfl⟩ := hpending
  generalize p.db.workerView a.workerId = v at *
  have hview : onWorker a.workerId (endingWrites added run event ++ [.releaseAllocation a time] ++
      [.updateWorker worker (worker.withLeases (v.leases.filter fun l => l.id ≠ a.id))]) v =
      ⟨some (worker.withLeases (v.leases.filter fun l => l.id ≠ a.id)),
        v.leases.filter fun l => l.id ≠ a.id⟩ := by
    rw [List.append_assoc, onWorker_append, endingWrites_onWorker hadded]
    exact onWorker_recounted hrow hid time
  intro v'
  rw [show v' = _ from hview]
  exact ⟨balanced_withLeases _ _, shrinks_recounted hrow⟩

namespace RunEnding

theorem runId (h : RunEnding κ v loaded run target lease added event a) : run.id = loaded.id := by
  obtain ⟨now, hrun⟩ := h.changed
  rw [hrun]

theorem finished (h : RunEnding κ v loaded run target lease added event a) : target.finished := by
  have hstatus := h.status
  simp only [List.mem_cons, Prod.mk.injEq, List.not_mem_nil, or_false] at hstatus
  rcases hstatus with ⟨-, rfl⟩ | ⟨-, rfl⟩ | ⟨-, rfl⟩ <;> rfl

/-- Only executions and recoveries end runs. -/
theorem submits (h : RunEnding κ v loaded run target lease added event a) : κ.submits = false := by
  have hallows := h.allows
  cases κ <;> first | rfl | cases hallows

/-- The ending of a run as a step in its life. -/
theorem step (h : RunEnding κ v loaded run target lease added event a) (time : Time) :
    RunStep (.finish target lease) v
      (onRun loaded.id (endingWrites added run event ++ [.releaseAllocation a time]) v) := by
  obtain ⟨now, hrun⟩ := h.changed
  have hstep := RunStep.finish v loaded target lease now time run.failureCode run.failureMessage
    (loaded.version + 1) h.row h.status (by omega) h.active h.code h.message
  have hstored : run.stored loaded = { loaded with
      status := target, completedAt := some now, failureCode := run.failureCode
      failureMessage := run.failureMessage, version := loaded.version + 1 } := by
    rw [Run.stored, hrun]
  have haId : a.id = lease.id := by rw [← h.allocation]; rfl
  rw [endingWrites, onRun_append, onRun_append, onRun_added h.added]
  simpa [Write.onRun, h.runId, h.row, h.eventRun, h.previous, h.new, h.allocationRun, haId,
    hstored] using hstep

/-- Everything an ending writes is about its run and its worker. -/
theorem cases (h : RunEnding κ v loaded run target lease added event a)
    (hupkeep : ∀ w ∈ pending, w.upkeep ∧ w.worker? = some a.workerId) {w : Write}
    (hw : w ∈ endingWrites added run event ++ [.releaseAllocation a time] ++ pending) :
    (w.run? = none ∨ w.run? = some loaded.id) ∧ (w.worker? = none ∨ w.worker? = some a.workerId) ∧
      (w.records? = none ∨ w.records? = some loaded.id) ∧ (∀ x, w ≠ .insertOutbox x) ∧
      w.founds = false ∧ ∀ x, w = .insertArtifact x → w ∈ added := by
  simp only [List.mem_append, List.mem_singleton] at hw
  rcases hw with (hw | rfl) | hw
  · rcases endingWrites_cases hw with hw | rfl | rfl
    · have hinert := Write.records_inert (h.added w hw)
      refine ⟨.inl hinert.1, .inl hinert.2.1, .inr (h.added w hw), hinert.2.2.2.1, ?_, fun _ _ => hw⟩
      have hrecords := h.added w hw
      cases w <;> first | rfl | cases hrecords
    · exact ⟨.inr (congrArg some h.runId), .inl rfl, .inl rfl, by simp, rfl, by simp⟩
    · exact ⟨.inr (by simp [Write.run?, h.new, h.eventRun]), .inl rfl, .inl rfl, by simp, rfl,
        by simp⟩
  · exact ⟨.inr (congrArg some h.allocationRun), .inr rfl, .inl rfl, by simp, rfl, by simp⟩
  · have hinert := Write.upkeep_inert (hupkeep w hw).1
    refine ⟨.inl hinert.1, .inr (hupkeep w hw).2, .inl hinert.2.1, hinert.2.2.2.1,
      Write.upkeep_founds (hupkeep w hw).1, ?_⟩
    rintro x rfl
    cases (hupkeep _ hw).1

/-- An ending may be committed as long as the run is as it was loaded. -/
theorem lawful (h : RunEnding κ v loaded run target lease added event a)
    (hupkeep : ∀ w ∈ pending, w.upkeep ∧ w.worker? = some a.workerId)
    (hview : p.db.runView loaded.id = v) (hstarted : 0 < startsOf loaded.id t.committed)
    (hworker : m.accounting → RowKey.worker a.workerId ∈ t.locks ∧
      ∃ worker, (p.db.workerView a.workerId).row = some worker ∧ worker.id = a.workerId ∧
        pending = [.updateWorker worker (worker.withLeases
          ((p.db.workerView a.workerId).leases.filter fun l => l.id ≠ a.id))])
    (hartifacts : m.exclusive → ∀ x, .insertArtifact x ∈ added → Described m.rt p x) :
    Lawful m κ t p (endingWrites added run event ++ [.releaseAllocation a time] ++ pending) := by
  have hcases (w : Write) := @cases κ v loaded run target lease added pending event a time h hupkeep w
  have hafter : onRun loaded.id (endingWrites added run event ++ [.releaseAllocation a time] ++
      pending) (p.db.runView loaded.id) =
      onRun loaded.id (endingWrites added run event ++ [.releaseAllocation a time]) v := by
    rw [hview, onRun_append, onRun_of_forall_ne fun w hw => by
      simp [(Write.upkeep_inert (hupkeep w hw).1).1]]
  constructor
  case runs =>
    intro r
    by_cases hr : r = loaded.id
    · subst hr
      rw [hafter, hview]
      exact .single _ h.allows (h.step time)
    · rw [onRun_of_forall_ne fun w hw => ?_]
      · exact .refl
      · rcases (hcases w hw).1 with h | h <;> simp [h, Ne.symm hr]
  case addressed => exact fun x hx => absurd rfl ((hcases _ hx).2.2.2.1 x)
  case workers =>
    intro hm id
    by_cases hid : id = a.workerId
    · subst hid
      obtain ⟨hlock, hpending⟩ := hworker hm
      obtain ⟨hbalanced, hshrinks⟩ := ending_worker h.added hpending
      exact .inr ⟨hlock, hbalanced, .inr (.inr hshrinks)⟩
    · refine .inl (onWorker_of_forall_ne (fun w hw => ?_) _)
      rcases (hcases w hw).2.1 with h | h <;> simp [h, Ne.symm hid]
  case records =>
    intro _ r hr w hw hrecords
    obtain rfl : r = loaded.id := by
      rcases (hcases w hw).2.2.1 with h | h
      · simp [h] at hrecords
      · exact Option.some.inj (hrecords.symm.trans h)
    obtain ⟨current, hget, hfinished⟩ := hr
    obtain rfl : current = loaded :=
      Option.some.inj ((hget.symm.trans (congrArg RunView.run hview)).trans h.row)
    have hstatus := h.status
    simp only [List.mem_cons, Prod.mk.injEq, List.not_mem_nil, or_false] at hstatus
    rcases hstatus with ⟨h, -⟩ | ⟨h, -⟩ | ⟨h, -⟩ <;> simp [h, RunStatus.finished] at hfinished
  case founding => exact .of_none h.submits fun w hw => (hcases w hw).2.2.2.2.1
  case own =>
    intro r
    by_cases hr : r = loaded.id
    · exact .inr (hr ▸ hstarted)
    · refine .inl fun w hw => ?_
      rcases (hcases w hw).2.2.1 with h | h <;> simp [h, Ne.symm hr]
  case artifacts =>
    intro hm x hx
    have hmem := (hcases _ hx).2.2.2.2.2 x rfl
    have hxr : x.runId = loaded.id := Option.some.inj (h.added _ hmem)
    obtain ⟨ended, hended, hstatus⟩ := (h.step time).ended
    rw [hxr, hafter]
    exact ⟨hartifacts hm x hmem, ended, hended, hstatus ▸ h.finished⟩

end RunEnding

end Ending

/-- A transition that ends a run ends its execution. -/
theorem ending_status {previous target : RunStatus} (htarget : target.finished)
    (hvalid : target ∈ validTransitions previous) :
    (previous, target) ∈ [(running, succeeded), (running, failed), (cancelling, cancelled)] := by
  cases previous <;> cases target <;> simp_all [validTransitions, RunStatus.finished]

theorem transitioned_of_finished {target : RunStatus} (htarget : target.finished) (run : Run)
    (now : Time) :
    run.transitioned target now = { run with status := target, completedAt := some now } := by
  cases target <;> simp_all [Run.transitioned, RunStatus.finished]

/-- Each row describes what was stored for it, and of what was stored under
one name the last stays. -/
def Stored (rt : Runtime) (p : Platform) : List Write → Prop
  | [] => True
  | .insertArtifact a :: ws =>
    ((∀ b, .insertArtifact b ∈ ws → b.name ≠ a.name) → Described rt p a) ∧ Stored rt p ws
  | _ :: ws => Stored rt p ws

section Stored

variable {rt : Runtime} {p' : Platform} {runId : Uuid} {ws after : List Write}

theorem Described.untouched {a : Artifact} (h : Described rt p a) (hp : Untouched a.runId p p') :
    Described rt p' a where
  storageKey := h.storageKey
  content := by
    have hsame := hp.content a.name
    rw [← h.storageKey] at hsame
    exact hsame.symm ▸ h.content

theorem Stored.untouched (hws : ∀ w ∈ ws, w.records? = some runId) (hp : Untouched runId p p')
    (h : Stored rt p ws) : Stored rt p' ws := by
  induction ws with
  | nil => trivial
  | cons w ws ih =>
      have hrest := ih fun w' hw' => hws w' (by simp [hw'])
      cases w with
      | insertArtifact a =>
          obtain rfl : a.runId = runId := Option.some.inj (hws (.insertArtifact a) (by simp))
          exact ⟨fun hlast => (h.1 hlast).untouched hp, hrest h.2⟩
      | _ => exact hrest h

theorem Stored.append_of_none (hws : ∀ a, .insertArtifact a ∉ ws) (h : Stored rt p after) :
    Stored rt p (ws ++ after) := by
  induction ws with
  | nil => exact h
  | cons w ws ih =>
      have hrest := ih fun a ha => hws a (by simp [ha])
      cases w with
      | insertArtifact a => exact absurd (by simp) (hws a)
      | _ => exact hrest

/-- The database accepts no second artifact of one name. -/
theorem name_ne_of_accepted {a b : Artifact} (ha : a ∈ p.db.artifacts) (hab : b.runId = a.runId)
    (hb : .insertArtifact b ∈ ws) (hacc : storage.firstError p ws = none) : b.name ≠ a.name := by
  obtain ⟨before, rest, rfl⟩ := List.append_of_mem hb
  obtain ⟨-, hrest⟩ := storage.firstError_append_eq_none.mp hacc
  have hcheck := (storage.firstError_cons_eq_none.mp hrest).1
  have hmem : a ∈ (storage.applyAll p before).db.artifacts := by
    rw [artifacts_applyAll]
    exact List.mem_append_left _ ha
  intro hname
  simp only [storage, Write.check] at hcheck
  split_ifs at hcheck with htaken
  exact htaken (List.any_eq_true.mpr ⟨a, hmem, by simp [hab, hname]⟩)

/-- Rows the database accepts describe what is stored. -/
theorem Stored.described {q : Platform} (hws : ∀ w ∈ ws, w.records? = some runId)
    (hacc : storage.firstError q (ws ++ after) = none) (h : Stored rt p ws) (a : Artifact)
    (ha : .insertArtifact a ∈ ws) : Described rt p a := by
  induction ws generalizing q with
  | nil => cases ha
  | cons w ws ih =>
      have hrest := (storage.firstError_cons_eq_none.mp hacc).2
      have hws' (w' : Write) (hw' : w' ∈ ws) := hws w' (by simp [hw'])
      rcases List.mem_cons.mp ha with rfl | ha
      · refine h.1 fun b hb => ?_
        have hab : b.runId = a.runId := by
          have hb' : some b.runId = some runId := hws' (.insertArtifact b) hb
          have ha' : some a.runId = some runId := hws (.insertArtifact a) (by simp)
          exact Option.some.inj (hb'.trans ha'.symm)
        refine name_ne_of_accepted ?_ hab (List.mem_append_left _ hb) hrest
        simp [storage, Write.apply, Write.applyDb]
      · refine ih hws' hrest ?_ ha
        cases w <;> first | exact h | exact h.2

end Stored

/-- The ending of a run, from the copy loaded when its view was `v`. -/
theorem finishRun_holds {Q : Outcome Run} {v : RunView} {loaded run : Run} {target : RunStatus}
    {eventType : String} {metadata : Record} {added : List Write} (hf : Fails m Q p)
    (hI : Invariant m p) (ht : t.writes = []) (hloaded : Loaded v loaded p)
    (hrun : run = { loaded with
      failureCode := run.failureCode, failureMessage := run.failureMessage })
    (htarget : target.finished)
    (hfailure : target ∈ validTransitions loaded.status →
      (run.failureCode.isSome ↔ target = failed) ∧ (run.failureMessage.isSome ↔ target = failed))
    (hallows : ∀ lease ∈ v.active, κ.allows loaded.id (.finish target lease))
    (hadded : ∀ w ∈ added, w.records? = some loaded.id)
    (hstarted : 0 < startsOf loaded.id t.committed)
    (hstored : m.exclusive → Stored m.rt p added)
    (hQ : ∀ p' t' run', Invariant m p' → Later p p' → t'.writes = [] → run'.id = loaded.id →
      Q (.ok run') t' p') :
    Holds m κ Q (finishRun run target eventType metadata added) t p := by
  have hid : run.id = loaded.id := by rw [hrun]
  have hstatus : run.status = loaded.status := by rw [hrun]
  refine .transitionRun hf hI fun p₁ t₁ now ht₁ hp₁ hvalid => ?_
  rw [hstatus] at hvalid
  have hending := ending_status htarget hvalid
  obtain ⟨hcode, hmessage⟩ := hfailure hvalid
  have hcoherent := hloaded.inv.present loaded hloaded.row
  obtain ⟨lease, hlease, -⟩ := hcoherent.leased (by
    simp only [List.mem_cons, Prod.mk.injEq, List.not_mem_nil, or_false] at hending
    rcases hending with ⟨h, -⟩ | ⟨h, -⟩ | ⟨h, -⟩ <;> simp [h, RunStatus.leased])
  have hwrites : t₁.writes = [] := ht₁.writes.trans ht
  have hlater₁ : Later p p₁ := .of_meanwhile hp₁
  generalize hended : run.transitioned target now = ended
  rw [transitioned_of_finished htarget] at hended
  have hendedEq : ended = { loaded with
      status := target, completedAt := some now, failureCode := ended.failureCode
      failureMessage := ended.failureMessage } := by
    rw [← hended, hrun]
  have hendedId : ended.id = loaded.id := by rw [hendedEq]
  let event (i : Input) : RunEvent :=
    { run.transitionEvent target eventType metadata with createdAt := i.clock }
  have hstamp (i : Input) : (endingWrites added ended
      (run.transitionEvent target eventType metadata)).map (Write.stamp i) =
      endingWrites added ended (event i) := endingWrites_stamp hadded i
  -- whenever the update is accepted, the run is as it was loaded
  have hview (p' : Platform) (hp' : Later p p') (i : Input) (after : List Write)
      (hacc : storage.firstError p' (endingWrites added ended (event i) ++ after) = none) :
      p'.db.runView loaded.id = v := by
    refine (hloaded.later hp').of_accepted added (.insertEvent (event i) :: after) ?_ (fun w hw => ?_)
      hendedId (by rw [hendedEq])
    · simpa [endingWrites] using hacc
    · simp [(Write.records_inert (hadded w hw)).1]
  have hone (p' : Platform) (i : Input) (ws : List Write) (hws : ws = t₁.writes ++
      (endingWrites added ended (run.transitionEvent target eventType metadata)).map (Write.stamp i))
      (hp' : Meanwhile m κ {} t₁ p₁ p') (hacc : storage.firstError p' ws = none) :
      (onRun ended.id ws (p'.db.runView ended.id)).active = [lease] := by
    rw [hwrites, List.nil_append, hstamp] at hws
    rw [hws, ← List.append_nil (endingWrites ..)] at hacc
    rw [hendedId, hws, hview p' (hlater₁.trans (.of_meanwhile hp')) i [] hacc,
      endingWrites_active hadded, hlease]
  refine .bind (releaseAllocation_holds (hf.later hlater₁).then (fun b hb => ?_) hone (by simp)
    fun p₂ i t₂ a time loaded' pending h₂ ha haRun hrec => ?_)
  · rcases endingWrites_cases hb with hb | hb | hb
    · exact (Write.records_inert (hadded _ hb)).2.2.2.2 b rfl
    · cases hb
    · cases hb
  have hupkeep := hrec.upkeep
  have hws₂ : t₂.writes = endingWrites added ended (event i) ++ [.releaseAllocation a time] := by
    rw [h₂.writes, hwrites, List.nil_append]
    exact congrArg (· ++ _) (hstamp i)
  have hlater₂ := hlater₁.trans h₂.later
  refine .commitAll (hf.later hlater₂) (upkeep_not_insertAllocation fun w hw => (hupkeep w hw).1)
    (fun p₃ j t₃ h₃ => ?_) fun p₃ j t₃ _ hinv hp₃ =>
      hQ _ _ _ hinv (hlater₂.trans hp₃) rfl hendedId
  rw [upkeep_stamp fun w hw => (hupkeep w hw).1] at h₃ ⊢
  have hacc := h₃.accepted
  have howned := h₃.owned
  rw [hws₂] at hacc howned ⊢
  have hview₃ : p₃.db.runView loaded.id = v := by
    refine hview p₃ (hlater₂.trans h₃.later) i ([.releaseAllocation a time] ++ pending) ?_
    rwa [← List.append_assoc]
  have hcommitted : t₃.committed = t.committed :=
    h₃.committed.trans (h₂.committed.trans ht₁.committed)
  have hmine : 0 < startsOf loaded.id t₁.committed := ht₁.committed ▸ hstarted
  have hend : RunEnding κ v loaded ended target lease added (event i) a := by
    refine ⟨hloaded.row, hlease, hending, ⟨now, hendedEq⟩, ?_, ?_, hadded, hid,
      congrArg some hstatus, rfl, ha, haRun.trans hendedId, hallows lease (by simp [hlease])⟩
    · rw [← hended]
      exact hcode
    · rw [← hended]
      exact hmessage
  refine hend.lawful hupkeep hview₃ (hcommitted ▸ hstarted) (fun hm => ?_) fun hm x hx => ?_
  · have hview₂ : p₂.db.runView loaded.id = v :=
      hview p₂ hlater₂ i [.releaseAllocation a time] (by rw [← hws₂, h₂.writes]; exact h₂.accepted)
    have hmem : a.lease ∈ (p₂.db.workerView a.workerId).leases := by
      have hactive : lease ∈ (p₂.db.runView loaded.id).active := by simp [hview₂, hlease]
      rw [← ha] at hactive
      exact mem_workerView_of_active hactive
    rw [hws₂, onWorker_append, endingWrites_onWorker hadded] at hrec
    obtain ⟨worker, hrow, hworker, -, hpending⟩ :=
      hrec.pending_eq hm (h₂.inv.capacity hm a.workerId) hmem
    have hupdated : updatedWorker pending = some a.workerId := by
      simp [hpending, updatedWorker, hworker]
    have hsame := h₃.meanwhile.rely.loaded hm (h₂.began (by simp)) a.workerId hupdated
    obtain ⟨w, hw⟩ : ∃ w, w ∈ pending := by simp [hpending]
    exact ⟨howned w (List.mem_append_right _ hw) _
      (Write.upkeep_locks (hupkeep w hw).1 (hupkeep w hw).2),
      worker, hsame ▸ hrow, hworker, hsame ▸ hpending⟩
  · have huntouched : Untouched loaded.id p p₃ :=
      ((hp₁.rely.own hm _ hstarted).trans (h₂.meanwhile.rely.own hm _ hmine)).trans
        (h₃.meanwhile.rely.own hm _ (h₂.committed ▸ hmine))
    rw [endingWrites, List.append_assoc, List.append_assoc] at hacc
    exact ((hstored hm).untouched hadded huntouched).described hadded hacc x hx

end Runscope
