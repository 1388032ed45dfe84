import Runscope.EndingSound

/-!
Executions keep the contract. From its start on a run is held by the executor
that started it: whatever lease the run still has is the one whose message
that executor is processing.
-/

namespace Runscope

open Transact RunStatus

variable {m : Mode} {κ : Kind} {t : Session} {p : Platform}

/-- Calls change nothing the invariant speaks of, except that a message may be
accepted by the broker and the object of an artifact replaced. -/
theorem Invariant.perform {c : Call} (hI : Invariant m p) (hc : ∀ e, c ≠ .publish e)
    (hput : ∀ key data, c = .put key data → m.exclusive → ∀ a ∈ p.db.artifacts, a.runId ≠ key.1)
    (i : Input) : Invariant m (c.perform i p) := by
  have htopic : (c.perform i p).topic = p.topic := by
    cases c with
    | publish e => exact absurd rfl (hc e)
    | put key data =>
        simp only [Call.perform]
        split <;> rfl
    | execute | pause => rfl
  exact hI.of_db_eq (c.perform_db i p) (htopic ▸ hI.topic) (hI.kept hput i)

theorem Later.perform (c : Call) (i : Input) (p : Platform) : Later p (c.perform i p) := fun r => by
  rw [c.perform_db i p]
  exact .refl

/-- The session has started the run and has nothing pending; as long as it is
the only one, the run has no artifacts yet. -/
structure Executing (m : Mode) (κ : Kind) (runId : Uuid) (t : Session) (p : Platform) : Prop where
  inv : Invariant m p
  writes : t.writes = []
  started : 0 < startsOf runId t.committed
  submits : κ.submits = false
  bare : m.exclusive → ∀ a ∈ p.db.artifacts, a.runId ≠ runId

namespace Executing

variable {runId : Uuid} {p' : Platform} {t' : Session} {pt : Point}

theorem later (h : Executing m κ runId t p) (hp : Meanwhile m κ pt t p p') :
    Executing m κ runId t p' where
  inv := hp.inv
  writes := h.writes
  started := h.started
  submits := h.submits
  bare hm a ha hrun := by
    have hartifacts : (p'.db.artifacts.filter fun x => x.runId = runId) =
        p.db.artifacts.filter fun x => x.runId = runId :=
      congrArg (fun x => x.2.2) (hp.rely.own hm runId h.started).records
    have hmem : a ∈ p.db.artifacts.filter fun x => x.runId = runId := by
      rw [← hartifacts]
      exact List.mem_filter.mpr ⟨ha, by simpa using hrun⟩
    exact h.bare hm a (List.mem_filter.mp hmem).1 hrun

theorem read (h : Executing m κ runId t p) (hwrites : t'.writes = t.writes)
    (hcommitted : t'.committed = t.committed) : Executing m κ runId t' p :=
  ⟨h.inv, hwrites.trans h.writes, hcommitted ▸ h.started, h.submits, h.bare⟩

/-- The executor may store objects of its run. -/
theorem perform {c : Call} (h : Executing m κ runId t p) (hc : ∀ e, c ≠ .publish e)
    (hput : ∀ key data, c = .put key data → key.1 = runId) (i : Input) :
    Executing m κ runId (t.record c) (c.perform i p) where
  inv := h.inv.perform hc (fun key data hkey hm => hput key data hkey ▸ h.bare hm) i
  writes := h.writes
  started := h.started
  submits := h.submits
  bare := by
    rw [c.perform_db i p]
    exact h.bare

/-- The telemetry of a run has been committed. -/
theorem recorded {ws : List Write} (h : Executing m κ runId t p)
    (hI : Invariant m (storage.applyAll p ws)) (hws : ∀ a, .insertArtifact a ∉ ws)
    (hcommitted : t'.committed = t.committed ++ ws) (hwrites : t'.writes = []) :
    Executing m κ runId t' (storage.applyAll p ws) where
  inv := hI
  writes := hwrites
  started := by
    rw [hcommitted, startsOf_append]
    exact Nat.lt_of_lt_of_le h.started (Nat.le_add_right _ _)
  submits := h.submits
  bare hm a ha := by
    rw [artifacts_applyAll] at ha
    rcases List.mem_append.mp ha with ha | ha
    · exact h.bare hm a ha
    · exact absurd (mem_artifact ha) (hws a)

end Executing

/-- A call of an executor, which stores objects of its run only. -/
theorem Executing.call {α β : Type} {Q : Outcome β} {c : Call} {runId : Uuid}
    {f : Reply Platform RowKey Input → α} {k : α → Program β} {pt : Point}
    (h : Executing m κ runId t p) (hc : ∀ e, c ≠ .publish e)
    (hput : ∀ key data, c = .put key data → key.1 = runId)
    (hneed : ∀ r, c = .execute r → executesOf r t.called < startsOf r t.committed)
    (hk : ∀ p' i, Meanwhile m κ pt t p p' →
      Executing m κ runId (t.record c) (c.perform i p') → Later p (c.perform i p') →
      Holds m κ Q (k (f ⟨t.view storage (c.perform i p'), fun _ => true, i⟩)) (t.record c)
        (c.perform i p')) : Holds m κ Q (Prog.stmt pt (.call c) f >>= k) t p := by
  refine .call (fun key data hkey => ?_) (fun _ _ => ⟨by simp, ?_⟩)
    (fun p' i hp' => ((h.later hp').perform hc hput i).inv) fun p' i hp' => ?_
  · rw [hput key data hkey]
    exact ⟨h.started, fun p' hp' => (h.later hp').bare⟩
  · exact fun r hr => hneed r (by simpa using hr)
  · exact hk p' i hp' ((h.later hp').perform hc hput i)
      ((Later.of_meanwhile hp').trans (.perform c i p'))

/-- Storing artifacts writes nothing to the database. -/
theorem putArtifacts_holds {Q : Outcome (Except (Bool × Exc) (List Write))} {runId : Uuid}
    {begun : Bool} {artifacts : List GeneratedArtifact} (ht : Executing m κ runId t p)
    (hfailed : ∀ p' t' failure, Executing m κ runId t' p' → Later p p' →
      Q (.ok (.error failure)) t' p')
    (h : ∀ p' t' added, Executing m κ runId t' p' → Later p p' →
      (∀ w ∈ added, w.records? = some runId) →
      (m.exclusive → Stored m.rt p' added ∧
        ∀ name, (∀ a, .insertArtifact a ∈ added → a.name ≠ name) →
          p'.content (runId, name) = p.content (runId, name)) → Q (.ok (.ok added)) t' p') :
    Holds m κ Q (putArtifacts m.rt runId begun artifacts) t p := by
  induction artifacts generalizing begun Q t p with
  | nil => exact h p t [] ht (.refl p) (by simp) fun _ => ⟨trivial, fun _ _ => rfl⟩
  | cons generated rest ih =>
      refine ht.call (by simp) (by simp +contextual [eq_comm]) (by simp) fun p₁ i hp₁ ht₁ hlater => ?_
      dsimp only
      cases hfailure : i.failure with
      | some exc => exact hfailed _ _ _ ht₁ hlater
      | none =>
          refine .bind (ih ht₁ (fun p₂ t₂ failure ht₂ hp₂ => hfailed p₂ t₂ _ ht₂ (hlater.trans hp₂))
            fun p₂ t₂ added ht₂ hp₂ hadded hstored => ?_)
          refine h p₂ t₂ _ ht₂ (hlater.trans hp₂) (fun w hw => ?_) fun hm => ?_
          · rcases List.mem_cons.mp hw with rfl | hw
            · rfl
            · exact hadded w hw
          · obtain ⟨hrest, hkept⟩ := hstored hm
            have hcontent (name : String) : (Call.perform (.put (runId, generated.name)
                generated.data) i p₁).content (runId, name) =
                if name = generated.name then some generated.data else p.content (runId, name) := by
              rw [← (hp₁.rely.own hm runId ht.started).content name, Platform.content,
                Call.perform]
              simp [hfailure, lastWritten_append, Platform.content]
            refine ⟨⟨fun hlast => ⟨rfl, generated.data, ?_, rfl, rfl⟩, hrest⟩, fun name hname => ?_⟩
            · rw [hkept generated.name hlast, hcontent, if_pos rfl]
            · have hne : name ≠ generated.name := fun heq => hname _ List.mem_cons_self heq.symm
              rw [hkept name fun a ha => hname a (by simp [ha]), hcontent, if_neg hne]

/-- From here on the run is the executor's: whatever lease it has is fenced by
the message. -/
def Owns (κ : Kind) (runId : Uuid) (p : Platform) : Prop :=
  (p.db.runView runId).Held fun lease => ∀ target, κ.allows runId (.finish target lease)

theorem Owns.later {runId : Uuid} {p p' : Platform} (h : Owns κ runId p) (hp : Later p p') :
    Owns κ runId p' := (hp runId).held h

section Executor

variable {Q : Outcome Run} {v : RunView} {run : Run}

/-- The run as it was loaded, by the executor it belongs to. -/
structure Mine (κ : Kind) (v : RunView) (run : Run) (p : Platform) : Prop where
  loaded : Loaded v run p
  held : v.Held fun lease => ∀ target, κ.allows run.id (.finish target lease)

theorem Mine.later {p p' : Platform} (h : Mine κ v run p) (hp : Later p p') : Mine κ v run p' :=
  ⟨h.loaded.later hp, h.held⟩

theorem Mine.owns (h : Mine κ v run p) : Owns κ run.id p := h.loaded.lives.held h.held

theorem Mine.of_get {r : Uuid} (hI : Invariant m p) (h : Owns κ r p)
    (hget : p.db.runs.get? r = some run) : Mine κ (p.db.runView run.id) run p := by
  obtain rfl := Table.key_of_get? hget
  exact ⟨.of_get hI hget, h⟩

theorem Mine.allows (h : Mine κ v run p) {lease : Lease} (hlease : lease ∈ v.active)
    (target : RunStatus) : κ.allows run.id (.finish target lease) := by
  obtain ⟨_, _, _, hheld⟩ := h.held
  exact hheld lease hlease target

/-- A run that has not failed has no failure recorded. -/
theorem Mine.failure (h : Mine κ v run p) {target : RunStatus} (htarget : target.finished)
    (hne : target ≠ failed) (hvalid : target ∈ validTransitions run.status) :
    (run.failureCode.isSome ↔ target = failed) ∧ (run.failureMessage.isSome ↔ target = failed) := by
  have hcoherent := h.loaded.inv.present run h.loaded.row
  have hstatus : run.status ≠ failed := by
    intro hstatus
    cases target <;> simp_all [validTransitions, RunStatus.finished]
  rw [hcoherent.failureCode, hcoherent.failureMessage]
  simp [hstatus, hne]

theorem records_logRows {runId : Uuid} {logs : List (String × String)} :
    ∀ w ∈ logRows runId logs, w.records? = some runId := by
  intro w hw
  obtain ⟨x, -, rfl⟩ := List.mem_map.mp hw
  rfl

theorem records_metricRows {runId : Uuid} {metrics : List (String × ℚ)} :
    ∀ w ∈ metricRows runId metrics, w.records? = some runId := by
  intro w hw
  obtain ⟨x, -, rfl⟩ := List.mem_map.mp hw
  rfl

theorem not_insertArtifact_logRows {runId : Uuid} {logs : List (String × String)} (a : Artifact) :
    .insertArtifact a ∉ logRows runId logs := by
  simp [logRows]

theorem not_insertArtifact_metricRows {runId : Uuid} {metrics : List (String × ℚ)} (a : Artifact) :
    .insertArtifact a ∉ metricRows runId metrics := by
  simp [metricRows]

/-- The failure handler, wherever the body has left the session. -/
theorem executeFailed_holds {begun : Bool} {exc : Exc} (hf : Fails m Q p) (hown : Owns κ run.id p)
    (hstarted : 0 < startsOf run.id t.committed)
    (hQ : ∀ p' t' run', Invariant m p' → Later p p' → t'.writes = [] → Q (.ok run') t' p') :
    Holds m κ Q (executeFailed run begun exc) t p := by
  refine .rollback hf fun p₁ hp₁ => ?_
  have hlater₁ : Later p p₁ := .of_meanwhile hp₁
  split
  · exact hf _ _ _ hp₁.inv hlater₁
  · refine .getRun (hf.later hlater₁) fun p₂ i₂ hp₂ => ?_
    have hlater₂ := hlater₁.trans (.of_meanwhile hp₂)
    rw [Session.view_close]
    cases hget : p₂.db.runs.get? run.id with
    | none => exact hf _ _ _ hp₂.inv hlater₂
    | some failedRun =>
        have hid := Table.key_of_get? hget
        have hmine : Mine κ (p₂.db.runView failedRun.id) failedRun p₂ :=
          .of_get hp₂.inv (hown.later hlater₂) hget
        have hfinish (changed : Run) (hchanged : changed = { failedRun with
              failureCode := changed.failureCode, failureMessage := changed.failureMessage })
            (hcode : changed.failureCode.isSome) (hmessage : changed.failureMessage.isSome) :
            Holds m κ Q (finishRun changed .failed "run.failed" [] []) (t.close.begin i₂) p₂ :=
          finishRun_holds (hf.later hlater₂) hp₂.inv rfl hmine.loaded hchanged rfl
            (fun _ => by simp [hcode, hmessage]) (fun lease hlease => hmine.allows hlease _) (by simp)
            (by rw [hid]; exact hstarted) (fun _ => trivial)
            fun p₃ t₃ run' hI₃ hp₃ ht₃ _ => hQ p₃ t₃ run' hI₃ (hlater₂.trans hp₃) ht₃
        dsimp only
        split
        · exact hfinish _ rfl rfl rfl
        · exact hfinish _ rfl rfl rfl

theorem executeTemplate_holds {definition : TemplateDefinition} (hf : Fails m Q p)
    (ht : Executing m κ run.id t p) (hrun : Mine κ v run p)
    (hstart : executesOf run.id t.called < startsOf run.id t.committed)
    (hQ : ∀ p' t' run', Invariant m p' → Later p p' → t'.writes = [] → Q (.ok run') t' p') :
    Holds m κ Q (executeTemplate m.rt definition run) t p := by
  have hhandler {p' : Platform} {t' : Session} (begun : Bool) (exc : Exc)
      (ht' : Executing m κ run.id t' p') (hp' : Later p p') :
      Holds m κ Q (executeFailed run begun exc) t' p' :=
    executeFailed_holds (hf.later hp') (hrun.owns.later hp') ht'.started
      fun p₂ t₂ run₂ hI₂ hp₂ ht₂ => hQ p₂ t₂ run₂ hI₂ (hp'.trans hp₂) ht₂
  rw [executeTemplate]
  split
  · refine ht.call (by simp) (by simp) (by simpa using hstart) fun p₁ i hp₁ ht₁ hlater => ?_
    dsimp only
    split
    · exact hhandler false _ ht₁ hlater
    · refine .bind (putArtifacts_holds ht₁
        (fun p₂ t₂ failure ht₂ hp₂ => hhandler failure.1 failure.2 ht₂ (hlater.trans hp₂))
        fun p₂ t₂ artifacts ht₂ hp₂ hartifacts hstored => ?_)
      have hlater₂ := hlater.trans hp₂
      have hmine := hrun.later hlater₂
      refine Sound.tryCatch (finishRun_holds
        (fun e t₃ p₃ hI₃ hp₃ => hf _ _ _ hI₃ (hlater₂.trans hp₃))
        ht₂.inv ht₂.writes hmine.loaded rfl rfl
        (hmine.failure rfl (by simp)) (fun lease hlease => hmine.allows hlease _) (fun w hw => ?_)
        ht₂.started (fun hm => ?_)
        fun p₃ t₃ run' hI₃ hp₃ ht₃ _ => hQ p₃ t₃ run' hI₃ (hlater₂.trans hp₃) ht₃)
      · simp only [List.mem_append] at hw
        rcases hw with (hw | hw) | hw
        · exact records_logRows w hw
        · exact records_metricRows w hw
        · exact hartifacts w hw
      · rw [List.append_assoc]
        exact .append_of_none not_insertArtifact_logRows
          (.append_of_none not_insertArtifact_metricRows (hstored hm).1)
  · exact hhandler false _ ht (.refl p)

/-- Telemetry of a run that is not finished. -/
theorem Lawful.of_records {t' : Session} {ws : List Write} {r : Uuid} (hκ : κ.submits = false)
    (hstarted : 0 < startsOf r t'.committed) (hartifacts : ∀ a, .insertArtifact a ∉ ws)
    (hws : ∀ w ∈ ws, w.records? = some r) (hr : m.telemetry → ¬ p.db.finished r) :
    Lawful m κ t' p ws where
  runs r' := by
    rw [onRun_of_forall_ne fun w hw => by simp [(Write.records_inert (hws w hw)).1]]
    exact .refl
  addressed x hx := absurd rfl ((Write.records_inert (hws _ hx)).2.2.2.1 x)
  workers _ id := .inl (onWorker_of_forall_ne
    (fun w hw => by simp [(Write.records_inert (hws w hw)).2.1]) _)
  records hm r' hr' w hw hrecords := by
    obtain rfl : r' = r := Option.some.inj (hrecords.symm.trans (hws w hw))
    exact hr hm hr'
  founding := .of_none hκ fun w hw => by
    have hrecords := hws w hw
    cases w <;> first | rfl | cases hrecords
  own r' := by
    by_cases hr' : r' = r
    · exact .inr (hr' ▸ hstarted)
    · exact .inl fun w hw => by simp [hws w hw, Ne.symm hr']
  artifacts _ a ha := absurd ha (hartifacts a)

/-- A commit of telemetry in a transaction of its own. -/
theorem Holds.commitRecords {α : Type} {Q : Outcome α} {pending : List Write}
    {k : Unit → Program α} {r : Uuid} (hf : Fails m Q p) (ht : Executing m κ r t p)
    (hws : ∀ w ∈ pending, w.records? = some r) (hartifacts : ∀ a, .insertArtifact a ∉ pending)
    (hr : m.telemetry → ¬ p.db.finished r)
    (hk : ∀ p' t', Executing m κ r t' p' → Later p p' → (m.telemetry → ¬ p'.db.finished r) →
      Holds m κ Q (k ()) t' p') :
    Holds m κ Q (session.commit { records := some r } pending >>= k) t p := by
  have hstamp (i : Input) : pending.map (Write.stamp i) = pending :=
    (List.map_congr_left fun w hw => (Write.records_inert (hws w hw)).2.2.1 i).trans
      (List.map_id pending)
  have hactive (a : ResourceAllocation) : .insertAllocation a ∉ pending :=
    fun ha => (Write.records_inert (hws _ ha)).2.2.2.2 a rfl
  refine .commitFirst hf ht.writes hactive (fun p' i t' hc hacc => ?_)
    fun p' i t' hc hwrites hI hp' => ?_
  · rw [hstamp]
    exact .of_records ht.submits (hc.committed ▸ ht.started) hartifacts hws fun hm hfin =>
      hr hm (hc.meanwhile.rely.records hm r rfl hfin)
  · rw [hstamp] at hwrites
    refine hk _ _ ?_ hp' fun hm hfin => hr hm (hc.meanwhile.rely.records hm r rfl ?_)
    · rw [Session.view, hwrites] at hI ⊢
      refine (ht.later hc.meanwhile).recorded hI hartifacts ?_ rfl
      rw [Session.finish_committed, hc.committed, hwrites]
    have hview : (t'.view storage p').db.runView r = p'.db.runView r := by
      have hacc : storage.firstError p' t'.writes = none := hc.writes ▸ hc.accepted
      have happly : (t'.view storage p').db.runView r = onRun r t'.writes (p'.db.runView r) :=
        runView_applyAll hacc r
      rw [happly, hwrites]
      exact onRun_of_forall_ne (fun w hw => by simp [(Write.records_inert (hws w hw)).1]) _
    obtain ⟨run, hget, hfinished⟩ := hfin
    exact ⟨run, (congrArg RunView.run hview).symm.trans hget, hfinished⟩

/-- The checkpoints, from one to the next. -/
theorem slowCheckpoints_holds {Q : Outcome (Bool × Run)} {totalSteps : ℕ} {steps : List ℕ}
    (hf : Fails m Q p) (ht : Executing m κ run.id t p) (hrun : Mine κ v run p)
    (hopen : m.telemetry → ¬ p.db.finished run.id)
    (hcancelled : ∀ p' t' run', Invariant m p' → Later p p' → t'.writes = [] →
      Q (.ok (true, run')) t' p')
    (hQ : ∀ p' t' v' run', Executing m κ run'.id t' p' → Later p p' → Mine κ v' run' p' →
      Q (.ok (false, run')) t' p') :
    Holds m κ Q (slowCheckpoints run totalSteps steps) t p := by
  induction steps generalizing t p v run with
  | nil => exact hQ p t v run ht (.refl p) hrun
  | cons step steps ih =>
      refine .bind (.refreshRun hf.then fun p₁ i₁ current hp₁ hget => ?_)
      have hlater₁ : Later p p₁ := .of_meanwhile hp₁
      rw [Session.view, ht.writes, Storage.applyAll_nil] at hget
      have hid := Table.key_of_get? hget
      have hmine : Mine κ (p₁.db.runView current.id) current p₁ :=
        .of_get hp₁.inv (hrun.owns.later hlater₁) hget
      have ht₁ : Executing m κ current.id (t.begin i₁) p₁ := hid ▸ (ht.later hp₁).read rfl rfl
      have hopen₁ : m.telemetry → ¬ p₁.db.finished current.id := fun hm hfin =>
        hopen hm (hid ▸ hp₁.rely.records hm run.id rfl (hid ▸ hfin))
      change Holds m κ Q (if current.status = .cancelling then _ else _) _ _
      split
      · refine .bind (finishRun_holds (hf.later hlater₁).then ht₁.inv ht₁.writes hmine.loaded rfl rfl
          (hmine.failure rfl (by simp)) (fun lease hlease => hmine.allows hlease _)
          (by simp [Write.records?]) ht₁.started (fun _ => trivial)
          fun p₂ t₂ run₂ hI₂ hp₂ ht₂ _ => ?_)
        have hlater₂ := hlater₁.trans hp₂
        refine .bind (.refreshRun (hf.later hlater₂).then fun p₃ i₃ run₃ hp₃ _ => ?_)
        exact hcancelled p₃ _ run₃ hp₃.inv (hlater₂.trans (.of_meanwhile hp₃)) ht₂
      · refine .commitRecords (hf.later hlater₁) ht₁ (by simp [Write.records?]) (by simp) hopen₁
          fun p₂ t₂ ht₂ hp₂ hopen₂ => ?_
        have hlater₂ := hlater₁.trans hp₂
        exact ih (hf.later hlater₂) ht₂ (hmine.later hp₂) hopen₂
          (fun p₃ t₃ run₃ hI₃ hp₃ ht₃ => hcancelled p₃ t₃ run₃ hI₃ (hlater₂.trans hp₃) ht₃)
          fun p₃ t₃ v₃ run₃ ht₃ hp₃ hrun₃ => hQ p₃ t₃ v₃ run₃ ht₃ (hlater₂.trans hp₃) hrun₃

theorem finishSlowRun_holds {parameters : SlowDemoParameters} {totalSteps : ℕ} (hf : Fails m Q p)
    (ht : Executing m κ run.id t p) (hrun : Mine κ v run p)
    (hQ : ∀ p' t' run', Invariant m p' → Later p p' → t'.writes = [] → Q (.ok run') t' p') :
    Holds m κ Q (finishSlowRun m.rt run parameters totalSteps) t p := by
  -- every branch finishes the run and reads it back
  have hfinish {p' : Platform} {t' : Session} (ht' : Executing m κ run.id t' p') (hp' : Later p p')
      (changed : Run) (hchanged : changed = { run with
        failureCode := changed.failureCode, failureMessage := changed.failureMessage })
      (target : RunStatus) (htarget : target.finished)
      (hfailure : target ∈ validTransitions run.status →
        (changed.failureCode.isSome ↔ target = failed) ∧
          (changed.failureMessage.isSome ↔ target = failed))
      (eventType : String) (metadata : Record) (added : List Write)
      (hadded : ∀ w ∈ added, w.records? = some run.id) (hstored : m.exclusive → Stored m.rt p' added) :
      Holds m κ Q (finishRun changed target eventType metadata added >>= session.refreshRun {})
        t' p' := by
    have hmine := hrun.later hp'
    refine .bind (finishRun_holds (hf.later hp').then ht'.inv ht'.writes hmine.loaded hchanged
      htarget hfailure (fun lease hlease => hmine.allows hlease _) hadded ht'.started hstored
      fun p₁ t₁ run₁ hI₁ hp₁ ht₁ _ => ?_)
    have hlater₁ := hp'.trans hp₁
    exact .refreshRun (hf.later hlater₁) fun p₂ i₂ run₂ hp₂ _ =>
      hQ p₂ _ run₂ hp₂.inv (hlater₁.trans (.of_meanwhile hp₂)) ht₁
  rw [finishSlowRun]
  split
  · exact hfinish ht (.refl p) (run.withFailure _ _) rfl failed rfl
      (fun _ => by simp [Run.withFailure]) _ _ [] (by simp) fun _ => trivial
  · refine ht.call (by simp) (by simp +contextual [eq_comm]) (by simp) fun p₁ i hp₁ ht₁ hlater => ?_
    dsimp only
    split
    · exact hfinish ht₁ hlater (run.withFailure _ _) rfl failed rfl
        (fun _ => by simp [Run.withFailure]) _ _ [] (by simp) fun _ => trivial
    · exact hf _ _ _ ht₁.inv hlater
    · next hfailure =>
      have hcontent : (Call.perform (.put (run.id, "progress.json") (progressJson totalSteps)) i
          p₁).content (run.id, "progress.json") = some (progressJson totalSteps) := by
        simp [Platform.content, Call.perform, hfailure, lastWritten_append]
      refine hfinish ht₁ hlater run rfl succeeded rfl (hrun.failure rfl (by simp)) _ _
        [.insertArtifact _] ?_ fun _ => ?_
      · simp [Write.records?]
      · exact ⟨fun _ => ⟨rfl, _, hcontent, rfl, rfl⟩, trivial⟩

theorem executeSlowRun_holds {parameters : SlowDemoParameters} (hf : Fails m Q p)
    (ht : Executing m κ run.id t p) (hrun : Mine κ v run p)
    (hstart : executesOf run.id t.called < startsOf run.id t.committed)
    (hopen : m.telemetry → ¬ p.db.finished run.id)
    (hQ : ∀ p' t' run', Invariant m p' → Later p p' → t'.writes = [] → Q (.ok run') t' p') :
    Holds m κ Q (executeSlowRun m.rt run parameters) t p := by
  refine ht.call (by simp) (by simp) (by simpa using hstart) fun p₁ i hp₁ ht₁ hlater₁ => ?_
  refine .commitRecords (hf.later hlater₁) ht₁ (by simp [Write.records?]) (by simp)
    (fun hm hfin => hopen hm (hp₁.rely.records hm run.id rfl hfin)) fun p₂ t₂ ht₂ hp₂ hopen₂ => ?_
  have hlater₂ := hlater₁.trans hp₂
  refine .bind (slowCheckpoints_holds (hf.later hlater₂).then ht₂ (hrun.later hlater₂) hopen₂
    (fun p₃ t₃ run₃ hI₃ hp₃ ht₃ => hQ p₃ t₃ run₃ hI₃ (hlater₂.trans hp₃) ht₃)
    fun p₃ t₃ v₃ run₃ ht₃ hp₃ hrun₃ => ?_)
  have hlater₃ := hlater₂.trans hp₃
  exact finishSlowRun_holds (hf.later hlater₃) ht₃ hrun₃ fun p₄ t₄ run₄ hI₄ hp₄ ht₄ =>
    hQ p₄ t₄ run₄ hI₄ (hlater₃.trans hp₄) ht₄

theorem executeStarted_holds {template : TrainingTemplate} {validated : Parameters}
    (hf : Fails m Q p) (ht : Executing m κ run.id t p) (hrun : Mine κ v run p)
    (hstart : executesOf run.id t.called < startsOf run.id t.committed)
    (hopen : m.telemetry → ¬ p.db.finished run.id)
    (hQ : ∀ p' t' run', Invariant m p' → Later p p' → t'.writes = [] → Q (.ok run') t' p') :
    Holds m κ Q (executeStarted m.rt run template validated) t p := by
  refine .ofExcept hf ht.inv fun definition _ => ?_
  split
  · split
    · exact executeSlowRun_holds hf ht hrun hstart hopen hQ
    · exact hf _ _ _ ht.inv (.refl p)
  · have hrefresh {p' : Platform} {t' : Session} {run' : Run} (hp' : Later p p')
        (ht' : t'.writes = []) : Holds m κ Q (session.refreshRun {} run') t' p' :=
      .refreshRun (hf.later hp') fun p₂ i₂ run₂ hp₂ _ =>
        hQ p₂ _ run₂ hp₂.inv (hp'.trans (.of_meanwhile hp₂)) ht'
    exact .bind (executeTemplate_holds hf.then ht hrun hstart
      fun p' t' run' _ hp' ht' => hrefresh hp' ht')

end Executor

/-- What an assignment message says of its token is what the lease says. -/
theorem Carries.leaseToken {message : EventEnvelope} {lease : Lease} (h : Carries message lease) :
    message.leaseToken = .ok (some lease.leaseToken) := by
  simp [EventEnvelope.leaseToken, h.payload, Lease.payload, Record.get?]

/-- The lease an execution claims is fenced by the message. -/
theorem fences_of_claimed {v : RunView} {run : Run} {event : EventEnvelope}
    {workerId token : Option Uuid} {eventWorkerId : Uuid} {a : ResourceAllocation}
    (hv : v.Coherent run) (hevent : event ∈ v.messages) (htype : event.eventType = "run.assigned")
    (hworker : event.workerId = some eventWorkerId) (htoken : event.leaseToken = .ok token)
    (ha : a.claimedBy (some (workerId.getD eventWorkerId)) token) : event.fences workerId a.lease := by
  have hsent : event ∈ v.sent "run.assigned" := List.mem_filter.mpr ⟨hevent, by simpa using htype⟩
  obtain ⟨lease, -, hcarries⟩ := carries_of_mem hv.assigned hsent
  rw [hcarries.leaseToken, Except.ok.injEq] at htoken
  simp only [ResourceAllocation.claimedBy, ← htoken, reduceCtorEq, Option.some.injEq, false_or,
    Bool.decide_and, Bool.and_eq_true, decide_eq_true_eq] at ha
  refine ⟨?_, eventWorkerId, hworker, ha.1.symm⟩
  rw [hcarries.leaseToken, ha.2]
  rfl

section Delivery

variable {event : EventEnvelope} {workerId : Option Uuid}

/-- The start of a run as a step in its life. -/
theorem start_step {v : RunView} {loaded : Run} {lease : Lease} {event : RunEvent} {now : Time}
    (hrow : v.run = some loaded) (hstatus : loaded.status = scheduling) (hlease : v.active = [lease])
    (hevent : event.runId = loaded.id ∧ event.previousStatus = some scheduling ∧
      event.newStatus = some running) :
    RunStep (.start lease) v (onRun loaded.id
      [.updateRun (loaded.transitioned running now), .insertEvent event] v) := by
  obtain ⟨hevent, hprevious, hnew⟩ := hevent
  have hstep := RunStep.start v loaded lease now (loaded.version + 1) hrow hstatus (by omega) hlease
  simpa [Write.onRun, hrow, hevent, hprevious, hnew, Run.stored, Run.transitioned] using hstep

/-- An allocation read for a loaded run is its lease, if the run turns out not
to have moved. -/
theorem active_of_find {v : RunView} {run : Run} {p₁ p₂ p₃ : Platform} {a : ResourceAllocation}
    (hloaded : Loaded v run p₁) (hstatus : run.status = scheduling) (hp₂ : Later p₁ p₂)
    (hp₃ : Later p₂ p₃) (hview : p₃.db.runView run.id = v)
    (hfind : p₂.db.activeAllocations.find? (fun a => a.runId = run.id) = some a) :
    v.active = [a.lease] := by
  have hsame : p₂.db.runView run.id = v :=
    Lives.eq_of_between (hloaded.lives.trans (hp₂ run.id)) (hp₃ run.id) hview
  have hmem : a.lease ∈ v.active := by
    rw [← hsame, active_runView]
    refine List.mem_map.mpr ⟨a, List.mem_filter.mpr ⟨List.mem_of_find?_eq_some hfind, ?_⟩, rfl⟩
    simpa using List.find?_some hfind
  obtain ⟨lease, hlease, -⟩ := (hloaded.inv.present run hloaded.row).leased
    (by simp [hstatus, RunStatus.leased])
  rw [hlease, List.mem_singleton] at hmem
  rw [hlease, hmem]

theorem executeExistingRun_holds {Q : Outcome (Option Run)} {runId eventWorkerId : Uuid}
    {token : Option Uuid} (hf : Fails m Q p) (ht : t.writes = [])
    (hcalled : ∀ r, executesOf r t.called = 0) (hrunId : event.runId = some runId)
    (hworker : event.workerId = some eventWorkerId) (htype : event.eventType = "run.assigned")
    (htoken : event.leaseToken = .ok token) (hevent : event ∈ (p.db.runView runId).messages)
    (hQ : ∀ p' t' x, Invariant m p' → Later p p' → t'.writes = [] → Q (.ok x) t' p') :
    Holds m (.processEvent event workerId) Q
      (executeExistingRun m.rt runId (some (workerId.getD eventWorkerId)) token) t p := by
  refine .getRun hf fun p₁ i₁ hp₁ => ?_
  have hlater₁ : Later p p₁ := .of_meanwhile hp₁
  rw [Session.view, ht, Storage.applyAll_nil]
  cases hget : p₁.db.runs.get? runId with
  | none => exact hQ p₁ _ none hp₁.inv hlater₁ ht
  | some run =>
      obtain rfl := Table.key_of_get? hget
      have hloaded : Loaded (p₁.db.runView run.id) run p₁ := .of_get hp₁.inv hget
      have hcoherent := hloaded.inv.present run hloaded.row
      dsimp only
      split
      · next hstatus =>
        refine .select (hf.later hlater₁) fun p₂ i₂ hp₂ => ?_
        have hlater₂ := hlater₁.trans (.of_meanwhile hp₂)
        rw [Session.view, Session.begin_writes, ht, Storage.applyAll_nil]
        cases hfind : p₂.db.activeAllocations.find? fun a => a.runId = run.id with
        | none => exact hQ p₂ _ (some run) hp₂.inv hlater₂ ht
        | some allocation =>
            dsimp only
            split
            · next hclaimed =>
              refine .select (hf.later hlater₂) fun p₃ i₃ hp₃ => ?_
              have hlater₃ := hlater₂.trans (.of_meanwhile hp₃)
              split
              · exact hf _ _ _ hp₃.inv hlater₃
              · refine .select (hf.later hlater₃) fun p₄ i₄ hp₄ => ?_
                have hlater₄ := hlater₃.trans (.of_meanwhile hp₄)
                refine .ofExcept (hf.later hlater₄) hp₄.inv fun validated _ => ?_
                refine .transitionRun (hf.later hlater₄) hp₄.inv fun p₅ t₅ now ht₅ hp₅ _ => ?_
                have hlater₅ := hlater₄.trans (.of_meanwhile hp₅)
                have hthen : Later p₂ p₅ := ((Later.of_meanwhile hp₃).trans (.of_meanwhile hp₄)).trans
                  (.of_meanwhile hp₅)
                have hmessage : event ∈ (p₁.db.runView run.id).messages :=
                  (hlater₁ run.id).messages hevent
                have hfences := fences_of_claimed hcoherent hmessage htype hworker htoken hclaimed
                -- the update is accepted only if the run still has the lease read above
                have hbegin (p' : Platform) (hp' : Later p₅ p') (after : List Write)
                    (hacc : storage.firstError p' (.updateRun (run.transitioned running now) :: after) =
                      none) : p'.db.runView run.id = p₁.db.runView run.id ∧
                        (p₁.db.runView run.id).active = [allocation.lease] := by
                  have hlater := (Later.of_meanwhile hp₂).trans (hthen.trans hp')
                  have hview := (hloaded.later hlater).of_accepted_head hacc rfl rfl
                  exact ⟨hview, active_of_find hloaded hstatus (.of_meanwhile hp₂) (hthen.trans hp')
                    hview hfind⟩
                refine .commitFirst (hf.later hlater₅) (ht₅.writes.trans ht) (by simp)
                  (fun p₆ j t₆ h₆ hacc => ?_) fun p₆ j t₆ h₆ hwrites hI₆ hp₆ => ?_
                · obtain ⟨hview, hlease⟩ := hbegin p₆ h₆.later _ hacc
                  refine .of_quiet_run run.id ?_ (by simp [Write.stamp, Write.run?, Run.transitionEvent])
                    (by simp [Write.stamp])
                    (by simp [Write.stamp, Write.quiet, Write.worker?, Write.records?])
                    (.of_none rfl (by simp [Write.stamp, Write.founds]))
                  rw [hview]
                  exact .single (.start allocation.lease) ⟨hrunId, hfences⟩
                    (start_step hloaded.row hstatus hlease ⟨rfl, congrArg some hstatus, rfl⟩)
                · have hacc : storage.firstError p₆ t₆.writes = none := h₆.writes ▸ h₆.accepted
                  obtain ⟨hview, hlease⟩ := hbegin p₆ h₆.later _ (hwrites ▸ hacc)
                  have hafter : (t₆.view storage p₆).db.runView run.id = onRun run.id t₆.writes
                      (p₁.db.runView run.id) := hview ▸ runView_applyAll hacc run.id
                  have hrow : (t₆.view storage p₆).db.runs.get? run.id =
                      some (run.transitioned running now).flushed := by
                    have hrun := congrArg RunView.run hafter
                    rw [hwrites] at hrun
                    change ((t₆.view storage p₆).db.runView run.id).run = _
                    simpa [Write.stamp, Write.onRun, Run.transitionEvent, hloaded.row, Run.stored,
                      Run.flushed, Run.transitioned] using hrun
                  have hactive : ((t₆.view storage p₆).db.runView run.id).active =
                      [allocation.lease] := by
                    rw [hafter, hwrites, ← hlease]
                    simp [Write.stamp, Write.onRun, Run.transitionEvent, RunView.active]
                  have hmine : Mine (.processEvent event workerId)
                      ((t₆.view storage p₆).db.runView run.id) (run.transitioned running now).flushed
                      (t₆.view storage p₆) := by
                    refine ⟨.of_get hI₆ hrow, _, hrow, rfl, fun lease hl target => ?_⟩
                    rw [hactive, List.mem_singleton] at hl
                    exact hl ▸ ⟨hrunId, hfences⟩
                  have hone : 0 < startsOf run.id t₆.finish.committed := by
                    have hwritten : 0 < startsOf run.id t₆.writes := by
                      simp [hwrites, startsOf, Write.stamp, Run.transitionEvent]
                    rw [Session.finish_committed, startsOf_append]
                    omega
                  -- a run that was scheduled has no artifacts
                  have hbare (hm : m.exclusive) : ∀ a ∈ (t₆.view storage p₆).db.artifacts,
                      a.runId ≠ run.id := by
                    intro a ha heq
                    obtain ⟨⟨current, hget, hfinished⟩, -⟩ := hI₆.artifacts hm a ha
                    rw [heq, hrow] at hget
                    obtain rfl := Option.some.inj hget
                    simp [Run.transitioned, RunStatus.finished] at hfinished
                  refine .bind (executeStarted_holds (hf.later (hlater₅.trans hp₆)).then
                    ⟨hI₆, rfl, hone, rfl, hbare⟩ hmine ?_ ?_ fun p₇ t₇ run₇ hI₇ hp₇ ht₇ =>
                      hQ p₇ t₇ (some run₇) hI₇ ((hlater₅.trans hp₆).trans hp₇) ht₇)
                  · have hzero : executesOf run.id t₆.called = 0 := by
                      rw [h₆.executes, ht₅.executes]
                      exact hcalled run.id
                    rw [Run.flushed_id, Run.transitioned_id, Session.finish_called, hzero]
                    exact hone
                  · rintro - ⟨current, hget, hfinished⟩
                    have := Option.some.inj (hget.symm.trans hrow)
                    simp [this, Run.transitioned, RunStatus.finished] at hfinished
            · exact hQ p₂ _ (some run) hp₂.inv hlater₂ ht
      · exact hQ p₁ _ (some run) hp₁.inv hlater₁ ht

theorem processEvent_holds {Q : Outcome Bool} (hQ : ∀ x t p, Q x t p) (hI : Invariant m p)
    (ht : t.writes = []) (hcalled : ∀ r, executesOf r t.called = 0) (hevent : event ∈ p.topic) :
    Holds m (.processEvent event workerId) Q (processEvent m.rt event workerId) t p := by
  have hf (p : Platform) : Fails m Q p := .of_forall hQ p
  obtain ⟨r, hr⟩ := hI.topic event hevent
  have hrunId : event.runId = some r := by simpa using (List.mem_filter.mp hr).2
  rw [processEvent]
  split
  · exact hQ _ _ _
  · next htaken =>
    obtain ⟨htype, -, hworker, -⟩ : event.eventType = "run.assigned" ∧ _ ∧ event.workerId ≠ none ∧ _ := by
      simpa [not_or] using htaken
    obtain ⟨eventWorkerId, hworker⟩ := Option.ne_none_iff_exists'.mp hworker
    rw [processAssignment, hrunId, hworker]
    refine .select (hf p) fun p₁ i₁ hp₁ => ?_
    split
    · exact hQ _ _ _
    · refine .ofExcept (hf p₁) hp₁.inv fun token htoken => ?_
      have hmessage : event ∈ (p₁.db.runView r).messages := (Later.of_meanwhile hp₁ r).messages hr
      refine .bind (executeExistingRun_holds (hf p₁).then ht hcalled hrunId hworker htype htoken
        hmessage fun p₂ t₂ x hI₂ hp₂ ht₂ => ?_)
      refine .commitFirst (hf p₂) ht₂ (by simp) (fun p₃ j t₃ _ _ => ?_) fun _ _ _ _ _ _ _ => hQ _ _ _
      exact .of_quiet_run r (by simpa [Write.stamp, Write.onRun] using .refl)
        (by simp [Write.stamp, Write.run?]) (by simp [Write.stamp])
        (by simp [Write.stamp, Write.quiet, Write.worker?, Write.records?])
        (.of_none rfl (by simp [Write.stamp, Write.founds]))

end Delivery

end Runscope
