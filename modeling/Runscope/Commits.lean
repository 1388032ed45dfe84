import Runscope.Rules

/-!
What a commit owes the contract, in terms of its writes alone.
-/

namespace Runscope

open Transact RunStatus

variable {m : Mode} {κ : Kind}

/-- The run a log, metric or artifact belongs to. -/
def Write.records? : Write → Option Uuid
  | insertLog x => some x.runId
  | insertMetric x => some x.runId
  | insertArtifact x => some x.runId
  | _ => none

/-- Writes that concern no worker's capacity and record no telemetry. -/
def Write.quiet (w : Write) : Bool := w.worker? = none ∧ w.records? = none

/-- The run whose records, parameters or events a write adds to. -/
def Write.history? : Write → Option Uuid
  | insertParameter x => some x.runId
  | insertEvent x => some x.runId
  | w => w.records?

/-- Writes that bring a run about. -/
def Write.founds : Write → Bool
  | insertRun _ | insertParameter _ => true
  | _ => false

def Write.parameter? : Write → Option RunParameter
  | insertParameter x => some x
  | _ => none

def Write.artifact? : Write → Option Artifact
  | insertArtifact x => some x
  | _ => none

/-- What the writes of a commit bring about. -/
structure Founding (m : Mode) (κ : Kind) (p : Platform) (ws : List Write) : Prop where
  founded : ∀ r run, p.db.runs.get? r = none →
    (storage.applyAll p ws).db.runs.get? r = some run → Founded m κ p (storage.applyAll p ws) run
  parameters : ∀ x, .insertParameter x ∈ ws → p.db.runs.get? x.runId = none ∧
    ((storage.applyAll p ws).db.runs.get? x.runId).isSome
  frame : κ.submits → ∀ r, (p.db.runs.get? r).isSome → ∀ w ∈ ws, w.history? ≠ some r

/-- The writes of a commit, seen from the committed state. -/
structure Lawful (m : Mode) (κ : Kind) (t : Session) (p : Platform) (ws : List Write) : Prop where
  runs : ∀ r, Moves κ r (p.db.runView r) (onRun r ws (p.db.runView r))
  addressed : ∀ x, .insertOutbox x ∈ ws → ∃ r, x.envelope.runId = some r
  workers : m.accounting → ∀ id, onWorker id ws (p.db.workerView id) = p.db.workerView id ∨
    RowKey.worker id ∈ t.locks ∧ (onWorker id ws (p.db.workerView id)).Balanced ∧
      (κ.Registers (p.db.workerView id) (onWorker id ws (p.db.workerView id)) ∨
        (onWorker id ws (p.db.workerView id)).Fits ∨
        (p.db.workerView id).Shrinks (onWorker id ws (p.db.workerView id)))
  records : m.telemetry → ∀ r, p.db.finished r → ∀ w ∈ ws, w.records? ≠ some r
  founding : Founding m κ p ws
  own : ∀ r, (∀ w ∈ ws, w.records? ≠ some r) ∨ 0 < startsOf r t.committed
  artifacts : m.exclusive → ∀ a, .insertArtifact a ∈ ws → Described m.rt p a ∧
    ∃ run, (onRun a.runId ws (p.db.runView a.runId)).run = some run ∧ run.status.finished

/-- Where no run is inserted, none comes to be. -/
theorem run_applyAll_none {p : Platform} {ws : List Write} {r : Uuid}
    (hws : ∀ w ∈ ws, w.founds = false) (h : p.db.runs.get? r = none) :
    (storage.applyAll p ws).db.runs.get? r = none := by
  induction ws generalizing p with
  | nil => exact h
  | cons w ws ih =>
      refine ih (fun w' hw' => hws w' (by simp [hw'])) ?_
      have hw := hws w (by simp)
      cases w with
      | insertRun run => cases hw
      | updateRun run => simp [storage, Write.apply, Write.applyDb, Table.get?_update, h]
      | _ => exact h

/-- Writes that bring no run about. -/
theorem Founding.of_none {p : Platform} {ws : List Write} (hκ : κ.submits = false)
    (hws : ∀ w ∈ ws, w.founds = false) : Founding m κ p ws where
  founded r run hnone hsome := by simp [run_applyAll_none hws hnone] at hsome
  parameters x hx := by simpa [Write.founds] using hws _ hx
  frame h := by simp [hκ] at h

/-- Quiet writes owe nothing to workers and records. -/
theorem Lawful.of_quiet {t : Session} {p : Platform} {ws : List Write}
    (hruns : ∀ r, Moves κ r (p.db.runView r) (onRun r ws (p.db.runView r)))
    (haddressed : ∀ x, .insertOutbox x ∈ ws → ∃ r, x.envelope.runId = some r)
    (hquiet : ∀ w ∈ ws, w.quiet) (hfounding : Founding m κ p ws) : Lawful m κ t p ws := by
  have hrecords (w : Write) (hw : w ∈ ws) : w.worker? = none ∧ w.records? = none := by
    simpa [Write.quiet] using hquiet w hw
  exact {
    runs := hruns
    addressed := haddressed
    workers := fun _ id => .inl (onWorker_of_forall_ne (fun w hw => by simp [(hrecords w hw).1]) _)
    records := fun _ r _ w hw => by simp [(hrecords w hw).2]
    founding := hfounding
    own := fun r => .inl fun w hw => by simp [(hrecords w hw).2]
    artifacts := fun _ a ha => by simpa [Write.records?] using (hrecords _ ha).2 }

/-- Quiet writes about one run. -/
theorem Lawful.of_quiet_run {t : Session} {p : Platform} {ws : List Write} (r : Uuid)
    (hrun : Moves κ r (p.db.runView r) (onRun r ws (p.db.runView r)))
    (hother : ∀ w ∈ ws, w.run? = none ∨ w.run? = some r)
    (haddressed : ∀ x, .insertOutbox x ∈ ws → x.envelope.runId = some r)
    (hquiet : ∀ w ∈ ws, w.quiet) (hfounding : Founding m κ p ws) : Lawful m κ t p ws := by
  refine .of_quiet (fun r' => ?_) (fun x hx => ⟨r, haddressed x hx⟩) hquiet hfounding
  by_cases hr : r' = r
  · exact hr ▸ hrun
  · rw [onRun_of_forall_ne fun w hw => ?_]
    · exact .refl
    · rcases hother w hw with h | h <;> simp [h, Ne.symm hr]

section Accepted

variable {p : Platform} {ws : List Write}

theorem tokens_apply {w : Write} (h : w.check p = none)
    (hp : (p.db.allocations.rows.map ResourceAllocation.leaseToken).Nodup) :
    ((w.apply p).db.allocations.rows.map ResourceAllocation.leaseToken).Nodup := by
  have hmap {k : Uuid} {f : ResourceAllocation → ResourceAllocation} (hf : ∀ a, (f a).id = a.id)
      (htoken : ∀ a, (f a).leaseToken = a.leaseToken) :
      ((p.db.allocations.update k f hf).rows.map ResourceAllocation.leaseToken).Nodup := by
    have : (ResourceAllocation.leaseToken ∘ fun a => if a.id = k then f a else a) =
        ResourceAllocation.leaseToken := by
      funext a
      simp only [Function.comp]
      split <;> simp [htoken]
    rwa [Table.rows_update, List.map_map, this]
  cases w with
  | insertAllocation a =>
      simp only [Write.check] at h
      split_ifs at h with hid htoken
      have hnone : p.db.allocations.get? a.id = none := by simpa using hid
      simp only [Write.apply, Write.applyDb, Table.rows_insert hnone, List.map_append,
        List.map_cons, List.map_nil, List.nodup_append]
      refine ⟨hp, by simp, ?_⟩
      intro x hx y hy hxy
      simp only [List.mem_singleton] at hy
      obtain ⟨b, hb, rfl⟩ := List.mem_map.mp hx
      exact htoken (List.any_eq_true.mpr ⟨b, hb, by simpa [hy] using hxy⟩)
  | releaseAllocation a time =>
      simp only [Write.apply, Write.applyDb]
      split
      · exact @hmap _ (fun b => { b with releasedAt := some time }) (fun _ => rfl) fun _ => rfl
      · exact hp
  | renewLease a time =>
      exact @hmap _ (fun b => { b with leaseExpiresAt := time }) (fun _ => rfl) fun _ => rfl
  | _ => exact hp

theorem tokens_applyAll (h : storage.firstError p ws = none)
    (hp : (p.db.allocations.rows.map ResourceAllocation.leaseToken).Nodup) :
    ((storage.applyAll p ws).db.allocations.rows.map ResourceAllocation.leaseToken).Nodup := by
  induction ws generalizing p with
  | nil => exact hp
  | cons w ws ih =>
      obtain ⟨hw, hws⟩ := storage.firstError_cons_eq_none.mp h
      exact ih hws (tokens_apply hw hp)

theorem addressed_applyAll
    (hws : ∀ x, .insertOutbox x ∈ ws → ∃ r, x.envelope.runId = some r)
    (hp : ∀ x ∈ p.db.outbox.rows, ∃ r, x.envelope.runId = some r) :
    ∀ x ∈ (storage.applyAll p ws).db.outbox.rows, ∃ r, x.envelope.runId = some r := by
  induction ws generalizing p with
  | nil => exact hp
  | cons w ws ih =>
      refine ih (fun x hx => hws x (by simp [hx])) ?_
      cases w with
      | insertOutbox m =>
          intro x hx
          rcases Table.mem_insert.mp hx with hx | ⟨-, rfl⟩
          · exact hp x hx
          · exact hws _ (by simp)
      | updateOutbox loaded changed =>
          intro x hx
          obtain ⟨y, hy, rfl⟩ := List.mem_map.mp hx
          split
          · exact hp y hy
          · exact hp y hy
      | _ => exact hp

/-- Messages are never lost. -/
theorem messages_onRun {r : Uuid} {e : EventEnvelope} {v : RunView} (h : e ∈ v.messages) :
    e ∈ (onRun r ws v).messages := by
  induction ws generalizing v with
  | nil => exact h
  | cons w ws ih =>
      refine ih ?_
      cases w <;> simp only [Write.onRun] <;> try exact h
      all_goals split <;> simp [h]

theorem topic_applyAll : (storage.applyAll p ws).topic = p.topic := by
  induction ws generalizing p with
  | nil => rfl
  | cons w ws ih => exact ih

theorem records_applyAll {r : Uuid} (h : ∀ w ∈ ws, w.records? ≠ some r) :
    (storage.applyAll p ws).db.recordsOf r = p.db.recordsOf r := by
  induction ws generalizing p with
  | nil => rfl
  | cons w ws ih =>
      refine (ih fun w' hw' => h w' (by simp [hw'])).trans ?_
      have hw := h w (by simp)
      cases w with
      | insertLog x | insertMetric x | insertArtifact x =>
          have hx : ¬ x.runId = r := by simpa [Write.records?] using hw
          simp [storage, Write.apply, Write.applyDb, Db.recordsOf, hx]
      | _ => rfl

theorem objects_applyAll : (storage.applyAll p ws).objects = p.objects := by
  induction ws generalizing p with
  | nil => rfl
  | cons w ws ih => exact ih

theorem templates_applyAll : (storage.applyAll p ws).db.templates = p.db.templates := by
  induction ws generalizing p with
  | nil => rfl
  | cons w ws ih =>
      refine ih.trans ?_
      cases w <;> rfl

theorem parameters_applyAll :
    (storage.applyAll p ws).db.parameters = p.db.parameters ++ ws.filterMap Write.parameter? := by
  induction ws generalizing p with
  | nil => simp
  | cons w ws ih =>
      rw [Storage.applyAll_cons, ih]
      cases w with
      | insertParameter x => simp [storage, Write.apply, Write.applyDb, Write.parameter?]
      | _ => rfl

theorem artifacts_applyAll :
    (storage.applyAll p ws).db.artifacts = p.db.artifacts ++ ws.filterMap Write.artifact? := by
  induction ws generalizing p with
  | nil => simp
  | cons w ws ih =>
      rw [Storage.applyAll_cons, ih]
      cases w with
      | insertArtifact x => simp [storage, Write.apply, Write.applyDb, Write.artifact?]
      | _ => rfl

theorem mem_parameter {x : RunParameter} (h : x ∈ ws.filterMap Write.parameter?) :
    .insertParameter x ∈ ws := by
  obtain ⟨w, hw, hx⟩ := List.mem_filterMap.mp h
  cases w <;> simp [Write.parameter?] at hx
  exact hx ▸ hw

theorem mem_artifact {x : Artifact} (h : x ∈ ws.filterMap Write.artifact?) :
    .insertArtifact x ∈ ws := by
  obtain ⟨w, hw, hx⟩ := List.mem_filterMap.mp h
  cases w <;> simp [Write.artifact?] at hx
  exact hx ▸ hw

theorem parametersOf_applyAll {r : Uuid} (h : ∀ x, .insertParameter x ∈ ws → x.runId ≠ r) :
    (storage.applyAll p ws).db.parametersOf r = p.db.parametersOf r := by
  have hnone : (ws.filterMap Write.parameter?).filter (fun x => decide (x.runId = r)) = [] :=
    List.filter_eq_nil_iff.mpr fun x hx => by simpa using h x (mem_parameter hx)
  rw [Db.parametersOf, parameters_applyAll, List.filter_append, hnone, List.append_nil]
  rfl

theorem events_applyAll {r : Uuid} (h : ∀ w ∈ ws, w.history? ≠ some r) :
    ((storage.applyAll p ws).db.events.filter fun x => x.runId = r) =
      p.db.events.filter fun x => x.runId = r := by
  induction ws generalizing p with
  | nil => rfl
  | cons w ws ih =>
      refine (ih fun w' hw' => h w' (by simp [hw'])).trans ?_
      have hw := h w (by simp)
      cases w with
      | insertEvent x =>
          have hx : ¬ x.runId = r := by simpa [Write.history?] using hw
          simp [storage, Write.apply, Write.applyDb, hx]
      | _ => rfl

theorem history_applyAll {r : Uuid} (h : ∀ w ∈ ws, w.history? ≠ some r) :
    (storage.applyAll p ws).db.historyOf r = p.db.historyOf r := by
  have hrecords : ∀ w ∈ ws, w.records? ≠ some r := by
    intro w hw hrecords
    refine h w hw ?_
    cases w <;> first | exact hrecords | cases hrecords
  have hparameters : ∀ x, .insertParameter x ∈ ws → x.runId ≠ r :=
    fun x hx hr => h _ hx (congrArg some hr)
  rw [Db.historyOf, records_applyAll hrecords, parametersOf_applyAll hparameters, events_applyAll h]
  rfl

end Accepted

/-- Lawful writes meet the contract when they are committed. -/
theorem Lawful.commit {t : Session} {p : Platform} (hI : Invariant m p)
    (hacc : storage.firstError p t.writes = none) (h : Lawful m κ t p t.writes) :
    Guarantees m κ t p (t.view storage p) ∧ Invariant m (t.view storage p) := by
  have hrun (r : Uuid) := runView_applyAll hacc r
  have hworker (id : Uuid) := workerView_applyAll hacc id
  have hmoves (r : Uuid) : Moves κ r (p.db.runView r) ((t.view storage p).db.runView r) := by
    rw [Session.view, hrun r]
    exact h.runs r
  have hlives (r : Uuid) : Lives (fun _ => True) (p.db.runView r)
      ((t.view storage p).db.runView r) := (hmoves r).lives.mono fun _ _ => trivial
  have hparameters (r : Uuid) (hr : (p.db.runs.get? r).isSome) :
      (t.view storage p).db.parametersOf r = p.db.parametersOf r :=
    parametersOf_applyAll fun x hx hxr => by simp [← hxr, (h.founding.parameters x hx).1] at hr
  have hcontent (key : StorageKey) : (t.view storage p).content key = p.content key := by
    rw [Platform.content, Session.view, objects_applyAll, Platform.content]
  -- a run of the new state was there before, or has been stored now
  have hstored (r : Uuid) (run' : Run) (hget' : (t.view storage p).db.runs.get? r = some run') :
      (∃ run, p.db.runs.get? r = some run ∧ run.Continues run') ∨
        Founded m κ p (t.view storage p) run' := by
    cases hget : p.db.runs.get? r with
    | none => exact .inr (h.founding.founded r run' hget hget')
    | some run =>
        obtain ⟨run'', hget'', hcontinues⟩ := (hlives r).continues (hI.runs r) hget
        exact .inl ⟨run, rfl, Option.some.inj (hget''.symm.trans hget') ▸ hcontinues⟩
  constructor
  · constructor
    case runs => exact hmoves
    case workers =>
      intro hm id
      rw [Session.view, hworker id]
      exact (h.workers hm id).imp_right And.left
    case room =>
      intro hm id
      rw [Session.view, hworker id]
      rcases h.workers hm id with heq | ⟨-, -, hroom⟩
      · rw [heq]
        exact .inr (.inr (.refl _))
      · exact hroom
    case records => exact fun hm r hr => records_applyAll (h.records hm r hr)
    case templates => exact templates_applyAll
    case parameters => exact hparameters
    case founded => exact h.founding.founded
    case frame => exact fun hκ r hr => history_applyAll (h.founding.frame hκ r hr)
    case own =>
      exact fun r => (h.own r).imp_left fun hr => ⟨records_applyAll hr, fun name => hcontent _⟩
    case kept => exact fun _ a _ => hcontent a.storageKey
  · constructor
    case runs => exact fun r => (hlives r).inv (hI.runs r)
    case tokens => exact tokens_applyAll hacc hI.tokens
    case addressed => exact addressed_applyAll h.addressed hI.addressed
    case topic =>
      intro e he
      rw [Session.view, topic_applyAll] at he
      obtain ⟨r, hr⟩ := hI.topic e he
      refine ⟨r, ?_⟩
      have : e ∈ ((t.view storage p).db.runView r).messages := by
        rw [Session.view, hrun r]
        exact messages_onRun hr
      exact this
    case capacity =>
      intro hm id
      rw [Session.view, hworker id]
      rcases h.workers hm id with heq | ⟨-, hbalanced, -⟩
      · rw [heq]
        exact hI.capacity hm id
      · exact hbalanced
    case parented =>
      intro r run' hget'
      rcases hstored r run' hget' with ⟨run, hget, hcontinues⟩ | hfounded
      · exact (hI.parented r run hget).later hI.runs hlives hcontinues
      · exact hfounded.parented.later hI.runs hlives (.refl run')
    case parameterized =>
      intro r run' hget'
      rcases hstored r run' hget' with ⟨run, hget, hcontinues⟩ | hfounded
      · obtain rfl := Table.key_of_get? hget
        obtain ⟨-, -, -, htemplate, -⟩ := hcontinues.origin
        exact (hI.parameterized _ run hget).later templates_applyAll
          (hparameters run.id (by simp [hget])) (Table.key_of_get? hget') htemplate
      · exact hfounded.parameterized
    case parameters =>
      intro x hx
      rw [Session.view, parameters_applyAll] at hx
      rcases List.mem_append.mp hx with hx | hx
      · exact (hlives x.runId).run_isSome (hI.parameters x hx)
      · exact (h.founding.parameters x (mem_parameter hx)).2
    case artifacts =>
      intro hm a ha
      rw [Session.view, artifacts_applyAll] at ha
      have hdescribed (hp : Described m.rt p a) : Described m.rt (t.view storage p) a :=
        ⟨hp.storageKey, by rw [hcontent]; exact hp.content⟩
      rcases List.mem_append.mp ha with ha | ha
      · obtain ⟨⟨run, hget, hfinished⟩, hp⟩ := hI.artifacts hm a ha
        obtain ⟨run', hget', hcontinues⟩ := (hlives a.runId).continues (hI.runs a.runId) hget
        exact ⟨⟨run', hget', (hcontinues.finished hfinished).1 ▸ hfinished⟩, hdescribed hp⟩
      · obtain ⟨hp, run, hget, hfinished⟩ := h.artifacts hm a (mem_artifact ha)
        rw [← hrun] at hget
        exact ⟨⟨run, hget, hfinished⟩, hdescribed hp⟩

/-- The first writes of a transaction, as the server receives them. -/
theorem writes_of_nil {t : Session} (ht : t.writes = []) (i : Input) (ws : List Write) :
    ((t.begin i).write storage (t.stamped storage i ws)).writes =
      ws.map (Write.stamp (t.began.getD i)) := by
  simp [ht, Session.stamped, storage]

/-- In one transaction, from session `t` in state `p` to `t'` in `p'`, the
writes `ws` have been flushed. -/
structure Flushed (m : Mode) (κ : Kind) (pt : Point) (t t' : Session) (p p' : Platform)
    (ws : List Write) : Prop where
  meanwhile : Meanwhile m κ pt t p p'
  accepted : storage.firstError p' (t.writes ++ ws) = none
  writes : t'.writes = t.writes ++ ws
  locks : ∀ r ∈ t.locks, r ∈ t'.locks
  owned : ∀ w ∈ t.writes ++ ws, ∀ r ∈ w.rowsOf, r ∈ t'.locks
  committed : t'.committed = t.committed
  executes : ∀ r, executesOf r t'.called = executesOf r t.called
  began : ws ≠ [] → t'.began.isSome

namespace Flushed

variable {pt : Point} {t t' : Session} {p p' : Platform} {ws : List Write}

theorem inv (h : Flushed m κ pt t t' p p' ws) : Invariant m p' := h.meanwhile.inv

theorem later (h : Flushed m κ pt t t' p p' ws) : Later p p' := .of_meanwhile h.meanwhile

/-- Others do no more to a transaction that has flushed than to the one it was
before, and no more at a point where more is relied on. -/
theorem of_meanwhile {p'' : Platform} (h : Meanwhile m κ pt t p p')
    (hlocks : ∀ r ∈ t.locks, r ∈ t'.locks) (hwrites : t'.writes = t.writes ++ ws)
    (hbegan : t.began.isSome → t'.began.isSome) (hcommitted : t'.committed = t.committed)
    (h' : Meanwhile m κ pt t' p' p'') : Meanwhile m κ pt t p p'' where
  inv := h'.inv
  rely :=
    { runs := fun r => (h.rely.runs r).trans (h'.rely.runs r)
      loaded := fun hm ht id hid => (h'.rely.loaded hm (hbegan ht) id hid).trans
        (h.rely.loaded hm ht id hid)
      totals := fun hm ht id hid => (h'.rely.totals hm (hbegan ht) id hid).trans
        (h.rely.totals hm ht id hid)
      locked := fun hm id hid => (h'.rely.locked hm id (hlocks _ hid)).trans
        (h.rely.locked hm id hid)
      records := fun hm r hr hfin => h.rely.records hm r hr (h'.rely.records hm r hr hfin)
      templates := h'.rely.templates.trans h.rely.templates
      parameters := fun r hr => (h'.rely.parameters r ((h.rely.runs r).run_isSome hr)).trans
        (h.rely.parameters r hr)
      own := fun hm r hr => (h.rely.own hm r hr).trans (h'.rely.own hm r (hcommitted ▸ hr)) }
  locked r hr := (storage.same_equiv r).trans (h.locked r hr) (h'.locked r (hlocks r hr))
  owned := h.owned
  accepted := (storage.firstError_append_eq_none.mp (hwrites ▸ h'.accepted)).1

/-- A flush, and what others do after it. -/
theorem of_flush {p₁ p₂ : Platform} {i : Input} {pending : List Write}
    (h₁ : Meanwhile m κ pt t p p₁)
    (h₂ : Meanwhile m κ pt ((t.begin i).write storage (t.stamped storage i pending)) p₁ p₂) :
    Flushed m κ pt t ((t.begin i).write storage (t.stamped storage i pending)) p p₂
      (pending.map (Write.stamp (t.began.getD i))) where
  meanwhile := of_meanwhile h₁ (fun _ hr => List.mem_append_right _ hr) rfl (fun _ => rfl) (by rfl) h₂
  accepted := h₂.accepted
  writes := rfl
  locks _ hr := List.mem_append_right _ hr
  owned := h₂.owned
  committed := rfl
  executes _ := rfl
  began _ := rfl

/-- A transaction that goes on from here. -/
theorem start (h : Meanwhile m κ pt t p p') : Flushed m κ pt t t p p' [] where
  meanwhile := h
  accepted := by simpa using h.accepted
  writes := by simp
  locks _ hr := hr
  owned := by
    rw [List.append_nil]
    exact h.owned
  committed := rfl
  executes _ := rfl
  began := nofun

/-- Time passes. -/
theorem next {pt' : Point} {p'' : Platform} (h : Flushed m κ {} t t' p p' ws)
    (h' : Meanwhile m κ pt' t' p' p'') : Flushed m κ {} t t' p p'' ws :=
  { h with
    meanwhile :=
      { inv := h'.inv
        rely :=
          { runs := fun r => (h.meanwhile.rely.runs r).trans (h'.rely.runs r)
            loaded := nofun
            totals := nofun
            locked := fun hm id hid => (h'.rely.locked hm id (h.locks _ hid)).trans
              (h.meanwhile.rely.locked hm id hid)
            records := nofun
            templates := h'.rely.templates.trans h.meanwhile.rely.templates
            parameters := fun r hr =>
              (h'.rely.parameters r ((h.meanwhile.rely.runs r).run_isSome hr)).trans
                (h.meanwhile.rely.parameters r hr)
            own := fun hm r hr => (h.meanwhile.rely.own hm r hr).trans
              (h'.rely.own hm r (h.committed ▸ hr)) }
        locked := fun r hr => (storage.same_equiv r).trans (h.meanwhile.locked r hr)
          (h'.locked r (h.locks r hr))
        owned := h.meanwhile.owned
        accepted := (storage.firstError_append_eq_none.mp (h.writes ▸ h'.accepted)).1 }
    accepted := h.writes ▸ h'.accepted }

/-- A step of the session that writes nothing and gives up no lock. -/
theorem read {t'' : Session} (h : Flushed m κ pt t t' p p' ws) (hlocks : ∀ r ∈ t'.locks, r ∈ t''.locks)
    (hwrites : t''.writes = t'.writes) (hcommitted : t''.committed = t'.committed)
    (hexecutes : ∀ r, executesOf r t''.called = executesOf r t'.called)
    (hbegan : t'.began.isSome → t''.began.isSome) : Flushed m κ pt t t'' p p' ws :=
  { h with
    writes := hwrites.trans h.writes
    locks := fun r hr => hlocks r (h.locks r hr)
    owned := fun w hw r hr => hlocks r (h.owned w hw r hr)
    committed := hcommitted.trans h.committed
    executes := fun r => (hexecutes r).trans (h.executes r)
    began := fun hws => hbegan (h.began hws) }

theorem begin (h : Flushed m κ pt t t' p p' ws) (i : Input) :
    Flushed m κ pt t (t'.begin i) p p' ws :=
  h.read (fun _ hr => hr) rfl rfl (fun _ => rfl) fun _ => rfl

theorem lock (h : Flushed m κ pt t t' p p' ws) (rows : List RowKey) :
    Flushed m κ pt t (t'.lock rows) p p' ws :=
  h.read (fun _ hr => List.mem_append_right _ hr) rfl rfl (fun _ => rfl) id

theorem idle {t'' : Session} (h : Flushed m κ pt t t' p p' ws) (hidle : Idle t' t'') :
    Flushed m κ pt t t'' p p' ws :=
  h.read (fun _ hr => hidle.locks.symm ▸ hr) hidle.writes hidle.committed hidle.executes
    fun hbegan => hidle.began ▸ hbegan

/-- One more flush. -/
theorem flush {i : Input} {pending : List Write} (h : Flushed m κ pt t t' p p' ws)
    (hacc : storage.firstError (t'.view storage p') (t'.stamped storage i pending) = none) :
    Flushed m κ pt t ((t'.begin i).write storage (t'.stamped storage i pending)) p p'
      (ws ++ pending.map (Write.stamp (t'.began.getD i))) where
  meanwhile := h.meanwhile
  accepted := by
    rw [← List.append_assoc, storage.firstError_append_eq_none]
    refine ⟨h.accepted, ?_⟩
    rw [← h.writes]
    exact hacc
  writes := by
    rw [← List.append_assoc, ← h.writes]
    rfl
  locks r hr := List.mem_append_right _ (h.locks r hr)
  owned w hw r hr := by
    rw [← List.append_assoc, List.mem_append] at hw
    rcases hw with hw | hw
    · exact List.mem_append_right _ (h.owned w hw r hr)
    · exact List.mem_append_left _ (List.mem_flatMap.mpr ⟨w, hw, hr⟩)
  committed := h.committed
  executes := h.executes
  began _ := rfl

/-- The writes flushed first were accepted too. -/
theorem accepted_prefix {ws' : List Write} (h : Flushed m κ pt t t' p p' (ws ++ ws')) :
    storage.firstError p' (t.writes ++ ws) = none := by
  have hacc := h.accepted
  rw [← List.append_assoc] at hacc
  exact (storage.firstError_append_eq_none.mp hacc).1

end Flushed

/-- The commit of a transaction, told from the state before its last flush. -/
theorem Holds.commitAll {α : Type} {Q : Outcome α} {pt : Point} {t : Session} {p : Platform}
    {pending : List Write} {k : Unit → Program α} (hf : Fails m Q p)
    (hactive : ∀ a, .insertAllocation a ∉ pending)
    (h : ∀ p' i t', Flushed m κ pt t t' p p' (pending.map (Write.stamp i)) →
      Lawful m κ t' p' (t.writes ++ pending.map (Write.stamp i)))
    (hk : ∀ p' i t', Flushed m κ pt t t' p p' (pending.map (Write.stamp i)) →
      Invariant m (t'.view storage p') → Later p (t'.view storage p') →
      Holds m κ Q (k ()) t'.finish (t'.view storage p')) :
    Holds m κ Q (session.commit pt pending >>= k) t p := by
  refine .commit hf hactive fun p₁ p₂ i hp₁ _ hp₂ => ?_
  intro t'
  have hc : Flushed m κ pt t t' p p₂ (pending.map (Write.stamp (t.began.getD i))) :=
    .of_flush hp₁ hp₂
  obtain ⟨hguar, hinv⟩ := (hc.writes ▸ h p₂ _ t' hc).commit hc.inv (hc.writes ▸ hc.accepted)
  exact ⟨hguar, hinv, hk p₂ _ t' hc hinv (hc.later.trans (.of_guarantees hguar))⟩

/-- The commit of a transaction that has written nothing before. -/
theorem Holds.commitFirst {α : Type} {Q : Outcome α} {pt : Point} {t : Session} {p : Platform}
    {pending : List Write} {k : Unit → Program α} (hf : Fails m Q p) (ht : t.writes = [])
    (hactive : ∀ a, .insertAllocation a ∉ pending)
    (h : ∀ p' i t', Flushed m κ pt t t' p p' (pending.map (Write.stamp i)) →
      storage.firstError p' (pending.map (Write.stamp i)) = none →
      Lawful m κ t' p' (pending.map (Write.stamp i)))
    (hk : ∀ p' i t', Flushed m κ pt t t' p p' (pending.map (Write.stamp i)) →
      t'.writes = pending.map (Write.stamp i) →
      Invariant m (t'.view storage p') → Later p (t'.view storage p') →
      Holds m κ Q (k ()) t'.finish (t'.view storage p')) :
    Holds m κ Q (session.commit pt pending >>= k) t p := by
  refine .commitAll hf hactive (fun p' i t' hc => ?_) fun p' i t' hc hinv hp' => ?_
  · have hacc := hc.accepted
    rw [ht, List.nil_append] at hacc ⊢
    exact h p' i t' hc hacc
  · exact hk p' i t' hc (by simpa [ht] using hc.writes) hinv hp'

end Runscope
