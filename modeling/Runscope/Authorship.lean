import Runscope.Annotations
import Runscope.Deliveries

/-!
Who has entered what about a run.

A command on a run begins with the check that its user controls the run. So
whatever such a session commits, its user may: the creator of a run is never
changed. The other transitions are left to the scheduler and to the deliveries
of the run's assignments, and of these to the one that has started the run.
-/

namespace Runscope

open Transact RunStatus

/-- What `ensure_run_control` asks of a user. -/
def User.Controls (user : User) (run : Run) : Prop :=
  user.role = .administrator ∨ run.createdBy = user.id

theorem ensureRunControl_eq_ok (user : User) (run : Run) :
    ensureRunControl user run = .ok () ↔ user.Controls run := by
  by_cases hrole : user.role = .administrator <;> by_cases hcreated : run.createdBy = user.id <;>
    simp [ensureRunControl, User.Controls, hrole, hcreated]

/-- The run is stored, and the user may control it. -/
def Db.Controlled (db : Db) (user : User) (r : Uuid) : Prop :=
  ∃ run, db.runs.get? r = some run ∧ user.Controls run

/-- The run that a command is about, and the user who gives it. -/
def Kind.command : Kind → Option (Uuid × User)
  | .retryRun runId _ user _ | .cancelRun runId user _ | .updateRunMetadata runId _ user =>
      some (runId, user)
  | _ => none

/-- In whose name a run is stored, and as the retry of which run. -/
def Run.provenance (run : Run) : Uuid × Option Uuid := (run.createdBy, run.parentRunId)

/-- In whose name the session stores a new run, and as the retry of which. -/
def Kind.provenance : Kind → Option (Uuid × Option Uuid)
  | .createRun _ createdBy _ => some (createdBy, none)
  | .retryRun parentId _ user _ => some (user.id, some parentId)
  | _ => none

/-! ### The sessions -/

section Sessions

variable {α : Type} {rt : Runtime} {settings : Settings} {good : Platform → Prop}
  {adm : Call → Input → Prop} {A : Prop} {r u : Uuid} {o : Uuid × Option Uuid} {user : User}

/-- How the commands on a run begin; what comes after that does not matter. -/
theorem controlled_trails {k : Run → Program α}
    (hgood : ∀ p, good p → p.db.Controlled user r → A) :
    Prog.Trails storage good adm (fun trail => trail ≠ [] → A) (fun _ _ _ => True) (do
      let run ← getRunOr404 r
      Prog.ofExcept (ensureRunControl user run)
      k run) [] [] := by
  refine .bind (.bind (.select (fun _ => trivial) fun reply hview => ?_))
  dsimp only
  cases hget : reply.view.db.runs.get? r with
  | none => exact .raise trivial
  | some run =>
      refine .ret (.bind ?_)
      cases hcontrol : ensureRunControl user run with
      | error e => exact .raise trivial
      | ok _ =>
          have hcontrols : user.Controls run := (ensureRunControl_eq_ok user run).mp hcontrol
          exact .ret (.of_forall (fun _ _ => hgood _ (hview rfl) ⟨run, hget, hcontrols⟩) _)

theorem command_trails {κ : Kind} (hκ : κ.command = some (r, user))
    (hgood : ∀ p, good p → p.db.Controlled user r → A) :
    Prog.Trails storage good adm (fun trail => trail ≠ [] → A) (fun _ _ _ => True)
      (κ.code rt settings) [] [] := by
  have hbegins {c : Program Run} (h : Prog.Trails storage good adm (fun trail => trail ≠ [] → A)
      (fun _ _ _ => True) c [] []) : Prog.Trails storage good adm (fun trail => trail ≠ [] → A)
        (fun _ _ _ => True) (c >>= fun _ => Prog.ret ()) [] [] :=
    .bind (h.mono fun x _ _ _ => by cases x <;> exact trivial)
  cases κ with
  | retryRun | cancelRun | updateRunMetadata =>
      cases hκ
      exact hbegins (controlled_trails hgood)
  | _ => cases hκ

/-- A column of runs that only sessions assign. -/
structure Column {β : Type} (f : Run → β) : Prop where
  stored : ∀ run current : Run, f (run.stored current) = f run
  stamped : ∀ (run : Run) (time : Time), f { run with createdAt := time } = f run

theorem column_provenance : Column Run.provenance := ⟨fun _ _ => rfl, fun _ _ => rfl⟩

theorem column_annotations : Column fun run => (run.notes, run.tags) :=
  ⟨fun _ _ => rfl, fun _ _ => rfl⟩

/-- Whatever run the write stores has this value in the column. -/
def Write.Puts {β : Type} (f : Run → β) (value : β) (x : Write) : Prop :=
  ∀ run, x = .insertRun run ∨ x = .updateRun run → f run = value

section Columns

variable {β : Type} {f : Run → β} {value : β}

theorem puts_stamp (hf : Column f) (i : Input) (x : Write) (h : x.Puts f value) :
    (x.stamp i).Puts f value := by
  cases x with
  | insertRun run =>
      rintro run' (heq | heq)
      · cases heq
        exact (hf.stamped run i.clock).trans (h run (.inl rfl))
      · cases heq
  | insertEvent | insertOutbox => simp [Write.stamp, Write.Puts]
  | _ => exact h

theorem puts_apply (hf : Column f) {B : β → Prop} (hvalue : B value) (x : Write)
    (p : Platform) (hx : x.Puts f value)
    (h : ∀ run, p.db.runs.get? r = some run → B (f run)) :
    ∀ run, (x.apply p).db.runs.get? r = some run → B (f run) := by
  intro run hget
  cases x with
  | insertRun run' =>
      rw [show (Write.apply (.insertRun run') p).db.runs = p.db.runs.insert run' from rfl,
        Table.get?_insert] at hget
      split at hget
      · cases hstored : p.db.runs.get? r with
        | none =>
            simp only [hstored, Option.getD_none, Option.some.injEq] at hget
            rwa [← hget, hx run' (.inl rfl)]
        | some old =>
            simp only [hstored, Option.getD_some, Option.some.injEq] at hget
            exact hget ▸ h old hstored
      · exact h run hget
  | updateRun run' =>
      have hupdate : (Write.apply (.updateRun run') p).db.runs =
          p.db.runs.update run'.id run'.stored run'.stored_id := rfl
      rw [hupdate, Table.get?_update] at hget
      split at hget
      · obtain ⟨current, -, rfl⟩ := Option.map_eq_some_iff.mp hget
        rwa [hf.stored, hx run' (.inr rfl)]
      · exact h run hget
  | _ => exact h run hget

end Columns

/-- What both submissions of a run store last. -/
theorem puts_submitted {run : Run} {event : RunEvent} {message : OutboxMessage}
    {parameters : Record} (h : run.provenance = o) : ∀ x ∈ parameterRows run.id parameters ++
      [.updateRun run, .insertEvent event, .insertOutbox message], x.Puts Run.provenance o := by
  intro x hx
  rcases List.mem_append.mp hx with hx | hx
  · obtain ⟨_, -, rfl⟩ := List.mem_map.mp hx
    simp [Write.Puts]
  · simp only [List.mem_cons, List.not_mem_nil, or_false] at hx
    rcases hx with rfl | rfl | rfl <;> simp [Write.Puts, h]

theorem transitionRun_provenance {pt : Point} {run : Run} {target : RunStatus} {eventType : String}
    {metadata : Record} (h : run.provenance = o) : Stores .any (Write.Puts Run.provenance o)
      (fun x => x.1.provenance = o) (transitionRun pt run target eventType metadata) :=
  .bind (.ofExcept (Q := fun _ => True) fun _ _ => trivial) fun _ _ => stores_call.bind fun _ _ => h

theorem getRunOr404_id {P : Write → Prop} {runId : Uuid} :
    Stores .any P (fun run => run.id = runId) (getRunOr404 runId) := by
  have hfound : Stores .any P (fun found => ∀ run : Run, found = some run → run.id = runId)
      (session.getRun {} runId) :=
    .stmt nofun fun reply _ run hget => (Table.get?_eq_some.mp hget).2
  refine hfound.bind fun found hfound => ?_
  cases found with
  | none => exact trivial
  | some run => exact hfound run rfl

/-- A submission stores the run of whoever submits it, from the draft on. -/
theorem createQueuedRun_provenance {body : RunCreate} {correlationId : RequestId} :
    Stores .any (Write.Puts Run.provenance (u, none)) (fun _ => True)
      (createQueuedRun rt settings body u correlationId) := by
  have htemplate : Stores .any (Write.Puts Run.provenance (u, none)) (fun _ => True)
      (findTemplate body.templateKey body.templateVersion) := by
    unfold findTemplate
    refine stores_select.bind fun found _ => ?_
    cases found with
    | none => exact trivial
    | some template =>
        dsimp only
        cases registryGet template.key template.version <;> exact trivial
  refine htemplate.bind fun template _ => ?_
  refine .bind (.ofExcept (Q := fun _ => True) fun _ _ => trivial) fun validated _ => ?_
  refine stores_call.bind fun id _ =>
    .bind (.ofExcept (Q := fun _ => True) fun _ _ => trivial) fun _ _ => ?_
  refine (stores_flush (List.forall_mem_singleton.mpr
    (by simp [Write.Puts, Run.provenance]))).bind fun _ _ => ?_
  refine (transitionRun_provenance (by exact rfl)).bind fun x hx =>
    stores_newMessage.bind fun message _ => ?_
  exact (stores_commit (puts_submitted hx)).bind fun _ _ =>
    stores_refreshRun.mono fun _ _ => trivial

/-- A retry stores the run of whoever retries, as a child of the run read. -/
theorem retryRun_provenance {runId : Uuid} {body : RunRetryRequest} {correlationId : RequestId} :
    Stores .any (Write.Puts Run.provenance (user.id, some runId)) (fun _ => True)
      (retryRun rt settings runId body user correlationId) := by
  refine getRunOr404_id.bind fun parent hid => stores_ensureRunControl.bind fun _ _ => ?_
  split
  case isFalse => exact trivial
  case isTrue =>
  refine stores_select.bind fun found _ => ?_
  cases found with
  | none => exact trivial
  | some template =>
      refine stores_select.bind fun stored _ => ?_
      refine .bind (.ofExcept (Q := fun _ => True) fun _ _ => trivial) fun validated _ => ?_
      refine stores_call.bind fun id _ => (stores_flush (List.forall_mem_singleton.mpr
        (by simp [Write.Puts, Run.provenance, hid]))).bind fun _ _ => ?_
      refine (transitionRun_provenance (by simp [Run.provenance, hid])).bind fun x hx =>
        stores_newMessage.bind fun message _ => ?_
      exact (stores_commit (puts_submitted hx)).bind fun _ _ =>
        stores_refreshRun.mono fun _ _ => trivial

/-- An edit stores the notes and the normal form of the tags it was sent. -/
theorem edit_trails {κ : Kind} {body : RunMetadataUpdate} (hκ : κ = .updateRunMetadata r body user) :
    Prog.Trails storage good adm (fun trail => ∀ x ∈ trail,
        x.Puts (fun run => (run.notes, run.tags)) (body.notes, normalizedTags rt body.tags))
      (fun _ _ _ => True) (κ.code rt settings) [] [] := by
  have hstores : Stores .any
      (Write.Puts (fun run => (run.notes, run.tags)) (body.notes, normalizedTags rt body.tags))
      (fun _ => True) (updateRunMetadata rt r body user) := by
    refine stores_getRunOr404.bind fun run _ => stores_ensureRunControl.bind fun _ _ => ?_
    dsimp only
    split
    case isTrue => exact trivial
    case isFalse =>
    refine .bind (.ofExcept (Q := fun _ => True) fun _ _ => trivial) fun _ _ => ?_
    refine (stores_commit fun x hx => ?_).bind fun _ _ => stores_refreshRun.mono fun _ _ => trivial
    rcases List.mem_append.mp hx with hx | hx
    · split at hx
      · cases hx
      · obtain rfl := List.mem_singleton.mp hx
        rintro run' (heq | heq)
        · cases heq
        · cases heq
          rfl
    · obtain rfl := List.mem_singleton.mp hx
      simp [Write.Puts]
  have hcode : Stores .any
      (Write.Puts (fun run => (run.notes, run.tags)) (body.notes, normalizedTags rt body.tags))
      (fun _ => True) (κ.code rt settings) := by
    subst hκ
    exact hstores.bind fun _ _ => trivial
  exact .of_writes (fun _ _ _ _ => trivial) (puts_stamp column_annotations) hcode (by simp) (by simp)

theorem provenance_trails {κ : Kind} (hκ : κ.provenance = some o) :
    Prog.Trails storage good adm (fun trail => ∀ x ∈ trail, x.Puts Run.provenance o)
      (fun _ _ _ => True) (κ.code rt settings) [] [] := by
  have hstores : Stores .any (Write.Puts Run.provenance o) (fun _ => True)
      (κ.code rt settings) := by
    cases κ with
    | createRun =>
        cases hκ
        exact createQueuedRun_provenance.bind fun _ _ => trivial
    | retryRun =>
        cases hκ
        exact retryRun_provenance.bind fun _ _ => trivial
    | _ => cases hκ
  exact .of_writes (fun _ _ _ _ => trivial) (puts_stamp column_provenance) hstores (by simp)
    (by simp)

/-- What the entries of a delivery look like: the start of the run comes first. -/
def Begun (es : List Entry) : Prop := es = [] ∨ [.started] <+: es

/-- Once the run is started, anything may follow. -/
theorem begun_tells {result : TemplateResult} {done ws : List Write}
    {Q : α → List Write → List Write → Prop} (hdone : [.started] <+: entries r done)
    (hQ : ∀ a done' ws', [.started] <+: entries r done' → Q a done' ws') (c : Program α) :
    Tells good r result Begun (fun _ => True) Q c done ws := by
  have hentries {trail : List Write} (h : done <+: trail) : [.started] <+: entries r trail := by
    obtain ⟨rest, rfl⟩ := h
    rw [entries_append]
    exact hdone.trans (List.prefix_append ..)
  refine ((Prog.Trails.grows List.prefix_rfl c).imp fun trail h => .inr (hentries h)).mono ?_
  intro x done' ws' h
  cases x with
  | ok a => exact hQ a done' ws' (hentries h)
  | error e => exact trivial

theorem delivery_tells {templates : Table TrainingTemplate.id} {templateId : Uuid} {values : Record}
    {result : TemplateResult} {event : EventEnvelope} {workerId : Option Uuid}
    (hrun : event.runId = some r) :
    Tells (Fixed templates templateId values r) r result Begun (fun _ => True) (fun _ _ _ => True)
      (processEvent rt event workerId) [] [] := by
  unfold processEvent
  split
  case isTrue => exact .ret trivial
  case isFalse =>
  unfold processAssignment
  rw [hrun]
  cases event.workerId with
  | none => exact .ret trivial
  | some eventWorkerId =>
      refine .bind (.select trivial fun p _ => ?_)
      split
      case isTrue => exact .ret trivial
      case isFalse =>
      refine .bind (.ofExcept trivial fun leaseToken _ => .bind ?_)
      refine executeExistingRun_tells rfl (.inr List.prefix_rfl) (fun x => ?_) ?_
      · -- the run is not started, and the message is marked as processed
        exact .bind (.commit trivial (.inl (by simp [Write.entered?])) fun _ _ => .ret trivial)
      · intro run template validated dump done' _ _ _ _ hdone'
        refine begun_tells (hdone' ▸ List.prefix_rfl) (fun x done₁ ws₁ hbegun => ?_) _
        exact begun_tells hbegun (fun _ _ _ _ => trivial) _

end Sessions

/-! ### In a reachable world -/

section Worlds

variable {rt : Runtime} {settings : Settings} {templates : Table TrainingTemplate.id}
  {w w' : Cluster} {a : Action Kind Input} {r u : Uuid} {o : Uuid × Option Uuid} {user : User}

/-- A step commits what its session has flushed, or leaves the database alone. -/
theorem World.db_step (hstep : w.step (system rt settings) a = some w') :
    (∃ (j : ℕ) (i : Input) (q p : Process), a = .run j i ∧ w.procs[j]? = some q ∧
      w'.procs[j]? = some p ∧ p.kind = q.kind ∧
      p.session.committed = q.session.committed ++ q.session.writes ∧
      w'.state = storage.applyAll w.state q.session.writes) ∨ w'.state.db = w.state.db := by
  rcases World.commits_step hstep with ⟨j, i, q, pt, next, rfl, hq, -, hstate, hcommitted⟩ |
    ⟨hstate | ⟨c, i, hstate⟩, -⟩
  · obtain ⟨p, hp, hkind⟩ := World.kind_step hstep hq
    have hget := World.committed_getElem? hp
    have hlt := (List.getElem?_eq_some_iff.mp (World.committed_getElem? hq)).1
    rw [hcommitted, List.getElem?_set_self hlt, Option.some.injEq] at hget
    exact .inl ⟨j, i, q, p, rfl, hq, hp, hkind, hget.symm, hstate⟩
  · exact .inr (by rw [hstate])
  · rw [hstate]
    exact .inr (c.perform_db i w.state)

/-- A stored run stays stored, and its creator the same. -/
theorem Db.Controlled.later {p p' : Platform} (h : p.db.Controlled user r)
    (hlives : Lives (fun _ => True) (p.db.runView r) (p'.db.runView r)) :
    p'.db.Controlled user r := by
  obtain ⟨run, hget, hcontrols⟩ := h
  obtain ⟨run', hget', hcreated⟩ := hlives.createdBy ⟨run, hget, rfl⟩
  exact ⟨run', hget', hcontrols.imp_right hcreated.trans⟩

/-- What the programs of some kinds leave behind them, their sessions do. -/
theorem Reachable.trails (h : Reachable rt settings templates w) {P : List Write → Prop}
    (kinds : Kind → Prop) (hnone : P [])
    (hcode : ∀ κ, kinds κ → Prog.Trails storage (fun _ => True) (fun _ _ => True) P
      (fun _ _ _ => True) (κ.code rt settings) [] []) {p : Process} (hp : p ∈ w.procs)
    (hκ : kinds p.kind) :
    Session.Trails storage (fun _ => True) (fun _ _ => True) P (fun _ _ _ => True) p.prog p.session :=
  Reach.trails kinds hnone hcode
    (fun _ _ _ _ => ⟨fun _ _ _ => trivial, fun _ _ _ _ _ _ _ _ _ => trivial⟩) h p hp hκ

/-- Who has committed anything with a command controls the run it is about. -/
theorem Reachable.controlled (h : Reachable rt settings templates w) {p : Process}
    (hp : p ∈ w.procs) (hκ : p.kind.command = some (r, user)) (hdone : p.session.committed ≠ []) :
    w.state.db.Controlled user r := by
  let A := w.state.db.Controlled user r
  have hpath := Reach.backward (P := fun w₁ => w₁.state.db.Controlled user r → A)
    (fun w₁ w₂ a hbefore hstep hafter hcontrolled => hafter (hcontrolled.later
      ((Reachable.later hbefore (.step .refl hstep trivial)).2 r))) h id
  have htrails : Session.Trails storage (fun p => p.db.Controlled user r → A) (fun _ _ => True)
      (fun trail => trail ≠ [] → A) (fun _ _ _ => True) p.prog p.session :=
    Reach.trails (fun κ => κ.command = some (r, user)) (fun hne => absurd rfl hne)
      (fun κ hκ => command_trails hκ fun p hp => hp)
      (fun w₁ a w₂ hallowed => ⟨fun _ _ _ => hallowed.2, fun _ _ _ _ _ _ _ _ _ => trivial⟩)
      hpath p hp hκ
  exact htrails.committed hdone

/-- A session that stores a new run stores it in the name of its user. -/
theorem Reachable.created (h : Reachable rt settings templates w) {p : Process} (hp : p ∈ w.procs)
    (hκ : p.kind.provenance = some o) :
    ∀ x ∈ p.session.committed ++ p.session.writes, x.Puts Run.provenance o :=
  (h.trails (P := fun trail => ∀ x ∈ trail, x.Puts Run.provenance o)
    (fun κ => κ.provenance = some o) (by simp) (fun _ hκ => provenance_trails hκ) hp hκ).flushed

/-- A delivery that has entered anything for its run has started it. -/
theorem Reachable.begun (h : Reachable rt settings templates w) {p : Process} (hp : p ∈ w.procs)
    (hdelivers : p.kind.delivers r) : Begun (entries r p.session.committed) := by
  obtain ⟨event, workerId, hkind, hrun⟩ := hdelivers
  obtain ⟨run, hget⟩ := Option.isSome_iff_exists.mp (h.delivered hp hkind hrun)
  obtain ⟨result, hdraws⟩ := h.draws r
  have htemplates := (Reachable.parameters_later (w := .initial (.empty templates)) .refl h).1
  have hfixed : Fixed templates run.templateId (w.state.db.storedParameters r) r w.state :=
    ⟨htemplates, ⟨run, hget, rfl⟩, rfl⟩
  exact (told hdraws hfixed (.inl rfl) (fun _ _ hevent => delivery_tells hevent) hp
    ⟨event, workerId, hkind, hrun⟩).committed

/-- A session has entered the transition by a step that it may take. -/
def Authored (w : Cluster) (r : Uuid) (previous target : RunStatus) : Prop :=
  ∃ (pid : ℕ) (q : Process) (l : Label), w.procs[pid]? = some q ∧
    .transition (some previous) (some target) ∈ entries r q.session.committed ∧
    q.kind.allows r l ∧ l.Makes previous target ∧
    (l = .create → ∃ run, w.state.db.runs.get? r = some run ∧
      q.kind.provenance = some run.provenance)

theorem Authored.step {previous target : RunStatus} (h : Authored w r previous target)
    (hreach : Reachable rt settings templates w)
    (hstep : w.step (system rt settings) a = some w') : Authored w' r previous target := by
  obtain ⟨pid, q, l, hq, hentry, hallows, hmakes, hcreated⟩ := h
  obtain ⟨q', hq', hkind, rest, hrest⟩ := World.committed_step hstep hq
  refine ⟨pid, q', l, hq', ?_, hkind ▸ hallows, hmakes, fun hl => ?_⟩
  · rw [← hrest, entries_append]
    exact List.mem_append_left _ hentry
  · obtain ⟨run, hget, hprovenance⟩ := hcreated hl
    have hlives := (hreach.later (.step .refl hstep trivial)).2 r
    obtain ⟨run', hget', hcreator⟩ := hlives.createdBy ⟨run, hget, rfl⟩
    obtain ⟨run₁, hget₁, hcontinues⟩ := hlives.continues (hreach.inv.runs r) hget
    obtain rfl := Option.some.inj (hget'.symm.trans hget₁)
    have hsame : run'.provenance = run.provenance := Prod.ext hcreator hcontinues.origin.1
    exact ⟨run', hget', by rw [hkind, hprovenance, hsame]⟩

/-- A session that may create a run may do nothing else. -/
theorem allows_create {κ : Kind} (h : κ.allows r .create) :
    (∀ l, κ.allows r l → l = .create) ∧ ∃ o, κ.provenance = some o := by
  cases κ with
  | createRun | retryRun =>
      refine ⟨fun l hl => ?_, _, rfl⟩
      cases l <;> first | rfl | cases hl
  | _ => cases h

/-- Only a command to cancel the run asks to cancel it. -/
theorem cancelRun_of_allows {κ : Kind} (h : κ.allows r .requestCancel) :
    ∃ user correlationId, κ = .cancelRun r user correlationId := by
  cases κ with
  | cancelRun runId user correlationId =>
      obtain rfl : runId = r := h
      exact ⟨user, correlationId, rfl⟩
  | _ => cases h

/-- A run is ended by a delivery, or by the scheduler, without success. -/
theorem ends_of_allows {κ : Kind} {target : RunStatus} {lease : Lease}
    (h : κ.allows r (.finish target lease)) :
    κ.delivers r ∨ κ = .schedule ∧ target ∈ [failed, cancelled] := by
  cases κ with
  | processEvent event workerId => exact .inl ⟨event, workerId, rfl, h.1⟩
  | schedule => exact .inr ⟨rfl, h⟩
  | _ => cases h

/-- What a commit adds. -/
theorem Reachable.authored_commit (h : Reachable rt settings templates w) {j : ℕ} {i : Input}
    (hstep : w.step (system rt settings) (.run j i) = some w') {q p : Process}
    (hq : w.procs[j]? = some q) (hp : w'.procs[j]? = some p) (hkind : p.kind = q.kind)
    (hcommitted : p.session.committed = q.session.committed ++ q.session.writes)
    (hstate : w'.state = storage.applyAll w.state q.session.writes)
    {x : Option RunStatus × Option RunStatus}
    (hx : x ∈ (entries r q.session.writes).filterMap Entry.transition?) :
    ∃ previous target, x = (some previous, some target) ∧ Authored w' r previous target := by
  have htransitions := transitionsOf_applyAll w.state q.session.writes r
  rw [← hstate] at htransitions
  obtain ⟨entry, hentry, hentered⟩ := List.mem_filterMap.mp hx
  rcases h.lives hstep with heq | ⟨j', i', q', ha, hq', hlives⟩
  · rw [heq, List.self_eq_append_right] at htransitions
    rw [htransitions] at hx
    cases hx
  obtain ⟨rfl, rfl⟩ : j = j' ∧ i = i' := by simpa using ha
  obtain rfl := Option.some.inj (hq.symm.trans hq')
  obtain ⟨added, hadded, hmade⟩ := (hlives r).added
  obtain rfl := List.append_cancel_left (htransitions.symm.trans hadded)
  obtain ⟨l, previous, target, hl, rfl, hmakes⟩ := hmade x hx
  refine ⟨previous, target, rfl, j, p, l, hp, ?_, hkind ▸ hl, hmakes, ?_⟩
  · rw [hcommitted, entries_append]
    cases entry with
    | transition => cases hentered; exact List.mem_append_right _ hentry
    | _ => cases hentered
  · rintro rfl
    obtain ⟨honly, o, ho⟩ := allows_create hl
    have hafter := (h.step hstep).inv.runs r
    -- nothing is known of the run before
    have hnone : w.state.db.runs.get? r = none := by
      rcases (hlives r).of_create honly with hsame | habsent
      · have hsame : w'.state.db.transitionsOf r = w.state.db.transitionsOf r :=
          congrArg RunView.transitions hsame
        rw [htransitions, List.append_right_eq_self] at hsame
        rw [hsame] at hx
        cases hx
      · exact congrArg RunView.run habsent
    have hcreated : ∀ run, w'.state.db.runs.get? r = some run → run.provenance = o := by
      have hwrites : ∀ x ∈ q.session.writes, x.Puts Run.provenance o := fun x hx =>
        h.created (List.mem_of_getElem? hq) ho x (List.mem_append_right _ hx)
      have hbefore : ∀ run, w.state.db.runs.get? r = some run → run.provenance = o := by
        simp [hnone]
      rw [hstate]
      exact good_applyAll (σ := storage) (puts_apply column_provenance (B := fun c => c = o) rfl)
        hwrites hbefore
    cases hget : w'.state.db.runs.get? r with
    | some run => exact ⟨run, rfl, by rw [hkind, ho, hcreated run hget]⟩
    | none =>
        have hempty : w'.state.db.transitionsOf r = [] :=
          congrArg RunView.transitions (hafter.absent hget)
        rw [htransitions, List.append_eq_nil_iff] at hempty
        rw [hempty.2] at hx
        cases hx

theorem Reachable.authored (h : Reachable rt settings templates w) :
    ∀ x ∈ w.state.db.transitionsOf r, ∃ previous target, x = (some previous, some target) ∧
      Authored w r previous target := by
  induction h with
  | refl => exact fun x hx => by cases hx
  | @step w w' a hbefore hstep _ ih =>
      have hbefore : Reachable rt settings templates w := hbefore
      have hkept {x : Option RunStatus × Option RunStatus} (hx : x ∈ w.state.db.transitionsOf r) :
          ∃ previous target, x = (some previous, some target) ∧ Authored w' r previous target := by
        obtain ⟨previous, target, heq, hauthored⟩ := ih x hx
        exact ⟨previous, target, heq, hauthored.step hbefore hstep⟩
      intro x hx
      rcases World.db_step hstep with ⟨j, i, q, p, rfl, hq, hp, hkind, hcommitted, hstate⟩ | hsame
      · rw [hstate, transitionsOf_applyAll, List.mem_append] at hx
        rcases hx with hx | hx
        · exact hkept hx
        · exact hbefore.authored_commit hstep hq hp hkind hcommitted hstate hx
      · rw [hsame] at hx
        exact hkept hx

/-- Who may enter a transition of the run. -/
inductive Author (db : Db) (r : Uuid) (q : Process) : RunStatus → RunStatus → Prop where
  | submitted (body : RunCreate) (createdBy : Uuid) (correlationId : RequestId)
      (hkind : q.kind = .createRun body createdBy correlationId)
      (hcreator : ∃ run, db.runs.get? r = some run ∧ run.createdBy = createdBy ∧
        run.parentRunId = none) :
      Author db r q draft queued
  | retried (parentId : Uuid) (body : RunRetryRequest) (user : User) (correlationId : RequestId)
      (hkind : q.kind = .retryRun parentId body user correlationId)
      (hcontrols : db.Controlled user parentId) (hcreator : ∃ run, db.runs.get? r = some run ∧
        run.createdBy = user.id ∧ run.parentRunId = some parentId) :
      Author db r q draft queued
  | assigned (hkind : q.kind = .schedule) : Author db r q queued scheduling
  | requeued (hkind : q.kind = .schedule) : Author db r q scheduling queued
  | started (hdelivers : q.kind.delivers r) : Author db r q scheduling running
  | cancelRequested (user : User) (correlationId : RequestId)
      (hkind : q.kind = .cancelRun r user correlationId) (hcontrols : db.Controlled user r) :
      Author db r q running cancelling
  | executed (previous target : RunStatus) (hdelivers : q.kind.delivers r)
      (hstarted : 0 < startsOf r q.session.committed) (h : (previous, target) ∈
        [(running, succeeded), (running, failed), (cancelling, cancelled)]) :
      Author db r q previous target
  | recovered (previous target : RunStatus) (hkind : q.kind = .schedule)
      (h : (previous, target) ∈ [(running, failed), (cancelling, cancelled)]) :
      Author db r q previous target

/-- Every transition of a run was entered by a session that may enter it:
submissions and retries by the one who is now the creator of the run, a retry
by one who controls the parent of the run, a request to cancel by one who controls the
run; and the outcome of an execution by the delivery that has started it, or
by the scheduler, which records no success. -/
theorem transitions_authored (h : Reachable rt settings templates w)
    {x : Option RunStatus × Option RunStatus} (hx : x ∈ w.state.db.transitionsOf r) :
    ∃ (previous target : RunStatus) (pid : ℕ) (q : Process), x = (some previous, some target) ∧
      w.procs[pid]? = some q ∧
      .transition (some previous) (some target) ∈ entries r q.session.committed ∧
      Author w.state.db r q previous target := by
  obtain ⟨previous, target, rfl, pid, q, l, hq, hentry, hallows, hmakes, hcreated⟩ := h.authored x hx
  refine ⟨previous, target, pid, q, rfl, hq, hentry, ?_⟩
  have hdone : q.session.committed ≠ [] := by
    intro hnone
    rw [hnone] at hentry
    cases hentry
  have hmem := List.mem_of_getElem? hq
  cases hkind : q.kind with
  | createRun body createdBy correlationId =>
      rw [hkind] at hallows hcreated
      cases hmakes with
      | create =>
          obtain ⟨run, hget, hprovenance⟩ := hcreated rfl
          obtain ⟨rfl, hparent⟩ := Prod.mk.inj (Option.some.inj hprovenance)
          exact .submitted body _ correlationId hkind ⟨run, hget, rfl, hparent.symm⟩
      | _ => cases hallows
  | retryRun parentId body user correlationId =>
      rw [hkind] at hallows hcreated
      cases hmakes with
      | create =>
          obtain ⟨run, hget, hprovenance⟩ := hcreated rfl
          obtain ⟨hcreator, hparent⟩ := Prod.mk.inj (Option.some.inj hprovenance)
          have hcontrols : w.state.db.Controlled user parentId :=
            h.controlled hmem (by rw [hkind]; rfl) hdone
          exact .retried parentId body user correlationId hkind hcontrols
            ⟨run, hget, hcreator.symm, hparent.symm⟩
      | _ => cases hallows
  | cancelRun runId user correlationId =>
      rw [hkind] at hallows
      cases hmakes with
      | requestCancel =>
          obtain rfl : runId = r := hallows
          have hcontrols : w.state.db.Controlled user runId :=
            h.controlled hmem (by rw [hkind]; rfl) hdone
          exact .cancelRequested user correlationId hkind hcontrols
      | _ => cases hallows
  | schedule =>
      rw [hkind] at hallows
      cases hmakes with
      | assign => exact .assigned hkind
      | requeue => exact .requeued hkind
      | finish previous target lease hpair =>
          refine .recovered previous target hkind ?_
          have htarget : target ∈ [failed, cancelled] := hallows
          revert hpair htarget
          cases previous <;> cases target <;> simp
      | create | start | requestCancel => cases hallows
  | processEvent event workerId =>
      rw [hkind] at hallows
      have hdelivers (hrun : event.runId = some r) : q.kind.delivers r := ⟨event, workerId, hkind, hrun⟩
      cases hmakes with
      | start => exact .started (hdelivers hallows.1)
      | finish previous target lease hpair =>
          refine .executed previous target (hdelivers hallows.1) ?_ hpair
          rcases h.begun hmem (hdelivers hallows.1) with hnone | ⟨rest, hrest⟩
          · rw [hnone] at hentry
            cases hentry
          · exact startsOf_pos ⟨_, hrest ▸ List.mem_append_left _ (List.mem_singleton.mpr rfl)⟩
      | create | assign | requeue | requestCancel => cases hallows
  | updateRunMetadata | registerWorker | heartbeat | dispatchBatch =>
      rw [hkind] at hallows
      cases hmakes <;> cases hallows

/-! ### Notes and tags -/

/-- Only an edit of the run may edit it. -/
theorem edits_of_allows {κ : Kind} (h : κ.allows r .edit) :
    ∃ body user, κ = .updateRunMetadata r body user := by
  cases κ with
  | updateRunMetadata runId body user =>
      obtain rfl : runId = r := h
      exact ⟨body, user, rfl⟩
  | _ => cases h

/-- What the commit of an edit leaves. -/
theorem Reachable.edited (h : Reachable rt settings templates w) {j : ℕ} {q : Process}
    (hq : w.procs[j]? = some q) {body : RunMetadataUpdate}
    (hkind : q.kind = .updateRunMetadata r body user) {annotations : String × List String}
    (hbefore : ∀ run, w.state.db.runs.get? r = some run → (run.notes, run.tags) = annotations) :
    ∀ run, (storage.applyAll w.state q.session.writes).db.runs.get? r = some run →
      (run.notes, run.tags) = annotations ∨
        (run.notes, run.tags) = (body.notes, normalizedTags rt body.tags) := by
  have hwrites := (h.trails (P := fun trail => ∀ x ∈ trail,
      x.Puts (fun run => (run.notes, run.tags)) (body.notes, normalizedTags rt body.tags))
    (fun κ => κ = .updateRunMetadata r body user) (by simp) (fun _ hκ => edit_trails hκ)
    (List.mem_of_getElem? hq) hkind).flushed
  exact good_applyAll (σ := storage) (puts_apply column_annotations
      (B := fun c => c = annotations ∨ c = (body.notes, normalizedTags rt body.tags)) (.inr rfl))
    (fun x hx => hwrites x (List.mem_append_right _ hx)) fun run hget => .inl (hbefore run hget)

/-- An edit of the run has sent these notes and tags and committed, and its user
controls the run. -/
def Edited (rt : Runtime) (w : Cluster) (r : Uuid) (annotations : String × List String) : Prop :=
  ∃ (pid : ℕ) (q : Process) (body : RunMetadataUpdate) (user : User), w.procs[pid]? = some q ∧
    q.kind = .updateRunMetadata r body user ∧ q.session.committed ≠ [] ∧
    w.state.db.Controlled user r ∧ annotations = (body.notes, normalizedTags rt body.tags)

theorem Edited.step {annotations : String × List String} (h : Edited rt w r annotations)
    (hreach : Reachable rt settings templates w)
    (hstep : w.step (system rt settings) a = some w') : Edited rt w' r annotations := by
  obtain ⟨pid, q, body, user, hq, hkind, hdone, hcontrolled, hedited⟩ := h
  obtain ⟨q', hq', hkind', rest, hrest⟩ := World.committed_step hstep hq
  have hdone' : q'.session.committed ≠ [] := by simp [← hrest, hdone]
  exact ⟨pid, q', body, user, hq', hkind'.trans hkind, hdone',
    hcontrolled.later ((hreach.later (.step .refl hstep trivial)).2 r), hedited⟩

/-- One step leaves the notes and the tags as they are, or is the commit of an
edit. -/
theorem Reachable.annotated_step (h : Reachable rt settings templates w)
    (hstep : w.step (system rt settings) a = some w') {run : Run}
    (hget : w.state.db.runs.get? r = some run) :
    ∃ run', w'.state.db.runs.get? r = some run' ∧ ((run'.notes, run'.tags) = (run.notes, run.tags) ∨
      Edited rt w' r (run'.notes, run'.tags)) := by
  rcases World.db_step hstep with ⟨j, i, q, p, rfl, hq, hp, hkind, hcommitted, hstate⟩ | hsame
  case inr => exact ⟨run, hsame ▸ hget, .inl rfl⟩
  case inl =>
  rcases h.lives hstep with heq | ⟨j', i', q', ha, hq', hlives⟩
  · exact ⟨run, heq ▸ hget, .inl rfl⟩
  obtain ⟨rfl, rfl⟩ : j = j' ∧ i = i' := by simpa using ha
  obtain rfl := Option.some.inj (hq.symm.trans hq')
  by_cases hallows : q.kind.allows r .edit
  · obtain ⟨body, user, hedit⟩ := edits_of_allows hallows
    by_cases hwrites : q.session.writes = []
    · rw [hwrites] at hstate
      exact ⟨run, by rw [hstate]; exact hget, .inl rfl⟩
    have hsome : (w.state.db.runView r).run.isSome := by
      rw [show (w.state.db.runView r).run = some run from hget]
      rfl
    obtain ⟨run', hget'⟩ := Option.isSome_iff_exists.mp ((hlives r).run_isSome hsome)
    refine ⟨run', hget', ?_⟩
    refine (h.edited hq hedit (fun run₀ hget₀ => ?_) run' (hstate ▸ hget')).imp_right fun hedited => ?_
    · rw [Option.some.inj (hget₀.symm.trans hget)]
    · have hcommand : p.kind.command = some (r, user) := by
        rw [hkind, hedit]
        rfl
      have hdone : p.session.committed ≠ [] := by simp [hcommitted, hwrites]
      exact ⟨j, p, body, user, hp, hkind.trans hedit, hdone,
        (h.step hstep).controlled (List.mem_of_getElem? hp) hcommand hdone, hedited⟩
  · obtain ⟨run', hget', hnotes, htags⟩ := (hlives r).annotations
      (fun l hl heq => hallows (heq ▸ hl)) ⟨run, hget, rfl, rfl⟩
    exact ⟨run', hget', .inl (by rw [hnotes, htags])⟩

/-- The notes and the tags of a run are as they were, or as an edit has left
them whose user controls the run. -/
theorem annotations_authored (h : Reachable rt settings templates w)
    (h' : Reach (system rt settings) (fun _ _ _ => True) w w') {run : Run}
    (hget : w.state.db.runs.get? r = some run) :
    ∃ run', w'.state.db.runs.get? r = some run' ∧ ((run'.notes, run'.tags) = (run.notes, run.tags) ∨
      Edited rt w' r (run'.notes, run'.tags)) := by
  induction h' with
  | refl => exact ⟨run, hget, .inl rfl⟩
  | step hbefore hstep _ ih =>
      have hreach := (h.later hbefore).1
      obtain ⟨run₁, hget₁, hbefore⟩ := ih
      obtain ⟨run₂, hget₂, hsame | hedited⟩ := hreach.annotated_step hstep hget₁
      · refine ⟨run₂, hget₂, ?_⟩
        rw [hsame]
        exact hbefore.imp_right fun hedited => hedited.step hreach hstep
      · exact ⟨run₂, hget₂, .inr hedited⟩

end Worlds

namespace Demo

/-- A slow run is being executed when its creator asks to cancel it. -/
def commanded : List (Action Kind Input) :=
  delivered slow 12 ++ .spawn (.cancelRun 201 ⟨5, .researcher⟩ requestId) :: steps 5 600 8

def remark : RunMetadataUpdate where
  notes := "checked"
  tags := []
  notes_length := of_decide_eq_true rfl
  tags_length := tags_fit

/-- An administrator edits a run. -/
def remarked : List (Action Kind Input) :=
  .spawn (.updateRunMetadata 201 remark ⟨6, .administrator⟩) :: steps 5 700 4

end Demo

/-- The request to cancel is by the creator. -/
theorem transitions_authored_commanded : ∃ w, Reachable Demo.runtime Demo.settings Demo.templates w ∧
    (some running, some cancelling) ∈ w.state.db.transitionsOf 201 ∧
    ∃ (pid : ℕ) (q : Process) (user : User) (correlationId : RequestId), w.procs[pid]? = some q ∧
      q.kind = .cancelRun 201 user correlationId ∧ w.state.db.Controlled user 201 := by
  have h : (Demo.exec Demo.commanded).any fun w =>
      (some running, some cancelling) ∈ w.state.db.transitionsOf 201 := by decide +kernel
  obtain ⟨w, hw, hmem⟩ := Demo.reachable h
  have hmem := of_decide_eq_true hmem
  obtain ⟨previous, target, pid, q, heq, hq, -, hauthor⟩ := transitions_authored hw hmem
  obtain ⟨rfl, rfl⟩ : running = previous ∧ cancelling = target := by simpa using heq
  cases hauthor with
  | cancelRequested user correlationId hkind hcontrols =>
      exact ⟨w, hw, hmem, pid, q, user, correlationId, hq, hkind, hcontrols⟩
  | executed _ _ _ _ h => simp at h
  | recovered _ _ _ h => simp at h

/-- The remark is the administrator's. -/
theorem annotations_authored_remarked : ∃ w w' run',
    Reachable Demo.runtime Demo.settings Demo.templates w ∧
    Reach (system Demo.runtime Demo.settings) (fun _ _ _ => True) w w' ∧
    w'.state.db.runs.get? 201 = some run' ∧ run'.notes = "checked" ∧
    Edited Demo.runtime w' 201 (run'.notes, run'.tags) := by
  have h : (Demo.exec (Demo.delivered Demo.slow 12)).any fun w =>
      ((w.state.db.runs.get? 201).any fun run => run.notes = "") ∧
        (w.exec (system Demo.runtime Demo.settings) Demo.remarked).any fun w' =>
          (w'.state.db.runs.get? 201).any fun run' => run'.notes = "checked" := by decide +kernel
  obtain ⟨w, hw, hlater⟩ := Demo.reachable h
  obtain ⟨hbefore, hlater⟩ := of_decide_eq_true hlater
  obtain ⟨run, hget, hnotes⟩ := (Option.any_eq_true _ _).mp hbefore
  obtain ⟨w', hexec, hafter⟩ := (Option.any_eq_true _ _).mp hlater
  obtain ⟨run', hget', hnotes'⟩ := (Option.any_eq_true _ _).mp hafter
  have hreach := Reach.refl.of_exec hexec
  obtain ⟨run₁, hget₁, hcases⟩ := annotations_authored hw hreach hget
  obtain rfl := Option.some.inj (hget'.symm.trans hget₁)
  rcases hcases with hsame | hedited
  · simp [of_decide_eq_true hnotes, of_decide_eq_true hnotes'] at hsame
  · exact ⟨w, w', run', hw, hreach, hget', of_decide_eq_true hnotes', hedited⟩

end Runscope
