import Mathlib.Tactic.SplitIfs
import Runscope.Catalog
import Runscope.Transact.Regime

/-!
Names of experiments under concurrent requests.

A request looks for a name that is equal ignoring case and commits later; the
unique constraint is on the exact name. What it looks for is the database's
lowercasing of a stored name in Python's of its own. So names stay unique
ignoring case as long as no request misses a name there is, and nobody else
takes the name a request has found to be free.
-/

namespace Runscope

open Transact

/-- The requests that give experiments their names. -/
inductive Request where
  | createExperiment (body : ExperimentCreate) (userId : Uuid)
  | updateExperiment (experimentId : Uuid) (body : ExperimentUpdate)

variable (rt : Runtime)

def Request.code : Request → CatalogProgram Unit
  | createExperiment body userId => do
    let _ ← Runscope.createExperiment rt body userId
  | updateExperiment experimentId body => do
    let _ ← Runscope.updateExperiment rt experimentId body

def catalogSystem :
    System Request Catalog CatalogRow CatalogWrite Call Input Exc CatalogPoint where
  storage := catalogStorage
  code := Request.code rt
  admits _ _ := True
  admits_dec _ _ := instDecidableTrue

abbrev Requests := World Request Catalog CatalogRow CatalogWrite Call Input Exc CatalogPoint

abbrev RequestProcess := Proc Request Catalog CatalogRow CatalogWrite Call Input Exc CatalogPoint

/-- The names are equal after lowercasing, by Python or by the database. -/
def Runtime.SameName (name name' : String) : Prop :=
  rt.lower name = rt.lower name' ∨ rt.sqlLower name = rt.sqlLower name'

instance (name name' : String) : Decidable (rt.SameName name name') :=
  inferInstanceAs (Decidable (_ ∨ _))

theorem Runtime.SameName.symm {name name' : String} (h : rt.SameName name name') :
    rt.SameName name' name := h.imp Eq.symm Eq.symm

/-- No two experiments of a project have names that are equal ignoring case. -/
def DistinctNames (c : Catalog) : Prop :=
  ∀ e ∈ c.experiments.rows, ∀ e' ∈ c.experiments.rows, e.projectId = e'.projectId →
    rt.SameName e.name e'.name → e = e'

/-- The other experiments of the project whose names are equal ignoring case. -/
def NameClaim.namesakes (claim : NameClaim) (c : Catalog) : List Experiment :=
  c.experiments.rows.filter fun e =>
    e.projectId = claim.projectId ∧ rt.SameName e.name claim.name ∧ claim.excludeId ≠ some e.id

/-- Nobody else has the name. -/
def NameClaim.Free (claim : NameClaim) (c : Catalog) : Prop := claim.namesakes rt c = []

/-- Whoever else has the name, the query for it finds. -/
def NameClaim.Visible (claim : NameClaim) (c : Catalog) : Prop :=
  ∀ e ∈ claim.namesakes rt c, rt.sqlLower e.name = rt.lower claim.name

/-- A request that looks for its name misses nobody, and the step of one request
takes no name that another has found to be free and not committed yet. -/
def Unrivalled (w : Requests) (a : Action Request Input) (w' : Requests) : Prop :=
  ∀ pid i, a = .run pid i →
    (∀ q claim, w.procs[pid]? = some q → q.prog.point? = some (.checking claim) →
      claim.Visible rt w.state) ∧
    ∀ j q claim, w.procs[j]? = some q → j ≠ pid → q.prog.point? = some (.holding claim) →
      claim.Free rt w.state → claim.Free rt w'.state

/-- Experiments stay where they are. -/
def Catalog.Persists (c c' : Catalog) : Prop :=
  ∀ e ∈ c.experiments.rows, ∃ e' ∈ c'.experiments.rows, e'.id = e.id ∧ e'.projectId = e.projectId

theorem Catalog.Persists.refl (c : Catalog) : c.Persists c := fun e he => ⟨e, he, rfl, rfl⟩

theorem Catalog.Persists.trans {c c' c'' : Catalog} (h : c.Persists c') (h' : c'.Persists c'') :
    c.Persists c'' := by
  intro e he
  obtain ⟨e', he', hid, hproject⟩ := h e he
  obtain ⟨e'', he'', hid', hproject'⟩ := h' e' he'
  exact ⟨e'', he'', hid'.trans hid, hproject'.trans hproject⟩

abbrev CatalogSession := Transact.Session CatalogRow CatalogWrite Call Input

/-- What the others leave to a request that stands at `pt`. -/
structure Undisputing (pt : CatalogPoint) (t : CatalogSession) (c c' : Catalog) : Prop where
  distinct : DistinctNames rt c'
  persists : c.Persists c'
  free : ∀ claim, pt = .holding claim → claim.Free rt c → claim.Free rt c'
  accepted : catalogStorage.firstError c' t.writes = none

/-- Requests under that condition; their commits keep the names distinct. -/
def namesRegime : Regime Catalog CatalogRow CatalogWrite Call Input CatalogPoint where
  rely := Undisputing rt
  admits pt _ _ c _ := ∀ claim, pt = .checking claim → claim.Visible rt c
  loses _ := True
  need st t c := st = .commit → DistinctNames rt (t.view catalogStorage c) ∧
    c.Persists (t.view catalogStorage c)
  rely_trans h h' := ⟨h'.distinct, h.persists.trans h'.persists,
    fun claim hpt hfree => h'.free claim hpt (h.free claim hpt hfree), h'.accepted⟩

/-! ### What a command does to the names -/

section Writes

variable {rt} {c : Catalog}

theorem NameClaim.free_iff {claim : NameClaim} : claim.Free rt c ↔
    ∀ e ∈ c.experiments.rows, e.projectId = claim.projectId →
      rt.SameName e.name claim.name → claim.excludeId = some e.id := by
  simp only [Free, namesakes, List.filter_eq_nil_iff, decide_eq_true_eq, not_and, not_not]

/-- Where the query misses nobody, what it finds tells. -/
theorem NameClaim.Visible.free {claim : NameClaim} (h : claim.Visible rt c)
    (hrivals : claim.rivals rt c = []) : claim.Free rt c := by
  refine List.eq_nil_iff_forall_not_mem.mpr fun e he => ?_
  have hlower := h e he
  simp only [namesakes, List.mem_filter, decide_eq_true_eq] at he
  obtain ⟨hmem, hproject, -, hother⟩ := he
  have hrival : e ∈ claim.rivals rt c :=
    List.mem_filter.mpr ⟨hmem, by simp [hproject, hlower, hother]⟩
  rw [hrivals] at hrival
  cases hrival

theorem DistinctNames.insert {e : Experiment} (h : DistinctNames rt c)
    (hfree : NameClaim.Free rt ⟨e.projectId, e.name, none⟩ c) :
    DistinctNames rt ((CatalogWrite.insertExperiment e).apply c) := by
  rw [NameClaim.free_iff] at hfree
  have hnew (x : Experiment) (hx : x ∈ c.experiments.rows) (hproject : x.projectId = e.projectId) :
      ¬ rt.SameName x.name e.name := fun hname => by
    simpa using hfree x hx hproject hname
  intro x hx y hy hproject hname
  rcases Table.mem_insert.mp hx with hx' | ⟨-, hxe⟩ <;>
    rcases Table.mem_insert.mp hy with hy' | ⟨-, hye⟩
  · exact h x hx' y hy' hproject hname
  · rw [hye] at hproject hname
    exact absurd hname (hnew x hx' hproject)
  · rw [hxe] at hproject hname
    exact absurd hname.symm (hnew y hy' hproject.symm)
  · rw [hxe, hye]

/-- A change of the row `id` to a name nobody else has. -/
theorem DistinctNames.update {loaded : Experiment} {changed : ExperimentColumns}
    (h : DistinctNames rt c)
    (hname : ∀ e ∈ c.experiments.rows, e.id = loaded.id →
      (Experiment.merge loaded changed e).name = e.name ∨
      ∀ x ∈ c.experiments.rows, x.projectId = e.projectId →
        rt.SameName x.name (Experiment.merge loaded changed e).name → x.id = loaded.id) :
    DistinctNames rt ((CatalogWrite.updateExperiment loaded changed).apply c) := by
  have hsame {x e : Experiment} (hx : x ∈ c.experiments.rows) (he : e ∈ c.experiments.rows)
      (hid : e.id = loaded.id) (hne : x.id ≠ loaded.id) (hproject : x.projectId = e.projectId)
      (hlower : rt.SameName x.name (Experiment.merge loaded changed e).name) : False := by
    rcases hname e he hid with hkept | hfree
    · rw [hkept] at hlower
      obtain rfl := h x hx e he hproject hlower
      exact hne hid
    · exact hne (hfree x hx hproject hlower)
  intro x' hx' y' hy' hproject hlower
  simp only [CatalogWrite.apply, Table.rows_update, List.mem_map] at hx' hy'
  obtain ⟨x, hx, rfl⟩ := hx'
  obtain ⟨y, hy, rfl⟩ := hy'
  split at hproject
  · next hxid =>
    split at hproject
    · next hyid =>
      obtain rfl := Table.eq_of_key hx hy (hxid.trans hyid.symm)
      rfl
    · next hyid =>
      rw [if_pos hxid, if_neg hyid] at hlower
      exact (hsame hy hx hxid hyid hproject.symm hlower.symm).elim
  · next hxid =>
    split at hproject
    · next hyid =>
      rw [if_neg hxid, if_pos hyid] at hlower
      exact (hsame hx hy hyid hxid hproject hlower).elim
    · next hyid =>
      rw [if_neg hxid, if_neg hyid] at hlower ⊢
      exact h x hx y hy hproject hlower

theorem Catalog.Persists.insert (e : Experiment) :
    c.Persists ((CatalogWrite.insertExperiment e).apply c) :=
  fun x hx => ⟨x, Table.mem_insert.mpr (.inl hx), rfl, rfl⟩

theorem Catalog.Persists.update (loaded : Experiment) (changed : ExperimentColumns) :
    c.Persists ((CatalogWrite.updateExperiment loaded changed).apply c) := by
  intro x hx
  refine ⟨_, List.mem_map_of_mem hx, ?_⟩
  split <;> exact ⟨rfl, rfl⟩

end Writes

/-! ### Every request keeps the names distinct -/

section Rules

variable {rt}

abbrev KeepsNames {α : Type} (rt : Runtime) (Q : Except Exc α → CatalogSession → Catalog → Prop) :
    CatalogProgram α → CatalogSession → Catalog → Prop :=
  Prog.Meets catalogStorage (namesRegime rt) Q

variable {α β : Type} {Q : Except Exc α → CatalogSession → Catalog → Prop} {t : CatalogSession}
  {c : Catalog}

/-- A read. -/
theorem KeepsNames.select {pt : CatalogPoint} {query : Catalog → β} {k : β → CatalogProgram α}
    (hQ : ∀ e t c, Q (.error e) t c) (ht : t.writes = [])
    (h : ∀ t' c', c.Persists c' → t'.writes = [] →
      (∀ claim, pt = .checking claim → claim.Visible rt c') →
      KeepsNames rt Q (k (query c')) t' c') :
    KeepsNames rt Q (catalog.select pt query >>= k) t c := by
  refine Prog.Meets.bind (.stmt fun c' h' => ⟨nofun, fun _ => hQ _ _ _, fun i hi => ?_⟩)
  have hview : t.view catalogStorage c' = c' := by rw [Session.view, ht, Storage.applyAll_nil]
  simp only [Stmt.After, Except.map, hview]
  exact h _ _ h'.persists ht hi

/-- What a commit owes the others, in the state they have left. -/
structure Admissible (rt : Runtime) (pending : List CatalogWrite) (c : Catalog) : Prop where
  distinct : DistinctNames rt (catalogStorage.applyAll c pending)
  persists : c.Persists (catalogStorage.applyAll c pending)

/-- The flush and the commit. -/
theorem KeepsNames.commit {pt : CatalogPoint} {pending : List CatalogWrite}
    {Q : Except Exc Unit → CatalogSession → Catalog → Prop} (hQ : ∀ x t c, Q x t c)
    (ht : t.writes = []) (hfree : ∀ claim, pt = .holding claim → claim.Free rt c)
    (h : ∀ c', DistinctNames rt c' → c.Persists c' →
      (∀ claim, pt = .holding claim → claim.Free rt c') →
      catalogStorage.firstError c' pending = none → Admissible rt pending c') :
    KeepsNames rt Q (catalog.commit pt pending) t c := by
  have hstamped (i : Input) : t.stamped catalogStorage i pending = pending := by
    rw [Session.stamped]
    exact List.map_id _
  refine Prog.Meets.bind (.stmt fun c₁ h₁ => ⟨nofun, fun _ => hQ _ _ _, fun i _ =>
    ⟨fun e _ => hQ _ _ _, fun _ => ?_⟩⟩)
  refine .stmt fun c₂ h₂ => ⟨fun _ => ?_, fun _ => hQ _ _ _, fun _ _ => hQ _ _ _⟩
  have hwrites : ((t.begin i).write catalogStorage (t.stamped catalogStorage i pending)).writes =
      pending := by simp [ht, hstamped]
  have haccepted := h₂.accepted
  rw [hwrites] at haccepted
  have hadmissible := h c₂ h₂.distinct (h₁.persists.trans h₂.persists)
    (fun claim hpt => h₂.free claim hpt (h₁.free claim hpt (hfree claim hpt))) haccepted
  rw [Session.view, hwrites]
  exact ⟨hadmissible.distinct, hadmissible.persists⟩

theorem KeepsNames.commitNamed {pt : CatalogPoint} {pending : List CatalogWrite}
    {k : Unit → CatalogProgram α} (hQ : ∀ x t c, Q x t c) (ht : t.writes = [])
    (hfree : ∀ claim, pt = .holding claim → claim.Free rt c)
    (h : ∀ c', DistinctNames rt c' → c.Persists c' →
      (∀ claim, pt = .holding claim → claim.Free rt c') →
      catalogStorage.firstError c' pending = none → Admissible rt pending c')
    (hk : ∀ t c, KeepsNames rt Q (k ()) t c) : KeepsNames rt Q (commitNamed pt pending >>= k) t c := by
  refine Prog.Meets.bind (Prog.Meets.tryCatch (KeepsNames.commit (fun x t c => ?_) ht hfree h))
  cases x with
  | ok _ => exact hk t c
  | error e =>
      cases e with
      | integrity constraint =>
          exact Prog.Meets.bind (.stmt fun c' _ => ⟨nofun, fun _ => hQ _ _ _, fun _ _ => hQ _ _ _⟩)
      | _ => exact hQ _ _ _

/-- Reading the row again writes nothing. -/
theorem KeepsNames.refresh {Q : Except Exc Experiment → CatalogSession → Catalog → Prop}
    (hQ : ∀ x t c, Q x t c) (e : Experiment) (t : CatalogSession) (c : Catalog) :
    KeepsNames rt Q (catalog.refresh e) t c := by
  refine Prog.Meets.bind (.stmt fun c' _ => ⟨nofun, fun _ => hQ _ _ _, fun i _ => ?_⟩)
  dsimp only [Stmt.After, Except.map]
  split <;> exact hQ _ _ _

/-- After the check, nobody else has the name. -/
theorem KeepsNames.ensureUniqueName {k : Unit → CatalogProgram α} {claim : NameClaim}
    (hQ : ∀ e t c, Q (.error e) t c) (ht : t.writes = [])
    (h : ∀ t' c', c.Persists c' → t'.writes = [] → claim.Free rt c' → KeepsNames rt Q (k ()) t' c') :
    KeepsNames rt Q (ensureUniqueName rt claim >>= k) t c := by
  refine Prog.Meets.bind ?_
  rw [Runscope.ensureUniqueName, sendText]
  split
  · refine KeepsNames.select (fun e t c => hQ e t c) ht fun t' c' hp ht' hvisible => ?_
    split
    · next hrivals => exact h t' c' hp ht' ((hvisible claim rfl).free hrivals)
    · exact hQ _ _ _
  · exact hQ _ _ _

theorem createExperiment_keeps {Q : Except Exc Experiment → CatalogSession → Catalog → Prop}
    (hQ : ∀ x t c, Q x t c) (ht : t.writes = []) (body : ExperimentCreate) (userId : Uuid) :
    KeepsNames rt Q (createExperiment rt body userId) t c := by
  have hf := fun e t c => hQ (.error e) t c
  refine Prog.Meets.bind (KeepsNames.select (fun e t c => hf e t c) ht fun t₁ c₁ _ ht₁ _ => ?_)
  split
  · exact hf _ _ _
  refine KeepsNames.ensureUniqueName hf ht₁ fun t₂ c₂ _ ht₂ hfree => ?_
  refine Prog.Meets.bind (.stmt fun c₃ h₃ => ⟨nofun, fun _ => hf _ _ _, fun i _ => ?_⟩)
  refine KeepsNames.commitNamed hQ ht₂ ?_ (fun c₄ hdistinct _ hfree _ => ⟨?_, ?_⟩) (KeepsNames.refresh hQ _)
  · rintro _ ⟨⟩
    exact h₃.free _ rfl hfree
  · exact hdistinct.insert (hfree _ rfl)
  · exact .insert _

theorem name_merge_cases (loaded current : Experiment) (changed : ExperimentColumns) :
    (Experiment.merge loaded changed current).name = current.name ∨
      changed.name = some (Experiment.merge loaded changed current).name := by
  cases hname : changed.name with
  | none => simp [Experiment.merge, assignColumn, hname]
  | some name =>
      by_cases heq : name = loaded.name <;>
        simp [Experiment.merge, assignColumn, mergeColumn, hname, heq]

/-- An accepted update leaves no other experiment of the project with the same
exact name. -/
theorem untaken_of_check {loaded current : Experiment} {changed : ExperimentColumns}
    (hcheck : (CatalogWrite.updateExperiment loaded changed).check c = none)
    (hcurrent : current ∈ c.experiments.rows) (hid : current.id = loaded.id) :
    ∀ x ∈ c.experiments.rows, x.projectId = current.projectId →
      x.name = (Experiment.merge loaded changed current).name → x.id = loaded.id := by
  have hget : c.experiments.get? loaded.id = some current := hid ▸ Table.get?_of_mem hcurrent
  have hviolation := CatalogWrite.violation_of_check hcheck
  simp only [CatalogWrite.violation, hget] at hviolation
  split_ifs at hviolation with hnull htaken
  intro x hx hproject hname
  by_contra hne
  simp only [Catalog.taken, Bool.not_eq_true, List.any_eq_false, decide_eq_true_eq] at htaken
  exact htaken x hx ⟨hproject, hname, hne⟩

/-- Where an update commits: it holds the name it sets, unless that is empty. -/
def ExperimentUpdate.point (body : ExperimentUpdate) (experiment : Experiment) : CatalogPoint :=
  match body.name with
  | some (some name) =>
    if name = "" then .idle else .holding ⟨experiment.projectId, name, some experiment.id⟩
  | _ => .idle

/-- An accepted update keeps the names distinct if the claim is free. -/
theorem admissible_update (hlower : ∀ s, rt.SameName s "" → s = "")
    {body : ExperimentUpdate} {experiment : Experiment} (hdistinct : DistinctNames rt c)
    (hproject : ∀ e ∈ c.experiments.rows, e.id = experiment.id →
      e.projectId = experiment.projectId)
    (hfree : ∀ claim, body.point experiment = .holding claim → claim.Free rt c)
    (hacc : catalogStorage.firstError c
      (experimentUpdate experiment (body.assign experiment.columns)) = none) :
    Admissible rt (experimentUpdate experiment (body.assign experiment.columns)) c := by
  rw [experimentUpdate] at hacc ⊢
  split
  · exact ⟨hdistinct, .refl c⟩
  next hchanged =>
  rw [if_neg hchanged] at hacc
  have hcheck := (catalogStorage.firstError_cons_eq_none.mp hacc).1
  refine ⟨hdistinct.update fun e he hid => ?_, .update _ _⟩
  rcases name_merge_cases experiment e (body.assign experiment.columns) with hkept | hset
  · exact .inl hkept
  by_cases hloaded : (Experiment.merge experiment (body.assign experiment.columns) e).name = e.name
  · exact .inl hloaded
  refine .inr fun x hx hxproject hlowered => ?_
  generalize hmerged : (Experiment.merge experiment (body.assign experiment.columns) e).name = name
    at hset hloaded hlowered
  cases hbody : body.name with
  | none =>
      have hname : experiment.name = name := by
        simpa [ExperimentUpdate.assign, Experiment.columns, hbody] using hset
      refine absurd ?_ hloaded
      rw [← hmerged]
      simp [Experiment.merge, ExperimentUpdate.assign, Experiment.columns, assignColumn,
        mergeColumn, hbody]
  | some name? =>
      obtain rfl : name? = some name := by simpa [ExperimentUpdate.assign, hbody] using hset
      by_cases hempty : name = ""
      · refine untaken_of_check hcheck he hid x hx hxproject ?_
        rw [hmerged, hempty]
        exact hlower _ (hempty ▸ hlowered)
      · have hclaim : body.point experiment =
            .holding ⟨experiment.projectId, name, some experiment.id⟩ := by
          simp [ExperimentUpdate.point, hbody, hempty]
        have hx' := NameClaim.free_iff.mp (hfree _ hclaim) x hx
          (hxproject.trans (hproject e he hid)) hlowered
        exact (Option.some.inj hx').symm

theorem updateExperiment_keeps {Q : Except Exc Experiment → CatalogSession → Catalog → Prop}
    (hlower : ∀ s, rt.SameName s "" → s = "") (hQ : ∀ x t c, Q x t c)
    (ht : t.writes = []) (experimentId : Uuid) (body : ExperimentUpdate) :
    KeepsNames rt Q (updateExperiment rt experimentId body) t c := by
  have hf := fun e t c => hQ (.error e) t c
  refine Prog.Meets.bind (KeepsNames.select (fun e t c => hf e t c) ht fun t₁ c₁ _ ht₁ _ => ?_)
  cases hget : c₁.experiments.get? experimentId with
  | none => exact hf _ _ _
  | some experiment =>
  have hmem := Table.mem_of_get? hget
  -- the experiment does not leave its project
  have hproject {c₂ : Catalog} (hp : c₁.Persists c₂) (e : Experiment)
      (he : e ∈ c₂.experiments.rows) (hid : e.id = experiment.id) :
      e.projectId = experiment.projectId := by
    obtain ⟨e', he', hid', hproject⟩ := hp experiment hmem
    rw [Table.eq_of_key he he' (hid.trans hid'.symm)]
    exact hproject
  have hcommit {t₂ : CatalogSession} {c₂ : Catalog} (hp : c₁.Persists c₂) (ht₂ : t₂.writes = [])
      (hfree : ∀ claim, body.point experiment = .holding claim → claim.Free rt c₂) :
      KeepsNames rt Q (do
        commitNamed (body.point experiment)
          (experimentUpdate experiment (body.assign experiment.columns))
        catalog.refresh experiment) t₂ c₂ := by
    refine KeepsNames.commitNamed hQ ht₂ hfree (fun c₃ hdistinct hp' hfree' hacc => ?_)
      (KeepsNames.refresh hQ _)
    exact admissible_update hlower hdistinct (hproject (hp.trans hp')) hfree' hacc
  have hunchecked (hnone : body.point experiment = .idle) :
      KeepsNames rt Q (do
        commitNamed .idle (experimentUpdate experiment (body.assign experiment.columns))
        catalog.refresh experiment) t₁ c₁ := by
    have := hcommit (.refl c₁) ht₁ (by simp [hnone])
    rwa [hnone] at this
  cases hbody : body.name with
  | none => exact hunchecked (by simp [ExperimentUpdate.point, hbody])
  | some name? =>
      cases name? with
      | none => exact hunchecked (by simp [ExperimentUpdate.point, hbody])
      | some name =>
          by_cases hempty : name = ""
          · simp only [hempty, if_true]
            exact hunchecked (by simp [ExperimentUpdate.point, hbody, hempty])
          · have hclaim : body.point experiment =
                .holding ⟨experiment.projectId, name, some experiment.id⟩ := by
              simp [ExperimentUpdate.point, hbody, hempty]
            simp only [hempty, if_false]
            refine KeepsNames.ensureUniqueName hf ht₁ fun t₂ c₂ hp ht₂ hfree => ?_
            have := hcommit hp ht₂ (by
              rintro claim hc
              obtain rfl := CatalogPoint.holding.inj (hclaim.symm.trans hc)
              exact hfree)
            rwa [hclaim] at this

end Rules

section Worlds

variable {rt} {w w' : Requests}

theorem Request.code_keeps (hlower : ∀ s, rt.SameName s "" → s = "") (κ : Request)
    (c : Catalog) : KeepsNames rt (fun _ _ _ => True) (κ.code rt) .fresh c := by
  cases κ with
  | createExperiment body userId =>
      refine Prog.Meets.bind (createExperiment_keeps (fun x t c => ?_) rfl body userId)
      cases x <;> exact trivial
  | updateExperiment experimentId body =>
      refine Prog.Meets.bind (updateExperiment_keeps hlower (fun x t c => ?_) rfl experimentId body)
      cases x <;> exact trivial

/-- A statement changes the names only where it commits. -/
theorem KeepsNames.moves {p p' : CatalogProgram Unit} {free : CatalogRow → Bool} {i : Input}
    {t t' : CatalogSession} {c c' : Catalog} (h : KeepsNames rt (fun _ _ _ => True) p t c)
    (hdistinct : DistinctNames rt c) (hacc : catalogStorage.firstError c t.writes = none)
    (hexec : p.exec catalogStorage free i t c = some (p', t', c')) :
    DistinctNames rt c' ∧ c.Persists c' := by
  cases p with
  | ret a | raise e => cases hexec
  | step pt st next =>
      have hneed := (h c ⟨hdistinct, .refl c, fun _ _ => id, hacc⟩).1
      cases st with
      | commit =>
          simp only [Prog.exec, Option.some.injEq, Prod.mk.injEq] at hexec
          obtain ⟨-, -, rfl⟩ := hexec
          exact hneed rfl
      | select | rollback | call c =>
          simp only [Prog.exec, Option.some.injEq, Prod.mk.injEq] at hexec
          obtain ⟨-, -, rfl⟩ := hexec
          exact ⟨hdistinct, .refl _⟩
      | lock skip rows =>
          simp only [Prog.exec, Option.ite_none_right_eq_some, Option.some.injEq,
            Prod.mk.injEq] at hexec
          obtain ⟨-, -, -, rfl⟩ := hexec
          exact ⟨hdistinct, .refl _⟩
      | flush writes =>
          simp only [Prog.exec, Option.ite_none_right_eq_some] at hexec
          obtain ⟨-, hexec⟩ := hexec
          split at hexec <;>
            (simp only [Option.some.injEq, Prod.mk.injEq] at hexec
             obtain ⟨-, -, rfl⟩ := hexec
             exact ⟨hdistinct, .refl _⟩)

/-- Along a run the names stay distinct, and every request keeps them so from
where it stands. -/
theorem names_kept (hlower : ∀ s, rt.SameName s "" → s = "") {c : Catalog}
    (hc : c.experiments = .empty) (h : Reach (catalogSystem rt) (Unrivalled rt) (.initial c) w) :
    DistinctNames rt w.state ∧ ∀ (j : ℕ) (q : RequestProcess), w.procs[j]? = some q →
      KeepsNames rt (fun _ _ _ => True) q.prog q.session w.state := by
  induction h with
  | refl =>
      refine ⟨fun e he => ?_, by simp [World.initial]⟩
      have hmem : e ∈ c.experiments.rows := he
      rw [hc] at hmem
      cases hmem
  | @step w w' a h hstep hallowed ih =>
      obtain ⟨hdistinct, hkeeps⟩ := ih
      have hok := h.lawful
      have hok' := (Reach.step h hstep hallowed).lawful
      rcases World.step_cases hstep with ⟨k, rfl, -, rfl⟩ |
        ⟨pid, i, p, prog, t, c', rfl, hp, hexec, rfl⟩ | ⟨pid, p, prog, rfl, hp, hfault, rfl⟩ |
        ⟨pid, p, rfl, hp, rfl⟩
      · refine ⟨hdistinct, fun j q hq => ?_⟩
        rw [List.getElem?_append] at hq
        split at hq
        · exact hkeeps j q hq
        · rw [List.getElem?_singleton, Option.ite_none_right_eq_some] at hq
          obtain rfl := Option.some.inj hq.2
          exact k.code_keeps hlower w.state
      · obtain ⟨hvisible, hunrivalled⟩ := hallowed pid i rfl
        have hacc := hok.accepted pid p hp
        obtain ⟨hdistinct', hpersists⟩ := (hkeeps pid p hp).moves hdistinct hacc hexec
        refine ⟨hdistinct', fun j q hq => ?_⟩
        have hq' := hq
        rw [List.getElem?_set] at hq
        split at hq
        · obtain rfl := Option.some.inj (Option.ite_none_right_eq_some.mp hq).2
          refine Prog.Meets.exec (hkeeps pid p hp)
            (fun pt _ => ⟨hdistinct, .refl _, fun _ _ => id, hacc⟩)
            (fun pt st next hprog claim hpt => hvisible p claim hp ?_) hexec
          rw [hprog, Prog.point?_step, hpt]
        · next hj =>
          cases hpt : q.prog.point? with
          | some pt =>
              exact Prog.Meets.stable hpt ⟨hdistinct', hpersists, fun claim hclaim =>
                hunrivalled j q claim hq (Ne.symm hj) (hclaim ▸ hpt), hok'.accepted j q hq'⟩
                (hkeeps j q hq)
          | none =>
              cases hprog : q.prog with
              | step pt st next => simp [hprog] at hpt
              | ret x | raise e => exact trivial
      · refine ⟨hdistinct, fun j q hq => ?_⟩
        rw [List.getElem?_set] at hq
        split at hq
        · obtain rfl := Option.some.inj (Option.ite_none_right_eq_some.mp hq).2
          exact Prog.Meets.fault (hkeeps pid p hp)
            (fun pt _ => ⟨hdistinct, .refl _, fun _ _ => id, hok.accepted pid p hp⟩) trivial hfault
        · exact hkeeps j q hq
      · refine ⟨hdistinct, fun j q hq => ?_⟩
        rw [List.getElem?_set] at hq
        split at hq
        · obtain rfl := Option.some.inj (Option.ite_none_right_eq_some.mp hq).2
          exact trivial
        · exact hkeeps j q hq

/-- If a request that looks for its name misses nobody, and nobody takes a name
that another request has found to be free and not committed yet, no two
experiments of a project ever have names that are equal ignoring case. Only the
empty text is lowercased to the empty text. -/
theorem names_distinct (hlower : ∀ s, rt.SameName s "" → s = "") {c : Catalog}
    (hc : c.experiments = .empty) (h : Reach (catalogSystem rt) (Unrivalled rt) (.initial c) w) :
    DistinctNames rt w.state := (names_kept hlower hc h).1

end Worlds

/-! ### Two requests at once -/

namespace Demo

/-- Lowercases the names used below, each side in its own way: a sigma at the
end of a word is another letter to Python. -/
def lowering : Runtime where
  lower s :=
    if s = "Baseline" then "baseline" else if s = "ΟΔΟΣ" ∨ s = "οδοΣ" then "οδος" else s
  sqlLower s :=
    if s = "Baseline" then "baseline" else if s = "ΟΔΟΣ" ∨ s = "οδοΣ" then "οδοσ" else s
  sha256 _ := ""
  toInt _ := none
  toFloat _ := none
  toBool _ := none
  errors _ := ""

theorem lowering_empty (s : String) (h : lowering.SameName s "") : s = "" := by
  have hlower : lowering.lower "" = "" := by decide
  have hsqlLower : lowering.sqlLower "" = "" := by decide
  rw [Runtime.SameName, hlower, hsqlLower] at h
  simp only [lowering] at h
  by_cases hbaseline : s = "Baseline"
  · simp [hbaseline] at h
  · by_cases hsigma : s = "ΟΔΟΣ" ∨ s = "οδοΣ"
    · simp [hbaseline, hsigma] at h
    · simpa [hbaseline, hsigma] using h

/-- One project, no experiment. -/
def vision : Catalog where
  projects := ⟨[⟨1, "Vision", "", 5⟩], by decide⟩
  experiments := .empty
  platform :=
    { db :=
        { templates := .empty
          runs := .empty
          parameters := []
          metrics := []
          logs := []
          artifacts := []
          events := []
          workers := .empty
          allocations := .empty
          outbox := .empty
          processed := [] }
      topic := []
      objects := []
      executions := [] }

def create (name : String) (name_length : name.length ≤ 120) : Request :=
  .createExperiment ⟨1, name, "", [], name_length, by decide, by decide⟩ 5

/-- `count` statements of request `pid`, which draws the UUID `id`. -/
def requestSteps (pid count id : ℕ) : List (Action Request Input) :=
  List.replicate count (.run pid ⟨0, id, none, false, ⟨[], [], []⟩⟩)

/-- Both requests look for the name before either of them commits. -/
def overlapping (name name' : String) (name_length : name.length ≤ 120)
    (name_length' : name'.length ≤ 120) : List (Action Request Input) :=
  [.spawn (create name name_length), .spawn (create name' name_length')] ++
    requestSteps 0 3 10 ++ requestSteps 1 3 11 ++ requestSteps 0 2 10 ++ requestSteps 1 2 11

/-- The second request begins when the first is over. -/
def successive (name name' : String) (name_length : name.length ≤ 120)
    (name_length' : name'.length ≤ 120) : List (Action Request Input) :=
  [.spawn (create name name_length)] ++ requestSteps 0 6 10 ++
    [.spawn (create name' name_length')] ++ requestSteps 1 6 11

/-- Two experiments of a project have the same name. -/
def clashing (w : Requests) : Bool :=
  w.state.experiments.rows.any fun e => w.state.experiments.rows.any fun e' =>
    e.projectId = e'.projectId ∧ lowering.SameName e.name e'.name ∧ e ≠ e'

theorem clashing_sound {w : Requests} (h : clashing w) : ¬ DistinctNames lowering w.state := by
  simp only [clashing, List.any_eq_true, decide_eq_true_eq] at h
  obtain ⟨e, he, e', he', hproject, hname, hne⟩ := h
  exact fun hdistinct => hne (hdistinct e he e' he' hproject hname)

/-- The step is that of a request which misses nobody and takes no name that
another one holds. -/
def unrivalled (w : Requests) (a : Action Request Input) (w' : Requests) : Bool :=
  match a with
  | .run pid _ => w.procs.zipIdx.all fun q =>
      match q.1.prog.point? with
      | some (.checking claim) => q.2 ≠ pid ∨ (claim.namesakes lowering w.state).all fun e =>
          lowering.sqlLower e.name = lowering.lower claim.name
      | some (.holding claim) => q.2 = pid ∨ claim.namesakes lowering w'.state = []
      | _ => true
  | _ => true

theorem unrivalled_sound {w w' : Requests} {a : Action Request Input} (h : unrivalled w a w') :
    Unrivalled lowering w a w' := by
  rintro pid i rfl
  have hall (j : ℕ) (q : RequestProcess) (hq : w.procs[j]? = some q) :=
    List.all_eq_true.mp h (q, j) (List.mk_mem_zipIdx_iff_getElem?.mpr hq)
  refine ⟨fun q claim hq hpt => ?_, fun j q claim hq hj hpt _ => ?_⟩
  · have hq := hall pid q hq
    simpa [hpt, NameClaim.Visible] using hq
  · have hq := hall j q hq
    simpa [hpt, hj, NameClaim.Free] using hq

end Demo

/-- Names do not stay unique ignoring case: not where both requests look before
either commits, and not where the second looks for a name in another lowercase
than the database's. -/
theorem names_clash :
    (∃ w, Reach (catalogSystem Demo.lowering) (fun _ _ _ => True) (.initial Demo.vision) w ∧
      ¬ DistinctNames Demo.lowering w.state) ∧
    ∃ w, Reach (catalogSystem Demo.lowering) (fun _ _ _ => True) (.initial Demo.vision) w ∧
      Demo.lowering.lower "ΟΔΟΣ" = Demo.lowering.lower "οδοΣ" ∧
        ¬ DistinctNames Demo.lowering w.state := by
  have hoverlapping : ((World.initial Demo.vision).exec (catalogSystem Demo.lowering)
      (Demo.overlapping "Baseline" "baseline" (by decide) (by decide))).any Demo.clashing := by
    decide +kernel
  have hsuccessive : ((World.initial Demo.vision).exec (catalogSystem Demo.lowering)
      (Demo.successive "ΟΔΟΣ" "οδοΣ" (by decide) (by decide))).any Demo.clashing := by
    decide +kernel
  obtain ⟨w, hw, hclash⟩ := (Option.any_eq_true _ _).mp hoverlapping
  obtain ⟨w', hw', hclash'⟩ := (Option.any_eq_true _ _).mp hsuccessive
  exact ⟨⟨w, Reach.refl.of_exec hw, Demo.clashing_sound hclash⟩,
    w', Reach.refl.of_exec hw', by decide, Demo.clashing_sound hclash'⟩

/-- Two requests that overlap, each with a name of its own. -/
theorem names_distinct_overlapping : ∃ w, Reach (catalogSystem Demo.lowering)
    (Unrivalled Demo.lowering) (.initial Demo.vision) w ∧ w.state.experiments.rows.length = 2 ∧
      DistinctNames Demo.lowering w.state := by
  have hexec : ((World.initial Demo.vision).execIf (catalogSystem Demo.lowering) Demo.unrivalled
      (Demo.overlapping "Baseline" "ΟΔΟΣ" (by decide) (by decide))).any
      fun w => w.state.experiments.rows.length = 2 := by decide +kernel
  obtain ⟨w, hw, hrows⟩ := (Option.any_eq_true _ _).mp hexec
  have hreach := Reach.of_execIf (fun _ _ _ => Demo.unrivalled_sound) .refl hw
  exact ⟨w, hreach, of_decide_eq_true hrows, names_distinct Demo.lowering_empty rfl hreach⟩

end Runscope
