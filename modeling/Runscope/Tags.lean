import Runscope.Annotations
import Runscope.Reachable
import Runscope.Transact.Turn

/-!
The tags of runs.

Submitted tags are brought into a normal form when a run is submitted and when
its metadata is edited; a retry takes over what is stored. Editing also checks
the length of a tag, submitting does not. As long as no submission has a longer
tag, what is stored is what an edit would make of it.
-/

namespace Runscope

open Transact

/-- What is assumed of `str.lower`. -/
structure Runtime.Lowers (rt : Runtime) : Prop where
  lower_lower : ∀ s, rt.lower (rt.lower s) = rt.lower s
  strip_lower : ∀ s, rt.strip (rt.lower s) = rt.lower (rt.strip s)
  nonempty : ∀ s, s ≠ "" → rt.lower s ≠ ""

/-- The normal forms of the submitted tags that are not blank. -/
def normalForms (rt : Runtime) (tags : List String) : List String :=
  (tags.filter fun tag => rt.strip tag ≠ "").map fun tag => rt.lower (rt.strip tag)

/-- The canonical form of a submitted list. -/
structure Canonical (rt : Runtime) (submitted tags : List String) : Prop where
  trimmed : ∀ tag ∈ tags, rt.strip tag = tag
  lowercase : ∀ tag ∈ tags, rt.lower tag = tag
  nonempty : ∀ tag ∈ tags, tag ≠ ""
  nodup : tags.Nodup
  short : ∀ tag ∈ tags, tag.length ≤ 40
  few : tags.length ≤ 20
  mem_iff : ∀ tag, tag ∈ tags ↔ tag ∈ normalForms rt submitted
  /-- in order of first occurrence -/
  order : tags.Pairwise fun a b =>
    (normalForms rt submitted).idxOf a < (normalForms rt submitted).idxOf b

section Forms

variable {rt : Runtime} {submitted tags : List String}

theorem normalizedTags_eq (rt : Runtime) (tags : List String) :
    normalizedTags rt tags = (normalForms rt tags).eraseDups := rfl

/-- A normal form is its own. -/
theorem normalForms_fixed (hrt : rt.Lowers) {tag : String} (h : tag ∈ normalForms rt submitted) :
    rt.strip tag = tag ∧ rt.lower tag = tag ∧ tag ≠ "" := by
  obtain ⟨s, hs, rfl⟩ := List.mem_map.mp h
  have hblank : rt.strip s ≠ "" := by simpa using (List.mem_filter.mp hs).2
  refine ⟨?_, hrt.lower_lower _, hrt.nonempty _ hblank⟩
  rw [hrt.strip_lower]
  exact congrArg rt.lower (Python.strip_strip s)

theorem length_normalizedTags_le (rt : Runtime) (tags : List String) :
    (normalizedTags rt tags).length ≤ tags.length := by
  rw [normalizedTags_eq]
  calc (normalForms rt tags).eraseDups.length
      ≤ (normalForms rt tags).length := (Python.eraseDups_sublist _).length_le
    _ ≤ tags.length := by
      rw [normalForms, List.length_map]
      exact List.length_filter_le _ _

theorem canonical_normalizedTags (hrt : rt.Lowers) (hfew : submitted.length ≤ 20)
    (hshort : ∀ tag ∈ normalizedTags rt submitted, tag.length ≤ 40) :
    Canonical rt submitted (normalizedTags rt submitted) where
  trimmed _ h := (normalForms_fixed hrt (List.mem_eraseDups.mp h)).1
  lowercase _ h := (normalForms_fixed hrt (List.mem_eraseDups.mp h)).2.1
  nonempty _ h := (normalForms_fixed hrt (List.mem_eraseDups.mp h)).2.2
  nodup := Python.nodup_eraseDups _
  short := hshort
  few := (length_normalizedTags_le rt submitted).trans hfew
  mem_iff _ := List.mem_eraseDups
  order := Python.pairwise_idxOf_eraseDups _

/-- Canonical tags are a fixed point. -/
theorem Canonical.normalForms_eq (h : Canonical rt submitted tags) : normalForms rt tags = tags := by
  have hkept : tags.filter (fun tag => rt.strip tag ≠ "") = tags := by
    refine List.filter_eq_self.mpr fun tag htag => ?_
    simp [h.trimmed tag htag, h.nonempty tag htag]
  rw [normalForms, hkept]
  refine (List.map_congr_left fun tag htag => ?_).trans (List.map_id tags)
  rw [h.trimmed tag htag, h.lowercase tag htag, id]

end Forms

/-- The tags a session submits. -/
def Kind.submittedTags : Kind → Option (List String)
  | createRun body _ _ => some body.tags
  | updateRunMetadata _ body _ => some body.tags
  | _ => none

/-- A submission that begins here has no tag of more than 40 characters. -/
def ShortTags (rt : Runtime) (_ : Cluster) (a : Action Kind Input) (_ : Cluster) : Prop :=
  ∀ body createdBy correlationId, a = .spawn (.createRun body createdBy correlationId) →
    ∀ tag ∈ normalizedTags rt body.tags, tag.length ≤ 40

section Stored

variable {rt : Runtime} {settings : Settings} {templates : Table TrainingTemplate.id} {w : Cluster}

/-- Stored notes and tags are those of a request. -/
theorem tags_submitted (h : Reach (system rt settings) (ShortTags rt) (.initial (.empty templates)) w)
    {r : Uuid} {run : Run} (hget : w.state.db.runs.get? r = some run) :
    run.notes.length ≤ 4000 ∧ ∃ q ∈ w.procs, ∃ submitted, q.kind.submittedTags = some submitted ∧
      submitted.length ≤ 20 ∧ run.tags = normalizedTags rt submitted ∧
      ∀ tag ∈ normalizedTags rt submitted, tag.length ≤ 40 := by
  have hgood := Reach.writes (Noted ⟨fun terms => terms.notes.length ≤ 4000 ∧
      ∃ q ∈ w.procs, ∃ submitted, q.kind.submittedTags = some submitted ∧
        submitted.length ≤ 20 ∧ terms.tags = normalizedTags rt submitted ∧
        ∀ tag ∈ normalizedTags rt submitted, tag.length ≤ 40, fun _ => True⟩)
    noted_stamp noted_apply noted_perform
    (by simp [Noted, Platform.empty]) (fun w₁ a w₂ κ hallowed ha => ?_) h.spawned
  · exact hgood.state r run hget
  obtain ⟨hshort, hspawned⟩ := hallowed
  obtain ⟨q, hq, hkind⟩ := hspawned κ ha
  refine notes_code (fun body createdBy correlationId hκ => ?_)
    (fun runId body user hκ hbody _ _ => ?_) fun _ _ => trivial
  · subst hκ
    exact ⟨body.notes_length, q, hq, body.tags, by rw [hkind]; rfl, body.tags_length, rfl,
      hshort _ _ _ ha⟩
  · subst hκ
    exact ⟨body.notes_length, q, hq, body.tags, by rw [hkind]; rfl, body.tags_length, rfl, hbody⟩

/-- A row that is read back is returned. -/
theorem refreshed_leads {env : Surroundings Platform RowKey Write Call Input} {p : Platform}
    {run : Run} {turn : Turn Platform RowKey Write Call Input}
    {Q : Except Exc Run → Turn Platform RowKey Write Call Input → Prop}
    (hget : p.db.runs.get? run.id = some run) (h : Q (.ok run) turn) :
    Prog.Leads storage env (match p.db.runs.get? run.id with
      | some run => .ret run
      | none => .raise (.other "InvalidRequestError") : Program Run) turn Q := by
  rw [hget]
  exact Prog.Leads.ret h

/-- An edit with what is stored changes nothing about the run. -/
theorem updateRunMetadata_unchanged {p : Platform} {run : Run} {submitted : List String}
    (hcanonical : Canonical rt submitted run.tags) {r : Uuid} (hget : p.db.runs.get? r = some run)
    {body : RunMetadataUpdate} (hnotes : body.notes = run.notes) (htags : body.tags = run.tags)
    {user : User} (huser : ensureRunControl user run = .ok ())
    {env : Surroundings Platform RowKey Write Call Input} (henv : env.Steady) :
    (updateRunMetadata rt r body user).Leads storage env (.start p) fun outcome turn =>
      outcome = .ok run ∧ turn.state.db.runs = p.db.runs := by
  obtain rfl := Table.key_of_get? hget
  have hlost {P : Prop} {n : ℕ} {st : Stmt Platform RowKey Write Call}
      (h : env.lost n st = true) : P := by
    rw [henv] at h
    cases h
  have hforms : normalForms rt body.tags = run.tags := htags ▸ hcanonical.normalForms_eq
  have hdups : run.tags.eraseDups = run.tags := Python.eraseDups_of_nodup hcanonical.nodup
  have hshort : ¬ ((normalForms rt body.tags).any fun tag => 40 < tag.length) = true := by
    rw [hforms, List.any_eq_true]
    rintro ⟨tag, htag, hlong⟩
    exact absurd (hcanonical.short tag htag) (not_le.mpr (of_decide_eq_true hlong))
  unfold updateRunMetadata getRunOr404
  refine Prog.Leads.bind (Prog.Leads.bind (Prog.Leads.select hlost fun i => ?_))
  have hview : (Turn.start p : Turn Platform RowKey Write Call Input).view storage = p := rfl
  simp only [hview, hget]
  refine Prog.Leads.ret (Prog.Leads.bind ?_)
  rw [huser]
  refine Prog.Leads.ret ?_
  have hedited : { run with notes := body.notes, tags := (normalForms rt body.tags).eraseDups } = run := by
    rw [hforms, hdups, hnotes]
  unfold normalForms at hshort hedited
  rw [if_neg hshort, hedited, if_pos rfl, if_pos hnotes]
  dsimp only
  refine Prog.Leads.bind (Prog.Leads.ret ?_)
  refine Prog.Leads.bind (Prog.Leads.bind (Prog.Leads.flush hlost (fun i e herror => ?_) fun i _ => ?_))
  · cases herror
  refine Prog.Leads.commit hlost fun i => ?_
  refine Prog.Leads.bind (Prog.Leads.select hlost fun i => ?_)
  -- an event has been added, and the row is read back as it was
  exact refreshed_leads hget ⟨rfl, rfl⟩

/-- An edit with a tag that is too long is refused. -/
theorem updateRunMetadata_refused {p : Platform} {run : Run} (hget : p.db.runs.get? run.id = some run)
    {body : RunMetadataUpdate} (hlong : ∃ tag ∈ normalForms rt body.tags, 40 < tag.length)
    {user : User} (huser : ensureRunControl user run = .ok ())
    {env : Surroundings Platform RowKey Write Call Input} (henv : env.Steady) :
    (updateRunMetadata rt run.id body user).Leads storage env (.start p) fun outcome turn =>
      (∃ error, outcome = .error (.app error) ∧ error.code = "invalid_tags") ∧ turn.state = p := by
  have hlost {P : Prop} {n : ℕ} {st : Stmt Platform RowKey Write Call}
      (h : env.lost n st = true) : P := by
    rw [henv] at h
    cases h
  obtain ⟨tag, htag, hlength⟩ := hlong
  have hany : ((normalForms rt body.tags).any fun tag => 40 < tag.length) = true :=
    List.any_eq_true.mpr ⟨tag, htag, decide_eq_true hlength⟩
  unfold updateRunMetadata getRunOr404
  refine Prog.Leads.bind (Prog.Leads.bind (Prog.Leads.select hlost fun i => ?_))
  have hview : (Turn.start p : Turn Platform RowKey Write Call Input).view storage = p := rfl
  simp only [hview, hget]
  refine Prog.Leads.ret (Prog.Leads.bind ?_)
  rw [huser]
  refine Prog.Leads.ret ?_
  unfold normalForms at hany
  rw [if_pos hany]
  exact Prog.Leads.raise ⟨⟨_, rfl, rfl⟩, rfl⟩

/-- As long as no submitted run has a tag of more than 40 characters in normal
form, the tags of every stored run are the canonical form of what some request
submitted; and an edit with the stored notes and tags is accepted and leaves
the run as it is. -/
theorem tags_canonical (hrt : rt.Lowers)
    (h : Reach (system rt settings) (ShortTags rt) (.initial (.empty templates)) w) :
    ∀ r run, w.state.db.runs.get? r = some run →
      (∃ q ∈ w.procs, ∃ submitted, q.kind.submittedTags = some submitted ∧
        Canonical rt submitted run.tags) ∧
      ∃ body : RunMetadataUpdate, body.notes = run.notes ∧ body.tags = run.tags ∧
        ∀ user env, ensureRunControl user run = .ok () → Surroundings.Steady env →
          (updateRunMetadata rt r body user).Leads storage env (.start w.state) fun outcome turn =>
            outcome = .ok run ∧ turn.state.db.runs = w.state.db.runs := by
  intro r run hget
  obtain ⟨hnotes, q, hq, submitted, hsubmitted, hfew, htags, hshort⟩ := tags_submitted h hget
  have hcanonical : Canonical rt submitted run.tags := htags ▸ canonical_normalizedTags hrt hfew hshort
  exact ⟨⟨q, hq, submitted, hsubmitted, hcanonical⟩, ⟨run.notes, run.tags, hnotes, hcanonical.few⟩,
    rfl, rfl, fun user env huser henv => updateRunMetadata_unchanged hcanonical hget rfl rfl huser henv⟩

end Stored

namespace Demo

/-- `str.lower` of ASCII letters. -/
def lowercase : Runtime :=
  { runtime with
    lower := fun s => String.ofList (s.toList.map Char.toLower)
    sqlLower := fun s => String.ofList (s.toList.map Char.toLower) }

theorem mem_of_isUpper {c : Char} (h : c.isUpper) : c ∈ (List.range' 65 26).map Char.ofNat := by
  have hbounds : 65 ≤ c.toNat ∧ c.toNat ≤ 90 := by
    have hvalues : c.val ≥ 'A'.val ∧ c.val ≤ 'Z'.val := of_decide_eq_true h
    exact ⟨hvalues.1, hvalues.2⟩
  refine List.mem_map.mpr ⟨c.toNat, List.mem_range'.mpr ⟨c.toNat - 65, by omega, by omega⟩, ?_⟩
  exact Char.ofNat_toNat c

theorem toLower_fixed (c : Char) :
    c.toLower.toLower = c.toLower ∧ Python.isSpace c.toLower = Python.isSpace c := by
  by_cases h : c.isUpper
  · have hall : ((List.range' 65 26).map Char.ofNat).all fun c =>
        c.toLower.toLower = c.toLower ∧ Python.isSpace c.toLower = Python.isSpace c := by decide
    simpa using List.all_eq_true.mp hall c (mem_of_isUpper h)
  · have hsame : c.toLower = c := dif_neg fun hupper => h (decide_eq_true hupper)
    simp [hsame]

theorem lowercase_lowers : lowercase.Lowers where
  lower_lower s := by
    have hfixed : Char.toLower ∘ Char.toLower = Char.toLower := funext fun c => (toLower_fixed c).1
    show String.ofList (List.map _ (String.ofList _).toList) = _
    rw [String.toList_ofList, List.map_map, hfixed]
    rfl
  strip_lower s := Python.strip_map (fun c => (toLower_fixed c).2) s
  nonempty s hs hempty := by
    have hnil : s.toList.map Char.toLower = [] := String.ofList_injective hempty
    exact hs (by simpa using hnil)

/-- A submission with these tags. -/
def tagged (tags : List String) (tags_length : tags.length ≤ 20) : RunCreate :=
  { slow with tags := tags, tags_length := tags_length }

/-- The submission goes through. -/
def submitted (body : RunCreate) : List (Action Kind Input) :=
  .spawn (.createRun body 5 requestId) :: steps 0 100 10

def shortTags (_ : Cluster) (a : Action Kind Input) (_ : Cluster) : Bool :=
  match a with
  | .spawn (.createRun body _ _) => (normalizedTags lowercase body.tags).all fun tag => tag.length ≤ 40
  | _ => true

theorem shortTags_sound {w w' : Cluster} {a : Action Kind Input} (h : shortTags w a w') :
    ShortTags lowercase w a w' := by
  rintro body createdBy correlationId rfl tag htag
  simpa using List.all_eq_true.mp h tag htag

end Demo

/-- A tag of 41 characters is stored, and no edit accepts it. -/
theorem tags_long : ∃ w run, Reachable Demo.lowercase Demo.settings Demo.templates w ∧
    w.state.db.runs.get? 101 = some run ∧ (∃ tag ∈ run.tags, tag.length = 41) ∧
    ∀ body : RunMetadataUpdate, body.tags = run.tags → ∀ user env, Surroundings.Steady env →
      ensureRunControl user run = .ok () →
      (updateRunMetadata Demo.lowercase 101 body user).Leads storage env (.start w.state)
        fun outcome turn => (∃ error, outcome = .error (.app error) ∧ error.code = "invalid_tags") ∧
          turn.state = w.state := by
  have h : ((World.initial (.empty Demo.templates)).exec (system Demo.lowercase Demo.settings)
      (Demo.submitted (Demo.tagged ["".pushn 'x' 41] (by decide)))).any fun w : Cluster =>
        (w.state.db.runs.get? 101).any fun run =>
          run.id = 101 ∧ run.tags.any fun tag =>
            tag.length = 41 ∧ tag ∈ normalForms Demo.lowercase run.tags := by
    decide +kernel
  obtain ⟨w, hexec, hrun⟩ := (Option.any_eq_true _ _).mp h
  obtain ⟨run, hget, hcheck⟩ := (Option.any_eq_true _ _).mp hrun
  obtain ⟨hid, hany⟩ := of_decide_eq_true hcheck
  obtain ⟨tag, htag, hlong⟩ := List.any_eq_true.mp hany
  obtain ⟨hlength, hform⟩ := of_decide_eq_true hlong
  refine ⟨w, run, Reach.refl.of_exec hexec, hget, ⟨tag, htag, hlength⟩,
    fun body htags user env henv huser => ?_⟩
  have hget' : w.state.db.runs.get? run.id = some run := by rw [hid, hget]
  have hlong : ∃ tag ∈ normalForms Demo.lowercase body.tags, 40 < tag.length :=
    ⟨tag, htags ▸ hform, by omega⟩
  have hrefused := updateRunMetadata_refused hget' hlong huser henv
  rwa [hid] at hrefused

/-- Spaces, capitals and repetitions are gone. -/
theorem tags_canonical_submitted : ∃ (w : Cluster) (run : Run), w.state.db.runs.get? 101 = some run ∧
    run.tags = ["baseline", "iris"] ∧ ∃ q ∈ w.procs, ∃ submitted,
      Kind.submittedTags q.kind = some submitted ∧ Canonical Demo.lowercase submitted run.tags := by
  have h : ((World.initial (.empty Demo.templates)).execIf (system Demo.lowercase Demo.settings)
      Demo.shortTags
      (Demo.submitted (Demo.tagged [" Baseline", "iris", "", "BASELINE"] (by decide)))).any
        fun w : Cluster => (w.state.db.runs.get? 101).any fun run =>
          run.tags = ["baseline", "iris"] := by decide +kernel
  obtain ⟨w, hexec, hrun⟩ := (Option.any_eq_true _ _).mp h
  obtain ⟨run, hget, htags⟩ := (Option.any_eq_true _ _).mp hrun
  have hreach := Reach.of_execIf (fun _ _ _ => Demo.shortTags_sound) .refl hexec
  obtain ⟨hcanonical, -⟩ := tags_canonical Demo.lowercase_lowers hreach 101 run hget
  exact ⟨w, run, hget, of_decide_eq_true htags, hcanonical⟩

end Runscope
