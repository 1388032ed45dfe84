import Runscope.Pages
import Runscope.RunExecution

/-!
Comparison of runs (`compare_runs` of `api/runs.py`).

The database returns the runs in any order; they are put in the order of the
request. The history of a metric is read in the order of its steps into a
dictionary, so the value at the last step remains.
-/

namespace Runscope

open Transact

structure RunComparisonItem where
  run : Run
  parameters : Record
  metrics : List (String × ℚ)
  deriving DecidableEq

structure RunCompareResponse where
  items : List RunComparisonItem
  bestByMetric : List (String × Uuid)
  deriving DecidableEq

/-- How the database comes across the rows: the runs, and the metrics of each. -/
structure CompareScans where
  runs : Sql.Scan Run
  metrics : Uuid → Sql.Scan RunMetric

def duplicateRunIds : AppError where
  code := "duplicate_run_ids"
  message := "Run IDs must be distinct"
  statusCode := 422
  details := []

def runsNotFound : AppError where
  code := "run_not_found"
  message := "One or more runs were not found"
  statusCode := 404
  details := []

def runsNotComparable : AppError where
  code := "runs_not_comparable"
  message := "Only successful runs can be compared"
  statusCode := 409
  details := []

def compareItem (scans : CompareScans) (run : Run) : Program RunComparisonItem := do
  let parameters ← session.select {} fun db => db.storedParameters run.id
  let metrics ← session.select {} fun db =>
    Sql.orderBy (scans.metrics run.id) (.on RunMetric.step)
      (db.metrics.filter fun metric => metric.runId = run.id)
  .ret {
    run := run
    parameters := parameters
    metrics := Python.assigned (metrics.map fun metric => (metric.name, metric.value)) }

/-- `for run in runs: items.append(…)` -/
def compareItems (scans : CompareScans) : List Run → Program (List RunComparisonItem)
  | [] => .ret []
  | run :: runs => do
    let item ← compareItem scans run
    let items ← compareItems scans runs
    .ret (item :: items)

/-- `{name for item in items for name in item.metrics}`. In which order a set
is iterated over makes no difference here. -/
def metricNames (items : List RunComparisonItem) : List String :=
  (items.flatMap fun item => item.metrics.map Prod.fst).eraseDups

/-- The items with the metric, each with its value. -/
def recordedBy (items : List RunComparisonItem) (name : String) : List (RunComparisonItem × ℚ) :=
  items.filterMap fun item => (item.metrics.lookup name).map fun value => (item, value)

/-- `max(…).run.id` for one name. Of no items `max` raises. -/
def bestRun (items : List RunComparisonItem) (name : String) : Except Exc (String × Uuid) :=
  match (recordedBy items name).argmax Prod.snd with
  | some (item, _) => .ok (name, item.run.id)
  | none => .error (.other "ValueError")

/-- For any number of ids, of which the endpoint takes 2 to 5. -/
def compareRuns (scans : CompareScans) (runIds : List Uuid) : Program RunCompareResponse := do
  if runIds.eraseDups.length ≠ runIds.length then .raise (.app duplicateRunIds)
  else
    let runs ← session.select {} fun db =>
      scans.runs.order (db.runs.rows.filter fun run => run.id ∈ runIds)
    if runs.length ≠ runIds.length then .raise (.app runsNotFound)
    else if runs.any fun run => run.status ≠ .succeeded then .raise (.app runsNotComparable)
    else
      let items ← compareItems scans (Python.sorted (fun run => runIds.idxOf run.id) runs)
      let best ← Prog.ofExcept ((metricNames items).mapM (bestRun items))
      .ret { items := items, bestByMetric := best }

/-! ### What a comparison should be -/

/-- The value of the metric at the run's last step for it. -/
def FinalValue (db : Db) (r : Uuid) (name : String) (value : ℚ) : Prop :=
  ∃ m ∈ db.metrics, m.runId = r ∧ m.name = name ∧ m.value = value ∧
    ∀ m' ∈ db.metrics, m'.runId = r → m'.name = name → m'.step ≤ m.step

/-- A run has at most one value of a metric at each step. -/
def Unambiguous (db : Db) : Prop :=
  ∀ m ∈ db.metrics, ∀ m' ∈ db.metrics, m.runId = m'.runId → m.name = m'.name →
    m.step = m'.step → m.value = m'.value

structure Compares (db : Db) (runIds : List Uuid) (response : RunCompareResponse) : Prop where
  /-- The runs stand in the order of the request. -/
  aligned : response.items.map (fun item => some item.run) = runIds.map db.runs.get?
  parameters : ∀ item ∈ response.items, item.parameters = db.storedParameters item.run.id
  metrics : ∀ item ∈ response.items, ∀ name value,
    item.metrics.lookup name = some value ↔ FinalValue db item.run.id name value
  named : ∀ name, (∃ r, response.bestByMetric.lookup name = some r) ↔
    ∃ m ∈ db.metrics, m.runId ∈ runIds ∧ m.name = name
  /-- The best is the first of those whose value is maximal. -/
  best : ∀ name r, response.bestByMetric.lookup name = some r → ∃ before after value,
    runIds = before ++ r :: after ∧ FinalValue db r name value ∧
      (∀ r' ∈ before, ∀ value', FinalValue db r' name value' → value' < value) ∧
      ∀ r' ∈ after, ∀ value', FinalValue db r' name value' → value' ≤ value

/-! ### The metrics of a run -/

section Metrics

variable {db : Db} {r : Uuid} {name : String} {value value' : ℚ} {scan : Sql.Scan RunMetric}

theorem FinalValue.unique (hdb : Unambiguous db) (h : FinalValue db r name value)
    (h' : FinalValue db r name value') : value = value' := by
  obtain ⟨m, hm, rfl, rfl, rfl, hlast⟩ := h
  obtain ⟨m', hm', hrun, hname, rfl, hlast'⟩ := h'
  exact hdb m hm m' hm' hrun.symm hname.symm
    (le_antisymm (hlast' m hm rfl rfl) (hlast m' hm' hrun hname))

/-- The dictionary of the metrics of a run. -/
def finalMetrics (db : Db) (scan : Sql.Scan RunMetric) (r : Uuid) : List (String × ℚ) :=
  Python.assigned ((Sql.orderBy scan (.on RunMetric.step)
    (db.metrics.filter fun metric => metric.runId = r)).map fun metric => (metric.name, metric.value))

theorem mem_ordered {m : RunMetric} :
    m ∈ Sql.orderBy scan (.on RunMetric.step) (db.metrics.filter fun metric => metric.runId = r) ↔
      m ∈ db.metrics ∧ m.runId = r := by
  rw [Sql.perm_orderBy.mem_iff, List.mem_filter, decide_eq_true_eq]

/-- What is left in the dictionary has the last step. -/
theorem finalValue_of_lookup (h : (finalMetrics db scan r).lookup name = some value) :
    FinalValue db r name value := by
  obtain ⟨before, after, heq, hafter⟩ := Python.lookup_assigned_eq_some.mp h
  obtain ⟨earlier, rest, hrows, rfl, hrest⟩ := List.map_eq_append_iff.mp heq
  obtain ⟨m, later, rfl, hm, rfl⟩ := List.map_eq_cons_iff.mp hrest
  obtain ⟨rfl, rfl⟩ := Prod.mk.inj hm
  have hsorted : (earlier ++ m :: later).Pairwise fun a b => (Sql.Order.on RunMetric.step).le a b := by
    rw [← hrows]
    exact Sql.pairwise_orderBy
  rw [List.pairwise_append] at hsorted
  obtain ⟨hmem, hrun⟩ := mem_ordered.mp (hrows ▸ List.mem_append_right earlier List.mem_cons_self)
  refine ⟨m, hmem, hrun, rfl, rfl, fun m' hm' hrun' hname => ?_⟩
  have hordered : m' ∈ earlier ++ m :: later := by
    rw [← hrows]
    exact mem_ordered.mpr ⟨hm', hrun'⟩
  rcases List.mem_append.mp hordered with hearlier | hlater
  · exact of_decide_eq_true (hsorted.2.2 m' hearlier m List.mem_cons_self)
  · rcases List.mem_cons.mp hlater with rfl | hlater
    · exact le_rfl
    · exact absurd hname (hafter _ (List.mem_map_of_mem hlater))

theorem exists_lookup_finalMetrics :
    (∃ value, (finalMetrics db scan r).lookup name = some value) ↔
      ∃ m ∈ db.metrics, m.runId = r ∧ m.name = name := by
  rw [finalMetrics, Python.exists_lookup_assigned]
  constructor
  · rintro ⟨value, h⟩
    obtain ⟨m, hm, heq⟩ := List.mem_map.mp h
    obtain ⟨hmem, hrun⟩ := mem_ordered.mp hm
    exact ⟨m, hmem, hrun, (Prod.mk.inj heq).1⟩
  · rintro ⟨m, hm, hrun, rfl⟩
    exact ⟨m.value, List.mem_map.mpr ⟨m, mem_ordered.mpr ⟨hm, hrun⟩, rfl⟩⟩

theorem lookup_finalMetrics (hdb : Unambiguous db) :
    (finalMetrics db scan r).lookup name = some value ↔ FinalValue db r name value := by
  refine ⟨finalValue_of_lookup, fun h => ?_⟩
  obtain ⟨m, hm, hrun, hname, -⟩ := id h
  obtain ⟨value', hfound⟩ := exists_lookup_finalMetrics.mpr ⟨m, hm, hrun, hname⟩
  rw [hfound, h.unique hdb (finalValue_of_lookup hfound)]

end Metrics

/-! ### The runs of a request -/

section Runs

variable {db : Db} {runIds : List Uuid} {found : List Run}

/-- The rows the query for the runs returns. -/
structure Found (db : Db) (runIds : List Uuid) (found : List Run) : Prop where
  nodup : (found.map Run.id).Nodup
  mem_iff : ∀ run, run ∈ found ↔ db.runs.get? run.id = some run ∧ run.id ∈ runIds

theorem found_order (scan : Sql.Scan Run) :
    Found db runIds (scan.order (db.runs.rows.filter fun run => run.id ∈ runIds)) where
  nodup := ((scan.perm _).map Run.id).nodup_iff.mpr
    (db.runs.nodup.sublist (List.filter_sublist.map Run.id))
  mem_iff run := by
    rw [(scan.perm _).mem_iff, List.mem_filter, decide_eq_true_eq]
    exact and_congr_left fun _ => ⟨Table.get?_of_mem, Table.mem_of_get?⟩

theorem Found.subset (h : Found db runIds found) : found.map Run.id ⊆ runIds := by
  intro id hid
  obtain ⟨run, hrun, rfl⟩ := List.mem_map.mp hid
  exact ((h.mem_iff run).mp hrun).2

theorem Found.perm (h : Found db runIds found) (hids : runIds.Nodup)
    (hall : ∀ id ∈ runIds, db.runs.get? id ≠ none) : (found.map Run.id).Perm runIds := by
  refine (List.perm_ext_iff_of_nodup h.nodup hids).mpr fun id => ⟨fun hid => h.subset hid, ?_⟩
  intro hid
  obtain ⟨run, hrun⟩ := Option.ne_none_iff_exists'.mp (hall id hid)
  obtain rfl := Table.key_of_get? hrun
  exact List.mem_map_of_mem ((h.mem_iff run).mpr ⟨hrun, hid⟩)

/-- As many runs as ids are found just if there is a run for each id. -/
theorem Found.length_eq (h : Found db runIds found) (hids : runIds.Nodup) :
    found.length = runIds.length ↔ ∀ id ∈ runIds, db.runs.get? id ≠ none := by
  constructor
  · intro hlength id hid
    have hperm : (found.map Run.id).Perm runIds :=
      (List.subperm_of_subset h.nodup h.subset).perm_of_length_le (by rw [List.length_map, hlength])
    obtain ⟨run, hrun, rfl⟩ := List.mem_map.mp (hperm.mem_iff.mpr hid)
    rw [((h.mem_iff run).mp hrun).1]
    exact Option.some_ne_none run
  · intro hall
    rw [← (h.perm hids hall).length_eq, List.length_map]

end Runs

/-! ### The items -/

section Items

variable {items : List RunComparisonItem} {name name' : String} {r : Uuid}

theorem mem_metricNames :
    name ∈ metricNames items ↔ ∃ item ∈ items, ∃ value, item.metrics.lookup name = some value := by
  simp only [metricNames, List.mem_eraseDups, List.mem_flatMap, Python.exists_lookup,
    List.mem_map, Prod.exists, exists_and_right, exists_eq_right]

/-- The best item is the first of those whose value is maximal. -/
theorem bestRun_eq_ok (h : bestRun items name = .ok (name', r)) : name' = name ∧
    ∃ before item after value, items = before ++ item :: after ∧ item.run.id = r ∧
      item.metrics.lookup name = some value ∧
      (∀ x ∈ before, ∀ v, x.metrics.lookup name = some v → v < value) ∧
      ∀ x ∈ after, ∀ v, x.metrics.lookup name = some v → v ≤ value := by
  rw [bestRun] at h
  split at h
  · next item value hbest =>
    obtain ⟨rfl, rfl⟩ := Prod.mk.inj (Except.ok.inj h)
    obtain ⟨worse, others, hsplit, hworse, hothers⟩ := Python.split_of_argmax hbest
    obtain ⟨before, rest, rfl, hbefore, hrest⟩ := List.filterMap_eq_append_iff.mp hsplit
    obtain ⟨silent, item', after, rfl, hsilent, hitem, hafter⟩ := List.filterMap_eq_cons_iff.mp hrest
    obtain ⟨value', hvalue, heq⟩ := Option.map_eq_some_iff.mp hitem
    obtain ⟨rfl, rfl⟩ := Prod.mk.inj heq
    refine ⟨rfl, before ++ silent, item', after, value', by simp, rfl, hvalue, ?_, ?_⟩
    · intro x hx v hv
      rcases List.mem_append.mp hx with hx | hx
      · have hmem : (x, v) ∈ worse :=
          hbefore ▸ List.mem_filterMap.mpr ⟨x, hx, by rw [hv, Option.map_some]⟩
        exact hworse (x, v) hmem
      · have hnone := hsilent x hx
        rw [hv] at hnone
        cases hnone
    · intro x hx v hv
      have hmem : (x, v) ∈ others :=
        hafter ▸ List.mem_filterMap.mpr ⟨x, hx, by rw [hv, Option.map_some]⟩
      exact hothers (x, v) hmem
  · cases h

theorem exists_bestRun (h : name ∈ metricNames items) : ∃ best, bestRun items name = .ok best := by
  obtain ⟨item, hitem, value, hvalue⟩ := mem_metricNames.mp h
  have hrecorded : (item, value) ∈ recordedBy items name :=
    List.mem_filterMap.mpr ⟨item, hitem, by rw [hvalue, Option.map_some]⟩
  rw [bestRun]
  split
  · exact ⟨_, rfl⟩
  · next hnone =>
    rw [List.argmax_eq_none] at hnone
    rw [hnone] at hrecorded
    cases hrecorded

end Items

/-! ### The whole comparison -/

section Answers

variable {p : Platform} {scans : CompareScans} {runIds : List Uuid} {runs : List Run}

def comparisonItem (db : Db) (scans : CompareScans) (run : Run) : RunComparisonItem :=
  ⟨run, db.storedParameters run.id, finalMetrics db (scans.metrics run.id) run.id⟩

theorem compareItem_answers (run : Run) :
    (compareItem scans run).Answers storage p (.ok (comparisonItem p.db scans run)) := by
  apply Prog.Answers.bind (Prog.Answers.select fun p : Platform => p.db.storedParameters run.id)
  apply Prog.Answers.bind (Prog.Answers.select fun p : Platform =>
    Sql.orderBy (scans.metrics run.id) (.on RunMetric.step)
      (p.db.metrics.filter fun metric => metric.runId = run.id))
  exact Prog.Answers.ret _

theorem compareItems_answers (runs : List Run) :
    (compareItems scans runs).Answers storage p (.ok (runs.map (comparisonItem p.db scans))) := by
  induction runs with
  | nil => exact Prog.Answers.ret []
  | cons run runs ih =>
      apply Prog.Answers.bind (compareItem_answers run)
      apply Prog.Answers.bind ih
      exact Prog.Answers.ret _

/-- A metric is recorded just if the item of its run has it. -/
theorem exists_lookup_item {name : String} :
    (∃ item ∈ runs.map (comparisonItem p.db scans), ∃ value, item.metrics.lookup name = some value) ↔
      ∃ m ∈ p.db.metrics, m.runId ∈ runs.map Run.id ∧ m.name = name := by
  constructor
  · rintro ⟨_, hitem, hvalue⟩
    obtain ⟨run, hrun, rfl⟩ := List.mem_map.mp hitem
    obtain ⟨m, hm, hid, hname⟩ := exists_lookup_finalMetrics.mp hvalue
    exact ⟨m, hm, hid ▸ List.mem_map_of_mem hrun, hname⟩
  · rintro ⟨m, hm, hid, hname⟩
    obtain ⟨run, hrun, hid⟩ := List.mem_map.mp hid
    exact ⟨_, List.mem_map_of_mem hrun, exists_lookup_finalMetrics.mpr ⟨m, hm, hid.symm, hname⟩⟩

/-- The response to a request for runs, in the order of the request. -/
theorem compares_items {best : List (String × Uuid)} (hdb : Unambiguous p.db)
    (hids : runs.map Run.id = runIds) (hget : ∀ run ∈ runs, p.db.runs.get? run.id = some run)
    (hbest : (metricNames (runs.map (comparisonItem p.db scans))).map
      (bestRun (runs.map (comparisonItem p.db scans))) = best.map .ok) :
    Compares p.db runIds ⟨runs.map (comparisonItem p.db scans), best⟩ where
  aligned := by
    rw [← hids, List.map_map, List.map_map]
    exact List.map_congr_left fun run hrun => (hget run hrun).symm
  parameters item hitem := by
    obtain ⟨run, -, rfl⟩ := List.mem_map.mp hitem
    rfl
  metrics item hitem name value := by
    obtain ⟨run, -, rfl⟩ := List.mem_map.mp hitem
    exact lookup_finalMetrics hdb
  named name := by
    rw [← hids, ← exists_lookup_item, ← mem_metricNames, Python.exists_lookup]
    constructor
    · rintro ⟨r, hr⟩
      obtain ⟨name', hname', hresult⟩ := Python.mem_of_result hbest hr
      rwa [(bestRun_eq_ok hresult).1]
    · intro hname
      obtain ⟨⟨name', r⟩, hr, hresult⟩ := Python.result_of_mem hbest hname
      obtain rfl := (bestRun_eq_ok hresult).1
      exact ⟨r, hr⟩
  best name r hr := by
    obtain ⟨name', -, hresult⟩ := Python.mem_of_result hbest (Python.mem_of_lookup hr)
    obtain ⟨rfl, before, item, after, value, hsplit, rfl, hvalue, hbefore, hafter⟩ :=
      bestRun_eq_ok hresult
    obtain ⟨earlier, rest, rfl, rfl, hrest⟩ := List.map_eq_append_iff.mp hsplit
    obtain ⟨run, later, rfl, rfl, rfl⟩ := List.map_eq_cons_iff.mp hrest
    refine ⟨earlier.map Run.id, later.map Run.id, value, ?_, (lookup_finalMetrics hdb).mp hvalue,
      ?_, ?_⟩
    · rw [← hids, List.map_append, List.map_cons]
      rfl
    · intro r' hr' value' hfinal
      obtain ⟨run', hrun', rfl⟩ := List.mem_map.mp hr'
      exact hbefore _ (List.mem_map_of_mem hrun') value' ((lookup_finalMetrics hdb).mpr hfinal)
    · intro r' hr' value' hfinal
      obtain ⟨run', hrun', rfl⟩ := List.mem_map.mp hr'
      exact hafter _ (List.mem_map_of_mem hrun') value' ((lookup_finalMetrics hdb).mpr hfinal)

theorem duplicate_iff : runIds.eraseDups.length ≠ runIds.length ↔ ¬ runIds.Nodup := by
  rw [not_iff_not]
  constructor
  · intro hlength
    rw [← (Python.eraseDups_sublist runIds).eq_of_length hlength]
    exact Python.nodup_eraseDups runIds
  · intro hnodup
    rw [Python.eraseDups_of_nodup hnodup]

end Answers

/-- Requests with an id twice, with unknown ids or with runs that have not
succeeded are rejected; any other is answered by the comparison of the runs, in
the order of the request, however the database comes across the rows. -/
theorem runs_compared (p : Platform) (scans : CompareScans) (runIds : List Uuid) :
    (¬ runIds.Nodup →
      (compareRuns scans runIds).Answers storage p (.error (.app duplicateRunIds))) ∧
    (runIds.Nodup → (∃ id ∈ runIds, p.db.runs.get? id = none) →
      (compareRuns scans runIds).Answers storage p (.error (.app runsNotFound))) ∧
    (runIds.Nodup → (∀ id ∈ runIds, p.db.runs.get? id ≠ none) →
      (∃ id ∈ runIds, ∃ run, p.db.runs.get? id = some run ∧ run.status ≠ .succeeded) →
      (compareRuns scans runIds).Answers storage p (.error (.app runsNotComparable))) ∧
    (runIds.Nodup →
      (∀ id ∈ runIds, ∃ run, p.db.runs.get? id = some run ∧ run.status = .succeeded) →
      Unambiguous p.db → ∃ response,
        (compareRuns scans runIds).Answers storage p (.ok response) ∧
          Compares p.db runIds response) := by
  let found := scans.runs.order (p.db.runs.rows.filter fun run => run.id ∈ runIds)
  have hfound : Found p.db runIds found := found_order scans.runs
  have hquery : (session.select {} fun db =>
      scans.runs.order (db.runs.rows.filter fun run => run.id ∈ runIds) :
        Program (List Run)).Answers storage p (.ok found) :=
    Prog.Answers.select fun p : Platform =>
      scans.runs.order (p.db.runs.rows.filter fun run => run.id ∈ runIds)
  refine ⟨fun hdup => ?_, fun hids hmissing => ?_, fun hids hall hother => ?_,
    fun hids hall hdb => ?_⟩
  · rw [compareRuns, if_pos (duplicate_iff.mpr hdup)]
    exact Prog.Answers.raise _
  · rw [compareRuns, if_neg (fun h => duplicate_iff.mp h hids)]
    apply Prog.Answers.bind hquery
    have hlength : found.length ≠ runIds.length := fun heq => by
      obtain ⟨id, hid, hnone⟩ := hmissing
      exact (hfound.length_eq hids).mp heq id hid hnone
    rw [if_pos hlength]
    exact Prog.Answers.raise _
  · rw [compareRuns, if_neg (fun h => duplicate_iff.mp h hids)]
    apply Prog.Answers.bind hquery
    have hany : (found.any fun run => run.status ≠ .succeeded) = true := by
      obtain ⟨id, hid, run, hrun, hstatus⟩ := hother
      obtain rfl := Table.key_of_get? hrun
      exact List.any_eq_true.mpr ⟨run, (hfound.mem_iff run).mpr ⟨hrun, hid⟩, decide_eq_true hstatus⟩
    rw [if_neg (not_not.mpr ((hfound.length_eq hids).mpr hall)), if_pos hany]
    exact Prog.Answers.raise _
  · have hpresent : ∀ id ∈ runIds, p.db.runs.get? id ≠ none := by
      intro id hid hnone
      obtain ⟨run, hrun, -⟩ := hall id hid
      rw [hrun] at hnone
      cases hnone
    have hnone : ¬ (found.any fun run => run.status ≠ .succeeded) = true := by
      intro hany
      obtain ⟨run, hmem, hstatus⟩ := List.any_eq_true.mp hany
      obtain ⟨hget, hid⟩ := (hfound.mem_iff run).mp hmem
      obtain ⟨run', hget', hsucceeded⟩ := hall run.id hid
      obtain rfl := Option.some.inj (hget.symm.trans hget')
      exact of_decide_eq_true hstatus hsucceeded
    let runs := Python.sorted (fun run => runIds.idxOf run.id) found
    have hsorted : runs.map Run.id = runIds :=
      Python.sorted_idxOf (hfound.perm hids hpresent) hids
    have hget : ∀ run ∈ runs, p.db.runs.get? run.id = some run := fun run hrun =>
      ((hfound.mem_iff run).mp ((List.perm_insertionSort _ found).mem_iff.mp hrun)).1
    have hresults : ∀ name ∈ metricNames (runs.map (comparisonItem p.db scans)),
        ∃ best, bestRun (runs.map (comparisonItem p.db scans)) name = .ok best :=
      fun _ hname => exists_bestRun hname
    obtain ⟨best, hbest⟩ := Python.exists_results hresults
    refine ⟨⟨runs.map (comparisonItem p.db scans), best⟩, ?_, compares_items hdb hsorted hget hbest⟩
    rw [compareRuns, if_neg (fun h => duplicate_iff.mp h hids)]
    apply Prog.Answers.bind hquery
    rw [if_neg (not_not.mpr ((hfound.length_eq hids).mpr hpresent)), if_neg hnone]
    apply Prog.Answers.bind (compareItems_answers runs)
    rw [Python.mapM_eq_ok.mpr hbest]
    exact Prog.Answers.bind (Prog.Answers.ret best) (Prog.Answers.ret _)

namespace Demo

/-- A run that has succeeded. -/
def succeeded (id : Uuid) : Run where
  id := id
  experimentId := 2
  templateId := 3
  status := .succeeded
  priority := 50
  requestedCpu := 1
  requestedMemoryMb := 512
  assignedWorkerId := none
  attemptNumber := 1
  parentRunId := none
  createdBy := 5
  createdAt := 0
  queuedAt := some 1
  startedAt := some 2
  completedAt := some 3
  failureCode := none
  failureMessage := none
  notes := ""
  tags := []
  version := 5

/-- Two runs, of which one has recorded its accuracy twice. -/
def trained : Platform :=
  { vision.platform with
    db := { vision.platform.db with
      runs := ⟨[succeeded 11, succeeded 12], by decide⟩
      metrics := [⟨11, "accuracy", 9 / 10, 1⟩, ⟨11, "accuracy", 7 / 10, 2⟩,
        ⟨12, "accuracy", 8 / 10, 1⟩, ⟨12, "f1", 1 / 2, 1⟩] } }

end Demo

/-- Two runs are compared in the order of the request. -/
theorem runs_compared_trained : ∃ response,
    (compareRuns ⟨.stored, fun _ => .stored⟩ [12, 11]).Answers storage Demo.trained (.ok response) ∧
      Compares Demo.trained.db [12, 11] response := by
  refine (runs_compared Demo.trained ⟨.stored, fun _ => .stored⟩ [12, 11]).2.2.2 (by decide) ?_ ?_
  · intro id hid
    rcases List.mem_cons.mp hid with rfl | hid
    · exact ⟨Demo.succeeded 12, by decide, rfl⟩
    · obtain rfl := List.mem_singleton.mp hid
      exact ⟨Demo.succeeded 11, by decide, rfl⟩
  · unfold Unambiguous
    decide +kernel

end Runscope
