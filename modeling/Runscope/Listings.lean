import Runscope.Catalog
import Runscope.Program
import Runscope.Python.Dumps
import Runscope.Sql.Like
import Runscope.Sql.Ordering
import Runscope.Transact.Queries

/-!
The listings `list_runs`, `list_projects` and `list_experiments`.

Each counts the rows it finds with one query and reads a page of them with
another. The columns of `TimestampMixin` are no part of the rows of the
catalog: `times` gives those of each id. How texts are ordered is up to the
collation of the database. The bounds of the endpoints on the length of a
search string and of a tag, and on `page_size` from above, are not used.
-/

namespace Runscope

open Transact

/-- `Page` (`schemas/common.py`) -/
structure Page (α : Type) where
  items : List α
  page : ℕ
  pageSize : ℕ
  total : ℕ
  pages : ℕ
  deriving DecidableEq

/-- `page: Query(ge=1)` and `page_size: Query(ge=1)` -/
structure Paging where
  page : ℕ
  pageSize : ℕ
  page_ge : 1 ≤ page
  pageSize_ge : 1 ≤ pageSize

/-- `(page - 1) * page_size` -/
def Paging.offset (paging : Paging) : ℕ := (paging.page - 1) * paging.pageSize

/-- What the query for a page raises before it runs: an offset is sent as a
`bigint`. -/
def sendOffset (offset : ℕ) : Except Exc Unit :=
  if offset < 2 ^ 63 then .ok () else .error (.other "DBAPIError")

inductive Direction where
  | asc | desc
  deriving DecidableEq, Repr

/-- `asc(sort_column) if direction == "asc" else desc(sort_column)` -/
def Direction.order {ρ : Type} (direction : Direction) (column : Sql.Order ρ) : Sql.Order ρ :=
  match direction with
  | asc => column
  | desc => column.desc

section Generic

variable {S Row Write Call Input Point ρ β : Type}

/-- What the listings have in common. -/
def listPage (pt : Point) (rows : S → List ρ) (filters : ρ → Bool) (order : Sql.Order ρ)
    (response : ρ → Except Exc β) (scan : Sql.Scan ρ) (paging : Paging) :
    Prog S Row Write Call Input Exc Point (Page β) := do
  let total ← Prog.stmt pt .select fun reply => ((rows reply.view).filter filters).length
  Prog.ofExcept (sendOffset paging.offset)
  let found ← Prog.stmt pt .select fun reply =>
    Sql.slice paging.page paging.pageSize
      (Sql.orderBy scan order ((rows reply.view).filter filters))
  let items ← Prog.ofExcept (found.mapM response)
  .ret {
    items := items
    page := paging.page
    pageSize := paging.pageSize
    total := total
    pages := Sql.pageCount total paging.pageSize }

end Generic

/-! ### Runs (`api/runs.py`) -/

inductive RunSort where
  | createdAt | priority | status
  deriving DecidableEq, Repr

/-- The place of a value in the type `run_status` of the database. -/
def RunStatus.place : RunStatus → ℕ
  | draft => 0
  | queued => 1
  | scheduling => 2
  | running => 3
  | succeeded => 4
  | failed => 5
  | cancelling => 6
  | cancelled => 7
  | retrying => 8

def RunSort.column : RunSort → Sql.Order Run
  | createdAt => .on Run.createdAt
  | priority => .on Run.priority
  | status => .on fun run => run.status.place

structure RunFilters where
  experimentId : Option Uuid
  status : Option RunStatus
  deriving DecidableEq

def RunFilters.admits (filters : RunFilters) (run : Run) : Bool :=
  (filters.experimentId.all fun id => run.experimentId = id) &&
    filters.status.all fun status => run.status = status

/-- `order_by(order, Run.id)` -/
def runOrder (sort : RunSort) (direction : Direction) : Sql.Order Run :=
  (direction.order sort.column).thenBy (.on Run.id)

/-- `RunResponse` has the columns of a run. -/
def listRuns (filters : RunFilters) (sort : RunSort) (direction : Direction)
    (scan : Sql.Scan Run) (paging : Paging) : Program (Page Run) :=
  listPage {} (fun p : Platform => p.db.runs.rows) filters.admits (runOrder sort direction) .ok scan
    paging

/-! ### Projects and experiments (`api/projects.py`, `api/experiments.py`) -/

/-- `TimestampMixin` -/
structure Timestamps where
  createdAt : Time
  updatedAt : Time
  deriving DecidableEq, Repr

inductive CatalogSort where
  | name | createdAt | updatedAt
  deriving DecidableEq, Repr

/-- The column to sort by, of rows with a name and timestamps. -/
def CatalogSort.column {ρ : Type} (collation : Sql.Order String) (name : ρ → String)
    (times : ρ → Timestamps) : CatalogSort → Sql.Order ρ
  | .name => collation.comap name
  | createdAt => .on fun row => (times row).createdAt
  | updatedAt => .on fun row => (times row).updatedAt

/-- `search.strip().lower()`, and the same of a tag -/
def normalText (rt : Runtime) (s : String) : String := rt.lower (rt.strip s)

/-- What a query with the text in a filter raises before it runs. -/
def sendFilter (rt : Runtime) (text : Option String) : Except Exc Unit :=
  match text with
  | none => .ok ()
  -- an empty string adds no filter
  | some s => if s = "" then .ok () else sendText (normalText rt s)

/-- The filter that a search string adds, of a row with a name and a
description. -/
def searched (rt : Runtime) (search : Option String) (name description : String) : Bool :=
  match search with
  | none => true
  | some s =>
    -- an empty string adds no filter
    s = "" ||
      let pattern := '%' :: (normalText rt s).toList ++ ['%']
      Sql.like pattern (rt.sqlLower name).toList ||
        Sql.like pattern (rt.sqlLower description).toList

/-- `cast(Experiment.tags, String)` -/
def Experiment.tagsText (e : Experiment) : List Char :=
  match e.tags with
  | some tags => Python.dumps tags
  | none => "null".toList

/-- The filter that a tag adds. -/
def tagged (rt : Runtime) (tag : Option String) (e : Experiment) : Bool :=
  match tag with
  | none => true
  | some t =>
    -- an empty string adds no filter
    t = "" || Sql.like ('%' :: ('"' :: (normalText rt t).toList ++ ['"']) ++ ['%']) e.tagsText

section Catalogs

variable (rt : Runtime) (collation : Sql.Order String) (times : Uuid → Timestamps)

/-- `order_by(order, Project.id)` -/
def projectOrder (sort : CatalogSort) (direction : Direction) : Sql.Order Project :=
  (direction.order (sort.column collation Project.name fun p => times p.id)).thenBy (.on Project.id)

def listProjects (search : Option String) (sort : CatalogSort) (direction : Direction)
    (scan : Sql.Scan Project) (paging : Paging) :
    CatalogProgram (Page (Project × Timestamps)) := do
  Prog.ofExcept (sendFilter rt search)
  listPage .idle (fun c : Catalog => c.projects.rows)
    (fun p => searched rt search p.name p.description)
    (projectOrder collation times sort direction) (fun p => .ok (p, times p.id)) scan paging

structure ExperimentFilters where
  search : Option String
  projectId : Option Uuid
  tag : Option String
  deriving DecidableEq

def ExperimentFilters.admits (filters : ExperimentFilters) (e : Experiment) : Bool :=
  searched rt filters.search e.name e.description &&
    (filters.projectId.all fun id => e.projectId = id) && tagged rt filters.tag e

/-- `order_by(order, Experiment.id)` -/
def experimentOrder (sort : CatalogSort) (direction : Direction) : Sql.Order Experiment :=
  (direction.order (sort.column collation Experiment.name fun e => times e.id)).thenBy
    (.on Experiment.id)

/-- `ExperimentResponse.model_validate` of a row, with its timestamps. -/
def Experiment.listed (e : Experiment) : Except Exc (ExperimentResponse × Timestamps) :=
  e.response.map fun response => (response, times e.id)

def listExperiments (filters : ExperimentFilters) (sort : CatalogSort) (direction : Direction)
    (scan : Sql.Scan Experiment) (paging : Paging) :
    CatalogProgram (Page (ExperimentResponse × Timestamps)) := do
  Prog.ofExcept (sendFilter rt filters.search)
  Prog.ofExcept (sendFilter rt filters.tag)
  listPage .idle (fun c : Catalog => c.experiments.rows) (filters.admits rt)
    (experimentOrder collation times sort direction) (Experiment.listed times) scan paging

end Catalogs

end Runscope
