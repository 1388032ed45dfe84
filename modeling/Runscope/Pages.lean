import Runscope.ExperimentNames
import Runscope.Listings
import Runscope.Python.Collections

/-!
The pages of a listing.

The rows of a collection are ordered by a column and then by their ids, so on
a fixed database it makes no difference how a query comes across them, and the
pages read by separate queries fit together. A page is answered if its offset
and the texts of the filters can be sent and all its rows can be rendered.
Those of runs and projects always can; an experiment whose tags are null
cannot.
-/

namespace Runscope

open Transact

instance : Nonempty Input := ⟨⟨0, 0, none, false, ⟨[], [], []⟩⟩⟩

/-! ### One page -/

section Listing

variable {S Row Write Call Point ρ β : Type} {σ : Storage S Row Write Call Input Exc} {s : S}
  {pt : Point} {rows : S → List ρ} {filters : ρ → Bool} {order : Sql.Order ρ}
  {response : ρ → Except Exc β}

theorem sendOffset_ok {offset : ℕ} : sendOffset offset = .ok () ↔ offset < 2 ^ 63 := by
  simp [sendOffset]

theorem listPage_answers {scan : Sql.Scan ρ} {paging : Paging} {outcome : Except Exc (List β)}
    (hoffset : paging.offset < 2 ^ 63)
    (h : (Sql.slice paging.page paging.pageSize
      (Sql.orderBy scan order ((rows s).filter filters))).mapM response = outcome) :
    (listPage pt rows filters order response scan paging :
      Prog S Row Write Call Input Exc Point (Page β)).Answers σ s (outcome.map fun items =>
        ⟨items, paging.page, paging.pageSize, ((rows s).filter filters).length,
          Sql.pageCount ((rows s).filter filters).length paging.pageSize⟩) := by
  apply Prog.Answers.bind (Prog.Answers.select fun s => ((rows s).filter filters).length)
  rw [sendOffset_ok.mpr hoffset]
  apply Prog.Answers.bind (Prog.Answers.ofExcept (.ok ()))
  apply Prog.Answers.bind (Prog.Answers.select fun s => Sql.slice paging.page paging.pageSize
    (Sql.orderBy scan order ((rows s).filter filters)))
  rw [h]
  cases outcome with
  | error e => exact Prog.Answers.bind_error (Prog.Answers.raise e)
  | ok items => exact Prog.Answers.bind (Prog.Answers.ret items) (Prog.Answers.ret _)

/-- No page is answered whose offset is too large. -/
theorem offset_of_answers {scan : Sql.Scan ρ} {paging : Paging} {page : Page β}
    (h : (listPage pt rows filters order response scan paging :
      Prog S Row Write Call Input Exc Point (Page β)).Answers σ s (.ok page)) :
    paging.offset < 2 ^ 63 := by
  by_contra hlarge
  have hraises : (listPage pt rows filters order response scan paging :
      Prog S Row Write Call Input Exc Point (Page β)).Answers σ s
        (.error (.other "DBAPIError")) := by
    apply Prog.Answers.bind (Prog.Answers.select fun s => ((rows s).filter filters).length)
    rw [sendOffset, if_neg hlarge]
    exact Prog.Answers.bind_error (Prog.Answers.ofExcept (.error _))
  cases hraises.unique h

/-- The page of a listing of `ordered`. -/
structure Page.Shows (page : Page β) (response : ρ → Except Exc β) (ordered : List ρ)
    (paging : Paging) : Prop where
  items : (Sql.slice paging.page paging.pageSize ordered).map response = page.items.map .ok
  page_eq : page.page = paging.page
  pageSize_eq : page.pageSize = paging.pageSize
  total : page.total = ordered.length
  pages : page.pages = Sql.pageCount ordered.length paging.pageSize

/-- What a page shows determines it. -/
theorem Page.Shows.eq {page page' : Page β} {ordered : List ρ} {paging : Paging}
    (h : page.Shows response ordered paging) (h' : page'.Shows response ordered paging) :
    page = page' := by
  have hinj : Function.Injective (Except.ok : β → Except Exc β) := fun _ _ heq => Except.ok.inj heq
  have hitems : page.items = page'.items :=
    List.map_injective_iff.mpr hinj (h.items.symm.trans h'.items)
  cases page
  cases page'
  simp only [Page.mk.injEq]
  exact ⟨hitems, h.page_eq.trans h'.page_eq.symm, h.pageSize_eq.trans h'.pageSize_eq.symm,
    h.total.trans h'.total.symm, h.pages.trans h'.pages.symm⟩

/-- The program counts `wanted` and returns a page of them, whichever it can be
asked for. -/
def Lists (σ : Storage S Row Write Call Input Exc) (s : S)
    (listing : Sql.Scan ρ → Paging → Prog S Row Write Call Input Exc Point (Page β))
    (order : Sql.Order ρ) (response : ρ → Except Exc β) (wanted : List ρ) : Prop :=
  ∀ scan paging, paging.offset < 2 ^ 63 → ∃ page, (listing scan paging).Answers σ s (.ok page) ∧
    page.Shows response (Sql.orderBy .stored order wanted) paging

variable {κ : Type} {key : ρ → κ}

/-- A page of the rows the filters admit, if they can be rendered. -/
theorem listPage_lists [LinearOrder κ] {column : Sql.Order ρ} (hkeys : ((rows s).map key).Nodup)
    (h : ∀ r ∈ rows s, filters r → ∃ b, response r = .ok b) :
    Lists σ s (listPage pt rows filters (column.thenBy (.on key)) response)
      (column.thenBy (.on key)) response ((rows s).filter filters) := by
  intro scan paging hoffset
  have hfound : (((rows s).filter filters).map key).Nodup :=
    hkeys.sublist (List.filter_sublist.map key)
  have hsame := Sql.orderBy_thenBy_eq (o := column) hfound scan .stored
  have hslice : ∀ r ∈ Sql.slice paging.page paging.pageSize (Sql.orderBy scan
      (column.thenBy (.on key)) ((rows s).filter filters)), ∃ b, response r = .ok b := by
    intro r hr
    have hmem := Sql.perm_orderBy.mem_iff.mp (List.mem_of_mem_drop (List.mem_of_mem_take hr))
    exact h r (List.mem_of_mem_filter hmem) (List.of_mem_filter hmem)
  obtain ⟨items, hitems⟩ := Python.exists_results hslice
  have hlength : (Sql.orderBy .stored (column.thenBy (.on key)) ((rows s).filter filters)).length =
      ((rows s).filter filters).length := Sql.perm_orderBy.length_eq
  exact ⟨_, listPage_answers hoffset (Python.mapM_eq_ok.mpr hitems), by rw [← hsame]; exact hitems,
    rfl, rfl,
    hlength.symm, by rw [hlength]⟩

/-- A listing that shows the wanted rows finds them, and they can be rendered. -/
theorem of_lists {wanted : List ρ} (hkeys : ((rows s).map key).Nodup)
    (hwanted : ∀ r ∈ wanted, r ∈ rows s)
    (hresponse : ∀ r r' b, response r = .ok b → response r' = .ok b → key r = key r')
    (h : Lists σ s (listPage pt rows filters order response) order response wanted) :
    (∀ r ∈ rows s, filters r ↔ r ∈ wanted) ∧ ∀ r ∈ wanted, ∃ b, response r = .ok b := by
  -- one page with all the rows
  let found := Sql.orderBy .stored order ((rows s).filter filters)
  let shown := Sql.orderBy .stored order wanted
  have hwhole {l : List ρ} (hl : l.length ≤ found.length + shown.length) :
      Sql.slice 1 (found.length + shown.length + 1) l = l := by
    rw [Sql.slice, Nat.sub_self, Nat.zero_mul, List.drop_zero,
      List.take_of_length_le (Nat.le_succ_of_le hl)]
  obtain ⟨items, hfoundItems, hshownItems⟩ : ∃ items : List β,
      found.map response = items.map .ok ∧ shown.map response = items.map .ok := by
    obtain ⟨page, hanswers, hshows⟩ :=
      h .stored ⟨1, found.length + shown.length + 1, le_rfl, by omega⟩ (by simp [Paging.offset])
    have hcomputed := hanswers.unique (listPage_answers (by simp [Paging.offset]) rfl)
    have hitems := hshows.items
    rw [hwhole (Nat.le_add_left ..)] at hitems
    rw [show Sql.slice 1 (found.length + shown.length + 1)
      (Sql.orderBy .stored order ((rows s).filter filters)) = found from
        hwhole (Nat.le_add_right ..)] at hcomputed
    cases houtcome : found.mapM response with
    | error e =>
        rw [houtcome] at hcomputed
        cases hcomputed
    | ok items =>
        rw [houtcome] at hcomputed
        obtain rfl := Except.ok.inj hcomputed
        exact ⟨items, Python.mapM_eq_ok.mp houtcome, hitems⟩
  have hsame : found.map response = shown.map response := hfoundItems.trans hshownItems.symm
  have hrendered (r : ρ) (hr : r ∈ shown) : ∃ b, response r = .ok b := by
    obtain ⟨b, -, hb⟩ := Python.result_of_mem hshownItems hr
    exact ⟨b, hb⟩
  have hmem {l l' : List ρ} (hmap : l.map response = l'.map response)
      (hl : ∀ r ∈ l, r ∈ rows s) (hl' : ∀ r ∈ l', r ∈ rows s)
      (hok : ∀ r ∈ l, ∃ b, response r = .ok b) (r : ρ) (hr : r ∈ l) : r ∈ l' := by
    obtain ⟨b, hb⟩ := hok r hr
    have hrespond : response r ∈ l'.map response := hmap ▸ List.mem_map_of_mem hr
    obtain ⟨r', hr', heq⟩ := List.mem_map.mp hrespond
    have hkey := hresponse r r' b hb (heq.trans hb)
    rwa [List.inj_on_of_nodup_map hkeys (hl r hr) (hl' r' hr') hkey]
  have hshown : ∀ r ∈ Sql.orderBy .stored order wanted, r ∈ rows s :=
    fun r hr => hwanted r (Sql.perm_orderBy.mem_iff.mp hr)
  have hfound : ∀ r ∈ Sql.orderBy .stored order ((rows s).filter filters), r ∈ rows s :=
    fun r hr => List.mem_of_mem_filter (Sql.perm_orderBy.mem_iff.mp hr)
  have hfoundOk : ∀ r ∈ Sql.orderBy .stored order ((rows s).filter filters),
      ∃ b, response r = .ok b := by
    intro r hr
    have hrespond : response r ∈ (Sql.orderBy .stored order wanted).map response :=
      hsame ▸ List.mem_map_of_mem hr
    obtain ⟨r', hr', heq⟩ := List.mem_map.mp hrespond
    obtain ⟨b, hb⟩ := hrendered r' hr'
    exact ⟨b, heq.symm.trans hb⟩
  refine ⟨fun r hr => ⟨fun hfilter => ?_, fun hr' => ?_⟩, fun r hr => ?_⟩
  · have hin : r ∈ Sql.orderBy .stored order ((rows s).filter filters) :=
      Sql.perm_orderBy.mem_iff.mpr (List.mem_filter.mpr ⟨hr, hfilter⟩)
    exact Sql.perm_orderBy.mem_iff.mp (hmem hsame hfound hshown hfoundOk r hin)
  · have hin := hmem hsame.symm hshown hfound hrendered r (Sql.perm_orderBy.mem_iff.mpr hr')
    exact List.of_mem_filter (Sql.perm_orderBy.mem_iff.mp hin)
  · exact hrendered r (Sql.perm_orderBy.mem_iff.mpr hr)

/-- When the filter of a listing is the wanted one. -/
theorem lists_iff [LinearOrder κ] {column : Sql.Order ρ} {wanted : ρ → Bool}
    (hkeys : ((rows s).map key).Nodup)
    (hresponse : ∀ r r' b, response r = .ok b → response r' = .ok b → key r = key r') :
    Lists σ s (listPage pt rows filters (column.thenBy (.on key)) response)
        (column.thenBy (.on key)) response ((rows s).filter wanted) ↔
      (∀ r ∈ rows s, filters r = wanted r) ∧ ∀ r ∈ rows s, wanted r → ∃ b, response r = .ok b := by
  constructor
  · intro h
    obtain ⟨hsame, hok⟩ := of_lists hkeys (fun r hr => List.mem_of_mem_filter hr) hresponse h
    refine ⟨fun r hr => Bool.eq_iff_iff.mpr ?_, fun r hr hwanted => ?_⟩
    · rw [hsame r hr, List.mem_filter, and_iff_right hr]
    · exact hok r (List.mem_filter.mpr ⟨hr, hwanted⟩)
  · rintro ⟨hsame, hok⟩
    rw [← List.filter_congr hsame]
    exact listPage_lists hkeys fun r hr hfilter => hok r hr (hsame r hr ▸ hfilter)

/-! ### All pages -/

/-- The items of the pages of one size: they give every row once, in order; all
pages are full but the last, that has a row, and those beyond it are empty. -/
structure Partitioned (items : ℕ → List β) (size count : ℕ) (response : ρ → Except Exc β)
    (order : Sql.Order ρ) (rows : List ρ) : Prop where
  count_eq : count = ⌈(rows.length : ℚ) / size⌉₊
  covers : ∃ listed : List ρ, listed.Perm rows ∧ (listed.Pairwise fun a b => order.le a b) ∧
    listed.map response = ((List.range count).flatMap fun k => items (k + 1)).map .ok
  full : ∀ k, 1 ≤ k → k < count → (items k).length = size
  last : 1 ≤ count → items count ≠ []
  beyond : ∀ k, count < k → items k = []

/-- However the database comes across the rows, the pages of the size of `last`
that the program returns, up to `last` and as long as there are rows, partition
`rows`, and each tells how many rows and pages there are. -/
def PagesPartition (σ : Storage S Row Write Call Input Exc) (s : S)
    (listing : Sql.Scan ρ → Paging → Prog S Row Write Call Input Exc Point (Page β))
    (order : Sql.Order ρ) (response : ρ → Except Exc β) (rows : List ρ) (last : Paging) : Prop :=
  ∃ (items : ℕ → List β) (count : ℕ), Partitioned items last.pageSize count response order rows ∧
    ∀ scan (paging : Paging), paging.pageSize = last.pageSize → paging.page ≤ max count last.page →
      (listing scan paging).Answers σ s
        (.ok ⟨items paging.page, paging.page, paging.pageSize, rows.length, count⟩)

/-- The offsets are `bigint`s of the pages up to `last` and of those that the
`n` rows are on. -/
def Paging.Sendable (last : Paging) (n : ℕ) : Prop :=
  (max ⌈(n : ℚ) / last.pageSize⌉₊ last.page - 1) * last.pageSize < 2 ^ 63

variable {listing : Sql.Scan ρ → Paging → Prog S Row Write Call Input Exc Point (Page β)}
  {wanted : List ρ} {last : Paging}

theorem Lists.pagesPartition (h : Lists σ s listing order response wanted)
    (hlast : last.Sendable wanted.length) :
    PagesPartition σ s listing order response wanted last := by
  let size := last.pageSize
  have hsize : 1 ≤ size := last.pageSize_ge
  let listed := Sql.orderBy .stored order wanted
  have hlength : listed.length = wanted.length := Sql.perm_orderBy.length_eq
  have hrendered (r : ρ) (hr : r ∈ listed) : ∃ b, response r = .ok b := by
    -- all rows on one page
    obtain ⟨page, -, hshows⟩ := h .stored ⟨1, listed.length + 1, le_rfl, by omega⟩
      (by simp [Paging.offset])
    have hslice : Sql.slice 1 (listed.length + 1) listed = listed := by
      rw [Sql.slice, Nat.sub_self, Nat.zero_mul, List.drop_zero,
        List.take_of_length_le (Nat.le_succ _)]
    obtain ⟨b, -, hb⟩ := Python.result_of_mem (hslice ▸ hshows.items) hr
    exact ⟨b, hb⟩
  have hpage (k : ℕ) : ∃ items : List β, (Sql.slice k size listed).map response = items.map .ok :=
    Python.exists_results fun r hr => hrendered r (List.mem_of_mem_drop (List.mem_of_mem_take hr))
  choose items hitems using hpage
  have hlengths (k : ℕ) : (items k).length = (Sql.slice k size listed).length := by
    have hmapped := congrArg List.length (hitems k)
    rw [List.length_map, List.length_map] at hmapped
    exact hmapped.symm
  have hall : ((List.range (Sql.pageCount listed.length size)).flatMap fun k =>
      Sql.slice (k + 1) size listed) = listed := Sql.flatMap_slice_pageCount hsize
  refine ⟨items, Sql.pageCount listed.length size, ⟨?_, ⟨listed, Sql.perm_orderBy,
    Sql.pairwise_orderBy, ?_⟩, fun k hk hlt => ?_, fun hcount => ?_, fun k hlt => ?_⟩,
    fun scan paging hpaging hpage => ?_⟩
  · rw [Sql.pageCount_eq, hlength]
  · conv_lhs => rw [← hall]
    rw [List.map_flatMap, List.map_flatMap]
    congr 1
    ext1 k
    exact hitems (k + 1)
  · rw [hlengths, Sql.length_slice_of_lt hsize hk hlt]
  · rw [← List.length_pos_iff, hlengths, List.length_pos_iff]
    exact Sql.slice_ne_nil hsize hcount le_rfl
  · rw [← List.length_eq_zero_iff, hlengths, Sql.slice_eq_nil hsize hlt, List.length_nil]
  · have hoffset : paging.offset < 2 ^ 63 := by
      rw [Sql.pageCount_eq, hlength] at hpage
      rw [Paging.offset, hpaging]
      exact (Nat.mul_le_mul_right _ (Nat.sub_le_sub_right hpage 1)).trans_lt hlast
    obtain ⟨page, hanswer, hshows⟩ := h scan paging hoffset
    have hexpected : (⟨items paging.page, paging.page, paging.pageSize, wanted.length,
        Sql.pageCount listed.length size⟩ : Page β).Shows response listed paging :=
      ⟨hpaging ▸ hitems paging.page, rfl, rfl, hlength.symm, by rw [hpaging]⟩
    rwa [hshows.eq hexpected] at hanswer

/-- The rows of a partitioned collection can be rendered. -/
theorem PagesPartition.rendered (h : PagesPartition σ s listing order response wanted last) {r : ρ}
    (hr : r ∈ wanted) : ∃ b, response r = .ok b := by
  obtain ⟨_, _, hpartitioned, -⟩ := h
  obtain ⟨listed, hperm, -, hrendered⟩ := hpartitioned.covers
  obtain ⟨b, -, hb⟩ := Python.result_of_mem hrendered (hperm.mem_iff.mpr hr)
  exact ⟨b, hb⟩

/-- The last page asked for is answered. -/
theorem PagesPartition.answers (h : PagesPartition σ s listing order response wanted last) :
    ∃ scan paging page, (listing scan paging).Answers σ s (.ok page) ∧
      (paging.offset < 2 ^ 63 → last.Sendable wanted.length) := by
  obtain ⟨items, count, hpartitioned, hanswers⟩ := h
  have hpage : 1 ≤ max count last.page := le_max_of_le_right last.page_ge
  refine ⟨.stored, ⟨max count last.page, last.pageSize, hpage, last.pageSize_ge⟩, _,
    hanswers .stored _ rfl le_rfl, fun hoffset => ?_⟩
  rw [Paging.Sendable, ← hpartitioned.count_eq]
  exact hoffset

/-- A program that checks something first, and what it raises if the check fails. -/
theorem Lists.checked_iff {check : Except Exc Unit} :
    Lists σ s (fun scan paging => Prog.ofExcept check >>= fun _ => listing scan paging) order
      response
        wanted ↔
      check = .ok () ∧ Lists σ s listing order response wanted := by
  cases check with
  | ok _ => exact (and_iff_right rfl).symm
  | error e =>
      refine iff_of_false (fun h => ?_) (by simp)
      obtain ⟨page, hanswers, -⟩ := h .stored ⟨1, 1, le_rfl, le_rfl⟩ (by simp [Paging.offset])
      cases hanswers.unique (Prog.Answers.bind_error (Prog.Answers.ofExcept (.error e)))

theorem PagesPartition.checked_iff {check : Except Exc Unit} :
    PagesPartition σ s (fun scan paging => Prog.ofExcept check >>= fun _ => listing scan paging)
        order response wanted last ↔
      check = .ok () ∧ PagesPartition σ s listing order response wanted last := by
  cases check with
  | ok _ => exact (and_iff_right rfl).symm
  | error e =>
      refine iff_of_false (fun h => ?_) (by simp)
      obtain ⟨scan, paging, page, hanswers, -⟩ := h.answers
      cases hanswers.unique (Prog.Answers.bind_error (Prog.Answers.ofExcept (.error e)))

/-- When the pages of a listing partition what it finds. -/
theorem listPage_pagesPartition [LinearOrder κ] (rows : S → List ρ) (key : ρ → κ)
    {column : Sql.Order ρ} (hkeys : ((rows s).map key).Nodup) :
    PagesPartition σ s (listPage pt rows filters (column.thenBy (.on key)) response)
        (column.thenBy (.on key)) response ((rows s).filter filters) last ↔
      last.Sendable ((rows s).filter filters).length ∧
        ∀ r ∈ rows s, filters r → ∃ b, response r = .ok b := by
  constructor
  · intro h
    obtain ⟨scan, paging, page, hanswers, hsendable⟩ := h.answers
    exact ⟨hsendable (offset_of_answers hanswers),
      fun r hr hfilter => h.rendered (List.mem_filter.mpr ⟨hr, hfilter⟩)⟩
  · exact fun ⟨hsendable, hok⟩ => (listPage_lists hkeys hok).pagesPartition hsendable

end Listing

/-! ### Runs, projects and experiments -/

section Endpoints

variable {rt : Runtime} {collation : Sql.Order String} {times : Uuid → Timestamps}

/-- The text of a filter that is not empty can be sent. -/
def StorableFilter (rt : Runtime) (text : Option String) : Prop :=
  ∀ s ∈ text, s ≠ "" → storable (normalText rt s)

instance (text : Option String) : Decidable (StorableFilter rt text) :=
  inferInstanceAs (Decidable (∀ s ∈ text, s ≠ "" → storable (normalText rt s)))

theorem sendFilter_ok {text : Option String} :
    sendFilter rt text = .ok () ↔ StorableFilter rt text := by
  cases text with
  | none => simp [sendFilter, StorableFilter]
  | some s =>
      by_cases hempty : s = ""
      · simp [sendFilter, StorableFilter, hempty]
      · simp [sendFilter, StorableFilter, hempty, sendText]

theorem Experiment.exists_listed {e : Experiment} :
    (∃ response, e.listed times = .ok response) ↔ e.tags ≠ none := by
  cases htags : e.tags with
  | none => simp [Experiment.listed, Experiment.response, htags, Except.map]
  | some tags => simp [Experiment.listed, Experiment.response, htags, Except.map]

/-- When a listing of projects shows the wanted ones. -/
theorem listProjects_iff {c : Catalog} {search : Option String} {sort : CatalogSort}
    {direction : Direction} {wanted : Project → Bool} :
    Lists catalogStorage c (listProjects rt collation times search sort direction)
        (projectOrder collation times sort direction) (fun p => .ok (p, times p.id))
        (c.projects.rows.filter wanted) ↔
      StorableFilter rt search ∧
        ∀ p ∈ c.projects.rows, searched rt search p.name p.description = wanted p := by
  rw [← sendFilter_ok]
  refine Lists.checked_iff.trans (and_congr_right' (Iff.trans (lists_iff ?_ ?_) (and_iff_left ?_)))
  · exact c.projects.nodup
  · intro p p' b h h'
    obtain rfl := Except.ok.inj h
    exact congrArg (fun b => b.1.id) (Except.ok.inj h').symm
  · exact fun p _ _ => ⟨_, rfl⟩

theorem Experiment.listed_id {e : Experiment} {response : ExperimentResponse × Timestamps}
    (h : e.listed times = .ok response) : response.1.id = e.id := by
  cases htags : e.tags with
  | none =>
      rw [listed, Experiment.response, htags] at h
      cases h
  | some tags =>
      rw [listed, Experiment.response, htags] at h
      obtain rfl := Except.ok.inj h
      rfl

/-- When a listing of experiments shows the wanted ones. -/
theorem listExperiments_iff {c : Catalog} {filters : ExperimentFilters} {sort : CatalogSort}
    {direction : Direction} {wanted : Experiment → Bool} :
    Lists catalogStorage c (listExperiments rt collation times filters sort direction)
        (experimentOrder collation times sort direction) (Experiment.listed times)
        (c.experiments.rows.filter wanted) ↔
      (StorableFilter rt filters.search ∧ StorableFilter rt filters.tag) ∧
        (∀ e ∈ c.experiments.rows, filters.admits rt e = wanted e) ∧
        ∀ e ∈ c.experiments.rows, wanted e → e.tags ≠ none := by
  rw [← sendFilter_ok, ← sendFilter_ok, and_assoc]
  refine Lists.checked_iff.trans (and_congr_right' (Lists.checked_iff.trans
    (and_congr_right' (Iff.trans (lists_iff ?_ ?_) ?_))))
  · exact c.experiments.nodup
  · intro e e' b h h'
    rw [← Experiment.listed_id h, Experiment.listed_id h']
  · simp only [Experiment.exists_listed]

end Endpoints

/-- The pages of a collection partition it just if their offsets and the texts
of the filters can be sent and, of experiments, none that matches has null
tags. -/
theorem pages_partition (rt : Runtime) (collation : Sql.Order String) (times : Uuid → Timestamps) :
    (∀ (p : Platform) filters sort direction last,
      PagesPartition storage p (listRuns filters sort direction) (runOrder sort direction) .ok
          (p.db.runs.rows.filter filters.admits) last ↔
        last.Sendable (p.db.runs.rows.filter filters.admits).length) ∧
    (∀ (c : Catalog) search sort direction last,
      PagesPartition catalogStorage c (listProjects rt collation times search sort direction)
          (projectOrder collation times sort direction) (fun p => .ok (p, times p.id))
          (c.projects.rows.filter fun p => searched rt search p.name p.description) last ↔
        StorableFilter rt search ∧ last.Sendable
          (c.projects.rows.filter fun p => searched rt search p.name p.description).length) ∧
    ∀ (c : Catalog) filters sort direction last,
      PagesPartition catalogStorage c (listExperiments rt collation times filters sort direction)
          (experimentOrder collation times sort direction) (Experiment.listed times)
          (c.experiments.rows.filter (filters.admits rt)) last ↔
        (StorableFilter rt filters.search ∧ StorableFilter rt filters.tag) ∧
          last.Sendable (c.experiments.rows.filter (filters.admits rt)).length ∧
          ∀ e ∈ c.experiments.rows, filters.admits rt e → e.tags ≠ none := by
  refine ⟨fun p filters sort direction last => ?_, fun c search sort direction last => ?_,
    fun c filters sort direction last => ?_⟩
  · refine Iff.trans (listPage_pagesPartition (fun p : Platform => p.db.runs.rows) Run.id ?_)
      (and_iff_left ?_)
    · exact p.db.runs.nodup
    · exact fun run _ _ => ⟨run, rfl⟩
  · rw [← sendFilter_ok]
    refine PagesPartition.checked_iff.trans (and_congr_right'
      (Iff.trans (listPage_pagesPartition (fun c : Catalog => c.projects.rows) Project.id ?_)
        (and_iff_left ?_)))
    · exact c.projects.nodup
    · exact fun p _ _ => ⟨(p, times p.id), rfl⟩
  · rw [← sendFilter_ok, ← sendFilter_ok, and_assoc]
    refine PagesPartition.checked_iff.trans (and_congr_right' (PagesPartition.checked_iff.trans
      (and_congr_right' (Iff.trans
        (listPage_pagesPartition (fun c : Catalog => c.experiments.rows) Experiment.id ?_) ?_))))
    · exact c.experiments.nodup
    · simp only [Experiment.exists_listed]

/-! ### A row that cannot be rendered -/

namespace Demo

theorem name_fits : "Baseline".length ≤ 120 := by decide

/-- The body sets the tags to null. -/
def untag : ExperimentUpdate := ⟨some (some "Baseline"), none, some none, by simp⟩

/-- An experiment is created and loses its tags. -/
def untagging : List (Action Request Input) :=
  .spawn (create "Baseline" name_fits) :: requestSteps 0 6 10 ++
    .spawn (.updateExperiment 10 untag) :: requestSteps 1 5 11

end Demo

/-- After an accepted request an experiment has null tags, and no page with it
is answered; and nor is a page of an empty collection whose number is too
large. -/
theorem pages_interrupted :
    ExperimentUpdate.modelValidate Demo.lowering (some (some "Baseline")) none (some none) =
      some Demo.untag ∧
    (∃ w, Reach (catalogSystem Demo.lowering) (fun _ _ _ => True) (.initial Demo.vision) w ∧
      ∀ collation times sort direction last, ¬ PagesPartition catalogStorage w.state
        (listExperiments Demo.lowering collation times ⟨none, none, none⟩ sort direction)
        (experimentOrder collation times sort direction) (Experiment.listed times)
        w.state.experiments.rows last) ∧
    ∀ sort direction, ¬ PagesPartition storage Demo.vision.platform
      (listRuns ⟨none, none⟩ sort direction) (runOrder sort direction) .ok []
      ⟨2 ^ 63 + 1, 1, by decide, le_rfl⟩ := by
  have h : ((World.initial Demo.vision).exec (catalogSystem Demo.lowering) Demo.untagging).any
      fun w => w.state.experiments.rows.any fun e => e.tags = none := by decide +kernel
  obtain ⟨w, hw, hany⟩ := (Option.any_eq_true _ _).mp h
  obtain ⟨e, he, htags⟩ := List.any_eq_true.mp hany
  refine ⟨rfl, ⟨w, Reach.refl.of_exec hw, fun collation times sort direction last hpages => ?_⟩,
    fun sort direction hpages => ?_⟩
  · exact Experiment.exists_listed.mp (hpages.rendered he) (of_decide_eq_true htags)
  · obtain ⟨scan, paging, page, hanswers, hsendable⟩ := hpages.answers
    exact absurd (hsendable (offset_of_answers hanswers)) (by simp [Paging.Sendable])

end Runscope
