import Mathlib.Data.String.Basic
import Runscope.Pages
import Runscope.Tags

/-!
Search strings of the listings.

The string goes into a pattern as it is, so the search is one for the string
itself just if its characters stand for themselves in patterns and the
database takes it.
-/

namespace Runscope

open Transact

/-- What is assumed of `str.lower` here: a text is lowercase if its characters
are, and characters before the letters have no case; and the database lowercases
like it. -/
structure Runtime.Lowercases (rt : Runtime) : Prop where
  fixed : ∀ s, rt.lower s = s ↔ ∀ c ∈ s.toList, rt.lower (String.singleton c) = String.singleton c
  lower_lower : ∀ s, rt.lower (rt.lower s) = rt.lower s
  sqlLower : ∀ s, rt.sqlLower s = rt.lower s
  uncased : ∀ c : Char, c.toNat < 65 → rt.lower (String.singleton c) = String.singleton c

/-- The text, in lowercase, contains the search string. -/
def contains (rt : Runtime) (search text : String) : Bool :=
  (normalText rt search).toList <:+: (rt.lower text).toList

section Contains

variable {rt : Runtime} {search name description text : String}

theorem Runtime.Lowercases.lower_empty (hrt : rt.Lowercases) : rt.lower "" = "" :=
  (hrt.fixed "").mpr nofun

/-- Characters of lowercase texts, dashes and percent signs make a lowercase
text. -/
theorem Runtime.Lowercases.lower_ofList (hrt : rt.Lowercases) {s : String} {chars : List Char}
    (hchars : ∀ c ∈ chars, c ∈ (rt.lower s).toList ∨ c.toNat < 65) :
    rt.lower (String.ofList chars) = String.ofList chars := by
  refine (hrt.fixed _).mpr fun c hc => ?_
  rw [String.toList_ofList] at hc
  rcases hchars c hc with hlowered | hplain
  · exact (hrt.fixed _).mp (hrt.lower_lower s) c hlowered
  · exact hrt.uncased c hplain

theorem contains_iff :
    contains rt search text ↔ (normalText rt search).toList <:+: (rt.lower text).toList := by
  rw [contains, decide_eq_true_iff]

theorem like_eq_contains (h : ∀ c ∈ (normalText rt search).toList, Sql.Literal c) :
    Sql.like ('%' :: (normalText rt search).toList ++ ['%']) (rt.lower text).toList =
      contains rt search text := by
  rw [Bool.eq_iff_iff, Sql.like_within_literal h, contains_iff]

/-- Without special characters the filter is the search for the string. -/
theorem searched_literal (hrt : rt.Lowercases)
    (h : ∀ c ∈ (normalText rt search).toList, Sql.Literal c) :
    searched rt (some search) name description =
      (contains rt search name || contains rt search description) := by
  simp only [searched, hrt.sqlLower, like_eq_contains h]
  by_cases hempty : search = ""
  · have hnormal : normalText rt search = "" := by
      rw [hempty]
      exact hrt.lower_empty
    have hall : contains rt search name := by
      rw [contains_iff, hnormal]
      exact List.nil_infix
    simp [hempty ▸ hall, hempty]
  · simp [hempty]

/-- With a special character the filter admits a text that does not contain
the string. -/
theorem exists_searched (hrt : rt.Lowercases)
    (h : ¬ ∀ c ∈ (normalText rt search).toList, Sql.Literal c) :
    ∃ text, searched rt (some search) "--" text = true ∧ contains rt search "--" = false ∧
      contains rt search text = false := by
  obtain ⟨chars, hlike, hnot, hchars⟩ := Sql.exists_like_within h
  have hlowered (chars : List Char)
      (hchars : ∀ c ∈ chars, c ∈ (normalText rt search).toList ∨ c = '-' ∨ c = '%') :
      rt.lower (String.ofList chars) = String.ofList chars := by
    apply hrt.lower_ofList
    intro c hc
    rcases hchars c hc with hsearch | rfl | rfl
    · exact .inl hsearch
    · exact .inr (by decide)
    · exact .inr (by decide)
  have hnone (chars : List Char)
      (hchars : ∀ c ∈ chars, c ∈ (normalText rt search).toList ∨ c = '-' ∨ c = '%')
      (hnot : ¬ (normalText rt search).toList <:+: chars) :
      contains rt search (String.ofList chars) = false := by
    rw [← Bool.not_eq_true, contains_iff, hlowered chars hchars, String.toList_ofList]
    exact hnot
  refine ⟨String.ofList chars, ?_, ?_, hnone chars hchars hnot⟩
  · simp only [searched, hrt.sqlLower, hlowered chars hchars, String.toList_ofList, hlike,
      Bool.or_true]
  · refine hnone ['-', '-'] (by simp) fun hwithin => ?_
    push Not at h
    obtain ⟨c, hc, hspecial⟩ := h
    obtain rfl : c = '-' := by simpa using hwithin.subset hc
    exact hspecial (by decide)

theorem storableFilter_search (hrt : rt.Lowercases) :
    StorableFilter rt (some search) ↔ storable (normalText rt search) := by
  by_cases hempty : search = ""
  · have hnormal : normalText rt search = "" := by
      rw [hempty]
      exact hrt.lower_empty
    have hstorable : storable "" := by decide
    rw [hnormal]
    simp [StorableFilter, hempty, hstorable]
  · simp [StorableFilter, hempty]

end Contains

/-- Whatever is stored, `list_projects` finds the rows that contain the search
string, and `list_experiments` does unless one of them has null tags, just if
the normal form of the string has no character that is special in patterns and
none that the database does not take. -/
theorem search_literal {rt : Runtime} (hrt : rt.Lowercases) (collation : Sql.Order String)
    (times : Uuid → Timestamps) (search : String) (sort : CatalogSort) (direction : Direction) :
    ((∀ c ∈ (normalText rt search).toList, Sql.Literal c) ∧ storable (normalText rt search) ↔
      ∀ c : Catalog,
      Lists catalogStorage c (listProjects rt collation times (some search) sort direction)
        (projectOrder collation times sort direction) (fun p => .ok (p, times p.id))
        (c.projects.rows.filter fun p =>
          contains rt search p.name || contains rt search p.description)) ∧
    ((∀ c ∈ (normalText rt search).toList, Sql.Literal c) ∧ storable (normalText rt search) ↔
      ∀ c : Catalog,
      Lists catalogStorage c
          (listExperiments rt collation times ⟨some search, none, none⟩ sort direction)
          (experimentOrder collation times sort direction) (Experiment.listed times)
          (c.experiments.rows.filter fun e =>
            contains rt search e.name || contains rt search e.description) ↔
        ∀ e ∈ c.experiments.rows,
          contains rt search e.name ∨ contains rt search e.description → e.tags ≠ none) := by
  have hexperiments (c : Catalog) : Lists catalogStorage c
      (listExperiments rt collation times ⟨some search, none, none⟩ sort direction)
      (experimentOrder collation times sort direction) (Experiment.listed times)
      (c.experiments.rows.filter fun e =>
        contains rt search e.name || contains rt search e.description) ↔
      storable (normalText rt search) ∧
      (∀ e ∈ c.experiments.rows, searched rt (some search) e.name e.description =
        (contains rt search e.name || contains rt search e.description)) ∧
      ∀ e ∈ c.experiments.rows,
        contains rt search e.name ∨ contains rt search e.description → e.tags ≠ none := by
    have htag : StorableFilter rt none := by simp [StorableFilter]
    rw [listExperiments_iff, storableFilter_search hrt, and_iff_left htag]
    simp [ExperimentFilters.admits, tagged]
  simp only [listProjects_iff, storableFilter_search hrt, hexperiments]
  refine ⟨⟨fun h c => ⟨h.2, fun p _ => searched_literal hrt h.1⟩, fun h => ⟨?_, ?_⟩⟩,
    ⟨fun h c => ?_, fun h => ⟨?_, ?_⟩⟩⟩
  · by_contra hspecial
    obtain ⟨text, hfound, hname, htext⟩ := exists_searched hrt hspecial
    have hsame := (h { Demo.vision with projects := ⟨[⟨1, "--", text, 5⟩], by simp⟩ }).2 _
      (List.mem_singleton_self _)
    simp [hfound, hname, htext] at hsame
  · exact (h Demo.vision).1
  · rw [and_iff_right h.2, and_iff_right fun e _ => searched_literal hrt h.1]
  · by_contra hspecial
    obtain ⟨text, hfound, hname, htext⟩ := exists_searched hrt hspecial
    have hiff := h { Demo.vision with experiments := ⟨[⟨2, 1, "--", text, some [], 5⟩], by simp⟩ }
    simp [hfound, hname, htext] at hiff
  · -- without experiments no page can be missing
    have hnone := h { Demo.vision with experiments := .empty }
    exact (hnone.mpr (by simp)).1

namespace Demo

theorem lower_singleton (c : Char) : lowercase.lower (String.singleton c) = String.singleton c.toLower := by
  show String.ofList ((String.singleton c).toList.map Char.toLower) = _
  rw [String.toList_singleton, List.map_singleton, String.singleton_eq_ofList]

theorem lowercase_lowercases : lowercase.Lowercases where
  fixed s := by
    simp only [lower_singleton, String.singleton_inj]
    show String.ofList (s.toList.map Char.toLower) = s ↔ _
    rw [← String.toList_inj, String.toList_ofList, ← List.map_inj_left, List.map_id']
  lower_lower := lowercase_lowers.lower_lower
  sqlLower s := rfl
  uncased c hc := by
    have hsame : c.toLower = c := dif_neg fun hupper => by
      have hge : 65 ≤ c.toNat := hupper.1
      omega
    rw [lower_singleton, hsame]

/-- Texts are ordered by their characters, and all rows are of the same time. -/
def collation : Sql.Order String := .on id

def times : Uuid → Timestamps := fun _ => ⟨0, 0⟩

/-- Rows that contain neither `100%` nor `a_b`. -/
def resembling : Catalog :=
  { vision with
    projects := ⟨[⟨1, "100 runs", "", 5⟩], by decide⟩
    experiments := ⟨[⟨2, 1, "a-b", "", some [], 5⟩], by decide⟩ }

end Demo

/-- Rows are found that do not contain the search string. -/
theorem search_wild :
    ¬ Lists catalogStorage Demo.resembling
      (listProjects Demo.lowercase Demo.collation Demo.times (some "100%") .name .asc)
      (projectOrder Demo.collation Demo.times .name .asc) (fun p => .ok (p, Demo.times p.id))
      (Demo.resembling.projects.rows.filter fun p =>
        contains Demo.lowercase "100%" p.name || contains Demo.lowercase "100%" p.description) ∧
    ¬ Lists catalogStorage Demo.resembling
      (listExperiments Demo.lowercase Demo.collation Demo.times ⟨some "A_b", none, none⟩ .name .asc)
      (experimentOrder Demo.collation Demo.times .name .asc) (Experiment.listed Demo.times)
      (Demo.resembling.experiments.rows.filter fun e =>
        contains Demo.lowercase "A_b" e.name || contains Demo.lowercase "A_b" e.description) := by
  rw [listProjects_iff, listExperiments_iff]
  decide +kernel

/-- A word in capitals is found in lowercase. -/
theorem search_literal_word :
    Lists catalogStorage Demo.vision
      (listProjects Demo.lowercase Demo.collation Demo.times (some " VIS") .name .asc)
      (projectOrder Demo.collation Demo.times .name .asc) (fun p => .ok (p, Demo.times p.id))
      Demo.vision.projects.rows := by
  have hliteral : ((normalText Demo.lowercase " VIS").toList.all fun c => Sql.Literal c) = true := by
    decide +kernel
  have h := (search_literal Demo.lowercase_lowercases Demo.collation Demo.times " VIS" .name .asc).1.mp
    ⟨fun c hc => of_decide_eq_true (List.all_eq_true.mp hliteral c hc), by decide +kernel⟩
    Demo.vision
  have hall : (Demo.vision.projects.rows.filter fun p =>
      contains Demo.lowercase " VIS" p.name || contains Demo.lowercase " VIS" p.description) =
      Demo.vision.projects.rows := by decide +kernel
  rwa [hall] at h

end Runscope
