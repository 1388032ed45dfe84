import Runscope.Database

/-!
The laws of the database as a `Storage`: a write is checked against, and
changes, only the rows it locks.
-/

namespace Runscope

open Transact

namespace Db

/-- Ids of the unreleased allocations of a run. -/
def activeIds (db : Db) (runId : Uuid) : List Uuid :=
  (db.allocations.rows.filter fun a => a.active ∧ a.runId = runId).map ResourceAllocation.id

theorem any_active_eq (db : Db) (runId : Uuid) :
    (db.activeAllocations.any fun a => a.runId = runId) = !(db.activeIds runId).isEmpty := by
  rw [activeIds, List.isEmpty_map, Bool.eq_iff_iff]
  simp [activeAllocations, List.filter_eq_nil_iff]

theorem activeIds_insert {db : Db} {x : ResourceAllocation} (runId : Uuid) :
    { db with allocations := db.allocations.insert x }.activeIds runId =
      if db.allocations.get? x.id = none ∧ x.active ∧ x.runId = runId then
        db.activeIds runId ++ [x.id]
      else db.activeIds runId := by
  cases h : db.allocations.get? x.id with
  | none =>
      simp only [activeIds, Table.rows_insert h, true_and]
      by_cases hx : x.active <;> by_cases hr : x.runId = runId <;> simp [hx, hr]
  | some y => simp [Table.insert_of_get? h]

/-- A change in place that keeps the run and whether the lease is active. -/
theorem activeIds_update {db : Db} {id : Uuid} {f : ResourceAllocation → ResourceAllocation}
    {hf : ∀ a, (f a).id = a.id} (hrun : ∀ a, (f a).runId = a.runId)
    (hactive : ∀ a, (f a).active = a.active) (runId : Uuid) :
    { db with allocations := db.allocations.update id f hf }.activeIds runId =
      db.activeIds runId := by
  simp only [activeIds, Table.rows_update, List.filter_map, List.map_map]
  congr 1
  · funext a
    simp only [Function.comp]
    split <;> simp [hf]
  · congr 1
    funext a
    simp only [Function.comp]
    split <;> simp [hrun, hactive]

theorem get?_release {db : Db} {x : ResourceAllocation} {time : Time} (id : Uuid) :
    ((Write.releaseAllocation x time).applyDb db).allocations.get? id =
      if id = x.id ∧ (db.allocations.get? x.id).any x.sameLease then
        (db.allocations.get? id).map fun a => { a with releasedAt := some time }
      else db.allocations.get? id := by
  by_cases hany : (db.allocations.get? x.id).any x.sameLease
  · simp [Write.applyDb, hany, Table.get?_update]
  · simp [Write.applyDb, hany]

theorem activeIds_release {db : Db} {x : ResourceAllocation} {time : Time} (runId : Uuid) :
    ((Write.releaseAllocation x time).applyDb db).activeIds runId =
      if (db.allocations.get? x.id).any x.sameLease ∧ runId = x.runId then
        (db.activeIds runId).filter (· ≠ x.id)
      else db.activeIds runId := by
  cases hany : (db.allocations.get? x.id).any x.sameLease with
  | false => simp [Write.applyDb, hany, activeIds]
  | true =>
      obtain ⟨b, hget, hb⟩ := (Option.any_eq_true _ _).mp hany
      have hrow : ∀ a ∈ db.allocations.rows, a.id = x.id → a.runId = x.runId := by
        intro a ha hid
        obtain rfl := Table.eq_of_key ha (Table.mem_of_get? hget)
          (hid.trans (Table.key_of_get? hget).symm)
        simp only [ResourceAllocation.sameLease, Bool.decide_and, Bool.and_eq_true,
          decide_eq_true_eq] at hb
        exact hb.1
      have hids : (ResourceAllocation.id ∘ fun a =>
          if a.id = x.id then { a with releasedAt := some time } else a) =
          ResourceAllocation.id := by
        funext a
        simp only [Function.comp]
        split <;> rfl
      simp only [Write.applyDb, hany, if_true, activeIds, Table.rows_update, List.filter_map,
        List.map_map, List.filter_filter, hids]
      split
      · next h =>
        rw [h.2]
        congr 1
        refine List.filter_congr fun a _ => ?_
        by_cases hid : a.id = x.id <;> simp [hid, ResourceAllocation.active]
      · next h =>
        congr 1
        refine List.filter_congr fun a ha => ?_
        by_cases hid : a.id = x.id
        · have hne : ¬ x.runId = runId := fun heq => h ⟨trivial, heq.symm⟩
          simp [hid, hrow a ha hid, hne]
        · simp [hid]

end Db

/-- Two states agree on a row, or on whether a unique key is taken. -/
def RowKey.same : RowKey → Platform → Platform → Prop
  | run id, p, p' => p.db.runs.get? id = p'.db.runs.get? id
  | worker id, p, p' => p.db.workers.get? id = p'.db.workers.get? id
  | workerName name, p, p' =>
      (p.db.workers.rows.any fun x => x.name = name) = p'.db.workers.rows.any fun x => x.name = name
  | allocation id, p, p' => p.db.allocations.get? id = p'.db.allocations.get? id
  | activeRun runId, p, p' => p.db.activeIds runId = p'.db.activeIds runId
  | leaseToken token, p, p' =>
      (p.db.allocations.rows.any fun x => x.leaseToken = token) =
        p'.db.allocations.rows.any fun x => x.leaseToken = token
  | parameter runId name, p, p' =>
      (p.db.parameters.any fun x => x.runId = runId ∧ x.name = name) =
        p'.db.parameters.any fun x => x.runId = runId ∧ x.name = name
  | log runId n, p, p' =>
      (p.db.logs.any fun x => x.runId = runId ∧ x.sequenceNumber = n) =
        p'.db.logs.any fun x => x.runId = runId ∧ x.sequenceNumber = n
  | artifact runId name, p, p' =>
      (p.db.artifacts.any fun x => x.runId = runId ∧ x.name = name) =
        p'.db.artifacts.any fun x => x.runId = runId ∧ x.name = name
  | storageKey key, p, p' =>
      (p.db.artifacts.any fun x => x.storageKey = key) =
        p'.db.artifacts.any fun x => x.storageKey = key
  | outbox id, p, p' => p.db.outbox.get? id = p'.db.outbox.get? id
  | processed m, p, p' => m ∈ p.db.processed ↔ m ∈ p'.db.processed

theorem RowKey.same_equiv (k : RowKey) : Equivalence k.same := by
  constructor
  · intro p; cases k <;> rfl
  · intro p p' h; cases k <;> first | exact Eq.symm h | exact Iff.symm h
  · intro p p' p'' h h'; cases k <;> first | exact Eq.trans h h' | exact Iff.trans h h'

/-- Whether some row has a property, after an insert of a row without it. -/
theorem any_insert_of_not {α κ : Type} [DecidableEq κ] {key : α → κ} {t : Table key} {a : α}
    {p : α → Bool} (h : p a = false) : (t.insert a).rows.any p = t.rows.any p := by
  cases hget : t.get? (key a) with
  | none => simp [Table.rows_insert hget, h]
  | some b => rw [Table.insert_of_get? hget]

theorem RowKey.same_apply {w : Write} {k : RowKey} (h : k ∉ w.rowsOf) (p : Platform) :
    k.same p (w.apply p) := by
  cases k with
  | run id =>
      cases w <;> try rfl
      all_goals
        simp only [Write.rowsOf, List.mem_singleton, run.injEq] at h
        simp [RowKey.same, Write.apply, Write.applyDb, Table.get?_insert, Table.get?_update, h,
          Ne.symm h]
  | worker id =>
      cases w <;> try rfl
      all_goals
        simp only [Write.rowsOf, List.mem_cons, List.not_mem_nil, worker.injEq, reduceCtorEq,
          or_false] at h
        simp [RowKey.same, Write.apply, Write.applyDb, Table.get?_insert, Table.get?_update, h,
          Ne.symm h]
  | workerName name =>
      cases w <;> try rfl
      case insertWorker x =>
        have hx : ¬ x.name = name := by simpa [Write.rowsOf, eq_comm] using h
        exact (any_insert_of_not (by simpa using hx)).symm
      case updateWorker loaded changed =>
        simp only [RowKey.same, Write.apply, Write.applyDb]
        rw [Table.any_update]
        exact fun _ => rfl
  | allocation id =>
      cases w <;> try rfl
      case releaseAllocation x time =>
        have hx : ¬ id = x.id := by simpa [Write.rowsOf] using h
        simp [RowKey.same, Write.apply, Db.get?_release, hx]
      all_goals
        simp only [Write.rowsOf, List.mem_cons, List.not_mem_nil, allocation.injEq, reduceCtorEq,
          or_false] at h
        simp [RowKey.same, Write.apply, Write.applyDb, Table.get?_insert, Table.get?_update, h,
          Ne.symm h]
  | activeRun runId =>
      cases w <;> try rfl
      case insertAllocation x =>
        have hx : ¬ x.runId = runId := by simpa [Write.rowsOf, eq_comm] using h
        simp [RowKey.same, Write.apply, Write.applyDb, Db.activeIds_insert, hx]
      case releaseAllocation x time =>
        have hx : ¬ runId = x.runId := by simpa [Write.rowsOf] using h
        simp [RowKey.same, Write.apply, Db.activeIds_release, hx]
      case renewLease x time =>
        simp only [RowKey.same, Write.apply, Write.applyDb]
        rw [Db.activeIds_update]
        · exact fun _ => rfl
        · exact fun _ => rfl
  | leaseToken token =>
      cases w <;> try rfl
      case insertAllocation x =>
        have hx : ¬ x.leaseToken = token := by simpa [Write.rowsOf, eq_comm] using h
        exact (any_insert_of_not (by simpa using hx)).symm
      case releaseAllocation x time =>
        simp only [RowKey.same, Write.apply, Write.applyDb]
        split
        · rw [Table.any_update]
          exact fun _ => rfl
        · rfl
      case renewLease x time =>
        simp only [RowKey.same, Write.apply, Write.applyDb]
        rw [Table.any_update]
        exact fun _ => rfl
  | parameter runId name =>
      cases w <;> try rfl
      case insertParameter x =>
        have hx : ¬ (x.runId = runId ∧ x.name = name) := by
          simpa [Write.rowsOf, eq_comm] using h
        simp [RowKey.same, Write.apply, Write.applyDb, hx]
  | log runId n =>
      cases w <;> try rfl
      case insertLog x =>
        have hx : ¬ (x.runId = runId ∧ x.sequenceNumber = n) := by
          simpa [Write.rowsOf, eq_comm] using h
        simp [RowKey.same, Write.apply, Write.applyDb, hx]
  | artifact runId name =>
      cases w <;> try rfl
      case insertArtifact x =>
        have hx : ¬ (x.runId = runId ∧ x.name = name) := by
          simpa [Write.rowsOf, eq_comm] using h
        simp [RowKey.same, Write.apply, Write.applyDb, hx]
  | storageKey key =>
      cases w <;> try rfl
      case insertArtifact x =>
        have hx : ¬ x.storageKey = key := by simpa [Write.rowsOf, eq_comm] using h
        simp [RowKey.same, Write.apply, Write.applyDb, hx]
  | outbox id =>
      cases w <;> try rfl
      all_goals
        simp only [Write.rowsOf, List.mem_singleton, outbox.injEq] at h
        simp [RowKey.same, Write.apply, Write.applyDb, Table.get?_insert, Table.get?_update, h,
          Ne.symm h]
  | processed m =>
      cases w <;> try rfl
      case insertProcessed x =>
        have hx : ¬ m = x := by simpa [Write.rowsOf] using h
        simp [RowKey.same, Write.apply, Write.applyDb, hx]

theorem Write.check_congr {w : Write} {p p' : Platform} (h : ∀ k ∈ w.rowsOf, k.same p p') :
    w.check p = w.check p' := by
  cases w <;> try rfl
  all_goals
    simp only [Write.rowsOf, List.mem_cons, List.not_mem_nil, or_false, forall_eq_or_imp,
      forall_eq, RowKey.same] at h
    simp only [Write.check, Db.any_active_eq, h]

/-- Whether some row has a property, after an insert into tables that agree
on that and on the inserted key. -/
theorem any_insert_congr {α κ : Type} [DecidableEq κ] {key : α → κ} {t t' : Table key} {a : α}
    {p : α → Bool} (hkey : t.get? (key a) = t'.get? (key a)) (h : t.rows.any p = t'.rows.any p) :
    (t.insert a).rows.any p = (t'.insert a).rows.any p := by
  cases hget : t.get? (key a) with
  | none => simp [Table.rows_insert hget, Table.rows_insert (hkey ▸ hget), h]
  | some b => rw [Table.insert_of_get? hget, Table.insert_of_get? (hkey ▸ hget), h]

theorem RowKey.apply_congr {w : Write} {p p' : Platform} (h : ∀ k ∈ w.rowsOf, k.same p p') :
    ∀ k ∈ w.rowsOf, k.same (w.apply p) (w.apply p') := by
  cases w <;>
    simp only [Write.rowsOf, List.mem_cons, List.not_mem_nil, or_false, forall_eq_or_imp,
      forall_eq, false_imp_iff, implies_true] at h ⊢
  case insertRun run => simp_all [RowKey.same, Write.apply, Write.applyDb, Table.get?_insert]
  case updateRun run => simp_all [RowKey.same, Write.apply, Write.applyDb, Table.get?_update]
  case insertParameter x => simp_all [RowKey.same, Write.apply, Write.applyDb]
  case insertLog x => simp_all [RowKey.same, Write.apply, Write.applyDb]
  case insertArtifact x => simp_all [RowKey.same, Write.apply, Write.applyDb]
  case insertWorker x =>
    refine ⟨?_, any_insert_congr h.1 h.2⟩
    simp_all [RowKey.same, Write.apply, Write.applyDb, Table.get?_insert]
  case updateWorker loaded changed =>
    simp_all [RowKey.same, Write.apply, Write.applyDb, Table.get?_update]
  case insertAllocation x =>
    refine ⟨?_, ?_, any_insert_congr h.1 h.2.2⟩
    · simp_all [RowKey.same, Write.apply, Write.applyDb, Table.get?_insert]
    · simp_all [RowKey.same, Write.apply, Write.applyDb, Db.activeIds_insert]
  case releaseAllocation x time =>
    refine ⟨?_, ?_⟩
    · simp_all [RowKey.same, Write.apply, Db.get?_release]
    · simp_all [RowKey.same, Write.apply, Db.activeIds_release]
  case renewLease x time => simp_all [RowKey.same, Write.apply, Write.applyDb, Table.get?_update]
  case insertOutbox x => simp_all [RowKey.same, Write.apply, Write.applyDb, Table.get?_insert]
  case updateOutbox loaded changed =>
    simp_all [RowKey.same, Write.apply, Write.applyDb, Table.get?_update]
  case insertProcessed x => simp_all [RowKey.same, Write.apply, Write.applyDb]

theorem Call.perform_db (c : Call) (i : Input) (p : Platform) : (c.perform i p).db = p.db := by
  cases c <;> simp only [Call.perform] <;> split <;> rfl

theorem RowKey.same_of_db {k : RowKey} {p p' : Platform} (h : p.db = p'.db) : k.same p p' := by
  cases k <;> simp [RowKey.same, h]

/-- PostgreSQL and what lies outside it, to the sessions of this system. -/
def storage : Storage Platform RowKey Write Call Input Exc where
  rowsOf := Write.rowsOf
  stamp := Write.stamp
  check := Write.check
  apply := Write.apply
  perform := Call.perform
  same := RowKey.same
  lost := .connectionLost
  same_equiv := RowKey.same_equiv
  same_apply h p := RowKey.same_apply h p
  apply_congr := RowKey.apply_congr
  check_congr := Write.check_congr
  same_perform _ c i p := RowKey.same_of_db (c.perform_db i p).symm

end Runscope
