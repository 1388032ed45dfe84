import Runscope.Models

/-!
Request bodies (`schemas/runs.py`, `schemas/workers.py`) and settings. A body
that violates a bound of its schema never reaches a command, so the bounds
are fields.
-/

namespace Runscope

structure RunCreate where
  experimentId : Uuid
  templateKey : String
  templateVersion : String
  parameters : Record
  requestedCpu : ℚ
  requestedMemoryMb : ℤ
  priority : ℤ
  notes : String
  tags : List String
  templateKey_length : 1 ≤ templateKey.length ∧ templateKey.length ≤ 100
  templateVersion_length : 1 ≤ templateVersion.length ∧ templateVersion.length ≤ 40
  requestedCpu_bounds : 1 / 10 ≤ requestedCpu ∧ requestedCpu ≤ 4
  requestedMemoryMb_bounds : 128 ≤ requestedMemoryMb ∧ requestedMemoryMb ≤ 8192
  priority_bounds : -10 ≤ priority ∧ priority ≤ 10
  notes_length : notes.length ≤ 4000
  tags_length : tags.length ≤ 20

theorem RunCreate.requestedCpu_pos (body : RunCreate) : 0 < body.requestedCpu :=
  lt_of_lt_of_le (by decide +kernel) body.requestedCpu_bounds.1

theorem RunCreate.requestedMemoryMb_pos (body : RunCreate) : 0 < body.requestedMemoryMb :=
  lt_of_lt_of_le (by decide) body.requestedMemoryMb_bounds.1

structure RunRetryRequest where
  parameterOverrides : Record

structure RunMetadataUpdate where
  notes : String
  tags : List String
  notes_length : notes.length ≤ 4000
  tags_length : tags.length ≤ 20

/-- The totals a worker registers with. -/
structure WorkerTotals where
  cpu : ℚ
  memoryMb : ℤ
  cpu_pos : 0 < cpu
  memoryMb_pos : 0 < memoryMb

structure Settings where
  brokerTopic : String
  allocationLeaseSeconds : ℤ
  workerStaleSeconds : ℤ

end Runscope
