import Overload.Job.Identity
import Overload.Job.Status

namespace Overload.Job

variable {jobId id : String} {jobStatus : StatusMap}

def InFamily (jobId id : String) : Prop := id = jobId ∨ ∃ idx, id = subJobId jobId idx

structure AddressesFamily (jobId : String) (jobStatus : StatusMap) : Prop where
  stops : ∀ id ∈ jobStatus, InFamily jobId id →
    (stopRequestByJobId jobId jobStatus).1[id]? = some .stopped
  leaves : ∀ id, ¬ InFamily jobId id →
    (stopRequestByJobId jobId jobStatus).1[id]? = jobStatus[id]?
  reports : ∀ id, id ∈ getStatusByJobId jobId jobStatus ↔ id ∈ jobStatus ∧ InFamily jobId id

theorem mem_getStatusByJobId :
    id ∈ getStatusByJobId jobId jobStatus ↔ id ∈ jobStatus ∧ startsWith id jobId = true := by
  rw [Std.TreeMap.mem_iff_isSome_getElem?, Std.TreeMap.mem_iff_isSome_getElem?,
    getElem?_getStatusByJobId]
  cases jobStatus[id]? with
  | none => simp
  | some status => simp [Option.filter]

theorem stopRequestByJobId_stops (hid : id ∈ jobStatus) (h : startsWith id jobId = true) :
    (stopRequestByJobId jobId jobStatus).1[id]? = some .stopped := by
  rw [getElem?_stopRequestByJobId, Std.TreeMap.getElem?_eq_some_getElem hid, Option.map_some,
    if_pos h]

theorem stopRequestByJobId_frame (h : ¬ startsWith id jobId = true) :
    (stopRequestByJobId jobId jobStatus).1[id]? = jobStatus[id]? := by
  simp [getElem?_stopRequestByJobId, h]

theorem startsWith_of_inFamily (h : InFamily jobId id) : startsWith id jobId = true := by
  rw [startsWith, List.isPrefixOf_iff_prefix]
  obtain rfl | ⟨idx, rfl⟩ := h
  · exact List.prefix_rfl
  · rw [subJobId, String.toList_append, String.toList_append, List.append_assoc]
    exact List.prefix_append _ _

/-- A stop and a status request reach one family exactly when no other id of the table
begins with the id asked for. -/
theorem addressesFamily_iff (jobId : String) (jobStatus : StatusMap) :
    AddressesFamily jobId jobStatus ↔
      ∀ id ∈ jobStatus, ¬ InFamily jobId id → startsWith id jobId = false := by
  constructor
  · intro h id hid hfamily
    rw [Bool.eq_false_iff]
    intro hstarts
    exact hfamily ((h.reports id).mp (mem_getStatusByJobId.mpr ⟨hid, hstarts⟩)).2
  · intro h
    refine ⟨fun id hid hfamily => ?_, fun id hfamily => ?_, fun id => ?_⟩
    · exact stopRequestByJobId_stops hid (startsWith_of_inFamily hfamily)
    · by_cases hid : id ∈ jobStatus
      · exact stopRequestByJobId_frame (Bool.eq_false_iff.mp (h id hid hfamily))
      · rw [getElem?_stopRequestByJobId, Std.TreeMap.getElem?_eq_none hid, Option.map_none]
    · rw [mem_getStatusByJobId]
      refine and_congr_right fun hid => ⟨fun hstarts => ?_, startsWith_of_inFamily⟩
      by_contra hfamily
      exact Bool.eq_false_iff.mp (h id hid hfamily) hstarts

def lastSubJobs : StatusMap :=
  Std.TreeMap.insert (Std.TreeMap.insert ∅ "7e19ae6b-59af-4916-8cc0-a04cc48a739b_1" .inProgress)
    "7e19ae6b-59af-4916-8cc0-a04cc48a739b_10" .inProgress

theorem stop_one_stops_ten :
    lastSubJobs["7e19ae6b-59af-4916-8cc0-a04cc48a739b_10"]? = some .inProgress ∧
      (stopRequestByJobId "7e19ae6b-59af-4916-8cc0-a04cc48a739b_1"
          lastSubJobs).1["7e19ae6b-59af-4916-8cc0-a04cc48a739b_10"]? = some .stopped ∧
      ¬ AddressesFamily "7e19ae6b-59af-4916-8cc0-a04cc48a739b_1" lastSubJobs := by
  refine ⟨by decide +kernel, by decide +kernel, fun h => ?_⟩
  have hreported := (h.reports "7e19ae6b-59af-4916-8cc0-a04cc48a739b_10").mp (by decide +kernel)
  obtain heq | ⟨idx, heq⟩ := hreported.2
  · exact absurd heq (by decide)
  · -- behind the id asked for stands a digit, not an underscore
    have htext := congrArg String.toList heq
    rw [subJobId, String.toList_append, String.toList_append, List.append_assoc,
      show "7e19ae6b-59af-4916-8cc0-a04cc48a739b_10".toList =
        "7e19ae6b-59af-4916-8cc0-a04cc48a739b_1".toList ++ ['0'] from by decide] at htext
    have hzero := List.append_cancel_left htext
    exact absurd (List.cons.inj hzero).1 (by decide)

end Overload.Job
