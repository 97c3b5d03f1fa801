import Mathlib.Data.List.Induction

namespace Overload.Job

inductive ErrorCode
  | inactiveCluster
  | noSecondary
  | sqliteOpenFailed
  | preparationFailed
  | secondaryClusterNode
  | requestFileNotFound
  | luaParseFailure
  | bodyGenerationFailure
  | uriParamGenerationFailure
  | others
  deriving DecidableEq, Repr

inductive JobStatus
  | starting
  | inProgress
  | stopped
  | completed
  | failed
  | error (code : ErrorCode)
  deriving DecidableEq, Repr

def JobStatus.finished : JobStatus → Bool
  | .failed | .stopped | .completed => true
  | _ => false

abbrev StatusMap := Std.TreeMap String JobStatus

def startsWith (id jobId : String) : Bool := jobId.toList.isPrefixOf id.toList

/-- One critical section: every matching entry becomes `Stopped`, and the call
answers with what it replaced. -/
def stopRequestByJobId (jobId : String) (jobStatus : StatusMap) :
    StatusMap × List (String × Option JobStatus) :=
  (jobStatus.map fun id status => if startsWith id jobId then .stopped else status,
    (jobStatus.toList.filter fun entry => startsWith entry.1 jobId).map fun entry =>
      (entry.1, some entry.2))

def getStatusByJobId (jobId : String) (jobStatus : StatusMap) : StatusMap :=
  jobStatus.filter fun id _ => startsWith id jobId

def cleanupRead (predicate : JobStatus → Bool) (jobStatus : StatusMap) : List String :=
  (jobStatus.toList.filter fun entry => predicate entry.2).map Prod.fst

def cleanupWrite (indices : List String) (jobStatus : StatusMap) : StatusMap :=
  indices.foldl (fun jobStatus id => jobStatus.erase id) jobStatus

variable {jobStatus : StatusMap} {id jobId : String} {status : JobStatus}

theorem getElem?_stopRequestByJobId :
    (stopRequestByJobId jobId jobStatus).1[id]? =
      jobStatus[id]?.map fun status => if startsWith id jobId then .stopped else status :=
  Std.TreeMap.getElem?_map

theorem mem_stopRequestByJobId :
    (id, some status) ∈ (stopRequestByJobId jobId jobStatus).2 ↔
      startsWith id jobId = true ∧ jobStatus[id]? = some status := by
  simp only [stopRequestByJobId, List.mem_map, List.mem_filter, Prod.mk.injEq, Option.some.injEq,
    Prod.exists, Std.TreeMap.mem_toList_iff_getElem?_eq_some]
  constructor
  · rintro ⟨id', status', ⟨hmem, hstarts⟩, rfl, rfl⟩
    exact ⟨hstarts, hmem⟩
  · rintro ⟨hstarts, hmem⟩
    exact ⟨id, status, ⟨hmem, hstarts⟩, rfl, rfl⟩

theorem getElem?_getStatusByJobId :
    (getStatusByJobId jobId jobStatus)[id]? =
      jobStatus[id]?.filter fun _ => startsWith id jobId :=
  Std.TreeMap.getElem?_filter'

theorem getElem?_cleanupWrite (indices : List String) :
    (cleanupWrite indices jobStatus)[id]? = if id ∈ indices then none else jobStatus[id]? := by
  induction indices generalizing jobStatus with
  | nil => rfl
  | cons i indices ih =>
    change (cleanupWrite indices (jobStatus.erase i))[id]? = _
    rw [ih, Std.TreeMap.getElem?_erase]
    by_cases hi : i = id
    · subst hi
      simp
    · have hne : ¬ id = i := fun h => hi h.symm
      simp [hi, hne]

end Overload.Job
