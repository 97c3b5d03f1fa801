import Mathlib.Algebra.Group.Nat.Defs
import Overload.Job.Status

namespace Overload.Job

/-- The answer is a hash map: it has no order. -/
abbrev Page := Std.ExtTreeMap String JobStatus

def usizeAdd (a b : Nat) : Option Nat := if a + b < 2 ^ 64 then some (a + b) else none

def usizeSub (a b : Nat) : Option Nat := if b ≤ a then some (a - b) else none

def pageFrom (offset limit len : Nat) :
    Nat → Page → List (String × JobStatus) → Option Page
  | _, jobStatus, [] => some jobStatus
  | count, jobStatus, (id, status) :: rest =>
    if count > len then some jobStatus
    else do
      let count ← usizeAdd count 1
      -- the difference is only taken behind the offset
      let past ← if count > offset then (usizeSub count offset).map fun n => decide (n > limit)
        else some false
      if past then some jobStatus
      else
        pageFrom offset limit len count
          (if count > offset then jobStatus.insert id status else jobStatus) rest

def getJobStatus (jobId : Option String) (offset limit : Nat) (statusAll : StatusMap) :
    Option Page :=
  match jobId with
  | some jobId => some (.ofList (getStatusByJobId jobId statusAll).toList)
  | none => pageFrom offset limit statusAll.size 0 ∅ statusAll.toList

end Overload.Job

namespace Overload.Cluster

def getJobStatus : Option String → Nat → Nat → Job.StatusMap → Option Job.Page :=
  Job.getJobStatus

end Overload.Cluster

namespace Overload.Job

variable {offset limit len : Nat} {jobs : StatusMap}

theorem usizeAdd_eq {a b : Nat} (h : a + b < 2 ^ 64) : usizeAdd a b = some (a + b) := if_pos h

theorem usizeSub_eq {a b : Nat} (h : b ≤ a) : usizeSub a b = some (a - b) := if_pos h

theorem pageFrom_eq {entries : List (String × JobStatus)} {count : Nat} (jobStatus : Page)
    (hcount : count + entries.length ≤ len) (hlen : len < 2 ^ 64) :
    pageFrom offset limit len count jobStatus entries =
      some (jobStatus.insertMany
        ((entries.drop (offset - count)).take (limit - (count - offset)))) := by
  induction entries generalizing count jobStatus with
  | nil => simp [pageFrom]
  | cons entry rest ih =>
    obtain ⟨id, status⟩ := entry
    rw [List.length_cons] at hcount
    have hnext : usizeAdd count 1 = some (count + 1) := usizeAdd_eq (by omega)
    have hrest : count + 1 + rest.length ≤ len := by omega
    simp only [pageFrom, if_neg (show ¬ count > len by omega), hnext, Option.bind_eq_bind,
      Option.bind_some]
    by_cases hoffset : count + 1 > offset
    · have hskip : offset - count = 0 := by omega
      rw [if_pos hoffset, if_pos hoffset, usizeSub_eq (by omega), hskip, List.drop_zero]
      by_cases hpast : count + 1 - offset > limit
      · have htake : limit - (count - offset) = 0 := by omega
        simp [hpast, htake]
      · have htake : limit - (count - offset) = limit - (count + 1 - offset) + 1 := by omega
        have hskip' : offset - (count + 1) = 0 := by omega
        simp [hpast, ih _ hrest, htake, hskip', Std.ExtTreeMap.insertMany_cons]
    · have hskip : offset - count = offset - (count + 1) + 1 := by omega
      have htake : count - offset = count + 1 - offset := by omega
      rw [if_neg hoffset, if_neg hoffset, hskip, List.drop_succ_cons, htake]
      simp [ih _ hrest]

theorem getJobStatus_eq (hsize : jobs.size < 2 ^ 64) (offset limit : Nat) :
    getJobStatus none offset limit jobs =
      some (.ofList ((jobs.toList.drop offset).take limit)) := by
  have hlength : jobs.toList.length = jobs.size := Std.TreeMap.length_toList
  rw [getJobStatus, pageFrom_eq ∅ (by omega) hsize, Std.ExtTreeMap.ofList_eq_insertMany_empty,
    Nat.sub_zero, Nat.zero_sub, Nat.sub_zero]

def IsPage (jobs : StatusMap) (offset limit : Nat) (page : Page) : Prop :=
  ∀ id status, page[id]? = some status ↔
    ∃ i, offset ≤ i ∧ i < offset + limit ∧ jobs.toList[i]? = some (id, status)

theorem mem_window {α : Type} {entries : List α} {a : α} :
    a ∈ (entries.drop offset).take limit ↔
      ∃ i, offset ≤ i ∧ i < offset + limit ∧ entries[i]? = some a := by
  rw [List.mem_iff_getElem?]
  simp only [List.getElem?_take, List.getElem?_drop]
  constructor
  · rintro ⟨j, hj⟩
    split at hj
    · exact ⟨offset + j, by omega, by omega, hj⟩
    · cases hj
  · rintro ⟨i, hle, hlt, hi⟩
    refine ⟨i - offset, ?_⟩
    rw [if_pos (by omega), Nat.add_sub_cancel' hle, hi]

theorem isPage_window :
    IsPage jobs offset limit (.ofList ((jobs.toList.drop offset).take limit)) := by
  have hdistinct : ((jobs.toList.drop offset).take limit).Pairwise
      fun a b => ¬ compare a.1 b.1 = .eq :=
    Std.TreeMap.distinct_keys_toList.sublist
      ((List.take_sublist _ _).trans (List.drop_sublist _ _))
  intro id status
  rw [← mem_window]
  constructor
  · intro hpage
    have hmem : id ∈ Std.ExtTreeMap.ofList ((jobs.toList.drop offset).take limit) compare := by
      rw [Std.ExtTreeMap.mem_iff_isSome_getElem?, hpage]
      rfl
    rw [Std.ExtTreeMap.mem_ofList, List.contains_iff_mem, List.mem_map] at hmem
    obtain ⟨⟨id', status'⟩, hentry, rfl⟩ := hmem
    rw [Std.ExtTreeMap.getElem?_ofList_of_mem Std.ReflCmp.compare_self hdistinct hentry] at hpage
    cases hpage
    exact hentry
  · exact Std.ExtTreeMap.getElem?_ofList_of_mem Std.ReflCmp.compare_self hdistinct

theorem position_unique {i j : Nat} {id : String} {status status' : JobStatus}
    (hi : jobs.toList[i]? = some (id, status)) (hj : jobs.toList[j]? = some (id, status')) :
    i = j := by
  have hkeys : (jobs.toList.map Prod.fst).Nodup := by
    rw [List.Nodup, List.pairwise_map]
    refine Std.TreeMap.distinct_keys_toList.imp fun {a b} hne heq => hne ?_
    rw [heq]
    exact Std.ReflCmp.compare_self
  have hi' : (jobs.toList.map Prod.fst)[i]? = some id := by rw [List.getElem?_map, hi]; rfl
  have hj' : (jobs.toList.map Prod.fst)[j]? = some id := by rw [List.getElem?_map, hj]; rfl
  exact (List.getElem?_inj (List.getElem?_eq_some_iff.mp hi').1 hkeys).mp (hi'.trans hj'.symm)

theorem IsPage.mem {page : Page} {id : String} (hpage : IsPage jobs offset limit page) :
    id ∈ page ↔ ∃ i status, offset ≤ i ∧ i < offset + limit ∧
      jobs.toList[i]? = some (id, status) := by
  rw [Std.ExtTreeMap.mem_iff_isSome_getElem?, Option.isSome_iff_exists]
  constructor
  · rintro ⟨status, hstatus⟩
    obtain ⟨i, hi⟩ := (hpage id status).mp hstatus
    exact ⟨i, status, hi⟩
  · rintro ⟨i, status, hi⟩
    exact ⟨status, (hpage id status).mpr ⟨i, hi⟩⟩

/-- Page `k` of the status map is the one with the offset `k * limit`: a job is on the page
that its position falls on, and on no other. -/
theorem getJobStatus_partitions
    {get : Option String → Nat → Nat → StatusMap → Option Page}
    (hget : get = Job.getJobStatus ∨ get = Cluster.getJobStatus) (hsize : jobs.size < 2 ^ 64)
    (hlimit : 1 ≤ limit) :
    (∀ offset, ∃ page, get none offset limit jobs = some page ∧
        IsPage jobs offset limit page) ∧
      ∀ id ∈ jobs, ∃! k, ∃ page, get none (k * limit) limit jobs = some page ∧ id ∈ page := by
  have heq : get = Job.getJobStatus := hget.elim id id
  subst heq
  refine ⟨fun offset => ⟨_, getJobStatus_eq hsize offset limit, isPage_window⟩, ?_⟩
  intro id hid
  obtain ⟨status, hstatus⟩ :=
    Option.isSome_iff_exists.mp (Std.TreeMap.mem_iff_isSome_getElem?.mp hid)
  obtain ⟨i, hi⟩ :=
    List.mem_iff_getElem?.mp (Std.TreeMap.mem_toList_iff_getElem?_eq_some.mpr hstatus)
  have hmod := Nat.mod_add_div' i limit
  have hlt := Nat.mod_lt i hlimit
  refine ⟨i / limit, ⟨_, getJobStatus_eq hsize _ _, isPage_window.mem.mpr ?_⟩, ?_⟩
  · exact ⟨i, status, by omega, by omega, hi⟩
  · rintro k ⟨page, hpage, hmem⟩
    rw [getJobStatus_eq hsize] at hpage
    cases hpage
    obtain ⟨j, status', hle, hlt', hj⟩ := isPage_window.mem.mp hmem
    obtain rfl := position_unique hi hj
    refine (Nat.div_eq_of_lt_le hle ?_).symm
    rwa [Nat.succ_mul]

def threeJobs : StatusMap := .ofList
  [("a", JobStatus.completed), ("b", JobStatus.inProgress), ("c", JobStatus.starting)]

theorem getJobStatus_partitions_threeJobs :
    ((∀ offset, ∃ page, Cluster.getJobStatus none offset 2 threeJobs = some page ∧
        IsPage threeJobs offset 2 page) ∧
      ∀ id ∈ threeJobs, ∃! k, ∃ page,
        Cluster.getJobStatus none (k * 2) 2 threeJobs = some page ∧ id ∈ page) ∧
      "c" ∈ threeJobs :=
  ⟨getJobStatus_partitions (.inr rfl) (by decide) (by decide), by decide⟩

end Overload.Job
