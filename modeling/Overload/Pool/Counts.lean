import Overload.Transition

namespace Overload.Pool

open Transition

inductive Stage
  | idle
  | resizing (connectionCount : Nat)
  | claiming (connectionRequest returnedToPool : Nat)
  | checking (connectionRequest futures vec lost : Nat)
  | panicked
  deriving DecidableEq, Repr

def Stage.credited : Stage → Nat
  | .claiming _ returnedToPool => returnedToPool
  | _ => 0

def Stage.inHand : Stage → Nat
  | .checking _ futures vec lost => futures + vec + lost
  | _ => 0

structure Counts where
  queue : Nat
  fresh : Nat
  recyclable : Nat
  busy : Nat
  out : Nat
  attempts : Nat
  failed : Nat
  size : Int
  elastic : Bool
  stage : Stage
  deriving DecidableEq, Repr

inductive Event
  | setSize (count : Nat)
  | resize
  | claim (request : Nat)
  | prepare (expired : Nat)
  | check (ok : Bool)
  | handOut
  | giveBack
  | remove (count : Nat)
  | fail (count : Nat)
  | arrive (count : Nat)
  | pause
  deriving DecidableEq, Repr

namespace Counts

def active (s : Counts) : Nat := s.fresh + s.busy + s.queue

def kept (s : Counts) (busy : Nat) : Nat :=
  if s.elastic = false ∧ s.size < s.queue + s.fresh + busy then
    min (max 0 (s.size - busy)).toNat (s.queue + s.fresh)
  else s.queue + s.fresh

def shortage (s : Counts) (request : Nat) : Nat :=
  if s.elastic then request - (s.queue + s.fresh) else 0

def setSize (s : Counts) (count : Nat) : Counts :=
  let t := { s with
    queue := min s.queue count
    elastic := s.elastic && decide (count = s.size.toNat) }
  if s.size < count then { t with stage := .resizing count } else { t with size := count }

def prepare (s : Counts) (request returned expired : Nat) : Counts :=
  if s.busy < returned then
    { s with queue := s.queue + s.fresh, fresh := 0, stage := .panicked }
  else
    let kept := s.kept (s.busy - returned)
    { s with
      queue := kept - request
      fresh := 0
      busy := s.busy - returned
      attempts := s.attempts + s.shortage request
      stage := .checking request (min request kept - expired) 0 expired }

def step (s : Counts) : Event → Option Counts
  | .setSize count =>
    match s.stage with
    | .idle => some (s.setSize count)
    | _ => none
  | .resize =>
    match s.stage with
    | .resizing count =>
      some { s with
        size := count
        attempts := s.attempts + (count - s.active)
        stage := .idle }
    | _ => none
  | .claim request =>
    match s.stage with
    | .idle =>
      some { s with
        queue := s.queue + s.recyclable
        recyclable := 0
        stage := .claiming request s.recyclable }
    | _ => none
  | .prepare expired =>
    match s.stage with
    | .claiming request returned =>
      if expired ≤ min request (s.kept (s.busy - returned)) then
        some (s.prepare request returned expired)
      else none
    | _ => none
  | .check ok =>
    match s.stage with
    | .checking request (futures + 1) vec lost =>
      some { s with stage :=
        if ok then .checking request futures (vec + 1) lost
        else .checking request futures vec (lost + 1) }
    | _ => none
  | .handOut =>
    match s.stage with
    | .checking _ 0 vec lost =>
      some { s with
        busy := s.busy + vec
        out := s.out + vec
        attempts := s.attempts + (lost + s.failed)
        failed := 0
        stage := .idle }
    | _ => none
  | .giveBack =>
    if 0 < s.out then some { s with out := s.out - 1, recyclable := s.recyclable + 1 } else none
  | .remove count => some { s with fresh := s.fresh - count }
  | .fail count =>
    if count ≤ s.attempts then
      some { s with attempts := s.attempts - count, failed := s.failed + count }
    else none
  | .arrive count =>
    if count ≤ s.attempts then
      some { s with attempts := s.attempts - count, fresh := s.fresh + count }
    else none
  | .pause => some s

inductive Steps (s : Counts) : Event → Counts → Prop
  | setSize {count : Nat} (hstage : s.stage = .idle) : Steps s (.setSize count) (s.setSize count)
  | resize {count : Nat} (hstage : s.stage = .resizing count) :
    Steps s .resize { s with
      size := count, attempts := s.attempts + (count - s.active), stage := .idle }
  | claim {request : Nat} (hstage : s.stage = .idle) :
    Steps s (.claim request) { s with
      queue := s.queue + s.recyclable, recyclable := 0, stage := .claiming request s.recyclable }
  | prepare {request returned expired : Nat} (hstage : s.stage = .claiming request returned)
    (hexpired : expired ≤ min request (s.kept (s.busy - returned))) :
    Steps s (.prepare expired) (s.prepare request returned expired)
  | ready {request futures vec lost : Nat}
    (hstage : s.stage = .checking request (futures + 1) vec lost) :
    Steps s (.check true) { s with stage := .checking request futures (vec + 1) lost }
  | broken {request futures vec lost : Nat}
    (hstage : s.stage = .checking request (futures + 1) vec lost) :
    Steps s (.check false) { s with stage := .checking request futures vec (lost + 1) }
  | handOut {request vec lost : Nat} (hstage : s.stage = .checking request 0 vec lost) :
    Steps s .handOut { s with
      busy := s.busy + vec, out := s.out + vec, attempts := s.attempts + (lost + s.failed)
      failed := 0, stage := .idle }
  | giveBack (hout : 0 < s.out) :
    Steps s .giveBack { s with out := s.out - 1, recyclable := s.recyclable + 1 }
  | remove {count : Nat} : Steps s (.remove count) { s with fresh := s.fresh - count }
  | fail {count : Nat} (hcount : count ≤ s.attempts) :
    Steps s (.fail count) { s with attempts := s.attempts - count, failed := s.failed + count }
  | arrive {count : Nat} (hcount : count ≤ s.attempts) :
    Steps s (.arrive count) { s with attempts := s.attempts - count, fresh := s.fresh + count }
  | pause : Steps s .pause s

theorem Steps.of_step {s t : Counts} {e : Event} (h : s.step e = some t) : s.Steps e t := by
  cases e with
  | check ok =>
    simp only [step] at h
    split at h
    · cases h
      cases ok
      · exact .broken ‹_›
      · exact .ready ‹_›
    · cases h
  | prepare expired =>
    simp only [step] at h
    split at h
    · split at h
      · cases h
        exact .prepare ‹_› ‹_›
      · cases h
    · cases h
  | remove count =>
    cases h
    exact .remove
  | pause =>
    cases h
    exact .pause
  | _ =>
    simp only [step] at h
    split at h
    · cases h
      constructor
      assumption
    · cases h

def Initial (s : Counts) : Prop :=
  ∃ elastic, s = ⟨0, 0, 0, 0, 0, 0, 0, 0, elastic, .idle⟩

def Fits (s : Counts) : Prop :=
  match s.stage with
  | .checking request futures vec _ =>
    futures + vec ≤ request ∧
      (s.elastic = false → 0 < futures + vec → (s.busy + futures + vec : Int) ≤ s.size)
  | .panicked => False
  | _ => True

structure Sound (s : Counts) : Prop where
  balance : s.busy = s.out + s.recyclable + s.stage.credited
  fits : s.Fits

theorem Sound.of_initial {s : Counts} (h : Initial s) : s.Sound := by
  obtain ⟨elastic, rfl⟩ := h
  exact ⟨rfl, trivial⟩

theorem kept_le_size {s : Counts} (busy : Nat) (he : s.elastic = false)
    (hpos : 0 < s.kept busy) : (busy + s.kept busy : Int) ≤ s.size := by
  unfold kept at *
  by_cases hover : s.size < s.queue + s.fresh + busy
  · rw [if_pos ⟨he, hover⟩] at *
    omega
  · rw [if_neg (fun h => hover h.2)] at *
    omega

theorem size_le_kept {s : Counts} (busy : Nat) (h : s.kept busy < s.queue + s.fresh) :
    s.size ≤ busy + s.kept busy := by
  unfold kept at *
  by_cases hover : s.elastic = false ∧ s.size < s.queue + s.fresh + busy
  · rw [if_pos hover] at *
    omega
  · rw [if_neg hover] at h
    omega

theorem kept_le (s : Counts) (busy : Nat) : s.kept busy ≤ s.queue + s.fresh := by
  unfold kept
  split <;> omega

theorem Sound.prepare {s : Counts} {request returned expired : Nat} (hs : s.Sound)
    (hstage : s.stage = .claiming request returned)
    (hexp : expired ≤ min request (s.kept (s.busy - returned))) :
    (s.prepare request returned expired).Sound := by
  have hbal := hs.balance
  rw [hstage] at hbal
  have hle : ¬ s.busy < returned := by
    simp only [Stage.credited] at hbal
    omega
  simp only [Counts.prepare, if_neg hle]
  constructor
  · simp only [Stage.credited] at hbal ⊢
    omega
  · simp only [Fits]
    refine ⟨by omega, ?_⟩
    intro he hpos
    have hk := kept_le_size (s.busy - returned) he (by omega)
    omega

theorem Sound.step {s t : Counts} {e : Event} (hs : s.Sound) (h : s.step e = some t) :
    t.Sound := by
  have hbal := hs.balance
  have hfits := hs.fits
  cases Steps.of_step h with
  | setSize hstage =>
    simp only [setSize]
    split
    · exact ⟨by simpa [hstage, Stage.credited] using hbal, trivial⟩
    · exact ⟨by simpa using hbal, by simp [Fits, hstage]⟩
  | resize hstage => exact ⟨by simpa [hstage, Stage.credited] using hbal, trivial⟩
  | claim hstage => exact ⟨by simpa [hstage, Stage.credited] using hbal, trivial⟩
  | prepare hstage hexpired => exact hs.prepare hstage hexpired
  | ready hstage =>
    simp only [Fits, hstage] at hfits
    exact ⟨by simpa [hstage, Stage.credited] using hbal, by simp only [Fits]; grind⟩
  | broken hstage =>
    simp only [Fits, hstage] at hfits
    exact ⟨by simpa [hstage, Stage.credited] using hbal, by simp only [Fits]; grind⟩
  | handOut hstage =>
    simp only [hstage, Stage.credited] at hbal
    exact ⟨by simp only [Stage.credited]; omega, trivial⟩
  | giveBack hout => exact ⟨by simp only; omega, hfits⟩
  | remove => exact ⟨hbal, hfits⟩
  | fail hcount => exact ⟨hbal, hfits⟩
  | arrive hcount => exact ⟨hbal, hfits⟩
  | pause => exact hs

theorem sound_of_reachable {s : Counts} (h : Reachable Counts.step Initial s) : s.Sound :=
  h.invariant (fun _ => Sound.of_initial) (fun _ _ _ hs hst => hs.step hst)

/-- Everything the pool has, has lent or is trying to get, each counted once. -/
def supply (s : Counts) : Nat :=
  s.queue + s.fresh + s.recyclable + s.out + s.attempts + s.failed + s.stage.inHand

def shed (s : Counts) : Event → Nat
  | .setSize count => s.queue - count
  | .prepare _ =>
    match s.stage with
    | .claiming _ returned => s.queue + s.fresh - s.kept (s.busy - returned)
    | _ => 0
  | .remove count => min count s.fresh
  | _ => 0

def grown (s : Counts) : Event → Nat
  | .resize =>
    match s.stage with
    | .resizing count => count - s.active
    | _ => 0
  | .prepare _ =>
    match s.stage with
    | .claiming request _ => s.shortage request
    | _ => 0
  | _ => 0

variable {s t : Counts} {e : Event}

theorem supply_prepare {request returned expired : Nat} (hs : s.Sound)
    (hstage : s.stage = .claiming request returned)
    (hexp : expired ≤ min request (s.kept (s.busy - returned))) :
    (s.prepare request returned expired).supply
        + (s.queue + s.fresh - s.kept (s.busy - returned)) =
      s.supply + s.shortage request := by
  have hbal := hs.balance
  rw [hstage] at hbal
  simp only [Stage.credited] at hbal
  have hkept := kept_le s (s.busy - returned)
  simp only [prepare, if_neg (show ¬ s.busy < returned by omega), supply, hstage, Stage.inHand]
  omega

theorem supply_step (hs : s.Sound) (h : s.step e = some t) :
    t.supply + s.shed e = s.supply + s.grown e := by
  cases Steps.of_step h with
  | setSize hstage =>
    simp only [setSize, shed, grown]
    split <;> simp only [supply, hstage, Stage.inHand] <;> omega
  | resize hstage =>
    simp only [supply, shed, grown, hstage, Stage.inHand]
    omega
  | claim hstage =>
    simp only [supply, shed, grown, hstage, Stage.inHand]
    omega
  | prepare hstage hexpired =>
    simp only [shed, grown, hstage]
    exact supply_prepare hs hstage hexpired
  | ready hstage =>
    simp only [supply, shed, grown, hstage, Stage.inHand]
    omega
  | broken hstage =>
    simp only [supply, shed, grown, hstage, Stage.inHand]
    omega
  | handOut hstage =>
    simp only [supply, shed, grown, hstage, Stage.inHand]
    omega
  | giveBack hout =>
    simp only [supply, shed, grown]
    omega
  | remove =>
    simp only [supply, shed, grown]
    omega
  | fail hcount =>
    simp only [supply, shed, grown]
    omega
  | arrive hcount =>
    simp only [supply, shed, grown]
    omega
  | pause => rfl

theorem size_le_supply_iff (hs : s.Sound) (h : s.step e = some t) (hle : s.size ≤ s.supply) :
    t.size ≤ t.supply ↔ ∀ count, e = .remove count → s.size + min count s.fresh ≤ s.supply := by
  have hsup := supply_step hs h
  have hbal := hs.balance
  cases Steps.of_step h with
  | remove =>
    simp only [shed, grown, Event.remove.injEq, forall_eq'] at hsup ⊢
    omega
  | setSize hstage =>
    simp only [setSize, shed, grown] at hsup ⊢
    split at * <;> simp only [supply, hstage, Stage.inHand] at * <;> grind
  | resize hstage =>
    simp only [hstage, Stage.credited, supply, Stage.inHand, active] at *
    grind
  | @prepare request returned expired hstage hexpired =>
    rw [hstage] at hbal
    simp only [Stage.credited] at hbal
    have hsize := size_le_kept (s := s) (s.busy - returned)
    have hkept := kept_le s (s.busy - returned)
    simp only [prepare, if_neg (show ¬ s.busy < returned by omega), supply, shed, grown,
      hstage, Stage.inHand] at *
    grind
  | _ =>
    simp only [shed, grown] at hsup
    simp only [reduceCtorEq, false_implies, implies_true, iff_true]
    omega

end Counts

end Overload.Pool
